import OpenGauss.Mot.IndexKey.Lemmas

/-!
This module contains the packing of the values of a row into the slots of its columns.
-/

open LittleEndian List Memory

namespace Mot

variable (packing : Packing) (src : Bytes)

-- What `sql_compatibility` and the encoding of the server decide.
structure Session where
  bFormat : Bool
  mbstrlen : Bytes → Nat

namespace Column

def memcpyS (data : Memory) (dest destMax : Nat) (src : Bytes) : Option Memory :=
  if destMax = 0 ∨ destMax < src.length then none else some (data.store dest src)

def packWord (w : Nat) (data : Memory) (offset : Nat) (src : UInt64) : Memory :=
  data.store offset (LittleEndian.encode w src.toNat)

def packVarchar (session : Session) (size : Nat) (data : Memory) (offset : Nat) (src : Bytes)
    : Option Memory :=
  let tlen := if session.bFormat then session.mbstrlen src else src.length
  if size - 4 < tlen then
    none
  else
    let data := data.store offset (LittleEndian.encode 4 src.length)
    memcpyS data (offset + 4) (if size - 4 < src.length then src.length else size - 4) src

def packBlob (size : Nat) (data : Memory) (offset : Nat) (src : Bytes) : Option Memory :=
  if size - 4 < src.length then
    none
  else
    let data := data.store offset (LittleEndian.encode 4 src.length)
    memcpyS data (offset + 4) (size - 4) src

-- The row after `Pack`, if it returns true.
def packAs (session : Session) (size : Nat) (data : Memory) (offset : Nat)
    : (type : ColumnType) → type.Datum → Option Memory
  | .char, src => some (packWord 1 data offset src)
  | .tiny, src => some (packWord 1 data offset src)
  | .short, src => some (packWord 2 data offset src)
  | .int, src => some (packWord 4 data offset src)
  | .long, src => some (packWord 8 data offset src)
  | .float, src => some (packWord 4 data offset src)
  | .double, src => some (packWord 8 data offset src)
  | .date, src => some (packWord 4 data offset src)
  | .time, src => some (packWord 8 data offset src)
  | .timestamp, src => some (packWord 8 data offset src)
  | .timestamptz, src => some (packWord 8 data offset src)
  | .interval, src => some (data.store offset (src.take 16))
  | .tinterval, src => some (data.store offset (src.take 12))
  | .timetz, src => some (data.store offset (src.take 12))
  | .decimal, src => memcpyS data offset size (src.take size)
  | .varchar, src => packVarchar session size data offset src
  | .blob, src => packBlob size data offset src
  | .nullbytes, src => if size < src.length then none else memcpyS data offset size src

def pack (col : Column) (session : Session) (data : Memory) (src : col.type.Datum) : Option Memory :=
  packAs session col.size data col.offset col.type src

end Column

-- `DECIMAL_SIZE`: the number of digits is behind the flags, the weight and the scale.
def decimalSize (header : Bytes) : Nat :=
  9 + 2 * LittleEndian.decode ((header.drop 5).take 2)

-- The values `Pack` is called with: structures of their size, strings whose length is a number of 32 bits.
def ColumnType.Valid : (type : ColumnType) → type.Datum → Prop
  | .interval, src => src.length = 16
  | .tinterval, src => src.length = 12
  | .timetz, src => src.length = 12
  | .decimal, src => src.length = decimalSize src
  | .varchar, src => src.length < 2 ^ 32
  | .blob, src => src.length < 2 ^ 32
  | _, _ => True

-- What is read from the slot is the value: `UnpackRow` takes the size of a decimal from the decimal.
def ColumnType.Reads (data : Memory) (offset : Nat) : (type : ColumnType) → type.Datum → Prop
  | .char, src | .tiny, src => Column.loadWord 1 data offset = UInt64.ofNat (getBytes1 src)
  | .short, src => Column.loadWord 2 data offset = UInt64.ofNat (getBytes2 src)
  | .int, src | .float, src | .date, src => Column.loadWord 4 data offset = UInt64.ofNat (getBytes4 src)
  | .long, src | .double, src | .time, src | .timestamp, src | .timestamptz, src =>
    Column.loadWord 8 data offset = src
  | .interval, src => Column.unpackAs data offset .interval = src
  | .tinterval, src => Column.unpackAs data offset .tinterval = src
  | .timetz, src => Column.unpackAs data offset .timetz = src
  | .decimal, src => data.load offset (decimalSize (data.load offset 9)) = src
  | .varchar, src => Column.unpackAs data offset .varchar = src
  | .blob, src => Column.unpackAs data offset .blob = src
  | .nullbytes, src => data.load offset src.length = src

structure Packing where
  col : Column
  src : col.type.Datum
  valid : col.type.Valid src

namespace Packing

def pack (packing : Packing) (session : Session) (data : Memory) : Option Memory :=
  packing.col.pack session data packing.src

def Reads (packing : Packing) (data : Memory) : Prop :=
  packing.col.type.Reads data packing.col.offset packing.src

def Apart (packing packing' : Packing) : Prop :=
  packing.col.offset + packing.col.size ≤ packing'.col.offset
    ∨ packing'.col.offset + packing'.col.size ≤ packing.col.offset

def packAll (session : Session) : List Packing → Memory → Option Memory
  | [], data => some data
  | packing :: rest, data => (packing.pack session data).bind (packAll session rest)

-- `Pack` changes nothing outside of the slot and leaves the value in it.
def KeepsApart (packing : Packing) (session : Session) : Prop :=
  ∀ data data', packing.pack session data = some data' →
    packing.Reads data' ∧ Framed packing.col.offset packing.col.size data data'

end Packing

-- The values that are refused or that fit: a string may have more bytes than characters, a decimal is cut.
def ColumnType.Fits (session : Session) (size : Nat) : (type : ColumnType) → type.Datum → Prop
  | .decimal, src => src.length ≤ size
  | .varchar, src => session.bFormat = true → session.mbstrlen src ≤ size - 4 → src.length ≤ size - 4
  | _, _ => True

def Packing.Fits (packing : Packing) (session : Session) : Prop :=
  packing.col.type.Fits session packing.col.size packing.src

def SameSlot (offset size : Nat) (data data' : Memory) : Prop :=
  ∀ i, offset ≤ i → i < offset + size → data' i = data i

section Slots

variable {data data' : Memory} {offset size : Nat}

theorem SameSlot.load {pos n : Nat} (h : SameSlot offset size data data') (hlo : offset ≤ pos)
    (hhi : pos + n ≤ offset + size)
    : data'.load pos n = data.load pos n := by
  apply load_congr
  intro i hi
  exact h _ (by omega) (by omega)

theorem memcpyS_eq {dest destMax : Nat} {src : Bytes} (h : Column.memcpyS data dest destMax src = some data')
    : src.length ≤ destMax ∧ data' = data.store dest src := by
  unfold Column.memcpyS at h
  rw [Option.ite_none_left_eq_some, Option.some.injEq] at h
  exact ⟨by omega, h.right.symm⟩

theorem store_spec (h : src.length ≤ size) (hsame : SameSlot offset size (data.store offset src) data')
    : Framed offset size data (data.store offset src) ∧ data'.load offset src.length = src := by
  constructor
  . exact framed_store data offset size offset src (Nat.le_refl _) (by omega)
  . rw [hsame.load (Nat.le_refl _) (by omega)]
    exact load_store_self _ _ _

theorem lengthPrefixed_spec (hvalid : src.length < 2 ^ 32) (hfits : src.length + 4 ≤ size)
    (hsame : SameSlot offset size ((data.store offset (encode 4 src.length)).store (offset + 4) src) data')
    : Framed offset size data ((data.store offset (encode 4 src.length)).store (offset + 4) src)
        ∧ data'.load (offset + 4) (decode (data'.load offset 4)) = src := by
  have hlength : (encode 4 src.length).length = 4 := length_encode _ _
  constructor
  . apply Framed.trans
    . exact framed_store data offset size offset (encode 4 src.length) (Nat.le_refl _) (by omega)
    . exact framed_store _ offset size (offset + 4) src (by omega) (by omega)
  . have hlen : data'.load offset 4 = encode 4 src.length := by
      rw [hsame.load (Nat.le_refl _) (by omega), load_store_of_disjoint (Or.inl (Nat.le_refl _))]
      conv => lhs; arg 3; rw [← hlength]
      exact load_store_self _ _ _
    rw [hlen, decode_encode_of_lt hvalid, hsame.load (by omega) (by omega)]
    exact load_store_self _ _ _

theorem decimalSize_load (hvalid : src.length = decimalSize src) (hload : data.load offset src.length = src)
    : data.load offset (decimalSize (data.load offset 9)) = src := by
  have hle : 9 ≤ src.length := by
    rw [hvalid]
    exact Nat.le_add_right _ _
  have hsplit : src.length = 9 + (src.length - 9) := by omega
  have hheader : data.load offset 9 = src.take 9 := by
    conv => rhs; rw [← hload, hsplit, load_append]
    rw [take_left' (length_load _ _ _)]
  have hsize : decimalSize (src.take 9) = decimalSize src := by
    unfold decimalSize
    rw [drop_take, take_take]
    rfl
  rw [hheader, hsize, ← hvalid]
  exact hload

theorem byte_succ_ne (byte : UInt8) : byte + 1 ≠ byte := by
  intro h
  have h := congrArg UInt8.toNat h
  rw [UInt8.toNat_add] at h
  have := byte.toNat_lt
  simp only [UInt8.reduceToNat] at h
  omega

theorem store_getElem {dest i : Nat} {src : Bytes} (h : i < src.length)
    : (data.store dest src) (dest + i) = src[i] := by
  unfold store
  rw [if_pos (by omega), Nat.add_sub_cancel_left, getD_eq_getElem?_getD, getElem?_eq_getElem h]
  rfl

end Slots

section Packing

variable (session : Session)

theorem Packing.pack_spec (hfits : packing.Fits session) (data data' : Memory)
    (hpack : packing.pack session data = some data') (data'' : Memory)
    (hsame : SameSlot packing.col.offset packing.col.size data' data'')
    : Framed packing.col.offset packing.col.size data data' ∧ packing.Reads data'' := by
  obtain ⟨⟨id, type, size, offset, isNotNull, isCommitted, defValue, hsize⟩, src, hvalid⟩ := packing
  unfold Packing.pack Column.pack at hpack
  unfold Packing.Reads
  dsimp only at *
  have hstore : ∀ src : Bytes, src.length ≤ size → data' = data.store offset src →
      Framed offset size data data' ∧ data''.load offset src.length = src := by
    intro src hle hdata
    subst hdata
    exact store_spec src hle hsame
  have hword : ∀ w (src : UInt64), size = w → some (Column.packWord w data offset src) = some data' →
      Framed offset size data data'
        ∧ Column.loadWord w data'' offset = UInt64.ofNat (src.toNat % 256 ^ w) := by
    intro w src hw hpack
    have hlength : (encode w src.toNat).length = w := length_encode _ _
    have hspec := hstore (encode w src.toNat) (by omega) (Option.some.inj hpack).symm
    rw [hlength] at hspec
    unfold Column.loadWord
    rw [hspec.right, decode_encode]
    exact ⟨hspec.left, rfl⟩
  have hstruct : ∀ (n : Nat) (src : Bytes), size = n → src.length = n →
      some (data.store offset (src.take n)) = some data' →
        Framed offset size data data' ∧ data''.load offset n = src := by
    intro n src hn hlength hpack
    rw [take_of_length_le (by omega), Option.some.injEq] at hpack
    have hspec := hstore src (by omega) hpack.symm
    rw [hlength] at hspec
    exact hspec
  have hstring : ∀ (src : Bytes) (destMax : Nat), 4 ≤ size → src.length < 2 ^ 32 → src.length ≤ size - 4 →
      Column.memcpyS (data.store offset (encode 4 src.length)) (offset + 4) destMax src
          = some data' →
        Framed offset size data data'
          ∧ data''.load (offset + 4) (decode (data''.load offset 4)) = src := by
    intro src destMax hsize hvalid hle hpack
    have hdata := (memcpyS_eq hpack).right
    subst hdata
    exact lengthPrefixed_spec src hvalid (by omega) hsame
  cases type with
  | char => exact hword 1 src hsize hpack
  | tiny => exact hword 1 src hsize hpack
  | short => exact hword 2 src hsize hpack
  | int | float | date => exact hword 4 src hsize hpack
  | long | double | time | timestamp | timestamptz =>
    have hspec := hword 8 src hsize hpack
    have hmod : UInt64.toNat src % 256 ^ 8 = UInt64.toNat src := Nat.mod_eq_of_lt (UInt64.toNat_lt src)
    rw [hmod, UInt64.ofNat_toNat] at hspec
    exact hspec
  | interval => exact hstruct 16 src hsize hvalid hpack
  | tinterval => exact hstruct 12 src hsize hvalid hpack
  | timetz => exact hstruct 12 src hsize hvalid hpack
  | decimal =>
    have hle : src.length ≤ size := hfits
    have hdata := (memcpyS_eq hpack).right
    rw [take_of_length_le hle] at hdata
    have hspec := hstore src hle hdata
    exact ⟨hspec.left, decimalSize_load src hvalid hspec.right⟩
  | varchar =>
    have hfits : session.bFormat = true → session.mbstrlen src ≤ size - 4 → src.length ≤ size - 4 := hfits
    unfold Column.packAs Column.packVarchar at hpack
    dsimp only at hpack
    rw [Option.ite_none_left_eq_some] at hpack
    apply hstring src _ hsize hvalid _ hpack.right
    have hle := Nat.le_of_not_lt hpack.left
    split at hle
    . next hformat => exact hfits hformat hle
    . exact hle
  | blob =>
    unfold Column.packAs Column.packBlob at hpack
    dsimp only at hpack
    rw [Option.ite_none_left_eq_some] at hpack
    exact hstring src _ hsize hvalid (by omega) hpack.right
  | nullbytes =>
    unfold Column.packAs at hpack
    dsimp only at hpack
    rw [Option.ite_none_left_eq_some] at hpack
    exact hstore src (by omega) (memcpyS_eq hpack.right).right

theorem Packing.keepsApart_of_fits (h : packing.Fits session) : packing.KeepsApart session := by
  intro data data' hpack
  exact (packing.pack_spec session h data data' hpack data' (fun _ _ _ => rfl)).symm

theorem Packing.fits_of_keepsApart (h : packing.KeepsApart session) : packing.Fits session := by
  obtain ⟨⟨id, type, size, offset, isNotNull, isCommitted, defValue, hsize⟩, src, hvalid⟩ := packing
  unfold Packing.KeepsApart Packing.pack Column.pack Packing.Reads at h
  unfold Packing.Fits
  dsimp only at *
  have hbefore : ∀ byte : UInt8, ∃ before : Memory, ∀ i, before i = byte + 1 := by
    intro byte
    exact ⟨fun _ => byte + 1, fun _ => rfl⟩
  cases type with
  | decimal =>
    have hsize : 9 ≤ size := hsize
    apply Nat.le_of_not_lt
    intro hlt
    -- The first byte that is cut has been another one before.
    obtain ⟨before, hbefore⟩ := hbefore src[size]
    have hpack : Column.packAs session size before offset .decimal src
        = some (before.store offset (src.take size)) := by
      unfold Column.packAs Column.memcpyS
      dsimp only
      rw [if_neg (by rw [length_take]; omega)]
    have hread : (before.store offset (src.take size)).load offset
        (decimalSize ((before.store offset (src.take size)).load offset 9)) = src := (h _ _ hpack).left
    have hlength := congrArg List.length hread
    rw [length_load] at hlength
    rw [hlength] at hread
    have hget := congrArg (fun bytes => bytes[size]?) hread
    simp only [load, getElem?_map, getElem?_range hlt, Option.map_some,
      getElem?_eq_getElem hlt, Option.some.injEq] at hget
    rw [store_outside (by rw [length_take]; omega), hbefore] at hget
    exact byte_succ_ne _ hget
  | varchar =>
    have hsize : 4 ≤ size := hsize
    intro hformat hle
    apply Nat.le_of_not_lt
    intro hlt
    -- The first byte behind the slot has been another one before.
    obtain ⟨before, hbefore⟩ := hbefore src[size - 4]
    have hpack : Column.packAs session size before offset .varchar src
        = some ((before.store offset (encode 4 src.length)).store (offset + 4) src) := by
      unfold Column.packAs Column.packVarchar Column.memcpyS
      dsimp only
      rw [hformat, if_pos rfl, if_neg (by omega), if_pos hlt, if_neg (by omega)]
    have hframed := (h _ _ hpack).right (offset + size) (Or.inr (Nat.le_refl _))
    have hidx : offset + size = offset + 4 + (size - 4) := by omega
    rw [hidx, store_getElem hlt, hbefore] at hframed
    exact byte_succ_ne _ hframed.symm
  | _ => exact trivial

theorem Packing.Apart.symm {packing packing' : Packing} (h : packing.Apart packing')
    : packing'.Apart packing :=
  Or.symm h

theorem packAll_spec (packings : List Packing)
    : ∀ (data data' : Memory), packings.Pairwise Packing.Apart →
        (∀ packing ∈ packings, packing.Fits session) →
        Packing.packAll session packings data = some data' →
          (∀ i, (∀ packing ∈ packings, i < packing.col.offset ∨ packing.col.offset + packing.col.size ≤ i) →
              data' i = data i)
            ∧ ∀ packing ∈ packings, packing.Reads data' := by
  induction packings with
  | nil =>
    intro data data' _ _ hall
    rw [← Option.some.inj hall]
    exact ⟨fun _ _ => rfl, fun _ h => absurd h not_mem_nil⟩
  | cons first rest ih =>
    intro data data' hapart hfits hall
    obtain ⟨hfirst, hrest⟩ := pairwise_cons.mp hapart
    unfold Packing.packAll at hall
    obtain ⟨data₁, hpack, hall⟩ := Option.bind_eq_some_iff.mp hall
    obtain ⟨hframed, hreads⟩ := ih data₁ data' hrest
      (fun packing hmem => hfits packing (mem_cons_of_mem _ hmem)) hall
    have hspec := first.pack_spec session (hfits first mem_cons_self) data data₁ hpack data' (by
        intro i hlo hhi
        apply hframed
        intro packing hmem
        have := hfirst packing hmem
        unfold Packing.Apart at this
        omega)
    constructor
    . intro i hi
      rw [hframed i (fun packing hmem => hi packing (mem_cons_of_mem _ hmem))]
      exact hspec.left i (hi first mem_cons_self)
    . intro packing hmem
      rcases mem_cons.mp hmem with rfl | hmem
      . exact hspec.right
      . exact hreads packing hmem

/--
The columns of a row keep apart, and every order of packing them leaves all values in the row, if and only if
no string has more bytes than its slot while it has few enough characters, and no decimal is cut.
-/
theorem keepsApart_iff_fits (packings : List Packing) (hapart : packings.Pairwise Packing.Apart)
    : ((∀ packing ∈ packings, packing.KeepsApart session)
          ∧ ∀ order, order.Perm packings → ∀ data data', Packing.packAll session order data = some data' →
              ∀ packing ∈ packings, packing.Reads data')
        ↔ ∀ packing ∈ packings, packing.Fits session := by
  constructor
  . intro h packing hmem
    exact packing.fits_of_keepsApart session (h.left packing hmem)
  . intro hfits
    apply And.intro
    . intro packing hmem
      exact packing.keepsApart_of_fits session (hfits packing hmem)
    . intro order hperm data data' hall packing hmem
      have hspec := packAll_spec session order data data'
        ((hperm.pairwise_iff Packing.Apart.symm).mpr hapart)
        (fun packing hmem => hfits packing (hperm.mem_iff.mp hmem)) hall
      exact hspec.right packing (hperm.mem_iff.mpr hmem)

theorem varchar_validSize : ColumnType.varchar.validSize 7 := Nat.le_add_left 4 3

theorem int_validSize : ColumnType.int.validSize 4 := rfl

-- A `VARCHAR(3)` column with an `INT` column behind it, in a UTF-8 database.
def textPacking (text : Bytes) (h : text.length < 2 ^ 32) : Packing where
  col :=
    { id := 1
      type := .varchar
      size := 7
      offset := 1
      isNotNull := false
      isCommitted := true
      defValue := none
      size_valid := varchar_validSize }
  src := text
  valid := h

def numberPacking (number : UInt64) : Packing where
  col :=
    { id := 2
      type := .int
      size := 4
      offset := 8
      isNotNull := false
      isCommitted := true
      defValue := none
      size_valid := int_validSize }
  src := number
  valid := trivial

def utf8Session : Session where
  bFormat := true
  mbstrlen text := text.countP (fun byte => byte &&& 0xC0 ≠ 0x80)

theorem keepsApart_iff_fits_ascii
    : (numberPacking 5).KeepsApart utf8Session ∧
        (textPacking [97, 98, 99] (by decide)).KeepsApart utf8Session := by
  have hapart : List.Pairwise Packing.Apart [numberPacking 5, textPacking [97, 98, 99] (by decide)] := by
    simp [Packing.Apart, numberPacking, textPacking]
  have hkeeps := (keepsApart_iff_fits utf8Session _ hapart).mpr (by
    intro packing hmem
    simp only [List.mem_cons, List.not_mem_nil, or_false] at hmem
    rcases hmem with rfl | rfl
    . exact trivial
    . intro _ _
      exact Nat.le_refl 3)
  refine ⟨hkeeps.left _ List.mem_cons_self, hkeeps.left _ (List.mem_cons_of_mem _ List.mem_cons_self)⟩

theorem packAll_overrun
    : List.Pairwise Packing.Apart
          [numberPacking 5, textPacking [0xE4, 0xBD, 0xA0, 0xE4, 0xBD, 0xA0, 0xE4, 0xBD, 0xA0] (by decide)]
        ∧ ∃ data, Packing.packAll utf8Session
            [numberPacking 5, textPacking [0xE4, 0xBD, 0xA0, 0xE4, 0xBD, 0xA0, 0xE4, 0xBD, 0xA0] (by decide)]
            Memory.zero = some data
          ∧ ¬ (numberPacking 5).Reads data := by
  constructor
  . simp [Packing.Apart, numberPacking, textPacking]
  . refine ⟨_, rfl, ?_⟩
    unfold Packing.Reads ColumnType.Reads numberPacking
    decide

end Packing

end Mot

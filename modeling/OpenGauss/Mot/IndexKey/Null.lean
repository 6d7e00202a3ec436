import OpenGauss.Mot.IndexKey.Lemmas

/-!
This module shows when the keys of two rows of which one has a NULL are the same.
-/

open List

namespace Mot

open ByteOrder

-- The values whose keys are zero bytes, as the key of NULL is.
def ColumnType.ZeroKeyed (keySize : Nat) : (type : ColumnType) → type.Datum → Prop
  | .char, x => getBytes1 x = 0
  | .float, x => getBytes4 x = 0xFF800000
  | .double, x => getBytes8 x = 0x8400000000000000
  | .date, x => getBytes4 x = 0
  | .time, x => getBytes8 x = 0
  | .interval, x | .tinterval, x | .timetz, x | .varchar, x => ∀ byte, byte ∈ x → byte = 0
  | .decimal, x => ∀ byte, byte ∈ x.take keySize → byte = 0
  | .blob, x => x = []
  | .nullbytes, _ => True
  | _, _ => False

section Zero

theorem fillUp_eq_zero_iff {keySize : Nat} {bytes : Bytes} (h : bytes.length ≤ keySize)
    : fillUp keySize bytes = List.replicate keySize 0 ↔ ∀ byte, byte ∈ bytes → byte = 0 := by
  unfold fillUp
  rw [eq_replicate_iff]
  constructor
  . intro hzero byte hbyte
    exact hzero.right byte (mem_append_left _ hbyte)
  . grind

theorem bigEndian_zero (w : Nat) : bigEndian w 0 = List.replicate w 0 := by
  induction w with
  | zero => rfl
  | succ w ih =>
    rw [bigEndian_succ, Nat.zero_div, ih, replicate_succ']
    rfl

theorem bigEndian_eq_zero_iff {w n : Nat} (h : n < 256 ^ w) : bigEndian w n = List.replicate w 0 ↔ n = 0 := by
  rw [← bigEndian_zero]
  constructor
  . intro heq
    have hcompare := memcmp_bigEndian w n 0 h (Nat.pow_pos (by omega))
    rw [heq, memcmp_bigEndian w 0 0 (Nat.pow_pos (by omega)) (Nat.pow_pos (by omega)),
      compare_eq_iff_eq.mpr rfl, eq_comm, compare_eq_iff_eq] at hcompare
    exact hcompare
  . intro heq
    rw [heq]

theorem mem_bigEndian_zero_iff {w n : Nat} (h : n < 256 ^ w)
    : (∀ byte, byte ∈ bigEndian w n → byte = 0) ↔ n = 0 := by
  rw [← bigEndian_eq_zero_iff h, eq_replicate_iff, length_bigEndian]
  exact (and_iff_right rfl).symm

theorem signed_ne_zero {w n : Nat} (hw : 0 < w) (h : n < 256 ^ w) (k : Nat)
    : Column.signByte w n :: bigEndian w n ≠ List.replicate k 0 := by
  intro heq
  have hzero := (eq_replicate_iff.mp heq).right
  have hsign := hzero _ mem_cons_self
  have hn : n = 0 := by
    rw [← mem_bigEndian_zero_iff h]
    intro byte hbyte
    exact hzero byte (mem_cons_of_mem _ hbyte)
  rw [signByte_eq w n hw h, hn, if_neg (by simp [Nat.pow_eq_zero])] at hsign
  exact absurd hsign (by decide)

theorem floatKey_eq_zero_iff {n : Nat} (h : n < 256 ^ 4) : floatKey n = 0 ↔ n = 0xFF800000 := by
  unfold floatKey
  dsimp only
  split
  . omega
  . omega

theorem doubleKey_eq_zero_iff {n : Nat} (h : n < 256 ^ 8) : doubleKey n = 0 ↔ n = 0x8400000000000000 := by
  unfold doubleKey
  dsimp only
  split
  . omega
  . omega

theorem fieldBytes_eq_zero_iff (col : Column) (value : col.type.Datum)
    (h : col.type.Packable col.keySize value) (hkeySize : col.keySize ≤ maxKeySize)
    : col.type.fieldBytes col.keySize value = List.replicate col.keySize 0
        ↔ col.type.ZeroKeyed col.keySize value := by
  have h1 : ∀ x : UInt64, getBytes1 x < 256 ^ 1 := fun x => Nat.mod_lt _ (by omega)
  have h2 : ∀ x : UInt64, getBytes2 x < 256 ^ 2 := fun x => Nat.mod_lt _ (by omega)
  have h4 : ∀ x : UInt64, getBytes4 x < 256 ^ 4 := fun x => Nat.mod_lt _ (by omega)
  have h8 : ∀ x : UInt64, getBytes8 x < 256 ^ 8 := fun x => x.toNat_lt
  have hsigned : ∀ w n, 0 < w → n < 256 ^ w →
      (Column.signByte w n :: bigEndian w n = List.replicate col.keySize 0 ↔ False) := by
    intro w n hw hn
    exact iff_false_intro (signed_ne_zero hw hn _)
  obtain ⟨id, type, size, offset, isNotNull, isCommitted, defValue, hsize⟩ := col
  unfold Column.keySize at *
  cases type with
  | char =>
    have hsize : size = 1 := hsize
    subst hsize
    exact bigEndian_eq_zero_iff (h1 value)
  | tiny => exact hsigned 1 _ (by omega) (h1 value)
  | short => exact hsigned 2 _ (by omega) (h2 value)
  | int => exact hsigned 4 _ (by omega) (h4 value)
  | long | timestamp | timestamptz => exact hsigned 8 _ (by omega) (h8 value)
  | float =>
    have hsize : size = 4 := hsize
    subst hsize
    have hlt : floatKey (getBytes4 value) < 256 ^ 6 := floatKey_lt _
    apply (bigEndian_eq_zero_iff hlt).trans
    exact floatKey_eq_zero_iff (h4 value)
  | double =>
    have hsize : size = 8 := hsize
    subst hsize
    have hlt : doubleKey (getBytes8 value) < 256 ^ 11 := doubleKey_lt _
    apply (bigEndian_eq_zero_iff hlt).trans
    exact doubleKey_eq_zero_iff (h8 value)
  | date =>
    have hsize : size = 4 := hsize
    subst hsize
    apply (fillUp_eq_zero_iff (by simp)).trans
    exact mem_bigEndian_zero_iff (h4 value)
  | time =>
    have hsize : size = 8 := hsize
    subst hsize
    exact bigEndian_eq_zero_iff (h8 value)
  | interval | tinterval | timetz => exact fillUp_eq_zero_iff (Nat.le_of_eq (h.trans hsize.symm))
  | decimal => exact fillUp_eq_zero_iff (length_take_le _ _)
  | varchar => exact fillUp_eq_zero_iff h
  | blob =>
    have h : value.length + 4 ≤ size := h
    have hlength : (LittleEndian.encode 4 value.length ++ value).length ≤ size := by
      rw [length_append, LittleEndian.length_encode, Nat.add_comm]
      exact h
    apply (fillUp_eq_zero_iff hlength).trans
    have hkeySize : size ≤ maxKeySize := hkeySize
    have hlength : value.length < 256 ^ 4 := by
      unfold maxKeySize at hkeySize
      omega
    have hencode := mem_bigEndian_zero_iff hlength
    unfold bigEndian at hencode
    simp only [mem_reverse] at hencode
    simp only [mem_append, or_imp, forall_and]
    rw [hencode, length_eq_zero_iff]
    constructor
    . exact And.left
    . intro hnil
      apply And.intro hnil
      rw [hnil]
      simp
  | nullbytes => exact iff_true_intro ((fillUp_eq_zero_iff (Nat.zero_le _)).mpr (by simp))

end Zero

section Keys

variable (table : Table) (row row' : Row) {allow : Bool}

-- Both values are NULL, or they have the same key.
def Column.SameKey (col : Column) : Option col.type.Datum → Option col.type.Datum → Prop
  | none, none => True
  | some x, some y => col.type.fieldBytes col.keySize x = col.type.fieldBytes col.keySize y
  | _, _ => False

-- One value is NULL, the key of the other is as NULL's.
def Column.NullCollides (col : Column) : Option col.type.Datum → Option col.type.Datum → Prop
  | none, some x => col.type.ZeroKeyed col.keySize x
  | some x, none => col.type.ZeroKeyed col.keySize x
  | _, _ => False

def Row.SameKeys (colids : List Nat) : Prop :=
  ∀ colid col, colid ∈ colids → table.getField colid = some col →
    col.SameKey (row.value table col) (row'.value table col)

-- Some columns collide with NULL, all others have the same keys.
def Row.NullCollision (colids : List Nat) : Prop :=
  (∀ colid col, colid ∈ colids → table.getField colid = some col →
      col.SameKey (row.value table col) (row'.value table col)
        ∨ col.NullCollides (row.value table col) (row'.value table col))
    ∧ ∃ colid col, colid ∈ colids ∧ table.getField colid = some col
      ∧ col.NullCollides (row.value table col) (row'.value table col)

theorem partBytes_eq_iff (col : Column) (x y : Option col.type.Datum)
    (hx : ∀ value, x = some value → col.type.Packable col.keySize value)
    (hy : ∀ value, y = some value → col.type.Packable col.keySize value) (hkeySize : col.keySize ≤ maxKeySize)
    : col.partBytes x = col.partBytes y ↔ (col.SameKey x y ∨ col.NullCollides x y) := by
  cases x with
  | none =>
    cases y with
    | none => simp [Column.SameKey]
    | some value =>
      have hzero := fieldBytes_eq_zero_iff col value (hy value rfl) hkeySize
      simp only [Column.SameKey, Column.NullCollides, false_or, Column.partBytes]
      rw [← hzero]
      exact eq_comm
  | some value =>
    cases y with
    | none =>
      have hzero := fieldBytes_eq_zero_iff col value (hx value rfl) hkeySize
      simp only [Column.SameKey, Column.NullCollides, false_or, Column.partBytes]
      exact hzero
    | some value' => simp [Column.SameKey, Column.NullCollides, Column.partBytes]

theorem keyFieldsOf_keySize_le {colids : List Nat} {fields : List (Nat × Nat)}
    (h : Index.keyFieldsOf allow table colids = some fields)
    : ∀ colid col, colid ∈ colids → table.getField colid = some col → col.keySize ≤ maxKeySize := by
  induction colids generalizing fields with
  | nil =>
    intro colid col hcolid
    exact absurd hcolid not_mem_nil
  | cons first rest ih =>
    intro colid col hcolid hcol
    obtain ⟨other, fields', hother, hfields', _, hle⟩ := keyFieldsOf_cons table h
    rcases mem_cons.mp hcolid with rfl | hcolid
    . rw [hcol] at hother
      rwa [Option.some.inj hother]
    . exact ih hfields' colid col hcolid hcol

theorem rowBytes_eq_iff (colids : List Nat)
    : ∀ (fields : List (Nat × Nat)), Index.keyFieldsOf allow table colids = some fields →
        row.PackableIn table colids → row'.PackableIn table colids →
          (rowBytes table row colids = rowBytes table row' colids
            ↔ ∀ colid col, colid ∈ colids → table.getField colid = some col →
              col.partBytes (row.value table col) = col.partBytes (row'.value table col)) := by
  induction colids with
  | nil =>
    intro fields hfields hrow hrow'
    simp [rowBytes]
  | cons first rest ih =>
    intro fields hfields hrow hrow'
    obtain ⟨col, fields', hcol, hfields', rfl, _⟩ := keyFieldsOf_cons table hfields
    have hlength : (col.partBytes (row.value table col)).length
        = (col.partBytes (row'.value table col)).length := by
      rw [length_partBytes col _ (fun value => hrow first col value mem_cons_self hcol),
        length_partBytes col _ (fun value => hrow' first col value mem_cons_self hcol)]
    have happend : ∀ a b c d : Bytes, a.length = c.length → (a ++ b = c ++ d ↔ a = c ∧ b = d) := by
      intro a b c d h
      constructor
      . exact fun heq => append_inj heq h
      . rintro ⟨rfl, rfl⟩
        rfl
    unfold rowBytes
    rw [hcol]
    dsimp only
    rw [happend _ _ _ _ hlength, ih fields' hfields' hrow.tail hrow'.tail]
    constructor
    . grind
    . grind

/--
Rows with the same key have the same NULLs and the same keys of their values, unless the columns in which
only one of them is NULL all hold a value whose key is zero bytes and the other columns have the same keys.
-/
theorem buildKey_sameKeys_iff (allow : Bool) (colids : List Nat) (unique : Bool) (index : Index)
    (hindex : Index.create allow table colids unique = some index) (hrow : row.internalKey = none)
    (hrow' : row'.internalKey = none) (hpackable : row.PackableIn table colids)
    (hpackable' : row'.PackableIn table colids) (key key' : Memory)
    : (index.keyBytes (index.buildKey table row key) = index.keyBytes (index.buildKey table row' key') →
          row.SameKeys table row' colids)
        ↔ ¬ row.NullCollision table row' colids := by
  obtain ⟨fields, hfields⟩ := create_keyFieldsOf table hindex
  rw [keyBytes_buildKey table colids unique index hindex row hrow hpackable,
    keyBytes_buildKey table colids unique index hindex row' hrow' hpackable',
    rowBytes_eq_iff table row row' colids fields hfields hpackable hpackable']
  have hpart : ∀ colid col, colid ∈ colids → table.getField colid = some col →
      (col.partBytes (row.value table col) = col.partBytes (row'.value table col)
        ↔ (col.SameKey (row.value table col) (row'.value table col)
          ∨ col.NullCollides (row.value table col) (row'.value table col))) := by
    intro colid col hcolid hcol
    apply partBytes_eq_iff
    . exact fun value => hpackable colid col value hcolid hcol
    . exact fun value => hpackable' colid col value hcolid hcol
    . exact keyFieldsOf_keySize_le table hfields colid col hcolid hcol
  have hnot : ∀ (col : Column) (x y : Option col.type.Datum), col.NullCollides x y → ¬ col.SameKey x y := by
    intro col x y
    cases x with
    | none =>
      cases y with
      | none => exact fun h => absurd h id
      | some _ => exact fun _ => id
    | some _ =>
      cases y with
      | none => exact fun _ => id
      | some _ => exact fun h => absurd h id
  constructor
  . rintro hkeys ⟨hall, colid, col, hcolid, hcol, hcollides⟩
    have hsame := hkeys (fun colid col hcolid hcol =>
      (hpart colid col hcolid hcol).mpr (hall colid col hcolid hcol))
    exact hnot col _ _ hcollides (hsame colid col hcolid hcol)
  . intro hno hkeys colid col hcolid hcol
    have hall := fun colid col hcolid hcol => (hpart colid col hcolid hcol).mp (hkeys colid col hcolid hcol)
    rcases hall colid col hcolid hcol with hsame | hcollides
    . exact hsame
    . exact absurd ⟨hall, colid, col, hcolid, hcol, hcollides⟩ hno

theorem date_validSize : ColumnType.date.validSize 4 := rfl

def dateColumn : Column where
  id := 1
  type := .date
  size := 4
  offset := 1
  isNotNull := false
  isCommitted := true
  defValue := none
  size_valid := date_validSize

def dateTable : Table where
  version := 1
  getField colid := if colid = 1 then some dateColumn else none

def dateRow (date : Nat) : Row where
  data := Memory.zero.store 0 (0x01 :: LittleEndian.encode 4 date)
  tableVersion := 1
  rowId := 7
  surrogateKey := 0
  internalKey := none

def nullRow : Row where
  data := Memory.zero
  tableVersion := 1
  rowId := 8
  surrogateKey := 0
  internalKey := none

theorem dateTable_packable (row : Row) : row.PackableIn dateTable [1] := by
  intro colid col value hcolid hcol _
  rw [mem_singleton] at hcolid
  subst hcolid
  obtain rfl := Option.some.inj hcol
  exact trivial

theorem buildKey_sameKeys_iff_date
    : ∃ index, Index.create true dateTable [1] true = some index
        ∧ (index.keyBytes (index.buildKey dateTable (dateRow 3) Memory.zero)
            = index.keyBytes (index.buildKey dateTable nullRow Memory.zero) →
              (dateRow 3).SameKeys dateTable nullRow [1]) := by
  refine ⟨_, rfl, ?_⟩
  rw [buildKey_sameKeys_iff dateTable (dateRow 3) nullRow true [1] true _ rfl rfl rfl
    (dateTable_packable _) (dateTable_packable _)]
  rintro ⟨-, colid, col, hcolid, hcol, hcollides⟩
  rw [List.mem_singleton] at hcolid
  subst hcolid
  rw [← Option.some.inj hcol] at hcollides
  have hzero : (3 : Nat) = 0 := hcollides
  omega

theorem buildKey_date_null
    : ∃ index, Index.create true dateTable [1] true = some index
        ∧ index.keyBytes (index.buildKey dateTable (dateRow 0) Memory.zero)
          = index.keyBytes (index.buildKey dateTable nullRow Memory.zero)
        ∧ (dateRow 0).value dateTable dateColumn = some (0 : UInt64)
        ∧ nullRow.value dateTable dateColumn = none
        ∧ ¬ (dateRow 0).SameKeys dateTable nullRow [1] := by
  refine ⟨_, rfl, ?_, ?_, ?_, ?_⟩
  . decide
  . rfl
  . rfl
  . intro hsame
    exact hsame 1 dateColumn List.mem_cons_self rfl

end Keys

end Mot

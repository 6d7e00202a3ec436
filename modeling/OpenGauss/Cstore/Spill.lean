import OpenGauss.Lib.Layout
import OpenGauss.Cstore.CU.Lemmas

/-!
This module contains the writing of a numeric CU of the in-memory column store to disk and the
reading back.
-/

open LittleEndian List ScalarVector Layout

namespace CUMem

structure NumericHeader where
  crc : UInt32
  magic : UInt32
  infoMode : UInt16
  cuSizeExcludePadding : UInt32
  srcBufSize : UInt32
  srcDataSize : UInt32
  bpNullRawSize : UInt16
  offsetSize : UInt32
  deriving DecidableEq

instance : Layout NumericHeader :=
  Layout.ofTuple
    (fun h => (h.crc, h.magic, h.infoMode, h.cuSizeExcludePadding, h.srcBufSize, h.srcDataSize,
      h.bpNullRawSize, h.offsetSize))
    (fun (crc, magic, infoMode, cuSizeExcludePadding, srcBufSize, srcDataSize, bpNullRawSize, offsetSize) =>
      { crc, magic, infoMode, cuSizeExcludePadding, srcBufSize, srcDataSize, bpNullRawSize, offsetSize })
    (fun _ => rfl) (fun _ => rfl)

def imcsNumericCuHdsz : Nat := 28

def cuHasNULL : UInt16 := 0x0400
def cuCrc32c : UInt16 := 0x1000

def bitmapSize (x : Nat) : Nat := (x + 7) / 8

end CUMem

-- A CU with its buffers. The pointers `m_nulls` and `m_srcData` are given by their distances from
-- the start of `m_srcBuf`.
structure CUMem extends CUMem.NumericHeader where
  srcBuf : Bytes
  srcData : Nat
  nulls : Option Nat
  offset : List Nat
  cuSize : Nat
  inCUCache : Bool
  cacheCompressed : Bool
  numericIntLike : Bool

namespace CUMem

def reset : CUMem :=
  { crc := 0, magic := 0, infoMode := 0, cuSizeExcludePadding := 0, srcBufSize := 0, srcDataSize := 0
    bpNullRawSize := 0, offsetSize := 0, srcBuf := [], srcData := 0, nulls := none, offset := []
    cuSize := 0, inCUCache := false, cacheCompressed := false, numericIntLike := false }

def hasNullValue (cu : CUMem) : Bool := cu.infoMode &&& cuHasNULL ≠ 0

def toCU (cu : CUMem) : CU where
  eachValSize := .varlena
  srcData := cu.srcBuf.drop cu.srcData
  srcBufSize := cu.srcBufSize.toNat
  hasNullValue := cu.hasNullValue
  nulls :=
    match cu.nulls with
    | none => []
    | some nulls => cu.srcBuf.drop nulls
  numericIntLike := cu.numericIntLike
  offset := cu.offset

-- `generateCrc` computes the checksum over what follows it in the compressed buffer.
def packNumericCUForFlushToDisk (cu : CUMem) (generateCrc : Bytes → UInt32) : Bytes :=
  let header := { cu.toNumericHeader with infoMode := cu.infoMode ||| cuCrc32c }
  let body :=
    cu.srcBuf.take cu.srcBufSize.toNat ++ (LittleEndian.pack 4 cu.offset).take cu.offsetSize.toNat
  let crc := generateCrc ((Layout.toBytes header ++ body).drop 4)
  Layout.toBytes { header with crc } ++ body

-- A wrong `magic` is reported as an error.
def unpackNumericCUFromDisk (cu : CUMem) (compressedBuf : Bytes) (magic : UInt32) (cuSize : Nat)
    : Option CUMem :=
  let header : NumericHeader := Layout.ofBytes (compressedBuf.take imcsNumericCuHdsz)
  if magic ≠ header.magic then
    none
  else
    let srcBuf := (compressedBuf.drop imcsNumericCuHdsz).take header.srcBufSize.toNat
    let pos := imcsNumericCuHdsz + header.srcBufSize.toNat
    let offset := (compressedBuf.drop pos).take header.offsetSize.toNat
    some { cu with
      toNumericHeader := header
      srcBuf
      srcData := 0
      offset := LittleEndian.unpack 4 (header.offsetSize.toNat / 4) offset
      cacheCompressed := false
      cuSize
      inCUCache := true
      numericIntLike := true }

structure Pointers (cu : CUMem) (rowCount : Nat) : Prop where
  srcData_eq : cu.srcData = cu.bpNullRawSize.toNat
  nulls_eq : cu.nulls = if cu.hasNullValue then some 0 else none
  bpNullRawSize_eq : cu.bpNullRawSize.toNat = if cu.hasNullValue then bitmapSize rowCount else 0

end CUMem

structure NumericIntLikeCU extends DecompressedCU where
  mem : CUMem
  toCU_eq : mem.toCU = cu
  numericIntLike : mem.numericIntLike = true
  pointers : mem.Pointers rows.length
  bitmap_eq : ∀ row, rows.length ≤ row → row < 8 * mem.bpNullRawSize.toNat → bitIsSet mem.srcBuf row = false
  length_srcBuf : mem.srcBuf.length = mem.srcBufSize.toNat
  bpNullRawSize_le : mem.bpNullRawSize.toNat ≤ mem.srcBuf.length
  offset_lt : ∀ pos ∈ mem.offset, pos < 2 ^ 31
  offsetSize_eq : mem.offsetSize.toNat = 4 * mem.offset.length

namespace NumericIntLikeCU

variable (s : NumericIntLikeCU) (generateCrc : Bytes → UInt32) (cuSize : Nat) {row : Nat}

def restored : CUMem :=
  let header := { s.mem.toNumericHeader with infoMode := s.mem.infoMode ||| CUMem.cuCrc32c }
  let body := s.mem.srcBuf ++ LittleEndian.pack 4 s.mem.offset
  { CUMem.reset with
    toNumericHeader := { header with crc := generateCrc ((Layout.toBytes header ++ body).drop 4) }
    srcBuf := s.mem.srcBuf
    offset := s.mem.offset
    cuSize
    inCUCache := true
    numericIntLike := true }

theorem unpack_pack
    : CUMem.reset.unpackNumericCUFromDisk (s.mem.packNumericCUForFlushToDisk generateCrc) s.mem.magic cuSize
        =
      some (s.restored generateCrc cuSize) := by
  have hsrcBuf : s.mem.srcBuf.take s.mem.srcBufSize.toNat = s.mem.srcBuf := by
    apply take_of_length_le
    rw [s.length_srcBuf]
  have hoffset : (pack 4 s.mem.offset).take s.mem.offsetSize.toNat
      = pack 4 s.mem.offset := by
    apply take_of_length_le
    rw [length_pack, s.offsetSize_eq]
  have hsize (header : CUMem.NumericHeader)
      : (toBytes header).length = CUMem.imcsNumericCuHdsz :=
    length_toBytes header
  have hunpack : unpack 4 (s.mem.offsetSize.toNat / 4) (pack 4 s.mem.offset)
      = s.mem.offset := by
    have hlt : ∀ pos ∈ s.mem.offset, pos < 256 ^ 4 := by
      intro pos hpos
      have := s.offset_lt pos hpos
      omega
    have h := LittleEndian.unpack_pack hlt []
    rw [append_nil] at h
    rw [s.offsetSize_eq, Nat.mul_div_cancel_left _ (by decide), h]
  unfold CUMem.packNumericCUForFlushToDisk CUMem.unpackNumericCUFromDisk
  dsimp only
  rw [hsrcBuf, hoffset, take_left' (hsize _), ofBytes_toBytes, drop_left' (hsize _),
    ← drop_drop, drop_left' (hsize _)]
  dsimp only
  rw [if_neg (by simp), take_left' s.length_srcBuf, drop_left' s.length_srcBuf, hoffset, hunpack]
  rfl

def SameRows (before after : CU) (rowCount : Nat) : Prop :=
  ∀ row < rowCount, after.isNull row = before.isNull row ∧
    (before.isNull row = false →
      ScalarVector.addVarWithHeader (after.getValue after.hasNullValue row)
        =
      ScalarVector.addVarWithHeader (before.getValue before.hasNullValue row))

theorem isNull_restored (row : Nat) : (s.restored generateCrc cuSize).toCU.isNull row = false := by
  simp [CU.isNull, bitIsSet, CUMem.toCU, restored, CUMem.reset]

theorem sameRows_of_no_bitmap (h : s.mem.bpNullRawSize = 0)
    : SameRows s.mem.toCU (s.restored generateCrc cuSize).toCU s.rows.length := by
  have hbp := s.pointers.bpNullRawSize_eq
  intro row hrow
  have hnull : s.mem.hasNullValue = false := by
    cases hhas : s.mem.hasNullValue with
    | false => rfl
    | true =>
      rw [h, hhas, if_pos rfl] at hbp
      simp [CUMem.bitmapSize] at hbp
      omega
  have hsrcData : s.mem.srcData = 0 := by
    rw [s.pointers.srcData_eq, h]
    rfl
  have hnulls : s.mem.nulls = none := by
    rw [s.pointers.nulls_eq, hnull]
    rfl
  constructor
  . rw [isNull_restored]
    simp [CU.isNull, bitIsSet, CUMem.toCU, hnulls]
  . intro _
    simp only [CU.getValue, CUMem.toCU, AttLen.fixedSize?, AttLen.toInt, hsrcData]
    rfl

theorem exists_row_of_bitmap (h : s.mem.bpNullRawSize ≠ 0)
    : s.mem.hasNullValue = true ∧ s.mem.nulls = some 0 ∧ 0 < s.rows.length := by
  have hbp := s.pointers.bpNullRawSize_eq
  have hne : s.mem.bpNullRawSize.toNat ≠ 0 := by
    intro hzero
    exact h (UInt16.toNat.inj hzero)
  have hhas : s.mem.hasNullValue = true := by
    cases hhas : s.mem.hasNullValue with
    | true => rfl
    | false =>
      rw [hhas] at hbp
      exact absurd hbp hne
  rw [hhas, if_pos rfl] at hbp
  refine ⟨hhas, ?_, ?_⟩
  . rw [s.pointers.nulls_eq, hhas]
    rfl
  . unfold CUMem.bitmapSize at hbp
    omega

theorem isNull_toCU (h : s.mem.hasNullValue = true) (hrow : row < s.rows.length)
    : s.mem.toCU.isNull row = (s.rows.getD row none).isNone := by
  have hnull := s.isNull_eq row hrow
  rw [← s.toCU_eq] at hnull
  rw [← hnull]
  simp [CUMem.toCU, h]

theorem headD_srcBuf (h : s.mem.bpNullRawSize ≠ 0) (hvalues : ∀ row < s.rows.length,
    s.rows.getD row none ≠ none)
    : s.mem.srcBuf.headD 0 = 0 := by
  obtain ⟨hhas, hnulls, hrows⟩ := s.exists_row_of_bitmap h
  have hbits : ∀ row < 8, bitIsSet s.mem.srcBuf row = false := by
    intro row hrow
    rcases Nat.lt_or_ge row s.rows.length with hlt | hge
    . have hnull := s.isNull_toCU hhas hlt
      have hvalue := hvalues row hlt
      rw [Option.isNone_eq_false_iff.mpr (Option.isSome_iff_ne_none.mpr hvalue)] at hnull
      rw [← hnull]
      simp [CU.isNull, CUMem.toCU, hnulls]
    . apply s.bitmap_eq row hge
      have : s.mem.bpNullRawSize.toNat ≠ 0 := by
        intro hzero
        exact h (UInt16.toNat.inj hzero)
      omega
  apply UInt8.toNat.inj
  apply Nat.eq_of_testBit_eq
  intro i
  rcases Nat.lt_or_ge i 8 with hlt | hge
  . have hbit := hbits i hlt
    have hget : s.mem.srcBuf.getD (i / 8) 0 = s.mem.srcBuf.headD 0 := by
      rw [Nat.div_eq_of_lt hlt]
      cases s.mem.srcBuf <;> rfl
    unfold bitIsSet at hbit
    rw [hget, Nat.mod_eq_of_lt hlt] at hbit
    have hzero : (s.mem.srcBuf.headD 0).toNat &&& 1 <<< i = 0 := by
      simpa using hbit
    rw [Nat.one_shiftLeft, Nat.and_two_pow, Nat.mul_eq_zero] at hzero
    have hpos : 2 ^ i ≠ 0 := by
      positivity
    have hfalse := Bool.toNat_eq_zero.mp (hzero.resolve_right hpos)
    rw [hfalse]
    simp
  . have hlt : (s.mem.srcBuf.headD 0).toNat < 2 ^ i := by
      calc
        (s.mem.srcBuf.headD 0).toNat < 2 ^ 8 := UInt8.toNat_lt _
        _ ≤ 2 ^ i := Nat.pow_le_pow_right (by decide) hge
    rw [Nat.testBit_lt_two_pow hlt]
    simp

theorem headD_value_ne_zero {v : Bytes} (hv : s.rows.getD row none = some v)
    : v.length = CU.numeric64Size ∧ v.headD 0 ≠ 0 := by
  have hlike : s.cu.numericIntLike = true := by
    rw [← s.toCU_eq]
    exact s.numericIntLike
  obtain ⟨hvarlena, hsize⟩ := s.numericIntLike_eq hlike
  have hlen := hsize v (s.mem_rows hv).2
  have hstored := s.stored_of_getD hv
  rw [hvarlena] at hstored
  obtain ⟨numeric, rfl⟩ := hstored
  constructor
  . exact hlen
  . intro hzero
    have hvarsize := numeric.varsize_eq
    have hdecode : decode (numeric.bytes.take 4) % 256 = 0 := by
      cases hbytes : numeric.bytes with
      | nil => rfl
      | cons b bytes =>
        rw [hbytes, headD_cons] at hzero
        rw [hzero, take_succ_cons, decode]
        simp
    unfold Varlena.varsizeAny at hvarsize
    rw [hzero] at hvarsize
    rw [hlen, CU.numeric64Size] at hvarsize
    simp at hvarsize
    omega

theorem eachValSize_eq : s.cu.eachValSize = .varlena := by
  rw [← s.toCU_eq]
  rfl

theorem offset_getD_eq (hrow : row ≤ s.rows.length) : s.mem.offset.getD row 0 = s.valuePos row := by
  have hoffset : s.mem.offset = s.cu.offset := by
    rw [← s.toCU_eq]
    rfl
  rw [hoffset]
  apply DecompressedCU.offset_getD
  . simp [eachValSize_eq]
  . simp [eachValSize_eq, AttLen.fixedSize?, AttLen.toInt]
  . exact hrow

theorem addVarWithHeader_getValue_toCU {v : Bytes} (hv : s.rows.getD row none = some v)
    : addVarWithHeader (s.mem.toCU.getValue s.mem.toCU.hasNullValue row) = v := by
  have hrow := (s.mem_rows hv).1
  have hget : s.mem.toCU.getValue s.mem.toCU.hasNullValue row = s.cu.srcData.drop (s.valuePos row) := by
    rw [← s.offset_getD_eq (by omega), ← s.toCU_eq]
    rfl
  have hstored := s.stored_of_getD hv
  rw [eachValSize_eq] at hstored
  obtain ⟨numeric, rfl⟩ := hstored
  obtain ⟨rest, hrest⟩ := s.srcData_drop_eq hv
  rw [hget, hrest, addVarWithHeader, numeric.varsizeAny_append, take_left]

theorem getValue_restored_zero
    : (s.restored generateCrc cuSize).toCU.getValue (s.restored generateCrc cuSize).toCU.hasNullValue 0
        =
      s.mem.srcBuf := by
  have hoffset := s.offset_getD_eq (Nat.zero_le _)
  have hzero : s.valuePos 0 = 0 := by
    simp [DecompressedCU.valuePos]
  have hget : (s.restored generateCrc cuSize).toCU.getValue
      (s.restored generateCrc cuSize).toCU.hasNullValue 0 = s.mem.srcBuf.drop (s.mem.offset.getD 0 0) := by
    rfl
  rw [hget, hoffset, hzero, drop_zero]

theorem not_sameRows_of_bitmap (h : s.mem.bpNullRawSize ≠ 0)
    : ¬ SameRows s.mem.toCU (s.restored generateCrc cuSize).toCU s.rows.length := by
  obtain ⟨hhas, hnulls, hrows⟩ := s.exists_row_of_bitmap h
  intro hsame
  by_cases hvalues : ∀ row < s.rows.length, s.rows.getD row none ≠ none
  . have hnull := s.isNull_toCU hhas hrows
    obtain ⟨v, hv⟩ := Option.ne_none_iff_exists'.mp (hvalues 0 hrows)
    rw [hv] at hnull
    have hvalue := (hsame 0 hrows).2 hnull
    rw [s.addVarWithHeader_getValue_toCU hv, s.getValue_restored_zero] at hvalue
    apply (s.headD_value_ne_zero hv).2
    rw [← hvalue, addVarWithHeader]
    cases Varlena.varsizeAny s.mem.srcBuf with
    | zero => rfl
    | succ n =>
      have hheadD := s.headD_srcBuf h hvalues
      cases hsrcBuf : s.mem.srcBuf with
      | nil => rfl
      | cons b bytes => rwa [hsrcBuf] at hheadD
  . push Not at hvalues
    obtain ⟨row, hrow, hnone⟩ := hvalues
    have hnull := (hsame row hrow).1
    rw [isNull_restored, s.isNull_toCU hhas hrow, hnone] at hnull
    cases hnull

theorem spill_restores_iff
    : (∃ cu, CUMem.reset.unpackNumericCUFromDisk (s.mem.packNumericCUForFlushToDisk generateCrc)
          s.mem.magic cuSize = some cu ∧
        SameRows s.mem.toCU cu.toCU s.rows.length)
        ↔
      s.mem.bpNullRawSize = 0 := by
  rw [unpack_pack]
  constructor
  . rintro ⟨cu, hcu, hsame⟩
    obtain rfl := Option.some.inj hcu
    by_contra h
    exact s.not_sameRows_of_bitmap generateCrc cuSize h hsame
  . intro h
    exact ⟨_, rfl, s.sameRows_of_no_bitmap generateCrc cuSize h⟩

section NullLost

def five : Bytes := [56, 0, 0, 0, 0, 0xD0] ++ LittleEndian.encode 8 5

def nullAndFiveMem : CUMem :=
  { CUMem.reset with
    infoMode := CUMem.cuHasNULL ||| 0x0180
    srcBufSize := 15
    bpNullRawSize := 1
    offsetSize := 12
    srcBuf := 1 :: five
    srcData := 1
    nulls := some 0
    offset := [0, 0, 14]
    numericIntLike := true }

theorem eq_five_of_mem {v : Bytes} (hv : some v ∈ [none, some five]) : v = five := by
  simpa using hv

def nullAndFive : NumericIntLikeCU where
  cu := nullAndFiveMem.toCU
  rows := [none, some five]
  stored v hv := ⟨⟨five, by decide, by decide⟩, (eq_five_of_mem hv).symm⟩
  srcData_eq := ⟨[], rfl⟩
  isNull_eq := by decide
  srcData_le := by decide
  numericIntLike_eq _ := by
    constructor
    . rfl
    . intro v hv
      rw [eq_five_of_mem hv]
      rfl
  offset_eq := by decide
  mem := nullAndFiveMem
  toCU_eq := rfl
  numericIntLike := rfl
  pointers := by constructor <;> rfl
  bitmap_eq := by
    have hbits : ∀ row < 8, 2 ≤ row → bitIsSet nullAndFiveMem.srcBuf row = false := by
      decide
    intro row hge hlt
    exact hbits row hlt hge
  length_srcBuf := rfl
  bpNullRawSize_le := by decide
  offset_lt := by decide
  offsetSize_eq := rfl

theorem null_lost
    : ¬ ∃ cu, CUMem.reset.unpackNumericCUFromDisk
          (nullAndFive.mem.packNumericCUForFlushToDisk fun _ => 0) nullAndFive.mem.magic 8192 = some cu ∧
        SameRows nullAndFive.mem.toCU cu.toCU nullAndFive.rows.length := by
  rw [unpack_pack]
  rintro ⟨cu, hcu, hsame⟩
  obtain rfl := Option.some.inj hcu
  exact nullAndFive.not_sameRows_of_bitmap _ _ (by decide) hsame

end NullLost

end NumericIntLikeCU

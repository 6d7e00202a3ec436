import OpenGauss.Cstore.CU.Impl

/-!
This module contains the verification of the reads of a decompressed CU.
-/

open List ScalarVector AttLen CU

namespace AttLen

variable {attlen : AttLen}

def Stored : AttLen → Bytes → Prop
  | varlena, v => ∃ numeric : Varlena, numeric.bytes = v
  | cstring, v => ∃ str : Bytes, 0 ∉ str ∧ v = str ++ [0]
  | attlen, v => v.length = attlen.toInt.toNat

theorem strlen_append {str : Bytes} (hstr : 0 ∉ str) (rest : Bytes)
    : strlen (str ++ 0 :: rest) = str.length := by
  unfold strlen
  rw [takeWhile_append_of_pos]
  . simp
  . intro byte hbyte
    apply decide_eq_true
    intro hzero
    apply hstr
    rwa [← hzero]

theorem scanLen_append {v : Bytes} (hstored : attlen.Stored v) (rest : Bytes)
    : attlen.scanLen (v ++ rest) = v.length := by
  cases attlen with
  | varlena =>
    obtain ⟨numeric, rfl⟩ := hstored
    apply numeric.varsizeAny_append
  | cstring =>
    obtain ⟨str, hstr, rfl⟩ := hstored
    simp [scanLen, strlen_append hstr]
  | _ => exact hstored.symm

theorem scanLen_of_fixed (hvarlena : attlen ≠ varlena) (hcstring : attlen ≠ cstring)
    : attlen.scanLen = fun _ => attlen.toInt.toNat := by
  cases attlen with
  | varlena => exact absurd rfl hvarlena
  | cstring => exact absurd rfl hcstring
  | _ => rfl

theorem addCStringVar_append (fresh : UInt8) {str : Bytes} (hstr : 0 ∉ str) (rest : Bytes)
    : addCStringVar fresh (str ++ 0 :: rest) = addCStringVar fresh (str ++ [0]) := by
  unfold addCStringVar
  rw [strlen_append hstr, strlen_append hstr]
  have htake : (str ++ 0 :: rest).take (str.length + 1) = (str ++ [0]).take (str.length + 1) := by
    rw [append_cons, take_left' (by simp)]
    simp
  dsimp only
  rw [htake]

theorem scalar_append (fresh : UInt8) {v : Bytes} (hstored : attlen.Stored v) (rest : Bytes)
    : attlen.scalar fresh (v ++ rest) = attlen.scalar fresh v := by
  cases attlen with
  | varlena =>
    obtain ⟨numeric, rfl⟩ := hstored
    simp only [scalar, addVarWithHeader]
    rw [numeric.varsizeAny_append, numeric.varsize_eq, take_left, take_length]
  | cstring =>
    obtain ⟨str, hstr, rfl⟩ := hstored
    simp only [scalar]
    rw [← append_cons, addCStringVar_append fresh hstr]
  | fixed12 =>
    have hlen : 12 ≤ v.length := Nat.le_of_eq hstored.symm
    simp only [scalar, addFixLenVar, take_append_of_le_length hlen]
  | fixed16 =>
    have hlen : 16 ≤ v.length := Nat.le_of_eq hstored.symm
    simp only [scalar, addFixLenVar, take_append_of_le_length hlen]
  | char =>
    have hlen : 1 ≤ v.length := Nat.le_of_eq hstored.symm
    simp only [scalar, take_append_of_le_length hlen]
  | int16 =>
    have hlen : 2 ≤ v.length := Nat.le_of_eq hstored.symm
    simp only [scalar, take_append_of_le_length hlen]
  | int32 =>
    have hlen : 4 ≤ v.length := Nat.le_of_eq hstored.symm
    simp only [scalar, take_append_of_le_length hlen]
  | datum =>
    have hlen : 8 ≤ v.length := Nat.le_of_eq hstored.symm
    simp only [scalar, take_append_of_le_length hlen]

end AttLen

structure DecompressedCU where
  cu : CU
  rows : List (Option Bytes)
  stored : ∀ v, some v ∈ rows → cu.eachValSize.Stored v
  srcData_eq : ∃ pad, cu.srcData = rows.flatMap (·.getD []) ++ pad
  isNull_eq : ∀ row, row < rows.length → (cu.hasNullValue && cu.isNull row) = (rows.getD row none).isNone
  srcData_le : cu.srcData.length ≤ cu.srcBufSize
  numericIntLike_eq : cu.numericIntLike = true →
    cu.eachValSize = .varlena ∧ ∀ v, some v ∈ rows → v.length = CU.numeric64Size
  offset_eq : cu.formValuesOffset rows.length = some cu.offset

namespace DecompressedCU

variable (d : DecompressedCU) (fresh : Nat → UInt8) {v : Bytes} {a rowCursor leftRows b first : Nat} {scan : CUScan}

def valuePos (row : Nat) : Nat := ((d.rows.take row).flatMap (·.getD [])).length

def cell (row : Nat) : ScalarValue :=
  match d.rows.getD row none with
  | none => .null
  | some v => d.cu.eachValSize.scalar (fresh row) v

theorem cell_congr {fresh fresh' : Nat → UInt8} {row : Nat} (heq : fresh row = fresh' row)
    : d.cell fresh row = d.cell fresh' row := by
  unfold cell
  rw [heq]

theorem valuePos_succ {row : Nat} (hrow : row < d.rows.length)
    : d.valuePos (row + 1) = d.valuePos row + ((d.rows.getD row none).getD []).length := by
  unfold valuePos
  rw [take_add_one, getElem?_eq_getElem hrow, flatMap_append, length_append]
  simp [getD_eq_getElem?_getD, getElem?_eq_getElem hrow]

theorem take_append_take_drop (hle : a ≤ b)
    : d.rows.take b = d.rows.take a ++ (d.rows.take b).drop a := by
  have hsplit := take_append_drop a (d.rows.take b)
  rw [take_take, Nat.min_eq_left hle] at hsplit
  exact hsplit.symm

def between (a b : Nat) : Bytes := ((d.rows.take b).drop a).flatMap (·.getD [])

theorem valuePos_add_length_between (hle : a ≤ b)
    : d.valuePos a + (d.between a b).length = d.valuePos b := by
  unfold valuePos between
  rw [← length_append, ← flatMap_append, ← d.take_append_take_drop hle]

theorem valuePos_le (hle : a ≤ b) : d.valuePos a ≤ d.valuePos b := by
  have := d.valuePos_add_length_between hle
  omega

theorem srcData_drop_valuePos (b : Nat) (hle : a ≤ b)
    : ∃ rest, d.cu.srcData.drop (d.valuePos a) = d.between a b ++ rest := by
  obtain ⟨pad, hsrc⟩ := d.srcData_eq
  exists (d.rows.drop b).flatMap (·.getD []) ++ pad
  have hrows : d.rows = d.rows.take a ++ ((d.rows.take b).drop a ++ d.rows.drop b) := by
    rw [← append_assoc, ← d.take_append_take_drop hle, take_append_drop]
  rw [hsrc]
  conv => lhs; rw [hrows]
  rw [flatMap_append, flatMap_append, append_assoc, append_assoc]
  apply drop_left

theorem between_cons (hlt : a < b) (hrow : a < d.rows.length)
    : d.between a b = (d.rows.getD a none).getD [] ++ d.between (a + 1) b := by
  unfold between
  rw [drop_eq_getElem_cons (by simp; omega), flatMap_cons]
  simp [getD_eq_getElem?_getD, getElem?_eq_getElem hrow]

theorem mem_rows {row : Nat} (hv : d.rows.getD row none = some v)
    : row < d.rows.length ∧ some v ∈ d.rows := by
  have hrow : row < d.rows.length := by
    by_contra hge
    rw [getD_eq_default _ _ (by omega)] at hv
    cases hv
  constructor
  . exact hrow
  . rw [getD_eq_getElem _ _ hrow] at hv
    rw [← hv]
    apply getElem_mem

theorem stored_of_getD {row : Nat} (hv : d.rows.getD row none = some v)
    : d.cu.eachValSize.Stored v := by
  apply d.stored
  apply (d.mem_rows hv).2

theorem srcData_drop_eq {row : Nat} (hv : d.rows.getD row none = some v)
    : ∃ rest, d.cu.srcData.drop (d.valuePos row) = v ++ rest := by
  obtain ⟨rest, hrest⟩ := d.srcData_drop_valuePos (row + 1) (Nat.le_succ row)
  rw [d.between_cons (by omega) (d.mem_rows hv).1, hv] at hrest
  exact ⟨_, by rw [hrest, append_assoc]; rfl⟩

theorem scalar_drop_valuePos {row : Nat} (hv : d.rows.getD row none = some v)
    : d.cu.eachValSize.scalar (fresh row) (d.cu.srcData.drop (d.valuePos row)) = d.cell fresh row := by
  obtain ⟨rest, hrest⟩ := d.srcData_drop_eq hv
  rw [hrest, scalar_append (fresh row) (d.stored_of_getD hv)]
  simp only [cell, hv]

theorem scanLen_drop_valuePos {row : Nat} (hv : d.rows.getD row none = some v)
    : d.valuePos row + d.cu.eachValSize.scanLen (d.cu.srcData.drop (d.valuePos row))
        =
      d.valuePos (row + 1) := by
  obtain ⟨rest, hrest⟩ := d.srcData_drop_eq hv
  rw [hrest, scanLen_append (d.stored_of_getD hv), d.valuePos_succ (d.mem_rows hv).1, hv]
  rfl

section Scan

variable (hasDeadRow : Bool) (cuDelMask : Bytes)

def isDead (row : Nat) : Bool := hasDeadRow && bitIsSet cuDelMask row

def liveRows (first n : Nat) : List Nat := (List.range' first n).filter (!isDead hasDeadRow cuDelMask ·)

def deadRows (first n : Nat) : List Nat := (List.range' first n).filter (isDead hasDeadRow cuDelMask)

theorem length_liveRows_add (first n : Nat)
    : (liveRows hasDeadRow cuDelMask first n).length + (deadRows hasDeadRow cuDelMask first n).length
        =
      n := by
  have hsplit := length_eq_length_filter_add (l := List.range' first n) (isDead hasDeadRow cuDelMask)
  rw [length_range'] at hsplit
  unfold liveRows deadRows
  omega

theorem liveRows_add (first m n : Nat)
    : liveRows hasDeadRow cuDelMask first (m + n)
        =
      liveRows hasDeadRow cuDelMask first m ++ liveRows hasDeadRow cuDelMask (first + m) n := by
  unfold liveRows
  rw [← filter_append, range'_append_1]

theorem liveRows_false (first n : Nat) : liveRows false cuDelMask first n = List.range' first n := by
  unfold liveRows
  rw [filter_eq_self]
  intros
  rfl

theorem deadRows_false (first n : Nat) : deadRows false cuDelMask first n = [] := by
  unfold deadRows
  rw [filter_eq_nil_iff]
  intros
  simp [isDead]

structure Scanned (first n : Nat) (before after : CU.VectorState) : Prop where
  vals : after.vals = before.vals ++ (liveRows hasDeadRow cuDelMask first n).map (d.cell fresh)
  curScanPos : after.curScanPos = d.valuePos (first + n)
  deadRows : after.deadRows = before.deadRows + (deadRows hasDeadRow cuDelMask first n).length

variable {d}

variable {fresh} {hasDeadRow} {cuDelMask} in
theorem Scanned.trans {m n : Nat} {st₁ st₂ st₃ : VectorState}
    (h₁₂ : d.Scanned fresh hasDeadRow cuDelMask first m st₁ st₂)
    (h₂₃ : d.Scanned fresh hasDeadRow cuDelMask (first + m) n st₂ st₃)
    : d.Scanned fresh hasDeadRow cuDelMask first (m + n) st₁ st₃ := by
  constructor
  . rw [h₂₃.vals, h₁₂.vals, liveRows_add, map_append, append_assoc]
  . rw [h₂₃.curScanPos, Nat.add_assoc]
  . have h := length_liveRows_add hasDeadRow cuDelMask first (m + n)
    have hm := length_liveRows_add hasDeadRow cuDelMask first m
    have hn := length_liveRows_add hasDeadRow cuDelMask (first + m) n
    rw [liveRows_add, length_append] at h
    rw [h₂₃.deadRows, h₁₂.deadRows]
    omega

theorem toVectorStep_scanned {row : Nat} (hrow : row < d.rows.length) {st : VectorState}
    (hpos : st.curScanPos = d.valuePos row)
    : d.Scanned fresh hasDeadRow cuDelMask row 1 st
        (d.cu.toVectorStep fresh d.cu.hasNullValue hasDeadRow cuDelMask st row) := by
  have hnull := d.isNull_eq row hrow
  have hlive : liveRows hasDeadRow cuDelMask row 1
      = if isDead hasDeadRow cuDelMask row then [] else [row] := by
    cases h : isDead hasDeadRow cuDelMask row <;> simp [liveRows, h]
  have hdead : deadRows hasDeadRow cuDelMask row 1
      = if isDead hasDeadRow cuDelMask row then [row] else [] := by
    cases h : isDead hasDeadRow cuDelMask row <;> simp [deadRows, h]
  unfold toVectorStep
  rw [hnull, ← isDead]
  cases hv : d.rows.getD row none with
  | none =>
    have hstay : d.valuePos (row + 1) = d.valuePos row := by
      rw [d.valuePos_succ hrow, hv]
      rfl
    have hcell : d.cell fresh row = .null := by
      simp only [cell, hv]
    cases h : isDead hasDeadRow cuDelMask row with
    | false => constructor <;> simp [hlive, hdead, h, hcell, hpos, hstay]
    | true => constructor <;> simp [hlive, hdead, h, hpos, hstay]
  | some v =>
    have hscalar := d.scalar_drop_valuePos fresh hv
    have hlen := d.scanLen_drop_valuePos hv
    rw [← hpos] at hscalar hlen
    cases h : isDead hasDeadRow cuDelMask row with
    | false => constructor <;> simp [hlive, hdead, h, hscalar, hlen]
    | true => constructor <;> simp [hlive, hdead, h, hlen]

theorem toVectorLoop_scanned (left : Nat) {row : Nat} (hrows : row + left ≤ d.rows.length)
    {st : VectorState} (hpos : st.curScanPos = d.valuePos row)
    : ∃ n ≤ left, (0 < left → st.vals.length < batchMaxSize → 0 < n) ∧ d.Scanned fresh hasDeadRow cuDelMask row n st
          (d.cu.toVectorLoop fresh d.cu.hasNullValue hasDeadRow cuDelMask left row st) := by
  induction left generalizing row st with
  | zero =>
    refine ⟨0, Nat.le_refl _, fun h => absurd h (Nat.lt_irrefl 0), ?_⟩
    constructor <;> simp [toVectorLoop, liveRows, deadRows, hpos]
  | succ left ih =>
    unfold toVectorLoop
    split
    . have hstep := toVectorStep_scanned fresh hasDeadRow cuDelMask (by omega : row < d.rows.length) hpos
      obtain ⟨n, hn, _, hscanned⟩ := ih (by omega) hstep.curScanPos
      refine ⟨1 + n, by omega, by omega, ?_⟩
      apply hstep.trans hscanned
    . next hfull =>
      refine ⟨0, Nat.zero_le _, fun _ h => absurd h hfull, ?_⟩
      constructor <;> simp [liveRows, deadRows, hpos]

end Scan

section Offset

theorem valuePos_le_srcBufSize (row : Nat) : d.valuePos row ≤ d.cu.srcBufSize := by
  obtain ⟨pad, hsrc⟩ := d.srcData_eq
  have hle := d.srcData_le
  have hrows := d.rows.take_append_drop row
  unfold valuePos
  rw [hsrc, ← hrows, flatMap_append] at hle
  simp only [length_append] at hle
  omega

variable {d}

theorem formOffsetsLoop_eq {len : Bytes → Nat} (checkAfter : Bool → Bool) {pos : Nat → Nat}
    (hnull : ∀ row, row < d.rows.length → d.rows.getD row none = none → pos (row + 1) = pos row)
    (hvalue : ∀ row v, d.rows.getD row none = some v →
      pos row + len (d.cu.srcData.drop (pos row)) = pos (row + 1))
    (hle : ∀ row, pos row ≤ d.cu.srcBufSize)
    (left : Nat) {row : Nat} (hrows : row + left ≤ d.rows.length)
    : d.cu.formOffsetsLoop len checkAfter left row (pos row)
        =
      some ((List.range' row (left + 1)).map pos) := by
  induction left generalizing row with
  | zero => rfl
  | succ left ih =>
    have hrow : row < d.rows.length := by
      omega
    have hnext : (if (d.cu.hasNullValue && d.cu.isNull row) = true then pos row
        else pos row + len (d.cu.srcData.drop (pos row))) = pos (row + 1) := by
      rw [d.isNull_eq row hrow]
      cases hv : d.rows.getD row none with
      | none => rw [hnull row hrow hv]; rfl
      | some v => rw [hvalue row v hv]; rfl
    have hcheck := hle (row + 1)
    have hrest := @ih (row + 1) (by omega)
    unfold formOffsetsLoop
    simp only [hnext, hrest]
    rw [if_neg (by omega)]
    rfl

theorem getD_of_not_hasNullValue (hnull : d.cu.hasNullValue = false) {row : Nat} (hrow : row < d.rows.length)
    : ∃ v, d.rows.getD row none = some v := by
  have hisNull := d.isNull_eq row hrow
  rw [hnull, Bool.false_and] at hisNull
  apply Option.isSome_iff_exists.mp
  rw [← Option.not_isNone, ← hisNull]
  rfl

theorem valuePos_of_length_eq (hnull : d.cu.hasNullValue = false) {size : Nat}
    (hsize : ∀ v, some v ∈ d.rows → v.length = size) {row : Nat} (hrow : row ≤ d.rows.length)
    : d.valuePos row = row * size := by
  induction row with
  | zero => simp [valuePos]
  | succ row ih =>
    obtain ⟨v, hv⟩ := getD_of_not_hasNullValue hnull (by omega : row < d.rows.length)
    rw [d.valuePos_succ (by omega), ih (by omega), hv, Nat.succ_mul]
    congr 1
    apply hsize
    apply (d.mem_rows hv).2

theorem formOffsetsLoop_valuePos (len : Bytes → Nat) (checkAfter : Bool → Bool)
    (hlen : ∀ row v, d.rows.getD row none = some v → len (d.cu.srcData.drop (d.valuePos row)) = v.length)
    : d.cu.formOffsetsLoop len checkAfter d.rows.length 0 0
        =
      some ((List.range' 0 (d.rows.length + 1)).map d.valuePos) := by
  have hzero : d.valuePos 0 = 0 := by
    simp [valuePos]
  have hloop : d.cu.formOffsetsLoop len checkAfter d.rows.length 0 (d.valuePos 0)
      = some ((List.range' 0 (d.rows.length + 1)).map d.valuePos) := by
    apply formOffsetsLoop_eq
    . intro row hrow hv
      rw [d.valuePos_succ hrow, hv]
      rfl
    . intro row v hv
      rw [hlen row v hv, d.valuePos_succ (d.mem_rows hv).1, hv]
      rfl
    . apply d.valuePos_le_srcBufSize
    . omega
  rwa [hzero] at hloop

variable (hattlen : d.cu.eachValSize ≠ .cstring)
include hattlen

variable (hformed : ¬ (d.cu.eachValSize.fixedSize?.isSome ∧ d.cu.hasNullValue = false))
include hformed

theorem offset_eq_valuePos : d.cu.offset = (List.range' 0 (d.rows.length + 1)).map d.valuePos := by
  have hoffset := d.offset_eq
  unfold formValuesOffset at hoffset
  rw [if_neg hformed] at hoffset
  split at hoffset
  . next hfast =>
    obtain ⟨hvarlena, hsize⟩ := d.numericIntLike_eq hfast.1
    rw [Option.some.injEq] at hoffset
    rw [← hoffset, range_eq_range']
    apply map_congr_left
    intro row hrow
    rw [mem_range'_1] at hrow
    rw [valuePos_of_length_eq hfast.2 hsize (by omega)]
  . have hlen : ∀ row v, d.rows.getD row none = some v →
        d.cu.eachValSize.scanLen (d.cu.srcData.drop (d.valuePos row)) = v.length := by
      intro row v hv
      have hscan := d.scanLen_drop_valuePos hv
      rw [d.valuePos_succ (d.mem_rows hv).1, hv] at hscan
      apply Nat.add_left_cancel hscan
    split at hoffset
    . next hvarlena =>
      rw [hvarlena] at hlen
      rw [formOffsetsLoop_valuePos Varlena.varsizeAny _ hlen, Option.some.injEq] at hoffset
      exact hoffset.symm
    . next hcstring => exact absurd hcstring hattlen
    . next hnotVarlena hnotCstring =>
      rw [scanLen_of_fixed hnotVarlena hnotCstring] at hlen
      rw [formOffsetsLoop_valuePos _ _ hlen, Option.some.injEq] at hoffset
      exact hoffset.symm

theorem offset_getD {row : Nat} (hrow : row ≤ d.rows.length)
    : d.cu.offset.getD row 0 = d.valuePos row := by
  rw [offset_eq_valuePos hattlen hformed, getD_eq_getElem _ _ (by simp; omega)]
  simp

end Offset

section Copy

variable {d}

theorem between_append {c : Nat} (hab : a ≤ b) (hbc : b ≤ c) (hb : b ≤ d.rows.length)
    : d.between a c = d.between a b ++ d.between b c := by
  have hlen : a ≤ (d.rows.take b).length := by
    rw [length_take_of_le hb]
    exact hab
  unfold between
  rw [← flatMap_append, ← drop_append_of_le_length hlen, ← d.take_append_take_drop hbc]

theorem take_drop_valuePos (hle : a ≤ b)
    : (d.cu.srcData.drop (d.valuePos a)).take (d.valuePos b - d.valuePos a) = d.between a b := by
  obtain ⟨rest, hrest⟩ := d.srcData_drop_valuePos b hle
  have hlen := d.valuePos_add_length_between hle
  rw [hrest, take_left' (by omega)]

theorem unrolledCount_eq (rows : Nat) : unrolledCount rows = rows := by
  have hand : rows &&& 0x3 = rows % 4 := Nat.and_two_pow_sub_one_eq_mod rows 2
  unfold unrolledCount
  rw [hand, Nat.shiftRight_eq_div_pow]
  omega

theorem copyVars_eq (hattlen : d.cu.eachValSize = .varlena) (hnull : d.cu.hasNullValue = false)
    {rows : Nat} (hrows : first + rows ≤ d.rows.length)
    : d.cu.copyVars (d.cu.srcData.drop (d.valuePos first)) first rows
        =
      (List.range' first rows).map (d.cell fresh) := by
  have hoffset {row : Nat} (hrow : row ≤ d.rows.length) : d.cu.offset.getD row 0 = d.valuePos row := by
    apply offset_getD
    . simp [hattlen]
    . simp [hattlen, fixedSize?, toInt]
    . exact hrow
  unfold copyVars
  rw [unrolledCount_eq, range'_eq_map_range, map_map]
  apply map_congr_left
  intro i hi
  rw [mem_range] at hi
  obtain ⟨v, hv⟩ := getD_of_not_hasNullValue hnull (by omega : first + i < d.rows.length)
  have hmid := d.valuePos_add_length_between (Nat.le_add_right first i)
  dsimp only [Function.comp_apply]
  rw [hoffset (by omega), hoffset (by omega), hoffset (by omega), take_drop_valuePos (by omega)]
  rw [between_append (by omega : first ≤ first + i) (by omega) (by omega), drop_left' (by omega)]
  rw [d.between_cons (by omega) (by omega), hv]
  simp only [cell, hv, hattlen]
  have hstored := d.stored_of_getD hv
  rw [hattlen] at hstored
  apply scalar_append _ hstored

theorem copyDatums_eq (hattlen : d.cu.eachValSize = .datum) (hnull : d.cu.hasNullValue = false)
    {rows : Nat} (hrows : first + rows ≤ d.rows.length)
    : copyDatums (d.between first (first + rows)) rows = (List.range' first rows).map (d.cell fresh) := by
  unfold copyDatums
  induction rows generalizing first with
  | zero => rfl
  | succ rows ih =>
    obtain ⟨v, hv⟩ := getD_of_not_hasNullValue hnull (by omega : first < d.rows.length)
    have hstored := d.stored_of_getD hv
    rw [hattlen] at hstored
    have hlen : v.length = 8 := hstored
    rw [d.between_cons (by omega) (by omega), hv, Option.getD_some, LittleEndian.unpack]
    rw [take_left' hlen, drop_left' hlen, range'_succ, map_cons, map_cons]
    congr 1
    . simp only [cell, hv, hattlen, scalar]
      rw [take_of_length_le (by omega)]
    . have := @ih (first + 1) (by omega)
      rwa [Nat.add_assoc, Nat.add_comm 1] at this

end Copy

section ToVector

variable {d} (hasDeadRow : Bool) (cuDelMask : Bytes)

theorem toVectorVarlena_scanned (hattlen : d.cu.eachValSize = .varlena) (hnull : d.cu.hasNullValue = false)
    (hrows : rowCursor + leftRows ≤ d.rows.length)
    : d.Scanned fresh false cuDelMask rowCursor (min leftRows batchMaxSize)
        ⟨[], d.valuePos rowCursor, 0⟩ (d.cu.toVectorVarlena leftRows rowCursor (d.valuePos rowCursor)) := by
  have hoffset {row : Nat} (hrow : row ≤ d.rows.length) : d.cu.offset.getD row 0 = d.valuePos row := by
    apply offset_getD
    . simp [hattlen]
    . simp [hattlen, fixedSize?, toInt]
    . exact hrow
  constructor
  . simp only [toVectorVarlena]
    rw [copyVars_eq fresh hattlen hnull (by omega)]
    rw [liveRows_false, nil_append]
  . have hle := d.valuePos_le (Nat.le_add_right rowCursor (min leftRows batchMaxSize))
    simp only [toVectorVarlena]
    rw [hoffset (by omega), hoffset (by omega)]
    omega
  . rw [deadRows_false]
    rfl

section

variable (hattlen : d.cu.eachValSize = .datum)
include hattlen

variable (hnull : d.cu.hasNullValue = false)
include hnull

theorem valuePos_datum {row : Nat} (hrow : row ≤ d.rows.length) : d.valuePos row = row * 8 := by
  apply valuePos_of_length_eq hnull
  . intro v hv
    have hstored := d.stored v hv
    rw [hattlen] at hstored
    exact hstored
  . exact hrow

theorem take_drop_datum {n : Nat} (hrows : first + n ≤ d.rows.length)
    : (d.cu.srcData.drop (d.valuePos first)).take (n <<< 3) = d.between first (first + n) := by
  have hfirst := valuePos_datum hattlen hnull (by omega : first ≤ d.rows.length)
  have hlast := valuePos_datum hattlen hnull hrows
  rw [← take_drop_valuePos (by omega)]
  congr 1
  rw [Nat.shiftLeft_eq]
  omega

theorem toVectorDatum_scanned (hrows : rowCursor + leftRows ≤ d.rows.length)
    : d.Scanned fresh false cuDelMask rowCursor (min leftRows batchMaxSize)
        ⟨[], d.valuePos rowCursor, 0⟩ (d.cu.toVectorDatum leftRows (d.valuePos rowCursor)) := by
  constructor
  . simp only [toVectorDatum]
    rw [take_drop_datum hattlen hnull (by omega), copyDatums_eq fresh hattlen hnull (by omega)]
    rw [liveRows_false, nil_append]
  . simp only [toVectorDatum]
    rw [valuePos_datum hattlen hnull (by omega), valuePos_datum hattlen hnull (by omega)]
    rw [Nat.shiftLeft_eq]
    omega
  . rw [deadRows_false]
    rfl

end

theorem toVector_scanned (hrows : rowCursor + leftRows ≤ d.rows.length)
    : ∃ n ≤ leftRows, (0 < leftRows → 0 < n) ∧
        d.Scanned fresh hasDeadRow cuDelMask rowCursor n ⟨[], d.valuePos rowCursor, 0⟩
          (d.cu.toVector fresh hasDeadRow leftRows rowCursor (d.valuePos rowCursor) cuDelMask) := by
  have hbatch : 0 < batchMaxSize := by
    decide
  have htoVector : d.cu.toVector fresh hasDeadRow leftRows rowCursor (d.valuePos rowCursor) cuDelMask
      = d.cu.toVectorT fresh d.cu.hasNullValue hasDeadRow leftRows rowCursor (d.valuePos rowCursor) cuDelMask := by
    unfold toVector
    cases d.cu.hasNullValue <;> rfl
  rw [htoVector]
  unfold toVectorT
  split
  . next hattlen hnull =>
    refine ⟨min leftRows batchMaxSize, Nat.min_le_left .., by omega, ?_⟩
    apply toVectorVarlena_scanned fresh cuDelMask hattlen hnull hrows
  . next hattlen hnull =>
    refine ⟨min leftRows batchMaxSize, Nat.min_le_left .., by omega, ?_⟩
    apply toVectorDatum_scanned fresh cuDelMask hattlen hnull hrows
  . next hasDeadRow _ _ _ _ _ =>
    obtain ⟨n, hn, hpos, hscanned⟩ :=
      @toVectorLoop_scanned d fresh hasDeadRow cuDelMask leftRows rowCursor hrows ⟨[], d.valuePos rowCursor, 0⟩ rfl
    exact ⟨n, hn, fun h => hpos h hbatch, hscanned⟩

structure ScanInvariant (d : DecompressedCU) (hasDeadRow : Bool) (cuDelMask : Bytes) (scan : CUScan)
    : Prop where
  rowCursor_le : scan.rowCursorInCU ≤ d.rows.length
  scanPos_eq : scan.scanPosInCU = d.valuePos scan.rowCursorInCU
  returned_eq : ∃ fresh : Nat → UInt8,
    scan.returned = (liveRows hasDeadRow cuDelMask 0 scan.rowCursorInCU).map (d.cell fresh)

theorem fillVector_invariant (hinv : d.ScanInvariant hasDeadRow cuDelMask scan)
    (hleft : scan.rowCursorInCU + leftRows ≤ d.rows.length)
    : d.ScanInvariant hasDeadRow cuDelMask (scan.fillVector d.cu fresh hasDeadRow cuDelMask leftRows) ∧
      (0 < leftRows →
        scan.rowCursorInCU < (scan.fillVector d.cu fresh hasDeadRow cuDelMask leftRows).rowCursorInCU) ∧
      (scan.fillVector d.cu fresh hasDeadRow cuDelMask leftRows).rowCursorInCU
        ≤ scan.rowCursorInCU + leftRows := by
  obtain ⟨n, hn, hpos, hvals, hcurScanPos, hdeadRows⟩ := toVector_scanned fresh hasDeadRow cuDelMask hleft
  have hcount := length_liveRows_add hasDeadRow cuDelMask scan.rowCursorInCU n
  unfold CUScan.fillVector
  rw [hinv.scanPos_eq]
  dsimp only
  have hcursor : scan.rowCursorInCU + (d.cu.toVector fresh hasDeadRow leftRows scan.rowCursorInCU
        (d.valuePos scan.rowCursorInCU) cuDelMask).vals.length
      + (d.cu.toVector fresh hasDeadRow leftRows scan.rowCursorInCU
        (d.valuePos scan.rowCursorInCU) cuDelMask).deadRows
      = scan.rowCursorInCU + n := by
    rw [hvals, hdeadRows]
    simp only [nil_append, length_map]
    omega
  rw [hcursor]
  refine ⟨?_, by omega, by omega⟩
  constructor
  . dsimp only
    omega
  . exact hcurScanPos
  . obtain ⟨fresh', hreturned⟩ := hinv.returned_eq
    exists fun row => if row < scan.rowCursorInCU then fresh' row else fresh row
    dsimp only
    rw [liveRows_add, map_append, hvals, hreturned, Nat.zero_add]
    congr 1
    . apply map_congr_left
      intro row hrow
      have hlt := (mem_range'_1.mp (mem_of_mem_filter hrow)).2
      apply cell_congr
      rw [if_pos (by omega)]
    . apply map_congr_left
      intro row hrow
      have hge := (mem_range'_1.mp (mem_of_mem_filter hrow)).1
      apply cell_congr
      rw [if_neg (by omega)]

theorem invariant_of_reachable (hscan : CUScan.Reachable d.cu d.rows.length hasDeadRow cuDelMask scan)
    : d.ScanInvariant hasDeadRow cuDelMask scan := by
  induction hscan with
  | start =>
    constructor
    . exact Nat.zero_le _
    . rfl
    . exact ⟨fun _ => 0, rfl⟩
  | step _ hleft ih => exact (fillVector_invariant _ hasDeadRow cuDelMask ih hleft).1

theorem exists_reachable {row : Nat} (hrow : row ≤ d.rows.length)
    : ∃ scan, CUScan.Reachable d.cu d.rows.length hasDeadRow cuDelMask scan ∧ scan.rowCursorInCU = row := by
  induction row with
  | zero => exact ⟨_, .start, rfl⟩
  | succ row ih =>
    obtain ⟨scan, hscan, rfl⟩ := ih (by omega)
    have hinv := invariant_of_reachable hasDeadRow cuDelMask hscan
    have hstep := fillVector_invariant (fun _ => 0) hasDeadRow cuDelMask hinv hrow
    refine ⟨scan.fillVector d.cu (fun _ => 0) hasDeadRow cuDelMask 1, .step hscan hrow, ?_⟩
    omega

end ToVector

section LateRead

theorem contiguousRun_spec (nextOffset : Nat) (tids : List Nat)
    : tids
        =
      List.range' nextOffset (contiguousRun nextOffset tids).1 ++
        (contiguousRun nextOffset tids).2 := by
  induction tids generalizing nextOffset with
  | nil => rfl
  | cons tmpOffset tids ih =>
    unfold contiguousRun
    split
    . next heq =>
      dsimp only
      rw [range'_succ, cons_append, ← ih, heq]
    . rfl

theorem lateReadRuns_eq {copy : Nat → Nat → List ScalarValue} {read : Nat → ScalarValue} {rowCount : Nat}
    (hcopy : ∀ first n, first + n ≤ rowCount → copy first n = (List.range' first n).map read)
    {tids : List Nat} (htids : ∀ row ∈ tids, row < rowCount)
    : lateReadRuns copy tids = tids.map read := by
  fun_induction lateReadRuns copy tids with
  | case1 => rfl
  | case2 firstOffset tids run ih =>
    have hrun := contiguousRun_spec (firstOffset + 1) tids
    have hsplit : firstOffset :: tids = List.range' firstOffset (run.1 + 1) ++ run.2 := by
      rw [range'_succ, cons_append, ← hrun]
    rw [hsplit] at htids ⊢
    have hlast : firstOffset + run.1 < rowCount := by
      apply htids
      rw [mem_append, mem_range'_1]
      omega
    rw [hcopy _ _ (by omega), map_append, ih]
    intro row hrow
    apply htids
    rw [mem_append]
    exact Or.inr hrow

variable {d}

theorem fixedSize_eq {attlen : AttLen} {size : Nat} (hsize : attlen.fixedSize? = some size)
    (hstored : attlen.Stored v)
    : v.length = size := by
  cases attlen with
  | varlena => simp [fixedSize?, toInt] at hsize
  | cstring => simp [fixedSize?, toInt] at hsize
  | _ =>
    rw [fixedSize?, if_pos (by decide), Option.some.injEq] at hsize
    rw [← hsize]
    exact hstored

variable (hattlen : d.cu.eachValSize ≠ .cstring)
include hattlen

theorem getValue_eq {row : Nat} (hrow : row < d.rows.length)
    : d.cu.getValue d.cu.hasNullValue row = d.cu.srcData.drop (d.valuePos row) := by
  unfold getValue
  split
  . next size hsize =>
    split
    . next hnull =>
      rw [offset_getD hattlen (by simp [hnull]) (by omega)]
    . next hnull =>
      rw [Bool.not_eq_true] at hnull
      congr 1
      rw [valuePos_of_length_eq hnull (fun v hv => fixedSize_eq hsize (d.stored v hv)) (by omega)]
      apply Nat.mul_comm
  . next hsize =>
    rw [offset_getD hattlen (by simp [hsize]) (by omega)]

theorem lateReadRow_eq {row : Nat} (hrow : row < d.rows.length)
    : d.cu.lateReadRow fresh d.cu.hasNullValue row = d.cell fresh row := by
  unfold lateReadRow
  rw [d.isNull_eq row hrow, getValue_eq hattlen hrow]
  cases hv : d.rows.getD row none with
  | none => simp only [Option.isNone_none, ↓reduceIte, cell, hv]
  | some v =>
    simp only [Option.isNone_some, Bool.false_eq_true, ↓reduceIte]
    apply d.scalar_drop_valuePos fresh hv

theorem toVectorLateRead_eq {tids : List Nat} (htids : ∀ row ∈ tids, row < d.rows.length)
    : d.cu.toVectorLateRead fresh tids = tids.map (d.cell fresh) := by
  unfold toVectorLateRead
  split
  . next hdatum hnull =>
    apply lateReadRuns_eq _ htids
    intro first n hrows
    rw [← valuePos_datum hdatum hnull (by omega), take_drop_datum hdatum hnull hrows]
    apply copyDatums_eq fresh hdatum hnull hrows
  . next hvarlena hnull =>
    apply lateReadRuns_eq _ htids
    intro first n hrows
    rw [offset_getD hattlen (by simp [hvarlena, fixedSize?, toInt]) (by omega)]
    apply copyVars_eq fresh hvarlena hnull hrows
  . apply map_congr_left
    intro row hrow
    apply lateReadRow_eq fresh hattlen (htids row hrow)

end LateRead

section CString

def valueBefore (row : Nat) : Bool := (d.rows.take row).any Option.isSome

theorem valueBefore_succ {row : Nat} (hrow : row < d.rows.length)
    : d.valueBefore (row + 1) = (d.valueBefore row || (d.rows.getD row none).isSome) := by
  unfold valueBefore
  rw [take_add_one, getElem?_eq_getElem hrow, any_append]
  simp [getD_eq_getElem?_getD, getElem?_eq_getElem hrow]

theorem valuePos_of_not_valueBefore {row : Nat} (hbefore : d.valueBefore row = false)
    : d.valuePos row = 0 := by
  unfold valueBefore at hbefore
  rw [any_eq_false] at hbefore
  unfold valuePos
  rw [length_eq_zero_iff, flatMap_eq_nil_iff]
  intro v hv
  have hnone := hbefore v hv
  rw [Bool.not_eq_true, Option.isSome_eq_false_iff, Option.isNone_iff_eq_none] at hnone
  rw [hnone]
  rfl

theorem flatMap_cstring {rows : List (Option Bytes)} (hstored : ∀ v, some v ∈ rows → cstring.Stored v)
    (hsome : rows.any Option.isSome = true)
    : ∃ str rest, 0 ∉ str ∧ rows.flatMap (·.getD []) = str ++ 0 :: rest := by
  induction rows with
  | nil => simp at hsome
  | cons row rows ih =>
    cases row with
    | none =>
      apply ih
      . intro v hv
        apply hstored
        apply mem_cons_of_mem _ hv
      . exact hsome
    | some v =>
      obtain ⟨str, hstr, rfl⟩ := hstored v (mem_cons_self ..)
      refine ⟨str, rows.flatMap (·.getD []), hstr, ?_⟩
      simp

variable {d}

theorem srcData_cstring (hattlen : d.cu.eachValSize = .cstring) {row : Nat}
    (hbefore : d.valueBefore row = true)
    : ∃ str rest, 0 ∉ str ∧ d.cu.srcData = str ++ 0 :: rest := by
  have hstored := d.stored
  rw [hattlen] at hstored
  obtain ⟨pad, hsrc⟩ := d.srcData_eq
  obtain ⟨str, rest, hstr, hflat⟩ := flatMap_cstring hstored (by
    unfold valueBefore at hbefore
    rw [any_eq_true] at hbefore ⊢
    obtain ⟨v, hv, hsome⟩ := hbefore
    exact ⟨v, mem_of_mem_take hv, hsome⟩)
  refine ⟨str, rest ++ pad, hstr, ?_⟩
  rw [hsrc, hflat, append_assoc, cons_append]

-- The table counts no terminating byte: it never gets past the end of the first string.
def cstringPos (d : DecompressedCU) (row : Nat) : Nat :=
  if d.valueBefore row then ScalarVector.strlen d.cu.srcData else 0

section

variable (hattlen : d.cu.eachValSize = .cstring)
include hattlen

theorem srcData_drop_cstringPos {row : Nat} (hbefore : d.valueBefore row = true)
    : ∃ rest, d.cu.srcData.drop (d.cstringPos row) = 0 :: rest := by
  obtain ⟨str, rest, hstr, hsrc⟩ := srcData_cstring hattlen hbefore
  exists rest
  unfold cstringPos
  rw [if_pos hbefore, hsrc, strlen_append hstr, drop_left]

theorem offset_eq_cstringPos
    : d.cu.offset = (List.range' 0 (d.rows.length + 1)).map d.cstringPos := by
  have hoffset := d.offset_eq
  have hzero : d.cstringPos 0 = 0 := by
    simp [cstringPos, valueBefore]
  have hloop : d.cu.formOffsetsLoop strlen (fun _ => true) d.rows.length 0 (d.cstringPos 0)
      = some ((List.range' 0 (d.rows.length + 1)).map d.cstringPos) := by
    apply formOffsetsLoop_eq
    . intro row hrow hv
      unfold cstringPos
      rw [d.valueBefore_succ hrow, hv, Option.isSome_none, Bool.or_false]
    . intro row v hv
      have hnext : d.valueBefore (row + 1) = true := by
        rw [d.valueBefore_succ (d.mem_rows hv).1, hv, Option.isSome_some, Bool.or_true]
      have hlast : d.cstringPos (row + 1) = strlen d.cu.srcData := if_pos hnext
      cases hbefore : d.valueBefore row with
      | true =>
        obtain ⟨rest, hrest⟩ := srcData_drop_cstringPos hattlen hbefore
        rw [hrest, hlast, cstringPos, if_pos hbefore]
        rfl
      | false =>
        have hfirst : d.cstringPos row = 0 := by
          simp [cstringPos, hbefore]
        rw [hfirst, hlast, drop_zero, Nat.zero_add]
    . intro row
      have hle := d.srcData_le
      have hstrlen : strlen d.cu.srcData ≤ d.cu.srcData.length :=
        (takeWhile_sublist _).length_le
      unfold cstringPos
      split <;> omega
    . omega
  have hnotNumeric : d.cu.numericIntLike = false := by
    by_contra hnumeric
    rw [Bool.not_eq_false] at hnumeric
    have := (d.numericIntLike_eq hnumeric).1
    rw [hattlen] at this
    cases this
  rw [hzero] at hloop
  unfold formValuesOffset at hoffset
  simp only [hattlen, fixedSize?, toInt, hnotNumeric, hloop] at hoffset
  simpa using hoffset.symm

theorem lateReadRow_cstring {row : Nat} (hv : d.rows.getD row none = some v)
    : d.cu.lateReadRow fresh d.cu.hasNullValue row
        =
      if d.valueBefore row then cstring.scalar (fresh row) [0] else d.cell fresh row := by
  have hrow := (d.mem_rows hv).1
  have hget : d.cu.getValue d.cu.hasNullValue row = d.cu.srcData.drop (d.cstringPos row) := by
    unfold getValue
    rw [offset_eq_cstringPos hattlen, getD_eq_getElem _ _ (by simp; omega)]
    simp [hattlen, fixedSize?, toInt]
  unfold lateReadRow
  rw [d.isNull_eq row hrow, hv, hget]
  simp only [Option.isNone_some, Bool.false_eq_true, ↓reduceIte]
  cases hbefore : d.valueBefore row with
  | true =>
    obtain ⟨rest, hrest⟩ := srcData_drop_cstringPos hattlen hbefore
    rw [hrest, hattlen]
    rfl
  | false =>
    have hpos : d.cstringPos row = d.valuePos row := by
      rw [d.valuePos_of_not_valueBefore hbefore]
      simp [cstringPos, hbefore]
    rw [hpos, d.scalar_drop_valuePos fresh hv]
    rfl

end

theorem scalar_cstring_ne (hstored : cstring.Stored v) {fresh fresh' : UInt8} (hfresh : fresh ≠ fresh')
    : cstring.scalar fresh v ≠ cstring.scalar fresh' [0] := by
  intro heq
  obtain ⟨str, hstr, rfl⟩ := hstored
  simp only [scalar, ScalarValue.pointer.injEq] at heq
  cases str with
  | nil =>
    apply hfresh
    simpa [addCStringVar, strlen] using heq
  | cons byte str =>
    have hlen := congrArg List.length heq
    unfold addCStringVar at hlen
    rw [strlen_append hstr] at hlen
    simp [strlen, setVarsizeShort, varhdrszShort, varattShortMax] at hlen
    split at hlen
    . rw [length_singleton] at hlen
      omega
    . omega

-- Only a string that is not empty is written whole.
theorem scalar_cstring_congr (hstored : cstring.Stored v) (hne : v ≠ [0]) (fresh fresh' : UInt8)
    : cstring.scalar fresh v = cstring.scalar fresh' v := by
  obtain ⟨str, hstr, rfl⟩ := hstored
  have hstrlen : 0 < strlen (str ++ [0]) := by
    rw [strlen_append hstr]
    apply length_pos_of_ne_nil
    intro hnil
    rw [hnil] at hne
    exact hne rfl
  simp only [scalar, addCStringVar, if_pos hstrlen]

end CString

section Agree

variable (hasDeadRow : Bool) (cuDelMask : Bytes)

def liveRank (row : Nat) : Nat := (liveRows hasDeadRow cuDelMask 0 row).length

theorem liveRows_getElem?_liveRank {row : Nat} (hrow : row < rowCursor)
    (hlive : isDead hasDeadRow cuDelMask row = false)
    : (liveRows hasDeadRow cuDelMask 0 rowCursor)[liveRank hasDeadRow cuDelMask row]? = some row := by
  have hsplit : rowCursor = row + (1 + (rowCursor - row - 1)) := by
    omega
  have hone : liveRows hasDeadRow cuDelMask row 1 = [row] := by
    simp [liveRows, hlive]
  rw [hsplit, liveRows_add, Nat.zero_add, liveRows_add, hone]
  unfold liveRank
  rw [getElem?_append_right (Nat.le_refl _)]
  simp

variable {d}

theorem returned_getElem?_liveRank
    (hscan : CUScan.Reachable d.cu d.rows.length hasDeadRow cuDelMask scan)
    : ∃ fresh : Nat → UInt8, ∀ row, row < scan.rowCursorInCU → isDead hasDeadRow cuDelMask row = false →
        scan.returned[liveRank hasDeadRow cuDelMask row]? = some (d.cell fresh row) := by
  obtain ⟨fresh, hreturned⟩ := (invariant_of_reachable hasDeadRow cuDelMask hscan).returned_eq
  exists fresh
  intro row hrow hlive
  rw [hreturned, getElem?_map, liveRows_getElem?_liveRank hasDeadRow cuDelMask hrow hlive]
  rfl

theorem toVectorLateRead_cstring (hattlen : d.cu.eachValSize = .cstring) (tids : List Nat)
    : d.cu.toVectorLateRead fresh tids = tids.map (d.cu.lateReadRow fresh d.cu.hasNullValue) := by
  unfold toVectorLateRead
  rw [hattlen]

/--
Every scan returns one value for each live row that it has passed, and the same one that `GetValue`
and a late read of any rows give for that row, whatever the buffers of the vectors held before.
-/
def ScanAgreesLateRead (d : DecompressedCU) : Prop :=
  ∀ scan, CUScan.Reachable d.cu d.rows.length hasDeadRow cuDelMask scan →
    scan.returned.length = liveRank hasDeadRow cuDelMask scan.rowCursorInCU ∧
    ∀ fresh : Nat → UInt8,
      (∀ row, row < scan.rowCursorInCU → isDead hasDeadRow cuDelMask row = false →
        scan.returned[liveRank hasDeadRow cuDelMask row]?
          =
        some (d.cu.lateReadRow fresh d.cu.hasNullValue row)) ∧
      ∀ tids : List Nat,
        (∀ row ∈ tids, row < scan.rowCursorInCU ∧ isDead hasDeadRow cuDelMask row = false) →
          (d.cu.toVectorLateRead fresh tids).map some
            =
          tids.map fun row => scan.returned[liveRank hasDeadRow cuDelMask row]?

-- Of a column of C strings only the first string can be read well, and it must not be empty.
def Readable (d : DecompressedCU) : Prop :=
  d.cu.eachValSize = .cstring → ∀ row v, d.rows.getD row none = some v →
    isDead hasDeadRow cuDelMask row = false → d.valueBefore row = false ∧ v ≠ [0]

theorem lateReadRow_eq_of_readable (hreadable : Readable hasDeadRow cuDelMask d)
    {row : Nat} (hrow : row < d.rows.length) (hlive : isDead hasDeadRow cuDelMask row = false)
    : d.cu.lateReadRow fresh d.cu.hasNullValue row = d.cell fresh row := by
  by_cases hattlen : d.cu.eachValSize = .cstring
  . cases hv : d.rows.getD row none with
    | none =>
      unfold lateReadRow
      rw [d.isNull_eq row hrow, hv]
      simp only [Option.isNone_none, ↓reduceIte, cell, hv]
    | some v =>
      have hbefore := (hreadable hattlen row v hv hlive).1
      rw [lateReadRow_cstring fresh hattlen hv, hbefore]
      rfl
  . apply lateReadRow_eq fresh hattlen hrow

theorem cell_eq_of_readable (hreadable : Readable hasDeadRow cuDelMask d) (fresh' : Nat → UInt8) {row : Nat}
    (hlive : isDead hasDeadRow cuDelMask row = false)
    : d.cell fresh row = d.cell fresh' row := by
  unfold cell
  cases hv : d.rows.getD row none with
  | none => rfl
  | some v =>
    have hstored := d.stored_of_getD hv
    have hne := fun hattlen => (hreadable hattlen row v hv hlive).2
    dsimp only
    generalize d.cu.eachValSize = attlen at hstored hne
    cases attlen with
    | cstring => exact scalar_cstring_congr hstored (hne rfl) ..
    | _ => rfl

theorem scanAgreesLateRead_iff (d : DecompressedCU)
    : ScanAgreesLateRead hasDeadRow cuDelMask d ↔ Readable hasDeadRow cuDelMask d := by
  constructor
  . intro hagree hattlen row v hv hlive
    have hrow := (d.mem_rows hv).1
    have hstored := d.stored_of_getD hv
    rw [hattlen] at hstored
    obtain ⟨scan, hscan, hcursor⟩ := exists_reachable hasDeadRow cuDelMask hrow
    obtain ⟨fresh, hreturned⟩ := returned_getElem?_liveRank hasDeadRow cuDelMask hscan
    -- What the late read finds in its buffer need not be what the scan found.
    have hread := ((hagree scan hscan).2 fun row => fresh row + 1).1 row (by omega) hlive
    have hne : fresh row ≠ fresh row + 1 := by
      intro heq
      simp at heq
    rw [hreturned row (by omega) hlive, lateReadRow_cstring _ hattlen hv, Option.some.injEq] at hread
    have hcell : ∀ fresh : Nat → UInt8, d.cell fresh row = cstring.scalar (fresh row) v := by
      intro fresh
      simp only [cell, hv, hattlen]
    rw [hcell, hcell] at hread
    have hbefore : d.valueBefore row = false := by
      rw [← Bool.not_eq_true]
      intro hbefore
      rw [if_pos hbefore] at hread
      exact scalar_cstring_ne hstored hne hread
    apply And.intro hbefore
    intro hempty
    rw [hbefore, if_neg Bool.false_ne_true, hempty] at hread
    rw [hempty] at hstored
    exact scalar_cstring_ne hstored hne hread
  . intro hreadable scan hscan
    have hinv := invariant_of_reachable hasDeadRow cuDelMask hscan
    have hle := hinv.rowCursor_le
    obtain ⟨fresh, hreturned⟩ := returned_getElem?_liveRank hasDeadRow cuDelMask hscan
    apply And.intro
    . obtain ⟨fresh', hreturned'⟩ := hinv.returned_eq
      rw [hreturned', List.length_map]
      rfl
    . intro fresh'
      have hrow : ∀ row, row < scan.rowCursorInCU → isDead hasDeadRow cuDelMask row = false →
          scan.returned[liveRank hasDeadRow cuDelMask row]? = some (d.cell fresh' row) := by
        intro row hrow hlive
        rw [hreturned row hrow hlive, cell_eq_of_readable fresh hasDeadRow cuDelMask hreadable fresh' hlive]
      apply And.intro
      . intro row hlt hlive
        rw [hrow row hlt hlive]
        rw [lateReadRow_eq_of_readable fresh' hasDeadRow cuDelMask hreadable (by omega) hlive]
      . intro tids htids
        have hlate : d.cu.toVectorLateRead fresh' tids = tids.map (d.cell fresh') := by
          by_cases hattlen : d.cu.eachValSize = .cstring
          . rw [toVectorLateRead_cstring fresh' hattlen]
            apply List.map_congr_left
            intro row hrow
            obtain ⟨hlt, hlive⟩ := htids row hrow
            apply lateReadRow_eq_of_readable fresh' hasDeadRow cuDelMask hreadable (by omega) hlive
          . apply toVectorLateRead_eq fresh' hattlen
            intro row hrow
            have := htids row hrow
            omega
        rw [hlate, List.map_map]
        apply List.map_congr_left
        intro row hmem
        obtain ⟨hlt, hlive⟩ := htids row hmem
        rw [hrow row hlt hlive]
        rfl

def twoStrings : DecompressedCU where
  cu :=
    { eachValSize := .cstring
      srcData := [97, 0, 98, 0]
      srcBufSize := 4
      hasNullValue := false
      nulls := []
      numericIntLike := false
      offset := [0, 1, 1] }
  rows := [some [97, 0], some [98, 0]]
  stored := by
    intro v hv
    simp only [List.mem_cons, Option.some.injEq, List.not_mem_nil, or_false] at hv
    rcases hv with rfl | rfl
    . exact ⟨[97], by decide, rfl⟩
    . exact ⟨[98], by decide, rfl⟩
  srcData_eq := ⟨[], rfl⟩
  isNull_eq := by decide
  srcData_le := by decide
  numericIntLike_eq := by simp
  offset_eq := by decide

theorem not_scanAgreesLateRead_twoStrings : ¬ ScanAgreesLateRead false [] twoStrings := by
  intro hagree
  have hscan : CUScan.Reachable twoStrings.cu twoStrings.rows.length false []
      (CUScan.start.fillVector twoStrings.cu (fun _ => 0) false [] 2) := by
    apply CUScan.Reachable.step .start
    decide
  have hread := ((hagree _ hscan).2 fun _ => 0).2 [0, 1] (by decide)
  revert hread
  decide

end Agree

end DecompressedCU

import OpenGauss.Cstore.NumberString.Lemmas

/-!
This module contains the verification that a CU of number strings is read back.
-/

open List

namespace NumberString

open LittleEndian

variable {buf : Bytes}

section Write

theorem writeAt_append {done old tail data : Bytes} (hlen : data.length = old.length) {pos : Nat}
    (hpos : pos = done.length)
    : writeAt (done ++ (old ++ tail)) pos data = .ok (done ++ (data ++ tail)) := by
  subst hpos
  unfold writeAt
  rw [if_pos (by simp only [length_append]; omega)]
  rw [take_left, hlen, ← drop_drop, drop_left, drop_left, append_assoc]

theorem length_writeAt {data buf' : Bytes} {pos : Nat} (h : writeAt buf pos data = .ok buf')
    : buf'.length = buf.length := by
  unfold writeAt at h
  split at h
  . next hle =>
    simp only [Except.ok.injEq] at h
    subst h
    simp only [length_append, length_take, length_drop]
    omega
  . simp at h

theorem length_setVarsizeBefore {buf' : Bytes} {pos len : Nat} (h : setVarsizeBefore buf pos len = .ok buf')
    : buf'.length = buf.length := by
  unfold setVarsizeBefore at h
  split at h
  . exact length_writeAt h
  . simp at h

theorem length_deFormStep {bpcharType : Bool} {typeMode : Int} {pos integer : Nat}
    {res : Bytes × Nat} (h : deFormStep bpcharType typeMode buf pos integer = .ok res)
    : res.1.length = buf.length := by
  unfold deFormStep at h
  simp only [bind, Except.bind] at h
  split at h
  . simp at h
  . next buf1 hwrite =>
    have hlen := length_writeAt hwrite
    split at h
    . split at h
      . simp at h
      . next hset =>
        simp only [Except.ok.injEq] at h
        subst h
        rw [← hlen]
        exact length_setVarsizeBefore hset
    . split at h
      . simp at h
      . next hset =>
        simp only [Except.ok.injEq] at h
        subst h
        rw [← hlen]
        exact length_setVarsizeBefore hset

theorem length_deFormLoop {bpcharType : Bool} {typeMode : Int} {srcData : Bytes} {tmpSrcData dataCount : Nat}
    {pos : Nat} {res : Bytes × Nat}
    (h : deFormLoop bpcharType typeMode srcData tmpSrcData dataCount buf pos = .ok res)
    : res.1.length = buf.length := by
  induction dataCount generalizing tmpSrcData buf pos with
  | zero =>
    simp only [deFormLoop, Except.ok.injEq] at h
    subst h
    rfl
  | succ dataCount ih =>
    simp only [deFormLoop, bind, Except.bind] at h
    split at h
    . simp at h
    . next hstep =>
      rw [ih h]
      exact length_deFormStep hstep

end Write

section Read

theorem uint64At_pack {vals : List Nat} (hlt : ∀ v ∈ vals, v < 256 ^ 8) {i val : Nat}
    (hget : vals[i]? = some val)
    : uint64At (pack 8 vals) (8 * i) = val := by
  unfold uint64At
  induction vals generalizing i with
  | nil => simp at hget
  | cons v vals ih =>
    rw [forall_mem_cons] at hlt
    cases i with
    | zero =>
      simp only [getElem?_cons_zero, Option.some.injEq] at hget
      subst hget
      rw [Nat.mul_zero, drop_zero, take_pack_cons]
      exact decode_encode_of_lt hlt.1
    | succ i =>
      rw [List.getElem?_cons_succ] at hget
      rw [Nat.mul_succ, Nat.add_comm, ← drop_drop, drop_pack_cons]
      exact ih hlt.2 hget

end Read

section Restore

variable {bpcharType : Bool} {typeMode : Int}

def varlenaOf (v : Bytes) : Bytes := ScalarVector.setVarsize (v.length + varhdrsz) ++ v

@[simp]
theorem length_varlenaOf (v : Bytes) : (varlenaOf v).length = varhdrsz + v.length := by
  simp [varlenaOf, ScalarVector.setVarsize, varhdrsz]

structure Unwritten (bpcharType : Bool) (rest : Bytes) : Prop where
  pos : 0 < rest.length
  blank : bpcharType = true → ∃ blanks, rest = List.replicate blanks 32 ++ [0]

theorem Unwritten.drop {rest : Bytes} (h : Unwritten bpcharType rest) {n : Nat} (hlt : n < rest.length)
    : Unwritten bpcharType (rest.drop n) := by
  constructor
  . rw [length_drop]
    omega
  . intro hbp
    obtain ⟨blanks, rfl⟩ := h.blank hbp
    simp only [length_append, length_replicate, length_singleton] at hlt
    refine ⟨blanks - n, ?_⟩
    rw [drop_append_of_le_length (by simp; omega), drop_replicate]

theorem Unwritten.split {rest v chars : Bytes} (h : Unwritten bpcharType rest)
    (hchars : NumberChars bpcharType v chars) (hlt : varhdrsz + v.length < rest.length)
    : ∃ header digits blanks, rest = header ++ (digits ++ (blanks ++ rest.drop (varhdrsz + v.length))) ∧
        header.length = varhdrsz ∧ digits.length = chars.length ∧ v = chars ++ blanks := by
  obtain ⟨blanks, hv⟩ := hchars.value
  have hlen : v.length = chars.length + blanks := by
    rw [hv]
    simp
  refine ⟨rest.take varhdrsz, (rest.drop varhdrsz).take chars.length, List.replicate blanks 32, ?_, ?_, ?_,
    hv⟩
  . have hblanks : List.replicate blanks 32 = (rest.drop (varhdrsz + chars.length)).take blanks := by
      cases bpcharType with
      | false =>
        have hexact := hchars.exact rfl
        rw [hexact] at hlen
        obtain rfl : blanks = 0 := by omega
        simp
      | true =>
        obtain ⟨left, rfl⟩ := h.blank rfl
        simp only [length_append, length_replicate, length_singleton] at hlt
        rw [drop_append_of_le_length (by simp; omega), drop_replicate]
        rw [take_append_of_le_length (by simp; omega), take_replicate]
        congr 1
        omega
    rw [hblanks, hlen, ← Nat.add_assoc]
    simp
  . rw [length_take]
    omega
  . rw [length_take, length_drop]
    omega

def Width (bpcharType : Bool) (typeMode : Int) (v : Bytes) : Prop :=
  bpcharType = true → typeMode = v.length + varhdrsz

theorem deFormStep_spec {done rest v chars : Bytes} (h : Unwritten bpcharType rest)
    (hchars : NumberChars bpcharType v chars) (hwidth : Width bpcharType typeMode v)
    (hlt : varhdrsz + v.length < rest.length) (hsize : done.length + varhdrsz + v.length < 2 ^ 32)
    : deFormStep bpcharType typeMode (done ++ rest) done.length (Decimal.val chars)
        =
      .ok (done ++ varlenaOf v ++ rest.drop (varhdrsz + v.length), (done ++ varlenaOf v).length) := by
  obtain ⟨header, digits, blanks, hrest, hheader, hdigits, hv⟩ := h.split hchars hlt
  have hlen : v.length = chars.length + blanks.length := by
    rw [hv, length_append]
  generalize rest.drop (varhdrsz + v.length) = tail at hrest ⊢
  have hmod : (done.length + varhdrsz) % 2 ^ 32 = done.length + varhdrsz := Nat.mod_eq_of_lt (by omega)
  have hwrite : writeAt (done ++ rest) (done.length + varhdrsz) chars
      = .ok (done ++ (header ++ (chars ++ (blanks ++ tail)))) := by
    rw [hrest, ← append_assoc done, ← append_assoc done]
    apply writeAt_append
    . exact hdigits.symm
    . rw [length_append, hheader]
  have hset : setVarsizeBefore (done ++ (header ++ (chars ++ (blanks ++ tail)))) (done.length + varhdrsz)
        (v.length + varhdrsz)
      = .ok (done ++ (varlenaOf v ++ tail)) := by
    unfold setVarsizeBefore
    rw [if_pos (by omega), Nat.add_sub_cancel]
    rw [writeAt_append (by simp [ScalarVector.setVarsize, hheader, varhdrsz]) rfl]
    simp [varlenaOf, hv]
  unfold deFormStep
  simp only [hmod, hchars.canonical, hwrite, bind, Except.bind]
  cases bpcharType with
  | false =>
    have hexact := hchars.exact rfl
    rw [← hexact]
    simp only [Bool.false_eq_true, ↓reduceIte]
    rw [hexact] at hset
    rw [hexact, hset]
    simp only [Except.ok.injEq, Prod.mk.injEq, append_assoc, true_and, length_append, length_varlenaOf]
    rw [Nat.mod_eq_of_lt (by rw [← hexact]; omega)]
    omega
  | true =>
    have hmode := hwidth rfl
    have hmode' : typeMode.toNat = v.length + varhdrsz := by omega
    have hlen' : (typeMode - varhdrsz).toNat = v.length := by omega
    simp only [↓reduceIte, hmode', hset, hlen', Except.ok.injEq, Prod.mk.injEq, append_assoc, true_and,
      length_append, length_varlenaOf]
    rw [Nat.mod_eq_of_lt (by omega)]
    omega

theorem deFormLoop_spec {srcData : Bytes} {values dataBuf : List Bytes}
    (hchars : List.Forall₂ (NumberChars bpcharType) values dataBuf)
    (hwidth : ∀ v ∈ values, Width bpcharType typeMode v) {tmpSrcData : Nat}
    (hdata : ∀ i chars, dataBuf[i]? = some chars → uint64At srcData (tmpSrcData + 8 * i) = Decimal.val chars)
    {done rest : Bytes} (h : Unwritten bpcharType rest)
    (hlt : (values.flatMap varlenaOf).length < rest.length)
    (hsize : done.length + (values.flatMap varlenaOf).length < 2 ^ 32)
    : deFormLoop bpcharType typeMode srcData tmpSrcData dataBuf.length (done ++ rest) done.length
        =
      .ok (done ++ values.flatMap varlenaOf ++ rest.drop (values.flatMap varlenaOf).length,
        (done ++ values.flatMap varlenaOf).length) := by
  induction hchars generalizing tmpSrcData done rest with
  | nil => simp [deFormLoop]
  | @cons v chars values dataBuf hhead _ ih =>
    rw [forall_mem_cons] at hwidth
    rw [flatMap_cons, length_append, length_varlenaOf] at hlt hsize
    have hval := hdata 0 chars (by simp)
    rw [Nat.mul_zero, Nat.add_zero] at hval
    rw [length_cons, deFormLoop, hval]
    rw [deFormStep_spec h hhead hwidth.1 (by omega) (by omega)]
    simp only [bind, Except.bind]
    rw [ih hwidth.2]
    . simp [length_varlenaOf]
    . intro i chars hget
      have := hdata (i + 1) chars (by simpa using hget)
      rw [← this]
      congr 1
      omega
    . exact h.drop (by omega)
    . rw [length_drop]
      omega
    . rw [length_append, length_varlenaOf]
      omega

end Restore

section RoundTrip

variable {bpcharType : Bool} {typeMode : Int} {batch : Batch} {dataBuf : List Bytes} {cu : SourceCU}

def Batch.restoredSize (batch : Batch) : Nat :=
  (if batch.hasNull then bitmapSize batch.rows.length else 0)
    + (batch.totalLen + batch.values.length * varhdrsz)

theorem length_flatMap_varlenaOf (values : List Bytes)
    : (values.flatMap varlenaOf).length = (values.map List.length).sum + values.length * varhdrsz := by
  induction values with
  | nil => rfl
  | cons v values ih =>
    rw [flatMap_cons, length_append, ih, length_varlenaOf]
    rw [map_cons, sum_cons, length_cons, Nat.succ_mul]
    omega

section

variable (h : Formed bpcharType batch dataBuf cu)
include h

theorem Formed.length_nulls
    : cu.nulls.length = if batch.hasNull then bitmapSize batch.rows.length else 0 := by
  rw [h.nulls, length_nullsAfter, initMem]
  split
  . rw [length_replicate]
  . rfl

theorem Formed.restoredSize_eq
    : batch.restoredSize = cu.nulls.length + (batch.values.flatMap varlenaOf).length := by
  rw [Batch.restoredSize, h.length_nulls, length_flatMap_varlenaOf]
  rfl

theorem Formed.length_nulls_le : cu.nulls.length ≤ 7500 := by
  have hle := batch.rows_le
  have hmax : relMaxFullCuSize = 60000 := rfl
  rw [h.length_nulls, bitmapSize]
  split
  . omega
  . omega

end

theorem sum_length_le {values : List Bytes} (h : List.Forall₂ (NumberChars false) values dataBuf)
    : (values.map List.length).sum ≤ values.length * maxLenCharToBigint := by
  induction h with
  | nil => simp
  | cons hchars _ ih =>
    have hlen := hchars.length_le
    rw [← hchars.exact rfl] at hlen
    rw [map_cons, sum_cons, length_cons, Nat.succ_mul]
    omega

theorem Formed.restoredSize_le (h : Formed false batch dataBuf cu)
    : batch.restoredSize ≤ securecMemMaxLen := by
  have hsum := sum_length_le h.chars
  have hlen := h.length_le
  rw [← h.chars.length_eq] at hlen
  have hnulls := h.length_nulls_le
  have hmax : relMaxFullCuSize = 60000 := rfl
  have hlimit : securecMemMaxLen = 0x7fffffff := rfl
  rw [h.restoredSize_eq, length_flatMap_varlenaOf]
  unfold maxLenCharToBigint at hsum
  unfold varhdrsz
  omega

section

variable (h : Formed bpcharType batch dataBuf cu)
include h

theorem Formed.dataCount_eq : uint64At cu.srcData 0 % 2 ^ 32 = dataBuf.length := by
  have hlen := h.length_le
  have hmax : relMaxFullCuSize = 60000 := rfl
  rw [h.srcData, ← Nat.mul_zero 8, uint64At_pack h.numbers_lt (getElem?_cons_zero ..)]
  exact Nat.mod_eq_of_lt (by omega)

theorem Formed.origTotalSize_eq
    : uint64At cu.srcData (8 * ((dataBuf.length + 1) % 2 ^ 32)) % 2 ^ 32 = batch.totalLen % 2 ^ 32 := by
  have hlen := h.length_le
  have hmax : relMaxFullCuSize = 60000 := rfl
  have hget : (dataBuf.length :: dataBuf.map Decimal.val ++ [batch.totalLen % 2 ^ 32])[dataBuf.length + 1]?
      = some (batch.totalLen % 2 ^ 32) := by
    rw [List.cons_append, List.getElem?_cons_succ, getElem?_append_right (by simp)]
    simp
  rw [Nat.mod_eq_of_lt (show dataBuf.length + 1 < 2 ^ 32 by omega), h.srcData,
    uint64At_pack h.numbers_lt hget, Nat.mod_mod]

theorem Formed.tmpSrcBufSize_eq
    : (batch.totalLen % 2 ^ 32 + dataBuf.length * varhdrsz + cu.nulls.length) % 2 ^ 32
        =
      batch.restoredSize % 2 ^ 32 := by
  rw [h.restoredSize_eq, length_flatMap_varlenaOf, h.chars.length_eq, Batch.totalLen]
  omega

theorem Formed.uint64At_data {i : Nat} {chars : Bytes} (hget : dataBuf[i]? = some chars)
    : uint64At cu.srcData (8 + 8 * i) = Decimal.val chars := by
  rw [h.srcData, show 8 + 8 * i = 8 * (i + 1) by omega]
  apply uint64At_pack h.numbers_lt
  obtain ⟨hlt, _⟩ := List.getElem?_eq_some_iff.mp hget
  rw [List.cons_append, List.getElem?_cons_succ, List.getElem?_append_left (by simpa using hlt)]
  rw [getElem?_map, hget]
  rfl

end

theorem deForm_init {nulls : Bytes} {size : Nat} (hle : nulls.length ≤ size) (hmax : size ≤ securecMemMaxLen)
    (fresh : Nat → UInt8)
    : ∃ buf1 buf2 rest, fillBlanks bpcharType ((List.range ((size + 1) % 2 ^ 32)).map fresh) size = .ok buf1 ∧
        writeAt buf1 size [0] = .ok buf2 ∧ copyNulls buf2 size nulls = .ok (nulls ++ rest) ∧
        Unwritten bpcharType rest ∧ rest.length = size + 1 - nulls.length := by
  have hlimit : securecMemMaxLen = 0x7fffffff := rfl
  rw [Nat.mod_eq_of_lt (by omega)]
  obtain ⟨front, hfront, hlen, hblank⟩ : ∃ front : Bytes,
      fillBlanks bpcharType ((List.range (size + 1)).map fresh) size = .ok (front ++ [fresh size]) ∧
        front.length = size ∧ (bpcharType = true → front = List.replicate size 32) := by
    unfold fillBlanks
    rw [range_succ, map_append, map_singleton]
    cases bpcharType with
    | false =>
      refine ⟨(List.range size).map fresh, rfl, by simp, ?_⟩
      intro hbp
      simp at hbp
    | true =>
      refine ⟨List.replicate size 32, ?_, by simp, fun _ => rfl⟩
      rw [if_pos rfl, if_neg (by omega)]
      exact @writeAt_append [] ((List.range size).map fresh) [fresh size] _ (by simp) 0 rfl
  have hzero : writeAt (front ++ [fresh size]) size [0] = .ok (front ++ [0]) := by
    have := @writeAt_append front [fresh size] [] [0] rfl size hlen.symm
    rw [append_nil, append_nil] at this
    exact this
  refine ⟨_, _, (front ++ [0]).drop nulls.length, hfront, hzero, ?_, ?_, ?_⟩
  . have hwrite := @writeAt_append [] ((front ++ [0]).take nulls.length) ((front ++ [0]).drop nulls.length)
      nulls (by rw [length_take, length_append, length_singleton]; omega) 0 rfl
    rw [take_append_drop] at hwrite
    unfold copyNulls
    split
    . rw [if_neg (by omega)]
      exact hwrite
    . next hnil =>
      obtain rfl : nulls = [] := by
        cases nulls with
        | nil => rfl
        | cons _ _ => simp at hnil
      rfl
  . apply Unwritten.drop
    . constructor
      . simp
      . intro hbp
        exact ⟨size, by rw [hblank hbp]⟩
    . simp
      omega
  . simp [hlen]

theorem Formed.deForm_eq (h : Formed bpcharType batch dataBuf cu)
    (hwidth : ∀ v ∈ batch.values, Width bpcharType typeMode v)
    (hsize : batch.restoredSize ≤ securecMemMaxLen) (fresh : Nat → UInt8)
    : ∃ out, deFormNumberStringCU bpcharType typeMode fresh cu.nulls cu.srcData = .ok out ∧
        out.srcData = batch.values.flatMap varlenaOf ∧ out.nulls = cu.nulls := by
  have hlimit : securecMemMaxLen = 0x7fffffff := rfl
  have hsizeEq := h.restoredSize_eq
  unfold deFormNumberStringCU
  dsimp only
  rw [h.dataCount_eq, h.origTotalSize_eq, h.tmpSrcBufSize_eq]
  rw [Nat.mod_eq_of_lt (show batch.restoredSize < 2 ^ 32 by omega)]
  obtain ⟨buf1, buf2, rest, hblank, hzero, hnulls, hrest, hlen⟩ :=
    @deForm_init bpcharType cu.nulls batch.restoredSize (by omega) hsize fresh
  have hloop := @deFormLoop_spec _ _ cu.srcData _ _ h.chars hwidth 8
    (fun i chars hget => h.uint64At_data hget)
    cu.nulls _ hrest (by omega) (by omega)
  simp only [bind, Except.bind, hblank, hzero, hnulls, hloop]
  refine ⟨_, rfl, ?_, ?_⟩
  . unfold DeFormedCU.srcData
    dsimp only
    rw [append_assoc, drop_left, length_append]
    rw [show cu.nulls.length + (batch.values.flatMap varlenaOf).length + 2 ^ 32 - cu.nulls.length
      = (batch.values.flatMap varlenaOf).length + 2 ^ 32 by omega]
    rw [Nat.add_mod_right, Nat.mod_eq_of_lt (by omega), take_left]
  . unfold DeFormedCU.nulls
    dsimp only
    rw [append_assoc, take_left]

theorem length_fillBlanks {buf' : Bytes} {size : Nat} (h : fillBlanks bpcharType buf size = .ok buf')
    : buf'.length = buf.length ∧ (bpcharType = true → size ≤ securecMemMaxLen) := by
  unfold fillBlanks at h
  split at h
  . split at h
    . simp at h
    . next hle =>
      refine ⟨length_writeAt h, ?_⟩
      intro _
      omega
  . next hbp =>
    simp only [Except.ok.injEq] at h
    subst h
    refine ⟨rfl, ?_⟩
    intro hbp'
    exact absurd hbp' hbp

theorem length_copyNulls {buf' nulls : Bytes} {size : Nat} (h : copyNulls buf size nulls = .ok buf')
    : buf'.length = buf.length := by
  unfold copyNulls at h
  split at h
  . split at h
    . simp at h
    . exact length_writeAt h
  . simp only [Except.ok.injEq] at h
    subst h
    rfl

theorem Formed.restoredSize_le_of_ok (h : Formed true batch dataBuf cu) {fresh : Nat → UInt8}
    {out : DeFormedCU}
    (hok : deFormNumberStringCU true typeMode fresh cu.nulls cu.srcData = .ok out)
    (hdata : out.srcData = batch.values.flatMap varlenaOf)
    : batch.restoredSize ≤ securecMemMaxLen := by
  have hlimit : securecMemMaxLen = 0x7fffffff := rfl
  have hsizeEq := h.restoredSize_eq
  have hbitmap := h.length_nulls_le
  unfold deFormNumberStringCU at hok
  dsimp only at hok
  rw [h.dataCount_eq, h.origTotalSize_eq, h.tmpSrcBufSize_eq] at hok
  simp only [bind, Except.bind] at hok
  split at hok
  . simp at hok
  . next buf1 hblank =>
    obtain ⟨hlen1, hmax⟩ := length_fillBlanks hblank
    have hsize := hmax rfl
    split at hok
    . simp at hok
    . next buf2 hzero =>
      split at hok
      . simp at hok
      . next buf3 hnulls =>
        split at hok
        . simp at hok
        . next hloop =>
          have hlen := length_deFormLoop hloop
          rw [length_copyNulls hnulls, length_writeAt hzero, hlen1] at hlen
          simp only [Except.ok.injEq] at hok
          subst hok
          unfold DeFormedCU.srcData at hdata
          dsimp only at hdata
          have hle := congrArg List.length hdata
          rw [length_take, length_drop, hlen, length_map, length_range] at hle
          omega

end RoundTrip

section Restored

variable {lz4 : Lz4} {zlib : Zlib} {column : Column} {batch : Batch} {cu : SourceCU}

-- Every row is NULL as before, and the values of the others follow each other.
structure Restored (batch : Batch) (out : DeFormedCU) : Prop where
  srcData : out.srcData = batch.values.flatMap varlenaOf
  nulls : ∀ row, row < batch.rows.length →
    bitIsSet out.nulls row = decide (batch.rows[row]? = some none)

def ColumnWidth (column : Column) (batch : Batch) : Prop :=
  column.bpchar = true → ∀ v, some v ∈ batch.rows → column.typeMode = v.length + varhdrsz

section

variable (h : tryFormNumberStringCU column batch = some cu)
include h

theorem tryFormNumberStringCU_spec
    : (column.bpchar && decide (column.typeMode > varhdrsz)) = column.bpchar ∧
      ∃ dataBuf, Formed column.bpchar batch dataBuf cu := by
  unfold tryFormNumberStringCU at h
  split at h
  . next hbp =>
    split at h
    . simp at h
    . next hmode =>
      rw [hbp]
      refine ⟨?_, formNumberStringCU_spec h⟩
      cases column.typeMode_valid hbp with
      | inl heq => exact absurd heq hmode
      | inr hvalid => simpa using hvalid.1
  . next hbp =>
    rw [Bool.not_eq_true] at hbp
    rw [hbp]
    exact ⟨rfl, formNumberStringCU_spec h⟩

theorem length_srcData_lt : cu.srcData.length < 2 ^ 31 := by
  obtain ⟨_, dataBuf, hformed⟩ := tryFormNumberStringCU_spec h
  exact hformed.length_srcData

end

theorem Formed.bitIsSet_nulls {bpcharType : Bool} {dataBuf : List Bytes}
    (h : Formed bpcharType batch dataBuf cu) (row : Nat)
    : bitIsSet cu.nulls row = decide (batch.rows[row]? = some none) := by
  rw [h.nulls, bitIsSet_nullsAfter]
  . have hinit : bitIsSet (initMem batch).nulls row = false := by
      unfold initMem
      split
      . rw [bitIsSet_iff, getD_eq_getElem?_getD, getElem?_replicate]
        split
        . simp
        . simp
      . simp [bitIsSet]
    simp [hinit]
  . intro hmem
    have hnull : batch.hasNull = true := by
      unfold Batch.hasNull
      rw [any_eq_true]
      exact ⟨none, hmem, rfl⟩
    rw [initMem, if_pos hnull, length_replicate, bitmapSize]
    omega

theorem exists_restored_iff (hlz4 : lz4.Lossless) (hzlib : zlib.Lossless)
    (hwidth : ColumnWidth column batch) (modes : CompressModes) (fresh : Nat → UInt8)
    (haccept : tryFormNumberStringCU column batch = some cu)
    : (∃ out, unCompressData lz4 zlib column fresh
          (compressData lz4 zlib modes cu (length_srcData_lt haccept)) = .ok out ∧ Restored batch out)
        ↔
      batch.restoredSize ≤ securecMemMaxLen := by
  obtain ⟨hbp, dataBuf, hformed⟩ := tryFormNumberStringCU_spec haccept
  rw [hformed.unCompressData_eq hlz4 hzlib, hbp]
  constructor
  . rintro ⟨out, hok, hrestored⟩
    cases hbpchar : column.bpchar with
    | false =>
      rw [hbpchar] at hformed
      exact hformed.restoredSize_le
    | true =>
      rw [hbpchar] at hformed hok
      exact hformed.restoredSize_le_of_ok hok hrestored.srcData
  . intro hsize
    obtain ⟨out, hok, hdata, hnulls⟩ := @Formed.deForm_eq _ column.typeMode _ _ _ hformed (by
      intro v hv hbpchar
      exact hwidth hbpchar v (reduceOption_mem_iff.mp hv)) hsize fresh
    refine ⟨out, hok, hdata, ?_⟩
    intro row _
    rw [hnulls]
    exact hformed.bitIsSet_nulls row

theorem unCompressData_restored (hlz4 : lz4.Lossless) (hzlib : zlib.Lossless)
    (hwidth : ColumnWidth column batch) (modes : CompressModes) (fresh : Nat → UInt8)
    (haccept : tryFormNumberStringCU column batch = some cu)
    : (∃ out, unCompressData lz4 zlib column fresh
          (compressData lz4 zlib modes cu (length_srcData_lt haccept)) = .ok out ∧ Restored batch out)
        ↔
      batch.restoredSize ≤ securecMemMaxLen := by
  exact exists_restored_iff hlz4 hzlib hwidth modes fresh haccept

def smallBatch : Batch where
  rows := [some [49, 50], none, some [55]]
  rows_le := by decide
  varlena_lt := by
    intro v hv
    simp only [List.mem_cons, Option.some.injEq, reduceCtorEq, List.not_mem_nil, or_false, false_or] at hv
    rcases hv with rfl | rfl
    . decide
    . decide

def varcharColumn : Column where
  bpchar := false
  typeMode := -1
  typeMode_valid := by decide

def smallCU : SourceCU where
  infoMode := 0x480
  nulls := [2]
  srcData := pack 8 [2, 12, 7, 3]

theorem tryFormNumberStringCU_smallBatch : tryFormNumberStringCU varcharColumn smallBatch = some smallCU := by
  decide +kernel

theorem unCompressData_restored_smallBatch
    : tryFormNumberStringCU varcharColumn smallBatch = some smallCU ∧
      ∃ out, unCompressData IntegerCoder.literalLz4 IntegerCoder.storedZlib varcharColumn (fun _ => 0)
          (compressData IntegerCoder.literalLz4 IntegerCoder.storedZlib ⟨.low, 0, true⟩ smallCU (by decide))
            = .ok out ∧
        Restored smallBatch out := by
  refine ⟨tryFormNumberStringCU_smallBatch, ?_⟩
  have hwidth : ColumnWidth varcharColumn smallBatch := by
    intro hbp
    simp [varcharColumn] at hbp
  have hsize : smallBatch.restoredSize ≤ securecMemMaxLen := by decide
  exact (unCompressData_restored IntegerCoder.literalLz4_lossless IntegerCoder.storedZlib_lossless hwidth
    ⟨.low, 0, true⟩ (fun _ => 0) tryFormNumberStringCU_smallBatch).mpr hsize

section Wide

variable {bpcharType : Bool}

theorem formLoop_isSome {i : Nat} {rows : List (Option Bytes)} {st : FormState}
    (h : ∀ v, some v ∈ rows → (numberChars bpcharType v).isSome)
    : (formLoop bpcharType i rows st).isSome := by
  induction rows generalizing i st with
  | nil => rfl
  | cons row rows ih =>
    cases row with
    | none =>
      apply ih
      intro v hv
      exact h v (mem_cons_of_mem _ hv)
    | some v =>
      obtain ⟨chars, hchars⟩ := Option.isSome_iff_exists.mp (h v mem_cons_self)
      simp only [formLoop, hchars, bind, Option.bind_some]
      apply ih
      intro v hv
      exact h v (mem_cons_of_mem _ hv)

theorem formNumberStringCU_isSome (h : ∀ v, some v ∈ batch.rows → (numberChars bpcharType v).isSome)
    : (formNumberStringCU bpcharType batch).isSome := by
  obtain ⟨st, hst⟩ := Option.isSome_iff_exists.mp (@formLoop_isSome bpcharType 0 batch.rows
      { nulls := (initMem batch).nulls, dataBuf := [], totalLen := 0 } h)
  obtain ⟨dataBuf, hbuf, hforall, _⟩ := formLoop_spec hst
  rw [nil_append] at hbuf
  simp [formNumberStringCU, hst, hbuf, mapM_strToUint64 hforall]

def wideValue (blanks : Nat) : Bytes := 49 :: List.replicate blanks 32

theorem numberChars_wideValue (blanks : Nat) : numberChars true (wideValue blanks) = some [49] := by
  have hscan : scanDigits true (blanks + 1) (List.replicate blanks 32)
      = some ([], List.replicate blanks 32) := by
    cases blanks with
    | zero => rfl
    | succ blanks => simp [replicate_succ, scanDigits, isDigitChar]
  simp [numberChars, wideValue, hscan]

def wideRows (blanks values nulls : Nat) : List (Option Bytes) :=
  none :: (List.replicate values (some (wideValue blanks)) ++ List.replicate nulls none)

theorem mem_wideRows {blanks values nulls : Nat} {v : Bytes} (h : some v ∈ wideRows blanks values nulls)
    : v = wideValue blanks := by
  simp only [wideRows, mem_cons, reduceCtorEq, mem_append, mem_replicate, and_false, or_false,
    false_or, Option.some.injEq] at h
  exact h.2

theorem length_wideValue (blanks : Nat) : (wideValue blanks).length = blanks + 1 := by
  simp [wideValue]

def wideBatch : Batch where
  rows := wideRows 10485759 410 589
  rows_le := by
    unfold wideRows
    rw [List.length_cons, List.length_append, List.length_replicate, List.length_replicate]
    decide
  varlena_lt := by
    intro v hv
    rw [mem_wideRows hv, length_wideValue]
    decide

def wideColumn : Column where
  bpchar := true
  typeMode := 10485764
  typeMode_valid := by decide

theorem reduceOption_wideRows (blanks values nulls : Nat)
    : (wideRows blanks values nulls).reduceOption = List.replicate values (wideValue blanks) := by
  unfold wideRows
  rw [reduceOption_cons_of_none, reduceOption_append]
  rw [reduceOption_replicate_none, append_nil]
  induction values with
  | zero => rfl
  | succ values ih =>
    rw [replicate_succ, reduceOption_cons_of_some, ih, replicate_succ]

theorem totalLen_of_wideRows {blanks values nulls : Nat} (h : batch.rows = wideRows blanks values nulls)
    : batch.totalLen = values * (blanks + 1) := by
  rw [Batch.totalLen, Batch.values, h, reduceOption_wideRows, map_replicate, sum_replicate_nat,
    length_wideValue]

theorem totalLen_le_restoredSize (batch : Batch) : batch.totalLen ≤ batch.restoredSize := by
  unfold Batch.restoredSize
  omega

theorem restoredSize_wideBatch : securecMemMaxLen < wideBatch.restoredSize := by
  have htotal : wideBatch.totalLen = 410 * (10485759 + 1) := totalLen_of_wideRows rfl
  have hle := totalLen_le_restoredSize wideBatch
  have hlimit : securecMemMaxLen = 2147483647 := rfl
  omega

end Wide

theorem not_restored_wideBatch
    : ColumnWidth wideColumn wideBatch ∧
      ∃ cu, ∃ haccept : tryFormNumberStringCU wideColumn wideBatch = some cu,
        ¬∃ out, unCompressData IntegerCoder.literalLz4 IntegerCoder.storedZlib wideColumn (fun _ => 0)
            (compressData IntegerCoder.literalLz4 IntegerCoder.storedZlib ⟨.low, 0, true⟩ cu
              (length_srcData_lt haccept)) = .ok out ∧
          Restored wideBatch out := by
  have hwidth : ColumnWidth wideColumn wideBatch := by
    intro _ v hv
    rw [mem_wideRows hv, length_wideValue]
    rfl
  refine ⟨hwidth, ?_⟩
  obtain ⟨cu, hcu⟩ := Option.isSome_iff_exists.mp (@formNumberStringCU_isSome wideBatch true (by
    intro v hv
    rw [mem_wideRows hv, numberChars_wideValue]
    rfl))
  have haccept : tryFormNumberStringCU wideColumn wideBatch = some cu := by
    have hbpchar : wideColumn.bpchar = true := rfl
    have hmode : ¬wideColumn.typeMode = -1 := by decide
    unfold tryFormNumberStringCU
    rw [if_pos hbpchar, if_neg hmode]
    exact hcu
  refine ⟨cu, haccept, ?_⟩
  intro hrestored
  have hle := (exists_restored_iff IntegerCoder.literalLz4_lossless IntegerCoder.storedZlib_lossless hwidth
    ⟨.low, 0, true⟩ (fun _ => 0) haccept).mp hrestored
  have hlt := restoredSize_wideBatch
  omega

end Restored

end NumberString

import OpenGauss.Cstore.NumberString.Impl
import OpenGauss.Cstore.Compress.Lemmas.IntegerCoder
import Mathlib.Data.List.ReduceOption
import Mathlib.Data.List.TakeWhile

/-!
This module contains the verification of the CU of number strings.
-/

open List Decimal IntegerCoder

namespace NumberString

open LittleEndian

section Digits

theorem isDigitChar_iff (c : UInt8) : isDigitChar c = true ↔ IsDigit c := by
  simp [isDigitChar, IsDigit]
  omega

theorem not_isSpace {c : UInt8} (h : IsDigit c) : isSpace c = false := by
  have h48 := h.1
  simp only [isSpace, UInt8.le_iff_toNat_le, decide_eq_false_iff_not, not_or, not_and]
  constructor
  . rintro rfl
    simp at h48
  . intro _ h13
    simp at h13
    omega

theorem not_sign {c : UInt8} (h : IsDigit c) : ¬(c = 43 ∨ c = 45) ∧ c ≠ 45 := by
  have h48 := h.1
  constructor
  . rintro (rfl | rfl)
    . simp at h48
    . simp at h48
  . rintro rfl
    simp at h48

theorem strToUint64_eq {s : Bytes} (hne : s ≠ []) (hdigits : ∀ c ∈ s, IsDigit c)
    (hlen : s.length ≤ maxLenCharToBigint)
    : strToUint64 s = some (Decimal.val s) := by
  have hlt : Decimal.val s < 2 ^ 64 := by
    have hval := val_lt hdigits
    have hpow : 10 ^ s.length ≤ 10 ^ 19 := Nat.pow_le_pow_right (by omega) hlen
    omega
  have hall : s.takeWhile (fun c => decide (IsDigit c)) = s := by
    rw [takeWhile_eq_self_iff]
    intro c hc
    simpa using hdigits c hc
  cases s with
  | nil => exact absurd rfl hne
  | cons c s =>
    have hc := hdigits c (by simp)
    have hblanks : (c :: s).takeWhile isSpace = [] := by
      rw [takeWhile_cons, not_isSpace hc]
      rfl
    have hsign := not_sign hc
    unfold strToUint64 strtoul
    simp only [hblanks, length_nil, drop_zero, headD_cons, if_neg hsign.1, if_neg hsign.2, hall, if_pos hlt]
    simp

theorem uint64Stack_eq (val : Nat) : uint64Stack val = (Nat.digits 10 val).map digitChar := by
  induction val using Nat.strong_induction_on with
  | h val ih =>
    unfold uint64Stack
    split
    . next hpos =>
      rw [ih _ (Nat.div_lt_self hpos (by omega)), Nat.digits_of_two_le_of_pos (by omega) hpos]
      rfl
    . next hzero =>
      obtain rfl : val = 0 := by omega
      rfl

end Digits

section Form

variable {bpcharType : Bool}

theorem scanDigits_spec {bpcharDataLen : Nat} {ptr digits left : Bytes}
    (hscan : scanDigits bpcharType bpcharDataLen ptr = some (digits, left))
    : ptr = digits ++ left ∧ (∀ c ∈ digits, IsDigit c) ∧ (bpcharType = false → left = []) ∧
      (bpcharType = true → digits = [] ∨ bpcharDataLen - left.length ≤ maxLenCharToBigint) := by
  induction ptr generalizing digits with
  | nil =>
    simp only [scanDigits, Option.some.injEq, Prod.mk.injEq] at hscan
    obtain ⟨rfl, rfl⟩ := hscan
    simp
  | cons c ptr ih =>
    unfold scanDigits at hscan
    split at hscan
    . next hdigit =>
      split at hscan
      . simp at hscan
      . next hlimit =>
        simp only [bind, Option.bind_eq_some_iff] at hscan
        obtain ⟨⟨digits', left'⟩, hrest, heq⟩ := hscan
        simp only [Option.some.injEq, Prod.mk.injEq] at heq
        obtain ⟨rfl, rfl⟩ := heq
        obtain ⟨hptr, hall, hleft, hlen⟩ := ih hrest
        refine ⟨by rw [hptr, cons_append], ?_, hleft, ?_⟩
        . intro d hd
          rw [mem_cons] at hd
          cases hd with
          | inl heq =>
            subst heq
            exact (isDigitChar_iff _).mp hdigit
          | inr hmem => exact hall d hmem
        . intro hbp
          right
          cases hlen hbp with
          | inl hnil =>
            subst hnil
            rw [nil_append] at hptr
            rw [← hptr]
            simp only [hbp, true_and] at hlimit
            omega
          | inr hle => exact hle
    . next hdigit =>
      split at hscan
      . next hbp =>
        simp only [Option.some.injEq, Prod.mk.injEq] at hscan
        obtain ⟨rfl, rfl⟩ := hscan
        simp [hbp]
      . simp at hscan

structure NumberChars (bpcharType : Bool) (v chars : Bytes) : Prop where
  ne_nil : chars ≠ []
  length_le : chars.length ≤ maxLenCharToBigint
  digits : ∀ c ∈ chars, Decimal.IsDigit c
  canonical : uint64ToStr (Decimal.val chars) = chars
  value : ∃ blanks, v = chars ++ List.replicate blanks 32
  exact : bpcharType = false → v = chars

theorem numberChars_spec {v chars : Bytes} (h : numberChars bpcharType v = some chars)
    : NumberChars bpcharType v chars := by
  unfold numberChars at h
  dsimp only at h
  split at h
  . simp at h
  . next hmax =>
    split at h
    . simp at h
    . next c ptr =>
      split at h
      . simp at h
      . next hlead =>
        simp only [bind, Option.bind_eq_some_iff] at h
        obtain ⟨⟨digits, left⟩, hscan, hblank⟩ := h
        dsimp only at hblank
        split at hblank
        . simp at hblank
        . next hblanks =>
          simp only [Option.some.injEq] at hblank
          subst hblank
          obtain ⟨hptr, hdigits, hleft, hlen⟩ := scanDigits_spec hscan
          have hall : ∀ d ∈ c :: digits, IsDigit d := by
            intro d hd
            rw [mem_cons] at hd
            cases hd with
            | inl heq =>
              subst heq
              unfold IsDigit
              omega
            | inr hmem => exact hdigits d hmem
          refine ⟨by simp, ?_, hall, ?_, ?_, ?_⟩
          . rw [hptr] at hmax hlen
            simp only [length_cons, length_append] at hmax hlen ⊢
            cases bpcharType with
            | false =>
              simp only [true_and] at hmax
              omega
            | true =>
              cases hlen rfl with
              | inl hnil =>
                simp [hnil, maxLenCharToBigint]
              | inr hle => omega
          . unfold uint64ToStr
            rw [uint64Stack_eq, digits_val (by omega) hall, reverse_reverse]
          . cases bpcharType with
            | false =>
              refine ⟨0, ?_⟩
              simp [hptr, hleft rfl]
            | true =>
              refine ⟨left.length, ?_⟩
              rw [hptr, cons_append]
              congr 2
              rw [eq_replicate_iff]
              simp only [true_and, not_not, all_eq_true, decide_eq_true_eq] at hblanks
              exact ⟨rfl, hblanks⟩
          . intro hbp
            rw [hptr, hleft hbp, append_nil]

def Batch.values (batch : Batch) : List Bytes := batch.rows.reduceOption

-- The null bitmap of the rows from `i` on, added to what `nulls` has of the ones before.
def nullsAfter : Nat → List (Option Bytes) → Bytes → Bytes
  | _, [], nulls => nulls
  | i, none :: rows, nulls => nullsAfter (i + 1) rows (appendNullValue nulls i)
  | i, some _ :: rows, nulls => nullsAfter (i + 1) rows nulls

theorem formLoop_spec {i : Nat} {rows : List (Option Bytes)} {st st' : FormState}
    (h : formLoop bpcharType i rows st = some st')
    : ∃ dataBuf, st'.dataBuf = st.dataBuf ++ dataBuf ∧
        List.Forall₂ (NumberChars bpcharType) rows.reduceOption dataBuf ∧
        (st.totalLen < 2 ^ 32 →
          st'.totalLen = (st.totalLen + (rows.reduceOption.map List.length).sum) % 2 ^ 32) ∧
        st'.nulls = nullsAfter i rows st.nulls := by
  induction rows generalizing i st with
  | nil =>
    simp only [formLoop, Option.some.injEq] at h
    subst h
    refine ⟨[], by simp, List.Forall₂.nil, ?_, rfl⟩
    intro hlt
    rw [reduceOption_nil, map_nil, sum_nil, Nat.add_zero, Nat.mod_eq_of_lt hlt]
  | cons row rows ih =>
    cases row with
    | none => exact ih h
    | some v =>
      simp only [formLoop, bind, Option.bind_eq_some_iff] at h
      obtain ⟨chars, hchars, hrest⟩ := h
      obtain ⟨dataBuf, hdata, hforall, htotal, hnulls⟩ := ih hrest
      refine ⟨chars :: dataBuf, by simpa using hdata, ?_, ?_, hnulls⟩
      . exact List.Forall₂.cons (numberChars_spec hchars) hforall
      . intro hlt
        rw [htotal (Nat.mod_lt _ (by omega))]
        rw [reduceOption_cons_of_some, map_cons, sum_cons]
        dsimp only
        omega

theorem mapM_strToUint64 {values dataBuf : List Bytes}
    (h : List.Forall₂ (NumberChars bpcharType) values dataBuf)
    : dataBuf.mapM strToUint64 = some (dataBuf.map Decimal.val) := by
  induction h with
  | nil => rfl
  | cons hchars _ ih =>
    rw [mapM_cons, strToUint64_eq hchars.ne_nil hchars.digits hchars.length_le, ih]
    rfl

def Batch.totalLen (batch : Batch) : Nat := (batch.values.map List.length).sum

structure Formed (bpcharType : Bool) (batch : Batch) (dataBuf : List Bytes) (cu : SourceCU) : Prop where
  chars : List.Forall₂ (NumberChars bpcharType) batch.values dataBuf
  infoMode : cu.infoMode = (initMem batch).infoMode ||| cuIntLikeCompressed
  nulls : cu.nulls = nullsAfter 0 batch.rows (initMem batch).nulls
  srcData : cu.srcData = pack 8
    (dataBuf.length :: dataBuf.map Decimal.val ++ [batch.totalLen % 2 ^ 32])

theorem formNumberStringCU_spec {batch : Batch} {cu : SourceCU}
    (h : formNumberStringCU bpcharType batch = some cu)
    : ∃ dataBuf, Formed bpcharType batch dataBuf cu := by
  simp only [formNumberStringCU, bind, Option.bind_eq_some_iff, Option.some.injEq] at h
  obtain ⟨st, hloop, data, hdata, hcu⟩ := h
  obtain ⟨dataBuf, hbuf, hforall, htotal, hnulls⟩ := formLoop_spec hloop
  rw [nil_append] at hbuf
  rw [hbuf, mapM_strToUint64 hforall, Option.some.injEq] at hdata
  have htotal' := htotal (Nat.two_pow_pos _)
  rw [Nat.zero_add] at htotal'
  rw [hbuf, ← hdata, htotal', hnulls] at hcu
  subst hcu
  exact ⟨dataBuf, hforall, rfl, rfl, rfl⟩

end Form

section Nulls

theorem length_appendNullValue (nulls : Bytes) (row : Nat)
    : (appendNullValue nulls row).length = nulls.length := by
  simp [appendNullValue]

theorem length_nullsAfter (i : Nat) (rows : List (Option Bytes)) (nulls : Bytes)
    : (nullsAfter i rows nulls).length = nulls.length := by
  fun_induction nullsAfter i rows nulls with
  | case1 => rfl
  | case2 i rows nulls ih => rw [ih, length_appendNullValue]
  | case3 i v rows nulls ih => exact ih

theorem bitIsSet_iff (bitmap : Bytes) (row : Nat)
    : bitIsSet bitmap row = (bitmap.getD (row / 8) 0).toNat.testBit (row % 8) := by
  rw [bitIsSet, Nat.testBit_eq_decide_div_mod_eq]
  rw [Nat.one_shiftLeft, Nat.and_two_pow]
  rw [Nat.testBit_eq_decide_div_mod_eq]
  cases Nat.mod_two_eq_zero_or_one ((bitmap.getD (row / 8) 0).toNat / 2 ^ (row % 8)) with
  | inl h => simp
  | inr h => simp

theorem bitIsSet_appendNullValue {nulls : Bytes} {row : Nat} (h : row / 8 < nulls.length) (i : Nat)
    : bitIsSet (appendNullValue nulls row) i = (decide (i = row) || bitIsSet nulls i) := by
  rw [bitIsSet_iff, bitIsSet_iff, appendNullValue]
  by_cases hbyte : i / 8 = row / 8
  . rw [hbyte, getD_eq_getElem?_getD, getElem?_set_self h, Option.getD_some]
    have hlt : (nulls.getD (row / 8) 0).toNat ||| 1 <<< (row % 8) < 256 := by
      rw [Nat.one_shiftLeft]
      have hpow : 2 ^ (row % 8) < 2 ^ 8 := Nat.pow_lt_pow_right (by omega) (by omega)
      exact Nat.or_lt_two_pow (n := 8) (UInt8.toNat_lt _) hpow
    rw [UInt8.toNat_ofNat_of_lt' hlt, Nat.testBit_or, Nat.one_shiftLeft, Nat.testBit_two_pow]
    rw [Bool.or_comm]
    congr 1
    rw [decide_eq_decide]
    omega
  . rw [getD_eq_getElem?_getD, getElem?_set_ne (by omega), ← getD_eq_getElem?_getD]
    have hne : i ≠ row := by
      rintro rfl
      exact hbyte rfl
    simp [hne]

theorem bitIsSet_nullsAfter {i : Nat} {rows : List (Option Bytes)} {nulls : Bytes}
    (h : none ∈ rows → i + rows.length ≤ nulls.length * 8) (row : Nat)
    : bitIsSet (nullsAfter i rows nulls) row
        =
      (bitIsSet nulls row || decide (i ≤ row ∧ rows[row - i]? = some none)) := by
  fun_induction nullsAfter i rows nulls with
  | case1 => simp
  | case2 i rows nulls ih =>
    have hle := h (by simp)
    rw [length_cons] at hle
    rw [ih (by rw [length_appendNullValue]; omega), bitIsSet_appendNullValue (by omega)]
    by_cases heq : row = i
    . subst heq
      simp
    . grind
  | case3 i v rows nulls ih =>
    rw [ih (fun hmem => by
      have := h (by simp [hmem])
      rw [length_cons] at this
      omega)]
    congr 1
    rw [decide_eq_decide]
    by_cases heq : row = i
    . subst heq
      simp
    . by_cases hlt : i < row
      . have hidx : row - i = (row - (i + 1)) + 1 := by omega
        rw [hidx, getElem?_cons_succ]
        simp [Nat.succ_le_of_lt hlt, Nat.le_of_lt hlt]
      . simp [hlt, show ¬i ≤ row by omega]

end Nulls

section Compress

variable {lz4 : Lz4} {zlib : Zlib} {bpcharType : Bool} {batch : Batch} {dataBuf : List Bytes} {cu : SourceCU}

theorem Formed.infoMode_cases (h : Formed bpcharType batch dataBuf cu)
    : cu.infoMode = 0x80 ∨ cu.infoMode = 0x480 := by
  rw [h.infoMode, initMem]
  split
  . right
    simp [cuHasNULL, cuIntLikeCompressed]
  . left
    simp [cuIntLikeCompressed]

theorem Formed.length_le (h : Formed bpcharType batch dataBuf cu) : dataBuf.length ≤ relMaxFullCuSize := by
  rw [← h.chars.length_eq]
  exact Nat.le_trans (reduceOption_length_le batch.rows) batch.rows_le

theorem val_lt_of_forall {values : List Bytes} (h : List.Forall₂ (NumberChars bpcharType) values dataBuf)
    : ∀ val ∈ dataBuf.map Decimal.val, val < 256 ^ 8 := by
  induction h with
  | nil => simp
  | cons hchars _ ih =>
    rw [map_cons, forall_mem_cons]
    constructor
    . have hval := val_lt hchars.digits
      have hpow := Nat.pow_le_pow_right (n := 10) (by omega) hchars.length_le
      have h19 : 10 ^ maxLenCharToBigint < 256 ^ 8 := by decide
      omega
    . exact ih

theorem Formed.numbers_lt (h : Formed bpcharType batch dataBuf cu)
    : ∀ val ∈ dataBuf.length :: dataBuf.map Decimal.val ++ [batch.totalLen % 2 ^ 32], val < 256 ^ 8 := by
  have hlen := h.length_le
  have hmod := Nat.mod_lt batch.totalLen (Nat.two_pow_pos 32)
  have hmax : relMaxFullCuSize = 60000 := rfl
  intro val hval
  simp only [cons_append, mem_cons, mem_append, not_mem_nil, or_false] at hval
  rcases hval with rfl | hval | rfl
  . omega
  . exact val_lt_of_forall h.chars val hval
  . omega

theorem Formed.length_srcData (h : Formed bpcharType batch dataBuf cu) : cu.srcData.length < 2 ^ 31 := by
  have hlen := h.length_le
  have hmax : relMaxFullCuSize = 60000 := rfl
  rw [h.srcData, length_pack]
  simp
  omega

theorem hasMode_or (infoMode modes : Nat) {flag : Nat} (hinfo : infoMode &&& flag = 0)
    (hmask : cuInfomask1 &&& flag = flag)
    : hasMode (infoMode ||| (modes &&& cuInfomask1)) flag = hasMode modes flag := by
  unfold hasMode
  rw [Nat.and_or_distrib_right, hinfo, Nat.zero_or, Nat.and_assoc, hmask]

theorem and_infomask1_ne_zero {infoMode : Nat} (h : infoMode = 0x80 ∨ infoMode = 0x480) (modes : Nat)
    : (infoMode ||| modes) &&& cuInfomask1 ≠ 0 := by
  have h80 : infoMode &&& cuInfomask1 = 0x80 := by
    cases h with
    | inl heq =>
      subst heq
      rfl
    | inr heq =>
      subst heq
      rfl
  rw [Nat.and_or_distrib_right, h80]
  have := @Nat.left_le_or 0x80 (modes &&& cuInfomask1)
  omega

def coderFlags : List Nat := [cuDeltaCompressed, cuRLECompressed, cuLzCompressed, cuZlibCompressed]

theorem infoMode_and_flag {infoMode : Nat} (h : infoMode = 0x80 ∨ infoMode = 0x480)
    : ∀ flag ∈ coderFlags, infoMode &&& flag = 0 ∧ cuInfomask1 &&& flag = flag := by
  cases h with
  | inl heq =>
    subst heq
    decide
  | inr heq =>
    subst heq
    decide

theorem Formed.unCompressData_eq (h : Formed bpcharType batch dataBuf cu) (hlz4 : lz4.Lossless)
    (hzlib : zlib.Lossless) (modes : CompressModes) (column : Column) (fresh : Nat → UInt8)
    : unCompressData lz4 zlib column fresh (compressData lz4 zlib modes cu h.length_srcData)
        =
      deFormNumberStringCU (column.bpchar && decide (column.typeMode > varhdrsz)) column.typeMode fresh
        cu.nulls cu.srcData := by
  have hmode := h.infoMode_cases
  have hflags := infoMode_and_flag hmode
  have hne : cu.srcData.length ≠ 0 := by
    rw [h.srcData, length_pack]
    simp
  unfold compressData
  dsimp only
  generalize hcompress : (intCoder modes.adoptRle).compress lz4 zlib _ = res
  obtain ⟨n, out⟩ := res
  dsimp only
  split
  . next hpos =>
    have hrestores := restores_of_compress hlz4 hzlib (intCoder modes.adoptRle)
      (intCoder false) rfl _ _ (by simp) h.numbers_lt h.srcData (by simp [intCoder]) n out hcompress hpos
    have hcongr := @IntegerCoder.decompress_congr_modes lz4 zlib
      (cu.infoMode ||| (out.modes &&& cuInfomask1)) out.modes
      (fun flag hflag => hasMode_or _ _ (hflags flag hflag).1 (hflags flag hflag).2)
      (intCoder false) (out.buf.take n) cu.srcData.length
    rw [hrestores] at hcongr
    unfold unCompressData
    dsimp only
    rw [if_pos (and_infomask1_ne_zero hmode _), hcongr]
    simp only [if_neg hne]
    rfl
  . have hunc := @IntegerCoder.decompress_uncompressed lz4 zlib cu.infoMode
      (fun flag hflag => by simp [hasMode, (hflags flag hflag).1])
      (intCoder false) cu.srcData cu.srcData.length
    have hmask := and_infomask1_ne_zero hmode 0
    rw [Nat.or_zero] at hmask
    unfold unCompressData
    dsimp only
    rw [if_pos hmask, hunc]
    simp only [if_neg hne]
    rfl

end Compress

end NumberString

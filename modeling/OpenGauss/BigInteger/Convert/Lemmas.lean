import OpenGauss.BigInteger.Convert.Impl
import OpenGauss.BigInteger.Lemmas

/-!
This module contains that the conversion of big integers into digits overruns no buffer and no
table.
-/

open Digits List Option

open Numeric (NumericVar Sign nbase decDigits preDigits postDigits)

namespace BigInteger

section Numeric

variable {scale : Nat} {multiplier : Nat → Option Int} {data : Int}

theorem numericDigit_of_lt {digit : Nat} (h : digit < nbase) : numericDigit digit = some digit := by
  apply if_pos
  calc digit < nbase := h
    _ < 2 ^ 15 := by decide

theorem storePre_eq (room : Nat) : ∀ (preData : Nat) (digits : List Nat), preData < nbase ^ room →
    storePre room preData digits = some (preDigits preData digits) := by
  induction room with
  | zero =>
    intro preData digits h
    rw [pow_zero] at h
    unfold storePre preDigits
    rw [if_pos (by omega), if_pos (by omega)]
  | succ room ih =>
    intro preData digits h
    unfold storePre preDigits
    split
    . rfl
    . have hquotient : preData / nbase < nbase ^ room := by
        rw [Nat.div_lt_iff_lt_mul (by decide), ← pow_succ]
        exact h
      have hdigit : preData - preData / nbase * nbase < nbase := by
        have hmod := Nat.mod_lt preData (by decide : 0 < nbase)
        have hdivmod := Nat.div_add_mod preData nbase
        rw [Nat.mul_comm] at hdivmod
        omega
      dsimp only
      rw [numericDigit_of_lt hdigit, bind_eq_bind, bind_some]
      exact ih _ _ hquotient

theorem quotRem_pow (x i : Nat) : quotRem x (10 ^ i) = some (x / 10 ^ i, x % 10 ^ i) := by
  have hpos : (0 : Int) < 10 ^ i := by positivity
  have htoNat : ((10 : Int) ^ i).toNat = 10 ^ i := by
    rw [show (10 : Int) ^ i = ((10 ^ i : Nat) : Int) by push_cast; rfl, Int.toNat_natCast]
  unfold quotRem
  rw [if_neg (by omega), htoNat]

theorem storePost_eq {bits : Nat} (hbits : nbase ≤ 2 ^ bits)
    (htable : ∀ i, i + decDigits ≤ scale → multiplier i = some (10 ^ i)) (room : Nat)
    : ∀ rs ≤ scale, ∀ postData < 10 ^ rs, rs ≤ decDigits * room →
        storePost bits multiplier room postData rs = some (postDigits postData rs) := by
  induction room with
  | zero =>
    intro rs _ postData hlt hroom
    have hrs : rs = 0 := by omega
    rw [hrs, pow_zero] at hlt
    unfold storePost postDigits
    rw [if_pos (by omega), if_pos (by omega)]
  | succ room ih =>
    intro rs hrs postData hlt hroom
    unfold storePost postDigits
    split
    . rfl
    . rename_i hne
      dsimp only
      split
      . rename_i hfour
        have hpow : 10 ^ rs = nbase * 10 ^ (rs - decDigits) := by
          rw [show nbase = 10 ^ decDigits from rfl, ← pow_add]
          congr 1
          omega
        have hdigit : postData / 10 ^ (rs - decDigits) < nbase := by
          rw [Nat.div_lt_iff_lt_mul (by positivity), ← hpow]
          exact hlt
        rw [htable (rs - decDigits) (by omega), bind_eq_bind, bind_some, quotRem_pow, bind_eq_bind, bind_some]
        dsimp only
        rw [numericDigit_of_lt hdigit, bind_eq_bind, bind_some,
          ih (rs - decDigits) (by omega) _ (Nat.mod_lt _ (by positivity)) (by
            rw [Nat.mul_succ] at hroom
            omega)]
        rfl
      . rename_i hfour
        have hlow : rs < 4 := Nat.lt_of_not_le hfour
        have hmultiplier : scaleMultipler (decDigits - rs) = some (10 ^ (decDigits - rs)) := by
          unfold scaleMultipler
          rw [if_pos (by simp only [decDigits]; omega)]
        have htoNat : ((10 : Int) ^ (decDigits - rs)).toNat = 10 ^ (decDigits - rs) := by
          rw [show (10 : Int) ^ (decDigits - rs) = ((10 ^ (decDigits - rs) : Nat) : Int) by push_cast; rfl,
            Int.toNat_natCast]
        have hdigit : postData * 10 ^ (decDigits - rs) < nbase := by
          calc postData * 10 ^ (decDigits - rs) < 10 ^ rs * 10 ^ (decDigits - rs) :=
              Nat.mul_lt_mul_of_pos_right hlt (by positivity)
            _ = nbase := by
              rw [← pow_add, show nbase = 10 ^ decDigits from rfl]
              congr 1
              simp only [decDigits]
              omega
        have hunsigned : unsigned bits (postData * 10 ^ (decDigits - rs)) =
          some (postData * 10 ^ (decDigits - rs)) :=
          if_pos (by omega)
        rw [hmultiplier, bind_eq_bind, bind_some, htoNat, hunsigned, bind_eq_bind,
          bind_some, numericDigit_of_lt hdigit]
        rfl

theorem convertIntToNumeric_eq {bits room : Nat}
    (hbits : nbase ≤ 2 ^ bits) (hscale : scale ≤ maxInt128Digit) (hroom : scale ≤ decDigits * room)
    (htable : ∀ i, i + decDigits ≤ scale → multiplier i = some (10 ^ i))
    (hmin : -data < 2 ^ bits) (hdata : data.natAbs < nbase ^ room)
    : convertIntToNumeric bits room multiplier data scale =
      some (Numeric.convertIntToNumeric bits data scale) := by
  have hfactor : getScaleMultiplier scale = some (10 ^ scale) := if_pos hscale
  unfold convertIntToNumeric Numeric.convertIntToNumeric
  simp only [Numeric.uval_eq hmin]
  split
  . rfl
  . rw [hfactor, bind_eq_bind, bind_some, quotRem_pow, bind_eq_bind, bind_some]
    dsimp only
    rw [storePre_eq room _ _ (Nat.lt_of_le_of_lt (Nat.div_le_self _ _) hdata), bind_eq_bind, bind_some,
      storePost_eq hbits htable room scale (Nat.le_refl _) _ (Nat.mod_lt _ (by positivity)) hroom,
      bind_some]
    rfl

theorem convertInt64ToNumeric_eq (hdata : Fits 64 data) (hscale : scale ≤ maxInt64Digit)
    : convertInt64ToNumeric data scale = some (Numeric.convertInt64ToNumeric data scale) := by
  have hlow := hdata.1
  have hhigh := hdata.2
  norm_num at hlow hhigh
  unfold maxInt64Digit at hscale
  apply convertIntToNumeric_eq
  . decide
  . unfold maxInt128Digit
    omega
  . simp only [decDigits]
    omega
  . intro i hi
    unfold scaleMultipler
    rw [if_pos (by simp only [decDigits] at hi; omega)]
  . norm_num
    omega
  . have hpow : nbase ^ (20 / decDigits) = 100000000000000000000 := by norm_num [nbase, decDigits]
    rw [hpow]
    omega

theorem convertInt128ToNumeric_eq (hdata : Fits 128 data) (hscale : scale ≤ maxInt128Digit)
    : convertInt128ToNumeric data scale = some (Numeric.convertInt128ToNumeric data scale) := by
  have hlow := hdata.1
  have hhigh := hdata.2
  norm_num at hlow hhigh
  unfold maxInt128Digit at hscale
  apply convertIntToNumeric_eq
  . decide
  . exact hscale
  . simp only [decDigits]
    omega
  . intro i hi
    unfold getScaleMultiplier maxInt128Digit
    rw [if_pos (by omega)]
  . norm_num
    omega
  . have hpow : nbase ^ (40 / decDigits) = 10000000000000000000000000000000000000000 := by
      norm_num [nbase, decDigits]
    rw [hpow]
    omega

theorem Numeric.toNormal_eq {num : Numeric} (h : num.Valid) : num.toNormal = some num.makeNumericNormal := by
  match num with
  | .bi64 value scale => exact convertInt64ToNumeric_eq h.1 h.2
  | .bi128 value scale => exact convertInt128ToNumeric_eq h.1 h.2
  | .normal var => rfl

end Numeric

variable {k : Nat}

section Scale

structure WithinScale (var : NumericVar) : Prop where
  ok : var.Ok
  rscale_le : var.rscale ≤ ((var.dscale + decDigits - 1) / decDigits : Nat)
  whole : ∃ n : Nat, var.abs = n * (10 : ℚ) ^ (-var.dscale : ℤ)

variable {var : NumericVar} {n : Nat}

def digitsNat (var : NumericVar) : Nat := Digits.toNat nbase var.digits

theorem abs_eq_digitsNat (var : NumericVar) : var.abs = digitsNat var * (10 : ℚ) ^ (-4 * var.rscale) := by
  unfold NumericVar.abs
  rw [val_eq_toNat (by decide), NumericVar.ten_zpow_four]
  unfold digitsNat NumericVar.rscale NumericVar.ndigits
  congr 2
  ring

section

variable (hn : var.abs = n * (10 : ℚ) ^ (-var.dscale : ℤ))
include hn

theorem scaled_eq : (n : ℚ) = digitsNat var * (10 : ℚ) ^ ((var.dscale : ℤ) - 4 * var.rscale) := by
  have hten : (10 : ℚ) ≠ 0 := by norm_num
  have hinv : (10 : ℚ) ^ (-var.dscale : ℤ) * (10 : ℚ) ^ (var.dscale : ℤ) = 1 := by
    rw [← zpow_add₀ hten, neg_add_cancel, zpow_zero]
  calc (n : ℚ) = n * ((10 : ℚ) ^ (-var.dscale : ℤ) * (10 : ℚ) ^ (var.dscale : ℤ)) := by rw [hinv, mul_one]
    _ = var.abs * (10 : ℚ) ^ (var.dscale : ℤ) := by rw [hn, mul_assoc]
    _ = digitsNat var * (10 : ℚ) ^ ((var.dscale : ℤ) - 4 * var.rscale) := by
      rw [abs_eq_digitsNat, mul_assoc, ← zpow_add₀ hten]
      congr 2
      ring

theorem scaled_of_nonneg (hk : (var.dscale : ℤ) - 4 * var.rscale = k) : n = digitsNat var * 10 ^ k := by
  have heq := scaled_eq hn
  rw [hk, zpow_natCast] at heq
  exact_mod_cast heq

theorem scaled_of_neg (hk : (var.dscale : ℤ) - 4 * var.rscale = -k) : n * 10 ^ k = digitsNat var := by
  have heq := scaled_eq hn
  have hpos : (10 : ℚ) ^ k ≠ 0 := by positivity
  rw [hk, zpow_neg, zpow_natCast] at heq
  have hmul : (n : ℚ) * 10 ^ k = digitsNat var := by
    rw [heq, mul_assoc, inv_mul_cancel₀ hpos, mul_one]
  exact_mod_cast hmul

theorem scaled_of_nil (hnil : var.ndigits = 0) : digitsNat var = 0 ∧ n = 0 := by
  have hzero : digitsNat var = 0 := by
    unfold digitsNat
    rw [eq_nil_of_length_eq_zero hnil, toNat_nil]
  have heq := scaled_eq hn
  rw [hzero, Nat.cast_zero, zero_mul] at heq
  apply And.intro hzero
  exact_mod_cast heq

end

def leadDigits (digit : Nat) : Nat :=
  if digit ≥ 1000 then 4 else if digit ≥ 100 then 3 else if digit ≥ 10 then 2 else 1

theorem leadDigits_pos (digit : Nat) : 1 ≤ leadDigits digit := by
  unfold leadDigits
  split
  . omega
  . split
    . omega
    . split <;> omega

theorem lt_pow_leadDigits {digit : Nat} (h : digit < nbase) : digit + 1 ≤ 10 ^ leadDigits digit := by
  unfold nbase at h
  unfold leadDigits
  split
  . omega
  . split
    . omega
    . split
      . omega
      . omega

theorem getWholeScale_eq (var : NumericVar)
    : getWholeScale var
        =
      if var.weight ≥ 0 ∧ var.ndigits > 0 then
        var.weight * 4 + var.dscale + leadDigits (var.digits.getD 0 0)
      else
        var.dscale := by
  unfold getWholeScale leadDigits decDigits
  split
  . dsimp only
    split
    . rfl
    . split
      . rfl
      . split
        . rfl
        . rfl
  . rfl

theorem dscale_le_getWholeScale (var : NumericVar) : (var.dscale : Int) ≤ getWholeScale var := by
  rw [getWholeScale_eq]
  split
  . omega
  . omega

theorem abs_lt_lead (hok : var.Ok) (hne : var.ndigits > 0)
    : var.abs < (10 : ℚ) ^ (4 * var.weight + leadDigits (var.digits.getD 0 0)) := by
  have hten : (10 : ℚ) ≠ 0 := by norm_num
  unfold NumericVar.abs
  unfold NumericVar.ndigits at hne
  unfold NumericVar.Ok at hok
  cases hdigits : var.digits with
  | nil =>
    rw [hdigits, length_nil] at hne
    omega
  | cons digit digits =>
    rw [hdigits] at hok
    have hrest := val_lt Numeric.one_lt_nbase digits (fun d hd => hok d (mem_cons_of_mem _ hd))
      (var.weight - 1)
    have hlead : ((digit + 1 : Nat) : ℚ) ≤ ((10 ^ leadDigits digit : Nat) : ℚ) := by
      exact_mod_cast lt_pow_leadDigits (hok digit mem_cons_self)
    have hunit : (0 : ℚ) < (nbase : ℚ) ^ var.weight := zpow_pos' Numeric.one_lt_nbase _
    rw [sub_add_cancel] at hrest
    push_cast at hlead
    rw [val_cons, getD_cons_zero, zpow_add₀ hten, zpow_natCast, ← NumericVar.ten_zpow_four]
    nlinarith

theorem scaled_lt (hok : var.Ok) (hn : var.abs = n * (10 : ℚ) ^ (-var.dscale : ℤ)) {whole : Nat}
    (hwhole : getWholeScale var = whole) : n < 10 ^ whole := by
  have hten : (1 : ℚ) < 10 := by norm_num
  have habs : var.abs < (10 : ℚ) ^ ((whole : ℤ) - var.dscale) := by
    rw [getWholeScale_eq] at hwhole
    split at hwhole
    . rename_i hlead
      rw [← hwhole, show var.weight * 4 + var.dscale + leadDigits (var.digits.getD 0 0) - var.dscale
        = 4 * var.weight + leadDigits (var.digits.getD 0 0) by ring]
      exact abs_lt_lead hok hlead.2
    . rename_i hlead
      rw [← hwhole, sub_self, zpow_zero]
      by_cases hneg : var.weight < 0
      . calc var.abs < (nbase : ℚ) ^ (var.weight + 1) := val_lt Numeric.one_lt_nbase _ hok _
          _ ≤ (nbase : ℚ) ^ (0 : ℤ) := NumericVar.zpow_nbase_le (by omega)
          _ = 1 := zpow_zero _
      . have hnil : var.digits = [] := by
          apply eq_nil_of_length_eq_zero
          unfold NumericVar.ndigits at hlead
          omega
        rw [Numeric.abs_of_nil hnil]
        exact one_pos
  have hlt : (n : ℚ) < (10 : ℚ) ^ whole := by
    have hunit : (0 : ℚ) < (10 : ℚ) ^ (var.dscale : ℤ) := by positivity
    have hcancel : (10 : ℚ) ^ (-var.dscale : ℤ) * (10 : ℚ) ^ (var.dscale : ℤ) = 1 := by
      rw [← zpow_add₀ (by norm_num), neg_add_cancel, zpow_zero]
    calc (n : ℚ) = var.abs * (10 : ℚ) ^ (var.dscale : ℤ) := by rw [hn, mul_assoc, hcancel, mul_one]
      _ < (10 : ℚ) ^ ((whole : ℤ) - var.dscale) * (10 : ℚ) ^ (var.dscale : ℤ) := by
        exact mul_lt_mul_of_pos_right habs hunit
      _ = (10 : ℚ) ^ whole := by rw [← zpow_add₀ (by norm_num), sub_add_cancel, zpow_natCast]
  exact_mod_cast hlt

end Scale

section Int64

variable {var : NumericVar} {n : Nat}

theorem foldlM_updateResult (digits : List Nat) (hlt : toNat nbase digits < 2 ^ 127)
    : digits.foldlM updateResult 0 = some (toNat nbase digits : Int) := by
  induction digits using List.reverseRecOn with
  | nil => rfl
  | append_singleton digits digit ih =>
    rw [toNat_append_singleton] at hlt ⊢
    have hle : toNat nbase digits ≤ toNat nbase digits * nbase :=
      Nat.le_mul_of_pos_right _ (by decide)
    rw [foldlM_append, ih (by omega), bind_eq_bind, bind_some, foldlM_cons]
    have hproduct : signed 128 ((toNat nbase digits : Int) * nbase)
        = some ((toNat nbase digits * nbase : Nat) : Int) := by
      rw [← Int.natCast_mul]
      apply signed_natCast
      omega
    have hsum : signed 128 (((toNat nbase digits * nbase : Nat) : Int) + digit)
        = some ((toNat nbase digits * nbase + digit : Nat) : Int) := by
      rw [← Int.natCast_add]
      exact signed_natCast hlt
    unfold updateResult
    rw [hproduct, bind_eq_bind, bind_some, hsum]
    rfl

theorem encodeDigits_eq (hok : var.Ok) (hlen : var.ndigits ≤ 6)
    : encodeDigits var.digits = some (digitsNat var : Int) := by
  unfold encodeDigits
  unfold NumericVar.ndigits at hlen
  rw [if_pos hlen]
  apply foldlM_updateResult
  calc toNat nbase var.digits < nbase ^ var.digits.length := toNat_lt _ hok
    _ ≤ nbase ^ 6 := Nat.pow_le_pow_right (by decide) hlen
    _ < 2 ^ 127 := by decide

theorem atIndex_natCast {α : Type} (table : Nat → Option α) (k : Nat)
    : atIndex table (k : Int) = table k := by
  unfold atIndex
  rw [if_neg (by omega), Int.toNat_natCast]

theorem adjustScale_mul {result : Nat} (hk : k < 19) (hlt : result * 10 ^ k < 2 ^ 127)
    : adjustScale result k = some ((result * 10 ^ k : Nat) : Int) := by
  have htable : scaleMultipler k = some (10 ^ k) := if_pos hk
  unfold adjustScale
  split
  . rw [atIndex_natCast, htable, bind_eq_bind, bind_some,
      show (result : Int) * 10 ^ k = ((result * 10 ^ k : Nat) : Int) by push_cast; rfl]
    exact signed_natCast hlt
  . have hzero : k = 0 := by omega
    rw [hzero]
    simp [atIndex, scaleMultipler]

theorem adjustScale_div {result : Nat} (hk : k < 19)
    : adjustScale ((result * 10 ^ k : Nat) : Int) (-k) = some (result : Int) := by
  have htable : scaleMultipler k = some (10 ^ k) := if_pos hk
  have hne : (10 : Int) ^ k ≠ 0 := by positivity
  unfold adjustScale
  rw [if_neg (by omega), neg_neg, atIndex_natCast, htable, bind_eq_bind, bind_some, if_neg hne]
  push_cast
  rw [Int.mul_tdiv_cancel _ hne]

def signInt : Sign → Int → Int
  | .pos, x => x
  | .neg, x => -x

theorem fits_signInt {bits : Nat} (sign : Sign) {x : Nat} (h : x < 2 ^ (bits - 1))
    : Fits bits (signInt sign x) := by
  have hcast : ((x : Nat) : Int) < 2 ^ (bits - 1) := by exact_mod_cast h
  unfold Fits
  cases sign with
  | pos =>
    simp only [signInt]
    omega
  | neg =>
    simp only [signInt]
    omega

theorem withSign_natCast (sign : Sign) {x : Nat} (h : x < 2 ^ 127)
    : withSign sign x = some (signInt sign x) := by
  cases sign with
  | pos => rfl
  | neg => exact signed_of_fits (fits_signInt .neg h)

theorem ndigits_le_six (h : WithinScale var) (hwhole : getWholeScale var ≤ 18) : var.ndigits ≤ 6 := by
  have hrscale := h.rscale_le
  rw [getWholeScale_eq] at hwhole
  unfold NumericVar.rscale decDigits at hrscale
  split at hwhole
  . have hlead := leadDigits_pos (var.digits.getD 0 0)
    omega
  . omega

theorem scaleDiff_le (hne : var.ndigits > 0) : (var.dscale : Int) - 4 * var.rscale < getWholeScale var := by
  rw [getWholeScale_eq]
  unfold NumericVar.rscale
  split
  . have hlead := leadDigits_pos (var.digits.getD 0 0)
    omega
  . omega

theorem toInt64Byscale_eq (h : WithinScale var) (hn : var.abs = n * (10 : ℚ) ^ (-var.dscale : ℤ))
    (hwhole : getWholeScale var ≤ 18)
    : toInt64Byscale var var.dscale = some (signInt var.sign n) ∧ n < 10 ^ 18 := by
  have hdscale := dscale_le_getWholeScale var
  have hlt : n < 10 ^ 18 := by
    have hnat : getWholeScale var = ((getWholeScale var).toNat : Int) := by omega
    calc n < 10 ^ (getWholeScale var).toNat := scaled_lt h.ok hn hnat
      _ ≤ 10 ^ 18 := Nat.pow_le_pow_right (by omega) (by omega)
  have hfits : n < 2 ^ 127 := by omega
  have hadjust : adjustScale (digitsNat var)
      (var.dscale - (if var.ndigits > 0 then (var.ndigits : Int) - var.weight - 1 else 0) * decDigits)
        = some (n : Int) := by
    by_cases hne : var.ndigits > 0
    . have hdiff := scaleDiff_le hne
      have hrscale := h.rscale_le
      rw [if_pos hne, show (var.ndigits : Int) - var.weight - 1 = var.rscale from rfl,
        show (var.dscale : Int) - var.rscale * decDigits = var.dscale - 4 * var.rscale by
          simp only [decDigits]
          push_cast
          ring]
      by_cases hneg : (var.dscale : Int) - 4 * var.rscale < 0
      . have hk : (var.dscale : Int) - 4 * var.rscale =
          -((4 * var.rscale - var.dscale).toNat : Int) := by omega
        rw [hk, ← scaled_of_neg hn hk]
        apply adjustScale_div
        simp only [decDigits] at hrscale
        omega
      . have hk : (var.dscale : Int) - 4 * var.rscale =
          ((var.dscale - 4 * var.rscale).toNat : Int) := by omega
        have hscaled := scaled_of_nonneg hn hk
        rw [hk, hscaled]
        apply adjustScale_mul
        . omega
        . rw [← hscaled]
          exact hfits
    . obtain ⟨hzero, hn0⟩ := scaled_of_nil hn (by omega)
      rw [if_neg hne, hzero, hn0, zero_mul, sub_zero]
      have hmul := adjustScale_mul (show var.dscale < 19 by omega)
        (show 0 * 10 ^ var.dscale < 2 ^ 127 by omega)
      rw [Nat.zero_mul] at hmul
      exact hmul
  apply And.intro _ hlt
  unfold toInt64Byscale
  dsimp only
  rw [encodeDigits_eq h.ok (ndigits_le_six h hwhole), bind_eq_bind, bind_some, hadjust,
    bind_some, withSign_natCast _ hfits, bind_some]
  apply signed_of_fits
  apply fits_signInt
  omega

end Int64

section Int128

variable {var : NumericVar} {n : Nat}

theorem getScaleMultiplier_of_le {i : Nat} (h : i ≤ 38) : getScaleMultiplier i = some (10 ^ i) := if_pos h

theorem sumDigits_go {digits : List Nat} {endIndex : Nat} (hend : endIndex ≤ digits.length)
    (hten : endIndex ≤ 10)
    (hlt : toNat nbase (digits.take endIndex) < 2 ^ 127)
    : ∀ m ≤ endIndex, (List.range m).foldlM (addDigit digits endIndex) 0
        = some ((toNat nbase (digits.take m) * nbase ^ (endIndex - m) : Nat) : Int) := by
  intro m
  induction m with
  | zero =>
    intro _
    simp
  | succ m ih =>
    intro hm
    have hget : digits[m]? = some digits[m] := getElem?_eq_getElem (by omega)
    have hfactor : getScaleMultiplier ((endIndex - 1 - m) * decDigits) =
      some (10 ^ ((endIndex - 1 - m) * decDigits)) := by
      apply getScaleMultiplier_of_le
      simp only [decDigits]
      omega
    have hpow : (10 : Int) ^ ((endIndex - 1 - m) * decDigits) =
      ((nbase ^ (endIndex - (m + 1)) : Nat) : Int) := by
      rw [show nbase = 10 ^ decDigits from rfl, ← pow_mul, Nat.mul_comm decDigits,
        show endIndex - (m + 1) = endIndex - 1 - m by omega]
      push_cast
      rfl
    have hstep : toNat nbase (digits.take m) * nbase ^ (endIndex - m) + digits[m] *
      nbase ^ (endIndex - (m + 1))
        = toNat nbase (digits.take (m + 1)) * nbase ^ (endIndex - (m + 1)) := by
      rw [take_add_one, hget, toList_some, toNat_append_singleton,
        show endIndex - m = endIndex - (m + 1) + 1 by omega, pow_succ]
      ring
    have hbound : toNat nbase (digits.take (m + 1)) * nbase ^ (endIndex - (m + 1)) < 2 ^ 127 := by
      have hle := toNat_take_le (b := nbase) (digits.take endIndex) (m + 1)
      rw [take_take, Nat.min_eq_left hm, length_take_of_le hend] at hle
      omega
    have hproduct : signed 128 ((digits[m] : Int) * 10 ^ ((endIndex - 1 - m) * decDigits))
        = some ((digits[m] * nbase ^ (endIndex - (m + 1)) : Nat) : Int) := by
      rw [hpow, ← Int.natCast_mul]
      apply signed_natCast
      omega
    have hsum : signed 128 (((toNat nbase (digits.take m) * nbase ^ (endIndex - m) : Nat) : Int)
        + ((digits[m] * nbase ^ (endIndex - (m + 1)) : Nat) : Int))
        = some ((toNat nbase (digits.take (m + 1)) * nbase ^ (endIndex - (m + 1)) : Nat) : Int) := by
      rw [← Int.natCast_add, hstep]
      exact signed_natCast hbound
    have hadd : addDigit digits endIndex ((toNat nbase (digits.take m) * nbase ^ (endIndex - m) : Nat) : Int) m
        = some ((toNat nbase (digits.take (m + 1)) * nbase ^ (endIndex - (m + 1)) : Nat) : Int) := by
      unfold addDigit
      rw [hget, bind_eq_bind, bind_some, hfactor, bind_eq_bind, bind_some, hproduct, bind_some, hsum]
    rw [range_succ, foldlM_append, ih (by omega), bind_eq_bind, bind_some, foldlM_cons, hadd]
    rfl

theorem sumDigits_eq {digits : List Nat} {endIndex : Nat} (hend : endIndex ≤ digits.length)
    (hten : endIndex ≤ 10)
    (hlt : toNat nbase (digits.take endIndex) < 2 ^ 127)
    : sumDigits digits endIndex = some (toNat nbase (digits.take endIndex) : Int) := by
  have hgo := sumDigits_go hend hten hlt endIndex (Nat.le_refl _)
  rw [Nat.sub_self, pow_zero, Nat.mul_one] at hgo
  exact hgo

theorem digitsNat_split (hne : var.ndigits > 0)
    : ∃ digit, var.digits[var.ndigits - 1]? = some digit
        ∧ digitsNat var = toNat nbase (var.digits.take (var.ndigits - 1)) * nbase + digit := by
  unfold NumericVar.ndigits at *
  have hget : var.digits[var.digits.length - 1]? = some var.digits[var.digits.length - 1] :=
    getElem?_eq_getElem (by omega)
  have hsplit : var.digits = var.digits.take (var.digits.length - 1) ++
    [var.digits[var.digits.length - 1]] := by
    have htake := take_add_one (l := var.digits) (i := var.digits.length - 1)
    rw [hget, toList_some, Nat.sub_add_cancel hne, take_length] at htake
    exact htake
  apply Exists.intro var.digits[var.digits.length - 1]
  apply And.intro hget
  unfold digitsNat
  conv_lhs => rw [hsplit]
  rw [toNat_append_singleton]

theorem lastDigit_eq (hne : var.ndigits > 0) {remainder : Nat} (hpos : 0 < remainder) (hlt : remainder < 4)
    (hn : n * 10 ^ (4 - remainder) = digitsNat var) (hfits : n < 2 ^ 127)
    : lastDigit var (toNat nbase (var.digits.take (var.ndigits - 1)) : Int) remainder = some (n : Int)
        ∧ toNat nbase (var.digits.take (var.ndigits - 1)) ≤ n := by
  obtain ⟨digit, hget, hdigits⟩ := digitsNat_split hne
  generalize toNat nbase (var.digits.take (var.ndigits - 1)) = front at hdigits ⊢
  have hbase : nbase = 10 ^ remainder * 10 ^ (4 - remainder) := by
    rw [← pow_add, show remainder + (4 - remainder) = 4 by omega]
    rfl
  have hunit : 0 < 10 ^ (4 - remainder) := by positivity
  rw [hdigits, hbase, ← Nat.mul_assoc] at hn
  have hdiv : n = front * 10 ^ remainder + digit / 10 ^ (4 - remainder) := by
    have hquotient := Nat.mul_div_cancel n hunit
    rw [hn, Nat.add_comm, Nat.add_mul_div_right _ _ hunit, Nat.add_comm] at hquotient
    exact hquotient.symm
  have hfront : front ≤ front * 10 ^ remainder := Nat.le_mul_of_pos_right _ (by positivity)
  have hle : front * 10 ^ remainder ≤ n := by
    rw [hdiv]
    exact Nat.le_add_right _ _
  have hscaled : signed 128 ((front : Int) * 10 ^ remainder) =
    some ((front * 10 ^ remainder : Nat) : Int) := by
    rw [show (front : Int) * 10 ^ remainder = ((front * 10 ^ remainder : Nat) : Int) by push_cast; rfl]
    apply signed_natCast
    omega
  have hlast : signed 128 (((front * 10 ^ remainder : Nat) : Int) + (digit : Int).tdiv (10 ^ (4 - remainder)))
      = some (n : Int) := by
    rw [show (digit : Int).tdiv (10 ^ (4 - remainder)) = ((digit / 10 ^ (4 - remainder) : Nat) : Int) by
        rw [show (10 : Int) ^ (4 - remainder) = ((10 ^ (4 - remainder) : Nat) : Int) by push_cast; rfl]
        rfl,
      ← Int.natCast_add, ← hdiv]
    exact signed_natCast hfits
  apply And.intro
  . unfold lastDigit decDigits
    rw [getScaleMultiplier_of_le (by omega), bind_eq_bind, bind_some, hscaled, bind_eq_bind,
      bind_some, hget, bind_some, getScaleMultiplier_of_le (by omega), bind_some, hlast]
  . omega

theorem toInt128Byscale_eq (h : WithinScale var) (hn : var.abs = n * (10 : ℚ) ^ (-var.dscale : ℤ))
    (hwhole : getWholeScale var ≤ 38)
    : toInt128Byscale var var.dscale = some (signInt var.sign n) ∧ n < 10 ^ 38 := by
  have hdscale := dscale_le_getWholeScale var
  have hlt : n < 10 ^ 38 := by
    have hnat : getWholeScale var = ((getWholeScale var).toNat : Int) := by omega
    calc n < 10 ^ (getWholeScale var).toNat := scaled_lt h.ok hn hnat
      _ ≤ 10 ^ 38 := Nat.pow_le_pow_right (by omega) (by omega)
  have hfits : n < 2 ^ 127 := by omega
  apply And.intro _ hlt
  unfold toInt128Byscale
  split
  . rename_i hnil
    obtain ⟨-, hn0⟩ := scaled_of_nil hn hnil
    rw [hn0]
    cases var.sign <;> rfl
  . rename_i hne
    have hpos : var.ndigits > 0 := by omega
    have hdiff := scaleDiff_le hpos
    have hrscale := h.rscale_le
    have hascale : (var.ndigits : Int) - (var.weight + 1) = var.rscale := by
      unfold NumericVar.rscale
      ring
    dsimp only
    rw [hascale]
    split
    . rename_i hspecial
      unfold specialDo decDigits at hspecial
      obtain ⟨hascalePos, hremainder, hgroups⟩ := of_decide_eq_true hspecial
      have hten : var.ndigits - 1 ≤ 10 := by
        rw [getWholeScale_eq] at hwhole
        unfold NumericVar.rscale at hgroups
        split at hwhole
        . have hlead := leadDigits_pos (var.digits.getD 0 0)
          omega
        . omega
      have hneg : (var.dscale : Int) - 4 * var.rscale = -((4 - var.dscale % 4 : Nat) : Int) := by omega
      have hscaled := scaled_of_neg hn hneg
      obtain ⟨hlast, hfront⟩ := lastDigit_eq hpos (by omega) (by omega) hscaled hfits
      have hend : var.ndigits - 1 ≤ var.digits.length := Nat.sub_le _ _
      have hindex : (var.dscale : Int) - (var.rscale - 1) * 4 - ((var.dscale % decDigits : Nat) : Int)
          = ((0 : Nat) : Int) := by
        unfold decDigits
        omega
      have hproduct : signed 128 ((n : Int) * 10 ^ 0) = some (n : Int) := by
        rw [pow_zero, mul_one]
        exact signed_natCast hfits
      rw [sumDigits_eq hend hten (by omega), bind_eq_bind, bind_some]
      change (lastDigit var _ (var.dscale % 4)).bind _ = _
      rw [hlast, bind_some, hindex, atIndex_natCast, getScaleMultiplier_of_le (by omega), bind_some,
        hproduct, bind_some]
      exact withSign_natCast _ hfits
    . rename_i hspecial
      have hnot : ¬(var.rscale > 0 ∧ var.dscale % 4 ≠ 0 ∧
        ((var.dscale / 4 : Nat) : Int) + 1 = var.rscale) := by
        intro hall
        apply hspecial
        unfold specialDo decDigits
        exact decide_eq_true hall
      unfold decDigits at hrscale
      have hk : (var.dscale : Int) - 4 * var.rscale = ((var.dscale - 4 * var.rscale).toNat : Int) := by omega
      have hten : var.ndigits ≤ 10 := by
        rw [getWholeScale_eq] at hwhole
        unfold NumericVar.rscale at hnot hrscale
        split at hwhole
        . have hlead := leadDigits_pos (var.digits.getD 0 0)
          omega
        . omega
      have hscaled := scaled_of_nonneg hn hk
      have hle : digitsNat var ≤ n := by
        rw [hscaled]
        exact Nat.le_mul_of_pos_right _ (by positivity)
      have htake : toNat nbase (var.digits.take var.ndigits) = digitsNat var := by
        unfold digitsNat NumericVar.ndigits
        rw [take_length]
      have hproduct : signed 128 ((digitsNat var : Int) * 10 ^ (var.dscale - 4 * var.rscale).toNat) =
        some (n : Int) := by
        rw [show (digitsNat var : Int) * 10 ^ (var.dscale - 4 * var.rscale).toNat = (n : Int) by
          rw [hscaled]
          push_cast
          rfl]
        exact signed_natCast hfits
      have hend : var.ndigits ≤ var.digits.length := Nat.le_refl _
      rw [sumDigits_eq hend hten (by rw [htake]; omega), bind_eq_bind, bind_some, htake,
        show (var.dscale : Int) - var.rscale * 4 = ((var.dscale - 4 * var.rscale).toNat : Int) by omega,
        atIndex_natCast, getScaleMultiplier_of_le (by omega), bind_some, hproduct, bind_some]
      exact withSign_natCast _ hfits

end Int128

end BigInteger

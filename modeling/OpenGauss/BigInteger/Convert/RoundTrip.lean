import OpenGauss.BigInteger.Convert.Lemmas

/-!
This module contains that the conversions between big integers and digits are inverse to each other.
-/

open Numeric (NumericVar Sign nbase decDigits)

namespace BigInteger

def SameNumber (result : Numeric) (var : NumericVar) : Prop :=
  result.Bi ∧ result.val = var.val ∧ result.dscale = var.dscale

variable {var : NumericVar} {n : Nat}

theorem val_signInt (hn : var.abs = n * (10 : ℚ) ^ (-var.dscale : ℤ))
    : (signInt var.sign n : ℚ) * (10 : ℚ) ^ (-var.dscale : ℤ) = var.val := by
  unfold NumericVar.val
  rw [hn, ← mul_assoc]
  congr 1
  cases var.sign with
  | pos => simp [signInt, NumericVar.signRat]
  | neg => simp [signInt, NumericVar.signRat]

theorem fits_signInt_of_lt_pow {bits k : Nat} (sign : Sign) (hlt : n < 10 ^ k)
    (hpow : 10 ^ k ≤ 2 ^ (bits - 1))
    : Fits bits (signInt sign n) :=
  fits_signInt sign (by omega)

theorem sameNumber_bi64 (h : WithinScale var) (hwhole : getWholeScale var ≤ 18)
    : ∃ result, toInt64Byscale var var.dscale = some result ∧ SameNumber (.bi64 result var.dscale) var := by
  obtain ⟨n, hn⟩ := h.whole
  obtain ⟨hresult, hlt⟩ := toInt64Byscale_eq h hn hwhole
  have hdscale := dscale_le_getWholeScale var
  apply Exists.intro (signInt var.sign n)
  apply And.intro hresult
  apply And.intro
  . apply And.intro rfl
    apply And.intro
    . exact fits_signInt_of_lt_pow var.sign hlt (by norm_num)
    . unfold maxInt64Digit
      omega
  . apply And.intro
    . exact val_signInt hn
    . rfl

theorem sameNumber_bi128 (h : WithinScale var) (hwhole : getWholeScale var ≤ 38)
    : ∃ result, toInt128Byscale var var.dscale = some result ∧ SameNumber (.bi128 result var.dscale) var := by
  obtain ⟨n, hn⟩ := h.whole
  obtain ⟨hresult, hlt⟩ := toInt128Byscale_eq h hn hwhole
  have hdscale := dscale_le_getWholeScale var
  apply Exists.intro (signInt var.sign n)
  apply And.intro hresult
  apply And.intro
  . apply And.intro rfl
    apply And.intro
    . exact fits_signInt_of_lt_pow var.sign hlt (by norm_num)
    . unfold maxInt128Digit
      omega
  . apply And.intro
    . exact val_signInt hn
    . rfl

theorem tryDirectConvertNumericNormalToFast_eq (enable : Bool) (val : Numeric)
    : tryDirectConvertNumericNormalToFast enable val = tryConvertNumericNormalToFast enable val := by
  cases val with
  | bi64 value scale => cases enable <;> rfl
  | bi128 value scale => cases enable <;> rfl
  | normal var => cases enable <;> rfl

theorem tryConvertNumericNormalToFast_spec (enable : Bool) (h : WithinScale var)
    : ∃ result, tryConvertNumericNormalToFast enable (.normal var) = some result
        ∧ (result = .normal var ∨ SameNumber result var) := by
  unfold tryConvertNumericNormalToFast convertShortNumericToInt64Byscale convertShortNumericToInt128Byscale
  dsimp only
  split
  . exact ⟨_, rfl, Or.inl rfl⟩
  . split
    . rename_i h64
      obtain ⟨result, hresult, hsame⟩ := sameNumber_bi64 h (of_decide_eq_true h64)
      rw [hresult]
      exact ⟨_, rfl, Or.inr hsame⟩
    . split
      . rename_i h128
        obtain ⟨result, hresult, hsame⟩ := sameNumber_bi128 h (of_decide_eq_true h128)
        rw [hresult]
        exact ⟨_, rfl, Or.inr hsame⟩
      . exact ⟨_, rfl, Or.inl rfl⟩

theorem toNormal_spec {num : Numeric} (h : num.Bi)
    : ∃ var, num.toNormal = some var ∧ var.Canonical ∧ var.val = num.val ∧ var.dscale = num.dscale := by
  obtain ⟨hval, hcanonical, hdscale⟩ := h.makeNumericNormal
  exact ⟨_, num.toNormal_eq h.2, hcanonical, hval, hdscale⟩

theorem SameNumber.toNormal {result : Numeric} (h : SameNumber result var) (hcanonical : var.Canonical)
    : result.toNormal = some var := by
  obtain ⟨hbi, hval, hdscale⟩ := h
  obtain ⟨var', hnormal, hcanonical', hval', hdscale'⟩ := toNormal_spec hbi
  rw [hnormal]
  congr 1
  apply hcanonical'.eq_of_val hcanonical
  . rw [hval', hval]
  . rw [hdscale', hdscale]

theorem numeric_conversions_inverse
    : (∀ data scale, Fits 64 data → scale ≤ maxInt64Digit → ∃ var, convertInt64ToNumeric data scale = some var
        ∧ var.Canonical ∧ var.val = data * (10 : ℚ) ^ (-scale : ℤ) ∧ var.dscale = scale)
      ∧ (∀ data scale, Fits 128 data → scale ≤ maxInt128Digit → ∃ var,
        convertInt128ToNumeric data scale = some var
          ∧ var.Canonical ∧ var.val = data * (10 : ℚ) ^ (-scale : ℤ) ∧ var.dscale = scale)
      ∧ ∀ enable var, WithinScale var →
          ∃ result, tryConvertNumericNormalToFast enable (.normal var) = some result
            ∧ tryDirectConvertNumericNormalToFast enable (.normal var) = some result
            ∧ (result = .normal var ∨ SameNumber result var)
            ∧ (var.Canonical → result.toNormal = some var) := by
  apply And.intro
  . intro data scale hdata hscale
    exact toNormal_spec (show (Numeric.bi64 data scale).Bi from ⟨rfl, hdata, hscale⟩)
  . apply And.intro
    . intro data scale hdata hscale
      exact toNormal_spec (show (Numeric.bi128 data scale).Bi from ⟨rfl, hdata, hscale⟩)
    . intro enable var hvar
      obtain ⟨result, htry, hresult⟩ := tryConvertNumericNormalToFast_spec enable hvar
      apply Exists.intro result
      apply And.intro htry
      rw [tryDirectConvertNumericNormalToFast_eq]
      apply And.intro htry
      apply And.intro hresult
      intro hcanonical
      cases hresult with
      | inl hsame =>
        rw [hsame]
        rfl
      | inr hsame => exact hsame.toNormal hcanonical

def exampleVar : NumericVar := ⟨[1, 2345, 6700], 1, .neg, 2⟩

theorem exampleVar_withinScale : WithinScale exampleVar := by
  constructor
  . exact (by decide : ∀ d ∈ [1, 2345, 6700], d < 10000)
  . decide
  . apply Exists.intro 1234567
    simp only [exampleVar, NumericVar.abs, Digits.val, nbase]
    norm_num

theorem exampleVar_canonical : exampleVar.Canonical := by
  constructor
  . exact exampleVar_withinScale.ok
  . constructor
    . intro d hd
      cases hd
      decide
    . intro d hd
      cases hd
      decide
  . intro hnil
    cases hnil

theorem numeric_conversions_inverse_example
    : (∃ var, convertInt64ToNumeric (-1234567) 2 = some var ∧ var.Canonical
        ∧ var.val = ((-1234567 : Int) : ℚ) * (10 : ℚ) ^ (-(2 : Nat) : ℤ) ∧ var.dscale = 2)
      ∧ (∃ var, convertInt128ToNumeric (-1234567) 2 = some var ∧ var.Canonical
          ∧ var.val = ((-1234567 : Int) : ℚ) * (10 : ℚ) ^ (-(2 : Nat) : ℤ) ∧ var.dscale = 2)
      ∧ ∃ result, tryConvertNumericNormalToFast true (.normal exampleVar) = some result
          ∧ tryDirectConvertNumericNormalToFast true (.normal exampleVar) = some result
          ∧ (result = .normal exampleVar ∨ SameNumber result exampleVar)
          ∧ result.toNormal = some exampleVar := by
  obtain ⟨result, htry, hdirect, hresult, hnormal⟩ :=
    numeric_conversions_inverse.2.2 true exampleVar exampleVar_withinScale
  apply And.intro (numeric_conversions_inverse.1 (-1234567) 2 (by decide) (by decide))
  apply And.intro (numeric_conversions_inverse.2.1 (-1234567) 2 (by decide) (by decide))
  exact ⟨result, htry, hdirect, hresult, hnormal exampleVar_canonical⟩

end BigInteger

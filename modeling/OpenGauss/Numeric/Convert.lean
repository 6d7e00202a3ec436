import OpenGauss.Numeric.Impl
import Mathlib.Tactic.LinearCombination

/-!
This module contains that the conversion of integers with a scale into numeric variables is exact.
-/

open List

namespace Numeric

open Digits

variable (digits : List Nat)

theorem one_lt_nbase : 1 < nbase := by decide

namespace NumericVar

def abs (var : NumericVar) : ℚ := Digits.val nbase var.digits var.weight

def signRat : Sign → ℚ
  | .pos => 1
  | .neg => -1

def val (var : NumericVar) : ℚ := signRat var.sign * var.abs

def Ok (var : NumericVar) : Prop := ∀ d ∈ var.digits, d < nbase

theorem val_rdropWhile (weight : Int)
    : Digits.val nbase (digits.rdropWhile (· = 0)) weight = Digits.val nbase digits weight := by
  have hsplit : digits.rdropWhile (· = 0) ++ digits.rtakeWhile (· = 0) = digits := by
    rw [List.rdropWhile, List.rtakeWhile, ← reverse_append, takeWhile_append_dropWhile, reverse_reverse]
  conv => rhs; rw [← hsplit]
  rw [val_append_zeros]
  intro d hd
  simpa using mem_rtakeWhile_imp hd

theorem nbase_mul_zpow (w : Int) : (nbase : ℚ) ^ (w + 1) = (nbase : ℚ) ^ w * nbase := by
  have hstep := zpow_sub_one_mul one_lt_nbase (w + 1)
  rw [add_sub_cancel_right] at hstep
  exact hstep.symm

theorem zpow_nbase_le {p q : Int} (h : p ≤ q) : (nbase : ℚ) ^ p ≤ (nbase : ℚ) ^ q := by
  apply zpow_le_zpow_right₀
  . exact_mod_cast one_lt_nbase.le
  . exact h

theorem ten_zpow_four (w : Int) : (nbase : ℚ) ^ w = (10 : ℚ) ^ (4 * w) := by
  have hbase : (nbase : ℚ) = (10 : ℚ) ^ (4 : ℤ) := by norm_num [nbase]
  rw [hbase, ← zpow_mul]

end NumericVar

open NumericVar

theorem preDigits_spec (n : Nat) : ∀ acc : List Nat, (∀ d ∈ acc, d < nbase) →
      Digits.val nbase (preDigits n acc) (((preDigits n acc).length : Int) - 1)
          = n * (nbase : ℚ) ^ acc.length + Digits.val nbase acc ((acc.length : Int) - 1)
        ∧ ∀ d ∈ preDigits n acc, d < nbase := by
  induction n using Nat.strongRecOn with
  | ind n ih =>
    intro acc hacc
    rw [preDigits]
    by_cases hzero : n = 0
    . subst hzero
      simpa using hacc
    . rw [if_neg hzero]
      have hdivmod := Nat.div_add_mod n nbase
      have hmod := Nat.mod_lt n (by decide : 0 < nbase)
      have hrest : n - n / nbase * nbase = n % nbase := by
        rw [Nat.mul_comm]
        omega
      rw [hrest]
      obtain ⟨hval, hok⟩ := ih (n / nbase)
        (Nat.div_lt_self (by omega) (by decide)) (n % nbase :: acc) (by
          intro d hd
          cases mem_cons.1 hd with
          | inl heq => omega
          | inr hmem => exact hacc d hmem)
      refine ⟨?_, hok⟩
      have hcast : (n : ℚ) = nbase * (n / nbase : Nat) + (n % nbase : Nat) := by
        exact_mod_cast hdivmod.symm
      have hplace : ((n % nbase :: acc).length : Int) - 1 = acc.length := by
        rw [length_cons]
        omega
      rw [hval, hplace, val_cons, length_cons, zpow_natCast]
      conv => rhs; rw [hcast]
      ring

theorem postDigits_spec (rs : Nat) : ∀ (p : Nat) (w : Int), p < 10 ^ rs →
      Digits.val nbase (postDigits p rs) w = p * (10 : ℚ) ^ (-rs : ℤ) * (nbase : ℚ) ^ (w + 1)
        ∧ ∀ d ∈ postDigits p rs, d < nbase := by
  have hten : (10 : ℚ) ≠ 0 := by norm_num
  induction rs using Nat.strongRecOn with
  | ind rs ih =>
    intro p w hp
    rw [postDigits]
    by_cases hzero : p = 0
    . subst hzero
      simp
    . rw [if_neg hzero]
      have hpos : 0 < rs := by
        apply Nat.pos_of_ne_zero
        rintro rfl
        omega
      by_cases hfour : decDigits ≤ rs
      . rw [if_pos hfour]
        have hfour' : 4 ≤ rs := hfour
        obtain ⟨hval, hok⟩ := ih (rs - decDigits) (by simp only [decDigits]; omega)
          (p % 10 ^ (rs - decDigits)) (w - 1) (Nat.mod_lt _ (by positivity))
        rw [sub_add_cancel] at hval
        have hpow : 10 ^ rs = 10 ^ (rs - decDigits) * nbase := by
          rw [show nbase = 10 ^ 4 from rfl, ← pow_add]
          congr 1
          simp only [decDigits]
          omega
        constructor
        . have hcast : (p : ℚ) = 10 ^ (rs - decDigits) * (p / 10 ^ (rs - decDigits) : Nat)
              + (p % 10 ^ (rs - decDigits) : Nat) := by
            exact_mod_cast (Nat.div_add_mod p (10 ^ (rs - decDigits))).symm
          have hunit : (10 : ℚ) ^ (-rs : ℤ) * (10 : ℚ) ^ (rs - decDigits) * nbase = 1 := by
            have hpowQ : (10 : ℚ) ^ rs = 10 ^ (rs - decDigits) * nbase := by
              exact_mod_cast hpow
            rw [mul_assoc, ← hpowQ, zpow_neg, zpow_natCast]
            exact inv_mul_cancel₀ (pow_ne_zero _ hten)
          have hscale : (10 : ℚ) ^ (-((rs - decDigits : Nat) : ℤ))
              = (10 : ℚ) ^ (-rs : ℤ) * nbase := by
            rw [show (nbase : ℚ) = (10 : ℚ) ^ (4 : ℤ) by norm_num [nbase], ← zpow_add₀ hten]
            congr 1
            simp only [decDigits]
            omega
          rw [val_cons, hval, hscale, nbase_mul_zpow]
          conv => rhs; rw [hcast]
          linear_combination -((p / 10 ^ (rs - decDigits) : Nat) * (nbase : ℚ) ^ w) * hunit
        . intro d hd
          cases mem_cons.1 hd with
          | inl heq =>
            rw [heq, Nat.div_lt_iff_lt_mul (by positivity), Nat.mul_comm, ← hpow]
            exact hp
          | inr hmem => exact hok d hmem
      . rw [if_neg hfour]
        have hfour' : rs < 4 := Nat.lt_of_not_le hfour
        have hpow : 10 ^ rs * 10 ^ (decDigits - rs) = nbase := by
          rw [← pow_add, show nbase = 10 ^ 4 from rfl]
          congr 1
          simp only [decDigits]
          omega
        constructor
        . have hunit : (10 : ℚ) ^ (decDigits - rs) = (10 : ℚ) ^ (-rs : ℤ) * nbase := by
            have hpowQ : (10 : ℚ) ^ rs * 10 ^ (decDigits - rs) = nbase := by
              exact_mod_cast hpow
            rw [← hpowQ, zpow_neg, zpow_natCast, ← mul_assoc, inv_mul_cancel₀ (pow_ne_zero _ hten), one_mul]
          rw [val_cons, val_nil, add_zero, nbase_mul_zpow]
          push_cast
          rw [hunit]
          ring
        . intro d hd
          rw [mem_singleton.1 hd, ← hpow]
          exact Nat.mul_lt_mul_of_pos_right hp (by positivity)

theorem postDigits_eq_nil (p rs : Nat) (h : postDigits p rs = []) : p = 0 := by
  rw [postDigits] at h
  by_contra hne
  rw [if_neg hne] at h
  split at h <;> exact cons_ne_nil _ _ h

theorem val_drop_zeros (weight : Int) : Digits.val nbase (digits.drop (digits.takeWhile (· = 0)).length)
        (weight - (digits.takeWhile (· = 0)).length)
      =
    Digits.val nbase digits weight := by
  induction digits generalizing weight with
  | nil => simp
  | cons digit digits ih =>
    by_cases hzero : digit = 0
    . subst hzero
      have hrest := ih (weight - 1)
      simp only [decide_true, takeWhile_cons_of_pos, length_cons, drop_succ_cons,
        val_cons, Nat.cast_zero, zero_mul, zero_add]
      rw [← hrest]
      congr 1
      push_cast
      ring
    . simp [hzero]

section Canonical

structure NumericVar.Canonical (var : NumericVar) : Prop where
  ok : Ok var
  stripped : Stripped var.digits
  zero : var.digits = [] → var.weight = 0 ∧ var.sign = .pos

variable {var var' : NumericVar}

theorem nbase_pos : 0 < nbase := by decide

theorem NumericVar.Canonical.abs_pos (h : var.Canonical) (hne : var.digits ≠ []) : 0 < var.abs :=
  val_pos_of_last nbase_pos var.digits hne h.stripped.last var.weight

theorem abs_of_nil (hnil : var.digits = []) : var.abs = 0 := by
  unfold NumericVar.abs
  rw [hnil, val_nil]

theorem signRat_ne_zero (sign : Sign) : signRat sign ≠ 0 := by
  cases sign <;> norm_num [signRat]

theorem val_sign_inj {sign sign' : Sign} {x y : ℚ} (hx : 0 < x) (hy : 0 < y)
    (heq : signRat sign * x = signRat sign' * y) : sign = sign' ∧ x = y := by
  cases sign with
  | pos =>
    cases sign' with
    | pos =>
      simp only [signRat, one_mul] at heq
      exact And.intro rfl heq
    | neg =>
      simp only [signRat] at heq
      linarith
  | neg =>
    cases sign' with
    | pos =>
      simp only [signRat] at heq
      linarith
    | neg =>
      simp only [signRat] at heq
      apply And.intro rfl
      linarith

theorem NumericVar.Canonical.nil_of_val (h' : var'.Canonical) (hval : var.val = var'.val)
    (hnil : var.digits = []) : var'.digits = [] := by
  by_contra hne
  unfold NumericVar.val at hval
  rw [abs_of_nil hnil, mul_zero] at hval
  exact mul_ne_zero (signRat_ne_zero _) (h'.abs_pos hne).ne' hval.symm

theorem NumericVar.Canonical.eq_of_val (h : var.Canonical) (h' : var'.Canonical) (hval : var.val = var'.val)
    (hdscale : var.dscale = var'.dscale) : var = var' := by
  have hfields : var.digits = var'.digits ∧ var.weight = var'.weight ∧ var.sign = var'.sign := by
    by_cases hnil : var.digits = []
    . have hnil' := h'.nil_of_val hval hnil
      obtain ⟨hweight, hsign⟩ := h.zero hnil
      obtain ⟨hweight', hsign'⟩ := h'.zero hnil'
      rw [hnil, hnil', hweight, hweight', hsign, hsign']
      exact ⟨rfl, rfl, rfl⟩
    . have hnil' : var'.digits ≠ [] := fun hnil' => hnil (h.nil_of_val hval.symm hnil')
      obtain ⟨hsign, habs⟩ := val_sign_inj (h.abs_pos hnil) (h'.abs_pos hnil') hval
      obtain ⟨hdigits, hweight⟩ := stripped_inj one_lt_nbase hnil h.ok h'.ok h.stripped h'.stripped habs
      exact ⟨hdigits, hweight, hsign⟩
  obtain ⟨hdigits, hweight, hsign⟩ := hfields
  cases var
  cases var'
  rw [NumericVar.mk.injEq]
  exact ⟨hdigits, hweight, hsign, hdscale⟩

end Canonical

section Convert

theorem head_preDigits (n : Nat) : ∀ acc : List Nat, n ≠ 0 → ∃ d ds, preDigits n acc = d :: ds ∧ d ≠ 0 := by
  induction n using Nat.strongRecOn with
  | ind n ih =>
    intro acc hne
    rw [preDigits, if_neg hne]
    by_cases hlast : n / nbase = 0
    . rw [hlast, preDigits, if_pos rfl, Nat.zero_mul, Nat.sub_zero]
      exact ⟨n, acc, rfl, hne⟩
    . exact ih (n / nbase) (Nat.div_lt_self (by omega) (by decide)) _ hlast

theorem last_postDigits (rs : Nat) : ∀ p : Nat, ∀ d ∈ (postDigits p rs).getLast?, d ≠ 0 := by
  induction rs using Nat.strongRecOn with
  | ind rs ih =>
    intro p
    rw [postDigits]
    by_cases hzero : p = 0
    . rw [if_pos hzero]
      intro d hd
      cases hd
    . rw [if_neg hzero]
      by_cases hfour : decDigits ≤ rs
      . rw [if_pos hfour]
        have hrest := ih (rs - decDigits) (by simp only [decDigits] at *; omega) (p % 10 ^ (rs - decDigits))
        have hnil := postDigits_eq_nil (p % 10 ^ (rs - decDigits)) (rs - decDigits)
        cases hdigits : postDigits (p % 10 ^ (rs - decDigits)) (rs - decDigits) with
        | nil =>
          have hmod := hnil hdigits
          intro d hd
          cases hd
          intro hquotient
          rw [getLast_singleton] at hquotient
          have hdivmod := Nat.div_add_mod p (10 ^ (rs - decDigits))
          rw [hmod, hquotient] at hdivmod
          omega
        | cons e es =>
          rw [hdigits] at hrest
          exact hrest
      . rw [if_neg hfour]
        intro d hd
        cases hd
        have hpos : 0 < 10 ^ (decDigits - rs) := by positivity
        exact Nat.mul_ne_zero hzero hpos.ne'

theorem stripped_append {pre post : List Nat} (hne : pre ≠ []) (hne' : post ≠ [])
    (hhead : ∀ d ∈ pre.head?, d ≠ 0) (hlast : ∀ d ∈ post.getLast?, d ≠ 0) : Stripped (pre ++ post) := by
  constructor
  . intro d hd
    apply hhead
    rw [head?_append_of_ne_nil _ hne] at hd
    exact hd
  . intro d hd
    apply hlast
    rw [getLast?_append_of_ne_nil _ hne'] at hd
    exact hd

theorem stripped_rdropWhile {pre : List Nat} (hhead : ∀ d ∈ pre.head?, d ≠ 0)
    : Stripped (pre.rdropWhile (· = 0)) := by
  constructor
  . intro d hd
    apply hhead
    obtain ⟨rest, hrest⟩ := rdropWhile_prefix (fun d => decide (d = 0)) pre
    cases hstripped : pre.rdropWhile (· = 0) with
    | nil =>
      rw [hstripped] at hd
      cases hd
    | cons e es =>
      rw [hstripped] at hd hrest
      rw [← hrest]
      exact hd
  . intro d hd
    obtain ⟨hne, hlast⟩ := mem_getLast?_eq_getLast hd
    have hnot := rdropWhile_last_not (fun d => decide (d = 0)) pre hne
    rw [← hlast] at hnot
    simpa using hnot

theorem drop_takeWhile (ds : List Nat) : ds.drop (ds.takeWhile (· = 0)).length = ds.dropWhile (· = 0) := by
  have hsplit := takeWhile_append_dropWhile (p := fun d => decide (d = 0)) (l := ds)
  calc ds.drop (ds.takeWhile (· = 0)).length
      = (ds.takeWhile (· = 0) ++ ds.dropWhile (· = 0)).drop (ds.takeWhile (· = 0)).length := by rw [hsplit]
    _ = ds.dropWhile (· = 0) := drop_left

theorem stripped_dropWhile {post : List Nat} (hlast : ∀ d ∈ post.getLast?, d ≠ 0)
    : Stripped (post.dropWhile (· = 0)) := by
  constructor
  . intro d hd
    obtain ⟨hne, hhead⟩ : ∃ hne, d = (post.dropWhile (· = 0)).head hne := by
      cases hdrop : post.dropWhile (· = 0) with
      | nil =>
        rw [hdrop] at hd
        cases hd
      | cons e es =>
        rw [hdrop] at hd
        cases hd
        exact ⟨cons_ne_nil _ _, rfl⟩
    have hnot := head_dropWhile_not (fun d => decide (d = 0)) hne
    rw [← hhead] at hnot
    simpa using hnot
  . intro d hd
    obtain ⟨hne, hget⟩ := mem_getLast?_eq_getLast hd
    have hsuffix : post.dropWhile (· = 0) <:+ post := dropWhile_suffix _
    apply hlast
    rw [hget, hsuffix.getLast hne]
    exact getLast_mem_getLast? _

section Join

variable (pre post : List Nat) (sign : Sign) (scale : Nat)

theorem sign_joinDigits : (joinDigits pre post sign scale).sign = sign := by
  unfold joinDigits
  split
  . split <;> rfl
  . rfl

theorem dscale_joinDigits : (joinDigits pre post sign scale).dscale = scale := by
  unfold joinDigits
  split
  . split <;> rfl
  . rfl

theorem abs_joinDigits
    : (joinDigits pre post sign scale).abs
        =
      Digits.val nbase pre (pre.length - 1) + Digits.val nbase post (-1) := by
  unfold joinDigits NumericVar.abs
  split
  . split
    . have hplace : (pre.length : Int) - 1 - pre.length = -1 := by ring
      dsimp only
      rw [val_append, hplace]
    . next hpost =>
      rw [not_not.1 hpost, val_nil, add_zero]
      exact val_rdropWhile pre _
  . next hpre =>
    have hdrop := val_drop_zeros post (-1)
    have hweight : (-1 : Int) - (post.takeWhile (· = 0)).length
        = -((post.takeWhile (· = 0)).length + 1) := by ring
    rw [hweight] at hdrop
    rw [not_not.1 hpre, val_nil, zero_add]
    exact hdrop

variable {pre post}

theorem canonical_joinDigits (hpre : ∀ d ∈ pre, d < nbase) (hpost : ∀ d ∈ post, d < nbase)
    (hhead : ∀ d ∈ pre.head?, d ≠ 0) (hlast : ∀ d ∈ post.getLast?, d ≠ 0) (hne : pre ≠ [] ∨ post ≠ [])
    : (joinDigits pre post sign scale).Canonical := by
  unfold joinDigits
  split
  . next hpreNe =>
    split
    . next hpostNe =>
      constructor
      . intro d hd
        cases mem_append.1 hd with
        | inl hmem => exact hpre d hmem
        | inr hmem => exact hpost d hmem
      . exact stripped_append hpreNe hpostNe hhead hlast
      . intro hnil
        exact absurd (append_eq_nil_iff.1 hnil).1 hpreNe
    . constructor
      . intro d hd
        exact hpre d (( rdropWhile_prefix _ pre).subset hd)
      . exact stripped_rdropWhile hhead
      . intro hnil
        have hall := rdropWhile_eq_nil_iff.1 hnil _ (head_mem hpreNe)
        exact absurd (of_decide_eq_true hall) (hhead _ (head_mem_head? hpreNe))
  . next hpreNil =>
    have hpostNe := hne.resolve_left hpreNil
    dsimp only
    rw [drop_takeWhile]
    constructor
    . intro d hd
      exact hpost d ((dropWhile_suffix _).subset hd)
    . exact stripped_dropWhile hlast
    . intro hnil
      have hall := dropWhile_eq_nil_iff.1 hnil _ (getLast_mem hpostNe)
      exact absurd (of_decide_eq_true hall) (hlast _ (getLast_mem_getLast? hpostNe))

end Join

theorem uval_eq {bits : Nat} {data : Int} (hmin : -data < 2 ^ bits)
    : (if data < 0 then (-data % 2 ^ bits).toNat else data.toNat) = data.natAbs := by
  split
  . rw [Int.emod_eq_of_lt (by omega) hmin]
    omega
  . omega

theorem signRat_mul_natAbs (data : Int)
    : signRat (if data < 0 then Sign.neg else Sign.pos) * (data.natAbs : ℚ) = data := by
  split
  . next hneg =>
    rw [signRat, ← Int.cast_natCast, Int.ofNat_natAbs_of_nonpos hneg.le]
    push_cast
    ring
  . next hneg => rw [signRat, ← Int.cast_natCast, Int.natAbs_of_nonneg (not_lt.1 hneg), one_mul]

theorem convertIntToNumeric_spec {bits : Nat} {data : Int} (scale : Nat) (hmin : -data < 2 ^ bits)
    : (convertIntToNumeric bits data scale).val = data * (10 : ℚ) ^ (-scale : ℤ)
        ∧ (convertIntToNumeric bits data scale).Canonical
        ∧ (convertIntToNumeric bits data scale).dscale = scale := by
  have hdata := signRat_mul_natAbs data
  simp only [convertIntToNumeric, uval_eq hmin]
  by_cases hzero : data.natAbs = 0
  . rw [if_pos hzero]
    refine ⟨?_, ⟨?_, ⟨?_, ?_⟩, fun _ => ⟨rfl, rfl⟩⟩, rfl⟩
    . rw [Int.natAbs_eq_zero.1 hzero]
      simp [NumericVar.val, NumericVar.abs]
    all_goals
      intro d hd
      cases hd
  . rw [if_neg hzero]
    generalize data.natAbs = uval at hzero hdata
    obtain ⟨hpre, hpreOk⟩ := preDigits_spec (uval / 10 ^ scale) [] (by simp)
    obtain ⟨hpost, hpostOk⟩ := postDigits_spec scale (uval % 10 ^ scale) (-1) (Nat.mod_lt _ (by positivity))
    have hdivmod := Nat.div_add_mod uval (10 ^ scale)
    refine ⟨?_, canonical_joinDigits _ _ hpreOk hpostOk ?_ (last_postDigits scale _) ?_, dscale_joinDigits ..⟩
    . have hcast : (uval : ℚ) = 10 ^ scale * (uval / 10 ^ scale : Nat) + (uval % 10 ^ scale : Nat) := by
        exact_mod_cast hdivmod.symm
      have hunit : (10 : ℚ) ^ (-scale : ℤ) * 10 ^ scale = 1 := by
        rw [zpow_neg, zpow_natCast]
        exact inv_mul_cancel₀ (pow_ne_zero _ (by norm_num))
      have hsum : (uval : ℚ) * (10 : ℚ) ^ (-scale : ℤ)
          = (uval / 10 ^ scale : Nat) + (uval % 10 ^ scale : Nat) * (10 : ℚ) ^ (-scale : ℤ) := by
        conv => lhs; rw [hcast]
        linear_combination ((uval / 10 ^ scale : Nat) : ℚ) * hunit
      simp only [length_nil, pow_zero, mul_one, val_nil, add_zero] at hpre
      simp only [neg_add_cancel, zpow_zero, mul_one] at hpost
      rw [NumericVar.val, sign_joinDigits, abs_joinDigits, hpre, hpost, ← hsum, ← mul_assoc, hdata]
    . intro d hd
      by_cases hquotient : uval / 10 ^ scale = 0
      . rw [hquotient, preDigits, if_pos rfl] at hd
        cases hd
      . obtain ⟨e, es, hdigits, he⟩ := head_preDigits (uval / 10 ^ scale) [] hquotient
        rw [hdigits] at hd
        cases hd
        exact he
    . rw [← not_and_or]
      rintro ⟨hpreNil, hpostNil⟩
      have hmod := postDigits_eq_nil _ _ hpostNil
      by_cases hquotient : uval / 10 ^ scale = 0
      . rw [hquotient, hmod] at hdivmod
        omega
      . obtain ⟨e, es, hdigits, _⟩ := head_preDigits (uval / 10 ^ scale) [] hquotient
        rw [hpreNil] at hdigits
        cases hdigits

end Convert

end Numeric

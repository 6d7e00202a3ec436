import Mathlib.Algebra.Order.Field.Power
import Mathlib.Tactic.Ring
import Mathlib.Tactic.Linarith
import Mathlib.Tactic.Positivity

/-!
This module contains numbers written as digits in a base, the most significant digit first,
together with the power of the base that the first digit stands for.
-/

open List

namespace Digits

variable {b : ℕ}

def val (b : ℕ) : List ℕ → ℤ → ℚ
  | [], _ => 0
  | d :: ds, w => d * (b : ℚ) ^ w + val b ds (w - 1)

@[simp]
theorem val_nil (w : ℤ) : val b [] w = 0 := rfl

@[simp]
theorem val_cons (d : ℕ) (ds : List ℕ) (w : ℤ) : val b (d :: ds) w = d * (b : ℚ) ^ w + val b ds (w - 1) := rfl

theorem val_append (xs ys : List ℕ) (w : ℤ) : val b (xs ++ ys) w = val b xs w + val b ys (w - xs.length) := by
  induction xs generalizing w with
  | nil => simp
  | cons x xs ih =>
    rw [cons_append, val_cons, ih, val_cons, length_cons]
    have hw : w - 1 - (xs.length : ℤ) = w - ((xs.length + 1 : ℕ) : ℤ) := by
      push_cast
      ring
    rw [hw]
    ring

theorem val_zeros (ds : List ℕ) (h : ∀ d ∈ ds, d = 0) (w : ℤ) : val b ds w = 0 := by
  induction ds generalizing w with
  | nil => rfl
  | cons d ds ih =>
    rw [val_cons, ih (fun d' hd => h d' (mem_cons_of_mem _ hd)), h d mem_cons_self]
    simp

theorem val_append_zeros (xs ys : List ℕ) (h : ∀ d ∈ ys, d = 0) (w : ℤ)
    : val b (xs ++ ys) w = val b xs w := by
  rw [val_append, val_zeros ys h, add_zero]

theorem val_nonneg (ds : List ℕ) (w : ℤ) : 0 ≤ val b ds w := by
  induction ds generalizing w with
  | nil => exact le_refl 0
  | cons d ds ih =>
    rw [val_cons]
    have hrest := ih (w - 1)
    positivity

theorem zpow_sub_one_mul (hb : 1 < b) (w : ℤ) : (b : ℚ) ^ (w - 1) * b = (b : ℚ) ^ w := by
  have hne : (b : ℚ) ≠ 0 := by
    have hpos : 0 < b := by omega
    exact_mod_cast hpos.ne'
  rw [← zpow_add_one₀ hne]
  congr 1
  ring

theorem zpow_pos' (hb : 1 < b) (w : ℤ) : 0 < (b : ℚ) ^ w := by
  have hpos : (0 : ℚ) < b := by
    have : 0 < b := by omega
    exact_mod_cast this
  exact zpow_pos hpos w

theorem val_lt (hb : 1 < b) (ds : List ℕ) (h : ∀ d ∈ ds, d < b) (w : ℤ) : val b ds w < (b : ℚ) ^ (w + 1) := by
  induction ds generalizing w with
  | nil => exact zpow_pos' hb _
  | cons d ds ih =>
    have hrest := ih (fun d' hd => h d' (mem_cons_of_mem _ hd)) (w - 1)
    rw [sub_add_cancel] at hrest
    have hd : (d : ℚ) + 1 ≤ b := by
      exact_mod_cast h d mem_cons_self
    have hpow := zpow_sub_one_mul hb (w + 1)
    rw [add_sub_cancel_right] at hpow
    have hpos := zpow_pos' hb w
    rw [val_cons, ← hpow]
    nlinarith

variable (ds : List ℕ)

section ToNat

def toNat (b : ℕ) (ds : List ℕ) : ℕ := ds.foldl (fun n d => n * b + d) 0

@[simp]
theorem toNat_nil : toNat b [] = 0 := rfl

theorem toNat_append_singleton (d : ℕ) : toNat b (ds ++ [d]) = toNat b ds * b + d := by
  unfold toNat
  rw [foldl_append]
  rfl

theorem toNat_append (xs ys : List ℕ) : toNat b (xs ++ ys) = toNat b xs * b ^ ys.length + toNat b ys := by
  induction ys using List.reverseRecOn with
  | nil => simp
  | append_singleton ys y ih =>
    rw [← append_assoc, toNat_append_singleton, toNat_append_singleton, ih, length_append,
      length_singleton, pow_succ]
    ring

theorem toNat_take_le (n : ℕ) : toNat b (ds.take n) * b ^ (ds.length - n) ≤ toNat b ds := by
  conv_rhs => rw [← take_append_drop n ds]
  rw [toNat_append, length_drop]
  omega

theorem toNat_lt (h : ∀ d ∈ ds, d < b) : toNat b ds < b ^ ds.length := by
  induction ds using List.reverseRecOn with
  | nil => exact Nat.one_pos
  | append_singleton ds d ih =>
    have hrest := ih (fun d' hd => h d' (mem_append_left _ hd))
    have hd := h d (mem_append_right _ mem_cons_self)
    rw [toNat_append_singleton, length_append, length_singleton, pow_succ]
    calc toNat b ds * b + d < toNat b ds * b + b := by omega
      _ = (toNat b ds + 1) * b := by ring
      _ ≤ b ^ ds.length * b := Nat.mul_le_mul_right b hrest

theorem val_eq_toNat (hb : 0 < b) (ds : List ℕ) (w : ℤ)
    : val b ds w = toNat b ds * (b : ℚ) ^ (w - ds.length + 1) := by
  have hne : (b : ℚ) ≠ 0 := by exact_mod_cast hb.ne'
  induction ds using List.reverseRecOn with
  | nil => simp
  | append_singleton ds d ih =>
    have hpow : (b : ℚ) ^ (w - ds.length + 1) = b * (b : ℚ) ^ (w - ds.length) := by
      rw [zpow_add_one₀ hne, mul_comm]
    have hplace : w - ((ds ++ [d]).length : ℤ) + 1 = w - ds.length := by
      rw [length_append, length_singleton]
      push_cast
      ring
    rw [val_append, ih, toNat_append_singleton, val_cons, val_nil, hplace, hpow]
    push_cast
    ring

end ToNat

section Stripped

structure Stripped (ds : List ℕ) : Prop where
  head : ∀ d ∈ ds.head?, d ≠ 0
  last : ∀ d ∈ ds.getLast?, d ≠ 0

theorem val_pos_of_last (hb : 0 < b) (ds : List ℕ) (hne : ds ≠ []) (hlast : ∀ d ∈ ds.getLast?, d ≠ 0) (w : ℤ)
    : 0 < val b ds w := by
  have hpos : ∀ p : ℤ, 0 < (b : ℚ) ^ p := by
    intro p
    apply zpow_pos
    exact_mod_cast hb
  obtain ⟨ds, d, rfl⟩ := eq_nil_or_concat ds |>.resolve_left hne
  have hd : d ≠ 0 := by
    apply hlast
    rw [concat_eq_append, getLast?_append]
    rfl
  have hd' : (0 : ℚ) < d := by exact_mod_cast Nat.pos_of_ne_zero hd
  have hrest := val_nonneg (b := b) ds w
  rw [concat_eq_append, val_append, val_cons, val_nil, add_zero]
  have hplace := hpos (w - ds.length)
  positivity

theorem val_inj (hb : 1 < b) (ds : List ℕ)
    : ∀ (es : List ℕ) (w : ℤ), (∀ d ∈ ds, d < b) → (∀ e ∈ es, e < b) → (∀ d ∈ ds.getLast?, d ≠ 0) →
        (∀ e ∈ es.getLast?, e ≠ 0) → val b ds w = val b es w → ds = es := by
  have hpos : 0 < b := by omega
  induction ds with
  | nil =>
    intro es w _ _ _ hlast heq
    by_contra hne
    have hval := val_pos_of_last hpos es (Ne.symm hne) hlast w
    rw [← heq, val_nil] at hval
    exact lt_irrefl _ hval
  | cons d ds ih =>
    intro es w hds hes hlast hlast' heq
    cases es with
    | nil =>
      have hval := val_pos_of_last hpos (d :: ds) (cons_ne_nil _ _) hlast w
      rw [heq, val_nil] at hval
      exact absurd hval (lt_irrefl _)
    | cons e es =>
      have hrest := val_lt hb ds (fun d' h => hds d' (mem_cons_of_mem _ h)) (w - 1)
      have hrest' := val_lt hb es (fun e' h => hes e' (mem_cons_of_mem _ h)) (w - 1)
      have hnonneg := val_nonneg (b := b) ds (w - 1)
      have hnonneg' := val_nonneg (b := b) es (w - 1)
      have hunit := zpow_pos' hb w
      rw [sub_add_cancel] at hrest hrest'
      rw [val_cons, val_cons] at heq
      have hde : d = e := by
        have hlt : (d : ℚ) < e + 1 := by
          by_contra hge
          nlinarith
        have hlt' : (e : ℚ) < d + 1 := by
          by_contra hge
          nlinarith
        have hle : d < e + 1 := by exact_mod_cast hlt
        have hle' : e < d + 1 := by exact_mod_cast hlt'
        omega
      subst hde
      have hshorter : ∀ {d : ℕ} {ds : List ℕ}, (∀ d' ∈ (d :: ds).getLast?, d' ≠ 0) → ∀ d' ∈ ds.getLast?,
        d' ≠ 0 := by
        intro d ds h d' hd'
        apply h
        cases ds with
        | nil => cases hd'
        | cons d'' ds => exact hd'
      rw [ih es (w - 1) (fun d' h => hds d' (mem_cons_of_mem _ h))
        (fun e' h => hes e' (mem_cons_of_mem _ h)) (hshorter hlast) (hshorter hlast') (by linarith)]

theorem le_val_of_head {d : ℕ} {ds : List ℕ} (hd : d ≠ 0) (w : ℤ) : (b : ℚ) ^ w ≤ val b (d :: ds) w := by
  have hone : (1 : ℚ) ≤ d := by exact_mod_cast Nat.pos_of_ne_zero hd
  have hrest := val_nonneg (b := b) ds (w - 1)
  have hunit : (0 : ℚ) ≤ (b : ℚ) ^ w := by positivity
  rw [val_cons]
  nlinarith

theorem weight_le (hb : 1 < b) {ds es : List ℕ} {w v : ℤ} (hne : ds ≠ []) (hhead : ∀ d ∈ ds.head?, d ≠ 0)
    (hes : ∀ e ∈ es, e < b) (heq : val b ds w = val b es v) : w ≤ v := by
  cases ds with
  | nil => contradiction
  | cons d ds =>
    have hle : (b : ℚ) ^ w ≤ val b (d :: ds) w := le_val_of_head (hhead d rfl) w
    have hlt := val_lt hb es hes v
    have hpow : (b : ℚ) ^ w < (b : ℚ) ^ (v + 1) := by
      rw [heq] at hle
      exact lt_of_le_of_lt hle hlt
    have hb' : (1 : ℚ) < b := by exact_mod_cast hb
    have hexp := (zpow_lt_zpow_iff_right₀ hb').1 hpow
    omega

theorem stripped_inj (hb : 1 < b) {ds es : List ℕ} {w v : ℤ} (hne : ds ≠ []) (hds : ∀ d ∈ ds, d < b)
    (hes : ∀ e ∈ es, e < b) (hstripped : Stripped ds) (hstripped' : Stripped es)
      (heq : val b ds w = val b es v)
    : ds = es ∧ w = v := by
  have hpos : 0 < b := by omega
  have hne' : es ≠ [] := by
    intro hnil
    have hval := val_pos_of_last hpos ds hne hstripped.last w
    rw [heq, hnil, val_nil] at hval
    exact lt_irrefl _ hval
  have hweight : w = v := by
    apply le_antisymm
    . exact weight_le hb hne hstripped.head hes heq
    . exact weight_le hb hne' hstripped'.head hds heq.symm
  subst hweight
  exact And.intro (val_inj hb ds es w hds hes hstripped.last hstripped'.last heq) rfl

end Stripped

end Digits

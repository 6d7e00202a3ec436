import Mathlib.Data.List.Lex
import Mathlib.Order.Lattice

/-!
This module contains the comparison of two lists by the first element in which they differ.
-/

open List

namespace FirstDifference

variable {α : Type} [LinearOrder α]

theorem nil_le (ys : List α) : [] ≤ ys := by
  rw [← not_lt]
  apply not_lt_nil

theorem not_cons_le_nil (x : α) (xs : List α) : ¬ x :: xs ≤ [] := by
  rw [not_le]
  apply nil_lt_cons

theorem cons_le_cons_iff {x y : α} {xs ys : List α} : x :: xs ≤ y :: ys ↔ x < y ∨ x = y ∧ xs ≤ ys := by
  rw [← not_lt, cons_lt_cons_iff, ← not_lt]
  rcases lt_trichotomy x y with h | h | h
  . simp [h, lt_asymm h, ne_of_gt h]
  . simp [h]
  . simp [h, lt_asymm h, ne_of_gt h]

theorem le_nil_iff {xs : List α} : xs ≤ [] ↔ xs = [] := by
  cases xs with
  | nil => simp
  | cons x xs => simp [not_cons_le_nil]

def Below : List α → List α → Prop
  | x :: xs, y :: ys => x < y ∨ x = y ∧ Below xs ys
  | _, _ => False

@[simp]
theorem not_below_nil (xs : List α) : ¬ Below xs [] := by
  cases xs <;> simp [Below]

@[simp]
theorem not_nil_below (ys : List α) : ¬ Below [] ys := by
  simp [Below]

@[simp]
theorem cons_below_cons {x y : α} {xs ys : List α}
    : Below (x :: xs) (y :: ys) ↔ x < y ∨ x = y ∧ Below xs ys := by
  simp [Below]

theorem lt_of_below {xs ys : List α} (hbelow : Below xs ys) : xs < ys := by
  induction xs generalizing ys with
  | nil => simp at hbelow
  | cons x xs ih =>
    cases ys with
    | nil => simp at hbelow
    | cons y ys =>
      rw [cons_below_cons] at hbelow
      rw [cons_lt_cons_iff]
      rcases hbelow with hlt | ⟨heq, hbelow⟩
      . exact Or.inl hlt
      . exact Or.inr ⟨heq, ih hbelow⟩

theorem below_or_isPrefix_of_lt {xs ys : List α} (hlt : xs < ys) : Below xs ys ∨ xs <+: ys := by
  induction xs generalizing ys with
  | nil => simp
  | cons x xs ih =>
    cases ys with
    | nil => simp at hlt
    | cons y ys =>
      rw [cons_lt_cons_iff] at hlt
      rw [cons_below_cons, cons_prefix_cons]
      rcases hlt with hlt | ⟨heq, hlt⟩
      . exact Or.inl (Or.inl hlt)
      . rcases ih hlt with hbelow | hpre
        . exact Or.inl (Or.inr ⟨heq, hbelow⟩)
        . exact Or.inr ⟨heq, hpre⟩

theorem below_of_below_of_le {xs ys zs : List α} (hbelow : Below xs ys) (hle : ys ≤ zs) : Below xs zs := by
  induction xs generalizing ys zs with
  | nil => simp at hbelow
  | cons x xs ih =>
    cases ys with
    | nil => simp at hbelow
    | cons y ys =>
      cases zs with
      | nil => exact absurd hle (not_cons_le_nil y ys)
      | cons z zs =>
        rw [cons_below_cons] at hbelow ⊢
        rw [cons_le_cons_iff] at hle
        rcases hbelow with hxy | ⟨hxy, hbelow⟩
        . rcases hle with hyz | ⟨hyz, _⟩
          . exact Or.inl (lt_trans hxy hyz)
          . exact Or.inl (hyz ▸ hxy)
        . rcases hle with hyz | ⟨hyz, hle⟩
          . exact Or.inl (hxy ▸ hyz)
          . exact Or.inr ⟨hxy.trans hyz, ih hbelow hle⟩

theorem le_of_isPrefix {xs ys : List α} (hpre : xs <+: ys) : xs ≤ ys := by
  induction xs generalizing ys with
  | nil => apply nil_le
  | cons x xs ih =>
    cases ys with
    | nil => simp at hpre
    | cons y ys =>
      rw [cons_prefix_cons] at hpre
      rw [cons_le_cons_iff]
      exact Or.inr ⟨hpre.1, ih hpre.2⟩

theorem not_below_of_isPrefix {xs ys : List α} (hpre : ys <+: xs) : ¬ Below xs ys := by
  intro hbelow
  exact absurd (lt_of_below hbelow) (not_lt.mpr (le_of_isPrefix hpre))

section Take

theorem below_of_below_take {xs ys : List α} {n : Nat} (hbelow : Below xs (ys.take n)) : Below xs ys := by
  apply below_of_below_of_le hbelow
  apply le_of_isPrefix
  apply take_prefix

theorem below_take_of_below {xs ys : List α} {n : Nat} (hlen : xs.length ≤ n) (hbelow : Below xs ys)
    : Below xs (ys.take n) := by
  induction xs generalizing ys n with
  | nil => simp at hbelow
  | cons x xs ih =>
    cases ys with
    | nil => simp at hbelow
    | cons y ys =>
      cases n with
      | zero => simp at hlen
      | succ n =>
        rw [cons_below_cons] at hbelow
        rw [take_succ_cons, cons_below_cons]
        rcases hbelow with hlt | ⟨heq, hbelow⟩
        . exact Or.inl hlt
        . exact Or.inr ⟨heq, ih (Nat.le_of_succ_le_succ hlen) hbelow⟩

theorem take_le_take {xs ys : List α} (n : Nat) (hle : xs ≤ ys) : xs.take n ≤ ys.take n := by
  induction xs generalizing ys n with
  | nil =>
    rw [take_nil]
    apply nil_le
  | cons x xs ih =>
    cases ys with
    | nil => exact absurd hle (not_cons_le_nil x xs)
    | cons y ys =>
      cases n with
      | zero => simp
      | succ n =>
        rw [cons_le_cons_iff] at hle
        rw [take_succ_cons, take_succ_cons, cons_le_cons_iff]
        rcases hle with hlt | ⟨heq, hle⟩
        . exact Or.inl hlt
        . exact Or.inr ⟨heq, ih n hle⟩

end Take

section Trim

variable (blank : α)

def trim : List α → List α
  | [] => []
  | x :: xs => if x = blank ∧ trim xs = [] then [] else x :: trim xs

theorem trim_isPrefix (xs : List α) : trim blank xs <+: xs := by
  induction xs with
  | nil => simp [trim]
  | cons x xs ih =>
    unfold trim
    split
    . simp
    . rw [cons_prefix_cons]
      exact ⟨rfl, ih⟩

variable {blank}

theorem trim_lt_trim_iff {xs ys : List α} (hbelow : Below xs ys)
    : trim blank ys < trim blank xs ↔ ¬ Below xs (trim blank ys) := by
  induction xs generalizing ys with
  | nil => simp at hbelow
  | cons x xs ih =>
    cases ys with
    | nil => simp at hbelow
    | cons y ys =>
      rw [cons_below_cons] at hbelow
      rcases hbelow with hlt | ⟨rfl, hbelow⟩
      . have hne : x ≠ y := ne_of_lt hlt
        unfold trim
        split
        . next hys =>
          have hx : ¬ (x = blank ∧ trim blank xs = []) := by
            intro hx
            exact hne (hx.1.trans hys.1.symm)
          simp [hx]
        . split
          . simp [hlt]
          . simp [hlt, cons_lt_cons_iff, lt_asymm hlt, hne.symm]
      . have hih := ih hbelow
        unfold trim
        split
        . next hys =>
          rw [hys.2] at hih
          have hxs : trim blank xs ≠ [] := by
            intro hnil
            simp [hnil] at hih
          simp [hxs]
        . next hys =>
          split
          . next hxs =>
            rw [hxs.2] at hih
            simp only [cons_below_cons, lt_self_iff_false, true_and, false_or, ← hih]
            simp
          . simp [hih]

theorem not_below_of_trim_eq {xs ys : List α} (heq : trim blank xs = trim blank ys) : ¬ Below xs ys := by
  intro hbelow
  have hlt := @trim_lt_trim_iff _ _ blank _ _ hbelow
  rw [← heq] at hlt
  have hbelow' : Below xs (trim blank xs) := by
    by_contra hnot
    exact lt_irrefl _ (hlt.mpr hnot)
  exact not_below_of_isPrefix (trim_isPrefix blank xs) hbelow'

theorem trim_le_trim_of_isPrefix {xs ys : List α} (hpre : xs <+: ys) : trim blank xs ≤ trim blank ys := by
  induction xs generalizing ys with
  | nil => apply nil_le
  | cons x xs ih =>
    cases ys with
    | nil => simp at hpre
    | cons y ys =>
      rw [cons_prefix_cons] at hpre
      obtain ⟨rfl, hpre⟩ := hpre
      have hle := ih hpre
      unfold trim
      split
      . apply nil_le
      . next hxs =>
        split
        . next hys =>
          rw [hys.2, le_nil_iff] at hle
          exact absurd ⟨hys.1, hle⟩ hxs
        . rw [cons_le_cons_iff]
          exact Or.inr ⟨rfl, hle⟩

end Trim

end FirstDifference

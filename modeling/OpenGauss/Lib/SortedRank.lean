import Mathlib.Data.List.Basic
import Mathlib.Order.Lattice

/-!
This module counts in sorted lists.
-/

open List

namespace SortedRank

section Descending

variable {α : Type} [LinearOrder α]

def sortDescending (l : List α) : List α :=
  l.mergeSort (fun a b => b ≤ a)

variable (l : List α)

theorem sortDescending_perm : (sortDescending l).Perm l :=
  mergeSort_perm l _

@[simp]
theorem length_sortDescending : (sortDescending l).length = l.length :=
  (sortDescending_perm l).length_eq

theorem pairwise_sortDescending : (sortDescending l).Pairwise (fun a b => b ≤ a) := by
  have hsorted := @List.pairwise_mergeSort _ (fun a b : α => decide (b ≤ a)) (by
      intro a b c hab hbc
      simp only [decide_eq_true_eq] at hab hbc ⊢
      exact le_trans hbc hab)
    (by
      intro a b
      simp only [Bool.or_eq_true, decide_eq_true_eq]
      exact le_total b a) l
  apply List.Pairwise.imp _ hsorted
  intro a b hab
  simpa using hab

theorem le_getElem_iff (hl : l.Pairwise (fun a b => b ≤ a)) (p : α)
    : ∀ (idx : Nat) (hidx : idx < l.length), p ≤ l[idx] ↔ idx < l.countP (p ≤ ·) := by
  induction l with
  | nil =>
    intro idx hidx
    simp at hidx
  | cons a l ih =>
    intro idx hidx
    rw [pairwise_cons] at hl
    have ih := ih hl.right
    by_cases hp : p ≤ a
    . rw [countP_cons_of_pos (by simpa using hp)]
      cases idx with
      | zero => simp [hp]
      | succ idx =>
        rw [getElem_cons_succ, ih idx (by simpa using hidx)]
        omega
    . have hnone : (a :: l).countP (p ≤ ·) = 0 := by
        rw [countP_eq_zero]
        intro b hb
        simp only [mem_cons] at hb
        simp only [decide_eq_true_eq, not_le]
        cases hb with
        | inl hb =>
          rw [hb]
          exact not_le.mp hp
        | inr hb => exact lt_of_le_of_lt (hl.left b hb) (not_le.mp hp)
      rw [hnone]
      simp only [Nat.not_lt_zero, iff_false, not_le]
      cases idx with
      | zero => exact not_le.mp hp
      | succ idx =>
        rw [getElem_cons_succ]
        exact lt_of_le_of_lt (hl.left _ (getElem_mem _)) (not_le.mp hp)

theorem le_sortDescending_iff (p : α) (idx : Nat) (hidx : idx < (sortDescending l).length)
    : p ≤ (sortDescending l)[idx] ↔ idx < l.countP (p ≤ ·) := by
  rw [le_getElem_iff _ (pairwise_sortDescending l), (sortDescending_perm l).countP_eq]

end Descending

section Ascending

variable {α : Type}

theorem mem_take_iff (lt : α → α → Bool) (hirrefl : ∀ a, lt a a = false)
    (hasymm : ∀ a b, lt a b = true → lt b a = false) (l : List α)
    (hl : l.Pairwise (fun a b => lt a b = true))
    : ∀ (n : Nat) (a : α), a ∈ l.take n ↔ a ∈ l ∧ l.countP (lt · a) < n := by
  induction l with
  | nil =>
    intro n a
    simp
  | cons b l ih =>
    intro n a
    rw [pairwise_cons] at hl
    cases n with
    | zero => simp
    | succ n =>
      rw [take_succ_cons, mem_cons, mem_cons, ih hl.right]
      by_cases hab : a = b
      . subst hab
        have hnone : (a :: l).countP (lt · a) = 0 := by
          rw [countP_eq_zero]
          intro c hc
          rw [mem_cons] at hc
          cases hc with
          | inl hc => simp [hc, hirrefl]
          | inr hc => simp [hasymm _ _ (hl.left c hc)]
        simp [hnone]
      . simp only [hab, false_or]
        apply and_congr_right
        intro ha
        rw [countP_cons_of_pos (p := fun c => lt c a) (hl.left a ha)]
        omega

end Ascending

end SortedRank

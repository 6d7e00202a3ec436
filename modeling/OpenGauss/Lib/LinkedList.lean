import Mathlib.Data.List.Chain
import Mathlib.Data.List.Nodup

/-!
This module contains doubly linked lists in a heap.
-/

open List

namespace LinkedList

variable {α : Type}

def Linked (next prev : α → Option α) (l : List α) : Prop :=
  l.IsChain (fun a b => next a = some b ∧ prev b = some a)

variable {next prev next' prev' : α → Option α}

theorem Linked.append {l₁ l₂ : List α} (h₁ : Linked next prev l₁) (h₂ : Linked next prev l₂) {a b : α}
    (ha : l₁.getLast? = some a) (hb : l₂.head? = some b) (hnext : next a = some b) (hprev : prev b = some a)
    : Linked next prev (l₁ ++ l₂) := by
  unfold Linked
  rw [isChain_append]
  refine ⟨h₁, h₂, ?_⟩
  intro x hx y hy
  rw [ha, Option.mem_some_iff] at hx
  rw [hb, Option.mem_some_iff] at hy
  rw [← hx, ← hy]
  exact ⟨hnext, hprev⟩

theorem Linked.left {l₁ l₂ : List α} (h : Linked next prev (l₁ ++ l₂)) : Linked next prev l₁ :=
  List.IsChain.left_of_append h

theorem Linked.right {l₁ l₂ : List α} (h : Linked next prev (l₁ ++ l₂)) : Linked next prev l₂ :=
  List.IsChain.right_of_append h

theorem Linked.link {l₁ l₂ : List α} (h : Linked next prev (l₁ ++ l₂)) {a b : α}
    (ha : l₁.getLast? = some a) (hb : l₂.head? = some b)
    : next a = some b ∧ prev b = some a :=
  (isChain_append.mp h).right.right a ha b hb

/--
A part keeps its links when only the last node gets another successor and only the first one another
predecessor.
-/
theorem Linked.congr {l : List α} (hnodup : l.Nodup) (h : Linked next prev l)
    (hnext : ∀ x, x ∈ l → l.getLast? ≠ some x → next' x = next x)
    (hprev : ∀ x, x ∈ l → l.head? ≠ some x → prev' x = prev x)
    : Linked next' prev' l := by
  induction l with
  | nil => exact isChain_nil
  | cons a l ih =>
    cases l with
    | nil => exact isChain_singleton a
    | cons b l =>
      unfold Linked at h ⊢
      rw [isChain_cons_cons] at h ⊢
      have hne : a ≠ b := by
        intro hab
        rw [hab] at hnodup
        simp at hnodup
      constructor
      . rw [hnext a (by simp), hprev b (by simp) (by simpa using hne)]
        . exact h.left
        . rw [getLast?_cons_cons]
          intro hlast
          exact (nodup_cons.mp hnodup).left (mem_of_getLast? hlast)
      . apply ih (nodup_cons.mp hnodup).right h.right
        . intro x hx hlast
          apply hnext x (mem_cons_of_mem a hx)
          rwa [getLast?_cons_cons]
        . intro x hx hhead
          apply hprev x (mem_cons_of_mem a hx)
          intro hax
          rw [head?_cons, Option.some.injEq] at hax
          rw [← hax] at hx
          exact (nodup_cons.mp hnodup).left hx

variable {l₁ l₂ l₃ l₄ : List α} {a u u' v v' c : α}

/--
The parts `l₂` and `l₃` change places, only the nodes at their ends get other links.
-/
theorem Linked.swap (h : Linked next prev (l₁ ++ l₂ ++ l₃ ++ l₄)) (hnodup : (l₁ ++ l₂ ++ l₃ ++ l₄).Nodup)
    (ha : l₁.getLast? = some a) (hu : l₂.head? = some u) (hu' : l₂.getLast? = some u')
    (hv : l₃.head? = some v) (hv' : l₃.getLast? = some v') (hc : l₄.head? = some c)
    (hnexta : next' a = some v) (hnextv : next' v' = some u) (hnextu : next' u' = some c)
    (hprevv : prev' v = some a) (hprevu : prev' u = some v') (hprevc : prev' c = some u')
    (hnext : ∀ x, x ≠ a → x ≠ u' → x ≠ v' → next' x = next x)
    (hprev : ∀ x, x ≠ u → x ≠ v → x ≠ c → prev' x = prev x)
    : Linked next' prev' (l₁ ++ l₃ ++ l₂ ++ l₄) := by
  have hma := mem_of_getLast? ha
  have hmu := mem_of_head? hu
  have hmu' := mem_of_getLast? hu'
  have hmv := mem_of_head? hv
  have hmv' := mem_of_getLast? hv'
  have hmc := mem_of_head? hc
  simp only [nodup_append, mem_append] at hnodup
  obtain ⟨⟨⟨hn₁, hn₂, h₁₂⟩, hn₃, h₁₃⟩, hn₄, h₁₄⟩ := hnodup
  have hl₁ : Linked next' prev' l₁ := by
    apply Linked.congr hn₁ h.left.left.left
    . intro x hx hlast
      apply hnext x
      . intro hxa
        exact hlast (hxa ▸ ha)
      . exact h₁₂ x hx u' hmu'
      . exact h₁₃ x (.inl hx) v' hmv'
    . intro x hx _
      exact hprev x (h₁₂ x hx u hmu) (h₁₃ x (.inl hx) v hmv) (h₁₄ x (.inl (.inl hx)) c hmc)
  have hl₂ : Linked next' prev' l₂ := by
    apply Linked.congr hn₂ h.left.left.right
    . intro x hx hlast
      apply hnext x
      . exact (h₁₂ a hma x hx).symm
      . intro hxu
        exact hlast (hxu ▸ hu')
      . exact h₁₃ x (.inr hx) v' hmv'
    . intro x hx hhead
      apply hprev x
      . intro hxu
        exact hhead (hxu ▸ hu)
      . exact h₁₃ x (.inr hx) v hmv
      . exact h₁₄ x (.inl (.inr hx)) c hmc
  have hl₃ : Linked next' prev' l₃ := by
    apply Linked.congr hn₃ h.left.right
    . intro x hx hlast
      apply hnext x
      . exact (h₁₃ a (.inl hma) x hx).symm
      . exact (h₁₃ u' (.inr hmu') x hx).symm
      . intro hxv
        exact hlast (hxv ▸ hv')
    . intro x hx hhead
      apply hprev x
      . exact (h₁₃ u (.inr hmu) x hx).symm
      . intro hxv
        exact hhead (hxv ▸ hv)
      . exact h₁₄ x (.inr hx) c hmc
  have hl₄ : Linked next' prev' l₄ := by
    apply Linked.congr hn₄ h.right
    . intro x hx _
      exact hnext x (h₁₄ a (.inl (.inl hma)) x hx).symm (h₁₄ u' (.inl (.inr hmu')) x hx).symm
        (h₁₄ v' (.inr hmv') x hx).symm
    . intro x hx hhead
      apply hprev x
      . exact (h₁₄ u (.inl (.inr hmu)) x hx).symm
      . exact (h₁₄ v (.inr hmv) x hx).symm
      . intro hxc
        exact hhead (hxc ▸ hc)
  have hl₁₃ := hl₁.append hl₃ ha hv hnexta hprevv
  have hl₁₃₂ := hl₁₃.append hl₂ (by rw [getLast?_append, hv', Option.some_or]) hu hnextv hprevu
  exact hl₁₃₂.append hl₄ (by rw [getLast?_append, hu', Option.some_or]) hc hnextu hprevc

end LinkedList

import Mathlib.Data.List.Basic
import Mathlib.Order.Lattice

/-!
This module contains version chains.
-/

open List

namespace VersionChain

variable {V C : Type} [LinearOrder C] (stamp : V → C) {chain : List V}

def visible (snapshot : C) : List V → List V
  | [] => []
  | v :: older => if stamp v < snapshot then v :: older else visible snapshot older

-- A reader once found `seen` in the chain, and all that is above it now has later stamps.
def SeenIn (chain seen : List V) : Prop :=
  ∃ newer, chain = newer ++ seen ∧ ∀ n ∈ newer, ∀ v ∈ seen.head?, stamp v < stamp n

-- The stamps go down, and only tied versions share one.
def Descending (tied : V → V → Prop) (chain : List V) : Prop :=
  chain.Pairwise (fun newer older => stamp older < stamp newer ∨ stamp older = stamp newer ∧ tied newer older)

theorem SeenIn.self (chain : List V) : SeenIn stamp chain chain :=
  ⟨[], rfl, by simp⟩

variable {stamp}

theorem stamp_lt_of_visible {snapshot : C} {v : V}
    (h : v ∈ (visible stamp snapshot chain).head?) : stamp v < snapshot := by
  induction chain with
  | nil => simp [visible] at h
  | cons head older ih =>
    rw [visible] at h
    split at h
    . simp only [head?_cons, Option.mem_def, Option.some.injEq] at h
      subst h
      assumption
    . exact ih h

theorem seenIn_visible (snapshot : C) (chain : List V)
    : SeenIn stamp chain (visible stamp snapshot chain) := by
  induction chain with
  | nil => exact SeenIn.self stamp _
  | cons head older ih =>
    rw [visible]
    split
    . exact SeenIn.self stamp _
    . rename_i hlate
      obtain ⟨newer, hchain, hnewer⟩ := ih
      refine ⟨head :: newer, by rw [cons_append, ← hchain], ?_⟩
      intro n hn v hv
      rcases mem_cons.1 hn with rfl | hn
      . exact lt_of_lt_of_le (stamp_lt_of_visible hv) (not_lt.1 hlate)
      . exact hnewer n hn v hv

theorem SeenIn.push {seen : List V} (h : SeenIn stamp chain seen) (pushed : List V)
    (hpushed : ∀ n ∈ pushed, ∀ v ∈ chain, stamp v < stamp n) : SeenIn stamp (pushed ++ chain) seen := by
  obtain ⟨newer, hchain, hnewer⟩ := h
  refine ⟨pushed ++ newer, by rw [append_assoc, ← hchain], ?_⟩
  intro n hn v hv
  rcases mem_append.1 hn with hn | hn
  . apply hpushed n hn v
    rw [hchain]
    exact mem_append_right _ (mem_of_mem_head? hv)
  . exact hnewer n hn v hv

theorem SeenIn.eq_of_stamp {seen : List V} {v w : V} (h : SeenIn stamp chain seen)
    (hseen : seen.head? = some v) (hchain : chain.head? = some w) (heq : stamp v = stamp w)
    : seen = chain := by
  obtain ⟨newer, happend, hnewer⟩ := h
  cases newer with
  | nil => exact happend.symm
  | cons n newer =>
    rw [happend, cons_append, head?_cons, Option.some.injEq] at hchain
    have hlt := hnewer n mem_cons_self v hseen
    rw [hchain, heq] at hlt
    exact absurd hlt (lt_irrefl _)

theorem Descending.push {tied : V → V → Prop} {pushed : List V} (h : Descending stamp tied chain)
    (hself : Descending stamp tied pushed) (hpushed : ∀ n ∈ pushed, ∀ v ∈ chain, stamp v < stamp n)
    : Descending stamp tied (pushed ++ chain) := by
  apply pairwise_append.2
  exact ⟨hself, h, fun n hn v hv => .inl (hpushed n hn v hv)⟩

end VersionChain

namespace IntervalChain

variable {N V C : Type} [LinearOrder C] (start finish : N → C) (value : N → V) {chain : List N}
variable {n : N} {c : C}

def Holds (c : C) (n : N) : Prop := start n < c ∧ c ≤ finish n

instance (c : C) : DecidablePred (Holds start finish c) :=
  fun n => inferInstanceAs (Decidable (start n < c ∧ c ≤ finish n))

def versionAt (c : C) (chain : List N) : Option N :=
  chain.find? (fun n => Holds start finish c n)

def valueAt (c : C) (chain : List N) : Option V :=
  (versionAt start finish c chain).map value

-- A version ends before the next newer one starts.
structure Descending (chain : List N) : Prop where
  ordered : ∀ n ∈ chain, start n ≤ finish n
  pairwise : chain.Pairwise (fun newer older => finish older ≤ start newer)

variable {start finish value}

section Value

theorem versionAt_eq_none (h : ∀ n ∈ chain, ¬Holds start finish c n)
    : versionAt start finish c chain = none := by
  apply find?_eq_none.2
  intro n hn
  simpa using h n hn

theorem versionAt_eq_none_of_finish_lt (h : ∀ n ∈ chain, finish n < c)
    : versionAt start finish c chain = none := by
  apply versionAt_eq_none
  intro n hn hholds
  exact absurd hholds.2 (not_le.2 (h n hn))

theorem versionAt_eq_none_of_le_start (h : ∀ n ∈ chain, c ≤ start n)
    : versionAt start finish c chain = none := by
  apply versionAt_eq_none
  intro n hn hholds
  exact absurd hholds.1 (not_lt.2 (h n hn))

theorem versionAt_cons_of_holds (chain : List N) (h : Holds start finish c n)
    : versionAt start finish c (n :: chain) = some n := by
  simp [versionAt, h]

theorem versionAt_cons_of_not_holds (chain : List N) (h : ¬Holds start finish c n)
    : versionAt start finish c (n :: chain) = versionAt start finish c chain := by
  simp [versionAt, h]

theorem versionAt_of_cut (c : C) (kept cut : List N)
    : versionAt start finish c kept = none
        ∨ versionAt start finish c kept = versionAt start finish c (kept ++ cut) := by
  rw [versionAt, versionAt, find?_append]
  cases kept.find? (fun n => Holds start finish c n) with
  | none => exact .inl rfl
  | some n => exact .inr rfl

theorem versionAt_append_of_finish_lt {cut : List N} (kept : List N) (h : ∀ n ∈ cut, finish n < c)
    : versionAt start finish c (kept ++ cut) = versionAt start finish c kept := by
  have hcut : versionAt start finish c cut = none := versionAt_eq_none_of_finish_lt h
  rw [versionAt] at hcut
  rw [versionAt, versionAt, find?_append, hcut, Option.or_none]

theorem valueAt_of_close {top top' : N} (older : List N) (hstart : start top' = start top)
    (hvalue : value top' = value top) (h : c ≤ finish top) (h' : c ≤ finish top')
    : valueAt start finish value c (top' :: older) = valueAt start finish value c (top :: older) := by
  by_cases hc : start top < c
  . rw [valueAt, valueAt, versionAt_cons_of_holds older (n := top) ⟨hc, h⟩,
      versionAt_cons_of_holds older (n := top') ⟨hstart ▸ hc, h'⟩, Option.map_some, Option.map_some, hvalue]
  . rw [valueAt, valueAt, versionAt_cons_of_not_holds older (n := top) (fun hholds => hc hholds.1),
      versionAt_cons_of_not_holds older (n := top') (fun hholds => hc (hstart ▸ hholds.1))]

end Value

namespace Descending

theorem nil : Descending start finish ([] : List N) :=
  ⟨by simp, List.Pairwise.nil⟩

theorem push (h : Descending start finish chain) (hn : start n ≤ finish n)
    (hchain : ∀ v ∈ chain, finish v ≤ start n) : Descending start finish (n :: chain) where
  ordered := forall_mem_cons.2 ⟨hn, h.ordered⟩
  pairwise := pairwise_cons.2 ⟨hchain, h.pairwise⟩

section

variable (h : Descending start finish (n :: chain))
include h

theorem tail
    : Descending start finish chain where
  ordered := (forall_mem_cons.1 h.ordered).2
  pairwise := (pairwise_cons.1 h.pairwise).2

theorem finish_le_start : ∀ v ∈ chain, finish v ≤ start n :=
  (pairwise_cons.1 h.pairwise).1

theorem finish_le : ∀ v ∈ n :: chain, finish v ≤ finish n := by
  intro v hv
  rcases mem_cons.1 hv with rfl | hv
  . exact le_refl _
  . exact le_trans (h.finish_le_start v hv) (h.ordered n mem_cons_self)

theorem close {n' : N} (hstart : start n' = start n)
    (hn' : start n' ≤ finish n') : Descending start finish (n' :: chain) :=
  h.tail.push hn' (fun v hv => hstart ▸ h.finish_le_start v hv)

end

theorem kept {cut : List N} (h : Descending start finish (chain ++ cut))
    : Descending start finish chain where
  ordered := fun n hn => h.ordered n (mem_append_left _ hn)
  pairwise := (pairwise_append.1 h.pairwise).1

theorem disjoint (h : Descending start finish chain)
    : chain.Pairwise (fun a b => ∀ c, ¬(Holds start finish c a ∧ Holds start finish c b)) := by
  apply h.pairwise.imp
  intro newer older hle c hholds
  exact absurd hholds.1.1 (not_lt.2 (le_trans hholds.2.2 hle))

theorem versionAt_of_finish_lt (h : Descending start finish (n :: chain))
    (hc : finish n < c) : versionAt start finish c (n :: chain) = none :=
  versionAt_eq_none_of_finish_lt (fun v hv => lt_of_le_of_lt (h.finish_le v hv) hc)

end Descending

end IntervalChain

import Mathlib.Data.List.Induction
import OpenGauss.Replication.StandbyRead.Impl

/-!
This module shows what the walks over the base pages of a block compute when the nodes of the block are linked
in both directions.
-/

open List

namespace StandbyRead

variable (prev : Nat) {next : Nat}

structure Record where
  lsn : Nat
  basePage : Nat
  deriving DecidableEq

structure Entry extends Record where
  pos : Nat

def firstPos (next : Nat) : List Entry → Nat
  | [] => next
  | e :: _ => e.pos

def lastPos (prev : Nat) : List Entry → Nat
  | [] => prev
  | e :: rest => lastPos e.pos rest

@[simp]
theorem firstPos_cons (next : Nat) (e : Entry) (rest : List Entry) : firstPos next (e :: rest) = e.pos := rfl

@[simp]
theorem firstPos_append (next : Nat) (xs ys : List Entry)
    : firstPos next (xs ++ ys) = firstPos (firstPos next ys) xs := by
  cases xs <;> rfl

@[simp]
theorem lastPos_append (xs ys : List Entry)
    : lastPos prev (xs ++ ys) = lastPos (lastPos prev xs) ys := by
  induction xs generalizing prev with
  | nil => rfl
  | cons e rest ih => exact ih e.pos

theorem lastPos_congr (prev' : Nat) (xs : List Entry) (hne : xs ≠ [])
    : lastPos prev xs = lastPos prev' xs := by
  match xs, hne with
  | e :: rest, _ => rfl

theorem lastPos_mem (xs : List Entry) (hne : xs ≠ []) : ∃ e ∈ xs, lastPos prev xs = e.pos := by
  rcases eq_nil_or_concat xs with hnil | ⟨ys, e, hxs⟩
  . exact absurd hnil hne
  . rw [hxs, concat_eq_append]
    exact ⟨e, by simp, by simp [lastPos]⟩

def Before (a b : Entry) : Prop :=
  a.pos < b.pos ∧ a.lsn ≤ b.lsn

namespace State

variable {Tag : Type}

structure Holds (s : State Tag) (tag : Tag) (prev next : Nat) (e : Entry) : Prop where
  node : ∃ node, s.nodes e.pos = some node ∧ node.valid = true ∧ node.tag = tag ∧ node.lsn = e.lsn
    ∧ node.basePagePosition = e.basePage ∧ node.basePageList = ⟨next, prev⟩

def Segment (s : State Tag) (tag : Tag) : Nat → List Entry → Nat → Prop
  | _, [], _ => True
  | prev, e :: rest, next => s.Holds tag prev (firstPos next rest) e ∧ s.Segment tag e.pos rest next

variable (s s' : State Tag) (tag : Tag)

theorem Segment_append (next : Nat) (xs ys : List Entry)
    : s.Segment tag prev (xs ++ ys) next
        ↔ s.Segment tag prev xs (firstPos next ys) ∧ s.Segment tag (lastPos prev xs) ys next := by
  induction xs generalizing prev with
  | nil => simp [Segment, lastPos]
  | cons e rest ih => simp only [cons_append, Segment, firstPos_append, ih, lastPos, and_assoc]

theorem Holds.congr {prev : Nat} {e : Entry} (h : s.Holds tag prev next e)
    (hsame : ∀ node, s.nodes e.pos = some node → node.tag = tag → s'.nodes e.pos = some node)
    : s'.Holds tag prev next e := by
  rcases h.node with ⟨node, hnode, hvalid, htag, hrest⟩
  exact ⟨⟨node, hsame node hnode htag, hvalid, htag, hrest⟩⟩

theorem Segment.congr {prev : Nat} {xs : List Entry} (h : s.Segment tag prev xs next)
    (hsame : ∀ e ∈ xs, ∀ node, s.nodes e.pos = some node → node.tag = tag → s'.nodes e.pos = some node)
    : s'.Segment tag prev xs next := by
  induction xs generalizing prev with
  | nil => trivial
  | cons e rest ih =>
    apply And.intro
    . exact h.left.congr s s' tag (hsame e (by simp))
    . exact ih h.right (fun e he => hsame e (by simp [he]))

theorem Segment.holds {prev : Nat} {xs : List Entry} (h : s.Segment tag prev xs next) (e : Entry)
    (he : e ∈ xs) : ∃ prev next, s.Holds tag prev next e := by
  induction xs generalizing prev with
  | nil => simp at he
  | cons first rest ih =>
    rcases mem_cons.mp he with heq | hmem
    . rw [heq]
      exact ⟨_, _, h.left⟩
    . exact ih h.right hmem

/-! ### Reading -/

theorem getNearestBasePagePos_segment (list : DoubleList) (readLsn fuel : Nat) (xs : List Entry)
    : ∀ (prev next acc : Nat), s.Segment tag prev xs next → xs.Pairwise Before → xs ≠ [] → xs.length ≤ fuel
        → list.next = firstPos listHead xs → (∀ e ∈ xs, e.pos ≠ listHead)
        → s.getNearestBasePagePos list readLsn fuel (lastPos prev xs) acc
          = some (((xs.find? (fun e => readLsn ≤ e.lsn)).map (fun e => e.basePage)).getD acc) := by
  induction xs using List.reverseRecOn generalizing fuel with
  | nil =>
    intro _ _ _ _ _ hne
    exact absurd rfl hne
  | append_singleton ys e ih =>
    intro prev next acc hseg hsorted hne hfuel hlist hpos
    rw [Segment_append] at hseg
    rcases hseg.right.left.node with ⟨node, hnode, -, -, hlsn, hpage, hlinks⟩
    rw [length_append, length_singleton] at hfuel
    match fuel with
    | 0 => omega
    | fuel + 1 =>
      rw [pairwise_append] at hsorted
      have hbefore : ∀ a ∈ ys, Before a e := fun a ha => hsorted.right.right a ha e (mem_singleton_self e)
      simp only [lastPos_append, lastPos, getNearestBasePagePos, hpos e (by simp), if_false, hnode, hlsn, hpage,
        hlinks]
      by_cases hold : e.lsn < readLsn
      . have hnone : (ys ++ [e]).find? (fun e => readLsn ≤ e.lsn) = none := by
          rw [find?_eq_none]
          intro a ha
          rcases mem_append.mp ha with hys | he
          . have := (hbefore a hys).right
            simp only [decide_eq_true_eq]
            omega
          . rw [mem_singleton.mp he]
            simp only [decide_eq_true_eq]
            omega
        rw [if_pos hold, hnone]
        rfl
      . rw [if_neg hold]
        have hfind : (ys ++ [e]).find? (fun e => readLsn ≤ e.lsn)
            = (ys.find? (fun e => readLsn ≤ e.lsn)).or (some e) := by
          rw [find?_append, find?_cons_of_pos (by simpa using hold)]
        rw [hfind]
        cases hys : ys with
        | nil =>
          rw [hys, nil_append, firstPos_cons] at hlist
          rw [if_pos hlist]
          rfl
        | cons first rest =>
          have hfirst : list.next ≠ e.pos := by
            rw [hlist, hys]
            exact Nat.ne_of_lt (hbefore first (by simp [hys])).left
          rw [if_neg hfirst, ← hys]
          rw [ih fuel prev e.pos e.basePage hseg.left hsorted.left (by simp [hys]) (by omega)
            (by rw [hlist, hys]; rfl) (fun a ha => hpos a (by simp [ha]))]
          cases ys.find? (fun e => readLsn ≤ e.lsn) <;> rfl

/-! ### Recycling -/

structure Clears (kept : Nat → Prop) (s s' : State Tag) : Prop where
  other : ∀ pos node, s.nodes pos = some node → node.tag ≠ tag ∨ kept pos → s'.nodes pos = some node
  nodes : ∀ pos node', s'.nodes pos = some node' →
    ∃ node valid, s.nodes pos = some node ∧ node' = { node with valid }
  frame : s' = { s with nodes := s'.nodes }

theorem Clears.refl (kept : Nat → Prop) : Clears tag kept s s where
  other _ _ hnode _ := hnode
  nodes _ node' hnode := ⟨node', node'.valid, hnode, rfl⟩
  frame := rfl

theorem Clears.trans {kept : Nat → Prop} {s s' s'' : State Tag} (h : Clears tag kept s s')
    (h' : Clears tag kept s' s'') : Clears tag kept s s'' where
  other pos node hnode hkeep := h'.other pos node (h.other pos node hnode hkeep) hkeep
  nodes pos node'' hnode := by
    rcases h'.nodes pos node'' hnode with ⟨node', valid', hnode', heq'⟩
    rcases h.nodes pos node' hnode' with ⟨node, valid, hnode, heq⟩
    exact ⟨node, valid', hnode, by rw [heq', heq]⟩
  frame := by rw [h'.frame, h.frame]

theorem Clears.setNode (kept : Nat → Prop) (pos : Nat) (node : BasePageInfo Tag)
    (hnode : s.nodes pos = some node) (htag : node.tag = tag) (hkept : ¬ kept pos)
    : Clears tag kept s (s.setNode pos { node with valid := false }) where
  other p n hn hkeep := by
    have hp : p ≠ pos := by
      rintro rfl
      rw [hn, Option.some.injEq] at hnode
      rw [hnode] at hkeep
      exact hkeep.elim (absurd htag) (absurd · hkept)
    rwa [setNode_of_ne s _ hp]
  nodes p n hn := by
    by_cases hp : p = pos
    . rw [hp, setNode_self, Option.some.injEq] at hn
      exact ⟨node, false, by rw [hp, hnode], hn.symm⟩
    . rw [setNode_of_ne s _ hp] at hn
      exact ⟨n, n.valid, hn, rfl⟩
  frame := rfl

theorem recycleOneLsnInfoList_segment (recycleLsn fuel : Nat) (xs : List Entry)
    : ∀ (s : State Tag) (prev next minPos minLsn : Nat) (r : Nat × Nat × State Tag),
        s.Segment tag prev xs next → (∀ e ∈ xs, e.pos ≠ listHead ∧ e.lsn ≠ 0) → xs.Pairwise Before
        → (∃ e ∈ xs, recycleLsn ≤ e.lsn)
        → recycleOneLsnInfoList false recycleLsn fuel s (firstPos next xs) minPos minLsn = some r
        → ∃ cut kept, xs = cut ++ kept ∧ kept ≠ [] ∧ (∀ e ∈ cut, e.lsn < recycleLsn)
          ∧ (∀ e ∈ kept, recycleLsn ≤ e.lsn)
          ∧ r.1 = firstPos next kept ∧ Clears tag (fun pos => ∃ e ∈ kept, e.pos = pos) s r.2.2 := by
  induction xs generalizing fuel with
  | nil =>
    rintro s prev next minPos minLsn r - - - ⟨e, he, -⟩
    simp at he
  | cons e rest ih =>
    intro s prev next minPos minLsn r hseg hpos hsorted hkeep hrun
    rcases hseg.left.node with ⟨node, hnode, -, htag, hlsn, -, hlinks⟩
    match fuel with
    | 0 => simp [recycleOneLsnInfoList] at hrun
    | fuel + 1 =>
      have hfirst := hpos e (by simp)
      have hkeeps : keepsInList false recycleLsn node = decide (recycleLsn ≤ e.lsn) := by
        simp [keepsInList, hlsn, hfirst.right]
      have hnext : node.basePageList.next = firstPos next rest := by rw [hlinks]
      simp only [recycleOneLsnInfoList, firstPos_cons, hfirst.left, if_false, hnode, hkeeps, hnext] at hrun
      rw [pairwise_cons] at hsorted
      by_cases hle : recycleLsn ≤ e.lsn
      . rw [if_pos (by simp [hle]), Option.some.injEq] at hrun
        refine ⟨[], e :: rest, rfl, by simp, by simp, ?_, by rw [← hrun]; rfl, ?_⟩
        . intro a ha
          rcases mem_cons.mp ha with heq | hrest
          . rw [heq]
            exact hle
          . exact Nat.le_trans hle (hsorted.left a hrest).right
        . rw [← hrun]
          exact Clears.refl s tag _
      . rw [if_neg (by simp [hle])] at hrun
        have hkeep' : ∃ a ∈ rest, recycleLsn ≤ a.lsn := by
          rcases hkeep with ⟨a, ha, hale⟩
          rcases mem_cons.mp ha with heq | hrest
          . rw [heq] at hale
            exact absurd hale hle
          . exact ⟨a, hrest, hale⟩
        have hne : ∀ a ∈ rest, a.pos ≠ e.pos := fun a ha => Nat.ne_of_gt (hsorted.left a ha).left
        have hseg' : (s.setNode e.pos { node with valid := false }).Segment tag e.pos rest next := by
          apply hseg.right.congr
          intro a ha n hn _
          rwa [setNode_of_ne s _ (hne a ha)]
        rcases ih fuel _ _ _ _ _ r hseg' (fun a ha => hpos a (by simp [ha])) hsorted.right hkeep' hrun with
          ⟨cut, kept, heq, hkept, hcut, hlow, hmin, hclear⟩
        refine ⟨e :: cut, kept, by rw [heq]; rfl, hkept, ?_, hlow, hmin, ?_⟩
        . intro a ha
          rcases mem_cons.mp ha with heq' | hmem
          . rw [heq']
            omega
          . exact hcut a hmem
        . apply Clears.trans tag ?_ hclear
          apply Clears.setNode s tag _ e.pos node hnode htag
          rintro ⟨a, ha, hap⟩
          exact hne a (by rw [heq]; simp [ha]) hap

end State

end StandbyRead

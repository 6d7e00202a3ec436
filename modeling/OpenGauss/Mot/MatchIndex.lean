import OpenGauss.Lib.Bits

/-!
This module contains the clauses that are matched with the columns of an index on a memory
optimized table, from `mot_match_index.cpp`.
-/

open List Function Option

namespace Mot

variable {j : Nat} {α : Type}

inductive KeyOper where
  | readKeyExact
  | readKeyLike
  | readKeyOrNext
  | readKeyAfter
  | readKeyOrPrev
  | readKeyBefore
  | readInvalid
  | readPrefix
  | readPrefixOrNext
  | readPrefixAfter
  | readPrefixOrPrev
  | readPrefixBefore
  | readPrefixLike
  deriving DecidableEq

structure MatchIndex (Expr : Type) where
  colMatch : Fin 2 → Nat → Option Expr
  parentColMatch : Fin 2 → Nat → Option Expr
  opers : Fin 2 → Nat → KeyOper
  numMatches : Fin 2 → Int
  localConds : List Expr

structure Clause (Expr : Type) where
  colNum : Nat
  op : KeyOper
  expr : Expr
  parent : Expr
  setLocal : Bool

def set2 {α : Type} (f : Fin 2 → Nat → α) (i : Fin 2) (j : Nat) (x : α) : Fin 2 → Nat → α :=
  Function.update f i (Function.update (f i) j x)

namespace MatchIndex

variable {Expr : Type}

def init : MatchIndex Expr where
  colMatch _ _ := none
  parentColMatch _ _ := none
  opers _ _ := .readInvalid
  numMatches _ := 0
  localConds := []

def isSameOper (op1 op2 : KeyOper) : Bool :=
  if op1 = op2 then
    true
  else
    match op1 with
    | .readKeyExact => true
    | .readKeyLike => true
    | .readKeyOrNext | .readKeyAfter =>
      match op2 with
      | .readKeyExact | .readKeyLike | .readKeyOrNext | .readKeyAfter => true
      | _ => false
    | .readKeyOrPrev | .readKeyBefore =>
      match op2 with
      | .readKeyExact | .readKeyLike | .readKeyOrPrev | .readKeyBefore => true
      | _ => false
    | _ => true

def setMatch (mi : MatchIndex Expr) (i : Fin 2) (j : Nat) (clause : Clause Expr) : MatchIndex Expr :=
  { mi with
    parentColMatch := set2 mi.parentColMatch i j (some clause.parent)
    colMatch := set2 mi.colMatch i j (some clause.expr)
    opers := set2 mi.opers i j clause.op
    numMatches := Function.update mi.numMatches i (mi.numMatches i + 1) }

def clearMatch [DecidableEq Expr] (mi : MatchIndex Expr) (setLocal : Bool) (i : Fin 2) (j : Nat)
    : MatchIndex Expr :=
  match mi.parentColMatch i j with
  | none => mi
  | some parent =>
    { mi with
      localConds :=
        if setLocal then
          if parent ∈ mi.localConds then mi.localConds else mi.localConds ++ [parent]
        else
          mi.localConds
      parentColMatch := set2 mi.parentColMatch i j none
      colMatch := set2 mi.colMatch i j none
      opers := set2 mi.opers i j .readInvalid
      numMatches := Function.update mi.numMatches i (mi.numMatches i - 1) }

-- The operator is taken from the column `i`, the number of the bound.
def moveSecond (mi : MatchIndex Expr) (i : Fin 2) (j : Nat) : MatchIndex Expr :=
  if i = 0 ∧ (mi.parentColMatch 1 j).isSome then
    { mi with
      parentColMatch := set2 (set2 mi.parentColMatch 0 j (mi.parentColMatch 1 j)) 1 j none
      colMatch := set2 (set2 mi.colMatch 0 j (mi.colMatch 1 j)) 1 j none
      opers := set2 (set2 mi.opers 0 i (mi.opers 1 i)) 1 j .readInvalid }
  else
    mi

def clearPreviousMatch [DecidableEq Expr] (mi : MatchIndex Expr) (setLocal : Bool) (i : Fin 2) (j : Nat)
    : MatchIndex Expr :=
  (mi.clearMatch setLocal i j).moveSecond i j

def setFirst [DecidableEq Expr] (mi : MatchIndex Expr) (j : Nat) (clause : Clause Expr)
    : Bool × MatchIndex Expr :=
  if clause.op = .readKeyExact ∧ mi.opers 0 j ≠ clause.op then
    let mi := mi.clearPreviousMatch clause.setLocal 0 j
    let mi := mi.clearPreviousMatch clause.setLocal 1 j
    (true, mi.setMatch 0 j clause)
  else if mi.opers 0 j ≠ .readKeyExact then
    (false, mi.clearPreviousMatch clause.setLocal 0 j)
  else
    (false, mi)

def setSecond [DecidableEq Expr] (mi : MatchIndex Expr) (j : Nat) (clause : Clause Expr)
    : Bool × MatchIndex Expr :=
  if (mi.colMatch 1 j).isNone then
    (true, mi.setMatch 1 j clause)
  else if isSameOper (mi.opers 1 j) clause.op then
    if clause.op = .readKeyExact ∧ mi.opers 1 j ≠ clause.op then
      (true, (mi.clearPreviousMatch clause.setLocal 1 j).setMatch 1 j clause)
    else if mi.opers 0 j ≠ .readKeyExact then
      (false, mi.clearPreviousMatch clause.setLocal 1 j)
    else
      (false, mi)
  else
    (false, mi)

def setIndexColumn [DecidableEq Expr] (cols : List Nat) (mi : MatchIndex Expr) (clause : Clause Expr)
    : Bool × MatchIndex Expr :=
  match cols.findIdx? (fun col => col = clause.colNum) with
  | none => (false, mi)
  | some j =>
    if (mi.colMatch 0 j).isNone then
      (true, mi.setMatch 0 j clause)
    else if isSameOper (mi.opers 0 j) clause.op then
      mi.setFirst j clause
    else
      mi.setSecond j clause

variable [DecidableEq Expr] (cols : List Nat)

def run : List (Clause Expr) → MatchIndex Expr
  | [] => init
  | clause :: clauses => (setIndexColumn cols (run clauses) clause).2

def result (clause : Clause Expr) (clauses : List (Clause Expr)) : Bool :=
  (setIndexColumn cols (run cols clauses) clause).1

def numSet (mi : MatchIndex Expr) (i : Fin 2) : Nat :=
  Bitmap.ones (fun j => (mi.colMatch i j).isSome) cols.length

def Holds (mi : MatchIndex Expr) (clause : Clause Expr) : Prop :=
  (∃ i j, mi.colMatch i j = some clause.expr ∧ mi.parentColMatch i j = some clause.parent)
    ∨ clause.parent ∈ mi.localConds

structure Entries (clauses : List (Clause Expr)) (mi : MatchIndex Expr) : Prop where
  paired : ∀ i j, (mi.colMatch i j).isSome = (mi.parentColMatch i j).isSome
  opers_none : ∀ i j, mi.colMatch i j = none → mi.opers i j = .readInvalid
  opers_some : ∀ i j expr parent, mi.colMatch i j = some expr → mi.parentColMatch i j = some parent →
    ∃ clause ∈ clauses, clause.expr = expr ∧ clause.parent = parent ∧ clause.op = mi.opers i j
      ∧ cols.findIdx? (fun col => col = clause.colNum) = some j
  count : ∀ i, mi.numMatches i = numSet cols mi i

-- The clauses that were taken are kept unless a later call without `setLocal` could drop them.
def Held (clauses : List (Clause Expr)) (mi : MatchIndex Expr) : Prop :=
  ∀ newer clause older, clauses = newer ++ clause :: older → result cols clause older = true →
    (∀ other ∈ newer, other.setLocal = true) → mi.Holds clause

-- The first bound of the column is given up while there is a second one.
def Demotes (mi : MatchIndex Expr) (clause : Clause Expr) : Prop :=
  ∃ j, cols.findIdx? (fun col => col = clause.colNum) = some j ∧ (mi.colMatch 0 j).isSome
    ∧ (mi.colMatch 1 j).isSome ∧ isSameOper (mi.opers 0 j) clause.op = true ∧ mi.opers 0 j ≠ .readKeyExact

section Steps

variable {cols} {clauses : List (Clause Expr)} {mi : MatchIndex Expr} {clause : Clause Expr}

theorem set2_self (f : Fin 2 → Nat → α) (i : Fin 2) (j : Nat) (x : α) : set2 f i j x i j = x := by
  simp [set2]

theorem set2_of_ne (f : Fin 2 → Nat → α) {i i' : Fin 2} {j' : Nat} (x : α) (h : i' ≠ i ∨ j' ≠ j)
    : set2 f i j x i' j' = f i' j' := by
  unfold set2
  by_cases hi : i' = i
  . subst hi
    rw [update_self, update_of_ne (by simpa using h)]
  . rw [update_of_ne hi]

theorem set2_cases (f : Fin 2 → Nat → α) (i i' : Fin 2) (j j' : Nat) (x : α)
    : (i' = i ∧ j' = j ∧ set2 f i j x i' j' = x) ∨ ((i' ≠ i ∨ j' ≠ j) ∧ set2 f i j x i' j' = f i' j') := by
  by_cases h : i' = i ∧ j' = j
  . obtain ⟨rfl, rfl⟩ := h
    exact Or.inl ⟨rfl, rfl, set2_self _ _ _ _⟩
  . rw [not_and_or] at h
    exact Or.inr ⟨h, set2_of_ne _ _ h⟩

omit [DecidableEq Expr] in
theorem lt_of_findIdx (h : cols.findIdx? (fun col => col = clause.colNum) = some j)
    : j < cols.length := by
  obtain ⟨hlt, -⟩ := findIdx?_eq_some_iff_getElem.mp h
  exact hlt

omit [DecidableEq Expr] in
theorem isSome_set2 (f : Fin 2 → Nat → Option Expr) (i i' : Fin 2) (j : Nat) (x : Option Expr)
    : (fun k => (set2 f i j x i' k).isSome)
        =
      if i' = i then Function.update (fun k => (f i k).isSome) j x.isSome else fun k => (f i' k).isSome := by
  funext k
  unfold set2
  split
  . next h =>
    subst h
    rw [update_self]
    by_cases hk : k = j
    . subst hk
      simp
    . simp [hk]
  . next h => rw [update_of_ne h]

omit [DecidableEq Expr] in
theorem Entries.mono (h : Entries cols clauses mi) (clause : Clause Expr)
    : Entries cols (clause :: clauses) mi := { h with
  opers_some i j expr parent hexpr hparent := by
    obtain ⟨other, hmem, hother⟩ := h.opers_some i j expr parent hexpr hparent
    exact ⟨other, mem_cons_of_mem _ hmem, hother⟩ }

omit [DecidableEq Expr] in
theorem Entries.setMatch (h : Entries cols clauses mi) (i : Fin 2) (j : Nat)
    (hidx : cols.findIdx? (fun col => col = clause.colNum) = some j) (hnone : mi.colMatch i j = none)
    : Entries cols (clause :: clauses) (mi.setMatch i j clause) where
  paired i' j' := by
    unfold MatchIndex.setMatch
    dsimp only
    rcases set2_cases mi.colMatch i i' j j' (some clause.expr) with ⟨rfl, rfl, heq⟩ | ⟨hne, heq⟩
    . rw [heq, set2_self]
      rfl
    . rw [heq, set2_of_ne _ _ hne]
      exact h.paired i' j'
  opers_none i' j' := by
    unfold MatchIndex.setMatch
    dsimp only
    rcases set2_cases mi.colMatch i i' j j' (some clause.expr) with ⟨rfl, rfl, heq⟩ | ⟨hne, heq⟩
    . rw [heq]
      exact fun hsome => absurd hsome (by simp)
    . rw [heq, set2_of_ne _ _ hne]
      exact h.opers_none i' j'
  opers_some i' j' expr parent := by
    unfold MatchIndex.setMatch
    dsimp only
    rcases set2_cases mi.colMatch i i' j j' (some clause.expr) with ⟨rfl, rfl, heq⟩ | ⟨hne, heq⟩
    . rw [heq, set2_self, set2_self, Option.some.injEq, Option.some.injEq]
      intro hexpr hparent
      exact ⟨clause, mem_cons_self, hexpr, hparent, rfl, hidx⟩
    . rw [heq, set2_of_ne _ _ hne, set2_of_ne _ _ hne]
      exact (h.mono clause).opers_some i' j' expr parent
  count i' := by
    have hcount := h.count i'
    unfold MatchIndex.setMatch numSet at *
    dsimp only
    rw [isSome_set2]
    split
    . next heq =>
      subst heq
      rw [update_self, hcount, isSome_some, Bitmap.ones_update_true _ _ _ (lt_of_findIdx hidx)]
      . rfl
      . rw [hnone]
        rfl
    . next hne => rw [update_of_ne hne, hcount]

theorem Entries.clearMatch (h : Entries cols clauses mi) (setLocal : Bool) (i : Fin 2) (j : Nat)
    (hj : j < cols.length)
    : Entries cols clauses (mi.clearMatch setLocal i j) := by
  cases hparent : mi.parentColMatch i j with
  | none =>
    unfold MatchIndex.clearMatch
    rw [hparent]
    exact h
  | some parent =>
    have hsome : (mi.colMatch i j).isSome = true := by
      rw [h.paired, hparent]
      rfl
    unfold MatchIndex.clearMatch
    rw [hparent]
    constructor
    . intro i' j'
      dsimp only
      rcases set2_cases mi.colMatch i i' j j' none with ⟨rfl, rfl, heq⟩ | ⟨hne, heq⟩
      . rw [heq, set2_self]
      . rw [heq, set2_of_ne _ _ hne]
        exact h.paired i' j'
    . intro i' j'
      dsimp only
      rcases set2_cases mi.colMatch i i' j j' none with ⟨rfl, rfl, heq⟩ | ⟨hne, heq⟩
      . exact fun _ => set2_self _ _ _ _
      . rw [heq, set2_of_ne _ _ hne]
        exact h.opers_none i' j'
    . intro i' j' expr other
      dsimp only
      rcases set2_cases mi.colMatch i i' j j' none with ⟨rfl, rfl, heq⟩ | ⟨hne, heq⟩
      . rw [heq]
        exact fun hnone => absurd hnone (by simp)
      . rw [heq, set2_of_ne _ _ hne, set2_of_ne _ _ hne]
        exact h.opers_some i' j' expr other
    . intro i'
      have hcount := h.count i'
      unfold numSet at *
      dsimp only
      rw [isSome_set2]
      split
      . next heq =>
        subst heq
        have hones := Bitmap.ones_update_false (fun k => (mi.colMatch i' k).isSome) j cols.length hj hsome
        rw [update_self, hcount, isSome_none]
        omega
      . next hne => rw [update_of_ne hne, hcount]

theorem clearMatch_none (setLocal : Bool) (i : Fin 2) (j : Nat) (h : mi.parentColMatch i j = none)
    : mi.clearMatch setLocal i j = mi := by
  unfold MatchIndex.clearMatch
  rw [h]

theorem set2_eq_self {f : Fin 2 → Nat → α} {i : Fin 2} {x : α} (h : f i j = x)
    : set2 f i j x = f := by
  unfold set2
  rw [← h, update_eq_self, update_eq_self]

theorem colMatch_clearMatch (h : Entries cols clauses mi) (setLocal : Bool) (i : Fin 2) (j : Nat)
    : (mi.clearMatch setLocal i j).colMatch = set2 mi.colMatch i j none
        ∧ (mi.clearMatch setLocal i j).parentColMatch = set2 mi.parentColMatch i j none := by
  cases hparent : mi.parentColMatch i j with
  | none =>
    have hnone : mi.colMatch i j = none := by
      rw [← not_isSome_iff_eq_none, h.paired, hparent]
      simp
    rw [clearMatch_none setLocal i j hparent, set2_eq_self hnone, set2_eq_self hparent]
    exact ⟨rfl, rfl⟩
  | some parent =>
    unfold MatchIndex.clearMatch
    rw [hparent]
    exact ⟨rfl, rfl⟩

theorem clearPreviousMatch_second (setLocal : Bool) (j : Nat) (h : mi.parentColMatch 1 j = none)
    : mi.clearPreviousMatch setLocal 1 j = mi := by
  unfold clearPreviousMatch moveSecond
  rw [clearMatch_none setLocal 1 j h]
  exact if_neg (fun h => absurd h.left (by decide))

theorem clearPreviousMatch_eq (h : Entries cols clauses mi) (setLocal : Bool) (i : Fin 2) (j : Nat)
    (hsecond : i = 0 → mi.colMatch 1 j = none)
    : mi.clearPreviousMatch setLocal i j = mi.clearMatch setLocal i j := by
  unfold clearPreviousMatch moveSecond
  apply if_neg
  rintro ⟨rfl, hsome⟩
  rw [(colMatch_clearMatch h setLocal 0 j).right, set2_of_ne _ _ (Or.inl (by decide)), ← h.paired,
    hsecond rfl] at hsome
  exact absurd hsome (by simp)

theorem Holds.clearMatch (hentries : Entries cols clauses mi) (i : Fin 2) (j : Nat) {other : Clause Expr}
    (h : mi.Holds other)
    : (mi.clearMatch true i j).Holds other := by
  have hmem : ∀ parent, parent ∈ mi.localConds → parent ∈ (mi.clearMatch true i j).localConds := by
    intro parent hparent
    unfold MatchIndex.clearMatch
    split
    . exact hparent
    . dsimp only
      rw [if_pos rfl]
      split
      . exact hparent
      . exact mem_append_left _ hparent
  rcases h with ⟨i', j', hexpr, hparent⟩ | hlocal
  . rcases set2_cases mi.colMatch i i' j j' none with ⟨rfl, rfl, -⟩ | ⟨hne, -⟩
    . apply Or.inr
      unfold MatchIndex.clearMatch
      rw [hparent]
      dsimp only
      rw [if_pos rfl]
      split
      . next hin => exact hin
      . exact mem_append_right _ mem_cons_self
    . apply Or.inl
      apply Exists.intro i'
      apply Exists.intro j'
      have hclear := colMatch_clearMatch hentries true i j
      rw [hclear.left, hclear.right, set2_of_ne _ _ hne, set2_of_ne _ _ hne]
      exact ⟨hexpr, hparent⟩
  . exact Or.inr (hmem _ hlocal)

omit [DecidableEq Expr] in
theorem Holds.setMatch (i : Fin 2) (j : Nat) (hnone : mi.colMatch i j = none) {other : Clause Expr}
    (h : mi.Holds other)
    : (mi.setMatch i j clause).Holds other := by
  rcases h with ⟨i', j', hexpr, hparent⟩ | hlocal
  . apply Or.inl
    apply Exists.intro i'
    apply Exists.intro j'
    unfold MatchIndex.setMatch
    dsimp only
    rcases set2_cases mi.colMatch i i' j j' (some clause.expr) with ⟨rfl, rfl, -⟩ | ⟨hne, -⟩
    . rw [hnone] at hexpr
      exact absurd hexpr (by simp)
    . rw [set2_of_ne _ _ hne, set2_of_ne _ _ hne]
      exact ⟨hexpr, hparent⟩
  . exact Or.inr hlocal

omit [DecidableEq Expr] in
theorem holds_setMatch (i : Fin 2) (j : Nat) : (mi.setMatch i j clause).Holds clause := by
  apply Or.inl
  exact ⟨i, j, set2_self _ _ _ _, set2_self _ _ _ _⟩

inductive Step (cols : List Nat) (mi : MatchIndex Expr) (clause : Clause Expr)
    : Bool × MatchIndex Expr → Prop where
  | refused : Step cols mi clause (false, mi)
  | cleared (i : Fin 2) (j : Nat) (hj : j < cols.length) (hsecond : i = 0 → mi.colMatch 1 j = none)
    : Step cols mi clause (false, mi.clearMatch clause.setLocal i j)
  | set (i : Fin 2) (j : Nat) (hidx : cols.findIdx? (fun col => col = clause.colNum) = some j)
    (hnone : mi.colMatch i j = none)
    : Step cols mi clause (true, mi.setMatch i j clause)
  | replaced (j : Nat) (hidx : cols.findIdx? (fun col => col = clause.colNum) = some j)
    (hsecond : mi.colMatch 1 j = none)
    : Step cols mi clause (true, (mi.clearMatch clause.setLocal 0 j).setMatch 0 j clause)

theorem setFirst_step (hentries : Entries cols clauses mi)
    (hidx : cols.findIdx? (fun col => col = clause.colNum) = some j) (hsome : (mi.colMatch 0 j).isSome = true)
    (hsame : isSameOper (mi.opers 0 j) clause.op = true) (hgood : ¬ Demotes cols mi clause)
    : Step cols mi clause (mi.setFirst j clause) := by
  have hsecond : mi.opers 0 j ≠ .readKeyExact → mi.colMatch 1 j = none := by
    intro hne
    rw [← not_isSome_iff_eq_none]
    intro hsecond
    exact hgood ⟨j, hidx, hsome, hsecond, hsame, hne⟩
  unfold setFirst
  split
  . next hexact =>
    have hsecond := hsecond (by rw [← hexact.left]; exact hexact.right)
    have hentries' := hentries.clearMatch clause.setLocal 0 j (lt_of_findIdx hidx)
    dsimp only
    rw [clearPreviousMatch_eq hentries clause.setLocal 0 j (fun _ => hsecond)]
    have hparent : (mi.clearMatch clause.setLocal 0 j).parentColMatch 1 j = none := by
      rw [← not_isSome_iff_eq_none, ← hentries'.paired,
        (colMatch_clearMatch hentries clause.setLocal 0 j).left, set2_of_ne _ _ (Or.inl (by decide)), hsecond]
      simp
    rw [clearPreviousMatch_second clause.setLocal j hparent]
    exact Step.replaced j hidx hsecond
  . split
    . next hne =>
      rw [clearPreviousMatch_eq hentries clause.setLocal 0 j (fun _ => hsecond hne)]
      exact Step.cleared 0 j (lt_of_findIdx hidx) (fun _ => hsecond hne)
    . exact Step.refused

theorem isSameOper_exact (op : KeyOper) : isSameOper op .readKeyExact = true := by
  cases op <;> rfl

variable (hentries : Entries cols clauses mi)
include hentries

theorem setSecond_step (hidx : cols.findIdx? (fun col => col = clause.colNum) = some j)
    (hsame : isSameOper (mi.opers 0 j) clause.op ≠ true)
    : Step cols mi clause (mi.setSecond j clause) := by
  have hexact : clause.op ≠ .readKeyExact := by
    intro hexact
    rw [hexact, isSameOper_exact] at hsame
    exact hsame rfl
  unfold setSecond
  split
  . next hnone =>
    exact Step.set 1 j hidx (isNone_iff_eq_none.mp hnone)
  . split
    . rw [if_neg (fun h => hexact h.left)]
      split
      . rw [clearPreviousMatch_eq hentries clause.setLocal 1 j (fun h => absurd h (by decide))]
        exact Step.cleared 1 j (lt_of_findIdx hidx) (fun h => absurd h (by decide))
      . exact Step.refused
    . exact Step.refused

theorem setIndexColumn_step (hgood : ¬ Demotes cols mi clause)
    : Step cols mi clause (setIndexColumn cols mi clause) := by
  unfold setIndexColumn
  split
  . exact Step.refused
  . next j hidx =>
    split
    . next hnone =>
      exact Step.set 0 j hidx (isNone_iff_eq_none.mp hnone)
    . next hsome =>
      have hsome : (mi.colMatch 0 j).isSome = true := by
        rw [isSome_iff_ne_none]
        exact fun hnone => hsome (isNone_iff_eq_none.mpr hnone)
      split
      . next hsame => exact setFirst_step hentries hidx hsome hsame hgood
      . next hsame => exact setSecond_step hentries hidx hsame

theorem clearPreviousMatch_demotes (setLocal : Bool) (j : Nat) (hsecond : (mi.colMatch 1 j).isSome = true)
    : (mi.clearPreviousMatch setLocal 0 j).numMatches 1 = mi.numMatches 1
        ∧ (mi.clearPreviousMatch setLocal 0 j).colMatch 1 = Function.update (mi.colMatch 1) j none
        ∧ (mi.clearPreviousMatch setLocal 0 j).parentColMatch 1 j = none := by
  have hclear := colMatch_clearMatch hentries setLocal 0 j
  have hnum : (mi.clearMatch setLocal 0 j).numMatches 1 = mi.numMatches 1 := by
    unfold MatchIndex.clearMatch
    split
    . rfl
    . rfl
  unfold clearPreviousMatch moveSecond
  rw [if_pos]
  . dsimp only
    rw [hnum, set2_self, hclear.left]
    apply And.intro rfl
    apply And.intro _ rfl
    unfold set2
    rw [update_self, update_of_ne (by decide), update_of_ne (by decide)]
  . apply And.intro rfl
    rw [hclear.right, set2_of_ne _ _ (Or.inl (by decide)), ← hentries.paired]
    exact hsecond

theorem not_entries_of_demotes (hbad : Demotes cols mi clause)
    : ¬ Entries cols (clause :: clauses) (setIndexColumn cols mi clause).2 := by
  obtain ⟨j, hidx, hfirst, hsecond, hsame, hne⟩ := hbad
  have hclear := clearPreviousMatch_demotes hentries clause.setLocal j hsecond
  have hresult : (setIndexColumn cols mi clause).2.numMatches 1 = mi.numMatches 1
      ∧ (setIndexColumn cols mi clause).2.colMatch 1 = Function.update (mi.colMatch 1) j none := by
    unfold setIndexColumn
    rw [hidx]
    dsimp only
    rw [if_neg (by simpa using isSome_iff_ne_none.mp hfirst), if_pos hsame]
    unfold setFirst
    split
    . dsimp only
      rw [clearPreviousMatch_second clause.setLocal j hclear.right.right]
      unfold MatchIndex.setMatch
      dsimp only
      rw [update_of_ne (by decide)]
      unfold set2
      rw [update_of_ne (by decide)]
      exact ⟨hclear.left, hclear.right.left⟩
    . exact ⟨hclear.left, hclear.right.left⟩
  intro hentries'
  have hcount := hentries.count 1
  have hcount' := hentries'.count 1
  have hones := Bitmap.ones_update_false (fun k => (mi.colMatch 1 k).isSome) j cols.length
    (lt_of_findIdx hidx) hsecond
  have hbits : (fun k => (Function.update (mi.colMatch 1) j none k).isSome)
      = Function.update (fun k => (mi.colMatch 1 k).isSome) j false := by
    funext k
    by_cases hk : k = j
    . subst hk
      simp
    . simp [hk]
  unfold numSet at hcount hcount'
  rw [hresult.left, hresult.right, hbits] at hcount'
  omega

theorem step_entries {out : Bool × MatchIndex Expr} (hstep : Step cols mi clause out)
    : Entries cols (clause :: clauses) out.2 := by
  cases hstep with
  | refused => exact hentries.mono clause
  | cleared i j hj hsecond => exact (hentries.clearMatch clause.setLocal i j hj).mono clause
  | set i j hidx hnone => exact hentries.setMatch i j hidx hnone
  | replaced j hidx hsecond =>
    apply (hentries.clearMatch clause.setLocal 0 j (lt_of_findIdx hidx)).setMatch 0 j hidx
    rw [(colMatch_clearMatch hentries clause.setLocal 0 j).left, set2_self]

theorem step_holds {out : Bool × MatchIndex Expr} (hstep : Step cols mi clause out)
    : (out.1 = true → out.2.Holds clause)
        ∧ (clause.setLocal = true → ∀ other, mi.Holds other → out.2.Holds other) := by
  cases hstep with
  | refused => exact ⟨fun h => absurd h (by simp), fun _ _ h => h⟩
  | cleared i j hj hsecond =>
    apply And.intro (fun h => absurd h (by simp))
    intro hlocal other h
    rw [hlocal]
    exact h.clearMatch hentries i j
  | set i j hidx hnone => exact ⟨fun _ => holds_setMatch i j, fun _ _ h => h.setMatch i j hnone⟩
  | replaced j hidx hsecond =>
    apply And.intro (fun _ => holds_setMatch 0 j)
    intro hlocal other h
    rw [hlocal]
    apply (h.clearMatch hentries 0 j).setMatch
    rw [(colMatch_clearMatch hentries true 0 j).left, set2_self]

end Steps

omit [DecidableEq Expr] in
theorem entries_init : Entries cols [] (init : MatchIndex Expr) where
  paired _ _ := rfl
  opers_none _ _ _ := rfl
  opers_some _ _ _ _ h := absurd h (by simp [init])
  count _ := by
    unfold numSet init
    dsimp only
    rw [isSome_none, Bitmap.ones_empty]
    rfl

theorem run_spec (clauses : List (Clause Expr))
    (hgood : ∀ clause older, clause :: older <:+ clauses → ¬ Demotes cols (run cols older) clause)
    : Entries cols clauses (run cols clauses) ∧ Held cols clauses (run cols clauses) := by
  induction clauses with
  | nil =>
    apply And.intro (entries_init cols)
    intro newer clause older h
    exact absurd h (by simp)
  | cons clause older ih =>
    obtain ⟨hentries, hheld⟩ := ih (fun other rest h => hgood other rest (h.trans (suffix_cons _ _)))
    have hstep := setIndexColumn_step hentries (hgood clause older (suffix_refl _))
    have hholds := step_holds hentries hstep
    apply And.intro (step_entries hentries hstep)
    intro newer other rest heq hresult hlocal
    cases newer with
    | nil =>
      rw [nil_append, List.cons.injEq] at heq
      obtain ⟨rfl, rfl⟩ := heq
      exact hholds.left hresult
    | cons first newer =>
      rw [cons_append, List.cons.injEq] at heq
      obtain ⟨rfl, rfl⟩ := heq
      apply hholds.right (hlocal clause mem_cons_self)
      exact hheld newer other rest rfl hresult (fun other h => hlocal other (mem_cons_of_mem _ h))

/--
The bookkeeping is right after each call if and only if no call gives up the first bound of a column that
has a second one.
-/
theorem bookkeeping_iff (clauses : List (Clause Expr))
    : (∀ passed, passed <:+ clauses →
          Entries cols passed (run cols passed) ∧ Held cols passed (run cols passed))
        ↔ ∀ clause older, clause :: older <:+ clauses → ¬ Demotes cols (run cols older) clause := by
  constructor
  . intro h clause older hsuffix hbad
    have hentries := (h older ((List.suffix_cons _ _).trans hsuffix)).left
    exact not_entries_of_demotes hentries hbad (h _ hsuffix).left
  . intro hgood passed hsuffix
    exact run_spec cols passed (fun clause older h => hgood clause older (h.trans hsuffix))

-- `a > 1`, `a < 9` and `a = 5` leave the count of second bounds at one, and `a < 9` is gone.
theorem not_bookkept_range
    : ¬ (Entries [1] [⟨1, .readKeyExact, 5, 15, true⟩, ⟨1, .readKeyBefore, 9, 19, true⟩,
            ⟨1, .readKeyAfter, 1, 11, true⟩]
          (run [1] [⟨1, .readKeyExact, 5, 15, true⟩, ⟨1, .readKeyBefore, 9, 19, true⟩,
            (⟨1, .readKeyAfter, 1, 11, true⟩ : Clause Nat)]))
        ∧ result [1] (⟨1, .readKeyBefore, 9, 19, true⟩ : Clause Nat) [⟨1, .readKeyAfter, 1, 11, true⟩] = true
        ∧ 19 ∉ (run [1] [⟨1, .readKeyExact, 5, 15, true⟩, ⟨1, .readKeyBefore, 9, 19, true⟩,
            (⟨1, .readKeyAfter, 1, 11, true⟩ : Clause Nat)]).localConds := by
  refine ⟨?_, by decide, by decide⟩
  intro h
  have hcount := h.count 1
  revert hcount
  decide

end MatchIndex

end Mot

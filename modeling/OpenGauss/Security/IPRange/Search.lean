import Mathlib.Data.List.GetD
import OpenGauss.Security.IPRange.Lemmas

/-!
This module contains the binary search of an address in a list of ranges, from `iprange.cpp`.
-/

open List

namespace IPRange

open IPV6 (Agree)

variable {range : Range}

section Impl

inductive Outcome where
  | running
  | outside
  | returns (found : Bool)
  deriving DecidableEq, Repr

def Range.contains (range : Range) (ip : IPV6) : Bool := ip.ge range.first && ip.le range.last

-- The loop runs until both cursors are equal; they may cross.
def searchLoop (ranges : Ranges) (ip : IPV6) : Nat → Nat → Nat → Outcome
  | 0, _, _ => .running
  | turns + 1, i, j =>
    if i ≠ j then
      let mid := (i + j) / 2
      match ranges[mid]? with
      | none => .outside
      | some range =>
        if range.contains ip then .returns true
        else if ip.lt range.first then
          searchLoop ranges ip turns i (if mid > 0 then mid - 1 else mid)
        else
          searchLoop ranges ip turns (mid + 1) j
    else
      match ranges[i]? with
      | none => .outside
      | some range => .returns (range.contains ip)

def binarySearch (ranges : Ranges) (ip : IPV6) (turns : Nat) : Outcome :=
  searchLoop ranges ip turns 0 (ranges.length - 1)

end Impl

section Halving

-- The places that halving the `m` ranges from `i` on looks at on its way to the place `k`.
def visits (k i m : Nat) : List Nat :=
  if m = 0 then
    []
  else if k < i + (m - 1) / 2 then
    (i + (m - 1) / 2) :: visits k i ((m - 1) / 2)
  else if i + (m - 1) / 2 < k then
    (i + (m - 1) / 2) :: visits k (i + (m - 1) / 2 + 1) (m / 2)
  else
    [k]
termination_by m
decreasing_by
  all_goals omega

-- Halving the `m` ranges from `i` on, to the left where `below` holds, leaves two ranges as a part of
-- its own, with others in front of them, and `below` holds at the first one.
def leavesPair (below : Nat → Bool) (i m : Nat) : Bool :=
  if m < 2 then
    false
  else if m = 2 then
    0 < i && below i
  else if below (i + (m - 1) / 2) then
    leavesPair below i ((m - 1) / 2)
  else
    leavesPair below (i + (m - 1) / 2 + 1) (m / 2)
termination_by m
decreasing_by
  all_goals omega

theorem leavesPair_two (below : Nat → Bool) (i : Nat) : leavesPair below i 2 = (0 < i && below i) := by
  unfold leavesPair
  simp

theorem leavesPair_of_lt (below : Nat → Bool) (i : Nat) {m : Nat} (hm : 2 < m)
    : leavesPair below i m
        =
      if below (i + (m - 1) / 2) then
        leavesPair below i ((m - 1) / 2)
      else
        leavesPair below (i + (m - 1) / 2 + 1) (m / 2) := by
  rw [leavesPair, if_neg (by omega), if_neg (by omega)]

end Halving

section Search

variable {ranges : Ranges} {ip : IPV6}

-- Where operator< answers wrong it answers true.
theorem lt_of_num_lt {x y : IPV6} (h : x.num < y.num) : x.lt y = true := by
  have := x.lower_lt
  have := y.lower_lt
  simp only [IPV6.num] at h
  simp only [IPV6.lt, Bool.or_eq_true, decide_eq_true_eq]
  omega

theorem Range.contains_iff (range : Range) (ip : IPV6)
    : range.contains ip = true ↔ range.Mem ip.num ∧ Agree ip range.first ∧ Agree range.last ip := by
  have hfirst := IPV6.lt_iff_iff ip range.first
  have hlast := IPV6.lt_iff_iff range.last ip
  have hfirst' := @lt_of_num_lt ip range.first
  have hlast' := @lt_of_num_lt range.last ip
  rw [← hfirst, ← hlast]
  unfold Range.contains Range.Mem IPV6.ge IPV6.le IPV6.gt
  rw [Bool.and_eq_true, Bool.not_eq_true', Bool.not_eq_true', ← Bool.not_eq_true, ← Bool.not_eq_true]
  constructor
  . rintro ⟨hge, hle⟩
    have := mt hfirst' hge
    have := mt hlast' hle
    exact ⟨by omega, iff_of_false hge (by omega), iff_of_false hle (by omega)⟩
  . rintro ⟨hmem, hfirst, hlast⟩
    rw [hfirst, hlast]
    omega

theorem Sorted.lt_of_lt (h : Sorted ranges) {k l : Nat} (hlt : k < l) (hl : l < ranges.length)
    : ranges[k].last.num < ranges[l].first.num :=
  pairwise_iff_getElem.1 h.increasing k l (by omega) hl hlt

theorem searchLoop_self {i : Nat} (hlen : i < ranges.length) (turns : Nat)
    : searchLoop ranges ip (turns + 1) i i = .returns (ranges[i].contains ip) := by
  rw [searchLoop, if_neg (by simp)]
  simp only [getElem?_eq_getElem hlen]

theorem searchLoop_turn {i j : Nat} (mid : Nat) (hne : i ≠ j) (hmid : (i + j) / 2 = mid)
    (hlen : mid < ranges.length) (turns : Nat)
    : searchLoop ranges ip (turns + 1) i j
        =
      if ranges[mid].contains ip then .returns true
      else if ip.lt ranges[mid].first then
        searchLoop ranges ip turns i (if mid > 0 then mid - 1 else mid)
      else
        searchLoop ranges ip turns (mid + 1) j := by
  rw [searchLoop, if_pos hne, hmid]
  simp only [getElem?_eq_getElem hlen]

section Covered

variable (hsorted : Sorted ranges)
include hsorted

theorem Sorted.eq_of_mem {k l : Nat} (hk : k < ranges.length) (hl : l < ranges.length)
    (hmem : ranges[k].Mem ip.num) (hmem' : ranges[l].Mem ip.num) : k = l := by
  unfold Range.Mem at hmem hmem'
  by_contra hne
  rcases Nat.lt_or_gt_of_ne hne with hlt | hlt
  . have := hsorted.lt_of_lt hlt hl
    omega
  . have := hsorted.lt_of_lt hlt hk
    omega

theorem Sorted.lt_first {k l : Nat} (hlt : k < l) (hl : l < ranges.length)
    (hmem : ranges[k].Mem ip.num) : ip.num < ranges[l].first.num := by
  have := hsorted.lt_of_lt hlt hl
  unfold Range.Mem at hmem
  omega

theorem Sorted.first_le {k l : Nat} (hlt : l < k) (hk : k < ranges.length)
    (hmem : ranges[k].Mem ip.num) : ranges[l].first.num ≤ ip.num := by
  have := hsorted.lt_of_lt hlt hk
  have hnonempty := hsorted.nonEmpty _ (getElem_mem (show l < ranges.length by omega))
  unfold Range.Mem at hmem
  unfold Range.NonEmpty at hnonempty
  omega

variable {k : Nat} (hk : k < ranges.length) (hmem : ranges[k].Mem ip.num)
include hmem

theorem not_contains_of_ne {l : Nat} (hl : l < ranges.length) (hne : k ≠ l) : ranges[l].contains ip ≠ true := by
  rw [ne_eq, Range.contains_iff]
  rintro ⟨hmem', -⟩
  exact hne (hsorted.eq_of_mem hk hl hmem hmem')

-- In front of its range the search does not find the address.
theorem searchLoop_lost (turns : Nat) : ∀ i j, i < k → j < k → searchLoop ranges ip turns i j ≠ .returns true := by
  induction turns with
  | zero =>
    intro i j _ _ h
    cases h
  | succ turns ih =>
    intro i j hi hj
    by_cases heq : i = j
    . subst heq
      rw [searchLoop_self (by omega)]
      have hnot := not_contains_of_ne hsorted hk hmem (show i < ranges.length by omega) (by omega)
      simpa using hnot
    . rw [searchLoop_turn _ heq rfl (by omega), if_neg (not_contains_of_ne hsorted hk hmem _ (by omega))]
      split
      . apply ih _ _ hi
        split
        . omega
        . omega
      . apply ih _ _ _ hj
        omega

theorem searchLoop_found (hlast : Agree ranges[k].last ip) (m : Nat)
    : ∀ i turns, i ≤ k → k < i + m → i + m ≤ ranges.length → m ≤ turns →
        (∀ l ∈ visits k i m, ∀ hl : l < ranges.length, Agree ip ranges[l].first) →
          searchLoop ranges ip turns i (i + m - 1) = .returns true := by
  induction m using Nat.strongRecOn with
  | ind m ih =>
    intro i turns hi hlt hlen hturns hfirst
    obtain ⟨turns, rfl⟩ : ∃ t, turns = t + 1 := ⟨turns - 1, by omega⟩
    rw [visits, if_neg (by omega)] at hfirst
    have hfound (hself : Agree ip ranges[k].first) : ranges[k].contains ip = true :=
      (Range.contains_iff _ _).2 ⟨hmem, hself, hlast⟩
    by_cases hone : m = 1
    . obtain rfl : i = k := by omega
      rw [if_neg (by omega), if_neg (by omega)] at hfirst
      rw [hone, Nat.add_sub_cancel, searchLoop_self hk, hfound (hfirst i mem_cons_self hk)]
    . rw [searchLoop_turn (i + (m - 1) / 2) (by omega) (by omega) (by omega)]
      rcases Nat.lt_trichotomy k (i + (m - 1) / 2) with hmid | hmid | hmid
      . rw [if_pos hmid] at hfirst
        rw [if_neg (not_contains_of_ne hsorted hk hmem _ (by omega)),
          if_pos (lt_of_num_lt (hsorted.lt_first hmid _ hmem)), if_pos (by omega)]
        exact ih _ (by omega) _ _ hi hmid (by omega) (by omega) (fun l hl => hfirst l (mem_cons_of_mem _ hl))
      . rw [if_neg (by omega), if_neg (by omega)] at hfirst
        simp only [← hmid]
        rw [hfound (hfirst k mem_cons_self hk), if_pos rfl]
      . rw [if_neg (by omega), if_pos hmid] at hfirst
        have hle := hsorted.first_le hmid hk hmem
        have hright := (hfirst _ mem_cons_self (by omega)).lt_iff
        rw [if_neg (not_contains_of_ne hsorted hk hmem _ (by omega)), if_neg (by rw [hright]; omega),
          show i + m - 1 = i + (m - 1) / 2 + 1 + m / 2 - 1 by omega]
        exact ih _ (by omega) _ _ hmid (by omega) (by omega) (by omega)
          (fun l hl => hfirst l (mem_cons_of_mem _ hl))

theorem agree_of_found (m : Nat)
    : ∀ i turns, i ≤ k → k < i + m → i + m ≤ ranges.length → ranges[k].contains ip = true →
        searchLoop ranges ip turns i (i + m - 1) = .returns true →
          ∀ l ∈ visits k i m, ∀ hl : l < ranges.length, Agree ip ranges[l].first := by
  induction m using Nat.strongRecOn with
  | ind m ih =>
    intro i turns hi hlt hlen hcontains hsearch l hl hlength
    have hself := ((Range.contains_iff _ _).1 hcontains).2.1
    cases turns with
    | zero => cases hsearch
    | succ turns =>
      rw [visits, if_neg (by omega)] at hl
      rcases Nat.lt_trichotomy k (i + (m - 1) / 2) with hmid | hmid | hmid
      . have hbelow := hsorted.lt_first hmid (by omega) hmem
        rw [if_pos hmid, mem_cons] at hl
        rw [searchLoop_turn (i + (m - 1) / 2) (by omega) (by omega) (by omega),
          if_neg (not_contains_of_ne hsorted hk hmem _ (by omega)), if_pos (lt_of_num_lt hbelow),
          if_pos (by omega)] at hsearch
        rcases hl with rfl | hl
        . exact (IPV6.lt_iff_iff _ _).1 (iff_of_true (lt_of_num_lt hbelow) hbelow)
        . exact ih _ (by omega) _ _ hi hmid (by omega) hcontains hsearch l hl hlength
      . rw [if_neg (by omega), if_neg (by omega), mem_singleton] at hl
        subst hl
        exact hself
      . have habove := hsorted.first_le hmid hk hmem
        rw [if_neg (by omega), if_pos hmid, mem_cons] at hl
        rw [searchLoop_turn (i + (m - 1) / 2) (by omega) (by omega) (by omega),
          if_neg (not_contains_of_ne hsorted hk hmem _ (by omega))] at hsearch
        split at hsearch
        . -- a wrong answer sends the search to the ranges in front
          exact absurd hsearch (searchLoop_lost hsorted hk hmem turns _ _ (by omega) (by split <;> omega))
        . rename_i hright
          rw [show i + m - 1 = i + (m - 1) / 2 + 1 + m / 2 - 1 by omega] at hsearch
          rcases hl with rfl | hl
          . exact (IPV6.lt_iff_iff _ _).1 (iff_of_false hright (by omega))
          . exact ih _ (by omega) _ _ hmid (by omega) (by omega) hcontains hsearch l hl hlength

end Covered

theorem searchLoop_contains (turns : Nat)
    : ∀ i j, searchLoop ranges ip turns i j = .returns true → ∃ range ∈ ranges, range.contains ip = true := by
  induction turns with
  | zero =>
    intro i j h
    cases h
  | succ turns ih =>
    intro i j h
    unfold searchLoop at h
    split at h
    . dsimp only at h
      split at h
      . cases h
      . rename_i range hget
        split at h
        . exact ⟨range, mem_of_getElem? hget, by assumption⟩
        . split at h
          . exact ih _ _ h
          . exact ih _ _ h
    . split at h
      . cases h
      . rename_i range hget
        injection h with h
        exact ⟨range, mem_of_getElem? hget, h⟩

-- The operator puts the address in front of the range.
def below (ranges : Ranges) (ip : IPV6) (k : Nat) : Bool := ranges[k]?.any fun range => ip.lt range.first

section Uncovered

variable (hnot : ¬Covers ranges ip.num)
include hnot

theorem contains_eq_false (hmem : range ∈ ranges) : range.contains ip = false := by
  rw [← Bool.not_eq_true, Range.contains_iff]
  rintro ⟨hin, -⟩
  exact hnot ⟨range, hmem, hin⟩

theorem searchLoop_halve {i j : Nat} (mid : Nat) (hne : i ≠ j) (hmid : (i + j) / 2 = mid)
    (hlen : mid < ranges.length) (turns : Nat)
    : searchLoop ranges ip (turns + 1) i j
        =
      if below ranges ip mid then
        searchLoop ranges ip turns i (if mid > 0 then mid - 1 else mid)
      else
        searchLoop ranges ip turns (mid + 1) j := by
  rw [searchLoop_turn mid hne hmid hlen, contains_eq_false hnot (getElem_mem hlen), if_neg (by simp)]
  simp [below, getElem?_eq_getElem hlen]

theorem searchLoop_not_found (m : Nat)
    : ∀ i turns, 0 < m → i + m ≤ ranges.length → leavesPair (below ranges ip) i m = false → m ≤ turns →
        searchLoop ranges ip turns i (i + m - 1) = .returns false := by
  induction m using Nat.strongRecOn with
  | ind m ih =>
    intro i turns hpos hlen hpair hturns
    obtain ⟨turns, rfl⟩ : ∃ t, turns = t + 1 := ⟨turns - 1, by omega⟩
    have hone (i turns : Nat) (hlen : i < ranges.length) : searchLoop ranges ip (turns + 1) i i = .returns false := by
      rw [searchLoop_self hlen, contains_eq_false hnot (getElem_mem hlen)]
    rcases (by omega : m = 1 ∨ m = 2 ∨ 2 < m) with rfl | rfl | hm
    . exact hone i turns (by omega)
    . rw [leavesPair_two, Bool.and_eq_false_iff, decide_eq_false_iff_not] at hpair
      obtain ⟨turns, rfl⟩ : ∃ t, turns = t + 1 := ⟨turns - 1, by omega⟩
      rw [searchLoop_halve hnot i (by omega) (by omega) (by omega)]
      split
      . rename_i hbelow
        obtain rfl : i = 0 := by
          rw [hbelow] at hpair
          simpa using hpair
        exact hone 0 turns (by omega)
      . exact hone (i + 1) turns (by omega)
    . rw [leavesPair_of_lt _ _ hm] at hpair
      rw [searchLoop_halve hnot (i + (m - 1) / 2) (by omega) (by omega) (by omega)]
      split at hpair
      . rename_i hbelow
        rw [if_pos hbelow, if_pos (by omega)]
        exact ih _ (by omega) _ _ (by omega) (by omega) hpair (by omega)
      . rename_i hbelow
        rw [if_neg hbelow, show i + m - 1 = i + (m - 1) / 2 + 1 + m / 2 - 1 by omega]
        exact ih _ (by omega) _ _ (by omega) (by omega) hpair (by omega)

theorem searchLoop_crossed {i : Nat} (hi : i < ranges.length) (hfront : below ranges ip i = false) (turns : Nat)
    : searchLoop ranges ip turns (i + 1) i = .running := by
  induction turns with
  | zero => rfl
  | succ turns ih =>
    rw [searchLoop_halve hnot i (by omega) (by omega) hi, hfront, if_neg (by simp)]
    exact ih

theorem searchLoop_pair (m : Nat)
    : ∀ i turns, i + m ≤ ranges.length → (0 < i → below ranges ip (i - 1) = false) →
        leavesPair (below ranges ip) i m = true → searchLoop ranges ip turns i (i + m - 1) = .running := by
  induction m using Nat.strongRecOn with
  | ind m ih =>
    intro i turns hlen hfront hpair
    cases turns with
    | zero => rfl
    | succ turns =>
      rcases (by omega : m < 2 ∨ m = 2 ∨ 2 < m) with hm | rfl | hm
      . rw [leavesPair, if_pos hm] at hpair
        cases hpair
      . rw [leavesPair_two, Bool.and_eq_true, decide_eq_true_eq] at hpair
        obtain ⟨i, rfl⟩ : ∃ i', i = i' + 1 := ⟨i - 1, by omega⟩
        rw [searchLoop_halve hnot (i + 1) (by omega) (by omega) (by omega), if_pos hpair.2, if_pos (by omega)]
        exact searchLoop_crossed hnot (by omega) (hfront (by omega)) turns
      . rw [leavesPair_of_lt _ _ hm] at hpair
        rw [searchLoop_halve hnot (i + (m - 1) / 2) (by omega) (by omega) (by omega)]
        split at hpair
        . rename_i hbelow
          rw [if_pos hbelow, if_pos (by omega)]
          exact ih _ (by omega) _ _ (by omega) hfront hpair
        . rename_i hbelow
          rw [if_neg hbelow, show i + m - 1 = i + (m - 1) / 2 + 1 + m / 2 - 1 by omega]
          apply ih _ (by omega) _ _ (by omega) _ hpair
          intro _
          rw [Nat.add_sub_cancel, ← Bool.not_eq_true]
          exact hbelow

end Uncovered

def SearchesRight (ranges : Ranges) (ip : IPV6) : Prop :=
  ∃ turns found, binarySearch ranges ip turns = .returns found ∧ (found = true ↔ Covers ranges ip.num)

-- The comparisons that decide whether the range at the place `k` is found.
structure ComparedRight (ranges : Ranges) (ip : IPV6) (k : Nat) : Prop where
  first : ∀ l ∈ visits k 0 ranges.length, ∀ hl : l < ranges.length, Agree ip ranges[l].first
  last : ∀ hk : k < ranges.length, Agree ranges[k].last ip

theorem searchesRight_of_mem (hsorted : Sorted ranges) {k : Nat} (hk : k < ranges.length)
    (hmem : ranges[k].Mem ip.num) : SearchesRight ranges ip ↔ ComparedRight ranges ip k := by
  have hlen : 0 + ranges.length - 1 = ranges.length - 1 := by omega
  have hcovers : Covers ranges ip.num := ⟨_, getElem_mem hk, hmem⟩
  constructor
  . rintro ⟨turns, found, hsearch, hright⟩
    rw [hright.2 hcovers, binarySearch, ← hlen] at hsearch
    obtain ⟨range, hrange, hcontains⟩ := searchLoop_contains _ _ _ hsearch
    obtain ⟨l, hl, rfl⟩ := mem_iff_getElem.1 hrange
    obtain rfl := hsorted.eq_of_mem hk hl hmem ((Range.contains_iff _ _).1 hcontains).1
    have hfirst := agree_of_found hsorted hk hmem _ _ _ (Nat.zero_le _) (by omega) (by omega) hcontains hsearch
    exact ⟨hfirst, fun _ => ((Range.contains_iff _ _).1 hcontains).2.2⟩
  . intro h
    have hsearch := searchLoop_found hsorted hk hmem (h.last hk) _ _ _ (Nat.zero_le _) (by omega) (by omega)
      (Nat.le_refl _) h.first
    rw [hlen] at hsearch
    exact ⟨_, true, hsearch, iff_of_true rfl hcovers⟩

theorem searchesRight_of_not_covers (hne : ranges ≠ []) (hnot : ¬Covers ranges ip.num)
    : SearchesRight ranges ip ↔ leavesPair (below ranges ip) 0 ranges.length = false := by
  have hpos : 0 < ranges.length := length_pos_iff.2 hne
  have hlen : 0 + ranges.length - 1 = ranges.length - 1 := by omega
  constructor
  . rintro ⟨turns, found, hsearch, -⟩
    rw [← Bool.not_eq_true]
    intro hpair
    have hrunning := searchLoop_pair hnot _ 0 turns (by omega) (by omega) hpair
    rw [hlen] at hrunning
    rw [binarySearch, hrunning] at hsearch
    cases hsearch
  . intro hpair
    have hsearch := searchLoop_not_found hnot _ _ _ hpos (by omega) hpair (Nat.le_refl _)
    rw [hlen] at hsearch
    exact ⟨_, _, hsearch, iff_of_false (by simp) hnot⟩

theorem binarySearch_iff (hne : ranges ≠ []) (hsorted : Sorted ranges)
    : SearchesRight ranges ip
        ↔
      (∀ k, ∀ hk : k < ranges.length, ranges[k].Mem ip.num → ComparedRight ranges ip k)
        ∧ (¬Covers ranges ip.num → leavesPair (below ranges ip) 0 ranges.length = false) := by
  by_cases hcovers : Covers ranges ip.num
  . obtain ⟨range, hrange, hmem⟩ := hcovers
    obtain ⟨k, hk, rfl⟩ := mem_iff_getElem.1 hrange
    rw [searchesRight_of_mem hsorted hk hmem]
    constructor
    . intro h
      refine ⟨?_, fun hnot => absurd ⟨_, hrange, hmem⟩ hnot⟩
      intro l hl hmem'
      obtain rfl := hsorted.eq_of_mem hk hl hmem hmem'
      exact h
    . intro h
      exact h.1 k hk hmem
  . rw [searchesRight_of_not_covers hne hcovers]
    constructor
    . intro h
      exact ⟨fun k hk hmem => absurd ⟨_, getElem_mem hk, hmem⟩ hcovers, fun _ => h⟩
    . intro h
      exact h.2 hcovers

def host (last : UInt32) : IPV6 := ⟨0x0a000000 + last, 0xFFFF, 0, 0⟩

def fourHosts : Ranges := [1, 3, 5, 7].map fun last => ⟨host last, host last⟩

theorem fourHosts_sorted : Sorted fourHosts := ⟨by decide, by decide⟩

theorem not_covers_fourHosts : ¬Covers fourHosts (host 4).num := by
  unfold Covers Range.Mem
  decide

theorem binarySearch_iff_fourHosts
    : SearchesRight fourHosts (host 5)
        ↔
      (∀ k, ∀ hk : k < fourHosts.length, fourHosts[k].Mem (host 5).num → ComparedRight fourHosts (host 5) k)
        ∧ (¬Covers fourHosts (host 5).num → leavesPair (below fourHosts (host 5)) 0 fourHosts.length = false) :=
  binarySearch_iff (by decide) fourHosts_sorted

theorem fourHosts_not_searchesRight
    : fourHosts ≠ [] ∧ Sorted fourHosts ∧ ¬SearchesRight fourHosts (host 4) := by
  refine ⟨by decide, fourHosts_sorted, ?_⟩
  rw [searchesRight_of_not_covers (by decide) not_covers_fourHosts, show fourHosts.length = 4 from rfl,
    leavesPair_of_lt _ _ (by decide), if_neg (by decide)]
  change ¬leavesPair _ 2 2 = false
  rw [leavesPair_two]
  decide

end Search

end IPRange

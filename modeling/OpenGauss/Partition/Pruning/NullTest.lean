import OpenGauss.Partition.Locate
import OpenGauss.Partition.Pruning.Impl
import Mathlib.Data.Nat.Find

/-!
This module contains when the test for null of the first key column of a range partitioned table keeps
the partition of a row.
-/

open List

namespace Partition

variable {V : Type} [LinearOrder V]

def PruningResult.full : PruningResult V := ⟨.full, none, none⟩

def PruningResult.empty : PruningResult V := ⟨.empty, none, none⟩

def PruningResult.Selects (result : PruningResult V) (p : Nat) : Prop :=
  result.state = .full
    ∨ result.state = .subset ∧ ∃ bm, result.bmRangeSelectedPartitions = some bm ∧ p ∈ bm

def varIsInPartitionKey (attrNo : Int) (partKeyAttrs : List Nat) : Option Nat :=
  if attrNo ≤ 0 then none else partKeyAttrs.findIdx? fun (attr : Nat) => (attr : Int) == attrNo

def rangePruningFromNullTest (map : RangePartitionMap V) (isInterval : Bool) (varattno : Int)
    (isNull : Bool) : PruningResult V :=
  if varIsInPartitionKey varattno map.partitionKey ≠ some 0 then
    .full
  else if ¬ isNull then
    .full
  else if isInterval then
    .empty
  else
    let last := map.rangeElements.length - 1
    match map.rangeElements[last]? with
    | some range =>
      if range.boundary.head? = some .maxValue then ⟨.subset, none, some [last]⟩ else .empty
    | none => .empty

variable {map : RangePartitionMap V}

def RangePartitionMap.firstBound (map : RangePartitionMap V) (i : Nat) : Option (Const V) :=
  (map.rangeElements[i]?).bind (·.boundary.head?)

theorem null_lt_bound_iff (hwf : map.WF) (hkey : 0 < map.partitionKey.length) (nullsMinimal : Bool)
    (keys : List (Option (Const V))) {i : Nat} (hi : i < map.rangeElements.length)
    : (rank nullsMinimal (some .null) :: keys.map (rank nullsMinimal) < map.bound nullsMinimal i
          ↔ nullsMinimal = true ∨ map.firstBound i = some .maxValue)
        ∧ rank nullsMinimal (some .null) :: keys.map (rank nullsMinimal) ≠ map.bound nullsMinimal i := by
  have hmem := getElem_mem hi
  have hlen := hwf.keyNum _ hmem
  have hnull := hwf.notNull _ hmem
  have hget := getElem?_eq_getElem hi
  rw [RangePartitionMap.bound, RangePartitionMap.boundaryAt_eq map i hi, RangePartitionMap.firstBound, hget,
    Option.bind_some]
  cases hboundary : map.rangeElements[i].boundary with
  | nil =>
    rw [hboundary, length_nil] at hlen
    omega
  | cons c boundary =>
    rw [hboundary, mem_cons, not_or] at hnull
    rw [map_cons, map_cons, cons_lt_cons_iff, head?_cons]
    cases c with
    | null => exact absurd rfl hnull.1
    | maxValue =>
      cases nullsMinimal with
      | true => simp [rank, Prod.Lex.toLex_lt_toLex]
      | false => simp [rank, Prod.Lex.toLex_lt_toLex]
    | value v =>
      cases nullsMinimal with
      | true => simp [rank, Prod.Lex.toLex_lt_toLex]
      | false => simp [rank, Prod.Lex.toLex_lt_toLex]

theorem reaches_null_iff (hwf : map.WF) (hkey : 0 < map.partitionKey.length) (nullsMinimal topClosed : Bool)
    (keys : List (Option (Const V))) {i : Nat} (hi : i < map.rangeElements.length)
    : Reaches topClosed ((some .null :: keys).map (rank nullsMinimal)) (map.bound nullsMinimal i)
        ↔
      nullsMinimal = true ∨ map.firstBound i = some .maxValue := by
  obtain ⟨hlt, hne⟩ := null_lt_bound_iff hwf hkey nullsMinimal keys hi
  rw [map_cons, ← hlt]
  unfold Reaches
  cases topClosed with
  | true => rfl
  | false =>
    rw [if_neg (by decide), le_iff_lt_or_eq]
    constructor
    . intro h
      cases h with
      | inl h => exact h
      | inr h => exact absurd h hne
    . exact Or.inl

theorem routes_iff_isSlot (s : Session V) (hwf : map.WF)
    (hrange : ∀ element ∈ map.rangeElements, element.isInterval = false) (topClosed : Bool)
    (keyValues : List (Const V)) (hlen : keyValues.length = map.partitionKey.length) (p : Nat)
    : (∃ id, partitionRoutingForValue s keyValues topClosed (.range map) = .ok id ∧ id.partSeq = p)
        ↔
      IsSlot s.nullsMinimal map topClosed (keyValues.map some) p := by
  have hlen' : (keyValues.map some).length = map.partitionKey.length := by
    simpa using hlen
  rcases getRangePartitionSeq_spec hwf s.nullsMinimal topClosed (keyValues.map some) hlen' with
    ⟨slot, hseq, hslot⟩ | ⟨hseq, hnone⟩
  . have hslotlt : slot < map.rangeElements.length := hslot.1.1
    have hpos : (0 : Int) ≤ (slot : Int) := by omega
    have hinterval : ¬ map.rangeElements[slot].isInterval = true := by
      rw [hrange _ (getElem_mem hslotlt)]
      decide
    simp only [partitionRoutingForValue, routingForRange, getRangePartitionOid, hseq, bind, Except.bind,
      if_pos hpos, Int.toNat_natCast, getElem?_eq_getElem hslotlt, if_neg hinterval, Except.ok.injEq,
      exists_eq_left', Int.natCast_inj]
    constructor
    . rintro rfl
      exact hslot
    . intro hslot'
      exact hslot.unique hslot'
  . have hneg : ¬ (0 : Int) ≤ -1 := by decide
    simp only [partitionRoutingForValue, routingForRange, getRangePartitionOid, hseq, bind, Except.bind,
      if_neg hneg, Except.ok.injEq, exists_eq_left']
    constructor
    . intro heq
      omega
    . intro hslot
      exact absurd hslot.1.2 (hnone p hslot.1.1)

theorem selects_rangeNullTest_iff (hpos : 0 < map.rangeElements.length) {varattno : Int}
    (hoffset : varIsInPartitionKey varattno map.partitionKey = some 0) (p : Nat)
    : (rangePruningFromNullTest map false varattno true).Selects p
        ↔
      p = map.rangeElements.length - 1 ∧ map.firstBound p = some .maxValue := by
  have hget := getElem?_eq_getElem (show map.rangeElements.length - 1 < map.rangeElements.length by omega)
  rw [rangePruningFromNullTest, if_neg (not_not.mpr hoffset), if_neg (by decide), if_neg (by decide)]
  simp only [hget]
  split
  . next hmax =>
    constructor
    . rintro (hfull | ⟨_, bm, hbm, hmem⟩)
      . cases hfull
      . cases hbm
        have hlast : p = map.rangeElements.length - 1 := by simpa using hmem
        refine ⟨hlast, ?_⟩
        rw [hlast, RangePartitionMap.firstBound, hget]
        exact hmax
    . rintro ⟨rfl, _⟩
      exact Or.inr ⟨rfl, _, rfl, by simp⟩
  . next hmax =>
    constructor
    . rintro (hfull | ⟨hsubset, _⟩)
      . cases hfull
      . cases hsubset
    . rintro ⟨rfl, hfirst⟩
      rw [RangePartitionMap.firstBound, hget] at hfirst
      exact absurd hfirst hmax

-- Where a null key is found by the test: nulls below all values leave only the one partition of a
-- map, nulls above them only a single partition whose bound begins with `MAXVALUE`.
def NullTestKeeps (nullsMinimal : Bool) (map : RangePartitionMap V) : Prop :=
  if nullsMinimal then
    map.rangeElements.length = 1 ∧ map.firstBound 0 = some .maxValue
  else
    ∀ i, map.firstBound i = some .maxValue → i = map.rangeElements.length - 1

omit [LinearOrder V] in
theorem firstBound_lt {i : Nat} {c : Const V} (h : map.firstBound i = some c)
    : i < map.rangeElements.length := by
  by_contra hge
  rw [RangePartitionMap.firstBound, getElem?_eq_none (by omega)] at h
  cases h

theorem isSlot_null_iff (hwf : map.WF) (hkey : 0 < map.partitionKey.length) (nullsMinimal topClosed : Bool)
    (keys : List (Option (Const V))) (p : Nat)
    : IsSlot nullsMinimal map topClosed (some .null :: keys) p
        ↔
      IsLeast {i | i < map.rangeElements.length ∧ (nullsMinimal = true ∨ map.firstBound i = some .maxValue)}
        p := by
  have hset : {i | i < map.rangeElements.length
        ∧ Reaches topClosed ((some .null :: keys).map (rank nullsMinimal)) (map.bound nullsMinimal i)}
      = {i | i < map.rangeElements.length
        ∧ (nullsMinimal = true ∨ map.firstBound i = some .maxValue)} := by
    ext i
    constructor
    . rintro ⟨hi, hreaches⟩
      exact ⟨hi, (reaches_null_iff hwf hkey _ _ _ hi).mp hreaches⟩
    . rintro ⟨hi, hreaches⟩
      exact ⟨hi, (reaches_null_iff hwf hkey _ _ _ hi).mpr hreaches⟩
  unfold IsSlot
  rw [hset]

theorem nullTest_keeps_iff (s : Session V) (hwf : map.WF)
    (hrange : ∀ element ∈ map.rangeElements, element.isInterval = false) {varattno : Int}
    (hoffset : varIsInPartitionKey varattno map.partitionKey = some 0) (topClosed : Bool)
    (keys : List (Const V)) (hlen : (.null :: keys).length = map.partitionKey.length)
    : (∀ p : Nat,
        (∃ id, partitionRoutingForValue s (.null :: keys) topClosed (.range map) = .ok id ∧ id.partSeq = p) →
        (rangePruningFromNullTest map false varattno true).Selects p)
      ↔
    NullTestKeeps s.nullsMinimal map := by
  have hpos := hwf.pos
  have hkey : 0 < map.partitionKey.length := by
    rw [← hlen, List.length_cons]
    omega
  simp only [routes_iff_isSlot s hwf hrange topClosed _ hlen, List.map_cons,
    isSlot_null_iff hwf hkey, selects_rangeNullTest_iff hpos hoffset]
  unfold NullTestKeeps
  split
  . next hminimal =>
    simp only [hminimal, true_or, and_true]
    have hzero : IsLeast {i | i < map.rangeElements.length} 0 := ⟨hpos, fun _ _ => Nat.zero_le _⟩
    constructor
    . intro h
      obtain ⟨hlast, hfirst⟩ := h 0 hzero
      exact ⟨by omega, hfirst⟩
    . rintro ⟨hone, hfirst⟩ p hleast
      obtain rfl := hleast.unique hzero
      exact ⟨by omega, hfirst⟩
  . next hminimal =>
    simp only [hminimal, Bool.false_eq_true, false_or]
    constructor
    . intro h i hfirst
      -- The least of the partitions with such a bound is the last one, hence so is `i`.
      have hex : ∃ i, i < map.rangeElements.length ∧ map.firstBound i = some .maxValue :=
        ⟨i, firstBound_lt hfirst, hfirst⟩
      classical
      obtain ⟨hlast, _⟩ := h (Nat.find hex) ⟨Nat.find_spec hex, fun j hj => Nat.find_min' hex hj⟩
      have hle := Nat.find_min' hex ⟨firstBound_lt hfirst, hfirst⟩
      have hlt := firstBound_lt hfirst
      omega
    . intro h p hleast
      exact ⟨h p hleast.1.2, hleast.1.2⟩

def maxValueMap : RangePartitionMap Int where
  partitionKey := [1, 2]
  rangeElements :=
    [⟨1, [.value 10, .value 20], false⟩, ⟨2, [.maxValue, .value 5], false⟩,
      ⟨3, [.maxValue, .maxValue], false⟩]
  intervalValue := id

theorem maxValueMap_built : maxValueMap.Built where
  pos := by decide
  keyNum := by decide
  notNull := by decide
  increasing := by
    intro i j hij hj
    have hj' : j < 3 := hj
    have hcases : i = 0 ∧ j = 1 ∨ i = 0 ∧ j = 2 ∨ i = 1 ∧ j = 2 := by omega
    rcases hcases with ⟨rfl, rfl⟩ | ⟨rfl, rfl⟩ | ⟨rfl, rfl⟩
    . rfl
    . rfl
    . rfl
  interval := by decide

def twoColumnMap : RangePartitionMap Int where
  partitionKey := [1, 2]
  rangeElements := [⟨1, [.value 10, .value 20], false⟩, ⟨2, [.maxValue, .value 5], false⟩]
  intervalValue := id

theorem twoColumnMap_built : twoColumnMap.Built where
  pos := by decide
  keyNum := by decide
  notNull := by decide
  increasing := by
    intro i j hij hj
    have hj' : j < 2 := hj
    obtain ⟨rfl, rfl⟩ : i = 0 ∧ j = 1 := by omega
    rfl
  interval := by decide

theorem nullTest_keeps_iff_twoColumnMap
    : partitionRoutingForValue intSession [.null, .value 7] true (.range twoColumnMap)
          = .ok ⟨.range, 1, true, 2⟩
        ∧ (rangePruningFromNullTest twoColumnMap false 1 true).Selects 1 := by
  refine ⟨rfl, ?_⟩
  apply (nullTest_keeps_iff intSession twoColumnMap_built.wf (by decide) (by decide) true [.value 7] rfl).mpr
  . intro i hfirst
    have hlt : i < 2 := firstBound_lt hfirst
    have hcases : i = 0 ∨ i = 1 := by omega
    rcases hcases with rfl | rfl
    . cases hfirst
    . rfl
  . exact ⟨_, rfl, rfl⟩

theorem nullTest_lost
    : maxValueMap.Built ∧ varIsInPartitionKey 1 maxValueMap.partitionKey = some 0
        ∧ partitionRoutingForValue intSession [.null, .value 7] true (.range maxValueMap)
            = .ok ⟨.range, 1, true, 2⟩
        ∧ ¬ (rangePruningFromNullTest maxValueMap false 1 true).Selects 1 := by
  refine ⟨maxValueMap_built, by decide, rfl, ?_⟩
  rw [selects_rangeNullTest_iff (by decide) (by decide)]
  rintro ⟨hlast, _⟩
  cases hlast

end Partition

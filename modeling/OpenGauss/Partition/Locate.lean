import OpenGauss.Partition.Lemmas
import Mathlib.Data.List.Nodup

/-!
This module contains when the membership check of a partition agrees with the routing.
-/

open List

namespace Partition

section Locate

variable {V : Type} [LinearOrder V] {map : RangePartitionMap V} (s : Session V)

section Range

-- The low boundary as the order sees it.
def RangePartitionMap.lowBound (nullsMinimal : Bool) (map : RangePartitionMap V)
    (element : RangeElement V) : List (ℕ ×ₗ WithBot V) :=
  ((element.boundary.take 1).map fun bound => some (calcLowBoundary map bound)).map
    (rank nullsMinimal)

theorem valueSatisfyLowBoundary_spec (hwf : map.WF) (nullsMinimal : Bool)
    (kvs : List (Option (Const V))) (hlen : kvs.length = map.partitionKey.length)
    (element : RangeElement V) (hmem : element ∈ map.rangeElements)
    (hinterval : element.isInterval = true) (topClosed : Bool)
    : ∃ satisfied, valueSatisfyLowBoundary nullsMinimal map kvs element topClosed = .ok satisfied
        ∧ (satisfied = true ↔ map.lowBound nullsMinimal element < kvs.map (rank nullsMinimal)
          ∨ kvs.map (rank nullsMinimal) = map.lowBound nullsMinimal element ∧ topClosed = true) := by
  have hone := hwf.interval element hmem hinterval
  have hkey := hwf.keyNum element hmem
  rw [hone] at hkey hlen
  obtain ⟨c, hc⟩ := length_eq_one_iff.mp hkey
  have hnull := hwf.notNull element hmem
  rw [hc] at hnull
  obtain ⟨compare, hcompare, hspec⟩ := keyCompare_spec nullsMinimal false kvs
    [some (calcLowBoundary map c)] (by
      apply RangePartitionMap.forall₂_comparable false kvs [calcLowBoundary map c]
      . simpa using hlen
      . cases c with
        | null => simp at hnull
        | maxValue => simp [calcLowBoundary]
        | value v => simp [calcLowBoundary])
  rw [valueSatisfyLowBoundary, valueCmpLowBoundary, partitionKeyCompareForRouting,
    RangePartitionMap.lowBound, hc]
  simp only [take_succ_cons, take_zero, map_cons, map_nil, hcompare, bind, Except.bind]
  simp only [map_cons, map_nil] at hspec
  have heq := hspec.eq_eq
  have hgt := hspec.eq_gt
  cases compare with
  | lt =>
    refine ⟨false, rfl, ?_⟩
    rw [← heq, ← hgt]
    simp
  | eq =>
    refine ⟨topClosed, rfl, ?_⟩
    rw [← heq, ← hgt]
    simp
  | gt =>
    refine ⟨true, rfl, ?_⟩
    rw [← heq, ← hgt]
    simp

-- Between the bound before and its own, yet below the low boundary of an interval partition.
def RangePartitionMap.InGap (s : Session V) (map : RangePartitionMap V) (keyValues : List (Const V))
    (partSeq : Nat) : Prop :=
  IsSlot s.nullsMinimal map true (keyValues.map some) partSeq
    ∧ ∃ element, map.rangeElements[partSeq]? = some element ∧ element.isInterval = true
      ∧ valueSatisfyLowBoundary s.nullsMinimal map (keyValues.map some) element true = .ok false

theorem isPartKeyValuesInPartition_iff (hwf : map.WF)
    (keyValues : List (Const V)) (hlen : keyValues.length = map.partitionKey.length) (partSeq : Nat)
    (hseq : partSeq < map.rangeElements.length)
    : isPartKeyValuesInPartition s map keyValues partSeq = .ok true
        ↔
      IsSlot s.nullsMinimal map true (keyValues.map some) partSeq := by
  have hlen' : (keyValues.map some).length = map.partitionKey.length := by
    simpa using hlen
  obtain ⟨top, htop, htopspec⟩ := hwf.compare_spec s.nullsMinimal (keyValues.map some) hlen' partSeq hseq
  cases partSeq with
  | zero =>
    rw [isPartKeyValuesInPartition, if_pos rfl]
    simp only [htop, bind, Except.bind, Except.ok.injEq, beq_iff_eq]
    rw [htopspec.eq_lt]
    constructor
    . intro hlt
      apply isSlot_of hseq
      . exact hlt
      . omega
    . intro hslot
      exact hslot.1.2
  | succ prev =>
    obtain ⟨bottom, hbottom, hbottomspec⟩ :=
      hwf.compare_spec s.nullsMinimal (keyValues.map some) hlen' prev (by omega)
    rw [isPartKeyValuesInPartition, if_neg (by omega)]
    simp only [Nat.add_sub_cancel, hbottom, htop, bind, Except.bind, Except.ok.injEq,
      Bool.and_eq_true, bne_iff_ne, beq_iff_eq]
    rw [hbottomspec.ne_lt, htopspec.eq_lt]
    constructor
    . rintro ⟨hge, hlt⟩
      apply isSlot_of hseq
      . exact hlt
      . intro i hi
        apply not_lt_of_ge
        apply le_trans _ hge
        apply hwf.bound_le s.nullsMinimal (by omega) (by omega)
    . intro hslot
      refine ⟨?_, hslot.1.2⟩
      apply le_of_not_gt
      intro hlt
      have hle := hslot.2 ⟨(by omega : prev < map.rangeElements.length), hlt⟩
      omega

theorem routingForRange_iff (hwf : map.WF) (partArea : PartitionArea) (keyValues : List (Const V))
    (hlen : keyValues.length = map.partitionKey.length) (partSeq : Nat)
    : (∃ id, routingForRange s map partArea keyValues true = .ok id ∧ id.partSeq = partSeq)
        ↔
      IsSlot s.nullsMinimal map true (keyValues.map some) partSeq
        ∧ ¬ map.InGap s keyValues partSeq := by
  have hlen' : (keyValues.map some).length = map.partitionKey.length := by
    simpa using hlen
  rcases getRangePartitionSeq_spec hwf s.nullsMinimal true (keyValues.map some) hlen' with
    ⟨slot, hseq, hslot⟩ | ⟨hseq, hnone⟩
  . have hslotlt : slot < map.rangeElements.length := hslot.1.1
    have helement := List.getElem?_eq_getElem hslotlt
    have hpos : (0 : Int) ≤ (slot : Int) := by omega
    simp only [routingForRange, getRangePartitionOid, hseq, bind, Except.bind, if_pos hpos,
      Int.toNat_natCast, helement]
    by_cases hinterval : map.rangeElements[slot].isInterval = true
    . obtain ⟨satisfied, hsatisfied, _⟩ := valueSatisfyLowBoundary_spec hwf s.nullsMinimal
        (keyValues.map some) hlen' _ (getElem_mem hslotlt) hinterval true
      rw [if_pos hinterval, hsatisfied]
      cases satisfied with
      | true =>
        simp only [if_true, Except.ok.injEq, exists_eq_left', Int.natCast_inj]
        constructor
        . intro heq
          subst heq
          refine ⟨hslot, ?_⟩
          rintro ⟨_, element, hget, _, hlow⟩
          rw [helement] at hget
          cases hget
          rw [hsatisfied] at hlow
          cases hlow
        . rintro ⟨hslot', _⟩
          apply hslot.unique hslot'
      | false =>
        simp only [Bool.false_eq_true, if_false, Except.ok.injEq, exists_eq_left']
        constructor
        . intro heq
          omega
        . rintro ⟨hslot', hgap⟩
          exfalso
          apply hgap
          have heq := hslot.unique hslot'
          subst heq
          exact ⟨hslot, _, helement, hinterval, hsatisfied⟩
    . rw [if_neg hinterval]
      simp only [Except.ok.injEq, exists_eq_left', Int.natCast_inj]
      constructor
      . intro heq
        subst heq
        refine ⟨hslot, ?_⟩
        rintro ⟨_, element, hget, hinterval', _⟩
        rw [helement] at hget
        cases hget
        exact hinterval hinterval'
      . rintro ⟨hslot', _⟩
        apply hslot.unique hslot'
  . simp only [routingForRange, getRangePartitionOid, hseq, bind, Except.bind]
    constructor
    . rintro ⟨id, hid, heq⟩
      exfalso
      have hneg : ¬ (0 : Int) ≤ -1 := by decide
      rw [if_neg hneg] at hid
      cases hid
      have heq' : (-1 : Int) = (partSeq : Int) := heq
      omega
    . rintro ⟨hslot, _⟩
      exact absurd hslot.1.2 (hnone partSeq hslot.1.1)

end Range

section List

structure ListPartitionMap.Consistent (map : ListPartitionMap V) : Prop where
  entry : ∀ entry ∈ map.ht, ∃ element, map.listElements[entry.partSeq]? = some element
    ∧ entry.partRelOid = element.partitionOid ∧ entry.key ∈ element.boundary
  default : (map.defaultPartSeqNo = invalidPartRelSeqNo ∧ map.defaultPartRelOid = invalidOid)
    ∨ ∃ (n : Nat) (element : ListPartElement V), map.defaultPartSeqNo = n
      ∧ map.listElements[n]? = some element ∧ map.defaultPartRelOid = element.partitionOid
      ∧ isDefaultValueListPartition element = true

theorem insertPartKeys_spec (partElem : ListPartElement V) (partSeqNo : Nat)
    (keys : List (List (Const V))) (ht : List (PartElementHashEntry V))
    : ∀ entry ∈ insertPartKeys partElem partSeqNo keys ht,
        entry ∈ ht ∨ ∃ key ∈ keys, entry = ⟨key, partElem.partitionOid, partSeqNo⟩ := by
  induction keys generalizing ht with
  | nil =>
    intro entry hentry
    exact .inl hentry
  | cons key keys ih =>
    intro entry hentry
    rw [insertPartKeys] at hentry
    split at hentry
    . cases ih _ entry hentry with
      | inl hold => exact .inl hold
      | inr hnew =>
        obtain ⟨key', hkey', heq⟩ := hnew
        exact .inr ⟨key', .tail _ hkey', heq⟩
    . grind

theorem insertPartKeyHashTable_consistent (map : ListPartitionMap V) (partElem : ListPartElement V)
    (partSeqNo : Nat) (hmap : map.Consistent) (hget : map.listElements[partSeqNo]? = some partElem)
    : (insertPartKeyHashTable map partElem partSeqNo).Consistent
        ∧ (insertPartKeyHashTable map partElem partSeqNo).listElements = map.listElements := by
  rw [insertPartKeyHashTable]
  split
  . next hdefault =>
    refine ⟨⟨hmap.entry, .inr ⟨partSeqNo, partElem, rfl, hget, rfl, hdefault⟩⟩, rfl⟩
  . refine ⟨⟨?_, hmap.default⟩, rfl⟩
    intro entry hentry
    cases insertPartKeys_spec partElem partSeqNo _ _ entry hentry with
    | inl hold => exact hmap.entry entry hold
    | inr hnew =>
      obtain ⟨key, hkey, rfl⟩ := hnew
      exact ⟨partElem, hget, rfl, hkey⟩

theorem buildListPartitionMap_go_consistent (map : ListPartitionMap V)
    (prev : Option (ListPartElement V)) (done elements : List (ListPartElement V))
    (hmap : map.Consistent) (hsplit : map.listElements = done ++ elements)
    : (buildListPartitionMap.go map prev done.length elements).Consistent
        ∧ (buildListPartitionMap.go map prev done.length elements).listElements
            = map.listElements := by
  induction elements generalizing map prev done with
  | nil => exact ⟨hmap, rfl⟩
  | cons partElem elements ih =>
    have hget : map.listElements[done.length]? = some partElem := by
      rw [hsplit, getElem?_append_right (Nat.le_refl _), Nat.sub_self]
      rfl
    have hlen : (done ++ [partElem]).length = done.length + 1 := by simp
    have hsplit' : done ++ partElem :: elements = (done ++ [partElem]) ++ elements := by simp
    rw [buildListPartitionMap.go]
    split
    . have h := ih map (some partElem) (done ++ [partElem]) hmap (hsplit.trans hsplit')
      rw [hlen] at h
      exact h
    . obtain ⟨hcons, hsame⟩ := insertPartKeyHashTable_consistent map partElem done.length hmap hget
      have h := ih _ (some partElem) (done ++ [partElem]) hcons (hsame.trans (hsplit.trans hsplit'))
      rw [hlen, hsame] at h
      exact h

theorem buildListPartitionMap_consistent (partitionKey : List Nat) (listElements : List (ListPartElement V))
    : (buildListPartitionMap partitionKey listElements).Consistent
        ∧ (buildListPartitionMap partitionKey listElements).listElements = listElements := by
  apply buildListPartitionMap_go_consistent _ none [] listElements
  . refine ⟨?_, .inl ⟨rfl, rfl⟩⟩
    simp
  . rfl

theorem getListPartitionOid_spec {map : ListPartitionMap V} (hmap : map.Consistent)
    (keyValues : List (Const V))
    : (getListPartitionOid map keyValues).2 = -1
        ∨ ∃ (n : Nat) (element : ListPartElement V), (getListPartitionOid map keyValues).2 = n
          ∧ map.listElements[n]? = some element
          ∧ (getListPartitionOid map keyValues).1 = element.partitionOid := by
  rw [getListPartitionOid]
  split
  . next entry hfind =>
    obtain ⟨element, hget, hoid, _⟩ := hmap.entry entry (mem_of_find?_eq_some hfind)
    exact .inr ⟨entry.partSeq, element, rfl, hget, hoid⟩
  . cases hmap.default with
    | inl hnone => exact .inl hnone.1
    | inr hsome =>
      obtain ⟨n, element, hseq, hget, hoid, _⟩ := hsome
      exact .inr ⟨n, element, hseq, hget, hoid⟩

theorem isPartKeyValuesInListPartition_iff {map : ListPartitionMap V} (hmap : map.Consistent)
    (hnodup : (map.listElements.map (·.partitionOid)).Nodup) (keyValues : List (Const V))
    (partSeq : Nat) (hseq : partSeq < map.listElements.length)
    : isPartKeyValuesInListPartition map keyValues partSeq = .ok true
        ↔
      (getListPartitionOid map keyValues).2 = partSeq := by
  have hspec := getListPartitionOid_spec hmap keyValues
  rw [isPartKeyValuesInListPartition]
  generalize getListPartitionOid map keyValues = res at *
  obtain ⟨sourceOid, sourcePartSeq⟩ := res
  simp only at hspec ⊢
  rcases hspec with hnone | ⟨n, element, hn, hget, hoid⟩
  . have hneg : sourcePartSeq < 0 := by omega
    rw [if_pos hneg, hnone]
    constructor
    . intro h
      cases h
    . omega
  . have hpos : ¬ sourcePartSeq < 0 := by omega
    obtain ⟨hnlt, hnget⟩ := List.getElem?_eq_some_iff.mp hget
    rw [if_neg hpos, List.getElem?_eq_getElem hseq, hn, hoid, ← hnget]
    simp only [Except.ok.injEq, beq_iff_eq, Int.natCast_inj]
    constructor
    . intro heq
      have hleft : n < (map.listElements.map (·.partitionOid)).length := by simpa using hnlt
      have hright : partSeq < (map.listElements.map (·.partitionOid)).length := by simpa using hseq
      have hoids : (map.listElements.map (·.partitionOid))[n]
          = (map.listElements.map (·.partitionOid))[partSeq] := by
        simpa using heq
      exact hnodup.getElem_inj_iff.mp hoids
    . intro heq
      subst heq
      rfl

end List

section Hash

omit [LinearOrder V] in
theorem getHashPartitionOid_spec (map : HashPartitionMap)
    (hpos : 0 < map.hashElements.length) (keyValues : List (Const V))
    : (getHashPartitionOid s map keyValues).2 = -1
        ∨ ∃ n : Nat, (getHashPartitionOid s map keyValues).2 = n
          ∧ map.hashElements[n]? = some (getHashPartitionOid s map keyValues).1 := by
  rw [getHashPartitionOid]
  split
  . split
    . exact .inr ⟨0, rfl, by simp [getD_eq_getElem?_getD, hpos]⟩
    . exact .inl rfl
  . next hashValue _ =>
    have hmod := Nat.mod_lt hashValue.toNat hpos
    have hlt : map.hashElements.length - hashValue.toNat % map.hashElements.length - 1
        < map.hashElements.length := by omega
    refine .inr ⟨_, rfl, ?_⟩
    simp only [getD_eq_getElem?_getD, List.getElem?_eq_getElem hlt, Option.getD_some]

omit [LinearOrder V] in
theorem isPartKeyValuesInHashPartition_iff (map : HashPartitionMap)
    (hnodup : map.hashElements.Nodup) (keyValues : List (Const V)) (partSeq : Nat)
    (hseq : partSeq < map.hashElements.length)
    : isPartKeyValuesInHashPartition s map keyValues partSeq = .ok true
        ↔
      (getHashPartitionOid s map keyValues).2 = partSeq := by
  have hspec := getHashPartitionOid_spec s map (by omega) keyValues
  rw [isPartKeyValuesInHashPartition]
  generalize getHashPartitionOid s map keyValues = res at *
  obtain ⟨sourceOid, sourcePartSeq⟩ := res
  simp only at hspec ⊢
  rcases hspec with hnone | ⟨n, hn, hget⟩
  . have hneg : sourcePartSeq < 0 := by omega
    rw [if_pos hneg, hnone]
    constructor
    . intro h
      cases h
    . omega
  . have hpos : ¬ sourcePartSeq < 0 := by omega
    obtain ⟨hnlt, hnget⟩ := List.getElem?_eq_some_iff.mp hget
    rw [if_neg hpos, List.getElem?_eq_getElem hseq, hn, ← hnget]
    simp only [Except.ok.injEq, beq_iff_eq, Int.natCast_inj]
    apply hnodup.getElem_inj_iff

end Hash

namespace PartitionMap

-- The maps that the code builds from the partitions of a table.
def WF : PartitionMap V → Prop
  | .range map | .interval map => map.WF
  | .list map => (∃ listElements, map = buildListPartitionMap map.partitionKey listElements)
      ∧ (map.listElements.map (·.partitionOid)).Nodup
  | .hash map => map.hashElements.Nodup

def partitionKey : PartitionMap V → List Nat
  | .range map | .interval map => map.partitionKey
  | .list map => map.partitionKey
  | .hash map => map.partitionKey

def partitionNum : PartitionMap V → Nat
  | .range map | .interval map => map.rangeElements.length
  | .list map => map.listElements.length
  | .hash map => map.hashElements.length

def InGap (s : Session V) (map : PartitionMap V) (keyValues : List (Const V)) (partSeq : Nat)
    : Prop :=
  match map with
  | .range map | .interval map => map.InGap s keyValues partSeq
  | .list _ | .hash _ => False

end PartitionMap

theorem isTupleLocatePartition_iff_of_range
    (hwf : map.WF) (partArea : PartitionArea) (keyValues : List (Const V))
    (hlen : keyValues.length = map.partitionKey.length) (partSeq : Nat)
    (hseq : partSeq < map.rangeElements.length)
    : (isPartKeyValuesInPartition s map keyValues partSeq = .ok true
          ↔ ∃ id, routingForRange s map partArea keyValues true = .ok id ∧ id.partSeq = partSeq)
        ↔
      ¬ map.InGap s keyValues partSeq := by
  rw [isPartKeyValuesInPartition_iff s hwf keyValues hlen partSeq hseq,
    routingForRange_iff s hwf partArea keyValues hlen partSeq]
  constructor
  . intro h hgap
    exact (h.mp hgap.1).2 hgap
  . intro h
    constructor
    . intro hslot
      exact ⟨hslot, h⟩
    . intro hslot
      exact hslot.1

-- The check and the routing agree on everything but the gaps before interval partitions.
theorem isTupleLocatePartition_iff_routing (s : Session V) (map : PartitionMap V) (hwf : map.WF)
    (partSeq : Nat) (hseq : partSeq < map.partitionNum) (keyValues : List (Const V))
    (hlen : keyValues.length = map.partitionKey.length)
    : (isTupleLocatePartition s map partSeq keyValues = .ok true
          ↔ ∃ id, partitionRoutingForValue s keyValues true map = .ok id ∧ id.partSeq = partSeq)
        ↔
      ¬ map.InGap s keyValues partSeq := by
  have hneg : ¬ (partSeq : Int) < 0 := by omega
  cases map with
  | range map =>
    have hlt : ¬ map.rangeElements.length ≤ partSeq := Nat.not_le_of_lt hseq
    simp only [isTupleLocatePartition, if_neg hneg, Int.toNat_natCast, if_neg hlt]
    apply isTupleLocatePartition_iff_of_range s hwf .range keyValues hlen partSeq hseq
  | interval map =>
    have hlt : ¬ map.rangeElements.length ≤ partSeq := Nat.not_le_of_lt hseq
    simp only [isTupleLocatePartition, if_neg hneg, Int.toNat_natCast, if_neg hlt]
    apply isTupleLocatePartition_iff_of_range s hwf .interval keyValues hlen partSeq hseq
  | list map =>
    obtain ⟨⟨listElements, hbuild⟩, hnodup⟩ := hwf
    have hlt : ¬ map.listElements.length ≤ partSeq := Nat.not_le_of_lt hseq
    have hcons : map.Consistent := by
      rw [hbuild]
      apply (buildListPartitionMap_consistent _ _).1
    simp only [isTupleLocatePartition, if_neg hneg, Int.toNat_natCast, if_neg hlt,
      PartitionMap.InGap, not_false_eq_true, iff_true]
    rw [isPartKeyValuesInListPartition_iff hcons hnodup keyValues partSeq hseq]
    simp [partitionRoutingForValue]
  | hash map =>
    have hlt : ¬ map.hashElements.length ≤ partSeq := Nat.not_le_of_lt hseq
    simp only [isTupleLocatePartition, if_neg hneg, Int.toNat_natCast, if_neg hlt,
      PartitionMap.InGap, not_false_eq_true, iff_true]
    rw [isPartKeyValuesInHashPartition_iff s map hwf keyValues partSeq hseq]
    simp [partitionRoutingForValue]

def gapMap : RangePartitionMap Int where
  partitionKey := [1]
  rangeElements := [⟨1, [.value 10], false⟩, ⟨2, [.value 30], true⟩]
  intervalValue := (· - 10)

def intSession : Session Int where
  aFormat := true
  nullsMinimal := false
  hashValueCombination hashValue v := hashValue + BitVec.ofInt 32 v

theorem gapMap_wf : gapMap.WF where
  pos := by decide
  keyNum := by decide
  notNull := by decide
  increasing := by
    intro i j hij hj
    have hj' : j < 2 := hj
    obtain ⟨rfl, rfl⟩ : i = 0 ∧ j = 1 := by omega
    have hlt : rank false (some (.value (10 : Int))) < rank false (some (.value 30)) := by
      rw [rank_value_lt_value]
      decide
    exact cons_lt_cons_iff.mpr (.inl hlt)
  interval := by decide

theorem isTupleLocatePartition_iff_routing_gapMap
    : isTupleLocatePartition intSession (.interval gapMap) (1 : Nat) [.value 25] = .ok true
        ↔
      ∃ id, partitionRoutingForValue intSession [.value 25] true (.interval gapMap) = .ok id
        ∧ id.partSeq = (1 : Nat) := by
  apply (isTupleLocatePartition_iff_routing intSession (.interval gapMap) gapMap_wf 1 (by decide)
    [.value 25] rfl).mpr
  rintro ⟨_, element, hget, _, hlow⟩
  have heq : element = ⟨2, [.value 30], true⟩ := (Option.some.inj hget).symm
  subst heq
  cases hlow

theorem isTupleLocatePartition_gap
    : (PartitionMap.interval gapMap).WF
        ∧ isTupleLocatePartition intSession (.interval gapMap) (1 : Nat) [.value 15] = .ok true
        ∧ partitionRoutingForValue intSession [.value 15] true (.interval gapMap)
            = .ok ⟨.interval, -1, false, invalidOid⟩ := by
  refine ⟨gapMap_wf, rfl, rfl⟩

end Locate

variable {V : Type} [LinearOrder V]

-- `partitionRoutingForValue` on a range or interval map, for keys that may be null pointers.
def routingForRangeKeys (s : Session V) (map : RangePartitionMap V) (partArea : PartitionArea)
    (keyValue : List (Option (Const V))) (topClosed : Bool)
    : Except PartitionError PartitionIdentifier := do
  let (partitionId, partSeq) ← getRangePartitionOid s.nullsMinimal map keyValue topClosed
  match if 0 ≤ partSeq then map.rangeElements[partSeq.toNat]? else none with
  | none => .ok ⟨partArea, partSeq, false, partitionId⟩
  | some element =>
    if element.isInterval then
      if ← valueSatisfyLowBoundary s.nullsMinimal map keyValue element topClosed then
        .ok ⟨partArea, partSeq, true, partitionId⟩
      else
        .ok ⟨partArea, -1, false, invalidOid⟩
    else
      .ok ⟨partArea, partSeq, true, partitionId⟩

theorem routingForRange_eq (s : Session V) (map : RangePartitionMap V) (partArea : PartitionArea)
    (keyValue : List (Const V)) (topClosed : Bool)
    : routingForRange s map partArea keyValue topClosed
        =
      routingForRangeKeys s map partArea (keyValue.map some) topClosed := rfl

-- A range map as the code builds it, its order told by the comparison itself.
structure RangePartitionMap.Built (map : RangePartitionMap V) : Prop where
  pos : 0 < map.rangeElements.length
  keyNum : ∀ element ∈ map.rangeElements, element.boundary.length = map.partitionKey.length
  notNull : ∀ element ∈ map.rangeElements, .null ∉ element.boundary
  increasing : ∀ i j, i < j → j < map.rangeElements.length →
    partitonKeyCompare (map.boundaryAt i) (map.boundaryAt j) false = .ok .lt
  interval : ∀ element ∈ map.rangeElements, element.isInterval = true → map.partitionKey.length = 1

theorem RangePartitionMap.Built.wf {map : RangePartitionMap V} (h : map.Built) : map.WF := { h with
  increasing := by
    intro i j hij hj
    have hi := getElem_mem (Nat.lt_trans hij hj)
    have hj' := getElem_mem hj
    obtain ⟨compare, hcompare, hspec⟩ := keyCompare_spec false false (map.boundaryAt i) (map.boundaryAt j) (by
        rw [boundaryAt_eq map j hj]
        apply forall₂_comparable
        . rw [boundaryAt_eq map i (by omega), length_map, h.keyNum _ hi, h.keyNum _ hj']
        . exact h.notNull _ hj')
    have hlt := h.increasing i j hij hj
    rw [partitonKeyCompare, hcompare, Except.ok.injEq] at hlt
    subst hlt
    exact hspec }

-- The key is below the bound, which `topClosed` takes for exclusive.
def StaysBelow (nullsMinimal topClosed : Bool) (map : RangePartitionMap V)
    (kvs : List (Option (Const V))) (i : Nat) : Prop :=
  partitionKeyCompareForRouting nullsMinimal kvs (map.boundaryAt i) = .ok .lt
    ∨ topClosed = false
      ∧ partitionKeyCompareForRouting nullsMinimal kvs (map.boundaryAt i) = .ok .eq

theorem staysBelow_iff {map : RangePartitionMap V} (hwf : map.WF) (nullsMinimal topClosed : Bool)
    (kvs : List (Option (Const V))) (hlen : kvs.length = map.partitionKey.length) {i : Nat}
    (hi : i < map.rangeElements.length)
    : StaysBelow nullsMinimal topClosed map kvs i
        ↔
      Reaches topClosed (kvs.map (rank nullsMinimal)) (map.bound nullsMinimal i) := by
  obtain ⟨compare, hcompare, hspec⟩ := hwf.compare_spec nullsMinimal kvs hlen i hi
  unfold StaysBelow Reaches
  rw [hcompare, Except.ok.injEq, Except.ok.injEq, hspec.eq_lt, hspec.eq_eq]
  cases topClosed with
  | true => simp
  | false => simp [le_iff_lt_or_eq]

-- The key is not below the low boundary that is computed for an interval partition.
def ReachesLowBoundary (nullsMinimal topClosed : Bool) (map : RangePartitionMap V)
    (kvs : List (Option (Const V))) (element : RangeElement V) : Prop :=
  valueCmpLowBoundary nullsMinimal map kvs element = .ok .gt
    ∨ topClosed = true ∧ valueCmpLowBoundary nullsMinimal map kvs element = .ok .eq

theorem valueSatisfyLowBoundary_iff {map : RangePartitionMap V} (hwf : map.WF)
    (nullsMinimal topClosed : Bool) (kvs : List (Option (Const V)))
    (hlen : kvs.length = map.partitionKey.length) {element : RangeElement V}
    (hmem : element ∈ map.rangeElements) (hinterval : element.isInterval = true)
    : ∃ satisfied, valueSatisfyLowBoundary nullsMinimal map kvs element topClosed = .ok satisfied
        ∧ (satisfied = true ↔ ReachesLowBoundary nullsMinimal topClosed map kvs element) := by
  obtain ⟨satisfied, hsatisfied, _⟩ :=
    valueSatisfyLowBoundary_spec hwf nullsMinimal kvs hlen element hmem hinterval topClosed
  refine ⟨satisfied, hsatisfied, ?_⟩
  unfold ReachesLowBoundary
  unfold valueSatisfyLowBoundary at hsatisfied
  cases hcompare : valueCmpLowBoundary nullsMinimal map kvs element with
  | error err =>
    rw [hcompare] at hsatisfied
    cases hsatisfied
  | ok compare =>
    rw [hcompare] at hsatisfied
    cases compare with
    | lt =>
      cases hsatisfied
      simp
    | eq =>
      cases hsatisfied
      simp
    | gt =>
      cases hsatisfied
      simp

-- What the routing answers for a key whose partition by the bounds is `i`.
def routed (map : RangePartitionMap V) (partArea : PartitionArea) (i : Nat) : PartitionIdentifier :=
  ⟨partArea, i, true, map.oidAt i⟩

def notRouted (partArea : PartitionArea) : PartitionIdentifier := ⟨partArea, -1, false, invalidOid⟩

-- The key has a partition by the bounds, an interval partition that begins above the key.
def MissesInterval (nullsMinimal topClosed : Bool) (map : RangePartitionMap V)
    (kvs : List (Option (Const V))) (i : Nat) : Prop :=
  ∃ element, map.rangeElements[i]? = some element ∧ element.isInterval = true
    ∧ ¬ ReachesLowBoundary nullsMinimal topClosed map kvs element

theorem routingForRangeKeys_of_slot (s : Session V) {map : RangePartitionMap V} (hwf : map.WF)
    (partArea : PartitionArea) (topClosed : Bool) (kvs : List (Option (Const V)))
    (hlen : kvs.length = map.partitionKey.length) {i : Nat} (hi : i < map.rangeElements.length)
    (hoid : getRangePartitionOid s.nullsMinimal map kvs topClosed = .ok (map.oidAt i, (i : Int)))
    : (MissesInterval s.nullsMinimal topClosed map kvs i →
          routingForRangeKeys s map partArea kvs topClosed = .ok (notRouted partArea))
        ∧ (¬ MissesInterval s.nullsMinimal topClosed map kvs i →
          routingForRangeKeys s map partArea kvs topClosed = .ok (routed map partArea i)) := by
  have hpos : (0 : Int) ≤ (i : Int) := by omega
  have hget := List.getElem?_eq_getElem hi
  have hmem := getElem_mem hi
  simp only [routingForRangeKeys, hoid, bind, Except.bind, if_pos hpos, Int.toNat_natCast, hget]
  by_cases hinterval : map.rangeElements[i].isInterval = true
  . obtain ⟨satisfied, hsatisfied, hiff⟩ :=
      valueSatisfyLowBoundary_iff hwf s.nullsMinimal topClosed kvs hlen hmem hinterval
    simp only [if_pos hinterval, hsatisfied]
    constructor
    . rintro ⟨element, hget', _, hlow⟩
      rw [hget, Option.some.injEq] at hget'
      subst hget'
      have hfalse : satisfied = false := by
        rw [← Bool.not_eq_true, hiff]
        exact hlow
      rw [hfalse]
      rfl
    . intro hnot
      have htrue : satisfied = true := by
        rw [hiff]
        by_contra hlow
        exact hnot ⟨_, hget, hinterval, hlow⟩
      rw [htrue]
      rfl
  . rw [if_neg hinterval]
    constructor
    . rintro ⟨element, hget', hinterval', _⟩
      rw [hget, Option.some.injEq] at hget'
      subst hget'
      exact absurd hinterval' hinterval
    . intro _
      rfl

theorem getRangePartitionOid_of_seq {map : RangePartitionMap V} {nullsMinimal topClosed : Bool}
    {kvs : List (Option (Const V))} {i : Nat}
    (hseq : getRangePartitionSeq nullsMinimal map kvs topClosed = .ok (i : Int))
    : getRangePartitionOid nullsMinimal map kvs topClosed = .ok (map.oidAt i, (i : Int)) := by
  have hpos : (0 : Int) ≤ (i : Int) := by omega
  simp only [getRangePartitionOid, hseq, bind, Except.bind, if_pos hpos, Int.toNat_natCast]

-- The least partition whose bound the key stays below, and for an interval map what becomes of it.
theorem getRangePartitionOid_least (s : Session V) {map : RangePartitionMap V} (hmap : map.Built)
    (topClosed : Bool) (kvs : List (Option (Const V))) (hlen : kvs.length = map.partitionKey.length)
    : (∀ keyValue, kvs = keyValue.map some →
          partitionRoutingForValue s keyValue topClosed (.interval map)
            = routingForRangeKeys s map .interval kvs topClosed)
        ∧
      ((∃ i : Nat,
          IsLeast {i | i < map.rangeElements.length ∧ StaysBelow s.nullsMinimal topClosed map kvs i} i
            ∧ getRangePartitionOid s.nullsMinimal map kvs topClosed = .ok (map.oidAt i, (i : Int))
            ∧ (MissesInterval s.nullsMinimal topClosed map kvs i →
              routingForRangeKeys s map .interval kvs topClosed = .ok (notRouted .interval))
            ∧ (¬ MissesInterval s.nullsMinimal topClosed map kvs i →
              routingForRangeKeys s map .interval kvs topClosed = .ok (routed map .interval i)))
        ∨
      ((∀ i, i < map.rangeElements.length → ¬ StaysBelow s.nullsMinimal topClosed map kvs i)
        ∧ getRangePartitionOid s.nullsMinimal map kvs topClosed = .ok (invalidOid, -1)
        ∧ routingForRangeKeys s map .interval kvs topClosed = .ok (notRouted .interval))) := by
  have hwf := hmap.wf
  constructor
  . rintro keyValue rfl
    exact routingForRange_eq ..
  . rcases getRangePartitionSeq_spec hwf s.nullsMinimal topClosed kvs hlen with
      ⟨i, hseq, hslot⟩ | ⟨hseq, hnone⟩
    . left
      have hoid := getRangePartitionOid_of_seq hseq
      have hrouting := routingForRangeKeys_of_slot s hwf .interval topClosed kvs hlen hslot.1.1 hoid
      refine ⟨i, ?_, hoid, hrouting⟩
      constructor
      . exact ⟨hslot.1.1, (staysBelow_iff hwf _ _ _ hlen hslot.1.1).mpr hslot.1.2⟩
      . rintro j ⟨hj, hbelow⟩
        exact hslot.2 ⟨hj, (staysBelow_iff hwf _ _ _ hlen hj).mp hbelow⟩
    . right
      have hneg : ¬ (0 : Int) ≤ -1 := by decide
      have hoid : getRangePartitionOid s.nullsMinimal map kvs topClosed = .ok (invalidOid, -1) := by
        simp only [getRangePartitionOid, hseq, bind, Except.bind, if_neg hneg]
      refine ⟨?_, hoid, ?_⟩
      . intro i hi hbelow
        exact hnone i hi ((staysBelow_iff hwf _ _ _ hlen hi).mp hbelow)
      . simp only [routingForRangeKeys, hoid, bind, Except.bind, if_neg hneg]
        rfl

theorem gapMap_built : gapMap.Built where
  pos := by decide
  keyNum := by decide
  notNull := by decide
  increasing := by
    intro i j hij hj
    have hj' : j < 2 := hj
    obtain ⟨rfl, rfl⟩ : i = 0 ∧ j = 1 := by omega
    rfl
  interval := by decide

theorem getRangePartitionOid_least_gapMap
    : ∃ i : Nat,
        IsLeast {i | i < gapMap.rangeElements.length
          ∧ StaysBelow false true gapMap [some (.value 15)] i} i
          ∧ getRangePartitionOid false gapMap [some (.value 15)] true = .ok (gapMap.oidAt i, (i : Int)) := by
  have hfound : getRangePartitionOid false gapMap [some (.value 15)] true = .ok (2, 1) := rfl
  rcases (getRangePartitionOid_least intSession gapMap_built true [some (.value 15)] rfl).2 with
    ⟨i, hleast, hoid, _⟩ | ⟨_, hoid, _⟩
  . exact ⟨i, hleast, hoid⟩
  . have hoid' : getRangePartitionOid false gapMap [some (.value 15)] true = .ok (invalidOid, -1) := hoid
    rw [hfound] at hoid'
    cases hoid'

end Partition

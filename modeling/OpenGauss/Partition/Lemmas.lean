import OpenGauss.Partition.Impl
import Mathlib.Data.List.Lex
import Mathlib.Data.Prod.Lex
import Mathlib.Order.WithBot
import Mathlib.Order.Bounds.Basic

/-!
This module contains the order behind the key comparisons and what the search over the range
partitions finds.
-/

namespace Partition

variable (nullsMinimal nullEqual : Bool) {topClosed : Bool}

section Compares

variable {α : Type} [LinearOrder α]

theorem compares_compare (a b : α) : (compare a b).Compares a b := by
  rw [← cmp_eq_compare]
  apply cmp_compares

theorem compares_cons {head tail : Ordering} {a b : α} {as bs : List α} (hhead : head.Compares a b)
    (htail : tail.Compares as bs)
    : (head.then tail).Compares (a :: as) (b :: bs) := by
  cases head with
  | lt => exact List.cons_lt_cons_iff.mpr (.inl hhead)
  | gt => exact List.cons_lt_cons_iff.mpr (.inl hhead)
  | eq =>
    have heq : a = b := hhead
    subst heq
    cases tail with
    | lt => exact List.cons_lt_cons_iff.mpr (.inr ⟨rfl, htail⟩)
    | gt => exact List.cons_lt_cons_iff.mpr (.inr ⟨rfl, htail⟩)
    | eq =>
      have htail' : as = bs := htail
      rw [htail']
      rfl

end Compares

variable {V : Type} [LinearOrder V]

-- A null pointer lies below all values, `MAXVALUE` above them and null where the session puts it.
def rank (nullsMinimal : Bool) : Option (Const V) → ℕ ×ₗ WithBot V
  | none => toLex (0, ⊥)
  | some .null => toLex (if nullsMinimal then 1 else 3, ⊥)
  | some (.value v) => toLex (2, v)
  | some .maxValue => toLex (4, ⊥)

theorem rank_value_lt_value (v w : V)
    : rank nullsMinimal (some (.value v)) < rank nullsMinimal (some (.value w)) ↔ v < w := by
  simp [rank, Prod.Lex.toLex_lt_toLex]

theorem compares_rank_value (v w : V) : (compare v w).Compares (rank nullsMinimal (some (.value v)))
      (rank nullsMinimal (some (.value w))) := by
  have h := compares_compare v w
  cases hcompare : compare v w with
  | lt =>
    rw [hcompare] at h
    exact (rank_value_lt_value nullsMinimal v w).mpr h
  | eq =>
    rw [hcompare] at h
    have heq : v = w := h
    rw [heq]
    rfl
  | gt =>
    rw [hcompare] at h
    exact (rank_value_lt_value nullsMinimal w v).mpr h

def Comparable (nullEqual : Bool) : Option (Const V) → Option (Const V) → Prop
  | none, none => False
  | some .null, some .null => nullEqual = true
  | _, _ => True

def headCompare (nullsMinimal : Bool) : Option (Const V) → Option (Const V) → Ordering
  | none, none => .eq
  | none, some _ => .lt
  | some _, none => .gt
  | some .maxValue, some .maxValue => .eq
  | some .maxValue, some _ => .gt
  | some _, some .maxValue => .lt
  | some .null, some .null => .eq
  | some .null, some _ => if nullsMinimal then .lt else .gt
  | some _, some .null => if nullsMinimal then .gt else .lt
  | some (.value k), some (.value b) => compare k b

theorem compares_headCompare (kv bv : Option (Const V))
    : (headCompare nullsMinimal kv bv).Compares (rank nullsMinimal kv) (rank nullsMinimal bv) := by
  match kv, bv with
  | some (.value k), some (.value b) => apply compares_rank_value
  | none, none => rfl
  | some .maxValue, some .maxValue => rfl
  | some .null, some .null => rfl
  | none, some .maxValue | none, some .null | none, some (.value _)
  | some .maxValue, none | some .null, none | some (.value _), none
  | some .maxValue, some .null | some .maxValue, some (.value _)
  | some .null, some .maxValue | some (.value _), some .maxValue
  | some .null, some (.value _) | some (.value _), some .null =>
    cases nullsMinimal <;> simp [headCompare, rank, Prod.Lex.toLex_lt_toLex]

theorem keyCompare_cons (kv bv : Option (Const V))
    (kvs bvs : List (Option (Const V))) (h : Comparable nullEqual kv bv)
    : keyCompare nullsMinimal nullEqual (kv :: kvs) (bv :: bvs)
        =
      match headCompare nullsMinimal kv bv with
      | .eq => keyCompare nullsMinimal nullEqual kvs bvs
      | compare => .ok compare := by
  match kv, bv with
  | none, none => exact h.elim
  | some .null, some .null =>
    have hnull : nullEqual = true := h
    simp only [keyCompare, headCompare, if_pos hnull]
  | some (.value k), some (.value b) =>
    cases hcompare : compare k b with
    | lt => simp only [keyCompare, headCompare, hcompare]
    | eq => simp only [keyCompare, headCompare, hcompare]
    | gt => simp only [keyCompare, headCompare, hcompare]
  | none, some .maxValue | none, some .null | none, some (.value _)
  | some .maxValue, none | some .null, none | some (.value _), none
  | some .maxValue, some .maxValue
  | some .maxValue, some .null | some .maxValue, some (.value _)
  | some .null, some .maxValue | some (.value _), some .maxValue => rfl
  | some .null, some (.value _) | some (.value _), some .null => cases nullsMinimal <;> rfl

theorem keyCompare_spec (kvs bvs : List (Option (Const V)))
    (h : List.Forall₂ (Comparable nullEqual) kvs bvs)
    : ∃ compare, keyCompare nullsMinimal nullEqual kvs bvs = .ok compare
        ∧ compare.Compares (kvs.map (rank nullsMinimal)) (bvs.map (rank nullsMinimal)) := by
  induction h with
  | nil => exact ⟨.eq, rfl, rfl⟩
  | @cons kv bv kvs bvs hhead _ ih =>
    obtain ⟨tail, htail, hcompares⟩ := ih
    have hspec := compares_cons (compares_headCompare nullsMinimal kv bv) hcompares
    refine ⟨_, ?_, hspec⟩
    rw [keyCompare_cons nullsMinimal nullEqual kv bv kvs bvs hhead]
    cases headCompare nullsMinimal kv bv with
    | lt => rfl
    | eq => exact htail
    | gt => rfl

namespace RangePartitionMap

def bound (nullsMinimal : Bool) (map : RangePartitionMap V) (i : Nat)
    : List (ℕ ×ₗ WithBot V) :=
  (map.boundaryAt i).map (rank nullsMinimal)

structure WF (map : RangePartitionMap V) : Prop where
  pos : 0 < map.rangeElements.length
  keyNum : ∀ element ∈ map.rangeElements, element.boundary.length = map.partitionKey.length
  notNull : ∀ element ∈ map.rangeElements, .null ∉ element.boundary
  increasing : ∀ i j, i < j → j < map.rangeElements.length → map.bound false i < map.bound false j
  interval : ∀ element ∈ map.rangeElements, element.isInterval = true → map.partitionKey.length = 1

omit [LinearOrder V] in
theorem boundaryAt_eq (map : RangePartitionMap V) (i : Nat) (hi : i < map.rangeElements.length)
    : map.boundaryAt i = map.rangeElements[i].boundary.map some := by
  rw [boundaryAt, List.getElem?_eq_getElem hi]

variable {map : RangePartitionMap V}

theorem WF.bound_eq (h : map.WF) (nullsMinimal : Bool) (i : Nat)
    : map.bound nullsMinimal i = map.bound false i := by
  rw [bound, bound]
  apply List.map_congr_left
  intro value hvalue
  by_cases hi : i < map.rangeElements.length
  . rw [boundaryAt_eq map i hi] at hvalue
    obtain ⟨c, hc, rfl⟩ := List.mem_map.mp hvalue
    cases c with
    | maxValue => rfl
    | value v => rfl
    | null => exact absurd hc (h.notNull _ (List.getElem_mem hi))
  . rw [boundaryAt, List.getElem?_eq_none (by omega)] at hvalue
    cases hvalue

theorem WF.bound_lt (h : map.WF) (nullsMinimal : Bool) {i j : Nat}
    (hij : i < j) (hj : j < map.rangeElements.length)
    : map.bound nullsMinimal i < map.bound nullsMinimal j := by
  rw [h.bound_eq nullsMinimal i, h.bound_eq nullsMinimal j]
  apply h.increasing i j hij hj

theorem WF.bound_le (h : map.WF) (nullsMinimal : Bool) {i j : Nat}
    (hij : i ≤ j) (hj : j < map.rangeElements.length)
    : map.bound nullsMinimal i ≤ map.bound nullsMinimal j := by
  cases Nat.eq_or_lt_of_le hij with
  | inl heq => rw [heq]
  | inr hlt => exact le_of_lt (h.bound_lt nullsMinimal hlt hj)

omit [LinearOrder V] in
theorem comparable_of_ne_null (kv : Option (Const V)) (c : Const V) (h : c ≠ .null)
    : Comparable nullEqual kv (some c) := by
  match kv, c with
  | none, _ => trivial
  | some .null, .null => exact absurd rfl h
  | some .null, .maxValue | some .null, .value _ => trivial
  | some .maxValue, _ => trivial
  | some (.value _), _ => trivial

omit [LinearOrder V] in
theorem forall₂_comparable (kvs : List (Option (Const V)))
    (boundary : List (Const V)) (hlen : kvs.length = boundary.length) (h : .null ∉ boundary)
    : List.Forall₂ (Comparable nullEqual) kvs (boundary.map some) := by
  induction kvs generalizing boundary with
  | nil =>
    cases boundary with
    | nil => exact .nil
    | cons _ _ => cases hlen
  | cons kv kvs ih =>
    cases boundary with
    | nil => cases hlen
    | cons c boundary =>
      simp only [List.mem_cons, not_or] at h
      apply List.Forall₂.cons
      . apply comparable_of_ne_null
        intro hc
        exact h.1 hc.symm
      . apply ih boundary _ h.2
        simpa using hlen

theorem WF.compare_spec (h : map.WF) (nullsMinimal : Bool)
    (kvs : List (Option (Const V))) (hlen : kvs.length = map.partitionKey.length) (i : Nat)
    (hi : i < map.rangeElements.length)
    : ∃ compare, partitionKeyCompareForRouting nullsMinimal kvs (map.boundaryAt i) = .ok compare
        ∧ compare.Compares (kvs.map (rank nullsMinimal)) (map.bound nullsMinimal i) := by
  have hmem := List.getElem_mem hi
  rw [bound, boundaryAt_eq map i hi]
  apply keyCompare_spec
  apply forall₂_comparable
  . rw [hlen, h.keyNum _ hmem]
  . apply h.notNull _ hmem

end RangePartitionMap

def Reaches {α : Type} [LinearOrder α] (topClosed : Bool) (key bound : α) : Prop :=
  if topClosed then key < bound else key ≤ bound

-- The first partition whose bound the key value stays below.
def IsSlot (nullsMinimal : Bool) (map : RangePartitionMap V) (topClosed : Bool)
    (kvs : List (Option (Const V))) (s : Nat) : Prop :=
  IsLeast {i | i < map.rangeElements.length
    ∧ Reaches topClosed (kvs.map (rank nullsMinimal)) (map.bound nullsMinimal i)} s

theorem Reaches.of_lt {α : Type} [LinearOrder α] {key bound : α} (h : key < bound)
    : Reaches topClosed key bound := by
  cases topClosed with
  | true => exact h
  | false => exact le_of_lt h

theorem not_reaches_of_lt {α : Type} [LinearOrder α] {key bound : α} (h : bound < key)
    : ¬ Reaches topClosed key bound := by
  cases topClosed with
  | true => exact not_lt_of_gt h
  | false => exact not_le_of_gt h

theorem isSlot_of {nullsMinimal : Bool}
    {kvs : List (Option (Const V))} {s : Nat} (hs : s < map.rangeElements.length)
    (hreaches : Reaches topClosed (kvs.map (rank nullsMinimal)) (map.bound nullsMinimal s))
    (hbelow : ∀ i, i < s → ¬ Reaches topClosed (kvs.map (rank nullsMinimal)) (map.bound nullsMinimal i))
    : IsSlot nullsMinimal map topClosed kvs s := by
  constructor
  . exact ⟨hs, hreaches⟩
  . intro i hi
    by_contra hlt
    apply hbelow i (by omega) hi.2

theorem semiSeek_spec (hwf : map.WF) (nullsMinimal topClosed : Bool)
    (kvs : List (Option (Const V))) (hlen : kvs.length = map.partitionKey.length)
    (fuel minPartId maxPartId : Nat) (hle : minPartId ≤ maxPartId)
    (hmax : maxPartId < map.rangeElements.length) (hfuel : maxPartId - minPartId ≤ fuel)
    (hbelow : ∀ i, i < minPartId → map.bound nullsMinimal i < kvs.map (rank nullsMinimal))
    (habove : kvs.map (rank nullsMinimal) < map.bound nullsMinimal maxPartId)
    : ∃ s : Nat, semiSeek nullsMinimal map kvs topClosed fuel minPartId maxPartId = .ok (s : Int)
        ∧ IsSlot nullsMinimal map topClosed kvs s := by
  -- What is left of the span holds the slot.
  have hdone : minPartId = maxPartId → IsSlot nullsMinimal map topClosed kvs maxPartId := by
    intro heq
    apply isSlot_of hmax (.of_lt habove)
    intro i hi
    apply not_reaches_of_lt (hbelow i (by omega))
  induction fuel generalizing minPartId maxPartId with
  | zero =>
    refine ⟨maxPartId, rfl, hdone (by omega)⟩
  | succ fuel ih =>
    rw [semiSeek]
    by_cases hlt : minPartId < maxPartId
    . rw [if_pos hlt]
      generalize hlocal : (maxPartId + minPartId) / 2 = localPartId
      have hmid : minPartId ≤ localPartId ∧ localPartId < maxPartId := by omega
      have hlocallt : localPartId < map.rangeElements.length := by omega
      obtain ⟨compare, hcompare, hspec⟩ :=
        hwf.compare_spec nullsMinimal kvs hlen localPartId hlocallt
      simp only [hcompare, bind, Except.bind]
      cases compare with
      | lt =>
        apply ih minPartId localPartId
        . omega
        . omega
        . omega
        . exact hbelow
        . exact hspec
        . intro heq
          apply isSlot_of hlocallt (.of_lt hspec)
          intro i hi
          apply not_reaches_of_lt (hbelow i (by omega))
      | gt =>
        have hbelow' : ∀ i, i < localPartId + 1 → map.bound nullsMinimal i < kvs.map (rank nullsMinimal) := by
          intro i hi
          apply lt_of_le_of_lt (hwf.bound_le nullsMinimal (by omega : i ≤ localPartId) hlocallt)
          exact hspec
        apply ih (localPartId + 1) maxPartId
        . omega
        . exact hmax
        . omega
        . exact hbelow'
        . exact habove
        . intro heq
          apply isSlot_of hmax (.of_lt habove)
          intro i hi
          apply not_reaches_of_lt (hbelow' i (by omega))
      | eq =>
        have heq : kvs.map (rank nullsMinimal) = map.bound nullsMinimal localPartId := hspec
        cases topClosed with
        | true =>
          refine ⟨localPartId + 1, rfl, isSlot_of (by omega) ?_ ?_⟩
          . rw [Reaches, if_pos rfl, heq]
            apply hwf.bound_lt nullsMinimal (by omega) (by omega)
          . intro i hi
            rw [Reaches, if_pos rfl, heq]
            apply not_lt_of_ge
            apply hwf.bound_le nullsMinimal (by omega) hlocallt
        | false =>
          refine ⟨localPartId, rfl, isSlot_of hlocallt ?_ ?_⟩
          . rw [Reaches, if_neg (by decide), heq]
          . intro i hi
            rw [Reaches, if_neg (by decide), heq]
            apply not_le_of_gt
            apply hwf.bound_lt nullsMinimal hi hlocallt
    . rw [if_neg hlt]
      refine ⟨maxPartId, rfl, hdone (by omega)⟩

theorem getRangePartitionSeq_spec (hwf : map.WF)
    (nullsMinimal topClosed : Bool) (kvs : List (Option (Const V)))
    (hlen : kvs.length = map.partitionKey.length)
    : (∃ s : Nat, getRangePartitionSeq nullsMinimal map kvs topClosed = .ok (s : Int)
          ∧ IsSlot nullsMinimal map topClosed kvs s)
        ∨
      (getRangePartitionSeq nullsMinimal map kvs topClosed = .ok (-1)
          ∧ ∀ i, i < map.rangeElements.length →
            ¬ Reaches topClosed (kvs.map (rank nullsMinimal)) (map.bound nullsMinimal i)) := by
  have hpos := hwf.pos
  have hlast : map.rangeElements.length - 1 < map.rangeElements.length := by omega
  obtain ⟨compare, hcompare, hspec⟩ := hwf.compare_spec nullsMinimal kvs hlen _ hlast
  have hnone : ¬ Reaches topClosed (kvs.map (rank nullsMinimal))
      (map.bound nullsMinimal (map.rangeElements.length - 1)) →
      ∀ i, i < map.rangeElements.length →
        ¬ Reaches topClosed (kvs.map (rank nullsMinimal)) (map.bound nullsMinimal i) := by
    intro hnot i hi hreaches
    apply hnot
    have hle := hwf.bound_le nullsMinimal (by omega : i ≤ _) hlast
    cases topClosed with
    | true => exact lt_of_lt_of_le hreaches hle
    | false => exact le_trans hreaches hle
  simp only [getRangePartitionSeq, hcompare, bind, Except.bind]
  cases compare with
  | lt =>
    left
    apply semiSeek_spec hwf nullsMinimal topClosed kvs hlen
    . omega
    . exact hlast
    . omega
    . omega
    . exact hspec
  | gt =>
    right
    exact ⟨rfl, hnone (not_reaches_of_lt hspec)⟩
  | eq =>
    have heq : kvs.map (rank nullsMinimal) = map.bound nullsMinimal _ := hspec
    cases topClosed with
    | true =>
      right
      refine ⟨rfl, hnone ?_⟩
      rw [Reaches, if_pos rfl, heq]
      apply lt_irrefl
    | false =>
      left
      refine ⟨_, rfl, isSlot_of hlast ?_ ?_⟩
      . rw [Reaches, if_neg (by decide), heq]
      . intro i hi
        rw [Reaches, if_neg (by decide), heq]
        apply not_le_of_gt
        apply hwf.bound_lt nullsMinimal hi hlast

end Partition

import OpenGauss.Partition.Locate
import OpenGauss.Partition.Pruning.Impl

/-!
This module contains why the partition of a row lies between the bottom and the top sequence of a
boundary whose bounds the row meets.
-/

open List

namespace Partition

variable {V : Type} [LinearOrder V] {columns : List (PruningColumn V)}

section Order

variable {α : Type} [LinearOrder α]

theorem le_of_forall₂_le {as bs : List α} (h : List.Forall₂ (· ≤ ·) as bs) : as ≤ bs := by
  induction h with
  | nil => exact le_refl _
  | @cons a b as bs hhead _ ih =>
    cases lt_or_eq_of_le hhead with
    | inl hlt => exact le_of_lt (cons_lt_cons_iff.mpr (.inl hlt))
    | inr heq =>
      subst heq
      cases lt_or_eq_of_le ih with
      | inl hlt => exact le_of_lt (cons_lt_cons_iff.mpr (.inr ⟨rfl, hlt⟩))
      | inr htail => rw [htail]

theorem head_le_of_lt {a b : α} {as bs : List α} (h : a :: as < b :: bs) : a ≤ b := by
  cases cons_lt_cons_iff.mp h with
  | inl hlt => exact le_of_lt hlt
  | inr heq => exact le_of_eq heq.1

end Order

section Columns

structure PruningColumn.IsBound (column : PruningColumn V) : Prop where
  min : ∀ c, column.min = some c → ∃ v, c = .value v
  max : ∀ c, column.max = some c → ∃ v, c = .value v

structure PruningColumn.Holds (column : PruningColumn V) (v : V) : Prop where
  min : ∀ m, column.min = some (.value m) → m < v ∨ m = v ∧ column.minClose = true
  max : ∀ m, column.max = some (.value m) → v < m ∨ v = m ∧ column.maxClose = true

def rankValue (nullsMinimal : Bool) (v : V) : ℕ ×ₗ WithBot V :=
  rank nullsMinimal (some (.value v))

namespace PruningColumn

variable {column : PruningColumn V} {v : V}

variable (h : column.Holds v)
include h

variable (hbound : column.IsBound)
include hbound

theorem Holds.min_lt_or (nullsMinimal : Bool) : rank nullsMinimal column.min < rankValue nullsMinimal v
      ∨ rank nullsMinimal column.min = rankValue nullsMinimal v ∧ column.minClose = true := by
  cases hmin : column.min with
  | none =>
    left
    simp [rank, rankValue, Prod.Lex.toLex_lt_toLex]
  | some c =>
    obtain ⟨m, rfl⟩ := hbound.min c hmin
    cases h.min m hmin with
    | inl hlt => exact .inl ((rank_value_lt_value nullsMinimal m v).mpr hlt)
    | inr heq =>
      rw [heq.1]
      exact .inr ⟨rfl, heq.2⟩

theorem Holds.lt_top_or (nullsMinimal : Bool)
    : rankValue nullsMinimal v < rank nullsMinimal (fillTop column).max
        ∨ rankValue nullsMinimal v = rank nullsMinimal (fillTop column).max
          ∧ column.maxClose = true := by
  rw [fillTop]
  cases hmax : column.max with
  | none =>
    left
    simp [rank, rankValue, Prod.Lex.toLex_lt_toLex]
  | some c =>
    obtain ⟨m, rfl⟩ := hbound.max c hmax
    cases h.max m hmax with
    | inl hlt => exact .inl ((rank_value_lt_value nullsMinimal v m).mpr hlt)
    | inr heq =>
      rw [heq.1]
      exact .inr ⟨rfl, heq.2⟩

theorem Holds.min_le (nullsMinimal : Bool) : rank nullsMinimal column.min ≤ rankValue nullsMinimal v := by
  cases h.min_lt_or hbound nullsMinimal with
  | inl hlt => exact le_of_lt hlt
  | inr heq => exact le_of_eq heq.1

theorem Holds.le_top (nullsMinimal : Bool)
    : rankValue nullsMinimal v ≤ rank nullsMinimal (fillTop column).max := by
  cases h.lt_top_or hbound nullsMinimal with
  | inl hlt => exact le_of_lt hlt
  | inr heq => exact le_of_eq heq.1

end PruningColumn

def Meets (columns : List (PruningColumn V)) (row : List V) : Prop :=
  List.Forall₂ (fun column v => column.Holds v ∧ column.IsBound) columns row

def rowRank (nullsMinimal : Bool) (row : List V) : List (ℕ ×ₗ WithBot V) :=
  row.map (rankValue nullsMinimal)

def rowConsts (row : List V) : List (Const V) := row.map .value

omit [LinearOrder V] in
theorem map_rank_rowConsts (nullsMinimal : Bool) (row : List V)
    : ((rowConsts row).map some).map (rank nullsMinimal) = rowRank nullsMinimal row := by
  simp [rowConsts, rowRank, rankValue, Function.comp_def]

theorem Meets.bottom_le {row : List V} (h : Meets columns row) (nullsMinimal : Bool)
    : (columns.map (·.min)).map (rank nullsMinimal) ≤ rowRank nullsMinimal row := by
  apply le_of_forall₂_le
  rw [rowRank, map_map, forall₂_map_left_iff, forall₂_map_right_iff]
  apply List.Forall₂.imp _ h
  rintro column v ⟨hholds, hbound⟩
  exact hholds.min_le hbound nullsMinimal

theorem Meets.le_top {row : List V} (h : Meets columns row) (nullsMinimal : Bool) : rowRank nullsMinimal row
      ≤ ((columns.map fillTop).map (·.max)).map (rank nullsMinimal) := by
  apply le_of_forall₂_le
  rw [rowRank, map_map, map_map, forall₂_map_left_iff, forall₂_map_right_iff]
  apply List.Forall₂.flip
  apply List.Forall₂.imp _ h
  rintro column v ⟨hholds, hbound⟩
  exact hholds.le_top hbound nullsMinimal

theorem Meets.reaches_of {row : List V} (h : Meets columns row)
    (nullsMinimal : Bool) (hclosed : (columns.map fillTop).all (·.maxClose) = false)
    : rowRank nullsMinimal row
        < ((columns.map fillTop).map (·.max)).map (rank nullsMinimal) := by
  apply lt_of_le_of_ne (h.le_top nullsMinimal)
  intro heq
  induction h with
  | nil => simp at hclosed
  | @cons column v columns row hhead _ ih =>
    simp only [rowRank, map_cons, List.cons.injEq] at heq
    simp only [map_cons, all_cons, Bool.and_eq_false_iff] at hclosed
    cases hclosed with
    | inl hopen =>
      cases hhead.1.lt_top_or hhead.2 nullsMinimal with
      | inl hlt => exact absurd heq.1 (ne_of_lt hlt)
      | inr hclose =>
        have hopen' : column.maxClose = false := hopen
        rw [hclose.2] at hopen'
        cases hopen'
    | inr htail => exact ih htail heq.2

end Columns

section Routing

variable {map : RangePartitionMap V}

variable (hwf : map.WF)
include hwf

theorem partitionRoutingForValueRange_bottom (s : Session V)
    (kvs : List (Option (Const V))) (hlen : kvs.length = map.partitionKey.length)
    (row : List V) (hle : kvs.map (rank s.nullsMinimal) ≤ rowRank s.nullsMinimal row) (p : Nat)
    (hslot : IsSlot s.nullsMinimal map true ((rowConsts row).map some) p)
    : ∃ b : Nat, partitionRoutingForValueRange s map kvs true true = .ok (b : Int) ∧ b ≤ p := by
  have hreach : rowRank s.nullsMinimal row < map.bound s.nullsMinimal p := by
    have h := hslot.1.2
    rw [map_rank_rowConsts] at h
    exact h
  have hmem : p ∈ {i | i < map.rangeElements.length
      ∧ Reaches true (kvs.map (rank s.nullsMinimal)) (map.bound s.nullsMinimal i)} :=
    ⟨hslot.1.1, lt_of_le_of_lt hle hreach⟩
  rcases getRangePartitionSeq_spec hwf s.nullsMinimal true kvs hlen with
    ⟨b, hseq, hb⟩ | ⟨_, hnone⟩
  . have hblt : b < map.rangeElements.length := hb.1.1
    have hpos : (0 : Int) ≤ (b : Int) := by omega
    refine ⟨b, ?_, hb.2 hmem⟩
    simp [partitionRoutingForValueRange, getRangePartitionOid, hseq, bind, Except.bind, hpos,
      getElem?_eq_getElem hblt]
  . exact absurd hmem.2 (hnone p hmem.1)

theorem partitionRoutingForValueRange_top (s : Session V)
    (kvs : List (Option (Const V))) (hlen : kvs.length = map.partitionKey.length)
    (topClosed : Bool) (row : List V) (hrow : row.length = map.partitionKey.length)
    (hle : rowRank s.nullsMinimal row ≤ kvs.map (rank s.nullsMinimal))
    (hlt : topClosed = false → rowRank s.nullsMinimal row < kvs.map (rank s.nullsMinimal)) (p : Nat)
    (hslot : IsSlot s.nullsMinimal map true ((rowConsts row).map some) p)
    (hgap : ¬ map.InGap s (rowConsts row) p)
    : ∃ t : Int, partitionRoutingForValueRange s map kvs topClosed false = .ok t
        ∧ t < map.rangeElements.length ∧ (t < 0 ∨ p ≤ t) := by
  have hmin : ∀ i, i < map.rangeElements.length →
      rowRank s.nullsMinimal row < map.bound s.nullsMinimal i → p ≤ i := by
    intro i hi hrank
    apply hslot.2
    refine ⟨hi, ?_⟩
    rw [map_rank_rowConsts]
    exact hrank
  rcases getRangePartitionSeq_spec hwf s.nullsMinimal topClosed kvs hlen with
    ⟨t, hseq, ht⟩ | ⟨hseq, _⟩
  . have htlt : t < map.rangeElements.length := ht.1.1
    have hpos : (0 : Int) ≤ (t : Int) := by omega
    have hpt : p ≤ t := by
      apply hmin t htlt
      have hreaches := ht.1.2
      cases topClosed with
      | true => exact lt_of_le_of_lt hle hreaches
      | false => exact lt_of_lt_of_le (hlt rfl) hreaches
    have helement := getElem?_eq_getElem htlt
    simp only [partitionRoutingForValueRange, getRangePartitionOid, hseq, bind, Except.bind, hpos,
      if_true, Int.toNat_natCast, helement, Bool.false_eq_true, not_false_eq_true, and_true]
    by_cases hinterval : map.rangeElements[t].isInterval = true
    . have hmem := getElem_mem htlt
      obtain ⟨satisfied, hsatisfied, hspec⟩ := valueSatisfyLowBoundary_spec hwf s.nullsMinimal kvs
        hlen _ hmem hinterval topClosed
      rw [if_pos hinterval, hsatisfied]
      cases satisfied with
      | true => exact ⟨t, rfl, by omega, .inr (by omega)⟩
      | false =>
        refine ⟨t - 1, rfl, by omega, ?_⟩
        -- The row is at or above the low boundary of its own partition.
        have hne : p ≠ t := by
          intro heq
          subst heq
          obtain ⟨low, hlow, hlowspec⟩ := valueSatisfyLowBoundary_spec hwf s.nullsMinimal
            ((rowConsts row).map some) (by simpa [rowConsts] using hrow) _ hmem hinterval true
          rw [map_rank_rowConsts] at hlowspec
          cases low with
          | false =>
            apply hgap
            exact ⟨hslot, _, helement, hinterval, hlow⟩
          | true =>
            simp only [and_true, true_iff] at hlowspec
            simp only [Bool.false_eq_true, false_iff, not_or, not_and] at hspec
            cases hlowspec with
            | inl habove => exact hspec.1 (lt_of_lt_of_le habove hle)
            | inr hat =>
              rw [hat] at hle hlt
              cases lt_or_eq_of_le hle with
              | inl hlow' => exact hspec.1 hlow'
              | inr heq =>
                apply hspec.2 heq.symm
                cases topClosed with
                | true => rfl
                | false => exact absurd (hlt rfl) (by rw [heq]; apply lt_irrefl)
        omega
    . rw [if_neg hinterval]
      exact ⟨t, rfl, by omega, .inr (by omega)⟩
  . have hneg : ¬ (0 : Int) ≤ -1 := by decide
    refine ⟨-1, ?_, by omega, .inl (by decide)⟩
    simp [partitionRoutingForValueRange, getRangePartitionOid, hseq, bind, Except.bind]

variable (hkey : 0 < map.partitionKey.length)
include hkey

theorem compareFirst_spec (i : Nat) (hi : i < map.rangeElements.length) (value : Const V)
    : ∃ compare first rest, compareFirst map i (some value) = .ok compare
        ∧ map.bound false i = first :: rest ∧ compare.Compares first (rank false (some value)) := by
  have hmem := getElem_mem hi
  have hlen := hwf.keyNum _ hmem
  have hnull := hwf.notNull _ hmem
  have hboundary := RangePartitionMap.boundaryAt_eq map i hi
  cases hc : map.rangeElements[i].boundary with
  | nil =>
    rw [hc] at hlen
    simp only [length_nil] at hlen
    omega
  | cons c cs =>
    rw [hc] at hboundary hnull
    simp only [mem_cons, not_or] at hnull
    have hcomparable : Comparable false (some c) (some value) := by
      cases c with
      | null => exact absurd rfl hnull.1
      | maxValue => trivial
      | value v => trivial
    obtain ⟨compare, hcompare, hspec⟩ := keyCompare_spec false false [some c] [some value]
      (.cons hcomparable .nil)
    refine ⟨compare, rank false (some c), (cs.map some).map (rank false), ?_, ?_, ?_⟩
    . rw [compareFirst, hboundary]
      exact hcompare
    . rw [RangePartitionMap.bound, hboundary]
      rfl
    . have hlt : ∀ {a b : ℕ ×ₗ WithBot V}, [a] < [b] → a < b := by
        intro a b hab
        cases cons_lt_cons_iff.mp hab with
        | inl hlt => exact hlt
        | inr heq => exact absurd heq.2 (lt_irrefl _)
      cases compare with
      | lt => exact hlt hspec
      | gt => exact hlt hspec
      | eq =>
        have heq : [rank false (some c)] = [rank false (some value)] := hspec
        exact head_eq_of_cons_eq heq

theorem cleanPruningBottom_go_spec (value : Const V) (p : Nat) (hp : p < map.rangeElements.length)
    (habove : ∀ first rest, map.bound false p = first :: rest → rank false (some value) < first)
    (rest i : Nat) (hsum : i + rest = map.rangeElements.length) (hi : i ≤ p)
    : ∃ b : Nat, cleanPruningBottom.go map (some value) rest i = .ok (b : Int) ∧ b ≤ p := by
  induction rest generalizing i with
  | zero => omega
  | succ rest ih =>
    obtain ⟨compare, first, others, hcompare, hbound, hspec⟩ :=
      compareFirst_spec hwf hkey i (by omega) value
    simp only [cleanPruningBottom.go, hcompare, bind, Except.bind]
    split
    . next hne =>
      apply ih (i + 1) (by omega)
      have hip : i ≠ p := by
        intro heq
        subst heq
        apply hne
        rw [hspec.eq_gt]
        apply habove first others hbound
      omega
    . exact ⟨i, rfl, hi⟩

theorem cleanPruningBottom_spec (value : Const V) (p : Nat) (hp : p < map.rangeElements.length)
    (habove : ∀ first rest, map.bound false p = first :: rest → rank false (some value) < first)
    (b : Nat) (hb : b ≤ p)
    : ∃ b' : Nat, cleanPruningBottom map (b : Int) (some value) = .ok (b' : Int) ∧ b' ≤ p := by
  have hcond : ¬ ((b : Int) < 0 ∨ (map.rangeElements.length : Int) ≤ (b : Int)
      ∨ some value = none) := by
    simp only [reduceCtorEq, or_false]
    omega
  rw [cleanPruningBottom, if_neg hcond, Int.toNat_natCast]
  apply cleanPruningBottom_go_spec hwf hkey value p hp habove
  . omega
  . exact hb

theorem cleanPruningTop_go_spec (value : Const V) (t : Nat) (ht : t < map.rangeElements.length)
    : ∃ i : Int, cleanPruningTop.go map (some value) t = .ok i ∧ -1 ≤ i ∧ i ≤ t
        ∧ ∀ j : Nat, i < j → j ≤ t → ∃ first rest, map.bound false j = first :: rest
          ∧ rank false (some value) ≤ first := by
  induction t with
  | zero =>
    obtain ⟨compare, first, others, hcompare, hbound, hspec⟩ := compareFirst_spec hwf hkey 0 ht value
    simp only [cleanPruningTop.go, hcompare, bind, Except.bind]
    split
    . next hne =>
      refine ⟨-1, rfl, by omega, by omega, ?_⟩
      intro j _ hj
      have hzero : j = 0 := by omega
      subst hzero
      exact ⟨first, others, hbound, hspec.ne_lt.mp hne⟩
    . refine ⟨0, rfl, by omega, by omega, ?_⟩
      intro j hj hj'
      omega
  | succ t ih =>
    obtain ⟨compare, first, others, hcompare, hbound, hspec⟩ :=
      compareFirst_spec hwf hkey (t + 1) ht value
    simp only [cleanPruningTop.go, hcompare, bind, Except.bind]
    split
    . next hne =>
      obtain ⟨i, hgo, hlow, hle, hpassed⟩ := ih (by omega)
      refine ⟨i, hgo, hlow, by omega, ?_⟩
      intro j hij hj
      by_cases heq : j = t + 1
      . subst heq
        exact ⟨first, others, hbound, hspec.ne_lt.mp hne⟩
      . apply hpassed j hij (by omega)
    . refine ⟨t + 1, rfl, by omega, by omega, ?_⟩
      intro j hj hj'
      omega

theorem cleanPruningTop_spec (value : Const V) (t : Int) (ht : t < map.rangeElements.length) (p : Nat)
    (hpt : t < 0 ∨ (p : Int) ≤ t)
    (hbelow : ∀ j first rest, j < map.rangeElements.length → map.bound false j = first :: rest →
      rank false (some value) ≤ first → p ≤ j)
    : ∃ t' : Int, cleanPruningTop map t (some value) = .ok t' ∧ (t' < 0 ∨ (p : Int) ≤ t') := by
  rw [cleanPruningTop]
  split
  . exact ⟨t, rfl, hpt⟩
  . next hcond =>
    simp only [not_or, not_lt, not_le] at hcond
    obtain ⟨n, rfl⟩ := Int.eq_ofNat_of_zero_le hcond.1
    obtain ⟨i, hgo, hlow, hle, hpassed⟩ :=
      cleanPruningTop_go_spec hwf hkey value n (by omega)
    simp only [Int.toNat_natCast, hgo, bind, Except.bind]
    split
    . next hlt =>
      refine ⟨i + 1, rfl, .inr ?_⟩
      obtain ⟨j, hj⟩ := Int.eq_ofNat_of_zero_le (by omega : 0 ≤ i + 1)
      obtain ⟨first, rest, hbound, hfirst⟩ := hpassed j (by omega) (by omega)
      have hpj := hbelow j first rest (by omega) hbound hfirst
      omega
    . refine ⟨i, rfl, ?_⟩
      omega

end Routing

section Sequences

variable {map : RangePartitionMap V}

theorem cleanBottom_spec (hwf : map.WF) (hkey : 0 < map.partitionKey.length)
    (columns : List (PruningColumn V)) (row : List V) (hmeets : Meets columns row) (p : Nat)
    (hp : p < map.rangeElements.length) (hreach : rowRank false row < map.bound false p)
    (b : Nat) (hb : b ≤ p)
    : ∃ b' : Nat, cleanBottom map (columns.map fillTop) (b : Int) = .ok (b' : Int) ∧ b' ≤ p := by
  cases hmeets with
  | nil => exact ⟨b, rfl, hb⟩
  | @cons first v columns row hfirst htail =>
    cases htail with
    | nil => exact ⟨b, rfl, hb⟩
    | cons hsecond htail =>
      simp only [map_cons, cleanBottom]
      split
      . next hopen =>
        obtain ⟨c, hc⟩ := Option.isSome_iff_exists.mp hopen.1
        rw [hc]
        apply cleanPruningBottom_spec hwf hkey c p hp _ b hb
        intro head rest hbound
        have hmin : rank false first.min < rankValue false v := by
          cases hfirst.1.min_lt_or hfirst.2 false with
          | inl hlt => exact hlt
          | inr heq => exact absurd heq.2 hopen.2
        have hc' : first.min = some c := hc
        rw [hbound] at hreach
        rw [← hc']
        exact lt_of_lt_of_le hmin (head_le_of_lt hreach)
      . exact ⟨b, rfl, hb⟩

theorem cleanTop_spec (hwf : map.WF) (hkey : 0 < map.partitionKey.length)
    (columns : List (PruningColumn V)) (row : List V) (hmeets : Meets columns row) (p : Nat)
    (hleast : ∀ j, j < map.rangeElements.length → rowRank false row < map.bound false j → p ≤ j)
    (t : Int) (ht : t < map.rangeElements.length) (hpt : t < 0 ∨ (p : Int) ≤ t)
    : ∃ t' : Int, cleanTop map (columns.map fillTop) t = .ok t' ∧ (t' < 0 ∨ (p : Int) ≤ t') := by
  cases hmeets with
  | nil => exact ⟨t, rfl, hpt⟩
  | @cons first v columns row hfirst htail =>
    cases htail with
    | nil => exact ⟨t, rfl, hpt⟩
    | cons hsecond htail =>
      simp only [map_cons, cleanTop]
      split
      . next hopen =>
        have htop : rankValue false v < rank false (fillTop first).max := by
          cases hfirst.1.lt_top_or hfirst.2 false with
          | inl hlt => exact hlt
          | inr heq => exact absurd heq.2 hopen.2
        obtain ⟨c, hc⟩ := Option.isSome_iff_exists.mp hopen.1
        rw [hc] at htop ⊢
        apply cleanPruningTop_spec hwf hkey c t ht p hpt
        intro j head rest hj hbound hle
        apply hleast j hj
        rw [hbound]
        exact cons_lt_cons_iff.mpr (.inl (lt_of_lt_of_le htop hle))
      . exact ⟨t, rfl, hpt⟩

theorem rangeSequences_spec (hwf : map.WF) (s : Session V) (columns : List (PruningColumn V))
    (row : List V) (hlen : columns.length = map.partitionKey.length)
    (hkey : 0 < map.partitionKey.length) (hmeets : Meets columns row) (p : Nat)
    (hslot : IsSlot s.nullsMinimal map true ((rowConsts row).map some) p)
    (hgap : ¬ map.InGap s (rowConsts row) p)
    : ∃ (b : Nat) (t : Int), rangeSequences s map (columns.map fillTop) = .ok ((b : Int), t)
        ∧ b ≤ p ∧ (t < 0 ∨ (p : Int) ≤ t) := by
  have hrow : row.length = map.partitionKey.length := by
    rw [← hlen, hmeets.length_eq]
  have hp : p < map.rangeElements.length := hslot.1.1
  have hreach : rowRank false row < map.bound false p := by
    have h := hslot.1.2
    rw [map_rank_rowConsts, hwf.bound_eq] at h
    exact h
  have hleast : ∀ j, j < map.rangeElements.length → rowRank false row < map.bound false j → p ≤ j := by
    intro j hj hlt
    apply hslot.2
    refine ⟨hj, ?_⟩
    rw [map_rank_rowConsts, hwf.bound_eq]
    exact hlt
  have hmins : (columns.map fillTop).map (·.min) = columns.map (·.min) := by
    simp [fillTop, Function.comp_def]
  obtain ⟨b, hb, hbp⟩ := partitionRoutingForValueRange_bottom hwf s
    ((columns.map fillTop).map (·.min)) (by simpa using hlen) row
    (by rw [hmins]; exact hmeets.bottom_le s.nullsMinimal) p hslot
  obtain ⟨t, ht, htlt, hpt⟩ := partitionRoutingForValueRange_top hwf s
    ((columns.map fillTop).map (·.max)) (by simpa using hlen)
    ((columns.map fillTop).all (·.maxClose)) row hrow (hmeets.le_top s.nullsMinimal)
    (hmeets.reaches_of s.nullsMinimal) p hslot hgap
  obtain ⟨b', hb', hbp'⟩ := cleanBottom_spec hwf hkey columns row hmeets p hp hreach b hbp
  obtain ⟨t', ht', hpt'⟩ := cleanTop_spec hwf hkey columns row hmeets p hleast t htlt hpt
  refine ⟨b', t', ?_, hbp', hpt'⟩
  simp only [rangeSequences, hb, ht, hb', ht', bind, Except.bind]

end Sequences

end Partition

import OpenGauss.Partition.Pruning.Range

/-!
This module contains when the filter over several key columns keeps the partition of a row.
-/

open List

namespace Partition

variable {V : Type} [LinearOrder V] (a : Option (Const V)) (K : KeyType V)

section Compare

theorem head_le_of_le {α : Type} [LinearOrder α] {a b : α} {as bs : List α} (h : a :: as ≤ b :: bs)
    : a ≤ b := by
  cases lt_or_eq_of_le h with
  | inl hlt => exact head_le_of_lt hlt
  | inr heq => exact le_of_eq (head_eq_of_cons_eq heq)

theorem partitonKeyCompare_singleton (b : Option (Const V)) (h : Comparable false a b)
    : partitonKeyCompare [a] [b] false = .ok (headCompare false a b) := by
  rw [partitonKeyCompare, keyCompare_cons false false a b [] [] h]
  cases headCompare false a b with
  | lt => rfl
  | eq => rfl
  | gt => rfl

theorem headCompare_eq_lt (b : Option (Const V))
    : headCompare false a b = .lt ↔ rank false a < rank false b :=
  (compares_headCompare false a b).eq_lt

theorem headCompare_eq_gt (b : Option (Const V))
    : headCompare false a b = .gt ↔ rank false b < rank false a :=
  (compares_headCompare false a b).eq_gt

theorem headCompare_eq_eq (b : Option (Const V))
    : headCompare false a b = .eq ↔ rank false a = rank false b :=
  (compares_headCompare false a b).eq_eq

end Compare

section Column

variable {column : PruningColumn V} {v : V}

structure PruningColumn.Admits (column : PruningColumn V) (c : Const V) : Prop where
  min : rank false column.min < rank false (some c)
    ∨ rank false column.min = rank false (some c) ∧ column.minClose = true
  max : rank false (some c) < rank false (fillTop column).max
    ∨ rank false (some c) = rank false (fillTop column).max ∧ column.maxClose = true

def PruningColumn.Passes (column : PruningColumn V) (c : Const V) : Prop :=
  rank false (some c) < rank false column.min
    ∨ rank false (some c) = rank false column.min ∧ column.minClose = false

-- The lower bound of the column is not below one bound, and the upper one is before the other.
def PruningColumn.FallsBetween (column : PruningColumn V) (next prev : Const V) : Prop :=
  rank false (some next) ≤ rank false column.min
    ∧ (rank false (fillTop column).max < rank false (some prev)
      ∨ rank false (fillTop column).max = rank false (some prev) ∧ column.maxClose = false)

omit [LinearOrder V] in
theorem comparable_of {a b : Option (Const V)} (hnull : b ≠ some .null) (hnone : a ≠ none ∨ b ≠ none)
    : Comparable false a b := by
  match a, b with
  | none, none => simp at hnone
  | _, some .null => exact absurd rfl hnull
  | none, some .maxValue | none, some (.value _) => trivial
  | some .maxValue, none | some .null, none | some (.value _), none => trivial
  | some .null, some .maxValue | some .null, some (.value _) => trivial
  | some .maxValue, some .maxValue | some .maxValue, some (.value _) => trivial
  | some (.value _), some .maxValue | some (.value _), some (.value _) => trivial

omit [LinearOrder V] in
theorem PruningColumn.IsBound.min_ne_null (h : column.IsBound) : column.min ≠ some .null := by
  intro heq
  obtain ⟨w, hw⟩ := h.min _ heq
  cases hw

omit [LinearOrder V] in
theorem PruningColumn.IsBound.top_ne_null (h : column.IsBound) : (fillTop column).max ≠ some .null := by
  rw [fillTop]
  cases hmax : column.max with
  | none => simp
  | some c =>
    obtain ⟨w, rfl⟩ := h.max c hmax
    simp

section Fill

omit [LinearOrder V]

@[simp]
theorem fillTop_min : (fillTop column).min = column.min := rfl

@[simp]
theorem fillTop_minClose : (fillTop column).minClose = column.minClose := rfl

@[simp]
theorem fillTop_maxClose : (fillTop column).maxClose = column.maxClose := rfl

end Fill

omit [LinearOrder V] in
theorem compare_min (h : column.IsBound) (a : Option (Const V)) (ha : a ≠ none ∨ column.min ≠ none)
    : Comparable false a (fillTop column).min := by
  apply comparable_of h.min_ne_null ha

omit [LinearOrder V] in
theorem compare_top (h : column.IsBound) (a : Option (Const V))
    : Comparable false a (fillTop column).max := by
  apply comparable_of h.top_ne_null
  right
  simp [fillTop]

theorem columnSelected_point (hholds : column.Holds v) (hbound : column.IsBound) (c : Const V)
    : ∃ selected, columnSelected ⟨.point, some c, some c⟩ (fillTop column) = .ok selected
        ∧ (selected = true ↔ column.Admits c) := by
  have hmin := compare_min hbound (some c) (.inl (by simp))
  have htop := compare_top hbound (some c)
  simp only [columnSelected, partitonKeyCompare_singleton _ _ hmin,
    partitonKeyCompare_singleton _ _ htop, bind, Except.bind]
  refine ⟨_, rfl, ?_⟩
  simp only [Bool.or_eq_true, Bool.and_eq_true, beq_iff_eq, headCompare_eq_lt, headCompare_eq_gt,
    headCompare_eq_eq, fillTop_min, fillTop_minClose, fillTop_maxClose]
  have hlow := hholds.min_lt_or hbound false
  have hhigh := hholds.lt_top_or hbound false
  constructor
  . rintro ((⟨hgt, hlt⟩ | ⟨heq, hclose⟩) | ⟨heq, hclose⟩)
    . exact ⟨.inl hgt, .inl hlt⟩
    . refine ⟨.inr ⟨heq.symm, hclose⟩, ?_⟩
      rw [heq]
      cases hlow with
      | inl hlow => exact .inl (lt_of_lt_of_le hlow (hholds.le_top hbound false))
      | inr hlow =>
        rw [hlow.1]
        exact hhigh
    . refine ⟨?_, .inr ⟨heq, hclose⟩⟩
      rw [heq]
      cases hhigh with
      | inl hhigh => exact .inl (lt_of_le_of_lt (hholds.min_le hbound false) hhigh)
      | inr hhigh =>
        rw [← hhigh.1]
        exact hlow
  . rintro ⟨hgt | ⟨heq, hclose⟩, hlt⟩
    . cases hlt with
      | inl hlt => exact .inl (.inl ⟨hgt, hlt⟩)
      | inr hclose => exact .inr hclose
    . exact .inl (.inr ⟨heq.symm, hclose⟩)

def RangeSelected (column : PruningColumn V) (prev next : ℕ ×ₗ WithBot V) : Prop :=
  (rank false column.min < prev ∧ prev < rank false (fillTop column).max)
    ∨ (prev < rank false column.min ∧ rank false column.min < next)
    ∨ (prev = rank false (fillTop column).max ∧ column.maxClose = true)
    ∨ (next = rank false column.min ∧ column.minClose = true)
    ∨ prev = rank false column.min
    ∨ next = rank false (fillTop column).max

omit [LinearOrder V] in
theorem constIsMin_eq_false {a : Option (Const V)} (hnull : a ≠ some .null) (hnone : a ≠ none)
    : constIsMin a = false := by
  match a with
  | none => exact absurd rfl hnone
  | some .null => exact absurd rfl hnull
  | some .maxValue | some (.value _) => rfl

omit [LinearOrder V] in
theorem constIsMax_iff : constIsMax a = true ↔ a = some .maxValue := by
  match a with
  | none | some .null | some .maxValue | some (.value _) => simp [constIsMax]

theorem columnSelected_range (hbound : column.IsBound) (prev : Option (Const V)) (next : Const V)
    (hnull : prev ≠ some .null) (hnone : prev ≠ none ∨ column.min ≠ none)
    (mode : PartKeyColumnRangeMode) (hmode : mode = .range ∨ mode = .increase)
    : ∃ selected, columnSelected ⟨mode, prev, some next⟩ (fillTop column) = .ok selected
        ∧ (selected = true ↔ RangeSelected column (rank false prev) (rank false (some next))) := by
  have hprevMin := compare_min hbound prev hnone
  have hprevTop := compare_top hbound prev
  have hnextMin := compare_min hbound (some next) (.inl (by simp))
  have hnextTop := compare_top hbound (some next)
  have hmin : (constIsMin prev && constIsMin column.min) = false := by
    rw [Bool.and_eq_false_iff]
    cases hnone with
    | inl h => exact .inl (constIsMin_eq_false hnull h)
    | inr h => exact .inr (constIsMin_eq_false hbound.min_ne_null h)
  have hspec : ∃ selected, columnSelected ⟨.range, prev, some next⟩ (fillTop column) = .ok selected
      ∧ (selected = true ↔ RangeSelected column (rank false prev) (rank false (some next))) := by
    simp only [columnSelected, fillTop_min, fillTop_minClose, fillTop_maxClose, hmin, Bool.false_or]
    split
    . next hmax =>
      rw [Bool.and_eq_true, constIsMax_iff, constIsMax_iff] at hmax
      refine ⟨true, rfl, ?_⟩
      rw [hmax.1, RangeSelected, hmax.2]
      simp
    . rw [fillTop_min] at hprevMin hnextMin
      simp only [partitonKeyCompare_singleton _ _ hprevMin, partitonKeyCompare_singleton _ _ hprevTop,
        partitonKeyCompare_singleton _ _ hnextMin, partitonKeyCompare_singleton _ _ hnextTop, bind,
        Except.bind]
      refine ⟨_, rfl, ?_⟩
      simp only [Bool.or_eq_true, Bool.and_eq_true, beq_iff_eq, headCompare_eq_lt,
        headCompare_eq_gt, headCompare_eq_eq, RangeSelected, or_assoc]
  cases hmode with
  | inl h =>
    rw [h]
    exact hspec
  | inr h =>
    rw [h]
    exact hspec

omit [LinearOrder V] in
theorem eq_none_of_constIsMin {a : Option (Const V)} (h : constIsMin a = true) (hnull : a ≠ some .null)
    : a = none := by
  match a with
  | none => rfl
  | some .null => exact absurd rfl hnull

theorem rank_none_lt (c : Const V) : rank false none < rank false (some c) := by
  cases c with
  | maxValue => simp [rank, Prod.Lex.toLex_lt_toLex]
  | null => simp [rank, Prod.Lex.toLex_lt_toLex]
  | value v => simp [rank, Prod.Lex.toLex_lt_toLex]

theorem rank_lt_maxValue {c : Const V} (h : c ≠ .maxValue)
    : rank false (some c) < rank false (some .maxValue) := by
  cases c with
  | maxValue => exact absurd rfl h
  | null => simp [rank, Prod.Lex.toLex_lt_toLex]
  | value v => simp [rank, Prod.Lex.toLex_lt_toLex]

theorem columnSelected_union (hbound : column.IsBound) (prev next : Const V)
    (hprev : prev ≠ .maxValue)
    : ∃ selected, columnSelected ⟨.union, some prev, some next⟩ (fillTop column) = .ok selected
        ∧ (selected = false ↔ column.FallsBetween next prev) := by
  have hnextMin := compare_min hbound (some next) (.inl (by simp))
  have hprevTop := compare_top hbound (some prev)
  simp only [columnSelected]
  split
  . next hopen =>
    refine ⟨true, rfl, ?_⟩
    rw [Bool.or_eq_true] at hopen
    simp only [Bool.true_eq_false, false_iff]
    rintro ⟨hnext, htop⟩
    cases hopen with
    | inl hmin =>
      have hnone := eq_none_of_constIsMin hmin hbound.min_ne_null
      rw [fillTop_min] at hnone
      rw [hnone] at hnext
      exact absurd (rank_none_lt next) (not_lt_of_ge hnext)
    | inr hmax =>
      rw [constIsMax_iff] at hmax
      rw [hmax] at htop
      have hlt := rank_lt_maxValue hprev
      cases htop with
      | inl hbelow => exact absurd hbelow (not_lt_of_gt hlt)
      | inr heq => exact absurd heq.1 (ne_of_gt hlt)
  . simp only [partitonKeyCompare_singleton _ _ hnextMin, partitonKeyCompare_singleton _ _ hprevTop,
      bind, Except.bind, PruningColumn.FallsBetween, headCompare_eq_gt]
    split
    . next hgt =>
      refine ⟨true, rfl, ?_⟩
      simp only [Bool.true_eq_false, false_iff]
      rintro ⟨hnext, _⟩
      exact absurd hgt (not_lt_of_ge hnext)
    . next hgt =>
      refine ⟨_, rfl, ?_⟩
      rw [← Bool.not_eq_true]
      simp only [Bool.or_eq_true, Bool.and_eq_true, beq_iff_eq, headCompare_eq_lt,
        headCompare_eq_eq, fillTop_maxClose, not_or, not_and, Bool.not_eq_true]
      constructor
      . rintro ⟨hprevTop, hclose⟩
        refine ⟨le_of_not_gt hgt, ?_⟩
        cases lt_or_eq_of_le (le_of_not_gt hprevTop) with
        | inl hlt => exact .inl hlt
        | inr heq => exact .inr ⟨heq, hclose heq.symm⟩
      . rintro ⟨_, hbelow | ⟨heq, hclose⟩⟩
        . exact ⟨not_lt_of_gt hbelow, fun heq => absurd heq (ne_of_gt hbelow)⟩
        . refine ⟨?_, fun _ => hclose⟩
          rw [heq]
          apply lt_irrefl

theorem RangeSelected.of_holds (hholds : column.Holds v) (hbound : column.IsBound)
    (prev next : ℕ ×ₗ WithBot V) (hprev : prev ≤ rankValue false v)
    (hnext : rankValue false v ≤ next)
    : RangeSelected column prev next := by
  rw [RangeSelected]
  rcases lt_trichotomy prev (rank false column.min) with hlt | heq | hgt
  . right
    cases lt_or_eq_of_le (le_trans (hholds.min_le hbound false) hnext) with
    | inl hlt' => exact .inl ⟨hlt, hlt'⟩
    | inr heq' =>
      right; right; left
      refine ⟨heq'.symm, ?_⟩
      cases hholds.min_lt_or hbound false with
      | inl hbelow => exact absurd (lt_of_lt_of_le hbelow hnext) (by rw [heq']; apply lt_irrefl)
      | inr hclose => exact hclose.2
  . exact .inr (.inr (.inr (.inr (.inl heq))))
  . cases lt_or_eq_of_le (le_trans hprev (hholds.le_top hbound false)) with
    | inl hlt' => exact .inl ⟨hgt, hlt'⟩
    | inr heq' =>
      right; right; left
      refine ⟨heq', ?_⟩
      cases hholds.lt_top_or hbound false with
      | inl habove => exact absurd (lt_of_le_of_lt hprev habove) (by rw [heq']; apply lt_irrefl)
      | inr hclose => exact hclose.2

theorem columnSelected_below (hholds : column.Holds v) (hbound : column.IsBound) (next : Const V)
    : ∃ selected, columnSelected ⟨.range, none, some next⟩ (fillTop column) = .ok selected
        ∧ (selected = true ↔ ¬ column.Passes next) := by
  by_cases hnone : column.min = none
  . refine ⟨true, ?_, ?_⟩
    . simp [columnSelected, constIsMin, hnone]
    . rw [PruningColumn.Passes, hnone]
      have hlt := rank_none_lt next
      simp only [not_lt_of_gt hlt, ne_of_gt hlt, false_and, or_self, not_false_eq_true]
  . obtain ⟨selected, hselected, hspec⟩ := columnSelected_range hbound none next (by simp)
      (.inr hnone) .range (.inl rfl)
    refine ⟨selected, hselected, ?_⟩
    rw [hspec, PruningColumn.Passes, not_or, not_lt, not_and, Bool.not_eq_false]
    obtain ⟨m, hm⟩ := Option.ne_none_iff_exists'.mp hnone
    have hbottom : rank false none < rank false column.min := by
      rw [hm]
      apply rank_none_lt
    have hbottomTop := lt_of_lt_of_le hbottom
      (le_trans (hholds.min_le hbound false) (hholds.le_top hbound false))
    simp only [RangeSelected, not_lt_of_gt hbottom, hbottom, ne_of_lt hbottom, ne_of_lt hbottomTop,
      false_and, true_and, false_or]
    constructor
    . rintro (hlt | ⟨heq, hclose⟩ | heq)
      . exact ⟨le_of_lt hlt, fun heq => absurd heq (ne_of_gt hlt)⟩
      . exact ⟨le_of_eq heq.symm, fun _ => hclose⟩
      . rw [heq]
        refine ⟨le_trans (hholds.min_le hbound false) (hholds.le_top hbound false), ?_⟩
        intro htop
        cases hholds.min_lt_or hbound false with
        | inl hlt =>
          have habove := lt_of_lt_of_le hlt (hholds.le_top hbound false)
          exact absurd htop (ne_of_gt habove)
        | inr hclose => exact hclose.2
    . rintro ⟨hle, hclose⟩
      cases lt_or_eq_of_le hle with
      | inl hlt => exact .inl hlt
      | inr heq => exact .inr (.inl ⟨heq.symm, hclose heq.symm⟩)

end Column

section Partition

-- The columns behind the first one in which the bounds differ are read only when that one steps
-- from a number to what `leadsTo` takes for the next; `room` is what is left of `columnRanges`.
def SecondColumnLost (room : Nat) (right : Const V) (column : PruningColumn V)
    : List (Const V) → List (Const V) → List (PruningColumn V) → Prop
  | left' :: _, right' :: _, column' :: _ =>
    if left' = .maxValue then
      room = 1 ∨ ¬ column.Admits right ∨ column'.Passes right'
    else
      rank false (some right') < rank false (some left')
        ∧ (room = 1 ∨ column'.FallsBetween right' left')
  | _, _, _ => False

-- The bounds `prev` and `next` of a partition and of the one before it, and the columns of a query,
-- for which the rows of the partition are lost.
def Lost (K : KeyType V)
    : Nat → List (Const V) → List (Const V) → List (PruningColumn V) → Prop
  | 0, _, _, _ => True
  | room + 1, left :: lefts, right :: rights, column :: columns =>
    if left = right then
      Lost K room lefts rights columns
    else
      leadsTo K left right = true ∧ SecondColumnLost (room + 1) right column lefts rights columns
  | _, _, _, _ => False

omit [LinearOrder V] in
theorem putRanges_of_le {room : Nat} {ranges : List (PartKeyColumnRange V)} (h : ranges.length ≤ room)
    : putRanges room ranges = .ok (some ranges) := by
  rw [putRanges, if_pos h]

omit [LinearOrder V] in
theorem putRanges_of_lt {room : Nat} {ranges : List (PartKeyColumnRange V)} (h : room < ranges.length)
    : putRanges room ranges = .error .columnRangesOverrun := by
  rw [putRanges, if_neg (by omega)]

theorem allSelected_cons {columnRange : PartKeyColumnRange V} {column : PruningColumn V}
    {selected : Bool} (ranges : List (PartKeyColumnRange V)) (columns : List (PruningColumn V))
    (h : columnSelected columnRange column = .ok selected)
    : allSelected (columnRange :: ranges) (column :: columns) = .ok true
        ↔ selected = true ∧ allSelected ranges columns = .ok true := by
  simp only [allSelected, h, bind, Except.bind]
  cases selected with
  | true => simp
  | false => simp

def Selects (ranges : Except PartitionError (Option (List (PartKeyColumnRange V))))
    (columns : List (PruningColumn V)) : Prop :=
  ∃ list, ranges = .ok list ∧ allSelected (list.getD []) (columns.map fillTop) = .ok true

theorem selects_putRanges_iff {room : Nat} (ranges : List (PartKeyColumnRange V))
    (columns : List (PruningColumn V))
    : Selects (putRanges room ranges) columns
        ↔ ranges.length ≤ room ∧ allSelected ranges (columns.map fillTop) = .ok true := by
  by_cases h : ranges.length ≤ room
  . rw [putRanges_of_le h]
    simp [Selects, h]
  . rw [putRanges_of_lt (by omega)]
    simp [Selects, h]

structure Between (prev next : List (Const V)) (row : List V) : Prop where
  low : (prev.map some).map (rank false) ≤ rowRank false row
  high : rowRank false row < (next.map some).map (rank false)
  prevNotNull : ∀ c ∈ prev, c ≠ .null
  nextNotNull : ∀ c ∈ next, c ≠ .null

theorem increaseRanges_selects_iff (room : Nat) (left right : Const V) (lefts rights : List (Const V))
    (column : PruningColumn V) (columns : List (PruningColumn V)) (v : V) (row : List V)
    (hholds : column.Holds v) (hbound : column.IsBound) (hmeets : Meets columns row)
    (hleft : left ≠ .null) (hlow : rank false (some left) ≤ rankValue false v)
    (hhigh : rankValue false v ≤ rank false (some right))
    (hlefts : ∀ c ∈ lefts, c ≠ .null) (hrights : ∀ c ∈ rights, c ≠ .null)
    (hlenLefts : lefts.length = columns.length) (hlenRights : rights.length = columns.length)
    : Selects (increaseRanges (room + 1) left right lefts rights) (column :: columns)
        ↔ ¬ SecondColumnLost (room + 1) right column lefts rights columns := by
  have hfirst : ∃ selected, columnSelected ⟨.increase, some left, some right⟩ (fillTop column)
      = .ok selected ∧ selected = true := by
    obtain ⟨selected, hselected, hspec⟩ := columnSelected_range hbound (some left) right
      (by simpa using hleft) (.inl (by simp)) .increase (.inr rfl)
    refine ⟨selected, hselected, ?_⟩
    rw [hspec]
    apply RangeSelected.of_holds hholds hbound _ _ hlow hhigh
  obtain ⟨_, hfirst, rfl⟩ := hfirst
  cases hmeets with
  | nil =>
    rw [length_eq_zero_iff.mp hlenLefts, length_eq_zero_iff.mp hlenRights]
    simp only [increaseRanges, selects_putRanges_iff, map_cons, allSelected_cons _ _ hfirst]
    simp [SecondColumnLost, allSelected]
  | @cons column' w columns row hmeets' htail =>
    obtain ⟨left', lefts, rfl⟩ := exists_cons_of_length_eq_add_one hlenLefts
    obtain ⟨right', rights, rfl⟩ := exists_cons_of_length_eq_add_one hlenRights
    have hleft' := hlefts left' (by simp)
    have hright' := hrights right' (by simp)
    rw [increaseRanges, SecondColumnLost]
    by_cases hmax : left' = .maxValue
    . obtain ⟨point, hpoint, hpointSpec⟩ := columnSelected_point hholds hbound right
      obtain ⟨below, hbelow, hbelowSpec⟩ := columnSelected_below hmeets'.1 hmeets'.2 right'
      rw [if_pos hmax, if_pos hmax, selects_putRanges_iff, map_cons, map_cons,
        allSelected_cons _ _ hpoint, allSelected_cons _ _ hbelow, hpointSpec, hbelowSpec, not_or,
        not_or, not_not]
      simp only [length_cons, length_nil, allSelected, and_true]
      constructor
      . rintro ⟨hroom, hselected⟩
        exact ⟨by omega, hselected⟩
      . rintro ⟨hroom, hselected⟩
        exact ⟨by omega, hselected⟩
    . have hcomparable : Comparable false (some left') (some right') := by
        apply comparable_of
        . simpa using hright'
        . simp
      rw [if_neg hmax, if_neg hmax, partitonKeyCompare_singleton _ _ hcomparable]
      simp only [bind, Except.bind, headCompare_eq_gt]
      split
      . next hgt =>
        obtain ⟨union, hunion, hunionSpec⟩ := columnSelected_union hmeets'.2 left' right' hmax
        rw [selects_putRanges_iff, map_cons, map_cons, allSelected_cons _ _ hfirst,
          allSelected_cons _ _ hunion, ← hunionSpec]
        simp only [length_cons, length_nil, allSelected, and_true, true_and, hgt, not_or, Bool.not_eq_false]
        constructor
        . rintro ⟨hroom, hselected⟩
          exact ⟨by omega, hselected⟩
        . rintro ⟨hroom, hselected⟩
          exact ⟨by omega, hselected⟩
      . next hle =>
        rw [selects_putRanges_iff, map_cons, allSelected_cons _ _ hfirst]
        simp [allSelected, hle]

omit [LinearOrder V] in
theorem rank_some_inj {a b : Const V} (h : rank false (some a) = rank false (some b)) : a = b := by
  cases a <;> cases b <;> simp [rank] at h ⊢
  exact h

theorem selects_point_iff (ranges : Except PartitionError (Option (List (PartKeyColumnRange V))))
    (point : PartKeyColumnRange V) (column : PruningColumn V) (columns : List (PruningColumn V))
    (h : columnSelected point (fillTop column) = .ok true)
    : Selects (ranges.bind fun list => .ok (list.map (point :: ·))) (column :: columns)
        ↔ Selects ranges columns := by
  match ranges with
  | .error e => simp [Selects, Except.bind]
  | .ok none => simp [Selects, Except.bind, allSelected]
  | .ok (some list) => simp [Selects, Except.bind, allSelected_cons _ _ h]

theorem not_selects_increaseRanges_zero (left right : Const V) (lefts rights : List (Const V))
    (columns : List (PruningColumn V))
    : ¬ Selects (increaseRanges 0 left right lefts rights) columns := by
  have hput : ∀ ranges : List (PartKeyColumnRange V), 0 < ranges.length →
      ¬ Selects (putRanges 0 ranges) columns := by
    intro ranges hpos hselects
    have hle := ((selects_putRanges_iff ranges columns).mp hselects).1
    omega
  unfold increaseRanges
  split
  . split
    . apply hput
      simp
    . next left' _ right' _ _ =>
      cases partitonKeyCompare [some left'] [some right'] false with
      | error e => simp [Selects, bind, Except.bind]
      | ok compare =>
        simp only [bind, Except.bind]
        split
        . apply hput
          simp
        . apply hput
          simp
  . apply hput
    simp

theorem Between.tail {left : Const V} {lefts rights : List (Const V)} {v : V} {row : List V}
    (h : Between (left :: lefts) (left :: rights) (v :: row))
    : Between lefts rights row := by
  have hv : rank false (some left) = rankValue false v :=
    le_antisymm (head_le_of_le h.low) (head_le_of_lt h.high)
  constructor
  . cases lt_or_eq_of_le h.low with
    | inl hlt =>
      cases cons_lt_cons_iff.mp hlt with
      | inl hhead => exact absurd hv (ne_of_lt hhead)
      | inr htail => exact le_of_lt htail.2
    | inr heq => exact le_of_eq (tail_eq_of_cons_eq heq)
  . cases cons_lt_cons_iff.mp h.high with
    | inl hhead => exact absurd hv (ne_of_gt hhead)
    | inr htail => exact htail.2
  . intro c hc
    exact h.prevNotNull c (mem_cons_of_mem _ hc)
  . intro c hc
    exact h.nextNotNull c (mem_cons_of_mem _ hc)

theorem go_cons (room : Nat) (left right : Const V) (lefts rights : List (Const V)) (hright : right ≠ .null)
    : constructPartKeyRange.go K room (left :: lefts) (right :: rights)
        =
      if left = right then
        if room = 0 then
          .error .columnRangesOverrun
        else
          (constructPartKeyRange.go K (room - 1) lefts rights).bind fun ranges =>
            .ok (ranges.map (⟨.point, some left, some right⟩ :: ·))
      else if leadsTo K left right then
        increaseRanges room left right lefts rights
      else
        putRanges room [⟨.range, some left, some right⟩] := by
  have hcomparable : Comparable false (some left) (some right) := by
    apply comparable_of
    . simpa using hright
    . simp
  rw [constructPartKeyRange.go, partitonKeyCompare_singleton _ _ hcomparable]
  simp only [bind, Except.bind]
  by_cases heq : left = right
  . rw [if_pos heq, if_pos]
    rw [headCompare_eq_eq, heq]
  . rw [if_neg heq, if_neg]
    rw [headCompare_eq_eq]
    intro hrank
    exact heq (rank_some_inj hrank)

theorem go_selects_iff (columns : List (PruningColumn V)) (row : List V)
    (hmeets : Meets columns row) (room : Nat) (prev next : List (Const V))
    (hprev : prev.length = columns.length) (hnext : next.length = columns.length)
    (hbetween : Between prev next row)
    : Selects (constructPartKeyRange.go K room prev next) columns ↔ ¬ Lost K room prev next columns := by
  induction hmeets generalizing room prev next with
  | nil =>
    rw [length_eq_zero_iff.mp hnext] at hbetween
    exact absurd hbetween.high (by simp [rowRank])
  | @cons column v columns row hhead htail ih =>
    obtain ⟨left, lefts, rfl⟩ := exists_cons_of_length_eq_add_one hprev
    obtain ⟨right, rights, rfl⟩ := exists_cons_of_length_eq_add_one hnext
    have hlow : rank false (some left) ≤ rankValue false v := head_le_of_le hbetween.low
    have hhigh : rankValue false v ≤ rank false (some right) := head_le_of_lt hbetween.high
    rw [go_cons K room left right lefts rights (hbetween.nextNotNull right (by simp))]
    by_cases heq : left = right
    . subst heq
      rw [if_pos rfl]
      cases room with
      | zero => simp [Selects, Lost]
      | succ room =>
        have hv : left = .value v := rank_some_inj (le_antisymm hlow hhigh)
        obtain ⟨selected, hselected, hspec⟩ := columnSelected_point hhead.1 hhead.2 left
        have hadmits : selected = true := by
          rw [hspec, hv]
          exact ⟨hhead.1.min_lt_or hhead.2 false, hhead.1.lt_top_or hhead.2 false⟩
        subst hadmits
        rw [if_neg (by omega), Nat.add_sub_cancel, selects_point_iff _ _ _ _ hselected, Lost,
          if_pos rfl]
        apply ih room lefts rights
        . simpa using hprev
        . simpa using hnext
        . exact hbetween.tail
    . have hleft := hbetween.prevNotNull left (by simp)
      rw [if_neg heq]
      cases room with
      | zero =>
        split
        . simp [not_selects_increaseRanges_zero, Lost]
        . simp [selects_putRanges_iff, Lost]
      | succ room =>
        rw [Lost, if_neg heq]
        split
        . next hleads =>
          rw [increaseRanges_selects_iff room left right lefts rights column columns v row hhead.1
            hhead.2 htail hleft hlow hhigh]
          . simp [hleads]
          . intro c hc
            exact hbetween.prevNotNull c (mem_cons_of_mem _ hc)
          . intro c hc
            exact hbetween.nextNotNull c (mem_cons_of_mem _ hc)
          . simpa using hprev
          . simpa using hnext
        . next hleads =>
          obtain ⟨selected, hselected, hspec⟩ := columnSelected_range hhead.2 (some left) right
            (by simpa using hleft) (.inl (by simp)) .range (.inl rfl)
          have hrange : selected = true := by
            rw [hspec]
            apply RangeSelected.of_holds hhead.1 hhead.2 _ _ hlow hhigh
          rw [selects_putRanges_iff, map_cons, allSelected_cons _ _ hselected]
          simp [hrange, allSelected, hleads]

def RangePartitionMap.constsAt (map : RangePartitionMap V) (i : Nat) : List (Const V) :=
  (map.rangeElements[i]?.map (·.boundary)).getD []

-- The partitions whose rows the filter loses for the columns of a query.
def RangePartitionMap.Loses (map : RangePartitionMap V) (K : KeyType V)
    (columns : List (PruningColumn V)) : Nat → Prop
  | 0 => False
  | p + 1 => Lost K columnRangesNum (map.constsAt p) (map.constsAt (p + 1)) columns

theorem RangePartitionMap.WF.constsAt_mem {map : RangePartitionMap V} (hwf : map.WF) {i : Nat}
    (hi : i < map.rangeElements.length)
    : (map.constsAt i).length = map.partitionKey.length ∧ ∀ c ∈ map.constsAt i, c ≠ .null := by
  have hmem := getElem_mem hi
  rw [constsAt, getElem?_eq_getElem hi]
  refine ⟨hwf.keyNum _ hmem, ?_⟩
  intro c hc hnull
  rw [hnull] at hc
  exact hwf.notNull _ hmem hc

omit [LinearOrder V] in
theorem RangePartitionMap.bound_eq_constsAt (map : RangePartitionMap V) (nullsMinimal : Bool)
    {i : Nat} (hi : i < map.rangeElements.length)
    : map.bound nullsMinimal i = ((map.constsAt i).map some).map (rank nullsMinimal) := by
  rw [bound, boundaryAt_eq map i hi, constsAt, getElem?_eq_getElem hi]
  rfl

theorem constructPartKeyRange_zero (map : RangePartitionMap V)
    : constructPartKeyRange K map 0 = .ok [⟨.range, none, (map.constsAt 0).head?⟩] := rfl

theorem constructPartKeyRange_succ (map : RangePartitionMap V) (p : Nat) : constructPartKeyRange K map (p + 1)
      =
    (constructPartKeyRange.go K columnRangesNum (map.constsAt p) (map.constsAt (p + 1))).bind
      fun ranges => .ok (ranges.getD []) := rfl

theorem not_eliminated_iff (map : RangePartitionMap V) (p : Nat) (columns : List (PruningColumn V))
    : partitionShouldEliminated K map p columns = .ok false
        ↔ ∃ ranges, constructPartKeyRange K map p = .ok ranges ∧ allSelected ranges columns = .ok true := by
  simp only [partitionShouldEliminated, bind, Except.bind]
  cases constructPartKeyRange K map p with
  | error e => simp
  | ok ranges =>
    simp only [Except.ok.injEq, exists_eq_left']
    cases allSelected ranges columns with
    | error e => simp
    | ok selected => simp

theorem partitionShouldEliminated_iff (map : RangePartitionMap V) (hwf : map.WF)
    (columns : List (PruningColumn V)) (hlen : columns.length = map.partitionKey.length)
    (hkey : 0 < map.partitionKey.length) (row : List V) (hmeets : Meets columns row) (p : Nat)
    (hp : p < map.rangeElements.length) (hnext : rowRank false row < map.bound false p)
    (hprev : ∀ q, q < p → map.bound false q ≤ rowRank false row)
    : partitionShouldEliminated K map p (columns.map fillTop) = .ok false
        ↔ ¬ map.Loses K columns p := by
  rw [not_eliminated_iff]
  rw [map.bound_eq_constsAt false hp] at hnext
  have hnextConsts := hwf.constsAt_mem hp
  cases p with
  | zero =>
    rw [constructPartKeyRange_zero]
    cases hmeets with
    | nil =>
      simp only [length_nil] at hlen
      omega
    | @cons column v columns row hhead htail =>
      obtain ⟨next, nexts, hconsts⟩ := exists_cons_of_length_pos (by rw [hnextConsts.1]; exact hkey)
      rw [hconsts] at hnext ⊢
      obtain ⟨selected, hselected, hspec⟩ := columnSelected_below hhead.1 hhead.2 next
      have hle : rankValue false v ≤ rank false (some next) := head_le_of_lt hnext
      have hpasses : selected = true := by
        rw [hspec]
        rintro (hlt | ⟨heq, hopen⟩)
        . exact absurd (le_trans (hhead.1.min_le hhead.2 false) hle) (not_le_of_gt hlt)
        . cases hhead.1.min_lt_or hhead.2 false with
          | inl hlt => exact absurd (lt_of_lt_of_le hlt hle) (by rw [heq]; apply lt_irrefl)
          | inr hclose =>
            rw [hclose.2] at hopen
            cases hopen
      subst hpasses
      have hall : allSelected [⟨.range, none, some next⟩] ((column :: columns).map fillTop)
          = .ok true := by
        rw [map_cons, allSelected_cons _ _ hselected]
        exact ⟨rfl, rfl⟩
      simp only [RangePartitionMap.Loses, not_false_eq_true, iff_true]
      exact ⟨_, rfl, hall⟩
  | succ p =>
    have hprevLt : p < map.rangeElements.length := by omega
    have hbelow := hprev p (by omega)
    rw [map.bound_eq_constsAt false hprevLt] at hbelow
    have hprevConsts := hwf.constsAt_mem hprevLt
    have hbetween : Between (map.constsAt p) (map.constsAt (p + 1)) row :=
      ⟨hbelow, hnext, hprevConsts.2, hnextConsts.2⟩
    rw [RangePartitionMap.Loses, ← go_selects_iff K columns row hmeets columnRangesNum _ _
      (by rw [hlen, hprevConsts.1]) (by rw [hlen, hnextConsts.1]) hbetween,
      constructPartKeyRange_succ, Selects]
    cases constructPartKeyRange.go K columnRangesNum (map.constsAt p) (map.constsAt (p + 1)) with
    | error e => simp [Except.bind]
    | ok list => simp [Except.bind]

-- The partition of a row stays selected but for the partitions that lose their rows.
theorem rowPartition_selected_iff (s : Session V) (K : KeyType V) (map : RangePartitionMap V)
    (hwf : map.WF) (hkeys : 2 ≤ map.partitionKey.length) (columns : List (PruningColumn V))
    (hlen : columns.length = map.partitionKey.length) (row : List V) (hmeets : Meets columns row)
    (p oid : Nat)
    (hroute : getRangePartitionOid s.nullsMinimal map ((rowConsts row).map some) true
      = .ok (oid, (p : Int)))
    : (∃ bottomSeq topSeq, rangeSequences s map (columns.map fillTop) = .ok (bottomSeq, topSeq)
          ∧ bottomSeq ≤ p ∧ p ≤ (if topSeq < 0 then rangeEnd (.range map) else topSeq)
          ∧ partitionShouldEliminated K map p (columns.map fillTop) = .ok false)
        ↔
      ¬ map.Loses K columns p := by
  have hrow : ((rowConsts row).map some).length = map.partitionKey.length := by
    simpa [rowConsts, hmeets.length_eq] using hlen
  have hslot : IsSlot s.nullsMinimal map true ((rowConsts row).map some) p := by
    rcases getRangePartitionSeq_spec hwf s.nullsMinimal true _ hrow with ⟨q, hq, hslot⟩ | ⟨hq, _⟩
    . simp only [getRangePartitionOid, hq, bind, Except.bind, Except.ok.injEq, Prod.mk.injEq] at hroute
      have heq : q = p := by omega
      rw [← heq]
      exact hslot
    . simp only [getRangePartitionOid, hq, bind, Except.bind, Except.ok.injEq, Prod.mk.injEq] at hroute
      omega
  have hp : p < map.rangeElements.length := hslot.1.1
  have hgap : ¬ map.InGap s (rowConsts row) p := by
    rintro ⟨_, element, hget, hinterval, _⟩
    have hone := hwf.interval element (List.mem_of_getElem? hget) hinterval
    omega
  have hnext : rowRank false row < map.bound false p := by
    have h := hslot.1.2
    rw [map_rank_rowConsts, hwf.bound_eq] at h
    exact h
  have hprev : ∀ q, q < p → map.bound false q ≤ rowRank false row := by
    intro q hq
    by_contra hlt
    have hle : p ≤ q := by
      apply hslot.2
      refine ⟨by omega, ?_⟩
      rw [map_rank_rowConsts, hwf.bound_eq]
      exact lt_of_not_ge hlt
    omega
  obtain ⟨b, t, hsequences, hb, ht⟩ :=
    rangeSequences_spec hwf s columns row hlen (by omega) hmeets p hslot hgap
  rw [← partitionShouldEliminated_iff K map hwf columns hlen (by omega) row hmeets p hp hnext hprev]
  constructor
  . rintro ⟨_, _, _, _, _, heliminated⟩
    exact heliminated
  . intro heliminated
    refine ⟨b, t, hsequences, by omega, ?_, heliminated⟩
    split
    . rw [rangeEnd]
      omega
    . omega

def farMap : RangePartitionMap Int where
  partitionKey := [1, 2]
  rangeElements := [⟨1, [.value 0, .value 10], false⟩, ⟨2, [.value 257, .value 5], false⟩]
  intervalValue := id

def intKey : KeyType Int where
  typeIsNumerable _ := true
  constvalue := BitVec.ofInt 64

theorem farMap_wf : farMap.WF where
  pos := by decide
  keyNum := by decide
  notNull := by decide
  increasing := by
    intro i j hij hj
    have hj' : j < 2 := hj
    obtain ⟨rfl, rfl⟩ : i = 0 ∧ j = 1 := by omega
    have hlt : rank false (some (.value (0 : Int))) < rank false (some (.value 257)) := by
      rw [rank_value_lt_value]
      decide
    exact cons_lt_cons_iff.mpr (.inl hlt)
  interval := by decide

def secondIs (value : Int) : List (PruningColumn Int) :=
  [⟨none, false, none, false⟩, ⟨some (.value value), true, some (.value value), true⟩]

theorem meets_secondIs (first value : Int) : Meets (secondIs value) [first, value] := by
  apply List.Forall₂.cons
  . refine ⟨⟨?_, ?_⟩, ⟨?_, ?_⟩⟩
    . intro m h
      cases h
    . intro m h
      cases h
    . intro c h
      cases h
    . intro c h
      cases h
  . refine .cons ⟨⟨?_, ?_⟩, ⟨?_, ?_⟩⟩ .nil
    . intro m h
      cases h
      exact .inr ⟨rfl, rfl⟩
    . intro m h
      cases h
      exact .inr ⟨rfl, rfl⟩
    . intro c h
      exact ⟨_, (Option.some.inj h).symm⟩
    . intro c h
      exact ⟨_, (Option.some.inj h).symm⟩

theorem rowPartition_selected_iff_farMap
    : ∃ bottomSeq topSeq, rangeSequences intSession farMap ((secondIs 3).map fillTop)
          = .ok (bottomSeq, topSeq)
        ∧ bottomSeq ≤ (1 : Nat) ∧ (1 : Nat) ≤ (if topSeq < 0 then rangeEnd (.range farMap) else topSeq)
        ∧ partitionShouldEliminated intKey farMap 1 ((secondIs 3).map fillTop) = .ok false := by
  apply (rowPartition_selected_iff intSession intKey farMap farMap_wf (by decide) (secondIs 3) rfl
    [100, 3] (meets_secondIs 100 3) 1 2 rfl).mpr
  rintro ⟨_, _, hroom | hfalls⟩
  . cases hroom
  . have hlt : rank false (some (.value (3 : Int))) < rank false (some (.value 5)) := by
      rw [rank_value_lt_value]
      decide
    exact absurd hfalls.1 (not_le_of_gt hlt)

theorem rowPartition_eliminated
    : farMap.WF ∧ Meets (secondIs 7) [100, 7]
        ∧ getRangePartitionOid false farMap ((rowConsts [100, 7]).map some) true = .ok (2, 1)
        ∧ partitionShouldEliminated intKey farMap 1 ((secondIs 7).map fillTop) = .ok true := by
  refine ⟨farMap_wf, meets_secondIs 100 7, rfl, rfl⟩

end Partition

end Partition

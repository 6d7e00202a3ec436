import OpenGauss.Ustore.Page.Lemmas
import OpenGauss.Ustore.MultiInsert.Impl

/-!
This module contains when the offsets that `UHeapMultiInsert` records are those at which it has placed its
tuples.
-/

open List

namespace Ustore

variable {offnum saveFreeSpace : Nat} {thawed : Nat → Bool} {offnums : List Nat} {st : LocateState}
variable {d x i : Nat}

namespace MultiInsert

open AddItem (maxOffsetNumber)
open Visibility (rowPtrIsDeleted rowPtrGetTDSlot)

section Free

variable {page page' : UPage}

def freeList (page : UPage) : List Nat :=
  if page.hasFreeLinePointers then (List.range' 1 page.maxOffsetNumber).filter (isFree page) else []

def allocated (page : UPage) (n : Nat) : List Nat :=
  (freeList page ++ List.range' (page.maxOffsetNumber + 1) n).take n

theorem find?_eq_head? (p : Nat → Bool) (l : List Nat) : l.find? p = (l.filter p).head? := by
  induction l with
  | nil => rfl
  | cons i l ih =>
    rw [find?_cons, filter_cons]
    cases p i with
    | false => exact ih
    | true => rfl

theorem findNextFreeSlot_eq (page : UPage) : findNextFreeSlot page
      =
    match freeList page with
    | offnum :: _ => (offnum, page)
    | [] => (page.maxOffsetNumber + 1, { page with hasFreeLinePointers := false }) := by
  have hfree : (fun i => !(page.rowPtrs i).isUsed && !(page.rowPtrs i).hasStorage) = isFree page := rfl
  unfold findNextFreeSlot freeList
  split
  next hhint =>
    rw [hfree, find?_eq_head?]
    cases (List.range' 1 page.maxOffsetNumber).filter (isFree page) with
    | nil => rfl
    | cons => rfl
  next hhint =>
    rw [Bool.not_eq_true] at hhint
    rw [← hhint]

structure Taken (page page' : UPage) (offnum len : Nat) : Prop where
  offnum : (freeList page ++ [page.maxOffsetNumber + 1]).head? = some offnum
  free : freeList page' = (freeList page).tail
  max : page'.maxOffsetNumber = if freeList page = [] then page.maxOffsetNumber + 1 else page.maxOffsetNumber
  lower : page'.pdLower = if freeList page = [] then page.pdLower + sizeOfRowPtr else page.pdLower
  upper : page'.pdUpper + shortAlign len = page.pdUpper
  tdCount : page'.tdCount = page.tdCount

theorem placed_of_calculate {item : Bytes} (h : calculateLowerUpperPointers page offnum item = some page')
    : let lower := if offnum = page.maxOffsetNumber + 1 then page.pdLower + sizeOfRowPtr else page.pdLower
      lower + shortAlign item.length ≤ page.pdUpper ∧ page'.pdLower = lower ∧
        page'.pdUpper = page.pdUpper - shortAlign item.length ∧ page'.tdCount = page.tdCount ∧
        page'.hasFreeLinePointers = page.hasFreeLinePointers ∧
        (∀ i, isFree page' i = (isFree page i && i ≠ offnum)) := by
  intro lower
  unfold calculateLowerUpperPointers at h
  change (if page.maxOffsetNumber + 1 < offnum then none
    else if page.pdUpper < lower + shortAlign item.length then none else some _) = some page' at h
  by_cases hlimit : page.maxOffsetNumber + 1 < offnum
  . rw [if_pos hlimit] at h
    cases h
  rw [if_neg hlimit] at h
  by_cases hroom : page.pdUpper < lower + shortAlign item.length
  . rw [if_pos hroom] at h
    cases h
  rw [if_neg hroom] at h
  cases h
  refine ⟨Nat.le_of_not_lt hroom, rfl, rfl, rfl, rfl, ?_⟩
  intro i
  by_cases hi : i = offnum
  . simp [isFree, UPage.setRowPtr, hi, RowPtr.isUsed]
  . simp [isFree, UPage.setRowPtr, hi]

theorem tail_of_filter {p : Nat → Bool} {l rest : List Nat} (hnodup : l.Nodup) (h : l.filter p = x :: rest)
    : (l.filter fun i => p i && i ≠ x) = rest := by
  have hnodup' : (x :: rest).Nodup := by
    rw [← h]
    exact hnodup.filter _
  have hcongr : (l.filter fun i => p i && i ≠ x) = (l.filter p).filter fun i => i ≠ x := by
    rw [filter_filter]
    simp only [Bool.and_comm]
  rw [hcongr, h, filter_cons_of_neg (by simp)]
  apply filter_eq_self.2
  intro i hi
  have : i ≠ x := by
    rintro rfl
    exact (nodup_cons.1 hnodup').1 hi
  simpa using this

theorem upageAddItem_taken {maxTuples : Nat} {item : Bytes}
    (hheader : sizeOfUHeapPageHeaderData + page.tdCount * sizeOfTD ≤ page.pdLower)
    (h : upageAddItem page maxTuples item = some (offnum, page')) : Taken page page' offnum item.length := by
  unfold upageAddItem at h
  dsimp only at h
  split at h
  . cases h
  obtain ⟨placed, hplaced, heq⟩ := Option.map_eq_some_iff.1 h
  cases heq
  rw [findNextFreeSlot_eq] at hplaced ⊢
  cases hfree : freeList page with
  | nil =>
    rw [hfree] at hplaced
    obtain ⟨hroom, hlower, hupper, htd, hhint, -⟩ := placed_of_calculate hplaced
    dsimp only at hroom hlower hupper htd hhint
    change page'.pdLower = if page.maxOffsetNumber + 1 = page.maxOffsetNumber + 1 then _ else _ at hlower
    rw [if_pos rfl] at hlower
    change (if page.maxOffsetNumber + 1 = page.maxOffsetNumber + 1 then _ else _) + _ ≤ page.pdUpper at hroom
    refine ⟨?_, ?_, ?_, ?_, ?_, htd⟩
    . rw [hfree]
      rfl
    . rw [freeList, hhint, hfree]
      rfl
    . rw [if_pos hfree]
      simp only [UPage.maxOffsetNumber, hlower, htd, sizeOfRowPtr]
      omega
    . rw [if_pos hfree]
      exact hlower
    . omega
  | cons x rest =>
    rw [hfree] at hplaced
    have hhint : page.hasFreeLinePointers = true := by
      by_contra hnot
      rw [freeList, if_neg hnot] at hfree
      cases hfree
    have hfilter : (List.range' 1 page.maxOffsetNumber).filter (isFree page) = x :: rest := by
      rw [← hfree, freeList, if_pos hhint]
    have hx : x ∈ List.range' 1 page.maxOffsetNumber := by
      have : x ∈ (List.range' 1 page.maxOffsetNumber).filter (isFree page) := by
        rw [hfilter]
        exact mem_cons_self
      exact (mem_filter.1 this).1
    have hne : x ≠ page.maxOffsetNumber + 1 := by
      rw [mem_range'_1] at hx
      omega
    obtain ⟨hroom, hlower, hupper, htd, hhint', hfree'⟩ := placed_of_calculate hplaced
    dsimp only at hroom hlower hupper htd hhint' hfree'
    rw [if_neg hne] at hroom hlower
    have hmax : page'.maxOffsetNumber = page.maxOffsetNumber := by
      simp only [UPage.maxOffsetNumber, hlower, htd]
    have hcons : freeList page ≠ [] := by
      rw [hfree]
      exact cons_ne_nil x rest
    refine ⟨?_, ?_, ?_, ?_, ?_, htd⟩
    . rw [hfree]
      rfl
    . rw [freeList, hhint', if_pos hhint, hmax, hfree]
      have hcongr : isFree page' = fun i => isFree page i && i ≠ x := funext hfree'
      rw [hcongr]
      exact tail_of_filter nodup_range' hfilter
    . rw [if_neg hcons]
      exact hmax
    . rw [if_neg hcons]
      exact hlower
    . omega

end Free

section Advance

variable {page : UPage} {st st₁ st' : PageState} {env : Env} {tdSlot : Nat}

def sumAligned (tuples : List Bytes) : Nat := (tuples.map fun tuple => shortAlign tuple.length).sum

structure Advanced (n : Nat) (st st' : PageState) : Prop where
  le : n ≤ st.tuples.length
  tuples : st'.tuples = st.tuples.drop n
  placed : st'.placed = st.placed ++ allocated st.page n
  free : freeList st'.page = (freeList st.page).drop n
  max : st'.page.maxOffsetNumber = st.page.maxOffsetNumber + (n - (freeList st.page).length)
  lower : st'.page.pdLower = st.page.pdLower + (n - (freeList st.page).length) * sizeOfRowPtr
  upper : st'.page.pdUpper + sumAligned (st.tuples.take n) = st.page.pdUpper
  tdCount : st'.page.tdCount = st.page.tdCount

theorem Advanced.refl (st : PageState) : Advanced 0 st st where
  le := Nat.zero_le _
  tuples := rfl
  placed := by simp [allocated]
  free := rfl
  max := by simp
  lower := by simp
  upper := rfl
  tdCount := rfl

variable {n : Nat}

theorem take_append_range' (l : List Nat) (start : Nat) {k : Nat} (h : n ≤ l.length + k)
    : (l ++ List.range' start k).take n = (l ++ List.range' start n).take n := by
  rw [take_append, take_append, take_range'_of_length_ge (by omega), take_range'_of_length_ge (Nat.sub_le ..)]

theorem length_allocated (page : UPage) (n : Nat) : (allocated page n).length = n := by
  rw [allocated, length_take, length_append, length_range']
  omega

theorem allocated_succ {page' : UPage} {len : Nat} (h : Taken page page' offnum len) (n : Nat)
    : allocated page (n + 1) = offnum :: allocated page' n := by
  have hoffnum := h.offnum
  have hmax := h.max
  rw [allocated, allocated, h.free]
  cases hfree : freeList page with
  | nil =>
    rw [hfree] at hoffnum
    rw [if_pos hfree] at hmax
    cases hoffnum
    rw [hmax]
    simp [range'_succ]
  | cons x rest =>
    have hcons : freeList page ≠ [] := by
      rw [hfree]
      exact cons_ne_nil x rest
    rw [hfree] at hoffnum
    rw [if_neg hcons] at hmax
    cases hoffnum
    rw [hmax, cons_append, take_succ_cons, tail_cons, take_append_range' _ _ (by omega)]

theorem Advanced.cons {tuple : Bytes} {tuples : List Bytes} (hst : st.tuples = tuple :: tuples)
    (htaken : Taken st.page st₁.page offnum tuple.length) (htuples : st₁.tuples = tuples)
    (hplaced : st₁.placed = st.placed ++ [offnum]) (h : Advanced n st₁ st') : Advanced (n + 1) st st' := by
  have hmax := htaken.max
  have hlower := htaken.lower
  have hcount : n + 1 - (freeList st.page).length
      = (if freeList st.page = [] then 1 else 0) + (n - (freeList st₁.page).length) := by
    rw [htaken.free, length_tail]
    split
    next hnil =>
      rw [hnil]
      simp only [length_nil]
      omega
    next hcons =>
      have := length_pos_iff.2 hcons
      omega
  refine ⟨?_, ?_, ?_, ?_, ?_, ?_, ?_, ?_⟩
  . have := h.le
    rw [htuples] at this
    rw [hst]
    exact Nat.succ_le_succ this
  . rw [h.tuples, htuples, hst]
    rfl
  . rw [h.placed, hplaced, allocated_succ htaken, append_assoc]
    rfl
  . rw [h.free, htaken.free, drop_tail]
  . rw [h.max, hcount, hmax]
    split <;> omega
  . rw [h.lower, hcount, hlower]
    split <;> simp only [sizeOfRowPtr] <;> omega
  . have hupper := htaken.upper
    have := h.upper
    rw [htuples] at this
    rw [hst, take_succ_cons, sumAligned, map_cons, sum_cons]
    rw [sumAligned] at this
    omega
  . rw [h.tdCount, htaken.tdCount]

end Advance

section Run

variable {env : Env} {tdSlot firstOffset : Nat} {st st₁ st' : PageState}

def passes (env : Env) (isFirstInsert : Bool) (st : PageState) : Bool :=
  match st.tuples with
  | [] => false
  | tuple :: _ => fits env.saveFreeSpace st.page isFirstInsert tuple

variable {isFirstInsert : Bool}

theorem passes_false_of_passes (h : passes env isFirstInsert st = false) : passes env false st = false := by
  unfold passes at h ⊢
  split
  . rfl
  next tuple tuples heq =>
    rw [heq] at h
    cases isFirstInsert with
    | false => exact h
    | true =>
      simp only [fits, Bool.true_and, Bool.not_true, Bool.false_and, Bool.or_false, Bool.not_eq_false',
        decide_eq_true_eq, Bool.not_false] at h ⊢
      simp only [Bool.false_or, decide_eq_true_eq]
      omega

theorem length_stampTuple (tupleXid : UInt32) (tdSlot : Nat) (tuple : Bytes)
    : (stampTuple tupleXid tdSlot tuple).length = tuple.length := by
  simp [stampTuple, range_succ]

def placeNext (env : Env) (tdSlot : Nat) (st : PageState) : Option PageState :=
  match st.tuples with
  | [] => none
  | tuple :: tuples =>
    (upageAddItem st.page (calculatedMaxUHeapTuplesPerPage env.initTd)
      (stampTuple env.tupleXid tdSlot tuple)).map fun res =>
        { page := res.2.recordPotentialFreeSpace (-(shortAlign tuple.length))
          tuples := tuples
          placed := st.placed ++ [res.1] }

structure Step (st st₁ : PageState) (ctid : Nat) (tuple : Bytes) : Prop where
  tuples : st.tuples = tuple :: st₁.tuples
  placed : st₁.placed = st.placed ++ [ctid]
  taken : sizeOfUHeapPageHeaderData + st.page.tdCount * sizeOfTD ≤ st.page.pdLower →
    Taken st.page st₁.page ctid tuple.length

theorem step_of_placeNext (h : placeNext env tdSlot st = some st₁) : ∃ ctid tuple,
    Step st st₁ ctid tuple := by
  unfold placeNext at h
  split at h
  . cases h
  next tuple tuples htuples =>
    obtain ⟨res, hadd, heq⟩ := Option.map_eq_some_iff.1 h
    cases heq
    refine ⟨res.1, tuple, htuples, rfl, ?_⟩
    intro hheader
    have htaken := upageAddItem_taken hheader hadd
    rw [length_stampTuple] at htaken
    exact { htaken with }

theorem insertRange_succ (n offnum : Nat) : insertRange env tdSlot firstOffset (n + 1) offnum st
      =
    if passes env (offnum = firstOffset) st then
      (placeNext env tdSlot st).bind (insertRange env tdSlot firstOffset n (offnum + 1))
    else
      some (offnum, st) := by
  rw [insertRange, passes, placeNext]
  cases st.tuples with
  | nil => rfl
  | cons tuple tuples =>
    dsimp only
    split
    . cases upageAddItem st.page (calculatedMaxUHeapTuplesPerPage env.initTd)
        (stampTuple env.tupleXid tdSlot tuple) with
      | none => rfl
      | some => rfl
    . rfl

def insertAll (env : Env) (tdSlot : Nat) : Bool → Nat → PageState → Option PageState
  | _, 0, st => some st
  | isFirstInsert, n + 1, st =>
    if passes env isFirstInsert st then (placeNext env tdSlot st).bind (insertAll env tdSlot false n)
    else some st

theorem insertAll_of_not_passes (h : passes env isFirstInsert st = false) (n : Nat)
    : insertAll env tdSlot isFirstInsert n st = some st := by
  cases n with
  | zero => rfl
  | succ n => rw [insertAll, h, if_neg Bool.false_ne_true]

theorem insertRange_of_not_passes (h : passes env (offnum = firstOffset) st = false) (n : Nat)
    : insertRange env tdSlot firstOffset n offnum st = some (offnum, st) := by
  cases n with
  | zero => rfl
  | succ n => rw [insertRange_succ, h, if_neg Bool.false_ne_true]

theorem insertAll_spec (hheader : sizeOfUHeapPageHeaderData + st.page.tdCount * sizeOfTD ≤ st.page.pdLower)
    (h : insertAll env tdSlot isFirstInsert n st = some st')
    : ∃ m, m ≤ n ∧ Advanced m st st' ∧
        (∀ j, j < m → ∃ st₁, Advanced j st st₁ ∧ passes env (isFirstInsert && j = 0) st₁ = true) ∧
        (m < n → passes env (isFirstInsert && m = 0) st' = false) := by
  induction n generalizing isFirstInsert st with
  | zero =>
    cases h
    exact ⟨0, Nat.le_refl _, .refl _, nofun, nofun⟩
  | succ n ih =>
    by_cases hpasses : passes env isFirstInsert st = true
    . rw [insertAll, if_pos hpasses] at h
      obtain ⟨st₁, hnext, h⟩ := Option.bind_eq_some_iff.1 h
      obtain ⟨ctid, tuple, hstep⟩ := step_of_placeNext hnext
      have htaken := hstep.taken hheader
      have hheader' : sizeOfUHeapPageHeaderData + st₁.page.tdCount * sizeOfTD ≤ st₁.page.pdLower := by
        rw [htaken.tdCount, htaken.lower]
        split <;> omega
      obtain ⟨m, hm, hadvanced, hpassed, hblocked⟩ := ih hheader' h
      refine ⟨m + 1, Nat.succ_le_succ hm, hadvanced.cons hstep.tuples htaken rfl hstep.placed, ?_, ?_⟩
      . intro j hj
        cases j with
        | zero =>
          refine ⟨st, .refl _, ?_⟩
          rw [decide_eq_true rfl, Bool.and_true]
          exact hpasses
        | succ j =>
          obtain ⟨st₂, hst₂, hpass⟩ := hpassed j (by omega)
          refine ⟨st₂, hst₂.cons hstep.tuples htaken rfl hstep.placed, ?_⟩
          rw [decide_eq_false (Nat.succ_ne_zero j), Bool.and_false]
          exact hpass
      . intro hlt
        rw [decide_eq_false (Nat.succ_ne_zero m), Bool.and_false]
        exact hblocked (by omega)
    . rw [Bool.not_eq_true] at hpasses
      rw [insertAll_of_not_passes hpasses] at h
      cases h
      refine ⟨0, Nat.zero_le _, .refl _, nofun, ?_⟩
      intro _
      rw [decide_eq_true rfl, Bool.and_true]
      exact hpasses

theorem insertAll_add (k : Nat) (h : insertAll env tdSlot isFirstInsert n st = some st₁)
    : insertAll env tdSlot isFirstInsert (n + k) st
        =
      if st₁.placed.length = st.placed.length + n then insertAll env tdSlot (isFirstInsert && n = 0) k st₁
      else some st₁ := by
  induction n generalizing isFirstInsert st with
  | zero =>
    cases h
    rw [if_pos (Nat.add_zero _).symm, decide_eq_true rfl, Bool.and_true, Nat.zero_add]
  | succ n ih =>
    by_cases hpasses : passes env isFirstInsert st = true
    . rw [insertAll, if_pos hpasses] at h
      obtain ⟨st₂, hnext, h⟩ := Option.bind_eq_some_iff.1 h
      obtain ⟨ctid, tuple, hstep⟩ := step_of_placeNext hnext
      have hlength : st₂.placed.length = st.placed.length + 1 := by
        rw [hstep.placed, length_append]
        rfl
      rw [Nat.add_right_comm, insertAll, if_pos hpasses, hnext, Option.bind_some, ih h, hlength,
        decide_eq_false (Nat.succ_ne_zero n), Bool.and_false, Bool.false_and, Nat.add_assoc, Nat.add_comm 1 n]
    . rw [Bool.not_eq_true] at hpasses
      rw [insertAll_of_not_passes hpasses] at h
      cases h
      rw [insertAll_of_not_passes hpasses, if_neg (by omega)]

theorem insertRange_spec {offnum' : Nat} (hfirst : firstOffset ≤ offnum)
    (h : insertRange env tdSlot firstOffset n offnum st = some (offnum', st'))
    : insertAll env tdSlot (offnum = firstOffset) n st = some st' ∧
        ∃ m, m ≤ n ∧ offnum' = offnum + m ∧ st'.placed.length = st.placed.length + m ∧
          (m < n → passes env (offnum' = firstOffset) st' = false) := by
  induction n generalizing offnum st with
  | zero =>
    cases h
    exact ⟨rfl, 0, Nat.le_refl _, rfl, rfl, nofun⟩
  | succ n ih =>
    by_cases hpasses : passes env (offnum = firstOffset) st = true
    . rw [insertRange_succ, if_pos hpasses] at h
      obtain ⟨st₁, hnext, h⟩ := Option.bind_eq_some_iff.1 h
      obtain ⟨ctid, tuple, hstep⟩ := step_of_placeNext hnext
      obtain ⟨hall, m, hm, hoffnum, hlength, hblocked⟩ := ih (Nat.le_succ_of_le hfirst) h
      rw [decide_eq_false (by omega)] at hall
      refine ⟨?_, m + 1, Nat.succ_le_succ hm, by omega, ?_, fun hlt => hblocked (by omega)⟩
      . rw [insertAll, if_pos hpasses, hnext]
        exact hall
      . rw [hlength, hstep.placed, length_append, length_singleton]
        omega
    . rw [Bool.not_eq_true] at hpasses
      rw [insertRange_of_not_passes hpasses] at h
      cases h
      exact ⟨insertAll_of_not_passes hpasses _, 0, Nat.zero_le _, rfl, rfl, fun _ => hpasses⟩

end Run

section Ranges

variable {env : Env} {tdSlot firstOffset : Nat} {st st₁ st' : PageState} {ranges ranges' : List (Nat × Nat)}

theorem covered_cons (range : Nat × Nat) (ranges : List (Nat × Nat))
    : covered (range :: ranges) = List.range' range.1 (range.2 + 1 - range.1) ++ covered ranges := by
  rw [covered, flatMap_cons, covered]

theorem covered_append (ranges ranges' : List (Nat × Nat))
    : covered (ranges ++ ranges') = covered ranges ++ covered ranges' := by
  rw [covered, flatMap_append, covered, covered]

theorem insertRanges_of_not_passes (hafter : ∀ range ∈ ranges, firstOffset < range.1)
    (hpasses : passes env false st = false)
    (h : insertRanges env tdSlot firstOffset ranges st = some (ranges', st'))
    : st' = st ∧ covered ranges' = [] := by
  induction ranges generalizing ranges' with
  | nil =>
    cases h
    exact ⟨rfl, rfl⟩
  | cons range ranges ih =>
    have hrange := hafter range mem_cons_self
    have hflag : decide (range.1 = firstOffset) = false := decide_eq_false (by omega)
    rw [insertRanges, insertRange_of_not_passes (by rw [hflag]; exact hpasses)] at h
    obtain ⟨res, hres, heq⟩ := Option.map_eq_some_iff.1 h
    cases heq
    obtain ⟨hst, hcovered⟩ := ih (fun r hr => hafter r (mem_cons_of_mem _ hr)) hres
    refine ⟨hst, ?_⟩
    have hempty : range.1 - 1 + 1 - range.1 = 0 := by omega
    rw [covered_cons, hcovered, hempty]
    rfl

theorem insertRanges_spec (hle : ∀ range ∈ ranges, 1 ≤ range.1 ∧ range.1 ≤ range.2)
    (hfirst : ∀ range ∈ ranges.head?, firstOffset ≤ range.1 ∧ isFirstInsert = decide (range.1 = firstOffset))
    (hafter : ∀ range ∈ ranges.tail, firstOffset < range.1)
    (h : insertRanges env tdSlot firstOffset ranges st = some (ranges', st'))
    : insertAll env tdSlot isFirstInsert (covered ranges).length st = some st' ∧
        ∃ m, m ≤ (covered ranges).length ∧ st'.placed.length = st.placed.length + m ∧
          covered ranges' = (covered ranges).take m := by
  induction ranges generalizing isFirstInsert st ranges' with
  | nil =>
    cases h
    exact ⟨rfl, 0, Nat.zero_le _, rfl, rfl⟩
  | cons range ranges ih =>
    obtain ⟨hrange, hflag⟩ := hfirst range rfl
    obtain ⟨hone, hle_range⟩ := hle range mem_cons_self
    rw [insertRanges] at h
    split at h
    . cases h
    next offnum st₁ hinsert =>
      obtain ⟨res, hres, heq⟩ := Option.map_eq_some_iff.1 h
      cases heq
      obtain ⟨hall, m, hm, hoffnum, hlength, hblocked⟩ := insertRange_spec hrange hinsert
      have hadd := insertAll_add (covered ranges).length hall
      have hcount : range.1 ≤ offnum := by omega
      have hcovered : offnum - 1 + 1 - range.1 = m := by omega
      rw [covered_cons, length_append, length_range', covered_cons, hcovered, hflag, hadd]
      by_cases hfull : m = range.2 + 1 - range.1
      . have hrest : ∀ r ∈ ranges.head?, firstOffset ≤ r.1 ∧ false = decide (r.1 = firstOffset) := by
          intro r hr
          have hlt := hafter r (mem_of_mem_head? hr)
          exact ⟨Nat.le_of_lt hlt, (decide_eq_false (by omega)).symm⟩
        obtain ⟨hall', k, hk, hlength', hcovered'⟩ := ih (fun r hr => hle r (mem_cons_of_mem _ hr)) hrest
          (fun r hr => hafter r (mem_of_mem_tail hr)) hres
        have hnonempty : decide (range.2 + 1 - range.1 = 0) = false := decide_eq_false (by omega)
        rw [if_pos (by omega), hnonempty, Bool.and_false]
        refine ⟨hall', m + k, by omega, by omega, ?_⟩
        have htake : (List.range' range.1 m ++ covered ranges).take ((List.range' range.1 m).length + k) =
          _ :=
          take_length_add_append k
        rw [length_range'] at htake
        rw [hcovered', ← hfull, htake]
      . have hstop := passes_false_of_passes (hblocked (by omega))
        obtain ⟨hst, hempty⟩ := insertRanges_of_not_passes hafter hstop hres
        rw [if_neg (by omega), hst, hempty, append_nil]
        refine ⟨rfl, m, by omega, hlength, ?_⟩
        rw [take_append_of_le_length, take_range'_of_length_ge (by omega)]
        rw [length_range']
        omega

end Ranges

section Locate

variable {page : UPage} {saveFreeSpace : Nat}

def sumLen (tuples : List Bytes) : Nat := (tuples.map List.length).sum

structure LocateState.Inv (st : LocateState) (offnum : Nat) : Prop where
  le : ∀ range ∈ st.ranges, range.1 ≤ range.2
  inRange : st.inRange = true → ∃ range ranges, st.ranges = range :: ranges ∧ range.2 + 1 = offnum

theorem covered_addOffset (h : st.Inv offnum)
    : covered (addOffset st.inRange st.ranges offnum).reverse = covered st.ranges.reverse ++ [offnum] := by
  have hsingle : covered [(offnum, offnum)] = [offnum] := by
    rw [covered_cons, Nat.add_sub_cancel_left]
    rfl
  cases hin : st.inRange with
  | false =>
    simp only [addOffset, reverse_cons]
    rw [covered_append, hsingle]
  | true =>
    obtain ⟨range, ranges, heq, hend⟩ := h.inRange hin
    have hle := h.le range (by rw [heq]; exact mem_cons_self)
    have hlong : offnum + 1 - range.1 = range.2 + 1 - range.1 + 1 := by omega
    have hlast : range.1 + (range.2 + 1 - range.1) = offnum := by omega
    simp only [addOffset, heq, reverse_cons]
    rw [covered_append, covered_append, covered_cons, covered_cons, hlong, range'_1_concat, hlast,
      append_assoc, append_assoc, append_assoc]
    rfl

theorem inv_addOffset (h : st.Inv offnum) (tuples : List Bytes) (usedSpace : Nat)
    : LocateState.Inv ⟨true, addOffset st.inRange st.ranges offnum, tuples, usedSpace, false⟩ (offnum + 1) := by
  cases hin : st.inRange with
  | false =>
    refine ⟨?_, fun _ => ⟨(offnum, offnum), st.ranges, rfl, rfl⟩⟩
    intro range hrange
    cases mem_cons.1 hrange with
    | inl heq =>
      rw [heq]
    | inr hmem => exact h.le range hmem
  | true =>
    obtain ⟨range, ranges, heq, hend⟩ := h.inRange hin
    have hle := h.le range (by rw [heq]; exact mem_cons_self)
    simp only [addOffset, heq]
    refine ⟨?_, fun _ => ⟨(range.1, offnum), ranges, rfl, rfl⟩⟩
    intro r hr
    cases mem_cons.1 hr with
    | inl hr =>
      rw [hr]
      omega
    | inr hmem => exact h.le r (by rw [heq]; exact mem_cons_of_mem _ hmem)

structure Located (page : UPage) (saveFreeSpace : Nat) (free : List Nat) (st st' : LocateState) (c : Nat)
    : Prop where
  le : c ≤ free.length
  le_tuples : c ≤ st.tuples.length
  ranges : ∀ range ∈ st'.ranges, range.1 ≤ range.2
  covered : covered st'.ranges.reverse = covered st.ranges.reverse ++ free.take c
  tuples : st'.tuples = st.tuples.drop c
  usedSpace : st'.usedSpace = st.usedSpace + sumLen (st.tuples.take c)
  stopped : c < free.length → ∀ tuple, st.tuples[c]? = some tuple →
    page.pdUpper - page.pdLower < st'.usedSpace + tuple.length +
      (if st.isFirstInsert && c = 0 then 0 else saveFreeSpace)

theorem locateUsableItemIds_spec (n offnum : Nat) (st : LocateState) (hinv : st.Inv offnum)
    : ∃ c, Located page saveFreeSpace ((List.range' offnum n).filter (isFree page)) st
        (locateUsableItemIds page saveFreeSpace (List.range' offnum n) st) c := by
  induction n generalizing offnum st with
  | zero =>
    refine ⟨0, Nat.zero_le _, Nat.zero_le _, hinv.le, ?_, rfl, rfl, ?_⟩
    . simp [locateUsableItemIds]
    . intro h
      cases h
  | succ n ih =>
    rw [range'_succ, locateUsableItemIds]
    cases htuples : st.tuples with
    | nil =>
      refine ⟨0, Nat.zero_le _, Nat.zero_le _, hinv.le, ?_, rfl, rfl, ?_⟩
      . simp
      . intro _ tuple htuple
        rw [htuples] at htuple
        cases htuple
    | cons tuple tuples =>
      dsimp only
      split
      next hfree =>
        have hneeded : (if st.isFirstInsert then st.usedSpace + tuple.length
            else st.usedSpace + tuple.length + saveFreeSpace)
            = st.usedSpace + tuple.length + if st.isFirstInsert then 0 else saveFreeSpace := by
          split
          . rfl
          . rfl
        rw [filter_cons_of_pos hfree, hneeded]
        by_cases hroom : page.pdUpper - page.pdLower <
          st.usedSpace + tuple.length + if st.isFirstInsert then 0 else saveFreeSpace
        . rw [if_pos hroom]
          refine ⟨0, Nat.zero_le _, Nat.zero_le _, hinv.le, ?_, htuples.symm, rfl, ?_⟩
          . simp
          . intro _ tuple' htuple
            rw [htuples] at htuple
            cases htuple
            rw [decide_eq_true rfl, Bool.and_true]
            exact hroom
        . rw [if_neg hroom]
          obtain ⟨c, h⟩ := ih (offnum + 1) _ (inv_addOffset hinv tuples (st.usedSpace + tuple.length))
          refine ⟨c + 1, Nat.succ_le_succ h.le, ?_, h.ranges, ?_, ?_, ?_, ?_⟩
          . rw [htuples]
            exact Nat.succ_le_succ h.le_tuples
          . rw [h.covered, covered_addOffset hinv, take_succ_cons, append_assoc]
            rfl
          . rw [h.tuples, htuples]
            rfl
          . rw [h.usedSpace, htuples, take_succ_cons, sumLen, sumLen, map_cons, sum_cons, Nat.add_assoc]
          . intro hlt tuple' htuple
            rw [htuples, getElem?_cons_succ] at htuple
            have := h.stopped (Nat.lt_of_succ_lt_succ hlt) tuple' htuple
            rw [Bool.false_and, if_neg Bool.false_ne_true] at this
            rw [decide_eq_false (Nat.succ_ne_zero c), Bool.and_false, if_neg Bool.false_ne_true]
            exact this
      next hfree =>
        rw [filter_cons_of_neg hfree, ← htuples]
        obtain ⟨c, h⟩ := ih (offnum + 1) { st with inRange := false } ⟨hinv.le, nofun⟩
        exact ⟨c, h.le, h.le_tuples, h.ranges, h.covered, h.tuples, h.usedSpace, h.stopped⟩

end Locate

section Predict

variable {page : UPage} {saveFreeSpace : Nat} {tuples : List Bytes} {ranges : List (Nat × Nat)}

def RoomFor (page : UPage) (saveFreeSpace : Nat) (tuples : List Bytes) (j : Nat) : Prop :=
  ∀ tuple, tuples[j]? = some tuple →
    sumLen (tuples.take j) + tuple.length + (if j = 0 then 0 else saveFreeSpace) + sizeOfRowPtr ≤
      page.pdUpper - page.pdLower

def NewPointers (page : UPage) : Prop :=
  page.maxOffsetNumber + 1 ≤ calculatedMaxUHeapTuplesPerPage page.tdCount

-- The ranges are some of the free pointers, and after all of them maybe new ones.
structure Predicted (page : UPage) (saveFreeSpace : Nat) (tuples : List Bytes) (ranges : List (Nat × Nat))
    (c : Nat) (tail : List Nat) : Prop where
  covers : covered ranges = (freeList page).take c ++ tail
  le : c ≤ (freeList page).length
  range_le : ∀ range ∈ ranges, range.1 ≤ range.2
  new : tail = [] ∨
    c = (freeList page).length ∧ NewPointers page ∧ ∃ k, tail = List.range' (page.maxOffsetNumber + 1) k
  enough : ∀ k, k < tuples.length → k ≤ (freeList page).length →
    (k < (freeList page).length ∨ NewPointers page) →
    (∀ j, j ≤ k → RoomFor page saveFreeSpace tuples j) → k < (covered ranges).length

theorem calculatedMaxUHeapTuplesPerPage_le (tdSlots : Nat)
    : calculatedMaxUHeapTuplesPerPage tdSlots ≤ maxOffsetNumber := by
  apply Nat.div_le_of_le_mul
  apply Nat.le_trans (Nat.sub_le ..)
  apply Nat.le_trans (Nat.sub_le ..)
  decide

theorem located_of_hint (page : UPage) (saveFreeSpace : Nat) (tuples : List Bytes)
    : ∃ c, Located page saveFreeSpace (freeList page) ⟨false, [], tuples, 0, true⟩
        (if page.hasFreeLinePointers then
          locateUsableItemIds page saveFreeSpace (List.range' 1 page.maxOffsetNumber) ⟨false, [], tuples, 0,
            true⟩
        else ⟨false, [], tuples, 0, true⟩) c := by
  unfold freeList
  split
  . apply locateUsableItemIds_spec
    exact ⟨nofun, nofun⟩
  . exact ⟨0, Nat.le_refl _, Nat.zero_le _, nofun, rfl, rfl, rfl, nofun⟩

theorem isEmpty_iff {c : Nat} (hle : ∀ range ∈ st.ranges, range.1 ≤ range.2)
    (hcovered : covered st.ranges.reverse = (freeList page).take c) (hc : c ≤ (freeList page).length)
    : st.ranges.reverse.isEmpty = decide (c = 0) := by
  have hlength := congrArg List.length hcovered
  rw [length_take, Nat.min_eq_left hc] at hlength
  cases hranges : st.ranges.reverse with
  | nil =>
    rw [hranges] at hlength
    exact (decide_eq_true hlength.symm).symm
  | cons range ranges =>
    have hrange := hle range (by rw [← mem_reverse, hranges]; exact mem_cons_self)
    rw [hranges, covered_cons, length_append, length_range'] at hlength
    symm
    apply decide_eq_false
    omega

section Located

variable {c : Nat} (hlocated : Located page saveFreeSpace (freeList page) ⟨false, [], tuples, 0, true⟩ st c)
include hlocated

theorem Located.length_covered : (MultiInsert.covered st.ranges.reverse).length = c := by
  have hlength := congrArg List.length hlocated.covered
  dsimp only at hlength
  rw [reverse_nil, length_append, length_take, Nat.min_eq_left hlocated.le] at hlength
  exact hlength.trans (Nat.zero_add c)

-- The pointers end before the room does.
theorem Located.eq_length {tuple : Bytes} (htuple : tuples[c]? = some tuple)
    (hroom : RoomFor page saveFreeSpace tuples c)
    : c = (freeList page).length := by
  by_contra hne
  have := hlocated.stopped (by have := hlocated.le; omega) tuple htuple
  have := hroom tuple htuple
  have hused := hlocated.usedSpace
  dsimp only at hused
  simp only [Bool.true_and, decide_eq_true_eq, hused] at *
  omega

theorem Located.predicted (hno : ∀ tuple, tuples[c]? = some tuple → NewPointers page →
      c = (freeList page).length → ¬RoomFor page saveFreeSpace tuples c)
    : Predicted page saveFreeSpace tuples st.ranges.reverse c [] := by
  have hlength := hlocated.length_covered
  refine ⟨?_, hlocated.le, ?_, Or.inl rfl, ?_⟩
  . rw [hlocated.covered, append_nil]
    rfl
  . intro range hrange
    exact hlocated.ranges range (mem_reverse.1 hrange)
  . intro k hk hfree hnew hroom
    by_contra hshort
    have htuple : tuples[c]? = some (tuples.get ⟨c, by omega⟩) := getElem?_eq_getElem _
    have hend := hlocated.eq_length htuple (hroom c (by omega))
    exact hno _ htuple (hnew.resolve_left (by omega)) hend (hroom c (by omega))

theorem Located.predicted_new (hend : c = (freeList page).length) (hnew : NewPointers page)
    : Predicted page saveFreeSpace tuples (st.ranges.reverse ++
          [(page.maxOffsetNumber + 1, min maxOffsetNumber (page.maxOffsetNumber + 1 + st.tuples.length))])
        c (List.range' (page.maxOffsetNumber + 1)
          (min maxOffsetNumber (page.maxOffsetNumber + 1 + st.tuples.length) +
            1 - (page.maxOffsetNumber + 1))) := by
  have hlength := hlocated.length_covered
  have hlimit : page.maxOffsetNumber + 1 ≤
      min maxOffsetNumber (page.maxOffsetNumber + 1 + st.tuples.length) := by
    have := calculatedMaxUHeapTuplesPerPage_le page.tdCount
    unfold NewPointers at hnew
    omega
  refine ⟨?_, hlocated.le, ?_, Or.inr ⟨hend, hnew, _, rfl⟩, ?_⟩
  . rw [covered_append, hlocated.covered, covered_cons]
    simp [MultiInsert.covered]
  . intro range hrange
    cases mem_append.1 hrange with
    | inl hmem => exact hlocated.ranges range (mem_reverse.1 hmem)
    | inr hmem =>
      rw [mem_singleton.1 hmem]
      exact hlimit
  . intro k _ hfree _ _
    rw [covered_append, length_append, hlength, covered_cons, length_append, length_range']
    omega

end Located

theorem uheapGetUsableOffsetRanges_spec
    (h : uheapGetUsableOffsetRanges page tuples saveFreeSpace = some ranges)
    : ∃ c tail, Predicted page saveFreeSpace tuples ranges c tail := by
  obtain ⟨c, hlocated⟩ := located_of_hint page saveFreeSpace tuples
  unfold uheapGetUsableOffsetRanges at h
  dsimp only at h
  generalize (if page.hasFreeLinePointers then _ else _ : LocateState) = st at h hlocated
  have htuples := hlocated.tuples
  have hused := hlocated.usedSpace
  rw [isEmpty_iff hlocated.ranges hlocated.covered hlocated.le] at h
  dsimp only at htuples hused
  split at h
  next tuple rest hrest =>
    have htuple : tuples[c]? = some tuple := by
      rw [htuples] at hrest
      rw [← head?_drop, hrest]
      rfl
    have hneeded : (if decide (c = 0) then st.usedSpace + sizeOfRowPtr + tuple.length
        else st.usedSpace + sizeOfRowPtr + tuple.length + saveFreeSpace)
        = sumLen (tuples.take c) + tuple.length + (if c = 0 then 0 else saveFreeSpace) + sizeOfRowPtr := by
      by_cases hc : c = 0
      . rw [decide_eq_true hc, if_pos rfl, if_pos hc]
        omega
      . rw [decide_eq_false hc, if_neg Bool.false_ne_true, if_neg hc]
        omega
    rw [hneeded] at h
    by_cases hnew : page.maxOffsetNumber + 1 ≤ calculatedMaxUHeapTuplesPerPage page.tdCount
    . rw [if_pos hnew] at h
      by_cases hroom : sumLen (tuples.take c) + tuple.length + (if c = 0 then 0 else saveFreeSpace) +
        sizeOfRowPtr ≤ page.pdUpper - page.pdLower
      . rw [if_pos hroom] at h
        cases h
        refine ⟨c, _, hlocated.predicted_new (hlocated.eq_length htuple ?_) hnew⟩
        intro tuple' htuple'
        rw [htuple] at htuple'
        cases htuple'
        exact hroom
      . rw [if_neg hroom] at h
        split at h
        . cases h
        . cases h
          refine ⟨c, [], hlocated.predicted ?_⟩
          intro tuple' htuple' _ _ hroom'
          exact hroom (hroom' tuple htuple)
    . rw [if_neg hnew] at h
      split at h
      . cases h
      . cases h
        refine ⟨c, [], hlocated.predicted ?_⟩
        intro _ _ hnew'
        exact absurd hnew' hnew
  next hrest =>
    split at h
    . cases h
    . cases h
      refine ⟨c, [], hlocated.predicted ?_⟩
      intro tuple htuple
      rw [htuples, drop_eq_nil_iff] at hrest
      rw [getElem?_eq_none hrest] at htuple
      cases htuple

end Predict

section Thaw

variable {page page' page₁ : UPage} {env : Env} {tds tds' : List TD} {slots : List Nat}

-- A deleted row pointer that the freezing of the slots leaves unused.
def thaws (slots : List Nat) (page : UPage) (i : Nat) : Bool :=
  rowPtrIsDeleted (page.rowPtrs i) && slots.any fun slot => rowPtrGetTDSlot (page.rowPtrs i) = slot + 1

structure Thawed (page page' : UPage) (offnums : List Nat) (thawed : Nat → Bool) : Prop where
  lower : page'.pdLower = page.pdLower
  upper : page'.pdUpper = page.pdUpper
  tdCount : page'.tdCount = page.tdCount
  free : ∀ i, isFree page' i = (isFree page i || (offnums.contains i && thawed i))
  hint : page'.hasFreeLinePointers = (page.hasFreeLinePointers || offnums.any thawed)

theorem thawed_of_rowPtrs (hrows : page'.rowPtrs = page.rowPtrs)
    (hlower : page'.pdLower = page.pdLower) (hupper : page'.pdUpper = page.pdUpper)
    (htd : page'.tdCount = page.tdCount) (hhint : page'.hasFreeLinePointers = page.hasFreeLinePointers)
    (hnone : ∀ i ∈ offnums, thawed i = false) : Thawed page page' offnums thawed := by
  refine ⟨hlower, hupper, htd, ?_, ?_⟩
  . intro i
    have : (offnums.contains i && thawed i) = false := by
      by_cases hi : i ∈ offnums
      . rw [hnone i hi, Bool.and_false]
      . simp [hi]
    rw [this, Bool.or_false, isFree, isFree, hrows]
  . have : offnums.any thawed = false := by
      rw [any_eq_false]
      intro i hi
      rw [hnone i hi]
      exact Bool.false_ne_true
    rw [this, Bool.or_false, hhint]

theorem rowTDSlot_of_deleted (h : rowPtrIsDeleted (page.rowPtrs i) = true)
    : rowTDSlot page i = some (rowPtrGetTDSlot (page.rowPtrs i)) := by
  have hflags : (page.rowPtrs i).flags = .redirect := of_decide_eq_true h
  rw [rowTDSlot]
  simp only [h, hflags, RowPtr.isUsed]
  rfl

theorem freezeTuple_of_thaws (h : thaws slots page x = true)
    : freezeOrInvalidateTuple slots true page x = { page.setRowPtr x .unused with hasFreeLinePointers :=
      true } := by
  obtain ⟨hdeleted, hslot⟩ := Bool.and_eq_true_iff.1 h
  rw [freezeOrInvalidateTuple, rowTDSlot_of_deleted hdeleted]
  simp [hslot, hdeleted]

theorem freezeTuple_of_not_thaws (h : thaws slots page x = false) : freezeOrInvalidateTuple slots true page x
      =
    { page with bytes := (freezeOrInvalidateTuple slots true page x).bytes } := by
  rw [freezeOrInvalidateTuple]
  cases hslot : rowTDSlot page x with
  | none => rfl
  | some tdSlot =>
    by_cases hdeleted : rowPtrIsDeleted (page.rowPtrs x) = true
    . rw [rowTDSlot_of_deleted hdeleted] at hslot
      cases hslot
      rw [thaws, hdeleted, Bool.true_and] at h
      simp [h]
    . simp only [hdeleted, Bool.false_eq_true, if_false, if_true]
      split <;> rfl

variable (slots : List Nat)

theorem freezeTuple_spec (page : UPage) (x : Nat)
    : Thawed page (freezeOrInvalidateTuple slots true page x) [x] (thaws slots page) ∧
        ∀ i, i ≠ x → (freezeOrInvalidateTuple slots true page x).rowPtrs i = page.rowPtrs i := by
  by_cases hthaws : thaws slots page x = true
  . rw [freezeTuple_of_thaws hthaws]
    refine ⟨⟨rfl, rfl, rfl, ?_, ?_⟩, ?_⟩
    . intro i
      by_cases hi : i = x
      . rw [hi]
        simp [isFree, UPage.setRowPtr, RowPtr.unused, RowPtr.isUsed, RowPtr.hasStorage, hthaws]
      . simp [isFree, UPage.setRowPtr, hi]
    . simp [hthaws]
    . intro i hi
      simp [UPage.setRowPtr, hi]
  . rw [Bool.not_eq_true] at hthaws
    rw [freezeTuple_of_not_thaws hthaws]
    refine ⟨thawed_of_rowPtrs rfl rfl rfl rfl rfl ?_, fun _ _ => rfl⟩
    intro i hi
    rw [mem_singleton.1 hi]
    exact hthaws

theorem invalidateTuple_spec (page : UPage) (x : Nat)
    : Thawed page (freezeOrInvalidateTuple slots false page x) [x] fun _ => false := by
  rw [freezeOrInvalidateTuple]
  cases hslot : rowTDSlot page x with
  | none => exact thawed_of_rowPtrs rfl rfl rfl rfl rfl fun _ _ => rfl
  | some tdSlot =>
    simp only [Bool.false_eq_true, if_false]
    split
    . split
      . refine ⟨rfl, rfl, rfl, ?_, ?_⟩
        . intro i
          by_cases hi : i = x
          . simp [isFree, UPage.setRowPtr, hi, rowPtrSetInvalidXact, RowPtr.isUsed, RowPtr.hasStorage]
          . simp [isFree, UPage.setRowPtr, hi]
        . simp [UPage.setRowPtr]
      . exact thawed_of_rowPtrs rfl rfl rfl rfl rfl fun _ _ => rfl
    . exact thawed_of_rowPtrs rfl rfl rfl rfl rfl fun _ _ => rfl

theorem Thawed.trans {thawed' : Nat → Bool}
    (h : Thawed page page₁ [x] thawed) (h' : Thawed page₁ page' offnums thawed')
    (hsame : ∀ i ∈ offnums, thawed' i = thawed i) : Thawed page page' (x :: offnums) thawed where
  lower := h'.lower.trans h.lower
  upper := h'.upper.trans h.upper
  tdCount := h'.tdCount.trans h.tdCount
  free := by
    intro i
    have hi : (offnums.contains i && thawed' i) = (offnums.contains i && thawed i) := by
      by_cases hi : i ∈ offnums
      . rw [hsame i hi]
      . simp [hi]
    rw [h'.free, h.free, hi, contains_cons, contains_cons, contains_nil, Bool.or_false,
      Bool.or_assoc, ← Bool.and_or_distrib_right]
  hint := by
    have hany : offnums.any thawed' = offnums.any thawed := by
      rw [Bool.eq_iff_iff, any_eq_true, any_eq_true]
      constructor
      . rintro ⟨i, hi, hthawed⟩
        exact ⟨i, hi, hsame i hi ▸ hthawed⟩
      . rintro ⟨i, hi, hthawed⟩
        exact ⟨i, hi, (hsame i hi).symm ▸ hthawed⟩
    rw [h'.hint, h.hint, hany, any_cons, any_cons, any_nil, Bool.or_false, Bool.or_assoc]

theorem freezeTuples_spec (offnums : List Nat) (page : UPage) (hnodup : offnums.Nodup)
    : Thawed page (offnums.foldl (freezeOrInvalidateTuple slots true) page) offnums (thaws slots page) := by
  induction offnums generalizing page with
  | nil => exact thawed_of_rowPtrs rfl rfl rfl rfl rfl nofun
  | cons x offnums ih =>
    obtain ⟨hx, hrest⟩ := nodup_cons.1 hnodup
    obtain ⟨hstep, hother⟩ := freezeTuple_spec slots page x
    apply hstep.trans (ih _ hrest)
    intro i hi
    have hne : i ≠ x := by
      rintro rfl
      exact hx hi
    rw [thaws, thaws, hother i hne]

theorem invalidateTuples_spec (offnums : List Nat) (page : UPage)
    : Thawed page (offnums.foldl (freezeOrInvalidateTuple slots false) page) offnums fun _ => false := by
  induction offnums generalizing page with
  | nil => exact thawed_of_rowPtrs rfl rfl rfl rfl rfl nofun
  | cons x offnums ih => exact (invalidateTuple_spec slots page x).trans (ih _) fun _ _ => rfl

-- The row pointers that become free because no TD slot is available.
def becomesFree (env : Env) (page : UPage) (tds : List TD) (i : Nat) : Bool :=
  (availableSlot env tds).isNone && thaws (frozenSlots env tds) page i

theorem uheapPageReserveTransactionSlot_spec {tdSlot : Nat}
    (h : uheapPageReserveTransactionSlot env page tds = some (tdSlot, page', tds'))
    : Thawed page page' (List.range' 1 page.maxOffsetNumber) (becomesFree env page tds) := by
  unfold uheapPageReserveTransactionSlot at h
  split at h
  next slot hslot =>
    cases h
    apply thawed_of_rowPtrs rfl rfl rfl rfl rfl
    intro i _
    rw [becomesFree, hslot]
    rfl
  next hnone =>
    have hbecomes : becomesFree env page tds = thaws (frozenSlots env tds) page := by
      funext i
      rw [becomesFree, hnone]
      rfl
    rw [hbecomes]
    split at h
    . cases h
    next page₁ tds₁ hfreeze =>
      obtain ⟨slot, _, heq⟩ := Option.map_eq_some_iff.1 h
      cases heq
      unfold uheapPageFreezeTransSlots at hfreeze
      dsimp only at hfreeze
      split at hfreeze
      . cases hfreeze
        exact freezeTuples_spec _ _ _ nodup_range'
      next hempty =>
        rw [Bool.not_eq_true, Bool.not_eq_false', List.isEmpty_iff] at hempty
        have hthaws : thaws (frozenSlots env tds) page = fun _ => false := by
          funext i
          rw [thaws, hempty]
          exact Bool.and_false _
        split at hfreeze
        . cases hfreeze
          rw [hthaws]
          exact invalidateTuples_spec _ _ _
        . cases hfreeze

end Thaw

section Exact

variable {page page' : UPage} {env : Env} {tds tds' : List TD} {tuples : List Bytes}
    {ranges : List (Nat × Nat)}

-- A row pointer that is free only since the TD slot has been reserved. Where the page was not known to have
-- free row pointers, all those that it had are.
def NewlyFree (env : Env) (page : UPage) (tds : List TD) (d : Nat) : Prop :=
  d ∈ List.range' 1 page.maxOffsetNumber ∧
    (∃ i ∈ List.range' 1 page.maxOffsetNumber, becomesFree env page tds i = true) ∧
    (becomesFree env page tds d = true ∨ isFree page d = true) ∧ d ∉ freeList page

def FitsBehind (saveFreeSpace : Nat) (page : UPage) (tuples : List Bytes) (j : Nat) : Prop :=
  ∀ tuple, tuples[j]? = some tuple →
    page.pdLower + sizeOfRowPtr + sumAligned (tuples.take j) + tuple.length +
      (if j = 0 then 0 else saveFreeSpace) ≤
      page.pdUpper

def Reaches (env : Env) (page : UPage) (tuples : List Bytes) (d : Nat) : Prop :=
  let k := ((freeList page).filter fun i => i < d).length
  k < tuples.length ∧ (k < (freeList page).length ∨ NewPointers page) ∧
    ∀ j, j ≤ k → FitsBehind env.saveFreeSpace page tuples j

def Undisturbed (env : Env) (page : UPage) (tds : List TD) (tuples : List Bytes) : Prop :=
  ∀ d, NewlyFree env page tds d → ¬Reaches env page tuples d

theorem freeList_eq_filter (page : UPage)
    : freeList page = (List.range' 1 page.maxOffsetNumber).filter fun i =>
        page.hasFreeLinePointers && isFree page i := by
  unfold freeList
  cases page.hasFreeLinePointers with
  | true => rfl
  | false =>
    symm
    apply filter_eq_nil_iff.2
    intro i _
    exact Bool.false_ne_true

theorem mem_freeList_iff : i ∈ freeList page ↔ i ∈ List.range' 1 page.maxOffsetNumber ∧
      (page.hasFreeLinePointers && isFree page i) = true := by
  rw [freeList_eq_filter, mem_filter]

theorem Thawed.maxOffsetNumber (h : Thawed page page' offnums thawed)
    : page'.maxOffsetNumber = page.maxOffsetNumber := by
  rw [UPage.maxOffsetNumber, UPage.maxOffsetNumber, h.lower, h.tdCount]

theorem mem_freeList_thawed_iff
    (h : Thawed page page' (List.range' 1 page.maxOffsetNumber) (becomesFree env page tds))
    : d ∈ freeList page' ↔ d ∈ freeList page ∨ NewlyFree env page tds d := by
  rw [mem_freeList_iff, h.maxOffsetNumber, h.free, h.hint, NewlyFree, mem_freeList_iff]
  by_cases hd : d ∈ List.range' 1 page.maxOffsetNumber
  . have hany : (List.range' 1 page.maxOffsetNumber).any (becomesFree env page tds) = true ↔
        ∃ i ∈ List.range' 1 page.maxOffsetNumber, becomesFree env page tds i = true := any_eq_true
    have hself : becomesFree env page tds d = true →
        (List.range' 1 page.maxOffsetNumber).any (becomesFree env page tds) = true :=
      fun hd' => hany.2 ⟨d, hd, hd'⟩
    rw [← hany]
    have hcontains : (List.range' 1 page.maxOffsetNumber).contains d = true := contains_iff_mem.2 hd
    rw [hcontains]
    revert hself
    generalize (List.range' 1 page.maxOffsetNumber).any (becomesFree env page tds) = some
    generalize becomesFree env page tds d = new
    generalize page.hasFreeLinePointers = hint
    generalize isFree page d = free
    intro hself
    simp only [hd, true_and]
    revert hself
    cases some <;> cases new <;> cases hint <;> cases free <;> decide
  . simp [hd]

theorem filter_split {p q : Nat → Bool} (hd : d ∈ List.range' 1 n) (hp : p d = false) (hq : q d = true)
    (hbelow : ∀ i ∈ List.range' 1 n, i < d → q i = p i)
    : ∃ below rest rest', ((List.range' 1 n).filter p).filter (fun i => i < d) = below ∧
        (List.range' 1 n).filter p = below ++ rest ∧ (List.range' 1 n).filter q = below ++ d :: rest' ∧
        ∀ i ∈ rest, d < i := by
  rw [mem_range'_1] at hd
  have hsplit : List.range' 1 n = List.range' 1 (d - 1) ++ d :: List.range' (d + 1) (n - d) := by
    have hcons : d :: List.range' (d + 1) (n - d) = List.range' (1 + (d - 1)) (n - d + 1) := by
      rw [range'_succ, show 1 + (d - 1) = d by omega]
    rw [hcons, range'_append_1]
    congr 1
    omega
  have hhigh : ∀ i ∈ (List.range' (d + 1) (n - d)).filter p, d < i := by
    intro i hi
    have := mem_range'_1.1 (mem_filter.1 hi).1
    omega
  have hlow : ∀ i ∈ List.range' 1 (d - 1), i < d := by
    intro i hi
    have := mem_range'_1.1 hi
    omega
  refine ⟨(List.range' 1 (d - 1)).filter p, (List.range' (d + 1) (n - d)).filter p,
    (List.range' (d + 1) (n - d)).filter q, ?_, ?_, ?_, hhigh⟩
  . rw [hsplit, filter_append, filter_cons_of_neg (by rw [hp]; exact Bool.false_ne_true), filter_append]
    have hleft : ((List.range' 1 (d - 1)).filter p).filter
      (fun i => i < d) = (List.range' 1 (d - 1)).filter p := by
      apply filter_eq_self.2
      intro i hi
      exact decide_eq_true (hlow i (mem_filter.1 hi).1)
    have hright : ((List.range' (d + 1) (n - d)).filter p).filter (fun i => i < d) = [] := by
      apply filter_eq_nil_iff.2
      intro i hi hlt
      have := hhigh i hi
      have := of_decide_eq_true hlt
      omega
    rw [hleft, hright, append_nil]
  . rw [hsplit, filter_append, filter_cons_of_neg (by rw [hp]; exact Bool.false_ne_true)]
  . rw [hsplit, filter_append, filter_cons_of_pos hq]
    congr 1
    apply filter_congr
    intro i hi
    apply hbelow i _ (hlow i hi)
    rw [hsplit]
    exact mem_append_left _ hi

theorem pageGetUHeapFreeSpace_of_free (h : freeList page ≠ [])
    : pageGetUHeapFreeSpace page = page.pdUpper - page.pdLower - sizeOfRowPtr := by
  obtain ⟨i, hi⟩ := exists_mem_of_ne_nil _ h
  obtain ⟨hrange, hfree⟩ := mem_freeList_iff.1 hi
  obtain ⟨hhint, hfree⟩ := Bool.and_eq_true_iff.1 hfree
  have hany : (List.range' 1 page.maxOffsetNumber).any (fun i => !(page.rowPtrs i).isUsed) = true :=
    any_eq_true.2 ⟨i, hrange, (Bool.and_eq_true_iff.1 hfree).1⟩
  rw [pageGetUHeapFreeSpace]
  simp [hhint, hany]

theorem passes_iff {st st₁ : PageState} {j : Nat} {tuple : Bytes} (h : Advanced j st st₁)
    (htuple : st.tuples[j]? = some tuple) (hpos : 0 < tuple.length) (hj : j < (freeList st.page).length)
    : passes env (true && j = 0) st₁ = true ↔
        st.page.pdLower + sizeOfRowPtr + sumAligned (st.tuples.take j) + tuple.length +
          (if j = 0 then 0 else env.saveFreeSpace) ≤ st.page.pdUpper := by
  have hfree : freeList st₁.page ≠ [] := by
    rw [h.free]
    intro hnil
    have := drop_eq_nil_iff.1 hnil
    omega
  have hhead : st₁.tuples = tuple :: st.tuples.drop (j + 1) := by
    rw [h.tuples]
    rw [drop_eq_getElem?_toList_append, htuple]
    rfl
  have hlower := h.lower
  have hupper := h.upper
  rw [Nat.sub_eq_zero_of_le (Nat.le_of_lt hj), Nat.zero_mul, Nat.add_zero] at hlower
  rw [passes, hhead]
  dsimp only
  rw [fits, pageGetUHeapFreeSpace_of_free hfree, hlower]
  by_cases hzero : j = 0
  . rw [decide_eq_true hzero, if_pos hzero]
    simp only [Bool.and_self, Bool.true_and, Bool.not_true, Bool.false_and, Bool.or_false, Bool.not_eq_true',
      decide_eq_false_iff_not]
    omega
  . rw [decide_eq_false hzero, if_neg hzero]
    simp only [Bool.and_false, Bool.false_and, Bool.not_false, Bool.true_and, Bool.false_or,
      Bool.not_eq_true',
      decide_eq_false_iff_not]
    omega

theorem sumLen_le_sumAligned (tuples : List Bytes) : sumLen tuples ≤ sumAligned tuples := by
  induction tuples with
  | nil => exact Nat.le_refl _
  | cons tuple tuples ih =>
    have := le_shortAlign tuple.length
    rw [sumLen, sumAligned, map_cons, map_cons, sum_cons, sum_cons]
    rw [sumLen, sumAligned] at ih
    omega

theorem FitsBehind.roomFor {j : Nat} (h : FitsBehind saveFreeSpace page tuples j)
    : RoomFor page saveFreeSpace tuples j := by
  intro tuple htuple
  have := h tuple htuple
  have := sumLen_le_sumAligned (tuples.take j)
  omega

structure Run (env : Env) (page page' : UPage) (tds : List TD) (tuples : List Bytes) (n : Nat)
    (ranges : List (Nat × Nat)) : Prop where
  thawed : Thawed page page' (List.range' 1 page.maxOffsetNumber) (becomesFree env page tds)
  predicted : ∃ c tail, Predicted page env.saveFreeSpace tuples ranges c tail
  le : n ≤ (covered ranges).length
  le_tuples : n ≤ tuples.length
  passed : ∀ j, j < n → ∃ st, Advanced j ⟨page', tuples, []⟩ st ∧ passes env (true && j = 0) st = true
  blocked : n < (covered ranges).length →
    ∃ st, Advanced n ⟨page', tuples, []⟩ st ∧ passes env (true && n = 0) st = false

theorem Run.lt_iff {k : Nat} (h : Run env page page' tds tuples n ranges)
    (htuples : ∀ tuple ∈ tuples, 0 < tuple.length) (hk : k = ((freeList page).filter fun i => i < d).length)
    (hfree : k < (freeList page').length) : k < n ↔ Reaches env page tuples d := by
  have hfits : ∀ {j : Nat} {st : PageState}, j ≤ k → Advanced j ⟨page', tuples, []⟩ st → j < tuples.length →
      (passes env (true && j = 0) st = true ↔ FitsBehind env.saveFreeSpace page tuples j) := by
    intro j st hj hst hlt
    have htuple : tuples[j]? = some tuples[j] := getElem?_eq_getElem hlt
    have hiff : passes env (true && j = 0) st = true ↔ _ :=
      passes_iff hst htuple (htuples _ (getElem_mem hlt)) (Nat.lt_of_le_of_lt hj hfree)
    rw [hiff, FitsBehind]
    rw [h.thawed.lower, h.thawed.upper]
    constructor
    . intro hle tuple htuple'
      rw [htuple] at htuple'
      cases htuple'
      exact hle
    . intro hall
      exact hall _ htuple
  obtain ⟨c, tail, hpredicted⟩ := h.predicted
  have hle := h.le
  have hle_tuples := h.le_tuples
  rw [Reaches, ← hk]
  constructor
  . intro hlt
    refine ⟨by omega, ?_, ?_⟩
    . have hlength := congrArg List.length hpredicted.covers
      rw [length_append, length_take, Nat.min_eq_left hpredicted.le] at hlength
      cases hpredicted.new with
      | inl hnil =>
        rw [hnil, length_nil] at hlength
        have := hpredicted.le
        exact Or.inl (by omega)
      | inr hnew => exact Or.inr hnew.2.1
    . intro j hj
      obtain ⟨st, hst, hpass⟩ := h.passed j (by omega)
      exact (hfits hj hst (by omega)).1 hpass
  . rintro ⟨hlong, hpointers, hroom⟩
    by_contra hshort
    have hcount : k ≤ (freeList page).length := by
      rw [hk]
      exact length_filter_le ..
    have henough := hpredicted.enough k hlong hcount hpointers fun j hj => (hroom j hj).roomFor
    obtain ⟨st, hst, hpass⟩ := h.blocked (by omega)
    rw [(hfits (by omega) hst (by omega)).2 (hroom n (by omega))] at hpass
    cases hpass

theorem freeList_thawed_congr
    (h : Thawed page page' (List.range' 1 page.maxOffsetNumber) (becomesFree env page tds))
    (hi : i ∈ List.range' 1 page.maxOffsetNumber) (hnone : ¬NewlyFree env page tds i)
    : (page'.hasFreeLinePointers && isFree page' i) = (page.hasFreeLinePointers && isFree page i) := by
  have hmem : i ∈ freeList page' ↔ i ∈ freeList page := by
    rw [mem_freeList_thawed_iff h]
    exact ⟨fun h => h.resolve_right hnone, Or.inl⟩
  rw [mem_freeList_iff, mem_freeList_iff, h.maxOffsetNumber] at hmem
  rw [Bool.eq_iff_iff]
  constructor
  . intro h'
    exact (hmem.1 ⟨hi, h'⟩).2
  . intro h'
    exact (hmem.2 ⟨hi, h'⟩).2

section

variable (h : Run env page page' tds tuples n ranges)
include h

theorem Run.take_covered : (covered ranges).take n = allocated page n := by
  obtain ⟨c, tail, hpredicted⟩ := h.predicted
  have hle := h.le
  rw [allocated]
  rw [hpredicted.covers] at hle ⊢
  rw [length_append, length_take, Nat.min_eq_left hpredicted.le] at hle
  cases hpredicted.new with
  | inl hnil =>
    have hfree := hpredicted.le
    rw [hnil, length_nil] at hle
    rw [hnil, append_nil, take_take, Nat.min_eq_left (by omega), take_append_of_le_length (by omega)]
  | inr hnew =>
    obtain ⟨hc, _, k, hk⟩ := hnew
    rw [hk, length_range'] at hle
    rw [hk, hc, take_length, take_append_range' _ _ (by omega)]

theorem Run.allocated_eq_of_none
    (hnone : ∀ d, ¬NewlyFree env page tds d) : allocated page' n = (covered ranges).take n := by
  have hfree : freeList page' = freeList page := by
    rw [freeList_eq_filter, freeList_eq_filter, h.thawed.maxOffsetNumber]
    apply filter_congr
    intro i hi
    exact freeList_thawed_congr h.thawed hi (hnone i)
  rw [h.take_covered, allocated, allocated, hfree, h.thawed.maxOffsetNumber]

theorem Run.allocated_eq_iff (htuples : ∀ tuple ∈ tuples, 0 < tuple.length) (hd : NewlyFree env page tds d)
    (hfirst : ∀ i, i < d → ¬NewlyFree env page tds i)
    : allocated page' n = (covered ranges).take n ↔ ¬Reaches env page tuples d := by
  have hnot : (page.hasFreeLinePointers && isFree page d) = false := by
    rw [Bool.eq_false_iff]
    intro hfree
    exact hd.2.2.2 (mem_freeList_iff.2 ⟨hd.1, hfree⟩)
  have hnow := (mem_freeList_iff.1 ((mem_freeList_thawed_iff h.thawed).2 (Or.inr hd))).2
  obtain ⟨below, rest, rest', hbelow, hfree, hfree', hrest⟩ := filter_split hd.1 hnot hnow fun i hi hlt =>
    freeList_thawed_congr h.thawed hi (hfirst i hlt)
  rw [← freeList_eq_filter] at hbelow hfree
  rw [← h.thawed.maxOffsetNumber, ← freeList_eq_filter] at hfree'
  have hlt := h.lt_iff htuples (congrArg List.length hbelow).symm (by
    rw [hfree', length_append, length_cons]
    omega)
  rw [← hlt, h.take_covered, allocated, allocated, hfree, hfree']
  constructor
  . intro heq hshort
    have hmem : d ∈ (below ++ rest ++ List.range' (page.maxOffsetNumber + 1) n).take n := by
      rw [← heq, append_assoc, take_append, mem_append]
      have : n - below.length = n - below.length - 1 + 1 := by omega
      rw [this, cons_append, take_succ_cons]
      exact Or.inr mem_cons_self
    rw [← hfree] at hmem
    cases mem_append.1 (mem_of_mem_take hmem) with
    | inl hmem => exact hd.2.2.2 hmem
    | inr hmem =>
      have hrange := mem_range'_1.1 hd.1
      have := mem_range'_1.1 hmem
      omega
  . intro hshort
    rw [append_assoc, append_assoc, take_append_of_le_length (by omega), take_append_of_le_length (by omega)]

end

theorem Reaches.mono {d' : Nat} (h : Reaches env page tuples d') (hle : d ≤ d')
    : Reaches env page tuples d := by
  have hcount : ((freeList page).filter fun i => i < d).length ≤
    ((freeList page).filter fun i => i < d').length := by
    apply List.Sublist.length_le
    apply monotone_filter_right
    intro i hi
    have := of_decide_eq_true hi
    exact decide_eq_true (by omega)
  obtain ⟨hlong, hpointers, hroom⟩ := h
  refine ⟨by omega, ?_, fun j hj => hroom j (by omega)⟩
  cases hpointers with
  | inl hfree => exact Or.inl (by omega)
  | inr hnew => exact Or.inr hnew

theorem Run.allocated_eq_iff_undisturbed (h : Run env page page' tds tuples n ranges)
    (htuples : ∀ tuple ∈ tuples, 0 < tuple.length)
    : allocated page' n = (covered ranges).take n ↔ Undisturbed env page tds tuples := by
  by_cases hsome : ∃ d, NewlyFree env page tds d
  . classical
    have hd := Nat.find_spec hsome
    have hfirst := fun i (hi : i < Nat.find hsome) => Nat.find_min hsome hi
    rw [h.allocated_eq_iff htuples hd hfirst]
    constructor
    . intro hnot d hnew hreaches
      exact hnot (hreaches.mono (Nat.find_min' hsome hnew))
    . intro hall
      exact hall _ hd
  . have hnone : ∀ d, ¬NewlyFree env page tds d := fun d hd => hsome ⟨d, hd⟩
    exact ⟨fun _ d hd => absurd hd (hnone d), fun _ => h.allocated_eq_of_none hnone⟩

theorem freeList_sorted (page : UPage) : (freeList page).Pairwise (· < ·) := by
  rw [freeList_eq_filter]
  exact List.Pairwise.filter _ pairwise_lt_range'

theorem Predicted.sorted {c : Nat} {tail : List Nat}
    (h : Predicted page saveFreeSpace tuples ranges c tail) : (covered ranges).Pairwise (· < ·) := by
  have htake : ((freeList page).take c).Pairwise (· < ·) :=
    (freeList_sorted page).sublist (take_sublist ..)
  rw [h.covers]
  cases h.new with
  | inl hnil =>
    rw [hnil, append_nil]
    exact htake
  | inr hnew =>
    obtain ⟨_, _, k, hk⟩ := hnew
    rw [hk]
    apply pairwise_append.2
    refine ⟨htake, pairwise_lt_range', ?_⟩
    intro i hi j hj
    have hi := mem_range'_1.1 (mem_freeList_iff.1 (mem_of_mem_take hi)).1
    have hj := mem_range'_1.1 hj
    omega

theorem Predicted.one_le {c : Nat} {tail : List Nat}
    (h : Predicted page saveFreeSpace tuples ranges c tail) (hi : i ∈ covered ranges) : 1 ≤ i := by
  rw [h.covers] at hi
  cases mem_append.1 hi with
  | inl hmem => exact (mem_range'_1.1 (mem_freeList_iff.1 (mem_of_mem_take hmem)).1).1
  | inr hmem =>
    cases h.new with
    | inl hnil =>
      rw [hnil] at hmem
      cases hmem
    | inr hnew =>
      obtain ⟨_, _, k, hk⟩ := hnew
      rw [hk] at hmem
      have := mem_range'_1.1 hmem
      omega

theorem start_mem_covered {range : Nat × Nat} (hmem : range ∈ ranges) (hle : range.1 ≤ range.2)
    : range.1 ∈ covered ranges := by
  apply mem_flatMap.2
  refine ⟨range, hmem, ?_⟩
  rw [mem_range'_1]
  omega

theorem run_of_inserted {res : Inserted}
    (hheader : sizeOfUHeapPageHeaderData + page.tdCount * sizeOfTD ≤ page.pdLower)
    (h : uheapMultiInsertPage env page tds tuples = .inserted res)
    : ∃ page' ranges n, Run env page page' tds tuples n ranges ∧ res.placed = allocated page' n ∧
        covered res.ranges = (covered ranges).take n := by
  unfold uheapMultiInsertPage at h
  split at h
  . cases h
  next ranges hranges =>
    obtain ⟨c, tail, hpredicted⟩ := uheapGetUsableOffsetRanges_spec hranges
    split at h
    . cases h
    next tdSlot page' tds' hreserve =>
      have hthawed := uheapPageReserveTransactionSlot_spec hreserve
      split at h
      . cases h
      next ranges' st hinsert =>
        cases h
        have hle : ∀ range ∈ ranges, 1 ≤ range.1 ∧ range.1 ≤ range.2 := by
          intro range hrange
          have hrange_le := hpredicted.range_le range hrange
          exact ⟨hpredicted.one_le (start_mem_covered hrange hrange_le), hrange_le⟩
        have hfirst : ∀ range ∈ ranges.head?, (ranges.headD (0, 0)).1 ≤ range.1 ∧
            true = decide (range.1 = (ranges.headD (0, 0)).1) := by
          intro range hrange
          rw [headD_eq_head?_getD, Option.mem_def.1 hrange]
          exact ⟨Nat.le_refl _, (decide_eq_true rfl).symm⟩
        have hafter : ∀ range ∈ ranges.tail, (ranges.headD (0, 0)).1 < range.1 := by
          intro range hrange
          cases hlist : ranges with
          | nil =>
            rw [hlist] at hrange
            cases hrange
          | cons first rest =>
            rw [hlist] at hrange
            have hsorted := hpredicted.sorted
            rw [hlist, covered_cons] at hsorted
            have hfirst := hpredicted.range_le first (by rw [hlist]; exact mem_cons_self)
            have hrange_le := hpredicted.range_le range (by rw [hlist]; exact mem_cons_of_mem _ hrange)
            apply (pairwise_append.1 hsorted).2.2 _ _ _ (start_mem_covered hrange hrange_le)
            rw [mem_range'_1]
            show first.1 ≤ first.1 ∧ first.1 < first.1 + (first.2 + 1 - first.1)
            omega
        obtain ⟨hall, m, hm, hlength, hcovered⟩ := insertRanges_spec hle hfirst hafter hinsert
        have hheader' : sizeOfUHeapPageHeaderData + page'.tdCount * sizeOfTD ≤ page'.pdLower := by
          rw [hthawed.tdCount, hthawed.lower]
          exact hheader
        obtain ⟨n, hn, hadvanced, hpassed, hblocked⟩ :=
          @insertAll_spec env tdSlot ⟨page', tuples, []⟩ st true _ hheader' hall
        have hplaced := hadvanced.placed
        rw [nil_append] at hplaced
        have hnm : m = n := by
          rw [hplaced, length_allocated, length_nil] at hlength
          omega
        have hrun : Run env page page' tds tuples n ranges := by
          refine ⟨hthawed, ⟨c, tail, hpredicted⟩, hn, hadvanced.le, hpassed, ?_⟩
          intro hlt
          exact ⟨st, hadvanced, hblocked hlt⟩
        refine ⟨page', ranges, n, hrun, hplaced, ?_⟩
        rw [hcovered, hnm]

theorem uheapMultiInsertPage_exact_iff {res : Inserted}
    (hheader : sizeOfUHeapPageHeaderData + page.tdCount * sizeOfTD ≤ page.pdLower)
    (htuples : ∀ tuple ∈ tuples, 0 < tuple.length)
    (h : uheapMultiInsertPage env page tds tuples = .inserted res)
    : res.placed = covered res.ranges ↔ Undisturbed env page tds tuples := by
  obtain ⟨page', ranges, n, hrun, hplaced, hcovered⟩ := run_of_inserted hheader h
  rw [hplaced, hcovered]
  exact hrun.allocated_eq_iff_undisturbed htuples

end Exact

section Aged

def agedTds : List TD := [⟨5, 0⟩, ⟨6, 0⟩]

def agedEnv : Env where
  isLocal := false
  fxid := 200
  tupleXid := 200
  globalRecycleXid := 100
  isInProgress := fun _ => false
  didCommit := fun _ => true
  saveFreeSpace := 0
  initTd := 2

def agedPage : UPage where
  bytes := Memory.zero
  hasFreeLinePointers := false
  pdLower := 96
  pdUpper := 8172
  pdSpecial := 8192
  potentialFreespace := 8096
  tdCount := 2
  rowPtrs := fun i => if i = 1 then ⟨8172, .normal, 20⟩ else if i = 2 then ⟨2 ^ 7 + 1, .redirect,
    0⟩ else .unused

theorem uheapMultiInsertPage_exact_iff_aged
    : ∃ res, uheapMultiInsertPage agedEnv agedPage agedTds [List.replicate 20 0] = .inserted res ∧
        (res.placed = covered res.ranges ↔ Undisturbed agedEnv agedPage agedTds [List.replicate 20 0]) := by
  have htuples : ∀ tuple ∈ [List.replicate 20 (0 : UInt8)], 0 < tuple.length := by decide
  refine ⟨_, rfl, ?_⟩
  exact uheapMultiInsertPage_exact_iff (by decide) htuples rfl

theorem not_exact_aged
    : ¬ ∀ res, uheapMultiInsertPage agedEnv agedPage agedTds [List.replicate 20 0] = .inserted res →
        res.placed = covered res.ranges := by
  intro hexact
  have h := hexact _ rfl
  revert h
  decide

end Aged

end MultiInsert

end Ustore

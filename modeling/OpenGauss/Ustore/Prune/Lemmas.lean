import OpenGauss.Ustore.Page.Lemmas
import OpenGauss.Ustore.Prune.Impl

/-!
This module contains that the pruning of a page keeps its rows and makes the room that it has promised to the
target.
-/

open List

namespace Ustore

variable {i : Nat} {f : Nat → Nat}

namespace Prune

open Repair (hasRow newLen itemOf sorted Repaired)
open Visibility (rowPtrIsDeleted rowPtrGetTDSlot frozenSlot)

section Sum

theorem shortAlign_even (n : Nat) : shortAlign n % 2 = 0 := by
  unfold shortAlign
  omega

theorem shortAlign_add_le (m n : Nat) : shortAlign (m + n) ≤ shortAlign m + shortAlign n := by
  unfold shortAlign
  omega

theorem sum_map_filter (p : Nat → Bool) (f : Nat → Nat) (l : List Nat)
    : ((l.filter p).map f).sum = (l.map fun i => if p i then f i else 0).sum := by
  induction l with
  | nil => rfl
  | cons i l ih =>
    rw [filter_cons, map_cons, sum_cons, ← ih]
    split <;> simp

theorem sum_add_le {g h : Nat → Nat} (l : List Nat) (hle : ∀ i ∈ l, f i + g i ≤ h i)
    : (l.map f).sum + (l.map g).sum ≤ (l.map h).sum := by
  induction l with
  | nil => simp
  | cons i l ih =>
    have hi := hle i mem_cons_self
    have hl := ih fun j hj => hle j (mem_cons_of_mem _ hj)
    simp only [map_cons, sum_cons]
    omega

theorem sum_le_add {g : Nat → Nat} {t extra : Nat} (l : List Nat) (hnodup : l.Nodup)
    (hle : ∀ i ∈ l, i ≠ t → g i ≤ f i) (ht : t ∈ l → g t ≤ f t + extra)
    : (l.map g).sum ≤ (l.map f).sum + extra := by
  induction l with
  | nil => simp
  | cons i l ih =>
    obtain ⟨hi, hl⟩ := nodup_cons.1 hnodup
    simp only [map_cons, sum_cons]
    by_cases hit : i = t
    . subst hit
      have hfirst := ht mem_cons_self
      have hrest : (l.map g).sum + (l.map fun _ => 0).sum ≤ (l.map f).sum := by
        apply sum_add_le
        intro j hj
        apply hle j (mem_cons_of_mem _ hj)
        intro hji
        exact hi (hji ▸ hj)
      omega
    . grind

theorem sum_even (hf : ∀ i, f i % 2 = 0) (l : List Nat) : (l.map f).sum % 2 = 0 := by
  induction l with
  | nil => rfl
  | cons i l ih =>
    have hi := hf i
    rw [map_cons, sum_cons]
    omega

end Sum

section Total

variable {page : UPage}

def alignedLen (page : UPage) (i : Nat) : Nat := if hasRow page i then shortAlign (page.rowPtrs i).len else 0

def total (page : UPage) : Nat := ((List.range' 1 page.maxOffsetNumber).map (alignedLen page)).sum

-- The array of row pointers follows the TD slots, and the rows end at an aligned place.
structure Aligned (page : UPage) : Prop where
  layout : page.Layout
  lower : ∃ n, page.pdLower = sizeOfUHeapPageHeaderData + page.tdCount * sizeOfTD + n * sizeOfRowPtr
  special : page.pdSpecial = maxAlign page.pdSpecial

theorem Aligned.lower_even (h : Aligned page) : page.pdLower % 2 = 0 := by
  obtain ⟨n, hn⟩ := h.lower
  simp only [sizeOfUHeapPageHeaderData, sizeOfTD, sizeOfRowPtr] at hn
  omega

theorem Aligned.special_even (h : Aligned page) : page.pdSpecial % 2 = 0 := by
  have := h.special
  unfold maxAlign at this
  omega

theorem sum_of_descending {low high : Nat} (items : List ItemIdSort) (hlow : low ≤ high)
    (hdesc : MoveItems.Descending 0 items) (hindex : ∀ item ∈ items, item.offsetindex ≠ 0)
    (hge : ∀ item ∈ items, low ≤ item.itemoff)
    (hle : ∀ item ∈ items, item.itemoff + item.alignedlen ≤ high)
    : (items.map (·.alignedlen)).sum + low ≤ high := by
  induction items generalizing high with
  | nil => simpa using hlow
  | cons item items ih =>
    obtain ⟨hfirst, hrest⟩ := pairwise_cons.1 hdesc
    have hitem := hle item mem_cons_self
    have hbelow := ih (hge item mem_cons_self) hrest (fun b hb => hindex b (mem_cons_of_mem _ hb))
      (fun b hb => hge b (mem_cons_of_mem _ hb))
      (fun b hb => (hfirst b hb).2 (hindex item mem_cons_self) (hindex b (mem_cons_of_mem _ hb)))
    rw [map_cons, sum_cons]
    omega

theorem sum_items_eq (targetOffnum spaceRequired : Nat)
    : ((((List.range' 1 page.maxOffsetNumber).filter (hasRow page)).map
          (itemOf page targetOffnum spaceRequired)).map (·.alignedlen)).sum
        =
      ((List.range' 1 page.maxOffsetNumber).map fun i =>
        if hasRow page i then shortAlign (newLen page targetOffnum spaceRequired i) else 0).sum := by
  rw [map_map, ← sum_map_filter]
  rfl

theorem total_eq : total page = ((sorted page 0 0).map (·.alignedlen)).sum := by
  have hperm : (sorted page 0 0).Perm
      (((List.range' 1 page.maxOffsetNumber).filter (hasRow page)).map (itemOf page 0 0)) :=
    mergeSort_perm ..
  have hnew : ∀ i, newLen page 0 0 i = (page.rowPtrs i).len := by
    intro i
    rw [newLen]
    split <;> rfl
  rw [(hperm.map _).sum_eq, sum_items_eq]
  simp only [hnew]
  rfl

theorem total_le (h : page.Layout) : total page + page.pdUpper ≤ page.pdSpecial := by
  rw [total_eq]
  apply sum_of_descending
  . exact h.upper_le_special
  . exact Repair.sorted_descending h
  . intro item hitem
    have := (Repair.mem_sorted_iff.1 hitem).1.1
    omega
  . intro item hitem
    obtain ⟨hstored, heq⟩ := Repair.mem_sorted_iff.1 hitem
    rw [heq]
    exact h.upper_le _ hstored
  . intro item hitem
    obtain ⟨hstored, heq⟩ := Repair.mem_sorted_iff.1 hitem
    have hinside := (h.fits _ hstored).inside
    have hne : item.offsetindex ≠ 0 := by
      have := hstored.1
      omega
    rw [heq]
    simp only [itemOf, newLen, if_neg hne]
    exact hinside

end Total

section Verdict

variable {page pruned : UPage} {env : Env} {targetOffnum : Nat}

inductive Verdict where
  | kept
  | fixed (tupSize : Nat)
  | dead
  | deleted
  | deadPointer
  deriving DecidableEq

def verdict (page : UPage) (env : Env) (targetOffnum offnum : Nat) : Verdict :=
  let itemid := page.rowPtrs offnum
  let tup := env.rowXact offnum
  if env.maxTupleCount ≤ page.maxOffsetNumber && rowPtrIsDeleted itemid then
    if rowPtrGetTDSlot itemid = frozenSlot || env.slotIsOld (rowPtrGetTDSlot itemid) then .deadPointer
    else .kept
  else if !itemid.isUsed || itemid.flags = .dead || rowPtrIsDeleted itemid then
    .kept
  else
    match uheapTupleSatisfiesOldestXmin tup with
    | (.dead, _) => .dead
    | (.recentlyDead, _) => .deleted
    | (_, inplaceUpdated) =>
      if inplaceUpdated && !decide (offnum = targetOffnum) && tup.tupSize < itemid.len then .fixed tup.tupSize
      else .kept

namespace Verdict

def isNowDead (v : Verdict) : Bool := v = .dead || v = .deadPointer

def fixedLen (v : Verdict) : Option Nat :=
  match v with
  | .fixed n => some n
  | _ => none

def freed (v : Verdict) (size : Nat) : Nat :=
  match v with
  | .dead | .deleted => shortAlign size
  | _ => 0

def record (v : Verdict) (prstate : UPruneState) (offnum size : Nat) : UPruneState :=
  ⟨prstate.nowdead ++ if v.isNowDead then [offnum] else [],
    prstate.nowdeleted ++ if v = .deleted then [offnum] else [],
    prstate.nowfixed ++ (v.fixedLen.map fun n => (offnum, n)).toList,
    prstate.spaceFreed + v.freed size⟩

end Verdict

theorem inplaceUpdated_dead {tup : RowXact} (inplaceUpdated : Bool)
    (h : uheapTupleSatisfiesOldestXmin tup = (.dead, inplaceUpdated) ∨
      uheapTupleSatisfiesOldestXmin tup = (.recentlyDead, inplaceUpdated)) : inplaceUpdated = false := by
  unfold uheapTupleSatisfiesOldestXmin at h
  grind

theorem uheapPruneItem_eq {tup : RowXact} (prstate : UPruneState)
    (hused : (!(page.rowPtrs i).isUsed || (page.rowPtrs i).flags = .dead ||
      rowPtrIsDeleted (page.rowPtrs i)) = false)
    (htup : tup = env.rowXact i)
    : uheapPruneItem page tup i prstate (i = targetOffnum)
        =
      (verdict page env targetOffnum i).record prstate i (page.rowPtrs i).len := by
  have hdead := @inplaceUpdated_dead tup
  simp only [Bool.or_eq_false_iff] at hused
  simp only [verdict, hused, ← htup, uheapPruneItem]
  generalize uheapTupleSatisfiesOldestXmin tup = res at hdead ⊢
  obtain ⟨res, inplaceUpdated⟩ := res
  cases res
  case dead | recentlyDead =>
    have hnot := hdead inplaceUpdated (by simp)
    subst hnot
    simp [Verdict.record, Verdict.isNowDead, Verdict.fixedLen, Verdict.freed]
  all_goals
    simp only [Verdict.record]
    split <;> simp [Verdict.isNowDead, Verdict.fixedLen, Verdict.freed]

theorem scanItem_eq (prstate : UPruneState) (i : Nat)
    : scanItem page env targetOffnum prstate i
        =
      (verdict page env targetOffnum i).record prstate i (page.rowPtrs i).len := by
  simp only [scanItem]
  split
  next hpointer =>
    simp only [verdict, hpointer, if_true]
    split <;> simp [Verdict.record, Verdict.isNowDead, Verdict.fixedLen, Verdict.freed]
  next hpointer =>
    split
    next hused =>
      simp only [verdict, hpointer, hused, if_true]
      simp [Verdict.record, Verdict.isNowDead, Verdict.fixedLen, Verdict.freed]
    next hused =>
      exact uheapPruneItem_eq prstate (Bool.eq_false_iff.2 hused) rfl

theorem scan_eq (page : UPage) (env : Env) (targetOffnum : Nat)
    : scan page env targetOffnum
        =
      ⟨(List.range' 1 page.maxOffsetNumber).filter fun i => (verdict page env targetOffnum i).isNowDead,
        (List.range' 1 page.maxOffsetNumber).filter fun i => verdict page env targetOffnum i = .deleted,
        (List.range' 1 page.maxOffsetNumber).filterMap fun i =>
          (verdict page env targetOffnum i).fixedLen.map fun n => (i, n),
        page.pdUpper - page.pdLower + ((List.range' 1 page.maxOffsetNumber).map fun i =>
          (verdict page env targetOffnum i).freed (page.rowPtrs i).len).sum⟩ := by
  have hloop : ∀ (l : List Nat) (prstate : UPruneState),
      l.foldl (scanItem page env targetOffnum) prstate
        =
      ⟨prstate.nowdead ++ l.filter fun i => (verdict page env targetOffnum i).isNowDead,
        prstate.nowdeleted ++ l.filter fun i => verdict page env targetOffnum i = .deleted,
        prstate.nowfixed ++ l.filterMap fun i =>
          (verdict page env targetOffnum i).fixedLen.map fun n => (i, n),
        prstate.spaceFreed + (l.map fun i =>
          (verdict page env targetOffnum i).freed (page.rowPtrs i).len).sum⟩ := by
    intro l
    induction l with
    | nil =>
      intro prstate
      simp
    | cons i l ih =>
      intro prstate
      rw [foldl_cons, ih, scanItem_eq]
      simp only [Verdict.record, filter_cons, filterMap_cons, map_cons, sum_cons]
      generalize verdict page env targetOffnum i = v
      cases v <;> simp [Verdict.isNowDead, Verdict.fixedLen, Nat.add_assoc]
  rw [scan, hloop]
  rfl

end Verdict

section Execute

variable {page pruned : UPage} {env : Env} {targetOffnum : Nat}

theorem foldl_setRowPtr {α : Type} (key : α → Nat) (g : α → RowPtr → RowPtr) (h : Nat → RowPtr → RowPtr)
    (l : List α) (page : UPage) (hg : ∀ x ∈ l, g x = h (key x)) (hidem : ∀ i rp, h i (h i rp) = h i rp)
    : l.foldl (fun page x => page.setRowPtr (key x) (g x (page.rowPtrs (key x)))) page
        =
      { page with rowPtrs := fun i => if i ∈ l.map key then h i (page.rowPtrs i) else page.rowPtrs i } := by
  induction l generalizing page with
  | nil => simp
  | cons x l ih =>
    rw [foldl_cons, ih _ fun y hy => hg y (mem_cons_of_mem _ hy), hg x mem_cons_self]
    simp only [UPage.setRowPtr, map_cons, mem_cons, UPage.mk.injEq, true_and]
    funext i
    by_cases hi : i = key x
    . subst hi
      simp [hidem]
    . simp [hi]

def Verdict.apply (v : Verdict) (tup : RowXact) (rp : RowPtr) : RowPtr :=
  match v with
  | .kept => rp
  | .fixed n => rp.changeLen n
  | .dead | .deadPointer => .unused
  | .deleted => rowPtrDeleted tup.tdSlot tup.visInfo

theorem pruneDeadLinePointers_of_lists {prstate : UPruneState}
    (hfixed : ∀ x ∈ prstate.nowfixed, x.2 = (env.rowXact x.1).tupSize)
    (hexecute : uheapPagePruneExecute page env prstate = some pruned)
    : pruneDeadLinePointers pruned prstate
        =
      { page with rowPtrs := fun i =>
          let rp :=
            if i ∈ prstate.nowdead then rowPtrDead
            else if i ∈ prstate.nowdeleted then rowPtrDeleted (env.rowXact i).tdSlot (env.rowXact i).visInfo
            else page.rowPtrs i
          if i ∈ prstate.nowdead then .unused
          else if i ∈ prstate.nowfixed.map (·.1) then rp.changeLen (env.rowXact i).tupSize
          else rp } := by
  have hset : ∀ (f : Nat → RowPtr) (l : List Nat) (page : UPage),
      l.foldl (fun page off => page.setRowPtr off (f off)) page
        =
      { page with rowPtrs := fun i => if i ∈ l then f i else page.rowPtrs i } := by
    intro f l page
    have := foldl_setRowPtr (fun off => off) (fun off _ => f off) (fun off _ => f off) l page
      (fun _ _ => rfl) fun _ _ => rfl
    rw [map_id'] at this
    exact this
  have hfix := foldl_setRowPtr (fun fixed : Nat × Nat => fixed.1) (fun fixed rp => rp.changeLen fixed.2)
    (fun i rp => rp.changeLen (env.rowXact i).tupSize) prstate.nowfixed
  unfold uheapPagePruneExecute at hexecute
  split at hexecute
  . cases hexecute
  . cases hexecute
    rw [pruneDeadLinePointers, hset fun _ => .unused, hfix, hset fun _ => rowPtrDead,
      hset fun off => rowPtrDeleted (env.rowXact off).tdSlot (env.rowXact off).visInfo]
    . intro x hx
      rw [hfixed x hx]
    . intro _ _
      rfl

theorem mem_nowdead_iff
    : i ∈ (scan page env targetOffnum).nowdead ↔
        i ∈ List.range' 1 page.maxOffsetNumber ∧ (verdict page env targetOffnum i).isNowDead = true := by
  rw [scan_eq, mem_filter]

theorem mem_nowdeleted_iff
    : i ∈ (scan page env targetOffnum).nowdeleted ↔
        i ∈ List.range' 1 page.maxOffsetNumber ∧ verdict page env targetOffnum i = .deleted := by
  rw [scan_eq, mem_filter, decide_eq_true_eq]

theorem mem_nowfixed_iff {x : Nat × Nat}
    : x ∈ (scan page env targetOffnum).nowfixed ↔
        x.1 ∈ List.range' 1 page.maxOffsetNumber ∧ verdict page env targetOffnum x.1 = .fixed x.2 := by
  have hlen : ∀ (v : Verdict) n, v.fixedLen = some n ↔ v = .fixed n := by
    intro v n
    cases v <;> simp [Verdict.fixedLen]
  rw [scan_eq, mem_filterMap]
  simp only [Option.map_eq_some_iff, hlen]
  constructor
  . rintro ⟨i, hi, n, hn, rfl⟩
    exact ⟨hi, hn⟩
  . rintro ⟨hi, hn⟩
    exact ⟨x.1, hi, x.2, hn, rfl⟩

theorem tupSize_of_fixed {n : Nat} (h : verdict page env targetOffnum i = .fixed n)
    : n = (env.rowXact i).tupSize ∧ n < (page.rowPtrs i).len ∧ i ≠ targetOffnum := by
  unfold verdict at h
  grind

theorem pruneDeadLinePointers_eq
    (hexecute : uheapPagePruneExecute page env (scan page env targetOffnum) = some pruned)
    : pruneDeadLinePointers pruned (scan page env targetOffnum)
        =
      { page with rowPtrs := fun i =>
          if i ∈ List.range' 1 page.maxOffsetNumber then
            (verdict page env targetOffnum i).apply (env.rowXact i) (page.rowPtrs i)
          else
            page.rowPtrs i } := by
  have hfixed : ∀ x ∈ (scan page env targetOffnum).nowfixed, x.2 = (env.rowXact x.1).tupSize := by
    intro x hx
    exact (tupSize_of_fixed (mem_nowfixed_iff.1 hx).2).1
  rw [pruneDeadLinePointers_of_lists hfixed hexecute]
  simp only [UPage.mk.injEq, true_and, mem_nowdead_iff, mem_nowdeleted_iff]
  funext i
  by_cases hi : i ∈ List.range' 1 page.maxOffsetNumber
  . cases hv : verdict page env targetOffnum i with
    | fixed n =>
      have htup := (tupSize_of_fixed hv).1
      simp [-mem_range'_1, hi, hv, mem_nowfixed_iff, Verdict.isNowDead, Verdict.apply, ← htup]
    | kept | dead | deleted | deadPointer => simp [hi, hv, mem_nowfixed_iff, Verdict.isNowDead, Verdict.apply]
  . simp [-mem_range'_1, hi, mem_nowfixed_iff]

end Execute

section Shrunk

variable {page pruned : UPage} {env : Env} {targetOffnum : Nat}

structure Shrunk (page pruned : UPage) : Prop where
  header : pruned = { page with rowPtrs := pruned.rowPtrs }
  stored : ∀ i, pruned.Stored i → page.Stored i
  offset : ∀ i, pruned.Stored i → (pruned.rowPtrs i).offset = (page.rowPtrs i).offset
  len_le : ∀ i, pruned.Stored i → (pruned.rowPtrs i).len ≤ (page.rowPtrs i).len

theorem Shrunk.layout (h : Shrunk page pruned) (hlayout : page.Layout) : pruned.Layout := by
  have hheader := h.header
  have hlower : pruned.pdLower = page.pdLower := by rw [hheader]
  have hupper : pruned.pdUpper = page.pdUpper := by rw [hheader]
  have hspecial : pruned.pdSpecial = page.pdSpecial := by rw [hheader]
  have htd : pruned.tdCount = page.tdCount := by rw [hheader]
  refine ⟨?_, ?_, ?_, ?_, ?_, ?_⟩
  . rw [htd, hlower]
    exact hlayout.header_le
  . rw [hlower, hupper]
    exact hlayout.lower_le
  . rw [hupper, hspecial]
    exact hlayout.upper_le_special
  . rw [hspecial]
    exact hlayout.special_le
  . intro i hi
    rw [hupper, h.offset i hi]
    exact hlayout.upper_le i (h.stored i hi)
  . intro i hi
    have hfits := hlayout.fits i (h.stored i hi)
    have hle := shortAlign_mono (h.len_le i hi)
    refine ⟨?_, ?_⟩
    . have := hfits.inside
      rw [h.offset i hi, hspecial]
      omega
    . intro j hj hne
      have hlej := shortAlign_mono (h.len_le j hj)
      have := hfits.disjoint j (h.stored j hj) hne
      rw [h.offset i hi, h.offset j hj]
      omega

theorem Shrunk.rowData (h : Shrunk page pruned) (hi : pruned.Stored i)
    : pruned.rowData i = (page.rowData i).take (pruned.rowPtrs i).len := by
  have hbytes : pruned.bytes = page.bytes := by rw [h.header]
  obtain ⟨extra, hextra⟩ := Nat.exists_eq_add_of_le (h.len_le i hi)
  rw [UPage.rowData, UPage.rowData, hbytes, h.offset i hi, hextra, Memory.load_append, take_left']
  exact Memory.length_load ..

theorem rowPtrs_pruned (hi : i ∈ List.range' 1 page.maxOffsetNumber)
    (hexecute : uheapPagePruneExecute page env (scan page env targetOffnum) = some pruned)
    : (pruneDeadLinePointers pruned (scan page env targetOffnum)).rowPtrs i
        =
      (verdict page env targetOffnum i).apply (env.rowXact i) (page.rowPtrs i) := by
  rw [pruneDeadLinePointers_eq hexecute]
  exact if_pos hi

theorem isUsed_of_verdict
    (h : verdict page env targetOffnum i = .dead ∨ verdict page env targetOffnum i = .deleted)
    : (page.rowPtrs i).isUsed = true := by
  unfold verdict at h
  grind

theorem shrunk_pruned
    (hexecute : uheapPagePruneExecute page env (scan page env targetOffnum) = some pruned)
    : Shrunk page (pruneDeadLinePointers pruned (scan page env targetOffnum)) := by
  let page' := pruneDeadLinePointers pruned (scan page env targetOffnum)
  have hrow : ∀ i, page'.Stored i → page.Stored i ∧ (page'.rowPtrs i).offset = (page.rowPtrs i).offset ∧
      (page'.rowPtrs i).len ≤ (page.rowPtrs i).len := by
    rintro i ⟨hlow, hhigh, hused, hstorage⟩
    have hmax : page'.maxOffsetNumber = page.maxOffsetNumber := by
      rw [show page' = _ from pruneDeadLinePointers_eq hexecute]
      rfl
    have hi : i ∈ List.range' 1 page.maxOffsetNumber := by
      rw [mem_range'_1]
      omega
    rw [rowPtrs_pruned hi hexecute] at hused hstorage ⊢
    cases hv : verdict page env targetOffnum i with
    | kept =>
      rw [hv] at hused hstorage
      exact ⟨⟨hlow, by omega, hused, hstorage⟩, rfl, Nat.le_refl _⟩
    | fixed n =>
      rw [hv] at hused hstorage
      have hn := (tupSize_of_fixed hv).2.1
      refine ⟨⟨hlow, by omega, hused, ?_⟩, rfl, Nat.le_of_lt hn⟩
      rw [RowPtr.hasStorage, decide_eq_true_eq]
      omega
    | dead | deadPointer =>
      rw [hv] at hused
      cases hused
    | deleted =>
      rw [hv] at hstorage
      cases hstorage
  refine ⟨?_, fun i hi => (hrow i hi).1, fun i hi => (hrow i hi).2.1, fun i hi => (hrow i hi).2.2⟩
  rw [pruneDeadLinePointers_eq hexecute]

theorem alignedLen_add_freed_le (hi : i ∈ List.range' 1 page.maxOffsetNumber)
    (hexecute : uheapPagePruneExecute page env (scan page env targetOffnum) = some pruned)
    : alignedLen (pruneDeadLinePointers pruned (scan page env targetOffnum)) i +
          (verdict page env targetOffnum i).freed (page.rowPtrs i).len ≤ alignedLen page i := by
  rw [alignedLen, hasRow, rowPtrs_pruned hi hexecute]
  have hrow : (page.rowPtrs i).isUsed = true → alignedLen page i = shortAlign (page.rowPtrs i).len := by
    intro hused
    rw [alignedLen, hasRow, hused, Bool.true_and]
    split
    . rfl
    next hempty =>
      rw [RowPtr.hasStorage, decide_eq_true_eq] at hempty
      rw [Nat.eq_zero_of_not_pos hempty]
      rfl
  cases hv : verdict page env targetOffnum i with
  | kept => exact Nat.le_refl _
  | fixed n =>
    show (if (page.rowPtrs i).isUsed && decide (0 < n) then shortAlign n else 0) + 0 ≤ alignedLen page i
    split
    next hused =>
      have := shortAlign_mono (Nat.le_of_lt (tupSize_of_fixed hv).2.1)
      rw [hrow (Bool.and_eq_true_iff.1 hused).1]
      exact this
    . exact Nat.zero_le _
  | dead =>
    rw [hrow (isUsed_of_verdict (Or.inl hv))]
    show 0 + shortAlign _ ≤ _
    omega
  | deleted =>
    rw [hrow (isUsed_of_verdict (Or.inr hv))]
    show 0 + shortAlign _ ≤ _
    omega
  | deadPointer => exact Nat.zero_le _

theorem total_add_spaceFreed_le (hlayout : page.Layout)
    (hexecute : uheapPagePruneExecute page env (scan page env targetOffnum) = some pruned)
    : total (pruneDeadLinePointers pruned (scan page env targetOffnum)) +
        (scan page env targetOffnum).spaceFreed +
        page.pdLower ≤ page.pdSpecial := by
  have hmax : (pruneDeadLinePointers pruned (scan page env targetOffnum)).maxOffsetNumber
      = page.maxOffsetNumber := by
    rw [(shrunk_pruned hexecute).header]
    rfl
  have hsum : total (pruneDeadLinePointers pruned (scan page env targetOffnum)) +
      ((List.range' 1 page.maxOffsetNumber).map fun i =>
        (verdict page env targetOffnum i).freed (page.rowPtrs i).len).sum ≤ total page := by
    rw [total, hmax]
    apply sum_add_le
    intro i hi
    exact alignedLen_add_freed_le hi hexecute
  have hfreed : (scan page env targetOffnum).spaceFreed = page.pdUpper - page.pdLower +
      ((List.range' 1 page.maxOffsetNumber).map fun i =>
        (verdict page env targetOffnum i).freed (page.rowPtrs i).len).sum := by
    rw [scan_eq]
  have htotal := total_le hlayout
  have hlower := hlayout.lower_le
  omega

end Shrunk

section Repair

variable {page page' : UPage} {targetOffnum spaceRequired : Nat}

theorem collectItems_of_layout (h : page.Layout) (offnums : List Nat)
    (hrange : ∀ i ∈ offnums, hasRow page i = true → page.Stored i)
    : collectItems page targetOffnum spaceRequired offnums
        =
      some ((offnums.filter (hasRow page)).map (itemOf page targetOffnum spaceRequired)) := by
  induction offnums with
  | nil => rfl
  | cons i offnums ih =>
    rw [collectItems, ih fun j hj => hrange j (mem_cons_of_mem _ hj)]
    simp only [Option.bind_eq_bind, Option.bind_some]
    split
    next hrow =>
      have hstored := hrange i mem_cons_self hrow
      have hupper := h.upper_le i hstored
      have hinside := (h.fits i hstored).inside
      have hpos := shortAlign_pos hstored.len_pos
      rw [if_neg (by omega), filter_cons_of_pos (show hasRow page i = true from hrow)]
      rfl
    next hrow =>
      rw [filter_cons_of_neg (show ¬hasRow page i = true from hrow)]

def totalWith (page : UPage) (targetOffnum spaceRequired : Nat) : Nat :=
  ((List.range' 1 page.maxOffsetNumber).map fun i =>
    if hasRow page i then shortAlign (newLen page targetOffnum spaceRequired i) else 0).sum

theorem totalWith_even (page : UPage) (targetOffnum spaceRequired : Nat)
    : totalWith page targetOffnum spaceRequired % 2 = 0 := by
  apply sum_even
  intro i
  split
  . exact shortAlign_even _
  . rfl

theorem totalWith_le (page : UPage) (targetOffnum spaceRequired : Nat)
    : totalWith page targetOffnum spaceRequired ≤ total page + (spaceRequired + 1) := by
  apply sum_le_add (t := targetOffnum)
  . exact nodup_range'
  . intro i _ hi
    rw [alignedLen, newLen, if_neg hi]
  . intro _
    have hadd := shortAlign_add_le (page.rowPtrs targetOffnum).len spaceRequired
    have hextra : shortAlign spaceRequired ≤ spaceRequired + 1 := by
      unfold shortAlign
      omega
    rw [alignedLen, newLen, if_pos rfl]
    split
    . omega
    . omega

theorem upageRepairFragmentation_some (h : Aligned page)
    (htotal : totalWith page targetOffnum spaceRequired + page.pdLower ≤ page.pdSpecial)
    : ∃ page', upageRepairFragmentation page targetOffnum spaceRequired = some page' := by
  have hheader := h.layout.header_le
  have hlower := h.layout.lower_le
  have hupper := h.layout.upper_le_special
  have hle := h.layout.special_le
  have hspecial := h.special
  have hcollect : collectItems page targetOffnum spaceRequired (List.range' 1 page.maxOffsetNumber) =
      some (((List.range' 1 page.maxOffsetNumber).filter (hasRow page)).map
        (itemOf page targetOffnum spaceRequired)) := by
    apply collectItems_of_layout h.layout
    intro i hi hrow
    exact Repair.mem_range_iff.1 (mem_filter.2 ⟨hi, hrow⟩)
  unfold upageRepairFragmentation
  rw [if_neg (by omega)]
  simp only [hcollect, Option.bind_eq_bind, Option.bind_some]
  split
  . exact ⟨_, rfl⟩
  next =>
    have hfit : ¬ page.pdSpecial - page.pdLower < totalWith page targetOffnum spaceRequired := by omega
    rw [sum_items_eq]
    exact ⟨_, if_neg hfit⟩

theorem putTarget_pdUpper (page : UPage) (tuple : Bytes) (curr newTupleLen targetOffnum : Nat)
    : (putTarget page tuple curr newTupleLen targetOffnum).pdUpper
        =
      if targetOffnum = invalidOffsetNumber then curr else curr - newTupleLen := by
  unfold putTarget
  split
  . rfl
  . rfl

theorem putTarget_pdSpecial (page : UPage) (tuple : Bytes) (curr newTupleLen targetOffnum : Nat)
    : (putTarget page tuple curr newTupleLen targetOffnum).pdSpecial = page.pdSpecial := by
  unfold putTarget
  split
  . rfl
  . rfl

theorem pdUpper_of_compactify {hasFree : Bool} (hlayout : page.Layout)
    (htarget : targetOffnum = invalidOffsetNumber ∨ page.Stored targetOffnum)
    (hle : ((sorted page targetOffnum spaceRequired).map (·.alignedlen)).sum ≤ page.pdSpecial)
    : let page' := compactifyTuples { unusedCleared page with hasFreeLinePointers := hasFree }
        (((List.range' 1 page.maxOffsetNumber).filter (hasRow page)).map
          (itemOf page targetOffnum spaceRequired)) targetOffnum
      page'.pdUpper + ((sorted page targetOffnum spaceRequired).map (·.alignedlen)).sum
        = page'.pdSpecial := by
  let page₀ : UPage := { unusedCleared page with hasFreeLinePointers := hasFree }
  intro page'
  have hspec : MoveItems.Spec targetOffnum (sorted page targetOffnum spaceRequired) page₀ page.pdSpecial _ _ :=
    Repair.sorted_spec page₀ hlayout 0
  have hsum := hspec.sum
  have hspecial : page'.pdSpecial = page.pdSpecial := by
    have hheader := congrArg UPage.pdSpecial hspec.header
    exact (putTarget_pdSpecial ..).trans hheader
  have hupper : page'.pdUpper = _ := putTarget_pdUpper ..
  change page'.pdUpper = if targetOffnum = invalidOffsetNumber then
      (moveItems targetOffnum (sorted page targetOffnum spaceRequired) page₀ page.pdSpecial 0).2.1
    else
      (moveItems targetOffnum (sorted page targetOffnum spaceRequired) page₀ page.pdSpecial 0).2.1 -
        (moveItems targetOffnum (sorted page targetOffnum spaceRequired) page₀ page.pdSpecial 0).2.2 at hupper
  rw [hspecial, hupper]
  by_cases hinvalid : targetOffnum = invalidOffsetNumber
  . have hnot : ∀ item ∈ sorted page targetOffnum spaceRequired, item.offsetindex ≠ targetOffnum := by
      intro item hitem heq
      have := (Repair.mem_sorted_iff.1 hitem).1.1
      rw [heq, hinvalid] at this
      cases this
    rw [if_pos hinvalid, ← Repair.sumLen_of_not_mem hnot]
    exact hsum
  . have hmem := Repair.itemOf_mem targetOffnum spaceRequired (htarget.resolve_left hinvalid)
    have htotal := Repair.sumLen_add_of_mem hmem rfl Repair.sorted_nodup
    have hnew := MoveItems.newTupleLen_of_mem page₀ page.pdSpecial 0 hmem rfl Repair.sorted_nodup
    change MoveItems.sumLen targetOffnum _ + _ = _ at htotal
    change (moveItems targetOffnum _ _ _ _).2.2 = _ at hnew
    rw [if_neg hinvalid, hnew]
    omega

theorem pdUpper_of_repair (hlayout : page.Layout)
    (htarget : targetOffnum = invalidOffsetNumber ∨ page.Stored targetOffnum)
    (hres : upageRepairFragmentation page targetOffnum spaceRequired = some page')
    : page'.pdUpper + totalWith page targetOffnum spaceRequired = page'.pdSpecial := by
  unfold upageRepairFragmentation at hres
  split at hres
  . cases hres
  simp only [Option.bind_eq_bind, Option.bind_eq_some_iff] at hres
  obtain ⟨items, hcollect, hres⟩ := hres
  have hitems := Repair.collectItems_eq hcollect
  have hsum : (items.map (·.alignedlen)).sum = totalWith page targetOffnum spaceRequired := by
    rw [hitems, sum_items_eq, totalWith]
  split at hres
  next hempty =>
    rw [isEmpty_iff.1 hempty] at hsum
    cases hres
    rw [← hsum]
    rfl
  next =>
    split at hres
    . cases hres
    next hfit =>
      have hsorted : ((sorted page targetOffnum spaceRequired).map (·.alignedlen)).sum =
          (items.map (·.alignedlen)).sum := by
        rw [hitems]
        apply List.Perm.sum_eq
        apply List.Perm.map
        exact mergeSort_perm ..
      cases hres
      rw [← hsum, ← hsorted, hitems]
      apply pdUpper_of_compactify hlayout htarget
      rw [hsorted]
      change ¬ page.pdSpecial - page.pdLower < _ at hfit
      omega

end Repair

section Guts

variable {page page' pruned : UPage} {env : Env} {targetOffnum spaceRequired : Nat}

-- The row to extend is one that the pruning leaves alone, as its callers have locked it.
def TargetKept (page : UPage) (env : Env) (targetOffnum : Nat) : Prop :=
  targetOffnum = invalidOffsetNumber ∨
    (page.Stored targetOffnum ∧ (page.rowPtrs targetOffnum).isNormal = true ∧
      (uheapTupleSatisfiesOldestXmin (env.rowXact targetOffnum)).1 ≠ .dead ∧
      (uheapTupleSatisfiesOldestXmin (env.rowXact targetOffnum)).1 ≠ .recentlyDead)

structure Compacted (pruned page' : UPage) (targetOffnum spaceRequired : Nat) : Prop where
  stored : ∀ i, page'.Stored i ↔ pruned.Stored i
  rowPtr : ∀ i, pruned.Stored i → (page'.rowPtrs i).flags = (pruned.rowPtrs i).flags ∧
    (page'.rowPtrs i).len = (pruned.rowPtrs i).len
  rowData : ∀ i, pruned.Stored i → page'.rowData i = pruned.rowData i
  layout : page'.Layout
  room : targetOffnum ≠ invalidOffsetNumber →
    pruned.Stored targetOffnum ∧ page'.Fits targetOffnum ((pruned.rowPtrs targetOffnum).len + spaceRequired)
  upper : page'.pdUpper + totalWith pruned targetOffnum spaceRequired = page'.pdSpecial

theorem verdict_of_targetKept (h : TargetKept page env targetOffnum)
    (hvalid : targetOffnum ≠ invalidOffsetNumber)
    : verdict page env targetOffnum targetOffnum = .kept := by
  obtain ⟨_, hnormal, hdead, hrecent⟩ := h.resolve_left hvalid
  have hdeleted : rowPtrIsDeleted (page.rowPtrs targetOffnum) = false := by
    grind [rowPtrIsDeleted, RowPtr.isNormal]
  unfold verdict
  grind

theorem aligned_pruned (h : Aligned page)
    (hexecute : uheapPagePruneExecute page env (scan page env targetOffnum) = some pruned)
    : Aligned (pruneDeadLinePointers pruned (scan page env targetOffnum)) := by
  have hheader := (shrunk_pruned hexecute).header
  refine ⟨(shrunk_pruned hexecute).layout h.layout, ?_, ?_⟩
  . rw [hheader]
    exact h.lower
  . rw [hheader]
    exact h.special

theorem totalWith_pruned_le (h : Aligned page)
    (haccepted : spaceRequired ≤ (scan page env targetOffnum).spaceFreed)
    (hexecute : uheapPagePruneExecute page env (scan page env targetOffnum) = some pruned)
    : totalWith (pruneDeadLinePointers pruned (scan page env targetOffnum)) targetOffnum spaceRequired +
        page.pdLower ≤ page.pdSpecial := by
  have hextra := totalWith_le (pruneDeadLinePointers pruned (scan page env targetOffnum))
    targetOffnum spaceRequired
  have heven := totalWith_even (pruneDeadLinePointers pruned (scan page env targetOffnum))
    targetOffnum spaceRequired
  have hfreed := total_add_spaceFreed_le h.layout hexecute
  have hlower := h.lower_even
  have hspecial := h.special_even
  omega

theorem stored_target_pruned (htarget : TargetKept page env targetOffnum)
    (hvalid : targetOffnum ≠ invalidOffsetNumber)
    (hexecute : uheapPagePruneExecute page env (scan page env targetOffnum) = some pruned)
    : (pruneDeadLinePointers pruned (scan page env targetOffnum)).Stored targetOffnum := by
  have hstored := (htarget.resolve_left hvalid).1
  have hi : targetOffnum ∈ List.range' 1 page.maxOffsetNumber :=
    (mem_filter.1 (Repair.mem_range_iff.2 hstored)).1
  have hptr := rowPtrs_pruned hi hexecute
  rw [verdict_of_targetKept htarget hvalid] at hptr
  have hheader := (shrunk_pruned hexecute).header
  refine (stored_congr ?_ ?_ ?_ ?_).2 hstored
  . rw [hheader]
  . rw [hheader]
  . rw [hptr]
    rfl
  . rw [hptr]
    rfl

theorem compacted_of_repair (h : Aligned page) (htarget : TargetKept page env targetOffnum)
    (hexecute : uheapPagePruneExecute page env (scan page env targetOffnum) = some pruned)
    (hres : upageRepairFragmentation (pruneDeadLinePointers pruned (scan page env targetOffnum)) targetOffnum
      spaceRequired = some page')
    : Compacted (pruneDeadLinePointers pruned (scan page env targetOffnum)) page'
        targetOffnum spaceRequired := by
  have hlayout := (shrunk_pruned hexecute).layout h.layout
  have hstored := fun hvalid => stored_target_pruned htarget hvalid hexecute
  have htarget' : targetOffnum = invalidOffsetNumber ∨
      (pruneDeadLinePointers pruned (scan page env targetOffnum)).Stored targetOffnum := by
    by_cases hvalid : targetOffnum = invalidOffsetNumber
    . exact Or.inl hvalid
    . exact Or.inr (hstored hvalid)
  obtain ⟨hrepaired, hfits⟩ := Repair.upageRepairFragmentation_spec hlayout htarget' hres
  exact {
    stored := hrepaired.stored
    rowPtr := fun i hi => ⟨hrepaired.flags i hi, hrepaired.len i hi⟩
    rowData := hrepaired.rowData
    layout := hrepaired.layout
    room := fun hvalid => ⟨hstored hvalid, hfits (hstored hvalid)⟩
    upper := pdUpper_of_repair hlayout htarget' hres }

theorem uheapPagePruneGuts_correct (h : Aligned page) (htarget : TargetKept page env targetOffnum)
    (forcePrune : Bool)
    : uheapPagePruneGuts page env targetOffnum spaceRequired forcePrune ≠ .corrupted ∧
        ∀ page', uheapPagePruneGuts page env targetOffnum spaceRequired forcePrune = .pruned page' →
          ∃ pruned, uheapPagePruneExecute page env (scan page env targetOffnum) = some pruned ∧
            Compacted (pruneDeadLinePointers pruned (scan page env targetOffnum)) page' targetOffnum
              spaceRequired ∧
            ∀ i, page'.Stored i →
              page.Stored i ∧ page'.rowData i = (page.rowData i).take (page'.rowPtrs i).len := by
  generalize hres : uheapPagePruneGuts page env targetOffnum spaceRequired forcePrune = res
  simp only [uheapPagePruneGuts] at hres
  split at hres
  . subst hres
    exact ⟨nofun, nofun⟩
  next haccepted =>
    split at hres
    . subst hres
      exact ⟨nofun, nofun⟩
    cases hexecute : uheapPagePruneExecute page env (scan page env targetOffnum) with
    | none =>
      rw [hexecute] at hres
      subst hres
      exact ⟨nofun, nofun⟩
    | some pruned =>
      have hroom := totalWith_pruned_le h (Nat.le_of_not_lt haccepted) hexecute
      have hshrunk := shrunk_pruned hexecute
      have hlower : (pruneDeadLinePointers pruned (scan page env targetOffnum)).pdLower = page.pdLower := by
        rw [hshrunk.header]
      have hspecial : (pruneDeadLinePointers pruned (scan page env targetOffnum)).pdSpecial =
        page.pdSpecial := by
        rw [hshrunk.header]
      rw [← hlower, ← hspecial] at hroom
      obtain ⟨repaired, hrepaired⟩ := upageRepairFragmentation_some (aligned_pruned h hexecute) hroom
      simp only [hexecute, hrepaired] at hres
      subst hres
      refine ⟨nofun, ?_⟩
      rintro page' ⟨⟩
      have hcompacted := compacted_of_repair h htarget hexecute hrepaired
      refine ⟨pruned, rfl, hcompacted, ?_⟩
      intro i hi
      have hi := (hcompacted.stored i).1 hi
      refine ⟨hshrunk.stored i hi, ?_⟩
      rw [hcompacted.rowData i hi, hshrunk.rowData hi, (hcompacted.rowPtr i hi).2]

end Guts

section Full

def fullPage : UPage where
  bytes := Memory.zero
  hasFreeLinePointers := false
  pdLower := 192
  pdUpper := 200
  pdSpecial := 8192
  potentialFreespace := 8
  tdCount := 8
  rowPtrs := fun i => if i = 1 then ⟨200, .normal, 3996⟩ else if i = 2 then ⟨4196, .normal, 3996⟩ else .unused

def fullEnv : Env where
  maxTupleCount := 200
  rowXact := fun i => ⟨i = 2, false, false, true, false, .committed, true, 1, 0, 3996⟩
  slotIsOld := fun _ => true

theorem fullPage_aligned : Aligned fullPage := by
  have hrows : ∀ i, fullPage.Stored i → i = 1 ∨ i = 2 := by
    intro i hi
    have hhigh := hi.2.1
    have hlow := hi.1
    change i ≤ 2 at hhigh
    omega
  refine ⟨⟨by decide, by decide, by decide, by decide, ?_, ?_⟩, ⟨2, by decide⟩, by decide⟩
  . intro i hi
    obtain rfl | rfl := hrows i hi
    . decide
    . decide
  . intro i hi
    obtain rfl | rfl := hrows i hi
    . refine ⟨by decide, ?_⟩
      intro j hj hne
      obtain rfl | rfl := hrows j hj
      . exact absurd rfl hne
      . exact Or.inl (by decide)
    . refine ⟨by decide, ?_⟩
      intro j hj hne
      obtain rfl | rfl := hrows j hj
      . exact Or.inr (by decide)
      . exact absurd rfl hne

theorem uheapPagePruneGuts_correct_fullPage
    : ∃ page', uheapPagePruneGuts fullPage fullEnv 1 4000 false = .pruned page' ∧
        ∃ pruned, uheapPagePruneExecute fullPage fullEnv (scan fullPage fullEnv 1) = some pruned ∧
          Compacted (pruneDeadLinePointers pruned (scan fullPage fullEnv 1)) page' 1 4000 ∧
          ∀ i, page'.Stored i →
            fullPage.Stored i ∧ page'.rowData i = (fullPage.rowData i).take (page'.rowPtrs i).len := by
  have htarget : TargetKept fullPage fullEnv 1 :=
    Or.inr ⟨⟨by decide, by decide, by decide, by decide⟩, by decide, by decide, by decide⟩
  refine ⟨_, rfl, ?_⟩
  exact (uheapPagePruneGuts_correct fullPage_aligned htarget false).2 _ rfl

end Full

end Prune

end Ustore

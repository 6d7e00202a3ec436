import Mathlib.Data.List.Sort
import OpenGauss.Ustore.Page.Impl

/-!
This module shows that the rows of a page lie beside each other.
-/

open List Memory

namespace Ustore

variable {items : List ItemIdSort} {i targetOffnum : Nat} {page₁ : UPage} {item : ItemIdSort}
variable {page : UPage} {curr offnum high : Nat} {hasFree : Bool}

theorem le_shortAlign (len : Nat) : len ≤ shortAlign len := by
  unfold shortAlign
  omega

theorem shortAlign_mono {len len' : Nat} (h : len ≤ len') : shortAlign len ≤ shortAlign len' := by
  unfold shortAlign
  omega

theorem shortAlign_pos {len : Nat} (h : 0 < len) : 0 < shortAlign len := by
  unfold shortAlign
  omega

namespace UPage

def Stored (page : UPage) (offnum : Nat) : Prop :=
  1 ≤ offnum ∧ offnum ≤ page.maxOffsetNumber ∧ (page.rowPtrs offnum).isUsed = true ∧
    (page.rowPtrs offnum).hasStorage = true

structure Fits (page : UPage) (offnum n : Nat) : Prop where
  inside : (page.rowPtrs offnum).offset + shortAlign n ≤ page.pdSpecial
  disjoint : ∀ i, page.Stored i → i ≠ offnum →
    (page.rowPtrs offnum).offset + shortAlign n ≤ (page.rowPtrs i).offset ∨
      (page.rowPtrs i).offset + shortAlign (page.rowPtrs i).len ≤ (page.rowPtrs offnum).offset

structure Layout (page : UPage) : Prop where
  header_le : sizeOfUHeapPageHeaderData + page.tdCount * sizeOfTD ≤ page.pdLower
  lower_le : page.pdLower ≤ page.pdUpper
  upper_le_special : page.pdUpper ≤ page.pdSpecial
  special_le : page.pdSpecial ≤ blcksz
  upper_le : ∀ i, page.Stored i → page.pdUpper ≤ (page.rowPtrs i).offset
  fits : ∀ i, page.Stored i → page.Fits i (page.rowPtrs i).len

theorem Stored.len_pos (h : page.Stored i) : 0 < (page.rowPtrs i).len := by
  have := h.2.2.2
  simpa [RowPtr.hasStorage] using this

theorem Fits.mono {n m : Nat} (h : page.Fits i m) (hle : shortAlign n ≤ shortAlign m) : page.Fits i n := by
  refine ⟨?_, ?_⟩
  . have := h.inside
    omega
  . intro j hj hne
    have := h.disjoint j hj hne
    omega

theorem Layout.len_le (hlayout : page.Layout) (hi : page.Stored i) : (page.rowPtrs i).len ≤ blcksz := by
  have hinside := (hlayout.fits i hi).inside
  have hspecial := hlayout.special_le
  have hlen := le_shortAlign (page.rowPtrs i).len
  omega

@[simp]
theorem length_rowData (page : UPage) (i : Nat) : (page.rowData i).length = (page.rowPtrs i).len :=
  length_load ..

end UPage

section Rows

variable {page page' : UPage}

theorem stored_congr (hlower : page'.pdLower = page.pdLower) (htd : page'.tdCount = page.tdCount)
    (hused : (page'.rowPtrs i).isUsed = (page.rowPtrs i).isUsed)
    (hstorage : (page'.rowPtrs i).hasStorage = (page.rowPtrs i).hasStorage)
    : page'.Stored i ↔ page.Stored i := by
  simp only [UPage.Stored, UPage.maxOffsetNumber, hlower, htd, hused, hstorage]

theorem rowData_congr (hrow : page'.rowPtrs i = page.rowPtrs i) (hbytes : ∀ k < (page.rowPtrs i).len,
      page'.bytes ((page.rowPtrs i).offset + k) = page.bytes ((page.rowPtrs i).offset + k))
    : page'.rowData i = page.rowData i := by
  rw [UPage.rowData, UPage.rowData, hrow]
  exact load_congr hbytes

structure RowChanged (page page' : UPage) (offnum : Nat) : Prop where
  layout : page'.Layout
  stored : ∀ i, i ≠ offnum → (page'.Stored i ↔ page.Stored i)
  rowPtr : ∀ i, i ≠ offnum → page'.rowPtrs i = page.rowPtrs i
  rowData : ∀ i, i ≠ offnum → page.Stored i → page'.rowData i = page.rowData i

theorem setRowData_spec {tup : Bytes} (hlayout : page.Layout) (hstored : page.Stored offnum)
    (hpos : 0 < tup.length) (hfits : page.Fits offnum tup.length)
    : RowChanged page (page.setRowData offnum tup) offnum ∧ (page.setRowData offnum tup).Stored offnum ∧
        (page.setRowData offnum tup).rowData offnum = tup ∧
        ((page.setRowData offnum tup).rowPtrs offnum).flags = (page.rowPtrs offnum).flags := by
  have hself : (page.setRowData offnum tup).rowPtrs offnum =
      (page.rowPtrs offnum).changeLen tup.length := if_pos rfl
  have hother : ∀ i, i ≠ offnum → (page.setRowData offnum tup).rowPtrs i = page.rowPtrs i := by
    intro i hne
    exact if_neg hne
  have hiff : ∀ i, i ≠ offnum → ((page.setRowData offnum tup).Stored i ↔ page.Stored i) := by
    intro i hne
    apply stored_congr
    . rfl
    . rfl
    . rw [hother i hne]
    . rw [hother i hne]
  have hself_stored : (page.setRowData offnum tup).Stored offnum := by
    refine ⟨hstored.1, hstored.2.1, ?_, ?_⟩
    . rw [hself]
      exact hstored.2.2.1
    . rw [hself]
      exact decide_eq_true hpos
  have hstored_of : ∀ i, (page.setRowData offnum tup).Stored i → page.Stored i := by
    intro i hi
    by_cases hne : i = offnum
    . rw [hne]
      exact hstored
    . exact (hiff i hne).1 hi
  have halign := le_shortAlign tup.length
  refine ⟨⟨{ hlayout with upper_le := ?_, fits := ?_ }, hiff, hother, ?_⟩, hself_stored, ?_, ?_⟩
  . intro i hi
    have hupper := hlayout.upper_le i (hstored_of i hi)
    by_cases hne : i = offnum
    . rw [hne] at hupper ⊢
      rw [hself]
      exact hupper
    . rw [hother i hne]
      exact hupper
  . intro i hi
    by_cases hne : i = offnum
    . rw [hne, hself]
      refine ⟨?_, ?_⟩
      . rw [hself]
        exact hfits.inside
      . intro j hj hjne
        rw [hself, hother j hjne]
        exact hfits.disjoint j (hstored_of j hj) hjne
    . rw [hother i hne]
      have hfits_i := hlayout.fits i (hstored_of i hi)
      refine ⟨?_, ?_⟩
      . rw [hother i hne]
        exact hfits_i.inside
      . intro j hj hji
        rw [hother i hne]
        by_cases hjne : j = offnum
        . rw [hjne, hself]
          exact (hfits.disjoint i (hstored_of i hi) hne).symm
        . rw [hother j hjne]
          exact hfits_i.disjoint j (hstored_of j hj) hji
  . intro i hne hi
    apply rowData_congr (hother i hne)
    intro k hk
    have hdisjoint := hfits.disjoint i hi hne
    have halign_i := le_shortAlign (page.rowPtrs i).len
    apply store_outside
    omega
  . rw [UPage.rowData, hself]
    exact load_store_self ..
  . rw [hself]
    rfl

theorem setRowPtr_empty_spec {rp : RowPtr} (hlayout : page.Layout) (hlen : rp.len = 0)
    : RowChanged page (page.setRowPtr offnum rp) offnum := by
  have hself : (page.setRowPtr offnum rp).rowPtrs offnum = rp := if_pos rfl
  have hother : ∀ i, i ≠ offnum → (page.setRowPtr offnum rp).rowPtrs i = page.rowPtrs i := by
    intro i hne
    exact if_neg hne
  have hiff : ∀ i, i ≠ offnum → ((page.setRowPtr offnum rp).Stored i ↔ page.Stored i) := by
    intro i hne
    apply stored_congr
    . rfl
    . rfl
    . rw [hother i hne]
    . rw [hother i hne]
  have hne_of : ∀ i, (page.setRowPtr offnum rp).Stored i → i ≠ offnum := by
    intro i hi heq
    have hpos := hi.len_pos
    rw [heq, hself, hlen] at hpos
    cases hpos
  refine ⟨{ hlayout with upper_le := ?_, fits := ?_ }, hiff, hother, ?_⟩
  . intro i hi
    rw [hother i (hne_of i hi)]
    exact hlayout.upper_le i ((hiff i (hne_of i hi)).1 hi)
  . intro i hi
    have hfits := hlayout.fits i ((hiff i (hne_of i hi)).1 hi)
    refine ⟨?_, ?_⟩
    . rw [hother i (hne_of i hi)]
      exact hfits.inside
    . intro j hj hne
      rw [hother i (hne_of i hi), hother j (hne_of j hj)]
      exact hfits.disjoint j ((hiff j (hne_of j hj)).1 hj) hne
  . intro i hne hi
    exact rowData_congr (hother i hne) fun _ _ => rfl

theorem findNextFreeSlot_spec (page : UPage) : (findNextFreeSlot page).2 =
        { page with hasFreeLinePointers := (findNextFreeSlot page).2.hasFreeLinePointers } ∧
      1 ≤ (findNextFreeSlot page).1 ∧ ¬ page.Stored (findNextFreeSlot page).1 := by
  have hlimit : ¬ page.Stored (page.maxOffsetNumber + 1) := by
    intro h
    have := h.2.1
    omega
  unfold findNextFreeSlot
  split
  . split
    next offnum hfind =>
      have hmem := mem_of_find?_eq_some hfind
      have hfree := find?_some hfind
      refine ⟨rfl, ?_, ?_⟩
      . exact (mem_range'_1.1 hmem).1
      . intro h
        simp only [h.2.2.1, Bool.not_true, Bool.false_and] at hfree
        cases hfree
    . exact ⟨rfl, Nat.le_add_left .., hlimit⟩
  . exact ⟨rfl, Nat.le_add_left .., hlimit⟩

end Rows

namespace MoveItems

-- Later items lie below earlier ones. The target is left out: its bytes have been saved.
def Descending (targetOffnum : Nat) : List ItemIdSort → Prop :=
  List.Pairwise fun a b => a.offsetindex ≠ b.offsetindex ∧
    (a.offsetindex ≠ targetOffnum → b.offsetindex ≠ targetOffnum →
      b.itemoff + b.alignedlen ≤ a.itemoff)

def sumLen (targetOffnum : Nat) : List ItemIdSort → Nat
  | [] => 0
  | item :: items =>
    (if targetOffnum = item.offsetindex then 0 else item.alignedlen) + sumLen targetOffnum items

structure Moved (page page' : UPage) (low high : Nat) (item : ItemIdSort) : Prop where
  rowPtr : page'.rowPtrs item.offsetindex =
    { page.rowPtrs item.offsetindex with offset := (page'.rowPtrs item.offsetindex).offset }
  low_le : low ≤ (page'.rowPtrs item.offsetindex).offset
  le_high : (page'.rowPtrs item.offsetindex).offset + item.alignedlen ≤ high
  bytes : ∀ k < item.alignedlen,
    page'.bytes ((page'.rowPtrs item.offsetindex).offset + k) = page.bytes (item.itemoff + k)

structure Spec (targetOffnum : Nat) (items : List ItemIdSort) (page : UPage) (curr : Nat)
    (page' : UPage) (curr' : Nat) : Prop where
  header : page' = { page with bytes := page'.bytes, rowPtrs := page'.rowPtrs }
  sum : curr' + sumLen targetOffnum items = curr
  moved : ∀ item ∈ items, item.offsetindex ≠ targetOffnum → Moved page page' curr' curr item
  apart : items.Pairwise fun a b => a.offsetindex ≠ targetOffnum → b.offsetindex ≠ targetOffnum →
    (page'.rowPtrs b.offsetindex).offset + b.alignedlen ≤ (page'.rowPtrs a.offsetindex).offset
  others : ∀ i, (∀ item ∈ items, item.offsetindex ≠ targetOffnum → item.offsetindex ≠ i) →
    page'.rowPtrs i = page.rowPtrs i
  above : ∀ k, curr ≤ k → page'.bytes k = page.bytes k

theorem spec_cons_target {page' : UPage} {curr' : Nat} (heq : targetOffnum = item.offsetindex)
    (ih : Spec targetOffnum items page curr page' curr')
    : Spec targetOffnum (item :: items) page curr page' curr' := { ih with
  sum := by
    rw [sumLen, if_pos heq, Nat.zero_add]
    exact ih.sum
  moved := by
    intro a ha hne
    cases mem_cons.1 ha with
    | inl h =>
      rw [h] at hne
      exact absurd heq.symm hne
    | inr h => exact ih.moved a h hne
  apart := by
    apply List.Pairwise.cons
    . intro b _ hne
      exact absurd heq.symm hne
    . exact ih.apart
  others := by
    intro i hi
    apply ih.others
    intro a ha
    exact hi a (mem_cons_of_mem _ ha) }

theorem spec_cons {page' : UPage} {curr' : Nat} (hne : targetOffnum ≠ item.offsetindex)
    (hfirst : ∀ b ∈ items, item.offsetindex ≠ b.offsetindex ∧
      (item.offsetindex ≠ targetOffnum → b.offsetindex ≠ targetOffnum →
        b.itemoff + b.alignedlen ≤ item.itemoff))
    (hbelow : item.itemoff + item.alignedlen ≤ curr)
    (hpage₁ : page₁ =
      { page with
        bytes := page.bytes.copy (curr - item.alignedlen) page.bytes item.itemoff item.alignedlen
        : UPage }.setRowPtr item.offsetindex
        { page.rowPtrs item.offsetindex with offset := curr - item.alignedlen })
    (ih : Spec targetOffnum items page₁ (curr - item.alignedlen) page' curr')
    : Spec targetOffnum (item :: items) page curr page' curr' := by
  have hrow₁ : page₁.rowPtrs item.offsetindex =
      { page.rowPtrs item.offsetindex with offset := curr - item.alignedlen } := by
    rw [hpage₁]
    exact if_pos rfl
  have hother₁ : ∀ i, i ≠ item.offsetindex → page₁.rowPtrs i = page.rowPtrs i := by
    intro i hi
    rw [hpage₁]
    exact if_neg hi
  have hbytes₁ : ∀ k, page₁.bytes k =
      page.bytes.copy (curr - item.alignedlen) page.bytes item.itemoff item.alignedlen k := by
    intro k
    rw [hpage₁]
    rfl
  have hself : page'.rowPtrs item.offsetindex = page₁.rowPtrs item.offsetindex := by
    apply ih.others
    intro b hb _ heq
    exact (hfirst b hb).1 heq.symm
  have hoff : (page'.rowPtrs item.offsetindex).offset = curr - item.alignedlen := by
    rw [hself, hrow₁]
  have hsum := ih.sum
  refine ⟨?_, ?_, ?_, ?_, ?_, ?_⟩
  . have hheader := ih.header
    rw [hpage₁] at hheader
    exact hheader
  . rw [sumLen, if_neg hne]
    omega
  . intro b hb hbne
    cases mem_cons.1 hb with
    | inl heq =>
      rw [heq]
      refine ⟨?_, ?_, ?_, ?_⟩
      . rw [hself, hrow₁]
      . omega
      . omega
      . intro k hk
        rw [hoff, ih.above _ (by omega), hbytes₁, copy, if_pos (by omega)]
        congr 1
        omega
    | inr hin =>
      have hmoved := ih.moved b hin hbne
      have hlow := (hfirst b hin).2 hne.symm hbne
      have hrowb := hother₁ b.offsetindex (hfirst b hin).1.symm
      have hhigh := hmoved.le_high
      refine ⟨?_, hmoved.low_le, ?_, ?_⟩
      . have hrow := hmoved.rowPtr
        rw [hrowb] at hrow
        exact hrow
      . omega
      . intro k hk
        rw [hmoved.bytes k hk, hbytes₁, copy, if_neg (by omega)]
  . apply List.Pairwise.cons
    . intro b hb _ hbne
      have hhigh := (ih.moved b hb hbne).le_high
      rw [hoff]
      exact hhigh
    . exact ih.apart
  . intro i hi
    have hii : item.offsetindex ≠ i := hi item mem_cons_self hne.symm
    rw [ih.others i fun b hb => hi b (mem_cons_of_mem _ hb), hother₁ i hii.symm]
  . intro k hk
    rw [ih.above k (by omega), hbytes₁, copy, if_neg (by omega)]

theorem spec (items : List ItemIdSort) (page : UPage) (curr newTupleLen : Nat)
    (hdesc : Descending targetOffnum items)
    (hbelow : ∀ item ∈ items, item.offsetindex ≠ targetOffnum → item.itemoff + item.alignedlen ≤ curr)
    : Spec targetOffnum items page curr (moveItems targetOffnum items page curr newTupleLen).1
        (moveItems targetOffnum items page curr newTupleLen).2.1 := by
  induction items generalizing page curr newTupleLen with
  | nil =>
    refine ⟨rfl, rfl, ?_, List.Pairwise.nil, ?_, ?_⟩
    . intro item hitem
      cases hitem
    . intros
      rfl
    . intros
      rfl
  | cons item items ih =>
    obtain ⟨hfirst, hrest⟩ := pairwise_cons.1 hdesc
    simp only [moveItems]
    split
    next heq =>
      apply spec_cons_target heq
      apply ih
      . exact hrest
      . intro b hb
        exact hbelow b (mem_cons_of_mem _ hb)
    next hne =>
      have hitem := hbelow item mem_cons_self (Ne.symm hne)
      apply spec_cons hne hfirst hitem rfl
      apply ih
      . exact hrest
      . intro b hb hbne
        have := (hfirst b hb).2 (Ne.symm hne) hbne
        omega

theorem newTupleLen_of_mem {target : ItemIdSort}
    (page : UPage) (curr newTupleLen : Nat) (hmem : target ∈ items)
    (htarget : target.offsetindex = targetOffnum)
    (hnodup : items.Pairwise fun a b => a.offsetindex ≠ b.offsetindex)
    : (moveItems targetOffnum items page curr newTupleLen).2.2 = target.alignedlen := by
  have hkeep : ∀ (items : List ItemIdSort) (page : UPage) (curr newTupleLen : Nat),
      (∀ a ∈ items, a.offsetindex ≠ targetOffnum) →
      (moveItems targetOffnum items page curr newTupleLen).2.2 = newTupleLen := by
    intro items
    induction items with
    | nil =>
      intros
      rfl
    | cons item items ih =>
      intro page curr newTupleLen hall
      rw [moveItems, if_neg (hall item mem_cons_self).symm]
      apply ih
      intro a ha
      exact hall a (mem_cons_of_mem _ ha)
  induction items generalizing page curr newTupleLen with
  | nil => cases hmem
  | cons item items ih =>
    obtain ⟨hfirst, hrest⟩ := pairwise_cons.1 hnodup
    cases mem_cons.1 hmem with
    | inl heq =>
      rw [moveItems, ← heq, if_pos htarget.symm]
      apply hkeep
      intro a ha hat
      apply hfirst a ha
      rw [← heq, htarget, hat]
    | inr hin =>
      have hne : targetOffnum ≠ item.offsetindex := by
        rw [← htarget]
        exact (hfirst target hin).symm
      rw [moveItems, if_neg hne]
      exact ih _ _ _ hin hrest

end MoveItems

namespace Repair

variable {page page' : UPage} {targetOffnum spaceRequired : Nat}

def hasRow (page : UPage) (offnum : Nat) : Bool :=
  (page.rowPtrs offnum).isUsed && (page.rowPtrs offnum).hasStorage

def newLen (page : UPage) (targetOffnum spaceRequired offnum : Nat) : Nat :=
  if offnum = targetOffnum then (page.rowPtrs offnum).len + spaceRequired
  else (page.rowPtrs offnum).len

def itemOf (page : UPage) (targetOffnum spaceRequired offnum : Nat) : ItemIdSort :=
  ⟨offnum, (page.rowPtrs offnum).offset, shortAlign (newLen page targetOffnum spaceRequired offnum)⟩

theorem collectItems_eq {offnums : List Nat}
    (h : collectItems page targetOffnum spaceRequired offnums = some items)
    : items = (offnums.filter (hasRow page)).map (itemOf page targetOffnum spaceRequired) := by
  induction offnums generalizing items with
  | nil =>
    cases h
    rfl
  | cons offnum offnums ih =>
    simp only [collectItems, Option.bind_eq_bind, Option.bind_eq_some_iff] at h
    obtain ⟨rest, hrest, h⟩ := h
    split at h
    next hrow =>
      rw [filter_cons_of_pos (show hasRow page offnum = true from hrow), map_cons, ← ih hrest]
      split at h
      . cases h
      . cases h
        rfl
    next hrow =>
      rw [filter_cons_of_neg (show ¬ hasRow page offnum = true from hrow), ← ih hrest]
      cases h
      rfl

theorem mem_range_iff : i ∈ (List.range' 1 page.maxOffsetNumber).filter (hasRow page) ↔ page.Stored i := by
  rw [mem_filter, mem_range'_1, hasRow, Bool.and_eq_true, UPage.Stored]
  constructor
  . rintro ⟨hrange, hrow⟩
    exact ⟨hrange.1, by omega, hrow⟩
  . rintro ⟨hlow, hhigh, hrow⟩
    exact ⟨⟨hlow, by omega⟩, hrow⟩

def sorted (page : UPage) (targetOffnum spaceRequired : Nat) : List ItemIdSort :=
  (((List.range' 1 page.maxOffsetNumber).filter (hasRow page)).map
    (itemOf page targetOffnum spaceRequired)).mergeSort fun a b => b.itemoff ≤ a.itemoff

theorem mem_sorted_iff : item ∈ sorted page targetOffnum spaceRequired ↔
      page.Stored item.offsetindex ∧ item = itemOf page targetOffnum spaceRequired item.offsetindex := by
  rw [sorted, mem_mergeSort, mem_map]
  constructor
  . rintro ⟨i, hi, rfl⟩
    exact ⟨mem_range_iff.1 hi, rfl⟩
  . rintro ⟨hstored, heq⟩
    exact ⟨item.offsetindex, mem_range_iff.2 hstored, heq.symm⟩

theorem sorted_nodup
    : (sorted page targetOffnum spaceRequired).Pairwise fun a b => a.offsetindex ≠ b.offsetindex := by
  apply List.Perm.pairwise (mergeSort_perm ..).symm
  . rw [pairwise_map]
    apply List.Pairwise.filter
    exact nodup_range'
  . intro a b hne heq
    exact hne heq.symm

theorem sorted_descending (hlayout : page.Layout)
    : MoveItems.Descending targetOffnum (sorted page targetOffnum spaceRequired) := by
  have hsorted : (sorted page targetOffnum spaceRequired).Pairwise fun a b => b.itemoff ≤ a.itemoff := by
    have hle_trans : ∀ a b c : ItemIdSort, decide (b.itemoff ≤ a.itemoff) = true →
        decide (c.itemoff ≤ b.itemoff) = true → decide (c.itemoff ≤ a.itemoff) = true := by
      intro a b c hab hbc
      simp only [decide_eq_true_eq] at *
      omega
    have hle_total : ∀ a b : ItemIdSort,
        (decide (b.itemoff ≤ a.itemoff) || decide (a.itemoff ≤ b.itemoff)) = true := by
      intro a b
      simp only [Bool.or_eq_true, decide_eq_true_eq]
      omega
    have h := pairwise_mergeSort hle_trans hle_total
      (((List.range' 1 page.maxOffsetNumber).filter (hasRow page)).map
        (itemOf page targetOffnum spaceRequired))
    apply List.Pairwise.imp _ h
    intro a b hab
    exact of_decide_eq_true hab
  have hboth := List.Pairwise.and sorted_nodup hsorted
  apply List.Pairwise.imp_of_mem _ hboth
  rintro a b ha hb ⟨hne, hle⟩
  refine ⟨hne, ?_⟩
  intro hat hbt
  obtain ⟨hsa, hia⟩ := mem_sorted_iff.1 ha
  obtain ⟨hsb, hib⟩ := mem_sorted_iff.1 hb
  have hdisjoint := (hlayout.fits _ hsa).disjoint _ hsb hne.symm
  have hpos := shortAlign_pos hsa.len_pos
  have hlen : b.alignedlen = shortAlign (page.rowPtrs b.offsetindex).len := by
    rw [hib]
    simp only [itemOf, newLen, if_neg hbt]
  have hoffa : a.itemoff = (page.rowPtrs a.offsetindex).offset := by
    rw [hia]
    rfl
  have hoffb : b.itemoff = (page.rowPtrs b.offsetindex).offset := by
    rw [hib]
    rfl
  omega

theorem sumLen_of_not_mem (h : ∀ item ∈ items, item.offsetindex ≠ targetOffnum)
    : MoveItems.sumLen targetOffnum items = (items.map (·.alignedlen)).sum := by
  induction items with
  | nil => rfl
  | cons item items ih =>
    rw [MoveItems.sumLen, if_neg (h item mem_cons_self).symm, map_cons, sum_cons,
      ih fun a ha => h a (mem_cons_of_mem _ ha)]

theorem sumLen_add_of_mem {target : ItemIdSort} (hmem : target ∈ items)
    (htarget : target.offsetindex = targetOffnum)
    (hnodup : items.Pairwise fun a b => a.offsetindex ≠ b.offsetindex)
    : MoveItems.sumLen targetOffnum items + target.alignedlen = (items.map (·.alignedlen)).sum := by
  induction items with
  | nil => cases hmem
  | cons item items ih =>
    obtain ⟨hfirst, hrest⟩ := pairwise_cons.1 hnodup
    rw [map_cons, sum_cons]
    cases mem_cons.1 hmem with
    | inl heq =>
      have hothers : ∀ a ∈ items, a.offsetindex ≠ targetOffnum := by
        intro a ha hat
        apply hfirst a ha
        rw [← heq, htarget, hat]
      rw [MoveItems.sumLen, ← heq, if_pos htarget.symm, sumLen_of_not_mem hothers]
      omega
    | inr hin =>
      have hne : targetOffnum ≠ item.offsetindex := by
        rw [← htarget]
        exact (hfirst target hin).symm
      have := ih hin hrest
      rw [MoveItems.sumLen, if_neg hne]
      omega

structure Repaired (page page' : UPage) : Prop where
  layout : page'.Layout
  stored : ∀ i, page'.Stored i ↔ page.Stored i
  flags : ∀ i, page.Stored i → (page'.rowPtrs i).flags = (page.rowPtrs i).flags
  len : ∀ i, page.Stored i → (page'.rowPtrs i).len = (page.rowPtrs i).len
  rowData : ∀ i, page.Stored i → page'.rowData i = page.rowData i

structure Placed (page page' : UPage) (low high i n : Nat) : Prop where
  rowPtr : page'.rowPtrs i = { page.rowPtrs i with offset := (page'.rowPtrs i).offset }
  low_le : low ≤ (page'.rowPtrs i).offset
  le_high : (page'.rowPtrs i).offset + n ≤ high
  rowData : page'.rowData i = page.rowData i

theorem stored_of_flags (hlower : page'.pdLower = page.pdLower) (htd : page'.tdCount = page.tdCount)
    (hflags : (page'.rowPtrs i).flags = (page.rowPtrs i).flags)
    (hlen : (page'.rowPtrs i).len = (page.rowPtrs i).len) : page'.Stored i ↔ page.Stored i := by
  apply stored_congr hlower htd
  . rw [RowPtr.isUsed, RowPtr.isUsed, hflags]
  . rw [RowPtr.hasStorage, RowPtr.hasStorage, hlen]

theorem repaired_of_placed {low : Nat} {n : Nat → Nat} (hlower : page'.pdLower = page.pdLower)
    (htd : page'.tdCount = page.tdCount) (hspecial : page'.pdSpecial = page.pdSpecial)
    (hheader : sizeOfUHeapPageHeaderData + page.tdCount * sizeOfTD ≤ page.pdLower)
    (hupper : page'.pdUpper = low) (hlow : page.pdLower ≤ low) (hlow' : low ≤ page.pdSpecial)
    (hspecial_le : page.pdSpecial ≤ blcksz)
    (hplaced : ∀ i, page.Stored i → Placed page page' low page.pdSpecial i (n i))
    (hunused : ∀ i, ¬ page.Stored i → ¬ page'.Stored i)
    (hn : ∀ i, page.Stored i → shortAlign (page.rowPtrs i).len ≤ n i)
    (hapart : ∀ i j, page.Stored i → page.Stored j → i ≠ j →
      (page'.rowPtrs i).offset + n i ≤ (page'.rowPtrs j).offset ∨
        (page'.rowPtrs j).offset + n j ≤ (page'.rowPtrs i).offset)
    : Repaired page page' := by
  have hflags : ∀ i, page.Stored i → (page'.rowPtrs i).flags = (page.rowPtrs i).flags := by
    intro i hi
    rw [(hplaced i hi).rowPtr]
  have hlen : ∀ i, page.Stored i → (page'.rowPtrs i).len = (page.rowPtrs i).len := by
    intro i hi
    rw [(hplaced i hi).rowPtr]
  have hstored : ∀ i, page'.Stored i ↔ page.Stored i := by
    intro i
    by_cases hi : page.Stored i
    . exact stored_of_flags hlower htd (hflags i hi) (hlen i hi)
    . exact ⟨fun h => absurd h (hunused i hi), fun h => absurd h hi⟩
  refine ⟨⟨?_, ?_, ?_, ?_, ?_, ?_⟩, hstored, hflags, hlen, fun i hi => (hplaced i hi).rowData⟩
  . rw [htd, hlower]
    exact hheader
  . omega
  . omega
  . omega
  . intro i hi
    rw [hupper]
    exact (hplaced i ((hstored i).1 hi)).low_le
  . intro i hi
    have hi := (hstored i).1 hi
    have hni := hn i hi
    have hhigh := (hplaced i hi).le_high
    refine ⟨?_, ?_⟩
    . rw [hlen i hi, hspecial]
      omega
    . intro j hj hne
      have hj := (hstored j).1 hj
      have := hapart i j hi hj hne.symm
      have := hn j hj
      rw [hlen i hi, hlen j hj]
      omega

theorem itemOf_mem (targetOffnum spaceRequired : Nat) (hi : page.Stored i)
    : itemOf page targetOffnum spaceRequired i ∈ sorted page targetOffnum spaceRequired :=
  mem_sorted_iff.2 ⟨hi, rfl⟩

theorem placed_of_moved (hne : i ≠ targetOffnum)
    (hmoved : MoveItems.Moved page page₁ curr high (itemOf page targetOffnum spaceRequired i))
    (hrow : page'.rowPtrs i = page₁.rowPtrs i)
    (hbytes : ∀ k, curr ≤ k → page'.bytes k = page₁.bytes k)
    : Placed page page' curr high i (shortAlign (newLen page targetOffnum spaceRequired i)) := by
  have hrowPtr := hmoved.rowPtr
  have hlow := hmoved.low_le
  have hhigh := hmoved.le_high
  have hcopied := hmoved.bytes
  simp only [itemOf] at hrowPtr hlow hhigh hcopied
  rw [← hrow] at hrowPtr hlow hhigh hcopied
  refine ⟨hrowPtr, hlow, hhigh, ?_⟩
  have hlen : (page'.rowPtrs i).len = (page.rowPtrs i).len := by
    rw [hrowPtr]
  have hnew : newLen page targetOffnum spaceRequired i = (page.rowPtrs i).len := if_neg hne
  rw [UPage.rowData, UPage.rowData, hlen]
  apply load_congr
  intro k hk
  have halign := le_shortAlign (page.rowPtrs i).len
  rw [hbytes _ (by omega)]
  apply hcopied
  rw [hnew]
  omega

theorem apart_of_moved {j : Nat} (hi : page.Stored i) (hj : page.Stored j)
    (hne : i ≠ j) (hit : i ≠ targetOffnum) (hjt : j ≠ targetOffnum)
    (hapart : (sorted page targetOffnum spaceRequired).Pairwise fun a b =>
      a.offsetindex ≠ targetOffnum → b.offsetindex ≠ targetOffnum →
        (page₁.rowPtrs b.offsetindex).offset + b.alignedlen ≤ (page₁.rowPtrs a.offsetindex).offset)
    : (page₁.rowPtrs i).offset + shortAlign (newLen page targetOffnum spaceRequired i) ≤
          (page₁.rowPtrs j).offset ∨
        (page₁.rowPtrs j).offset + shortAlign (newLen page targetOffnum spaceRequired j) ≤
          (page₁.rowPtrs i).offset := by
  let R (a b : ItemIdSort) : Prop :=
    a.offsetindex ≠ targetOffnum → b.offsetindex ≠ targetOffnum →
      (page₁.rowPtrs a.offsetindex).offset + a.alignedlen ≤ (page₁.rowPtrs b.offsetindex).offset ∨
        (page₁.rowPtrs b.offsetindex).offset + b.alignedlen ≤ (page₁.rowPtrs a.offsetindex).offset
  have hsymm : Std.Symm R := by
    constructor
    intro a b hab hb ha
    exact (hab ha hb).symm
  have hpair : (sorted page targetOffnum spaceRequired).Pairwise R := by
    apply List.Pairwise.imp _ hapart
    intro a b hab ha hb
    exact Or.inr (hab ha hb)
  have hitems : itemOf page targetOffnum spaceRequired i ≠ itemOf page targetOffnum spaceRequired j := by
    intro heq
    exact hne (congrArg ItemIdSort.offsetindex heq)
  exact hpair.forall (itemOf_mem _ _ hi) (itemOf_mem _ _ hj) hitems hit hjt

theorem unusedCleared_rowPtrs (hi : page.Stored i) : (unusedCleared page).rowPtrs i = page.rowPtrs i := by
  simp only [unusedCleared, if_pos hi.2.2.1]

theorem stored_of_unusedCleared (hlower : page'.pdLower = page.pdLower) (htd : page'.tdCount = page.tdCount)
    (hrow : page'.rowPtrs i = (unusedCleared page).rowPtrs i) (hi : page'.Stored i)
    : page.Stored i := by
  have hused := hi.2.2.1
  rw [hrow] at hused
  have hsame : (unusedCleared page).rowPtrs i = page.rowPtrs i := by
    simp only [unusedCleared] at hused ⊢
    split
    . rfl
    next hunused =>
      rw [if_neg hunused] at hused
      cases hused
  rw [hsame] at hrow
  have hflags : (page'.rowPtrs i).flags = (page.rowPtrs i).flags := by
    rw [hrow]
  have hlen : (page'.rowPtrs i).len = (page.rowPtrs i).len := by
    rw [hrow]
  exact (stored_of_flags hlower htd hflags hlen).1 hi

theorem sorted_spec (page₀ : UPage) (hlayout : page.Layout) (newTupleLen : Nat)
    : MoveItems.Spec targetOffnum (sorted page targetOffnum spaceRequired) page₀ page.pdSpecial
        (moveItems targetOffnum (sorted page targetOffnum spaceRequired) page₀ page.pdSpecial newTupleLen).1
        (moveItems targetOffnum (sorted page targetOffnum spaceRequired) page₀ page.pdSpecial
          newTupleLen).2.1 := by
  apply MoveItems.spec
  . exact sorted_descending hlayout
  . intro item hitem hne
    obtain ⟨hstored, heq⟩ := mem_sorted_iff.1 hitem
    have hinside := (hlayout.fits _ hstored).inside
    rw [heq]
    simp only [itemOf, newLen, if_neg hne]
    exact hinside

theorem Placed.mono {low low' high' n : Nat} (h : Placed page page' low high i n)
    (hlow : low' ≤ low) (hhigh : high ≤ high') : Placed page page' low' high' i n := { h with
  low_le := Nat.le_trans hlow h.low_le
  le_high := Nat.le_trans h.le_high hhigh }

theorem moved_congr {page₀ : UPage} {low : Nat}
    (h : MoveItems.Moved page₀ page₁ low high item) (hbytes : page₀.bytes = page.bytes)
    (hrow : page₀.rowPtrs item.offsetindex = page.rowPtrs item.offsetindex)
    : MoveItems.Moved page page₁ low high item := { h with
  rowPtr := by
    rw [← hrow]
    exact h.rowPtr
  bytes := by
    rw [← hbytes]
    exact h.bytes }

variable (hlayout : page.Layout)
include hlayout

theorem repaired_of_spec (hspec : MoveItems.Spec targetOffnum (sorted page targetOffnum spaceRequired)
      { unusedCleared page with hasFreeLinePointers := hasFree } page.pdSpecial page₁ curr)
    (hpage' : page' = { page₁ with
      bytes := page'.bytes, pdUpper := page'.pdUpper, rowPtrs := page'.rowPtrs })
    (hrows : ∀ i, i ≠ targetOffnum → page'.rowPtrs i = page₁.rowPtrs i)
    (hbytes : ∀ k, curr ≤ k → page'.bytes k = page₁.bytes k)
    (hlow : page.pdLower ≤ page'.pdUpper) (hcurr : page'.pdUpper ≤ curr)
    (hunused : ¬ page.Stored targetOffnum → ¬ page'.Stored targetOffnum)
    (htarget : page.Stored targetOffnum → Placed page page' page'.pdUpper curr targetOffnum
      (shortAlign (newLen page targetOffnum spaceRequired targetOffnum)))
    : Repaired page page' ∧ (page.Stored targetOffnum →
          page'.Fits targetOffnum ((page.rowPtrs targetOffnum).len + spaceRequired)) := by
  have hheader := hspec.header
  have hlower : page'.pdLower = page.pdLower := by
    rw [hpage', hheader]
    rfl
  have htd : page'.tdCount = page.tdCount := by
    rw [hpage', hheader]
    rfl
  have hspecial : page'.pdSpecial = page.pdSpecial := by
    rw [hpage', hheader]
    rfl
  have hsum := hspec.sum
  have hcurr_le : curr ≤ page.pdSpecial := by omega
  have hother : ∀ i, page.Stored i → i ≠ targetOffnum → Placed page page' curr page.pdSpecial i
        (shortAlign (newLen page targetOffnum spaceRequired i)) := by
    intro i hi hne
    have hmoved := hspec.moved _ (itemOf_mem _ _ hi) hne
    exact placed_of_moved hne (moved_congr hmoved rfl (unusedCleared_rowPtrs hi)) (hrows i hne) hbytes
  have hplaced : ∀ i, page.Stored i → Placed page page' page'.pdUpper page.pdSpecial i
      (shortAlign (newLen page targetOffnum spaceRequired i)) := by
    intro i hi
    by_cases hne : i = targetOffnum
    . rw [hne] at hi ⊢
      exact (htarget hi).mono (Nat.le_refl _) hcurr_le
    . exact (hother i hi hne).mono hcurr (Nat.le_refl _)
  have hapart : ∀ i j, page.Stored i → page.Stored j → i ≠ j →
      (page'.rowPtrs i).offset + shortAlign (newLen page targetOffnum spaceRequired i) ≤
          (page'.rowPtrs j).offset ∨
        (page'.rowPtrs j).offset + shortAlign (newLen page targetOffnum spaceRequired j) ≤
          (page'.rowPtrs i).offset := by
    intro i j hi hj hne
    by_cases hit : i = targetOffnum
    . have hlowj := (hother j hj (by rw [← hit]; exact hne.symm)).low_le
      rw [hit] at hi ⊢
      have hhighi := (htarget hi).le_high
      omega
    . by_cases hjt : j = targetOffnum
      . have hlowi := (hother i hi hit).low_le
        rw [hjt] at hj ⊢
        have hhighj := (htarget hj).le_high
        omega
      . rw [hrows i hit, hrows j hjt]
        exact apart_of_moved hi hj hne hit hjt hspec.apart
  have hnew : ∀ i, shortAlign (page.rowPtrs i).len ≤
      shortAlign (newLen page targetOffnum spaceRequired i) := by
    intro i
    apply shortAlign_mono
    unfold newLen
    split
    . omega
    . omega
  have hrepaired : Repaired page page' := by
    apply repaired_of_placed hlower htd hspecial hlayout.header_le rfl hlow
      (by omega) hlayout.special_le hplaced
    . intro i hi hstored
      by_cases hne : i = targetOffnum
      . rw [hne] at hi hstored
        exact hunused hi hstored
      . apply hi
        apply stored_of_unusedCleared hlower htd _ hstored
        rw [hrows i hne]
        apply hspec.others
        intro item hitem _ heq
        apply hi
        rw [← heq]
        exact (mem_sorted_iff.1 hitem).1
    . intro i _
      exact hnew i
    . exact hapart
  refine ⟨hrepaired, ?_⟩
  intro hstored
  have hlen : newLen page targetOffnum spaceRequired targetOffnum =
      (page.rowPtrs targetOffnum).len + spaceRequired := if_pos rfl
  rw [← hlen]
  refine ⟨?_, ?_⟩
  . have hhigh := (hplaced targetOffnum hstored).le_high
    rw [hspecial]
    exact hhigh
  . intro j hj hne
    have hj := (hrepaired.stored j).1 hj
    have hthis := hapart targetOffnum j hstored hj hne.symm
    have hj_le := hnew j
    rw [hrepaired.len j hj]
    omega

section

variable (htarget : targetOffnum = invalidOffsetNumber ∨ page.Stored targetOffnum)
include htarget

theorem putTarget_spec (htotal : ((sorted page targetOffnum spaceRequired).map (·.alignedlen)).sum ≤
      page.pdSpecial - page.pdLower)
    {newTupleLen : Nat}
    (hspec : MoveItems.Spec targetOffnum (sorted page targetOffnum spaceRequired)
      { unusedCleared page with hasFreeLinePointers := hasFree } page.pdSpecial page₁ curr)
    (hnew : page.Stored targetOffnum →
      newTupleLen = shortAlign (newLen page targetOffnum spaceRequired targetOffnum))
    : let page' := putTarget page₁ (page.rowData targetOffnum) curr newTupleLen targetOffnum
      Repaired page page' ∧ (page.Stored targetOffnum →
          page'.Fits targetOffnum ((page.rowPtrs targetOffnum).len + spaceRequired)) := by
  intro page'
  have hsum := hspec.sum
  have hlower := hlayout.lower_le
  have hupper := hlayout.upper_le_special
  by_cases hinvalid : targetOffnum = invalidOffsetNumber
  . have hnot : ∀ i, page.Stored i → i ≠ targetOffnum := by
      intro i hi h0
      have := hi.1
      rw [h0, hinvalid] at this
      cases this
    have hpage' : page' = { page₁ with pdUpper := curr } := by
      simp only [page', putTarget, if_pos hinvalid]
    have hall : ∀ item ∈ sorted page targetOffnum spaceRequired, item.offsetindex ≠ targetOffnum := by
      intro item hitem
      exact hnot _ (mem_sorted_iff.1 hitem).1
    rw [sumLen_of_not_mem hall] at hsum
    have hheader : page' = { page₁ with
        bytes := page'.bytes, pdUpper := page'.pdUpper, rowPtrs := page'.rowPtrs } := by
      rw [hpage']
    have hrows : page'.rowPtrs = page₁.rowPtrs := by
      rw [hpage']
    have hbytes : page'.bytes = page₁.bytes := by
      rw [hpage']
    have hpd : page'.pdUpper = curr := by
      rw [hpage']
    apply repaired_of_spec hlayout hspec hheader
    . intro i _
      rw [hrows]
    . intro k _
      rw [hbytes]
    . omega
    . omega
    . intro _ hstored
      have := hstored.1
      rw [hinvalid] at this
      cases this
    . intro hstored
      exact absurd rfl (hnot _ hstored)
  . have hstored : page.Stored targetOffnum := htarget.resolve_left hinvalid
    have hmem := itemOf_mem targetOffnum spaceRequired hstored
    have htotal' := sumLen_add_of_mem hmem rfl sorted_nodup
    simp only [itemOf] at htotal'
    have hnew := hnew hstored
    have hlen : (page.rowPtrs targetOffnum).len ≤ newTupleLen := by
      have halign := le_shortAlign (newLen page targetOffnum spaceRequired targetOffnum)
      have : newLen page targetOffnum spaceRequired targetOffnum =
        (page.rowPtrs targetOffnum).len + spaceRequired := if_pos rfl
      omega
    have hrow₁ : page₁.rowPtrs targetOffnum = page.rowPtrs targetOffnum := by
      rw [hspec.others targetOffnum fun item _ hne => hne]
      exact unusedCleared_rowPtrs hstored
    have hrow : page'.rowPtrs targetOffnum =
        { page.rowPtrs targetOffnum with offset := curr - newTupleLen } := by
      simp only [page', putTarget, if_neg hinvalid, UPage.setRowPtr, if_pos, hrow₁]
    have hbytes : page'.bytes = page₁.bytes.store (curr - newTupleLen) (page.rowData targetOffnum) := by
      simp only [page', putTarget, if_neg hinvalid, UPage.setRowPtr]
    have hpd : page'.pdUpper = curr - newTupleLen := by
      simp only [page', putTarget, if_neg hinvalid, UPage.setRowPtr]
    have hheader : page' = { page₁ with
        bytes := page'.bytes, pdUpper := page'.pdUpper, rowPtrs := page'.rowPtrs } := by
      simp only [page', putTarget, if_neg hinvalid, UPage.setRowPtr]
    apply repaired_of_spec hlayout hspec hheader
    . intro i hne
      simp only [page', putTarget, if_neg hinvalid, UPage.setRowPtr, if_neg hne]
    . intro k hk
      rw [hbytes, store_outside]
      rw [UPage.length_rowData]
      omega
    . omega
    . omega
    . intro hnot
      exact absurd hstored hnot
    . intro _
      refine ⟨?_, ?_, ?_, ?_⟩
      . rw [hrow]
      . rw [hrow, hpd]
      . rw [hrow, ← hnew]
        show curr - newTupleLen + newTupleLen ≤ curr
        omega
      . have hload := load_store_self page₁.bytes (curr - newTupleLen) (page.rowData targetOffnum)
        rw [UPage.length_rowData] at hload
        rw [UPage.rowData, hrow, hbytes]
        exact hload

theorem compactifyTuples_spec (htotal : ((((List.range' 1 page.maxOffsetNumber).filter (hasRow page)).map
      (itemOf page targetOffnum spaceRequired)).map (·.alignedlen)).sum ≤ page.pdSpecial - page.pdLower)
    : let page' := compactifyTuples { unusedCleared page with hasFreeLinePointers := hasFree }
        (((List.range' 1 page.maxOffsetNumber).filter (hasRow page)).map
          (itemOf page targetOffnum spaceRequired)) targetOffnum
      Repaired page page' ∧ (page.Stored targetOffnum →
          page'.Fits targetOffnum ((page.rowPtrs targetOffnum).len + spaceRequired)) := by
  have hsum : ((sorted page targetOffnum spaceRequired).map (·.alignedlen)).sum ≤
      page.pdSpecial - page.pdLower := by
    refine Nat.le_trans (Nat.le_of_eq ?_) htotal
    apply List.Perm.sum_eq
    apply List.Perm.map
    exact mergeSort_perm ..
  have hdata : page.Stored targetOffnum →
      UPage.rowData { unusedCleared page with hasFreeLinePointers := hasFree } targetOffnum =
        page.rowData targetOffnum := by
    intro hstored
    rw [UPage.rowData, UPage.rowData]
    show page.bytes.load ((unusedCleared page).rowPtrs targetOffnum).offset
      ((unusedCleared page).rowPtrs targetOffnum).len = _
    rw [unusedCleared_rowPtrs hstored]
  have hput := putTarget_spec hlayout htarget hsum
    (sorted_spec { unusedCleared page with hasFreeLinePointers := hasFree } hlayout 0)
    (fun hstored => MoveItems.newTupleLen_of_mem { unusedCleared page with hasFreeLinePointers := hasFree }
      page.pdSpecial 0 (itemOf_mem targetOffnum spaceRequired hstored) rfl sorted_nodup)
  cases htarget with
  | inl hinvalid =>
    rw [hinvalid] at hput ⊢
    exact hput
  | inr hstored =>
    rw [← hdata hstored] at hput
    exact hput

end

theorem repaired_of_no_rows (hnone : ∀ i, ¬ page.Stored i) (hpage' : page' =
      { unusedCleared page with hasFreeLinePointers := hasFree, pdUpper := page.pdSpecial })
    : Repaired page page' := by
  have hnone' : ∀ i, ¬ page'.Stored i := by
    intro i hstored
    apply hnone i
    apply stored_of_unusedCleared _ _ _ hstored
    . rw [hpage']
      rfl
    . rw [hpage']
      rfl
    . rw [hpage']
  have hlower := hlayout.lower_le
  have hupper := hlayout.upper_le_special
  refine ⟨⟨?_, ?_, ?_, ?_, ?_, ?_⟩, ?_, ?_, ?_, ?_⟩
  . rw [hpage']
    exact hlayout.header_le
  . rw [hpage']
    exact Nat.le_trans hlower hupper
  . rw [hpage']
    exact Nat.le_refl _
  . rw [hpage']
    exact hlayout.special_le
  . intro i hi
    exact absurd hi (hnone' i)
  . intro i hi
    exact absurd hi (hnone' i)
  . intro i
    exact ⟨fun hi => absurd hi (hnone' i), fun hi => absurd hi (hnone i)⟩
  . intro i hi
    exact absurd hi (hnone i)
  . intro i hi
    exact absurd hi (hnone i)
  . intro i hi
    exact absurd hi (hnone i)

theorem upageRepairFragmentation_spec
    (htarget : targetOffnum = invalidOffsetNumber ∨ page.Stored targetOffnum)
    (hres : upageRepairFragmentation page targetOffnum spaceRequired = some page')
    : Repaired page page' ∧ (page.Stored targetOffnum →
          page'.Fits targetOffnum ((page.rowPtrs targetOffnum).len + spaceRequired)) := by
  unfold upageRepairFragmentation at hres
  split at hres
  . cases hres
  simp only [Option.bind_eq_bind, Option.bind_eq_some_iff] at hres
  obtain ⟨items, hcollect, hres⟩ := hres
  have hitems := collectItems_eq hcollect
  split at hres
  next hempty =>
    have hnone : ∀ i, ¬ page.Stored i := by
      intro i hi
      have hmem := mem_map_of_mem (f := itemOf page targetOffnum spaceRequired) (mem_range_iff.2 hi)
      rw [← hitems, isEmpty_iff.1 hempty] at hmem
      cases hmem
    cases hres
    refine ⟨repaired_of_no_rows hlayout hnone rfl, ?_⟩
    intro hstored
    exact absurd hstored (hnone _)
  next =>
    split at hres
    . cases hres
    next hfit =>
      cases hres
      rw [hitems]
      apply compactifyTuples_spec hlayout htarget
      rw [← hitems]
      exact Nat.le_of_not_lt hfit

end Repair

end Ustore

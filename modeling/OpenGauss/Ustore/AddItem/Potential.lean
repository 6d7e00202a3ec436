import OpenGauss.Ustore.Page.Impl

/-!
This module contains the runs of `UHeapRecordPotentialFreeSpace` and `UPageAddItem` on a new page.
-/

namespace Ustore

namespace AddItem

section Runs

def uheapSpecialSize : Nat := 0

def upageInit (tdSlots : UInt8) : UPage where
  bytes := Memory.zero
  hasFreeLinePointers := false
  pdLower := sizeOfUHeapPageHeaderData + tdSlots.toNat * sizeOfTD
  pdUpper := blcksz - uheapSpecialSize
  pdSpecial := blcksz - maxAlign uheapSpecialSize
  potentialFreespace := blcksz - uheapSpecialSize - (sizeOfUHeapPageHeaderData + tdSlots.toNat * sizeOfTD)
  tdCount := tdSlots.toNat
  rowPtrs := fun _ => .unused

inductive Call where
  | record (delta : Int32)
  | addItem (request : Request)

def Outcome.page? : Outcome → Option UPage
  | .added _ page => some page
  | .refused page => some page
  | .raised => none

def step (page : UPage) : Call → Option UPage
  | .record delta => some (page.recordPotentialFreeSpace delta.toInt)
  | .addItem request => (upageAddItem page request).page?

def EveryRecord (p : UPage → Int32 → Prop) (page : UPage) : List Call → Prop
  | [] => True
  | call :: calls =>
    (∀ delta, call = .record delta → p page delta) ∧
      ∀ page', step page call = some page' → EveryRecord p page' calls

def writableSpc (page : UPage) : Int :=
  (page.pdSpecial : Int) - (sizeOfUHeapPageHeaderData + page.tdCount * sizeOfTD)

structure Clamped (page : UPage) (delta : Int32) : Prop where
  eq : ((page.recordPotentialFreeSpace delta.toInt).potentialFreespace : Int)
    = max 0 (min (page.potentialFreespace + delta.toInt) (writableSpc page))
  le : delta < 0 → (page.recordPotentialFreeSpace delta.toInt).potentialFreespace ≤ page.potentialFreespace

def SumNonneg (page : UPage) (delta : Int32) : Prop := 0 ≤ (page.potentialFreespace : Int) + delta.toInt

end Runs

section Lemmas

variable {page page' : UPage}

structure Inv (tdSlots : UInt8) (page : UPage) : Prop where
  pdSpecial : page.pdSpecial = blcksz
  tdCount : page.tdCount = tdSlots.toNat
  le : page.potentialFreespace ≤ blcksz

variable {tdSlots : UInt8}

theorem inv_upageInit (tdSlots : UInt8) : Inv tdSlots (upageInit tdSlots) :=
  ⟨rfl, rfl, Nat.sub_le _ _⟩

variable (h : Inv tdSlots page)
include h

theorem Inv.record (delta : Int) : Inv tdSlots (page.recordPotentialFreeSpace delta) := by
  have hspecial := h.pdSpecial
  constructor
  case pdSpecial => exact hspecial
  case tdCount => exact h.tdCount
  case le =>
    unfold UPage.recordPotentialFreeSpace
    dsimp only
    omega

theorem Inv.putItem {request : Request} {offsetNumber : Nat} {needshuffle : Bool}
    (hput : (putItem page request offsetNumber needshuffle).page? = some page')
    : Inv tdSlots page' := by
  have hle := h.le
  have hpotential : ∀ takesPointer : Bool,
      (if takesPointer then page.potentialFreespace - sizeOfRowPtr else page.potentialFreespace) ≤ blcksz := by
    intro takesPointer
    split <;> omega
  unfold AddItem.putItem calculateLowerUpperPointers at hput
  dsimp only at hput
  generalize (offsetNumber = page.maxOffsetNumber + 1 || needshuffle : Bool) = takesPointer at hput
  have hle' := hpotential takesPointer
  generalize (if takesPointer = true then page.potentialFreespace - sizeOfRowPtr else page.potentialFreespace)
    = potentialFreespace at hput hle'
  generalize (if takesPointer = true then page.pdLower + sizeOfRowPtr else page.pdLower) = lower at hput
  split at hput
  . obtain rfl := Option.some.inj hput
    exact h
  . split at hput
    . obtain rfl := Option.some.inj hput
      exact h
    . split at hput
      . obtain rfl := Option.some.inj hput
        exact ⟨h.pdSpecial, h.tdCount, hle'⟩
      . split at hput
        . cases hput
        . obtain rfl := Option.some.inj hput
          unfold UPage.setRowPtr moveRowPtrs
          constructor
          case pdSpecial =>
            rw [← h.pdSpecial]
            cases needshuffle <;> rfl
          case tdCount =>
            rw [← h.tdCount]
            cases needshuffle <;> rfl
          case le =>
            apply Nat.le_trans _ hle'
            cases needshuffle <;> exact Nat.le_refl _

theorem Inv.step {call : Call} (hstep : AddItem.step page call = some page')
    : Inv tdSlots page' := by
  cases call with
  | record delta =>
    obtain rfl := Option.some.inj hstep
    exact h.record delta.toInt
  | addItem request =>
    unfold AddItem.step upageAddItem at hstep
    dsimp only at hstep
    split at hstep
    . cases hstep
    . split at hstep
      . split at hstep
        . obtain rfl := Option.some.inj hstep
          exact h
        . exact h.putItem hstep
      . have hsearched : Inv tdSlots (findNextFreeSlot page).2 := by
          unfold findNextFreeSlot
          split
          . split
            . exact h
            . exact ⟨h.pdSpecial, h.tdCount, h.le⟩
          . exact h
        exact hsearched.putItem hstep

theorem clamped_iff (delta : Int32) : Clamped page delta ↔ SumNonneg page delta := by
  have hspecial := h.pdSpecial
  have hcount := h.tdCount
  have hle := h.le
  have htd := tdSlots.toNat_lt
  have hlow := delta.le_toInt
  have hhigh := delta.toInt_lt
  have hneg : delta < 0 ↔ delta.toInt < 0 := Int32.lt_iff_toInt_lt
  have hnew : (page.recordPotentialFreeSpace delta.toInt).potentialFreespace
      = min ((page.potentialFreespace + delta.toInt) % 2 ^ 64).toNat
        (page.pdSpecial - (sizeOfUHeapPageHeaderData + page.tdCount * sizeOfTD)) := rfl
  unfold SumNonneg
  constructor
  . intro hclamped
    have heq := hclamped.eq
    rw [hnew] at heq
    unfold writableSpc blcksz sizeOfUHeapPageHeaderData sizeOfTD at *
    omega
  . intro hsum
    rw [← Int.not_lt] at hsum
    constructor
    . rw [hnew]
      unfold writableSpc blcksz sizeOfUHeapPageHeaderData sizeOfTD at *
      omega
    . rw [hneg, hnew]
      omega

end Lemmas

theorem everyRecord_congr {tdSlots : UInt8} {p q : UPage → Int32 → Prop}
    (hpq : ∀ page, Inv tdSlots page → ∀ delta, p page delta ↔ q page delta) {page : UPage}
    (h : Inv tdSlots page)
    (calls : List Call)
    : EveryRecord p page calls ↔ EveryRecord q page calls := by
  induction calls generalizing page with
  | nil => exact Iff.rfl
  | cons call calls ih =>
    apply and_congr
    . apply forall_congr'
      intro delta
      rw [hpq page h delta]
    . apply forall_congr'
      intro page'
      apply imp_congr_right
      intro hstep
      exact ih (h.step hstep)

/-- The potential free space is clamped in every call if and only if no sum is below zero. -/
theorem everyRecord_clamped_iff (tdSlots : UInt8) (calls : List Call)
    : EveryRecord Clamped (upageInit tdSlots) calls ↔ EveryRecord SumNonneg (upageInit tdSlots) calls :=
  everyRecord_congr (fun _ h delta => clamped_iff h delta) (inv_upageInit tdSlots) calls

theorem not_everyRecord_clamped
    : ¬ EveryRecord Clamped (upageInit 4) [.record (-8072), .record (-2)] := by
  intro h
  have heq := ((h.right _ rfl).left (-2) rfl).eq
  revert heq
  decide

end AddItem

end Ustore

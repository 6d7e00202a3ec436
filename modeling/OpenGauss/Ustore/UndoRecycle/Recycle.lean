import OpenGauss.Ustore.UndoRecycle.Impl
import Mathlib.Data.List.Basic
import Mathlib.Algebra.Order.Group.Nat

/-!
This module contains the invariant of a zone.
-/

open List Option

namespace UndoRecycle

variable {slot : TransactionSlot} {ranges : List (Nat × Nat)} {zone : UndoZone} {slotPtr : Nat}
variable {i p q : Nat} {slot' : TransactionSlot}

section SlotPtr

theorem slotPtrAt_eq (i : Nat)
    : slotPtrAt i = i / 255 * 8192 + 24 + i % 255 * 32 := rfl

theorem slotPtrAt_div (i : Nat)
    : slotPtrAt i / blcksz = i / slotsPerBlock := by
  have hlt : i % 255 < 255 := Nat.mod_lt i (by decide)
  rw [slotPtrAt_eq, blcksz, slotsPerBlock]
  omega

-- The loops over slots count slots where the source has byte pointers: the next pointer is that
-- of the next slot, the block of a pointer is that of its slot, and the order is the same.
theorem getNextSlotPtr_slotPtrAt (i : Nat)
    : getNextSlotPtr (slotPtrAt i) = slotPtrAt (i + 1) := by
  have hlt : i % 255 < 255 := Nat.mod_lt i (by decide)
  have hdiv : slotPtrAt i / blcksz = i / 255 := slotPtrAt_div i
  have hmod : slotPtrAt i % blcksz = 24 + i % 255 * 32 := by
    rw [slotPtrAt_eq, blcksz]
    omega
  rw [getNextSlotPtr, hdiv, hmod, slotPtrAt_eq, blcksz, slotSize, undoLogBlockHeaderSize]
  by_cases hend : i % 255 = 254
  . rw [if_pos (by omega)]
    omega
  . rw [if_neg (by omega)]
    omega

theorem slotPtrAt_lt_iff (i j : Nat)
    : slotPtrAt i < slotPtrAt j ↔ i < j := by
  have hi : i % 255 < 255 := Nat.mod_lt i (by decide)
  have hj : j % 255 < 255 := Nat.mod_lt j (by decide)
  rw [slotPtrAt_eq, slotPtrAt_eq]
  omega

end SlotPtr

section Chain

def Chain : Nat → List (Nat × Nat) → Nat → Prop
  | p, [], q => p = q
  | p, (start, stop) :: rest, q =>
    (start = invalidUndoRecPtr ∧ rest = [] ∧ p = q) ∨ (start = p ∧ p < stop ∧ Chain stop rest q)

theorem Chain.le (h : Chain p ranges q) : p ≤ q := by
  induction ranges generalizing p with
  | nil => exact Nat.le_of_eq h
  | cons range rest ih =>
    obtain ⟨_, _, heq⟩ | ⟨_, hlt, hrest⟩ := h
    . omega
    . have hle := ih hrest
      omega

theorem Chain.mem (h : Chain p ranges q) {range : Nat × Nat}
    (hmem : range ∈ ranges) (hstart : range.1 ≠ invalidUndoRecPtr) : p ≤ range.1 ∧ range.2 ≤ q := by
  induction ranges generalizing p with
  | nil => cases hmem
  | cons first rest ih =>
    obtain ⟨hopen, hnil, _⟩ | ⟨hfirst, hlt, hrest⟩ := h
    . subst hnil
      rw [mem_singleton] at hmem
      rw [hmem] at hstart
      contradiction
    . cases mem_cons.1 hmem with
      | inl heq =>
        rw [heq]
        exact ⟨Nat.le_of_eq hfirst.symm, hrest.le⟩
      | inr hin =>
        have hboth := ih hrest hin
        omega

theorem Chain.push (h : Chain p ranges q)
    (hclosed : ∀ range ∈ ranges, range.1 ≠ invalidUndoRecPtr) (stop : Nat)
    : Chain p (ranges ++ [(invalidUndoRecPtr, stop)]) q := by
  induction ranges generalizing p with
  | nil => exact Or.inl ⟨rfl, rfl, h⟩
  | cons first rest ih =>
    obtain ⟨hopen, _, _⟩ | ⟨hfirst, hlt, hrest⟩ := h
    . exact absurd hopen (hclosed first (mem_cons_self ..))
    . refine Or.inr ⟨hfirst, hlt, ih hrest ?_⟩
      intro range hmem
      exact hclosed range (mem_cons_of_mem _ hmem)

theorem Chain.extend {q' start stop : Nat}
    (h : Chain p (ranges ++ [(start, stop)]) q) (hp : 0 < p) (hlt : q < q')
    : Chain p (ranges ++ [(if start = invalidUndoRecPtr then q else start, q')]) q' := by
  induction ranges generalizing p with
  | nil =>
    obtain ⟨hopen, _, heq⟩ | ⟨hfirst, hlt', hrest⟩ := h
    . rw [if_pos hopen]
      exact Or.inr ⟨heq.symm, by omega, rfl⟩
    . have hstop : stop = q := hrest
      have hstart : start ≠ invalidUndoRecPtr := by
        rw [hfirst]
        exact Nat.ne_of_gt hp
      rw [if_neg hstart]
      exact Or.inr ⟨hfirst, by omega, rfl⟩
  | cons first rest ih =>
    obtain ⟨_, hnil, _⟩ | ⟨hfirst, hlt', hrest⟩ := h
    . simp at hnil
    . exact Or.inr ⟨hfirst, hlt', ih hrest (by omega)⟩

end Chain

section Invariant

def range (slot : TransactionSlot) : Nat × Nat := (slot.startUndoPtr, slot.endUndoPtr)

-- The undo of the transaction is not needed to roll back.
structure Settled (g : Globals) (slot : TransactionSlot) : Prop where
  start : slot.startUndoPtr ≠ invalidUndoRecPtr
  ended : g.status slot.xactId ≠ .inProgress
  done : g.status slot.xactId = .committed ∨ slot.rollbackFinish = true

def UndoZone.frozenEnd (zone : UndoZone) : Nat := max zone.frozenSlotPtr zone.recycleTSlotPtr

structure ZoneInv (g : Globals) (zone : UndoZone) : Prop where
  recycle_le : zone.recycleTSlotPtr ≤ zone.slots.length
  frozen_le : zone.frozenSlotPtr ≤ zone.slots.length
  ascending : (zone.slots.map TransactionSlot.xactId).Pairwise (· < ·)
  normal : ∀ slot ∈ zone.slots, firstNormalTransactionId ≤ slot.xactId
  assigned : ∀ slot ∈ zone.slots, slot.xactId < g.nextXid
  unfinished : ∀ slot ∈ zone.slots, slot.startUndoPtr = invalidUndoRecPtr →
    g.status slot.xactId = .inProgress
  chain : Chain zone.forceDiscardURecPtr ((zone.slots.drop zone.recycleTSlotPtr).map range)
    zone.insertURecPtr
  discard_pos : 0 < zone.discardURecPtr
  discard_le : zone.discardURecPtr ≤ zone.forceDiscardURecPtr
  header : undoLogBlockHeaderSize ≤ zone.insertURecPtr % blcksz
  settled : ∀ i slot, zone.slots[i]? = some slot → i < zone.frozenEnd → Settled g slot
  recycled : ∀ i slot, zone.slots[i]? = some slot → i < zone.recycleTSlotPtr →
    slot.endUndoPtr ≤ zone.forceDiscardURecPtr
  frozen : ∀ i slot, zone.slots[i]? = some slot → zone.frozenEnd ≤ i → g.globalFrozenXid ≤ slot.xactId
  having : ∀ i slot, zone.slots[i]? = some slot → zone.recycleTSlotPtr ≤ i →
    g.globalRecycleXid ≤ slot.xactId

structure PointersLe (zone zone' : UndoZone) : Prop where
  insert : zone.insertURecPtr ≤ zone'.insertURecPtr
  discard : zone.discardURecPtr ≤ zone'.discardURecPtr
  forceDiscard : zone.forceDiscardURecPtr ≤ zone'.forceDiscardURecPtr
  recycleTSlot : zone.recycleTSlotPtr ≤ zone'.recycleTSlotPtr
  allocateTSlot : zone.allocateTSlotPtr ≤ zone'.allocateTSlotPtr

theorem PointersLe.refl (zone : UndoZone) : PointersLe zone zone :=
  ⟨Nat.le_refl _, Nat.le_refl _, Nat.le_refl _, Nat.le_refl _, Nat.le_refl _⟩

theorem PointersLe.trans {zone' zone'' : UndoZone} (h : PointersLe zone zone')
    (h' : PointersLe zone' zone'') : PointersLe zone zone'' :=
  ⟨h.insert.trans h'.insert, h.discard.trans h'.discard, h.forceDiscard.trans h'.forceDiscard,
    h.recycleTSlot.trans h'.recycleTSlot, h.allocateTSlot.trans h'.allocateTSlot⟩

variable {g : Globals} {zone : UndoZone}

section

variable (h : ZoneInv g zone)
include h

theorem ZoneInv.xactId_lt {j : Nat}
    (hslot : zone.slots[i]? = some slot) (hslot' : zone.slots[j]? = some slot') (hlt : i < j)
    : slot.xactId < slot'.xactId := by
  obtain ⟨hi, rfl⟩ := List.getElem?_eq_some_iff.1 hslot
  obtain ⟨hj, rfl⟩ := List.getElem?_eq_some_iff.1 hslot'
  have hpair := pairwise_iff_getElem.1 h.ascending i j (by simpa using hi) (by simpa using hj) hlt
  simpa using hpair

theorem ZoneInv.xactId_le {j : Nat}
    (hslot : zone.slots[i]? = some slot) (hslot' : zone.slots[j]? = some slot') (hle : i ≤ j)
    : slot.xactId ≤ slot'.xactId := by
  cases Nat.lt_or_eq_of_le hle with
  | inl hlt => exact (h.xactId_lt hslot hslot' hlt).le
  | inr heq =>
    subst heq
    rw [hslot, some_inj] at hslot'
    exact Nat.le_of_eq (congrArg _ hslot')

theorem ZoneInv.forceDiscard_le : zone.forceDiscardURecPtr ≤ zone.insertURecPtr :=
  h.chain.le

theorem ZoneInv.checkUndoZoneMeta_eq : zone.checkUndoZoneMeta = zone.slots.length := by
  have hle := h.recycle_le
  rw [UndoZone.checkUndoZoneMeta, if_neg]
  . rfl
  . rw [UndoZone.allocateTSlotPtr]
    omega

end

theorem fetchTransactionSlot_eq
    (h : zone.slots[slotPtr]? = some slot) : zone.fetchTransactionSlot slotPtr = slot := by
  rw [UndoZone.fetchTransactionSlot, getD_eq_getElem?_getD, h]
  rfl

theorem ZoneInv.xactId_ne (h : ZoneInv g zone)
    (hslot : zone.slots[i]? = some slot) : slot.xactId ≠ invalidTransactionId := by
  have hnormal := h.normal slot (mem_of_getElem? hslot)
  simp only [firstNormalTransactionId, invalidTransactionId] at *
  omega

theorem ZoneInv.didCommit_iff (h : ZoneInv g zone)
    (hslot : zone.slots[i]? = some slot) (hge : zone.recycleTSlotPtr ≤ i)
    : g.uheapTransactionIdDidCommit slot.xactId = true ↔ g.status slot.xactId = .committed := by
  have hnormal := h.normal slot (mem_of_getElem? hslot)
  have hhaving := h.having i slot hslot hge
  rw [Globals.uheapTransactionIdDidCommit, decide_eq_true_iff]
  simp only [firstNormalTransactionId, frozenTransactionId] at *
  constructor
  . rintro (heq | hlt | hcommitted)
    . omega
    . omega
    . exact hcommitted
  . intro hcommitted
    exact Or.inr (Or.inr hcommitted)

theorem ZoneInv.drop_eq (h : zone.slots[slotPtr]? = some slot)
    : zone.slots.drop slotPtr = slot :: zone.slots.drop (slotPtr + 1) := by
  obtain ⟨hlt, rfl⟩ := List.getElem?_eq_some_iff.1 h
  exact drop_eq_getElem_cons hlt

end Invariant

section AdvanceFrozenXid

structure FrozenOk (g : Globals) (zone : UndoZone) (oldestXmin : Nat) (f : Frozen) : Prop where
  slotPtr_le : f.oldestFrozenSlotPtr ≤ zone.slots.length
  slotPtr_ge : zone.frozenEnd ≤ max f.oldestFrozenSlotPtr zone.recycleTSlotPtr
  xid_le : f.oldestFrozenXid ≤ oldestXmin
  xid_ne : f.oldestFrozenXid ≠ invalidTransactionId
  settled : ∀ i slot, zone.slots[i]? = some slot →
    i < max f.oldestFrozenSlotPtr zone.recycleTSlotPtr → Settled g slot
  later : ∀ i slot, zone.slots[i]? = some slot →
    max f.oldestFrozenSlotPtr zone.recycleTSlotPtr ≤ i → f.oldestFrozenXid ≤ slot.xactId

variable {g : Globals} {zone : UndoZone} {oldestXmin : Nat}

variable (h : ZoneInv g zone)
include h

theorem frozenOk_of_stop {currentSlotPtr : Nat} {xid frozenXid : Nat}
    (hptr : max slotPtr zone.recycleTSlotPtr = currentSlotPtr) (hle : currentSlotPtr ≤ zone.slots.length)
    (hge : zone.frozenEnd ≤ currentSlotPtr) (hxid : xid ≤ oldestXmin) (hne : xid ≠ invalidTransactionId)
    (hsettled : ∀ i slot, zone.slots[i]? = some slot → i < currentSlotPtr → Settled g slot)
    (hnext : ∀ slot, zone.slots[currentSlotPtr]? = some slot → xid ≤ slot.xactId)
    : FrozenOk g zone oldestXmin ⟨xid, slotPtr, frozenXid⟩ := by
  subst hptr
  refine ⟨(Nat.le_max_left _ _).trans hle, hge, hxid, hne, hsettled, ?_⟩
  intro i slot hslot hlater
  obtain ⟨hi, _⟩ := List.getElem?_eq_some_iff.1 hslot
  have hget := getElem?_eq_getElem (Nat.lt_of_le_of_lt hlater hi)
  exact (hnext _ hget).trans (h.xactId_le hget hslot hlater)

variable (hne : oldestXmin ≠ invalidTransactionId)
include hne

variable (hxmin : ∀ xid, g.status xid = .inProgress → oldestXmin ≤ xid)
include hxmin

theorem advanceLoop_spec (n : Nat)
    : ∀ currentSlotPtr slotPtr frozenXid, n + currentSlotPtr = zone.slots.length →
        max slotPtr zone.recycleTSlotPtr = currentSlotPtr → zone.frozenEnd ≤ currentSlotPtr →
        (∀ i slot, zone.slots[i]? = some slot → i < currentSlotPtr → Settled g slot) →
        ∃ f, advanceLoop g zone oldestXmin n currentSlotPtr ⟨oldestXmin, slotPtr, frozenXid⟩ = some f
          ∧ FrozenOk g zone oldestXmin f := by
  induction n with
  | zero =>
    intro currentSlotPtr slotPtr frozenXid hn hptr hfrozen hsettled
    refine ⟨_, rfl, frozenOk_of_stop h hptr (by omega) hfrozen (Nat.le_refl _) hne hsettled ?_⟩
    intro slot hslot
    obtain ⟨hlt, _⟩ := List.getElem?_eq_some_iff.1 hslot
    omega
  | succ n ih =>
    intro currentSlotPtr slotPtr frozenXid hn hptr hfrozen hsettled
    have hlt : currentSlotPtr < zone.slots.length := by omega
    have hget := getElem?_eq_getElem hlt
    generalize zone.slots[currentSlotPtr] = slot at hget
    have hge : zone.recycleTSlotPtr ≤ currentSlotPtr := by omega
    have hglobal := h.frozen _ _ hget hfrozen
    rw [advanceLoop, fetchTransactionSlot_eq hget]
    simp only [if_neg (h.xactId_ne hget), if_neg (Nat.not_lt.2 hglobal), bind_some]
    have hcurrent (xid : Nat) (hle : xid ≤ slot.xactId) (slot' : TransactionSlot)
        (hslot' : zone.slots[currentSlotPtr]? = some slot') : xid ≤ slot'.xactId := by
      rw [hget, some_inj] at hslot'
      rwa [← hslot']
    split
    . next hopen =>
      have hprogress := h.unfinished slot (mem_of_getElem? hget) hopen
      refine ⟨_, rfl, frozenOk_of_stop h hptr hlt.le hfrozen (Nat.le_refl _) hne hsettled ?_⟩
      exact hcurrent _ (hxmin _ hprogress)
    . next hstart =>
      split
      . next hroll =>
        refine ⟨_, rfl, frozenOk_of_stop h (by omega) hlt.le hfrozen hroll.2.1.le
            (h.xactId_ne hget) hsettled ?_⟩
        exact hcurrent _ (Nat.le_refl _)
      . next hnoroll =>
        split
        . next hxid =>
          refine ⟨_, rfl, frozenOk_of_stop h (by omega) hlt.le hfrozen (Nat.le_refl _) hne hsettled ?_⟩
          exact hcurrent _ hxid
        . next hxid =>
          apply ih (currentSlotPtr + 1) (currentSlotPtr + 1) slot.xactId (by omega) (by omega) (by omega)
          intro i slot' hslot' hi
          by_cases heq : i = currentSlotPtr
          . subst heq
            rw [hget, some_inj] at hslot'
            subst hslot'
            refine ⟨hstart, ?_, ?_⟩
            . intro hprogress
              exact hxid (hxmin _ hprogress)
            . by_contra hneither
              rw [not_or] at hneither
              apply hnoroll
              have hcommit : g.uheapTransactionIdDidCommit slot.xactId ≠ true :=
                fun hcommit => hneither.1 ((h.didCommit_iff hget hge).1 hcommit)
              refine ⟨by simpa using hcommit, by omega, ?_⟩
              rw [TransactionSlot.needRollback]
              simpa using hneither.2
          . exact hsettled i slot' hslot' (by omega)

theorem advanceFrozenXid_spec
    : ∃ f, advanceFrozenXid g zone oldestXmin = some f ∧ FrozenOk g zone oldestXmin f := by
  have hcurrent : (if zone.frozenSlotPtr > zone.recycleTSlotPtr then zone.frozenSlotPtr
      else zone.recycleTSlotPtr) = zone.frozenEnd := by
    rw [UndoZone.frozenEnd]
    split
    . omega
    . omega
  have hle : zone.frozenEnd ≤ zone.slots.length := Nat.max_le.2 ⟨h.frozen_le, h.recycle_le⟩
  rw [advanceFrozenXid]
  simp only [hcurrent, h.checkUndoZoneMeta_eq]
  exact advanceLoop_spec h hne hxmin _ _ _ _ (Nat.sub_add_cancel hle) rfl (Nat.le_refl _) h.settled

end AdvanceFrozenXid

section Scan

structure LimitsOk (g : Globals) (zone : UndoZone) (l : Limits) : Prop where
  recycleXmin_ne : l.recycleXmin ≠ invalidTransactionId
  frozenXid_ne : l.frozenXid ≠ invalidTransactionId
  recycleXmin_le : ∀ xid, g.status xid = .inProgress → l.recycleXmin ≤ xid
  later : ∀ i slot, zone.slots[i]? = some slot → zone.frozenEnd ≤ i → l.frozenXid ≤ slot.xactId

structure ScanOk (g : Globals) (zone : UndoZone) (sc : Scan) : Prop where
  ge : zone.recycleTSlotPtr ≤ sc.recyclePtr
  le : sc.recyclePtr ≤ zone.slots.length
  settled : ∀ i slot, zone.slots[i]? = some slot → i < sc.recyclePtr → Settled g slot
  fresh : sc.undoRecycled = false →
    sc.recyclePtr = zone.recycleTSlotPtr ∧ sc.startUndoPtr = invalidUndoRecPtr
  chain : sc.undoRecycled = true → sc.startUndoPtr = zone.forceDiscardURecPtr
    ∧ zone.forceDiscardURecPtr < sc.endUndoPtr
    ∧ Chain sc.endUndoPtr ((zone.slots.drop sc.recyclePtr).map range) zone.insertURecPtr
  ends : sc.undoRecycled = true → ∀ i slot, zone.slots[i]? = some slot → i < sc.recyclePtr →
    slot.endUndoPtr ≤ sc.endUndoPtr
  last : sc.undoRecycled = true → sc.recycleXid ≠ invalidTransactionId
    ∧ ∀ i slot, zone.slots[i]? = some slot → sc.recyclePtr ≤ i → sc.recycleXid ≤ slot.xactId
  oldest : sc.oldestEndUndoPtr ≠ invalidUndoRecPtr → zone.discardURecPtr ≤ sc.oldestEndUndoPtr
    ∧ sc.oldestEndUndoPtr
      ≤ if sc.undoRecycled = true then sc.endUndoPtr else zone.forceDiscardURecPtr

variable {g : Globals} {zone : UndoZone} {l : Limits} {sc : Scan}

section

variable (h : ZoneInv g zone)
include h

theorem ZoneInv.forceDiscard_pos : 0 < zone.forceDiscardURecPtr :=
  Nat.lt_of_lt_of_le h.discard_pos h.discard_le

theorem ScanOk.rest (hsc : ScanOk g zone sc)
    : Chain (if sc.undoRecycled = true then sc.endUndoPtr else zone.forceDiscardURecPtr)
        ((zone.slots.drop sc.recyclePtr).map range) zone.insertURecPtr := by
  split
  . next hdone => exact (hsc.chain hdone).2.2
  . next hnot =>
    rw [(hsc.fresh (by simpa using hnot)).1]
    exact h.chain

theorem ScanOk.recycleSlot (hsc : ScanOk g zone sc)
    (hget : zone.slots[sc.recyclePtr]? = some slot) (hsettled : Settled g slot) (force : Bool)
    : ScanOk g zone (sc.recycleSlot slot force) := by
  have hrest := hsc.rest h
  rw [ZoneInv.drop_eq hget, map_cons] at hrest
  obtain ⟨hlt, _⟩ := List.getElem?_eq_some_iff.1 hget
  have hbound : zone.forceDiscardURecPtr
      ≤ if sc.undoRecycled = true then sc.endUndoPtr else zone.forceDiscardURecPtr := by
    split
    . next hdone => exact (hsc.chain hdone).2.1.le
    . exact Nat.le_refl _
  obtain ⟨hopen, _, _⟩ | ⟨hstart, hend, hchain⟩ := hrest
  . exact absurd hopen hsettled.start
  refine ⟨Nat.le_succ_of_le hsc.ge, hlt, ?_, ?_, ?_, ?_, ?_, ?_⟩
  . intro i slot' hslot' hi
    have hi : i < sc.recyclePtr + 1 := hi
    by_cases heq : i = sc.recyclePtr
    . rw [heq, hget, some_inj] at hslot'
      rwa [← hslot']
    . exact hsc.settled i slot' hslot' (by omega)
  . intro hfresh
    cases hfresh
  . intro _
    refine ⟨?_, Nat.lt_of_le_of_lt hbound hend, hchain⟩
    simp only [Scan.recycleSlot]
    split
    . next hzero =>
      have hstart' : slot.startUndoPtr = _ := hstart
      rw [hstart']
      split
      . next hdone =>
        have hpos := h.forceDiscard_pos
        rw [(hsc.chain hdone).1] at hzero
        exact absurd hzero (Nat.ne_of_gt hpos)
      . rfl
    . next hzero =>
      cases hdone : sc.undoRecycled with
      | true => exact (hsc.chain hdone).1
      | false => exact absurd (hsc.fresh hdone).2 hzero
  . intro _ i slot' hslot' hi
    have hi : i < sc.recyclePtr + 1 := hi
    rw [Scan.recycleSlot]
    by_cases heq : i = sc.recyclePtr
    . rw [heq, hget, some_inj] at hslot'
      rw [hslot']
    . have hbefore : slot'.endUndoPtr
          ≤ if sc.undoRecycled = true then sc.endUndoPtr else zone.forceDiscardURecPtr := by
        split
        . next hdone => exact hsc.ends hdone i slot' hslot' (by omega)
        . next hnot =>
          have hfresh := (hsc.fresh (by simpa using hnot)).1
          exact h.recycled i slot' hslot' (by omega)
      exact hbefore.trans hend.le
  . intro _
    refine ⟨h.xactId_ne hget, ?_⟩
    intro i slot' hslot' hi
    have hi : sc.recyclePtr + 1 ≤ i := hi
    exact h.xactId_le hget hslot' (by omega)
  . intro hoff
    simp only [Scan.recycleSlot, if_true] at hoff ⊢
    split
    . next hforce =>
      rw [if_pos hforce] at hoff
      have holdest := hsc.oldest hoff
      exact ⟨holdest.1, holdest.2.trans hend.le⟩
    . exact ⟨(h.discard_le.trans hbound).trans hend.le, Nat.le_refl _⟩

theorem verdict_spec (hl : LimitsOk g zone l)
    (hget : zone.slots[i]? = some slot) (hge : zone.recycleTSlotPtr ≤ i)
    (hstart : slot.startUndoPtr ≠ invalidUndoRecPtr)
    : (verdict g l slot ≠ .keep → Settled g slot)
        ∧ (verdict g l slot = .keep → min l.recycleXmin l.frozenXid ≤ slot.xactId) := by
  rw [verdict]
  split
  . next hxmin =>
    split
    . next hfrozen => exact ⟨fun hne => absurd rfl hne, fun _ => (Nat.min_le_right _ _).trans hfrozen⟩
    . next hfrozen =>
      refine ⟨fun _ => ?_, fun heq => by cases heq⟩
      apply h.settled i slot hget
      by_contra hlater
      exact hfrozen (hl.later i slot hget (by omega))
  . next hxmin =>
    have hbound : min l.recycleXmin l.frozenXid ≤ slot.xactId :=
      (Nat.min_le_left _ _).trans (by omega)
    split
    . exact ⟨fun hne => absurd rfl hne, fun _ => hbound⟩
    . split
      . exact ⟨fun hne => absurd rfl hne, fun _ => hbound⟩
      . next hprogress =>
        split
        . exact ⟨fun hne => absurd rfl hne, fun _ => hbound⟩
        . next hroll =>
          refine ⟨fun _ => ⟨hstart, ?_, ?_⟩, fun heq => by cases heq⟩
          . intro hstatus
            apply hprogress
            rw [Globals.transactionIdIsInProgress, decide_eq_true_iff]
            exact hstatus
          . by_contra hneither
            rw [not_or] at hneither
            apply hroll
            have hcommit : g.uheapTransactionIdDidCommit slot.xactId ≠ true :=
              fun hcommit => hneither.1 ((h.didCommit_iff hget hge).1 hcommit)
            refine ⟨by simpa using hcommit, ?_⟩
            rw [TransactionSlot.needRollback]
            simpa using hneither.2

end

def Stopped (zone : UndoZone) (l : Limits) (slotPtr : Nat) : Prop :=
  ∀ i slot, zone.slots[i]? = some slot → slotPtr ≤ i → min l.recycleXmin l.frozenXid ≤ slot.xactId

theorem stopped_of_first (h : ZoneInv g zone)
    (hget : zone.slots[slotPtr]? = some slot) (hle : min l.recycleXmin l.frozenXid ≤ slot.xactId)
    : Stopped zone l slotPtr := by
  intro i slot' hslot' hi
  exact hle.trans (h.xactId_le hget hslot' hi)

abbrev Scanned (g : Globals) (l : Limits) (zone : UndoZone) (block : Nat) (sc sc' : Scan) : Prop :=
  ScanOk g zone sc' ∧ sc.recyclePtr ≤ sc'.recyclePtr
    ∧ (sc.undoRecycled = true → sc'.undoRecycled = true)
    ∧ (sc'.undoRecycled = true → sc.undoRecycled = true ∨ sc.recyclePtr < sc'.recyclePtr)
    ∧ (sc'.undoRecycled = false → sc.recyclePtr / slotsPerBlock = block → Stopped zone l sc'.recyclePtr)

theorem scanBlock_spec (h : ZoneInv g zone) (hl : LimitsOk g zone l) (block n : Nat)
    : ∀ sc, ScanOk g zone sc → n + sc.recyclePtr = zone.slots.length →
        ∃ sc', scanBlock g l zone block n sc = some sc' ∧ Scanned g l zone block sc sc' := by
  induction n with
  | zero =>
    intro sc hsc hn
    refine ⟨sc, rfl, hsc, Nat.le_refl _, id, Or.inl, ?_⟩
    intro _ _ i slot hslot hi
    obtain ⟨hlt, _⟩ := List.getElem?_eq_some_iff.1 hslot
    omega
  | succ n ih =>
    intro sc hsc hn
    rw [scanBlock]
    by_cases hblock : sc.recyclePtr / slotsPerBlock ≠ block
    . rw [if_pos hblock]
      exact ⟨sc, rfl, hsc, Nat.le_refl _, id, Or.inl, fun _ heq => absurd heq hblock⟩
    . rw [if_neg hblock]
      have hlt : sc.recyclePtr < zone.slots.length := by omega
      have hget := getElem?_eq_getElem hlt
      generalize zone.slots[sc.recyclePtr] = slot at hget
      have hhaving := h.having _ _ hget hsc.ge
      rw [fetchTransactionSlot_eq hget]
      simp only [if_neg (h.xactId_ne hget), if_neg (Nat.not_lt.2 hhaving), bind_some]
      split
      . next hopen =>
        have hprogress := h.unfinished slot (mem_of_getElem? hget) hopen
        refine ⟨sc, rfl, hsc, Nat.le_refl _, id, Or.inl, fun _ _ => ?_⟩
        exact stopped_of_first h hget ((Nat.min_le_left _ _).trans (hl.recycleXmin_le _ hprogress))
      . next hstart =>
        obtain ⟨htake, hkeep⟩ := verdict_spec h hl hget hsc.ge hstart
        have hgo (force : Bool) (hne : verdict g l slot ≠ .keep) :
            ∃ sc', scanBlock g l zone block n (sc.recycleSlot slot force) = some sc'
              ∧ Scanned g l zone block sc sc' := by
          obtain ⟨sc', hrun, hsc', hle, hmono, _, _⟩ := ih (sc.recycleSlot slot force)
            (hsc.recycleSlot h hget (htake hne) force) (by
              have hnext : (sc.recycleSlot slot force).recyclePtr = sc.recyclePtr + 1 := rfl
              omega)
          have hdone := hmono rfl
          refine ⟨sc', hrun, hsc', (Nat.le_succ _).trans hle, fun _ => hdone, fun _ => Or.inr hle, ?_⟩
          intro hnot
          rw [hdone] at hnot
          cases hnot
        cases hverdict : verdict g l slot with
        | keep =>
          refine ⟨sc, rfl, hsc, Nat.le_refl _, id, Or.inl, fun _ _ => ?_⟩
          exact stopped_of_first h hget (hkeep hverdict)
        | recycle => exact hgo false (by rw [hverdict]; exact fun heq => by cases heq)
        | force => exact hgo true (by rw [hverdict]; exact fun heq => by cases heq)

end Scan

section Loop

variable {g : Globals} {l : Limits}

theorem ScanOk.checkRecycle {sc : Scan} (h : ZoneInv g zone)
    (hsc : ScanOk g zone sc) (hdone : sc.undoRecycled = true)
    : zone.checkRecycle sc.startUndoPtr sc.endUndoPtr = true := by
  obtain ⟨hstart, hlt, hchain⟩ := hsc.chain hdone
  rw [UndoZone.checkRecycle, decide_eq_true_iff]
  exact ⟨h.forceDiscard_le, hchain.le, by rwa [hstart], hstart⟩

theorem ScanOk.discard {sc : Scan} (h : ZoneInv g zone) (hsc : ScanOk g zone sc)
    (hdone : sc.undoRecycled = true)
    : ZoneInv g (zone.discard sc) ∧ PointersLe zone (zone.discard sc) := by
  obtain ⟨_, hlt, hchain⟩ := hsc.chain hdone
  have hdiscard : zone.discardURecPtr ≤ (zone.discard sc).discardURecPtr
      ∧ (zone.discard sc).discardURecPtr ≤ sc.endUndoPtr := by
    rw [UndoZone.discard]
    split
    . next hne =>
      have holdest := hsc.oldest hne
      rwa [if_pos hdone] at holdest
    . exact ⟨Nat.le_refl _, h.discard_le.trans hlt.le⟩
  have hfrozen : zone.frozenEnd ≤ (zone.discard sc).frozenEnd := by
    have hge := hsc.ge
    simp only [UndoZone.frozenEnd, UndoZone.discard]
    omega
  constructor
  . refine ⟨hsc.le, h.frozen_le, h.ascending, h.normal, h.assigned, h.unfinished, hchain,
      Nat.lt_of_lt_of_le h.discard_pos hdiscard.1, hdiscard.2, h.header, ?_, hsc.ends hdone, ?_, ?_⟩
    . intro i slot hslot hi
      by_cases hold : i < zone.frozenEnd
      . exact h.settled i slot hslot hold
      . apply hsc.settled i slot hslot
        simp only [UndoZone.frozenEnd, UndoZone.discard] at hi hold
        omega
    . intro i slot hslot hi
      exact h.frozen i slot hslot (hfrozen.trans hi)
    . intro i slot hslot hi
      exact h.having i slot hslot (hsc.ge.trans hi)
  . exact ⟨Nat.le_refl _, hdiscard.1, hlt.le, hsc.ge, Nat.le_refl _⟩

def Bounded (l : Limits) (r : Recycled) : Prop :=
  ∀ bound, bound ≤ l.recycleXmin → bound ≤ r.oldestRecycleXid →
    ∀ i slot, r.zone.slots[i]? = some slot → r.zone.recycleTSlotPtr ≤ i → bound ≤ slot.xactId

structure RecycledOk (g : Globals) (l : Limits) (zone : UndoZone) (r : Recycled) : Prop where
  inv : ZoneInv g r.zone
  le : PointersLe zone r.zone
  slots : r.zone.slots = zone.slots
  frozen : r.zone.frozenSlotPtr = zone.frozenSlotPtr
  ne : r.oldestRecycleXid ≠ invalidTransactionId

theorem recycleLoop_spec (zone : UndoZone) (n : Nat)
    : ∀ sc r, RecycledOk g l zone r → LimitsOk g r.zone l → sc.recyclePtr = r.zone.recycleTSlotPtr →
        r.zone.slots.length - sc.recyclePtr ≤ n →
        (sc.oldestEndUndoPtr ≠ invalidUndoRecPtr → r.zone.discardURecPtr ≤ sc.oldestEndUndoPtr
          ∧ sc.oldestEndUndoPtr ≤ r.zone.forceDiscardURecPtr) →
        (Bounded l r ∨ r.oldestRecycleXid = min l.recycleXmin l.frozenXid) →
        ∃ r', recycleLoop g l zone.slots.length n sc r = some r' ∧ RecycledOk g l zone r'
          ∧ Bounded l r' := by
  induction n with
  | zero =>
    intro sc r hr hl hptr hn hoff hbound
    refine ⟨r, rfl, hr, ?_⟩
    intro bound _ _ i slot hslot hi
    obtain ⟨hlt, _⟩ := List.getElem?_eq_some_iff.1 hslot
    omega
  | succ n ih =>
    intro sc r hr hl hptr hn hoff hbound
    rw [recycleLoop]
    by_cases hlt : sc.recyclePtr < zone.slots.length
    . rw [if_pos hlt, ← hr.slots]
      have hsc : ScanOk g r.zone { sc with startUndoPtr := invalidUndoRecPtr, undoRecycled := false } := by
        have hle := hr.inv.recycle_le
        refine ⟨Nat.le_of_eq hptr.symm, ?_, ?_, fun _ => ⟨hptr, rfl⟩, ?_, ?_, ?_, ?_⟩
        . rw [hr.slots]
          exact hlt.le
        . intro i slot hslot hi
          apply hr.inv.settled i slot hslot
          simp only [hptr] at hi
          exact Nat.lt_of_lt_of_le hi (Nat.le_max_right _ _)
        . intro hdone
          cases hdone
        . intro hdone
          cases hdone
        . intro hdone
          cases hdone
        . intro hne
          rw [if_neg (fun hdone => by cases hdone)]
          exact hoff hne
      obtain ⟨sc', hrun, hsc', _, _, hmore, hstopped⟩ := scanBlock_spec hr.inv hl
        (sc.recyclePtr / slotsPerBlock) (r.zone.slots.length - sc.recyclePtr) _ hsc
        (Nat.sub_add_cancel (by rw [hr.slots]; exact hlt.le))
      rw [hrun, bind_some]
      cases hdone : sc'.undoRecycled with
      | false =>
        refine ⟨r, rfl, hr, ?_⟩
        cases hbound with
        | inl hbounded => exact hbounded
        | inr hmin =>
          intro bound hxmin holdest i slot hslot hi
          have hfirst := hstopped hdone rfl i slot hslot (by rw [(hsc'.fresh hdone).1]; exact hi)
          rw [hmin] at holdest
          exact holdest.trans hfirst
      | true =>
        obtain ⟨hinv, hpointers⟩ := hsc'.discard hr.inv hdone
        rw [if_pos rfl, if_pos (hsc'.checkRecycle hr.inv hdone), hr.slots]
        have hprogress : sc.recyclePtr < sc'.recyclePtr :=
          (hmore hdone).resolve_left (fun hfalse => by cases hfalse)
        apply ih sc' ⟨r.zone.discard sc', true, sc'.recycleXid⟩
        . exact ⟨hinv, hr.le.trans hpointers, hr.slots, hr.frozen, (hsc'.last hdone).1⟩
        . refine { hl with later := ?_ }
          intro i slot hslot hi
          apply hl.later i slot hslot
          have hge := hsc'.ge
          simp only [UndoZone.frozenEnd, UndoZone.discard] at hi ⊢
          omega
        . rfl
        . have hslots : (r.zone.discard sc').slots.length = r.zone.slots.length := rfl
          rw [hslots]
          omega
        . intro hne
          have hdiscard := hinv.discard_le
          simp only [UndoZone.discard, if_pos hne] at hdiscard ⊢
          exact ⟨Nat.le_refl _, hdiscard⟩
        . left
          intro bound _ hle' i slot hslot hi
          exact hle'.trans ((hsc'.last hdone).2 i slot hslot hi)
    . rw [if_neg hlt]
      refine ⟨r, rfl, hr, ?_⟩
      intro bound _ _ i slot hslot hi
      obtain ⟨hless, _⟩ := List.getElem?_eq_some_iff.1 hslot
      rw [hr.slots] at hless
      omega

theorem recycleUndoSpace_spec (h : ZoneInv g zone) (hl : LimitsOk g zone l)
    : ∃ r, recycleUndoSpace g l zone = some r ∧ RecycledOk g l zone r ∧ Bounded l r := by
  have hmin : (if l.recycleXmin < l.frozenXid then l.recycleXmin else l.frozenXid)
      = min l.recycleXmin l.frozenXid := by
    split
    . omega
    . omega
  rw [recycleUndoSpace]
  simp only [h.checkUndoZoneMeta_eq, hmin]
  apply recycleLoop_spec
  . refine ⟨h, PointersLe.refl zone, rfl, rfl, ?_⟩
    intro hzero
    have hxmin := hl.recycleXmin_ne
    have hfrozen := hl.frozenXid_ne
    simp only [invalidTransactionId] at *
    omega
  . exact hl
  . rfl
  . exact Nat.le_refl _
  . intro hne
    exact absurd rfl hne
  . exact Or.inr rfl

end Loop

section Visit

structure PassOk (g : Globals) (p : Pass) : Prop where
  recycleXmin_ne : p.recycleXmin ≠ invalidTransactionId
  recycleXmin_le : p.recycleXmin ≤ p.oldestXmin
  oldestXmin_le : ∀ xid, g.status xid = .inProgress → p.oldestXmin ≤ xid
  next_le : p.oldestXmin ≤ g.nextXid
  frozen_le : p.oldestFrozenXidInUndo ≤ p.oldestXmin
  recycled_ne : ∀ xid ∈ p.recycleMaxXIDs, xid ≠ invalidTransactionId

structure Visited (p : Pass) (zone : UndoZone) : Prop where
  frozen : ∀ i slot, zone.slots[i]? = some slot → zone.frozenEnd ≤ i →
    p.oldestFrozenXidInUndo ≤ slot.xactId
  having : ∀ bound, bound ≤ p.recycleXmin → (∀ xid ∈ p.recycleMaxXIDs, bound ≤ xid) →
    ∀ i slot, zone.slots[i]? = some slot → zone.recycleTSlotPtr ≤ i → bound ≤ slot.xactId

structure PassLe (p p' : Pass) : Prop where
  idx : p'.idx = p.idx + 1
  oldestXmin : p'.oldestXmin = p.oldestXmin
  recycleXmin : p'.recycleXmin = p.recycleXmin
  frozen : p'.oldestFrozenXidInUndo ≤ p.oldestFrozenXidInUndo
  recycled : ∀ xid ∈ p.recycleMaxXIDs, xid ∈ p'.recycleMaxXIDs

theorem Visited.mono {p p' : Pass} (h : Visited p zone) (hle : PassLe p p')
    : Visited p' zone := by
  refine ⟨?_, ?_⟩
  . intro i slot hslot hi
    exact hle.frozen.trans (h.frozen i slot hslot hi)
  . intro bound hxmin hrecycled i slot hslot hi
    rw [hle.recycleXmin] at hxmin
    exact h.having bound hxmin (fun xid hmem => hrecycled xid (hle.recycled xid hmem)) i slot hslot hi

variable {g : Globals} {p : Pass} {zone : UndoZone}

variable (h : ZoneInv g zone)
include h

theorem ZoneInv.inProgress_of_not_used (hused : zone.used = false)
    (hslot : zone.slots[i]? = some slot) (hi : zone.recycleTSlotPtr ≤ i)
    : g.status slot.xactId = .inProgress := by
  have hinsert : zone.insertURecPtr = zone.forceDiscardURecPtr := by simpa [UndoZone.used] using hused
  have hmem : slot ∈ zone.slots.drop zone.recycleTSlotPtr := by
    apply mem_of_getElem? (i := i - zone.recycleTSlotPtr)
    rw [getElem?_drop, Nat.add_sub_cancel' hi]
    exact hslot
  apply h.unfinished slot (mem_of_getElem? hslot)
  have hchain := h.chain
  rw [hinsert] at hchain
  generalize zone.slots.drop zone.recycleTSlotPtr = rest at hchain hmem
  cases rest with
  | nil => cases hmem
  | cons first rest =>
    obtain ⟨hopen, hnil, _⟩ | ⟨_, hlt, hrest⟩ := hchain
    . rw [map_eq_nil_iff] at hnil
      rw [hnil, mem_singleton] at hmem
      rw [hmem]
      exact hopen
    . have hle := hrest.le
      omega

theorem ZoneInv.setFrozenXid (frozenXid : Nat) : ZoneInv g { zone with frozenXid } :=
  { h with }

theorem ZoneInv.setFrozen {oldestXmin : Nat} {f : Frozen} (hf : FrozenOk g zone oldestXmin f)
    : ZoneInv g { zone with frozenXid := f.frozenXid, frozenSlotPtr := f.oldestFrozenSlotPtr } := by
  refine { h with frozen_le := hf.slotPtr_le, settled := hf.settled, frozen := ?_ }
  intro i slot hslot hi
  exact h.frozen i slot hslot (hf.slotPtr_ge.trans hi)

theorem recycleZone_spec (hp : PassOk g p)
    : ∃ zone' p', recycleZone g p zone = some (zone', p') ∧ ZoneInv g zone' ∧ PointersLe zone zone'
        ∧ PassOk g p' ∧ PassLe p p' ∧ Visited p' zone' := by
  rw [recycleZone]
  by_cases hused : zone.used = true
  . rw [if_pos hused]
    generalize hzone1 : (if zone.frozenXid = invalidTransactionId then
      { zone with frozenXid := g.globalFrozenXid } else zone) = zone1
    obtain ⟨hinv1, hle1⟩ : ZoneInv g zone1 ∧ PointersLe zone zone1 := by
      rw [← hzone1]
      split
      . exact ⟨h.setFrozenXid _, Nat.le_refl _, Nat.le_refl _, Nat.le_refl _, Nat.le_refl _, Nat.le_refl _⟩
      . exact ⟨h, PointersLe.refl zone⟩
    have hxmin_ne : p.oldestXmin ≠ invalidTransactionId := by
      have hne := hp.recycleXmin_ne
      have hle := hp.recycleXmin_le
      simp only [invalidTransactionId] at *
      omega
    obtain ⟨f, hadvance, hf⟩ := advanceFrozenXid_spec hinv1 hxmin_ne hp.oldestXmin_le
    simp only [hadvance, bind_some]
    have hinv2 := hinv1.setFrozen hf
    have hlimits : LimitsOk g
        { zone1 with frozenXid := f.frozenXid, frozenSlotPtr := f.oldestFrozenSlotPtr }
        ⟨p.recycleXmin, f.oldestFrozenXid, p.forceRecycleXid⟩ :=
      ⟨hp.recycleXmin_ne, hf.xid_ne, fun xid hxid => hp.recycleXmin_le.trans (hp.oldestXmin_le xid hxid),
        hf.later⟩
    obtain ⟨r, hrun, hr, hbounded⟩ := recycleUndoSpace_spec hinv2 hlimits
    rw [hrun, map_some]
    have hle2 : PointersLe zone1 r.zone := ⟨hr.le.insert, hr.le.discard, hr.le.forceDiscard,
      hr.le.recycleTSlot, hr.le.allocateTSlot⟩
    refine ⟨r.zone, _, rfl, hr.inv, hle1.trans hle2, ?_, ?_, ?_⟩
    . refine { hp with frozen_le := ?_, recycled_ne := ?_ }
      . simp only
        split
        . exact hf.xid_le
        . exact hp.frozen_le
      . intro xid hmem
        simp only [updateRecycledXid, if_pos hr.ne, mem_append, mem_singleton] at hmem
        cases hmem with
        | inl hold => exact hp.recycled_ne xid hold
        | inr heq =>
          rw [heq]
          exact hr.ne
    . refine ⟨rfl, rfl, rfl, ?_, ?_⟩
      . simp only
        split
        . next hlt => exact hlt.le
        . exact Nat.le_refl _
      . intro xid hmem
        simp only [updateRecycledXid, if_pos hr.ne, mem_append]
        exact Or.inl hmem
    . refine ⟨?_, ?_⟩
      . intro i slot hslot hi
        have hfrozen : f.oldestFrozenXid ≤ slot.xactId := by
          rw [hr.slots] at hslot
          apply hf.later i slot hslot
          have hle := hle2.recycleTSlot
          rw [UndoZone.frozenEnd, hr.frozen] at hi
          simp only at hi
          omega
        simp only
        split
        . exact hfrozen
        . next hlt => exact (Nat.le_of_not_lt hlt).trans hfrozen
      . intro bound hxmin hrecycled i slot hslot hi
        apply hbounded bound hxmin _ i slot hslot hi
        apply hrecycled
        simp only [updateRecycledXid, if_pos hr.ne, mem_append, mem_singleton]
        exact Or.inr trivial
  . rw [if_neg hused]
    have hnot : zone.used = false := by simpa using hused
    refine ⟨zone, _, rfl, h, PointersLe.refl zone, ?_, ?_, ?_⟩
    . exact { hp with }
    . exact ⟨rfl, rfl, rfl, Nat.le_refl _, fun _ hmem => hmem⟩
    . refine ⟨?_, ?_⟩
      . intro i slot hslot hi
        have hge : zone.recycleTSlotPtr ≤ i := (Nat.le_max_right _ _).trans hi
        exact hp.frozen_le.trans (hp.oldestXmin_le _ (h.inProgress_of_not_used hnot hslot hge))
      . intro bound hxmin _ i slot hslot hi
        exact (hxmin.trans hp.recycleXmin_le).trans
          (hp.oldestXmin_le _ (h.inProgress_of_not_used hnot hslot hi))

end Visit

end UndoRecycle

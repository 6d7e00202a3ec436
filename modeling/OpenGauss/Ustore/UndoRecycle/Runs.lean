import OpenGauss.Ustore.UndoRecycle.Recycle

/-!
This module contains the steps of transactions and of the recycler, in any order.
-/

open List

namespace UndoRecycle

variable {zone : UndoZone} {slot : TransactionSlot} {s : State} {slots : List TransactionSlot}
variable {g : Globals} {slot' : TransactionSlot} {p : Pass} {zid i : Nat} {zone' : UndoZone}
variable {s' : State} {n : Nat}

section Steps

structure State where
  globals : Globals
  zones : Nat → Option UndoZone
  uZoneCount : Nat
  recycler : Option Pass

namespace State

def setZone (s : State) (zid : Nat) (zone : UndoZone) : State :=
  { s with zones := fun i => if i = zid then some zone else s.zones i }

def setStatus (s : State) (xid : Nat) (status : XactStatus) : State :=
  { s with globals :=
    { s.globals with status := fun i => if i = xid then status else s.globals.status i } }

def assignXid (s : State) : State :=
  let s' := s.setStatus s.globals.nextXid .inProgress
  { s' with globals := { s'.globals with nextXid := s.globals.nextXid + 1 } }

end State

namespace UndoZone

def allocTransactionSlot (zone : UndoZone) (xid : Nat) : UndoZone :=
  { zone with slots := zone.slots ++ [TransactionSlot.init xid] }

def updateTransactionSlot (zone : UndoZone) (slots : List TransactionSlot) (slot : TransactionSlot)
    (size : Nat) : UndoZone :=
  let insertURecPtr := undoLogOffsetPlusUsableBytes zone.insertURecPtr size
  { zone with insertURecPtr, slots := slots ++ [slot.update zone.insertURecPtr insertURecPtr] }

end UndoZone

variable (undoZoneCount : Nat)

-- A transaction does not end between the allocation of its slot and the first update of the slot:
-- both are in one critical section.
inductive Step : State → State → Prop where
  | assignXid (s : State) : Step s s.assignXid
  | allocateZone (s : State) (zid : Nat) (hlt : zid < undoZoneCount) (hfree : s.zones zid = none)
    : Step s { (s.setZone zid .initial) with uZoneCount := s.uZoneCount + 1 }
  | allocTransactionSlot (s : State) (zid : Nat) (zone : UndoZone) (xid : Nat)
    (hzone : s.zones zid = some zone) (hxid : s.globals.status xid = .inProgress)
    (hslots : ∀ slot ∈ zone.slots, slot.xactId < xid ∧ slot.startUndoPtr ≠ invalidUndoRecPtr)
    : Step s (s.setZone zid (zone.allocTransactionSlot xid))
  | updateTransactionSlot (s : State) (zid : Nat) (zone : UndoZone) (slots : List TransactionSlot)
    (slot : TransactionSlot) (size : Nat) (hzone : s.zones zid = some zone)
    (hslots : zone.slots = slots ++ [slot]) (hxid : s.globals.status slot.xactId = .inProgress)
    (hsize : 0 < size)
    : Step s (s.setZone zid (zone.updateTransactionSlot slots slot size))
  | finish (s : State) (xid : Nat) (status : XactStatus) (hxid : s.globals.status xid = .inProgress)
    (hstatus : status ≠ .inProgress)
    (hslots : ∀ zid zone, s.zones zid = some zone → ∀ slot ∈ zone.slots, slot.xactId = xid →
      slot.startUndoPtr ≠ invalidUndoRecPtr)
    : Step s (s.setStatus xid status)
  | updateRollbackFinish (s : State) (zid : Nat) (zone : UndoZone) (slotPtr : Nat)
    (slot slot' : TransactionSlot) (hzone : s.zones zid = some zone)
    (hslot : zone.slots[slotPtr]? = some slot) (hxid : s.globals.status slot.xactId = .aborted)
    (hslot' : s.globals.updateRollbackFinish slot = some slot')
    : Step s (s.setZone zid { zone with slots := zone.slots.set slotPtr slot' })
  | startPass (s : State) (oldestXmin recycleXmin forceRecycleXid : Nat) (hidle : s.recycler = none)
    (hoccupied : ∀ xid, s.globals.status xid = .inProgress → oldestXmin ≤ xid)
    (hnext : oldestXmin ≤ s.globals.nextXid) (hxmin : recycleXmin ≤ oldestXmin)
    (hvalid : recycleXmin ≠ invalidTransactionId) (hfrozen : s.globals.globalFrozenXid ≤ oldestXmin)
    : Step s { s with recycler := some (Pass.start oldestXmin recycleXmin forceRecycleXid) }
  | skipZone (s : State) (p : Pass) (hpass : s.recycler = some p) (hlt : p.idx < undoZoneCount)
    (hzone : s.zones p.idx = none)
    : Step s { s with recycler := some { p with idx := p.idx + 1 } }
  | recycleZone (s : State) (p p' : Pass) (zone zone' : UndoZone) (hpass : s.recycler = some p)
    (hlt : p.idx < undoZoneCount) (hzone : s.zones p.idx = some zone)
    (hrun : recycleZone s.globals p zone = some (zone', p'))
    : Step s { (s.setZone p.idx zone') with recycler := some p' }
  | retry (s : State) (p : Pass) (forceRecycleXid : Nat) (hpass : s.recycler = some p)
    (hend : p.idx = undoZoneCount)
    : Step s { s with
        globals := p.writeFrozenXid s.globals
        recycler := some (p.retry s.uZoneCount forceRecycleXid) }
  | endPass (s : State) (p : Pass) (hpass : s.recycler = some p) (hend : p.idx = undoZoneCount)
    : Step s { s with
        globals := p.writeRecycleXid s.uZoneCount (p.writeFrozenXid s.globals)
        recycler := none }
  | shutDown (s : State) : Step s { s with recycler := none }

structure Start (s : State) : Prop where
  zones : ∀ zid, s.zones zid = none
  idle : ∀ xid, s.globals.status xid ≠ .inProgress
  next : firstNormalTransactionId ≤ s.globals.nextXid
  frozen : s.globals.globalFrozenXid ≤ s.globals.nextXid
  recycle : s.globals.globalRecycleXid ≤ s.globals.nextXid
  recycler : s.recycler = none

def Reachable (s : State) : Prop := ∃ s₀, Start s₀ ∧ Relation.ReflTransGen (Step undoZoneCount) s₀ s

end Steps

section Invariant

structure Inv (undoZoneCount : Nat) (s : State) : Prop where
  zones : ∀ zid zone, s.zones zid = some zone → ZoneInv s.globals zone
  zids : ∀ zid zone, s.zones zid = some zone → zid < undoZoneCount
  count : s.uZoneCount = 0 → ∀ zid, s.zones zid = none
  running : ∀ xid, s.globals.status xid = .inProgress → firstNormalTransactionId ≤ xid
    ∧ xid < s.globals.nextXid ∧ s.globals.globalFrozenXid ≤ xid ∧ s.globals.globalRecycleXid ≤ xid
  next : firstNormalTransactionId ≤ s.globals.nextXid
  frozen : s.globals.globalFrozenXid ≤ s.globals.nextXid
  recycle : s.globals.globalRecycleXid ≤ s.globals.nextXid
  pass : ∀ p, s.recycler = some p → PassOk s.globals p ∧ p.idx ≤ undoZoneCount
    ∧ ∀ zid zone, zid < p.idx → s.zones zid = some zone → Visited p zone

variable {undoZoneCount : Nat}

theorem Start.inv (h : Start s) : Inv undoZoneCount s := by
  refine ⟨?_, ?_, fun _ => h.zones, ?_, h.next, h.frozen, h.recycle, ?_⟩
  . intro zid zone hzone
    rw [h.zones] at hzone
    cases hzone
  . intro zid zone hzone
    rw [h.zones] at hzone
    cases hzone
  . intro xid hxid
    exact absurd hxid (h.idle xid)
  . intro p hp
    rw [h.recycler] at hp
    cases hp

theorem setZone_cases (h : (s.setZone zid zone).zones i = some zone')
    : (i = zid ∧ zone' = zone) ∨ (i ≠ zid ∧ s.zones i = some zone') := by
  simp only [State.setZone] at h
  split at h
  . next heq =>
    rw [Option.some_inj] at h
    exact Or.inl ⟨heq, h.symm⟩
  . next hne => exact Or.inr ⟨hne, h⟩

theorem Inv.setZone (h : Inv undoZoneCount s)
    (hzid : zid < undoZoneCount) (hcount : s.uZoneCount ≠ 0) (hinv : ZoneInv s.globals zone)
    (hvisited : ∀ p, s.recycler = some p → zid < p.idx → Visited p zone)
    : Inv undoZoneCount (s.setZone zid zone) := by
  refine { h with zones := ?_, zids := ?_, count := fun hzero => absurd hzero hcount, pass := ?_ }
  . intro i zone' hzone'
    obtain ⟨_, rfl⟩ | ⟨_, hold⟩ := setZone_cases hzone'
    . exact hinv
    . exact h.zones i zone' hold
  . intro i zone' hzone'
    obtain ⟨rfl, _⟩ | ⟨_, hold⟩ := setZone_cases hzone'
    . exact hzid
    . exact h.zids i zone' hold
  . intro p hp
    obtain ⟨hok, hidx, hall⟩ := h.pass p hp
    refine ⟨hok, hidx, ?_⟩
    intro i zone' hi hzone'
    obtain ⟨rfl, rfl⟩ | ⟨_, hold⟩ := setZone_cases hzone'
    . exact hvisited p hp hi
    . exact hall i zone' hi hold

theorem getElem?_push {new : TransactionSlot} (h : (slots ++ [new])[i]? = some slot)
    : (i = slots.length ∧ slot = new) ∨ slots[i]? = some slot := by
  rw [getElem?_append] at h
  split at h
  . exact Or.inr h
  . next hge =>
    rw [getElem?_singleton] at h
    split at h
    . next hzero =>
      rw [Option.some_inj] at h
      exact Or.inl ⟨by omega, h.symm⟩
    . cases h

theorem ZoneInv.allocTransactionSlot (h : ZoneInv g zone) {xid : Nat}
    (hxid : g.status xid = .inProgress) (hnormal : firstNormalTransactionId ≤ xid) (hnext : xid < g.nextXid)
    (hfrozen : g.globalFrozenXid ≤ xid) (hrecycle : g.globalRecycleXid ≤ xid)
    (hslots : ∀ slot ∈ zone.slots, slot.xactId < xid ∧ slot.startUndoPtr ≠ invalidUndoRecPtr)
    : ZoneInv g (zone.allocTransactionSlot xid) := by
  have hend : zone.frozenEnd ≤ zone.slots.length := Nat.max_le.2 ⟨h.frozen_le, h.recycle_le⟩
  have hlen : (zone.allocTransactionSlot xid).slots.length = zone.slots.length + 1 := by
    rw [UndoZone.allocTransactionSlot, length_append, length_singleton]
  have hmem {slot : TransactionSlot} (hin : slot ∈ (zone.allocTransactionSlot xid).slots) :
      slot ∈ zone.slots ∨ slot = TransactionSlot.init xid := by
    rwa [UndoZone.allocTransactionSlot, mem_append, mem_singleton] at hin
  refine ⟨?_, ?_, ?_, ?_, ?_, ?_, ?_, h.discard_pos, h.discard_le, h.header, ?_, ?_, ?_, ?_⟩
  . rw [hlen]
    exact Nat.le_succ_of_le h.recycle_le
  . rw [hlen]
    exact Nat.le_succ_of_le h.frozen_le
  . rw [UndoZone.allocTransactionSlot, map_append, pairwise_append]
    refine ⟨h.ascending, pairwise_singleton _ _, ?_⟩
    intro a ha b hb
    obtain ⟨slot, hin, rfl⟩ := mem_map.1 ha
    rw [map_singleton, mem_singleton] at hb
    rw [hb]
    exact (hslots slot hin).1
  . intro slot hin
    cases hmem hin with
    | inl hold => exact h.normal slot hold
    | inr hnew =>
      rw [hnew]
      exact hnormal
  . intro slot hin
    cases hmem hin with
    | inl hold => exact h.assigned slot hold
    | inr hnew =>
      rw [hnew]
      exact hnext
  . intro slot hin hopen
    cases hmem hin with
    | inl hold => exact h.unfinished slot hold hopen
    | inr hnew =>
      rw [hnew]
      exact hxid
  . rw [UndoZone.allocTransactionSlot, drop_append_of_le_length h.recycle_le, map_append]
    apply h.chain.push
    intro r hr
    obtain ⟨slot, hin, rfl⟩ := mem_map.1 hr
    exact (hslots slot (mem_of_mem_drop hin)).2
  . intro i slot hslot hi
    obtain ⟨hlast, _⟩ | hold := getElem?_push hslot
    . have hi : i < zone.frozenEnd := hi
      omega
    . exact h.settled i slot hold hi
  . intro i slot hslot hi
    obtain ⟨hlast, _⟩ | hold := getElem?_push hslot
    . have hi : i < zone.recycleTSlotPtr := hi
      have hle := h.recycle_le
      omega
    . exact h.recycled i slot hold hi
  . intro i slot hslot hi
    obtain ⟨_, rfl⟩ | hold := getElem?_push hslot
    . exact hfrozen
    . exact h.frozen i slot hold hi
  . intro i slot hslot hi
    obtain ⟨_, rfl⟩ | hold := getElem?_push hslot
    . exact hrecycle
    . exact h.having i slot hold hi

theorem Visited.allocTransactionSlot (h : Visited p zone)
    (hp : PassOk g p) {xid : Nat} (hxid : g.status xid = .inProgress)
    : Visited p (zone.allocTransactionSlot xid) := by
  have hxmin := hp.oldestXmin_le xid hxid
  refine ⟨?_, ?_⟩
  . intro i slot hslot hi
    obtain ⟨_, rfl⟩ | hold := getElem?_push hslot
    . exact hp.frozen_le.trans hxmin
    . exact h.frozen i slot hold hi
  . intro bound hbound hrecycled i slot hslot hi
    obtain ⟨_, rfl⟩ | hold := getElem?_push hslot
    . exact (hbound.trans hp.recycleXmin_le).trans hxmin
    . exact h.having bound hbound hrecycled i slot hold hi

theorem undoLogOffsetPlusUsableBytes_spec {offset : Nat} (h : undoLogBlockHeaderSize ≤ offset % blcksz)
    (hn : 0 < n) : offset < undoLogOffsetPlusUsableBytes offset n
      ∧ undoLogBlockHeaderSize ≤ undoLogOffsetPlusUsableBytes offset n % blcksz := by
  simp only [undoLogOffsetPlusUsableBytes, undoLogUsableBytesPerPage, blcksz, undoLogBlockHeaderSize] at *
  omega

theorem ZoneInv.updateTransactionSlot (h : ZoneInv g zone) {size : Nat}
      (hslots : zone.slots = slots ++ [slot])
    (hxid : g.status slot.xactId = .inProgress) (hsize : 0 < size)
    : ZoneInv g (zone.updateTransactionSlot slots slot size) := by
  obtain ⟨hlt, hheader⟩ := undoLogOffsetPlusUsableBytes_spec h.header hsize
  have hget : zone.slots[slots.length]? = some slot := by
    rw [hslots]
    exact getElem?_concat_length
  have hend : zone.frozenEnd ≤ slots.length := by
    by_contra hgt
    exact (h.settled _ _ hget (by omega)).ended hxid
  have hrecycle : zone.recycleTSlotPtr ≤ slots.length := (Nat.le_max_right _ _).trans hend
  have hlen : (zone.updateTransactionSlot slots slot size).slots.length = zone.slots.length := by
    rw [UndoZone.updateTransactionSlot, hslots, length_append, length_append]
    rfl
  have hcases {i : Nat} {slot' : TransactionSlot}
      (hslot' : (zone.updateTransactionSlot slots slot size).slots[i]? = some slot') :
      (i = slots.length ∧ slot'.xactId = slot.xactId ∧ slot'.startUndoPtr ≠ invalidUndoRecPtr)
        ∨ zone.slots[i]? = some slot' := by
    obtain ⟨heq, rfl⟩ | hold := getElem?_push hslot'
    . refine Or.inl ⟨heq, rfl, ?_⟩
      simp only [TransactionSlot.update]
      split
      . have hpos := h.forceDiscard_pos
        have hle := h.forceDiscard_le
        simp only [invalidUndoRecPtr]
        omega
      . assumption
    . right
      obtain ⟨hi, _⟩ := List.getElem?_eq_some_iff.1 hold
      rwa [hslots, getElem?_append_left hi]
  have hmem {slot' : TransactionSlot} (hin : slot' ∈ (zone.updateTransactionSlot slots slot size).slots) :
      (slot'.xactId = slot.xactId ∧ slot'.startUndoPtr ≠ invalidUndoRecPtr) ∨ slot' ∈ zone.slots := by
    obtain ⟨i, hi⟩ := mem_iff_getElem?.1 hin
    obtain ⟨_, hnew⟩ | hold := hcases hi
    . exact Or.inl hnew
    . exact Or.inr (mem_of_getElem? hold)
  refine ⟨?_, ?_, ?_, ?_, ?_, ?_, ?_, h.discard_pos, h.discard_le, hheader, ?_, ?_, ?_, ?_⟩
  . rw [hlen]
    exact h.recycle_le
  . rw [hlen]
    exact h.frozen_le
  . have hsame : (zone.updateTransactionSlot slots slot size).slots.map TransactionSlot.xactId
        = zone.slots.map TransactionSlot.xactId := by
      rw [UndoZone.updateTransactionSlot, hslots, map_append, map_append]
      rfl
    rw [hsame]
    exact h.ascending
  . intro slot' hin
    cases hmem hin with
    | inl hnew =>
      rw [hnew.1]
      exact h.normal slot (mem_of_getElem? hget)
    | inr hold => exact h.normal slot' hold
  . intro slot' hin
    cases hmem hin with
    | inl hnew =>
      rw [hnew.1]
      exact h.assigned slot (mem_of_getElem? hget)
    | inr hold => exact h.assigned slot' hold
  . intro slot' hin hopen
    cases hmem hin with
    | inl hnew => exact absurd hopen hnew.2
    | inr hold => exact h.unfinished slot' hold hopen
  . have hchain := h.chain
    rw [hslots, drop_append_of_le_length hrecycle, map_append] at hchain
    rw [UndoZone.updateTransactionSlot, drop_append_of_le_length hrecycle, map_append]
    exact hchain.extend h.forceDiscard_pos hlt
  . intro i slot' hslot' hi
    have hi : i < zone.frozenEnd := hi
    obtain ⟨heq, _⟩ | hold := hcases hslot'
    . omega
    . exact h.settled i slot' hold hi
  . intro i slot' hslot' hi
    have hi : i < zone.recycleTSlotPtr := hi
    obtain ⟨heq, _⟩ | hold := hcases hslot'
    . omega
    . exact h.recycled i slot' hold hi
  . intro i slot' hslot' hi
    obtain ⟨heq, hsame, _⟩ | hold := hcases hslot'
    . rw [hsame]
      exact h.frozen _ slot hget hend
    . exact h.frozen i slot' hold hi
  . intro i slot' hslot' hi
    obtain ⟨heq, hsame, _⟩ | hold := hcases hslot'
    . rw [hsame]
      exact h.having _ slot hget hrecycle
    . exact h.having i slot' hold hi

theorem exists_of_xids {slots' : List TransactionSlot}
    (h : slots'.map TransactionSlot.xactId = slots.map TransactionSlot.xactId)
    (hslot' : slots'[i]? = some slot')
    : ∃ slot, slots[i]? = some slot ∧ slot.xactId = slot'.xactId := by
  have hget := congrArg (fun xids => xids[i]?) h
  simp only [getElem?_map, hslot', Option.map_some] at hget
  exact Option.map_eq_some_iff.1 hget.symm

theorem Visited.of_xids (h : Visited p zone)
    (hxids : zone'.slots.map TransactionSlot.xactId = zone.slots.map TransactionSlot.xactId)
    (hfrozen : zone'.frozenSlotPtr = zone.frozenSlotPtr)
    (hrecycle : zone'.recycleTSlotPtr = zone.recycleTSlotPtr) : Visited p zone' := by
  refine ⟨?_, ?_⟩
  . intro i slot' hslot' hi
    obtain ⟨slot, hslot, heq⟩ := exists_of_xids hxids hslot'
    rw [← heq]
    apply h.frozen i slot hslot
    rwa [UndoZone.frozenEnd, hfrozen, hrecycle] at hi
  . intro bound hbound hall i slot' hslot' hi
    obtain ⟨slot, hslot, heq⟩ := exists_of_xids hxids hslot'
    rw [← heq]
    apply h.having bound hbound hall i slot hslot
    rwa [hrecycle] at hi

theorem xids_updateTransactionSlot (hslots : zone.slots = slots ++ [slot]) (size : Nat)
    : (zone.updateTransactionSlot slots slot size).slots.map TransactionSlot.xactId
        =
      zone.slots.map TransactionSlot.xactId := by
  rw [UndoZone.updateTransactionSlot, hslots, map_append, map_append]
  rfl

structure SameSlot (slot slot' : TransactionSlot) : Prop where
  xactId : slot'.xactId = slot.xactId
  range : range slot' = range slot
  finish : slot.rollbackFinish = true → slot'.rollbackFinish = true

theorem updateRollbackFinish_sameSlot
    (h : g.updateRollbackFinish slot = some slot') : SameSlot slot slot' := by
  rw [Globals.updateRollbackFinish] at h
  split at h
  . split at h
    . cases h
    . cases h
      exact ⟨rfl, rfl, fun _ => rfl⟩
  . cases h
    exact ⟨rfl, rfl, id⟩

theorem map_set_eq {α : Type} (f : TransactionSlot → α)
    (hslot : slots[n]? = some slot) (hf : f slot' = f slot)
    : (slots.set n slot').map f = slots.map f := by
  obtain ⟨hn, rfl⟩ := List.getElem?_eq_some_iff.1 hslot
  rw [List.map_set, hf]
  apply ext_getElem
  . simp
  . intro i hi hi'
    rw [getElem_set]
    split
    . next heq =>
      subst heq
      simp
    . rfl

theorem Settled.sameSlot (h : Settled g slot) (hsame : SameSlot slot slot') : Settled g slot' := by
  have hrange := hsame.range
  rw [range, range, Prod.mk.injEq] at hrange
  refine ⟨?_, ?_, ?_⟩
  . rw [hrange.1]
    exact h.start
  . rw [hsame.xactId]
    exact h.ended
  . rw [hsame.xactId]
    exact h.done.imp_right hsame.finish

theorem set_cases (hslot : slots[n]? = some slot) (hsame : SameSlot slot slot') {new : TransactionSlot}
    (h : (slots.set n slot')[i]? = some new) : ∃ old, slots[i]? = some old ∧ SameSlot old new := by
  rw [getElem?_set] at h
  split at h
  . next heq =>
    subst heq
    split at h
    . rw [Option.some_inj] at h
      exact ⟨slot, hslot, h ▸ hsame⟩
    . cases h
  . exact ⟨new, h, rfl, rfl, id⟩

theorem ZoneInv.setSlot (h : ZoneInv g zone)
    (hslot : zone.slots[n]? = some slot) (hsame : SameSlot slot slot')
    : ZoneInv g { zone with slots := zone.slots.set n slot' } := by
  have hmem {new : TransactionSlot} (hin : new ∈ zone.slots.set n slot') :
      ∃ old ∈ zone.slots, SameSlot old new := by
    obtain ⟨i, hi⟩ := mem_iff_getElem?.1 hin
    obtain ⟨old, hold, hsame'⟩ := set_cases hslot hsame hi
    exact ⟨old, mem_of_getElem? hold, hsame'⟩
  refine ⟨?_, ?_, ?_, ?_, ?_, ?_, ?_, h.discard_pos, h.discard_le, h.header, ?_, ?_, ?_, ?_⟩
  . rw [length_set]
    exact h.recycle_le
  . rw [length_set]
    exact h.frozen_le
  . rw [map_set_eq _ hslot hsame.xactId]
    exact h.ascending
  . intro new hin
    obtain ⟨old, hold, hsame'⟩ := hmem hin
    rw [hsame'.xactId]
    exact h.normal old hold
  . intro new hin
    obtain ⟨old, hold, hsame'⟩ := hmem hin
    rw [hsame'.xactId]
    exact h.assigned old hold
  . intro new hin hopen
    obtain ⟨old, hold, hsame'⟩ := hmem hin
    have hrange := hsame'.range
    rw [range, range, Prod.mk.injEq] at hrange
    rw [hsame'.xactId]
    apply h.unfinished old hold
    rw [← hrange.1, hopen]
  . rw [map_drop, map_set_eq _ hslot hsame.range, ← map_drop]
    exact h.chain
  . intro i new hnew hi
    obtain ⟨old, hold, hsame'⟩ := set_cases hslot hsame hnew
    exact (h.settled i old hold hi).sameSlot hsame'
  . intro i new hnew hi
    obtain ⟨old, hold, hsame'⟩ := set_cases hslot hsame hnew
    have hrange := hsame'.range
    rw [range, range, Prod.mk.injEq] at hrange
    rw [hrange.2]
    exact h.recycled i old hold hi
  . intro i new hnew hi
    obtain ⟨old, hold, hsame'⟩ := set_cases hslot hsame hnew
    rw [hsame'.xactId]
    exact h.frozen i old hold hi
  . intro i new hnew hi
    obtain ⟨old, hold, hsame'⟩ := set_cases hslot hsame hnew
    rw [hsame'.xactId]
    exact h.having i old hold hi

theorem ZoneInv.of_globals {g' : Globals} (h : ZoneInv g zone) (hnext : g.nextXid ≤ g'.nextXid)
    (hended : ∀ slot ∈ zone.slots, g.status slot.xactId ≠ .inProgress →
      g'.status slot.xactId = g.status slot.xactId)
    (hopen : ∀ slot ∈ zone.slots, slot.startUndoPtr = invalidUndoRecPtr →
      g.status slot.xactId = .inProgress → g'.status slot.xactId = .inProgress)
    (hfrozen : ∀ i slot, zone.slots[i]? = some slot → zone.frozenEnd ≤ i → g'.globalFrozenXid ≤ slot.xactId)
    (hhaving : ∀ i slot, zone.slots[i]? = some slot → zone.recycleTSlotPtr ≤ i →
      g'.globalRecycleXid ≤ slot.xactId) : ZoneInv g' zone := by
  refine { h with assigned := ?_, unfinished := ?_, settled := ?_, frozen := hfrozen, having := hhaving }
  . intro slot hin
    exact Nat.lt_of_lt_of_le (h.assigned slot hin) hnext
  . intro slot hin hstart
    exact hopen slot hin hstart (h.unfinished slot hin hstart)
  . intro i slot hslot hi
    have hsettled := h.settled i slot hslot hi
    have hsame := hended slot (mem_of_getElem? hslot) hsettled.ended
    exact ⟨hsettled.start, by rw [hsame]; exact hsettled.ended, by rw [hsame]; exact hsettled.done⟩

theorem PassOk.of_status {g' : Globals} (h : PassOk g p) (hnext : g.nextXid ≤ g'.nextXid)
    (hstatus : ∀ xid, g'.status xid = .inProgress → g.status xid = .inProgress ∨ g.nextXid ≤ xid)
    : PassOk g' p := by
  refine { h with oldestXmin_le := ?_, next_le := h.next_le.trans hnext }
  intro xid hxid
  cases hstatus xid hxid with
  | inl hold => exact h.oldestXmin_le xid hold
  | inr hnew => exact h.next_le.trans hnew

section

variable (h : Inv undoZoneCount s)
include h

theorem Inv.assignXid : Inv undoZoneCount s.assignXid := by
  have hstatus (xid : Nat) (hxid : xid ≠ s.globals.nextXid) :
      s.assignXid.globals.status xid = s.globals.status xid := if_neg hxid
  refine ⟨?_, h.zids, h.count, ?_, Nat.le_succ_of_le h.next, Nat.le_succ_of_le h.frozen,
    Nat.le_succ_of_le h.recycle, ?_⟩
  . intro zid zone hzone
    have hinv := h.zones zid zone hzone
    have hne (slot : TransactionSlot) (hin : slot ∈ zone.slots) : slot.xactId ≠ s.globals.nextXid :=
      Nat.ne_of_lt (hinv.assigned slot hin)
    apply hinv.of_globals (Nat.le_succ _)
    . intro slot hin _
      exact hstatus _ (hne slot hin)
    . intro slot hin _ hxid
      rw [hstatus _ (hne slot hin)]
      exact hxid
    . exact hinv.frozen
    . exact hinv.having
  . intro xid hxid
    by_cases heq : xid = s.globals.nextXid
    . subst heq
      exact ⟨h.next, Nat.lt_succ_self _, h.frozen, h.recycle⟩
    . rw [hstatus xid heq] at hxid
      obtain ⟨hnormal, hlt, hfrozen, hrecycle⟩ := h.running xid hxid
      exact ⟨hnormal, Nat.lt_succ_of_lt hlt, hfrozen, hrecycle⟩
  . intro p hp
    obtain ⟨hok, hidx, hall⟩ := h.pass p hp
    refine ⟨hok.of_status (Nat.le_succ _) ?_, hidx, hall⟩
    intro xid hxid
    by_cases heq : xid = s.globals.nextXid
    . exact Or.inr (by omega)
    . rw [hstatus xid heq] at hxid
      exact Or.inl hxid

theorem Inv.finish {xid : Nat} {status : XactStatus} (hxid : s.globals.status xid = .inProgress)
    (hslots : ∀ zid zone, s.zones zid = some zone → ∀ slot ∈ zone.slots, slot.xactId = xid →
      slot.startUndoPtr ≠ invalidUndoRecPtr) : Inv undoZoneCount (s.setStatus xid status) := by
  have hother (xid' : Nat) (hne : xid' ≠ xid) :
      (s.setStatus xid status).globals.status xid' = s.globals.status xid' := if_neg hne
  have hrunning (xid' : Nat) (hxid' : (s.setStatus xid status).globals.status xid' = .inProgress) :
      s.globals.status xid' = .inProgress := by
    by_cases heq : xid' = xid
    . rw [heq]
      exact hxid
    . rw [← hother xid' heq]
      exact hxid'
  refine { h with zones := ?_, running := ?_, pass := ?_ }
  . intro zid zone hzone
    have hinv := h.zones zid zone hzone
    have hnext : s.globals.nextXid ≤ (s.setStatus xid status).globals.nextXid := Nat.le_refl _
    apply hinv.of_globals hnext
    . intro slot _ hended
      apply hother
      rintro rfl
      exact hended hxid
    . intro slot hin hopen hprogress
      rw [hother]
      . exact hprogress
      . intro heq
        exact hslots zid zone hzone slot hin heq hopen
    . exact hinv.frozen
    . exact hinv.having
  . intro xid' hxid'
    exact h.running xid' (hrunning xid' hxid')
  . intro p hp
    obtain ⟨hok, hidx, hall⟩ := h.pass p hp
    exact ⟨hok.of_status (Nat.le_refl _) (fun xid' hxid' => Or.inl (hrunning xid' hxid')), hidx, hall⟩

theorem Inv.visited (hp : s.recycler = some p)
    (hend : p.idx = undoZoneCount) (hzone : s.zones zid = some zone)
    : Visited p zone :=
  (h.pass p hp).2.2 zid zone (by rw [hend]; exact h.zids zid zone hzone) hzone

theorem Inv.writeFrozenXid (hp : s.recycler = some p) (hend : p.idx = undoZoneCount) (recycler : Option Pass)
    (hpass : ∀ p', recycler = some p' → PassOk s.globals p' ∧ p'.idx = 0)
    : Inv undoZoneCount { s with globals := p.writeFrozenXid s.globals, recycler } := by
  have hok := (h.pass p hp).1
  have hnew {p' : Pass} (hp' : recycler = some p') : p'.idx ≤ undoZoneCount
      ∧ ∀ zid zone, zid < p'.idx → s.zones zid = some zone → Visited p' zone := by
    rw [(hpass p' hp').2]
    exact ⟨Nat.zero_le _, fun zid _ hlt => absurd hlt (by omega)⟩
  rw [Pass.writeFrozenXid]
  split
  . refine ⟨?_, h.zids, h.count, ?_, h.next, hok.frozen_le.trans hok.next_le, h.recycle, ?_⟩
    . intro zid zone hzone
      have hinv := h.zones zid zone hzone
      exact hinv.of_globals (Nat.le_refl _) (fun _ _ _ => rfl) (fun _ _ _ hxid => hxid)
        (h.visited hp hend hzone).frozen hinv.having
    . intro xid hxid
      obtain ⟨hnormal, hlt, _, hrecycle⟩ := h.running xid hxid
      exact ⟨hnormal, hlt, hok.frozen_le.trans (hok.oldestXmin_le xid hxid), hrecycle⟩
    . intro p' hp'
      have hok' := (hpass p' hp').1
      exact ⟨{ hok' with }, hnew hp'⟩
  . refine { h with pass := ?_ }
    intro p' hp'
    exact ⟨(hpass p' hp').1, hnew hp'⟩

end

theorem foldl_oldest_le (xids : List Nat) (oldest : Nat) (hne : ∀ xid ∈ xids, xid ≠ invalidTransactionId)
    : (∀ xid ∈ xids, xids.foldl (fun oldest xid =>
          if oldest = invalidTransactionId then xid else if oldest > xid then xid else oldest) oldest ≤ xid)
        ∧ (oldest ≠ invalidTransactionId → xids.foldl (fun oldest xid =>
          if oldest = invalidTransactionId then xid else if oldest > xid then xid else oldest) oldest
            ≤ oldest) := by
  induction xids generalizing oldest with
  | nil => exact ⟨fun xid hmem => absurd hmem not_mem_nil, fun _ => Nat.le_refl _⟩
  | cons first rest ih =>
    have hfirst := hne first (mem_cons_self ..)
    obtain ⟨hrest, hstart⟩ := ih (if oldest = invalidTransactionId then first
      else if oldest > first then first else oldest)
      (fun xid hmem => hne xid (mem_cons_of_mem _ hmem))
    have hnext : (if oldest = invalidTransactionId then first
        else if oldest > first then first else oldest) ≠ invalidTransactionId
          ∧ (if oldest = invalidTransactionId then first
            else if oldest > first then first else oldest) ≤ first
          ∧ (oldest ≠ invalidTransactionId → (if oldest = invalidTransactionId then first
            else if oldest > first then first else oldest) ≤ oldest) := by
      split
      . next hzero => exact ⟨hfirst, Nat.le_refl _, fun hne' => absurd hzero hne'⟩
      . next hzero =>
        split
        . next hgt => exact ⟨hfirst, Nat.le_refl _, fun _ => hgt.le⟩
        . next hgt => exact ⟨hzero, Nat.le_of_not_lt hgt, fun _ => Nat.le_refl _⟩
    rw [foldl_cons]
    refine ⟨?_, fun hoff => (hstart hnext.1).trans (hnext.2.2 hoff)⟩
    intro xid hmem
    cases mem_cons.1 hmem with
    | inl heq =>
      rw [heq]
      exact (hstart hnext.1).trans hnext.2.1
    | inr hin => exact hrest xid hin

theorem PassOk.havingUndo_le (h : PassOk g p) {uZoneCount bound : Nat}
    (hbound : bound ≤ p.havingUndo uZoneCount) (hcount : uZoneCount ≠ 0)
    : ∀ xid ∈ p.recycleMaxXIDs, bound ≤ xid := by
  intro xid hmem
  rw [Pass.havingUndo, if_pos hcount, updateXidHavingUndo, if_pos (length_pos_of_mem hmem)] at hbound
  exact hbound.trans ((foldl_oldest_le p.recycleMaxXIDs p.oldestXidHavingUndo h.recycled_ne).1 xid hmem)

theorem Inv.writeRecycleXid (h : Inv undoZoneCount s) (hok : PassOk s.globals p) (hidle : s.recycler = none)
    (hvisited : ∀ zid zone, s.zones zid = some zone → Visited p zone)
    : Inv undoZoneCount { s with globals := p.writeRecycleXid s.uZoneCount s.globals } := by
  rw [Pass.writeRecycleXid]
  split
  . generalize hxid : (if p.recycleXmin < p.havingUndo s.uZoneCount then p.recycleXmin
      else p.havingUndo s.uZoneCount) = xid
    obtain ⟨hxmin, hhaving⟩ : xid ≤ p.recycleXmin ∧ xid ≤ p.havingUndo s.uZoneCount := by
      rw [← hxid]
      split
      . omega
      . omega
    dsimp only
    split
    . refine ⟨?_, h.zids, h.count, ?_, h.next, h.frozen, ?_, ?_⟩
      . intro zid zone hzone
        have hinv := h.zones zid zone hzone
        have hcount : s.uZoneCount ≠ 0 := by
          intro hzero
          have hnone := h.count hzero zid
          rw [show s.zones zid = some zone from hzone] at hnone
          cases hnone
        exact hinv.of_globals (Nat.le_refl _) (fun _ _ _ => rfl) (fun _ _ _ hxid => hxid) hinv.frozen
          ((hvisited zid zone hzone).having xid hxmin (hok.havingUndo_le hhaving hcount))
      . intro xid' hxid'
        obtain ⟨hnormal, hlt, hfrozen, _⟩ := h.running xid' hxid'
        exact ⟨hnormal, hlt, hfrozen, (hxmin.trans hok.recycleXmin_le).trans (hok.oldestXmin_le xid' hxid')⟩
      . exact (hxmin.trans hok.recycleXmin_le).trans hok.next_le
      . intro p' hp'
        have hnone : none = some p' := hidle.symm.trans hp'
        cases hnone
    . exact h
  . exact h

theorem initial_inv (g : Globals) : ZoneInv g .initial := by
  refine ⟨Nat.le_refl _, Nat.le_refl _, List.Pairwise.nil, ?_, ?_, ?_, rfl, by decide, Nat.le_refl _,
    by decide, ?_, ?_, ?_, ?_⟩
  . intro slot hin
    cases hin
  . intro slot hin
    cases hin
  . intro slot hin
    cases hin
  . intro i slot hslot
    cases hslot
  . intro i slot hslot
    cases hslot
  . intro i slot hslot
    cases hslot
  . intro i slot hslot
    cases hslot

section

variable (h : Inv undoZoneCount s)
include h

theorem Inv.count_ne (hzone : s.zones zid = some zone) : s.uZoneCount ≠ 0 := by
  intro hzero
  rw [h.count hzero zid] at hzone
  cases hzone

theorem Inv.visited_of_lt (hp : s.recycler = some p)
    (hlt : zid < p.idx) (hzone : s.zones zid = some zone) : Visited p zone :=
  (h.pass p hp).2.2 zid zone hlt hzone

theorem Inv.nextZone {p' : Pass} (hp : s.recycler = some p)
    (hlt : p.idx < undoZoneCount) (hok : PassOk s.globals p') (hle : PassLe p p')
    (hzone : ∀ zone, s.zones p.idx = some zone → Visited p' zone)
    : Inv undoZoneCount { s with recycler := some p' } := by
  refine { h with pass := ?_ }
  intro p'' hp''
  cases hp''
  refine ⟨hok, by rw [hle.idx]; exact hlt, ?_⟩
  intro zid zone hzid hold
  rw [hle.idx] at hzid
  by_cases heq : zid = p.idx
  . subst heq
    exact hzone zone hold
  . exact (h.visited_of_lt hp (by omega) hold).mono hle

theorem Inv.step (hstep : Step undoZoneCount s s')
    : Inv undoZoneCount s' := by
  cases hstep with
  | assignXid => exact h.assignXid
  | allocateZone zid hlt hfree =>
    have hcounted : Inv undoZoneCount { s with uZoneCount := s.uZoneCount + 1 } :=
      { h with count := fun hzero => absurd hzero (Nat.succ_ne_zero _) }
    apply hcounted.setZone hlt (Nat.succ_ne_zero _) (initial_inv s.globals)
    intro p _ _
    refine ⟨?_, ?_⟩
    . intro i slot hslot
      cases hslot
    . intro _ _ _ i slot hslot
      cases hslot
  | allocTransactionSlot zid zone xid hzone hxid hslots =>
    obtain ⟨hnormal, hlt, hfrozen, hrecycle⟩ := h.running xid hxid
    apply h.setZone (h.zids zid zone hzone) (h.count_ne hzone)
    . exact (h.zones zid zone hzone).allocTransactionSlot hxid hnormal hlt hfrozen hrecycle hslots
    . intro p hp hidx
      exact (h.visited_of_lt hp hidx hzone).allocTransactionSlot (h.pass p hp).1 hxid
  | updateTransactionSlot zid zone slots slot size hzone hslots hxid hsize =>
    apply h.setZone (h.zids zid zone hzone) (h.count_ne hzone)
    . exact (h.zones zid zone hzone).updateTransactionSlot hslots hxid hsize
    . intro p hp hidx
      exact (h.visited_of_lt hp hidx hzone).of_xids (xids_updateTransactionSlot hslots size) rfl rfl
  | finish xid status hxid hstatus hslots => exact h.finish hxid hslots
  | updateRollbackFinish zid zone slotPtr slot slot' hzone hslot hxid hslot' =>
    have hsame := updateRollbackFinish_sameSlot hslot'
    apply h.setZone (h.zids zid zone hzone) (h.count_ne hzone)
    . exact (h.zones zid zone hzone).setSlot hslot hsame
    . intro p hp hidx
      exact (h.visited_of_lt hp hidx hzone).of_xids (map_set_eq _ hslot hsame.xactId) rfl rfl
  | startPass oldestXmin recycleXmin forceRecycleXid hidle hoccupied hnext hxmin hvalid hfrozen =>
    refine { h with pass := ?_ }
    intro p hp
    cases hp
    refine ⟨⟨hvalid, hxmin, hoccupied, hnext, Nat.le_refl _, ?_⟩, Nat.zero_le _, ?_⟩
    . intro xid hmem
      cases hmem
    . intro zid _ hlt
      exact absurd hlt (Nat.not_lt_zero zid)
  | skipZone p hpass hlt hzone =>
    have hok := (h.pass p hpass).1
    apply h.nextZone hpass hlt
    . exact { hok with }
    . exact ⟨rfl, rfl, rfl, Nat.le_refl _, fun _ hmem => hmem⟩
    . intro zone hsome
      rw [hzone] at hsome
      cases hsome
  | recycleZone p p' zone zone' hpass hlt hzone hrun =>
    obtain ⟨zone₁, p₁, hrun₁, hinv, _, hok, hle, hvisited⟩ :=
      recycleZone_spec (h.zones p.idx zone hzone) (h.pass p hpass).1
    rw [hrun, Option.some_inj, Prod.mk.injEq] at hrun₁
    obtain ⟨rfl, rfl⟩ := hrun₁
    have hset : Inv undoZoneCount (s.setZone p.idx zone') := by
      apply h.setZone hlt (h.count_ne hzone) hinv
      intro p₂ hp₂ hidx
      have heq : some p = some p₂ := hpass.symm.trans hp₂
      cases heq
      exact absurd hidx (Nat.lt_irrefl _)
    apply hset.nextZone hpass hlt hok hle
    intro zone₂ hzone₂
    obtain ⟨_, rfl⟩ | ⟨hne, _⟩ := setZone_cases hzone₂
    . exact hvisited
    . exact absurd rfl hne
  | retry p forceRecycleXid hpass hend =>
    have hok := (h.pass p hpass).1
    apply h.writeFrozenXid hpass hend
    intro p' hp'
    cases hp'
    refine ⟨{ hok with recycled_ne := ?_ }, rfl⟩
    intro xid hmem
    cases hmem
  | endPass p hpass hend =>
    have hok := (h.pass p hpass).1
    have hfrozen := h.writeFrozenXid hpass hend none (fun p' hp' => by cases hp')
    apply hfrozen.writeRecycleXid (p := p)
    . rw [Pass.writeFrozenXid]
      split
      . exact { hok with }
      . exact hok
    . rfl
    . intro zid zone hzone
      exact h.visited hpass hend hzone
  | shutDown =>
    refine { h with pass := ?_ }
    intro p hp
    cases hp

end

theorem Reachable.inv (h : Reachable undoZoneCount s) : Inv undoZoneCount s := by
  obtain ⟨s₀, hstart, hrun⟩ := h
  induction hrun with
  | refl => exact hstart.inv
  | tail _ hstep ih => exact ih.step hstep

end Invariant

section Safety

variable {undoZoneCount : Nat}

def Needed (g : Globals) (slot : TransactionSlot) : Prop :=
  slot.startUndoPtr ≠ invalidUndoRecPtr ∧ (g.status slot.xactId = .inProgress
    ∨ (g.status slot.xactId = .aborted ∧ slot.needRollback = true))

structure ZoneSafe (g : Globals) (zone : UndoZone) : Prop where
  needed : ∀ slot ∈ zone.slots, Needed g slot → zone.forceDiscardURecPtr ≤ slot.startUndoPtr
    ∧ ∀ offset, slot.startUndoPtr ≤ offset → offset < slot.endUndoPtr →
      ∀ checkForceRecycle recycleXmin,
        zone.checkUndoRecordValid offset checkForceRecycle recycleXmin = .normal
  discard_le : zone.discardURecPtr ≤ zone.forceDiscardURecPtr
  forceDiscard_le : zone.forceDiscardURecPtr ≤ zone.insertURecPtr
  recycle_le : zone.recycleTSlotPtr ≤ zone.allocateTSlotPtr
  frozen : ∀ slot ∈ zone.slots, Needed g slot → g.globalFrozenXid ≤ slot.xactId
  recycle : ∀ i slot, zone.slots[i]? = some slot →
    (zone.recycleTSlotPtr ≤ i ∨ zone.forceDiscardURecPtr < slot.endUndoPtr) →
    g.globalRecycleXid ≤ slot.xactId

theorem ZoneInv.frozenEnd_le (h : ZoneInv g zone)
    (hslot : zone.slots[i]? = some slot) (hneeded : Needed g slot)
    : zone.frozenEnd ≤ i := by
  by_contra hlt
  have hsettled := h.settled i slot hslot (by omega)
  obtain ⟨_, hprogress | ⟨haborted, hroll⟩⟩ := hneeded
  . exact hsettled.ended hprogress
  . cases hsettled.done with
    | inl hcommitted =>
      rw [haborted] at hcommitted
      cases hcommitted
    | inr hfinish =>
      rw [TransactionSlot.needRollback, hfinish] at hroll
      cases hroll

theorem ZoneInv.safe (h : ZoneInv g zone) : ZoneSafe g zone := by
  refine { h with needed := ?_, forceDiscard_le := h.forceDiscard_le, frozen := ?_, recycle := ?_ }
  . intro slot hin hneeded
    obtain ⟨i, hslot⟩ := mem_iff_getElem?.1 hin
    have hge : zone.recycleTSlotPtr ≤ i := (Nat.le_max_right _ _).trans (h.frozenEnd_le hslot hneeded)
    have hmem : range slot ∈ (zone.slots.drop zone.recycleTSlotPtr).map range := by
      apply mem_map_of_mem
      apply mem_of_getElem? (i := i - zone.recycleTSlotPtr)
      rw [getElem?_drop, Nat.add_sub_cancel' hge]
      exact hslot
    obtain ⟨hstart, hend⟩ := h.chain.mem hmem hneeded.1
    refine ⟨hstart, ?_⟩
    intro offset hlow hhigh checkForceRecycle recycleXmin
    have hstart : zone.forceDiscardURecPtr ≤ slot.startUndoPtr := hstart
    have hend : slot.endUndoPtr ≤ zone.insertURecPtr := hend
    rw [UndoZone.checkUndoRecordValid, if_neg (by omega), if_pos (by omega)]
  . intro slot hin hneeded
    obtain ⟨i, hslot⟩ := mem_iff_getElem?.1 hin
    exact h.frozen i slot hslot (h.frozenEnd_le hslot hneeded)
  . intro i slot hslot hleft
    apply h.having i slot hslot
    by_contra hlt
    cases hleft with
    | inl hge => exact hlt hge
    | inr hend => exact Nat.not_lt.2 (h.recycled i slot hslot (by omega)) hend

theorem PointersLe.setZone
    (hzone : s.zones zid = some zone) (hle : PointersLe zone zone') (i : Nat) (old : UndoZone)
    (hold : s.zones i = some old)
    : ∃ new, (s.setZone zid zone').zones i = some new ∧ PointersLe old new := by
  simp only [State.setZone]
  by_cases heq : i = zid
  . subst heq
    rw [hzone, Option.some_inj] at hold
    rw [if_pos rfl]
    exact ⟨zone', rfl, hold ▸ hle⟩
  . rw [if_neg heq]
    exact ⟨old, hold, PointersLe.refl old⟩

theorem Step.pointersLe (hinv : Inv undoZoneCount s) (h : Step undoZoneCount s s') (zid : Nat)
    (zone : UndoZone) (hzone : s.zones zid = some zone)
    : ∃ zone', s'.zones zid = some zone' ∧ PointersLe zone zone' := by
  cases h with
  | allocateZone zid' hlt hfree =>
    have hne : zid ≠ zid' := by
      rintro rfl
      rw [hfree] at hzone
      cases hzone
    exact ⟨zone, (if_neg hne).trans hzone, PointersLe.refl zone⟩
  | allocTransactionSlot zid' zone' xid hzone' hxid hslots =>
    apply PointersLe.setZone hzone' _ zid zone hzone
    refine ⟨Nat.le_refl _, Nat.le_refl _, Nat.le_refl _, Nat.le_refl _, ?_⟩
    rw [UndoZone.allocateTSlotPtr, UndoZone.allocateTSlotPtr, UndoZone.allocTransactionSlot, length_append]
    omega
  | updateTransactionSlot zid' zone' slots slot size hzone' hslots hxid hsize =>
    apply PointersLe.setZone hzone' _ zid zone hzone
    refine ⟨(undoLogOffsetPlusUsableBytes_spec (hinv.zones zid' zone' hzone').header hsize).1.le,
      Nat.le_refl _, Nat.le_refl _, Nat.le_refl _, ?_⟩
    rw [UndoZone.allocateTSlotPtr, UndoZone.allocateTSlotPtr, UndoZone.updateTransactionSlot, hslots,
      length_append, length_append]
    exact Nat.le_refl _
  | updateRollbackFinish zid' zone' slotPtr slot slot' hzone' hslot hxid hslot' =>
    apply PointersLe.setZone hzone' _ zid zone hzone
    refine ⟨Nat.le_refl _, Nat.le_refl _, Nat.le_refl _, Nat.le_refl _, ?_⟩
    rw [UndoZone.allocateTSlotPtr, UndoZone.allocateTSlotPtr, length_set]
  | recycleZone p p' zone' zone'' hpass hlt hzone' hrun =>
    obtain ⟨zone₁, p₁, hrun₁, _, hle, _⟩ :=
      recycleZone_spec (hinv.zones p.idx zone' hzone') (hinv.pass p hpass).1
    rw [hrun, Option.some_inj, Prod.mk.injEq] at hrun₁
    obtain ⟨rfl, _⟩ := hrun₁
    exact PointersLe.setZone hzone' hle zid zone hzone
  | assignXid => exact ⟨zone, hzone, PointersLe.refl zone⟩
  | finish => exact ⟨zone, hzone, PointersLe.refl zone⟩
  | startPass => exact ⟨zone, hzone, PointersLe.refl zone⟩
  | skipZone => exact ⟨zone, hzone, PointersLe.refl zone⟩
  | retry => exact ⟨zone, hzone, PointersLe.refl zone⟩
  | endPass => exact ⟨zone, hzone, PointersLe.refl zone⟩
  | shutDown => exact ⟨zone, hzone, PointersLe.refl zone⟩

theorem run_pointersLe (hinv : Inv undoZoneCount s)
    (h : Relation.ReflTransGen (Step undoZoneCount) s s') (zid : Nat) (zone : UndoZone)
    (hzone : s.zones zid = some zone) : ∃ zone', s'.zones zid = some zone' ∧ PointersLe zone zone' := by
  have hboth : Inv undoZoneCount s' ∧ ∃ zone', s'.zones zid = some zone' ∧ PointersLe zone zone' := by
    induction h with
    | refl => exact ⟨hinv, zone, hzone, PointersLe.refl zone⟩
    | tail _ hstep ih =>
      obtain ⟨hmid, zone₁, hzone₁, hle₁⟩ := ih
      obtain ⟨zone₂, hzone₂, hle₂⟩ := hstep.pointersLe hmid zid zone₁ hzone₁
      exact ⟨hmid.step hstep, zone₂, hzone₂, hle₁.trans hle₂⟩
  exact hboth.2

theorem recycle_safe (undoZoneCount : Nat) (s : State) (h : Reachable undoZoneCount s)
    : (∀ zid zone, s.zones zid = some zone → ZoneSafe s.globals zone)
        ∧ (∀ s', Relation.ReflTransGen (Step undoZoneCount) s s' →
          ∀ zid zone, s.zones zid = some zone → ∃ zone', s'.zones zid = some zone' ∧ PointersLe zone zone')
        ∧ (∀ p zone, s.recycler = some p → s.zones p.idx = some zone →
          (recycleZone s.globals p zone).isSome = true) := by
  have hinv := h.inv
  refine ⟨?_, ?_, ?_⟩
  . intro zid zone hzone
    exact (hinv.zones zid zone hzone).safe
  . intro s' hrun
    exact run_pointersLe hinv hrun
  . intro p zone hp hzone
    obtain ⟨zone', p', hrun, _⟩ := recycleZone_spec (hinv.zones p.idx zone hzone) (hinv.pass p hp).1
    rw [hrun]
    rfl

def freshState : State := ⟨⟨3, fun _ => .aborted, 0, 0⟩, fun _ => none, 0, none⟩

theorem freshState_start : Start freshState := by
  refine ⟨fun _ => rfl, ?_, by decide, by decide, by decide, rfl⟩
  intro xid hxid
  cases hxid

def committedZone : UndoZone := ⟨124, 24, 24, [⟨3, 24, 124, false⟩], 0, 0, 0, 0⟩

-- The slot of transaction 4, which is still running, stays.
def recycledZone : UndoZone :=
  ⟨224, 124, 124, [⟨3, 24, 124, false⟩, ⟨4, 124, 224, false⟩], 1, 1, 3, 4⟩

theorem Reachable.step (h : Reachable undoZoneCount s) (hstep : Step undoZoneCount s s')
    : Reachable undoZoneCount s' := by
  obtain ⟨s₀, hstart, hrun⟩ := h
  exact ⟨s₀, hstart, hrun.tail hstep⟩

theorem reachable_recycled
    : ∃ s, Reachable 1 s ∧ s.zones 0 = some recycledZone ∧ s.globals.status 4 = .inProgress
        ∧ s.globals.globalRecycleXid = 3 := by
  have hfresh : Reachable 1 freshState := ⟨freshState, freshState_start, Relation.ReflTransGen.refl⟩
  have hassign := hfresh.step (Step.assignXid freshState)
  have hzone := hassign.step (Step.allocateZone _ 0 (by decide) rfl)
  have halloc := hzone.step (Step.allocTransactionSlot _ 0 .initial 3 rfl rfl
    (fun slot hin => absurd hin not_mem_nil))
  have hupdate := halloc.step (Step.updateTransactionSlot _ 0
    (UndoZone.initial.allocTransactionSlot 3) [] (TransactionSlot.init 3) 100 rfl rfl rfl (by decide))
  have hcommit := hupdate.step (Step.finish _ 3 .committed rfl (by decide) (by
    intro zid zone hsome slot hin _
    obtain ⟨_, rfl⟩ | ⟨hne, hsome⟩ := setZone_cases hsome
    . rw [mem_singleton.1 hin]
      decide
    . simp only [State.setZone, if_neg hne] at hsome
      cases hsome))
  have hassign' := hcommit.step (Step.assignXid _)
  have halloc' := hassign'.step (Step.allocTransactionSlot _ 0 committedZone 4 rfl rfl (by decide))
  have hupdate' := halloc'.step (Step.updateTransactionSlot _ 0 (committedZone.allocTransactionSlot 4)
    committedZone.slots (TransactionSlot.init 4) 100 rfl rfl rfl (by decide))
  have hpass := hupdate'.step (Step.startPass _ 4 4 0 rfl (by
    intro xid hxid
    have hstatus : (if xid = 4 then XactStatus.inProgress else if xid = 3 then .committed
        else if xid = 3 then .inProgress else .aborted) = .inProgress := hxid
    by_cases hfour : xid = 4
    . exact Nat.le_of_eq hfour.symm
    . rw [if_neg hfour] at hstatus
      by_cases hthree : xid = 3
      . rw [if_pos hthree] at hstatus
        cases hstatus
      . rw [if_neg hthree, if_neg hthree] at hstatus
        cases hstatus) (by decide) (by decide) (by decide) (by decide))
  have hrecycle := hpass.step (Step.recycleZone _ (Pass.start 4 4 0) _ _ recycledZone rfl (by decide) rfl rfl)
  exact ⟨_, hrecycle.step (Step.endPass _ _ rfl rfl), rfl, rfl, rfl⟩

theorem recycle_safe_recycled
    : ∃ s, s.zones 0 = some recycledZone ∧ s.globals.status 4 = .inProgress
        ∧ s.globals.globalRecycleXid = 3
        ∧ (∀ zid zone, s.zones zid = some zone → ZoneSafe s.globals zone)
        ∧ (∀ s', Relation.ReflTransGen (Step 1) s s' → ∀ zid zone, s.zones zid = some zone →
          ∃ zone', s'.zones zid = some zone' ∧ PointersLe zone zone')
        ∧ (∀ p zone, s.recycler = some p → s.zones p.idx = some zone →
          (recycleZone s.globals p zone).isSome = true) := by
  obtain ⟨s, hreachable, hzone, hrunning, hrecycle⟩ := reachable_recycled
  exact ⟨s, hzone, hrunning, hrecycle, recycle_safe 1 s hreachable⟩

end Safety

end UndoRecycle

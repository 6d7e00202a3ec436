import Mathlib.Logic.Relation
import Mathlib.Algebra.Group.Nat.Defs

/-!
This module contains the recycling of undo, from `knl_uundorecycle.cpp` and `knl_uundozone.cpp`.

Transaction ids are natural numbers. Pointers into the undo space of a zone are offsets, and pointers
to transaction slots are counted in slots. `none` stands for a PANIC.
-/

namespace UndoRecycle

def invalidTransactionId : Nat := 0
def frozenTransactionId : Nat := 2
def firstNormalTransactionId : Nat := 3
def blcksz : Nat := 8192
def undoLogBlockHeaderSize : Nat := 24
def undoLogUsableBytesPerPage : Nat := blcksz - undoLogBlockHeaderSize
def invalidUndoRecPtr : Nat := 0

section Slots

structure TransactionSlot where
  xactId : Nat
  startUndoPtr : Nat
  endUndoPtr : Nat
  rollbackFinish : Bool
  deriving DecidableEq

namespace TransactionSlot

def init (xid : Nat) : TransactionSlot := ⟨xid, invalidUndoRecPtr, invalidUndoRecPtr, false⟩

def update (slot : TransactionSlot) (start stop : Nat) : TransactionSlot :=
  { slot with
    endUndoPtr := stop
    startUndoPtr := if slot.startUndoPtr = invalidUndoRecPtr then start else slot.startUndoPtr }

def needRollback (slot : TransactionSlot) : Bool := !slot.rollbackFinish

def updateRollbackProgress (slot : TransactionSlot) : TransactionSlot :=
  { slot with rollbackFinish := true }

end TransactionSlot

def slotSize : Nat := 32

-- In bytes, as the source has it.
def getNextSlotPtr (slotPtr : Nat) : Nat :=
  let block := slotPtr / blcksz
  let offset := slotPtr % blcksz + slotSize
  if blcksz < slotSize + offset then
    (block + 1) * blcksz + undoLogBlockHeaderSize
  else
    offset + block * blcksz

def slotsPerBlock : Nat := 255

-- The byte that slot `i` starts at.
def slotPtrAt (i : Nat) : Nat :=
  i / slotsPerBlock * blcksz + undoLogBlockHeaderSize + i % slotsPerBlock * slotSize

end Slots

section Zones

structure UndoZone where
  insertURecPtr : Nat
  discardURecPtr : Nat
  forceDiscardURecPtr : Nat
  -- The slots that have been allocated, those of recycled transactions included.
  slots : List TransactionSlot
  recycleTSlotPtr : Nat
  frozenSlotPtr : Nat
  recycleXid : Nat
  frozenXid : Nat
  deriving DecidableEq

namespace UndoZone

def initial : UndoZone :=
  ⟨undoLogBlockHeaderSize, undoLogBlockHeaderSize, undoLogBlockHeaderSize, [], 0, 0,
    invalidTransactionId, invalidTransactionId⟩

def allocateTSlotPtr (zone : UndoZone) : Nat := zone.slots.length

-- A page that has not been written is full of zeros.
def fetchTransactionSlot (zone : UndoZone) (slotPtr : Nat) : TransactionSlot :=
  zone.slots.getD slotPtr ⟨invalidTransactionId, invalidUndoRecPtr, invalidUndoRecPtr, false⟩

def used (zone : UndoZone) : Bool := zone.insertURecPtr ≠ zone.forceDiscardURecPtr

def checkRecycle (zone : UndoZone) (start stop : Nat) : Bool :=
  zone.forceDiscardURecPtr ≤ zone.insertURecPtr ∧ stop ≤ zone.insertURecPtr ∧ start < stop
    ∧ start = zone.forceDiscardURecPtr

-- The value that `CheckUndoZoneMeta` leaves in `allocatePtr`: a wrapped pointer is unwrapped.
def checkUndoZoneMeta (zone : UndoZone) : Nat :=
  if zone.allocateTSlotPtr = 0 ∧ zone.recycleTSlotPtr ≠ 0 then
    zone.allocateTSlotPtr + 2 ^ 32 / blcksz * slotsPerBlock
  else
    zone.allocateTSlotPtr

end UndoZone

inductive UndoRecordState where
  | notInsert
  | normal
  | discard
  | forceDiscard
  deriving DecidableEq

def UndoZone.checkUndoRecordValid (zone : UndoZone) (offset : Nat) (checkForceRecycle : Bool)
    (recycleXmin : Nat) : UndoRecordState :=
  if zone.insertURecPtr ≤ offset then
    .notInsert
  else if zone.forceDiscardURecPtr ≤ offset then
    .normal
  else if zone.discardURecPtr ≤ offset ∧ checkForceRecycle then
    if zone.recycleXid < recycleXmin then .discard else .forceDiscard
  else
    .discard

def undoLogOffsetPlusUsableBytes (offset n : Nat) : Nat :=
  let byteNo := offset % blcksz - undoLogBlockHeaderSize + offset / blcksz * undoLogUsableBytesPerPage + n
  byteNo / undoLogUsableBytesPerPage * blcksz + undoLogBlockHeaderSize
    + byteNo % undoLogUsableBytesPerPage

end Zones

section Transactions

inductive XactStatus where
  | inProgress
  | committed
  | aborted
  deriving DecidableEq

structure Globals where
  nextXid : Nat
  status : Nat → XactStatus
  globalFrozenXid : Nat
  globalRecycleXid : Nat

namespace Globals

variable (g : Globals)

def transactionIdIsInProgress (xid : Nat) : Bool := g.status xid = .inProgress

def uheapTransactionIdDidCommit (xid : Nat) : Bool :=
  xid = frozenTransactionId ∨ (firstNormalTransactionId ≤ xid ∧ xid < g.globalRecycleXid)
    ∨ g.status xid = .committed

def recheckUndoRecycleXid (slot : TransactionSlot) : Option Unit :=
  if g.globalFrozenXid < g.globalRecycleXid
      ∨ (slot.xactId ≠ invalidTransactionId ∧ slot.xactId < g.globalFrozenXid
        ∧ !g.uheapTransactionIdDidCommit slot.xactId ∧ slot.needRollback) then
    none
  else
    some ()

def updateRollbackFinish (slot : TransactionSlot) : Option TransactionSlot :=
  if slot.needRollback then
    if slot.xactId < g.globalRecycleXid then none else some slot.updateRollbackProgress
  else
    some slot

end Globals

end Transactions

section AdvanceFrozenXid

structure Frozen where
  oldestFrozenXid : Nat
  oldestFrozenSlotPtr : Nat
  -- The field of the zone.
  frozenXid : Nat

variable (g : Globals) (zone : UndoZone)

-- The two loops over blocks of slots and over the slots of a block, for `n` slots from
-- `currentSlotPtr` on.
def advanceLoop (oldestXmin : Nat) : Nat → Nat → Frozen → Option Frozen
  | 0, _, f => some f
  | n + 1, currentSlotPtr, f =>
    let slot := zone.fetchTransactionSlot currentSlotPtr
    if slot.xactId = invalidTransactionId then
      (g.recheckUndoRecycleXid slot).map (fun _ => { f with oldestFrozenXid := g.globalFrozenXid })
    else
      (if slot.xactId < g.globalFrozenXid then g.recheckUndoRecycleXid slot else some ()).bind fun _ =>
        if slot.startUndoPtr = invalidUndoRecPtr then
          some { f with frozenXid := slot.xactId }
        else if !g.uheapTransactionIdDidCommit slot.xactId ∧ slot.xactId < oldestXmin
            ∧ slot.needRollback then
          some ⟨slot.xactId, currentSlotPtr, slot.xactId⟩
        else if oldestXmin ≤ slot.xactId then
          some ⟨f.oldestFrozenXid, currentSlotPtr, oldestXmin⟩
        else
          advanceLoop oldestXmin n (currentSlotPtr + 1)
            ⟨f.oldestFrozenXid, currentSlotPtr + 1, slot.xactId⟩

def advanceFrozenXid (oldestXmin : Nat) : Option Frozen :=
  let currentSlotPtr :=
    if zone.frozenSlotPtr > zone.recycleTSlotPtr then zone.frozenSlotPtr else zone.recycleTSlotPtr
  advanceLoop g zone oldestXmin (zone.checkUndoZoneMeta - currentSlotPtr) currentSlotPtr
    ⟨oldestXmin, zone.frozenSlotPtr, zone.frozenXid⟩

end AdvanceFrozenXid

section RecycleUndoSpace

structure Scan where
  recyclePtr : Nat
  startUndoPtr : Nat
  endUndoPtr : Nat
  oldestEndUndoPtr : Nat
  forceRecycle : Bool
  recycleXid : Nat
  undoRecycled : Bool

structure Limits where
  recycleXmin : Nat
  frozenXid : Nat
  forceRecycleXid : Nat

inductive Verdict where
  | keep
  | recycle
  | force
  deriving DecidableEq

variable (g : Globals) (l : Limits)

def verdict (slot : TransactionSlot) : Verdict :=
  if slot.xactId < l.recycleXmin then
    if l.frozenXid ≤ slot.xactId then .keep else .recycle
  else if ¬(firstNormalTransactionId ≤ l.forceRecycleXid ∧ slot.xactId < l.forceRecycleXid) then
    .keep
  else if g.transactionIdIsInProgress slot.xactId then
    .keep
  else if !g.uheapTransactionIdDidCommit slot.xactId ∧ slot.needRollback then
    .keep
  else
    .force

def Scan.recycleSlot (sc : Scan) (slot : TransactionSlot) (force : Bool) : Scan :=
  let forceRecycle := sc.forceRecycle || force
  { recyclePtr := sc.recyclePtr + 1
    startUndoPtr := if sc.startUndoPtr = invalidUndoRecPtr then slot.startUndoPtr else sc.startUndoPtr
    endUndoPtr := slot.endUndoPtr
    oldestEndUndoPtr := if forceRecycle then sc.oldestEndUndoPtr else slot.endUndoPtr
    forceRecycle
    recycleXid := slot.xactId
    undoRecycled := true }

def scanBlock (zone : UndoZone) (block : Nat) : Nat → Scan → Option Scan
  | 0, sc => some sc
  | n + 1, sc =>
    if sc.recyclePtr / slotsPerBlock ≠ block then
      some sc
    else
      let slot := zone.fetchTransactionSlot sc.recyclePtr
      if slot.xactId = invalidTransactionId then
        (g.recheckUndoRecycleXid slot).map (fun _ => sc)
      else if slot.startUndoPtr = invalidUndoRecPtr then
        some sc
      else
        (if slot.xactId < g.globalRecycleXid then g.recheckUndoRecycleXid slot else some ()).bind fun _ =>
          match verdict g l slot with
          | .keep => some sc
          | .recycle => scanBlock zone block n (sc.recycleSlot slot false)
          | .force => scanBlock zone block n (sc.recycleSlot slot true)

def UndoZone.discard (zone : UndoZone) (sc : Scan) : UndoZone :=
  { zone with
    discardURecPtr :=
      if sc.oldestEndUndoPtr ≠ invalidUndoRecPtr then sc.oldestEndUndoPtr else zone.discardURecPtr
    recycleXid := sc.recycleXid
    forceDiscardURecPtr := sc.endUndoPtr
    recycleTSlotPtr := sc.recyclePtr }

structure Recycled where
  zone : UndoZone
  result : Bool
  oldestRecycleXid : Nat

-- The outer loop; each turn that goes on has recycled a slot.
def recycleLoop (allocatePtr : Nat) : Nat → Scan → Recycled → Option Recycled
  | 0, _, r => some r
  | n + 1, sc, r =>
    if sc.recyclePtr < allocatePtr then
      (scanBlock g l r.zone (sc.recyclePtr / slotsPerBlock) (allocatePtr - sc.recyclePtr)
        { sc with startUndoPtr := invalidUndoRecPtr, undoRecycled := false }).bind fun sc =>
          if sc.undoRecycled then
            if r.zone.checkRecycle sc.startUndoPtr sc.endUndoPtr then
              recycleLoop allocatePtr n sc ⟨r.zone.discard sc, true, sc.recycleXid⟩
            else
              none
          else
            some r
    else
      some r

def recycleUndoSpace (zone : UndoZone) : Option Recycled :=
  let allocatePtr := zone.checkUndoZoneMeta
  recycleLoop g l allocatePtr (allocatePtr - zone.recycleTSlotPtr)
    ⟨zone.recycleTSlotPtr, invalidUndoRecPtr, invalidUndoRecPtr, invalidUndoRecPtr, false,
      invalidTransactionId, false⟩
    ⟨zone, false, if l.recycleXmin < l.frozenXid then l.recycleXmin else l.frozenXid⟩

end RecycleUndoSpace

section UndoRecycleMain

structure Pass where
  oldestXmin : Nat
  recycleXmin : Nat
  forceRecycleXid : Nat
  idx : Nat
  oldestFrozenXidInUndo : Nat
  oldestXidHavingUndo : Nat
  recycleMaxXIDs : List Nat
  isAnyZoneUsed : Bool

def Pass.start (oldestXmin recycleXmin forceRecycleXid : Nat) : Pass :=
  ⟨oldestXmin, recycleXmin, forceRecycleXid, 0, oldestXmin, invalidTransactionId, [], false⟩

def updateRecycledXid (recycleMaxXIDs : List Nat) (recycleXid : Nat)
    : List Nat :=
  if recycleXid ≠ invalidTransactionId then recycleMaxXIDs ++ [recycleXid] else recycleMaxXIDs

def updateXidHavingUndo (recycleMaxXIDs : List Nat)
    (oldestXidHavingUndo oldestXmin : Nat) : Nat :=
  if recycleMaxXIDs.length > 0 then
    recycleMaxXIDs.foldl (fun oldest xid =>
      if oldest = invalidTransactionId then xid else if oldest > xid then xid else oldest)
      oldestXidHavingUndo
  else
    oldestXmin

def recycleZone (g : Globals) (p : Pass) (zone : UndoZone) : Option (UndoZone × Pass) :=
  if zone.used then
    let zone :=
      if zone.frozenXid = invalidTransactionId then { zone with frozenXid := g.globalFrozenXid } else zone
    (advanceFrozenXid g zone p.oldestXmin).bind fun f =>
      let zone := { zone with frozenXid := f.frozenXid, frozenSlotPtr := f.oldestFrozenSlotPtr }
      (recycleUndoSpace g ⟨p.recycleXmin, f.oldestFrozenXid, p.forceRecycleXid⟩ zone).map fun r =>
        (r.zone, { p with
          idx := p.idx + 1
          oldestFrozenXidInUndo :=
            if p.oldestFrozenXidInUndo > f.oldestFrozenXid then f.oldestFrozenXid
            else p.oldestFrozenXidInUndo
          recycleMaxXIDs := updateRecycledXid p.recycleMaxXIDs r.oldestRecycleXid
          isAnyZoneUsed := true })
  else
    some (zone, { p with idx := p.idx + 1 })

def Pass.writeFrozenXid (p : Pass) (g : Globals) : Globals :=
  if p.isAnyZoneUsed then { g with globalFrozenXid := p.oldestFrozenXidInUndo } else g

def Pass.havingUndo (p : Pass) (uZoneCount : Nat) : Nat :=
  if uZoneCount ≠ 0 then
    updateXidHavingUndo p.recycleMaxXIDs p.oldestXidHavingUndo p.recycleXmin
  else
    p.oldestXidHavingUndo

def Pass.retry (p : Pass) (uZoneCount : Nat) (forceRecycleXid : Nat) : Pass :=
  { p with
    forceRecycleXid
    idx := 0
    oldestXidHavingUndo := p.havingUndo uZoneCount
    recycleMaxXIDs := []
    isAnyZoneUsed := false }

def Pass.writeRecycleXid (p : Pass) (uZoneCount : Nat) (g : Globals) : Globals :=
  let oldestXidHavingUndo := p.havingUndo uZoneCount
  if oldestXidHavingUndo ≠ invalidTransactionId then
    let oldestXidHavingUndo :=
      if p.recycleXmin < oldestXidHavingUndo then p.recycleXmin else oldestXidHavingUndo
    if oldestXidHavingUndo > g.globalRecycleXid then
      { g with globalRecycleXid := oldestXidHavingUndo }
    else
      g
  else
    g

end UndoRecycleMain

end UndoRecycle

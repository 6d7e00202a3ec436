import OpenGauss.Lib.Interleaving
import OpenGauss.Ustore.UndoRecord.Prev
import OpenGauss.Ustore.UndoRecycle.Impl

/-!
This module contains the segment files of undo spaces: how the spaces of a zone are extended and released,
from `knl_uundospace.cpp`, `knl_uundozone.cpp`, `knl_uundofile.cpp` and `knl_uextremeredo.cpp`.

Offsets are natural numbers. The server runs either as primary or, with extreme RTO, as a standby that
is read from; `recovery` says which.
-/

namespace UndoSpaces

open Undo

def undosegSize : Nat := 128
def undoMetaSegSize : Nat := 4
def undoLogSegmentSize : Nat := blcksz * undosegSize
def undoMetaSegmentSize : Nat := blcksz * undoMetaSegSize
def undoLogMaxSize : Nat := 2 ^ 44

-- `UNDO_DB_OID` and `UNDO_SLOT_DB_OID`
inductive UndoDb where
  | undoDb
  | undoSlotDb
  deriving DecidableEq

def usegSize : UndoDb → Nat
  | .undoDb => undoLogSegmentSize
  | .undoSlotDb => undoMetaSegmentSize

def usegBlocks : UndoDb → Nat
  | .undoDb => undosegSize
  | .undoSlotDb => undoMetaSegSize

section State

structure UndoSpace where
  head : Nat
  headExrto : Nat
  tail : Nat
  deriving DecidableEq

structure UndoZone where
  permanent : Bool
  undoSpace : UndoSpace
  slotSpace : UndoSpace
  insertURecPtr : Nat
  allocateTSlotPtr : Nat
  deriving DecidableEq

namespace UndoZone

def getSpace (zone : UndoZone) : UndoDb → UndoSpace
  | .undoDb => zone.undoSpace
  | .undoSlotDb => zone.slotSpace

def setSpace (zone : UndoZone) (dbId : UndoDb) (space : UndoSpace) : UndoZone :=
  match dbId with
  | .undoDb => { zone with undoSpace := space }
  | .undoSlotDb => { zone with slotSpace := space }

def insertPos (zone : UndoZone) : UndoDb → Nat
  | .undoDb => zone.insertURecPtr
  | .undoSlotDb => zone.allocateTSlotPtr

end UndoZone

-- A file that is unlinked outside of redo is cut to length 0 and removed by the next checkpoint.
inductive UndoFile where
  | absent
  | full
  | emptied
  deriving DecidableEq

structure FileTag where
  zid : Nat
  dbId : UndoDb
  segno : Nat
  deriving DecidableEq

inductive UndoXlog where
  | extend (dbId : UndoDb) (prevtail tail : UInt64)
  | unlink (dbId : UndoDb) (head prevhead : UInt64)
  deriving DecidableEq

-- `created` and `unlinked` are the calls so far, the latter with the end that was released to;
-- `primaryHead` is the head that the log of the primary has given last.
structure Instance where
  zones : Nat → UndoZone
  file : FileTag → UndoFile
  undoTotalSize : UInt32
  undoMetaSize : UInt32
  forceRecycleSize : Int
  xlog : List UndoXlog
  created : List FileTag
  unlinked : List (FileTag × Nat)
  primaryHead : Nat → UndoDb → Nat

namespace Instance

def space (s : Instance) (zid : Nat) (dbId : UndoDb) : UndoSpace := (s.zones zid).getSpace dbId

def setZone (s : Instance) (zid : Nat) (zone : UndoZone) : Instance :=
  { s with zones := fun z => if z = zid then zone else s.zones z }

def setSpace (s : Instance) (zid : Nat) (dbId : UndoDb) (space : UndoSpace) : Instance :=
  s.setZone zid ((s.zones zid).setSpace dbId space)

def setTail (s : Instance) (zid : Nat) (dbId : UndoDb) (tail : Nat) : Instance :=
  s.setSpace zid dbId { s.space zid dbId with tail }

def setHead (s : Instance) (zid : Nat) (dbId : UndoDb) (head : Nat) : Instance :=
  s.setSpace zid dbId { s.space zid dbId with head }

def setHeadExrto (s : Instance) (zid : Nat) (dbId : UndoDb) (headExrto : Nat) : Instance :=
  s.setSpace zid dbId { s.space zid dbId with headExrto }

end Instance

end State

namespace Instance

section Files

def setFile (s : Instance) (tag : FileTag) (file : UndoFile) : Instance :=
  { s with file := fun t => if t = tag then file else s.file t }

def extendUndoFile (s : Instance) (zid : Nat) (dbId : UndoDb) (blockno : Nat) : Instance :=
  let tag : FileTag := ⟨zid, dbId, blockno / usegBlocks dbId⟩
  { s.setFile tag .full with created := tag :: s.created }

-- The recycler does not redo, so the file is emptied and its removal registered.
def unlinkUndoFile (s : Instance) (zid : Nat) (dbId : UndoDb) (blockno releaseEnd : Nat) : Instance :=
  let tag : FileTag := ⟨zid, dbId, blockno / usegBlocks dbId⟩
  let file := if s.file tag = .full then .emptied else s.file tag
  { s.setFile tag file with unlinked := (tag, releaseEnd) :: s.unlinked }

def checkPoint (s : Instance) : Instance :=
  { s with file := fun t => if s.file t = .emptied then .absent else s.file t }

end Files

section Extend

def overLimit (total metaSize : UInt32) (limit : Int) : Bool :=
  limit ≤ total.toInt32.toInt + metaSize.toInt32.toInt

def extendSegment (s : Instance) (zid : Nat) (dbId : UndoDb) (tail : Nat) : Instance :=
  let blockno := (tail / blcksz + 1) % 2 ^ 32
  let s := s.extendUndoFile zid dbId blockno
  { s with undoTotalSize := s.undoTotalSize + UInt32.ofNat (usegBlocks dbId) }

-- What remains after an error is in the instance that goes with `false`.
def extendLoop (inRecovery : Bool) (limit : Int) (zid offset : Nat) (dbId : UndoDb)
    : Nat → Nat → Instance → Bool × Instance
  | 0, _, s => (true, s)
  | turns + 1, tail, s =>
    if tail < offset then
      if !inRecovery && overLimit s.undoTotalSize s.undoMetaSize limit then
        (false, s)
      else
        let s := s.extendSegment zid dbId tail
        extendLoop inRecovery limit zid offset dbId turns (tail + usegSize dbId) s
    else
      (true, s)

-- How many segments a loop in steps of one passes between two offsets.
def segments (dbId : UndoDb) (first last : Nat) : Nat := (last - first + usegSize dbId - 1) / usegSize dbId

def extendUndoLog (s : Instance) (inRecovery : Bool) (limit : Int) (zid offset : Nat) (dbId : UndoDb)
    : Bool × Instance :=
  let tail := (s.space zid dbId).tail
  match extendLoop inRecovery limit zid offset dbId (segments dbId tail offset) tail s with
  | (true, s) => (true, s.setTail zid dbId offset)
  | (false, s) => (false, s)

def writeUndoXlog (s : Instance) (xlrec : UndoXlog) : Instance := { s with xlog := s.xlog ++ [xlrec] }

def newInsert (s : Instance) (zid : Nat) (dbId : UndoDb) (size : Nat) : Nat :=
  undoLogOffsetPlusUsableBytes ((s.zones zid).insertPos dbId) size

def newTail (s : Instance) (zid : Nat) (dbId : UndoDb) (size : Nat) : Nat :=
  s.newInsert zid dbId size + usegSize dbId - s.newInsert zid dbId size % usegSize dbId

def allocate (dbId : UndoDb) (s : Instance) (inRecovery : Bool) (limit : Int) (zid size : Nat)
    : Option UInt64 × Instance :=
  let oldInsert := (s.zones zid).insertPos dbId
  let urp := makeUndoPtr (UInt64.ofNat zid) (UInt64.ofNat oldInsert)
  if (s.space zid dbId).tail < s.newInsert zid dbId size then
    let prevtail := makeUndoPtr (UInt64.ofNat zid) (UInt64.ofNat (s.space zid dbId).tail)
    match s.extendUndoLog inRecovery limit zid (s.newTail zid dbId size) dbId with
    | (false, s) => (none, s)
    | (true, s) =>
      if (s.zones zid).permanent then
        let tail := makeUndoPtr (UInt64.ofNat zid) (UInt64.ofNat (s.space zid dbId).tail)
        (some urp, s.writeUndoXlog (.extend dbId prevtail tail))
      else
        (some urp, s)
  else
    (some urp, s)

def allocateSpace (s : Instance) (inRecovery : Bool) (limit : Int) (zid size : Nat)
    : Option UInt64 × Instance :=
  allocate .undoDb s inRecovery limit zid size

def allocateSlotSpace (s : Instance) (inRecovery : Bool) (limit : Int) (zid : Nat)
    : Option UInt64 × Instance :=
  allocate .undoSlotDb s inRecovery limit zid UndoRecycle.slotSize

def advanceInsertURecPtr (s : Instance) (zid oldInsert size : Nat) : Instance :=
  s.setZone zid { s.zones zid with insertURecPtr := undoLogOffsetPlusUsableBytes oldInsert size }

def allocTransactionSlot (s : Instance) (zid slotPtr : Nat) : Instance :=
  s.setZone zid { s.zones zid with allocateTSlotPtr := UndoRecycle.getNextSlotPtr slotPtr }

end Extend

section Release

-- The head that counts: `head_` on the primary and `head_exrto` in recovery.
def firstOffset (s : Instance) (recovery : Bool) (zid : Nat) (dbId : UndoDb) : Nat :=
  if recovery then (s.space zid dbId).headExrto else (s.space zid dbId).head

def unlinkSegment (s : Instance) (zid : Nat) (dbId : UndoDb) (head releaseEnd : Nat) : Instance :=
  let s := s.unlinkUndoFile zid dbId (head / blcksz % 2 ^ 32) releaseEnd
  let segBlocks := UInt32.ofNat (usegBlocks dbId)
  if s.undoTotalSize < segBlocks then
    { s with undoTotalSize := 0 }
  else
    { s with undoTotalSize := s.undoTotalSize - segBlocks }

def unlinkLoop (zid offset : Nat) (dbId : UndoDb) (releaseEnd : Nat) : Nat → Nat → Instance → Instance
  | 0, _, s => s
  | turns + 1, head, s =>
    if head < offset then
      let s := s.unlinkSegment zid dbId head releaseEnd
      unlinkLoop zid offset dbId releaseEnd turns (head + usegSize dbId) s
    else
      s

-- The head is set once in the branch and once more behind it.
def unlinkUndoLog (s : Instance) (recovery : Bool) (zid offset : Nat) (dbId : UndoDb) (releaseEnd : Nat)
    : Instance :=
  let head := s.firstOffset recovery zid dbId
  let s := if recovery then s.setHeadExrto zid dbId offset else s.setHead zid dbId offset
  let s := s.setHead zid dbId offset
  unlinkLoop zid offset dbId releaseEnd (segments dbId head offset) head s

def release (dbId : UndoDb) (s : Instance) (recovery : Bool) (zid : Nat) (endurp : UInt64) : Instance :=
  let stop := (undoPtrGetOffset endurp).toNat
  let head := s.firstOffset recovery zid dbId
  let startSegno := head / usegSize dbId
  let endSegno := stop / usegSize dbId
  if startSegno < endSegno then
    let s :=
      if 0 < s.forceRecycleSize then
        { s with forceRecycleSize := s.forceRecycleSize - (endSegno - startSegno : Nat) * usegBlocks dbId }
      else s
    let prevhead := makeUndoPtr (UInt64.ofNat zid) (UInt64.ofNat head)
    let s := s.unlinkUndoLog recovery zid (endSegno * usegSize dbId) dbId stop
    if (s.zones zid).permanent && !recovery then
      let head := makeUndoPtr (UInt64.ofNat zid) (UInt64.ofNat (s.space zid dbId).head)
      s.writeUndoXlog (.unlink dbId head prevhead)
    else
      s
  else
    s

def releaseSpace (s : Instance) (recovery : Bool) (zid : Nat) (endurp : UInt64) : Instance :=
  release .undoDb s recovery zid endurp

def releaseSlotSpace (s : Instance) (recovery : Bool) (zid : Nat) (endSlotPtr : UInt64) : Instance :=
  release .undoSlotDb s recovery zid endSlotPtr

end Release

section Redo

def redoExtendBlock (s : Instance) (zid : Nat) (dbId : UndoDb) (tailOffset : Nat) : Instance :=
  (s.extendUndoLog true 0 zid tailOffset dbId).2

/-- `RedoUndoUnlinkBlock` and `RedoSlotUnlinkBlock` on a standby that is read from. -/
def redoUnlinkBlock (s : Instance) (zid : Nat) (dbId : UndoDb) (headOffset : Nat) : Instance :=
  { s.setHead zid dbId headOffset with
    primaryHead := fun z d => if z = zid ∧ d = dbId then headOffset else s.primaryHead z d }

end Redo

end Instance

section Runs

inductive Action where
  | allocateSpace (zid size : Nat) (limit : Int)
  | allocateSlotSpace (zid : Nat) (limit : Int)
  | advanceInsertURecPtr (zid oldInsert size : Nat)
  | allocTransactionSlot (zid slotPtr : Nat)
  | releaseSpace (zid : Nat) (endurp : UInt64)
  | releaseSlotSpace (zid : Nat) (endSlotPtr : UInt64)
  | redoExtendBlock (zid : Nat) (dbId : UndoDb) (tailOffset : Nat)
  | redoUnlinkBlock (zid : Nat) (dbId : UndoDb) (headOffset : Nat)
  | checkPoint

namespace Action

def apply (recovery : Bool) (s : Instance) : Action → Instance
  | allocateSpace zid size limit => (s.allocateSpace recovery limit zid size).2
  | allocateSlotSpace zid limit => (s.allocateSlotSpace recovery limit zid).2
  | advanceInsertURecPtr zid oldInsert size => s.advanceInsertURecPtr zid oldInsert size
  | allocTransactionSlot zid slotPtr => s.allocTransactionSlot zid slotPtr
  | releaseSpace zid endurp => s.releaseSpace recovery zid endurp
  | releaseSlotSpace zid endSlotPtr => s.releaseSlotSpace recovery zid endSlotPtr
  | redoExtendBlock zid dbId tailOffset => s.redoExtendBlock zid dbId tailOffset
  | redoUnlinkBlock zid dbId headOffset => s.redoUnlinkBlock zid dbId headOffset
  | checkPoint => s.checkPoint

-- What the callers promise: zones that run out of offsets are left (`CheckNeedSwitch`), pointers move over
-- space that was allocated, and nothing is released that was not inserted (`CheckRecycle`).
def Allowed (recovery : Bool) (s : Instance) : Action → Prop
  | allocateSpace zid size _ => s.newInsert zid .undoDb size + undoLogSegmentSize ≤ undoLogMaxSize
  | allocateSlotSpace zid _ =>
    s.newInsert zid .undoSlotDb UndoRecycle.slotSize + undoMetaSegmentSize ≤ undoLogMaxSize
  | advanceInsertURecPtr zid oldInsert size =>
    undoLogOffsetPlusUsableBytes oldInsert size ≤ (s.zones zid).undoSpace.tail
  | allocTransactionSlot zid slotPtr =>
    undoLogOffsetPlusUsableBytes slotPtr UndoRecycle.slotSize ≤ (s.zones zid).slotSpace.tail
  | releaseSpace zid endurp => (undoPtrGetOffset endurp).toNat ≤ (s.zones zid).insertURecPtr
  | releaseSlotSpace zid endSlotPtr => (undoPtrGetOffset endSlotPtr).toNat ≤ (s.zones zid).allocateTSlotPtr
  | redoExtendBlock zid dbId tailOffset =>
    recovery = true ∧ usegSize dbId ∣ tailOffset ∧ (s.space zid dbId).tail ≤ tailOffset
      ∧ tailOffset ≤ undoLogMaxSize
  | redoUnlinkBlock _ _ _ => recovery = true
  | checkPoint => True

end Action

def Step (recovery : Bool) (s : Instance) (a : Action) (s' : Instance) : Prop :=
  a.Allowed recovery s ∧ s' = a.apply recovery s

end Runs

end UndoSpaces

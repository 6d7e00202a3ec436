import OpenGauss.Lib.MaxHeap
import Mathlib.Algebra.Group.Nat.Defs
import Mathlib.Algebra.Group.Int.Defs

/-!
This module contains the space allocation of the columns, `cstore_allocspace.cpp`: the heap of free
descriptors, how it is computed from the CUs of a column, and the allocation from it and at the end of
the file.

Offsets and sizes are `uint64`, given as natural numbers with explicit wrapping.
-/

namespace CStore

def wrap64 (n : Nat) : Nat := n % 2 ^ 64

def invalidCStoreOffset : Nat := 0xffffffffffffffff
def minAvailableCStoreFSMSize : Nat := 1024
def maxNumOfHoleFSM : Nat := 100 * 1024 * 1024 / 16

structure CStoreFreeSpaceDesc where
  beginOffset : Nat
  size : Nat
  deriving DecidableEq

-- `m_descs` starts at 1.
structure CStoreFreeSpace where
  descs : Nat → CStoreFreeSpaceDesc
  descNum : Nat
  maxSize : Nat
  descNum_le : descNum ≤ maxSize

namespace CStoreFreeSpace

def init (maxSize : Nat) : CStoreFreeSpace where
  descs := fun _ => ⟨0, 0⟩
  descNum := 0
  maxSize := maxSize
  descNum_le := Nat.zero_le _

def isEmpty (fspace : CStoreFreeSpace) : Bool := fspace.descNum = 0

def isFull (fspace : CStoreFreeSpace) : Bool := fspace.descNum = fspace.maxSize

def push (fspace : CStoreFreeSpace) (desc : CStoreFreeSpaceDesc) : CStoreFreeSpace :=
  if h : fspace.maxSize = fspace.descNum then
    fspace
  else
    let i := fspace.descNum + 1
    { fspace with
      descs := MaxHeap.siftUp CStoreFreeSpaceDesc.size desc i fspace.descs i
      descNum := i
      descNum_le := by have := fspace.descNum_le; omega }

def popDescWithMaxSize (fspace : CStoreFreeSpace) : Option (CStoreFreeSpaceDesc × CStoreFreeSpace) :=
  if fspace.descNum = 0 then
    none
  else
    let desc := fspace.descs 1
    let tmp := fspace.descs fspace.descNum
    let descNum := fspace.descNum - 1
    some (desc, { fspace with
      descs := MaxHeap.siftDown CStoreFreeSpaceDesc.size descNum tmp descNum fspace.descs 1
      descNum
      descNum_le := by have := fspace.descNum_le; omega })

def hasEnoughSpace (fspace : CStoreFreeSpace) (size : Nat) : Bool :=
  if fspace.isEmpty then false else size ≤ (fspace.descs 1).size

end CStoreFreeSpace

section ComputeFreeSpace

structure CUDesc where
  cuPointer : Option Nat
  size : Nat
  deriving DecidableEq

-- The flag says that a new entry was put into the list.
def insertSpaceDesc (spaceDesc : CStoreFreeSpaceDesc)
    : List CStoreFreeSpaceDesc → List CStoreFreeSpaceDesc × Bool
  | [] => if spaceDesc.beginOffset ≠ invalidCStoreOffset then ([spaceDesc], true) else ([], false)
  | curEntry :: rest =>
    if wrap64 (curEntry.beginOffset + curEntry.size) = spaceDesc.beginOffset then
      let curEntry := { curEntry with size := wrap64 (curEntry.size + spaceDesc.size) }
      match rest with
      | [] => ([curEntry], false)
      | nextEntry :: rest =>
        if nextEntry.beginOffset = wrap64 (curEntry.beginOffset + curEntry.size) then
          ({ curEntry with size := wrap64 (curEntry.size + nextEntry.size) } :: rest, false)
        else
          (curEntry :: nextEntry :: rest, false)
    else if spaceDesc.beginOffset < curEntry.beginOffset then
      if wrap64 (spaceDesc.beginOffset + spaceDesc.size) = curEntry.beginOffset then
        ({ beginOffset := spaceDesc.beginOffset, size := wrap64 (curEntry.size + spaceDesc.size) } :: rest,
          false)
      else
        (spaceDesc :: curEntry :: rest, true)
    else
      let (rest, isNew) := insertSpaceDesc spaceDesc rest
      (curEntry :: rest, isNew)

-- None when the scan is given up because the list is too long.
def scanCUDesc : List CUDesc → List CStoreFreeSpaceDesc → Option (List CStoreFreeSpaceDesc)
  | [], beginOffsetOrderedList => some beginOffsetOrderedList
  | tup :: tups, beginOffsetOrderedList =>
    match tup.cuPointer with
    | none => scanCUDesc tups beginOffsetOrderedList
    | some beginOffset =>
      if tup.size = 0 then
        scanCUDesc tups beginOffsetOrderedList
      else
        let (beginOffsetOrderedList, isNew) :=
          insertSpaceDesc ⟨beginOffset, tup.size⟩ beginOffsetOrderedList
        if isNew ∧ beginOffsetOrderedList.length > maxNumOfHoleFSM then
          none
        else
          scanCUDesc tups beginOffsetOrderedList

def pushFirstHole (beginOffsetOrderedList : List CStoreFreeSpaceDesc) (fspace : CStoreFreeSpace)
    : CStoreFreeSpace :=
  match beginOffsetOrderedList with
  | [] => fspace
  | entry :: _ =>
    if entry.beginOffset > minAvailableCStoreFSMSize then fspace.push ⟨0, entry.beginOffset⟩ else fspace

def pushHoles : List CStoreFreeSpaceDesc → CStoreFreeSpace → CStoreFreeSpace
  | curEntry :: nextEntry :: rest, fspace =>
    if wrap64 (curEntry.beginOffset + curEntry.size + minAvailableCStoreFSMSize) < nextEntry.beginOffset then
      let beginOffset := wrap64 (curEntry.beginOffset + curEntry.size)
      let fspace := fspace.push ⟨beginOffset, wrap64 (nextEntry.beginOffset + 2 ^ 64 - beginOffset)⟩
      if fspace.isFull then fspace else pushHoles (nextEntry :: rest) fspace
    else
      pushHoles (nextEntry :: rest) fspace
  | _, fspace => fspace

def computeFreeSpace (tups : List CUDesc) (fspace : CStoreFreeSpace) : CStoreFreeSpace :=
  match scanCUDesc tups [] with
  | none => fspace
  | some beginOffsetOrderedList =>
    pushHoles beginOffsetOrderedList (pushFirstHole beginOffsetOrderedList fspace)

end ComputeFreeSpace

section Acquire

-- The offset and the new `maxOffset`.
def acquireSpace (maxOffset size alignSize : Nat) : Nat × Nat :=
  let offset := maxOffset
  let remainder := offset % alignSize
  let offset := if remainder ≠ 0 then wrap64 (offset + alignSize - remainder) else offset
  (offset, wrap64 (offset + size))

def tryAcquireSpaceFromFSM (fsm : CStoreFreeSpace) (size alignSize : Nat) : Nat × CStoreFreeSpace :=
  if ¬ fsm.hasEnoughSpace (wrap64 (size + alignSize)) then
    (invalidCStoreOffset, fsm)
  else
    match fsm.popDescWithMaxSize with
    | none => (invalidCStoreOffset, fsm)
    | some (desc, fsm) =>
      let offset := desc.beginOffset
      let remainder := offset % alignSize
      let offset := if remainder ≠ 0 then wrap64 (offset + alignSize - remainder) else offset
      -- The remainder is taken off the size, not what the alignment has skipped.
      let descSize := if remainder ≠ 0 then wrap64 (desc.size + 2 ^ 64 - remainder) else desc.size
      let desc := ⟨wrap64 (offset + size), wrap64 (descSize + 2 ^ 64 - wrap64 size)⟩
      (offset, if desc.size > 0 then fsm.push desc else fsm)

structure Acquired where
  offset : Nat
  size : Nat
  alignSize : Nat
  deriving DecidableEq

-- `handedOut` holds the returned ranges, the last one first.
structure AllocState where
  fsm : CStoreFreeSpace
  maxOffset : Nat
  handedOut : List Acquired

def AllocState.allocSpace (s : AllocState) (size alignSize : Nat) : AllocState :=
  let (offset, fsm) := tryAcquireSpaceFromFSM s.fsm size alignSize
  if offset ≠ invalidCStoreOffset then
    { s with fsm, handedOut := ⟨offset, size, alignSize⟩ :: s.handedOut }
  else
    let (offset, maxOffset) := acquireSpace s.maxOffset size alignSize
    { fsm, maxOffset, handedOut := ⟨offset, size, alignSize⟩ :: s.handedOut }

end Acquire

end CStore

import OpenGauss.Ustore.Visibility.Impl

/-!
This module contains the insertion of a batch of tuples into one page of Ustore (`UHeapMultiInsert`), which
decides on the row pointers to use before it reserves a TD slot.
-/

namespace Ustore

namespace MultiInsert

open AddItem (maxOffsetNumber)
open Visibility (rowPtrIsDeleted rowPtrGetTDSlot rowptrXactInvalid frozenSlot)

def sizeOfUHeapDiskTupleData : Nat := 11

def calculatedMaxUHeapTuplesPerPage (tdSlots : Nat) : Nat :=
  (blcksz - sizeOfUHeapPageHeaderData - tdSlots * sizeOfTD) / (sizeOfUHeapDiskTupleData + sizeOfRowPtr)

structure TD where
  xactid : Nat
  undoRecordPtr : Nat
  deriving DecidableEq

structure Env where
  isLocal : Bool
  fxid : Nat
  -- `fxid` relative to the base of the page.
  tupleXid : UInt32
  globalRecycleXid : Nat
  isInProgress : Nat → Bool
  didCommit : Nat → Bool
  saveFreeSpace : Nat
  -- The TD slots that a new page of the relation has.
  initTd : Nat

section Ranges

def isFree (page : UPage) (offnum : Nat) : Bool :=
  !(page.rowPtrs offnum).isUsed && !(page.rowPtrs offnum).hasStorage

-- The last range is the first of the list. `tuples` begins with the one to be placed next.
structure LocateState where
  inRange : Bool
  ranges : List (Nat × Nat)
  tuples : List Bytes
  usedSpace : Nat
  isFirstInsert : Bool

def addOffset (inRange : Bool) (ranges : List (Nat × Nat)) (offnum : Nat) : List (Nat × Nat) :=
  match inRange, ranges with
  | true, range :: ranges => (range.1, offnum) :: ranges
  | _, ranges => (offnum, offnum) :: ranges

def locateUsableItemIds (page : UPage) (saveFreeSpace : Nat) : List Nat → LocateState → LocateState
  | [], st => st
  | offnum :: offnums, st =>
    match st.tuples with
    | [] => st
    | tuple :: tuples =>
      if isFree page offnum then
        let neededSpace :=
          if st.isFirstInsert then st.usedSpace + tuple.length
          else st.usedSpace + tuple.length + saveFreeSpace
        if page.pdUpper - page.pdLower < neededSpace then
          { st with isFirstInsert := false }
        else
          locateUsableItemIds page saveFreeSpace offnums
            { inRange := true
              ranges := addOffset st.inRange st.ranges offnum
              tuples := tuples
              usedSpace := st.usedSpace + tuple.length
              isFirstInsert := false }
      else
        locateUsableItemIds page saveFreeSpace offnums { st with inRange := false }

-- None is an error: the first tuple does not fit.
def uheapGetUsableOffsetRanges (page : UPage) (tuples : List Bytes) (saveFreeSpace : Nat)
    : Option (List (Nat × Nat)) :=
  let limit := page.maxOffsetNumber + 1
  let st : LocateState := ⟨false, [], tuples, 0, true⟩
  let st :=
    if page.hasFreeLinePointers then
      locateUsableItemIds page saveFreeSpace (List.range' 1 page.maxOffsetNumber) st
    else
      st
  let ranges := st.ranges.reverse
  match st.tuples with
  | tuple :: _ =>
    if limit ≤ calculatedMaxUHeapTuplesPerPage page.tdCount then
      let neededSpace :=
        if ranges.isEmpty then st.usedSpace + sizeOfRowPtr + tuple.length
        else st.usedSpace + sizeOfRowPtr + tuple.length + saveFreeSpace
      if neededSpace ≤ page.pdUpper - page.pdLower then
        some (ranges ++ [(limit, min maxOffsetNumber (limit + st.tuples.length))])
      else if ranges.isEmpty then
        none
      else
        some ranges
    else if ranges.isEmpty then
      none
    else
      some ranges
  | [] => if ranges.isEmpty then none else some ranges

end Ranges

section Reserve

-- None for a row pointer without a row.
def rowTDSlot (page : UPage) (offnum : Nat) : Option Nat :=
  let rowptr := page.rowPtrs offnum
  if rowptr.flags = .dead || !rowptr.isUsed then none
  else if rowPtrIsDeleted rowptr then some (rowPtrGetTDSlot rowptr)
  else some (page.bytes (rowptr.offset + 4)).toNat

def rowPtrSetInvalidXact (rp : RowPtr) : RowPtr :=
  { rp with offset := rp.offset / 2 ^ 7 * 2 ^ 7 + rowptrXactInvalid }

def freezeOrInvalidateTuple (slots : List Nat) (isFrozen : Bool) (page : UPage) (offnum : Nat) : UPage :=
  let rowptr := page.rowPtrs offnum
  match rowTDSlot page offnum with
  | none => page
  | some tdSlot =>
    if slots.any fun slot => tdSlot = slot + 1 then
      if isFrozen then
        if rowPtrIsDeleted rowptr then
          { page.setRowPtr offnum .unused with hasFreeLinePointers := true }
        else
          { page with bytes := page.bytes.store (rowptr.offset + 4) [UInt8.ofNat frozenSlot] }
      else
        if rowPtrIsDeleted rowptr then
          page.setRowPtr offnum (rowPtrSetInvalidXact rowptr)
        else
          -- `UHEAP_INVALID_XACT_SLOT`
          let flag := page.bytes (rowptr.offset + 7) ||| 0x10
          { page with bytes := page.bytes.store (rowptr.offset + 7) [flag] }
    else
      page

def uheapFreezeOrInvalidateTuples (page : UPage) (slots : List Nat) (isFrozen : Bool) : UPage :=
  (List.range' 1 page.maxOffsetNumber).foldl (freezeOrInvalidateTuple slots isFrozen) page

def xactidAt (tds : List TD) (slot : Nat) : Nat := (tds.getD slot ⟨0, 0⟩).xactid

def clearSlots (tds : List TD) (slots : List Nat) (keepUndo : Bool) : List TD :=
  tds.mapIdx fun slot td => if slots.contains slot then ⟨0, if keepUndo then td.undoRecordPtr else 0⟩ else td

def frozenSlots (env : Env) (tds : List TD) : List Nat :=
  if env.isLocal then [0]
  else (List.range tds.length).filter fun slot => xactidAt tds slot < env.globalRecycleXid

def completedXactSlots (env : Env) (tds : List TD) : List Nat :=
  (List.range tds.length).filter fun slot =>
    !env.isInProgress (xactidAt tds slot) && env.didCommit (xactidAt tds slot)

-- None where no slot has become free, or only after the lock of the page has been given up.
def uheapPageFreezeTransSlots (env : Env) (page : UPage) (tds : List TD) : Option (UPage × List TD) :=
  let frozen := frozenSlots env tds
  if !frozen.isEmpty then
    some (uheapFreezeOrInvalidateTuples page frozen true, clearSlots tds frozen false)
  else
    let completed := completedXactSlots env tds
    if !completed.isEmpty then
      some (uheapFreezeOrInvalidateTuples page completed false, clearSlots tds completed true)
    else
      none

-- A slot that can be had without freezing one.
def availableSlot (env : Env) (tds : List TD) : Option Nat :=
  if env.isLocal then
    if xactidAt tds 0 = env.fxid || xactidAt tds 0 = 0 then some 0 else none
  else
    match tds.findIdx? fun td => td.xactid ≠ 0 && td.xactid = env.fxid with
    | some slot => some slot
    | none => tds.findIdx? fun td => td.xactid = 0

-- None where the inserter goes for another page, be it that the TD slots have been extended.
def uheapPageReserveTransactionSlot (env : Env) (page : UPage) (tds : List TD)
    : Option (Nat × UPage × List TD) :=
  match availableSlot env tds with
  | some slot => some (slot + 1, page, tds)
  | none =>
    match uheapPageFreezeTransSlots env page tds with
    | none => none
    | some (page, tds) => (tds.findIdx? fun td => td.xactid = 0).map fun slot => (slot + 1, page, tds)

end Reserve

section Insert

def pageGetUHeapFreeSpace (page : UPage) : Nat :=
  let space := page.pdUpper - page.pdLower - sizeOfRowPtr
  let nline := page.maxOffsetNumber
  if 0 < space && calculatedMaxUHeapTuplesPerPage page.tdCount ≤ nline &&
      !(page.hasFreeLinePointers && (List.range' 1 nline).any fun i => !(page.rowPtrs i).isUsed) then
    0
  else
    space

-- The header of a tuple: its transaction and slot, and the flag `SINGLE_LOCKER_XID_IS_TRANS`.
def stampTuple (tupleXid : UInt32) (tdSlot : Nat) (tuple : Bytes) : Bytes :=
  let tuple := (List.range 4).foldl
    (fun tuple i => tuple.set i (tupleXid >>> UInt32.ofNat (8 * i)).toUInt8) tuple
  (tuple.set 4 (UInt8.ofNat tdSlot)).set 7 (tuple.getD 7 0 ||| 0x80)

structure PageState where
  page : UPage
  tuples : List Bytes
  placed : List Nat

def fits (saveFreeSpace : Nat) (page : UPage) (isFirstInsert : Bool) (tuple : Bytes) : Bool :=
  let pagefreespace := pageGetUHeapFreeSpace page
  !((isFirstInsert && pagefreespace < tuple.length) ||
    (!isFirstInsert && pagefreespace < tuple.length + saveFreeSpace))

def insertRange (env : Env) (tdSlot firstOffset : Nat) : Nat → Nat → PageState → Option (Nat × PageState)
  | 0, offnum, st => some (offnum, st)
  | n + 1, offnum, st =>
    match st.tuples with
    | [] => some (offnum, st)
    | tuple :: tuples =>
      if fits env.saveFreeSpace st.page (offnum = firstOffset) tuple then
        match upageAddItem st.page (calculatedMaxUHeapTuplesPerPage env.initTd)
          (stampTuple env.tupleXid tdSlot tuple) with
        | none => none
        | some (ctid, page) =>
          insertRange env tdSlot firstOffset n (offnum + 1)
            { page := page.recordPotentialFreeSpace (-(shortAlign tuple.length))
              tuples := tuples
              placed := st.placed ++ [ctid] }
      else
        some (offnum, st)

def insertRanges (env : Env) (tdSlot firstOffset : Nat)
    : List (Nat × Nat) → PageState → Option (List (Nat × Nat) × PageState)
  | [], st => some ([], st)
  | range :: ranges, st =>
    match insertRange env tdSlot firstOffset (range.2 + 1 - range.1) range.1 st with
    | none => none
    | some (offnum, st) =>
      (insertRanges env tdSlot firstOffset ranges st).map fun res => ((range.1, offnum - 1) :: res.1, res.2)

structure Inserted where
  page : UPage
  tds : List TD
  tdSlot : Nat
  ranges : List (Nat × Nat)
  placed : List Nat
  tuples : List Bytes

inductive Outcome where
  | error
  | retry
  | panic
  | inserted (res : Inserted)

-- One page of `UHeapMultiInsert`. `tuples` are those that no page has taken yet.
def uheapMultiInsertPage (env : Env) (page : UPage) (tds : List TD) (tuples : List Bytes) : Outcome :=
  match uheapGetUsableOffsetRanges page tuples env.saveFreeSpace with
  | none => .error
  | some ranges =>
    match uheapPageReserveTransactionSlot env page tds with
    | none => .retry
    | some (tdSlot, page, tds) =>
      match insertRanges env tdSlot (ranges.headD (0, 0)).1 ranges ⟨page, tuples, []⟩ with
      | none => .panic
      | some (ranges, st) => .inserted ⟨st.page, tds, tdSlot, ranges, st.placed, st.tuples⟩

-- The offsets that the rollback of an `UNDO_MULTI_INSERT` goes through, record after record.
def covered (ranges : List (Nat × Nat)) : List Nat :=
  ranges.flatMap fun range => List.range' range.1 (range.2 + 1 - range.1)

end Insert

end MultiInsert

end Ustore

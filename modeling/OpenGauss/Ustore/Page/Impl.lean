import OpenGauss.Lib.Memory

/-!
This module contains the pages of Ustore, from `knl_upage.h` and `knl_upage.cpp`, the removal of the
gaps between the rows of a page (`knl_pruneuheap.cpp`), and `UPageAddItem` with everything it is
told and what it leaves of the page when it refuses an item. The row pointers and the TD slots stand
beside the bytes of the page, which hold the rows.
-/

namespace Ustore

-- `SHORTALIGN`
def shortAlign (len : Nat) : Nat := (len + 1) / 2 * 2

def blcksz : Nat := 8192
def sizeOfUHeapPageHeaderData : Nat := 56
def sizeOfTD : Nat := 16
def sizeOfRowPtr : Nat := 4
def invalidOffsetNumber : Nat := 0

inductive RowPtrFlags where
  | unused
  | normal
  | redirect
  | dead
  deriving DecidableEq, Repr

structure RowPtr where
  offset : Nat
  flags : RowPtrFlags
  len : Nat
  deriving DecidableEq, Repr

namespace RowPtr

def isUsed (rp : RowPtr) : Bool := rp.flags != .unused
def isNormal (rp : RowPtr) : Bool := rp.flags == .normal
def hasStorage (rp : RowPtr) : Bool := 0 < rp.len
def unused : RowPtr := ⟨0, .unused, 0⟩
def changeLen (rp : RowPtr) (len : Nat) : RowPtr := { rp with len := len }

end RowPtr

structure UPage where
  bytes : Memory
  hasFreeLinePointers : Bool
  pdLower : Nat
  pdUpper : Nat
  pdSpecial : Nat
  potentialFreespace : Nat
  tdCount : Nat
  rowPtrs : Nat → RowPtr

namespace UPage

def maxOffsetNumber (page : UPage) : Nat :=
  (page.pdLower - (sizeOfUHeapPageHeaderData + page.tdCount * sizeOfTD)) / sizeOfRowPtr

def setRowPtr (page : UPage) (offnum : Nat) (rp : RowPtr) : UPage :=
  { page with rowPtrs := fun i => if i = offnum then rp else page.rowPtrs i }

def rowData (page : UPage) (offnum : Nat) : Bytes :=
  page.bytes.load (page.rowPtrs offnum).offset (page.rowPtrs offnum).len

def setRowData (page : UPage) (offnum : Nat) (tup : Bytes) : UPage :=
  { page with bytes := page.bytes.store (page.rowPtrs offnum).offset tup }.setRowPtr offnum
    ((page.rowPtrs offnum).changeLen tup.length)

def recordPotentialFreeSpace (page : UPage) (delta : Int) : UPage :=
  let maxWritableSpc :=
    page.pdSpecial - (sizeOfUHeapPageHeaderData + page.tdCount * sizeOfTD)
  -- The sum is unsigned, so that it wraps around below zero.
  let sum := ((page.potentialFreespace + delta) % 2 ^ 64).toNat
  { page with potentialFreespace := min sum maxWritableSpc }

end UPage

section AddItem

-- The first unused row pointer. Where there is none although the page is said to have one, it no longer is.
def findNextFreeSlot (page : UPage) : Nat × UPage :=
  if page.hasFreeLinePointers then
    match (List.range' 1 page.maxOffsetNumber).find? fun i =>
      !(page.rowPtrs i).isUsed && !(page.rowPtrs i).hasStorage with
    | some offnum => (offnum, page)
    | none => (page.maxOffsetNumber + 1, { page with hasFreeLinePointers := false })
  else
    (page.maxOffsetNumber + 1, page)

def calculateLowerUpperPointers (page : UPage) (offnum : Nat) (item : Bytes) : Option UPage :=
  let limit := page.maxOffsetNumber + 1
  if limit < offnum then
    none
  else
    let lower := if offnum = limit then page.pdLower + sizeOfRowPtr else page.pdLower
    let potentialFreespace :=
      if offnum = limit then page.potentialFreespace - sizeOfRowPtr else page.potentialFreespace
    let alignedSize := shortAlign item.length
    -- `lower > upper` as signed integers
    if page.pdUpper < lower + alignedSize then
      none
    else
      let upper := page.pdUpper - alignedSize
      some ({ page with
        bytes := page.bytes.store upper item
        pdLower := lower
        pdUpper := upper
        potentialFreespace := potentialFreespace : UPage }.setRowPtr offnum ⟨upper, .normal, item.length⟩)

-- `UPageAddItem` without an offset number. A page holds at most `maxTuples` rows.
def upageAddItem (page : UPage) (maxTuples : Nat) (item : Bytes) : Option (Nat × UPage) :=
  let slot := findNextFreeSlot page
  if maxTuples < slot.1 then
    none
  else
    (calculateLowerUpperPointers slot.2 slot.1 item).map fun page => (slot.1, page)

end AddItem

section Repair

structure ItemIdSort where
  offsetindex : Nat
  itemoff : Nat
  alignedlen : Nat

-- The rows in order of their numbers; none is the error of a corrupted item pointer.
def collectItems (page : UPage) (targetOffnum spaceRequired : Nat)
    : List Nat → Option (List ItemIdSort)
  | [] => some []
  | offnum :: offnums => do
    let rp := page.rowPtrs offnum
    let items ← collectItems page targetOffnum spaceRequired offnums
    if rp.isUsed && rp.hasStorage then
      if rp.offset < page.pdUpper ∨ page.pdSpecial ≤ rp.offset then
        none
      else
        let len := if offnum = targetOffnum then rp.len + spaceRequired else rp.len
        some (⟨offnum, rp.offset, shortAlign len⟩ :: items)
    else
      some items

-- Every row but the target moves up to the rows before it. The target keeps its place in the list
-- for its length only.
def moveItems (targetOffnum : Nat) : List ItemIdSort → UPage → Nat → Nat → UPage × Nat × Nat
  | [], page, curr, newTupleLen => (page, curr, newTupleLen)
  | item :: items, page, curr, newTupleLen =>
    if targetOffnum = item.offsetindex then
      moveItems targetOffnum items page curr item.alignedlen
    else
      let curr := curr - item.alignedlen
      let bytes := page.bytes.copy curr page.bytes item.itemoff item.alignedlen
      let page := { page with bytes := bytes }.setRowPtr item.offsetindex
        { page.rowPtrs item.offsetindex with offset := curr }
      moveItems targetOffnum items page curr newTupleLen

def putTarget (page : UPage) (tuple : Bytes) (curr newTupleLen targetOffnum : Nat) : UPage :=
  if targetOffnum = invalidOffsetNumber then
    { page with pdUpper := curr }
  else
    let curr := curr - newTupleLen
    { page with bytes := page.bytes.store curr tuple, pdUpper := curr }.setRowPtr targetOffnum
      { page.rowPtrs targetOffnum with offset := curr }

def compactifyTuples (page : UPage) (items : List ItemIdSort) (targetOffnum : Nat) : UPage :=
  let sorted := items.mergeSort fun a b => b.itemoff ≤ a.itemoff
  let moved := moveItems targetOffnum sorted page page.pdSpecial 0
  putTarget moved.1 (page.rowData targetOffnum) moved.2.1 moved.2.2 targetOffnum

def unusedCleared (page : UPage) : UPage :=
  { page with rowPtrs := fun i => if (page.rowPtrs i).isUsed then page.rowPtrs i else .unused }

-- `MAXALIGN`
def maxAlign (len : Nat) : Nat := (len + 7) / 8 * 8

-- None is an error.
def upageRepairFragmentation (page : UPage) (targetOffnum spaceRequired : Nat) : Option UPage := do
  if page.pdLower < sizeOfUHeapPageHeaderData + page.tdCount * sizeOfTD ∨
      page.pdLower > page.pdUpper ∨ page.pdUpper > page.pdSpecial ∨ page.pdSpecial > blcksz ∨
      page.pdSpecial ≠ maxAlign page.pdSpecial then
    none
  let offnums := List.range' 1 page.maxOffsetNumber
  let items ← collectItems page targetOffnum spaceRequired offnums
  let page := { unusedCleared page with
    hasFreeLinePointers := offnums.any fun i => !(page.rowPtrs i).isUsed }
  if items.isEmpty then
    some { page with pdUpper := page.pdSpecial }
  else if page.pdSpecial - page.pdLower < (items.map (·.alignedlen)).sum then
    none
  else
    some (compactifyTuples page items targetOffnum)

end Repair

namespace AddItem

inductive Outcome where
  | added (offnum : Nat) (page : UPage)
  | refused (page : UPage)
  | raised

-- `maxTuples` is `CalculatedMaxUHeapTuplesPerPage` of the relation.
structure Request where
  inRecovery : Bool
  maxTuples : Nat
  item : Bytes
  offsetNumber : Nat
  overwrite : Bool

def maxOffsetNumber : Nat := blcksz / sizeOfRowPtr

def offsetNumberIsValid (offsetNumber : Nat) : Bool :=
  offsetNumber ≠ invalidOffsetNumber && offsetNumber ≤ maxOffsetNumber

-- None when the offset is no valid one, else `needshuffle`.
def checkOffsetValidity (page : UPage) (inRecovery overwrite : Bool) (offsetNumber : Nat) : Option Bool :=
  let limit := page.maxOffsetNumber + 1
  if overwrite then
    if offsetNumber < limit then
      let itemId := page.rowPtrs offsetNumber
      if inRecovery then
        if itemId.hasStorage then none else some false
      else
        if itemId.isUsed || itemId.hasStorage then none else some false
    else
      some false
  else
    some (offsetNumber < limit)

-- A value that is stored in an `int`.
def toInt (x : Int) : Int := Int.bmod x (2 ^ 32)

def upperFor (page : UPage) (item : Bytes) : Int := toInt (page.pdUpper - toInt (shortAlign item.length))

-- `memmove_s` of the row pointers from `offsetNumber` on.
def moveRowPtrs (page : UPage) (offsetNumber limit : Nat) : UPage :=
  { page with rowPtrs := fun i =>
      if offsetNumber < i ∧ i ≤ limit then page.rowPtrs (i - 1) else page.rowPtrs i }

def securecMemMaxLen : Nat := 0x7fffffff

-- `memcpy_s` reports an error for no bytes and for too many.
def memcpyFails (size : Nat) : Bool := size = 0 || securecMemMaxLen < size

def calculateLowerUpperPointers (page : UPage) (offsetNumber : Nat) (item : Bytes) (needshuffle : Bool)
    : Outcome :=
  let limit := page.maxOffsetNumber + 1
  if limit < offsetNumber then
    .refused page
  else
    let takesPointer := offsetNumber = limit || needshuffle
    let lower := if takesPointer then page.pdLower + sizeOfRowPtr else page.pdLower
    let potentialFreespace :=
      if takesPointer then page.potentialFreespace - sizeOfRowPtr else page.potentialFreespace
    let page := { page with potentialFreespace := potentialFreespace }
    let upper := upperFor page item
    if (lower : Int) > upper then
      .refused page
    else if memcpyFails item.length then
      .raised
    else
      let page := if needshuffle then moveRowPtrs page offsetNumber limit else page
      .added offsetNumber ({ page with
        bytes := page.bytes.store upper.toNat item
        pdLower := lower
        pdUpper := upper.toNat : UPage }.setRowPtr offsetNumber ⟨upper.toNat, .normal, item.length⟩)

def putItem (page : UPage) (request : Request) (offsetNumber : Nat) (needshuffle : Bool) : Outcome :=
  if !request.inRecovery && request.maxTuples < offsetNumber then
    .refused page
  else
    calculateLowerUpperPointers page offsetNumber request.item needshuffle

def upageAddItem (page : UPage) (request : Request) : Outcome :=
  if page.pdLower > page.pdUpper then
    .raised
  else if offsetNumberIsValid request.offsetNumber then
    match checkOffsetValidity page request.inRecovery request.overwrite request.offsetNumber with
    | none => .refused page
    | some needshuffle => putItem page request request.offsetNumber needshuffle
  else
    let slot := findNextFreeSlot page
    putItem slot.2 request slot.1 false

end AddItem

end Ustore

import OpenGauss.Segment.ExtentGroup.Impl

/-!
This module contains the implementation of replaying the log of an extent group, from `segxlog.cpp`,
and of `shrink_hwm` from `space.cpp`, the one operation that logs into an extent group from outside
its own layer.
-/

namespace SegExtentGroup

-- The loop of `shrink_hwm` over the bits `lastBit - 1`, ..., `0` of a map page. The second
-- component of the result is `end`.
def shrinkHwm.bits (seg : SegExtentGroup) (mapPage : MapPage) (hwm targetSize : Nat)
    (lastBit newHwm : Nat) : Except SegError (Nat × Bool) :=
  match lastBit with
  | 0 => .ok (newHwm, false)
  | bit + 1 =>
    let extent := u32 (mapPage.firstPage + seg.extentSize.toNat * bit)
    if u32 (extent + seg.extentSize.toNat) ≤ targetSize then
      .ok (newHwm, true)
    else if extent ≥ hwm then
      if mapPage.free bit then
        bits seg mapPage hwm targetSize bit newHwm
      else
        .error .segmentCheck
    else if mapPage.free bit then
      bits seg mapPage hwm targetSize bit extent
    else
      .ok (newHwm, true)

def shrinkHwm.pages (seg : SegExtentGroup) (firstMapBlock hwm targetSize : Nat) (j newHwm : Nat)
    : Except SegError (Nat × Bool) :=
  match j with
  | 0 => .ok (newHwm, false)
  | j + 1 =>
    let mapPage := seg.mapPages (u32 (firstMapBlock + j))
    if mapPage.firstPage ≥ hwm then
      pages seg firstMapBlock hwm targetSize j newHwm
    else do
      let (newHwm, done) ← bits seg mapPage hwm targetSize (mapPage.dirtyLast + 1) newHwm
      if done then return (newHwm, true) else pages seg firstMapBlock hwm targetSize j newHwm

-- The loop over the groups `i - 1`, ..., `0`, which also computes `new_count`.
def shrinkHwm.groups (seg : SegExtentGroup) (hwm targetSize : Nat) (i newHwm newCount : Nat)
    : Except SegError (Nat × Nat) :=
  match i with
  | 0 => .ok (newHwm, newCount)
  | i + 1 => do
    let group := seg.mapHead.groups i
    let (newHwm, done) ← pages seg group.firstMap hwm targetSize group.pageCount newHwm
    if done then return (newHwm, i + 1) else groups seg hwm targetSize i newHwm (i + 1)

def shrinkHwm (seg : SegExtentGroup) (targetSize : Nat) : Except SegError SegExtentGroup := do
  segmentCheck (targetSize % dfFileExtendStepBlocks == 0)
  let hwm := seg.mapHead.highWaterMark
  let groupCount := seg.mapHead.groupCount
  let (newHwm, newCount) ← shrinkHwm.groups seg hwm targetSize groupCount hwm groupCount
  let newHwm := alignBlocks newHwm
  let newHwm := if newHwm < targetSize then targetSize else newHwm
  if newHwm < hwm then
    segmentCheck (newCount ≤ groupCount)
    return { seg with
      mapHead := { seg.mapHead with highWaterMark := newHwm, groupCount := newCount }
      xlog := seg.xlog ++ [.spaceUpdateHwm hwm newHwm groupCount newCount] }
  else
    return seg

end SegExtentGroup

structure SegPages where
  mapHead : MapHead
  mapPages : Nat → MapPage

def SegExtentGroup.toPages (seg : SegExtentGroup) : SegPages := ⟨seg.mapHead, seg.mapPages⟩

inductive RedoError where
  | segmentCheck
  -- "MapPage's first_page is not consistent, it's %u on disk but should be %u according to xlog"
  | firstPage (disk xlog : Nat)
  -- "Try to set bitmap which is not free: %u"
  | setNotFree (bitid : Nat)
  -- "Try to unset bitmap which is free: %u"
  | unsetFree (bitid : Nat)
  -- "update space high water mark, old hwm is %u, but should be %u according to xlog"
  | hwm (disk xlog : Nat)
  -- "update map group count, old count is %u, but should be %u according to xlog"
  | groupCount (disk xlog : Nat)
  deriving DecidableEq

namespace SegPages

-- What `redo_set_bitmap` and `redo_unset_bitmap` have in common: `val` is the new value of the bit.
def redoBitmap (pages : SegPages) (val : Bool) (error : RedoError)
    (block bitid firstPage freeBegin dirtyLast freeBits : Nat) : Except RedoError SegPages :=
  let mapPage := pages.mapPages block
  if mapPage.firstPage ≠ firstPage then
    .error (.firstPage mapPage.firstPage firstPage)
  else if mapPage.bitmap bitid = val then
    .error error
  else
    .ok { pages with
      mapPages := Function.update pages.mapPages block
        { mapPage with
          dirtyLast := dirtyLast
          freeBegin := freeBegin
          freeBits := freeBits
          bitmap := Function.update mapPage.bitmap bitid val } }

-- The data file is extended as well, which is not part of the pages.
def redoSetBitmap (pages : SegPages)
    (block bitid firstPage freeBegin dirtyLast freeBits : Nat) : Except RedoError SegPages :=
  pages.redoBitmap true (.setNotFree bitid) block bitid firstPage freeBegin dirtyLast freeBits

def redoUnsetBitmap (pages : SegPages)
    (block bitid firstPage freeBegin dirtyLast freeBits : Nat) : Except RedoError SegPages :=
  pages.redoBitmap false (.unsetFree bitid) block bitid firstPage freeBegin dirtyLast freeBits

def redoMapheadAllocatedExtents (pages : SegPages) (hwm allocatedExtents freeGroup freePage : Nat)
    : SegPages :=
  let mapHead := { pages.mapHead with
    allocatedExtents := allocatedExtents
    freeGroup := freeGroup
    highWaterMark := hwm }
  { pages with mapHead := mapHead.setFreePage freeGroup freePage }

def redoSpaceUpdateHwm (pages : SegPages) (oldHwm newHwm oldGroupcnt newGroupcnt : Nat)
    : Except RedoError SegPages :=
  if pages.mapHead.highWaterMark ≠ oldHwm then
    .error (.hwm pages.mapHead.highWaterMark oldHwm)
  else if pages.mapHead.groupCount ≠ oldGroupcnt then
    .error (.groupCount pages.mapHead.groupCount oldGroupcnt)
  else
    .ok { pages with
      mapHead := { pages.mapHead with highWaterMark := newHwm, groupCount := newGroupcnt } }

def redoAddNewGroup (pages : SegPages) (firstMapPageno groupCount groupSize : Nat)
    : Except RedoError SegPages :=
  if groupCount > 0 then
    .ok { pages with
      mapHead := { pages.mapHead with
        groupCount := groupCount
        groups := Function.update pages.mapHead.groups (groupCount - 1)
          ⟨firstMapPageno, 0, groupSize⟩ } }
  else
    .error .segmentCheck

def redoInitMappage (pages : SegPages) (block firstPage : Nat) : SegPages :=
  { pages with
    mapPages := Function.update pages.mapPages block (egInitBitmapPageContent firstPage) }

def redo (pages : SegPages) (record : XLogRecord) : Except RedoError SegPages :=
  match record with
  | .setBitmap block bitid firstPage freeBegin dirtyLast freeBits =>
    pages.redoSetBitmap block bitid firstPage freeBegin dirtyLast freeBits
  | .freeBitmap block bitid firstPage freeBegin dirtyLast freeBits =>
    pages.redoUnsetBitmap block bitid firstPage freeBegin dirtyLast freeBits
  | .mapheadAllocatedExtents hwm allocatedExtents freeGroup freePage =>
    .ok (pages.redoMapheadAllocatedExtents hwm allocatedExtents freeGroup freePage)
  | .spaceUpdateHwm oldHwm newHwm oldGroupcnt newGroupcnt =>
    pages.redoSpaceUpdateHwm oldHwm newHwm oldGroupcnt newGroupcnt
  | .addNewGroup firstMapPageno groupCount groupSize =>
    pages.redoAddNewGroup firstMapPageno groupCount groupSize
  | .initMappage block firstPage => .ok (pages.redoInitMappage block firstPage)

def replay (pages : SegPages) (records : List XLogRecord) : Except RedoError SegPages :=
  records.foldlM redo pages

end SegPages

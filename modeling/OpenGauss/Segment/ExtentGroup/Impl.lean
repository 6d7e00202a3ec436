import Mathlib.Logic.Function.Basic
import Mathlib.Algebra.Group.Nat.Defs

/-!
This module contains the implementation of the extent group layer of the segment storage: allocating
and freeing extents in `extent_group.cpp` and lowering the high water mark in `space.cpp`.

Block numbers are `Nat`s, with `u32` where the source computes one in 32 bits and the result could
leave that range. The buffers of one extent group are its map head and its map pages, the latter
found by their block number. Every operation also appends what it logs to `xlog`.
-/

def u32 (n : Nat) : Nat := n % 2 ^ 32

-- An operation that returns a block returns `none` for it, and no page has this number.
def invalidBlockNumber : Nat := 0xFFFFFFFF

inductive ExtentSize where
  | extSize1
  | extSize8
  | extSize128
  | extSize1024
  | extSize8192
  deriving DecidableEq

namespace ExtentSize

def toNat : ExtentSize → Nat
  | extSize1 => 1
  | extSize8 => 8
  | extSize128 => 128
  | extSize1024 => 1024
  | extSize8192 => 8192

end ExtentSize

def dfFileExtendStepBlocks : Nat := 16384

-- `CM_ALIGN_ANY`, which is computed in 64 bits and then stored in a `BlockNumber`
def alignBlocks (blocks : Nat) : Nat :=
  u32 ((blocks + dfFileExtendStepBlocks - 1) / dfFileExtendStepBlocks * dfFileExtendStepBlocks)

def dfMapHeadPage : Nat := 2
def dfMapGroupSize : Nat := 64

-- a page of 8192 bytes less its header (24) and the fields before the bitmap (12)
def dfMapSize : Nat := 8192 - 24 - 12
def dfMapBitCnt : Nat := dfMapSize * 8
def dfMapGroupExtents : Nat := dfMapBitCnt * dfMapGroupSize

def ipblockSize : Nat := 8192 - 24
def extentsPerIpblock : Nat := ipblockSize / 8
def ipblockGroupSize : Nat := (dfMapBitCnt * dfMapGroupSize + extentsPerIpblock - 1) / extentsPerIpblock

structure MapGroup where
  firstMap : Nat
  freePage : Nat
  pageCount : Nat
  deriving DecidableEq

-- The array `groups` has 33 entries, a bound that the source never checks.
structure MapHead where
  bitUnit : Nat
  groupCount : Nat
  freeGroup : Nat
  allocatedExtents : Nat
  highWaterMark : Nat
  groups : Nat → MapGroup

structure MapPage where
  firstPage : Nat
  freeBegin : Nat
  dirtyLast : Nat
  freeBits : Nat
  bitmap : Nat → Bool

namespace MapPage

-- `DF_MAP_FREE`
def free (page : MapPage) (pos : Nat) : Bool := !page.bitmap pos

end MapPage

inductive XLogRecord where
  -- `SPCXLOG_SET_BITMAP` with the map page after the change, of which the bitmap is not logged
  | setBitmap (block : Nat) (bitid : Nat)
      (firstPage : Nat) (freeBegin dirtyLast freeBits : Nat)
  | freeBitmap (block : Nat) (bitid : Nat)
      (firstPage : Nat) (freeBegin dirtyLast freeBits : Nat)
  | mapheadAllocatedExtents (hwm : Nat) (allocatedExtents freeGroup freePage : Nat)
  | spaceUpdateHwm (oldHwm newHwm : Nat) (oldGroupcnt newGroupcnt : Nat)
  | addNewGroup (firstMapPageno : Nat) (groupCount groupSize : Nat)
  | initMappage (block : Nat) (firstPage : Nat)

inductive SegError where
  | segmentCheck
  -- "The preassigned segment block %u is already in use"
  | alreadyInUse (preassignedBlock : Nat)
  -- "Free an already freed extent"
  | alreadyFreed
  -- "Blocknum %u is Invalid. \n"
  | invalidBlocknum (blockNum : Nat)
  deriving DecidableEq

def segmentCheck (condition : Bool) : Except SegError Unit :=
  if condition then .ok () else .error .segmentCheck

structure SegExtentGroup where
  extentSize : ExtentSize
  mapHead : MapHead
  mapPages : Nat → MapPage
  totalBlocks : Nat
  xlog : List XLogRecord

structure SpaceMapLocation where
  group : MapGroup
  mapId : Nat
  bitId : Nat
  mapGroup : Nat
  deriving DecidableEq

-- `eg_init_map_head_page_content`, after which every other field of the page is zero
def egInitMapHeadPageContent (extentSize : ExtentSize) : MapHead where
  bitUnit := extentSize.toNat
  groupCount := 0
  freeGroup := 0
  allocatedExtents := 0
  highWaterMark := 0
  groups _ := ⟨0, 0, 0⟩

def egInitBitmapPageContent (firstPage : Nat) : MapPage where
  firstPage := firstPage
  freeBegin := 0
  dirtyLast := 0
  freeBits := dfMapBitCnt
  bitmap _ := false

namespace SegExtentGroup

def pageStart (group : MapGroup) : Nat :=
  u32 (group.firstMap + dfMapGroupSize + ipblockGroupSize)

def pageEnd (seg : SegExtentGroup) (group : MapGroup) : Nat :=
  u32 (pageStart group + dfMapGroupExtents * seg.extentSize.toNat)

/--
When no group manages the page this returns the first bit of the last group, which
`MapLocationIsInvalid` does not recognise.
-/
def egLocateMapByPageid (seg : SegExtentGroup) (pageId : Nat) : SpaceMapLocation :=
  go seg.mapHead.groupCount 0 ⟨⟨0, 0, 0⟩, 0, 0, 0⟩
where
  go (todo i : Nat) (result : SpaceMapLocation) : SpaceMapLocation :=
    match todo with
    | 0 => result
    | todo + 1 =>
      let group := seg.mapHead.groups i
      let result := { result with group := group, mapGroup := i }
      if pageStart group ≤ pageId && pageId < seg.pageEnd group then
        let extent := (pageId - pageStart group) / seg.mapHead.bitUnit
        { result with mapId := extent / dfMapBitCnt, bitId := extent % dfMapBitCnt }
      else
        go todo (i + 1) result

def mapLocationIsInvalid (location : SpaceMapLocation) : Bool := location.group.firstMap == 0

end SegExtentGroup

namespace MapPage

def egSetBitmapPage (page : MapPage) (bitId : Nat) : Except SegError MapPage := do
  segmentCheck (page.free bitId)
  return { page with
    bitmap := Function.update page.bitmap bitId true
    freeBits := page.freeBits - 1
    freeBegin := if page.freeBegin = bitId then page.freeBegin + 1 else page.freeBegin
    dirtyLast := if page.dirtyLast < bitId then bitId else page.dirtyLast }

def egUnsetBitmapPage (page : MapPage) (bitId : Nat) : Except SegError MapPage := do
  segmentCheck (!page.free bitId)
  return { page with
    bitmap := Function.update page.bitmap bitId false
    freeBits := page.freeBits + 1
    freeBegin := if page.freeBegin > bitId then bitId else page.freeBegin }

def findFreeBit (page : MapPage) (todo curr : Nat) : Nat :=
  match todo with
  | 0 => curr
  | todo + 1 => if page.free curr then curr else page.findFreeBit todo (curr + 1)

end MapPage

def MapHead.tryUpdateHwm (mapHead : MapHead) (hwm : Nat) : MapHead :=
  { mapHead with
    highWaterMark := if mapHead.highWaterMark < hwm then hwm else mapHead.highWaterMark }

def MapHead.setFreePage (mapHead : MapHead) (mapGroup freePage : Nat) : MapHead :=
  { mapHead with
    groups := Function.update mapHead.groups mapGroup
      { mapHead.groups mapGroup with freePage := freePage } }

namespace SegExtentGroup

structure AllocResult where
  seg : SegExtentGroup
  result : Option Nat
  targetFileSize : Nat

-- What `eg_alloc_extent_from_map_internal` does once it has set the bit in the map page.
def egAllocExtentFromMapInternal.update (seg : SegExtentGroup) (mapBlock : Nat) (mapPage : MapPage)
    (bitid pageend mapGroup freePage : Nat) : SegExtentGroup :=
  let mapHead := { seg.mapHead with
    allocatedExtents := seg.mapHead.allocatedExtents + 1
    freeGroup := mapGroup }
  let mapHead := mapHead.setFreePage mapGroup freePage
  let mapHead := mapHead.tryUpdateHwm pageend
  { seg with
    mapHead := mapHead
    mapPages := Function.update seg.mapPages mapBlock mapPage
    xlog := seg.xlog ++
      [.setBitmap mapBlock bitid mapPage.firstPage mapPage.freeBegin mapPage.dirtyLast
        mapPage.freeBits,
       .mapheadAllocatedExtents mapHead.highWaterMark mapHead.allocatedExtents mapGroup freePage] }

def egAllocExtentFromMapInternal (seg : SegExtentGroup) (mapBlock : Nat) (bitid : Nat)
    (mapGroup freePage : Nat) : Except SegError AllocResult := do
  let mapPage := seg.mapPages mapBlock
  let pagenum := u32 (mapPage.firstPage + bitid * seg.mapHead.bitUnit)
  let pageend := u32 (pagenum + seg.extentSize.toNat)
  if pageend > seg.totalBlocks then
    return ⟨seg, none, pageend⟩
  else
    let mapPage ← mapPage.egSetBitmapPage bitid
    return ⟨egAllocExtentFromMapInternal.update seg mapBlock mapPage bitid pageend mapGroup freePage,
      some pagenum, 0⟩

def egAllocExtentFromMap (seg : SegExtentGroup) (mapPageId : Nat) (mapGroup freePage : Nat)
    : Except SegError AllocResult :=
  let mapPage := seg.mapPages mapPageId
  if mapPage.freeBits = 0 then
    .ok ⟨seg, none, 0⟩
  else
    let curr := mapPage.findFreeBit (dfMapBitCnt - mapPage.freeBegin) mapPage.freeBegin
    if curr ≥ dfMapBitCnt then
      .ok ⟨seg, none, 0⟩
    else
      seg.egAllocExtentFromMapInternal mapPageId curr mapGroup freePage

-- On success the result is the preassigned block itself.
def egAllocPreassignedBlock (seg : SegExtentGroup) (preassignedBlock : Nat)
    : Except SegError AllocResult := do
  let location := seg.egLocateMapByPageid preassignedBlock
  if mapLocationIsInvalid location then
    return ⟨seg, none, 0⟩
  let mapBlocknum := u32 (location.mapId + location.group.firstMap)
  let mapPage := seg.mapPages mapBlocknum
  if mapPage.free location.bitId then
    let pagenum := u32 (mapPage.firstPage + location.bitId * seg.mapHead.bitUnit)
    let pageend := u32 (pagenum + seg.extentSize.toNat)
    if pageend > seg.totalBlocks then
      return ⟨seg, none, pageend⟩
  else
    throw (.alreadyInUse preassignedBlock)
  let freeGroup := seg.mapHead.freeGroup
  let freePage := (seg.mapHead.groups freeGroup).freePage
  segmentCheck (freeGroup < seg.mapHead.groupCount
    && freePage < (seg.mapHead.groups freeGroup).pageCount)
  let res ← seg.egAllocExtentFromMapInternal mapBlocknum location.bitId freeGroup freePage
  return { res with result := some preassignedBlock }

def egNextGroupStart (seg : SegExtentGroup) : Except SegError Nat := do
  segmentCheck (seg.mapHead.groupCount > 0)
  let lastMapGroup := seg.mapHead.groups (seg.mapHead.groupCount - 1)
  return u32 (lastMapGroup.firstMap + lastMapGroup.pageCount + ipblockGroupSize
    + dfMapGroupExtents * seg.mapHead.bitUnit)

def AllocResult.stops (res : AllocResult) : Bool :=
  res.result.isSome || res.targetFileSize > 0

def egTryAllocExtent.pages (seg : SegExtentGroup) (i todo j : Nat) : Except SegError AllocResult :=
  match todo with
  | 0 => .ok ⟨seg, none, 0⟩
  | todo + 1 => do
    let res ← seg.egAllocExtentFromMap (u32 ((seg.mapHead.groups i).firstMap + j)) i j
    if res.stops then return res else pages res.seg i todo (j + 1)

def egTryAllocExtent.groups (seg : SegExtentGroup) (todo i : Nat) : Except SegError AllocResult :=
  match todo with
  | 0 => .ok ⟨seg, none, 0⟩
  | todo + 1 => do
    let mapGroup := seg.mapHead.groups i
    segmentCheck (mapGroup.freePage < mapGroup.pageCount)
    let res ← pages seg i (mapGroup.pageCount - mapGroup.freePage) mapGroup.freePage
    if res.stops then return res else groups res.seg todo (i + 1)

def egTryAllocExtent (seg : SegExtentGroup) (preassignedBlock : Option Nat)
    : Except SegError AllocResult := do
  segmentCheck (seg.mapHead.groupCount > 0 && seg.mapHead.freeGroup < seg.mapHead.groupCount)
  match preassignedBlock with
  | some preassignedBlock => seg.egAllocPreassignedBlock preassignedBlock
  | none =>
    let res ← egTryAllocExtent.groups seg (seg.mapHead.groupCount - seg.mapHead.freeGroup)
      seg.mapHead.freeGroup
    if res.stops then
      return res
    else
      let nextGroupDataStart := u32 ((← res.seg.egNextGroupStart) + dfMapGroupSize + ipblockGroupSize)
      if nextGroupDataStart > res.seg.totalBlocks then
        return { res with targetFileSize := nextGroupDataStart }
      else
        return res

-- The loop of `eg_add_map_group` over the map pages; the inverse pointer pages are left out.
def egAddMapGroup.init (seg : SegExtentGroup) (todo : Nat) (pageno dataStart : Nat)
    : SegExtentGroup :=
  match todo with
  | 0 => seg
  | todo + 1 =>
    let seg := { seg with
      mapPages := Function.update seg.mapPages pageno (egInitBitmapPageContent dataStart)
      xlog := seg.xlog ++ [.initMappage pageno dataStart] }
    init seg todo (u32 (pageno + 1)) (u32 (dataStart + dfMapBitCnt * seg.extentSize.toNat))

def egAddMapGroup (seg : SegExtentGroup) (pageno : Nat) (groupSize oldGroupCount : Nat)
    : Except SegError SegExtentGroup := do
  if oldGroupCount < seg.mapHead.groupCount then
    return seg
  segmentCheck (oldGroupCount == seg.mapHead.groupCount)
  segmentCheck (groupSize == dfMapGroupSize)
  let seg := egAddMapGroup.init seg groupSize pageno (u32 (pageno + groupSize + ipblockGroupSize))
  let groupCount := seg.mapHead.groupCount + 1
  return { seg with
    mapHead := { seg.mapHead with
      groupCount := groupCount
      groups := Function.update seg.mapHead.groups seg.mapHead.groupCount ⟨pageno, 0, groupSize⟩ }
    xlog := seg.xlog ++ [.addNewGroup pageno groupCount groupSize] }

/--
The result `none` is an `ERROR`: the file cannot grow to more than `limit` blocks.
-/
def egExtendDf (seg : SegExtentGroup) (limit : Nat) (targetFileSize : Nat)
    : Except SegError (Option SegExtentGroup) := do
  segmentCheck (targetFileSize ≠ invalidBlockNumber)
  let targetBlocks := alignBlocks targetFileSize
  if seg.totalBlocks < targetBlocks then
    if targetBlocks > limit then
      return none
    else
      return some { seg with totalBlocks := targetBlocks }
  else
    return some seg

def egAllocExtent.firstGroup (seg : SegExtentGroup) : Except SegError SegExtentGroup :=
  if seg.mapHead.groupCount = 0 then
    seg.egAddMapGroup (dfMapHeadPage + 1) dfMapGroupSize 0
  else
    .ok seg

/--
`fuel` bounds the number of turns of the loop. The result `none` means that the loop has not come to
its end, or that the file could not be extended.
-/
def egAllocExtent (seg : SegExtentGroup) (limit : Nat) (preassignedBlock : Option Nat)
    (fuel : Nat) : Except SegError (SegExtentGroup × Option Nat) :=
  match fuel with
  | 0 => .ok (seg, none)
  | fuel + 1 => do
    let seg ← egAllocExtent.firstGroup seg
    let res ← seg.egTryAllocExtent preassignedBlock
    if res.result.isSome then
      return (res.seg, res.result)
    if res.targetFileSize > 0 then
      match ← res.seg.egExtendDf limit res.targetFileSize with
      | none => return (res.seg, none)
      | some seg => seg.egAllocExtent limit preassignedBlock fuel
    else
      let groupStart ← res.seg.egNextGroupStart
      let seg ← res.seg.egAddMapGroup groupStart dfMapGroupSize res.seg.mapHead.groupCount
      seg.egAllocExtent limit preassignedBlock fuel

-- What `eg_free_extent` does once it has cleared the bit in the map page.
def egFreeExtent.update (seg : SegExtentGroup) (location : SpaceMapLocation) (mapBlocknum : Nat)
    (mapPage : MapPage) : SegExtentGroup :=
  let freeGroup := seg.mapHead.freeGroup
  let freePage := (seg.mapHead.groups location.mapGroup).freePage
  let mapHead := { seg.mapHead with
    allocatedExtents := seg.mapHead.allocatedExtents - 1
    freeGroup := if freeGroup > location.mapGroup then location.mapGroup else freeGroup }
  let mapHead := mapHead.setFreePage location.mapGroup
    (if freePage > location.mapId then location.mapId else freePage)
  { seg with
    mapHead := mapHead
    mapPages := Function.update seg.mapPages mapBlocknum mapPage
    xlog := seg.xlog ++
      [.freeBitmap mapBlocknum location.bitId mapPage.firstPage mapPage.freeBegin mapPage.dirtyLast
        mapPage.freeBits,
       .mapheadAllocatedExtents mapHead.highWaterMark mapHead.allocatedExtents mapHead.freeGroup
        (mapHead.groups mapHead.freeGroup).freePage] }

def egFreeExtent (seg : SegExtentGroup) (blocknum : Nat)
    : Except SegError SegExtentGroup := do
  let location := seg.egLocateMapByPageid blocknum
  if mapLocationIsInvalid location then
    throw .alreadyFreed
  let mapBlocknum := u32 (location.mapId + location.group.firstMap)
  let mapPage ← (seg.mapPages mapBlocknum).egUnsetBitmapPage location.bitId
  return egFreeExtent.update seg location mapBlocknum mapPage

end SegExtentGroup

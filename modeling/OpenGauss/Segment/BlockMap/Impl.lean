import OpenGauss.Segment.ExtentGroup.Impl

/-!
This module contains the implementation of the block map of a segment: extending a segment by an
extent, freeing its last extent and mapping a logical block to a physical one, from `segstore.cpp`
and `segment_internal.h`.
-/

inductive ForkNumber where
  | main
  | fsm
  | visibilitymap
  deriving DecidableEq

-- `IS_COMPRESSED_MAINFORK`, where `opt` is the one of the relation's `RelFileNode`
def isCompressedMainfork (opt : Nat) (forknum : ForkNumber) : Bool := opt ≠ 0 && forknum == .main

def extSize8Boundary : Nat := 16
def extSize128Boundary : Nat := 143
def extSize1024Boundary : Nat := 255

def extSize8TotalPages : Nat := 128
def extSize128TotalPages : Nat := 16384
def extSize1024TotalPages : Nat := 131072
def cfsExtSize8TotalPages : Nat := 128
def cfsExtSize128TotalPages : Nat := 16257
def cfsExtSize1024TotalPages : Nat := 130049

def cfsExtSize128 : Nat := 127
def cfsExtSize1024 : Nat := 1016
def cfsExtSize8192 : Nat := 8128

def cfsExtentSize : Nat := 128
def cfsLogicBlocksPerExtent : Nat := cfsExtentSize - 1

def bmtHeaderLevel0Slots : Nat := 1255
def bmtHeaderLevel1Slots : Nat := 256
def bmtLevel0Slots : Nat := 2000

def extentSizeByCount (count : Nat) : ExtentSize :=
  if count < extSize8Boundary then
    .extSize8
  else if count < extSize128Boundary then
    .extSize128
  else if count < extSize1024Boundary then
    .extSize1024
  else
    .extSize8192

def extentIdToLogicBlockNum (extentId : Nat) : Nat :=
  if extentId < extSize8Boundary then
    extentId * 8
  else if extentId < extSize128Boundary then
    (extentId - extSize8Boundary) * 128 + extSize8TotalPages
  else if extentId < extSize1024Boundary then
    (extentId - extSize128Boundary) * 1024 + extSize128TotalPages
  else
    u32 ((extentId - extSize1024Boundary) * 8192 + extSize1024TotalPages)

def extentIdToLogicBlocknumInCfs (extentId : Nat) : Nat :=
  if extentId < extSize8Boundary then
    extentId * 8
  else if extentId < extSize128Boundary then
    (extentId - extSize8Boundary) * cfsExtSize128 + cfsExtSize8TotalPages
  else if extentId < extSize1024Boundary then
    (extentId - extSize128Boundary) * cfsExtSize1024 + cfsExtSize128TotalPages
  else
    u32 ((extentId - extSize1024Boundary) * cfsExtSize8192 + cfsExtSize1024TotalPages)

structure ExtentPosition where
  extentId : Nat
  offset : Nat
  extentSize : ExtentSize
  deriving DecidableEq

def segLogicPageIdToExtentId (logicId : Nat) : ExtentPosition :=
  if logicId < extSize8TotalPages then
    ⟨logicId / 8, logicId % 8, .extSize8⟩
  else if logicId < extSize128TotalPages then
    let logicId := logicId - extSize8TotalPages
    ⟨extSize8Boundary + logicId / 128, logicId % 128, .extSize128⟩
  else if logicId < extSize1024TotalPages then
    let logicId := logicId - extSize128TotalPages
    ⟨extSize128Boundary + logicId / 1024, logicId % 1024, .extSize1024⟩
  else
    let logicId := logicId - extSize1024TotalPages
    ⟨extSize1024Boundary + logicId / 8192, logicId % 8192, .extSize8192⟩

def segGetExtentIdByLogicBlknoInCfs (logicBlkno : Nat) : ExtentPosition :=
  if logicBlkno < cfsExtSize8TotalPages then
    ⟨logicBlkno / 8, logicBlkno % 8, .extSize8⟩
  else if logicBlkno < cfsExtSize128TotalPages then
    let logicBlkno := logicBlkno - cfsExtSize8TotalPages
    ⟨extSize8Boundary + logicBlkno / cfsExtSize128, logicBlkno % cfsExtSize128, .extSize128⟩
  else if logicBlkno < cfsExtSize1024TotalPages then
    let logicBlkno := logicBlkno - cfsExtSize128TotalPages
    ⟨extSize128Boundary + logicBlkno / cfsExtSize1024, logicBlkno % cfsExtSize1024, .extSize1024⟩
  else
    let logicBlkno := logicBlkno - cfsExtSize1024TotalPages
    ⟨extSize1024Boundary + logicBlkno / cfsExtSize8192, logicBlkno % cfsExtSize8192, .extSize8192⟩

def segPhysicalToLogicBlkno (physicalBlkno : Nat) : Nat :=
  if physicalBlkno < cfsExtSize8TotalPages then
    physicalBlkno
  else
    let physicalBlkno := physicalBlkno - cfsExtSize8TotalPages
    let extentNo := physicalBlkno / cfsExtentSize
    let offsetInCfsExtent := physicalBlkno % cfsExtentSize
    cfsExtSize8TotalPages + extentNo * cfsLogicBlocksPerExtent + offsetInCfsExtent

structure SegmentHead where
  nblocks : Nat
  nextents : Nat
  totalBlocks : Nat
  level0Slots : Nat → Nat
  level1Slots : Nat → Nat

structure Segment where
  head : SegmentHead
  level0Pages : Nat → Nat → Nat

namespace Segment

def init (segHeadBlocknum : Nat) (level0Pages : Nat → Nat → Nat) : Segment where
  head := {
    nblocks := 0
    nextents := 0
    totalBlocks := 0
    level0Slots := Function.update (fun _ => 0) 0 segHeadBlocknum
    level1Slots := fun _ => 0 }
  level0Pages := level0Pages

def extentIdToLevel1Slot (extentId : Nat) : Nat :=
  (extentId - bmtHeaderLevel0Slots) / bmtLevel0Slots

def extentIdToLevel0PageOffset (extentId : Nat) : Nat :=
  (extentId - bmtHeaderLevel0Slots) % bmtLevel0Slots

def extentIdToLevel0PageNumber (head : SegmentHead) (extentId : Nat) : Nat :=
  head.level1Slots ((extentId - bmtHeaderLevel0Slots) / bmtLevel0Slots)

def requireNewLevel0Page (newExtentId : Nat) : Bool :=
  if newExtentId < bmtHeaderLevel0Slots then
    false
  else
    (newExtentId - bmtHeaderLevel0Slots) % bmtLevel0Slots == 0

-- `SegPageInit` clears the page.
def segInitNewLevel0Page (seg : Segment) (newExtentId newLevel0Page firstExtent : Nat) : Segment where
  head := { seg.head with
    level1Slots := Function.update seg.head.level1Slots (extentIdToLevel1Slot newExtentId)
      newLevel0Page }
  level0Pages := Function.update seg.level0Pages newLevel0Page
    (Function.update (fun _ => 0) 0 firstExtent)

def segRecordNewExtentOnLevel0Page (seg : Segment) (newExtentId newExtentFirstPageno : Nat)
    : Segment :=
  let level0Pageno := seg.head.level1Slots (extentIdToLevel1Slot newExtentId)
  { seg with
    level0Pages := Function.update seg.level0Pages level0Pageno
      (Function.update (seg.level0Pages level0Pageno) (extentIdToLevel0PageOffset newExtentId)
        newExtentFirstPageno) }

/--
`newExtent` and `level0Page` are what `spc_alloc_extent` returns; the second one is only called for
when a level 0 page is required.
-/
def segExtendSegment (seg : Segment) (newExtent level0Page : Nat) : Segment :=
  let extentSize := extentSizeByCount seg.head.nextents
  let newExtentId := seg.head.nextents
  let head := { seg.head with
    nextents := newExtentId + 1
    totalBlocks := u32 (seg.head.totalBlocks + extentSize.toNat) }
  if newExtentId < bmtHeaderLevel0Slots then
    { seg with head := { head with
      level0Slots := Function.update head.level0Slots newExtentId newExtent } }
  else if requireNewLevel0Page newExtentId then
    segInitNewLevel0Page { seg with head := head } newExtentId level0Page newExtent
  else
    segRecordNewExtentOnLevel0Page { seg with head := head } newExtentId newExtent

def segExtentLocation (seg : Segment) (extentId : Nat) : Nat :=
  if extentId < bmtHeaderLevel0Slots then
    seg.head.level0Slots extentId
  else
    let level0PageId := extentIdToLevel0PageNumber seg.head extentId
    seg.level0Pages level0PageId ((extentId - bmtHeaderLevel0Slots) % bmtLevel0Slots)

-- Besides the segment this returns the extents that `spc_free_extent` is called for.
def freeLastExtent (seg : Segment) : Except SegError (Segment × List (ExtentSize × Nat)) := do
  segmentCheck (seg.head.nextents > 0)
  let lastExtId := seg.head.nextents - 1
  let extBlk := seg.segExtentLocation lastExtId
  let extSize := extentSizeByCount lastExtId
  let head := { seg.head with
    nextents := lastExtId
    totalBlocks := u32 (seg.head.totalBlocks + 2 ^ 32 - extSize.toNat) }
  if requireNewLevel0Page lastExtId then
    let level1Slot := extentIdToLevel1Slot lastExtId
    let extent := head.level1Slots level1Slot
    let head := { head with
      level1Slots := Function.update head.level1Slots level1Slot invalidBlockNumber }
    return ({ seg with head := head }, [(extSize, extBlk), (.extSize1, extent)])
  else
    return ({ seg with head := head }, [(extSize, extBlk)])

end Segment

def segCfsLogicToPhysicMapping (opt : Nat) (forknum : ForkNumber)
    (logicBlkno extentStart offset : Nat) : Nat :=
  if !isCompressedMainfork opt forknum || logicBlkno < cfsExtSize8TotalPages then
    u32 (extentStart + offset)
  else
    let cfsGroupCount := offset / cfsLogicBlocksPerExtent
    let offsetInCfs := offset % cfsLogicBlocksPerExtent
    u32 (extentStart + cfsGroupCount * cfsExtentSize + offsetInCfs)

structure SegPageLocation where
  extentSize : ExtentSize
  extentId : Nat
  blocknum : Nat
  deriving DecidableEq

def segLogicToPhysicMapping (opt : Nat) (seg : Segment) (forknum : ForkNumber) (logicId : Nat)
    : SegPageLocation :=
  let position :=
    if isCompressedMainfork opt forknum && logicId ≥ cfsExtSize8TotalPages then
      segGetExtentIdByLogicBlknoInCfs logicId
    else
      segLogicPageIdToExtentId logicId
  let extentStart := seg.segExtentLocation position.extentId
  let blocknum := segCfsLogicToPhysicMapping opt forknum logicId extentStart position.offset
  ⟨position.extentSize, position.extentId, blocknum⟩

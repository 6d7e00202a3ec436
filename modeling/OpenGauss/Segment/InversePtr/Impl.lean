import OpenGauss.Segment.BlockMap.Impl

/-!
This module contains the implementation of the inverse pointers of extents: where they are stored,
from `inverse_ptr.cpp`, and how `segstore.cpp` writes them when it extends a segment and reads them
to get from a physical block back to the logical one.
-/

inductive ExtentUsageType where
  | notUsed
  | segmentHead
  | forkHead
  | bucketSegment
  | bucketMap
  | bucketHead
  | dataExtent
  | invalidExtntUsage
  deriving DecidableEq

namespace ExtentUsageType

def toNat : ExtentUsageType → Nat
  | notUsed => 0
  | segmentHead => 1
  | forkHead => 2
  | bucketSegment => 3
  | bucketMap => 4
  | bucketHead => 5
  | dataExtent => 6
  | invalidExtntUsage => 7

end ExtentUsageType

def spcInvrsptrUsageShift : Nat := 28
def spcInvrsptrSpecialDataMask : Nat := (1 <<< 18) - 1

def spcInvrsptrAssembleFlag (usage : ExtentUsageType) (specialData : Nat) : Nat :=
  (specialData &&& spcInvrsptrSpecialDataMask) + (usage.toNat <<< spcInvrsptrUsageShift)

structure ExtentInversePointer where
  flag : Nat
  owner : Nat
  deriving DecidableEq

namespace ExtentInversePointer

-- `SPC_INVRSPTR_GET_USAGE`, as the number that it casts to an `ExtentUsageType`
def getUsage (eip : ExtentInversePointer) : Nat := eip.flag >>> spcInvrsptrUsageShift

-- `SPC_INVRSPTR_GET_SPECIAL_DATA`
def getSpecialData (eip : ExtentInversePointer) : Nat := eip.flag &&& spcInvrsptrSpecialDataMask

-- `InversePointerIsValid`
def isValid (eip : ExtentInversePointer) : Bool :=
  eip.getUsage > ExtentUsageType.notUsed.toNat
    && eip.getUsage < ExtentUsageType.invalidExtntUsage.toNat

end ExtentInversePointer

structure IpBlockLocation where
  ipblock : Nat
  offset : Nat
  deriving DecidableEq

-- `a - b` of two `uint32`s
def u32Sub (a b : Nat) : Nat := u32 (a + 2 ^ 32 - b)

def groupTotalBlocks (extentSize : ExtentSize) : Nat :=
  u32 (dfMapGroupSize + ipblockGroupSize + dfMapGroupExtents * extentSize.toNat)

def getIpBlock (extent : Nat) (extentSize : ExtentSize) : IpBlockLocation :=
  let extent := u32Sub extent (dfMapHeadPage + 1)
  let groupTotalBlocks := groupTotalBlocks extentSize
  let groupId := extent / groupTotalBlocks
  let groupIpStart := u32 (dfMapHeadPage + 1 + groupId * groupTotalBlocks + dfMapGroupSize)
  let groupOffset := extent % groupTotalBlocks
  let groupOffset := u32Sub groupOffset (dfMapGroupSize + ipblockGroupSize)
  let extentId := groupOffset / extentSize.toNat
  ⟨u32 (groupIpStart + extentId / extentsPerIpblock), extentId % extentsPerIpblock⟩

structure SegSpace where
  inversePointers : ExtentSize → ForkNumber → IpBlockLocation → ExtentInversePointer

namespace ForkNumber

def toNat : ForkNumber → Nat
  | main => 0
  | fsm => 1
  | visibilitymap => 2

end ForkNumber

-- Of the `RelFileNode` only what names a segment of the space. A segment that does not belong to a
-- bucket has the `bucketNode` `SegmentBktId`, which is `none` here.
structure RelFileNode where
  relNode : Nat
  bucketNode : Option Nat
  deriving DecidableEq

def maxBucketmaplen : Nat := 16384

-- The inverse pointers that `seg_alloc_segment`, `normal_open_segment` and `bucket_open_segment`
-- pass on for a segment head.
def headInversePointer (rnode : RelFileNode) (forknum : ForkNumber) : ExtentInversePointer :=
  match rnode.bucketNode with
  | some bucketNode =>
    ⟨spcInvrsptrAssembleFlag .bucketHead (forknum.toNat * maxBucketmaplen + bucketNode),
      rnode.relNode⟩
  | none =>
    if forknum = .main then
      ⟨spcInvrsptrAssembleFlag .segmentHead 0, invalidBlockNumber⟩
    else
      ⟨spcInvrsptrAssembleFlag .forkHead forknum.toNat, rnode.relNode⟩

namespace SegSpace

def setInversePointer (spc : SegSpace) (extentSize : ExtentSize) (forknum : ForkNumber)
    (extent : Nat) (iptr : ExtentInversePointer) : SegSpace where
  inversePointers := Function.update spc.inversePointers extentSize
    (Function.update (spc.inversePointers extentSize) forknum
      (Function.update (spc.inversePointers extentSize forknum) (getIpBlock extent extentSize)
        iptr))

-- `RepairGetInversePointer`, and `GetInversePointer` less its check
def repairGetInversePointer (spc : SegSpace) (extentSize : ExtentSize) (forknum : ForkNumber)
    (extent : Nat) : ExtentInversePointer :=
  spc.inversePointers extentSize forknum (getIpBlock extent extentSize)

def getInversePointer (spc : SegSpace) (extentSize : ExtentSize) (forknum : ForkNumber)
    (extent : Nat) : Except SegError ExtentInversePointer := do
  let res := spc.repairGetInversePointer extentSize forknum extent
  segmentCheck res.isValid
  return res

/--
The part of `seg_extend_segment` that `Segment.segExtendSegment` leaves out: `spc_alloc_extent` sets
the inverse pointer of the extent that it returns.
-/
def segExtendSegment (spc : SegSpace) (seg : Segment) (forknum : ForkNumber)
    (segHeadBlocknum newExtent level0Page : Nat) : SegSpace :=
  let newExtentId := seg.head.nextents
  let iptr := ⟨spcInvrsptrAssembleFlag .dataExtent newExtentId, segHeadBlocknum⟩
  let spc := spc.setInversePointer (extentSizeByCount newExtentId) forknum newExtent iptr
  if Segment.requireNewLevel0Page newExtentId then
    spc.setInversePointer .extSize1 .main level0Page iptr
  else
    spc

def getSegmentLogicRnode (spc : SegSpace) (headBlocknum : Nat) (aimFork : ForkNumber)
    : Except SegError RelFileNode := do
  let iptr ← spc.getInversePointer .extSize1 .main headBlocknum
  let usage := iptr.getUsage
  let (rnode, forknum) ←
    if usage = ExtentUsageType.segmentHead.toNat then do
      segmentCheck (iptr.owner = invalidBlockNumber)
      pure (⟨headBlocknum, none⟩, ForkNumber.main.toNat)
    else if usage = ExtentUsageType.forkHead.toNat then do
      let forknum := iptr.getSpecialData
      segmentCheck (forknum ≠ ForkNumber.main.toNat)
      pure (⟨iptr.owner, none⟩, forknum)
    else if usage = ExtentUsageType.bucketHead.toNat then
      let specialData := iptr.getSpecialData
      pure (⟨iptr.owner, some (specialData % maxBucketmaplen)⟩, specialData / maxBucketmaplen)
    else
      pure (⟨invalidBlockNumber, none⟩, ForkNumber.main.toNat)
  if aimFork.toNat ≠ forknum then
    return { rnode with relNode := invalidBlockNumber }
  else
    return rnode

/--
Returns `none` where the block holds metadata and the offset in its extent otherwise.
-/
def checkMetaData (extent : Nat) (extentSize : ExtentSize) : Option Nat :=
  if extent < dfMapHeadPage + 1 || extentSize = .extSize1 then
    none
  else
    let extent := u32Sub extent (dfMapHeadPage + 1)
    let groupOffset := extent % groupTotalBlocks extentSize
    if groupOffset < dfMapGroupSize + ipblockGroupSize then
      none
    else
      some ((groupOffset - dfMapGroupSize - ipblockGroupSize) % extentSize.toNat)

-- Returns the `relNode` and the block number that are passed back, and `none` where these stay as
-- they are. The `relNode` of a physical block is the type of its extent.
def repairCheckPhysicalType (spc : SegSpace) (forkNum : ForkNumber) (extentSize : ExtentSize)
    (blockNum : Nat) : Except SegError (Option (Nat × Nat)) := do
  match checkMetaData blockNum extentSize with
  | none => return none
  | some offsetBlocks =>
    let iptr := spc.repairGetInversePointer extentSize forkNum blockNum
    if !iptr.isValid then
      throw (.invalidBlocknum blockNum)
    let logicNode ← spc.getSegmentLogicRnode iptr.owner forkNum
    let extentId := iptr.getSpecialData
    return some (logicNode.relNode, u32 (extentIdToLogicBlockNum extentId + offsetBlocks))

end SegSpace

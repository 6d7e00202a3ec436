import OpenGauss.Lib.Memory

/-!
This module contains the PCA page of an extent of a compressed file, which says the chunks that each
block of the extent owns (`cfs.h`, `cfs_converter.h`, `cfs_tools.cpp`), its check, repair and
reading into the buffer (`cfs_buffers.cpp`), and the recycling of the chunks of an extent with the
replay of the assist file after a crash (`cfs_md.cpp`, `smgr.cpp`, `double_write.cpp`).

A page is the memory that holds it, and the address of a block is its position in that memory. An
extent is the memory of its 128 pages, the last of which is the PCA page.
-/

namespace Cfs

open LittleEndian

def blcksz : Nat := 8192
def cfsExtentSize : Nat := 128
def cfsLogicBlocksPerExtent : Nat := cfsExtentSize - 1
def allocateChunkUsageLen : Nat := cfsLogicBlocksPerExtent * (blcksz / 1024) / 8

-- The size of the chunks must be 1/2, 1/4 or 1/8 of `BLCKSZ`.
inductive ChunkSize where
  | half
  | quarter
  | eighth
  deriving DecidableEq, Repr

def ChunkSize.bytes : ChunkSize → Nat
  | .half => 4096
  | .quarter => 2048
  | .eighth => 1024

def cfsMaxLogicChunksNumber (chunkSize : Nat) : Nat :=
  cfsLogicBlocksPerExtent * (blcksz / chunkSize)

def sizeOfExtentAddressByChunks (nChunks : Nat) : Nat := 6 + 2 * nChunks

def sizeOfExtentAddress (chunkSize : Nat) : Nat :=
  if chunkSize = 0 then
    2 ^ 64 - 1
  else
    6 + 2 * blcksz / chunkSize

namespace CfsExtentHeader

-- `offsetof(CfsExtentHeader, cfsExtentAddress)`
def addressOffset : Nat := 144

def nblocks (pca : Memory) : Nat := decode (pca.load 0 4)
def allocatedChunks (pca : Memory) : Nat := decode (pca.load 4 4)
def chunkSize (pca : Memory) : Nat := decode (pca.load 8 2)
def algorithm (pca : Memory) : Nat := (pca 10).toNat % 128
def recycleInOrder (pca : Memory) : Bool := (pca 10).toNat / 128 == 1

def setNblocks (pca : Memory) (n : Nat) : Memory := pca.store 0 (encode 4 n)
def setAllocatedChunks (pca : Memory) (n : Nat) : Memory := pca.store 4 (encode 4 n)
def setChunkSize (pca : Memory) (n : Nat) : Memory := pca.store 8 (encode 2 n)

-- `algorithm` and `recycleInOrder` share a byte.
def setAlgorithm (pca : Memory) (n : Nat) : Memory :=
  pca.store 10 [UInt8.ofNat (n % 128 + (pca 10).toNat / 128 * 128)]

def setRecycleInOrder (pca : Memory) (inOrder : Bool) : Memory :=
  pca.store 10 [UInt8.ofNat ((pca 10).toNat % 128 + inOrder.toNat * 128)]

end CfsExtentHeader

namespace CfsExtentAddress

def checksum (mem : Memory) (addr : Nat) : Nat := decode (mem.load addr 4)
def nchunks (mem : Memory) (addr : Nat) : Nat := (mem (addr + 4)).toNat
def allocatedChunks (mem : Memory) (addr : Nat) : Nat := (mem (addr + 5)).toNat
def chunknos (mem : Memory) (addr i : Nat) : Nat := decode (mem.load (addr + 6 + 2 * i) 2)

def setChecksum (mem : Memory) (addr n : Nat) : Memory := mem.store addr (encode 4 n)
def setNchunks (mem : Memory) (addr n : Nat) : Memory := mem.store (addr + 4) (encode 1 n)
def setAllocatedChunks (mem : Memory) (addr n : Nat) : Memory := mem.store (addr + 5) (encode 1 n)

def setChunkno (mem : Memory) (addr i n : Nat) : Memory :=
  mem.store (addr + 6 + 2 * i) (encode 2 n)

def listed (mem : Memory) (addr : Nat) : List Nat :=
  (List.range (allocatedChunks mem addr)).map (chunknos mem addr)

end CfsExtentAddress

def getExtentAddress (pca : Memory) (blockOffset : Nat) : Nat :=
  CfsExtentHeader.addressOffset + blockOffset * sizeOfExtentAddress (CfsExtentHeader.chunkSize pca)

def addrChecksum32.go (mem : Memory) (addr : Nat) : Nat → Nat
  | len + 4 => decode (mem.load addr 4) + go mem (addr + 4) len
  | len => decode (mem.load addr len)

def addrChecksum32 (mem : Memory) (addr needChunks : Nat) : Nat :=
  addrChecksum32.go mem (addr + 4) (sizeOfExtentAddressByChunks (needChunks % 256) - 4) % 2 ^ 32

open CfsExtentAddress

section CheckHeader

inductive CfsHeaderPagerCheckStatus where
  | ok
  | repaired
  | error
  deriving DecidableEq, Repr

structure ExtentLocation where
  isSegmentPage : Bool
  isCompressAllowed : Bool
  deriving DecidableEq, Repr

-- `u_sess->attr.attr_security.zero_damaged_pages`
variable (zeroDamagedPages : Bool)

def checkHeaderOfCompressAddr (pcMap : Memory) (chunkSize algorithm : Nat)
    : CfsHeaderPagerCheckStatus × Memory :=
  if CfsExtentHeader.chunkSize pcMap ≠ chunkSize ∨ CfsExtentHeader.algorithm pcMap ≠ algorithm then
    if zeroDamagedPages then
      let pcMap := CfsExtentHeader.setNblocks pcMap 0
      let pcMap := CfsExtentHeader.setAllocatedChunks pcMap 0
      let pcMap := CfsExtentHeader.setChunkSize pcMap chunkSize
      (.repaired, CfsExtentHeader.setAlgorithm pcMap algorithm)
    else
      let pcMap := CfsExtentHeader.setChunkSize pcMap chunkSize
      (.repaired, CfsExtentHeader.setAlgorithm pcMap algorithm)
  else
    (.ok, pcMap)

structure CheckState where
  pcMap : Memory
  status : CfsHeaderPagerCheckStatus
  globalChunknos : Nat → Nat
  maxBlocknum : Nat
  maxNonzeroBlocknum : Nat
  maxAllocatedChunkno : Nat

namespace CheckState

def repair (state : CheckState) (pcMap : Memory) : CheckState :=
  { state with pcMap := pcMap, status := .repaired }

def own (state : CheckState) (blocknum chunkno : Nat) : CheckState :=
  { state with
    globalChunknos := fun i => if i = chunkno - 1 then blocknum + 1 else state.globalChunknos i
    maxAllocatedChunkno :=
      if chunkno > state.maxAllocatedChunkno then chunkno else state.maxAllocatedChunkno }

end CheckState

-- `memset_s(pcAddr, SizeOfExtentAddress(chunk_size), 0, SizeOfExtentAddress(chunk_size))`
def zeroAddress (pcMap : Memory) (pcAddr chunkSize : Nat) : Memory :=
  pcMap.store pcAddr (List.replicate (sizeOfExtentAddress chunkSize) 0)

def checkChecksum (chunkSize pcAddr : Nat) (state : CheckState) : CheckState :=
  let pcMap := state.pcMap
  if checksum pcMap pcAddr ≠ addrChecksum32 pcMap pcAddr (allocatedChunks pcMap pcAddr) then
    let pcMap := setNchunks pcMap pcAddr 0
    let pcMap := setAllocatedChunks pcMap pcAddr 0
    let pcMap := (List.range (blcksz / chunkSize)).foldl (fun m i => setChunkno m pcAddr i 0) pcMap
    state.repair (setChecksum pcMap pcAddr 0)
  else
    state

def isDamagedChunkno (chunkSize : Nat) (globalChunknos : Nat → Nat) (chunkno : Nat) : Bool :=
  chunkno == 0 || cfsMaxLogicChunksNumber chunkSize < chunkno || globalChunknos (chunkno - 1) != 0

-- The loop ends after a block has been zeroed, which then has no chunks.
def checkChunknos (chunkSize pcAddr : Nat) : Nat → Nat → CheckState → Except Memory CheckState
  | 0, _, state => .ok state
  | fuel + 1, i, state =>
    if i < allocatedChunks state.pcMap pcAddr then
      if isDamagedChunkno chunkSize state.globalChunknos (chunknos state.pcMap pcAddr i) then
        if zeroDamagedPages then
          checkChunknos chunkSize pcAddr fuel (i + 1)
            (state.repair (zeroAddress state.pcMap pcAddr chunkSize))
        else
          .error state.pcMap
      else
        checkChunknos chunkSize pcAddr fuel (i + 1) state
    else
      .ok state

def cleanChunknos (chunkSize pcAddr : Nat) (state : CheckState) : CheckState :=
  let allocated := allocatedChunks state.pcMap pcAddr
  (List.range' allocated (blcksz / chunkSize - allocated)).foldl
    (fun state i =>
      if chunknos state.pcMap pcAddr i ≠ 0 then
        state.repair (setChunkno state.pcMap pcAddr i 0)
      else
        state)
    state

def recordBlock (blocknum pcAddr : Nat) (state : CheckState) : CheckState :=
  let state := { state with
    maxBlocknum := blocknum
    maxNonzeroBlocknum :=
      if 0 < nchunks state.pcMap pcAddr then blocknum else state.maxNonzeroBlocknum }
  (listed state.pcMap pcAddr).foldl (fun state chunkno => state.own blocknum chunkno) state

def checkBlock (chunkSize : Nat) (state : CheckState) (blocknum : Nat) : Except Memory CheckState :=
  let pcAddr := getExtentAddress state.pcMap blocknum
  let state := checkChecksum chunkSize pcAddr state
  if blcksz / chunkSize < allocatedChunks state.pcMap pcAddr then
    if zeroDamagedPages then
      .ok (state.repair (zeroAddress state.pcMap pcAddr chunkSize))
    else
      .error state.pcMap
  else
    match checkChunknos zeroDamagedPages chunkSize pcAddr (blcksz / chunkSize) 0 state with
    | .error pcMap => .error pcMap
    | .ok state =>
      let state := cleanChunknos chunkSize pcAddr state
      if allocatedChunks state.pcMap pcAddr < nchunks state.pcMap pcAddr then
        if zeroDamagedPages then
          .ok (state.repair (zeroAddress state.pcMap pcAddr chunkSize))
        else
          .error state.pcMap
      else
        .ok (recordBlock blocknum pcAddr state)

def updateNblocks (nblocks : Nat) (state : CheckState) : CheckState :=
  if nblocks < (state.maxNonzeroBlocknum + 1) % 2 ^ 16 then
    state.repair (CfsExtentHeader.setNblocks state.pcMap (state.maxNonzeroBlocknum + 1))
  else
    state

def updateAllocatedChunks (allocated : Nat) (state : CheckState) : CheckState :=
  if allocated ≠ state.maxAllocatedChunkno then
    state.repair (CfsExtentHeader.setAllocatedChunks state.pcMap state.maxAllocatedChunkno)
  else
    state

def cleanAddresses (chunkSize : Nat) (state : CheckState) : CheckState :=
  let blocknum := (state.maxBlocknum + 1) % 2 ^ 16
  (List.range' blocknum (cfsLogicBlocksPerExtent - blocknum)).foldl
    (fun state blocknum =>
      let pcAddr := getExtentAddress state.pcMap blocknum
      if allocatedChunks state.pcMap pcAddr = 0 ∧ nchunks state.pcMap pcAddr = 0 then
        state
      else
        state.repair (zeroAddress state.pcMap pcAddr chunkSize))
    state

def checkAndRepairCompressAddress (pcMap : Memory) (chunkSize algorithm : Nat)
    (location : ExtentLocation) : CfsHeaderPagerCheckStatus × Memory :=
  if location.isSegmentPage && !location.isCompressAllowed then
    (.ok, pcMap)
  else
    let (status, pcMap) := checkHeaderOfCompressAddr zeroDamagedPages pcMap chunkSize algorithm
    let nblocks := CfsExtentHeader.nblocks pcMap
    let allocated := CfsExtentHeader.allocatedChunks pcMap
    -- The maxima start at `(uint16)-1`.
    let state : CheckState := ⟨pcMap, status, fun _ => 0, 65535, 65535, 0⟩
    match (List.range cfsLogicBlocksPerExtent).foldlM (checkBlock zeroDamagedPages chunkSize) state with
    | .error pcMap => (.error, pcMap)
    | .ok state =>
      let state := updateNblocks nblocks state
      let state := updateAllocatedChunks allocated state
      let state := cleanAddresses chunkSize state
      (state.status, state.pcMap)

end CheckHeader

-- `offsetof(CfsExtentHeader, allocated_chunk_usages)`
def usagesOffset : Nat := 14

def cfsBitmapByteIx (x : Nat) : Nat := x / 8

def cfsBitmapSet (pca : Memory) (x : Nat) : Memory :=
  pca.store (usagesOffset + cfsBitmapByteIx x)
    [UInt8.ofNat ((pca (usagesOffset + cfsBitmapByteIx x)).toNat ||| 2 ^ (x % 8))]

def CfsExtentHeader.setNFragmentChunks (pca : Memory) (n : Nat) : Memory := pca.store 12 (encode 2 n)

structure Settings where
  zeroDamagedPages : Bool
  recoveryInProgress : Bool
  enableTpcFragmentChunks : Bool
  chunkSize : Nat
  algorithm : Nat
  location : ExtentLocation

def pcaIsAllZero (pca : Memory) : Bool :=
  (List.range blcksz).all (fun i => pca i == 0)

def useChunk (state : Memory × Nat) (chunkno : Nat) : Memory × Nat :=
  (cfsBitmapSet state.1 chunkno, (state.2 + 1) % 2 ^ 16)

def useBlock (state : Memory × Nat) (i : Nat) : Memory × Nat :=
  (listed state.1 (getExtentAddress state.1 i)).foldl useChunk state

def constructUsages (pca : Memory) : Memory :=
  let pca := pca.store usagesOffset (List.replicate allocateChunkUsageLen 0)
  let (pca, usedChunkCount) := (List.range (CfsExtentHeader.nblocks pca)).foldl useBlock (pca, 0)
  CfsExtentHeader.setNFragmentChunks pca
    (CfsExtentHeader.allocatedChunks pca + 2 ^ 32 - usedChunkCount)

-- `none` is a page that could not be loaded.
def pcaBufLoadPage (settings : Settings) (page : Memory) : Option Memory :=
  let page :=
    if settings.recoveryInProgress && pcaIsAllZero page then
      CfsExtentHeader.setChunkSize (CfsExtentHeader.setAlgorithm page settings.algorithm)
        settings.chunkSize
    else
      page
  match checkAndRepairCompressAddress settings.zeroDamagedPages page settings.chunkSize
      settings.algorithm settings.location with
  | (.error, _) => none
  | (_, page) =>
    if settings.enableTpcFragmentChunks then
      some (constructUsages page)
    else
      some page

-- The positions in the buffer: 127 pages of the old extent, 128 pages of the new one, the file info.
def srcBuf : Nat := 0
def assistBuf : Nat := cfsExtentSize * blcksz - blcksz
def assistInfobuf : Nat := assistBuf + cfsExtentSize * blcksz
def assistPca : Nat := assistBuf + (cfsExtentSize * blcksz - blcksz)

def pcaOffset : Nat := cfsLogicBlocksPerExtent * blcksz

def moveChunk (srcExtPca : Memory) (srcExtAddr assistExtAddr : Nat) (state : Memory × Nat) (j : Nat)
    : Memory × Nat :=
  let chunkSize := CfsExtentHeader.chunkSize srcExtPca
  let chunknum := (state.2 + 1) % 2 ^ 16
  let alignbuf := setChunkno state.1 assistExtAddr j chunknum
  (alignbuf.copy (assistBuf + (chunknum - 1) * chunkSize) alignbuf
    (srcBuf + (chunknos srcExtPca srcExtAddr j - 1) * chunkSize) chunkSize, chunknum)

def moveBlock (srcExtPca : Memory) (state : Memory × Nat) (i : Nat) : Memory × Nat :=
  let srcExtAddr := getExtentAddress srcExtPca i
  let assistExtAddr := assistPca + getExtentAddress (state.1.view assistPca) i
  let count := nchunks srcExtPca srcExtAddr
  let alignbuf := setAllocatedChunks state.1 assistExtAddr count
  let alignbuf := setNchunks alignbuf assistExtAddr count
  let (alignbuf, chunknum) :=
    (List.range count).foldl (moveChunk srcExtPca srcExtAddr assistExtAddr) (alignbuf, state.2)
  (setChecksum alignbuf assistExtAddr
    (addrChecksum32 alignbuf assistExtAddr (allocatedChunks alignbuf assistExtAddr)), chunknum)

def cfsSortOutChunk (extent srcExtPca alignbuf : Memory) : Memory :=
  let alignbuf := alignbuf.copy srcBuf extent 0 (cfsExtentSize * blcksz - blcksz)
  let alignbuf := alignbuf.copy assistPca srcExtPca 0 CfsExtentHeader.addressOffset
  let (alignbuf, chunknum) :=
    (List.range (CfsExtentHeader.nblocks srcExtPca)).foldl (moveBlock srcExtPca) (alignbuf, 0)
  alignbuf.within assistPca
    (fun pca => CfsExtentHeader.setRecycleInOrder (CfsExtentHeader.setAllocatedChunks pca chunknum) true)

namespace CfsExtInfo

structure Key where
  rnode : Bytes
  extentNumber : Nat
  deriving DecidableEq

def key (info : Memory) : Key := ⟨info.load 0 16, decode (info.load 20 4)⟩
def opt (info : Memory) : Nat := decode (info.load 14 2)
def forknum (info : Memory) : Nat := decode (info.load 16 4)
def assistFlag (info : Memory) : Nat := decode (info.load 24 4)

def setAssistFlag (info : Memory) (n : Nat) : Memory := info.store 24 (encode 4 n)

end CfsExtInfo

structure File where
  bytes : Memory
  size : Nat

def File.pwrite (file : File) (pos : Nat) (bs : Bytes) : File :=
  ⟨file.bytes.store pos bs, max file.size (pos + bs.length)⟩

-- The extents of the relations that have not been removed, and the assist file.
structure Disk where
  extents : CfsExtInfo.Key → Option Memory
  assist : File

inductive DiskWrite where
  | assist (pos : Nat) (bs : Bytes)
  | extent (key : CfsExtInfo.Key) (pos : Nat) (bs : Bytes)

namespace DiskWrite

def length : DiskWrite → Nat
  | assist _ bs => bs.length
  | extent _ _ bs => bs.length

def apply (disk : Disk) : DiskWrite → Disk
  | assist pos bs => { disk with assist := disk.assist.pwrite pos bs }
  | extent key pos bs =>
    { disk with
      extents := Function.update disk.extents key
        ((disk.extents key).map (fun mem => mem.store pos bs)) }

def cut (n : Nat) : DiskWrite → DiskWrite
  | assist pos bs => assist pos (bs.take n)
  | extent key pos bs => extent key pos (bs.take n)

end DiskWrite

-- The disk when the first `n` bytes of the writes have reached it.
def crashAfter : List DiskWrite → Nat → Disk → Disk
  | [], _, disk => disk
  | write :: writes, n, disk =>
    if n < write.length then
      (write.cut n).apply disk
    else
      crashAfter writes (n - write.length) (write.apply disk)

def cfsPunchHole (key : CfsExtInfo.Key) (assistPca : Memory) : List DiskWrite :=
  let chunksum := CfsExtentHeader.allocatedChunks assistPca
  let punchOffset := chunksum * CfsExtentHeader.chunkSize assistPca
  let punchOffset := (punchOffset + 4095) / 4096 * 4096
  let punchSize := pcaOffset - punchOffset
  if punchSize = 0 then
    []
  else
    [.extent key punchOffset (List.replicate punchSize 0)]

def cfsRecycleChunkInExt (key : CfsExtInfo.Key) (extent srcExtPca alignbuf : Memory)
    : List DiskWrite :=
  if CfsExtentHeader.recycleInOrder srcExtPca then
    []
  else
    let alignbuf := alignbuf.store assistBuf (List.replicate (cfsExtentSize * blcksz) 0)
    let alignbuf := cfsSortOutChunk extent srcExtPca alignbuf
    let alignbuf := alignbuf.within assistInfobuf (fun info => CfsExtInfo.setAssistFlag info 1)
    let first := DiskWrite.assist 0 (alignbuf.load assistBuf (cfsExtentSize * blcksz + blcksz))
    let second := DiskWrite.extent key 0 (alignbuf.load assistBuf (cfsExtentSize * blcksz))
    let alignbuf := alignbuf.within assistInfobuf (fun info => CfsExtInfo.setAssistFlag info 0)
    -- The third write is not of the info but of the first page of the new extent.
    let third := DiskWrite.assist (cfsExtentSize * blcksz) (alignbuf.load assistBuf blcksz)
    [first, second, third] ++ cfsPunchHole key (alignbuf.view assistPca)

-- `none` is an error.
def mdAssistFileProcess (settings : Settings) (assistInfo : Memory) (disk : Disk) : Option Disk :=
  let key := CfsExtInfo.key assistInfo
  match disk.extents key with
  | none => some disk
  | some extent =>
    match pcaBufLoadPage settings (extent.view pcaOffset) with
    | none => none
    | some extHeader =>
      if CfsExtentHeader.recycleInOrder extHeader then
        some disk
      else
        some ((DiskWrite.extent key 0 (disk.assist.bytes.load 0 (cfsExtentSize * blcksz))).apply disk)

def smgrAssistFileProcess (settings : Settings) (assistInfo : Memory) (disk : Disk) : Option Disk :=
  if CfsExtInfo.opt assistInfo = 0 ∨ CfsExtInfo.forknum assistInfo ≠ 0 then
    some disk
  else if CfsExtInfo.assistFlag assistInfo = 0 then
    some disk
  else
    mdAssistFileProcess settings assistInfo disk

def dwExtPageNum : Nat := 129
def dwAssistFileSize : Nat := blcksz * dwExtPageNum + blcksz

def dwRecoverExtPartialWrites (settings : Settings) (disk : Disk) : Option Disk :=
  if disk.assist.size < dwAssistFileSize then
    some disk
  else
    smgrAssistFileProcess settings (disk.assist.bytes.view (dwAssistFileSize - blcksz)) disk

end Cfs

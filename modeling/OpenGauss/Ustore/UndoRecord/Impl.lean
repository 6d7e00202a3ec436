import OpenGauss.Lib.Layout

/-!
This module contains the format of undo records, from `knl_uundorecord.cpp`, `knl_uundorecord.h` and
`knl_uundotype.h`.

The undo log of a zone is a function from offsets to bytes; page `blk` of it starts at offset
`blk * BLCKSZ`. A pointer into a page is the offset of the byte it points to.
-/

namespace Undo

def blcksz : Nat := 8192

-- `SizeOfPageHeaderData`
def undoLogBlockHeaderSize : Nat := 24

def undoLogUsableBytesPerPage : Nat := blcksz - undoLogBlockHeaderSize

def undoLogOffsetToUsableByteNo (offset : Nat) : Nat :=
  (offset % blcksz - undoLogBlockHeaderSize) + offset / blcksz * undoLogUsableBytesPerPage

def undoLogOffsetFromUsableByteNo (i : Nat) : Nat :=
  i / undoLogUsableBytesPerPage * blcksz + undoLogBlockHeaderSize + i % undoLogUsableBytesPerPage

def undoLogOffsetPlusUsableBytes (offset n : Nat) : Nat :=
  undoLogOffsetFromUsableByteNo (undoLogOffsetToUsableByteNo offset + n)

abbrev UndoLog := Nat → UInt8

structure UndoRecordHeader where
  xid : UInt64
  cid : UInt32
  reloid : UInt32
  relfilenode : UInt32
  utype : UInt8
  uinfo : UInt8
  deriving DecidableEq

structure UndoRecordBlock where
  blkprev : UInt64
  blkno : UInt32
  offset : UInt16
  deriving DecidableEq

structure UndoRecordTransaction where
  prevurp : UInt64
  deriving DecidableEq

structure UndoRecordOldTd where
  oldxactid : UInt64
  deriving DecidableEq

structure UndoRecordPartition where
  partitionoid : UInt32
  deriving DecidableEq

structure UndoRecordTablespace where
  tablespace : UInt32
  deriving DecidableEq

structure UndoRecordPayload where
  payloadlen : UInt16
  deriving DecidableEq

instance : Layout UndoRecordHeader :=
  Layout.ofTuple (fun h => (h.xid, h.cid, h.reloid, h.relfilenode, h.utype, h.uinfo))
    (fun ⟨xid, cid, reloid, relfilenode, utype, uinfo⟩ =>
      ⟨xid, cid, reloid, relfilenode, utype, uinfo⟩)
    (fun _ => rfl) (fun _ => rfl)

instance : Layout UndoRecordBlock :=
  Layout.ofTuple (fun b => (b.blkprev, b.blkno, b.offset))
    (fun ⟨blkprev, blkno, offset⟩ => ⟨blkprev, blkno, offset⟩) (fun _ => rfl) (fun _ => rfl)

instance : Layout UndoRecordTransaction :=
  Layout.ofTuple (·.prevurp) (⟨·⟩) (fun _ => rfl) (fun _ => rfl)

instance : Layout UndoRecordOldTd :=
  Layout.ofTuple (·.oldxactid) (⟨·⟩) (fun _ => rfl) (fun _ => rfl)

instance : Layout UndoRecordPartition :=
  Layout.ofTuple (·.partitionoid) (⟨·⟩) (fun _ => rfl) (fun _ => rfl)

instance : Layout UndoRecordTablespace :=
  Layout.ofTuple (·.tablespace) (⟨·⟩) (fun _ => rfl) (fun _ => rfl)

instance : Layout UndoRecordPayload :=
  Layout.ofTuple (·.payloadlen) (⟨·⟩) (fun _ => rfl) (fun _ => rfl)

def undoUrecInfoPayload : UInt8 := 0x01
def undoUrecInfoTransac : UInt8 := 0x02
def undoUrecInfoOldtd : UInt8 := 0x08
def undoUrecInfoHasPartoid : UInt8 := 0x20
def undoUrecInfoHasTablespaceoid : UInt8 := 0x40

-- `rawdata` are the `rawdata_.len` bytes at `rawdata_.data`; it is empty where that is NULL.
structure UndoRecord where
  whdr : UndoRecordHeader
  wblk : UndoRecordBlock
  wtxn : UndoRecordTransaction
  wtd : UndoRecordOldTd
  wpart : UndoRecordPartition
  wtspc : UndoRecordTablespace
  wpay : UndoRecordPayload
  rawdata : Bytes
  isCopy : Bool
  deriving DecidableEq

namespace UndoRecord

def reset : UndoRecord where
  whdr := ⟨0, 0xFFFFFFFF, 0, 0, 0, 0⟩
  wblk := ⟨0, 0xFFFFFFFF, 0⟩
  wtxn := ⟨0⟩
  wtd := ⟨2⟩
  wpart := ⟨0⟩
  wtspc := ⟨0⟩
  wpay := ⟨0⟩
  rawdata := []
  isCopy := true

def hasInfo (r : UndoRecord) (info : UInt8) : Bool := r.whdr.uinfo &&& info != 0

def recordBytes (r : UndoRecord) : Nat :=
  let size := 36 + 2
  let size := if r.hasInfo undoUrecInfoPayload then size + 2 + r.rawdata.length else size
  let size := if r.hasInfo undoUrecInfoTransac then size + 8 else size
  let size := if r.hasInfo undoUrecInfoOldtd then size + 8 else size
  let size := if r.hasInfo undoUrecInfoHasPartoid then size + 4 else size
  let size := if r.hasInfo undoUrecInfoHasTablespaceoid then size + 4 else size
  size

-- `UndoRecordSize` is `uint16`.
def recordSize (r : UndoRecord) : UInt16 := UInt16.ofNat r.recordBytes

end UndoRecord

section Append

def memcpy (log : UndoLog) (dest : Nat) (src : Bytes) : UndoLog :=
  fun i => if dest ≤ i ∧ i < dest + src.length then src.getD (i - dest) 0 else log i

structure Writer where
  log : UndoLog
  writeptr : Nat
  endptr : Nat
  myBytesWritten : Nat
  alreadyWritten : Nat

def insertUndoBytes (src : Bytes) (w : Writer) : Bool × Writer :=
  if src.length ≤ w.myBytesWritten then
    (true, { w with myBytesWritten := w.myBytesWritten - src.length })
  else
    let remaining := src.length - w.myBytesWritten
    let maxWriteOnCurrPage := w.endptr - w.writeptr
    let canWrite := min remaining maxWriteOnCurrPage
    if canWrite = 0 then
      (false, w)
    else
      (canWrite = remaining,
        { w with
          log := memcpy w.log w.writeptr ((src.drop w.myBytesWritten).take canWrite)
          writeptr := w.writeptr + canWrite
          alreadyWritten := w.alreadyWritten + canWrite
          myBytesWritten := 0 })

def insertAll : List Bytes → Writer → Bool × Writer
  | [], w => (true, w)
  | src :: rest, w =>
    match insertUndoBytes src w with
    | (true, w) => insertAll rest w
    | (false, w) => (false, w)

namespace UndoRecord

def parts (r : UndoRecord) (undoLen : UInt16) : List Bytes :=
  let payloadlen := UInt16.ofNat r.rawdata.length
  [Layout.toBytes r.whdr, Layout.toBytes r.wblk]
    ++ (if r.hasInfo undoUrecInfoTransac then [Layout.toBytes r.wtxn] else [])
    ++ (if r.hasInfo undoUrecInfoOldtd then [Layout.toBytes r.wtd] else [])
    ++ (if r.hasInfo undoUrecInfoHasPartoid then [Layout.toBytes r.wpart] else [])
    ++ (if r.hasInfo undoUrecInfoHasTablespaceoid then [Layout.toBytes r.wtspc] else [])
    ++ (if r.hasInfo undoUrecInfoPayload then
          [Layout.toBytes (⟨payloadlen⟩ : UndoRecordPayload)]
            ++ (if 0 < payloadlen then [r.rawdata] else [])
        else [])
    ++ [Layout.toBytes undoLen]

def append (r : UndoRecord) (log : UndoLog) (page startingByte alreadyWritten : Nat)
    (undoLen : UInt16) : Bool × Writer :=
  insertAll (r.parts undoLen) {
    log
    writeptr := page * blcksz + startingByte
    endptr := page * blcksz + blcksz
    myBytesWritten := alreadyWritten
    alreadyWritten
  }

def insertPrepared.go (r : UndoRecord) (undoLen : UInt16)
    : Nat → UndoLog → Nat → Nat → Nat → Option Writer
  | 0, _, _, _, _ => none
  | pages + 1, log, page, startingByte, alreadyWritten =>
    match r.append log page startingByte alreadyWritten undoLen with
    | (true, w) => some w
    | (false, w) => go r undoLen pages w.log (page + 1) undoLogBlockHeaderSize w.alreadyWritten

-- Every page but the first takes at least one byte, so there are at most `RecordSize` pages.
def insertPrepared (r : UndoRecord) (log : UndoLog) (urp : Nat) : Option Writer :=
  insertPrepared.go r r.recordSize r.recordSize.toNat log (urp / blcksz) (urp % blcksz) 0

end UndoRecord

def Writer.endPosition (w : Writer) : Nat :=
  if w.writeptr = w.endptr then w.endptr + undoLogBlockHeaderSize else w.writeptr

end Append

section Read

structure Reader where
  urec : UndoRecord
  readptr : Nat
  endptr : Nat
  myBytesRead : Nat
  alreadyRead : Nat

def slice (log : UndoLog) (pos len : Nat) : Bytes := (List.range len).map fun i => log (pos + i)

-- The bytes at `destptr` are `dest` before the call; `set` stores those there after it.
def readUndoBytes (log : UndoLog) (dest : Bytes) (set : Bytes → UndoRecord → UndoRecord)
    (rd : Reader) : Bool × Reader :=
  if dest.length ≤ rd.myBytesRead then
    (true, { rd with myBytesRead := rd.myBytesRead - dest.length })
  else
    let remaining := dest.length - rd.myBytesRead
    let maxReadOnCurrPage := rd.endptr - rd.readptr
    let canRead := min remaining maxReadOnCurrPage
    if canRead = 0 then
      (false, rd)
    else
      (canRead = remaining,
        { rd with
          urec := set (dest.splice rd.myBytesRead (slice log rd.readptr canRead)) rd.urec
          readptr := rd.readptr + canRead
          alreadyRead := rd.alreadyRead + canRead
          myBytesRead := 0 })

abbrev ReadStep := Reader → Bool × Reader

def ReadStep.then (s t : ReadStep) : ReadStep := fun rd =>
  match s rd with
  | (true, rd) => t rd
  | (false, rd) => (false, rd)

def ReadStep.onlyIf (info : UInt8) (s : ReadStep) : ReadStep := fun rd =>
  if rd.urec.hasInfo info then s rd else (true, rd)

def readWhdr (log : UndoLog) : ReadStep := fun rd =>
  readUndoBytes log (Layout.toBytes rd.urec.whdr) (fun bs r => { r with whdr := Layout.ofBytes bs }) rd

def readWblk (log : UndoLog) : ReadStep := fun rd =>
  readUndoBytes log (Layout.toBytes rd.urec.wblk) (fun bs r => { r with wblk := Layout.ofBytes bs }) rd

def readWtxn (log : UndoLog) : ReadStep := fun rd =>
  readUndoBytes log (Layout.toBytes rd.urec.wtxn) (fun bs r => { r with wtxn := Layout.ofBytes bs }) rd

def readWtd (log : UndoLog) : ReadStep := fun rd =>
  readUndoBytes log (Layout.toBytes rd.urec.wtd) (fun bs r => { r with wtd := Layout.ofBytes bs }) rd

def readWpart (log : UndoLog) : ReadStep := fun rd =>
  readUndoBytes log (Layout.toBytes rd.urec.wpart) (fun bs r => { r with wpart := Layout.ofBytes bs })
    rd

def readWtspc (log : UndoLog) : ReadStep := fun rd =>
  readUndoBytes log (Layout.toBytes rd.urec.wtspc) (fun bs r => { r with wtspc := Layout.ofBytes bs })
    rd

def readWpay (log : UndoLog) : ReadStep := fun rd =>
  readUndoBytes log (Layout.toBytes rd.urec.wpay) (fun bs r => { r with wpay := Layout.ofBytes bs }) rd

def readRawdata (log : UndoLog) (copyData isUndoSplited : Bool) : ReadStep := fun rd =>
  let len := rd.urec.wpay.payloadlen.toNat
  if len = 0 then
    (true, rd)
  else if !copyData && !isUndoSplited && len ≤ rd.endptr - rd.readptr then
    (true, { rd with urec := { rd.urec with rawdata := slice log rd.readptr len, isCopy := false } })
  else
    -- The buffer is allocated on the first page that gets here and filled from there on.
    let data := if rd.urec.rawdata = [] then List.replicate len 0 else rd.urec.rawdata
    readUndoBytes log data (fun bs r => { r with rawdata := bs })
      { rd with urec := { rd.urec with rawdata := data } }

def readUndoRecord (log : UndoLog) (r : UndoRecord) (page startingByte alreadyRead : Nat)
    (copyData : Bool) : Bool × Reader :=
  let isUndoSplited := decide (0 < alreadyRead)
  let steps : ReadStep :=
    (readWhdr log).then <|
    (readWblk log).then <|
    (ReadStep.onlyIf undoUrecInfoTransac (readWtxn log)).then <|
    (ReadStep.onlyIf undoUrecInfoOldtd (readWtd log)).then <|
    (ReadStep.onlyIf undoUrecInfoHasPartoid (readWpart log)).then <|
    (ReadStep.onlyIf undoUrecInfoHasTablespaceoid (readWtspc log)).then <|
    ReadStep.onlyIf undoUrecInfoPayload
      ((readWpay log).then (readRawdata log copyData isUndoSplited))
  steps {
    urec := r
    readptr := page * blcksz + startingByte
    endptr := page * blcksz + blcksz
    myBytesRead := alreadyRead
    alreadyRead
  }

inductive LoadResult where
  | loaded (r : UndoRecord)
  -- "undo record exceeds max size"
  | panic
  | outOfFuel
  deriving DecidableEq

def load.go (log : UndoLog) (copyData : Bool) : Nat → Nat → Nat → Nat → UndoRecord → LoadResult
  | 0, _, _, _, _ => .outOfFuel
  | pages + 1, page, startingByte, alreadyRead, r =>
    if blcksz < alreadyRead then
      .panic
    else
      match readUndoRecord log r page startingByte alreadyRead copyData with
      | (true, rd) => .loaded rd.urec
      | (false, rd) => go log copyData pages (page + 1) undoLogBlockHeaderSize rd.alreadyRead rd.urec

-- No page but the first is left without a byte read, so the guard ends the loop in time.
def load (log : UndoLog) (urp : Nat) (copyData : Bool) : LoadResult :=
  load.go log copyData (blcksz + 2) (urp / blcksz) (urp % blcksz) 0 UndoRecord.reset

end Read

end Undo

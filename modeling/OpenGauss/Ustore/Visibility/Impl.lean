import OpenGauss.ShortXid.Impl
import OpenGauss.Ustore.Page.Impl

/-!
This module contains the test whether a snapshot sees the version of a row that is on its page, from
`knl_uvisibility.cpp`.

The tuple of a row is a pointer, so using the one that is not there is an outcome of its own.
-/

namespace Ustore

namespace Visibility

open ShortXid

section Page

structure DiskTuple where
  tdId : Nat
  flag : UInt16
  xid : Nat
  deriving DecidableEq

structure TD where
  xactid : Nat
  undoRecordPtr : Nat
  deriving DecidableEq

structure Page where
  maxOffsetNumber : Nat
  rowPtrs : Nat → RowPtr
  rowData : Nat → DiskTuple
  tdInfo : List TD
  pdXidBase : Nat
  pdMultiBase : Nat

-- The offset of a deleted row pointer has the transaction slot above seven bits of visibility.
def rowPtrGetVisibilityInfo (rp : RowPtr) : Nat := rp.offset % 2 ^ 7
def rowPtrGetTDSlot (rp : RowPtr) : Nat := rp.offset / 2 ^ 7 % 2 ^ 8
def rowPtrIsDeleted (rp : RowPtr) : Bool := rp.flags = .redirect

def rowptrXactInvalid : Nat := 0x0002

def uheapDeleted : UInt16 := 0x0010
def uheapInplaceUpdated : UInt16 := 0x0020
def uheapUpdated : UInt16 := 0x0040
def uheapXidShrLock : UInt16 := 0x0300
def uheapXidExclLock : UInt16 := 0x0400
def uheapMultiLockers : UInt16 := 0x0800
def uheapInvalidXactSlot : UInt16 := 0x1000
def singleLockerXidIsLock : UInt16 := 0x2000
def singleLockerXidIsTrans : UInt16 := 0x8000

def singleLockerXidIsExclLocked (flag : UInt16) : Bool :=
  flag &&& (singleLockerXidIsLock ||| uheapXidExclLock ||| uheapXidShrLock)
    = singleLockerXidIsLock ||| uheapXidExclLock

def uheapTupleHasInvalidXact (flag : UInt16) : Bool := flag &&& uheapInvalidXactSlot ≠ 0

-- `UHeapTupleGetRawXid`
def rawXid (page : Page) (tuple : DiskTuple) : Nat :=
  shortTransactionIdToNormal
    (if tuple.flag &&& uheapMultiLockers ≠ 0 then page.pdMultiBase else page.pdXidBase) tuple.xid

end Page

inductive SnapshotType where
  | mvcc
  | versionMvcc
  | delta
  | lost
  | now
  | nowNoSync
  | self
  | any
  | toast
  | dirty
  | historicMvcc
  | decodeMvcc
  deriving DecidableEq

structure Snapshot where
  satisfies : SnapshotType
  curcid : Nat

def isVersionMVCCSnapshot (snapshot : Snapshot) : Bool :=
  snapshot.satisfies = .versionMvcc || snapshot.satisfies = .delta || snapshot.satisfies = .lost

def isMVCCSnapshot (snapshot : Snapshot) : Bool :=
  snapshot.satisfies = .mvcc || snapshot.satisfies = .historicMvcc || snapshot.satisfies = .decodeMvcc
    || isVersionMVCCSnapshot snapshot

inductive UndoTraversalState where
  | complete
  | stop
  | abort
  | end
  | endChain
  | default
  deriving DecidableEq

-- `UHeapTupleTransInfo`
structure TransInfo where
  tdSlot : Nat
  xid : Nat
  cid : Option Nat
  urecAdd : Nat

structure Fetched where
  state : UndoTraversalState
  tdinfo : TransInfo
  lastXid : Nat

-- The state of the transactions and of the undo records. `visible` and `visibleOrOld` are
-- `XidVisibleInSnapshot` and `UHeapXidVisibleInSnapshot` for the snapshot of the call.
structure Env where
  fxid : Nat
  nextXid : Nat
  recoveryInProgress : Bool
  globalRecycleXid : Nat
  globalFrozenXid : Nat
  hotStandbyRecycleXid : Nat
  visible : Nat → Bool
  visibleOrOld : Nat → Bool
  didCommit : Nat → Bool
  isInProgress : Nat → Bool
  isCurrent : Nat → Bool
  currentCommandIdUsed : Bool
  currentCommandId : Nat
  fetchTransInfoFromUndo : (offnum : Nat) → TransInfo → (needByPass : Bool) → Fetched

inductive Stop where
  | panic
  | snapshotTooOld
  | unsupportedSnapshot
  | nullTuple
  deriving DecidableEq

inductive TidOp where
  | new
  | modified
  | gone
  deriving DecidableEq

inductive VersionSelector where
  | none
  | current
  | older
  | checkCid
  deriving DecidableEq

def invalidTransactionId : Nat := 0
def frozenSlot : Nat := 0

def transactionIdIsValid (xid : Nat) : Bool := xid ≠ invalidTransactionId

def transactionIdOlderThanAllUndo (env : Env) (xid : Nat) : Bool :=
  if env.recoveryInProgress then xid < env.hotStandbyRecycleXid else xid < env.globalRecycleXid

def uheapTidOpFromInfomask (infomask : UInt16) : TidOp :=
  if infomask &&& uheapInplaceUpdated ≠ 0 then .modified
  else if infomask &&& (uheapUpdated ||| uheapDeleted) ≠ 0 then .gone
  else .new

section Select

def uheapSelectVersionMVCC (env : Env) (op : TidOp) (xid : Nat) (snapshot : Snapshot) : VersionSelector :=
  if !isVersionMVCCSnapshot snapshot && env.isCurrent xid then
    if env.currentCommandIdUsed || env.currentCommandId ≠ snapshot.curcid then .checkCid
    else if op = .gone then .none
    else .current
  else if !env.visible xid then
    if op = .new then .none else .older
  else if op = .gone then .none
  else .current

def uheapSelectVersionNow (env : Env) (op : TidOp) (xid : Nat) : VersionSelector :=
  if env.isCurrent xid then
    if op = .gone then .none else .current
  else if !env.didCommit xid then
    if op = .new then .none else .older
  else if op = .gone then .none
  else .current

def uheapSelectVersionSelf (env : Env) (op : TidOp) (xid : Nat) : VersionSelector :=
  match op with
  | .gone =>
    if env.isCurrent xid then .none
    else if env.isInProgress xid then .older
    else if env.didCommit xid then .none
    else .older
  | .modified =>
    if env.isCurrent xid then .current
    else if env.isInProgress xid then .older
    else if env.didCommit xid then .current
    else .older
  | .new =>
    if env.isCurrent xid then .current
    else if env.isInProgress xid then .none
    else if env.didCommit xid then .current
    else .none

def uheapSelectVersionDirty (env : Env) (op : TidOp) (xid : Nat) : VersionSelector :=
  match op with
  | .gone =>
    if env.isCurrent xid then .none
    else if env.isInProgress xid then .current
    else if env.didCommit xid then .none
    else .older
  | .modified =>
    if env.isCurrent xid then .current
    else if env.isInProgress xid then .current
    else if env.didCommit xid then .current
    else .older
  | .new =>
    if env.isCurrent xid then .current
    else if env.isInProgress xid then .current
    else if env.didCommit xid then .current
    else .none

def uheapTupleSatisfies (env : Env) (op : TidOp) (snapshot : Snapshot) (uinfo : TransInfo)
    : Except Stop VersionSelector :=
  if uinfo.tdSlot = frozenSlot then
    .ok (if op = .gone then .none else .current)
  else if snapshot.satisfies = .mvcc || isVersionMVCCSnapshot snapshot then
    .ok (uheapSelectVersionMVCC env op uinfo.xid snapshot)
  else if snapshot.satisfies = .now then
    .ok (uheapSelectVersionNow env op uinfo.xid)
  else if snapshot.satisfies = .self then
    .ok (uheapSelectVersionSelf env op uinfo.xid)
  else if snapshot.satisfies = .dirty then
    .ok (uheapSelectVersionDirty env op uinfo.xid)
  else if snapshot.satisfies = .toast then
    .ok .older
  else
    .error .unsupportedSnapshot

def uheapCheckCID (op : TidOp) (tupleCid visibilityCid : Nat) : VersionSelector :=
  if visibilityCid ≤ tupleCid then
    if op = .new then .none else .older
  else if op = .gone then .none
  else .current

end Select

section Satisfies

def getTDSlotInfo (page : Page) (tdId : Nat) : Except Stop TransInfo :=
  if tdId = frozenSlot then
    .ok ⟨tdId, invalidTransactionId, none, 0⟩
  else
    match page.tdInfo[tdId - 1]? with
    | some td => .ok ⟨tdId, td.xactid, none, td.undoRecordPtr⟩
    | none => .error .panic

-- The id, and the tuple with a residual id replaced.
def uheapTupleGetModifiedXid (env : Env) (page : Page) (tuple : DiskTuple) : Nat × DiskTuple :=
  if transactionIdIsNormal tuple.xid && tuple.flag &&& singleLockerXidIsTrans ≠ 0
      && tuple.flag &&& singleLockerXidIsLock = 0 then
    let tupXid := shortTransactionIdToNormal page.pdXidBase tuple.xid
    if env.nextXid < tupXid then
      (invalidTransactionId, { tuple with xid := frozenTransactionId })
    else
      (tupXid, tuple)
  else
    (invalidTransactionId, tuple)

-- What the function knows of the row: `utuple`, `tdSlot`, `tupXid` and `isInvalidSlot`.
structure Row where
  utuple : Option DiskTuple
  tdSlot : Nat
  tupXid : Nat
  isInvalidSlot : Bool

def examineRow (env : Env) (page : Page) (offnum : Nat) : Option Row :=
  let rp := page.rowPtrs offnum
  if rp.isNormal then
    let tuple := page.rowData offnum
    let (tupXid, tuple) := uheapTupleGetModifiedXid env page tuple
    some ⟨some tuple, tuple.tdId, tupXid, uheapTupleHasInvalidXact tuple.flag⟩
  else if rowPtrIsDeleted rp then
    some ⟨none, rowPtrGetTDSlot rp, invalidTransactionId,
      rowPtrGetVisibilityInfo rp &&& rowptrXactInvalid ≠ 0⟩
  else
    none

def useTuple (utuple : Option DiskTuple) : Except Stop DiskTuple :=
  match utuple with
  | some tuple => .ok tuple
  | none => .error .nullTuple

def isExclusivelyLocked (env : Env) (snapshot : Snapshot) (utuple : Option DiskTuple) : Bool :=
  match utuple with
  | some tuple =>
    transactionIdIsNormal env.fxid && isMVCCSnapshot snapshot && singleLockerXidIsExclLocked tuple.flag
  | none => false

def lockerXid (page : Page) (utuple : Option DiskTuple) : Nat :=
  (utuple.map (rawXid page)).getD invalidTransactionId

def oldestXid (env : Env) (snapshot : Snapshot) : Nat :=
  if env.recoveryInProgress then env.hotStandbyRecycleXid
  else if isVersionMVCCSnapshot snapshot then env.globalRecycleXid
  else env.globalFrozenXid

-- The transaction of a row in a slot that is in use, and whether it comes from the undo records.
def resolveSlot (env : Env) (page : Page) (snapshot : Snapshot) (offnum : Nat) (row : Row)
    (tdinfo : TransInfo)
    : Except Stop (TransInfo × Bool) := do
  if transactionIdIsValid tdinfo.xid && tdinfo.xid < oldestXid env snapshot then
    return ({ tdinfo with tdSlot := frozenSlot }, false)
  else if isExclusivelyLocked env snapshot row.utuple && env.fxid = lockerXid page row.utuple then
    return ({ tdinfo with tdSlot := frozenSlot }, false)
  else if row.isInvalidSlot then
    if isMVCCSnapshot snapshot && transactionIdIsValid tdinfo.xid && env.visibleOrOld tdinfo.xid then
      return ({ tdinfo with tdSlot := frozenSlot }, false)
    else if transactionIdIsValid row.tupXid && env.didCommit row.tupXid then
      if row.tupXid < oldestXid env snapshot then
        return ({ tdinfo with xid := row.tupXid, tdSlot := frozenSlot }, false)
      else
        return ({ tdinfo with xid := row.tupXid }, false)
    else
      -- the offset number is read from the `ctid` of the tuple
      let _ ← useTuple row.utuple
      let fetched := env.fetchTransInfoFromUndo offnum tdinfo !isVersionMVCCSnapshot snapshot
      match fetched.state with
      | .complete =>
        if transactionIdOlderThanAllUndo env fetched.tdinfo.xid then
          return ({ fetched.tdinfo with tdSlot := frozenSlot }, true)
        else
          return (fetched.tdinfo, true)
      | .stop | .end | .endChain => return ({ fetched.tdinfo with tdSlot := frozenSlot }, false)
      | .abort =>
        if isMVCCSnapshot snapshot && transactionIdIsValid fetched.lastXid &&
          env.visibleOrOld fetched.lastXid then
          return ({ fetched.tdinfo with tdSlot := frozenSlot }, false)
        else
          throw .snapshotTooOld
      | .default => return (fetched.tdinfo, false)
  else
    return (tdinfo, false)

def checkCid (env : Env) (snapshot : Snapshot) (offnum : Nat) (row : Row) (op : TidOp) (tdinfo : TransInfo)
    (haveTransInfo : Bool) : Except Stop (VersionSelector × TransInfo) := do
  let tdinfo ←
    if haveTransInfo then
      pure tdinfo
    else do
      -- here too
      let _ ← useTuple row.utuple
      pure (env.fetchTransInfoFromUndo offnum tdinfo false).tdinfo
  match tdinfo.cid with
  | some cid => return (uheapCheckCID op cid snapshot.curcid, tdinfo)
  | none =>
    -- the message prints the flag of the tuple
    let _ ← useTuple row.utuple
    throw .panic

-- The transaction that decides about a row, and whether it comes from the undo records.
def transInfoOfRow (env : Env) (page : Page) (snapshot : Snapshot) (offnum : Nat) (row : Row)
    : Except Stop (TransInfo × Bool) := do
  let tdinfo ← getTDSlotInfo page row.tdSlot
  if tdinfo.tdSlot ≠ frozenSlot then
    resolveSlot env page snapshot offnum row tdinfo
  else
    pure (tdinfo, false)

def tidOpOfRow (row : Row) : TidOp :=
  match row.utuple with
  | some tuple => uheapTidOpFromInfomask tuple.flag
  | none => .gone

def selectVersion (env : Env) (snapshot : Snapshot) (offnum : Nat) (row : Row) (tdinfo : TransInfo)
    (haveTransInfo : Bool) : Except Stop (VersionSelector × TransInfo) := do
  let op := tidOpOfRow row
  let uheapselect ← uheapTupleSatisfies env op snapshot tdinfo
  if uheapselect = .checkCid then
    checkCid env snapshot offnum row op tdinfo haveTransInfo
  else
    pure (uheapselect, tdinfo)

-- The result and `tdXmin`, which is not set by an early return.
def uheapTupleSatisfiesVisibility (env : Env) (page : Page) (snapshot : Snapshot) (offnum : Nat)
    : Except Stop (Bool × Option Nat) :=
  if snapshot.satisfies = .any ∨ snapshot.satisfies = .toast then
    .ok (true, none)
  else if page.maxOffsetNumber < offnum then
    .error .panic
  else
    match examineRow env page offnum with
    | none => .ok (false, none)
    | some row => do
      let (tdinfo, haveTransInfo) ← transInfoOfRow env page snapshot offnum row
      let (uheapselect, tdinfo) ← selectVersion env snapshot offnum row tdinfo haveTransInfo
      pure (uheapselect ≠ .older && uheapselect ≠ .none, some tdinfo.xid)

end Satisfies

end Visibility

end Ustore

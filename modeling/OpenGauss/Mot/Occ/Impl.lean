import OpenGauss.Lib.VersionChain
import Mathlib.Algebra.Group.Nat.Defs
import Mathlib.Algebra.Group.Int.Defs

/-!
This module contains the rows, sentinels and accesses of the MOT engine with the checks and the writes
that the optimistic commit makes on one access: `OccTransactionManager`, `Access` and `TxnAccess`.
-/

namespace Mot.Occ

inductive RowType where
  | row
  | tombstone
  deriving DecidableEq

structure Row (S D : Type) where
  csn : Nat
  rowType : RowType
  primarySentinel : S
  data : D
  deriving DecidableEq

-- A row pointer is the chain of versions that `m_next` leads to from it, nothing for null.
-- A row that a sentinel points to is not written again, so the chain stands for the pointer.
abbrev RowPtr (S D : Type) := List (Row S D)

namespace RowPtr

variable {S D : Type}

def commitSequenceNumber (row : RowPtr S D) : Option Nat :=
  row.head?.map Row.csn

def isRowDeleted (row : RowPtr S D) : Bool :=
  row.head?.any (·.rowType = .tombstone)

def setCommitSequenceNumber (csn : Nat) : RowPtr S D → RowPtr S D
  | [] => []
  | row :: next => { row with csn } :: next

def setNextVersion (row next : RowPtr S D) : RowPtr S D :=
  match row with
  | [] => []
  | row :: _ => row :: next

def setValue (data : D) : RowPtr S D → RowPtr S D
  | [] => []
  | row :: next => { row with data } :: next

end RowPtr

def sentinelInitCsn : Nat := 2 ^ 64 - 1

def sentinelInvisibleCsn : Nat := 0x1FFFFFFFFFFFFFFF

def lockTimeOut : Nat := 1 <<< 16

inductive IndexOrder where
  | primary
  | secondary
  | secondaryUnique
  deriving DecidableEq

structure PrimarySentinelNode (S : Type) where
  address : Nat
  startCsn : Nat
  endCsn : Nat
  primarySentinel : S
  deriving DecidableEq

-- The three kinds of sentinels in one record. What the status word points to is `data` in a primary
-- sentinel, `primarySentinel` in a secondary one and the first of `nodes` in a unique secondary one.
structure Sentinel (S T D : Type) where
  indexOrder : IndexOrder
  lock : Option T
  dirty : Bool
  startCsn : Nat
  endCsn : Nat
  data : RowPtr S D
  primarySentinel : Option S
  nodes : List (PrimarySentinelNode S)

namespace Sentinel

variable {S T D : Type}

def contents (s : Sentinel S T D) : Sentinel S T D :=
  { s with lock := none }

def setEndCsnOfTop (endCsn : Nat) : List (PrimarySentinelNode S) → List (PrimarySentinelNode S)
  | [] => []
  | node :: next => { node with endCsn } :: next

def setEndCsn (s : Sentinel S T D) (endCsn : Nat) : Sentinel S T D :=
  match s.indexOrder with
  | .secondaryUnique => { s with nodes := setEndCsnOfTop endCsn s.nodes }
  | _ => { s with endCsn }

def getRowFromChain (csn : Nat) : RowPtr S D → RowPtr S D
  | [] => []
  | row :: next => if csn > row.csn then row :: next else getRowFromChain csn next

def getNodeByCsn.go (csn : Nat) : List (PrimarySentinelNode S) → Option (PrimarySentinelNode S)
  | [] => none
  | node :: next =>
    if csn > node.endCsn then
      none
    else if csn > node.startCsn then
      some node
    else
      go csn next

def getNodeByCsn (s : Sentinel S T D) (csn : Nat) : Option (PrimarySentinelNode S) :=
  if s.dirty ∨ csn ≤ s.startCsn then none else getNodeByCsn.go csn s.nodes

end Sentinel

inductive AccessType where
  | RD
  | RD_FOR_UPDATE
  | WR
  | DEL
  | INS
  deriving DecidableEq

structure AccessParams where
  isPrimarySentinel : Bool
  isUniqueIndex : Bool
  isUpgradeInsert : Bool := false
  isInsertOnDeletedRow : Bool := false
  deriving DecidableEq

namespace AccessParams

def ofIndexOrder : IndexOrder → AccessParams
  | .primary => { isPrimarySentinel := true, isUniqueIndex := true }
  | .secondary => { isPrimarySentinel := false, isUniqueIndex := false }
  | .secondaryUnique => { isPrimarySentinel := false, isUniqueIndex := true }

def isSecondaryUniqueSentinel (params : AccessParams) : Bool :=
  !params.isPrimarySentinel && params.isUniqueIndex

def unsetUpgradeInsert (params : AccessParams) : AccessParams :=
  { params with isUpgradeInsert := false, isInsertOnDeletedRow := false }

end AccessParams

structure Access (S D : Type) where
  origSentinel : S
  type : AccessType
  params : AccessParams
  globalRow : RowPtr S D := []
  localRow : RowPtr S D := []
  localInsertRow : RowPtr S D := []
  csn : Nat := 0
  snapshot : Nat := 0
  -- the address of `m_secondaryUniqueNode`
  secondaryUniqueNode : Option Nat := none
  -- the address of the node that the sentinel object pool keeps for the insert
  poolNode : Nat := 0
  deriving DecidableEq

variable {S T D : Type}

def quickVersionCheck (access : Access S D) (header : Sentinel S T D) : Bool :=
  if access.params.isPrimarySentinel then
    if access.snapshot ≤ header.startCsn then
      false
    else
      some access.csn = header.data.commitSequenceNumber
  else if access.params.isSecondaryUniqueSentinel then
    match header.nodes with
    | [] => false
    | node :: _ =>
      if node.endCsn ≠ sentinelInitCsn then
        false
      else
        access.secondaryUniqueNode = some node.address
  else
    header.endCsn = sentinelInitCsn

def quickInsertCheck (access : Access S D) (header : Sentinel S T D) : Bool :=
  if !access.params.isUpgradeInsert then
    header.dirty
  else if access.params.isPrimarySentinel then
    if access.params.isInsertOnDeletedRow && !header.data.isRowDeleted then
      false
    else
      some access.csn = header.data.commitSequenceNumber
  else if access.params.isSecondaryUniqueSentinel then
    match header.nodes with
    | [] => false
    | node :: _ =>
      if access.params.isInsertOnDeletedRow && node.endCsn = sentinelInitCsn then
        false
      else if !access.params.isInsertOnDeletedRow && node.endCsn ≠ sentinelInitCsn then
        false
      else
        access.secondaryUniqueNode = some node.address
  else if header.endCsn = sentinelInitCsn then
    false
  else
    header.startCsn = access.csn

def quickHeaderValidation (access : Access S D) (header : Sentinel S T D) : Bool :=
  if access.type ≠ .INS then quickVersionCheck access header else quickInsertCheck access header

-- What `PreAbortCheck` leaves: its result, the ordered set and the two counters.
structure PreAbort (S D : Type) where
  ok : Bool
  orderedSet : List (Access S D)
  writeSetSize : Nat
  insertSetSize : Nat

def insertCount (type : AccessType) : Nat :=
  if type = .INS then 1 else 0

def preAbortCheck (preAbort : Bool) (header : S → Sentinel S T D) : List (Access S D) → PreAbort S D
  | [] => ⟨true, [], 0, 0⟩
  | access :: rest =>
    if access.type = .RD ∨ access.type = .RD_FOR_UPDATE then
      preAbortCheck preAbort header rest
    else if preAbort && !quickHeaderValidation access (header access.origSentinel) then
      ⟨false, access :: rest, 1, insertCount access.type⟩
    else
      let check := preAbortCheck preAbort header rest
      ⟨check.ok, access :: check.orderedSet, check.writeSetSize + 1,
        check.insertSetSize + insertCount access.type⟩

theorem preAbortCheck_sublist (preAbort : Bool) (header : S → Sentinel S T D) (set : List (Access S D))
    : (preAbortCheck preAbort header set).orderedSet.Sublist set := by
  induction set with
  | nil => exact List.Sublist.refl _
  | cons access rest ih =>
    rw [preAbortCheck]
    split
    . exact ih.cons _
    . split
      . exact List.Sublist.refl _
      . exact ih.cons_cons _

def validateWriteSet (header : S → Sentinel S T D) (orderedSet : List (Access S D)) : Bool :=
  orderedSet.all (fun access => quickHeaderValidation access (header access.origSentinel))

def headerLocks (orderedSet : List (Access S D)) (numOfLocks : Nat) : List S :=
  ((orderedSet.filter (·.type ≠ .RD)).take numOfLocks).map Access.origSentinel

def Access.writeGlobalChanges (csn : Nat) (access : Access S D) (header : Sentinel S T D)
    : Access S D × Sentinel S T D :=
  match access.type with
  | .WR =>
    let newVersion := (access.localRow.setCommitSequenceNumber csn).setNextVersion access.globalRow
    ({ access with localRow := newVersion }, { header with data := newVersion })
  | .DEL =>
    if access.params.isPrimarySentinel then
      let newVersion := (access.localRow.setCommitSequenceNumber csn).setNextVersion access.globalRow
      ({ access with localRow := newVersion }, { header with data := newVersion })
    else
      (access, header.setEndCsn csn)
  | .INS =>
    if access.params.isPrimarySentinel then
      let inserted := access.localInsertRow.setCommitSequenceNumber csn
      if access.params.isUpgradeInsert then
        if access.params.isInsertOnDeletedRow then
          ({ access with localInsertRow := inserted.setNextVersion access.globalRow },
            { header with startCsn := csn })
        else
          -- new version, tombstone, old version
          let tombstone := (access.localRow.setCommitSequenceNumber csn).setNextVersion access.globalRow
          ({ access with localInsertRow := inserted.setNextVersion tombstone, localRow := tombstone },
            { header with startCsn := csn })
      else
        ({ access with localInsertRow := inserted }, header)
    else
      (access, header)
  | .RD | .RD_FOR_UPDATE => (access, header)

def Access.primaryOfInsert (access : Access S D) : Option S :=
  access.localInsertRow.head?.map Row.primarySentinel

def Access.insertNode (csn : Nat) (access : Access S D) : List (PrimarySentinelNode S) :=
  access.primaryOfInsert.toList.map (fun primary => ⟨access.poolNode, csn, sentinelInitCsn, primary⟩)

def writeSentinelChanges (csn : Nat) (access : Access S D) (header : Sentinel S T D) : Sentinel S T D :=
  if access.type ≠ .INS then
    header
  else if !access.params.isUpgradeInsert then
    if access.params.isPrimarySentinel then
      { header with startCsn := csn, data := access.localInsertRow, dirty := false }
    else if !access.params.isSecondaryUniqueSentinel then
      { header with
        startCsn := csn
        endCsn := sentinelInitCsn
        primarySentinel := access.primaryOfInsert
        dirty := false }
    else
      { header with startCsn := csn, nodes := access.insertNode csn, dirty := false }
  else if access.params.isInsertOnDeletedRow then
    if access.params.isPrimarySentinel then
      { header with data := access.localInsertRow }
    else if access.params.isUniqueIndex then
      { header with nodes := access.insertNode csn ++ header.nodes }
    else
      { header with endCsn := sentinelInitCsn }
  else if access.params.isPrimarySentinel then
    { header with data := access.localInsertRow }
  else
    { header with nodes := access.insertNode csn ++ Sentinel.setEndCsnOfTop csn header.nodes }

/-!
What comes before the commit: the steps of `TxnAccess` that fill the ordered set of a transaction.
-/

structure TxnOrderedSet (S D : Type) [LinearOrder S] where
  accesses : List (Access S D)
  sorted : accesses.Pairwise (fun a b => a.origSentinel < b.origSentinel)

namespace TxnOrderedSet

variable [LinearOrder S]

def empty : TxnOrderedSet S D :=
  ⟨[], List.Pairwise.nil⟩

def find? (set : TxnOrderedSet S D) (s : S) : Option (Access S D) :=
  set.accesses.find? (·.origSentinel = s)

def insert (set : TxnOrderedSet S D) (access : Access S D) : TxnOrderedSet S D where
  accesses := set.accesses.filter (·.origSentinel < access.origSentinel) ++
    access :: set.accesses.filter (access.origSentinel < ·.origSentinel)
  sorted := by
    apply List.pairwise_append.2
    refine ⟨set.sorted.filter _, List.pairwise_cons.2 ⟨?_, set.sorted.filter _⟩, ?_⟩
    . intro b hb
      simpa using (List.mem_filter.1 hb).2
    . intro a ha b hb
      have ha : a.origSentinel < access.origSentinel := by simpa using (List.mem_filter.1 ha).2
      rcases List.mem_cons.1 hb with rfl | hb
      . exact ha
      . have hb : access.origSentinel < b.origSentinel := by simpa using (List.mem_filter.1 hb).2
        exact lt_trans ha hb

def erase (set : TxnOrderedSet S D) (s : S) : TxnOrderedSet S D :=
  ⟨set.accesses.filter (·.origSentinel ≠ s), set.sorted.filter _⟩

end TxnOrderedSet

-- `CreateMVCCDraft` with `CreateNewRowCopy`.
def Access.createMvccDraft (access : Access S D) : Access S D :=
  { access with
    localRow := access.globalRow.head?.toList.map (fun row =>
      { csn := sentinelInvisibleCsn
        rowType := if access.type = .DEL then .tombstone else row.rowType
        primarySentinel := access.origSentinel
        data := row.data }) }

inductive NsAction where
  | noChange
  | generateDraft
  | filterDeletes
  | nsError
  deriving DecidableEq

def txnStateMachine : AccessType → AccessType → AccessType × NsAction
  | .RD, .RD => (.RD, .noChange)
  | .RD, .RD_FOR_UPDATE => (.RD_FOR_UPDATE, .noChange)
  | .RD, .WR => (.WR, .generateDraft)
  | .RD, .DEL => (.DEL, .generateDraft)
  | .RD, .INS => (.RD, .nsError)
  | .RD_FOR_UPDATE, .RD => (.RD_FOR_UPDATE, .noChange)
  | .RD_FOR_UPDATE, .RD_FOR_UPDATE => (.RD_FOR_UPDATE, .generateDraft)
  | .RD_FOR_UPDATE, .WR => (.WR, .generateDraft)
  | .RD_FOR_UPDATE, .DEL => (.DEL, .generateDraft)
  | .RD_FOR_UPDATE, .INS => (.RD_FOR_UPDATE, .nsError)
  | .WR, .RD => (.WR, .noChange)
  | .WR, .RD_FOR_UPDATE => (.WR, .noChange)
  | .WR, .WR => (.WR, .noChange)
  | .WR, .DEL => (.DEL, .generateDraft)
  | .WR, .INS => (.WR, .nsError)
  | .DEL, .RD => (.DEL, .noChange)
  | .DEL, .RD_FOR_UPDATE => (.DEL, .noChange)
  | .DEL, .WR => (.DEL, .nsError)
  | .DEL, .DEL => (.DEL, .nsError)
  | .DEL, .INS => (.INS, .noChange)
  | .INS, .RD => (.INS, .noChange)
  | .INS, .RD_FOR_UPDATE => (.INS, .noChange)
  | .INS, .WR => (.INS, .noChange)
  | .INS, .DEL => (.DEL, .filterDeletes)
  | .INS, .INS => (.INS, .nsError)

-- The part of `UpdateRowState` that is about the access itself. A delete of a row that the transaction
-- inserted is `filterInsert`, the accesses for the secondary indexes are `AccessStep.secondary`.
def Access.updateRowState (type : AccessType) (access : Access S D) : Option (Access S D) :=
  let result := txnStateMachine access.type type
  match result.2 with
  | .nsError => none
  | .noChange => some { access with type := result.1 }
  | .filterDeletes => none
  | .generateDraft =>
    if result.1 = .WR ∨ result.1 = .DEL then
      some { access with type := result.1 }.createMvccDraft
    else
      some { access with type := result.1 }

-- The insert that `FilterOrderedSet` and `SecIdxUpdGenerateDeleteKeys` turn back into a delete.
def Access.revertInsert (access : Access S D) : Access S D :=
  { access with type := .DEL, params := access.params.unsetUpgradeInsert, localInsertRow := [] }

def Access.setValue (access : Access S D) (data : D) : Access S D :=
  if access.type ≠ .INS then
    { access with localRow := access.localRow.setValue data }
  else
    { access with localInsertRow := access.localInsertRow.setValue data }

-- `MapRowtoLocalTable` with the row that was visible.
def newRowAccess (s : S) (type : AccessType) (row : RowPtr S D) (csn snapshot : Nat) : Access S D where
  origSentinel := s
  type := if type ≠ .RD_FOR_UPDATE then .RD else .RD_FOR_UPDATE
  params := AccessParams.ofIndexOrder .primary
  globalRow := row
  csn := csn
  snapshot := snapshot

-- `GetNewSecondaryAccess` as the deletes of keys use it.
def newSecondaryAccess (s : S) (header : Sentinel S T D) (primaryAccess : Access S D)
    (node : Option (PrimarySentinelNode S)) : Access S D where
  origSentinel := s
  type := .DEL
  params := AccessParams.ofIndexOrder header.indexOrder
  globalRow := primaryAccess.globalRow
  localRow := primaryAccess.localRow
  csn := (node.map PrimarySentinelNode.startCsn).getD 0
  secondaryUniqueNode := node.map PrimarySentinelNode.address

-- `GetNewInsertAccess` and the first half of `AddInsertToLocalAccess`.
def newInsertAccess (s : S) (row : Row S D) (poolNode visibleCsn : Nat) (header : Sentinel S T D)
    : Option (Access S D) :=
  let access : Access S D :=
    { origSentinel := s
      type := .INS
      params := AccessParams.ofIndexOrder header.indexOrder
      localInsertRow := [row]
      poolNode := poolNode }
  let upgrade (globalRow : RowPtr S D) (csn : Nat) (node : Option Nat) : Access S D :=
    { access with
      params.isUpgradeInsert := true
      params.isInsertOnDeletedRow := true
      globalRow := globalRow
      csn := csn
      snapshot := visibleCsn
      secondaryUniqueNode := node }
  if header.dirty then
    some access
  else
    match header.indexOrder with
    | .primary =>
      match header.data with
      | [] => none
      | oldVersion :: next =>
        if oldVersion.rowType ≠ .tombstone then
          none
        else
          some (upgrade (oldVersion :: next) oldVersion.csn none)
    | .secondaryUnique =>
      match header.nodes with
      | [] => none
      | node :: _ =>
        if node.endCsn > visibleCsn then none else some (upgrade [] node.startCsn (some node.address))
    | .secondary =>
      if header.endCsn ≥ visibleCsn then none else some (upgrade [] header.startCsn none)

-- The second half of `AddInsertToLocalAccess`: the transaction deleted the key itself.
def Access.promoteDelete (access : Access S D) (row : Row S D) (poolNode : Nat) (header : Sentinel S T D)
    : Option (Access S D) :=
  let promoted : Access S D :=
    { access with
      type := .INS
      params.isUpgradeInsert := true
      localInsertRow := [row]
      poolNode := poolNode }
  if header.dirty then
    none
  else
    match header.indexOrder with
    | .primary => some promoted
    | .secondaryUnique =>
      match header.nodes with
      | [] => none
      | topNode :: _ =>
        if access.secondaryUniqueNode ≠ some topNode.address ∨ topNode.endCsn ≠ sentinelInitCsn then
          none
        else
          some promoted
    -- the caller asserts that the index is unique
    | .secondary => none

end Mot.Occ

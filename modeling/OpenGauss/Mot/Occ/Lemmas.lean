import OpenGauss.Mot.Occ.Impl

/-!
This module contains the runs of any number of MOT transactions.
-/

open List VersionChain

namespace Mot.Occ

inductive RC where
  | RC_OK
  | RC_ABORT
  | RC_MEMORY_ALLOCATION_ERROR
  deriving DecidableEq

-- Where a transaction is. `rest` is what a loop over the ordered set has left, `csn` its commit number.
inductive Phase (S D : Type) where
  | running
  | locking (numSentinelsLock : Nat) (rest : List (Access S D)) (sleepTime : Nat)
  | validating (numSentinelLock : Nat)
  | reserving (numSentinelLock : Nat)
  | validated
  | writingGlobal (csn : Nat) (rest : List (Access S D))
  | writingSentinels (csn : Nat) (rest : List (Access S D))
  | releasing (pending : List S) (rc : RC)
  | finished (rc : RC)

structure Txn (S D : Type) [LinearOrder S] where
  orderedSet : TxnOrderedSet S D
  writeSetSize : Nat
  insertSetSize : Nat
  phase : Phase S D

inductive ChangeKind where
  | insert
  | update
  | delete
  deriving DecidableEq

-- A committed change of a key, with the row version that the transaction had read under the key.
structure Change (S T D : Type) where
  txn : T
  sentinel : S
  csn : Nat
  kind : ChangeKind
  seen : RowPtr S D
  version : Option (Row S D)

-- No step reads the history, it has the changes in the order in which they were made, newest first.
structure OccState (S T D : Type) [LinearOrder S] where
  csn : Nat
  header : S → Sentinel S T D
  txns : T → Txn S D
  history : List (Change S T D)

structure OccFlags where
  preAbort : Bool
  validationNoWait : Bool

section Steps

variable {S T D : Type} [LinearOrder S]

section Changes

variable (t : T) (csn : Nat) (access : Access S D)

def Access.change (kind : ChangeKind) (version : RowPtr S D) : Change S T D where
  txn := t
  sentinel := access.origSentinel
  csn := csn
  kind := kind
  seen := access.globalRow
  version := if access.params.isPrimarySentinel then version.head? else none

-- What `WriteGlobalChanges` and `WriteSentinelChanges` commit, for an access as they leave it.
def Access.globalChanges : List (Change S T D) :=
  match access.type with
  | .WR => [access.change t csn .update access.localRow]
  | .DEL => [access.change t csn .delete access.localRow]
  | .INS | .RD | .RD_FOR_UPDATE => []

def Access.insertChanges : List (Change S T D) :=
  if access.type ≠ .INS then
    []
  else if access.params.isUpgradeInsert && !access.params.isInsertOnDeletedRow then
    [access.change t csn .insert access.localInsertRow, access.change t csn .delete access.localRow]
  else
    [access.change t csn .insert access.localInsertRow]

end Changes

inductive AccessStep (header : S → Sentinel S T D) (set : TxnOrderedSet S D) : TxnOrderedSet S D → Prop
  | mapRow (s : S) (type : AccessType) (row : Row S D) (older : RowPtr S D) (snapshot : Nat)
    (habsent : set.find? s = none) (hprimary : (header s).indexOrder = .primary)
    (hcommitted : (header s).dirty = false)
    (hvisible : row :: older = Sentinel.getRowFromChain snapshot (header s).data ∨
      type ≠ .RD ∧ row.rowType ≠ .tombstone ∧ row :: older = (header s).data)
    : AccessStep header set (set.insert (newRowAccess s type (row :: older) row.csn snapshot))
  | updateRowState (access access' : Access S D) (type : AccessType) (hmem : access ∈ set.accesses)
    (htype : type ≠ .INS) (hstate : access.updateRowState type = some access')
    : AccessStep header set (set.insert access')
  | setValue (access : Access S D) (data : D) (hmem : access ∈ set.accesses)
    : AccessStep header set (set.insert (access.setValue data))
  | secondary (s : S) (access : Access S D) (habsent : set.find? s = none)
    (hmem : access ∈ set.accesses) (hsecondary : (header s).indexOrder = .secondary)
    : AccessStep header set (set.insert (newSecondaryAccess s (header s) access none))
  | secondaryUnique (s : S) (access : Access S D) (csn : Nat) (node : PrimarySentinelNode S)
    (habsent : set.find? s = none) (hmem : access ∈ set.accesses)
    (hunique : (header s).indexOrder = .secondaryUnique)
    (hnode : (header s).getNodeByCsn csn = some node) (hlive : node.endCsn = sentinelInitCsn)
    : AccessStep header set (set.insert (newSecondaryAccess s (header s) access (some node)))
  | insert (s : S) (row : Row S D) (poolNode visibleCsn : Nat) (access : Access S D)
    (habsent : set.find? s = none) (hrow : row.rowType = .row)
    (haccess : newInsertAccess s row poolNode visibleCsn (header s) = some access)
    : AccessStep header set (set.insert access)
  | promoteDelete (access access' : Access S D) (row : Row S D) (poolNode : Nat)
    (hmem : access ∈ set.accesses) (hdelete : access.type = .DEL) (hrow : row.rowType = .row)
    (haccess : access.promoteDelete row poolNode (header access.origSentinel) = some access')
    : AccessStep header set (set.insert access')
  | revertInsert (access : Access S D) (hmem : access ∈ set.accesses) (hinsert : access.type = .INS)
    (hupgrade : access.params.isUpgradeInsert = true)
    (hdeleted : access.params.isInsertOnDeletedRow = false)
    : AccessStep header set (set.insert access.revertInsert)
  | release (s : S)
    : AccessStep header set (set.erase s)

namespace OccState

variable [DecidableEq T]

def setPhase (σ : OccState S T D) (t : T) (phase : Phase S D) : OccState S T D :=
  { σ with txns := Function.update σ.txns t { σ.txns t with phase } }

def setLock (σ : OccState S T D) (s : S) (lock : Option T) : OccState S T D :=
  { σ with header := Function.update σ.header s { σ.header s with lock } }

def setSet (σ : OccState S T D) (t : T) (orderedSet : TxnOrderedSet S D) : OccState S T D :=
  { σ with txns := Function.update σ.txns t { σ.txns t with orderedSet } }

def releaseHeaderLocks (σ : OccState S T D) : List S → OccState S T D
  | [] => σ
  | s :: rest => (σ.setLock s none).releaseHeaderLocks rest

def accesses (σ : OccState S T D) (t : T) : List (Access S D) :=
  (σ.txns t).orderedSet.accesses

def validateOcc (σ : OccState S T D) (flags : OccFlags) (t : T) : OccState S T D :=
  let txn := σ.txns t
  if txn.orderedSet.accesses = [] then
    let txn := { txn with writeSetSize := 0, insertSetSize := 0, phase := .validated }
    { σ with txns := Function.update σ.txns t txn }
  else
    let check := preAbortCheck flags.preAbort σ.header txn.orderedSet.accesses
    let txn : Txn S D :=
      { orderedSet := ⟨check.orderedSet, txn.orderedSet.sorted.sublist (preAbortCheck_sublist _ _ _)⟩
        writeSetSize := check.writeSetSize
        insertSetSize := check.insertSetSize
        phase := if check.ok then .locking 0 check.orderedSet 1 else .releasing [] .RC_ABORT }
    { σ with txns := Function.update σ.txns t txn }

def lockHeader (σ : OccState S T D) (t : T) (numSentinelsLock : Nat) (access : Access S D)
    (rest : List (Access S D)) (sleepTime : Nat) : OccState S T D :=
  let σ' := σ.setLock access.origSentinel (some t)
  if quickHeaderValidation access (σ'.header access.origSentinel) then
    σ'.setPhase t (.locking (numSentinelsLock + 1) rest sleepTime)
  else
    σ'.setPhase t (.releasing (headerLocks (σ.accesses t) (numSentinelsLock + 1)) .RC_ABORT)

def endOfTurn (σ : OccState S T D) (flags : OccFlags) (t : T) (numSentinelsLock sleepTime : Nat)
    : OccState S T D :=
  if flags.validationNoWait && numSentinelsLock ≠ (σ.txns t).writeSetSize then
    let σ' := σ.releaseHeaderLocks (headerLocks (σ.accesses t) numSentinelsLock)
    if flags.preAbort && !validateWriteSet σ'.header (σ.accesses t) then
      σ'.setPhase t (.releasing [] .RC_ABORT)
    else if sleepTime > lockTimeOut then
      σ'.setPhase t (.releasing [] .RC_ABORT)
    else
      σ'.setPhase t (.locking 0 (σ.accesses t) (sleepTime <<< 1))
  else
    σ.setPhase t (.validating numSentinelsLock)

def validate (σ : OccState S T D) (t : T) (numSentinelLock : Nat) : OccState S T D :=
  if validateWriteSet σ.header (σ.accesses t) then
    σ.setPhase t (.reserving numSentinelLock)
  else
    σ.setPhase t (.releasing (headerLocks (σ.accesses t) numSentinelLock) .RC_ABORT)

-- `PreAllocStableRow` and `ReserveGcMemory`, which may find no memory.
def reserve (σ : OccState S T D) (t : T) (numSentinelLock : Nat) (reserved : Bool) : OccState S T D :=
  if reserved then
    σ.setPhase t .validated
  else
    σ.setPhase t (.releasing (headerLocks (σ.accesses t) numSentinelLock) .RC_MEMORY_ALLOCATION_ERROR)

def getNextCsn (σ : OccState S T D) (t : T) : OccState S T D :=
  { σ with csn := σ.csn + 1 }.setPhase t (.writingGlobal σ.csn (σ.accesses t))

def writeGlobal (σ : OccState S T D) (t : T) (csn : Nat) (access : Access S D) (rest : List (Access S D))
    : OccState S T D :=
  let written := access.writeGlobalChanges csn (σ.header access.origSentinel)
  { csn := σ.csn
    header := Function.update σ.header access.origSentinel written.2
    txns := Function.update σ.txns t
      { σ.txns t with
        orderedSet := (σ.txns t).orderedSet.insert written.1
        phase := .writingGlobal csn rest }
    history := written.1.globalChanges t csn ++ σ.history }

def startSentinels (σ : OccState S T D) (t : T) (csn : Nat) : OccState S T D :=
  σ.setPhase t (.writingSentinels csn (if (σ.txns t).insertSetSize > 0 then σ.accesses t else []))

def writeSentinel (σ : OccState S T D) (t : T) (csn : Nat) (access : Access S D) (rest : List (Access S D))
    : OccState S T D :=
  { σ.setPhase t (.writingSentinels csn rest) with
    header := Function.update σ.header access.origSentinel
      (writeSentinelChanges csn access (σ.header access.origSentinel))
    history := access.insertChanges t csn ++ σ.history }

-- `ReleaseLocks`, after the changes are written or when a prepared transaction is rolled back.
def releaseLocks (σ : OccState S T D) (t : T) (rc : RC) : OccState S T D :=
  σ.setPhase t (.releasing (headerLocks (σ.accesses t) (σ.txns t).writeSetSize) rc)

def unlock (σ : OccState S T D) (t : T) (s : S) (rest : List S) (rc : RC) : OccState S T D :=
  (σ.setLock s none).setPhase t (.releasing rest rc)

end OccState

open OccState in
inductive Step [DecidableEq T] (flags : OccFlags) (σ : OccState S T D) (t : T) : OccState S T D → Prop
  | access (set : TxnOrderedSet S D) (hphase : (σ.txns t).phase = .running)
    (hstep : AccessStep σ.header (σ.txns t).orderedSet set)
    : Step flags σ t (σ.setSet t set)
  | validateOcc (hphase : (σ.txns t).phase = .running)
    : Step flags σ t (σ.validateOcc flags t)
  | tryLock (n : Nat) (access : Access S D) (rest : List (Access S D)) (sleepTime : Nat)
    (hphase : (σ.txns t).phase = .locking n (access :: rest) sleepTime)
    (hfree : (σ.header access.origSentinel).lock = none)
    : Step flags σ t (σ.lockHeader t n access rest sleepTime)
  | tryLockFailed (n : Nat) (access : Access S D) (rest : List (Access S D)) (sleepTime : Nat)
    (hphase : (σ.txns t).phase = .locking n (access :: rest) sleepTime)
    (hmode : flags.validationNoWait = true)
    : Step flags σ t (σ.endOfTurn flags t n sleepTime)
  | allLocked (n : Nat) (sleepTime : Nat) (hphase : (σ.txns t).phase = .locking n [] sleepTime)
    : Step flags σ t (σ.endOfTurn flags t n sleepTime)
  | validateWriteSet (n : Nat) (hphase : (σ.txns t).phase = .validating n)
    : Step flags σ t (σ.validate t n)
  | reserve (n : Nat) (reserved : Bool) (hphase : (σ.txns t).phase = .reserving n)
    : Step flags σ t (σ.reserve t n reserved)
  -- the counter goes up, in 64 bits
  | getNextCsn (hphase : (σ.txns t).phase = .validated) (hcsn : σ.csn + 1 < 2 ^ 64)
    : Step flags σ t (σ.getNextCsn t)
  | rollbackPrepared (hphase : (σ.txns t).phase = .validated)
    : Step flags σ t (σ.releaseLocks t .RC_ABORT)
  | writeGlobalChanges (csn : Nat) (access : Access S D) (rest : List (Access S D))
    (hphase : (σ.txns t).phase = .writingGlobal csn (access :: rest))
    : Step flags σ t (σ.writeGlobal t csn access rest)
  | startSentinelChanges (csn : Nat) (hphase : (σ.txns t).phase = .writingGlobal csn [])
    : Step flags σ t (σ.startSentinels t csn)
  | writeSentinelChanges (csn : Nat) (access : Access S D) (rest : List (Access S D))
    (hphase : (σ.txns t).phase = .writingSentinels csn (access :: rest))
    : Step flags σ t (σ.writeSentinel t csn access rest)
  | releaseLocks (csn : Nat) (hphase : (σ.txns t).phase = .writingSentinels csn [])
    : Step flags σ t (σ.releaseLocks t .RC_OK)
  | unlock (s : S) (rest : List S) (rc : RC) (hphase : (σ.txns t).phase = .releasing (s :: rest) rc)
    : Step flags σ t (σ.unlock t s rest rc)
  | finish (rc : RC) (hphase : (σ.txns t).phase = .releasing [] rc)
    : Step flags σ t (σ.setPhase t (.finished rc))

inductive Run [DecidableEq T] (flags : OccFlags) : OccState S T D → OccState S T D → Prop
  | refl (σ : OccState S T D) : Run flags σ σ
  | step {σ₀ σ σ' : OccState S T D} (t : T) (hrun : Run flags σ₀ σ) (hstep : Step flags σ t σ')
    : Run flags σ₀ σ'

def tiedVersions (newer older : Row S D) : Prop :=
  newer.rowType ≠ .tombstone ∧ older.rowType = .tombstone

structure OccState.Committed (σ : OccState S T D) : Prop where
  csn : ∀ s, ∀ row ∈ (σ.header s).data, row.csn < σ.csn
  descending : ∀ s, VersionChain.Descending Row.csn tiedVersions (σ.header s).data
  empty : ∀ s, (σ.header s).indexOrder = .primary → (σ.header s).dirty = true → (σ.header s).data = []
  free : ∀ s, (σ.header s).lock = none
  running : ∀ t, (σ.txns t).phase = .running
  noAccess : ∀ t, (σ.txns t).orderedSet = TxnOrderedSet.empty
  history : σ.history = []

end Steps

variable {S T D : Type} {row : Row S D} {poolNode : Nat} {access : Access S D}
variable {header : Sentinel S T D} {access' : Access S D} {type : AccessType} {s : S}
variable {header' : Sentinel S T D}

section OrderedSet

variable [LinearOrder S] {set : TxnOrderedSet S D} {access access' x : Access S D}

namespace TxnOrderedSet

theorem mem_insert (h : x ∈ (set.insert access).accesses) : x = access ∨ x ∈ set.accesses := by
  rw [insert, mem_append, mem_cons] at h
  rcases h with h | rfl | h
  . exact .inr (mem_filter.1 h).1
  . exact .inl rfl
  . exact .inr (mem_filter.1 h).1

theorem insert_split {before after : List (Access S D)} (h : set.accesses = before ++ access :: after)
    (horig : access'.origSentinel = access.origSentinel)
    : (set.insert access').accesses = before ++ access' :: after := by
  have hsorted := set.sorted
  rw [h, pairwise_append, pairwise_cons] at hsorted
  obtain ⟨_, ⟨hafter, _⟩, hbefore⟩ := hsorted
  have hlt : ∀ a ∈ before, a.origSentinel < access.origSentinel :=
    fun a ha => hbefore a ha access mem_cons_self
  dsimp only [insert]
  rw [h, horig]
  simp only [filter_append, filter_cons, lt_self_iff_false, decide_false, Bool.false_eq_true,
    if_false]
  congr 1
  . rw [filter_eq_self.2 (by simpa using hlt), filter_eq_nil_iff.2, append_nil]
    intro a ha
    simpa using (hafter a ha).le
  . congr 1
    rw [filter_eq_nil_iff.2, nil_append, filter_eq_self]
    . simpa using hafter
    . intro a ha
      simpa using (hlt a ha).le

theorem nodup_origSentinel (set : TxnOrderedSet S D) : (set.accesses.map Access.origSentinel).Nodup := by
  apply pairwise_map.2
  apply set.sorted.imp
  intro a b hab
  exact hab.ne

end TxnOrderedSet

end OrderedSet

namespace RowPtr

theorem exists_of_commitSequenceNumber {row : RowPtr S D} {csn : Nat}
    (h : row.commitSequenceNumber = some csn) : ∃ head, row.head? = some head ∧ head.csn = csn := by
  rw [commitSequenceNumber, Option.map_eq_some_iff] at h
  exact h

end RowPtr

theorem Sentinel.getRowFromChain_eq_visible (csn : Nat) (row : RowPtr S D)
    : getRowFromChain csn row = visible Row.csn csn row := by
  induction row with
  | nil => rfl
  | cons row next ih =>
    rw [getRowFromChain, visible, ih]

-- What a commit may do to a sentinel: new versions, later than all that are there, go on top.
structure Sentinel.Grows (header header' : Sentinel S T D) : Prop where
  indexOrder : header'.indexOrder = header.indexOrder
  committed : header.dirty = false → header'.dirty = false
  data : ∃ newer, header'.data = newer ++ header.data ∧ ∀ n ∈ newer, ∀ v ∈ header.data, v.csn < n.csn

theorem Sentinel.apply_of_contents {α : Type}
    (h : header'.contents = header.contents) (f : Sentinel S T D → α) (hf : ∀ x, f x.contents = f x)
    : f header' = f header := by
  rw [← hf header', h, hf header]

theorem Sentinel.Grows.of_contents (h : header'.contents = header.contents) : header.Grows header' where
  indexOrder := apply_of_contents h Sentinel.indexOrder (fun _ => rfl)
  committed := (apply_of_contents h Sentinel.dirty (fun _ => rfl)).trans
  data := ⟨[], apply_of_contents h Sentinel.data (fun _ => rfl), by simp⟩

-- The access was made by the steps of `TxnAccess` from states of its sentinel up to this one.
structure Access.WellFormed (header : Sentinel S T D) (access : Access S D) : Prop where
  primary : access.params.isPrimarySentinel = true ↔ header.indexOrder = .primary
  unique : access.params.isUniqueIndex = true ↔ header.indexOrder ≠ .secondary
  committed : access.params.isUpgradeInsert = true → header.dirty = false
  read : header.indexOrder = .primary → access.type ≠ .INS ∨ access.params.isUpgradeInsert = true →
    header.dirty = false ∧ VersionChain.SeenIn Row.csn header.data access.globalRow ∧
      access.globalRow.commitSequenceNumber = some access.csn
  notInsert : access.type ≠ .INS → access.params.isUpgradeInsert = false
  plain : access.params.isUpgradeInsert = false → access.params.isInsertOnDeletedRow = false
  onDeleted : header.indexOrder = .secondary → access.params.isUpgradeInsert = true →
    access.params.isInsertOnDeletedRow = true
  ofPrimary : access.type ≠ .INS → access.type ≠ .DEL → header.indexOrder = .primary
  update : access.type = .WR → ∃ row next, access.localRow = row :: next ∧
    access.globalRow.head?.map Row.rowType = some row.rowType
  tombstone : header.indexOrder = .primary → access.type = .DEL ∨ access.type = .INS ∧
      access.params.isUpgradeInsert = true ∧ access.params.isInsertOnDeletedRow = false →
    ∃ row next, access.localRow = row :: next ∧ row.rowType = .tombstone
  insert : access.type = .INS → ∃ row next, access.localInsertRow = row :: next ∧ row.rowType = .row ∧
    (access.params.isUpgradeInsert = false → next = [] ∧ access.globalRow = [])

namespace Access.WellFormed

variable {header header' : Sentinel S T D} {access : Access S D}

theorem grows (h : access.WellFormed header) (hgrows : header.Grows header')
    : access.WellFormed header' := { h with
  primary := by rw [hgrows.indexOrder]; exact h.primary
  unique := by rw [hgrows.indexOrder]; exact h.unique
  committed hupgrade := hgrows.committed (h.committed hupgrade)
  read hprimary hread := by
    rw [hgrows.indexOrder] at hprimary
    obtain ⟨hcommitted, hseen, hcsn⟩ := h.read hprimary hread
    obtain ⟨newer, hdata, hnewer⟩ := hgrows.data
    refine ⟨hgrows.committed hcommitted, ?_, hcsn⟩
    rw [hdata]
    exact hseen.push newer hnewer
  onDeleted := by rw [hgrows.indexOrder]; exact h.onDeleted
  ofPrimary := by rw [hgrows.indexOrder]; exact h.ofPrimary
  tombstone := by rw [hgrows.indexOrder]; exact h.tombstone }

theorem isPrimarySentinel_eq_false (h : access.WellFormed header) (horder : header.indexOrder ≠ .primary)
    : access.params.isPrimarySentinel = false := by
  rw [← Bool.not_eq_true, h.primary]
  exact horder

theorem newRowAccess {older : RowPtr S D} {snapshot : Nat}
    (hprimary : header.indexOrder = .primary) (hcommitted : header.dirty = false)
    (hvisible : row :: older = Sentinel.getRowFromChain snapshot header.data ∨
      type ≠ .RD ∧ row.rowType ≠ .tombstone ∧ row :: older = header.data)
    : (newRowAccess s type (row :: older) row.csn snapshot).WellFormed header := by
  have htype : (Occ.newRowAccess s type (row :: older) row.csn snapshot).type = .RD ∨
      (Occ.newRowAccess s type (row :: older) row.csn snapshot).type = .RD_FOR_UPDATE := by
    rw [Occ.newRowAccess]
    dsimp only
    split
    . exact .inl rfl
    . exact .inr rfl
  have hseen : SeenIn Row.csn header.data (row :: older) := by
    rcases hvisible with hvisible | ⟨_, _, hvisible⟩
    . rw [hvisible, Sentinel.getRowFromChain_eq_visible]
      exact seenIn_visible _ _
    . rw [hvisible]
      exact SeenIn.self _ _
  constructor
  case primary => simp [Occ.newRowAccess, AccessParams.ofIndexOrder, hprimary]
  case unique => simp [Occ.newRowAccess, AccessParams.ofIndexOrder, hprimary]
  case read => exact fun _ _ => ⟨hcommitted, hseen, rfl⟩
  case ofPrimary => exact fun _ _ => hprimary
  case onDeleted => simp [hprimary]
  case committed => simp [Occ.newRowAccess, AccessParams.ofIndexOrder]
  case notInsert => simp [Occ.newRowAccess, AccessParams.ofIndexOrder]
  case plain => simp [Occ.newRowAccess, AccessParams.ofIndexOrder]
  all_goals
    intros
    rcases htype with htype | htype <;> simp_all

section

variable (h : access.WellFormed header)
include h

theorem withType (hsame : type = access.type ∨ access.type = .RD ∧ type = .RD_FOR_UPDATE ∨
      access.type = .RD_FOR_UPDATE ∧ type = .RD)
    : { access with type }.WellFormed header := by
  rcases hsame with rfl | hsame
  . exact h
  . have hnotInsert : access.type ≠ .INS ∧ access.type ≠ .DEL := by
      rcases hsame with ⟨htype, _⟩ | ⟨htype, _⟩ <;> simp [htype]
    have hprimary := h.ofPrimary hnotInsert.1 hnotInsert.2
    have htype : type ≠ .WR ∧ type ≠ .DEL ∧ type ≠ .INS := by
      rcases hsame with ⟨_, htype⟩ | ⟨_, htype⟩ <;> simp [htype]
    refine { h with
      read := fun hp _ => h.read hp (.inl hnotInsert.1)
      notInsert := fun _ => h.notInsert hnotInsert.1
      ofPrimary := fun _ _ => hprimary
      update := ?_, tombstone := ?_, insert := ?_ }
    all_goals
      intros
      simp_all

theorem createMvccDraft (type : AccessType)
    (hprimary : header.indexOrder = .primary) (hinsert : access.type ≠ .INS)
    (htype : type = .WR ∨ type = .DEL)
    : ({ access with type } : Access S D).createMvccDraft.WellFormed header := by
  obtain ⟨hcommitted, hseen, hcsn⟩ := h.read hprimary (.inl hinsert)
  obtain ⟨head, hhead, _⟩ := RowPtr.exists_of_commitSequenceNumber hcsn
  have hne : type ≠ .INS := by rcases htype with rfl | rfl <;> simp
  have hdraft : ({ access with type } : Access S D).createMvccDraft.localRow
      =
    [{ csn := sentinelInvisibleCsn
       rowType := if type = .DEL then .tombstone else head.rowType
       primarySentinel := access.origSentinel
       data := head.data }] := by
    rw [Access.createMvccDraft, hhead]
    rfl
  exact { h with
    read := fun _ _ => ⟨hcommitted, hseen, hcsn⟩
    notInsert := fun _ => h.notInsert hinsert
    ofPrimary := fun _ _ => hprimary
    update := by
      intro hwrite
      replace hwrite : type = .WR := hwrite
      refine ⟨_, _, hdraft, ?_⟩
      change access.globalRow.head?.map Row.rowType = _
      rw [hhead, hwrite]
      rfl
    tombstone := by
      intro _ hdelete
      refine ⟨_, _, hdraft, ?_⟩
      replace hdelete : type = .DEL := by
        rcases hdelete with hdelete | ⟨hinsert, _⟩
        . exact hdelete
        . exact absurd hinsert hne
      rw [hdelete]
      rfl
    insert := fun hinsert => absurd hinsert hne }

theorem updateRowState (htype : type ≠ .INS) (hstate : access.updateRowState type = some access')
    : access'.WellFormed header ∧ access'.origSentinel = access.origSentinel := by
  rw [Access.updateRowState] at hstate
  cases hcurrent : access.type with
  | RD | RD_FOR_UPDATE | WR =>
    have hprimary := h.ofPrimary (by simp [hcurrent]) (by simp [hcurrent])
    have hdraft := fun type htype => h.createMvccDraft type hprimary (by simp [hcurrent]) htype
    cases type with
    | INS => exact absurd rfl htype
    | RD | RD_FOR_UPDATE | WR | DEL =>
      simp [hcurrent, txnStateMachine] at hstate
      subst hstate
      first
      | exact ⟨hdraft _ (by simp), rfl⟩
      | exact ⟨h.withType (by simp [hcurrent]), rfl⟩
  | DEL | INS =>
    cases type with
    | INS => exact absurd rfl htype
    | RD | RD_FOR_UPDATE | WR | DEL =>
      simp [hcurrent, txnStateMachine] at hstate
      try
        subst hstate
        exact ⟨h.withType (by simp [hcurrent]), rfl⟩

theorem setValue (data : D) : (access.setValue data).WellFormed header := by
  rw [Access.setValue]
  split
  . rename_i hinsert
    exact { h with
      update := by
        intro hupdate
        obtain ⟨row, next, hrow, htype⟩ := h.update hupdate
        exact ⟨{ row with data }, next, by simp [hrow, RowPtr.setValue], htype⟩
      tombstone := by
        intro hprimary hdelete
        obtain ⟨row, next, hrow, htype⟩ := h.tombstone hprimary hdelete
        exact ⟨{ row with data }, next, by simp [hrow, RowPtr.setValue], htype⟩ }
  . rename_i hinsert
    exact { h with
      insert := by
        intro hinsert
        obtain ⟨row, next, hrow, htype⟩ := h.insert hinsert
        exact ⟨{ row with data }, next, by simp [hrow, RowPtr.setValue], htype⟩ }

end

theorem newSecondaryAccess {primaryAccess : Access S D} {node : Option (PrimarySentinelNode S)}
    (hsecondary : header.indexOrder ≠ .primary)
    : (newSecondaryAccess s header primaryAccess node).WellFormed header := by
  constructor
  case primary =>
    cases horder : header.indexOrder <;>
      simp_all [Occ.newSecondaryAccess, AccessParams.ofIndexOrder]
  case unique =>
    cases horder : header.indexOrder <;>
      simp_all [Occ.newSecondaryAccess, AccessParams.ofIndexOrder]
  case committed =>
    cases horder : header.indexOrder <;> simp [Occ.newSecondaryAccess, AccessParams.ofIndexOrder, horder]
  case notInsert =>
    cases horder : header.indexOrder <;> simp [Occ.newSecondaryAccess, AccessParams.ofIndexOrder, horder]
  case plain =>
    cases horder : header.indexOrder <;> simp [Occ.newSecondaryAccess, AccessParams.ofIndexOrder, horder]
  case onDeleted =>
    cases horder : header.indexOrder <;> simp [Occ.newSecondaryAccess, AccessParams.ofIndexOrder, horder]
  case read => exact fun hprimary => absurd hprimary hsecondary
  case ofPrimary => exact fun _ hdelete => absurd rfl hdelete
  case update => simp [Occ.newSecondaryAccess]
  case tombstone => exact fun hprimary => absurd hprimary hsecondary
  case insert => simp [Occ.newSecondaryAccess]

section

variable (hrow : row.rowType = .row)
include hrow

theorem plainInsert
    : ({ origSentinel := s
         type := .INS
         params := AccessParams.ofIndexOrder header.indexOrder
         localInsertRow := [row]
         poolNode := poolNode } : Access S D).WellFormed header := by
  have hparams : ∀ order, (AccessParams.ofIndexOrder order).isUpgradeInsert = false ∧
      (AccessParams.ofIndexOrder order).isInsertOnDeletedRow = false := by
    intro order
    cases order <;> simp [AccessParams.ofIndexOrder]
  have hparams := hparams header.indexOrder
  constructor
  case primary => cases header.indexOrder <;> simp [AccessParams.ofIndexOrder]
  case unique => cases header.indexOrder <;> simp [AccessParams.ofIndexOrder]
  case insert => exact fun _ => ⟨row, [], rfl, hrow, fun _ => ⟨rfl, rfl⟩⟩
  all_goals simp [hparams]

theorem upgradeInsert {snapshot csn : Nat} {globalRow : RowPtr S D}
    {node : Option Nat} (hcommitted : header.dirty = false)
    (hglobal : header.indexOrder = .primary →
      globalRow = header.data ∧ globalRow.commitSequenceNumber = some csn)
    : ({ origSentinel := s
         type := .INS
         params := { AccessParams.ofIndexOrder header.indexOrder with
           isUpgradeInsert := true
           isInsertOnDeletedRow := true }
         localInsertRow := [row]
         poolNode := poolNode
         globalRow := globalRow
         csn := csn
         snapshot := snapshot
         secondaryUniqueNode := node } : Access S D).WellFormed header := by
  constructor
  case primary => cases header.indexOrder <;> simp [AccessParams.ofIndexOrder]
  case unique => cases header.indexOrder <;> simp [AccessParams.ofIndexOrder]
  case read =>
    intro hprimary _
    obtain ⟨hdata, hcsn⟩ := hglobal hprimary
    refine ⟨hcommitted, ?_, hcsn⟩
    dsimp only
    rw [hdata]
    exact SeenIn.self _ _
  case insert => exact fun _ => ⟨row, [], rfl, hrow, by simp⟩
  all_goals simp [hcommitted]

theorem newInsertAccess {visibleCsn : Nat}
    (haccess : newInsertAccess s row poolNode visibleCsn header = some access)
    : access.WellFormed header ∧ access.origSentinel = s := by
  rw [Occ.newInsertAccess] at haccess
  split at haccess
  . cases haccess
    exact ⟨plainInsert hrow, rfl⟩
  . rename_i hcommitted
    rw [Bool.not_eq_true] at hcommitted
    split at haccess
    . split at haccess
      . cases haccess
      . rename_i oldVersion next hdata
        split at haccess
        . cases haccess
        . cases haccess
          exact ⟨upgradeInsert hrow hcommitted (fun _ => ⟨hdata.symm, rfl⟩), rfl⟩
    . rename_i horder
      split at haccess
      . cases haccess
      . split at haccess
        . cases haccess
        . cases haccess
          exact ⟨upgradeInsert hrow hcommitted (by simp [horder]), rfl⟩
    . rename_i horder
      split at haccess
      . cases haccess
      . cases haccess
        exact ⟨upgradeInsert hrow hcommitted (by simp [horder]), rfl⟩

end

variable (h : access.WellFormed header)
include h

theorem promoted
    (hdelete : access.type = .DEL) (hrow : row.rowType = .row) (hcommitted : header.dirty = false)
    (horder : header.indexOrder ≠ .secondary)
    : ({ access with
         type := .INS
         params := { access.params with isUpgradeInsert := true }
         localInsertRow := [row]
         poolNode := poolNode } : Access S D).WellFormed header := by
  have hnotInsert : access.type ≠ .INS := by simp [hdelete]
  refine { h with
    committed := fun _ => hcommitted
    read := fun hprimary _ => h.read hprimary (.inl hnotInsert)
    onDeleted := fun hsecondary => absurd hsecondary horder
    tombstone := fun hprimary _ => h.tombstone hprimary (.inl hdelete)
    insert := fun _ => ⟨row, [], rfl, hrow, by simp⟩
    notInsert := ?_, plain := ?_, ofPrimary := ?_, update := ?_ }
  all_goals simp

theorem promoteDelete (hdelete : access.type = .DEL) (hrow : row.rowType = .row)
    (haccess : access.promoteDelete row poolNode header = some access')
    : access'.WellFormed header ∧ access'.origSentinel = access.origSentinel := by
  rw [Access.promoteDelete] at haccess
  split at haccess
  . cases haccess
  . rename_i hcommitted
    rw [Bool.not_eq_true] at hcommitted
    split at haccess
    . rename_i horder
      cases haccess
      exact ⟨h.promoted hdelete hrow hcommitted (by simp [horder]), rfl⟩
    . rename_i horder
      split at haccess
      . cases haccess
      . split at haccess
        . cases haccess
        . cases haccess
          exact ⟨h.promoted hdelete hrow hcommitted (by simp [horder]), rfl⟩
    . cases haccess

theorem revertInsert (hinsert : access.type = .INS) (hupgrade : access.params.isUpgradeInsert = true)
    (hdeleted : access.params.isInsertOnDeletedRow = false) : access.revertInsert.WellFormed header := by
  refine { h with
    read := fun hprimary _ => h.read hprimary (.inr hupgrade)
    tombstone := fun hprimary _ => h.tombstone hprimary (.inr ⟨hinsert, hupgrade, hdeleted⟩)
    committed := ?_, notInsert := ?_, plain := ?_, onDeleted := ?_, ofPrimary := ?_, update := ?_
    insert := ?_ }
  all_goals simp [Access.revertInsert, AccessParams.unsetUpgradeInsert]

end Access.WellFormed

theorem preAbortCheck_spec (preAbort : Bool) (header : S → Sentinel S T D) (set : List (Access S D))
    (hok : (preAbortCheck preAbort header set).ok = true)
    : (∀ a ∈ (preAbortCheck preAbort header set).orderedSet, a.type ≠ .RD ∧ a.type ≠ .RD_FOR_UPDATE) ∧
      (preAbortCheck preAbort header set).writeSetSize
        =
      (preAbortCheck preAbort header set).orderedSet.length ∧
      ((preAbortCheck preAbort header set).insertSetSize = 0 →
        ∀ a ∈ (preAbortCheck preAbort header set).orderedSet, a.type ≠ .INS) := by
  induction set with
  | nil => simp [preAbortCheck]
  | cons access rest ih =>
    rw [preAbortCheck] at hok ⊢
    split at hok
    . rename_i hread
      rw [if_pos hread]
      exact ih hok
    . rename_i hwrite
      rw [if_neg hwrite]
      rw [not_or] at hwrite
      split at hok
      . simp at hok
      . rename_i hvalid
        rw [if_neg hvalid]
        obtain ⟨hwrites, hsize, hinserts⟩ := ih hok
        refine ⟨?_, ?_, ?_⟩
        . intro a ha
          rcases mem_cons.1 ha with rfl | ha
          . exact hwrite
          . exact hwrites a ha
        . dsimp only
          rw [hsize, length_cons]
        . intro hzero a ha
          dsimp only at hzero
          rcases mem_cons.1 ha with rfl | ha
          . intro hinsert
            rw [hinsert, insertCount, if_pos rfl] at hzero
            omega
          . exact hinserts (by omega) a ha

theorem headerLocks_eq {orderedSet : List (Access S D)} (hwrites : ∀ a ∈ orderedSet, a.type ≠ .RD)
    (n : Nat) : headerLocks orderedSet n = (orderedSet.take n).map Access.origSentinel := by
  rw [headerLocks, filter_eq_self.2]
  simpa using hwrites

section AccessStep

variable [LinearOrder S] {header : S → Sentinel S T D} {set set' : TxnOrderedSet S D}

theorem insert_wellFormed (h : ∀ a ∈ set.accesses, a.WellFormed (header a.origSentinel))
    (haccess : access.WellFormed (header access.origSentinel))
    : ∀ a ∈ (set.insert access).accesses, a.WellFormed (header a.origSentinel) := by
  intro a ha
  rcases TxnOrderedSet.mem_insert ha with rfl | ha
  . exact haccess
  . exact h a ha

theorem AccessStep.wellFormed (hstep : AccessStep header set set')
    (h : ∀ a ∈ set.accesses, a.WellFormed (header a.origSentinel))
    : ∀ a ∈ set'.accesses, a.WellFormed (header a.origSentinel) := by
  cases hstep with
  | mapRow s type row older snapshot _ hprimary hcommitted hvisible =>
    exact insert_wellFormed h (Access.WellFormed.newRowAccess hprimary hcommitted hvisible)
  | updateRowState access access' type hmem htype hstate =>
    obtain ⟨hwell, horig⟩ := (h access hmem).updateRowState htype hstate
    exact insert_wellFormed h (by rwa [horig])
  | setValue access data hmem =>
    apply insert_wellFormed h
    have horig : (access.setValue data).origSentinel = access.origSentinel := by
      rw [Access.setValue]
      split <;> rfl
    rw [horig]
    exact (h access hmem).setValue data
  | secondary s access _ _ hsecondary =>
    apply insert_wellFormed h
    exact Access.WellFormed.newSecondaryAccess (by simp [newSecondaryAccess, hsecondary])
  | secondaryUnique s access csn node _ _ hunique _ _ =>
    apply insert_wellFormed h
    exact Access.WellFormed.newSecondaryAccess (by simp [newSecondaryAccess, hunique])
  | insert s row poolNode visibleCsn access _ hrow haccess =>
    obtain ⟨hwell, horig⟩ := Access.WellFormed.newInsertAccess hrow haccess
    exact insert_wellFormed h (by rwa [horig])
  | promoteDelete access access' row poolNode hmem hdelete hrow haccess =>
    obtain ⟨hwell, horig⟩ := (h access hmem).promoteDelete hdelete hrow haccess
    exact insert_wellFormed h (by rwa [horig])
  | revertInsert access hmem hinsert hupgrade hdeleted =>
    exact insert_wellFormed h ((h access hmem).revertInsert hinsert hupgrade hdeleted)
  | release s =>
    intro a ha
    exact h a (mem_filter.1 ha).1

end AccessStep

end Mot.Occ

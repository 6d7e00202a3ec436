import OpenGauss.Ustore.Visibility.Impl

/-!
This module contains when the visibility test uses the tuple of a row pointer that has none.
-/

namespace Ustore

variable (env : Env)

namespace Visibility

open ShortXid

section Select

theorem uheapSelectVersionNow_ne_checkCid (op : TidOp) (xid : Nat)
    : uheapSelectVersionNow env op xid ≠ .checkCid := by
  unfold uheapSelectVersionNow
  repeat' split
  all_goals simp

theorem uheapSelectVersionSelf_ne_checkCid (op : TidOp) (xid : Nat)
    : uheapSelectVersionSelf env op xid ≠ .checkCid := by
  unfold uheapSelectVersionSelf
  repeat' split
  all_goals simp

theorem uheapSelectVersionDirty_ne_checkCid (op : TidOp) (xid : Nat)
    : uheapSelectVersionDirty env op xid ≠ .checkCid := by
  unfold uheapSelectVersionDirty
  repeat' split
  all_goals simp

def AsksForCid (env : Env) (snapshot : Snapshot) (xid : Nat) : Prop :=
  snapshot.satisfies = .mvcc ∧ env.isCurrent xid = true
    ∧ (env.currentCommandIdUsed = true ∨ env.currentCommandId ≠ snapshot.curcid)

theorem uheapSelectVersionMVCC_checkCid_iff (op : TidOp) (xid : Nat) (snapshot : Snapshot)
    : uheapSelectVersionMVCC env op xid snapshot = .checkCid
        ↔
      isVersionMVCCSnapshot snapshot = false ∧ env.isCurrent xid = true
        ∧ (env.currentCommandIdUsed = true ∨ env.currentCommandId ≠ snapshot.curcid) := by
  unfold uheapSelectVersionMVCC
  cases isVersionMVCCSnapshot snapshot <;> cases env.isCurrent xid <;> cases env.currentCommandIdUsed <;>
    by_cases h : env.currentCommandId = snapshot.curcid <;> cases env.visible xid <;> cases op <;> simp [h]

theorem uheapTupleSatisfies_ne_nullTuple (op : TidOp) (snapshot : Snapshot) (uinfo : TransInfo)
    : uheapTupleSatisfies env op snapshot uinfo ≠ .error .nullTuple := by
  unfold uheapTupleSatisfies
  repeat' split
  all_goals simp

theorem uheapTupleSatisfies_checkCid_iff (op : TidOp) (snapshot : Snapshot) (uinfo : TransInfo)
    : uheapTupleSatisfies env op snapshot uinfo = .ok .checkCid
        ↔
      uinfo.tdSlot ≠ frozenSlot ∧ AsksForCid env snapshot uinfo.xid := by
  unfold uheapTupleSatisfies AsksForCid
  split
  . next h => cases op <;> simp [h]
  . next h =>
    cases hs : snapshot.satisfies <;>
      simp [h, hs, isVersionMVCCSnapshot, uheapSelectVersionMVCC_checkCid_iff,
        uheapSelectVersionNow_ne_checkCid,
        uheapSelectVersionSelf_ne_checkCid, uheapSelectVersionDirty_ne_checkCid]

end Select

section Row

theorem resolveSlot_some (page : Page) (snapshot : Snapshot) (offnum : Nat) (row : Row)
    (tdinfo : TransInfo) (tuple : DiskTuple) (h : row.utuple = some tuple)
    : resolveSlot env page snapshot offnum row tdinfo ≠ .error .nullTuple := by
  unfold resolveSlot useTuple
  simp only [h]
  repeat' split
  all_goals simp [bind, Except.bind, pure, Except.pure, throw, throwThe, MonadExceptOf.throw]

theorem checkCid_some (snapshot : Snapshot) (offnum : Nat) (row : Row) (op : TidOp)
    (tdinfo : TransInfo) (haveTransInfo : Bool) (tuple : DiskTuple) (h : row.utuple = some tuple)
    : checkCid env snapshot offnum row op tdinfo haveTransInfo ≠ .error .nullTuple := by
  unfold checkCid useTuple
  simp only [h]
  cases haveTransInfo <;>
    simp only [bind, Except.bind, pure, Except.pure, throw, throwThe, MonadExceptOf.throw, Bool.false_eq_true,
      if_false, if_true] <;>
    split <;> simp

-- The transaction of a slot is older than what the undo records still have to be read for.
def IsOld (env : Env) (snapshot : Snapshot) (xid : Nat) : Prop :=
  transactionIdIsValid xid = true ∧ xid < oldestXid env snapshot

-- A reused slot saves the search when its own transaction is visible.
def SparesUndo (env : Env) (snapshot : Snapshot) (xid : Nat) : Prop :=
  isMVCCSnapshot snapshot = true ∧ transactionIdIsValid xid = true ∧ env.visibleOrOld xid = true

def deletedRow (rp : RowPtr) : Row :=
  ⟨none, rowPtrGetTDSlot rp, invalidTransactionId, rowPtrGetVisibilityInfo rp &&& rowptrXactInvalid ≠ 0⟩

theorem examineRow_deleted (page : Page) (offnum : Nat) (h : rowPtrIsDeleted (page.rowPtrs offnum) = true)
    : examineRow env page offnum = some (deletedRow (page.rowPtrs offnum)) := by
  have normal : (page.rowPtrs offnum).isNormal = false := by
    simp only [rowPtrIsDeleted, decide_eq_true_eq] at h
    simp [RowPtr.isNormal, h]
  simp [examineRow, normal, h, deletedRow]

theorem examineRow_utuple (page : Page) (offnum : Nat) (row : Row)
    (h : rowPtrIsDeleted (page.rowPtrs offnum) = false) (hrow : examineRow env page offnum = some row)
    : ∃ tuple, row.utuple = some tuple := by
  simp only [examineRow, h] at hrow
  split at hrow
  . injection hrow with hrow
    exact ⟨_, by rw [← hrow]⟩
  . simp at hrow

theorem resolveSlot_deleted_old (page : Page) (snapshot : Snapshot) (offnum : Nat) (rp : RowPtr)
    (tdinfo : TransInfo) (old : IsOld env snapshot tdinfo.xid)
    : resolveSlot env page snapshot offnum (deletedRow rp) tdinfo
        =
      .ok ({ tdinfo with tdSlot := frozenSlot }, false) := by
  rw [IsOld] at old
  simp [resolveSlot, old, pure, Except.pure]

theorem resolveSlot_deleted_kept (page : Page) (snapshot : Snapshot) (offnum : Nat) (rp : RowPtr)
    (tdinfo : TransInfo) (old : ¬IsOld env snapshot tdinfo.xid)
    (kept : rowPtrGetVisibilityInfo rp &&& rowptrXactInvalid = 0)
    : resolveSlot env page snapshot offnum (deletedRow rp) tdinfo = .ok (tdinfo, false) := by
  rw [IsOld] at old
  simp [resolveSlot, old, kept, deletedRow, isExclusivelyLocked, pure, Except.pure]

theorem resolveSlot_deleted_spared (page : Page) (snapshot : Snapshot) (offnum : Nat) (rp : RowPtr)
    (tdinfo : TransInfo) (reused : rowPtrGetVisibilityInfo rp &&& rowptrXactInvalid ≠ 0)
    (spared : SparesUndo env snapshot tdinfo.xid)
    : resolveSlot env page snapshot offnum (deletedRow rp) tdinfo
        =
      .ok ({ tdinfo with tdSlot := frozenSlot }, false) := by
  rw [SparesUndo] at spared
  simp [resolveSlot, reused, spared, deletedRow, isExclusivelyLocked, pure, Except.pure]

theorem resolveSlot_deleted_searches (page : Page) (snapshot : Snapshot) (offnum : Nat) (rp : RowPtr)
    (tdinfo : TransInfo) (old : ¬IsOld env snapshot tdinfo.xid)
    (reused : rowPtrGetVisibilityInfo rp &&& rowptrXactInvalid ≠ 0)
      (spared : ¬SparesUndo env snapshot tdinfo.xid)
    : resolveSlot env page snapshot offnum (deletedRow rp) tdinfo = .error .nullTuple := by
  have noXid : transactionIdIsValid invalidTransactionId = false := rfl
  rw [IsOld] at old
  rw [SparesUndo, ← and_assoc] at spared
  simp [resolveSlot, old, reused, spared, noXid, deletedRow, isExclusivelyLocked, useTuple, bind, Except.bind]

theorem checkCid_deleted (snapshot : Snapshot) (offnum : Nat) (rp : RowPtr) (op : TidOp)
    (tdinfo : TransInfo)
    : checkCid env snapshot offnum (deletedRow rp) op tdinfo false = .error .nullTuple := by
  simp [checkCid, deletedRow, useTuple, bind, Except.bind]

end Row

structure SearchesUndoOfDeleted (env : Env) (page : Page) (snapshot : Snapshot) (offnum : Nat) : Prop where
  tests : snapshot.satisfies ≠ .any ∧ snapshot.satisfies ≠ .toast
  onPage : offnum ≤ page.maxOffsetNumber
  deleted : rowPtrIsDeleted (page.rowPtrs offnum) = true
  inUse : rowPtrGetTDSlot (page.rowPtrs offnum) ≠ frozenSlot
  searches : ∃ td, page.tdInfo[rowPtrGetTDSlot (page.rowPtrs offnum) - 1]? = some td
    ∧ ¬IsOld env snapshot td.xactid
    ∧ (if rowPtrGetVisibilityInfo (page.rowPtrs offnum) &&& rowptrXactInvalid ≠ 0 then
        ¬SparesUndo env snapshot td.xactid
      else
        AsksForCid env snapshot td.xactid)

section Satisfies

theorem bind_eq_error_iff {α β : Type} (x : Except Stop α) (f : α → Except Stop β) (e : Stop)
    : x >>= f = .error e ↔ x = .error e ∨ ∃ a, x = .ok a ∧ f a = .error e := by
  cases x <;> simp [bind, Except.bind]

theorem getTDSlotInfo_ne_nullTuple (page : Page) (tdId : Nat)
    : getTDSlotInfo page tdId ≠ .error .nullTuple := by
  unfold getTDSlotInfo
  split
  . simp
  . split <;> simp

theorem transInfoOfRow_some (page : Page) (snapshot : Snapshot) (offnum : Nat) (row : Row)
    (tuple : DiskTuple) (h : row.utuple = some tuple)
    : transInfoOfRow env page snapshot offnum row ≠ .error .nullTuple := by
  intro failed
  rw [transInfoOfRow, bind_eq_error_iff] at failed
  rcases failed with failed | ⟨tdinfo, _, failed⟩
  . exact getTDSlotInfo_ne_nullTuple _ _ failed
  . split at failed
    . exact resolveSlot_some _ _ _ _ _ _ _ h failed
    . simp [pure, Except.pure] at failed

theorem selectVersion_some (snapshot : Snapshot) (offnum : Nat) (row : Row) (tdinfo : TransInfo)
    (haveTransInfo : Bool) (tuple : DiskTuple) (h : row.utuple = some tuple)
    : selectVersion env snapshot offnum row tdinfo haveTransInfo ≠ .error .nullTuple := by
  intro failed
  rw [selectVersion, bind_eq_error_iff] at failed
  rcases failed with failed | ⟨uheapselect, _, failed⟩
  . exact uheapTupleSatisfies_ne_nullTuple _ _ _ _ failed
  . split at failed
    . exact checkCid_some _ _ _ _ _ _ _ _ h failed
    . simp [pure, Except.pure] at failed

theorem selectVersion_deleted_iff (snapshot : Snapshot) (offnum : Nat) (rp : RowPtr) (tdinfo : TransInfo)
    : selectVersion env snapshot offnum (deletedRow rp) tdinfo false = .error .nullTuple
        ↔
      tdinfo.tdSlot ≠ frozenSlot ∧ AsksForCid env snapshot tdinfo.xid := by
  rw [← uheapTupleSatisfies_checkCid_iff env (tidOpOfRow (deletedRow rp)), selectVersion, bind_eq_error_iff]
  constructor
  . rintro (failed | ⟨uheapselect, selected, failed⟩)
    . exact absurd failed (uheapTupleSatisfies_ne_nullTuple _ _ _ _)
    . split at failed
      . next h => rw [selected, h]
      . simp [pure, Except.pure] at failed
  . intro selected
    apply Or.inr
    exact ⟨_, selected, by rw [if_pos rfl, checkCid_deleted]⟩

theorem transInfoOfRow_deleted (page : Page) (snapshot : Snapshot) (offnum : Nat) (rp : RowPtr)
    (td : TD) (inUse : rowPtrGetTDSlot rp ≠ frozenSlot)
    (htd : page.tdInfo[rowPtrGetTDSlot rp - 1]? = some td)
    : transInfoOfRow env page snapshot offnum (deletedRow rp)
        =
      resolveSlot env page snapshot offnum (deletedRow rp)
        ⟨rowPtrGetTDSlot rp, td.xactid, none, td.undoRecordPtr⟩ := by
  simp [transInfoOfRow, deletedRow, getTDSlotInfo, inUse, htd, bind, Except.bind]

theorem testDeleted_iff (page : Page) (snapshot : Snapshot) (offnum : Nat) (rp : RowPtr)
    : (transInfoOfRow env page snapshot offnum (deletedRow rp) = .error .nullTuple
        ∨ ∃ found, transInfoOfRow env page snapshot offnum (deletedRow rp) = .ok found
          ∧ selectVersion env snapshot offnum (deletedRow rp) found.1 found.2 = .error .nullTuple)
        ↔
      rowPtrGetTDSlot rp ≠ frozenSlot ∧ ∃ td, page.tdInfo[rowPtrGetTDSlot rp - 1]? = some td
        ∧ ¬IsOld env snapshot td.xactid
        ∧ (if rowPtrGetVisibilityInfo rp &&& rowptrXactInvalid ≠ 0 then ¬SparesUndo env snapshot td.xactid
          else AsksForCid env snapshot td.xactid) := by
  by_cases inUse : rowPtrGetTDSlot rp = frozenSlot
  . have frozen : transInfoOfRow env page snapshot offnum (deletedRow rp)
        = .ok (⟨frozenSlot, invalidTransactionId, none, 0⟩, false) := by
      simp [transInfoOfRow, deletedRow, getTDSlotInfo, inUse, bind, Except.bind, pure, Except.pure]
    simp [frozen, inUse, selectVersion_deleted_iff]
  . cases htd : page.tdInfo[rowPtrGetTDSlot rp - 1]? with
    | none =>
      have outside : transInfoOfRow env page snapshot offnum (deletedRow rp) = .error .panic := by
        simp [transInfoOfRow, deletedRow, getTDSlotInfo, inUse, htd, bind, Except.bind]
      simp [outside]
    | some td =>
      rw [transInfoOfRow_deleted env page snapshot offnum rp td inUse htd]
      by_cases old : IsOld env snapshot td.xactid
      . rw [resolveSlot_deleted_old _ _ _ _ _ _ old]
        simp [old, selectVersion_deleted_iff]
      . by_cases reused : rowPtrGetVisibilityInfo rp &&& rowptrXactInvalid = 0
        . rw [resolveSlot_deleted_kept _ _ _ _ _ _ old reused]
          simp [old, reused, selectVersion_deleted_iff, inUse]
        . by_cases spared : SparesUndo env snapshot td.xactid
          . rw [resolveSlot_deleted_spared _ _ _ _ _ _ reused spared]
            simp [old, reused, spared, selectVersion_deleted_iff]
          . rw [resolveSlot_deleted_searches _ _ _ _ _ _ old reused spared]
            simp [inUse, old, reused, spared]

theorem neverUsesTuple_iff (env : Env) (page : Page) (snapshot : Snapshot)
    (offnum : Nat)
    : uheapTupleSatisfiesVisibility env page snapshot offnum ≠ .error .nullTuple
        ↔
      ¬SearchesUndoOfDeleted env page snapshot offnum := by
  apply not_congr
  unfold uheapTupleSatisfiesVisibility
  split
  . next h =>
    simp only [reduceCtorEq, false_iff]
    intro searches
    exact h.elim searches.tests.1 searches.tests.2
  . next tests =>
    split
    . next h =>
      simp only [Except.error.injEq, reduceCtorEq, false_iff]
      intro searches
      have := searches.onPage
      omega
    . next onPage =>
      cases hdel : rowPtrIsDeleted (page.rowPtrs offnum) with
      | true =>
        simp only [examineRow_deleted env page offnum hdel, bind_eq_error_iff]
        have plain : ∀ found : TransInfo × Bool,
            (selectVersion env snapshot offnum (deletedRow (page.rowPtrs offnum)) found.1 found.2
                = .error .nullTuple ∨ ∃ a : VersionSelector × TransInfo,
              selectVersion env snapshot offnum (deletedRow (page.rowPtrs offnum)) found.1 found.2 = .ok a
                ∧ (pure (a.1 ≠ .older && a.1 ≠ .none, some a.2.xid) : Except Stop (Bool × Option Nat))
                  = .error .nullTuple)
              ↔ selectVersion env snapshot offnum (deletedRow (page.rowPtrs offnum)) found.1 found.2
                = .error .nullTuple := by
          intro found
          simp [pure, Except.pure]
        simp only [plain, testDeleted_iff]
        constructor
        . rintro ⟨inUse, searches⟩
          exact ⟨by simpa using tests, by omega, hdel, inUse, searches⟩
        . intro searches
          exact ⟨searches.inUse, searches.searches⟩
      | false =>
        have clear : ¬SearchesUndoOfDeleted env page snapshot offnum := by
          intro searches
          have := searches.deleted
          simp [hdel] at this
        simp only [clear, iff_false]
        cases hrow : examineRow env page offnum with
        | none => simp
        | some row =>
          obtain ⟨tuple, htuple⟩ := examineRow_utuple env page offnum row hdel hrow
          simp only [bind_eq_error_iff]
          rintro (failed | ⟨found, _, failed | ⟨a, _, failed⟩⟩)
          . exact transInfoOfRow_some _ _ _ _ _ _ htuple failed
          . exact selectVersion_some _ _ _ _ _ _ _ htuple failed
          . simp [pure, Except.pure] at failed

def reusedEnv : Env where
  fxid := 0
  nextXid := 501
  recoveryInProgress := false
  globalRecycleXid := 100
  globalFrozenXid := 100
  hotStandbyRecycleXid := 0
  visible xid := xid < 500
  visibleOrOld xid := xid < 500
  didCommit xid := xid < 500
  isInProgress xid := xid = 500
  isCurrent _ := false
  currentCommandIdUsed := false
  currentCommandId := 0
  fetchTransInfoFromUndo _ tdinfo _ := ⟨.end, tdinfo, 0⟩

def reusedPage : Page where
  maxOffsetNumber := 1
  rowPtrs _ := ⟨2 ^ 7 + 3, .redirect, 0⟩
  rowData _ := ⟨0, 0, 0⟩
  tdInfo := [⟨500, 4096⟩]
  pdXidBase := 0
  pdMultiBase := 0

theorem not_neverUsesTuple_reused
    : ¬uheapTupleSatisfiesVisibility reusedEnv reusedPage ⟨.self, 0⟩ 1 ≠ .error .nullTuple := by
  intro never
  apply never
  rfl

end Satisfies

end Visibility

end Ustore

import OpenGauss.Ustore.Visibility.Impl

/-!
This module contains the pruning of a page of Ustore that makes room for an update of one of its rows
(`knl_pruneuheap.cpp`).
-/

namespace Ustore

namespace Prune

open Visibility (rowPtrIsDeleted rowPtrGetTDSlot frozenSlot)

inductive TransactionIdStatus where
  | inProgress
  | committed
  | aborted
  deriving DecidableEq

inductive UHTSVResult where
  | dead
  | recentlyDead
  | deleteInProgress
  | live
  | insertInProgress
  | abortInProgress
  deriving DecidableEq

structure RowXact where
  deletedOrUpdated : Bool
  inplaceUpdated : Bool
  undoDiscarded : Bool
  olderThanAllUndo : Bool
  isCurrent : Bool
  status : TransactionIdStatus
  precedesOldestXmin : Bool
  tdSlot : Nat
  visInfo : Nat
  tupSize : Nat

-- The result and `inplaceUpdated`.
def uheapTupleSatisfiesOldestXmin (tup : RowXact) : UHTSVResult × Bool :=
  if tup.deletedOrUpdated then
    if tup.undoDiscarded then (.recentlyDead, false)
    else if tup.olderThanAllUndo then (.dead, false)
    else if tup.isCurrent then (.deleteInProgress, false)
    else
      match tup.status with
      | .inProgress => (.deleteInProgress, false)
      | .committed => if !tup.precedesOldestXmin then (.recentlyDead, false) else (.dead, false)
      | .aborted => (.abortInProgress, false)
  else if tup.undoDiscarded then (.live, tup.inplaceUpdated)
  else if tup.olderThanAllUndo then (.live, tup.inplaceUpdated)
  else if tup.isCurrent then (.insertInProgress, false)
  else
    match tup.status with
    | .inProgress => (.insertInProgress, false)
    | .committed => (.live, tup.inplaceUpdated)
    | .aborted => (.abortInProgress, false)

-- `slotIsOld` tells whether the transaction of a slot precedes `oldestXmin`.
structure Env where
  maxTupleCount : Nat
  rowXact : Nat → RowXact
  slotIsOld : Nat → Bool

structure UPruneState where
  nowdead : List Nat
  nowdeleted : List Nat
  nowfixed : List (Nat × Nat)
  spaceFreed : Nat

section Scan

def pageGetExactUHeapFreeSpace (page : UPage) : Nat := page.pdUpper - page.pdLower

def uheapPruneItem (page : UPage) (tup : RowXact) (offnum : Nat) (prstate : UPruneState) (isTarget : Bool)
    : UPruneState :=
  let size := (page.rowPtrs offnum).len
  let (result, inplaceUpdated) := uheapTupleSatisfiesOldestXmin tup
  let prstate :=
    if inplaceUpdated && !isTarget && tup.tupSize < size then
      { prstate with nowfixed := prstate.nowfixed ++ [(offnum, tup.tupSize)] }
    else
      prstate
  match result with
  | .dead =>
    { prstate with
      nowdead := prstate.nowdead ++ [offnum]
      spaceFreed := prstate.spaceFreed + shortAlign size }
  | .recentlyDead =>
    { prstate with
      nowdeleted := prstate.nowdeleted ++ [offnum]
      spaceFreed := prstate.spaceFreed + shortAlign size }
  | _ => prstate

def scanItem (page : UPage) (env : Env) (targetOffnum : Nat) (prstate : UPruneState) (offnum : Nat)
    : UPruneState :=
  let itemid := page.rowPtrs offnum
  if env.maxTupleCount ≤ page.maxOffsetNumber && rowPtrIsDeleted itemid then
    let tdSlot := rowPtrGetTDSlot itemid
    if tdSlot = frozenSlot || env.slotIsOld tdSlot then
      { prstate with nowdead := prstate.nowdead ++ [offnum] }
    else
      prstate
  else if !itemid.isUsed || itemid.flags = .dead || rowPtrIsDeleted itemid then
    prstate
  else
    uheapPruneItem page (env.rowXact offnum) offnum prstate (offnum = targetOffnum)

def scan (page : UPage) (env : Env) (targetOffnum : Nat) : UPruneState :=
  (List.range' 1 page.maxOffsetNumber).foldl (scanItem page env targetOffnum)
    ⟨[], [], [], pageGetExactUHeapFreeSpace page⟩

end Scan

section Execute

def rowPtrDeleted (tdSlot visInfo : Nat) : RowPtr := ⟨tdSlot * 2 ^ 7 + visInfo, .redirect, 0⟩

def rowPtrDead : RowPtr := ⟨0, .dead, 0⟩

-- None is the panic about a row without a slot.
def uheapPagePruneExecute (page : UPage) (env : Env) (prstate : UPruneState) : Option UPage :=
  if prstate.nowdeleted.any fun off => (env.rowXact off).tdSlot = 0 then
    none
  else
    let page := prstate.nowdeleted.foldl
      (fun page off => page.setRowPtr off (rowPtrDeleted (env.rowXact off).tdSlot (env.rowXact off).visInfo)) page
    let page := prstate.nowdead.foldl (fun page off => page.setRowPtr off rowPtrDead) page
    some (prstate.nowfixed.foldl
      (fun page fixed => page.setRowPtr fixed.1 ((page.rowPtrs fixed.1).changeLen fixed.2)) page)

def pruneDeadLinePointers (page : UPage) (prstate : UPruneState) : UPage :=
  prstate.nowdead.foldl (fun page off => page.setRowPtr off .unused) page

inductive PruneResult where
  | noSpace
  | notPruned
  | panic
  | corrupted
  | pruned (page : UPage)

def uheapPagePruneGuts (page : UPage) (env : Env) (targetOffnum spaceRequired : Nat) (forcePrune : Bool)
    : PruneResult :=
  let prstate := scan page env targetOffnum
  if prstate.spaceFreed < spaceRequired then
    .noSpace
  else if prstate.nowdeleted.isEmpty && prstate.nowdead.isEmpty &&
    prstate.nowfixed.isEmpty && !forcePrune then
    .notPruned
  else
    match uheapPagePruneExecute page env prstate with
    | none => .panic
    | some executed =>
      match upageRepairFragmentation (pruneDeadLinePointers executed prstate) targetOffnum spaceRequired with
      | none => .corrupted
      | some page => .pruned page

end Execute

end Prune

end Ustore

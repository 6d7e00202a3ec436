import OpenGauss.Lib.Interleaving

/-!
This module contains the steps of `SyncPaxosWaitForLSN` and `SyncPaxosReleaseWaiters` of `syncrep.cpp`, in
any interleaving of the threads that call them.

An access to shared memory is a step of its own. The queue is a list, and `SHMQueueIsDetached` says that a
`PGPROC` is not on it.
-/

namespace SyncPaxos

/-- `SYNC_REP_NOT_WAITING`, `SYNC_REP_WAITING` and `SYNC_REP_WAIT_COMPLETE`. -/
inductive SyncPaxosState where
  | notWaiting
  | waiting
  | waitComplete
  deriving DecidableEq

inductive Pc (T : Type) where
  | idle
  -- `SyncPaxosWaitForLSN`
  | waitEntry (lsn : Nat)
  | waitLocked (lsn : Nat)
  | waitReached (lsn : Nat)
  | waitLsnSet (lsn : Nat)
  | waitStateSet (lsn : Nat)
  | waitInserted (lsn : Nat)
  | testState (lsn : Nat)
  | resetState (lsn : Nat) (syncSuccessed : Bool)
  | resetLsn (lsn : Nat) (syncSuccessed : Bool)
  | returned (lsn : Nat) (syncSuccessed : Bool)
  -- `SyncPaxosCancelWait`
  | cancelEntry (lsn : Nat)
  | cancelLocked (lsn : Nat)
  | cancelDetached (lsn : Nat)
  | cancelReset (lsn : Nat)
  -- `SyncPaxosReleaseWaiters`, in `SyncPaxosWakeQueue` with its `proc` and `thisproc`
  | releaseEntry (lsn : Nat)
  | releaseLocked (lsn : Nat)
  | wake (proc : Option T)
  | wakeDetached (thisproc : T) (proc : Option T)
  | releaseDone

variable {T : Type} [DecidableEq T]

/-- The walk of `SyncPaxosQueueInsert` from the tail, with the elements that it has passed. -/
def insertBehind (waitPaxosLSN : T → Nat) (t : T) (before passed : List T) : List T :=
  match before with
  | [] => t :: passed
  | proc :: before =>
    if waitPaxosLSN proc ≤ waitPaxosLSN t then
      before.reverse ++ proc :: t :: passed
    else
      insertBehind waitPaxosLSN t before (proc :: passed)

def syncPaxosQueueInsert (waitPaxosLSN : T → Nat) (t : T) (queue : List T) : List T :=
  insertBehind waitPaxosLSN t queue.reverse []

def shmQueueNext (queue : List T) (t : T) : Option T :=
  match queue with
  | [] => none
  | proc :: queue => if proc = t then queue.head? else shmQueueNext queue t

/-- `WalSndCtl`, the `PGPROC`s of the threads, and who holds `SyncPaxosLock`. -/
structure PaxosState (T : Type) where
  paxosLsn : Nat
  syncPaxosQueue : List T
  syncPaxosLock : Option T
  waitPaxosLSN : T → Nat
  syncPaxosState : T → SyncPaxosState
  pc : T → Pc T

namespace PaxosState

variable (σ : PaxosState T) (t : T)

def goto (pc : Pc T) : PaxosState T := { σ with pc := Function.update σ.pc t pc }

variable (pc : Pc T)

@[simp, grind =]
theorem goto_pc (u : T) : (σ.goto t pc).pc u = if u = t then pc else σ.pc u :=
  Function.update_apply σ.pc t pc u

@[simp, grind =]
theorem goto_paxosLsn : (σ.goto t pc).paxosLsn = σ.paxosLsn := rfl

@[simp, grind =]
theorem goto_syncPaxosQueue : (σ.goto t pc).syncPaxosQueue = σ.syncPaxosQueue := rfl

@[simp, grind =]
theorem goto_syncPaxosLock : (σ.goto t pc).syncPaxosLock = σ.syncPaxosLock := rfl

@[simp, grind =]
theorem goto_waitPaxosLSN : (σ.goto t pc).waitPaxosLSN = σ.waitPaxosLSN := rfl

@[simp, grind =]
theorem goto_syncPaxosState : (σ.goto t pc).syncPaxosState = σ.syncPaxosState := rfl

end PaxosState

inductive Step (σ : PaxosState T) (t : T) : PaxosState T → Prop
  | callWaitForLSN (lsn : Nat) (hpc : σ.pc t = .idle) : Step σ t (σ.goto t (.waitEntry lsn))
  | acquireWait (lsn : Nat) (hpc : σ.pc t = .waitEntry lsn) (hfree : σ.syncPaxosLock = none)
    : Step σ t { σ.goto t (.waitLocked lsn) with syncPaxosLock := some t }
  | lsnReached (lsn : Nat) (hpc : σ.pc t = .waitLocked lsn) (hle : lsn ≤ σ.paxosLsn)
    : Step σ t (σ.goto t (.waitReached lsn))
  | releaseReached (lsn : Nat) (hpc : σ.pc t = .waitReached lsn)
    : Step σ t
      { σ.goto t (.returned lsn true) with syncPaxosLock := none }
  | setWaitLsn (lsn : Nat) (hpc : σ.pc t = .waitLocked lsn) (hlt : ¬ lsn ≤ σ.paxosLsn)
    : Step σ t { σ.goto t (.waitLsnSet lsn) with waitPaxosLSN := Function.update σ.waitPaxosLSN t lsn }
  | setWaiting (lsn : Nat) (hpc : σ.pc t = .waitLsnSet lsn)
    : Step σ t
      { σ.goto t (.waitStateSet lsn) with syncPaxosState := Function.update σ.syncPaxosState t .waiting }
  | queueInsert (lsn : Nat) (hpc : σ.pc t = .waitStateSet lsn)
    : Step σ t
      { σ.goto t (.waitInserted lsn) with
        syncPaxosQueue := syncPaxosQueueInsert σ.waitPaxosLSN t σ.syncPaxosQueue }
  | releaseInserted (lsn : Nat) (hpc : σ.pc t = .waitInserted lsn)
    : Step σ t
      { σ.goto t (.testState lsn) with syncPaxosLock := none }
  | testComplete (lsn : Nat) (hpc : σ.pc t = .testState lsn) (hstate : σ.syncPaxosState t = .waitComplete)
    : Step σ t (σ.goto t (.resetState lsn true))
  -- one of the conditions that end the wait
  | testCancel (lsn : Nat) (hpc : σ.pc t = .testState lsn) (hstate : σ.syncPaxosState t ≠ .waitComplete)
    : Step σ t (σ.goto t (.cancelEntry lsn))
  -- none of them, the latch is waited for
  | waitLatch (lsn : Nat) (hpc : σ.pc t = .testState lsn) (hstate : σ.syncPaxosState t ≠ .waitComplete)
    : Step σ t (σ.goto t (.testState lsn))
  | acquireCancel (lsn : Nat) (hpc : σ.pc t = .cancelEntry lsn) (hfree : σ.syncPaxosLock = none)
    : Step σ t { σ.goto t (.cancelLocked lsn) with syncPaxosLock := some t }
  | cancelDetached (lsn : Nat) (hpc : σ.pc t = .cancelLocked lsn) (hdetached : t ∉ σ.syncPaxosQueue)
    : Step σ t (σ.goto t (.cancelDetached lsn))
  | cancelDelete (lsn : Nat) (hpc : σ.pc t = .cancelLocked lsn) (hattached : t ∈ σ.syncPaxosQueue)
    : Step σ t { σ.goto t (.cancelDetached lsn) with syncPaxosQueue := σ.syncPaxosQueue.erase t }
  | cancelReset (lsn : Nat) (hpc : σ.pc t = .cancelDetached lsn)
    : Step σ t
      { σ.goto t (.cancelReset lsn) with syncPaxosState := Function.update σ.syncPaxosState t .notWaiting }
  | releaseCancel (lsn : Nat) (hpc : σ.pc t = .cancelReset lsn)
    : Step σ t
      { σ.goto t (.resetState lsn false) with syncPaxosLock := none }
  | resetState (lsn : Nat) (syncSuccessed : Bool) (hpc : σ.pc t = .resetState lsn syncSuccessed)
    : Step σ t
      { σ.goto t (.resetLsn lsn syncSuccessed) with
        syncPaxosState := Function.update σ.syncPaxosState t .notWaiting }
  | resetLsn (lsn : Nat) (syncSuccessed : Bool) (hpc : σ.pc t = .resetLsn lsn syncSuccessed)
    : Step σ t
      { σ.goto t (.returned lsn syncSuccessed) with waitPaxosLSN := Function.update σ.waitPaxosLSN t 0 }
  | resume (lsn : Nat) (syncSuccessed : Bool) (hpc : σ.pc t = .returned lsn syncSuccessed)
    : Step σ t (σ.goto t .idle)
  | callReleaseWaiters (lsn : Nat) (hpc : σ.pc t = .idle) : Step σ t (σ.goto t (.releaseEntry lsn))
  | acquireRelease (lsn : Nat) (hpc : σ.pc t = .releaseEntry lsn) (hfree : σ.syncPaxosLock = none)
    : Step σ t { σ.goto t (.releaseLocked lsn) with syncPaxosLock := some t }
  | releaseBehind (lsn : Nat) (hpc : σ.pc t = .releaseLocked lsn) (hlt : ¬ σ.paxosLsn ≤ lsn)
    : Step σ t (σ.goto t .releaseDone)
  | setPaxosLsn (lsn : Nat) (hpc : σ.pc t = .releaseLocked lsn) (hle : σ.paxosLsn ≤ lsn)
    : Step σ t { σ.goto t (.wake σ.syncPaxosQueue.head?) with paxosLsn := lsn }
  | wakeEnd (hpc : σ.pc t = .wake none) : Step σ t (σ.goto t .releaseDone)
  | wakeStop (proc : T) (hpc : σ.pc t = .wake (some proc)) (hlt : σ.paxosLsn < σ.waitPaxosLSN proc)
    : Step σ t (σ.goto t .releaseDone)
  | wakeDelete (proc : T) (hpc : σ.pc t = .wake (some proc)) (hle : ¬ σ.paxosLsn < σ.waitPaxosLSN proc)
    : Step σ t { σ.goto t (.wakeDetached proc (shmQueueNext σ.syncPaxosQueue proc)) with
        syncPaxosQueue := σ.syncPaxosQueue.erase proc }
  | wakeComplete (thisproc : T) (proc : Option T) (hpc : σ.pc t = .wakeDetached thisproc proc)
    : Step σ t
      { σ.goto t (.wake proc) with syncPaxosState := Function.update σ.syncPaxosState thisproc .waitComplete }
  | releaseWaiters (hpc : σ.pc t = .releaseDone) : Step σ t { σ.goto t .idle with syncPaxosLock := none }

abbrev Run (σ₀ σ : PaxosState T) : Prop := Interleaving.Run Step σ₀ σ

structure PaxosState.Initial (σ : PaxosState T) : Prop where
  empty : σ.syncPaxosQueue = []
  free : σ.syncPaxosLock = none
  notWaiting : ∀ t, σ.syncPaxosState t = .notWaiting
  idle : ∀ t, σ.pc t = .idle

end SyncPaxos

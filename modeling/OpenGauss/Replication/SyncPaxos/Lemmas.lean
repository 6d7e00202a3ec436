import OpenGauss.Replication.SyncPaxos.Impl
import Mathlib.Data.List.Basic
import Mathlib.Order.Nat

/-!
This module contains the verification of the waits for Paxos.
-/

open List Function

namespace SyncPaxos

variable {T : Type}

section Queue

variable {waitPaxosLSN : T → Nat} {t : T} {before passed queue : List T}

def Sorted (waitPaxosLSN : T → Nat) (queue : List T) : Prop :=
  queue.Pairwise fun u v => waitPaxosLSN u ≤ waitPaxosLSN v

theorem insertBehind_perm (waitPaxosLSN : T → Nat) (t : T) (before passed : List T)
    : (insertBehind waitPaxosLSN t before passed).Perm (t :: (before.reverse ++ passed)) := by
  induction before generalizing passed with
  | nil => exact List.Perm.refl _
  | cons proc before ih =>
    unfold insertBehind
    split
    . have hmiddle : (before.reverse ++ proc :: t :: passed).Perm
        (t :: (before.reverse ++ proc :: passed)) := by
        have h : (before.reverse ++ [proc] ++ t :: passed).Perm (t :: (before.reverse ++ [proc] ++ passed)) :=
          perm_middle
        simpa using h
      simpa using hmiddle
    . have h := ih (proc :: passed)
      simpa using h

theorem insertBehind_sorted (hsorted : Sorted waitPaxosLSN (before.reverse ++ passed))
    (hpassed : ∀ u ∈ passed, waitPaxosLSN t ≤ waitPaxosLSN u)
    : Sorted waitPaxosLSN (insertBehind waitPaxosLSN t before passed) := by
  induction before generalizing passed with
  | nil => exact pairwise_cons.mpr ⟨hpassed, hsorted⟩
  | cons proc before ih =>
    unfold insertBehind
    rw [reverse_cons, append_assoc, singleton_append] at hsorted
    split
    . next hle =>
      obtain ⟨hbefore, hbehind, hcross⟩ := pairwise_append.mp hsorted
      obtain ⟨hproc, hrest⟩ := pairwise_cons.mp hbehind
      apply pairwise_append.mpr
      refine ⟨hbefore, ?_, ?_⟩
      . apply pairwise_cons.mpr
        constructor
        . intro u hu
          rcases mem_cons.mp hu with rfl | hu
          . exact hle
          . exact hproc u hu
        . exact pairwise_cons.mpr ⟨hpassed, hrest⟩
      . intro u hu v hv
        have huproc := hcross u hu proc mem_cons_self
        rcases mem_cons.mp hv with rfl | hv
        . exact huproc
        . rcases mem_cons.mp hv with rfl | hv
          . omega
          . exact hcross u hu v (mem_cons_of_mem proc hv)
    . next hgt =>
      apply ih hsorted
      intro u hu
      rcases mem_cons.mp hu with rfl | hu
      . omega
      . exact hpassed u hu

theorem syncPaxosQueueInsert_perm (waitPaxosLSN : T → Nat) (t : T) (queue : List T)
    : (syncPaxosQueueInsert waitPaxosLSN t queue).Perm (t :: queue) := by
  have h := insertBehind_perm waitPaxosLSN t queue.reverse []
  simpa [syncPaxosQueueInsert] using h

theorem syncPaxosQueueInsert_sorted (h : Sorted waitPaxosLSN queue)
    : Sorted waitPaxosLSN (syncPaxosQueueInsert waitPaxosLSN t queue) := by
  apply insertBehind_sorted
  . simpa using h
  . intro u hu
    cases hu

theorem mem_syncPaxosQueueInsert {u : T}
    : u ∈ syncPaxosQueueInsert waitPaxosLSN t queue ↔ u = t ∨ u ∈ queue := by
  rw [(syncPaxosQueueInsert_perm waitPaxosLSN t queue).mem_iff, mem_cons]

theorem Sorted.head_le {proc u : T} (h : Sorted waitPaxosLSN queue)
    (hhead : some proc = queue.head?) (hu : u ∈ queue)
    : waitPaxosLSN proc ≤ waitPaxosLSN u := by
  cases queue with
  | nil => cases hu
  | cons v queue =>
    have hproc : proc = v := Option.some.inj hhead
    rw [hproc]
    rcases mem_cons.mp hu with rfl | hu
    . exact Nat.le_refl _
    . exact (pairwise_cons.mp h).left u hu

theorem mem_of_head {proc : T} (h : some proc = queue.head?) : proc ∈ queue :=
  mem_of_head? h.symm

theorem shmQueueNext_head [DecidableEq T] {proc : T} (h : some proc = queue.head?)
    : shmQueueNext queue proc = (queue.erase proc).head? := by
  cases queue with
  | nil => cases h
  | cons u queue =>
    have hproc : proc = u := Option.some.inj h
    rw [hproc, shmQueueNext, if_pos rfl, erase_cons_head]

end Queue

section Invariant

namespace Pc

def InLock (pc : Pc T) : Prop :=
  match pc with
  | waitLocked _ | waitReached _ | waitLsnSet _ | waitStateSet _ | waitInserted _ => True
  | cancelLocked _ | cancelDetached _ | cancelReset _ => True
  | releaseLocked _ | wake _ | wakeDetached _ _ | releaseDone => True
  | idle | waitEntry _ | testState _ | resetState _ _ | resetLsn _ _ | returned _ _ => False
  | cancelEntry _ | releaseEntry _ => False

def Waits (pc : Pc T) : Prop :=
  match pc with
  | testState _ | cancelEntry _ => True
  | _ => False

def Wakes (pc : Pc T) : Prop :=
  match pc with
  | wake _ | wakeDetached _ _ => True
  | _ => False

/-- The thread `t` at `pc` has `u` off the queue while the state of `u` is still `SYNC_REP_WAITING`. -/
def Moves (pc : Pc T) (t u : T) : Prop :=
  match pc with
  | waitStateSet _ | cancelDetached _ => t = u
  | wakeDetached thisproc _ => thisproc = u
  | _ => False

end Pc

variable (σ : PaxosState T)

def PaxosState.Outside (t : T) : Prop := t ∉ σ.syncPaxosQueue ∧ σ.syncPaxosState t = .notWaiting

def PaxosState.Knows (t : T) : Prop :=
  match σ.pc t with
  | .idle | .waitEntry _ | .waitLocked _ | .cancelReset _ => σ.Outside t
  | .releaseEntry _ | .releaseLocked _ | .releaseDone => σ.Outside t
  | .waitReached lsn => σ.Outside t ∧ lsn ≤ σ.paxosLsn
  | .waitLsnSet lsn => σ.Outside t ∧ σ.waitPaxosLSN t = lsn ∧ σ.paxosLsn < lsn
  | .waitStateSet lsn =>
    t ∉ σ.syncPaxosQueue ∧ σ.syncPaxosState t = .waiting ∧ σ.waitPaxosLSN t = lsn ∧ σ.paxosLsn < lsn
  | .waitInserted lsn => t ∈ σ.syncPaxosQueue ∧ σ.waitPaxosLSN t = lsn
  | .testState lsn | .cancelEntry lsn => σ.waitPaxosLSN t = lsn ∧ (t ∈ σ.syncPaxosQueue ∨ lsn ≤ σ.paxosLsn)
  | .cancelLocked _ => True
  | .cancelDetached _ => t ∉ σ.syncPaxosQueue
  | .resetState lsn syncSuccessed =>
    t ∉ σ.syncPaxosQueue ∧ σ.syncPaxosState t ≠ .waiting ∧ (syncSuccessed = true → lsn ≤ σ.paxosLsn)
  | .resetLsn lsn syncSuccessed | .returned lsn syncSuccessed =>
    σ.Outside t ∧ (syncSuccessed = true → lsn ≤ σ.paxosLsn)
  | .wake proc => σ.Outside t ∧ proc = σ.syncPaxosQueue.head?
  | .wakeDetached thisproc proc =>
    σ.Outside t ∧ proc = σ.syncPaxosQueue.head? ∧ thisproc ∉ σ.syncPaxosQueue ∧
      σ.syncPaxosState thisproc = .waiting ∧ (σ.pc thisproc).Waits

structure Inv : Prop where
  lock : ∀ t, (σ.pc t).InLock ↔ σ.syncPaxosLock = some t
  knows : ∀ t, σ.Knows t
  sorted : Sorted σ.waitPaxosLSN σ.syncPaxosQueue
  nodup : σ.syncPaxosQueue.Nodup
  waiting_of_mem : ∀ t ∈ σ.syncPaxosQueue, σ.syncPaxosState t = .waiting
  mem_of_waiting : ∀ t, σ.syncPaxosState t = .waiting → t ∈ σ.syncPaxosQueue ∨ ∃ u, (σ.pc u).Moves u t
  above : ∀ t ∈ σ.syncPaxosQueue, σ.paxosLsn < σ.waitPaxosLSN t ∨ ∃ u, (σ.pc u).Wakes

variable {σ} {σ' : PaxosState T} {t : T}

theorem PaxosState.Initial.inv (h : σ.Initial) : Inv σ where
  lock t := by
    rw [h.idle t, h.free]
    simp [Pc.InLock]
  knows t := by
    unfold PaxosState.Knows
    rw [h.idle t]
    constructor
    . rw [h.empty]
      exact not_mem_nil
    . exact h.notWaiting t
  sorted := by
    rw [h.empty]
    exact List.Pairwise.nil
  nodup := by
    rw [h.empty]
    exact nodup_nil
  waiting_of_mem t ht := by
    rw [h.empty] at ht
    cases ht
  mem_of_waiting t ht := by
    rw [h.notWaiting t] at ht
    cases ht
  above t ht := by
    rw [h.empty] at ht
    cases ht

theorem Inv.holder (h : Inv σ) {u : T} (ht : (σ.pc t).InLock) (hu : (σ.pc u).InLock) : u = t := by
  have hlock := (h.lock t).mp ht
  have hlock' := (h.lock u).mp hu
  rw [hlock] at hlock'
  exact (Option.some.inj hlock').symm

theorem Inv.waits_of_mem (h : Inv σ) {u : T} (hu : u ∈ σ.syncPaxosQueue) (hlock : ¬ (σ.pc u).InLock)
    : (σ.pc u).Waits := by
  have hknows := h.knows u
  unfold PaxosState.Knows at hknows
  cases hpc : σ.pc u <;> grind [PaxosState.Outside, Pc.InLock, Pc.Waits]

variable [DecidableEq T]

theorem pc_of_ne (hstep : Step σ t σ') {u : T} (hne : u ≠ t) : σ'.pc u = σ.pc u := by
  cases hstep <;> grind

theorem lock_step (h : Inv σ) (hstep : Step σ t σ') : ∀ u, (σ'.pc u).InLock ↔ σ'.syncPaxosLock = some u := by
  intro u
  have hu := h.lock u
  have ht := h.lock t
  cases hstep <;> grind [Pc.InLock]

theorem waiting_of_mem_step (h : Inv σ) (hstep : Step σ t σ')
    : ∀ u ∈ σ'.syncPaxosQueue, σ'.syncPaxosState u = .waiting := by
  intro u hu
  have hwaiting := h.waiting_of_mem u
  have hknows := h.knows t
  unfold PaxosState.Knows at hknows
  cases hstep with
  | queueInsert lsn hpc =>
    -- The state is set before the thread is on the queue.
    rw [hpc] at hknows
    rcases mem_syncPaxosQueueInsert.mp hu with rfl | hmem
    . exact hknows.right.left
    . exact hwaiting hmem
  | setWaiting lsn hpc =>
    rw [hpc] at hknows
    have hne : u ≠ t := fun heq => hknows.left.left (heq ▸ hu)
    exact (update_of_ne hne ..).trans (hwaiting hu)
  | cancelReset lsn hpc =>
    rw [hpc] at hknows
    have hne : u ≠ t := fun heq => hknows (heq ▸ hu)
    exact (update_of_ne hne ..).trans (hwaiting hu)
  | resetState lsn syncSuccessed hpc =>
    rw [hpc] at hknows
    have hne : u ≠ t := fun heq => hknows.left (heq ▸ hu)
    exact (update_of_ne hne ..).trans (hwaiting hu)
  | wakeComplete thisproc proc hpc =>
    -- A thread is off the queue before its wait is complete.
    rw [hpc] at hknows
    have hne : u ≠ thisproc := fun heq => hknows.right.right.left (heq ▸ hu)
    exact (update_of_ne hne ..).trans (hwaiting hu)
  | cancelDelete lsn hpc hattached => exact hwaiting (mem_of_mem_erase hu)
  | wakeDelete proc hpc hle => exact hwaiting (mem_of_mem_erase hu)
  | _ => exact hwaiting hu

-- Only a deletion takes a thread off the queue, and the thread that deletes it then moves it.
theorem moves_of_deleted (h : Inv σ) (hstep : Step σ t σ') {v : T} (hmem : v ∈ σ.syncPaxosQueue)
    (hmem' : v ∉ σ'.syncPaxosQueue)
    : (σ'.pc t).Moves t v := by
  have hnodup := h.nodup
  cases hstep with
  | queueInsert lsn hpc => exact absurd (mem_syncPaxosQueueInsert.mpr (Or.inr hmem)) hmem'
  | cancelDelete lsn hpc hattached =>
    have heq : v = t := by
      by_contra hne
      exact hmem' ((mem_erase_of_ne hne).mpr hmem)
    simp [Pc.Moves, heq]
  | wakeDelete proc hpc hle =>
    have heq : v = proc := by
      by_contra hne
      exact hmem' ((mem_erase_of_ne hne).mpr hmem)
    simp [Pc.Moves, heq]
  | _ => exact absurd hmem hmem'

-- A move ends when the thread is on the queue or no longer waiting.
theorem not_moves_of_waiting (hstep : Step σ t σ') {v : T} (hmoves : (σ.pc t).Moves t v)
    (hmem' : v ∉ σ'.syncPaxosQueue)
    : σ'.syncPaxosState v ≠ .waiting := by
  cases hstep with
  | queueInsert lsn hpc =>
    rw [hpc] at hmoves
    exact absurd (mem_syncPaxosQueueInsert.mpr (Or.inl (Eq.symm hmoves))) hmem'
  | cancelReset lsn hpc =>
    rw [hpc] at hmoves
    have heq : t = v := hmoves
    simp [heq]
  | wakeComplete thisproc proc hpc =>
    rw [hpc] at hmoves
    have heq : thisproc = v := hmoves
    simp [heq]
  | _ => grind [Pc.Moves]

-- A thread that starts to wait is not on the queue yet, and moves itself there.
theorem moves_of_setWaiting (hstep : Step σ t σ') {v : T} (hold : σ.syncPaxosState v ≠ .waiting)
    (hnew : σ'.syncPaxosState v = .waiting)
    : (σ'.pc t).Moves t v := by
  cases hstep with
  | setWaiting lsn hpc =>
    have heq : v = t := by
      by_contra hne
      exact hold ((update_of_ne hne ..).symm.trans hnew)
    simp [Pc.Moves, heq]
  | _ => grind [update_apply]

theorem mem_of_waiting_step (h : Inv σ) (hstep : Step σ t σ')
    : ∀ v, σ'.syncPaxosState v = .waiting → v ∈ σ'.syncPaxosQueue ∨ ∃ u, (σ'.pc u).Moves u v := by
  intro v hv
  by_cases hmem' : v ∈ σ'.syncPaxosQueue
  . exact Or.inl hmem'
  . right
    by_cases hold : σ.syncPaxosState v = .waiting
    . rcases h.mem_of_waiting v hold with hmem | ⟨u, hmoves⟩
      . exact ⟨t, moves_of_deleted h hstep hmem hmem'⟩
      . by_cases hut : u = t
        . subst hut
          exact absurd hv (not_moves_of_waiting hstep hmoves hmem')
        . exact ⟨u, by rwa [pc_of_ne hstep hut]⟩
    . exact ⟨t, moves_of_setWaiting hstep hold hv⟩

theorem nodup_step (h : Inv σ) (hstep : Step σ t σ') : σ'.syncPaxosQueue.Nodup := by
  have hknows := h.knows t
  have hnodup := h.nodup
  cases hstep with
  | queueInsert lsn hpc =>
    dsimp only
    rw [(syncPaxosQueueInsert_perm σ.waitPaxosLSN t σ.syncPaxosQueue).nodup_iff]
    unfold PaxosState.Knows at hknows
    rw [hpc] at hknows
    exact nodup_cons.mpr ⟨hknows.left, hnodup⟩
  | cancelDelete lsn hpc hattached => exact hnodup.erase t
  | wakeDelete proc hpc hle => exact hnodup.erase proc
  | _ => exact hnodup

theorem sorted_update {lsn : Nat} (hsorted : Sorted σ.waitPaxosLSN σ.syncPaxosQueue)
    (hout : t ∉ σ.syncPaxosQueue)
    : Sorted (Function.update σ.waitPaxosLSN t lsn) σ.syncPaxosQueue := by
  apply List.Pairwise.imp_of_mem _ hsorted
  intro u v hu hv hle
  have hut : u ≠ t := fun heq => hout (heq ▸ hu)
  have hvt : v ≠ t := fun heq => hout (heq ▸ hv)
  rw [update_of_ne hut, update_of_ne hvt]
  exact hle

theorem sorted_step (h : Inv σ) (hstep : Step σ t σ') : Sorted σ'.waitPaxosLSN σ'.syncPaxosQueue := by
  have hknows := h.knows t
  have hsorted := h.sorted
  unfold PaxosState.Knows at hknows
  cases hstep with
  | queueInsert lsn hpc => exact syncPaxosQueueInsert_sorted hsorted
  | cancelDelete lsn hpc hattached => exact hsorted.sublist erase_sublist
  | wakeDelete proc hpc hle => exact hsorted.sublist erase_sublist
  | setWaitLsn lsn hpc hlt =>
    rw [hpc] at hknows
    exact sorted_update hsorted hknows.left
  | resetLsn lsn syncSuccessed hpc =>
    rw [hpc] at hknows
    exact sorted_update hsorted hknows.left.left
  | _ => exact hsorted

-- The thread that takes the step either leaves the queue above `paxosLsn` or goes on with the wakeups.
theorem above_or_wakes (h : Inv σ) (hstep : Step σ t σ')
    (hmine : ∀ v ∈ σ.syncPaxosQueue, σ.paxosLsn < σ.waitPaxosLSN v ∨ (σ.pc t).Wakes)
    : ∀ v ∈ σ'.syncPaxosQueue, σ'.paxosLsn < σ'.waitPaxosLSN v ∨ (σ'.pc t).Wakes := by
  intro v hv
  have hknows := h.knows t
  unfold PaxosState.Knows at hknows
  cases hstep with
  | queueInsert lsn hpc =>
    rw [hpc] at hknows hmine
    rcases mem_syncPaxosQueueInsert.mp hv with rfl | hmem
    . exact Or.inl (Nat.lt_of_lt_of_eq hknows.right.right.right hknows.right.right.left.symm)
    . exact Or.inl ((hmine v hmem).resolve_right id)
  | setWaitLsn lsn hpc hlt =>
    rw [hpc] at hknows hmine
    have hne : v ≠ t := fun heq => hknows.left (heq ▸ hv)
    have habove := (hmine v hv).resolve_right id
    exact Or.inl (Nat.lt_of_lt_of_eq habove (update_of_ne hne ..).symm)
  | resetLsn lsn syncSuccessed hpc =>
    rw [hpc] at hknows hmine
    have hne : v ≠ t := fun heq => hknows.left.left (heq ▸ hv)
    have habove := (hmine v hv).resolve_right id
    exact Or.inl (Nat.lt_of_lt_of_eq habove (update_of_ne hne ..).symm)
  | setPaxosLsn lsn hpc hle => simp [Pc.Wakes]
  | wakeDelete proc hpc hle => simp [Pc.Wakes]
  | wakeComplete thisproc proc hpc => simp [Pc.Wakes]
  | wakeEnd hpc =>
    rw [hpc] at hknows
    have hmem : v ∈ σ.syncPaxosQueue := hv
    rw [head?_eq_none_iff.mp hknows.right.symm] at hmem
    cases hmem
  | wakeStop proc hpc hlt =>
    -- The queue is in order, so everything behind the first thread that has to wait has to, too.
    rw [hpc] at hknows
    exact Or.inl (Nat.lt_of_lt_of_le hlt (h.sorted.head_le hknows.right hv))
  | cancelDelete lsn hpc hattached =>
    rw [hpc] at hmine
    exact Or.inl ((hmine v (mem_of_mem_erase hv)).resolve_right id)
  | _ => grind [Pc.Wakes]

theorem above_step (h : Inv σ) (hstep : Step σ t σ')
    : ∀ v ∈ σ'.syncPaxosQueue, σ'.paxosLsn < σ'.waitPaxosLSN v ∨ ∃ u, (σ'.pc u).Wakes := by
  intro v hv
  by_cases hwakes : ∃ u, u ≠ t ∧ (σ.pc u).Wakes
  . obtain ⟨u, hut, hu⟩ := hwakes
    right
    use u
    rw [pc_of_ne hstep hut]
    exact hu
  . have hmine : ∀ w ∈ σ.syncPaxosQueue, σ.paxosLsn < σ.waitPaxosLSN w ∨ (σ.pc t).Wakes := by
      intro w hw
      rcases h.above w hw with habove | ⟨u, hu⟩
      . exact Or.inl habove
      . by_cases hut : u = t
        . rw [hut] at hu
          exact Or.inr hu
        . exact absurd ⟨u, hut, hu⟩ hwakes
    rcases above_or_wakes h hstep hmine v hv with habove | ht
    . exact Or.inl habove
    . exact Or.inr ⟨t, ht⟩

theorem knows_step_self (h : Inv σ) (hstep : Step σ t σ') : σ'.Knows t := by
  have hknows := h.knows t
  have hwaiting := h.waiting_of_mem t
  have hnodup := h.nodup
  unfold PaxosState.Knows at hknows ⊢
  cases hstep with
  | wakeDelete proc hpc hle =>
    rw [hpc] at hknows
    obtain ⟨hout, hhead⟩ := hknows
    have hmem := mem_of_head hhead
    have hne : proc ≠ t := fun heq => hout.left (heq ▸ hmem)
    have hlock : ¬ (σ.pc proc).InLock := by
      intro hproc
      apply hne
      apply h.holder _ hproc
      rw [hpc]
      exact trivial
    have hwaits := h.waits_of_mem hmem hlock
    have hproc := h.waiting_of_mem proc hmem
    have hnext := shmQueueNext_head hhead
    simp only [PaxosState.goto_pc, ↓reduceIte, if_neg hne, PaxosState.Outside, PaxosState.goto_syncPaxosState]
    exact ⟨⟨fun hmem' => hout.left (mem_of_mem_erase hmem'), hout.right⟩, hnext,
      fun hmem' => (hnodup.mem_erase_iff.mp hmem').left rfl, hproc, hwaits⟩
  | _ => grind [PaxosState.Outside, update_apply, mem_syncPaxosQueueInsert]

theorem paxosLsn_le (hstep : Step σ t σ') : σ.paxosLsn ≤ σ'.paxosLsn := by
  cases hstep with
  | setPaxosLsn lsn hpc hle => exact hle
  | _ => exact Nat.le_refl _

section Other

variable {u : T}

theorem waitPaxosLSN_of_ne (hstep : Step σ t σ') (hne : u ≠ t) : σ'.waitPaxosLSN u = σ.waitPaxosLSN u := by
  cases hstep with
  | setWaitLsn lsn hpc hlt => exact update_of_ne hne lsn σ.waitPaxosLSN
  | resetLsn lsn syncSuccessed hpc => exact update_of_ne hne 0 σ.waitPaxosLSN
  | _ => rfl

theorem syncPaxosState_of_ne (h : Inv σ) (hstep : Step σ t σ') (hne : u ≠ t)
    : σ'.syncPaxosState u = σ.syncPaxosState u ∨ (σ.pc u).Waits ∧ (σ.pc t).InLock := by
  have hknows := h.knows t
  unfold PaxosState.Knows at hknows
  cases hstep with
  | wakeComplete thisproc proc hpc =>
    rw [hpc] at hknows
    by_cases heq : u = thisproc
    . right
      rw [heq, hpc]
      exact ⟨hknows.right.right.right.right, trivial⟩
    . exact Or.inl (update_of_ne heq ..)
  | setWaiting lsn hpc => exact Or.inl (update_of_ne hne ..)
  | cancelReset lsn hpc => exact Or.inl (update_of_ne hne ..)
  | resetState lsn syncSuccessed hpc => exact Or.inl (update_of_ne hne ..)
  | _ => exact Or.inl rfl

section

variable (hstep : Step σ t σ')
include hstep

theorem mem_of_mem_of_ne (hne : u ≠ t) (hmem : u ∈ σ'.syncPaxosQueue) : u ∈ σ.syncPaxosQueue := by
  cases hstep with
  | queueInsert lsn hpc => exact (mem_syncPaxosQueueInsert.mp hmem).resolve_left hne
  | cancelDelete lsn hpc hattached => exact mem_of_mem_erase hmem
  | wakeDelete proc hpc hle => exact mem_of_mem_erase hmem
  | _ => exact hmem

theorem mem_or_reached_of_ne (hne : u ≠ t) (hmem : u ∈ σ.syncPaxosQueue)
    : u ∈ σ'.syncPaxosQueue ∨ σ.waitPaxosLSN u ≤ σ'.paxosLsn := by
  cases hstep with
  | queueInsert lsn hpc => exact Or.inl (mem_syncPaxosQueueInsert.mpr (Or.inr hmem))
  | cancelDelete lsn hpc hattached => exact Or.inl ((mem_erase_of_ne hne).mpr hmem)
  | wakeDelete proc hpc hle =>
    by_cases heq : u = proc
    . rw [heq]
      exact Or.inr (Nat.le_of_not_lt hle)
    . exact Or.inl ((mem_erase_of_ne heq).mpr hmem)
  | _ => exact Or.inl hmem

theorem eq_of_not_inLock (hlock : ¬ (σ.pc t).InLock)
    : σ'.syncPaxosQueue = σ.syncPaxosQueue ∧ σ'.paxosLsn = σ.paxosLsn := by
  cases hstep <;> grind [Pc.InLock]

theorem waits_step (hlock : σ.syncPaxosLock ≠ none) (hwaits : (σ.pc u).Waits)
    (hstate : σ.syncPaxosState u = .waiting)
    : (σ'.pc u).Waits := by
  by_cases hut : u = t
  . rw [hut] at hwaits hstate ⊢
    cases hstep <;> grind [Pc.Waits]
  . rw [pc_of_ne hstep hut]
    exact hwaits

end

theorem waiting_of_waits (h : Inv σ) (hstep : Step σ t σ') (hlock : ¬ (σ.pc t).InLock)
    (hwaits : (σ.pc u).Waits)
    (hstate : σ.syncPaxosState u = .waiting)
    : σ'.syncPaxosState u = .waiting := by
  by_cases hut : u = t
  . rw [hut] at hwaits hstate ⊢
    cases hstep <;> grind [Pc.Waits, Pc.InLock]
  . rcases syncPaxosState_of_ne h hstep hut with heq | hbusy
    . rw [heq, hstate]
    . exact absurd hbusy.right hlock

theorem knows_of_not_inLock (h : Inv σ) (hstep : Step σ t σ') (hne : u ≠ t) (hlock : ¬ (σ.pc u).InLock)
    : σ'.Knows u := by
  have hknows := h.knows u
  have hwaitLsn := waitPaxosLSN_of_ne hstep hne
  have hle := paxosLsn_le hstep
  have hstate := syncPaxosState_of_ne h hstep hne
  have hnotMem := mem_of_mem_of_ne hstep hne
  have hmem := mem_or_reached_of_ne hstep hne
  unfold PaxosState.Knows at hknows ⊢
  rw [pc_of_ne hstep hne]
  cases hpc : σ.pc u <;> grind [PaxosState.Outside, Pc.InLock, Pc.Waits]

theorem knows_of_inLock (h : Inv σ) (hstep : Step σ t σ') (hne : u ≠ t) (hlock : (σ.pc u).InLock)
    : σ'.Knows u := by
  have hfree : ¬ (σ.pc t).InLock := fun ht => hne (h.holder ht hlock)
  have hheld : σ.syncPaxosLock ≠ none := by
    rw [(h.lock u).mp hlock]
    exact Option.some_ne_none u
  have hknows := h.knows u
  have hwaitLsn := waitPaxosLSN_of_ne hstep hne
  obtain ⟨hqueue, hpaxos⟩ := eq_of_not_inLock hstep hfree
  have hstate : σ'.syncPaxosState u = σ.syncPaxosState u :=
    (syncPaxosState_of_ne h hstep hne).resolve_right fun hbusy => hfree hbusy.right
  have hwaits : ∀ v, (σ.pc v).Waits → σ.syncPaxosState v = .waiting → (σ'.pc v).Waits :=
    fun v => waits_step hstep hheld
  have hwaiting : ∀ v, (σ.pc v).Waits → σ.syncPaxosState v = .waiting → σ'.syncPaxosState v = .waiting :=
    fun v => waiting_of_waits h hstep hfree
  unfold PaxosState.Knows at hknows ⊢
  rw [pc_of_ne hstep hne]
  cases hpc : σ.pc u <;> grind [PaxosState.Outside, Pc.InLock, Pc.Waits]

end Other

theorem Step.inv (h : Inv σ) (hstep : Step σ t σ') : Inv σ' where
  lock := lock_step h hstep
  knows u := by
    by_cases hut : u = t
    . rw [hut]
      exact knows_step_self h hstep
    . by_cases hlock : (σ.pc u).InLock
      . exact knows_of_inLock h hstep hut hlock
      . exact knows_of_not_inLock h hstep hut hlock
  sorted := sorted_step h hstep
  nodup := nodup_step h hstep
  waiting_of_mem := waiting_of_mem_step h hstep
  mem_of_waiting := mem_of_waiting_step h hstep
  above := above_step h hstep

theorem Run.inv {σ₀ : PaxosState T} (hinit : σ₀.Initial) (hrun : Run σ₀ σ) : Inv σ :=
  hrun.invariant (fun _ _ _ h hstep => Step.inv h hstep) hinit.inv

end Invariant

section Free

variable {σ : PaxosState T}

theorem Inv.no_holder (h : Inv σ) (hfree : σ.syncPaxosLock = none) (t : T) : ¬ (σ.pc t).InLock := by
  intro ht
  have hlock := (h.lock t).mp ht
  rw [hfree] at hlock
  cases hlock

theorem Inv.mem_iff_waiting (h : Inv σ) (hfree : σ.syncPaxosLock = none) (t : T)
    : t ∈ σ.syncPaxosQueue ↔ σ.syncPaxosState t = .waiting := by
  constructor
  . exact h.waiting_of_mem t
  . intro hstate
    rcases h.mem_of_waiting t hstate with hmem | ⟨u, hmoves⟩
    . exact hmem
    . have hu := h.no_holder hfree u
      cases hpc : σ.pc u <;> simp [hpc, Pc.Moves, Pc.InLock] at hmoves hu

theorem Inv.lt_waitPaxosLSN (h : Inv σ) (hfree : σ.syncPaxosLock = none) {t : T} (ht : t ∈ σ.syncPaxosQueue)
    : σ.paxosLsn < σ.waitPaxosLSN t := by
  rcases h.above t ht with habove | ⟨u, hwakes⟩
  . exact habove
  . have hu := h.no_holder hfree u
    cases hpc : σ.pc u <;> simp [hpc, Pc.Wakes, Pc.InLock] at hwakes hu

end Free

/--
The queue is in order and has the waiting threads whenever the lock is free, `paxosLsn` does not go down, and
a call that returns has left the queue and has succeeded only if its LSN had been reached.
-/
theorem syncPaxosWaitForLSN_safe [DecidableEq T] {σ₀ σ : PaxosState T} (hinit : σ₀.Initial) (hrun : Run σ₀ σ)
    : (σ.syncPaxosLock = none →
        Sorted σ.waitPaxosLSN σ.syncPaxosQueue ∧ σ.syncPaxosQueue.Nodup ∧
          (∀ t, t ∈ σ.syncPaxosQueue ↔ σ.syncPaxosState t = .waiting) ∧
          ∀ t ∈ σ.syncPaxosQueue, σ.paxosLsn < σ.waitPaxosLSN t) ∧
      (∀ σ', Run σ σ' → σ.paxosLsn ≤ σ'.paxosLsn) ∧
      (∀ t lsn, σ.pc t = .returned lsn true → lsn ≤ σ.paxosLsn) ∧
      ∀ t lsn syncSuccessed, σ.pc t = .returned lsn syncSuccessed →
        t ∉ σ.syncPaxosQueue ∧ σ.syncPaxosState t = .notWaiting := by
  have h := Run.inv hinit hrun
  refine ⟨?_, ?_, ?_, ?_⟩
  . intro hfree
    exact ⟨h.sorted, h.nodup, h.mem_iff_waiting hfree, fun t ht => h.lt_waitPaxosLSN hfree ht⟩
  . intro σ' hrun'
    exact hrun'.monotone (f := PaxosState.paxosLsn) (fun _ _ _ h hstep => Step.inv h hstep)
      (fun _ _ _ _ hstep => paxosLsn_le hstep) h
  . intro t lsn hpc
    have hknows := h.knows t
    unfold PaxosState.Knows at hknows
    rw [hpc] at hknows
    exact hknows.right rfl
  . intro t lsn syncSuccessed hpc
    have hknows := h.knows t
    unfold PaxosState.Knows at hknows
    rw [hpc] at hknows
    exact hknows.left

theorem run_released
    : ∃ σ₀ σ : PaxosState Bool, σ₀.Initial ∧ Run σ₀ σ ∧ σ.pc false = .returned 5 true ∧
        σ.syncPaxosLock = none ∧ σ.paxosLsn = 7 := by
  let σ₀ : PaxosState Bool :=
    { paxosLsn := 3, syncPaxosQueue := [], syncPaxosLock := none, waitPaxosLSN := fun _ => 0,
      syncPaxosState := fun _ => .notWaiting, pc := fun _ => .idle }
  have hinit : σ₀.Initial := ⟨rfl, rfl, fun _ => rfl, fun _ => rfl⟩
  have hrun : Run σ₀ _ := Interleaving.Run.single false (Step.callWaitForLSN 5 rfl)
  have hrun := hrun.step false (Step.acquireWait 5 rfl rfl)
  have hrun := hrun.step false (Step.setWaitLsn 5 rfl (by decide))
  have hrun := hrun.step true (Step.callReleaseWaiters 7 rfl)
  have hrun := hrun.step false (Step.setWaiting 5 rfl)
  have hrun := hrun.step false (Step.queueInsert 5 rfl)
  have hrun := hrun.step false (Step.releaseInserted 5 rfl)
  have hrun := hrun.step true (Step.acquireRelease 7 rfl rfl)
  have hrun := hrun.step true (Step.setPaxosLsn 7 rfl (by decide))
  have hrun := hrun.step true (Step.wakeDelete false rfl (by decide))
  have hrun := hrun.step true (Step.wakeComplete false none rfl)
  have hrun := hrun.step false (Step.testComplete 5 rfl rfl)
  have hrun := hrun.step true (Step.wakeEnd rfl)
  have hrun := hrun.step false (Step.resetState 5 true rfl)
  have hrun := hrun.step true (Step.releaseWaiters rfl)
  have hrun := hrun.step false (Step.resetLsn 5 true rfl)
  exact ⟨σ₀, _, hinit, hrun, rfl, rfl, rfl⟩

theorem syncPaxosWaitForLSN_safe_released
    : ∃ σ : PaxosState Bool, σ.pc false = .returned 5 true ∧ 5 ≤ σ.paxosLsn ∧
        (false ∉ σ.syncPaxosQueue ∧ σ.syncPaxosState false = .notWaiting) ∧
        Sorted σ.waitPaxosLSN σ.syncPaxosQueue ∧ ∀ σ', Run σ σ' → σ.paxosLsn ≤ σ'.paxosLsn := by
  obtain ⟨σ₀, σ, hinit, hrun, hpc, hfree, _⟩ := run_released
  obtain ⟨hqueue, hmono, hreached, hleft⟩ := syncPaxosWaitForLSN_safe hinit hrun
  exact ⟨σ, hpc, hreached false 5 hpc, hleft false 5 true hpc, (hqueue hfree).left, hmono⟩

end SyncPaxos

import OpenGauss.Mot.Occ.Protocol

/-!
This module shows that every step of a transaction keeps the invariant.
-/

open List Function

namespace Mot.Occ

variable {S T D : Type} [LinearOrder S]
variable {σ₀ σ σ' : OccState S T D} {t : T} {rest : List (Access S D)}

section Release

@[simp]
theorem contents_setLock (σ : OccState S T D) (s u : S) (lock : Option T)
    : ((σ.setLock s lock).header u).contents = (σ.header u).contents := by
  rw [OccState.setLock]
  dsimp only
  rw [update_apply]
  split
  . rename_i h
    rw [h]
    rfl
  . rfl

theorem lock_setLock (σ : OccState S T D) (s u : S) (lock : Option T)
    : ((σ.setLock s lock).header u).lock = if u = s then lock else (σ.header u).lock := by
  rw [OccState.setLock]
  dsimp only
  rw [update_apply]
  split
  . rfl
  . rfl

theorem releaseHeaderLocks_spec (σ : OccState S T D) (locks : List S)
    : (σ.releaseHeaderLocks locks).csn = σ.csn ∧ (σ.releaseHeaderLocks locks).txns = σ.txns ∧
      (σ.releaseHeaderLocks locks).history = σ.history ∧
      ∀ u, ((σ.releaseHeaderLocks locks).header u).contents = (σ.header u).contents ∧
        ((σ.releaseHeaderLocks locks).header u).lock = if u ∈ locks then none else (σ.header u).lock := by
  induction locks generalizing σ with
  | nil => exact ⟨rfl, rfl, rfl, fun u => ⟨rfl, by simp [OccState.releaseHeaderLocks]⟩⟩
  | cons s rest ih =>
    obtain ⟨hcsn, htxns, hhistory, hheader⟩ := ih (σ.setLock s none)
    refine ⟨hcsn, htxns, hhistory, ?_⟩
    intro u
    obtain ⟨hcontents, hlock⟩ := hheader u
    rw [OccState.releaseHeaderLocks, hcontents, hlock, contents_setLock, lock_setLock]
    refine ⟨rfl, ?_⟩
    by_cases hrest : u ∈ rest
    . simp [hrest]
    . by_cases hs : u = s <;> simp [hrest, hs]

end Release

section SameView

variable {access : Access S D}

structure SameView (σ : OccState S T D) (t : T) (σ' : OccState S T D) : Prop where
  orderedSet : (σ'.txns t).orderedSet = (σ.txns t).orderedSet
  writeSetSize : (σ'.txns t).writeSetSize = (σ.txns t).writeSetSize
  insertSetSize : (σ'.txns t).insertSetSize = (σ.txns t).insertSetSize
  contents : ∀ s, (σ'.header s).contents = (σ.header s).contents
  history : σ'.history = σ.history
  csn : σ.csn ≤ σ'.csn

namespace SameView

variable (h : SameView σ t σ')

include h

theorem accesses : σ'.accesses t = σ.accesses t := by
  rw [OccState.accesses, h.orderedSet]
  rfl

theorem valid (hvalid : Valid σ access) : Valid σ' access := by
  rw [Valid] at hvalid ⊢
  rw [← hvalid]
  exact Sentinel.apply_of_contents (h.contents _) (quickHeaderValidation access) (fun _ => rfl)

theorem pending {csn : Nat} (hpending : Pending σ csn access)
    : Pending σ' csn access where
  valid := h.valid hpending.valid
  below := by
    rw [Below, h.history]
    exact hpending.below

theorem pendingInsert {csn : Nat} (hpending : PendingInsert σ csn access)
    : PendingInsert σ' csn access where
  pending := h.pending hpending.pending
  linked := by
    rw [Sentinel.apply_of_contents (h.contents _) Sentinel.indexOrder (fun _ => rfl)]
    exact hpending.linked

theorem recorded (hrecorded : Recorded σ t access) : Recorded σ' t access :=
  hrecorded.mono (by simp [h.history])

theorem outcome {rc : RC} (houtcome : Outcome σ t rc) : Outcome σ' t rc := by
  rw [Outcome] at houtcome ⊢
  split at houtcome
  . rename_i hok
    rw [if_pos hok, h.accesses]
    exact fun a ha => h.recorded (houtcome a ha)
  . rename_i hok
    rw [if_neg hok, Quiet, h.history]
    exact houtcome

theorem prepared (hprepared : Prepared (σ.txns t)) : Prepared (σ'.txns t) where
  writes := by
    rw [h.orderedSet]
    exact hprepared.writes
  writeSetSize := by
    rw [h.orderedSet, h.writeSetSize]
    exact hprepared.writeSetSize
  insertSetSize := by
    rw [h.orderedSet, h.insertSetSize]
    exact hprepared.insertSetSize

theorem phaseInv {phase : Phase S D} (hphase : PhaseInv σ₀ σ t phase) : PhaseInv σ₀ σ' t phase := by
  have hquiet : Quiet σ t → Quiet σ' t := by
    rw [Quiet, Quiet, h.history]
    exact id
  cases phase with
  | running => exact hquiet hphase
  | locking n rest sleepTime =>
    obtain ⟨hprepared, hq, locked, hsplit, hlength, hvalid⟩ := hphase
    exact ⟨h.prepared hprepared, hquiet hq, locked, h.accesses.trans hsplit, hlength,
      fun a ha => h.valid (hvalid a ha)⟩
  | validating n | reserving n =>
    obtain ⟨hprepared, hq, hlength, hvalid⟩ := hphase
    refine ⟨h.prepared hprepared, hquiet hq, ?_, ?_⟩
    . rw [h.accesses]
      exact hlength
    . rw [h.accesses]
      exact fun a ha => h.valid (hvalid a ha)
  | validated =>
    obtain ⟨hprepared, hq, hvalid⟩ := hphase
    refine ⟨h.prepared hprepared, hquiet hq, ?_⟩
    rw [h.accesses]
    exact fun a ha => h.valid (hvalid a ha)
  | writingGlobal csn rest =>
    obtain ⟨hprepared, written, hwriting⟩ := hphase
    refine ⟨h.prepared hprepared, written, ?_⟩
    exact
      { csn_le := hwriting.csn_le
        csn_lt := lt_of_lt_of_le hwriting.csn_lt h.csn
        split := h.accesses.trans hwriting.split
        rest := fun a ha => h.pending (hwriting.rest a ha)
        inserts := fun a ha hinsert => h.pendingInsert (hwriting.inserts a ha hinsert)
        recorded := fun a ha hinsert => h.recorded (hwriting.recorded a ha hinsert) }
  | writingSentinels csn rest =>
    obtain ⟨hprepared, written, hwriting⟩ := hphase
    refine ⟨h.prepared hprepared, written, ?_⟩
    exact
      { csn_le := hwriting.csn_le
        csn_lt := lt_of_lt_of_le hwriting.csn_lt h.csn
        split := h.accesses.trans hwriting.split
        inserts := fun a ha hinsert => h.pendingInsert (hwriting.inserts a ha hinsert)
        recorded := fun a ha => h.recorded (hwriting.recorded a ha)
        others := fun a ha hinsert => h.recorded (hwriting.others a ha hinsert) }
  | releasing pending rc => exact ⟨hphase.1, h.outcome hphase.2⟩
  | finished rc => exact h.outcome hphase

theorem txnInv (hinv : TxnInv σ₀ σ t) (hlock : ∀ s, (σ'.header s).lock = some t ↔ s ∈ held (σ'.txns t))
    (hphase : PhaseInv σ₀ σ' t (σ'.txns t).phase) : TxnInv σ₀ σ' t where
  access := by
    rw [h.accesses]
    exact fun a ha => (hinv.access a ha).grows (Sentinel.Grows.of_contents (h.contents _))
  lock := hlock
  phase := hphase

theorem frame (htxns : ∀ u, u ≠ t → σ'.txns u = σ.txns u)
    (hlock : ∀ s, (σ'.header s).lock = (σ.header s).lock ∨
      ((σ.header s).lock = none ∨ (σ.header s).lock = some t) ∧
        ((σ'.header s).lock = none ∨ (σ'.header s).lock = some t)) : Frame σ t σ' where
  txns := htxns
  csn := h.csn
  lock u hu s := by
    rcases hlock s with heq | ⟨hbefore, hafter⟩
    . rw [heq]
    . have hne : some t ≠ some u := fun heq => hu (Option.some.inj heq).symm
      rcases hbefore with hbefore | hbefore <;> rcases hafter with hafter | hafter <;>
        simp [hbefore, hafter, hne]
  header u hu s hown := by
    have hsame : (σ'.header s).lock = (σ.header s).lock := by
      rcases hlock s with heq | ⟨hbefore, _⟩
      . exact heq
      . rw [hown] at hbefore
        rcases hbefore with hbefore | hbefore
        . simp at hbefore
        . rw [Option.some.injEq] at hbefore
          exact absurd hbefore hu
    have hcontents := h.contents s
    have hself : ∀ header : Sentinel S T D, header = { header.contents with lock := header.lock } :=
      fun _ => rfl
    rw [hself (σ'.header s), hself (σ.header s), hcontents, hsame]
  grows s := Sentinel.Grows.of_contents (h.contents s)
  history := ⟨[], h.history, by simp⟩

end SameView

theorem Inv.of_own (hinv : Inv σ₀ σ) (hchains : Chains σ₀ σ') (hframe : Frame σ t σ')
    (hown : TxnInv σ₀ σ' t) : Inv σ₀ σ' where
  chains := hchains
  txn u := by
    by_cases hu : u = t
    . rw [hu]
      exact hown
    . exact hframe.txnInv hu (hinv.txn u)

theorem Inv.of_view (hinv : Inv σ₀ σ) (hview : SameView σ t σ') (htxns : ∀ u, u ≠ t → σ'.txns u = σ.txns u)
    (hlocks : ∀ s, (σ'.header s).lock = (σ.header s).lock ∨
      ((σ.header s).lock = none ∨ (σ.header s).lock = some t) ∧
        ((σ'.header s).lock = none ∨ (σ'.header s).lock = some t))
    (hlock : ∀ s, (σ'.header s).lock = some t ↔ s ∈ held (σ'.txns t))
    (hphase : PhaseInv σ₀ σ' t (σ'.txns t).phase) : Inv σ₀ σ' :=
  hinv.of_own (hinv.chains.same hview.contents hview.history hview.csn) (hview.frame htxns hlocks)
    (hview.txnInv (hinv.txn t) hlock hphase)

theorem SameView.refl (σ : OccState S T D) (t : T) : SameView σ t σ where
  orderedSet := rfl
  writeSetSize := rfl
  insertSetSize := rfl
  contents _ := rfl
  history := rfl
  csn := le_refl _

theorem SameView.setLock (σ : OccState S T D) (t : T) (s : S) (lock : Option T)
    : SameView σ t (σ.setLock s lock) where
  orderedSet := rfl
  writeSetSize := rfl
  insertSetSize := rfl
  contents u := contents_setLock σ s u lock
  history := rfl
  csn := le_refl _

theorem SameView.releaseHeaderLocks (σ : OccState S T D) (t : T) (locks : List S)
    : SameView σ t (σ.releaseHeaderLocks locks) := by
  obtain ⟨hcsn, htxns, hhistory, hheader⟩ := releaseHeaderLocks_spec σ locks
  constructor
  . rw [htxns]
  . rw [htxns]
  . rw [htxns]
  . exact fun u => (hheader u).1
  . exact hhistory
  . exact hcsn.ge

section SetPhase

variable [DecidableEq T]

theorem setPhase_txns (σ : OccState S T D) (t : T) (phase : Phase S D)
    : (σ.setPhase t phase).txns t = { σ.txns t with phase } := by
  rw [OccState.setPhase]
  exact update_self _ _ _

theorem setPhase_txns_of_ne (σ : OccState S T D) {t u : T} (phase : Phase S D) (hu : u ≠ t)
    : (σ.setPhase t phase).txns u = σ.txns u := by
  rw [OccState.setPhase]
  exact update_of_ne hu _ _

theorem SameView.setPhase (hview : SameView σ t σ') (phase : Phase S D)
    : SameView σ t (σ'.setPhase t phase) := { hview with
  orderedSet := by rw [setPhase_txns]; exact hview.orderedSet
  writeSetSize := by rw [setPhase_txns]; exact hview.writeSetSize
  insertSetSize := by rw [setPhase_txns]; exact hview.insertSetSize }

theorem Inv.setPhase (hinv : Inv σ₀ σ) {phase : Phase S D}
    (hheld : held { σ.txns t with phase } = held (σ.txns t)) (hphase : PhaseInv σ₀ σ t phase)
    : Inv σ₀ (σ.setPhase t phase) := by
  have hview := (SameView.refl σ t).setPhase phase
  refine hinv.of_view hview (fun u hu => setPhase_txns_of_ne σ phase hu) (fun _ => .inl rfl) ?_ ?_
  . intro s
    rw [setPhase_txns, hheld]
    exact (hinv.txn t).lock s
  . rw [setPhase_txns]
    exact hview.phaseInv hphase

end SetPhase

end SameView

section Prepare

variable [DecidableEq T]

variable (hinv : Inv σ₀ σ)
include hinv

theorem Inv.setTxn {txn : Txn S D} (hheldBefore : held (σ.txns t) = []) (hheld : held txn = [])
    (haccess : ∀ a ∈ txn.orderedSet.accesses, a.WellFormed (σ.header a.origSentinel))
    (hphase : ∀ σ' : OccState S T D, σ'.txns t = txn → σ'.history = σ.history → PhaseInv σ₀ σ' t txn.phase)
    : Inv σ₀ { σ with txns := Function.update σ.txns t txn } := by
  have htxn : Function.update σ.txns t txn t = txn := update_self _ _ _
  have hchains : Chains σ₀ { σ with txns := Function.update σ.txns t txn } :=
    hinv.chains.same (fun _ => rfl) rfl (le_refl _)
  apply hinv.of_own hchains
  . exact
      { txns := fun u hu => update_of_ne hu _ _
        csn := le_refl _
        lock := fun _ _ _ => Iff.rfl
        header := fun _ _ _ _ => rfl
        grows := fun _ => Sentinel.Grows.of_contents rfl
        history := ⟨[], rfl, by simp⟩ }
  . constructor
    case access =>
      rw [OccState.accesses]
      dsimp only
      rw [htxn]
      exact haccess
    case lock =>
      intro s
      have hlock := (hinv.txn t).lock s
      rw [hheldBefore] at hlock
      dsimp only
      rw [htxn, hheld]
      exact hlock
    case phase =>
      dsimp only
      rw [htxn]
      exact hphase _ htxn rfl

variable (hphase : (σ.txns t).phase = .running)
include hphase

theorem Inv.access {set : TxnOrderedSet S D}
    (hstep : AccessStep σ.header (σ.txns t).orderedSet set) : Inv σ₀ (σ.setSet t set) := by
  have hown := hinv.txn t
  have hquiet := hown.phase
  rw [hphase] at hquiet
  apply hinv.setTxn
  . rw [held, hphase]
  . rw [held]
    dsimp only
    rw [hphase]
  . exact hstep.wellFormed hown.access
  . intro σ' _ hhistory
    dsimp only
    rw [hphase]
    change Quiet σ' t
    rw [Quiet, hhistory]
    exact hquiet

theorem Inv.validateOcc (flags : OccFlags) : Inv σ₀ (σ.validateOcc flags t) := by
  have hown := hinv.txn t
  have hquiet := hown.phase
  rw [hphase] at hquiet
  have hbefore : held (σ.txns t) = [] := by rw [held, hphase]
  have hquiet' : ∀ σ' : OccState S T D, σ'.history = σ.history → Quiet σ' t := by
    intro σ' hhistory
    rw [Quiet, hhistory]
    exact hquiet
  rw [OccState.validateOcc]
  dsimp only
  split
  . rename_i hempty
    apply hinv.setTxn hbefore
    . simp [held, hempty]
    . exact hown.access
    . intro σ' htxn hhistory
      refine ⟨?_, hquiet' σ' hhistory, ?_⟩
      . rw [htxn]
        exact ⟨by simp [hempty], by simp [hempty], by simp [hempty]⟩
      . rw [OccState.accesses, htxn]
        simp [hempty]
  . have hsub := preAbortCheck_sublist flags.preAbort σ.header (σ.txns t).orderedSet.accesses
    cases hok : (preAbortCheck flags.preAbort σ.header (σ.txns t).orderedSet.accesses).ok with
    | true =>
      obtain ⟨hwrites, hsize, hinserts⟩ := preAbortCheck_spec _ _ _ hok
      apply hinv.setTxn hbefore
      . rfl
      . exact fun a ha => hown.access a (hsub.subset ha)
      . intro σ' htxn hhistory
        refine ⟨?_, hquiet' σ' hhistory, [], ?_, rfl, by simp⟩
        . rw [htxn]
          exact ⟨hwrites, hsize, hinserts⟩
        . rw [OccState.accesses, htxn]
          rfl
    | false =>
      apply hinv.setTxn hbefore
      . rfl
      . exact fun a ha => hown.access a (hsub.subset ha)
      . intro σ' _ hhistory
        refine ⟨nodup_nil, ?_⟩
        rw [Outcome, if_neg (by simp)]
        exact hquiet' σ' hhistory

end Prepare

section Locking

theorem Prepared.headerLocks_eq (h : Prepared (σ.txns t)) (n : Nat)
    : headerLocks (σ.accesses t) n = ((σ.accesses t).take n).map Access.origSentinel :=
  Occ.headerLocks_eq (fun a ha => (h.writes a ha).1) n

theorem nodup_take (σ : OccState S T D) (t : T) (n : Nat)
    : (((σ.accesses t).take n).map Access.origSentinel).Nodup :=
  (((take_sublist n _).map Access.origSentinel).nodup) (σ.txns t).orderedSet.nodup_origSentinel

theorem outcome_of_quiet {rc : RC} (hquiet : Quiet σ t) (hrc : rc ≠ .RC_OK) : Outcome σ t rc := by
  rw [Outcome, if_neg hrc]
  exact hquiet

variable [DecidableEq T]

variable (hinv : Inv σ₀ σ)
include hinv

theorem Inv.tryLock {n sleepTime : Nat} {access : Access S D}
    (hphase : (σ.txns t).phase = .locking n (access :: rest) sleepTime)
    (hfree : (σ.header access.origSentinel).lock = none)
    : Inv σ₀ (σ.lockHeader t n access rest sleepTime) := by
  have hown := hinv.txn t
  have hlocks := hown.lock
  have hfacts := hown.phase
  rw [hphase] at hfacts
  obtain ⟨hprepared, hquiet, locked, hsplit, hlength, hvalid⟩ := hfacts
  have hview := SameView.setLock σ t access.origSentinel (some t)
  have htake : (σ.accesses t).take (n + 1) = locked ++ [access] := by
    rw [hsplit, ← hlength, take_length_add_append]
    rfl
  have hheld : held (σ.txns t) = locked.map Access.origSentinel := by
    rw [held, hphase]
    change ((σ.accesses t).take n).map Access.origSentinel = _
    rw [hsplit, ← hlength, take_left]
  have hheaders : headerLocks (σ.accesses t) (n + 1) = (locked ++ [access]).map Access.origSentinel := by
    rw [hprepared.headerLocks_eq, htake]
  have hlock : ∀ s, ((σ.setLock access.origSentinel (some t)).header s).lock = some t ↔
      s ∈ (locked ++ [access]).map Access.origSentinel := by
    intro s
    rw [lock_setLock, map_append, mem_append, ← hheld, ← hlocks]
    split
    . rename_i hs
      simp [hs]
    . rename_i hs
      simp [hs]
  have hchange : ∀ s, ((σ.setLock access.origSentinel (some t)).header s).lock = (σ.header s).lock ∨
      ((σ.header s).lock = none ∨ (σ.header s).lock = some t) ∧
        (((σ.setLock access.origSentinel (some t)).header s).lock = none ∨
          ((σ.setLock access.origSentinel (some t)).header s).lock = some t) := by
    intro s
    rw [lock_setLock]
    split
    . rename_i hs
      rw [hs, hfree]
      exact .inr ⟨.inl rfl, .inr rfl⟩
    . exact .inl rfl
  rw [OccState.lockHeader]
  split
  . rename_i hcheck
    refine hinv.of_view (hview.setPhase _) (fun u hu => setPhase_txns_of_ne _ _ hu) hchange ?_ ?_
    . intro s
      rw [setPhase_txns, held]
      dsimp only
      change _ ↔ s ∈ ((σ.accesses t).take (n + 1)).map Access.origSentinel
      rw [htake]
      exact hlock s
    . rw [setPhase_txns]
      apply (hview.setPhase _).phaseInv
      refine ⟨hprepared, hquiet, locked ++ [access], ?_, by simp [hlength], ?_⟩
      . rw [hsplit, append_assoc]
        rfl
      . intro a ha
        rcases mem_append.1 ha with ha | ha
        . exact hvalid a ha
        . rw [mem_singleton.1 ha]
          rw [Valid, ← hcheck]
          exact (Sentinel.apply_of_contents (contents_setLock σ _ _ _) (quickHeaderValidation access)
            (fun _ => rfl)).symm
  . refine hinv.of_view (hview.setPhase _) (fun u hu => setPhase_txns_of_ne _ _ hu) hchange ?_ ?_
    . intro s
      rw [setPhase_txns, held]
      dsimp only
      rw [hheaders]
      exact hlock s
    . rw [setPhase_txns]
      apply (hview.setPhase _).phaseInv
      refine ⟨?_, outcome_of_quiet hquiet (by simp)⟩
      rw [hprepared.headerLocks_eq]
      exact nodup_take σ t _

theorem Inv.endOfTurn {n sleepTime : Nat}
    (hphase : (σ.txns t).phase = .locking n rest sleepTime) (flags : OccFlags)
    (hend : rest = [] ∨ flags.validationNoWait = true) : Inv σ₀ (σ.endOfTurn flags t n sleepTime) := by
  have hown := hinv.txn t
  have hlocks := hown.lock
  have hfacts := hown.phase
  rw [hphase] at hfacts
  obtain ⟨hprepared, hquiet, locked, hsplit, hlength, hvalid⟩ := hfacts
  have hheaders : headerLocks (σ.accesses t) n = held (σ.txns t) := by
    rw [hprepared.headerLocks_eq, held, hphase]
    rfl
  have hsize : (σ.txns t).writeSetSize = locked.length + rest.length := by
    rw [hprepared.writeSetSize]
    change (σ.accesses t).length = _
    rw [hsplit, length_append]
  have hview := SameView.releaseHeaderLocks σ t (headerLocks (σ.accesses t) n)
  obtain ⟨_, htxns, _, hheader⟩ := releaseHeaderLocks_spec σ (headerLocks (σ.accesses t) n)
  have hreleased : ∀ s, ¬((σ.releaseHeaderLocks (headerLocks (σ.accesses t) n)).header s).lock = some t := by
    intro s hlock
    rw [(hheader s).2] at hlock
    split at hlock
    . simp at hlock
    . rename_i hs
      rw [hheaders] at hs
      exact hs ((hlocks s).1 hlock)
  have hchange : ∀ s,
      ((σ.releaseHeaderLocks (headerLocks (σ.accesses t) n)).header s).lock = (σ.header s).lock ∨
      ((σ.header s).lock = none ∨ (σ.header s).lock = some t) ∧
        (((σ.releaseHeaderLocks (headerLocks (σ.accesses t) n)).header s).lock = none ∨
          ((σ.releaseHeaderLocks (headerLocks (σ.accesses t) n)).header s).lock = some t) := by
    intro s
    rw [(hheader s).2]
    split
    . rename_i hs
      rw [hheaders] at hs
      exact .inr ⟨.inr ((hlocks s).2 hs), .inl rfl⟩
    . exact .inl rfl
  have hnext : ∀ phase : Phase S D,
      (phase = .locking 0 (σ.accesses t) (sleepTime <<< 1) ∨ phase = .releasing [] .RC_ABORT) →
      Inv σ₀ ((σ.releaseHeaderLocks (headerLocks (σ.accesses t) n)).setPhase t phase) := by
    intro phase hcase
    refine hinv.of_view (hview.setPhase _) ?_ hchange ?_ ?_
    . intro u hu
      rw [setPhase_txns_of_ne _ _ hu, htxns]
    . intro s
      have hnone : held { σ.txns t with phase } = [] := by
        rcases hcase with rfl | rfl
        . rfl
        . rfl
      rw [setPhase_txns, htxns, hnone]
      simp only [not_mem_nil, iff_false]
      exact hreleased s
    . rw [setPhase_txns, htxns]
      apply (hview.setPhase _).phaseInv
      rcases hcase with rfl | rfl
      . exact ⟨hprepared, hquiet, [], rfl, rfl, by simp⟩
      . exact ⟨nodup_nil, outcome_of_quiet hquiet (by simp)⟩
  rw [OccState.endOfTurn]
  split
  . dsimp only
    split
    . exact hnext _ (.inr rfl)
    . split
      . exact hnext _ (.inr rfl)
      . exact hnext _ (.inl rfl)
  . rename_i hdone
    have hall : rest = [] := by
      rcases hend with hend | hend
      . exact hend
      . rw [hend, hsize, hlength] at hdone
        simp at hdone
        exact hdone
    rw [hall, append_nil] at hsplit
    apply hinv.setPhase
    . rw [held, held, hphase]
      dsimp only
      rw [← hlength, ← hsplit]
      change _ = ((σ.accesses t).take (σ.accesses t).length).map _
      rw [take_length]
      rfl
    . refine ⟨hprepared, hquiet, ?_, ?_⟩
      . rw [hsplit, hlength]
      . rw [hsplit]
        exact hvalid

theorem Inv.giveUp {n : Nat} {rc : RC}
    (hphase : (σ.txns t).phase = .validating n ∨ (σ.txns t).phase = .reserving n) (hrc : rc ≠ .RC_OK)
    : Inv σ₀ (σ.setPhase t (.releasing (headerLocks (σ.accesses t) n) rc)) := by
  have hown := hinv.txn t
  have hfacts := hown.phase
  have hall : Prepared (σ.txns t) ∧ Quiet σ t ∧ n = (σ.accesses t).length ∧
      held (σ.txns t) = (σ.accesses t).map Access.origSentinel := by
    rcases hphase with hphase | hphase
    . rw [hphase] at hfacts
      exact ⟨hfacts.1, hfacts.2.1, hfacts.2.2.1, by rw [held, hphase]; rfl⟩
    . rw [hphase] at hfacts
      exact ⟨hfacts.1, hfacts.2.1, hfacts.2.2.1, by rw [held, hphase]; rfl⟩
  obtain ⟨hprepared, hquiet, hlength, hheld⟩ := hall
  have hheaders : headerLocks (σ.accesses t) n = (σ.accesses t).map Access.origSentinel := by
    rw [hprepared.headerLocks_eq, hlength, take_length]
  apply hinv.setPhase
  . rw [hheld]
    exact hheaders
  . refine ⟨?_, outcome_of_quiet hquiet hrc⟩
    rw [hheaders]
    exact (σ.txns t).orderedSet.nodup_origSentinel

theorem Inv.validate {n : Nat} (hphase : (σ.txns t).phase = .validating n)
    : Inv σ₀ (σ.validate t n) := by
  rw [OccState.validate]
  split
  . have hfacts := (hinv.txn t).phase
    rw [hphase] at hfacts
    apply hinv.setPhase
    . rw [held, held, hphase]
    . exact hfacts
  . exact hinv.giveUp (.inl hphase) (by simp)

theorem Inv.reserve {n : Nat} (hphase : (σ.txns t).phase = .reserving n)
    (reserved : Bool) : Inv σ₀ (σ.reserve t n reserved) := by
  rw [OccState.reserve]
  split
  . have hfacts := (hinv.txn t).phase
    rw [hphase] at hfacts
    apply hinv.setPhase
    . rw [held, held, hphase]
    . exact ⟨hfacts.1, hfacts.2.1, hfacts.2.2.2⟩
  . exact hinv.giveUp (.inr hphase) (by simp)

theorem Inv.unlock {s : S} {rest : List S} {rc : RC}
    (hphase : (σ.txns t).phase = .releasing (s :: rest) rc) : Inv σ₀ (σ.unlock t s rest rc) := by
  have hown := hinv.txn t
  have hlocks := hown.lock
  have hfacts := hown.phase
  rw [hphase] at hfacts
  obtain ⟨hnodup, houtcome⟩ := hfacts
  rw [nodup_cons] at hnodup
  have hheld : held (σ.txns t) = s :: rest := by rw [held, hphase]
  have hview := SameView.setLock σ t s none
  refine hinv.of_view (hview.setPhase _) (fun u hu => setPhase_txns_of_ne _ _ hu) ?_ ?_ ?_
  . intro u
    change ((σ.setLock s none).header u).lock = _ ∨ _ ∧ (((σ.setLock s none).header u).lock = _ ∨
      ((σ.setLock s none).header u).lock = _)
    rw [lock_setLock]
    split
    . rename_i hu
      rw [hu]
      exact .inr ⟨.inr ((hlocks s).2 (by simp [hheld])), .inl rfl⟩
    . exact .inl rfl
  . intro u
    rw [OccState.unlock, setPhase_txns]
    change ((σ.setLock s none).header u).lock = _ ↔ u ∈ rest
    rw [lock_setLock]
    split
    . rename_i hu
      simp [hu, hnodup.1]
    . rename_i hu
      rw [hlocks u, hheld]
      simp [hu]
  . rw [OccState.unlock, setPhase_txns]
    apply (hview.setPhase _).phaseInv
    exact ⟨hnodup.2, houtcome⟩

end Locking

section Writing

theorem origSentinel_ne_of_split {access other : Access S D} {written : List (Access S D)}
    (hsplit : σ.accesses t = written ++ access :: rest) (hother : other ∈ written ++ rest)
    : other.origSentinel ≠ access.origSentinel := by
  have hnodup := (σ.txns t).orderedSet.nodup_origSentinel
  change ((σ.accesses t).map Access.origSentinel).Nodup at hnodup
  have hperm : (σ.accesses t).Perm (access :: (written ++ rest)) := by
    rw [hsplit]
    exact perm_middle
  rw [(hperm.map Access.origSentinel).nodup_iff, map_cons, nodup_cons] at hnodup
  intro heq
  rw [← heq] at hnodup
  exact hnodup.1 (mem_map_of_mem hother)

structure WriteStep (σ : OccState S T D) (t : T) (csn : Nat) (s : S) (header' : Sentinel S T D)
    (changes : List (Change S T D)) (σ' : OccState S T D) : Prop where
  header : σ'.header = Function.update σ.header s header'
  history : σ'.history = changes ++ σ.history
  sameCsn : σ'.csn = σ.csn
  txns : ∀ u, u ≠ t → σ'.txns u = σ.txns u
  own : (σ.header s).lock = some t
  grows : (σ.header s).Grows header'
  written : Written t csn s (σ.header s) header' changes

namespace WriteStep

variable {csn : Nat} {s : S} {header' : Sentinel S T D} {changes : List (Change S T D)}
variable (h : WriteStep σ t csn s header' changes σ')

include h

theorem header_of_ne {u : S} (hu : u ≠ s) : σ'.header u = σ.header u := by
  rw [h.header, update_of_ne hu]

theorem header_self : σ'.header s = header' := by
  rw [h.header, update_self]

theorem lock (u : S) : (σ'.header u).lock = (σ.header u).lock := by
  by_cases hu : u = s
  . rw [hu, h.header_self, h.written.lock]
  . rw [h.header_of_ne hu]

theorem frame : Frame σ t σ' where
  txns := h.txns
  csn := h.sameCsn.ge
  lock u _ v := by rw [h.lock]
  header u hu v hlock := by
    apply h.header_of_ne
    intro hv
    rw [hv, h.own, Option.some.injEq] at hlock
    exact hu hlock.symm
  grows u := by
    by_cases hu : u = s
    . rw [hu, h.header_self]
      exact h.grows
    . rw [h.header_of_ne hu]
      exact Sentinel.Grows.of_contents rfl
  history := by
    refine ⟨changes, h.history, ?_⟩
    intro c hc
    obtain ⟨htxn, hsentinel, _⟩ := h.written.change c hc
    rw [hsentinel]
    exact ⟨htxn, h.own⟩

theorem pending {csn' : Nat} {access : Access S D} (hne : access.origSentinel ≠ s)
    (hpending : Pending σ csn' access) : Pending σ' csn' access where
  valid := by
    rw [Valid, h.header_of_ne hne]
    exact hpending.valid
  below := by
    intro c hc hsentinel
    rw [h.history, mem_append] at hc
    rcases hc with hc | hc
    . rw [(h.written.change c hc).2.1] at hsentinel
      exact absurd hsentinel.symm hne
    . exact hpending.below c hc hsentinel

theorem pendingInsert {csn' : Nat} {access : Access S D} (hne : access.origSentinel ≠ s)
    (hpending : PendingInsert σ csn' access) : PendingInsert σ' csn' access where
  pending := h.pending hne hpending.pending
  linked := by
    rw [h.header_of_ne hne]
    exact hpending.linked

theorem recorded {access : Access S D} (hrecorded : Recorded σ t access) : Recorded σ' t access :=
  hrecorded.mono (fun _ => h.frame.mem_history)

theorem chains (hchains : Chains σ₀ σ) (hinit : σ₀.Committed) (hge : σ₀.csn ≤ csn) (hlt : csn < σ.csn)
    (hbelow : Below σ csn s) : Chains σ₀ σ' :=
  hchains.write hinit h.written h.header h.history h.sameCsn hge hlt hbelow

end WriteStep

variable [DecidableEq T]

variable (hinv : Inv σ₀ σ)
include hinv

theorem Inv.getNextCsn (hphase : (σ.txns t).phase = .validated) : Inv σ₀ (σ.getNextCsn t) := by
  have hown := hinv.txn t
  have hfacts := hown.phase
  rw [hphase] at hfacts
  obtain ⟨hprepared, hquiet, hvalid⟩ := hfacts
  have hview : SameView σ t { σ with csn := σ.csn + 1 } :=
    { orderedSet := rfl
      writeSetSize := rfl
      insertSetSize := rfl
      contents := fun _ => rfl
      history := rfl
      csn := Nat.le_succ _ }
  refine hinv.of_view (hview.setPhase _) (fun u hu => setPhase_txns_of_ne _ _ hu) (fun _ => .inl rfl) ?_ ?_
  . intro s
    have hlock := hown.lock s
    rw [held, hphase] at hlock
    rw [OccState.getNextCsn, setPhase_txns, held]
    exact hlock
  . rw [OccState.getNextCsn, setPhase_txns]
    refine ⟨(hview.setPhase _).prepared hprepared, [], ?_⟩
    exact
      { csn_le := hinv.chains.initialCsn
        csn_lt := Nat.lt_succ_self _
        split := (hview.setPhase _).accesses
        rest := fun a ha => (hview.setPhase _).pending ⟨hvalid a ha, fun c hc _ => (hinv.chains.csn c hc).2.1⟩
        inserts := by simp
        recorded := by simp }

theorem Inv.releaseLocks {rc : RC} (hprepared : Prepared (σ.txns t))
    (hheld : held (σ.txns t) = (σ.accesses t).map Access.origSentinel) (houtcome : Outcome σ t rc)
    : Inv σ₀ (σ.releaseLocks t rc) := by
  have hsize : (σ.txns t).writeSetSize = (σ.accesses t).length := hprepared.writeSetSize
  have hheaders : headerLocks (σ.accesses t) (σ.txns t).writeSetSize
      =
    (σ.accesses t).map Access.origSentinel := by
    rw [hprepared.headerLocks_eq, hsize, take_length]
  apply hinv.setPhase
  . rw [hheld]
    exact hheaders
  . refine ⟨?_, houtcome⟩
    rw [hheaders]
    exact (σ.txns t).orderedSet.nodup_origSentinel

theorem Inv.startSentinels {csn : Nat}
    (hphase : (σ.txns t).phase = .writingGlobal csn []) : Inv σ₀ (σ.startSentinels t csn) := by
  have hfacts := (hinv.txn t).phase
  rw [hphase] at hfacts
  obtain ⟨hprepared, written, hwriting⟩ := hfacts
  have hsplit : σ.accesses t = written := by rw [hwriting.split, append_nil]
  apply hinv.setPhase
  . rw [held, held, hphase]
  . refine ⟨hprepared, ?_⟩
    split
    . refine ⟨[], ?_⟩
      exact
        { csn_le := hwriting.csn_le
          csn_lt := hwriting.csn_lt
          split := rfl
          inserts := by rw [hsplit]; exact hwriting.inserts
          recorded := by simp
          others := by rw [hsplit]; exact hwriting.recorded }
    . rename_i hnone
      refine ⟨written, ?_⟩
      exact
        { csn_le := hwriting.csn_le
          csn_lt := hwriting.csn_lt
          split := hwriting.split
          inserts := by simp
          recorded := by
            intro a ha
            apply hwriting.recorded a ha
            apply hprepared.insertSetSize (by omega) a
            rw [← hsplit] at ha
            exact ha
          others := by simp }

theorem Inv.finish {rc : RC} (hphase : (σ.txns t).phase = .releasing [] rc)
    : Inv σ₀ (σ.setPhase t (.finished rc)) := by
  have hfacts := (hinv.txn t).phase
  rw [hphase] at hfacts
  apply hinv.setPhase
  . rw [held, held, hphase]
  . exact hfacts.2

section WriteGlobal

variable {csn : Nat} {access : Access S D} {written : List (Access S D)}

omit hinv [DecidableEq T] in
-- The access in the set is replaced by one that writes what it writes.
theorem Prepared.insert {access' : Access S D} {txn txn' : Txn S D} (h : Prepared txn)
    (hsplit : txn.orderedSet.accesses = written ++ access :: rest)
    (hsplit' : txn'.orderedSet.accesses = written ++ access' :: rest)
    (htype : access'.type = access.type) (hwriteSetSize : txn'.writeSetSize = txn.writeSetSize)
    (hinsertSetSize : txn'.insertSetSize = txn.insertSetSize) : Prepared txn' := by
  obtain ⟨hwrites, hsize, hinserts⟩ := h
  rw [hsplit] at hwrites hinserts hsize
  constructor
  . rw [hsplit']
    simpa [or_imp, forall_and, htype] using hwrites
  . rw [hsplit', hwriteSetSize, hsize]
    simp
  . rw [hsplit', hinsertSetSize]
    simpa [or_imp, forall_and, htype] using hinserts

omit hinv in
theorem writeGlobal_txns : (σ.writeGlobal t csn access rest).txns t
      =
    { σ.txns t with
      orderedSet :=
        (σ.txns t).orderedSet.insert (access.writeGlobalChanges csn (σ.header access.origSentinel)).1
      phase := .writingGlobal csn rest } :=
  update_self _ _ _

omit hinv in
theorem accesses_writeGlobal (csn : Nat) (hsplit : σ.accesses t = written ++ access :: rest)
    : (σ.writeGlobal t csn access rest).accesses t
      =
    written ++ (access.writeGlobalChanges csn (σ.header access.origSentinel)).1 :: rest := by
  rw [OccState.accesses, writeGlobal_txns]
  exact TxnOrderedSet.insert_split hsplit (access.writeGlobalChanges_sameRead csn _).origSentinel

theorem Inv.writeGlobal_step (rest : List (Access S D)) (hinit : σ₀.Committed) (hle : σ₀.csn ≤ csn)
    (hheld : held (σ.txns t) = (σ.accesses t).map Access.origSentinel) (hmem : access ∈ σ.accesses t)
    (hpending : Pending σ csn access)
    : WriteStep σ t csn access.origSentinel
      (access.writeGlobalChanges csn (σ.header access.origSentinel)).2
      ((access.writeGlobalChanges csn (σ.header access.origSentinel)).1.globalChanges t csn)
      (σ.writeGlobal t csn access rest) := by
  have hown := hinv.txn t
  have hempty := hinv.chains.empty access.origSentinel
  have hwritten := (hown.access access hmem).writeGlobalChanges_written hpending.valid hempty t csn
  exact
    { header := rfl
      history := rfl
      sameCsn := rfl
      txns := fun u hu => update_of_ne hu _ _
      own := by
        rw [hown.lock, hheld]
        exact mem_map_of_mem hmem
      grows := hwritten.grows (hinv.chains.row_lt hinit hpending.below hle)
      written := hwritten }

omit hinv in
theorem WritingGlobal.write (hwf : access.WellFormed (σ.header access.origSentinel))
    (hwrites : access.type ≠ .RD ∧ access.type ≠ .RD_FOR_UPDATE)
    (hwriting : WritingGlobal σ₀ σ t csn written (access :: rest))
    (hstep : WriteStep σ t csn access.origSentinel
      (access.writeGlobalChanges csn (σ.header access.origSentinel)).2
      ((access.writeGlobalChanges csn (σ.header access.origSentinel)).1.globalChanges t csn)
      (σ.writeGlobal t csn access rest))
    : WritingGlobal σ₀ (σ.writeGlobal t csn access rest) t csn
      (written ++ [(access.writeGlobalChanges csn (σ.header access.origSentinel)).1]) rest := by
  have hsplit := hwriting.split
  have hpending := hwriting.rest access mem_cons_self
  have hsame := access.writeGlobalChanges_sameRead csn (σ.header access.origSentinel)
  have hsplit' := accesses_writeGlobal csn hsplit
  have hne : ∀ a ∈ written ++ rest, a.origSentinel ≠ access.origSentinel :=
    fun a ha => origSentinel_ne_of_split hsplit ha
  generalize hwrite : access.writeGlobalChanges csn (σ.header access.origSentinel) = write at *
  exact { hwriting with
    split := by rw [hsplit', append_assoc]; rfl
    rest := by
      intro a ha
      exact hstep.pending (hne a (mem_append_right _ ha)) (hwriting.rest a (mem_cons_of_mem _ ha))
    inserts := by
      intro a ha hinsert
      rcases mem_append.1 ha with ha | ha
      . exact hstep.pendingInsert (hne a (mem_append_left _ ha)) (hwriting.inserts a ha hinsert)
      . rw [mem_singleton] at ha
        subst ha
        have hinsert' : access.type = .INS := hsame.type.symm.trans hinsert
        constructor
        . constructor
          . rw [Valid, hsame.origSentinel, hstep.header_self, ← hwrite]
            exact quickHeaderValidation_writeGlobalChanges hinsert' hpending.valid csn
          . have hnone : write.1.globalChanges t csn = [] := by
              rw [Access.globalChanges, hinsert]
            rw [Below, hstep.history, hnone, hsame.origSentinel]
            exact hpending.below
        . rw [hsame.origSentinel, hstep.header_self, hstep.written.indexOrder, ← hwrite]
          intro hprimary
          exact hwf.writeGlobalChanges_linked hprimary hinsert' csn
    recorded := by
      intro a ha hinsert
      rcases mem_append.1 ha with ha | ha
      . exact hstep.recorded (hwriting.recorded a ha hinsert)
      . rw [mem_singleton] at ha
        subst ha
        rw [← hsame.type] at hwrites
        obtain ⟨c, hc, hchange⟩ := exists_globalChange t csn hinsert hwrites
        refine ⟨c, ?_, hchange⟩
        rw [hstep.history]
        exact mem_append_left _ hc }

theorem Inv.access_writeGlobal (hsplit : σ.accesses t = written ++ access :: rest)
    (hstep : WriteStep σ t csn access.origSentinel
      (access.writeGlobalChanges csn (σ.header access.origSentinel)).2
      ((access.writeGlobalChanges csn (σ.header access.origSentinel)).1.globalChanges t csn)
      (σ.writeGlobal t csn access rest))
    : ∀ a ∈ (σ.writeGlobal t csn access rest).accesses t,
        a.WellFormed ((σ.writeGlobal t csn access rest).header a.origSentinel) := by
  have hown := hinv.txn t
  have hsame := access.writeGlobalChanges_sameRead csn (σ.header access.origSentinel)
  have hne : ∀ a ∈ written ++ rest, a.origSentinel ≠ access.origSentinel :=
    fun a ha => origSentinel_ne_of_split hsplit ha
  rw [accesses_writeGlobal csn hsplit]
  intro a ha
  rcases mem_append.1 ha with ha | ha
  . rw [hstep.header_of_ne (hne a (mem_append_left _ ha))]
    exact hown.access a (by rw [hsplit]; exact mem_append_left _ ha)
  . rcases mem_cons.1 ha with rfl | ha
    . rw [hsame.origSentinel, hstep.header_self]
      exact (hown.access access (by simp [hsplit])).writeGlobalChanges hstep.grows
    . rw [hstep.header_of_ne (hne a (mem_append_right _ ha))]
      exact hown.access a (by rw [hsplit]; simp [ha])

theorem Inv.writeGlobal (hinit : σ₀.Committed)
    (hphase : (σ.txns t).phase = .writingGlobal csn (access :: rest))
    : Inv σ₀ (σ.writeGlobal t csn access rest) := by
  have hown := hinv.txn t
  have hfacts := hown.phase
  rw [hphase] at hfacts
  obtain ⟨hprepared, written, hwriting⟩ := hfacts
  have hsplit := hwriting.split
  have hmem : access ∈ σ.accesses t := by simp [hsplit]
  have hheld : held (σ.txns t) = (σ.accesses t).map Access.origSentinel := by
    rw [held, hphase]
    rfl
  have hpending := hwriting.rest access mem_cons_self
  have hstep := hinv.writeGlobal_step rest hinit hwriting.csn_le hheld hmem hpending
  have hsame := access.writeGlobalChanges_sameRead csn (σ.header access.origSentinel)
  apply hinv.of_own _ hstep.frame
  . constructor
    case access => exact hinv.access_writeGlobal hsplit hstep
    case lock =>
      intro s
      rw [hstep.lock, hown.lock, hheld, held, writeGlobal_txns]
      dsimp only
      rw [TxnOrderedSet.insert_split hsplit hsame.origSentinel, hsplit]
      simp [hsame.origSentinel]
    case phase =>
      rw [writeGlobal_txns]
      refine ⟨?_, written ++ [_], hwriting.write (hown.access access hmem) (hprepared.writes access hmem) hstep⟩
      apply hprepared.insert hsplit (accesses_writeGlobal csn hsplit) hsame.type
      . rw [writeGlobal_txns]
      . rw [writeGlobal_txns]
  . exact hstep.chains hinv.chains hinit hwriting.csn_le hwriting.csn_lt hpending.below

end WriteGlobal

theorem Inv.writeSentinel (hinit : σ₀.Committed) {csn : Nat} {access : Access S D}
    (hphase : (σ.txns t).phase = .writingSentinels csn (access :: rest))
    : Inv σ₀ (σ.writeSentinel t csn access rest) := by
  have hown := hinv.txn t
  have hfacts := hown.phase
  rw [hphase] at hfacts
  obtain ⟨hprepared, written, hwriting⟩ := hfacts
  have hsplit := hwriting.split
  have hmem : access ∈ σ.accesses t := by simp [hsplit]
  have hheld : held (σ.txns t) = (σ.accesses t).map Access.origSentinel := by
    rw [held, hphase]
    rfl
  have hwf := hown.access access hmem
  have hne : ∀ a ∈ written ++ rest, a.origSentinel ≠ access.origSentinel :=
    fun a ha => origSentinel_ne_of_split hsplit ha
  have hempty := hinv.chains.empty access.origSentinel
  have hview := (SameView.refl σ t).setPhase (.writingSentinels csn rest)
  have htxn : (σ.writeSentinel t csn access rest).txns t
      =
    { σ.txns t with phase := .writingSentinels csn rest } := setPhase_txns _ _ _
  have haccesses : (σ.writeSentinel t csn access rest).accesses t = σ.accesses t := by
    rw [OccState.accesses, htxn]
    rfl
  have hwritten := hwf.writeSentinelChanges_written
    (fun hinsert => (hwriting.inserts access mem_cons_self hinsert).pending.valid) hempty
    (fun hinsert => (hwriting.inserts access mem_cons_self hinsert).linked) t
  have hgrows : (σ.header access.origSentinel).Grows
      (writeSentinelChanges csn access (σ.header access.origSentinel)) := by
    by_cases hinsert : access.type = .INS
    . have hpending := (hwriting.inserts access mem_cons_self hinsert).pending
      exact hwritten.grows (hinv.chains.row_lt hinit hpending.below hwriting.csn_le)
    . rw [writeSentinelChanges, if_pos hinsert]
      exact Sentinel.Grows.of_contents rfl
  have hstep : WriteStep σ t csn access.origSentinel
      (writeSentinelChanges csn access (σ.header access.origSentinel)) (access.insertChanges t csn)
      (σ.writeSentinel t csn access rest) :=
    { header := rfl
      history := rfl
      sameCsn := rfl
      txns := fun u hu => setPhase_txns_of_ne _ _ hu
      own := by
        rw [hown.lock, hheld]
        exact mem_map_of_mem hmem
      grows := hgrows
      written := hwritten }
  apply hinv.of_own _ hstep.frame
  . constructor
    case access =>
      rw [haccesses]
      exact fun a ha => (hown.access a ha).grows (hstep.frame.grows _)
    case lock =>
      intro s
      rw [hstep.lock, hown.lock, hheld, held, htxn]
      rfl
    case phase =>
      rw [htxn]
      refine ⟨?_, written ++ [access], ?_⟩
      . rw [htxn]
        exact ⟨hprepared.writes, hprepared.writeSetSize, hprepared.insertSetSize⟩
      . exact { hwriting with
          split := by rw [haccesses, hsplit, append_assoc]; rfl
          inserts := by
            intro a ha hinsert
            exact hstep.pendingInsert (hne a (mem_append_right _ ha))
              (hwriting.inserts a (mem_cons_of_mem _ ha) hinsert)
          recorded := by
            intro a ha
            rcases mem_append.1 ha with ha | ha
            . exact hstep.recorded (hwriting.recorded a ha)
            . rw [mem_singleton] at ha
              subst ha
              by_cases hinsert : a.type = .INS
              . obtain ⟨c, hc, hchange⟩ := exists_insertChange t csn hinsert
                refine ⟨c, ?_, hchange⟩
                rw [hstep.history]
                exact mem_append_left _ hc
              . exact hstep.recorded (hwriting.others a mem_cons_self hinsert)
          others := by
            intro a ha hinsert
            exact hstep.recorded (hwriting.others a (mem_cons_of_mem _ ha) hinsert) }
  . by_cases hinsert : access.type = .INS
    . have hpending := (hwriting.inserts access mem_cons_self hinsert).pending
      exact hstep.chains hinv.chains hinit hwriting.csn_le hwriting.csn_lt hpending.below
    . apply hinv.chains.same
      . intro s
        by_cases hs : s = access.origSentinel
        . rw [hs, hstep.header_self, writeSentinelChanges, if_pos hinsert]
        . rw [hstep.header_of_ne hs]
      . rw [hstep.history, Access.insertChanges, if_pos hinsert]
        rfl
      . exact le_refl _

end Writing

section Runs

variable [DecidableEq T] {flags : OccFlags}

theorem Inv.step (hinv : Inv σ₀ σ) (hinit : σ₀.Committed) (hstep : Step flags σ t σ') : Inv σ₀ σ' := by
  cases hstep with
  | access set hphase haccess => exact hinv.access hphase haccess
  | validateOcc hphase => exact hinv.validateOcc hphase flags
  | tryLock n access rest sleepTime hphase hfree => exact hinv.tryLock hphase hfree
  | tryLockFailed n access rest sleepTime hphase hmode => exact hinv.endOfTurn hphase flags (.inr hmode)
  | allLocked n sleepTime hphase => exact hinv.endOfTurn hphase flags (.inl rfl)
  | validateWriteSet n hphase => exact hinv.validate hphase
  | reserve n reserved hphase => exact hinv.reserve hphase reserved
  | getNextCsn hphase hcsn => exact hinv.getNextCsn hphase
  | rollbackPrepared hphase =>
    have hfacts := (hinv.txn t).phase
    rw [hphase] at hfacts
    refine hinv.releaseLocks hfacts.1 ?_ (outcome_of_quiet hfacts.2.1 (by simp))
    rw [held, hphase]
    rfl
  | writeGlobalChanges csn access rest hphase => exact hinv.writeGlobal hinit hphase
  | startSentinelChanges csn hphase => exact hinv.startSentinels hphase
  | writeSentinelChanges csn access rest hphase => exact hinv.writeSentinel hinit hphase
  | releaseLocks csn hphase =>
    have hfacts := (hinv.txn t).phase
    rw [hphase] at hfacts
    obtain ⟨hprepared, written, hwriting⟩ := hfacts
    refine hinv.releaseLocks hprepared ?_ ?_
    . rw [held, hphase]
      rfl
    . rw [Outcome, if_pos rfl, hwriting.split, append_nil]
      exact hwriting.recorded
  | unlock s rest rc hphase => exact hinv.unlock hphase
  | finish rc hphase => exact hinv.finish hphase

omit [DecidableEq T] in
theorem Inv.initial (hinit : σ₀.Committed) : Inv σ₀ σ₀ where
  chains := Chains.initial hinit
  txn t := by
    have hnone : σ₀.accesses t = [] := by
      rw [OccState.accesses, hinit.noAccess]
      rfl
    constructor
    case access => simp [hnone]
    case lock =>
      intro s
      rw [hinit.free, held, hinit.running]
      simp
    case phase =>
      rw [hinit.running]
      intro c hc
      rw [hinit.history] at hc
      simp at hc

theorem Inv.run (hinit : σ₀.Committed) (hrun : Run flags σ₀ σ) : Inv σ₀ σ := by
  induction hrun with
  | refl => exact Inv.initial hinit
  | step t _ hstep ih => exact ih.step hinit hstep

end Runs

end Mot.Occ

import OpenGauss.Mot.Occ.Commit
import Mathlib.Data.Set.Finite.List
import Mathlib.Order.WellFoundedSet

/-!
This module shows that no update is lost in any run of the commits.
-/

namespace Mot.Occ

variable {S T D : Type} [LinearOrder S] [DecidableEq T]
variable {flags : OccFlags} {σ₀ σ σ' : OccState S T D} {t u : T}

section Aborted

def Committing : Phase S D → Prop
  | .writingGlobal _ _ | .writingSentinels _ _ => True
  | .releasing _ rc | .finished rc => rc = .RC_OK
  | .running | .locking _ _ _ | .validating _ | .reserving _ | .validated => False

theorem Step.txns_of_ne (hstep : Step flags σ t σ') (hu : u ≠ t) : σ'.txns u = σ.txns u := by
  have hphase : ∀ (τ : OccState S T D) phase, (τ.setPhase t phase).txns u = τ.txns u :=
    fun τ phase => setPhase_txns_of_ne τ phase hu
  cases hstep with
  | access set _ _ => exact Function.update_of_ne hu _ _
  | validateOcc _ =>
    rw [OccState.validateOcc]
    dsimp only
    split
    . exact Function.update_of_ne hu _ _
    . exact Function.update_of_ne hu _ _
  | tryLock n access rest sleepTime _ _ =>
    rw [OccState.lockHeader]
    split
    . exact hphase _ _
    . exact hphase _ _
  | tryLockFailed n access rest sleepTime _ _ | allLocked n sleepTime _ =>
    have hreleased := (releaseHeaderLocks_spec σ (headerLocks (σ.accesses t) n)).2.1
    rw [OccState.endOfTurn]
    dsimp only
    split
    . split
      . rw [hphase, hreleased]
      . split
        . rw [hphase, hreleased]
        . rw [hphase, hreleased]
    . exact hphase _ _
  | validateWriteSet n _ =>
    rw [OccState.validate]
    split
    . exact hphase _ _
    . exact hphase _ _
  | reserve n reserved _ =>
    rw [OccState.reserve]
    split
    . exact hphase _ _
    . exact hphase _ _
  | getNextCsn _ _ => exact hphase _ _
  | rollbackPrepared _ => exact hphase _ _
  | writeGlobalChanges csn access rest _ => exact Function.update_of_ne hu _ _
  | startSentinelChanges csn _ => exact hphase _ _
  | writeSentinelChanges csn access rest _ => exact hphase _ _
  | releaseLocks csn _ => exact hphase _ _
  | unlock s rest rc _ => exact hphase _ _
  | finish rc _ => exact hphase _ _

theorem Step.committing (hstep : Step flags σ t σ') (h : Committing (σ.txns u).phase)
    : Committing (σ'.txns u).phase := by
  by_cases hu : u = t
  . rw [hu] at h ⊢
    cases hstep with
    | access _ hphase _ | validateOcc hphase | tryLock _ _ _ _ hphase _ | tryLockFailed _ _ _ _ hphase _
    | allLocked _ _ hphase | validateWriteSet _ hphase | reserve _ _ hphase | getNextCsn hphase _
    | rollbackPrepared hphase =>
      rw [hphase] at h
      exact h.elim
    | writeGlobalChanges csn access rest hphase =>
      rw [OccState.writeGlobal]
      dsimp only
      rw [Function.update_self]
      trivial
    | startSentinelChanges csn hphase =>
      rw [OccState.startSentinels, setPhase_txns]
      trivial
    | writeSentinelChanges csn access rest hphase =>
      change Committing ((σ.setPhase t (.writingSentinels csn rest)).txns t).phase
      rw [setPhase_txns]
      trivial
    | releaseLocks csn hphase =>
      rw [OccState.releaseLocks, setPhase_txns]
      rfl
    | unlock s rest rc hphase =>
      rw [hphase] at h
      rw [OccState.unlock, setPhase_txns]
      exact h
    | finish rc hphase =>
      rw [hphase] at h
      rw [setPhase_txns]
      exact h
  . rw [hstep.txns_of_ne hu]
    exact h

theorem Run.committing (hrun : Run flags σ σ') (h : Committing (σ.txns u).phase)
    : Committing (σ'.txns u).phase := by
  induction hrun with
  | refl => exact h
  | step t _ hstep ih => exact hstep.committing ih

theorem Step.contents_or_committing (hstep : Step flags σ t σ')
    : (∀ s, (σ'.header s).contents = (σ.header s).contents) ∨ Committing (σ'.txns t).phase := by
  cases hstep with
  | access set _ _ => exact .inl (fun _ => rfl)
  | validateOcc _ =>
    left
    rw [OccState.validateOcc]
    dsimp only
    split
    . exact fun _ => rfl
    . exact fun _ => rfl
  | tryLock n access rest sleepTime _ _ =>
    left
    intro s
    rw [OccState.lockHeader]
    split
    . exact contents_setLock σ access.origSentinel s (some t)
    . exact contents_setLock σ access.origSentinel s (some t)
  | tryLockFailed n access rest sleepTime _ _ | allLocked n sleepTime _ =>
    left
    intro s
    have hreleased := ((releaseHeaderLocks_spec σ (headerLocks (σ.accesses t) n)).2.2.2 s).1
    rw [OccState.endOfTurn]
    dsimp only
    split
    . split
      . exact hreleased
      . split
        . exact hreleased
        . exact hreleased
    . rfl
  | validateWriteSet n _ =>
    left
    rw [OccState.validate]
    split
    . exact fun _ => rfl
    . exact fun _ => rfl
  | reserve n reserved _ =>
    left
    rw [OccState.reserve]
    split
    . exact fun _ => rfl
    . exact fun _ => rfl
  | getNextCsn _ _ => exact .inl (fun _ => rfl)
  | rollbackPrepared _ => exact .inl (fun _ => rfl)
  | writeGlobalChanges csn access rest _ =>
    right
    rw [OccState.writeGlobal]
    dsimp only
    rw [Function.update_self]
    trivial
  | startSentinelChanges csn _ => exact .inl (fun _ => rfl)
  | writeSentinelChanges csn access rest _ =>
    right
    change Committing ((σ.setPhase t (.writingSentinels csn rest)).txns t).phase
    rw [setPhase_txns]
    trivial
  | releaseLocks csn _ => exact .inl (fun _ => rfl)
  | unlock s rest rc _ => exact .inl (fun u => contents_setLock σ s u none)
  | finish rc _ => exact .inl (fun _ => rfl)

end Aborted

structure NoLostUpdate (flags : OccFlags) (σ₀ σ : OccState S T D) : Prop where
  -- the chain of a sentinel is all that was committed there, on top of what was there at first
  chain : ∀ s, (σ.header s).data = versions s σ.history ++ (σ₀.header s).data
  versioned : ∀ c ∈ σ.history, (σ₀.header c.sentinel).indexOrder = .primary →
    ∃ v, c.version = some v ∧ v.csn = c.csn
  descending : ∀ s, VersionChain.Descending Row.csn tiedVersions (σ.header s).data
  sequence : σ.history.Pairwise (fun newer older => newer.sentinel = older.sentinel →
    older.csn < newer.csn ∨
      older.csn = newer.csn ∧ older.txn = newer.txn ∧ newer.kind = .insert ∧ older.kind = .delete)
  -- an update or a delete went on top of the version that its transaction had read
  onTop : ∀ c earlier, c :: earlier <:+ σ.history → (σ₀.header c.sentinel).indexOrder = .primary →
    c.kind ≠ .insert → c.seen = versions c.sentinel earlier ++ (σ₀.header c.sentinel).data
  recorded : ∀ t, (σ.txns t).phase = .finished .RC_OK → ∀ access ∈ σ.accesses t,
    ∃ c ∈ σ.history, c.txn = t ∧ c.sentinel = access.origSentinel ∧
      changeKind access.type = some c.kind ∧ c.seen = access.globalRow
  inserts : ∀ later newer between older earlier,
    σ.history = later ++ newer :: (between ++ older :: earlier) → newer.kind = .insert →
    older.kind = .insert → newer.sentinel = older.sentinel →
    ∃ c ∈ between, c.sentinel = older.sentinel ∧ c.kind = .delete
  -- a transaction that did not validate has let all its locks go and changed nothing
  aborted : ∀ t rc, (σ.txns t).phase = .finished rc → rc ≠ .RC_OK →
    (∀ s, (σ.header s).lock ≠ some t) ∧ (∀ c ∈ σ.history, c.txn ≠ t) ∧
      ∀ σ₁ σ₂, Run flags σ₀ σ₁ → Step flags σ₁ t σ₂ → Run flags σ₂ σ →
        ∀ s, (σ₂.header s).contents = (σ₁.header s).contents

theorem noLostUpdate (hinit : σ₀.Committed) (hrun : Run flags σ₀ σ) : NoLostUpdate flags σ₀ σ := by
  have hinv := Inv.run hinit hrun
  have houtcome : ∀ t rc, (σ.txns t).phase = .finished rc → Outcome σ t rc := by
    intro t rc hphase
    have hfacts := (hinv.txn t).phase
    rw [hphase] at hfacts
    exact hfacts
  constructor
  case chain => exact hinv.chains.data
  case versioned =>
    intro c hc hprimary
    obtain ⟨v, hv⟩ := Option.isSome_iff_exists.1 (hinv.chains.versioned c hc hprimary)
    exact ⟨v, hv, (hinv.chains.csn c hc).2.2 v hv⟩
  case descending => exact hinv.chains.descending
  case sequence => exact hinv.chains.sequence
  case onTop => exact hinv.chains.placed
  case recorded =>
    intro t hphase
    have hall := houtcome t _ hphase
    rw [Outcome, if_pos rfl] at hall
    exact hall
  case inserts =>
    intro later newer between older earlier hhistory hnewer holder hsentinel
    have hsuffix : newer :: (between ++ older :: earlier) <:+ σ.history := ⟨later, hhistory.symm⟩
    have habsent := hinv.chains.inserted newer _ hsuffix hnewer
    rw [hsentinel, keyPresent_append] at habsent
    apply exists_delete_of_keyPresent habsent
    rw [keyPresent, if_pos rfl, holder]
  case aborted =>
    intro t rc hphase hrc
    have hquiet := houtcome t rc hphase
    rw [Outcome, if_neg hrc] at hquiet
    refine ⟨?_, hquiet, ?_⟩
    . intro s hlock
      rw [(hinv.txn t).lock, held, hphase] at hlock
      simp at hlock
    . intro σ₁ σ₂ _ hstep hrest
      rcases hstep.contents_or_committing with hsame | hcommitting
      . exact hsame
      . have hend := hrest.committing hcommitting
        rw [hphase] at hend
        exact absurd hend hrc

section Progress

def Phase.Active : Phase S D → Prop
  | .running | .finished _ => False
  | .locking _ _ _ | .validating _ | .reserving _ | .validated | .writingGlobal _ _ | .writingSentinels _ _
  | .releasing _ _ => True

-- The transaction `t` is at a lock of `LockHeaders` that `u` holds.
def WaitsFor (σ : OccState S T D) (t u : T) : Prop :=
  ∃ n access rest sleepTime, (σ.txns t).phase = .locking n (access :: rest) sleepTime ∧
    (σ.header access.origSentinel).lock = some u

theorem finite_not_running (hinit : σ₀.Committed) (hrun : Run flags σ₀ σ)
    : {u | (σ.txns u).phase ≠ .running}.Finite := by
  induction hrun with
  | refl => simp [hinit.running]
  | step t _ hstep ih =>
    apply (ih.insert t).subset
    intro u hu
    by_cases hne : u = t
    . exact .inl hne
    . rw [Set.mem_ofPred_eq, hstep.txns_of_ne hne] at hu
      exact .inr hu

omit [DecidableEq T] in
theorem active_of_mem_held {s : S} (h : s ∈ held (σ.txns u)) : (σ.txns u).phase.Active := by
  rw [held] at h
  cases hphase : (σ.txns u).phase with
  | running | finished =>
    rw [hphase] at h
    cases h
  | locking | validating | reserving | validated | writingGlobal | writingSentinels | releasing => trivial

theorem Inv.finite_locked (hinv : Inv σ₀ σ) (hinit : σ₀.Committed) (hrun : Run flags σ₀ σ)
    : {s | (σ.header s).lock ≠ none}.Finite := by
  apply ((finite_not_running hinit hrun).biUnion fun u _ => (held (σ.txns u)).finite_toSet).subset
  intro s hs
  obtain ⟨u, hu⟩ := Option.ne_none_iff_exists'.1 hs
  have hheld := ((hinv.txn u).lock s).1 hu
  have hactive := active_of_mem_held hheld
  refine Set.mem_biUnion (x := u) ?_ hheld
  intro hrunning
  rw [hrunning] at hactive
  exact hactive

-- The locks are taken in the order of the sentinels.
omit [DecidableEq T] in
theorem Inv.lt_of_waits (hinv : Inv σ₀ σ) {n : Nat} {access : Access S D} {rest : List (Access S D)}
    {sleepTime : Nat} (hphase : (σ.txns u).phase = .locking n (access :: rest) sleepTime) {s : S}
    (hlock : (σ.header s).lock = some u)
    : s < access.origSentinel := by
  have hheld := ((hinv.txn u).lock s).1 hlock
  have hfacts := (hinv.txn u).phase
  rw [hphase] at hfacts
  obtain ⟨_, _, locked, hsplit, hlen, _⟩ := hfacts
  have hsorted := (σ.txns u).orderedSet.sorted
  change (σ.txns u).orderedSet.accesses = _ at hsplit
  rw [hsplit] at hsorted
  simp only [held, hphase, hsplit, List.take_left' hlen] at hheld
  obtain ⟨a, ha, rfl⟩ := List.mem_map.1 hheld
  exact (List.pairwise_append.1 hsorted).2.2 a ha access List.mem_cons_self

theorem exists_step_of_not_waiting (hactive : (σ.txns u).phase.Active) (hnot : ∀ v, ¬ WaitsFor σ u v)
    : ∃ σ', Step flags σ u σ' := by
  cases hphase : (σ.txns u).phase with
  | running | finished =>
    rw [hphase] at hactive
    exact hactive.elim
  | locking n rest sleepTime =>
    cases rest with
    | nil => exact ⟨_, .allLocked n sleepTime hphase⟩
    | cons access rest =>
      cases hlock : (σ.header access.origSentinel).lock with
      | none => exact ⟨_, .tryLock n access rest sleepTime hphase hlock⟩
      | some v => exact absurd ⟨n, access, rest, sleepTime, hphase, hlock⟩ (hnot v)
  | validating n => exact ⟨_, .validateWriteSet n hphase⟩
  | reserving n => exact ⟨_, .reserve n true hphase⟩
  | validated => exact ⟨_, .rollbackPrepared hphase⟩
  | writingGlobal csn rest =>
    cases rest with
    | nil => exact ⟨_, .startSentinelChanges csn hphase⟩
    | cons access rest => exact ⟨_, .writeGlobalChanges csn access rest hphase⟩
  | writingSentinels csn rest =>
    cases rest with
    | nil => exact ⟨_, .releaseLocks csn hphase⟩
    | cons access rest => exact ⟨_, .writeSentinelChanges csn access rest hphase⟩
  | releasing pending rc =>
    cases pending with
    | nil => exact ⟨_, .finish rc hphase⟩
    | cons s rest => exact ⟨_, .unlock s rest rc hphase⟩

theorem no_deadlock (hinit : σ₀.Committed) (hrun : Run flags σ₀ σ) (ht : (σ.txns t).phase.Active)
    : ∃ u, Relation.ReflTransGen (WaitsFor σ) t u ∧ (∀ v, ¬ WaitsFor σ u v) ∧ ∃ σ', Step flags σ u σ' := by
  have hinv := Inv.run hinit hrun
  -- along a chain of waiting transactions the sentinels go up
  have hwf : {s | (σ.header s).lock ≠ none}.WellFoundedOn (· > ·) :=
    (hinv.finite_locked hinit hrun).wellFoundedOn
  have hend : ∀ s ∈ {s | (σ.header s).lock ≠ none}, ∀ u, (σ.header s).lock = some u →
      ∃ v, Relation.ReflTransGen (WaitsFor σ) u v ∧ (σ.txns v).phase.Active ∧ ∀ w, ¬ WaitsFor σ v w := by
    intro s hs
    apply hwf.induction hs
    intro s _ ih u hlock
    by_cases hwaits : ∃ v, WaitsFor σ u v
    . obtain ⟨v, n, access, rest, sleepTime, hphase, hnext⟩ := hwaits
      obtain ⟨w, hchain, hw⟩ := ih access.origSentinel (by simp [hnext]) (hinv.lt_of_waits hphase hlock) v hnext
      exact ⟨w, .head ⟨n, access, rest, sleepTime, hphase, hnext⟩ hchain, hw⟩
    . exact ⟨u, .refl, active_of_mem_held (((hinv.txn u).lock s).1 hlock), not_exists.1 hwaits⟩
  by_cases hwaits : ∃ v, WaitsFor σ t v
  . obtain ⟨v, n, access, rest, sleepTime, hphase, hnext⟩ := hwaits
    obtain ⟨w, hchain, hactive, hw⟩ := hend access.origSentinel (by simp [hnext]) v hnext
    exact ⟨w, .head ⟨n, access, rest, sleepTime, hphase, hnext⟩ hchain, hw, exists_step_of_not_waiting hactive hw⟩
  . exact ⟨t, .refl, not_exists.1 hwaits, exists_step_of_not_waiting ht (not_exists.1 hwaits)⟩

end Progress

section TwoUpdates

def oneRow : OccState Nat Nat Nat where
  csn := 10
  header s :=
    { indexOrder := .primary
      lock := none
      dirty := s ≠ 0
      startCsn := 3
      endCsn := sentinelInitCsn
      data := if s = 0 then [{ csn := 3, rowType := .row, primarySentinel := 0, data := 7 }] else []
      primarySentinel := none
      nodes := [] }
  txns _ :=
    { orderedSet := TxnOrderedSet.empty
      writeSetSize := 0
      insertSetSize := 0
      phase := .running }
  history := []

theorem oneRow_committed : oneRow.Committed where
  csn s row hrow := by
    by_cases hs : s = 0
    . simp only [oneRow, hs, if_true, List.mem_singleton] at hrow
      rw [hrow]
      decide
    . simp [oneRow, hs] at hrow
  descending s := by
    by_cases hs : s = 0
    . simp [oneRow, hs, VersionChain.Descending]
    . simp [oneRow, hs, VersionChain.Descending]
  empty s _ hdirty := by
    have hs : s ≠ 0 := by simpa [oneRow] using hdirty
    simp [oneRow, hs]
  free _ := rfl
  running _ := rfl
  noAccess _ := rfl
  history := rfl

def readRow : Access Nat Nat :=
  newRowAccess 0 .WR [{ csn := 3, rowType := .row, primarySentinel := 0, data := 7 }] 3 10

def draftRow (data : Nat) : Access Nat Nat :=
  { readRow with type := .WR }.createMvccDraft.setValue data

def flagsWait : OccFlags :=
  { preAbort := true, validationNoWait := false }

-- Two transactions update the row that both have read. The second one waits for the lock of the first one and
-- is rolled back when it gets it.
theorem run_twoUpdates
    : ∃ σ, Run flagsWait oneRow σ ∧ WaitsFor σ 1 0 ∧
        ∃ σ', Run flagsWait oneRow σ' ∧ (σ'.txns 0).phase = .finished .RC_OK
          ∧ (σ'.txns 1).phase = .finished .RC_ABORT
          ∧ (σ'.header 0).data
            = [{ csn := 10, rowType := .row, primarySentinel := 0, data := 8 },
              { csn := 3, rowType := .row, primarySentinel := 0, data := 7 }] := by
  have hread : Run flagsWait oneRow _ :=
    .step 0 (.refl _) (.access _ rfl (.mapRow 0 .WR _ _ 10 rfl rfl rfl (.inl rfl)))
  have hdraft := Run.step 0 hread (.access _ rfl (.updateRowState readRow _ .WR List.mem_cons_self (by decide) rfl))
  have hvalue := Run.step 0 hdraft (.access _ rfl (.setValue _ 8 List.mem_cons_self))
  have hread' := Run.step 1 hvalue (.access _ rfl (.mapRow 0 .WR _ _ 10 rfl rfl rfl (.inl rfl)))
  have hdraft' := Run.step 1 hread' (.access _ rfl (.updateRowState readRow _ .WR List.mem_cons_self (by decide) rfl))
  have hvalue' := Run.step 1 hdraft' (.access _ rfl (.setValue _ 9 List.mem_cons_self))
  have hvalidateOcc := Run.step 0 hvalue' (.validateOcc rfl)
  have hlock := Run.step 0 hvalidateOcc (.tryLock 0 (draftRow 8) [] 1 rfl rfl)
  have hwaits := Run.step 1 hlock (.validateOcc rfl)
  have hlocked := Run.step 0 hwaits (.allLocked 1 1 rfl)
  have hwriteSet := Run.step 0 hlocked (.validateWriteSet 1 rfl)
  have hreserve := Run.step 0 hwriteSet (.reserve 1 true rfl)
  have hcsn := Run.step 0 hreserve (.getNextCsn rfl (by decide))
  have hwritten := Run.step 0 hcsn (.writeGlobalChanges 10 (draftRow 8) [] rfl)
  have hsentinels := Run.step 0 hwritten (.startSentinelChanges 10 rfl)
  have hrelease := Run.step 0 hsentinels (.releaseLocks 10 rfl)
  have hunlock := Run.step 0 hrelease (.unlock 0 [] .RC_OK rfl)
  have hfinish := Run.step 0 hunlock (.finish .RC_OK rfl)
  have hlock' := Run.step 1 hfinish (.tryLock 0 (draftRow 9) [] 1 rfl rfl)
  have hunlock' := Run.step 1 hlock' (.unlock 0 [] .RC_ABORT rfl)
  have hfinish' := Run.step 1 hunlock' (.finish .RC_ABORT rfl)
  exact ⟨_, hwaits, ⟨0, draftRow 9, [], 1, rfl, rfl⟩, _, hfinish', rfl, rfl, rfl⟩
theorem noLostUpdate_twoUpdates
    : ∃ σ, (σ.txns 0).phase = .finished .RC_OK ∧ (σ.txns 1).phase = .finished .RC_ABORT
      ∧ (σ.header 0).data
        = [{ csn := 10, rowType := .row, primarySentinel := 0, data := 8 },
          { csn := 3, rowType := .row, primarySentinel := 0, data := 7 }]
      ∧ NoLostUpdate flagsWait oneRow σ := by
  obtain ⟨_, _, _, σ, hrun, hfinished, haborted, hdata⟩ := run_twoUpdates
  exact ⟨σ, hfinished, haborted, hdata, noLostUpdate oneRow_committed hrun⟩

theorem no_deadlock_twoUpdates
    : ∃ σ : OccState Nat Nat Nat, WaitsFor σ 1 0
      ∧ ∃ u, Relation.ReflTransGen (WaitsFor σ) 1 u ∧ (∀ v, ¬ WaitsFor σ u v) ∧ ∃ σ', Step flagsWait σ u σ' := by
  obtain ⟨σ, hrun, hwaits, _⟩ := run_twoUpdates
  refine ⟨σ, hwaits, no_deadlock oneRow_committed hrun ?_⟩
  obtain ⟨n, access, rest, sleepTime, hphase, _⟩ := hwaits
  rw [hphase]
  trivial

end TwoUpdates

end Mot.Occ

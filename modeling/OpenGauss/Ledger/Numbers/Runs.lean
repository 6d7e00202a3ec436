import OpenGauss.Ledger.Balance.Lemmas
import OpenGauss.Ledger.Numbers.Impl

/-!
This module shows when no record number and no block number of a committed record is handed out twice,
over every run of any sessions.
-/

open UInt64 List Function

namespace Ledger

section Used

variable {Session Tuple Cache : Type} [DecidableEq Session]

-- The numbers of the records of running and of committed transactions.
def NumberState.used (s : NumberState Session Tuple Cache) : List UInt64 :=
  s.committed ++ s.pending.map Prod.snd

theorem pending_split (pending : List (Session × UInt64)) (session : Session)
    : ((pending.filter (·.1 = session)).map Prod.snd ++
          (pending.filter (·.1 ≠ session)).map Prod.snd).Perm (pending.map Prod.snd) := by
  rw [← map_append]
  apply List.Perm.map
  have h := filter_append_perm (fun entry : Session × UInt64 => decide (entry.1 = session)) pending
  simp only [← decide_not] at h
  exact h

variable (s : NumberState Session Tuple Cache)

theorem NumberState.used_commit (session : Session) : (s.commit session).used.Perm s.used := by
  rw [used, used, commit]
  dsimp only
  rw [append_assoc]
  exact List.Perm.append_left _ (pending_split s.pending session)

theorem NumberState.used_rollback (session : Session) : (s.rollback session).used.Sublist s.used :=
  List.Sublist.append_left (List.Sublist.map _ filter_sublist) _

omit [DecidableEq Session] in
theorem NumberState.used_restart (emptyCache : Cache) : (s.restart emptyCache).used.Sublist s.used := by
  rw [used, used, restart]
  exact List.Sublist.append_left (nil_sublist _) _

theorem NumberState.used_insertRow (session : Session) (number : UInt64) (tuple : Tuple) (place : Nat)
    : (s.insertRow session number tuple place).used.Perm (number :: s.used) := by
  rw [used, used, insertRow]
  exact perm_middle

theorem mem_insertPlace {α : Type} {xs : List α} {x y : α} {place : Nat}
    : y ∈ xs.take place ++ x :: xs.drop place ↔ y = x ∨ y ∈ xs := by
  have hsplit : y ∈ xs ↔ y ∈ xs.take place ∨ y ∈ xs.drop place := by
    rw [← mem_append, take_append_drop]
  rw [mem_append, mem_cons, hsplit]
  tauto

theorem lt_add_one_of_ne {n : UInt64} (h : n ≠ 0xFFFFFFFFFFFFFFFF) : n < n + 1 := by
  have hlt := n.toNat_lt
  have hmax : (0xFFFFFFFFFFFFFFFF : UInt64).toNat = 18446744073709551615 := rfl
  have hone : (1 : UInt64).toNat = 1 := rfl
  have hne : n.toNat ≠ 18446744073709551615 := by
    rw [← hmax]
    exact fun heq => h (UInt64.toNat_inj.1 heq)
  rw [lt_iff_toNat_lt, UInt64.toNat_add, hone]
  omega

variable {session : Session}

theorem holding_cases {phase : Session → Phase} {holder : Session} {next : Phase} {n : UInt64}
    (h : Function.update phase session next holder = .holding n)
    : next = .holding n ∨ phase holder = .holding n := by
  by_cases heq : holder = session
  . subst heq
    rw [update_self] at h
    exact .inl h
  . rw [update_of_ne heq] at h
    exact .inr h

end Used

section RecNum

variable {Session Hash32 : Type} [DecidableEq Session] {s : RecNumState Session Hash32}

def LiveNum (rows : List (StoredTuple Session (HistTuple Hash32))) (n : UInt64) : Prop :=
  ∃ row ∈ rows, row.live = true ∧ row.tuple.recNum = n

-- Nothing goes wrong in the step: a reload sees a row that is not below any number whose row is gone, an
-- archive removes no row with a number that a session still holds, the transaction of an archive ends
-- with a commit, and the numbers do not wrap.
def RecNumOk (s : RecNumState Session Hash32) (action : RecNumAction Session Hash32) : Prop :=
  match action with
  | .lookup _ => s.cache ≠ some 0xFFFFFFFFFFFFFFFF
  | .reload session own =>
    (∀ n ∈ s.used, ¬ LiveNum s.rows n → ∃ tup ∈ scanned s.rows session own, n ≤ tup.recNum) ∧
      ∀ tup ∈ scanned s.rows session own, tup.recNum < 0xFFFFFFFFFFFFFFFE
  | .archive session =>
    ∀ (holder : Session) (n : UInt64), s.phase holder = .holding n → LiveNum s.rows n →
      (∃ tup ∈ scanned s.rows session (fun _ => true), tup.recNum = n) ∧
        ∀ tup ∈ scanned s.rows session (fun _ => true), tup.recNum ≤ n
  | .rollback session => ∀ row ∈ s.rows, row.status = .inProgress session → row.archived = false
  | .restart => ∀ row ∈ s.rows, ∀ session : Session, row.status = .inProgress session →
      row.archived = false
  | _ => True

structure RecNumInv (s : RecNumState Session Hash32) : Prop where
  nodup : s.used.Nodup
  held : ∀ (session : Session) (n : UInt64), s.phase session = .holding n → n ∈ s.used →
    LiveNum s.rows n
  cached : ∀ recNum : UInt64, s.cache = some recNum → ∀ n ∈ s.used, ¬ LiveNum s.rows n → n < recNum
  own : ∀ row ∈ s.rows, ∀ session : Session, row.status = .inProgress session → row.archived = false →
    (session, row.tuple.recNum) ∈ s.pending

variable (tups : List (HistTuple Hash32))

theorem reloadRecNum_foldl (scan : UInt64 × Bool)
    : let result := tups.foldl reloadRecNumStep scan
      (∀ tup ∈ tups, tup.recNum ≤ result.1) ∧ scan.1 ≤ result.1 ∧
        (result.2 = true → scan.2 = true ∧ ∀ tup ∈ tups, tup.recNum < scan.1) ∧
        (result.1 = scan.1 ∨ ∃ tup ∈ tups, result.1 = tup.recNum) := by
  induction tups generalizing scan with
  | nil =>
    refine ⟨fun _ h => absurd h not_mem_nil, UInt64.le_refl _, fun h => ?_, .inl rfl⟩
    exact ⟨h, fun _ h => absurd h not_mem_nil⟩
  | cons tup tups ih =>
    obtain ⟨hle, hscan, hempty, hfrom⟩ := ih (reloadRecNumStep scan tup)
    dsimp only at hle hscan hempty hfrom ⊢
    rw [foldl_cons]
    generalize tups.foldl reloadRecNumStep (reloadRecNumStep scan tup) = result at *
    rw [reloadRecNumStep] at hscan hempty hfrom
    split at hscan
    . grind
    . grind

theorem reloadGRecNum_spec {tups : List (HistTuple Hash32)}
    (hmax : ∀ tup ∈ tups, tup.recNum < 0xFFFFFFFFFFFFFFFE)
    : (∀ tup ∈ tups, tup.recNum < (reloadGRecNum tups).1) ∧
        (reloadGRecNum tups).1 < (reloadGRecNum tups).2 := by
  have hfold := reloadRecNum_foldl tups.reverse (0, true)
  rw [reloadGRecNum]
  generalize tups.reverse.foldl reloadRecNumStep (0, true) = result at hfold
  obtain ⟨maxRecNum, histEmpty⟩ := result
  obtain ⟨hle, -, hempty, hfrom⟩ := hfold
  dsimp only at hle hempty hfrom ⊢
  cases histEmpty with
  | true =>
    rw [if_pos rfl]
    refine ⟨fun tup htup => ?_, by decide⟩
    have hlt := (hempty rfl).2 tup (mem_reverse.2 htup)
    exact absurd hlt (UInt64.not_lt.2 (le_iff_toNat_le.2 (Nat.zero_le _)))
  | false =>
    rw [if_neg Bool.false_ne_true]
    have hsmall : maxRecNum < 0xFFFFFFFFFFFFFFFE := by
      cases hfrom with
      | inl heq =>
        rw [heq]
        decide
      | inr htup =>
        obtain ⟨tup, htup, heq⟩ := htup
        rw [heq]
        exact hmax tup (mem_reverse.1 htup)
    have hone : maxRecNum < maxRecNum + 1 := by
      apply lt_add_one_of_ne
      rintro rfl
      exact absurd hsmall (by decide)
    have htwo : maxRecNum + 1 < maxRecNum + 1 + 1 := by
      apply lt_add_one_of_ne
      intro heq
      have hval : maxRecNum = 0xFFFFFFFFFFFFFFFE := by
        have h := congrArg (· - 1) heq
        simp only [UInt64.add_sub_cancel] at h
        rw [h]
        decide
      rw [hval] at hsmall
      exact absurd hsmall (by decide)
    exact ⟨fun tup htup => UInt64.lt_of_le_of_lt (hle tup (mem_reverse.2 htup)) hone, htwo⟩

theorem finish_tuple {Tuple : Type} (row : StoredTuple Session Tuple) (session : Session)
    (status : Status Session) : (row.finish session status).tuple = row.tuple := by
  rw [StoredTuple.finish]
  split <;> rfl

theorem live_finish_committed {Tuple : Type} (row : StoredTuple Session Tuple) (session : Session)
    : (row.finish session .committed).live = row.live := by
  rw [StoredTuple.finish]
  split
  . rename_i heq
    rw [StoredTuple.live, StoredTuple.live, heq]
  . rfl

theorem liveNum_commit (rows : List (StoredTuple Session (HistTuple Hash32))) (session : Session)
    (n : UInt64) : LiveNum (rows.map (·.finish session .committed)) n ↔ LiveNum rows n := by
  simp [LiveNum, live_finish_committed, finish_tuple]

theorem LiveNum.rollback {rows : List (StoredTuple Session (HistTuple Hash32))}
    {n : UInt64} (h : LiveNum rows n)
    (hown : ∀ row ∈ rows, row.status = .inProgress session → row.tuple.recNum ≠ n)
    : LiveNum (rows.map (·.finish session .aborted)) n := by
  obtain ⟨row, hrow, hlive, hnum⟩ := h
  have hkeep : row.finish session .aborted = row := by
    rw [StoredTuple.finish, if_neg (fun hstatus => hown row hrow hstatus hnum)]
  exact ⟨row, mem_map.2 ⟨row, hrow, hkeep⟩, hlive, hnum⟩

theorem mem_of_finish {Tuple : Type} {row : StoredTuple Session Tuple} {writer : Session}
    {status : Status Session} (hstatus : status ≠ .inProgress writer)
    (h : (row.finish session status).status = .inProgress writer)
    : row.finish session status = row ∧ writer ≠ session := by
  rw [StoredTuple.finish] at h ⊢
  split at h
  . exact absurd h hstatus
  . rename_i hne
    rw [if_neg hne]
    refine ⟨rfl, fun heq => hne ?_⟩
    rw [h, heq]

section

variable (hinv : RecNumInv s)
include hinv

theorem RecNumInv.lookup
    {recNum : UInt64} (hcache : s.cache = some recNum) (hmax : recNum ≠ 0xFFFFFFFFFFFFFFFF)
    : RecNumInv { s.setPhase session (.holding recNum) with cache := some (recNum + 1) } := by
  constructor
  . exact hinv.nodup
  . intro holder n hphase hused
    cases holding_cases (show Function.update s.phase session _ holder = _ from hphase) with
    | inl heq =>
      cases heq
      by_contra hdead
      exact absurd (hinv.cached _ hcache _ hused hdead) (UInt64.lt_irrefl _)
    | inr hphase => exact hinv.held holder n hphase hused
  . intro cached hcached n hused hdead
    cases hcached
    exact UInt64.lt_trans (hinv.cached _ hcache n hused hdead) (lt_add_one_of_ne hmax)
  . exact hinv.own

theorem RecNumInv.setPhase (session : Session)
    {phase : Phase} (hphase : ∀ n : UInt64, phase ≠ .holding n) : RecNumInv (s.setPhase session phase) := by
  constructor
  . exact hinv.nodup
  . intro holder n hholding hused
    cases holding_cases (show Function.update s.phase session _ holder = _ from hholding) with
    | inl heq => exact absurd heq (hphase n)
    | inr hholding => exact hinv.held holder n hholding hused
  . exact hinv.cached
  . exact hinv.own

theorem RecNumInv.reload {own : HistTuple Hash32 → Bool} (hok : RecNumOk s (.reload session own))
    : RecNumInv { s.setPhase session (.holding (reloadGRecNum (scanned s.rows session own)).1) with
        cache := some (reloadGRecNum (scanned s.rows session own)).2 } := by
  obtain ⟨hseen, hmax⟩ := hok
  obtain ⟨hlt, hnext⟩ := reloadGRecNum_spec hmax
  have hgone : ∀ n ∈ s.used, ¬ LiveNum s.rows n → n < (reloadGRecNum (scanned s.rows session own)).1 := by
    intro n hused hdead
    obtain ⟨tup, htup, hle⟩ := hseen n hused hdead
    exact UInt64.lt_of_le_of_lt hle (hlt tup htup)
  constructor
  . exact hinv.nodup
  . intro holder n hphase hused
    cases holding_cases (show Function.update s.phase session _ holder = _ from hphase) with
    | inl heq =>
      cases heq
      by_contra hdead
      exact absurd (hgone _ hused hdead) (UInt64.lt_irrefl _)
    | inr hphase => exact hinv.held holder n hphase hused
  . intro cached hcached n hused hdead
    cases hcached
    exact UInt64.lt_trans (hgone n hused hdead) hnext
  . exact hinv.own

theorem RecNumInv.insert {recNum : UInt64} (hphase : s.phase session = .holding recNum)
    (hfree : s.rows.any (conflicts recNum) = false) (tuple : HistTuple Hash32) (place : Nat)
    : RecNumInv (s.insertRow session recNum { tuple with recNum } place) := by
  have hnew : recNum ∉ s.used := by
    intro hused
    obtain ⟨row, hrow, hlive, hnum⟩ := hinv.held session recNum hphase hused
    have hconflict := any_eq_false.1 hfree row hrow
    apply hconflict
    rw [conflicts, hlive, hnum, Bool.true_and, decide_eq_true_eq]
  have hlive : ∀ n : UInt64, LiveNum s.rows n →
      LiveNum (s.insertRow session recNum { tuple with recNum } place).rows n := by
    rintro n ⟨row, hrow, hlive, hnum⟩
    exact ⟨row, mem_insertPlace.2 (.inr hrow), hlive, hnum⟩
  have hself : LiveNum (s.insertRow session recNum { tuple with recNum } place).rows recNum :=
    ⟨⟨{ tuple with recNum }, .inProgress session, false⟩, mem_insertPlace.2 (.inl rfl), rfl, rfl⟩
  have hmem : ∀ n ∈ (s.insertRow session recNum { tuple with recNum } place).used,
      n = recNum ∨ n ∈ s.used := by
    intro n hn
    exact mem_cons.1 ((s.used_insertRow session recNum _ place).mem_iff.1 hn)
  constructor
  . rw [(s.used_insertRow session recNum _ place).nodup_iff]
    exact nodup_cons.2 ⟨hnew, hinv.nodup⟩
  . intro holder n hholding hused
    cases hmem n hused with
    | inl heq =>
      rw [heq]
      exact hself
    | inr hused =>
      apply hlive
      cases holding_cases (show Function.update s.phase session _ holder = _ from hholding) with
      | inl heq => cases heq
      | inr hholding => exact hinv.held holder n hholding hused
  . intro cached hcached n hused hdead
    cases hmem n hused with
    | inl heq =>
      rw [heq] at hdead
      exact absurd hself hdead
    | inr hused => exact hinv.cached cached hcached n hused (fun h => hdead (hlive n h))
  . intro row hrow writer hstatus harchived
    cases mem_insertPlace.1 hrow with
    | inl heq =>
      subst heq
      cases hstatus
      exact mem_cons_self
    | inr hrow => exact mem_cons_of_mem _ (hinv.own row hrow writer hstatus harchived)

theorem RecNumInv.commit (session : Session) : RecNumInv (s.commit session) := by
  constructor
  . exact (s.used_commit session).nodup_iff.2 hinv.nodup
  . intro holder n hphase hused
    exact (liveNum_commit s.rows session n).2
      (hinv.held holder n hphase ((s.used_commit session).mem_iff.1 hused))
  . intro recNum hcache n hused hdead
    exact hinv.cached recNum hcache n ((s.used_commit session).mem_iff.1 hused)
      (fun h => hdead ((liveNum_commit s.rows session n).2 h))
  . intro row' hrow' writer hstatus harchived
    obtain ⟨row, hrow, rfl⟩ := mem_map.1 hrow'
    obtain ⟨hkeep, hne⟩ := mem_of_finish (fun h => by cases h) hstatus
    rw [hkeep] at hstatus harchived ⊢
    exact mem_filter.2 ⟨hinv.own row hrow writer hstatus harchived, decide_eq_true hne⟩

theorem RecNumInv.keeps
    (hok : ∀ row ∈ s.rows, row.status = .inProgress session → row.archived = false) {n : UInt64}
    (hused : n ∈ s.committed ++ (s.pending.filter (·.1 ≠ session)).map Prod.snd)
    : ∀ row ∈ s.rows, row.status = .inProgress session → row.tuple.recNum ≠ n := by
  intro row hrow hstatus heq
  have hpending := hinv.own row hrow session hstatus (hok row hrow hstatus)
  have hmine : n ∈ (s.pending.filter (·.1 = session)).map Prod.snd := by
    rw [← heq]
    exact mem_map.2 ⟨_, mem_filter.2 ⟨hpending, decide_eq_true rfl⟩, rfl⟩
  have hperm : ((s.pending.filter (·.1 = session)).map Prod.snd ++
      (s.committed ++ (s.pending.filter (·.1 ≠ session)).map Prod.snd)).Perm s.used := by
    apply List.Perm.trans _ (List.Perm.append_left s.committed (pending_split s.pending session))
    rw [← append_assoc, ← append_assoc]
    exact List.Perm.append_right _ perm_append_comm
  have hnodup := hperm.nodup_iff.2 hinv.nodup
  exact (nodup_append.1 hnodup).2.2 n hmine n hused rfl

theorem RecNumInv.rollback (hok : RecNumOk s (.rollback session)) : RecNumInv (s.rollback session) := by
  constructor
  . exact (s.used_rollback session).nodup hinv.nodup
  . intro holder n hphase hused
    cases holding_cases (show Function.update s.phase session _ holder = _ from hphase) with
    | inl heq => cases heq
    | inr hphase =>
      exact (hinv.held holder n hphase ((s.used_rollback session).subset hused)).rollback
        (hinv.keeps hok hused)
  . intro recNum hcache n hused hdead
    exact hinv.cached recNum hcache n ((s.used_rollback session).subset hused)
      (fun h => hdead (h.rollback (hinv.keeps hok hused)))
  . intro row' hrow' writer hstatus harchived
    obtain ⟨row, hrow, rfl⟩ := mem_map.1 hrow'
    obtain ⟨hkeep, hne⟩ := mem_of_finish (fun h => by cases h) hstatus
    rw [hkeep] at hstatus harchived ⊢
    exact mem_filter.2 ⟨hinv.own row hrow writer hstatus harchived, decide_eq_true hne⟩

end

omit [DecidableEq Session] in
theorem RecNumInv.restart (hinv : RecNumInv s) : RecNumInv (s.restart none) := by
  constructor
  . exact (s.used_restart none).nodup hinv.nodup
  . intro holder n hphase
    cases hphase
  . intro recNum hcache
    cases hcache
  . intro row' hrow' writer hstatus
    obtain ⟨row, hrow, rfl⟩ := mem_map.1 hrow'
    split at hstatus
    . cases hstatus
    . rename_i hnot
      exact absurd hstatus (hnot writer)

theorem histUnify_maxRecNum (unify : HistUnify Hash32)
    : let result := tups.foldl histUnifyStep unify
      unify.maxRecNum ≤ result.maxRecNum ∧ ∀ tup ∈ tups, tup.recNum ≤ result.maxRecNum := by
  induction tups generalizing unify with
  | nil => exact ⟨UInt64.le_refl _, fun _ h => absurd h not_mem_nil⟩
  | cons tup tups ih =>
    obtain ⟨hunify, htups⟩ := ih (histUnifyStep unify tup)
    dsimp only at hunify htups ⊢
    rw [foldl_cons]
    have hstep : unify.maxRecNum ≤ (histUnifyStep unify tup).maxRecNum ∧
        tup.recNum ≤ (histUnifyStep unify tup).maxRecNum := by
      rw [histUnifyStep]
      dsimp only
      split
      . rename_i hle
        exact ⟨hle, UInt64.le_refl _⟩
      . rename_i hle
        exact ⟨UInt64.le_refl _, UInt64.le_of_lt (UInt64.not_le.1 hle)⟩
    refine ⟨UInt64.le_trans hstep.1 hunify, fun tup' htup' => ?_⟩
    cases htup' with
    | head => exact UInt64.le_trans hstep.2 hunify
    | tail _ htup' => exact htups tup' htup'

theorem histUnify_maxRecNum_le (unify : HistUnify Hash32) {n : UInt64}
    (hunify : unify.maxRecNum ≤ n) (htups : ∀ tup ∈ tups, tup.recNum ≤ n)
    : (tups.foldl histUnifyStep unify).maxRecNum ≤ n := by
  induction tups generalizing unify with
  | nil => exact hunify
  | cons tup tups ih =>
    rw [foldl_cons]
    apply ih _ _ (fun tup' htup' => htups tup' (mem_cons_of_mem _ htup'))
    rw [histUnifyStep]
    dsimp only
    split
    . exact htups tup mem_cons_self
    . exact hunify

theorem ledgerHistArchive_single (tup : HistTuple Hash32) (tups : List (HistTuple Hash32))
    : ∃ row : HistTuple Hash32, ledgerHistArchive (tup :: tups) = [row] ∧
        (∀ tup' ∈ tup :: tups, tup'.recNum ≤ row.recNum) ∧
        ∀ n : UInt64, (∀ tup' ∈ tup :: tups, tup'.recNum ≤ n) → row.recNum ≤ n := by
  rw [ledgerHistArchive]
  split
  . rename_i hnone
    cases histUnify_prevHash_none hnone
  . refine ⟨_, rfl, (histUnify_maxRecNum _ _).2, fun n hn => ?_⟩
    exact histUnify_maxRecNum_le _ _ (le_iff_toNat_le.2 (Nat.zero_le _)) hn

theorem RecNumInv.archive (hinv : RecNumInv s)
    (hok : RecNumOk s (.archive session)) {tup : HistTuple Hash32} {tups : List (HistTuple Hash32)}
    (hscan : scanned s.rows session (fun _ => true) = tup :: tups)
    : RecNumInv { s with
        rows := (ledgerHistArchive (tup :: tups)).map (⟨·, .inProgress session, true⟩)
        cache := none } := by
  obtain ⟨row, hrow, hle, hleast⟩ := ledgerHistArchive_single tup tups
  rw [hrow]
  constructor
  . exact hinv.nodup
  . intro holder n hphase hused
    obtain ⟨⟨tup', htup', hnum⟩, hlargest⟩ := hok holder n hphase (hinv.held holder n hphase hused)
    rw [hscan] at htup' hlargest
    refine ⟨⟨row, .inProgress session, true⟩, mem_singleton_self _, rfl, ?_⟩
    apply UInt64.le_antisymm (hleast n hlargest)
    rw [← hnum]
    exact hle tup' htup'
  . intro recNum hcache
    cases hcache
  . intro row' hrow' writer _ harchived
    rw [map_singleton, mem_singleton] at hrow'
    rw [hrow'] at harchived
    cases harchived

theorem recNumStep_inv {s' : RecNumState Session Hash32} (hinv : RecNumInv s)
    {action : RecNumAction Session Hash32} (hok : RecNumOk s action) (h : recNumStep s action = some s')
    : RecNumInv s' := by
  cases action with
  | lookup session =>
    rw [recNumStep] at h
    split at h
    . cases hcache : s.cache with
      | none =>
        rw [hcache] at h
        cases h
        exact hinv.setPhase session (fun _ heq => Phase.noConfusion heq)
      | some recNum =>
        rw [hcache] at h
        cases h
        apply hinv.lookup hcache
        rintro rfl
        exact hok hcache
    . cases h
  | reload session own =>
    rw [recNumStep] at h
    split at h
    . cases h
      exact hinv.reload hok
    . cases h
  | insert session tuple place =>
    rw [recNumStep] at h
    split at h
    . rename_i recNum hphase
      split at h
      . cases h
      . rename_i hfree
        cases h
        exact hinv.insert hphase (Bool.not_eq_true _ ▸ hfree) tuple place
    . cases h
  | commit session =>
    rw [recNumStep] at h
    split at h
    . cases h
      exact hinv.commit session
    . cases h
  | rollback session =>
    cases h
    exact hinv.rollback hok
  | archive session =>
    rw [recNumStep] at h
    split at h
    . split at h
      . cases h
        exact hinv
      . rename_i tup tups hscan
        cases h
        exact hinv.archive hok hscan
    . cases h
  | restart =>
    cases h
    exact hinv.restart

end RecNum

section Blocknum

variable {Session Hash32 : Type} [DecidableEq Session] {s : BlocknumState Session Hash32}

def tailRun (maxNum : UInt64) : List (GchainTuple Hash32) → List UInt64
  | [] => []
  | tup :: tups => if tup.blocknum > maxNum then tup.blocknum :: tailRun tup.blocknum tups else []

-- The numbers of records and those a session still holds.
def NumberState.Given (s : BlocknumState Session Hash32) (n : UInt64) : Prop :=
  n ∈ s.used ∨ ∃ session : Session, s.phase session = .holding n

-- Nothing goes wrong in the step: a reload meets no number above those of the last rows, as far as they
-- grow backwards, and none of 2^31 or more, and the counter is neither reset nor at its end when it is
-- incremented.
def BlocknumOk (s : BlocknumState Session Hash32) (action : BlocknumAction Session Hash32) : Prop :=
  match action with
  | .reload _ => s.cache = 0 →
      (∀ row ∈ s.rows, row.tuple.blocknum < 0x80000000) ∧
        ∀ n : UInt64, s.Given n → ∃ b ∈ tailRun 0 (s.rows.map (·.tuple)).reverse, n ≤ b
  | .fetchAdd _ => s.cache ≠ 0 ∧ s.cache ≠ 0xFFFFFFFFFFFFFFFF
  | _ => True

structure BlocknumInv (s : BlocknumState Session Hash32) : Prop where
  nodup : s.used.Nodup
  fresh : ∀ (session : Session) (n : UInt64), s.phase session = .holding n → n ∉ s.used
  distinct : ∀ (session session' : Session) (n : UInt64), s.phase session = .holding n →
    s.phase session' = .holding n → session = session'
  below : s.cache ≠ 0 → ∀ n : UInt64, s.Given n → n < s.cache

theorem toUInt32_lt_iff {x : UInt64} {y : UInt32} (hx : x < 0x80000000)
    : y < x.toUInt32 ↔ y.toUInt64 < x := by
  have hbound : (0x80000000 : UInt64).toNat = 2147483648 := rfl
  rw [lt_iff_toNat_lt, hbound] at hx
  rw [UInt32.lt_iff_toNat_lt, lt_iff_toNat_lt, toNat_toUInt32, UInt32.toNat_toUInt64]
  omega

theorem toUInt64_toUInt32 {x : UInt64} (hx : x < 0x80000000) : x.toUInt32.toUInt64 = x := by
  have hbound : (0x80000000 : UInt64).toNat = 2147483648 := rfl
  rw [lt_iff_toNat_lt, hbound] at hx
  rw [← UInt64.toNat_inj, UInt32.toNat_toUInt64, toNat_toUInt32]
  omega

theorem reloadNextLoop_spec {tups : List (GchainTuple Hash32)} {maxNum : UInt32}
    (hsmall : ∀ tup ∈ tups, tup.blocknum < 0x80000000) (hmax : maxNum.toUInt64 < 0x80000000)
    : (∀ b ∈ tailRun maxNum.toUInt64 tups, b ≤ (reloadNextLoop maxNum tups).toUInt64) ∧
        maxNum.toUInt64 ≤ (reloadNextLoop maxNum tups).toUInt64 ∧
        (reloadNextLoop maxNum tups).toUInt64 < 0x80000000 := by
  induction tups generalizing maxNum with
  | nil => exact ⟨fun _ h => absurd h not_mem_nil, UInt64.le_refl _, hmax⟩
  | cons tup tups ih =>
    have htup := hsmall tup mem_cons_self
    rw [reloadNextLoop, tailRun]
    by_cases hgt : tup.blocknum > maxNum.toUInt64
    . rw [if_pos hgt, if_pos ((toUInt32_lt_iff htup).2 hgt)]
      have h := @ih tup.blocknum.toUInt32 (fun tup' htup' => hsmall tup' (mem_cons_of_mem _ htup'))
        (by rw [toUInt64_toUInt32 htup]; exact htup)
      rw [toUInt64_toUInt32 htup] at h
      obtain ⟨hrun, hle, hlt⟩ := h
      refine ⟨fun b hb => ?_, UInt64.le_trans (UInt64.le_of_lt hgt) hle, hlt⟩
      cases hb with
      | head => exact hle
      | tail _ hb => exact hrun b hb
    . rw [if_neg hgt, if_neg (fun h => hgt ((toUInt32_lt_iff htup).1 h))]
      exact ⟨fun _ h => absurd h not_mem_nil, UInt64.le_refl _, hmax⟩

theorem ofInt_toInt32 {x : UInt32} (h : x.toUInt64 < 0x80000000)
    : UInt64.ofInt x.toInt32.toInt = x.toUInt64 := by
  have hbound : (0x80000000 : UInt64).toNat = 2147483648 := rfl
  rw [lt_iff_toNat_lt, hbound, UInt32.toNat_toUInt64] at h
  have hint : x.toInt32.toInt = x.toNat := BitVec.toInt_eq_toNat_of_lt (x := x.toBitVec) (by
    show 2 * x.toNat < 2 ^ 32
    omega)
  rw [hint, ← UInt64.toNat_inj, UInt64.ofInt, toNat_ofNat', UInt32.toNat_toUInt64]
  omega

theorem lt_one_add {b m : UInt64} (hle : b ≤ m) (hm : m < 0x80000000) : b < 0 + 1 + m := by
  have hbound : (0x80000000 : UInt64).toNat = 2147483648 := rfl
  have hone : (1 : UInt64).toNat = 1 := rfl
  have hzero : (0 : UInt64).toNat = 0 := rfl
  rw [lt_iff_toNat_lt, hbound] at hm
  rw [le_iff_toNat_le] at hle
  rw [lt_iff_toNat_lt, UInt64.toNat_add, UInt64.toNat_add, hone, hzero]
  omega

section

variable (hinv : BlocknumInv s)
include hinv

theorem BlocknumInv.setPhase (session : Session) {phase : Phase} (hphase : ∀ n : UInt64, phase ≠ .holding n)
    : BlocknumInv (s.setPhase session phase) := by
  have hold : ∀ (holder : Session) (n : UInt64), (s.setPhase session phase).phase holder = .holding n →
      s.phase holder = .holding n := by
    intro holder n hholding
    cases holding_cases (show Function.update s.phase session _ holder = _ from hholding) with
    | inl heq => exact absurd heq (hphase n)
    | inr hholding => exact hholding
  constructor
  . exact hinv.nodup
  . exact fun holder n hholding => hinv.fresh holder n (hold holder n hholding)
  . exact fun holder holder' n h h' => hinv.distinct holder holder' n (hold holder n h) (hold holder' n h')
  . intro hcache n hgiven
    apply hinv.below hcache
    cases hgiven with
    | inl hused => exact .inl hused
    | inr hholding =>
      obtain ⟨holder, hholding⟩ := hholding
      exact .inr ⟨holder, hold holder n hholding⟩

theorem BlocknumInv.reload (hok : BlocknumOk s (.reload session)) (hcache : s.cache = 0)
    : BlocknumInv { s.setPhase session .ready with
        cache := s.cache + 1 + UInt64.ofInt (reloadNextGBlocknum (s.rows.map (·.tuple))).toInt32.toInt } := by
  obtain ⟨hsmall, hrun⟩ := hok hcache
  have hspec := @reloadNextLoop_spec _ (s.rows.map (·.tuple)).reverse 0 (by
    intro tup htup
    obtain ⟨row, hrow, rfl⟩ := mem_map.1 (mem_reverse.1 htup)
    exact hsmall row hrow) (by decide)
  obtain ⟨hle, -, hlt⟩ := hspec
  have hphase := hinv.setPhase session (show ∀ n : UInt64, Phase.ready ≠ .holding n from
    fun _ heq => Phase.noConfusion heq)
  constructor
  . exact hphase.nodup
  . exact hphase.fresh
  . exact hphase.distinct
  . intro _ n hgiven
    rw [hcache, reloadNextGBlocknum, ofInt_toInt32 hlt]
    have hold : s.Given n := by
      cases hgiven with
      | inl hused => exact .inl hused
      | inr hholding =>
        obtain ⟨holder, hholding⟩ := hholding
        cases holding_cases (show Function.update s.phase session _ holder = _ from hholding) with
        | inl heq => cases heq
        | inr hholding => exact .inr ⟨holder, hholding⟩
    obtain ⟨b, hb, hnb⟩ := hrun n hold
    exact lt_one_add (UInt64.le_trans hnb (hle b hb)) hlt

theorem BlocknumInv.fetchAdd (hok : BlocknumOk s (.fetchAdd session))
    : BlocknumInv { s.setPhase session (.holding s.cache) with cache := s.cache + 1 } := by
  obtain ⟨hne, hmax⟩ := hok
  have hlt := lt_add_one_of_ne hmax
  have hfresh : ¬ s.Given s.cache := fun h => absurd (hinv.below hne _ h) (UInt64.lt_irrefl _)
  constructor
  . exact hinv.nodup
  . intro holder n hphase hused
    cases holding_cases (show Function.update s.phase session _ holder = _ from hphase) with
    | inl heq =>
      cases heq
      exact hfresh (.inl hused)
    | inr hphase => exact hinv.fresh holder n hphase hused
  . intro holder holder' n hphase hphase'
    have hmine : ∀ t : Session, Function.update s.phase session (.holding s.cache) t = .holding n →
        t ≠ session → s.phase t = .holding n := by
      intro t ht hts
      rw [update_of_ne hts] at ht
      exact ht
    have hself : ∀ t : Session, Function.update s.phase session (.holding s.cache) t = .holding n →
        t = session → n = s.cache := by
      rintro t ht rfl
      rw [update_self] at ht
      cases ht
      rfl
    by_cases hs : holder = session
    . by_cases hs' : holder' = session
      . rw [hs, hs']
      . have hheld := hmine holder' hphase' hs'
        rw [hself holder hphase hs] at hheld
        exact absurd (.inr ⟨holder', hheld⟩) hfresh
    . by_cases hs' : holder' = session
      . have hheld := hmine holder hphase hs
        rw [hself holder' hphase' hs'] at hheld
        exact absurd (.inr ⟨holder, hheld⟩) hfresh
      . exact hinv.distinct holder holder' n (hmine holder hphase hs) (hmine holder' hphase' hs')
  . intro _ n hgiven
    cases hgiven with
    | inl hused => exact UInt64.lt_trans (hinv.below hne n (.inl hused)) hlt
    | inr hholding =>
      obtain ⟨holder, hholding⟩ := hholding
      cases holding_cases (show Function.update s.phase session _ holder = _ from hholding) with
      | inl heq =>
        cases heq
        exact hlt
      | inr hholding => exact UInt64.lt_trans (hinv.below hne n (.inr ⟨holder, hholding⟩)) hlt

theorem BlocknumInv.insert
    {blocknum : UInt64} (hphase : s.phase session = .holding blocknum) (tuple : GchainTuple Hash32)
    (place : Nat) : BlocknumInv (s.insertRow session blocknum { tuple with blocknum } place) := by
  have hperm := s.used_insertRow session blocknum { tuple with blocknum } place
  have hold : ∀ (holder : Session) (n : UInt64),
      (s.insertRow session blocknum { tuple with blocknum } place).phase holder = .holding n →
      holder ≠ session ∧ s.phase holder = .holding n := by
    intro holder n hholding
    have hholding' : Function.update s.phase session .idle holder = .holding n := hholding
    by_cases heq : holder = session
    . rw [heq, update_self] at hholding'
      cases hholding'
    . rw [update_of_ne heq] at hholding'
      exact ⟨heq, hholding'⟩
  constructor
  . rw [hperm.nodup_iff]
    exact nodup_cons.2 ⟨hinv.fresh session blocknum hphase, hinv.nodup⟩
  . intro holder n hholding hused
    obtain ⟨hne, hholding⟩ := hold holder n hholding
    cases mem_cons.1 (hperm.mem_iff.1 hused) with
    | inl heq =>
      rw [heq] at hholding
      exact hne (hinv.distinct holder session blocknum hholding hphase)
    | inr hused => exact hinv.fresh holder n hholding hused
  . exact fun holder holder' n h h' =>
      hinv.distinct holder holder' n (hold holder n h).2 (hold holder' n h').2
  . intro hcache n hgiven
    apply hinv.below hcache
    cases hgiven with
    | inl hused =>
      cases mem_cons.1 (hperm.mem_iff.1 hused) with
      | inl heq =>
        rw [heq]
        exact .inr ⟨session, hphase⟩
      | inr hused => exact .inl hused
    | inr hholding =>
      obtain ⟨holder, hholding⟩ := hholding
      exact .inr ⟨holder, (hold holder n hholding).2⟩

end

omit [DecidableEq Session] in
theorem BlocknumInv.shrink {s' : BlocknumState Session Hash32} (hinv : BlocknumInv s)
    (hnodup : s'.used.Nodup) (hused : ∀ n ∈ s'.used, n ∈ s.used)
    (hphase : ∀ (session : Session) (n : UInt64), s'.phase session = .holding n →
      s.phase session = .holding n)
    (hcache : s'.cache = s.cache ∨ s'.cache = 0) : BlocknumInv s' := by
  constructor
  . exact hnodup
  . exact fun session n h hmem => hinv.fresh session n (hphase session n h) (hused n hmem)
  . exact fun session session' n h h' =>
      hinv.distinct session session' n (hphase session n h) (hphase session' n h')
  . intro hne n hgiven
    cases hcache with
    | inl heq =>
      rw [heq] at hne ⊢
      apply hinv.below hne
      cases hgiven with
      | inl hmem => exact .inl (hused n hmem)
      | inr hholding =>
        obtain ⟨session, hholding⟩ := hholding
        exact .inr ⟨session, hphase session n hholding⟩
    | inr heq => exact absurd heq hne

variable (pgMd5Binary : CString → Hash32) (hash32out : Hash32 → CString)

theorem blocknumStep_inv {s' : BlocknumState Session Hash32} (hinv : BlocknumInv s)
    {action : BlocknumAction Session Hash32} (hok : BlocknumOk s action)
    (h : blocknumStep pgMd5Binary hash32out s action = some s') : BlocknumInv s' := by
  cases action with
  | test session =>
    rw [blocknumStep] at h
    split at h
    . cases h
      apply hinv.setPhase session
      intro n
      split <;> exact fun heq => Phase.noConfusion heq
    . cases h
  | reload session =>
    rw [blocknumStep] at h
    split at h
    . split at h
      . rename_i hcache
        cases h
        exact hinv.reload hok hcache
      . cases h
        exact hinv.setPhase session (fun _ heq => Phase.noConfusion heq)
    . cases h
  | fetchAdd session =>
    rw [blocknumStep] at h
    split at h
    . cases h
      exact hinv.fetchAdd hok
    . cases h
  | insert session tuple place =>
    rw [blocknumStep] at h
    split at h
    . rename_i blocknum hphase
      cases h
      exact hinv.insert hphase tuple place
    . cases h
  | commit session =>
    rw [blocknumStep] at h
    split at h
    . cases h
      have hperm := s.used_commit session
      exact hinv.shrink (hperm.nodup_iff.2 hinv.nodup) (fun n => hperm.mem_iff.1) (fun _ _ h => h) (.inl rfl)
    . cases h
  | rollback session =>
    cases h
    have hsub := s.used_rollback session
    apply hinv.shrink (hsub.nodup hinv.nodup) (fun n => fun h => hsub.subset h) _ (.inl rfl)
    intro holder n hholding
    cases holding_cases (show Function.update s.phase session _ holder = _ from hholding) with
    | inl heq => cases heq
    | inr hholding => exact hholding
  | archive session =>
    rw [blocknumStep] at h
    split at h
    . split at h
      . cases h
        exact hinv
      . cases h
        exact hinv.shrink hinv.nodup (fun _ h => h) (fun _ _ h => h) (.inr rfl)
    . cases h
  | restart =>
    cases h
    have hsub := s.used_restart 0
    apply hinv.shrink (hsub.nodup hinv.nodup) (fun n => fun h => hsub.subset h) _ (.inr rfl)
    intro holder n hholding
    cases hholding

end Blocknum

section Runs

variable {Session Hash32 : Type} [DecidableEq Session]

def NumberState.init {Tuple Cache : Type} (emptyCache : Cache) : NumberState Session Tuple Cache where
  cache := emptyCache
  rows := []
  phase := fun _ => .idle
  pending := []
  committed := []

def RecNumRun (s s' : RecNumState Session Hash32) : Prop :=
  ∃ action : RecNumAction Session Hash32, RecNumOk s action ∧ recNumStep s action = some s'

def BlocknumRun (pgMd5Binary : CString → Hash32) (hash32out : Hash32 → CString)
    (s s' : BlocknumState Session Hash32) : Prop :=
  ∃ action : BlocknumAction Session Hash32, BlocknumOk s action ∧
    blocknumStep pgMd5Binary hash32out s action = some s'

theorem recNumInv_of_run {s : RecNumState Session Hash32}
    (hrun : Relation.ReflTransGen RecNumRun (.init none) s) : RecNumInv s := by
  induction hrun with
  | refl =>
    refine ⟨nodup_nil, fun session n h => ?_, fun recNum h => ?_, fun row h => ?_⟩
    . cases h
    . cases h
    . cases h
  | tail _ hstep ih =>
    obtain ⟨action, hok, hstep⟩ := hstep
    exact recNumStep_inv ih hok hstep

theorem blocknumInv_of_run {pgMd5Binary : CString → Hash32} {hash32out : Hash32 → CString}
    {s : BlocknumState Session Hash32}
    (hrun : Relation.ReflTransGen (BlocknumRun pgMd5Binary hash32out) (.init 0) s) : BlocknumInv s := by
  induction hrun with
  | refl =>
    refine ⟨nodup_nil, fun session n h => ?_, fun session session' n h => ?_, fun h => ?_⟩
    . cases h
    . cases h
    . exact absurd rfl h
  | tail _ hstep ih =>
    obtain ⟨action, hok, hstep⟩ := hstep
    exact blocknumStep_inv pgMd5Binary hash32out ih hok hstep

theorem numbers_nodup (pgMd5Binary : CString → Hash32) (hash32out : Hash32 → CString)
    : (∀ s : RecNumState Session Hash32, Relation.ReflTransGen RecNumRun (.init none) s →
        s.committed.Nodup) ∧
      (∀ s : BlocknumState Session Hash32,
        Relation.ReflTransGen (BlocknumRun pgMd5Binary hash32out) (.init 0) s → s.committed.Nodup) := by
  constructor
  . intro s hrun
    exact (List.nodup_append.1 (recNumInv_of_run hrun).nodup).1
  . intro s hrun
    exact (List.nodup_append.1 (blocknumInv_of_run hrun).nodup).1

def runActions {State Action : Type} (step : State → Action → Option State)
    : List Action → State → Option State
  | [], s => some s
  | action :: actions, s => (step s action).bind (runActions step actions)

theorem run_of_actions {State Action : Type} {step : State → Action → Option State}
    {actions : List Action} {s s' : State} (h : runActions step actions s = some s')
    : Relation.ReflTransGen (fun s s' => ∃ action : Action, step s action = some s') s s' := by
  induction actions generalizing s with
  | nil =>
    cases h
    exact .refl
  | cons action actions ih =>
    obtain ⟨next, hstep, hrest⟩ := Option.bind_eq_some_iff.1 h
    exact .head ⟨action, hstep⟩ (ih hrest)

section Checked

-- Over the list's members, not over every 64-bit value.
instance decidableForallMem (ns : List UInt64) (p : UInt64 → Prop) [DecidablePred p]
    : Decidable (∀ n ∈ ns, p n) :=
  List.decidableBAll p ns

instance decidableExistsMem (ns : List UInt64) (p : UInt64 → Prop) [DecidablePred p]
    : Decidable (∃ n ∈ ns, p n) :=
  List.decidableBEx p ns

instance (phase : Bool → Phase) (p : UInt64 → Prop) [DecidablePred p]
    : Decidable (∀ (session : Bool) (n : UInt64), phase session = .holding n → p n) :=
  decidable_of_iff (∀ session : Bool, ∀ n ∈ (match phase session with | .holding n => [n] | _ => []), p n) (by
    constructor
    . intro h session n hphase
      apply h session
      rw [hphase]
      exact mem_singleton_self n
    . intro h session n hmem
      split at hmem
      . rename_i hphase
        rw [mem_singleton.1 hmem]
        exact h session _ hphase
      . cases hmem)

instance (rows : List (StoredTuple Bool (HistTuple CString))) (n : UInt64) : Decidable (LiveNum rows n) :=
  inferInstanceAs (Decidable (∃ row ∈ rows, _))

instance (s : RecNumState Bool CString) (action : RecNumAction Bool CString) : Decidable (RecNumOk s action) :=
  match action with
  | .lookup _ => inferInstanceAs (Decidable (_ ≠ _))
  | .reload .. => inferInstanceAs (Decidable (_ ∧ _))
  | .archive _ => inferInstanceAs (Decidable (∀ (_ : Bool) (_ : UInt64), _ → LiveNum _ _ → _))
  | .rollback _ => inferInstanceAs (Decidable (∀ row ∈ s.rows, _))
  | .restart => inferInstanceAs (Decidable (∀ row ∈ s.rows, _))
  | .insert .. | .commit _ => inferInstanceAs (Decidable True)

instance (s : BlocknumState Bool CString) (p : UInt64 → Prop) [DecidablePred p]
    : Decidable (∀ n : UInt64, s.Given n → p n) :=
  decidable_of_iff ((∀ n ∈ s.used, p n) ∧ ∀ (session : Bool) (n : UInt64), s.phase session = .holding n → p n) (by
    simp only [NumberState.Given, or_imp, forall_and, forall_exists_index]
    exact and_congr_right fun _ => forall_comm)

instance (s : BlocknumState Bool CString) (action : BlocknumAction Bool CString)
    : Decidable (BlocknumOk s action) :=
  match action with
  | .reload _ => inferInstanceAs (Decidable (_ → _ ∧ _))
  | .fetchAdd _ => inferInstanceAs (Decidable (_ ∧ _))
  | .test _ | .insert .. | .commit _ | .rollback _ | .archive _ | .restart => inferInstanceAs (Decidable True)

def checked {State Action : Type} (ok : State → Action → Prop) [∀ s action, Decidable (ok s action)]
    (step : State → Action → Option State) (s : State) (action : Action) : Option State :=
  if ok s action then step s action else none

end Checked

def someRecord : HistTuple CString := ⟨0, some 1, none, []⟩

def someBlock : GchainTuple CString where
  blocknum := 0
  dbName := []
  userName := []
  startTime := 0
  relid := 16384
  relNsp := []
  relName := []
  relHash := 1
  globalHash := []
  txCommand := []

def appendBlock (session : Bool) (place : Nat) : List (BlocknumAction Bool CString) :=
  [.test session, .reload session, .fetchAdd session, .insert session someBlock place, .commit session]

def appendNext (session : Bool) (place : Nat) : List (BlocknumAction Bool CString) :=
  [.test session, .fetchAdd session, .insert session someBlock place, .commit session]

-- Two sessions, an archive of their records and a reload that finds it.
def recordRun : List (RecNumAction Bool CString) :=
  [.lookup false, .reload false (fun _ => true), .insert false someRecord 0, .commit false,
    .lookup true, .insert true someRecord 1, .commit true, .archive false, .commit false,
    .lookup true, .reload true (fun _ => true), .insert true someRecord 1, .commit true]

-- Two sessions and a reload behind a restart.
def blockRun : List (BlocknumAction Bool CString) :=
  appendBlock false 0 ++ appendNext true 1 ++ [.restart] ++ appendBlock false 2

theorem recordRun_committed
    : (runActions (checked RecNumOk recNumStep) recordRun (.init none)).map (·.committed)
        = some [0, 1, 2] := by
  decide

theorem blockRun_committed
    : (runActions (checked BlocknumOk (blocknumStep id id)) blockRun (.init 0)).map (·.committed)
        = some [1, 2, 3] := by
  decide

theorem reflTransGen_of_checked {State Action : Type} {ok : State → Action → Prop}
    [∀ s action, Decidable (ok s action)] {step : State → Action → Option State}
    {actions : List Action} {s s' : State} (h : runActions (checked ok step) actions s = some s')
    : Relation.ReflTransGen (fun s s' => ∃ action : Action, ok s action ∧ step s action = some s') s s' := by
  refine Relation.ReflTransGen.mono ?_ _ _ (run_of_actions h)
  rintro s s' ⟨action, hstep⟩
  obtain ⟨hok, hstep⟩ := Option.ite_none_right_eq_some.1 hstep
  exact ⟨action, hok, hstep⟩

theorem numbers_nodup_twoSessions
    : (∃ s : RecNumState Bool CString, s.committed = [0, 1, 2] ∧ s.committed.Nodup) ∧
        ∃ s : BlocknumState Bool CString, s.committed = [1, 2, 3] ∧ s.committed.Nodup := by
  obtain ⟨s, hrun, hcommitted⟩ := Option.map_eq_some_iff.1 recordRun_committed
  obtain ⟨s', hrun', hcommitted'⟩ := Option.map_eq_some_iff.1 blockRun_committed
  have hnodup := @numbers_nodup Bool CString _ id id
  exact ⟨⟨s, hcommitted, hnodup.1 s (reflTransGen_of_checked hrun)⟩,
    ⟨s', hcommitted', hnodup.2 s' (reflTransGen_of_checked hrun')⟩⟩

def archiveRun : List (BlocknumAction Bool CString) :=
  appendBlock false 0 ++ appendNext true 1 ++ [.archive false, .commit false] ++ appendBlock true 1

theorem archiveRun_committed
    : (runActions (blocknumStep id id) archiveRun (.init 0)).map (·.committed) = some [1, 2, 2] := by
  decide

theorem numbers_repeat
    : ¬ ∀ s : BlocknumState Bool CString,
        Relation.ReflTransGen (fun s s' => ∃ action : BlocknumAction Bool CString,
          blocknumStep id id s action = some s') (.init 0) s → s.committed.Nodup := by
  intro h
  obtain ⟨s, hs, hcommitted⟩ := Option.map_eq_some_iff.1 archiveRun_committed
  have hnodup := h s (run_of_actions hs)
  rw [hcommitted] at hnodup
  exact absurd hnodup (by decide)

end Runs

end Ledger

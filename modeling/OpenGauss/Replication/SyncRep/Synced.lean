import OpenGauss.Replication.SyncRep.Positions

/-!
This module shows when a commit that is acknowledged waits for the configured standbys.
-/

open List

namespace SyncRep

variable (memory : WaitMode → Nat → Nat → Nat) (checkAmSync : Bool)

namespace SyncRepState

open SortedRank

section Accepted

theorem go_priority (groups : Nat) (conf : SyncRepConfigData) (hpriority : conf.syncrepMethod = .priority)
    (source : List SyncRepConfigData) (hmem : conf ∈ source)
    : ∀ (existers : List String), transformSynchronousStandbyNames.go groups existers source = true →
        groups ≤ 1 := by
  induction source with
  | nil => simp at hmem
  | cons head rest ih =>
    intro existers h
    unfold transformSynchronousStandbyNames.go at h
    split at h
    . simp at h
    . grind

theorem eq_singleton_of_priority (source : List SyncRepConfigData)
    (h : transformSynchronousStandbyNames source = true) (conf : SyncRepConfigData) (hmem : conf ∈ source)
    (hpriority : conf.syncrepMethod = .priority)
    : source = [conf] := by
  have hlength : source.length ≤ 1 := by
    unfold transformSynchronousStandbyNames at h
    split at h
    . simp at h
    . exact go_priority _ conf hpriority source hmem _ h
  cases source with
  | nil => simp at hmem
  | cons head rest =>
    have hrest : rest = [] := by
      rw [length_cons] at hlength
      rw [← length_eq_zero_iff]
      omega
    rw [hrest, mem_singleton] at hmem
    rw [hrest, hmem]

end Accepted

section Fill

variable (s : SyncRepState)

def fill (ptr : WaitMode → Nat) : WaitMode → Nat :=
  s.fillInvalid (ptr .receive) (ptr .write) (ptr .flush) (ptr .apply)

theorem ifInvalid_ne_zero (ptr default : Nat) (h : default ≠ 0) : ifInvalid ptr default ≠ 0 := by
  unfold ifInvalid
  split
  . exact h
  . assumption

theorem ifInvalid_of_ne_zero (ptr default : Nat) (h : ptr ≠ 0) : ifInvalid ptr default = ptr := by
  simp [ifInvalid, h]

theorem fill_ne_zero (ptr : WaitMode → Nat) (mode : WaitMode) : s.fill ptr mode ≠ 0 := by
  have hwrite := ifInvalid_ne_zero (ptr .write) _ s.xlog.write_ne
  have hflush := ifInvalid_ne_zero (ptr .flush) _ s.xlog.flush_ne
  cases mode with
  | receive => exact ifInvalid_ne_zero _ _ hwrite
  | write => exact hwrite
  | flush => exact hflush
  | apply => exact ifInvalid_ne_zero _ _ hflush

theorem fill_of_ne_zero (ptr : WaitMode → Nat) (mode : WaitMode) (h : ptr mode ≠ 0)
    : s.fill ptr mode = ptr mode := by
  cases mode with
  | receive => exact ifInvalid_of_ne_zero _ _ h
  | write => exact ifInvalid_of_ne_zero _ _ h
  | flush => exact ifInvalid_of_ne_zero _ _ h
  | apply => exact ifInvalid_of_ne_zero _ _ h

theorem getSyncRecPtr_eq_synced (hexit : s.quickExit checkAmSync = false)
    (henough : s.checkSyncStandbysNum s.getSyncStandbys = .enough) (ptr : WaitMode → Nat)
    (hptr : ∀ mode, s.groupsRecPtr (memory mode) s.getSyncStandbys mode = some (ptr mode))
    : s.getSyncRecPtr memory checkAmSync = .synced (s.fill ptr) := by
  unfold getSyncRecPtr
  dsimp only
  rw [if_neg (by simp [hexit]), if_neg (by simp [henough])]
  simp only [hptr, Option.pure_def, Option.bind_eq_bind, Option.bind_some]
  rfl

def WaitMode.select (receive write flush replay : Nat) : WaitMode → Nat
  | .receive => receive
  | .write => write
  | .flush => flush
  | .apply => replay

theorem groupsRecPtr_of_synced (hexit : s.quickExit checkAmSync = false)
    (henough : s.checkSyncStandbysNum s.getSyncStandbys = .enough) (ptr : WaitMode → Nat)
    (h : s.getSyncRecPtr memory checkAmSync = .synced ptr)
    : ∃ raw : WaitMode → Nat, (∀ mode, s.groupsRecPtr (memory mode) s.getSyncStandbys mode = some (raw mode))
          ∧ ptr = s.fill raw := by
  unfold getSyncRecPtr at h
  dsimp only at h
  rw [if_neg (by simp [hexit]), if_neg (by simp [henough])] at h
  split at h
  . simp at h
  . next ptrs heq =>
    simp only [Option.pure_def, Option.bind_eq_bind, Option.bind_eq_some_iff, Option.some.injEq] at heq
    obtain ⟨receive, hreceive, write, hwrite, flush, hflush, replay, hreplay, hfill⟩ := heq
    refine ⟨WaitMode.select receive write flush replay, ?_, ?_⟩
    . intro mode
      cases mode with
      | receive => exact hreceive
      | write => exact hwrite
      | flush => exact hflush
      | apply => exact hreplay
    . rw [← SyncRecPtr.synced.inj h, ← hfill]
      rfl

end Fill

section Groups

variable (s : SyncRepState)

variable (h : s.mostAvailableSync = false)
include h

theorem priority_synced (conf : SyncRepConfigData)
    (hconfig : s.syncRepConfig = [conf]) (hpriority : conf.syncrepMethod = .priority)
    (hpos : 1 ≤ conf.numSync)
    (henough : s.checkSyncStandbysNum s.getSyncStandbys = .enough) (hpositions : s.PriorityPositions)
    (memory : Nat → Nat → Nat) (mode : WaitMode)
    : ∃ p, s.groupsRecPtr memory s.getSyncStandbys mode = some p ∧ p ≠ 0
        ∧ IsGreatest {p | s.Acknowledged mode p} p := by
  have hgroup : (conf, 0) ∈ s.syncRepConfig.zipIdx := by simp [hconfig]
  have hnum := s.numSync_le_of_enough conf 0 hgroup henough
  have hmem := s.mem_priorityGroup_iff conf hpriority 0 hnum
  have hnonzero : ∀ p, p ∈ (s.getSyncStandbysInGroup conf 0 none).map (·.position mode) → p ≠ 0 := by
    intro p hp
    rw [mem_map] at hp
    obtain ⟨stby, hstby, rfl⟩ := hp
    rw [hmem] at hstby
    exact hpositions conf 0 hgroup stby hstby.left hstby.right.left hstby.right.right mode
  have hne : (s.getSyncStandbysInGroup conf 0 none).map (·.position mode) ≠ [] := by
    intro hnil
    rw [map_eq_nil_iff] at hnil
    rw [hnil, length_nil] at hnum
    omega
  have hold := foldl_oldestStep _ hne hnonzero
  have hstandbys : ∀ stby, stby ∈ s.getSyncStandbys → stby.tooOld mode = false := by
    intro stby hstby
    unfold getSyncStandbys at hstby
    rw [mem_flatMap] at hstby
    obtain ⟨group, hgroup, hstby⟩ := hstby
    exact s.tooOld_of_mem_group h group.1 group.2 stby hstby mode
  have hptr : s.groupsRecPtr memory s.getSyncStandbys mode
      = some (((s.getSyncStandbysInGroup conf 0 none).map (·.position mode)).foldl oldestStep 0) := by
    unfold groupsRecPtr
    rw [hconfig]
    simp only [zipIdx_cons, zipIdx_nil, foldlM_cons, foldlM_nil, groupRecPtr, hpriority]
    rw [getOldestSyncRecPtr_eq s 0 _ conf 0 mode hstandbys, s.filter_getSyncStandbys conf 0 hgroup]
    rfl
  refine ⟨_, hptr, hnonzero _ hold.right, ?_, ?_⟩
  . intro conf' groupid hconf'
    rw [hconfig] at hconf'
    simp only [zipIdx_cons, zipIdx_nil, mem_singleton] at hconf'
    obtain ⟨rfl, rfl⟩ := Prod.mk.inj hconf'
    rw [hpriority]
    intro stby hstby heligible hrank
    apply hold.left
    rw [mem_map]
    exact ⟨stby, (hmem stby).mpr ⟨hstby, heligible, hrank⟩, rfl⟩
  . intro p hp
    have hp := hp conf 0 hgroup
    rw [hpriority] at hp
    have hlast := hold.right
    rw [mem_map] at hlast
    obtain ⟨stby, hstby, heq⟩ := hlast
    rw [← heq]
    rw [hmem] at hstby
    exact hp stby hstby.left hstby.right.left hstby.right.right

variable (hquorum : ∀ conf, conf ∈ s.syncRepConfig → conf.syncrepMethod = .quorum)
include hquorum

variable (henough : s.checkSyncStandbysNum s.getSyncStandbys = .enough)
include henough

theorem quorum_groupsRecPtr
    (hnth : ∀ conf groupid, (conf, groupid) ∈ s.syncRepConfig.zipIdx → conf.numSync % 256 ≠ 0)
    (memory : Nat → Nat → Nat) (mode : WaitMode)
    (hentry : ∀ group, group ∈ s.syncRepConfig.zipIdx → s.groupEntry memory mode group ≠ 0)
    : s.groupsRecPtr memory s.getSyncStandbys mode
        =
      some ((s.syncRepConfig.zipIdx.map (s.groupEntry memory mode)).foldl oldestStep 0) := by
  unfold groupsRecPtr
  apply foldlM_some
  intro group hgroup ptr
  exact s.groupRecPtr_quorum h memory mode ptr group.1 (hquorum _ (fst_mem_of_mem_zipIdx hgroup))
    group.2 hgroup (hnth _ _ hgroup) (s.numSync_le_of_enough _ _ hgroup henough) (hentry group hgroup)

theorem quorum_synced (hpositions : s.QuorumPositions) (memory : Nat → Nat → Nat) (mode : WaitMode)
    : ∃ p, s.groupsRecPtr memory s.getSyncStandbys mode = some p ∧ p ≠ 0
        ∧ IsGreatest {p | s.Acknowledged mode p} p := by
  obtain ⟨hnth, hpositions⟩ := hpositions
  obtain ⟨p, hp, hreached, conf, groupid, hgroup, hpast⟩ := hpositions mode
  have hlower : ∀ group, group ∈ s.syncRepConfig.zipIdx → p ≤ s.groupEntry memory mode group := by
    intro group hgroup
    exact s.le_groupEntry_of_reached h memory mode group.1
      (hquorum _ (fst_mem_of_mem_zipIdx hgroup)) group.2 (hnth _ _ hgroup)
      (s.numSync_le_of_enough _ _ hgroup henough) p (hreached _ _ hgroup)
  have hupper : s.groupEntry memory mode (conf, groupid) ≤ p :=
    s.groupEntry_le_of_reached h memory mode conf (hquorum _ (fst_mem_of_mem_zipIdx hgroup)) groupid
      (s.numSync_le_of_enough _ _ hgroup henough) p hpast
  have hmem : s.groupEntry memory mode (conf, groupid)
      ∈ s.syncRepConfig.zipIdx.map (s.groupEntry memory mode) :=
    mem_map_of_mem hgroup
  have hold := foldl_oldestStep (s.syncRepConfig.zipIdx.map (s.groupEntry memory mode)) (ne_nil_of_mem hmem)
    (by
      intro entry hentry
      rw [mem_map] at hentry
      obtain ⟨group, hgroup, rfl⟩ := hentry
      have := hlower group hgroup
      omega)
  have heq : (s.syncRepConfig.zipIdx.map (s.groupEntry memory mode)).foldl oldestStep 0 = p := by
    apply Nat.le_antisymm
    . exact Nat.le_trans (hold.left _ hmem) hupper
    . have hlast := hold.right
      rw [mem_map] at hlast
      obtain ⟨group, hgroup, hlast⟩ := hlast
      rw [← hlast]
      exact hlower group hgroup
  refine ⟨p, ?_, hp, ?_, ?_⟩
  . rw [← heq]
    apply s.quorum_groupsRecPtr h hquorum henough hnth
    intro group hgroup
    have := hlower group hgroup
    omega
  . intro conf groupid hgroup
    rw [hquorum conf (fst_mem_of_mem_zipIdx hgroup)]
    exact hreached conf groupid hgroup
  . intro q hq
    have hq := hq conf groupid hgroup
    rw [hquorum conf (fst_mem_of_mem_zipIdx hgroup)] at hq
    apply Nat.le_of_lt_succ
    apply Nat.lt_of_not_le
    intro hlt
    have hmono : s.reached groupid mode q ≤ s.reached groupid mode (p + 1) := by
      apply countP_mono_left
      intro stby hstby hcount
      simp only [decide_eq_true_eq] at hcount ⊢
      exact ⟨hcount.left, hcount.right.left, Nat.le_trans hlt hcount.right.right⟩
    have := Nat.mod_le conf.numSync 256
    dsimp only at hq
    omega

end Groups

section Main

variable (s : SyncRepState)

theorem getSyncRecPtr_ne_notSynced (h : s.getSyncRecPtr memory checkAmSync ≠ .notSynced)
    : s.quickExit checkAmSync = false := by
  rw [← Bool.not_eq_true]
  intro hexit
  unfold getSyncRecPtr at h
  dsimp only at h
  rw [if_pos hexit] at h
  exact h rfl

theorem priorityPositions_of_isSynced (raw : WaitMode → Nat) (h : s.IsSynced (s.fill raw))
    (hpriority : ∀ conf, conf ∈ s.syncRepConfig → conf.syncrepMethod = .priority)
    : s.PriorityPositions := by
  intro conf groupid hgroup stby hstby heligible hrank mode hzero
  have hp := (h mode).left conf groupid hgroup
  rw [hpriority conf (fst_mem_of_mem_zipIdx hgroup)] at hp
  have hle := hp stby hstby heligible hrank
  have hne := s.fill_ne_zero raw mode
  omega

theorem quorumPositions_of_isSynced (h : s.mostAvailableSync = false)
    (hquorum : ∀ conf, conf ∈ s.syncRepConfig → conf.syncrepMethod = .quorum)
    (hnum : ∀ conf, conf ∈ s.syncRepConfig → 1 ≤ conf.numSync) (checkAmSync : Bool)
    (hexit : s.quickExit checkAmSync = false)
    (hsynced : ∀ memory, ∃ ptr, s.getSyncRecPtr memory checkAmSync = .synced ptr ∧ s.IsSynced ptr)
    : s.QuorumPositions := by
  have henough := (s.checkSyncStandbysNum_of_quickExit h checkAmSync hexit).right
  have hconfig := (s.checkSyncStandbysNum_of_quickExit h checkAmSync hexit).left
  have hnth : ∀ conf groupid, (conf, groupid) ∈ s.syncRepConfig.zipIdx → conf.numSync % 256 ≠ 0 := by
    intro conf groupid hgroup hzero
    obtain ⟨ptr, hptr, hsynced⟩ := hsynced (fun _ _ _ => 0)
    obtain ⟨raw, hraw, heq⟩ := s.groupsRecPtr_of_synced _ checkAmSync hexit henough ptr hptr
    have hnone : s.groupsRecPtr (fun _ _ => 0) s.getSyncStandbys .receive = none := by
      apply foldlM_none _ (conf, groupid) _ hgroup
      intro ptr
      exact s.groupRecPtr_outOfBounds h _ _ ptr conf (hquorum _ (fst_mem_of_mem_zipIdx hgroup)) groupid
        hgroup hzero (hnum _ (fst_mem_of_mem_zipIdx hgroup))
        (s.numSync_le_of_enough _ _ hgroup henough)
    have hsome := hraw .receive
    rw [hnone] at hsome
    simp at hsome
  apply And.intro hnth
  intro mode
  obtain ⟨ptr, hptr, hsynced₀⟩ := hsynced (fun _ _ _ => 0)
  obtain ⟨raw, hraw, heq⟩ := s.groupsRecPtr_of_synced _ checkAmSync hexit henough ptr hptr
  have hreached : ∀ conf groupid, (conf, groupid) ∈ s.syncRepConfig.zipIdx →
      conf.numSync ≤ s.reached groupid mode (ptr mode) := by
    intro conf groupid hgroup
    have hp := (hsynced₀ mode).left conf groupid hgroup
    rw [hquorum conf (fst_mem_of_mem_zipIdx hgroup)] at hp
    exact hp
  refine ⟨ptr mode, by rw [heq]; exact s.fill_ne_zero raw mode, hreached, ?_⟩
  -- otherwise entries left at the next position carry every group past `ptr`
  apply Classical.byContradiction
  intro hnone
  have hpast : ∀ group, group ∈ s.syncRepConfig.zipIdx →
      ptr mode + 1 ≤ s.groupEntry (fun _ _ => ptr mode + 1) mode group := by
    intro group hgroup
    apply s.le_groupEntry_of_memory h mode group.1 (hquorum _ (fst_mem_of_mem_zipIdx hgroup)) group.2
      (hnth _ _ hgroup) (s.numSync_le_of_enough _ _ hgroup henough)
    apply Nat.le_of_not_lt
    intro hlt
    exact hnone ⟨group.1, group.2, hgroup, hlt⟩
  obtain ⟨ptr', hptr', hsynced'⟩ := hsynced (fun _ _ _ => ptr mode + 1)
  obtain ⟨raw', hraw', heq'⟩ := s.groupsRecPtr_of_synced _ checkAmSync hexit henough ptr' hptr'
  have hraw' := hraw' mode
  rw [s.quorum_groupsRecPtr h hquorum henough hnth _ mode (by
      intro group hgroup
      have := hpast group hgroup
      omega)] at hraw'
  have hold := foldl_oldestStep (s.syncRepConfig.zipIdx.map (s.groupEntry (fun _ _ => ptr mode + 1) mode)) (by
      intro hnil
      rw [map_eq_nil_iff] at hnil
      simp only [zipIdx_eq_nil_iff] at hnil
      exact hconfig hnil)
    (by
      intro entry hentry
      rw [mem_map] at hentry
      obtain ⟨group, hgroup, rfl⟩ := hentry
      have := hpast group hgroup
      omega)
  rw [Option.some.inj hraw'] at hold
  have hlast := hold.right
  rw [mem_map] at hlast
  obtain ⟨group, hgroup, hlast⟩ := hlast
  have hbeyond := hpast group hgroup
  have hsame := (hsynced' mode).unique (hsynced₀ mode)
  rw [heq', s.fill_of_ne_zero raw' mode (by omega)] at hsame
  omega

/--
An acknowledged commit has the configured standbys behind it exactly if the positions they determine
are not 0 and no entry that is never written has a say in them.
-/
theorem getSyncRecPtr_iff (haccepted : transformSynchronousStandbyNames s.syncRepConfig = true)
    (hnum : ∀ conf, conf ∈ s.syncRepConfig → 1 ≤ conf.numSync) (hoff : s.mostAvailableSync = false)
    (checkAmSync : Bool)
    : (∀ memory, s.getSyncRecPtr memory checkAmSync ≠ .notSynced →
          ∃ ptr, s.getSyncRecPtr memory checkAmSync = .synced ptr ∧ s.IsSynced ptr)
        ↔
      (s.quickExit checkAmSync = false → s.Determined) := by
  constructor
  . intro h hexit
    have henough := (s.checkSyncStandbysNum_of_quickExit hoff checkAmSync hexit).right
    have hsynced : ∀ memory, ∃ ptr, s.getSyncRecPtr memory checkAmSync = .synced ptr ∧ s.IsSynced ptr := by
      intro memory
      apply h
      intro hnot
      unfold getSyncRecPtr at hnot
      dsimp only at hnot
      rw [if_neg (by simp [hexit]), if_neg (by simp [henough])] at hnot
      split at hnot
      . simp at hnot
      . simp at hnot
    unfold Determined
    split
    . next hany =>
      rw [List.any_eq_true] at hany
      obtain ⟨conf, hmem, hpriority⟩ := hany
      rw [decide_eq_true_eq] at hpriority
      have hconfig := eq_singleton_of_priority _ haccepted conf hmem hpriority
      obtain ⟨ptr, hptr, hsynced⟩ := hsynced (fun _ _ _ => 0)
      obtain ⟨raw, hraw, heq⟩ := s.groupsRecPtr_of_synced _ checkAmSync hexit henough ptr hptr
      rw [heq] at hsynced
      apply s.priorityPositions_of_isSynced raw hsynced
      intro conf' hmem'
      rw [hconfig, List.mem_singleton] at hmem'
      rw [hmem']
      exact hpriority
    . next hany =>
      apply s.quorumPositions_of_isSynced hoff _ hnum checkAmSync hexit hsynced
      intro conf hmem
      cases hmethod : conf.syncrepMethod with
      | priority =>
        exfalso
        apply hany
        rw [List.any_eq_true]
        exact ⟨conf, hmem, by simp [hmethod]⟩
      | quorum => rfl
  . intro h memory hne
    have hexit := s.getSyncRecPtr_ne_notSynced memory checkAmSync hne
    have hdetermined := h hexit
    have henough := (s.checkSyncStandbysNum_of_quickExit hoff checkAmSync hexit).right
    have hgroups : ∀ mode, ∃ p, s.groupsRecPtr (memory mode) s.getSyncStandbys mode = some p ∧ p ≠ 0
        ∧ IsGreatest {p | s.Acknowledged mode p} p := by
      intro mode
      unfold Determined at hdetermined
      split at hdetermined
      . next hany =>
        rw [List.any_eq_true] at hany
        obtain ⟨conf, hmem, hpriority⟩ := hany
        rw [decide_eq_true_eq] at hpriority
        exact s.priority_synced hoff conf (eq_singleton_of_priority _ haccepted conf hmem hpriority) hpriority
          (hnum conf hmem) henough hdetermined (memory mode) mode
      . next hany =>
        apply s.quorum_synced hoff _ henough hdetermined
        intro conf hmem
        cases hmethod : conf.syncrepMethod with
        | priority =>
          exfalso
          apply hany
          rw [List.any_eq_true]
          exact ⟨conf, hmem, by simp [hmethod]⟩
        | quorum => rfl
    choose raw hraw hne hgreatest using hgroups
    refine ⟨s.fill raw, s.getSyncRecPtr_eq_synced memory checkAmSync hexit henough raw hraw, ?_⟩
    intro mode
    rw [s.fill_of_ne_zero raw mode (hne mode)]
    exact hgreatest mode

end Main

end SyncRepState

section Standbys

def standby (priority apply : Nat) : WalSnd where
  pid := priority
  state := .streaming
  peerRole := .standby
  position := fun
    | .apply => apply
    | _ => 100
  lastChangeTime := fun _ => 0
  syncStandbyPriority := priority
  syncStandbyGroup := 0
  isCrossCluster := false

def withStandbys (conf : SyncRepConfigData) (walsnds : List WalSnd) : SyncRepState where
  syncRepConfig := [conf]
  walsnds
  myWalSnd := some 0
  xlog := { write := 200, flush := 200, write_ne := by decide, flush_ne := by decide }
  now := 0
  mostAvailableSync := false
  ignoreStandbyLsnWindow := 0
  keepSyncWindow := 0
  keepSyncWindowStart := 0
  outKeepSyncWindow := false

def oneStandby (apply : Nat) : SyncRepState :=
  withStandbys { numSync := 1, syncrepMethod := .priority, memberNames := ["standby1"] } [standby 1 apply]

-- ANY 2 (standby1, standby2, standby3)
def anyTwo : SyncRepState :=
  withStandbys
    { numSync := 2, syncrepMethod := .quorum, memberNames := ["standby1", "standby2", "standby3"] }
    [standby 1 50, standby 2 90, standby 3 70]

theorem anyTwo_accepted
    : transformSynchronousStandbyNames anyTwo.syncRepConfig = true := by
  decide +kernel

theorem getSyncRecPtr_iff_anyTwo
    : anyTwo.quickExit true = false
        ∧ ((∀ memory, anyTwo.getSyncRecPtr memory true ≠ .notSynced →
              ∃ ptr, anyTwo.getSyncRecPtr memory true = .synced ptr ∧ anyTwo.IsSynced ptr)
            ↔
          (anyTwo.quickExit true = false → anyTwo.Determined)) :=
  ⟨rfl, anyTwo.getSyncRecPtr_iff anyTwo_accepted (by simp [anyTwo, withStandbys]) rfl true⟩

theorem getSyncRecPtr_beyond_standby
    : ∃ ptr, (oneStandby 0).getSyncRecPtr (fun _ _ _ => 0) true = .synced ptr
        ∧ ptr .apply = 100 ∧ ¬(oneStandby 0).IsSynced ptr := by
  refine ⟨_, rfl, by decide, ?_⟩
  intro h
  have hle := (h .apply).left { numSync := 1, syncrepMethod := .priority, memberNames := ["standby1"] } 0
    (by simp [oneStandby, withStandbys])
  have := hle _ (List.mem_singleton.mpr rfl) (by decide) (by decide)
  revert this
  decide

end Standbys

end SyncRep

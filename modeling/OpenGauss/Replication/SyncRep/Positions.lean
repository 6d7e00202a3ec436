import OpenGauss.Replication.SyncRep.Impl
import Mathlib.Data.List.GetD

/-!
This module shows which standbys the groups take.
-/

open List

namespace SyncRep

variable (conf : SyncRepConfigData) (memory : Nat → Nat) (standbys : List SyncRepStandbyData)
variable (groupid : Nat)

namespace SyncRepState

open SortedRank

section Standbys

variable (s : SyncRepState)

theorem tooOld_eq_false (h : s.mostAvailableSync = false) (stby : SyncRepStandbyData)
    (hstby : stby ∈ s.standbyData) (mode : WaitMode)
    : stby.tooOld mode = false := by
  unfold standbyData at hstby
  rw [mem_mapIdx] at hstby
  obtain ⟨idx, hidx, hstby⟩ := hstby
  rw [← hstby]
  simp [ifIgnoreStandbyLsn, h]

theorem pairwise_standbyData : s.standbyData.Pairwise (fun a b => a.walsndIndex ≠ b.walsndIndex) := by
  rw [pairwise_iff_getElem]
  intro i j hi hj hij
  simp only [standbyData, getElem_mapIdx]
  omega

theorem isCandidate_iff (stby : SyncRepStandbyData)
    : isCandidate conf groupid none stby = true
        ↔
      Eligible groupid stby ∧ ¬(conf.syncrepMethod = .quorum ∧ stby.peerRole = .standbyCluster) := by
  simp only [isCandidate, Eligible, Option.any_none, Bool.and_eq_true, Bool.not_eq_true',
    decide_eq_true_eq, Bool.and_eq_false_iff, decide_eq_false_iff_not, Bool.not_false]
  tauto

theorem standbyPriorityBefore_iff (a b : SyncRepStandbyData)
    : standbyPriorityBefore a b = true
        ↔
      a.syncStandbyPriority < b.syncStandbyPriority
        ∨ (a.syncStandbyPriority = b.syncStandbyPriority ∧ a.walsndIndex < b.walsndIndex) := by
  unfold standbyPriorityBefore
  split
  . simp only [decide_eq_true_eq]
    omega
  . simp only [decide_eq_true_eq]
    omega

theorem standbyPriorityBefore_irrefl (a : SyncRepStandbyData) : standbyPriorityBefore a a = false := by
  rw [← Bool.not_eq_true, standbyPriorityBefore_iff]
  omega

theorem standbyPriorityBefore_asymm (a b : SyncRepStandbyData) (h : standbyPriorityBefore a b = true)
    : standbyPriorityBefore b a = false := by
  rw [← Bool.not_eq_true, standbyPriorityBefore_iff]
  rw [standbyPriorityBefore_iff] at h
  omega

def sortByPriority (standbys : List SyncRepStandbyData) : List SyncRepStandbyData :=
  standbys.mergeSort (fun a b => !standbyPriorityBefore b a)

theorem sortByPriority_perm : (sortByPriority standbys).Perm standbys :=
  mergeSort_perm _ _

theorem pairwise_sortByPriority (h : standbys.Pairwise (fun a b => a.walsndIndex ≠ b.walsndIndex))
    : (sortByPriority standbys).Pairwise (fun a b => standbyPriorityBefore a b = true) := by
  have hdistinct := h.perm (sortByPriority_perm standbys).symm (by intro a b hab; exact hab.symm)
  have hsorted := @List.pairwise_mergeSort _ (fun a b => !standbyPriorityBefore b a) (by
      intro a b c hab hbc
      rw [Bool.not_eq_true', ← Bool.not_eq_true, standbyPriorityBefore_iff] at *
      omega)
    (by
      intro a b
      rw [Bool.or_eq_true, Bool.not_eq_true', Bool.not_eq_true', ← Bool.not_eq_true,
        ← Bool.not_eq_true, standbyPriorityBefore_iff, standbyPriorityBefore_iff]
      omega) standbys
  apply List.Pairwise.imp _ (hdistinct.and hsorted)
  intro a b hab
  obtain ⟨hne, hle⟩ := hab
  rw [Bool.not_eq_true', ← Bool.not_eq_true, standbyPriorityBefore_iff] at hle
  rw [standbyPriorityBefore_iff]
  omega

theorem mem_getSyncStandbysInGroup
    (stby : SyncRepStandbyData) (h : stby ∈ s.getSyncStandbysInGroup conf groupid none)
    : stby ∈ s.standbyData ∧ Eligible groupid stby := by
  have hmem : stby ∈ s.standbyData.filter (isCandidate conf groupid none) := by
    unfold getSyncStandbysInGroup at h
    dsimp only at h
    split at h
    . exact (mergeSort_perm _ _).mem_iff.mp (mem_of_mem_take h)
    . exact h
  rw [mem_filter, isCandidate_iff] at hmem
  exact ⟨hmem.left, hmem.right.left⟩

theorem rank_eq (hpriority : conf.syncrepMethod = .priority) (groupid : Nat) (stby : SyncRepStandbyData)
    : s.rank groupid stby
        =
      (s.standbyData.filter (isCandidate conf groupid none)).countP (standbyPriorityBefore · stby) := by
  unfold rank
  rw [countP_filter]
  apply countP_congr
  intro other hother
  rw [decide_eq_true_eq, Bool.and_eq_true, isCandidate_iff, hpriority]
  simp
  tauto

theorem mem_priorityGroup_iff (hpriority : conf.syncrepMethod = .priority)
    (groupid : Nat) (hnum : conf.numSync ≤ (s.getSyncStandbysInGroup conf groupid none).length)
    (stby : SyncRepStandbyData)
    : stby ∈ s.getSyncStandbysInGroup conf groupid none
        ↔
      stby ∈ s.standbyData ∧ Eligible groupid stby ∧ s.rank groupid stby < conf.numSync := by
  have hpairwise := (s.pairwise_standbyData).filter (isCandidate conf groupid none)
  have hcandidate
      : stby ∈ s.standbyData.filter (isCandidate conf groupid none)
          ↔
        stby ∈ s.standbyData ∧ Eligible groupid stby := by
    rw [mem_filter, isCandidate_iff, hpriority]
    simp
  rw [s.rank_eq conf hpriority]
  unfold getSyncStandbysInGroup at *
  dsimp only at *
  split
  . next hlt =>
    rw [← and_assoc, ← hcandidate]
    have hsorted := pairwise_sortByPriority _ hpairwise
    have hperm := sortByPriority_perm (s.standbyData.filter (isCandidate conf groupid none))
    unfold sortByPriority at hsorted hperm
    rw [mem_take_iff standbyPriorityBefore standbyPriorityBefore_irrefl standbyPriorityBefore_asymm _
      hsorted, hperm.mem_iff, hperm.countP_eq]
  . next hlt =>
    rw [if_neg hlt] at hnum
    rw [← and_assoc, ← hcandidate]
    constructor
    . intro hstby
      apply And.intro hstby
      have hstrict : (s.standbyData.filter (isCandidate conf groupid none)).countP
          (standbyPriorityBefore · stby) < (s.standbyData.filter (isCandidate conf groupid none)).length := by
        apply Nat.lt_of_le_of_ne countP_le_length
        intro heq
        rw [countP_eq_length] at heq
        have := heq stby hstby
        rw [standbyPriorityBefore_irrefl] at this
        simp at this
      simp only [hpriority, true_and, Nat.not_lt] at hlt
      omega
    . intro hstby
      exact hstby.left

theorem quorumGroup_eq (hquorum : conf.syncrepMethod = .quorum) (groupid : Nat)
    : s.getSyncStandbysInGroup conf groupid none = s.standbyData.filter (isCandidate conf groupid none) := by
  unfold getSyncStandbysInGroup
  rw [if_neg (by simp [hquorum])]

theorem filter_groups (config : List SyncRepConfigData)
    : ∀ (first : Nat) (conf : SyncRepConfigData) (groupid : Nat), (conf, groupid) ∈ config.zipIdx first →
        ((config.zipIdx first).flatMap
          (fun (conf, groupid) => s.getSyncStandbysInGroup conf groupid none)).filter
            (fun stby => stby.syncStandbyGroup = groupid)
          =
        s.getSyncStandbysInGroup conf groupid none := by
  have hsame : ∀ (conf : SyncRepConfigData) (groupid : Nat),
      (s.getSyncStandbysInGroup conf groupid none).filter (fun stby => stby.syncStandbyGroup = groupid)
        =
      s.getSyncStandbysInGroup conf groupid none := by
    intro conf groupid
    rw [filter_eq_self]
    intro stby hstby
    simpa using (s.mem_getSyncStandbysInGroup conf groupid stby hstby).right.right.right.left
  have hother : ∀ (conf : SyncRepConfigData) (groupid other : Nat), groupid ≠ other →
      (s.getSyncStandbysInGroup conf groupid none).filter (fun stby => stby.syncStandbyGroup = other)
        =
      [] := by
    intro conf groupid other hne
    rw [filter_eq_nil_iff]
    intro stby hstby
    have := (s.mem_getSyncStandbysInGroup conf groupid stby hstby).right.right.right.left
    simpa [this] using hne
  induction config with
  | nil =>
    intro first conf groupid h
    simp at h
  | cons head rest ih =>
    intro first conf groupid h
    rw [zipIdx_cons, flatMap_cons, filter_append]
    rw [zipIdx_cons, mem_cons] at h
    cases h with
    | inl h =>
      obtain ⟨rfl, rfl⟩ := Prod.mk.inj h
      rw [hsame, filter_flatMap]
      have hnil : ((rest.zipIdx (groupid + 1)).flatMap (fun x =>
          (s.getSyncStandbysInGroup x.1 x.2 none).filter
            (fun stby => stby.syncStandbyGroup = groupid))) = [] := by
        rw [flatMap_eq_nil_iff]
        intro x hx
        have := le_snd_of_mem_zipIdx hx
        exact hother x.1 x.2 groupid (by omega)
      rw [hnil, append_nil]
    | inr h =>
      have := le_snd_of_mem_zipIdx h
      rw [hother head first groupid (by dsimp only at this; omega), nil_append]
      exact ih (first + 1) conf groupid h

theorem filter_getSyncStandbys (h : (conf, groupid) ∈ s.syncRepConfig.zipIdx)
    : s.getSyncStandbys.filter (fun stby => stby.syncStandbyGroup = groupid)
        =
      s.getSyncStandbysInGroup conf groupid none :=
  s.filter_groups s.syncRepConfig 0 conf groupid h

theorem judgeSyncStandbysNum_iff (h : s.mostAvailableSync = false) (state : SyncStandbyNumState)
    : s.judgeSyncStandbysNum state = true ↔ state = .enough := by
  simp [judgeSyncStandbysNum, h]

theorem checkSyncStandbysNum_of_quickExit (h : s.mostAvailableSync = false) (checkAmSync : Bool)
    (hexit : s.quickExit checkAmSync = false)
    : s.syncRepConfig ≠ [] ∧ s.checkSyncStandbysNum s.getSyncStandbys = .enough := by
  unfold quickExit at hexit
  simp only [Bool.or_eq_false_iff, Bool.not_eq_false'] at hexit
  rw [s.judgeSyncStandbysNum_iff h] at hexit
  apply And.intro
  . simpa using hexit.left.right
  . exact hexit.right

theorem numSync_le_of_enough (hmem : (conf, groupid) ∈ s.syncRepConfig.zipIdx)
    (h : s.checkSyncStandbysNum s.getSyncStandbys = .enough)
    : conf.numSync ≤ (s.getSyncStandbysInGroup conf groupid none).length := by
  unfold checkSyncStandbysNum at h
  split at h
  . next hempty =>
    rw [List.isEmpty_iff] at hempty
    simp [hempty] at hmem
  . split at h
    . simp at h
    . split at h
      . simp at h
      . next hany =>
        rw [Bool.not_eq_true, any_eq_false] at hany
        have := hany (conf, groupid) hmem
        simp only [decide_eq_true_eq, Nat.not_lt] at this
        rw [countP_eq_length_filter, s.filter_getSyncStandbys conf groupid hmem] at this
        exact this

end Standbys

section Oldest

@[simp]
theorem oldestStep_zero (position : Nat) : oldestStep 0 position = position := by
  simp [oldestStep]

theorem oldestStep_of_ne_zero (ptr position : Nat) (h : ptr ≠ 0)
    : oldestStep ptr position = min ptr position := by
  unfold oldestStep
  split
  . omega
  . omega

theorem foldl_oldestStep_of_ne_zero (positions : List Nat) (h : ∀ p, p ∈ positions → p ≠ 0)
    : ∀ (ptr : Nat), ptr ≠ 0 → (∀ p, p ∈ ptr :: positions → positions.foldl oldestStep ptr ≤ p)
          ∧ positions.foldl oldestStep ptr ∈ ptr :: positions := by
  induction positions with
  | nil =>
    intro ptr hptr
    simp
  | cons position rest ih =>
    intro ptr hptr
    have hposition := h position mem_cons_self
    have ih := ih (by intro p hp; exact h p (mem_cons_of_mem _ hp)) (min ptr position) (by omega)
    rw [foldl_cons, oldestStep_of_ne_zero _ _ hptr]
    constructor
    . intro p hp
      have hmin := ih.left (min ptr position) mem_cons_self
      simp only [mem_cons] at hp
      rcases hp with hp | hp | hp
      . omega
      . omega
      . exact ih.left p (mem_cons_of_mem _ hp)
    . have hmem := ih.right
      simp only [mem_cons] at hmem ⊢
      rcases hmem with hmem | hmem
      . omega
      . exact Or.inr (Or.inr hmem)

theorem foldl_oldestStep (positions : List Nat) (hne : positions ≠ []) (h : ∀ p, p ∈ positions → p ≠ 0)
    : (∀ p, p ∈ positions → positions.foldl oldestStep 0 ≤ p)
        ∧ positions.foldl oldestStep 0 ∈ positions := by
  cases positions with
  | nil => simp at hne
  | cons position rest =>
    rw [foldl_cons, oldestStep_zero]
    apply foldl_oldestStep_of_ne_zero
    . intro p hp
      exact h p (mem_cons_of_mem _ hp)
    . exact h position mem_cons_self

theorem oldestScan_eq (mode : WaitMode) (group : List SyncRepStandbyData)
    (h : ∀ stby, stby ∈ group → stby.tooOld mode = false) (ptr : Nat)
    : group.foldl (fun (ptr, hasInvalid) stby =>
          (if hasInvalid || stby.tooOld mode then ptr else oldestStep ptr (stby.position mode),
            hasInvalid || stby.tooOld mode)) (ptr, false)
        =
      ((group.map (·.position mode)).foldl oldestStep ptr, false) := by
  induction group generalizing ptr with
  | nil => rfl
  | cons stby rest ih =>
    rw [foldl_cons, map_cons, foldl_cons]
    simp only [h stby mem_cons_self, Bool.or_self, Bool.false_eq_true, if_false]
    apply ih
    intro other hother
    exact h other (mem_cons_of_mem _ hother)

theorem getOldestSyncRecPtr_eq (s : SyncRepState) (ptr : Nat) (standbys : List SyncRepStandbyData)
    (conf : SyncRepConfigData) (groupid : Nat) (mode : WaitMode)
    (h : ∀ stby, stby ∈ standbys → stby.tooOld mode = false)
    : s.getOldestSyncRecPtr ptr standbys conf groupid mode
        =
      ((standbys.filter (fun stby => stby.syncStandbyGroup = groupid)).map (·.position mode)).foldl
        oldestStep ptr := by
  unfold getOldestSyncRecPtr
  dsimp only
  rw [oldestScan_eq]
  . simp
  . intro stby hstby
    exact h stby (mem_of_mem_filter hstby)

end Oldest

section NthLatest

variable (s : SyncRepState)

theorem tooOld_of_mem_group (h : s.mostAvailableSync = false) (conf : SyncRepConfigData) (groupid : Nat)
    (stby : SyncRepStandbyData) (hstby : stby ∈ s.getSyncStandbysInGroup conf groupid none)
    (mode : WaitMode)
    : stby.tooOld mode = false :=
  s.tooOld_eq_false h stby (s.mem_getSyncStandbysInGroup conf groupid stby hstby).left mode

def writtenPositions (standbys : List SyncRepStandbyData) (mode : WaitMode) : List Nat :=
  (standbys.filter (fun stby => !stby.isCrossCluster)).map
    (fun stby => if stby.tooOld mode then 0 else stby.position mode)

def unsetEntries (memory : Nat → Nat) (standbys : List SyncRepStandbyData) (mode : WaitMode) : List Nat :=
  (List.range (standbys.length - (writtenPositions standbys mode).length)).map
    (fun i => memory ((writtenPositions standbys mode).length + i))

theorem positionArray_eq (mode : WaitMode)
    : positionArray memory standbys mode
        =
      sortDescending (writtenPositions standbys mode ++ unsetEntries memory standbys mode) := by
  rfl

theorem length_unsetEntries (mode : WaitMode)
    : (unsetEntries memory standbys mode).length
        =
      standbys.length - (writtenPositions standbys mode).length := by
  unfold unsetEntries
  rw [length_map, length_range]

@[simp]
theorem length_positionArray (mode : WaitMode)
    : (positionArray memory standbys mode).length = standbys.length := by
  have hle : (writtenPositions standbys mode).length ≤ standbys.length := by
    unfold writtenPositions
    rw [length_map]
    exact length_filter_le _ _
  rw [positionArray_eq, length_sortDescending, length_append, length_unsetEntries]
  omega

theorem countP_writtenPositions (h : s.mostAvailableSync = false) (conf : SyncRepConfigData)
    (hquorum : conf.syncrepMethod = .quorum) (groupid : Nat) (mode : WaitMode) (p : Nat)
    : (writtenPositions (s.getSyncStandbysInGroup conf groupid none) mode).countP (p ≤ ·)
        =
      s.reached groupid mode p := by
  unfold writtenPositions reached
  rw [countP_map, countP_filter, s.quorumGroup_eq conf hquorum, countP_filter]
  apply countP_congr
  intro stby hstby
  simp only [Function.comp_apply, s.tooOld_eq_false h stby hstby, Bool.and_eq_true, Bool.not_eq_true',
    decide_eq_true_eq, isCandidate_iff, CrossCluster, hquorum, Bool.false_eq_true, if_false, true_and,
    not_or, Bool.not_eq_true]
  tauto

theorem length_unsetEntries_eq (conf : SyncRepConfigData)
    (hquorum : conf.syncrepMethod = .quorum) (groupid : Nat) (mode : WaitMode)
    : (unsetEntries memory (s.getSyncStandbysInGroup conf groupid none) mode).length = s.unset groupid := by
  rw [length_unsetEntries]
  unfold writtenPositions unset
  have hsplit := length_eq_countP_add_countP (fun stby : SyncRepStandbyData => stby.isCrossCluster)
    (l := s.getSyncStandbysInGroup conf groupid none)
  have hcross : (s.getSyncStandbysInGroup conf groupid none).countP (fun stby => stby.isCrossCluster)
      = s.standbyData.countP (fun stby =>
          Eligible groupid stby ∧ stby.peerRole ≠ .standbyCluster ∧ stby.isCrossCluster) := by
    rw [s.quorumGroup_eq conf hquorum, countP_filter]
    apply countP_congr
    intro stby hstby
    simp only [Bool.and_eq_true, decide_eq_true_eq, isCandidate_iff, hquorum, true_and]
    tauto
  have hlocal : (s.getSyncStandbysInGroup conf groupid none).countP
        (fun stby => decide ¬stby.isCrossCluster = true)
      = ((s.getSyncStandbysInGroup conf groupid none).filter (fun stby => !stby.isCrossCluster)).length := by
    rw [countP_eq_length_filter]
    congr 2
    funext stby
    simp
  rw [length_map, ← hlocal, ← hcross]
  omega

def groupEntry (memory : Nat → Nat → Nat) (mode : WaitMode) (group : SyncRepConfigData × Nat) : Nat :=
  (positionArray (memory group.2) (s.getSyncStandbysInGroup group.1 group.2 none) mode).getD
    (group.1.numSync % 256 - 1) 0

theorem le_groupEntry_iff (memory : Nat → Nat → Nat) (mode : WaitMode) (conf : SyncRepConfigData)
    (groupid : Nat) (hnth : conf.numSync % 256 ≠ 0)
    (hnum : conf.numSync ≤ (s.getSyncStandbysInGroup conf groupid none).length) (p : Nat)
    : p ≤ s.groupEntry memory mode (conf, groupid)
        ↔
      conf.numSync % 256
          ≤
        (writtenPositions (s.getSyncStandbysInGroup conf groupid none) mode).countP (p ≤ ·)
          + (unsetEntries (memory groupid) (s.getSyncStandbysInGroup conf groupid none) mode).countP
              (p ≤ ·) := by
  have hidx : conf.numSync % 256 - 1
      < (positionArray (memory groupid) (s.getSyncStandbysInGroup conf groupid none) mode).length := by
    have := Nat.mod_le conf.numSync 256
    rw [length_positionArray]
    omega
  unfold groupEntry
  dsimp only
  rw [getD_eq_getElem _ _ hidx]
  simp only [positionArray_eq]
  rw [le_sortDescending_iff, countP_append]
  omega

section

variable (h : s.mostAvailableSync = false)
include h

theorem le_groupEntry_of_reached (memory : Nat → Nat → Nat)
    (mode : WaitMode) (conf : SyncRepConfigData) (hquorum : conf.syncrepMethod = .quorum) (groupid : Nat)
    (hnth : conf.numSync % 256 ≠ 0)
    (hnum : conf.numSync ≤ (s.getSyncStandbysInGroup conf groupid none).length) (p : Nat)
    (hreached : conf.numSync ≤ s.reached groupid mode p)
    : p ≤ s.groupEntry memory mode (conf, groupid) := by
  rw [s.le_groupEntry_iff memory mode conf groupid hnth hnum, s.countP_writtenPositions h conf hquorum]
  have := Nat.mod_le conf.numSync 256
  omega

theorem groupEntry_le_of_reached (memory : Nat → Nat → Nat)
    (mode : WaitMode) (conf : SyncRepConfigData) (hquorum : conf.syncrepMethod = .quorum) (groupid : Nat)
    (hnum : conf.numSync ≤ (s.getSyncStandbysInGroup conf groupid none).length) (p : Nat)
    (hreached : s.reached groupid mode (p + 1) + s.unset groupid < conf.numSync % 256)
    : s.groupEntry memory mode (conf, groupid) ≤ p := by
  apply Nat.le_of_lt_succ
  apply Nat.lt_of_not_le
  intro hle
  rw [Nat.succ_eq_add_one, s.le_groupEntry_iff memory mode conf groupid (by omega) hnum,
    s.countP_writtenPositions h conf hquorum] at hle
  have hcount := countP_le_length (p := fun q => decide (p + 1 ≤ q))
    (l := unsetEntries (memory groupid) (s.getSyncStandbysInGroup conf groupid none) mode)
  rw [s.length_unsetEntries_eq _ conf hquorum] at hcount
  omega

theorem le_groupEntry_of_memory (mode : WaitMode)
    (conf : SyncRepConfigData) (hquorum : conf.syncrepMethod = .quorum) (groupid : Nat)
    (hnth : conf.numSync % 256 ≠ 0)
    (hnum : conf.numSync ≤ (s.getSyncStandbysInGroup conf groupid none).length) (p : Nat)
    (hreached : conf.numSync % 256 ≤ s.reached groupid mode p + s.unset groupid)
    : p ≤ s.groupEntry (fun _ _ => p) mode (conf, groupid) := by
  have hall : (unsetEntries (fun _ => p) (s.getSyncStandbysInGroup conf groupid none) mode).countP (p ≤ ·)
      = s.unset groupid := by
    rw [← s.length_unsetEntries_eq (fun _ => p) conf hquorum groupid mode, countP_eq_length]
    simp [unsetEntries]
  rw [s.le_groupEntry_iff _ mode conf groupid hnth hnum, s.countP_writtenPositions h conf hquorum, hall]
  exact hreached

theorem groupRecPtr_quorum (memory : Nat → Nat → Nat) (mode : WaitMode)
    (ptr : Nat) (conf : SyncRepConfigData) (hquorum : conf.syncrepMethod = .quorum) (groupid : Nat)
    (hmem : (conf, groupid) ∈ s.syncRepConfig.zipIdx) (hnth : conf.numSync % 256 ≠ 0)
    (hnum : conf.numSync ≤ (s.getSyncStandbysInGroup conf groupid none).length)
    (hentry : s.groupEntry memory mode (conf, groupid) ≠ 0)
    : s.groupRecPtr memory s.getSyncStandbys mode ptr (conf, groupid)
        =
      some (oldestStep ptr (s.groupEntry memory mode (conf, groupid))) := by
  have hidx : conf.numSync % 256 - 1
      < (positionArray (memory groupid) (s.getSyncStandbysInGroup conf groupid none) mode).length := by
    have := Nat.mod_le conf.numSync 256
    rw [length_positionArray]
    omega
  unfold groupRecPtr
  dsimp only
  rw [hquorum]
  dsimp only
  unfold getNthLatestSyncRecPtr
  dsimp only
  rw [s.filter_getSyncStandbys conf groupid hmem]
  rw [if_neg (by rw [List.isEmpty_iff, ← List.length_eq_zero_iff]; omega)]
  rw [if_neg (by simp [h])]
  unfold groupEntry at hentry ⊢
  dsimp only at hentry ⊢
  rw [getD_eq_getElem _ _ hidx] at hentry ⊢
  generalize hn : conf.numSync % 256 = nth at *
  cases nth with
  | zero => simp at hnth
  | succ nth =>
    dsimp only
    simp only [Nat.add_sub_cancel] at hentry hidx ⊢
    rw [getElem?_eq_getElem hidx]
    dsimp only
    generalize (positionArray (memory groupid) (s.getSyncStandbysInGroup conf groupid none) mode)[nth]
      = entry at *
    have hne : ¬(if ptr = 0 ∨ entry ≤ ptr then entry else ptr) = 0 := by
      split
      . exact hentry
      . omega
    rw [if_neg (by simp only [hne, false_and, not_false_eq_true])]
    congr 1
    unfold oldestStep
    split
    . split
      . rfl
      . omega
    . split
      . omega
      . rfl

theorem groupRecPtr_outOfBounds (memory : Nat → Nat → Nat)
    (mode : WaitMode) (ptr : Nat) (conf : SyncRepConfigData) (hquorum : conf.syncrepMethod = .quorum)
    (groupid : Nat) (hmem : (conf, groupid) ∈ s.syncRepConfig.zipIdx) (hnth : conf.numSync % 256 = 0)
    (hpos : 1 ≤ conf.numSync)
    (hnum : conf.numSync ≤ (s.getSyncStandbysInGroup conf groupid none).length)
    : s.groupRecPtr memory s.getSyncStandbys mode ptr (conf, groupid) = none := by
  unfold groupRecPtr
  dsimp only
  rw [hquorum]
  dsimp only
  unfold getNthLatestSyncRecPtr
  dsimp only
  rw [s.filter_getSyncStandbys conf groupid hmem]
  rw [if_neg (by rw [List.isEmpty_iff, ← List.length_eq_zero_iff]; omega)]
  rw [if_neg (by simp [h]), hnth]

end

theorem foldlM_some {α : Type} (f : Nat → α → Option Nat) (entry : α → Nat) (l : List α)
    : ∀ (ptr : Nat), (∀ x, x ∈ l → ∀ ptr, f ptr x = some (oldestStep ptr (entry x))) →
        l.foldlM f ptr = some ((l.map entry).foldl oldestStep ptr) := by
  induction l with
  | nil =>
    intro ptr h
    rfl
  | cons x rest ih =>
    intro ptr h
    rw [foldlM_cons, h x mem_cons_self ptr, map_cons, foldl_cons]
    apply ih
    intro y hy
    exact h y (mem_cons_of_mem _ hy)

theorem foldlM_none {α : Type} (f : Nat → α → Option Nat) (x : α) (l : List α) (hx : x ∈ l)
    (h : ∀ ptr, f ptr x = none)
    : ∀ (ptr : Nat), l.foldlM f ptr = none := by
  induction l with
  | nil => simp at hx
  | cons y rest ih =>
    intro ptr
    rw [foldlM_cons]
    rw [mem_cons] at hx
    cases hx with
    | inl hx =>
      rw [← hx, h ptr]
      rfl
    | inr hx =>
      cases f ptr y with
      | none => rfl
      | some next => exact ih hx next

end NthLatest

end SyncRepState
end SyncRep

import OpenGauss.Replication.SyncRep.Collect
import Mathlib.Data.List.Induction

/-!
This module shows when collecting the candidates and reading the nth latest position stay within the
arrays.
-/

open List

namespace SyncRep

open SyncRepState

variable (groups : List (ParsedConfigData × Nat)) (memory : Int → SyncRepStandbyData)
variable (conf : ParsedConfigData)

/--
The entries before the next free one are `xs`.
-/
structure Collect.Filled (base : Int) (xs : List SyncRepStandbyData) (c : Collect) : Prop where
  next_eq : base + c.numSync = xs.length
  entry_eq : ∀ (i : Nat) (h : i < xs.length), c.standbys i = xs[i]

def Collect.WrittenBelow (n : Nat) (c : Collect) : Prop :=
  ∀ i, i ∈ c.written → 0 ≤ i ∧ i < n

namespace Primary

section Group

variable (conf : ParsedConfigData) (groupid : Nat) (base : Int)

theorem collectStep_filled (xs : List SyncRepStandbyData) (c : Collect) (h : c.Filled base xs)
    (walsnd : SyncRepStandbyData)
    : (collectStep conf groupid base c walsnd).Filled base
        (xs ++ [walsnd].filter (isCandidate conf.data groupid none)) := by
  have hcandidate : ∀ index me,
      isCandidate conf.data groupid none { walsnd with walsndIndex := index, isMe := me }
        =
      isCandidate conf.data groupid none walsnd := by
    intro index me
    rfl
  have hnext := h.next_eq
  unfold collectStep
  dsimp only
  rw [hcandidate]
  cases hc : isCandidate conf.data groupid none walsnd with
  | false =>
    rw [filter_cons_of_neg (by simp [hc]), filter_nil, append_nil, if_neg (by simp)]
    constructor
    . exact hnext
    . intro i hi
      dsimp only
      rw [Function.update_of_ne (by omega)]
      exact h.entry_eq i hi
  | true =>
    rw [filter_cons_of_pos hc, filter_nil, if_pos rfl]
    constructor
    . dsimp only
      rw [length_append, length_singleton]
      omega
    . intro i hi
      dsimp only
      rw [length_append, length_singleton] at hi
      by_cases hlt : i < xs.length
      . rw [Function.update_of_ne (by omega), Function.update_of_ne (by omega), getElem_append_left hlt]
        exact h.entry_eq i hlt
      . have hi : i = xs.length := by omega
        subst hi
        rw [← hnext, Function.update_self]
        simp

theorem collectRun_filled (walsnds : List SyncRepStandbyData)
    : ∀ (xs : List SyncRepStandbyData) (c : Collect), c.Filled base xs →
        (walsnds.foldl (collectStep conf groupid base) c).Filled base
          (xs ++ walsnds.filter (isCandidate conf.data groupid none)) := by
  induction walsnds with
  | nil =>
    intro xs c h
    simpa using h
  | cons walsnd rest ih =>
    intro xs c h
    have hstep := ih _ _ (collectStep_filled conf groupid base xs c h walsnd)
    rw [append_assoc, ← filter_append] at hstep
    exact hstep

theorem collectStep_written (c : Collect) (walsnd : SyncRepStandbyData)
    : (collectStep conf groupid base c walsnd).written = c.written ++ [base + c.numSync] := by
  unfold collectStep
  dsimp only
  split
  . rfl
  . rfl

theorem writtenBelow_collectStep_iff (xs : List SyncRepStandbyData) (c : Collect)
    (h : c.Filled base xs) (walsnd : SyncRepStandbyData) (n : Nat)
    : (collectStep conf groupid base c walsnd).WrittenBelow n ↔ c.WrittenBelow n ∧ xs.length < n := by
  unfold Collect.WrittenBelow
  rw [collectStep_written, forall_mem_append, forall_mem_singleton, h.next_eq]
  apply and_congr_right
  intro _
  omega

theorem writtenBelow_collectRun_iff (walsnds : List SyncRepStandbyData) (xs : List SyncRepStandbyData)
    (c : Collect) (h : c.Filled base xs) (n : Nat)
    : ∀ (last : SyncRepStandbyData),
        ((walsnds ++ [last]).foldl (collectStep conf groupid base) c).WrittenBelow n
          ↔
        c.WrittenBelow n ∧ xs.length + walsnds.countP (isCandidate conf.data groupid none) < n := by
  induction walsnds using List.reverseRecOn with
  | nil =>
    intro last
    simpa using writtenBelow_collectStep_iff conf groupid base xs c h last n
  | append_singleton walsnds walsnd ih =>
    intro last
    have hfilled := collectRun_filled conf groupid base (walsnds ++ [walsnd]) xs c h
    rw [foldl_append, foldl_cons, foldl_nil,
      writtenBelow_collectStep_iff conf groupid base _ _ hfilled, ih walsnd, length_append,
      ← countP_eq_length_filter, countP_append, and_assoc]
    apply and_congr_right
    intro _
    omega

end Group

variable (p : Primary)

theorem standbyData_eq : ∃ rest last, p.standbyData = rest ++ [last] := by
  have hne : p.standbyData ≠ [] := by
    simpa [standbyData] using p.walsnds_ne
  exact ⟨p.standbyData.dropLast, p.standbyData.getLast hne, (dropLast_append_getLast hne).symm⟩

theorem length_standbyData : p.standbyData.length = p.maxWalSenders := by
  simp [standbyData, maxWalSenders]

theorem groupStart_filled (xs : List SyncRepStandbyData) (c : Collect) (h : c.Filled 0 xs)
    : Collect.Filled c.numSync xs { standbys := c.standbys, numSync := 0, written := [] } := by
  have hnext := h.next_eq
  constructor
  . dsimp only
    omega
  . exact h.entry_eq

theorem groupStep_filled (xs : List SyncRepStandbyData) (c : Collect) (h : c.Filled 0 xs)
    (conf : ParsedConfigData) (groupid : Nat) (hquorum : conf.syncrepMethod = .quorum)
    : (p.groupStep c (conf, groupid)).Filled 0 (xs ++ p.candidates conf groupid) := by
  have hrun := collectRun_filled conf groupid c.numSync p.standbyData xs _ (groupStart_filled xs c h)
  have hgroup : p.getSyncStandbysInGroup conf groupid c.numSync c.standbys
      = p.standbyData.foldl (collectStep conf groupid c.numSync)
        { standbys := c.standbys, numSync := 0, written := [] } := by
    unfold getSyncStandbysInGroup
    dsimp only
    rw [if_neg (by simp [hquorum])]
  have hnext := hrun.next_eq
  constructor
  . dsimp only [groupStep]
    rw [hgroup, Int.zero_add]
    exact hnext
  . dsimp only [groupStep]
    rw [hgroup]
    exact hrun.entry_eq

theorem written_getSyncStandbysInGroup (groupid : Nat) (base : Int) (standbys : Int → SyncRepStandbyData)
    : (p.getSyncStandbysInGroup conf groupid base standbys).written
        =
      (p.standbyData.foldl (collectStep conf groupid base)
        { standbys := standbys, numSync := 0, written := [] }).written := by
  unfold getSyncStandbysInGroup
  dsimp only
  split
  . rfl
  . rfl

theorem writtenBelow_groupStep_iff (xs : List SyncRepStandbyData) (c : Collect) (h : c.Filled 0 xs)
    (conf : ParsedConfigData) (groupid : Nat) (n : Nat) (rest : List SyncRepStandbyData)
    (last : SyncRepStandbyData) (hdata : p.standbyData = rest ++ [last])
    : (p.groupStep c (conf, groupid)).WrittenBelow n
        ↔
      c.WrittenBelow n ∧ xs.length + rest.countP (isCandidate conf.data groupid none) < n := by
  have hrun := writtenBelow_collectRun_iff conf groupid c.numSync rest xs _ (groupStart_filled xs c h) n last
  rw [← hdata] at hrun
  have hempty : Collect.WrittenBelow n { standbys := c.standbys, numSync := 0, written := [] } := by
    intro i hi
    simp at hi
  rw [and_iff_right hempty] at hrun
  rw [← hrun]
  unfold Collect.WrittenBelow
  dsimp only [groupStep]
  rw [written_getSyncStandbysInGroup, forall_mem_append]

def candidatesOf (groups : List (ParsedConfigData × Nat)) : List SyncRepStandbyData :=
  groups.flatMap (fun (conf, groupid) => p.candidates conf groupid)

theorem groupsRun_filled (hquorum : ∀ group, group ∈ groups → group.1.syncrepMethod = .quorum)
    : ∀ (xs : List SyncRepStandbyData) (c : Collect), c.Filled 0 xs →
        (groups.foldl p.groupStep c).Filled 0 (xs ++ p.candidatesOf groups) := by
  induction groups with
  | nil =>
    intro xs c h
    simpa [candidatesOf] using h
  | cons group rest ih =>
    intro xs c h
    rw [forall_mem_cons] at hquorum
    have hstep := p.groupStep_filled xs c h group.1 group.2 hquorum.left
    have hrest := ih hquorum.right _ _ hstep
    rw [append_assoc] at hrest
    exact hrest

theorem writtenBelow_groupsRun_iff (xs : List SyncRepStandbyData) (c : Collect) (h : c.Filled 0 xs) (n : Nat)
    (rest : List SyncRepStandbyData) (last : SyncRepStandbyData)
    (hdata : p.standbyData = rest ++ [last])
    : ∀ (group : ParsedConfigData × Nat), (∀ group, group ∈ groups → group.1.syncrepMethod = .quorum) →
        (((groups ++ [group]).foldl p.groupStep c).WrittenBelow n
          ↔
        c.WrittenBelow n ∧ (xs ++ p.candidatesOf groups).length
          + rest.countP (isCandidate group.1.data group.2 none) < n) := by
  induction groups using List.reverseRecOn with
  | nil =>
    intro group hquorum
    simpa [candidatesOf] using p.writtenBelow_groupStep_iff xs c h group.1 group.2 n rest last hdata
  | append_singleton groups before ih =>
    intro group hquorum
    have hfilled := p.groupsRun_filled (groups ++ [before]) hquorum xs c h
    have hle : rest.countP (isCandidate before.1.data before.2 none)
        ≤ (p.candidates before.1 before.2).length := by
      unfold candidates
      rw [hdata, ← countP_eq_length_filter, countP_append]
      omega
    rw [foldl_append, foldl_cons, foldl_nil,
      p.writtenBelow_groupStep_iff _ _ hfilled group.1 group.2 n rest last hdata,
      ih before (fun g hg => hquorum g (mem_append_left _ hg)), and_assoc]
    apply and_congr_right
    intro _
    simp only [candidatesOf, flatMap_append, flatMap_singleton, length_append]
    omega

section Count

def inGroups (groups : List (ParsedConfigData × Nat)) (stby : SyncRepStandbyData) : Bool :=
  groups.any (fun (conf, groupid) => isCandidate conf.data groupid none stby)

theorem syncStandbyGroup_of_isCandidate (groupid : Nat)
    (stby : SyncRepStandbyData) (h : isCandidate conf.data groupid none stby = true)
    : stby.syncStandbyGroup = groupid :=
  ((isCandidate_iff conf.data groupid stby).mp h).left.right.right.left

theorem countP_or {α : Type} (f g : α → Bool) (l : List α) (h : ∀ x, f x = true → g x = false)
    : l.countP (fun x => f x || g x) = l.countP f + l.countP g := by
  induction l with
  | nil => rfl
  | cons x l ih =>
    simp only [countP_cons, ih]
    cases hf : f x with
    | false =>
      simp
      omega
    | true =>
      simp [h x hf]
      omega

theorem length_candidates (h : (groups.map Prod.snd).Nodup) (walsnds : List SyncRepStandbyData)
    : (groups.flatMap (fun (conf, groupid) =>
          walsnds.filter (isCandidate conf.data groupid none))).length
        =
      walsnds.countP (inGroups groups) := by
  induction groups with
  | nil =>
    have : inGroups [] = fun _ => false := rfl
    simp [this]
  | cons group rest ih =>
    rw [map_cons, nodup_cons] at h
    have hor : inGroups (group :: rest)
        = fun stby => isCandidate group.1.data group.2 none stby || inGroups rest stby := rfl
    rw [flatMap_cons, length_append, ih h.right, ← countP_eq_length_filter, hor, countP_or]
    intro stby hstby
    rw [← Bool.not_eq_true]
    intro hrest
    obtain ⟨other, hother, hcandidate⟩ := any_eq_true.mp hrest
    apply h.left
    rw [mem_map]
    refine ⟨other, hother, ?_⟩
    rw [← syncStandbyGroup_of_isCandidate _ _ _ hstby, syncStandbyGroup_of_isCandidate _ _ _ hcandidate]

theorem inGroups_iff (stby : SyncRepStandbyData) (hstby : stby ∈ p.standbyData)
    : inGroups groups stby = true
        ↔
      ∃ conf groupid, (conf, groupid) ∈ groups ∧ stby ∈ p.candidates conf groupid := by
  unfold inGroups candidates
  rw [any_eq_true]
  constructor
  . intro ⟨group, hgroup, hcandidate⟩
    exact ⟨group.1, group.2, hgroup, mem_filter.mpr ⟨hstby, hcandidate⟩⟩
  . intro ⟨conf, groupid, hgroup, hcandidate⟩
    exact ⟨(conf, groupid), hgroup, (mem_filter.mp hcandidate).right⟩

end Count

section Written

theorem length_of_priority (hmem : conf ∈ p.config) (hpriority : conf.syncrepMethod = .priority)
    : p.config.length = 1 := by
  unfold config assignSynchronousStandbyNames at hmem ⊢
  cases hnewval : p.newval with
  | none =>
    rw [hnewval] at hmem
    simp at hmem
  | some text =>
    rw [hnewval] at hmem
    have haccepted := p.accepted text (by simp [hnewval])
    have hdata := eq_singleton_of_priority _ haccepted conf.data (mem_map_of_mem hmem) hpriority
    have := congrArg List.length hdata
    rw [length_map, length_singleton] at this
    exact this

theorem quorum_of_mem_init (init : List ParsedConfigData) (final : ParsedConfigData)
    (hconfig : p.config = init ++ [final]) (conf : ParsedConfigData) (hmem : conf ∈ init)
    : conf.syncrepMethod = .quorum := by
  cases hmethod : conf.syncrepMethod with
  | quorum => rfl
  | priority =>
    have hlength := p.length_of_priority conf (by simp [hconfig, hmem]) hmethod
    have := length_pos_of_mem hmem
    rw [hconfig, length_append, length_singleton] at hlength
    omega

theorem empty_filled : Collect.Filled 0 [] { standbys := memory, numSync := 0, written := [] } := by
  constructor
  . rfl
  . intro i hi
    simp at hi

theorem leavesRoom_iff (init : List ParsedConfigData) (final : ParsedConfigData)
    (hconfig : p.config = init ++ [final]) (rest : List SyncRepStandbyData) (last : SyncRepStandbyData)
    (hdata : p.standbyData = rest ++ [last])
    : p.LeavesRoom
        ↔
      ¬((∀ stby, stby ∈ rest → inGroups p.config.zipIdx stby = true)
        ∧ inGroups init.zipIdx last = true) := by
  have hlength : p.config.length = init.length + 1 := by
    rw [hconfig, length_append, length_singleton]
  have hzip : p.config.zipIdx = init.zipIdx ++ [(final, init.length)] := by
    rw [hconfig, zipIdx_append]
    simp
  have hsplit : inGroups p.config.zipIdx last
      = (inGroups init.zipIdx last || isCandidate final.data init.length none last) := by
    rw [hzip]
    simp [inGroups]
  have hinit : inGroups init.zipIdx last = true → last.syncStandbyGroup < init.length := by
    intro h
    obtain ⟨group, hgroup, hcandidate⟩ := any_eq_true.mp h
    rw [syncStandbyGroup_of_isCandidate _ _ _ hcandidate]
    have := snd_lt_of_mem_zipIdx hgroup
    omega
  have hall : (∀ stby, stby ∈ p.standbyData →
        ∃ conf groupid, (conf, groupid) ∈ p.config.zipIdx ∧ stby ∈ p.candidates conf groupid)
      ↔ (∀ stby, stby ∈ rest → inGroups p.config.zipIdx stby = true)
        ∧ inGroups p.config.zipIdx last = true := by
    have : ∀ stby, stby ∈ p.standbyData →
        ((∃ conf groupid, (conf, groupid) ∈ p.config.zipIdx ∧ stby ∈ p.candidates conf groupid)
          ↔ inGroups p.config.zipIdx stby = true) := by
      intro stby hstby
      rw [p.inGroups_iff _ stby hstby]
    rw [forall₂_congr this, hdata, forall_mem_append, forall_mem_singleton]
  unfold LeavesRoom
  simp only [hall]
  rw [hdata, getLast?_concat, hlength]
  constructor
  . intro h ⟨hrest, hin⟩
    have := h last rfl ⟨hrest, by rw [hsplit, hin, Bool.true_or]⟩
    have := hinit hin
    omega
  . intro h stby hstby ⟨hrest, hin⟩
    obtain rfl := Option.some.inj hstby
    rw [hsplit, Bool.or_eq_true] at hin
    cases hin with
    | inl hin => exact absurd ⟨hrest, hin⟩ h
    | inr hin =>
      have := syncStandbyGroup_of_isCandidate _ _ _ hin
      omega

theorem writtenBelow_iff
    : (p.getSyncStandbys memory).WrittenBelow p.maxWalSenders ↔ p.LeavesRoom := by
  obtain ⟨rest, last, hdata⟩ := p.standbyData_eq
  have hmax : p.maxWalSenders = rest.length + 1 := by
    rw [← length_standbyData, hdata, length_append, length_singleton]
  cases hconfig : p.config using List.reverseRecOn with
  | nil =>
    constructor
    . intro _ last _ h
      obtain ⟨conf, groupid, hmem, hcandidate⟩ := h _ (by rw [hdata]; exact mem_concat_self)
      simp [hconfig] at hmem
    . intro _ i hi
      simp [getSyncStandbys, hconfig] at hi
  | append_singleton init final =>
    have hzip : p.config.zipIdx = init.zipIdx ++ [(final, init.length)] := by
      rw [hconfig, zipIdx_append]
      simp
    have hquorum : ∀ group, group ∈ init.zipIdx → group.1.syncrepMethod = .quorum := by
      intro group hgroup
      exact p.quorum_of_mem_init init final hconfig group.1 (fst_mem_of_mem_zipIdx hgroup)
    have hnodup : (p.config.zipIdx.map Prod.snd).Nodup := by
      rw [zipIdx_map_snd]
      exact nodup_range'
    have hinit : (init.zipIdx.map Prod.snd).Nodup := by
      rw [zipIdx_map_snd]
      exact nodup_range'
    have hrest : rest.countP (inGroups p.config.zipIdx)
        = rest.countP (inGroups init.zipIdx) + rest.countP (isCandidate final.data init.length none) := by
      rw [← length_candidates _ hnodup, ← length_candidates _ hinit, hzip, flatMap_append,
        length_append, flatMap_singleton, countP_eq_length_filter]
    have hlength : (p.candidatesOf init.zipIdx).length
        = rest.countP (inGroups init.zipIdx) + [last].countP (inGroups init.zipIdx) := by
      rw [← countP_append, ← hdata]
      exact length_candidates _ hinit p.standbyData
    have hle := countP_le_length (p := inGroups p.config.zipIdx) (l := rest)
    have hall := List.countP_eq_length (p := inGroups p.config.zipIdx) (l := rest)
    have hempty : Collect.WrittenBelow p.maxWalSenders
        { standbys := memory, numSync := 0, written := [] } := by
      intro i hi
      simp at hi
    rw [p.leavesRoom_iff init final hconfig rest last hdata, ← hall]
    unfold getSyncStandbys
    rw [hzip, p.writtenBelow_groupsRun_iff init.zipIdx [] _ (empty_filled memory) p.maxWalSenders rest
      last hdata (final, init.length) hquorum, and_iff_right hempty, nil_append, hlength, hmax,
      countP_singleton, ← hzip]
    split
    . next hin =>
      simp only [hin, and_true]
      omega
    . next hin =>
      simp only [hin, Bool.false_eq_true, and_false, not_false_iff, iff_true]
      omega

end Written

section Read

theorem syncRepConfig_zipIdx : p.syncRepConfig.zipIdx = p.config.zipIdx.map (Prod.map (·.data) id) := by
  rw [p.syncRepConfig_eq]
  exact zipIdx_map

theorem mem_syncRepConfig_zipIdx (groupid : Nat) (h : (conf, groupid) ∈ p.config.zipIdx)
    : (conf.data, groupid) ∈ p.syncRepConfig.zipIdx := by
  rw [syncRepConfig_zipIdx, mem_map]
  exact ⟨(conf, groupid), h, rfl⟩

section

variable (hquorum : ∀ conf, conf ∈ p.config → conf.syncrepMethod = .quorum)
include hquorum

theorem getSyncStandbys_eq : p.toSyncRepState.getSyncStandbys = p.candidatesOf p.config.zipIdx := by
  unfold SyncRepState.getSyncStandbys candidatesOf
  rw [syncRepConfig_zipIdx, flatMap_map]
  apply flatMap_congr
  intro group hgroup
  exact p.quorumGroup_eq _ (hquorum group.1 (fst_mem_of_mem_zipIdx hgroup)) group.2

theorem filter_candidatesOf (conf : ParsedConfigData) (groupid : Nat) (h : (conf, groupid) ∈ p.config.zipIdx)
    : (p.candidatesOf p.config.zipIdx).filter (fun stby => stby.syncStandbyGroup = groupid)
        =
      p.candidates conf groupid := by
  rw [← p.getSyncStandbys_eq hquorum,
    p.filter_getSyncStandbys conf.data groupid (p.mem_syncRepConfig_zipIdx conf groupid h)]
  exact p.quorumGroup_eq _ (hquorum conf (fst_mem_of_mem_zipIdx h)) groupid

theorem collected_filled (memory : Int → SyncRepStandbyData)
    : (p.getSyncStandbys memory).Filled 0 (p.candidatesOf p.config.zipIdx) := by
  apply p.groupsRun_filled p.config.zipIdx _ [] _ (empty_filled memory)
  intro group hgroup
  exact hquorum group.1 (fst_mem_of_mem_zipIdx hgroup)

end

theorem toList_of_filled (xs : List SyncRepStandbyData) (c : Collect) (h : c.Filled 0 xs)
    : c.toList = xs := by
  have hnext := h.next_eq
  have hnum : c.numSync.toNat = xs.length := by omega
  apply ext_getElem
  . simp [Collect.toList, hnum]
  . intro i hi hi'
    simp only [Collect.toList, getElem_map, getElem_range]
    exact h.entry_eq i hi'

theorem checkSyncStandbysNum_eq (hquorum : ∀ conf, conf ∈ p.config → conf.syncrepMethod = .quorum)
    (memory : Int → SyncRepStandbyData)
    : p.checkSyncStandbysNum (p.getSyncStandbys memory)
        =
      p.toSyncRepState.checkSyncStandbysNum p.toSyncRepState.getSyncStandbys := by
  have hfilled := p.collected_filled hquorum memory
  have hnext := hfilled.next_eq
  have hempty : (p.getSyncStandbys memory).numSync = 0
      ↔ (p.candidatesOf p.config.zipIdx).isEmpty = true := by
    rw [List.isEmpty_iff, ← length_eq_zero_iff]
    omega
  have hconfig : p.syncRepConfig.isEmpty = p.config.isEmpty := by
    rw [p.syncRepConfig_eq]
    simp [config]
  have hlt : ∀ (n : Nat) (conf : ParsedConfigData), (n : Int) < conf.numSync ↔ n < conf.data.numSync := by
    intro n conf
    simp only [ParsedConfigData.data]
    omega
  unfold checkSyncStandbysNum SyncRepState.checkSyncStandbysNum
  rw [p.getSyncStandbys_eq hquorum, toList_of_filled _ _ hfilled, hconfig, syncRepConfig_zipIdx, any_map]
  simp only [hempty, hlt]
  rfl

theorem getNthLatestSyncRecPtr_iff (standbys : List SyncRepStandbyData) (groupid : Nat) (numSync : Int)
    (group : List SyncRepStandbyData)
    (hgroup : standbys.filter (fun stby => stby.syncStandbyGroup = groupid) = group)
    : (∀ read, p.getNthLatestSyncRecPtr standbys groupid numSync = some read →
          1 ≤ read.nth ∧ read.nth ≤ read.filled)
        ↔
      (group ≠ [] → numSync % 256 ≠ 0
        ∧ (numSync % 256 ≤ group.countP (fun stby => !stby.isCrossCluster)
          ∨ (p.mostAvailableSync = true ∧ ∀ stby, stby ∈ group → stby.isCrossCluster = false))) := by
  have hall := List.countP_eq_length (p := fun stby => !stby.isCrossCluster) (l := group)
  simp only [Bool.not_eq_true'] at hall
  have hle := countP_le_length (p := fun stby => !stby.isCrossCluster) (l := group)
  unfold getNthLatestSyncRecPtr
  dsimp only
  rw [hgroup, ← hall, ne_eq, ← List.isEmpty_iff]
  split
  . next hempty =>
    simp [hempty]
  . next hempty =>
    have hpos : 0 < group.length := by
      rw [List.isEmpty_iff, ← length_eq_zero_iff] at hempty
      omega
    rw [imp_iff_right hempty]
    cases hmost : p.mostAvailableSync with
    | false =>
      simp only [Bool.false_eq_true, false_and, if_false, Option.some.injEq, forall_eq', or_false]
      omega
    | true =>
      simp only [true_and]
      split
      . simp only [Option.some.injEq, forall_eq']
        omega
      . simp only [Option.some.injEq, forall_eq']
        omega

section

variable (hquorum : ∀ conf, conf ∈ p.config → conf.syncrepMethod = .quorum)
include hquorum

theorem checkSyncStandbysNum_ne_empty (h : p.checkSyncStandbysNum (p.getSyncStandbys memory) = .empty)
    : p.candidatesOf p.config.zipIdx = [] := by
  have hnext := (p.collected_filled hquorum memory).next_eq
  unfold checkSyncStandbysNum at h
  split at h
  . simp at h
  . split at h
    . rw [← length_eq_zero_iff]
      omega
    . split at h
      . simp at h
      . simp at h

theorem mem_getSyncRecPtrReads_iff (memory : Int → SyncRepStandbyData) (checkAmSync : Bool) (read : NthRead)
    : read ∈ p.getSyncRecPtrReads memory checkAmSync
        ↔
      p.quickExit checkAmSync = false ∧ ∃ conf groupid, (conf, groupid) ∈ p.config.zipIdx
        ∧ p.getNthLatestSyncRecPtr (p.candidatesOf p.config.zipIdx) groupid conf.numSync = some read := by
  have hconfig : p.syncRepConfig.isEmpty = p.config.isEmpty := by
    rw [p.syncRepConfig_eq]
    simp [config]
  have hexit : p.quickExit checkAmSync
      = ((!amSync (p.getSyncStandbys memory).toList && checkAmSync) || p.config.isEmpty
        || !p.judgeSyncStandbysNum (p.checkSyncStandbysNum (p.getSyncStandbys memory))) := by
    unfold quickExit
    dsimp only
    rw [hconfig, p.checkSyncStandbysNum_eq hquorum, toList_of_filled _ _ (p.collected_filled hquorum memory),
      p.getSyncStandbys_eq hquorum]
  unfold getSyncRecPtrReads
  dsimp only
  rw [← hexit, toList_of_filled _ _ (p.collected_filled hquorum memory)]
  cases p.quickExit checkAmSync with
  | true => simp
  | false =>
    rw [if_neg (by simp), and_iff_right rfl]
    split
    . next hempty =>
      rw [p.checkSyncStandbysNum_ne_empty memory hquorum hempty]
      simp [getNthLatestSyncRecPtr]
    . grind

end

theorem getSyncRecPtrReads_iff (checkAmSync : Bool)
    : (∀ read, read ∈ p.getSyncRecPtrReads memory checkAmSync → 1 ≤ read.nth ∧ read.nth ≤ read.filled)
        ↔
      p.NumSyncFits checkAmSync := by
  by_cases hquorum : ∀ conf, conf ∈ p.config → conf.syncrepMethod = .quorum
  . simp only [p.mem_getSyncRecPtrReads_iff hquorum]
    unfold NumSyncFits
    constructor
    . intro h hexit conf groupid hmem _
      rw [← p.getNthLatestSyncRecPtr_iff _ groupid conf.numSync _
        (p.filter_candidatesOf hquorum conf groupid hmem)]
      intro read hread
      exact h read ⟨hexit, conf, groupid, hmem, hread⟩
    . intro h read ⟨hexit, conf, groupid, hmem, hread⟩
      have hfits := h hexit conf groupid hmem (hquorum conf (fst_mem_of_mem_zipIdx hmem))
      rw [← p.getNthLatestSyncRecPtr_iff _ groupid conf.numSync _
        (p.filter_candidatesOf hquorum conf groupid hmem)] at hfits
      exact hfits read hread
  . simp only [not_forall] at hquorum
    obtain ⟨conf, hmem, hpriority⟩ := hquorum
    have hpriority : conf.syncrepMethod = .priority := by
      cases h : conf.syncrepMethod with
      | priority => rfl
      | quorum => exact absurd h hpriority
    obtain ⟨only, honly⟩ := length_eq_one_iff.mp (p.length_of_priority conf hmem hpriority)
    rw [honly, mem_singleton] at hmem
    subst hmem
    constructor
    . intro _ _ conf' groupid hmem hquorum
      rw [honly, zipIdx_singleton, mem_singleton] at hmem
      obtain ⟨rfl, rfl⟩ := Prod.mk.inj hmem
      simp [hpriority] at hquorum
    . intro _ read hread
      simp [getSyncRecPtrReads, honly, hpriority] at hread

end Read

theorem inBounds_iff (memory : Int → SyncRepStandbyData) (checkAmSync : Bool)
    : p.InBounds memory checkAmSync ↔ p.LeavesRoom ∧ p.NumSyncFits checkAmSync := by
  unfold InBounds
  rw [p.getSyncRecPtrReads_iff memory checkAmSync, ← p.writtenBelow_iff memory]
  rfl

end Primary

section TwoGroups

def streamingSender (group : Nat) : WalSnd where
  pid := 1
  state := .streaming
  peerRole := .standby
  position := fun _ => 100
  lastChangeTime := fun _ => 0
  syncStandbyPriority := 1
  syncStandbyGroup := group
  isCrossCluster := false

theorem one_lt_ten : 1 < 10 := Nat.lt_of_sub_eq_succ rfl

theorem digits_ne_one : [Fin.mk 1 one_lt_ten] ≠ [] := cons_ne_nil _ _

theorem names_ne_singleton (name : String) : [name] ≠ [] := cons_ne_nil _ _

def anyOne (name : String) : StandbyConfigComplete where
  syncrepMethod := .quorum
  num := { digits := [⟨1, one_lt_ten⟩], digits_ne := digits_ne_one }
  standbyList := { names := [name], names_ne := names_ne_singleton name }

def anyOneTwice : StandbyConfig :=
  .combination (anyOne "a") [anyOne "b"]

theorem anyOneTwice_accepted (config : StandbyConfig) (h : config ∈ some anyOneTwice)
    : checkSynchronousStandbyNames config = true := by
  obtain rfl := Option.some.inj h
  decide +kernel

theorem walsnds_ne_twoGroups : [streamingSender 1, streamingSender 0] ≠ [] := cons_ne_nil _ _

theorem position_ne : 200 ≠ 0 := Nat.succ_ne_zero 199

-- `ANY 1 (a), ANY 1 (b)` with two senders, the first one of the second group.
def twoGroups : Primary where
  syncRepConfig := anyOneTwice.result.map ParsedConfigData.data
  walsnds := [streamingSender 1, streamingSender 0]
  myWalSnd := some 0
  xlog := { write := 200, flush := 200, write_ne := position_ne, flush_ne := position_ne }
  now := 0
  mostAvailableSync := false
  ignoreStandbyLsnWindow := 0
  keepSyncWindow := 0
  keepSyncWindowStart := 0
  outKeepSyncWindow := false
  newval := some anyOneTwice
  accepted := anyOneTwice_accepted
  syncRepConfig_eq := rfl
  walsnds_ne := walsnds_ne_twoGroups

def palloced : SyncRepStandbyData :=
  { streamingSender 0 with walsndIndex := 0, isMe := false, tooOld := fun _ => false }

theorem not_inBounds_twoGroups
    : ¬∀ (p : Primary) (memory : Int → SyncRepStandbyData) (checkAmSync : Bool),
        p.InBounds memory checkAmSync := by
  intro h
  have hwritten : 2 ∈ (twoGroups.getSyncStandbys (fun _ => palloced)).written := by
    decide
  have := ((h twoGroups (fun _ => palloced) false).left 2 hwritten).right
  revert this
  decide

end TwoGroups

end SyncRep

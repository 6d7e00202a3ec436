import OpenGauss.Mot.GcQueue.Group
import Mathlib.Data.List.Perm.Basic

/-!
This module shows what the operations of the queue do to the retired objects in it.
-/

open List

namespace Mot
namespace GcQueue

variable {Object : Type} (q : GcQueue Object)

structure WF (q : GcQueue Object) : Prop where
  front : ∀ group, group ∈ q.front → group.WF
  tail : q.tail.WF
  spare : ∀ group, group ∈ q.spare → group.Fresh
  reserved : ∀ group, group ∈ q.reservedManager.limboReservedMemory → group.Fresh

theorem wf_new (isGeneric : Bool) : (GcQueue.new isGeneric : GcQueue Object).WF where
  front := by
    intro group hgroup
    simp [GcQueue.new] at hgroup
  tail := LimboGroup.fresh_new.wf
  spare := by
    intro group hgroup
    simp [GcQueue.new] at hgroup
  reserved := by
    intro group hgroup
    simp [GcQueue.new] at hgroup

section PushBack

theorem objects_append_tail : q.objects = q.front.flatMap LimboGroup.objects ++ q.tail.objects := by
  unfold objects
  rw [flatMap_append, flatMap_singleton]

theorem allocLimboGroup_fresh (pool : GcReservedMemoryPool Object)
    (h : ∀ group, group ∈ pool.limboReservedMemory → group.Fresh)
    : (∀ group, group ∈ pool.allocLimboGroup.1 → group.Fresh)
        ∧ ∀ group, group ∈ pool.allocLimboGroup.2.limboReservedMemory → group.Fresh := by
  unfold GcReservedMemoryPool.allocLimboGroup
  split
  . constructor
    . intro group hgroup
      simp at hgroup
    . exact h
  . grind

structure Refilled (q q' : GcQueue Object) : Prop where
  wf : q'.WF
  tail : q'.tail.Fresh
  front : q'.front = q.front ++ [q.tail]
  inuse : q'.totalLimboInuseElements = q.totalLimboInuseElements

theorem refillLimboGroup_refilled (h : q.WF) (fromManager : Option (FreshLimboGroup Object))
    : Refilled q (q.refillLimboGroup fromManager) := by
  have hfront : ∀ group, group ∈ q.front ++ [q.tail] → group.WF := by
    intro group hgroup
    rw [mem_append, mem_singleton] at hgroup
    cases hgroup with
    | inl hgroup => exact h.front group hgroup
    | inr hgroup =>
      rw [hgroup]
      exact h.tail
  have halloc := allocLimboGroup_fresh q.reservedManager h.reserved
  unfold refillLimboGroup
  split
  . next next spare hspare =>
    have hnext : next.Fresh := h.spare next (by rw [hspare]; exact mem_cons_self)
    refine ⟨⟨hfront, hnext.wf, ?_, h.reserved⟩, hnext, rfl, rfl⟩
    intro group hgroup
    exact h.spare group (by rw [hspare]; exact mem_cons_of_mem _ hgroup)
  . split
    . next group =>
      have hgroup : group.val.Fresh := group.property
      exact ⟨⟨hfront, hgroup.wf, h.spare, h.reserved⟩, hgroup, rfl, rfl⟩
    . split
      . next group reservedManager heq =>
        rw [heq] at halloc
        have hgroup : group.Fresh := halloc.left group rfl
        exact ⟨⟨hfront, hgroup.wf, h.spare, halloc.right⟩, hgroup, rfl, rfl⟩
      . next reservedManager heq =>
        rw [heq] at halloc
        exact ⟨⟨hfront, LimboGroup.fresh_new.wf, h.spare, halloc.right⟩, LimboGroup.fresh_new, rfl, rfl⟩

theorem pushBack_spec (h : q.WF) (retired : RetiredObject Object)
    (fromManager : Option (FreshLimboGroup Object))
    : (q.pushBack retired fromManager).WF
        ∧ (q.pushBack retired fromManager).objects = q.objects ++ [retired]
        ∧ (q.pushBack retired fromManager).totalLimboInuseElements = q.totalLimboInuseElements + 1 := by
  have hpush : ∀ q' : GcQueue Object, q'.WF → q'.tail.tail + 2 ≤ limboCapacity →
      q'.objects = q.objects → q'.totalLimboInuseElements = q.totalLimboInuseElements → ({ q' with
          tail := q'.tail.pushBack retired
          totalLimboInuseElements := q'.totalLimboInuseElements + 1 } : GcQueue Object).WF
          ∧ ({ q' with
              tail := q'.tail.pushBack retired
              totalLimboInuseElements := q'.totalLimboInuseElements + 1 } : GcQueue Object).objects
              = q.objects ++ [retired]
          ∧ q'.totalLimboInuseElements + 1 = q.totalLimboInuseElements + 1 := by
    intro q' hwf hroom hobjects hinuse
    have hgroup := LimboGroup.pushBack_spec q'.tail hwf.tail hroom retired
    refine ⟨{ hwf with tail := hgroup.left }, ?_, by rw [hinuse]⟩
    rw [← hobjects, objects_append_tail, objects_append_tail]
    dsimp only
    rw [hgroup.right, append_assoc]
  unfold pushBack
  dsimp only
  split
  . have hrefilled := q.refillLimboGroup_refilled h fromManager
    apply hpush _ hrefilled.wf
    . rw [hrefilled.tail.right]
      decide
    . rw [objects_append_tail, hrefilled.front, hrefilled.tail.objects, append_nil]
      rfl
    . exact hrefilled.inuse
  . next hroom =>
    exact hpush q h (by omega) rfl rfl

theorem pushBackAll_spec (fromManager : Nat → Option (FreshLimboGroup Object)) (q : GcQueue Object)
    (h : q.WF) (pushed : List (RetiredObject Object))
    : (pushBackAll fromManager q pushed).WF
        ∧ (pushBackAll fromManager q pushed).objects = q.objects ++ pushed
        ∧ (pushBackAll fromManager q pushed).totalLimboInuseElements
            = q.totalLimboInuseElements + pushed.length := by
  unfold pushBackAll
  generalize 0 = first
  induction pushed generalizing q first with
  | nil =>
    refine ⟨h, ?_, rfl⟩
    rw [append_nil]
    rfl
  | cons retired rest ih =>
    have hpush := q.pushBack_spec h retired (fromManager first)
    have hrest := ih (q.pushBack retired (fromManager first)) hpush.left (first + 1)
    rw [zipIdx_cons, foldl_cons]
    refine ⟨hrest.left, ?_, ?_⟩
    . rw [hrest.right.left, hpush.right.left, append_assoc]
      rfl
    . rw [hrest.right.right, hpush.right.right, length_cons]
      omega

end PushBack

section HardQuiesce

structure Quiesced (epochBound : UInt64) (groups empties : List (LimboGroup Object)) (count : Nat)
    (cleaned : Cleaned Object) (result : QuiesceResult Object) : Prop where
  live : ∀ group, group ∈ result.live → group.WF
  empties : ∀ group, group ∈ result.empties → group.Fresh
  some : groups ≠ [] → result.live = [] → result.empties ≠ []
  objects : result.cleaned.destroyed ++ result.live.flatMap LimboGroup.objects
    = cleaned.destroyed ++ groups.flatMap LimboGroup.objects
  count : result.cleaned.destroyed.length + result.count = cleaned.destroyed.length + count
  bound : ∀ retired, retired ∈ result.cleaned.destroyed → retired ∈ cleaned.destroyed
    ∨ epochBelow epochBound retired.epoch = false

namespace Quiesced

variable {epochBound : UInt64} {groups rest empties : List (LimboGroup Object)}
variable {group group' : LimboGroup Object} {count count' : Nat} {cleaned more : Cleaned Object}
variable {result : QuiesceResult Object}

theorem stop (hgroups : ∀ group, group ∈ groups → group.WF) (hempties : ∀ group, group ∈ empties → group.Fresh)
    : Quiesced epochBound groups empties count cleaned { empties, live := groups, count, cleaned } where
  live := hgroups
  empties := hempties
  some := fun hne hnil => absurd hnil hne
  objects := rfl
  count := rfl
  bound := fun _ hretired => Or.inl hretired

section Clean

variable (hclean : LimboGroup.CleanResult epochBound group count { destroyed := [], deleted := [] }
  (group', count', more))
include hclean

theorem objects_clean : more.destroyed ++ group'.objects = group.objects := by
  simpa using hclean.objects

theorem length_clean : more.destroyed.length + count' = count := by
  simpa using hclean.count

theorem bound_clean {retired : RetiredObject Object}
    (hretired : retired ∈ cleaned.destroyed ++ more.destroyed)
    : retired ∈ cleaned.destroyed ∨ epochBelow epochBound retired.epoch = false := by
  rw [mem_append] at hretired
  cases hretired with
  | inl hretired => exact Or.inl hretired
  | inr hretired => exact Or.inr (by simpa using hclean.bound retired hretired)

-- Objects are left in the group.
theorem keep (hrest : ∀ other, other ∈ rest → other.WF) (hempties : ∀ other, other ∈ empties → other.Fresh)
    : Quiesced epochBound (group :: rest) empties count cleaned
        { empties, live := group' :: rest, count := count'
          cleaned := { destroyed := cleaned.destroyed ++ more.destroyed
                       deleted := cleaned.deleted ++ more.deleted } } where
  live := by
    intro other hother
    rw [mem_cons] at hother
    cases hother with
    | inl hother =>
      rw [hother]
      exact hclean.wf
    | inr hother => exact hrest other hother
  empties := hempties
  some := by
    intro _ hnil
    simp at hnil
  objects := by
    dsimp only
    rw [flatMap_cons, flatMap_cons, ← objects_clean hclean]
    simp only [append_assoc]
  count := by
    have hlength := length_clean hclean
    dsimp only
    rw [length_append]
    omega
  bound := fun _ hretired => bound_clean hclean hretired

-- The group is empty now.
theorem next (hfresh : group'.Fresh) (hsome : rest = [] → result.empties ≠ [])
    (hrest : Quiesced epochBound rest (empties ++ [group']) count'
      { destroyed := cleaned.destroyed ++ more.destroyed, deleted := cleaned.deleted ++ more.deleted } result)
    : Quiesced epochBound (group :: rest) empties count cleaned result where
  live := hrest.live
  empties := hrest.empties
  some := by
    intro _ hlive
    by_cases hnil : rest = []
    . exact hsome hnil
    . exact hrest.some hnil hlive
  objects := by
    have hobjects := hrest.objects
    dsimp only at hobjects
    rw [hobjects, flatMap_cons, ← objects_clean hclean, hfresh.objects, append_nil, append_assoc]
  count := by
    have hcount := hrest.count
    have hlength := length_clean hclean
    dsimp only at hcount
    rw [length_append] at hcount
    omega
  bound := by
    intro retired hretired
    cases hrest.bound retired hretired with
    | inl hretired => exact bound_clean hclean hretired
    | inr hbound => exact Or.inr hbound

end Clean

end Quiesced

theorem hardQuiesce_go_spec (epochBound : UInt64) (groups : List (LimboGroup Object))
    : ∀ (empties : List (LimboGroup Object)) (count : Nat) (cleaned : Cleaned Object),
        (∀ group, group ∈ groups → group.WF) → (∀ group, group ∈ empties → group.Fresh) →
          Quiesced epochBound groups empties count cleaned
            (hardQuiesce.go epochBound groups empties count cleaned) := by
  induction groups with
  | nil =>
    intro empties count cleaned hgroups hempties
    exact Quiesced.stop hgroups hempties
  | cons group rest ih =>
    intro empties count cleaned hgroups hempties
    have hrest (other : LimboGroup Object) (hother : other ∈ rest) := hgroups other (mem_cons_of_mem _ hother)
    unfold hardQuiesce.go
    split
    . exact Quiesced.stop hgroups hempties
    . next hcount =>
      have hclean := LimboGroup.cleanUntil_spec group (hgroups group mem_cons_self) epochBound count
        (by omega)
      generalize group.cleanUntil epochBound count = result at hclean
      obtain ⟨group', count', more⟩ := result
      obtain ⟨hclean, hfresh⟩ := hclean
      dsimp only
      split
      . exact Quiesced.keep hclean hrest hempties
      . next heq =>
        rw [ne_eq, not_not] at heq
        apply Quiesced.next hclean (hfresh heq)
        . intro hnil
          rw [hnil]
          simp [hardQuiesce.go]
        . apply ih _ _ _ hrest
          intro other hother
          rw [mem_append, mem_singleton] at hother
          cases hother with
          | inl hother => exact hempties other hother
          | inr hother =>
            rw [hother]
            exact hfresh heq

structure HardQuiesced (q : GcQueue Object) (numOfElementsToClean : Nat) (performGcEpoch : UInt64)
    (result : GcQueue Object × List (RetiredObject Object)) : Prop where
  wf : result.1.WF
  objects : result.2 ++ result.1.objects = q.objects
  count : result.2.length ≤ numOfElementsToClean
  bound : ∀ retired, retired ∈ result.2 → epochBelow (performGcEpoch - 1) retired.epoch = false
  inuse : result.1.totalLimboInuseElements = q.totalLimboInuseElements - result.2.length

theorem hardQuiesce_spec (h : q.WF) (numOfElementsToClean : Nat) (performGcEpoch : UInt64)
    : HardQuiesced q numOfElementsToClean performGcEpoch
        (q.hardQuiesce numOfElementsToClean performGcEpoch) := by
  unfold hardQuiesce
  dsimp only
  split
  . constructor
    . exact h
    . rfl
    . exact Nat.zero_le _
    . intro retired hretired
      simp at hretired
    . rfl
  . have hgroups : ∀ group, group ∈ q.front ++ [q.tail] → group.WF := by
      intro group hgroup
      rw [mem_append, mem_singleton] at hgroup
      cases hgroup with
      | inl hgroup => exact h.front group hgroup
      | inr hgroup =>
        rw [hgroup]
        exact h.tail
    have hgo := hardQuiesce_go_spec (performGcEpoch - 1) (q.front ++ [q.tail]) [] numOfElementsToClean
      { destroyed := [], deleted := [] } hgroups (by simp)
    generalize hardQuiesce.go (performGcEpoch - 1) (q.front ++ [q.tail]) [] numOfElementsToClean
      { destroyed := [], deleted := [] } = result at hgo ⊢
    have hcount := hgo.count
    have hobjects := hgo.objects
    have hbound := hgo.bound
    simp only [nil_append, length_nil, Nat.zero_add, not_mem_nil, false_or] at hcount hobjects hbound
    have hspare : ∀ group, group ∈ result.empties ++ q.spare → group.Fresh := by
      intro group hgroup
      rw [mem_append] at hgroup
      cases hgroup with
      | inl hgroup => exact hgo.empties group hgroup
      | inr hgroup => exact h.spare group hgroup
    split
    . next tail front hlive =>
      have hlive : result.live = front.reverse ++ [tail] := by
        rw [← reverse_cons, ← hlive, reverse_reverse]
      rw [hlive] at hobjects
      constructor
      . constructor
        . intro group hgroup
          apply hgo.live
          rw [hlive, mem_append]
          exact Or.inl hgroup
        . apply hgo.live
          rw [hlive]
          simp
        . exact hspare
        . exact h.reserved
      . exact hobjects
      . dsimp only
        omega
      . exact hbound
      . dsimp only
        omega
    . next hlive =>
      rw [reverse_eq_nil_iff] at hlive
      rw [hlive, flatMap_nil, append_nil] at hobjects
      split
      . next head empties hempties =>
        have hhead : head.Fresh := hgo.empties head (by rw [hempties]; exact mem_cons_self)
        constructor
        . constructor
          . intro group hgroup
            simp at hgroup
          . exact hhead.wf
          . intro group hgroup
            apply hspare
            rw [hempties]
            exact mem_cons_of_mem _ hgroup
          . exact h.reserved
        . rw [objects_append_tail]
          dsimp only
          rw [hhead.objects, flatMap_nil, append_nil, append_nil]
          exact hobjects
        . dsimp only
          omega
        . exact hbound
        . dsimp only
          omega
      . next hempties => exact absurd hempties (hgo.some (by simp) hlive)

end HardQuiesce

section CleanIndex

theorem cleanGroups_spec (indexId : UInt32) (oper : GcOperationType) (groups : List (LimboGroup Object))
    : ((∀ group, group ∈ groups → group.WF) → ∀ group, group ∈ (cleanGroups indexId oper groups).1 → group.WF)
        ∧ ((∀ group, group ∈ groups → group.Fresh) →
            ∀ group, group ∈ (cleanGroups indexId oper groups).1 → group.Fresh)
        ∧ (cleanGroups indexId oper groups).1.flatMap LimboGroup.objects
            = (groups.flatMap LimboGroup.objects).filter (fun retired => retired.indexId ≠ indexId)
        ∧ (cleanGroups indexId oper groups).2.destroyed
            = (groups.flatMap LimboGroup.objects).filter (fun retired => retired.indexId = indexId) := by
  induction groups with
  | nil => simp [cleanGroups]
  | cons group rest ih =>
    obtain ⟨hwf, hfresh, hobjects, hdestroyed⟩ := ih
    obtain ⟨hsame, hgroup, hcleaned⟩ := LimboGroup.cleanIndexItemPerGroup_spec group indexId oper
    unfold cleanGroups
    dsimp only
    refine ⟨?_, ?_, ?_, ?_⟩
    . intro hgroups other hother
      rw [mem_cons] at hother
      cases hother with
      | inl hother =>
        rw [hother]
        exact hsame.wf (hgroups group mem_cons_self)
      | inr hother =>
        apply hwf _ other hother
        intro other hother
        exact hgroups other (mem_cons_of_mem _ hother)
    . intro hgroups other hother
      rw [mem_cons] at hother
      cases hother with
      | inl hother =>
        rw [hother]
        exact hsame.fresh (hgroups group mem_cons_self)
      | inr hother =>
        apply hfresh _ other hother
        intro other hother
        exact hgroups other (mem_cons_of_mem _ hother)
    . rw [flatMap_cons, flatMap_cons, hgroup, hobjects, filter_append]
    . rw [hcleaned, hdestroyed, flatMap_cons, filter_append]

structure IndexCleaned (q : GcQueue Object) (indexId : UInt32) (oper : GcOperationType)
    (result : GcQueue Object × List (RetiredObject Object) × List (RetiredObject Object)) : Prop where
  wf : result.1.WF
  objects : result.1.objects
    = q.objects.filter (fun retired => retired.indexId ≠ indexId) ++ result.2.2
  destroyed : result.2.1 = q.objects.filter (fun retired => retired.indexId = indexId)
  inuse : sizeByCleanIndex oper result.2.1 ≠ 0 ∨ result.2.1 = [] → result.2.1.length < 2 ^ 32 →
    result.1.totalLimboInuseElements
      = q.totalLimboInuseElements + result.2.2.length - result.2.1.length

theorem registerDeletedSentinels_spec (h : q.WF) (sentinelDtor : DestroyValueCb Object)
    (globalEpoch : UInt64) (fromManager : Nat → Option (FreshLimboGroup Object))
    : let result := q.registerDeletedSentinels sentinelDtor globalEpoch fromManager;
      result.1.WF
        ∧ result.1.objects = q.objects ++ result.2
        ∧ result.1.totalLimboInuseElements = q.totalLimboInuseElements + result.2.length := by
  unfold registerDeletedSentinels
  dsimp only
  generalize (if q.isGeneric = true then q.deleteVector.map (retiredSentinel sentinelDtor globalEpoch)
    else []) = pushed
  have hpush := pushBackAll_spec fromManager q h pushed
  exact ⟨⟨hpush.left.front, hpush.left.tail, hpush.left.spare, hpush.left.reserved⟩, hpush.right.left,
    hpush.right.right⟩

theorem cleanIndexItems_spec (h : q.WF) (indexId : UInt32) (oper : GcOperationType)
    (sentinelDtor : DestroyValueCb Object) (globalEpoch : UInt64)
    (fromManager : Nat → Option (FreshLimboGroup Object))
    : IndexCleaned q indexId oper (q.cleanIndexItems indexId oper sentinelDtor globalEpoch fromManager) := by
  obtain ⟨hfrontWf, _, hfront, hfrontDestroyed⟩ := cleanGroups_spec indexId oper q.front
  obtain ⟨hsame, htail, htailDestroyed⟩ := LimboGroup.cleanIndexItemPerGroup_spec q.tail indexId oper
  obtain ⟨_, hspareFresh, _, hspareDestroyed⟩ := cleanGroups_spec indexId oper q.spare
  have hspareNone : q.spare.flatMap LimboGroup.objects = [] := by
    rw [flatMap_eq_nil_iff]
    intro group hgroup
    exact (h.spare group hgroup).objects
  rw [hspareNone, filter_nil] at hspareDestroyed
  have hdestroyed : (cleanGroups indexId oper q.front).2.destroyed
        ++ (q.tail.cleanIndexItemPerGroup indexId oper).2.destroyed
        ++ (cleanGroups indexId oper q.spare).2.destroyed
      = q.objects.filter (fun retired => retired.indexId = indexId) := by
    rw [hfrontDestroyed, htailDestroyed, hspareDestroyed, append_nil, objects_append_tail, filter_append]
  unfold cleanIndexItems
  dsimp only
  rw [hdestroyed]
  generalize hq' : ({ q with
      front := (cleanGroups indexId oper q.front).1
      tail := (q.tail.cleanIndexItemPerGroup indexId oper).1
      spare := (cleanGroups indexId oper q.spare).1
      deleteVector := q.deleteVector ++ (cleanGroups indexId oper q.front).2.deleted
        ++ (q.tail.cleanIndexItemPerGroup indexId oper).2.deleted
        ++ (cleanGroups indexId oper q.spare).2.deleted } : GcQueue Object) = q'
  have hwf : q'.WF := by
    rw [← hq']
    exact ⟨hfrontWf h.front, hsame.wf h.tail, hspareFresh h.spare, h.reserved⟩
  have hobjects : q'.objects = q.objects.filter (fun retired => retired.indexId ≠ indexId) := by
    rw [← hq', objects_append_tail, objects_append_tail, filter_append]
    dsimp only
    rw [hfront, htail]
  have hinuse : q'.totalLimboInuseElements = q.totalLimboInuseElements := by
    rw [← hq']
  have hregistered : ∀ (q'' : GcQueue Object) (pushed : List (RetiredObject Object)),
      (if oper ≠ .operDropIndex then q'.registerDeletedSentinels sentinelDtor globalEpoch fromManager
        else (q', [])) = (q'', pushed) →
        q''.WF ∧ q''.objects = q'.objects ++ pushed
          ∧ q''.totalLimboInuseElements = q'.totalLimboInuseElements + pushed.length := by
    intro q'' pushed heq
    split at heq
    . have hregister := q'.registerDeletedSentinels_spec hwf sentinelDtor globalEpoch fromManager
      rw [heq] at hregister
      exact hregister
    . obtain ⟨rfl, rfl⟩ := Prod.mk.inj heq
      exact ⟨hwf, by rw [append_nil], rfl⟩
  generalize hresult : (if oper ≠ .operDropIndex then
      q'.registerDeletedSentinels sentinelDtor globalEpoch fromManager else (q', [])) = result
  obtain ⟨q'', pushed⟩ := result
  obtain ⟨hwf'', hobjects'', hinuse''⟩ := hregistered q'' pushed hresult
  split
  . next hsize =>
    constructor
    . exact { hwf'' with }
    . refine Eq.trans hobjects'' ?_
      rw [hobjects]
    . rfl
    . intro _ hlt
      dsimp only at hlt ⊢
      rw [hinuse'', hinuse, UInt32.toNat_ofNat', Nat.mod_eq_of_lt hlt]
  . next hsize =>
    constructor
    . exact hwf''
    . rw [hobjects'', hobjects]
    . rfl
    . intro hor _
      dsimp only at hor hsize ⊢
      cases hor with
      | inl hor => exact absurd hor hsize
      | inr hor => rw [hinuse'', hinuse, hor, length_nil, Nat.sub_zero]

end CleanIndex

section Memory

structure SameObjects (q q' : GcQueue Object) : Prop where
  wf : q'.WF
  objects : q'.objects = q.objects
  inuse : q'.totalLimboInuseElements = q.totalLimboInuseElements

theorem SameObjects.refl {q : GcQueue Object} (h : q.WF) : SameObjects q q :=
  ⟨h, rfl, rfl⟩

theorem allocLimboGroups_go_spec (fromReserved : Bool) (limboGroups : Nat)
    : ∀ (q : GcQueue Object) (groups : List (LimboGroup Object)), q.WF →
        (∀ group, group ∈ groups → group.Fresh) →
          SameObjects q (allocLimboGroups.go fromReserved limboGroups q groups).1
            ∧ ∀ group, group ∈ (allocLimboGroups.go fromReserved limboGroups q groups).2 → group.Fresh := by
  induction limboGroups with
  | zero =>
    intro q groups h hgroups
    exact ⟨SameObjects.refl h, hgroups⟩
  | succ limboGroups ih =>
    intro q groups h hgroups
    have halloc : ∀ (group : Option (LimboGroup Object)) (reservedManager : GcReservedMemoryPool Object),
        (if fromReserved then q.reservedManager.allocLimboGroup else (none, q.reservedManager))
          = (group, reservedManager) →
        (∀ g, g ∈ group → g.Fresh) ∧ ∀ g, g ∈ reservedManager.limboReservedMemory → g.Fresh := by
      intro group reservedManager heq
      split at heq
      . have hfresh := allocLimboGroup_fresh q.reservedManager h.reserved
        rw [heq] at hfresh
        exact hfresh
      . obtain ⟨rfl, rfl⟩ := Prod.mk.inj heq
        exact ⟨by simp, h.reserved⟩
    have hcons : ∀ (group : LimboGroup Object), group.Fresh → ∀ g, g ∈ group :: groups → g.Fresh := by
      intro group hgroup g hg
      rw [mem_cons] at hg
      cases hg with
      | inl hg =>
        rw [hg]
        exact hgroup
      | inr hg => exact hgroups g hg
    unfold allocLimboGroups.go
    split
    . next group reservedManager heq =>
      obtain ⟨hgroup, hreserved⟩ := halloc _ _ heq
      have hrest := ih { q with reservedManager } (group :: groups)
        { h with reserved := hreserved } (hcons group (hgroup group rfl))
      exact ⟨⟨hrest.left.wf, hrest.left.objects, hrest.left.inuse⟩, hrest.right⟩
    . next reservedManager heq =>
      obtain ⟨_, hreserved⟩ := halloc _ _ heq
      have hrest := ih
        { q with reservedManager, limboGroupAllocations := q.limboGroupAllocations + 1 }
        (LimboGroup.new :: groups) { h with reserved := hreserved }
        (hcons LimboGroup.new LimboGroup.fresh_new)
      exact ⟨⟨hrest.left.wf, hrest.left.objects, hrest.left.inuse⟩, hrest.right⟩

theorem allocLimboGroups_spec (h : q.WF) (limboGroups : Nat) (totalElements : UInt32) (reserveGroups : Bool)
    : SameObjects q (q.allocLimboGroups limboGroups totalElements reserveGroups) := by
  obtain ⟨hsame, hgroups⟩ := allocLimboGroups_go_spec (q.isGeneric && !reserveGroups) limboGroups q [] h
    (by simp)
  unfold allocLimboGroups
  generalize allocLimboGroups.go (q.isGeneric && !reserveGroups) limboGroups q [] = result at hsame hgroups
  obtain ⟨q', groups⟩ := result
  dsimp only at hsame hgroups ⊢
  split
  . refine ⟨⟨hsame.wf.front, hsame.wf.tail, hsame.wf.spare, ?_⟩, hsame.objects, hsame.inuse⟩
    intro group hgroup
    unfold GcReservedMemoryPool.reserveGCMemory at hgroup
    rw [mem_append, mem_map] at hgroup
    cases hgroup with
    | inl hgroup => exact hsame.wf.reserved group hgroup
    | inr hgroup =>
      obtain ⟨group', _, rfl⟩ := hgroup
      exact LimboGroup.fresh_reset group'
  . refine ⟨⟨hsame.wf.front, hsame.wf.tail, ?_, hsame.wf.reserved⟩, hsame.objects, hsame.inuse⟩
    intro group hgroup
    rw [mem_append] at hgroup
    cases hgroup with
    | inl hgroup => exact hgroups group hgroup
    | inr hgroup => exact hsame.wf.spare group hgroup

theorem reserveGCMemory_spec (h : q.WF) (elements : UInt32) (reserveGroups : Bool)
    : SameObjects q (q.reserveGCMemory elements reserveGroups) := by
  unfold reserveGCMemory
  dsimp only
  generalize (if q.isGeneric = true then elements.toNat * masstreeReserve else elements.toNat) = total
  split
  . split
    . refine ⟨{ h with reserved := ?_ }, rfl, rfl⟩
      intro group hgroup
      unfold GcReservedMemoryPool.reserveGCMemory at hgroup
      rw [map_nil, append_nil] at hgroup
      exact h.reserved group hgroup
    . split
      . exact SameObjects.refl h
      . exact q.allocLimboGroups_spec h _ _ _
  . generalize (if q.getFreeAllocations.toNat < total + 2 then
        GcReservedMemoryPool.ceilDiv (total + 2 - q.getFreeAllocations.toNat) limboCapacity % 2 ^ 32
      else 0) = limboGroups
    split
    . exact SameObjects.refl h
    . exact q.allocLimboGroups_spec h _ _ _

theorem shrinkMem_spec (h : q.WF) (deletedElements : Nat)
    : SameObjects q (q.shrinkMem deletedElements) := by
  unfold shrinkMem
  split
  . dsimp only
    split
    . exact ⟨⟨h.front, h.tail, by simp, by simp⟩, rfl, rfl⟩
    . exact ⟨⟨h.front, h.tail, by simp, h.reserved⟩, rfl, rfl⟩
  . exact SameObjects.refl h

end Memory

end GcQueue

variable {Object : Type}

/--
What a step may meet: among the objects that a quiesce may destroy it takes no epoch beyond its bound for one
below it, and what a cleaning by index destroys is of some size.
-/
def GcOp.Sound (q : GcQueue Object) : GcOp Object → Prop
  | .hardQuiesce numOfElementsToClean performGcEpoch =>
    ∀ retired, retired ∈ q.objects.take numOfElementsToClean →
      epochBelow (performGcEpoch - 1) retired.epoch = true ∨ retired.epoch < performGcEpoch
  | .cleanIndexItems indexId oper _ _ _ =>
    let cleaned := q.objects.filter (fun retired => retired.indexId = indexId)
    (cleaned = [] ∨ GcQueue.sizeByCleanIndex oper cleaned ≠ 0) ∧ cleaned.length < 2 ^ 32
  | _ => True

inductive GcRun (isGeneric : Bool) : GcHistory Object → Prop
  | init : GcRun isGeneric (GcHistory.new isGeneric)
  | step (h : GcHistory Object) (op : GcOp Object) : GcRun isGeneric h → op.Sound h.queue →
      GcRun isGeneric (h.exec op)

structure GcHistory.Inv (h : GcHistory Object) : Prop where
  wf : h.queue.WF
  once : h.pushed.Perm (h.destroyed ++ h.queue.objects)
  order : h.queue.objects.Sublist h.pushed
  inuse : h.queue.totalLimboInuseElements = h.queue.objects.length

theorem GcHistory.inv_new (isGeneric : Bool) : (GcHistory.new isGeneric : GcHistory Object).Inv where
  wf := GcQueue.wf_new isGeneric
  once := List.Perm.refl _
  order := List.Sublist.refl _
  inuse := rfl

variable {h : GcHistory Object}

theorem GcHistory.Inv.sameObjects (hinv : h.Inv) (queue : GcQueue Object)
    (hsame : GcQueue.SameObjects h.queue queue)
    : ({ h with queue } : GcHistory Object).Inv where
  wf := hsame.wf
  once := by
    dsimp only
    rw [hsame.objects]
    exact hinv.once
  order := by
    dsimp only
    rw [hsame.objects]
    exact hinv.order
  inuse := by
    dsimp only
    rw [hsame.objects, hsame.inuse]
    exact hinv.inuse

theorem GcHistory.Inv.pushBack (hinv : h.Inv) (retired : RetiredObject Object)
    (fromManager : Option (FreshLimboGroup Object))
    : (h.exec (.pushBack retired fromManager)).Inv := by
  obtain ⟨hwf, hobjects, hinuse⟩ := h.queue.pushBack_spec hinv.wf retired fromManager
  unfold GcHistory.exec
  constructor
  . exact hwf
  . dsimp only
    rw [hobjects, ← append_assoc]
    exact hinv.once.append_right _
  . dsimp only
    rw [hobjects]
    exact hinv.order.append (List.Sublist.refl _)
  . dsimp only
    rw [hobjects, hinuse, hinv.inuse, length_append, length_singleton]

theorem GcHistory.Inv.hardQuiesce (hinv : h.Inv) (numOfElementsToClean : Nat) (performGcEpoch : UInt64)
    : (h.exec (.hardQuiesce numOfElementsToClean performGcEpoch)).Inv := by
  have hspec := h.queue.hardQuiesce_spec hinv.wf numOfElementsToClean performGcEpoch
  unfold GcHistory.exec
  dsimp only
  constructor
  . exact hspec.wf
  . dsimp only
    rw [append_assoc, hspec.objects]
    exact hinv.once
  . apply List.Sublist.trans _ hinv.order
    rw [← hspec.objects]
    exact sublist_append_right _ _
  . have hlength := congrArg List.length hspec.objects
    rw [length_append] at hlength
    dsimp only
    rw [hspec.inuse, hinv.inuse]
    omega

theorem GcHistory.Inv.cleanIndexItems (hinv : h.Inv) (indexId : UInt32)
    (oper : GcOperationType) (sentinelDtor : DestroyValueCb Object) (globalEpoch : UInt64)
    (fromManager : Nat → Option (FreshLimboGroup Object))
    (hsound : (GcOp.cleanIndexItems indexId oper sentinelDtor globalEpoch fromManager).Sound h.queue)
    : (h.exec (.cleanIndexItems indexId oper sentinelDtor globalEpoch fromManager)).Inv := by
  have hspec := h.queue.cleanIndexItems_spec hinv.wf indexId oper sentinelDtor globalEpoch fromManager
  have hsplit := filter_append_perm (fun retired : RetiredObject Object => retired.indexId = indexId)
    h.queue.objects
  have hne : (h.queue.objects.filter fun retired => !decide (retired.indexId = indexId))
      = h.queue.objects.filter (fun retired => retired.indexId ≠ indexId) := by
    apply filter_congr
    intro retired hretired
    simp
  rw [hne, ← hspec.destroyed] at hsplit
  unfold GcHistory.exec
  dsimp only
  constructor
  . exact hspec.wf
  . dsimp only
    rw [hspec.objects, ← append_assoc]
    apply List.Perm.append_right
    apply hinv.once.trans
    rw [append_assoc]
    exact hsplit.symm.append_left _
  . dsimp only
    rw [hspec.objects]
    apply List.Sublist.append
    . exact filter_sublist.trans hinv.order
    . exact List.Sublist.refl _
  . dsimp only
    dsimp only [GcOp.Sound] at hsound
    rw [← hspec.destroyed] at hsound
    obtain ⟨hsize, hlt⟩ := hsound
    rw [hspec.inuse hsize.symm hlt, hspec.objects, hinv.inuse, length_append]
    have hlength := hsplit.length_eq
    rw [length_append] at hlength
    omega

theorem GcHistory.Inv.exec (hinv : h.Inv) (op : GcOp Object) (hsound : op.Sound h.queue)
    : (h.exec op).Inv := by
  cases op with
  | pushBack retired fromManager => exact hinv.pushBack retired fromManager
  | hardQuiesce numOfElementsToClean performGcEpoch =>
    exact hinv.hardQuiesce numOfElementsToClean performGcEpoch
  | cleanIndexItems indexId oper sentinelDtor globalEpoch fromManager =>
    exact hinv.cleanIndexItems indexId oper sentinelDtor globalEpoch fromManager hsound
  | reserveGCMemory elements reserveGroups =>
    exact hinv.sameObjects _ (h.queue.reserveGCMemory_spec hinv.wf elements reserveGroups)
  | shrinkMem deletedElements => exact hinv.sameObjects _ (h.queue.shrinkMem_spec hinv.wf deletedElements)

theorem GcRun.inv {isGeneric : Bool} (hrun : GcRun isGeneric h) : h.Inv := by
  induction hrun with
  | init => exact GcHistory.inv_new isGeneric
  | step h op hrun hsound ih => exact ih.exec op hsound

/--
After every run the pushed objects are the destroyed ones and the ones in the queue, each once, and the
counter is the number of the latter. A quiesce destroys the first of them in the order of their pushes, no
more than it is told and none with an epoch that is not below `performGcEpoch`.
-/
theorem gcQueue_exact (isGeneric : Bool) (h : GcHistory Object) (hrun : GcRun isGeneric h)
    : h.pushed.Perm (h.destroyed ++ h.queue.objects)
        ∧ h.queue.objects.Sublist h.pushed
        ∧ h.queue.totalLimboInuseElements = h.queue.objects.length
        ∧ ∀ (numOfElementsToClean : Nat) (performGcEpoch : UInt64),
            (GcOp.hardQuiesce numOfElementsToClean performGcEpoch).Sound h.queue →
              let result := h.queue.hardQuiesce numOfElementsToClean performGcEpoch;
              result.2 ++ result.1.objects = h.queue.objects
                ∧ result.2.length ≤ numOfElementsToClean
                ∧ ∀ retired, retired ∈ result.2 → retired.epoch < performGcEpoch := by
  have hinv := hrun.inv
  refine ⟨hinv.once, hinv.order, hinv.inuse, ?_⟩
  intro numOfElementsToClean performGcEpoch hsound
  have hspec := h.queue.hardQuiesce_spec hinv.wf numOfElementsToClean performGcEpoch
  refine ⟨hspec.objects, hspec.count, ?_⟩
  intro retired hretired
  have hmem : retired ∈ h.queue.objects.take numOfElementsToClean := by
    rw [← hspec.objects, List.take_append, List.take_of_length_le hspec.count, List.mem_append]
    exact Or.inl hretired
  cases hsound retired hmem with
  | inl hbelow =>
    rw [hspec.bound retired hretired] at hbelow
    simp at hbelow
  | inr hlt => exact hlt

section OneObject

def oneObject (size : UInt32) : RetiredObject Unit where
  object := ()
  indexId := 1
  dtor := fun _ _ => (size, [])
  epoch := 5

def oneObjectHistory (size : UInt32) : GcHistory Unit :=
  ((GcHistory.new false).exec (.pushBack (oneObject size) none)).exec
    (.cleanIndexItems 1 .operDropIndex (fun _ _ => (0, [])) 0 (fun _ => none))

-- Three objects are pushed, one is destroyed by a quiesce and one with its index.
def pushedHistory : GcHistory Unit :=
  (((GcHistory.new false).exec (.pushBack { oneObject 40 with epoch := 3 } none)).exec
    (.pushBack { oneObject 40 with indexId := 2 } none)).exec (.pushBack { oneObject 40 with epoch := 7 } none)

def quiescedHistory : GcHistory Unit := pushedHistory.exec (.hardQuiesce 1 6)

def cleanedHistory : GcHistory Unit :=
  quiescedHistory.exec (.cleanIndexItems 2 .operDropIndex (fun _ _ => (0, [])) 0 (fun _ => none))

theorem gcQueue_exact_threeObjects
    : cleanedHistory.destroyed.map RetiredObject.epoch = [3, 5]
      ∧ cleanedHistory.pushed.Perm (cleanedHistory.destroyed ++ cleanedHistory.queue.objects)
      ∧ cleanedHistory.queue.totalLimboInuseElements = cleanedHistory.queue.objects.length
      ∧ (cleanedHistory.queue.hardQuiesce 9 8).2.map RetiredObject.epoch = [7]
      ∧ ∀ retired, retired ∈ (cleanedHistory.queue.hardQuiesce 9 8).2 → retired.epoch < 8 := by
  have hpushed : GcRun false pushedHistory :=
    .step _ _ (.step _ _ (.step _ _ .init trivial) trivial) trivial
  have hquiesced : GcRun false quiescedHistory := hpushed.step _ _ (by unfold GcOp.Sound; decide +kernel)
  have hcleaned : GcRun false cleanedHistory := hquiesced.step _ _ ⟨.inr (by decide +kernel), by decide +kernel⟩
  obtain ⟨honce, _, hinuse, hhard⟩ := gcQueue_exact false _ hcleaned
  exact ⟨by decide +kernel, honce, hinuse, by decide +kernel,
    (hhard 9 8 (by unfold GcOp.Sound; decide +kernel)).2.2⟩

theorem cleanIndexItems_counter_drifts
    : (oneObjectHistory 0).queue.objects = [] ∧ (oneObjectHistory 0).queue.totalLimboInuseElements = 1 := by
  constructor
  . rfl
  . rfl

end OneObject

end Mot

import OpenGauss.Mot.GcQueue.Impl

/-!
This module shows what the operations on one limbo group do to the retired objects in it.
-/

open List

namespace Mot

variable {Object : Type} (group : LimboGroup Object) (elements : Nat → LimboElement Object)
variable (elem : LimboElement Object) (i : Nat)

section Slots

@[simp]
theorem slotObjects_zero (head : Nat) : slotObjects elements head 0 = [] := by
  rfl

theorem slotObjects_succ (head n : Nat)
    : slotObjects elements head (n + 1)
        =
      (elements head).toObject.toList ++ slotObjects elements (head + 1) n := by
  unfold slotObjects
  rw [range'_succ, filterMap_cons]
  cases (elements head).toObject with
  | none => rfl
  | some retired => rfl

theorem slotObjects_add (n m : Nat)
    : ∀ (head : Nat), slotObjects elements head (n + m)
        =
      slotObjects elements head n ++ slotObjects elements (head + n) m := by
  induction n with
  | zero =>
    intro head
    rw [Nat.zero_add]
    rfl
  | succ n ih =>
    intro head
    have hsucc : n + 1 + m = (n + m) + 1 := by omega
    have hhead : head + (n + 1) = head + 1 + n := by omega
    rw [hsucc, slotObjects_succ, slotObjects_succ, ih, append_assoc, hhead]

theorem slotObjects_congr (elements' : Nat → LimboElement Object) (head n : Nat)
    (h : ∀ i, head ≤ i → i < head + n → elements i = elements' i)
    : slotObjects elements head n = slotObjects elements' head n := by
  unfold slotObjects
  apply filterMap_congr
  intro i hi
  rw [mem_range'_1] at hi
  rw [h i hi.left hi.right]

theorem toObject_of_none (h : elem.objectPtr = none) : elem.toObject = none := by
  unfold LimboElement.toObject
  rw [h]

theorem toObject_of_nullDtor (h : elem.cb = none) : elem.toObject = none := by
  unfold LimboElement.toObject
  rw [h]
  split
  . next heq => simp at heq
  . rfl

theorem toObject_of_some (object : Object) (dtor : DestroyValueCb Object)
    (hobject : elem.objectPtr = some object) (hdtor : elem.cb = some dtor)
    : elem.toObject = some { object, indexId := elem.indexId, dtor, epoch := elem.csn } := by
  unfold LimboElement.toObject
  rw [hobject, hdtor]

end Slots

namespace LimboGroup

-- The first slot in use is a marker, and an object has the epoch of the slot before it.
structure WF (group : LimboGroup Object) : Prop where
  head_le : group.head ≤ group.tail
  tail_le : group.tail ≤ limboCapacity
  marker : group.head < group.tail → (group.elements group.head).objectPtr = none
  chain : ∀ i, group.head ≤ i → i + 1 < group.tail → (group.elements (i + 1)).objectPtr ≠ none →
    (group.elements (i + 1)).csn = (group.elements i).csn
  epoch : group.head < group.tail → group.epoch = (group.elements (group.tail - 1)).csn

def Fresh (group : LimboGroup Object) : Prop :=
  group.head = 0 ∧ group.tail = 0

theorem Fresh.wf {group : LimboGroup Object} (h : group.Fresh) : group.WF where
  head_le := by
    rw [h.left]
    exact Nat.zero_le _
  tail_le := by
    rw [h.right]
    exact Nat.zero_le _
  marker := by
    intro hlt
    rw [h.right] at hlt
    omega
  chain := by
    intro i hi hlt
    rw [h.right] at hlt
    omega
  epoch := by
    intro hlt
    rw [h.right] at hlt
    omega

theorem Fresh.objects {group : LimboGroup Object} (h : group.Fresh) : group.objects = [] := by
  unfold LimboGroup.objects
  rw [h.left, h.right]
  rfl

theorem fresh_new : (LimboGroup.new : LimboGroup Object).Fresh :=
  ⟨rfl, rfl⟩

theorem fresh_reset : group.reset.Fresh :=
  ⟨rfl, rfl⟩

theorem set_self (elem : LimboElement Object) : (group.set i elem).elements i = elem := by
  simp [set]

theorem set_ne (j : Nat) (elem : LimboElement Object) (h : j ≠ i)
    : (group.set i elem).elements j = group.elements j := by
  simp [set, h]

section PushBack

theorem pushBack_spec (h : group.WF) (hroom : group.tail + 2 ≤ limboCapacity) (retired : RetiredObject Object)
    : (group.pushBack retired).WF
        ∧ (group.pushBack retired).objects = group.objects ++ [retired] := by
  have hhead := h.head_le
  have hlast : ∀ elem : LimboElement Object, elem.objectPtr = some retired.object →
      elem.cb = some retired.dtor → elem.csn = retired.epoch → elem.indexId = retired.indexId →
        elem.toObject = some retired := by
    intro elem hobject hdtor hcsn hindex
    rw [toObject_of_some elem _ _ hobject hdtor, hcsn, hindex]
  unfold pushBack
  by_cases hmark : group.head = group.tail ∨ group.epoch ≠ retired.epoch
  . rw [if_pos hmark]
    dsimp only [set]
    constructor
    . constructor
      . dsimp only
        omega
      . dsimp only
        omega
      . intro hlt
        dsimp only
        rw [if_neg (by omega)]
        split
        . rfl
        . apply h.marker
          omega
      . intro i hi hlt hobject
        dsimp only at hi hlt hobject ⊢
        by_cases hi1 : i + 1 = group.tail + 1
        . have : i = group.tail := by omega
          rw [if_pos hi1, if_neg (by omega), if_pos this]
        . rw [if_neg hi1] at hobject ⊢
          by_cases hi2 : i + 1 = group.tail
          . rw [if_pos hi2] at hobject
            simp at hobject
          . rw [if_neg hi2] at hobject ⊢
            rw [if_neg (by omega), if_neg (by omega)]
            exact h.chain i hi (by omega) hobject
      . intro hlt
        dsimp only
        rw [if_pos (by omega)]
    . unfold LimboGroup.objects
      dsimp only
      have hsplit : group.tail + 1 + 1 - group.head = (group.tail - group.head) + 2 := by omega
      have hpos : group.head + (group.tail - group.head) = group.tail := by omega
      rw [hsplit, slotObjects_add, hpos, slotObjects_succ, slotObjects_succ, slotObjects_zero]
      congr 1
      . apply slotObjects_congr
        intro i hi hlt
        rw [if_neg (by omega), if_neg (by omega)]
      . rw [if_neg (by omega), if_pos rfl, if_pos rfl, toObject_of_none _ rfl, hlast _ rfl rfl rfl rfl]
        rfl
  . rw [if_neg hmark]
    rw [not_or, not_not] at hmark
    obtain ⟨hne, hepoch⟩ := hmark
    have hlt : group.head < group.tail := by omega
    dsimp only [set]
    constructor
    . constructor
      . dsimp only
        omega
      . dsimp only
        omega
      . intro hlt'
        dsimp only
        rw [if_neg (by omega)]
        exact h.marker hlt
      . intro i hi hi1 hobject
        dsimp only at hi hi1 hobject ⊢
        by_cases heq : i + 1 = group.tail
        . have : i = group.tail - 1 := by omega
          rw [if_pos heq, if_neg (by omega), this, ← h.epoch hlt, hepoch]
        . rw [if_neg heq] at hobject ⊢
          rw [if_neg (by omega)]
          exact h.chain i hi (by omega) hobject
      . intro hlt'
        dsimp only
        rw [if_pos (by omega), hepoch]
    . unfold LimboGroup.objects
      dsimp only
      have hsplit : group.tail + 1 - group.head = (group.tail - group.head) + 1 := by omega
      have hpos : group.head + (group.tail - group.head) = group.tail := by omega
      rw [hsplit, slotObjects_add, hpos, slotObjects_succ, slotObjects_zero]
      congr 1
      . apply slotObjects_congr
        intro i hi hlt
        rw [if_neg (by omega)]
      . rw [if_pos rfl, hlast _ rfl rfl rfl rfl]
        rfl

end PushBack

section CleanUntil

structure Cleaning (group : LimboGroup Object) (epochBound csn : UInt64) : Prop where
  head_le : group.head ≤ group.tail
  tail_le : group.tail ≤ limboCapacity
  chain : ∀ i, group.head ≤ i → i + 1 < group.tail → (group.elements (i + 1)).objectPtr ≠ none →
    (group.elements (i + 1)).csn = (group.elements i).csn
  epoch : group.head < group.tail → group.epoch = (group.elements (group.tail - 1)).csn
  ready : group.head < group.tail → (group.elements group.head).objectPtr ≠ none →
    (group.elements group.head).csn = csn ∧ epochBelow epochBound csn = false

theorem WF.cleaning {group : LimboGroup Object} (h : group.WF) (epochBound csn : UInt64)
    : group.Cleaning epochBound csn := { h with
  ready := by
    intro hlt hobject
    exact absurd (h.marker hlt) hobject }

theorem Cleaning.next {group : LimboGroup Object} {epochBound csn : UInt64}
    (h : group.Cleaning epochBound csn) (hlt : group.head < group.tail) (elem : LimboElement Object)
    (hbound : epochBelow epochBound (group.elements group.head).csn = false)
    : ({ group.set group.head elem with head := group.head + 1 } : LimboGroup Object).Cleaning epochBound
        (group.elements group.head).csn where
  head_le := hlt
  tail_le := h.tail_le
  chain := by
    intro i hi hi1 hobject
    dsimp only at hi hi1 hobject ⊢
    rw [group.set_ne _ _ _ (by omega)] at hobject ⊢
    rw [group.set_ne _ _ _ (by omega)]
    exact h.chain i (by omega) hi1 hobject
  epoch := by
    intro hlt'
    dsimp only [set] at hlt' ⊢
    rw [if_neg (by omega)]
    exact h.epoch hlt
  ready := by
    intro hlt' hobject
    dsimp only at hlt' hobject ⊢
    rw [group.set_ne _ _ _ (by omega)] at hobject ⊢
    exact ⟨h.chain group.head (Nat.le_refl _) hlt' hobject, hbound⟩

theorem objects_next (hlt : group.head < group.tail) (elem : LimboElement Object)
    : group.objects
        =
      (group.elements group.head).toObject.toList
        ++ ({ group.set group.head elem with head := group.head + 1 } : LimboGroup Object).objects := by
  unfold LimboGroup.objects
  dsimp only
  have hsucc : group.tail - group.head = (group.tail - (group.head + 1)) + 1 := by omega
  have htail : (group.set group.head elem).tail = group.tail := rfl
  rw [htail, hsucc, slotObjects_succ]
  congr 1
  apply slotObjects_congr
  intro i hi hlt
  rw [group.set_ne _ _ _ (by omega)]

theorem set_set (elem elem' : LimboElement Object)
    : (group.set i elem).set i elem' = group.set i elem' := by
  unfold set
  congr 1
  funext j
  dsimp only
  split
  . rfl
  . rfl

theorem set_same : group.set group.head (group.elements group.head) = group := by
  unfold set
  congr 1
  funext j
  split
  . next h => rw [h]
  . rfl

theorem Cleaning.plant {group : LimboGroup Object} {epochBound csn : UInt64}
    (h : group.Cleaning epochBound csn) (hlt : group.head < group.tail) (elem : LimboElement Object)
    (hcsn : elem.csn = (group.elements group.head).csn) (hobject : elem.objectPtr = none)
    : (group.set group.head elem).WF
        ∧ (group.set group.head elem).objects
            =
          ({ group.set group.head elem with head := group.head + 1 } : LimboGroup Object).objects := by
  constructor
  . constructor
    . exact h.head_le
    . exact h.tail_le
    . intro hlt'
      dsimp only [set]
      rw [if_pos rfl]
      exact hobject
    . intro i hi hi1 hobject'
      dsimp only [set] at hi hi1 hobject' ⊢
      rw [if_neg (by omega)] at hobject' ⊢
      rw [h.chain i hi hi1 hobject']
      split
      . next heq => rw [heq, hcsn]
      . rfl
    . intro hlt'
      dsimp only [set]
      rw [h.epoch hlt]
      split
      . next heq => rw [heq, hcsn]
      . rfl
  . have hnext := objects_next (group.set group.head elem) hlt elem
    have hhead : ((group.set group.head elem).elements (group.set group.head elem).head) = elem :=
      set_self group group.head elem
    rw [hhead, toObject_of_none elem hobject] at hnext
    have hset : (group.set group.head elem).set (group.set group.head elem).head elem
        = group.set group.head elem :=
      set_set group group.head elem elem
    rw [hset] at hnext
    exact hnext

structure CleanResult (epochBound : UInt64) (group : LimboGroup Object) (count : Nat)
    (cleaned : Cleaned Object) (result : LimboGroup Object × Nat × Cleaned Object) : Prop where
  wf : result.1.WF
  objects : result.2.2.destroyed ++ result.1.objects = cleaned.destroyed ++ group.objects
  count : result.2.2.destroyed.length + result.2.1 = cleaned.destroyed.length + count
  bound : ∀ retired, retired ∈ result.2.2.destroyed → retired ∈ cleaned.destroyed
    ∨ epochBelow epochBound retired.epoch = false

namespace CleanResult

variable {group group' : LimboGroup Object} {epochBound : UInt64} {count : Nat} {cleaned : Cleaned Object}
variable {result : LimboGroup Object × Nat × Cleaned Object}

-- Nothing more is destroyed.
theorem stop (hwf : group'.WF) (hobjects : group'.objects = group.objects)
    : CleanResult epochBound group count cleaned (group', count, cleaned) where
  wf := hwf
  objects := congrArg _ hobjects
  count := rfl
  bound := fun _ hretired => Or.inl hretired

-- The head holds a marker, or an object whose destructor is gone.
theorem skip (hlt : group.head < group.tail) (hnone : (group.elements group.head).toObject = none)
    (hrest : CleanResult epochBound { group with head := group.head + 1 } count cleaned result)
    : CleanResult epochBound group count cleaned result := by
  have hobjects := objects_next group hlt (group.elements group.head)
  rw [hnone, set_same] at hobjects
  constructor
  . exact hrest.wf
  . rw [hobjects]
    exact hrest.objects
  . exact hrest.count
  . exact hrest.bound

theorem destroy (hlt : group.head < group.tail) {retired : RetiredObject Object}
    (hhead : (group.elements group.head).toObject = some retired)
    (hbound : epochBelow epochBound retired.epoch = false) (hcount : 0 < count)
    {elem : LimboElement Object} {deleted : List (DeletedSentinel Object)}
    (hrest : CleanResult epochBound { group.set group.head elem with head := group.head + 1 } (count - 1)
      { destroyed := cleaned.destroyed ++ [retired], deleted } result)
    : CleanResult epochBound group count cleaned result := by
  constructor
  . exact hrest.wf
  . rw [objects_next group hlt elem, hhead, hrest.objects, append_assoc]
    rfl
  . have hlength := hrest.count
    rw [length_append, length_singleton] at hlength
    omega
  . intro other hother
    have hold := hrest.bound other hother
    dsimp only at hold
    rw [mem_append, mem_singleton] at hold
    rcases hold with (hold | rfl) | hold
    . exact Or.inl hold
    . exact Or.inr hbound
    . exact Or.inr hold

end CleanResult

theorem Cleaning.wf {group : LimboGroup Object} {epochBound csn : UInt64}
    (h : group.Cleaning epochBound csn)
    (hmarker : group.head < group.tail → (group.elements group.head).objectPtr = none) : group.WF where
  head_le := h.head_le
  tail_le := h.tail_le
  marker := hmarker
  chain := h.chain
  epoch := h.epoch

theorem cleanUntil_go_spec (epochBound : UInt64) (fuel : Nat)
    : ∀ (group : LimboGroup Object) (csn : UInt64) (count : Nat) (cleaned : Cleaned Object),
        group.Cleaning epochBound csn → fuel = group.tail - group.head → 0 < count →
          CleanResult epochBound group count cleaned
            (cleanUntil.go epochBound fuel group csn count cleaned) := by
  induction fuel with
  | zero =>
    intro group csn count cleaned h hfuel hcount
    exact CleanResult.stop (h.wf (fun hlt => by omega)) rfl
  | succ fuel ih =>
    intro group csn count cleaned h hfuel hcount
    have hlt : group.head < group.tail := by omega
    unfold cleanUntil.go
    dsimp only
    split
    . next object hobject =>
      obtain ⟨hcsn, hbound⟩ := h.ready hlt (by simp [hobject])
      split
      . next dtor hdtor =>
        have hhead := toObject_of_some _ _ _ hobject hdtor
        have hdestroyed : epochBelow epochBound (group.elements group.head).csn = false := by
          rw [hcsn]
          exact hbound
        split
        . next hzero =>
          -- The slot of the last object becomes the marker of the objects that stay.
          have hplant := h.plant hlt { group.elements group.head with cb := none, objectPtr := none, csn }
            hcsn.symm rfl
          change CleanResult _ _ _ _ ((group.set group.head _).set group.head _, _)
          rw [set_set]
          exact CleanResult.destroy hlt hhead hdestroyed hcount (CleanResult.stop hplant.left hplant.right)
        . next hzero =>
          have hnext := h.next hlt { group.elements group.head with cb := none } hdestroyed
          rw [hcsn] at hnext
          exact CleanResult.destroy hlt hhead hdestroyed hcount
            (ih _ csn (count - 1) _ hnext (by dsimp only [set]; omega) (by omega))
      . next hdtor =>
        have hnext := h.next hlt (group.elements group.head) (by rw [hcsn]; exact hbound)
        rw [hcsn, set_same] at hnext
        exact CleanResult.skip hlt (toObject_of_nullDtor _ hdtor)
          (ih _ csn count cleaned hnext (by dsimp only; omega) hcount)
    . next hobject =>
      split
      . next hbelow => exact CleanResult.stop (h.wf (fun _ => hobject)) rfl
      . next hbelow =>
        rw [Bool.not_eq_true] at hbelow
        have hnext := h.next hlt (group.elements group.head) hbelow
        rw [set_same] at hnext
        exact CleanResult.skip hlt (toObject_of_none _ hobject)
          (ih _ _ count cleaned hnext (by dsimp only; omega) hcount)

theorem cleanUntil_spec (h : group.WF) (epochBound : UInt64) (count : Nat) (hcount : 0 < count)
    : CleanResult epochBound group count { destroyed := [], deleted := [] }
          (group.cleanUntil epochBound count)
        ∧ ((group.cleanUntil epochBound count).1.head = (group.cleanUntil epochBound count).1.tail →
            (group.cleanUntil epochBound count).1.Fresh) := by
  have hgo := cleanUntil_go_spec epochBound (group.tail - group.head) group 0 count
    { destroyed := [], deleted := [] } (h.cleaning epochBound 0) rfl hcount
  unfold cleanUntil
  generalize cleanUntil.go epochBound (group.tail - group.head) group 0 count
    { destroyed := [], deleted := [] } = result at hgo ⊢
  obtain ⟨group', count', cleaned⟩ := result
  dsimp only
  split
  . next hempty =>
    have hnone : group'.objects = [] := by
      unfold LimboGroup.objects
      rw [hempty, Nat.sub_self]
      rfl
    apply And.intro
    . constructor
      . exact (fresh_reset group').wf
      . have hobjects := hgo.objects
        dsimp only at hobjects ⊢
        rw [hnone] at hobjects
        rw [(fresh_reset group').objects]
        exact hobjects
      . exact hgo.count
      . exact hgo.bound
    . intro hreset
      exact fresh_reset group'
  . next hne =>
    apply And.intro hgo
    intro heq
    exact absurd heq hne

end CleanUntil

section CleanIndex

structure SameSlots (group group' : LimboGroup Object) : Prop where
  head : group'.head = group.head
  tail : group'.tail = group.tail
  epoch : group'.epoch = group.epoch
  objectPtr : ∀ i, (group'.elements i).objectPtr = (group.elements i).objectPtr
  csn : ∀ i, (group'.elements i).csn = (group.elements i).csn

theorem SameSlots.refl : SameSlots group group :=
  ⟨rfl, rfl, rfl, fun _ => rfl, fun _ => rfl⟩

theorem SameSlots.trans {group group' group'' : LimboGroup Object} (h : SameSlots group group')
    (h' : SameSlots group' group'')
    : SameSlots group group'' where
  head := by rw [h'.head, h.head]
  tail := by rw [h'.tail, h.tail]
  epoch := by rw [h'.epoch, h.epoch]
  objectPtr := by
    intro i
    rw [h'.objectPtr, h.objectPtr]
  csn := by
    intro i
    rw [h'.csn, h.csn]

theorem SameSlots.wf {group group' : LimboGroup Object} (h : SameSlots group group') (hwf : group.WF)
    : group'.WF where
  head_le := by
    rw [h.head, h.tail]
    exact hwf.head_le
  tail_le := by
    rw [h.tail]
    exact hwf.tail_le
  marker := by
    rw [h.head, h.tail, h.objectPtr]
    exact hwf.marker
  chain := by
    intro i hi hlt hobject
    rw [h.head] at hi
    rw [h.tail] at hlt
    rw [h.objectPtr] at hobject
    rw [h.csn, h.csn]
    exact hwf.chain i hi hlt hobject
  epoch := by
    rw [h.head, h.tail, h.epoch, h.csn]
    exact hwf.epoch

theorem SameSlots.fresh {group group' : LimboGroup Object} (h : SameSlots group group') (hfresh : group.Fresh)
    : group'.Fresh := by
  unfold Fresh
  rw [h.head, h.tail]
  exact hfresh

theorem sameSlots_set
    : SameSlots group (group.set i { group.elements i with cb := none }) where
  head := rfl
  tail := rfl
  epoch := rfl
  objectPtr := by
    intro j
    dsimp only [set]
    split
    . next h => rw [h]
    . rfl
  csn := by
    intro j
    dsimp only [set]
    split
    . next h => rw [h]
    . rfl

theorem cleanIndexItemPerGroup_go_spec (indexId : UInt32) (oper : GcOperationType) (fuel : Nat)
    : ∀ (group : LimboGroup Object) (gHead : Nat) (cleaned : Cleaned Object),
        let result := cleanIndexItemPerGroup.go indexId oper fuel group gHead cleaned;
        SameSlots group result.1
          ∧ (∀ i, i < gHead → result.1.elements i = group.elements i)
          ∧ slotObjects result.1.elements gHead fuel
              = (slotObjects group.elements gHead fuel).filter (fun retired => retired.indexId ≠ indexId)
          ∧ result.2.destroyed
              = cleaned.destroyed ++ (slotObjects group.elements gHead fuel).filter
                  (fun retired => retired.indexId = indexId) := by
  induction fuel with
  | zero =>
    intro group gHead cleaned
    refine ⟨SameSlots.refl group, fun _ _ => rfl, rfl, ?_⟩
    simp [cleanIndexItemPerGroup.go]
  | succ fuel ih =>
    intro group gHead cleaned
    have hpass : ∀ (group' : LimboGroup Object) (cleaned' : Cleaned Object), SameSlots group group' →
        (∀ i, i ≠ gHead → group'.elements i = group.elements i) →
        (group'.elements gHead).toObject.toList
          = (group.elements gHead).toObject.toList.filter (fun retired => retired.indexId ≠ indexId) →
        cleaned'.destroyed = cleaned.destroyed ++ (group.elements gHead).toObject.toList.filter
          (fun retired => retired.indexId = indexId) →
        let result := cleanIndexItemPerGroup.go indexId oper fuel group' (gHead + 1) cleaned';
        SameSlots group result.1
          ∧ (∀ i, i < gHead → result.1.elements i = group.elements i)
          ∧ slotObjects result.1.elements gHead (fuel + 1)
              = (slotObjects group.elements gHead (fuel + 1)).filter
                (fun retired => retired.indexId ≠ indexId)
          ∧ result.2.destroyed
              = cleaned.destroyed ++ (slotObjects group.elements gHead (fuel + 1)).filter
                  (fun retired => retired.indexId = indexId) := by
      intro group' cleaned' hsame hother hslot hdestroyed
      obtain ⟨hsame', hbelow, hobjects, hdestroyed'⟩ := ih group' (gHead + 1) cleaned'
      have hrest : slotObjects group'.elements (gHead + 1) fuel
          = slotObjects group.elements (gHead + 1) fuel := by
        apply slotObjects_congr
        intro i hi hlt
        exact hother i (by omega)
      refine ⟨hsame.trans hsame', ?_, ?_, ?_⟩
      . intro i hi
        rw [hbelow i (by omega), hother i (by omega)]
      . rw [slotObjects_succ, slotObjects_succ, hobjects, hbelow gHead (by omega), filter_append,
          hslot, hrest]
      . rw [hdestroyed', hdestroyed, slotObjects_succ, filter_append, hrest, append_assoc]
    unfold cleanIndexItemPerGroup.go
    dsimp only
    split
    . next object dtor hobject hdtor =>
      have htoObject := toObject_of_some _ _ _ hobject hdtor
      split
      . next hindex =>
        apply hpass
        . exact sameSlots_set group gHead
        . intro i hi
          exact group.set_ne gHead i _ hi
        . rw [set_self, toObject_of_nullDtor _ rfl, htoObject]
          simp [hindex]
        . rw [htoObject]
          simp [hindex]
      . next hindex =>
        apply hpass
        . exact SameSlots.refl group
        . intro i hi
          rfl
        . rw [htoObject]
          simp [hindex]
        . rw [htoObject]
          simp [hindex]
    . next hnot =>
      have htoObject : (group.elements gHead).toObject = none := by
        unfold LimboElement.toObject
        split
        . next object dtor hobject hdtor => exact absurd hdtor (hnot object dtor hobject)
        . rfl
      apply hpass
      . exact SameSlots.refl group
      . intro i hi
        rfl
      . rw [htoObject]
        rfl
      . rw [htoObject]
        simp

theorem cleanIndexItemPerGroup_spec (indexId : UInt32) (oper : GcOperationType)
    : SameSlots group (group.cleanIndexItemPerGroup indexId oper).1
        ∧ (group.cleanIndexItemPerGroup indexId oper).1.objects
            = group.objects.filter (fun retired => retired.indexId ≠ indexId)
        ∧ (group.cleanIndexItemPerGroup indexId oper).2.destroyed
            = group.objects.filter (fun retired => retired.indexId = indexId) := by
  have hgo := cleanIndexItemPerGroup_go_spec indexId oper (group.tail - group.head) group group.head
    { destroyed := [], deleted := [] }
  obtain ⟨hsame, _, hobjects, hdestroyed⟩ := hgo
  refine ⟨hsame, ?_, hdestroyed⟩
  unfold LimboGroup.objects cleanIndexItemPerGroup
  rw [hsame.head, hsame.tail]
  exact hobjects

end CleanIndex

end LimboGroup

end Mot

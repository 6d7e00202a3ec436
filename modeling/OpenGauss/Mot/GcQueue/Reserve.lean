import OpenGauss.Mot.GcQueue.Queue

/-!
This module shows how many objects a reservation has room for.
-/

open List

namespace Mot

open GcReservedMemoryPool

variable {Object : Type} {pool : GcReservedMemoryPool Object} {group : LimboGroup Object}
variable {q : GcQueue Object} {epoch : UInt64}

section Pushes

def GcQueue.NeedsGroup (q : GcQueue Object) : Prop :=
  limboCapacity < q.tail.tail + 2 ∧ q.spare = []

def GcQueue.PushesInPlace (fromManager : Nat → Option (FreshLimboGroup Object))
    : GcQueue Object → List (RetiredObject Object) → Prop
  | _, [] => True
  | q, retired :: rest =>
    ¬q.NeedsGroup ∧ PushesInPlace (fun i => fromManager (i + 1)) (q.pushBack retired (fromManager 0)) rest

def LimboGroup.StartsEpoch (group : LimboGroup Object) (epoch : UInt64) : Prop :=
  group.head = group.tail ∨ group.epoch ≠ epoch

instance {group : LimboGroup Object} {epoch : UInt64} : Decidable (group.StartsEpoch epoch) :=
  inferInstanceAs (Decidable (_ ∨ _))

-- The number of objects of an epoch that a group takes: one slot is the marker, the last one stays empty.
def LimboGroup.room (group : LimboGroup Object) (epoch : UInt64) : Nat :=
  if limboCapacity < group.tail + 2 then 0
  else if group.StartsEpoch epoch then Max.max 1 (limboCapacity - 2 - group.tail)
  else limboCapacity - 1 - group.tail

def GcQueue.linkedRoom (q : GcQueue Object) (epoch : UInt64) : Nat :=
  q.tail.room epoch + (limboCapacity - 2) * q.spare.length

theorem LimboGroup.room_eq_zero_iff : group.room epoch = 0 ↔ limboCapacity < group.tail + 2 := by
  unfold room
  split
  . omega
  . split
    . omega
    . omega

theorem LimboGroup.Fresh.room (h : group.Fresh) (epoch : UInt64) : group.room epoch = limboCapacity - 2 := by
  have hstarts : group.StartsEpoch epoch := by
    apply Or.inl
    rw [h.left, h.right]
  unfold LimboGroup.room
  rw [if_neg (by rw [h.right]; decide), if_pos hstarts, h.right]
  decide

theorem LimboGroup.tail_pushBack (group : LimboGroup Object) (retired : RetiredObject Object)
    : (group.pushBack retired).tail = if group.StartsEpoch retired.epoch then group.tail +
        2 else group.tail + 1 := by
  by_cases hstarts : group.StartsEpoch retired.epoch
  . rw [if_pos hstarts]
    unfold StartsEpoch at hstarts
    unfold pushBack
    rw [if_pos hstarts]
  . rw [if_neg hstarts]
    unfold StartsEpoch at hstarts
    unfold pushBack
    rw [if_neg hstarts]

theorem LimboGroup.not_startsEpoch_pushBack (h : group.head ≤ group.tail)
    (retired : RetiredObject Object) : ¬(group.pushBack retired).StartsEpoch retired.epoch := by
  intro hstarts
  have htail := group.tail_pushBack retired
  have hhead : (group.pushBack retired).head = group.head := by
    unfold pushBack
    dsimp only
    split
    . rfl
    . rfl
  have hepoch : (group.pushBack retired).epoch = retired.epoch := by
    unfold pushBack
    dsimp only
    split
    . rfl
    . next hsame =>
      rw [not_or, not_not] at hsame
      exact hsame.2
  cases hstarts with
  | inl hempty =>
    rw [hhead, htail] at hempty
    split at hempty
    . omega
    . omega
  | inr hne => exact hne hepoch

theorem LimboGroup.room_pushBack (h : group.head ≤ group.tail)
    (hroom : group.tail + 2 ≤ limboCapacity) (retired : RetiredObject Object)
    : (group.pushBack retired).room retired.epoch + 1 = group.room retired.epoch := by
  unfold room
  rw [if_neg (not_startsEpoch_pushBack h retired), tail_pushBack,
    if_neg (by omega : ¬limboCapacity < group.tail + 2)]
  by_cases hstarts : group.StartsEpoch retired.epoch
  . rw [if_pos hstarts, if_pos hstarts]
    split
    . omega
    . omega
  . rw [if_neg hstarts, if_neg hstarts]
    split
    . omega
    . omega

theorem GcQueue.needsGroup_iff (epoch : UInt64) : q.NeedsGroup ↔ q.linkedRoom epoch = 0 := by
  have hcapacity : 0 < limboCapacity - 2 := by decide
  unfold NeedsGroup linkedRoom
  rw [Nat.add_eq_zero_iff, LimboGroup.room_eq_zero_iff, Nat.mul_eq_zero, length_eq_zero_iff]
  simp [Nat.ne_of_gt hcapacity]

theorem GcQueue.linkedRoom_pushBack (h : q.WF) (retired : RetiredObject Object)
    (hroom : ¬q.NeedsGroup) (fromManager : Option (FreshLimboGroup Object))
    : (q.pushBack retired fromManager).linkedRoom retired.epoch + 1 = q.linkedRoom retired.epoch := by
  unfold pushBack
  by_cases hfull : limboCapacity < q.tail.tail + 2
  . rw [if_pos hfull]
    cases hspare : q.spare with
    | nil => exact absurd ⟨hfull, hspare⟩ hroom
    | cons next spare =>
      have hnext : next.Fresh := h.spare next (by rw [hspare]; exact mem_cons_self)
      have hpush := LimboGroup.room_pushBack hnext.wf.head_le (by rw [hnext.right]; decide) retired
      rw [hnext.room] at hpush
      have hzero : q.tail.room retired.epoch = 0 := LimboGroup.room_eq_zero_iff.mpr hfull
      unfold refillLimboGroup linkedRoom
      simp only [hspare, hzero, length_cons, Nat.mul_add]
      omega
  . rw [if_neg hfull]
    have hpush := LimboGroup.room_pushBack h.tail.head_le (by omega) retired
    unfold linkedRoom
    dsimp only
    omega

theorem GcQueue.pushesInPlace_iff (pushed : List (RetiredObject Object))
    : ∀ (fromManager : Nat → Option (FreshLimboGroup Object)) (q : GcQueue Object), q.WF →
        (∀ retired ∈ pushed, retired.epoch = epoch) →
          (PushesInPlace fromManager q pushed ↔ pushed.length ≤ q.linkedRoom epoch) := by
  induction pushed with
  | nil =>
    intro fromManager q _ _
    simp [PushesInPlace]
  | cons retired rest ih =>
    intro fromManager q h hepoch
    have hfirst := hepoch retired mem_cons_self
    have hrest : ∀ other ∈ rest, other.epoch = epoch := fun other hother =>
      hepoch other (mem_cons_of_mem _ hother)
    have hneeds := needsGroup_iff (q := q) epoch
    unfold PushesInPlace
    by_cases hroom : q.NeedsGroup
    . have hzero := hneeds.mp hroom
      rw [hzero, length_cons]
      apply iff_of_false
      . intro hpushes
        exact hpushes.1 hroom
      . omega
    . have hpush := linkedRoom_pushBack h retired hroom (fromManager 0)
      rw [hfirst] at hpush
      rw [ih _ _ (pushBack_spec q h retired (fromManager 0)).left hrest, length_cons]
      simp only [hroom, not_false_eq_true, true_and]
      omega

end Pushes

section Reservation

def GcQueue.missingGroups (q : GcQueue Object) (total : Nat) : Nat :=
  ceilDiv (total + 2 - q.getFreeAllocations.toNat) limboCapacity

-- A generic queue reserves twice the slots.
def GcQueue.Suffices (q : GcQueue Object) (n : UInt32) (epoch : UInt64) : Prop :=
  q.isGeneric = true ∨ n.toNat ≤ q.linkedRoom epoch + (limboCapacity - 2) * q.missingGroups n.toNat

instance {q : GcQueue Object} {n : UInt32} {epoch : UInt64} : Decidable (q.Suffices n epoch) :=
  inferInstanceAs (Decidable (_ ∨ _))

theorem limboCapacity_eq : limboCapacity = 113 := by
  decide

theorem le_ceilDiv_mul (n : Nat) : n ≤ ceilDiv n limboCapacity * limboCapacity := by
  unfold ceilDiv
  rw [limboCapacity_eq]
  omega

theorem ceilDiv_lt {n : Nat} (h : n < 2 ^ 34) : ceilDiv n limboCapacity < 2 ^ 32 := by
  unfold ceilDiv
  rw [limboCapacity_eq]
  omega

theorem ceilDiv_zero : ceilDiv 0 limboCapacity = 0 := by
  decide

namespace GcQueue

theorem allocLimboGroups_go_frame (fromReserved : Bool) (limboGroups : Nat)
    : ∀ (q : GcQueue Object) (groups : List (LimboGroup Object)),
      (allocLimboGroups.go fromReserved limboGroups q groups).1.tail = q.tail
        ∧ (allocLimboGroups.go fromReserved limboGroups q groups).1.spare = q.spare
        ∧ (allocLimboGroups.go fromReserved limboGroups q groups).2.length = limboGroups + groups.length := by
  induction limboGroups with
  | zero =>
    intro q groups
    simp [allocLimboGroups.go]
  | succ limboGroups ih =>
    intro q groups
    unfold allocLimboGroups.go
    split
    . next group reservedManager _ =>
      obtain ⟨htail, hspare, hlength⟩ := ih { q with reservedManager } (group :: groups)
      refine ⟨htail, hspare, ?_⟩
      rw [hlength, length_cons]
      omega
    . next reservedManager _ =>
      obtain ⟨htail, hspare, hlength⟩ := ih
        { q with reservedManager, limboGroupAllocations := q.limboGroupAllocations + 1 }
          (LimboGroup.new :: groups)
      refine ⟨htail, hspare, ?_⟩
      rw [hlength, length_cons]
      omega

theorem linkedRoom_allocLimboGroups (q : GcQueue Object) (limboGroups : Nat) (total : UInt32)
    (epoch : UInt64)
    : (q.allocLimboGroups limboGroups total false).linkedRoom epoch
        =
      q.linkedRoom epoch + (limboCapacity - 2) * limboGroups := by
  have ⟨htail, hspare, hlength⟩ := allocLimboGroups_go_frame (q.isGeneric && !false) limboGroups q []
  unfold allocLimboGroups linkedRoom
  simp only [Bool.false_eq_true, if_false, htail, hspare, length_append, hlength, length_nil]
  rw [Nat.mul_add, Nat.mul_add]
  omega

theorem linkedRoom_reserveGCMemory (q : GcQueue Object) (n : UInt32) (epoch : UInt64)
    : (q.reserveGCMemory n false).linkedRoom epoch
        =
      q.linkedRoom epoch + (limboCapacity - 2)
        * q.missingGroups (if q.isGeneric then n.toNat * masstreeReserve else n.toNat) := by
  have htotal : (if q.isGeneric then n.toNat * masstreeReserve else n.toNat) < 2 ^ 33 := by
    have := n.toNat_lt
    unfold masstreeReserve
    split
    . omega
    . omega
  unfold reserveGCMemory
  dsimp only
  generalize (if q.isGeneric = true then n.toNat * masstreeReserve else n.toNat) = total at htotal
  have hgroups : (if q.getFreeAllocations.toNat < total + 2 then
        ceilDiv (total + 2 - q.getFreeAllocations.toNat) limboCapacity % 2 ^ 32
      else
        0) = q.missingGroups total := by
    unfold missingGroups
    split
    . apply Nat.mod_eq_of_lt
      apply ceilDiv_lt
      omega
    . next hfree =>
      rw [Nat.sub_eq_zero_of_le (by omega), ceilDiv_zero]
  simp only [Bool.false_eq_true, if_false, hgroups]
  split
  . next hzero => rw [hzero, Nat.mul_zero, Nat.add_zero]
  . apply linkedRoom_allocLimboGroups

theorem getFreeAllocations_le (q : GcQueue Object)
    : q.getFreeAllocations.toNat ≤ limboCapacity - q.tail.tail + limboCapacity * q.spare.length := by
  unfold getFreeAllocations
  rw [UInt32.toNat_add, UInt32.toNat_ofNat', UInt32.toNat_ofNat']
  omega

theorem le_linkedRoom_of_generic (q : GcQueue Object) (n : Nat) (epoch : UInt64)
    : n ≤ q.linkedRoom epoch + (limboCapacity - 2) * q.missingGroups (n * masstreeReserve) := by
  have hfree := q.getFreeAllocations_le
  have hceil := le_ceilDiv_mul (n * masstreeReserve + 2 - q.getFreeAllocations.toNat)
  have hroom : limboCapacity - 2 - q.tail.tail ≤ q.tail.room epoch := by
    unfold LimboGroup.room
    split
    . omega
    . split
      . omega
      . omega
  unfold linkedRoom missingGroups
  rw [limboCapacity_eq] at *
  unfold masstreeReserve at *
  omega

theorem wf_reserveGCMemory (h : q.WF) (n : UInt32) : (q.reserveGCMemory n false).WF :=
  (q.reserveGCMemory_spec h n false).wf

theorem reserved_pushesInPlace_iff (h : q.WF) {n : UInt32}
    {pushed : List (RetiredObject Object)} (hlength : pushed.length = n.toNat)
    (hepoch : ∀ retired ∈ pushed, retired.epoch = epoch)
    (fromManager : Nat → Option (FreshLimboGroup Object))
    : PushesInPlace fromManager (q.reserveGCMemory n false) pushed ↔ q.Suffices n epoch := by
  rw [pushesInPlace_iff pushed fromManager _ (wf_reserveGCMemory h n) hepoch, hlength,
    linkedRoom_reserveGCMemory]
  unfold Suffices
  cases hgeneric : q.isGeneric with
  | false => simp
  | true =>
    simp only [if_true, true_or, iff_true]
    apply le_linkedRoom_of_generic

end GcQueue

end Reservation

section Pool

inductive PoolCall (Object : Type) where
  | reserve (list : List (LimboGroup Object)) (count : UInt32)
  | alloc

namespace GcReservedMemoryPool

def empty : GcReservedMemoryPool Object where
  groupAllocations := 0
  registeredElements := 0
  limboReservedMemory := []

def exec (pool : GcReservedMemoryPool Object) : PoolCall Object → GcReservedMemoryPool Object
  | .reserve list count => pool.reserveGCMemory list count
  | .alloc => pool.allocLimboGroup.2

def run (calls : List (PoolCall Object)) : GcReservedMemoryPool Object :=
  calls.foldl exec empty

-- The free slots are not a difference that has wrapped.
structure Counted (pool : GcReservedMemoryPool Object) : Prop where
  groups : pool.groupAllocations.toNat = pool.limboReservedMemory.length
  free : (pool.getFreeAllocations.toNat : Int)
    = limboCapacity * pool.groupAllocations.toNat - pool.registeredElements.toNat

-- A call hands over the groups that it counts, and the counters have room for them.
structure Fits (pool : GcReservedMemoryPool Object) (list : List (LimboGroup Object)) (count : UInt32)
    : Prop where
  groups : list.length = ceilDiv count.toNat limboCapacity
  elements : pool.registeredElements.toNat + count.toNat < 2 ^ 32
  free : limboCapacity * (pool.limboReservedMemory.length + list.length)
    < 2 ^ 32 + pool.registeredElements.toNat + count.toNat

def CallFits (pool : GcReservedMemoryPool Object) : PoolCall Object → Prop
  | .reserve list count => pool.Fits list count
  | .alloc => True

theorem counted_iff : pool.Counted
      ↔
    pool.groupAllocations.toNat = pool.limboReservedMemory.length
      ∧ pool.registeredElements.toNat ≤ limboCapacity * pool.limboReservedMemory.length
      ∧ limboCapacity * pool.limboReservedMemory.length < 2 ^ 32 + pool.registeredElements.toNat := by
  have hregistered := pool.registeredElements.toNat_lt
  have hfree : pool.getFreeAllocations.toNat
      = (2 ^ 32 - pool.registeredElements.toNat + pool.groupAllocations.toNat * 113 % 2 ^ 32) % 2 ^ 32 := by
    unfold getFreeAllocations
    rw [UInt32.toNat_sub, UInt32.toNat_mul, UInt32.toNat_ofNat', limboCapacity_eq]
  apply Iff.intro
  . intro h
    have hgroups := h.groups
    have hcounted := h.free
    rw [limboCapacity_eq] at hcounted ⊢
    omega
  . intro ⟨hgroups, hle, hlt⟩
    apply Counted.mk hgroups
    rw [limboCapacity_eq] at *
    omega

theorem counted_empty : (empty : GcReservedMemoryPool Object).Counted := by
  rw [counted_iff]
  simp [empty]

theorem reserve_counted_iff (h : pool.Counted) (list : List (LimboGroup Object)) (count : UInt32)
    : (pool.reserveGCMemory list count).Counted ↔ pool.Fits list count := by
  have ⟨hgroups, hle, hlt⟩ := counted_iff.mp h
  have hcount := count.toNat_lt
  have hregistered := pool.registeredElements.toNat_lt
  have hceil := le_ceilDiv_mul count.toNat
  have hceil' : ceilDiv count.toNat limboCapacity < 2 ^ 27 := by
    unfold ceilDiv
    rw [limboCapacity_eq]
    omega
  have helements : (pool.reserveGCMemory list count).registeredElements.toNat
      = (pool.registeredElements.toNat + count.toNat) % 2 ^ 32 := UInt32.toNat_add _ _
  have hallocations : (pool.reserveGCMemory list count).groupAllocations.toNat
      = (pool.groupAllocations.toNat + ceilDiv count.toNat limboCapacity) % 2 ^ 32 := by
    unfold reserveGCMemory
    rw [UInt32.toNat_add, UInt32.toNat_ofNat', Nat.add_mod_mod]
  have hlength : (pool.reserveGCMemory list count).limboReservedMemory.length
      = pool.limboReservedMemory.length + list.length := by
    unfold reserveGCMemory
    rw [length_append, length_map]
  rw [counted_iff, helements, hallocations, hlength]
  generalize hgen : ceilDiv count.toNat limboCapacity = groups at hceil hceil'
  rw [limboCapacity_eq] at *
  apply Iff.intro
  . intro hcounted
    apply Fits.mk
    . rw [limboCapacity_eq, hgen]
      omega
    . omega
    . rw [limboCapacity_eq]
      omega
  . intro hfits
    have hlist := hfits.groups
    have helements := hfits.elements
    have hfree := hfits.free
    rw [limboCapacity_eq] at hlist hfree
    rw [hgen] at hlist
    omega

theorem alloc_counted (h : pool.Counted) : pool.allocLimboGroup.2.Counted := by
  have ⟨hgroups, hle, hlt⟩ := counted_iff.mp h
  unfold allocLimboGroup
  split
  . exact h
  . next group rest hlist =>
    rw [hlist, length_cons] at hgroups hle hlt
    have hallocations : (pool.groupAllocations - 1).toNat = rest.length := by
      rw [UInt32.toNat_sub_of_le]
      . rw [hgroups]
        rfl
      . rw [UInt32.le_iff_toNat_le, hgroups]
        exact Nat.le_add_left 1 _
    rw [counted_iff]
    dsimp only
    rw [limboCapacity_eq] at *
    refine ⟨hallocations, ?_⟩
    split
    . next hmore =>
      rw [UInt32.lt_iff_toNat_lt] at hmore
      rw [UInt32.toNat_sub_of_le _ _ (UInt32.le_iff_toNat_le.mpr (by omega))]
      have : (UInt32.ofNat 113).toNat = 113 := rfl
      omega
    . next hfew =>
      rw [UInt32.lt_iff_toNat_lt] at hfew
      have : (UInt32.ofNat 113).toNat = 113 := rfl
      have : (0 : UInt32).toNat = 0 := rfl
      omega

def CallsFit : GcReservedMemoryPool Object → List (PoolCall Object) → Prop
  | _, [] => True
  | pool, call :: calls => pool.CallFits call ∧ CallsFit (pool.exec call) calls

theorem exec_counted_iff (h : pool.Counted) (call : PoolCall Object)
    : (pool.exec call).Counted ↔ pool.CallFits call := by
  cases call with
  | reserve list count => exact reserve_counted_iff h list count
  | alloc => exact iff_of_true (alloc_counted h) trivial

theorem foldl_counted_iff (calls : List (PoolCall Object))
    : ∀ pool : GcReservedMemoryPool Object, pool.Counted →
        ((∀ before, before <+: calls → (before.foldl exec pool).Counted) ↔ pool.CallsFit calls) := by
  induction calls with
  | nil =>
    intro pool h
    apply iff_of_true
    . intro before hbefore
      rw [prefix_nil.mp hbefore]
      exact h
    . trivial
  | cons call calls ih =>
    intro pool h
    have hexec := exec_counted_iff h call
    apply Iff.intro
    . intro hall
      have hcounted : (pool.exec call).Counted := hall [call] (prefix_append [call] calls)
      refine ⟨hexec.mp hcounted, (ih _ hcounted).mp ?_⟩
      intro before hbefore
      exact hall (call :: before) ((prefix_cons_inj call).mpr hbefore)
    . intro hfit before hbefore
      have hcounted := hexec.mpr hfit.1
      cases before with
      | nil => exact h
      | cons first before =>
        have hfirst := cons_prefix_cons.mp hbefore
        rw [hfirst.1]
        exact (ih _ hcounted).mpr hfit.2 before hfirst.2

end GcReservedMemoryPool

end Pool

theorem gcReservations_iff {q : GcQueue Object} (hq : q.WF) {n : UInt32} {epoch : UInt64}
    {pushed : List (RetiredObject Object)} (hlength : pushed.length = n.toNat)
    (hepoch : ∀ retired ∈ pushed, retired.epoch = epoch)
    (fromManager : Nat → Option (FreshLimboGroup Object)) (calls : List (PoolCall Object))
    : (GcQueue.PushesInPlace fromManager (q.reserveGCMemory n false) pushed ↔ q.Suffices n epoch)
        ∧ ((∀ before, before <+: calls → (GcReservedMemoryPool.run before).Counted)
          ↔
        GcReservedMemoryPool.empty.CallsFit calls) :=
  ⟨GcQueue.reserved_pushesInPlace_iff hq hlength hepoch fromManager,
    GcReservedMemoryPool.foldl_counted_iff calls _ GcReservedMemoryPool.counted_empty⟩

section Shortfall

def smallObject : RetiredObject Unit where
  object := ()
  indexId := 0
  dtor := fun _ _ => (0, [])
  epoch := 7

theorem gcReservations_iff_smallObject
    : GcQueue.PushesInPlace (fun _ => none) ((GcQueue.new false).reserveGCMemory 2 false)
        (List.replicate 2 smallObject) := by
  have hepoch : ∀ retired ∈ List.replicate 2 smallObject, retired.epoch = 7 := by
    intro retired hretired
    rw [List.eq_of_mem_replicate hretired]
    rfl
  apply (gcReservations_iff (GcQueue.wf_new false) rfl hepoch (fun _ => none) []).1.mpr
  exact Or.inr (by decide)

theorem gcReservations_fall_short
    : ¬GcQueue.PushesInPlace (fun _ => none) ((GcQueue.new false).reserveGCMemory 224 false)
          (List.replicate 224 smallObject)
        ∧ ¬(((GcQueue.new false : GcQueue Unit).reserveGCMemory 10 true).reserveGCMemory 10
          true).reservedManager.Counted
      := by
  apply And.intro
  . have hlength : (List.replicate 224 smallObject).length = (224 : UInt32).toNat := by
      rw [List.length_replicate]
      rfl
    have hepoch : ∀ retired ∈ List.replicate 224 smallObject, retired.epoch = 7 := by
      intro retired hretired
      rw [List.eq_of_mem_replicate hretired]
      rfl
    rw [GcQueue.reserved_pushesInPlace_iff (GcQueue.wf_new false) hlength hepoch]
    decide
  . intro hcounted
    exact absurd hcounted.groups (by decide)

end Shortfall

end Mot

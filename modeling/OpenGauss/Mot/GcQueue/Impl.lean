import Mathlib.Data.List.Basic
import Mathlib.Algebra.Group.Int.Defs
import Mathlib.Order.Lattice
import Mathlib.Algebra.GroupWithZero.Nat

/-!
This module contains the garbage collection queue of a session: the limbo groups that keep the retired
objects and the operations of the queue, from `mm_gc_queue.h` and `mm_gc_queue.cpp`.
-/

namespace Mot

-- A sentinel that a destructor leaves to the delete vector, with the id of its index.
structure DeletedSentinel (Object : Type) where
  sentinel : Object
  indexId : UInt32

inductive GcOperationType where
  | operLocal
  | operDropIndex
  | operTruncate
  | alterTable
  deriving DecidableEq

abbrev DestroyValueCb (Object : Type) :=
  Object → GcOperationType → UInt32 × List (DeletedSentinel Object)

-- `objectPtr = none` marks an epoch, `cb = none` is `NullDtor`.
structure LimboElement (Object : Type) where
  objectPtr : Option Object
  cb : Option (DestroyValueCb Object)
  csn : UInt64
  indexId : UInt32

def limboCapacity : Nat := (4096 - (8 + 8 + 2 * 4)) / 36

structure LimboGroup (Object : Type) where
  epoch : UInt64
  head : Nat
  tail : Nat
  elements : Nat → LimboElement Object

-- `SignedEpochType(epochBound - csn) < 0`
def epochBelow (epochBound csn : UInt64) : Bool :=
  2 ^ 63 ≤ (epochBound - csn).toNat

structure RetiredObject (Object : Type) where
  object : Object
  indexId : UInt32
  dtor : DestroyValueCb Object
  epoch : UInt64

structure Cleaned (Object : Type) where
  destroyed : List (RetiredObject Object)
  deleted : List (DeletedSentinel Object)

variable {Object : Type}

namespace LimboElement

def toObject (elem : LimboElement Object) : Option (RetiredObject Object) :=
  match elem.objectPtr, elem.cb with
  | some object, some dtor => some { object, indexId := elem.indexId, dtor, epoch := elem.csn }
  | _, _ => none

end LimboElement

namespace LimboGroup

def new : LimboGroup Object where
  epoch := 0
  head := 0
  tail := 0
  elements := fun _ => { objectPtr := none, cb := none, csn := 0, indexId := 0 }

def reset (group : LimboGroup Object) : LimboGroup Object :=
  { group with head := 0, tail := 0 }

def set (group : LimboGroup Object) (i : Nat) (elem : LimboElement Object) : LimboGroup Object :=
  { group with elements := fun j => if j = i then elem else group.elements j }

def pushBack (group : LimboGroup Object) (retired : RetiredObject Object) : LimboGroup Object :=
  let group :=
    if group.head = group.tail ∨ group.epoch ≠ retired.epoch then
      let marked := group.set group.tail
        { group.elements group.tail with objectPtr := none, csn := retired.epoch }
      { marked with epoch := retired.epoch, tail := group.tail + 1 }
    else
      group
  { group.set group.tail
      { objectPtr := some retired.object
        cb := some retired.dtor
        csn := retired.epoch
        indexId := retired.indexId } with
    tail := group.tail + 1 }

def cleanUntil.go (epochBound : UInt64)
    : Nat → LimboGroup Object → UInt64 → Nat → Cleaned Object → LimboGroup Object × Nat × Cleaned Object
  | 0, group, _, count, cleaned => (group, count, cleaned)
  | fuel + 1, group, csn, count, cleaned =>
    let elem := group.elements group.head
    match elem.objectPtr with
    | some object =>
      match elem.cb with
      | some dtor =>
        let cleaned :=
          { destroyed := cleaned.destroyed ++
              [{ object, indexId := elem.indexId, dtor, epoch := elem.csn }]
            deleted := cleaned.deleted ++ (dtor object .operLocal).2 }
        let group := group.set group.head { elem with cb := none }
        if count - 1 = 0 then
          (group.set group.head { elem with cb := none, objectPtr := none, csn }, count - 1, cleaned)
        else
          go epochBound fuel { group with head := group.head + 1 } csn (count - 1) cleaned
      | none => go epochBound fuel { group with head := group.head + 1 } csn count cleaned
    | none =>
      if epochBelow epochBound elem.csn then
        (group, count, cleaned)
      else
        go epochBound fuel { group with head := group.head + 1 } elem.csn count cleaned

def cleanUntil (group : LimboGroup Object) (epochBound : UInt64) (count : Nat)
    : LimboGroup Object × Nat × Cleaned Object :=
  let (group, count, cleaned) :=
    cleanUntil.go epochBound (group.tail - group.head) group 0 count { destroyed := [], deleted := [] }
  (if group.head = group.tail then group.reset else group, count, cleaned)

def firstEpoch (group : LimboGroup Object) : UInt64 :=
  (group.elements group.head).csn

def cleanIndexItemPerGroup.go (indexId : UInt32) (oper : GcOperationType)
    : Nat → LimboGroup Object → Nat → Cleaned Object → LimboGroup Object × Cleaned Object
  | 0, group, _, cleaned => (group, cleaned)
  | fuel + 1, group, gHead, cleaned =>
    let elem := group.elements gHead
    match elem.objectPtr, elem.cb with
    | some object, some dtor =>
      if elem.indexId = indexId then
        go indexId oper fuel (group.set gHead { elem with cb := none }) (gHead + 1)
          { destroyed := cleaned.destroyed ++
              [{ object, indexId := elem.indexId, dtor, epoch := elem.csn }]
            deleted := cleaned.deleted ++ (dtor object oper).2 }
      else
        go indexId oper fuel group (gHead + 1) cleaned
    | _, _ => go indexId oper fuel group (gHead + 1) cleaned

def cleanIndexItemPerGroup (group : LimboGroup Object) (indexId : UInt32) (oper : GcOperationType)
    : LimboGroup Object × Cleaned Object :=
  cleanIndexItemPerGroup.go indexId oper (group.tail - group.head) group group.head
    { destroyed := [], deleted := [] }

end LimboGroup

structure GcReservedMemoryPool (Object : Type) where
  groupAllocations : UInt32
  registeredElements : UInt32
  limboReservedMemory : List (LimboGroup Object)

namespace GcReservedMemoryPool

def ceilDiv (n d : Nat) : Nat := (n + d - 1) / d

def reserveGCMemory (pool : GcReservedMemoryPool Object) (list : List (LimboGroup Object))
    (count : UInt32) : GcReservedMemoryPool Object where
  limboReservedMemory := pool.limboReservedMemory ++ list.map LimboGroup.reset
  registeredElements := pool.registeredElements + count
  groupAllocations := pool.groupAllocations + UInt32.ofNat (ceilDiv count.toNat limboCapacity)

def getFreeAllocations (pool : GcReservedMemoryPool Object) : UInt32 :=
  pool.groupAllocations * UInt32.ofNat limboCapacity - pool.registeredElements

def allocLimboGroup (pool : GcReservedMemoryPool Object)
    : Option (LimboGroup Object) × GcReservedMemoryPool Object :=
  match pool.limboReservedMemory with
  | [] => (none, pool)
  | group :: rest =>
    (some group,
      { limboReservedMemory := rest
        groupAllocations := pool.groupAllocations - 1
        registeredElements :=
          if UInt32.ofNat limboCapacity < pool.registeredElements then
            pool.registeredElements - UInt32.ofNat limboCapacity
          else
            0 })

end GcReservedMemoryPool

abbrev FreshLimboGroup (Object : Type) :=
  { group : LimboGroup Object // group.head = 0 ∧ group.tail = 0 }

/--
`front` and `tail` are the groups from `m_limboHead` to `m_limboTail` along their links, `spare` the
groups linked behind the tail.
-/
structure GcQueue (Object : Type) where
  isGeneric : Bool
  front : List (LimboGroup Object)
  tail : LimboGroup Object
  spare : List (LimboGroup Object)
  reservedManager : GcReservedMemoryPool Object
  deleteVector : List (DeletedSentinel Object)
  totalLimboInuseElements : Nat
  limboGroupAllocations : UInt32

namespace GcQueue

def limboGroupShrinkThreshold : Nat := 10
def masstreeReserve : Nat := 2

def new (isGeneric : Bool) : GcQueue Object where
  isGeneric
  front := []
  tail := LimboGroup.new
  spare := []
  reservedManager := { groupAllocations := 0, registeredElements := 0, limboReservedMemory := [] }
  deleteVector := []
  totalLimboInuseElements := 0
  limboGroupAllocations := 1

def limboHead (q : GcQueue Object) : LimboGroup Object :=
  q.front.headD q.tail

def refillLimboGroup (q : GcQueue Object) (fromManager : Option (FreshLimboGroup Object))
    : GcQueue Object :=
  match q.spare with
  | next :: spare => { q with front := q.front ++ [q.tail], tail := next, spare }
  | [] =>
    match fromManager with
    | some group =>
      { q with
        front := q.front ++ [q.tail]
        tail := group.val
        limboGroupAllocations := q.limboGroupAllocations + 1 }
    | none =>
      match q.reservedManager.allocLimboGroup with
      | (some group, reservedManager) =>
        { q with front := q.front ++ [q.tail], tail := group, reservedManager }
      | (none, reservedManager) =>
        { q with
          front := q.front ++ [q.tail]
          tail := LimboGroup.new
          reservedManager
          limboGroupAllocations := q.limboGroupAllocations + 1 }

def pushBack (q : GcQueue Object) (retired : RetiredObject Object)
    (fromManager : Option (FreshLimboGroup Object)) : GcQueue Object :=
  let q := if limboCapacity < q.tail.tail + 2 then q.refillLimboGroup fromManager else q
  { q with
    tail := q.tail.pushBack retired
    totalLimboInuseElements := q.totalLimboInuseElements + 1 }

structure QuiesceResult (Object : Type) where
  empties : List (LimboGroup Object)
  live : List (LimboGroup Object)
  count : Nat
  cleaned : Cleaned Object

def hardQuiesce.go (epochBound : UInt64)
    : List (LimboGroup Object) → List (LimboGroup Object) → Nat → Cleaned Object → QuiesceResult Object
  | [], empties, count, cleaned => { empties, live := [], count, cleaned }
  | group :: rest, empties, count, cleaned =>
    if count = 0 then
      { empties, live := group :: rest, count, cleaned }
    else
      let (group, count, more) := group.cleanUntil epochBound count
      let cleaned :=
        { destroyed := cleaned.destroyed ++ more.destroyed, deleted := cleaned.deleted ++ more.deleted }
      if group.head ≠ group.tail then
        { empties, live := group :: rest, count, cleaned }
      else
        go epochBound rest (empties ++ [group]) count cleaned

def hardQuiesce (q : GcQueue Object) (numOfElementsToClean : Nat) (performGcEpoch : UInt64)
    : GcQueue Object × List (RetiredObject Object) :=
  let epochBound := performGcEpoch - 1
  if q.limboHead.head = q.limboHead.tail ∨ epochBelow epochBound q.limboHead.firstEpoch then
    (q, [])
  else
    let result :=
      hardQuiesce.go epochBound (q.front ++ [q.tail]) [] numOfElementsToClean
        { destroyed := [], deleted := [] }
    let q :=
      { q with
        totalLimboInuseElements := q.totalLimboInuseElements - (numOfElementsToClean - result.count)
        deleteVector := q.deleteVector ++ result.cleaned.deleted }
    match result.live.reverse with
    | tail :: front =>
      -- hook empties after the tail
      ({ q with front := front.reverse, tail, spare := result.empties ++ q.spare },
        result.cleaned.destroyed)
    | [] =>
      match result.empties with
      | head :: empties => ({ q with front := [], tail := head, spare := empties ++ q.spare },
          result.cleaned.destroyed)
      | [] => (q, result.cleaned.destroyed)

def retiredSentinel (sentinelDtor : DestroyValueCb Object) (globalEpoch : UInt64)
    (deleted : DeletedSentinel Object) : RetiredObject Object where
  object := deleted.sentinel
  indexId := deleted.indexId
  dtor := sentinelDtor
  epoch := globalEpoch

def pushBackAll (fromManager : Nat → Option (FreshLimboGroup Object)) (q : GcQueue Object)
    (pushed : List (RetiredObject Object)) : GcQueue Object :=
  pushed.zipIdx.foldl (fun q (retired, i) => q.pushBack retired (fromManager i)) q

def registerDeletedSentinels (q : GcQueue Object) (sentinelDtor : DestroyValueCb Object)
    (globalEpoch : UInt64) (fromManager : Nat → Option (FreshLimboGroup Object))
    : GcQueue Object × List (RetiredObject Object) :=
  let pushed := if q.isGeneric then q.deleteVector.map (retiredSentinel sentinelDtor globalEpoch) else []
  ({ pushBackAll fromManager q pushed with deleteVector := [] }, pushed)

def cleanGroups (indexId : UInt32) (oper : GcOperationType)
    : List (LimboGroup Object) → List (LimboGroup Object) × Cleaned Object
  | [] => ([], { destroyed := [], deleted := [] })
  | group :: rest =>
    let (group, cleaned) := group.cleanIndexItemPerGroup indexId oper
    let (rest, more) := cleanGroups indexId oper rest
    (group :: rest,
      { destroyed := cleaned.destroyed ++ more.destroyed, deleted := cleaned.deleted ++ more.deleted })

def sizeByCleanIndex (oper : GcOperationType) (destroyed : List (RetiredObject Object)) : Nat :=
  (destroyed.map (fun retired => (retired.dtor retired.object oper).1.toNat)).sum

def cleanIndexItems (q : GcQueue Object) (indexId : UInt32) (oper : GcOperationType)
    (sentinelDtor : DestroyValueCb Object) (globalEpoch : UInt64)
    (fromManager : Nat → Option (FreshLimboGroup Object))
    : GcQueue Object × List (RetiredObject Object) × List (RetiredObject Object) :=
  let (front, cleanedFront) := cleanGroups indexId oper q.front
  let (tail, cleanedTail) := q.tail.cleanIndexItemPerGroup indexId oper
  let (spare, cleanedSpare) := cleanGroups indexId oper q.spare
  let destroyed := cleanedFront.destroyed ++ cleanedTail.destroyed ++ cleanedSpare.destroyed
  let counter := UInt32.ofNat destroyed.length
  let q :=
    { q with
      front
      tail
      spare
      deleteVector :=
        q.deleteVector ++ cleanedFront.deleted ++ cleanedTail.deleted ++ cleanedSpare.deleted }
  let (q, pushed) :=
    if oper ≠ .operDropIndex then
      q.registerDeletedSentinels sentinelDtor globalEpoch fromManager
    else
      (q, [])
  if sizeByCleanIndex oper destroyed ≠ 0 then
    ({ q with totalLimboInuseElements := q.totalLimboInuseElements - counter.toNat }, destroyed, pushed)
  else
    (q, destroyed, pushed)

def getFreeAllocations (q : GcQueue Object) : UInt32 :=
  UInt32.ofNat (limboCapacity - q.tail.tail) + UInt32.ofNat (limboCapacity * q.spare.length)

-- The groups of a reservation, the last one allocated first.
def allocLimboGroups.go (fromReserved : Bool)
    : Nat → GcQueue Object → List (LimboGroup Object) → GcQueue Object × List (LimboGroup Object)
  | 0, q, groups => (q, groups)
  | limboGroups + 1, q, groups =>
    match (if fromReserved then q.reservedManager.allocLimboGroup else (none, q.reservedManager)) with
    | (some group, reservedManager) => go fromReserved limboGroups { q with reservedManager }
      (group :: groups)
    | (none, reservedManager) =>
      go fromReserved limboGroups
        { q with reservedManager, limboGroupAllocations := q.limboGroupAllocations + 1 }
        (LimboGroup.new :: groups)

def allocLimboGroups (q : GcQueue Object) (limboGroups : Nat) (totalElements : UInt32)
    (reserveGroups : Bool) : GcQueue Object :=
  let (q, groups) := allocLimboGroups.go (q.isGeneric && !reserveGroups) limboGroups q []
  if reserveGroups then
    { q with reservedManager := q.reservedManager.reserveGCMemory groups totalElements }
  else
    { q with spare := groups ++ q.spare }

def reserveGCMemory (q : GcQueue Object) (elements : UInt32) (reserveGroups : Bool) : GcQueue Object :=
  let totalElements := if q.isGeneric then elements.toNat * masstreeReserve else elements.toNat
  if reserveGroups then
    let freeElements := q.reservedManager.getFreeAllocations.toNat
    if totalElements < freeElements then
      { q with reservedManager := q.reservedManager.reserveGCMemory [] (UInt32.ofNat totalElements) }
    else
      let totalElements := totalElements - freeElements
      let limboGroups := GcReservedMemoryPool.ceilDiv totalElements limboCapacity % 2 ^ 32
      if limboGroups = 0 then q
      else q.allocLimboGroups limboGroups (UInt32.ofNat totalElements) reserveGroups
  else
    let freeElements := q.getFreeAllocations.toNat
    let limboGroups :=
      if freeElements < totalElements + 2 then
        GcReservedMemoryPool.ceilDiv (totalElements + 2 - freeElements) limboCapacity % 2 ^ 32
      else
        0
    if limboGroups = 0 then q
    else q.allocLimboGroups limboGroups (UInt32.ofNat totalElements) reserveGroups

-- `deletedElements` is the number of elements in the delete queue of the manager.
def shrinkMem (q : GcQueue Object) (deletedElements : Nat) : GcQueue Object :=
  if limboGroupShrinkThreshold < q.limboGroupAllocations.toNat then
    let q :=
      { q with
        spare := []
        limboGroupAllocations := q.limboGroupAllocations - UInt32.ofNat q.spare.length }
    if q.isGeneric && q.reservedManager.getFreeAllocations ≠ 0
        && q.totalLimboInuseElements = 0 && deletedElements = 0 then
      { q with
        reservedManager := { groupAllocations := 0, registeredElements := 0, limboReservedMemory := [] }
        limboGroupAllocations :=
          q.limboGroupAllocations - UInt32.ofNat q.reservedManager.limboReservedMemory.length }
    else
      q
  else
    q

end GcQueue

def slotObjects (elements : Nat → LimboElement Object) (head n : Nat) : List (RetiredObject Object) :=
  (List.range' head n).filterMap (fun i => (elements i).toObject)

def LimboGroup.objects (group : LimboGroup Object) : List (RetiredObject Object) :=
  slotObjects group.elements group.head (group.tail - group.head)

def GcQueue.objects (q : GcQueue Object) : List (RetiredObject Object) :=
  (q.front ++ [q.tail]).flatMap LimboGroup.objects

structure GcHistory (Object : Type) where
  queue : GcQueue Object
  pushed : List (RetiredObject Object)
  destroyed : List (RetiredObject Object)

inductive GcOp (Object : Type) where
  | pushBack (retired : RetiredObject Object) (fromManager : Option (FreshLimboGroup Object))
  | hardQuiesce (numOfElementsToClean : Nat) (performGcEpoch : UInt64)
  | cleanIndexItems (indexId : UInt32) (oper : GcOperationType) (sentinelDtor : DestroyValueCb Object)
    (globalEpoch : UInt64) (fromManager : Nat → Option (FreshLimboGroup Object))
  | reserveGCMemory (elements : UInt32) (reserveGroups : Bool)
  | shrinkMem (deletedElements : Nat)

def GcHistory.new (isGeneric : Bool) : GcHistory Object where
  queue := GcQueue.new isGeneric
  pushed := []
  destroyed := []

def GcHistory.exec (h : GcHistory Object) : GcOp Object → GcHistory Object
  | .pushBack retired fromManager =>
    { h with queue := h.queue.pushBack retired fromManager, pushed := h.pushed ++ [retired] }
  | .hardQuiesce numOfElementsToClean performGcEpoch =>
    let (queue, destroyed) := h.queue.hardQuiesce numOfElementsToClean performGcEpoch
    { h with queue, destroyed := h.destroyed ++ destroyed }
  | .cleanIndexItems indexId oper sentinelDtor globalEpoch fromManager =>
    let (queue, destroyed, pushed) :=
      h.queue.cleanIndexItems indexId oper sentinelDtor globalEpoch fromManager
    { queue, pushed := h.pushed ++ pushed, destroyed := h.destroyed ++ destroyed }
  | .reserveGCMemory elements reserveGroups =>
    { h with queue := h.queue.reserveGCMemory elements reserveGroups }
  | .shrinkMem deletedElements => { h with queue := h.queue.shrinkMem deletedElements }

end Mot

import Mathlib.Order.Lattice

/-!
This module contains the partition maps of a partitioned table, the routing of key values to
partitions (`partrouting.cpp`) and the check whether a tuple belongs to a partition
(`partitionlocate.cpp`).

The key columns share one type of values, whose comparison is a linear order. A `Const *` that may
be a null pointer is an `Option`.
-/

namespace Partition

inductive Const (V : Type) where
  | maxValue
  | null
  | value (v : V)
  deriving DecidableEq

inductive PartitionError where
  | nullPointers
  | nullValues
  | noListPartition
  | noHashPartition
  | columnRangesOverrun
  deriving DecidableEq, Repr

variable {V : Type} [LinearOrder V]

-- `partitonKeyCompare` and `partitionKeyCompareForRouting` differ in two answers about null values.
def keyCompare (nullsMinimal nullEqual : Bool)
    : List (Option (Const V)) → List (Option (Const V)) → Except PartitionError Ordering
  | kv :: kvs, bv :: bvs =>
    match kv, bv with
    | none, none => .error .nullPointers
    | none, some _ => .ok .lt
    | some _, none => .ok .gt
    | some .maxValue, some .maxValue => keyCompare nullsMinimal nullEqual kvs bvs
    | some .maxValue, some _ => .ok .gt
    | some _, some .maxValue => .ok .lt
    | some .null, some .null =>
      if nullEqual then keyCompare nullsMinimal nullEqual kvs bvs else .error .nullValues
    | some .null, some _ => .ok (if nullsMinimal then .lt else .gt)
    | some _, some .null => .ok (if nullsMinimal then .gt else .lt)
    | some (.value k), some (.value b) =>
      match compare k b with
      | .eq => keyCompare nullsMinimal nullEqual kvs bvs
      | compare => .ok compare
  | _, _ => .ok .eq

def partitonKeyCompare (value1 value2 : List (Option (Const V))) (nullEqual : Bool)
    : Except PartitionError Ordering :=
  keyCompare false nullEqual value1 value2

-- `nullsMinimal` is the answer of `CheckPluginNullsPolicy`.
def partitionKeyCompareForRouting (nullsMinimal : Bool)
    (partkeyValue partkeyBound : List (Option (Const V))) : Except PartitionError Ordering :=
  keyCompare nullsMinimal false partkeyValue partkeyBound

-- `MAXVALUE` does not get here: it stands in the boundary of the default partition only.
def constCompareWithNull : Const V → Const V → Ordering
  | .null, .null => .eq
  | .null, _ => .lt
  | _, .null => .gt
  | .value c1, .value c2 => compare c1 c2
  | .maxValue, .maxValue => .eq
  | .maxValue, _ => .gt
  | _, .maxValue => .lt

def listPartKeyCompareValues : List (Const V) → List (Const V) → Ordering
  | c1 :: k1, c2 :: k2 =>
    match constCompareWithNull c1 c2 with
    | .eq => listPartKeyCompareValues k1 k2
    | res => res
  | _, _ => .eq

def partKeyMatch (k1 k2 : List (Const V)) : Bool :=
  k1.length == k2.length && listPartKeyCompareValues k1 k2 == .eq

def listPartKeyCompare (k1 k2 : List (Const V)) : Ordering :=
  if k1.length ≠ k2.length then
    if k1.length < k2.length then .gt else .lt
  else
    match k1, k2 with
    | .maxValue :: _, .maxValue :: _ => .eq
    | .maxValue :: _, _ => .gt
    | _, .maxValue :: _ => .lt
    | _, _ => listPartKeyCompareValues k1 k2

structure RangeElement (V : Type) where
  partitionOid : Nat
  boundary : List (Const V)
  isInterval : Bool

-- `intervalValue` takes the interval off a value, as `timestamp_mi_interval` does.
structure RangePartitionMap (V : Type) where
  partitionKey : List Nat
  rangeElements : List (RangeElement V)
  intervalValue : V → V

structure ListPartElement (V : Type) where
  partitionOid : Nat
  boundary : List (List (Const V))

structure PartElementHashEntry (V : Type) where
  key : List (Const V)
  partRelOid : Nat
  partSeq : Nat

structure ListPartitionMap (V : Type) where
  partitionKey : List Nat
  listElements : List (ListPartElement V)
  ht : List (PartElementHashEntry V)
  defaultPartRelOid : Nat
  defaultPartSeqNo : Int

structure HashPartitionMap where
  partitionKey : List Nat
  hashElements : List Nat

inductive PartitionMap (V : Type) where
  | range (map : RangePartitionMap V)
  | interval (map : RangePartitionMap V)
  | list (map : ListPartitionMap V)
  | hash (map : HashPartitionMap)

inductive PartitionArea where
  | range
  | interval
  | list
  | hash
  deriving DecidableEq, Repr

structure PartitionIdentifier where
  partArea : PartitionArea
  partSeq : Int
  fileExist : Bool
  partitionId : Nat
  deriving DecidableEq, Repr

def invalidOid : Nat := 0
def invalidPartRelSeqNo : Int := -1

structure Session (V : Type) where
  aFormat : Bool
  nullsMinimal : Bool
  hashValueCombination : BitVec 32 → V → BitVec 32

section Build

def isDefaultValueListPartition (partElem : ListPartElement V) : Bool :=
  match partElem.boundary with
  | [.maxValue :: _] => true
  | _ => false

-- A key that is there already is chained behind its entry, where no search gets to it.
def insertPartKeys (partElem : ListPartElement V) (partSeqNo : Nat)
    : List (List (Const V)) → List (PartElementHashEntry V) → List (PartElementHashEntry V)
  | [], ht => ht
  | newPartKey :: keys, ht =>
    if ht.any fun entry => partKeyMatch newPartKey entry.key then
      insertPartKeys partElem partSeqNo keys ht
    else
      insertPartKeys partElem partSeqNo keys (ht ++ [⟨newPartKey, partElem.partitionOid, partSeqNo⟩])

def insertPartKeyHashTable (listMap : ListPartitionMap V) (partElem : ListPartElement V)
    (partSeqNo : Nat) : ListPartitionMap V :=
  if isDefaultValueListPartition partElem then
    { listMap with defaultPartRelOid := partElem.partitionOid, defaultPartSeqNo := partSeqNo }
  else
    { listMap with ht := insertPartKeys partElem partSeqNo partElem.boundary listMap.ht }

-- A temporary partition of a running DDL repeats the boundary of the one before it.
def repeatsBoundary (partElem : ListPartElement V) : Option (ListPartElement V) → Bool
  | some prevElem =>
    listPartKeyCompare (partElem.boundary.headD []) (prevElem.boundary.headD []) == .eq
  | none => false

def buildListPartitionMap.go (listMap : ListPartitionMap V) (prev : Option (ListPartElement V))
    (partSeq : Nat) : List (ListPartElement V) → ListPartitionMap V
  | [] => listMap
  | partElem :: elements =>
    if repeatsBoundary partElem prev then
      go listMap (some partElem) (partSeq + 1) elements
    else
      go (insertPartKeyHashTable listMap partElem partSeq) (some partElem) (partSeq + 1) elements

-- From the elements on, as `qsort` leaves them.
def buildListPartitionMap (partitionKey : List Nat) (listElements : List (ListPartElement V))
    : ListPartitionMap V :=
  buildListPartitionMap.go
    ⟨partitionKey, listElements, [], invalidOid, invalidPartRelSeqNo⟩ none 0 listElements

end Build

section Routing

def RangePartitionMap.boundaryAt (map : RangePartitionMap V) (i : Nat) : List (Option (Const V)) :=
  match map.rangeElements[i]? with
  | some element => element.boundary.map some
  | none => []

def RangePartitionMap.oidAt (map : RangePartitionMap V) (i : Nat) : Nat :=
  match map.rangeElements[i]? with
  | some element => element.partitionOid
  | none => invalidOid

-- The fuel bounds the turns of the loop; every turn narrows the span.
def semiSeek (nullsMinimal : Bool) (map : RangePartitionMap V)
    (partKeyValue : List (Option (Const V))) (topClosed : Bool)
    : Nat → Nat → Nat → Except PartitionError Int
  | 0, _, maxPartId => .ok maxPartId
  | fuel + 1, minPartId, maxPartId =>
    if minPartId < maxPartId then do
      let localPartId := (maxPartId + minPartId) / 2
      match ← partitionKeyCompareForRouting nullsMinimal partKeyValue (map.boundaryAt localPartId) with
      | .eq => .ok (if topClosed then localPartId + 1 else localPartId)
      | .gt => semiSeek nullsMinimal map partKeyValue topClosed fuel (localPartId + 1) maxPartId
      | .lt => semiSeek nullsMinimal map partKeyValue topClosed fuel minPartId localPartId
    else
      .ok maxPartId

def getRangePartitionSeq (nullsMinimal : Bool) (map : RangePartitionMap V)
    (partKeyValue : List (Option (Const V))) (topClosed : Bool) : Except PartitionError Int := do
  let maxPartId := map.rangeElements.length - 1
  match ← partitionKeyCompareForRouting nullsMinimal partKeyValue (map.boundaryAt maxPartId) with
  | .eq => .ok (if topClosed then -1 else maxPartId)
  | .gt => .ok (-1)
  | .lt => semiSeek nullsMinimal map partKeyValue topClosed map.rangeElements.length 0 maxPartId

def getRangePartitionOid (nullsMinimal : Bool) (map : RangePartitionMap V)
    (partKeyValue : List (Option (Const V))) (topClosed : Bool)
    : Except PartitionError (Nat × Int) := do
  let hit ← getRangePartitionSeq nullsMinimal map partKeyValue topClosed
  .ok (if 0 ≤ hit then map.oidAt hit.toNat else invalidOid, hit)

def calcLowBoundary (map : RangePartitionMap V) : Const V → Const V
  | .value v => .value (map.intervalValue v)
  | c => c

def valueCmpLowBoundary (nullsMinimal : Bool) (map : RangePartitionMap V)
    (partKeyValue : List (Option (Const V))) (partition : RangeElement V)
    : Except PartitionError Ordering :=
  partitionKeyCompareForRouting nullsMinimal partKeyValue
    ((partition.boundary.take 1).map fun bound => some (calcLowBoundary map bound))

def valueSatisfyLowBoundary (nullsMinimal : Bool) (map : RangePartitionMap V)
    (partKeyValue : List (Option (Const V))) (partition : RangeElement V) (topClosed : Bool)
    : Except PartitionError Bool := do
  match ← valueCmpLowBoundary nullsMinimal map partKeyValue partition with
  | .gt => .ok true
  | .eq => .ok topClosed
  | .lt => .ok false

def getListPartitionOid (map : ListPartitionMap V) (partKeyValue : List (Const V)) : Nat × Int :=
  match map.ht.find? fun entry => partKeyMatch partKeyValue entry.key with
  | some entry => (entry.partRelOid, entry.partSeq)
  | none => (map.defaultPartRelOid, map.defaultPartSeqNo)

def hashValues (s : Session V) : BitVec 32 → List (Const V) → Option (BitVec 32)
  | hashValue, [] => some hashValue
  | hashValue, .value v :: keys => hashValues s (s.hashValueCombination hashValue v) keys
  | _, _ :: _ => none

def getHashPartitionOid (s : Session V) (map : HashPartitionMap) (partKeyValue : List (Const V))
    : Nat × Int :=
  match hashValues s 0 partKeyValue with
  | none =>
    if s.aFormat then
      (map.hashElements.getD 0 invalidOid, 0)
    else
      (invalidOid, -1)
  | some hashValue =>
    let hit := map.hashElements.length - hashValue.toNat % map.hashElements.length - 1
    (map.hashElements.getD hit invalidOid, hit)

def routingForRange (s : Session V) (map : RangePartitionMap V) (partArea : PartitionArea)
    (keyValue : List (Const V)) (topClosed : Bool) : Except PartitionError PartitionIdentifier := do
  let (partitionId, partSeq) ←
    getRangePartitionOid s.nullsMinimal map (keyValue.map some) topClosed
  match if 0 ≤ partSeq then map.rangeElements[partSeq.toNat]? else none with
  | none => .ok ⟨partArea, partSeq, false, partitionId⟩
  | some element =>
    if element.isInterval then
      if ← valueSatisfyLowBoundary s.nullsMinimal map (keyValue.map some) element topClosed then
        .ok ⟨partArea, partSeq, true, partitionId⟩
      else
        .ok ⟨partArea, -1, false, invalidOid⟩
    else
      .ok ⟨partArea, partSeq, true, partitionId⟩

def partitionRoutingForValue (s : Session V) (keyValue : List (Const V)) (topClosed : Bool)
    : PartitionMap V → Except PartitionError PartitionIdentifier
  | .range map => routingForRange s map .range keyValue topClosed
  | .interval map => routingForRange s map .interval keyValue topClosed
  | .list map =>
    let (partitionId, partSeq) := getListPartitionOid map keyValue
    .ok ⟨.list, partSeq, decide (0 ≤ partSeq), partitionId⟩
  | .hash map =>
    let (partitionId, partSeq) := getHashPartitionOid s map keyValue
    .ok ⟨.hash, partSeq, decide (0 ≤ partSeq), partitionId⟩

end Routing

section Locate

def isPartKeyValuesInPartition (s : Session V) (map : RangePartitionMap V)
    (partKeyValues : List (Const V)) (partSeq : Nat) : Except PartitionError Bool := do
  if partSeq = 0 then
    let compareTop ← partitionKeyCompareForRouting s.nullsMinimal (partKeyValues.map some)
      (map.boundaryAt 0)
    .ok (compareTop == .lt)
  else
    let compareBottom ← partitionKeyCompareForRouting s.nullsMinimal (partKeyValues.map some)
      (map.boundaryAt (partSeq - 1))
    let compareTop ← partitionKeyCompareForRouting s.nullsMinimal (partKeyValues.map some)
      (map.boundaryAt partSeq)
    .ok (compareBottom != .lt && compareTop == .lt)

def isPartKeyValuesInListPartition (map : ListPartitionMap V) (partKeyValues : List (Const V))
    (partSeq : Nat) : Except PartitionError Bool :=
  let (sourceOid, sourcePartSeq) := getListPartitionOid map partKeyValues
  if sourcePartSeq < 0 then
    .error .noListPartition
  else
    match map.listElements[partSeq]? with
    | some element => .ok (sourceOid == element.partitionOid)
    | none => .ok false

def isPartKeyValuesInHashPartition (s : Session V) (map : HashPartitionMap)
    (partKeyValues : List (Const V)) (partSeq : Nat) : Except PartitionError Bool :=
  let (sourceOid, sourcePartSeq) := getHashPartitionOid s map partKeyValues
  if sourcePartSeq < 0 then
    .error .noHashPartition
  else
    match map.hashElements[partSeq]? with
    | some targetOid => .ok (sourceOid == targetOid)
    | none => .ok false

-- `partKeyValues` are the values of the key columns in the tuple.
def isTupleLocatePartition (s : Session V) (map : PartitionMap V) (partSeq : Int)
    (partKeyValues : List (Const V)) : Except PartitionError Bool :=
  if partSeq < 0 then
    .ok false
  else
    match map with
    | .list map =>
      if map.listElements.length ≤ partSeq.toNat then .ok false
      else isPartKeyValuesInListPartition map partKeyValues partSeq.toNat
    | .hash map =>
      if map.hashElements.length ≤ partSeq.toNat then .ok false
      else isPartKeyValuesInHashPartition s map partKeyValues partSeq.toNat
    | .range map | .interval map =>
      if map.rangeElements.length ≤ partSeq.toNat then .ok false
      else isPartKeyValuesInPartition s map partKeyValues partSeq.toNat

end Locate

end Partition

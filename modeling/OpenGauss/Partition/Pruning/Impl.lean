import OpenGauss.Partition.Impl

/-!
This module contains which partitions the optimizer (`pruning.cpp`) selects for the boundaries of the
key columns.

A `Bitmapset *` is an `Option (List Nat)`, whose `none` is the null pointer.
-/

namespace Partition

inductive PruningState where
  | empty
  | subset
  | full
  deriving DecidableEq, Repr

structure PruningColumn (V : Type) where
  min : Option (Const V)
  minClose : Bool
  max : Option (Const V)
  maxClose : Bool

structure PruningBoundary (V : Type) where
  state : PruningState
  columns : List (PruningColumn V)

structure PruningResult (V : Type) where
  state : PruningState
  boundary : Option (PruningBoundary V)
  bmRangeSelectedPartitions : Option (List Nat)

-- The types `INT2OID`, `INT4OID` and `INT8OID`, and the datum of a value.
structure KeyType (V : Type) where
  typeIsNumerable : V → Bool
  constvalue : V → BitVec 64

variable {V : Type} [LinearOrder V]

section Range

def partitionRoutingForValueRange (s : Session V) (map : RangePartitionMap V)
    (keyValue : List (Option (Const V))) (topClosed direction : Bool)
    : Except PartitionError Int := do
  let (_, partSeq) ← getRangePartitionOid s.nullsMinimal map keyValue topClosed
  match if 0 ≤ partSeq then map.rangeElements[partSeq.toNat]? else none with
  | none => .ok partSeq
  | some element =>
    if element.isInterval ∧ ¬ direction then
      if ← valueSatisfyLowBoundary s.nullsMinimal map keyValue element topClosed then
        .ok partSeq
      else
        .ok (partSeq - 1)
    else
      .ok partSeq

-- The comparison of the first column of a bound with a value.
def compareFirst (map : RangePartitionMap V) (i : Nat) (value : Option (Const V))
    : Except PartitionError Ordering :=
  partitonKeyCompare ((map.boundaryAt i).take 1) [value] false

def cleanPruningBottom.go (map : RangePartitionMap V) (value : Option (Const V))
    : Nat → Nat → Except PartitionError Int
  | 0, _ => .ok (-1)
  | rest + 1, i => do
    let compare ← compareFirst map i value
    if compare ≠ .gt then go map value rest (i + 1) else .ok i

def cleanPruningBottom (map : RangePartitionMap V) (bottomSeq : Int) (value : Option (Const V))
    : Except PartitionError Int :=
  if bottomSeq < 0 ∨ (map.rangeElements.length : Int) ≤ bottomSeq ∨ value = none then
    .ok bottomSeq
  else
    cleanPruningBottom.go map value (map.rangeElements.length - bottomSeq.toNat) bottomSeq.toNat

-- The first `i` from above whose bound is below the value, or -1.
def cleanPruningTop.go (map : RangePartitionMap V) (value : Option (Const V))
    : Nat → Except PartitionError Int
  | 0 => do
    let compare ← compareFirst map 0 value
    .ok (if compare ≠ .lt then -1 else 0)
  | i + 1 => do
    let compare ← compareFirst map (i + 1) value
    if compare ≠ .lt then go map value i else .ok (i + 1)

def cleanPruningTop (map : RangePartitionMap V) (topSeq : Int) (value : Option (Const V))
    : Except PartitionError Int :=
  if topSeq < 0 ∨ (map.rangeElements.length : Int) ≤ topSeq ∨ value = none then
    .ok topSeq
  else do
    let i ← cleanPruningTop.go map value topSeq.toNat
    .ok (if i < topSeq then i + 1 else i)

-- With several key columns, an open first bound cleans the sequence number.
def cleanBottom (map : RangePartitionMap V) (columns : List (PruningColumn V)) (bottomSeq : Int)
    : Except PartitionError Int :=
  match columns with
  | first :: _ :: _ =>
    if first.min.isSome ∧ ¬ first.minClose then cleanPruningBottom map bottomSeq first.min
    else .ok bottomSeq
  | _ => .ok bottomSeq

def cleanTop (map : RangePartitionMap V) (columns : List (PruningColumn V)) (topSeq : Int)
    : Except PartitionError Int :=
  match columns with
  | first :: _ :: _ =>
    if first.max.isSome ∧ ¬ first.maxClose then cleanPruningTop map topSeq first.max
    else .ok topSeq
  | _ => .ok topSeq

def rangeSequences (s : Session V) (map : RangePartitionMap V) (columns : List (PruningColumn V))
    : Except PartitionError (Int × Int) := do
  let bottomValue := columns.map (·.min)
  let topValue := columns.map (·.max)
  let isTopClosed := columns.all (·.maxClose)
  let bottomSeq ← partitionRoutingForValueRange s map bottomValue true true
  let bottomSeq ← cleanBottom map columns bottomSeq
  let topSeq ← partitionRoutingForValueRange s map topValue isTopClosed false
  let topSeq ← cleanTop map columns topSeq
  .ok (bottomSeq, topSeq)

end Range

section Filter

inductive PartKeyColumnRangeMode where
  | point
  | increase
  | range
  | union
  deriving DecidableEq, Repr

structure PartKeyColumnRange (V : Type) where
  mode : PartKeyColumnRangeMode
  prev : Option (Const V)
  next : Option (Const V)

-- `int8` is the type of signed characters.
def int8Of (K : KeyType V) (v : V) : Int := ((K.constvalue v).setWidth 8).toInt

def leadsTo (K : KeyType V) : Const V → Const V → Bool
  | .value left, .value right =>
    K.typeIsNumerable left && int8Of K left + 1 == int8Of K right
  | _, _ => false

def columnRangesNum : Nat := 4

-- `room` is what is left of the array; a write behind its end is an error here.
def putRanges (room : Nat) (ranges : List (PartKeyColumnRange V))
    : Except PartitionError (Option (List (PartKeyColumnRange V))) :=
  if ranges.length ≤ room then .ok (some ranges) else .error .columnRangesOverrun

-- The ranges where the first bound that differs steps from a number to the next one.
def increaseRanges (room : Nat) (left right : Const V)
    : List (Const V) → List (Const V) → Except PartitionError (Option (List (PartKeyColumnRange V)))
  | left' :: _, right' :: _ =>
    if left' = .maxValue then
      putRanges room [⟨.point, right, right⟩, ⟨.range, none, right'⟩]
    else do
      let compare ← partitonKeyCompare [some left'] [some right'] false
      if compare = .gt then
        putRanges room [⟨.increase, left, right⟩, ⟨.union, left', right'⟩]
      else
        putRanges room [⟨.increase, left, right⟩]
  | _, _ => putRanges room [⟨.increase, left, right⟩]

-- From the first column on in which the bounds differ; none when they are equal.
def constructPartKeyRange.go (K : KeyType V) (room : Nat)
    : List (Const V) → List (Const V) → Except PartitionError (Option (List (PartKeyColumnRange V)))
  | left :: lefts, right :: rights => do
    let compare ← partitonKeyCompare [some left] [some right] false
    if compare = .eq then
      if room = 0 then
        .error .columnRangesOverrun
      else
        let ranges ← go K (room - 1) lefts rights
        .ok (ranges.map (⟨.point, left, right⟩ :: ·))
    else if leadsTo K left right then
      increaseRanges room left right lefts rights
    else
      putRanges room [⟨.range, left, right⟩]
  | _, _ => .ok none

def constructPartKeyRange (K : KeyType V) (map : RangePartitionMap V) (partSeq : Nat)
    : Except PartitionError (List (PartKeyColumnRange V)) := do
  let next := (map.rangeElements[partSeq]?.map (·.boundary)).getD []
  match partSeq with
  | 0 => .ok [⟨.range, none, next.head?⟩]
  | prevSeq + 1 =>
    let prev := (map.rangeElements[prevSeq]?.map (·.boundary)).getD []
    let ranges ← constructPartKeyRange.go K columnRangesNum prev next
    .ok (ranges.getD [])

def constIsMin : Option (Const V) → Bool
  | none | some .null => true
  | _ => false

def constIsMax : Option (Const V) → Bool
  | some .maxValue => true
  | _ => false

def columnSelected (columnRange : PartKeyColumnRange V) (column : PruningColumn V)
    : Except PartitionError Bool :=
  match columnRange.mode with
  | .point => do
    let prevCompareMin ← partitonKeyCompare [columnRange.prev] [column.min] false
    let prevCompareMax ← partitonKeyCompare [columnRange.prev] [column.max] false
    .ok ((prevCompareMin == .gt && prevCompareMax == .lt)
      || (prevCompareMin == .eq && column.minClose) || (prevCompareMax == .eq && column.maxClose))
  | .increase | .range =>
    if (constIsMin columnRange.prev && constIsMin column.min)
        || (constIsMax columnRange.next && constIsMax column.max) then
      .ok true
    else do
      let prevCompareMin ← partitonKeyCompare [columnRange.prev] [column.min] false
      let prevCompareMax ← partitonKeyCompare [columnRange.prev] [column.max] false
      let nextCompareMin ← partitonKeyCompare [columnRange.next] [column.min] false
      let nextCompareMax ← partitonKeyCompare [columnRange.next] [column.max] false
      .ok ((prevCompareMin == .gt && prevCompareMax == .lt)
        || (prevCompareMin == .lt && nextCompareMin == .gt)
        || (prevCompareMax == .eq && column.maxClose) || (nextCompareMin == .eq && column.minClose)
        || prevCompareMin == .eq || nextCompareMax == .eq)
  | .union =>
    if constIsMin column.min || constIsMax column.max then
      .ok true
    else do
      let nextCompareMin ← partitonKeyCompare [columnRange.next] [column.min] false
      if nextCompareMin = .gt then
        .ok true
      else
        let prevCompareMax ← partitonKeyCompare [columnRange.prev] [column.max] false
        .ok (prevCompareMax == .lt || (prevCompareMax == .eq && column.maxClose))

def allSelected : List (PartKeyColumnRange V) → List (PruningColumn V) → Except PartitionError Bool
  | columnRange :: ranges, column :: columns => do
    if ← columnSelected columnRange column then allSelected ranges columns else .ok false
  | _, _ => .ok true

def partitionShouldEliminated (K : KeyType V) (map : RangePartitionMap V) (partSeq : Nat)
    (columns : List (PruningColumn V)) : Except PartitionError Bool := do
  let ranges ← constructPartKeyRange K map partSeq
  let isSelected ← allSelected ranges columns
  .ok (!isSelected)

end Filter

section FromBoundary

def fillTop (column : PruningColumn V) : PruningColumn V :=
  { column with max := some (column.max.getD .maxValue) }

def rangeEnd : PartitionMap V → Int
  | .list map => map.listElements.length - 1
  | .hash map => map.hashElements.length - 1
  | .range map | .interval map => map.rangeElements.length - 1

end FromBoundary

end Partition

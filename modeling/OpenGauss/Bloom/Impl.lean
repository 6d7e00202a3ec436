import Mathlib.Data.List.Basic

/-!
This module contains the implementation of the bloom filter of the vectorised hash join, from
`bloom_filter.cpp` and `bloom_filter.h`.

The template parameter `baseType` is a type variable, and what its specialisations differ in is
collected in `BaseType`. The null pointer of `char *` is `none`.
-/

namespace BloomFilter

def maxHashFunctions : Nat := 4
def startupEntriesInit : Nat := 500
def maxEntries : Nat := 10000000

inductive DataType where
  | int2
  | int4
  | int8
  | varchar
  | bpchar
  | text
  | clob
  deriving DecidableEq, Repr

inductive BloomFilterType where
  | equal
  | hashjoin
  | «in»
  deriving DecidableEq, Repr

structure BaseType (V Datum : Type) where
  -- `(baseType)0`
  zero : Option V
  hash64 : V → BitVec 64
  compareValue : V → V → Int
  datumToValue : DataType → Datum → V

section BitSet

structure BitSet where
  data : List (BitVec 64)

namespace BitSet

def new (bits : Nat) : BitSet :=
  let count := if bits % 64 = 0 then 0 else 1
  ⟨List.replicate (bits / 64 + count) 0#64⟩

-- `1L << _index` shifts by the low six bits of the index.
def mask (index : Nat) : BitVec 64 := 1#64 <<< (index % 64)

def set (s : BitSet) (index : Nat) : BitSet :=
  ⟨s.data.modify (index / 64) (· ||| mask index)⟩

def get (s : BitSet) (index : Nat) : Bool :=
  s.data.getD (index / 64) 0#64 &&& mask index != 0#64

def unionAll (s : BitSet) (array : List (BitVec 64)) : BitSet :=
  ⟨s.data.mapIdx fun i word => word ||| array.getD i 0#64⟩

def clear (s : BitSet) : BitSet := ⟨s.data.map fun _ => 0#64⟩

end BitSet

end BitSet

inductive FilterError where
  | expectedEntries
  | tooManyValues
  | notCompatible
  deriving DecidableEq, Repr

structure BloomFilterImpl (V : Type) where
  bitSet : BitSet
  numBits : Nat
  numHashFunctions : Nat
  numValues : Nat
  maxNumValues : Nat
  startupEntries : Nat
  valuePositions : Nat → BitVec 16
  minValue : Option V
  maxValue : Option V
  addMinMax : Bool
  hasMM : Bool
  type : BloomFilterType
  dataType : DataType
  typeMod : BitVec 32
  collation : BitVec 32

structure BloomFilterSet (V : Type) where
  data : List (BitVec 64)
  length : Nat
  numBits : Nat
  numHashFunctions : Nat
  numValues : Nat
  maxNumValues : Nat
  startupEntries : Nat
  valuePositions : Nat → BitVec 16
  minValue : Option V
  maxValue : Option V
  addMinMax : Bool
  hasMM : Bool
  bfType : BloomFilterType
  dataType : DataType
  typeMod : BitVec 32
  collation : BitVec 32

namespace BloomFilterImpl

variable {V Datum : Type}

-- `nb` and `hashFunctions` stand for the results of `optimalNumOfBits` and
-- `optimalNumOfHashFunctions`, which are computed in floating point.
def new (T : BaseType V Datum) (dataType : DataType) (typeMod collation : BitVec 32)
    (type : BloomFilterType) (expectedEntries : Int) (nb hashFunctions : Nat) (addMinMax : Bool)
    : Except FilterError (BloomFilterImpl V) :=
  if expectedEntries ≤ 0 ∨ (maxEntries : Int) ≤ expectedEntries then
    .error .expectedEntries
  else
    let numBits := nb + (64 - nb % 64)
    .ok {
      bitSet := BitSet.new numBits
      numBits
      numHashFunctions := max 1 hashFunctions
      numValues := 0
      maxNumValues := expectedEntries.toNat
      startupEntries := min expectedEntries.toNat startupEntriesInit
      valuePositions := fun _ => 0
      minValue := T.zero
      maxValue := T.zero
      addMinMax
      hasMM := false
      type
      dataType
      typeMod
      collation
    }

-- The position of the `i`-th hash function; `int` arithmetic wraps around.
def position (numBits : Nat) (hash64 : BitVec 64) (i : Nat) : Nat :=
  let hash1 := hash64.setWidth 32
  let hash2 := (hash64 >>> 32).setWidth 32
  let combinedHash := hash1 + BitVec.ofNat 32 i * hash2
  let combinedHash := if combinedHash.slt 0#32 then ~~~combinedHash else combinedHash
  combinedHash.toNat % numBits

def addHash.go (hash64 : BitVec 64) (f : BloomFilterImpl V) : Nat → BloomFilterImpl V
  | 0 => f
  | i + 1 =>
    let f := go hash64 f i
    let pos := position f.numBits hash64 (i + 1)
    { f with
      bitSet := f.bitSet.set pos
      valuePositions := Function.update f.valuePositions (maxHashFunctions * f.numValues + i)
        (BitVec.ofNat 16 pos) }

def addHash (f : BloomFilterImpl V) (hash64 : BitVec 64)
    : Except FilterError (BloomFilterImpl V) :=
  if f.maxNumValues ≤ f.numValues then
    .error .tooManyValues
  else
    let f :=
      if f.startupEntries ≤ f.numValues then
        { f with startupEntries := min (f.startupEntries * 2) f.maxNumValues }
      else
        f
    let f := addHash.go hash64 f f.numHashFunctions
    .ok { f with numValues := f.numValues + 1 }

def setMinMax (T : BaseType V Datum) (f : BloomFilterImpl V) (val : V) : BloomFilterImpl V :=
  match f.hasMM, f.minValue, f.maxValue with
  | true, some minValue, some maxValue =>
    if T.compareValue val minValue < 0 then
      { f with minValue := some val }
    else if 0 < T.compareValue val maxValue then
      { f with maxValue := some val }
    else
      f
  | _, _, _ => { f with minValue := some val, maxValue := some val, hasMM := true }

-- `addLong` and `addString`, where the value is not null.
def addValue (T : BaseType V Datum) (f : BloomFilterImpl V) (val : V)
    : Except FilterError (BloomFilterImpl V) :=
  let f := if f.addMinMax then f.setMinMax T val else f
  f.addHash (T.hash64 val)

def addDatum (T : BaseType V Datum) (f : BloomFilterImpl V) (datumVal : Datum)
    : Except FilterError (BloomFilterImpl V) :=
  f.addValue T (T.datumToValue f.dataType datumVal)

def includeHashInternal.go (hash64 : BitVec 64) (f : BloomFilterImpl V) : Nat → Bool
  | 0 => true
  | i + 1 => go hash64 f i && f.bitSet.get (position f.numBits hash64 (i + 1))

def includeHashInternal (f : BloomFilterImpl V) (hash64 : BitVec 64) : Bool :=
  includeHashInternal.go hash64 f f.numHashFunctions

-- `includeLong` and `includeString`, where the value is not null.
def includeValue [DecidableEq V] (T : BaseType V Datum) (f : BloomFilterImpl V) (value : V)
    : Bool :=
  if f.addMinMax ∧ f.numValues = 1 then
    f.minValue = some value
  else
    f.includeHashInternal (T.hash64 value)

def includeDatum [DecidableEq V] (T : BaseType V Datum) (f : BloomFilterImpl V) (value : Datum)
    : Bool :=
  f.includeValue T (T.datumToValue f.dataType value)

def unionAll (f that : BloomFilterImpl V) : Except FilterError (BloomFilterImpl V) :=
  if f.numBits = that.numBits ∧ f.numHashFunctions = that.numHashFunctions then
    .ok { f with bitSet := f.bitSet.unionAll that.bitSet.data }
  else
    .error .notCompatible

def reset (f : BloomFilterImpl V) : BloomFilterImpl V :=
  { f with numValues := 0, bitSet := f.bitSet.clear, hasMM := false }

-- Only the first `startupEntries` entries are copied.
def copyPositions (startupEntries : Nat) (valuePositions : Nat → BitVec 16) : Nat → BitVec 16 :=
  fun index => if index < maxHashFunctions * startupEntries then valuePositions index else 0

def makeBloomFilterSet (f : BloomFilterImpl V) : BloomFilterSet V where
  data := f.bitSet.data
  length := f.bitSet.data.length
  numBits := f.numBits
  numHashFunctions := f.numHashFunctions
  numValues := f.numValues
  maxNumValues := f.maxNumValues
  startupEntries := f.startupEntries
  valuePositions := copyPositions f.startupEntries f.valuePositions
  minValue := f.minValue
  maxValue := f.maxValue
  addMinMax := f.addMinMax
  hasMM := f.hasMM
  bfType := f.type
  dataType := f.dataType
  typeMod := f.typeMod
  collation := f.collation

def rebuildBloomFilterValue (s : BloomFilterSet V) : BloomFilterImpl V where
  bitSet := ⟨s.data.take s.length⟩
  numBits := s.numBits
  numHashFunctions := s.numHashFunctions
  numValues := s.numValues
  maxNumValues := s.maxNumValues
  startupEntries := s.startupEntries
  valuePositions := copyPositions s.startupEntries s.valuePositions
  minValue := s.minValue
  maxValue := s.maxValue
  addMinMax := s.addMinMax
  hasMM := s.hasMM
  type := s.bfType
  dataType := s.dataType
  typeMod := s.typeMod
  collation := s.collation

end BloomFilterImpl

-- The specialisation for the integer types.

def getLongHash (key : BitVec 64) : BitVec 64 :=
  let key := ~~~key + (key <<< 21)
  let key := key ^^^ key.sshiftRight 24
  let key := (key + (key <<< 3)) + (key <<< 8)
  let key := key ^^^ key.sshiftRight 14
  let key := (key + (key <<< 2)) + (key <<< 4)
  let key := key ^^^ key.sshiftRight 28
  key + (key <<< 31)

def int64Type : BaseType (BitVec 64) (BitVec 64) where
  zero := some 0
  hash64 := getLongHash
  compareValue left right := if right.slt left then 1 else if left.slt right then -1 else 0
  datumToValue
    | .int2, datum => (datum.setWidth 16).signExtend 64
    | .int4, datum => (datum.setWidth 32).signExtend 64
    | _, datum => datum

end BloomFilter

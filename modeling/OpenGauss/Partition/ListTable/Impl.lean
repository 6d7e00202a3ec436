import OpenGauss.Partition.Locate

/-!
This module contains the hash table of a list partition map with its chains, how it is built from the
partitions (`partitionmap.cpp`) and the search in it (`partrouting.cpp`).

The values in the key columns may differ where their comparison finds them equal. `V` has the values that
the comparison tells apart.
-/

namespace Partition

variable {D V : Type}

-- `hash_eq` is what an equality and a hash function of one type owe each other.
structure HashedType (D V : Type) where
  value : D → V
  hashValueCombination : BitVec 32 → D → BitVec 32
  hash_eq : ∀ hashValue a b, value a = value b →
    hashValueCombination hashValue a = hashValueCombination hashValue b

def Const.map (f : D → V) : Const D → Const V
  | .maxValue => .maxValue
  | .null => .null
  | .value d => .value (f d)

-- An element of the hash table: the entry in it and those that follow through `next`.
structure HashElement (D : Type) where
  hashvalue : BitVec 32
  entry : PartElementHashEntry D
  next : List (PartElementHashEntry D)

structure ListPartitionTable (D : Type) where
  partitionKey : List Nat
  listElements : List (ListPartElement D)
  ht : List (HashElement D)
  defaultPartRelOid : Nat
  defaultPartSeqNo : Int

inductive ListTableError where
  | duplicateElement
  deriving DecidableEq, Repr

namespace HashedType

variable [LinearOrder V] (t : HashedType D V)

def key (key : List (Const D)) : List (Const V) := key.map (Const.map t.value)

def partKeyHash (hashval : BitVec 32) : List (Const D) → BitVec 32
  | [] => hashval
  | .value d :: cs => partKeyHash (t.hashValueCombination hashval d) cs
  | .null :: cs => partKeyHash hashval cs
  | .maxValue :: cs => partKeyHash hashval cs

def partKeyHashFunc (key : List (Const D)) : BitVec 32 := t.partKeyHash 0 key

def partKeyMatchFunc (c1 c2 : List (Const D)) : Bool := partKeyMatch (t.key c1) (t.key c2)

def compareKeys (k1 k2 : List (Const D)) : Ordering := listPartKeyCompare (t.key k1) (t.key k2)

-- The list map of the same partitions, in which the key values are compared only.
def forgetElement (element : HashElement D) : PartElementHashEntry V :=
  ⟨t.key element.entry.key, element.entry.partRelOid, element.entry.partSeq⟩

def forget (map : ListPartitionTable D) : ListPartitionMap V where
  partitionKey := map.partitionKey
  listElements := map.listElements.map fun element => ⟨element.partitionOid, element.boundary.map t.key⟩
  ht := map.ht.map t.forgetElement
  defaultPartRelOid := map.defaultPartRelOid
  defaultPartSeqNo := map.defaultPartSeqNo

section Search

def isElementOf (key : List (Const D)) (element : HashElement D) : Bool :=
  element.hashvalue == t.partKeyHashFunc key && t.partKeyMatchFunc element.entry.key key

def hashSearch (ht : List (HashElement D)) (key : List (Const D)) : Option (HashElement D) :=
  ht.find? (t.isElementOf key)

def getListPartitionOid (map : ListPartitionTable D) (partKeyValue : List (Const D)) : Nat × Int :=
  match t.hashSearch map.ht partKeyValue with
  | some element =>
    match (element.entry :: element.next).find? fun entry => t.compareKeys partKeyValue entry.key == .eq with
    | some entry => (entry.partRelOid, entry.partSeq)
    | none => (map.defaultPartRelOid, map.defaultPartSeqNo)
  | none => (map.defaultPartRelOid, map.defaultPartSeqNo)

end Search

section Build

-- The key is copied into the last entry of the chain; the new entry behind it stays without one.
def appendToChain (newPartKey : List (Const D)) (partRelOid partSeq : Nat) (entry : PartElementHashEntry D)
    : List (PartElementHashEntry D) → Except ListTableError (List (PartElementHashEntry D))
  | [] => .ok [{ entry with key := newPartKey }, ⟨[], partRelOid, partSeq⟩]
  | next :: rest =>
    if t.compareKeys newPartKey entry.key = .eq then
      .error .duplicateElement
    else do
      let chain ← appendToChain newPartKey partRelOid partSeq next rest
      .ok (entry :: chain)

def insertPartKey (newPartKey : List (Const D)) (partRelOid partSeq : Nat)
    : List (HashElement D) → Except ListTableError (List (HashElement D))
  | [] => .ok [⟨t.partKeyHashFunc newPartKey, ⟨newPartKey, partRelOid, partSeq⟩, []⟩]
  | element :: ht =>
    if t.isElementOf newPartKey element then do
      match ← t.appendToChain newPartKey partRelOid partSeq element.entry element.next with
      | entry :: next => .ok ({ element with entry, next } :: ht)
      | [] => .ok (element :: ht)
    else do
      let ht ← insertPartKey newPartKey partRelOid partSeq ht
      .ok (element :: ht)

def insertPartKeys (partRelOid partSeq : Nat)
    : List (List (Const D)) → List (HashElement D) → Except ListTableError (List (HashElement D))
  | [], ht => .ok ht
  | newPartKey :: keys, ht => do
    let ht ← t.insertPartKey newPartKey partRelOid partSeq ht
    insertPartKeys partRelOid partSeq keys ht

def insertPartKeyHashTable (listMap : ListPartitionTable D) (partElem : ListPartElement D) (partSeqNo : Nat)
    : Except ListTableError (ListPartitionTable D) :=
  if isDefaultValueListPartition partElem then
    .ok { listMap with defaultPartRelOid := partElem.partitionOid, defaultPartSeqNo := partSeqNo }
  else do
    let ht ← t.insertPartKeys partElem.partitionOid partSeqNo partElem.boundary listMap.ht
    .ok { listMap with ht }

def listElementCmp (a b : ListPartElement D) : Ordering :=
  t.compareKeys (a.boundary.headD []) (b.boundary.headD [])

def buildListPartitionMap.go (listMap : ListPartitionTable D) (prev : Option (ListPartElement D))
    (partSeq : Nat) : List (ListPartElement D) → Except ListTableError (ListPartitionTable D)
  | [] => .ok listMap
  | partElem :: elements =>
    if prev.any fun prevElem => t.listElementCmp partElem prevElem == .eq then
      go listMap (some partElem) (partSeq + 1) elements
    else do
      let listMap ← t.insertPartKeyHashTable listMap partElem partSeq
      go listMap (some partElem) (partSeq + 1) elements

def qsort (listElements : List (ListPartElement D)) : List (ListPartElement D) :=
  listElements.mergeSort fun a b => t.listElementCmp a b != .gt

def buildListPartitionMap (partitionKey : List Nat) (partitionList : List (ListPartElement D))
    : Except ListTableError (ListPartitionTable D) :=
  let listElements := t.qsort partitionList
  buildListPartitionMap.go t ⟨partitionKey, listElements, [], invalidOid,
    invalidPartRelSeqNo⟩ none 0 listElements

end Build

end HashedType

end Partition

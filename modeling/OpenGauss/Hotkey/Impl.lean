import OpenGauss.Lib.LinkedList

/-!
This module contains the list of hot keys that the statistics collector keeps, from `lrucache.cpp`.
-/

namespace Hotkey

open LinkedList

inductive Ptr where
  | head
  | elem (i : Nat)
  | tail
  deriving DecidableEq

structure HotkeyInfo (Value : Type) where
  relationOid : Nat
  databaseOid : Nat
  hotkeyValue : Value

-- What the weights use of `double`: `<=`, 0, 1, `+ 1` and `*= DECAY_RATIO`.
structure Weights (W : Type) where
  le : W → W → Bool
  zero : W
  one : W
  addOne : W → W
  decay : W → W
  one_le : le one one = true
  decay_le : ∀ w, le w one = true → le (decay w) one = true

structure RefNode (Value : Type) where
  key : Option (HotkeyInfo Value)

structure DllNode (W Value : Type) where
  node : Option (RefNode Value)
  value : Nat
  weight : W

def DllNode.key {W Value : Type} (n : DllNode W Value) : Option (HotkeyInfo Value) :=
  n.node.bind RefNode.key

-- The links of a node stand beside its other fields.
structure LRUCache (W Value : Type) where
  len : Int
  capacity : Nat
  nodes : Ptr → DllNode W Value
  next : Ptr → Option Ptr
  prev : Ptr → Option Ptr

inductive Call (Value : Type) where
  | put (key : HotkeyInfo Value)
  | contain (key : HotkeyInfo Value) (type : HotkeyInfo Value → HotkeyInfo Value → Bool)
  | deleteHotkeysInTAB (tOid : Nat)
  | deleteHotkeysInDB (dbOid : Nat)
  | clean

namespace LRUCache

variable {W Value : Type} (ops : Weights W)

def init (capacity : Nat) : LRUCache W Value where
  len := 0
  capacity := capacity
  nodes
    | .elem _ => { node := some { key := none }, value := 0, weight := ops.one }
    | _ => { node := some { key := none }, value := 0, weight := ops.zero }
  next
    | .head => some (.elem 0)
    | .elem i => some (if i + 1 < capacity then .elem (i + 1) else .tail)
    | .tail => none
  prev
    | .head => none
    | .elem i => some (if i = 0 then .head else .elem (i - 1))
    | .tail => some (.elem (capacity - 1))

variable (c : LRUCache W Value)

def setNode (p : Ptr) (n : DllNode W Value) : LRUCache W Value :=
  { c with nodes := Function.update c.nodes p n }

def setNext (p : Ptr) (q : Option Ptr) : LRUCache W Value :=
  { c with next := Function.update c.next p q }

def setPrev (p : Ptr) (q : Option Ptr) : LRUCache W Value :=
  { c with prev := Function.update c.prev p q }

def addToTail (x : RefNode Value) : Option (LRUCache W Value × Option (HotkeyInfo Value)) := do
  let arrayTail ← c.prev .tail
  let temp := (c.nodes arrayTail).key
  let c := c.setNode arrayTail { node := some x, value := 2, weight := ops.one }
  return ({ c with len := if temp.isNone then c.len + 1 else c.len }, temp)

def remove (x : Ptr) : LRUCache W Value :=
  if c.len = 0 ∨ (c.nodes x).node.isNone then
    c
  else
    { c.setNode x { node := none, value := 0, weight := ops.one } with len := c.len - 1 }

def insertFront (x ptr : Ptr) : Option (LRUCache W Value) := do
  let temp1 := c.next x
  let temp2 := c.prev ptr
  let xPrev ← c.prev x
  let c := match temp2 with
    | none => c
    | some temp2 => c.setNext temp2 (some x)
  let c := c.setNext xPrev temp1
  let c := c.setNext x (some ptr)
  let c := match temp1 with
    | none => c
    | some temp1 => c.setPrev temp1 (c.prev x)
  let c := c.setPrev x temp2
  return c.setPrev ptr (some x)

def reLocate.go (x : Ptr) : Nat → Option Ptr → Option (LRUCache W Value)
  | 0, _ => none
  | _, none => none
  | fuel + 1, some ptr =>
    if ptr = x then
      some c
    else if ops.le (c.nodes ptr).weight (c.nodes x).weight then
      c.insertFront x ptr
    else
      reLocate.go x fuel (c.next ptr)

def reLocate (fuel : Nat) : Option Ptr → Option (LRUCache W Value)
  | none => some c
  | some x => reLocate.go ops c x fuel (c.next .head)

def moveToTail (x : Ptr) : Option (LRUCache W Value) := do
  let temp1 := c.next x
  let temp2 ← c.prev .tail
  let c := match c.prev x with
    | none => c
    | some xPrev => c.setNext xPrev temp1
  let c := c.setNext x (some .tail)
  let c := c.setNext temp2 (some x)
  let c := match temp1 with
    | none => c
    | some temp1 => c.setPrev temp1 (c.prev x)
  let c := c.setPrev x (some temp2)
  return c.setPrev .tail (some x)

def put (fuel : Nat) (node : HotkeyInfo Value)
    : Option (LRUCache W Value × Option (HotkeyInfo Value)) := do
  let (c, dropped) ← c.addToTail ops { key := some node }
  let c ← c.reLocate ops fuel (c.prev .tail)
  return (c, dropped)

def contain.go (node : HotkeyInfo Value) (type : HotkeyInfo Value → HotkeyInfo Value → Bool)
    : Nat → LRUCache W Value → Option Ptr → Option Ptr → Option (LRUCache W Value × Option Ptr)
  | 0, _, _, _ => none
  | _, c, findNode, none => some (c, findNode)
  | fuel + 1, c, findNode, some ptr =>
    let n := c.nodes ptr
    if n.node.isNone then
      some (c, findNode)
    else if findNode.isNone ∧ n.key.any (type node) then
      contain.go node type fuel
        (c.setNode ptr { n with value := n.value + 1, weight := ops.addOne n.weight }) (some ptr) (c.next ptr)
    else
      contain.go node type fuel (c.setNode ptr { n with weight := ops.decay n.weight }) findNode (c.next ptr)

def contain (fuel : Nat) (node : HotkeyInfo Value)
    (type : HotkeyInfo Value → HotkeyInfo Value → Bool) : Option (LRUCache W Value × Bool) := do
  if c.len = 0 then
    return (c, false)
  else
    let (c, findNode) ← contain.go ops node type fuel c none (c.next .head)
    let c ← c.reLocate ops fuel findNode
    return (c, findNode.isSome)

def clean.go : Nat → LRUCache W Value → Option Ptr → Option (LRUCache W Value)
  | 0, _, _ => none
  | _, c, none => some c
  | fuel + 1, c, some ptr => clean.go fuel (c.remove ops ptr) (c.next ptr)

def clean (fuel : Nat) : Option (LRUCache W Value) :=
  if c.len = 0 then
    some c
  else
    clean.go ops fuel c (c.next .head)

def deleteHotkeys.go (p : HotkeyInfo Value → Bool)
    : Nat → LRUCache W Value → Option Ptr → Option (LRUCache W Value)
  | 0, _, _ => none
  | _, c, none => some c
  | fuel + 1, c, some ptr =>
    let temp := c.next ptr
    if (c.nodes ptr).node.isNone then
      some c
    else if (c.nodes ptr).key.any p then do
      let c ← (c.remove ops ptr).moveToTail ptr
      deleteHotkeys.go p fuel c temp
    else
      deleteHotkeys.go p fuel c temp

def deleteHotkeys (fuel : Nat) (p : HotkeyInfo Value → Bool) : Option (LRUCache W Value) :=
  deleteHotkeys.go ops p fuel c (c.next .head)

def deleteHotkeysInTAB (fuel : Nat) (tOid : Nat) : Option (LRUCache W Value) :=
  c.deleteHotkeys ops fuel (fun keyInfo => keyInfo.relationOid = tOid)

def deleteHotkeysInDB (fuel : Nat) (dbOid : Nat) : Option (LRUCache W Value) :=
  c.deleteHotkeys ops fuel (fun keyInfo => keyInfo.databaseOid = dbOid)

-- Every walk has `fuel` nodes to visit.
def call (fuel : Nat) : Call Value → Option (LRUCache W Value)
  | .put key => (c.put ops fuel key).map Prod.fst
  | .contain key type => (c.contain ops fuel key type).map Prod.fst
  | .deleteHotkeysInTAB tOid => c.deleteHotkeysInTAB ops fuel tOid
  | .deleteHotkeysInDB dbOid => c.deleteHotkeysInDB ops fuel dbOid
  | .clean => c.clean ops fuel

-- The caches before every call and after the last one, `none` when a walk does not end.
def run (fuel : Nat) : LRUCache W Value → List (Call Value) → List (Option (LRUCache W Value))
  | c, [] => [some c]
  | c, call :: calls =>
    match c.call ops fuel call with
    | none => [some c, none]
    | some c' => some c :: run fuel c' calls

def holdsKey (p : Ptr) : Prop :=
  (c.nodes p).key.isSome

instance : DecidablePred c.holdsKey :=
  fun p => inferInstanceAs (Decidable ((c.nodes p).key.isSome = true))

def elems : List Ptr :=
  (List.range c.capacity).map .elem

structure IsList (order : List Ptr) : Prop where
  perm : order.Perm c.elems
  linked : Linked c.next c.prev (.head :: (order ++ [.tail]))
  next_tail : c.next .tail = none
  len_eq : c.len = order.countP (fun p => c.holdsKey p)
  keys_first : order.Pairwise (fun a b => c.holdsKey b → c.holdsKey a)

structure Sound (fuel : Nat) : Prop where
  isList : ∃ order, c.IsList order
  dropped : ∀ key c' old, c.put ops fuel key = some (c', some old) → ∀ p, p ∈ c.elems → c.holdsKey p

-- All nodes are occupied, and the key of the last one is the only one to delete.
def OnlyLast (p : HotkeyInfo Value → Bool) : Prop :=
  (∀ q, q ∈ c.elems → c.holdsKey q)
    ∧ ∃ last, c.prev .tail = some last
      ∧ ∀ q, q ∈ c.elems → ((c.nodes q).key.any p = true ↔ q = last)

def Meets : Call Value → Prop
  | .deleteHotkeysInTAB tOid => ¬c.OnlyLast (fun keyInfo => keyInfo.relationOid = tOid)
  | .deleteHotkeysInDB dbOid => ¬c.OnlyLast (fun keyInfo => keyInfo.databaseOid = dbOid)
  | _ => True

def MeetsAll (fuel : Nat) : LRUCache W Value → List (Call Value) → Prop
  | _, [] => True
  | c, call :: calls => c.Meets call ∧ ∀ c', c.call ops fuel call = some c' → MeetsAll fuel c' calls

end LRUCache
end Hotkey

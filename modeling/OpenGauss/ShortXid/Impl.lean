import Mathlib.Algebra.Group.Int.Defs
import Mathlib.Algebra.Group.Nat.Defs
import Mathlib.Data.List.Basic
import Mathlib.Order.Lattice

/-!
This module contains what `heapam.cpp` and `knl_uheap.cpp` have in common where they move the base of a page:
a page stores 32 bits of a transaction id, which count from one of the two bases in its header.

Transaction ids are unsigned numbers of 64 bits, differences of them signed ones.
-/

namespace ShortXid

section Integers

def toUInt64 (x : Int) : Nat := (x % 2 ^ 64).toNat

def toInt64 (x : Int) : Int := Int.bmod x (2 ^ 64)

def toShort (x : Int) : Nat := (x % 2 ^ 32).toNat

end Integers

def frozenTransactionId : Nat := 2
def firstNormalTransactionId : Nat := 3
def maxShortTransactionId : Nat := 0xFFFFFFFF

def transactionIdIsNormal (xid : Nat) : Bool := firstNormalTransactionId ≤ xid

def shortTransactionIdToNormal (base xid : Nat) : Nat :=
  if transactionIdIsNormal xid then toUInt64 (xid + base) else xid

structure Bases where
  pdXidBase : Nat
  pdMultiBase : Nat

namespace Bases

def base (bases : Bases) (multi : Bool) : Nat := if multi then bases.pdMultiBase else bases.pdXidBase

def setBase (bases : Bases) (multi : Bool) (base : Nat) : Bases :=
  if multi then { bases with pdMultiBase := base } else { bases with pdXidBase := base }

end Bases

-- The least and the greatest short id seen so far.
def observe (found : Option (Nat × Nat)) (xid : Nat) : Option (Nat × Nat) :=
  match found with
  | none => some (xid, xid)
  | some (min, max) => some (Min.min min xid, Max.max max xid)

def clampDelta (base : Nat) (delta : Int) : Int :=
  if delta < 0 then
    if toInt64 (toUInt64 (base + delta)) < 0 then toInt64 (-(toInt64 base)) else delta
  else
    delta

def fitsBase (base xid : Nat) : Bool :=
  toUInt64 (base + firstNormalTransactionId) ≤ xid && xid ≤ toUInt64 (base + maxShortTransactionId)

-- The shift for an id that does not fit the base, none where the short ids leave no room for it.
def shiftFor (base xid min max : Nat) : Option Int :=
  if xid < toUInt64 (base + firstNormalTransactionId) then
    let freeDelta := toInt64 ((maxShortTransactionId : Int) - max)
    let requiredDelta := toInt64 (toUInt64 ((base : Int) + firstNormalTransactionId) - xid)
    if requiredDelta ≤ freeDelta then some ((-(freeDelta + requiredDelta)).tdiv 2) else none
  else
    let freeDelta := toInt64 ((min : Int) - firstNormalTransactionId)
    let requiredDelta := toInt64 (xid - toUInt64 ((base : Int) + maxShortTransactionId))
    if requiredDelta ≤ freeDelta then some ((freeDelta + requiredDelta).tdiv 2) else none

def shiftOf (base xid : Nat) : Option (Nat × Nat) → Option Int
  | none => some (toInt64 (toUInt64 ((xid : Int) - firstNormalTransactionId - base)))
  | some (min, max) => shiftFor base xid min max

-- The base of a page without tuples.
def resetBase (recentXmin : Nat) : Nat := toUInt64 (recentXmin - firstNormalTransactionId)

end ShortXid

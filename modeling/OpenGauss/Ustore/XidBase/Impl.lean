import OpenGauss.ShortXid.Impl

/-!
This module contains the transaction ids on a page of Ustore, from `knl_uheap.cpp` and `knl_uredo.cpp`: a row
stores one short id, which counts from a base in the header of the page.
-/

namespace Ustore

namespace XidBase

open ShortXid

-- What a stored row keeps of its transaction; `multiLockers` is the flag `UHEAP_MULTI_LOCKERS`.
structure Tuple where
  xid : Nat
  multiLockers : Bool
  deriving DecidableEq

-- The rows in order of their row pointers, none where a row pointer is not normal.
structure Page extends Bases where
  rows : List (Option Tuple)

namespace Page

def setBase (page : Page) (multi : Bool) (base : Nat) : Page :=
  { page with toBases := page.toBases.setBase multi base }

-- `UHeapDiskTupleGetRawXid`
def rawXid (page : Page) (tuple : Tuple) : Nat :=
  shortTransactionIdToNormal (page.base tuple.multiLockers) tuple.xid

end Page

def counted (multi : Bool) (tuple : Tuple) : Bool :=
  transactionIdIsNormal tuple.xid && tuple.multiLockers == multi

def xidMinMaxStep (multi : Bool) (found : Option (Nat × Nat)) (row : Option Tuple) : Option (Nat × Nat) :=
  match row with
  | none => found
  | some tuple =>
    if counted multi tuple then observe found tuple.xid else found

def uheapPageXidMinMax (page : Page) (multi : Bool) : Option (Nat × Nat) :=
  page.rows.foldl (xidMinMaxStep multi) none

section ShiftBase

-- None is the error that the transaction id is not the same.
def validateUHeapPageShiftBase (inRecovery : Bool) (tuple : Tuple) (oldXid newXid : Nat) : Option Tuple :=
  if inRecovery then
    some { tuple with xid := frozenTransactionId }
  else if oldXid = newXid then
    some tuple
  else
    none

def shiftTuple (inRecovery : Bool) (base : Nat) (delta : Int) (tuple : Tuple) : Option Tuple :=
  let oldTupXid := shortTransactionIdToNormal base tuple.xid
  let xid := toShort (tuple.xid - delta)
  let newTupXid := shortTransactionIdToNormal (toUInt64 (base + delta)) xid
  validateUHeapPageShiftBase inRecovery { tuple with xid := xid } oldTupXid newTupXid

def shiftRows (inRecovery multi : Bool) (base : Nat) (delta : Int)
    : List (Option Tuple) → Option (List (Option Tuple))
  | [] => some []
  | none :: rows => do
    let rows ← shiftRows inRecovery multi base delta rows
    return none :: rows
  | some tuple :: rows => do
    let tuple ← if counted multi tuple then shiftTuple inRecovery base delta tuple else some tuple
    let rows ← shiftRows inRecovery multi base delta rows
    return some tuple :: rows

def uheapPageShiftBase (inRecovery : Bool) (page : Page) (multi : Bool) (delta : Int)
    : Option (Page × Int) := do
  let base := page.base multi
  let delta := clampDelta base delta
  let rows ← shiftRows inRecovery multi base delta page.rows
  return ({ page with rows := rows }.setBase multi (toUInt64 (base + delta)), delta)

structure XlUHeapBaseShift where
  multi : Bool
  delta : Int

def uheapXlogBaseShift (page : Page) (xlrec : XlUHeapBaseShift) : Option Page :=
  (uheapPageShiftBase true page xlrec.multi xlrec.delta).map (·.1)

end ShiftBase

section Prepare

structure Env where
  needWal : Bool
  recentXmin : Nat
  oldestXmin : Nat
  pruned : Nat → Bool

def freezeTuple (page : Page) (oldestXmin : Nat) (tuple : Tuple) : Tuple :=
  if tuple.multiLockers then
    tuple
  else
    let xid := page.rawXid tuple
    if transactionIdIsNormal xid && xid < oldestXmin then { tuple with xid := frozenTransactionId } else tuple

def freezeSingleUHeapPage (env : Env) (page : Page) : Page :=
  { page with rows := page.rows.mapIdx fun i row =>
      if env.pruned i then none else row.map (freezeTuple page env.oldestXmin) }

inductive Outcome where
  | returned (before page : Page) (logged : Option XlUHeapBaseShift)
  | cannotFit (page : Page)
  | mismatch

def uheapPageShiftBaseAndDirty (env : Env) (page : Page) (multi : Bool) (delta : Int) : Outcome :=
  match uheapPageShiftBase false page multi delta with
  | none => .mismatch
  | some (page', delta) => .returned page page' (if env.needWal then some ⟨multi, delta⟩ else none)

-- One round of the loop; none when the page has to be frozen first.
def prepareRound (env : Env) (page : Page) (xid : Nat) (multi : Bool) : Option Outcome :=
  let base := page.base multi
  if fitsBase base xid then
    some (.returned page page none)
  else if page.rows = [] ∧ multi = false then
    some (.returned page { page with pdXidBase := resetBase env.recentXmin } none)
  else
    (shiftOf base xid (uheapPageXidMinMax page multi)).map (uheapPageShiftBaseAndDirty env page multi)

def uheapPagePrepareForXid (env : Env) (page : Page) (xid : Nat) (multi : Bool) : Outcome :=
  match prepareRound env page xid multi with
  | some outcome => outcome
  | none =>
    let page := freezeSingleUHeapPage env page
    match prepareRound env page xid multi with
    | some outcome => outcome
    | none => .cannotFit page

end Prepare

end XidBase

end Ustore

import OpenGauss.ShortXid.Impl

/-!
This module contains the transaction ids on a page of a row-store table, from `heapam.cpp` and
`redo_heapam.cpp`: a tuple has two short ids, which count from one of the two bases in the header of the page.
-/

namespace Heap

namespace XidBase

open ShortXid

-- `xminFrozen` stands for both bits of `HEAP_XMIN_FROZEN`, `xmaxIsMulti` for `HEAP_XMAX_IS_MULTI`.
structure Tuple where
  xmin : Nat
  xmax : Nat
  xminFrozen : Bool
  xmaxIsMulti : Bool

-- The tuples in order of their item ids, none where an item id is not normal.
structure Page extends Bases where
  compressed : Bool
  items : List (Option Tuple)

namespace Page

def setBase (page : Page) (multi : Bool) (base : Nat) : Page :=
  { page with toBases := page.toBases.setBase multi base }

def rawXmin (page : Page) (tuple : Tuple) : Nat :=
  shortTransactionIdToNormal page.pdXidBase tuple.xmin

def rawXmax (page : Page) (tuple : Tuple) : Nat :=
  shortTransactionIdToNormal (page.base tuple.xmaxIsMulti) tuple.xmax

end Page

def normalTransactionIdToShort (base xid : Nat) : Nat :=
  if transactionIdIsNormal xid then toShort (xid - base) else toShort xid

def countsXmin (multi : Bool) (tuple : Tuple) : Bool :=
  !multi && !tuple.xminFrozen && transactionIdIsNormal tuple.xmin

def countsXmax (multi : Bool) (tuple : Tuple) : Bool :=
  transactionIdIsNormal tuple.xmax && tuple.xmaxIsMulti == multi

def xidMinMaxStep (multi : Bool) (found : Option (Nat × Nat)) (item : Option Tuple) : Option (Nat × Nat) :=
  match item with
  | none => found
  | some tuple =>
    let found := if countsXmin multi tuple then observe found tuple.xmin else found
    if countsXmax multi tuple then observe found tuple.xmax else found

def heapPageXidMinMax (page : Page) (multi : Bool) : Option (Nat × Nat) :=
  page.items.foldl (xidMinMaxStep multi) none

def shiftTuple (multi : Bool) (delta : Int) (tuple : Tuple) : Tuple :=
  { tuple with
    xmin := if countsXmin multi tuple then toShort (tuple.xmin - delta) else tuple.xmin
    xmax := if countsXmax multi tuple then toShort (tuple.xmax - delta) else tuple.xmax }

def heapPageShiftBase (page : Page) (multi : Bool) (delta : Int) : Page × Int :=
  let base := page.base multi
  let delta := clampDelta base delta
  ({ page with items := page.items.map (Option.map (shiftTuple multi delta)) }.setBase multi
    (toUInt64 (base + delta)), delta)

structure XlHeapBaseShift where
  multi : Bool
  delta : Int

def heapXlogBaseShift (page : Page) (xlrec : XlHeapBaseShift) : Page :=
  (heapPageShiftBase page xlrec.multi xlrec.delta).1

-- What the functions read beside the page. Pruning and freezing treat each item for itself.
structure Env where
  needWal : Bool
  recentXmin : Nat
  freezeItem : Nat → Option Tuple → Option Tuple

def freezeSingleHeapPage (env : Env) (page : Page) : Page :=
  { page with items := page.items.mapIdx env.freezeItem }

inductive Outcome where
  | returned (before page : Page) (logged : Option XlHeapBaseShift)
  | cannotFit

def shiftBase (needWal : Bool) (page : Page) (multi : Bool) (delta : Int) : Outcome :=
  let (page', delta) := heapPageShiftBase page multi delta
  .returned page page' (if needWal then some ⟨multi, delta⟩ else none)

-- One round of the loop; none when the page has to be frozen first.
def prepareRound (env : Env) (page : Page) (xid : Nat) (multi : Bool) : Option Outcome :=
  let base := page.base multi
  if fitsBase base xid then
    some (.returned page page none)
  else if page.items = [] ∧ page.compressed = false ∧ multi = false
      ∧ toUInt64 (base + firstNormalTransactionId) ≤ xid then
    some (.returned page { page with pdXidBase := resetBase env.recentXmin } none)
  else
    (shiftOf base xid (heapPageXidMinMax page multi)).map (shiftBase env.needWal page multi)

def heapPagePrepareForXid (env : Env) (page : Page) (xid : Nat) (multi : Bool) : Outcome :=
  match prepareRound env page xid multi with
  | some outcome => outcome
  | none =>
    match prepareRound env (freezeSingleHeapPage env page) xid multi with
    | some outcome => outcome
    | none => .cannotFit

def rewritePagePrepareForXid (page : Page) (xid : Nat) (multi : Bool) : Outcome :=
  if !transactionIdIsNormal xid then
    .returned page page none
  else if fitsBase (page.base multi) xid then
    .returned page page none
  else
    match heapPageXidMinMax page multi with
    | none => .returned page (page.setBase multi (toUInt64 (xid - firstNormalTransactionId))) none
    | some (min, max) =>
      match shiftFor (page.base multi) xid min max with
      | none => .cannotFit
      | some delta => shiftBase false page multi delta

def heapChangeXidbaseAfterFreeze (env : Env) (page : Page) : Outcome :=
  let base := page.pdXidBase
  let xid := env.recentXmin
  match heapPageXidMinMax page false with
  | none =>
    shiftBase env.needWal page false (toInt64 (toUInt64 ((xid : Int) - firstNormalTransactionId - base)))
  | some (min, _) =>
    if xid < toUInt64 ((base : Int) + maxShortTransactionId) then
      let xidmin := if xid > min then min else xid
      shiftBase env.needWal page false (toInt64 (toUInt64 ((xidmin : Int) - firstNormalTransactionId)))
    else
      let freeDelta := toInt64 ((min : Int) - firstNormalTransactionId)
      let requiredDelta := toInt64 (xid - toUInt64 ((base : Int) + maxShortTransactionId))
      if requiredDelta ≤ freeDelta then
        shiftBase env.needWal page false ((freeDelta + requiredDelta).tdiv 2)
      else
        .returned page page none

end XidBase

end Heap

import Mathlib.Data.List.Basic
import Mathlib.Algebra.Group.Nat.Defs

/-!
This module contains the implementation of the delta table of the in-memory column store, from
`imcstore_delta.cpp` and `imcstore_delta.h`.

The cells of the linked list `pages` are modelled by their positions in it: a `ListCell *` is
`some` of a position and NULL is `none`.
-/

abbrev TransactionId := UInt64

structure ItemPointerData where
  blockNumber : UInt32
  offset : UInt16
  deriving DecidableEq

structure DeltaElement where
  ctid : ItemPointerData
  xid : TransactionId
  deriving DecidableEq

def defaultDeltapageSize : Nat := 8192

-- `sizeof(DeltaElement)` is 16.
def defaultDeltapageElements : Nat := defaultDeltapageSize / 16

-- `IMCSTORE_MAX_ROW_PER_CU / 3`, the other argument of the `Min`, is far larger.
def autoVacuumTriggerLimit : UInt32 := UInt32.ofNat (defaultDeltapageElements * 10)

structure DeltaPage where
  data : Nat → DeltaElement
  used : Nat

namespace DeltaPage

-- The constructor leaves `data` uninitialised; no slot from `used` on is ever read.
def new : DeltaPage where
  data _ := ⟨⟨0, 0⟩, 0⟩
  used := 0

def isFull (page : DeltaPage) : Bool := page.used ≥ defaultDeltapageElements

def insert (page : DeltaPage) (elem : DeltaElement) : DeltaPage where
  data := Function.update page.data page.used elem
  used := page.used + 1

end DeltaPage

structure DeltaTable where
  pages : List DeltaPage
  rowNumber : UInt32
  vacuumInProcess : Bool

namespace DeltaTable

def empty : DeltaTable where
  pages := []
  rowNumber := 0
  vacuumInProcess := false

def lfirst (pages : List DeltaPage) (cell : Nat) : DeltaPage := pages.getD cell DeltaPage.new

def lnext (pages : List DeltaPage) (cell : Nat) : Option Nat :=
  if cell + 1 < pages.length then some (cell + 1) else none

def listHead (pages : List DeltaPage) : Option Nat :=
  if 0 < pages.length then some 0 else none

structure VacuumState where
  pages : List DeltaPage
  currPage : Option Nat

/--
The loop of `DeltaPage::Vacuum` over the elements `i`, `i + 1`, ... of the page in the cell `self`,
with `todo` of them left and `page` the cell that is written. It also returns `restRecords`.
-/
def vacuumPage.go (xid : TransactionId) (self : Nat) (todo i : Nat) (page : Nat)
    (pages : List DeltaPage) (restRecords : Nat) : VacuumState × Nat :=
  match todo with
  | 0 => (⟨pages, some page⟩, restRecords)
  | todo + 1 =>
    let elem := (lfirst pages self).data i
    if elem.xid < xid then
      go xid self todo (i + 1) page pages restRecords
    else
      let pages := pages.modify page (·.insert elem)
      if (lfirst pages page).isFull then
        match lnext pages page with
        | none => (⟨pages, none⟩, restRecords + 1)
        | some page => go xid self todo (i + 1) page pages (restRecords + 1)
      else
        go xid self todo (i + 1) page pages (restRecords + 1)

/--
`DeltaPage::Vacuum` for the page in the cell `self`.
-/
def vacuumPage (xid : TransactionId) (self : Nat) (st : VacuumState) : VacuumState × Nat :=
  match st.currPage with
  | none => (st, 0)
  | some page =>
    let currentUsedElements := (lfirst st.pages self).used
    let pages := st.pages.modify self (fun p => { p with used := 0 })
    vacuumPage.go xid self currentUsedElements 0 page pages 0

-- The `foreach` loop of `DeltaTable::Vacuum` over the cells `cell`, `cell + 1`, ...
def vacuum.go (xid : TransactionId) (todo cell : Nat) (st : VacuumState) (rowNumber : UInt32)
    : VacuumState × UInt32 :=
  match todo with
  | 0 => (st, rowNumber)
  | todo + 1 =>
    let (st, rest) := vacuumPage xid cell st
    go xid todo (cell + 1) st (rowNumber + UInt32.ofNat rest)

def vacuum (table : DeltaTable) (xid : TransactionId) : DeltaTable :=
  let (st, rowNumber) :=
    vacuum.go xid table.pages.length 0 ⟨table.pages, listHead table.pages⟩ 0
  let pages :=
    match st.currPage with
    | none => st.pages
    -- every cell behind `currPage` is deleted
    | some cell => st.pages.take (cell + 1)
  { pages, rowNumber, vacuumInProcess := false }

/--
`pushed` is the result of `IMCStoreVacuumPushWork`, which is only called when the other conditions
of the trigger hold.
-/
def insert (table : DeltaTable) (elem : DeltaElement) (pushed : Bool) : DeltaTable :=
  let pages := if table.pages.isEmpty then [DeltaPage.new] else table.pages
  let pages :=
    if (lfirst pages (pages.length - 1)).isFull then pages ++ [DeltaPage.new] else pages
  let pages := pages.modify (pages.length - 1) (·.insert elem)
  let rowNumber := table.rowNumber + 1
  let trigger := !table.vacuumInProcess && rowNumber > autoVacuumTriggerLimit && pushed
  { pages, rowNumber, vacuumInProcess := table.vacuumInProcess || trigger }

end DeltaTable

-- `currentPage` is modelled by the cells from it on.
structure DeltaTableIterator where
  currentPage : List DeltaPage
  currentRow : Nat

def DeltaTable.scanInit (table : DeltaTable) : DeltaTableIterator where
  currentPage := table.pages
  currentRow := 0

namespace DeltaTableIterator

/--
The pointer that `GetNext` returns is modelled by the element it points into.
-/
def getNext.go (pages : List DeltaPage) (row : Nat) : Option (DeltaElement × DeltaTableIterator) :=
  match pages with
  | [] => none
  | page :: rest =>
    if row < page.used then
      some (page.data row, ⟨page :: rest, row + 1⟩)
    else
      go rest 0

def getNext (it : DeltaTableIterator) : Option (DeltaElement × DeltaTableIterator) :=
  getNext.go it.currentPage it.currentRow

-- Calling `GetNext` until it returns NULL yields these elements.
inductive Enumerates : DeltaTableIterator → List DeltaElement → Prop where
  | done : it.getNext = none → Enumerates it []
  | next : it.getNext = some (elem, it') → Enumerates it' elems → Enumerates it (elem :: elems)

end DeltaTableIterator

namespace DeltaTable

inductive Op where
  | insert (elem : DeltaElement) (pushed : Bool)
  | vacuum (xid : TransactionId)

def step (table : DeltaTable) (op : Op) : DeltaTable :=
  match op with
  | .insert elem pushed => table.insert elem pushed
  | .vacuum xid => table.vacuum xid

def run (ops : List Op) : DeltaTable := ops.foldl step empty

-- What the delta table is for: the changes that are still to be merged, in order.
def specStep (records : List DeltaElement) (op : Op) : List DeltaElement :=
  match op with
  | .insert elem _ => records ++ [elem]
  | .vacuum xid => records.filter (fun elem => elem.xid ≥ xid)

def specRun (ops : List Op) : List DeltaElement := ops.foldl specStep []

end DeltaTable

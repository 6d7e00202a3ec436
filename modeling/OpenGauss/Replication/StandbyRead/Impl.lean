import Mathlib.Logic.Function.Basic

/-!
This module contains the records a standby keeps of the changes of its blocks, and their recycling, from
`lsn_info_proc.cpp` and `block_info_proc.cpp`. The list of the base pages of a block and the list of its LSNs
have the same nodes, since a base page is saved before every record.
-/

namespace StandbyRead

def blcksz : Nat := 8192
def lsnInfoHeadSize : Nat := 64
def lsnInfoNodeSize : Nat := 64
def basePageInfoNodeSize : Nat := 128
-- `LSN_INFO_LIST_HEAD`, which is no position.
def listHead : Nat := 0xFFFFFFFFFFFFFFFF

structure DoubleList where
  next : Nat
  prev : Nat

def DoubleList.init : DoubleList := ⟨listHead, listHead⟩

structure BasePageInfo (Tag : Type) where
  valid : Bool
  lsn : Nat
  basePageList : DoubleList
  curPageLsn : Nat
  nextBasePageLsn : Nat
  tag : Tag
  basePagePosition : Nat

structure BlockMetaInfo where
  valid : Bool
  minLsn : Nat
  maxLsn : Nat
  lsnInfoList : DoubleList
  basePageInfoList : DoubleList

-- The nodes at their positions and the links between their pages, the blocks, what the worker knows of its
-- pages and the counters that all workers share. A page that cannot be read has no nodes.
structure State (Tag : Type) where
  nodes : Nat → Option (BasePageInfo Tag)
  nextLsnInfoPage : Nat → Nat
  blocks : Tag → BlockMetaInfo
  lsnTableNextPosition : Nat
  isRecyclePositionInit : Bool
  lsnTableRecyclePosition : Nat
  basePageRecylePosition : Nat
  recycleLsnPerWorker : Nat
  dispatcherNextLsnInfoPage : Nat
  dispatcherNextBasePage : Nat
  globalRecycleLsnInfoPage : Nat

namespace State

variable {Tag : Type}

def setNode (s : State Tag) (pos : Nat) (node : BasePageInfo Tag) : State Tag :=
  { s with nodes := Function.update s.nodes pos (some node) }

theorem setNode_self (s : State Tag) (pos : Nat) (node : BasePageInfo Tag)
    : (s.setNode pos node).nodes pos = some node :=
  Function.update_self ..

theorem setNode_of_ne (s : State Tag) {pos p : Nat} (node : BasePageInfo Tag) (hne : p ≠ pos)
    : (s.setNode pos node).nodes p = s.nodes p :=
  Function.update_of_ne hne ..

variable [DecidableEq Tag]

def setBlock (s : State Tag) (tag : Tag) (block : BlockMetaInfo) : State Tag :=
  { s with blocks := Function.update s.blocks tag block }

-- The position of a new node, on a new page if the last one has no room for it.
def allocate (s : State Tag) : Nat × State Tag :=
  let insertPos := s.lsnTableNextPosition
  let insertPos :=
    if blcksz - insertPos % blcksz < basePageInfoNodeSize then insertPos + lsnInfoNodeSize else insertPos
  if insertPos % blcksz = 0 then
    let page := s.dispatcherNextLsnInfoPage
    let s := { s with dispatcherNextLsnInfoPage := page + blcksz }
    let s :=
      if s.isRecyclePositionInit then
        { s with nextLsnInfoPage := Function.update s.nextLsnInfoPage (insertPos - blcksz) page }
      else
        { s with isRecyclePositionInit := true, lsnTableRecyclePosition := page }
    (page + lsnInfoHeadSize, { s with lsnTableNextPosition := page + lsnInfoHeadSize + basePageInfoNodeSize })
  else
    (insertPos, { s with lsnTableNextPosition := insertPos + basePageInfoNodeSize })

-- `info_list_modify_old_tail` for both lists
def modifyOldTail (s : State Tag) (oldTail insertPos currentPageLsn : Nat) : State Tag :=
  match s.nodes oldTail with
  | none => s
  | some node =>
    s.setNode oldTail
      { node with
        basePageList := { node.basePageList with next := insertPos }
        nextBasePageLsn := currentPageLsn }

def insertBasePageToLsnInfo (s : State Tag) (tag : Tag) (block : BlockMetaInfo)
    (currentPageLsn nextLsn : Nat) : BlockMetaInfo × State Tag :=
  let oldTail := block.basePageInfoList.prev
  let basePagePos := s.dispatcherNextBasePage
  let s := { s with dispatcherNextBasePage := basePagePos + blcksz }
  let (insertPos, s) := s.allocate
  let s := s.setNode insertPos
    { valid := true
      lsn := nextLsn
      basePageList := ⟨listHead, oldTail⟩
      curPageLsn := currentPageLsn
      nextBasePageLsn := 0
      tag
      basePagePosition := basePagePos }
  let s := if oldTail ≠ listHead then s.modifyOldTail oldTail insertPos currentPageLsn else s
  let head := if block.basePageInfoList.next = listHead then insertPos else block.basePageInfoList.next
  let lsnHead := if block.lsnInfoList.next = listHead then insertPos else block.lsnInfoList.next
  ({ block with lsnInfoList := ⟨lsnHead, insertPos⟩, basePageInfoList := ⟨head, insertPos⟩ }, s)

def initBlockInfo (maxLsn : Nat) : BlockMetaInfo where
  valid := true
  minLsn := maxLsn
  maxLsn := maxLsn
  lsnInfoList := DoubleList.init
  basePageInfoList := DoubleList.init

def insertLsnToBlockInfo (s : State Tag) (tag : Tag) (currentPageLsn nextLsn : Nat) : State Tag :=
  let block := s.blocks tag
  let block :=
    if !block.valid || block.lsnInfoList.prev < s.globalRecycleLsnInfoPage then
      initBlockInfo currentPageLsn
    else
      block
  let (block, s) := s.insertBasePageToLsnInfo tag block currentPageLsn nextLsn
  s.setBlock tag { block with maxLsn := nextLsn }

-- The base page is kept for the readers from `recycleLsn` on.
def keeps (opt : Bool) (recycleLsn : Nat) (node : BasePageInfo Tag) : Bool :=
  if opt then
    node.nextBasePageLsn ≠ 0 && recycleLsn < node.nextBasePageLsn
  else
    node.lsn ≠ 0 && recycleLsn ≤ node.lsn

-- In a list the last base page is kept, too.
def keepsInList (opt : Bool) (recycleLsn : Nat) (node : BasePageInfo Tag) : Bool :=
  if opt then
    node.nextBasePageLsn = 0 || recycleLsn < node.nextBasePageLsn
  else
    node.lsn ≠ 0 && recycleLsn ≤ node.lsn

def recycleOneLsnInfoList (opt : Bool) (recycleLsn : Nat)
    : Nat → State Tag → Nat → Nat → Nat → Option (Nat × Nat × State Tag)
  | 0, _, _, _, _ => none
  | fuel + 1, s, pos, minPos, minLsn =>
    if pos = listHead then
      some (minPos, minLsn, s)
    else
      match s.nodes pos with
      | none => none
      | some node =>
        if keepsInList opt recycleLsn node then
          some (pos, node.curPageLsn, s)
        else
          recycleOneLsnInfoList opt recycleLsn fuel (s.setNode pos { node with valid := false })
            node.basePageList.next pos node.curPageLsn

inductive RecyleState where
  | none
  | update
  | all
  deriving DecidableEq

def recycleBlockInfo (opt : Bool) (fuel : Nat) (s : State Tag) (tag : Tag)
    (nextBasePageLsn recycleLsn : Nat) : Option (RecyleState × State Tag) :=
  let block := s.blocks tag
  if !block.valid then
    some (.all, s)
  else if block.maxLsn < recycleLsn then
    some (.all, s.setBlock tag { block with valid := false })
  else if nextBasePageLsn ≠ 0 then
    match recycleOneLsnInfoList opt recycleLsn fuel s block.basePageInfoList.next listHead 0 with
    | none => none
    | some (minPos, minLsn, s) =>
      if block.basePageInfoList.next ≠ minPos then
        some (.update, s.setBlock tag
          { block with
            minLsn
            lsnInfoList := { block.lsnInfoList with next := minPos }
            basePageInfoList := { block.basePageInfoList with next := minPos } })
      else
        some (.none, s)
  else
    some (.none, s)

def invalidBasePageList : Nat → State Tag → Nat → Option (State Tag)
  | 0, _, _ => none
  | fuel + 1, s, pos =>
    if pos = listHead then
      some s
    else
      match s.nodes pos with
      | none => none
      | some node =>
        if !node.valid then
          some s
        else
          invalidBasePageList fuel (s.setNode pos { node with valid := false }) node.basePageList.next

def updateRecycleLsnPerWorker (s : State Tag) (basePageLsn : Nat) : State Tag :=
  if s.recycleLsnPerWorker = 0 ∨ s.recycleLsnPerWorker < basePageLsn then
    { s with recycleLsnPerWorker := basePageLsn }
  else
    s

-- The nodes at the bits `bit` to 127 of the page at `page`; the result tells whether all were recycled.
def recycleOneLsnInfoPage (opt : Bool) (fuel : Nat) (recycleLsn page : Nat)
    : Nat → Nat → Nat → State Tag → Option (Bool × Nat × State Tag)
  | 0, _, basePagePosition, s => some (true, basePagePosition, s)
  | bits + 1, bit, basePagePosition, s =>
    match s.nodes (page + bit * lsnInfoNodeSize) with
    | none => recycleOneLsnInfoPage opt fuel recycleLsn page bits (bit + 1) basePagePosition s
    | some node =>
      if !node.valid then
        recycleOneLsnInfoPage opt fuel recycleLsn page bits (bit + 1) basePagePosition s
      else
        let basePageLsn := if node.curPageLsn = 0 then node.lsn else node.curPageLsn
        if keeps opt recycleLsn node then
          some (false, node.basePagePosition, s.updateRecycleLsnPerWorker basePageLsn)
        else
          match s.recycleBlockInfo opt fuel node.tag node.nextBasePageLsn recycleLsn with
          | none => none
          | some (.all, s) =>
            match invalidBasePageList fuel
                (s.setNode (page + bit * lsnInfoNodeSize) { node with valid := false }) node.basePageList.next with
            | none => none
            | some s =>
              recycleOneLsnInfoPage opt fuel recycleLsn page bits (bit + 1) node.basePagePosition s
          | some (.none, s) =>
            some (false, node.basePagePosition, s.updateRecycleLsnPerWorker basePageLsn)
          | some (.update, s) =>
            recycleOneLsnInfoPage opt fuel recycleLsn page bits (bit + 1) node.basePagePosition s

def recyleRatio : Nat := 32

-- The bits 1 to 127 of the map of a page stand for its nodes.
def recycleLoop (opt : Bool) (recycleLsn : Nat)
    : Nat → State Tag → Nat → Nat → Option (Nat × State Tag)
  | 0, _, _, _ => none
  | fuel + 1, s, basePagePosition, nextPagePos =>
    if s.lsnTableRecyclePosition + blcksz * recyleRatio < nextPagePos then
      match recycleOneLsnInfoPage opt fuel recycleLsn s.lsnTableRecyclePosition 127 1 basePagePosition s with
      | none => none
      | some (false, basePagePosition, s) => some (basePagePosition, s)
      | some (true, basePagePosition, s) =>
        let nextPagePos := s.nextLsnInfoPage s.lsnTableRecyclePosition
        recycleLoop opt recycleLsn fuel { s with lsnTableRecyclePosition := nextPagePos } basePagePosition
          nextPagePos
    else
      some (basePagePosition, s)

def standbyReadRecylePerWorkers (opt : Bool) (fuel : Nat) (s : State Tag) (recycleLsn : Nat)
    : Option (State Tag) :=
  if !s.isRecyclePositionInit then
    some s
  else
    match recycleLoop opt recycleLsn fuel s s.basePageRecylePosition s.lsnTableRecyclePosition with
    | none => none
    | some (basePagePosition, s) => some { s with basePageRecylePosition := basePagePosition }

-- From the last base page back to the first one, `basePagePos` is the last one found.
def getNearestBasePagePos (s : State Tag) (list : DoubleList) (readLsn : Nat) : Nat → Nat → Nat → Option Nat
  | 0, _, _ => none
  | fuel + 1, pos, basePagePos =>
    if pos = listHead then
      some basePagePos
    else
      match s.nodes pos with
      | none => none
      | some node =>
        if node.lsn < readLsn then
          some basePagePos
        else if list.next = pos then
          some node.basePagePosition
        else
          getNearestBasePagePos s list readLsn fuel node.basePageList.prev node.basePagePosition

end State

end StandbyRead

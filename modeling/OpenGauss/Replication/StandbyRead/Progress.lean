import Mathlib.Logic.Function.Iterate
import Mathlib.Logic.Relation
import OpenGauss.Replication.StandbyRead.Impl

/-!
This module shows that the recycling of the pages of a worker never leaves the first page of the worker, and when this
is progress enough.
-/

namespace StandbyRead

namespace State

variable {Tag : Type} [DecidableEq Tag] (opt : Bool) (recycleLsn : Nat)

def MustKeep (s : State Tag) (node : BasePageInfo Tag) : Prop :=
  node.valid = true ∧ (keeps opt recycleLsn node = true
    ∨ ∃ fuel s', s.recycleBlockInfo opt fuel node.tag node.nextBasePageLsn recycleLsn = some (.none, s'))

def PageKept (s : State Tag) (page : Nat) : Prop :=
  ∃ bit node, 1 ≤ bit ∧ bit < 128 ∧ s.nodes (page + bit * lsnInfoNodeSize) = some node
    ∧ s.MustKeep opt recycleLsn node

def PagesFollow (s : State Tag) : Nat → Nat → Prop
  | 0, _ => True
  | n + 1, page => s.nextLsnInfoPage page ≠ 0 ∧ s.PagesFollow n (s.nextLsnInfoPage page)

-- The base pages that are still needed are not passed.
def BasePagesKept (s : State Tag) : Prop :=
  ∀ pos node, s.nodes pos = some node → s.MustKeep opt recycleLsn node →
    s.basePageRecylePosition ≤ node.basePagePosition

structure Progress (s s' : State Tag) : Prop where
  stops : s'.PageKept opt recycleLsn s'.lsnTableRecyclePosition
    ∨ ¬ s'.PagesFollow (recyleRatio + 1) s'.lsnTableRecyclePosition
  passed : ∃ n, s'.lsnTableRecyclePosition = s.nextLsnInfoPage^[n] s.lsnTableRecyclePosition
    ∧ ∀ i < n, ¬ s.PageKept opt recycleLsn (s.nextLsnInfoPage^[i] s.lsnTableRecyclePosition)
  basePages : s.BasePagesKept opt recycleLsn → s'.BasePagesKept opt recycleLsn

-- The next page is taken to be the first one, so the guard is false at once.
theorem standbyReadRecylePerWorkers_eq (fuel : Nat) (s : State Tag)
    : s.standbyReadRecylePerWorkers opt (fuel + 1) recycleLsn = some s := by
  unfold standbyReadRecylePerWorkers recycleLoop
  rw [if_neg (Nat.not_lt.mpr (Nat.le_add_right s.lsnTableRecyclePosition (blcksz * recyleRatio)))]
  split
  . rfl
  . rfl

theorem progress_self_iff (s : State Tag)
    : Progress opt recycleLsn s s ↔ s.PageKept opt recycleLsn s.lsnTableRecyclePosition
        ∨ ¬ s.PagesFollow (recyleRatio + 1) s.lsnTableRecyclePosition := by
  constructor
  . intro hprogress
    exact hprogress.stops
  . intro hstops
    refine ⟨hstops, ?_, id⟩
    exact ⟨0, rfl, fun i hi => absurd hi (Nat.not_lt_zero i)⟩

-- What happens to the table of a worker: it saves base pages and is called to recycle them, while other workers take
-- pages, and files and blocks are dropped.
inductive WorkerStep : State Tag → State Tag → Prop where
  | insert (s : State Tag) (tag : Tag) (currentPageLsn nextLsn : Nat)
    : WorkerStep s (s.insertLsnToBlockInfo tag currentPageLsn nextLsn)
  | recycle (s s' : State Tag) (opt : Bool) (fuel recycleLsn : Nat)
    : s.standbyReadRecylePerWorkers opt fuel recycleLsn = some s' → WorkerStep s s'
  | others (s : State Tag) (nodes : Nat → Option (BasePageInfo Tag)) (blocks : Tag → BlockMetaInfo)
    (dispatcherNextLsnInfoPage dispatcherNextBasePage globalRecycleLsnInfoPage : Nat)
    : WorkerStep s
        { s with
          nodes
          blocks
          dispatcherNextLsnInfoPage
          dispatcherNextBasePage
          globalRecycleLsnInfoPage }

structure AtPage (s : State Tag) (page : Nat) : Prop where
  init : s.isRecyclePositionInit = true
  position : s.lsnTableRecyclePosition = page

variable {s s' : State Tag} {page : Nat}

omit [DecidableEq Tag] in
theorem AtPage.allocate (h : s.AtPage page)
    : s.allocate.2.AtPage page := by
  simp only [State.allocate, h.init, if_true]
  generalize (if blcksz - s.lsnTableNextPosition % blcksz < basePageInfoNodeSize then
    s.lsnTableNextPosition + lsnInfoNodeSize else s.lsnTableNextPosition) = insertPos
  split
  . exact ⟨rfl, h.position⟩
  . exact ⟨rfl, h.position⟩

omit [DecidableEq Tag] in
theorem AtPage.insertBasePageToLsnInfo (h : s.AtPage page) (tag : Tag) (block : BlockMetaInfo)
    (currentPageLsn nextLsn : Nat)
    : (s.insertBasePageToLsnInfo tag block currentPageLsn nextLsn).2.AtPage page := by
  have hpage : ({ s with dispatcherNextBasePage := s.dispatcherNextBasePage + blcksz } : State Tag).AtPage page :=
    ⟨h.init, h.position⟩
  have halloc := hpage.allocate
  unfold State.insertBasePageToLsnInfo modifyOldTail
  dsimp only
  split
  . split
    . exact ⟨halloc.init, halloc.position⟩
    . exact ⟨halloc.init, halloc.position⟩
  . exact ⟨halloc.init, halloc.position⟩

theorem AtPage.insertLsnToBlockInfo (h : s.AtPage page) (tag : Tag) (currentPageLsn nextLsn : Nat)
    : (s.insertLsnToBlockInfo tag currentPageLsn nextLsn).AtPage page := by
  unfold State.insertLsnToBlockInfo
  have hinsert := fun block => h.insertBasePageToLsnInfo tag block currentPageLsn nextLsn
  exact ⟨(hinsert _).init, (hinsert _).position⟩

theorem WorkerStep.atPage (h : s.AtPage page) (hstep : WorkerStep s s')
    : s'.AtPage page := by
  cases hstep with
  | insert tag currentPageLsn nextLsn => exact h.insertLsnToBlockInfo tag currentPageLsn nextLsn
  | recycle _ opt fuel recycleLsn hrecycle =>
    cases fuel with
    | zero => simp [standbyReadRecylePerWorkers, h.init, recycleLoop] at hrecycle
    | succ fuel =>
      rw [standbyReadRecylePerWorkers_eq, Option.some.injEq] at hrecycle
      rw [← hrecycle]
      exact h
  | others nodes blocks => exact ⟨h.init, h.position⟩

theorem atPage_of_run (h : s.AtPage page) (hrun : Relation.ReflTransGen WorkerStep s s')
    : s'.AtPage page := by
  induction hrun with
  | refl => exact h
  | tail _ hstep ih => exact hstep.atPage ih

/--
The recycling never leaves the first page of a worker.
-/
theorem standbyReadRecylePerWorkers_never_recycles (hinit : s.isRecyclePositionInit = true)
    (hrun : Relation.ReflTransGen WorkerStep s s') (fuel : Nat)
    : s'.standbyReadRecylePerWorkers opt (fuel + 1) recycleLsn = some s'
      ∧ (Progress opt recycleLsn s' s' ↔ s'.PageKept opt recycleLsn s.lsnTableRecyclePosition
        ∨ ¬ s'.PagesFollow (recyleRatio + 1) s.lsnTableRecyclePosition) := by
  have hpage := atPage_of_run ⟨hinit, rfl⟩ hrun
  apply And.intro (standbyReadRecylePerWorkers_eq opt recycleLsn fuel s')
  rw [progress_self_iff, hpage.position]

def oldPages : State Unit where
  nodes pos :=
    if pos % 8192 = 64 ∧ pos / 8192 < 40 then
      some
        { valid := true
          lsn := 100 + pos / 8192
          basePageList :=
            { next := if pos / 8192 = 39 then listHead else pos + 8192
              prev := if pos / 8192 = 0 then listHead else pos - 8192 }
          curPageLsn := 99 + pos / 8192
          nextBasePageLsn := if pos / 8192 = 39 then 0 else 100 + pos / 8192
          tag := ()
          basePagePosition := pos / 8192 * 8192 }
    else
      none
  nextLsnInfoPage page := if page / 8192 < 39 then page + 8192 else 0
  blocks _ :=
    { valid := true
      minLsn := 99
      maxLsn := 139
      lsnInfoList := ⟨64, 39 * 8192 + 64⟩
      basePageInfoList := ⟨64, 39 * 8192 + 64⟩ }
  lsnTableNextPosition := 39 * 8192 + 192
  isRecyclePositionInit := true
  lsnTableRecyclePosition := 0
  basePageRecylePosition := 0
  recycleLsnPerWorker := 0
  dispatcherNextLsnInfoPage := 40 * 8192
  dispatcherNextBasePage := 40 * 8192
  globalRecycleLsnInfoPage := 0

-- After a call and the saving of one more base page.
theorem standbyReadRecylePerWorkers_never_recycles_oldPages
    : (oldPages.insertLsnToBlockInfo () 139 140).standbyReadRecylePerWorkers false 1 1000
        = some (oldPages.insertLsnToBlockInfo () 139 140)
      ∧ (Progress false 1000 (oldPages.insertLsnToBlockInfo () 139 140) (oldPages.insertLsnToBlockInfo () 139 140)
        ↔ (oldPages.insertLsnToBlockInfo () 139 140).PageKept false 1000 0
          ∨ ¬ (oldPages.insertLsnToBlockInfo () 139 140).PagesFollow (recyleRatio + 1) 0) := by
  have hrun : Relation.ReflTransGen WorkerStep oldPages (oldPages.insertLsnToBlockInfo () 139 140) := by
    apply Relation.ReflTransGen.tail (b := oldPages)
    . apply Relation.ReflTransGen.single
      exact WorkerStep.recycle _ _ false 1 1000 (standbyReadRecylePerWorkers_eq false 1000 0 oldPages)
    . exact WorkerStep.insert oldPages () 139 140
  exact standbyReadRecylePerWorkers_never_recycles false 1000 (by rfl) hrun 0

theorem standbyReadRecylePerWorkers_no_progress
    : oldPages.standbyReadRecylePerWorkers false 1 1000 = some oldPages
      ∧ ¬ Progress false 1000 oldPages oldPages := by
  apply And.intro (standbyReadRecylePerWorkers_eq false 1000 0 oldPages)
  intro hprogress
  rcases hprogress.stops with ⟨bit, node, -, -, hnode, hkeep⟩ | hfollow
  . have hlsn : node.lsn < 1000 := by
      unfold oldPages at hnode
      dsimp only at hnode
      rw [Option.ite_none_right_eq_some, Option.some.injEq] at hnode
      rw [← hnode.right]
      dsimp only
      omega
    rcases hkeep.right with hkeeps | ⟨fuel, s', hblock⟩
    . simp only [keeps, Bool.false_eq_true, if_false, Bool.and_eq_true, decide_eq_true_eq] at hkeeps
      omega
    . exact absurd hblock (by simp [recycleBlockInfo, oldPages])
  . exact hfollow (by simp [PagesFollow, recyleRatio, oldPages])

end State

end StandbyRead

import Mathlib.Logic.Relation
import OpenGauss.Replication.StandbyRead.Insertion

/-!
This module shows that a reader finds the base page saved before the first change it must not see, after every run
of recording, recycling and dropping pages.
-/

open List

namespace StandbyRead

variable {Tag : Type} {live : Tag → List Entry}

structure Trace (Tag : Type) where
  state : State Tag
  history : Tag → List Record
  passed : Nat → Prop
  recycled : List Nat

structure Initial (t : Trace Tag) : Prop where
  nodes : t.state.nodes = fun _ => none
  pages : t.state.nextLsnInfoPage = fun _ => 0
  blocks : ∀ tag, (t.state.blocks tag).valid = false
  next : t.state.lsnTableNextPosition = 0 ∧ t.state.isRecyclePositionInit = false
  counters : t.state.dispatcherNextLsnInfoPage % blcksz = 0 ∧ t.state.dispatcherNextBasePage % blcksz = 0
  globalRecycle : t.state.globalRecycleLsnInfoPage = 0
  history : t.history = fun _ => []
  passed : t.passed = fun _ => False
  recycled : t.recycled = []

-- What recycling forgot is older than one of its LSNs.
structure Invariant (t : Trace Tag) (live : Tag → List Entry) : Prop where
  allocated : t.state.Allocated t.passed
  blocked : ∀ tag, t.state.Blocked t.passed tag (live tag)
  history : ∀ tag, ∃ older, t.history tag = older ++ (live tag).map Entry.toRecord
    ∧ ∀ record ∈ older, ∃ recycleLsn ∈ t.recycled, record.lsn < recycleLsn
  basePages : ∀ tag, ∀ record ∈ t.history tag, record.basePage % blcksz = 0

variable {t : Trace Tag}

theorem Initial.invariant (h : Initial t) : Invariant t (fun _ => []) where
  allocated := by
    constructor
    . rw [h.next.right, h.next.left]
      rfl
    . exact h.counters
    . intro page hpage
      rw [h.pages] at hpage
      exact absurd rfl hpage
    . intro page hpage
      rw [h.passed] at hpage
      exact hpage.elim
    . intro pos node hnode
      rw [h.nodes] at hnode
      exact absurd hnode (by simp)
    . rw [h.globalRecycle]
      exact Nat.zero_le _
    . intro pos node hnode
      rw [h.nodes] at hnode
      exact absurd hnode (by simp)
  blocked tag := by
    have hinvalid := h.blocks tag
    exact ⟨⟨0, trivial⟩, by simp, by simp, by simp, by simp [hinvalid], by simp [hinvalid]⟩
  history tag := ⟨[], by rw [h.history]; rfl, by simp⟩
  basePages tag record hrecord := by
    rw [h.history] at hrecord
    exact absurd hrecord (by simp)

theorem Invariant.find (h : Invariant t live) (tag : Tag)
    (readLsn : Nat) (hread : ∀ recycleLsn ∈ t.recycled, recycleLsn ≤ readLsn)
    : (t.history tag).find? (fun record => readLsn ≤ record.lsn)
        = ((live tag).find? (fun e => readLsn ≤ e.lsn)).map Entry.toRecord := by
  rcases h.history tag with ⟨older, hhistory, hold⟩
  have hnone : older.find? (fun record => readLsn ≤ record.lsn) = none := by
    rw [find?_eq_none]
    intro record hrecord
    rcases hold record hrecord with ⟨recycleLsn, hmem, hlt⟩
    have hle := hread recycleLsn hmem
    simp only [decide_eq_true_eq]
    omega
  rw [hhistory, find?_append, hnone, Option.none_or, find?_map]
  rfl

variable [DecidableEq Tag]

def Trace.insert (t : Trace Tag) (tag : Tag) (currentPageLsn nextLsn : Nat) : Trace Tag :=
  { t with
    state := t.state.insertLsnToBlockInfo tag currentPageLsn nextLsn
    history := Function.update t.history tag (t.history tag ++ [⟨nextLsn, t.state.dispatcherNextBasePage⟩]) }

-- The page is passed if all of it is recycled and it is not the last one.
def Trace.recycle (t : Trace Tag) (recycleLsn basePagePosition : Nat) (all : Bool) (s : State Tag)
    : Trace Tag :=
  { t with
    state :=
      if all ∧ s.nextLsnInfoPage s.lsnTableRecyclePosition ≠ 0 then
        { s with
          basePageRecylePosition := basePagePosition
          lsnTableRecyclePosition := s.nextLsnInfoPage s.lsnTableRecyclePosition }
      else
        { s with basePageRecylePosition := basePagePosition }
    passed := fun page => t.passed page
      ∨ all = true ∧ s.nextLsnInfoPage s.lsnTableRecyclePosition ≠ 0 ∧ page = s.lsnTableRecyclePosition
    recycled := recycleLsn :: t.recycled }

inductive Step : Trace Tag → Trace Tag → Prop where
  | insert (t : Trace Tag) (tag : Tag) (currentPageLsn nextLsn : Nat)
    : nextLsn ≠ 0 → (∀ record ∈ t.history tag, record.lsn ≤ nextLsn) →
      Step t (t.insert tag currentPageLsn nextLsn)
  | recycle (t : Trace Tag) (recycleLsn fuel basePagePosition : Nat) (all : Bool) (s : State Tag)
    : State.recycleOneLsnInfoPage false fuel recycleLsn t.state.lsnTableRecyclePosition 127 1
        t.state.basePageRecylePosition t.state = some (all, basePagePosition, s) →
      Step t (t.recycle recycleLsn basePagePosition all s)
  | drop (t : Trace Tag) (nodes : Nat → Option (BasePageInfo Tag))
    : (∀ pos, nodes pos = t.state.nodes pos ∨ t.passed (pageOf pos) ∧ nodes pos = none) →
      Step t { t with state := { t.state with nodes } }
  -- Other workers take pages, and all workers have passed the pages below the global position.
  | others (t : Trace Tag) (lsnInfoPages basePages : Nat)
    : Step t
        { t with
          state :=
          { t.state with
            dispatcherNextLsnInfoPage := t.state.dispatcherNextLsnInfoPage + lsnInfoPages * blcksz
            dispatcherNextBasePage := t.state.dispatcherNextBasePage + basePages * blcksz } }
  | globalRecycle (t : Trace Tag) (page : Nat)
    : page ≤ t.state.lsnTableNextPosition →
      (∀ pos node, t.state.nodes pos = some node → pos < page → t.passed (pageOf pos)) →
      Step t { t with state := { t.state with globalRecycleLsnInfoPage := page } }

def Reachable (t : Trace Tag) : Prop :=
  ∃ start, Initial start ∧ Relation.ReflTransGen Step start t

theorem Invariant.insert (h : Invariant t live) (tag : Tag)
    (currentPageLsn nextLsn : Nat) (hlsn : nextLsn ≠ 0) (hlsns : ∀ record ∈ t.history tag, record.lsn ≤ nextLsn)
    : ∃ live', Invariant (t.insert tag currentPageLsn nextLsn) live' := by
  rcases h.history tag with ⟨older, hhistory, hold⟩
  rcases State.insertLsnToBlockInfo_spec h.allocated live h.blocked tag currentPageLsn nextLsn hlsn
    (by
      intro e he
      apply hlsns e.toRecord
      rw [hhistory]
      exact mem_append_right older (mem_map_of_mem he)) with ⟨insertPos, halloc, hblocked⟩
  unfold Trace.insert
  refine ⟨_, halloc, hblocked, ?_, ?_⟩
  . intro other
    by_cases hother : other = tag
    . subst hother
      refine ⟨older, ?_, hold⟩
      simp [hhistory]
    . simpa only [Function.update_of_ne hother] using h.history other
  . intro other record hrecord
    by_cases hother : other = tag
    . subst hother
      simp only [Function.update_self, mem_append, mem_singleton] at hrecord
      rcases hrecord with hmem | heq
      . exact h.basePages other record hmem
      . rw [heq]
        exact h.allocated.counters.right
    . simp only [Function.update_of_ne hother] at hrecord
      exact h.basePages other record hrecord

theorem Invariant.recycle (h : Invariant t live)
    (recycleLsn fuel basePagePosition : Nat) (all : Bool) (s : State Tag)
    (hrun : State.recycleOneLsnInfoPage false fuel recycleLsn t.state.lsnTableRecyclePosition 127 1
      t.state.basePageRecylePosition t.state = some (all, basePagePosition, s))
    : ∃ live', Invariant (t.recycle recycleLsn basePagePosition all s) live' := by
  rcases State.recycleOneLsnInfoPage_spec fuel recycleLsn _ 127 s all basePagePosition 1 _ t.state live h.allocated
    h.blocked hrun with ⟨live', hrec, hfree⟩
  have halloc := h.allocated.frame hrec.frame
  have hpage : ∀ tag, ∀ e ∈ live' tag, all = true → pageOf e.pos ≠ s.lsnTableRecyclePosition := by
    intro tag e he hall heq
    rcases (hrec.blocked tag).node e he with ⟨node, hnode, -⟩
    have halign := (halloc.nodes e.pos node hnode).right
    rw [hrec.frame.recycle] at heq
    apply hfree hall tag e he (e.pos % 8192 / 64) (by omega) (by omega)
    rw [← heq]
    simp only [pageOf, blcksz, lsnInfoNodeSize]
    omega
  unfold Trace.recycle
  refine ⟨live', ?_, ?_, ?_, h.basePages⟩
  . have hpassed : ∀ page, (t.passed page
        ∨ all = true ∧ s.nextLsnInfoPage s.lsnTableRecyclePosition ≠ 0 ∧ page = s.lsnTableRecyclePosition)
        → page < pageOf s.lsnTableNextPosition := by
      rintro page (hold | ⟨-, hnext, rfl⟩)
      . exact halloc.passed page hold
      . exact halloc.pages _ hnext
    dsimp only
    split
    . exact { halloc with passed := hpassed }
    . exact { halloc with passed := hpassed }
  . intro tag
    have hentries : ∀ e ∈ live' tag, e.lsn ≠ 0 ∧ ¬ (t.passed (pageOf e.pos)
        ∨ all = true ∧ s.nextLsnInfoPage s.lsnTableRecyclePosition ≠ 0 ∧ pageOf e.pos = s.lsnTableRecyclePosition)
        ∧ s.globalRecycleLsnInfoPage ≤ e.pos := by
      intro e he
      have hentry := (hrec.blocked tag).entries e he
      refine ⟨hentry.left, ?_, hentry.right.right⟩
      rintro (hold | ⟨hall, -, heq⟩)
      . exact hentry.right.left hold
      . exact hpage tag e he hall heq
    rcases hrec.blocked tag with ⟨⟨prev, hseg⟩, hsorted, -, hinvalid, hblock, hmaxLsn⟩
    dsimp only
    split
    . exact ⟨⟨prev, hseg.congr _ _ tag (fun _ _ _ hnode _ => hnode)⟩, hsorted, hentries, hinvalid, hblock, hmaxLsn⟩
    . exact ⟨⟨prev, hseg.congr _ _ tag (fun _ _ _ hnode _ => hnode)⟩, hsorted, hentries, hinvalid, hblock, hmaxLsn⟩
  . intro tag
    rcases h.history tag with ⟨older, hhistory, hold⟩
    rcases hrec.cut tag with ⟨cut, hcut, hlow⟩
    refine ⟨older ++ cut.map Entry.toRecord, by rw [hhistory, hcut, map_append, append_assoc], ?_⟩
    intro record hrecord
    rcases mem_append.mp hrecord with hmem | hmem
    . rcases hold record hmem with ⟨lsn, hlsn, hlt⟩
      exact ⟨lsn, mem_cons_of_mem _ hlsn, hlt⟩
    . rcases mem_map.mp hmem with ⟨e, he, rfl⟩
      exact ⟨recycleLsn, mem_cons_self, hlow e he⟩

theorem Invariant.step {t' : Trace Tag} (h : Invariant t live) (hstep : Step t t')
    : ∃ live', Invariant t' live' := by
  cases hstep with
  | insert tag currentPageLsn nextLsn hlsn hlsns => exact h.insert tag currentPageLsn nextLsn hlsn hlsns
  | recycle recycleLsn fuel basePagePosition all s hrun =>
    exact h.recycle recycleLsn fuel basePagePosition all s hrun
  | drop nodes hnodes =>
    have hframe : State.Frame t.state { t.state with nodes } := by
      refine ⟨?_, rfl, ⟨rfl, rfl⟩, ⟨rfl, rfl⟩, rfl, rfl⟩
      intro pos node hnode
      have hnode : nodes pos = some node := hnode
      rcases hnodes pos with heq | ⟨-, heq⟩
      . exact ⟨node, node.valid, by rw [← heq, hnode], rfl⟩
      . rw [heq] at hnode
        exact absurd hnode (by simp)
    refine ⟨live, h.allocated.frame hframe, ?_, h.history, h.basePages⟩
    intro tag
    refine (h.blocked tag).frame rfl rfl ?_
    intro e he node hnode _
    rcases hnodes e.pos with heq | ⟨hpassed, -⟩
    . exact heq.trans hnode
    . exact absurd hpassed ((h.blocked tag).entries e he).right.left
  | others lsnInfoPages basePages =>
    refine ⟨live, h.allocated.others lsnInfoPages basePages, ?_, h.history, h.basePages⟩
    intro tag
    exact (h.blocked tag).frame rfl rfl (fun _ _ _ hnode _ => hnode)
  | globalRecycle page hle hpages =>
    have halloc := h.allocated
    refine ⟨live, ?_, ?_, h.history, h.basePages⟩
    . exact { halloc with globalRecycle := hle }
    . intro tag
      have hentries : ∀ e ∈ live tag, e.lsn ≠ 0 ∧ ¬ t.passed (pageOf e.pos) ∧ page ≤ e.pos := by
        intro e he
        have hentry := (h.blocked tag).entries e he
        refine ⟨hentry.left, hentry.right.left, Nat.le_of_not_lt ?_⟩
        intro hlt
        rcases (h.blocked tag).node e he with ⟨node, hnode, -⟩
        exact hentry.right.left (hpages e.pos node hnode hlt)
      rcases h.blocked tag with ⟨⟨prev, hseg⟩, hsorted, -, hinvalid, hblock, hmaxLsn⟩
      exact ⟨⟨prev, hseg.congr _ _ tag (fun _ _ _ hnode _ => hnode)⟩, hsorted, hentries, hinvalid, hblock, hmaxLsn⟩

theorem Reachable.invariant (h : Reachable t) : ∃ live, Invariant t live := by
  rcases h with ⟨start, hinitial, hrun⟩
  induction hrun with
  | refl => exact ⟨_, hinitial.invariant⟩
  | tail _ hstep ih =>
    rcases ih with ⟨live, hlive⟩
    exact hlive.step hstep

-- The walk ends; no entry of a valid block and an invalid block mean that there is no such change.
structure FindsBasePage (t : Trace Tag) (tag : Tag) (readLsn : Nat) : Prop where
  valid : (t.state.blocks tag).valid = true → ∃ result,
    (∃ bound, ∀ fuel ≥ bound, t.state.getNearestBasePagePos (t.state.blocks tag).basePageInfoList readLsn fuel
      (t.state.blocks tag).basePageInfoList.prev listHead = some result)
    ∧ (∀ record, (t.history tag).find? (fun record => readLsn ≤ record.lsn) = some record →
      result = record.basePage)
    ∧ (result = listHead ↔ ∀ record ∈ t.history tag, record.lsn < readLsn)
  invalid : (t.state.blocks tag).valid = false → ∀ record ∈ t.history tag, record.lsn < readLsn

/--
A reader finds the base page saved before the first change it must not see, and none exactly when it sees all of
them.
-/
theorem getNearestBasePagePos_findsBasePage (t : Trace Tag) (hrun : Reachable t) (tag : Tag) (readLsn : Nat)
    (hread : ∀ recycleLsn ∈ t.recycled, recycleLsn ≤ readLsn)
    : FindsBasePage t tag readLsn := by
  rcases hrun.invariant with ⟨live, h⟩
  have hfind := h.find tag readLsn hread
  have hall : (live tag).find? (fun e => readLsn ≤ e.lsn) = none
      ↔ ∀ record ∈ t.history tag, record.lsn < readLsn := by
    rw [← Option.map_eq_none_iff (f := Entry.toRecord), ← hfind, List.find?_eq_none]
    simp only [decide_eq_true_eq, Nat.not_le]
  constructor
  . intro hvalid
    rcases (h.blocked tag).block hvalid with ⟨hne, -, hends, -⟩
    rcases (h.blocked tag).segment with ⟨prev, hseg⟩
    refine ⟨(((live tag).find? (fun e => readLsn ≤ e.lsn)).map (fun e => e.basePage)).getD listHead, ?_, ?_, ?_⟩
    . refine ⟨(live tag).length, ?_⟩
      intro fuel hfuel
      rw [hends, lastPos_congr listHead prev (live tag) hne]
      exact State.getNearestBasePagePos_segment t.state tag _ readLsn fuel (live tag) prev listHead listHead hseg
        (h.blocked tag).sorted hne hfuel rfl (fun e he => ((h.blocked tag).pos_ne h.allocated e he).left)
    . intro record hrecord
      rw [hfind] at hrecord
      rcases Option.map_eq_some_iff.mp hrecord with ⟨e, he, rfl⟩
      rw [he]
      rfl
    . rw [← hall]
      constructor
      . intro hresult
        cases he : (live tag).find? (fun e => readLsn ≤ e.lsn) with
        | none => rfl
        | some e =>
          rw [he, Option.map_some] at hfind
          have hpage := h.basePages tag e.toRecord (List.mem_of_find?_eq_some hfind)
          rw [he] at hresult
          rw [show e.basePage = listHead from hresult] at hpage
          exact absurd hpage (by decide)
      . intro hnone
        rw [hnone]
        rfl
  . intro hinvalid
    rw [← hall, (h.blocked tag).invalid hinvalid]
    rfl

def start : Trace Unit where
  state :=
    { nodes := fun _ => none
      nextLsnInfoPage := fun _ => 0
      blocks := fun _ => ⟨false, 0, 0, DoubleList.init, DoubleList.init⟩
      lsnTableNextPosition := 0
      isRecyclePositionInit := false
      lsnTableRecyclePosition := 0
      basePageRecylePosition := 0
      recycleLsnPerWorker := 0
      dispatcherNextLsnInfoPage := 8192
      dispatcherNextBasePage := 0
      globalRecycleLsnInfoPage := 0 }
  history := fun _ => []
  passed := fun _ => False
  recycled := []

theorem start_initial : Initial start :=
  ⟨rfl, rfl, fun _ => rfl, ⟨rfl, rfl⟩, ⟨rfl, rfl⟩, rfl, rfl, rfl, rfl⟩

theorem getNearestBasePagePos_findsBasePage_cut
    : ∃ t : Trace Unit, t.recycled = [15] ∧ t.history () = [⟨10, 0⟩, ⟨20, 8192⟩]
      ∧ (t.state.blocks ()).basePageInfoList = ⟨8384, 8384⟩ ∧ FindsBasePage t () 15 := by
  refine ⟨_, rfl, rfl, ?_, getNearestBasePagePos_findsBasePage _ ⟨start, start_initial,
    ((Relation.ReflTransGen.refl.tail (Step.insert start () 5 10 (by decide) (by decide))).tail
      (Step.insert _ () 10 20 (by decide) (by decide))).tail (Step.recycle _ 15 10 _ false _ rfl)⟩ () 15 ?_⟩
  . rfl
  . intro recycleLsn hmem
    obtain rfl := List.mem_singleton.mp hmem
    exact Nat.le_refl 15

end StandbyRead

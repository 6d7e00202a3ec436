import OpenGauss.Replication.StandbyRead.Segment

/-!
This module shows what the recycling of a page leaves of the base pages of the blocks.
-/

open Function

namespace StandbyRead

variable {live : List Entry} {recycleLsn : Nat}

def pageOf (pos : Nat) : Nat :=
  pos - pos % blcksz

namespace State

variable {Tag : Type}

/-! ### Invariants -/

structure Allocated (passed : Nat → Prop) (s : State Tag) : Prop where
  next : if s.isRecyclePositionInit then
      s.lsnTableNextPosition % 128 = 64 ∧ pageOf s.lsnTableNextPosition < s.dispatcherNextLsnInfoPage
    else
      s.lsnTableNextPosition = 0
  counters : s.dispatcherNextLsnInfoPage % blcksz = 0 ∧ s.dispatcherNextBasePage % blcksz = 0
  pages : ∀ page, s.nextLsnInfoPage page ≠ 0 → page < pageOf s.lsnTableNextPosition
  passed : ∀ page, passed page → page < pageOf s.lsnTableNextPosition
  nodes : ∀ pos node, s.nodes pos = some node → pos < s.lsnTableNextPosition ∧ pos % 128 = 64
  globalRecycle : s.globalRecycleLsnInfoPage ≤ s.lsnTableNextPosition
  -- A node is followed by a node of the same block.
  links : ∀ pos node, s.nodes pos = some node → node.basePageList.next ≠ listHead →
    node.basePageList.next < s.lsnTableNextPosition
      ∧ ∀ node', s.nodes node.basePageList.next = some node' → node'.tag = node.tag

-- The entries of the block that can still be reached are those of `live`.
structure Blocked (passed : Nat → Prop) (s : State Tag) (tag : Tag) (live : List Entry) : Prop where
  segment : ∃ prev, s.Segment tag prev live listHead
  sorted : live.Pairwise Before
  entries : ∀ e ∈ live, e.lsn ≠ 0 ∧ ¬ passed (pageOf e.pos) ∧ s.globalRecycleLsnInfoPage ≤ e.pos
  invalid : (s.blocks tag).valid = false → live = []
  block : (s.blocks tag).valid = true → live ≠ []
    ∧ (s.blocks tag).lsnInfoList = (s.blocks tag).basePageInfoList
    ∧ (s.blocks tag).basePageInfoList = ⟨firstPos listHead live, lastPos listHead live⟩
    ∧ ∀ e ∈ live, e.lsn ≤ (s.blocks tag).maxLsn
  maxLsn : (s.blocks tag).valid = true → ∃ e ∈ live, e.lsn = (s.blocks tag).maxLsn

/-! ### Frames -/

-- Nodes may be cleared or dropped, and the blocks are open.
structure Frame (s s' : State Tag) : Prop where
  nodes : ∀ pos node', s'.nodes pos = some node' →
    ∃ node valid, s.nodes pos = some node ∧ node' = { node with valid }
  pages : s'.nextLsnInfoPage = s.nextLsnInfoPage
  next : s'.lsnTableNextPosition = s.lsnTableNextPosition ∧ s'.isRecyclePositionInit = s.isRecyclePositionInit
  counters : s'.dispatcherNextLsnInfoPage = s.dispatcherNextLsnInfoPage
    ∧ s'.dispatcherNextBasePage = s.dispatcherNextBasePage
  globalRecycle : s'.globalRecycleLsnInfoPage = s.globalRecycleLsnInfoPage
  recycle : s'.lsnTableRecyclePosition = s.lsnTableRecyclePosition

variable {passed : Nat → Prop} {s s' s'' : State Tag}

theorem Frame.trans (h : Frame s s') (h' : Frame s' s'') : Frame s s'' where
  nodes pos node'' hnode := by
    rcases h'.nodes pos node'' hnode with ⟨node', valid', hnode', heq'⟩
    rcases h.nodes pos node' hnode' with ⟨node, valid, hnode, heq⟩
    exact ⟨node, valid', hnode, by rw [heq', heq]⟩
  pages := h'.pages.trans h.pages
  next := ⟨h'.next.left.trans h.next.left, h'.next.right.trans h.next.right⟩
  counters := ⟨h'.counters.left.trans h.counters.left, h'.counters.right.trans h.counters.right⟩
  globalRecycle := h'.globalRecycle.trans h.globalRecycle
  recycle := h'.recycle.trans h.recycle

theorem Frame.of_nodes (h : s'.nodes = s.nodes) (hrest : s' = { s with
    nodes := s'.nodes
    blocks := s'.blocks
    basePageRecylePosition := s'.basePageRecylePosition
    recycleLsnPerWorker := s'.recycleLsnPerWorker }) : Frame s s' where
  nodes pos node hnode := ⟨node, node.valid, by rw [← h, hnode], rfl⟩
  pages := by rw [hrest]
  next := by rw [hrest]; exact ⟨rfl, rfl⟩
  counters := by rw [hrest]; exact ⟨rfl, rfl⟩
  globalRecycle := by rw [hrest]
  recycle := by rw [hrest]

variable {tag : Tag}

theorem Clears.toFrame {kept : Nat → Prop} (h : Clears tag kept s s') : Frame s s' where
  nodes := h.nodes
  pages := by rw [h.frame]
  next := by rw [h.frame]; exact ⟨rfl, rfl⟩
  counters := by rw [h.frame]; exact ⟨rfl, rfl⟩
  globalRecycle := by rw [h.frame]
  recycle := by rw [h.frame]

theorem Allocated.frame (h : s.Allocated passed) (hf : Frame s s') : s'.Allocated passed where
  next := by rw [hf.next.right, hf.next.left, hf.counters.left]; exact h.next
  counters := by rw [hf.counters.left, hf.counters.right]; exact h.counters
  pages := by rw [hf.pages, hf.next.left]; exact h.pages
  passed := by rw [hf.next.left]; exact h.passed
  nodes pos node' hnode' := by
    rcases hf.nodes pos node' hnode' with ⟨node, valid, hnode, -⟩
    rw [hf.next.left]
    exact h.nodes pos node hnode
  globalRecycle := by rw [hf.globalRecycle, hf.next.left]; exact h.globalRecycle
  links pos node' hnode' := by
    rcases hf.nodes pos node' hnode' with ⟨node, valid, hnode, heq⟩
    rw [heq, hf.next.left]
    intro hnext
    apply And.intro (h.links pos node hnode hnext).left
    intro after' hafter'
    rcases hf.nodes _ after' hafter' with ⟨after, valid', hafter, heq'⟩
    rw [heq']
    exact (h.links pos node hnode hnext).right after hafter

theorem Blocked.frame (h : s.Blocked passed tag live)
    (hglobal : s'.globalRecycleLsnInfoPage = s.globalRecycleLsnInfoPage) (hblock : s'.blocks tag = s.blocks tag)
    (hsame : ∀ e ∈ live, ∀ node, s.nodes e.pos = some node → node.tag = tag → s'.nodes e.pos = some node)
    : s'.Blocked passed tag live where
  segment := by
    rcases h.segment with ⟨prev, hseg⟩
    exact ⟨prev, hseg.congr s s' tag hsame⟩
  sorted := h.sorted
  entries := by rw [hglobal]; exact h.entries
  invalid := by rw [hblock]; exact h.invalid
  block := by rw [hblock]; exact h.block
  maxLsn := by rw [hblock]; exact h.maxLsn

theorem Blocked.clears {other : Tag} {kept : Nat → Prop}
    (h : s.Blocked passed other live) (hclear : Clears tag kept s s')
    (hkept : ∀ e ∈ live, other ≠ tag ∨ kept e.pos) : s'.Blocked passed other live := by
  apply h.frame (by rw [hclear.frame]) (by rw [hclear.frame])
  intro e he node hnode htag
  apply hclear.other e.pos node hnode
  rw [htag]
  exact hkept e he

theorem Blocked.pos_ne (h : s.Blocked passed tag live) (ha : s.Allocated passed)
    (e : Entry) (he : e ∈ live) : e.pos ≠ listHead ∧ e.lsn ≠ 0 := by
  rcases h.segment with ⟨prev, hseg⟩
  rcases hseg.holds s tag e he with ⟨_, _, hholds⟩
  rcases hholds.node with ⟨node, hnode, -⟩
  have halign := (ha.nodes e.pos node hnode).right
  apply And.intro ?_ (h.entries e he).left
  intro heq
  rw [heq] at halign
  exact absurd halign (by decide)

/-! ### Recycling -/

structure Recycles (passed : Nat → Prop) (recycleLsn : Nat) (s s' : State Tag)
    (live live' : Tag → List Entry) : Prop where
  frame : Frame s s'
  blocked : ∀ tag, s'.Blocked passed tag (live' tag)
  cut : ∀ tag, ∃ cut, live tag = cut ++ live' tag ∧ ∀ e ∈ cut, e.lsn < recycleLsn

theorem invalidBasePageList_clears (tag : Tag) (fuel : Nat) (s' : State Tag)
    : ∀ (s : State Tag) (pos : Nat), s.Allocated passed
        → (pos ≠ listHead → ∀ node, s.nodes pos = some node → node.tag = tag)
        → invalidBasePageList fuel s pos = some s' → Clears tag (fun _ => False) s s' := by
  induction fuel with
  | zero =>
    intro s pos _ _ hrun
    simp [invalidBasePageList] at hrun
  | succ fuel ih =>
    intro s pos halloc htag hrun
    unfold invalidBasePageList at hrun
    split at hrun
    . rw [Option.some.injEq] at hrun
      rw [← hrun]
      exact Clears.refl s tag _
    . rename_i hpos
      split at hrun
      . exact absurd hrun (by simp)
      . rename_i node hnode
        split at hrun
        . rw [Option.some.injEq] at hrun
          rw [← hrun]
          exact Clears.refl s tag _
        . have hclear := Clears.setNode s tag (fun _ => False) pos node hnode (htag hpos node hnode) id
          apply Clears.trans tag hclear
          apply ih _ _ (halloc.frame hclear.toFrame) _ hrun
          intro hnext after' hafter'
          rcases hclear.nodes _ after' hafter' with ⟨after, valid, hafter, heq⟩
          rw [heq, ← htag hpos node hnode]
          exact (halloc.links pos node hnode hnext).right after hafter

theorem Blocked.cut {cut kept : List Entry} (h : s.Blocked passed tag live)
    (hlive : live = cut ++ kept) (hne : kept ≠ []) (hcut : ∀ e ∈ cut, e.lsn < recycleLsn)
    (hvalid : (s.blocks tag).valid = true) (hmax : recycleLsn ≤ (s.blocks tag).maxLsn)
    (hclear : Clears tag (fun pos => ∃ e ∈ kept, e.pos = pos) s s') (hf : Frame s' s'')
    (hnodes : s''.nodes = s'.nodes)
    (hblock : (s''.blocks tag).valid = true ∧ (s''.blocks tag).maxLsn = (s.blocks tag).maxLsn
      ∧ (s''.blocks tag).lsnInfoList = (s''.blocks tag).basePageInfoList
      ∧ (s''.blocks tag).basePageInfoList = ⟨firstPos listHead kept, (s.blocks tag).basePageInfoList.prev⟩)
    : s''.Blocked passed tag kept where
  segment := by
    rcases h.segment with ⟨prev, hseg⟩
    rw [hlive, Segment_append] at hseg
    refine ⟨lastPos prev cut, ?_⟩
    apply hseg.right.congr
    intro e he node hnode _
    rw [hnodes]
    exact hclear.other e.pos node hnode (Or.inr ⟨e, he, rfl⟩)
  sorted := by
    have hsorted := h.sorted
    rw [hlive, List.pairwise_append] at hsorted
    exact hsorted.right.left
  entries e he := by
    rw [hf.globalRecycle, hclear.toFrame.globalRecycle]
    exact h.entries e (by simp [hlive, he])
  invalid hinvalid := by simp [hblock.left] at hinvalid
  block _ := by
    apply And.intro hne
    apply And.intro hblock.right.right.left
    apply And.intro
    . rw [hblock.right.right.right, (h.block hvalid).right.right.left, hlive, lastPos_append]
      rw [lastPos_congr _ listHead kept hne]
    . intro e he
      rw [hblock.right.left]
      exact (h.block hvalid).right.right.right e (by simp [hlive, he])
  maxLsn _ := by
    rcases h.maxLsn hvalid with ⟨e, he, hlsn⟩
    rw [hlive] at he
    rw [hblock.right.left]
    rcases List.mem_append.mp he with hold | hkept
    . have := hcut e hold
      omega
    . exact ⟨e, hkept, hlsn⟩

theorem recycleBlockInfo_spec [DecidableEq Tag] (fuel recycleLsn nextBasePageLsn : Nat) (tag : Tag)
    (live : Tag → List Entry) (stat : RecyleState) (halloc : s.Allocated passed)
    (hblocked : ∀ tag, s.Blocked passed tag (live tag))
    (hrun : s.recycleBlockInfo false fuel tag nextBasePageLsn recycleLsn = some (stat, s'))
    : ∃ live', Recycles passed recycleLsn s s' live live'
      ∧ (stat = .all → live' tag = [] ∧ s'.nodes = s.nodes)
      ∧ (stat = .update → ∀ e ∈ live' tag, recycleLsn ≤ e.lsn) := by
  unfold recycleBlockInfo at hrun
  dsimp only at hrun
  have hself : Recycles passed recycleLsn s s live live :=
    ⟨Frame.of_nodes rfl rfl, hblocked, fun _ => ⟨[], rfl, by simp⟩⟩
  split at hrun
  . rename_i hvalid
    simp only [Option.some.injEq, Prod.mk.injEq] at hrun
    rw [← hrun.right, ← hrun.left]
    exact ⟨live, hself, fun _ => ⟨(hblocked tag).invalid (by simpa using hvalid), rfl⟩, by simp⟩
  . rename_i hvalid
    have hvalid : (s.blocks tag).valid = true := by simpa using hvalid
    split at hrun
    . rename_i hmax
      simp only [Option.some.injEq, Prod.mk.injEq] at hrun
      rw [← hrun.right, ← hrun.left]
      refine ⟨Function.update live tag [], ⟨Frame.of_nodes rfl rfl, ?_, ?_⟩, by simp [setBlock], by simp⟩
      . intro other
        by_cases hother : other = tag
        . rw [hother, update_self]
          exact ⟨⟨0, trivial⟩, by simp, by simp, by simp, by simp [setBlock], by simp [setBlock]⟩
        . rw [update_of_ne hother]
          exact (hblocked other).frame rfl (by simp [setBlock, hother]) (fun _ _ _ h _ => h)
      . intro other
        by_cases hother : other = tag
        . rw [hother, update_self]
          refine ⟨live tag, by simp, ?_⟩
          intro e he
          exact Nat.lt_of_le_of_lt (((hblocked tag).block hvalid).right.right.right e he) hmax
        . rw [update_of_ne hother]
          exact ⟨[], rfl, by simp⟩
    . rename_i hmax
      split at hrun
      . split at hrun
        . exact absurd hrun (by simp)
        . rename_i minPos minLsn s₁ hlist
          rcases (hblocked tag).block hvalid with ⟨hne, hlists, hends, hle⟩
          rcases (hblocked tag).maxLsn hvalid with ⟨last, hlast, hlsn⟩
          rcases (hblocked tag).segment with ⟨prev, hseg⟩
          rw [hends] at hlist
          rcases recycleOneLsnInfoList_segment tag recycleLsn fuel (live tag) s prev listHead _ _ _ hseg
            (fun e he => (hblocked tag).pos_ne halloc e he) (hblocked tag).sorted
            ⟨last, hlast, by rw [hlsn]; exact Nat.le_of_not_lt hmax⟩ hlist with
            ⟨cut, kept, hlive, hkept, hcut, hlow, hmin, hclear⟩
          dsimp only at hmin hclear
          have hmaxLsn := Nat.le_of_not_lt hmax
          have hblocks : s₁.blocks = s.blocks := by rw [hclear.frame]
          refine ⟨Function.update live tag kept, ?_, ?_, fun _ => by simpa using hlow⟩
          . have hcuts : ∀ other, ∃ c, live other = c ++ Function.update live tag kept other
                ∧ ∀ e ∈ c, e.lsn < recycleLsn := by
              intro other
              by_cases hother : other = tag
              . rw [hother, update_self]
                exact ⟨cut, hlive, hcut⟩
              . rw [update_of_ne hother]
                exact ⟨[], rfl, by simp⟩
            have hothers : ∀ other, other ≠ tag → s₁.Blocked passed other (live other) := fun other hother =>
              (hblocked other).clears hclear (fun _ _ => Or.inl hother)
            split at hrun
            . simp only [Option.some.injEq, Prod.mk.injEq] at hrun
              rw [← hrun.right]
              refine ⟨hclear.toFrame.trans (Frame.of_nodes rfl rfl), ?_, hcuts⟩
              intro other
              by_cases hother : other = tag
              . rw [hother, update_self]
                refine (hblocked tag).cut hlive hkept hcut hvalid hmaxLsn hclear (Frame.of_nodes rfl rfl) rfl ?_
                simp [setBlock, hvalid, hlists, hmin]
              . rw [update_of_ne hother]
                exact (hothers other hother).frame rfl (by simp [setBlock, hother]) (fun _ _ _ h _ => h)
            . rename_i hsame
              simp only [Option.some.injEq, Prod.mk.injEq] at hrun
              rw [← hrun.right]
              refine ⟨hclear.toFrame, ?_, hcuts⟩
              intro other
              by_cases hother : other = tag
              . rw [hother, update_self]
                apply (hblocked tag).cut hlive hkept hcut hvalid hmaxLsn hclear (Frame.of_nodes rfl rfl) rfl
                rw [hblocks]
                refine ⟨hvalid, rfl, hlists, ?_⟩
                rw [← hmin, ← Decidable.not_not.mp hsame]
              . rw [update_of_ne hother]
                exact hothers other hother
          . intro hall
            split at hrun
            . simp [hall] at hrun
            . simp [hall] at hrun
      . simp only [Option.some.injEq, Prod.mk.injEq] at hrun
        rw [← hrun.right, ← hrun.left]
        exact ⟨live, hself, by simp, by simp⟩

theorem Recycles.mem {live live' : Tag → List Entry}
    (h : Recycles passed recycleLsn s s' live live') (tag : Tag) (e : Entry) (he : e ∈ live' tag) : e ∈ live tag := by
  rcases h.cut tag with ⟨cut, heq, -⟩
  rw [heq]
  exact List.mem_append_right cut he

theorem Recycles.trans {live live' live'' : Tag → List Entry}
    (h : Recycles passed recycleLsn s s' live live') (h' : Recycles passed recycleLsn s' s'' live' live'')
    : Recycles passed recycleLsn s s'' live live'' where
  frame := h.frame.trans h'.frame
  blocked := h'.blocked
  cut tag := by
    rcases h.cut tag with ⟨cut, heq, hcut⟩
    rcases h'.cut tag with ⟨cut', heq', hcut'⟩
    refine ⟨cut ++ cut', by rw [heq, heq', List.append_assoc], ?_⟩
    intro e he
    exact (List.mem_append.mp he).elim (hcut e) (hcut' e)

theorem Recycles.of_eq {live : Tag → List Entry}
    (hblocked : ∀ tag, s.Blocked passed tag (live tag)) (hframe : Frame s s') (hnodes : s'.nodes = s.nodes) (hblocks : s'.blocks = s.blocks)
    : Recycles passed recycleLsn s s' live live where
  frame := hframe
  blocked tag := (hblocked tag).frame hframe.globalRecycle (by rw [hblocks]) (fun _ _ _ h _ => by rw [hnodes, h])
  cut _ := ⟨[], rfl, by simp⟩

theorem Blocked.node (h : s.Blocked passed tag live) (e : Entry) (he : e ∈ live)
    : ∃ node, s.nodes e.pos = some node ∧ node.valid = true ∧ node.tag = tag ∧ node.lsn = e.lsn := by
  rcases h.segment with ⟨prev, hseg⟩
  rcases hseg.holds s tag e he with ⟨_, _, hholds⟩
  rcases hholds.node with ⟨node, hnode, hvalid, htag, hlsn, -⟩
  exact ⟨node, hnode, hvalid, htag, hlsn⟩

theorem updateRecycleLsnPerWorker_recycles {live : Tag → List Entry} (basePageLsn : Nat)
    (hblocked : ∀ tag, s.Blocked passed tag (live tag)) (h : Recycles passed recycleLsn s' s live live)
    : Recycles passed recycleLsn s' (s.updateRecycleLsnPerWorker basePageLsn) live live := by
  apply h.trans
  unfold updateRecycleLsnPerWorker
  split
  . exact Recycles.of_eq hblocked (Frame.of_nodes rfl rfl) rfl rfl
  . exact Recycles.of_eq hblocked (Frame.of_nodes rfl rfl) rfl rfl

theorem recycleNode_spec [DecidableEq Tag] (fuel recycleLsn pos : Nat) (node : BasePageInfo Tag)
    (last : State Tag)
    (live : Tag → List Entry) (stat : RecyleState) (halloc : s.Allocated passed)
    (hblocked : ∀ tag, s.Blocked passed tag (live tag)) (hnode : s.nodes pos = some node)
    (hkeeps : ¬ keeps false recycleLsn node = true) (hstat : stat ≠ .none)
    (hrun : s.recycleBlockInfo false fuel node.tag node.nextBasePageLsn recycleLsn = some (stat, s'))
    (hend : if stat = .all then
        invalidBasePageList fuel (s'.setNode pos { node with valid := false }) node.basePageList.next = some last
      else
        last = s')
    : ∃ live', Recycles passed recycleLsn s last live live' ∧ ∀ tag, ∀ e ∈ live' tag, e.pos ≠ pos := by
  rcases recycleBlockInfo_spec fuel recycleLsn node.nextBasePageLsn node.tag live stat halloc hblocked hrun with
    ⟨live', hrec, hall, hupdate⟩
  have htag : ∀ tag, ∀ e ∈ live' tag, e.pos = pos → tag = node.tag ∧ e.lsn = node.lsn ∧ e.lsn ≠ 0 := by
    intro tag e he hpos
    have hmem := hrec.mem tag e he
    rcases (hblocked tag).node e hmem with ⟨node', hnode', -, htag', hlsn'⟩
    rw [hpos, hnode, Option.some.injEq] at hnode'
    rw [hnode']
    exact ⟨htag'.symm, hlsn'.symm, ((hblocked tag).entries e hmem).left⟩
  refine ⟨live', ?_, ?_⟩
  . split at hend
    . rename_i hstat'
      have hnodes := (hall hstat').right
      have hclear := Clears.setNode s' node.tag (fun _ => False) pos node (by rw [hnodes, hnode]) rfl id
      have halloc' := halloc.frame hrec.frame
      have hinvalid := invalidBasePageList_clears node.tag fuel last _ _ (halloc'.frame hclear.toFrame) (by
          intro hnext after' hafter'
          rcases hclear.nodes _ after' hafter' with ⟨after, valid, hafter, heq⟩
          rw [heq]
          rw [hnodes] at hafter
          exact (halloc.links pos node hnode hnext).right after hafter) hend
      have hclears := Clears.trans node.tag hclear hinvalid
      apply hrec.trans
      refine ⟨hclears.toFrame, ?_, fun _ => ⟨[], rfl, by simp⟩⟩
      intro tag
      apply (hrec.blocked tag).clears hclears
      intro e he
      apply Or.inl
      rintro rfl
      rw [(hall hstat').left] at he
      simp at he
    . rw [hend]
      exact hrec
  . intro tag e he hpos
    rcases htag tag e he hpos with ⟨rfl, hlsn, hzero⟩
    match stat, hstat with
    | .all, _ =>
      rw [(hall rfl).left] at he
      simp at he
    | .update, _ =>
      have hle := hupdate rfl e he
      apply hkeeps
      simp [keeps, ← hlsn, hzero, hle]

theorem recycleOneLsnInfoPage_spec [DecidableEq Tag] (fuel recycleLsn page bits : Nat) (s' : State Tag)
    (all : Bool) (basePagePosition' : Nat)
    : ∀ (bit basePagePosition : Nat) (s : State Tag) (live : Tag → List Entry), s.Allocated passed
        → (∀ tag, s.Blocked passed tag (live tag))
        → recycleOneLsnInfoPage false fuel recycleLsn page bits bit basePagePosition s
          = some (all, basePagePosition', s')
        → ∃ live', Recycles passed recycleLsn s s' live live'
          ∧ (all = true → ∀ tag, ∀ e ∈ live' tag, ∀ b, bit ≤ b → b < bit + bits
            → e.pos ≠ page + b * lsnInfoNodeSize) := by
  induction bits with
  | zero =>
    intro bit basePagePosition s live halloc hblocked hrun
    simp only [recycleOneLsnInfoPage, Option.some.injEq, Prod.mk.injEq] at hrun
    rw [← hrun.right.right]
    exact ⟨live, Recycles.of_eq hblocked (Frame.of_nodes rfl rfl) rfl rfl, fun _ _ _ _ b hb hb' => by omega⟩
  | succ bits ih =>
    intro bit basePagePosition s live halloc hblocked hrun
    -- The rest of the page, once there is no entry at the bit.
    have hnext : ∀ (basePagePosition : Nat) (s₁ : State Tag) (live₁ : Tag → List Entry),
        Recycles passed recycleLsn s s₁ live live₁
        → (∀ tag, ∀ e ∈ live₁ tag, e.pos ≠ page + bit * lsnInfoNodeSize)
        → recycleOneLsnInfoPage false fuel recycleLsn page bits (bit + 1) basePagePosition s₁
          = some (all, basePagePosition', s')
        → ∃ live', Recycles passed recycleLsn s s' live live'
          ∧ (all = true → ∀ tag, ∀ e ∈ live' tag, ∀ b, bit ≤ b → b < bit + (bits + 1)
            → e.pos ≠ page + b * lsnInfoNodeSize) := by
      intro basePagePosition s₁ live₁ hrec hfree hrun
      rcases ih (bit + 1) basePagePosition s₁ live₁ (halloc.frame hrec.frame) hrec.blocked hrun with
        ⟨live', hrec', hrest⟩
      refine ⟨live', hrec.trans hrec', ?_⟩
      intro hall tag e he b hb hb'
      by_cases hbit : b = bit
      . rw [hbit]
        exact hfree tag e (hrec'.mem tag e he)
      . exact hrest hall tag e he b (by omega) (by omega)
    have hself : Recycles passed recycleLsn s s live live :=
      Recycles.of_eq hblocked (Frame.of_nodes rfl rfl) rfl rfl
    unfold recycleOneLsnInfoPage at hrun
    split at hrun
    . rename_i hnone
      apply hnext _ s live hself ?_ hrun
      intro tag e he hpos
      rcases (hblocked tag).node e he with ⟨node, hnode, -⟩
      rw [hpos, hnone] at hnode
      simp at hnode
    . rename_i node hnode
      split at hrun
      . rename_i hinvalid
        apply hnext _ s live hself ?_ hrun
        intro tag e he hpos
        rcases (hblocked tag).node e he with ⟨node', hnode', hvalid, -⟩
        rw [hpos, hnode, Option.some.injEq] at hnode'
        rw [hnode', hvalid] at hinvalid
        simp at hinvalid
      . dsimp only at hrun
        split at hrun
        . simp only [Option.some.injEq, Prod.mk.injEq] at hrun
          rw [← hrun.right.right, ← hrun.left]
          exact ⟨live, updateRecycleLsnPerWorker_recycles _ hblocked hself, by simp⟩
        . rename_i hkeeps
          split at hrun
          . exact absurd hrun (by simp)
          . rename_i s₁ hblock
            split at hrun
            . exact absurd hrun (by simp)
            . rename_i s₂ hlist
              rcases recycleNode_spec fuel recycleLsn _ node s₂ live .all halloc hblocked hnode hkeeps
                (by simp) hblock (by simpa using hlist) with ⟨live₁, hrec, hfree⟩
              exact hnext _ s₂ live₁ hrec hfree hrun
          . rename_i s₁ hblock
            simp only [Option.some.injEq, Prod.mk.injEq] at hrun
            rw [← hrun.right.right, ← hrun.left]
            rcases recycleBlockInfo_spec fuel recycleLsn node.nextBasePageLsn node.tag live .none halloc
              hblocked hblock with ⟨live', hrec, -⟩
            refine ⟨live', ?_, by simp⟩
            exact hrec.trans (updateRecycleLsnPerWorker_recycles _ hrec.blocked
              (Recycles.of_eq hrec.blocked (Frame.of_nodes rfl rfl) rfl rfl))
          . rename_i s₁ hblock
            rcases recycleNode_spec fuel recycleLsn _ node s₁ live .update halloc hblocked hnode hkeeps
              (by simp) hblock (by simp) with ⟨live₁, hrec, hfree⟩
            exact hnext _ s₁ live₁ hrec hfree hrun

end State

end StandbyRead

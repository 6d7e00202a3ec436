import OpenGauss.Replication.StandbyRead.Recycling

/-!
This module shows that recording a change appends it to the base pages of its block.
-/

open List Function

namespace StandbyRead

variable {insertPos : Nat}

namespace State

variable {Tag : Type} {passed : Nat → Prop} {s : State Tag}

structure Placed (passed : Nat → Prop) (s s' : State Tag) (insertPos : Nat) : Prop where
  allocated : s'.Allocated passed
  pos : s.lsnTableNextPosition ≤ insertPos ∧ insertPos < s'.lsnTableNextPosition ∧ insertPos % 128 = 64
  page : ¬ passed (pageOf insertPos)
  nodes : s'.nodes = s.nodes
  rest : s'.blocks = s.blocks ∧ s'.globalRecycleLsnInfoPage = s.globalRecycleLsnInfoPage
    ∧ s'.dispatcherNextBasePage = s.dispatcherNextBasePage

section

variable (h : s.Allocated passed)
include h

theorem Allocated.grow {s' : State Tag} (hnodes : s'.nodes = s.nodes)
    (hglobal : s'.globalRecycleLsnInfoPage = s.globalRecycleLsnInfoPage)
    (hgrow : s.lsnTableNextPosition ≤ s'.lsnTableNextPosition)
    (hnext : s'.isRecyclePositionInit = true ∧ s'.lsnTableNextPosition % 128 = 64
      ∧ pageOf s'.lsnTableNextPosition < s'.dispatcherNextLsnInfoPage)
    (hcounters : s'.dispatcherNextLsnInfoPage % blcksz = 0 ∧ s'.dispatcherNextBasePage % blcksz = 0)
    (hpages : ∀ page, s'.nextLsnInfoPage page ≠ 0 → page < pageOf s'.lsnTableNextPosition)
    (hpassed : ∀ page, passed page → page < pageOf s'.lsnTableNextPosition) : s'.Allocated passed where
  next := by rw [if_pos hnext.left]; exact hnext.right
  counters := hcounters
  pages := hpages
  passed := hpassed
  nodes pos node hnode := by
    rw [hnodes] at hnode
    have hpos := h.nodes pos node hnode
    exact ⟨Nat.lt_of_lt_of_le hpos.left hgrow, hpos.right⟩
  globalRecycle := by rw [hglobal]; exact Nat.le_trans h.globalRecycle hgrow
  links pos node hnode hhead := by
    rw [hnodes] at hnode
    rw [hnodes]
    have hlinks := h.links pos node hnode hhead
    exact ⟨Nat.lt_of_lt_of_le hlinks.left hgrow, hlinks.right⟩

theorem Placed.fresh (hle : s.lsnTableNextPosition ≤ s.dispatcherNextLsnInfoPage)
    (pages : Nat → Nat) (recyclePos : Nat)
    (hpages : ∀ page, pages page ≠ 0 → page < s.dispatcherNextLsnInfoPage)
    (hpassed : ∀ page, passed page → page < s.dispatcherNextLsnInfoPage)
    : Placed passed s
        { s with
          nextLsnInfoPage := pages
          lsnTableNextPosition := s.dispatcherNextLsnInfoPage + 64 + 128
          isRecyclePositionInit := true
          lsnTableRecyclePosition := recyclePos
          dispatcherNextLsnInfoPage := s.dispatcherNextLsnInfoPage + 8192 }
        (s.dispatcherNextLsnInfoPage + 64) := by
  have hcounters := h.counters
  simp only [blcksz] at hcounters
  have hpage : pageOf (s.dispatcherNextLsnInfoPage + 64 + 128) = s.dispatcherNextLsnInfoPage := by
    simp only [pageOf, blcksz]
    omega
  constructor
  . refine h.grow rfl rfl ?_ ?_ ?_ ?_ ?_
    . dsimp only
      omega
    . dsimp only
      rw [hpage]
      exact ⟨rfl, by omega, by omega⟩
    . simp only [blcksz]
      omega
    . simp only [hpage]
      exact hpages
    . simp only [hpage]
      exact hpassed
  . dsimp only
    omega
  . have : pageOf (s.dispatcherNextLsnInfoPage + 64) = s.dispatcherNextLsnInfoPage := by
      simp only [pageOf, blcksz]
      omega
    rw [this]
    intro hmem
    exact absurd (hpassed _ hmem) (by omega)
  . rfl
  . exact ⟨rfl, rfl, rfl⟩

theorem Placed.same (hinit : s.isRecyclePositionInit = true)
    (hroom : s.lsnTableNextPosition % 8192 ≤ 8192 - 128)
    : Placed passed s { s with lsnTableNextPosition := s.lsnTableNextPosition + 128 }
        s.lsnTableNextPosition := by
  have hnext := h.next
  rw [if_pos hinit] at hnext
  have hpage : pageOf (s.lsnTableNextPosition + 128) = pageOf s.lsnTableNextPosition := by
    simp only [pageOf, blcksz]
    omega
  constructor
  . refine h.grow rfl rfl ?_ ?_ ?_ ?_ ?_
    . dsimp only
      omega
    . dsimp only
      rw [hpage]
      exact ⟨hinit, by omega, hnext.right⟩
    . exact h.counters
    . simp only [hpage]
      exact h.pages
    . simp only [hpage]
      exact h.passed
  . dsimp only
    omega
  . intro hmem
    exact absurd (h.passed _ hmem) (Nat.lt_irrefl _)
  . rfl
  . exact ⟨rfl, rfl, rfl⟩

theorem allocate_spec : Placed passed s s.allocate.2 s.allocate.1 := by
  have hnext := h.next
  have hcounters := h.counters
  simp only [blcksz] at hcounters
  cases hinit : s.isRecyclePositionInit with
  | false =>
    rw [hinit] at hnext
    simp only [Bool.false_eq_true, if_false] at hnext
    have hzero : pageOf s.lsnTableNextPosition = 0 := by
      rw [hnext]
      rfl
    have hplaced := Placed.fresh h (by omega) s.nextLsnInfoPage s.dispatcherNextLsnInfoPage
      (fun page hpage => absurd (h.pages page hpage) (by omega))
      (fun page hpage => absurd (h.passed page hpage) (by omega))
    simpa [allocate, hnext, hinit, blcksz, basePageInfoNodeSize, lsnInfoNodeSize, lsnInfoHeadSize] using hplaced
  | true =>
    rw [if_pos hinit] at hnext
    by_cases hroom : s.lsnTableNextPosition % 8192 ≤ 8192 - 128
    . have hplaced := Placed.same h hinit hroom
      have hlt : ¬ 8192 - s.lsnTableNextPosition % 8192 < 128 := by omega
      have hmod : ¬ s.lsnTableNextPosition % 8192 = 0 := by omega
      simpa [allocate, blcksz, basePageInfoNodeSize, hlt, hmod] using hplaced
    . have hlt : 8192 - s.lsnTableNextPosition % 8192 < 128 := by omega
      have hmod : (s.lsnTableNextPosition + 64) % 8192 = 0 := by omega
      have hpage : s.lsnTableNextPosition + 64 - 8192 = pageOf s.lsnTableNextPosition := by
        simp only [pageOf, blcksz]
        omega
      have hbelow := hnext.right
      have hle : s.lsnTableNextPosition ≤ s.dispatcherNextLsnInfoPage := by
        simp only [pageOf, blcksz] at hbelow
        omega
      have hplaced := Placed.fresh h hle
        (Function.update s.nextLsnInfoPage (pageOf s.lsnTableNextPosition) s.dispatcherNextLsnInfoPage)
        s.lsnTableRecyclePosition
        (by
          intro page hpage
          by_cases heq : page = pageOf s.lsnTableNextPosition
          . omega
          . rw [update_of_ne heq] at hpage
            exact Nat.lt_trans (h.pages page hpage) hbelow)
        (fun page hpage => Nat.lt_trans (h.passed page hpage) hbelow)
      simpa [allocate, blcksz, basePageInfoNodeSize, lsnInfoNodeSize, lsnInfoHeadSize, hlt, hmod, hinit, hpage]
        using hplaced

theorem Allocated.setNode (pos : Nat) (node : BasePageInfo Tag)
    (hpos : pos < s.lsnTableNextPosition ∧ pos % 128 = 64)
    (hnext : node.basePageList.next ≠ listHead → node.basePageList.next < s.lsnTableNextPosition
      ∧ ∀ node', (s.setNode pos node).nodes node.basePageList.next = some node' → node'.tag = node.tag)
    (hprev : ∀ p n, s.nodes p = some n → n.basePageList.next = pos → n.tag = node.tag)
    : (s.setNode pos node).Allocated passed := { h with
  nodes p n hn := by
    by_cases hp : p = pos
    . rw [hp]
      exact hpos
    . rw [setNode_of_ne s _ hp] at hn
      exact h.nodes p n hn
  links p n hn hhead := by
    by_cases hp : p = pos
    . rw [hp, setNode_self, Option.some.injEq] at hn
      rw [← hn] at hhead
      rw [← hn]
      exact hnext hhead
    . rw [setNode_of_ne s _ hp] at hn
      have hlinks := h.links p n hn hhead
      apply And.intro hlinks.left
      intro after hafter
      by_cases hq : n.basePageList.next = pos
      . rw [hq, setNode_self, Option.some.injEq] at hafter
        rw [← hafter]
        exact (hprev p n hn hq).symm
      . rw [setNode_of_ne s _ hq] at hafter
        exact hlinks.right after hafter }

end

def newNode (tag : Tag) (oldTail currentPageLsn nextLsn basePagePos : Nat) : BasePageInfo Tag where
  valid := true
  lsn := nextLsn
  basePageList := ⟨listHead, oldTail⟩
  curPageLsn := currentPageLsn
  nextBasePageLsn := 0
  tag
  basePagePosition := basePagePos

def linkNode (s : State Tag) (tag : Tag) (oldTail insertPos currentPageLsn nextLsn basePagePos : Nat)
    : State Tag :=
  let s := s.setNode insertPos (newNode tag oldTail currentPageLsn nextLsn basePagePos)
  if oldTail ≠ listHead then s.modifyOldTail oldTail insertPos currentPageLsn else s

structure Linked (passed : Nat → Prop) (s s₁ s₂ : State Tag) (tag : Tag) (xs : List Entry) (new : Entry)
    : Prop where
  allocated : s₂.Allocated passed
  segment : ∃ prev, s₂.Segment tag prev (xs ++ [new]) listHead
  other : ∀ pos node, s.nodes pos = some node → node.tag ≠ tag → s₂.nodes pos = some node
  rest : s₂ = { s₁ with nodes := s₂.nodes }

theorem Placed.ne {s s₁ : State Tag} (hplaced : Placed passed s s₁ insertPos)
    (h : s.Allocated passed) (pos : Nat) (node : BasePageInfo Tag) (hnode : s.nodes pos = some node) : pos ≠ insertPos := by
  have hpos := (h.nodes pos node hnode).left
  have hle := hplaced.pos.left
  omega

theorem Placed.setNode {s s₁ : State Tag} (hplaced : Placed passed s s₁ insertPos)
    (h : s.Allocated passed) (tag : Tag) (oldTail currentPageLsn nextLsn basePagePos : Nat)
    : (s₁.setNode insertPos (newNode tag oldTail currentPageLsn nextLsn basePagePos)).Allocated passed := by
  apply hplaced.allocated.setNode
  . exact hplaced.pos.right
  . intro hhead
    exact absurd rfl hhead
  . intro p n hn hnext
    rw [hplaced.nodes] at hn
    have hhead : insertPos ≠ listHead := by
      rintro rfl
      exact absurd hplaced.pos.right.right (by decide)
    have hlt := (h.links p n hn (by rwa [hnext])).left
    have hle := hplaced.pos.left
    omega

theorem linkNode_spec (h : s.Allocated passed) {s₁ : State Tag}
    (hplaced : Placed passed s s₁ insertPos) (tag : Tag) (xs : List Entry)
    (hblocked : s.Blocked passed tag xs) (currentPageLsn nextLsn basePagePos : Nat)
    : Linked passed s s₁ (s₁.linkNode tag (lastPos listHead xs) insertPos currentPageLsn nextLsn basePagePos)
        tag xs ⟨⟨nextLsn, basePagePos⟩, insertPos⟩ := by
  have halloc := hplaced.setNode h tag (lastPos listHead xs) currentPageLsn nextLsn basePagePos
  have hnew : ∀ pos node, s.nodes pos = some node →
      (s₁.setNode insertPos (newNode tag (lastPos listHead xs) currentPageLsn nextLsn basePagePos)).nodes pos
        = some node := by
    intro pos node hnode
    rw [setNode_of_ne s₁ _ (hplaced.ne h pos node hnode), hplaced.nodes, hnode]
  rcases eq_nil_or_concat xs with hnil | ⟨ys, e, hxs⟩
  . rw [hnil] at halloc hnew ⊢
    unfold linkNode
    simp only [lastPos, ne_eq, not_true_eq_false, if_false] at halloc hnew ⊢
    refine ⟨halloc, ⟨listHead, ?_, trivial⟩, fun pos node hnode _ => hnew pos node hnode, rfl⟩
    exact ⟨_, setNode_self .., rfl, rfl, rfl, rfl, rfl⟩
  . rw [concat_eq_append] at hxs
    have he : e ∈ xs := by simp [hxs]
    have hlast : lastPos listHead xs = e.pos := by simp [hxs, lastPos]
    have hhead := (hblocked.pos_ne h e he).left
    rcases hblocked.segment with ⟨prev, hseg⟩
    rw [hxs, Segment_append] at hseg
    rcases hseg.right.left.node with ⟨node, hnode, hvalid, htag, hlsn, hpage, hlinks⟩
    rw [hlast] at halloc hnew ⊢
    unfold linkNode
    dsimp only
    rw [if_pos hhead]
    unfold modifyOldTail
    rw [hnew e.pos node hnode]
    dsimp only
    have hne := hplaced.ne h e.pos node hnode
    have halign : insertPos ≠ listHead := by
      rintro rfl
      exact absurd hplaced.pos.right.right (by decide)
    constructor
    . apply halloc.setNode
      . have hpos := h.nodes e.pos node hnode
        have hle := hplaced.pos
        refine ⟨?_, hpos.right⟩
        dsimp only [setNode]
        omega
      . intro _
        refine ⟨hplaced.pos.right.left, ?_⟩
        intro node' hnode'
        rw [setNode_of_ne _ _ hne.symm, setNode_self, Option.some.injEq] at hnode'
        rw [← hnode', htag]
        rfl
      . intro p n hn hnext
        have htag' := (halloc.links p n hn (by rw [hnext]; exact hhead)).right
        rw [hnext] at htag'
        exact (htag' node (hnew e.pos node hnode)).symm
    . refine ⟨prev, ?_⟩
      rw [hxs, append_assoc, Segment_append]
      apply And.intro
      . apply hseg.left.congr
        intro a ha n hn _
        rw [hxs] at hblocked
        have hlt := ((pairwise_append.mp hblocked.sorted).right.right a ha e (by simp)).left
        rw [setNode_of_ne _ _ (by omega)]
        exact hnew a.pos n hn
      . refine ⟨⟨_, setNode_self .., hvalid, htag, hlsn, hpage, ?_⟩,
          ⟨newNode tag e.pos currentPageLsn nextLsn basePagePos, ?_, rfl, rfl, rfl, rfl, rfl⟩, trivial⟩
        . rw [hlinks]
          rfl
        . rw [setNode_of_ne _ _ hne.symm, setNode_self]
    . intro pos other hother htag'
      have hpos : pos ≠ e.pos := by
        rintro rfl
        rw [hnode, Option.some.injEq] at hother
        rw [hother] at htag
        exact htag' htag
      rw [setNode_of_ne _ _ hpos]
      exact hnew pos other hother
    . rfl

variable [DecidableEq Tag]

theorem insertLsnToBlockInfo_eq (tag : Tag) (currentPageLsn nextLsn : Nat) (s₁ : State Tag) (insertPos : Nat)
    (halloc : ({ s with dispatcherNextBasePage := s.dispatcherNextBasePage + blcksz } : State Tag).allocate
      = (insertPos, s₁)) (list : DoubleList)
    (hlist : list =
      (if !(s.blocks tag).valid || (s.blocks tag).lsnInfoList.prev < s.globalRecycleLsnInfoPage then
        DoubleList.init
      else
        (s.blocks tag).basePageInfoList))
    (hlists : (s.blocks tag).valid = true → (s.blocks tag).lsnInfoList = (s.blocks tag).basePageInfoList)
    : ∃ minLsn, s.insertLsnToBlockInfo tag currentPageLsn nextLsn
      = (s₁.linkNode tag list.prev insertPos currentPageLsn nextLsn s.dispatcherNextBasePage).setBlock tag
        { valid := true
          minLsn
          maxLsn := nextLsn
          lsnInfoList := ⟨if list.next = listHead then insertPos else list.next, insertPos⟩
          basePageInfoList := ⟨if list.next = listHead then insertPos else list.next, insertPos⟩ } := by
  cases hvalid : (s.blocks tag).valid with
  | false =>
    simp only [hvalid, Bool.not_false, Bool.true_or, if_true] at hlist
    refine ⟨currentPageLsn, ?_⟩
    rw [hlist]
    simp [insertLsnToBlockInfo, hvalid, insertBasePageToLsnInfo, initBlockInfo, halloc, DoubleList.init,
      linkNode, newNode]
  | true =>
    simp only [hvalid, Bool.not_true, Bool.false_or, decide_eq_true_eq] at hlist
    by_cases hpassed : (s.blocks tag).lsnInfoList.prev < s.globalRecycleLsnInfoPage
    . rw [if_pos hpassed] at hlist
      refine ⟨currentPageLsn, ?_⟩
      rw [hlist]
      simp [insertLsnToBlockInfo, hvalid, hpassed, insertBasePageToLsnInfo, initBlockInfo, halloc,
        DoubleList.init, linkNode, newNode]
    . rw [if_neg hpassed] at hlist
      refine ⟨(s.blocks tag).minLsn, ?_⟩
      rw [hlist]
      have hsame := hlists hvalid
      rw [hsame] at hpassed
      simp [insertLsnToBlockInfo, hvalid, hpassed, insertBasePageToLsnInfo, halloc, hsame, linkNode, newNode]

omit [DecidableEq Tag] in
theorem Allocated.others (h : s.Allocated passed) (lsnInfoPages basePages : Nat)
    : ({ s with
        dispatcherNextLsnInfoPage := s.dispatcherNextLsnInfoPage + lsnInfoPages * blcksz
        dispatcherNextBasePage := s.dispatcherNextBasePage + basePages * blcksz } : State Tag).Allocated
        passed := { h with
  next := by
    have hnext := h.next
    dsimp only
    split
    . rename_i hinit
      rw [if_pos hinit] at hnext
      exact ⟨hnext.left, by omega⟩
    . rename_i hinit
      rw [if_neg hinit] at hnext
      exact hnext
  counters := by
    have hcounters := h.counters
    simp only [blcksz] at hcounters ⊢
    omega }

theorem insertLsnToBlockInfo_spec (h : s.Allocated passed) (live : Tag → List Entry)
    (hblocked : ∀ tag, s.Blocked passed tag (live tag)) (tag : Tag) (currentPageLsn nextLsn : Nat)
    (hlsn : nextLsn ≠ 0) (hlsns : ∀ e ∈ live tag, e.lsn ≤ nextLsn)
    : ∃ insertPos, (s.insertLsnToBlockInfo tag currentPageLsn nextLsn).Allocated passed
      ∧ ∀ other, (s.insertLsnToBlockInfo tag currentPageLsn nextLsn).Blocked passed other
        (Function.update live tag (live tag ++ [⟨⟨nextLsn, s.dispatcherNextBasePage⟩, insertPos⟩]) other) := by
  have hplaced := allocate_spec (h.others 0 1)
  rw [Nat.zero_mul, Nat.one_mul, Nat.add_zero] at hplaced
  generalize halloc :
    ({ s with dispatcherNextBasePage := s.dispatcherNextBasePage + blcksz } : State Tag).allocate = r at hplaced
  rcases r with ⟨insertPos, s₁⟩
  dsimp only at hplaced
  have h₀ := h.others 0 1
  rw [Nat.zero_mul, Nat.one_mul, Nat.add_zero] at h₀
  have hblocked₀ : ∀ tag,
      ({ s with dispatcherNextBasePage := s.dispatcherNextBasePage + blcksz } : State Tag).Blocked passed tag
        (live tag) := fun tag => (hblocked tag).frame rfl rfl (fun _ _ _ hnode _ => hnode)
  have hlinked := linkNode_spec h₀ hplaced tag (live tag) (hblocked₀ tag) currentPageLsn nextLsn
    s.dispatcherNextBasePage
  have hlist : (⟨firstPos listHead (live tag), lastPos listHead (live tag)⟩ : DoubleList)
      = (if !(s.blocks tag).valid || (s.blocks tag).lsnInfoList.prev < s.globalRecycleLsnInfoPage then
        DoubleList.init else (s.blocks tag).basePageInfoList) := by
    cases hvalid : (s.blocks tag).valid with
    | false =>
      rw [(hblocked tag).invalid hvalid]
      rfl
    | true =>
      rcases (hblocked tag).block hvalid with ⟨hne, hlists, hends, -⟩
      rcases lastPos_mem listHead (live tag) hne with ⟨e, he, hlast⟩
      have hglobal := ((hblocked tag).entries e he).right.right
      rw [hlists, hends, hlast]
      simp [Nat.not_lt.mpr hglobal]
  rcases insertLsnToBlockInfo_eq tag currentPageLsn nextLsn s₁ insertPos halloc _ hlist
    (fun hvalid => ((hblocked tag).block hvalid).right.left) with ⟨minLsn, heq⟩
  refine ⟨insertPos, ?_, ?_⟩
  . rw [heq]
    exact hlinked.allocated.frame (Frame.of_nodes rfl rfl)
  . intro other
    rw [heq]
    have hglobal : (s₁.linkNode tag (lastPos listHead (live tag)) insertPos currentPageLsn nextLsn
        s.dispatcherNextBasePage).globalRecycleLsnInfoPage = s.globalRecycleLsnInfoPage := by
      rw [hlinked.rest]
      exact hplaced.rest.right.left
    by_cases hother : other = tag
    . rw [hother, update_self]
      constructor
      . rcases hlinked.segment with ⟨prev, hseg⟩
        exact ⟨prev, hseg.congr _ _ tag (fun _ _ _ hnode _ => hnode)⟩
      . rw [pairwise_append]
        refine ⟨(hblocked tag).sorted, pairwise_singleton _ _, ?_⟩
        intro a ha b hb
        rw [mem_singleton.mp hb]
        rcases (hblocked tag).node a ha with ⟨node, hnode, -⟩
        exact ⟨Nat.lt_of_lt_of_le (h.nodes a.pos node hnode).left hplaced.pos.left, hlsns a ha⟩
      . intro e he
        dsimp only [setBlock]
        rw [hglobal]
        rcases mem_append.mp he with hold | hnew
        . exact (hblocked tag).entries e hold
        . rw [mem_singleton.mp hnew]
          exact ⟨hlsn, hplaced.page, Nat.le_trans h.globalRecycle hplaced.pos.left⟩
      . simp [setBlock]
      . intro _
        simp only [setBlock, update_self]
        refine ⟨by simp, True.intro, ?_, ?_⟩
        . cases hlive : live tag with
          | nil => rfl
          | cons first rest =>
            have hhead := ((hblocked tag).pos_ne h first (by simp [hlive])).left
            simp [hhead, lastPos]
        . intro e he
          rcases mem_append.mp he with hold | hnew
          . exact hlsns e hold
          . obtain rfl := mem_singleton.mp hnew
            exact Nat.le_refl nextLsn
      . intro _
        simp only [setBlock, update_self]
        exact ⟨⟨⟨nextLsn, s.dispatcherNextBasePage⟩, insertPos⟩, by simp, rfl⟩
    . rw [update_of_ne hother]
      apply (hblocked other).frame
      . exact hglobal
      . simp only [setBlock, update_of_ne hother]
        rw [hlinked.rest]
        exact congrFun hplaced.rest.left other
      . intro e he node hnode htag
        apply hlinked.other e.pos node hnode
        rw [htag]
        exact hother

end State

end StandbyRead

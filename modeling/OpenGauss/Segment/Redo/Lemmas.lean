import OpenGauss.Segment.ExtentGroup.Allocator
import OpenGauss.Segment.Redo.Impl

/-!
This module contains the verification of replaying the log of an extent group.
-/

open Layout SegPages MapPage List Bitmap

namespace SegExtentGroup

def Replays (seg seg' : SegExtentGroup) : Prop :=
  ∃ records, seg'.xlog = seg.xlog ++ records ∧ seg.toPages.replay records = .ok seg'.toPages

namespace Replays

theorem refl (seg : SegExtentGroup) : seg.Replays seg := by
  refine ⟨[], ?_, rfl⟩
  rw [append_nil]

theorem trans (h : Replays seg1 seg2) (h' : Replays seg2 seg3) : Replays seg1 seg3 := by
  obtain ⟨records, hxlog, hreplay⟩ := h
  obtain ⟨records', hxlog', hreplay'⟩ := h'
  refine ⟨records ++ records', ?_, ?_⟩
  . rw [hxlog', hxlog, append_assoc]
  . rw [replay, foldlM_append, ← replay, hreplay]
    exact hreplay'

end Replays

theorem replays_of_marks (h : Marks seg seg') : Replays seg seg' := by
  obtain ⟨block, bitid, pageend, mapGroup, freePage, mapPage, hset, rfl⟩ := h
  refine ⟨_, rfl, ?_⟩
  by_cases hfree : (seg.mapPages block).free bitid = true
  . rw [egSetBitmapPage_eq hfree] at hset
    injection hset with hset
    subst hset
    simp only [free, Bool.not_eq_true'] at hfree
    simp [replay, redo, redoSetBitmap, redoBitmap, toPages,
      hfree, bind, Except.bind, SegPages.redoMapheadAllocatedExtents,
      egAllocExtentFromMapInternal.update, MapHead.setFreePage, MapHead.tryUpdateHwm, pure,
      Except.pure]
  . simp only [Bool.not_eq_true] at hfree
    simp [egSetBitmapPage, hfree, segmentCheck, bind, Except.bind] at hset

theorem replays_init (todo pageno dataStart : Nat) (seg : SegExtentGroup)
    : seg.Replays (egAddMapGroup.init seg todo pageno dataStart) := by
  induction todo generalizing seg pageno dataStart with
  | zero => apply Replays.refl
  | succ todo ih =>
    simp only [egAddMapGroup.init]
    apply Replays.trans _ (ih _ _ _)
    exact ⟨_, rfl, rfl⟩

theorem replays_egAddMapGroup
    (h : egAddMapGroup seg pageno groupSize oldGroupCount = .ok seg') : Replays seg seg' := by
  simp only [egAddMapGroup] at h
  split at h
  . injection h with h
    subst h
    apply Replays.refl
  . simp only [Except.bind_eq_ok] at h
    obtain ⟨_, _, _, _, h⟩ := h
    injection h with h
    subst h
    apply Replays.trans (replays_init _ _ _ _)
    exact ⟨_, rfl, rfl⟩

theorem Allocs.replays (h : Allocs seg res) : Replays seg res.1 := by
  induction h with
  | stop => apply Replays.refl
  | grow hgrow _ ih => apply (replays_egAddMapGroup hgrow).trans ih
  | extend _ ih => exact ih
  | mark hmark => apply replays_of_marks hmark

theorem replays_shrinkHwm (h : shrinkHwm seg targetSize = .ok seg') : Replays seg seg' := by
  simp only [shrinkHwm, Except.bind_eq_ok] at h
  obtain ⟨_, _, ⟨newHwm, newCount⟩, _, h⟩ := h
  simp only at h
  generalize (if alignBlocks newHwm < targetSize then targetSize else alignBlocks newHwm) = hwm at h
  split at h
  . simp only [Except.bind_eq_ok] at h
    obtain ⟨_, _, h⟩ := h
    injection h with h
    subst h
    refine ⟨_, rfl, ?_⟩
    simp [replay, redo, redoSpaceUpdateHwm, toPages, bind, Except.bind, pure, Except.pure]
  . injection h with h
    subst h
    apply Replays.refl

/--
The free group is the only one whose hint a free logs, so the hint that it lowers has to be that one.
-/
def HintLogged (seg : SegExtentGroup) (block : Nat) : Prop :=
  let location := seg.egLocateMapByPageid block
  ¬ (seg.mapHead.freeGroup < location.mapGroup
    ∧ location.mapId < (seg.mapHead.groups location.mapGroup).freePage)

theorem replays_iff_of_xlog_eq (h : seg'.xlog = seg.xlog ++ records)
    : Replays seg seg' ↔ seg.toPages.replay records = .ok seg'.toPages := by
  constructor
  . intro hreplays
    obtain ⟨records', hxlog, hreplay⟩ := hreplays
    rw [h] at hxlog
    rw [append_cancel_left hxlog]
    exact hreplay
  . intro hreplay
    exact ⟨records, h, hreplay⟩

theorem setFreePage_logged_iff (mapHead : MapHead) (g page fg : Nat)
    : mapHead.setFreePage fg ((mapHead.setFreePage g page).groups fg).freePage
        = mapHead.setFreePage g page
        ↔
      fg = g ∨ (mapHead.groups g).freePage = page := by
  by_cases heq : fg = g
  . subst heq
    simp [MapHead.setFreePage]
  . have hself : ∀ i, ({ mapHead.groups i with freePage := (mapHead.groups i).freePage } : MapGroup)
        = mapHead.groups i := fun _ => rfl
    simp only [MapHead.setFreePage, Function.update_of_ne heq, hself, Function.update_eq_self, heq, false_or]
    constructor
    . intro hhead
      have hpage := congrArg (fun head => (head.groups g).freePage) hhead
      simpa using hpage
    . intro hpage
      subst hpage
      simp [hself]

theorem replay_egFreeExtent_update (seg : SegExtentGroup) (location : SpaceMapLocation)
    (block : Nat) (mapPage : MapPage)
    (hset : (seg.mapPages block).egUnsetBitmapPage location.bitId = .ok mapPage)
    : Replays seg (egFreeExtent.update seg location block mapPage)
        ↔
      ¬ (seg.mapHead.freeGroup < location.mapGroup
        ∧ location.mapId < (seg.mapHead.groups location.mapGroup).freePage) := by
  have hfree : (seg.mapPages block).free location.bitId = false := by
    by_contra hfree
    simp only [Bool.not_eq_false] at hfree
    simp [egUnsetBitmapPage, hfree, segmentCheck, bind, Except.bind] at hset
  rw [egUnsetBitmapPage_eq hfree] at hset
  injection hset with hset
  simp only [free, Bool.not_eq_false'] at hfree
  let mapHead := { seg.mapHead with
    allocatedExtents := seg.mapHead.allocatedExtents - 1
    freeGroup := if seg.mapHead.freeGroup > location.mapGroup then location.mapGroup
      else seg.mapHead.freeGroup }
  let page := if (seg.mapHead.groups location.mapGroup).freePage > location.mapId then
    location.mapId else (seg.mapHead.groups location.mapGroup).freePage
  have hlogged := setFreePage_logged_iff mapHead location.mapGroup page mapHead.freeGroup
  have hcond : (mapHead.freeGroup = location.mapGroup
        ∨ (mapHead.groups location.mapGroup).freePage = page)
      ↔ ¬ (seg.mapHead.freeGroup < location.mapGroup
        ∧ location.mapId < (seg.mapHead.groups location.mapGroup).freePage) := by
    simp only [mapHead, page]
    split <;> split <;> omega
  rw [← hcond, ← hlogged, replays_iff_of_xlog_eq rfl]
  subst hset
  simp only [replay, foldlM_cons, foldlM_nil, redo,
    redoUnsetBitmap, redoBitmap, toPages, hfree, bind, Except.bind, pure,
    Except.pure, ne_eq, not_true_eq_false, if_false, Bool.true_eq_false]
  rw [Except.ok.injEq, SegPages.redoMapheadAllocatedExtents, SegPages.mk.injEq]
  simp only [egFreeExtent.update, and_true]
  rfl

theorem replays_egFreeExtent_iff (h : egFreeExtent seg block = .ok seg')
    : Replays seg seg' ↔ HintLogged seg block := by
  simp only [egFreeExtent] at h
  split at h
  . simp [bind, Except.bind, throw, throwThe, MonadExceptOf.throw] at h
  . simp only [Except.bind_eq_ok] at h
    obtain ⟨mapPage, hset, h⟩ := h
    injection h with h
    subst h
    apply replay_egFreeExtent_update _ _ _ _ hset

inductive Op where
  | alloc (limit : Nat) (preassignedBlock : Option Nat) (fuel : Nat)
  | free (block : Nat)
  | addMapGroup (pageno groupSize oldGroupCount : Nat)
  | shrinkHwm (targetSize : Nat)

def step (seg : SegExtentGroup) (op : Op) : Except SegError SegExtentGroup :=
  match op with
  | .alloc limit preassignedBlock fuel =>
    (seg.egAllocExtent limit preassignedBlock fuel).map Prod.fst
  | .free block => seg.egFreeExtent block
  | .addMapGroup pageno groupSize oldGroupCount => seg.egAddMapGroup pageno groupSize oldGroupCount
  | .shrinkHwm targetSize => seg.shrinkHwm targetSize

def Logged (seg : SegExtentGroup) (op : Op) : Prop :=
  match op with
  | .free block => seg.HintLogged block
  | _ => True

-- A run in which every free logs the hint that it lowers.
inductive LoggedRun : SegExtentGroup → List Op → SegExtentGroup → Prop where
  | nil : LoggedRun seg [] seg
  | cons : seg.Logged op → seg.step op = .ok seg' → LoggedRun seg' ops seg'' →
      LoggedRun seg (op :: ops) seg''

theorem replays_step_iff (h : step seg op = .ok seg') : Replays seg seg' ↔ seg.Logged op := by
  cases op with
  | alloc limit preassignedBlock fuel =>
    simp only [step, Except.map_eq_ok] at h
    obtain ⟨res, hres, rfl⟩ := h
    simp only [Logged, iff_true]
    apply (allocs_egAllocExtent _ _ hres).replays
  | free block => apply replays_egFreeExtent_iff h
  | addMapGroup pageno groupSize oldGroupCount =>
    simp only [Logged, iff_true]
    apply replays_egAddMapGroup h
  | shrinkHwm targetSize =>
    simp only [Logged, iff_true]
    apply replays_shrinkHwm h

theorem LoggedRun.replays (h : LoggedRun seg ops seg') : Replays seg seg' := by
  induction h with
  | nil => apply Replays.refl
  | cons hlogged hstep _ ih => apply ((replays_step_iff hstep).mpr hlogged).trans ih

theorem Replays.replay_drop (h : Replays seg seg')
    : seg.toPages.replay (seg'.xlog.drop seg.xlog.length) = .ok seg'.toPages := by
  obtain ⟨records, hxlog, hreplay⟩ := h
  rw [hxlog, drop_left]
  exact hreplay

theorem step_xlog (h : step seg op = .ok seg') : ∃ records, seg'.xlog = seg.xlog ++ records := by
  cases op with
  | free block =>
    simp only [step, egFreeExtent] at h
    split at h
    . simp [bind, Except.bind, throw, throwThe, MonadExceptOf.throw] at h
    . simp only [Except.bind_eq_ok] at h
      obtain ⟨mapPage, _, h⟩ := h
      injection h with h
      subst h
      exact ⟨_, rfl⟩
  | alloc limit preassignedBlock fuel =>
    obtain ⟨records, hxlog, _⟩ := (replays_step_iff h).mpr trivial
    exact ⟨records, hxlog⟩
  | addMapGroup pageno groupSize oldGroupCount =>
    obtain ⟨records, hxlog, _⟩ := (replays_step_iff h).mpr trivial
    exact ⟨records, hxlog⟩
  | shrinkHwm targetSize =>
    obtain ⟨records, hxlog, _⟩ := (replays_step_iff h).mpr trivial
    exact ⟨records, hxlog⟩

theorem Replays.trans_iff (h : Replays seg1 seg2) (hxlog : seg3.xlog = seg2.xlog ++ records)
    : seg1.toPages.replay (seg3.xlog.drop seg1.xlog.length) = .ok seg3.toPages ↔ Replays seg2 seg3 := by
  obtain ⟨records', hxlog', hreplay⟩ := h
  rw [replays_iff_of_xlog_eq hxlog, hxlog, hxlog', append_assoc, drop_left,
    replay, foldlM_append, ← replay, hreplay]
  rfl

theorem replay_of_loggedRun (h : LoggedRun seg ops seg')
    : seg.toPages.replay (seg'.xlog.drop seg.xlog.length) = .ok seg'.toPages
        ∧
      (∀ op seg'', seg'.step op = .ok seg'' →
        (seg.toPages.replay (seg''.xlog.drop seg.xlog.length) = .ok seg''.toPages
          ↔ seg'.Logged op)) := by
  constructor
  . apply h.replays.replay_drop
  . intro op seg'' hstep
    obtain ⟨records, hxlog⟩ := step_xlog hstep
    rw [h.replays.trans_iff hxlog, replays_step_iff hstep]

theorem replay_of_loggedRun_allocFree
    : ∃ seg seg' : SegExtentGroup, LoggedRun seg [.alloc (2 ^ 32 - 1) (some 4173) 1, .free 4173] seg'
        ∧ seg.toPages.replay (seg'.xlog.drop seg.xlog.length) = .ok seg'.toPages := by
  have hrun : ((create .extSize8 (fun _ => egInitBitmapPageContent 0) 16384).egAllocExtent
      (2 ^ 32 - 1) (some 4173) 1).map (fun r => (r.2, r.1.mapHead.freeGroup,
        (r.1.egLocateMapByPageid 4173).mapGroup, (r.1.egFreeExtent 4173).toBool))
        = .ok (some 4173, 0, 0, true) := by
    rfl
  rw [Except.map_eq_ok] at hrun
  obtain ⟨⟨seg, res⟩, hres, heq⟩ := hrun
  simp only [Prod.mk.injEq] at heq
  obtain ⟨-, hfree, hgroup, hok⟩ := heq
  cases hseg' : seg.egFreeExtent 4173 with
  | error e => simp [hseg', Except.toBool] at hok
  | ok seg' =>
    have halloc : (create .extSize8 (fun _ => egInitBitmapPageContent 0) 16384).step
        (.alloc (2 ^ 32 - 1) (some 4173) 1) = .ok seg := by
      simp only [step, hres, Except.map]
    have hfreeLogged : seg.Logged (.free 4173) := by
      simp [Logged, HintLogged, hfree, hgroup]
    have hlogged : LoggedRun _ [.alloc (2 ^ 32 - 1) (some 4173) 1, .free 4173] seg' :=
      .cons (by trivial) halloc (.cons hfreeLogged hseg' .nil)
    exact ⟨_, _, hlogged, (replay_of_loggedRun hlogged).1⟩

def secondGroupUsed : SegExtentGroup where
  extentSize := .extSize1
  mapHead := {
    bitUnit := 1
    groupCount := 2
    freeGroup := 0
    allocatedExtents := dfMapBitCnt
    highWaterMark := Layout.extentStart .extSize1 1 1 0
    groups g := ⟨Layout.groupStart .extSize1 g, if g = 1 then 1 else 0, dfMapGroupSize⟩ }
  mapPages block :=
    let g := (block - 3) / Layout.groupBlocks .extSize1
    let m := (block - 3) % Layout.groupBlocks .extSize1
    if g = 1 ∧ m = 0 then
      { firstPage := Layout.extentStart .extSize1 g m 0
        freeBegin := dfMapBitCnt
        dirtyLast := dfMapBitCnt - 1
        freeBits := 0
        bitmap := fun i => i < dfMapBitCnt }
    else
      egInitBitmapPageContent (Layout.extentStart .extSize1 g m 0)
  totalBlocks := 16777216
  xlog := []

namespace secondGroupUsed

theorem page_eq (hm : m < dfMapGroupSize) : secondGroupUsed.page g m
      =
    if g = 1 ∧ m = 0 then
      { firstPage := extentStart .extSize1 g m 0
        freeBegin := dfMapBitCnt
        dirtyLast := dfMapBitCnt - 1
        freeBits := 0
        bitmap := fun i => i < dfMapBitCnt }
    else
      egInitBitmapPageContent (extentStart .extSize1 g m 0) := by
  have hblocks : groupBlocks .extSize1 = 4180026 := by decide
  have hdiv : (groupStart .extSize1 g + m - 3) / groupBlocks .extSize1 = g := by
    simp only [groupStart, hblocks, dfMapHeadPage_eq, dfMapGroupSize_eq] at *
    omega
  have hmod : (groupStart .extSize1 g + m - 3) % groupBlocks .extSize1 = m := by
    simp only [groupStart, hblocks, dfMapHeadPage_eq, dfMapGroupSize_eq] at *
    omega
  simp only [page, secondGroupUsed, hdiv, hmod]

theorem setBits_eq : secondGroupUsed.setBits = dfMapBitCnt := by
  have hones : ∀ g m, m < dfMapGroupSize → ones (secondGroupUsed.page g m).bitmap dfMapBitCnt
        = 0 + if g = 1 ∧ m = 0 then dfMapBitCnt else 0 := by
    intro g m hm
    rw [page_eq hm]
    split
    . have hzeros := (zeros_eq_zero_iff (fun i => decide (i < dfMapBitCnt)) dfMapBitCnt).mpr
        (fun i hi => by simpa using hi)
      have hsum := ones_add_zeros (fun i => decide (i < dfMapBitCnt)) dfMapBitCnt
      simp only
      omega
    . apply ones_empty
  have hcount : secondGroupUsed.mapHead.groupCount = 2 := rfl
  have hinner : ∀ g, (∑ m ∈ Finset.range dfMapGroupSize, ones (secondGroupUsed.page g m).bitmap dfMapBitCnt)
        = 0 + if g = 1 then dfMapBitCnt else 0 := by
    intro g
    rw [sum_add_of_eq_of_ne (fun _ => 0) _ _ 0 (if g = 1 then dfMapBitCnt else 0) (by decide)]
    . simp
    . rw [hones g 0 (by decide)]
      simp
    . intro m hm hne
      rw [hones g m hm, if_neg (fun h => hne h.2)]
  simp only [setBits, hcount, hinner]
  simp

theorem inv : secondGroupUsed.Inv := by
  have hsize : secondGroupUsed.extentSize = .extSize1 := rfl
  have hcount : secondGroupUsed.mapHead.groupCount = 2 := rfl
  have hgroups : ∀ g, secondGroupUsed.mapHead.groups g
      = ⟨groupStart .extSize1 g, if g = 1 then 1 else 0, dfMapGroupSize⟩ := fun _ => rfl
  constructor
  . rfl
  . intro g _
    rfl
  . intro g _
    rfl
  . intro g m hg hm
    have hle := extentStart_le .extSize1 (g := g) (b := 0) hm (by decide)
    have hg : g < 2 := by omega
    have hend := dataEnd_le_groupStart .extSize1 hg
    have hfit : groupStart .extSize1 2 < 2 ^ 32 := by decide
    rw [page_eq hm, hsize, u32_of_lt (by omega)]
    split <;> rfl
  . intro g m _ hm
    rw [page_eq hm]
    split
    . constructor
      . symm
        rw [zeros_eq_zero_iff]
        intro i hi
        simpa using hi
      . intro i hi
        simpa using hi
      . intro i hi
        simp only [decide_eq_true_eq] at hi
        simp only
        omega
      . intro i hi
        simpa using hi
    . apply valid_init
  . intro g _
    rw [hgroups]
    simp only [dfMapGroupSize_eq]
    split <;> omega
  . intro _
    decide
  . intro hzero
    rfl
  . intro g m _ hm
    rw [hgroups] at hm
    simp only at hm
    split at hm
    . next heq =>
      have hzero : m = 0 := by omega
      subst heq hzero
      rw [page_eq (by decide), if_pos ⟨rfl, rfl⟩]
      intro i hi
      simpa using hi
    . omega
  . intro g m hg
    simp [secondGroupUsed] at hg
  . rw [setBits_eq]
    rfl

end secondGroupUsed

theorem not_replay_secondGroupUsed
    : secondGroupUsed.Inv ∧ ∃ seg', secondGroupUsed.egFreeExtent 4184183 = .ok seg'
        ∧ (seg'.mapHead.groups 1).freePage = 0
        ∧ (secondGroupUsed.toPages.replay seg'.xlog).map (fun pages => (pages.mapHead.groups 1).freePage)
          = .ok 1 := by
  have hrun : (secondGroupUsed.egFreeExtent 4184183).map (fun seg' =>
      ((seg'.mapHead.groups 1).freePage, (secondGroupUsed.toPages.replay seg'.xlog).map
        (fun pages => (pages.mapHead.groups 1).freePage))) = .ok (0, .ok 1) := by
    rfl
  rw [Except.map_eq_ok] at hrun
  obtain ⟨seg', hseg', heq⟩ := hrun
  simp only [Prod.mk.injEq] at heq
  exact ⟨secondGroupUsed.inv, seg', hseg', heq.1, heq.2⟩

end SegExtentGroup

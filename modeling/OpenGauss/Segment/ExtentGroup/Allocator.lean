import OpenGauss.Segment.ExtentGroup.Lemmas

/-!
This module contains the runs of the extent allocator.
-/

open Layout

namespace SegExtentGroup

variable {size : ExtentSize}

-- The map pages are whatever the data file holds before the first group is added.
def create (size : ExtentSize) (blankPages : Nat → MapPage) (blocks : Nat) : SegExtentGroup where
  extentSize := size
  mapHead := egInitMapHeadPageContent size
  mapPages := blankPages
  totalBlocks := blocks
  xlog := []

def Fits (seg : SegExtentGroup) : Prop :=
  seg.GroupsFit
    ∧
  ∀ g m b, seg.Allocated g m b →
    extentStart seg.extentSize g m b + seg.extentSize.toNat ≤ invalidBlockNumber

/--
The states that a run can reach, with the extents that are handed out and not freed yet. A block
that is preassigned or freed is the start of an extent that `eg_locate_map_by_pageid` finds.
-/
inductive Reachable (size : ExtentSize) : SegExtentGroup → List Nat → Prop where
  | create : Reachable size (create size blankPages blocks) []
  | alloc : Reachable size seg live →
      (∀ block, pre = some block → Locatable size (max 1 seg.mapHead.groupCount) block) →
      seg.egAllocExtent limit pre fuel = .ok (seg', res) → seg'.Fits →
      Reachable size seg' (res.toList ++ live)
  | free : Reachable size seg live → block ∈ live →
      Locatable size seg.mapHead.groupCount block →
      seg.egFreeExtent block = .ok seg' → Reachable size seg' (live.erase block)

structure Tracks (seg : SegExtentGroup) (live : List Nat) : Prop where
  nodup : live.Nodup
  mem_iff : ∀ block, block ∈ live
    ↔ ∃ g m b, seg.Allocated g m b ∧ block = extentStart seg.extentSize g m b

structure RunInv (size : ExtentSize) (seg : SegExtentGroup) (live : List Nat) : Prop where
  inv : seg.Inv
  fits : seg.Fits
  extentSize_eq : seg.extentSize = size
  tracks : seg.Tracks live

theorem inv_create : (create size blankPages blocks).Inv := by
  constructor
  . rfl
  . intro g hg
    simp [create, egInitMapHeadPageContent] at hg
  . intro g hg
    simp [create, egInitMapHeadPageContent] at hg
  . intro g m hg
    simp [create, egInitMapHeadPageContent] at hg
  . intro g m hg
    simp [create, egInitMapHeadPageContent] at hg
  . intro g hg
    simp [create, egInitMapHeadPageContent] at hg
  . intro hpos
    simp [create, egInitMapHeadPageContent] at hpos
  . intro _
    rfl
  . intro g m hg
    simp [create, egInitMapHeadPageContent] at hg
  . intro g m hg
    simp [create, egInitMapHeadPageContent] at hg
  . simp [setBits, create, egInitMapHeadPageContent]

theorem not_allocated_create : ¬ (create size blankPages blocks).Allocated g m b := by
  simp [Allocated, create, egInitMapHeadPageContent]

theorem runInv_create : RunInv size (create size blankPages blocks) [] := by
  constructor
  . apply inv_create
  . constructor
    . intro g hg
      simp [create, egInitMapHeadPageContent] at hg
    . intro g m b halloc
      exact absurd halloc not_allocated_create
  . rfl
  . constructor
    . apply List.nodup_nil
    . simp [not_allocated_create]

theorem tracks_obtains (htracks : Tracks seg live) (hsize : seg'.extentSize = seg.extentSize)
    (hfits : seg'.Fits) (hobtains : seg.Obtains seg' block) : Tracks seg' (block :: live) := by
  obtain ⟨g, m, b, hblock, hfresh, hiff⟩ := hobtains
  have halloc : seg'.Allocated g m b := by
    rw [hiff]
    exact .inr ⟨rfl, rfl, rfl⟩
  have hend := hfits.2 g m b halloc
  rw [hsize] at hend
  rw [u32_of_lt (by simp only [invalidBlockNumber] at hend; omega)] at hblock
  subst hblock
  constructor
  . apply List.nodup_cons.mpr
    refine ⟨?_, htracks.nodup⟩
    intro hmem
    obtain ⟨g', m', b', halloc', heq⟩ := (htracks.mem_iff _).mp hmem
    obtain ⟨rfl, rfl, rfl⟩ :=
      extentStart_inj _ halloc.2.1 halloc.2.2.1 halloc'.2.1 halloc'.2.2.1 heq
    contradiction
  . intro block
    simp only [List.mem_cons, htracks.mem_iff, hiff, hsize]
    constructor
    . intro h
      obtain rfl | ⟨g', m', b', halloc', heq⟩ := h
      . exact ⟨g, m, b, .inr ⟨rfl, rfl, rfl⟩, rfl⟩
      . exact ⟨g', m', b', .inl halloc', heq⟩
    . intro h
      obtain ⟨g', m', b', halloc' | ⟨rfl, rfl, rfl⟩, heq⟩ := h
      . exact .inr ⟨g', m', b', halloc', heq⟩
      . exact .inl heq

theorem runInv_alloc (h : RunInv size seg live)
    (hpre : ∀ block, pre = some block → Locatable size (max 1 seg.mapHead.groupCount) block)
    (hres : seg.egAllocExtent limit pre fuel = .ok (seg', res)) (hfits : seg'.Fits)
    : RunInv size seg' (res.toList ++ live) := by
  have hsize' : seg'.extentSize = seg.extentSize :=
    (allocs_egAllocExtent _ _ hres).groupCount_le.2
  have hsize := h.extentSize_eq
  subst hsize
  obtain ⟨hinv, hresult⟩ := egAllocExtent_spec fuel seg seg' h.inv hpre hres hfits.1
  constructor
  . exact hinv
  . exact hfits
  . exact hsize'
  . cases res with
    | none =>
      constructor
      . apply h.tracks.nodup
      . intro block
        simp only [Option.toList_none, List.nil_append, h.tracks.mem_iff, hsize']
        simp only [Result] at hresult
        simp only [hresult]
    | some block => apply tracks_obtains h.tracks hsize' hfits hresult

theorem RunInv.egFreeExtent (h : RunInv size seg live) (hlive : block ∈ live)
    (hloc : Locatable size seg.mapHead.groupCount block)
    : ∃ g m b, block = extentStart size g m b ∧ seg.Allocated g m b ∧
        ∃ seg', seg.egFreeExtent block = .ok seg' ∧ seg.Releases seg' g m b := by
  have hsize := h.extentSize_eq
  subst hsize
  obtain ⟨g, m, b, halloc, rfl⟩ := (h.tracks.mem_iff block).mp hlive
  obtain ⟨g', m', b', -, hm', hb', heq, hend⟩ := hloc
  obtain ⟨rfl, rfl, rfl⟩ := extentStart_inj _ halloc.2.1 halloc.2.2.1 hm' hb' heq
  exact ⟨g, m, b, rfl, halloc, egFreeExtent_spec h.inv h.fits.1 halloc hend⟩

theorem runInv_free (h : RunInv size seg live) (hlive : block ∈ live)
    (hloc : Locatable size seg.mapHead.groupCount block) (hres : seg.egFreeExtent block = .ok seg')
    : RunInv size seg' (live.erase block) := by
  obtain ⟨g, m, b, rfl, halloc, seg'', hres', hreleases⟩ := h.egFreeExtent hlive hloc
  rw [hres] at hres'
  injection hres' with hres'
  subst hres'
  have hsize := h.extentSize_eq
  subst hsize
  constructor
  . exact hreleases.inv
  . constructor
    . apply h.fits.1.of_le hreleases.extentSize_eq.symm (by rw [hreleases.groupCount_eq])
    . intro g' m' b' halloc'
      rw [hreleases.extentSize_eq]
      apply h.fits.2
      apply ((hreleases.allocated_iff g' m' b').mp halloc').1
  . exact hreleases.extentSize_eq
  . constructor
    . apply h.tracks.nodup.erase
    . intro block
      rw [h.tracks.nodup.mem_erase_iff, h.tracks.mem_iff, hreleases.extentSize_eq]
      simp only [hreleases.allocated_iff]
      constructor
      . intro hmem
        obtain ⟨hne, g', m', b', halloc', rfl⟩ := hmem
        refine ⟨g', m', b', ⟨halloc', ?_⟩, rfl⟩
        rintro ⟨rfl, rfl, rfl⟩
        exact hne rfl
      . intro hmem
        obtain ⟨g', m', b', ⟨halloc', hne⟩, rfl⟩ := hmem
        refine ⟨?_, g', m', b', halloc', rfl⟩
        intro heq
        apply hne
        apply extentStart_inj _ halloc'.2.1 halloc'.2.2.1 halloc.2.1 halloc.2.2.1 heq

theorem runInv_of_reachable (h : Reachable size seg live) : RunInv size seg live := by
  induction h with
  | create => exact runInv_create
  | alloc _ hpre hres hfits ih => exact runInv_alloc ih hpre hres hfits
  | free _ hlive hloc hres ih => exact runInv_free ih hlive hloc hres

def InDataArea (seg : SegExtentGroup) (g block : Nat) : Prop :=
  let start := (seg.mapHead.groups g).firstMap + dfMapGroupSize + ipblockGroupSize
  start ≤ block
    ∧ block + seg.extentSize.toNat ≤ start + dfMapGroupExtents * seg.extentSize.toNat

def IsMetaPage (seg : SegExtentGroup) (blk : Nat) : Prop :=
  blk ≤ dfMapHeadPage ∨ ∃ g, g < seg.mapHead.groupCount
    ∧ (seg.mapHead.groups g).firstMap ≤ blk
    ∧ blk < (seg.mapHead.groups g).firstMap + dfMapGroupSize + ipblockGroupSize

variable {seg : SegExtentGroup}

theorem Inv.inDataArea_iff (h : seg.Inv) (hg : g < seg.mapHead.groupCount) : seg.InDataArea g block
      ↔
    dataStart seg.extentSize g ≤ block
      ∧ block + seg.extentSize.toNat ≤ dataEnd seg.extentSize g := by
  simp only [InDataArea, h.firstMap_eq g hg, dataEnd, dataStart]

theorem Inv.existsUnique_inDataArea (h : seg.Inv) (halloc : seg.Allocated g m b)
    : ∃! g', g' < seg.mapHead.groupCount
        ∧ seg.InDataArea g' (extentStart seg.extentSize g m b) := by
  have hle := extentStart_le seg.extentSize (g := g) halloc.2.1 halloc.2.2.1
  have hpos := size_pos seg.extentSize
  refine ⟨g, ⟨halloc.1, (h.inDataArea_iff halloc.1).mpr hle⟩, ?_⟩
  rintro g' ⟨hg', harea⟩
  rw [h.inDataArea_iff hg'] at harea
  obtain hlt | heq | hgt := Nat.lt_trichotomy g g'
  . have hend := dataEnd_le_groupStart seg.extentSize hlt
    simp only [dataStart] at *
    omega
  . exact heq.symm
  . have hend := dataEnd_le_groupStart seg.extentSize hgt
    simp only [dataStart] at *
    omega

theorem Inv.not_isMetaPage (h : seg.Inv) (halloc : seg.Allocated g m b)
    (hlo : extentStart seg.extentSize g m b ≤ blk)
    (hhi : blk < extentStart seg.extentSize g m b + seg.extentSize.toNat)
    : ¬ seg.IsMetaPage blk := by
  have hle := extentStart_le seg.extentSize (g := g) halloc.2.1 halloc.2.2.1
  intro hmeta
  obtain hhead | ⟨g', hg', hstart, hend⟩ := hmeta
  . simp only [dataStart, groupStart] at hle
    omega
  . rw [h.firstMap_eq g' hg'] at hstart hend
    obtain hlt | rfl | hgt := Nat.lt_trichotomy g g'
    . have := dataEnd_le_groupStart seg.extentSize hlt
      omega
    . simp only [dataStart] at hle
      omega
    . have := dataEnd_le_groupStart seg.extentSize hgt
      simp only [dataEnd, dataStart] at *
      omega

theorem Tracks.pairwise (h : Tracks seg live) : live.Pairwise (fun block block' =>
      block + seg.extentSize.toNat ≤ block' ∨ block' + seg.extentSize.toNat ≤ block) := by
  apply h.nodup.imp_of_mem
  intro block block' hmem hmem' hne
  obtain ⟨g, m, b, halloc, rfl⟩ := (h.mem_iff block).mp hmem
  obtain ⟨g', m', b', halloc', rfl⟩ := (h.mem_iff block').mp hmem'
  apply extentStart_disjoint _ halloc.2.1 halloc.2.2.1 halloc'.2.1 halloc'.2.2.1
  rintro ⟨rfl, rfl, rfl⟩
  exact hne rfl

theorem Inv.full_of_egTryAllocExtent (h : seg.Inv) (hfit : seg.GroupsFit)
    (hres : seg.egTryAllocExtent none = .ok res) (hnone : res.result = none)
    (htarget : res.targetFileSize = 0) (hg : g < seg.mapHead.groupCount) (hm : m < dfMapGroupSize)
    : (seg.page g m).Full := by
  obtain ⟨res', hres', hspec⟩ := egTryAllocExtent_none_spec h hfit (by omega)
  rw [hres] at hres'
  injection hres' with hres'
  subst hres'
  obtain ⟨-, -, hfull⟩ | hextends | ⟨g', m', b', hhands⟩ := hspec
  . apply hfull g m hg hm
  . have := hextends.2.2
    omega
  . simp [hhands.1.2.1] at hnone

theorem reachable_invariant (h : Reachable size seg live)
    : live.Pairwise (fun block block' =>
          block + size.toNat ≤ block' ∨ block' + size.toNat ≤ block)
        ∧
      (∀ block ∈ live, ∃! g, g < seg.mapHead.groupCount ∧ seg.InDataArea g block)
        ∧
      (∀ block ∈ live, ∀ blk, block ≤ blk → blk < block + size.toNat → ¬ seg.IsMetaPage blk)
        ∧
      (∀ g, g < seg.mapHead.groupCount →
        (seg.mapHead.groups g).firstMap = groupStart seg.extentSize g
          ∧ (seg.mapHead.groups g).pageCount = dfMapGroupSize)
        ∧
      seg.mapHead.allocatedExtents = seg.setBits
        ∧
      (∀ g m, g < seg.mapHead.groupCount → m < dfMapGroupSize → (seg.page g m).Valid)
        ∧
      (∀ g m, g < seg.mapHead.groupCount → m < (seg.mapHead.groups g).freePage →
        (seg.page g m).Full)
        ∧
      (∀ g m, g < seg.mapHead.freeGroup → m < dfMapGroupSize → (seg.page g m).Full)
        ∧
      (∀ res, seg.egTryAllocExtent none = .ok res → res.result = none → res.targetFileSize = 0 →
        ∀ g m, g < seg.mapHead.groupCount → m < dfMapGroupSize → (seg.page g m).Full)
        ∧
      (∀ block ∈ live, Locatable size seg.mapHead.groupCount block →
        ∃ seg', seg.egFreeExtent block = .ok seg') := by
  have hrun := runInv_of_reachable h
  have hsize := hrun.extentSize_eq
  subst hsize
  refine ⟨hrun.tracks.pairwise, ?_, ?_, ?_, hrun.inv.allocatedExtents_eq, hrun.inv.page_valid,
    hrun.inv.full_of_lt_freePage, hrun.inv.full_of_lt_freeGroup, ?_, ?_⟩
  . intro block hmem
    obtain ⟨g, m, b, halloc, rfl⟩ := (hrun.tracks.mem_iff block).mp hmem
    apply hrun.inv.existsUnique_inDataArea halloc
  . intro block hmem blk hlo hhi
    obtain ⟨g, m, b, halloc, rfl⟩ := (hrun.tracks.mem_iff block).mp hmem
    apply hrun.inv.not_isMetaPage halloc hlo hhi
  . intro g hg
    exact ⟨hrun.inv.firstMap_eq g hg, hrun.inv.pageCount_eq g hg⟩
  . intro res hres hnone htarget g m
    apply hrun.inv.full_of_egTryAllocExtent hrun.fits.1 hres hnone htarget
  . intro block hmem hloc
    obtain ⟨_, _, _, _, _, seg', hres, _⟩ := hrun.egFreeExtent hmem hloc
    exact ⟨seg', hres⟩

theorem reachable_invariant_eightBlocks
    : ∃ seg, Reachable .extSize8 seg [4173]
        ∧ (∃! g, g < seg.mapHead.groupCount ∧ seg.InDataArea g 4173)
        ∧ ∃ seg', seg.egFreeExtent 4173 = .ok seg' ∧ Reachable .extSize8 seg' [] := by
  have hloc : ∀ groupCount, 0 < groupCount → Locatable .extSize8 groupCount 4173 :=
    fun _ hpos => ⟨0, 0, 2, hpos, by decide, by decide, by decide, by decide⟩
  have hrun : ((create .extSize8 (fun _ => egInitBitmapPageContent 0) 16384).egAllocExtent
      (2 ^ 32 - 1) (some 4173) 1).map (fun r => (r.2, r.1.mapHead.groupCount, r.1.extentSize))
        = .ok (some 4173, 1, .extSize8) := by
    rfl
  rw [Except.map_eq_ok] at hrun
  obtain ⟨⟨seg, res⟩, hres, heq⟩ := hrun
  simp only [Prod.mk.injEq] at heq
  obtain ⟨rfl, hcount, hsize⟩ := heq
  have hfits : seg.Fits := by
    constructor
    . intro g hg
      have hzero : g = 0 := by omega
      subst hzero
      rw [hsize]
      decide
    . intro g m b halloc
      have hzero : g = 0 := by have := halloc.1; omega
      subst hzero
      have hle := extentStart_le seg.extentSize (g := 0) halloc.2.1 halloc.2.2.1
      have hend : dataEnd .extSize8 0 ≤ invalidBlockNumber := by decide
      rw [hsize] at *
      omega
  have hreach : Reachable .extSize8 seg [4173] := by
    apply Reachable.alloc Reachable.create _ hres hfits
    intro block hblock
    injection hblock with hblock
    subst hblock
    apply hloc _ (by decide)
  obtain ⟨_, harea, _, _, _, _, _, _, _, hfree⟩ := reachable_invariant hreach
  obtain ⟨seg', hseg'⟩ := hfree 4173 (by simp) (hloc _ (by omega))
  refine ⟨seg, hreach, harea 4173 (by simp), seg', hseg', ?_⟩
  apply Reachable.free hreach (by simp) (hloc _ (by omega)) hseg'

-- A preassigned block that is not the start of an extent is handed out as if it were: here the last
-- block of the data area, from where the extent runs into the next group.
theorem not_inDataArea_preassigned
    : ∃ seg', (create .extSize8 (fun _ => egInitBitmapPageContent 0) 16384).egAllocExtent
          (2 ^ 32 - 1) (some 33411132) 2 = .ok (seg', some 33411132)
        ∧ (∃ g, g < seg'.mapHead.groupCount ∧ pageStart (seg'.mapHead.groups g) ≤ 33411132
          ∧ 33411132 < seg'.pageEnd (seg'.mapHead.groups g))
        ∧ ¬ ∃ g, g < seg'.mapHead.groupCount ∧ seg'.InDataArea g 33411132 := by
  have hrun : ((create .extSize8 (fun _ => egInitBitmapPageContent 0) 16384).egAllocExtent
      (2 ^ 32 - 1) (some 33411132) 2).map
        (fun r => (r.2, r.1.mapHead.groupCount, r.1.mapHead.groups 0, r.1.extentSize))
        = .ok (some 33411132, 1, ⟨3, 0, 64⟩, .extSize8) := by
    rfl
  rw [Except.map_eq_ok] at hrun
  obtain ⟨⟨seg', res⟩, hres, heq⟩ := hrun
  simp only [Prod.mk.injEq] at heq
  obtain ⟨rfl, hcount, hgroup, hsize⟩ := heq
  refine ⟨seg', hres, ⟨0, by omega, ?_⟩, ?_⟩
  . rw [pageEnd, hgroup, hsize]
    decide
  . rintro ⟨g, hg, harea⟩
    have hzero : g = 0 := by omega
    subst hzero
    simp only [InDataArea, hgroup, hsize] at harea
    revert harea
    decide

end SegExtentGroup

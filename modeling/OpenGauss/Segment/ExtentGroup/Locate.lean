import OpenGauss.Segment.ExtentGroup.Lemmas

/-!
This module contains which extent `eg_locate_map_by_pageid` finds for any page number.
-/

open Layout Function Except

namespace SegExtentGroup

variable {page g : Nat} {seg' : SegExtentGroup}

structure SamePlaces (seg seg' : SegExtentGroup) : Prop where
  extentSize_eq : seg'.extentSize = seg.extentSize
  bitUnit_eq : seg'.mapHead.bitUnit = seg.mapHead.bitUnit
  groupCount_eq : seg'.mapHead.groupCount = seg.mapHead.groupCount
  firstMap_eq : ∀ g, (seg'.mapHead.groups g).firstMap = (seg.mapHead.groups g).firstMap
  pageCount_eq : ∀ g, (seg'.mapHead.groups g).pageCount = (seg.mapHead.groups g).pageCount

/--
Map heads that are built by `eg_add_map_group`, with whatever else happens to the extents in between.
-/
inductive Built (size : ExtentSize) : SegExtentGroup → Prop where
  | init {seg : SegExtentGroup} (hsize : seg.extentSize = size)
      (hhead : seg.mapHead = egInitMapHeadPageContent size) : Built size seg
  | addFirst {seg seg' : SegExtentGroup} (h : Built size seg) (hcount : seg.mapHead.groupCount = 0)
      (hadd : seg.egAddMapGroup (dfMapHeadPage + 1) dfMapGroupSize 0 = .ok seg') : Built size seg'
  | addNext {seg seg' : SegExtentGroup} {start : Nat} (h : Built size seg)
      (hstart : seg.egNextGroupStart = .ok start)
      (hadd : seg.egAddMapGroup start dfMapGroupSize seg.mapHead.groupCount = .ok seg') : Built size seg'
  | use {seg seg' : SegExtentGroup} (h : Built size seg) (hsame : SamePlaces seg seg') : Built size seg'

variable (seg : SegExtentGroup)

def InArea (g page : Nat) : Prop :=
  pageStart (seg.mapHead.groups g) ≤ page
    ∧
  page < pageStart (seg.mapHead.groups g) + dfMapGroupExtents * seg.extentSize.toNat

instance (g page : Nat) : Decidable (seg.InArea g page) := inferInstanceAs (Decidable (_ ∧ _))

structure Covers (g m b page : Nat) : Prop where
  group_lt : g < seg.mapHead.groupCount
  map_lt : m < dfMapGroupSize
  bit_lt : b < dfMapBitCnt
  start_le : pageStart (seg.mapHead.groups g) + (m * dfMapBitCnt + b) * seg.extentSize.toNat ≤ page
  lt_end : page < pageStart (seg.mapHead.groups g) + (m * dfMapBitCnt + b) * seg.extentSize.toNat
    + seg.extentSize.toNat

def OnlyTouches (seg' : SegExtentGroup) (page : Nat) : Prop :=
  ∀ block bit, (seg'.mapPages block).bitmap bit ≠ (seg.mapPages block).bitmap bit →
    ∃ g m, seg.Covers g m bit page ∧ block = u32 (m + (seg.mapHead.groups g).firstMap)

structure LocatesOwn (page : Nat) : Prop where
  invalid : (∀ g < seg.mapHead.groupCount, ¬ seg.InArea g page) →
    mapLocationIsInvalid (seg.egLocateMapByPageid page) = true
  found : ∀ g m b, seg.Covers g m b page →
    seg.egLocateMapByPageid page = ⟨seg.mapHead.groups g, m, b, g⟩
  free : ∀ seg', seg.egFreeExtent page = .ok seg' → seg.OnlyTouches seg' page
  alloc : ∀ res, seg.egAllocPreassignedBlock page = .ok res → seg.OnlyTouches res.seg page

-- The scan of the groups finds the page in the one group whose extents contain it.
def FoundInOwnGroup (page : Nat) : Prop :=
  ∃ g < seg.mapHead.groupCount, seg.InArea g page
    ∧ (∀ g' < seg.mapHead.groupCount, seg.InArea g' page → g' = g)
    ∧ (page < seg.pageEnd (seg.mapHead.groups g)
      ∨ (g + 1 = seg.mapHead.groupCount
        ∧ page < pageStart (seg.mapHead.groups g) + seg.extentSize.toNat))

variable {seg}

section Built

structure Places (size : ExtentSize) (seg : SegExtentGroup) : Prop where
  extentSize_eq : seg.extentSize = size
  bitUnit_eq : seg.mapHead.bitUnit = size.toNat
  firstMap_eq : ∀ g < seg.mapHead.groupCount, (seg.mapHead.groups g).firstMap = u32 (groupStart size g)
  pageCount_eq : ∀ g < seg.mapHead.groupCount, (seg.mapHead.groups g).pageCount = dfMapGroupSize

variable {size : ExtentSize}

theorem egAddMapGroup_mapHead {pageno : Nat}
    (h : seg.egAddMapGroup pageno dfMapGroupSize seg.mapHead.groupCount = .ok seg')
    : seg'.extentSize = seg.extentSize ∧ seg'.mapHead = { seg.mapHead with
        groupCount := seg.mapHead.groupCount + 1
        groups := Function.update seg.mapHead.groups seg.mapHead.groupCount
          ⟨pageno, 0, dfMapGroupSize⟩ } := by
  simp only [egAddMapGroup, Nat.lt_irrefl, if_false, bind_eq_ok] at h
  obtain ⟨_, _, _, _, h⟩ := h
  injection h with h
  have hinit := egAddMapGroup_init_frame dfMapGroupSize pageno
    (u32 (pageno + dfMapGroupSize + ipblockGroupSize)) seg
  subst h
  simp [hinit.1, hinit.2]

theorem Places.add {pageno : Nat} (h : Places size seg)
    (hpageno : pageno = u32 (groupStart size seg.mapHead.groupCount))
    (hadd : seg.egAddMapGroup pageno dfMapGroupSize seg.mapHead.groupCount = .ok seg')
    : Places size seg' := by
  obtain ⟨hsize, hhead⟩ := egAddMapGroup_mapHead hadd
  have hgroups : ∀ g < seg.mapHead.groupCount + 1,
      (Function.update seg.mapHead.groups seg.mapHead.groupCount ⟨pageno, 0, dfMapGroupSize⟩ g).firstMap
          = u32 (groupStart size g)
        ∧
      (Function.update seg.mapHead.groups seg.mapHead.groupCount ⟨pageno, 0, dfMapGroupSize⟩ g).pageCount
          = dfMapGroupSize := by
    intro g hg
    by_cases heq : g = seg.mapHead.groupCount
    . subst heq
      rw [update_self]
      exact ⟨hpageno, rfl⟩
    . rw [update_of_ne heq]
      exact ⟨h.firstMap_eq g (by omega), h.pageCount_eq g (by omega)⟩
  constructor
  . rw [hsize, h.extentSize_eq]
  . rw [hhead, ← h.bitUnit_eq]
  . rw [hhead]
    intro g hg
    apply (hgroups g hg).1
  . rw [hhead]
    intro g hg
    apply (hgroups g hg).2

theorem Places.egNextGroupStart_eq (h : Places size seg) {start : Nat}
    (hstart : seg.egNextGroupStart = .ok start)
    : start = u32 (groupStart size seg.mapHead.groupCount) := by
  simp only [egNextGroupStart, bind_eq_ok] at hstart
  obtain ⟨_, hcheck, hstart⟩ := hstart
  injection hstart with hstart
  have hpos : 0 < seg.mapHead.groupCount := by
    by_contra hzero
    rw [segmentCheck, if_neg (by simpa using hzero)] at hcheck
    cases hcheck
  have hlast : seg.mapHead.groupCount - 1 < seg.mapHead.groupCount := by
    omega
  have hend := dataEnd_eq_groupStart size (seg.mapHead.groupCount - 1)
  rw [Nat.sub_add_cancel hpos] at hend
  rw [← hstart, h.firstMap_eq _ hlast, h.pageCount_eq _ hlast, h.bitUnit_eq, ← hend, dataEnd, dataStart]
  simp only [u32, Nat.add_assoc, Nat.mod_add_mod]

theorem Built.places (h : Built size seg) : Places size seg := by
  induction h with
  | init hsize hhead =>
    constructor
    . exact hsize
    . rw [hhead]
      rfl
    . intro g hg
      simp [hhead, egInitMapHeadPageContent] at hg
    . intro g hg
      simp [hhead, egInitMapHeadPageContent] at hg
  | addFirst _ hcount hadd ih =>
    rw [← hcount] at hadd
    apply ih.add _ hadd
    rw [hcount, groupStart, Nat.zero_mul]
    rfl
  | addNext _ hstart hadd ih =>
    apply ih.add (ih.egNextGroupStart_eq hstart) hadd
  | use _ hsame ih =>
    constructor
    . rw [hsame.extentSize_eq, ih.extentSize_eq]
    . rw [hsame.bitUnit_eq, ih.bitUnit_eq]
    . intro g hg
      rw [hsame.groupCount_eq] at hg
      rw [hsame.firstMap_eq, ih.firstMap_eq g hg]
    . intro g hg
      rw [hsame.groupCount_eq] at hg
      rw [hsame.pageCount_eq, ih.pageCount_eq g hg]

theorem Places.firstMap_ne_zero (h : Places size seg) (hg : g < seg.mapHead.groupCount)
    : (seg.mapHead.groups g).firstMap ≠ 0 := by
  have heven : groupBlocks size % 2 = 0 := by
    simp only [groupBlocks, dfMapGroupSize_eq, ipblockGroupSize_eq, dfMapGroupExtents_eq]
    omega
  have hmul : g * groupBlocks size % 2 = 0 := by
    rw [Nat.mul_mod, heven, Nat.mul_zero]
  rw [h.firstMap_eq g hg]
  simp only [u32, groupStart, dfMapHeadPage_eq]
  omega

end Built

section Scan

def Hits (seg : SegExtentGroup) (g page : Nat) : Prop :=
  pageStart (seg.mapHead.groups g) ≤ page ∧ page < seg.pageEnd (seg.mapHead.groups g)

def hitLocation (seg : SegExtentGroup) (g page : Nat) : SpaceMapLocation :=
  let extent := (page - pageStart (seg.mapHead.groups g)) / seg.mapHead.bitUnit
  ⟨seg.mapHead.groups g, extent / dfMapBitCnt, extent % dfMapBitCnt, g⟩

def lastLocation (seg : SegExtentGroup) : SpaceMapLocation :=
  ⟨seg.mapHead.groups (seg.mapHead.groupCount - 1), 0, 0, seg.mapHead.groupCount - 1⟩

theorem go_spec (page todo i : Nat) {result : SpaceMapLocation} (hi : i + todo = seg.mapHead.groupCount)
    (hmap : result.mapId = 0) (hbit : result.bitId = 0)
    (hlast : todo = 0 → result = seg.lastLocation)
    : (∃ g < seg.mapHead.groupCount, seg.Hits g page
        ∧ egLocateMapByPageid.go seg page todo i result = seg.hitLocation g page)
      ∨
      ((∀ g < seg.mapHead.groupCount, i ≤ g → ¬ seg.Hits g page)
        ∧ egLocateMapByPageid.go seg page todo i result = seg.lastLocation) := by
  induction todo generalizing i result with
  | zero =>
    right
    constructor
    . intro g hg hle
      omega
    . apply hlast rfl
  | succ todo ih =>
    simp only [egLocateMapByPageid.go, Bool.and_eq_true, decide_eq_true_eq]
    split
    . next hhit =>
      left
      exact ⟨i, by omega, hhit, rfl⟩
    . next hmiss =>
      have hrest := @ih (i + 1) { result with group := seg.mapHead.groups i, mapGroup := i } (by omega)
        hmap hbit (by
          intro hzero
          have hlast : i = seg.mapHead.groupCount - 1 := by
            omega
          simp only [lastLocation, hmap, hbit, ← hlast])
      obtain hfound | ⟨hnone, hgo⟩ := hrest
      . left
        exact hfound
      . right
        refine ⟨?_, hgo⟩
        intro g hg hle
        by_cases heq : g = i
        . rw [heq]
          exact hmiss
        . apply hnone g hg (by omega)

theorem egLocateMapByPageid_spec (page : Nat) (hpos : 0 < seg.mapHead.groupCount)
    : (∃ g < seg.mapHead.groupCount, seg.Hits g page
        ∧ seg.egLocateMapByPageid page = seg.hitLocation g page)
      ∨
      ((∀ g < seg.mapHead.groupCount, ¬ seg.Hits g page)
        ∧ seg.egLocateMapByPageid page = seg.lastLocation) := by
  obtain hfound | ⟨hnone, hgo⟩ := @go_spec seg page seg.mapHead.groupCount 0 ⟨⟨0, 0, 0⟩, 0, 0, 0⟩
    (Nat.zero_add _) rfl rfl (fun hzero => absurd hzero (by omega))
  . left
    exact hfound
  . right
    exact ⟨fun g hg => hnone g hg (Nat.zero_le g), hgo⟩

end Scan

section Covers

theorem Covers.inArea {m b : Nat} (h : seg.Covers g m b page) : seg.InArea g page := by
  have hle : m * dfMapBitCnt + b + 1 ≤ dfMapGroupExtents := by
    have := h.map_lt
    have := h.bit_lt
    simp only [dfMapBitCnt_eq, dfMapGroupSize_eq, dfMapGroupExtents_eq] at *
    omega
  have hmul := Nat.mul_le_mul_right seg.extentSize.toNat hle
  rw [Nat.succ_mul] at hmul
  have hstart := h.start_le
  have hend := h.lt_end
  constructor <;> omega

theorem Covers.div_eq {m b : Nat} (h : seg.Covers g m b page)
    : (page - pageStart (seg.mapHead.groups g)) / seg.extentSize.toNat = m * dfMapBitCnt + b := by
  have hstart := h.start_le
  have hend := h.lt_end
  apply Nat.div_eq_of_lt_le
  . omega
  . rw [Nat.succ_mul]
    omega

theorem covers_of_inArea (hg : g < seg.mapHead.groupCount) (h : seg.InArea g page)
    : seg.Covers g ((page - pageStart (seg.mapHead.groups g)) / seg.extentSize.toNat / dfMapBitCnt)
        ((page - pageStart (seg.mapHead.groups g)) / seg.extentSize.toNat % dfMapBitCnt) page := by
  obtain ⟨hstart, hend⟩ := h
  have hpos := size_pos seg.extentSize
  have hlt : (page - pageStart (seg.mapHead.groups g)) / seg.extentSize.toNat < dfMapGroupExtents := by
    rw [Nat.div_lt_iff_lt_mul hpos]
    omega
  have hdiv := Nat.div_add_mod (page - pageStart (seg.mapHead.groups g)) seg.extentSize.toNat
  have hmod := Nat.mod_lt (page - pageStart (seg.mapHead.groups g)) hpos
  have hindex := Nat.div_add_mod' ((page - pageStart (seg.mapHead.groups g)) / seg.extentSize.toNat)
    dfMapBitCnt
  rw [Nat.mul_comm] at hdiv
  constructor
  . exact hg
  . simp only [dfMapBitCnt_eq, dfMapGroupSize_eq, dfMapGroupExtents_eq] at *
    omega
  . apply Nat.mod_lt
    decide
  . rw [hindex]
    omega
  . rw [hindex]
    omega

theorem Hits.inArea (h : seg.Hits g page) : seg.InArea g page := by
  obtain ⟨hstart, hend⟩ := h
  have hwrap : seg.pageEnd (seg.mapHead.groups g)
      ≤ pageStart (seg.mapHead.groups g) + dfMapGroupExtents * seg.extentSize.toNat := Nat.mod_le _ _
  constructor <;> omega

theorem Covers.location {m b : Nat} (h : seg.Covers g m b page)
    (hunit : seg.mapHead.bitUnit = seg.extentSize.toNat)
    : seg.hitLocation g page = ⟨seg.mapHead.groups g, m, b, g⟩ := by
  have hbit := h.bit_lt
  unfold hitLocation
  rw [hunit, h.div_eq]
  simp only [dfMapBitCnt_eq] at *
  rw [show (m * 65248 + b) / 65248 = m by omega, show (m * 65248 + b) % 65248 = b by omega]

end Covers

section Touches

theorem egUnsetBitmapPage_bitmap {page page' : MapPage} {bitId bit : Nat}
    (h : page.egUnsetBitmapPage bitId = .ok page') (hne : page'.bitmap bit ≠ page.bitmap bit)
      : bit = bitId := by
  simp only [MapPage.egUnsetBitmapPage, bind_eq_ok] at h
  obtain ⟨_, _, h⟩ := h
  injection h with h
  subst h
  by_contra hbit
  exact hne (update_of_ne hbit _ _)

theorem egSetBitmapPage_bitmap {page page' : MapPage} {bitId bit : Nat}
    (h : page.egSetBitmapPage bitId = .ok page') (hne : page'.bitmap bit ≠ page.bitmap bit)
      : bit = bitId := by
  simp only [MapPage.egSetBitmapPage, bind_eq_ok] at h
  obtain ⟨_, _, h⟩ := h
  injection h with h
  subst h
  by_contra hbit
  exact hne (update_of_ne hbit _ _)

-- Only the bit that the location names can change.
def TouchesLocation (seg seg' : SegExtentGroup) (location : SpaceMapLocation) : Prop :=
  ∀ block bit, (seg'.mapPages block).bitmap bit ≠ (seg.mapPages block).bitmap bit →
    block = u32 (location.mapId + location.group.firstMap) ∧ bit = location.bitId

theorem touchesLocation_refl (location : SpaceMapLocation) : seg.TouchesLocation seg location := by
  intro block bit hne
  exact absurd rfl hne

theorem egFreeExtent_touches (h : seg.egFreeExtent page = .ok seg')
    : seg.TouchesLocation seg' (seg.egLocateMapByPageid page) := by
  simp only [egFreeExtent] at h
  split at h
  . cases h
  . simp only [bind_eq_ok] at h
    obtain ⟨mapPage, hunset, h⟩ := h
    injection h with h
    subst h
    intro block bit hne
    simp only [egFreeExtent.update] at hne
    by_cases hblock : block = u32 ((seg.egLocateMapByPageid page).mapId
        + (seg.egLocateMapByPageid page).group.firstMap)
    . subst hblock
      rw [update_self] at hne
      exact ⟨rfl, egUnsetBitmapPage_bitmap hunset hne⟩
    . rw [update_of_ne hblock] at hne
      exact absurd rfl hne

theorem egAllocExtentFromMapInternal_touches {block bitid mapGroup freePage : Nat} {res : AllocResult}
    (h : seg.egAllocExtentFromMapInternal block bitid mapGroup freePage = .ok res) (block' bit : Nat)
    (hne : (res.seg.mapPages block').bitmap bit ≠ (seg.mapPages block').bitmap bit)
    : block' = block ∧ bit = bitid := by
  simp only [egAllocExtentFromMapInternal] at h
  split at h
  . injection h with h
    subst h
    exact absurd rfl hne
  . rw [bind_eq_ok] at h
    obtain ⟨mapPage, hset, h⟩ := h
    injection h with h
    subst h
    simp only [egAllocExtentFromMapInternal.update] at hne
    by_cases hblock : block' = block
    . subst hblock
      rw [update_self] at hne
      exact ⟨rfl, egSetBitmapPage_bitmap hset hne⟩
    . rw [update_of_ne hblock] at hne
      exact absurd rfl hne

theorem egAllocPreassignedBlock_touches {res : AllocResult} (h : seg.egAllocPreassignedBlock page = .ok res)
    : seg.TouchesLocation res.seg (seg.egLocateMapByPageid page) := by
  simp only [egAllocPreassignedBlock] at h
  split at h
  . injection h with h
    subst h
    apply touchesLocation_refl
  . split at h
    . split at h
      . injection h with h
        subst h
        apply touchesLocation_refl
      . simp only [bind_eq_ok] at h
        obtain ⟨_, _, res', hres', h⟩ := h
        injection h with h
        subst h
        intro block bit hne
        exact egAllocExtentFromMapInternal_touches hres' block bit hne
    . simp [bind, Except.bind, throw, throwThe, MonadExceptOf.throw] at h

theorem TouchesLocation.onlyTouches {m b : Nat}
    (h : seg.TouchesLocation seg' ⟨seg.mapHead.groups g, m, b, g⟩) (hcovers : seg.Covers g m b page)
    : seg.OnlyTouches seg' page := by
  intro block bit hne
  obtain ⟨hblock, rfl⟩ := h block bit hne
  exact ⟨g, m, hcovers, hblock⟩

end Touches

theorem FoundInOwnGroup.location (h : seg.FoundInOwnGroup page)
    (hunit : seg.mapHead.bitUnit = seg.extentSize.toNat)
    : ∃ g m b, seg.Covers g m b page ∧ (∀ g' < seg.mapHead.groupCount, seg.InArea g' page → g' = g)
        ∧ seg.egLocateMapByPageid page = ⟨seg.mapHead.groups g, m, b, g⟩ := by
  obtain ⟨g, hg, harea, honly, hhit⟩ := h
  have hcovers := covers_of_inArea hg harea
  refine ⟨g, _, _, hcovers, honly, ?_⟩
  obtain ⟨g', hg', hhit', hloc⟩ | ⟨hnone, hloc⟩ := seg.egLocateMapByPageid_spec page (by omega)
  . obtain rfl := honly g' hg' hhit'.inArea
    rw [hloc, hcovers.location hunit]
  . obtain hlt | ⟨hlast, hfirst⟩ := hhit
    . exact absurd ⟨harea.1, hlt⟩ (hnone g hg)
    . -- the last group is also the answer when no group has the page
      have hzero : (page - pageStart (seg.mapHead.groups g)) / seg.extentSize.toNat = 0 := by
        apply Nat.div_eq_of_lt
        have := harea.1
        omega
      rw [hloc, lastLocation, ← hlast, Nat.add_sub_cancel, hzero]
      rfl

theorem locatesOwn_iff {size : ExtentSize} (hbuilt : Built size seg) (hpos : 0 < seg.mapHead.groupCount)
    (page : Nat) : seg.LocatesOwn page ↔ seg.FoundInOwnGroup page := by
  have hplaces := hbuilt.places
  have hunit : seg.mapHead.bitUnit = seg.extentSize.toNat := by
    rw [hplaces.bitUnit_eq, hplaces.extentSize_eq]
  constructor
  . intro h
    have hfirstMap : ∀ g < seg.mapHead.groupCount, ∀ m b, seg.egLocateMapByPageid page
        = ⟨seg.mapHead.groups g, m, b, g⟩ → mapLocationIsInvalid (seg.egLocateMapByPageid page) = false := by
      intro g hg m b hloc
      rw [hloc, mapLocationIsInvalid, beq_eq_false_iff_ne]
      apply hplaces.firstMap_ne_zero hg
    have harea : ∃ g < seg.mapHead.groupCount, seg.InArea g page := by
      by_contra hnone
      push Not at hnone
      have hinvalid := h.invalid hnone
      obtain ⟨g, hg, _, hloc⟩ | ⟨_, hloc⟩ := seg.egLocateMapByPageid_spec page hpos
      . rw [hfirstMap g hg _ _ hloc] at hinvalid
        cases hinvalid
      . rw [hfirstMap _ (by omega) _ _ hloc] at hinvalid
        cases hinvalid
    obtain ⟨g, hg, harea⟩ := harea
    have hfound := h.found _ _ _ (covers_of_inArea hg harea)
    have honly : ∀ g' < seg.mapHead.groupCount, seg.InArea g' page → g' = g := by
      intro g' hg' harea'
      have hfound' := h.found _ _ _ (covers_of_inArea hg' harea')
      rw [hfound] at hfound'
      injection hfound' with _ _ _ hgroup
      exact hgroup.symm
    refine ⟨g, hg, harea, honly, ?_⟩
    obtain ⟨g', hg', hhit, _⟩ | ⟨_, hloc⟩ := seg.egLocateMapByPageid_spec page hpos
    . left
      obtain rfl := honly g' hg' hhit.inArea
      exact hhit.2
    . right
      rw [hfound] at hloc
      injection hloc with _ hmap hbit hgroup
      have hindex := Nat.div_add_mod' ((page - pageStart (seg.mapHead.groups g)) / seg.extentSize.toNat)
        dfMapBitCnt
      rw [hmap, hbit, Nat.zero_mul, Nat.zero_add, eq_comm, Nat.div_eq_zero_iff] at hindex
      have := size_pos seg.extentSize
      have := harea.1
      omega
  . intro h
    obtain ⟨g, m, b, hcovers, honly, hloc⟩ := h.location hunit
    constructor
    . intro hnone
      exact absurd hcovers.inArea (hnone g hcovers.group_lt)
    . intro g' m' b' hcovers'
      obtain rfl := honly g' hcovers'.group_lt hcovers'.inArea
      rw [hloc, ← hcovers.location hunit, hcovers'.location hunit]
    . intro seg' hfree
      have htouches := egFreeExtent_touches hfree
      rw [hloc] at htouches
      apply htouches.onlyTouches hcovers
    . intro res hres
      have htouches := egAllocPreassignedBlock_touches hres
      rw [hloc] at htouches
      apply htouches.onlyTouches hcovers

section OneGroup

-- One group, of which the first extent is allocated.
def oneGroup (size : ExtentSize) : SegExtentGroup where
  extentSize := size
  mapHead :=
    { egInitMapHeadPageContent size with
      groupCount := 1
      allocatedExtents := 1
      highWaterMark := 4157 + size.toNat
      groups := Function.update (fun _ => ⟨0, 0, 0⟩) 0 ⟨3, 0, 64⟩ }
  mapPages block :=
    { egInitBitmapPageContent (u32 (4157 + (block - 3) * dfMapBitCnt * size.toNat)) with
      bitmap bit := block == 3 && bit == 0 }
  totalBlocks := 16384
  xlog := []

theorem built_oneGroup (size : ExtentSize) : Built size (oneGroup size) := by
  have hinit : Built size { oneGroup size with mapHead := egInitMapHeadPageContent size } := .init rfl rfl
  obtain ⟨seg', hadd⟩ : ∃ seg', SegExtentGroup.egAddMapGroup
      { oneGroup size with mapHead := egInitMapHeadPageContent size } (dfMapHeadPage + 1) dfMapGroupSize 0
        = .ok seg' := ⟨_, rfl⟩
  obtain ⟨hsize, hhead⟩ := egAddMapGroup_mapHead hadd
  apply Built.use (.addFirst hinit rfl hadd)
  constructor
  . rw [hsize]
  . rw [hhead]
    rfl
  . rw [hhead]
    rfl
  . intro g
    rw [hhead]
    rfl
  . intro g
    rw [hhead]
    rfl

theorem locatesOwn_oneGroup
    : (oneGroup .extSize8).LocatesOwn 4158 ↔ (oneGroup .extSize8).FoundInOwnGroup 4158 :=
  locatesOwn_iff (built_oneGroup _) (by decide) 4158

theorem not_locatesOwn_oneGroup {size : ExtentSize} {page : Nat}
    (h : ¬ (oneGroup size).FoundInOwnGroup page) : ¬ (oneGroup size).LocatesOwn page :=
  mt (locatesOwn_iff (built_oneGroup size) Nat.one_pos page).mp h

def FreesFirstExtent (seg : SegExtentGroup) (page : Nat) : Prop :=
  ∃ seg', seg.egFreeExtent page = .ok seg' ∧ (seg'.mapPages 3).bitmap 0 ≠ (seg.mapPages 3).bitmap 0

-- Page 2 lies in no data area, the other page in the part of one that is behind its wrapped end.
theorem free_foreignPages
    : (Built .extSize8 (oneGroup .extSize8) ∧ ¬ (oneGroup .extSize8).LocatesOwn dfMapHeadPage
        ∧ (oneGroup .extSize8).FreesFirstExtent dfMapHeadPage)
      ∧ (Built .extSize8192 (oneGroup .extSize8192) ∧ (oneGroup .extSize8192).InArea 0 4143976509
        ∧ ¬ (oneGroup .extSize8192).LocatesOwn 4143976509
        ∧ (oneGroup .extSize8192).FreesFirstExtent 4143976509) := by
  refine ⟨⟨built_oneGroup _, ?_, _, rfl, by decide⟩, built_oneGroup _, by decide, ?_, _, rfl, by decide⟩
  . apply not_locatesOwn_oneGroup
    rintro ⟨g, hg, harea, _⟩
    obtain rfl := Nat.lt_one_iff.mp hg
    revert harea
    decide
  . apply not_locatesOwn_oneGroup
    rintro ⟨g, hg, _, _, hfound⟩
    obtain rfl := Nat.lt_one_iff.mp hg
    revert hfound
    decide

end OneGroup

end SegExtentGroup

import OpenGauss.Segment.ExtentGroup.Locate
import OpenGauss.Segment.ExtentGroup.Allocator

/-!
This module contains why the block numbers of the allocated extents do not wrap around.
-/

open Layout Except

namespace SegExtentGroup

variable {block : Nat} {size : ExtentSize}

-- How many blocks a data file has at most: it grows in steps, in 32 bits.
def maxFileBlocks : Nat := 2 ^ 32 - dfFileExtendStepBlocks

/--
Any use of an extent group, also with block numbers that belong to no extent. The file can be
extended and cut by others.
-/
inductive Used (size : ExtentSize) : SegExtentGroup → Prop where
  | create (blankPages : Nat → MapPage) {blocks : Nat} (hblocks : blocks ≤ maxFileBlocks)
      : Used size (create size blankPages blocks)
  | alloc {seg seg' : SegExtentGroup} {limit fuel : Nat} {pre res : Option Nat} (h : Used size seg)
      (hres : seg.egAllocExtent limit pre fuel = .ok (seg', res)) : Used size seg'
  | free {seg seg' : SegExtentGroup} {block : Nat} (h : Used size seg)
      (hres : seg.egFreeExtent block = .ok seg') : Used size seg'
  | resize {seg : SegExtentGroup} {blocks : Nat} (h : Used size seg) (hblocks : blocks ≤ maxFileBlocks)
      : Used size { seg with totalBlocks := blocks }

structure Bounded (seg : SegExtentGroup) : Prop where
  inv : seg.Inv
  totalBlocks_le : seg.totalBlocks ≤ maxFileBlocks
  allocated_le : ∀ g m b, seg.Allocated g m b →
    extentStart seg.extentSize g m b + seg.extentSize.toNat ≤ maxFileBlocks
  dataStart_le : ∀ g, g < seg.mapHead.groupCount →
    dataStart seg.extentSize g ≤ maxFileBlocks + dfMapGroupSize + ipblockGroupSize

theorem maxFileBlocks_eq : maxFileBlocks = 4294950912 := by
  decide

theorem size_le (size : ExtentSize) : size.toNat ≤ 8192 := by
  cases size <;> decide

variable {seg seg' : SegExtentGroup}

theorem Bounded.groupsFit (h : seg.Bounded) : seg.GroupsFit := by
  intro g hg
  have := h.dataStart_le g hg
  simp only [maxFileBlocks_eq, dfMapGroupSize_eq, ipblockGroupSize_eq] at this
  omega

theorem alignBlocks_le (blocks : Nat) : alignBlocks blocks ≤ maxFileBlocks := by
  simp only [alignBlocks, dfFileExtendStepBlocks, maxFileBlocks_eq, u32]
  omega

section Location

theorem extentStart_lt_of_hit {g m b : Nat}
    (hdata : dataStart size g ≤ maxFileBlocks + dfMapGroupSize + ipblockGroupSize)
    (hm : m < dfMapGroupSize) (hb : b < dfMapBitCnt) (hstart : extentStart size g m b ≤ block)
    (hend : block < u32 (dataEnd size g))
    : extentStart size g m b + size.toNat < 2 ^ 32 := by
  have hle := (extentStart_le size (g := g) hm hb).2
  have hdataStart : dataStart size g = 4157 + g * groupBlocks size := by
    simp only [dataStart, groupStart, dfMapGroupSize_eq, ipblockGroupSize_eq, dfMapHeadPage_eq]
    omega
  simp only [dataEnd, maxFileBlocks_eq, dfMapGroupSize_eq, ipblockGroupSize_eq, dfMapGroupExtents_eq] at *
  generalize extentStart size g m b = start at *
  have hblocks : groupBlocks size = 4154 + 4175872 * size.toNat := by
    simp only [groupBlocks, dfMapGroupSize_eq, ipblockGroupSize_eq, dfMapGroupExtents_eq]
  rw [hblocks] at hdataStart
  generalize dataStart size g = data at *
  unfold u32 at hend
  cases size <;> simp only [ExtentSize.toNat] at * <;> omega

variable (h : seg.Bounded)
include h

variable (hpos : 0 < seg.mapHead.groupCount)
include hpos

theorem Bounded.location (block : Nat)
    : ∃ g m b, g < seg.mapHead.groupCount ∧ m < dfMapGroupSize ∧ b < dfMapBitCnt
        ∧ seg.egLocateMapByPageid block = ⟨seg.mapHead.groups g, m, b, g⟩
        ∧ extentStart seg.extentSize g m b + seg.extentSize.toNat < 2 ^ 32 := by
  have hunit := h.inv.bitUnit_eq
  have hsize := size_le seg.extentSize
  obtain ⟨g, hg, hhit, hloc⟩ | ⟨_, hloc⟩ := seg.egLocateMapByPageid_spec block hpos
  . obtain ⟨m, b, hcovers⟩ : ∃ m b, seg.Covers g m b block := ⟨_, _, covers_of_inArea hg hhit.inArea⟩
    rw [hcovers.location hunit] at hloc
    have hstart := hcovers.start_le
    have hend := hhit.2
    rw [h.inv.pageStart_eq h.groupsFit hg, ← extentStart] at hstart
    rw [h.inv.pageEnd_eq h.groupsFit hg] at hend
    have hlt := extentStart_lt_of_hit (h.dataStart_le g hg) hcovers.map_lt hcovers.bit_lt hstart hend
    exact ⟨g, m, b, hg, hcovers.map_lt, hcovers.bit_lt, hloc, hlt⟩
  . refine ⟨seg.mapHead.groupCount - 1, 0, 0, by omega, by decide, by decide, hloc, ?_⟩
    have hdata := h.dataStart_le (seg.mapHead.groupCount - 1) (by omega)
    simp only [extentStart, maxFileBlocks_eq, dfMapGroupSize_eq, ipblockGroupSize_eq] at *
    omega

theorem Bounded.egAllocPreassignedBlock_spec
    {res : AllocResult} (hres : seg.egAllocPreassignedBlock block = .ok res)
    : seg.Extends res
      ∨
      ∃ g m b, seg.Takes res.seg g m b ∧ res.result = some block
        ∧ extentStart seg.extentSize g m b + seg.extentSize.toNat ≤ seg.totalBlocks := by
  obtain ⟨g, m, b, hg, hm, hb, hloc, hend⟩ := h.location hpos block
  have hstart : u32 (extentStart seg.extentSize g m b) = extentStart seg.extentSize g m b :=
    u32_of_lt (by omega)
  have hlt := h.inv.freeGroup_lt (by omega)
  have hfp := h.inv.freePage_lt _ hlt
  simp only [egAllocPreassignedBlock, hloc, mapLocationIsInvalid, h.inv.firstMap_ne_zero hg, Nat.add_comm m,
    h.inv.mapBlock_eq h.groupsFit hg hm, Bool.false_eq_true, if_false] at hres
  rw [← page] at hres
  split at hres
  . next hfree =>
    obtain ⟨res', hres', hspec⟩ := egAllocExtentFromMapInternal_spec h.inv hg hm hb hfree hlt hfp
      h.inv.full_of_lt_freeGroup (fun m' hm' => h.inv.full_of_lt_freePage _ m' hlt hm')
    rw [h.inv.pagenum_eq hg hm, hstart, u32_of_lt hend] at hres
    rw [hstart, u32_of_lt hend] at hspec
    split at hres
    . next hgt =>
      injection hres with hres
      subst hres
      left
      refine ⟨rfl, rfl, ?_⟩
      dsimp only
      omega
    . next hgt =>
      rw [if_neg hgt] at hspec
      simp only [bind_eq_ok, hres'] at hres
      obtain ⟨_, _, res'', hres'', hres⟩ := hres
      obtain rfl := Except.ok.inj hres''
      injection hres with hres
      subst hres
      right
      exact ⟨g, m, b, hspec.1, rfl, by omega⟩
  . cases hres

theorem Bounded.egFreeExtent_spec (hres : seg.egFreeExtent block = .ok seg')
    : ∃ g m b, seg.Releases seg' g m b := by
  obtain ⟨g, m, b, hg, hm, hb, hloc, _⟩ := h.location hpos block
  simp only [egFreeExtent, hloc, mapLocationIsInvalid, h.inv.firstMap_ne_zero hg, Nat.add_comm m,
    h.inv.mapBlock_eq h.groupsFit hg hm, Bool.false_eq_true, if_false] at hres
  rw [← page] at hres
  simp only [bind_eq_ok] at hres
  obtain ⟨mapPage, hset, hres⟩ := hres
  injection hres with hres
  subst hres
  obtain ⟨-, -, hbitmap, -⟩ := (h.inv.page_valid g m hg hm).egUnsetBitmapPage hb hset
  exists g, m, b
  constructor
  . apply inv_egFreeExtent_update h.inv hg hm hb hset
  . rfl
  . rfl
  . intro g' m' b'
    rw [allocated_update false _ hg hm hb _ hbitmap]
    . split
      . next heq => simp [heq]
      . next hne => simp [hne]
    . rfl
    . intro g' m' hm'
      apply page_update _ _ hm hm'
      . rfl
      . rfl

end Location

section First

variable (h : seg.Bounded)
include h

theorem Bounded.first_lt {g m b : Nat} (hfirst : seg.First g m b)
    : extentStart seg.extentSize g m b + seg.extentSize.toNat < 2 ^ 32 := by
  have hsize := size_le seg.extentSize
  have hgroup := h.dataStart_le g hfirst.group_lt
  have hprev : ∀ m' b', m' < dfMapGroupSize → b' < dfMapBitCnt → (seg.page g m').bitmap b' = true →
      m * dfMapBitCnt + b = m' * dfMapBitCnt + b' + 1 →
      extentStart seg.extentSize g m b ≤ maxFileBlocks := by
    intro m' b' hm' hb' hbit heq
    have hle := h.allocated_le g m' b' ⟨hfirst.group_lt, hm', hb', hbit⟩
    simp only [extentStart] at *
    rw [heq, Nat.succ_mul]
    omega
  have hstart : extentStart seg.extentSize g m b ≤ maxFileBlocks + dfMapGroupSize + ipblockGroupSize := by
    cases b with
    | zero =>
      cases m with
      | zero =>
        simp only [extentStart, Nat.zero_mul, Nat.add_zero]
        exact hgroup
      | succ m =>
        have hm := hfirst.map_lt
        have hbit := hfirst.pages m (by omega) (dfMapBitCnt - 1) (by decide)
        have hle := hprev m (dfMapBitCnt - 1) (by omega) (by decide) hbit (by
          rw [dfMapBitCnt_eq]
          omega)
        omega
    | succ b =>
      have hb := hfirst.bit_lt
      have hbit := hfirst.bits b (by omega)
      have hle := hprev m b hfirst.map_lt (by omega) hbit (by omega)
      omega
  simp only [maxFileBlocks_eq, dfMapGroupSize_eq, ipblockGroupSize_eq] at hstart
  omega

theorem Bounded.first_le {g m b : Nat} (hfirst : seg.First g m b)
    : extentStart seg.extentSize g m b + seg.extentSize.toNat ≤ seg.totalBlocks := by
  have hlt := h.first_lt hfirst
  have hend := hfirst.end_le
  rwa [u32_of_lt (by omega : extentStart seg.extentSize g m b < 2 ^ 32), u32_of_lt hlt] at hend

theorem Bounded.next_le (hpos : 0 < seg.mapHead.groupCount)
    (hfull : ∀ g' m', g' < seg.mapHead.groupCount → m' < dfMapGroupSize → (seg.page g' m').Full)
    : dataStart seg.extentSize seg.mapHead.groupCount ≤ maxFileBlocks + dfMapGroupSize +
      ipblockGroupSize := by
  have hlast : seg.mapHead.groupCount - 1 < seg.mapHead.groupCount := by
    omega
  have hle := h.allocated_le (seg.mapHead.groupCount - 1) (dfMapGroupSize - 1) (dfMapBitCnt - 1)
    ⟨hlast, by decide, by decide, hfull _ _ hlast (by decide) _ (by decide)⟩
  have hend := dataEnd_eq_groupStart seg.extentSize (seg.mapHead.groupCount - 1)
  have hindex : (dfMapGroupSize - 1) * dfMapBitCnt + (dfMapBitCnt - 1) + 1 = dfMapGroupExtents := by
    decide
  rw [Nat.sub_add_cancel hpos] at hend
  rw [extentStart, Nat.add_assoc, ← Nat.succ_mul, Nat.succ_eq_add_one, hindex, ← dataEnd, hend] at hle
  simp only [dataStart]
  omega

theorem Bounded.takes {g m b : Nat} (htakes : seg.Takes seg' g m b)
    (htotal : seg'.totalBlocks = seg.totalBlocks)
    (hle : extentStart seg.extentSize g m b + seg.extentSize.toNat ≤ seg.totalBlocks) : seg'.Bounded := by
  constructor
  . exact htakes.inv
  . rw [htotal]
    exact h.totalBlocks_le
  . intro g' m' b' halloc
    rw [htakes.extentSize_eq]
    rw [htakes.allocated_iff] at halloc
    obtain halloc | ⟨rfl, rfl, rfl⟩ := halloc
    . apply h.allocated_le g' m' b' halloc
    . apply Nat.le_trans hle h.totalBlocks_le
  . intro g' hg'
    rw [htakes.groupCount_eq] at hg'
    rw [htakes.extentSize_eq]
    apply h.dataStart_le g' hg'

theorem Bounded.grows (hgrows : seg.Grows seg') (htotal : seg'.totalBlocks = seg.totalBlocks)
    (hnext : dataStart seg.extentSize seg.mapHead.groupCount
      ≤ maxFileBlocks + dfMapGroupSize + ipblockGroupSize) : seg'.Bounded := by
  constructor
  . exact hgrows.inv
  . rw [htotal]
    exact h.totalBlocks_le
  . intro g' m' b' halloc
    rw [hgrows.extentSize_eq]
    apply h.allocated_le g' m' b' ((hgrows.allocated_iff g' m' b').mp halloc)
  . intro g' hg'
    rw [hgrows.groupCount_eq] at hg'
    rw [hgrows.extentSize_eq]
    by_cases heq : g' = seg.mapHead.groupCount
    . rw [heq]
      exact hnext
    . apply h.dataStart_le g' (by omega)

theorem Bounded.of_totalBlocks {blocks : Nat} (hblocks : blocks ≤ maxFileBlocks)
    : ({ seg with totalBlocks := blocks } : SegExtentGroup).Bounded := { h with
  inv := h.inv.of_totalBlocks blocks
  totalBlocks_le := hblocks }

end First

section Run

theorem Marks.totalBlocks_eq (h : seg.Marks seg') : seg'.totalBlocks = seg.totalBlocks := by
  obtain ⟨_, _, _, _, _, _, _, rfl⟩ := h
  rfl

theorem egAddMapGroup_init_totalBlocks (todo pageno dataStart : Nat) (seg : SegExtentGroup)
    : (egAddMapGroup.init seg todo pageno dataStart).totalBlocks = seg.totalBlocks := by
  induction todo generalizing seg pageno dataStart with
  | zero => rfl
  | succ todo ih => apply ih

theorem egAddMapGroup_totalBlocks {pageno : Nat}
    (h : seg.egAddMapGroup pageno dfMapGroupSize seg.mapHead.groupCount = .ok seg')
    : seg'.totalBlocks = seg.totalBlocks := by
  simp only [egAddMapGroup, Nat.lt_irrefl, if_false, bind_eq_ok] at h
  obtain ⟨_, _, _, _, h⟩ := h
  injection h with h
  subst h
  apply egAddMapGroup_init_totalBlocks

structure Obtained (seg seg' : SegExtentGroup) (pre : Option Nat) (block g m b : Nat) : Prop where
  fresh : ¬ seg.Allocated g m b
  allocated : seg'.Allocated g m b
  end_le : extentStart seg'.extentSize g m b + seg'.extentSize.toNat ≤ maxFileBlocks
  block_eq : block = pre.getD (extentStart seg'.extentSize g m b)

theorem Bounded.egTryAllocExtent_spec (h : seg.Bounded) (hpos : 0 < seg.mapHead.groupCount)
    {pre : Option Nat} {res : AllocResult} (hres : seg.egTryAllocExtent pre = .ok res)
    : (res.seg = seg ∧ res.result = none
        ∧ (res.targetFileSize = 0 → ∀ g' m', g' < seg.mapHead.groupCount → m' < dfMapGroupSize →
          (seg.page g' m').Full))
      ∨
      (res.seg.Bounded
        ∧ ∃ block g m b, res.result = some block ∧ seg.Obtained res.seg pre block g m b) := by
  have htries := tries_egTryAllocExtent hres
  have hmark : ∀ {block g m b}, res.result = some block → seg.Takes res.seg g m b →
      extentStart seg.extentSize g m b + seg.extentSize.toNat ≤ seg.totalBlocks →
      block = pre.getD (extentStart seg.extentSize g m b) →
      res.seg.Bounded ∧ ∃ block g m b, res.result = some block ∧ seg.Obtained res.seg pre block g m b := by
    intro block g m b hblock htakes hle heq
    have htotal : res.seg.totalBlocks = seg.totalBlocks := by
      obtain ⟨_, hnone⟩ | ⟨hmarks, _⟩ := htries
      . rw [hnone] at hblock
        cases hblock
      . apply hmarks.totalBlocks_eq
    refine ⟨h.takes htakes htotal hle, block, g, m, b, hblock, htakes.fresh, ?_, ?_, ?_⟩
    . rw [htakes.allocated_iff]
      exact .inr ⟨rfl, rfl, rfl⟩
    . rw [htakes.extentSize_eq]
      apply Nat.le_trans hle h.totalBlocks_le
    . rw [htakes.extentSize_eq]
      exact heq
  cases pre with
  | none =>
    obtain ⟨res', hres', hspec⟩ := egTryAllocExtent_none_spec h.inv h.groupsFit hpos
    obtain rfl := Except.ok.inj (hres.symm.trans hres')
    obtain ⟨hseg, hnone, hfull⟩ | hextends | ⟨g, m, b, ⟨htakes, hsome, _⟩, hfirst⟩ := hspec
    . left
      exact ⟨hseg, hnone, fun _ => hfull⟩
    . left
      refine ⟨hextends.1, hextends.2.1, ?_⟩
      intro hzero
      have := hextends.2.2
      omega
    . right
      have hlt := h.first_lt hfirst
      apply hmark hsome htakes (h.first_le hfirst)
      rw [u32_of_lt (by omega)]
      rfl
  | some block =>
    have hfree := h.inv.freeGroup_lt hpos
    simp only [egTryAllocExtent, hpos, hfree, decide_true, Bool.and_self, segmentCheck_true, bind,
      Except.bind] at hres
    obtain hextends | ⟨g, m, b, htakes, hsome, hle⟩ := h.egAllocPreassignedBlock_spec hpos hres
    . left
      refine ⟨hextends.1, hextends.2.1, ?_⟩
      intro hzero
      have := hextends.2.2
      omega
    . right
      apply hmark hsome htakes hle rfl

theorem Obtained.of_allocated_iff {seg1 : SegExtentGroup} {pre : Option Nat} {g m b : Nat}
    (h : seg1.Obtained seg' pre block g m b)
    (hiff : ∀ g m b, seg1.Allocated g m b ↔ seg.Allocated g m b) : seg.Obtained seg' pre block g m b := by
  constructor
  . rw [← hiff]
    exact h.fresh
  . exact h.allocated
  . exact h.end_le
  . exact h.block_eq

theorem Bounded.firstGroup (h : seg.Bounded) {seg1 : SegExtentGroup}
    (hseg1 : egAllocExtent.firstGroup seg = .ok seg1)
    : seg1.Bounded ∧ 0 < seg1.mapHead.groupCount
        ∧ ∀ g m b, seg1.Allocated g m b ↔ seg.Allocated g m b := by
  obtain ⟨seg1', hseg1', hinv, hsize, hcount, hiff⟩ := firstGroup_spec h.inv
  obtain rfl := Except.ok.inj (hseg1.symm.trans hseg1')
  refine ⟨?_, by omega, hiff⟩
  constructor
  . exact hinv
  . rw [egAllocExtent.firstGroup] at hseg1
    split at hseg1
    . next hzero =>
      rw [← hzero] at hseg1
      rw [egAddMapGroup_totalBlocks hseg1]
      exact h.totalBlocks_le
    . obtain rfl := Except.ok.inj hseg1
      exact h.totalBlocks_le
  . intro g m b halloc
    rw [hsize]
    apply h.allocated_le g m b ((hiff g m b).mp halloc)
  . intro g hg
    rw [hsize]
    by_cases hlt : g < seg.mapHead.groupCount
    . apply h.dataStart_le g hlt
    . have hzero : g = 0 := by
        omega
      rw [hzero, maxFileBlocks_eq]
      cases seg.extentSize <;> decide

theorem Bounded.egAllocExtent_spec (fuel : Nat) {seg : SegExtentGroup} (h : seg.Bounded) {limit : Nat}
    {pre res : Option Nat} (hres : seg.egAllocExtent limit pre fuel = .ok (seg', res))
    : seg'.Bounded ∧ ∀ block, res = some block → ∃ g m b, seg.Obtained seg' pre block g m b := by
  induction fuel generalizing seg with
  | zero =>
    simp only [egAllocExtent, Except.ok.injEq, Prod.mk.injEq] at hres
    obtain ⟨rfl, rfl⟩ := hres
    exact ⟨h, fun _ hsome => absurd hsome (by simp)⟩
  | succ fuel ih =>
    simp only [egAllocExtent, bind_eq_ok] at hres
    obtain ⟨seg1, hseg1, res1, hres1, hres⟩ := hres
    obtain ⟨h1, hpos1, hiff1⟩ := h.firstGroup hseg1
    obtain ⟨hsame, hnone, hfull⟩ | ⟨hbounded, block, g, m, b, hsome, hobtained⟩ :=
      h1.egTryAllocExtent_spec hpos1 hres1
    . simp only [hsame, hnone, Option.isSome_none, Bool.false_eq_true, if_false] at hres
      split at hres
      . rw [bind_eq_ok] at hres
        obtain ⟨extended, hextend, hres⟩ := hres
        simp only [egExtendDf, bind_eq_ok] at hextend
        obtain ⟨_, _, hextend⟩ := hextend
        split at hextend
        . split at hextend
          . obtain rfl := Except.ok.inj hextend
            simp only [pure, Except.pure, Except.ok.injEq, Prod.mk.injEq] at hres
            obtain ⟨rfl, rfl⟩ := hres
            exact ⟨h1, fun _ hsome => absurd hsome (by simp)⟩
          . obtain rfl := Except.ok.inj hextend
            have hih := ih (h1.of_totalBlocks (alignBlocks_le res1.targetFileSize)) hres
            refine ⟨hih.1, ?_⟩
            intro block hblock
            obtain ⟨g, m, b, hobtained⟩ := hih.2 block hblock
            exact ⟨g, m, b, hobtained.of_allocated_iff hiff1⟩
        . obtain rfl := Except.ok.inj hextend
          have hih := ih h1 hres
          refine ⟨hih.1, ?_⟩
          intro block hblock
          obtain ⟨g, m, b, hobtained⟩ := hih.2 block hblock
          exact ⟨g, m, b, hobtained.of_allocated_iff hiff1⟩
      . next htarget =>
        simp only [bind_eq_ok] at hres
        obtain ⟨start, hstart, seg2, hseg2, hres⟩ := hres
        have hnext := h1.next_le hpos1 (hfull (by omega))
        have hfit : dataStart seg1.extentSize seg1.mapHead.groupCount < 2 ^ 32 := by
          simp only [maxFileBlocks_eq, dfMapGroupSize_eq, ipblockGroupSize_eq] at hnext
          omega
        rw [egNextGroupStart_spec h1.inv hpos1, u32_of_lt (by simp only [dataStart] at hfit; omega)] at hstart
        obtain rfl := Except.ok.inj hstart
        obtain ⟨seg2', hseg2', hgrows⟩ := egAddMapGroup_spec h1.inv hfit
        obtain rfl := Except.ok.inj (hseg2.symm.trans hseg2')
        have hih := ih (h1.grows hgrows (egAddMapGroup_totalBlocks hseg2) hnext) hres
        refine ⟨hih.1, ?_⟩
        intro block hblock
        obtain ⟨g, m, b, hobtained⟩ := hih.2 block hblock
        refine ⟨g, m, b, (hobtained.of_allocated_iff hgrows.allocated_iff).of_allocated_iff hiff1⟩
    . simp only [hsome, Option.isSome_some, if_true, pure, Except.pure, Except.ok.injEq,
        Prod.mk.injEq] at hres
      obtain ⟨rfl, rfl⟩ := hres
      refine ⟨hbounded, ?_⟩
      intro block' hblock'
      obtain rfl := Option.some.inj hblock'
      exact ⟨g, m, b, hobtained.of_allocated_iff hiff1⟩

theorem bounded_create {blankPages : Nat → MapPage} {blocks : Nat}
    (hblocks : blocks ≤ maxFileBlocks) : (create size blankPages blocks).Bounded := by
  constructor
  . apply inv_create
  . exact hblocks
  . intro g m b halloc
    exact absurd halloc not_allocated_create
  . intro g hg
    simp [create, egInitMapHeadPageContent] at hg

theorem egFreeExtent_frame (h : seg.egFreeExtent block = .ok seg')
    : seg'.totalBlocks = seg.totalBlocks ∧ seg'.extentSize = seg.extentSize := by
  simp only [egFreeExtent] at h
  split at h
  . cases h
  . simp only [bind_eq_ok] at h
    obtain ⟨_, _, h⟩ := h
    obtain rfl := Except.ok.inj h
    exact ⟨rfl, rfl⟩

theorem Bounded.free (h : seg.Bounded) (hres : seg.egFreeExtent block = .ok seg')
    : seg'.Bounded := by
  have hpos : 0 < seg.mapHead.groupCount := by
    by_contra hzero
    have hloc : mapLocationIsInvalid (seg.egLocateMapByPageid block) = true := by
      rw [egLocateMapByPageid, show seg.mapHead.groupCount = 0 by omega]
      rfl
    simp only [egFreeExtent, hloc, if_true] at hres
    cases hres
  obtain ⟨g, m, b, hreleases⟩ := h.egFreeExtent_spec hpos hres
  constructor
  . exact hreleases.inv
  . rw [(egFreeExtent_frame hres).1]
    exact h.totalBlocks_le
  . intro g' m' b' halloc
    rw [hreleases.extentSize_eq]
    apply h.allocated_le g' m' b' ((hreleases.allocated_iff g' m' b').mp halloc).1
  . intro g' hg'
    rw [hreleases.groupCount_eq] at hg'
    rw [hreleases.extentSize_eq]
    apply h.dataStart_le g' hg'

theorem Used.bounded (h : Used size seg) : seg.Bounded := by
  induction h with
  | create _ hblocks => exact bounded_create hblocks
  | alloc _ hres ih => exact (ih.egAllocExtent_spec _ hres).1
  | free _ hres ih => exact ih.free hres
  | resize _ hblocks ih => exact ih.of_totalBlocks hblocks

theorem Used.extentSize_eq (h : Used size seg) : seg.extentSize = size := by
  induction h with
  | create => rfl
  | alloc _ hres ih =>
    rw [← ih]
    exact (allocs_egAllocExtent _ _ hres).groupCount_le.2
  | free _ hres ih =>
    rw [← ih]
    exact (egFreeExtent_frame hres).2
  | resize _ _ ih => exact ih

theorem Bounded.firstPage_add (h : seg.Bounded) {g m b : Nat} (halloc : seg.Allocated g m b)
    : (seg.page g m).firstPage + b * seg.mapHead.bitUnit = extentStart seg.extentSize g m b := by
  have hle := h.allocated_le g m b halloc
  have hstart : extentStart seg.extentSize g m b = extentStart seg.extentSize g m 0 + b *
    seg.extentSize.toNat := by
    simp only [extentStart, Nat.add_mul, Nat.add_zero]
    omega
  rw [maxFileBlocks_eq] at hle
  rw [h.inv.firstPage_eq g m halloc.1 halloc.2.1, h.inv.bitUnit_eq, u32_of_lt (by omega), hstart]

end Run

end SegExtentGroup

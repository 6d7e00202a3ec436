import OpenGauss.Segment.InversePtr.Lemmas
import OpenGauss.Segment.ExtentGroup.Bounds

/-!
This module contains how the extents of compressed relations are found among the blocks of a data
file, from `segment_cfs_addressing.cpp`.
-/

structure CfsExtentPosition where
  cfsExtentOffsetPage : Nat
  cfsExtentStartPage : Nat
  deriving DecidableEq

def segGetCfsExtentByPhyBlockNum (extentSize : ExtentSize) (blocknum : Nat) : CfsExtentPosition :=
  let offsetInGroup := u32Sub blocknum (dfMapHeadPage + 1) % groupTotalBlocks extentSize
  let offsetInGroupData := u32Sub offsetInGroup (dfMapGroupSize + ipblockGroupSize)
  let cfsExtentOffsetPage := offsetInGroupData % cfsExtentSize
  ⟨cfsExtentOffsetPage, u32Sub blocknum cfsExtentOffsetPage⟩

def segIsDataBlock (blocknum : Nat) (extentSize : ExtentSize) : Bool :=
  if blocknum ≤ dfMapHeadPage then
    false
  else if u32Sub blocknum (dfMapHeadPage + 1) % groupTotalBlocks extentSize
      < dfMapGroupSize + ipblockGroupSize then
    false
  else
    true

open Layout

variable {size : ExtentSize} {page : Nat}

def InDataArea (size : ExtentSize) (g page : Nat) : Prop :=
  dataStart size g ≤ page ∧ page < dataEnd size g

structure Geometry (size : ExtentSize) (page : Nat) : Prop where
  isDataBlock : segIsDataBlock page size = true ↔ ∃ g, InDataArea size g page
  cfsExtent : ∀ g, InDataArea size g page →
    segGetCfsExtentByPhyBlockNum size page
      = ⟨(page - dataStart size g) % cfsExtentSize, page - (page - dataStart size g) % cfsExtentSize⟩
  ipBlock : IsExtent size page → ∃ g, InDataArea size g page
    ∧ groupStart size g + dfMapGroupSize ≤ (getIpBlock page size).ipblock
    ∧ (getIpBlock page size).ipblock < dataStart size g
    ∧ (getIpBlock page size).offset < extentsPerIpblock
  ipBlock_ne : ∀ extent', IsExtent size page → IsExtent size extent' → page ≠ extent' →
    getIpBlock page size ≠ getIpBlock extent' size
  laidOut : ∀ seg, SegExtentGroup.Used size seg → ∀ g < seg.mapHead.groupCount,
    (seg.mapHead.groups g).firstMap = groupStart size g ∧ dataStart size g < 2 ^ 32
  allocated : ∀ seg, SegExtentGroup.Used size seg → ∀ g m b, seg.Allocated g m b →
    (seg.page g m).firstPage + b * seg.mapHead.bitUnit = extentStart size g m b
      ∧ extentStart size g m b + size.toNat < 2 ^ 32
  returned : ∀ (seg seg' : SegExtentGroup) limit pre fuel block, SegExtentGroup.Used size seg →
    seg.egAllocExtent limit pre fuel = .ok (seg', some block) →
    ∃ g m b, ¬ seg.Allocated g m b ∧ seg'.Allocated g m b
      ∧ block = pre.getD ((seg'.page g m).firstPage + b * seg'.mapHead.bitUnit)

theorem dataEnd_eq (size : ExtentSize) (g : Nat)
    : dataEnd size g = dataStart size g + 4175872 * size.toNat := by
  rw [dataEnd, dfMapGroupExtents_eq]

section Formulas

theorem InDataArea.block_eq {g : Nat} (harea : InDataArea size g page) (hpage : page < 2 ^ 32)
    (hwrap : BelowWrap size page)
    : page = 3 + (g * groupTotalBlocks size + (4154 + (page - dataStart size g)))
        ∧ 4154 + (page - dataStart size g) < groupTotalBlocks size := by
  simp only [InDataArea, dataEnd_eq, dataStart_eq, groupTotalBlocks_eq, BelowWrap, wrappedGroupEnd] at *
  cases size <;> simp only [ExtentSize.toNat, forall_const, reduceCtorEq, false_implies] at * <;> omega

theorem inDataArea_of_mod {r : Nat} (hpage : 3 + r < 2 ^ 32) (hwrap : BelowWrap size (3 + r))
    (hmod : 4154 ≤ r % groupTotalBlocks size)
    : InDataArea size (r / groupTotalBlocks size) (3 + r) := by
  simp only [InDataArea, dataEnd_eq, dataStart_eq, groupTotalBlocks_eq, BelowWrap, wrappedGroupEnd] at *
  cases size <;> simp only [ExtentSize.toNat, forall_const, reduceCtorEq, false_implies] at * <;> omega

theorem segIsDataBlock_iff (hpage : page < 2 ^ 32) (hwrap : BelowWrap size page)
    : segIsDataBlock page size = true ↔ ∃ g, InDataArea size g page := by
  constructor
  . intro h
    simp only [segIsDataBlock, dfMapHeadPage_eq, dfMapGroupSize_eq, ipblockGroupSize_eq, Nat.reduceAdd] at h
    split at h
    . cases h
    . next hhead =>
      obtain ⟨r, rfl⟩ : ∃ r, page = 3 + r := ⟨page - 3, by omega⟩
      rw [u32Sub_eq hpage] at h
      split at h
      . cases h
      . next hmod => exact ⟨_, inDataArea_of_mod hpage hwrap (by omega)⟩
  . rintro ⟨g, harea⟩
    obtain ⟨hblock, hlt⟩ := harea.block_eq hpage hwrap
    have hmod := mul_add_div_mod g hlt
    have hpos : 3 < page := by
      omega
    rw [hblock] at hpage hpos ⊢
    simp only [segIsDataBlock, dfMapHeadPage_eq, dfMapGroupSize_eq, ipblockGroupSize_eq, Nat.reduceAdd]
    rw [if_neg (by omega), u32Sub_eq hpage, hmod.2, if_neg (by omega)]

theorem segGetCfsExtentByPhyBlockNum_eq {g : Nat} (hpage : page < 2 ^ 32) (hwrap : BelowWrap size page)
    (harea : InDataArea size g page)
    : segGetCfsExtentByPhyBlockNum size page
        = ⟨(page - dataStart size g) % cfsExtentSize, page - (page - dataStart size g) % cfsExtentSize⟩ := by
  obtain ⟨hblock, hlt⟩ := harea.block_eq hpage hwrap
  have hmod := mul_add_div_mod g hlt
  have hle : (page - dataStart size g) % cfsExtentSize ≤ page :=
    Nat.le_trans (Nat.mod_le _ _) (Nat.sub_le _ _)
  have hstart : u32Sub page ((page - dataStart size g) % cfsExtentSize)
      = page - (page - dataStart size g) % cfsExtentSize := by
    rw [u32Sub, u32]
    omega
  have hoffset : u32Sub page 3 % groupTotalBlocks size = 4154 + (page - dataStart size g) := by
    rw [← hmod.2, ← u32Sub_eq (a := 3) (by omega : 3 + (g * groupTotalBlocks size
      + (4154 + (page - dataStart size g))) < 2 ^ 32), ← hblock]
  simp only [segGetCfsExtentByPhyBlockNum, dfMapHeadPage_eq, dfMapGroupSize_eq, ipblockGroupSize_eq,
    Nat.reduceAdd]
  rw [hoffset, u32Sub_eq (by omega), hstart]

theorem getIpBlock_inGroup (h : IsExtent size page) (hwrap : BelowWrap size page)
    : ∃ g, InDataArea size g page
        ∧ groupStart size g + dfMapGroupSize ≤ (getIpBlock page size).ipblock
        ∧ (getIpBlock page size).ipblock < dataStart size g
        ∧ (getIpBlock page size).offset < extentsPerIpblock := by
  have hfits := h.fits
  have hpos := size_pos size
  obtain ⟨g, n, hn, rfl⟩ := h.exists_index
  have hloc := getIpBlock_eq hn hpos (by omega) hwrap
  have hblock := (block_eq hn hpos (by omega) hwrap).1
  have hle : n * size.toNat + size.toNat ≤ 4175872 * size.toNat := by
    rw [← Nat.succ_mul]
    exact Nat.mul_le_mul_right _ hn
  rw [Nat.add_zero] at hloc hblock
  rw [hloc]
  refine ⟨g, ⟨by omega, ?_⟩, ?_, ?_, ?_⟩
  . rw [dataEnd_eq]
    omega
  . have hstart : dataStart size g = groupStart size g + 4154 := by
      simp only [dataStart, dfMapGroupSize_eq, ipblockGroupSize_eq]
    rw [dfMapGroupSize_eq]
    dsimp only
    omega
  . dsimp only
    omega
  . rw [extentsPerIpblock_eq]
    apply Nat.mod_lt
    decide

theorem segGetCfsExtentByPhyBlockNum_ne (hpage : page < 2 ^ 32) (hge : wrappedGroupEnd ≤ page)
    : InDataArea .extSize8192 0 page
        ∧ (segGetCfsExtentByPhyBlockNum .extSize8192 page).cfsExtentOffsetPage
          ≠ (page - dataStart .extSize8192 0) % cfsExtentSize := by
  have hstart : dataStart .extSize8192 0 = 4157 := by
    decide
  have hend : dataEnd .extSize8192 0 = 34208747581 := by
    decide
  simp only [wrappedGroupEnd] at hge
  constructor
  . constructor
    . rw [hstart]
      omega
    . rw [hend]
      omega
  . obtain ⟨r, rfl⟩ : ∃ r, page = 3 + (1 * 4143976506 + r) := ⟨page - 4143976509, by omega⟩
    have hgroup := mul_add_div_mod 1 (by omega : r < 4143976506)
    have hoffset : (segGetCfsExtentByPhyBlockNum .extSize8192
        (3 + (1 * 4143976506 + r))).cfsExtentOffsetPage = u32Sub r 4154 % 128 := by
      simp only [segGetCfsExtentByPhyBlockNum, groupTotalBlocks_eq, dfMapHeadPage_eq, dfMapGroupSize_eq,
        ipblockGroupSize_eq, cfsExtentSize, Nat.reduceAdd]
      rw [u32Sub_eq hpage, hgroup.2]
    rw [hoffset, hstart, cfsExtentSize, u32Sub]
    unfold u32
    omega

end Formulas

section Runs

open SegExtentGroup

theorem geometry_iff (hpage : page < 2 ^ 32) : Geometry size page ↔ BelowWrap size page := by
  constructor
  . intro h
    by_contra hwrap
    obtain ⟨rfl, hge⟩ : size = .extSize8192 ∧ wrappedGroupEnd ≤ page := by
      simpa [BelowWrap] using hwrap
    obtain ⟨harea, hne⟩ := segGetCfsExtentByPhyBlockNum_ne hpage hge
    apply hne
    rw [h.cfsExtent 0 harea]
  . intro hwrap
    constructor
    . apply segIsDataBlock_iff hpage hwrap
    . intro g harea
      apply segGetCfsExtentByPhyBlockNum_eq hpage hwrap harea
    . intro hextent
      apply getIpBlock_inGroup hextent hwrap
    . intro extent' hextent hextent' hne
      apply hextent.getIpBlock_ne hextent' hwrap hne
    . intro seg hused g hg
      obtain rfl := hused.extentSize_eq
      exact ⟨hused.bounded.inv.firstMap_eq g hg, hused.bounded.groupsFit g hg⟩
    . intro seg hused g m b halloc
      obtain rfl := hused.extentSize_eq
      have hle := hused.bounded.allocated_le g m b halloc
      rw [maxFileBlocks_eq] at hle
      exact ⟨hused.bounded.firstPage_add halloc, by omega⟩
    . intro seg seg' limit pre fuel block hused hres
      obtain ⟨hbounded, hobtained⟩ := hused.bounded.egAllocExtent_spec _ hres
      obtain ⟨g, m, b, hobtained⟩ := hobtained block rfl
      refine ⟨g, m, b, hobtained.fresh, hobtained.allocated, ?_⟩
      rw [hbounded.firstPage_add hobtained.allocated]
      exact hobtained.block_eq

theorem geometry_lastPage : Geometry .extSize1024 4294967295 ↔ BelowWrap .extSize1024 4294967295 :=
  geometry_iff (by decide)

theorem not_geometry_wrappedGroupEnd
    : ¬ Geometry .extSize8192 wrappedGroupEnd
      ∧ segIsDataBlock wrappedGroupEnd .extSize8192 = false
      ∧ InDataArea .extSize8192 0 wrappedGroupEnd := by
  obtain ⟨harea, hne⟩ := segGetCfsExtentByPhyBlockNum_ne (by decide) (Nat.le_refl wrappedGroupEnd)
  refine ⟨?_, by decide, harea⟩
  intro h
  apply hne
  rw [h.cfsExtent 0 harea]

end Runs

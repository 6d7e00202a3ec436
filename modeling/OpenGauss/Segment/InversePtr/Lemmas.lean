import OpenGauss.Segment.InversePtr.Impl
import OpenGauss.Segment.BlockMap.Lemmas

/-!
This module contains the verification of the inverse pointers.
-/

open Layout ExtentInversePointer ExtentUsageType List Segment

section Flag

theorem assembleFlag_eq (usage : ExtentUsageType) (specialData : Nat)
    : spcInvrsptrAssembleFlag usage specialData = specialData % 2 ^ 18 + usage.toNat * 2 ^ 28 := by
  have hmask : spcInvrsptrSpecialDataMask = 2 ^ 18 - 1 := by decide
  rw [spcInvrsptrAssembleFlag, hmask, Nat.and_two_pow_sub_one_eq_mod, Nat.shiftLeft_eq, spcInvrsptrUsageShift]

@[simp]
theorem getSpecialData_assembleFlag (usage : ExtentUsageType) (specialData owner : Nat)
    : (ExtentInversePointer.mk (spcInvrsptrAssembleFlag usage specialData) owner).getSpecialData
        =
      specialData % 2 ^ 18 := by
  have hmask : spcInvrsptrSpecialDataMask = 2 ^ 18 - 1 := by decide
  rw [getSpecialData, assembleFlag_eq, hmask, Nat.and_two_pow_sub_one_eq_mod]
  dsimp only
  omega

@[simp]
theorem getUsage_assembleFlag (usage : ExtentUsageType) (specialData owner : Nat)
    : (ExtentInversePointer.mk (spcInvrsptrAssembleFlag usage specialData) owner).getUsage = usage.toNat := by
  rw [getUsage, assembleFlag_eq, spcInvrsptrUsageShift, Nat.shiftRight_eq_div_pow]
  dsimp only
  omega

theorem getSpecialData_lt (eip : ExtentInversePointer) : eip.getSpecialData < 2 ^ 18 := by
  have hmask : spcInvrsptrSpecialDataMask = 2 ^ 18 - 1 := by decide
  rw [getSpecialData, hmask, Nat.and_two_pow_sub_one_eq_mod]
  exact Nat.mod_lt _ (by decide)

end Flag

section Location

variable {size : ExtentSize} {offset extent : Nat}

structure IsExtent (size : ExtentSize) (extent : Nat) : Prop where
  exists_bit : ∃ g m b, m < dfMapGroupSize ∧ b < dfMapBitCnt ∧ extent = Layout.extentStart size g m b
  fits : extent + size.toNat ≤ 2 ^ 32

-- From this block on `group_total_blocks` is too small for extents of 8192 blocks, of which a group
-- holds more than 32 bits can count.
def wrappedGroupEnd : Nat := 4143976509

def BelowWrap (size : ExtentSize) (block : Nat) : Prop :=
  size = .extSize8192 → block < wrappedGroupEnd

theorem extentsPerIpblock_eq : extentsPerIpblock = 1021 := by
  decide

theorem groupTotalBlocks_eq (size : ExtentSize) : groupTotalBlocks size
      =
    match size with
    | .extSize1 => 4180026
    | .extSize8 => 33411130
    | .extSize128 => 534515770
    | .extSize1024 => 4276097082
    | .extSize8192 => 4143976506 := by
  cases size <;> decide

theorem dataStart_eq (size : ExtentSize) (g : Nat)
    : dataStart size g = 4157 + g * (4154 + 4175872 * size.toNat) := by
  simp only [dataStart, groupStart, groupBlocks, dfMapGroupSize_eq,
    ipblockGroupSize_eq, dfMapGroupExtents_eq, dfMapHeadPage_eq]
  cases size <;> simp only [ExtentSize.toNat] <;> omega

theorem block_eq {g n : Nat} (hn : n < 4175872) (hoffset : offset < size.toNat)
    (hlt : dataStart size g + n * size.toNat + offset < 2 ^ 32)
    (hwrap : BelowWrap size (dataStart size g + n * size.toNat + offset))
    : dataStart size g + n * size.toNat + offset
        =
      3 + (g * groupTotalBlocks size + (4154 + (n * size.toNat + offset)))
        ∧ 4154 + (n * size.toNat + offset) < groupTotalBlocks size := by
  rw [dataStart_eq] at *
  rw [groupTotalBlocks_eq]
  simp only [BelowWrap, wrappedGroupEnd] at *
  cases size <;> simp only [ExtentSize.toNat, forall_const, reduceCtorEq, false_implies] at *
  all_goals omega

theorem u32Sub_eq {a b : Nat} (h : a + b < 2 ^ 32) : u32Sub (a + b) a = b := by
  rw [u32Sub, u32]
  omega

theorem mul_add_div_mod (a : Nat) {b c : Nat} (h : c < b) : (a * b + c) / b = a ∧ (a * b + c) % b = c := by
  rw [Nat.mul_add_mod', Nat.mod_eq_of_lt h, Nat.add_comm, Nat.add_mul_div_right _ _ (by omega),
    Nat.div_eq_of_lt h, Nat.zero_add]
  exact ⟨rfl, rfl⟩

theorem getIpBlock_eq {g n : Nat} (hn : n < 4175872) (hoffset : offset < size.toNat)
    (hlt : dataStart size g + n * size.toNat + offset < 2 ^ 32)
    (hwrap : BelowWrap size (dataStart size g + n * size.toNat + offset))
    : getIpBlock (dataStart size g + n * size.toNat + offset) size
        =
      ⟨67 + g * groupTotalBlocks size + n / 1021, n % 1021⟩ := by
  have ⟨hblock, hmod⟩ := block_eq hn hoffset hlt hwrap
  rw [hblock] at hlt ⊢
  have hle : n ≤ n * size.toNat := Nat.le_mul_of_pos_right n (size_pos size)
  have hgroup := mul_add_div_mod g hmod
  have hextent := mul_add_div_mod n hoffset
  have hn' : n / 1021 ≤ n := Nat.div_le_self n 1021
  simp only [getIpBlock, dfMapHeadPage_eq, dfMapGroupSize_eq,
    ipblockGroupSize_eq, extentsPerIpblock_eq, Nat.reduceAdd]
  have hstart : u32 (3 + g * groupTotalBlocks size + 64) = 67 + g * groupTotalBlocks size := by
    rw [u32_of_lt (by omega)]
    omega
  rw [u32Sub_eq hlt, hgroup.1, hgroup.2, u32Sub_eq (by omega), hextent.1, hstart, u32_of_lt (by omega)]

theorem checkMetaData_eq {g n : Nat} (hn : n < 4175872)
    (hoffset : offset < size.toNat) (hsize : size ≠ .extSize1)
    (hlt : dataStart size g + n * size.toNat + offset < 2 ^ 32)
    (hwrap : BelowWrap size (dataStart size g + n * size.toNat + offset))
    : SegSpace.checkMetaData (dataStart size g + n * size.toNat + offset) size = some offset := by
  have ⟨hblock, hmod⟩ := block_eq hn hoffset hlt hwrap
  rw [hblock] at hlt ⊢
  simp only [SegSpace.checkMetaData, dfMapHeadPage_eq, dfMapGroupSize_eq, ipblockGroupSize_eq, Nat.reduceAdd]
  rw [u32Sub_eq hlt, (mul_add_div_mod g hmod).2, if_neg (by simp [hsize]),
    if_neg (by omega)]
  have hsub : 4154 + (n * size.toNat + offset) - 64 - 4090 = n * size.toNat + offset := by omega
  rw [hsub, (mul_add_div_mod n hoffset).2]

theorem IsExtent.exists_index (h : IsExtent size extent)
    : ∃ g n, n < 4175872 ∧ extent = dataStart size g + n * size.toNat := by
  have ⟨g, m, b, hm, hb, heq⟩ := h.exists_bit
  refine ⟨g, m * dfMapBitCnt + b, ?_, heq⟩
  simp only [dfMapGroupSize_eq, dfMapBitCnt_eq] at *
  omega

theorem IsExtent.getIpBlock_add (h : IsExtent size extent)
    (hoffset : offset < size.toNat) (hwrap : BelowWrap size (extent + offset))
    : getIpBlock (extent + offset) size = getIpBlock extent size := by
  have hfits := h.fits
  have ⟨g, n, hn, heq⟩ := h.exists_index
  have hpos := size_pos size
  have hwrap' : BelowWrap size (extent + 0) := by
    intro hsize
    have := hwrap hsize
    omega
  subst heq
  rw [getIpBlock_eq hn hoffset (by omega) hwrap]
  exact (getIpBlock_eq hn hpos (by omega) hwrap').symm

theorem wrappedGroupEnd_le_ipblock (hwrap : wrappedGroupEnd ≤ extent) (hlt : extent < 2 ^ 32)
    : wrappedGroupEnd ≤ (getIpBlock extent .extSize8192).ipblock := by
  simp only [wrappedGroupEnd] at *
  have heq : extent = 3 + (1 * 4143976506 + (extent - 4143976509)) := by omega
  generalize extent - 4143976509 = r at heq
  have hgroup := mul_add_div_mod 1 (b := 4143976506) (c := r) (by omega)
  simp only [getIpBlock, groupTotalBlocks_eq, dfMapHeadPage_eq, dfMapGroupSize_eq,
    ipblockGroupSize_eq, extentsPerIpblock_eq, Nat.reduceAdd, ExtentSize.toNat]
  rw [heq, u32Sub_eq (by omega), hgroup.1, hgroup.2]
  have hid := u32_lt (r + 2 ^ 32 - 4154)
  simp only [u32Sub]
  generalize u32 (r + 2 ^ 32 - 4154) = groupOffset at *
  simp only [u32]
  omega

theorem IsExtent.getIpBlock_ne {extent' : Nat} (h : IsExtent size extent)
    (h' : IsExtent size extent') (hwrap : BelowWrap size extent) (hne : extent ≠ extent')
    : getIpBlock extent size ≠ getIpBlock extent' size := by
  have hfits := h.fits
  have hfits' := h'.fits
  have ⟨g, n, hn, heq⟩ := h.exists_index
  have ⟨g', n', hn', heq'⟩ := h'.exists_index
  have hpos := size_pos size
  subst heq heq'
  have hloc := getIpBlock_eq hn hpos (by omega) hwrap
  rw [Nat.add_zero] at hloc
  by_cases hwrap' : BelowWrap size (dataStart size g' + n' * size.toNat)
  . have hloc' := getIpBlock_eq hn' hpos (by omega) hwrap'
    rw [Nat.add_zero] at hloc'
    rw [hloc, hloc']
    intro h
    rw [IpBlockLocation.mk.injEq] at h
    have hsame : g = g' ∧ n / 1021 = n' / 1021 := by
      have hgroup := groupTotalBlocks_eq size
      cases size <;> simp only at hgroup <;> rw [hgroup] at h <;> omega
    have : n = n' := by omega
    apply hne
    rw [hsame.1, this]
  . have hsize : size = .extSize8192
        ∧ wrappedGroupEnd ≤ dataStart size g' + n' * size.toNat := by
      simpa [BelowWrap] using hwrap'
    obtain ⟨rfl, hge⟩ := hsize
    have hle := wrappedGroupEnd_le_ipblock hge (by omega)
    have hg : g = 0 := by
      rw [dataStart_eq] at hfits
      simp only [ExtentSize.toNat] at hfits
      omega
    intro h
    rw [← h, hloc, hg, wrappedGroupEnd] at hle
    dsimp only at hle
    omega

theorem IsExtent.checkMetaData_of_wrap {offset' : Nat}
    (h : IsExtent .extSize8192 extent) (hoffset : offset < 8192)
    (hwrap : wrappedGroupEnd ≤ extent + offset)
    (hcheck : SegSpace.checkMetaData (extent + offset) .extSize8192 = some offset')
    : offset' = (offset + 4038) % 8192 := by
  have hfits := h.fits
  have ⟨g, n, hn, heq⟩ := h.exists_index
  simp only [dataStart_eq, ExtentSize.toNat, wrappedGroupEnd] at *
  have hg : g = 0 := by omega
  have heq' : extent + offset = 3 + (1 * 4143976506 + (extent + offset - 4143976509)) := by omega
  have hgroup := mul_add_div_mod 1 (b := 4143976506) (c := extent + offset - 4143976509) (by omega)
  rw [SegSpace.checkMetaData, if_neg] at hcheck
  . simp only [groupTotalBlocks_eq, dfMapHeadPage_eq, dfMapGroupSize_eq,
      ipblockGroupSize_eq, Nat.reduceAdd, ExtentSize.toNat] at hcheck
    rw [heq', u32Sub_eq (by omega), hgroup.2] at hcheck
    split at hcheck
    . simp at hcheck
    . rw [Option.some.injEq] at hcheck
      have hsub : extent + offset - 4143976509 - 64 - 4090 + 8192
          = (n - 505856) * 8192 + (offset + 4038) := by
        omega
      rw [← hcheck, ← Nat.add_mod_right, hsub, Nat.mul_add_mod']
  . simp [dfMapHeadPage_eq]
    omega

end Location

namespace SegSpace

variable {extentId : Nat}

theorem inversePointers_setInversePointer (spc : SegSpace) (size : ExtentSize)
    (forknum : ForkNumber) (extent : Nat) (iptr : ExtentInversePointer)
    : (spc.setInversePointer size forknum extent iptr).inversePointers size forknum (getIpBlock extent size)
        =
      iptr := by
  simp [setInversePointer]

theorem inversePointers_setInversePointer_of_ne {size size' : ExtentSize}
    {forknum forknum' : ForkNumber} {extent extent' : Nat}
    (spc : SegSpace) (iptr : ExtentInversePointer)
    (h : IsExtent size extent) (h' : IsExtent size' extent') (hwrap : BelowWrap size' extent')
    (hne : size = size' → forknum = forknum' → extent ≠ extent')
    : (spc.setInversePointer size forknum extent iptr).inversePointers size' forknum' (getIpBlock extent' size')
        =
      spc.inversePointers size' forknum' (getIpBlock extent' size') := by
  simp only [setInversePointer]
  by_cases hsize : size = size'
  . subst hsize
    rw [Function.update_self]
    by_cases hforknum : forknum = forknum'
    . subst hforknum
      rw [Function.update_self, Function.update_of_ne]
      exact h'.getIpBlock_ne h hwrap (hne rfl rfl).symm
    . rw [Function.update_of_ne (Ne.symm hforknum)]
  . rw [Function.update_of_ne (Ne.symm hsize)]

structure IsSegment (rnode : RelFileNode) (forknum : ForkNumber) (headBlocknum : Nat) : Prop where
  isExtent : IsExtent .extSize1 headBlocknum
  relNode_eq : rnode.bucketNode = none → forknum = .main → rnode.relNode = headBlocknum
  bucketNode_lt : ∀ bucketNode, rnode.bucketNode = some bucketNode → bucketNode < maxBucketmaplen

-- The extent is neither the head of the segment nor one of its extents.
structure NotLive (forknum : ForkNumber) (headBlocknum : Nat) (extents : List Nat)
    (size' : ExtentSize) (forknum' : ForkNumber) (extent : Nat) : Prop where
  ne_head : size' = .extSize1 → forknum' = .main → extent ≠ headBlocknum
  ne_extent : ∀ id (_ : id < extents.length), size' = extentSizeByCount id → forknum' = forknum →
    extent ≠ extents[id]

/--
The runs of a space as seen from one segment of it, which is created, extended and shortened, while
other segments get extents that this one does not have.
-/
inductive Reachable (rnode : RelFileNode) (forknum : ForkNumber) (headBlocknum : Nat)
    : SegSpace → Segment → List Nat → Prop
  | create (spc : SegSpace) (level0Pages : Nat → Nat → Nat)
    : Reachable rnode forknum headBlocknum
        (spc.setInversePointer .extSize1 .main headBlocknum (headInversePointer rnode forknum))
        (Segment.init headBlocknum level0Pages) []
  | extend {spc seg extents newExtent level0Page}
      (h : Reachable rnode forknum headBlocknum spc seg extents)
      (hcapacity : seg.head.nextents < bmtCapacity)
      (hextent : Segment.FreshExtent extents newExtent)
      (halloc : IsExtent (extentSizeByCount seg.head.nextents) newExtent)
      (hpage : Segment.requireNewLevel0Page seg.head.nextents →
        seg.FreshLevel0Page level0Page ∧ IsExtent .extSize1 level0Page
          ∧ level0Page ≠ headBlocknum)
    : Reachable rnode forknum headBlocknum
        (spc.segExtendSegment seg forknum headBlocknum newExtent level0Page)
        (seg.segExtendSegment newExtent level0Page) (extents ++ [newExtent])
  | alloc {spc seg extents size' forknum' extent} (iptr : ExtentInversePointer)
      (h : Reachable rnode forknum headBlocknum spc seg extents)
      (halloc : IsExtent size' extent)
      (hlive : NotLive forknum headBlocknum extents size' forknum' extent)
    : Reachable rnode forknum headBlocknum (spc.setInversePointer size' forknum' extent iptr) seg
        extents
  | free {spc seg seg' extents freed} (h : Reachable rnode forknum headBlocknum spc seg extents)
      (hfree : seg.freeLastExtent = .ok (seg', freed))
    : Reachable rnode forknum headBlocknum spc seg' extents.dropLast

variable {rnode : RelFileNode} {forknum forknum' : ForkNumber} {headBlocknum : Nat}
  {spc : SegSpace} {seg seg' : Segment} {extents : List Nat} {freed : List (ExtentSize × Nat)}
  {size size' : ExtentSize} {extent extent' newExtent level0Page : Nat}

theorem Reachable.segment (h : Reachable rnode forknum headBlocknum spc seg extents)
    : Segment.Reachable seg extents := by
  induction h with
  | create spc level0Pages => exact .init ..
  | extend _ hcapacity hextent _ hpage ih =>
    exact ih.extend hcapacity hextent (fun hnew => (hpage hnew).1)
  | alloc iptr _ _ _ ih => exact ih
  | free _ hfree ih => exact ih.free hfree

structure Inv (rnode : RelFileNode) (forknum : ForkNumber) (headBlocknum : Nat) (spc : SegSpace)
    (extents : List Nat) : Prop where
  head_eq : spc.inversePointers .extSize1 .main (getIpBlock headBlocknum .extSize1)
    = headInversePointer rnode forknum
  isExtent : ∀ id (_ : id < extents.length), IsExtent (extentSizeByCount id) extents[id]
  extent_eq : ∀ id (_ : id < extents.length), BelowWrap (extentSizeByCount id) extents[id] →
    spc.inversePointers (extentSizeByCount id) forknum
        (getIpBlock extents[id] (extentSizeByCount id))
      = ⟨spcInvrsptrAssembleFlag .dataExtent id, headBlocknum⟩

theorem Inv.setInversePointer (inv : Inv rnode forknum headBlocknum spc extents)
    (hsegment : IsSegment rnode forknum headBlocknum) (iptr : ExtentInversePointer)
    (halloc : IsExtent size extent)
    (hlive : NotLive forknum headBlocknum extents size forknum' extent)
    : Inv rnode forknum headBlocknum (spc.setInversePointer size forknum' extent iptr) extents where
  head_eq := by
    rw [inversePointers_setInversePointer_of_ne spc iptr halloc hsegment.isExtent (by simp [BelowWrap])
      hlive.ne_head]
    exact inv.head_eq
  isExtent := inv.isExtent
  extent_eq := by
    intro id hid hwrap
    rw [inversePointers_setInversePointer_of_ne spc iptr halloc (inv.isExtent id hid) hwrap
      (hlive.ne_extent id hid)]
    exact inv.extent_eq id hid hwrap

theorem Inv.push (inv : Inv rnode forknum headBlocknum spc extents)
    (halloc : IsExtent (extentSizeByCount extents.length) newExtent)
    (heq : spc.inversePointers (extentSizeByCount extents.length) forknum
        (getIpBlock newExtent (extentSizeByCount extents.length))
      = ⟨spcInvrsptrAssembleFlag .dataExtent extents.length, headBlocknum⟩)
    : Inv rnode forknum headBlocknum spc (extents ++ [newExtent]) where
  head_eq := inv.head_eq
  isExtent := by
    intro id hid
    rw [getElem_append]
    by_cases h : id < extents.length
    . rw [dif_pos h]
      exact inv.isExtent id h
    . have : id = extents.length := by
        rw [length_append, length_singleton] at hid
        omega
      subst this
      simpa using halloc
  extent_eq := by
    intro id hid hwrap
    rw [getElem_append] at *
    by_cases h : id < extents.length
    . rw [dif_pos h] at *
      exact inv.extent_eq id h hwrap
    . have : id = extents.length := by
        rw [length_append, length_singleton] at hid
        omega
      subst this
      simpa using heq

theorem Inv.extend (inv : Inv rnode forknum headBlocknum spc extents)
    (hsegment : IsSegment rnode forknum headBlocknum) (hn : seg.head.nextents = extents.length)
    (hextent : FreshExtent extents newExtent)
    (halloc : IsExtent (extentSizeByCount seg.head.nextents) newExtent)
    (hpage : requireNewLevel0Page seg.head.nextents →
      IsExtent .extSize1 level0Page ∧ level0Page ≠ headBlocknum)
    : Inv rnode forknum headBlocknum (spc.segExtendSegment seg forknum headBlocknum newExtent level0Page)
        (extents ++ [newExtent]) := by
  simp only [segExtendSegment]
  rw [hn] at *
  have hlive : NotLive forknum headBlocknum extents (extentSizeByCount extents.length) forknum
      newExtent := by
    constructor
    . intro h
      exact absurd h (extentSizeByCount_ne_extSize1 _)
    . intro id hid hsize _ heq
      have hpos := size_pos (extentSizeByCount id)
      have hdisjoint := hextent.disjoint id hid hsize.symm
      rw [heq, Segment.Disjoint] at hdisjoint
      omega
  have hpush := (inv.setInversePointer hsegment
    ⟨spcInvrsptrAssembleFlag .dataExtent extents.length, headBlocknum⟩ halloc hlive).push halloc
    (inversePointers_setInversePointer ..)
  split
  next hnew =>
    have ⟨hpage, hne⟩ := hpage hnew
    apply hpush.setInversePointer hsegment _ hpage
    constructor
    . intro _ _
      exact hne
    . intro id _ h
      exact absurd h.symm (extentSizeByCount_ne_extSize1 id)
  next => exact hpush

theorem Inv.free (inv : Inv rnode forknum headBlocknum spc extents)
    : Inv rnode forknum headBlocknum spc extents.dropLast where
  head_eq := inv.head_eq
  isExtent := by
    intro id hid
    rw [length_dropLast] at hid
    rw [getElem_dropLast]
    exact inv.isExtent id (by omega)
  extent_eq := by
    intro id hid
    rw [length_dropLast] at hid
    rw [getElem_dropLast]
    exact inv.extent_eq id (by omega)

theorem Reachable.inv (hsegment : IsSegment rnode forknum headBlocknum)
    (h : Reachable rnode forknum headBlocknum spc seg extents)
    : Inv rnode forknum headBlocknum spc extents := by
  induction h with
  | create spc level0Pages =>
    constructor
    . exact inversePointers_setInversePointer ..
    . simp
    . simp
  | extend h _ hextent halloc hpage ih =>
    exact ih.extend hsegment h.segment.inv.nextents_eq hextent halloc (fun hnew => (hpage hnew).2)
  | alloc iptr _ halloc hlive ih => exact ih.setInversePointer hsegment iptr halloc hlive
  | free _ _ ih => exact ih.free

theorem isValid_headInversePointer (rnode : RelFileNode) (forknum : ForkNumber)
    : (headInversePointer rnode forknum).isValid = true := by
  unfold headInversePointer
  split
  . simp [ExtentInversePointer.isValid, ExtentUsageType.toNat]
  . split <;> simp [ExtentInversePointer.isValid, ExtentUsageType.toNat]

theorem Inv.getSegmentLogicRnode_eq (inv : Inv rnode forknum headBlocknum spc extents)
    (hsegment : IsSegment rnode forknum headBlocknum)
    : spc.getSegmentLogicRnode headBlocknum forknum = .ok rnode := by
  have hiptr : spc.getInversePointer .extSize1 .main headBlocknum
      = .ok (headInversePointer rnode forknum) := by
    simp only [getInversePointer, repairGetInversePointer, inv.head_eq, segmentCheck,
      isValid_headInversePointer, if_true]
    rfl
  obtain ⟨relNode, bucketNode⟩ := rnode
  rw [getSegmentLogicRnode, hiptr]
  simp only [bind, Except.bind]
  cases bucketNode with
  | some bucketNode =>
    have hlt := hsegment.bucketNode_lt bucketNode rfl
    simp only [maxBucketmaplen] at hlt
    have hfork : forknum.toNat ≤ 2 := by cases forknum <;> decide
    have hmod : (forknum.toNat * 16384 + bucketNode) % 2 ^ 18
        = forknum.toNat * 16384 + bucketNode := by omega
    have hdiv : (forknum.toNat * 16384 + bucketNode) / 16384 = forknum.toNat := by omega
    have hmod' : (forknum.toNat * 16384 + bucketNode) % 16384 = bucketNode := by omega
    simp only [headInversePointer, getUsage_assembleFlag, getSpecialData_assembleFlag,
      maxBucketmaplen, hmod, hdiv, hmod']
    simp [ExtentUsageType.toNat, pure, Except.pure]
  | none =>
    cases forknum with
    | main =>
      have hrel := hsegment.relNode_eq rfl rfl
      simp only at hrel
      subst hrel
      simp [headInversePointer, segmentCheck, pure, Except.pure]
    | fsm =>
      simp [headInversePointer, segmentCheck, pure, Except.pure, ExtentUsageType.toNat, ForkNumber.toNat]
    | visibilitymap =>
      simp [headInversePointer, segmentCheck, pure, Except.pure, ExtentUsageType.toNat, ForkNumber.toNat]

theorem Inv.repairCheckPhysicalType_eq (inv : Inv rnode forknum headBlocknum spc extents)
    (hsegment : IsSegment rnode forknum headBlocknum) (id : Nat) (hid : id < extents.length)
    (offset : Nat) (hoffset : offset < (extentSizeByCount id).toNat)
    (hwrap : BelowWrap (extentSizeByCount id) (extents[id] + offset))
    : spc.repairCheckPhysicalType forknum (extentSizeByCount id) (extents[id] + offset)
        =
      .ok (some (rnode.relNode, u32 (extentIdToLogicBlockNum (id % 2 ^ 18) + offset))) := by
  have hextent := inv.isExtent id hid
  have hwrap' : BelowWrap (extentSizeByCount id) extents[id] := by
    intro hsize
    have := hwrap hsize
    omega
  have hcheck : checkMetaData (extents[id] + offset) (extentSizeByCount id) = some offset := by
    have hfits := hextent.fits
    have ⟨g, n, hn, heq⟩ := hextent.exists_index
    rw [heq] at hfits hwrap ⊢
    exact checkMetaData_eq hn hoffset (extentSizeByCount_ne_extSize1 id) (by omega) hwrap
  have hiptr := inv.extent_eq id hid hwrap'
  rw [← hextent.getIpBlock_add hoffset hwrap] at hiptr
  have hvalid : (ExtentInversePointer.mk (spcInvrsptrAssembleFlag .dataExtent id) headBlocknum).isValid
      = true := by
    simp [ExtentInversePointer.isValid, ExtentUsageType.toNat]
  rw [repairCheckPhysicalType, hcheck]
  simp only [repairGetInversePointer, hiptr, hvalid, inv.getSegmentLogicRnode_eq hsegment,
    getSpecialData_assembleFlag, bind, Except.bind, pure, Except.pure]
  rfl

theorem exists_of_repairCheckPhysicalType {blockNum relNode logicBlock : Nat}
    (h : spc.repairCheckPhysicalType forknum size blockNum = .ok (some (relNode, logicBlock)))
    : ∃ offsetBlocks extentId, checkMetaData blockNum size = some offsetBlocks
          ∧ extentId < 2 ^ 18
          ∧ logicBlock = u32 (extentIdToLogicBlockNum extentId + offsetBlocks) := by
  rw [repairCheckPhysicalType] at h
  split at h
  . simp [pure, Except.pure] at h
  next offsetBlocks hcheck =>
    dsimp only at h
    split at h
    . simp [bind, Except.bind, throw, throwThe, MonadExceptOf.throw] at h
    . rw [Except.bind_eq_ok] at h
      have ⟨_, _, h⟩ := h
      simp only [pure, Except.pure, Except.ok.injEq, Option.some.injEq, Prod.mk.injEq] at h
      exact ⟨offsetBlocks, _, hcheck, getSpecialData_lt _, h.2.symm⟩

theorem extentIdToLogicBlockNum_mod_eight (n : Nat) (h : n ≤ bmtCapacity)
    : extentIdToLogicBlockNum n % 8 = 0 := by
  rw [extentIdToLogicBlockNum_eq n h]
  split_ifs <;> omega

theorem extentIdToLogicBlocknumInCfs_of_le (h : extentId ≤ 16)
    : extentIdToLogicBlocknumInCfs extentId = extentIdToLogicBlockNum extentId
        ∧ extentIdToLogicBlockNum extentId = extentId * 8 := by
  have hle : extentId ≤ bmtCapacity := by
    rw [bmtCapacity_eq]
    omega
  rw [extentIdToLogicBlockNum_eq extentId hle, extentIdToLogicBlocknumInCfs_eq extentId hle]
  split_ifs <;> omega

theorem extentIdToLogicBlocknumInCfs_lt (h : 17 ≤ extentId) (hle : extentId ≤ bmtCapacity)
    : extentIdToLogicBlocknumInCfs extentId < extentIdToLogicBlockNum extentId
        ∧ 255 ≤ extentIdToLogicBlocknumInCfs extentId := by
  rw [extentIdToLogicBlockNum_eq extentId hle, extentIdToLogicBlocknumInCfs_eq extentId hle]
  split_ifs <;> omega

theorem extentIdToLogicBlockNum_mod_lt (h : 2 ^ 18 ≤ extentId) (hlt : extentId < bmtCapacity)
    : extentIdToLogicBlockNum (extentId % 2 ^ 18) + 64 < extentIdToLogicBlocknumInCfs extentId
        ∧ extentIdToLogicBlockNum (extentId % 2 ^ 18) < extentIdToLogicBlockNum extentId := by
  rw [extentIdToLogicBlockNum_eq extentId (by omega), extentIdToLogicBlocknumInCfs_eq extentId (by omega)]
  rw [bmtCapacity_eq] at hlt
  have hmod : extentId % 2 ^ 18 = extentId - 2 ^ 18 := by omega
  rw [hmod, extentIdToLogicBlockNum_eq (extentId - 2 ^ 18) (by rw [bmtCapacity_eq]; omega)]
  have hlarge : ¬extentId < 16 ∧ ¬extentId < 143 ∧ ¬extentId < 255 := by omega
  simp only [hlarge, if_false]
  split_ifs <;> omega

theorem extentIdToLogicBlockNum_mod_add_lt {offset : Nat}
    (hoffset : offset < (extentSizeByCount extentId).toNat)
    : u32 (extentIdToLogicBlockNum (extentId % 2 ^ 18) + offset)
        =
      extentIdToLogicBlockNum (extentId % 2 ^ 18) + offset := by
  have hle : extentId % 2 ^ 18 ≤ bmtCapacity := by
    rw [bmtCapacity_eq]
    omega
  have hsize : (extentSizeByCount extentId).toNat ≤ 8192 := by
    rw [extentSizeByCount_toNat]
    split_ifs <;> omega
  apply u32_of_lt
  rw [extentIdToLogicBlockNum_eq _ hle]
  split_ifs <;> omega

theorem extentIdToLogicBlockNum_mod_add_eq_iff {compressed : Bool} {offset : Nat}
    (hid : extentId < bmtCapacity) (hoffset : IsDataOffset compressed extentId offset)
    : u32 (extentIdToLogicBlockNum (extentId % 2 ^ 18) + offset)
          = logicBlockAt compressed extentId offset
        ↔ extentId < 2 ^ 18 ∧ (compressed → logicBlockAt compressed extentId offset < 255) := by
  have ⟨hlt, hpca⟩ := hoffset
  have hsize := extentSizeByCount_toNat extentId
  rw [extentIdToLogicBlockNum_mod_add_lt hlt]
  cases compressed with
  | false =>
    simp only [logicBlockAt, Bool.false_eq_true, if_false, false_implies, and_true]
    by_cases h : extentId < 2 ^ 18
    . rw [Nat.mod_eq_of_lt h]
      simpa using h
    . have hlt' := extentIdToLogicBlockNum_mod_lt (by omega) hid
      omega
  | true =>
    simp only [logicBlockAt, if_true, true_implies, cfsExtentSize] at *
    have hdiv : offset / 128 ≤ 63 := by
      split_ifs at hsize <;> omega
    by_cases h : extentId < 2 ^ 18
    . rw [Nat.mod_eq_of_lt h]
      by_cases h16 : extentId ≤ 16
      . have hcfs := extentIdToLogicBlocknumInCfs_of_le h16
        have hoffset' : offset < 127 := by
          split_ifs at hsize <;> omega
        omega
      . have hcfs := extentIdToLogicBlocknumInCfs_lt (Nat.lt_of_not_le h16) (Nat.le_of_lt hid)
        omega
    . have hlt' := extentIdToLogicBlockNum_mod_lt (by omega) hid
      omega

-- What the mapping of a logical block has to meet to be found again: its extent id fits in the 18
-- bits, the plain formula is right for it and the block numbers of its group have not wrapped.
structure Repairable (opt : Nat) (seg : Segment) (forknum : ForkNumber) (b : Nat) : Prop where
  extentId_lt : (segLogicToPhysicMapping opt seg forknum b).extentId < 2 ^ 18
  of_compressed : isCompressedMainfork opt forknum → b < 255
  belowWrap : BelowWrap (segLogicToPhysicMapping opt seg forknum b).extentSize
    (segLogicToPhysicMapping opt seg forknum b).blocknum

/--
The converse leaves out the blocks of compressed relations past the end of the wrapped group, which
can be found again by coincidence.
-/
theorem repairCheckPhysicalType_of_reachable (hsegment : IsSegment rnode forknum headBlocknum)
    (h : Reachable rnode forknum headBlocknum spc seg extents) (opt b : Nat)
    (hb : b < logicBlocks (isCompressedMainfork opt forknum) seg.head.totalBlocks)
    : (Repairable opt seg forknum b →
        spc.repairCheckPhysicalType forknum (segLogicToPhysicMapping opt seg forknum b).extentSize
            (segLogicToPhysicMapping opt seg forknum b).blocknum
          = .ok (some (rnode.relNode, b)))
        ∧ (spc.repairCheckPhysicalType forknum (segLogicToPhysicMapping opt seg forknum b).extentSize
              (segLogicToPhysicMapping opt seg forknum b).blocknum
            = .ok (some (rnode.relNode, b)) →
          Repairable opt seg forknum b
            ∨ (isCompressedMainfork opt forknum
              ∧ ¬BelowWrap (segLogicToPhysicMapping opt seg forknum b).extentSize
                  (segLogicToPhysicMapping opt seg forknum b).blocknum)) := by
  have inv := h.inv hsegment
  have hinv := h.segment.inv
  have ⟨id, offset, hid, hoffset, hblock, hmapping⟩ := hinv.segLogicToPhysicMapping_eq hb
  have hcapacity : id < bmtCapacity := Nat.lt_of_lt_of_le hid hinv.nextents_le
  have hlt := hoffset.offset_lt
  rw [hinv.location_eq id hid] at hmapping
  have hiff := extentIdToLogicBlockNum_mod_add_eq_iff hcapacity hoffset
  rw [← hblock] at hiff
  constructor
  . rintro ⟨hbits, hplain, hwrap⟩
    rw [hmapping] at hbits hwrap ⊢
    rw [inv.repairCheckPhysicalType_eq hsegment id hid offset hlt hwrap,
      hiff.mpr ⟨hbits, hplain⟩]
  . intro hrepair
    by_cases hwrap : BelowWrap (extentSizeByCount id) (extents[id] + offset)
    . rw [hmapping, inv.repairCheckPhysicalType_eq hsegment id hid offset hlt hwrap] at hrepair
      simp only [Except.ok.injEq, Option.some.injEq, Prod.mk.injEq, true_and] at hrepair
      have ⟨hbits, hplain⟩ := hiff.mp hrepair
      refine Or.inl ⟨?_, hplain, ?_⟩
      . rw [hmapping]
        exact hbits
      . rw [hmapping]
        exact hwrap
    . cases hc : isCompressedMainfork opt forknum with
      | true =>
        rw [hmapping]
        exact Or.inr ⟨rfl, hwrap⟩
      | false =>
        -- all extents start at a multiple of 8, and the offset found is off by 6 modulo 8
        rw [hmapping] at hrepair
        have ⟨offset', id', hcheck, hid', hblock'⟩ := exists_of_repairCheckPhysicalType hrepair
        have hwrap' : extentSizeByCount id = .extSize8192
            ∧ wrappedGroupEnd ≤ extents[id] + offset := by
          simpa [BelowWrap] using hwrap
        have hextent := inv.isExtent id hid
        simp only [hwrap'.1, ExtentSize.toNat] at hextent hcheck hlt
        have hoffset' := hextent.checkMetaData_of_wrap hlt hwrap'.2 hcheck
        have height := extentIdToLogicBlockNum_mod_eight id (Nat.le_of_lt hcapacity)
        have height' := extentIdToLogicBlockNum_mod_eight id' (by rw [bmtCapacity_eq]; omega)
        rw [hblock, hc, logicBlockAt] at hblock'
        simp only [Bool.false_eq_true, if_false, u32] at hblock'
        omega

section HeaderOnly

theorem isSegment_4157 : IsSegment ⟨4157, none⟩ .main 4157 where
  isExtent := ⟨⟨0, 0, 0, by decide, by decide, by decide⟩, by decide⟩
  relNode_eq := by simp
  bucketNode_lt := by simp

theorem isExtent_headerOnly (id : Nat) (h : id < 1255)
    : IsExtent (extentSizeByCount id) (4157 + id * (extentSizeByCount id).toNat) where
  exists_bit := by
    refine ⟨0, 0, id, by decide, ?_, ?_⟩
    . rw [dfMapBitCnt_eq]
      omega
    . rw [extentStart, dataStart_eq, Nat.zero_mul, Nat.zero_mul, Nat.zero_add]
  fits := by
    rw [extentSizeByCount_toNat]
    split_ifs <;> omega

theorem exists_reachable_headerOnly (n : Nat) (hn : n ≤ 1255)
    : ∃ spc seg, Reachable ⟨4157, none⟩ .main 4157 spc seg
        ((List.range n).map (fun id => 4157 + id * (extentSizeByCount id).toNat)) := by
  induction n with
  | zero => exact ⟨_, _, .create ⟨fun _ _ _ => ⟨0, 0⟩⟩ (fun _ _ => 0)⟩
  | succ n ih =>
    have ⟨spc, seg, h⟩ := ih (by omega)
    have hnextents : seg.head.nextents = n := by simpa using h.segment.inv.nextents_eq
    have halloc := isExtent_headerOnly n (by omega)
    rw [range_succ, map_append]
    refine ⟨spc.segExtendSegment seg .main 4157 _ 0, _, h.extend ?_ ⟨?_, ?_⟩ ?_ ?_⟩
    . rw [hnextents, bmtCapacity_eq]
      omega
    . simpa using halloc.fits
    . intro id hid hsize
      simp only [length_map, length_range] at hid hsize
      have hmul := Nat.mul_le_mul_right (extentSizeByCount n).toNat (Nat.succ_le_of_lt hid)
      rw [Nat.succ_mul] at hmul
      simp only [getElem_map, getElem_range, hsize]
      exact Or.inl (by omega)
    . rw [hnextents]
      exact halloc
    . intro hnew
      have := (requireNewLevel0Page_iff _).mp hnew
      omega

theorem repairCheckPhysicalType_of_reachable_lastPlain
    : ∃ spc seg extents, Reachable ⟨4157, none⟩ .main 4157 spc seg extents
        ∧ 254 < logicBlocks (isCompressedMainfork 1 .main) seg.head.totalBlocks
        ∧ spc.repairCheckPhysicalType .main (segLogicToPhysicMapping 1 seg .main 254).extentSize
              (segLogicToPhysicMapping 1 seg .main 254).blocknum
            = .ok (some (4157, 254)) := by
  have ⟨spc, seg, h⟩ := exists_reachable_headerOnly 18 (by omega)
  have hlt : 254 < logicBlocks (isCompressedMainfork 1 .main) seg.head.totalBlocks := by
    rw [h.segment.inv.totalBlocks_eq, List.length_map, List.length_range]
    decide
  have hmapping : segLogicToPhysicMapping 1 seg .main 254
      = ⟨.extSize128, 16, u32 (seg.segExtentLocation 16 + 126)⟩ := rfl
  have hrepairable : Repairable 1 seg .main 254 := by
    constructor
    . rw [hmapping]
      change 16 < 2 ^ 18
      decide
    . intro _
      decide
    . rw [hmapping]
      simp [BelowWrap]
  exact ⟨spc, seg, _, h, hlt,
    (repairCheckPhysicalType_of_reachable isSegment_4157 h 1 254 hlt).1 hrepairable⟩

-- The plain formula counts the PCA page of the extent before, which holds no logical block.
theorem repairCheckPhysicalType_compressed
    : ∃ spc seg extents, IsSegment ⟨4157, none⟩ .main 4157
        ∧ Reachable ⟨4157, none⟩ .main 4157 spc seg extents
        ∧ 255 < logicBlocks (isCompressedMainfork 1 .main) seg.head.totalBlocks
        ∧ spc.repairCheckPhysicalType .main (segLogicToPhysicMapping 1 seg .main 255).extentSize
            (segLogicToPhysicMapping 1 seg .main 255).blocknum
          = .ok (some (4157, 256)) := by
  have ⟨spc, seg, h⟩ := exists_reachable_headerOnly 18 (by omega)
  have hinv := h.segment.inv
  have hlt : 255 < logicBlocks (isCompressedMainfork 1 .main) seg.head.totalBlocks := by
    rw [hinv.totalBlocks_eq, List.length_map, List.length_range]
    decide
  refine ⟨spc, seg, _, isSegment_4157, h, hlt, ?_⟩
  have hlocation : seg.segExtentLocation 17 = 6333 := by
    simpa [extentSizeByCount_toNat] using hinv.location_eq 17 (by simp)
  have hmapping : segLogicToPhysicMapping 1 seg .main 255
      = ⟨.extSize128, 17, u32 (seg.segExtentLocation 17 + 0)⟩ := rfl
  have hrepair := (h.inv isSegment_4157).repairCheckPhysicalType_eq isSegment_4157 17 (by simp) 0
    (by decide) (by simp [BelowWrap, extentSizeByCount_eq])
  simp only [List.getElem_map, List.getElem_range] at hrepair
  rw [hmapping, hlocation]
  exact hrepair

end HeaderOnly

end SegSpace

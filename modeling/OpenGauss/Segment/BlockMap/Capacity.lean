import OpenGauss.Segment.BlockMap.Lemmas

/-!
This module contains how far a segment can be extended.
-/

namespace Segment

-- `SegUpdatePca`, which follows for a compressed relation, does not extend the segment. `alloc` is
-- what `spc_alloc_extent` returns for an extent and for a level 0 page.
def segExtendInternal (compress : Bool) (blocknum : Nat) (alloc : Segment → Nat × Nat) (fuel : Nat)
    (seg : Segment) : Option Segment :=
  match fuel with
  | 0 => none
  | fuel + 1 =>
    if logicBlocks compress seg.head.totalBlocks ≤ blocknum then
      segExtendInternal compress blocknum alloc fuel (seg.segExtendSegment (alloc seg).1 (alloc seg).2)
    else
      some seg

inductive Extended : Segment → Prop where
  | init (segHeadBlocknum : Nat) (level0Pages : Nat → Nat → Nat)
      : Extended (Segment.init segHeadBlocknum level0Pages)
  | extend {seg : Segment} (h : Extended seg) (newExtent level0Page : Nat)
      : Extended (seg.segExtendSegment newExtent level0Page)
  | free {seg seg' : Segment} {freed : List (ExtentSize × Nat)} (h : Extended seg)
      (hfree : seg.freeLastExtent = .ok (seg', freed)) : Extended seg'

inductive Calls (compress : Bool) (blocknum : Nat) : Segment → Segment → Prop where
  | first {seg : Segment} (h : logicBlocks compress seg.head.totalBlocks ≤ blocknum)
      : Calls compress blocknum seg seg
  | next {seg seg' : Segment} (h : logicBlocks compress seg.head.totalBlocks ≤ blocknum)
      (newExtent level0Page : Nat)
      (hrest : Calls compress blocknum (seg.segExtendSegment newExtent level0Page) seg')
      : Calls compress blocknum seg seg'

-- The slot of an extent lies in one of the two arrays of the segment head.
def SlotInRange (extentId : Nat) : Prop :=
  extentId < bmtHeaderLevel0Slots ∨ extentIdToLevel1Slot extentId < bmtHeaderLevel1Slots

structure StaysInRange (opt : Nat) (forknum : ForkNumber) (seg : Segment) (blocknum : Nat) : Prop where
  slot : ∀ seg', Calls (isCompressedMainfork opt forknum) blocknum seg seg' → SlotInRange seg'.head.nextents
  noWrap : ∀ seg', Calls (isCompressedMainfork opt forknum) blocknum seg seg' →
    seg'.head.totalBlocks + (extentSizeByCount seg'.head.nextents).toNat < 2 ^ 32
  ends : ∀ alloc, ∃ fuel seg', segExtendInternal (isCompressedMainfork opt forknum) blocknum alloc fuel seg
    = some seg' ∧ blocknum < logicBlocks (isCompressedMainfork opt forknum) seg'.head.totalBlocks
  lookup : ∀ logicId ≤ blocknum, SlotInRange (segLogicToPhysicMapping opt seg forknum logicId).extentId

-- The blocks of a relation for which the block map has slots.
def blockCapacity (compress : Bool) : Nat := logicBlocks compress (extentIdToLogicBlockNum bmtCapacity)

theorem blockCapacity_false : blockCapacity false = 4202627072 := by
  rfl

theorem blockCapacity_true : blockCapacity true = 4169794049 := by
  rfl

theorem slotInRange_iff (extentId : Nat) : SlotInRange extentId ↔ extentId < bmtCapacity := by
  simp only [SlotInRange, extentIdToLevel1Slot, bmtHeaderLevel0Slots, bmtHeaderLevel1Slots, bmtLevel0Slots,
    bmtCapacity_eq]
  omega

section TotalBlocks

theorem extentIdToLogicBlockNum_of_le {n : Nat} (h : 255 ≤ n)
    : extentIdToLogicBlockNum n = u32 ((n - 255) * 8192 + 131072) := by
  unfold extentIdToLogicBlockNum
  rw [if_neg (by simp only [extSize8Boundary]; omega), if_neg (by simp only [extSize128Boundary]; omega),
    if_neg (by simp only [extSize1024Boundary]; omega)]
  rfl

theorem extentIdToLogicBlockNum_lt_two_pow (n : Nat) : extentIdToLogicBlockNum n < 2 ^ 32 := by
  by_cases h : n ≤ bmtCapacity
  . apply extentIdToLogicBlockNum_lt n h
  . rw [bmtCapacity_eq] at h
    rw [extentIdToLogicBlockNum_of_le (by omega)]
    apply u32_lt

theorem u32_extentIdToLogicBlockNum_add (n : Nat)
    : u32 (extentIdToLogicBlockNum n + (extentSizeByCount n).toNat) = extentIdToLogicBlockNum (n + 1) := by
  by_cases h : n < bmtCapacity
  . rw [← extentIdToLogicBlockNum_succ n h]
    apply u32_of_lt
    apply extentIdToLogicBlockNum_lt (n + 1) h
  . rw [bmtCapacity_eq] at h
    have hsize : (extentSizeByCount n).toNat = 8192 := by
      rw [extentSizeByCount_toNat]
      split_ifs <;> omega
    rw [extentIdToLogicBlockNum_of_le (by omega), extentIdToLogicBlockNum_of_le (by omega), hsize]
    simp only [u32]
    omega

theorem Extended.totalBlocks_eq {seg : Segment} (h : Extended seg)
    : seg.head.totalBlocks = extentIdToLogicBlockNum seg.head.nextents := by
  induction h with
  | init => rfl
  | extend _ newExtent level0Page ih =>
    rw [segExtendSegment_totalBlocks, segExtendSegment_nextents, ih, u32_extentIdToLogicBlockNum_add]
  | @free seg _ _ _ hfree ih =>
    obtain ⟨hpos, hnextents, htotal, _⟩ := freeLastExtent_eq hfree
    have hadd := u32_extentIdToLogicBlockNum_add (seg.head.nextents - 1)
    have hsize := extentSizeByCount_toNat (seg.head.nextents - 1)
    have hlt := extentIdToLogicBlockNum_lt_two_pow (seg.head.nextents - 1)
    rw [Nat.sub_add_cancel hpos] at hadd
    rw [htotal, hnextents, ih, ← hadd]
    simp only [u32]
    split_ifs at hsize <;> omega

end TotalBlocks

section Capacity

variable {compress : Bool} {blocknum : Nat}

theorem nextents_lt_of_le {n : Nat} (hn : n ≤ bmtCapacity) (hblock : blocknum < blockCapacity compress)
    (hcall : logicBlocks compress (extentIdToLogicBlockNum n) ≤ blocknum) : n < bmtCapacity := by
  obtain hlt | rfl := Nat.lt_or_eq_of_le hn
  . exact hlt
  . unfold blockCapacity at hblock
    omega

theorem Calls.extended {seg seg' : Segment} (h : Calls compress blocknum seg seg') (hseg : Extended seg)
    : Extended seg' ∧ logicBlocks compress seg'.head.totalBlocks ≤ blocknum := by
  induction h with
  | first h => exact ⟨hseg, h⟩
  | next _ newExtent level0Page _ ih => exact ih (hseg.extend newExtent level0Page)

theorem Calls.nextents_lt {seg seg' : Segment} (h : Calls compress blocknum seg seg') (hseg : Extended seg)
    (hblock : blocknum < blockCapacity compress) (hn : seg.head.nextents ≤ bmtCapacity)
    : seg'.head.nextents < bmtCapacity := by
  induction h with
  | first h =>
    rw [hseg.totalBlocks_eq] at h
    exact nextents_lt_of_le hn hblock h
  | next h newExtent level0Page _ ih =>
    apply ih (hseg.extend newExtent level0Page)
    rw [hseg.totalBlocks_eq] at h
    rw [segExtendSegment_nextents]
    exact nextents_lt_of_le hn hblock h

theorem segExtendInternal_ends (alloc : Segment → Nat × Nat) (left : Nat) {seg : Segment}
    (hseg : Extended seg) (hblock : blocknum < blockCapacity compress)
    (hleft : seg.head.nextents + left = bmtCapacity)
    : ∃ seg', segExtendInternal compress blocknum alloc (left + 1) seg = some seg'
        ∧ blocknum < logicBlocks compress seg'.head.totalBlocks := by
  induction left generalizing seg with
  | zero =>
    have htotal := hseg.totalBlocks_eq
    rw [show seg.head.nextents = bmtCapacity from hleft] at htotal
    exists seg
    rw [blockCapacity, ← htotal] at hblock
    exact ⟨if_neg (by omega), hblock⟩
  | succ left ih =>
    unfold segExtendInternal
    split
    . apply ih (hseg.extend _ _)
      rw [segExtendSegment_nextents]
      omega
    . next hdone => exact ⟨seg, rfl, by omega⟩

theorem lookup_slotInRange (opt : Nat) (forknum : ForkNumber) (seg : Segment) (logicId : Nat)
    : SlotInRange (segLogicToPhysicMapping opt seg forknum logicId).extentId
        ↔
      logicId < blockCapacity (isCompressedMainfork opt forknum) := by
  rw [slotInRange_iff, bmtCapacity_eq]
  cases hc : isCompressedMainfork opt forknum with
  | false =>
    simp only [segLogicToPhysicMapping, hc, Bool.false_and, Bool.false_eq_true, if_false,
      segLogicPageIdToExtentId_eq, blockCapacity_false]
    split_ifs
    all_goals
      dsimp only
      omega
  | true =>
    rw [segLogicToPhysicMapping_of_compressed seg hc, segLogicPageIdToExtentId_eq,
      segGetExtentIdByLogicBlknoInCfs_eq, blockCapacity_true]
    split_ifs
    all_goals
      dsimp only
      omega

theorem staysInRange_iff {seg : Segment} (hseg : Extended seg) (opt : Nat) (forknum : ForkNumber)
    (blocknum : Nat)
    : StaysInRange opt forknum seg blocknum
        ↔
      blocknum < blockCapacity (isCompressedMainfork opt forknum)
        ∧ (seg.head.nextents ≤ bmtCapacity
          ∨ blocknum < logicBlocks (isCompressedMainfork opt forknum) seg.head.totalBlocks) := by
  constructor
  . intro h
    constructor
    . exact (lookup_slotInRange opt forknum seg blocknum).mp (h.lookup blocknum (Nat.le_refl _))
    . by_contra hnot
      have hslot := h.slot seg (.first (by omega))
      rw [slotInRange_iff] at hslot
      omega
  . rintro ⟨hblock, hstart⟩
    have hlookup : ∀ logicId ≤ blocknum,
        SlotInRange (segLogicToPhysicMapping opt seg forknum logicId).extentId := by
      intro logicId hle
      rw [lookup_slotInRange]
      omega
    by_cases hdone : blocknum < logicBlocks (isCompressedMainfork opt forknum) seg.head.totalBlocks
    . have hnone : ∀ seg', ¬ Calls (isCompressedMainfork opt forknum) blocknum seg seg' := by
        intro seg' hcall
        cases hcall <;> omega
      constructor
      . intro seg' hcall
        exact absurd hcall (hnone seg')
      . intro seg' hcall
        exact absurd hcall (hnone seg')
      . intro alloc
        exact ⟨1, seg, if_neg (by omega), hdone⟩
      . exact hlookup
    . have hle : seg.head.nextents ≤ bmtCapacity := by
        omega
      constructor
      . intro seg' hcall
        rw [slotInRange_iff]
        apply hcall.nextents_lt hseg hblock hle
      . intro seg' hcall
        have hlt := hcall.nextents_lt hseg hblock hle
        rw [(hcall.extended hseg).1.totalBlocks_eq, ← extentIdToLogicBlockNum_succ _ hlt]
        apply extentIdToLogicBlockNum_lt _ hlt
      . intro alloc
        obtain ⟨left, hleft⟩ := Nat.exists_eq_add_of_le hle
        obtain ⟨seg', hseg'⟩ := segExtendInternal_ends alloc left hseg hblock hleft.symm
        exact ⟨left + 1, seg', hseg'⟩
      . exact hlookup

theorem staysInRange_newSegment
    : StaysInRange 1 .main (Segment.init 4157 fun _ _ => 0) 4000000000
        ↔
      4000000000 < blockCapacity true
        ∧ (0 ≤ bmtCapacity ∨ 4000000000 < logicBlocks true 0) :=
  staysInRange_iff (.init 4157 fun _ _ => 0) 1 .main 4000000000

theorem segPhysicalToLogicBlkno_mono {m n : Nat} (h : m ≤ n)
    : segPhysicalToLogicBlkno m ≤ segPhysicalToLogicBlkno n := by
  have heq (k : Nat) : segPhysicalToLogicBlkno k
      = if k < 128 then k else 128 + (k - 128) / 128 * 127 + (k - 128) % 128 := rfl
  rw [heq, heq]
  split_ifs <;> omega

theorem logicBlocks_le_blockCapacity {n : Nat} (hn : n ≤ bmtCapacity)
    : logicBlocks compress (extentIdToLogicBlockNum n) ≤ blockCapacity compress := by
  have hle : extentIdToLogicBlockNum n ≤ extentIdToLogicBlockNum bmtCapacity := by
    rw [extentIdToLogicBlockNum_eq n hn, extentIdToLogicBlockNum_eq _ (Nat.le_refl _)]
    rw [bmtCapacity_eq] at *
    split_ifs <;> omega
  unfold blockCapacity logicBlocks
  split
  . apply segPhysicalToLogicBlkno_mono hle
  . exact hle

theorem exists_calls (left : Nat) (hblock : blockCapacity compress ≤ blocknum) {seg : Segment}
    (hseg : Extended seg) (hleft : seg.head.nextents + left = bmtCapacity)
    : ∃ seg', Calls compress blocknum seg seg' ∧ seg'.head.nextents = bmtCapacity := by
  have hcall : logicBlocks compress seg.head.totalBlocks ≤ blocknum := by
    rw [hseg.totalBlocks_eq]
    apply Nat.le_trans (logicBlocks_le_blockCapacity (by omega)) hblock
  induction left generalizing seg with
  | zero => exact ⟨seg, .first hcall, hleft⟩
  | succ left ih =>
    have hnext := hseg.extend 0 0
    have hleft' : (seg.segExtendSegment 0 0).head.nextents + left = bmtCapacity := by
      rw [segExtendSegment_nextents]
      omega
    have hcall' : logicBlocks compress (seg.segExtendSegment 0 0).head.totalBlocks ≤ blocknum := by
      rw [hnext.totalBlocks_eq]
      apply Nat.le_trans (logicBlocks_le_blockCapacity (by omega)) hblock
    obtain ⟨seg', hcalls, hnextents⟩ := ih hnext hleft' hcall'
    exact ⟨seg', .next hcall 0 0 hcalls, hnextents⟩

theorem level1Slots_overrun
    : ¬ StaysInRange 0 .main (Segment.init 4157 fun _ _ => 0) 4202627072
      ∧ (∃ seg', Calls false 4202627072 (Segment.init 4157 fun _ _ => 0) seg'
        ∧ extentIdToLevel1Slot seg'.head.nextents = bmtHeaderLevel1Slots)
      ∧ ¬ StaysInRange 1 .main (Segment.init 4157 fun _ _ => 0) 4169794049
      ∧ (∃ seg', Calls true 4169794049 (Segment.init 4157 fun _ _ => 0) seg'
        ∧ extentIdToLevel1Slot seg'.head.nextents = bmtHeaderLevel1Slots) := by
  have hinit := Extended.init 4157 fun _ _ => 0
  have hfull : extentIdToLevel1Slot bmtCapacity = bmtHeaderLevel1Slots := by
    decide
  have hrange : ¬ SlotInRange bmtCapacity := by
    rw [slotInRange_iff]
    apply Nat.lt_irrefl
  obtain ⟨plain, hplain, hn⟩ := @exists_calls false _ bmtCapacity
    (Nat.le_of_eq blockCapacity_false) _ hinit (Nat.zero_add _)
  obtain ⟨comp, hcomp, hn'⟩ := @exists_calls true _ bmtCapacity
    (Nat.le_of_eq blockCapacity_true) _ hinit (Nat.zero_add _)
  refine ⟨?_, ⟨plain, hplain, ?_⟩, ?_, ⟨comp, hcomp, ?_⟩⟩
  . intro h
    have := h.slot plain hplain
    rw [hn] at this
    exact hrange this
  . rw [hn, hfull]
  . intro h
    have := h.slot comp hcomp
    rw [hn'] at this
    exact hrange this
  . rw [hn', hfull]

end Capacity

end Segment

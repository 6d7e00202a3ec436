import OpenGauss.Segment.BlockMap.Impl
import OpenGauss.Segment.ExtentGroup.Lemmas

/-!
This module contains the verification of the block map.
-/

open List Segment Function

def bmtCapacity : Nat := bmtHeaderLevel0Slots + bmtHeaderLevel1Slots * bmtLevel0Slots

theorem bmtCapacity_eq : bmtCapacity = 513255 := by
  decide

variable {b extentId offset opt : Nat} {forknum : ForkNumber}

theorem extentIdToLogicBlockNum_eq (n : Nat) (h : n ≤ bmtCapacity) : extentIdToLogicBlockNum n
      =
    if n < 16 then n * 8
    else if n < 143 then (n - 16) * 128 + 128
    else if n < 255 then (n - 143) * 1024 + 16384
    else (n - 255) * 8192 + 131072 := by
  rw [bmtCapacity_eq] at h
  have : u32 ((n - 255) * 8192 + 131072) = (n - 255) * 8192 + 131072 := u32_of_lt (by omega)
  rw [← this]
  rfl

theorem extentIdToLogicBlockNum_lt (n : Nat) (h : n ≤ bmtCapacity) : extentIdToLogicBlockNum n < 2 ^ 32 := by
  rw [extentIdToLogicBlockNum_eq n h]
  rw [bmtCapacity_eq] at h
  split_ifs <;> omega

theorem extentSizeByCount_eq (n : Nat) : extentSizeByCount n
      =
    if n < 16 then .extSize8
    else if n < 143 then .extSize128
    else if n < 255 then .extSize1024
    else .extSize8192 := rfl

theorem extentSizeByCount_ne_extSize1 (n : Nat) : extentSizeByCount n ≠ .extSize1 := by
  rw [extentSizeByCount_eq]
  split_ifs <;> decide

theorem extentSizeByCount_toNat (n : Nat) : (extentSizeByCount n).toNat
      =
    if n < 16 then 8 else if n < 143 then 128 else if n < 255 then 1024 else 8192 := by
  rw [extentSizeByCount_eq]
  split_ifs <;> rfl

theorem segLogicPageIdToExtentId_eq (logicId : Nat) : segLogicPageIdToExtentId logicId
      =
    if logicId < 128 then ⟨logicId / 8, logicId % 8, .extSize8⟩
    else if logicId < 16384 then ⟨16 + (logicId - 128) / 128, (logicId - 128) % 128, .extSize128⟩
    else if logicId < 131072 then
      ⟨143 + (logicId - 16384) / 1024, (logicId - 16384) % 1024, .extSize1024⟩
    else ⟨255 + (logicId - 131072) / 8192, (logicId - 131072) % 8192, .extSize8192⟩ := rfl

theorem segGetExtentIdByLogicBlknoInCfs_eq (logicBlkno : Nat) : segGetExtentIdByLogicBlknoInCfs logicBlkno
      =
    if logicBlkno < 128 then ⟨logicBlkno / 8, logicBlkno % 8, .extSize8⟩
    else if logicBlkno < 16257 then
      ⟨16 + (logicBlkno - 128) / 127, (logicBlkno - 128) % 127, .extSize128⟩
    else if logicBlkno < 130049 then
      ⟨143 + (logicBlkno - 16257) / 1016, (logicBlkno - 16257) % 1016, .extSize1024⟩
    else ⟨255 + (logicBlkno - 130049) / 8128, (logicBlkno - 130049) % 8128, .extSize8192⟩ := rfl

theorem extentIdToLogicBlockNum_succ (n : Nat) (h : n < bmtCapacity)
    : extentIdToLogicBlockNum (n + 1) = extentIdToLogicBlockNum n + (extentSizeByCount n).toNat := by
  rw [extentIdToLogicBlockNum_eq n (by omega), extentIdToLogicBlockNum_eq (n + 1) h, extentSizeByCount_toNat]
  split_ifs <;> omega

theorem sum_extentSizeByCount (n : Nat) (h : n ≤ bmtCapacity)
    : ((List.range n).map (fun id => (extentSizeByCount id).toNat)).sum = extentIdToLogicBlockNum n := by
  induction n with
  | zero => decide
  | succ n ih =>
    rw [range_succ, map_append, sum_append, ih (by omega), extentIdToLogicBlockNum_succ n (by omega)]
    simp

theorem extentIdToLogicBlocknumInCfs_eq (n : Nat) (h : n ≤ bmtCapacity) : extentIdToLogicBlocknumInCfs n
      =
    if n < 16 then n * 8
    else if n < 143 then (n - 16) * 127 + 128
    else if n < 255 then (n - 143) * 1016 + 16257
    else (n - 255) * 8128 + 130049 := by
  rw [bmtCapacity_eq] at h
  have : u32 ((n - 255) * 8128 + 130049) = (n - 255) * 8128 + 130049 := u32_of_lt (by omega)
  rw [← this]
  rfl

theorem segPhysicalToLogicBlkno_extentIdToLogicBlockNum (n : Nat) (h : n ≤ bmtCapacity)
    : segPhysicalToLogicBlkno (extentIdToLogicBlockNum n) = extentIdToLogicBlocknumInCfs n := by
  rw [extentIdToLogicBlockNum_eq n h, extentIdToLogicBlocknumInCfs_eq n h]
  simp only [segPhysicalToLogicBlkno, cfsExtSize8TotalPages, cfsExtentSize, cfsLogicBlocksPerExtent]
  split_ifs <;> omega

def logicBlocks (compressed : Bool) (totalBlocks : Nat) : Nat :=
  if compressed then segPhysicalToLogicBlkno totalBlocks else totalBlocks

-- The logical block at an offset of an extent: of 128 physical blocks of a compressed relation the
-- last one holds no logical block.
def logicBlockAt (compressed : Bool) (extentId offset : Nat) : Nat :=
  if compressed then
    extentIdToLogicBlocknumInCfs extentId + (offset - offset / cfsExtentSize)
  else
    extentIdToLogicBlockNum extentId + offset

structure IsDataOffset (compressed : Bool) (extentId offset : Nat) : Prop where
  offset_lt : offset < (extentSizeByCount extentId).toNat
  not_pca : compressed → 128 ≤ (extentSizeByCount extentId).toNat → offset % cfsExtentSize ≠ 127

def cfsExtentSizeByCount (count : Nat) : Nat :=
  (extentSizeByCount count).toNat - (extentSizeByCount count).toNat / cfsExtentSize

theorem cfsExtentSizeByCount_eq (n : Nat) : cfsExtentSizeByCount n
      =
    if n < 16 then 8 else if n < 143 then 127 else if n < 255 then 1016 else 8128 := by
  simp only [cfsExtentSizeByCount, extentSizeByCount_toNat, cfsExtentSize]
  split_ifs <;> rfl

theorem extentIdToLogicBlocknumInCfs_succ (n : Nat) (h : n < bmtCapacity)
    : extentIdToLogicBlocknumInCfs (n + 1) = extentIdToLogicBlocknumInCfs n + cfsExtentSizeByCount n := by
  rw [extentIdToLogicBlocknumInCfs_eq n (by omega), extentIdToLogicBlocknumInCfs_eq (n + 1) h,
    cfsExtentSizeByCount_eq]
  split_ifs <;> omega

theorem exists_extent_of_lt {start size : Nat → Nat} {n b : Nat} (hzero : start 0 = 0)
    (hsucc : ∀ i < n, start (i + 1) = start i + size i) (hb : b < start n)
    : ∃ i offset, i < n ∧ offset < size i ∧ b = start i + offset := by
  induction n with
  | zero => omega
  | succ n ih =>
    rw [hsucc n (by omega)] at hb
    by_cases h : b < start n
    . have ⟨i, offset, hi, hoffset, hstart⟩ := ih (fun i hi => hsucc i (by omega)) h
      exact ⟨i, offset, by omega, hoffset, hstart⟩
    . exact ⟨n, b - start n, by omega, by omega, by omega⟩

theorem segLogicPageIdToExtentId_extent (extentId offset : Nat) (hid : extentId < bmtCapacity)
    (hoffset : offset < (extentSizeByCount extentId).toNat)
    : segLogicPageIdToExtentId (extentIdToLogicBlockNum extentId + offset)
        =
      ⟨extentId, offset, extentSizeByCount extentId⟩ := by
  rw [extentSizeByCount_toNat] at hoffset
  rw [extentIdToLogicBlockNum_eq extentId (by omega), extentSizeByCount_eq, segLogicPageIdToExtentId_eq]
  split_ifs at *
  all_goals first
    | omega
    | rw [ExtentPosition.mk.injEq]
      exact ⟨by omega, by omega, rfl⟩

theorem segGetExtentIdByLogicBlknoInCfs_extent (extentId offset : Nat) (hid : extentId < bmtCapacity)
    (hcfs : extSize8Boundary ≤ extentId)
    (hoffset : offset < cfsExtentSizeByCount extentId)
    : segGetExtentIdByLogicBlknoInCfs (extentIdToLogicBlocknumInCfs extentId + offset)
        =
      ⟨extentId, offset, extentSizeByCount extentId⟩ := by
  rw [cfsExtentSizeByCount_eq] at hoffset
  rw [extentIdToLogicBlocknumInCfs_eq extentId (by omega), extentSizeByCount_eq,
    segGetExtentIdByLogicBlknoInCfs_eq]
  simp only [extSize8Boundary] at hcfs
  split_ifs at *
  all_goals first
    | omega
    | rw [ExtentPosition.mk.injEq]
      exact ⟨by omega, by omega, rfl⟩

theorem extentIdToLogicBlockNum_zero : extentIdToLogicBlockNum 0 = 0 := by
  decide

theorem extentIdToLogicBlocknumInCfs_zero : extentIdToLogicBlocknumInCfs 0 = 0 := by
  decide

theorem cfsOffset_spec (h : offset < cfsExtentSizeByCount extentId)
    : offset / 127 * 128 + offset % 127 < (extentSizeByCount extentId).toNat
        ∧ offset / 127 * 128 + offset % 127 - (offset / 127 * 128 + offset % 127) / 128 = offset := by
  rw [cfsExtentSizeByCount_eq] at h
  rw [extentSizeByCount_toNat]
  split_ifs at * <;> omega

theorem exists_isDataOffset (compressed : Bool) (n : Nat) (hn : n ≤ bmtCapacity)
    (hb : b < logicBlocks compressed (extentIdToLogicBlockNum n))
    : ∃ extentId offset, extentId < n
          ∧ IsDataOffset compressed extentId offset
          ∧ b = logicBlockAt compressed extentId offset := by
  cases compressed with
  | false =>
    simp only [logicBlocks, Bool.false_eq_true, if_false] at hb
    have ⟨i, offset, hi, hoffset, hstart⟩ := exists_extent_of_lt extentIdToLogicBlockNum_zero
      (fun i hi => extentIdToLogicBlockNum_succ i (by omega)) hb
    exact ⟨i, offset, hi, ⟨hoffset, by simp⟩, hstart⟩
  | true =>
    simp only [logicBlocks, if_true, segPhysicalToLogicBlkno_extentIdToLogicBlockNum n hn] at hb
    have ⟨i, offset, hi, hoffset, hstart⟩ := exists_extent_of_lt extentIdToLogicBlocknumInCfs_zero
      (fun i hi => extentIdToLogicBlocknumInCfs_succ i (by omega)) hb
    have ⟨hlt, hlogic⟩ := cfsOffset_spec hoffset
    refine ⟨i, offset / 127 * 128 + offset % 127, hi, ⟨hlt, ?_⟩, ?_⟩
    . simp only [cfsExtentSize]
      omega
    . rw [hstart, logicBlockAt, if_pos rfl, cfsExtentSize, hlogic]

theorem segLogicToPhysicMapping_of_compressed (seg : Segment)
    (hc : isCompressedMainfork opt forknum = true) (logicId : Nat)
    : segLogicToPhysicMapping opt seg forknum logicId
        =
      if logicId < 128 then
        let position := segLogicPageIdToExtentId logicId
        ⟨position.extentSize, position.extentId,
          u32 (seg.segExtentLocation position.extentId + position.offset)⟩
      else
        let position := segGetExtentIdByLogicBlknoInCfs logicId
        ⟨position.extentSize, position.extentId,
          u32 (seg.segExtentLocation position.extentId + position.offset / 127 * 128
            + position.offset % 127)⟩ := by
  by_cases h : logicId < 128
  . have hlt : logicId < cfsExtSize8TotalPages := h
    simp [segLogicToPhysicMapping, segCfsLogicToPhysicMapping, hc, h, hlt, Nat.not_le.mpr hlt]
  . have hge : cfsExtSize8TotalPages ≤ logicId := Nat.not_lt.mp h
    simp [segLogicToPhysicMapping, segCfsLogicToPhysicMapping, hc, h, hge, Nat.not_lt.mpr hge,
      cfsLogicBlocksPerExtent, cfsExtentSize]

theorem segLogicToPhysicMapping_logicBlockAt (opt : Nat) (seg : Segment) (forknum : ForkNumber)
    (hid : extentId < bmtCapacity)
    (hoffset : IsDataOffset (isCompressedMainfork opt forknum) extentId offset)
    : segLogicToPhysicMapping opt seg forknum (logicBlockAt (isCompressedMainfork opt forknum) extentId offset)
        =
      ⟨extentSizeByCount extentId, extentId, u32 (seg.segExtentLocation extentId + offset)⟩ := by
  have ⟨hlt, hpca⟩ := hoffset
  cases hc : isCompressedMainfork opt forknum with
  | false =>
    simp [segLogicToPhysicMapping, segCfsLogicToPhysicMapping, logicBlockAt, hc,
      segLogicPageIdToExtentId_extent extentId offset hid hlt]
  | true =>
    rw [hc] at hpca
    have hsize := extentSizeByCount_toNat extentId
    have hstart := extentIdToLogicBlocknumInCfs_eq extentId (by omega)
    rw [segLogicToPhysicMapping_of_compressed seg hc]
    by_cases h : extentId < 16
    . have hplain := extentIdToLogicBlockNum_eq extentId (by omega)
      rw [if_pos h] at hsize hstart hplain
      have : logicBlockAt true extentId offset = extentIdToLogicBlockNum extentId + offset := by
        simp only [logicBlockAt, if_true, cfsExtentSize]
        omega
      rw [this, if_pos (by omega), segLogicPageIdToExtentId_extent extentId offset hid hlt]
    . have : logicBlockAt true extentId offset
          = extentIdToLogicBlocknumInCfs extentId + (offset - offset / 128) := rfl
      have hge : 128 ≤ extentIdToLogicBlocknumInCfs extentId := by
        split_ifs at hstart <;> omega
      have hmod : offset % 128 ≠ 127 := by
        apply hpca rfl
        split_ifs at hsize <;> omega
      have hcfs : offset - offset / 128 < cfsExtentSizeByCount extentId := by
        rw [cfsExtentSizeByCount_eq]
        split_ifs at * <;> omega
      rw [this, if_neg (by omega), segGetExtentIdByLogicBlknoInCfs_extent extentId _ hid
        (by simp only [extSize8Boundary]; omega) hcfs]
      have hoffset : (offset - offset / 128) / 127 * 128 + (offset - offset / 128) % 127 = offset := by
        omega
      simp only [Nat.add_assoc, hoffset]

namespace Segment

-- The level 0 page of a slot is in use while the segment has an extent recorded on it.
def level1SlotInUse (nextents slot : Nat) : Prop :=
  bmtHeaderLevel0Slots + slot * bmtLevel0Slots < nextents

def Disjoint (size start start' : Nat) : Prop :=
  start + size ≤ start' ∨ start' + size ≤ start

structure FreshExtent (extents : List Nat) (newExtent : Nat) : Prop where
  fits : newExtent + (extentSizeByCount extents.length).toNat ≤ 2 ^ 32
  disjoint : ∀ id (_ : id < extents.length),
    extentSizeByCount id = extentSizeByCount extents.length →
      Disjoint (extentSizeByCount id).toNat extents[id] newExtent

def FreshLevel0Page (seg : Segment) (level0Page : Nat) : Prop :=
  ∀ slot, level1SlotInUse seg.head.nextents slot → seg.head.level1Slots slot ≠ level0Page

inductive Reachable : Segment → List Nat → Prop
  | init (segHeadBlocknum : Nat) (level0Pages : Nat → Nat → Nat)
    : Reachable (Segment.init segHeadBlocknum level0Pages) []
  | extend (h : Reachable seg extents) (hcapacity : seg.head.nextents < bmtCapacity)
      (hextent : FreshExtent extents newExtent)
      (hpage : requireNewLevel0Page seg.head.nextents → FreshLevel0Page seg level0Page)
    : Reachable (seg.segExtendSegment newExtent level0Page) (extents ++ [newExtent])
  | free (h : Reachable seg extents) (hfree : seg.freeLastExtent = .ok (seg', freed))
    : Reachable seg' extents.dropLast

variable {seg seg' : Segment} {extents : List Nat} {freed : List (ExtentSize × Nat)}
  {extentId newExtent level0Page : Nat}

structure Inv (seg : Segment) (extents : List Nat) : Prop where
  nextents_eq : seg.head.nextents = extents.length
  nextents_le : extents.length ≤ bmtCapacity
  totalBlocks_eq : seg.head.totalBlocks = extentIdToLogicBlockNum extents.length
  location_eq : ∀ id (_ : id < extents.length), seg.segExtentLocation id = extents[id]
  fits : ∀ id (_ : id < extents.length), extents[id] + (extentSizeByCount id).toNat ≤ 2 ^ 32
  disjoint : ∀ i j (_ : i < extents.length) (_ : j < extents.length), i < j →
    extentSizeByCount i = extentSizeByCount j →
      Disjoint (extentSizeByCount i).toNat extents[i] extents[j]
  level1Slots_ne : ∀ i j, i < j → level1SlotInUse extents.length j →
    seg.head.level1Slots i ≠ seg.head.level1Slots j

theorem segExtentLocation_eq (seg : Segment) (id : Nat) : seg.segExtentLocation id
      =
    if id < 1255 then seg.head.level0Slots id
    else seg.level0Pages (seg.head.level1Slots ((id - 1255) / 2000)) ((id - 1255) % 2000) := rfl

theorem level1SlotInUse_iff (n slot : Nat) : level1SlotInUse n slot ↔ 1255 + slot * 2000 < n :=
  Iff.rfl

theorem level1SlotInUse_succ_iff (n slot : Nat) : level1SlotInUse (n + 1) slot ↔ 1255 + slot * 2000 ≤ n :=
  Nat.lt_succ_iff

theorem level1SlotInUse.mono {i j n m : Nat} (h : level1SlotInUse n j) (hij : i ≤ j) (hnm : n ≤ m)
    : level1SlotInUse m i :=
  calc 1255 + i * 2000
      ≤ 1255 + j * 2000 := Nat.add_le_add_left (by omega) _
    _ < n := h
    _ ≤ m := hnm

theorem requireNewLevel0Page_iff (n : Nat)
    : requireNewLevel0Page n = true ↔ 1255 ≤ n ∧ (n - 1255) % 2000 = 0 := by
  change (if n < 1255 then false else (n - 1255) % 2000 == 0) = true ↔ _
  split
  . simp
    omega
  . simp
    omega

theorem mod_ne_of_div_eq {a b k : Nat} (hdiv : a / k = b / k) (hne : a ≠ b) : a % k ≠ b % k := by
  intro hmod
  apply hne
  rw [← Nat.div_add_mod a k, ← Nat.div_add_mod b k, hdiv, hmod]

section Extend

variable (seg : Segment) (newExtent level0Page : Nat)

def grownHead : SegmentHead := { seg.head with
  nextents := seg.head.nextents + 1
  totalBlocks := u32 (seg.head.totalBlocks + (extentSizeByCount seg.head.nextents).toNat) }

theorem segExtendSegment_cases : (seg.head.nextents < 1255
      ∧ seg.segExtendSegment newExtent level0Page
          = { seg with head := { seg.grownHead with
              level0Slots := Function.update seg.head.level0Slots seg.head.nextents newExtent } })
    ∨ (1255 ≤ seg.head.nextents
      ∧ requireNewLevel0Page seg.head.nextents = true
      ∧ (seg.head.nextents - 1255) % 2000 = 0
      ∧ seg.segExtendSegment newExtent level0Page
          = segInitNewLevel0Page { seg with head := seg.grownHead } seg.head.nextents level0Page
              newExtent)
    ∨ (1255 ≤ seg.head.nextents
      ∧ (seg.head.nextents - 1255) % 2000 ≠ 0
      ∧ seg.segExtendSegment newExtent level0Page
          = segRecordNewExtentOnLevel0Page { seg with head := seg.grownHead } seg.head.nextents
              newExtent) := by
  have hiff := requireNewLevel0Page_iff seg.head.nextents
  by_cases hn : seg.head.nextents < 1255
  . exact Or.inl ⟨hn, if_pos hn⟩
  . by_cases hnew : requireNewLevel0Page seg.head.nextents = true
    . have hmod := hiff.mp hnew
      exact Or.inr (Or.inl ⟨hmod.1, hnew, hmod.2, (if_neg hn).trans (if_pos hnew)⟩)
    . have hmod : (seg.head.nextents - 1255) % 2000 ≠ 0 := by
        intro hmod
        exact hnew (hiff.mpr ⟨by omega, hmod⟩)
      exact Or.inr (Or.inr ⟨by omega, hmod, (if_neg hn).trans (if_neg hnew)⟩)

@[simp]
theorem segExtendSegment_nextents
    : (seg.segExtendSegment newExtent level0Page).head.nextents = seg.head.nextents + 1 := by
  obtain ⟨_, h⟩ | ⟨_, _, _, h⟩ | ⟨_, _, h⟩ := segExtendSegment_cases seg newExtent level0Page
  all_goals
    rw [h]
    rfl

@[simp]
theorem segExtendSegment_totalBlocks : (seg.segExtendSegment newExtent level0Page).head.totalBlocks
      =
    u32 (seg.head.totalBlocks + (extentSizeByCount seg.head.nextents).toNat) := by
  obtain ⟨_, h⟩ | ⟨_, _, _, h⟩ | ⟨_, _, h⟩ := segExtendSegment_cases seg newExtent level0Page
  all_goals
    rw [h]
    rfl

theorem segExtentLocation_segExtendSegment
    (hpage : requireNewLevel0Page seg.head.nextents → FreshLevel0Page seg level0Page)
    (hne : ∀ i j, i < j → level1SlotInUse seg.head.nextents j →
      seg.head.level1Slots i ≠ seg.head.level1Slots j)
    (extentId : Nat) (hid : extentId ≤ seg.head.nextents)
    : (seg.segExtendSegment newExtent level0Page).segExtentLocation extentId
        =
      if extentId = seg.head.nextents then newExtent else seg.segExtentLocation extentId := by
  have hlast : extentId = seg.head.nextents ∨ extentId < seg.head.nextents := by omega
  rw [segExtentLocation_eq, segExtentLocation_eq]
  obtain ⟨hn, h⟩ | ⟨hn, hnew, hmod, h⟩ | ⟨hn, hmod, h⟩ :=
    segExtendSegment_cases seg newExtent level0Page
  . have hid : extentId < 1255 := by omega
    rw [h]
    simp only [hid, if_true]
    exact update_apply ..
  . rw [h]
    simp only [segInitNewLevel0Page, grownHead, extentIdToLevel1Slot, bmtHeaderLevel0Slots, bmtLevel0Slots]
    obtain rfl | hlt := hlast
    . simp [hmod, Nat.not_lt.mpr hn]
    . rw [if_neg (Nat.ne_of_lt hlt)]
      split
      . rfl
      . have hslot : (extentId - 1255) / 2000 ≠ (seg.head.nextents - 1255) / 2000 := by omega
        have huse : level1SlotInUse seg.head.nextents ((extentId - 1255) / 2000) := by
          rw [level1SlotInUse_iff]
          omega
        rw [update_of_ne hslot, update_of_ne (hpage hnew _ huse)]
  . rw [h]
    simp only [segRecordNewExtentOnLevel0Page, grownHead, extentIdToLevel1Slot,
      extentIdToLevel0PageOffset, bmtHeaderLevel0Slots, bmtLevel0Slots]
    obtain rfl | hlt := hlast
    . simp [Nat.not_lt.mpr hn]
    . rw [if_neg (Nat.ne_of_lt hlt)]
      split
      . rfl
      . by_cases hslot : (extentId - 1255) / 2000 = (seg.head.nextents - 1255) / 2000
        . have hoffset := mod_ne_of_div_eq hslot (by omega)
          rw [hslot, update_self, update_of_ne hoffset]
        . have huse : level1SlotInUse seg.head.nextents ((seg.head.nextents - 1255) / 2000) := by
            rw [level1SlotInUse_iff]
            omega
          have hlt : (extentId - 1255) / 2000 < (seg.head.nextents - 1255) / 2000 := by omega
          rw [update_of_ne (hne _ _ hlt huse)]

theorem segExtendSegment_level1Slots (slot : Nat) (huse : level1SlotInUse (seg.head.nextents + 1) slot)
    : (requireNewLevel0Page seg.head.nextents = true
          ∧ slot = (seg.head.nextents - 1255) / 2000
          ∧ (seg.segExtendSegment newExtent level0Page).head.level1Slots slot = level0Page)
        ∨ (level1SlotInUse seg.head.nextents slot
          ∧ (seg.segExtendSegment newExtent level0Page).head.level1Slots slot
              = seg.head.level1Slots slot) := by
  rw [level1SlotInUse_succ_iff] at huse
  rw [level1SlotInUse_iff]
  obtain ⟨hn, h⟩ | ⟨hn, hnew, hmod, h⟩ | ⟨hn, hmod, h⟩ :=
    segExtendSegment_cases seg newExtent level0Page
  . omega
  . rw [h]
    by_cases hslot : slot = (seg.head.nextents - 1255) / 2000
    . subst hslot
      exact Or.inl ⟨hnew, rfl, update_self ..⟩
    . exact Or.inr ⟨by omega, update_of_ne hslot ..⟩
  . rw [h]
    exact Or.inr ⟨by omega, rfl⟩

theorem segExtendSegment_level1Slots_ne
    (hpage : requireNewLevel0Page seg.head.nextents → FreshLevel0Page seg level0Page)
    (hne : ∀ i j, i < j → level1SlotInUse seg.head.nextents j →
      seg.head.level1Slots i ≠ seg.head.level1Slots j)
    (i j : Nat) (hij : i < j) (huse : level1SlotInUse (seg.head.nextents + 1) j)
    : (seg.segExtendSegment newExtent level0Page).head.level1Slots i ≠
      (seg.segExtendSegment newExtent level0Page).head.level1Slots j := by
  have huse' := huse.mono (Nat.le_of_lt hij) (Nat.le_refl _)
  obtain ⟨_, hi, _⟩ | ⟨hi, hslot⟩ :=
    segExtendSegment_level1Slots seg newExtent level0Page i huse'
  . rw [level1SlotInUse_succ_iff] at huse
    omega
  . rw [hslot]
    obtain ⟨hnew, _, hslot'⟩ | ⟨hj, hslot'⟩ :=
      segExtendSegment_level1Slots seg newExtent level0Page j huse
    . rw [hslot']
      exact hpage hnew i hi
    . rw [hslot']
      exact hne i j hij hj

end Extend

section Free

theorem freeLastExtent_eq (h : seg.freeLastExtent = .ok (seg', freed)) : 0 < seg.head.nextents
      ∧ seg'.head.nextents = seg.head.nextents - 1
      ∧ seg'.head.totalBlocks
          = u32 (seg.head.totalBlocks + 2 ^ 32 - (extentSizeByCount (seg.head.nextents - 1)).toNat)
      ∧ seg'.head.level0Slots = seg.head.level0Slots
      ∧ seg'.level0Pages = seg.level0Pages
      ∧ ∀ slot, level1SlotInUse (seg.head.nextents - 1) slot →
          seg'.head.level1Slots slot = seg.head.level1Slots slot := by
  rw [freeLastExtent, Except.bind_eq_ok] at h
  have ⟨_, hcheck, h⟩ := h
  have hn : 0 < seg.head.nextents := by
    by_contra hn
    simp [segmentCheck, hn] at hcheck
  dsimp only at h
  split at h
  next hnew =>
    have hmod := (requireNewLevel0Page_iff _).mp hnew
    simp only [pure, Except.pure, Except.ok.injEq, Prod.mk.injEq] at h
    obtain ⟨rfl, rfl⟩ := h
    refine ⟨hn, rfl, rfl, rfl, rfl, ?_⟩
    intro slot huse
    rw [level1SlotInUse_iff] at huse
    apply update_of_ne
    simp only [extentIdToLevel1Slot, bmtHeaderLevel0Slots, bmtLevel0Slots]
    omega
  next hnew =>
    simp only [pure, Except.pure, Except.ok.injEq, Prod.mk.injEq] at h
    obtain ⟨rfl, rfl⟩ := h
    exact ⟨hn, rfl, rfl, rfl, rfl, fun _ _ => rfl⟩

theorem segExtentLocation_freeLastExtent (h : seg.freeLastExtent = .ok (seg', freed))
    (hid : extentId < seg.head.nextents - 1)
    : seg'.segExtentLocation extentId = seg.segExtentLocation extentId := by
  have ⟨_, _, _, hlevel0, hpages, hlevel1⟩ := freeLastExtent_eq h
  rw [segExtentLocation_eq, segExtentLocation_eq, hlevel0, hpages]
  split
  . rfl
  . rw [hlevel1]
    rw [level1SlotInUse_iff]
    omega

end Free

section Run

theorem inv_init (segHeadBlocknum : Nat) (level0Pages : Nat → Nat → Nat)
    : Inv (init segHeadBlocknum level0Pages) [] where
  nextents_eq := rfl
  nextents_le := Nat.zero_le _
  totalBlocks_eq := rfl
  location_eq := by simp
  fits := by simp
  disjoint := by simp
  level1Slots_ne := by simp [level1SlotInUse_iff]

theorem Inv.level1Slots_ne' (inv : Inv seg extents) (i j : Nat) (hij : i < j)
    (huse : level1SlotInUse seg.head.nextents j)
    : seg.head.level1Slots i ≠ seg.head.level1Slots j := by
  rw [inv.nextents_eq] at huse
  exact inv.level1Slots_ne i j hij huse

theorem Disjoint.symm {size start start' : Nat} (h : Disjoint size start start')
    : Disjoint size start' start :=
  Or.symm h

theorem Inv.extend (inv : Inv seg extents) (hcapacity : seg.head.nextents < bmtCapacity)
    (hextent : FreshExtent extents newExtent)
    (hpage : requireNewLevel0Page seg.head.nextents → FreshLevel0Page seg level0Page)
    : Inv (seg.segExtendSegment newExtent level0Page) (extents ++ [newExtent]) := by
  have hn := inv.nextents_eq
  have hlength : (extents ++ [newExtent]).length = extents.length + 1 := by simp
  constructor
  case nextents_eq => rw [segExtendSegment_nextents, hn, hlength]
  case nextents_le => omega
  case totalBlocks_eq =>
    have hlt := extentIdToLogicBlockNum_lt (extents.length + 1) (by omega)
    have hsucc := extentIdToLogicBlockNum_succ extents.length (by omega)
    rw [segExtendSegment_totalBlocks, hlength, inv.totalBlocks_eq, hn, ← hsucc, u32_of_lt hlt]
  case location_eq =>
    intro id hid
    rw [segExtentLocation_segExtendSegment seg newExtent level0Page hpage inv.level1Slots_ne' id
      (by omega), getElem_append]
    by_cases h : id < extents.length
    . rw [if_neg (by omega), dif_pos h, inv.location_eq id h]
    . rw [if_pos (by omega), dif_neg h]
      simp
  case fits =>
    intro id hid
    rw [getElem_append]
    by_cases h : id < extents.length
    . rw [dif_pos h]
      exact inv.fits id h
    . have : id = extents.length := by omega
      subst this
      simpa using hextent.fits
  case disjoint =>
    intro i j hi hj hij hsize
    have hi' : i < extents.length := by omega
    rw [getElem_append, getElem_append, dif_pos hi']
    by_cases h : j < extents.length
    . rw [dif_pos h]
      exact inv.disjoint i j hi' h hij hsize
    . have : j = extents.length := by omega
      subst this
      simpa using hextent.disjoint i hi' hsize
  case level1Slots_ne =>
    intro i j hij huse
    rw [hlength, ← hn] at huse
    exact segExtendSegment_level1Slots_ne seg newExtent level0Page hpage inv.level1Slots_ne' i j hij huse

theorem Inv.free (inv : Inv seg extents) (h : seg.freeLastExtent = .ok (seg', freed))
    : Inv seg' extents.dropLast := by
  have ⟨hpos, hnextents, htotal, _, _, hlevel1⟩ := freeLastExtent_eq h
  have hn := inv.nextents_eq
  have hle := inv.nextents_le
  have hlength := extents.length_dropLast
  constructor
  case nextents_eq => omega
  case nextents_le => omega
  case totalBlocks_eq =>
    have hlt := extentIdToLogicBlockNum_lt (extents.length - 1) (by omega)
    have hsucc := extentIdToLogicBlockNum_succ (extents.length - 1) (by omega)
    rw [Nat.sub_add_cancel (by omega)] at hsucc
    rw [htotal, hlength, inv.totalBlocks_eq, hn, hsucc, u32]
    omega
  case location_eq =>
    intro id hid
    rw [segExtentLocation_freeLastExtent h (by omega), getElem_dropLast]
    exact inv.location_eq id (by omega)
  case fits =>
    intro id hid
    rw [getElem_dropLast]
    exact inv.fits id (by omega)
  case disjoint =>
    intro i j hi hj hij hsize
    rw [getElem_dropLast, getElem_dropLast]
    exact inv.disjoint i j (by omega) (by omega) hij hsize
  case level1Slots_ne =>
    intro i j hij huse
    rw [hlength, ← hn] at huse
    rw [hlevel1 i (huse.mono (by omega) (by omega)), hlevel1 j huse]
    exact inv.level1Slots_ne i j hij (huse.mono (Nat.le_refl j) (by omega))

theorem Reachable.inv (h : Reachable seg extents) : Inv seg extents := by
  induction h with
  | init segHeadBlocknum level0Pages => exact inv_init segHeadBlocknum level0Pages
  | extend _ hcapacity hextent hpage ih => exact ih.extend hcapacity hextent hpage
  | free _ hfree ih => exact ih.free hfree

theorem exists_reachable (location : Nat → Nat)
    (hfits : ∀ id < bmtCapacity, location id + (extentSizeByCount id).toNat ≤ 2 ^ 32)
    (hdisjoint : ∀ i j, i < j → j < bmtCapacity → extentSizeByCount i = extentSizeByCount j →
      Disjoint (extentSizeByCount i).toNat (location i) (location j))
    (n : Nat) (hn : n ≤ bmtCapacity)
    : ∃ seg, Reachable seg ((List.range n).map location)
        ∧ ∀ slot, level1SlotInUse n slot → seg.head.level1Slots slot = slot := by
  induction n with
  | zero => exact ⟨init 0 (fun _ _ => 0), .init .., by simp [level1SlotInUse_iff]⟩
  | succ n ih =>
    have ⟨seg, hreachable, hslots⟩ := ih (by omega)
    have hnextents : seg.head.nextents = n := by simpa using hreachable.inv.nextents_eq
    have hextent : FreshExtent ((List.range n).map location) (location n) := by
      constructor
      . simpa using hfits n hn
      . intro id hid hsize
        simp only [length_map, length_range] at hid hsize
        simpa using hdisjoint id n hid hn hsize
    have hpage : requireNewLevel0Page seg.head.nextents →
        FreshLevel0Page seg ((n - 1255) / 2000) := by
      intro hnew slot huse
      have hmod := (requireNewLevel0Page_iff _).mp hnew
      rw [hnextents] at hmod huse
      rw [hslots slot huse]
      rw [level1SlotInUse_iff] at huse
      omega
    refine ⟨seg.segExtendSegment (location n) ((n - 1255) / 2000), ?_, ?_⟩
    . rw [range_succ, map_append]
      exact hreachable.extend (by omega) hextent hpage
    . intro slot huse
      rw [← hnextents] at huse hslots
      obtain ⟨_, hslot, h⟩ | ⟨huse', h⟩ := segExtendSegment_level1Slots seg (location n) _ slot huse
      . rw [h, hslot, hnextents]
      . rw [h, hslots slot huse']

end Run

section Mapping

-- The physical block lies in a live extent and, if the relation is compressed, is not the last one
-- of a group of 128 blocks.
structure InLiveExtent (seg : Segment) (compressed : Bool) (location : SegPageLocation) : Prop where
  extentId_lt : location.extentId < seg.head.nextents
  extentSize_eq : location.extentSize = extentSizeByCount location.extentId
  le_blocknum : seg.segExtentLocation location.extentId ≤ location.blocknum
  blocknum_lt :
    location.blocknum < seg.segExtentLocation location.extentId + location.extentSize.toNat
  not_pca : compressed → cfsExtentSize ≤ location.extentSize.toNat →
    (location.blocknum - seg.segExtentLocation location.extentId) % cfsExtentSize
      ≠ cfsExtentSize - 1

variable {opt b : Nat} {forknum : ForkNumber}

theorem Inv.segLogicToPhysicMapping_eq (inv : Inv seg extents)
    (hb : b < logicBlocks (isCompressedMainfork opt forknum) seg.head.totalBlocks)
    : ∃ extentId offset, extentId < extents.length
          ∧ IsDataOffset (isCompressedMainfork opt forknum) extentId offset
          ∧ b = logicBlockAt (isCompressedMainfork opt forknum) extentId offset
          ∧ segLogicToPhysicMapping opt seg forknum b
              = ⟨extentSizeByCount extentId, extentId, seg.segExtentLocation extentId + offset⟩ := by
  have hle := inv.nextents_le
  rw [inv.totalBlocks_eq] at hb
  have ⟨extentId, offset, hid, hoffset, hblock⟩ := exists_isDataOffset _ _ hle hb
  refine ⟨extentId, offset, hid, hoffset, hblock, ?_⟩
  have hfits := inv.fits extentId hid
  have hlt := hoffset.offset_lt
  rw [hblock, segLogicToPhysicMapping_logicBlockAt opt seg forknum (by omega) hoffset,
    inv.location_eq extentId hid, u32_of_lt (by omega)]

theorem Inv.inLiveExtent (inv : Inv seg extents)
    (hb : b < logicBlocks (isCompressedMainfork opt forknum) seg.head.totalBlocks)
    : InLiveExtent seg (isCompressedMainfork opt forknum) (segLogicToPhysicMapping opt seg forknum b) := by
  have ⟨extentId, offset, hid, hoffset, _, hmapping⟩ := inv.segLogicToPhysicMapping_eq hb
  rw [hmapping]
  constructor
  case extentId_lt =>
    rw [inv.nextents_eq]
    exact hid
  case extentSize_eq => rfl
  case le_blocknum => exact Nat.le_add_right ..
  case blocknum_lt => exact Nat.add_lt_add_left hoffset.offset_lt _
  case not_pca =>
    intro hcompressed hsize
    rw [Nat.add_sub_cancel_left]
    exact hoffset.not_pca hcompressed hsize

theorem Inv.segLogicToPhysicMapping_inj (inv : Inv seg extents)
    (hb : b < logicBlocks (isCompressedMainfork opt forknum) seg.head.totalBlocks)
    (hb' : b' < logicBlocks (isCompressedMainfork opt forknum) seg.head.totalBlocks)
    (hsize : (segLogicToPhysicMapping opt seg forknum b).extentSize
      = (segLogicToPhysicMapping opt seg forknum b').extentSize)
    (hblock : (segLogicToPhysicMapping opt seg forknum b).blocknum
      = (segLogicToPhysicMapping opt seg forknum b').blocknum)
    : b = b' := by
  have ⟨i, offset, hi, hoffset, heq, hmapping⟩ := inv.segLogicToPhysicMapping_eq hb
  have ⟨j, offset', hj, hoffset', heq', hmapping'⟩ := inv.segLogicToPhysicMapping_eq hb'
  rw [hmapping, hmapping', inv.location_eq i hi, inv.location_eq j hj] at hblock
  rw [hmapping, hmapping'] at hsize
  have hlt := hoffset.offset_lt
  have hlt' := hoffset'.offset_lt
  simp only at hsize hblock
  rcases Nat.lt_trichotomy i j with h | h | h
  . have hdisjoint := inv.disjoint i j hi hj h hsize
    rw [← hsize] at hlt'
    unfold Disjoint at hdisjoint
    omega
  . subst h
    rw [heq, heq', Nat.add_left_cancel hblock]
  . have hdisjoint := inv.disjoint j i hj hi h hsize.symm
    rw [hsize] at hlt
    unfold Disjoint at hdisjoint
    omega

theorem blockMap_of_reachable (h : Reachable seg extents) (opt : Nat) (forknum : ForkNumber)
    : seg.head.nextents = extents.length
        ∧ seg.head.totalBlocks
            = ((List.range seg.head.nextents).map (fun id => (extentSizeByCount id).toNat)).sum
        ∧ (∀ id (_ : id < extents.length), seg.segExtentLocation id = extents[id])
        ∧ (∀ b, b < logicBlocks (isCompressedMainfork opt forknum) seg.head.totalBlocks →
            InLiveExtent seg (isCompressedMainfork opt forknum)
              (segLogicToPhysicMapping opt seg forknum b))
        ∧ (∀ b b', b < logicBlocks (isCompressedMainfork opt forknum) seg.head.totalBlocks →
            b' < logicBlocks (isCompressedMainfork opt forknum) seg.head.totalBlocks →
            (segLogicToPhysicMapping opt seg forknum b).extentSize
              = (segLogicToPhysicMapping opt seg forknum b').extentSize →
            (segLogicToPhysicMapping opt seg forknum b).blocknum
              = (segLogicToPhysicMapping opt seg forknum b').blocknum →
            b = b') := by
  have inv := h.inv
  refine ⟨inv.nextents_eq, ?_, inv.location_eq, ?_, ?_⟩
  . rw [inv.nextents_eq, inv.totalBlocks_eq, sum_extentSizeByCount _ inv.nextents_le]
  . intro b hb
    exact inv.inLiveExtent hb
  . intro b b' hb hb' hsize hblock
    exact inv.segLogicToPhysicMapping_inj hb hb' hsize hblock

theorem blockMap_of_reachable_capacity
    : ∃ seg extents, Reachable seg extents
        ∧ extents.length = bmtCapacity
        ∧ (∀ b b', b < segPhysicalToLogicBlkno seg.head.totalBlocks →
            b' < segPhysicalToLogicBlkno seg.head.totalBlocks →
            (segLogicToPhysicMapping 1 seg .main b).extentSize
              = (segLogicToPhysicMapping 1 seg .main b').extentSize →
            (segLogicToPhysicMapping 1 seg .main b).blocknum
              = (segLogicToPhysicMapping 1 seg .main b').blocknum →
            b = b') := by
  have hsize : ∀ id, (extentSizeByCount id).toNat ≤ 8192 := by
    intro id
    rw [extentSizeByCount_toNat]
    split_ifs <;> omega
  have ⟨seg, h, _⟩ := exists_reachable (fun id => id * 8192)
    (by
      intro id hid
      have := hsize id
      rw [bmtCapacity_eq] at hid
      omega)
    (by
      intro i j hij _ _
      have := hsize i
      exact Or.inl (by omega))
    bmtCapacity (Nat.le_refl _)
  exact ⟨seg, _, h, by simp, (blockMap_of_reachable h 1 .main).2.2.2.2⟩

end Mapping

end Segment

import OpenGauss.Segment.ExtentGroup.Steps
import OpenGauss.Lib.Bits

/-!
This module contains the verification of the extent allocator.
-/

open Layout Bitmap Function Finset

theorem u32_of_lt (h : n < 2 ^ 32) : u32 n = n := Nat.mod_eq_of_lt h

theorem u32_lt (n : Nat) : u32 n < 2 ^ 32 := Nat.mod_lt _ (by decide)

theorem segmentCheck_true : segmentCheck true = .ok () := rfl

namespace MapPage

def Full (page : MapPage) : Prop := Bitmap.Full page.bitmap dfMapBitCnt

/--
The counter and the two hints of a map page agree with its bitmap.
-/
structure Valid (page : MapPage) : Prop where
  freeBits_eq : page.freeBits = Bitmap.zeros page.bitmap dfMapBitCnt
  lt_freeBegin : ∀ i, i < page.freeBegin → page.bitmap i = true
  le_dirtyLast : ∀ i, page.bitmap i = true → i ≤ page.dirtyLast
  lt_bitCnt : ∀ i, page.bitmap i = true → i < dfMapBitCnt

theorem valid_init (firstPage : Nat) : (egInitBitmapPageContent firstPage).Valid := by
  constructor
  . simp [egInitBitmapPageContent, zeros_empty]
  . simp [egInitBitmapPageContent]
  . simp [egInitBitmapPageContent]
  . simp [egInitBitmapPageContent]

variable {page : MapPage}

theorem Valid.freeBits_eq_zero_iff (h : page.Valid) : page.freeBits = 0 ↔ page.Full := by
  rw [h.freeBits_eq, Bitmap.zeros_eq_zero_iff, Full]

theorem egSetBitmapPage_eq (hfree : page.free b = true) : page.egSetBitmapPage b = .ok { page with
      bitmap := Function.update page.bitmap b true
      freeBits := page.freeBits - 1
      freeBegin := if page.freeBegin = b then page.freeBegin + 1 else page.freeBegin
      dirtyLast := if page.dirtyLast < b then b else page.dirtyLast } := by
  simp only [egSetBitmapPage, hfree, segmentCheck_true]
  rfl

theorem egUnsetBitmapPage_eq (hfree : page.free b = false) : page.egUnsetBitmapPage b = .ok { page with
      bitmap := Function.update page.bitmap b false
      freeBits := page.freeBits + 1
      freeBegin := if page.freeBegin > b then b else page.freeBegin } := by
  simp only [egUnsetBitmapPage, hfree, Bool.not_false, segmentCheck_true]
  rfl

theorem Valid.egSetBitmapPage {page' : MapPage} (h : page.Valid) (hb : b < dfMapBitCnt)
    (hset : page.egSetBitmapPage b = .ok page')
    : page'.Valid ∧ page.bitmap b = false
        ∧ page'.bitmap = Function.update page.bitmap b true ∧ page'.firstPage = page.firstPage := by
  by_cases hfree : page.free b = true
  . rw [egSetBitmapPage_eq hfree] at hset
    injection hset with hset
    subst hset
    have hbit : page.bitmap b = false := by simpa [free] using hfree
    have hones := ones_update_true page.bitmap b dfMapBitCnt hb hbit
    have hsum := ones_add_zeros page.bitmap dfMapBitCnt
    have hsum' := ones_add_zeros (Function.update page.bitmap b true) dfMapBitCnt
    refine ⟨?_, hbit, rfl, rfl⟩
    constructor
    . simp only [h.freeBits_eq]
      omega
    . intro i hi
      simp only [update_apply]
      split
      . rfl
      . apply h.lt_freeBegin
        simp only at hi
        split at hi <;> omega
    . intro i hi
      simp only [update_apply] at hi ⊢
      split at hi
      . split <;> omega
      . have := h.le_dirtyLast i hi
        split <;> omega
    . intro i hi
      simp only [update_apply] at hi
      split at hi
      . omega
      . apply h.lt_bitCnt i hi
  . simp only [Bool.not_eq_true] at hfree
    simp [MapPage.egSetBitmapPage, hfree, segmentCheck] at hset

theorem Valid.egUnsetBitmapPage {page' : MapPage} (h : page.Valid) (hb : b < dfMapBitCnt)
    (hset : page.egUnsetBitmapPage b = .ok page')
    : page'.Valid ∧ page.bitmap b = true
        ∧ page'.bitmap = Function.update page.bitmap b false ∧ page'.firstPage = page.firstPage := by
  by_cases hfree : page.free b = false
  . rw [egUnsetBitmapPage_eq hfree] at hset
    injection hset with hset
    subst hset
    have hbit : page.bitmap b = true := by simpa [free] using hfree
    have hones := ones_update_false page.bitmap b dfMapBitCnt hb hbit
    have hsum := ones_add_zeros page.bitmap dfMapBitCnt
    have hsum' := ones_add_zeros (Function.update page.bitmap b false) dfMapBitCnt
    refine ⟨?_, hbit, rfl, rfl⟩
    constructor
    . simp only [h.freeBits_eq]
      omega
    . intro i hi
      simp only at hi
      simp only [update_apply]
      split at hi
      . rw [if_neg (by omega)]
        apply h.lt_freeBegin i (by omega)
      . rw [if_neg (by omega)]
        apply h.lt_freeBegin i hi
    . intro i hi
      simp only [update_apply] at hi
      split at hi
      . simp at hi
      . apply h.le_dirtyLast i hi
    . intro i hi
      simp only [update_apply] at hi
      split at hi
      . simp at hi
      . apply h.lt_bitCnt i hi
  . simp only [Bool.not_eq_false] at hfree
    simp [MapPage.egUnsetBitmapPage, hfree, segmentCheck] at hset

theorem findFreeBit_spec (page : MapPage) (todo curr : Nat) : curr ≤ page.findFreeBit todo curr
      ∧
    (∀ i, curr ≤ i → i < page.findFreeBit todo curr → page.bitmap i = true)
      ∧
    (page.findFreeBit todo curr < curr + todo → page.free (page.findFreeBit todo curr) = true)
      ∧
    page.findFreeBit todo curr ≤ curr + todo := by
  induction todo generalizing curr with
  | zero =>
    simp only [findFreeBit]
    refine ⟨Nat.le_refl _, ?_, ?_, Nat.le_refl _⟩
    . intro i hle hlt
      omega
    . intro h
      omega
  | succ todo ih =>
    simp only [findFreeBit]
    split
    . next hfree =>
      refine ⟨Nat.le_refl _, ?_, fun _ => hfree, by omega⟩
      intro i hle hlt
      omega
    . next hfree =>
      obtain ⟨hle, hset, hfound, hbound⟩ := ih (curr + 1)
      refine ⟨by omega, ?_, ?_, by omega⟩
      . intro i hi hlt
        by_cases heq : i = curr
        . subst heq
          simpa [free] using hfree
        . apply hset i (by omega) hlt
      . intro hlt
        apply hfound
        omega

end MapPage

namespace SegExtentGroup

variable (mapPage : MapPage) {seg' seg : SegExtentGroup}

def page (seg : SegExtentGroup) (g m : Nat) : MapPage :=
  seg.mapPages (groupStart seg.extentSize g + m)

def Allocated (seg : SegExtentGroup) (g m b : Nat) : Prop :=
  g < seg.mapHead.groupCount ∧ m < dfMapGroupSize ∧ b < dfMapBitCnt
    ∧ (seg.page g m).bitmap b = true

def setBits (seg : SegExtentGroup) : Nat :=
  ∑ g ∈ Finset.range seg.mapHead.groupCount, ∑ m ∈ Finset.range dfMapGroupSize,
    Bitmap.ones (seg.page g m).bitmap dfMapBitCnt

def GroupsFit (seg : SegExtentGroup) : Prop :=
  ∀ g, g < seg.mapHead.groupCount → dataStart seg.extentSize g < 2 ^ 32

/--
The map head and the map pages describe the bitmaps: the groups lie where the layout puts them, the
counters are exact, and in front of every hint there is no free extent.
-/
structure Inv (seg : SegExtentGroup) : Prop where
  bitUnit_eq : seg.mapHead.bitUnit = seg.extentSize.toNat
  firstMap_eq : ∀ g, g < seg.mapHead.groupCount →
    (seg.mapHead.groups g).firstMap = groupStart seg.extentSize g
  pageCount_eq : ∀ g, g < seg.mapHead.groupCount →
    (seg.mapHead.groups g).pageCount = dfMapGroupSize
  firstPage_eq : ∀ g m, g < seg.mapHead.groupCount → m < dfMapGroupSize →
    (seg.page g m).firstPage = u32 (extentStart seg.extentSize g m 0)
  page_valid : ∀ g m, g < seg.mapHead.groupCount → m < dfMapGroupSize → (seg.page g m).Valid
  freePage_lt : ∀ g, g < seg.mapHead.groupCount → (seg.mapHead.groups g).freePage < dfMapGroupSize
  freeGroup_lt : 0 < seg.mapHead.groupCount → seg.mapHead.freeGroup < seg.mapHead.groupCount
  freeGroup_zero : seg.mapHead.groupCount = 0 → seg.mapHead.freeGroup = 0
  full_of_lt_freePage : ∀ g m, g < seg.mapHead.groupCount → m < (seg.mapHead.groups g).freePage →
    (seg.page g m).Full
  full_of_lt_freeGroup : ∀ g m, g < seg.mapHead.freeGroup → m < dfMapGroupSize → (seg.page g m).Full
  allocatedExtents_eq : seg.mapHead.allocatedExtents = seg.setBits

theorem page_update (hsize : seg'.extentSize = seg.extentSize) (hpages : seg'.mapPages
      = Function.update seg.mapPages (groupStart seg.extentSize g + m) newPage)
    (hm : m < dfMapGroupSize) (hm' : m' < dfMapGroupSize)
    : seg'.page g' m' = if g' = g ∧ m' = m then newPage else seg.page g' m' := by
  simp only [page, hpages, hsize, update_apply]
  by_cases heq : g' = g ∧ m' = m
  . rw [if_pos heq, heq.1, heq.2, if_pos rfl]
  . rw [if_neg heq, if_neg]
    intro hblock
    apply heq
    apply mapPage_inj _ hm' hm hblock

theorem setBits_update (hcount : seg'.mapHead.groupCount = seg.mapHead.groupCount)
    (hg : g < seg.mapHead.groupCount) (hm : m < dfMapGroupSize)
    (hpage : ∀ g' m', m' < dfMapGroupSize →
      seg'.page g' m' = if g' = g ∧ m' = m then newPage else seg.page g' m')
    (hones : ones newPage.bitmap dfMapBitCnt
      = ones (seg.page g m).bitmap dfMapBitCnt + d)
    : seg'.setBits = seg.setBits + d := by
  simp only [setBits, hcount]
  apply sum_add_of_eq_of_ne _ _ _ g _ hg
  . apply sum_add_of_eq_of_ne _ _ _ m _ hm
    . rw [hpage g m hm, if_pos ⟨rfl, rfl⟩, hones]
    . intro m' hm' hne
      rw [hpage g m' hm', if_neg (fun h => hne h.2)]
  . intro g' _ hne
    apply sum_congr rfl
    intro m' hm'
    rw [hpage g' m' (mem_range.mp hm'), if_neg (fun h => hne h.1)]

theorem allocated_update (val : Bool) (hcount : seg'.mapHead.groupCount = seg.mapHead.groupCount)
    (hg : g < seg.mapHead.groupCount) (hm : m < dfMapGroupSize) (hb : b < dfMapBitCnt)
    (hpage : ∀ g' m', m' < dfMapGroupSize →
      seg'.page g' m' = if g' = g ∧ m' = m then newPage else seg.page g' m')
    (hbitmap : newPage.bitmap = Function.update (seg.page g m).bitmap b val)
    : seg'.Allocated g' m' b' ↔ if g' = g ∧ m' = m ∧ b' = b then val = true else seg.Allocated g' m' b' := by
  by_cases hm' : m' < dfMapGroupSize
  . simp only [Allocated, hpage g' m' hm', hcount]
    by_cases heq : g' = g ∧ m' = m
    . obtain ⟨rfl, rfl⟩ := heq
      simp only [and_self, if_true, hbitmap, update_apply, true_and]
      split
      . next heq =>
        subst heq
        simp [hg, hm, hb]
      . rfl
    . rw [if_neg heq, if_neg (fun h => heq ⟨h.1, h.2.1⟩)]
  . have hne : ¬ (g' = g ∧ m' = m ∧ b' = b) := by
      intro h
      exact hm' (h.2.1 ▸ hm)
    rw [if_neg hne]
    simp [Allocated, hm']

section Alloc

variable {seg : SegExtentGroup}

open egAllocExtentFromMapInternal

@[simp]
theorem update_extentSize : (update seg block mapPage b e fg fp).extentSize = seg.extentSize := rfl

@[simp]
theorem update_mapPages
    : (update seg block mapPage b e fg fp).mapPages = Function.update seg.mapPages block mapPage := rfl

@[simp]
theorem update_bitUnit : (update seg block mapPage b e fg fp).mapHead.bitUnit = seg.mapHead.bitUnit := rfl

@[simp]
theorem update_groupCount
    : (update seg block mapPage b e fg fp).mapHead.groupCount = seg.mapHead.groupCount := rfl

@[simp]
theorem update_freeGroup : (update seg block mapPage b e fg fp).mapHead.freeGroup = fg := rfl

@[simp]
theorem update_allocatedExtents : (update seg block mapPage b e fg fp).mapHead.allocatedExtents
      = seg.mapHead.allocatedExtents + 1 := rfl

@[simp]
theorem update_groups : (update seg block mapPage b e fg fp).mapHead.groups
      = Function.update seg.mapHead.groups fg { seg.mapHead.groups fg with freePage := fp } := rfl

theorem inv_update (h : seg.Inv) {mapPage : MapPage}
    (hg : g < seg.mapHead.groupCount) (hm : m < dfMapGroupSize) (hb : b < dfMapBitCnt)
    (hset : (seg.page g m).egSetBitmapPage b = .ok mapPage)
    (hfg : fg < seg.mapHead.groupCount) (hfp : fp < dfMapGroupSize)
    (hfullGroup : ∀ g' m', g' < fg → m' < dfMapGroupSize → (seg.page g' m').Full)
    (hfullPage : ∀ m', m' < fp → (seg.page fg m').Full)
    : (update seg (groupStart seg.extentSize g + m) mapPage b e fg fp).Inv := by
  obtain ⟨hvalid, hbit, hbitmap, hfirst⟩ := (h.page_valid g m hg hm).egSetBitmapPage hb hset
  generalize hseg' : update seg (groupStart seg.extentSize g + m) mapPage b e fg fp = seg'
  have hpage : ∀ g' m', m' < dfMapGroupSize →
      seg'.page g' m' = if g' = g ∧ m' = m then mapPage else seg.page g' m' := by
    intro g' m' hm'
    apply page_update _ _ hm hm'
    . simp [← hseg']
    . simp [← hseg']
  have hfull : ∀ g' m', m' < dfMapGroupSize → (seg.page g' m').Full → (seg'.page g' m').Full := by
    intro g' m' hm' hfull i hi
    rw [hpage g' m' hm']
    split
    . next heq =>
      rw [heq.1, heq.2] at hfull
      rw [hbitmap, update_apply]
      split
      . rfl
      . apply hfull i hi
    . apply hfull i hi
  have hcount : seg'.mapHead.groupCount = seg.mapHead.groupCount := by simp [← hseg']
  have hsize : seg'.extentSize = seg.extentSize := by simp [← hseg']
  have hgroups : seg'.mapHead.groups
      = Function.update seg.mapHead.groups fg { seg.mapHead.groups fg with freePage := fp } := by
    simp [← hseg']
  constructor
  . simp [← hseg', h.bitUnit_eq]
  . intro g' hg'
    rw [hcount] at hg'
    rw [hgroups, hsize, ← h.firstMap_eq g' hg', update_apply]
    split
    . next heq => rw [heq]
    . rfl
  . intro g' hg'
    rw [hcount] at hg'
    rw [hgroups, ← h.pageCount_eq g' hg', update_apply]
    split
    . next heq => rw [heq]
    . rfl
  . intro g' m' hg' hm'
    rw [hcount] at hg'
    rw [hpage g' m' hm', hsize]
    split
    . next heq => rw [hfirst, heq.1, heq.2, h.firstPage_eq g m hg hm]
    . apply h.firstPage_eq g' m' hg' hm'
  . intro g' m' hg' hm'
    rw [hcount] at hg'
    rw [hpage g' m' hm']
    split
    . apply hvalid
    . apply h.page_valid g' m' hg' hm'
  . intro g' hg'
    rw [hcount] at hg'
    rw [hgroups, update_apply]
    split
    . apply hfp
    . apply h.freePage_lt g' hg'
  . intro _
    simpa [← hseg'] using hfg
  . intro hzero
    omega
  . intro g' m' hg' hm'
    rw [hcount] at hg'
    rw [hgroups, update_apply] at hm'
    split at hm'
    . next heq =>
      subst heq
      apply hfull
      . simp only at hm'
        omega
      . apply hfullPage m' hm'
    . have := h.freePage_lt g' hg'
      apply hfull _ _ (by omega)
      apply h.full_of_lt_freePage g' m' hg' hm'
  . intro g' m' hg' hm'
    apply hfull _ _ hm'
    apply hfullGroup g' m' _ hm'
    simpa [← hseg'] using hg'
  . have hones := ones_update_true _ b dfMapBitCnt hb hbit
    rw [← hbitmap] at hones
    rw [setBits_update hcount hg hm hpage hones, ← h.allocatedExtents_eq]
    simp [← hseg']

/--
The extent of the bit `b` of the map page `m` of the group `g` was free and has been taken.
-/
structure Takes (seg seg' : SegExtentGroup) (g m b : Nat) : Prop where
  inv : seg'.Inv
  extentSize_eq : seg'.extentSize = seg.extentSize
  groupCount_eq : seg'.mapHead.groupCount = seg.mapHead.groupCount
  fresh : ¬ seg.Allocated g m b
  allocated_iff : ∀ g' m' b',
    seg'.Allocated g' m' b' ↔ seg.Allocated g' m' b' ∨ (g' = g ∧ m' = m ∧ b' = b)

def Extends (seg : SegExtentGroup) (res : AllocResult) : Prop :=
  res.seg = seg ∧ res.result = none ∧ 0 < res.targetFileSize

def Hands (seg : SegExtentGroup) (res : AllocResult) (g m b : Nat) : Prop :=
  seg.Takes res.seg g m b ∧ res.result = some (u32 (extentStart seg.extentSize g m b))
    ∧ res.targetFileSize = 0

-- The extent is the first free one, and its end is in the file as far as 32 bits can tell.
structure First (seg : SegExtentGroup) (g m b : Nat) : Prop where
  group_lt : g < seg.mapHead.groupCount
  map_lt : m < dfMapGroupSize
  bit_lt : b < dfMapBitCnt
  bits : ∀ i, i < b → (seg.page g m).bitmap i = true
  pages : ∀ m', m' < m → (seg.page g m').Full
  groups : ∀ g' m', g' < g → m' < dfMapGroupSize → (seg.page g' m').Full
  end_le : u32 (u32 (extentStart seg.extentSize g m b) + seg.extentSize.toNat) ≤ seg.totalBlocks

theorem Extends.stops (h : seg.Extends res) : res.stops = true := by
  simp [AllocResult.stops, h.2.2]

theorem Hands.stops (h : seg.Hands res g m b) : res.stops = true := by
  simp [AllocResult.stops, h.2.1]

variable (h : seg.Inv)
include h

theorem Inv.mapBlock_eq (hfit : seg.GroupsFit) (hg : g < seg.mapHead.groupCount) (hm : m < dfMapGroupSize)
    : u32 ((seg.mapHead.groups g).firstMap + m) = groupStart seg.extentSize g + m := by
  have hlt := hfit g hg
  rw [h.firstMap_eq g hg, u32_of_lt]
  simp only [dataStart] at hlt
  omega

theorem Inv.pagenum_eq (hg : g < seg.mapHead.groupCount) (hm : m < dfMapGroupSize)
    : u32 ((seg.page g m).firstPage + b * seg.mapHead.bitUnit) = u32 (extentStart seg.extentSize g m b) := by
  rw [h.firstPage_eq g m hg hm, h.bitUnit_eq, u32, u32, u32, Nat.mod_add_mod]
  congr 1
  simp only [extentStart, Nat.add_mul]
  omega

theorem egAllocExtentFromMapInternal_spec
    (hg : g < seg.mapHead.groupCount) (hm : m < dfMapGroupSize) (hb : b < dfMapBitCnt)
    (hfree : (seg.page g m).free b = true)
    (hfg : fg < seg.mapHead.groupCount) (hfp : fp < dfMapGroupSize)
    (hfullGroup : ∀ g' m', g' < fg → m' < dfMapGroupSize → (seg.page g' m').Full)
    (hfullPage : ∀ m', m' < fp → (seg.page fg m').Full)
    : ∃ res, seg.egAllocExtentFromMapInternal (groupStart seg.extentSize g + m) b fg fp = .ok res
        ∧
      (if u32 (u32 (extentStart seg.extentSize g m b) + seg.extentSize.toNat) > seg.totalBlocks then
        seg.Extends res
      else
        seg.Hands res g m b) := by
  have hpagenum := h.pagenum_eq (b := b) hg hm
  simp only [page] at hpagenum
  simp only [egAllocExtentFromMapInternal, hpagenum]
  split
  . next hend =>
    refine ⟨_, rfl, rfl, rfl, ?_⟩
    simp only
    omega
  . next hend =>
    have hset := MapPage.egSetBitmapPage_eq hfree
    obtain ⟨-, hbit, hbitmap, -⟩ := (h.page_valid g m hg hm).egSetBitmapPage hb hset
    simp only [page] at hset
    rw [hset]
    refine ⟨_, rfl, ?_, rfl, rfl⟩
    constructor
    . apply inv_update h hg hm hb hset hfg hfp hfullGroup hfullPage
    . rfl
    . rfl
    . intro halloc
      rw [halloc.2.2.2] at hbit
      simp at hbit
    . intro g' m' b'
      rw [allocated_update true (update_groupCount _) hg hm hb
        (fun g' m' hm' => page_update rfl rfl hm hm') rfl]
      split
      . next heq => simp [heq]
      . next hne => simp [hne]

variable (hfit : seg.GroupsFit)
include hfit

theorem egAllocExtentFromMap_spec (hg : g < seg.mapHead.groupCount) (hm : m < dfMapGroupSize)
    (hfullGroup : ∀ g' m', g' < g → m' < dfMapGroupSize → (seg.page g' m').Full)
    (hfullPage : ∀ m', m' < m → (seg.page g m').Full)
    : ∃ res, seg.egAllocExtentFromMap (u32 ((seg.mapHead.groups g).firstMap + m)) g m = .ok res
        ∧
      ((res = ⟨seg, none, 0⟩ ∧ (seg.page g m).Full) ∨ seg.Extends res
        ∨ ∃ b, seg.Hands res g m b ∧ seg.First g m b) := by
  have hvalid := h.page_valid g m hg hm
  rw [h.mapBlock_eq hfit hg hm]
  simp only [egAllocExtentFromMap]
  rw [← page]
  split
  . next hzero =>
    refine ⟨_, rfl, .inl ⟨rfl, ?_⟩⟩
    apply hvalid.freeBits_eq_zero_iff.mp hzero
  . next hzero =>
    have hfind := (seg.page g m).findFreeBit_spec
      (dfMapBitCnt - (seg.page g m).freeBegin) (seg.page g m).freeBegin
    generalize (seg.page g m).findFreeBit (dfMapBitCnt - (seg.page g m).freeBegin)
      (seg.page g m).freeBegin = curr at *
    obtain ⟨hle, hset, hfound, hbound⟩ := hfind
    split
    . next hcurr =>
      -- the counter says that there is a free bit, so the search cannot fail
      refine absurd (hvalid.freeBits_eq_zero_iff.mpr ?_) hzero
      intro i hi
      by_cases hbegin : i < (seg.page g m).freeBegin
      . apply hvalid.lt_freeBegin i hbegin
      . apply hset i (by omega) (by omega)
    . next hcurr =>
      obtain ⟨res, hres, hspec⟩ := egAllocExtentFromMapInternal_spec h hg hm (by omega)
        (hfound (by omega)) hg hm hfullGroup hfullPage
      refine ⟨res, hres, .inr ?_⟩
      split at hspec
      . exact .inl hspec
      . next hend =>
        refine .inr ⟨curr, hspec, hg, hm, by omega, ?_, hfullPage, hfullGroup, Nat.not_lt.mp hend⟩
        intro i hi
        by_cases hbegin : i < (seg.page g m).freeBegin
        . apply hvalid.lt_freeBegin i hbegin
        . apply hset i (by omega) hi

theorem pages_spec (hg : g < seg.mapHead.groupCount)
    (hfullGroup : ∀ g' m', g' < g → m' < dfMapGroupSize → (seg.page g' m').Full)
    (todo m : Nat) (hm : m + todo = dfMapGroupSize)
    (hfullPage : ∀ m', m' < m → (seg.page g m').Full)
    : ∃ res, egTryAllocExtent.pages seg g todo m = .ok res
        ∧
      ((res = ⟨seg, none, 0⟩ ∧ ∀ m', m' < dfMapGroupSize → (seg.page g m').Full)
        ∨ seg.Extends res ∨ ∃ m b, seg.Hands res g m b ∧ seg.First g m b) := by
  induction todo generalizing m with
  | zero =>
    refine ⟨_, rfl, .inl ⟨rfl, ?_⟩⟩
    intro m' hm'
    apply hfullPage m' (by omega)
  | succ todo ih =>
    obtain ⟨res, hres, hspec⟩ :=
      egAllocExtentFromMap_spec h hfit hg (by omega) hfullGroup hfullPage
    simp only [egTryAllocExtent.pages, hres]
    obtain ⟨rfl, hfull⟩ | hextends | ⟨b, hhands⟩ := hspec
    . apply ih (m + 1) (by omega)
      intro m' hm'
      by_cases heq : m' = m
      . rw [heq]
        exact hfull
      . apply hfullPage m' (by omega)
    . refine ⟨res, ?_, .inr (.inl hextends)⟩
      simp only [bind, Except.bind, hextends.stops, if_true]
      rfl
    . refine ⟨res, ?_, .inr (.inr ⟨m, b, hhands⟩)⟩
      simp only [bind, Except.bind, hhands.1.stops, if_true]
      rfl

theorem groups_spec (todo g : Nat) (hg : g + todo = seg.mapHead.groupCount)
    (hfullGroup : ∀ g' m', g' < g → m' < dfMapGroupSize → (seg.page g' m').Full)
    : ∃ res, egTryAllocExtent.groups seg todo g = .ok res
        ∧
      ((res = ⟨seg, none, 0⟩ ∧ ∀ g' m', g' < seg.mapHead.groupCount → m' < dfMapGroupSize →
          (seg.page g' m').Full)
        ∨ seg.Extends res ∨ ∃ g m b, seg.Hands res g m b ∧ seg.First g m b) := by
  induction todo generalizing g with
  | zero =>
    refine ⟨_, rfl, .inl ⟨rfl, ?_⟩⟩
    intro g' m' hg'
    apply hfullGroup g' m' (by omega)
  | succ todo ih =>
    have hlt : g < seg.mapHead.groupCount := by omega
    have hfreePage := h.freePage_lt g hlt
    rw [← h.pageCount_eq g hlt] at hfreePage
    obtain ⟨res, hres, hspec⟩ := pages_spec h hfit hlt hfullGroup
      ((seg.mapHead.groups g).pageCount - (seg.mapHead.groups g).freePage)
      (seg.mapHead.groups g).freePage (by rw [← h.pageCount_eq g hlt]; omega)
      (h.full_of_lt_freePage g · hlt)
    simp only [egTryAllocExtent.groups, hfreePage, decide_true, segmentCheck_true, bind, Except.bind, hres]
    obtain ⟨rfl, hfull⟩ | hextends | ⟨m, b, hhands⟩ := hspec
    . apply ih (g + 1) (by omega)
      intro g' m' hg' hm'
      by_cases heq : g' = g
      . rw [heq]
        apply hfull m' hm'
      . apply hfullGroup g' m' (by omega) hm'
    . refine ⟨res, ?_, .inr (.inl hextends)⟩
      simp only [hextends.stops, if_true]
      rfl
    . refine ⟨res, ?_, .inr (.inr ⟨g, m, b, hhands⟩)⟩
      simp only [hhands.1.stops, if_true]
      rfl

theorem egTryAllocExtent_none_spec (hpos : 0 < seg.mapHead.groupCount)
    : ∃ res, seg.egTryAllocExtent none = .ok res
        ∧
      ((res.seg = seg ∧ res.result = none ∧ ∀ g' m', g' < seg.mapHead.groupCount →
          m' < dfMapGroupSize → (seg.page g' m').Full)
        ∨ seg.Extends res ∨ ∃ g m b, seg.Hands res g m b ∧ seg.First g m b) := by
  have hfree := h.freeGroup_lt hpos
  obtain ⟨res, hres, hspec⟩ := groups_spec h hfit
    (seg.mapHead.groupCount - seg.mapHead.freeGroup) seg.mapHead.freeGroup (by omega)
    h.full_of_lt_freeGroup
  simp only [egTryAllocExtent, hpos, hfree, decide_true, Bool.and_self, segmentCheck_true, bind,
    Except.bind, hres, gt_iff_lt]
  obtain ⟨rfl, hfull⟩ | hextends | ⟨g, m, b, hhands⟩ := hspec
  . simp only [AllocResult.stops, Option.isSome_none, Nat.lt_irrefl, decide_false, Bool.or_self,
      Bool.false_eq_true, if_false, egNextGroupStart, hpos, decide_true, segmentCheck_true, bind,
      Except.bind, pure, Except.pure, gt_iff_lt]
    split
    . exact ⟨_, rfl, .inl ⟨rfl, rfl, hfull⟩⟩
    . exact ⟨_, rfl, .inl ⟨rfl, rfl, hfull⟩⟩
  . refine ⟨res, ?_, .inr (.inl hextends)⟩
    simp only [hextends.stops, if_true]
    rfl
  . refine ⟨res, ?_, .inr (.inr ⟨g, m, b, hhands⟩)⟩
    simp only [hhands.1.stops, if_true]
    rfl

end Alloc

section Locate

variable {seg : SegExtentGroup}

section

variable (h : seg.Inv)
include h

section

variable (hfit : seg.GroupsFit)
include hfit

variable (hg : g < seg.mapHead.groupCount)
include hg

theorem Inv.pageStart_eq : pageStart (seg.mapHead.groups g) = dataStart seg.extentSize g := by
  rw [pageStart, h.firstMap_eq g hg, ← dataStart, u32_of_lt (hfit g hg)]

theorem Inv.pageEnd_eq : seg.pageEnd (seg.mapHead.groups g) = u32 (dataEnd seg.extentSize g) := by
  rw [pageEnd, h.pageStart_eq hfit hg, dataEnd]

theorem egLocateMapByPageid_extentStart (hm : m < dfMapGroupSize) (hb : b < dfMapBitCnt)
    (hend : extentStart seg.extentSize g m b < u32 (dataEnd seg.extentSize g))
    : seg.egLocateMapByPageid (extentStart seg.extentSize g m b) = ⟨seg.mapHead.groups g, m, b, g⟩ := by
  have hle := extentStart_le seg.extentSize (g := g) hm hb
  have hpos := extentStart_sub_div seg.extentSize (g := g) (m := m) hb
  have hgo : ∀ todo i result, i ≤ g → i + todo = seg.mapHead.groupCount →
      egLocateMapByPageid.go seg (extentStart seg.extentSize g m b) todo i result
        = ⟨seg.mapHead.groups g, m, b, g⟩ := by
    intro todo
    induction todo with
    | zero =>
      intro i result hi htodo
      omega
    | succ todo ih =>
      intro i result hi htodo
      have hilt : i < seg.mapHead.groupCount := by omega
      simp only [egLocateMapByPageid.go, h.pageStart_eq hfit hilt, h.pageEnd_eq hfit hilt,
        h.bitUnit_eq, Bool.and_eq_true, decide_eq_true_eq]
      by_cases heq : i = g
      . subst heq
        rw [if_pos ⟨hle.1, hend⟩, hpos.1, hpos.2]
      . have hlt : i < g := by omega
        have hbefore := dataEnd_le_groupStart seg.extentSize hlt
        have hwrap : u32 (dataEnd seg.extentSize i) ≤ dataEnd seg.extentSize i := Nat.mod_le _ _
        rw [if_neg (by simp only [dataStart] at *; omega)]
        apply ih (i + 1) _ (by omega) (by omega)
  apply hgo _ 0 _ (Nat.zero_le _) (Nat.zero_add _)

end

theorem Inv.firstMap_ne_zero (hg : g < seg.mapHead.groupCount)
    : ((seg.mapHead.groups g).firstMap == 0) = false := by
  rw [h.firstMap_eq g hg, beq_eq_false_iff_ne]
  simp only [groupStart, dfMapHeadPage_eq]
  omega

theorem egAllocPreassignedBlock_spec (hfit : seg.GroupsFit)
    (hg : g < seg.mapHead.groupCount) (hm : m < dfMapGroupSize) (hb : b < dfMapBitCnt)
    (hend : extentStart seg.extentSize g m b < u32 (dataEnd seg.extentSize g))
    (hfree : (seg.page g m).free b = true)
    : ∃ res, seg.egAllocPreassignedBlock (extentStart seg.extentSize g m b) = .ok res
        ∧
      (seg.Extends res
        ∨
      (seg.Takes res.seg g m b ∧ res.result = some (extentStart seg.extentSize g m b)
        ∧ res.targetFileSize = 0)) := by
  have hlt := h.freeGroup_lt (by omega)
  have hfp := h.freePage_lt _ hlt
  obtain ⟨res, hres, hspec⟩ := egAllocExtentFromMapInternal_spec h hg hm hb hfree hlt hfp
    h.full_of_lt_freeGroup (fun m' hm' => h.full_of_lt_freePage _ m' hlt hm')
  simp only [egAllocPreassignedBlock, egLocateMapByPageid_extentStart h hfit hg hm hb hend,
    mapLocationIsInvalid, h.firstMap_ne_zero hg, Nat.add_comm m, h.mapBlock_eq hfit hg hm]
  rw [← page, if_pos hfree, h.pageCount_eq _ hlt, h.pagenum_eq hg hm]
  simp only [hlt, hfp, decide_true, Bool.and_self, segmentCheck_true, bind, Except.bind, hres,
    Bool.false_eq_true, if_false]
  split
  . next hgt =>
    refine ⟨_, rfl, .inl ⟨rfl, rfl, ?_⟩⟩
    simp only
    omega
  . next hgt =>
    rw [if_neg hgt] at hspec
    exact ⟨_, rfl, .inr ⟨hspec.1, rfl, hspec.2.2⟩⟩

theorem egAllocPreassignedBlock_of_not_free (hfit : seg.GroupsFit)
    (hg : g < seg.mapHead.groupCount) (hm : m < dfMapGroupSize) (hb : b < dfMapBitCnt)
    (hend : extentStart seg.extentSize g m b < u32 (dataEnd seg.extentSize g))
    (hfree : (seg.page g m).free b = false)
    : seg.egAllocPreassignedBlock (extentStart seg.extentSize g m b)
        =
      .error (.alreadyInUse (extentStart seg.extentSize g m b)) := by
  simp only [egAllocPreassignedBlock, egLocateMapByPageid_extentStart h hfit hg hm hb hend,
    mapLocationIsInvalid, h.firstMap_ne_zero hg, Nat.add_comm m, h.mapBlock_eq hfit hg hm]
  rw [← page, hfree]
  rfl

end

structure Releases (seg seg' : SegExtentGroup) (g m b : Nat) : Prop where
  inv : seg'.Inv
  extentSize_eq : seg'.extentSize = seg.extentSize
  groupCount_eq : seg'.mapHead.groupCount = seg.mapHead.groupCount
  allocated_iff : ∀ g' m' b',
    seg'.Allocated g' m' b' ↔ seg.Allocated g' m' b' ∧ ¬ (g' = g ∧ m' = m ∧ b' = b)

theorem inv_egFreeExtent_update (h : seg.Inv) {mapPage : MapPage}
    (hg : g < seg.mapHead.groupCount) (hm : m < dfMapGroupSize) (hb : b < dfMapBitCnt)
    (hset : (seg.page g m).egUnsetBitmapPage b = .ok mapPage)
    : (egFreeExtent.update seg ⟨seg.mapHead.groups g, m, b, g⟩ (groupStart seg.extentSize g + m)
        mapPage).Inv := by
  obtain ⟨hvalid, hbit, hbitmap, hfirst⟩ := (h.page_valid g m hg hm).egUnsetBitmapPage hb hset
  generalize hseg' : egFreeExtent.update seg ⟨seg.mapHead.groups g, m, b, g⟩
    (groupStart seg.extentSize g + m) mapPage = seg'
  have hsize : seg'.extentSize = seg.extentSize := by simp [← hseg', egFreeExtent.update]
  have hpages : seg'.mapPages
      = Function.update seg.mapPages (groupStart seg.extentSize g + m) mapPage := by
    simp [← hseg', egFreeExtent.update]
  have hpage : ∀ g' m', m' < dfMapGroupSize →
      seg'.page g' m' = if g' = g ∧ m' = m then mapPage else seg.page g' m' := by
    intro g' m' hm'
    apply page_update hsize hpages hm hm'
  -- only the page that was changed can lose its last set bit
  have hfull : ∀ g' m', m' < dfMapGroupSize → ¬ (g' = g ∧ m' = m) → (seg.page g' m').Full →
      (seg'.page g' m').Full := by
    intro g' m' hm' hne hfull
    rw [hpage g' m' hm', if_neg hne]
    exact hfull
  have hcount : seg'.mapHead.groupCount = seg.mapHead.groupCount := by
    simp [← hseg', egFreeExtent.update, MapHead.setFreePage]
  have hfreeGroup : seg'.mapHead.freeGroup = min seg.mapHead.freeGroup g := by
    simp only [← hseg', egFreeExtent.update, MapHead.setFreePage]
    split <;> omega
  have hgroups : ∀ g', seg'.mapHead.groups g' = { seg.mapHead.groups g' with
      freePage := if g' = g then min (seg.mapHead.groups g).freePage m
        else (seg.mapHead.groups g').freePage } := by
    intro g'
    simp only [← hseg', egFreeExtent.update, MapHead.setFreePage, update_apply]
    split
    . next heq =>
      subst heq
      congr 1
      split <;> omega
    . rfl
  constructor
  . rw [hsize, ← h.bitUnit_eq]
    simp [← hseg', egFreeExtent.update, MapHead.setFreePage]
  . intro g' hg'
    rw [hcount] at hg'
    rw [hgroups, hsize, ← h.firstMap_eq g' hg']
  . intro g' hg'
    rw [hcount] at hg'
    rw [hgroups, ← h.pageCount_eq g' hg']
  . intro g' m' hg' hm'
    rw [hcount] at hg'
    rw [hpage g' m' hm', hsize]
    split
    . next heq => rw [hfirst, heq.1, heq.2, h.firstPage_eq g m hg hm]
    . apply h.firstPage_eq g' m' hg' hm'
  . intro g' m' hg' hm'
    rw [hcount] at hg'
    rw [hpage g' m' hm']
    split
    . apply hvalid
    . apply h.page_valid g' m' hg' hm'
  . intro g' hg'
    rw [hcount] at hg'
    have hlt := h.freePage_lt g' hg'
    rw [hgroups]
    simp only
    split <;> omega
  . intro _
    omega
  . intro hzero
    omega
  . intro g' m' hg' hm'
    rw [hcount] at hg'
    rw [hgroups] at hm'
    have hlt := h.freePage_lt g' hg'
    simp only at hm'
    split at hm'
    . next heq =>
      subst heq
      apply hfull g' m' (by omega) (by omega)
      apply h.full_of_lt_freePage g' m' hg' (by omega)
    . next hne =>
      apply hfull g' m' (by omega) (by omega)
      apply h.full_of_lt_freePage g' m' hg' (by omega)
  . intro g' m' hg' hm'
    apply hfull g' m' hm' (by omega)
    apply h.full_of_lt_freeGroup g' m' (by omega) hm'
  . have hones := ones_update_false _ b dfMapBitCnt hb hbit
    rw [← hbitmap] at hones
    have hold : ∀ g' m', m' < dfMapGroupSize →
        seg.page g' m' = if g' = g ∧ m' = m then seg.page g m else seg'.page g' m' := by
      intro g' m' hm'
      rw [hpage g' m' hm']
      split
      . next heq => rw [heq.1, heq.2]
      . rfl
    have hnew : seg'.page g m = mapPage := by
      rw [hpage g m hm, if_pos ⟨rfl, rfl⟩]
    have hsum := setBits_update hcount.symm (hcount ▸ hg) hm hold (by rw [hnew, hones])
    have hallocated : seg'.mapHead.allocatedExtents = seg.mapHead.allocatedExtents - 1 := by
      simp [← hseg', egFreeExtent.update, MapHead.setFreePage]
    rw [hallocated, h.allocatedExtents_eq, hsum, Nat.add_sub_cancel]

theorem egFreeExtent_spec (h : seg.Inv) (hfit : seg.GroupsFit) (halloc : seg.Allocated g m b)
    (hend : extentStart seg.extentSize g m b < u32 (dataEnd seg.extentSize g))
    : ∃ seg', seg.egFreeExtent (extentStart seg.extentSize g m b) = .ok seg'
        ∧ seg.Releases seg' g m b := by
  obtain ⟨hg, hm, hb, hbit⟩ := halloc
  have hfree : (seg.page g m).free b = false := by simp [MapPage.free, hbit]
  have hset := MapPage.egUnsetBitmapPage_eq hfree
  obtain ⟨-, -, hbitmap, -⟩ := (h.page_valid g m hg hm).egUnsetBitmapPage hb hset
  simp only [egFreeExtent, egLocateMapByPageid_extentStart h hfit hg hm hb hend,
    mapLocationIsInvalid, h.firstMap_ne_zero hg, Nat.add_comm m, h.mapBlock_eq hfit hg hm,
    Bool.false_eq_true, if_false]
  rw [← page, hset]
  refine ⟨_, rfl, ?_⟩
  constructor
  . apply inv_egFreeExtent_update h hg hm hb hset
  . rfl
  . rfl
  . intro g' m' b'
    rw [allocated_update false _ hg hm hb _ hbitmap]
    . split
      . next heq => simp [heq]
      . next hne => simp [hne]
    . rfl
    . intro g' m' hm'
      apply page_update _ _ hm hm'
      . rfl
      . rfl

end Locate

section AddMapGroup

variable {seg : SegExtentGroup}

theorem egAddMapGroup_init_spec (todo pageno dataStart : Nat) (seg : SegExtentGroup)
    (hpageno : pageno + todo < 2 ^ 32) (hdata : dataStart < 2 ^ 32)
    : let seg' := egAddMapGroup.init seg todo pageno dataStart
      seg'.mapHead = seg.mapHead ∧ seg'.extentSize = seg.extentSize ∧
      ∀ block, seg'.mapPages block
        =
      if pageno ≤ block ∧ block < pageno + todo then
        egInitBitmapPageContent (u32 (dataStart + (block - pageno) * (dfMapBitCnt * seg.extentSize.toNat)))
      else
        seg.mapPages block := by
  induction todo generalizing seg pageno dataStart with
  | zero =>
    refine ⟨rfl, rfl, ?_⟩
    intro block
    rw [if_neg (by omega)]
    rfl
  | succ todo ih =>
    simp only [egAddMapGroup.init]
    rw [u32_of_lt (by omega)]
    obtain ⟨hhead, hsize, hpages⟩ := ih (pageno + 1) _ _ (by omega) (u32_lt _)
    refine ⟨hhead, hsize, ?_⟩
    intro block
    rw [hpages block]
    simp only
    by_cases heq : block = pageno
    . subst heq
      rw [if_neg (by omega), if_pos (by omega), update_self, Nat.sub_self, Nat.zero_mul,
        Nat.add_zero, u32_of_lt hdata]
    . by_cases hin : pageno ≤ block ∧ block < pageno + (todo + 1)
      . have hsub : block - pageno = block - (pageno + 1) + 1 := by omega
        rw [if_pos (by omega), if_pos hin, hsub, Nat.add_mul, Nat.one_mul]
        congr 1
        simp only [u32, Nat.mod_add_mod]
        congr 1
        omega
      . rw [if_neg (by omega), if_neg hin, update_of_ne heq]

structure Grows (seg seg' : SegExtentGroup) : Prop where
  inv : seg'.Inv
  extentSize_eq : seg'.extentSize = seg.extentSize
  groupCount_eq : seg'.mapHead.groupCount = seg.mapHead.groupCount + 1
  allocated_iff : ∀ g m b, seg'.Allocated g m b ↔ seg.Allocated g m b

-- What the new group changes: the entry behind the last one, and the map pages of that entry.
structure Appended (seg seg' : SegExtentGroup) : Prop where
  extentSize_eq : seg'.extentSize = seg.extentSize
  bitUnit_eq : seg'.mapHead.bitUnit = seg.mapHead.bitUnit
  groupCount_eq : seg'.mapHead.groupCount = seg.mapHead.groupCount + 1
  freeGroup_eq : seg'.mapHead.freeGroup = seg.mapHead.freeGroup
  allocatedExtents_eq : seg'.mapHead.allocatedExtents = seg.mapHead.allocatedExtents
  groups_eq : ∀ g, seg'.mapHead.groups g =
    if g = seg.mapHead.groupCount then
      ⟨groupStart seg.extentSize seg.mapHead.groupCount, 0, dfMapGroupSize⟩
    else
      seg.mapHead.groups g
  page_eq : ∀ g m, m < dfMapGroupSize → seg'.page g m =
    if g = seg.mapHead.groupCount then
      egInitBitmapPageContent (u32 (extentStart seg.extentSize g m 0))
    else
      seg.page g m

namespace Appended

variable {seg' : SegExtentGroup} (happended : seg.Appended seg')
include happended

theorem page_of_lt {g m : Nat} (hg : g < seg.mapHead.groupCount) (hm : m < dfMapGroupSize)
    : seg'.page g m = seg.page g m := by
  rw [happended.page_eq g m hm, if_neg (by omega)]

theorem setBits_eq : seg'.setBits = seg.setBits := by
  have hnew : (∑ m ∈ Finset.range dfMapGroupSize,
      ones (seg'.page seg.mapHead.groupCount m).bitmap dfMapBitCnt) = 0 := by
    apply sum_eq_zero
    intro m hm
    rw [happended.page_eq _ m (mem_range.mp hm), if_pos rfl]
    apply ones_empty
  rw [setBits, setBits, happended.groupCount_eq, sum_range_succ, hnew, Nat.add_zero]
  apply sum_congr rfl
  intro g hg
  apply sum_congr rfl
  intro m hm
  rw [happended.page_of_lt (mem_range.mp hg) (mem_range.mp hm)]

theorem freeGroup_le (h : seg.Inv) : seg'.mapHead.freeGroup ≤ seg.mapHead.groupCount := by
  rw [happended.freeGroup_eq]
  by_cases hzero : seg.mapHead.groupCount = 0
  . rw [h.freeGroup_zero hzero]
    omega
  . have := h.freeGroup_lt (by omega)
    omega

theorem inv (h : seg.Inv) : seg'.Inv := by
  have hcount := happended.groupCount_eq
  have hsize := happended.extentSize_eq
  have hpage := happended.page_eq
  constructor
  . rw [hsize, happended.bitUnit_eq, h.bitUnit_eq]
  . intro g hg
    rw [happended.groups_eq, hsize]
    split
    . next heq => rw [heq]
    . apply h.firstMap_eq g (by omega)
  . intro g hg
    rw [happended.groups_eq]
    split
    . rfl
    . apply h.pageCount_eq g (by omega)
  . intro g m hg hm
    rw [hpage g m hm, hsize]
    split
    . rfl
    . apply h.firstPage_eq g m (by omega) hm
  . intro g m hg hm
    rw [hpage g m hm]
    split
    . apply MapPage.valid_init
    . apply h.page_valid g m (by omega) hm
  . intro g hg
    rw [happended.groups_eq]
    split
    . simp [dfMapGroupSize_eq]
    . apply h.freePage_lt g (by omega)
  . intro _
    have := happended.freeGroup_le h
    omega
  . intro hzero
    omega
  . intro g m hg hm
    rw [happended.groups_eq] at hm
    split at hm
    . simp at hm
    . have hlt := h.freePage_lt g (by omega)
      rw [happended.page_of_lt (by omega) (by omega)]
      apply h.full_of_lt_freePage g m (by omega) hm
  . intro g m hg hm
    have hle := happended.freeGroup_le h
    rw [happended.page_of_lt (by omega) hm]
    apply h.full_of_lt_freeGroup g m _ hm
    rwa [← happended.freeGroup_eq]
  . rw [happended.allocatedExtents_eq, h.allocatedExtents_eq, happended.setBits_eq]

theorem allocated_iff (g m b : Nat) : seg'.Allocated g m b ↔ seg.Allocated g m b := by
  have hcount := happended.groupCount_eq
  constructor
  . intro halloc
    obtain ⟨hg, hm, hb, hbit⟩ := halloc
    rw [happended.page_eq g m hm] at hbit
    split at hbit
    . simp [egInitBitmapPageContent] at hbit
    . exact ⟨by omega, hm, hb, hbit⟩
  . intro halloc
    obtain ⟨hg, hm, hb, hbit⟩ := halloc
    refine ⟨by omega, hm, hb, ?_⟩
    rw [happended.page_of_lt hg hm]
    exact hbit

end Appended

theorem egAddMapGroup_appended
    (hfit : dataStart seg.extentSize seg.mapHead.groupCount < 2 ^ 32)
    : ∃ seg', seg.egAddMapGroup (groupStart seg.extentSize seg.mapHead.groupCount) dfMapGroupSize
          seg.mapHead.groupCount = .ok seg'
        ∧ seg.Appended seg' := by
  have hstart : groupStart seg.extentSize seg.mapHead.groupCount + dfMapGroupSize < 2 ^ 32 := by
    simp only [dataStart] at hfit
    omega
  obtain ⟨hhead, hsize, hpages⟩ := egAddMapGroup_init_spec dfMapGroupSize
    (groupStart seg.extentSize seg.mapHead.groupCount)
    (dataStart seg.extentSize seg.mapHead.groupCount) seg hstart hfit
  simp only [egAddMapGroup, Nat.lt_irrefl, if_false, beq_self_eq_true, segmentCheck_true, bind, Except.bind]
  rw [← dataStart, u32_of_lt hfit]
  generalize egAddMapGroup.init seg dfMapGroupSize (groupStart seg.extentSize seg.mapHead.groupCount)
    (dataStart seg.extentSize seg.mapHead.groupCount) = seg1 at *
  refine ⟨_, rfl, ?_⟩
  constructor
  . exact hsize
  . rw [← hhead]
  . rw [← hhead]
  . rw [← hhead]
  . rw [← hhead]
  . intro g
    simp only [hhead, update_apply]
  . intro g m hm
    simp only [page, hpages, hsize]
    split
    . next hin =>
      have hlast : groupStart seg.extentSize g + m
            - groupStart seg.extentSize seg.mapHead.groupCount < dfMapGroupSize := by
        omega
      have hblock : groupStart seg.extentSize g + m
          = groupStart seg.extentSize seg.mapHead.groupCount + (groupStart seg.extentSize g + m
              - groupStart seg.extentSize seg.mapHead.groupCount) := by
        omega
      have hinj := mapPage_inj seg.extentSize hm hlast hblock
      rw [if_pos hinj.1, ← hinj.2, hinj.1, extentStart, Nat.add_zero, Nat.mul_assoc]
    . next hout => rw [if_neg (by rintro rfl; omega)]

theorem egAddMapGroup_spec (h : seg.Inv) (hfit : dataStart seg.extentSize seg.mapHead.groupCount < 2 ^ 32)
    : ∃ seg', seg.egAddMapGroup (groupStart seg.extentSize seg.mapHead.groupCount) dfMapGroupSize
          seg.mapHead.groupCount = .ok seg'
        ∧ seg.Grows seg' := by
  obtain ⟨seg', hadd, happended⟩ := egAddMapGroup_appended hfit
  exact ⟨seg', hadd, happended.inv h, happended.extentSize_eq, happended.groupCount_eq,
    happended.allocated_iff⟩

theorem egNextGroupStart_spec (h : seg.Inv) (hpos : 0 < seg.mapHead.groupCount)
    : seg.egNextGroupStart = .ok (u32 (groupStart seg.extentSize seg.mapHead.groupCount)) := by
  have hlast : seg.mapHead.groupCount - 1 < seg.mapHead.groupCount := by omega
  have hend := dataEnd_eq_groupStart seg.extentSize (seg.mapHead.groupCount - 1)
  rw [show seg.mapHead.groupCount - 1 + 1 = seg.mapHead.groupCount by omega] at hend
  simp only [egNextGroupStart, hpos, decide_true, segmentCheck_true, bind, Except.bind,
    h.firstMap_eq _ hlast, h.pageCount_eq _ hlast, h.bitUnit_eq, pure, Except.pure]
  rw [← hend, dataEnd, dataStart]

end AddMapGroup

section AllocExtent

variable {seg : SegExtentGroup}

theorem GroupsFit.of_le (h : seg'.GroupsFit) (hsize : seg'.extentSize = seg.extentSize)
    (hcount : seg.mapHead.groupCount ≤ seg'.mapHead.groupCount) : seg.GroupsFit := by
  intro g hg
  rw [← hsize]
  apply h g (by omega)

def Locatable (size : ExtentSize) (groupCount block : Nat) : Prop :=
  ∃ g m b, g < groupCount ∧ m < dfMapGroupSize ∧ b < dfMapBitCnt
    ∧ block = extentStart size g m b ∧ block < u32 (dataEnd size g)

/--
A block number is handed out for an extent that was free, and no other extent changes.
-/
def Obtains (seg seg' : SegExtentGroup) (block : Nat) : Prop :=
  ∃ g m b, block = u32 (extentStart seg.extentSize g m b) ∧ ¬ seg.Allocated g m b
    ∧ ∀ g' m' b',
      seg'.Allocated g' m' b' ↔ seg.Allocated g' m' b' ∨ (g' = g ∧ m' = m ∧ b' = b)

theorem egTryAllocExtent_spec (h : seg.Inv) (hfit : seg.GroupsFit) (hpos : 0 < seg.mapHead.groupCount)
    (hpre : ∀ block, pre = some block → Locatable seg.extentSize seg.mapHead.groupCount block)
    (hres : seg.egTryAllocExtent pre = .ok res)
    : (res.seg = seg ∧ res.result = none)
        ∨
      (res.seg.Inv ∧ ∃ block, res.result = some block ∧ seg.Obtains res.seg block) := by
  cases pre with
  | none =>
    obtain ⟨res', hres', hspec⟩ := egTryAllocExtent_none_spec h hfit hpos
    rw [hres] at hres'
    injection hres' with hres'
    subst hres'
    obtain ⟨hseg, hnone, _⟩ | hextends | ⟨g, m, b, ⟨htakes, hsome, _⟩, _⟩ := hspec
    . exact .inl ⟨hseg, hnone⟩
    . exact .inl ⟨hextends.1, hextends.2.1⟩
    . exact .inr ⟨htakes.inv, _, hsome, g, m, b, rfl, htakes.fresh, htakes.allocated_iff⟩
  | some block =>
    obtain ⟨g, m, b, hg, hm, hb, rfl, hend⟩ := hpre block rfl
    have hfree := h.freeGroup_lt hpos
    simp only [egTryAllocExtent, hpos, hfree, decide_true, Bool.and_self, segmentCheck_true, bind,
      Except.bind] at hres
    cases hbit : (seg.page g m).free b with
    | false =>
      rw [egAllocPreassignedBlock_of_not_free h hfit hg hm hb hend hbit] at hres
      contradiction
    | true =>
      obtain ⟨res', hres', hspec⟩ := egAllocPreassignedBlock_spec h hfit hg hm hb hend hbit
      rw [hres] at hres'
      injection hres' with hres'
      subst hres'
      obtain hextends | ⟨htakes, hsome, _⟩ := hspec
      . exact .inl ⟨hextends.1, hextends.2.1⟩
      . refine .inr ⟨htakes.inv, _, hsome, g, m, b, ?_, htakes.fresh, htakes.allocated_iff⟩
        rw [u32_of_lt]
        have := u32_lt (dataEnd seg.extentSize g)
        omega

theorem Inv.of_totalBlocks (h : seg.Inv) (blocks : Nat)
    : ({ seg with totalBlocks := blocks } : SegExtentGroup).Inv := by
  constructor
  . apply h.bitUnit_eq
  . apply h.firstMap_eq
  . apply h.pageCount_eq
  . apply h.firstPage_eq
  . apply h.page_valid
  . apply h.freePage_lt
  . apply h.freeGroup_lt
  . apply h.freeGroup_zero
  . apply h.full_of_lt_freePage
  . apply h.full_of_lt_freeGroup
  . apply h.allocatedExtents_eq

def Result (seg seg' : SegExtentGroup) (res : Option Nat) : Prop :=
  match res with
  | none => ∀ g m b, seg'.Allocated g m b ↔ seg.Allocated g m b
  | some block => seg.Obtains seg' block

theorem Result.of_allocated_iff {seg1 : SegExtentGroup} (h : seg1.Result seg' res)
    (hsize : seg1.extentSize = seg.extentSize)
    (hiff : ∀ g m b, seg1.Allocated g m b ↔ seg.Allocated g m b) : seg.Result seg' res := by
  cases res with
  | none =>
    intro g m b
    rw [h g m b, hiff g m b]
  | some block =>
    obtain ⟨g, m, b, hblock, hfresh, hallocated⟩ := h
    simp only [hiff, hsize] at hblock hfresh hallocated
    exact ⟨g, m, b, hblock, hfresh, hallocated⟩

variable {size : ExtentSize}

theorem Locatable.of_le (h : Locatable size groupCount block) (hle : groupCount ≤ groupCount')
    : Locatable size groupCount' block := by
  obtain ⟨g, m, b, hg, hrest⟩ := h
  exact ⟨g, m, b, by omega, hrest⟩

theorem egAllocExtent_spec_of_pos (fuel : Nat) (seg seg' : SegExtentGroup) (h : seg.Inv)
    (hpos : 0 < seg.mapHead.groupCount)
    (hpre : ∀ block, pre = some block → Locatable seg.extentSize seg.mapHead.groupCount block)
    (hres : seg.egAllocExtent limit pre fuel = .ok (seg', res)) (hfit : seg'.GroupsFit)
    : seg'.Inv ∧ seg.Result seg' res := by
  induction fuel generalizing seg with
  | zero =>
    obtain ⟨rfl, rfl⟩ := hres
    exact ⟨h, fun _ _ _ => Iff.rfl⟩
  | succ fuel ih =>
    have hle := (allocs_egAllocExtent _ _ hres).groupCount_le
    have hfit1 : seg.GroupsFit := hfit.of_le hle.2 hle.1
    have hfirst : egAllocExtent.firstGroup seg = .ok seg := by
      rw [egAllocExtent.firstGroup, if_neg (by omega)]
    simp only [egAllocExtent, hfirst] at hres
    simp only [Except.bind_eq_ok] at hres
    obtain ⟨_, hseg, res1, hres1, hres⟩ := hres
    injection hseg with hseg
    subst hseg
    obtain ⟨hsame, hnone⟩ | ⟨hinv, block, hsome, hobtains⟩ :=
      egTryAllocExtent_spec h hfit1 hpos hpre hres1
    . simp only [hsame, hnone, Option.isSome_none, Bool.false_eq_true, if_false] at hres
      split at hres
      . rw [Except.bind_eq_ok] at hres
        obtain ⟨extended, hextend, hres⟩ := hres
        simp only [egExtendDf, Except.bind_eq_ok] at hextend
        obtain ⟨_, _, hextend⟩ := hextend
        split at hextend
        . split at hextend
          . injection hextend with hextend
            subst hextend
            obtain ⟨rfl, rfl⟩ := hres
            exact ⟨h, fun _ _ _ => Iff.rfl⟩
          . injection hextend with hextend
            subst hextend
            have hih := ih _ (h.of_totalBlocks (alignBlocks res1.targetFileSize)) hpos hpre hres
            exact ⟨hih.1, hih.2.of_allocated_iff rfl (fun _ _ _ => Iff.rfl)⟩
        . injection hextend with hextend
          subst hextend
          apply ih seg h hpos hpre hres
      . simp only [Except.bind_eq_ok] at hres
        obtain ⟨start, hstart, seg2, hseg2, hres⟩ := hres
        have hle2 := (allocs_egAllocExtent _ _ hres).groupCount_le
        have hcount2 := egAddMapGroup_groupCount hseg2
        -- the new group is still there at the end, so its pages have numbers
        have hfit2 : dataStart seg.extentSize seg.mapHead.groupCount < 2 ^ 32 := by
          have := hfit seg.mapHead.groupCount (by simp only at hle2; omega)
          rwa [hle.2] at this
        rw [egNextGroupStart_spec h hpos, u32_of_lt (by simp only [dataStart] at hfit2; omega)] at hstart
        injection hstart with hstart
        subst hstart
        obtain ⟨seg2', hseg2', hgrows⟩ := egAddMapGroup_spec h hfit2
        rw [hseg2] at hseg2'
        injection hseg2' with hseg2'
        subst hseg2'
        have hih := ih seg2 hgrows.inv (by omega) (by
            intro block hblock
            rw [hgrows.extentSize_eq]
            apply (hpre block hblock).of_le (by omega))
          hres
        exact ⟨hih.1, hih.2.of_allocated_iff hgrows.extentSize_eq hgrows.allocated_iff⟩
    . simp only [hsome, Option.isSome_some, if_true, pure, Except.pure, Except.ok.injEq,
        Prod.mk.injEq] at hres
      obtain ⟨rfl, rfl⟩ := hres
      exact ⟨hinv, hobtains⟩

theorem firstGroup_spec (h : seg.Inv) : ∃ seg1, egAllocExtent.firstGroup seg = .ok seg1 ∧ seg1.Inv
      ∧ seg1.extentSize = seg.extentSize
      ∧ seg1.mapHead.groupCount = max 1 seg.mapHead.groupCount
      ∧ ∀ g m b, seg1.Allocated g m b ↔ seg.Allocated g m b := by
  rw [egAllocExtent.firstGroup]
  split
  . next hzero =>
    have hfit : dataStart seg.extentSize seg.mapHead.groupCount < 2 ^ 32 := by
      rw [hzero]
      cases seg.extentSize <;> decide
    obtain ⟨seg1, hseg1, hgrows⟩ := egAddMapGroup_spec h hfit
    rw [hzero] at hseg1
    have hstart : groupStart seg.extentSize 0 = dfMapHeadPage + 1 := by
      simp [groupStart]
    rw [hstart] at hseg1
    have hcount := hgrows.groupCount_eq
    exact ⟨seg1, hseg1, hgrows.inv, hgrows.extentSize_eq, by omega, hgrows.allocated_iff⟩
  . next hzero => exact ⟨seg, rfl, h, rfl, by omega, fun _ _ _ => Iff.rfl⟩

theorem egAllocExtent_spec (fuel : Nat) (seg seg' : SegExtentGroup) (h : seg.Inv)
    (hpre : ∀ block, pre = some block → Locatable seg.extentSize (max 1 seg.mapHead.groupCount) block)
    (hres : seg.egAllocExtent limit pre fuel = .ok (seg', res)) (hfit : seg'.GroupsFit)
    : seg'.Inv ∧ seg.Result seg' res := by
  cases fuel with
  | zero =>
    obtain ⟨rfl, rfl⟩ := hres
    exact ⟨h, fun _ _ _ => Iff.rfl⟩
  | succ fuel =>
    obtain ⟨seg1, hseg1, hinv1, hsize1, hcount1, hiff1⟩ := firstGroup_spec h
    have hres1 : seg1.egAllocExtent limit pre (fuel + 1) = .ok (seg', res) := by
      rw [← hres, egAllocExtent, egAllocExtent, hseg1, egAllocExtent.firstGroup,
        if_neg (by omega)]
    have hspec := egAllocExtent_spec_of_pos _ seg1 seg' hinv1 (by omega)
      (by rw [hsize1, hcount1]; exact hpre) hres1 hfit
    exact ⟨hspec.1, hspec.2.of_allocated_iff hsize1 hiff1⟩

end AllocExtent

end SegExtentGroup

import OpenGauss.Segment.ExtentGroup.Impl

/-!
This module contains where the map groups and the extents of an extent group lie in the data file,
and the steps of its operations.
-/

open Except

namespace Layout

variable (size : ExtentSize)

def groupBlocks : Nat := dfMapGroupSize + ipblockGroupSize + dfMapGroupExtents * size.toNat

def groupStart (g : Nat) : Nat := dfMapHeadPage + 1 + g * groupBlocks size

def dataStart (g : Nat) : Nat := groupStart size g + dfMapGroupSize + ipblockGroupSize

def dataEnd (g : Nat) : Nat := dataStart size g + dfMapGroupExtents * size.toNat

def extentStart (g m b : Nat) : Nat := dataStart size g + (m * dfMapBitCnt + b) * size.toNat

theorem dfMapBitCnt_eq : dfMapBitCnt = 65248 := by
  decide

theorem dfMapGroupSize_eq : dfMapGroupSize = 64 := by
  decide

theorem ipblockGroupSize_eq : ipblockGroupSize = 4090 := by
  decide

theorem dfMapGroupExtents_eq : dfMapGroupExtents = 4175872 := by
  decide

theorem dfMapHeadPage_eq : dfMapHeadPage = 2 := by
  decide

theorem dataEnd_eq_groupStart (g : Nat) : dataEnd size g = groupStart size (g + 1) := by
  simp only [dataEnd, dataStart, groupStart, groupBlocks, Nat.add_mul]
  omega

theorem groupStart_mono (h : g ≤ g') : groupStart size g ≤ groupStart size g' := by
  have := Nat.mul_le_mul_right (groupBlocks size) h
  simp only [groupStart]
  omega

theorem dataEnd_le_groupStart (h : g < g') : dataEnd size g ≤ groupStart size g' := by
  rw [dataEnd_eq_groupStart]
  apply groupStart_mono size h

theorem extentStart_le (hm : m < dfMapGroupSize) (hb : b < dfMapBitCnt)
    : dataStart size g ≤ extentStart size g m b
        ∧
      extentStart size g m b + size.toNat ≤ dataEnd size g := by
  constructor
  . simp only [extentStart]
    omega
  . have hle : m * dfMapBitCnt + b + 1 ≤ dfMapGroupExtents := by
      simp only [dfMapBitCnt_eq, dfMapGroupSize_eq, dfMapGroupExtents_eq] at *
      omega
    have hmul := Nat.mul_le_mul_right size.toNat hle
    simp only [extentStart, dataEnd, Nat.add_mul] at *
    omega

theorem mapPage_inj (hm : m < dfMapGroupSize) (hm' : m' < dfMapGroupSize)
    (h : groupStart size g + m = groupStart size g' + m') : g = g' ∧ m = m' := by
  have hlt : ∀ {g g' m m' : Nat}, m < dfMapGroupSize →
      groupStart size g + m = groupStart size g' + m' → ¬ g < g' := by
    intro g g' m m' hm h hlt
    have hend := dataEnd_le_groupStart size hlt
    simp only [dataEnd, dataStart] at hend
    omega
  have hg : g = g' := by
    have h1 := hlt hm h
    have h2 := hlt hm' h.symm
    omega
  subst hg
  omega

theorem size_pos : 0 < size.toNat := by
  cases size <;> decide

theorem extentStart_disjoint (hm : m < dfMapGroupSize) (hb : b < dfMapBitCnt)
    (hm' : m' < dfMapGroupSize) (hb' : b' < dfMapBitCnt)
    (h : ¬ (g = g' ∧ m = m' ∧ b = b'))
    : extentStart size g m b + size.toNat ≤ extentStart size g' m' b'
        ∨
      extentStart size g' m' b' + size.toNat ≤ extentStart size g m b := by
  have hle := extentStart_le size (g := g) hm hb
  have hle' := extentStart_le size (g := g') hm' hb'
  obtain hlt | heq | hgt := Nat.lt_trichotomy g g'
  . have hend := dataEnd_le_groupStart size hlt
    simp only [dataStart] at *
    omega
  . subst heq
    have hne : m * dfMapBitCnt + b ≠ m' * dfMapBitCnt + b' := by
      simp only [true_and, dfMapBitCnt_eq] at *
      omega
    have hmul : ∀ {n n' : Nat}, n < n' → n * size.toNat + size.toNat ≤ n' * size.toNat := by
      intro n n' hlt
      have := Nat.mul_le_mul_right size.toNat hlt
      rwa [Nat.succ_mul] at this
    simp only [extentStart]
    obtain hlt | hgt := Nat.lt_or_gt_of_ne hne
    . have := hmul hlt
      omega
    . have := hmul hgt
      omega
  . have hend := dataEnd_le_groupStart size hgt
    simp only [dataStart] at *
    omega

theorem extentStart_inj (hm : m < dfMapGroupSize) (hb : b < dfMapBitCnt)
    (hm' : m' < dfMapGroupSize) (hb' : b' < dfMapBitCnt)
    (h : extentStart size g m b = extentStart size g' m' b') : g = g' ∧ m = m' ∧ b = b' := by
  by_contra hne
  have hpos := size_pos size
  have := extentStart_disjoint size hm hb hm' hb' hne
  omega

theorem extentStart_sub_div (hb : b < dfMapBitCnt)
    : (extentStart size g m b - dataStart size g) / size.toNat / dfMapBitCnt = m
        ∧
      (extentStart size g m b - dataStart size g) / size.toNat % dfMapBitCnt = b := by
  have hpos := size_pos size
  have hdiv : (extentStart size g m b - dataStart size g) / size.toNat = m * dfMapBitCnt + b := by
    rw [extentStart, Nat.add_sub_cancel_left, Nat.mul_div_cancel _ hpos]
  rw [hdiv]
  simp only [dfMapBitCnt_eq] at *
  omega

end Layout

theorem Except.bind_eq_ok {x : Except ε α} {f : α → Except ε β}
    : (x >>= f) = .ok b ↔ ∃ a, x = .ok a ∧ f a = .ok b := by
  cases x with
  | error e => simp [bind, Except.bind]
  | ok a => simp [bind, Except.bind]

theorem Except.map_eq_ok {x : Except ε α} {f : α → β} : x.map f = .ok b ↔ ∃ a, x = .ok a ∧ f a = b := by
  cases x with
  | error e => simp [Except.map]
  | ok a => simp [Except.map]

namespace SegExtentGroup

def Marks (seg seg' : SegExtentGroup) : Prop :=
  ∃ block bitid pageend mapGroup freePage mapPage,
    (seg.mapPages block).egSetBitmapPage bitid = .ok mapPage
      ∧ seg' = egAllocExtentFromMapInternal.update seg block mapPage bitid pageend mapGroup freePage

def Tries (seg : SegExtentGroup) (res : AllocResult) : Prop :=
  (res.seg = seg ∧ res.result = none) ∨ (seg.Marks res.seg ∧ res.result.isSome = true)

theorem tries_egAllocExtentFromMapInternal
    (h : egAllocExtentFromMapInternal seg block bitid mapGroup freePage = .ok res)
    : seg.Tries res := by
  simp only [egAllocExtentFromMapInternal] at h
  split at h
  . injection h with h
    subst h
    exact .inl ⟨rfl, rfl⟩
  . rw [bind_eq_ok] at h
    obtain ⟨mapPage, hset, h⟩ := h
    injection h with h
    subst h
    exact .inr ⟨⟨_, _, _, _, _, _, hset, rfl⟩, rfl⟩

theorem tries_egAllocExtentFromMap
    (h : egAllocExtentFromMap seg mapPageId mapGroup freePage = .ok res) : seg.Tries res := by
  simp only [egAllocExtentFromMap] at h
  split at h
  . injection h with h
    subst h
    exact .inl ⟨rfl, rfl⟩
  . split at h
    . injection h with h
      subst h
      exact .inl ⟨rfl, rfl⟩
    . apply tries_egAllocExtentFromMapInternal h

theorem Tries.of_not_stops (h : Tries seg res) (hstops : res.stops = false)
    : res.seg = seg ∧ res.result = none := by
  obtain h | h := h
  . exact h
  . simp [AllocResult.stops, h.2] at hstops

theorem tries_pages (todo j : Nat) (h : egTryAllocExtent.pages seg i todo j = .ok res) : seg.Tries res := by
  induction todo generalizing j with
  | zero =>
    injection h with h
    subst h
    exact .inl ⟨rfl, rfl⟩
  | succ todo ih =>
    simp only [egTryAllocExtent.pages] at h
    rw [bind_eq_ok] at h
    obtain ⟨res', hres', h⟩ := h
    have htries := tries_egAllocExtentFromMap hres'
    split at h
    . injection h with h
      subst h
      exact htries
    . next hstops =>
      rw [(htries.of_not_stops (by simpa using hstops)).1] at h
      apply ih (j + 1) h

theorem tries_groups (todo i : Nat) (h : egTryAllocExtent.groups seg todo i = .ok res) : seg.Tries res := by
  induction todo generalizing i with
  | zero =>
    injection h with h
    subst h
    exact .inl ⟨rfl, rfl⟩
  | succ todo ih =>
    simp only [egTryAllocExtent.groups] at h
    simp only [bind_eq_ok] at h
    obtain ⟨_, _, res', hres', h⟩ := h
    have htries := tries_pages _ _ hres'
    split at h
    . injection h with h
      subst h
      exact htries
    . next hstops =>
      rw [(htries.of_not_stops (by simpa using hstops)).1] at h
      apply ih (i + 1) h

theorem tries_egAllocPreassignedBlock (h : egAllocPreassignedBlock seg block = .ok res) : seg.Tries res := by
  simp only [egAllocPreassignedBlock] at h
  split at h
  . injection h with h
    subst h
    exact .inl ⟨rfl, rfl⟩
  . split at h
    . split at h
      . injection h with h
        subst h
        exact .inl ⟨rfl, rfl⟩
      . next hend =>
        -- the same check is not made a second time with another result
        simp only [bind_eq_ok, egAllocExtentFromMapInternal, if_neg hend] at h
        obtain ⟨_, _, res', ⟨mapPage, hset, hres'⟩, h⟩ := h
        injection hres' with hres'
        injection h with h
        subst hres' h
        exact .inr ⟨⟨_, _, _, _, _, _, hset, rfl⟩, rfl⟩
    . simp [bind, Except.bind, throw, throwThe, MonadExceptOf.throw] at h

theorem tries_egTryAllocExtent (h : egTryAllocExtent seg preassignedBlock = .ok res) : seg.Tries res := by
  simp only [egTryAllocExtent] at h
  rw [bind_eq_ok] at h
  obtain ⟨_, _, h⟩ := h
  split at h
  . apply tries_egAllocPreassignedBlock h
  . rw [bind_eq_ok] at h
    obtain ⟨res', hres', h⟩ := h
    have htries := tries_groups _ _ hres'
    split at h
    . injection h with h
      subst h
      exact htries
    . next hstops =>
      have hsame := htries.of_not_stops (by simpa using hstops)
      rw [bind_eq_ok] at h
      obtain ⟨_, _, h⟩ := h
      split at h
      . injection h with h
        subst h
        exact .inl hsame
      . injection h with h
        subst h
        exact .inl hsame

/--
The turns of the loop of `eg_alloc_extent`, up to its result.
-/
inductive Allocs : SegExtentGroup → SegExtentGroup × Option Nat → Prop where
  | stop : Allocs seg (seg, none)
  | grow : seg.egAddMapGroup pageno dfMapGroupSize seg.mapHead.groupCount = .ok seg' →
      Allocs seg' res → Allocs seg res
  | extend : Allocs { seg with totalBlocks := blocks } res → Allocs seg res
  | mark : seg.Marks seg' → Allocs seg (seg', some block)

theorem allocs_egAllocExtent (fuel : Nat) (seg : SegExtentGroup)
    (h : seg.egAllocExtent limit preassignedBlock fuel = .ok res) : Allocs seg res := by
  induction fuel generalizing seg with
  | zero =>
    injection h with h
    subst h
    exact .stop
  | succ fuel ih =>
    simp only [egAllocExtent] at h
    rw [bind_eq_ok] at h
    obtain ⟨seg1, hseg1, h⟩ := h
    have hrest : Allocs seg1 res := by
      rw [bind_eq_ok] at h
      obtain ⟨res1, hres1, h⟩ := h
      have htries := tries_egTryAllocExtent hres1
      split at h
      . next hsome =>
        injection h with h
        subst h
        obtain ⟨_, hnone⟩ | ⟨hmarks, _⟩ := htries
        . simp [hnone] at hsome
        . obtain ⟨block, hblock⟩ := Option.isSome_iff_exists.mp hsome
          rw [hblock]
          exact .mark hmarks
      . next hnone =>
        have hsame : res1.seg = seg1 := by
          obtain ⟨hseg, _⟩ | ⟨_, hsome⟩ := htries
          . exact hseg
          . contradiction
        rw [hsame] at h
        split at h
        . rw [bind_eq_ok] at h
          obtain ⟨extended, hextend, h⟩ := h
          simp only [egExtendDf] at hextend
          rw [bind_eq_ok] at hextend
          obtain ⟨_, _, hextend⟩ := hextend
          split at hextend
          . split at hextend
            . injection hextend with hextend
              subst hextend
              injection h with h
              subst h
              exact .stop
            . injection hextend with hextend
              subst hextend
              exact .extend (ih _ h)
          . injection hextend with hextend
            subst hextend
            exact ih _ h
        . simp only [bind_eq_ok] at h
          obtain ⟨groupStart, _, seg2, hseg2, h⟩ := h
          exact .grow hseg2 (ih _ h)
    simp only [egAllocExtent.firstGroup] at hseg1
    split at hseg1
    . next hzero =>
      rw [← hzero] at hseg1
      exact .grow hseg1 hrest
    . injection hseg1 with hseg1
      subst hseg1
      exact hrest

theorem egAddMapGroup_init_frame (todo pageno dataStart : Nat) (seg : SegExtentGroup)
    : (egAddMapGroup.init seg todo pageno dataStart).mapHead = seg.mapHead
        ∧
      (egAddMapGroup.init seg todo pageno dataStart).extentSize = seg.extentSize := by
  induction todo generalizing seg pageno dataStart with
  | zero => exact ⟨rfl, rfl⟩
  | succ todo ih => apply ih

theorem egAddMapGroup_groupCount (h : egAddMapGroup seg pageno groupSize seg.mapHead.groupCount = .ok seg')
    : seg'.mapHead.groupCount = seg.mapHead.groupCount + 1 ∧ seg'.extentSize = seg.extentSize := by
  simp only [egAddMapGroup, Nat.lt_irrefl, if_false, bind_eq_ok] at h
  obtain ⟨_, _, _, _, h⟩ := h
  injection h with h
  have hinit := egAddMapGroup_init_frame groupSize pageno (u32 (pageno + groupSize + ipblockGroupSize)) seg
  subst h
  simp [hinit.1, hinit.2]

theorem Allocs.groupCount_le (h : Allocs seg res)
    : seg.mapHead.groupCount ≤ res.1.mapHead.groupCount ∧ res.1.extentSize = seg.extentSize := by
  induction h with
  | stop => exact ⟨Nat.le_refl _, rfl⟩
  | grow hgrow _ ih =>
    have hcount := egAddMapGroup_groupCount hgrow
    exact ⟨by omega, by rw [ih.2, hcount.2]⟩
  | extend _ ih => exact ih
  | mark hmark =>
    obtain ⟨_, _, _, _, _, _, _, rfl⟩ := hmark
    exact ⟨Nat.le_refl _, rfl⟩

end SegExtentGroup

import OpenGauss.Cstore.AllocSpace.Lemmas

/-!
This module shows that an allocation never hands out an address of a CU or one handed out before, over
every run whose steps take off a free descriptor at least what its alignment skips.
-/

open List

namespace CStore

open CStoreFreeSpaceDesc (Mem Apart apart_of_le)

variable {alignSize : Nat} {live : List CStoreFreeSpaceDesc} {s : AllocState}

theorem wrap64_sub {a b : Nat} (h : b ≤ a) (ha : a < 2 ^ 64) : wrap64 (a + 2 ^ 64 - b) = a - b := by
  unfold wrap64
  omega

namespace CStoreFreeSpaceDesc

def Within (a b : CStoreFreeSpaceDesc) : Prop :=
  b.beginOffset ≤ a.beginOffset ∧ a.beginOffset + a.size ≤ b.beginOffset + b.size

theorem Within.mem {a b : CStoreFreeSpaceDesc} (h : a.Within b) (addr : Nat) (hmem : a.Mem addr)
    : b.Mem addr := by
  unfold Within at h
  unfold Mem at hmem ⊢
  omega

end CStoreFreeSpaceDesc

section Holes

def hole (curEntry nextEntry : CStoreFreeSpaceDesc) : CStoreFreeSpaceDesc where
  beginOffset := curEntry.beginOffset + curEntry.size
  size := nextEntry.beginOffset - (curEntry.beginOffset + curEntry.size)

theorem pushHoles_cons {curEntry nextEntry : CStoreFreeSpaceDesc} {rest : List CStoreFreeSpaceDesc}
    (h : EntryList (curEntry :: nextEntry :: rest)) (fspace : CStoreFreeSpace)
    : pushHoles (curEntry :: nextEntry :: rest) fspace
      =
    if wrap64 (curEntry.beginOffset + curEntry.size + minAvailableCStoreFSMSize) < nextEntry.beginOffset then
      if (fspace.push (hole curEntry nextEntry)).isFull then
        fspace.push (hole curEntry nextEntry)
      else
        pushHoles (nextEntry :: rest) (fspace.push (hole curEntry nextEntry))
    else
      pushHoles (nextEntry :: rest) fspace := by
  obtain ⟨hgap, -, hcurLt, hrest⟩ := entryList_cons.1 h
  obtain ⟨-, hpos, hlt, -⟩ := entryList_cons.1 hrest
  have hnext := hgap nextEntry mem_cons_self
  rw [pushHoles, wrap64_of_lt hcurLt]
  dsimp only
  rw [wrap64_sub (by omega) (by omega)]
  rfl

theorem hole_apart {curEntry nextEntry : CStoreFreeSpaceDesc}
    {before rest : List CStoreFreeSpaceDesc}
    (h : EntryList (before ++ curEntry :: nextEntry :: rest)) {entry : CStoreFreeSpaceDesc}
    (hentry : entry ∈ before ++ curEntry :: nextEntry :: rest)
    : (hole curEntry nextEntry).Apart entry := by
  obtain ⟨-, hright, hcross⟩ := pairwise_append.1 h.sorted
  obtain ⟨hcur, hright⟩ := pairwise_cons.1 hright
  obtain ⟨hnext, -⟩ := pairwise_cons.1 hright
  have hgap := hcur nextEntry mem_cons_self
  have hend : (hole curEntry nextEntry).beginOffset + (hole curEntry nextEntry).size =
      nextEntry.beginOffset := by
    unfold hole
    dsimp only
    omega
  cases mem_append.1 hentry with
  | inl hbefore =>
    have hlt := hcross entry hbefore curEntry mem_cons_self
    apply Apart.symm
    apply apart_of_le
    show entry.beginOffset + entry.size ≤ curEntry.beginOffset + curEntry.size
    omega
  | inr hmem =>
    cases hmem with
    | head =>
      apply Apart.symm
      apply apart_of_le
      exact Nat.le_refl _
    | tail _ hmem =>
      apply apart_of_le
      rw [hend]
      cases hmem with
      | head => exact Nat.le_refl _
      | tail _ hmem =>
        have := hnext entry hmem
        omega

structure Between (entries : List CStoreFreeSpaceDesc) (desc : CStoreFreeSpaceDesc) : Prop where
  apart : ∀ entry ∈ entries, desc.Apart entry
  le : ∃ entry ∈ entries, desc.beginOffset + desc.size ≤ entry.beginOffset

theorem pushHoles_spec {before entries : List CStoreFreeSpaceDesc} {fspace : CStoreFreeSpace}
    (hentries : EntryList (before ++ entries)) (hheap : FreeHeap fspace)
    (hbetween : fspace.All (Between (before ++ entries)))
    (hle : ∀ entry ∈ entries, fspace.All (fun desc => desc.beginOffset + desc.size ≤ entry.beginOffset))
    : FreeHeap (pushHoles entries fspace) ∧ (pushHoles entries fspace).All (Between (before ++ entries)) := by
  induction entries generalizing before fspace with
  | nil => exact ⟨hheap, hbetween⟩
  | cons curEntry entries ih =>
    cases entries with
    | nil => exact ⟨hheap, hbetween⟩
    | cons nextEntry rest =>
      have happend : before ++ curEntry :: nextEntry :: rest =
          (before ++ [curEntry]) ++ nextEntry :: rest := by
        rw [append_assoc]
        rfl
      have hsuffix : EntryList (curEntry :: nextEntry :: rest) :=
        ⟨(pairwise_append.1 hentries.sorted).2.1,
          fun entry hentry => hentries.pos entry (mem_append_right _ hentry),
          fun entry hentry => hentries.lt entry (mem_append_right _ hentry)⟩
      have hgap := (entryList_cons.1 hsuffix).1
      have hnextGap := (entryList_cons.1 (entryList_cons.1 hsuffix).2.2.2).1
      have hnext := hgap nextEntry mem_cons_self
      have hend : (hole curEntry nextEntry).beginOffset + (hole curEntry nextEntry).size =
          nextEntry.beginOffset := by
        unfold hole
        dsimp only
        omega
      rw [pushHoles_cons hsuffix]
      split
      . have hpushed : Pushed fspace (hole curEntry nextEntry) (fspace.push (hole curEntry nextEntry)) := by
          apply push_spec hheap
          intro i hi hin
          apply apart_of_le
          have := hle curEntry mem_cons_self i hi hin
          show _ ≤ curEntry.beginOffset + curEntry.size
          omega
        have hbetween' : (fspace.push (hole curEntry nextEntry)).All
            (Between (before ++ curEntry :: nextEntry :: rest)) := by
          apply hpushed.all _ hbetween
          refine ⟨fun entry hentry => hole_apart hentries hentry, nextEntry, ?_, Nat.le_of_eq hend⟩
          exact mem_append_right _ (mem_cons_of_mem _ mem_cons_self)
        split
        . exact ⟨hpushed.heap, hbetween'⟩
        . rw [happend] at hentries hbetween' ⊢
          apply ih hentries hpushed.heap hbetween'
          intro entry hentry
          apply hpushed.all _ (hle entry (mem_cons_of_mem _ hentry))
          rw [hend]
          cases hentry with
          | head => exact Nat.le_refl _
          | tail _ hentry =>
            have := hnextGap entry hentry
            omega
      . rw [happend] at hentries hbetween ⊢
        exact ih hentries hheap hbetween (fun entry hentry => hle entry (mem_cons_of_mem _ hentry))

theorem pushFirstHole_spec {entries : List CStoreFreeSpaceDesc} (hentries : EntryList entries)
    (maxSize : Nat)
    : let fspace := pushFirstHole entries (CStoreFreeSpace.init maxSize)
      FreeHeap fspace ∧ fspace.All (Between entries) ∧
        ∀ entry ∈ entries, fspace.All (fun desc => desc.beginOffset + desc.size ≤ entry.beginOffset) := by
  have hnone : ∀ p : CStoreFreeSpaceDesc → Prop, (CStoreFreeSpace.init maxSize).All p := by
    intro p i hi hin
    have hzero : i ≤ 0 := hin
    omega
  cases entries with
  | nil => exact ⟨freeHeap_init maxSize, hnone _, fun entry _ => hnone _⟩
  | cons first rest =>
    dsimp only
    rw [pushFirstHole]
    split
    . have hpushed := push_spec (freeHeap_init maxSize) (hnone (fun old => old.Apart ⟨0, first.beginOffset⟩))
      have hfirst : ∀ entry ∈ first :: rest, first.beginOffset ≤ entry.beginOffset := by
        intro entry hentry
        cases hentry with
        | head => exact Nat.le_refl _
        | tail _ hentry =>
          have := (entryList_cons.1 hentries).1 entry hentry
          omega
      refine ⟨hpushed.heap, hpushed.all _ (hnone _) ⟨fun entry hentry => ?_, first, ?_, ?_⟩,
        fun entry hentry => hpushed.all _ (hnone _) ?_⟩
      . apply apart_of_le
        have := hfirst entry hentry
        dsimp only
        omega
      . exact mem_cons_self
      . exact Nat.le_of_eq (Nat.zero_add _)
      . have := hfirst entry hentry
        dsimp only
        omega
    . exact ⟨freeHeap_init maxSize, hnone _, fun entry _ => hnone _⟩

structure LiveBelow (live : List CStoreFreeSpaceDesc) (maxOffset : Nat) : Prop where
  pairwise : live.Pairwise Apart
  le : ∀ extent ∈ live, extent.beginOffset + extent.size ≤ maxOffset

theorem computeFreeSpace_spec {tups : List CUDesc} {maxOffset : Nat}
    (hlive : LiveBelow (liveExtents tups) maxOffset) (hmax : maxOffset < 2 ^ 64) (maxSize : Nat)
    : let fspace := computeFreeSpace tups (CStoreFreeSpace.init maxSize)
      FreeHeap fspace ∧ fspace.All (fun desc =>
        (∀ extent ∈ liveExtents tups, desc.Apart extent) ∧ desc.beginOffset + desc.size ≤ maxOffset) := by
  dsimp only
  rw [computeFreeSpace]
  split
  . refine ⟨freeHeap_init maxSize, fun i hi hin => ?_⟩
    have hzero : i ≤ 0 := hin
    omega
  . rename_i entries hscan
    obtain ⟨hentries, hcovered⟩ := scanCUDesc_spec hscan EntryList.nil
      (fun extent hmem => Nat.lt_of_le_of_lt (hlive.le extent hmem) hmax) hlive.pairwise
      (fun _ _ addr ⟨_, hmem, _⟩ => absurd hmem not_mem_nil)
    obtain ⟨hheap, hbetween, hle⟩ := pushFirstHole_spec hentries maxSize
    obtain ⟨hheap, hbetween⟩ := @pushHoles_spec [] _ _ hentries hheap hbetween hle
    refine ⟨hheap, fun i hi hin => ?_⟩
    obtain ⟨hapart, entry, hentry, hbelow⟩ := hbetween i hi hin
    refine ⟨fun extent hextent addr hdesc hmem => ?_, ?_⟩
    . obtain ⟨entry, hentry, haddr⟩ := (hcovered addr).2 (.inr ⟨extent, hextent, hmem⟩)
      exact hapart entry hentry addr hdesc haddr
    . have hpos := hentries.pos entry hentry
      cases (hcovered entry.beginOffset).1 ⟨entry, hentry, Nat.le_refl _, by omega⟩ with
      | inl hnil =>
        obtain ⟨_, hmem, -⟩ := hnil
        cases hmem
      | inr hcov =>
        obtain ⟨extent, hextent, -, hlt⟩ := hcov
        have := hlive.le extent hextent
        omega

end Holes

section Step

def alignUp (offset alignSize : Nat) : Nat :=
  if offset % alignSize = 0 then offset else offset + alignSize - offset % alignSize

theorem alignUp_mod (offset alignSize : Nat) : alignUp offset alignSize % alignSize = 0 := by
  unfold alignUp
  split
  . assumption
  . have hsplit : offset + alignSize - offset % alignSize = offset / alignSize * alignSize + alignSize := by
      have := Nat.div_add_mod' offset alignSize
      omega
    rw [hsplit, Nat.add_mod_right, Nat.mul_mod_left]

theorem le_alignUp (offset : Nat) (hpos : 0 < alignSize) : offset ≤ alignUp offset alignSize := by
  have := Nat.mod_lt offset hpos
  unfold alignUp
  split <;> omega

theorem alignUp_le (offset alignSize : Nat) : alignUp offset alignSize ≤ offset + alignSize := by
  unfold alignUp
  split <;> omega

theorem wrap64_alignUp {offset : Nat} (h : alignUp offset alignSize < 2 ^ 64)
    : (if offset % alignSize ≠ 0 then wrap64 (offset + alignSize - offset % alignSize) else offset)
        =
      alignUp offset alignSize := by
  unfold alignUp at h ⊢
  split at h
  . rename_i hzero
    rw [if_neg (not_not.2 hzero), if_pos hzero]
  . rename_i hne
    rw [if_pos hne, if_neg hne, wrap64_of_lt h]

structure AllocState.Fits (s : AllocState) (size alignSize : Nat) : Prop where
  pos : 0 < alignSize
  lt : size + alignSize < 2 ^ 64
  trim : s.fsm.hasEnoughSpace (size + alignSize) →
    (s.fsm.descs 1).beginOffset % alignSize = 0 ∨
      alignSize ≤ 2 * ((s.fsm.descs 1).beginOffset % alignSize)
  file : ¬ s.fsm.hasEnoughSpace (size + alignSize) → alignUp s.maxOffset alignSize + size < 2 ^ 64

structure Taken (fsm : CStoreFreeSpace) (offset size alignSize : Nat) (fsm' : CStoreFreeSpace) : Prop where
  valid : offset ≠ invalidCStoreOffset
  aligned : offset % alignSize = 0
  within : ∀ p : CStoreFreeSpaceDesc → Prop, (∀ a b : CStoreFreeSpaceDesc, a.Within b → p b → p a) →
    fsm.All p → p ⟨offset, size⟩
  heap : FreeHeap fsm'
  apart : fsm'.All (fun desc => desc.Apart ⟨offset, size⟩)
  all : ∀ p : CStoreFreeSpaceDesc → Prop, (∀ a b : CStoreFreeSpaceDesc, a.Within b → p b → p a) →
    fsm.All p → fsm'.All p

theorem tryAcquireSpaceFromFSM_spec {size : Nat} (hfits : s.Fits size alignSize) (hheap : FreeHeap s.fsm)
    (hlt : s.fsm.All (fun desc => desc.beginOffset + desc.size < 2 ^ 64))
    (henough : s.fsm.hasEnoughSpace (size + alignSize))
    : ∃ (offset : Nat) (fsm : CStoreFreeSpace), tryAcquireSpaceFromFSM s.fsm size alignSize = (offset, fsm) ∧
          Taken s.fsm offset size alignSize fsm := by
  have hne : s.fsm.descNum ≠ 0 := by
    intro hzero
    rw [CStoreFreeSpace.hasEnoughSpace, CStoreFreeSpace.isEmpty, hzero] at henough
    cases henough
  have hsize : size + alignSize ≤ (s.fsm.descs 1).size := by
    rw [CStoreFreeSpace.hasEnoughSpace, CStoreFreeSpace.isEmpty, decide_eq_false hne] at henough
    exact of_decide_eq_true henough
  obtain ⟨fsm, hpop, hpopped⟩ := popDescWithMaxSize_spec hheap hne
  have hend := hlt 1 (Nat.le_refl 1) (by omega)
  have htrim := hfits.trim henough
  have hrem := Nat.mod_lt (s.fsm.descs 1).beginOffset hfits.pos
  unfold tryAcquireSpaceFromFSM
  rw [wrap64_of_lt hfits.lt, if_neg (not_not.2 henough), hpop]
  have hapart := hpopped.apart
  have hfirst : ∀ p : CStoreFreeSpaceDesc → Prop, s.fsm.All p → p (s.fsm.descs 1) :=
    fun p hp => hp 1 (Nat.le_refl 1) (by omega)
  generalize s.fsm.descs 1 = desc at *
  have hup := alignUp_le desc.beginOffset alignSize
  have hle := le_alignUp desc.beginOffset hfits.pos
  have hmod := alignUp_mod desc.beginOffset alignSize
  have hskip : alignUp desc.beginOffset alignSize ≤ desc.beginOffset + desc.beginOffset % alignSize := by
    unfold alignUp
    split <;> omega
  have hsub : (if desc.beginOffset % alignSize ≠ 0 then
      wrap64 (desc.size + 2 ^ 64 - desc.beginOffset % alignSize) else desc.size) =
      desc.size - desc.beginOffset % alignSize := by
    split
    . exact wrap64_sub (by omega) (by omega)
    . omega
  dsimp only
  rw [wrap64_alignUp (by omega), hsub]
  generalize alignUp desc.beginOffset alignSize = offset at *
  generalize desc.beginOffset % alignSize = skip at *
  rw [wrap64_of_lt (show offset + size < 2 ^ 64 by omega), wrap64_of_lt (show size < 2 ^ 64 by omega),
    wrap64_sub (show size ≤ desc.size - skip by omega) (by omega), if_pos (by omega)]
  have hrest : CStoreFreeSpaceDesc.Within ⟨offset + size, desc.size - skip - size⟩ desc := by
    unfold CStoreFreeSpaceDesc.Within
    dsimp only
    omega
  have hgiven : CStoreFreeSpaceDesc.Within ⟨offset, size⟩ desc := by
    unfold CStoreFreeSpaceDesc.Within
    dsimp only
    omega
  have hpushed : Pushed fsm ⟨offset + size, desc.size - skip - size⟩ _ := push_spec hpopped.heap
    (fun i hi hin => (Apart.mono (hapart i hi hin).symm hrest.mem).symm)
  refine ⟨offset, _, rfl, ?_, hmod, ?_, hpushed.heap, ?_, ?_⟩
  . unfold invalidCStoreOffset
    omega
  . intro p hp hall
    exact hp _ desc hgiven (hfirst p hall)
  . apply hpushed.all
    . intro i hi hin
      exact (Apart.mono (hapart i hi hin).symm hgiven.mem).symm
    . apply Apart.symm
      apply apart_of_le
      exact Nat.le_refl _
  . intro p hp hall
    exact hpushed.all p (hpopped.all p hall) (hp _ desc hrest (hfirst p hall))

theorem tryAcquireSpaceFromFSM_none {fsm : CStoreFreeSpace} {size : Nat}
    (hlt : size + alignSize < 2 ^ 64) (h : ¬ fsm.hasEnoughSpace (size + alignSize))
    : tryAcquireSpaceFromFSM fsm size alignSize = (invalidCStoreOffset, fsm) := by
  rw [tryAcquireSpaceFromFSM, wrap64_of_lt hlt, if_pos h]

theorem acquireSpace_eq {maxOffset size : Nat} (h : alignUp maxOffset alignSize + size < 2 ^ 64)
    : acquireSpace maxOffset size alignSize
        =
      (alignUp maxOffset alignSize, alignUp maxOffset alignSize + size) := by
  unfold acquireSpace
  dsimp only
  rw [wrap64_alignUp (by omega), wrap64_of_lt h]

end Step

section Runs

def Acquired.extent (acquired : Acquired) : CStoreFreeSpaceDesc := ⟨acquired.offset, acquired.size⟩

structure AllocState.Clear (live : List CStoreFreeSpaceDesc) (s : AllocState) (desc : CStoreFreeSpaceDesc)
    : Prop where
  live : ∀ extent ∈ live, desc.Apart extent
  handedOut : ∀ acquired ∈ s.handedOut, desc.Apart acquired.extent
  le : desc.beginOffset + desc.size ≤ s.maxOffset

structure AllocInv (live : List CStoreFreeSpaceDesc) (s : AllocState) : Prop where
  heap : FreeHeap s.fsm
  free : s.fsm.All (s.Clear live)
  maxOffset_lt : s.maxOffset < 2 ^ 64
  live_le : ∀ extent ∈ live, extent.beginOffset + extent.size ≤ s.maxOffset
  handedOut_le : ∀ acquired ∈ s.handedOut, acquired.offset + acquired.size ≤ s.maxOffset
  aligned : ∀ acquired ∈ s.handedOut, acquired.offset % acquired.alignSize = 0
  handedOut_live : ∀ acquired ∈ s.handedOut, ∀ extent ∈ live, acquired.extent.Apart extent
  pairwise : s.handedOut.Pairwise (fun last earlier => last.extent.Apart earlier.extent)

theorem AllocState.Clear.within
    (a b : CStoreFreeSpaceDesc) (h : a.Within b) (hclear : s.Clear live b) : s.Clear live a := by
  refine ⟨fun extent hmem => (hclear.live extent hmem).mono h.mem,
    fun acquired hmem => (hclear.handedOut acquired hmem).mono h.mem, ?_⟩
  have hle := hclear.le
  unfold CStoreFreeSpaceDesc.Within at h
  omega

def initAlloc (tups : List CUDesc) (maxSize maxOffset : Nat) : AllocState where
  fsm := computeFreeSpace tups (CStoreFreeSpace.init maxSize)
  maxOffset := maxOffset
  handedOut := []

theorem initAlloc_inv {tups : List CUDesc} {maxOffset : Nat}
    (hlive : LiveBelow (liveExtents tups) maxOffset) (hmax : maxOffset < 2 ^ 64) (maxSize : Nat)
    : AllocInv (liveExtents tups) (initAlloc tups maxSize maxOffset) := by
  obtain ⟨hheap, hfree⟩ := computeFreeSpace_spec hlive hmax maxSize
  constructor
  . exact hheap
  . intro i hi hin
    obtain ⟨hapart, hle⟩ := hfree i hi hin
    exact ⟨hapart, fun _ hmem => absurd hmem not_mem_nil, hle⟩
  . exact hmax
  . exact hlive.le
  . exact fun _ hmem => absurd hmem not_mem_nil
  . exact fun _ hmem => absurd hmem not_mem_nil
  . exact fun _ hmem => absurd hmem not_mem_nil
  . exact List.Pairwise.nil

theorem AllocInv.handOut (hinv : AllocInv live s)
    {fsm : CStoreFreeSpace} {maxOffset offset size : Nat} (hheap : FreeHeap fsm)
    (hfree : fsm.All (s.Clear live)) (hapart : fsm.All (fun desc => desc.Apart ⟨offset, size⟩))
    (hmax : s.maxOffset ≤ maxOffset) (hlt : maxOffset < 2 ^ 64) (hle : offset + size ≤ maxOffset)
    (haligned : offset % alignSize = 0)
    (hlive : ∀ extent ∈ live, Apart ⟨offset, size⟩ extent)
    (hhanded : ∀ acquired ∈ s.handedOut, Apart ⟨offset, size⟩ acquired.extent)
    : AllocInv live { fsm, maxOffset, handedOut := ⟨offset, size, alignSize⟩ :: s.handedOut } := by
  constructor
  . exact hheap
  . intro i hi hin
    have hclear := hfree i hi hin
    refine ⟨hclear.live, fun acquired hmem => ?_, Nat.le_trans hclear.le hmax⟩
    cases hmem with
    | head => exact hapart i hi hin
    | tail _ hmem => exact hclear.handedOut acquired hmem
  . exact hlt
  . exact fun extent hmem => Nat.le_trans (hinv.live_le extent hmem) hmax
  . intro acquired hmem
    cases hmem with
    | head => exact hle
    | tail _ hmem => exact Nat.le_trans (hinv.handedOut_le acquired hmem) hmax
  . intro acquired hmem
    cases hmem with
    | head => exact haligned
    | tail _ hmem => exact hinv.aligned acquired hmem
  . intro acquired hmem
    cases hmem with
    | head => exact hlive
    | tail _ hmem => exact hinv.handedOut_live acquired hmem
  . exact pairwise_cons.2 ⟨hhanded, hinv.pairwise⟩

theorem allocSpace_inv (hinv : AllocInv live s) {size : Nat} (hfits : s.Fits size alignSize)
    : AllocInv live (s.allocSpace size alignSize) := by
  rw [AllocState.allocSpace]
  by_cases henough : s.fsm.hasEnoughSpace (size + alignSize)
  . have hlt : s.fsm.All (fun desc => desc.beginOffset + desc.size < 2 ^ 64) :=
      fun i hi hin => Nat.lt_of_le_of_lt (hinv.free i hi hin).le hinv.maxOffset_lt
    obtain ⟨offset, fsm, heq, htaken⟩ := tryAcquireSpaceFromFSM_spec hfits hinv.heap hlt henough
    have hgiven := htaken.within (s.Clear live) AllocState.Clear.within hinv.free
    rw [heq]
    dsimp only
    rw [if_pos htaken.valid]
    exact hinv.handOut htaken.heap (htaken.all _ AllocState.Clear.within hinv.free) htaken.apart
      (Nat.le_refl _) hinv.maxOffset_lt hgiven.le htaken.aligned hgiven.live hgiven.handedOut
  . have hfile := hfits.file henough
    have hup := le_alignUp s.maxOffset hfits.pos
    rw [tryAcquireSpaceFromFSM_none hfits.lt henough]
    dsimp only
    rw [if_neg (not_not.2 rfl), acquireSpace_eq hfile]
    dsimp only
    apply hinv.handOut hinv.heap hinv.free
    . intro i hi hin
      apply apart_of_le
      exact Nat.le_trans (hinv.free i hi hin).le hup
    . omega
    . exact hfile
    . exact Nat.le_refl _
    . exact alignUp_mod s.maxOffset alignSize
    . intro extent hmem
      apply Apart.symm
      apply apart_of_le
      exact Nat.le_trans (hinv.live_le extent hmem) hup
    . intro acquired hmem
      apply Apart.symm
      apply apart_of_le
      exact Nat.le_trans (hinv.handedOut_le acquired hmem) hup

structure AllocState.Safe (live : List CStoreFreeSpaceDesc) (s : AllocState) : Prop where
  aligned : ∀ acquired ∈ s.handedOut, acquired.offset % acquired.alignSize = 0
  handedOut_live : ∀ acquired ∈ s.handedOut, ∀ extent ∈ live, acquired.extent.Apart extent
  handedOut_before : s.handedOut.Pairwise (fun last earlier => last.extent.Apart earlier.extent)
  free_apart : ∀ i j : Nat, 1 ≤ i → i ≤ s.fsm.descNum → 1 ≤ j → j ≤ s.fsm.descNum → i ≠ j →
    (s.fsm.descs i).Apart (s.fsm.descs j)
  free_live : s.fsm.All (fun desc => ∀ extent ∈ live, desc.Apart extent)
  free_handedOut : s.fsm.All (fun desc => ∀ acquired ∈ s.handedOut, desc.Apart acquired.extent)
  top : s.fsm.All (fun desc => desc.size ≤ (s.fsm.descs 1).size)

theorem AllocInv.safe (hinv : AllocInv live s) : s.Safe live := { hinv with
  handedOut_before := hinv.pairwise
  free_apart := hinv.heap.apart
  free_live := fun i hi hin => (hinv.free i hi hin).live
  free_handedOut := fun i hi hin => (hinv.free i hi hin).handedOut
  top := fun _ hi hin => hinv.heap.ordered.le_top hi hin }

def FittingStep (s s' : AllocState) : Prop :=
  ∃ size alignSize : Nat, s.Fits size alignSize ∧ s' = s.allocSpace size alignSize

theorem allocSpace_safe {tups : List CUDesc} {maxSize maxOffset : Nat}
    (hlive : LiveBelow (liveExtents tups) maxOffset) (hmax : maxOffset < 2 ^ 64) {s : AllocState}
    (hrun : Relation.ReflTransGen FittingStep (initAlloc tups maxSize maxOffset) s)
    : s.Safe (liveExtents tups) := by
  have hinv : AllocInv (liveExtents tups) s := by
    induction hrun with
    | refl => exact initAlloc_inv hlive hmax maxSize
    | tail _ hstep ih =>
      obtain ⟨size, alignSize, hfits, rfl⟩ := hstep
      exact allocSpace_inv ih hfits
  exact hinv.safe

def twoCUs : List CUDesc := [⟨some 20000, 10000⟩, ⟨some 0, 100⟩]

theorem twoCUs_live : LiveBelow (liveExtents twoCUs) 30000 := by
  constructor
  . refine pairwise_cons.2 ⟨fun extent hmem => ?_, pairwise_singleton _ _⟩
    apply Apart.symm
    apply apart_of_le
    rw [mem_singleton.1 hmem]
    decide
  . decide

-- The hole from 100 on is trimmed to 128 and used twice, the third range is put behind the file.
theorem allocSpace_safe_twoCUs
    : ∃ s, s = (((initAlloc twoCUs 10 30000).allocSpace 1000 128).allocSpace 500 8).allocSpace 20000 8192
      ∧ s.handedOut.map Acquired.offset = [32768, 1128, 128] ∧ s.Safe (liveExtents twoCUs) := by
  have hfirst : FittingStep (initAlloc twoCUs 10 30000) _ :=
    ⟨1000, 128, ⟨by decide, by decide, by decide, by decide⟩, rfl⟩
  have hsecond : FittingStep ((initAlloc twoCUs 10 30000).allocSpace 1000 128) _ :=
    ⟨500, 8, ⟨by decide, by decide, by decide, by decide⟩, rfl⟩
  have hthird : FittingStep (((initAlloc twoCUs 10 30000).allocSpace 1000 128).allocSpace 500 8) _ :=
    ⟨20000, 8192, ⟨by decide, by decide, by decide, by decide⟩, rfl⟩
  have hrun := ((Relation.ReflTransGen.single hfirst).tail hsecond).tail hthird
  exact ⟨_, rfl, by decide, allocSpace_safe twoCUs_live (by decide) hrun⟩

-- The hole starts at 100, so 8092 addresses are skipped and only 100 are taken off its size.
theorem allocSpace_overlaps
    : ¬ (((initAlloc twoCUs 10 30000).allocSpace 8192 8192).allocSpace 11000 2).Safe
        (liveExtents twoCUs) := by
  intro hsafe
  have hmem : (⟨16384, 11000, 2⟩ : Acquired) ∈
      (((initAlloc twoCUs 10 30000).allocSpace 8192 8192).allocSpace 11000 2).handedOut := by decide
  apply hsafe.handedOut_live _ hmem ⟨20000, 10000⟩ (by decide) 20000
  . exact ⟨by decide, by decide⟩
  . exact ⟨by decide, by decide⟩

end Runs

end CStore

import OpenGauss.Cfs.Repair.Runs

/-!
This module contains the verification of what a PCA page is after its check and repair.
-/

open List

namespace Cfs

open LittleEndian CfsExtentAddress

variable {location : ExtentLocation}

section Owned

variable {chunkSize : ChunkSize} {page page' : Memory}

section

variable (h : ∀ j, 144 ≤ j → page j = page' j)
include h

theorem ownedBefore_congr (b : Nat)
    : ownedBefore chunkSize page b = ownedBefore chunkSize page' b := by
  induction b with
  | zero => rfl
  | succ b ih =>
    have hsame : SameAddress chunkSize page page' (chunkSize.address b) := by
      intro j hlo _
      apply h
      have := chunkSize.le_address b
      omega
    by_cases haccepted : Accepted chunkSize page b
    . have haccepted' : Accepted chunkSize page' b := by
        rw [Accepted, ← ih]
        exact haccepted.congr hsame
      rw [ownedBefore_succ_of_accepted haccepted, ownedBefore_succ_of_accepted haccepted', ih,
        hsame.listed_eq haccepted.allocated_le]
    . have haccepted' : ¬Accepted chunkSize page' b := by
        intro haccepted'
        apply haccepted
        rw [Accepted, ih]
        exact haccepted'.congr hsame.symm
      rw [ownedBefore_succ_of_not_accepted haccepted, ownedBefore_succ_of_not_accepted haccepted', ih]

theorem accepted_congr (b : Nat) : Accepted chunkSize page b ↔ Accepted chunkSize page' b := by
  have hsame : SameAddress chunkSize page page' (chunkSize.address b) := by
    intro j hlo _
    apply h
    have := chunkSize.le_address b
    omega
  rw [Accepted, Accepted, ownedBefore_congr h]
  constructor
  . exact Accepts.congr hsame
  . exact Accepts.congr hsame.symm

end

theorem range_of_mem_ownedBefore {b chunkno : Nat} (hmem : chunkno ∈ ownedBefore chunkSize page b)
    : 1 ≤ chunkno ∧ chunkno ≤ cfsMaxLogicChunksNumber chunkSize.bytes := by
  induction b with
  | zero => cases hmem
  | succ b ih =>
    by_cases haccepted : Accepted chunkSize page b
    . rw [ownedBefore_succ_of_accepted haccepted, mem_append] at hmem
      cases hmem with
      | inl hmem => exact ih hmem
      | inr hmem =>
        obtain ⟨hpos, hle, _⟩ := haccepted.chunknos chunkno hmem
        exact ⟨hpos, hle⟩
    . rw [ownedBefore_succ_of_not_accepted haccepted] at hmem
      exact ih hmem

theorem nodup_ownedBefore_iff (b : Nat)
    : (ownedBefore chunkSize page b).Nodup ↔
        ∀ b' < b, Accepted chunkSize page b' → (listed page (chunkSize.address b')).Nodup := by
  induction b with
  | zero =>
    apply iff_of_true nodup_nil
    intro b' hb
    omega
  | succ b ih =>
    by_cases haccepted : Accepted chunkSize page b
    . rw [ownedBefore_succ_of_accepted haccepted, nodup_append', ih]
      constructor
      . rintro ⟨hbefore, hlast, _⟩ b' hb hacc
        by_cases heq : b' = b
        . rw [heq]
          exact hlast
        . exact hbefore b' (by omega) hacc
      . intro hall
        apply And.intro
        . intro b' hb hacc
          exact hall b' (by omega) hacc
        . apply And.intro (hall b (by omega) haccepted)
          intro chunkno howned hmem
          exact (haccepted.chunknos chunkno hmem).2.2 howned
    . rw [ownedBefore_succ_of_not_accepted haccepted, ih]
      constructor
      . intro hbefore b' hb hacc
        have : b' ≠ b := by
          rintro rfl
          exact haccepted hacc
        exact hbefore b' (by omega) hacc
      . intro hall b' hb hacc
        exact hall b' (by omega) hacc

theorem allListed_eq_ownedBefore (hsize : CfsExtentHeader.chunkSize page = chunkSize.bytes)
    (count : Nat) (haccepted : ∀ b < count, Accepted chunkSize page b)
    : allListed page count = ownedBefore chunkSize page count := by
  induction count with
  | zero => rfl
  | succ count ih =>
    have hbefore := ih (fun b hb => haccepted b (by omega))
    rw [ownedBefore_succ_of_accepted (haccepted count (by omega)), ← hbefore, allListed,
      range_succ, flatMap_append, flatMap_singleton,
      chunkSize.getExtentAddress_eq hsize]
    rfl

theorem Accepts.cleaned {mem : Memory} {owned : List Nat} {addr : Nat} (h : Accepts chunkSize mem owned addr)
    : Accepts chunkSize (cleaned chunkSize mem addr) owned addr := by
  have hle := h.allocated_le
  have hcap := chunkSize.perBlock_le
  obtain ⟨hnchunks, halloc, hlisted⟩ := listed_cleaned hle
  have hsame : ∀ j, j < addr + 6 + 2 * allocatedChunks mem addr →
      Cfs.cleaned chunkSize mem addr j = mem j := by
    intro j hj
    rw [cleaned_apply hle, if_neg (by omega)]
  constructor
  . have hchecksum : CfsExtentAddress.checksum (Cfs.cleaned chunkSize mem addr) addr
        = CfsExtentAddress.checksum mem addr := by
      apply decode_load_congr
      intro j _ _
      apply hsame
      omega
    rw [Matches, hchecksum, halloc, h.checksum, addrChecksum32, addrChecksum32, addrChecksum32.go_congr]
    intro j _ hj
    rw [hsame]
    simp only [sizeOfExtentAddressByChunks] at hj
    omega
  . rw [halloc]
    exact hle
  . rw [hlisted]
    exact h.chunknos
  . rw [hnchunks, halloc]
    exact h.nchunks_le

end Owned

theorem foldl_max_le {l : List Nat} {m bound : Nat} (hm : m ≤ bound) (h : ∀ n ∈ l, n ≤ bound)
    : l.foldl max m ≤ bound := by
  induction l generalizing m with
  | nil => exact hm
  | cons n l ih =>
    rw [foldl_cons]
    apply ih
    . exact Nat.max_le.mpr ⟨hm, h n (mem_cons_self ..)⟩
    . intro n' hn'
      exact h n' (mem_cons_of_mem _ hn')

section Finish

variable {chunkSize : ChunkSize} {page : Memory} {status : CfsHeaderPagerCheckStatus}
variable {state : CheckState}

def finish (chunkSize : ChunkSize) (page : Memory) (state : CheckState) : CheckState :=
  let state := updateNblocks (CfsExtentHeader.nblocks page) state
  let state := updateAllocatedChunks (CfsExtentHeader.allocatedChunks page) state
  cleanAddresses chunkSize.bytes state

section

variable (h : Checked chunkSize page status cfsLogicBlocksPerExtent state)
include h

theorem Checked.maxNonzero_lt : (state.maxNonzeroBlocknum + 1) % 2 ^ 16 ≤ 127 := by
  cases h.noNonzero with
  | inl heq => simp [heq]
  | inr hlt =>
    have : state.maxNonzeroBlocknum < 127 := hlt.1
    omega

theorem Checked.maxAllocated_lt : state.maxAllocatedChunkno < 256 ^ 4 := by
  have hle : state.maxAllocatedChunkno ≤ cfsMaxLogicChunksNumber chunkSize.bytes := by
    rw [h.maxAllocated]
    apply foldl_max_le (Nat.zero_le _)
    intro chunkno hmem
    exact (range_of_mem_ownedBefore hmem).2
  rw [chunkSize.maxLogicChunksNumber_eq] at hle
  have := chunkSize.perBlock_le
  omega

theorem Checked.updateNblocks
    : ∃ status' page', updateNblocks (CfsExtentHeader.nblocks page) state
          = { state with pcMap := page', status := status' } ∧
        (status' = state.status ∨ status' = .repaired) ∧
        (∀ j, 4 ≤ j → page' j = state.pcMap j) ∧
        (state.maxNonzeroBlocknum + 1) % 2 ^ 16 ≤ CfsExtentHeader.nblocks page' := by
  have hmax := h.maxNonzero_lt
  have hnblocks : CfsExtentHeader.nblocks state.pcMap = CfsExtentHeader.nblocks page := by
    apply CfsExtentHeader.nblocks_congr
    intro j hj
    exact h.same j (Or.inl hj)
  rw [Cfs.updateNblocks]
  split
  . rename_i hlt
    have hval : state.maxNonzeroBlocknum + 1 < 256 ^ 4 := by
      cases h.noNonzero with
      | inl heq => omega
      | inr hlt =>
        have : state.maxNonzeroBlocknum < 127 := hlt.1
        omega
    refine ⟨_, _, rfl, Or.inr rfl, ?_, ?_⟩
    . intro j hj
      rw [CfsExtentHeader.setNblocks, store_encode_outside (by omega)]
    . rw [CfsExtentHeader.nblocks, CfsExtentHeader.setNblocks, decode_load_store hval]
      apply Nat.mod_le
  . rename_i hle
    refine ⟨state.status, state.pcMap, rfl, Or.inl rfl, ?_, ?_⟩
    . intros
      rfl
    . rw [hnblocks]
      omega

end

theorem Checked.finish (hsize : CfsExtentHeader.chunkSize page = chunkSize.bytes)
    (h : Checked chunkSize page status cfsLogicBlocksPerExtent state)
    : ∃ status' page', finish chunkSize page state
          = { state with pcMap := page', status := status' } ∧
        (status' = state.status ∨ status' = .repaired) ∧
        (∀ j, 8 ≤ j → page' j = state.pcMap j) ∧
        (state.maxNonzeroBlocknum + 1) % 2 ^ 16 ≤ CfsExtentHeader.nblocks page' ∧
        CfsExtentHeader.allocatedChunks page' = state.maxAllocatedChunkno := by
  obtain ⟨status₁, page₁, heq₁, hstatus₁, hsame₁, hnblocks₁⟩ := h.updateNblocks
  have hallocated : CfsExtentHeader.allocatedChunks page₁ = CfsExtentHeader.allocatedChunks page := by
    apply decode_load_congr
    intro j hlo hhi
    rw [hsame₁ j hlo, h.same j (Or.inl (by omega))]
  have hupdate : ∃ status₂ page₂, updateAllocatedChunks (CfsExtentHeader.allocatedChunks page)
        { state with pcMap := page₁, status := status₁ }
          = { state with pcMap := page₂, status := status₂ } ∧
        (status₂ = state.status ∨ status₂ = .repaired) ∧
        (∀ j, j < 4 ∨ 8 ≤ j → page₂ j = page₁ j) ∧
        CfsExtentHeader.allocatedChunks page₂ = state.maxAllocatedChunkno := by
    rw [updateAllocatedChunks]
    split
    . refine ⟨_, _, rfl, Or.inr rfl, ?_, ?_⟩
      . intro j hj
        rw [CfsExtentHeader.setAllocatedChunks, store_encode_outside (by omega)]
      . rw [CfsExtentHeader.allocatedChunks, CfsExtentHeader.setAllocatedChunks,
          decode_load_store h.maxAllocated_lt]
    . rename_i heq
      refine ⟨status₁, page₁, rfl, hstatus₁, ?_, ?_⟩
      . intros
        rfl
      . rw [hallocated]
        exact not_not.mp heq
  obtain ⟨status₂, page₂, heq₂, hstatus₂, hsame₂, hallocated₂⟩ := hupdate
  have hsame : ∀ j, 8 ≤ j → page₂ j = state.pcMap j := by
    intro j hj
    rw [hsame₂ j (Or.inr hj), hsame₁ j (by omega)]
  have hsize₂ : CfsExtentHeader.chunkSize page₂ = chunkSize.bytes := by
    rw [← hsize]
    apply decode_load_congr
    intro j hlo hhi
    rw [hsame j hlo, h.same j (Or.inl (by omega))]
  have hclean := @cleanAddresses_eq chunkSize { state with pcMap := page₂, status := status₂ } hsize₂
  refine ⟨status₂, page₂, ?_, hstatus₂, hsame, ?_, hallocated₂⟩
  . rw [Cfs.finish, heq₁, heq₂, hclean]
    intro b hlo hb
    simp only at hlo
    have hnot : ¬Accepted chunkSize page b := by
      intro hacc
      have hle := h.block b hb hacc
      have : state.maxBlocknum < 127 := hle.2
      omega
    intro j hj hj'
    have := chunkSize.le_address b
    simp only
    rw [hsame j (by omega), h.zeroed b hb hnot j hj hj']
  . have hcongr : CfsExtentHeader.nblocks page₂ = CfsExtentHeader.nblocks page₁ := by
      apply decode_load_congr
      intro j _ hhi
      exact hsame₂ j (Or.inl (by omega))
    rw [hcongr]
    exact hnblocks₁

end Finish

structure Finished (chunkSize : ChunkSize) (page page' : Memory) : Prop where
  size : CfsExtentHeader.chunkSize page' = chunkSize.bytes
  algorithm : CfsExtentHeader.algorithm page' = CfsExtentHeader.algorithm page
  accepted : ∀ b < cfsLogicBlocksPerExtent, Accepted chunkSize page b →
    SameAddress chunkSize page' (cleaned chunkSize page (chunkSize.address b)) (chunkSize.address b)
  zeroed : ∀ b < cfsLogicBlocksPerExtent, ¬Accepted chunkSize page b →
    ZeroAddress chunkSize page' (chunkSize.address b)
  allocated : CfsExtentHeader.allocatedChunks page'
    = (ownedBefore chunkSize page cfsLogicBlocksPerExtent).foldl max 0
  nblocks : ∀ b < cfsLogicBlocksPerExtent, Accepted chunkSize page b →
    0 < nchunks page (chunkSize.address b) → b < CfsExtentHeader.nblocks page'

namespace Finished

variable {zeroDamagedPages : Bool} {chunkSize : ChunkSize} {page page' : Memory}

theorem ofChecked {state : CheckState} {status : CfsHeaderPagerCheckStatus}
    (hsize : CfsExtentHeader.chunkSize page = chunkSize.bytes)
    (h : Checked chunkSize page status cfsLogicBlocksPerExtent state)
    : Finished chunkSize page (finish chunkSize page state).pcMap := by
  obtain ⟨status', page', heq, _, hsame, hnblocks, hallocated⟩ := h.finish hsize
  have hheader : ∀ j, 8 ≤ j → j < 144 → page' j = page j := by
    intro j hlo hhi
    rw [hsame j hlo, h.same j (Or.inl hhi)]
  have haddress : ∀ b j, chunkSize.address b ≤ j → page' j = state.pcMap j := by
    intro b j hj
    apply hsame
    have := chunkSize.le_address b
    omega
  rw [heq]
  constructor
  . rw [← hsize]
    apply decode_load_congr
    intro j hlo hhi
    exact hheader j hlo (by omega)
  . simp only [CfsExtentHeader.algorithm]
    rw [hheader 10 (by omega) (by omega)]
  . intro b hb hacc j hlo hhi
    simp only
    rw [haddress b j hlo]
    exact h.accepted b hb hacc j hlo hhi
  . intro b hb hacc j hlo hhi
    simp only
    rw [haddress b j hlo]
    exact h.zeroed b hb hacc j hlo hhi
  . rw [← h.maxAllocated]
    exact hallocated
  . intro b hb hacc hpos
    obtain ⟨hle, hlt⟩ := h.nonzero b hb hacc hpos
    have : state.maxNonzeroBlocknum < 127 := hlt
    simp only
    omega

variable (h : Finished chunkSize page page')
include h

theorem accepted_succ {b : Nat} (hb : b < cfsLogicBlocksPerExtent)
    (howned : ownedBefore chunkSize page' b = ownedBefore chunkSize page b)
    : Accepted chunkSize page' b ∧
        ownedBefore chunkSize page' (b + 1) = ownedBefore chunkSize page (b + 1) := by
  by_cases haccepted : Accepted chunkSize page b
  . have hsame := h.accepted b hb haccepted
    have hcleaned := Accepts.cleaned haccepted
    obtain ⟨_, _, hlisted⟩ := listed_cleaned haccepted.allocated_le
    have haccepted' : Accepted chunkSize page' b := by
      rw [Accepted, howned]
      exact hcleaned.congr hsame.symm
    apply And.intro haccepted'
    rw [ownedBefore_succ_of_accepted haccepted', ownedBefore_succ_of_accepted haccepted, howned,
      hsame.listed_eq haccepted'.allocated_le, hlisted]
  . have hzero := h.zeroed b hb haccepted
    have haccepted' : Accepted chunkSize page' b := hzero.accepts _
    apply And.intro haccepted'
    rw [ownedBefore_succ_of_accepted haccepted', ownedBefore_succ_of_not_accepted haccepted, howned,
      hzero.listed_eq, append_nil]

theorem ownedBefore_eq {b : Nat} (hb : b ≤ cfsLogicBlocksPerExtent)
    : ownedBefore chunkSize page' b = ownedBefore chunkSize page b := by
  induction b with
  | zero => rfl
  | succ b ih => exact (h.accepted_succ hb (ih (Nat.le_of_lt hb))).2

theorem allAccepted (b : Nat) (hb : b < cfsLogicBlocksPerExtent) : Accepted chunkSize page' b := by
  exact (h.accepted_succ hb (h.ownedBefore_eq (Nat.le_of_lt hb))).1

theorem clean {b i : Nat} (hb : b < cfsLogicBlocksPerExtent)
    (hlo : allocatedChunks page' (chunkSize.address b) ≤ i) (hhi : i < blcksz / chunkSize.bytes)
    : chunknos page' (chunkSize.address b) i = 0 := by
  by_cases haccepted : Accepted chunkSize page b
  . have hsame := h.accepted b hb haccepted
    obtain ⟨_, halloc, _⟩ := listed_cleaned haccepted.allocated_le
    rw [hsame.allocatedChunks_eq, halloc] at hlo
    rw [hsame.chunknos_eq hhi]
    apply decode_load_zero
    intro j hj hj'
    rw [cleaned_apply haccepted.allocated_le, if_pos]
    simp only [ChunkSize.addressSize]
    omega
  . exact (h.zeroed b hb haccepted).chunknos_eq hhi

theorem allListed_eq
    : allListed page' cfsLogicBlocksPerExtent = ownedBefore chunkSize page cfsLogicBlocksPerExtent := by
  rw [allListed_eq_ownedBefore h.size _ h.allAccepted, h.ownedBefore_eq (Nat.le_refl _)]

theorem nblocks_gt {b : Nat} (hb : b < cfsLogicBlocksPerExtent)
    (hpos : 0 < nchunks page' (chunkSize.address b))
    : b < CfsExtentHeader.nblocks page' := by
  by_cases haccepted : Accepted chunkSize page b
  . apply h.nblocks b hb haccepted
    have hsame := h.accepted b hb haccepted
    obtain ⟨hnchunks, _, _⟩ := listed_cleaned haccepted.allocated_le
    rw [hsame.nchunks_eq, hnchunks] at hpos
    exact hpos
  . rw [(h.zeroed b hb haccepted).nchunks_eq] at hpos
    omega

theorem sound_iff
    : Sound chunkSize page' ↔
        ∀ b < cfsLogicBlocksPerExtent, Accepted chunkSize page b →
          (listed page (chunkSize.address b)).Nodup := by
  rw [← nodup_ownedBefore_iff]
  constructor
  . intro hsound
    rw [← h.allListed_eq]
    exact hsound.distinct
  . intro hnodup
    constructor
    . rw [h.allListed_eq]
      exact hnodup
    . intro chunkno hmem
      rw [h.allListed_eq] at hmem
      exact range_of_mem_ownedBefore hmem
    . intro b hb
      rw [chunkSize.getExtentAddress_eq h.size]
      exact (h.allAccepted b hb).nchunks_le
    . intro b hb
      rw [chunkSize.getExtentAddress_eq h.size]
      exact (h.allAccepted b hb).allocated_le
    . rw [h.allListed_eq]
      exact h.allocated
    . intro b hb hpos
      rw [chunkSize.getExtentAddress_eq h.size] at hpos
      exact h.nblocks_gt hb hpos
    . intro b hb
      rw [chunkSize.getExtentAddress_eq h.size]
      exact (h.allAccepted b hb).checksum

theorem foldlM_checkBlock
    : ∃ state, (List.range cfsLogicBlocksPerExtent).foldlM (checkBlock zeroDamagedPages chunkSize.bytes)
          ⟨page', .ok, fun _ => 0, 65535, 65535, 0⟩ = .ok state ∧
        (finish chunkSize page' state).status = .ok ∧
        (finish chunkSize page' state).pcMap = page' := by
  obtain ⟨state, heq, hchecked, hpage, hstatus⟩ :=
    @foldlM_checkBlock_of_clean zeroDamagedPages _ _ h.size .ok cfsLogicBlocksPerExtent h.allAccepted
      (fun b hb i hlo hhi => h.clean hb hlo hhi)
  have hnblocks : updateNblocks (CfsExtentHeader.nblocks page') state = state := by
    rw [updateNblocks, if_neg]
    cases hchecked.noNonzero with
    | inl heq => simp [heq]
    | inr hlast =>
      have := h.nblocks_gt hlast.1 hlast.2.2
      omega
  have hallocated : updateAllocatedChunks (CfsExtentHeader.allocatedChunks page') state = state := by
    rw [updateAllocatedChunks, if_neg]
    rw [hchecked.maxAllocated, h.allocated, h.ownedBefore_eq (Nat.le_refl _)]
    simp
  have hclean : cleanAddresses chunkSize.bytes state = state := by
    apply cleanAddresses_eq
    . rw [hpage]
      exact h.size
    . intro b hlo hb
      have hlt := hchecked.block b hb (h.allAccepted b hb)
      have : state.maxBlocknum < 127 := hlt.2
      omega
  apply Exists.intro state
  apply And.intro heq
  simp only [finish, hnblocks, hallocated, hclean]
  exact ⟨hstatus, hpage⟩

end Finished

theorem checkAndRepairCompressAddress_of_not_checked (zeroDamagedPages : Bool) (page : Memory)
    (chunkSize algorithm : Nat)
    (h : location.isSegmentPage && !location.isCompressAllowed)
    : checkAndRepairCompressAddress zeroDamagedPages page chunkSize algorithm location = (.ok, page) := by
  rw [checkAndRepairCompressAddress, if_pos h]

theorem checkAndRepairCompressAddress_spec (zeroDamagedPages : Bool) (page : Memory)
    (chunkSize : ChunkSize) (algorithm : Nat)
    (h : ¬(location.isSegmentPage && !location.isCompressAllowed))
    : ∃ page₁, (∀ j, 144 ≤ j → page₁ j = page j) ∧ CfsExtentHeader.algorithm page₁ = algorithm % 128 ∧
        (Rejects zeroDamagedPages chunkSize page₁ cfsLogicBlocksPerExtent →
          (checkAndRepairCompressAddress zeroDamagedPages page chunkSize.bytes algorithm
            location).1 = .error) ∧
        (¬Rejects zeroDamagedPages chunkSize page₁ cfsLogicBlocksPerExtent →
          ∃ status page', checkAndRepairCompressAddress zeroDamagedPages page chunkSize.bytes
              algorithm location = (status, page') ∧
            Finished chunkSize page₁ page' ∧ status ≠ .error ∧
            (¬algorithm < 128 → status = .repaired)) := by
  obtain ⟨status, page₁, hheader, hsize, halgorithm, hsame, hnotError, hrepaired⟩ :=
    checkHeader_spec zeroDamagedPages chunkSize page algorithm
  obtain ⟨hreject, hpass⟩ :=
    @foldlM_checkBlock zeroDamagedPages _ _ hsize status cfsLogicBlocksPerExtent
  refine ⟨page₁, hsame, halgorithm, ?_, ?_⟩
  . intro hrejects
    obtain ⟨pcMap, heq⟩ := hreject hrejects
    rw [checkAndRepairCompressAddress, if_neg h, hheader]
    simp only [heq]
  . intro hrejects
    obtain ⟨state, heq, hchecked⟩ := hpass hrejects
    obtain ⟨status', page', hfinish, hstatus', _⟩ := hchecked.finish hsize
    have hfinished := Finished.ofChecked hsize hchecked
    have hstatus : status' = status ∨ status' = .repaired := by
      cases hstatus' with
      | inl heq =>
        rw [heq]
        exact hchecked.status
      | inr heq => exact Or.inr heq
    rw [hfinish] at hfinished
    refine ⟨status', page', ?_, hfinished, ?_, ?_⟩
    . rw [finish] at hfinish
      rw [checkAndRepairCompressAddress, if_neg h, hheader]
      simp only [heq, hfinish]
    . cases hstatus with
      | inl heq =>
        rw [heq]
        exact hnotError
      | inr heq => simp [heq]
    . intro hge
      cases hstatus with
      | inl heq => rw [heq, hrepaired hge]
      | inr heq => exact heq

theorem Finished.check {zeroDamagedPages : Bool} {chunkSize : ChunkSize} {page page' : Memory}
    {algorithm : Nat} (h : Finished chunkSize page page')
    (hlocation : ¬(location.isSegmentPage && !location.isCompressAllowed))
    (halgorithm : CfsExtentHeader.algorithm page = algorithm)
    : checkAndRepairCompressAddress zeroDamagedPages page' chunkSize.bytes algorithm location
        =
      (.ok, page') := by
  obtain ⟨state, heq, hstatus, hpage⟩ := @Finished.foldlM_checkBlock zeroDamagedPages _ _ _ h
  have hheader := @checkHeader_of_match zeroDamagedPages _ _ _ h.size (h.algorithm.trans halgorithm)
  rw [checkAndRepairCompressAddress, if_neg hlocation, hheader]
  rw [finish] at hstatus hpage
  simp only [heq, hstatus, hpage]

def KeepsPromise (zeroDamagedPages : Bool) (page : Memory) (chunkSize : ChunkSize) (algorithm : Nat)
    (location : ExtentLocation) : Prop :=
  let result := checkAndRepairCompressAddress zeroDamagedPages page chunkSize.bytes algorithm location
  result.1 ≠ .error →
    Sound chunkSize result.2 ∧
      checkAndRepairCompressAddress zeroDamagedPages result.2 chunkSize.bytes algorithm location
        = (.ok, result.2)

def DistinctWithin (chunkSize : ChunkSize) (page : Memory) : Prop :=
  ∀ b < cfsLogicBlocksPerExtent, Accepted chunkSize page b →
    (listed page (chunkSize.address b)).Nodup

theorem keepsPromise_of_checked (zeroDamagedPages : Bool) (page : Memory) (chunkSize : ChunkSize)
    (algorithm : Nat)
    (hlocation : ¬(location.isSegmentPage && !location.isCompressAllowed))
    : KeepsPromise zeroDamagedPages page chunkSize algorithm location ↔
        Rejects zeroDamagedPages chunkSize page cfsLogicBlocksPerExtent ∨
          (algorithm < 128 ∧ DistinctWithin chunkSize page) := by
  rw [KeepsPromise]
  obtain ⟨page₁, hsame, halgorithm, hreject, hpass⟩ :=
    checkAndRepairCompressAddress_spec zeroDamagedPages page chunkSize algorithm hlocation
  have hdistinct : DistinctWithin chunkSize page ↔ DistinctWithin chunkSize page₁ := by
    apply forall_congr'
    intro b
    apply imp_congr_right
    intro hb
    have haddress : SameAddress chunkSize page page₁ (chunkSize.address b) := by
      intro j hlo _
      have := chunkSize.le_address b
      exact (hsame j (by omega)).symm
    rw [accepted_congr (fun j hj => (hsame j hj).symm)]
    apply imp_congr_right
    intro hacc
    rw [haddress.symm.listed_eq hacc.allocated_le]
  have hrejects : Rejects zeroDamagedPages chunkSize page cfsLogicBlocksPerExtent ↔
      Rejects zeroDamagedPages chunkSize page₁ cfsLogicBlocksPerExtent := by
    apply and_congr_right
    intro _
    apply exists_congr
    intro b
    apply and_congr_right
    intro _
    have hmatches : Matches page (chunkSize.address b) ↔ Matches page₁ (chunkSize.address b) := by
      have := chunkSize.le_address b
      constructor
      . apply Matches.congr
        intro j hj
        exact (hsame j (by omega)).symm
      . apply Matches.congr
        intro j hj
        exact hsame j (by omega)
    rw [hmatches, accepted_congr (fun j hj => (hsame j hj).symm)]
  rw [hdistinct, hrejects]
  by_cases hrej : Rejects zeroDamagedPages chunkSize page₁ cfsLogicBlocksPerExtent
  . simp [hreject hrej, hrej]
  . obtain ⟨status, page', heq, hfinished, hstatus, hrepaired⟩ := hpass hrej
    simp only [heq, hrej, false_or]
    constructor
    . intro hkeeps
      obtain ⟨hsound, hagain⟩ := hkeeps hstatus
      apply And.intro
      . -- An algorithm that its bits do not hold is set again by every check.
        apply Decidable.byContradiction
        intro hge
        obtain ⟨page₂, _, _, hreject₂, hpass₂⟩ :=
          checkAndRepairCompressAddress_spec zeroDamagedPages page' chunkSize algorithm hlocation
        rw [hagain] at hreject₂ hpass₂
        by_cases hrej₂ : Rejects zeroDamagedPages chunkSize page₂ cfsLogicBlocksPerExtent
        . cases hreject₂ hrej₂
        . obtain ⟨_, _, heq₂, _, _, hrepaired₂⟩ := hpass₂ hrej₂
          have hok := congrArg Prod.fst heq₂
          rw [hrepaired₂ hge] at hok
          cases hok
      . exact hfinished.sound_iff.mp hsound
    . rintro ⟨hlt, hall⟩ _
      apply And.intro (hfinished.sound_iff.mpr hall)
      apply hfinished.check hlocation
      rw [halgorithm, Nat.mod_eq_of_lt hlt]

theorem keepsPromise_iff (zeroDamagedPages : Bool) (page : Memory) (chunkSize : ChunkSize)
    (algorithm : Nat) (location : ExtentLocation)
    : KeepsPromise zeroDamagedPages page chunkSize algorithm location ↔
        if location.isSegmentPage && !location.isCompressAllowed then
          Sound chunkSize page
        else
          Rejects zeroDamagedPages chunkSize page cfsLogicBlocksPerExtent ∨
            (algorithm < 128 ∧ DistinctWithin chunkSize page) := by
  by_cases hlocation : location.isSegmentPage && !location.isCompressAllowed
  . rw [if_pos hlocation, KeepsPromise]
    simp only [checkAndRepairCompressAddress_of_not_checked _ _ _ _ hlocation]
    simp
  . rw [if_neg hlocation]
    exact keepsPromise_of_checked zeroDamagedPages page chunkSize algorithm hlocation

def repeatedChunk : Memory :=
  (Memory.zero.store 0 [1, 0, 0, 0, 1, 0, 0, 0, 0, 16, 1]).store 144 [2, 2, 1, 0, 1, 2, 1, 0, 1, 0]

theorem not_keepsPromise_repeatedChunk
    : ¬KeepsPromise true repeatedChunk .half 1 ⟨false, false⟩ := by
  rw [keepsPromise_of_checked _ _ _ _ (by decide)]
  rintro (⟨hoff, _⟩ | ⟨_, hdistinct⟩)
  . cases hoff
  . have haccepted : Accepted .half repeatedChunk 0 := by decide
    exact absurd (hdistinct 0 (by decide) haccepted) (by decide)

end Cfs

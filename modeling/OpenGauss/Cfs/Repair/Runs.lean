import OpenGauss.Cfs.Repair.Lemmas

/-!
This module contains the verification of the check and repair of a whole PCA page.
-/

open List

namespace Cfs

open LittleEndian CfsExtentAddress

def ownedBefore (chunkSize : ChunkSize) (page : Memory) : Nat → List Nat
  | 0 => []
  | blocknum + 1 =>
    let owned := ownedBefore chunkSize page blocknum
    if Accepts chunkSize page owned (chunkSize.address blocknum) then
      owned ++ listed page (chunkSize.address blocknum)
    else
      owned

abbrev Accepted (chunkSize : ChunkSize) (page : Memory) (blocknum : Nat) : Prop :=
  Accepts chunkSize page (ownedBefore chunkSize page blocknum) (chunkSize.address blocknum)

theorem ownedBefore_succ_of_accepted {chunkSize : ChunkSize} {page : Memory} {blocknum : Nat}
    (h : Accepted chunkSize page blocknum)
    : ownedBefore chunkSize page (blocknum + 1)
        =
      ownedBefore chunkSize page blocknum ++ listed page (chunkSize.address blocknum) := by
  rw [ownedBefore, if_pos h]

theorem ownedBefore_succ_of_not_accepted {chunkSize : ChunkSize} {page : Memory} {blocknum : Nat}
    (h : ¬Accepted chunkSize page blocknum)
    : ownedBefore chunkSize page (blocknum + 1) = ownedBefore chunkSize page blocknum := by
  rw [ownedBefore, if_neg h]

theorem Matches.congr {mem mem' : Memory} {addr : Nat} (h : ∀ j, addr ≤ j → mem j = mem' j)
    (hmatches : Matches mem addr)
    : Matches mem' addr := by
  have hsame : SameAddress .half mem mem' addr := by
    intro j hlo _
    exact h j hlo
  rw [Matches, ← hsame.checksum_eq, ← hsame.allocatedChunks_eq, hmatches, addrChecksum32,
    addrChecksum32, addrChecksum32.go_congr]
  intro j hlo _
  apply h
  omega

structure Checked (chunkSize : ChunkSize) (page : Memory) (status : CfsHeaderPagerCheckStatus)
    (count : Nat) (state : CheckState) : Prop where
  same : ∀ j, j < 144 ∨ chunkSize.address count ≤ j → state.pcMap j = page j
  accepted : ∀ b < count, Accepted chunkSize page b →
    SameAddress chunkSize state.pcMap (cleaned chunkSize page (chunkSize.address b))
      (chunkSize.address b)
  zeroed : ∀ b < count, ¬Accepted chunkSize page b →
    ZeroAddress chunkSize state.pcMap (chunkSize.address b)
  owns : Owns state.globalChunknos (ownedBefore chunkSize page count)
  maxAllocated : state.maxAllocatedChunkno = (ownedBefore chunkSize page count).foldl max 0
  nonzero : ∀ b < count, Accepted chunkSize page b → 0 < nchunks page (chunkSize.address b) →
    b ≤ state.maxNonzeroBlocknum ∧ state.maxNonzeroBlocknum < count
  noNonzero : state.maxNonzeroBlocknum = 65535 ∨
    (state.maxNonzeroBlocknum < count ∧ Accepted chunkSize page state.maxNonzeroBlocknum ∧
      0 < nchunks page (chunkSize.address state.maxNonzeroBlocknum))
  block : ∀ b < count, Accepted chunkSize page b →
    b ≤ state.maxBlocknum ∧ state.maxBlocknum < count
  noBlock : state.maxBlocknum = 65535 ∨ state.maxBlocknum < count
  status : state.status = status ∨ state.status = .repaired

section Run

variable {zeroDamagedPages : Bool} {chunkSize : ChunkSize} {page : Memory}
variable {status : CfsHeaderPagerCheckStatus} {count : Nat} {state : CheckState}

theorem Checked.start (page : Memory) (status : CfsHeaderPagerCheckStatus)
    : Checked chunkSize page status 0 ⟨page, status, fun _ => 0, 65535, 65535, 0⟩ := by
  constructor
  . intros
    rfl
  . intro b hb
    omega
  . intro b hb
    omega
  . intro chunkno _
    simp [ownedBefore]
  . rfl
  . intro b hb
    omega
  . apply Or.inl rfl
  . intro b hb
    omega
  . apply Or.inl rfl
  . apply Or.inl rfl

section

variable (h : Checked chunkSize page status count state)
include h

theorem Checked.sameFrom (j : Nat) (hj : chunkSize.address count ≤ j) : state.pcMap j = page j := by
  exact h.same j (Or.inr hj)

theorem Checked.sameAddress : SameAddress chunkSize state.pcMap page (chunkSize.address count) := by
  intro j hlo _
  exact h.sameFrom j hlo

end

theorem Checked.keeps {state' : CheckState} {b : Nat} (hb : b < count)
    (hout : ∀ j, j < chunkSize.address count → state'.pcMap j = state.pcMap j)
    : SameAddress chunkSize state'.pcMap state.pcMap (chunkSize.address b) := by
  intro j _ hhi
  apply hout
  have := chunkSize.address_add_le hb
  omega

section

variable (h : Checked chunkSize page status count state)
include h

theorem Checked.zero (hnot : ¬Accepted chunkSize page count) {maxBlocknum : Nat}
    (hmax : maxBlocknum = count ∨ maxBlocknum = state.maxBlocknum)
    : Checked chunkSize page status (count + 1)
        (state.zeroed chunkSize (chunkSize.address count) maxBlocknum) := by
  have hlt : ∀ b < count + 1, Accepted chunkSize page b → b < count := by
    intro b hb hacc
    have : b ≠ count := by
      rintro rfl
      exact hnot hacc
    omega
  have hout : ∀ j, j < chunkSize.address count ∨ chunkSize.address (count + 1) ≤ j →
      (state.zeroed chunkSize (chunkSize.address count) maxBlocknum).pcMap j = state.pcMap j := by
    intro j hj
    rw [chunkSize.address_succ] at hj
    simp only [CheckState.zeroed, CheckState.repair]
    rw [zeroAddress_apply, if_neg (by omega)]
  have hkeeps : ∀ b < count, SameAddress chunkSize
      (state.zeroed chunkSize (chunkSize.address count) maxBlocknum).pcMap state.pcMap
      (chunkSize.address b) := by
    intro b hb
    apply Checked.keeps hb
    intro j hj
    exact hout j (Or.inl hj)
  constructor
  . intro j hj
    have := chunkSize.le_address count
    have := chunkSize.address_succ count
    rw [hout j (by omega), h.same j (by omega)]
  . intro b hb hacc j hlo hhi
    have hb := hlt b hb hacc
    rw [hkeeps b hb j hlo hhi]
    exact h.accepted b hb hacc j hlo hhi
  . intro b hb hacc
    by_cases heq : b = count
    . rw [heq]
      apply zeroAddress_zero
    . have hb : b < count := by omega
      intro j hlo hhi
      rw [hkeeps b hb j hlo hhi]
      exact h.zeroed b hb hacc j hlo hhi
  . rw [ownedBefore_succ_of_not_accepted hnot]
    exact h.owns
  . rw [ownedBefore_succ_of_not_accepted hnot]
    exact h.maxAllocated
  . intro b hb hacc hpos
    have := h.nonzero b (hlt b hb hacc) hacc hpos
    simp only [CheckState.zeroed, CheckState.repair]
    omega
  . apply h.noNonzero.imp_right
    rintro ⟨hlt, hrest⟩
    exact ⟨Nat.lt_succ_of_lt hlt, hrest⟩
  . intro b hb hacc
    have := h.block b (hlt b hb hacc) hacc
    simp only [CheckState.zeroed]
    omega
  . have := h.noBlock
    simp only [CheckState.zeroed]
    omega
  . apply Or.inr rfl

theorem Checked.accept (haccepted : Accepted chunkSize page count)
    : Checked chunkSize page status (count + 1) (recordBlock count (chunkSize.address count)
          (cleanChunknos chunkSize.bytes (chunkSize.address count) state)) := by
  have haccepts := haccepted.congr h.sameAddress.symm
  have hle := haccepts.allocated_le
  obtain ⟨cleanStatus, hclean, hstatus⟩ :=
    @cleanChunknos_eq chunkSize (chunkSize.address count) state
  obtain ⟨hnchunks, _, hlisted⟩ := listed_cleaned hle
  have hnchunks' := h.sameAddress.nchunks_eq
  have hlisted' := h.sameAddress.listed_eq hle
  rw [hclean, recordBlock]
  simp only [hlisted, hlisted', hnchunks, hnchunks']
  obtain ⟨globalChunknos, heq, howns⟩ :=
    foldl_own count (listed page (chunkSize.address count))
      { state with
        pcMap := cleaned chunkSize state.pcMap (chunkSize.address count)
        status := cleanStatus
        maxBlocknum := count
        maxNonzeroBlocknum :=
          if 0 < nchunks page (chunkSize.address count) then count else state.maxNonzeroBlocknum }
  rw [heq]
  have hout : ∀ j, j < chunkSize.address count ∨ chunkSize.address (count + 1) ≤ j →
      cleaned chunkSize state.pcMap (chunkSize.address count) j = state.pcMap j := by
    intro j hj
    rw [chunkSize.address_succ] at hj
    rw [cleaned_apply hle, if_neg (by omega)]
  have hkeeps : ∀ b < count, SameAddress chunkSize
      (cleaned chunkSize state.pcMap (chunkSize.address count)) state.pcMap
      (chunkSize.address b) := by
    intro b hb j _ hhi
    apply hout
    have := chunkSize.address_add_le hb
    omega
  constructor
  . intro j hj
    have := chunkSize.le_address count
    have := chunkSize.address_succ count
    simp only
    rw [hout j (by omega), h.same j (by omega)]
  . intro b hb hacc
    by_cases heq : b = count
    . intro j hlo hhi
      rw [heq] at hlo hhi ⊢
      simp only
      rw [cleaned_apply hle, h.sameAddress.allocatedChunks_eq,
        cleaned_apply haccepted.allocated_le, h.sameAddress j hlo hhi]
    . have hb : b < count := by omega
      intro j hlo hhi
      simp only
      rw [hkeeps b hb j hlo hhi]
      exact h.accepted b hb hacc j hlo hhi
  . intro b hb hacc
    have : b ≠ count := by
      rintro rfl
      exact hacc haccepted
    have hb : b < count := by omega
    intro j hlo hhi
    simp only
    rw [hkeeps b hb j hlo hhi]
    exact h.zeroed b hb hacc j hlo hhi
  . rw [ownedBefore_succ_of_accepted haccepted]
    apply howns _ h.owns
    intro chunkno hmem
    exact (haccepted.chunknos chunkno hmem).1
  . rw [ownedBefore_succ_of_accepted haccepted, foldl_append, ← h.maxAllocated]
  . intro b hb hacc hpos
    simp only
    split
    . omega
    . rename_i hzero
      have : b ≠ count := by
        rintro rfl
        exact hzero hpos
      have := h.nonzero b (by omega) hacc hpos
      omega
  . simp only
    split
    . rename_i hpos
      exact Or.inr ⟨Nat.lt_succ_self count, haccepted, hpos⟩
    . apply h.noNonzero.imp_right
      rintro ⟨hlt, hrest⟩
      exact ⟨Nat.lt_succ_of_lt hlt, hrest⟩
  . intro b hb hacc
    simp only
    omega
  . apply Or.inr
    simp only
    omega
  . simp only
    have := h.status
    cases hstatus with
    | inl heq =>
      rw [heq]
      exact this
    | inr heq => exact Or.inr heq

end

def Rejects (zeroDamagedPages : Bool) (chunkSize : ChunkSize) (page : Memory) (count : Nat) : Prop :=
  zeroDamagedPages = false ∧
    ∃ b < count, Matches page (chunkSize.address b) ∧ ¬Accepted chunkSize page b

section

variable (hsize : CfsExtentHeader.chunkSize page = chunkSize.bytes)
include hsize

theorem Checked.step (h : Checked chunkSize page status count state)
    : if zeroDamagedPages = false ∧ Matches page (chunkSize.address count) ∧
          ¬Accepted chunkSize page count then
        ∃ pcMap, checkBlock zeroDamagedPages chunkSize.bytes state count = .error pcMap
      else
        ∃ state', checkBlock zeroDamagedPages chunkSize.bytes state count = .ok state' ∧
          Checked chunkSize page status (count + 1) state' := by
  have hsize' : CfsExtentHeader.chunkSize state.pcMap = chunkSize.bytes := by
    rw [← hsize]
    apply CfsExtentHeader.chunkSize_congr
    intro j hj
    exact h.same j (Or.inl hj)
  by_cases haccepted : Accepted chunkSize page count
  . rw [if_neg (by simp [haccepted])]
    apply Exists.intro
    apply And.intro
    . apply checkBlock_of_accepts hsize' h.owns
      exact haccepted.congr h.sameAddress.symm
    . exact h.accept haccepted
  . by_cases hmatches : Matches page (chunkSize.address count)
    . have hmatches' : Matches state.pcMap (chunkSize.address count) := by
        apply hmatches.congr
        intro j hj
        exact (h.sameFrom j hj).symm
      have hrejected := @checkBlock_of_rejected zeroDamagedPages _ _ _ _ hsize' h.owns hmatches' (by
          intro haccepts
          exact haccepted (haccepts.congr h.sameAddress))
      cases zeroDamagedPages with
      | false =>
        rw [if_pos ⟨rfl, hmatches, haccepted⟩]
        exact hrejected
      | true =>
        rw [if_neg (by simp)]
        obtain ⟨maxBlocknum, hmax, heq⟩ := hrejected
        exact ⟨_, heq, h.zero haccepted hmax⟩
    . rw [if_neg (by simp [hmatches])]
      apply Exists.intro
      apply And.intro
      . apply checkBlock_of_not_matches hsize'
        intro hmatches'
        apply hmatches
        exact hmatches'.congr h.sameFrom
      . exact h.zero haccepted (Or.inl rfl)

theorem foldlM_checkBlock (status : CfsHeaderPagerCheckStatus) (count : Nat)
    : (Rejects zeroDamagedPages chunkSize page count →
        ∃ pcMap, (List.range count).foldlM (checkBlock zeroDamagedPages chunkSize.bytes)
          ⟨page, status, fun _ => 0, 65535, 65535, 0⟩ = .error pcMap) ∧
      (¬Rejects zeroDamagedPages chunkSize page count →
        ∃ state, (List.range count).foldlM (checkBlock zeroDamagedPages chunkSize.bytes)
            ⟨page, status, fun _ => 0, 65535, 65535, 0⟩ = .ok state ∧
          Checked chunkSize page status count state) := by
  induction count with
  | zero =>
    apply And.intro
    . rintro ⟨_, b, hb, _⟩
      omega
    . intro _
      exact ⟨_, rfl, Checked.start page status⟩
  | succ count ih =>
    rw [range_succ, foldlM_append]
    by_cases hbefore : Rejects zeroDamagedPages chunkSize page count
    . obtain ⟨pcMap, heq⟩ := ih.1 hbefore
      rw [heq]
      apply And.intro
      . intro _
        exact ⟨pcMap, rfl⟩
      . intro hnot
        obtain ⟨hzero, b, hb, hrest⟩ := hbefore
        exact absurd ⟨hzero, b, by omega, hrest⟩ hnot
    . obtain ⟨state, heq, hchecked⟩ := ih.2 hbefore
      have hstep := @Checked.step zeroDamagedPages _ _ _ _ _ hsize hchecked
      rw [heq]
      simp only [bind, Except.bind, foldlM_cons, foldlM_nil]
      by_cases hcount : zeroDamagedPages = false ∧ Matches page (chunkSize.address count) ∧
          ¬Accepted chunkSize page count
      . rw [if_pos hcount] at hstep
        obtain ⟨pcMap, heq⟩ := hstep
        rw [heq]
        apply And.intro
        . intro _
          exact ⟨pcMap, rfl⟩
        . intro hnot
          exact absurd ⟨hcount.1, count, by omega, hcount.2⟩ hnot
      . rw [if_neg hcount] at hstep
        obtain ⟨state', heq, hchecked'⟩ := hstep
        rw [heq]
        apply And.intro
        . rintro ⟨hzero, b, hb, hrest⟩
          have : b ≠ count := by
            rintro rfl
            exact hcount ⟨hzero, hrest⟩
          exact absurd ⟨hzero, b, by omega, hrest⟩ hbefore
        . intro _
          exact ⟨state', rfl, hchecked'⟩

theorem foldlM_checkBlock_of_clean (status : CfsHeaderPagerCheckStatus) (count : Nat)
    (haccepted : ∀ b < count, Accepted chunkSize page b)
    (hclean : ∀ b < count, ∀ i, allocatedChunks page (chunkSize.address b) ≤ i →
      i < blcksz / chunkSize.bytes → chunknos page (chunkSize.address b) i = 0)
    : ∃ state, (List.range count).foldlM (checkBlock zeroDamagedPages chunkSize.bytes)
          ⟨page, status, fun _ => 0, 65535, 65535, 0⟩ = .ok state ∧
        Checked chunkSize page status count state ∧ state.pcMap = page ∧ state.status = status := by
  induction count with
  | zero => exact ⟨_, rfl, Checked.start page status, rfl, rfl⟩
  | succ count ih =>
    obtain ⟨state, heq, hchecked, hpage, hstatus⟩ := ih
      (fun b hb => haccepted b (by omega)) (fun b hb => hclean b (by omega))
    have hlast := haccepted count (by omega)
    have hsize' : CfsExtentHeader.chunkSize state.pcMap = chunkSize.bytes := by
      rw [hpage, hsize]
    have hkeep : cleanChunknos chunkSize.bytes (chunkSize.address count) state = state := by
      apply cleanChunknos_of_zero
      rw [hpage]
      exact hclean count (by omega)
    have hok := @checkBlock_of_accepts zeroDamagedPages _ _ _ _ hsize' hchecked.owns
      (hlast.congr hchecked.sameAddress.symm)
    have hnext := hchecked.accept hlast
    rw [hkeep] at hok hnext
    rw [range_succ, foldlM_append, heq]
    simp only [bind, Except.bind, foldlM_cons, foldlM_nil, hok]
    refine ⟨_, rfl, hnext, ?_⟩
    obtain ⟨_, heq, _⟩ := foldl_own count (listed state.pcMap (chunkSize.address count))
      { state with
        maxBlocknum := count
        maxNonzeroBlocknum :=
          if 0 < nchunks state.pcMap (chunkSize.address count) then
            count
          else
            state.maxNonzeroBlocknum }
    rw [recordBlock, heq]
    exact ⟨hpage, hstatus⟩

end

theorem cleanAddresses_eq (hsize : CfsExtentHeader.chunkSize state.pcMap = chunkSize.bytes)
    (hzero : ∀ b, (state.maxBlocknum + 1) % 2 ^ 16 ≤ b → b < cfsLogicBlocksPerExtent →
      ZeroAddress chunkSize state.pcMap (chunkSize.address b))
    : cleanAddresses chunkSize.bytes state = state := by
  rw [cleanAddresses]
  apply List.foldlRecOn (motive := fun state' => state' = state)
  . rfl
  . intro state' heq b hb
    rw [mem_range'_1] at hb
    have hb := hzero b hb.1 (by omega)
    rw [heq, chunkSize.getExtentAddress_eq hsize, if_pos]
    exact ⟨hb.allocatedChunks_eq, hb.nchunks_eq⟩

end Run

def allListed (page : Memory) (count : Nat) : List Nat :=
  (List.range count).flatMap (fun b => listed page (getExtentAddress page b))

structure Sound (chunkSize : ChunkSize) (page : Memory) : Prop where
  distinct : (allListed page cfsLogicBlocksPerExtent).Nodup
  range : ∀ chunkno ∈ allListed page cfsLogicBlocksPerExtent,
    1 ≤ chunkno ∧ chunkno ≤ cfsMaxLogicChunksNumber chunkSize.bytes
  nchunks_le : ∀ b < cfsLogicBlocksPerExtent,
    nchunks page (getExtentAddress page b) ≤ allocatedChunks page (getExtentAddress page b)
  allocated_le : ∀ b < cfsLogicBlocksPerExtent,
    allocatedChunks page (getExtentAddress page b) ≤ blcksz / chunkSize.bytes
  allocated : CfsExtentHeader.allocatedChunks page
    = (allListed page cfsLogicBlocksPerExtent).foldl max 0
  nblocks : ∀ b < cfsLogicBlocksPerExtent, 0 < nchunks page (getExtentAddress page b) →
    b < CfsExtentHeader.nblocks page
  checksum : ∀ b < cfsLogicBlocksPerExtent, Matches page (getExtentAddress page b)

section Header

variable {zeroDamagedPages : Bool} {chunkSize : ChunkSize} {page : Memory} {algorithm : Nat}

theorem algorithm_setAlgorithm (page : Memory) (algorithm : Nat)
    : CfsExtentHeader.algorithm (CfsExtentHeader.setAlgorithm page algorithm) = algorithm % 128 := by
  have hlt := (page 10).toNat_lt
  rw [CfsExtentHeader.algorithm, CfsExtentHeader.setAlgorithm, Memory.store, if_pos (by simp)]
  have hval : algorithm % 128 + (page 10).toNat / 128 * 128 < 256 := by omega
  simp only [Nat.sub_self, getD_cons_zero, UInt8.toNat_ofNat']
  omega

theorem setAlgorithm_outside (page : Memory) (algorithm : Nat) {j : Nat} (h : j ≠ 10)
    : CfsExtentHeader.setAlgorithm page algorithm j = page j := by
  apply Memory.store_outside
  simp only [length_cons, length_nil]
  omega

theorem chunkSize_setChunkSize (page : Memory) (chunkSize : ChunkSize)
    : CfsExtentHeader.chunkSize (CfsExtentHeader.setChunkSize page chunkSize.bytes) = chunkSize.bytes := by
  apply decode_load_store
  exact chunkSize.bytes_lt

theorem checkHeader_of_mismatch (h : CfsExtentHeader.chunkSize page ≠ chunkSize.bytes ∨
      CfsExtentHeader.algorithm page ≠ algorithm)
    : ∃ page', checkHeaderOfCompressAddr zeroDamagedPages page chunkSize.bytes algorithm
          = (.repaired, page') ∧
        CfsExtentHeader.chunkSize page' = chunkSize.bytes ∧
        CfsExtentHeader.algorithm page' = algorithm % 128 ∧ ∀ j, 144 ≤ j → page' j = page j := by
  have hsize : ∀ page, CfsExtentHeader.chunkSize
      (CfsExtentHeader.setAlgorithm (CfsExtentHeader.setChunkSize page chunkSize.bytes) algorithm)
        = chunkSize.bytes := by
    intro page
    refine Eq.trans ?_ (chunkSize_setChunkSize page chunkSize)
    apply decode_load_congr
    intro j _ hj
    apply setAlgorithm_outside
    omega
  rw [checkHeaderOfCompressAddr, if_pos h]
  split
  . refine ⟨_, rfl, hsize _, algorithm_setAlgorithm _ _, ?_⟩
    intro j hj
    rw [setAlgorithm_outside _ _ (by omega), CfsExtentHeader.setChunkSize,
      store_encode_outside (by omega), CfsExtentHeader.setAllocatedChunks,
      store_encode_outside (by omega), CfsExtentHeader.setNblocks, store_encode_outside (by omega)]
  . refine ⟨_, rfl, hsize _, algorithm_setAlgorithm _ _, ?_⟩
    intro j hj
    rw [setAlgorithm_outside _ _ (by omega), CfsExtentHeader.setChunkSize, store_encode_outside (by omega)]

theorem checkHeader_of_match (hsize : CfsExtentHeader.chunkSize page = chunkSize.bytes)
    (halgorithm : CfsExtentHeader.algorithm page = algorithm)
    : checkHeaderOfCompressAddr zeroDamagedPages page chunkSize.bytes algorithm = (.ok, page) := by
  rw [checkHeaderOfCompressAddr, if_neg]
  simp [hsize, halgorithm]

theorem checkHeader_spec (zeroDamagedPages : Bool) (chunkSize : ChunkSize) (page : Memory) (algorithm : Nat)
    : ∃ status page', checkHeaderOfCompressAddr zeroDamagedPages page chunkSize.bytes algorithm
          = (status, page') ∧
        CfsExtentHeader.chunkSize page' = chunkSize.bytes ∧
        CfsExtentHeader.algorithm page' = algorithm % 128 ∧ (∀ j, 144 ≤ j → page' j = page j) ∧
        status ≠ .error ∧ (¬algorithm < 128 → status = .repaired) := by
  by_cases h : CfsExtentHeader.chunkSize page = chunkSize.bytes ∧ CfsExtentHeader.algorithm page = algorithm
  . have hlt : algorithm < 128 := by
      rw [← h.2]
      apply Nat.mod_lt
      omega
    refine ⟨_, page, checkHeader_of_match h.1 h.2, h.1, ?_, ?_, ?_, ?_⟩
    . rw [h.2, Nat.mod_eq_of_lt hlt]
    . intros
      rfl
    . simp
    . intro hnot
      exact absurd hlt hnot
  . obtain ⟨page', heq, hsize, halgorithm, hsame⟩ :=
      @checkHeader_of_mismatch zeroDamagedPages _ _ _ (not_and_or.mp h)
    exact ⟨_, page', heq, hsize, halgorithm, hsame, by simp, fun _ => rfl⟩

end Header

end Cfs

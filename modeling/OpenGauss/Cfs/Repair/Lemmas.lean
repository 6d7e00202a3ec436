import OpenGauss.Cfs.Lemmas

/-!
This module contains the verification of the checks of one block of a PCA page.
-/

open List Memory

namespace Cfs

open LittleEndian CfsExtentAddress

variable {mem : Memory}

abbrev ZeroAddress (chunkSize : ChunkSize) (mem : Memory) (addr : Nat) : Prop :=
  SameAddress chunkSize mem Memory.zero addr

def Matches (mem : Memory) (addr : Nat) : Prop :=
  checksum mem addr = addrChecksum32 mem addr (allocatedChunks mem addr)

instance (mem : Memory) (addr : Nat) : Decidable (Matches mem addr) :=
  inferInstanceAs (Decidable (checksum mem addr = _))

structure Accepts (chunkSize : ChunkSize) (mem : Memory) (owned : List Nat) (addr : Nat) : Prop where
  checksum : Matches mem addr
  allocated_le : allocatedChunks mem addr ≤ blcksz / chunkSize.bytes
  chunknos : ∀ chunkno ∈ listed mem addr,
    0 < chunkno ∧ chunkno ≤ cfsMaxLogicChunksNumber chunkSize.bytes ∧ chunkno ∉ owned
  nchunks_le : nchunks mem addr ≤ allocatedChunks mem addr

instance (chunkSize : ChunkSize) (mem : Memory) (owned : List Nat) (addr : Nat)
    : Decidable (Accepts chunkSize mem owned addr) :=
  decidable_of_iff
    (Matches mem addr ∧ allocatedChunks mem addr ≤ blcksz / chunkSize.bytes ∧
      (∀ chunkno ∈ listed mem addr,
        0 < chunkno ∧ chunkno ≤ cfsMaxLogicChunksNumber chunkSize.bytes ∧ chunkno ∉ owned) ∧
      nchunks mem addr ≤ allocatedChunks mem addr)
    ⟨fun h => ⟨h.1, h.2.1, h.2.2.1, h.2.2.2⟩, fun h => ⟨h.1, h.2, h.3, h.4⟩⟩

def Owns (globalChunknos : Nat → Nat) (owned : List Nat) : Prop :=
  ∀ chunkno, 0 < chunkno → (globalChunknos (chunkno - 1) ≠ 0 ↔ chunkno ∈ owned)

section Zero

variable {chunkSize : ChunkSize} {mem : Memory} {addr : Nat}

variable (h : ZeroAddress chunkSize mem addr)
include h

theorem ZeroAddress.allocatedChunks_eq : allocatedChunks mem addr = 0 := by
  rw [SameAddress.allocatedChunks_eq h]
  rfl

theorem ZeroAddress.nchunks_eq : nchunks mem addr = 0 := by
  rw [SameAddress.nchunks_eq h]
  rfl

theorem ZeroAddress.listed_eq : listed mem addr = [] := by
  rw [listed, h.allocatedChunks_eq]
  rfl

theorem ZeroAddress.chunknos_eq {i : Nat} (hi : i < blcksz / chunkSize.bytes)
    : chunknos mem addr i = 0 := by
  rw [SameAddress.chunknos_eq h hi]
  apply decode_load_zero
  intros
  rfl

theorem ZeroAddress.accepts (owned : List Nat) : Accepts chunkSize mem owned addr := by
  constructor
  . rw [Matches, h.allocatedChunks_eq, SameAddress.checksum_eq h,
      SameAddress.addrChecksum32_eq h (Nat.zero_le _), addrChecksum32, addrChecksum32.go_zero]
    . apply decode_load_zero
      intros
      rfl
    . intros
      rfl
  . rw [h.allocatedChunks_eq]
    apply Nat.zero_le
  . rw [h.listed_eq]
    intro chunkno hmem
    cases hmem
  . rw [h.nchunks_eq]
    apply Nat.zero_le

end Zero

theorem SameAddress.matches {chunkSize : ChunkSize} {mem' : Memory} {addr : Nat}
    (h : SameAddress chunkSize mem mem' addr)
    (hle : allocatedChunks mem addr ≤ blcksz / chunkSize.bytes) (hmatches : Matches mem addr)
    : Matches mem' addr := by
  rw [Matches, ← h.checksum_eq, ← h.allocatedChunks_eq, ← h.addrChecksum32_eq hle]
  exact hmatches

theorem Accepts.congr {chunkSize : ChunkSize} {mem' : Memory} {owned : List Nat} {addr : Nat}
    (h : SameAddress chunkSize mem mem' addr) (haccepts : Accepts chunkSize mem owned addr)
    : Accepts chunkSize mem' owned addr := by
  have hle := haccepts.allocated_le
  constructor
  . exact h.matches hle haccepts.checksum
  . rw [← h.allocatedChunks_eq]
    exact hle
  . rw [← h.listed_eq hle]
    exact haccepts.chunknos
  . rw [← h.nchunks_eq, ← h.allocatedChunks_eq]
    exact haccepts.nchunks_le

theorem zeroAddress_apply (mem : Memory) (addr : Nat) (chunkSize : ChunkSize) (j : Nat)
    : zeroAddress mem addr chunkSize.bytes j
        =
      if addr ≤ j ∧ j < addr + chunkSize.addressSize then 0 else mem j := by
  rw [zeroAddress, chunkSize.sizeOfExtentAddress_eq, store, length_replicate]
  split
  . rw [getD_replicate _ (by omega)]
  . rfl

theorem zeroAddress_zero (mem : Memory) (addr : Nat) (chunkSize : ChunkSize)
    : ZeroAddress chunkSize (zeroAddress mem addr chunkSize.bytes) addr := by
  intro j hlo hhi
  rw [zeroAddress_apply, if_pos ⟨hlo, hhi⟩]
  rfl

theorem foldl_setChunkno_zero (mem : Memory) (addr lo n j : Nat)
    : (List.range' lo n).foldl (fun m i => setChunkno m addr i 0) mem j
        =
      if addr + 6 + 2 * lo ≤ j ∧ j < addr + 6 + 2 * (lo + n) then 0 else mem j := by
  induction n with
  | zero =>
    rw [if_neg (by omega)]
    rfl
  | succ n ih =>
    rw [range'_concat, foldl_append, foldl_cons, foldl_nil, setChunkno, store]
    simp only [length_encode, Nat.one_mul]
    split
    . rw [if_pos (by omega), getD_eq_getElem?_getD]
      have : j - (addr + 6 + 2 * (lo + n)) = 0 ∨ j - (addr + 6 + 2 * (lo + n)) = 1 := by omega
      cases this with
      | inl h =>
        rw [h]
        rfl
      | inr h =>
        rw [h]
        rfl
    . rw [ih]
      split
      . rw [if_pos (by omega)]
      . rw [if_neg (by omega)]

section Step

variable {zeroDamagedPages : Bool} {chunkSize : ChunkSize} {addr : Nat}

theorem checkChecksum_of_matches {state : CheckState} (h : Matches state.pcMap addr)
    : checkChecksum chunkSize.bytes addr state = state := by
  rw [checkChecksum, if_neg]
  intro hne
  exact hne h

theorem checkChecksum_of_not_matches {state : CheckState} (h : ¬Matches state.pcMap addr)
    : checkChecksum chunkSize.bytes addr state
        =
      state.repair (zeroAddress state.pcMap addr chunkSize.bytes) := by
  have hne : checksum state.pcMap addr ≠
      addrChecksum32 state.pcMap addr (allocatedChunks state.pcMap addr) := h
  have hsize : chunkSize.addressSize = 6 + 2 * (blcksz / chunkSize.bytes) := rfl
  rw [checkChecksum, if_pos hne]
  apply congrArg state.repair
  apply ext
  intro j
  rw [zeroAddress_apply, hsize, setChecksum, store, length_encode]
  split
  . rw [if_pos (by omega), getD_eq_getElem?_getD]
    obtain ⟨i, rfl⟩ := Nat.exists_eq_add_of_le (show addr ≤ j by omega)
    have hi : i = 0 ∨ i = 1 ∨ i = 2 ∨ i = 3 := by omega
    rw [Nat.add_sub_cancel_left]
    rcases hi with rfl | rfl | rfl | rfl <;> rfl
  . rw [range_eq_range', foldl_setChunkno_zero]
    split
    . rw [if_pos (by omega)]
    . rw [setAllocatedChunks, store, length_encode]
      split
      . have : j - (addr + 5) = 0 := by omega
        rw [if_pos (by omega), this]
        rfl
      . rw [setNchunks, store, length_encode]
        split
        . have : j - (addr + 4) = 0 := by omega
          rw [if_pos (by omega), this]
          rfl
        . rw [if_neg (by omega)]

theorem isDamagedChunkno_eq_false_iff {globalChunknos : Nat → Nat} {owned : List Nat}
    (ho : Owns globalChunknos owned) (chunkno : Nat)
    : isDamagedChunkno chunkSize.bytes globalChunknos chunkno = false ↔
        0 < chunkno ∧ chunkno ≤ cfsMaxLogicChunksNumber chunkSize.bytes ∧ chunkno ∉ owned := by
  by_cases hzero : chunkno = 0
  . simp [isDamagedChunkno, hzero]
  . have hpos : 0 < chunkno := by omega
    rw [← ho chunkno hpos]
    simp [isDamagedChunkno, hzero, hpos]

theorem checkChunknos_of_not_damaged {state : CheckState} (fuel i : Nat)
    (h : ∀ i < allocatedChunks state.pcMap addr,
      isDamagedChunkno chunkSize.bytes state.globalChunknos (chunknos state.pcMap addr i) = false)
    : checkChunknos zeroDamagedPages chunkSize.bytes addr fuel i state = .ok state := by
  induction fuel generalizing i with
  | zero => rfl
  | succ fuel ih =>
    rw [checkChunknos]
    split
    . rename_i hi
      rw [h i hi]
      apply ih
    . rfl

theorem checkChunknos_of_zero {state : CheckState} (fuel i : Nat) (h : allocatedChunks state.pcMap addr = 0)
    : checkChunknos zeroDamagedPages chunkSize.bytes addr fuel i state = .ok state := by
  apply checkChunknos_of_not_damaged
  rw [h]
  intro i hi
  omega

theorem checkChunknos_of_damaged {state : CheckState} (fuel i : Nat)
    (hfuel : allocatedChunks state.pcMap addr ≤ i + fuel)
    (h : ∃ i', i ≤ i' ∧ i' < allocatedChunks state.pcMap addr ∧
      isDamagedChunkno chunkSize.bytes state.globalChunknos (chunknos state.pcMap addr i') = true)
    : checkChunknos zeroDamagedPages chunkSize.bytes addr fuel i state
        =
      if zeroDamagedPages then
        .ok (state.repair (zeroAddress state.pcMap addr chunkSize.bytes))
      else
        .error state.pcMap := by
  obtain ⟨i', hle, hlt, hdamaged⟩ := h
  induction fuel generalizing i with
  | zero => omega
  | succ fuel ih =>
    rw [checkChunknos, if_pos (by omega)]
    by_cases hd : isDamagedChunkno chunkSize.bytes state.globalChunknos (chunknos state.pcMap addr i)
    . rw [if_pos hd]
      cases zeroDamagedPages with
      | true =>
        rw [if_pos rfl, if_pos rfl]
        apply checkChunknos_of_zero
        apply ZeroAddress.allocatedChunks_eq
        apply zeroAddress_zero
      | false => rfl
    . rw [if_neg hd]
      apply ih
      . omega
      . have : i ≠ i' := by
          rintro rfl
          exact hd hdamaged
        omega

theorem setChunkno_zero_of_zero {i : Nat} (h : chunknos mem addr i = 0)
    : setChunkno mem addr i 0 = mem := by
  have henc := encode_decode (mem.load (addr + 6 + 2 * i) 2)
  rw [length_load, ← chunknos, h] at henc
  rw [setChunkno, henc, store_load]

def cleaned (chunkSize : ChunkSize) (mem : Memory) (addr : Nat) : Memory :=
  (List.range' (allocatedChunks mem addr)
    (blcksz / chunkSize.bytes - allocatedChunks mem addr)).foldl
      (fun m i => setChunkno m addr i 0) mem

theorem cleaned_apply (hle : allocatedChunks mem addr ≤ blcksz / chunkSize.bytes) (j : Nat)
    : cleaned chunkSize mem addr j
        =
      if addr + 6 + 2 * allocatedChunks mem addr ≤ j ∧ j < addr + chunkSize.addressSize then
        0
      else
        mem j := by
  have hsize : chunkSize.addressSize = 6 + 2 * (blcksz / chunkSize.bytes) := rfl
  rw [cleaned, foldl_setChunkno_zero, hsize, Nat.add_sub_cancel' hle, ← Nat.add_assoc addr 6]

theorem cleanChunknos_eq {state : CheckState}
    : ∃ status, cleanChunknos chunkSize.bytes addr state
        = { state with pcMap := cleaned chunkSize state.pcMap addr, status := status } ∧
        (status = state.status ∨ status = .repaired) := by
  simp only [cleanChunknos, cleaned]
  generalize List.range' _ _ = l
  induction l generalizing state with
  | nil => exact ⟨state.status, rfl, Or.inl rfl⟩
  | cons i l ih =>
    rw [foldl_cons, foldl_cons]
    split
    . obtain ⟨status, heq, hstatus⟩ := @ih (state.repair (setChunkno state.pcMap addr i 0))
      apply Exists.intro status
      apply And.intro heq
      apply Or.inr
      cases hstatus <;> assumption
    . rename_i h
      rw [setChunkno_zero_of_zero (not_not.mp h)]
      apply ih

theorem cleanChunknos_of_zero {state : CheckState}
    (h : ∀ i, allocatedChunks state.pcMap addr ≤ i → i < blcksz / chunkSize.bytes →
      chunknos state.pcMap addr i = 0)
    : cleanChunknos chunkSize.bytes addr state = state := by
  rw [cleanChunknos]
  apply List.foldlRecOn (motive := fun state' => state' = state)
  . rfl
  . intro state' heq i hi
    rw [mem_range'_1] at hi
    rw [heq, if_neg]
    rw [h i hi.1 (by omega)]
    simp

theorem listed_cleaned (hle : allocatedChunks mem addr ≤ blcksz / chunkSize.bytes)
    : nchunks (cleaned chunkSize mem addr) addr = nchunks mem addr ∧
        allocatedChunks (cleaned chunkSize mem addr) addr = allocatedChunks mem addr ∧
        listed (cleaned chunkSize mem addr) addr = listed mem addr := by
  have hbefore : ∀ j, j < addr + 6 + 2 * allocatedChunks mem addr → cleaned chunkSize mem addr j = mem j := by
    intro j hj
    rw [cleaned_apply hle, if_neg (by omega)]
  have halloc : allocatedChunks (cleaned chunkSize mem addr) addr = allocatedChunks mem addr := by
    rw [allocatedChunks, allocatedChunks, hbefore _ (by omega)]
  apply And.intro
  . rw [nchunks, nchunks, hbefore _ (by omega)]
  . apply And.intro halloc
    rw [listed, listed, halloc]
    apply map_congr_left
    intro i hi
    rw [mem_range] at hi
    apply decode_load_congr
    intro j _ _
    apply hbefore
    omega

theorem foldl_own (blocknum : Nat) (chunks : List Nat) (state : CheckState)
    : ∃ globalChunknos, chunks.foldl (fun state chunkno => state.own blocknum chunkno) state
        = { state with
            globalChunknos := globalChunknos
            maxAllocatedChunkno := chunks.foldl max state.maxAllocatedChunkno } ∧
        ∀ owned, Owns state.globalChunknos owned → (∀ chunkno ∈ chunks, 0 < chunkno) →
          Owns globalChunknos (owned ++ chunks) := by
  induction chunks generalizing state with
  | nil =>
    apply Exists.intro state.globalChunknos
    apply And.intro rfl
    intro owned ho _
    rw [append_nil]
    exact ho
  | cons chunkno chunks ih =>
    obtain ⟨globalChunknos, heq, howns⟩ := ih (state.own blocknum chunkno)
    apply Exists.intro globalChunknos
    apply And.intro
    . have hmax : (state.own blocknum chunkno).maxAllocatedChunkno =
          max state.maxAllocatedChunkno chunkno := by
        simp only [CheckState.own]
        split <;> omega
      rw [foldl_cons, foldl_cons, heq, hmax]
      rfl
    . intro owned ho hpos
      rw [append_cons]
      apply howns
      . intro c hc
        have hchunkno := hpos chunkno (mem_cons_self ..)
        simp only [CheckState.own, mem_append, mem_singleton]
        rw [← ho c hc]
        split
        . apply iff_of_true (by omega)
          apply Or.inr
          omega
        . apply Iff.intro Or.inl
          intro hor
          apply hor.resolve_right
          omega
      . intro c hc
        apply hpos c (mem_cons_of_mem _ hc)

theorem recordBlock_of_zero {blocknum : Nat} {state : CheckState} (h : ZeroAddress chunkSize state.pcMap addr)
    : recordBlock blocknum addr state = { state with maxBlocknum := blocknum } := by
  simp [recordBlock, h.listed_eq, h.nchunks_eq]

end Step

section Block

variable {zeroDamagedPages : Bool} {chunkSize : ChunkSize} {state : CheckState} {blocknum : Nat}
variable {owned : List Nat}

theorem checkBlock_of_accepts (hsize : CfsExtentHeader.chunkSize state.pcMap = chunkSize.bytes)
    (ho : Owns state.globalChunknos owned)
    (h : Accepts chunkSize state.pcMap owned (chunkSize.address blocknum))
    : checkBlock zeroDamagedPages chunkSize.bytes state blocknum
        =
      .ok (recordBlock blocknum (chunkSize.address blocknum)
        (cleanChunknos chunkSize.bytes (chunkSize.address blocknum) state)) := by
  have hchunknos : checkChunknos zeroDamagedPages chunkSize.bytes (chunkSize.address blocknum)
      (blcksz / chunkSize.bytes) 0 state = .ok state := by
    apply checkChunknos_of_not_damaged
    intro i hi
    rw [isDamagedChunkno_eq_false_iff ho]
    apply h.chunknos
    apply mem_map_of_mem
    rw [mem_range]
    exact hi
  obtain ⟨status, hclean, _⟩ := @cleanChunknos_eq chunkSize (chunkSize.address blocknum) state
  obtain ⟨hnchunks, halloc, _⟩ := listed_cleaned h.allocated_le
  have hle := h.nchunks_le
  have hallocated := h.allocated_le
  simp only [checkBlock, chunkSize.getExtentAddress_eq hsize, checkChecksum_of_matches h.checksum, hchunknos]
  rw [if_neg (by omega), if_neg]
  simp only [hclean, hnchunks, halloc]
  omega

def CheckState.zeroed (state : CheckState) (chunkSize : ChunkSize) (addr maxBlocknum : Nat)
    : CheckState :=
  { state.repair (zeroAddress state.pcMap addr chunkSize.bytes) with maxBlocknum := maxBlocknum }

theorem checkBlock_of_not_matches (hsize : CfsExtentHeader.chunkSize state.pcMap = chunkSize.bytes)
    (h : ¬Matches state.pcMap (chunkSize.address blocknum))
    : checkBlock zeroDamagedPages chunkSize.bytes state blocknum
        =
      .ok (state.zeroed chunkSize (chunkSize.address blocknum) blocknum) := by
  have hzero := zeroAddress_zero state.pcMap (chunkSize.address blocknum) chunkSize
  have hzero' : ZeroAddress chunkSize
      (state.repair (zeroAddress state.pcMap (chunkSize.address blocknum) chunkSize.bytes)).pcMap
      (chunkSize.address blocknum) := hzero
  have hclean : cleanChunknos chunkSize.bytes (chunkSize.address blocknum)
      (state.repair (zeroAddress state.pcMap (chunkSize.address blocknum) chunkSize.bytes))
        = state.repair (zeroAddress state.pcMap (chunkSize.address blocknum) chunkSize.bytes) := by
    apply cleanChunknos_of_zero
    intro i _ hi
    exact hzero'.chunknos_eq hi
  simp only [checkBlock, chunkSize.getExtentAddress_eq hsize, checkChecksum_of_not_matches h]
  rw [if_neg, checkChunknos_of_zero]
  . simp only [hclean]
    rw [if_neg, recordBlock_of_zero hzero']
    . rfl
    . rw [hzero'.nchunks_eq]
      omega
  . exact hzero'.allocatedChunks_eq
  . rw [hzero'.allocatedChunks_eq]
    apply Nat.not_lt_zero

theorem zeroAddress_cleaned {addr : Nat} (hle : allocatedChunks mem addr ≤ blcksz / chunkSize.bytes)
    : zeroAddress (cleaned chunkSize mem addr) addr chunkSize.bytes
        =
      zeroAddress mem addr chunkSize.bytes := by
  apply ext
  intro j
  rw [zeroAddress_apply, zeroAddress_apply, cleaned_apply hle]
  split
  . rfl
  . rw [if_neg (by omega)]

theorem checkBlock_of_rejected (hsize : CfsExtentHeader.chunkSize state.pcMap = chunkSize.bytes)
    (ho : Owns state.globalChunknos owned)
    (hmatches : Matches state.pcMap (chunkSize.address blocknum))
    (h : ¬Accepts chunkSize state.pcMap owned (chunkSize.address blocknum))
    : if zeroDamagedPages then
        ∃ maxBlocknum, (maxBlocknum = blocknum ∨ maxBlocknum = state.maxBlocknum) ∧
          checkBlock zeroDamagedPages chunkSize.bytes state blocknum
            = .ok (state.zeroed chunkSize (chunkSize.address blocknum) maxBlocknum)
      else
        ∃ pcMap, checkBlock zeroDamagedPages chunkSize.bytes state blocknum = .error pcMap := by
  simp only [checkBlock, chunkSize.getExtentAddress_eq hsize, checkChecksum_of_matches hmatches]
  by_cases halloc : blcksz / chunkSize.bytes
      < allocatedChunks state.pcMap (chunkSize.address blocknum)
  . rw [if_pos halloc]
    cases zeroDamagedPages with
    | true => exact ⟨state.maxBlocknum, Or.inr rfl, rfl⟩
    | false => exact ⟨state.pcMap, rfl⟩
  . have hle := Nat.le_of_not_lt halloc
    rw [if_neg halloc]
    by_cases hdamaged : ∃ i', 0 ≤ i' ∧ i' < allocatedChunks state.pcMap (chunkSize.address blocknum) ∧
        isDamagedChunkno chunkSize.bytes state.globalChunknos
          (chunknos state.pcMap (chunkSize.address blocknum) i') = true
    . rw [checkChunknos_of_damaged _ _ (by omega) hdamaged]
      cases zeroDamagedPages with
      | true =>
        have hzero := zeroAddress_zero state.pcMap (chunkSize.address blocknum) chunkSize
        have hzero' : ZeroAddress chunkSize (state.repair
              (zeroAddress state.pcMap (chunkSize.address blocknum) chunkSize.bytes)).pcMap
            (chunkSize.address blocknum) := hzero
        have hclean := @cleanChunknos_of_zero chunkSize (chunkSize.address blocknum) _
          (fun i _ hi => hzero'.chunknos_eq hi)
        apply Exists.intro blocknum
        apply And.intro (Or.inl rfl)
        simp only [if_true, hclean]
        rw [if_neg, recordBlock_of_zero hzero']
        . rfl
        . rw [hzero'.nchunks_eq]
          omega
      | false => exact ⟨state.pcMap, rfl⟩
    . have hgood : ∀ i < allocatedChunks state.pcMap (chunkSize.address blocknum),
          isDamagedChunkno chunkSize.bytes state.globalChunknos
            (chunknos state.pcMap (chunkSize.address blocknum) i) = false := by
        intro i hi
        rw [← Bool.not_eq_true]
        intro htrue
        exact hdamaged ⟨i, Nat.zero_le i, hi, htrue⟩
      have hlt : allocatedChunks state.pcMap (chunkSize.address blocknum)
          < nchunks state.pcMap (chunkSize.address blocknum) := by
        apply Nat.lt_of_not_le
        intro hnchunks
        apply h
        apply Accepts.mk hmatches hle _ hnchunks
        intro chunkno hmem
        obtain ⟨i, hi, rfl⟩ := mem_map.mp hmem
        rw [mem_range] at hi
        rw [← isDamagedChunkno_eq_false_iff ho]
        exact hgood i hi
      obtain ⟨status, hclean, _⟩ := @cleanChunknos_eq chunkSize (chunkSize.address blocknum) state
      obtain ⟨hnchunks, halloc, _⟩ := listed_cleaned hle
      rw [checkChunknos_of_not_damaged _ _ hgood]
      simp only [hclean, hnchunks, halloc, if_pos hlt]
      cases zeroDamagedPages with
      | true =>
        apply Exists.intro state.maxBlocknum
        apply And.intro (Or.inr rfl)
        simp only [if_true, CheckState.repair, zeroAddress_cleaned hle]
        rfl
      | false => exact ⟨_, rfl⟩

end Block

end Cfs

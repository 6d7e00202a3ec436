import OpenGauss.Cfs.Repair.Runs
import Mathlib.Order.Interval.Finset.Nat

/-!
This module contains the verification of the moves of the chunks of an extent into block order.
-/

open List

namespace Cfs

open LittleEndian CfsExtentAddress

variable {n : Nat} {mem : Memory}

def liveChunks (pca : Memory) (count : Nat) : List Nat :=
  (List.range count).flatMap (fun b =>
    (List.range (nchunks pca (getExtentAddress pca b))).map (chunknos pca (getExtentAddress pca b)))

structure ValidPca (chunkSize : ChunkSize) (pca : Memory) : Prop where
  size : CfsExtentHeader.chunkSize pca = chunkSize.bytes
  nblocks_le : CfsExtentHeader.nblocks pca ≤ cfsLogicBlocksPerExtent
  nchunks_le : ∀ b < CfsExtentHeader.nblocks pca,
    nchunks pca (getExtentAddress pca b) ≤ allocatedChunks pca (getExtentAddress pca b)
  allocated_le : ∀ b < CfsExtentHeader.nblocks pca,
    allocatedChunks pca (getExtentAddress pca b) ≤ blcksz / chunkSize.bytes
  distinct : (allListed pca (CfsExtentHeader.nblocks pca)).Nodup
  range : ∀ chunkno ∈ allListed pca (CfsExtentHeader.nblocks pca),
    1 ≤ chunkno ∧ chunkno ≤ cfsMaxLogicChunksNumber chunkSize.bytes

theorem liveChunks_succ (pca : Memory) (count : Nat)
    : liveChunks pca (count + 1)
        =
      liveChunks pca count ++ (List.range (nchunks pca (getExtentAddress pca count))).map
        (chunknos pca (getExtentAddress pca count)) := by
  rw [liveChunks, range_succ, flatMap_append, flatMap_singleton]
  rfl

theorem liveChunks_mono (pca : Memory) {m : Nat} (h : n ≤ m)
    : (liveChunks pca n).length ≤ (liveChunks pca m).length := by
  induction m, h using Nat.le_induction with
  | base => exact Nat.le_refl _
  | succ m _ ih =>
    rw [liveChunks_succ, length_append]
    omega

namespace ValidPca

variable {chunkSize : ChunkSize} {pca : Memory}

variable (h : ValidPca chunkSize pca)
include h

theorem liveChunks_sublist {count : Nat} (hcount : count ≤ CfsExtentHeader.nblocks pca)
    : List.Sublist (liveChunks pca count) (allListed pca (CfsExtentHeader.nblocks pca)) := by
  have hle : ∀ n ≤ CfsExtentHeader.nblocks pca, List.Sublist (liveChunks pca n) (allListed pca n) := by
    intro n hn
    induction n with
    | zero => exact List.Sublist.refl _
    | succ n ih =>
      rw [liveChunks_succ, allListed, range_succ, flatMap_append, flatMap_singleton]
      apply List.Sublist.append (ih (Nat.le_of_lt hn))
      apply List.Sublist.map
      rw [range_sublist]
      exact h.nchunks_le n hn
  apply (hle count hcount).trans
  rw [allListed, allListed]
  apply List.Sublist.flatMap
  rw [range_sublist]
  exact hcount

theorem length_liveChunks_le
    : (liveChunks pca (CfsExtentHeader.nblocks pca)).length
        ≤ cfsMaxLogicChunksNumber chunkSize.bytes := by
  have hsub := h.liveChunks_sublist (Nat.le_refl _)
  have hnodup := h.distinct.sublist hsub
  rw [← toFinset_card_of_nodup hnodup]
  have hsubset : (liveChunks pca (CfsExtentHeader.nblocks pca)).toFinset
      ⊆ Finset.Icc 1 (cfsMaxLogicChunksNumber chunkSize.bytes) := by
    intro chunkno hmem
    rw [Finset.mem_Icc]
    exact h.range chunkno (hsub.subset (mem_toFinset.mp hmem))
  apply (Finset.card_le_card hsubset).trans
  rw [Nat.card_Icc]
  omega

end ValidPca

namespace ChunkSize

variable (chunkSize : ChunkSize)

theorem bytes_pos : 0 < chunkSize.bytes := by
  cases chunkSize <;> decide

theorem mul_bytes_le (h : n ≤ cfsMaxLogicChunksNumber chunkSize.bytes)
    : n * chunkSize.bytes ≤ pcaOffset := by
  have hmul := Nat.mul_le_mul_right chunkSize.bytes h
  rw [chunkSize.maxLogicChunksNumber_eq, Nat.mul_assoc, chunkSize.perBlock_mul_bytes] at hmul
  exact hmul

theorem add_bytes_le {m : Nat} (h : n < m)
    : n * chunkSize.bytes + chunkSize.bytes ≤ m * chunkSize.bytes := by
  have hmul := Nat.mul_le_mul_right chunkSize.bytes (Nat.succ_le_of_lt h)
  rw [Nat.succ_mul] at hmul
  exact hmul

end ChunkSize

theorem copy_inside {src : Memory} {pos srcPos i : Nat} (h : i < n)
    : mem.copy pos src srcPos n (pos + i) = src (srcPos + i) := by
  rw [Memory.copy, if_pos (by omega), Nat.add_sub_cancel_left]

theorem copy_outside {src : Memory} {pos srcPos i : Nat} (h : i < pos ∨ pos + n ≤ i)
    : mem.copy pos src srcPos n i = mem i := by
  rw [Memory.copy, if_neg (by omega)]

theorem setChunkno_outside {addr i j : Nat} (h : j < addr + 6 + 2 * i ∨ addr + 6 + 2 * i + 2 ≤ j)
    : setChunkno mem addr i n j = mem j := by
  exact store_encode_outside h

theorem chunknos_setChunkno {addr i : Nat} (h : n < 2 ^ 16)
    : chunknos (setChunkno mem addr i n) addr i = n := by
  exact decode_load_store h

structure Moved (chunkSize : ChunkSize) (pca extent : Memory) (srcAddr addr : Nat)
    (alignbuf : Memory) (start count : Nat) (alignbuf' : Memory) : Prop where
  data : ∀ t < count, ∀ o < chunkSize.bytes,
    alignbuf' (assistBuf + ((start + t) * chunkSize.bytes + o))
      = extent ((chunknos pca srcAddr t - 1) * chunkSize.bytes + o)
  chunkno : ∀ t < count, chunknos alignbuf' addr t = start + t + 1
  other : ∀ x, (x < assistBuf + start * chunkSize.bytes ∨
      assistBuf + (start + count) * chunkSize.bytes ≤ x) →
    (x < addr + 6 ∨ addr + 6 + 2 * count ≤ x) → alignbuf' x = alignbuf x

section Move

variable {chunkSize : ChunkSize} {pca extent alignbuf : Memory} {srcAddr addr start : Nat}

theorem foldl_moveChunk (hsize : CfsExtentHeader.chunkSize pca = chunkSize.bytes)
    (hsrc : ∀ x < assistBuf, alignbuf x = extent x) (haddr : assistPca ≤ addr) (count : Nat)
    (hrange : ∀ t < count, 1 ≤ chunknos pca srcAddr t ∧
      chunknos pca srcAddr t ≤ cfsMaxLogicChunksNumber chunkSize.bytes)
    (hroom : start + count ≤ cfsMaxLogicChunksNumber chunkSize.bytes)
    : ∃ alignbuf', (List.range count).foldl (moveChunk pca srcAddr addr) (alignbuf, start)
          = (alignbuf', start + count) ∧
        Moved chunkSize pca extent srcAddr addr alignbuf start count alignbuf' := by
  have hpcaOffset : assistBuf = pcaOffset := rfl
  have hassistPca : assistPca = assistBuf + pcaOffset := rfl
  induction count with
  | zero =>
    apply Exists.intro alignbuf
    apply And.intro rfl
    constructor
    . intro t ht
      omega
    . intro t ht
      omega
    . intros
      rfl
  | succ count ih =>
    obtain ⟨alignbuf', heq, hmoved⟩ := ih (fun t ht => hrange t (by omega)) (by omega)
    obtain ⟨hpos, hle⟩ := hrange count (by omega)
    have hmax : cfsMaxLogicChunksNumber chunkSize.bytes ≤ 1016 := by
      rw [chunkSize.maxLogicChunksNumber_eq]
      have := chunkSize.perBlock_le
      omega
    have hmod : (start + count + 1) % 2 ^ 16 = start + count + 1 := by
      apply Nat.mod_eq_of_lt
      omega
    have hsucc : (start + (count + 1)) * chunkSize.bytes
        = (start + count) * chunkSize.bytes + chunkSize.bytes := by
      rw [← Nat.add_assoc, Nat.succ_mul]
    have hdest := chunkSize.mul_bytes_le hroom
    have hfrom := chunkSize.mul_bytes_le hle
    have hfrom' := chunkSize.add_bytes_le
      (show chunknos pca srcAddr count - 1 < chunknos pca srcAddr count by omega)
    have hstart : start * chunkSize.bytes ≤ (start + count) * chunkSize.bytes := by
      apply Nat.mul_le_mul_right
      omega
    rw [range_succ, foldl_append, heq, foldl_cons, foldl_nil, moveChunk]
    simp only [hsize, hmod, Nat.add_sub_cancel, srcBuf, Nat.zero_add]
    refine ⟨_, rfl, ?_⟩
    -- What the move of the last chunk does not write.
    have hother : ∀ x, (x < assistBuf + (start + count) * chunkSize.bytes ∨
        assistBuf + (start + (count + 1)) * chunkSize.bytes ≤ x) →
        (x < addr + 6 + 2 * count ∨ addr + 6 + 2 * (count + 1) ≤ x) →
        (setChunkno alignbuf' addr count (start + count + 1)).copy
          (assistBuf + (start + count) * chunkSize.bytes)
          (setChunkno alignbuf' addr count (start + count + 1))
          ((chunknos pca srcAddr count - 1) * chunkSize.bytes) chunkSize.bytes x = alignbuf' x := by
      intro x hx hx'
      rw [copy_outside, setChunkno_outside]
      . omega
      . omega
    constructor
    . intro t ht o ho
      by_cases htc : t = count
      . have hin : (chunknos pca srcAddr count - 1) * chunkSize.bytes + o < assistBuf := by omega
        rw [htc, ← Nat.add_assoc, copy_inside ho, setChunkno_outside, hmoved.other, hsrc _ hin]
        . exact Or.inl (by omega)
        . exact Or.inl (by omega)
        . exact Or.inl (by omega)
      . have hlt := chunkSize.add_bytes_le (show start + t < start + count by omega)
        rw [hother _ (by omega) (by omega)]
        exact hmoved.data t (by omega) o ho
    . intro t ht
      by_cases htc : t = count
      . rw [htc, chunknos]
        apply Eq.trans (@decode_load_congr _ (setChunkno alignbuf' addr count (start + count + 1)) _ _ _)
        . rw [← chunknos, chunknos_setChunkno (by omega)]
        . intro j hlo hhi
          rw [copy_outside]
          omega
      . rw [← hmoved.chunkno t (by omega)]
        apply decode_load_congr
        intro j hlo hhi
        apply hother
        . omega
        . omega
    . intro x hx hx'
      rw [hother x (by omega) (by omega)]
      apply hmoved.other
      . omega
      . omega

end Move

theorem byte_store {pos : Nat} (h : n < 256) : ((mem.store pos (encode 1 n)) pos).toNat = n := by
  rw [Memory.store, if_pos (by simp), Nat.sub_self]
  simp only [encode, getD_cons_zero, UInt8.toNat_ofNat']
  omega

structure Sorted (chunkSize : ChunkSize) (pca extent : Memory) (count : Nat) (alignbuf : Memory)
    : Prop where
  src : ∀ x < assistBuf, alignbuf x = extent x
  header : ∀ j < 144, alignbuf (assistPca + j) = pca j
  data : ∀ t chunkno, (liveChunks pca count)[t]? = some chunkno → ∀ o < chunkSize.bytes,
    alignbuf (assistBuf + (t * chunkSize.bytes + o)) = extent ((chunkno - 1) * chunkSize.bytes + o)
  noData : ∀ x, assistBuf + (liveChunks pca count).length * chunkSize.bytes ≤ x → x < assistPca →
    alignbuf x = 0
  used : ∀ b < count,
    nchunks alignbuf (assistPca + chunkSize.address b) = nchunks pca (chunkSize.address b)
  allocated : ∀ b < count,
    allocatedChunks alignbuf (assistPca + chunkSize.address b) = nchunks pca (chunkSize.address b)
  chunkno : ∀ b < count, ∀ t < nchunks pca (chunkSize.address b),
    chunknos alignbuf (assistPca + chunkSize.address b) t = (liveChunks pca b).length + t + 1
  noChunkno : ∀ b < count, ∀ t, nchunks pca (chunkSize.address b) ≤ t →
    t < blcksz / chunkSize.bytes → chunknos alignbuf (assistPca + chunkSize.address b) t = 0
  checksum : ∀ b < count, Matches alignbuf (assistPca + chunkSize.address b)
  noAddress : ∀ x, assistPca + chunkSize.address count ≤ x → x < assistPca + blcksz →
    alignbuf x = 0

theorem Matches.ofSetChecksum (mem : Memory) (addr : Nat)
    : Matches (setChecksum mem addr (addrChecksum32 mem addr (allocatedChunks mem addr))) addr := by
  have hlt : addrChecksum32 mem addr (allocatedChunks mem addr) < 256 ^ 4 := by
    rw [addrChecksum32]
    omega
  have hout : ∀ n j, addr + 4 ≤ j → setChecksum mem addr n j = mem j := by
    intro n j hj
    rw [setChecksum, store_encode_outside (by omega)]
  have halloc : ∀ n, allocatedChunks (setChecksum mem addr n) addr = allocatedChunks mem addr := by
    intro n
    rw [allocatedChunks, allocatedChunks, hout _ _ (by omega)]
  have hsum : ∀ n k, addrChecksum32 (setChecksum mem addr n) addr k = addrChecksum32 mem addr k := by
    intro n k
    rw [addrChecksum32, addrChecksum32, addrChecksum32.go_congr]
    intro j hj _
    exact hout n j hj
  rw [Matches, hsum, halloc, checksum, setChecksum, decode_load_store hlt]

theorem ValidPca.getExtentAddress_eq {chunkSize : ChunkSize} {pca : Memory}
    (h : ValidPca chunkSize pca) (b : Nat)
    : getExtentAddress pca b = chunkSize.address b := by
  exact chunkSize.getExtentAddress_eq h.size b

theorem ValidPca.nchunks_le_perBlock {chunkSize : ChunkSize} {pca : Memory}
    (h : ValidPca chunkSize pca) {b : Nat} (hb : b < CfsExtentHeader.nblocks pca)
    : nchunks pca (chunkSize.address b) ≤ blcksz / chunkSize.bytes := by
  have hnchunks := h.nchunks_le b hb
  have halloc := h.allocated_le b hb
  rw [h.getExtentAddress_eq] at hnchunks halloc
  omega

section Block

variable {chunkSize : ChunkSize} {pca extent alignbuf : Memory} {count : Nat}

theorem Sorted.chunkSize_eq (hpca : ValidPca chunkSize pca) (h : Sorted chunkSize pca extent count alignbuf)
    : CfsExtentHeader.chunkSize (alignbuf.view assistPca) = chunkSize.bytes := by
  rw [← hpca.size]
  apply CfsExtentHeader.chunkSize_congr
  exact h.header

structure BlockMoved (chunkSize : ChunkSize) (pca extent : Memory) (count : Nat)
    (alignbuf alignbuf' : Memory) : Prop where
  data : ∀ t < nchunks pca (chunkSize.address count), ∀ o < chunkSize.bytes,
    alignbuf' (assistBuf + (((liveChunks pca count).length + t) * chunkSize.bytes + o))
      = extent ((chunknos pca (chunkSize.address count) t - 1) * chunkSize.bytes + o)
  used : nchunks alignbuf' (assistPca + chunkSize.address count)
    = nchunks pca (chunkSize.address count)
  allocated : allocatedChunks alignbuf' (assistPca + chunkSize.address count)
    = nchunks pca (chunkSize.address count)
  chunkno : ∀ t < nchunks pca (chunkSize.address count),
    chunknos alignbuf' (assistPca + chunkSize.address count) t
      = (liveChunks pca count).length + t + 1
  checksum : Matches alignbuf' (assistPca + chunkSize.address count)
  other : ∀ x, (x < assistBuf + (liveChunks pca count).length * chunkSize.bytes ∨
      assistBuf + (liveChunks pca (count + 1)).length * chunkSize.bytes ≤ x) →
    (x < assistPca + chunkSize.address count ∨
      assistPca + chunkSize.address count + 6 + 2 * nchunks pca (chunkSize.address count) ≤ x) →
    alignbuf' x = alignbuf x

variable (hpca : ValidPca chunkSize pca)
include hpca

theorem length_liveChunks_succ (count : Nat)
    : (liveChunks pca (count + 1)).length
        =
      (liveChunks pca count).length + nchunks pca (chunkSize.address count) := by
  rw [liveChunks_succ, length_append, length_map, List.length_range, hpca.getExtentAddress_eq]

variable (hcount : count < CfsExtentHeader.nblocks pca)
include hcount

variable (h : Sorted chunkSize pca extent count alignbuf)
include h

theorem moveBlock_spec
    : ∃ alignbuf', moveBlock pca (alignbuf, (liveChunks pca count).length) count
          = (alignbuf', (liveChunks pca (count + 1)).length) ∧
        BlockMoved chunkSize pca extent count alignbuf alignbuf' := by
  have hlength := length_liveChunks_succ hpca count
  have hbyte : nchunks pca (chunkSize.address count) < 256 := UInt8.toNat_lt _
  have hmax : (liveChunks pca (count + 1)).length ≤ cfsMaxLogicChunksNumber chunkSize.bytes :=
    (liveChunks_mono pca hcount).trans hpca.length_liveChunks_le
  have hdest := chunkSize.mul_bytes_le hmax
  have hassistPca : assistPca = assistBuf + pcaOffset := rfl
  have haddress := chunkSize.le_address count
  have hlen : (liveChunks pca count).length * chunkSize.bytes
      ≤ (liveChunks pca (count + 1)).length * chunkSize.bytes := by
    apply Nat.mul_le_mul_right
    omega
  have hrange : ∀ t < nchunks pca (chunkSize.address count), 1 ≤ chunknos pca (chunkSize.address count) t ∧
        chunknos pca (chunkSize.address count) t ≤ cfsMaxLogicChunksNumber chunkSize.bytes := by
    intro t ht
    apply hpca.range
    apply (hpca.liveChunks_sublist (Nat.succ_le_of_lt hcount)).subset
    rw [liveChunks_succ, hpca.getExtentAddress_eq]
    apply mem_append_right
    apply mem_map_of_mem
    rw [mem_range]
    exact ht
  generalize haddr : assistPca + chunkSize.address count = addr at *
  have hset : ∀ x, (x < addr + 4 ∨ addr + 6 ≤ x) →
      setNchunks (setAllocatedChunks alignbuf addr (nchunks pca (chunkSize.address count))) addr
        (nchunks pca (chunkSize.address count)) x = alignbuf x := by
    intro x hx
    rw [setNchunks, store_encode_outside (by omega), setAllocatedChunks, store_encode_outside (by omega)]
  obtain ⟨alignbuf', heq, hmoved⟩ := @foldl_moveChunk chunkSize pca extent
    (setNchunks (setAllocatedChunks alignbuf addr (nchunks pca (chunkSize.address count))) addr
      (nchunks pca (chunkSize.address count)))
    (chunkSize.address count) addr (liveChunks pca count).length hpca.size
    (by
      intro x hx
      rw [hset x (by omega), h.src x hx])
    (by omega) (nchunks pca (chunkSize.address count)) hrange (by omega)
  have hother := hmoved.other
  rw [← hlength] at heq hother
  rw [moveBlock]
  simp only [hpca.getExtentAddress_eq, chunkSize.getExtentAddress_eq (h.chunkSize_eq hpca), haddr, heq]
  refine ⟨_, rfl, ?_⟩
  have hcksm : ∀ n x, (x < addr ∨ addr + 4 ≤ x) → setChecksum alignbuf' addr n x = alignbuf' x := by
    intro n x hx
    rw [setChecksum, store_encode_outside (by omega)]
  generalize hsum : addrChecksum32 alignbuf' addr (allocatedChunks alignbuf' addr) = sum
  have hlast : ∀ t, t < nchunks pca (chunkSize.address count) →
      (liveChunks pca count).length * chunkSize.bytes + t * chunkSize.bytes + chunkSize.bytes
        ≤ (liveChunks pca (count + 1)).length * chunkSize.bytes := by
    intro t ht
    rw [hlength, ← Nat.add_mul]
    apply chunkSize.add_bytes_le
    omega
  have haddr' : assistPca + chunkSize.address count = addr := haddr
  constructor
  . intro t ht o ho
    have := hlast t ht
    rw [hcksm]
    . exact hmoved.data t ht o ho
    . rw [Nat.add_mul]
      omega
  . rw [haddr', nchunks, hcksm _ _ (by omega), hother _ (by omega) (by omega), setNchunks,
      byte_store hbyte]
  . rw [haddr', allocatedChunks, hcksm _ _ (by omega), hother _ (by omega) (by omega), setNchunks,
      store_encode_outside (by omega), setAllocatedChunks, byte_store hbyte]
  . intro t ht
    rw [haddr', ← hmoved.chunkno t ht]
    apply decode_load_congr
    intro j hlo hhi
    apply hcksm
    omega
  . rw [haddr', ← hsum]
    apply Matches.ofSetChecksum
  . intro x hx hx'
    rw [haddr'] at hx'
    rw [hcksm _ _ (by omega), hother x hx (by omega), hset x (by omega)]

theorem Sorted.step
    : ∃ alignbuf', moveBlock pca (alignbuf, (liveChunks pca count).length) count
          = (alignbuf', (liveChunks pca (count + 1)).length) ∧
        Sorted chunkSize pca extent (count + 1) alignbuf' := by
  obtain ⟨alignbuf', heq, hmoved⟩ := moveBlock_spec hpca hcount h
  apply Exists.intro alignbuf'
  apply And.intro heq
  have hmax : (liveChunks pca (count + 1)).length ≤ cfsMaxLogicChunksNumber chunkSize.bytes :=
    (liveChunks_mono pca hcount).trans hpca.length_liveChunks_le
  have hdest := chunkSize.mul_bytes_le hmax
  have hassistPca : assistPca = assistBuf + pcaOffset := rfl
  have hblcksz : blcksz = 8192 := rfl
  have haddress := chunkSize.le_address count
  have hend := chunkSize.address_le
    (show count + 1 ≤ cfsLogicBlocksPerExtent from Nat.lt_of_lt_of_le hcount hpca.nblocks_le)
  have hsucc := chunkSize.address_succ count
  have hused := hpca.nchunks_le_perBlock hcount
  have haddressSize : chunkSize.addressSize = 6 + 2 * (blcksz / chunkSize.bytes) := rfl
  have hlen : (liveChunks pca count).length * chunkSize.bytes
      ≤ (liveChunks pca (count + 1)).length * chunkSize.bytes := by
    apply Nat.mul_le_mul_right
    rw [length_liveChunks_succ hpca]
    omega
  have hsame : ∀ b < count, SameAddress chunkSize alignbuf' alignbuf (assistPca + chunkSize.address b) := by
    intro b hb j hlo hhi
    have := chunkSize.address_add_le hb
    apply hmoved.other
    . omega
    . omega
  constructor
  . intro x hx
    rw [hmoved.other x (by omega) (by omega), h.src x hx]
  . intro j hj
    rw [hmoved.other _ (by omega) (by omega), h.header j hj]
  . intro t chunkno hget o ho
    by_cases ht : t < (liveChunks pca count).length
    . rw [liveChunks_succ, getElem?_append_left ht] at hget
      have := chunkSize.add_bytes_le ht
      rw [hmoved.other _ (by omega) (by omega)]
      exact h.data t chunkno hget o ho
    . obtain ⟨t, rfl⟩ := Nat.exists_eq_add_of_le (Nat.le_of_not_lt ht)
      rw [liveChunks_succ, getElem?_append_right (by omega), Nat.add_sub_cancel_left,
        getElem?_map, hpca.getExtentAddress_eq] at hget
      rw [Option.map_eq_some_iff] at hget
      obtain ⟨i, hi, rfl⟩ := hget
      obtain ⟨hlt, rfl⟩ := List.getElem?_eq_some_iff.mp hi
      rw [List.length_range] at hlt
      rw [getElem_range]
      exact hmoved.data t hlt o ho
  . intro x hlo hhi
    rw [hmoved.other x (by omega) (by omega)]
    apply h.noData x _ hhi
    omega
  . intro b hb
    by_cases heq : b = count
    . rw [heq]
      exact hmoved.used
    . rw [(hsame b (by omega)).nchunks_eq]
      exact h.used b (by omega)
  . intro b hb
    by_cases heq : b = count
    . rw [heq]
      exact hmoved.allocated
    . rw [(hsame b (by omega)).allocatedChunks_eq]
      exact h.allocated b (by omega)
  . intro b hb t ht
    by_cases heq : b = count
    . rw [heq] at ht ⊢
      exact hmoved.chunkno t ht
    . have hle := hpca.nchunks_le_perBlock (show b < CfsExtentHeader.nblocks pca by omega)
      rw [(hsame b (by omega)).chunknos_eq (by omega)]
      exact h.chunkno b (by omega) t ht
  . intro b hb t hlo hhi
    by_cases heq : b = count
    . rw [heq] at hlo ⊢
      apply decode_load_zero
      intro j hj hj'
      rw [hmoved.other j (by omega) (by omega)]
      apply h.noAddress
      . omega
      . omega
    . rw [(hsame b (by omega)).chunknos_eq hhi]
      exact h.noChunkno b (by omega) t hlo hhi
  . intro b hb
    by_cases heq : b = count
    . rw [heq]
      exact hmoved.checksum
    . have hb : b < count := by omega
      apply (hsame b hb).symm.matches _ (h.checksum b hb)
      rw [h.allocated b hb]
      exact hpca.nchunks_le_perBlock (by omega)
  . intro x hlo hhi
    rw [hmoved.other x (by omega) (by omega)]
    apply h.noAddress x _ hhi
    omega

end Block

end Cfs

import OpenGauss.Cfs.Recycle.Lemmas

/-!
This module contains the verification of the new extent that the moves of the chunks make.
-/

open Memory List

namespace Cfs

open LittleEndian CfsExtentAddress

def extentBytes : Nat := cfsExtentSize * blcksz

def recycledImage (extent pca alignbuf : Memory) : Bytes :=
  (cfsSortOutChunk extent pca (alignbuf.store assistBuf (List.replicate extentBytes 0))).load
    assistBuf extentBytes

def recycledExtent (extent pca alignbuf : Memory) : Memory :=
  extent.store 0 (recycledImage extent pca alignbuf)

def pageChunks (chunkSize : ChunkSize) (pca extent : Memory) (blocknum : Nat) : List Bytes :=
  (List.range (nchunks pca (getExtentAddress pca blocknum))).map
    (fun j => extent.load ((chunknos pca (getExtentAddress pca blocknum) j - 1) * chunkSize.bytes)
      chunkSize.bytes)

structure Compacted (chunkSize : ChunkSize) (pca extent pca' extent' : Memory) : Prop where
  size : CfsExtentHeader.chunkSize pca' = chunkSize.bytes
  nblocks : CfsExtentHeader.nblocks pca' = CfsExtentHeader.nblocks pca
  used : ∀ b < CfsExtentHeader.nblocks pca,
    nchunks pca' (getExtentAddress pca' b) = nchunks pca (getExtentAddress pca b)
  tight : ∀ b < CfsExtentHeader.nblocks pca,
    allocatedChunks pca' (getExtentAddress pca' b) = nchunks pca' (getExtentAddress pca' b)
  pages : ∀ b < CfsExtentHeader.nblocks pca,
    pageChunks chunkSize pca' extent' b = pageChunks chunkSize pca extent b
  numbers : allListed pca' (CfsExtentHeader.nblocks pca)
    = List.range' 1 (CfsExtentHeader.allocatedChunks pca')
  checksum : ∀ b < CfsExtentHeader.nblocks pca, Matches pca' (getExtentAddress pca' b)
  inOrder : CfsExtentHeader.recycleInOrder pca' = true

structure SortedOut (chunkSize : ChunkSize) (pca extent alignbuf : Memory) : Prop where
  data : ∀ t chunkno, (liveChunks pca (CfsExtentHeader.nblocks pca))[t]? = some chunkno →
    ∀ o < chunkSize.bytes,
      alignbuf (assistBuf + (t * chunkSize.bytes + o))
        = extent ((chunkno - 1) * chunkSize.bytes + o)
  noData : ∀ x, assistBuf + (liveChunks pca (CfsExtentHeader.nblocks pca)).length * chunkSize.bytes
      ≤ x → x < assistPca → alignbuf x = 0
  header : ∀ j < 144, (j < 4 ∨ 8 ≤ j) → j ≠ 10 → alignbuf (assistPca + j) = pca j
  total : decode (alignbuf.load (assistPca + 4) 4)
    = (liveChunks pca (CfsExtentHeader.nblocks pca)).length
  flags : (alignbuf (assistPca + 10)).toNat = (pca 10).toNat % 128 + 128
  used : ∀ b < CfsExtentHeader.nblocks pca,
    nchunks alignbuf (assistPca + chunkSize.address b) = nchunks pca (chunkSize.address b)
  allocated : ∀ b < CfsExtentHeader.nblocks pca,
    allocatedChunks alignbuf (assistPca + chunkSize.address b) = nchunks pca (chunkSize.address b)
  chunkno : ∀ b < CfsExtentHeader.nblocks pca, ∀ t < nchunks pca (chunkSize.address b),
    chunknos alignbuf (assistPca + chunkSize.address b) t = (liveChunks pca b).length + t + 1
  noChunkno : ∀ b < CfsExtentHeader.nblocks pca, ∀ t, nchunks pca (chunkSize.address b) ≤ t →
    t < blcksz / chunkSize.bytes → chunknos alignbuf (assistPca + chunkSize.address b) t = 0
  checksum : ∀ b < CfsExtentHeader.nblocks pca, Matches alignbuf (assistPca + chunkSize.address b)
  noAddress : ∀ x, assistPca + chunkSize.address (CfsExtentHeader.nblocks pca) ≤ x →
    x < assistPca + blcksz → alignbuf x = 0

section SortOut

variable {chunkSize : ChunkSize} {pca extent alignbuf : Memory}

theorem foldl_moveBlock (hpca : ValidPca chunkSize pca) {count : Nat}
    (hcount : count ≤ CfsExtentHeader.nblocks pca) (h : Sorted chunkSize pca extent 0 alignbuf)
    : ∃ alignbuf', (List.range count).foldl (moveBlock pca) (alignbuf, 0)
          = (alignbuf', (liveChunks pca count).length) ∧
        Sorted chunkSize pca extent count alignbuf' := by
  induction count with
  | zero => exact ⟨alignbuf, rfl, h⟩
  | succ count ih =>
    obtain ⟨alignbuf', heq, hsorted⟩ := ih (by omega)
    obtain ⟨alignbuf'', heq', hsorted'⟩ := hsorted.step hpca hcount
    apply Exists.intro alignbuf''
    apply And.intro _ hsorted'
    rw [range_succ, foldl_append, heq, foldl_cons, foldl_nil, heq']

theorem Sorted.start (hzero : ∀ x, assistBuf ≤ x → x < assistBuf + extentBytes → alignbuf x = 0)
    : Sorted chunkSize pca extent 0
        ((alignbuf.copy srcBuf extent 0 (cfsExtentSize * blcksz - blcksz)).copy assistPca pca 0
          CfsExtentHeader.addressOffset) := by
  have hassistBuf : assistBuf = 1040384 := rfl
  have hassistPca : assistPca = 2080768 := rfl
  have hextent : extentBytes = 1048576 := rfl
  have hsrcBuf : srcBuf = 0 := rfl
  have hcopied : cfsExtentSize * blcksz - blcksz = 1040384 := rfl
  have hheader : CfsExtentHeader.addressOffset = 144 := rfl
  have hblcksz : blcksz = 8192 := rfl
  have hzero' : ∀ x, assistBuf ≤ x → x < assistBuf + extentBytes → (x < assistPca ∨ assistPca + 144 ≤ x) →
      ((alignbuf.copy srcBuf extent 0 (cfsExtentSize * blcksz - blcksz)).copy assistPca pca 0
        CfsExtentHeader.addressOffset) x = 0 := by
    intro x hlo hhi hx
    rw [copy_outside (by omega), copy_outside (by omega), hzero x hlo hhi]
  constructor
  . intro x hx
    rw [copy_outside (by omega)]
    have hin : x < cfsExtentSize * blcksz - blcksz := by omega
    have := @copy_inside _ alignbuf extent srcBuf 0 _ hin
    rw [hsrcBuf, Nat.zero_add] at this
    exact this
  . intro j hj
    have := @copy_inside _ (alignbuf.copy srcBuf extent 0 (cfsExtentSize * blcksz - blcksz))
      pca assistPca 0 _ (show j < CfsExtentHeader.addressOffset from hj)
    rw [Nat.zero_add] at this
    exact this
  . intro t chunkno hget
    cases hget
  . intro x hlo hhi
    apply hzero' x
    . have hlo : assistBuf + 0 * chunkSize.bytes ≤ x := hlo
      omega
    . omega
    . exact Or.inl hhi
  . intro b hb
    omega
  . intro b hb
    omega
  . intro b hb
    omega
  . intro b hb
    omega
  . intro b hb
    omega
  . intro x hlo hhi
    rw [chunkSize.address_zero] at hlo
    apply hzero' x
    . omega
    . omega
    . exact Or.inr hlo

theorem setRecycleInOrder_outside (page : Memory) (inOrder : Bool) {j : Nat} (h : j ≠ 10)
    : CfsExtentHeader.setRecycleInOrder page inOrder j = page j := by
  apply store_outside
  simp only [length_cons, length_nil]
  omega

theorem setRecycleInOrder_self (page : Memory)
    : (CfsExtentHeader.setRecycleInOrder page true 10).toNat = (page 10).toNat % 128 + 128 := by
  rw [CfsExtentHeader.setRecycleInOrder, store, if_pos (by simp)]
  simp only [Nat.sub_self, getD_cons_zero, UInt8.toNat_ofNat', Bool.toNat_true]
  omega

theorem cfsSortOutChunk_spec (hpca : ValidPca chunkSize pca)
    (hzero : ∀ x, assistBuf ≤ x → x < assistBuf + extentBytes → alignbuf x = 0)
    : SortedOut chunkSize pca extent (cfsSortOutChunk extent pca alignbuf) := by
  obtain ⟨alignbuf', heq, hsorted⟩ :=
    foldl_moveBlock hpca (Nat.le_refl _) (@Sorted.start _ _ extent _ hzero)
  have hmax : (liveChunks pca (CfsExtentHeader.nblocks pca)).length < 256 ^ 4 := by
    apply Nat.lt_of_le_of_lt hpca.length_liveChunks_le
    rw [chunkSize.maxLogicChunksNumber_eq]
    have := chunkSize.perBlock_le
    omega
  simp only [cfsSortOutChunk, heq]
  generalize hcount : (liveChunks pca (CfsExtentHeader.nblocks pca)).length = count at *
  have hout : ∀ x, (x < assistPca + 4 ∨ assistPca + 8 ≤ x) → x ≠ assistPca + 10 →
      (alignbuf'.within assistPca (fun pca =>
        CfsExtentHeader.setRecycleInOrder (CfsExtentHeader.setAllocatedChunks pca count) true)) x
        = alignbuf' x := by
    intro x hx hne
    rw [within]
    split
    . rw [setRecycleInOrder_outside _ _ (by omega), CfsExtentHeader.setAllocatedChunks,
        store_encode_outside (by omega), view, Nat.add_sub_cancel' (by assumption)]
    . rfl
  have hsame : ∀ b, SameAddress chunkSize (alignbuf'.within assistPca (fun pca =>
        CfsExtentHeader.setRecycleInOrder (CfsExtentHeader.setAllocatedChunks pca count) true))
      alignbuf' (assistPca + chunkSize.address b) := by
    intro b j hlo _
    have := chunkSize.le_address b
    apply hout
    . omega
    . omega
  have hdest := chunkSize.mul_bytes_le hpca.length_liveChunks_le
  have hassistPca : assistPca = assistBuf + pcaOffset := rfl
  rw [hcount] at hdest
  constructor
  . intro t chunkno hget o ho
    have ht := (List.getElem?_eq_some_iff.mp hget).choose
    have := chunkSize.add_bytes_le ht
    rw [hcount] at this
    rw [hout _ (by omega) (by omega)]
    exact hsorted.data t chunkno hget o ho
  . intro x hlo hhi
    rw [hcount] at hlo
    rw [hout _ (by omega) (by omega)]
    apply hsorted.noData x _ hhi
    rw [hcount]
    exact hlo
  . intro j hj hj' hne
    rw [hout _ (by omega) (by omega)]
    exact hsorted.header j hj
  . rw [hcount]
    refine Eq.trans ?_ (@decode_load_store (alignbuf'.view assistPca) 4 4 count hmax)
    apply congrArg decode
    apply load_congr
    intro i hi
    rw [within, if_pos (by omega), setRecycleInOrder_outside _ _ (by omega),
      CfsExtentHeader.setAllocatedChunks, Nat.add_assoc, Nat.add_sub_cancel_left]
  . rw [within, if_pos (by omega), Nat.add_sub_cancel_left, setRecycleInOrder_self,
      CfsExtentHeader.setAllocatedChunks, store_encode_outside (by omega), view,
      hsorted.header 10 (by omega)]
  . intro b hb
    rw [(hsame b).nchunks_eq]
    exact hsorted.used b hb
  . intro b hb
    rw [(hsame b).allocatedChunks_eq]
    exact hsorted.allocated b hb
  . intro b hb t ht
    have hle := hpca.nchunks_le_perBlock hb
    rw [(hsame b).chunknos_eq (by omega)]
    exact hsorted.chunkno b hb t ht
  . intro b hb t hlo hhi
    rw [(hsame b).chunknos_eq hhi]
    exact hsorted.noChunkno b hb t hlo hhi
  . intro b hb
    apply (hsame b).symm.matches _ (hsorted.checksum b hb)
    rw [hsorted.allocated b hb]
    exact hpca.nchunks_le_perBlock hb
  . intro x hlo hhi
    have := chunkSize.le_address (CfsExtentHeader.nblocks pca)
    rw [hout _ (by omega) (by omega)]
    exact hsorted.noAddress x hlo hhi

end SortOut

namespace CfsExtentAddress

variable (mem : Memory) (base addr : Nat)

theorem checksum_view : checksum (mem.view base) addr = checksum mem (base + addr) := by
  rw [checksum, checksum, load_view]

theorem nchunks_view : nchunks (mem.view base) addr = nchunks mem (base + addr) := by
  rw [nchunks, nchunks, view, Nat.add_assoc]

theorem allocatedChunks_view
    : allocatedChunks (mem.view base) addr = allocatedChunks mem (base + addr) := by
  rw [allocatedChunks, allocatedChunks, view, Nat.add_assoc]

theorem chunknos_view (i : Nat) : chunknos (mem.view base) addr i = chunknos mem (base + addr) i := by
  simp only [chunknos, load_view, Nat.add_assoc]

theorem go_view (len : Nat)
    : addrChecksum32.go (mem.view base) addr len = addrChecksum32.go mem (base + addr) len := by
  fun_induction addrChecksum32.go (mem.view base) addr len with
  | case1 addr len ih => rw [addrChecksum32.go, ih, load_view, Nat.add_assoc]
  | case2 addr len hlen =>
    rw [addrChecksum32.go, load_view]
    exact hlen

theorem matches_view : Matches (mem.view base) addr ↔ Matches mem (base + addr) := by
  rw [Matches, Matches, checksum_view, allocatedChunks_view, addrChecksum32, addrChecksum32, go_view,
    Nat.add_assoc]

end CfsExtentAddress

section Extent

variable {chunkSize : ChunkSize} {pca extent : Memory} (alignbuf : Memory)

abbrev sortedBuf (extent pca alignbuf : Memory) : Memory :=
  cfsSortOutChunk extent pca (alignbuf.store assistBuf (List.replicate extentBytes 0))

theorem sortedBuf_spec (hpca : ValidPca chunkSize pca)
    : SortedOut chunkSize pca extent (sortedBuf extent pca alignbuf) := by
  apply cfsSortOutChunk_spec hpca
  intro x hlo hhi
  rw [store, length_replicate, if_pos ⟨hlo, hhi⟩, getD_replicate _ (by omega)]

theorem recycledExtent_apply (extent pca : Memory) {i : Nat} (h : i < extentBytes)
    : recycledExtent extent pca alignbuf i = sortedBuf extent pca alignbuf (assistBuf + i) := by
  have := @Memory.store_load_apply extent (sortedBuf extent pca alignbuf) 0 assistBuf _ _ h
  rw [Nat.zero_add] at this
  exact this

theorem recycledPca_apply (extent pca : Memory) {j : Nat} (h : j < blcksz)
    : (recycledExtent extent pca alignbuf).view pcaOffset j
        =
      (sortedBuf extent pca alignbuf).view assistPca j := by
  have hpcaOffset : pcaOffset = 1040384 := rfl
  have hextent : extentBytes = 1048576 := rfl
  have hblcksz : blcksz = 8192 := rfl
  have hassistPca : assistPca = assistBuf + pcaOffset := rfl
  rw [view, recycledExtent_apply _ _ _ (by omega), view, hassistPca, Nat.add_assoc]

theorem recycledPca_sameAddress (extent pca : Memory) {b : Nat} (hb : b < cfsLogicBlocksPerExtent)
    : SameAddress chunkSize ((recycledExtent extent pca alignbuf).view pcaOffset)
        ((sortedBuf extent pca alignbuf).view assistPca) (chunkSize.address b) := by
  intro j _ hhi
  have := chunkSize.address_succ b
  have := chunkSize.address_le (show b + 1 ≤ cfsLogicBlocksPerExtent from hb)
  have hblcksz : blcksz = 8192 := rfl
  exact recycledPca_apply _ _ _ (by omega)

variable (hpca : ValidPca chunkSize pca)
include hpca

theorem SortedOut.chunkSize_eq {buf : Memory} (h : SortedOut chunkSize pca extent buf)
    : CfsExtentHeader.chunkSize (buf.view assistPca) = chunkSize.bytes := by
  rw [← hpca.size]
  apply decode_load_congr
  intro j hlo hhi
  exact h.header j (by omega) (by omega) (by omega)

theorem recycledPca_size
    : CfsExtentHeader.chunkSize ((recycledExtent extent pca alignbuf).view pcaOffset) = chunkSize.bytes := by
  have hblcksz : blcksz = 8192 := rfl
  rw [← SortedOut.chunkSize_eq hpca (@sortedBuf_spec _ _ extent alignbuf hpca)]
  apply decode_load_congr
  intro j hlo hhi
  exact recycledPca_apply _ _ _ (by omega)

theorem liveChunks_recycled {count : Nat} (hcount : count ≤ CfsExtentHeader.nblocks pca)
    : liveChunks ((recycledExtent extent pca alignbuf).view pcaOffset) count
        =
      List.range' 1 (liveChunks pca count).length := by
  have hsorted := @sortedBuf_spec _ _ extent alignbuf hpca
  induction count with
  | zero => rfl
  | succ count ih =>
    have hlt := Nat.lt_of_lt_of_le hcount hpca.nblocks_le
    have hsame := @recycledPca_sameAddress chunkSize alignbuf extent pca _ hlt
    have hused : nchunks ((recycledExtent extent pca alignbuf).view pcaOffset)
        (chunkSize.address count) = nchunks pca (chunkSize.address count) := by
      rw [hsame.nchunks_eq, nchunks_view, hsorted.used _ hcount]
    rw [liveChunks_succ, chunkSize.getExtentAddress_eq (recycledPca_size alignbuf hpca),
      ih (by omega), length_liveChunks_succ hpca, hused, ← range'_append_1]
    apply congrArg
    rw [range'_eq_map_range]
    apply map_congr_left
    intro t ht
    rw [mem_range] at ht
    have hle := hpca.nchunks_le_perBlock hcount
    rw [hsame.chunknos_eq (by omega), chunknos_view, hsorted.chunkno _ hcount t ht]
    omega

theorem getElem?_liveChunks {b count t : Nat} (hb : b < count) (ht : t < nchunks pca (chunkSize.address b))
    : (liveChunks pca count)[(liveChunks pca b).length + t]?
        =
      some (chunknos pca (chunkSize.address b) t) := by
  induction count, hb using Nat.le_induction with
  | base =>
    rw [liveChunks_succ, getElem?_append_right (by omega), Nat.add_sub_cancel_left,
      hpca.getExtentAddress_eq, getElem?_map, getElem?_range ht]
    rfl
  | succ count _ ih =>
    rw [liveChunks_succ, getElem?_append_left, ih]
    exact (List.getElem?_eq_some_iff.mp ih).choose

theorem pageChunks_recycled {b : Nat} (hb : b < CfsExtentHeader.nblocks pca)
    : pageChunks chunkSize ((recycledExtent extent pca alignbuf).view pcaOffset)
          (recycledExtent extent pca alignbuf) b
        =
      pageChunks chunkSize pca extent b := by
  have hsorted := @sortedBuf_spec _ _ extent alignbuf hpca
  have hlt := Nat.lt_of_lt_of_le hb hpca.nblocks_le
  have hsame := @recycledPca_sameAddress chunkSize alignbuf extent pca _ hlt
  have hle := hpca.nchunks_le_perBlock hb
  rw [pageChunks, pageChunks, chunkSize.getExtentAddress_eq (recycledPca_size alignbuf hpca),
    hpca.getExtentAddress_eq, hsame.nchunks_eq, nchunks_view, hsorted.used b hb]
  apply map_congr_left
  intro t ht
  rw [mem_range] at ht
  rw [hsame.chunknos_eq (by omega), chunknos_view, hsorted.chunkno b hb t ht, Nat.add_sub_cancel]
  have hget := getElem?_liveChunks hpca hb ht
  have hindex := (List.getElem?_eq_some_iff.mp hget).choose
  have hmul := chunkSize.mul_bytes_le (Nat.le_trans (Nat.succ_le_of_lt hindex) hpca.length_liveChunks_le)
  have hadd := chunkSize.add_bytes_le (Nat.lt_succ_self ((liveChunks pca b).length + t))
  have hpcaOffset : pcaOffset = 1040384 := rfl
  have hextent : extentBytes = 1048576 := rfl
  apply load_congr
  intro o ho
  rw [recycledExtent_apply _ _ _ (by omega)]
  exact hsorted.data _ _ hget o ho

theorem allocatedChunks_recycled
    : CfsExtentHeader.allocatedChunks ((recycledExtent extent pca alignbuf).view pcaOffset)
        =
      (liveChunks pca (CfsExtentHeader.nblocks pca)).length := by
  have hblcksz : blcksz = 8192 := rfl
  rw [← (@sortedBuf_spec _ _ extent alignbuf hpca).total]
  refine Eq.trans (b := decode (((sortedBuf extent pca alignbuf).view assistPca).load 4 4)) ?_ ?_
  . apply decode_load_congr
    intro j hlo hhi
    exact recycledPca_apply _ _ _ (by omega)
  . rw [load_view]

theorem compacted
    : Compacted chunkSize pca extent ((recycledExtent extent pca alignbuf).view pcaOffset)
        (recycledExtent extent pca alignbuf) := by
  have hsorted := @sortedBuf_spec _ _ extent alignbuf hpca
  have hsize := @recycledPca_size _ _ extent alignbuf hpca
  have hblcksz : blcksz = 8192 := rfl
  have hused : ∀ b < CfsExtentHeader.nblocks pca,
      nchunks ((recycledExtent extent pca alignbuf).view pcaOffset) (chunkSize.address b)
        = nchunks pca (chunkSize.address b) := by
    intro b hb
    have hlt := Nat.lt_of_lt_of_le hb hpca.nblocks_le
    rw [(recycledPca_sameAddress alignbuf extent pca hlt).nchunks_eq, nchunks_view, hsorted.used _ hb]
  have hallocated : ∀ b < CfsExtentHeader.nblocks pca,
      allocatedChunks ((recycledExtent extent pca alignbuf).view pcaOffset) (chunkSize.address b)
        = nchunks pca (chunkSize.address b) := by
    intro b hb
    have hlt := Nat.lt_of_lt_of_le hb hpca.nblocks_le
    rw [(recycledPca_sameAddress alignbuf extent pca hlt).allocatedChunks_eq, allocatedChunks_view,
      hsorted.allocated _ hb]
  have htotal := @allocatedChunks_recycled _ _ extent alignbuf hpca
  constructor
  . exact hsize
  . apply decode_load_congr
    intro j hlo hhi
    rw [recycledPca_apply _ _ _ (by omega)]
    exact hsorted.header j (by omega) (by omega) (by omega)
  . intro b hb
    rw [chunkSize.getExtentAddress_eq hsize, hpca.getExtentAddress_eq]
    exact hused b hb
  . intro b hb
    rw [chunkSize.getExtentAddress_eq hsize, hallocated b hb, hused b hb]
  . intro b hb
    exact pageChunks_recycled alignbuf hpca hb
  . rw [htotal, ← liveChunks_recycled alignbuf hpca (Nat.le_refl _), allListed, liveChunks]
    apply flatMap_congr
    intro b hb
    rw [mem_range] at hb
    rw [listed, chunkSize.getExtentAddress_eq hsize, hallocated b hb, hused b hb]
  . intro b hb
    have hlt := Nat.lt_of_lt_of_le hb hpca.nblocks_le
    have hsame := @recycledPca_sameAddress chunkSize alignbuf extent pca _ hlt
    rw [chunkSize.getExtentAddress_eq hsize]
    apply hsame.symm.matches
    . rw [allocatedChunks_view, hsorted.allocated _ hb]
      exact hpca.nchunks_le_perBlock hb
    . rw [matches_view]
      exact hsorted.checksum b hb
  . have hflags := hsorted.flags
    have := (pca 10).toNat_lt
    rw [CfsExtentHeader.recycleInOrder, recycledPca_apply _ _ _ (by omega), view, hflags, beq_iff_eq]
    omega

theorem validPca_recycled
    : ValidPca chunkSize ((recycledExtent extent pca alignbuf).view pcaOffset) := by
  have hcompacted := @compacted _ _ extent alignbuf hpca
  have htotal := @allocatedChunks_recycled _ _ extent alignbuf hpca
  have hle := hpca.length_liveChunks_le
  constructor
  . exact hcompacted.size
  . rw [hcompacted.nblocks]
    exact hpca.nblocks_le
  . rw [hcompacted.nblocks]
    intro b hb
    rw [hcompacted.tight b hb]
  . rw [hcompacted.nblocks]
    intro b hb
    rw [hcompacted.tight b hb, hcompacted.used b hb, hpca.getExtentAddress_eq]
    exact hpca.nchunks_le_perBlock hb
  . rw [hcompacted.nblocks, hcompacted.numbers]
    exact nodup_range'
  . rw [hcompacted.nblocks, hcompacted.numbers]
    intro chunkno hmem
    rw [mem_range'_1] at hmem
    omega

end Extent

theorem load_eq_of_decode_eq {mem mem' : Memory} {pos n : Nat}
    (h : decode (mem.load pos n) = decode (mem'.load pos n))
    : ∀ i < n, mem (pos + i) = mem' (pos + i) := by
  have hbytes : mem.load pos n = mem'.load pos n := by
    have henc := encode_decode (mem.load pos n)
    have henc' := encode_decode (mem'.load pos n)
    rw [length_load] at henc henc'
    rw [← henc, ← henc', h]
  intro i hi
  have hget := congrArg (fun bs => bs[i]?) hbytes
  simp only [load, getElem?_map, getElem?_range hi, Option.map_some, Option.some.injEq] at hget
  exact hget

theorem SameAddress.ofFields {chunkSize : ChunkSize} {mem mem' : Memory} {addr : Nat}
    (hmatches : Matches mem addr) (hmatches' : Matches mem' addr)
    (hle : allocatedChunks mem addr ≤ blcksz / chunkSize.bytes)
    (hnchunks : nchunks mem addr = nchunks mem' addr)
    (hallocated : allocatedChunks mem addr = allocatedChunks mem' addr)
    (hchunknos : ∀ i < blcksz / chunkSize.bytes, chunknos mem addr i = chunknos mem' addr i)
    : SameAddress chunkSize mem mem' addr := by
  have hafter : ∀ j, addr + 4 ≤ j → j < addr + chunkSize.addressSize → mem j = mem' j := by
    intro j hlo hhi
    simp only [ChunkSize.addressSize] at hhi
    obtain ⟨i, rfl⟩ := Nat.exists_eq_add_of_le hlo
    by_cases hzero : i = 0
    . rw [hzero]
      exact UInt8.toNat_inj.mp hnchunks
    . by_cases hone : i = 1
      . rw [hone]
        exact UInt8.toNat_inj.mp hallocated
      . have h := load_eq_of_decode_eq (hchunknos ((i - 2) / 2) (by omega)) ((i - 2) % 2) (by omega)
        have hi : addr + 6 + 2 * ((i - 2) / 2) + (i - 2) % 2 = addr + 4 + i := by omega
        rw [hi] at h
        exact h
  have hchecksum : checksum mem addr = checksum mem' addr := by
    have := chunkSize.perBlock_le
    rw [hmatches, hmatches', ← hallocated, addrChecksum32, addrChecksum32, addrChecksum32.go_congr]
    intro j hlo hhi
    apply hafter j hlo
    simp only [sizeOfExtentAddressByChunks] at hhi
    simp only [ChunkSize.addressSize]
    omega
  intro j hlo hhi
  by_cases hfirst : j < addr + 4
  . obtain ⟨i, rfl⟩ := Nat.exists_eq_add_of_le hlo
    exact load_eq_of_decode_eq hchecksum i (by omega)
  . exact hafter j (by omega) hhi

theorem sortedOut_unique {chunkSize : ChunkSize} {pca extent pca' extent' buf buf' : Memory}
    (hpca : ValidPca chunkSize pca) (h : SortedOut chunkSize pca extent buf)
    (h' : SortedOut chunkSize pca' extent' buf')
    (hnblocks : CfsExtentHeader.nblocks pca' = CfsExtentHeader.nblocks pca)
    (hused : ∀ b < CfsExtentHeader.nblocks pca,
      nchunks pca' (chunkSize.address b) = nchunks pca (chunkSize.address b))
    (hlength : ∀ b ≤ CfsExtentHeader.nblocks pca, (liveChunks pca' b).length = (liveChunks pca b).length)
    (hheader : ∀ j < 144, (j < 4 ∨ 8 ≤ j) → j ≠ 10 → pca' j = pca j)
    (hflags : (pca' 10).toNat % 128 = (pca 10).toNat % 128)
    (hdata : ∀ x < (liveChunks pca (CfsExtentHeader.nblocks pca)).length * chunkSize.bytes,
      buf' (assistBuf + x) = buf (assistBuf + x))
    {x : Nat} (hx : x < extentBytes)
    : buf' (assistBuf + x) = buf (assistBuf + x) := by
  have hpcaOffset : pcaOffset = 1040384 := rfl
  have hextent : extentBytes = 1048576 := rfl
  have hblcksz : blcksz = 8192 := rfl
  have hassistPca : assistPca = assistBuf + pcaOffset := rfl
  have hnoData' := h'.noData
  have hchunkno' := h'.chunkno
  have hnoChunkno' := h'.noChunkno
  have hused' := h'.used
  have hallocated' := h'.allocated
  have hchecksum' := h'.checksum
  have hnoAddress' := h'.noAddress
  have htotal' := h'.total
  rw [hnblocks] at hnoData' hchunkno' hnoChunkno' hused' hallocated' hchecksum' hnoAddress' htotal'
  rw [hlength _ (Nat.le_refl _)] at hnoData' htotal'
  by_cases hdataArea : x < pcaOffset
  . by_cases hlive : x < (liveChunks pca (CfsExtentHeader.nblocks pca)).length * chunkSize.bytes
    . exact hdata x hlive
    . rw [h.noData _ (by omega) (by omega), hnoData' _ (by omega) (by omega)]
  . obtain ⟨j, rfl⟩ := Nat.exists_eq_add_of_le (Nat.le_of_not_lt hdataArea)
    rw [← Nat.add_assoc, ← hassistPca]
    by_cases hhead : j < 144
    . by_cases htotal : 4 ≤ j ∧ j < 8
      . have hload := h.total.trans htotal'.symm
        have hget := load_eq_of_decode_eq hload (j - 4) (by omega)
        have hj : assistPca + 4 + (j - 4) = assistPca + j := by omega
        rw [hj] at hget
        exact hget.symm
      . by_cases hten : j = 10
        . apply UInt8.toNat_inj.mp
          rw [hten, h.flags, h'.flags, hflags]
        . rw [h.header j hhead (by omega) hten, h'.header j hhead (by omega) hten,
            hheader j hhead (by omega) hten]
    . by_cases haddress : j < chunkSize.address (CfsExtentHeader.nblocks pca)
      . obtain ⟨b, hlo, hhi⟩ : ∃ b, chunkSize.address b ≤ j ∧
            j < chunkSize.address b + chunkSize.addressSize := by
          have hpos : 0 < chunkSize.addressSize := by
            simp only [ChunkSize.addressSize]
            omega
          have hdiv := Nat.div_add_mod (j - 144) chunkSize.addressSize
          have hmod := Nat.mod_lt (j - 144) hpos
          apply Exists.intro ((j - 144) / chunkSize.addressSize)
          simp only [ChunkSize.address]
          rw [Nat.mul_comm]
          omega
        have hb : b < CfsExtentHeader.nblocks pca := by
          apply Decidable.byContradiction
          intro hge
          have := chunkSize.address_mono (Nat.le_of_not_lt hge)
          omega
        have hallocated : allocatedChunks buf' (assistPca + chunkSize.address b)
            = allocatedChunks buf (assistPca + chunkSize.address b) := by
          rw [hallocated' b hb, h.allocated b hb, hused b hb]
        have hnchunks : nchunks buf' (assistPca + chunkSize.address b)
            = nchunks buf (assistPca + chunkSize.address b) := by
          rw [hused' b hb, h.used b hb, hused b hb]
        have hchunknos : ∀ i < blcksz / chunkSize.bytes, chunknos buf' (assistPca + chunkSize.address b) i
              = chunknos buf (assistPca + chunkSize.address b) i := by
          intro i hi
          by_cases hused₁ : i < nchunks pca (chunkSize.address b)
          . rw [h.chunkno b hb i hused₁, hchunkno' b hb i (by rw [hused b hb]; exact hused₁),
              hlength b (Nat.le_of_lt hb)]
          . rw [h.noChunkno b hb i (by omega) hi, hnoChunkno' b hb i (by rw [hused b hb]; omega) hi]
        have hle := hpca.nchunks_le_perBlock hb
        apply SameAddress.ofFields (hchecksum' b hb) (h.checksum b hb) _ hnchunks hallocated hchunknos
        . omega
        . omega
        . rw [hallocated' b hb, hused b hb]
          exact hle
      . rw [h.noAddress _ (by omega) (by omega), hnoAddress' _ (by omega) (by omega)]

end Cfs

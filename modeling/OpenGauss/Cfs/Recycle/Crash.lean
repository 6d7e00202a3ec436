import OpenGauss.Cfs.Recycle.Compact

/-!
This module contains the verification of the recycling of an extent over crashes.
-/

open Memory List

namespace Cfs

open LittleEndian CfsExtentAddress

variable {disk : Disk}

section Again

variable {chunkSize : ChunkSize} {pca extent : Memory}

theorem recycledImage_recycled (hpca : ValidPca chunkSize pca) (alignbuf alignbuf' : Memory)
    : recycledImage (recycledExtent extent pca alignbuf)
          ((recycledExtent extent pca alignbuf).view pcaOffset) alignbuf'
        =
      recycledImage extent pca alignbuf := by
  have hblcksz : blcksz = 8192 := rfl
  have hsorted := @sortedBuf_spec _ _ extent alignbuf hpca
  have hcompacted := @compacted _ _ extent alignbuf hpca
  have hsorted' := @sortedBuf_spec _ _ (recycledExtent extent pca alignbuf) alignbuf'
    (@validPca_recycled _ _ extent alignbuf hpca)
  have hmax := chunkSize.mul_bytes_le hpca.length_liveChunks_le
  have hpcaOffset : pcaOffset = 1040384 := rfl
  have hextent : extentBytes = 1048576 := rfl
  apply load_congr
  intro x hx
  apply sortedOut_unique hpca hsorted hsorted' hcompacted.nblocks _ _ _ _ _ hx
  . intro b hb
    have hused := hcompacted.used b hb
    rw [chunkSize.getExtentAddress_eq hcompacted.size, hpca.getExtentAddress_eq] at hused
    exact hused
  . intro b hb
    rw [liveChunks_recycled alignbuf hpca hb, length_range']
  . intro j hj hj' hten
    rw [recycledPca_apply _ _ _ (by omega)]
    exact hsorted.header j hj hj' hten
  . have hflags := hsorted.flags
    rw [recycledPca_apply _ _ _ (by omega), view, hflags]
    omega
  . intro x hx
    have hpos := chunkSize.bytes_pos
    have hdiv := Nat.div_add_mod x chunkSize.bytes
    have hmod := Nat.mod_lt x hpos
    have hlt : x / chunkSize.bytes < (liveChunks pca (CfsExtentHeader.nblocks pca)).length := by
      rw [Nat.div_lt_iff_lt_mul hpos]
      exact hx
    have hget : (liveChunks ((recycledExtent extent pca alignbuf).view pcaOffset)
        (CfsExtentHeader.nblocks ((recycledExtent extent pca alignbuf).view pcaOffset)))[
          x / chunkSize.bytes]? = some (x / chunkSize.bytes + 1) := by
      rw [hcompacted.nblocks, liveChunks_recycled alignbuf hpca (Nat.le_refl _), getElem?_range' hlt]
      simp [Nat.add_comm]
    have hdata := hsorted'.data _ _ hget _ hmod
    rw [Nat.add_sub_cancel, Nat.mul_comm, hdiv] at hdata
    rw [hdata, recycledExtent_apply _ _ _ (by omega)]

end Again

def RecyclePromise (chunkSize : ChunkSize) (settings : Settings) (disk : Disk)
    (key : CfsExtInfo.Key) (extent pca alignbuf : Memory) (n : Nat) : Prop :=
  let extent' := recycledExtent extent pca alignbuf
  Compacted chunkSize pca extent (extent'.view pcaOffset) extent' ∧
    (∀ alignbuf', recycledExtent extent' (extent'.view pcaOffset) alignbuf' = extent') ∧
    ∃ disk', dwRecoverExtPartialWrites settings
        (crashAfter (cfsRecycleChunkInExt key extent pca alignbuf) n disk) = some disk' ∧
      (disk'.extents = disk.extents ∨
        disk'.extents = Function.update disk.extents key (some extent'))

section Crash

variable {chunkSize : ChunkSize} {pca extent : Memory}

theorem recycledExtent_recycled (hpca : ValidPca chunkSize pca) (alignbuf alignbuf' : Memory)
    : recycledExtent (recycledExtent extent pca alignbuf)
          ((recycledExtent extent pca alignbuf).view pcaOffset) alignbuf'
        =
      recycledExtent extent pca alignbuf := by
  have himage : recycledImage extent pca alignbuf
      = (recycledExtent extent pca alignbuf).load 0 extentBytes := by
    apply load_congr
    intro i hi
    rw [Nat.zero_add, recycledExtent_apply _ _ _ hi]
  rw [recycledExtent, recycledImage_recycled hpca, himage, store_load]

theorem dwRecoverExtPartialWrites_of_short (settings : Settings) (h : disk.assist.size ≤ extentBytes + blcksz)
    : dwRecoverExtPartialWrites settings disk = some disk := by
  rw [dwRecoverExtPartialWrites, if_pos]
  apply Nat.lt_of_le_of_lt h
  decide

def tornExtent (extent pca alignbuf : Memory) (m : Nat) : Memory :=
  extent.store 0 ((recycledImage extent pca alignbuf).take m)

theorem tornExtent_apply (extent pca alignbuf : Memory) (m i : Nat)
    : tornExtent extent pca alignbuf m i
        =
      if i < m ∧ i < extentBytes then recycledExtent extent pca alignbuf i else extent i := by
  have hlength : (recycledImage extent pca alignbuf).length = extentBytes := length_load ..
  rw [tornExtent, recycledExtent, store, store, length_take, hlength]
  split
  . rw [if_pos (by omega), if_pos (by omega)]
    simp only [getD_eq_getElem?_getD]
    rw [getElem?_take_of_lt (by omega)]
  . rw [if_neg (by omega)]

theorem recycledExtent_outside (extent pca alignbuf : Memory) {i : Nat} (h : extentBytes ≤ i)
    : recycledExtent extent pca alignbuf i = extent i := by
  apply store_outside
  rw [recycledImage, length_load]
  omega

theorem tornExtent_eq_old_iff (extent pca alignbuf : Memory) (m : Nat)
    : tornExtent extent pca alignbuf m = extent ↔
        ∀ i < m, recycledExtent extent pca alignbuf i = extent i := by
  constructor
  . intro heq i hi
    by_cases hin : i < extentBytes
    . have happly := tornExtent_apply extent pca alignbuf m i
      rw [heq, if_pos ⟨hi, hin⟩] at happly
      exact happly.symm
    . exact recycledExtent_outside extent pca alignbuf (by omega)
  . intro h
    apply ext
    intro i
    rw [tornExtent_apply]
    split
    . rename_i hi
      exact h i hi.1
    . rfl

theorem tornExtent_eq_new_iff (extent pca alignbuf : Memory) (m : Nat)
    : tornExtent extent pca alignbuf m = recycledExtent extent pca alignbuf ↔
        ∀ i, m ≤ i → recycledExtent extent pca alignbuf i = extent i := by
  constructor
  . intro heq i hi
    have happly := tornExtent_apply extent pca alignbuf m i
    rw [heq, if_neg (by omega)] at happly
    exact happly
  . intro h
    apply ext
    intro i
    rw [tornExtent_apply]
    split
    . rfl
    . by_cases hin : i < extentBytes
      . exact (h i (by omega)).symm
      . exact (recycledExtent_outside extent pca alignbuf (by omega)).symm

theorem within_below {mem : Memory} {base i : Nat} {f : Memory → Memory} (h : i < base)
    : mem.within base f i = mem i := by
  rw [within, if_neg (by omega)]

theorem cfsRecycleChunkInExt_eq (key : CfsExtInfo.Key) (extent alignbuf : Memory)
    (h : CfsExtentHeader.recycleInOrder pca = false)
    : ∃ first third header, cfsRecycleChunkInExt key extent pca alignbuf
          = [.assist 0 first, .extent key 0 (recycledImage extent pca alignbuf),
              .assist extentBytes third] ++ cfsPunchHole key header ∧
        first.length = extentBytes + blcksz ∧ third.length = blcksz ∧
        ∀ j < blcksz, header j = (sortedBuf extent pca alignbuf).view assistPca j := by
  have hassistInfobuf : assistInfobuf = assistBuf + extentBytes := rfl
  have hpcaOffset : pcaOffset = 1040384 := rfl
  have hextent : extentBytes = 1048576 := rfl
  have hblcksz : blcksz = 8192 := rfl
  have hassistPca : assistPca = assistBuf + pcaOffset := rfl
  have hload : ((sortedBuf extent pca alignbuf).within assistInfobuf
      (fun info => CfsExtInfo.setAssistFlag info 1)).load assistBuf extentBytes
        = recycledImage extent pca alignbuf := by
    apply load_congr
    intro i hi
    exact within_below (by omega)
  rw [cfsRecycleChunkInExt, if_neg (by simp [h])]
  apply Exists.intro (((sortedBuf extent pca alignbuf).within assistInfobuf
    (fun info => CfsExtInfo.setAssistFlag info 1)).load assistBuf (extentBytes + blcksz))
  apply Exists.intro ((((sortedBuf extent pca alignbuf).within assistInfobuf
    (fun info => CfsExtInfo.setAssistFlag info 1)).within assistInfobuf
      (fun info => CfsExtInfo.setAssistFlag info 0)).load assistBuf blcksz)
  apply Exists.intro ((((sortedBuf extent pca alignbuf).within assistInfobuf
    (fun info => CfsExtInfo.setAssistFlag info 1)).within assistInfobuf
      (fun info => CfsExtInfo.setAssistFlag info 0)).view assistPca)
  refine ⟨?_, length_load .., length_load .., ?_⟩
  . rw [← hload]
    rfl
  . intro j hj
    rw [view, within_below (by omega), within_below (by omega), view]

theorem recycledExtent_hole (hpca : ValidPca chunkSize pca) (alignbuf : Memory) {header : Memory}
    (hheader : ∀ j < blcksz, header j = (sortedBuf extent pca alignbuf).view assistPca j) {x : Nat}
    (hlo : (CfsExtentHeader.allocatedChunks header * CfsExtentHeader.chunkSize header + 4095)
      / 4096 * 4096 ≤ x)
    (hhi : x < pcaOffset)
    : recycledExtent extent pca alignbuf x = 0 := by
  have hsorted := @sortedBuf_spec _ _ extent alignbuf hpca
  have hblcksz : blcksz = 8192 := rfl
  have hpcaOffset : pcaOffset = 1040384 := rfl
  have hextent : extentBytes = 1048576 := rfl
  have hassistPca : assistPca = assistBuf + pcaOffset := rfl
  have hallocated : CfsExtentHeader.allocatedChunks header
      = (liveChunks pca (CfsExtentHeader.nblocks pca)).length := by
    rw [← hsorted.total, ← Nat.add_comm 4, ← Nat.add_comm assistPca, ← load_view]
    apply decode_load_congr
    intro j _ hj
    exact hheader j (by omega)
  have hsize : CfsExtentHeader.chunkSize header = chunkSize.bytes := by
    rw [← SortedOut.chunkSize_eq hpca hsorted]
    apply decode_load_congr
    intro j _ hj
    exact hheader j (by omega)
  rw [hallocated, hsize] at hlo
  generalize hlive : (liveChunks pca (CfsExtentHeader.nblocks pca)).length * chunkSize.bytes = live at *
  rw [recycledExtent_apply _ _ _ (by omega)]
  apply hsorted.noData
  . rw [hlive]
    omega
  . omega

theorem crashAfter_punchHole (hpca : ValidPca chunkSize pca) (key : CfsExtInfo.Key)
    (alignbuf : Memory) {header : Memory}
    (hheader : ∀ j < blcksz, header j = (sortedBuf extent pca alignbuf).view assistPca j)
    (hdisk : disk.extents key = some (recycledExtent extent pca alignbuf)) (n : Nat)
    : crashAfter (cfsPunchHole key header) n disk = disk := by
  have hkeep : ∀ bs : Bytes, (∀ b ∈ bs, b = 0) →
      bs.length ≤ pcaOffset - (CfsExtentHeader.allocatedChunks header
        * CfsExtentHeader.chunkSize header + 4095) / 4096 * 4096 →
      DiskWrite.apply disk (.extent key ((CfsExtentHeader.allocatedChunks header
        * CfsExtentHeader.chunkSize header + 4095) / 4096 * 4096) bs) = disk := by
    intro bs hzero hlength
    have hstore : (recycledExtent extent pca alignbuf).store
        ((CfsExtentHeader.allocatedChunks header * CfsExtentHeader.chunkSize header + 4095)
          / 4096 * 4096) bs = recycledExtent extent pca alignbuf := by
      apply ext
      intro x
      rw [store]
      split
      . rename_i hx
        rw [recycledExtent_hole hpca alignbuf hheader hx.1 (by omega), getD_eq_getElem?_getD,
          getElem?_eq_getElem (by omega)]
        apply hzero
        apply getElem_mem
      . rfl
    simp only [DiskWrite.apply, hdisk, Option.map_some, hstore]
    rw [← hdisk, Function.update_eq_self]
  simp only [cfsPunchHole]
  split
  . rfl
  . simp only [crashAfter]
    split
    . apply hkeep
      . intro b hb
        exact eq_of_mem_replicate (mem_of_mem_take hb)
      . rw [length_take, length_replicate]
        omega
    . apply hkeep
      . intro b hb
        exact eq_of_mem_replicate hb
      . rw [length_replicate]

theorem size_pwrite_le {file : File} {pos bound : Nat} {bs : Bytes} (h : file.size ≤ bound)
    (h' : pos + bs.length ≤ bound)
    : (file.pwrite pos bs).size ≤ bound := by
  exact Nat.max_le.mpr ⟨h, h'⟩

theorem crashAfter_cfsRecycleChunkInExt (hpca : ValidPca chunkSize pca) (key : CfsExtInfo.Key)
    (alignbuf : Memory) (horder : CfsExtentHeader.recycleInOrder pca = false)
    (hdisk : disk.extents key = some extent) (hassist : disk.assist.size ≤ extentBytes + blcksz)
    (n : Nat)
    : (crashAfter (cfsRecycleChunkInExt key extent pca alignbuf) n disk).extents
          = Function.update disk.extents key
              (some (tornExtent extent pca alignbuf (n - (extentBytes + blcksz)))) ∧
        (crashAfter (cfsRecycleChunkInExt key extent pca alignbuf) n disk).assist.size
          ≤ extentBytes + blcksz := by
  obtain ⟨first, third, header, heq, hfirst, hthird, hheader⟩ :=
    cfsRecycleChunkInExt_eq key extent alignbuf horder
  have himage : (recycledImage extent pca alignbuf).length = extentBytes := length_load ..
  have hfull : ∀ m, extentBytes ≤ m →
      tornExtent extent pca alignbuf m = recycledExtent extent pca alignbuf := by
    intro m hm
    rw [tornExtent, take_of_length_le (by omega)]
    rfl
  have hlength₁ : (DiskWrite.assist 0 first).length = extentBytes + blcksz := hfirst
  have hlength₂ : (DiskWrite.extent key 0 (recycledImage extent pca alignbuf)).length
      = extentBytes := himage
  have hlength₃ : (DiskWrite.assist extentBytes third).length = blcksz := hthird
  have hsize : (disk.assist.pwrite 0 first).size ≤ extentBytes + blcksz := by
    apply size_pwrite_le hassist
    rw [hfirst, Nat.zero_add]
  rw [heq]
  simp only [cons_append, nil_append, crashAfter]
  rw [hlength₁, hlength₂, hlength₃]
  by_cases hn₁ : n < extentBytes + blcksz
  . have htorn : tornExtent extent pca alignbuf (n - (extentBytes + blcksz)) = extent := by
      rw [tornExtent_eq_old_iff]
      intro i hi
      omega
    rw [if_pos hn₁, htorn, ← hdisk, Function.update_eq_self]
    apply And.intro rfl
    apply size_pwrite_le hassist
    rw [length_take, Nat.zero_add]
    exact (Nat.min_le_left ..).trans (by omega)
  . rw [if_neg hn₁]
    by_cases hn₂ : n - (extentBytes + blcksz) < extentBytes
    . rw [if_pos hn₂]
      apply And.intro
      . simp only [DiskWrite.cut, DiskWrite.apply, hdisk, Option.map_some]
        rfl
      . exact hsize
    . rw [if_neg hn₂, hfull _ (by omega)]
      by_cases hn₃ : n - (extentBytes + blcksz) - extentBytes < blcksz
      . rw [if_pos hn₃]
        apply And.intro
        . simp only [DiskWrite.cut, DiskWrite.apply, hdisk, Option.map_some]
          rfl
        . apply size_pwrite_le hsize
          apply Nat.add_le_add_left
          rw [length_take]
          exact (Nat.min_le_left ..).trans (by omega)
      . rw [if_neg hn₃, crashAfter_punchHole hpca key alignbuf hheader]
        . apply And.intro
          . simp only [DiskWrite.apply, hdisk, Option.map_some]
            rfl
          . apply size_pwrite_le hsize
            omega
        . simp only [DiskWrite.apply, hdisk, Option.map_some, Function.update_self]
          rfl

theorem recyclePromise_of_not_inOrder (hpca : ValidPca chunkSize pca) (settings : Settings)
    {key : CfsExtInfo.Key} (alignbuf : Memory) (n : Nat)
    (hdisk : disk.extents key = some extent) (hassist : disk.assist.size ≤ extentBytes + blcksz)
    (horder : CfsExtentHeader.recycleInOrder pca = false)
    : RecyclePromise chunkSize settings disk key extent pca alignbuf n ↔
        (∀ i < n - (extentBytes + blcksz), recycledExtent extent pca alignbuf i = extent i) ∨
          (∀ i, n - (extentBytes + blcksz) ≤ i → recycledExtent extent pca alignbuf i = extent i) := by
  obtain ⟨hextents, hsize⟩ :=
    crashAfter_cfsRecycleChunkInExt hpca key alignbuf horder hdisk hassist n
  rw [← tornExtent_eq_old_iff, ← tornExtent_eq_new_iff, RecyclePromise]
  simp only [dwRecoverExtPartialWrites_of_short settings hsize, Option.some.injEq, exists_eq_left', hextents]
  constructor
  . rintro ⟨_, _, hold | hnew⟩
    . apply Or.inl
      have hkey := congrFun hold key
      rw [Function.update_self, hdisk] at hkey
      exact Option.some.inj hkey
    . apply Or.inr
      have hkey := congrFun hnew key
      rw [Function.update_self, Function.update_self] at hkey
      exact Option.some.inj hkey
  . intro htorn
    refine ⟨compacted alignbuf hpca, recycledExtent_recycled hpca alignbuf, ?_⟩
    apply htorn.imp
    . intro hold
      rw [hold, ← hdisk, Function.update_eq_self]
    . intro hnew
      rw [hnew]

def InPlace (chunkSize : ChunkSize) (pca extent : Memory) (m : Nat) : Prop :=
  (∀ t chunkno, (liveChunks pca (CfsExtentHeader.nblocks pca))[t]? = some chunkno →
    ∀ o < chunkSize.bytes, t * chunkSize.bytes + o < m →
      extent ((chunkno - 1) * chunkSize.bytes + o) = extent (t * chunkSize.bytes + o)) ∧
    ∀ x < m, (liveChunks pca (CfsExtentHeader.nblocks pca)).length * chunkSize.bytes ≤ x →
      extent x = 0

theorem recycledExtent_data (hpca : ValidPca chunkSize pca) (alignbuf : Memory) {t chunkno o : Nat}
    (hchunk : (liveChunks pca (CfsExtentHeader.nblocks pca))[t]? = some chunkno)
    (ho : o < chunkSize.bytes)
    : recycledExtent extent pca alignbuf (t * chunkSize.bytes + o)
        = extent ((chunkno - 1) * chunkSize.bytes + o) := by
  have hpcaOffset : pcaOffset = 1040384 := rfl
  have hextent : extentBytes = 1048576 := rfl
  have ht := (List.getElem?_eq_some_iff.mp hchunk).1
  have hmax := chunkSize.mul_bytes_le hpca.length_liveChunks_le
  have hrow := Nat.mul_le_mul_right chunkSize.bytes (Nat.succ_le_of_lt ht)
  rw [Nat.succ_mul] at hrow
  rw [recycledExtent_apply _ _ _ (by omega)]
  exact (sortedBuf_spec alignbuf hpca).data t chunkno hchunk o ho

theorem recycledExtent_noData (hpca : ValidPca chunkSize pca) (alignbuf : Memory) {x : Nat}
    (hx : (liveChunks pca (CfsExtentHeader.nblocks pca)).length * chunkSize.bytes ≤ x)
    (hlt : x < pcaOffset)
    : recycledExtent extent pca alignbuf x = 0 := by
  have hpcaOffset : pcaOffset = 1040384 := rfl
  have hextent : extentBytes = 1048576 := rfl
  have hassistPca : assistPca = assistBuf + pcaOffset := rfl
  rw [recycledExtent_apply _ _ _ (by omega)]
  apply (sortedBuf_spec alignbuf hpca).noData
  . omega
  . omega

theorem recycledExtent_inPlace_iff (hpca : ValidPca chunkSize pca) (alignbuf : Memory) {m : Nat}
    (hm : m ≤ pcaOffset)
    : (∀ i < m, recycledExtent extent pca alignbuf i = extent i) ↔
        InPlace chunkSize pca extent m := by
  have hpos := chunkSize.bytes_pos
  constructor
  . intro h
    apply And.intro
    . intro t chunkno hchunk o ho hlt
      exact (recycledExtent_data hpca alignbuf hchunk ho).symm.trans (h _ hlt)
    . intro x hlt hx
      rw [← h x hlt]
      exact recycledExtent_noData hpca alignbuf hx (by omega)
  . rintro ⟨hdata, hzero⟩ x hx
    by_cases hin : x / chunkSize.bytes < (liveChunks pca (CfsExtentHeader.nblocks pca)).length
    . have hdiv := Nat.div_add_mod' x chunkSize.bytes
      have hmod := Nat.mod_lt x hpos
      have hchunk := getElem?_eq_getElem hin
      rw [← hdiv, recycledExtent_data hpca alignbuf hchunk hmod]
      exact hdata _ _ hchunk _ hmod (by omega)
    . rw [Nat.div_lt_iff_lt_mul hpos, Nat.not_lt] at hin
      rw [hzero x hx hin]
      exact recycledExtent_noData hpca alignbuf hin (by omega)

-- The flag changes, so that no crash before its byte leaves the new extent.
theorem recycledExtent_flags_ne (hpca : ValidPca chunkSize pca) (alignbuf : Memory)
    (hextent : CfsExtentHeader.recycleInOrder (extent.view pcaOffset) = false)
    : recycledExtent extent pca alignbuf (pcaOffset + 10) ≠ extent (pcaOffset + 10) := by
  intro heq
  have hflags := (@sortedBuf_spec _ _ extent alignbuf hpca).flags
  have hpage := recycledPca_apply alignbuf extent pca (show 10 < blcksz by decide)
  have hlt := (pca 10).toNat_lt
  rw [CfsExtentHeader.recycleInOrder, beq_eq_false_iff_ne, Memory.view, ← heq] at hextent
  rw [Memory.view, Memory.view] at hpage
  rw [hpage] at hextent
  omega

theorem recyclePromise_of_not_torn (hpca : ValidPca chunkSize pca) (settings : Settings)
    {key : CfsExtInfo.Key} (alignbuf : Memory) (n : Nat)
    (hdisk : disk.extents key = some extent) (hassist : disk.assist.size ≤ extentBytes + blcksz)
    (h : CfsExtentHeader.recycleInOrder pca = true ∨ n ≤ extentBytes + blcksz ∨
      extentBytes + blcksz + extentBytes ≤ n)
    : RecyclePromise chunkSize settings disk key extent pca alignbuf n := by
  cases horder : CfsExtentHeader.recycleInOrder pca with
  | true =>
    refine ⟨compacted alignbuf hpca, recycledExtent_recycled hpca alignbuf, disk, ?_, Or.inl rfl⟩
    rw [cfsRecycleChunkInExt, if_pos horder, crashAfter,
      dwRecoverExtPartialWrites_of_short settings hassist]
  | false =>
    rw [recyclePromise_of_not_inOrder hpca settings alignbuf n hdisk hassist horder]
    rcases h with hinOrder | hbefore | hafter
    . rw [horder] at hinOrder
      contradiction
    . apply Or.inl
      intro i hi
      omega
    . apply Or.inr
      intro i hi
      exact recycledExtent_outside extent pca alignbuf (by omega)

theorem recyclePromise_iff_inPlace (hpca : ValidPca chunkSize pca) (settings : Settings)
    {key : CfsExtInfo.Key} (alignbuf : Memory) (n : Nat)
    (hdisk : disk.extents key = some extent) (hassist : disk.assist.size ≤ extentBytes + blcksz)
    (horder : CfsExtentHeader.recycleInOrder pca = false)
    (hextent : CfsExtentHeader.recycleInOrder (extent.view pcaOffset) = false)
    (hn : n ≤ extentBytes + blcksz + pcaOffset)
    : RecyclePromise chunkSize settings disk key extent pca alignbuf n ↔
        InPlace chunkSize pca extent (n - (extentBytes + blcksz)) := by
  rw [recyclePromise_of_not_inOrder hpca settings alignbuf n hdisk hassist horder,
    recycledExtent_inPlace_iff hpca alignbuf (by omega)]
  apply or_iff_left
  intro hnew
  exact recycledExtent_flags_ne hpca alignbuf hextent (hnew _ (by omega))

-- No recovery reads the assist file: a crash inside the write of the extent keeps the promise only
-- where the bytes written so far are the ones that stood there.
theorem recyclePromise_of_crash (hpca : ValidPca chunkSize pca) (settings : Settings)
    {disk : Disk} {key : CfsExtInfo.Key} (alignbuf : Memory) (n : Nat)
    (hdisk : disk.extents key = some extent) (hassist : disk.assist.size ≤ extentBytes + blcksz)
    : (CfsExtentHeader.recycleInOrder pca = true ∨ n ≤ extentBytes + blcksz ∨
          extentBytes + blcksz + extentBytes ≤ n →
        RecyclePromise chunkSize settings disk key extent pca alignbuf n) ∧
      (CfsExtentHeader.recycleInOrder pca = false →
        CfsExtentHeader.recycleInOrder (extent.view pcaOffset) = false →
        n ≤ extentBytes + blcksz + pcaOffset →
        (RecyclePromise chunkSize settings disk key extent pca alignbuf n ↔
          InPlace chunkSize pca extent (n - (extentBytes + blcksz)))) := by
  exact ⟨recyclePromise_of_not_torn hpca settings alignbuf n hdisk hassist,
    recyclePromise_iff_inPlace hpca settings alignbuf n hdisk hassist⟩

end Crash

def secondChunkPca : Memory :=
  (Memory.zero.store 0 [1, 0, 0, 0, 2, 0, 0, 0, 0, 16, 1]).store 144 [1, 1, 2, 0, 1, 1, 2, 0]

def secondChunkExtent : Memory :=
  (Memory.zero.store 4096 [1]).copy pcaOffset secondChunkPca 0 blcksz

def secondChunkKey : CfsExtInfo.Key := ⟨[], 0⟩

def secondChunkDisk : Disk := ⟨fun _ => some secondChunkExtent, ⟨Memory.zero, 0⟩⟩

def secondChunkSettings : Settings := ⟨false, true, false, 4096, 1, ⟨false, false⟩⟩

theorem validPca_secondChunk : ValidPca .half secondChunkPca := by
  constructor <;> decide

-- After the whole write of the extent, and inside it.
theorem recyclePromise_of_crash_secondChunk
    : RecyclePromise .half secondChunkSettings secondChunkDisk secondChunkKey secondChunkExtent
          secondChunkPca Memory.zero (extentBytes + blcksz + extentBytes) ∧
        (RecyclePromise .half secondChunkSettings secondChunkDisk secondChunkKey secondChunkExtent
          secondChunkPca Memory.zero (extentBytes + blcksz + blcksz) ↔
            InPlace .half secondChunkPca secondChunkExtent blcksz) := by
  have hpca := validPca_secondChunk
  have hdisk : secondChunkDisk.extents secondChunkKey = some secondChunkExtent := rfl
  apply And.intro
  . apply (recyclePromise_of_crash hpca secondChunkSettings Memory.zero _ hdisk (Nat.zero_le _)).1
    exact Or.inr (Or.inr (Nat.le_refl _))
  . exact (recyclePromise_of_crash hpca secondChunkSettings Memory.zero (extentBytes + blcksz + blcksz)
      hdisk (Nat.zero_le _)).2 (by decide) (by decide) (by decide)

theorem not_recyclePromise_secondChunk
    : ¬RecyclePromise .half secondChunkSettings secondChunkDisk secondChunkKey secondChunkExtent
        secondChunkPca Memory.zero (extentBytes + blcksz + blcksz) := by
  rw [recyclePromise_iff_inPlace validPca_secondChunk secondChunkSettings Memory.zero _ rfl
    (Nat.zero_le _) (by decide) (by decide) (by decide)]
  rintro ⟨hdata, _⟩
  exact absurd (hdata 0 2 (by decide) 0 (by decide) (by decide)) (by decide)

end Cfs

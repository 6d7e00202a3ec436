import OpenGauss.Ustore.UndoRecord.Impl

/-!
This module contains what writing an undo record page by page leaves in the undo log.
-/

open List Layout

namespace Undo

variable (r : UndoRecord) (u : Nat) (log : UndoLog) (src : Bytes)

section Offsets

theorem toUsable_fromUsable : undoLogOffsetToUsableByteNo (undoLogOffsetFromUsableByteNo u) = u := by
  simp only [undoLogOffsetToUsableByteNo, undoLogOffsetFromUsableByteNo, undoLogUsableBytesPerPage,
    undoLogBlockHeaderSize, blcksz]
  omega

theorem fromUsable_toUsable (offset : Nat) (h : undoLogBlockHeaderSize ≤ offset % blcksz)
    : undoLogOffsetFromUsableByteNo (undoLogOffsetToUsableByteNo offset) = offset := by
  simp only [undoLogOffsetToUsableByteNo, undoLogOffsetFromUsableByteNo, undoLogUsableBytesPerPage,
    undoLogBlockHeaderSize, blcksz] at *
  omega

def leftOnPage (u : Nat) : Nat := undoLogUsableBytesPerPage - u % undoLogUsableBytesPerPage

theorem fromUsable_add (k : Nat) (h : k < leftOnPage u)
    : undoLogOffsetFromUsableByteNo (u + k) = undoLogOffsetFromUsableByteNo u + k := by
  simp only [undoLogOffsetFromUsableByteNo, leftOnPage, undoLogUsableBytesPerPage,
    undoLogBlockHeaderSize, blcksz] at *
  omega

theorem leftOnPage_pos : 0 < leftOnPage u := by
  simp only [leftOnPage, undoLogUsableBytesPerPage, undoLogBlockHeaderSize, blcksz]
  omega

theorem fromUsable_add_leftOnPage : undoLogOffsetFromUsableByteNo u + leftOnPage u
      =
    undoLogOffsetFromUsableByteNo u / blcksz * blcksz + blcksz := by
  simp only [undoLogOffsetFromUsableByteNo, leftOnPage, undoLogUsableBytesPerPage,
    undoLogBlockHeaderSize, blcksz]
  omega

theorem fromUsable_nextPage
    : undoLogOffsetFromUsableByteNo (u + leftOnPage u)
        =
      (undoLogOffsetFromUsableByteNo u / blcksz + 1) * blcksz + undoLogBlockHeaderSize := by
  simp only [undoLogOffsetFromUsableByteNo, leftOnPage, undoLogUsableBytesPerPage,
    undoLogBlockHeaderSize, blcksz]
  omega

theorem leftOnPage_nextPage : leftOnPage (u + leftOnPage u) = undoLogUsableBytesPerPage := by
  simp only [leftOnPage, undoLogUsableBytesPerPage, undoLogBlockHeaderSize, blcksz]
  omega

end Offsets

section Write

def writeUsable (log : UndoLog) (u : Nat) (bs : Bytes) : UndoLog := fun offset =>
  if undoLogBlockHeaderSize ≤ offset % blcksz ∧ u ≤ undoLogOffsetToUsableByteNo offset
      ∧ undoLogOffsetToUsableByteNo offset < u + bs.length then
    bs.getD (undoLogOffsetToUsableByteNo offset - u) 0
  else
    log offset

theorem mem_page_iff (n offset : Nat) (h : n ≤ leftOnPage u)
    : (undoLogOffsetFromUsableByteNo u ≤ offset ∧ offset < undoLogOffsetFromUsableByteNo u + n)
        ↔
      (undoLogBlockHeaderSize ≤ offset % blcksz ∧ u ≤ undoLogOffsetToUsableByteNo offset
        ∧ undoLogOffsetToUsableByteNo offset < u + n) := by
  simp only [undoLogOffsetFromUsableByteNo, undoLogOffsetToUsableByteNo, leftOnPage,
    undoLogUsableBytesPerPage, undoLogBlockHeaderSize, blcksz] at *
  omega

theorem sub_fromUsable (n offset : Nat) (h : n ≤ leftOnPage u)
    (hle : undoLogOffsetFromUsableByteNo u ≤ offset)
    (hlt : offset < undoLogOffsetFromUsableByteNo u + n)
    : offset - undoLogOffsetFromUsableByteNo u = undoLogOffsetToUsableByteNo offset - u := by
  simp only [undoLogOffsetFromUsableByteNo, undoLogOffsetToUsableByteNo, leftOnPage,
    undoLogUsableBytesPerPage, undoLogBlockHeaderSize, blcksz] at *
  omega

theorem memcpy_eq_writeUsable (u : Nat) (bs : Bytes) (h : bs.length ≤ leftOnPage u)
    : memcpy log (undoLogOffsetFromUsableByteNo u) bs = writeUsable log u bs := by
  funext offset
  simp only [memcpy, writeUsable, mem_page_iff u bs.length offset h]
  split
  . next hin =>
    have hpage := (mem_page_iff u bs.length offset h).mpr hin
    rw [sub_fromUsable u bs.length offset h hpage.1 hpage.2]
  . rfl

theorem writeUsable_append (u : Nat) (xs ys : Bytes)
    : writeUsable (writeUsable log u xs) (u + xs.length) ys = writeUsable log u (xs ++ ys) := by
  funext offset
  simp only [writeUsable, length_append]
  by_cases hhead : undoLogBlockHeaderSize ≤ offset % blcksz
  . grind
  . simp [hhead]

theorem writeUsable_nil (u : Nat) : writeUsable log u [] = log := by
  funext offset
  simp only [writeUsable, length_nil]
  rw [if_neg (by omega)]

theorem memcpy_nil (dest : Nat) : memcpy log dest [] = log := by
  funext i
  simp only [memcpy, length_nil]
  rw [if_neg (by omega)]

theorem memcpy_append (dest : Nat) (xs ys : Bytes)
    : memcpy (memcpy log dest xs) (dest + xs.length) ys = memcpy log dest (xs ++ ys) := by
  funext i
  simp only [memcpy, length_append, getD_eq_getElem?_getD]
  by_cases hlo : i < dest
  . rw [if_neg (by omega), if_neg (by omega), if_neg (by omega)]
  . grind

structure Wrote (w w' : Writer) (bs : Bytes) : Prop where
  log : w'.log = memcpy w.log w.writeptr bs
  writeptr : w'.writeptr = w.writeptr + bs.length
  endptr : w'.endptr = w.endptr
  alreadyWritten : w'.alreadyWritten = w.alreadyWritten + bs.length

theorem Wrote.trans {w w' w'' : Writer} {xs ys : Bytes} (h : Wrote w w' xs) (h' : Wrote w' w'' ys)
    : Wrote w w'' (xs ++ ys) := by
  constructor
  . rw [h'.log, h.log, h.writeptr, memcpy_append]
  . rw [h'.writeptr, h.writeptr, length_append, Nat.add_assoc]
  . rw [h'.endptr, h.endptr]
  . rw [h'.alreadyWritten, h.alreadyWritten, length_append, Nat.add_assoc]

def Writer.write (w : Writer) (bs : Bytes) : Writer where
  log := memcpy w.log w.writeptr bs
  writeptr := w.writeptr + bs.length
  endptr := w.endptr
  myBytesWritten := 0
  alreadyWritten := w.alreadyWritten + bs.length

theorem wrote_write (w : Writer) (bs : Bytes) : Wrote w (w.write bs) bs := by
  constructor <;> rfl

theorem insertUndoBytes_skip (w : Writer) (h : src.length ≤ w.myBytesWritten)
    : ∃ w', insertUndoBytes src w = (true, w') ∧ Wrote w w' []
        ∧ w'.myBytesWritten = w.myBytesWritten - src.length := by
  refine ⟨{ w with myBytesWritten := w.myBytesWritten - src.length }, ?_, ?_, rfl⟩
  . simp [insertUndoBytes, h]
  . constructor <;> simp [memcpy_nil]

theorem insertUndoBytes_fits (w : Writer) (h : w.myBytesWritten < src.length)
    (hroom : src.length - w.myBytesWritten ≤ w.endptr - w.writeptr)
    : ∃ w', insertUndoBytes src w = (true, w') ∧ Wrote w w' (src.drop w.myBytesWritten)
        ∧ w'.myBytesWritten = 0 := by
  have hmin : min (src.length - w.myBytesWritten) (w.endptr - w.writeptr)
      = src.length - w.myBytesWritten := Nat.min_eq_left hroom
  have htake : (src.drop w.myBytesWritten).take (src.length - w.myBytesWritten)
      = src.drop w.myBytesWritten := take_of_length_le (by simp)
  have hpos : ¬ src.length - w.myBytesWritten = 0 := by omega
  refine ⟨w.write (src.drop w.myBytesWritten), ?_, wrote_write .., rfl⟩
  simp only [insertUndoBytes, if_neg (Nat.not_le.mpr h), hmin, htake, hpos, if_false, decide_true,
    Writer.write, length_drop]

theorem insertUndoBytes_full (w : Writer) (h : w.myBytesWritten < src.length)
    (hroom : w.endptr - w.writeptr < src.length - w.myBytesWritten)
    : ∃ w', insertUndoBytes src w = (false, w')
        ∧ Wrote w w' ((src.drop w.myBytesWritten).take (w.endptr - w.writeptr)) := by
  have hmin : min (src.length - w.myBytesWritten) (w.endptr - w.writeptr)
      = w.endptr - w.writeptr := Nat.min_eq_right (by omega)
  have hne : ¬ w.endptr - w.writeptr = src.length - w.myBytesWritten := by omega
  have hlen : ((src.drop w.myBytesWritten).take (w.endptr - w.writeptr)).length
      = w.endptr - w.writeptr := by
    simp only [length_take, length_drop]
    omega
  by_cases hzero : w.endptr - w.writeptr = 0
  . refine ⟨w, ?_, ?_⟩
    . simp only [insertUndoBytes, if_neg (Nat.not_le.mpr h), hzero, Nat.min_zero, if_true]
    . rw [hzero, take_zero]
      constructor <;> simp [memcpy_nil]
  . refine ⟨w.write ((src.drop w.myBytesWritten).take (w.endptr - w.writeptr)), ?_, wrote_write ..⟩
    simp only [insertUndoBytes, if_neg (Nat.not_le.mpr h), hmin, hzero, hne, if_false, decide_false,
      Writer.write, hlen]

theorem insertAll_spec (srcs : List Bytes) (w : Writer) (hmy : w.myBytesWritten ≤ srcs.flatten.length)
    : ∃ w', insertAll srcs w
          = (decide (srcs.flatten.length - w.myBytesWritten ≤ w.endptr - w.writeptr), w')
        ∧ Wrote w w' ((srcs.flatten.drop w.myBytesWritten).take (w.endptr - w.writeptr)) := by
  induction srcs generalizing w with
  | nil =>
    refine ⟨w, ?_, ?_⟩
    . simp [insertAll]
    . constructor <;> simp [memcpy_nil]
  | cons src rest ih =>
    simp only [flatten_cons, length_append] at hmy ⊢
    by_cases hskip : src.length ≤ w.myBytesWritten
    . obtain ⟨w₁, hinsert, hwrote, hmy₁⟩ := insertUndoBytes_skip src w hskip
      obtain ⟨w₂, hrest, hwrote₂⟩ := ih w₁ (by omega)
      have htrans := hwrote.trans hwrote₂
      rw [hmy₁, hwrote.endptr, hwrote.writeptr, length_nil, Nat.add_zero] at hrest htrans
      refine ⟨w₂, ?_, ?_⟩
      . simp only [insertAll, hinsert, hrest, Prod.mk.injEq, and_true, decide_eq_decide]
        omega
      . rw [drop_append, drop_of_length_le hskip]
        exact htrans
    . have hdrop : (src ++ rest.flatten).drop w.myBytesWritten
          = src.drop w.myBytesWritten ++ rest.flatten := by
        rw [drop_append_of_le_length (by omega)]
      rw [hdrop]
      by_cases hfit : src.length - w.myBytesWritten ≤ w.endptr - w.writeptr
      . obtain ⟨w₁, hinsert, hwrote, hmy₁⟩ := insertUndoBytes_fits src w (by omega) hfit
        obtain ⟨w₂, hrest, hwrote₂⟩ := ih w₁ (by omega)
        have htrans := hwrote.trans hwrote₂
        rw [hmy₁, hwrote.endptr, hwrote.writeptr, length_drop] at hrest htrans
        refine ⟨w₂, ?_, ?_⟩
        . simp only [insertAll, hinsert, hrest, Prod.mk.injEq, and_true, decide_eq_decide]
          omega
        . rw [take_append, take_of_length_le (by simpa using hfit), length_drop, Nat.sub_sub]
          exact htrans
      . obtain ⟨w₁, hinsert, hwrote⟩ := insertUndoBytes_full src w (by omega) (by omega)
        refine ⟨w₁, ?_, ?_⟩
        . simp only [insertAll, hinsert, Prod.mk.injEq, and_true]
          symm
          simp only [decide_eq_false_iff_not]
          omega
        . rw [take_append_of_le_length]
          . exact hwrote
          . rw [length_drop]
            omega

namespace UndoRecord

def content (r : UndoRecord) : Bytes := (r.parts r.recordSize).flatten

theorem length_whdr (a : UndoRecordHeader) : (toBytes a).length = 22 := length_toBytes a
theorem length_wblk (a : UndoRecordBlock) : (toBytes a).length = 14 := length_toBytes a
theorem length_wtxn (a : UndoRecordTransaction) : (toBytes a).length = 8 :=
  length_toBytes a
theorem length_wtd (a : UndoRecordOldTd) : (toBytes a).length = 8 := length_toBytes a
theorem length_wpart (a : UndoRecordPartition) : (toBytes a).length = 4 :=
  length_toBytes a
theorem length_wtspc (a : UndoRecordTablespace) : (toBytes a).length = 4 :=
  length_toBytes a
theorem length_wpay (a : UndoRecordPayload) : (toBytes a).length = 2 :=
  length_toBytes a
theorem length_undoLen (a : UInt16) : (toBytes a).length = 2 := length_toBytes a

theorem recordBytes_eq : r.recordBytes
      =
    38 + (if r.hasInfo undoUrecInfoTransac then 8 else 0) + (if r.hasInfo undoUrecInfoOldtd then 8 else 0)
      + (if r.hasInfo undoUrecInfoHasPartoid then 4 else 0)
      + (if r.hasInfo undoUrecInfoHasTablespaceoid then 4 else 0)
      + (if r.hasInfo undoUrecInfoPayload then 2 + r.rawdata.length else 0) := by
  simp only [recordBytes]
  repeat' split
  all_goals omega

theorem length_rawdata_lt (hinfo : r.hasInfo undoUrecInfoPayload = true) (h : r.recordBytes < 2 ^ 16)
    : r.rawdata.length < 2 ^ 16 := by
  simp only [recordBytes_eq, hinfo, if_true] at h
  omega

theorem payloadlen_pos_iff (h : r.rawdata.length < 2 ^ 16)
    : 0 < UInt16.ofNat r.rawdata.length ↔ r.rawdata ≠ [] := by
  rw [UInt16.lt_iff_toNat_lt, UInt16.toNat_ofNat_of_lt' h]
  exact length_pos_iff

theorem content_eq (h : r.recordBytes < 2 ^ 16) : r.content
      =
    toBytes r.whdr ++ (toBytes r.wblk ++ ((if r.hasInfo undoUrecInfoTransac then toBytes r.wtxn else [])
      ++ ((if r.hasInfo undoUrecInfoOldtd then toBytes r.wtd else [])
      ++ ((if r.hasInfo undoUrecInfoHasPartoid then toBytes r.wpart else [])
      ++ ((if r.hasInfo undoUrecInfoHasTablespaceoid then toBytes r.wtspc else [])
      ++ ((if r.hasInfo undoUrecInfoPayload then
            toBytes (⟨UInt16.ofNat r.rawdata.length⟩ : UndoRecordPayload) else [])
      ++ ((if r.hasInfo undoUrecInfoPayload then r.rawdata else [])
      ++ toBytes r.recordSize))))))) := by
  have hraw : (if r.hasInfo undoUrecInfoPayload then
        [toBytes (⟨UInt16.ofNat r.rawdata.length⟩ : UndoRecordPayload)]
          ++ (if 0 < UInt16.ofNat r.rawdata.length then [r.rawdata] else [])
        else []).flatten
      = (if r.hasInfo undoUrecInfoPayload then
            toBytes (⟨UInt16.ofNat r.rawdata.length⟩ : UndoRecordPayload) else [])
        ++ (if r.hasInfo undoUrecInfoPayload then r.rawdata else []) := by
    by_cases hinfo : r.hasInfo undoUrecInfoPayload = true
    . simp only [hinfo, if_true, payloadlen_pos_iff r (length_rawdata_lt r hinfo h)]
      by_cases hempty : r.rawdata = []
      . simp [hempty]
      . simp [hempty]
    . simp [hinfo]
  have hopt : ∀ (c : Prop) [Decidable c] (bs : Bytes),
      (if c then [bs] else []).flatten = if c then bs else [] := by
    intro c _ bs
    split <;> simp
  simp only [content, parts, flatten_append, hraw, hopt, flatten_cons, flatten_nil, append_nil, append_assoc]

theorem length_content (h : r.recordBytes < 2 ^ 16) : r.content.length = r.recordBytes := by
  rw [content_eq r h, recordBytes_eq]
  simp only [length_append, length_whdr, length_wblk, length_undoLen]
  repeat' split
  all_goals simp only [length_wtxn, length_wtd, length_wpart, length_wtspc, length_wpay, length_nil]
  all_goals omega

theorem recordSize_toNat (h : r.recordBytes < 2 ^ 16)
    : r.recordSize.toNat = r.recordBytes := UInt16.toNat_ofNat_of_lt' h

theorem recordBytes_ge : 38 ≤ r.recordBytes := by
  rw [recordBytes_eq]
  omega

theorem append_spec (u n page startingByte : Nat) (hn : n ≤ r.content.length)
    (hpos : page * blcksz + startingByte = undoLogOffsetFromUsableByteNo u)
    (hpage : page = undoLogOffsetFromUsableByteNo u / blcksz)
    : ∃ w, r.append log page startingByte n r.recordSize
          = (decide (r.content.length - n ≤ leftOnPage u), w)
        ∧ w.log = writeUsable log u ((r.content.drop n).take (leftOnPage u))
        ∧ w.writeptr
          = undoLogOffsetFromUsableByteNo u + min (leftOnPage u) (r.content.length - n)
        ∧ w.endptr = undoLogOffsetFromUsableByteNo u + leftOnPage u
        ∧ w.alreadyWritten = n + min (leftOnPage u) (r.content.length - n) := by
  have hend : page * blcksz + blcksz = undoLogOffsetFromUsableByteNo u + leftOnPage u := by
    rw [fromUsable_add_leftOnPage, hpage]
  obtain ⟨w, hw, hwrote⟩ := insertAll_spec (r.parts r.recordSize) {
    log, writeptr := page * blcksz + startingByte, endptr := page * blcksz + blcksz,
    myBytesWritten := n, alreadyWritten := n } hn
  simp only [hpos, hend, Nat.add_sub_cancel_left] at hw hwrote
  have hlen : ((r.content.drop n).take (leftOnPage u)).length
      = min (leftOnPage u) (r.content.length - n) := by
    simp
  refine ⟨w, ?_, ?_, ?_, hwrote.endptr, ?_⟩
  . rw [append, hpos, hend]
    exact hw
  . rw [hwrote.log]
    apply memcpy_eq_writeUsable
    simp only [length_take]
    omega
  . rw [hwrote.writeptr, ← hlen]
    rfl
  . rw [hwrote.alreadyWritten, ← hlen]
    rfl

theorem insertPrepared_go_spec (log₀ log : UndoLog) (u₀ n pages page : Nat)
    (startingByte : Nat) (hn : n < r.content.length) (hpages : r.content.length - n ≤ pages)
    (hlog : log = writeUsable log₀ u₀ (r.content.take n))
    (hpos : page * blcksz + startingByte = undoLogOffsetFromUsableByteNo (u₀ + n))
    (hpage : page = undoLogOffsetFromUsableByteNo (u₀ + n) / blcksz)
    : ∃ w, insertPrepared.go r r.recordSize pages log page startingByte n = some w
        ∧ w.log = writeUsable log₀ u₀ r.content
        ∧ w.alreadyWritten = r.content.length
        ∧ w.endPosition = undoLogOffsetFromUsableByteNo (u₀ + r.content.length) := by
  induction pages generalizing log n page startingByte with
  | zero => omega
  | succ pages ih =>
    obtain ⟨w, hw, hwlog, hwptr, hwend, halready⟩ :=
      append_spec r log (u₀ + n) n page startingByte (by omega) hpos hpage
    have hleft := leftOnPage_pos (u₀ + n)
    have hstart : w.log = writeUsable log₀ u₀ (r.content.take (n + leftOnPage (u₀ + n))) := by
      have hlen : (r.content.take n).length = n := by
        simp only [length_take]
        omega
      have happ := writeUsable_append log₀ u₀ (r.content.take n)
        ((r.content.drop n).take (leftOnPage (u₀ + n)))
      rw [hlen] at happ
      rw [hwlog, hlog, happ, take_add]
    by_cases hdone : r.content.length - n ≤ leftOnPage (u₀ + n)
    . refine ⟨w, ?_, ?_, ?_, ?_⟩
      . simp [insertPrepared.go, hw, hdone]
      . rw [hstart, take_of_length_le (by omega)]
      . rw [halready]
        omega
      . have hmin : min (leftOnPage (u₀ + n)) (r.content.length - n) = r.content.length - n := by
          omega
        rw [hmin] at hwptr
        simp only [Writer.endPosition, hwptr, hwend]
        by_cases hfull : r.content.length - n = leftOnPage (u₀ + n)
        . have hsum : u₀ + r.content.length = u₀ + n + leftOnPage (u₀ + n) := by omega
          rw [if_pos (by omega), hsum, fromUsable_nextPage, fromUsable_add_leftOnPage,
            Nat.add_one_mul]
        . have hsum : u₀ + r.content.length = u₀ + n + (r.content.length - n) := by omega
          rw [if_neg (by omega), hsum, fromUsable_add (u₀ + n) _ (by omega)]
    . have hmin : min (leftOnPage (u₀ + n)) (r.content.length - n) = leftOnPage (u₀ + n) := by
        omega
      rw [hmin] at halready
      have hnext := fromUsable_nextPage (u₀ + n)
      rw [Nat.add_assoc u₀ n] at hnext
      obtain ⟨w', hw', hrest⟩ := ih w.log (n + leftOnPage (u₀ + n)) (page + 1)
        undoLogBlockHeaderSize (by omega) (by omega) hstart (by rw [hnext, hpage]) (by
          rw [hnext, hpage]
          simp only [undoLogBlockHeaderSize, blcksz]
          omega)
      refine ⟨w', ?_, hrest⟩
      simp only [insertPrepared.go, hw, hdone, decide_false, halready]
      exact hw'

theorem insertPrepared_spec (urp : Nat)
    (h : r.recordBytes < 2 ^ 16) (hurp : undoLogBlockHeaderSize ≤ urp % blcksz)
    : ∃ w, r.insertPrepared log urp = some w
        ∧ w.log = writeUsable log (undoLogOffsetToUsableByteNo urp) r.content
        ∧ w.alreadyWritten = r.recordBytes
        ∧ w.endPosition = undoLogOffsetPlusUsableBytes urp r.recordBytes := by
  have hlen := length_content r h
  have hge := recordBytes_ge r
  have hback := fromUsable_toUsable urp hurp
  obtain ⟨w, hw, hlog, halready, hend⟩ := insertPrepared_go_spec r log log
    (undoLogOffsetToUsableByteNo urp) 0 r.recordSize.toNat (urp / blcksz) (urp % blcksz) (by omega)
    (by rw [recordSize_toNat r h]; omega) (by rw [take_zero, writeUsable_nil])
    (by rw [Nat.add_zero, hback, Nat.div_add_mod']) (by rw [Nat.add_zero, hback])
  rw [hlen] at halready hend
  exact ⟨w, hw, hlog, halready, hend⟩

end UndoRecord

end Write

end Undo

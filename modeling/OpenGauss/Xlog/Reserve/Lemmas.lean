import OpenGauss.Lib.Tiling
import OpenGauss.Xlog.Position.Lemmas
import OpenGauss.Xlog.Reserve.Impl

/-!
This module contains what single reservations of WAL space do.
-/

open List

namespace Xlog

open Tiling

section Lrc

def lrcOf (n : Nat) : Int := (n % 2 ^ 31 : Nat)

theorem nextLrc_lrcOf (n : Nat) : nextLrc (lrcOf n) = lrcOf (n + 1) := by
  unfold nextLrc lrcOf
  omega

def lrcsFrom (n count : Nat) : List Int := (List.range' n count).map lrcOf

theorem lrcsFrom_append (n count count' : Nat)
    : lrcsFrom n count ++ lrcsFrom (n + count) count' = lrcsFrom n (count + count') := by
  unfold lrcsFrom
  rw [← map_append, range'_append_1]

theorem lrcsFrom_succ (n count : Nat) : lrcsFrom n (count + 1) = lrcOf n :: lrcsFrom (n + 1) count := by
  unfold lrcsFrom
  rw [range'_succ, map_cons]

theorem reportPages_lrcs (currPos endPos n : Nat)
    : ∃ count, (reportPages currPos endPos (lrcOf n)).1.map Prod.fst = lrcsFrom n count ∧
        (reportPages currPos endPos (lrcOf n)).2 = lrcOf (n + count) ∧ (currPos ≤ endPos → 0 < count) := by
  generalize hlrc : lrcOf n = currlrc
  induction currPos, currlrc using reportPages.induct endPos generalizing n with
  | case1 currPos currlrc hle ih =>
    obtain ⟨count, hfst, hsnd, _⟩ := ih (n + 1) (by rw [← hlrc, nextLrc_lrcOf])
    rw [reportPages.eq_def, if_pos hle]
    refine ⟨count + 1, ?_, ?_, fun _ => Nat.succ_pos count⟩
    . rw [map_cons, hfst, lrcsFrom_succ, hlrc]
    . rw [hsnd, Nat.add_right_comm, Nat.add_assoc]
  | case2 currPos currlrc hgt =>
    rw [reportPages.eq_def, if_neg hgt]
    exact ⟨0, rfl, hlrc.symm, fun hle => absurd hle hgt⟩

end Lrc

section Links

/-- `Linked a records b`: the first record has the previous position `a`, and the last one starts at `b`. -/
def Linked (a : Nat) (records : List Record) (b : Nat) : Prop :=
  match records with
  | [] => a = b
  | record :: records => record.prevBytePos = a ∧ Linked record.startBytePos records b

theorem Linked.append {a b c : Nat} {records records' : List Record} (h : Linked a records b)
    (h' : Linked b records' c)
    : Linked a (records ++ records') c := by
  induction records generalizing a with
  | nil =>
    obtain rfl : a = b := h
    exact h'
  | cons record records ih => exact ⟨h.left, ih h.right⟩

end Links

section Group

theorem maxalign_mod (len : Nat) : maxalign len % 8 = 0 := Nat.mul_mod_left _ 8

theorem maxalign_eq_self {len : Nat} (h : len % 8 = 0) : maxalign len = len := by
  unfold maxalign
  omega

theorem recordSize_eq {xlTotLen : Nat} (h : LenOk xlTotLen) : recordSize xlTotLen = maxalign xlTotLen := by
  have hlt := h.right
  unfold recordSize maxalign
  unfold xLogRecordMaxSize at hlt
  omega

theorem LenOk.pos {xlTotLen : Nat} (h : LenOk xlTotLen) : 0 < maxalign xlTotLen := by
  have hlt := h.left
  unfold maxalign
  omega

def groupTotal (followers : List Follower) : Nat :=
  match followers with
  | [] => 0
  | follower :: followers =>
    if follower.IsFPW then groupTotal followers else maxalign follower.xlTotLen + groupTotal followers

theorem groupTotal_mod (followers : List Follower) : groupTotal followers % 8 = 0 := by
  induction followers with
  | nil => rfl
  | cons follower followers ih =>
    have hsize := maxalign_mod follower.xlTotLen
    unfold groupTotal
    split <;> omega

variable {followers : List Follower} {startBytePos prevBytePos totalSize lastSize : Nat}

theorem groupSizes_fst (hok : ∀ follower ∈ followers, LenOk follower.xlTotLen)
    (hlt : totalSize + groupTotal followers < 2 ^ 32)
    : (groupSizes followers totalSize lastSize).1 = totalSize + groupTotal followers := by
  induction followers generalizing totalSize lastSize with
  | nil => rfl
  | cons follower followers ih =>
    have hrest := fun f hf => hok f (mem_cons_of_mem follower hf)
    unfold groupSizes
    unfold groupTotal at hlt ⊢
    split at hlt
    . next hskip =>
      rw [if_pos hskip, if_pos hskip]
      exact ih hrest hlt
    . next htake =>
      rw [if_neg htake, if_neg htake, recordSize_eq (hok follower mem_cons_self), Nat.mod_eq_of_lt (by omega),
        ih hrest (by omega)]
      omega

theorem insertFollowers_tiles (hlt : startBytePos + groupTotal followers < 2 ^ 64)
    : Tiles Record.startBytePos Record.size startBytePos (insertFollowers followers startBytePos prevBytePos)
        (startBytePos + groupTotal followers) := by
  induction followers generalizing startBytePos prevBytePos with
  | nil => rfl
  | cons follower followers ih =>
    unfold insertFollowers
    unfold groupTotal at hlt ⊢
    split at hlt
    . next hskip =>
      rw [if_pos hskip, if_pos hskip]
      exact ih hlt
    . next htake =>
      rw [if_neg htake, if_neg htake, Nat.mod_eq_of_lt (by omega)]
      refine ⟨rfl, ?_⟩
      dsimp only
      rw [← Nat.add_assoc]
      exact ih (by omega)

theorem insertFollowers_linked (hok : ∀ follower ∈ followers, LenOk follower.xlTotLen)
    (hlt : startBytePos + groupTotal followers < 2 ^ 64)
    (hlast : prevBytePos + lastSize = startBytePos ∨ groupTotal followers ≠ 0)
    : ∃ last, Linked prevBytePos (insertFollowers followers startBytePos prevBytePos) last ∧
        last + (groupSizes followers totalSize lastSize).2 = startBytePos + groupTotal followers := by
  induction followers generalizing startBytePos prevBytePos totalSize lastSize with
  | nil =>
    rcases hlast with hprev | hzero
    . exact ⟨prevBytePos, rfl, hprev⟩
    . exact absurd rfl hzero
  | cons follower followers ih =>
    have hrest := fun f hf => hok f (mem_cons_of_mem follower hf)
    unfold insertFollowers groupSizes
    unfold groupTotal at hlt hlast ⊢
    split at hlt
    . next hskip =>
      rw [if_pos hskip] at hlast
      rw [if_pos hskip, if_pos hskip, if_pos hskip]
      exact ih hrest hlt hlast
    . next htake =>
      rw [if_neg htake, if_neg htake, if_neg htake, Nat.mod_eq_of_lt (by omega)]
      have hprev : startBytePos + recordSize follower.xlTotLen = startBytePos +
        maxalign follower.xlTotLen := by
        rw [recordSize_eq (hok follower mem_cons_self)]
      have hnext : startBytePos + maxalign follower.xlTotLen + groupTotal followers < 2 ^ 64 := by omega
      obtain ⟨last, hlinked, hsum⟩ := ih hrest hnext (Or.inl hprev)
      refine ⟨last, ⟨rfl, hlinked⟩, ?_⟩
      rw [hsum, Nat.add_assoc]

theorem insertFollowers_nil (hok : ∀ follower ∈ followers, LenOk follower.xlTotLen)
    (hzero : groupTotal followers = 0)
    : insertFollowers followers startBytePos prevBytePos = [] := by
  induction followers with
  | nil => rfl
  | cons follower followers ih =>
    have hpos := (hok follower mem_cons_self).pos
    unfold groupTotal at hzero
    unfold insertFollowers
    split at hzero
    . next hskip =>
      rw [if_pos hskip]
      exact ih (fun f hf => hok f (mem_cons_of_mem follower hf)) hzero
    . omega

def Insert.total (insert : Insert) : Nat :=
  match insert with
  | .single xlTotLen => maxalign xlTotLen
  | .leader xlTotLen => maxalign xlTotLen
  | .followers head => groupTotal head

theorem Insert.total_mod (insert : Insert) : insert.total % 8 = 0 := by
  cases insert with
  | single xlTotLen => exact maxalign_mod xlTotLen
  | leader xlTotLen => exact maxalign_mod xlTotLen
  | followers head => exact groupTotal_mod head

theorem Insert.size_eq {insert : Insert} (hwell : insert.WellFormed) (hlt : insert.total < 2 ^ 32)
    : insert.size = insert.total := by
  cases insert with
  | single xlTotLen => exact recordSize_eq hwell
  | leader xlTotLen => exact recordSize_eq hwell
  | followers head =>
    have hlt : 0 + groupTotal head < 2 ^ 32 := by
      rw [Nat.zero_add]
      exact hlt
    exact (groupSizes_fst hwell hlt).trans (Nat.zero_add _)

/-- The swap for an insert reserves what it needs, and its records are put there. -/
structure Insert.Placed (insert : Insert) (compare : XLogCtlInsert) (prev : Nat) : Prop where
  currBytePos : (insert.exchange compare).currBytePos = compare.currBytePos + insert.total
  currLRC : (insert.exchange compare).currLRC = nextLrc compare.currLRC
  tiles : Tiles Record.startBytePos Record.size compare.currBytePos (insert.records compare.currBytePos prev)
    (compare.currBytePos + insert.total)
  linked : ∃ last, Linked prev (insert.records compare.currBytePos prev) last ∧
    last + (insert.exchange compare).prevByteSize = compare.currBytePos + insert.total

theorem maxalign_uint32 {size : Nat} (hmod : size % 8 = 0) (hlt : size < 2 ^ 32)
    : maxalign size % 2 ^ 32 = size := by
  rw [maxalign_eq_self hmod, Nat.mod_eq_of_lt hlt]

theorem Insert.placed {insert : Insert} {compare : XLogCtlInsert} (prev : Nat) (hwell : insert.WellFormed)
    (hlt : insert.total < 2 ^ 32) (hin : compare.currBytePos + insert.total < 2 ^ 64)
      (hsize : insert.size ≠ 0)
    : insert.Placed compare prev := by
  have htotal := Insert.size_eq hwell hlt
  cases insert with
  | single xlTotLen =>
    have hrecord : maxalign xlTotLen % 2 ^ 32 = maxalign xlTotLen := recordSize_eq hwell
    have hpos : (compare.currBytePos + maxalign xlTotLen % 2 ^ 32) % 2 ^ 64
        = compare.currBytePos + maxalign xlTotLen := by
      rw [hrecord]
      exact Nat.mod_eq_of_lt hin
    exact ⟨hpos, rfl, ⟨rfl, rfl⟩, compare.currBytePos, ⟨rfl, rfl⟩, congrArg _ hrecord⟩
  | leader xlTotLen =>
    have hrecord := recordSize_eq hwell
    have hpos : (compare.currBytePos + maxalign (recordSize xlTotLen) % 2 ^ 32) % 2 ^ 64
        = compare.currBytePos + maxalign xlTotLen := by
      rw [hrecord, maxalign_uint32 (maxalign_mod xlTotLen) hlt]
      exact Nat.mod_eq_of_lt hin
    exact ⟨hpos, rfl, ⟨rfl, rfl⟩, compare.currBytePos, ⟨rfl, rfl⟩, congrArg _ hrecord⟩
  | followers head =>
    have hgroup : (groupSizes head 0 0).1 = groupTotal head := htotal
    have hpos : (compare.currBytePos + maxalign (groupSizes head 0 0).1 % 2 ^ 32) % 2 ^ 64
        = compare.currBytePos + groupTotal head := by
      rw [hgroup, maxalign_uint32 (groupTotal_mod head) hlt]
      exact Nat.mod_eq_of_lt hin
    have hsome : groupTotal head ≠ 0 := by
      rw [← hgroup]
      exact hsize
    exact ⟨hpos, rfl, insertFollowers_tiles hin, insertFollowers_linked hwell hin (Or.inr hsome)⟩

end Group

section Switch

variable {seg : Segment} {compare : XLogCtlInsert}

theorem usableBytesInSegment_le : usableBytesInSegment seg ≤ xLogSegSize seg := by
  rw [usableBytesInSegment_eq]
  unfold xLogSegSize xLogBlcksz
  omega

theorem InLsns.lt {bytepos : Nat} (h : InLsns seg bytepos) : bytepos < 2 ^ 64 := by
  have hlt := Nat.lt_mul_div_succ bytepos (usableBytesInSegment_pos seg)
  have hle : usableBytesInSegment seg * (bytepos / usableBytesInSegment seg + 1)
      ≤ (bytepos / usableBytesInSegment seg + 2) * xLogSegSize seg := by
    rw [Nat.mul_comm]
    exact Nat.mul_le_mul (by omega) usableBytesInSegment_le
  exact Nat.lt_of_lt_of_le hlt (Nat.le_trans hle h)

theorem endRecPtr_eq (spot : Spot seg)
    : spot.endRecPtr = spot.segno * xLogSegSize seg + spot.endRecPtr % xLogSegSize seg := by
  rw [spot.endRecPtr_mod]
  unfold Spot.endRecPtr Spot.recPtr Spot.pagePtr
  split <;> omega

/-- What the swap for a log switch does: the record is at the start of the range,
  which ends with a segment. -/
structure Switched (seg : Segment) (compare : XLogCtlInsert) (round : SwitchRound) : Prop where
  le : compare.currBytePos + sizeOfXLogRecord ≤ round.exchange.currBytePos
  align : round.exchange.currBytePos % 8 = 0
  lt : round.exchange.currBytePos < 2 ^ 64
  prevByteSize : compare.currBytePos + round.exchange.prevByteSize = round.exchange.currBytePos
  currLRC : round.exchange.currLRC = compare.currLRC
  startPos : round.startPos = xLogBytePosToRecPtr seg compare.currBytePos
  endPos : round.endPos = xLogBytePosToEndRecPtr seg round.exchange.currBytePos
  segment : round.endPos % xLogSegSize seg = 0
  recordEnd : xLogBytePosToEndRecPtr seg (compare.currBytePos + sizeOfXLogRecord) ≤ round.endPos

theorem pageHeader_zero_lt : 0 + pageHeader 0 < xLogBlcksz := pageHeader_lt 0

def segmentSpot (seg : Segment) (segno : Nat) : Spot seg := ⟨segno, 0, 0, seg.pos, pageHeader_zero_lt⟩

theorem segmentSpot_bytePos (segno : Nat)
    : (segmentSpot seg segno).bytePos = segno * usableBytesInSegment seg := by
  unfold segmentSpot Spot.bytePos pageBytePos
  dsimp only
  rw [if_pos rfl, Nat.add_zero]

theorem segmentSpot_endRecPtr (segno : Nat)
    : (segmentSpot seg segno).endRecPtr = segno * xLogSegSize seg := by
  unfold segmentSpot Spot.endRecPtr Spot.pagePtr
  dsimp only
  rw [if_pos rfl, Nat.zero_mul, Nat.add_zero]

theorem usableBytesInSegment_lt (seg : Segment) : usableBytesInSegment seg < 2 ^ 31 := by
  have hle := seg.le
  rw [usableBytesInSegment_eq]
  omega

theorem usableBytesInSegment_mod : usableBytesInSegment seg % 8 = 0 := by
  rw [usableBytesInSegment_eq]
  omega

theorem reserveXLogSwitch_spec (halign : compare.currBytePos % 8 = 0)
    (hin : InLsns seg (compare.currBytePos + sizeOfXLogRecord))
    : Switched seg compare (reserveXLogSwitch seg sizeOfXLogRecord compare) := by
  obtain ⟨spot, hspot, hsegno⟩ := exists_spot seg (compare.currBytePos + sizeOfXLogRecord)
  have hrecord : sizeOfXLogRecord = 32 := rfl
  have hlt := hin.lt
  have hfull : (spot.segno + 2) * xLogSegSize seg ≤ 2 ^ 64 := by
    rw [hsegno]
    exact hin
  have hdiv := Nat.div_add_mod' (compare.currBytePos + sizeOfXLogRecord) (usableBytesInSegment seg)
  have hleft := Nat.mod_lt (compare.currBytePos + sizeOfXLogRecord) (usableBytesInSegment_pos seg)
  have hsmall := usableBytesInSegment_lt seg
  rw [← hsegno] at hdiv
  rw [← hspot] at hin
  have hrecordEnd := Spot.xLogBytePosToEndRecPtr_eq hin.inWal
  rw [hspot] at hrecordEnd
  have hmod := Nat.mod_lt spot.endRecPtr (xLogSegSize_pos seg)
  unfold reserveXLogSwitch
  dsimp only
  rw [Nat.mod_eq_of_lt hlt, hrecordEnd]
  by_cases hboundary : spot.endRecPtr % xLogSegSize seg = 0
  . rw [hboundary, Nat.sub_zero, if_neg (not_not_intro rfl)]
    dsimp only
    constructor
    case le => exact Nat.le_refl _
    case align =>
      dsimp only
      omega
    case lt => exact hlt
    case prevByteSize =>
      dsimp only
      omega
    case currLRC => rfl
    case startPos => rfl
    case endPos => exact hrecordEnd.symm
    case segment => exact hboundary
    case recordEnd => exact Nat.le_of_eq hrecordEnd
  . have hend : spot.endRecPtr + (xLogSegSize seg - spot.endRecPtr % xLogSegSize seg)
        = (spot.segno + 1) * xLogSegSize seg := by
      have heq := endRecPtr_eq spot
      rw [Nat.add_mul, Nat.one_mul]
      omega
    have hnext : (spot.segno + 1) * xLogSegSize seg < 2 ^ 64 := by
      have hpos := xLogSegSize_pos seg
      rw [Nat.add_mul] at hfull ⊢
      omega
    have hbytePos : xLogRecPtrToBytePos seg ((spot.segno + 1) * xLogSegSize seg)
        = (spot.segno + 1) * usableBytesInSegment seg := by
      rw [← segmentSpot_endRecPtr, Spot.xLogRecPtrToBytePos_endRecPtr, segmentSpot_bytePos]
    have hback : xLogBytePosToEndRecPtr seg ((spot.segno + 1) * usableBytesInSegment seg)
        = (spot.segno + 1) * xLogSegSize seg := by
      rw [← segmentSpot_bytePos, Spot.xLogBytePosToEndRecPtr_bytePos, segmentSpot_endRecPtr,
        Nat.mod_eq_of_lt hnext]
    have hnextPos : (spot.segno + 1) * usableBytesInSegment seg
        = spot.segno * usableBytesInSegment seg + usableBytesInSegment seg := by
      rw [Nat.add_mul, Nat.one_mul]
    rw [if_pos (by omega), hend, Nat.mod_eq_of_lt hnext, hbytePos]
    dsimp only
    constructor
    case le =>
      dsimp only
      omega
    case align =>
      dsimp only
      rw [Nat.mul_mod, usableBytesInSegment_mod, Nat.mul_zero, Nat.zero_mod]
    case lt => exact Nat.lt_of_le_of_lt (Nat.mul_le_mul_left _ usableBytesInSegment_le) hnext
    case prevByteSize =>
      dsimp only
      omega
    case currLRC => rfl
    case startPos => rfl
    case endPos => exact hback.symm
    case segment => exact Nat.mul_mod_left _ _
    case recordEnd =>
      rw [hrecordEnd]
      dsimp only
      omega

theorem add_insertFreespace_le {currPos endPos : Nat} (hle : currPos ≤ endPos)
    (hmod : endPos % xLogBlcksz = 0)
    : currPos + insertFreespace currPos ≤ endPos := by
  unfold insertFreespace xLogBlcksz at *
  split <;> omega

theorem copyXLogSwitch_lrcs {round : SwitchRound} (h : Switched seg compare round)
    (halign : compare.currBytePos % 8 = 0) (hin : InLsns seg (compare.currBytePos + sizeOfXLogRecord))
    (hinside : xLogBytePosToEndRecPtr seg (compare.currBytePos + sizeOfXLogRecord) % xLogSegSize seg ≠ 0)
      (n : Nat)
    : ∃ count, 0 < count ∧
        (copyXLogSwitch seg round.startPos round.endPos (lrcOf n)).1.map Prod.fst = lrcsFrom n count ∧
        (copyXLogSwitch seg round.startPos round.endPos (lrcOf n)).2 = lrcOf (n + count) := by
  have hfst : (copyRecord seg [sizeOfXLogRecord] round.startPos).1
      = xLogBytePosToEndRecPtr seg (compare.currBytePos + sizeOfXLogRecord) := by
    rw [h.startPos]
    exact copyRecord_fst halign (by decide) hin.inWal
  have hsnd : (copyRecord seg [sizeOfXLogRecord] round.startPos).2
      = insertFreespace (copyRecord seg [sizeOfXLogRecord] round.startPos).1 := by
    rw [h.startPos]
    exact copyRecord_snd halign (by decide) rfl hin.inWal
  have hblock : round.endPos % xLogBlcksz = 0 := by
    have hsegment := h.segment
    unfold xLogSegSize at hsegment
    exact Nat.mod_eq_zero_of_dvd (Nat.dvd_trans (Nat.dvd_mul_left _ _) (Nat.dvd_of_mod_eq_zero hsegment))
  have hle := add_insertFreespace_le h.recordEnd hblock
  obtain ⟨count, hlrcs, hlast, hpos⟩ := reportPages_lrcs
    (xLogBytePosToEndRecPtr seg (compare.currBytePos + sizeOfXLogRecord)
      + insertFreespace (xLogBytePosToEndRecPtr seg (compare.currBytePos + sizeOfXLogRecord))) round.endPos n
  unfold copyXLogSwitch
  dsimp only
  rw [hsnd, hfst, if_pos hinside]
  exact ⟨count, hpos hle, hlrcs, hlast⟩

end Switch

end Xlog

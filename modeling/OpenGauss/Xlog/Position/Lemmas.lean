import OpenGauss.Xlog.Position.Impl
import Mathlib.Tactic.Linarith

/-!
This module contains the verification of the positions in the WAL.
-/

namespace Xlog

variable {seg : Segment} {currPos bytepos len : Nat}

section Spots

def pageHeader (page : Nat) : Nat := if page = 0 then sizeOfXLogLongPHD else sizeOfXLogShortPHD

/-- A place for WAL data: a segment, a page of it, and an offset behind the header of the page. -/
structure Spot (seg : Segment) where
  segno : Nat
  page : Nat
  off : Nat
  page_lt : page < seg.pages
  off_lt : off + pageHeader page < xLogBlcksz

/-- The byte position of the start of a page in its segment, or of the end of the segment. -/
def pageBytePos (page : Nat) : Nat := if page = 0 then 0 else page * usableBytesInPage - 16

namespace Spot

variable (spot : Spot seg)

def bytePos : Nat := spot.segno * usableBytesInSegment seg + (pageBytePos spot.page + spot.off)

def pagePtr : Nat := spot.segno * xLogSegSize seg + spot.page * xLogBlcksz

def recPtr : Nat := spot.pagePtr + pageHeader spot.page + spot.off

def endRecPtr : Nat := if spot.off = 0 then spot.pagePtr else spot.recPtr

end Spot

theorem usableBytesInSegment_eq (seg : Segment) : usableBytesInSegment seg = seg.pages * 8168 - 16 := by
  unfold usableBytesInSegment xLogSegSize usableBytesInPage xLogBlcksz sizeOfXLogLongPHD sizeOfXLogShortPHD
  rw [Nat.mul_div_cancel seg.pages (by omega)]

theorem usableBytesInSegment_pos (seg : Segment) : 0 < usableBytesInSegment seg := by
  have hpos := seg.pos
  rw [usableBytesInSegment_eq]
  omega

theorem xLogSegSize_pos (seg : Segment) : 0 < xLogSegSize seg := Nat.mul_pos seg.pos (by decide)

theorem exists_spot (seg : Segment) (bytepos : Nat) : ∃ spot : Spot seg, spot.bytePos = bytepos ∧
    spot.segno = bytepos / usableBytesInSegment seg := by
  have hlt := Nat.mod_lt bytepos (usableBytesInSegment_pos seg)
  have hdiv := Nat.div_add_mod' bytepos (usableBytesInSegment seg)
  have hpos := seg.pos
  generalize hleft : bytepos % usableBytesInSegment seg = left at hlt hdiv
  generalize bytepos / usableBytesInSegment seg = segno at hdiv
  rw [usableBytesInSegment_eq] at hlt
  by_cases hfirst : left < 8152
  . have hoff : left + pageHeader 0 < xLogBlcksz := by
      unfold pageHeader sizeOfXLogLongPHD xLogBlcksz
      rw [if_pos rfl]
      omega
    refine ⟨⟨segno, 0, left, hpos, hoff⟩, ?_, rfl⟩
    unfold Spot.bytePos pageBytePos
    dsimp only
    rw [if_pos rfl]
    omega
  . have hpage : (left - 8152) / 8168 + 1 < seg.pages := by omega
    have hoff : (left - 8152) % 8168 + pageHeader ((left - 8152) / 8168 + 1) < xLogBlcksz := by
      unfold pageHeader sizeOfXLogShortPHD xLogBlcksz
      rw [if_neg (Nat.succ_ne_zero _)]
      omega
    refine ⟨⟨segno, (left - 8152) / 8168 + 1, (left - 8152) % 8168, hpage, hoff⟩, ?_, rfl⟩
    unfold Spot.bytePos pageBytePos usableBytesInPage xLogBlcksz sizeOfXLogShortPHD
    dsimp only
    rw [if_neg (Nat.succ_ne_zero _)]
    omega

namespace Spot

variable (spot : Spot seg)

theorem left_lt : pageBytePos spot.page + spot.off < usableBytesInSegment seg := by
  have hpage := spot.page_lt
  have hoff := spot.off_lt
  rw [usableBytesInSegment_eq]
  unfold pageHeader sizeOfXLogLongPHD sizeOfXLogShortPHD xLogBlcksz at hoff
  unfold pageBytePos usableBytesInPage xLogBlcksz sizeOfXLogShortPHD
  split at hoff <;> split <;> omega

theorem bytePos_div : spot.bytePos / usableBytesInSegment seg = spot.segno := by
  have hlt := spot.left_lt
  unfold bytePos
  rw [Nat.add_comm, Nat.add_mul_div_right _ _ (by omega), Nat.div_eq_of_lt hlt, Nat.zero_add]

theorem bytePos_mod : spot.bytePos % usableBytesInSegment seg = pageBytePos spot.page + spot.off := by
  unfold bytePos
  rw [Nat.add_comm, Nat.add_mul_mod_self_right, Nat.mod_eq_of_lt spot.left_lt]

theorem right_lt : spot.page * xLogBlcksz + pageHeader spot.page + spot.off < xLogSegSize seg := by
  have hpage := spot.page_lt
  have hoff := spot.off_lt
  unfold xLogSegSize xLogBlcksz at *
  omega

theorem recPtr_lt : spot.recPtr < (spot.segno + 1) * xLogSegSize seg := by
  have hlt := spot.right_lt
  unfold recPtr pagePtr
  rw [Nat.add_mul, Nat.one_mul]
  omega

theorem xLogBytePosToRecPtr_bytePos : xLogBytePosToRecPtr seg spot.bytePos = spot.recPtr % 2 ^ 64 := by
  have hoff := spot.off_lt
  unfold xLogBytePosToRecPtr xLogSegNoOffsetToRecPtr
  rw [spot.bytePos_div, spot.bytePos_mod]
  apply congrArg (· % 2 ^ 64)
  unfold recPtr pagePtr
  unfold pageHeader pageBytePos usableBytesInPage xLogBlcksz sizeOfXLogLongPHD sizeOfXLogShortPHD at *
  dsimp only
  split at hoff
  . next hzero =>
    rw [if_pos hzero, if_pos hzero, if_pos (by omega), hzero]
    omega
  . next hpage =>
    rw [if_neg hpage, if_neg hpage, if_neg (by omega)]
    omega

theorem xLogBytePosToEndRecPtr_bytePos : xLogBytePosToEndRecPtr seg spot.bytePos = spot.endRecPtr % 2 ^ 64 := by
  have hoff := spot.off_lt
  unfold xLogBytePosToEndRecPtr xLogSegNoOffsetToRecPtr
  rw [spot.bytePos_div, spot.bytePos_mod]
  apply congrArg (· % 2 ^ 64)
  unfold endRecPtr recPtr pagePtr
  unfold pageHeader pageBytePos usableBytesInPage xLogBlcksz sizeOfXLogLongPHD sizeOfXLogShortPHD at *
  dsimp only
  split at hoff
  . next hzero =>
    rw [if_pos hzero, if_pos hzero, if_pos (by omega), hzero]
    split <;> split <;> omega
  . next hpage =>
    rw [if_neg hpage, if_neg hpage, if_neg (by omega)]
    split <;> split <;> omega

theorem endRecPtr_mod
    : spot.endRecPtr % xLogSegSize seg
        =
      if spot.off = 0 then spot.page * xLogBlcksz else spot.page * xLogBlcksz +
        pageHeader spot.page + spot.off := by
  have hlt := spot.right_lt
  unfold endRecPtr recPtr pagePtr
  split
  . rw [Nat.add_comm, Nat.add_mul_mod_self_right, Nat.mod_eq_of_lt (by omega)]
  . rw [Nat.add_assoc, Nat.add_assoc, Nat.add_comm, Nat.add_mul_mod_self_right, Nat.mod_eq_of_lt (by omega)]
    omega

theorem endRecPtr_le : spot.endRecPtr ≤ spot.recPtr := by
  unfold endRecPtr recPtr
  split <;> omega

theorem xLogRecPtrToBytePos_page {rest : Nat} (hrest : rest < xLogBlcksz)
    : xLogRecPtrToBytePos seg (spot.pagePtr + rest)
        =
      spot.segno * usableBytesInSegment seg + pageBytePos spot.page + (rest - pageHeader spot.page) := by
  have hpage := spot.page_lt
  have hright : spot.page * xLogBlcksz + rest < xLogSegSize seg := by
    unfold xLogSegSize xLogBlcksz at *
    omega
  have hptr : spot.pagePtr + rest = spot.page * xLogBlcksz + rest + spot.segno * xLogSegSize seg := by
    unfold pagePtr
    omega
  have hdiv : (spot.pagePtr + rest) / xLogSegSize seg = spot.segno := by
    rw [hptr, Nat.add_mul_div_right _ _ (xLogSegSize_pos seg), Nat.div_eq_of_lt hright, Nat.zero_add]
  have hmod : (spot.pagePtr + rest) % xLogSegSize seg = spot.page * xLogBlcksz + rest := by
    rw [hptr, Nat.add_mul_mod_self_right, Nat.mod_eq_of_lt hright]
  have hoffset : (spot.pagePtr + rest) % xLogBlcksz = rest := by
    unfold pagePtr xLogSegSize
    rw [← Nat.mul_assoc, ← Nat.add_mul, Nat.add_comm, Nat.add_mul_mod_self_right, Nat.mod_eq_of_lt hrest]
  have hfullpages : (spot.page * xLogBlcksz + rest) / xLogBlcksz = spot.page := by
    rw [Nat.add_comm, Nat.add_mul_div_right _ _ (by decide), Nat.div_eq_of_lt hrest, Nat.zero_add]
  unfold xLogRecPtrToBytePos
  dsimp only
  rw [hdiv, hmod, hoffset, hfullpages]
  unfold pageHeader pageBytePos usableBytesInPage xLogBlcksz sizeOfXLogLongPHD sizeOfXLogShortPHD
  split
  . split <;> omega
  . split <;> omega

theorem xLogRecPtrToBytePos_recPtr : xLogRecPtrToBytePos seg spot.recPtr = spot.bytePos := by
  have hoff := spot.off_lt
  unfold recPtr
  rw [Nat.add_assoc, spot.xLogRecPtrToBytePos_page (by omega)]
  unfold bytePos
  omega

theorem xLogRecPtrToBytePos_endRecPtr : xLogRecPtrToBytePos seg spot.endRecPtr = spot.bytePos := by
  unfold endRecPtr
  split
  . next hzero =>
    have hpage := spot.xLogRecPtrToBytePos_page (Nat.zero_lt_of_lt spot.off_lt)
    rw [Nat.add_zero, Nat.zero_sub] at hpage
    rw [hpage]
    unfold bytePos
    omega
  . exact spot.xLogRecPtrToBytePos_recPtr

end Spot

/-- The `XLogRecPtr`s of the segment of a byte position, and of the next segment, have 64 bits. -/
def InLsns (seg : Segment) (bytepos : Nat) : Prop :=
  (bytepos / usableBytesInSegment seg + 2) * xLogSegSize seg ≤ 2 ^ 64

/-- The `XLogRecPtr`s of the segment of a byte position have 64 bits. -/
def InWal (seg : Segment) (bytepos : Nat) : Prop :=
  (bytepos / usableBytesInSegment seg + 1) * xLogSegSize seg ≤ 2 ^ 64

instance (seg : Segment) (bytepos : Nat) : Decidable (InWal seg bytepos) := inferInstanceAs (Decidable (_ ≤ _))

theorem InWal.mono {bytepos' : Nat} (h : InWal seg bytepos) (hle : bytepos' ≤ bytepos)
    : InWal seg bytepos' :=
  Nat.le_trans (Nat.mul_le_mul_right _ (Nat.add_le_add_right (Nat.div_le_div_right hle) 1)) h

theorem InLsns.inWal (h : InLsns seg bytepos) : InWal seg bytepos :=
  Nat.le_trans (Nat.mul_le_mul_right _ (Nat.add_le_add_left (by decide) _)) h

namespace Spot

variable {spot : Spot seg}

variable (h : InWal seg spot.bytePos)
include h

theorem recPtr_lt_of_inWal : spot.recPtr < 2 ^ 64 := by
  unfold InWal at h
  rw [spot.bytePos_div] at h
  exact Nat.lt_of_lt_of_le spot.recPtr_lt h

theorem xLogBytePosToRecPtr_eq : xLogBytePosToRecPtr seg spot.bytePos = spot.recPtr := by
  rw [spot.xLogBytePosToRecPtr_bytePos, Nat.mod_eq_of_lt (recPtr_lt_of_inWal h)]

theorem xLogBytePosToEndRecPtr_eq : xLogBytePosToEndRecPtr seg spot.bytePos = spot.endRecPtr := by
  rw [spot.xLogBytePosToEndRecPtr_bytePos,
    Nat.mod_eq_of_lt (Nat.lt_of_le_of_lt spot.endRecPtr_le (recPtr_lt_of_inWal h))]

end Spot

end Spots

section Copy

variable (spot : Spot seg)

theorem pagePtr_mod : spot.pagePtr % xLogBlcksz = 0 := by
  unfold Spot.pagePtr xLogSegSize
  rw [← Nat.mul_assoc, ← Nat.add_mul, Nat.mul_mod_left]

theorem insertFreespace_pagePtr : insertFreespace spot.pagePtr = 0 :=
  (insertFreespace_eq_zero _).mpr (pagePtr_mod spot)

theorem insertFreespace_recPtr
    : insertFreespace spot.recPtr = xLogBlcksz - (pageHeader spot.page + spot.off) := by
  have hpage := pagePtr_mod spot
  have hoff := spot.off_lt
  have hheader : 0 < pageHeader spot.page := by
    unfold pageHeader
    split <;> decide
  unfold insertFreespace Spot.recPtr
  unfold xLogBlcksz at *
  rw [if_neg (by omega)]
  omega

theorem pageHeader_lt (page : Nat) : 0 + pageHeader page < xLogBlcksz := by
  unfold pageHeader
  split <;> decide

def Spot.next (spot : Spot seg) : Spot seg :=
  if hpage : spot.page + 1 < seg.pages then
    ⟨spot.segno, spot.page + 1, 0, hpage, pageHeader_lt _⟩
  else
    ⟨spot.segno + 1, 0, 0, seg.pos, pageHeader_lt _⟩

theorem Spot.next_off : spot.next.off = 0 := by
  unfold next
  split <;> rfl

theorem Spot.next_pagePtr : spot.next.pagePtr = spot.pagePtr + xLogBlcksz := by
  have hlt := spot.page_lt
  unfold next pagePtr
  split
  . dsimp only
    rw [Nat.add_mul, Nat.one_mul, Nat.add_assoc]
  . next hlast =>
    have hpages : seg.pages = spot.page + 1 := by omega
    dsimp only
    unfold xLogSegSize
    rw [hpages, Nat.add_mul, Nat.one_mul, Nat.add_mul spot.page, Nat.one_mul]
    omega

theorem Spot.next_bytePos
    : spot.next.bytePos = spot.bytePos + (xLogBlcksz - (pageHeader spot.page + spot.off)) := by
  have hlt := spot.page_lt
  have hoff := spot.off_lt
  have huse := usableBytesInSegment_eq seg
  unfold next bytePos
  split
  . dsimp only
    unfold pageHeader at hoff ⊢
    unfold pageBytePos usableBytesInPage xLogBlcksz sizeOfXLogLongPHD sizeOfXLogShortPHD at *
    rw [if_neg (Nat.succ_ne_zero _)]
    split at hoff
    . next hzero =>
      rw [if_pos hzero, if_pos hzero, hzero]
      omega
    . next hpositive =>
      rw [if_neg hpositive, if_neg hpositive]
      omega
  . next hlast =>
    have hpages : seg.pages = spot.page + 1 := by omega
    dsimp only
    unfold pageHeader at hoff ⊢
    unfold pageBytePos usableBytesInPage xLogBlcksz sizeOfXLogLongPHD sizeOfXLogShortPHD at *
    rw [if_pos rfl, Nat.add_mul, Nat.one_mul]
    split at hoff
    . next hzero =>
      rw [if_pos hzero, if_pos hzero]
      omega
    . next hpositive =>
      rw [if_neg hpositive, if_neg hpositive]
      omega

theorem skipPageHeader_pagePtr (hoff : spot.off = 0)
    : skipPageHeader seg spot.pagePtr = spot.recPtr := by
  have hpage := spot.page_lt
  have hmod := spot.endRecPtr_mod
  rw [if_pos hoff] at hmod
  unfold Spot.endRecPtr at hmod
  rw [if_pos hoff] at hmod
  unfold skipPageHeader Spot.recPtr pageHeader
  rw [hmod, hoff]
  unfold xLogBlcksz
  by_cases hzero : spot.page = 0
  . rw [if_pos hzero, if_pos (by omega)]
    rfl
  . rw [if_neg hzero, if_neg (by omega)]
    rfl

/-- Where the copying is: behind a byte, in front of a page header or behind it. -/
def Spot.At (spot : Spot seg) (currPos : Nat) : Prop := currPos = spot.recPtr ∨ currPos = spot.endRecPtr

theorem Spot.exists_add (hle : len ≤ insertFreespace spot.recPtr)
    : ∃ spot' : Spot seg, spot'.bytePos = spot.bytePos + len ∧
      (0 < len → spot'.endRecPtr = spot.recPtr + len) := by
  have hoff := spot.off_lt
  rw [insertFreespace_recPtr] at hle
  by_cases hlt : len < xLogBlcksz - (pageHeader spot.page + spot.off)
  . refine ⟨⟨spot.segno, spot.page, spot.off + len, spot.page_lt, by omega⟩, ?_, ?_⟩
    . unfold bytePos
      dsimp only
      omega
    . intro hpos
      unfold endRecPtr
      rw [if_neg (by dsimp only; omega)]
      unfold recPtr pagePtr
      dsimp only
      omega
  . refine ⟨spot.next, ?_, ?_⟩
    . rw [spot.next_bytePos]
      omega
    . intro hpos
      unfold endRecPtr
      rw [if_pos spot.next_off, spot.next_pagePtr]
      unfold recPtr
      omega

theorem Spot.exists_skip {spot : Spot seg} (hcurr : spot.At currPos)
    : ∃ spot' : Spot seg, spot'.bytePos = spot.bytePos + insertFreespace currPos ∧
        skipPageHeader seg (currPos + insertFreespace currPos) = spot'.recPtr := by
  have hoff := spot.off_lt
  by_cases hstart : currPos = spot.recPtr
  . refine ⟨spot.next, ?_, ?_⟩
    . rw [hstart, insertFreespace_recPtr, spot.next_bytePos]
    . rw [← skipPageHeader_pagePtr spot.next spot.next_off, hstart, insertFreespace_recPtr, spot.next_pagePtr]
      apply congrArg
      unfold recPtr
      omega
  . have hend := hcurr.resolve_left hstart
    unfold endRecPtr at hend
    split at hend
    . next hzero =>
      refine ⟨spot, ?_, ?_⟩
      . rw [hend, insertFreespace_pagePtr, Nat.add_zero]
      . rw [hend, insertFreespace_pagePtr, Nat.add_zero, skipPageHeader_pagePtr spot hzero]
    . exact absurd hend hstart

structure Copied (spot : Spot seg) (currPos len : Nat) (spot' : Spot seg) (currPos' : Nat) : Prop where
  bytePos : spot'.bytePos = spot.bytePos + len
  reached : currPos' = spot'.endRecPtr ∨ len = 0 ∧ spot' = spot ∧ currPos' = currPos

theorem Copied.at {spot spot' : Spot seg} {currPos' : Nat} (h : Copied spot currPos len spot' currPos')
    (hcurr : spot.At currPos)
    : spot'.At currPos' := by
  rcases h.reached with hend | ⟨_, rfl, rfl⟩
  . exact Or.inr hend
  . exact hcurr

theorem Copied.trans {spot spot' spot'' : Spot seg} {currPos' currPos'' len' : Nat}
    (h : Copied spot currPos len spot' currPos') (h' : Copied spot' currPos' len' spot'' currPos'')
    : Copied spot currPos (len + len') spot'' currPos'' := by
  constructor
  . rw [h'.bytePos, h.bytePos, Nat.add_assoc]
  . rcases h'.reached with hend | ⟨hzero', rfl, rfl⟩
    . exact Or.inl hend
    . rw [hzero']
      exact h.reached

theorem Spot.exists_last {spot : Spot seg} (hcurr : spot.At currPos) (hle : len ≤ insertFreespace currPos)
    : ∃ spot' : Spot seg, Copied spot currPos len spot' (currPos + len) := by
  rcases Nat.eq_zero_or_pos len with rfl | hpos
  . exact ⟨spot, rfl, Or.inr ⟨rfl, rfl, rfl⟩⟩
  . by_cases hstart : currPos = spot.recPtr
    . rw [hstart] at hle ⊢
      obtain ⟨spot', hbytePos, hend⟩ := spot.exists_add hle
      exact ⟨spot', hbytePos, Or.inl (hend hpos).symm⟩
    . have hend := hcurr.resolve_left hstart
      unfold endRecPtr at hend
      split at hend
      . rw [hend, insertFreespace_pagePtr] at hle
        omega
      . exact absurd hend hstart

theorem insertFreespace_add (hle : len ≤ insertFreespace currPos)
    : insertFreespace (currPos + len) = insertFreespace currPos - len := by
  unfold insertFreespace xLogBlcksz at *
  split at hle <;> split <;> omega

theorem copyPages_spec {spot : Spot seg} {freespace : Nat} (rdataLen : Nat) (hcurr : spot.At currPos)
    (hfree : freespace = insertFreespace currPos)
    : ∃ spot' : Spot seg, ∃ currPos', Copied spot currPos rdataLen spot' currPos' ∧
        copyPages seg currPos freespace rdataLen = (currPos', insertFreespace currPos') := by
  induction currPos, freespace, rdataLen using copyPages.induct seg generalizing spot with
  | case1 currPos freespace rdataLen hlt ih =>
    rw [copyPages.eq_def, if_pos hlt, hfree]
    rw [hfree] at hlt ih
    obtain ⟨spot₁, hbytePos₁, hskip⟩ := Spot.exists_skip hcurr
    obtain ⟨spot', currPos', hcopied, hcopy⟩ := ih (Or.inl hskip) rfl
    refine ⟨spot', currPos', ⟨?_, ?_⟩, hcopy⟩
    . rw [hcopied.bytePos, hbytePos₁]
      omega
    . rcases hcopied.reached with hend | ⟨hzero, _⟩
      . exact Or.inl hend
      . omega
  | case2 currPos freespace rdataLen hge =>
    rw [copyPages.eq_def, if_neg hge]
    have hle : rdataLen ≤ insertFreespace currPos := by omega
    obtain ⟨spot', hcopied⟩ := Spot.exists_last hcurr hle
    refine ⟨spot', currPos + rdataLen, hcopied, ?_⟩
    rw [insertFreespace_add hle, hfree]

theorem copyRdata_spec {spot : Spot seg} (rdata : List Nat) (hcurr : spot.At currPos)
    : ∃ spot' : Spot seg, ∃ currPos', Copied spot currPos rdata.sum spot' currPos' ∧
        copyRdata seg rdata currPos (insertFreespace currPos) = (currPos', insertFreespace currPos') := by
  induction rdata generalizing spot currPos with
  | nil => exact ⟨spot, currPos, ⟨rfl, Or.inr ⟨rfl, rfl, rfl⟩⟩, rfl⟩
  | cons rdataLen rdata ih =>
    obtain ⟨spot₁, currPos₁, hcopied₁, hcopy₁⟩ := copyPages_spec rdataLen hcurr rfl
    obtain ⟨spot', currPos', hcopied, hcopy⟩ := ih (hcopied₁.at hcurr)
    refine ⟨spot', currPos', ?_, ?_⟩
    . rw [List.sum_cons]
      exact hcopied₁.trans hcopied
    . unfold copyRdata
      rw [hcopy₁]
      exact hcopy

theorem endRecPtr_align
    : spot.endRecPtr % 8 = spot.bytePos % 8 ∧ (spot.off = 0 → spot.bytePos % 8 = 0) := by
  have hoff := spot.off_lt
  have hptr : spot.pagePtr % 8 = 0 := by
    have hmod := pagePtr_mod spot
    unfold xLogBlcksz at hmod
    omega
  have hsegment : (spot.segno * usableBytesInSegment seg) % 8 = 0 := by
    have hpos := seg.pos
    rw [usableBytesInSegment_eq, Nat.mul_mod, show (seg.pages * 8168 - 16) % 8 = 0 by omega, Nat.mul_zero,
      Nat.zero_mod]
  have hpage : pageBytePos spot.page % 8 = 0 := by
    unfold pageBytePos usableBytesInPage xLogBlcksz sizeOfXLogShortPHD
    split <;> omega
  have hheader : pageHeader spot.page % 8 = 0 := by
    unfold pageHeader
    split <;> rfl
  unfold Spot.endRecPtr Spot.recPtr Spot.bytePos
  split <;> omega

theorem exists_maxalign
    : ∃ spot' : Spot seg, spot'.bytePos = maxalign spot.bytePos ∧
      spot'.endRecPtr = maxalign spot.endRecPtr := by
  obtain ⟨halign, hstart⟩ := endRecPtr_align spot
  by_cases hzero : spot.bytePos % 8 = 0
  . refine ⟨spot, ?_, ?_⟩
    . unfold maxalign
      omega
    . unfold maxalign
      omega
  . have hoff : spot.off ≠ 0 := mt hstart hzero
    have hend : spot.endRecPtr = spot.recPtr := if_neg hoff
    have hfree : 8 - spot.bytePos % 8 ≤ insertFreespace spot.recPtr := by
      rw [← hend]
      unfold insertFreespace xLogBlcksz
      split <;> omega
    obtain ⟨spot', hbytePos, hadd⟩ := spot.exists_add hfree
    refine ⟨spot', ?_, ?_⟩
    . rw [hbytePos]
      unfold maxalign
      omega
    . rw [hadd (by omega), ← hend]
      unfold maxalign
      omega

theorem maxalign_add (len : Nat) (halign : bytepos % 8 = 0)
    : maxalign (bytepos + len) = bytepos + maxalign len := by
  unfold maxalign
  omega

theorem copyRecord_fst {rdata : List Nat} (halign : bytepos % 8 = 0) (hpos : 0 < rdata.sum)
    (hin : InWal seg (bytepos + maxalign rdata.sum))
    : (copyRecord seg rdata (xLogBytePosToRecPtr seg bytepos)).1
        =
      xLogBytePosToEndRecPtr seg (bytepos + maxalign rdata.sum) := by
  obtain ⟨spot, hspot, _⟩ := exists_spot seg bytepos
  have hstart := hin.mono (Nat.le_add_right bytepos _)
  rw [← hspot] at hstart
  obtain ⟨spot₁, currPos, hcopied, hcopy⟩ := copyRdata_spec rdata (show spot.At spot.recPtr from Or.inl rfl)
  obtain ⟨spot', hbytePos', hend'⟩ := exists_maxalign spot₁
  have hcurr : currPos = spot₁.endRecPtr := by
    rcases hcopied.reached with hend | ⟨hzero, _⟩
    . exact hend
    . omega
  have hsize : spot'.bytePos = bytepos + maxalign rdata.sum := by
    rw [hbytePos', hcopied.bytePos, hspot, maxalign_add _ halign]
  unfold copyRecord
  rw [← hspot, Spot.xLogBytePosToRecPtr_eq hstart, hcopy, hspot, ← hsize]
  rw [← hsize] at hin
  rw [Spot.xLogBytePosToEndRecPtr_eq hin, hend', hcurr]

theorem copyRecord_snd {rdata : List Nat} (halign : bytepos % 8 = 0) (hpos : 0 < rdata.sum)
    (hlen : rdata.sum % 8 = 0) (hin : InWal seg (bytepos + maxalign rdata.sum))
    : (copyRecord seg rdata (xLogBytePosToRecPtr seg bytepos)).2
        =
      insertFreespace (copyRecord seg rdata (xLogBytePosToRecPtr seg bytepos)).1 := by
  obtain ⟨spot, hspot, _⟩ := exists_spot seg bytepos
  have hstart := hin.mono (Nat.le_add_right bytepos _)
  rw [← hspot] at hstart
  obtain ⟨spot₁, currPos, hcopied, hcopy⟩ := copyRdata_spec rdata (show spot.At spot.recPtr from Or.inl rfl)
  have hcurr : currPos = spot₁.endRecPtr := by
    rcases hcopied.reached with hend | ⟨hzero, _⟩
    . exact hend
    . omega
  obtain ⟨halign₁, _⟩ := endRecPtr_align spot₁
  have hsame : maxalign currPos = currPos := by
    rw [hcopied.bytePos, hspot] at halign₁
    unfold maxalign
    omega
  unfold copyRecord
  rw [← hspot, Spot.xLogBytePosToRecPtr_eq hstart, hcopy]
  dsimp only
  rw [hsame]

end Copy

end Xlog

import Mathlib.Algebra.Group.Int.Defs
import Mathlib.Algebra.Group.Nat.Defs
import Mathlib.Order.Lattice

/-!
This module contains the positions in the WAL of `xlog.cpp`: byte positions, which leave out the page headers,
`XLogRecPtr`s, and where the copying of a record gets to.
-/

namespace Xlog

section Sizes

def xLogBlcksz : Nat := 8192

def sizeOfXLogShortPHD : Nat := 24

def sizeOfXLogLongPHD : Nat := 40

def sizeOfXLogRecord : Nat := 32

def maxalign (len : Nat) : Nat := (len + 7) / 8 * 8

structure Segment where
  pages : Nat
  pos : 0 < pages
  le : pages ≤ 2 ^ 17

variable (seg : Segment)

def xLogSegSize : Nat := seg.pages * xLogBlcksz

def usableBytesInPage : Nat := xLogBlcksz - sizeOfXLogShortPHD

def usableBytesInSegment : Nat :=
  (xLogSegSize seg / xLogBlcksz) * usableBytesInPage - (sizeOfXLogLongPHD - sizeOfXLogShortPHD)

end Sizes

section Positions

variable (seg : Segment)

def xLogSegNoOffsetToRecPtr (segno offset : Nat) : Nat := (segno * xLogSegSize seg + offset) % 2 ^ 64

def xLogBytePosToRecPtr (bytepos : Nat) : Nat :=
  let fullsegs := bytepos / usableBytesInSegment seg
  let bytesleft := bytepos % usableBytesInSegment seg
  let segOffset :=
    if bytesleft < xLogBlcksz - sizeOfXLogLongPHD then
      bytesleft + sizeOfXLogLongPHD
    else
      let bytesleft := bytesleft - (xLogBlcksz - sizeOfXLogLongPHD)
      let fullpages := bytesleft / usableBytesInPage
      let bytesleft := bytesleft % usableBytesInPage
      xLogBlcksz + (fullpages * xLogBlcksz + bytesleft + sizeOfXLogShortPHD)
  xLogSegNoOffsetToRecPtr seg fullsegs segOffset

def xLogBytePosToEndRecPtr (bytepos : Nat) : Nat :=
  let fullsegs := bytepos / usableBytesInSegment seg
  let bytesleft := bytepos % usableBytesInSegment seg
  let segOffset :=
    if bytesleft < xLogBlcksz - sizeOfXLogLongPHD then
      if bytesleft = 0 then
        0
      else
        bytesleft + sizeOfXLogLongPHD
    else
      let bytesleft := bytesleft - (xLogBlcksz - sizeOfXLogLongPHD)
      let fullpages := bytesleft / usableBytesInPage
      let bytesleft := bytesleft % usableBytesInPage
      if bytesleft = 0 then
        xLogBlcksz + (fullpages * xLogBlcksz + bytesleft)
      else
        xLogBlcksz + (fullpages * xLogBlcksz + bytesleft + sizeOfXLogShortPHD)
  xLogSegNoOffsetToRecPtr seg fullsegs segOffset

def xLogRecPtrToBytePos (ptr : Nat) : Nat :=
  let fullsegs := ptr / xLogSegSize seg
  let fullpages := (ptr % xLogSegSize seg) / xLogBlcksz
  let offset := ptr % xLogBlcksz
  if fullpages = 0 then
    let result := fullsegs * usableBytesInSegment seg
    if offset > 0 then
      result + (offset - sizeOfXLogLongPHD)
    else
      result
  else
    let result := fullsegs * usableBytesInSegment seg + (xLogBlcksz - sizeOfXLogLongPHD)
      + (fullpages - 1) * usableBytesInPage
    if offset > 0 then
      result + (offset - sizeOfXLogShortPHD)
    else
      result

end Positions

section Copy

variable (seg : Segment)

def insertFreespace (endptr : Nat) : Nat :=
  if endptr % xLogBlcksz = 0 then 0 else xLogBlcksz - endptr % xLogBlcksz

def skipPageHeader (currPos : Nat) : Nat :=
  if currPos % xLogSegSize seg = 0 then
    currPos + sizeOfXLogLongPHD
  else
    currPos + sizeOfXLogShortPHD

theorem skipPageHeader_mod (currPos : Nat) (h : currPos % xLogBlcksz = 0)
    : skipPageHeader seg currPos % xLogBlcksz ≠ 0 := by
  unfold skipPageHeader sizeOfXLogLongPHD sizeOfXLogShortPHD
  unfold xLogBlcksz at h ⊢
  split <;> omega

theorem insertFreespace_eq_zero (endptr : Nat) : insertFreespace endptr = 0 ↔ endptr % xLogBlcksz = 0 := by
  unfold insertFreespace xLogBlcksz
  split <;> omega

theorem copyPages_lex {currPos freespace rdataLen : Nat} (hlt : freespace < rdataLen)
    : Prod.Lex (· < ·) (· < ·) (rdataLen - freespace,
          if insertFreespace (skipPageHeader seg (currPos + freespace)) = 0 then
            if skipPageHeader seg (skipPageHeader seg (currPos + freespace)) % xLogBlcksz = 0 then 2 else 1
          else 0)
        (rdataLen, if freespace = 0 then if skipPageHeader seg currPos % xLogBlcksz = 0 then 2 else 1 else 0) := by
  rcases Nat.eq_zero_or_pos freespace with hzero | hpos
  . rw [hzero, Nat.sub_zero, Nat.add_zero]
    apply Prod.Lex.right
    rw [if_pos rfl]
    by_cases hfull : skipPageHeader seg currPos % xLogBlcksz = 0
    . rw [if_pos hfull, if_pos ((insertFreespace_eq_zero _).mpr hfull),
        if_neg (skipPageHeader_mod seg _ hfull)]
      exact Nat.lt_succ_self 1
    . rw [if_neg hfull, if_neg (mt (insertFreespace_eq_zero _).mp hfull)]
      exact Nat.one_pos
  . exact Prod.Lex.left _ _ (by omega)

/-- The loop over the pages for one piece of the record: `CurrPos` and `freespace` after it. -/
def copyPages (currPos freespace rdataLen : Nat) : Nat × Nat :=
  if freespace < rdataLen then
    copyPages (skipPageHeader seg (currPos + freespace))
      (insertFreespace (skipPageHeader seg (currPos + freespace))) (rdataLen - freespace)
  else
    (currPos + rdataLen, freespace - rdataLen)
termination_by (rdataLen,
  if freespace = 0 then if skipPageHeader seg currPos % xLogBlcksz = 0 then 2 else 1 else 0)
decreasing_by
  next hlt => exact copyPages_lex seg hlt

def copyRdata (rdata : List Nat) (currPos freespace : Nat) : Nat × Nat :=
  match rdata with
  | [] => (currPos, freespace)
  | rdataLen :: rdata =>
    copyRdata rdata (copyPages seg currPos freespace rdataLen).1 (copyPages seg currPos freespace rdataLen).2

/-- `CurrPos`, aligned, and `freespace` when the data of a record has been copied. -/
def copyRecord (rdata : List Nat) (startPos : Nat) : Nat × Nat :=
  (maxalign (copyRdata seg rdata startPos (insertFreespace startPos)).1,
    (copyRdata seg rdata startPos (insertFreespace startPos)).2)

end Copy

end Xlog

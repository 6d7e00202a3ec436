import OpenGauss.Lib.Memory
import OpenGauss.Xlog.Position.Impl

/-!
This module contains the copying of a record into the pages of the WAL, from `CopyXLogRecordToWAL` and
`CopyXLogRecordToWALForGroup` of `xlog.cpp`.
-/

namespace Xlog

/--
The pages that `GetXLogBuffer` returns, by `XLogRecPtr`. The fields of the page headers that the copying sets stand
beside the bytes.
-/
structure WalPages where
  bytes : Memory
  xlpRemLen : Nat → Nat
  firstIsContrecord : Nat → Bool

def WalPages.continueRecord (pages : WalPages) (page remLen : Nat) : WalPages where
  bytes := pages.bytes
  xlpRemLen := Function.update pages.xlpRemLen page remLen
  firstIsContrecord := Function.update pages.firstIsContrecord page true

structure Copying where
  pages : WalPages
  currPos : Nat
  freespace : Nat
  written : Nat

namespace Copying

variable (seg : Segment) (copying : Copying)

def store (data : Bytes) : Copying where
  pages := { copying.pages with bytes := copying.pages.bytes.store copying.currPos data }
  currPos := copying.currPos + data.length
  freespace := copying.freespace - data.length
  written := copying.written + data.length

/-- `CurrPos` is at the start of a page. -/
def nextPage (writeLen : Nat) : Copying where
  pages := copying.pages.continueRecord copying.currPos (writeLen - copying.written)
  currPos := skipPageHeader seg copying.currPos
  freespace := insertFreespace (skipPageHeader seg copying.currPos)
  written := copying.written

def copyData (writeLen : Nat) (copying : Copying) (rdata : Bytes) : Copying :=
  if copying.freespace < rdata.length then
    copyData writeLen ((copying.store (rdata.take copying.freespace)).nextPage seg writeLen)
      (rdata.drop copying.freespace)
  else
    copying.store rdata
termination_by (rdata.length,
  if copying.freespace = 0 then if skipPageHeader seg copying.currPos % xLogBlcksz = 0 then 2 else 1 else 0)
decreasing_by
  next hlt =>
    simpa only [nextPage, store, List.length_drop, List.length_take_of_le (Nat.le_of_lt hlt)] using
      @copyPages_lex seg copying.currPos _ _ hlt

end Copying

section Record

variable (seg : Segment) (pages : WalPages) (writeLen : Nat) (rdata : List Bytes) (startPos endPos : Nat)

/--
The pages and `CurrPos` after the data of a record. For a log switch the code then goes on to `endPos`, which leaves
the bytes as they are.
-/
def copyXLogRecordToWAL : WalPages × Nat :=
  let copying := rdata.foldl (Copying.copyData seg writeLen) ⟨pages, startPos, insertFreespace startPos, 0⟩
  (copying.pages, maxalign copying.currPos)

/-- None is the PANIC that the space reserved does not match what was written. -/
def copyXLogRecordToWALForGroup : Option WalPages :=
  let copied := copyXLogRecordToWAL seg pages writeLen rdata startPos
  if copied.2 ≠ endPos then none else some copied.1

end Record

end Xlog

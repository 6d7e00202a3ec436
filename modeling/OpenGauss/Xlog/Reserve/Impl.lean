import OpenGauss.Lib.Interleaving
import OpenGauss.Xlog.Position.Impl

/-!
This module contains the reservation of WAL space in `xlog.cpp`, for any number of processes that insert records,
alone or for a group, or switch the log.

An access to the 128 bits of `XLogCtlInsert` is a step of its own.
-/

namespace Xlog

section Lrc

def walCopySuspend : Int := -1

def nextLrc (lrc : Int) : Int := (lrc + 1) % 2 ^ 31

end Lrc

section Reserve

/-- `CurrBytePos`, `PrevByteSize` and `CurrLRC`, which are swapped together. -/
structure XLogCtlInsert where
  currBytePos : Nat
  prevByteSize : Nat
  currLRC : Int
  deriving DecidableEq

namespace XLogCtlInsert

variable (compare : XLogCtlInsert)

def prevBytePos : Nat := (compare.currBytePos + 2 ^ 64 - compare.prevByteSize) % 2 ^ 64

end XLogCtlInsert

/-- The 128 bits that `ReserveXLogInsertByteLocation` puts in the place of `compare`. -/
def reserveXLogInsertByteLocation (size lastRecordSize : Nat) (compare : XLogCtlInsert) : XLogCtlInsert where
  currBytePos := (compare.currBytePos + maxalign size % 2 ^ 32) % 2 ^ 64
  prevByteSize := lastRecordSize
  currLRC := nextLrc compare.currLRC

/-- The 128 bits that `ReserveXLogInsertLocation` puts in the place of `compare`. -/
def reserveXLogInsertLocation (size : Nat) (compare : XLogCtlInsert) : XLogCtlInsert where
  currBytePos := (compare.currBytePos + maxalign size % 2 ^ 32) % 2 ^ 64
  prevByteSize := maxalign size % 2 ^ 32
  currLRC := nextLrc compare.currLRC

end Reserve

section Group

structure Follower where
  xlTotLen : Nat
  fpwLsn : Nat
  redoRecPtr : Nat
  doPageWrites : Bool

def Follower.IsFPW (follower : Follower) : Prop :=
  follower.fpwLsn ≠ 0 ∧ follower.fpwLsn ≤ follower.redoRecPtr ∧ follower.doPageWrites

instance (follower : Follower) : Decidable follower.IsFPW := inferInstanceAs (Decidable (_ ∧ _ ∧ _))

def recordSize (xlTotLen : Nat) : Nat := maxalign xlTotLen % 2 ^ 32

def groupSizes (followers : List Follower) (totalSize lastSize : Nat) : Nat × Nat :=
  match followers with
  | [] => (totalSize, lastSize)
  | follower :: followers =>
    if follower.IsFPW then
      groupSizes followers totalSize lastSize
    else
      groupSizes followers ((totalSize + recordSize follower.xlTotLen) % 2 ^ 32)
        (recordSize follower.xlTotLen)

/-- A record in the WAL, and the position that is written into it as that of the previous one. -/
structure Record where
  startBytePos : Nat
  size : Nat
  prevBytePos : Nat

namespace Record

variable (seg : Segment) (record : Record)

def startPos : Nat := xLogBytePosToRecPtr seg record.startBytePos

def xlPrev : Nat := xLogBytePosToRecPtr seg record.prevBytePos

end Record

def insertFollowers (followers : List Follower) (startBytePos prevBytePos : Nat) : List Record :=
  match followers with
  | [] => []
  | follower :: followers =>
    if follower.IsFPW then
      insertFollowers followers startBytePos prevBytePos
    else
      ⟨startBytePos, maxalign follower.xlTotLen, prevBytePos⟩
        :: insertFollowers followers ((startBytePos + maxalign follower.xlTotLen) % 2 ^ 64) startBytePos

/--
What space is reserved for: one record in `XLogInsertRecordSingle`, the record of a leader, or the records of its
followers.
-/
inductive Insert where
  | single (xlTotLen : Nat)
  | leader (xlTotLen : Nat)
  | followers (head : List Follower)

def xLogRecordMaxSize : Nat := 0x3fffe000

/-- Records that are not a log switch have data, and `XLogRecordAssemble` limits their size. -/
def LenOk (xlTotLen : Nat) : Prop := sizeOfXLogRecord < xlTotLen ∧ xlTotLen < xLogRecordMaxSize

instance (xlTotLen : Nat) : Decidable (LenOk xlTotLen) := inferInstanceAs (Decidable (_ ∧ _))

namespace Insert

def WellFormed (insert : Insert) : Prop :=
  match insert with
  | single xlTotLen => LenOk xlTotLen
  | leader xlTotLen => LenOk xlTotLen
  | followers head => ∀ follower ∈ head, LenOk follower.xlTotLen

def size (insert : Insert) : Nat :=
  match insert with
  | single xlTotLen => recordSize xlTotLen
  | leader xlTotLen => recordSize xlTotLen
  | followers head => (groupSizes head 0 0).1

def exchange (insert : Insert) (compare : XLogCtlInsert) : XLogCtlInsert :=
  match insert with
  | single xlTotLen => reserveXLogInsertLocation xlTotLen compare
  | leader xlTotLen => reserveXLogInsertByteLocation (recordSize xlTotLen) (recordSize xlTotLen) compare
  | followers head => reserveXLogInsertByteLocation (groupSizes head 0 0).1 (groupSizes head 0 0).2 compare

def records (insert : Insert) (startBytePos prevBytePos : Nat) : List Record :=
  match insert with
  | single xlTotLen => [⟨startBytePos, maxalign xlTotLen, prevBytePos⟩]
  | leader xlTotLen => [⟨startBytePos, maxalign xlTotLen, prevBytePos⟩]
  | followers head => insertFollowers head startBytePos prevBytePos

end Insert

end Group

section Switch

variable (seg : Segment)

structure SwitchRound where
  startPos : Nat
  endPos : Nat
  size : Nat
  exchange : XLogCtlInsert

/-- The start of `ReserveXLogSwitch`: nothing to do at the start of a segment. -/
def AtSegmentStart (compare : XLogCtlInsert) : Prop :=
  xLogBytePosToEndRecPtr seg compare.currBytePos % xLogSegSize seg = 0

instance (compare : XLogCtlInsert) : Decidable (AtSegmentStart seg compare) :=
    inferInstanceAs (Decidable (_ = _))

def reserveXLogSwitch (size : Nat) (compare : XLogCtlInsert) : SwitchRound :=
  let startbytepos := compare.currBytePos
  let endbytepos := (startbytepos + size) % 2 ^ 64
  let endPos := xLogBytePosToEndRecPtr seg endbytepos
  let segleft := xLogSegSize seg - endPos % xLogSegSize seg
  let full := (endPos + segleft) % 2 ^ 64
  let ⟨endPos, endbytepos⟩ :=
    if segleft ≠ xLogSegSize seg then (full, xLogRecPtrToBytePos seg full) else (endPos, endbytepos)
  let size := (endbytepos + 2 ^ 64 - startbytepos) % 2 ^ 32
  { startPos := xLogBytePosToRecPtr seg startbytepos
    endPos
    size
    exchange := ⟨endbytepos, size, compare.currLRC⟩ }

theorem nextPage_lt {currPos endPos : Nat} (hle : currPos ≤ endPos)
    : endPos + 1 - (currPos + xLogBlcksz) < endPos + 1 - currPos := by
  have hpos : 0 < xLogBlcksz := by decide
  omega

/--
The loop of `CopyXLogRecordToWAL` for a log switch: the entries that it fills, an LRC and an end each, and the LRC
after it.
-/
def reportPages (currPos endPos : Nat) (currlrc : Int) : List (Int × Nat) × Int :=
  if currPos ≤ endPos then
    ((currlrc, currPos) :: (reportPages (currPos + xLogBlcksz) endPos (nextLrc currlrc)).1,
      (reportPages (currPos + xLogBlcksz) endPos (nextLrc currlrc)).2)
  else
    ([], currlrc)
termination_by (endPos + 1 - currPos, 0)
decreasing_by
  next hle => exact Prod.Lex.left _ _ (nextPage_lt hle)

def copyXLogSwitch (startPos endPos : Nat) (currlrc : Int) : List (Int × Nat) × Int :=
  let copied := copyRecord seg [sizeOfXLogRecord] startPos
  if copied.1 % xLogSegSize seg ≠ 0 then
    reportPages (copied.1 + copied.2) endPos currlrc
  else
    ([], currlrc)

end Switch

section Steps

inductive Pc where
  | idle
  -- before and in the loop of `ReserveXLogInsertLocation` or `ReserveXLogInsertByteLocation`
  | called (insert : Insert)
  | reserving (insert : Insert) (compare : XLogCtlInsert)
  -- in the loop of `StartSuspendWalInsert`, and behind it
  | suspending (compare : XLogCtlInsert)
  | suspended (lastlrc : Int)
  -- in the loop of `ReserveXLogSwitch`, and behind it
  | switching (lastlrc : Int) (size : Nat) (compare : XLogCtlInsert)
  | switched (lastlrc : Int) (inserted : Bool) (startPos endPos : Nat)

def Pc.Suspends (pc : Pc) : Prop :=
  match pc with
  | suspended _ => True
  | switching _ _ _ => True
  | switched _ _ _ _ => True
  | _ => False

/-- A range that has been reserved, with its records, the LRC that it gets,
  and the LRCs of the entries that it fills. -/
structure Reservation where
  startBytePos : Nat
  endBytePos : Nat
  records : List Record
  lrc : Int
  lrcs : List Int
  isSwitch : Bool

def Reservation.len (reservation : Reservation) : Nat := reservation.endBytePos - reservation.startBytePos

/--
The shared 128 bits and the processes. The ranges in the order of their swaps, and the records that are inserted
without one, are only for the record.
-/
structure WalState (P : Type) where
  insert : XLogCtlInsert
  pc : P → Pc
  reserved : List Reservation
  strays : List Record

variable {P : Type} [DecidableEq P] (seg : Segment)

namespace WalState

variable (σ : WalState P) (p : P)

def goto (pc : Pc) : WalState P := { σ with pc := Function.update σ.pc p pc }

def reserve (insert : Insert) : WalState P :=
  { σ.goto p .idle with
    insert := insert.exchange σ.insert
    reserved := σ.reserved ++
      [⟨σ.insert.currBytePos, (insert.exchange σ.insert).currBytePos,
        insert.records σ.insert.currBytePos σ.insert.prevBytePos, σ.insert.currLRC, [σ.insert.currLRC],
          false⟩] }

def switch (lastlrc : Int) (round : SwitchRound) : WalState P :=
  { σ.goto p (.switched lastlrc true round.startPos round.endPos) with
    insert := round.exchange
    reserved := σ.reserved ++
      [⟨σ.insert.currBytePos, round.exchange.currBytePos,
        [⟨σ.insert.currBytePos, maxalign sizeOfXLogRecord, σ.insert.prevBytePos⟩], lastlrc,
        (copyXLogSwitch seg round.startPos round.endPos lastlrc).1.map Prod.fst, true⟩] }

end WalState

inductive Step (σ : WalState P) (p : P) : WalState P → Prop
  | call (insert : Insert) (hpc : σ.pc p = .idle) (hwell : insert.WellFormed)
    : Step σ p (σ.goto p (.called insert))
  -- nothing to reserve, the records are inserted nevertheless
  | unreserved (insert : Insert) (hpc : σ.pc p = .called insert) (hsize : insert.size = 0)
    : Step σ p { σ.goto p .idle with strays := σ.strays ++ insert.records 0 0 }
  | read (insert : Insert) (hpc : σ.pc p = .called insert) (hsize : insert.size ≠ 0)
    : Step σ p (σ.goto p (.reserving insert σ.insert))
  | readAgain (insert : Insert) (compare : XLogCtlInsert) (hpc : σ.pc p = .reserving insert compare)
    (hsuspended : compare.currLRC = walCopySuspend)
    : Step σ p (σ.goto p (.reserving insert σ.insert))
  | reserve (insert : Insert) (compare : XLogCtlInsert) (hpc : σ.pc p = .reserving insert compare)
    (hsuspended : compare.currLRC ≠ walCopySuspend) (hequal : σ.insert = compare)
    : Step σ p (σ.reserve p insert)
  | reserveFails (insert : Insert) (compare : XLogCtlInsert) (hpc : σ.pc p = .reserving insert compare)
    (hsuspended : compare.currLRC ≠ walCopySuspend) (hequal : σ.insert ≠ compare)
    : Step σ p (σ.goto p (.reserving insert σ.insert))
  | callSuspend (hpc : σ.pc p = .idle) : Step σ p (σ.goto p (.suspending σ.insert))
  | suspendAgain (compare : XLogCtlInsert) (hpc : σ.pc p = .suspending compare)
    (hsuspended : compare.currLRC = walCopySuspend)
    : Step σ p (σ.goto p (.suspending σ.insert))
  | suspend (compare : XLogCtlInsert) (hpc : σ.pc p = .suspending compare)
    (hsuspended : compare.currLRC ≠ walCopySuspend) (hequal : σ.insert = compare)
    : Step σ p { σ.goto p (.suspended compare.currLRC) with
        insert := { compare with currLRC := walCopySuspend } }
  | suspendFails (compare : XLogCtlInsert) (hpc : σ.pc p = .suspending compare)
    (hsuspended : compare.currLRC ≠ walCopySuspend) (hequal : σ.insert ≠ compare)
    : Step σ p (σ.goto p (.suspending σ.insert))
  | callSwitch (lastlrc : Int) (hpc : σ.pc p = .suspended lastlrc)
    : Step σ p (σ.goto p (.switching lastlrc (maxalign sizeOfXLogRecord) σ.insert))
  | switchNothing (lastlrc : Int) (size : Nat) (compare : XLogCtlInsert)
    (hpc : σ.pc p = .switching lastlrc size compare) (hstart : AtSegmentStart seg compare)
    : Step σ p (σ.goto p (.switched lastlrc false (xLogBytePosToEndRecPtr seg compare.currBytePos)
        (xLogBytePosToEndRecPtr seg compare.currBytePos)))
  | switch (lastlrc : Int) (size : Nat) (compare : XLogCtlInsert)
    (hpc : σ.pc p = .switching lastlrc size compare) (hstart : ¬ AtSegmentStart seg compare)
    (hequal : σ.insert = compare)
    : Step σ p (σ.switch seg p lastlrc (reserveXLogSwitch seg size compare))
  | switchFails (lastlrc : Int) (size : Nat) (compare : XLogCtlInsert)
    (hpc : σ.pc p = .switching lastlrc size compare) (hstart : ¬ AtSegmentStart seg compare)
    (hequal : σ.insert ≠ compare)
    : Step σ p (σ.goto p (.switching lastlrc (reserveXLogSwitch seg size compare).size σ.insert))
  | resumeSwitched (lastlrc : Int) (startPos endPos : Nat)
    (hpc : σ.pc p = .switched lastlrc true startPos endPos)
    : Step σ p { σ.goto p .idle with
        insert := { σ.insert with currLRC := (copyXLogSwitch seg startPos endPos lastlrc).2 } }
  | resumeNothing (lastlrc : Int) (startPos endPos : Nat)
    (hpc : σ.pc p = .switched lastlrc false startPos endPos)
    : Step σ p { σ.goto p .idle with insert := { σ.insert with currLRC := lastlrc } }
  -- the other callers of `StartSuspendWalInsert`
  | resume (lastlrc : Int) (hpc : σ.pc p = .suspended lastlrc)
    : Step σ p { σ.goto p .idle with insert := { σ.insert with currLRC := lastlrc } }

/-- After `StartupXLOG`, with the end of the WAL and the start of its last record. -/
def initial (endOfLog lastRec : Nat) : WalState P where
  insert := ⟨endOfLog, (endOfLog - lastRec) % 2 ^ 32, 0⟩
  pc := fun _ => .idle
  reserved := []
  strays := []

end Steps

end Xlog

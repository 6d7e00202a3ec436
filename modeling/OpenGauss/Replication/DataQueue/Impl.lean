import OpenGauss.Lib.Interleaving
import OpenGauss.Lib.Memory

/-!
This module contains the data replication queue of `dataqueue.cpp`, and its steps for any number of
producers and one consumer.
-/

namespace DataQueue

section Pointers

def uint32Sub (a b : Nat) : Nat := (a + 2 ^ 32 - b) % 2 ^ 32

structure DataQueuePtr where
  queueid : Nat
  queueoff : Nat
  deriving DecidableEq

namespace DataQueuePtr

variable (a b : DataQueuePtr)

def IsInvalid : Prop := a.queueoff = 0

def ByteLT : Prop := a.queueid < b.queueid ∨ (a.queueid = b.queueid ∧ a.queueoff < b.queueoff)

def ByteLE : Prop := a.queueid < b.queueid ∨ (a.queueid = b.queueid ∧ a.queueoff ≤ b.queueoff)

def ByteEQ : Prop := a.queueid = b.queueid ∧ a.queueoff = b.queueoff

instance : Decidable a.IsInvalid := inferInstanceAs (Decidable (_ = _))
instance : Decidable (a.ByteLT b) := inferInstanceAs (Decidable (_ ∨ _))
instance : Decidable (a.ByteLE b) := inferInstanceAs (Decidable (_ ∨ _))
instance : Decidable (a.ByteEQ b) := inferInstanceAs (Decidable (_ ∧ _))

def nextQueue : DataQueuePtr := { a with queueid := (a.queueid + 1) % 2 ^ 32 }

def byteAdvance (bufferSize nbytes : Nat) : DataQueuePtr :=
  if a.queueoff > uint32Sub bufferSize nbytes then
    { a.nextQueue with queueoff := uint32Sub ((a.queueoff + nbytes) % 2 ^ 32) bufferSize }
  else
    { a with queueoff := (a.queueoff + nbytes) % 2 ^ 32 }

end DataQueuePtr

end Pointers

section Push

structure DataQueueData where
  useTail1 : DataQueuePtr
  useHead2 : DataQueuePtr
  useTail2 : DataQueuePtr
  pages : Memory

/--
A call of `PushToSenderQueue`, whose header is given by the position that goes into it, or of
`PushToWriterQueue`.
-/
inductive Push where
  | sender (dataHeader : DataQueuePtr → Bytes) (mem : Bytes)
  | writer (mem : Bytes)

namespace Push

variable (push : Push)

def len : Nat :=
  match push with
  | sender dataHeader mem => 4 + (dataHeader ⟨0, 0⟩).length + mem.length
  | writer mem => mem.length

/-- What is copied to the queue, for the position that the reservation returns. -/
def bytes (queueOffset : DataQueuePtr) : Bytes :=
  match push with
  | sender dataHeader mem =>
    LittleEndian.encode 4 (4 + (dataHeader ⟨0, 0⟩).length + mem.length) ++ dataHeader queueOffset ++ mem
  | writer mem => mem

def Fits (freespace : Nat) : Prop :=
  match push with
  | sender _ _ => freespace > push.len
  | writer _ => freespace ≥ push.len

instance (freespace : Nat) : Decidable (push.Fits freespace) :=
  match push with
  | sender dataHeader mem => inferInstanceAs (Decidable (freespace > (sender dataHeader mem).len))
  | writer mem => inferInstanceAs (Decidable (freespace ≥ (writer mem).len))

/-- A header is a structure, and the memory for the writer queue comes with its length in front. -/
def WellFormed : Prop :=
  match push with
  | sender dataHeader _ => ∀ queueOffset, (dataHeader queueOffset).length = (dataHeader ⟨0, 0⟩).length
  | writer mem => mem.take 4 = LittleEndian.encode 4 mem.length

end Push

/-- The part under `use_mutex`: the queue after it, `freespace_head` and the position that is returned. -/
def reserve (bufferSize : Nat) (push : Push) (queue : DataQueueData)
    : Option (DataQueueData × Nat × DataQueuePtr) :=
  if push.Fits (uint32Sub bufferSize queue.useTail2.queueoff) ∧ queue.useTail1.IsInvalid then
    let useTail2 := queue.useTail2.byteAdvance bufferSize push.len
    some ({ queue with useTail2 }, queue.useTail2.queueoff, useTail2)
  else if push.Fits (uint32Sub queue.useHead2.queueoff queue.useTail1.queueoff) then
    let useTail1 := if queue.useTail1.IsInvalid then queue.useTail1.nextQueue else queue.useTail1
    let useTail1 := useTail1.byteAdvance bufferSize push.len
    some ({ queue with useTail1 }, queue.useTail1.queueoff, useTail1)
  else
    none

end Push

section Get

def startFrom (queue : DataQueueData) (startptr : DataQueuePtr) : DataQueuePtr :=
  if startptr.IsInvalid then queue.useHead2 else startptr

def changeFromRightToLeft (queue : DataQueueData) : DataQueueData :=
  { queue with
    useHead2 := { queue.useHead2.nextQueue with queueoff := 0 }
    useTail2 := queue.useTail1
    useTail1 := { queue.useTail1 with queueoff := 0 } }

def readPageLen (pages : Memory) (queueoff : Nat) : Nat := LittleEndian.decode (pages.load queueoff 4)

/-- The loop over the pages that fit: `endptr.queueoff` and `page_len` after it, if it ends. -/
def scanPages (pages : Memory) (queueoff : Nat) (bufsize : Int) (pageLen : Nat) : Option (Nat × Nat) :=
  if 0 ≤ bufsize then
    if 0 < readPageLen pages queueoff then
      scanPages pages (queueoff + readPageLen pages queueoff) (bufsize - readPageLen pages queueoff)
        (readPageLen pages queueoff)
    else
      none
  else
    some (queueoff, pageLen)
termination_by (bufsize + 1).toNat

def endPosition (pages : Memory) (startptr currentTail2 : DataQueuePtr) (bufsize : Nat)
    : Option DataQueuePtr :=
  if uint32Sub currentTail2.queueoff startptr.queueoff ≤ bufsize then
    some currentTail2
  else
    (scanPages pages startptr.queueoff bufsize 0).map fun (queueoff, pageLen) =>
      { startptr with queueoff := queueoff - pageLen }

def popFromDataQueue (position : DataQueuePtr) (queue : DataQueueData) : DataQueueData :=
  if position.queueid = queue.useTail2.queueid ∧ position.ByteLE queue.useTail2 then
    { queue with useHead2 := { queue.useHead2 with queueoff := position.queueoff } }
  else
    queue

end Get

section Steps

/-- A producer is outside of the queue, or has reserved space and holds the shared lock. -/
inductive ProducerPc where
  | idle
  | copying (freespaceHead : Nat) (bytes : Bytes)

/-- The consumer between its calls, after a change of sides, and with what it has read under the mutex. -/
inductive ConsumerPc where
  | idle (startptr : DataQueuePtr)
  | changed
  | restarted (startptr : DataQueuePtr)
  | snapshot (startptr currentTail2 : DataQueuePtr)

structure Reserved where
  start : Nat
  bytes : Bytes
  position : DataQueuePtr
  lap : Nat

/--
The queue and its users. The reservations in their order, what the consumer has received and the end positions
that it got, each with how much it had received then, and how much has been popped are only for the record.
-/
structure QueueState (P : Type) where
  queue : DataQueueData
  producers : P → ProducerPc
  consumer : ConsumerPc
  lap : Nat
  reserved : List Reserved
  received : Bytes
  ends : List (DataQueuePtr × Nat)
  popped : Nat

variable {P : Type} [DecidableEq P]

namespace QueueState

variable (σ : QueueState P)

def nextLap (queue' : DataQueueData) : Nat :=
  if σ.queue.useTail1.IsInvalid ∧ ¬ queue'.useTail1.IsInvalid then σ.lap + 1 else σ.lap

def reserve (p : P) (push : Push) (queue' : DataQueueData) (freespaceHead : Nat) (position : DataQueuePtr)
    : QueueState P :=
  { σ with
    queue := queue'
    producers := Function.update σ.producers p (.copying freespaceHead (push.bytes position))
    lap := σ.nextLap queue'
    reserved := σ.reserved ++ [⟨freespaceHead, push.bytes position, position, σ.nextLap queue'⟩] }

def copy (p : P) (freespaceHead : Nat) (bytes : Bytes) : QueueState P :=
  { σ with
    queue := { σ.queue with pages := σ.queue.pages.store freespaceHead bytes }
    producers := Function.update σ.producers p .idle }

def deliver (startptr endptr : DataQueuePtr) : QueueState P :=
  let memLen := uint32Sub endptr.queueoff startptr.queueoff
  { σ with
    consumer := .idle endptr
    received := σ.received ++ σ.queue.pages.load startptr.queueoff memLen
    ends := σ.ends ++ [(endptr, σ.received.length + memLen)] }

end QueueState

inductive Actor (P : Type) where
  | producer (p : P)
  | consumer
  | popper

/--
One step, for a buffer of `bufferSize` bytes. Records are shorter than a quarter of it, the buffer of the
consumer has space for every one of them, and what is popped does not go backwards.
-/
inductive Step (bufferSize : Nat) (σ : QueueState P) : Actor P → QueueState P → Prop
  | reserve (p : P) (push : Push) (queue' : DataQueueData) (freespaceHead : Nat) (position : DataQueuePtr)
    (hidle : σ.producers p = .idle) (hwell : push.WellFormed) (hlen : 4 * push.len < bufferSize)
    (hreserve : DataQueue.reserve bufferSize push σ.queue = some (queue', freespaceHead, position))
    : Step bufferSize σ (.producer p) (σ.reserve p push queue' freespaceHead position)
  | refused (p : P) (push : Push) (hidle : σ.producers p = .idle) (hwell : push.WellFormed)
    (hlen : 4 * push.len < bufferSize) (hreserve : DataQueue.reserve bufferSize push σ.queue = none)
    : Step bufferSize σ (.producer p) σ
  | copy (p : P) (freespaceHead : Nat) (bytes : Bytes)
    (hcopying : σ.producers p = .copying freespaceHead bytes)
    : Step bufferSize σ (.producer p) (σ.copy p freespaceHead bytes)
  | getEmpty (startptr : DataQueuePtr) (hidle : σ.consumer = .idle startptr)
    (hempty : σ.queue.useHead2.ByteEQ σ.queue.useTail2) (hleft : σ.queue.useTail1.IsInvalid)
    : Step bufferSize σ .consumer { σ with consumer := .idle (startFrom σ.queue startptr) }
  | getAhead (startptr : DataQueuePtr) (hidle : σ.consumer = .idle startptr)
    (hright : ¬ σ.queue.useHead2.ByteEQ σ.queue.useTail2)
    (hahead : σ.queue.useTail2.ByteLE (startFrom σ.queue startptr))
    : Step bufferSize σ .consumer { σ with consumer := .idle (startFrom σ.queue startptr) }
  | getSnapshot (startptr : DataQueuePtr) (hidle : σ.consumer = .idle startptr)
    (hright : ¬ σ.queue.useHead2.ByteEQ σ.queue.useTail2)
    (hahead : ¬ σ.queue.useTail2.ByteLE (startFrom σ.queue startptr))
    : Step bufferSize σ .consumer
        { σ with consumer := .snapshot (startFrom σ.queue startptr) σ.queue.useTail2 }
  | getChange (startptr : DataQueuePtr) (hidle : σ.consumer = .idle startptr)
    (hempty : σ.queue.useHead2.ByteEQ σ.queue.useTail2) (hleft : ¬ σ.queue.useTail1.IsInvalid)
    : Step bufferSize σ .consumer { σ with queue := changeFromRightToLeft σ.queue, consumer := .changed }
  | getRestart (hchanged : σ.consumer = .changed)
    : Step bufferSize σ .consumer { σ with consumer := .restarted σ.queue.useHead2 }
  | getTail (startptr : DataQueuePtr) (hrestarted : σ.consumer = .restarted startptr)
    : Step bufferSize σ .consumer { σ with consumer := .snapshot startptr σ.queue.useTail2 }
  | getDeliver (startptr currentTail2 endptr : DataQueuePtr) (bufsize : Nat)
    (hsnapshot : σ.consumer = .snapshot startptr currentTail2)
    (hexclusive : ∀ p, σ.producers p = .idle)
    (hbufsize : ∀ record ∈ σ.reserved, record.bytes.length ≤ bufsize)
    (hend : endPosition σ.queue.pages startptr currentTail2 bufsize = some endptr)
    : Step bufferSize σ .consumer (σ.deliver startptr endptr)
  | pop (position : DataQueuePtr) (count : Nat) (hreturned : (position, count) ∈ σ.ends)
    (hforward : σ.popped ≤ count)
    : Step bufferSize σ .popper { σ with queue := popFromDataQueue position σ.queue, popped := count }

abbrev Run (bufferSize : Nat) (σ₀ σ : QueueState P) : Prop := Interleaving.Run (Step bufferSize) σ₀ σ

def ptrZero : DataQueuePtr := ⟨0, 0⟩

def initial : QueueState P where
  queue := { useTail1 := ptrZero, useHead2 := ptrZero, useTail2 := ptrZero, pages := Memory.zero }
  producers := fun _ => .idle
  consumer := .idle ptrZero
  lap := 0
  reserved := []
  received := []
  ends := []
  popped := 0

end Steps

end DataQueue

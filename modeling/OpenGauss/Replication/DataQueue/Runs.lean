import OpenGauss.Replication.DataQueue.Steps

/-!
This module contains the verification of the runs of the data replication queue.
-/

open List

namespace DataQueue

open Tiling

section Fifo

variable {P : Type} {bufferSize : Nat} {σ : QueueState P} {done got rest left : List Reserved} {mid : Nat}

structure QueueState.Fifo (σ : QueueState P) (bufferSize : Nat) : Prop where
  -- what has not been popped lies in the buffer, without overlaps
  ranges : ∃ done live, σ.reserved = done ++ live ∧ σ.popped = (contents done).length ∧
    live.Pairwise Reserved.Apart ∧ ∀ record ∈ live, record.start + record.len ≤ bufferSize
  -- the consumer has got the first records, none of which is still being copied
  delivered : ∃ got rest, σ.reserved = got ++ rest ∧ σ.received = contents got ∧
    ∀ p freespaceHead bytes, σ.producers p = .copying freespaceHead bytes →
      ∃ record ∈ rest, record.start = freespaceHead ∧ record.bytes = bytes
  increasing : σ.reserved.Pairwise fun record later =>
    record.lap / 2 ^ 32 = later.lap / 2 ^ 32 → record.position.ByteLT later.position
  refused : ∀ push : Push, 4 * push.len < bufferSize → DataQueue.reserve bufferSize push σ.queue = none →
    σ.popped < (contents σ.reserved).length
  -- a consumer that has seen records gets some of them
  progress : ∀ startptr currentTail2 bufsize, σ.consumer = .snapshot startptr currentTail2 →
    (∀ p, σ.producers p = .idle) → (∀ record ∈ σ.reserved, record.bytes.length ≤ bufsize) →
      ∃ endptr, endPosition σ.queue.pages startptr currentTail2 bufsize = some endptr ∧
        σ.received.length < (σ.deliver startptr endptr).received.length

namespace QueueState.Parts

variable (h : σ.Parts bufferSize done got rest left mid)
include h

theorem increasing
    : σ.reserved.Pairwise fun record later =>
        record.lap / 2 ^ 32 = later.lap / 2 ^ 32 → record.position.ByteLT later.position := by
  apply h.ordered.imp_of_mem
  intro record later hrecord hlater hbefore hepoch
  have hid := (h.ok record hrecord).queueid
  have hid' := (h.ok later hlater).queueid
  rcases hbefore with hlt | ⟨heq, hlt⟩
  . left
    rw [hid, hid']
    omega
  . right
    rw [hid, hid', heq]
    exact ⟨rfl, hlt⟩

theorem refused {push : Push} (hlen : 4 * push.len < bufferSize)
    (hreserve : DataQueue.reserve bufferSize push σ.queue = none)
    : σ.popped < (contents σ.reserved).length := by
  have hpopped := h.popped
  have hgot := h.gotSpans.eq
  have hrest := h.restSpans.eq
  have hleft := h.leftSpans.eq
  have htotal : total Reserved.len σ.reserved
      =
    total Reserved.len done + total Reserved.len got + total Reserved.len rest + total Reserved.len left := by
    rw [h.reserved, total_append, total_append, total_append]
  have hsize : (contents σ.reserved).length = total Reserved.len σ.reserved := length_contents σ.reserved
  apply Nat.lt_of_not_le
  intro hle
  exact reserve_empty h.sides hlen (by omega) (by omega) hreserve

theorem progress {startptr currentTail2 : DataQueuePtr} {bufsize : Nat}
    (hsnapshot : σ.consumer = .snapshot startptr currentTail2) (hexclusive : ∀ p, σ.producers p = .idle)
    (hbufsize : ∀ record ∈ σ.reserved, record.bytes.length ≤ bufsize)
    : ∃ endptr, endPosition σ.queue.pages startptr currentTail2 bufsize = some endptr ∧
        startptr.queueoff < endptr.queueoff ∧ endptr.queueoff < 2 ^ 32 := by
  obtain ⟨rfl, seen, unseen, rfl, hseen⟩ := h.seen hsnapshot hexclusive
  have hspans := hseen.spans
  have hle := hspans.le
  have hinside := hseen.inside
  have hsize := h.size
  cases seen with
  | nil => exact absurd rfl hseen.nonempty
  | cons first seen =>
    have hfirst := (hseen.ok first mem_cons_self).four_le
    have hfirstLe := hbufsize first
      (h.mem.mpr (Or.inr (Or.inr (Or.inl (mem_append_left unseen mem_cons_self)))))
    have hbehind := hspans.right.le
    have heq := hspans.eq
    rw [total_cons] at heq
    unfold endPosition
    rw [uint32Sub_of_le hle (by omega)]
    split
    . exact ⟨currentTail2, rfl, by omega, by omega⟩
    . next htoo =>
      obtain ⟨fitting, behind, queueoff, pageLen, hrecords, hfits, hnext, hscan, _, hfitting⟩ :=
        scanPages_spans bufsize 0 hsize hspans hseen.ok hseen.on (by omega)
      refine ⟨{ startptr with queueoff := queueoff - pageLen }, by rw [hscan]; rfl, ?_, ?_⟩
      . cases fitting with
        | nil =>
          rw [nil_append] at hrecords
          have hlt := hnext first (by rw [← hrecords]; rfl)
          have hfirstLe' : first.len ≤ bufsize := hfirstLe
          have hnone : DataQueue.size [] = 0 := rfl
          omega
        | cons first' fitting =>
          rw [cons_append] at hrecords
          injection hrecords with hsame _
          have hto := hfitting.right.le
          rw [← hsame] at hto
          show startptr.queueoff < queueoff - pageLen
          omega
      . have htotal := hfitting.eq
        show queueoff - pageLen < 2 ^ 32
        rw [htotal]
        have hsum := congrArg (total Reserved.len) hrecords
        rw [total_append, total_cons] at hsum
        omega

end QueueState.Parts

/--
The queue is a FIFO without loss: no range is used twice before it has been popped, the consumer gets the records
in the order of their reservations, and it only refuses what it has no space for.
-/
theorem dataQueue_fifo [DecidableEq P] (hsize : bufferSize < 2 ^ 32) (hrun : Run bufferSize initial σ)
    : σ.Fifo bufferSize := by
  obtain ⟨done, got, rest, left, mid, h⟩ := Run.inv hsize hrun
  constructor
  case ranges =>
    refine ⟨done, got ++ rest ++ left, ?_, ?_, h.apart, fun record hmem => h.inside_buffer hmem⟩
    . rw [h.reserved]
      simp only [List.append_assoc]
    . rw [h.popped]
      exact (length_contents done).symm
  case delivered =>
    refine ⟨done ++ got, rest ++ left, ?_, h.received, h.copying⟩
    rw [h.reserved]
    simp only [List.append_assoc]
  case increasing => exact h.increasing
  case refused => exact fun push hlen hreserve => h.refused hlen hreserve
  case progress =>
    intro startptr currentTail2 bufsize hsnapshot hexclusive hbufsize
    obtain ⟨endptr, hend, hlt, hinside⟩ := h.progress hsnapshot hexclusive hbufsize
    refine ⟨endptr, hend, ?_⟩
    have hmemLen := uint32Sub_of_le (Nat.le_of_lt hlt) hinside
    show σ.received.length < (σ.received ++ σ.queue.pages.load startptr.queueoff
      (uint32Sub endptr.queueoff startptr.queueoff)).length
    rw [List.length_append, Memory.length_load, hmemLen]
    omega

end Fifo

section Laps

/-- The size of a queue of 4 MB. -/
def queueSize : Nat := 4194304

def recordLen : Nat := 1048575

def longPush : Push := .writer (LittleEndian.encode 4 recordLen ++ replicate (recordLen - 4) 0)

theorem longPush_len : longPush.len = recordLen := by
  rw [longPush, Push.len, length_append, LittleEndian.length_encode, length_replicate]
  exact Nat.add_sub_of_le (by decide)

theorem longPush_wellFormed : longPush.WellFormed := by
  change _ = LittleEndian.encode 4 longPush.len
  rw [longPush_len]
  exact take_left' (LittleEndian.length_encode 4 recordLen)

structure Quiet (σ : QueueState Unit) (useTail1 useHead2 useTail2 : DataQueuePtr) (consumer : ConsumerPc)
    : Prop where
  run : Run queueSize initial σ
  queue : σ.queue = ⟨useTail1, useHead2, useTail2, σ.queue.pages⟩
  idle : ∀ p, σ.producers p = .idle
  consumer : σ.consumer = consumer
  popped : σ.popped ≤ σ.received.length

/-- Everything up to `position` has gone through the queue. -/
abbrev Drained (σ : QueueState Unit) (position : DataQueuePtr) : Prop :=
  Quiet σ ⟨position.queueid, 0⟩ position position (.idle position)

variable {σ : QueueState Unit} {useTail1 useHead2 useTail2 : DataQueuePtr} {consumer : ConsumerPc}
  {queueid queueoff : Nat}

/-- One record has gone through a queue that was drained up to `position`. -/
def Passed (σ : QueueState Unit) (position : DataQueuePtr) : Prop :=
  ∃ σ' record, Drained σ' position ∧ σ'.reserved = σ.reserved ++ [record] ∧ record.position = position

theorem Quiet.push (h : Quiet σ useTail1 useHead2 useTail2 consumer) {queue' : DataQueueData}
    {freespaceHead : Nat} {position : DataQueuePtr}
    (hreserve : DataQueue.reserve queueSize longPush σ.queue = some (queue', freespaceHead, position))
    : ∃ σ' record, Quiet σ' queue'.useTail1 queue'.useHead2 queue'.useTail2 consumer ∧
        σ'.reserved = σ.reserved ++ [record] ∧ record.position = position := by
  have hshort : 4 * longPush.len < queueSize := by
    rw [longPush_len]
    decide
  have hrun := (h.run.step (.producer ())
    (Step.reserve () longPush _ _ _ (h.idle ()) longPush_wellFormed hshort hreserve)).step
      (.producer ()) (Step.copy () freespaceHead (longPush.bytes position) rfl)
  exact ⟨_, _, ⟨hrun, rfl, fun _ => rfl, h.consumer, h.popped⟩, rfl, rfl⟩

theorem Quiet.deliver {useTail2 : DataQueuePtr}
    (h : Quiet σ ⟨useTail2.queueid, 0⟩ useHead2 useTail2 (.snapshot useHead2 useTail2))
    (hid : useHead2.queueid = useTail2.queueid) (hle : useTail2.queueoff ≤ queueSize)
    (hlt : useHead2.queueoff ≤ useTail2.queueoff)
    : ∃ σ', Drained σ' useTail2 ∧ σ'.reserved = σ.reserved := by
  obtain ⟨done, got, rest, left, mid, hparts⟩ := Run.inv (by decide) h.run
  have hlen := uint32Sub_of_le hlt (Nat.lt_of_le_of_lt hle (by decide))
  have hend : endPosition σ.queue.pages useHead2 useTail2 queueSize = some useTail2 :=
    if_pos (by omega)
  have hbufsize : ∀ record ∈ σ.reserved, record.bytes.length ≤ queueSize := by
    intro record hrecord
    have hshort : 4 * record.bytes.length < queueSize := (hparts.ok record hrecord).short
    omega
  have hrun := h.run.step .consumer (Step.getDeliver _ _ useTail2 queueSize h.consumer h.idle hbufsize hend)
  have hends : (useTail2, σ.received.length + uint32Sub useTail2.queueoff useHead2.queueoff) ∈
      (σ.deliver useHead2 useTail2).ends := mem_append_right σ.ends mem_cons_self
  have hrun' := hrun.step .popper (Step.pop useTail2 _ hends (Nat.le_trans h.popped (Nat.le_add_right _ _)))
  refine ⟨_, ⟨hrun', ?_, h.idle, rfl, ?_⟩, rfl⟩
  . show popFromDataQueue useTail2 σ.queue = ⟨_, _, _, (popFromDataQueue useTail2 σ.queue).pages⟩
    rw [h.queue]
    unfold popFromDataQueue
    rw [if_pos ⟨rfl, Or.inr ⟨rfl, Nat.le_refl _⟩⟩]
    dsimp only
    rw [hid]
  . show σ.received.length + _ ≤ (σ.received ++ σ.queue.pages.load useHead2.queueoff _).length
    rw [length_append, Memory.length_load]

theorem Quiet.reserve_eq (h : Drained σ ⟨queueid, queueoff⟩) (hle : queueoff ≤ queueSize)
    : DataQueue.reserve queueSize longPush σ.queue
        =
      some (if queueoff + recordLen ≤ queueSize then DataQueue.pushRight longPush σ.queue
        else DataQueue.pushLeft longPush σ.queue) := by
  have hsides : Sides queueSize σ.queue := by
    rw [h.queue]
    exact ⟨by decide, Nat.zero_le _, Nat.le_refl _, hle⟩
  rw [DataQueue.reserve_eq hsides, h.queue]
  have hfits : ∀ freespace, longPush.Fits freespace ↔ recordLen ≤ freespace := by
    intro freespace
    rw [← longPush_len]
    rfl
  simp only [hfits, DataQueuePtr.IsInvalid, and_true, Nat.sub_zero]
  by_cases hright : queueoff + recordLen ≤ queueSize
  . rw [if_pos hright, if_pos (by omega)]
  . unfold queueSize recordLen at *
    rw [if_neg hright, if_neg (by omega), if_pos (by omega)]

theorem Quiet.passRight (h : Drained σ ⟨queueid, queueoff⟩) (hle : queueoff + recordLen ≤ queueSize)
    : Passed σ ⟨queueid, queueoff + recordLen⟩ := by
  have hreserve := h.reserve_eq (by omega)
  rw [if_pos hle] at hreserve
  obtain ⟨σ₁, record, h₁, hreserved, hposition⟩ := h.push hreserve
  rw [h.queue] at h₁ hposition
  dsimp only [DataQueue.pushRight] at h₁ hposition
  rw [longPush_len] at h₁ hposition
  have hpos : 0 < recordLen := by decide
  have hstart : startFrom σ₁.queue ⟨queueid, queueoff⟩ = ⟨queueid, queueoff⟩ := by
    rw [h₁.queue]
    exact ite_self _
  have hright : ¬ σ₁.queue.useHead2.ByteEQ σ₁.queue.useTail2 := by
    rw [h₁.queue, DataQueuePtr.ByteEQ]
    dsimp only
    omega
  have hahead : ¬ σ₁.queue.useTail2.ByteLE ⟨queueid, queueoff⟩ := by
    rw [h₁.queue, DataQueuePtr.ByteLE]
    dsimp only
    omega
  have hrun := h₁.run.step .consumer (Step.getSnapshot _ h₁.consumer hright (by rwa [hstart]))
  rw [hstart, h₁.queue] at hrun
  obtain ⟨σ', hσ', hreserved'⟩ := Quiet.deliver ⟨hrun, rfl, h₁.idle, rfl, h₁.popped⟩ rfl hle (Nat.le_add_right _ _)
  exact ⟨σ', record, hσ', hreserved'.trans hreserved, hposition⟩

theorem Quiet.passLeft (h : Drained σ ⟨queueid, queueoff⟩) (hle : queueoff ≤ queueSize)
    (hlt : queueSize < queueoff + recordLen)
    : Passed σ ⟨(queueid + 1) % 2 ^ 32, recordLen⟩ := by
  have hreserve := h.reserve_eq hle
  rw [if_neg (by omega)] at hreserve
  obtain ⟨σ₁, record, h₁, hreserved, hposition⟩ := h.push hreserve
  rw [h.queue] at h₁ hposition
  dsimp only [DataQueue.pushLeft] at h₁ hposition
  rw [longPush_len, if_pos rfl, Nat.zero_add] at h₁ hposition
  have hpos : 0 < recordLen := by decide
  have hempty : σ₁.queue.useHead2.ByteEQ σ₁.queue.useTail2 := by
    rw [h₁.queue]
    exact ⟨rfl, rfl⟩
  have hleft : ¬ σ₁.queue.useTail1.IsInvalid := by
    rw [h₁.queue]
    exact Nat.ne_of_gt hpos
  have hchange := h₁.run.step .consumer (Step.getChange _ h₁.consumer hempty hleft)
  have htail := (hchange.step .consumer (Step.getRestart rfl)).step .consumer (Step.getTail _ rfl)
  dsimp only at htail
  rw [h₁.queue] at htail
  obtain ⟨σ', hσ', hreserved'⟩ := Quiet.deliver ⟨htail, rfl, h₁.idle, rfl, h₁.popped⟩ rfl (show recordLen ≤ queueSize by decide) (Nat.zero_le _)
  exact ⟨σ', record, hσ', hreserved'.trans hreserved, hposition⟩

/-- Four records to a side: the position after `n + 1` records. -/
def positionAfter (n : Nat) : DataQueuePtr := ⟨n / 4 % 2 ^ 32, (n % 4 + 1) * recordLen⟩

theorem Quiet.next {n : Nat} (h : Drained σ (positionAfter n)) : Passed σ (positionAfter (n + 1)) := by
  unfold positionAfter at *
  by_cases hside : n % 4 = 3
  . have hpass := h.passLeft (by rw [hside]; decide) (by rw [hside]; decide)
    rw [show (n + 1) / 4 % 2 ^ 32 = (n / 4 % 2 ^ 32 + 1) % 2 ^ 32 by omega, show (n + 1) % 4 = 0 by omega,
      Nat.zero_add, Nat.one_mul]
    exact hpass
  . have hpass := h.passRight (by unfold recordLen queueSize; omega)
    rw [show (n + 1) / 4 = n / 4 by omega, show (n + 1) % 4 = n % 4 + 1 by omega, Nat.add_mul _ 1, Nat.one_mul]
    exact hpass

theorem exists_drained (n : Nat) : ∃ σ record, Drained σ (positionAfter n) ∧ record ∈ σ.reserved ∧
    record.position = positionAfter n := by
  have hpassed : ∃ σ, Passed σ (positionAfter n) := by
    induction n with
    | zero =>
      have hinitial : Drained initial ⟨0, 0⟩ :=
        ⟨Interleaving.Run.refl _, rfl, fun _ => rfl, rfl, Nat.le_refl _⟩
      exact ⟨initial, hinitial.passRight (by decide)⟩
    | succ n ih =>
      obtain ⟨_, σ, _, h, _⟩ := ih
      exact ⟨σ, h.next⟩
  obtain ⟨_, σ, record, h, hreserved, hposition⟩ := hpassed
  exact ⟨σ, record, h, hreserved ▸ mem_concat_self, hposition⟩

/-- After 2 ^ 32 changes of the side, the position goes back to the start of the queue. -/
theorem position_wraps
    : ¬ ∀ σ : QueueState Unit, Run queueSize initial σ →
        σ.reserved.Pairwise fun record later => record.position.ByteLT later.position := by
  intro hall
  obtain ⟨σ, record, h, hrecord, hbefore⟩ := exists_drained (2 ^ 34 - 1)
  obtain ⟨σ', later, h', hreserved, hafter⟩ := h.next
  have hpairwise := hall σ' h'.run
  rw [hreserved, pairwise_append] at hpairwise
  have hlt := hpairwise.2.2 record hrecord later mem_cons_self
  rw [hbefore, hafter] at hlt
  exact absurd hlt (by decide)

/-- Five records have gone through the queue, the last of them through its left side. -/
theorem dataQueue_fifo_usedUp : ∃ σ : QueueState Unit, Drained σ ⟨1, recordLen⟩ ∧ σ.Fifo queueSize := by
  obtain ⟨σ, _, h, _⟩ := exists_drained 4
  exact ⟨σ, h, dataQueue_fifo (by decide) h.run⟩

end Laps

end DataQueue

import OpenGauss.Replication.DataQueue.Impl
import OpenGauss.Lib.Tiling

/-!
This module contains what the operations of the data replication queue do, and its invariant.
-/

open List LittleEndian

namespace DataQueue

open Tiling

section Pointers

theorem uint32Sub_of_le {a b : Nat} (hle : b ≤ a) (ha : a < 2 ^ 32) : uint32Sub a b = a - b := by
  unfold uint32Sub
  omega

variable {bufferSize nbytes : Nat}

theorem byteAdvance_of_le {a : DataQueuePtr} (hsize : bufferSize < 2 ^ 32)
    (hle : a.queueoff + nbytes ≤ bufferSize)
    : a.byteAdvance bufferSize nbytes = { a with queueoff := a.queueoff + nbytes } := by
  unfold DataQueuePtr.byteAdvance
  rw [uint32Sub_of_le (by omega) hsize, if_neg (by omega), Nat.mod_eq_of_lt (by omega)]

end Pointers

section Push

variable {bufferSize : Nat} {push : Push} {queue queue' : DataQueueData} {freespaceHead : Nat}
  {position : DataQueuePtr}

section

variable (hwell : push.WellFormed)
include hwell

theorem Push.length_bytes (position : DataQueuePtr) : (push.bytes position).length = push.len := by
  cases push with
  | sender dataHeader mem =>
    have hheader : (dataHeader position).length = (dataHeader ⟨0, 0⟩).length := hwell position
    simp only [Push.bytes, Push.len, length_append, length_encode, hheader]
  | writer mem => rfl

theorem Push.take_bytes (position : DataQueuePtr)
    : (push.bytes position).take 4 = encode 4 push.len := by
  cases push with
  | sender dataHeader mem =>
    dsimp only [Push.bytes]
    rw [append_assoc, take_left' (length_encode 4 _)]
    rfl
  | writer mem => exact hwell

theorem Push.four_le_len : 4 ≤ push.len := by
  have htake := congrArg List.length (push.take_bytes hwell ⟨0, 0⟩)
  rw [length_take, push.length_bytes hwell, length_encode] at htake
  omega

end

theorem Push.le_of_fits {freespace : Nat} (h : push.Fits freespace) : push.len ≤ freespace := by
  cases push with
  | sender dataHeader mem => exact Nat.le_of_lt h
  | writer mem => exact h

theorem Push.lt_of_not_fits {freespace : Nat} (h : ¬ push.Fits freespace) : freespace ≤ push.len := by
  cases push with
  | sender dataHeader mem => exact Nat.le_of_not_lt h
  | writer mem => exact Nat.le_of_lt (Nat.lt_of_not_le h)

structure Sides (bufferSize : Nat) (queue : DataQueueData) : Prop where
  size : bufferSize < 2 ^ 32
  below : queue.useTail1.queueoff ≤ queue.useHead2.queueoff
  ordered : queue.useHead2.queueoff ≤ queue.useTail2.queueoff
  inside : queue.useTail2.queueoff ≤ bufferSize

def pushRight (push : Push) (queue : DataQueueData) : DataQueueData × Nat × DataQueuePtr :=
  let position := ⟨queue.useTail2.queueid, queue.useTail2.queueoff + push.len⟩
  ({ queue with useTail2 := position }, queue.useTail2.queueoff, position)

def pushLeft (push : Push) (queue : DataQueueData) : DataQueueData × Nat × DataQueuePtr :=
  let position :=
    ⟨if queue.useTail1.queueoff = 0 then (queue.useTail1.queueid + 1) % 2 ^ 32 else queue.useTail1.queueid,
      queue.useTail1.queueoff + push.len⟩
  ({ queue with useTail1 := position }, queue.useTail1.queueoff, position)

variable (hsides : Sides bufferSize queue)
include hsides

theorem reserve_eq (push : Push)
    : reserve bufferSize push queue
        =
      if push.Fits (bufferSize - queue.useTail2.queueoff) ∧ queue.useTail1.IsInvalid then
        some (pushRight push queue)
      else if push.Fits (queue.useHead2.queueoff - queue.useTail1.queueoff) then
        some (pushLeft push queue)
      else
        none := by
  have hsize := hsides.size
  have hbelow := hsides.below
  have hordered := hsides.ordered
  have hinside := hsides.inside
  unfold reserve
  rw [uint32Sub_of_le hinside hsize, uint32Sub_of_le hbelow (by omega)]
  split
  . next hright =>
    have hle := push.le_of_fits hright.left
    rw [byteAdvance_of_le hsize (by omega)]
    rfl
  . split
    . next hfits =>
      have hle := push.le_of_fits hfits
      by_cases hinvalid : queue.useTail1.IsInvalid
      . have hzero : queue.useTail1.queueoff = 0 := hinvalid
        have hle' : queue.useTail1.nextQueue.queueoff + push.len ≤ bufferSize := by
          show queue.useTail1.queueoff + push.len ≤ bufferSize
          omega
        unfold pushLeft
        rw [if_pos hinvalid, if_pos hzero]
        dsimp only
        rw [byteAdvance_of_le hsize hle']
        rfl
      . have hvalid : ¬ queue.useTail1.queueoff = 0 := hinvalid
        unfold pushLeft
        rw [if_neg hinvalid, if_neg hvalid]
        dsimp only
        rw [byteAdvance_of_le hsize (by omega)]
    . rfl

theorem reserve_cases (h : reserve bufferSize push queue = some (queue', freespaceHead, position))
    : (queue.useTail1.queueoff = 0 ∧ queue.useTail2.queueoff + push.len ≤ bufferSize ∧
        (queue', freespaceHead, position) = pushRight push queue) ∨
      (queue.useTail1.queueoff + push.len ≤ queue.useHead2.queueoff ∧
        (queue', freespaceHead, position) = pushLeft push queue) := by
  have hbelow := hsides.below
  have hinside := hsides.inside
  rw [reserve_eq hsides] at h
  split at h
  . next hright =>
    have hle := push.le_of_fits hright.left
    exact Or.inl ⟨hright.right, by omega, (Option.some.inj h).symm⟩
  . split at h
    . next hfits =>
      have hle := push.le_of_fits hfits
      exact Or.inr ⟨by omega, (Option.some.inj h).symm⟩
    . cases h

theorem reserve_empty (hlen : 4 * push.len < bufferSize)
    (hright : queue.useHead2.queueoff = queue.useTail2.queueoff) (hleft : queue.useTail1.queueoff = 0)
    : reserve bufferSize push queue ≠ none := by
  have hinside := hsides.inside
  rw [reserve_eq hsides]
  split
  . exact Option.some_ne_none _
  . next hnot =>
    split
    . exact Option.some_ne_none _
    . next hnot' =>
      have hfull : ¬ push.Fits (bufferSize - queue.useTail2.queueoff) := fun hfits => hnot ⟨hfits, hleft⟩
      have hle := push.lt_of_not_fits hfull
      have hle' := push.lt_of_not_fits hnot'
      omega

end Push

section Records

namespace Reserved

variable (record : Reserved)

def len : Nat := record.bytes.length

structure Ok (bufferSize : Nat) : Prop where
  four_le : 4 ≤ record.len
  short : 4 * record.len < bufferSize
  inBand : record.bytes.take 4 = LittleEndian.encode 4 record.len
  finish : record.position.queueoff = record.start + record.len
  queueid : record.position.queueid = record.lap % 2 ^ 32

def On (pages : Memory) : Prop := pages.load record.start record.len = record.bytes

end Reserved

abbrev Spans (a : Nat) (records : List Reserved) (b : Nat) : Prop :=
    Tiles Reserved.start Reserved.len a records b

abbrev size (records : List Reserved) : Nat := total Reserved.len records

def contents (records : List Reserved) : Bytes := records.flatMap Reserved.bytes

variable {bufferSize a b : Nat} {records : List Reserved} {pages : Memory}

@[simp]
theorem contents_append (xs ys : List Reserved) : contents (xs ++ ys) = contents xs ++ contents ys :=
  flatMap_append

@[simp]
theorem length_contents (records : List Reserved) : (contents records).length = size records := by
  induction records with
  | nil => rfl
  | cons record records ih =>
    have hcons : contents (record :: records) = record.bytes ++ contents records := flatMap_cons
    rw [hcons, length_append, ih]
    rfl

theorem load_contents (hspans : Spans a records b) (hon : ∀ record ∈ records, record.On pages)
    : pages.load a (b - a) = contents records := by
  induction records generalizing a with
  | nil =>
    have heq : a = b := hspans
    rw [heq, Nat.sub_self]
    rfl
  | cons record records ih =>
    have hle := hspans.right.le
    have hsplit : b - a = record.len + (b - (a + record.len)) := by omega
    have hrest := ih hspans.right (fun r hr => hon r (mem_cons_of_mem record hr))
    have hrecord : pages.load a record.len = record.bytes := by
      have hon' := hon record mem_cons_self
      unfold Reserved.On at hon'
      rw [hspans.left] at hon'
      exact hon'
    rw [hsplit, Memory.load_append, hrecord, hrest]
    rfl

theorem readPageLen_record {record : Reserved} (hok : record.Ok bufferSize) (hsize : bufferSize < 2 ^ 32)
    (hon : record.On pages)
    : readPageLen pages record.start = record.len := by
  have hfour := hok.four_le
  have hshort := hok.short
  have hsplit : record.len = 4 + (record.len - 4) := by omega
  have hload : pages.load record.start 4 = encode 4 record.len := by
    rw [← hok.inBand, ← hon, hsplit, Memory.load_append, take_left' (Memory.length_load _ _ _)]
  have hlt : record.len < 256 ^ 4 := by omega
  unfold readPageLen
  rw [hload, decode_encode_of_lt hlt]

theorem scanPages_spans (bufsize pageLen : Nat) (hsize : bufferSize < 2 ^ 32) (hspans : Spans a records b)
    (hok : ∀ record ∈ records, record.Ok bufferSize) (hon : ∀ record ∈ records, record.On pages)
    (htoo : bufsize < b - a)
    : ∃ fitting behind queueoff pageLen', records = fitting ++ behind ∧ size fitting ≤ bufsize ∧
        (∀ record ∈ behind.head?, bufsize < size fitting + record.len) ∧
        scanPages pages a bufsize pageLen = some (queueoff, pageLen') ∧ pageLen' ≤ queueoff ∧
        Spans a fitting (queueoff - pageLen') := by
  induction records generalizing a bufsize pageLen with
  | nil =>
    have heq : a = b := hspans
    omega
  | cons record records ih =>
    obtain ⟨hstart, hrest⟩ := hspans
    have hokRecord := hok record mem_cons_self
    have hread := readPageLen_record hokRecord hsize (hon record mem_cons_self)
    have hfour := hokRecord.four_le
    rw [hstart] at hread
    rw [scanPages, if_pos (Int.natCast_nonneg bufsize), hread, if_pos (by omega)]
    by_cases hlast : bufsize < record.len
    . refine ⟨[], record :: records, a + record.len, record.len, rfl, Nat.zero_le _, ?_, ?_, by omega, ?_⟩
      . intro r hr
        obtain rfl := Option.some.inj hr
        show bufsize < 0 + record.len
        omega
      . rw [scanPages, if_neg (by omega)]
      . show a = a + record.len - record.len
        omega
    . have hcast : (bufsize : Int) - record.len = ((bufsize - record.len : Nat) : Int) := by omega
      have hle := hrest.le
      obtain ⟨fitting, behind, queueoff, pageLen', heq, hfits, hnext, hscan, hback, hspans'⟩ :=
        ih (bufsize - record.len) record.len hrest (fun r hr => hok r (mem_cons_of_mem record hr))
          (fun r hr => hon r (mem_cons_of_mem record hr)) (by omega)
      refine ⟨record :: fitting, behind, queueoff, pageLen', by rw [heq]; rfl, ?_, ?_, ?_, hback, hstart,
        hspans'⟩
      . show record.len + size fitting ≤ bufsize
        omega
      . intro r hr
        have hlt := hnext r hr
        show bufsize < record.len + size fitting + r.len
        omega
      . rw [hcast]
        exact hscan

end Records

variable {P : Type} {record : Reserved}

/-- A record comes before another one in the order of positions, where the laps are not cut to 32 bits. -/
def Reserved.Before (record later : Reserved) : Prop :=
  record.lap < later.lap ∨ record.lap = later.lap ∧ record.position.queueoff < later.position.queueoff

def Reserved.Apart (record other : Reserved) : Prop :=
  record.start + record.len ≤ other.start ∨ other.start + other.len ≤ record.start

instance : Std.Symm Reserved.Apart := ⟨fun _ _ h => h.symm⟩

namespace QueueState

variable (σ : QueueState P)

def lastTail : Nat :=
  if σ.queue.useTail1.queueoff = 0 then σ.queue.useTail2.queueoff else σ.queue.useTail1.queueoff

structure At (startptr : DataQueuePtr) (mid : Nat) : Prop where
  queueoff : startptr.queueoff = mid
  queueid : startptr.queueid = σ.queue.useTail2.queueid

/-- What the consumer knows, with the right side from `mid` on in front of it. -/
def ConsumerKnows (rest : List Reserved) (mid : Nat) : Prop :=
  match σ.consumer with
  | .idle startptr => startptr.queueoff = mid ∧ (mid = 0 ∨ startptr.queueid = σ.queue.useTail2.queueid)
  | .changed => mid = σ.queue.useHead2.queueoff ∧ rest ≠ []
  | .restarted startptr => σ.At startptr mid ∧ rest ≠ []
  | .snapshot startptr currentTail2 =>
    σ.At startptr mid ∧ currentTail2.queueid = σ.queue.useTail2.queueid ∧
      ∃ seen unseen, rest = seen ++ unseen ∧ seen ≠ [] ∧ Spans mid seen currentTail2.queueoff

/-- An end position is one of the right side, or the last one before the sides changed. -/
def EndKnown (done got : List Reserved) (position : DataQueuePtr) (count : Nat) : Prop :=
  ∃ got₁ got₂, got = got₁ ++ got₂ ∧ count = size done + size got₁ ∧
    (position.queueid = σ.queue.useTail2.queueid ∧ Spans σ.queue.useHead2.queueoff got₁ position.queueoff ∨
      got₁ = [] ∧ σ.queue.useHead2.queueoff = 0 ∧ position.queueid ≠ σ.queue.useTail2.queueid)

/-- The parts of the queue: popped records, received ones, the other ones of the right side, the left side. -/
structure Parts (bufferSize : Nat) (done got rest left : List Reserved) (mid : Nat) : Prop where
  size : bufferSize < 2 ^ 32
  reserved : σ.reserved = done ++ got ++ rest ++ left
  received : σ.received = contents (done ++ got)
  popped : σ.popped = total Reserved.len done
  gotSpans : Spans σ.queue.useHead2.queueoff got mid
  restSpans : Spans mid rest σ.queue.useTail2.queueoff
  leftSpans : Spans 0 left σ.queue.useTail1.queueoff
  below : σ.queue.useTail1.queueoff ≤ σ.queue.useHead2.queueoff
  inside : σ.queue.useTail2.queueoff ≤ bufferSize
  ok : ∀ record ∈ σ.reserved, record.Ok bufferSize
  headId : σ.queue.useHead2.queueid = σ.queue.useTail2.queueid
  tail1Id : σ.queue.useTail1.queueid = σ.lap % 2 ^ 32
  tail2Id : σ.queue.useTail2.queueid = (if σ.queue.useTail1.queueoff = 0 then σ.lap else σ.lap - 1) % 2 ^ 32
  lap_pos : σ.queue.useTail1.queueoff ≠ 0 → 0 < σ.lap
  ordered : σ.reserved.Pairwise Reserved.Before
  last : ∀ record ∈ σ.reserved,
    record.lap < σ.lap ∨ record.lap = σ.lap ∧ record.position.queueoff ≤ σ.lastTail
  copied : ∀ record ∈ got ++ rest ++ left,
    record.On σ.queue.pages ∨ ∃ p, σ.producers p = .copying record.start record.bytes
  copying : ∀ p freespaceHead bytes, σ.producers p = .copying freespaceHead bytes →
    ∃ record ∈ rest ++ left, record.start = freespaceHead ∧ record.bytes = bytes
  consumer : σ.ConsumerKnows rest mid
  ends : ∀ position count, (position, count) ∈ σ.ends → σ.popped ≤ count → σ.EndKnown done got position count

def Inv (bufferSize : Nat) : Prop := ∃ done got rest left mid, σ.Parts bufferSize done got rest left mid

variable {σ} (σ' : QueueState P) {done got rest : List Reserved} {mid : Nat}

theorem ConsumerKnows.append (h : σ.ConsumerKnows rest mid) (hconsumer : σ'.consumer = σ.consumer)
    (hhead : σ'.queue.useHead2.queueoff = σ.queue.useHead2.queueoff)
    (hid : σ'.queue.useTail2.queueid = σ.queue.useTail2.queueid) (more : List Reserved)
    : σ'.ConsumerKnows (rest ++ more) mid := by
  unfold ConsumerKnows at h ⊢
  rw [hconsumer]
  cases hpc : σ.consumer with
  | idle startptr =>
    rw [hpc] at h
    dsimp only at h ⊢
    rw [hid]
    exact h
  | changed =>
    rw [hpc] at h
    dsimp only at h ⊢
    rw [hhead]
    exact ⟨h.left, append_ne_nil_of_left_ne_nil h.right more⟩
  | restarted startptr =>
    rw [hpc] at h
    exact ⟨⟨h.left.queueoff, h.left.queueid.trans hid.symm⟩, append_ne_nil_of_left_ne_nil h.right more⟩
  | snapshot startptr currentTail2 =>
    rw [hpc] at h
    obtain ⟨hat, htail, seen, unseen, hrest, hseen, hspans⟩ := h
    refine ⟨⟨hat.queueoff, hat.queueid.trans hid.symm⟩, htail.trans hid.symm, seen, unseen ++ more, ?_, hseen,
      hspans⟩
    rw [hrest, append_assoc]

theorem ConsumerKnows.congr (h : σ.ConsumerKnows rest mid) (hconsumer : σ'.consumer = σ.consumer)
    (hhead : σ'.queue.useHead2.queueoff = σ.queue.useHead2.queueoff)
    (hid : σ'.queue.useTail2.queueid = σ.queue.useTail2.queueid)
    : σ'.ConsumerKnows rest mid := by
  have happend := h.append σ' hconsumer hhead hid []
  rw [append_nil] at happend
  exact happend

theorem EndKnown.congr {position : DataQueuePtr} {count : Nat} (h : σ.EndKnown done got position count)
    (hhead : σ'.queue.useHead2.queueoff = σ.queue.useHead2.queueoff)
    (hid : σ'.queue.useTail2.queueid = σ.queue.useTail2.queueid)
    : σ'.EndKnown done got position count := by
  unfold EndKnown at h ⊢
  rw [hhead, hid]
  exact h

end QueueState

section Parts

variable {bufferSize : Nat} {σ : QueueState P} {done got rest left : List Reserved} {mid : Nat}

namespace QueueState.Parts

variable (h : σ.Parts bufferSize done got rest left mid)
include h

theorem sides : Sides bufferSize σ.queue := { h with
  ordered := Nat.le_trans h.gotSpans.le h.restSpans.le }

theorem mem
    : record ∈ σ.reserved ↔ record ∈ done ∨ record ∈ got ∨ record ∈ rest ∨ record ∈ left := by
  rw [h.reserved]
  simp

theorem len_pos (hmem : record ∈ σ.reserved) : 0 < record.len := by
  have hfour := (h.ok record hmem).four_le
  omega

theorem left_eq_nil (hzero : σ.queue.useTail1.queueoff = 0) : left = [] := by
  have hspans := h.leftSpans
  rw [hzero] at hspans
  apply hspans.eq_nil
  intro record hrecord
  exact h.len_pos (h.mem.mpr (Or.inr (Or.inr (Or.inr hrecord))))

theorem right_eq_nil (heq : σ.queue.useHead2.queueoff = σ.queue.useTail2.queueoff)
    : got = [] ∧ rest = [] ∧ mid = σ.queue.useHead2.queueoff := by
  have hright := h.gotSpans.append h.restSpans
  rw [← heq] at hright
  have hnil : got ++ rest = [] := by
    apply hright.eq_nil
    intro record hrecord
    rcases mem_append.mp hrecord with hgot | hrest
    . exact h.len_pos (h.mem.mpr (Or.inr (Or.inl hgot)))
    . exact h.len_pos (h.mem.mpr (Or.inr (Or.inr (Or.inl hrest))))
  obtain ⟨hgot, hrest⟩ := append_eq_nil_iff.mp hnil
  have hspans := h.gotSpans
  rw [hgot] at hspans
  exact ⟨hgot, hrest, hspans.symm⟩

theorem apart : (got ++ rest ++ left).Pairwise Reserved.Apart := by
  have hright := h.gotSpans.append h.restSpans
  have hbelow := h.below
  apply pairwise_append.mpr
  refine ⟨hright.pairwise.imp Or.inl, h.leftSpans.pairwise.imp Or.inl, ?_⟩
  intro record hrecord other hother
  have hfrom := (hright.mem hrecord).left
  have hto := (h.leftSpans.mem hother).right
  right
  omega

theorem inside_buffer (hmem : record ∈ got ++ rest ++ left)
    : record.start + record.len ≤ bufferSize := by
  have hright := h.gotSpans.append h.restSpans
  have hbelow := h.below
  have hinside := h.inside
  have hle := hright.le
  rcases mem_append.mp hmem with hmem | hmem
  . exact Nat.le_trans (hright.mem hmem).right hinside
  . have hto := (h.leftSpans.mem hmem).right
    omega

theorem on_store {other : Reserved}
    (hrecord : record ∈ got ++ rest ++ left) (hother : other ∈ got ++ rest ++ left)
    (hon : record.On σ.queue.pages ∨ record.start = other.start ∧ record.bytes = other.bytes)
    : record.On (σ.queue.pages.store other.start other.bytes) := by
  by_cases hsame : record.start = other.start ∧ record.bytes = other.bytes
  . unfold Reserved.On Reserved.len
    rw [hsame.left, hsame.right]
    exact Memory.load_store_self _ _ _
  . have hne : record ≠ other := fun heq => hsame ⟨congrArg Reserved.start heq, congrArg Reserved.bytes heq⟩
    have hapart := h.apart.forall hrecord hother hne
    have hload := hon.resolve_right hsame
    unfold Reserved.On
    rw [Memory.load_store_of_disjoint hapart]
    exact hload

theorem lap_le (hmem : record ∈ σ.reserved) : record.lap ≤ σ.lap := by
  rcases h.last record hmem with hlt | ⟨heq, _⟩
  . exact Nat.le_of_lt hlt
  . exact Nat.le_of_eq heq

end QueueState.Parts

end Parts

end DataQueue

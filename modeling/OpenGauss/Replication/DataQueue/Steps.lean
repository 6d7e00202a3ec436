import OpenGauss.Replication.DataQueue.Lemmas

/-!
This module contains the proof that every step of the data replication queue keeps its invariant.
-/

open List

namespace DataQueue

open Tiling

variable {P : Type} {bufferSize : Nat} {σ : QueueState P}
  {done got rest left : List Reserved} {mid : Nat}

variable {startptr currentTail2 : DataQueuePtr}

section Reserve

variable {p : P} {record : Reserved}

section

variable (h : σ.Parts bufferSize done got rest left mid)
include h

theorem QueueState.Parts.ok_concat (hok : record.Ok bufferSize)
    : ∀ r ∈ σ.reserved ++ [record], r.Ok bufferSize := by
  intro r hr
  rcases mem_append.mp hr with hold | hnew
  . exact h.ok r hold
  . rw [mem_singleton.mp hnew]
    exact hok

theorem QueueState.Parts.ordered_concat (hlater : ∀ r ∈ σ.reserved, r.Before record)
    : (σ.reserved ++ [record]).Pairwise Reserved.Before := by
  apply pairwise_append.mpr
  refine ⟨h.ordered, pairwise_singleton _ _, ?_⟩
  intro r hr r' hr'
  rw [mem_singleton.mp hr']
  exact hlater r hr

end

variable [DecidableEq P]

def QueueState.add (σ : QueueState P) (p : P) (queue' : DataQueueData) (record : Reserved) : QueueState P :=
  { σ with
    queue := queue'
    producers := Function.update σ.producers p (.copying record.start record.bytes)
    lap := record.lap
    reserved := σ.reserved ++ [record] }

section

variable (h : σ.Parts bufferSize done got rest left mid)
include h

theorem QueueState.Parts.copied_add (hidle : σ.producers p = .idle)
    {r : Reserved} (hr : r ∈ got ++ rest ++ left ∨ r = record)
    : r.On σ.queue.pages ∨ ∃ q, Function.update σ.producers p (.copying record.start record.bytes) q =
        .copying r.start r.bytes := by
  rcases hr with hr | rfl
  . rcases h.copied r hr with hon | ⟨q, hq⟩
    . exact Or.inl hon
    . right
      use q
      have hne : q ≠ p := by
        rintro rfl
        rw [hidle] at hq
        cases hq
      rw [Function.update_of_ne hne, hq]
  . right
    use p
    rw [Function.update_self]

theorem QueueState.Parts.copying_add {q : P} {freespaceHead : Nat} {bytes : Bytes}
    (hq : Function.update σ.producers p (.copying record.start record.bytes) q = .copying freespaceHead bytes)
    : ∃ r, (r ∈ rest ++ left ∨ r = record) ∧ r.start = freespaceHead ∧ r.bytes = bytes := by
  by_cases hqp : q = p
  . rw [hqp, Function.update_self] at hq
    cases hq
    exact ⟨record, Or.inr rfl, rfl, rfl⟩
  . rw [Function.update_of_ne hqp] at hq
    obtain ⟨r, hr, hstart, hbytes⟩ := h.copying q freespaceHead bytes hq
    exact ⟨r, Or.inl hr, hstart, hbytes⟩

variable (hidle : σ.producers p = .idle)
include hidle

theorem QueueState.Parts.addRight (hok : record.Ok bufferSize) (hinvalid : σ.queue.useTail1.queueoff = 0)
    (hstart : record.start = σ.queue.useTail2.queueoff) (hinside : record.start + record.len ≤ bufferSize)
    (hid : record.position.queueid = σ.queue.useTail2.queueid) (hlap : record.lap = σ.lap)
    : (σ.add p { σ.queue with useTail2 := record.position } record).Parts bufferSize done got
      (rest ++ [record])
        left mid := by
  have hleft := h.left_eq_nil hinvalid
  have hrest := h.restSpans.concat hstart
  have hlen : 0 < record.len := Nat.lt_of_lt_of_le (by decide) hok.four_le
  exact { h with
    reserved := by
      show σ.reserved ++ [record] = done ++ got ++ (rest ++ [record]) ++ left
      rw [h.reserved, hleft]
      simp
    restSpans := by
      show Spans mid (rest ++ [record]) record.position.queueoff
      rw [hok.finish, hstart]
      exact hrest
    inside := by
      show record.position.queueoff ≤ bufferSize
      rw [hok.finish]
      exact hinside
    ok := h.ok_concat hok
    headId := h.headId.trans hid.symm
    tail1Id := by
      show σ.queue.useTail1.queueid = record.lap % 2 ^ 32
      rw [hlap]
      exact h.tail1Id
    tail2Id := by
      show record.position.queueid = (if σ.queue.useTail1.queueoff = 0 then record.lap else record.lap - 1) % 2 ^ 32
      rw [hlap, hid]
      exact h.tail2Id
    lap_pos := fun hvalid => absurd hinvalid hvalid
    ordered := by
      apply h.ordered_concat
      intro r hr
      unfold Reserved.Before
      rw [hlap, hok.finish, hstart]
      rcases h.last r hr with hlt | ⟨heq, hle⟩
      . exact Or.inl hlt
      . unfold QueueState.lastTail at hle
        rw [if_pos hinvalid] at hle
        exact Or.inr ⟨heq, by omega⟩
    last := by
      intro r hr
      unfold QueueState.lastTail
      show r.lap < record.lap ∨ r.lap = record.lap ∧
        r.position.queueoff ≤ if σ.queue.useTail1.queueoff = 0 then record.position.queueoff
          else σ.queue.useTail1.queueoff
      rw [if_pos hinvalid, hlap]
      rcases mem_append.mp hr with hold | hnew
      . rcases h.last r hold with hlt | ⟨heq, hle⟩
        . exact Or.inl hlt
        . unfold QueueState.lastTail at hle
          rw [if_pos hinvalid] at hle
          rw [hok.finish, hstart]
          exact Or.inr ⟨heq, by omega⟩
      . rw [mem_singleton.mp hnew]
        exact Or.inr ⟨hlap, Nat.le_refl _⟩
    copied := by
      intro r hr
      apply h.copied_add hidle
      simp only [mem_append, mem_singleton] at hr ⊢
      tauto
    copying := by
      intro q freespaceHead bytes hq
      obtain ⟨r, hr, hfound⟩ := h.copying_add hq
      refine ⟨r, ?_, hfound⟩
      simp only [mem_append, mem_singleton] at hr ⊢
      tauto
    consumer := h.consumer.append (σ.add p { σ.queue with useTail2 := record.position } record) rfl rfl hid [record]
    ends := fun position count hend hle => (h.ends position count hend hle).congr _ rfl hid }

theorem QueueState.Parts.addLeft
    (hok : record.Ok bufferSize) (hstart : record.start = σ.queue.useTail1.queueoff)
    (hbelow : record.start + record.len ≤ σ.queue.useHead2.queueoff)
    (hlap : record.lap = if σ.queue.useTail1.queueoff = 0 then σ.lap + 1 else σ.lap)
    : (σ.add p { σ.queue with useTail1 := record.position } record).Parts bufferSize done got rest
        (left ++ [record]) mid := by
  have hlen : 0 < record.len := Nat.lt_of_lt_of_le (by decide) hok.four_le
  have hvalid : record.position.queueoff ≠ 0 := by
    rw [hok.finish]
    omega
  have hlapPos : 0 < record.lap := by
    rw [hlap]
    split
    . omega
    . next hne => exact h.lap_pos hne
  have hlater : ∀ r ∈ σ.reserved, r.lap < record.lap ∨
      r.lap = record.lap ∧ r.position.queueoff ≤ σ.queue.useTail1.queueoff := by
    intro r hr
    rw [hlap]
    split
    . have hle := h.lap_le hr
      exact Or.inl (by omega)
    . next hne =>
      rcases h.last r hr with hlt | ⟨heq, hle⟩
      . exact Or.inl hlt
      . unfold QueueState.lastTail at hle
        rw [if_neg hne] at hle
        exact Or.inr ⟨heq, hle⟩
  exact { h with
    reserved := by
      show σ.reserved ++ [record] = done ++ got ++ rest ++ (left ++ [record])
      rw [h.reserved, append_assoc]
    leftSpans := by
      show Spans 0 (left ++ [record]) record.position.queueoff
      rw [hok.finish, hstart]
      exact h.leftSpans.concat hstart
    below := by
      show record.position.queueoff ≤ σ.queue.useHead2.queueoff
      rw [hok.finish]
      exact hbelow
    ok := h.ok_concat hok
    tail1Id := hok.queueid
    tail2Id := by
      show σ.queue.useTail2.queueid = (if record.position.queueoff = 0 then record.lap else record.lap - 1) % 2 ^ 32
      rw [if_neg hvalid, h.tail2Id, hlap]
      split
      . rfl
      . rfl
    lap_pos := fun _ => hlapPos
    ordered := by
      apply h.ordered_concat
      intro r hr
      unfold Reserved.Before
      rw [hok.finish, hstart]
      rcases hlater r hr with hlt | ⟨heq, hle⟩
      . exact Or.inl hlt
      . exact Or.inr ⟨heq, by omega⟩
    last := by
      intro r hr
      unfold QueueState.lastTail
      show r.lap < record.lap ∨ r.lap = record.lap ∧
        r.position.queueoff ≤ if record.position.queueoff = 0 then σ.queue.useTail2.queueoff
          else record.position.queueoff
      rw [if_neg hvalid]
      rcases mem_append.mp hr with hold | hnew
      . rcases hlater r hold with hlt | ⟨heq, hle⟩
        . exact Or.inl hlt
        . rw [hok.finish, hstart]
          exact Or.inr ⟨heq, by omega⟩
      . rw [mem_singleton.mp hnew]
        exact Or.inr ⟨rfl, Nat.le_refl _⟩
    copied := by
      intro r hr
      apply h.copied_add hidle
      simp only [mem_append, mem_singleton] at hr ⊢
      tauto
    copying := by
      intro q freespaceHead bytes hq
      obtain ⟨r, hr, hfound⟩ := h.copying_add hq
      refine ⟨r, ?_, hfound⟩
      simp only [mem_append, mem_singleton] at hr ⊢
      tauto
    consumer := by
      exact h.consumer.congr (σ.add p { σ.queue with useTail1 := record.position } record) rfl rfl rfl
    ends := fun position count hend hle => (h.ends position count hend hle).congr _ rfl rfl }

end

theorem Inv.reserve {push : Push} {queue' : DataQueueData} {freespaceHead : Nat} {position : DataQueuePtr}
    (h : σ.Inv bufferSize) (hidle : σ.producers p = .idle) (hwell : push.WellFormed)
    (hlen : 4 * push.len < bufferSize)
    (hreserve : DataQueue.reserve bufferSize push σ.queue = some (queue', freespaceHead, position))
    : (σ.reserve p push queue' freespaceHead position).Inv bufferSize := by
  obtain ⟨done, got, rest, left, mid, h⟩ := h
  have hstate : σ.reserve p push queue' freespaceHead position
      =
    σ.add p queue' ⟨freespaceHead, push.bytes position, position, σ.nextLap queue'⟩ :=
    rfl
  have hrecord : (Reserved.mk freespaceHead (push.bytes position) position (σ.nextLap queue')).len =
    push.len :=
    push.length_bytes hwell position
  have hpos := push.four_le_len hwell
  have hok : position.queueoff = freespaceHead + push.len → position.queueid = σ.nextLap queue' % 2 ^ 32 →
      (Reserved.mk freespaceHead (push.bytes position) position (σ.nextLap queue')).Ok bufferSize := by
    intro hfinish hid
    constructor
    case four_le => rwa [hrecord]
    case short => rwa [hrecord]
    case inBand =>
      rw [hrecord]
      exact push.take_bytes hwell position
    case finish => rwa [hrecord]
    case queueid => exact hid
  rcases reserve_cases h.sides hreserve with ⟨hinvalid, hfits, hpush⟩ | ⟨hfits, hpush⟩
  . have hposition : position = ⟨σ.queue.useTail2.queueid, σ.queue.useTail2.queueoff + push.len⟩ :=
      congrArg (fun result => result.2.2) hpush
    have hqueue : queue' = { σ.queue with useTail2 := position } := by
      rw [hposition]
      exact congrArg Prod.fst hpush
    have hstart : freespaceHead = σ.queue.useTail2.queueoff := congrArg (fun result => result.2.1) hpush
    subst hqueue hstart
    have hlap : σ.nextLap { σ.queue with useTail2 := position } = σ.lap := by
      unfold QueueState.nextLap
      rw [if_neg]
      rintro ⟨_, hvalid⟩
      exact hvalid hinvalid
    rw [hstate]
    refine ⟨done, got, rest ++ [_], left, mid, h.addRight hidle (hok ?_ ?_) hinvalid rfl ?_ ?_ hlap⟩
    . rw [hposition]
    . rw [hlap, hposition, h.tail2Id, if_pos hinvalid]
    . rw [hrecord]
      exact hfits
    . rw [hposition]
  . have hposition : position
        =
      ⟨if σ.queue.useTail1.queueoff = 0 then (σ.queue.useTail1.queueid + 1) % 2 ^ 32
        else σ.queue.useTail1.queueid, σ.queue.useTail1.queueoff + push.len⟩ :=
      congrArg (fun result => result.2.2) hpush
    have hqueue : queue' = { σ.queue with useTail1 := position } := by
      rw [hposition]
      exact congrArg Prod.fst hpush
    have hstart : freespaceHead = σ.queue.useTail1.queueoff := congrArg (fun result => result.2.1) hpush
    subst hqueue hstart
    have hlap : σ.nextLap { σ.queue with useTail1 := position }
        =
      if σ.queue.useTail1.queueoff = 0 then σ.lap + 1 else σ.lap := by
      have hvalid : ¬ position.IsInvalid := by
        unfold DataQueuePtr.IsInvalid
        rw [hposition]
        show ¬ σ.queue.useTail1.queueoff + push.len = 0
        omega
      unfold QueueState.nextLap
      split
      . next hstarted => exact (if_pos hstarted.left).symm
      . next hnot => exact (if_neg (fun hinvalid => hnot ⟨hinvalid, hvalid⟩)).symm
    rw [hstate]
    refine ⟨done, got, rest, left ++ [_], mid, h.addLeft hidle (hok ?_ ?_) rfl ?_ hlap⟩
    . rw [hposition]
    . rw [hlap, hposition, h.tail1Id]
      by_cases hinvalid : σ.queue.useTail1.queueoff = 0
      . rw [if_pos hinvalid, if_pos hinvalid]
        exact Nat.mod_add_mod σ.lap (2 ^ 32) 1
      . rw [if_neg hinvalid, if_neg hinvalid]
    . rw [hrecord]
      exact hfits

end Reserve

section Copy

variable [DecidableEq P] {p : P} {freespaceHead : Nat} {bytes : Bytes}

theorem Inv.copy (h : σ.Inv bufferSize) (hcopying : σ.producers p = .copying freespaceHead bytes)
    : (σ.copy p freespaceHead bytes).Inv bufferSize := by
  obtain ⟨done, got, rest, left, mid, h⟩ := h
  obtain ⟨other, hother, rfl, rfl⟩ := h.copying p freespaceHead bytes hcopying
  have hlive : other ∈ got ++ rest ++ left := by
    rw [append_assoc]
    exact mem_append_right got hother
  refine ⟨done, got, rest, left, mid, ?_⟩
  exact { h with
    copied := by
      intro r hr
      rcases h.copied r hr with hon | ⟨q, hq⟩
      . exact Or.inl (h.on_store hr hlive (Or.inl hon))
      . by_cases hqp : q = p
        . rw [hqp, hcopying] at hq
          injection hq with hstart hbytes
          exact Or.inl (h.on_store hr hlive (Or.inr ⟨hstart.symm, hbytes.symm⟩))
        . right
          use q
          show Function.update σ.producers p .idle q = .copying r.start r.bytes
          rw [Function.update_of_ne hqp, hq]
    copying := by
      intro q freespaceHead bytes hq
      have hqp : q ≠ p := by
        rintro rfl
        have hidle : Function.update σ.producers q .idle q = .copying freespaceHead bytes := hq
        rw [Function.update_self] at hidle
        cases hidle
      have hsame : Function.update σ.producers p .idle q = .copying freespaceHead bytes := hq
      rw [Function.update_of_ne hqp] at hsame
      exact h.copying q freespaceHead bytes hsame
    consumer := h.consumer.congr (σ.copy p other.start other.bytes) rfl rfl rfl
    ends := fun position count hend hle => (h.ends position count hend hle).congr _ rfl rfl }

end Copy

section Get

section

variable (h : σ.Parts bufferSize done got rest left mid)
include h

theorem QueueState.Parts.goto {consumer : ConsumerPc}
    (hconsumer : QueueState.ConsumerKnows { σ with consumer } rest mid)
    : QueueState.Parts { σ with consumer } bufferSize done got rest left mid := { h with
  consumer := hconsumer
  ends position count hend hle := (h.ends position count hend hle).congr _ rfl rfl }

theorem QueueState.Parts.at_startFrom (hidle : σ.consumer = .idle startptr)
    : σ.At (startFrom σ.queue startptr) mid := by
  have hknows := h.consumer
  unfold QueueState.ConsumerKnows at hknows
  rw [hidle] at hknows
  obtain ⟨hoff, hid⟩ := hknows
  unfold startFrom
  by_cases hinvalid : startptr.IsInvalid
  . have hzero : startptr.queueoff = 0 := hinvalid
    have hle := h.gotSpans.le
    rw [if_pos hinvalid]
    constructor
    . omega
    . exact h.headId
  . have hvalid : startptr.queueoff ≠ 0 := hinvalid
    rw [if_neg hinvalid]
    constructor
    . exact hoff
    . apply hid.resolve_left
      omega

end

theorem Inv.wait (h : σ.Inv bufferSize) (hidle : σ.consumer = .idle startptr)
    : QueueState.Inv { σ with consumer := .idle (startFrom σ.queue startptr) } bufferSize := by
  obtain ⟨done, got, rest, left, mid, h⟩ := h
  have hat := h.at_startFrom hidle
  exact ⟨done, got, rest, left, mid, h.goto ⟨hat.queueoff, Or.inr hat.queueid⟩⟩

theorem QueueState.Parts.knows_snapshot (h : σ.Parts bufferSize done got rest left mid)
    (hat : σ.At startptr mid) (hrest : rest ≠ [])
    : QueueState.ConsumerKnows { σ with consumer := .snapshot startptr σ.queue.useTail2 } rest mid :=
  ⟨⟨hat.queueoff, hat.queueid⟩, rfl, rest, [], (append_nil rest).symm, hrest, h.restSpans⟩

section

variable (h : σ.Inv bufferSize)
include h

theorem Inv.snapshot (hidle : σ.consumer = .idle startptr)
    (hahead : ¬ σ.queue.useTail2.ByteLE (startFrom σ.queue startptr))
    : QueueState.Inv { σ with consumer := .snapshot (startFrom σ.queue startptr) σ.queue.useTail2 }
        bufferSize := by
  obtain ⟨done, got, rest, left, mid, h⟩ := h
  have hat := h.at_startFrom hidle
  refine ⟨done, got, rest, left, mid, h.goto (h.knows_snapshot hat ?_)⟩
  rintro rfl
  apply hahead
  right
  have hspans : mid = σ.queue.useTail2.queueoff := h.restSpans
  exact ⟨hat.queueid.symm, by rw [hat.queueoff, hspans]⟩

theorem Inv.restart (hchanged : σ.consumer = .changed)
    : QueueState.Inv { σ with consumer := .restarted σ.queue.useHead2 } bufferSize := by
  obtain ⟨done, got, rest, left, mid, h⟩ := h
  have hknows := h.consumer
  unfold QueueState.ConsumerKnows at hknows
  rw [hchanged] at hknows
  exact ⟨done, got, rest, left, mid, h.goto ⟨⟨hknows.left.symm, h.headId⟩, hknows.right⟩⟩

theorem Inv.tail (hrestarted : σ.consumer = .restarted startptr)
    : QueueState.Inv { σ with consumer := .snapshot startptr σ.queue.useTail2 } bufferSize := by
  obtain ⟨done, got, rest, left, mid, h⟩ := h
  have hknows := h.consumer
  unfold QueueState.ConsumerKnows at hknows
  rw [hrestarted] at hknows
  exact ⟨done, got, rest, left, mid, h.goto (h.knows_snapshot hknows.left hknows.right)⟩

theorem Inv.change (hempty : σ.queue.useHead2.ByteEQ σ.queue.useTail2) (hleft : ¬ σ.queue.useTail1.IsInvalid)
    : QueueState.Inv { σ with queue := changeFromRightToLeft σ.queue, consumer := .changed } bufferSize := by
  obtain ⟨done, got, rest, left, mid, h⟩ := h
  obtain ⟨rfl, rfl, hmid⟩ := h.right_eq_nil hempty.right
  have hvalid : σ.queue.useTail1.queueoff ≠ 0 := hleft
  have hlap := h.lap_pos hvalid
  have htail1 := h.tail1Id
  have htail2 := h.tail2Id
  have hbelow := h.below
  rw [if_neg hvalid] at htail2
  have hnext : (σ.queue.useTail2.queueid + 1) % 2 ^ 32 = σ.queue.useTail1.queueid := by
    rw [htail1, htail2]
    omega
  have hids : σ.queue.useTail2.queueid ≠ σ.queue.useTail1.queueid := by
    rw [htail1, htail2]
    omega
  refine ⟨done, [], left, [], 0, ?_⟩
  exact { h with
    reserved := by
      show σ.reserved = done ++ [] ++ left ++ []
      rw [h.reserved]
      simp
    gotSpans := rfl
    restSpans := h.leftSpans
    leftSpans := rfl
    below := Nat.le_refl 0
    inside := by
      have hinside := h.inside
      show σ.queue.useTail1.queueoff ≤ bufferSize
      rw [← hempty.right] at hinside
      omega
    headId := by
      show (σ.queue.useHead2.queueid + 1) % 2 ^ 32 = σ.queue.useTail1.queueid
      rw [h.headId, hnext]
    tail1Id := htail1
    tail2Id := htail1
    lap_pos := fun hne => absurd rfl hne
    last := by
      intro r hr
      have hlast := h.last r hr
      unfold QueueState.lastTail at hlast ⊢
      rw [if_neg hvalid] at hlast
      exact hlast
    copied := by
      intro r hr
      rw [nil_append, append_nil] at hr
      exact h.copied r hr
    copying := by
      intro q freespaceHead bytes hq
      rw [append_nil]
      exact h.copying q freespaceHead bytes hq
    consumer := by
      refine ⟨rfl, ?_⟩
      rintro rfl
      exact hvalid h.leftSpans.symm
    ends := by
      intro position count hend hle
      obtain ⟨got₁, got₂, hgot, hcount, hknown⟩ := h.ends position count hend hle
      obtain ⟨rfl, rfl⟩ := append_eq_nil_iff.mp hgot.symm
      refine ⟨[], [], rfl, hcount, Or.inr ⟨rfl, rfl, ?_⟩⟩
      rcases hknown with ⟨hid, _⟩ | ⟨_, hzero, _⟩
      . show position.queueid ≠ σ.queue.useTail1.queueid
        rw [hid]
        exact hids
      . omega }

end

theorem endPosition_spans {records : List Reserved} {endptr : DataQueuePtr} {bufsize : Nat}
    {pages : Memory} (hsize : bufferSize < 2 ^ 32) (hinside : currentTail2.queueoff ≤ bufferSize)
    (hid : currentTail2.queueid = startptr.queueid)
    (hspans : Spans startptr.queueoff records currentTail2.queueoff)
    (hok : ∀ record ∈ records, record.Ok bufferSize) (hon : ∀ record ∈ records, record.On pages)
    (hend : endPosition pages startptr currentTail2 bufsize = some endptr)
    : endptr.queueid = startptr.queueid ∧
      ∃ fitting behind, records = fitting ++ behind ∧ Spans startptr.queueoff fitting endptr.queueoff := by
  have hle := hspans.le
  unfold endPosition at hend
  rw [uint32Sub_of_le hle (by omega)] at hend
  split at hend
  . have heq := Option.some.inj hend
    rw [← heq]
    exact ⟨hid, records, [], (append_nil records).symm, hspans⟩
  . next htoo =>
    obtain ⟨fitting, behind, queueoff, pageLen, hrecords, _, _, hscan, _, hfitting⟩ :=
      scanPages_spans bufsize 0 hsize hspans hok hon (by omega)
    rw [hscan] at hend
    have heq := Option.some.inj hend
    rw [← heq]
    exact ⟨rfl, fitting, behind, hrecords, hfitting⟩

theorem QueueState.Parts.on_pages (h : σ.Parts bufferSize done got rest left mid)
    (hexclusive : ∀ p, σ.producers p = .idle) {record : Reserved} (hmem : record ∈ got ++ rest ++ left)
    : record.On σ.queue.pages := by
  rcases h.copied record hmem with hon | ⟨p, hp⟩
  . exact hon
  . rw [hexclusive p] at hp
    cases hp

structure Seen (bufferSize : Nat) (σ : QueueState P) (startptr currentTail2 : DataQueuePtr)
    (seen : List Reserved)
    : Prop where
  id : startptr.queueid = σ.queue.useTail2.queueid
  tailId : currentTail2.queueid = startptr.queueid
  inside : currentTail2.queueoff ≤ bufferSize
  nonempty : seen ≠ []
  spans : Spans startptr.queueoff seen currentTail2.queueoff
  ok : ∀ record ∈ seen, record.Ok bufferSize
  on : ∀ record ∈ seen, record.On σ.queue.pages

theorem QueueState.Parts.seen (h : σ.Parts bufferSize done got rest left mid)
    (hsnapshot : σ.consumer = .snapshot startptr currentTail2) (hexclusive : ∀ p, σ.producers p = .idle)
    : mid = startptr.queueoff ∧ ∃ seen unseen, rest = seen ++ unseen ∧
      Seen bufferSize σ startptr currentTail2 seen := by
  have hknows := h.consumer
  unfold QueueState.ConsumerKnows at hknows
  rw [hsnapshot] at hknows
  obtain ⟨⟨rfl, hid⟩, htail, seen, unseen, rfl, hne, hseen⟩ := hknows
  refine ⟨rfl, seen, unseen, rfl, ?_⟩
  constructor
  case id => exact hid
  case tailId => exact htail.trans hid.symm
  case inside =>
    obtain ⟨middle, hseen', hunseen⟩ := tiles_append.mp h.restSpans
    have heq := hseen.eq
    have heq' := hseen'.eq
    have hle := hunseen.le
    have hbuffer := h.inside
    omega
  case nonempty => exact hne
  case spans => exact hseen
  case ok =>
    intro record hrecord
    exact h.ok record (h.mem.mpr (Or.inr (Or.inr (Or.inl (mem_append_left unseen hrecord)))))
  case on =>
    intro record hrecord
    apply h.on_pages hexclusive
    apply mem_append_left
    apply mem_append_right
    exact mem_append_left unseen hrecord

theorem Inv.deliver (h : σ.Inv bufferSize) {endptr : DataQueuePtr} {bufsize : Nat}
    (hsnapshot : σ.consumer = .snapshot startptr currentTail2) (hexclusive : ∀ p, σ.producers p = .idle)
    (hend : endPosition σ.queue.pages startptr currentTail2 bufsize = some endptr)
    : (σ.deliver startptr endptr).Inv bufferSize := by
  obtain ⟨done, got, rest, left, mid, h⟩ := h
  obtain ⟨rfl, seen, unseen, rfl, hseen⟩ := h.seen hsnapshot hexclusive
  have hid := hseen.id
  obtain ⟨hendId, fitting, behind, rfl, hfitting⟩ :=
    endPosition_spans h.size hseen.inside hseen.tailId hseen.spans hseen.ok hseen.on hend
  have hbehind : Spans endptr.queueoff (behind ++ unseen) σ.queue.useTail2.queueoff := by
    have hspans := h.restSpans
    rw [append_assoc] at hspans
    obtain ⟨middle', hfitting', hrest⟩ := tiles_append.mp hspans
    have heq := hfitting.eq
    rw [hfitting'.eq, ← heq] at hrest
    exact hrest
  have hendLe := hbehind.le
  have hmemLen : uint32Sub endptr.queueoff startptr.queueoff = endptr.queueoff - startptr.queueoff := by
    have hinside' := h.inside
    have hsize := h.size
    exact uint32Sub_of_le hfitting.le (by omega)
  have hload : σ.queue.pages.load startptr.queueoff (endptr.queueoff - startptr.queueoff) =
    contents fitting :=
    load_contents hfitting (fun record hrecord => hseen.on record (mem_append_left behind hrecord))
  refine ⟨done, got ++ fitting, behind ++ unseen, left, endptr.queueoff, ?_⟩
  exact { h with
    reserved := by
      show σ.reserved = done ++ (got ++ fitting) ++ (behind ++ unseen) ++ left
      rw [h.reserved]
      simp
    received := by
      show σ.received ++ σ.queue.pages.load startptr.queueoff (uint32Sub endptr.queueoff startptr.queueoff)
        = contents (done ++ (got ++ fitting))
      rw [hmemLen, hload, h.received, ← contents_append, append_assoc]
    gotSpans := h.gotSpans.append hfitting
    restSpans := hbehind
    copied := by
      intro r hr
      apply h.copied
      simpa only [append_assoc] using hr
    copying := by
      intro q freespaceHead bytes hq
      have hq' : σ.producers q = .copying freespaceHead bytes := hq
      rw [hexclusive q] at hq'
      cases hq'
    consumer := ⟨rfl, Or.inr (hendId.trans hid)⟩
    ends := by
      intro position count hmem hle
      rcases mem_append.mp hmem with hold | hnew
      . obtain ⟨got₁, got₂, rfl, hknown⟩ := h.ends position count hold hle
        exact ⟨got₁, got₂ ++ fitting, append_assoc _ _ _, hknown⟩
      . obtain ⟨rfl, rfl⟩ := Prod.mk.inj (mem_singleton.mp hnew)
        refine ⟨got ++ fitting, [], (append_nil _).symm, ?_, Or.inl ⟨hendId.trans hid, ?_⟩⟩
        . rw [hmemLen, h.received, length_contents, hfitting.eq]
          simp only [size, total_append]
          omega
        . exact h.gotSpans.append hfitting }

end Get

section Pop

variable {position : DataQueuePtr} {count : Nat}

theorem QueueState.Parts.popRight {got₁ got₂ : List Reserved}
    (h : σ.Parts bufferSize done (got₁ ++ got₂) rest left mid)
    (hspans : Spans σ.queue.useHead2.queueoff got₁ position.queueoff)
    (hcount : count = total Reserved.len done + total Reserved.len got₁)
    : QueueState.Parts
        { σ with
          queue := { σ.queue with useHead2 := { σ.queue.useHead2 with queueoff := position.queueoff } }
          popped := count }
        bufferSize (done ++ got₁) got₂ rest left mid := by
  have hpositive : ∀ record ∈ got₁ ++ got₂, 0 < record.len :=
    fun record hrecord => h.len_pos (h.mem.mpr (Or.inr (Or.inl hrecord)))
  have hpositive₁ : ∀ record ∈ got₁, 0 < record.len :=
    fun record hrecord => hpositive record (mem_append_left got₂ hrecord)
  have hgot₂ : Spans position.queueoff got₂ mid := by
    obtain ⟨middle, hgot₁, hgot₂⟩ := tiles_append.mp h.gotSpans
    have heq := hspans.eq
    rw [hgot₁.eq, ← heq] at hgot₂
    exact hgot₂
  have hforward := hspans.le
  exact { h with
    reserved := by
      show σ.reserved = done ++ got₁ ++ got₂ ++ rest ++ left
      rw [h.reserved]
      simp
    received := by
      show σ.received = contents (done ++ got₁ ++ got₂)
      rw [h.received, append_assoc]
    popped := by
      show count = total Reserved.len (done ++ got₁)
      rw [hcount, total_append]
    gotSpans := hgot₂
    below := Nat.le_trans h.below hforward
    copied := by
      intro r hr
      apply h.copied
      simp only [mem_append] at hr ⊢
      tauto
    consumer := by
      have hknows := h.consumer
      unfold QueueState.ConsumerKnows at hknows ⊢
      cases hconsumer : σ.consumer with
      | idle startptr =>
        rw [hconsumer] at hknows
        exact hknows
      | changed =>
        rw [hconsumer] at hknows
        have hle := hgot₂.le
        refine ⟨?_, hknows.right⟩
        have hmid := hknows.left
        show mid = position.queueoff
        omega
      | restarted startptr =>
        rw [hconsumer] at hknows
        exact ⟨⟨hknows.left.queueoff, hknows.left.queueid⟩, hknows.right⟩
      | snapshot startptr currentTail2 =>
        rw [hconsumer] at hknows
        exact ⟨⟨hknows.left.queueoff, hknows.left.queueid⟩, hknows.right⟩
    ends := by
      intro position' count' hmem hle
      have hle' : count ≤ count' := hle
      have hpopped := h.popped
      obtain ⟨got₁', got₂', hgot, hcount', hknown⟩ := h.ends position' count' hmem (by omega)
      change count' = total Reserved.len done + total Reserved.len got₁' at hcount'
      have hshorter : total Reserved.len got₁ ≤ total Reserved.len got₁' := by omega
      obtain ⟨between, rfl, rfl⟩ := append_of_total_le hpositive₁ hgot hshorter
      refine ⟨between, got₂', rfl, ?_, ?_⟩
      . show count' = total Reserved.len (done ++ got₁) + total Reserved.len between
        rw [hcount', total_append, total_append, Nat.add_assoc]
      . rcases hknown with ⟨hid, hspans'⟩ | ⟨hnil, hzero, hid⟩
        . left
          refine ⟨hid, ?_⟩
          obtain ⟨middle, hgot₁, hbetween⟩ := tiles_append.mp hspans'
          have heq := hspans.eq
          rw [hgot₁.eq, ← heq] at hbetween
          exact hbetween
        . obtain ⟨rfl, rfl⟩ := append_eq_nil_iff.mp hnil
          right
          refine ⟨rfl, ?_, hid⟩
          have heq : σ.queue.useHead2.queueoff = position.queueoff := hspans
          show position.queueoff = 0
          rw [← heq, hzero] }

theorem Inv.pop (h : σ.Inv bufferSize) (hreturned : (position, count) ∈ σ.ends) (hforward : σ.popped ≤ count)
    : QueueState.Inv { σ with queue := popFromDataQueue position σ.queue, popped := count } bufferSize := by
  obtain ⟨done, got, rest, left, mid, h⟩ := h
  obtain ⟨got₁, got₂, rfl, hcount, hknown⟩ := h.ends position count hreturned hforward
  unfold popFromDataQueue
  rcases hknown with ⟨hid, hspans⟩ | ⟨rfl, _, hid⟩
  . have hle : position.queueoff ≤ σ.queue.useTail2.queueoff := by
      obtain ⟨middle, hgot₁, hgot₂⟩ := tiles_append.mp h.gotSpans
      have heq := hspans.eq
      have heq' := hgot₁.eq
      have hto := hgot₂.le
      have hend := h.restSpans.le
      omega
    rw [if_pos ⟨hid, Or.inr ⟨hid, hle⟩⟩]
    exact ⟨done ++ got₁, got₂, rest, left, mid, h.popRight hspans hcount⟩
  . have hsame : count = σ.popped := by
      rw [hcount, h.popped]
      rfl
    rw [if_neg (fun hcondition => hid hcondition.left), hsame]
    exact ⟨done, [] ++ got₂, rest, left, mid, h⟩

end Pop

theorem Step.inv [DecidableEq P] {σ' : QueueState P} {actor : Actor P} (h : σ.Inv bufferSize)
    (hstep : Step bufferSize σ actor σ')
    : σ'.Inv bufferSize := by
  cases hstep with
  | reserve p push queue' freespaceHead position hidle hwell hlen hreserve =>
    exact Inv.reserve h hidle hwell hlen hreserve
  | refused => exact h
  | copy p freespaceHead bytes hcopying => exact Inv.copy h hcopying
  | getEmpty startptr hidle => exact Inv.wait h hidle
  | getAhead startptr hidle => exact Inv.wait h hidle
  | getSnapshot startptr hidle hright hahead => exact Inv.snapshot h hidle hahead
  | getChange startptr hidle hempty hleft => exact Inv.change h hempty hleft
  | getRestart hchanged => exact Inv.restart h hchanged
  | getTail startptr hrestarted => exact Inv.tail h hrestarted
  | getDeliver startptr currentTail2 endptr bufsize hsnapshot hexclusive hbufsize hend =>
    exact Inv.deliver h hsnapshot hexclusive hend
  | pop position count hreturned hforward => exact Inv.pop h hreturned hforward

theorem initial_inv (hsize : bufferSize < 2 ^ 32) : (initial : QueueState P).Inv bufferSize := by
  refine ⟨[], [], [], [], 0, ?_⟩
  constructor
  case size => exact hsize
  case reserved => rfl
  case received => rfl
  case popped => rfl
  case gotSpans => rfl
  case restSpans => rfl
  case leftSpans => rfl
  case below => exact Nat.le_refl 0
  case inside => exact Nat.zero_le bufferSize
  case ok =>
    intro record hrecord
    cases hrecord
  case headId => rfl
  case tail1Id => rfl
  case tail2Id => rfl
  case lap_pos => exact fun hne => absurd rfl hne
  case ordered => exact List.Pairwise.nil
  case last =>
    intro record hrecord
    cases hrecord
  case copied =>
    intro record hrecord
    cases hrecord
  case copying =>
    intro p freespaceHead bytes hp
    cases hp
  case consumer => exact ⟨rfl, Or.inl rfl⟩
  case ends =>
    intro position count hmem
    cases hmem

theorem Run.inv [DecidableEq P] (hsize : bufferSize < 2 ^ 32) (hrun : Run bufferSize initial σ)
    : σ.Inv bufferSize :=
  hrun.invariant (I := fun σ => σ.Inv bufferSize) (fun _ _ _ h hstep => Step.inv h hstep) (initial_inv hsize)

end DataQueue

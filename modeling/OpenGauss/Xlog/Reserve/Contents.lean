import OpenGauss.Xlog.Copy.Lemmas
import OpenGauss.Xlog.Reserve.Runs

/-!
This module contains the runs in which the processes copy their records to the space they have reserved.
-/

open List

namespace Xlog

open Tiling

variable {P : Type} [DecidableEq P] {seg : Segment} {endOfLog lastRec n : Nat} {σ σ' : WalState P} {p : P}

section Records

variable {record other : Record}

/-- The space of two records that start at different positions. -/
def Record.Apart (record other : Record) : Prop :=
  record.startBytePos ≠ other.startBytePos →
    record.startBytePos + record.size ≤ other.startBytePos
      ∨ other.startBytePos + other.size ≤ record.startBytePos

instance : Std.Symm Record.Apart := ⟨fun _ _ h hne => (h hne.symm).symm⟩

omit [DecidableEq P] in
theorem WalState.Inv.apart (h : σ.Inv seg endOfLog lastRec n)
    (hrecord : record ∈ σ.reserved.flatMap Reservation.records)
    (hother : other ∈ σ.reserved.flatMap Reservation.records)
    : record.Apart other := by
  have hpairwise : (σ.reserved.flatMap Reservation.records).Pairwise Record.Apart := by
    apply pairwise_flatMap.mpr
    constructor
    . intro reservation hmem
      obtain ⟨b, htiles, _⟩ := (h.logged.filled reservation hmem).records
      exact htiles.pairwise.imp fun hle _ => Or.inl hle
    . apply h.logged.tiles.pairwise.imp_of_mem
      intro reservation later hmem hmem' hle record hrecord other hother _
      obtain ⟨b, htiles, _, hb⟩ := (h.logged.filled reservation hmem).records
      obtain ⟨b', htiles', _⟩ := (h.logged.filled later hmem').records
      have hend := (htiles.mem hrecord).2
      have hstart := (htiles'.mem hother).1
      unfold Reservation.len at hle
      omega
  exact hpairwise.forall_of_forall (fun _ _ hne => absurd rfl hne) hrecord hother

theorem Step.reserved_subset (hstep : Step seg σ p σ') : σ.reserved ⊆ σ'.reserved := by
  cases hstep with
  | reserve | switch => exact subset_append_left _ _
  | call | unreserved | read | readAgain | reserveFails | callSuspend | suspendAgain | suspend | suspendFails
  | callSwitch | switchNothing | switchFails | resumeSwitched | resumeNothing | resume =>
    exact List.Subset.refl _

end Records

section Copies

structure Copy where
  record : Record
  rdata : List Bytes

def Copy.data (copy : Copy) : Bytes := copy.rdata.flatten

structure ContentState (P : Type) where
  wal : WalState P
  pages : WalPages
  copied : List Copy

variable {s s' : ContentState P} {copy other : Copy} {pages : WalPages}

/-- Besides the steps of the reservation, a process copies a record that has been reserved, at any time. -/
inductive ContentStep (seg : Segment) (s : ContentState P) (p : P) : ContentState P → Prop
  | wal {wal : WalState P} (hstep : Step seg s.wal p wal) (hregular : s.wal.Regular seg p)
    : ContentStep seg s p { s with wal }
  | copy (copy : Copy) (reservation : Reservation) (hreservation : reservation ∈ s.wal.reserved)
    (hrecord : copy.record ∈ reservation.records)
    (hnew : ∀ other ∈ s.copied, other.record.startBytePos ≠ copy.record.startBytePos)
    (hpos : 0 < copy.data.length) (hsize : copy.record.size = maxalign copy.data.length)
    (hin : InWal seg (copy.record.startBytePos + copy.data.length))
    : ContentStep seg s p { s with
        pages :=
          (copyXLogRecordToWAL seg s.pages copy.data.length copy.rdata (copy.record.startPos seg)).1
        copied := copy :: s.copied }

def Copy.endPos (seg : Segment) (copy : Copy) : Nat :=
  xLogBytePosToEndRecPtr seg (copy.record.startBytePos + copy.data.length)

def Copy.bytePtr (seg : Segment) (copy : Copy) (i : Nat) : Nat :=
  xLogBytePosToRecPtr seg (copy.record.startBytePos + i)

/-- The record stands in its place, and the headers of the pages it runs on to say how much of it is to come. -/
structure Copy.Held (seg : Segment) (pages : WalPages) (copy : Copy) : Prop where
  bytes : ∀ (i : Nat) (hi : i < copy.data.length), pages.bytes (copy.bytePtr seg i) = copy.data[i]
  continued : ∀ page, Continues (copy.record.startPos seg) (copy.endPos seg) page →
    pages.xlpRemLen page = copy.record.startBytePos + copy.data.length - xLogRecPtrToBytePos seg page
      ∧ pages.firstIsContrecord page = true

structure ContentState.Inv (seg : Segment) (endOfLog lastRec : Nat) (pages : WalPages) (s : ContentState P)
    : Prop where
  wal : ∃ n, s.wal.Inv seg endOfLog lastRec n
  reserved : ∀ copy ∈ s.copied, copy.record ∈ s.wal.reserved.flatMap Reservation.records
    ∧ copy.record.size = maxalign copy.data.length ∧ InWal seg (copy.record.startBytePos + copy.data.length)
  held : ∀ copy ∈ s.copied, copy.Held seg s.pages
  kept : ∀ ptr, (∀ copy ∈ s.copied, ∀ i < copy.data.length, ptr ≠ copy.bytePtr seg i) →
    s.pages.bytes ptr = pages.bytes ptr

/-- Of two positions the first one ends before the second one begins. -/
theorem endRecPtr_le_recPtr {bytepos bytepos' : Nat} (hin : InWal seg bytepos') (hle : bytepos ≤ bytepos')
    : xLogBytePosToEndRecPtr seg bytepos ≤ xLogBytePosToRecPtr seg bytepos' := by
  obtain ⟨spot, rfl, _⟩ := exists_spot seg bytepos'
  rw [Spot.xLogBytePosToRecPtr_eq hin]
  apply Nat.le_trans _ spot.endRecPtr_le
  rw [← Spot.xLogBytePosToEndRecPtr_eq hin]
  rcases Nat.lt_or_eq_of_le hle with hlt | rfl
  . exact Nat.le_of_lt ((positionsAgree hin).increasing bytepos hlt).2
  . exact Nat.le_refl _

theorem recPtr_ne {bytepos bytepos' : Nat} (hin : InWal seg bytepos) (hin' : InWal seg bytepos')
    (hne : bytepos ≠ bytepos')
    : xLogBytePosToRecPtr seg bytepos ≠ xLogBytePosToRecPtr seg bytepos' := by
  rcases Nat.lt_or_gt_of_ne hne with hlt | hlt
  . exact ((positionsAgree hin').increasing bytepos hlt).1.ne
  . exact ((positionsAgree hin).increasing bytepos' hlt).1.ne'

/-- The copying of one record leaves every other one as it was. -/
theorem Copy.Held.of_copied (h : other.Held seg pages) {pages' : WalPages}
    (hcopied : RecordCopied seg pages pages' copy.record.startBytePos copy.data)
    (hin : InWal seg (copy.record.startBytePos + copy.data.length))
    (hin' : InWal seg (other.record.startBytePos + other.data.length))
    (hapart : copy.record.startBytePos + copy.data.length ≤ other.record.startBytePos
      ∨ other.record.startBytePos + other.data.length ≤ copy.record.startBytePos)
    : other.Held seg pages' := by
  constructor
  case bytes =>
    intro i hi
    rw [hcopied.kept, h.bytes i hi]
    intro j hj
    exact recPtr_ne (hin'.mono (by omega)) (hin.mono (by omega)) (by omega)
  case continued =>
    intro page hpage
    have hothers := hcopied.others page (by
      obtain ⟨_, hlow, hhigh⟩ := hpage
      rintro ⟨_, hlow', hhigh'⟩
      rcases hapart with hle | hle
      . have := endRecPtr_le_recPtr (hin'.mono (by omega)) hle
        unfold Record.startPos at hlow
        omega
      . have := endRecPtr_le_recPtr (hin.mono (by omega)) hle
        unfold Copy.endPos at hhigh
        omega)
    rw [hothers.1, hothers.2]
    exact h.continued page hpage

theorem ContentStep.inv (h : s.Inv seg endOfLog lastRec pages) (hstep : ContentStep seg s p s')
    : s'.Inv seg endOfLog lastRec pages := by
  obtain ⟨n, hwal⟩ := h.wal
  cases hstep with
  | wal hstep hregular =>
    refine ⟨hstep.inv hwal hregular, ?_, h.held, h.kept⟩
    intro copy hcopy
    have ⟨hmem, hreserved⟩ := h.reserved copy hcopy
    obtain ⟨reservation, hreservation, hrecord⟩ := mem_flatMap.mp hmem
    exact ⟨mem_flatMap.mpr ⟨reservation, hstep.reserved_subset hreservation, hrecord⟩, hreserved⟩
  | copy copy reservation hreservation hrecord hnew hpos hsize hin =>
    have hcopied := copyXLogRecordToWAL_copied s.pages copy.rdata hpos hin
    have hmem := mem_flatMap.mpr ⟨reservation, hreservation, hrecord⟩
    refine ⟨⟨n, hwal⟩, ?_, ?_, ?_⟩
    . intro other hother
      rcases mem_cons.mp hother with rfl | hother
      . exact ⟨hmem, hsize, hin⟩
      . exact h.reserved other hother
    . intro other hother
      rcases mem_cons.mp hother with rfl | hother
      . exact ⟨hcopied.bytes, hcopied.continued⟩
      . have ⟨hmem', hsize', hin'⟩ := h.reserved other hother
        apply (h.held other hother).of_copied hcopied hin hin'
        have hapart := hwal.apart hmem hmem' (hnew other hother).symm
        have hle := le_maxalign copy.data.length
        have hle' := le_maxalign other.data.length
        omega
    . intro ptr hptr
      apply (hcopied.kept ptr (hptr copy mem_cons_self)).trans
      exact h.kept ptr fun other hother => hptr other (mem_cons_of_mem copy hother)

end Copies

/--
However the processes take turns, every record that has been copied stands in its place, and the bytes that belong
to none of them are as they were.
-/
theorem wal_holds_copies (hend : EndOfLog endOfLog lastRec) {pages : WalPages} {s : ContentState P}
    (hrun : Interleaving.Run (ContentStep seg) ⟨initial endOfLog lastRec, pages, []⟩ s)
    : (∀ copy ∈ s.copied, copy.Held seg s.pages)
      ∧ ∀ ptr, (∀ copy ∈ s.copied, ∀ i < copy.data.length, ptr ≠ copy.bytePtr seg i) →
        s.pages.bytes ptr = pages.bytes ptr := by
  have hinv : s.Inv seg endOfLog lastRec pages := by
    apply Interleaving.Run.invariant _ hrun
    . exact ⟨⟨0, initial_inv hend⟩, fun _ h => absurd h not_mem_nil, fun _ h => absurd h not_mem_nil,
        fun _ _ => rfl⟩
    . exact fun s p s' h hstep => hstep.inv h
  exact ⟨hinv.held, hinv.kept⟩

/--
Two processes: the second one loses a race and copies its record, which goes on to the next page, before the first
one copies those of its group and switches the log.
-/
theorem wal_holds_copies_twoProcesses
    : ∃ s : ContentState Bool, s.copied.length = 4 ∧ (∀ copy ∈ s.copied, copy.Held segment16 s.pages)
      ∧ ∀ ptr, (∀ copy ∈ s.copied, ∀ i < copy.data.length, ptr ≠ copy.bytePtr segment16 i) →
        s.pages.bytes ptr = 0 := by
  let pages : WalPages := ⟨fun _ => 0, fun _ => 0, fun _ => false⟩
  have hin : ∀ bytepos ≤ 1053704, InLsns segment16 bytepos := by
    intro bytepos hle
    unfold InLsns
    have hsize : usableBytesInSegment segment16 = 16728048 := by decide
    have hseg : xLogSegSize segment16 = 16777216 := by decide
    rw [hsize, hseg]
    omega
  have hgroup : (168 : Nat) < 2 ^ 32 := by decide
  have hsingle : (48 : Nat) < 2 ^ 32 := by decide
  have hwell : someFollowers.WellFormed := by
    unfold Insert.WellFormed someFollowers
    decide
  have hcall : Interleaving.Run (ContentStep segment16) ⟨initial 1053456 1053392, pages, []⟩ _ :=
    .single false (.wal (.call someFollowers rfl hwell) trivial)
  have hcall' := hcall.step true (.wal (.call (.single 48) rfl (show LenOk 48 by decide)) trivial)
  have hread := hcall'.step false (.wal (.read someFollowers rfl (by decide)) hgroup)
  have hread' := hread.step true (.wal (.read (.single 48) rfl (by decide)) hsingle)
  have hreserve := hread'.step false (.wal (.reserve someFollowers _ rfl (by decide) rfl)
    ⟨hgroup, hin (1053456 + 168) (by decide)⟩)
  have hfails := hreserve.step true (.wal (.reserveFails (.single 48) _ rfl (by decide) (by decide))
    ⟨hsingle, hin (1053624 + 48) (by decide)⟩)
  have hreserve' := hfails.step true (.wal (.reserve (.single 48) _ rfl (by decide) rfl)
    ⟨hsingle, hin (1053624 + 48) (by decide)⟩)
  have hcopy := hreserve'.step true (.copy ⟨_, [List.replicate 24 1, List.replicate 24 2]⟩ _
    (mem_cons_of_mem _ mem_cons_self) mem_cons_self (fun _ h => absurd h not_mem_nil) (by decide) rfl
    (hin _ (by decide)).inWal)
  have hcopy' := hcopy.step false (.copy ⟨_, [List.replicate 100 3]⟩ _ mem_cons_self (mem_cons_of_mem _ mem_cons_self)
    (by decide) (by decide) rfl (hin _ (by decide)).inWal)
  have hcopy'' := hcopy'.step false (.copy ⟨_, [List.replicate 64 4]⟩ _ mem_cons_self mem_cons_self
    (by decide) (by decide) rfl (hin _ (by decide)).inWal)
  have hsuspending := hcopy''.step false (.wal (.callSuspend rfl) trivial)
  have hsuspend := hsuspending.step false (.wal (.suspend _ rfl (by decide) rfl) trivial)
  have hswitching := hsuspend.step false (.wal (.callSwitch _ rfl) trivial)
  have hswitch := hswitching.step false (.wal (.switch _ _ _ rfl (by decide) rfl)
    ⟨hin (1053672 + sizeOfXLogRecord) (by decide), by decide⟩)
  have hcopySwitch := hswitch.step false (.copy ⟨_, [List.replicate 32 5]⟩ _
    (mem_append_right _ mem_cons_self) mem_cons_self (by decide) (by decide) rfl (hin _ (by decide)).inWal)
  exact ⟨_, rfl, wal_holds_copies ⟨by decide, by decide, by decide, by decide⟩ hcopySwitch⟩

end Xlog

import OpenGauss.Xlog.Reserve.Lemmas

/-!
This module contains the verification of the runs of the reservation of WAL space.
-/

open Interleaving

namespace Xlog

open Tiling

variable {P : Type} [DecidableEq P] {seg : Segment} {endOfLog lastRec n : Nat} {σ σ' : WalState P} {p : P}

section Tiled

/-- Every record has the position of the one in front of it, and the first one has `prev`. -/
def BackChain (seg : Segment) (prev : Nat) (records : List Record) : Prop :=
  match records with
  | [] => True
  | record :: records => record.xlPrev seg = prev ∧ BackChain seg (record.startPos seg) records

instance BackChain.decidable (seg : Segment) (prev : Nat) (records : List Record)
    : Decidable (BackChain seg prev records) :=
  match records with
  | [] => inferInstanceAs (Decidable True)
  | record :: records =>
    have := BackChain.decidable seg (record.startPos seg) records
    inferInstanceAs (Decidable (record.xlPrev seg = prev ∧ BackChain seg (record.startPos seg) records))

theorem Linked.backChain {a b : Nat} {records : List Record} (h : Linked a records b)
    : BackChain seg (xLogBytePosToRecPtr seg a) records := by
  induction records generalizing a with
  | nil => trivial
  | cons record records ih =>
    obtain ⟨rfl, hrest⟩ := h
    exact ⟨rfl, ih hrest⟩

/--
A range is not empty, has its records at the start and fills entries from its LRC on, and that of a log switch ends
with a segment.
-/
structure Reservation.Filled (seg : Segment) (reservation : Reservation) : Prop where
  lt : reservation.startBytePos < reservation.endBytePos
  records : ∃ b, Tiles Record.startBytePos Record.size reservation.startBytePos reservation.records b ∧
    (reservation.isSwitch = false → b = reservation.endBytePos) ∧ b ≤ reservation.endBytePos
  lrcs : reservation.lrcs.head? = some reservation.lrc
  segment : reservation.isSwitch → xLogBytePosToEndRecPtr seg reservation.endBytePos % xLogSegSize seg = 0

structure WalState.Tiled (seg : Segment) (endOfLog lastRec : Nat) (σ : WalState P) : Prop where
  ranges : Tiles Reservation.startBytePos Reservation.len endOfLog σ.reserved σ.insert.currBytePos
  disjoint : σ.reserved.Pairwise fun reservation later => reservation.endBytePos ≤ later.startBytePos
  filled : ∀ reservation ∈ σ.reserved, reservation.Filled seg
  strays : σ.strays = []
  backChain : BackChain seg (xLogBytePosToRecPtr seg lastRec) (σ.reserved.flatMap Reservation.records)
  lrcs : ∃ count, σ.reserved.flatMap Reservation.lrcs = (List.range count).map fun n =>
    ((n % 2 ^ 31 : Nat) : Int)
  suspended : ∀ q, (σ.pc q).Suspends → ∀ p σ', Step seg σ p σ' →
    σ'.reserved = σ.reserved ∨
      p = q ∧ ∃ reservation, reservation.isSwitch ∧ σ'.reserved = σ.reserved ++ [reservation]
  segment : ∀ q lastlrc inserted startPos endPos, σ.pc q = .switched lastlrc inserted startPos endPos →
    endPos = xLogBytePosToEndRecPtr seg σ.insert.currBytePos ∧ endPos % xLogSegSize seg = 0

/--
A step for which the sizes are computed right: the records of a group have less than 2 ^ 32 bytes, the
`XLogRecPtr`s 64 bits, and the record of a log switch does not end with its segment.
-/
def WalState.Regular (seg : Segment) (σ : WalState P) (p : P) : Prop :=
  match σ.pc p with
  | .called insert => insert.total < 2 ^ 32
  | .reserving insert _ => insert.total < 2 ^ 32 ∧ InLsns seg (σ.insert.currBytePos + insert.total)
  | .switching _ _ _ =>
    InLsns seg (σ.insert.currBytePos + sizeOfXLogRecord) ∧
      xLogBytePosToEndRecPtr seg (σ.insert.currBytePos + sizeOfXLogRecord) % xLogSegSize seg ≠ 0
  | _ => True

abbrev RegularRun (seg : Segment) (σ₀ σ : WalState P) : Prop :=
  Interleaving.Run (fun σ p σ' => Step seg σ p σ' ∧ σ.Regular seg p) σ₀ σ

structure EndOfLog (endOfLog lastRec : Nat) : Prop where
  lt : endOfLog < 2 ^ 64
  align : endOfLog % 8 = 0
  le : lastRec ≤ endOfLog
  small : endOfLog < lastRec + 2 ^ 32

end Tiled

section Invariant

def PcOk (seg : Segment) (insert : XLogCtlInsert) (n : Nat) (pc : Pc) : Prop :=
  match pc with
  | .called request => request.WellFormed
  | .reserving request _ => request.WellFormed ∧ request.size ≠ 0
  | .suspended lastlrc => lastlrc = lrcOf n
  | .switching lastlrc size compare => lastlrc = lrcOf n ∧ size = maxalign sizeOfXLogRecord ∧ compare = insert
  | .switched lastlrc inserted startPos endPos =>
    (if inserted then (copyXLogSwitch seg startPos endPos lastlrc).2 = lrcOf n else lastlrc = lrcOf n) ∧
      endPos = xLogBytePosToEndRecPtr seg insert.currBytePos ∧ endPos % xLogSegSize seg = 0
  | _ => True

theorem PcOk.of_not_suspends {insert insert' : XLogCtlInsert} {n n' : Nat} {pc : Pc}
    (h : PcOk seg insert n pc)
    (hnot : ¬ pc.Suspends)
    : PcOk seg insert' n' pc := by
  cases pc with
  | idle => trivial
  | called request => exact h
  | reserving request compare => exact h
  | suspending compare => trivial
  | suspended lastlrc => exact absurd trivial hnot
  | switching lastlrc size compare => exact absurd trivial hnot
  | switched lastlrc inserted startPos endPos => exact absurd trivial hnot

structure Logged (seg : Segment) (endOfLog lastRec n : Nat) (insert : XLogCtlInsert)
    (reserved : List Reservation)
    : Prop where
  align : insert.currBytePos % 8 = 0
  lt : insert.currBytePos < 2 ^ 64
  tiles : Tiles Reservation.startBytePos Reservation.len endOfLog reserved insert.currBytePos
  filled : ∀ reservation ∈ reserved, reservation.Filled seg
  linked : ∃ last, Linked lastRec (reserved.flatMap Reservation.records) last ∧
    last + insert.prevByteSize = insert.currBytePos
  lrcs : reserved.flatMap Reservation.lrcs = lrcsFrom 0 n

theorem Logged.append {insert insert' : XLogCtlInsert} {reserved : List Reservation}
    {reservation : Reservation}
    {count : Nat} (h : Logged seg endOfLog lastRec n insert reserved)
    (hstart : reservation.startBytePos = insert.currBytePos)
      (hend : reservation.endBytePos = insert'.currBytePos)
    (halign : insert'.currBytePos % 8 = 0) (hlt : insert'.currBytePos < 2 ^ 64)
      (hfilled : reservation.Filled seg)
    (hlinked : ∃ last, Linked insert.prevBytePos reservation.records last ∧
      last + insert'.prevByteSize = insert'.currBytePos)
    (hlrcs : reservation.lrcs = lrcsFrom n count)
    : Logged seg endOfLog lastRec (n + count) insert' (reserved ++ [reservation]) := by
  obtain ⟨last, hlast, hsum⟩ := h.linked
  obtain ⟨last', hlast', hsum'⟩ := hlinked
  have hprev : insert.prevBytePos = last := by
    have hposLt := h.lt
    unfold XLogCtlInsert.prevBytePos
    omega
  constructor
  case align => exact halign
  case lt => exact hlt
  case tiles =>
    have hlen : insert.currBytePos + reservation.len = insert'.currBytePos := by
      have hpos := hfilled.lt
      unfold Reservation.len
      omega
    rw [← hlen]
    exact h.tiles.concat hstart
  case filled =>
    intro r hr
    rcases List.mem_append.mp hr with hr | hr
    . exact h.filled r hr
    . rw [List.mem_singleton.mp hr]
      exact hfilled
  case linked =>
    refine ⟨last', ?_, hsum'⟩
    rw [List.flatMap_append, List.flatMap_singleton]
    apply hlast.append
    rw [← hprev]
    exact hlast'
  case lrcs =>
    rw [List.flatMap_append, List.flatMap_singleton, h.lrcs, hlrcs]
    have happend := lrcsFrom_append 0 n count
    rw [Nat.zero_add] at happend
    exact happend

structure WalState.Inv (seg : Segment) (endOfLog lastRec n : Nat) (σ : WalState P) : Prop where
  logged : Logged seg endOfLog lastRec n σ.insert σ.reserved
  strays : σ.strays = []
  free : (∀ p, ¬ (σ.pc p).Suspends) → σ.insert.currLRC = lrcOf n
  unique : ∀ p q, (σ.pc p).Suspends → (σ.pc q).Suspends → p = q
  suspended : ∀ p, (σ.pc p).Suspends → σ.insert.currLRC = walCopySuspend
  knows : ∀ p, PcOk seg σ.insert n (σ.pc p)

namespace WalState

theorem goto_pc (pc : Pc) (q : P) : (σ.goto p pc).pc q = if q = p then pc else σ.pc q :=
  Function.update_apply σ.pc p pc q

theorem goto_pc_self (pc : Pc) : (σ.goto p pc).pc p = pc := by
  rw [goto_pc, if_pos rfl]

theorem goto_pc_ne {q : P} (pc : Pc) (hne : q ≠ p) : (σ.goto p pc).pc q = σ.pc q := by
  rw [goto_pc, if_neg hne]

namespace Inv

section

variable (h : σ.Inv seg endOfLog lastRec n)
include h

omit [DecidableEq P] in
theorem no_suspends (hlrc : σ.insert.currLRC ≠ walCopySuspend) (q : P) : ¬ (σ.pc q).Suspends :=
  fun hsuspends => hlrc (h.suspended q hsuspends)

theorem goto {pc : Pc} (hok : PcOk seg σ.insert n pc) (hsame : pc.Suspends ↔ (σ.pc p).Suspends)
    : (σ.goto p pc).Inv seg endOfLog lastRec n := by
  have hsuspends : ∀ q, ((σ.goto p pc).pc q).Suspends ↔ (σ.pc q).Suspends := by
    intro q
    by_cases hq : q = p
    . rw [hq, goto_pc_self]
      exact hsame
    . rw [goto_pc_ne pc hq]
  exact { h with
    free := fun hfree => h.free fun q hq => hfree q ((hsuspends q).mpr hq)
    unique := fun q q' hq hq' => h.unique q q' ((hsuspends q).mp hq) ((hsuspends q').mp hq')
    suspended := fun q hq => h.suspended q ((hsuspends q).mp hq)
    knows := by
      intro q
      by_cases hq : q = p
      . rw [hq, goto_pc_self]
        exact hok
      . rw [goto_pc_ne pc hq]
        exact h.knows q }

theorem reserve {insert : Insert} {compare : XLogCtlInsert}
    (hpc : σ.pc p = .reserving insert compare) (hlrc : σ.insert.currLRC ≠ walCopySuspend)
    (hlt : insert.total < 2 ^ 32) (hin : InLsns seg (σ.insert.currBytePos + insert.total))
    : (σ.reserve p insert).Inv seg endOfLog lastRec (n + 1) := by
  have hknows : insert.WellFormed ∧ insert.size ≠ 0 := by
    have hok := h.knows p
    rw [hpc] at hok
    exact hok
  obtain ⟨hwell, hsize⟩ := hknows
  have hnobody := h.no_suspends hlrc
  have hplaced := Insert.placed σ.insert.prevBytePos hwell hlt hin.lt hsize
  have htotal := Insert.size_eq hwell hlt
  have hcurrLRC := h.free hnobody
  have hnone : ∀ q, ¬ ((σ.reserve p insert).pc q).Suspends := by
    intro q
    show ¬ ((σ.goto p .idle).pc q).Suspends
    rw [goto_pc]
    split
    . exact id
    . exact hnobody q
  constructor
  case logged =>
    apply h.logged.append
    case hstart => rfl
    case hend => rfl
    case halign =>
      have halign := h.logged.align
      have hmod := insert.total_mod
      show (insert.exchange σ.insert).currBytePos % 8 = 0
      rw [hplaced.currBytePos]
      omega
    case hlt =>
      show (insert.exchange σ.insert).currBytePos < 2 ^ 64
      rw [hplaced.currBytePos]
      exact hin.lt
    case hfilled =>
      constructor
      case lt =>
        show σ.insert.currBytePos < (insert.exchange σ.insert).currBytePos
        rw [hplaced.currBytePos]
        omega
      case records => exact ⟨_, hplaced.tiles, fun _ => hplaced.currBytePos.symm,
        Nat.le_of_eq hplaced.currBytePos.symm⟩
      case lrcs => rfl
      case segment => exact fun h => Bool.noConfusion h
    case hlinked =>
      obtain ⟨last, hlinked, hsum⟩ := hplaced.linked
      refine ⟨last, hlinked, ?_⟩
      show last + (insert.exchange σ.insert).prevByteSize = (insert.exchange σ.insert).currBytePos
      rw [hsum, hplaced.currBytePos]
    case hlrcs =>
      show [σ.insert.currLRC] = lrcsFrom n 1
      rw [hcurrLRC]
      rfl
  case strays => exact h.strays
  case free =>
    intro _
    show (insert.exchange σ.insert).currLRC = lrcOf (n + 1)
    rw [hplaced.currLRC, hcurrLRC, nextLrc_lrcOf]
  case unique => exact fun q q' hq => absurd hq (hnone q)
  case suspended => exact fun q hq => absurd hq (hnone q)
  case knows =>
    intro q
    show PcOk seg _ (n + 1) ((σ.goto p .idle).pc q)
    rw [goto_pc]
    split
    . trivial
    . exact (h.knows q).of_not_suspends (hnobody q)

theorem suspend (hlrc : σ.insert.currLRC ≠ walCopySuspend)
    : WalState.Inv seg endOfLog lastRec n { σ.goto p (.suspended σ.insert.currLRC) with
        insert := { σ.insert with currLRC := walCopySuspend } } := by
  have hnobody := h.no_suspends hlrc
  have honly : ∀ q, ((σ.goto p (.suspended σ.insert.currLRC)).pc q).Suspends → q = p := by
    intro q hq
    rw [goto_pc] at hq
    split at hq
    . next heq => exact heq
    . exact absurd hq (hnobody q)
  constructor
  case logged => exact ⟨h.logged.align, h.logged.lt, h.logged.tiles, h.logged.filled, h.logged.linked,
    h.logged.lrcs⟩
  case strays => exact h.strays
  case free =>
    intro hnone
    apply absurd _ (hnone p)
    show ((σ.goto p (.suspended σ.insert.currLRC)).pc p).Suspends
    rw [goto_pc_self]
    trivial
  case unique => exact fun q q' hq hq' => (honly q hq).trans (honly q' hq').symm
  case suspended => exact fun _ _ => rfl
  case knows =>
    intro q
    show PcOk seg _ n ((σ.goto p (.suspended σ.insert.currLRC)).pc q)
    rw [goto_pc]
    split
    . exact h.free hnobody
    . exact (h.knows q).of_not_suspends (hnobody q)

theorem others (hp : (σ.pc p).Suspends) (pc : Pc) {q : P} (hne : q ≠ p)
    : ¬ ((σ.goto p pc).pc q).Suspends := by
  rw [goto_pc_ne pc hne]
  exact fun hq => hne (h.unique q p hq hp)

theorem resume (hp : (σ.pc p).Suspends) {lastlrc : Int} (hlastlrc : lastlrc = lrcOf n)
    : WalState.Inv seg endOfLog lastRec n { σ.goto p .idle with
        insert := { σ.insert with currLRC := lastlrc } } := by
  have hnone : ∀ q, ¬ ((σ.goto p .idle).pc q).Suspends := by
    intro q
    by_cases hq : q = p
    . rw [hq, goto_pc_self]
      exact id
    . exact h.others hp .idle hq
  constructor
  case logged => exact ⟨h.logged.align, h.logged.lt, h.logged.tiles, h.logged.filled, h.logged.linked,
    h.logged.lrcs⟩
  case strays => exact h.strays
  case free => exact fun _ => hlastlrc
  case unique => exact fun q q' hq => absurd hq (hnone q)
  case suspended => exact fun q hq => absurd hq (hnone q)
  case knows =>
    intro q
    show PcOk seg _ n ((σ.goto p .idle).pc q)
    by_cases hq : q = p
    . rw [hq, goto_pc_self]
      trivial
    . rw [goto_pc_ne .idle hq]
      exact (h.knows q).of_not_suspends fun hsuspends => hq (h.unique q p hsuspends hp)

theorem switch {lastlrc : Int} {size : Nat} {compare : XLogCtlInsert}
    (hpc : σ.pc p = .switching lastlrc size compare)
    (hin : InLsns seg (σ.insert.currBytePos + sizeOfXLogRecord))
    (hinside : xLogBytePosToEndRecPtr seg (σ.insert.currBytePos + sizeOfXLogRecord) % xLogSegSize seg ≠ 0)
    : ∃ n', WalState.Inv seg endOfLog lastRec n'
        (σ.switch seg p lastlrc (reserveXLogSwitch seg size compare)) := by
  have hknows : lastlrc = lrcOf n ∧ size = sizeOfXLogRecord ∧ compare = σ.insert := by
    have hok := h.knows p
    rw [hpc] at hok
    exact hok
  obtain ⟨rfl, rfl, rfl⟩ := hknows
  have hp : (σ.pc p).Suspends := by
    rw [hpc]
    trivial
  have hswitched := reserveXLogSwitch_spec h.logged.align hin
  obtain ⟨count, hcount, hlrcs, hlast⟩ := copyXLogSwitch_lrcs hswitched h.logged.align hin hinside n
  generalize reserveXLogSwitch seg sizeOfXLogRecord σ.insert = round at hswitched hlrcs hlast ⊢
  refine ⟨n + count, ?_⟩
  constructor
  case logged =>
    apply h.logged.append
    case hstart => rfl
    case hend => rfl
    case halign => exact hswitched.align
    case hlt => exact hswitched.lt
    case hfilled =>
      have hle := hswitched.le
      constructor
      case lt =>
        show σ.insert.currBytePos < round.exchange.currBytePos
        unfold sizeOfXLogRecord at hle
        omega
      case records => exact ⟨_, ⟨rfl, rfl⟩, fun h => Bool.noConfusion h, hle⟩
      case lrcs =>
        show ((copyXLogSwitch seg round.startPos round.endPos (lrcOf n)).1.map Prod.fst).head? =
          some (lrcOf n)
        rw [hlrcs, ← Nat.succ_pred_eq_of_pos hcount, lrcsFrom_succ]
        rfl
      case segment =>
        intro _
        show xLogBytePosToEndRecPtr seg round.exchange.currBytePos % xLogSegSize seg = 0
        rw [← hswitched.endPos]
        exact hswitched.segment
    case hlinked => exact ⟨σ.insert.currBytePos, ⟨rfl, rfl⟩, hswitched.prevByteSize⟩
    case hlrcs => exact hlrcs
  case strays => exact h.strays
  case free =>
    intro hnone
    apply absurd _ (hnone p)
    show ((σ.goto p (.switched (lrcOf n) true round.startPos round.endPos)).pc p).Suspends
    rw [goto_pc_self]
    trivial
  case unique =>
    have honly : ∀ q, ((σ.goto p (.switched (lrcOf n) true round.startPos round.endPos)).pc q).Suspends →
      q = p := by
      intro q hq
      apply Classical.byContradiction
      exact fun hne => h.others hp _ hne hq
    exact fun q q' hq hq' => (honly q hq).trans (honly q' hq').symm
  case suspended =>
    intro _ _
    show round.exchange.currLRC = walCopySuspend
    rw [hswitched.currLRC]
    exact h.suspended p hp
  case knows =>
    intro q
    show PcOk seg _ (n + count) ((σ.goto p (.switched (lrcOf n) true round.startPos round.endPos)).pc q)
    by_cases hq : q = p
    . rw [hq, goto_pc_self]
      exact ⟨hlast, hswitched.endPos, hswitched.segment⟩
    . rw [goto_pc_ne _ hq]
      exact (h.knows q).of_not_suspends fun hsuspends => hq (h.unique q p hsuspends hp)

end

theorem unreserved {insert : Insert} (hwell : insert.WellFormed) (hlt : insert.total < 2 ^ 32)
    (hsize : insert.size = 0)
    : insert.records 0 0 = [] := by
  rw [Insert.size_eq hwell hlt] at hsize
  cases insert with
  | single xlTotLen => exact absurd hsize (LenOk.pos hwell).ne'
  | leader xlTotLen => exact absurd hsize (LenOk.pos hwell).ne'
  | followers head => exact insertFollowers_nil hwell hsize

end Inv

end WalState

theorem Step.inv (h : σ.Inv seg endOfLog lastRec n) (hstep : Step seg σ p σ') (hregular : σ.Regular seg p)
    : ∃ n', σ'.Inv seg endOfLog lastRec n' := by
  have hknows := h.knows p
  unfold WalState.Regular at hregular
  cases hstep with
  | call insert hpc hwell =>
    refine ⟨n, h.goto hwell ?_⟩
    rw [hpc]
    rfl
  | unreserved insert hpc hsize =>
    rw [hpc] at hknows hregular
    have hgoto : (σ.goto p .idle).Inv seg endOfLog lastRec n := h.goto trivial (by rw [hpc]; rfl)
    refine ⟨n, hgoto.logged, ?_, hgoto.free, hgoto.unique, hgoto.suspended, hgoto.knows⟩
    show σ.strays ++ insert.records 0 0 = []
    rw [WalState.Inv.unreserved hknows hregular hsize, h.strays]
    rfl
  | read insert hpc hsize =>
    rw [hpc] at hknows
    refine ⟨n, h.goto ⟨hknows, hsize⟩ ?_⟩
    rw [hpc]
    rfl
  | readAgain insert compare hpc _ =>
    rw [hpc] at hknows
    refine ⟨n, h.goto hknows ?_⟩
    rw [hpc]
    rfl
  | reserve insert compare hpc hlrc hequal =>
    rw [hpc] at hregular
    rw [← hequal] at hlrc
    exact ⟨n + 1, h.reserve hpc hlrc hregular.left hregular.right⟩
  | reserveFails insert compare hpc _ _ =>
    rw [hpc] at hknows
    refine ⟨n, h.goto hknows ?_⟩
    rw [hpc]
    rfl
  | callSuspend hpc =>
    refine ⟨n, h.goto trivial ?_⟩
    rw [hpc]
    rfl
  | suspendAgain compare hpc _ =>
    refine ⟨n, h.goto trivial ?_⟩
    rw [hpc]
    rfl
  | suspend compare hpc hlrc hequal =>
    rw [← hequal] at hlrc ⊢
    exact ⟨n, h.suspend hlrc⟩
  | suspendFails compare hpc _ _ =>
    refine ⟨n, h.goto trivial ?_⟩
    rw [hpc]
    rfl
  | callSwitch lastlrc hpc =>
    rw [hpc] at hknows
    refine ⟨n, h.goto ⟨hknows, rfl, rfl⟩ ?_⟩
    rw [hpc]
    rfl
  | switchNothing lastlrc size compare hpc hstart =>
    rw [hpc] at hknows
    obtain ⟨hlastlrc, _, rfl⟩ := hknows
    refine ⟨n, h.goto ⟨hlastlrc, rfl, hstart⟩ ?_⟩
    rw [hpc]
    rfl
  | switch lastlrc size compare hpc _ _ =>
    rw [hpc] at hregular
    exact h.switch hpc hregular.left hregular.right
  | switchFails lastlrc size compare hpc _ hequal =>
    -- nobody else swaps during a suspension
    rw [hpc] at hknows
    exact absurd hknows.2.2.symm hequal
  | resumeSwitched lastlrc startPos endPos hpc =>
    rw [hpc] at hknows
    refine ⟨n, h.resume ?_ hknows.left⟩
    rw [hpc]
    trivial
  | resumeNothing lastlrc startPos endPos hpc =>
    rw [hpc] at hknows
    refine ⟨n, h.resume ?_ hknows.left⟩
    rw [hpc]
    trivial
  | resume lastlrc hpc =>
    rw [hpc] at hknows
    refine ⟨n, h.resume ?_ hknows⟩
    rw [hpc]
    trivial

omit [DecidableEq P] in
theorem initial_inv (hend : EndOfLog endOfLog lastRec)
    : (initial (P := P) endOfLog lastRec).Inv seg endOfLog lastRec 0 := by
  have hlinked : lastRec + (endOfLog - lastRec) % 2 ^ 32 = endOfLog := by
    have hle := hend.le
    have hsmall := hend.small
    omega
  constructor
  case logged => exact ⟨hend.align, hend.lt, rfl, fun _ h => absurd h List.not_mem_nil,
    ⟨lastRec, rfl, hlinked⟩, rfl⟩
  case strays => rfl
  case free => exact fun _ => rfl
  case unique => exact fun _ _ h => h.elim
  case suspended => exact fun _ h => h.elim
  case knows => exact fun _ => trivial

theorem RegularRun.inv (hend : EndOfLog endOfLog lastRec) (hrun : RegularRun seg (initial endOfLog lastRec) σ)
    : ∃ n, σ.Inv seg endOfLog lastRec n := by
  apply Run.invariant (I := fun σ : WalState P => ∃ n, σ.Inv seg endOfLog lastRec n) _ hrun
    ⟨0, initial_inv hend⟩
  rintro σ p σ' ⟨n, h⟩ ⟨hstep, hregular⟩
  exact hstep.inv h hregular

theorem WalState.Inv.reserved_of_suspends (h : σ.Inv seg endOfLog lastRec n) {q : P} (hq : (σ.pc q).Suspends)
    (hstep : Step seg σ p σ')
    : σ'.reserved = σ.reserved ∨
        p = q ∧ ∃ reservation, reservation.isSwitch ∧ σ'.reserved = σ.reserved ++ [reservation] := by
  have hlrc := h.suspended q hq
  cases hstep with
  | reserve insert compare hpc hsuspended hequal =>
    rw [← hequal] at hsuspended
    exact absurd hlrc hsuspended
  | switch lastlrc size compare hpc _ _ =>
    have hp : (σ.pc p).Suspends := by
      rw [hpc]
      trivial
    exact Or.inr ⟨h.unique p q hp hq, _, rfl, rfl⟩
  | call | unreserved | read | readAgain | reserveFails | callSuspend | suspendAgain | suspend | suspendFails
  | callSwitch | switchNothing | switchFails | resumeSwitched | resumeNothing | resume => exact Or.inl rfl

end Invariant

/-- In the runs of regular steps the reserved ranges tile the WAL, and the records in them are chained. -/
theorem wal_reservations_tile (hend : EndOfLog endOfLog lastRec)
    (hrun : RegularRun seg (initial endOfLog lastRec) σ)
    : σ.Tiled seg endOfLog lastRec := by
  obtain ⟨n, h⟩ := hrun.inv hend
  constructor
  case ranges => exact h.logged.tiles
  case disjoint =>
    apply h.logged.tiles.pairwise.imp_of_mem
    intro reservation later hmem _ hle
    have hlt := (h.logged.filled reservation hmem).lt
    unfold Reservation.len at hle
    omega
  case filled => exact h.logged.filled
  case strays => exact h.strays
  case backChain =>
    obtain ⟨last, hlinked, _⟩ := h.logged.linked
    exact hlinked.backChain
  case lrcs =>
    refine ⟨n, ?_⟩
    rw [h.logged.lrcs, List.range_eq_range']
    rfl
  case suspended => exact fun q hq p σ' hstep => h.reserved_of_suspends hq hstep
  case segment =>
    intro q lastlrc inserted startPos endPos hpc
    have hknows := h.knows q
    rw [hpc] at hknows
    exact hknows.right

section Runs

def segment16 : Segment := ⟨2048, by decide, by decide⟩

theorem copyXLogSwitch_boundary {bytepos endPos : Nat} (lrc : Int) (halign : bytepos % 8 = 0)
    (hin : InLsns seg (bytepos + sizeOfXLogRecord))
    (hend : xLogBytePosToEndRecPtr seg (bytepos + sizeOfXLogRecord) % xLogSegSize seg = 0)
    : copyXLogSwitch seg (xLogBytePosToRecPtr seg bytepos) endPos lrc = ([], lrc) := by
  have hfst : (copyRecord seg [sizeOfXLogRecord] (xLogBytePosToRecPtr seg bytepos)).1
      = xLogBytePosToEndRecPtr seg (bytepos + sizeOfXLogRecord) := copyRecord_fst halign (by decide) hin.inWal
  unfold copyXLogSwitch
  dsimp only
  rw [hfst, if_neg (not_not_intro hend)]

variable {σ : WalState Unit}

theorem run_insert (seg : Segment) (insert : Insert) (hpc : σ.pc () = .idle) (hwell : insert.WellFormed)
    (hsize : insert.size ≠ 0)
    (hlrc : σ.insert.currLRC ≠ walCopySuspend)
    : ∃ σ' : WalState Unit, Run (Step seg) σ σ' ∧ σ'.pc () = .idle ∧
        σ'.insert = insert.exchange σ.insert ∧ σ'.reserved = (σ.reserve () insert).reserved := by
  have hcall : Run (Step seg) σ (σ.goto () (.called insert)) :=
    Run.single () (Step.call insert hpc hwell)
  have hread := hcall.step () (Step.read insert rfl hsize)
  have hreserve := hread.step () (Step.reserve insert σ.insert rfl hlrc rfl)
  exact ⟨_, hreserve, rfl, rfl, rfl⟩

theorem run_switch (seg : Segment) (hpc : σ.pc () = .idle) (hlrc : σ.insert.currLRC ≠ walCopySuspend)
    (hstart : ¬ AtSegmentStart seg σ.insert)
    : ∃ σ' : WalState Unit, Run (Step seg) σ σ' ∧ σ'.pc () = .idle ∧
        ∃ round, round = reserveXLogSwitch seg (maxalign sizeOfXLogRecord) { σ.insert with currLRC :=
          walCopySuspend } ∧
          σ'.insert = { round.exchange with
            currLRC := (copyXLogSwitch seg round.startPos round.endPos σ.insert.currLRC).2 } ∧
          σ'.reserved = (σ.switch seg () σ.insert.currLRC round).reserved := by
  have hcall : Run (Step seg) σ (σ.goto () (.suspending σ.insert)) :=
    Run.single () (Step.callSuspend hpc)
  have hsuspend := hcall.step () (Step.suspend σ.insert rfl hlrc rfl)
  have hcallSwitch := hsuspend.step () (Step.callSwitch σ.insert.currLRC rfl)
  have hswitch := hcallSwitch.step () (Step.switch σ.insert.currLRC _ _ rfl hstart rfl)
  have hresume := hswitch.step () (Step.resumeSwitched σ.insert.currLRC _ _ rfl)
  exact ⟨_, hresume, rfl, _, rfl, rfl, rfl⟩

def someFollowers : Insert := .followers [⟨64, 0, 0, false⟩, ⟨64, 8, 16, true⟩, ⟨100, 0, 0, false⟩]

/-- A group inserts its records, and then the log is switched. -/
theorem wal_reservations_tile_someFollowers
    : ∃ σ : WalState Unit, σ.reserved.length = 2 ∧ σ.Tiled segment16 1048576 1048512 := by
  have hwell : someFollowers.WellFormed := by
    unfold Insert.WellFormed someFollowers
    decide
  have hin : InLsns segment16 (1048576 + 168) := by
    unfold InLsns
    decide
  have hin' : InLsns segment16 (1048744 + sizeOfXLogRecord) := by
    unfold InLsns
    decide
  have hcall : RegularRun segment16 (initial 1048576 1048512)
    ((initial 1048576 1048512 : WalState Unit).goto () _) :=
    Interleaving.Run.single () ⟨Step.call someFollowers rfl hwell, trivial⟩
  have hread := hcall.step () ⟨Step.read someFollowers rfl (by decide), show (168 : Nat) < 2 ^ 32 by decide⟩
  have hreserve := hread.step () ⟨Step.reserve someFollowers _ rfl (by decide) rfl,
    show (168 : Nat) < 2 ^ 32 by decide, hin⟩
  have hsuspending := hreserve.step () ⟨Step.callSuspend rfl, trivial⟩
  have hsuspend := hsuspending.step () ⟨Step.suspend _ rfl (by decide) rfl, trivial⟩
  have hswitching := hsuspend.step () ⟨Step.callSwitch _ rfl, trivial⟩
  have hswitch := hswitching.step () ⟨Step.switch _ _ _ rfl (by decide) rfl, hin', by decide⟩
  have hresume := hswitch.step () ⟨Step.resumeSwitched _ _ _ rfl, trivial⟩
  exact ⟨_, rfl, wal_reservations_tile ⟨by decide, by decide, by decide, by decide⟩ hresume⟩

def greatFollowers : Insert := .followers (List.replicate 5 ⟨0x3fffdfff, 0, 0, false⟩)

/--
A log switch whose record ends with its segment and the next insert get the same LRC, and behind a group of more
than 2 ^ 32 bytes the back chain is broken.
-/
theorem reservations_go_wrong
    : (∃ σ : WalState Unit, Interleaving.Run (Step segment16) (initial 16728016 16727952) σ ∧
        σ.reserved.map Reservation.lrc = [0, 0]) ∧
      ∃ σ : WalState Unit, Interleaving.Run (Step segment16) (initial 1048576 1048512) σ ∧
        ¬ BackChain segment16 (xLogBytePosToRecPtr segment16 1048512)
          (σ.reserved.flatMap Reservation.records) := by
  constructor
  . have hstart : ¬ AtSegmentStart segment16 (initial 16728016 16727952 : WalState Unit).insert := by decide
    obtain ⟨σ, hrun, hpc, round, hround, hinsert, hreserved⟩ := run_switch segment16 rfl (by decide) hstart
    have hstartPos : round.startPos = xLogBytePosToRecPtr segment16 16728016 := by rw [hround]; rfl
    have hin : InLsns segment16 (16728016 + sizeOfXLogRecord) := by
      unfold InLsns
      decide
    have hcopy : copyXLogSwitch segment16 round.startPos round.endPos 0 = ([], 0) := by
      rw [hstartPos]
      exact copyXLogSwitch_boundary 0 rfl hin (by decide)
    have hlrc : σ.insert.currLRC = 0 := by
      rw [hinsert]
      exact congrArg Prod.snd hcopy
    obtain ⟨σ', hrun', _, _, hreserved'⟩ := run_insert segment16 (.single 64) hpc
      (show LenOk 64 by decide) (by decide) (by rw [hlrc]; decide)
    refine ⟨σ', hrun.trans hrun', ?_⟩
    rw [hreserved']
    show (σ.reserved ++ [_]).map Reservation.lrc = [0, 0]
    rw [hreserved, List.map_append]
    show [0] ++ [σ.insert.currLRC] = [0, 0]
    rw [hlrc]
    rfl
  . have hidle : (initial 1048576 1048512 : WalState Unit).pc () = .idle := rfl
    have hwell : greatFollowers.WellFormed := by
      intro follower hfollower
      rw [List.eq_of_mem_replicate hfollower]
      decide
    obtain ⟨σ, hrun, hpc, hinsert, hreserved⟩ := run_insert segment16 greatFollowers hidle hwell (by decide)
      (by decide)
    obtain ⟨σ', hrun', _, _, hreserved'⟩ := run_insert segment16 (.single 64) hpc (show LenOk 64 by decide)
      (by decide) (by rw [hinsert]; decide)
    refine ⟨σ', hrun.trans hrun', ?_⟩
    rw [hreserved']
    unfold WalState.reserve
    dsimp only
    rw [hinsert, hreserved]
    decide +kernel

end Runs

end Xlog

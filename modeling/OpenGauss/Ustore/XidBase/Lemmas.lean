import OpenGauss.ShortXid.Lemmas
import OpenGauss.Ustore.XidBase.Impl

/-!
This module contains what `UHeapPagePrepareForXid` does to the transaction ids on a page.
-/

open List ShortXid

namespace Ustore

variable {rows : List (Option Tuple)} {tuple : Tuple}

namespace XidBase

variable {env : Env} {page page' : Page} {xid base : Nat} {multi : Bool} {delta d : Int}

section Spec

-- Transaction ids leave the first four bits free, see `MaxTransactionId`; one is enough here.
structure Page.Valid (page : Page) : Prop where
  pdXidBase_lt : page.pdXidBase < 2 ^ 63
  pdMultiBase_lt : page.pdMultiBase < 2 ^ 63
  xid_lt : ∀ tuple, some tuple ∈ page.rows → tuple.xid < 2 ^ 32

def KeptTuple (env : Env) (page page' : Page) (tuple tuple' : Tuple) : Prop :=
  tuple'.multiLockers = tuple.multiLockers
    ∧ (page'.rawXid tuple' = page.rawXid tuple
      ∨ tuple'.xid = frozenTransactionId ∧ tuple.multiLockers = false
        ∧ transactionIdIsNormal (page.rawXid tuple) = true ∧ page.rawXid tuple < env.oldestXmin)

structure RowsKept (env : Env) (page page' : Page) : Prop where
  length : page'.rows.length = page.rows.length
  kept : ∀ (i : Nat) tuple', page'.rows[i]? = some (some tuple') →
    ∃ tuple, page.rows[i]? = some (some tuple) ∧ KeptTuple env page page' tuple tuple'
  present : ∀ (i : Nat) tuple, page.rows[i]? = some (some tuple) → env.pruned i = false →
    ∃ tuple', page'.rows[i]? = some (some tuple')

def Page.rawXids (page : Page) : List (Option Nat) := page.rows.map (Option.map page.rawXid)

def Replays (before page : Page) (xlrec : XlUHeapBaseShift) : Prop :=
  (uheapXlogBaseShift before xlrec).map Page.rawXids = some page.rawXids

def Outcome.Right (env : Env) (page : Page) (xid : Nat) (multi : Bool) : Outcome → Prop
  | .returned before page' logged =>
    Fits (page'.base multi) xid ∧ RowsKept env page page' ∧ ∀ xlrec, logged = some xlrec →
      Replays before page' xlrec
  | .cannotFit _ => True
  | .mismatch => False

def PreparedRight (env : Env) (page : Page) (xid : Nat) (multi : Bool) : Prop :=
  (uheapPagePrepareForXid env page xid multi).Right env page xid multi

-- The short ids that count from the base.
def Page.counted (page : Page) (multi : Bool) : List Nat :=
  page.rows.flatMap fun row => row.elim [] fun tuple => if XidBase.counted multi tuple then [tuple.xid] else []

structure Shifts (page : Page) (xid : Nat) (multi : Bool) : Prop where
  not_fits : ¬Fits (page.base multi) xid
  hasCounted : page.counted multi ≠ []
  canShift : CanShift (page.base multi) (page.counted multi) xid

structure PreparesSafely (env : Env) (page : Page) (xid : Nat) (multi : Bool) : Prop where
  reset : page.rows = [] → multi = false → ¬Fits page.pdXidBase xid → Fits (resetBase env.recentXmin) xid
  unlogged : env.needWal = true →
    ¬Shifts page xid multi ∧ ¬Shifts (freezeSingleUHeapPage env page) xid multi

end Spec

section Counted

theorem counted_iff : counted multi tuple = true ↔ 3 ≤ tuple.xid ∧ tuple.multiLockers = multi := by
  simp [counted, transactionIdIsNormal_iff]

theorem mem_counted_iff {short : Nat} : short ∈ page.counted multi
      ↔
    ∃ tuple, some tuple ∈ page.rows ∧ counted multi tuple = true ∧ short = tuple.xid := by
  simp only [Page.counted, mem_flatMap]
  constructor
  . intro ⟨row, hrow, hshort⟩
    cases row with
    | none => simp at hshort
    | some tuple => exact ⟨tuple, hrow, by simpa using hshort⟩
  . intro ⟨tuple, hrow, hshort⟩
    exact ⟨some tuple, hrow, by simpa using hshort⟩

theorem mem_counted (hmem : some tuple ∈ page.rows) (hcounted : counted multi tuple = true)
    : tuple.xid ∈ page.counted multi :=
  mem_counted_iff.mpr ⟨tuple, hmem, hcounted, rfl⟩

theorem rows_ne_nil (multi : Bool) (h : page.counted multi ≠ []) : page.rows ≠ [] := by
  intro hrows
  simp [Page.counted, hrows] at h

theorem uheapPageXidMinMax_bounds (page : Page) (multi : Bool)
    : Bounds (page.counted multi) (uheapPageXidMinMax page multi) := by
  apply foldl_bounds
  intro found xids row h
  cases row with
  | none => simpa [xidMinMaxStep] using h
  | some tuple => exact observe_bounds_if h _ tuple.xid

theorem Page.Valid.short_counted (hpage : page.Valid) (multi : Bool) : Short (page.counted multi) := by
  intro short hshort
  have ⟨tuple, hmem, hcounted, heq⟩ := mem_counted_iff.mp hshort
  rw [heq]
  exact ⟨(counted_iff.mp hcounted).1, hpage.xid_lt tuple hmem⟩

theorem Page.Valid.base_lt (hpage : page.Valid) (multi : Bool) : page.base multi < 2 ^ 63 := by
  cases multi
  . exact hpage.pdXidBase_lt
  . exact hpage.pdMultiBase_lt

end Counted

section Shift

@[simp]
theorem Page.rows_setBase : (page.setBase multi base).rows = page.rows := rfl

@[simp]
theorem Page.base_setBase : (page.setBase multi base).base multi = base := Bases.base_setBase

def movedTuple (multi : Bool) (d : Int) (tuple : Tuple) : Tuple :=
  if counted multi tuple then { tuple with xid := toShort (tuple.xid - d) } else tuple

def movedPage (page : Page) (multi : Bool) (d : Int) : Page :=
  { page with rows := page.rows.map (Option.map (movedTuple multi d)) }.setBase multi
    (toUInt64 (page.base multi + d))

theorem shiftRows_spec {xids : List Nat} (h : Room base xids d) (rows : List (Option Tuple))
    (hmem : ∀ tuple, some tuple ∈ rows → counted multi tuple = true → tuple.xid ∈ xids)
    : shiftRows false multi base d rows = some (rows.map (Option.map (movedTuple multi d))) := by
  induction rows with
  | nil => rfl
  | cons row rows ih =>
    have ih := ih fun tuple htuple => hmem tuple (mem_cons_of_mem _ htuple)
    cases row with
    | none => simp [shiftRows, ih]
    | some tuple =>
      cases hcounted : counted multi tuple with
      | false => simp [shiftRows, ih, hcounted, movedTuple]
      | true =>
        have := shortTransactionIdToNormal_moved h (counted_iff.mp hcounted).1
          (hmem tuple mem_cons_self hcounted)
        simp [shiftRows, ih, hcounted, movedTuple, shiftTuple, validateUHeapPageShiftBase, this]

variable (h : Room (page.base multi) (page.counted multi) d)
include h

theorem uheapPageShiftBase_spec (hclamp : clampDelta (page.base multi) delta = d)
    : uheapPageShiftBase false page multi delta = some (movedPage page multi d, d) := by
  have hrows := shiftRows_spec h page.rows fun _ => mem_counted
  simp [uheapPageShiftBase, hclamp, hrows, movedPage]

theorem rawXid_movedTuple (hmem : some tuple ∈ page.rows)
    : (movedPage page multi d).rawXid (movedTuple multi d tuple) = page.rawXid tuple := by
  unfold movedTuple
  cases hcounted : counted multi tuple with
  | true =>
    have ⟨hnormal, hmulti⟩ := counted_iff.mp hcounted
    simp only [if_true, Page.rawXid, movedPage, hmulti, Page.base_setBase]
    exact shortTransactionIdToNormal_moved h hnormal (mem_counted hmem hcounted)
  | false =>
    simp only [Bool.false_eq_true, if_false, Page.rawXid]
    by_cases hmulti : tuple.multiLockers = multi
    . apply shortTransactionIdToNormal_special
      simpa [counted, hmulti] using hcounted
    . rw [show (movedPage page multi d).base _ = _ from Bases.base_setBase_of_ne hmulti]

theorem rawXids_movedPage : (movedPage page multi d).rawXids = page.rawXids := by
  unfold Page.rawXids
  rw [show (movedPage page multi d).rows = page.rows.map (Option.map (movedTuple multi d)) from rfl, map_map]
  apply map_congr_left
  intro row hrow
  cases row with
  | none => rfl
  | some tuple => simp [rawXid_movedTuple h hrow]

end Shift

section Replay

def replayedTuple (multi : Bool) (tuple : Tuple) : Tuple :=
  if counted multi tuple then { tuple with xid := frozenTransactionId } else tuple

theorem shiftRows_recovery (rows : List (Option Tuple))
    : shiftRows true multi base d rows = some (rows.map (Option.map (replayedTuple multi))) := by
  induction rows with
  | nil => rfl
  | cons row rows ih =>
    cases row with
    | none => simp [shiftRows, ih]
    | some tuple =>
      cases hcounted : counted multi tuple with
      | false => simp [shiftRows, ih, hcounted, replayedTuple]
      | true => simp [shiftRows, ih, hcounted, replayedTuple, shiftTuple, validateUHeapPageShiftBase]

theorem uheapXlogBaseShift_spec (hclamp : clampDelta (page.base multi) d = d)
    : uheapXlogBaseShift page ⟨multi, d⟩
        =
      some ({ page with rows := page.rows.map (Option.map (replayedTuple multi)) }.setBase multi
        (toUInt64 (page.base multi + d))) := by
  simp [uheapXlogBaseShift, uheapPageShiftBase, hclamp, shiftRows_recovery]

theorem rawXid_replayedTuple (hcounted : counted multi tuple = true)
    : page.rawXid (replayedTuple multi tuple) = frozenTransactionId := by
  simp [replayedTuple, hcounted, Page.rawXid, shortTransactionIdToNormal, frozenTransactionId,
    transactionIdIsNormal, firstNormalTransactionId]

theorem Page.Valid.rawXid_ne_frozen (hpage : page.Valid) (hmem : some tuple ∈ page.rows)
    (hnormal : 3 ≤ tuple.xid) : page.rawXid tuple ≠ frozenTransactionId := by
  have hbase := hpage.base_lt tuple.multiLockers
  have hxid := hpage.xid_lt tuple hmem
  unfold Page.rawXid frozenTransactionId
  rw [shortTransactionIdToNormal_of hnormal, toUInt64_of (by omega) (by omega)]
  omega

theorem replays_movedPage_iff (hpage : page.Valid) (hclamp : clampDelta (page.base multi) d = d)
    (h : Room (page.base multi) (page.counted multi) d)
    : Replays page (movedPage page multi d) ⟨multi, d⟩ ↔ page.counted multi = [] := by
  unfold Replays
  rw [rawXids_movedPage h, uheapXlogBaseShift_spec hclamp]
  apply Iff.intro
  . intro hreplay
    apply eq_nil_iff_forall_not_mem.mpr
    intro short hshort
    have ⟨tuple, hmem, hcounted, _⟩ := mem_counted_iff.mp hshort
    simp only [Option.map_some, Option.some.injEq, Page.rawXids, Page.rows_setBase, map_map] at hreplay
    rw [map_inj_left] at hreplay
    have hraw := hreplay (some tuple) hmem
    simp only [Function.comp_apply, Option.map_some, Option.some.injEq, rawXid_replayedTuple hcounted] at hraw
    apply hpage.rawXid_ne_frozen hmem (counted_iff.mp hcounted).1 hraw.symm
  . intro hnone
    have hsame : ∀ row ∈ page.rows,
        Option.map (replayedTuple multi) row = Option.map (movedTuple multi d) row := by
      intro row hrow
      cases row with
      | none => rfl
      | some tuple =>
        have : counted multi tuple = false := by
          rw [Bool.eq_false_iff]
          intro hcounted
          have := mem_counted hrow hcounted
          simp [hnone] at this
        simp [replayedTuple, movedTuple, this]
    rw [map_congr_left hsame]
    exact congrArg some (rawXids_movedPage h)

end Replay

section Freeze

theorem getElem?_freezeSingleUHeapPage (i : Nat) : (freezeSingleUHeapPage env page).rows[i]?
      =
    (page.rows[i]?).map fun row => if env.pruned i then none else row.map
      (freezeTuple page env.oldestXmin) := by
  simp [freezeSingleUHeapPage]

theorem freezeTuple_cases (page : Page) (oldestXmin : Nat) (tuple : Tuple)
    : freezeTuple page oldestXmin tuple = tuple
        ∨ freezeTuple page oldestXmin tuple = { tuple with xid := frozenTransactionId }
          ∧ tuple.multiLockers = false ∧ transactionIdIsNormal (page.rawXid tuple) = true
          ∧ page.rawXid tuple < oldestXmin := by
  unfold freezeTuple
  split
  . exact Or.inl rfl
  . next hmulti =>
    dsimp only
    split
    . next hold =>
      apply Or.inr
      simpa [hmulti] using hold
    . exact Or.inl rfl

theorem exists_of_mem_freeze {tuple' : Tuple} (h : some tuple' ∈ (freezeSingleUHeapPage env page).rows)
    : ∃ tuple, some tuple ∈ page.rows ∧ tuple' = freezeTuple page env.oldestXmin tuple := by
  have ⟨i, hi⟩ := mem_iff_getElem?.mp h
  rw [getElem?_freezeSingleUHeapPage] at hi
  cases hrow : page.rows[i]? with
  | none => simp [hrow] at hi
  | some row =>
    cases row with
    | none => simp [hrow] at hi
    | some tuple =>
      simp only [hrow, Option.map_some, Option.some.injEq, Option.ite_none_left_eq_some] at hi
      exact ⟨tuple, mem_of_getElem? hrow, hi.2.symm⟩

theorem Page.Valid.freeze (hpage : page.Valid) : (freezeSingleUHeapPage env page).Valid := by
  apply Page.Valid.mk
  . exact hpage.pdXidBase_lt
  . exact hpage.pdMultiBase_lt
  . intro tuple' htuple'
    have ⟨tuple, hmem, heq⟩ := exists_of_mem_freeze htuple'
    have := hpage.xid_lt tuple hmem
    cases freezeTuple_cases page env.oldestXmin tuple with
    | inl h =>
      rw [heq, h]
      exact this
    | inr h =>
      rw [heq, h.1]
      simp [frozenTransactionId]

theorem counted_of_freeze {tuple' : Tuple} (h : some tuple' ∈ (freezeSingleUHeapPage env page).rows)
    (hcounted : counted multi tuple' = true) : some tuple' ∈ page.rows := by
  have ⟨tuple, hmem, heq⟩ := exists_of_mem_freeze h
  cases freezeTuple_cases page env.oldestXmin tuple with
  | inl h =>
    rw [heq, h]
    exact hmem
  | inr h =>
    rw [heq, h.1, counted_iff] at hcounted
    simp [frozenTransactionId] at hcounted

theorem rows_freeze_eq_nil_iff : (freezeSingleUHeapPage env page).rows = [] ↔ page.rows = [] := by
  simp [freezeSingleUHeapPage]

theorem freeze_rowsKept : RowsKept env page (freezeSingleUHeapPage env page) := by
  apply RowsKept.mk
  . simp [freezeSingleUHeapPage]
  . intro i tuple' hi
    rw [getElem?_freezeSingleUHeapPage] at hi
    cases hrow : page.rows[i]? with
    | none => simp [hrow] at hi
    | some row =>
      cases row with
      | none => simp [hrow] at hi
      | some tuple =>
        simp only [hrow, Option.map_some, Option.some.injEq, Option.ite_none_left_eq_some] at hi
        refine ⟨tuple, rfl, ?_⟩
        cases freezeTuple_cases page env.oldestXmin tuple with
        | inl h =>
          rw [← hi.2, h]
          exact ⟨rfl, Or.inl rfl⟩
        | inr h =>
          rw [← hi.2, h.1]
          exact ⟨rfl, Or.inr ⟨rfl, h.2⟩⟩
  . intro i tuple hi hpruned
    rw [getElem?_freezeSingleUHeapPage, hi]
    simp [hpruned]

theorem RowsKept.moved {before : Page} (h : RowsKept env page before)
    (hroom : Room (before.base multi) (before.counted multi) d)
      : RowsKept env page (movedPage before multi d) := by
  have hrows : (movedPage before multi d).rows = before.rows.map (Option.map (movedTuple multi d)) := rfl
  apply RowsKept.mk
  . rw [hrows, length_map, h.length]
  . intro i tuple' hi
    rw [hrows, getElem?_map] at hi
    cases hrow : before.rows[i]? with
    | none => simp [hrow] at hi
    | some row =>
      cases row with
      | none => simp [hrow] at hi
      | some frozen =>
        have ⟨tuple, htuple, hmulti, hraw⟩ := h.kept i frozen hrow
        simp only [hrow, Option.map_some, Option.some.injEq] at hi
        have hkept := rawXid_movedTuple hroom (mem_of_getElem? hrow)
        have hsame : (movedTuple multi d frozen).multiLockers = frozen.multiLockers := by
          unfold movedTuple
          split
          . rfl
          . rfl
        refine ⟨tuple, htuple, ?_, ?_⟩
        . rw [← hi, hsame, hmulti]
        . rw [← hi, hkept]
          apply hraw.imp_right
          intro hold
          have : counted multi frozen = false := by
            simp [counted, hold.1, transactionIdIsNormal, frozenTransactionId, firstNormalTransactionId]
          simp [movedTuple, this, hold]
  . intro i tuple hi hpruned
    have ⟨frozen, hfrozen⟩ := h.present i tuple hi hpruned
    rw [hrows, getElem?_map, hfrozen]
    exact ⟨_, rfl⟩

end Freeze

section Prepare

theorem fits_movedPage (h : Moves (page.base multi) (page.counted multi) xid d)
    : Fits ((movedPage page multi d).base multi) xid := by
  unfold movedPage
  rw [Page.base_setBase]
  exact h.fits

theorem prepareRound_of_fits (hpage : page.Valid) (h : Fits (page.base multi) xid)
    : prepareRound env page xid multi = some (.returned page page none) := by
  unfold prepareRound
  rw [if_pos ((fitsBase_iff (hpage.base_lt multi)).mpr h)]

theorem prepareRound_of_empty (env : Env) (hpage : page.Valid) (h : ¬Fits (page.base multi) xid)
    (hempty : page.rows = [] ∧ multi = false)
    : prepareRound env page xid multi
        =
      some (.returned page { page with pdXidBase := resetBase env.recentXmin } none) := by
  have := mt (fitsBase_iff (hpage.base_lt multi)).mp h
  unfold prepareRound
  rw [if_neg this, if_pos hempty]

theorem prepareRound_of_not_fits (env : Env) (hpage : page.Valid) (h₃ : 3 ≤ xid) (hxid : xid < 2 ^ 63)
    (h : ¬Fits (page.base multi) xid) (hempty : ¬(page.rows = [] ∧ multi = false))
    : (CanShift (page.base multi) (page.counted multi) xid →
      ∃ d, Moves (page.base multi) (page.counted multi) xid d ∧ prepareRound env page xid multi
        = some (.returned page (movedPage page multi d) (if env.needWal then some ⟨multi, d⟩ else none)))
      ∧ (¬CanShift (page.base multi) (page.counted multi) xid → prepareRound env page xid multi = none) := by
  have hbase := hpage.base_lt multi
  have ⟨hcan, hcannot⟩ := shiftOf_spec hbase h₃ hxid (hpage.short_counted multi) h (uheapPageXidMinMax_bounds page multi)
  unfold prepareRound
  rw [if_neg (mt (fitsBase_iff hbase).mp h), if_neg hempty]
  apply And.intro
  . intro hshift
    have ⟨delta, hdelta, hmoves⟩ := hcan hshift
    refine ⟨_, hmoves, ?_⟩
    simp [hdelta, uheapPageShiftBaseAndDirty, uheapPageShiftBase_spec hmoves.room rfl]
  . intro hshift
    simp [hcannot hshift]

theorem not_canShift_rows (h : ¬CanShift base (page.counted multi) xid) : page.rows ≠ [] := by
  apply rows_ne_nil multi
  intro hnil
  simp [hnil, CanShift] at h

theorem prepareRound_eq_none_iff (hpage : page.Valid) (h₃ : 3 ≤ xid) (hxid : xid < 2 ^ 63)
    : prepareRound env page xid multi = none
        ↔
      ¬Fits (page.base multi) xid ∧ ¬CanShift (page.base multi) (page.counted multi) xid := by
  apply Iff.intro
  . intro hnone
    have hfits : ¬Fits (page.base multi) xid := by
      intro h
      rw [prepareRound_of_fits hpage h] at hnone
      contradiction
    have hempty : ¬(page.rows = [] ∧ multi = false) := by
      intro h
      rw [prepareRound_of_empty env hpage hfits h] at hnone
      contradiction
    apply And.intro hfits
    intro h
    have ⟨d, _, hround⟩ := (prepareRound_of_not_fits env hpage h₃ hxid hfits hempty).1 h
    rw [hround] at hnone
    contradiction
  . intro ⟨hfits, hcan⟩
    apply (prepareRound_of_not_fits env hpage h₃ hxid hfits ?_).2 hcan
    intro hempty
    exact not_canShift_rows hcan hempty.1

variable {before : Page} {outcome : Outcome}

theorem canShift_of_round (hpage : page.Valid) (h₃ : 3 ≤ xid) (hxid : xid < 2 ^ 63)
    (hround : prepareRound env page xid multi = some outcome) (hfits : ¬Fits (page.base multi) xid)
    : CanShift (page.base multi) (page.counted multi) xid := by
  apply not_not.mp
  intro hcan
  rw [(prepareRound_eq_none_iff hpage h₃ hxid).mpr ⟨hfits, hcan⟩] at hround
  contradiction

theorem right_of_empty (hkept : RowsKept env page before) (hrows : before.rows = []) (base : Nat)
    : Outcome.Right env page xid false (.returned before { before with pdXidBase := base } none) ↔
        Fits base xid := by
  apply Iff.intro
  . intro h
    exact h.1
  . intro h
    have hlength := hkept.length
    rw [hrows] at hlength
    refine ⟨h, RowsKept.mk ?_ ?_ ?_, by simp⟩
    . exact hkept.length
    . simp [hrows]
    . intro i tuple hi
      rw [eq_nil_of_length_eq_zero hlength.symm] at hi
      simp at hi

theorem right_of_moves (hpage : before.Valid) (hkept : RowsKept env page before)
    (h : Moves (before.base multi) (before.counted multi) xid d)
    : Outcome.Right env page xid multi
          (.returned before (movedPage before multi d) (if env.needWal then some ⟨multi, d⟩ else none))
        ↔
      (env.needWal = true → before.counted multi = []) := by
  have hreplays := replays_movedPage_iff hpage h.clamp h.room
  apply Iff.intro
  . intro hright hwal
    apply hreplays.mp
    apply hright.2.2
    rw [if_pos hwal]
  . intro hwal
    refine ⟨fits_movedPage h, hkept.moved h.room, ?_⟩
    intro xlrec hlogged
    rw [Option.ite_none_right_eq_some] at hlogged
    cases hlogged.2
    apply hreplays.mpr (hwal hlogged.1)

theorem round_right_iff (hpage : before.Valid) (h₃ : 3 ≤ xid) (hxid : xid < 2 ^ 63)
    (hkept : RowsKept env page before)
    (hround : prepareRound env before xid multi = some outcome)
    : outcome.Right env page xid multi
        ↔
      (before.rows = [] → multi = false → ¬Fits before.pdXidBase xid → Fits (resetBase env.recentXmin) xid)
        ∧ (env.needWal = true → ¬Shifts before xid multi) := by
  by_cases hfits : Fits (before.base multi) xid
  . rw [prepareRound_of_fits hpage hfits] at hround
    cases hround
    have hreset : multi = false → ¬¬Fits before.pdXidBase xid := by
      intro hmulti
      rw [hmulti] at hfits
      exact not_not.mpr hfits
    apply iff_of_true
    . exact ⟨hfits, hkept, by simp⟩
    . exact ⟨fun _ hmulti h => absurd h (hreset hmulti), fun _ h => h.not_fits hfits⟩
  . by_cases hempty : before.rows = [] ∧ multi = false
    . rw [prepareRound_of_empty env hpage hfits hempty] at hround
      cases hround
      have hrows := hempty.1
      cases hempty.2
      rw [right_of_empty hkept hrows]
      apply Iff.intro
      . intro h
        exact ⟨fun _ _ _ => h, fun _ hshifts => rows_ne_nil _ hshifts.hasCounted hrows⟩
      . intro h
        exact h.1 hrows rfl hfits
    . have hcan := canShift_of_round hpage h₃ hxid hround hfits
      have ⟨d, hmoves, hmoved⟩ := (prepareRound_of_not_fits env hpage h₃ hxid hfits hempty).1 hcan
      rw [hmoved] at hround
      cases hround
      rw [right_of_moves hpage hkept hmoves]
      apply Iff.intro
      . intro h
        exact ⟨fun hrows hmulti => absurd ⟨hrows, hmulti⟩ hempty,
          fun hwal hshifts => hshifts.hasCounted (h hwal)⟩
      . intro h hwal
        apply not_not.mp
        intro hcounted
        exact h.2 hwal ⟨hfits, hcounted, hcan⟩

theorem counted_ne_nil_of_freeze (h : (freezeSingleUHeapPage env page).counted multi ≠ [])
    : page.counted multi ≠ [] := by
  have ⟨_, hshort⟩ := exists_mem_of_ne_nil _ h
  have ⟨tuple, hmem, hcounted, _⟩ := mem_counted_iff.mp hshort
  exact ne_nil_of_mem (mem_counted (counted_of_freeze hmem hcounted) hcounted)

theorem rowsKept_refl (env : Env) (page : Page) : RowsKept env page page := by
  apply RowsKept.mk rfl
  . intro i tuple hi
    exact ⟨tuple, hi, rfl, Or.inl rfl⟩
  . intro i tuple hi _
    exact ⟨tuple, hi⟩

theorem preparedRight_iff (hpage : page.Valid) (h₃ : firstNormalTransactionId ≤ xid) (hxid : xid < 2 ^ 63)
    : PreparedRight env page xid multi ↔ PreparesSafely env page xid multi := by
  unfold PreparedRight uheapPagePrepareForXid
  cases hround : prepareRound env page xid multi with
  | some outcome =>
    dsimp only
    rw [round_right_iff hpage h₃ hxid (rowsKept_refl env page) hround]
    apply Iff.intro
    . intro h
      apply PreparesSafely.mk h.1
      intro hwal
      apply And.intro (h.2 hwal)
      intro hshifts
      have hcounted := counted_ne_nil_of_freeze hshifts.hasCounted
      have hcan := canShift_of_round hpage h₃ hxid hround hshifts.not_fits
      exact h.2 hwal ⟨hshifts.not_fits, hcounted, hcan⟩
    . intro h
      exact ⟨h.reset, fun hwal => (h.unlogged hwal).1⟩
  | none =>
    have ⟨_, hcan⟩ := (prepareRound_eq_none_iff hpage h₃ hxid).mp hround
    have hrows := not_canShift_rows hcan
    have hshifts : ¬Shifts page xid multi := by
      intro hshifts
      exact hcan hshifts.canShift
    dsimp only
    cases hround' : prepareRound env (freezeSingleUHeapPage env page) xid multi with
    | some outcome =>
      dsimp only
      rw [round_right_iff hpage.freeze h₃ hxid freeze_rowsKept hround']
      apply Iff.intro
      . intro h
        exact ⟨fun hnil => absurd hnil hrows, fun hwal => ⟨hshifts, h.2 hwal⟩⟩
      . intro h
        rw [rows_freeze_eq_nil_iff]
        exact ⟨fun hnil => absurd hnil hrows, fun hwal => (h.unlogged hwal).2⟩
    | none =>
      have hcan' := ((prepareRound_eq_none_iff hpage.freeze h₃ hxid).mp hround').2
      apply iff_of_true
      . trivial
      . exact ⟨fun hnil => absurd hnil hrows, fun _ => ⟨hshifts, fun hshifts => hcan' hshifts.canShift⟩⟩

def oldRowPage : Page where
  pdXidBase := 0
  pdMultiBase := 0
  rows := [some ⟨4000000000, false⟩]

def oldRowEnv (needWal : Bool) : Env where
  needWal := needWal
  recentXmin := 50
  oldestXmin := 4000000000
  pruned := fun _ => false

theorem oldRowPage_valid : oldRowPage.Valid := by
  apply Page.Valid.mk
  . decide
  . decide
  . intro tuple htuple
    simp only [oldRowPage, mem_cons, Option.some.injEq, not_mem_nil, or_false] at htuple
    rw [htuple]
    decide

theorem preparedRight_iff_oldRow : PreparedRight (oldRowEnv false) oldRowPage 5000000000 false := by
  apply (preparedRight_iff oldRowPage_valid (by decide) (by decide)).mpr
  apply PreparesSafely.mk
  . intro hrows
    cases hrows
  . intro hwal
    cases hwal

theorem oldRowPage_shifts : Shifts oldRowPage 5000000000 false := by
  apply Shifts.mk
  . decide
  . decide
  . intro short hshort
    rw [show oldRowPage.counted false = [4000000000] from rfl, mem_singleton] at hshort
    rw [hshort]
    exact ⟨fun h => absurd h (by decide), fun _ => by decide⟩

def emptyPage : Page where
  pdXidBase := 1000
  pdMultiBase := 0
  rows := []

theorem not_preparedRight_oldRow
    : ¬PreparedRight (oldRowEnv true) oldRowPage 5000000000 false
        ∧ ¬PreparedRight (oldRowEnv true) emptyPage 10 false := by
  apply And.intro
  . intro h
    have ⟨d, _, hround⟩ := (prepareRound_of_not_fits (oldRowEnv true) oldRowPage_valid (by decide)
      (by decide) oldRowPage_shifts.not_fits (by decide)).1 oldRowPage_shifts.canShift
    unfold PreparedRight uheapPagePrepareForXid at h
    rw [hround] at h
    have hright := (round_right_iff oldRowPage_valid (by decide) (by decide) (rowsKept_refl _ _) hround).mp h
    exact hright.2 rfl oldRowPage_shifts
  . intro h
    have hvalid : emptyPage.Valid := by
      apply Page.Valid.mk
      . decide
      . decide
      . simp [emptyPage]
    have hround : prepareRound (oldRowEnv true) emptyPage 10 false = some _ :=
      prepareRound_of_empty (oldRowEnv true) hvalid (by decide) ⟨rfl, rfl⟩
    unfold PreparedRight uheapPagePrepareForXid at h
    rw [hround] at h
    exact absurd ((right_of_empty (rowsKept_refl _ _) rfl _).mp h) (by decide)

end Prepare

end XidBase

end Ustore

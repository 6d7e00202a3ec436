import Mathlib.Data.List.Forall2
import OpenGauss.ShortXid.Lemmas
import OpenGauss.Heap.XidBase.Impl

/-!
This module shows when the functions that move the bases of a row-store page make room for a transaction id
and keep the ids of the tuples.
-/

open List Option ShortXid

namespace Heap

variable {short : Nat}

namespace XidBase

section Spec

-- Transaction ids leave the first four bits free, see `MaxTransactionId`; two are enough here.
structure Page.Valid (page : Page) : Prop where
  base_lt : ∀ multi, page.base multi < 2 ^ 62
  short_lt : ∀ tuple, some tuple ∈ page.items → tuple.xmin < 2 ^ 32 ∧ tuple.xmax < 2 ^ 32

def Env.Valid (env : Env) : Prop :=
  ∀ i item tuple, env.freezeItem i item = some tuple → tuple.xmin < 2 ^ 32 ∧ tuple.xmax < 2 ^ 32

def ShortNormal (short : Nat) : Prop :=
  firstNormalTransactionId ≤ short ∧ short ≤ maxShortTransactionId

structure KeptTuple (page page' : Page) (tuple tuple' : Tuple) : Prop where
  flags : tuple'.xminFrozen = tuple.xminFrozen ∧ tuple'.xmaxIsMulti = tuple.xmaxIsMulti
  xmin : tuple.xminFrozen = false → page'.rawXmin tuple' = page.rawXmin tuple
  xmax : page'.rawXmax tuple' = page.rawXmax tuple
  short_xmin : tuple.xminFrozen = false → transactionIdIsNormal tuple.xmin = true → ShortNormal tuple'.xmin
  short_xmax : transactionIdIsNormal tuple.xmax = true → ShortNormal tuple'.xmax

def Kept (page page' : Page) : Prop :=
  List.Forall₂ (Option.Rel (KeptTuple page page')) page.items page'.items

def Outcome.Keeps : Outcome → Prop
  | .returned before page logged =>
    Kept before page ∧ ∀ xlrec, logged = some xlrec → heapXlogBaseShift before xlrec = page
  | .cannotFit => True

def Outcome.Stores (xid : Nat) (multi : Bool) : Outcome → Prop
  | .returned _ page _ => Fits (page.base multi) xid
    ∧ shortTransactionIdToNormal (page.base multi) (normalTransactionIdToShort (page.base multi) xid) = xid
  | .cannotFit => True

def Outcome.Right (xid : Nat) (multi : Bool) (outcome : Outcome) : Prop :=
  outcome.Stores xid multi ∧ outcome.Keeps

structure PreservesXids (env : Env) (page : Page) (xid : Nat) (multi : Bool) : Prop where
  prepare : (heapPagePrepareForXid env page xid multi).Right xid multi
  rewrite : (rewritePagePrepareForXid page xid multi).Right xid multi
  change : (heapChangeXidbaseAfterFreeze env page).Keeps

def counted (multi : Bool) (tuple : Tuple) : List Nat :=
  (if countsXmin multi tuple then [tuple.xmin] else [])
    ++ (if countsXmax multi tuple then [tuple.xmax] else [])

def Page.counted (page : Page) (multi : Bool) : List Nat :=
  page.items.flatMap (fun item => item.elim [] (XidBase.counted multi))

structure PreparesSafely (env : Env) (page : Page) (xid : Nat) (multi : Bool) : Prop where
  reset : page.items = [] → page.compressed = false → multi = false →
    page.pdXidBase + maxShortTransactionId < xid → Fits (resetBase env.recentXmin) xid
  -- Only for an oldest transaction that is no normal one.
  recent : env.recentXmin < firstNormalTransactionId → ∀ short ∈ page.counted false,
    short + Min.min (firstNormalTransactionId - env.recentXmin) page.pdXidBase ≤ maxShortTransactionId

end Spec

section MinMax

theorem heapPageXidMinMax_bounds (page : Page) (multi : Bool)
    : Bounds (page.counted multi) (heapPageXidMinMax page multi) := by
  apply foldl_bounds
  intro found xids item h
  match item with
  | none => simpa [xidMinMaxStep] using h
  | some tuple =>
    simp only [xidMinMaxStep, elim_some, counted, ← append_assoc]
    exact observe_bounds_if (observe_bounds_if h _ tuple.xmin) _ tuple.xmax

end MinMax

section ShiftBase

variable {page : Page} {xid : Nat} {multi : Bool} {d delta : Int}

@[simp]
theorem Page.items_setBase (base : Nat) : (page.setBase multi base).items = page.items := rfl

@[simp]
theorem Page.base_setBase (base : Nat) : (page.setBase multi base).base multi = base := Bases.base_setBase

theorem Page.pdXidBase_eq : page.pdXidBase = page.base false := rfl

theorem mem_counted_iff : short ∈ page.counted multi
      ↔
    ∃ tuple, some tuple ∈ page.items
      ∧ (countsXmin multi tuple = true ∧ short = tuple.xmin ∨ countsXmax multi tuple = true ∧ short = tuple.xmax)
    := by
  simp only [Page.counted, mem_flatMap]
  constructor
  . rintro ⟨item, hitem, hshort⟩
    match item, hshort with
    | some tuple, hshort => exact ⟨tuple, hitem, by simpa [counted] using hshort⟩
  . rintro ⟨tuple, hitem, hshort⟩
    exact ⟨some tuple, hitem, by simpa [counted] using hshort⟩

theorem Page.Valid.short_counted (hpage : page.Valid) (multi : Bool) : Short (page.counted multi) := by
  intro short hshort
  rcases mem_counted_iff.mp hshort with ⟨tuple, hmem, ⟨hcounts, rfl⟩ | ⟨hcounts, rfl⟩⟩
  . simp only [countsXmin, Bool.and_eq_true] at hcounts
    exact ⟨transactionIdIsNormal_iff.mp hcounts.right, (hpage.short_lt tuple hmem).left⟩
  . simp only [countsXmax, Bool.and_eq_true] at hcounts
    exact ⟨transactionIdIsNormal_iff.mp hcounts.left, (hpage.short_lt tuple hmem).right⟩

def moved (page : Page) (multi : Bool) (d : Int) : Page :=
  { page with items := page.items.map (Option.map (shiftTuple multi d)) }.setBase multi
    (toUInt64 (page.base multi + d))

theorem shortNormal_toShort {x : Int} (h₃ : 3 ≤ x) (hlt : x < 2 ^ 32) : ShortNormal (toShort x) := by
  have := natCast_toShort (x := x) (by omega) hlt
  unfold ShortNormal firstNormalTransactionId maxShortTransactionId
  omega

theorem shifted_spec (h : Room (page.base multi) (page.counted multi) d) (which : Bool) (counts : Bool)
    (short : Nat)
    (hcounts : counts = true → which = multi ∧ transactionIdIsNormal short = true ∧ short ∈ page.counted multi)
    (hnot : counts = false → which ≠ multi ∨ transactionIdIsNormal short = false)
    : shortTransactionIdToNormal ((moved page multi d).base which)
          (if counts then toShort (short - d) else short)
        = shortTransactionIdToNormal (page.base which) short := by
  cases hc : counts with
  | true =>
    rcases hcounts hc with ⟨rfl, hnormal, hmem⟩
    unfold moved
    rw [Page.base_setBase, if_pos rfl]
    exact shortTransactionIdToNormal_moved h (transactionIdIsNormal_iff.mp hnormal) hmem
  | false =>
    rw [if_neg (by simp)]
    rcases hnot hc with hne | hspecial
    . rw [show (moved page multi d).base which = _ from Bases.base_setBase_of_ne hne]
    . exact shortTransactionIdToNormal_special _ _ hspecial

theorem shortNormal_of (h : transactionIdIsNormal short = true) (hlt : short < 2 ^ 32) : ShortNormal short := by
  have := transactionIdIsNormal_iff.mp h
  unfold ShortNormal firstNormalTransactionId maxShortTransactionId
  omega

theorem shortNormal_shifted (h : Room (page.base multi) (page.counted multi) d) {counts : Bool}
    (hcounts : counts = true → short ∈ page.counted multi) (hnormal : transactionIdIsNormal short = true)
    (hlt : short < 2 ^ 32) : ShortNormal (if counts then toShort (short - d) else short) := by
  cases counts with
  | true =>
    have hshort := h.short short (hcounts rfl)
    exact shortNormal_toShort hshort.left hshort.right
  | false => exact shortNormal_of hnormal hlt

theorem keptTuple_shiftTuple (hpage : page.Valid) (h : Room (page.base multi) (page.counted multi) d)
    {tuple : Tuple} (hmem : some tuple ∈ page.items)
    : KeptTuple page (moved page multi d) tuple (shiftTuple multi d tuple) := by
  have hlt := hpage.short_lt tuple hmem
  have hxmin : countsXmin multi tuple = true → tuple.xmin ∈ page.counted multi := fun hcounts =>
    mem_counted_iff.mpr ⟨tuple, hmem, .inl ⟨hcounts, rfl⟩⟩
  have hxmax : countsXmax multi tuple = true → tuple.xmax ∈ page.counted multi := fun hcounts =>
    mem_counted_iff.mpr ⟨tuple, hmem, .inr ⟨hcounts, rfl⟩⟩
  constructor
  . exact ⟨rfl, rfl⟩
  . intro hfrozen
    apply shifted_spec h false (countsXmin multi tuple) tuple.xmin
    . intro hcounts
      have hmem := hxmin hcounts
      simp only [countsXmin, Bool.and_eq_true, Bool.not_eq_true'] at hcounts
      exact ⟨hcounts.left.left.symm, hcounts.right, hmem⟩
    . intro hcounts
      simp only [countsXmin, hfrozen, Bool.not_false, Bool.and_true, Bool.and_eq_false_iff,
        Bool.not_eq_false'] at hcounts
      exact hcounts.imp (fun hmulti => by simp [hmulti]) id
  . apply shifted_spec h tuple.xmaxIsMulti (countsXmax multi tuple) tuple.xmax
    . intro hcounts
      have hmem := hxmax hcounts
      simp only [countsXmax, Bool.and_eq_true, beq_iff_eq] at hcounts
      exact ⟨hcounts.right, hcounts.left, hmem⟩
    . intro hcounts
      simp only [countsXmax, Bool.and_eq_false_iff, beq_eq_false_iff_ne] at hcounts
      exact hcounts.symm
  . exact fun _ hnormal => shortNormal_shifted h hxmin hnormal hlt.left
  . exact fun hnormal => shortNormal_shifted h hxmax hnormal hlt.right

theorem kept_moved (hpage : page.Valid) (h : Room (page.base multi) (page.counted multi) d)
    : Kept page (moved page multi d) := by
  unfold Kept moved
  rw [Page.items_setBase, forall₂_map_right_iff, forall₂_same]
  intro item hitem
  match item, hitem with
  | none, _ => exact Option.Rel.none
  | some tuple, hitem => exact Option.Rel.some (keptTuple_shiftTuple hpage h hitem)

theorem kept_refl (hpage : page.Valid) : Kept page page := by
  unfold Kept
  rw [forall₂_same]
  intro item hitem
  match item, hitem with
  | none, _ => exact Option.Rel.none
  | some tuple, hitem =>
    have hlt := hpage.short_lt tuple hitem
    exact Option.Rel.some ⟨⟨rfl, rfl⟩, fun _ => rfl, rfl, fun _ hnormal => shortNormal_of hnormal hlt.left,
      fun hnormal => shortNormal_of hnormal hlt.right⟩

theorem room_of_counted_eq_nil (hnil : page.counted multi = []) (hnonneg : 0 ≤ page.base multi + d)
    (hlt : page.base multi + d < 2 ^ 63) : Room (page.base multi) (page.counted multi) d := by
  refine ⟨hnonneg, hlt, ?_⟩
  intro short hmem
  rw [hnil] at hmem
  simp at hmem

theorem moved_of_counted_eq_nil (hnil : page.counted multi = [])
    : moved page multi d = page.setBase multi (toUInt64 (page.base multi + d)) := by
  have hsame : page.items.map (Option.map (shiftTuple multi d)) = page.items := by
    refine (map_congr_left ?_).trans (map_id page.items)
    intro item hitem
    match item, hitem with
    | none, _ => rfl
    | some tuple, hitem =>
      have hnone : ∀ short, short ∉ page.counted multi := by simp [hnil]
      have hxmin : countsXmin multi tuple = false := Bool.eq_false_iff.mpr fun hcounts =>
        hnone _ (mem_counted_iff.mpr ⟨tuple, hitem, .inl ⟨hcounts, rfl⟩⟩)
      have hxmax : countsXmax multi tuple = false := Bool.eq_false_iff.mpr fun hcounts =>
        hnone _ (mem_counted_iff.mpr ⟨tuple, hitem, .inr ⟨hcounts, rfl⟩⟩)
      simp [shiftTuple, hxmin, hxmax]
  unfold moved
  rw [hsame]

theorem shiftBase_spec (hpage : page.Valid) (needWal : Bool) (hclamp : clampDelta (page.base multi) delta = d)
    (hclamped : clampDelta (page.base multi) d = d) (h : Room (page.base multi) (page.counted multi) d)
    : ∃ logged, shiftBase needWal page multi delta = .returned page (moved page multi d) logged
        ∧ (shiftBase needWal page multi delta).Keeps := by
  have heq : shiftBase needWal page multi delta
      = .returned page (moved page multi d) (if needWal then some ⟨multi, d⟩ else none) := by
    simp [shiftBase, heapPageShiftBase, hclamp, moved]
  refine ⟨_, heq, ?_⟩
  rw [heq]
  apply And.intro (kept_moved hpage h)
  intro xlrec hlogged
  rw [ite_none_right_eq_some, Option.some.injEq] at hlogged
  rw [← hlogged.right]
  simp [heapXlogBaseShift, heapPageShiftBase, hclamped, moved]

theorem stores_of_fits {base : Nat} (hbase : base < 2 ^ 63) (hxid : xid < 2 ^ 63) (hfits : Fits base xid)
    : shortTransactionIdToNormal base (normalTransactionIdToShort base xid) = xid := by
  unfold Fits firstNormalTransactionId maxShortTransactionId at hfits
  have hshort : (toShort ((xid : Int) - base) : Int) = xid - base := natCast_toShort (by omega) (by omega)
  have hnormal : transactionIdIsNormal xid = true := transactionIdIsNormal_iff.mpr (by omega)
  unfold normalTransactionIdToShort
  rw [if_pos hnormal, shortTransactionIdToNormal_of (by omega), hshort]
  have := natCast_toUInt64 (x := (xid : Int) - base + base) (by omega) (by omega)
  omega

end ShiftBase

section Prepare

variable {env : Env} {page : Page} {xid : Nat} {multi : Bool} {d delta : Int}

theorem right_of_moves (hpage : page.Valid) (hxid : xid < 2 ^ 63)
    (h : Moves (page.base multi) (page.counted multi) xid (clampDelta (page.base multi) delta)) (needWal : Bool)
    : (shiftBase needWal page multi delta).Right xid multi := by
  rcases shiftBase_spec hpage needWal rfl h.clamp h.room with ⟨logged, heq, hkeeps⟩
  apply And.intro ?_ hkeeps
  rw [heq]
  have hlt := h.room.lt
  have hbase := natCast_toUInt64 h.room.nonneg (by omega)
  dsimp only [Outcome.Stores]
  unfold moved
  rw [Page.base_setBase]
  exact ⟨h.fits, stores_of_fits (by omega) hxid h.fits⟩

theorem right_of_fits (hpage : page.Valid) (hxid : xid < 2 ^ 62) (h : Fits (page.base multi) xid)
    : (Outcome.returned page page none).Right xid multi := by
  have hbase := hpage.base_lt multi
  refine ⟨⟨h, stores_of_fits (by omega) (by omega) h⟩, kept_refl hpage, ?_⟩
  intro xlrec hlogged
  exact absurd hlogged (by simp)

def Resets (page : Page) (xid : Nat) (multi : Bool) : Prop :=
  page.items = [] ∧ page.compressed = false ∧ multi = false ∧ page.pdXidBase + maxShortTransactionId < xid

theorem prepareRound_right (hpage : page.Valid) (h₃ : 3 ≤ xid) (hxid : xid < 2 ^ 62)
    (hreset : ¬ Resets page xid multi) (outcome : Outcome)
    (hrun : prepareRound env page xid multi = some outcome) : outcome.Right xid multi := by
  have hbase := hpage.base_lt multi
  unfold prepareRound at hrun
  by_cases hfits : Fits (page.base multi) xid
  . rw [if_pos ((fitsBase_iff (by omega)).mpr hfits), Option.some.injEq] at hrun
    rw [← hrun]
    exact right_of_fits hpage hxid hfits
  . rw [if_neg (mt (fitsBase_iff (by omega)).mp hfits), if_neg ?_] at hrun
    . rcases Option.map_eq_some_iff.mp hrun with ⟨delta, hdelta, rfl⟩
      exact right_of_moves hpage (by omega) (moves_of_shiftOf (by omega) h₃ (by omega) (hpage.short_counted multi) hfits
        (heapPageXidMinMax_bounds page multi) hdelta) env.needWal
    . rintro ⟨hitems, hcompressed, hmulti, hle⟩
      apply hreset
      refine ⟨hitems, hcompressed, hmulti, ?_⟩
      have hlow : toUInt64 ((page.base multi : Int) + firstNormalTransactionId) = page.base multi + 3 :=
        toUInt64_add (by omega) (by decide)
      rw [hlow] at hle
      unfold Fits firstNormalTransactionId maxShortTransactionId at hfits
      rw [hmulti] at hle hfits
      rw [Page.pdXidBase_eq]
      unfold maxShortTransactionId
      omega

theorem valid_freezeSingleHeapPage (henv : env.Valid) (hpage : page.Valid)
    : (freezeSingleHeapPage env page).Valid where
  base_lt := hpage.base_lt
  short_lt tuple hmem := by
    rcases mem_iff_getElem.mp hmem with ⟨i, hi, heq⟩
    simp only [freezeSingleHeapPage, getElem_mapIdx] at heq
    exact henv i _ tuple heq

theorem prepareRound_resets (hpage : page.Valid) (hreset : Resets page xid multi)
    : prepareRound env page xid multi
        = some (.returned page { page with pdXidBase := resetBase env.recentXmin } none) := by
  rcases hreset with ⟨hitems, hcompressed, rfl, hlt⟩
  have hbase := hpage.base_lt false
  rw [Page.pdXidBase_eq] at hlt
  unfold maxShortTransactionId at hlt
  have hfits : ¬ Fits (page.base false) xid := by
    unfold Fits firstNormalTransactionId maxShortTransactionId
    omega
  unfold prepareRound
  rw [if_neg (mt (fitsBase_iff (by omega)).mp hfits), if_pos]
  . refine ⟨hitems, hcompressed, rfl, ?_⟩
    have hlow : toUInt64 ((page.base false : Int) + firstNormalTransactionId) = page.base false + 3 :=
      toUInt64_add (by omega) (by decide)
    rw [hlow]
    omega

theorem heapPagePrepareForXid_right (henv : env.Valid) (hpage : page.Valid) (h₃ : 3 ≤ xid)
    (hxid : xid < 2 ^ 62) (hreset : ¬ Resets page xid multi)
    : (heapPagePrepareForXid env page xid multi).Right xid multi := by
  unfold heapPagePrepareForXid
  split
  . rename_i outcome hround
    exact prepareRound_right hpage h₃ hxid hreset outcome hround
  . split
    . rename_i outcome hround
      apply prepareRound_right (valid_freezeSingleHeapPage henv hpage) h₃ hxid ?_ outcome hround
      rintro ⟨hitems, hrest⟩
      exact hreset ⟨by simpa [freezeSingleHeapPage] using hitems, hrest⟩
    . exact ⟨trivial, trivial⟩

theorem rewritePagePrepareForXid_right (hpage : page.Valid) (h₃ : 3 ≤ xid) (hxid : xid < 2 ^ 62)
    : (rewritePagePrepareForXid page xid multi).Right xid multi := by
  have hbase := hpage.base_lt multi
  have hbounds := heapPageXidMinMax_bounds page multi
  have hnormal : transactionIdIsNormal xid = true := transactionIdIsNormal_iff.mpr h₃
  unfold rewritePagePrepareForXid
  rw [hnormal]
  by_cases hfits : Fits (page.base multi) xid
  . rw [if_neg (by simp), if_pos ((fitsBase_iff (by omega)).mpr hfits)]
    exact right_of_fits hpage hxid hfits
  . rw [if_neg (by simp), if_neg (mt (fitsBase_iff (by omega)).mp hfits)]
    split
    . rename_i hnone
      rw [hnone] at hbounds
      have hcounted : page.counted multi = [] := hbounds
      have hroom : Room (page.base multi) (page.counted multi) ((xid : Int) - 3 - page.base multi) :=
        room_of_counted_eq_nil hcounted (by omega) (by omega)
      have hmoved : page.setBase multi (toUInt64 (xid - firstNormalTransactionId))
          = moved page multi ((xid : Int) - 3 - page.base multi) := by
        rw [moved_of_counted_eq_nil hcounted]
        congr 2
        unfold firstNormalTransactionId
        omega
      have hnew := natCast_toUInt64 hroom.nonneg (by omega)
      have hfits : Fits (toUInt64 (page.base multi + (xid - 3 - page.base multi))) xid := by
        unfold Fits firstNormalTransactionId maxShortTransactionId
        omega
      rw [hmoved]
      refine ⟨?_, kept_moved hpage hroom, by simp⟩
      dsimp only [Outcome.Stores]
      unfold moved
      rw [Page.base_setBase]
      exact ⟨hfits, stores_of_fits (by omega) (by omega) hfits⟩
    . rename_i min max hsome
      rw [hsome] at hbounds
      split
      . exact ⟨trivial, trivial⟩
      . rename_i delta hdelta
        exact right_of_moves hpage (by omega) (moves_of_shiftOf (by omega) h₃ (by omega)
          (hpage.short_counted multi) hfits hbounds hdelta) false

theorem shiftBase_keeps (hpage : page.Valid) (needWal : Bool)
    (hd : d = Max.max delta (-page.base multi)) (h₀ : -2 ^ 63 ≤ delta) (h₁ : delta < 2 ^ 62)
    (h : Room (page.base multi) (page.counted multi) d) : (shiftBase needWal page multi delta).Keeps := by
  have hbase := hpage.base_lt multi
  have hclamp : clampDelta (page.base multi) delta = d := by
    rw [clampDelta_eq (by omega) (by omega) (by omega), hd]
  have hclamped : clampDelta (page.base multi) d = d := by
    rw [clampDelta_eq (by omega) (by omega) (by omega)]
    omega
  rcases shiftBase_spec hpage needWal hclamp hclamped h with ⟨_, -, hkeeps⟩
  exact hkeeps

theorem shortNormal_of_kept {page' : Page}
    (hitems : page'.items = page.items.map (Option.map (shiftTuple multi d))) (h : Kept page page')
    (hshort : short ∈ page.counted multi) : ShortNormal (toShort (short - d)) := by
  unfold Kept at h
  rw [hitems, forall₂_map_right_iff, forall₂_same] at h
  rcases mem_counted_iff.mp hshort with ⟨tuple, hmem, ⟨hcounts, rfl⟩ | ⟨hcounts, rfl⟩⟩
  . have hrel := h (some tuple) hmem
    simp only [map_some, rel_some_some] at hrel
    have hboth := hcounts
    simp only [countsXmin, Bool.and_eq_true, Bool.not_eq_true'] at hboth
    simpa [shiftTuple, hcounts] using hrel.short_xmin hboth.left.right hboth.right
  . have hrel := h (some tuple) hmem
    simp only [map_some, rel_some_some] at hrel
    have hboth := hcounts
    simp only [countsXmax, Bool.and_eq_true] at hboth
    simpa [shiftTuple, hcounts] using hrel.short_xmax hboth.left

theorem toShort_lt_three {x : Int} (h₀ : 2 ^ 32 ≤ x) (h₁ : x < 2 ^ 32 + 3) : toShort x < 3 := by
  unfold toShort
  omega

theorem shiftBase_keeps_iff (hpage : page.Valid) (needWal : Bool) (k : Nat) (hk : k ≤ 3)
    : (shiftBase needWal page multi (-(k : Int))).Keeps
        ↔ ∀ short ∈ page.counted multi, short + Min.min k (page.base multi) ≤ maxShortTransactionId := by
  have hbase := hpage.base_lt multi
  have hclamp : clampDelta (page.base multi) (-(k : Int)) = -(Min.min k (page.base multi) : Nat) := by
    rw [clampDelta_eq (by omega) (by omega) (by omega)]
    omega
  unfold maxShortTransactionId
  constructor
  . intro hkeeps short hshort
    have hkept : Kept page (heapPageShiftBase page multi (-(k : Int))).1 := hkeeps.left
    have hnormal := shortNormal_of_kept (d := -(Min.min k (page.base multi) : Nat))
      (by simp [heapPageShiftBase, hclamp]) hkept hshort
    have hlt := hpage.short_counted multi short hshort
    apply Nat.le_of_not_lt
    intro hover
    have hspecial := toShort_lt_three (x := (short : Int) - -(Min.min k (page.base multi) : Nat)) (by omega)
      (by omega)
    unfold ShortNormal firstNormalTransactionId at hnormal
    omega
  . intro hall
    apply shiftBase_keeps (d := -(Min.min k (page.base multi) : Nat)) hpage needWal (by omega) (by omega) (by omega)
    refine ⟨by omega, by omega, ?_⟩
    intro short hshort
    have := hpage.short_counted multi short hshort
    have := hall short hshort
    omega

theorem heapChangeXidbaseAfterFreeze_keeps_iff (hpage : page.Valid) (hxid : env.recentXmin < 2 ^ 62)
    : (heapChangeXidbaseAfterFreeze env page).Keeps
        ↔ (env.recentXmin < firstNormalTransactionId → ∀ short ∈ page.counted false,
          short + Min.min (firstNormalTransactionId - env.recentXmin) page.pdXidBase
            ≤ maxShortTransactionId) := by
  have hbase := hpage.base_lt false
  have hbounds := heapPageXidMinMax_bounds page false
  have hhigh : toUInt64 ((page.pdXidBase : Int) + maxShortTransactionId) = page.pdXidBase + 0xFFFFFFFF :=
    toUInt64_add (by rw [Page.pdXidBase_eq]; omega) (by decide)
  unfold heapChangeXidbaseAfterFreeze
  simp only [hhigh]
  rw [Page.pdXidBase_eq] at *
  split
  . rename_i hnone
    rw [hnone] at hbounds
    have hcounted : page.counted false = [] := hbounds
    apply iff_of_true
    . unfold firstNormalTransactionId
      rw [toInt64_toUInt64 (by omega) (by omega)]
      apply shiftBase_keeps hpage env.needWal rfl (by omega) (by omega)
      exact room_of_counted_eq_nil hcounted (by omega) (by omega)
    . rw [hcounted]
      simp
  . rename_i min max hsome
    rw [hsome] at hbounds
    have hmax := (hpage.short_counted false).bounds hbounds
    by_cases hrecent : env.recentXmin < firstNormalTransactionId
    . have hsmall := hrecent
      unfold firstNormalTransactionId at hsmall
      rw [if_pos (by omega), if_neg (by omega)]
      have hdelta : toInt64 (toUInt64 ((env.recentXmin : Int) - firstNormalTransactionId))
          = -((firstNormalTransactionId - env.recentXmin : Nat) : Int) := by
        unfold firstNormalTransactionId
        rw [toInt64_toUInt64 (by omega) (by omega)]
        omega
      rw [hdelta, shiftBase_keeps_iff hpage env.needWal _ (by unfold firstNormalTransactionId; omega)]
      simp [hrecent]
    . apply iff_of_true ?_ (fun h => absurd h hrecent)
      unfold firstNormalTransactionId at hrecent
      split
      . have hdelta : ∀ xidmin : Nat, xidmin ≤ env.recentXmin →
            toInt64 (toUInt64 ((xidmin : Int) - firstNormalTransactionId)) = xidmin - 3 := by
          intro xidmin hle
          unfold firstNormalTransactionId
          exact toInt64_toUInt64 (by omega) (by omega)
        have hkeeps : ∀ xidmin : Nat, xidmin ≤ env.recentXmin → xidmin ≤ min → 3 ≤ xidmin →
            (shiftBase env.needWal page false
              (toInt64 (toUInt64 ((xidmin : Int) - firstNormalTransactionId)))).Keeps := by
          intro xidmin hle hmin h₃
          rw [hdelta xidmin hle]
          apply shiftBase_keeps hpage env.needWal rfl (by omega) (by omega)
          exact room_of_bounds (by omega) (by omega) hbounds (by omega) (by omega)
        split
        . exact hkeeps min (by omega) (by omega) (by omega)
        . exact hkeeps env.recentXmin (by omega) (by omega) (by omega)
      . have hfree : toInt64 ((min : Int) - firstNormalTransactionId) = min - 3 := by
          unfold firstNormalTransactionId
          exact toInt64_of (by omega) (by omega)
        have hrequired : toInt64 ((env.recentXmin : Int) - ((page.base false + 0xFFFFFFFF : Nat) : Int))
            = env.recentXmin - (page.base false + 0xFFFFFFFF) := by
          rw [toInt64_of (by omega) (by omega)]
          omega
        rw [hfree, hrequired]
        split
        . rw [Int.tdiv_eq_ediv_of_nonneg (by omega)]
          apply shiftBase_keeps hpage env.needWal rfl (by omega) (by omega)
          exact room_of_bounds (by omega) (by omega) hbounds (by omega) (by omega)
        . refine ⟨kept_refl hpage, ?_⟩
          intro xlrec hlogged
          exact absurd hlogged (by simp)

/--
The ids are preserved if and only if a page without tuples is given a base that fits the new id.
-/
theorem preservesXids_iff (henv : env.Valid) (hpage : page.Valid) (h₃ : firstNormalTransactionId ≤ xid)
    (hxid : xid < 2 ^ 62) (hrecent : env.recentXmin ≤ xid)
    : PreservesXids env page xid multi ↔ PreparesSafely env page xid multi := by
  have hchange := heapChangeXidbaseAfterFreeze_keeps_iff hpage (show env.recentXmin < 2 ^ 62 by omega)
  constructor
  . intro h
    refine ⟨?_, hchange.mp h.change⟩
    intro hitems hcompressed hmulti hlt
    have hfits := h.prepare.left
    unfold heapPagePrepareForXid at hfits
    rw [prepareRound_resets hpage ⟨hitems, hcompressed, hmulti, hlt⟩] at hfits
    rw [hmulti] at hfits
    exact hfits.left
  . intro h
    refine ⟨?_, rewritePagePrepareForXid_right hpage h₃ hxid, hchange.mpr h.recent⟩
    by_cases hreset : Resets page xid multi
    . have hfits := h.reset hreset.left hreset.right.left hreset.right.right.left hreset.right.right.right
      unfold heapPagePrepareForXid
      rw [prepareRound_resets hpage hreset]
      rcases hreset with ⟨hitems, -, rfl, -⟩
      have hbase : resetBase env.recentXmin < 2 ^ 63 := by
        have := hfits.left
        omega
      refine ⟨⟨hfits, stores_of_fits hbase (by omega) hfits⟩, ?_, ?_⟩
      . unfold Kept
        rw [hitems]
        exact List.Forall₂.nil
      . intro xlrec hlogged
        exact absurd hlogged (by simp)
    . exact heapPagePrepareForXid_right henv hpage h₃ hxid hreset

def oldRowPage : Page where
  pdXidBase := 0
  pdMultiBase := 0
  compressed := false
  items := [some ⟨4000000000, 0, false, false⟩]

def oldRowEnv : Env where
  needWal := true
  recentXmin := 100
  freezeItem _ item := item.map (fun tuple => { tuple with xmin := 0, xmax := 0 })

theorem oldRowPage_valid : oldRowPage.Valid := by
  constructor
  . intro multi
    cases multi <;> decide
  . intro tuple hmem
    simp only [oldRowPage, mem_singleton, Option.some.injEq] at hmem
    rw [hmem]
    decide

theorem oldRowEnv_valid : oldRowEnv.Valid := by
  intro i item tuple hfreeze
  rcases map_eq_some_iff.mp hfreeze with ⟨_, -, rfl⟩
  dsimp only
  exact ⟨by decide, by decide⟩

theorem preservesXids_oldRow : PreservesXids oldRowEnv oldRowPage 5000000000 false :=
  (preservesXids_iff oldRowEnv_valid oldRowPage_valid (by decide) (by decide) (by decide)).mpr
    ⟨fun hitems => absurd hitems (List.cons_ne_nil _ _), fun hrecent => absurd hrecent (by decide)⟩

def newPage : Page where
  pdXidBase := 0
  pdMultiBase := 0
  compressed := false
  items := []

theorem not_preservesXids_newPage : ¬ PreservesXids oldRowEnv newPage 8589934592 false := by
  intro h
  have hvalid : newPage.Valid := by
    refine ⟨?_, by simp [newPage]⟩
    intro multi
    cases multi <;> decide
  have hfits := h.prepare.left
  unfold heapPagePrepareForXid at hfits
  rw [prepareRound_resets hvalid ⟨rfl, rfl, rfl, by decide⟩] at hfits
  exact absurd hfits.left (by decide)

end Prepare

end XidBase

end Heap

import OpenGauss.ShortXid.Impl

/-!
This module shows which shifts of a base keep the transaction ids that count from it and make room for
another one.
-/

open List

namespace ShortXid

variable {x delta d : Int} {base xid short : Nat} {xids : List Nat} {found : Option (Nat × Nat)}

section Integers

theorem toUInt64_of (h₀ : 0 ≤ x) (h₁ : x < 2 ^ 64) : toUInt64 x = x.toNat := by
  unfold toUInt64
  rw [Int.emod_eq_of_lt h₀ h₁]

theorem toInt64_of (h₀ : -2 ^ 63 ≤ x) (h₁ : x < 2 ^ 63) : toInt64 x = x := by
  unfold toInt64
  apply Int.bmod_eq_of_le
  . omega
  . omega

theorem toInt64_toUInt64 (h₀ : -2 ^ 63 ≤ x) (h₁ : x < 2 ^ 63) : toInt64 (toUInt64 x) = x := by
  unfold toInt64 toUInt64
  rw [Int.bmod_def]
  split
  . omega
  . omega

theorem toShort_of (h₀ : 0 ≤ x) (h₁ : x < 2 ^ 32) : toShort x = x.toNat := by
  unfold toShort
  rw [Int.emod_eq_of_lt h₀ h₁]

theorem natCast_toUInt64 (h₀ : 0 ≤ x) (h₁ : x < 2 ^ 64) : (toUInt64 x : Int) = x := by
  rw [toUInt64_of h₀ h₁]
  omega

theorem natCast_toShort (h₀ : 0 ≤ x) (h₁ : x < 2 ^ 32) : (toShort x : Int) = x := by
  rw [toShort_of h₀ h₁]
  omega

theorem toUInt64_add {k : Nat} (hbase : base < 2 ^ 63) (hk : k < 2 ^ 32)
    : toUInt64 ((base : Int) + (k : Int)) = base + k := by
  rw [toUInt64_of (by omega) (by omega)]
  omega

end Integers

section Base

variable {bases : Bases} {multi : Bool}

@[simp]
theorem Bases.base_setBase : (bases.setBase multi base).base multi = base := by
  cases multi <;> rfl

theorem Bases.base_setBase_of_ne {other : Bool} (h : other ≠ multi)
    : (bases.setBase multi base).base other = bases.base other := by
  cases multi <;> cases other <;> simp_all [Bases.setBase, Bases.base]

theorem transactionIdIsNormal_iff : transactionIdIsNormal xid = true ↔ 3 ≤ xid := by
  apply decide_eq_true_iff

theorem shortTransactionIdToNormal_of (h : 3 ≤ short)
    : shortTransactionIdToNormal base short = toUInt64 (short + base) := by
  unfold shortTransactionIdToNormal
  rw [if_pos (transactionIdIsNormal_iff.mpr h)]

theorem shortTransactionIdToNormal_special (base base' : Nat) (h : transactionIdIsNormal short = false)
    : shortTransactionIdToNormal base short = shortTransactionIdToNormal base' short := by
  simp [shortTransactionIdToNormal, h]

def Fits (base xid : Nat) : Prop :=
  base + firstNormalTransactionId ≤ xid ∧ xid ≤ base + maxShortTransactionId

instance : Decidable (Fits base xid) := inferInstanceAs (Decidable (_ ∧ _))

theorem fitsBase_iff (hbase : base < 2 ^ 63) : fitsBase base xid = true ↔ Fits base xid := by
  have hlow : toUInt64 ((base : Int) + firstNormalTransactionId) = base + firstNormalTransactionId :=
    toUInt64_add hbase (by decide)
  have hhigh : toUInt64 ((base : Int) + maxShortTransactionId) = base + maxShortTransactionId :=
    toUInt64_add hbase (by decide)
  simp [fitsBase, Fits, hlow, hhigh]

end Base

section MinMax

def Bounds (xids : List Nat) : Option (Nat × Nat) → Prop
  | none => xids = []
  | some (min, max) => min ∈ xids ∧ max ∈ xids ∧ ∀ xid ∈ xids, min ≤ xid ∧ xid ≤ max

theorem observe_bounds (h : Bounds xids found) (xid : Nat) : Bounds (xids ++ [xid]) (observe found xid) := by
  match found, h with
  | none, h =>
    rw [show xids = [] from h]
    simp [observe, Bounds]
  | some (min, max), ⟨hmin, hmax, hall⟩ =>
    have hmem : ∀ other ∈ xids ++ [xid], Min.min min xid ≤ other ∧ other ≤ Max.max max xid := by
      intro other hother
      rcases mem_append.mp hother with hold | hnew
      . have := hall other hold
        omega
      . rw [mem_singleton.mp hnew]
        omega
    refine ⟨?_, ?_, hmem⟩
    . grind
    . grind

theorem observe_bounds_if (h : Bounds xids found) (counts : Bool) (xid : Nat)
    : Bounds (xids ++ if counts then [xid] else []) (if counts then observe found xid else found) := by
  cases counts with
  | true => exact observe_bounds h xid
  | false => simpa using h

theorem foldl_bounds {α : Type} {step : Option (Nat × Nat) → α → Option (Nat × Nat)} {ids : α → List Nat}
    (hstep : ∀ found xids item, Bounds xids found → Bounds (xids ++ ids item) (step found item))
    (items : List α) : Bounds (items.flatMap ids) (items.foldl step none) := by
  have hfold : ∀ (items : List α) xids found, Bounds xids found →
      Bounds (xids ++ items.flatMap ids) (items.foldl step found) := by
    intro items
    induction items with
    | nil =>
      intro xids found h
      simpa using h
    | cons item items ih =>
      intro xids found h
      rw [flatMap_cons, ← append_assoc]
      exact ih _ _ (hstep found xids item h)
  exact hfold items [] none rfl

end MinMax

section Shift

def Short (xids : List Nat) : Prop := ∀ short ∈ xids, 3 ≤ short ∧ short < 2 ^ 32

-- The ids stay short ids of normal transactions, and the base does not leave its range.
structure Room (base : Nat) (xids : List Nat) (d : Int) : Prop where
  nonneg : 0 ≤ base + d
  lt : base + d < 2 ^ 63
  short : ∀ short ∈ xids, 3 ≤ short - d ∧ short - d < 2 ^ 32

-- Every id leaves room for the shift that the new transaction id needs.
def CanShift (base : Nat) (xids : List Nat) (xid : Nat) : Prop :=
  ∀ short ∈ xids,
    (xid < base + firstNormalTransactionId →
      base + firstNormalTransactionId + short ≤ xid + maxShortTransactionId)
    ∧ (base + maxShortTransactionId < xid →
      xid + firstNormalTransactionId ≤ base + maxShortTransactionId + short)

structure Moves (base : Nat) (xids : List Nat) (xid : Nat) (d : Int) : Prop where
  room : Room base xids d
  clamp : clampDelta base d = d
  lower : base + d + 3 ≤ xid
  upper : xid ≤ base + d + 0xFFFFFFFF

theorem shortTransactionIdToNormal_moved (h : Room base xids d) (hshort : 3 ≤ short) (hmem : short ∈ xids)
    : shortTransactionIdToNormal (toUInt64 (base + d)) (toShort (short - d))
        =
      shortTransactionIdToNormal base short := by
  have hnonneg := h.nonneg
  have hlt := h.lt
  have hroom := h.short short hmem
  have hxid : (toShort (short - d) : Int) = short - d := natCast_toShort (by omega) hroom.right
  have hbase : (toUInt64 (base + d) : Int) = base + d := natCast_toUInt64 hnonneg (by omega)
  rw [shortTransactionIdToNormal_of (by omega), shortTransactionIdToNormal_of hshort, hxid, hbase]
  congr 1
  omega

theorem clampDelta_eq (hbase : base < 2 ^ 63) (h₀ : -2 ^ 63 ≤ delta) (h₁ : delta < 2 ^ 63)
    : clampDelta base delta = Max.max delta (-base) := by
  unfold clampDelta
  split
  . rw [toInt64_toUInt64 (by omega) (by omega), toInt64_of (x := base) (by omega) (by omega)]
    split
    . rw [toInt64_of (by omega) (by omega)]
      omega
    . omega
  . omega

theorem room_of_bounds {min max : Nat} (hnonneg : 0 ≤ base + d) (hlt : base + d < 2 ^ 63)
    (hbounds : Bounds xids (some (min, max))) (hmin : d + 3 ≤ min) (hmax : max < 2 ^ 32 + d)
    : Room base xids d := by
  apply Room.mk hnonneg hlt
  intro short hshort
  have := hbounds.right.right short hshort
  omega

theorem Short.bounds {min max : Nat} (h : Short xids) (hbounds : Bounds xids (some (min, max)))
    : 3 ≤ min ∧ min ≤ max ∧ max < 2 ^ 32 := by
  have hmin := h min hbounds.left
  have hmax := h max hbounds.right.left
  have hle := hbounds.right.right max hbounds.right.left
  omega

theorem Moves.fits (h : Moves base xids xid d) : Fits (toUInt64 (base + d)) xid := by
  have hlt := h.room.lt
  have hbase := natCast_toUInt64 h.room.nonneg (by omega)
  have hlower := h.lower
  have hupper := h.upper
  unfold Fits firstNormalTransactionId maxShortTransactionId
  omega

variable (hbase : base < 2 ^ 63) (h₃ : 3 ≤ xid) (hxid : xid < 2 ^ 63)
include hbase hxid

theorem Moves.of (hclamp : d = Max.max delta (-base)) (h₀ : -2 ^ 63 ≤ delta)
    (hlower : base + d + 3 ≤ xid) (hupper : xid ≤ base + d + 0xFFFFFFFF) (hroom : Room base xids d)
    : Moves base xids xid (clampDelta base delta) := by
  rw [clampDelta_eq hbase h₀ (by omega), ← hclamp]
  refine ⟨hroom, ?_, hlower, hupper⟩
  rw [clampDelta_eq hbase (by omega) (by omega)]
  omega

include h₃

theorem shiftOf_none (hnil : xids = [])
    : ∃ delta, shiftOf base xid none = some delta ∧ Moves base xids xid (clampDelta base delta) := by
  refine ⟨_, rfl, ?_⟩
  unfold firstNormalTransactionId
  rw [toInt64_toUInt64 (by omega) (by omega)]
  apply Moves.of (d := (xid : Int) - 3 - base) hbase hxid (by omega) (by omega) (by omega) (by omega)
  refine ⟨by omega, by omega, ?_⟩
  simp [hnil]

theorem shiftFor_spec {min max : Nat} (hshort : Short xids) (hfits : ¬ Fits base xid)
    (hbounds : Bounds xids (some (min, max)))
    : (CanShift base xids xid →
        ∃ delta, shiftFor base xid min max = some delta ∧ Moves base xids xid (clampDelta base delta))
      ∧ (¬ CanShift base xids xid → shiftFor base xid min max = none) := by
  have hmax := hshort.bounds hbounds
  have hlow : toUInt64 ((base : Int) + firstNormalTransactionId) = base + 3 :=
    toUInt64_add (by omega) (by decide)
  have hhigh : toUInt64 ((base : Int) + maxShortTransactionId) = base + 0xFFFFFFFF :=
    toUInt64_add (by omega) (by decide)
  have hcan : CanShift base xids xid ↔ (xid < base + 3 → base + 3 + max ≤ xid + 0xFFFFFFFF)
      ∧ (base + 0xFFFFFFFF < xid → xid + 3 ≤ base + 0xFFFFFFFF + min) := by
    constructor
    . intro hcan
      exact ⟨(hcan max hbounds.right.left).left, (hcan min hbounds.left).right⟩
    . intro hcan short hmem
      have := hbounds.right.right short hmem
      unfold firstNormalTransactionId maxShortTransactionId
      omega
  unfold Fits firstNormalTransactionId maxShortTransactionId at hfits
  unfold shiftFor
  simp only [hlow, hhigh, hcan]
  by_cases hbelow : xid < base + 3
  . have hfree : toInt64 ((maxShortTransactionId : Int) - max) = 0xFFFFFFFF - max := by
      unfold maxShortTransactionId
      exact toInt64_of (by omega) (by omega)
    have hrequired : toInt64 (((base + 3 : Nat) : Int) - xid) = base + 3 - xid := by
      rw [toInt64_of (by omega) (by omega)]
      omega
    rw [if_pos hbelow, hfree, hrequired]
    by_cases hroom : base + 3 + max ≤ xid + 0xFFFFFFFF
    . rw [if_pos (by omega)]
      refine ⟨fun _ => ⟨_, rfl, ?_⟩, by omega⟩
      rw [Int.neg_tdiv, Int.tdiv_eq_ediv_of_nonneg (by omega)]
      apply Moves.of hbase hxid rfl (by omega) (by omega) (by omega)
      exact room_of_bounds (by omega) (by omega) hbounds (by omega) (by omega)
    . rw [if_neg (by omega)]
      exact ⟨by omega, fun _ => rfl⟩
  . have hfree : toInt64 ((min : Int) - firstNormalTransactionId) = min - 3 := by
      unfold firstNormalTransactionId
      exact toInt64_of (by omega) (by omega)
    have hrequired : toInt64 ((xid : Int) - ((base + 0xFFFFFFFF : Nat) : Int))
        = xid - (base + 0xFFFFFFFF) := by
      rw [toInt64_of (by omega) (by omega)]
      omega
    rw [if_neg hbelow, hfree, hrequired]
    by_cases hroom : xid + 3 ≤ base + 0xFFFFFFFF + min
    . rw [if_pos (by omega)]
      refine ⟨fun _ => ⟨_, rfl, ?_⟩, by omega⟩
      rw [Int.tdiv_eq_ediv_of_nonneg (by omega)]
      apply Moves.of hbase hxid rfl (by omega) (by omega) (by omega)
      exact room_of_bounds (by omega) (by omega) hbounds (by omega) (by omega)
    . rw [if_neg (by omega)]
      exact ⟨by omega, fun _ => rfl⟩

theorem shiftOf_spec (hshort : Short xids) (hfits : ¬ Fits base xid) (hbounds : Bounds xids found)
    : (CanShift base xids xid →
        ∃ delta, shiftOf base xid found = some delta ∧ Moves base xids xid (clampDelta base delta))
      ∧ (¬ CanShift base xids xid → shiftOf base xid found = none) := by
  match found, hbounds with
  | none, hnil =>
    have hcan : CanShift base xids xid := by
      rw [show xids = [] from hnil]
      simp [CanShift]
    exact ⟨fun _ => shiftOf_none hbase h₃ hxid hnil, fun hnot => absurd hcan hnot⟩
  | some (min, max), hbounds => exact shiftFor_spec hbase h₃ hxid hshort hfits hbounds

theorem moves_of_shiftOf (hshort : Short xids) (hfits : ¬ Fits base xid) (hbounds : Bounds xids found)
    (hdelta : shiftOf base xid found = some delta) : Moves base xids xid (clampDelta base delta) := by
  have ⟨hcan, hcannot⟩ := shiftOf_spec hbase h₃ hxid hshort hfits hbounds
  by_cases h : CanShift base xids xid
  . have ⟨delta', heq, hmoves⟩ := hcan h
    rw [heq] at hdelta
    cases hdelta
    exact hmoves
  . rw [hcannot h] at hdelta
    contradiction

end Shift

end ShortXid

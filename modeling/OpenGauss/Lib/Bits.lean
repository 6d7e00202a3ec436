import Mathlib.Data.Nat.Bitwise
import Mathlib.Order.Interval.Finset.Nat
import Mathlib.Algebra.BigOperators.Group.Finset.Piecewise
import Mathlib.Data.Nat.Count

/-!
This module contains the correspondence between numbers and lists of bits, least significant
first.
-/

namespace BitField

def push (word : UInt64) (bits : Nat) (field : UInt64) : UInt64 := (word <<< UInt64.ofNat bits) ||| field

def low (word : UInt64) (bits : Nat) : UInt64 := word &&& (((1 : UInt64) <<< UInt64.ofNat bits) - 1)

def drop (word : UInt64) (bits : Nat) : UInt64 := word >>> UInt64.ofNat bits

variable {word field : UInt64} {bits used : Nat}

section

variable (h : bits < 64)
include h

theorem toNat_ofNat_mod : (UInt64.ofNat bits).toNat % 64 = bits := by
  rw [UInt64.toNat_ofNat']
  omega

theorem toNat_mask : (((1 : UInt64) <<< UInt64.ofNat bits) - 1).toNat = 2 ^ bits - 1 := by
  have hlt : 2 ^ bits < 2 ^ 64 := Nat.pow_lt_pow_right (by omega) h
  have hpos : 0 < 2 ^ bits := Nat.two_pow_pos bits
  have hshift : ((1 : UInt64) <<< UInt64.ofNat bits).toNat = 2 ^ bits := by
    rw [UInt64.toNat_shiftLeft, toNat_ofNat_mod h, UInt64.toNat_one, Nat.one_shiftLeft, Nat.mod_eq_of_lt hlt]
  rw [UInt64.toNat_sub_of_le]
  . rw [hshift]
    rfl
  . rw [UInt64.le_iff_toNat_le, hshift]
    exact hpos

theorem toNat_low : (low word bits).toNat = word.toNat % 2 ^ bits := by
  unfold low
  rw [UInt64.toNat_and, toNat_mask h, Nat.and_two_pow_sub_one_eq_mod]

theorem toNat_drop : (drop word bits).toNat = word.toNat / 2 ^ bits := by
  unfold drop
  rw [UInt64.toNat_shiftRight, toNat_ofNat_mod h, Nat.shiftRight_eq_div_pow]

end

variable (hword : word.toNat < 2 ^ used)
include hword

variable (hfield : field.toNat < 2 ^ bits)
include hfield

variable (hbits : 0 < used)
include hbits

variable (hfits : used + bits ≤ 64)
include hfits

theorem toNat_push : (push word bits field).toNat = word.toNat * 2 ^ bits + field.toNat := by
  have hlt : word.toNat * 2 ^ bits < 2 ^ 64 := by
    calc word.toNat * 2 ^ bits < 2 ^ used * 2 ^ bits :=
      Nat.mul_lt_mul_of_pos_right hword (Nat.two_pow_pos bits)
      _ = 2 ^ (used + bits) := (Nat.pow_add ..).symm
      _ ≤ 2 ^ 64 := Nat.pow_le_pow_right (by omega) hfits
  unfold push
  rw [UInt64.toNat_or, UInt64.toNat_shiftLeft, toNat_ofNat_mod (by omega), Nat.shiftLeft_eq,
    Nat.mod_eq_of_lt hlt,
    ← Nat.shiftLeft_eq, ← Nat.shiftLeft_add_eq_or_of_lt hfield]

theorem push_lt : (push word bits field).toNat < 2 ^ (used + bits) := by
  rw [toNat_push hword hfield hbits hfits, Nat.pow_add]
  calc word.toNat * 2 ^ bits + field.toNat < word.toNat * 2 ^ bits + 2 ^ bits := by omega
    _ = (word.toNat + 1) * 2 ^ bits := (Nat.succ_mul ..).symm
    _ ≤ 2 ^ used * 2 ^ bits := Nat.mul_le_mul_right _ hword

theorem low_push : low (push word bits field) bits = field := by
  apply UInt64.toNat_inj.1
  rw [toNat_low (by omega), toNat_push hword hfield hbits hfits, Nat.mul_add_mod_self_right,
    Nat.mod_eq_of_lt hfield]

theorem drop_push : drop (push word bits field) bits = word := by
  apply UInt64.toNat_inj.1
  rw [toNat_drop (by omega), toNat_push hword hfield hbits hfits, Nat.add_comm,
    Nat.add_mul_div_right _ _ (Nat.two_pow_pos bits), Nat.div_eq_of_lt hfield, Nat.zero_add]

end BitField

namespace Bitmap

variable (bits : Nat → Bool) (len : Nat)

def ones (len : Nat) : Nat := Nat.count (fun i => bits i = true) len

def zeros (len : Nat) : Nat := Nat.count (fun i => bits i = false) len

def Full (len : Nat) : Prop := ∀ i, i < len → bits i = true

theorem ones_add_zeros : ones bits len + zeros bits len = len := by
  induction len with
  | zero => rfl
  | succ len ih =>
    simp only [ones, zeros, Nat.count_succ] at *
    cases bits len <;> simp <;> omega

theorem zeros_empty : zeros (fun _ => false) len = len := by
  simp [zeros]

theorem ones_empty : ones (fun _ => false) len = 0 := by
  simp [ones]

theorem zeros_eq_zero_iff : zeros bits len = 0 ↔ Full bits len := by
  induction len with
  | zero => simp [zeros, Full]
  | succ len ih =>
    simp only [zeros, Full, Nat.count_succ] at *
    constructor
    . intro h i hi
      by_cases hlast : i = len
      . subst hlast
        by_contra hbit
        simp [hbit] at h
      . apply ih.mp (by omega) i (by omega)
    . intro h
      rw [ih.mpr (fun i hi => h i (by omega)), h len (by omega)]
      simp

theorem ones_update_of_ge (pos len : Nat) (val : Bool) (h : len ≤ pos)
    : ones (Function.update bits pos val) len = ones bits len := by
  induction len with
  | zero => rfl
  | succ len ih =>
    simp only [ones, Nat.count_succ] at *
    rw [ih (by omega), Function.update_of_ne (by omega)]

theorem ones_update_true (pos len : Nat) (hpos : pos < len) (hbit : bits pos = false)
    : ones (Function.update bits pos true) len = ones bits len + 1 := by
  induction len with
  | zero => omega
  | succ len ih =>
    by_cases hlast : pos = len
    . subst hlast
      have hbelow := ones_update_of_ge bits pos pos true (Nat.le_refl _)
      simp only [ones, Nat.count_succ] at *
      rw [hbelow]
      simp [hbit]
    . simp only [ones, Nat.count_succ] at *
      rw [ih (by omega), Function.update_of_ne (by omega)]
      omega

theorem ones_update_false (pos len : Nat) (hpos : pos < len) (hbit : bits pos = true)
    : ones (Function.update bits pos false) len + 1 = ones bits len := by
  have h := ones_update_true (Function.update bits pos false) pos len hpos (by simp)
  rw [Function.update_idem, ← hbit, Function.update_eq_self] at h
  exact h.symm

theorem sum_add_of_eq_of_ne (f g : Nat → Nat) (n i d : Nat) (hi : i < n) (heq : g i = f i + d)
    (hne : ∀ j, j < n → j ≠ i → g j = f j)
    : (∑ j ∈ Finset.range n, g j) = (∑ j ∈ Finset.range n, f j) + d := by
  have hg : ∀ j ∈ Finset.range n, g j = f j + if j = i then d else 0 := by
    intro j hlt
    rw [Finset.mem_range] at hlt
    by_cases hj : j = i
    . subst hj
      simp [heq]
    . simp [hj, hne j hlt hj]
  rw [Finset.sum_congr rfl hg, Finset.sum_add_distrib, Finset.sum_ite_eq' _ i]
  simp [hi]

end Bitmap

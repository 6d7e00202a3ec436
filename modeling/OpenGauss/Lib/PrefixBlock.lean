import Mathlib.Data.Nat.Bitwise
import Mathlib.Tactic.Ring

/-!
This module contains the numbers that share all but their lowest bits with a number, as intervals and as the
results of masks.
-/

namespace PrefixBlock

-- From `lo` to `hi` are the numbers that differ from `n` in their lowest `w` bits only.
structure Block (w lo hi n : Nat) : Prop where
  exists_eq : ∃ q, lo = 2 ^ w * q ∧ hi + 1 = 2 ^ w * q + 2 ^ w
  le : lo ≤ n
  ge : n ≤ hi

namespace Block

variable {w lo hi n : Nat}

theorem div_eq_iff {q m : Nat} : m / 2 ^ w = q ↔ 2 ^ w * q ≤ m ∧ m < 2 ^ w * q + 2 ^ w := by
  have hpos : 0 < 2 ^ w := Nat.two_pow_pos w
  rw [Nat.div_eq_iff hpos]
  rw [Nat.mul_comm q]
  omega

theorem mem_iff (h : Block w lo hi n) (m : Nat) : lo ≤ m ∧ m ≤ hi ↔ m / 2 ^ w = n / 2 ^ w := by
  have ⟨q, hlo, hhi⟩ := h.exists_eq
  have hle := h.le
  have hge := h.ge
  have hq : n / 2 ^ w = q := by
    rw [div_eq_iff]
    omega
  rw [hq, div_eq_iff]
  omega

theorem of_div (w n : Nat) : Block w (2 ^ w * (n / 2 ^ w)) (2 ^ w * (n / 2 ^ w) + (2 ^ w - 1)) n := by
  have hpos : 0 < 2 ^ w := Nat.two_pow_pos w
  have hdiv := Nat.div_add_mod n (2 ^ w)
  have hmod := Nat.mod_lt n hpos
  apply Block.mk
  . refine ⟨n / 2 ^ w, rfl, ?_⟩
    omega
  . omega
  . omega

theorem append_left {k : Nat} (h : Block w lo hi n) (hk : w ≤ k) (x : Nat)
    : Block w (2 ^ k * x + lo) (2 ^ k * x + hi) (2 ^ k * x + n) := by
  have ⟨q, hlo, hhi⟩ := h.exists_eq
  have hle := h.le
  have hge := h.ge
  apply Block.mk
  . refine ⟨2 ^ (k - w) * x + q, ?_⟩
    have hpow : 2 ^ k = 2 ^ w * 2 ^ (k - w) := by
      rw [← Nat.pow_add]
      congr 1
      omega
    have hmul : 2 ^ w * (2 ^ (k - w) * x + q) = 2 ^ k * x + 2 ^ w * q := by
      rw [hpow]
      ring
    omega
  . omega
  . omega

theorem append_right {k y : Nat} (h : Block w lo hi n) (hy : y < 2 ^ k)
    : Block (k + w) (2 ^ k * lo) (2 ^ k * hi + (2 ^ k - 1)) (2 ^ k * n + y) := by
  have ⟨q, hlo, hhi⟩ := h.exists_eq
  have hle := Nat.mul_le_mul_left (2 ^ k) h.le
  have hge := Nat.mul_le_mul_left (2 ^ k) h.ge
  apply Block.mk
  . refine ⟨q, ?_⟩
    have hmul : 2 ^ k * (hi + 1) = 2 ^ (k + w) * q + 2 ^ (k + w) := by
      rw [hhi]
      ring
    have hmul' : 2 ^ k * lo = 2 ^ (k + w) * q := by
      rw [hlo]
      ring
    have := Nat.two_pow_pos k
    rw [Nat.mul_add, Nat.mul_one] at hmul
    omega
  . omega
  . omega

end Block

section Masks

variable {k a b : Nat}

theorem and_append (x y : Nat) (ha : a < 2 ^ k) (hb : b < 2 ^ k)
    : (2 ^ k * x + a) &&& (2 ^ k * y + b) = 2 ^ k * (x &&& y) + (a &&& b) := by
  rw [← Nat.div_add_mod ((2 ^ k * x + a) &&& (2 ^ k * y + b)) (2 ^ k), Nat.and_div_two_pow,
    Nat.and_mod_two_pow,
    Nat.mul_add_div (Nat.two_pow_pos k), Nat.mul_add_div (Nat.two_pow_pos k), Nat.mul_add_mod,
      Nat.mul_add_mod,
    Nat.div_eq_of_lt ha, Nat.div_eq_of_lt hb, Nat.mod_eq_of_lt ha, Nat.mod_eq_of_lt hb, Nat.add_zero,
    Nat.add_zero]

theorem or_append (x y : Nat) (ha : a < 2 ^ k) (hb : b < 2 ^ k)
    : (2 ^ k * x + a) ||| (2 ^ k * y + b) = 2 ^ k * (x ||| y) + (a ||| b) := by
  rw [← Nat.div_add_mod ((2 ^ k * x + a) ||| (2 ^ k * y + b)) (2 ^ k), Nat.or_div_two_pow, Nat.or_mod_two_pow,
    Nat.mul_add_div (Nat.two_pow_pos k), Nat.mul_add_div (Nat.two_pow_pos k), Nat.mul_add_mod,
      Nat.mul_add_mod,
    Nat.div_eq_of_lt ha, Nat.div_eq_of_lt hb, Nat.mod_eq_of_lt ha, Nat.mod_eq_of_lt hb, Nat.add_zero,
    Nat.add_zero]

theorem or_two_pow_sub_one (w : Nat) (ha : a < 2 ^ w) : a ||| (2 ^ w - 1) = 2 ^ w - 1 := by
  apply Nat.eq_of_testBit_eq
  intro i
  rw [Nat.testBit_or, Nat.testBit_two_pow_sub_one]
  by_cases hi : i < w
  . simp [hi]
  . have : a.testBit i = false := by
      apply Nat.testBit_lt_two_pow
      apply Nat.lt_of_lt_of_le ha
      exact Nat.pow_le_pow_right (by decide) (by omega)
    simp [hi, this]

theorem and_mask {n w x : Nat} (hx : x < 2 ^ n) (hw : w ≤ n)
    : x &&& (2 ^ n - 2 ^ w) = 2 ^ w * (x / 2 ^ w) := by
  have hpow : 2 ^ n = 2 ^ w * 2 ^ (n - w) := by
    rw [← Nat.pow_add]
    congr 1
    omega
  have hmask : 2 ^ n - 2 ^ w = 2 ^ w * (2 ^ (n - w) - 1) + 0 := by
    rw [hpow, Nat.mul_sub, Nat.mul_one, Nat.add_zero]
  have hdiv : x / 2 ^ w < 2 ^ (n - w) := by
    rw [Nat.div_lt_iff_lt_mul (Nat.two_pow_pos w), Nat.mul_comm, ← hpow]
    exact hx
  have hsplit := and_append (x / 2 ^ w) (2 ^ (n - w) - 1) (Nat.mod_lt x (Nat.two_pow_pos w))
    (Nat.two_pow_pos w)
  rw [Nat.div_add_mod, ← hmask, Nat.and_zero, Nat.add_zero, Nat.and_two_pow_sub_one_eq_mod,
    Nat.mod_eq_of_lt hdiv] at hsplit
  exact hsplit

theorem or_mask (w x : Nat) : x ||| (2 ^ w - 1) = 2 ^ w * (x / 2 ^ w) + (2 ^ w - 1) := by
  have hpos := Nat.two_pow_pos w
  have hmod := Nat.mod_lt x hpos
  have hsplit := or_append (k := w) (x / 2 ^ w) 0 hmod (by omega : 2 ^ w - 1 < 2 ^ w)
  rw [Nat.div_add_mod, Nat.mul_zero, Nat.zero_add, Nat.or_zero, or_two_pow_sub_one w hmod] at hsplit
  exact hsplit

theorem block_of_masks {n w x : Nat} (hx : x < 2 ^ n) (hw : w ≤ n)
    : Block w (x &&& (2 ^ n - 2 ^ w)) (x ||| (2 ^ w - 1)) x := by
  rw [and_mask hx hw, or_mask]
  exact Block.of_div w x

end Masks

end PrefixBlock

import OpenGauss.Lib.LittleEndian

/-!
This module contains streams of bits, most significant first.
-/

open List

namespace BitStream

def bitsOf (n v : Nat) : List Bool :=
  match n with
  | 0 => []
  | n + 1 => v.testBit n :: bitsOf n v

def ofBits (bits : List Bool) : Nat := bits.foldl (fun acc bit => 2 * acc + bit.toNat) 0

def bytesBits (bs : Bytes) : List Bool := bs.flatMap fun b => bitsOf 8 b.toNat

@[simp]
theorem length_bitsOf (n v : Nat) : (bitsOf n v).length = n := by
  induction n with
  | zero => rfl
  | succ n ih => rw [bitsOf, length_cons, ih]

@[simp]
theorem bytesBits_nil : bytesBits [] = [] := rfl

@[simp]
theorem bytesBits_cons (b : UInt8) (bs : Bytes) : bytesBits (b :: bs) = bitsOf 8 b.toNat ++ bytesBits bs := by
  simp [bytesBits]

@[simp]
theorem bytesBits_append (xs ys : Bytes) : bytesBits (xs ++ ys) = bytesBits xs ++ bytesBits ys := by
  simp [bytesBits]

@[simp]
theorem length_bytesBits (bs : Bytes) : (bytesBits bs).length = 8 * bs.length := by
  induction bs with
  | nil => rfl
  | cons b bs ih =>
    rw [bytesBits_cons, length_append, length_bitsOf, ih, length_cons]
    omega

theorem ofBits_foldl (acc : Nat) (bits : List Bool)
    : bits.foldl (fun acc bit => 2 * acc + bit.toNat) acc = acc * 2 ^ bits.length + ofBits bits := by
  induction bits generalizing acc with
  | nil => simp [ofBits]
  | cons bit bits ih =>
    unfold ofBits
    rw [foldl_cons, foldl_cons, ih, ih (2 * 0 + bit.toNat), length_cons, Nat.pow_succ]
    ring

theorem ofBits_append (xs ys : List Bool) : ofBits (xs ++ ys) = ofBits xs * 2 ^ ys.length + ofBits ys := by
  rw [ofBits, foldl_append, ofBits_foldl]
  rfl

theorem ofBits_cons (bit : Bool) (bits : List Bool)
    : ofBits (bit :: bits) = bit.toNat * 2 ^ bits.length + ofBits bits := by
  have h := ofBits_append [bit] bits
  simpa [ofBits] using h

theorem ofBits_lt (bits : List Bool) : ofBits bits < 2 ^ bits.length := by
  induction bits with
  | nil => simp [ofBits]
  | cons bit bits ih =>
    have hbit : bit.toNat ≤ 1 := Bool.toNat_le bit
    have hmul : bit.toNat * 2 ^ bits.length ≤ 1 * 2 ^ bits.length := Nat.mul_le_mul_right _ hbit
    rw [ofBits_cons, length_cons, Nat.pow_succ]
    omega

theorem ofBits_bitsOf (n v : Nat) : ofBits (bitsOf n v) = v % 2 ^ n := by
  induction n with
  | zero =>
    rw [Nat.pow_zero, Nat.mod_one]
    rfl
  | succ n ih =>
    have hbit : (v.testBit n).toNat = v / 2 ^ n % 2 := by
      rw [Nat.testBit_eq_decide_div_mod_eq]
      have hlt : v / 2 ^ n % 2 < 2 := Nat.mod_lt _ (by decide)
      by_cases hone : v / 2 ^ n % 2 = 1
      . simp [hone]
      . have hzero : v / 2 ^ n % 2 = 0 := by omega
        simp [hzero]
    rw [bitsOf, ofBits_cons, ih, length_bitsOf, hbit, Nat.pow_succ, Nat.mod_mul]
    ring

theorem ofBits_bitsOf_of_lt {n v : Nat} (h : v < 2 ^ n) : ofBits (bitsOf n v) = v := by
  rw [ofBits_bitsOf, Nat.mod_eq_of_lt h]

theorem bitsOf_mod {k n : Nat} (h : k ≤ n) (v : Nat) : bitsOf k (v % 2 ^ n) = bitsOf k v := by
  induction k with
  | zero => rfl
  | succ k ih =>
    rw [bitsOf, bitsOf, ih (by omega), Nat.testBit_mod_two_pow, decide_eq_true (by omega), Bool.true_and]

theorem bitsOf_add (m n v : Nat) : bitsOf (m + n) v = bitsOf m (v / 2 ^ n) ++ bitsOf n v := by
  induction m with
  | zero => rw [Nat.zero_add, bitsOf.eq_1 (v / 2 ^ n), nil_append]
  | succ m ih =>
    rw [Nat.add_right_comm, bitsOf, bitsOf, ih, Nat.testBit_div_two_pow, cons_append]

theorem bitsOf_ofBits (bits : List Bool) : bitsOf bits.length (ofBits bits) = bits := by
  induction bits with
  | nil => rfl
  | cons bit bits ih =>
    have hlt := ofBits_lt bits
    have hbit : (ofBits (bit :: bits)).testBit bits.length = bit := by
      rw [ofBits_cons, Nat.testBit_eq_decide_div_mod_eq, Nat.add_comm,
        Nat.add_mul_div_right _ _ (Nat.two_pow_pos _), Nat.div_eq_of_lt hlt]
      cases bit
      . rfl
      . rfl
    have hrest : bitsOf bits.length (ofBits (bit :: bits)) = bits := by
      rw [← bitsOf_mod (Nat.le_refl _), ofBits_cons, Nat.add_comm, Nat.add_mul_mod_self_right,
        Nat.mod_eq_of_lt hlt, ih]
    rw [length_cons, bitsOf, hbit, hrest]

theorem getElem?_bitsOf {n v i : Nat} (h : i < n) : (bitsOf n v)[i]? = some (v.testBit (n - 1 - i)) := by
  induction n generalizing i with
  | zero => omega
  | succ n ih =>
    cases i with
    | zero => rw [bitsOf, getElem?_cons_zero, Nat.add_sub_cancel, Nat.sub_zero]
    | succ i =>
      rw [bitsOf, getElem?_cons_succ, ih (by omega)]
      congr 2
      omega

theorem getElem?_bytesBits {bs : Bytes} {i : Nat} (h : i < 8 * bs.length)
    : (bytesBits bs)[i]? = some ((bs.getD (i / 8) 0).toNat.testBit (7 - i % 8)) := by
  induction bs generalizing i with
  | nil => simp at h
  | cons b bs ih =>
    rw [bytesBits_cons]
    by_cases hfirst : i < 8
    . have hdiv : i / 8 = 0 := by omega
      have hmod : i % 8 = i := by omega
      rw [getElem?_append_left (by simpa using hfirst), getElem?_bitsOf hfirst, hdiv, hmod]
      rfl
    . rw [length_cons] at h
      have hdiv : i / 8 = (i - 8) / 8 + 1 := by omega
      have hmod : i % 8 = (i - 8) % 8 := by omega
      rw [getElem?_append_right (by simpa using hfirst), length_bitsOf, ih (by omega), hdiv, hmod,
        getD_cons_succ]

theorem bit_of_drop {bs : Bytes} {pos : Nat} {bit : Bool} {rest : List Bool}
    (h : (bytesBits bs).drop pos = bit :: rest)
    : (bs.getD (pos / 8) 0).toNat.testBit (7 - pos % 8) = bit ∧
      (bytesBits bs).drop (pos + 1) = rest ∧ pos < 8 * bs.length := by
  have hlt : pos < 8 * bs.length := by
    have hlen := congrArg List.length h
    rw [length_drop, length_bytesBits, length_cons] at hlen
    omega
  have hget : (bytesBits bs)[pos]? = some bit := by
    rw [← Nat.add_zero pos, ← getElem?_drop, h, getElem?_cons_zero]
  rw [getElem?_bytesBits hlt] at hget
  refine ⟨Option.some.inj hget, ?_, hlt⟩
  rw [← drop_drop, h, drop_succ_cons, drop_zero]

end BitStream

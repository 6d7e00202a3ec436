import OpenGauss.Lib.LittleEndian

/-!
This module contains the comparison of byte strings by `memcmp` and the encodings that it orders like
the numbers and the strings they stand for.
-/

open List LittleEndian

namespace ByteOrder

def compareByte (x y : UInt8) : Ordering :=
  compare x.toNat y.toNat

@[simp]
theorem compareByte_self (x : UInt8) : compareByte x x = .eq := by
  simp [compareByte]

def compareString (a b : Bytes) : Ordering :=
  List.compareLex compareByte a b

-- The callers compare strings of one length.
def memcmp (a b : Bytes) : Ordering :=
  compareString a b

def bigEndian (w n : Nat) : Bytes :=
  (LittleEndian.encode w n).reverse

@[simp]
theorem length_bigEndian (w n : Nat) : (bigEndian w n).length = w := by
  simp [bigEndian]

@[simp]
theorem memcmp_nil : memcmp [] [] = .eq := by
  rfl

theorem memcmp_cons (x y : UInt8) (xs ys : Bytes)
    : memcmp (x :: xs) (y :: ys) = (compareByte x y).then (memcmp xs ys) := by
  exact List.compareLex_cons_cons

theorem memcmp_append (xs ys : Bytes) (h : xs.length = ys.length) (xs' ys' : Bytes)
    : memcmp (xs ++ xs') (ys ++ ys') = (memcmp xs ys).then (memcmp xs' ys') := by
  induction xs generalizing ys with
  | nil =>
    rw [length_nil, eq_comm, length_eq_zero_iff] at h
    rw [h]
    rfl
  | cons x xs ih =>
    cases ys with
    | nil => simp at h
    | cons y ys =>
      rw [cons_append, cons_append, memcmp_cons, memcmp_cons, ih ys (by simpa using h), Ordering.then_assoc]

theorem compare_div_then_mod (x y : Nat)
    : (compare (x / 256) (y / 256)).then (compare (x % 256) (y % 256)) = compare x y := by
  rcases Nat.lt_trichotomy (x / 256) (y / 256) with h | h | h
  . rw [compare_lt_iff_lt.mpr h, compare_lt_iff_lt.mpr (show x < y by omega)]
    rfl
  . rw [compare_eq_iff_eq.mpr h, Ordering.eq_then]
    rcases Nat.lt_trichotomy (x % 256) (y % 256) with h' | h' | h'
    . rw [compare_lt_iff_lt.mpr h', compare_lt_iff_lt.mpr (show x < y by omega)]
    . rw [compare_eq_iff_eq.mpr h', compare_eq_iff_eq.mpr (show x = y by omega)]
    . rw [compare_gt_iff_gt.mpr h', compare_gt_iff_gt.mpr (show x > y by omega)]
  . rw [compare_gt_iff_gt.mpr h, compare_gt_iff_gt.mpr (show x > y by omega)]
    rfl

theorem bigEndian_succ (w n : Nat) : bigEndian (w + 1) n = bigEndian w (n / 256) ++ [UInt8.ofNat n] := by
  simp [bigEndian, encode]

theorem memcmp_bigEndian (w : Nat)
    : ∀ (x y : Nat), x < 256 ^ w → y < 256 ^ w → memcmp (bigEndian w x) (bigEndian w y) = compare x y := by
  induction w with
  | zero =>
    intro x y hx hy
    rw [Nat.pow_zero, Nat.lt_one_iff] at hx hy
    rw [hx, hy]
    rfl
  | succ w ih =>
    intro x y hx hy
    rw [Nat.pow_succ] at hx hy
    rw [bigEndian_succ, bigEndian_succ, memcmp_append _ _ (by simp),
      ih (x / 256) (y / 256) (Nat.div_lt_of_lt_mul (by rwa [Nat.mul_comm] at hx))
        (Nat.div_lt_of_lt_mul (by rwa [Nat.mul_comm] at hy)),
      memcmp_cons, memcmp_nil, Ordering.then_eq]
    unfold compareByte
    rw [UInt8.toNat_ofNat', UInt8.toNat_ofNat']
    exact compare_div_then_mod x y

theorem bigEndian_append (v x : Nat)
    : ∀ (w y : Nat), y < 256 ^ w → bigEndian v x ++ bigEndian w y = bigEndian (v + w) (x * 256 ^ w + y) := by
  intro w
  induction w with
  | zero =>
    intro y hy
    rw [Nat.pow_zero, Nat.lt_one_iff] at hy
    rw [hy, Nat.pow_zero, Nat.mul_one, Nat.add_zero, Nat.add_zero]
    exact append_nil _
  | succ w ih =>
    intro y hy
    have hdiv : (x * 256 ^ (w + 1) + y) / 256 = x * 256 ^ w + y / 256 := by
      rw [Nat.pow_succ, ← Nat.mul_assoc, Nat.add_comm, Nat.add_mul_div_right _ _ (by omega), Nat.add_comm]
    have hbyte : UInt8.ofNat (x * 256 ^ (w + 1) + y) = UInt8.ofNat y := by
      apply UInt8.toNat.inj
      rw [UInt8.toNat_ofNat', UInt8.toNat_ofNat', Nat.pow_succ, ← Nat.mul_assoc]
      omega
    rw [Nat.pow_succ] at hy
    rw [← Nat.add_assoc, bigEndian_succ, bigEndian_succ, ← append_assoc, ih (y / 256) (by omega), hdiv, hbyte]

theorem memcmp_signed (w x y : Nat) (hw : 0 < w) (hx : x < 256 ^ w) (hy : y < 256 ^ w)
    : memcmp ((if 256 ^ w ≤ 2 * x then 0 else 1) :: bigEndian w x)
          ((if 256 ^ w ≤ 2 * y then 0 else 1) :: bigEndian w y)
        =
      compare (toSigned w x) (toSigned w y) := by
  have hsigned : ∀ n, n < 256 ^ w →
      toSigned w n = if 256 ^ w ≤ 2 * n then (n : Int) - (256 ^ w : Nat) else n := by
    intro n hn
    have heven : ∃ k, 256 ^ w = 2 * k := by
      obtain ⟨v, rfl⟩ := Nat.exists_eq_add_of_lt hw
      refine ⟨128 * 256 ^ (0 + v), ?_⟩
      rw [Nat.pow_succ]
      omega
    obtain ⟨k, hk⟩ := heven
    unfold toSigned Int.bmod
    rw [hk] at hn ⊢
    rw [Int.emod_eq_of_lt (by omega) (by omega)]
    split
    . rw [if_neg (by omega)]
    . rw [if_pos (by omega)]
  rw [hsigned x hx, hsigned y hy, memcmp_cons, memcmp_bigEndian w x y hx hy]
  generalize 256 ^ w = m at *
  rcases Nat.lt_trichotomy x y with h | h | h
  . split
    . rw [if_pos (by omega), if_pos (by omega), compare_lt_iff_lt.mpr h]
      rw [compare_lt_iff_lt.mpr (show ((x : Int) - (m : Nat) < (y : Int) - (m : Nat)) by omega)]
      rfl
    . split
      . rw [compare_gt_iff_gt.mpr (show (x : Int) > (y : Int) - (m : Nat) by omega)]
        rfl
      . rw [compare_lt_iff_lt.mpr h, compare_lt_iff_lt.mpr (show (x : Int) < (y : Int) by omega)]
        rfl
  . subst h
    split
    . simp
    . simp
  . split
    . split
      . rw [compare_gt_iff_gt.mpr h]
        rw [compare_gt_iff_gt.mpr (show ((x : Int) - (m : Nat) > (y : Int) - (m : Nat)) by omega)]
        rfl
      . rw [compare_lt_iff_lt.mpr (show (x : Int) - (m : Nat) < (y : Int) by omega)]
        rfl
    . rw [if_neg (by omega), if_neg (by omega), compare_gt_iff_gt.mpr h,
        compare_gt_iff_gt.mpr (show (x : Int) > (y : Int) by omega)]
      rfl

theorem memcmp_padded (xs : Bytes) (hxs : ∀ x, x ∈ xs → x ≠ 0)
    : ∀ (ys : Bytes) (m n : Nat), (∀ y, y ∈ ys → y ≠ 0) → xs.length + m = ys.length + n →
        memcmp (xs ++ List.replicate m 0) (ys ++ List.replicate n 0) = compareString xs ys := by
  have hzero : ∀ x : UInt8, x ≠ 0 → 0 < x.toNat := by
    intro x hx
    apply Nat.pos_of_ne_zero
    intro hx'
    exact hx (UInt8.toNat.inj hx')
  induction xs with
  | nil =>
    intro ys m n hys hlength
    cases ys with
    | nil =>
      have hmn : m = n := by simpa using hlength
      rw [hmn, nil_append]
      clear hmn hlength
      induction n with
      | zero => rfl
      | succ n ih =>
        rw [replicate_succ, memcmp_cons, ih]
        rfl
    | cons y ys =>
      rw [nil_append]
      obtain ⟨m, rfl⟩ : ∃ k, m = k + 1 := ⟨ys.length + n, by simp at hlength; omega⟩
      have hlt : compareByte 0 y = .lt := compare_lt_iff_lt.mpr (hzero y (hys y mem_cons_self))
      rw [replicate_succ, cons_append, memcmp_cons, hlt]
      rfl
  | cons x xs ih =>
    intro ys m n hys hlength
    cases ys with
    | nil =>
      rw [nil_append]
      obtain ⟨n, rfl⟩ : ∃ k, n = k + 1 := ⟨xs.length + m, by simp at hlength; omega⟩
      have hgt : compareByte x 0 = .gt := compare_gt_iff_gt.mpr (hzero x (hxs x mem_cons_self))
      rw [replicate_succ, cons_append, memcmp_cons, hgt]
      rfl
    | cons y ys =>
      have hcons : compareString (x :: xs) (y :: ys) = (compareByte x y).then (compareString xs ys) :=
        memcmp_cons x y xs ys
      rw [cons_append, cons_append, memcmp_cons, hcons,
        ih (by intro x' hx'; exact hxs x' (mem_cons_of_mem _ hx')) ys m n
          (by intro y' hy'; exact hys y' (mem_cons_of_mem _ hy')) (by simp at hlength; omega)]

end ByteOrder

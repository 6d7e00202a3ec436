import OpenGauss.Mot.IndexKey.Lemmas

/-!
This module shows which floating point numbers and which dates the keys put into their order.
-/

open LittleEndian

namespace Mot

open ByteOrder

structure FloatFormat where
  exponentBits : Nat
  mantissaBits : Nat

namespace FloatFormat

def single : FloatFormat := ⟨8, 23⟩
def double : FloatFormat := ⟨11, 52⟩

variable (fmt : FloatFormat)

def sign (n : Nat) : Nat := n / 2 ^ (fmt.exponentBits + fmt.mantissaBits)
def exponent (n : Nat) : Nat := n / 2 ^ fmt.mantissaBits % 2 ^ fmt.exponentBits
def mantissa (n : Nat) : Nat := n % 2 ^ fmt.mantissaBits

def IsNaN (n : Nat) : Prop := fmt.exponent n = 2 ^ fmt.exponentBits - 1 ∧ fmt.mantissa n ≠ 0
def IsZero (n : Nat) : Prop := fmt.exponent n = 0 ∧ fmt.mantissa n = 0

-- The two zeros are equal, or the negative one is the first.
def Ordered (order : Ordering) (x y : Nat) : Prop :=
  order = compare (signMagnitude (1 + fmt.exponentBits + fmt.mantissaBits) x)
      (signMagnitude (1 + fmt.exponentBits + fmt.mantissaBits) y)
    ∨ (fmt.IsZero x ∧ fmt.IsZero y ∧ order = compare (fmt.sign y) (fmt.sign x))

def BothNegative (x y : Nat) : Prop := fmt.sign x = 1 ∧ fmt.sign y = 1

-- The negated mantissa 0 is 0 again, the lowest instead of the highest.
def MantissaCarry (x y : Nat) : Prop :=
  fmt.exponent x = fmt.exponent y ∧ (fmt.mantissa x = 0 ↔ fmt.mantissa y ≠ 0)

instance (n : Nat) : Decidable (fmt.IsNaN n) := inferInstanceAs (Decidable (_ ∧ _))
instance (n : Nat) : Decidable (fmt.IsZero n) := inferInstanceAs (Decidable (_ ∧ _))
instance (order : Ordering) (x y : Nat) : Decidable (fmt.Ordered order x y) :=
  inferInstanceAs (Decidable (_ ∨ _))

end FloatFormat

-- `2048 - exp` is below zero for the exponents above 64.
def ExponentBorrow (x y : Nat) : Prop :=
  FloatFormat.double.exponent x ≤ 64 ↔ 64 < FloatFormat.double.exponent y

def compareFloatKeys (buf buf' : Memory) (pos pos' : Nat) (x y : UInt64) : Ordering :=
  memcmp ((Column.packKeyFloat buf pos x).load pos 6) ((Column.packKeyFloat buf' pos' y).load pos' 6)

def compareDoubleKeys (buf buf' : Memory) (pos pos' : Nat) (x y : UInt64) : Ordering :=
  memcmp ((Column.packKeyDouble buf pos x).load pos 11) ((Column.packKeyDouble buf' pos' y).load pos' 11)

def compareDateKeys (buf buf' : Memory) (pos pos' : Nat) (x y : UInt64) : Ordering :=
  memcmp ((Column.packKeyDate buf pos x).load pos 4) ((Column.packKeyDate buf' pos' y).load pos' 4)

section Compare

theorem compare_eq_compare_iff {α β : Type} [LinearOrder α] [LinearOrder β] (a b : α) (c d : β)
    : compare a b = compare c d ↔ ((a < b ↔ c < d) ∧ (b < a ↔ d < c)) := by
  rcases lt_trichotomy a b with h | h | h
  . rw [compare_lt_iff_lt.mpr h, eq_comm, compare_lt_iff_lt]
    simp only [h, true_iff, h.not_gt, false_iff, iff_self_and]
    exact not_lt_of_gt
  . rw [compare_eq_iff_eq.mpr h, eq_comm, compare_eq_iff_eq, h]
    simp only [lt_irrefl, false_iff]
    exact ⟨fun h => ⟨h.not_lt, h.not_gt⟩, fun h => le_antisymm (not_lt.mp h.right) (not_lt.mp h.left)⟩
  . rw [compare_gt_iff_gt.mpr h, eq_comm, compare_gt_iff_gt]
    simp only [h, true_iff, h.not_gt, false_iff, iff_and_self]
    exact not_lt_of_gt

variable (buf buf' : Memory) (pos pos' : Nat) (x y : UInt64)

theorem compareFloatKeys_eq
    : compareFloatKeys buf buf' pos pos' x y = compare (floatKey (getBytes4 x)) (floatKey (getBytes4 y)) := by
  have hload := (packed_float buf pos x).load
  have hload' := (packed_float buf' pos' y).load
  rw [length_bigEndian] at hload hload'
  unfold compareFloatKeys
  rw [hload, hload', memcmp_bigEndian 6 _ _ (floatKey_lt _) (floatKey_lt _)]

theorem compareDoubleKeys_eq
    : compareDoubleKeys buf buf' pos pos' x y
        =
      compare (doubleKey (getBytes8 x)) (doubleKey (getBytes8 y)) := by
  have hload := (packed_double buf pos x).load
  have hload' := (packed_double buf' pos' y).load
  rw [length_bigEndian] at hload hload'
  unfold compareDoubleKeys
  rw [hload, hload', memcmp_bigEndian 11 _ _ (doubleKey_lt _) (doubleKey_lt _)]

theorem compareDateKeys_eq
    : compareDateKeys buf buf' pos pos' x y = compare (getBytes4 x) (getBytes4 y) := by
  have hlt : ∀ n, getBytes4 n < 256 ^ 4 := by
    intro n
    exact Nat.mod_lt _ (by omega)
  have hload := (packed_word buf 4 pos (getBytes4 x)).load
  have hload' := (packed_word buf' 4 pos' (getBytes4 y)).load
  rw [length_bigEndian] at hload hload'
  unfold compareDateKeys Column.packKeyDate
  rw [hload, hload', memcmp_bigEndian 4 _ _ (hlt x) (hlt y)]

end Compare

open FloatFormat

theorem lexicographic_lt_iff {base a b c d : Nat} (hb : b < base) (hd : d < base)
    : a * base + b < c * base + d ↔ (a < c ∨ (a = c ∧ b < d)) := by
  rcases Nat.lt_trichotomy a c with h | h | h
  . have hmul := Nat.mul_le_mul_right base h
    rw [Nat.succ_mul] at hmul
    omega
  . subst h
    omega
  . have hmul := Nat.mul_le_mul_right base h
    rw [Nat.succ_mul] at hmul
    omega

theorem negated_lt_iff {base unit a b : Nat} (ha : a * unit < base) (hb : b * unit < base) (hunit : 0 < unit)
    : (base - a * unit) % base < (base - b * unit) % base ↔ b ≠ 0 ∧ (a = 0 ∨ b < a) := by
  have hzero : ∀ n, n * unit < base → n ≠ 0 → (base - n * unit) % base = base - n * unit := by
    intro n hn hne
    have := Nat.mul_pos (Nat.pos_of_ne_zero hne) hunit
    apply Nat.mod_eq_of_lt
    omega
  by_cases ha0 : a = 0
  . by_cases hb0 : b = 0
    . subst ha0 hb0
      omega
    . rw [hzero b hb hb0, ha0, Nat.zero_mul, Nat.sub_zero, Nat.mod_self]
      omega
  . by_cases hb0 : b = 0
    . rw [hzero a ha ha0, hb0, Nat.zero_mul, Nat.sub_zero, Nat.mod_self]
      omega
    . rw [hzero a ha ha0, hzero b hb hb0]
      rcases Nat.lt_or_ge b a with h | h
      . have := Nat.mul_lt_mul_of_pos_right h hunit
        omega
      . have := Nat.mul_le_mul_right unit h
        omega

theorem ordered_iff_of_key (fmt : FloatFormat) (key : Nat → Nat) (low : Nat → Prop) (half : Nat)
    (hhalf : half = 2 ^ (fmt.exponentBits + fmt.mantissaBits))
    (hzero : fmt.IsZero 0 ∧ fmt.IsZero half)
    (hlow : ∀ a b, fmt.exponent a ≤ fmt.exponent b → low b → low a)
    (hmagnitude : ∀ a b, half ≤ a → a < 2 * half → half ≤ b → b < 2 * half → (a < b
      ↔ fmt.exponent a < fmt.exponent b
        ∨ fmt.exponent a = fmt.exponent b ∧ fmt.mantissa a < fmt.mantissa b))
    (hpos : ∀ a b, a < half → b < half → (key a < key b ↔ a < b))
    (hmixed : ∀ a b, a < half → half ≤ b → key b < key a)
    (hneg : ∀ a b, half ≤ a → half ≤ b → (key a < key b
      ↔ low a ∧ ¬ low b ∨ (low a ↔ low b) ∧ fmt.exponent b < fmt.exponent a
        ∨ fmt.exponent a = fmt.exponent b
          ∧ fmt.mantissa b ≠ 0 ∧ (fmt.mantissa a = 0 ∨ fmt.mantissa b < fmt.mantissa a)))
    {m n : Nat} (hm : m < 2 * half) (hn : n < 2 * half)
    : fmt.Ordered (compare (key m) (key n)) m n
        ↔ ¬ (fmt.BothNegative m n ∧ (fmt.MantissaCarry m n ∨ (low m ↔ ¬ low n))) := by
  have hsign : ∀ a, a < 2 * half → fmt.sign a = if a < half then 0 else 1 := by
    intro a ha
    rw [FloatFormat.sign, ← hhalf]
    split_ifs with hlt
    . exact Nat.div_eq_of_lt hlt
    . exact Nat.div_eq_of_lt_le (by omega) ha
  have hsize : 1 + fmt.exponentBits + fmt.mantissaBits - 1 = fmt.exponentBits + fmt.mantissaBits := by omega
  have hcast : (2 : Int) ^ (fmt.exponentBits + fmt.mantissaBits) = half := by simp [hhalf]
  rw [Ordered, BothNegative, MantissaCarry, hsign m hm, hsign n hn, compare_eq_compare_iff,
    compare_eq_compare_iff, signMagnitude, signMagnitude, hsize, ← hhalf, hcast]
  rcases Nat.lt_or_ge m half with hm' | hm'
  . rw [if_pos hm', if_pos hm']
    rcases Nat.lt_or_ge n half with hn' | hn'
    . rw [if_pos hn', hpos m n hm' hn', hpos n m hn' hm']
      omega
    . rw [if_neg (by omega), if_neg (by omega)]
      have := hmixed m n hm' hn'
      by_cases heq : m = 0 ∧ n = half
      . rw [heq.1, heq.2] at this ⊢
        simp [hzero, this.not_gt, this]
      . simp
        omega
  . rw [if_neg (Nat.not_lt.mpr hm'), if_neg (Nat.not_lt.mpr hm')]
    rcases Nat.lt_or_ge n half with hn' | hn'
    . rw [if_pos hn', if_pos hn']
      have := hmixed n m hn' hm'
      by_cases heq : n = 0 ∧ m = half
      . rw [heq.1, heq.2] at this ⊢
        simp [hzero, this.not_gt, this]
      . simp
        omega
    . have hmn := hmagnitude m n hm' hm hn' hn
      have hnm := hmagnitude n m hn' hn hm' hm
      have hlmn := hlow m n
      have hlnm := hlow n m
      rw [if_neg (by omega), if_neg (by omega), hneg m n hm' hn', hneg n m hn' hm',
        IsZero, IsZero]
      generalize fmt.exponent m = em, fmt.exponent n = en, fmt.mantissa m = fm, fmt.mantissa n = fn at *
      by_cases hlm : low m
      all_goals
        by_cases hln : low n
        all_goals
          simp [hlm, hln] at hlmn hlnm ⊢
          omega

theorem floatKey_ordered_iff (m n : Nat) (hm : m < 2 ^ 32) (hn : n < 2 ^ 32)
    : single.Ordered (compare (floatKey m) (floatKey n)) m n
        ↔ ¬ (single.BothNegative m n ∧ single.MantissaCarry m n) := by
  have h := ordered_iff_of_key single floatKey (fun _ => True) (2 ^ 31) rfl (by decide) (fun _ _ _ => id) ?_ ?_
    ?_ ?_ hm hn
  . simpa using h
  all_goals
    intro a b
    simp only [exponent, mantissa, single, floatKey]
  . omega
  . intro ha hb
    rw [if_pos ha, if_pos hb, lexicographic_lt_iff (by omega) (by omega)]
    omega
  . intro ha hb
    rw [if_pos ha, if_neg (by omega)]
    omega
  . intro ha hb
    rw [if_neg (by omega), if_neg (by omega),
      lexicographic_lt_iff (Nat.mod_lt _ (by omega)) (Nat.mod_lt _ (by omega)),
      negated_lt_iff (by omega) (by omega) (by omega)]
    simp only [true_and, not_true_eq_false, false_or]
    omega

theorem doubleKey_ordered_iff (m n : Nat) (hm : m < 2 ^ 64) (hn : n < 2 ^ 64)
    : double.Ordered (compare (doubleKey m) (doubleKey n)) m n
        ↔ ¬ (double.BothNegative m n ∧ (double.MantissaCarry m n ∨ ExponentBorrow m n)) := by
  have h := ordered_iff_of_key double doubleKey (double.exponent · ≤ 64) (2 ^ 63) rfl (by decide)
    (fun _ _ => le_trans) ?_ ?_ ?_ ?_ hm hn
  . simpa [ExponentBorrow] using h
  all_goals
    intro a b
    simp only [exponent, mantissa, double, doubleKey]
  . omega
  . intro ha hb
    rw [if_pos ha, if_pos hb, lexicographic_lt_iff (by omega) (by omega)]
    omega
  . intro ha hb
    rw [if_pos ha, if_neg (by omega)]
    omega
  . intro ha hb
    rw [if_neg (by omega), if_neg (by omega),
      lexicographic_lt_iff (Nat.mod_lt _ (by omega)) (Nat.mod_lt _ (by omega)),
      negated_lt_iff (by omega) (by omega) (by omega)]
    omega

theorem date_ordered_iff (m n : Nat) (hm : m < 2 ^ 32) (hn : n < 2 ^ 32)
    : compare m n = compare (toSigned 4 m) (toSigned 4 n)
        ↔ (toSigned 4 m < 0 ↔ toSigned 4 n < 0) := by
  rw [compare_eq_compare_iff]
  unfold toSigned Int.bmod
  dsimp only
  omega

/--
The keys of two floating point numbers are ordered like the numbers unless both are negative and one of them
is the lowest number of their exponent, or the exponents of two double precision numbers lie on both sides
of 64. The keys of two dates are ordered like the dates if both dates have the same sign.
-/
theorem compareKeys_ordered_iff (buf buf' : Memory) (pos pos' : Nat) (x y : UInt64)
    : (single.Ordered (compareFloatKeys buf buf' pos pos' x y) (getBytes4 x) (getBytes4 y)
          ↔ ¬ (single.BothNegative (getBytes4 x) (getBytes4 y)
            ∧ single.MantissaCarry (getBytes4 x) (getBytes4 y)))
        ∧ (double.Ordered (compareDoubleKeys buf buf' pos pos' x y) (getBytes8 x) (getBytes8 y)
          ↔ ¬ (double.BothNegative (getBytes8 x) (getBytes8 y)
            ∧ (double.MantissaCarry (getBytes8 x) (getBytes8 y) ∨ ExponentBorrow (getBytes8 x) (getBytes8 y))))
        ∧ (compareDateKeys buf buf' pos pos' x y = ColumnType.date.compareDatum x y
          ↔ (LittleEndian.toSigned 4 (getBytes4 x) < 0 ↔ LittleEndian.toSigned 4 (getBytes4 y) < 0)) := by
  have hlt : ∀ n, getBytes4 n < 2 ^ 32 := by
    intro n
    exact Nat.mod_lt _ (by omega)
  rw [compareFloatKeys_eq, compareDoubleKeys_eq, compareDateKeys_eq]
  apply And.intro
  . exact floatKey_ordered_iff _ _ (hlt x) (hlt y)
  . apply And.intro
    . exact doubleKey_ordered_iff _ _ x.toNat_lt y.toNat_lt
    . exact date_ordered_iff _ _ (hlt x) (hlt y)

theorem compareKeys_not_ordered
    : ¬ (∀ (buf buf' : Memory) (pos pos' : Nat) (x y : UInt64),
        (¬ single.IsNaN (getBytes4 x) → ¬ single.IsNaN (getBytes4 y) →
            single.Ordered (compareFloatKeys buf buf' pos pos' x y) (getBytes4 x) (getBytes4 y))
          ∧ (¬ double.IsNaN (getBytes8 x) → ¬ double.IsNaN (getBytes8 y) →
            double.Ordered (compareDoubleKeys buf buf' pos pos' x y) (getBytes8 x) (getBytes8 y))
          ∧ compareDateKeys buf buf' pos pos' x y = ColumnType.date.compareDatum x y)
        ∧ ¬ single.Ordered (compareFloatKeys Memory.zero Memory.zero 0 0 0xBF800000 0xBFC00000)
            0xBF800000 0xBFC00000
        ∧ ¬ double.Ordered (compareDoubleKeys Memory.zero Memory.zero 0 0 0xBFF0000000000000 0xBFF8000000000000)
            0xBFF0000000000000 0xBFF8000000000000
        ∧ compareDateKeys Memory.zero Memory.zero 0 0 0xFFFFFFFF 0
            ≠ ColumnType.date.compareDatum 0xFFFFFFFF 0 := by
  have hfloat : ¬ single.Ordered (compareFloatKeys Memory.zero Memory.zero 0 0 0xBF800000 0xBFC00000)
      0xBF800000 0xBFC00000 := by
    decide
  have hdouble : ¬ double.Ordered
      (compareDoubleKeys Memory.zero Memory.zero 0 0 0xBFF0000000000000 0xBFF8000000000000)
      0xBFF0000000000000 0xBFF8000000000000 := by
    decide
  have hdate : compareDateKeys Memory.zero Memory.zero 0 0 0xFFFFFFFF 0
      ≠ ColumnType.date.compareDatum 0xFFFFFFFF 0 := by
    decide
  refine ⟨?_, hfloat, hdouble, hdate⟩
  intro hclaim
  exact hfloat ((hclaim Memory.zero Memory.zero 0 0 0xBF800000 0xBFC00000).left (by decide) (by decide))

end Mot

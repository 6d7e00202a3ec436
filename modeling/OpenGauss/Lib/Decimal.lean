import OpenGauss.Lib.LittleEndian
import Mathlib.Data.Nat.Digits.Lemmas
import Mathlib.Tactic.FieldSimp

/-!
This module contains decimal numbers written in ASCII.
-/

open List

namespace Decimal

variable {s t : Bytes} (n : Nat) {c : UInt8}

def IsDigit (c : UInt8) : Prop := 48 ≤ c.toNat ∧ c.toNat ≤ 57

instance (c : UInt8) : Decidable (IsDigit c) := inferInstanceAs (Decidable (_ ∧ _))

instance (s : Bytes) : Decidable (∀ c ∈ s, IsDigit c) := List.decidableBAll IsDigit s

def digitVal (c : UInt8) : Nat := c.toNat - 48

def digitChar (d : Nat) : UInt8 := UInt8.ofNat (48 + d)

def val (s : Bytes) : Nat := s.foldl (fun acc c => acc * 10 + digitVal c) 0

theorem digitChar_digitVal (h : IsDigit c) : digitChar (digitVal c) = c := by
  unfold digitChar digitVal
  have h48 := h.1
  rw [Nat.add_sub_cancel' h48]
  simp

theorem digitVal_lt (h : IsDigit c) : digitVal c < 10 := by
  have h57 := h.2
  unfold digitVal
  omega

theorem val_eq_ofDigits (s : Bytes) : val s = Nat.ofDigits 10 (s.reverse.map digitVal) := by
  unfold val
  rw [Nat.ofDigits_eq_foldr, foldr_map, foldr_reverse]
  congr 1
  funext acc c
  simp
  omega

theorem val_lt (h : ∀ c ∈ s, IsDigit c) : val s < 10 ^ s.length := by
  rw [val_eq_ofDigits]
  have hlt := Nat.ofDigits_lt_base_pow_length (b := 10) (l := s.reverse.map digitVal) (by omega) (by
    intro d hd
    obtain ⟨c, hc, rfl⟩ := mem_map.mp hd
    exact digitVal_lt (h c (mem_reverse.mp hc)))
  simpa using hlt

theorem digits_val (hlead : c.toNat ≠ 48) (h : ∀ d ∈ c :: s, IsDigit d)
    : (Nat.digits 10 (val (c :: s))).map digitChar = (c :: s).reverse := by
  rw [val_eq_ofDigits, Nat.digits_ofDigits _ (by omega)]
  . rw [map_map]
    conv_rhs => rw [← map_id (c :: s).reverse]
    apply map_congr_left
    intro d hd
    exact digitChar_digitVal (h d (mem_reverse.mp hd))
  . intro d hd
    obtain ⟨e, he, rfl⟩ := mem_map.mp hd
    exact digitVal_lt (h e (mem_reverse.mp he))
  . intro hne
    have h48 := (h c (by simp)).1
    simp [digitVal]
    omega

theorem val_pos (hlead : c.toNat ≠ 48) (h : ∀ d ∈ c :: s, IsDigit d) : 0 < val (c :: s) := by
  apply Nat.pos_of_ne_zero
  intro hzero
  have := digits_val hlead h
  rw [hzero] at this
  simp at this

def numeral (n : Nat) : Bytes := if n = 0 then [48] else ((Nat.digits 10 n).map digitChar).reverse

def padded (width n : Nat) : Bytes := List.replicate (width - (numeral n).length) 48 ++ numeral n

structure IsNumeral (s : Bytes) : Prop where
  nonempty : s ≠ []
  digits : ∀ c ∈ s, IsDigit c
  no_leading_zero : s.head? = some 48 → s = [48]

def point : UInt8 := 46
def minus : UInt8 := 45

def readUnsigned (s : Bytes) : Option ℚ :=
  let whole := s.takeWhile (fun c => decide (IsDigit c))
  match s.drop whole.length with
  | [] => if whole = [] then none else some (val whole)
  | c :: frac =>
    if c = point ∧ (∀ d ∈ frac, IsDigit d) ∧ whole ++ frac ≠ [] then
      some (val whole + val frac / 10 ^ frac.length)
    else
      none

def read (s : Bytes) : Option ℚ :=
  match s with
  | [] => none
  | c :: s => if c = minus then (readUnsigned s).map (fun x => -x) else readUnsigned (c :: s)

theorem digitVal_digitChar {d : Nat} (h : d < 10) : digitVal (digitChar d) = d := by
  unfold digitVal digitChar
  rw [UInt8.toNat_ofNat']
  omega

theorem isDigit_digitChar {d : Nat} (h : d < 10) : IsDigit (digitChar d) := by
  unfold IsDigit digitChar
  rw [UInt8.toNat_ofNat']
  omega

theorem isDigit_zero : IsDigit 48 := by decide

theorem val_append (s t : Bytes) : val (s ++ t) = val s * 10 ^ t.length + val t := by
  simp only [val_eq_ofDigits, reverse_append, map_append, Nat.ofDigits_append, length_map, length_reverse]
  ring

theorem val_replicate_zero : val (List.replicate n 48) = 0 := by
  induction n with
  | zero => rfl
  | succ n ih =>
    rw [replicate_succ', val_append, ih]
    decide

section Numeral

theorem isDigit_numeral : ∀ c ∈ numeral n, IsDigit c := by
  intro c hc
  unfold numeral at hc
  split at hc
  . simp only [mem_singleton] at hc
    rw [hc]
    exact isDigit_zero
  . simp only [mem_reverse, mem_map] at hc
    obtain ⟨d, hd, rfl⟩ := hc
    exact isDigit_digitChar (Nat.digits_lt_base (by omega) hd)

theorem val_numeral : val (numeral n) = n := by
  unfold numeral
  split
  . rename_i hzero
    rw [hzero]
    rfl
  . rw [val_eq_ofDigits, reverse_reverse, map_map]
    have hid : (Nat.digits 10 n).map (digitVal ∘ digitChar) = Nat.digits 10 n := by
      conv_rhs => rw [← map_id (Nat.digits 10 n)]
      apply map_congr_left
      intro d hd
      exact digitVal_digitChar (Nat.digits_lt_base (by omega) hd)
    rw [hid, Nat.ofDigits_digits]

theorem numeral_ne_nil : numeral n ≠ [] := by
  unfold numeral
  split
  . simp
  . rename_i hne
    simp only [ne_eq, reverse_eq_nil_iff, map_eq_nil_iff]
    exact Nat.digits_ne_nil_iff_ne_zero.2 hne

theorem length_numeral_le {n k : Nat} (hpos : 0 < k) (h : n < 10 ^ k) : (numeral n).length ≤ k := by
  unfold numeral
  split
  . exact hpos
  . rw [length_reverse, length_map]
    exact (Nat.digits_length_le_iff (by omega) n).2 h

theorem isNumeral_numeral : IsNumeral (numeral n) := by
  apply IsNumeral.mk (numeral_ne_nil n) (isDigit_numeral n)
  unfold numeral
  split
  . intro _
    rfl
  . rename_i hne
    intro hhead
    exfalso
    rw [head?_reverse, getLast?_map] at hhead
    have hlast := getLast?_eq_some_getLast (Nat.digits_ne_nil_iff_ne_zero.2 hne : Nat.digits 10 n ≠ [])
    rw [hlast] at hhead
    simp only [Option.map_some, Option.some.injEq] at hhead
    have hval := congrArg digitVal hhead
    rw [digitVal_digitChar (Nat.digits_lt_base (by omega) (getLast_mem _))] at hval
    exact Nat.getLast_digit_ne_zero 10 hne hval

theorem eq_numeral (h : IsNumeral s) : s = numeral (val s) := by
  cases s with
  | nil => exact absurd rfl h.nonempty
  | cons c s =>
    by_cases hzero : c = 48
    . have hs := h.no_leading_zero (by simp [hzero])
      rw [hs]
      rfl
    . have hlead : c.toNat ≠ 48 := by
        intro heq
        exact hzero (UInt8.toNat_inj.1 heq)
      unfold numeral
      rw [if_neg (by have := val_pos hlead h.digits; omega), digits_val hlead h.digits, reverse_reverse]

end Numeral

section Padded

theorem isDigit_padded (width n : Nat) : ∀ c ∈ padded width n, IsDigit c := by
  intro c hc
  rcases mem_append.1 hc with hc | hc
  . rw [eq_of_mem_replicate hc]
    exact isDigit_zero
  . exact isDigit_numeral n c hc

theorem val_padded (width n : Nat) : val (padded width n) = n := by
  rw [padded, val_append, val_replicate_zero, val_numeral]
  omega

theorem length_padded {width n : Nat} (hpos : 0 < width) (h : n < 10 ^ width)
    : (padded width n).length = width := by
  have hle := length_numeral_le hpos h
  rw [padded, length_append, length_replicate]
  omega

section

variable (hs : ∀ c ∈ s, IsDigit c)
include hs

theorem map_digitVal_inj (ht : ∀ c ∈ t, IsDigit c) (h : s.map digitVal = t.map digitVal) : s = t := by
  have hback : ∀ u : Bytes, (∀ c ∈ u, IsDigit c) → (u.map digitVal).map digitChar = u := by
    intro u hu
    rw [map_map]
    conv_rhs => rw [← map_id u]
    apply map_congr_left
    intro c hc
    exact digitChar_digitVal (hu c hc)
  rw [← hback s hs, ← hback t ht, h]

theorem digitVals_lt : ∀ d ∈ s.reverse.map digitVal, d < 10 := by
  intro d hd
  obtain ⟨c, hc, rfl⟩ := mem_map.1 hd
  exact digitVal_lt (hs c (mem_reverse.1 hc))

theorem eq_of_val_eq (ht : ∀ c ∈ t, IsDigit c)
    (hlen : s.length = t.length) (hval : val s = val t) : s = t := by
  rw [val_eq_ofDigits, val_eq_ofDigits] at hval
  have hdigits := Nat.ofDigits_inj_of_len_eq (by omega) (by simpa using hlen) (digitVals_lt hs)
    (digitVals_lt ht) hval
  apply reverse_injective
  apply map_digitVal_inj _ _ hdigits
  . intro c hc
    exact hs c (mem_reverse.1 hc)
  . intro c hc
    exact ht c (mem_reverse.1 hc)

theorem isDigit_append (ht : ∀ c ∈ t, IsDigit c) : ∀ c ∈ s ++ t, IsDigit c := by
  intro c hc
  rcases mem_append.1 hc with hc | hc
  . exact hs c hc
  . exact ht c hc

end

theorem padded_append {width k high low : Nat} (hwidth : 0 < width) (hk : 0 < k)
    (hhigh : high < 10 ^ width) (hlow : low < 10 ^ k)
    : padded width high ++ padded k low = padded (width + k) (high * 10 ^ k + low) := by
  have hlt : high * 10 ^ k + low < 10 ^ (width + k) := by
    calc high * 10 ^ k + low < high * 10 ^ k + 10 ^ k := by omega
      _ = (high + 1) * 10 ^ k := by ring
      _ ≤ 10 ^ width * 10 ^ k := Nat.mul_le_mul_right _ hhigh
      _ = 10 ^ (width + k) := by ring
  apply eq_of_val_eq
  . exact isDigit_append (isDigit_padded _ _) (isDigit_padded _ _)
  . exact isDigit_padded _ _
  . rw [length_append, length_padded hwidth hhigh, length_padded hk hlow, length_padded (by omega) hlt]
  . rw [val_append, val_padded, val_padded, length_padded hk hlow, val_padded]

theorem numeral_append {k high low : Nat} (hk : 0 < k) (hhigh : 0 < high) (hlow : low < 10 ^ k)
    : numeral high ++ padded k low = numeral (high * 10 ^ k + low) := by
  have h : IsNumeral (numeral high ++ padded k low) := by
    apply IsNumeral.mk
    . simp [numeral_ne_nil]
    . exact isDigit_append (isDigit_numeral _) (isDigit_padded _ _)
    . intro hhead
      rw [head?_append_of_ne_nil _ (numeral_ne_nil high)] at hhead
      have hzero := (isNumeral_numeral high).no_leading_zero hhead
      have hval := val_numeral high
      rw [hzero] at hval
      simp [val, digitVal] at hval
      omega
  rw [eq_numeral h, val_append, val_numeral, val_padded, length_padded hk hlow]

end Padded

section Read

theorem takeWhile_isDigit (hs : ∀ c ∈ s, IsDigit c) (ht : ∀ c ∈ t.head?, ¬IsDigit c)
    : (s ++ t).takeWhile (fun c => decide (IsDigit c)) = s := by
  rw [takeWhile_append_of_pos (by simpa using hs)]
  cases t with
  | nil => simp
  | cons c t => simp [ht c (by simp)]

theorem readUnsigned_whole (hne : s ≠ []) (hs : ∀ c ∈ s, IsDigit c)
    : readUnsigned s = some (val s : ℚ) := by
  have htake := takeWhile_isDigit hs (t := []) (by simp)
  rw [append_nil] at htake
  unfold readUnsigned
  simp [htake, hne]

theorem readUnsigned_fraction (hs : ∀ c ∈ s, IsDigit c) (ht : ∀ c ∈ t, IsDigit c)
    (hne : t ≠ []) : readUnsigned (s ++ point :: t) = some (val s + val t / 10 ^ t.length : ℚ) := by
  have htake := takeWhile_isDigit hs (t := point :: t) (by
    simp [point]
    decide)
  unfold readUnsigned
  simpa [htake, hne] using ht

theorem read_minus (s : Bytes) : read (minus :: s) = (readUnsigned s).map (fun x => -x) := by
  simp [read]

theorem read_eq_readUnsigned (h : s.head? ≠ some minus) : read s = readUnsigned s := by
  cases s with
  | nil => rfl
  | cons c s =>
    simp only [head?_cons, ne_eq, Option.some.injEq] at h
    simp [read, h]

end Read

end Decimal

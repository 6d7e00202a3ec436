import OpenGauss.Cstore.Compress.Impl.Numeric

/-!
This module contains the verification of the 3 bit maps of scale codes.
-/

open List

namespace Ascale

variable {tail : List UInt8}

section Bits

theorem and_three (n : Nat) : n &&& 3 = n % 4 := Nat.and_two_pow_sub_one_eq_mod n 2

theorem and_seven (n : Nat) : n &&& 7 = n % 8 := Nat.and_two_pow_sub_one_eq_mod n 3

theorem and_shiftRight (n mask k : Nat) : (n &&& mask) >>> k = n / 2 ^ k &&& mask >>> k := by
  rw [Nat.shiftRight_and_distrib, Nat.shiftRight_eq_div_pow]

theorem toNat_or_of_lt {x y : UInt8} {a k : Nat} (hx : x.toNat = a * 2 ^ k) (hy : y.toNat < 2 ^ k)
    : (x ||| y).toNat = x.toNat + y.toNat := by
  rw [UInt8.toNat_or, hx, ← Nat.shiftLeft_eq, Nat.shiftLeft_add_eq_or_of_lt hy]

variable {v0 v1 v2 v3 v4 v5 v6 v7 : UInt8}

theorem toNat_pack1 (h0 : v0 < 8) (h1 : v1 < 8) (h2 : v2 < 8)
    : ((v0 <<< 5) ||| (v1 <<< 2) ||| (v2 >>> 1)).toNat = 32 * v0.toNat + 4 * v1.toNat + v2.toNat / 2 := by
  simp only [UInt8.lt_iff_toNat_lt, UInt8.reduceToNat] at h0 h1 h2
  have e0 : (v0 <<< 5).toNat = v0.toNat * 2 ^ 5 := by
    simp [Nat.shiftLeft_eq]
    omega
  have e1 : (v1 <<< 2).toNat = v1.toNat * 2 ^ 2 := by
    simp [Nat.shiftLeft_eq]
    omega
  have e2 : (v2 >>> 1).toNat = v2.toNat / 2 := by
    simp [Nat.shiftRight_eq_div_pow]
  have e01 := toNat_or_of_lt e0 (y := v1 <<< 2) (by omega)
  have e012 : ((v0 <<< 5) ||| (v1 <<< 2)).toNat = (8 * v0.toNat + v1.toNat) * 2 ^ 2 := by omega
  rw [toNat_or_of_lt e012 (by omega)]
  omega

theorem toNat_pack2 (h3 : v3 < 8) (h4 : v4 < 8) (h5 : v5 < 8)
    : (((v2 &&& 0x1) <<< 7) ||| (v3 <<< 4) ||| (v4 <<< 1) ||| ((v5 &&& 0x4) >>> 2)).toNat
        =
      128 * (v2.toNat % 2) + 16 * v3.toNat + 2 * v4.toNat + v5.toNat / 4 := by
  simp only [UInt8.lt_iff_toNat_lt, UInt8.reduceToNat] at h3 h4 h5
  have e2 : ((v2 &&& 0x1) <<< 7).toNat = (v2.toNat % 2) * 2 ^ 7 := by
    simp [Nat.shiftLeft_eq]
    omega
  have e3 : (v3 <<< 4).toNat = v3.toNat * 2 ^ 4 := by
    simp [Nat.shiftLeft_eq]
    omega
  have e4 : (v4 <<< 1).toNat = v4.toNat * 2 ^ 1 := by
    simp [Nat.shiftLeft_eq]
    omega
  have e5 : ((v5 &&& 0x4) >>> 2).toNat = v5.toNat / 4 := by
    rw [UInt8.toNat_shiftRight, UInt8.toNat_and]
    simp only [UInt8.reduceToNat, Nat.reduceMod, and_shiftRight, Nat.reduceShiftRight, Nat.reducePow,
      Nat.and_one_is_mod]
    omega
  have e23 := toNat_or_of_lt e2 (y := v3 <<< 4) (by omega)
  have e234 : (((v2 &&& 0x1) <<< 7) ||| (v3 <<< 4)).toNat
      = (8 * (v2.toNat % 2) + v3.toNat) * 2 ^ 4 := by omega
  have e34 := toNat_or_of_lt e234 (y := v4 <<< 1) (by omega)
  have e2345 : (((v2 &&& 0x1) <<< 7) ||| (v3 <<< 4) ||| (v4 <<< 1)).toNat
      = (64 * (v2.toNat % 2) + 8 * v3.toNat + v4.toNat) * 2 ^ 1 := by omega
  rw [toNat_or_of_lt e2345 (by omega)]
  omega

theorem toNat_pack3 (h6 : v6 < 8) (h7 : v7 < 8)
    : (((v5 &&& 0x3) <<< 6) ||| (v6 <<< 3) ||| v7).toNat = 64 * (v5.toNat % 4) + 8 * v6.toNat + v7.toNat := by
  simp only [UInt8.lt_iff_toNat_lt, UInt8.reduceToNat] at h6 h7
  have e5 : ((v5 &&& 0x3) <<< 6).toNat = (v5.toNat % 4) * 2 ^ 6 := by
    simp [Nat.shiftLeft_eq, and_three]
    omega
  have e6 : (v6 <<< 3).toNat = v6.toNat * 2 ^ 3 := by
    simp [Nat.shiftLeft_eq]
    omega
  have e56 := toNat_or_of_lt e5 (y := v6 <<< 3) (by omega)
  have e567 : (((v5 &&& 0x3) <<< 6) ||| (v6 <<< 3)).toNat = (8 * (v5.toNat % 4) + v6.toNat) * 2 ^ 3 := by
    omega
  rw [toNat_or_of_lt e567 (by omega)]
  omega

def groupCodes (pack1 pack2 pack3 : UInt8) : List UInt8 :=
  [pack1 >>> 5, (pack1 >>> 2) &&& 0x07, ((pack1 &&& 0x3) <<< 1) ||| ((pack2 &&& 0x80) >>> 7),
    (pack2 >>> 4) &&& 0x07, (pack2 >>> 1) &&& 0x07,
    ((pack2 &&& 0x1) <<< 2) ||| ((pack3 &&& 0xc0) >>> 6), (pack3 >>> 3) &&& 0x07]

theorem codes_of_packs {p1 p2 p3 : UInt8} (h1 : v1 < 8) (h2 : v2 < 8) (h3 : v3 < 8)
    (h4 : v4 < 8) (h5 : v5 < 8) (h6 : v6 < 8) (h7 : v7 < 8)
    (hp1 : p1.toNat = 32 * v0.toNat + 4 * v1.toNat + v2.toNat / 2)
    (hp2 : p2.toNat = 128 * (v2.toNat % 2) + 16 * v3.toNat + 2 * v4.toNat + v5.toNat / 4)
    (hp3 : p3.toNat = 64 * (v5.toNat % 4) + 8 * v6.toNat + v7.toNat)
    : groupCodes p1 p2 p3 = [v0, v1, v2, v3, v4, v5, v6] := by
  unfold groupCodes
  simp only [UInt8.lt_iff_toNat_lt, UInt8.reduceToNat] at h1 h2 h3 h4 h5 h6 h7
  have hshift (p k : UInt8) : ((p >>> k) &&& 0x07).toNat = p.toNat >>> (k.toNat % 8) % 8 := by
    rw [UInt8.toNat_and, UInt8.toNat_shiftRight]
    exact and_seven _
  have e2 : ((p1 &&& 0x3) <<< 1).toNat = (p1.toNat % 4) * 2 ^ 1 := by
    simp [Nat.shiftLeft_eq, and_three]
    omega
  have e2' : ((p2 &&& 0x80) >>> 7).toNat = p2.toNat / 128 := by
    rw [UInt8.toNat_shiftRight, UInt8.toNat_and]
    simp only [UInt8.reduceToNat, Nat.reduceMod, and_shiftRight, Nat.reduceShiftRight, Nat.reducePow,
      Nat.and_one_is_mod]
    omega
  have e5 : ((p2 &&& 0x1) <<< 2).toNat = (p2.toNat % 2) * 2 ^ 2 := by
    simp [Nat.shiftLeft_eq]
    omega
  have e5' : ((p3 &&& 0xc0) >>> 6).toNat = p3.toNat / 64 := by
    rw [UInt8.toNat_shiftRight, UInt8.toNat_and]
    simp only [UInt8.reduceToNat, Nat.reduceMod, and_shiftRight, Nat.reduceShiftRight, Nat.reducePow,
      and_three]
    omega
  have hor2 := toNat_or_of_lt e2 (y := (p2 &&& 0x80) >>> 7) (by omega)
  have hor5 := toNat_or_of_lt e5 (y := (p3 &&& 0xc0) >>> 6) (by omega)
  rw [e2, e2'] at hor2
  rw [e5, e5'] at hor5
  simp only [List.cons.injEq, and_true, ← UInt8.toNat_inj, hshift, hor2, hor5,
    UInt8.toNat_shiftRight, UInt8.reduceToNat, Nat.reduceMod, Nat.shiftRight_eq_div_pow, Nat.reducePow]
  refine ⟨?_, ?_, ?_, ?_, ?_, ?_, ?_⟩
  . omega
  . omega
  . omega
  . omega
  . omega
  . omega
  . omega

end Bits

section RoundTrip

def clearEighths : List UInt8 → List UInt8
  | v0 :: v1 :: v2 :: v3 :: v4 :: v5 :: v6 :: _ :: rest =>
    v0 :: v1 :: v2 :: v3 :: v4 :: v5 :: v6 :: 0 :: clearEighths rest
  | codes => codes

theorem getD_append (front bytes : Bytes) (i : Nat)
    : (front ++ bytes).getD (front.length + i) 0 = bytes.getD i 0 := by
  rw [getD_append_right _ _ _ _ (by omega), Nat.add_sub_cancel_left]

theorem parseAscaleCodes3Bytes_group {v0 v1 v2 v3 v4 v5 v6 v7 p1 p2 p3 : UInt8} {s : ParseState}
    {front tail : Bytes} (hpos : s.pos = front.length) (h1 : v1 < 8) (h2 : v2 < 8)
    (h3 : v3 < 8) (h4 : v4 < 8) (h5 : v5 < 8) (h6 : v6 < 8) (h7 : v7 < 8)
    (hp1 : p1.toNat = 32 * v0.toNat + 4 * v1.toNat + v2.toNat / 2)
    (hp2 : p2.toNat = 128 * (v2.toNat % 2) + 16 * v3.toNat + 2 * v4.toNat + v5.toNat / 4)
    (hp3 : p3.toNat = 64 * (v5.toNat % 4) + 8 * v6.toNat + v7.toNat)
    : parseAscaleCodes3Bytes (front ++ (p1 :: p2 :: p3 :: tail)) s
        =
      { out := s.out ++ [v0, v1, v2, v3, v4, v5, v6], pos := s.pos + 3 } := by
  have hread0 : (front ++ (p1 :: p2 :: p3 :: tail)).getD s.pos 0 = p1 := by
    rw [hpos]
    exact getD_append front _ 0
  have hread1 : (front ++ (p1 :: p2 :: p3 :: tail)).getD (s.pos + 1) 0 = p2 := by
    rw [hpos]
    exact getD_append front _ 1
  have hread2 : (front ++ (p1 :: p2 :: p3 :: tail)).getD (s.pos + 2) 0 = p3 := by
    rw [hpos]
    exact getD_append front _ 2
  unfold parseAscaleCodes3Bytes
  dsimp only
  rw [hread0, hread1, hread2, ← codes_of_packs h1 h2 h3 h4 h5 h6 h7 hp1 hp2 hp3, groupCodes]

theorem codes_of_values {v0 v1 v2 v3 v4 v5 v6 v7 : UInt8} (h0 : v0 < 8) (h1 : v1 < 8) (h2 : v2 < 8)
    (h3 : v3 < 8) (h4 : v4 < 8) (h5 : v5 < 8) (h6 : v6 < 8) (h7 : v7 < 8)
    : groupCodes ((v0 <<< 5) ||| (v1 <<< 2) ||| (v2 >>> 1))
        (((v2 &&& 0x1) <<< 7) ||| (v3 <<< 4) ||| (v4 <<< 1) ||| ((v5 &&& 0x4) >>> 2))
        (((v5 &&& 0x3) <<< 6) ||| (v6 <<< 3) ||| v7)
        =
      [v0, v1, v2, v3, v4, v5, v6] := by
  apply codes_of_packs h1 h2 h3 h4 h5 h6 h7
  . exact toNat_pack1 h0 h1 h2
  . exact toNat_pack2 h3 h4 h5
  . exact toNat_pack3 h6 h7

theorem parseRemain_eq (inBuf : Bytes) {remain : Nat} (hremain : remain < 8) (s : ParseState)
    : parseRemain inBuf remain s
        =
      { out := s.out ++ (groupCodes (inBuf.getD (s.pos + 0) 0) (inBuf.getD (s.pos + 1) 0)
          (inBuf.getD (s.pos + 2) 0)).take remain
        pos := s.pos + (3 * remain + 7) / 8 } := by
  match remain with
  | 0 => simp [parseRemain]
  | 1 => rfl
  | 2 => rfl
  | 3 => rfl
  | 4 => rfl
  | 5 => rfl
  | 6 => rfl
  | 7 => rfl

theorem compact_remain (hlen : tail.length < 8)
    : (compactAscaleCodesBy3Bits tail).length = (3 * tail.length + 7) / 8 ∧
      (compactAscaleCodesBy3Bits tail).getD 0 0
        = (tail.getD 0 0 <<< 5) ||| (tail.getD 1 0 <<< 2) ||| (tail.getD 2 0 >>> 1) ∧
      (compactAscaleCodesBy3Bits tail).getD 1 0
        = ((tail.getD 2 0 &&& 0x1) <<< 7) ||| (tail.getD 3 0 <<< 4) ||| (tail.getD 4 0 <<< 1)
          ||| ((tail.getD 5 0 &&& 0x4) >>> 2) ∧
      (compactAscaleCodesBy3Bits tail).getD 2 0
        = ((tail.getD 5 0 &&& 0x3) <<< 6) ||| (tail.getD 6 0 <<< 3) ||| 0 := by
  match tail, hlen with
  | [], _ => simp [compactAscaleCodesBy3Bits]
  | [v0], _ => simp [compactAscaleCodesBy3Bits]
  | [v0, v1], _ => simp [compactAscaleCodesBy3Bits]
  | [v0, v1, v2], _ => simp [compactAscaleCodesBy3Bits]
  | [v0, v1, v2, v3], _ => simp [compactAscaleCodesBy3Bits]
  | [v0, v1, v2, v3, v4], _ => simp [compactAscaleCodesBy3Bits]
  | [v0, v1, v2, v3, v4, v5], _ => simp [compactAscaleCodesBy3Bits]
  | [v0, v1, v2, v3, v4, v5, v6], _ => simp [compactAscaleCodesBy3Bits]

theorem take_getD (hlen : tail.length < 8)
    : [tail.getD 0 0, tail.getD 1 0, tail.getD 2 0, tail.getD 3 0, tail.getD 4 0, tail.getD 5 0,
        tail.getD 6 0].take tail.length = tail := by
  match tail, hlen with
  | [], _ => rfl
  | [v0], _ => rfl
  | [v0, v1], _ => rfl
  | [v0, v1, v2], _ => rfl
  | [v0, v1, v2, v3], _ => rfl
  | [v0, v1, v2, v3, v4], _ => rfl
  | [v0, v1, v2, v3, v4, v5], _ => rfl
  | [v0, v1, v2, v3, v4, v5, v6], _ => rfl

theorem parseRemain_compact {s : ParseState} {front : Bytes}
    (hpos : s.pos = front.length) (hlen : tail.length < 8) (hlt : ∀ code ∈ tail, code < 8)
    : parseRemain (front ++ compactAscaleCodesBy3Bits tail) tail.length s
        =
      { out := s.out ++ tail, pos := s.pos + (compactAscaleCodesBy3Bits tail).length } := by
  have hget (i : Nat) : tail.getD i 0 < 8 := by
    by_cases hi : i < tail.length
    . rw [getD_eq_getElem _ _ hi]
      exact hlt _ (getElem_mem hi)
    . rw [getD_eq_default _ _ (by omega)]
      decide
  obtain ⟨hlength, hbyte0, hbyte1, hbyte2⟩ := compact_remain hlen
  rw [parseRemain_eq _ hlen, hpos, getD_append, getD_append, getD_append, hbyte0, hbyte1, hbyte2,
    codes_of_values (hget 0) (hget 1) (hget 2) (hget 3) (hget 4) (hget 5) (hget 6) (by decide),
    take_getD hlen, hlength]

theorem clearEighths_of_lt (hlen : tail.length < 8) : clearEighths tail = tail := by
  unfold clearEighths
  split
  . simp only [length_cons] at hlen
    omega
  . rfl

theorem parse_compact (codes : List UInt8) (s : ParseState) (front : Bytes)
    (hpos : s.pos = front.length) (hlt : ∀ code ∈ codes, code < 8)
    : parseRemain (front ++ compactAscaleCodesBy3Bits codes) (codes.length % 8)
        (parseGroups (front ++ compactAscaleCodesBy3Bits codes) 0 (codes.length / 8) s)
        =
      { out := s.out ++ clearEighths codes
        pos := s.pos + (compactAscaleCodesBy3Bits codes).length } := by
  by_cases hlen : codes.length < 8
  . rw [Nat.mod_eq_of_lt hlen, Nat.div_eq_of_lt hlen, parseGroups, clearEighths_of_lt hlen,
      parseRemain_compact hpos hlen hlt]
  . match codes, Nat.le_of_not_lt hlen with
    | v0 :: v1 :: v2 :: v3 :: v4 :: v5 :: v6 :: v7 :: rest, _ =>
      simp only [forall_mem_cons] at hlt
      obtain ⟨h0, h1, h2, h3, h4, h5, h6, h7, hrest⟩ := hlt
      have ih := parse_compact rest ⟨s.out ++ [v0, v1, v2, v3, v4, v5, v6] ++ [0 &&& 0x07], s.pos + 3⟩
        (front ++ [(v0 <<< 5) ||| (v1 <<< 2) ||| (v2 >>> 1),
          ((v2 &&& 0x1) <<< 7) ||| (v3 <<< 4) ||| (v4 <<< 1) ||| ((v5 &&& 0x4) >>> 2),
          ((v5 &&& 0x3) <<< 6) ||| (v6 <<< 3) ||| v7])
        (by simp [hpos]) hrest
      have hmod : (v0 :: v1 :: v2 :: v3 :: v4 :: v5 :: v6 :: v7 :: rest).length % 8 = rest.length % 8 := by
        simp only [length_cons]
        omega
      have hdiv : (v0 :: v1 :: v2 :: v3 :: v4 :: v5 :: v6 :: v7 :: rest).length / 8
          = rest.length / 8 + 1 := by
        simp only [length_cons]
        omega
      rw [append_assoc] at ih
      rw [hmod, hdiv, parseGroups, compactAscaleCodesBy3Bits, cons_append, cons_append,
        cons_append, nil_append, parseAscaleCodes3Bytes_group hpos h1 h2 h3 h4 h5 h6 h7
          (toNat_pack1 h0 h1 h2) (toNat_pack2 h3 h4 h5) (toNat_pack3 h6 h7)]
      refine Eq.trans ih ?_
      simp [clearEighths]
      omega
termination_by codes.length

theorem clearEighths_eq_iff (codes : List UInt8)
    : clearEighths codes = codes ↔ ∀ i < codes.length / 8, codes.getD (8 * i + 7) 0 = 0 := by
  by_cases hlen : codes.length < 8
  . rw [Nat.div_eq_of_lt hlen, clearEighths_of_lt hlen]
    simp
  . match codes, Nat.le_of_not_lt hlen with
    | v0 :: v1 :: v2 :: v3 :: v4 :: v5 :: v6 :: v7 :: rest, _ =>
      have ih := clearEighths_eq_iff rest
      have hdiv : (v0 :: v1 :: v2 :: v3 :: v4 :: v5 :: v6 :: v7 :: rest).length / 8
          = rest.length / 8 + 1 := by
        simp only [length_cons]
        omega
      rw [hdiv]
      simp only [clearEighths, List.cons.injEq, true_and, ih]
      constructor
      . intro ⟨h7, hrest⟩ i hi
        cases i with
        | zero => exact h7.symm
        | succ i => exact hrest i (by omega)
      . intro h
        constructor
        . exact (h 0 (by omega)).symm
        . intro i hi
          exact h (i + 1) (by omega)
termination_by codes.length

/--
The size of the map always agrees; the codes do exactly when the eighth code of every group is zero.
-/
theorem parseAscaleCodesBy3Bits_compact_iff (codes : List UInt8) (hlt : ∀ code ∈ codes, code < 8)
    : parseAscaleCodesBy3Bits (compactAscaleCodesBy3Bits codes) codes.length
        = (codes, (compactAscaleCodesBy3Bits codes).length)
      ↔ ∀ i < codes.length / 8, codes.getD (8 * i + 7) 0 = 0 := by
  have hparse := parse_compact codes ⟨[], 0⟩ [] rfl hlt
  unfold parseAscaleCodesBy3Bits
  rw [and_seven, Nat.shiftRight_eq_div_pow]
  simp only [List.nil_append, Nat.zero_add, Nat.reducePow] at hparse ⊢
  rw [hparse, ← clearEighths_eq_iff, Prod.mk.injEq]
  exact and_iff_left rfl

-- A whole group of eight, whose eighth code is no zero, and one code after it.
theorem parseAscaleCodesBy3Bits_compact_iff_nine
    : parseAscaleCodesBy3Bits (compactAscaleCodesBy3Bits [1, 2, 3, 4, 5, 6, 7, 3, 1]) 9
        = ([1, 2, 3, 4, 5, 6, 7, 3, 1],
            (compactAscaleCodesBy3Bits [1, 2, 3, 4, 5, 6, 7, 3, 1]).length)
      ↔ ∀ i < 9 / 8, ([1, 2, 3, 4, 5, 6, 7, 3, 1] : List UInt8).getD (8 * i + 7) 0 = 0 := by
  apply parseAscaleCodesBy3Bits_compact_iff [1, 2, 3, 4, 5, 6, 7, 3, 1]
  simp

-- The eighth code is read from the caller's `pack3`, which nothing assigns.
theorem parseAscaleCodesBy3Bits_eighth_lost
    : parseAscaleCodesBy3Bits (compactAscaleCodesBy3Bits [0, 0, 0, 0, 0, 0, 0, 1]) 8
        ≠ ([0, 0, 0, 0, 0, 0, 0, 1],
            (compactAscaleCodesBy3Bits [0, 0, 0, 0, 0, 0, 0, 1]).length) := by
  decide

end RoundTrip

end Ascale

import Mathlib.Data.Nat.Bitwise
import Mathlib.Tactic.Ring
import Mathlib.Tactic.NormNum
import Mathlib.Data.Int.ModEq
import Mathlib.Tactic.Positivity

/-!
This module contains the byte level vocabulary of the storage formats.
-/

open List

abbrev Bytes := List UInt8

namespace LittleEndian

variable (w : Nat) {n : Nat}

def encode : Nat → Nat → Bytes
  | 0, _ => []
  | w + 1, n => UInt8.ofNat n :: encode w (n / 256)

def decode : Bytes → Nat
  | [] => 0
  | b :: bs => b.toNat + 256 * decode bs

@[simp]
theorem length_encode (n : Nat) : (encode w n).length = w := by
  induction w generalizing n with
  | zero => rfl
  | succ w ih => simp [encode, ih]

theorem decode_encode (n : Nat) : decode (encode w n) = n % 256 ^ w := by
  induction w generalizing n with
  | zero =>
    simp only [encode, decode, Nat.pow_zero]
    omega
  | succ w ih =>
    simp only [encode, decode, ih, UInt8.toNat_ofNat', Nat.reducePow]
    rw [Nat.pow_succ', Nat.mod_mul]

theorem decode_encode_of_lt {w : Nat} (h : n < 256 ^ w) : decode (encode w n) = n := by
  rw [decode_encode, Nat.mod_eq_of_lt h]

theorem decode_lt (bs : Bytes) : decode bs < 256 ^ bs.length := by
  induction bs with
  | nil => simp [decode]
  | cons b bs ih =>
    simp only [decode, length_cons, Nat.pow_succ]
    have := b.toNat_lt
    omega

theorem encode_decode (bs : Bytes) : encode bs.length (decode bs) = bs := by
  induction bs with
  | nil => rfl
  | cons b bs ih =>
    have hb : b.toNat < 256 := b.toNat_lt
    have hdiv : (b.toNat + 256 * decode bs) / 256 = decode bs := by omega
    have hmod : UInt8.ofNat (b.toNat + 256 * decode bs) = b := by
      apply UInt8.toNat.inj
      rw [UInt8.toNat_ofNat']
      omega
    simp only [decode, length_cons, encode, hdiv, hmod, ih]

theorem encode_mod (n : Nat) : encode w (n % 256 ^ w) = encode w n := by
  have h := encode_decode (encode w n)
  rw [length_encode, decode_encode] at h
  exact h

def wrap (w : Nat) (x : Int) : Nat := (x % 256 ^ w).toNat

def encodeInt (w : Nat) (x : Int) : Bytes := encode w (wrap w x)

/-- The signed number with the two's complement representation `n` in `w` bytes. -/
def toSigned (w n : Nat) : Int := Int.bmod n (256 ^ w)

def decodeInt (bs : Bytes) : Int := toSigned bs.length (decode bs)

@[simp]
theorem length_encodeInt (x : Int) : (encodeInt w x).length = w := length_encode ..

theorem wrap_cast (x : Int) : (wrap w x : Int) = x % 256 ^ w := by
  unfold wrap
  rw [Int.toNat_of_nonneg]
  exact Int.emod_nonneg x (by positivity)

theorem wrap_lt (x : Int) : wrap w x < 256 ^ w := by
  have h : (wrap w x : Int) < 256 ^ w := by
    rw [wrap_cast]
    exact Int.emod_lt_of_pos x (by positivity)
  exact_mod_cast h

theorem wrap_of_lt {w : Nat} {x : Int} (hnonneg : 0 ≤ x) (hlt : x < 256 ^ w)
    : (wrap w x : Int) = x := by
  rw [wrap_cast, Int.emod_eq_of_lt hnonneg hlt]

theorem wrap_natCast {w : Nat} (h : n < 256 ^ w) : wrap w n = n := by
  have := wrap_of_lt (x := n) (Int.natCast_nonneg n) (by exact_mod_cast h)
  exact_mod_cast this

theorem encodeInt_natCast (n : Nat) : encodeInt w n = encode w n := by
  unfold encodeInt wrap
  rw [← encode_mod w n]
  congr 1

theorem encodeInt_congr {w : Nat} {x y : Int} (h : x % 256 ^ w = y % 256 ^ w)
    : encodeInt w x = encodeInt w y := by
  unfold encodeInt wrap
  rw [h]

theorem encodeInt_bmod {w m : Nat} (h : w ≤ m) (x : Int)
    : encodeInt w (x.bmod (256 ^ m)) = encodeInt w x := by
  apply encodeInt_congr
  have hdvd : (256 : Int) ^ w ∣ ((256 ^ m : Nat) : Int) := by
    rw [Nat.cast_pow]
    exact pow_dvd_pow 256 h
  exact Int.ModEq.of_dvd hdvd Int.bmod_emod

theorem encodeInt_toSigned (n : Nat) : encodeInt w (toSigned w n) = encode w n := by
  rw [toSigned, encodeInt_bmod (Nat.le_refl _), encodeInt_natCast]

theorem decodeInt_encode {w : Nat} (h : n < 256 ^ w) : decodeInt (encode w n) = toSigned w n := by
  rw [decodeInt, length_encode, decode_encode_of_lt h]

theorem decodeInt_encodeInt_toSigned {w : Nat} (h : n < 256 ^ w)
    : decodeInt (encodeInt w (toSigned w n)) = toSigned w n := by
  rw [encodeInt_toSigned, decodeInt_encode h]

theorem toSigned_wrap {w : Nat} {x : Int} (hlo : -256 ^ w ≤ 2 * x) (hhi : 2 * x < 256 ^ w)
    : toSigned w (wrap w x) = x := by
  have hcast : ((256 ^ w : Nat) : Int) = 256 ^ w := Nat.cast_pow 256 w
  unfold toSigned
  rw [wrap_cast, ← hcast, Int.emod_bmod]
  apply Int.bmod_eq_of_le
  . rw [hcast]
    omega
  . rw [hcast]
    omega

theorem toSigned_sub_lt (m n : Nat) : toSigned w m - toSigned w n < 256 ^ w := by
  have hpos : 0 < 256 ^ w := Nat.pow_pos (by decide)
  have hlo := Int.le_bmod (x := n) hpos
  have hhi := Int.bmod_lt (x := m) hpos
  unfold toSigned
  have hcast : ((256 ^ w : Nat) : Int) = 256 ^ w := Nat.cast_pow 256 w
  rw [hcast] at hlo hhi
  omega

def pack (w : Nat) (vals : List Nat) : Bytes := vals.flatMap (encode w)

@[simp]
theorem pack_nil : pack w [] = [] := rfl

@[simp]
theorem pack_cons (v : Nat) (vals : List Nat) : pack w (v :: vals) = encode w v ++ pack w vals := by
  simp [pack]

@[simp]
theorem pack_append (xs ys : List Nat) : pack w (xs ++ ys) = pack w xs ++ pack w ys := by
  simp [pack]

@[simp]
theorem length_pack (vals : List Nat) : (pack w vals).length = w * vals.length := by
  induction vals with
  | nil => simp
  | cons v vals ih =>
    simp only [pack_cons, length_append, length_encode, ih, length_cons]
    ring

theorem take_pack_cons (v : Nat) (vals : List Nat) : (pack w (v :: vals)).take w = encode w v := by
  simp

theorem drop_pack_cons (v : Nat) (vals : List Nat) : (pack w (v :: vals)).drop w = pack w vals := by
  simp

def packInt (w : Nat) (xs : List Int) : Bytes := xs.flatMap (encodeInt w)

theorem packInt_eq_pack (xs : List Int) : packInt w xs = pack w (xs.map (wrap w)) := by
  unfold packInt pack
  rw [flatMap_map]
  rfl

@[simp]
theorem length_packInt (xs : List Int) : (packInt w xs).length = w * xs.length := by
  rw [packInt_eq_pack, length_pack, length_map]

def unpack (w : Nat) : Nat → Bytes → List Nat
  | 0, _ => []
  | n + 1, bs => decode (bs.take w) :: unpack w n (bs.drop w)

@[simp]
theorem length_unpack (n : Nat) (bs : Bytes) : (unpack w n bs).length = n := by
  induction n generalizing bs with
  | zero => rfl
  | succ n ih => simp [unpack, ih]

theorem unpack_pack {w : Nat} {vals : List Nat} (h : ∀ v ∈ vals, v < 256 ^ w) (tail : Bytes)
    : unpack w vals.length (pack w vals ++ tail) = vals := by
  induction vals with
  | nil => rfl
  | cons v vals ih =>
    have hv : v < 256 ^ w := h v (by simp)
    have htake : (pack w (v :: vals) ++ tail).take w = encode w v := by
      simp
    have hdrop : (pack w (v :: vals) ++ tail).drop w = pack w vals ++ tail := by
      simp
    rw [length_cons, unpack, htake, hdrop, decode_encode_of_lt hv]
    rw [ih (fun x hx => h x (by simp [hx]))]

theorem unpack_lt {w v : Nat} {bs : Bytes} (h : v ∈ unpack w n bs) : v < 256 ^ w := by
  induction n generalizing bs with
  | zero => simp [unpack] at h
  | succ n ih =>
    rw [unpack, mem_cons] at h
    rcases h with rfl | h
    . calc
        decode (bs.take w) < 256 ^ (bs.take w).length := decode_lt _
        _ ≤ 256 ^ w := Nat.pow_le_pow_right (by decide) (length_take_le w bs)
    . exact ih h

theorem pack_unpack {w : Nat} {bs : Bytes} (h : bs.length = w * n) : pack w (unpack w n bs) = bs := by
  induction n generalizing bs with
  | zero => simp_all [unpack]
  | succ n ih =>
    have hlen : (bs.drop w).length = w * n := by
      rw [length_drop, h, Nat.mul_succ]
      omega
    have htake : (bs.take w).length = w := by
      rw [length_take, h, Nat.mul_succ]
      omega
    have henc : encode w (decode (bs.take w)) = bs.take w := by
      have := encode_decode (bs.take w)
      rwa [htake] at this
    rw [unpack, pack_cons, ih hlen, henc, take_append_drop]

end LittleEndian

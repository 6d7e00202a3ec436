import OpenGauss.Lib.LittleEndian

/-!
This module contains the memory layout of packed structures.
-/

open List

class Layout (α : Type) where
  size : Nat
  toBytes : α → Bytes
  ofBytes : Bytes → α
  length_toBytes (a : α) : (toBytes a).length = size
  ofBytes_toBytes (a : α) : ofBytes (toBytes a) = a
  toBytes_ofBytes (bs : Bytes) (h : bs.length = size) : toBytes (ofBytes bs) = bs

namespace Layout

open LittleEndian

instance : Layout UInt8 where
  size := 1
  toBytes a := [a]
  ofBytes bs := bs.headD 0
  length_toBytes _ := rfl
  ofBytes_toBytes _ := rfl
  toBytes_ofBytes bs h := by
    obtain ⟨b, rfl⟩ := length_eq_one_iff.mp h
    rfl

theorem encode_decode_of_length (w : Nat) (bs : Bytes) (h : bs.length = w) : encode w (decode bs) = bs := by
  rw [← h]
  apply encode_decode

theorem decode_lt_of_length (w : Nat) (bs : Bytes) (h : bs.length = w) : decode bs < 256 ^ w := by
  rw [← h]
  apply decode_lt

instance : Layout UInt16 where
  size := 2
  toBytes a := encode 2 a.toNat
  ofBytes bs := UInt16.ofNat (decode bs)
  length_toBytes _ := length_encode ..
  ofBytes_toBytes a := by
    rw [decode_encode_of_lt a.toNat_lt]
    simp
  toBytes_ofBytes bs h := by
    rw [UInt16.toNat_ofNat_of_lt' (decode_lt_of_length 2 bs h), encode_decode_of_length 2 bs h]

instance : Layout UInt32 where
  size := 4
  toBytes a := encode 4 a.toNat
  ofBytes bs := UInt32.ofNat (decode bs)
  length_toBytes _ := length_encode ..
  ofBytes_toBytes a := by
    rw [decode_encode_of_lt a.toNat_lt]
    simp
  toBytes_ofBytes bs h := by
    rw [UInt32.toNat_ofNat_of_lt' (decode_lt_of_length 4 bs h), encode_decode_of_length 4 bs h]

instance : Layout UInt64 where
  size := 8
  toBytes a := encode 8 a.toNat
  ofBytes bs := UInt64.ofNat (decode bs)
  length_toBytes _ := length_encode ..
  ofBytes_toBytes a := by
    rw [decode_encode_of_lt a.toNat_lt]
    simp
  toBytes_ofBytes bs h := by
    rw [UInt64.toNat_ofNat_of_lt' (decode_lt_of_length 8 bs h), encode_decode_of_length 8 bs h]

instance [Layout α] [Layout β] : Layout (α × β) where
  size := size α + size β
  toBytes p := toBytes p.1 ++ toBytes p.2
  ofBytes bs := (ofBytes (bs.take (size α)), ofBytes (bs.drop (size α)))
  length_toBytes p := by
    rw [length_append, length_toBytes, length_toBytes]
  ofBytes_toBytes p := by
    rw [take_left' (length_toBytes p.1), drop_left' (length_toBytes p.1),
      ofBytes_toBytes, ofBytes_toBytes]
  toBytes_ofBytes bs h := by
    rw [toBytes_ofBytes, toBytes_ofBytes, take_append_drop]
    . rw [length_drop]
      omega
    . rw [length_take]
      omega

@[reducible]
def ofTuple [Layout α] (toTuple : β → α) (ofTuple : α → β)
    (hleft : ∀ b, ofTuple (toTuple b) = b) (hright : ∀ a, toTuple (ofTuple a) = a) : Layout β where
  size := size α
  toBytes b := toBytes (toTuple b)
  ofBytes bs := ofTuple (ofBytes bs)
  length_toBytes b := length_toBytes (toTuple b)
  ofBytes_toBytes b := by rw [ofBytes_toBytes, hleft]
  toBytes_ofBytes bs h := by rw [hright, toBytes_ofBytes bs h]

end Layout

namespace Bytes

def splice (dest : Bytes) (pos : Nat) (src : Bytes) : Bytes :=
  dest.take pos ++ src ++ dest.drop (pos + src.length)

def fill (dest src : Bytes) (n : Nat) : Bytes := src.take n ++ dest.drop n

theorem fill_zero (dest src : Bytes) : fill dest src 0 = dest := by
  simp [fill]

theorem fill_of_length_le (dest src : Bytes) (n : Nat) (hlen : dest.length = src.length)
    (h : src.length ≤ n)
    : fill dest src n = src := by
  simp [fill, take_of_length_le h, hlen, h]

theorem length_fill (dest src : Bytes) (n : Nat) (hlen : dest.length = src.length)
    : (fill dest src n).length = src.length := by
  simp only [fill, length_append, length_take, length_drop]
  omega

theorem splice_fill (dest src : Bytes) (n k : Nat) (h : n + k ≤ src.length)
    : splice (fill dest src n) n ((src.drop n).take k) = fill dest src (n + k) := by
  have hk : ((src.drop n).take k).length = k := by
    simp only [length_take, length_drop]
    omega
  have hn : (src.take n).length = n := by
    simp only [length_take]
    omega
  have hdrop : (src.take n ++ dest.drop n).drop (n + k) = dest.drop (n + k) := by
    rw [← drop_drop, drop_left' hn, drop_drop]
  simp only [splice, fill, hk, hdrop]
  rw [take_left' hn, take_add]

end Bytes

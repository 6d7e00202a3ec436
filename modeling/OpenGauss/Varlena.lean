import OpenGauss.Lib.LittleEndian

/-!
This module contains the variable length values of `postgres.h`, for a little endian machine.
-/

namespace Varlena

def vartagSize (tag : Nat) : Nat :=
  match tag % 128 with
  | 1 => 8
  | 8 => 18
  | 18 => 16
  | 28 => 16
  | _ => 0

def varsizeAny (ptr : Bytes) : Nat :=
  let header := (ptr.headD 0).toNat
  if header = 0x01 then
    2 + vartagSize ((ptr.drop 1).headD 0).toNat
  else if header % 2 = 1 then
    header / 2
  else
    LittleEndian.decode (ptr.take 4) / 4

end Varlena

structure Varlena where
  bytes : Bytes
  varsize_eq : Varlena.varsizeAny bytes = bytes.length
  header_le : (bytes.headD 0).toNat % 2 = 0 → 4 ≤ bytes.length

namespace Varlena

theorem varsizeAny_append (v : Varlena) (tail : Bytes)
    : varsizeAny (v.bytes ++ tail) = v.bytes.length := by
  obtain ⟨bytes, hsize, hheader⟩ := v
  dsimp only
  rw [← hsize]
  cases bytes with
  | nil =>
    simp at hheader
  | cons header bytes =>
    by_cases hext : header.toNat = 1
    . cases bytes with
      | nil =>
        simp [varsizeAny, hext] at hsize
        omega
      | cons tag bytes => simp [varsizeAny, hext]
    . by_cases hlong : header.toNat % 2 = 1
      . simp [varsizeAny, hext, hlong]
      . have hlen : 4 ≤ (header :: bytes).length := by
          apply hheader
          simp only [List.headD_cons]
          omega
        simp only [varsizeAny, List.cons_append, List.headD_cons, hext, hlong, ↓reduceIte]
        rw [← List.cons_append, List.take_append_of_le_length hlen]

end Varlena

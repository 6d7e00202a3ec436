import OpenGauss.BigInteger.Impl
import OpenGauss.Numeric.Convert
import Mathlib.Data.Nat.Prime.Int
import Mathlib.Tactic.NormNum.Prime

/-!
This module contains the value of big integers.
-/

open Numeric (NumericVar)

namespace BigInteger

namespace Numeric

def val : Numeric → ℚ
  | bi64 value scale => value * (10 : ℚ) ^ (-scale : ℤ)
  | bi128 value scale => value * (10 : ℚ) ^ (-scale : ℤ)
  | normal var => var.val

def dscale : Numeric → Nat
  | bi64 _ scale => scale
  | bi128 _ scale => scale
  | normal var => var.dscale

def Valid : Numeric → Prop
  | bi64 value scale => Fits 64 value ∧ scale ≤ maxInt64Digit
  | bi128 value scale => Fits 128 value ∧ scale ≤ maxInt128Digit
  | normal var => var.Ok

def Bi (num : Numeric) : Prop := num.isBi ∧ num.Valid

end Numeric

section Adjust

theorem signed_of_fits {bits : Nat} {x : Int} (h : Fits bits x) : signed bits x = some x := if_pos h

theorem signed_natCast {bits : Nat} {x : Nat} (h : x < 2 ^ (bits - 1)) : signed bits x = some (x : Int) := by
  have hcast : ((x : Nat) : Int) < 2 ^ (bits - 1) := by exact_mod_cast h
  apply signed_of_fits
  constructor
  . have hpos : (0 : Int) ≤ 2 ^ (bits - 1) := by positivity
    omega
  . exact hcast

end Adjust

section Arithmetic

variable {op : Int → Int → Int} {opRat : ℚ → ℚ → ℚ}

variable {larg rarg : Numeric}

theorem Numeric.Bi.makeNumericNormal (h : larg.Bi)
    : larg.makeNumericNormal.val = larg.val ∧ larg.makeNumericNormal.Canonical
        ∧ larg.makeNumericNormal.dscale = larg.dscale := by
  match larg, h with
  | .bi64 value scale, h =>
    apply Numeric.convertIntToNumeric_spec
    have hlow := h.2.1.1
    norm_num at hlow ⊢
    omega
  | .bi128 value scale, h =>
    apply Numeric.convertIntToNumeric_spec
    have hlow := h.2.1.1
    norm_num at hlow ⊢
    omega

end Arithmetic

end BigInteger

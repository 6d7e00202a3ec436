import OpenGauss.Numeric.Impl

/-!
This module contains big integers, from `biginteger.cpp`: numerics that are stored as a 64 or 128 bit
value together with a scale.

Signed arithmetic whose result is kept is checked: `none` stands for an overflow or an access outside
of a table.
-/

open Numeric (NumericVar)

namespace BigInteger

def maxInt64Digit : Nat := 19
def maxInt128Digit : Nat := 38

def Fits (bits : Nat) (x : Int) : Prop := -2 ^ (bits - 1) ≤ x ∧ x < 2 ^ (bits - 1)

instance (bits : Nat) (x : Int) : Decidable (Fits bits x) := inferInstanceAs (Decidable (_ ∧ _))

def signed (bits : Nat) (x : Int) : Option Int := if Fits bits x then some x else none

inductive Numeric where
  | bi64 (value : Int) (scale : Nat)
  | bi128 (value : Int) (scale : Nat)
  | normal (var : NumericVar)
  deriving DecidableEq, Repr

namespace Numeric

def isBi : Numeric → Bool
  | bi64 _ _ => true
  | bi128 _ _ => true
  | normal _ => false

-- A numeric that is no big integer stays as it is, as in `bitonumeric`.
def makeNumericNormal : Numeric → NumericVar
  | bi64 value scale => Numeric.convertInt64ToNumeric value scale
  | bi128 value scale => Numeric.convertInt128ToNumeric value scale
  | normal var => var

end Numeric

section Adjust

def int64Min : Int := -2 ^ 63
def int128Min : Int := -2 ^ 127

def scaleMultipler (i : Nat) : Option Int :=
  if i < 19 then some (10 ^ i) else if i = 19 then some 0 else none

def getScaleMultiplier (scale : Nat) : Option Int :=
  if scale ≤ maxInt128Digit then some (10 ^ scale) else none

end Adjust

end BigInteger

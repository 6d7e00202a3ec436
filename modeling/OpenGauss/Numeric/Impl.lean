import OpenGauss.Lib.Digits
import Mathlib.Data.List.DropRight

/-!
This module contains the variables of numerics and the conversion of integers into digits, from
`numeric.cpp`.

A numeric that is not NaN and not a big integer is its sign, weight, display scale and digits; the
two header formats that pack the first three are not modelled.
-/

namespace Numeric

def nbase : Nat := 10000
def decDigits : Nat := 4

inductive Sign where
  | pos
  | neg
  deriving DecidableEq, Repr

structure NumericVar where
  digits : List Nat
  weight : Int
  sign : Sign
  dscale : Nat
  deriving DecidableEq, Repr

namespace NumericVar

def ndigits (var : NumericVar) : Nat := var.digits.length

def rscale (var : NumericVar) : Int := var.ndigits - var.weight - 1

end NumericVar

section Convert

def preDigits (preData : Nat) (digits : List Nat) : List Nat :=
  if preData = 0 then digits
  else preDigits (preData / nbase) ((preData - preData / nbase * nbase) :: digits)
termination_by preData
decreasing_by
  simp only [nbase]
  omega

def postDigits (postData resultScale : Nat) : List Nat :=
  if postData = 0 then
    []
  else if decDigits ≤ resultScale then
    postData / 10 ^ (resultScale - decDigits)
      :: postDigits (postData % 10 ^ (resultScale - decDigits)) (resultScale - decDigits)
  else
    [postData * 10 ^ (decDigits - resultScale)]
termination_by resultScale
decreasing_by
  simp only [decDigits] at *
  omega

def joinDigits (pre post : List Nat) (sign : Sign) (scale : Nat) : NumericVar :=
  if pre ≠ [] then
    let weight : Int := pre.length - 1
    if post ≠ [] then
      ⟨pre ++ post, weight, sign, scale⟩
    else
      ⟨pre.rdropWhile (· = 0), weight, sign, scale⟩
  else
    let tmpLoc := (post.takeWhile (· = 0)).length
    ⟨post.drop tmpLoc, -(tmpLoc + 1), sign, scale⟩

-- Both conversions, for integers of `bits` bits; the absolute value is taken modulo `2 ^ bits`.
def convertIntToNumeric (bits : Nat) (data : Int) (scale : Nat) : NumericVar :=
  let sign := if data < 0 then Sign.neg else Sign.pos
  let uval := if data < 0 then (-data % 2 ^ bits).toNat else data.toNat
  if uval = 0 then
    ⟨[], 0, .pos, scale⟩
  else
    joinDigits (preDigits (uval / 10 ^ scale) []) (postDigits (uval % 10 ^ scale) scale) sign scale

def convertInt64ToNumeric (data : Int) (scale : Nat) : NumericVar := convertIntToNumeric 64 data scale

def convertInt128ToNumeric (data : Int) (scale : Nat) : NumericVar :=
  convertIntToNumeric 128 data scale

end Convert

end Numeric

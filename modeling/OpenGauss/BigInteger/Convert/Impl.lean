import OpenGauss.BigInteger.Impl

/-!
This module contains the conversions between big integers and digits, from `numeric.cpp`, with every
table lookup, every write to a digit buffer and every intermediate result checked.
-/

open Numeric (NumericVar Sign nbase decDigits joinDigits)

namespace BigInteger

section ToNumeric

def numericDigit (digit : Nat) : Option Nat := if digit < 2 ^ 15 then some digit else none

def unsigned (bits x : Nat) : Option Nat := if x < 2 ^ bits then some x else none

def quotRem (x : Nat) (factor : Int) : Option (Nat × Nat) :=
  if factor ≤ 0 then none else some (x / factor.toNat, x % factor.toNat)

-- The digits of `pre_data`, written backwards into a buffer with room for `room` more.
def storePre : Nat → Nat → List Nat → Option (List Nat)
  | room, preData, digits =>
    if preData = 0 then
      some digits
    else
      match room with
      | 0 => none
      | room + 1 => do
        let newuval := preData / nbase
        let digit ← numericDigit (preData - newuval * nbase)
        storePre room newuval (digit :: digits)

-- The digits of `post_data`; `multiplier` is the table that the loop reads.
def storePost (bits : Nat) (multiplier : Nat → Option Int) : Nat → Nat → Nat → Option (List Nat)
  | room, postData, resultScale =>
    if postData = 0 then
      some []
    else
      match room with
      | 0 => none
      | room + 1 =>
        if decDigits ≤ resultScale then do
          let factor ← multiplier (resultScale - decDigits)
          let (quotient, postData) ← quotRem postData factor
          let digit ← numericDigit quotient
          let digits ← storePost bits multiplier room postData (resultScale - decDigits)
          return digit :: digits
        else do
          let factor ← scaleMultipler (decDigits - resultScale)
          let product ← unsigned bits (postData * factor.toNat)
          let digit ← numericDigit product
          return [digit]

-- Both conversions: `room` digits fit each of the two buffers.
def convertIntToNumeric (bits room : Nat) (multiplier : Nat → Option Int) (data : Int) (scale : Nat)
    : Option NumericVar := do
  let sign := if data < 0 then Sign.neg else Sign.pos
  let uval := if data < 0 then (-data % 2 ^ bits).toNat else data.toNat
  if uval = 0 then
    return ⟨[], 0, .pos, scale⟩
  else
    let factor ← getScaleMultiplier scale
    let (preData, postData) ← quotRem uval factor
    let pre ← storePre room preData []
    let post ← storePost bits multiplier room postData scale
    return joinDigits pre post sign scale

def convertInt64ToNumeric (data : Int) (scale : Nat) : Option NumericVar :=
  convertIntToNumeric 64 (20 / decDigits) scaleMultipler data scale

def convertInt128ToNumeric (data : Int) (scale : Nat) : Option NumericVar :=
  convertIntToNumeric 128 (40 / decDigits) getScaleMultiplier data scale

def Numeric.toNormal : Numeric → Option NumericVar
  | bi64 value scale => convertInt64ToNumeric value scale
  | bi128 value scale => convertInt128ToNumeric value scale
  | normal var => some var

end ToNumeric

section ToFast

def getWholeScale (numVar : NumericVar) : Int :=
  if numVar.weight ≥ 0 ∧ numVar.ndigits > 0 then
    let wholeScale := numVar.weight * decDigits + numVar.dscale
    let firstDigit := numVar.digits.getD 0 0
    if firstDigit ≥ 1000 then wholeScale + 4
    else if firstDigit ≥ 100 then wholeScale + 3
    else if firstDigit ≥ 10 then wholeScale + 2
    else wholeScale + 1
  else
    numVar.dscale

def canConvertBi64 (wholeScale : Int) : Bool := wholeScale ≤ maxInt64Digit - 1

def canConvertBi128 (wholeScale : Int) : Bool := wholeScale ≤ maxInt128Digit

def atIndex {α : Type} (table : Nat → Option α) (i : Int) : Option α := if i < 0 then none else table i.toNat

def updateResult (result : Int) (digit : Nat) : Option Int := do
  let result ← signed 128 (result * nbase)
  signed 128 (result + digit)

-- The encoder has a branch for each number of digits up to six.
def encodeDigits (digits : List Nat) : Option Int :=
  if digits.length ≤ 6 then digits.foldlM updateResult 0 else none

def adjustScale (result scaleDiff : Int) : Option Int :=
  if scaleDiff > 0 then do
    let factor ← atIndex scaleMultipler scaleDiff
    signed 128 (result * factor)
  else do
    let factor ← atIndex scaleMultipler (-scaleDiff)
    if factor = 0 then none else some (result.tdiv factor)

def withSign (sign : Sign) (result : Int) : Option Int :=
  match sign with
  | .pos => some result
  | .neg => signed 128 (-result)

def toInt64Byscale (n : NumericVar) (scale : Nat) : Option Int := do
  let ascale : Int := if n.ndigits > 0 then n.ndigits - n.weight - 1 else 0
  let scaleDiff := scale - ascale * decDigits
  let result ← encodeDigits n.digits
  let result ← adjustScale result scaleDiff
  let result ← withSign n.sign result
  signed 64 result

def convertShortNumericToInt64Byscale (n : NumericVar) (scale : Nat) : Option Int := toInt64Byscale n scale

def convertShortNumericToInt64ByscaleFast (numVar : NumericVar) : Option Int :=
  toInt64Byscale numVar numVar.dscale

def addDigit (digits : List Nat) (endIndex : Nat) (result : Int) (i : Nat) : Option Int := do
  let digit ← digits[i]?
  let factor ← getScaleMultiplier ((endIndex - 1 - i) * decDigits)
  let product ← signed 128 (digit * factor)
  signed 128 (result + product)

def sumDigits (digits : List Nat) (endIndex : Nat) : Option Int :=
  (List.range endIndex).foldlM (addDigit digits endIndex) 0

def specialDo (dscale : Nat) (ascale : Int) : Bool :=
  ascale > 0 ∧ dscale % decDigits ≠ 0 ∧ (dscale / decDigits : Nat) + 1 = ascale

def lastDigit (n : NumericVar) (result : Int) (remainder : Nat) : Option Int := do
  let factor ← getScaleMultiplier remainder
  let scaled ← signed 128 (result * factor)
  let digit ← n.digits[n.ndigits - 1]?
  let divisor ← getScaleMultiplier (decDigits - remainder)
  signed 128 (scaled + (digit : Int).tdiv divisor)

def toInt128Byscale (n : NumericVar) (dscale : Nat) : Option Int :=
  if n.ndigits = 0 then
    some 0
  else
    let remainder := dscale % decDigits
    let ascale : Int := n.ndigits - (n.weight + 1)
    if specialDo dscale ascale then do
      let result ← sumDigits n.digits (n.ndigits - 1)
      let result ← lastDigit n result remainder
      let factor ← atIndex getScaleMultiplier (dscale - (ascale - 1) * 4 - remainder)
      let result ← signed 128 (result * factor)
      withSign n.sign result
    else do
      let result ← sumDigits n.digits n.ndigits
      let factor ← atIndex getScaleMultiplier (dscale - ascale * 4)
      let result ← signed 128 (result * factor)
      withSign n.sign result

def convertShortNumericToInt128Byscale (n : NumericVar) (dscale : Nat) : Option Int :=
  toInt128Byscale n dscale

def convertShortNumericToInt128ByscaleFast (numVar : NumericVar) : Option Int :=
  toInt128Byscale numVar numVar.dscale

-- `enable` is the setting `enable_fast_numeric`.
def tryConvertNumericNormalToFast (enable : Bool) (val : Numeric) : Option Numeric :=
  match val with
  | .normal numVar =>
    if enable = false then
      some val
    else if canConvertBi64 (getWholeScale numVar) then do
      let result ← convertShortNumericToInt64Byscale numVar numVar.dscale
      return .bi64 result numVar.dscale
    else if canConvertBi128 (getWholeScale numVar) then do
      let result ← convertShortNumericToInt128Byscale numVar numVar.dscale
      return .bi128 result numVar.dscale
    else
      some val
  | _ => some val

def tryDirectConvertNumericNormalToFast (enable : Bool) (val : Numeric) : Option Numeric :=
  if enable = false then
    some val
  else
    match val with
    | .normal numVar =>
      if canConvertBi64 (getWholeScale numVar) then do
        let result ← convertShortNumericToInt64ByscaleFast numVar
        return .bi64 result numVar.dscale
      else if canConvertBi128 (getWholeScale numVar) then do
        let result ← convertShortNumericToInt128ByscaleFast numVar
        return .bi128 result numVar.dscale
      else
        some val
    | _ => some val

end ToFast

end BigInteger

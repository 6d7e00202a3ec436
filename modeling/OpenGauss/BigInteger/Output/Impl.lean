import OpenGauss.BigInteger.Impl
import OpenGauss.Lib.Memory
import OpenGauss.Lib.Decimal

/-!
This module contains the output of big integers, from `biginteger.cpp`.

`none` stands for a failed check of a secure library function, a failed assertion, an overflow or an
access outside of the buffer. `buf` holds what was in the buffer on the stack before.
-/

open Buffer (write)
open Decimal (numeral padded point minus)

namespace BigInteger

def maxBi64Len : Nat := 25
def maxBi128Len : Nat := 45

def p10Int64 : Int := 1000000000000000000

-- "-9223372036854775808"
def int64MinStr : Bytes :=
  [45, 57, 50, 50, 51, 51, 55, 50, 48, 51, 54, 56, 53, 52, 55, 55, 53, 56, 48, 56]

-- "-170141183460469231731687303715884105728"
def int128MinStr : Bytes :=
  [45, 49, 55, 48, 49, 52, 49, 49, 56, 51, 52, 54, 48, 52, 54, 57, 50, 51, 49, 55, 51, 49, 54, 56, 55, 51,
    48, 51, 55, 49, 53, 56, 56, 52, 49, 48, 53, 55, 50, 56]

section Buffer

def memcpyS (buf : Bytes) (pos destMax : Nat) (src : Bytes) (count : Nat) : Option Bytes :=
  if count ≤ destMax ∧ count ≤ src.length then write buf pos (src.take count) else none

-- `text` is what the format and its arguments give.
def sprintfS (buf : Bytes) (pos destMax : Nat) (text : Bytes) : Option Bytes :=
  if text.length < destMax then write buf pos (text ++ [0]) else none

def strlen (buf : Bytes) : Option Nat := if 0 ∈ buf then some (buf.idxOf 0) else none

def pstrdup (buf : Bytes) : Option Bytes := do
  let len ← strlen buf
  some (buf.take len)

-- `%ld`
def ld (x : Int) : Bytes := if x < 0 then minus :: numeral (-x).toNat else numeral x.toNat

-- `%0*ld`
def zeroLd (width : Nat) (x : Int) : Bytes :=
  if x < 0 then minus :: padded (width - 1) (-x).toNat else padded width x.toNat

end Buffer

def outMin (minStr buf : Bytes) (maxLen scale : Nat) : Option Bytes :=
  if scale > 0 then do
    let len := minStr.length - scale
    let buf ← memcpyS buf 0 maxLen minStr len
    let buf ← write buf len [point]
    memcpyS buf (len + 1) (maxLen - len - 1) ((minStr ++ [0]).drop len) (scale + 1)
  else
    memcpyS buf 0 maxLen (minStr ++ [0]) (minStr.length + 1)

def bi64Format (displayLeadingZero : Bool) (sign : Bytes) (preVal postVal : Int) (scale : Nat) : Bytes :=
  if scale > 0 then
    if preVal = 0 ∧ postVal ≠ 0 ∧ displayLeadingZero = false then
      sign ++ point :: zeroLd scale postVal
    else
      sign ++ (ld preVal ++ point :: zeroLd scale postVal)
  else
    sign ++ ld preVal

def absU64 (data : Int) : Option Int := if data ≥ 0 then some data else signed 64 (-data)

def bi64Out (displayLeadingZero : Bool) (buf : Bytes) (data : Int) (scale : Nat) : Option Bytes := do
  if data = int64Min then
    let buf ← outMin int64MinStr buf maxBi64Len scale
    pstrdup buf
  else
    let valU64 ← absU64 data
    let multiplier ← getScaleMultiplier scale
    let preVal ← signed 64 (valU64 / (multiplier % 2 ^ 64))
    let postVal ← signed 64 (valU64 % (multiplier % 2 ^ 64))
    let text := bi64Format displayLeadingZero (if data ≥ 0 then [] else [minus]) preVal postVal scale
    let buf ← sprintfS buf 0 maxBi64Len text
    pstrdup buf

def int128Format (precedingZero : Bool) (data : Int) (scale : Nat) : Option Bytes :=
  let num := data.tdiv p10Int64
  let trailing := data.tmod p10Int64
  if Fits 64 data then
    some (if precedingZero then zeroLd scale data else ld data)
  else if Fits 64 num then
    if precedingZero then
      if scale > 18 then some (zeroLd (scale - 18) num ++ zeroLd 18 trailing) else none
    else
      some (ld num ++ zeroLd 18 trailing)
  else
    let middle := num.tmod p10Int64
    let leading := num.tdiv p10Int64
    if precedingZero then
      if scale > 36 then
        some (zeroLd (scale - 36) leading ++ zeroLd 18 middle ++ zeroLd 18 trailing)
      else
        none
    else
      some (ld leading ++ zeroLd 18 middle ++ zeroLd 18 trailing)

def int128ToString (precedingZero : Bool) (data : Int) (buf : Bytes) (pos len scale : Nat)
    : Option Bytes := do
  let text ← int128Format precedingZero data scale
  sprintfS buf pos len text

def bi128Unsigned (displayLeadingZero : Bool) (buf : Bytes) (start : Nat) (preVal postVal : Int)
    (scale : Nat) : Option Bytes := do
  if scale > 0 then
    if preVal = 0 ∧ postVal ≠ 0 ∧ displayLeadingZero = false then
      let buf ← write buf start [point]
      int128ToString true postVal buf (start + 1) (maxBi128Len - start - 1) scale
    else
      let buf ← int128ToString false preVal buf start (maxBi128Len - start) 0
      let len ← strlen buf
      let buf ← write buf len [point]
      int128ToString true postVal buf (len + 1) (maxBi128Len - len - 1) scale
  else
    int128ToString false preVal buf start (maxBi128Len - start) 0

def bi128Out (displayLeadingZero : Bool) (buf : Bytes) (data : Int) (scale : Nat) : Option Bytes := do
  if data = int128Min then
    let buf ← outMin int128MinStr buf maxBi128Len scale
    pstrdup buf
  else if data ≥ 0 then
    let multiplier ← getScaleMultiplier scale
    let buf ← bi128Unsigned displayLeadingZero buf 0 (data.tdiv multiplier) (data.tmod multiplier) scale
    pstrdup buf
  else
    let data ← signed 128 (-data)
    let multiplier ← getScaleMultiplier scale
    let buf ← write buf 0 [minus]
    let buf ← bi128Unsigned displayLeadingZero buf 1 (data.tdiv multiplier) (data.tmod multiplier) scale
    pstrdup buf

end BigInteger

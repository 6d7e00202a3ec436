import OpenGauss.Cstore.Compress.Impl.IntegerCoder
import OpenGauss.Lib.Bits
import OpenGauss.Varlena

/-!
This module contains the 3 bit maps of scale codes of the old numeric format, from
`cstore_compress.cpp`.
-/

namespace DeltaPlusRLEv2

def rleGetBound2 (nVals eachSize : Nat) : Nat := 1 + eachSize * nVals + nVals / 2

end DeltaPlusRLEv2

def int64Size : ValSize := ⟨8, by decide, by decide⟩

namespace Ascale

/-- The loop over the groups of eight values, and the `switch` over the values left out. -/
def compactAscaleCodesBy3Bits (inValues : List UInt8) : Bytes :=
  match inValues with
  | v0 :: v1 :: v2 :: v3 :: v4 :: v5 :: v6 :: v7 :: inValues =>
    [(v0 <<< 5) ||| (v1 <<< 2) ||| (v2 >>> 1),
      ((v2 &&& 0x1) <<< 7) ||| (v3 <<< 4) ||| (v4 <<< 1) ||| ((v5 &&& 0x4) >>> 2),
      ((v5 &&& 0x3) <<< 6) ||| (v6 <<< 3) ||| v7]
      ++ compactAscaleCodesBy3Bits inValues
  | [v0, v1, v2, v3, v4, v5, v6] =>
    [(v0 <<< 5) ||| (v1 <<< 2) ||| (v2 >>> 1),
      ((v2 &&& 0x1) <<< 7) ||| (v3 <<< 4) ||| (v4 <<< 1) ||| ((v5 &&& 0x4) >>> 2),
      ((v5 &&& 0x3) <<< 6) ||| (v6 <<< 3)]
  | [v0, v1, v2, v3, v4, v5] =>
    [(v0 <<< 5) ||| (v1 <<< 2) ||| (v2 >>> 1),
      ((v2 &&& 0x1) <<< 7) ||| (v3 <<< 4) ||| (v4 <<< 1) ||| ((v5 &&& 0x4) >>> 2),
      (v5 &&& 0x3) <<< 6]
  | [v0, v1, v2, v3, v4] =>
    [(v0 <<< 5) ||| (v1 <<< 2) ||| (v2 >>> 1),
      ((v2 &&& 0x1) <<< 7) ||| (v3 <<< 4) ||| (v4 <<< 1)]
  | [v0, v1, v2, v3] =>
    [(v0 <<< 5) ||| (v1 <<< 2) ||| (v2 >>> 1), ((v2 &&& 0x1) <<< 7) ||| (v3 <<< 4)]
  | [v0, v1, v2] => [(v0 <<< 5) ||| (v1 <<< 2) ||| (v2 >>> 1), (v2 &&& 0x1) <<< 7]
  | [v0, v1] => [(v0 <<< 5) ||| (v1 <<< 2)]
  | [v0] => [v0 <<< 5]
  | [] => []

structure ParseState where
  out : List UInt8
  pos : Nat

section Parse

variable (inBuf : Bytes)

def parseAscaleCodes3Bytes (s : ParseState) : ParseState :=
  let pack1 := inBuf.getD s.pos 0
  let pack2 := inBuf.getD (s.pos + 1) 0
  let pack3 := inBuf.getD (s.pos + 2) 0
  { out := s.out ++ [pack1 >>> 5, (pack1 >>> 2) &&& 0x07,
      ((pack1 &&& 0x3) <<< 1) ||| ((pack2 &&& 0x80) >>> 7), (pack2 >>> 4) &&& 0x07,
      (pack2 >>> 1) &&& 0x07, ((pack2 &&& 0x1) <<< 2) ||| ((pack3 &&& 0xc0) >>> 6),
      (pack3 >>> 3) &&& 0x07]
    pos := s.pos + 3 }

/-- The loop over the groups; `pack3` is the variable of the caller, which the shared code has its own of. -/
def parseGroups (pack3 : UInt8) (groups : Nat) (s : ParseState) : ParseState :=
  match groups with
  | 0 => s
  | groups + 1 =>
    let s := parseAscaleCodes3Bytes inBuf s
    parseGroups pack3 groups { s with out := s.out ++ [pack3 &&& 0x07] }

def parseRemain (remain : Nat) (s : ParseState) : ParseState :=
  let pack1 := inBuf.getD s.pos 0
  let pack2 := inBuf.getD (s.pos + 1) 0
  let pack3 := inBuf.getD (s.pos + 2) 0
  match remain with
  | 7 => parseAscaleCodes3Bytes inBuf s
  | 6 =>
    { out := s.out ++ [pack1 >>> 5, (pack1 >>> 2) &&& 0x07,
        ((pack1 &&& 0x3) <<< 1) ||| ((pack2 &&& 0x80) >>> 7), (pack2 >>> 4) &&& 0x07,
        (pack2 >>> 1) &&& 0x07, ((pack2 &&& 0x1) <<< 2) ||| ((pack3 &&& 0xc0) >>> 6)]
      pos := s.pos + 3 }
  | 5 =>
    { out := s.out ++ [pack1 >>> 5, (pack1 >>> 2) &&& 0x07,
        ((pack1 &&& 0x3) <<< 1) ||| ((pack2 &&& 0x80) >>> 7), (pack2 >>> 4) &&& 0x07,
        (pack2 >>> 1) &&& 0x07]
      pos := s.pos + 2 }
  | 4 =>
    { out := s.out ++ [pack1 >>> 5, (pack1 >>> 2) &&& 0x07,
        ((pack1 &&& 0x3) <<< 1) ||| ((pack2 &&& 0x80) >>> 7), (pack2 >>> 4) &&& 0x07]
      pos := s.pos + 2 }
  | 3 =>
    { out := s.out ++ [pack1 >>> 5, (pack1 >>> 2) &&& 0x07,
        ((pack1 &&& 0x3) <<< 1) ||| ((pack2 &&& 0x80) >>> 7)]
      pos := s.pos + 2 }
  | 2 => { out := s.out ++ [pack1 >>> 5, (pack1 >>> 2) &&& 0x07], pos := s.pos + 1 }
  | 1 => { out := s.out ++ [pack1 >>> 5], pos := s.pos + 1 }
  | _ => s

def parseAscaleCodesBy3Bits (nOutValues : Nat) : List UInt8 × Nat :=
  let s : ParseState := { out := [], pos := 0 }
  let s := parseGroups inBuf 0 (nOutValues >>> 3) s
  let s := parseRemain inBuf (nOutValues &&& 0x7) s
  (s.out, s.pos)

end Parse

end Ascale

import Mathlib.Algebra.Group.Int.Defs
import Mathlib.Order.Lattice
import Mathlib.Algebra.GroupWithZero.Nat

/-!
This module contains the sets of IP addresses of the masking and audit policies, `iprange.h` and
`iprange.cpp`, and the texts of the ranges, how they are parsed and printed. The texts have no
character zero.
-/

namespace IPRange

-- The four words of the union `IPV6`, the lowest one first.
structure IPV6 where
  a : UInt32
  b : UInt32
  c : UInt32
  d : UInt32
  deriving DecidableEq

namespace IPV6

def lower (ip : IPV6) : Nat := 2 ^ 32 * ip.b.toNat + ip.a.toNat

def upper (ip : IPV6) : Nat := 2 ^ 32 * ip.d.toNat + ip.c.toNat

def lt (lhs rhs : IPV6) : Bool := lhs.upper < rhs.upper || lhs.lower < rhs.lower

def gt (lhs rhs : IPV6) : Bool := lt rhs lhs

def le (lhs rhs : IPV6) : Bool := !gt lhs rhs

def ge (lhs rhs : IPV6) : Bool := !lt lhs rhs

def ofLower (i : UInt32) : IPV6 := ⟨i, 0, 0, 0⟩

def add (lhs rhs : IPV6) : IPV6 :=
  if lhs.b = 0x0000FFFF then
    ⟨lhs.a + rhs.a, 0x0000FFFF, 0, 0⟩
  else
    let tmpA := lhs.a.toNat + rhs.a.toNat
    let tmpB := lhs.b.toNat + rhs.b.toNat + tmpA / 2 ^ 32
    let tmpC := lhs.c.toNat + rhs.c.toNat + tmpB / 2 ^ 32
    let tmpD := lhs.d.toNat + rhs.d.toNat + tmpC / 2 ^ 32
    ⟨UInt32.ofNat tmpA, UInt32.ofNat tmpB, UInt32.ofNat tmpC, UInt32.ofNat tmpD⟩

-- `tmp >> 63` of a difference.
def borrow (tmp : Int) : Int := if tmp < 0 then 1 else 0

def sub (lhs rhs : IPV6) : IPV6 :=
  if lhs.b = 0x0000FFFF then
    ⟨lhs.a - rhs.a, 0x0000FFFF, 0, 0⟩
  else
    let tmpA := (lhs.a.toNat : Int) - rhs.a.toNat
    let tmpB := (lhs.b.toNat : Int) - rhs.b.toNat - borrow tmpA
    let tmpC := (lhs.c.toNat : Int) - rhs.c.toNat - borrow tmpB
    let tmpD := (lhs.d.toNat : Int) - rhs.d.toNat - borrow tmpC
    ⟨UInt32.ofInt tmpA, UInt32.ofInt tmpB, UInt32.ofInt tmpC, UInt32.ofInt tmpD⟩

-- `std::max` and `std::min`
def max (x y : IPV6) : IPV6 := if lt x y then y else x

def min (x y : IPV6) : IPV6 := if lt y x then y else x

end IPV6

structure Range where
  first : IPV6
  last : IPV6
  deriving DecidableEq

-- The ranges of `m_ranges`; `from` and `to` are `first` and `last`.
abbrev Ranges := List Range

def handleRemoveIntersection (removeRange existRange : Range) : Ranges :=
  let rangeMin := IPV6.max removeRange.first existRange.first
  let rangeMax := IPV6.min removeRange.last existRange.last
  if rangeMin.gt rangeMax then
    [existRange]
  else if removeRange.first.le existRange.first ∧ removeRange.last.ge existRange.last then
    []
  else if removeRange.first.le existRange.first then
    [⟨removeRange.last.add (.ofLower 1), existRange.last⟩]
  else if removeRange.last.ge existRange.last then
    [⟨existRange.first, removeRange.first.sub (.ofLower 1)⟩]
  else
    [⟨existRange.first, removeRange.first.sub (.ofLower 1)⟩,
      ⟨removeRange.last.add (.ofLower 1), existRange.last⟩]

-- None when there is no intersection.
def handleAddIntersection (newRange existRange : Range) : Option Range :=
  let rangeMin := IPV6.max newRange.first existRange.first
  let rangeMax := IPV6.min newRange.last existRange.last
  if rangeMin.gt rangeMax then
    none
  else
    some ⟨IPV6.min newRange.first existRange.first, IPV6.max newRange.last existRange.last⟩

def addLoop (newRange : Range) (weHadIntersection : Bool) : Ranges → Ranges
  | [] => if weHadIntersection then [newRange] else []
  | existRange :: rest =>
    match handleAddIntersection newRange existRange with
    | some newRange => addLoop newRange true rest
    | none =>
      if weHadIntersection then
        newRange :: existRange :: rest
      else if newRange.last.lt existRange.first then
        newRange :: existRange :: rest
      else
        existRange :: addLoop newRange false rest

def addRange (newRange : Range) (ranges : Ranges) : Ranges :=
  match ranges with
  | [] => [newRange]
  | front :: rest =>
    if newRange.last.lt front.first then
      newRange :: front :: rest
    else if newRange.first.gt (rest.getLastD front).last then
      front :: rest ++ [newRange]
    else
      addLoop newRange false (front :: rest)

def removeRange (removed : Range) (ranges : Ranges) : Ranges :=
  ranges.flatMap (handleRemoveIntersection removed)

-- `s6_addr32`, each word as `ntohl` gives it.
structure In6Addr where
  s0 : UInt32
  s1 : UInt32
  s2 : UInt32
  s3 : UInt32
  deriving DecidableEq

-- `inet_pton` and `inet_ntop` of both families.
structure Inet where
  pton6 : List Char → Option In6Addr
  pton4 : List Char → Option UInt32
  ntop6 : In6Addr → List Char
  ntop4 : UInt32 → List Char

namespace IPV6

def and (lhs rhs : IPV6) : IPV6 := ⟨lhs.a &&& rhs.a, lhs.b &&& rhs.b, lhs.c &&& rhs.c, lhs.d &&& rhs.d⟩

def or (lhs rhs : IPV6) : IPV6 := ⟨lhs.a ||| rhs.a, lhs.b ||| rhs.b, lhs.c ||| rhs.c, lhs.d ||| rhs.d⟩

def not (ip : IPV6) : IPV6 := ⟨~~~ip.a, ~~~ip.b, ~~~ip.c, ~~~ip.d⟩

-- `IPRANGE_IS_IPV4`
def isIPv4 (ip : IPV6) : Bool := ip.b = 0x0000FFFF

end IPV6

def netIpv6ToHostOrder (sa : In6Addr) : IPV6 := ⟨sa.s3, sa.s2, sa.s1, sa.s0⟩

def netIpv4ToHostOrder (addr : UInt32) : IPV6 := ⟨addr, 0x0000FFFF, 0, 0⟩

def strToIp (inet : Inet) (ipStr : List Char) : Option IPV6 :=
  match inet.pton6 ipStr with
  | some sa => some (netIpv6ToHostOrder sa)
  | none => (inet.pton4 ipStr).map netIpv4ToHostOrder

section MaskRange

def maskFromLut : List UInt32 :=
  0xFFFFFFFF :: ((List.range 31).map (fun i => 0xFFFFFFFF <<< UInt32.ofNat (31 - i)) ++ [0xFFFFFFFF])

def maskToLut : List UInt32 :=
  0 :: ((List.range 31).map (fun i => ~~~(0xFFFFFFFF <<< UInt32.ofNat (31 - i))) ++ [0xFFFFFFFF])

def maskFrom (i : Nat) : UInt32 := maskFromLut.getD i 0
def maskTo (i : Nat) : UInt32 := maskToLut.getD i 0

def maskRange (range : Range) (cidr : Nat) : Bool × Range :=
  let first := range.first
  let last := range.last
  if first.isIPv4 then
    if cidr < 1 ∨ 32 < cidr then
      (false, range)
    else
      (true, ⟨{ first with a := first.a &&& maskFrom cidr }, { last with a := last.a ||| maskTo cidr }⟩)
  else if cidr < 1 ∨ 128 < cidr then
    (false, range)
  else
    let complement := cidr % 32
    if 96 < cidr then
      (true, ⟨{ first with a := first.a &&& maskFrom complement },
        { last with a := last.a ||| maskTo complement }⟩)
    else if 64 < cidr then
      (true, ⟨{ first with a := 0, b := first.b &&& maskFrom complement },
        { last with a := 0xFFFFFFFF, b := last.b ||| maskTo complement }⟩)
    else if 32 < cidr then
      (true, ⟨{ first with a := 0, b := 0, c := first.c &&& maskFrom complement },
        { last with a := 0xFFFFFFFF, b := 0xFFFFFFFF, c := last.c ||| maskTo complement }⟩)
    else
      (true, ⟨⟨0, 0, 0, first.d &&& maskFrom complement⟩,
        ⟨0xFFFFFFFF, 0xFFFFFFFF, 0xFFFFFFFF, last.d ||| maskTo complement⟩⟩)

end MaskRange

section Parse

def ipMaxLen : Nat := 128

def copyWithoutSpaces (original : List Char) : List Char :=
  if original.length = 0 ∨ ipMaxLen < original.length then [] else original.filter (· ≠ ' ')

def memchr (ch : Char) : List Char → Option (List Char × List Char)
  | [] => none
  | c :: rest => if c = ch then some ([], rest) else (memchr ch rest).map fun (before, behind) =>
    (c :: before, behind)

def isSpace (c : Char) : Bool := c = ' ' || (9 ≤ c.toNat && c.toNat ≤ 13)

-- `strtol` to base 10, which keeps to the range of its type.
def strtol (text : List Char) : Int :=
  let text := text.dropWhile isSpace
  let magnitude (digits : List Char) : Int := Nat.ofDigitChars 10 (digits.takeWhile Char.isDigit) 0
  match text with
  | '-' :: digits => Max.max (-2 ^ 63) (-magnitude digits)
  | '+' :: digits => Min.min (2 ^ 63 - 1) (magnitude digits)
  | digits => Min.min (2 ^ 63 - 1) (magnitude digits)

-- `(unsigned short)atoi(text)`
def atoiUnsignedShort (text : List Char) : Nat := (strtol text % 2 ^ 16).toNat

def parseSlash (inet : Inet) (rangeLen : Nat) (before behind : List Char) : Option Range := do
  if 100 < rangeLen then
    none
  let cidr := atoiUnsignedShort behind
  let ip ← strToIp inet (copyWithoutSpaces before)
  -- the result of `mask_range` is not looked at
  return (maskRange ⟨ip, ip⟩ cidr).2

def parseHyphen (inet : Inet) (rangeLen : Nat) (before behind : List Char) : Option Range := do
  if 100 < rangeLen then
    none
  let first ← strToIp inet (copyWithoutSpaces before)
  let last ← strToIp inet (copyWithoutSpaces behind)
  if first.gt last then
    none
  return ⟨first, last⟩

def parseMask (inet : Inet) (rangeLen : Nat) (before behind : List Char) : Option Range := do
  if 100 < rangeLen then
    none
  let ip ← strToIp inet (copyWithoutSpaces before)
  let maskIp ← strToIp inet (copyWithoutSpaces behind)
  if maskIp.b = 0x0000FFFF then
    return ⟨⟨ip.a &&& maskIp.a, 0x0000FFFF, 0, 0⟩, ⟨ip.a ||| ~~~maskIp.a, 0x0000FFFF, 0, 0⟩⟩
  else
    return ⟨ip.and maskIp, ip.or maskIp.not⟩

def parseSingle (inet : Inet) (range : List Char) : Option Range := do
  if 100 < range.length then
    none
  let ip ← strToIp inet (copyWithoutSpaces range)
  return ⟨ip, ip⟩

def parseRange (inet : Inet) (range : List Char) : Option Range :=
  match memchr '/' range with
  | some (before, behind) => parseSlash inet range.length before behind
  | none =>
    match memchr '-' range with
    | some (before, behind) => parseHyphen inet range.length before behind
    | none =>
      match memchr '|' range with
      | some (before, behind) => parseMask inet range.length before behind
      | none => parseSingle inet range

end Parse

section Print

def ipToStr (inet : Inet) (ip : IPV6) : List Char :=
  if ip.isIPv4 then inet.ntop4 ip.a else inet.ntop6 ⟨ip.d, ip.c, ip.b, ip.a⟩

def rangeToStr (inet : Inet) (range : Range) : List Char :=
  if ipToStr inet range.first = ipToStr inet range.last then
    ipToStr inet range.first
  else
    ipToStr inet range.first ++ '-' :: ipToStr inet range.last

end Print

end IPRange

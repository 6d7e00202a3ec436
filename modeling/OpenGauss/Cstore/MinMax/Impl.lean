import OpenGauss.Lib.LittleEndian

/-!
This module contains the implementation of the minimum and maximum of a CU, `cstore_minmax_func.cpp`,
of the rough check against them, `cstore_roughcheck_func.cpp`, and of the SQL comparisons that a rough
check stands for. The values of a variable length string are given without their header, and timestamps
are integers.
-/

inductive Strategy where
  | less
  | lessEqual
  | equal
  | greaterEqual
  | greater
  deriving DecidableEq

namespace Strategy

def holds (strategy : Strategy) (x y : Int) : Bool :=
  match strategy with
  | less => x < y
  | lessEqual => x ≤ y
  | equal => x = y
  | greaterEqual => x ≥ y
  | greater => x > y

end Strategy

-- The collations with the comparison functions that `varstr_cmp` calls for them.
inductive Collation where
  | c
  | bFormat (varstrCmpByBuiltinCollations : Bytes → Bytes → Int)
  | locale (strcoll : Bytes → Bytes → Int)

inductive ColumnType where
  | char
  | int2
  | int4
  | int8
  | oid
  | date
  | time
  | timestamp
  | timestamptz
  | bpchar
  | varchar
  | text
  deriving DecidableEq

namespace ColumnType

def Val : ColumnType → Type
  | char => Int8
  | int2 => Int16
  | int4 => Int32
  | int8 => Int64
  | oid => UInt32
  | date => Int32
  | time => Int64
  | timestamp => Int64
  | timestamptz => Int64
  | bpchar => Bytes
  | varchar => Bytes
  | text => Bytes

-- `convert_scan_key_int64_if_need` makes the argument of every signed integer type an `int64`.
def Arg : ColumnType → Type
  | int2 => Int64
  | int4 => Int64
  | type => type.Val

end ColumnType

def minMaxLen : Nat := 32

section Bytes

def memcmp (x y : Bytes) (n : Nat) : Int :=
  match n, x, y with
  | n + 1, x :: xs, y :: ys =>
    if x = y then memcmp xs ys n else if x < y then -1 else 1
  | _, _, _ => 0

-- `varstr_cmp` for a collation whose `LC_COLLATE` is C.
def varstrCmpC (x y : Bytes) : Int :=
  let result := memcmp x y (min x.length y.length)
  if result = 0 ∧ x.length ≠ y.length then
    if x.length < y.length then -1 else 1
  else
    result

def varstrCmp (collation : Collation) (x y : Bytes) : Int :=
  match collation with
  | .c => varstrCmpC x y
  | .bFormat cmp => cmp x y
  | .locale cmp => cmp x y

def bitwiseEq (x y : Bytes) : Bool :=
  if x.length ≠ y.length then false else memcmp x y x.length = 0

def isBFormatCollation : Collation → Bool
  | .bFormat _ => true
  | _ => false

end Bytes

section Sql

def texteq (collation : Collation) (x y : Bytes) : Bool :=
  if isBFormatCollation collation then varstrCmp collation x y = 0 else bitwiseEq x y

def textCompare (strategy : Strategy) (collation : Collation) (x y : Bytes) : Bool :=
  match strategy with
  | .equal => texteq collation x y
  | strategy => strategy.holds (varstrCmp collation x y) 0

def blank : UInt8 := 0x20

def bcTruelen (s : Bytes) : Nat := (s.reverse.dropWhile (· = blank)).length

def bpcharcase (collation : Collation) (x y : Bytes) : Int :=
  varstrCmp collation (x.take (bcTruelen x)) (y.take (bcTruelen y))

def bpchareq (collation : Collation) (x y : Bytes) : Bool :=
  if isBFormatCollation collation then
    bpcharcase collation x y = 0
  else
    bitwiseEq (x.take (bcTruelen x)) (y.take (bcTruelen y))

def bpcharCompare (strategy : Strategy) (collation : Collation) (x y : Bytes) : Bool :=
  match strategy with
  | .equal => bpchareq collation x y
  | strategy => strategy.holds (bpcharcase collation x y) 0

-- `chareq` compares `char`, the other operators compare `uint8`.
def charCompare (strategy : Strategy) (x y : Int8) : Bool :=
  match strategy with
  | .equal => x = y
  | strategy => strategy.holds x.toUInt8.toNat y.toUInt8.toNat

def sqlCompare (strategy : Strategy) (collation : Collation) : (type : ColumnType) → type.Val → type.Arg →
    Bool
  | .char => charCompare strategy
  | .int2 => fun (v : Int16) (arg : Int64) => strategy.holds v.toInt arg.toInt
  | .int4 => fun (v : Int32) (arg : Int64) => strategy.holds v.toInt arg.toInt
  | .int8 => fun (v arg : Int64) => strategy.holds v.toInt arg.toInt
  | .oid => fun (v arg : UInt32) => strategy.holds v.toNat arg.toNat
  | .date => fun (v arg : Int32) => strategy.holds v.toInt arg.toInt
  | .time => fun (v arg : Int64) => strategy.holds v.toInt arg.toInt
  | .timestamp => fun (v arg : Int64) => strategy.holds v.toInt arg.toInt
  | .timestamptz => fun (v arg : Int64) => strategy.holds v.toInt arg.toInt
  | .bpchar => bpcharCompare strategy collation
  | .varchar => textCompare strategy collation
  | .text => textCompare strategy collation

end Sql

section MinMax

structure MinMax (T : Type) where
  minval : T
  maxval : T
  first : Bool

namespace MinMax

def initial {T : Type} (zero : T) : MinMax T := { minval := zero, maxval := zero, first := true }

-- The common part of the comparing functions for fixed length types, `val` is the number of a value.
-- `SetMinMax*` of these types calls the comparing function on the CU descriptor itself.
def compare {T : Type} (val : T → Int) (st : MinMax T) (v : T) : MinMax T :=
  if st.first then
    { minval := v, maxval := v, first := false }
  else if val v < val st.minval then
    { st with minval := v }
  else if val v > val st.maxval then
    { st with maxval := v }
  else
    st

end MinMax

def compareChar := MinMax.compare Int8.toInt
def compareInt16 := MinMax.compare Int16.toInt
def compareInt32 := MinMax.compare Int32.toInt
def compareInt64 := MinMax.compare Int64.toInt
def compareUint32 := MinMax.compare fun v : UInt32 => (v.toNat : Int)
def compareDate := MinMax.compare Int32.toInt
def compareTime := MinMax.compare Int64.toInt
def compareTimestamp := MinMax.compare Int64.toInt
def compareTimestamptz := MinMax.compare Int64.toInt

structure VarStr where
  dat : Bytes
  length : Nat

def compareVarStrType (st : MinMax VarStr) (v : Bytes) : MinMax VarStr :=
  let copySize := min v.length (minMaxLen - 1)
  if st.first then
    { minval := ⟨v, copySize⟩, maxval := ⟨v, copySize⟩, first := false }
  else
    let ret := memcmp v st.minval.dat (min copySize st.minval.length)
    if ret < 0 ∨ (ret = 0 ∧ copySize < st.minval.length) then
      { st with minval := ⟨v, copySize⟩ }
    else
      let ret := memcmp v st.maxval.dat (min copySize st.maxval.length)
      if ret > 0 ∨ (ret = 0 ∧ copySize > st.maxval.length) then
        { st with maxval := ⟨v, copySize⟩ }
      else
        st

structure StringDesc where
  cuMin : Bytes
  cuMax : Bytes

def finishCompareVarStrType (st : MinMax VarStr) : StringDesc where
  cuMin := st.minval.dat.take st.minval.length
  cuMax := st.maxval.dat.take st.maxval.length

def setMinMaxVarStrType (st : MinMax Bytes) (v : Bytes) : MinMax Bytes :=
  let copySize := min v.length (minMaxLen - 1)
  if st.first then
    { minval := v.take copySize, maxval := v.take copySize, first := false }
  else
    let ret := memcmp v st.minval (min copySize st.minval.length)
    if ret < 0 ∨ (ret = 0 ∧ copySize < st.minval.length) then
      { st with minval := v.take copySize }
    else
      let ret := memcmp v st.maxval (min copySize st.maxval.length)
      if ret > 0 ∨ (ret = 0 ∧ copySize > st.maxval.length) then
        { st with maxval := v.take copySize }
      else
        st

inductive VarStrFold where
  | compareAndFinish
  | setMinMax

def stringDesc (fold : VarStrFold) (vals : List Bytes) : StringDesc :=
  match fold with
  | .compareAndFinish => finishCompareVarStrType (vals.foldl compareVarStrType (.initial ⟨[], 0⟩))
  | .setMinMax =>
    let st := vals.foldl setMinMaxVarStrType (.initial [])
    { cuMin := st.minval, cuMax := st.maxval }

end MinMax

section RoughCheck

def roughCheckIntCU (strategy : Strategy) (min max arg : Int) : Bool :=
  match strategy with
  | .less => if min ≥ arg then false else true
  | .lessEqual => if min > arg then false else true
  | .equal => if arg < min ∨ arg > max then false else true
  | .greaterEqual => if max < arg then false else true
  | .greater => if max ≤ arg then false else true

def roughCheckStringCU (strategy : Strategy) (desc : StringDesc) (arg : Bytes) : Bool :=
  let cmpMin := memcmp desc.cuMin arg (min desc.cuMin.length arg.length)
  let cmpMax := memcmp desc.cuMax arg (min desc.cuMax.length arg.length)
  match strategy with
  | .less => if cmpMin > 0 then false else true
  | .lessEqual => if cmpMin > 0 then false else true
  | .equal => if cmpMin > 0 ∨ cmpMax < 0 then false else true
  | .greaterEqual => if cmpMax < 0 then false else true
  | .greater => if cmpMax < 0 then false else true

def isCCollation : Collation → Bool
  | .c => true
  | _ => false

def roughCheckString (fold : VarStrFold) (strategy : Strategy) (collation : Collation) (vals : List Bytes)
    (arg : Bytes) : Bool :=
  if isCCollation collation = false ∧ strategy ≠ .equal then
    true
  else
    roughCheckStringCU strategy (stringDesc fold vals) arg

def roughCheckFixed {T : Type} (strategy : Strategy) (val : T → Int) (st : MinMax T) (arg : Int) : Bool :=
  roughCheckIntCU strategy (val st.minval) (val st.maxval) arg

def roughCheck (fold : VarStrFold) (strategy : Strategy) (collation : Collation)
    : (type : ColumnType) → List type.Val → type.Arg → Bool
  | .char => fun (vals : List Int8) (arg : Int8) =>
    roughCheckFixed strategy Int8.toInt (vals.foldl compareChar (.initial 0)) arg.toInt
  | .int2 => fun (vals : List Int16) (arg : Int64) =>
    roughCheckFixed strategy Int16.toInt (vals.foldl compareInt16 (.initial 0)) arg.toInt
  | .int4 => fun (vals : List Int32) (arg : Int64) =>
    roughCheckFixed strategy Int32.toInt (vals.foldl compareInt32 (.initial 0)) arg.toInt
  | .int8 => fun (vals : List Int64) (arg : Int64) =>
    roughCheckFixed strategy Int64.toInt (vals.foldl compareInt64 (.initial 0)) arg.toInt
  | .oid => fun (vals : List UInt32) (arg : UInt32) =>
    roughCheckFixed strategy (fun v => (v.toNat : Int)) (vals.foldl compareUint32 (.initial 0)) arg.toNat
  | .date => fun (vals : List Int32) (arg : Int32) =>
    roughCheckFixed strategy Int32.toInt (vals.foldl compareDate (.initial 0)) arg.toInt
  | .time => fun (vals : List Int64) (arg : Int64) =>
    roughCheckFixed strategy Int64.toInt (vals.foldl compareTime (.initial 0)) arg.toInt
  | .timestamp => fun (vals : List Int64) (arg : Int64) =>
    roughCheckFixed strategy Int64.toInt (vals.foldl compareTimestamp (.initial 0)) arg.toInt
  | .timestamptz => fun (vals : List Int64) (arg : Int64) =>
    roughCheckFixed strategy Int64.toInt (vals.foldl compareTimestamptz (.initial 0)) arg.toInt
  | .bpchar => roughCheckString fold strategy collation
  | .varchar => roughCheckString fold strategy collation
  | .text => roughCheckString fold strategy collation

end RoughCheck

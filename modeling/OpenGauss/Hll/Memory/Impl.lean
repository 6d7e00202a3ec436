import OpenGauss.Hll.Impl
import OpenGauss.Lib.Bits
import OpenGauss.Lib.Memory

/-!
This module contains the same sketches with their memory: the data of a sketch is an allocated buffer
of `lenTotal` bytes, of which the first `lenUsed` are in use, and every access to a buffer, every
unsigned subtraction and every assertion may fail.
-/

namespace Hll.Memory

inductive Fault where
  | ereport (msg : String)
  | overrun
  | wraps
  | assertion
  deriving DecidableEq

abbrev Checked := Except Fault

def inBuffer {α : Type} : Option α → Checked α
  | some a => .ok a
  | none => .error .overrun

def reported {α : Type} : Except String α → Checked α
  | .ok a => .ok a
  | .error msg => .error (.ereport msg)

def sub (a b : Nat) : Checked Nat := if b ≤ a then .ok (a - b) else .error .wraps

def assertTrue (c : Prop) [Decidable c] : Checked Unit := if c then .ok () else .error .assertion

inductive HllType where
  | uninit
  | empty
  | explicit
  | sparse
  | full
  deriving DecidableEq, Repr

-- `hllData` is the allocated memory; there is none for a null pointer. Doubles are their 64 bits.
structure HllObjectData where
  hlltype : HllType
  hllpara : HllPara
  lenTotal : Nat
  lenUsed : Nat
  hllData : Bytes
  ndvEstimator : UInt64
  lastHash : UInt64
  deriving DecidableEq

structure Estimator where
  succ : UInt64 → UInt64
  ofNat : Nat → UInt64
  calculateNDV : HllObjectData → UInt64

def minusOne : UInt64 := 0xBFF0000000000000

def hllExpandSize : Nat := 256

def paraSetDefault : HllPara := ⟨14, 10, 12, 0⟩

def hllInit : HllObjectData where
  hlltype := .uninit
  hllpara := paraSetDefault
  lenTotal := 0
  lenUsed := 0
  hllData := []
  ndvEstimator := minusOne
  lastHash := 0

def hllEmpty (o : HllObjectData) : HllObjectData :=
  { o with hlltype := .empty, ndvEstimator := 0, lastHash := 0, hllData := [], lenTotal := 0, lenUsed := 0 }

def hllSetPara (o : HllObjectData) (hllpara : HllPara) : Checked HllObjectData :=
  match o.hlltype with
  | .uninit => .ok { o with hllpara }
  | .empty => .ok { o with hllpara }
  | _ => .error (.ereport "only can set parameters on an uninit/empty hll object")

section Access

def outOfRange (o : HllObjectData) : Fault :=
  .ereport ("hll index is out of range, current_size=" ++ toString o.lenUsed)

def hllGetByte (o : HllObjectData) (index : Nat) : Checked UInt8 :=
  if index ≥ o.lenUsed then .error (outOfRange o) else inBuffer o.hllData[index]?

def hllSetByte (o : HllObjectData) (index : Nat) (value : UInt8) : Checked HllObjectData :=
  if index ≥ o.lenUsed then
    .error (outOfRange o)
  else do
    let hllData ← inBuffer (Buffer.write o.hllData index [value])
    return { o with hllData }

-- What `repalloc` adds is taken to be zero.
def hllDataExpand (o : HllObjectData) : HllObjectData :=
  if o.lenTotal = 0 then
    { o with hllData := List.replicate hllExpandSize 0, lenTotal := o.lenTotal + hllExpandSize }
  else
    { o with
      hllData := o.hllData ++ List.replicate hllExpandSize 0, lenTotal := o.lenTotal + hllExpandSize }

theorem lenTotal_hllDataExpand (o : HllObjectData)
    : (hllDataExpand o).lenTotal = o.lenTotal + hllExpandSize := by
  unfold hllDataExpand
  split <;> rfl

theorem lenUsed_hllDataExpand (o : HllObjectData) : (hllDataExpand o).lenUsed = o.lenUsed := by
  unfold hllDataExpand
  split <;> rfl

def expandFor (need : Nat) (o : HllObjectData) : Checked HllObjectData :=
  if o.lenUsed ≤ o.lenTotal then
    if need > o.lenTotal - o.lenUsed then expandFor need (hllDataExpand o) else .ok o
  else
    .error .wraps
termination_by need - (o.lenTotal - o.lenUsed)
decreasing_by
  rw [lenTotal_hllDataExpand, lenUsed_hllDataExpand]
  unfold hllExpandSize
  omega

def moveBytes (hllData : Bytes) (dest src moveLen : Nat) : Checked Bytes := do
  let moved ← inBuffer (Buffer.read hllData src moveLen)
  inBuffer (Buffer.write hllData dest moved)

def shiftTail (hllData : Bytes) (index insertLen originLen moveLen : Nat) : Checked Bytes :=
  if insertLen ≠ originLen ∧ moveLen > 0 then
    moveBytes hllData (index + insertLen) (index + originLen) moveLen
  else
    .ok hllData

def hllUpdateValue (o : HllObjectData) (index : Nat) (insertValue : Bytes) (insertLen originLen : Nat)
    : Checked HllObjectData :=
  if (originLen = 0 ∧ index > o.lenUsed) ∨ (originLen > 0 ∧ index + originLen > o.lenUsed) then
    .error (outOfRange o)
  else do
    let need ← sub insertLen originLen
    let o ← expandFor need o
    let moveLen ← sub o.lenUsed (index + originLen)
    let hllData ← shiftTail o.hllData index insertLen originLen moveLen
    let value ← inBuffer (Buffer.read insertValue 0 insertLen)
    let hllData ← inBuffer (Buffer.write hllData index value)
    return { o with hllData, lenUsed := o.lenUsed + need }

def hllGetExplictitValue (o : HllObjectData) (index : Nat) : Checked UInt64 := do
  let bytes ← inBuffer (Buffer.read o.hllData (hllExplicitUint * (index / hllExplicitUint)) hllExplicitUint)
  return UInt64.ofNat (LittleEndian.decode bytes)

end Access

section Sparse

def hllGetRegisterUnit.go (o : HllObjectData) (registerIndex : Nat) : Nat → Nat → Nat → Checked (Nat × Nat)
  | 0, _, _ =>
    if registerIndex ≥ 2 ^ o.hllpara.log2Registers then
      .error (.ereport "hll index is out of range")
    else
      .error (.ereport "hllData missed in sparse mode")
  | left + 1, i, currentRegisterSum => do
    let byteValue ← hllGetByte o i
    let current ← reported (currentRegister byteValue)
    if currentRegisterSum + current > registerIndex then
      let unitIndex ← sub registerIndex currentRegisterSum
      return (i, unitIndex)
    else
      go o registerIndex left (i + 1) (currentRegisterSum + current)

def hllGetRegisterUnit (o : HllObjectData) (registerIndex : Nat) : Checked (Nat × Nat) :=
  if registerIndex = 0 then .ok (0, 0) else hllGetRegisterUnit.go o registerIndex o.lenUsed 0 0

-- The byte at `index` of the array `newByte`, and the next index.
def hllSetSparseByte (newByte : Bytes) (index count : Nat) (value : UInt8) : Checked (Bytes × Nat) := do
  assertTrue (count ≠ 0)
  let byte ← reported (Hll.hllSetSparseByte count value)
  let newByte ← inBuffer (Buffer.write newByte index [byte])
  return (newByte, index + 1)

def setZerosIf (c : Prop) [Decidable c] (newByte : Bytes) (index count : Nat) : Checked (Bytes × Nat) :=
  if c then hllSetSparseByte newByte index count 0 else .ok (newByte, index)

def setSide (newByte : Bytes) (index count : Nat) : Checked (Bytes × Nat) := do
  let (newByte, index) ← setZerosIf (count ≥ hllLongzeroUnit) newByte index count
  let count := if count ≥ hllLongzeroUnit then count &&& 0x3f else count
  setZerosIf (count > 0) newByte index count

def laterZero (o : HllObjectData) (byteIndex right : Nat) : Checked (Nat × Nat) := do
  let last ← sub o.lenUsed 1
  if byteIndex < last then
    let laterByte ← hllGetByte o (byteIndex + 1)
    if byteType laterByte = .sparseZero then
      return (2, right + byteGetValue laterByte)
    else
      return (1, right)
  else
    return (1, right)

-- `newByte` holds what was in the array of 5 bytes before.
def hllUpdateSparseType1 (newByte : Bytes) (o : HllObjectData) (byteIndex unitIndex : Nat)
    (newValue : UInt8) : Checked HllObjectData := do
  let byteValue ← hllGetByte o byteIndex
  assertTrue (byteType byteValue = .sparseLongzero)
  if newValue = 0 then
    return o
  else
    let left := unitIndex
    let right ← sub (byteGetValue byteValue * hllLongzeroUnit) (left + 1)
    let (newByte, index) ← setSide newByte 0 left
    let (newByte, index) ← hllSetSparseByte newByte index 1 newValue
    let (originLen, right) ← laterZero o byteIndex right
    let (newByte, index) ← setSide newByte index right
    let o ← hllUpdateValue o byteIndex newByte index originLen
    return { o with ndvEstimator := minusOne }

def hllUpdateSparseType2 (newByte : Bytes) (o : HllObjectData) (byteIndex unitIndex : Nat)
    (newValue : UInt8) : Checked HllObjectData := do
  let byteValue ← hllGetByte o byteIndex
  assertTrue (byteType byteValue = .sparseZero)
  if newValue = 0 then
    return o
  else
    let left := unitIndex
    let right ← sub (byteGetValue byteValue) (left + 1)
    let (newByte, index) ← setZerosIf (left > 0) newByte 0 left
    let (newByte, index) ← hllSetSparseByte newByte index 1 newValue
    let (newByte, index) ← setZerosIf (right > 0) newByte index right
    let o ← hllUpdateValue o byteIndex newByte index 1
    return { o with ndvEstimator := minusOne }

def hllUpdateSparseType3 (o : HllObjectData) (byteIndex unitIndex : Nat) (newValue : UInt8)
    : Checked HllObjectData := do
  let byteValue ← hllGetByte o byteIndex
  assertTrue (byteType byteValue = .denseValue)
  assertTrue (unitIndex = 0)
  if newValue.toNat ≤ byteGetValue byteValue then
    return o
  else
    let o ← hllSetByte o byteIndex (setDenseValue newValue.toNat)
    return { o with ndvEstimator := minusOne }

def hllUpdateSparseValue (o : HllObjectData) (byteIndex unitIndex : Nat) (newValue : UInt8)
    : Checked HllObjectData := do
  if newValue = 0 then
    return o
  else
    let byteValue ← hllGetByte o byteIndex
    match byteType byteValue with
    | .sparseLongzero => hllUpdateSparseType1 (List.replicate 5 0) o byteIndex unitIndex newValue
    | .sparseZero => hllUpdateSparseType2 (List.replicate 3 0) o byteIndex unitIndex newValue
    | .denseValue => hllUpdateSparseType3 o byteIndex unitIndex newValue
    | .sparseValue => .error (.ereport "undefined hll register type")

end Sparse

section Transform

def nbyte (p : HllPara) : Nat :=
  let log2byte := p.log2Registers - 12
  if log2byte > 0 then 2 ^ log2byte else 1

def explicitToFull (o : HllObjectData) (newdata : Bytes) : Checked Bytes :=
  (List.range ((o.lenUsed + 7) / hllExplicitUint)).foldlM (fun newdata i => do
    let hashval ← hllGetExplictitValue o (hllExplicitUint * i)
    let (index, value) := hllHashToValue o.hllpara hashval
    inBuffer (Buffer.write newdata index [value])) newdata

def sparseToFullByte (newdata : Bytes) (index : Nat) (byteValue : UInt8) : Checked (Bytes × Nat) :=
  match byteType byteValue with
  | .sparseLongzero => .ok (newdata, index + byteGetValue byteValue * hllLongzeroUnit)
  | .sparseZero => .ok (newdata, index + byteGetValue byteValue)
  | .denseValue => do
    let newdata ← inBuffer (Buffer.write newdata index [UInt8.ofNat (byteGetValue byteValue)])
    return (newdata, index + 1)
  | .sparseValue => .error (.ereport "undefined hll register type")

def sparseToFull (o : HllObjectData) (newdata : Bytes) : Checked (Bytes × Nat) :=
  (List.range o.lenUsed).foldlM (fun s i => do
    let byteValue ← hllGetByte o i
    sparseToFullByte s.1 s.2 byteValue) (newdata, 0)

def becomeFull (o : HllObjectData) (newdata : Bytes) : HllObjectData :=
  let lenUsed := 2 ^ o.hllpara.log2Registers
  { o with hllData := newdata, hlltype := .full, lenUsed, lenTotal := lenUsed }

def hllTransformFull (o : HllObjectData) : Checked HllObjectData :=
  let newdata := List.replicate (2 ^ o.hllpara.log2Registers) 0
  match o.hlltype with
  | .empty => .ok (becomeFull o newdata)
  | .explicit => do
    let newdata ← explicitToFull o newdata
    return becomeFull o newdata
  | .sparse => do
    let (newdata, index) ← sparseToFull o newdata
    assertTrue (index = 2 ^ o.hllpara.log2Registers)
    return becomeFull o newdata
  | .full => .ok o
  | .uninit => .error (.ereport "undefined hll type")

def hllEmptyToSparse (o : HllObjectData) : Checked HllObjectData := do
  assertTrue (o.hlltype = .empty)
  assertTrue (o.hllData = [])
  let nbyte := nbyte o.hllpara
  if nbyte > 1 then
    let hllData ← inBuffer (Buffer.write (List.replicate nbyte 0) 0 (List.replicate nbyte hllLongzeroFull))
    return { o with hllData, lenTotal := nbyte, lenUsed := nbyte, hlltype := .sparse }
  else
    let hllData ← inBuffer (Buffer.write [0] 0 [setLongzeroValue (2 ^ o.hllpara.log2Registers)])
    return { o with hllData, lenTotal := 1, lenUsed := 1, hlltype := .sparse }

-- `byte` is written behind the `index` bytes written before, if `c` holds.
def putIf (c : Prop) [Decidable c] (newdata : Bytes) (pos index : Nat) (bytes : Bytes)
    : Checked (Bytes × Nat) :=
  if c then do
    let newdata ← inBuffer (Buffer.write newdata (pos + index) bytes)
    return (newdata, index + bytes.length)
  else
    .ok (newdata, index)

-- The zeros are written to `newdata + pos`; the result tells how many bytes they take.
def hllSetSparseZero (newdata : Bytes) (pos zerocount : Nat) : Checked (Bytes × Nat) := do
  if zerocount ≥ hllLongzeroUnit then
    let fullnum := zerocount >>> 12
    let (newdata, index) ← putIf (fullnum > 0) newdata pos 0 (List.replicate fullnum hllLongzeroFull)
    let zerocount := zerocount &&& 0xfff
    let (newdata, index) ←
      putIf (zerocount ≥ hllLongzeroUnit) newdata pos index [setLongzeroValue zerocount]
    let zerocount := if zerocount ≥ hllLongzeroUnit then zerocount &&& 0x3f else zerocount
    putIf (zerocount > 0) newdata pos index [setZeroValue zerocount]
  else
    putIf (zerocount > 0) newdata pos 0 [setZeroValue zerocount]

structure ToSparse where
  newdata : Bytes
  sparsesize : Nat
  sparseindex : Nat
  lastindex : Int

def growSparse (sparseMinsize : Nat) (s : ToSparse) : ToSparse :=
  if s.sparseindex + sparseMinsize > s.sparsesize then
    { s with
      newdata := s.newdata ++ List.replicate hllExpandSize 0, sparsesize := s.sparsesize + hllExpandSize }
  else
    s

def explicitToSparseStep (p : HllPara) (sparseMinsize : Nat) (s : ToSparse) (hashval : UInt64)
    : Checked ToSparse := do
  let (index, value) := hllHashToValue p hashval
  if value = 0 then
    return s
  else
    assertTrue ((index : Int) ≥ s.lastindex)
    let newvalue := setDenseValue value.toNat
    if (index : Int) = s.lastindex then
      let pos ← sub s.sparseindex 1
      let byte ← inBuffer s.newdata[pos]?
      if byte < newvalue then
        let newdata ← inBuffer (Buffer.write s.newdata pos [newvalue])
        return { s with newdata }
      else
        return s
    else
      let zerocount := (index - s.lastindex - 1).toNat
      let (newdata, count) ← hllSetSparseZero s.newdata s.sparseindex zerocount
      let newdata ← inBuffer (Buffer.write newdata (s.sparseindex + count) [newvalue])
      return growSparse sparseMinsize
        { s with newdata, sparseindex := s.sparseindex + count + 1, lastindex := index }

def hllExplicitToSparse (o : HllObjectData) : Checked HllObjectData := do
  assertTrue (o.hlltype = .explicit)
  let sparseMinsize := nbyte o.hllpara + 2
  let s ← (List.range (o.lenUsed / hllExplicitUint)).foldlM (fun s i => do
    let hashval ← hllGetExplictitValue o (hllExplicitUint * i)
    explicitToSparseStep o.hllpara sparseMinsize s hashval)
    ⟨List.replicate sparseMinsize 0, sparseMinsize, 0, -1⟩
  let zerocount := (2 ^ o.hllpara.log2Registers - s.lastindex - 1).toNat
  let (newdata, count) ← hllSetSparseZero s.newdata s.sparseindex zerocount
  return { o with
    hllData := newdata, lenTotal := s.sparsesize, lenUsed := s.sparseindex + count, hlltype := .sparse }

def hllTransformSparse (o : HllObjectData) : Checked HllObjectData :=
  match o.hlltype with
  | .empty => hllEmptyToSparse o
  | .explicit => hllExplicitToSparse o
  | .sparse => .ok o
  | _ => .error (.ereport "undefined hll type")

end Transform

section Add

variable (E : Estimator)

def hllExplicitCheck (o : HllObjectData) : Checked HllObjectData := do
  assertTrue (o.hlltype = .explicit)
  if o.lenUsed > 2 ^ o.hllpara.log2Explicitsize then
    if o.hllpara.log2Sparsesize > o.hllpara.log2Explicitsize then
      let o ← hllTransformSparse o
      if o.lenUsed > 2 ^ o.hllpara.log2Sparsesize then hllTransformFull o else return o
    else
      hllTransformFull o
  else
    return o

-- The binary search of `HllSetExplicitValue`; every turn shortens the range.
def upperBound (o : HllObjectData) (hashval : UInt64) : Nat → Nat → Nat → Checked Nat
  | 0, start, _ => .ok start
  | turns + 1, start, last =>
    if start < last then do
      let mid := (start + last) / 2
      let currentHash ← hllGetExplictitValue o (mid * hllExplicitUint)
      if currentHash ≤ hashval then
        upperBound o hashval turns (mid + 1) last
      else
        upperBound o hashval turns start mid
    else
      .ok start

-- Whether the value in front of `bindex` is the hash itself.
def isStored (o : HllObjectData) (bindex : Nat) (hashval : UInt64) : Checked Bool :=
  if bindex > 0 then do
    let stored ← hllGetExplictitValue o ((bindex - 1) * hllExplicitUint)
    return stored = hashval
  else
    .ok false

def hllSetExplicitValue (o : HllObjectData) (hashval : UInt64) : Checked HllObjectData := do
  assertTrue (o.hlltype = .explicit)
  let explicitLen := o.lenUsed / hllExplicitUint
  let free ← sub o.lenTotal o.lenUsed
  let o := if free < hllExplicitUint then hllDataExpand o else o
  let bindex ← upperBound o hashval explicitLen 0 explicitLen
  let insertValue := LittleEndian.encode hllExplicitUint hashval.toNat
  if ← isStored o bindex hashval then
    return o
  else
    let o ← hllUpdateValue o (hllExplicitUint * bindex) insertValue hllExplicitUint 0
    hllExplicitCheck { o with ndvEstimator := E.succ o.ndvEstimator }

def hllSetSparseValue (o : HllObjectData) (hashval : UInt64) : Checked HllObjectData := do
  assertTrue (o.hlltype = .sparse)
  let (index, value) := hllHashToValue o.hllpara hashval
  if value = 0 then
    return o
  else
    let (byteIndex, unitIndex) ← hllGetRegisterUnit o index
    let o ← hllUpdateSparseValue o byteIndex unitIndex value
    if o.lenUsed > 2 ^ o.hllpara.log2Sparsesize then hllTransformFull o else return o

def hllSetFullValue (o : HllObjectData) (hashval : UInt64) : Checked HllObjectData := do
  assertTrue (o.hlltype = .full)
  let (index, value) := hllHashToValue o.hllpara hashval
  if value = 0 then
    return o
  else
    let byte ← hllGetByte o index
    if value > byte then
      let o ← hllSetByte o index value
      return { o with ndvEstimator := minusOne }
    else
      return o

def hllSetEmptyValue (o : HllObjectData) (hashval : UInt64) : Checked HllObjectData := do
  assertTrue (o.hlltype = .empty)
  if o.hllpara.log2Explicitsize = 0 ∧ o.hllpara.log2Sparsesize = 0 then
    let o ← hllTransformFull o
    hllSetFullValue o hashval
  else if o.hllpara.log2Explicitsize = 0 then
    let o ← hllTransformSparse o
    hllSetSparseValue o hashval
  else
    hllSetExplicitValue E { o with hlltype := .explicit } hashval

def hllSetRegisterValue (o : HllObjectData) (hashval : UInt64) : Checked HllObjectData :=
  match o.hlltype with
  | .uninit => hllSetEmptyValue E (hllEmpty o) hashval
  | .empty => hllSetEmptyValue E o hashval
  | .explicit => hllSetExplicitValue E o hashval
  | .sparse => hllSetSparseValue o hashval
  | .full => hllSetFullValue o hashval

def hllAdd (o : HllObjectData) (hashval : UInt64) : Checked HllObjectData :=
  if o.hllpara.duplicateCheck ≠ 0 ∧ hashval = o.lastHash then
    .ok o
  else do
    let o ← hllSetRegisterValue E o hashval
    return { o with lastHash := hashval }

def hllCardinality (o : HllObjectData) : Checked HllObjectData :=
  if o.ndvEstimator = minusOne then
    match o.hlltype with
    | .uninit => .error (.ereport "undefined hll type")
    | .empty => .ok { o with ndvEstimator := 0 }
    | _ => .ok { o with ndvEstimator := E.calculateNDV o }
  else
    .ok o

end Add

section Union

variable (E : Estimator)

def hllCopy (o aHll : HllObjectData) : Checked HllObjectData :=
  match aHll.hlltype with
  | .uninit => .error (.ereport "invalid hll type")
  | .empty => .ok (hllEmpty { o with hllpara := aHll.hllpara })
  | _ => do
    let o := if o.lenTotal < aHll.lenTotal then
        { o with
          hllData := List.replicate aHll.lenTotal 0, lenTotal := aHll.lenTotal, lenUsed := aHll.lenUsed }
      else
        { o with lenUsed := aHll.lenUsed }
    let used ← inBuffer (Buffer.read aHll.hllData 0 o.lenUsed)
    let hllData ← inBuffer (Buffer.write o.hllData 0 used)
    return { o with
      hllData, hllpara := aHll.hllpara, hlltype := aHll.hlltype, ndvEstimator := aHll.ndvEstimator,
      lastHash := aHll.lastHash }

def copyBytes (newdata : Bytes) (p : Nat) (hllData : Bytes) (pos n : Nat) : Checked Bytes := do
  let bytes ← inBuffer (Buffer.read hllData pos n)
  inBuffer (Buffer.write newdata p bytes)

def combineLoop (o aHll : HllObjectData) (p1 p2 p : Nat) (newdata : Bytes)
    : Checked (Nat × Nat × Nat × Bytes) :=
  if p1 < o.lenUsed ∧ p2 < aHll.lenUsed then do
    let hashval1 ← hllGetExplictitValue o p1
    let hashval2 ← hllGetExplictitValue aHll p2
    if hashval1 < hashval2 then
      let newdata ← copyBytes newdata p o.hllData p1 hllExplicitUint
      combineLoop o aHll (p1 + hllExplicitUint) p2 (p + hllExplicitUint) newdata
    else if hashval1 > hashval2 then
      let newdata ← copyBytes newdata p aHll.hllData p2 hllExplicitUint
      combineLoop o aHll p1 (p2 + hllExplicitUint) (p + hllExplicitUint) newdata
    else
      let newdata ← copyBytes newdata p o.hllData p1 hllExplicitUint
      combineLoop o aHll (p1 + hllExplicitUint) (p2 + hllExplicitUint) (p + hllExplicitUint) newdata
  else
    .ok (p1, p2, p, newdata)
termination_by (o.lenUsed - p1) + (aHll.lenUsed - p2)
decreasing_by all_goals simp only [hllExplicitUint]; omega

def copyRest (o aHll : HllObjectData) (p1 p2 p : Nat) (newdata : Bytes) (leftLen : Nat) : Checked Bytes :=
  if p1 < o.lenUsed then
    copyBytes newdata p o.hllData p1 leftLen
  else if p2 < aHll.lenUsed then
    copyBytes newdata p aHll.hllData p2 leftLen
  else
    .ok newdata

def hllComibineExplicit (o aHll : HllObjectData) : Checked HllObjectData := do
  assertTrue (o.hlltype = .explicit)
  assertTrue (aHll.hlltype = .explicit)
  let newdata := List.replicate (o.lenUsed + aHll.lenUsed) 0
  let (p1, p2, p, newdata) ← combineLoop o aHll 0 0 0 newdata
  let leftLen ← sub (o.lenUsed + aHll.lenUsed) (p1 + p2)
  let newdata ← copyRest o aHll p1 p2 p newdata leftLen
  let lenUsed := p + leftLen
  hllExplicitCheck { o with
    hllData := newdata, lenTotal := o.lenUsed + aHll.lenUsed, lenUsed, lastHash := 0,
    ndvEstimator := E.ofNat (lenUsed / hllExplicitUint) }

def hllCombineFull (o aHll : HllObjectData) : Checked HllObjectData := do
  assertTrue (o.hlltype = .full)
  assertTrue (aHll.hlltype = .full)
  let hllData ← (List.range o.lenUsed).foldlM (fun hllData i => do
    let byte ← inBuffer hllData[i]?
    let aByte ← inBuffer aHll.hllData[i]?
    if byte < aByte then inBuffer (Buffer.write hllData i [aByte]) else return hllData) o.hllData
  return { o with hllData, ndvEstimator := minusOne, lastHash := 0 }

-- Both sketches come back, since the argument is handed over by pointer.
def hllUnion (o aHll : HllObjectData) : Checked (HllObjectData × HllObjectData) :=
  if aHll.hlltype = .uninit ∨ aHll.hlltype = .empty then
    .ok (o, aHll)
  else if o.hlltype = .uninit ∨ o.hlltype = .empty then do
    let o ← hllCopy o aHll
    return (o, aHll)
  else do
    reported (hllCheckParaequal o.hllpara aHll.hllpara)
    if aHll.hlltype = .explicit ∧ o.hlltype = .explicit then
      let o ← hllComibineExplicit E o aHll
      return (o, aHll)
    else
      let o ← hllTransformFull o
      let aHll ← hllTransformFull aHll
      let o ← hllCombineFull o aHll
      return (o, aHll)

end Union

section Wire

def hllFlagLen : Nat := 3
def hllHeadSize : Nat := 27
def hllHead : Bytes := [72, 76, 76]

def HllType.code : HllType → Nat
  | uninit => 0
  | empty => 1
  | explicit => 2
  | sparse => 3
  | full => 4

def HllType.ofCode? : Nat → Option HllType
  | 0 => some .uninit
  | 1 => some .empty
  | 2 => some .explicit
  | 3 => some .sparse
  | 4 => some .full
  | _ => none

def hllParaBit : Nat := 4
def hllLenBit : Nat := 17

def packInfo (o : HllObjectData) : UInt64 :=
  let compressinfo := UInt64.ofNat o.hlltype.code
  let compressinfo := BitField.push compressinfo hllParaBit (UInt64.ofInt (o.hllpara.log2Registers - 10))
  let compressinfo := BitField.push compressinfo hllParaBit (UInt64.ofNat o.hllpara.log2Explicitsize)
  let compressinfo := BitField.push compressinfo hllParaBit (UInt64.ofNat o.hllpara.log2Sparsesize)
  let compressinfo := BitField.push compressinfo hllParaBit (UInt64.ofNat o.hllpara.duplicateCheck)
  let compressinfo := BitField.push compressinfo hllLenBit (UInt64.ofNat o.lenTotal)
  BitField.push compressinfo hllLenBit (UInt64.ofNat o.lenUsed)

def tooSmall (hllsize lenUsed : Nat) : Fault :=
  .ereport ("hllsize = " ++ toString hllsize ++ " is smaller than hllobjectsize=" ++ toString
    (hllHeadSize + lenUsed))

def hllObjectPack (o : HllObjectData) (hllsize : Nat) : Checked Bytes :=
  if hllsize ≤ hllHeadSize + o.lenUsed then
    .error (tooSmall hllsize o.lenUsed)
  else if o.hlltype = .uninit then
    .error (.ereport "invalid hll type, type=0")
  else do
    let hllbyte := List.replicate hllsize 0
    let hllbyte ← inBuffer (Buffer.write hllbyte 0 hllHead)
    let hllbyte ← inBuffer (Buffer.write hllbyte 3 (LittleEndian.encode 8 (packInfo o).toNat))
    let hllbyte ← inBuffer (Buffer.write hllbyte 11 (LittleEndian.encode 8 o.ndvEstimator.toNat))
    let hllbyte ← inBuffer (Buffer.write hllbyte 19 (LittleEndian.encode 8 o.lastHash.toNat))
    if o.lenUsed > 0 then
      let used ← inBuffer (Buffer.read o.hllData 0 o.lenUsed)
      inBuffer (Buffer.write hllbyte hllHeadSize used)
    else
      return hllbyte

def readUInt64 (hllbyte : Bytes) (pos : Nat) : Checked UInt64 := do
  let bytes ← inBuffer (Buffer.read hllbyte pos 8)
  return UInt64.ofNat (LittleEndian.decode bytes)

-- The fields of `compressinfo`; the type is still a number.
structure Info where
  lenUsed : Nat
  lenTotal : Nat
  hllpara : HllPara
  hlltype : Nat

def unpackInfo (compressinfo : UInt64) : Info :=
  let lenUsed := (BitField.low compressinfo hllLenBit).toNat
  let compressinfo := BitField.drop compressinfo hllLenBit
  let lenTotal := (BitField.low compressinfo hllLenBit).toNat
  let compressinfo := BitField.drop compressinfo hllLenBit
  let duplicateCheck := (BitField.low compressinfo hllParaBit).toNat
  let compressinfo := BitField.drop compressinfo hllParaBit
  let log2Sparsesize := (BitField.low compressinfo hllParaBit).toNat
  let compressinfo := BitField.drop compressinfo hllParaBit
  let log2Explicitsize := (BitField.low compressinfo hllParaBit).toNat
  let compressinfo := BitField.drop compressinfo hllParaBit
  let log2Registers := (BitField.low compressinfo hllParaBit).toNat + 10
  let compressinfo := BitField.drop compressinfo hllParaBit
  let hlltype := (BitField.low compressinfo hllParaBit).toNat
  ⟨lenUsed, lenTotal, ⟨log2Registers, log2Explicitsize, log2Sparsesize, duplicateCheck⟩, hlltype⟩

-- `hllsize` is the length of `hllbyte`, and `o` the object that is filled.
def hllObjectUnpack (o : HllObjectData) (hllbyte : Bytes) : Checked HllObjectData :=
  if hllbyte.length < hllHeadSize then
    .error (.ereport ("not a hll type, size=" ++ toString hllbyte.length ++ " is not enough"))
  else do
    let head ← inBuffer (Buffer.read hllbyte 0 hllFlagLen)
    if head ≠ hllHead then
      .error (.ereport "not a hll type, head is not match")
    else
      let compressinfo ← readUInt64 hllbyte 3
      let info := unpackInfo compressinfo
      match HllType.ofCode? info.hlltype with
      | none => .error (.ereport ("invalid hll type, type=" ++ toString info.hlltype))
      | some hlltype =>
        let ndvEstimator ← readUInt64 hllbyte 11
        let lastHash ← readUInt64 hllbyte 19
        let o := { o with
          hlltype, hllpara := info.hllpara, lenTotal := info.lenTotal, lenUsed := info.lenUsed, ndvEstimator,
          lastHash }
        if hllbyte.length ≤ hllHeadSize + info.lenUsed then
          .error (tooSmall hllbyte.length info.lenUsed)
        else if info.lenUsed > 0 then
          let used ← inBuffer (Buffer.read hllbyte hllHeadSize info.lenUsed)
          let hllData ← inBuffer (Buffer.write (List.replicate info.lenTotal 0) 0 used)
          return { o with hllData }
        else
          return o

end Wire

end Hll.Memory

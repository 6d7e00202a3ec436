import Mathlib.Order.Lattice.Nat

/-!
This module contains the implementation of HyperLogLog sketches, from `hll.cpp` and `hll.h`.

An error of `ereport` is its text. `hllData` is the `lenUsed` bytes that are in use; in explicit mode
these are read and written eight at a time, as the stored hashes.
-/

namespace Hll

section Para

structure HllPara where
  log2Registers : Nat
  log2Explicitsize : Nat
  log2Sparsesize : Nat
  duplicateCheck : Nat
  deriving DecidableEq, Repr

def checkPara (name : String) (value lo hi : Int) : Except String Unit :=
  if value < lo ∨ value > hi then
    .error (name ++ " = " ++ toString value ++ " is out of range, it should be in range "
      ++ toString lo ++ " to " ++ toString hi ++ ", or set -1 as default")
  else
    .ok ()

def hllCheckPararange (log2Registers log2Explicitsize log2Sparsesize duplicateCheck : Int)
    : Except String Unit := do
  checkPara "log2m" log2Registers 10 16
  checkPara "log2explicit" log2Explicitsize 0 12
  checkPara "log2sparse" log2Sparsesize 0 14
  checkPara "duplicatecheck" duplicateCheck 0 1

def checkEqual (name : String) (source dest : Nat) : Except String Unit :=
  if source ≠ dest then
    .error (name ++ " does not match: source is " ++ toString source ++ " and dest is "
      ++ toString dest)
  else
    .ok ()

def hllCheckParaequal (hllpara1 hllpara2 : HllPara) : Except String Unit := do
  checkEqual "log2m" hllpara1.log2Registers hllpara2.log2Registers
  checkEqual "log2explicit" hllpara1.log2Explicitsize hllpara2.log2Explicitsize
  checkEqual "log2sparse" hllpara1.log2Sparsesize hllpara2.log2Sparsesize
  checkEqual "duplicatecheck" hllpara1.duplicateCheck hllpara2.duplicateCheck

end Para

inductive HllData where
  | uninit
  | empty
  | explicit (hashes : List UInt64)
  | sparse (hllData : List UInt8)
  | full (hllData : List UInt8)
  deriving DecidableEq

structure HllObject where
  hllpara : HllPara
  data : HllData
  lastHash : UInt64
  deriving DecidableEq

def hllEmpty (o : HllObject) : HllObject := { o with data := .empty, lastHash := 0 }

section Value

-- `__builtin_ctzll`
def ctz (x : UInt64) : Nat := ((List.range 64).find? (x.toNat.testBit ·)).getD 64

def hllHashToValue (p : HllPara) (hashval : UInt64) : Nat × UInt8 :=
  let calzeroLen := 64 - p.log2Registers
  let index := hashval.toNat >>> calzeroLen
  let value := UInt8.ofNat (ctz hashval + 1)
  (index, if value.toNat > calzeroLen then 0 else value)

-- Positions and lengths count in units of `unit` bytes.
def hllUpdateValue {α : Type} (unit : Nat) (hllData : List α) (index : Nat) (insertValue : List α)
    (originLen : Nat) : Except String (List α) :=
  if (originLen = 0 ∧ index > hllData.length)
      ∨ (originLen > 0 ∧ index + originLen > hllData.length) then
    .error ("hll index is out of range, current_size=" ++ toString (unit * hllData.length))
  else if insertValue.length < originLen then
    -- The unsigned difference wraps around and the buffer grows until it cannot.
    .error "invalid memory alloc request size"
  else
    .ok (hllData.take index ++ insertValue ++ hllData.drop (index + originLen))

end Value

section SparseByte

inductive RegisterType where
  | sparseLongzero
  | sparseZero
  | denseValue
  | sparseValue
  deriving DecidableEq, Repr

def byteType (byte : UInt8) : RegisterType :=
  match (byte >>> 6).toNat with
  | 0 => .sparseLongzero
  | 1 => .sparseZero
  | 2 => .denseValue
  | _ => .sparseValue

def byteGetValue (byte : UInt8) : Nat := (byte &&& 0x3F).toNat + 1

def setLongzeroValue (value : Nat) : UInt8 := UInt8.ofNat (((value >>> 6) - 1) ||| (0 <<< 6))
def setZeroValue (value : Nat) : UInt8 := UInt8.ofNat ((value - 1) ||| (1 <<< 6))
def setDenseValue (value : Nat) : UInt8 := UInt8.ofNat ((value - 1) ||| (2 <<< 6))

def hllLongzeroUnit : Nat := 64
def hllLongzeroFull : UInt8 := 0x3F

def hllSetSparseByte (count : Nat) (value : UInt8) : Except String UInt8 :=
  if value = 0 then
    if count ≥ hllLongzeroUnit then
      .ok (setLongzeroValue count)
    else
      .ok (setZeroValue count)
  else if count = 1 then
    .ok (setDenseValue value.toNat)
  else
    .error "can't set sparse byte cause hll data is out of range"

def hllGetByte (hllData : List UInt8) (index : Nat) : Except String UInt8 :=
  match hllData[index]? with
  | some byte => .ok byte
  | none => .error ("hll index is out of range, current_size=" ++ toString hllData.length)

def hllSetByte (hllData : List UInt8) (index : Nat) (value : UInt8) : Except String (List UInt8) :=
  if index ≥ hllData.length then
    .error ("hll index is out of range, current_size=" ++ toString hllData.length)
  else
    .ok (hllData.set index value)

def currentRegister (byte : UInt8) : Except String Nat :=
  match byteType byte with
  | .sparseLongzero => .ok (byteGetValue byte <<< 6)
  | .sparseZero => .ok (byteGetValue byte)
  | .denseValue => .ok 1
  | .sparseValue => .error "undefined hll register type"

def hllGetRegisterUnit.go (p : HllPara) (registerIndex : Nat)
    : List UInt8 → Nat → Nat → Except String (Nat × Nat)
  | [], _, _ =>
    if registerIndex ≥ 2 ^ p.log2Registers then
      .error "hll index is out of range"
    else
      .error "hllData missed in sparse mode"
  | byte :: rest, i, currentRegisterSum => do
    let current ← currentRegister byte
    if currentRegisterSum + current > registerIndex then
      .ok (i, registerIndex - currentRegisterSum)
    else
      go p registerIndex rest (i + 1) (currentRegisterSum + current)

def hllGetRegisterUnit (p : HllPara) (hllData : List UInt8) (registerIndex : Nat)
    : Except String (Nat × Nat) :=
  if registerIndex = 0 then
    .ok (0, 0)
  else
    hllGetRegisterUnit.go p registerIndex hllData 0 0

def zeroByteIf (c : Prop) [Decidable c] (count : Nat) : Except String (List UInt8) :=
  if c then do
    return [← hllSetSparseByte count 0]
  else
    .ok []

def sparseSide (count : Nat) : Except String (List UInt8) := do
  let long ← zeroByteIf (count ≥ hllLongzeroUnit) count
  let count := if count ≥ hllLongzeroUnit then count &&& 0x3f else count
  let short ← zeroByteIf (count > 0) count
  return long ++ short

-- A byte of type SPARSE_ZERO behind the split run is replaced together with it.
def laterZero (hllData : List UInt8) (byteIndex right : Nat) : Except String (Nat × Nat) :=
  if byteIndex < hllData.length - 1 then do
    let laterByte ← hllGetByte hllData (byteIndex + 1)
    if byteType laterByte = .sparseZero then
      return (2, right + byteGetValue laterByte)
    else
      return (1, right)
  else
    .ok (1, right)

def hllUpdateSparseType1 (hllData : List UInt8) (byteIndex unitIndex : Nat) (newValue : UInt8)
    : Except String (List UInt8) := do
  let byteValue ← hllGetByte hllData byteIndex
  if newValue = 0 then
    .ok hllData
  else
    let left := unitIndex
    let right := byteGetValue byteValue * hllLongzeroUnit - left - 1
    let leftBytes ← sparseSide left
    let dense ← hllSetSparseByte 1 newValue
    let (originLen, right) ← laterZero hllData byteIndex right
    let rightBytes ← sparseSide right
    hllUpdateValue 1 hllData byteIndex (leftBytes ++ [dense] ++ rightBytes) originLen

def hllUpdateSparseType2 (hllData : List UInt8) (byteIndex unitIndex : Nat) (newValue : UInt8)
    : Except String (List UInt8) := do
  let byteValue ← hllGetByte hllData byteIndex
  if newValue = 0 then
    .ok hllData
  else
    let left := unitIndex
    let right := byteGetValue byteValue - left - 1
    let leftBytes ← zeroByteIf (left > 0) left
    let dense ← hllSetSparseByte 1 newValue
    let rightBytes ← zeroByteIf (right > 0) right
    hllUpdateValue 1 hllData byteIndex (leftBytes ++ [dense] ++ rightBytes) 1

def hllUpdateSparseType3 (hllData : List UInt8) (byteIndex : Nat) (newValue : UInt8)
    : Except String (List UInt8) := do
  let byteValue ← hllGetByte hllData byteIndex
  if newValue.toNat ≤ byteGetValue byteValue then
    .ok hllData
  else
    hllSetByte hllData byteIndex (setDenseValue newValue.toNat)

def hllUpdateSparseValue (hllData : List UInt8) (byteIndex unitIndex : Nat) (newValue : UInt8)
    : Except String (List UInt8) := do
  if newValue = 0 then
    .ok hllData
  else
    let byteValue ← hllGetByte hllData byteIndex
    match byteType byteValue with
    | .sparseLongzero => hllUpdateSparseType1 hllData byteIndex unitIndex newValue
    | .sparseZero => hllUpdateSparseType2 hllData byteIndex unitIndex newValue
    | .denseValue => hllUpdateSparseType3 hllData byteIndex newValue
    | .sparseValue => .error "undefined hll register type"

end SparseByte

section Transform

def sparseToFull : List UInt8 → Nat → List UInt8 → Except String (List UInt8)
  | [], _, newdata => .ok newdata
  | byte :: rest, index, newdata =>
    match byteType byte with
    | .sparseLongzero => sparseToFull rest (index + byteGetValue byte * hllLongzeroUnit) newdata
    | .sparseZero => sparseToFull rest (index + byteGetValue byte) newdata
    | .denseValue =>
      sparseToFull rest (index + 1) (newdata.set index (UInt8.ofNat (byteGetValue byte)))
    | .sparseValue => .error "undefined hll register type"

def explicitToFull (p : HllPara) : List UInt64 → List UInt8 → List UInt8
  | [], newdata => newdata
  | hashval :: rest, newdata =>
    let (index, value) := hllHashToValue p hashval
    explicitToFull p rest (newdata.set index value)

def hllTransformFull (p : HllPara) (d : HllData) : Except String HllData :=
  let newdata := List.replicate (2 ^ p.log2Registers) 0
  match d with
  | .uninit => .error "undefined hll type"
  | .empty => .ok (.full newdata)
  | .explicit hashes => .ok (.full (explicitToFull p hashes newdata))
  | .sparse hllData => do return .full (← sparseToFull hllData 0 newdata)
  | .full hllData => .ok (.full hllData)

def hllEmptyToSparse (p : HllPara) : List UInt8 :=
  let log2byte := p.log2Registers - 12
  let nbyte := if log2byte > 0 then 2 ^ log2byte else 1
  if nbyte > 1 then
    List.replicate nbyte hllLongzeroFull
  else
    [setLongzeroValue (2 ^ p.log2Registers)]

def hllSetSparseZero (zerocount : Nat) : List UInt8 :=
  if zerocount ≥ hllLongzeroUnit then
    let fullnum := zerocount >>> 12
    let zerocount := zerocount &&& 0xfff
    List.replicate fullnum hllLongzeroFull
      ++ (if zerocount ≥ hllLongzeroUnit then [setLongzeroValue zerocount] else [])
      ++ (let zerocount := if zerocount ≥ hllLongzeroUnit then zerocount &&& 0x3f else zerocount
          if zerocount > 0 then [setZeroValue zerocount] else [])
  else
    if zerocount > 0 then [setZeroValue zerocount] else []

def hllExplicitToSparse.go (p : HllPara) : List UInt64 → Int → List UInt8 → Int × List UInt8
  | [], lastindex, newdata => (lastindex, newdata)
  | hashval :: rest, lastindex, newdata =>
    let (index, value) := hllHashToValue p hashval
    if value = 0 then
      go p rest lastindex newdata
    else
      let newvalue := setDenseValue value.toNat
      if (index : Int) = lastindex then
        if newdata.getD (newdata.length - 1) 0 < newvalue then
          go p rest lastindex (newdata.set (newdata.length - 1) newvalue)
        else
          go p rest lastindex newdata
      else
        let zerocount := (index - lastindex - 1).toNat
        go p rest index (newdata ++ hllSetSparseZero zerocount ++ [newvalue])

def hllExplicitToSparse (p : HllPara) (hashes : List UInt64) : List UInt8 :=
  let (lastindex, newdata) := hllExplicitToSparse.go p hashes (-1) []
  let zerocount := (2 ^ p.log2Registers - lastindex - 1).toNat
  newdata ++ hllSetSparseZero zerocount

def hllTransformSparse (p : HllPara) (d : HllData) : Except String HllData :=
  match d with
  | .empty => .ok (.sparse (hllEmptyToSparse p))
  | .explicit hashes => .ok (.sparse (hllExplicitToSparse p hashes))
  | .sparse hllData => .ok (.sparse hllData)
  | _ => .error "undefined hll type"

end Transform

section Add

def hllExplicitUint : Nat := 8

def HllData.hllData : HllData → List UInt8
  | .sparse hllData => hllData
  | .full hllData => hllData
  | _ => []

def HllData.lenUsed : HllData → Nat
  | .uninit => 0
  | .empty => 0
  | .explicit hashes => hllExplicitUint * hashes.length
  | .sparse hllData => hllData.length
  | .full hllData => hllData.length

def hllExplicitCheck (p : HllPara) (hashes : List UInt64) : Except String HllData :=
  if (HllData.explicit hashes).lenUsed > 2 ^ p.log2Explicitsize then
    if p.log2Sparsesize > p.log2Explicitsize then do
      let d ← hllTransformSparse p (.explicit hashes)
      if d.lenUsed > 2 ^ p.log2Sparsesize then
        hllTransformFull p d
      else
        return d
    else
      hllTransformFull p (.explicit hashes)
  else
    .ok (.explicit hashes)

-- The binary search of `HllSetExplicitValue`; every turn shortens the range.
def upperBound (hashes : List UInt64) (hashval : UInt64) : Nat → Nat → Nat → Nat
  | 0, start, _ => start
  | turns + 1, start, last =>
    if start < last then
      let mid := (start + last) / 2
      if hashes.getD mid 0 ≤ hashval then
        upperBound hashes hashval turns (mid + 1) last
      else
        upperBound hashes hashval turns start mid
    else
      start

def hllSetExplicitValue (p : HllPara) (hashes : List UInt64) (hashval : UInt64)
    : Except String HllData :=
  let explicitLen := hashes.length
  let bindex := upperBound hashes hashval explicitLen 0 explicitLen
  if bindex > 0 ∧ hashes.getD (bindex - 1) 0 = hashval then
    .ok (.explicit hashes)
  else do
    let hashes ← hllUpdateValue hllExplicitUint hashes bindex [hashval] 0
    hllExplicitCheck p hashes

def hllSetSparseValue (p : HllPara) (hllData : List UInt8) (hashval : UInt64)
    : Except String HllData :=
  let (index, value) := hllHashToValue p hashval
  if value = 0 then
    .ok (.sparse hllData)
  else do
    let (byteIndex, unitIndex) ← hllGetRegisterUnit p hllData index
    let hllData ← hllUpdateSparseValue hllData byteIndex unitIndex value
    if hllData.length > 2 ^ p.log2Sparsesize then
      hllTransformFull p (.sparse hllData)
    else
      return .sparse hllData

def hllSetFullValue (p : HllPara) (hllData : List UInt8) (hashval : UInt64)
    : Except String HllData :=
  let (index, value) := hllHashToValue p hashval
  if value = 0 then
    .ok (.full hllData)
  else do
    let byte ← hllGetByte hllData index
    if value > byte then
      return .full (← hllSetByte hllData index value)
    else
      return .full hllData

def hllSetEmptyValue (p : HllPara) (hashval : UInt64) : Except String HllData :=
  if p.log2Explicitsize = 0 ∧ p.log2Sparsesize = 0 then do
    let d ← hllTransformFull p .empty
    hllSetFullValue p d.hllData hashval
  else if p.log2Explicitsize = 0 then do
    let d ← hllTransformSparse p .empty
    hllSetSparseValue p d.hllData hashval
  else
    hllSetExplicitValue p [] hashval

def hllSetRegisterValue (p : HllPara) (d : HllData) (hashval : UInt64) : Except String HllData :=
  match d with
  | .uninit => hllSetEmptyValue p hashval
  | .empty => hllSetEmptyValue p hashval
  | .explicit hashes => hllSetExplicitValue p hashes hashval
  | .sparse hllData => hllSetSparseValue p hllData hashval
  | .full hllData => hllSetFullValue p hllData hashval

def hllAdd (o : HllObject) (hashval : UInt64) : Except String HllObject :=
  if o.hllpara.duplicateCheck ≠ 0 ∧ hashval = o.lastHash then
    .ok o
  else do
    let d ← hllSetRegisterValue o.hllpara o.data hashval
    return { o with data := d, lastHash := hashval }

end Add

section Union

def hllCopy (o aHll : HllObject) : Except String HllObject :=
  match aHll.data with
  | .uninit => .error "invalid hll type"
  | .empty => .ok (hllEmpty { o with hllpara := aHll.hllpara })
  | _ => .ok aHll

def combineHashes : List UInt64 → List UInt64 → List UInt64
  | [], hashes2 => hashes2
  | hashes1, [] => hashes1
  | hashval1 :: rest1, hashval2 :: rest2 =>
    if hashval1 < hashval2 then
      hashval1 :: combineHashes rest1 (hashval2 :: rest2)
    else if hashval1 > hashval2 then
      hashval2 :: combineHashes (hashval1 :: rest1) rest2
    else
      hashval1 :: combineHashes rest1 rest2
termination_by hashes1 hashes2 => hashes1.length + hashes2.length

def hllComibineExplicit (o : HllObject) (hashes1 hashes2 : List UInt64)
    : Except String HllObject := do
  let d ← hllExplicitCheck o.hllpara (combineHashes hashes1 hashes2)
  return { o with data := d, lastHash := 0 }

def combineBytes (bytes1 bytes2 : List UInt8) : List UInt8 :=
  bytes1.mapIdx fun i byte => if byte < bytes2.getD i 0 then bytes2.getD i 0 else byte

def hllCombineFull (o : HllObject) (bytes1 bytes2 : List UInt8) : HllObject :=
  { o with data := .full (combineBytes bytes1 bytes2), lastHash := 0 }

-- The argument is handed over by pointer, so both sketches come back.
def hllUnion (o aHll : HllObject) : Except String (HllObject × HllObject) :=
  match aHll.data, o.data with
  | .uninit, _ => .ok (o, aHll)
  | .empty, _ => .ok (o, aHll)
  | _, .uninit => do return (← hllCopy o aHll, aHll)
  | _, .empty => do return (← hllCopy o aHll, aHll)
  | .explicit hashes2, .explicit hashes1 => do
    hllCheckParaequal o.hllpara aHll.hllpara
    return (← hllComibineExplicit o hashes1 hashes2, aHll)
  | d2, d1 => do
    hllCheckParaequal o.hllpara aHll.hllpara
    let d1 ← hllTransformFull o.hllpara d1
    let d2 ← hllTransformFull aHll.hllpara d2
    return (hllCombineFull o d1.hllData d2.hllData, { aHll with data := d2 })

end Union

end Hll

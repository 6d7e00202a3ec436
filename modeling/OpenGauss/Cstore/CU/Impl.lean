import OpenGauss.Varlena

/-!
This module contains the implementation of reading a decompressed CU: `FormValuesOffset`, `ToVector`
and `ToVectorLateRead` of `cu.cpp`, `GetValue` of `cu.h` and `AddVar` of `vectorbatch.cpp`.

A pointer into `m_srcData` is modelled by its distance from the start of that buffer, and `m_offset`
being NULL by the empty list. All positions fit in an `int32`.
-/

-- The instances of the template parameter `attlen`.
inductive AttLen where
  | char
  | int16
  | int32
  | datum
  | fixed12
  | fixed16
  | varlena
  | cstring
  deriving DecidableEq

namespace AttLen

def toInt : AttLen → Int
  | char => 1
  | int16 => 2
  | int32 => 4
  | datum => 8
  | fixed12 => 12
  | fixed16 => 16
  | varlena => -1
  | cstring => -2

def fixedSize? (attlen : AttLen) : Option Nat :=
  if attlen.toInt > 0 then some attlen.toInt.toNat else none

end AttLen

inductive ScalarValue where
  | null
  | value (val : Nat)
  | pointer (var : Bytes)
  deriving DecidableEq

namespace ScalarVector

def batchMaxSize : Nat := 1000

def varhdrsz : Nat := 4
def varhdrszShort : Nat := 1
def varattShortMax : Nat := 0x7F

def setVarsize (len : Nat) : Bytes := LittleEndian.encode 4 (len <<< 2)
def setVarsizeShort (len : Nat) : Bytes := [UInt8.ofNat (len <<< 1 ||| 0x01)]

def strlen (ptr : Bytes) : Nat := (ptr.takeWhile (· ≠ 0)).length

def addFixLenVar (len : Nat) (data : Bytes) : Bytes :=
  setVarsizeShort (len + varhdrszShort) ++ data.take len

-- The terminating byte of an empty string is allocated but not written: it stays what the buffer of
-- the vector holds there, `fresh`.
def addCStringVar (fresh : UInt8) (data : Bytes) : Bytes :=
  let len := strlen data
  let header :=
    if len + varhdrszShort < varattShortMax then
      setVarsizeShort (len + varhdrszShort + 1)
    else
      setVarsize (len + varhdrsz + 1)
  header ++ if len > 0 then data.take (len + 1) else [fresh]

def addVarWithHeader (data : Bytes) : Bytes := data.take (Varlena.varsizeAny data)

end ScalarVector

namespace AttLen

def scalar (attlen : AttLen) (fresh : UInt8) (src : Bytes) : ScalarValue :=
  match attlen with
  | char => .value (LittleEndian.decode (src.take 1))
  | int16 => .value (LittleEndian.decode (src.take 2))
  | int32 => .value (LittleEndian.decode (src.take 4))
  | datum => .value (LittleEndian.decode (src.take 8))
  | fixed12 => .pointer (ScalarVector.addFixLenVar 12 src)
  | fixed16 => .pointer (ScalarVector.addFixLenVar 16 src)
  | varlena => .pointer (ScalarVector.addVarWithHeader src)
  | cstring => .pointer (ScalarVector.addCStringVar fresh src)

def scanLen (attlen : AttLen) (src : Bytes) : Nat :=
  match attlen with
  | varlena => Varlena.varsizeAny src
  | cstring => ScalarVector.strlen src + 1
  | attlen => attlen.toInt.toNat

end AttLen

structure CU where
  eachValSize : AttLen
  srcData : Bytes
  srcBufSize : Nat
  hasNullValue : Bool
  nulls : Bytes
  -- `CU_IntLikeCompressed`, a numeric column and `m_numericIntLike`
  numericIntLike : Bool
  offset : List Nat

def bitIsSet (bitmap : Bytes) (row : Nat) : Bool :=
  (bitmap.getD (row / 8) 0).toNat &&& (1 <<< (row % 8)) ≠ 0

namespace CU

def isNull (cu : CU) (row : Nat) : Bool := bitIsSet cu.nulls row

def numeric64Size : Nat := 14

section Offset

def formOffsetsLoop (cu : CU) (len : Bytes → Nat) (checkAfter : Bool → Bool) (left row cur : Nat)
    : Option (List Nat) :=
  match left with
  | 0 => some [cur]
  | left + 1 => do
    let null := cu.hasNullValue && cu.isNull row
    let next := if null then cur else cur + len (cu.srcData.drop cur)
    if checkAfter null ∧ next > cu.srcBufSize then
      none
    let rest ← cu.formOffsetsLoop len checkAfter left (row + 1) next
    some (cur :: rest)

def formValuesOffset (cu : CU) (rows : Nat) : Option (List Nat) :=
  if cu.eachValSize.fixedSize?.isSome ∧ cu.hasNullValue = false then
    some []
  else if cu.numericIntLike ∧ cu.hasNullValue = false then
    some ((List.range (rows + 1)).map (· * numeric64Size))
  else
    match cu.eachValSize with
    | .varlena => cu.formOffsetsLoop Varlena.varsizeAny (fun null => !null) rows 0 0
    | .cstring => cu.formOffsetsLoop ScalarVector.strlen (fun _ => true) rows 0 0
    | attlen => cu.formOffsetsLoop (fun _ => attlen.toInt.toNat) (fun _ => false) rows 0 0

end Offset

section Scan

structure VectorState where
  vals : List ScalarValue
  curScanPos : Nat
  deadRows : Nat

-- `fresh` is what the buffer of the vector holds before, by the row it is allocated for.
def toVectorStep (cu : CU) (fresh : Nat → UInt8) (hasNull hasDeadRow : Bool) (cuDelMask : Bytes)
    (st : VectorState) (row : Nat) : VectorState :=
  let dead := hasDeadRow && bitIsSet cuDelMask row
  if hasNull && cu.isNull row then
    if dead then
      { st with deadRows := st.deadRows + 1 }
    else
      { st with vals := st.vals ++ [.null] }
  else
    let src := cu.srcData.drop st.curScanPos
    let len := cu.eachValSize.scanLen src
    if dead then
      { st with curScanPos := st.curScanPos + len, deadRows := st.deadRows + 1 }
    else
      { st with vals := st.vals ++ [cu.eachValSize.scalar (fresh row) src], curScanPos := st.curScanPos + len }

def toVectorLoop (cu : CU) (fresh : Nat → UInt8) (hasNull hasDeadRow : Bool) (cuDelMask : Bytes)
    (left row : Nat) (st : VectorState) : VectorState :=
  match left with
  | 0 => st
  | left + 1 =>
    if st.vals.length < ScalarVector.batchMaxSize then
      cu.toVectorLoop fresh hasNull hasDeadRow cuDelMask left (row + 1)
        (cu.toVectorStep fresh hasNull hasDeadRow cuDelMask st row)
    else
      st

def unrolledCount (rows : Nat) : Nat := (rows >>> 2) * 4 + (rows &&& 0x3)

def copyVars (cu : CU) (src : Bytes) (first rows : Nat) : List ScalarValue :=
  let obase := cu.offset.getD first 0
  let totalBytes := cu.offset.getD (first + rows) 0 - obase
  let base := src.take totalBytes
  (List.range (unrolledCount rows)).map fun i =>
    .pointer (ScalarVector.addVarWithHeader (base.drop (cu.offset.getD (first + i) 0 - obase)))

def copyDatums (src : Bytes) (rows : Nat) : List ScalarValue :=
  (LittleEndian.unpack 8 rows src).map .value

-- `ToVectorT<-1, false, false>`
def toVectorVarlena (cu : CU) (leftRows rowCursorInCU curScanPos : Nat) : VectorState :=
  let totalRows := min leftRows ScalarVector.batchMaxSize
  let totalBytes := cu.offset.getD (rowCursorInCU + totalRows) 0 - cu.offset.getD rowCursorInCU 0
  { vals := cu.copyVars (cu.srcData.drop curScanPos) rowCursorInCU totalRows
    curScanPos := curScanPos + totalBytes
    deadRows := 0 }

-- `ToVectorT<8, false, false>`
def toVectorDatum (cu : CU) (leftRows curScanPos : Nat) : VectorState :=
  let totalRows := min leftRows ScalarVector.batchMaxSize
  let totalBytes := totalRows <<< 3
  { vals := copyDatums ((cu.srcData.drop curScanPos).take totalBytes) totalRows
    curScanPos := curScanPos + totalBytes
    deadRows := 0 }

def toVectorT (cu : CU) (fresh : Nat → UInt8) (hasNull hasDeadRow : Bool)
    (leftRows rowCursorInCU curScanPos : Nat) (cuDelMask : Bytes) : VectorState :=
  match cu.eachValSize, hasNull, hasDeadRow with
  | .varlena, false, false => cu.toVectorVarlena leftRows rowCursorInCU curScanPos
  | .datum, false, false => cu.toVectorDatum leftRows curScanPos
  | _, hasNull, hasDeadRow =>
    cu.toVectorLoop fresh hasNull hasDeadRow cuDelMask leftRows rowCursorInCU
      { vals := [], curScanPos, deadRows := 0 }

def toVector (cu : CU) (fresh : Nat → UInt8) (hasDeadRow : Bool)
    (leftRows rowCursorInCU curScanPos : Nat) (cuDelMask : Bytes) : VectorState :=
  if cu.hasNullValue then
    cu.toVectorT fresh true hasDeadRow leftRows rowCursorInCU curScanPos cuDelMask
  else
    cu.toVectorT fresh false hasDeadRow leftRows rowCursorInCU curScanPos cuDelMask

end Scan

section LateRead

def getValue (cu : CU) (hasNull : Bool) (rowIdx : Nat) : Bytes :=
  match cu.eachValSize.fixedSize? with
  | some size =>
    if hasNull then cu.srcData.drop (cu.offset.getD rowIdx 0) else cu.srcData.drop (size * rowIdx)
  | none => cu.srcData.drop (cu.offset.getD rowIdx 0)

def lateReadRow (cu : CU) (fresh : Nat → UInt8) (hasNull : Bool) (row : Nat) : ScalarValue :=
  if hasNull && cu.isNull row then
    .null
  else
    cu.eachValSize.scalar (fresh row) (cu.getValue hasNull row)

-- How many of the row offsets go on from `nextOffset`, and the ones after them.
def contiguousRun (nextOffset : Nat) (tids : List Nat) : Nat × List Nat :=
  match tids with
  | [] => (0, [])
  | tmpOffset :: tids =>
    if tmpOffset = nextOffset then
      let (contiguous, rest) := contiguousRun (nextOffset + 1) tids
      (contiguous + 1, rest)
    else
      (0, tmpOffset :: tids)

theorem contiguousRun_length_le (nextOffset : Nat) (tids : List Nat)
    : (contiguousRun nextOffset tids).2.length ≤ tids.length := by
  induction tids generalizing nextOffset with
  | nil => simp [contiguousRun]
  | cons tmpOffset tids ih =>
    unfold contiguousRun
    split
    . have := ih (nextOffset + 1)
      simp only [List.length_cons]
      omega
    . simp

-- The loop over runs of adjacent rows, `copy` reads one run.
def lateReadRuns (copy : Nat → Nat → List ScalarValue) (tids : List Nat) : List ScalarValue :=
  match tids with
  | [] => []
  | firstOffset :: tids =>
    let run := contiguousRun (firstOffset + 1) tids
    copy firstOffset (run.1 + 1) ++ lateReadRuns copy run.2
termination_by tids.length
decreasing_by
  have := contiguousRun_length_le (firstOffset + 1) tids
  simp only [List.length_cons]
  omega

-- `ToVectorLateRead`, the tids are given by their row offsets.
def toVectorLateRead (cu : CU) (fresh : Nat → UInt8) (tids : List Nat) : List ScalarValue :=
  match cu.eachValSize, cu.hasNullValue with
  | .datum, false =>
    lateReadRuns (fun firstOffset contiguous =>
      copyDatums ((cu.srcData.drop (firstOffset * 8)).take (contiguous <<< 3)) contiguous) tids
  | .varlena, false =>
    lateReadRuns (fun firstOffset contiguous =>
      cu.copyVars (cu.srcData.drop (cu.offset.getD firstOffset 0)) firstOffset contiguous) tids
  | _, hasNull => tids.map (cu.lateReadRow fresh hasNull)

end LateRead

end CU

structure CUScan where
  rowCursorInCU : Nat
  scanPosInCU : Nat
  returned : List ScalarValue

namespace CUScan

def start : CUScan := { rowCursorInCU := 0, scanPosInCU := 0, returned := [] }

def fillVector (scan : CUScan) (cu : CU) (fresh : Nat → UInt8) (hasDeadRow : Bool) (cuDelMask : Bytes)
    (leftRows : Nat) : CUScan :=
  let out := cu.toVector fresh hasDeadRow leftRows scan.rowCursorInCU scan.scanPosInCU cuDelMask
  { rowCursorInCU := scan.rowCursorInCU + out.vals.length + out.deadRows
    scanPosInCU := out.curScanPos
    returned := scan.returned ++ out.vals }

inductive Reachable (cu : CU) (rowCount : Nat) (hasDeadRow : Bool) (cuDelMask : Bytes) : CUScan → Prop where
  | start : Reachable cu rowCount hasDeadRow cuDelMask start
  | step {scan : CUScan} {fresh : Nat → UInt8} {leftRows : Nat}
      (hscan : Reachable cu rowCount hasDeadRow cuDelMask scan)
      (hleft : scan.rowCursorInCU + leftRows ≤ rowCount)
      : Reachable cu rowCount hasDeadRow cuDelMask (scan.fillVector cu fresh hasDeadRow cuDelMask leftRows)

end CUScan

import OpenGauss.Cstore.Compress.Impl.IntegerCoder
import OpenGauss.Cstore.CU.Impl
import OpenGauss.Lib.Decimal

/-!
This module contains the implementation of the CU of number strings: `FormNumberStringCU` of
`cstore_insert.cpp` and, of `cu.cpp`, `CompressData`, `UnCompressData` and `DeFormNumberStringCU` as far
as they treat such a CU.
-/

namespace NumberString

def maxLenCharToBigint : Nat := 19
def maxAttrSize : Nat := 10 * 1024 * 1024
def relMaxFullCuSize : Nat := 60 * 1000
def securecMemMaxLen : Nat := 0x7fffffff
def varhdrsz : Nat := 4

def cuInfomask1 : Nat := 0x00FF
def cuIntLikeCompressed : Nat := 0x0080
def cuHasNULL : Nat := 0x0400

-- `isspace`
def isSpace (c : UInt8) : Bool := c = 32 ∨ 9 ≤ c ∧ c ≤ 13

-- The value, the position of `end` and whether `errno` is set to ERANGE.
def strtoul (str : Bytes) : Nat × Nat × Bool :=
  let blanks := (str.takeWhile isSpace).length
  let rest := str.drop blanks
  let sign := if rest.headD 0 = 43 ∨ rest.headD 0 = 45 then 1 else 0
  let digits := (rest.drop sign).takeWhile (fun c => decide (Decimal.IsDigit c))
  if digits = [] then
    (0, 0, false)
  else if Decimal.val digits < 2 ^ 64 then
    let val := if rest.headD 0 = 45 then (2 ^ 64 - Decimal.val digits) % 2 ^ 64 else Decimal.val digits
    (val, blanks + sign + digits.length, false)
  else
    (2 ^ 64 - 1, blanks + sign + digits.length, true)

def strToUint64 (str : Bytes) : Option Nat :=
  if str.length = 0 then
    none
  else
    let (val, stop, erange) := strtoul str
    if erange ∨ stop ≠ str.length then none else some val

def uint64Stack (val : Nat) : Bytes :=
  if val > 0 then UInt8.ofNat (48 + val % 10) :: uint64Stack (val / 10) else []

def uint64ToStr (val : Nat) : Bytes := (uint64Stack val).reverse

-- The type of a column: `bpchar` tells whether it is BPCHAROID.
structure Column where
  bpchar : Bool
  typeMode : Int
  typeMode_valid : bpchar = true →
    typeMode = -1 ∨ (varhdrsz : Int) < typeMode ∧ typeMode ≤ varhdrsz + maxAttrSize

structure Batch where
  rows : List (Option Bytes)
  rows_le : rows.length ≤ relMaxFullCuSize
  varlena_lt : ∀ v, some v ∈ rows → v.length + varhdrsz < 2 ^ 30

section Form

variable (bpcharType : Bool)

def isDigitChar (c : UInt8) : Bool := ¬(c.toNat > 57 ∨ c.toNat < 48)

def scanDigits (bpcharDataLen : Nat) : Bytes → Option (Bytes × Bytes)
  | [] => some ([], [])
  | c :: ptr =>
    if isDigitChar c then
      if bpcharType ∧ bpcharDataLen - (ptr.length + 1) ≥ maxLenCharToBigint then
        none
      else do
        let (digits, left) ← scanDigits bpcharDataLen ptr
        some (c :: digits, left)
    else if bpcharType then
      some ([], c :: ptr)
    else
      none

def numberChars (v : Bytes) : Option Bytes :=
  let len := v.length
  if bpcharType = false ∧ len > maxLenCharToBigint then
    none
  else
    match v with
    | [] => none
    | c :: ptr =>
      if c.toNat > 57 ∨ c.toNat < 49 then
        none
      else do
        let (digits, left) ← scanDigits bpcharType len ptr
        if bpcharType ∧ ¬left.all (· = 32) then none else some (c :: digits)

-- `data_buf` as one string for each of its slots of `maxLenCharToBigintBuf` bytes.
structure FormState where
  nulls : Bytes
  dataBuf : List Bytes
  totalLen : Nat
  deriving DecidableEq

def appendNullValue (nulls : Bytes) (row : Nat) : Bytes :=
  nulls.set (row / 8) (UInt8.ofNat ((nulls.getD (row / 8) 0).toNat ||| 1 <<< (row % 8)))

def formLoop : Nat → List (Option Bytes) → FormState → Option FormState
  | _, [], st => some st
  | i, none :: rows, st => formLoop (i + 1) rows { st with nulls := appendNullValue st.nulls i }
  | i, some v :: rows, st => do
    let chars ← numberChars bpcharType v
    formLoop (i + 1) rows
      { st with dataBuf := st.dataBuf ++ [chars], totalLen := (st.totalLen + v.length) % 2 ^ 32 }

def bitmapSize (rows : Nat) : Nat := (rows + 7) / 8

structure SourceCU where
  infoMode : Nat
  nulls : Bytes
  srcData : Bytes
  deriving DecidableEq

def Batch.hasNull (batch : Batch) : Bool := batch.rows.any Option.isNone

def initMem (batch : Batch) : SourceCU :=
  if batch.hasNull then
    { infoMode := cuHasNULL, nulls := List.replicate (bitmapSize batch.rows.length) 0, srcData := [] }
  else
    { infoMode := 0, nulls := [], srcData := [] }

def formNumberStringCU (batch : Batch) : Option SourceCU := do
  let cu := initMem batch
  let st ← formLoop bpcharType 0 batch.rows { nulls := cu.nulls, dataBuf := [], totalLen := 0 }
  let data ← st.dataBuf.mapM strToUint64
  some
    { infoMode := cu.infoMode ||| cuIntLikeCompressed
      nulls := st.nulls
      srcData := LittleEndian.pack 8 (st.dataBuf.length :: data ++ [st.totalLen]) }

def tryFormNumberStringCU (column : Column) (batch : Batch) : Option SourceCU :=
  if column.bpchar then
    if column.typeMode = -1 then none else formNumberStringCU true batch
  else
    formNumberStringCU false batch

end Form

-- What of a compressed CU the decompression starts from.
structure StoredCU where
  infoMode : Nat
  nulls : Bytes
  srcDataSize : Nat
  data : Bytes
  deriving DecidableEq

theorem eight_pos : 0 < 8 := by decide

theorem eight_le_eight : 8 ≤ 8 := Nat.le_refl 8

theorem eight_mem : 8 ∈ [1, 2, 4, 8] := by decide

def intCoder (adoptRle : Bool) : IntegerCoder where
  adoptRle := adoptRle
  minVal := 0
  maxVal := 0
  isValid := false
  eachValSize := ⟨8, eight_pos, eight_le_eight⟩
  eachValSize_mem := eight_mem

section Compress

variable (lz4 : Lz4) (zlib : Zlib)

-- The settings of the relation that `CompressData` works with.
structure CompressModes where
  compression : Compression
  compresslevel : Fin 4
  adoptRle : Bool

def compressData (modes : CompressModes) (cu : SourceCU) (hsize : cu.srcData.length < 2 ^ 31)
    : StoredCU :=
  let input : CompressionArg1 :=
    { buf := cu.srcData, compression := modes.compression, compresslevel := modes.compresslevel,
      sz_lt := hsize }
  let res := (intCoder modes.adoptRle).compress lz4 zlib input
  if res.1 > 0 then
    { infoMode := cu.infoMode ||| (res.2.modes &&& cuInfomask1), nulls := cu.nulls,
      srcDataSize := cu.srcData.length, data := res.2.buf.take res.1 }
  else
    { infoMode := cu.infoMode, nulls := cu.nulls, srcDataSize := cu.srcData.length,
      data := cu.srcData }

end Compress

inductive DeFormError where
  -- `memset_s` or `memcpy_s` refuses the size of the destination.
  | securec
  -- A write that is not inside of the buffer.
  | overrun
  -- The return code of the decompression is not positive.
  | decompress
  deriving DecidableEq

-- `m_srcBuf` and the sizes that tell where `m_srcData` is in it.
structure DeFormedCU where
  srcBuf : Bytes
  bpNullRawSize : Nat
  srcDataSize : Nat
  deriving DecidableEq

namespace DeFormedCU

def nulls (cu : DeFormedCU) : Bytes := cu.srcBuf.take cu.bpNullRawSize

def srcData (cu : DeFormedCU) : Bytes := (cu.srcBuf.drop cu.bpNullRawSize).take cu.srcDataSize

end DeFormedCU

section DeForm

variable (bpcharType : Bool) (typeMode : Int)

def uint64At (buf : Bytes) (pos : Nat) : Nat := LittleEndian.decode ((buf.drop pos).take 8)

def writeAt (buf : Bytes) (pos : Nat) (data : Bytes) : Except DeFormError Bytes :=
  if pos + data.length ≤ buf.length then
    .ok (buf.take pos ++ data ++ buf.drop (pos + data.length))
  else
    .error .overrun

def setVarsizeBefore (buf : Bytes) (pos len : Nat) : Except DeFormError Bytes :=
  if varhdrsz ≤ pos then
    writeAt buf (pos - varhdrsz) (ScalarVector.setVarsize len)
  else
    .error .overrun

def deFormStep (tmpSrcBuf : Bytes) (pos integer : Nat) : Except DeFormError (Bytes × Nat) := do
  let pos := (pos + varhdrsz) % 2 ^ 32
  let str := uint64ToStr integer
  let tmpSrcBuf ← writeAt tmpSrcBuf pos str
  if bpcharType then
    let tmpSrcBuf ← setVarsizeBefore tmpSrcBuf pos typeMode.toNat
    .ok (tmpSrcBuf, (pos + (typeMode - varhdrsz).toNat) % 2 ^ 32)
  else
    let tmpSrcBuf ← setVarsizeBefore tmpSrcBuf pos (str.length + varhdrsz)
    .ok (tmpSrcBuf, (pos + str.length) % 2 ^ 32)

def deFormLoop (srcData : Bytes) : Nat → Nat → Bytes → Nat → Except DeFormError (Bytes × Nat)
  | _, 0, tmpSrcBuf, pos => .ok (tmpSrcBuf, pos)
  | tmpSrcData, dataCount + 1, tmpSrcBuf, pos => do
    let (tmpSrcBuf, pos) ← deFormStep bpcharType typeMode tmpSrcBuf pos (uint64At srcData tmpSrcData)
    deFormLoop srcData (tmpSrcData + 8) dataCount tmpSrcBuf pos

def fillBlanks (tmpSrcBuf : Bytes) (tmpSrcBufSize : Nat) : Except DeFormError Bytes :=
  if bpcharType then
    if tmpSrcBufSize > securecMemMaxLen then
      .error .securec
    else
      writeAt tmpSrcBuf 0 (List.replicate tmpSrcBufSize 32)
  else
    .ok tmpSrcBuf

def copyNulls (tmpSrcBuf : Bytes) (tmpSrcBufSize : Nat) (nulls : Bytes) : Except DeFormError Bytes :=
  if nulls.length ≠ 0 then
    if tmpSrcBufSize > securecMemMaxLen ∨ nulls.length > tmpSrcBufSize then
      .error .securec
    else
      writeAt tmpSrcBuf 0 nulls
  else
    .ok tmpSrcBuf

-- `fresh` is what the allocated memory contains.
def deFormNumberStringCU (fresh : Nat → UInt8) (nulls srcData : Bytes)
    : Except DeFormError DeFormedCU := do
  let dataCount := uint64At srcData 0 % 2 ^ 32
  let origTotalSize := uint64At srcData (8 * ((dataCount + 1) % 2 ^ 32)) % 2 ^ 32
  let tmpSrcBufSize := (origTotalSize + dataCount * varhdrsz + nulls.length) % 2 ^ 32
  let tmpSrcBuf := (List.range ((tmpSrcBufSize + 1) % 2 ^ 32)).map fresh
  let tmpSrcBuf ← fillBlanks bpcharType tmpSrcBuf tmpSrcBufSize
  let tmpSrcBuf ← writeAt tmpSrcBuf tmpSrcBufSize [0]
  let tmpSrcBuf ← copyNulls tmpSrcBuf tmpSrcBufSize nulls
  let (tmpSrcBuf, pos) ← deFormLoop bpcharType typeMode srcData 8 dataCount tmpSrcBuf nulls.length
  .ok { srcBuf := tmpSrcBuf, bpNullRawSize := nulls.length,
        srcDataSize := (pos + 2 ^ 32 - nulls.length) % 2 ^ 32 }

def unCompressData (lz4 : Lz4) (zlib : Zlib) (column : Column) (fresh : Nat → UInt8) (cu : StoredCU)
    : Except DeFormError DeFormedCU := do
  let srcData ←
    if cu.infoMode &&& cuInfomask1 ≠ 0 then
      match (intCoder false).decompress lz4 zlib { buf := cu.data, modes := cu.infoMode } cu.srcDataSize with
      | .error _ => .error .decompress
      | .ok data => if data.length = 0 then .error .decompress else .ok data
    else
      .ok (cu.data.take cu.srcDataSize)
  let bpcharType := column.bpchar && decide (column.typeMode > varhdrsz)
  deFormNumberStringCU bpcharType column.typeMode fresh cu.nulls srcData

end DeForm

end NumberString

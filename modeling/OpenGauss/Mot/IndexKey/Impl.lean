import OpenGauss.Lib.ByteOrder
import OpenGauss.Lib.Memory

/-!
This module contains the keys of the indexes on memory optimized tables: the columns that pack their
values, the index built over them and the key it builds from a row, from `column.cpp` and `index.cpp`.
-/

namespace Mot

open ByteOrder

inductive ColumnType where
  | char
  | tiny
  | short
  | int
  | long
  | float
  | double
  | date
  | time
  | timestamp
  | timestamptz
  | interval
  | tinterval
  | timetz
  | decimal
  | varchar
  | blob
  | nullbytes
  deriving DecidableEq

abbrev ColumnType.Datum : ColumnType → Type
  | .interval | .tinterval | .timetz | .decimal | .varchar | .blob | .nullbytes => Bytes
  | _ => UInt64

def ColumnType.validSize : ColumnType → Nat → Prop
  | .char, size => size = 1
  | .tiny, size => size = 1
  | .short, size => size = 2
  | .int, size => size = 4
  | .long, size => size = 8
  | .float, size => size = 4
  | .double, size => size = 8
  | .date, size => size = 4
  | .time, size => size = 8
  | .timestamp, size => size = 8
  | .timestamptz, size => size = 8
  | .interval, size => size = 16
  | .tinterval, size => size = 12
  | .timetz, size => size = 12
  | .decimal, size => 9 ≤ size
  | .varchar, size => 4 ≤ size
  | .blob, size => 4 ≤ size
  | .nullbytes, _ => True

structure Column where
  id : Nat
  type : ColumnType
  size : Nat
  offset : Nat
  isNotNull : Bool
  isCommitted : Bool
  defValue : Option type.Datum
  size_valid : type.validSize size

def getBytes1 (x : UInt64) : Nat := x.toNat % 256
def getBytes2 (x : UInt64) : Nat := x.toNat % 65536
def getBytes4 (x : UInt64) : Nat := x.toNat % 4294967296
def getBytes8 (x : UInt64) : Nat := x.toNat

-- `ntohs`, `ntohl` and `be64toh` on a little endian machine.
def swapBytes (w n : Nat) : Nat :=
  LittleEndian.decode (LittleEndian.encode w n).reverse

namespace Column

def keySize (col : Column) : Nat :=
  match col.type with
  | .tiny | .short | .int | .long | .date | .timestamp | .timestamptz => col.size + 1
  | .float => col.size + 2
  | .double => col.size + 3
  | .varchar => (col.size - 4) + 1
  | _ => col.size

def signByte (w n : Nat) : UInt8 :=
  if n &&& 2 ^ (8 * w - 1) ≠ 0 then 0x00 else 0x01

def packKeySigned (w : Nat) (buf : Memory) (dest : Nat) (tmp : Nat) : Memory :=
  let buf := buf.store (dest + 1) (LittleEndian.encode w (swapBytes w tmp))
  buf.store dest [signByte w tmp]

def packKeyTiny (buf : Memory) (dest : Nat) (src : UInt64) : Memory :=
  let buf := buf.store (dest + 1) [UInt8.ofNat (getBytes1 src)]
  buf.store dest [signByte 1 (getBytes1 src)]

def packKeyFloat (buf : Memory) (dest : Nat) (src : UInt64) : Memory :=
  let r := src.toUInt32
  let sign : UInt8 := if r &&& 0x80000000 ≠ 0 then 0x00 else 0x01
  let buf := buf.store dest [sign]
  -- Without the sign the exponent is in the highest byte.
  let r := r <<< 1
  let exp := (r >>> 24).toUInt8
  let (exp, r) := if sign = 0 then (255 - exp, ~~~(r <<< 8) + 1) else (exp, r <<< 8)
  let buf := buf.store (dest + 1) [exp]
  buf.store (dest + 2) (LittleEndian.encode 4 (swapBytes 4 r.toNat))

def packKeyDouble (buf : Memory) (dest : Nat) (src : UInt64) : Memory :=
  let r := src
  let sign : UInt8 := if r &&& 0x8000000000000000 ≠ 0 then 0x00 else 0x01
  let buf := buf.store dest [sign]
  let r := r <<< 1
  let exp : UInt16 := (r >>> 48).toUInt16 &&& 0xFFE0
  let exp := if sign = 0 then 2048 - exp else exp
  let buf := buf.store (dest + 1) (LittleEndian.encode 2 (swapBytes 2 exp.toNat))
  let r := r <<< 11
  let r := if sign = 0 then ~~~r + 1 else r
  buf.store (dest + 3) (LittleEndian.encode 8 (swapBytes 8 r.toNat))

def packKeyDate (buf : Memory) (dest : Nat) (src : UInt64) : Memory :=
  buf.store dest (LittleEndian.encode 4 (swapBytes 4 (getBytes4 src)))

def packKeyTime (buf : Memory) (dest : Nat) (src : UInt64) : Memory :=
  buf.store dest (LittleEndian.encode 8 (swapBytes 8 (getBytes8 src)))

def packKeyVarchar (keySize : Nat) (buf : Memory) (dest : Nat) (src : Bytes) (fill : UInt8) : Memory :=
  let buf := buf.store dest src
  if src.length < keySize then
    let buf :=
      if fill ≠ 0x00 then
        buf.store (dest + src.length) (List.replicate ((keySize - src.length) - 1) fill)
      else
        buf
    buf.store (dest + (keySize - 1)) [0]
  else
    buf

def packKeyBlob (buf : Memory) (dest : Nat) (src : Bytes) : Memory :=
  let buf := buf.store dest (LittleEndian.encode 4 src.length)
  buf.store (dest + 4) src

-- `INTERVAL`, `TINTERVAL` and `TIMETZ` copy a structure, `DECIMAL` as much of it as its key has room for.
def packKeyAs (keySize : Nat) (buf : Memory) (dest : Nat) (fill : UInt8)
    : (type : ColumnType) → type.Datum → Memory
  | .char, src => buf.store dest [UInt8.ofNat (getBytes1 src)]
  | .tiny, src => packKeyTiny buf dest src
  | .short, src => packKeySigned 2 buf dest (getBytes2 src)
  | .int, src => packKeySigned 4 buf dest (getBytes4 src)
  | .long, src => packKeySigned 8 buf dest (getBytes8 src)
  | .float, src => packKeyFloat buf dest src
  | .double, src => packKeyDouble buf dest src
  | .date, src => packKeyDate buf dest src
  | .time, src => packKeyTime buf dest src
  | .timestamp, src => packKeySigned 8 buf dest (getBytes8 src)
  | .timestamptz, src => packKeySigned 8 buf dest (getBytes8 src)
  | .interval, src => buf.store dest (src.take 16)
  | .tinterval, src => buf.store dest (src.take 12)
  | .timetz, src => buf.store dest (src.take 12)
  | .decimal, src => buf.store dest (src.take keySize)
  | .varchar, src => packKeyVarchar keySize buf dest src fill
  | .blob, src => packKeyBlob buf dest src
  | .nullbytes, _ => buf

def packKey (col : Column) (buf : Memory) (dest : Nat) (src : col.type.Datum) (fill : UInt8) : Memory :=
  packKeyAs col.keySize buf dest fill col.type src

def loadWord (w : Nat) (data : Memory) (pos : Nat) : UInt64 :=
  UInt64.ofNat (LittleEndian.decode (data.load pos w))

-- `DECIMAL` and `NULLBYTES` leave the length as `BuildKey` has set it, at zero.
def unpackAs (data : Memory) (offset : Nat) : (type : ColumnType) → type.Datum
  | .char => loadWord 1 data offset
  | .tiny => loadWord 1 data offset
  | .short => loadWord 2 data offset
  | .int => loadWord 4 data offset
  | .long => loadWord 8 data offset
  | .float => loadWord 4 data offset
  | .double => loadWord 8 data offset
  | .date => loadWord 4 data offset
  | .time => loadWord 8 data offset
  | .timestamp => loadWord 8 data offset
  | .timestamptz => loadWord 8 data offset
  | .interval => data.load offset 16
  | .tinterval => data.load offset 12
  | .timetz => data.load offset 12
  | .decimal => data.load offset 0
  | .varchar => data.load (offset + 4) (LittleEndian.decode (data.load offset 4))
  | .blob => data.load (offset + 4) (LittleEndian.decode (data.load offset 4))
  | .nullbytes => data.load offset 0

def unpack (col : Column) (data : Memory) : col.type.Datum :=
  unpackAs data col.offset col.type

end Column

structure Table where
  version : Nat
  getField : Nat → Option Column

structure Row where
  data : Memory
  tableVersion : Nat
  rowId : UInt64
  surrogateKey : UInt64
  internalKey : Option Bytes

def bitmapGet (data : Memory) (x : Nat) : Bool :=
  (data (x / 8)).toNat.testBit (x % 8)

def nonUniqueIndexSuffixLen : Nat := 8
def maxKeySize : Nat := 256
def maxKeyColumns : Nat := 10

structure Index where
  unique : Bool
  fakePrimary : Bool
  keyLength : Nat
  keyFields : List (Nat × Nat)

namespace Index

def keyFieldsOf (allowIndexOnNullableColumn : Bool) (table : Table)
    : List Nat → Option (List (Nat × Nat))
  | [] => some []
  | colid :: rest =>
    match table.getField colid with
    | none => none
    | some col =>
      if !allowIndexOnNullableColumn && !col.isNotNull then
        none
      else if col.type = .decimal then
        none
      else if maxKeySize < col.keySize then
        none
      else
        match keyFieldsOf allowIndexOnNullableColumn table rest with
        | none => none
        | some fields => some ((colid, col.keySize) :: fields)

-- `CreateIndex` and `IndexInit`
def create (allowIndexOnNullableColumn : Bool) (table : Table) (colids : List Nat) (unique : Bool)
    : Option Index :=
  if maxKeyColumns < colids.length then
    none
  else
    match keyFieldsOf allowIndexOnNullableColumn table colids with
    | none => none
    | some keyFields =>
      let keyLength :=
        (keyFields.map Prod.snd).sum + (if unique then 0 else nonUniqueIndexSuffixLen)
      if maxKeySize < keyLength then
        none
      else
        some { unique, fakePrimary := false, keyLength, keyFields }

def keySizeNoSuffix (index : Index) : Nat :=
  if index.unique then index.keyLength else index.keyLength - nonUniqueIndexSuffixLen

def buildKeyFields (index : Index) (table : Table) (row : Row)
    : List (Nat × Nat) → Nat → Memory → Memory
  | [], _, buf => buf
  | (colid, length) :: rest, offset, buf =>
    let buf :=
      match table.getField colid with
      | none => buf
      | some col =>
        if !col.isCommitted && row.tableVersion ≠ table.version then
          match col.defValue with
          | some defValue => col.packKey buf offset defValue 0x00
          | none => buf.store offset (List.replicate length 0x00)
        else if bitmapGet row.data (col.id - 1) then
          col.packKey buf offset (col.unpack row.data) 0x00
        else
          buf.store offset (List.replicate length 0x00)
    buildKeyFields index table row rest (offset + length) buf

def buildKey (index : Index) (table : Table) (row : Row) (key : Memory) : Memory :=
  let buf := key.store 0 (List.replicate index.keyLength 0)
  let buf :=
    if index.fakePrimary then
      buf.store 0 ((LittleEndian.encode 8 row.surrogateKey.toNat).take index.keyLength)
    else
      match row.internalKey with
      | some internalKey => buf.store 0 (internalKey.take index.keyLength)
      | none => buildKeyFields index table row index.keyFields 0 buf
  if index.unique then
    buf
  else
    buf.store (index.keyLength - nonUniqueIndexSuffixLen)
      ((LittleEndian.encode 8 row.rowId.toNat).take nonUniqueIndexSuffixLen)

def keyBytes (index : Index) (key : Memory) : Bytes :=
  key.load 0 index.keySizeNoSuffix

end Index

/-!
The values of the key columns and their order.
-/

-- What a row holds in a column; a column added later has its default there.
def Row.value (row : Row) (table : Table) (col : Column) : Option col.type.Datum :=
  if !col.isCommitted && row.tableVersion ≠ table.version then
    col.defValue
  else if bitmapGet row.data (col.id - 1) then
    some (col.unpack row.data)
  else
    none

def signMagnitude (w n : Nat) : Int :=
  if n < 2 ^ (w - 1) then n else 2 ^ (w - 1) - n

def ColumnType.compareDatum : (type : ColumnType) → type.Datum → type.Datum → Ordering
  | .char, x, y => compare (getBytes1 x) (getBytes1 y)
  | .tiny, x, y => compare (LittleEndian.toSigned 1 (getBytes1 x)) (LittleEndian.toSigned 1 (getBytes1 y))
  | .short, x, y => compare (LittleEndian.toSigned 2 (getBytes2 x)) (LittleEndian.toSigned 2 (getBytes2 y))
  | .int, x, y => compare (LittleEndian.toSigned 4 (getBytes4 x)) (LittleEndian.toSigned 4 (getBytes4 y))
  | .long, x, y => compare (LittleEndian.toSigned 8 (getBytes8 x)) (LittleEndian.toSigned 8 (getBytes8 y))
  | .float, x, y => compare (signMagnitude 32 (getBytes4 x)) (signMagnitude 32 (getBytes4 y))
  | .double, x, y => compare (signMagnitude 64 (getBytes8 x)) (signMagnitude 64 (getBytes8 y))
  | .date, x, y => compare (LittleEndian.toSigned 4 (getBytes4 x)) (LittleEndian.toSigned 4 (getBytes4 y))
  | .time, x, y => compare (LittleEndian.toSigned 8 (getBytes8 x)) (LittleEndian.toSigned 8 (getBytes8 y))
  | .timestamp, x, y =>
    compare (LittleEndian.toSigned 8 (getBytes8 x)) (LittleEndian.toSigned 8 (getBytes8 y))
  | .timestamptz, x, y =>
    compare (LittleEndian.toSigned 8 (getBytes8 x)) (LittleEndian.toSigned 8 (getBytes8 y))
  | .interval, x, y => compareString x y
  | .tinterval, x, y => compareString x y
  | .timetz, x, y => compareString x y
  | .decimal, x, y => compareString x y
  | .varchar, x, y => compareString x y
  | .blob, x, y => compareString x y
  | .nullbytes, x, y => compareString x y

-- The values an ordered key may have: a time of day, a string that fits and has no zero bytes. The keys of
-- the last types are not ordered.
def ColumnType.Keyable (size : Nat) : (type : ColumnType) → type.Datum → Prop
  | .tiny, _ | .short, _ | .int, _ | .long, _ | .timestamp, _ | .timestamptz, _ => True
  | .time, x => 0 ≤ LittleEndian.toSigned 8 (getBytes8 x)
  | .varchar, x => x.length ≤ size - 4 ∧ ∀ byte, byte ∈ x → byte ≠ 0
  | _, _ => False

def Row.KeyableIn (row : Row) (table : Table) (colids : List Nat) : Prop :=
  ∀ colid col, colid ∈ colids → table.getField colid = some col →
    ∃ value, row.value table col = some value ∧ col.type.Keyable col.size value

def compareRows (table : Table) (row row' : Row) : List Nat → Ordering
  | [] => .eq
  | colid :: rest =>
    match table.getField colid with
    | none => .eq
    | some col =>
      match row.value table col, row'.value table col with
      | some value, some value' => (col.type.compareDatum value value').then (compareRows table row row' rest)
      | _, _ => .eq

end Mot

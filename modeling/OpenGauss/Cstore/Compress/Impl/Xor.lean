import OpenGauss.Cstore.Compress.Impl.Rle

/-!
This module contains the implementation of `XORCodec` of `time_series_compress.cpp`.

The values of `float4` and `float8` columns are taken as their bit patterns, and a `char` as its byte.
-/

namespace XORCodec

def kLeadingZerosLengthBits : Nat := 5

def kBlockSizeLengthBits : Nat := 6

def kMaxLeadingZerosLength : Nat := 1 <<< kLeadingZerosLengthBits - 1

def kBlockSizeAdjustment : Nat := 1

def floatSize : Nat := 64

def byteSize : Nat := 8

def countLeadingZeros (n x : Nat) : Nat :=
  match n with
  | 0 => 0
  | n + 1 => if x.testBit n then 0 else countLeadingZeros n x + 1

def countTrailingZeros (n x : Nat) : Nat :=
  match n with
  | 0 => 0
  | n + 1 => if x % 2 = 1 then 0 else countTrailingZeros n (x / 2) + 1

def clzll (x : Nat) : Nat := countLeadingZeros 64 x

def ctzll (x : Nat) : Nat := countTrailingZeros 64 x

section Compress

structure Encoder where
  previousValue : Nat
  numBits : Nat
  previousValueLeadingZeros : Nat
  previousValueTrailingZeros : Nat
  bitsStore : UInt8
  outbuf : Bytes

def Encoder.new : Encoder where
  previousValue := 0
  numBits := 0
  previousValueLeadingZeros := 0
  previousValueTrailingZeros := 0
  bitsStore := 0
  outbuf := []

def flushBitString (s : Encoder) : Encoder :=
  if s.numBits % byteSize = 0 then
    { s with outbuf := s.outbuf ++ [s.bitsStore], bitsStore := 0 }
  else
    s

def flushLastBitString (s : Encoder) : Encoder :=
  if s.numBits % byteSize ≠ 0 then
    { s with outbuf := s.outbuf ++ [s.bitsStore], bitsStore := 0 }
  else
    s

/-- `numBits` goes up by `count`, and `value` is added to the byte under construction. -/
def Encoder.store (s : Encoder) (count value : Nat) : Encoder :=
  { s with
    numBits := (s.numBits + count) % 2 ^ 32
    bitsStore := s.bitsStore + UInt8.ofNat value }

/-- The loop over the bits that fill a byte of their own, and how many are left after it. -/
def addWholeBytes (value bitsLeft : Nat) (s : Encoder) : Encoder × Nat :=
  if byteSize ≤ bitsLeft then
    addWholeBytes value (bitsLeft - byteSize)
      (flushBitString (s.store byteSize ((value >>> (bitsLeft - byteSize)) &&& 0xFF)))
  else
    (s, bitsLeft)
termination_by bitsLeft
decreasing_by
  unfold byteSize at *
  omega

def addValueToBitString (value bitsInValue : Nat) (s : Encoder) : Encoder :=
  let bitsAvailable := if s.numBits &&& 0x7 ≠ 0 then byteSize - (s.numBits &&& 0x7) else 0
  if bitsInValue ≤ bitsAvailable then
    flushBitString (s.store bitsInValue (value <<< (bitsAvailable - bitsInValue)))
  else
    let (s, bitsLeft) :=
      if bitsAvailable > 0 then
        (flushBitString (s.store bitsAvailable (value >>> (bitsInValue - bitsAvailable))),
          bitsInValue - bitsAvailable)
      else
        (s, bitsInValue)
    let (s, bitsLeft) := addWholeBytes value bitsLeft s
    if bitsLeft ≠ 0 then
      s.store bitsLeft ((value &&& (1 <<< bitsLeft - 1)) <<< (byteSize - bitsLeft))
    else
      s

def appendValue (value : Nat) (s : Encoder) : Encoder :=
  let xorWithPrevius := s.previousValue ^^^ value
  if xorWithPrevius = 0 then
    addValueToBitString 0 1 s
  else
    let s := addValueToBitString 1 1 s
    let leadingZeros :=
      if clzll xorWithPrevius > kMaxLeadingZerosLength then
        kMaxLeadingZerosLength
      else
        clzll xorWithPrevius
    let trailingZeros := ctzll xorWithPrevius
    let blockSize := floatSize - leadingZeros - trailingZeros
    let expectedSize := kLeadingZerosLengthBits + kBlockSizeLengthBits + blockSize
    let previousBlockInformationSize :=
      floatSize - s.previousValueTrailingZeros - s.previousValueLeadingZeros
    if leadingZeros ≥ s.previousValueLeadingZeros ∧ trailingZeros ≥ s.previousValueTrailingZeros ∧
        previousBlockInformationSize < expectedSize then
      let s := addValueToBitString 1 1 s
      let blockValue := xorWithPrevius >>> s.previousValueTrailingZeros
      let s := addValueToBitString blockValue previousBlockInformationSize s
      { s with previousValue := value }
    else
      let s := addValueToBitString 0 1 s
      let s := addValueToBitString leadingZeros kLeadingZerosLengthBits s
      let s := addValueToBitString (blockSize - kBlockSizeAdjustment) kBlockSizeLengthBits s
      let blockValue := xorWithPrevius >>> trailingZeros
      let s := addValueToBitString blockValue blockSize s
      { s with
        previousValueTrailingZeros := trailingZeros
        previousValueLeadingZeros := leadingZeros
        previousValue := value }

def compress (inbuf : Bytes) (dataSize : ValSize) : Bytes :=
  let s := (readValues dataSize inbuf).foldl (fun s value => appendValue value s) Encoder.new
  (flushLastBitString s).outbuf

end Compress

section Decompress

/-- The variables of `decompress`, and the member `bitsStore_` that it reads into. -/
structure Decoder where
  previousValue : Nat
  previousLeadingZeros : Nat
  previousTrailingZeros : Nat
  bitPos : Nat
  inPos : Nat
  bitsStore : UInt8

variable (inbuf : Bytes)

def Decoder.readByte (s : Decoder) : Decoder :=
  { s with bitsStore := inbuf.getD s.inPos 0, inPos := s.inPos + 1 }

/-- The loop of `readValueFromBitString`, with the value that it has read so far. -/
def readValueLoop (bitsToRead value : Nat) (s : Decoder) : Nat × Decoder :=
  match bitsToRead with
  | 0 => (value, s)
  | bitsToRead + 1 =>
    let bit := (s.bitsStore.toNat >>> (7 - (s.bitPos &&& 0x7))) &&& 1
    let value := ((value <<< 1) % 2 ^ 64 + bit) % 2 ^ 64
    let s := { s with bitPos := s.bitPos + 1 }
    if s.bitPos % byteSize = 0 then
      readValueLoop bitsToRead value (s.readByte inbuf)
    else
      readValueLoop bitsToRead value s

def readValueFromBitString (bitsToRead : Nat) (s : Decoder) : Nat × Decoder :=
  readValueLoop inbuf bitsToRead 0 s

def readNextValue (s : Decoder) : Nat × Decoder :=
  let (nonZeroValue, s) := readValueFromBitString inbuf 1 s
  if nonZeroValue = 0 then
    (s.previousValue, s)
  else
    let (usePreviousBlockInformation, s) := readValueFromBitString inbuf 1 s
    if usePreviousBlockInformation ≠ 0 then
      let (xorValue, s) :=
        readValueFromBitString inbuf (floatSize - s.previousLeadingZeros - s.previousTrailingZeros) s
      let xorValue := (xorValue <<< s.previousTrailingZeros) % 2 ^ 64
      let value := xorValue ^^^ s.previousValue
      (value, { s with previousValue := value })
    else
      let (leadingZeros, s) := readValueFromBitString inbuf kLeadingZerosLengthBits s
      let (blockSize, s) := readValueFromBitString inbuf kBlockSizeLengthBits s
      let blockSize := blockSize + kBlockSizeAdjustment
      let s := { s with previousTrailingZeros := floatSize - blockSize - leadingZeros }
      let (xorValue, s) := readValueFromBitString inbuf blockSize s
      let xorValue := (xorValue <<< s.previousTrailingZeros) % 2 ^ 64
      let s := { s with previousLeadingZeros := leadingZeros }
      let value := xorValue ^^^ s.previousValue
      (value, { s with previousValue := value })

def decompressLoop (dataSize : ValSize) (loopCount : Nat) (s : Decoder) : Bytes × Decoder :=
  match loopCount with
  | 0 => ([], s)
  | loopCount + 1 =>
    let (value, s) := readNextValue inbuf s
    let (outbuf, s) := decompressLoop dataSize loopCount s
    (LittleEndian.encode dataSize value ++ outbuf, s)

/-- The values, and the final `in_pos`. A `loop_count` of 0 goes once around the `unsigned int`. -/
def decompress (outsize : Nat) (dataSize : ValSize) : Bytes × Nat :=
  let loopCount := outsize / dataSize
  let s : Decoder :=
    { previousValue := 0, previousLeadingZeros := 0, previousTrailingZeros := 0, bitPos := 0, inPos := 0,
      bitsStore := 0 }
  let (outbuf, s) :=
    decompressLoop inbuf dataSize (if loopCount = 0 then 2 ^ 32 else loopCount) (s.readByte inbuf)
  (outbuf, s.inPos)

end Decompress

end XORCodec

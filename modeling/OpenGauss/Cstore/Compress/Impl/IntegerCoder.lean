import OpenGauss.Cstore.Compress.Impl.Delta

/-!
This module contains the wrappers of `compress_kits.cpp` around the LZ4 and zlib libraries, which
are parameters, and the implementation of `IntegerCoder` of `cstore_compress.cpp`.
-/

structure Lz4 where
  /-- `LZ4_compress_default` into a buffer of `LZ4_compressBound` bytes. -/
  compressDefault : Bytes → Bytes
  /-- `LZ4_compress_HC` with a compression level into a buffer of `LZ4_compressBound` bytes. -/
  compressHC : Int → Bytes → Bytes
  /-- `LZ4_decompress_safe` into a buffer of the given capacity, a negative return code is `none`. -/
  decompressSafe : Bytes → Nat → Option Bytes

/-- What the documentation of liblz4 promises for a compression that succeeded. -/
structure Lz4.Lossless (lz4 : Lz4) : Prop where
  compressDefault : ∀ src, lz4.compressDefault src ≠ [] →
    lz4.decompressSafe (lz4.compressDefault src) src.length = some src
  compressHC : ∀ level src, lz4.compressHC level src ≠ [] →
    lz4.decompressSafe (lz4.compressHC level src) src.length = some src

structure LZ4Wrapper where
  compressionLevel : Int

namespace LZ4Wrapper

def lz4MinLevel : Int := 0
def lz4hcMinLevel : Int := 1
def lz4hcRecommendLevel : Int := 9
def lz4hcLevelStep : Int := 2

def sizeOfLz4Header : Nat := 8

def benefited (outsize srcsize : Nat) : Bool :=
  decide (outsize > 0 ∧ sizeOfLz4Header + outsize < srcsize)

variable (lz4 : Lz4) (wrapper : LZ4Wrapper)

/-- The header `rawLen`, `compressLen` and the data; empty for the return code 0. -/
def compress (source : Bytes) : Bytes :=
  let data :=
    if wrapper.compressionLevel = lz4MinLevel then
      lz4.compressDefault source
    else
      lz4.compressHC wrapper.compressionLevel source
  if benefited data.length source.length then
    LittleEndian.encode 4 source.length ++ LittleEndian.encode 4 data.length ++ data
  else
    []

def rawLen (source : Bytes) : Nat := LittleEndian.decode (source.take 4)

def compressLen (source : Bytes) : Nat := LittleEndian.decode ((source.drop 4).take 4)

def decompressGetBound (source : Bytes) : Nat := rawLen source

def decompress (source : Bytes) : Option Bytes :=
  lz4.decompressSafe ((source.drop sizeOfLz4Header).take (compressLen source))
    (decompressGetBound source)

end LZ4Wrapper

/-- The entry points of zlib, as `ZlibEncoder` and `ZlibDecoder` drive them. -/
structure Zlib where
  /-- `deflate` into a buffer of `deflateBound` bytes; `none` if it does not reach `Z_STREAM_END`. -/
  deflate : Int → Bytes → Option Bytes
  /-- Whether `inflateInit` returns `Z_OK`. -/
  inflateInit : Bool
  /-- `inflate` with `Z_FINISH` into a buffer of the given capacity, an error code is `none`. -/
  inflate : Bytes → Nat → Option Bytes

structure Zlib.Lossless (zlib : Zlib) : Prop where
  inflateInit : zlib.inflateInit = true
  inflate : ∀ level src out outsize, zlib.deflate level src = some out → src.length ≤ outsize →
    zlib.inflate out outsize = some src

namespace ZlibEncoder

def zlibRecommendLevel : Int := 6
def zlibMaxLevel : Int := 9
def zlibLevelStep : Int := 1

end ZlibEncoder

namespace LZ4Wrapper

theorem decompress_compress_append {lz4 : Lz4} (hlossless : lz4.Lossless) (wrapper : LZ4Wrapper)
    {source : Bytes} (hlen : source.length < 2 ^ 32) (hne : wrapper.compress lz4 source ≠ [])
    (tail : Bytes)
    : decompress lz4 (wrapper.compress lz4 source ++ tail) = some source := by
  generalize hdata : (if wrapper.compressionLevel = lz4MinLevel then lz4.compressDefault source
    else lz4.compressHC wrapper.compressionLevel source) = data
  have hsafe : data ≠ [] → lz4.decompressSafe data source.length = some source := by
    rw [← hdata]
    split
    . apply hlossless.compressDefault
    . apply hlossless.compressHC
  have hcompress : wrapper.compress lz4 source = if benefited data.length source.length then
      LittleEndian.encode 4 source.length ++ LittleEndian.encode 4 data.length ++ data else [] := by
    rw [← hdata]
    rfl
  rw [hcompress] at hne ⊢
  split at hne
  . next hbenefit =>
    have hsizes : 0 < data.length ∧ 8 + data.length < source.length := by
      simpa [benefited, sizeOfLz4Header] using hbenefit
    have hraw : LittleEndian.decode (LittleEndian.encode 4 source.length) = source.length := by
      apply LittleEndian.decode_encode_of_lt
      omega
    have hcmpr : LittleEndian.decode (LittleEndian.encode 4 data.length) = data.length := by
      apply LittleEndian.decode_encode_of_lt
      omega
    rw [if_pos hbenefit]
    unfold decompress decompressGetBound rawLen compressLen sizeOfLz4Header
    simp only [List.append_assoc]
    rw [List.take_left' (LittleEndian.length_encode ..)]
    rw [List.drop_left' (LittleEndian.length_encode ..)]
    rw [List.take_left' (LittleEndian.length_encode ..), ← List.append_assoc]
    rw [List.drop_left' (by simp), hraw, hcmpr, List.take_left]
    apply hsafe
    apply List.ne_nil_of_length_pos
    omega
  . exact absurd rfl hne

theorem decompress_compress {lz4 : Lz4} (hlossless : lz4.Lossless) (wrapper : LZ4Wrapper)
    {source : Bytes} (hlen : source.length < 2 ^ 32) (hne : wrapper.compress lz4 source ≠ [])
    : decompress lz4 (wrapper.compress lz4 source) = some source := by
  have := decompress_compress_append hlossless wrapper hlen hne []
  rwa [List.append_nil] at this

end LZ4Wrapper

def cuDeltaCompressed : Nat := 0x0001
def cuRLECompressed : Nat := 0x0008
def cuLzCompressed : Nat := 0x0010
def cuZlibCompressed : Nat := 0x0020

inductive Compression where
  | low
  | middle
  | high
  deriving DecidableEq

def compresslevelTable : Compression → List Int
  | .low =>
    [LZ4Wrapper.lz4MinLevel, LZ4Wrapper.lz4hcMinLevel,
      LZ4Wrapper.lz4hcMinLevel + LZ4Wrapper.lz4hcLevelStep,
      LZ4Wrapper.lz4hcMinLevel + LZ4Wrapper.lz4hcLevelStep * 2]
  | .middle =>
    [LZ4Wrapper.lz4hcRecommendLevel - LZ4Wrapper.lz4hcLevelStep, LZ4Wrapper.lz4hcRecommendLevel,
      LZ4Wrapper.lz4hcRecommendLevel + LZ4Wrapper.lz4hcLevelStep,
      LZ4Wrapper.lz4hcRecommendLevel + LZ4Wrapper.lz4hcLevelStep * 2]
  | .high =>
    [ZlibEncoder.zlibRecommendLevel,
      ZlibEncoder.zlibRecommendLevel + ZlibEncoder.zlibLevelStep,
      ZlibEncoder.zlibRecommendLevel + ZlibEncoder.zlibLevelStep * 2,
      ZlibEncoder.zlibMaxLevel]

structure CompressionArg1 where
  buf : Bytes
  compression : Compression
  compresslevel : Fin 4
  sz_lt : buf.length < 2 ^ 31

namespace CompressionArg1

def level (arg : CompressionArg1) : Int :=
  (compresslevelTable arg.compression).getD arg.compresslevel 0

end CompressionArg1

structure CompressionArg2 where
  buf : Bytes
  modes : Nat
  deriving DecidableEq

/-- `ComputeMinMaxVal`: the maximum is only looked at when the minimum does not change. -/
def computeMinMaxVal (first : Int) (vals : List Int) : Int × Int :=
  vals.foldl (fun (acc : Int × Int) val =>
    if val < acc.1 then
      (val, acc.2)
    else if val > acc.2 then
      (acc.1, val)
    else
      acc) (first, first)

def signedValues (eachValSize : ValSize) (inBuf : Bytes) : List Int :=
  (LittleEndian.unpack eachValSize (inBuf.length / eachValSize) inBuf).map
    (LittleEndian.toSigned eachValSize)

def computeIntMinMaxVal (inBuf : Bytes) (eachValSize : ValSize) : Int × Int :=
  match signedValues eachValSize inBuf with
  | [] => (0, 0)
  | first :: vals => computeMinMaxVal first vals

structure IntegerCoder where
  adoptRle : Bool
  minVal : Int
  maxVal : Int
  isValid : Bool
  eachValSize : ValSize
  eachValSize_mem : eachValSize.val ∈ [1, 2, 4, 8]

namespace IntegerCoder

section Compress

variable (coder : IntegerCoder) (lz4 : Lz4) (zlib : Zlib)

/-- The part of `CompressInner` that fills in a missing minimum and maximum. -/
def ensureMinMaxVal (inBuf : Bytes) : IntegerCoder :=
  if coder.isValid then
    coder
  else
    let (minVal, maxVal) := computeIntMinMaxVal inBuf coder.eachValSize
    { coder with minVal, maxVal, isValid := true }

def insertMinMaxVal (buf : Bytes) : Bytes :=
  LittleEndian.encodeInt coder.eachValSize coder.minVal
    ++ LittleEndian.encodeInt coder.eachValSize coder.maxVal ++ buf

/-- `currIn` is the input of the next method: `in.buf` at first, `out.buf` as soon as one is adopted. -/
structure CompressState where
  currIn : Bytes
  out : CompressionArg2

/-- The common end of all methods: the result is copied to `out.buf` if it is smaller. -/
def CompressState.adopt (s : CompressState) (cmpr : Bytes) (mode : Nat) : CompressState :=
  if cmpr.length > 0 ∧ cmpr.length < s.currIn.length then
    { currIn := cmpr, out := { buf := cmpr, modes := s.out.modes ||| mode } }
  else
    s

def compressDelta (inBuf : Bytes) : CompressState × ValSize :=
  let init : CompressState := { currIn := inBuf, out := { buf := [], modes := 0 } }
  let delta := DeltaCoder.forCompress coder.minVal coder.maxVal
  if delta.outValSize.val < coder.eachValSize then
    let cmpr := delta.compress inBuf inBuf.length coder.eachValSize
    if cmpr.length + coder.eachValSize * 2 < inBuf.length then
      ({ currIn := cmpr, out := { buf := cmpr, modes := cuDeltaCompressed } }, delta.outValSize)
    else
      (init, coder.eachValSize)
  else
    (init, delta.outValSize)

def compressRle (s : CompressState) (outValSize : ValSize) : CompressState :=
  if coder.adoptRle then
    s.adopt ((RleCoder.v1 outValSize).innerCompress s.currIn) cuRLECompressed
  else
    s

def compressLzZlib (input : CompressionArg1) (s : CompressState) : CompressState :=
  match input.compression with
  | .low => s
  | .middle => s.adopt (LZ4Wrapper.compress lz4 ⟨input.level⟩ s.currIn) cuLzCompressed
  | .high => s.adopt ((zlib.deflate input.level s.currIn).getD []) cuZlibCompressed

def compressSteps (input : CompressionArg1) : CompressState :=
  let res := coder.compressDelta input.buf
  compressLzZlib lz4 zlib input (coder.compressRle res.1 res.2)

def compress (input : CompressionArg1) : Nat × CompressionArg2 :=
  let coder := coder.ensureMinMaxVal input.buf
  let out := (coder.compressSteps lz4 zlib input).out
  let out :=
    if out.modes &&& cuDeltaCompressed ≠ 0 then
      { out with buf := coder.insertMinMaxVal out.buf }
    else
      out
  (if out.modes ≠ 0 then out.buf.length else 0, out)

end Compress

section Decompress

inductive DecompressError where
  /-- The return code -2. -/
  | zlibPrepare
  /-- A library reports a broken stream, or a result does not fit into the output buffers. -/
  | corrupted
  deriving DecidableEq

inductive OutRef where
  | out
  | tmp
  deriving DecidableEq

structure SwapState where
  outBuf : Bytes
  tmpBuf : Bytes
  nextInBuf : Option OutRef
  nextInSize : Nat
  nextOutBuf : OutRef
  nextOutSize : Nat
  prepared : Bool

namespace SwapState

def nextIn (s : SwapState) (inBuf : Bytes) : Bytes :=
  match s.nextInBuf with
  | none => inBuf.take s.nextInSize
  | some .out => s.outBuf.take s.nextInSize
  | some .tmp => s.tmpBuf.take s.nextInSize

def store (s : SwapState) (data : Bytes) : SwapState :=
  match s.nextOutBuf with
  | .out => { s with outBuf := data, nextOutSize := data.length }
  | .tmp => { s with tmpBuf := data, nextOutSize := data.length }

def prepareSwapBuf (s : SwapState) (newsz2 : Nat) : SwapState :=
  { s with
    nextInBuf := some s.nextOutBuf
    nextOutBuf := .tmp
    nextInSize := s.nextOutSize
    nextOutSize := newsz2
    prepared := true }

/-- Only called after `prepareSwapBuf`, the other cases of `nextInBuf` do not occur. -/
def swapBuf (s : SwapState) : SwapState :=
  { s with
    nextInBuf := some s.nextOutBuf
    nextOutBuf := s.nextInBuf.getD .out
    nextInSize := s.nextOutSize
    nextOutSize := s.nextInSize }

/-- One decompression method, from the current input to the current output, and the swap after it. -/
def run (s : SwapState) (inBuf : Bytes) (outSize : Nat) (method : Bytes → Option Bytes)
    : Except DecompressError SwapState :=
  match method (s.nextIn inBuf) with
  | none => .error .corrupted
  | some data =>
    if data.length ≤ outSize then
      let s := s.store data
      .ok (if s.prepared then s.swapBuf else s.prepareSwapBuf outSize)
    else
      .error .corrupted

end SwapState

variable (coder : IntegerCoder) (lz4 : Lz4) (zlib : Zlib)

def hasMode (modes flag : Nat) : Bool := modes &&& flag ≠ 0

def decompressLzZlib (modes : Nat) (inBuf : Bytes) (outSize : Nat) (s : SwapState)
    : Except DecompressError SwapState :=
  if hasMode modes cuLzCompressed then
    s.run inBuf outSize (LZ4Wrapper.decompress lz4)
  else if hasMode modes cuZlibCompressed then
    if zlib.inflateInit then
      s.run inBuf outSize (zlib.inflate · outSize)
    else
      .error .zlibPrepare
  else
    .ok s

def decompressRle (modes : Nat) (inValSize : ValSize) (inBuf : Bytes) (outSize : Nat) (s : SwapState)
    : Except DecompressError SwapState :=
  if hasMode modes cuRLECompressed then
    let oneValSize := if hasMode modes cuDeltaCompressed then inValSize else coder.eachValSize
    s.run inBuf outSize fun buf => some ((RleCoder.v1 oneValSize).innerDecompress buf)
  else
    .ok s

def decompressDelta (modes : Nat) (inValSize : ValSize) (inBuf : Bytes) (outSize : Nat) (s : SwapState)
    : Except DecompressError SwapState :=
  if hasMode modes cuDeltaCompressed then
    s.run inBuf outSize fun buf =>
      some ((DeltaCoder.forDecompress coder.minVal coder.eachValSize).decompress buf inValSize)
  else
    .ok s

/-- The min/max values in front of delta compressed data, and the position after them. -/
def parseMinMaxVal (input : CompressionArg2) : IntegerCoder × Bytes :=
  if hasMode input.modes cuDeltaCompressed then
    let w : Nat := coder.eachValSize
    ({ coder with
        minVal := LittleEndian.decodeInt (input.buf.take w)
        maxVal := LittleEndian.decodeInt ((input.buf.drop w).take w) },
      input.buf.drop (w * 2))
  else
    (coder, input.buf)

def decompress (input : CompressionArg2) (outSize : Nat) : Except DecompressError Bytes := do
  let (coder, inBuf) := coder.parseMinMaxVal input
  let inValSize := deltaGetBytesNum coder.minVal coder.maxVal
  let s : SwapState :=
    { outBuf := [], tmpBuf := [], nextInBuf := none, nextInSize := inBuf.length, nextOutBuf := .out,
      nextOutSize := 0, prepared := false }
  let s ← decompressLzZlib lz4 zlib input.modes inBuf outSize s
  let s ← coder.decompressRle input.modes inValSize inBuf outSize s
  let s ← coder.decompressDelta input.modes inValSize inBuf outSize s
  -- the final `memcpy_s`
  let s := if s.nextInBuf ≠ some .out then { s with outBuf := s.nextIn inBuf } else s
  .ok (s.outBuf.take s.nextInSize)

end Decompress

end IntegerCoder

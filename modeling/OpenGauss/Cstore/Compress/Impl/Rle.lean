import OpenGauss.Lib.LittleEndian
import Mathlib.Tactic.IntervalCases

/-!
This module contains the implementation of `RleCoder` of `compress_kits.cpp`.

A buffer argument and the size that goes with it are one `Bytes`; a function that fills a buffer and
returns the used size returns the bytes it wrote.
-/

structure ValSize where
  val : Nat
  pos : 0 < val
  le_eight : val ≤ 8
  deriving DecidableEq

instance : Coe ValSize Nat := ⟨ValSize.val⟩

/-- The values a `do { readData } while (inpos + valSize <= insize)` loop gets to see. -/
def readValues (valSize : ValSize) (inbuf : Bytes) : List Nat :=
  LittleEndian.unpack valSize (max 1 (inbuf.length / valSize)) inbuf

structure RleCoder where
  eachValSize : ValSize
  minRepeats : Nat
  one_lt_minRepeats : 1 < minRepeats
  minRepeats_le : minRepeats ≤ 128

namespace RleCoder

def rleMarker : List Nat :=
  [0, 0xFE, 0xFEFE, 0xFEFEFE, 0xFEFEFEFE, 0xFEFEFEFEFE, 0xFEFEFEFEFEFE, 0xFEFEFEFEFEFEFE,
    0xFEFEFEFEFEFEFEFE]

def rleMinRepeatsV1 : Nat := 4

def rleMinRepeatsV2 : List Nat := [0, 4, 3, 3, 3, 3, 3, 3, 3]

def rleMaxRepeats : Nat := 0x7fff

def v1 (oneValSize : ValSize) : RleCoder where
  eachValSize := oneValSize
  minRepeats := rleMinRepeatsV1
  one_lt_minRepeats := by decide
  minRepeats_le := by decide

/-- The RLE_v2 constructor, with the repeats that its callers take from `rleMinRepeatsV2`. -/
def v2 (oneValSize : ValSize) : RleCoder where
  eachValSize := oneValSize
  minRepeats := rleMinRepeatsV2.getD oneValSize 0
  one_lt_minRepeats := by
    obtain ⟨val, hpos, hle⟩ := oneValSize
    interval_cases val <;> simp [rleMinRepeatsV2]
  minRepeats_le := by
    obtain ⟨val, hpos, hle⟩ := oneValSize
    interval_cases val <;> simp [rleMinRepeatsV2]

def compressGetBound (insize : Nat) (eachSize : ValSize) : Nat :=
  1 + insize + (insize / eachSize) / 2

variable (coder : RleCoder)

def marker : Nat := rleMarker.getD coder.eachValSize 0

def writeNonRuns (outbuf : Bytes) (symbol repeats : Nat) : Bytes :=
  if coder.marker ≠ symbol then
    outbuf ++ LittleEndian.pack coder.eachValSize (List.replicate repeats symbol)
  else
    outbuf ++ LittleEndian.encode coder.eachValSize symbol ++ [UInt8.ofNat repeats]

def writeRuns (outbuf : Bytes) (symbol repeats : Nat) : Bytes :=
  let repeatBytes :=
    if repeats ≥ 128 then
      [UInt8.ofNat ((repeats ||| 0x8000) >>> 8), UInt8.ofNat (repeats &&& 0xff)]
    else
      [UInt8.ofNat repeats]
  outbuf ++ LittleEndian.encode coder.eachValSize coder.marker ++ repeatBytes
    ++ LittleEndian.encode coder.eachValSize symbol

def writeRepeats (outbuf : Bytes) (symbol repeats : Nat) : Bytes :=
  if repeats ≥ coder.minRepeats then
    coder.writeRuns outbuf symbol repeats
  else
    coder.writeNonRuns outbuf symbol repeats

/-- The variables of the main loop of `innerCompress`; `input` is what `inpos` has not passed yet. -/
structure CompressState where
  data1 : Nat
  data2 : Nat
  count : Nat
  input : List Nat
  outbuf : Bytes

def scanRun (data1 : Nat) (data2 count : Nat) (input : List Nat) : Nat × Nat × List Nat :=
  match input with
  | [] => (data2, count, [])
  | next :: rest =>
    if data1 = data2 ∧ count < rleMaxRepeats then
      scanRun data1 next (count + 1) rest
    else
      (data2, count, next :: rest)

def emit (s : CompressState) : CompressState :=
  if s.data1 = s.data2 then
    let (data2, count, input) := scanRun s.data1 s.data2 s.count s.input
    if s.data1 = data2 then
      let outbuf := coder.writeRepeats s.outbuf s.data1 count
      match input with
      | [] => { data1 := s.data1, data2, count := 0, input := [], outbuf }
      | next :: rest => { data1 := next, data2, count := 1, input := rest, outbuf }
    else
      let outbuf := coder.writeRepeats s.outbuf s.data1 (count - 1)
      { data1 := data2, data2, count := 1, input, outbuf }
  else
    { s with data1 := s.data2, count := 1, outbuf := coder.writeNonRuns s.outbuf s.data1 1 }

def refill (s : CompressState) : CompressState :=
  match s.input with
  | [] => s
  | next :: rest => { s with data2 := next, count := 2, input := rest }

def step (s : CompressState) : CompressState := refill (coder.emit s)

theorem scanRun_length_le (data1 data2 count : Nat) (input : List Nat)
    : (scanRun data1 data2 count input).2.2.length ≤ input.length := by
  induction input generalizing data2 count with
  | nil => simp [scanRun]
  | cons next rest ih =>
    unfold scanRun
    split
    . have := ih next (count + 1)
      simp only [List.length_cons]
      omega
    . simp

theorem emit_length_le (s : CompressState) : (coder.emit s).input.length ≤ s.input.length := by
  have hscan := scanRun_length_le s.data1 s.data2 s.count s.input
  unfold emit
  split
  . generalize scanRun s.data1 s.data2 s.count s.input = res at *
    obtain ⟨data2, count, input⟩ := res
    dsimp only at *
    split
    . split
      . simp
      . simp only [List.length_cons] at hscan
        dsimp only
        omega
    . exact hscan
  . exact Nat.le_refl _

theorem emit_count_le (s : CompressState) : (coder.emit s).count ≤ 1 := by
  unfold emit
  split
  . generalize scanRun s.data1 s.data2 s.count s.input = res
    obtain ⟨data2, count, input⟩ := res
    dsimp only
    split
    . split <;> simp
    . simp
  . simp

theorem step_length_lt (s : CompressState) (h : 2 ≤ (coder.step s).count)
    : (coder.step s).input.length < s.input.length := by
  have hlen := coder.emit_length_le s
  have hcount := coder.emit_count_le s
  unfold step refill at *
  split at h
  . omega
  . next hinput =>
    simp only [hinput, List.length_cons] at *
    omega

def compressLoop (s : CompressState) : CompressState :=
  if 2 ≤ (coder.step s).count then
    compressLoop (coder.step s)
  else
    coder.step s
termination_by s.input.length
decreasing_by exact coder.step_length_lt s ‹_›

def innerCompress (inbuf : Bytes) : Bytes :=
  match readValues coder.eachValSize inbuf with
  | [] => []
  | [data1] => coder.writeNonRuns [] data1 1
  | data1 :: data2 :: input =>
    let s := coder.compressLoop { data1, data2, count := 2, input, outbuf := [] }
    if s.count = 1 then coder.writeNonRuns s.outbuf s.data1 1 else s.outbuf

/-- One turn of the decompression loop: the unread input and the extended output. -/
def innerDecompressStep (inbuf outbuf : Bytes) : Bytes × Bytes :=
  let w : Nat := coder.eachValSize
  let symbol := LittleEndian.decode (inbuf.take w)
  let inbuf := inbuf.drop w
  if coder.marker = symbol then
    let markerCount := (inbuf.headD 0).toNat
    if markerCount ≥ coder.minRepeats then
      let (symbolCount, inbuf) :=
        if markerCount &&& 0x80 ≠ 0 then
          ((markerCount <<< 8 + ((inbuf.drop 1).headD 0).toNat) &&& 0x7fff, inbuf.drop 2)
        else
          (markerCount, inbuf.drop 1)
      let symbol := LittleEndian.decode (inbuf.take w)
      (inbuf.drop w, outbuf ++ LittleEndian.pack w (List.replicate symbolCount symbol))
    else
      (inbuf.drop 1, outbuf ++ LittleEndian.pack w (List.replicate markerCount symbol))
  else
    (inbuf, outbuf ++ LittleEndian.encode w symbol)

theorem innerDecompressStep_length_le (inbuf outbuf : Bytes)
    : (coder.innerDecompressStep inbuf outbuf).1.length ≤ inbuf.length - coder.eachValSize := by
  unfold innerDecompressStep
  dsimp only
  split
  . split
    . split <;> simp only [List.length_drop] <;> omega
    . simp only [List.length_drop]
      omega
  . simp only [List.length_drop]
    omega

def innerDecompressLoop (inbuf outbuf : Bytes) : Bytes :=
  if coder.eachValSize ≤ (coder.innerDecompressStep inbuf outbuf).1.length then
    innerDecompressLoop (coder.innerDecompressStep inbuf outbuf).1
      (coder.innerDecompressStep inbuf outbuf).2
  else
    (coder.innerDecompressStep inbuf outbuf).2
termination_by inbuf.length
decreasing_by
  have hle := coder.innerDecompressStep_length_le inbuf outbuf
  have hpos := coder.eachValSize.pos
  omega

def innerDecompress (inbuf : Bytes) : Bytes := coder.innerDecompressLoop inbuf []

def innerDecompressCount (inbuf : Bytes) : Nat :=
  let w : Nat := coder.eachValSize
  let symbol := LittleEndian.decode (inbuf.take w)
  let inbuf := inbuf.drop w
  if coder.marker = symbol then
    let markerCount := (inbuf.headD 0).toNat
    if markerCount ≥ coder.minRepeats then
      if markerCount &&& 0x80 ≠ 0 then
        (markerCount <<< 8 + ((inbuf.drop 1).headD 0).toNat) &&& 0x7fff
      else
        markerCount
    else
      markerCount
  else
    1

def innerDecompressOutcnt (inbuf : Bytes) (outcnt : Nat) : Nat :=
  if coder.eachValSize ≤ (coder.innerDecompressStep inbuf []).1.length then
    innerDecompressOutcnt (coder.innerDecompressStep inbuf []).1
      (outcnt + coder.innerDecompressCount inbuf)
  else
    outcnt + coder.innerDecompressCount inbuf
termination_by inbuf.length
decreasing_by
  have hle := coder.innerDecompressStep_length_le inbuf []
  have hpos := coder.eachValSize.pos
  omega

def innerDecompressSize (inbuf : Bytes) : Nat :=
  coder.eachValSize * coder.innerDecompressOutcnt inbuf 0

end RleCoder

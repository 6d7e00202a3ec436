import OpenGauss.Cstore.Compress.Impl.Rle

/-!
This module contains the implementation of `DeltaCoder` of `compress_kits.cpp`, of the byte count of
a difference in `compress_kits.h` and of `Delta2Codec` of `time_series_compress.cpp`.
-/

/-- The value of a 64 bit signed expression whose mathematical value is `x`. -/
def int64 (x : Int) : Int := x.bmod (256 ^ 8)

def deltaMasks : List Nat :=
  [0x00000000000000FF, 0x000000000000FF00, 0x0000000000FF0000, 0x00000000FF000000,
    0x000000FF00000000, 0x0000FF0000000000, 0x00FF000000000000, 0xFF00000000000000]

def deltaDiff (mindata maxdata : Int) : Nat := ((maxdata - mindata) % 2 ^ 64).toNat

def deltaGetBytesNum (mindata maxdata : Int) : ValSize :=
  let diff := deltaDiff mindata maxdata
  if diff = 0 ∨ diff = 1 then
    ⟨1, by decide, by decide⟩
  else
    go diff 7 (by decide)
where
  /-- The `while` over the masks, from byte `i` downwards. -/
  go (diff : Nat) (i : Nat) (h : i < 8) : ValSize :=
    match i with
    | 0 => ⟨1, by decide, by decide⟩
    | i + 1 =>
      if diff &&& deltaMasks.getD (i + 1) 0 = 0 then
        go diff i (by omega)
      else
        ⟨i + 2, by omega, by omega⟩

structure DeltaCoder where
  mindata : Int
  outValSize : ValSize

namespace DeltaCoder

def forCompress (mindata maxdata : Int) : DeltaCoder where
  mindata := mindata
  outValSize := deltaGetBytesNum mindata maxdata

def forDecompress (mindata : Int) (rawValSize : ValSize) : DeltaCoder where
  mindata := mindata
  outValSize := rawValSize

variable (coder : DeltaCoder)

def getBound (dataNum : Nat) : Nat := coder.outValSize * dataNum

def doDeltaOperation (plusDelta : Bool) (inValSize : ValSize) (inbuf : Bytes) : Bytes :=
  (readValues inValSize inbuf).flatMap fun (rdata : Nat) =>
    let wdata := if plusDelta then int64 (rdata + coder.mindata) else int64 (rdata - coder.mindata)
    LittleEndian.encodeInt coder.outValSize wdata

/-- An empty result stands for the return code 0; the switch has no case for one byte values. -/
def compress (inbuf : Bytes) (outsize : Nat) (inDataSize : ValSize) : Bytes :=
  if outsize < coder.getBound (inbuf.length / inDataSize) then
    []
  else if inDataSize.val = 1 then
    []
  else
    coder.doDeltaOperation false inDataSize inbuf

def decompress (inbuf : Bytes) (inDataSize : ValSize) : Bytes :=
  if inDataSize.val = 8 then
    []
  else
    coder.doDeltaOperation true inDataSize inbuf

end DeltaCoder

namespace Delta2Codec

def delta2KeyMax : Nat := 0x8

def delta2KeySignMask : Nat := 0x7

def delta2ByteLenMask : Nat := 0x8

structure Delta2KeyMap where
  min : Nat
  max : Nat
  byteLen : Nat

def keyMap : List Delta2KeyMap :=
  [{ min := 0, max := 0, byteLen := 1 },
    { min := 0, max := 0xFF, byteLen := 1 },
    { min := 0xFF, max := 0xFFFF, byteLen := 2 },
    { min := 0xFFFF, max := 0xFFFFFF, byteLen := 3 },
    { min := 0xFFFFFF, max := 0xFFFFFFFF, byteLen := 4 },
    { min := 0xFFFFFFFF, max := 0xFFFFFFFFFF, byteLen := 5 },
    { min := 0xFFFFFFFFFF, max := 0xFFFFFFFFFFFF, byteLen := 6 },
    { min := 0xFFFFFFFFFFFF, max := 0xFFFFFFFFFFFFFF, byteLen := 7 },
    { min := 0xFFFFFFFFFFFFFF, max := 0x7FFFFFFFFFFFFFFF, byteLen := 8 }]

def keyMapAt (index : Nat) : Delta2KeyMap := keyMap.getD index ⟨0, 0, 0⟩

/-- The first test of the loop of `find_key`, made with `value` and with `-value`. -/
def InBand (row : Delta2KeyMap) (value : Int) : Prop :=
  (value ≤ row.max ∧ value > row.min) ∨ (int64 (-value) ≤ row.max ∧ int64 (-value) > row.min)

instance (row : Delta2KeyMap) (value : Int) : Decidable (InBand row value) :=
  inferInstanceAs (Decidable (_ ∨ _))

def AboveBand (row : Delta2KeyMap) (value : Int) : Prop :=
  value > row.max ∨ int64 (-value) > row.max

instance (row : Delta2KeyMap) (value : Int) : Decidable (AboveBand row value) :=
  inferInstanceAs (Decidable (_ ∨ _))

theorem keyMapAt_min_succ {index : Nat} (h : index < 8)
    : (keyMapAt (index + 1)).min = (keyMapAt index).max := by
  interval_cases index <;> rfl

theorem inBand_succ_of_above {index : Nat} (value : Int) (h : index < 8)
    (habove : AboveBand (keyMapAt index) value) (hnot : ¬ AboveBand (keyMapAt (index + 1)) value)
    : InBand (keyMapAt (index + 1)) value := by
  unfold InBand AboveBand at *
  rw [keyMapAt_min_succ h]
  omega

/-- How many turns are left at most: a turn that goes up is never followed by one that goes down. -/
def findKeyTurns (value : Int) (index : Nat) : Nat :=
  if index < 8 then
    if InBand (keyMapAt index) value then
      1
    else if AboveBand (keyMapAt index) value then
      9 - index
    else
      index + 2
  else
    0

theorem findKeyTurns_succ_lt {value : Int} {index : Nat} (h : index < 8)
    (hband : ¬ InBand (keyMapAt index) value) (habove : AboveBand (keyMapAt index) value)
    : findKeyTurns value (index + 1) < findKeyTurns value index := by
  have hnext := inBand_succ_of_above value h habove
  unfold findKeyTurns
  rw [if_pos h, if_neg hband, if_pos habove]
  split
  . split
    . omega
    . next hnot =>
      rw [if_pos (by_contra fun h => hnot (hnext h))]
      omega
  . omega

theorem findKeyTurns_pred_lt {value : Int} {index : Nat} (h : index < 8)
    (hband : ¬ InBand (keyMapAt index) value) (habove : ¬ AboveBand (keyMapAt index) value)
    : findKeyTurns value ((index + 0xFFFF) % 0x10000) < findKeyTurns value index := by
  unfold findKeyTurns
  rw [if_pos h, if_neg hband, if_neg habove]
  cases index with
  | zero =>
    have hwrap : ¬ (0 + 0xFFFF) % 0x10000 < 8 := by decide
    rw [if_neg hwrap]
    omega
  | succ index =>
    have hmod : (index + 1 + 0xFFFF) % 0x10000 = index := by omega
    have hnext := fun habove' => hband (inBand_succ_of_above value (by omega) habove' habove)
    rw [hmod, if_pos (by omega), if_neg hnext]
    split
    . omega
    . omega

def findKeyLoop (value : Int) (keySign index : Nat) : Nat :=
  if index < 8 then
    if InBand (keyMapAt index) value then
      index + keySign
    else if AboveBand (keyMapAt index) value then
      findKeyLoop value keySign (index + 1)
    else
      findKeyLoop value keySign ((index + 0xFFFF) % 0x10000)
  else
    delta2KeyMax
termination_by findKeyTurns value index
decreasing_by
  . exact findKeyTurns_succ_lt ‹_› ‹_› ‹_›
  . exact findKeyTurns_pred_lt ‹_› ‹_› ‹_›

def findKey (value : Int) : Nat :=
  findKeyLoop value (if value ≤ 0 then 0 else delta2KeyMax) (delta2KeyMax / 2)

def writeValue (value : Int) : Bytes :=
  if value = 0 then
    [0]
  else
    let key := findKey value
    if key = delta2KeyMax then
      UInt8.ofNat key :: LittleEndian.encodeInt (keyMapAt delta2KeyMax).byteLen value
    else
      let keyIdx := key &&& delta2KeySignMask
      let sign : Int := if key &&& delta2ByteLenMask = 0 then -1 else 1
      let writeData := (keyMapAt keyIdx).max &&& LittleEndian.wrap 8 (sign * value)
      UInt8.ofNat key :: LittleEndian.encode (keyMapAt keyIdx).byteLen writeData

def readValue (inbuf : Bytes) : Int × Bytes :=
  let key := (inbuf.headD 0).toNat
  let inbuf := inbuf.drop 1
  if key = 0 then
    (0, inbuf)
  else if key = delta2KeyMax then
    (int64 (LittleEndian.decode (inbuf.take 8)), inbuf.drop 8)
  else
    let sign : Int := if key &&& delta2ByteLenMask = 0 then -1 else 1
    let delta2Bytes := key &&& delta2KeySignMask
    (sign * LittleEndian.decode (inbuf.take delta2Bytes), inbuf.drop delta2Bytes)

def compressLoop (preData preDelta : Int) (input : List Nat) : Bytes :=
  match input with
  | [] => []
  | next :: input =>
    let readData := int64 next
    let writeData := int64 (int64 (readData - preData) - preDelta)
    writeValue writeData ++ compressLoop readData (int64 (preDelta + writeData)) input

def compress (inbuf : Bytes) (dataSize : ValSize) : Bytes :=
  match readValues dataSize inbuf with
  | [] => []
  | [first] => LittleEndian.encodeInt dataSize (int64 first)
  | first :: second :: input =>
    let writeData := int64 (int64 second - int64 first)
    LittleEndian.encodeInt dataSize (int64 first) ++ writeValue writeData
      ++ compressLoop (int64 second) writeData input

theorem readValue_length_lt {inbuf : Bytes} (h : 0 < inbuf.length)
    : (readValue inbuf).2.length < inbuf.length := by
  unfold readValue
  dsimp only
  split
  . simp only [List.length_drop]
    omega
  . split
    . simp only [List.length_drop]
      omega
    . simp only [List.length_drop]
      omega

def decompressLoop (dataSize : ValSize) (writeData preDelta : Int) (inbuf : Bytes) : Bytes :=
  if 0 < inbuf.length then
    let delta2Val := (readValue inbuf).1
    let writeData := int64 (writeData + int64 (preDelta + delta2Val))
    LittleEndian.encodeInt dataSize writeData
      ++ decompressLoop dataSize writeData (int64 (preDelta + delta2Val)) (readValue inbuf).2
  else
    []
termination_by inbuf.length
decreasing_by exact readValue_length_lt ‹_›

def decompress (inbuf : Bytes) (dataSize : ValSize) : Bytes :=
  let writeData := int64 (LittleEndian.decode (inbuf.take dataSize))
  let first := LittleEndian.encodeInt dataSize writeData
  let inbuf := inbuf.drop dataSize
  if 0 < inbuf.length then
    let preDelta := (readValue inbuf).1
    let writeData := int64 (writeData + preDelta)
    first ++ LittleEndian.encodeInt dataSize writeData
      ++ decompressLoop dataSize writeData preDelta (readValue inbuf).2
  else
    first

end Delta2Codec

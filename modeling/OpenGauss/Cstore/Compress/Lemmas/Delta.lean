import OpenGauss.Cstore.Compress.Lemmas.Rle

/-!
This module contains the verification of `DeltaCoder`.
-/

open LittleEndian List

theorem deltaMasks_eq {i : Nat} (h : i < 8) : deltaMasks.getD i 0 = 255 <<< (8 * i) := by
  interval_cases i <;> simp [deltaMasks]

theorem and_mask_eq_zero_iff {diff i : Nat} (hlt : diff < 256 ^ (i + 1))
    : diff &&& 255 <<< (8 * i) = 0 ↔ diff < 256 ^ i := by
  have hpow : 256 ^ i = 2 ^ (8 * i) := by
    rw [Nat.pow_mul]
  constructor
  . intro hmask
    have hbyte : diff >>> (8 * i) < 2 ^ 8 := by
      rw [Nat.shiftRight_eq_div_pow, ← hpow]
      apply Nat.div_lt_of_lt_mul
      rwa [Nat.pow_succ] at hlt
    have hshift : (diff &&& 255 <<< (8 * i)) >>> (8 * i) = diff >>> (8 * i) := by
      rw [Nat.shiftRight_and_distrib, Nat.shiftLeft_shiftRight]
      exact Nat.and_two_pow_sub_one_of_lt_two_pow hbyte
    rw [hmask, Nat.zero_shiftRight, Nat.shiftRight_eq_div_pow, ← hpow] at hshift
    have hpos : 0 < 256 ^ i := Nat.pow_pos (by decide)
    exact (Nat.div_eq_zero_iff_lt hpos).mp hshift.symm
  . intro hsmall
    rw [hpow] at hsmall
    apply Nat.eq_of_testBit_eq
    intro bit
    rw [Nat.testBit_and, Nat.testBit_shiftLeft, Nat.zero_testBit]
    by_cases hbit : 8 * i ≤ bit
    . have : diff < 2 ^ bit := Nat.lt_of_lt_of_le hsmall (Nat.pow_le_pow_right (by decide) hbit)
      rw [Nat.testBit_lt_two_pow this, Bool.false_and]
    . simp [hbit]

theorem deltaGetBytesNum_go_spec (diff i : Nat) (h : i < 8) (hlt : diff < 256 ^ (i + 1))
    : diff < 256 ^ (deltaGetBytesNum.go diff i h).val ∧ (deltaGetBytesNum.go diff i h).val ≤ i + 1 ∧
      ((deltaGetBytesNum.go diff i h).val = 1 ∨ 256 ^ ((deltaGetBytesNum.go diff i h).val - 1) ≤ diff) := by
  induction i with
  | zero => exact ⟨hlt, Nat.le_refl _, Or.inl rfl⟩
  | succ i ih =>
    unfold deltaGetBytesNum.go
    rw [deltaMasks_eq h]
    split
    . next hmask =>
      rw [and_mask_eq_zero_iff hlt] at hmask
      obtain ⟨hdiff, hle, hmin⟩ := ih (by omega) hmask
      exact ⟨hdiff, by omega, hmin⟩
    . next hmask =>
      rw [and_mask_eq_zero_iff hlt] at hmask
      exact ⟨hlt, Nat.le_refl _, Or.inr (Nat.le_of_not_lt hmask)⟩

theorem deltaDiff_lt (mindata maxdata : Int) : deltaDiff mindata maxdata < 256 ^ 8 := by
  unfold deltaDiff
  omega

theorem lt_deltaGetBytesNum (mindata maxdata : Int)
    : deltaDiff mindata maxdata < 256 ^ (deltaGetBytesNum mindata maxdata).val := by
  unfold deltaGetBytesNum
  dsimp only
  split
  . next h =>
    rw [Nat.pow_one]
    omega
  . exact (deltaGetBytesNum_go_spec _ 7 _ (deltaDiff_lt ..)).1

theorem deltaGetBytesNum_le {mindata maxdata : Int} {w : ValSize}
    (h : deltaDiff mindata maxdata < 256 ^ w.val) : (deltaGetBytesNum mindata maxdata).val ≤ w := by
  have hpos := w.pos
  unfold deltaGetBytesNum
  dsimp only
  split
  . exact hpos
  . obtain ⟨_, _, hone | hmin⟩ := deltaGetBytesNum_go_spec _ 7 (by decide) (deltaDiff_lt mindata maxdata)
    . omega
    . have := (Nat.pow_lt_pow_iff_right (by decide)).mp (Nat.lt_of_le_of_lt hmin h)
      omega

theorem readValues_packInt {w : ValSize} {xs : List Int} (hne : xs ≠ [])
    : readValues w (packInt w xs) = xs.map (wrap w) := by
  rw [packInt_eq_pack]
  apply readValues_pack
  . simpa using hne
  . intro v hv
    obtain ⟨x, _, rfl⟩ := mem_map.mp hv
    exact wrap_lt ..

namespace DeltaCoder

open LittleEndian

variable {xs : List Int} {w : ValSize} {mindata maxdata : Int}

theorem encodeInt_int64_sub {o : ValSize} (h : o.val ≤ w) (x mindata : Int)
    : encodeInt o (int64 (wrap w x - mindata)) = encodeInt o (x - mindata) := by
  unfold int64
  rw [encodeInt_bmod o.le_eight, wrap_cast]
  apply encodeInt_congr
  have hdvd : (256 : Int) ^ o.val ∣ 256 ^ w.val := pow_dvd_pow 256 h
  exact Int.ModEq.sub_right mindata (Int.ModEq.of_dvd hdvd (Int.mod_modEq x _))

theorem doDeltaOperation_sub {coder : DeltaCoder} (hne : xs ≠ []) (hsize : coder.outValSize.val ≤ w)
    : coder.doDeltaOperation false w (packInt w xs)
        =
      packInt coder.outValSize (xs.map (· - coder.mindata)) := by
  unfold doDeltaOperation
  rw [readValues_packInt hne]
  simp only [packInt, flatMap_map, Bool.false_eq_true, ↓reduceIte, encodeInt_int64_sub hsize]

theorem doDeltaOperation_add {coder : DeltaCoder} {o : ValSize} (hne : xs ≠ [])
    (hfits : ∀ x ∈ xs, 0 ≤ x - coder.mindata ∧ x - coder.mindata < 256 ^ o.val)
    : coder.doDeltaOperation true o (packInt o (xs.map (· - coder.mindata)))
        =
      packInt coder.outValSize xs := by
  unfold doDeltaOperation
  rw [readValues_packInt (by simpa using hne)]
  simp only [packInt, flatMap_map, map_map, ↓reduceIte]
  apply flatMap_congr
  intro x hx
  obtain ⟨hnonneg, hlt⟩ := hfits x hx
  rw [Function.comp_apply, wrap_of_lt hnonneg hlt, int64, encodeInt_bmod coder.outValSize.le_eight,
    Int.sub_add_cancel]

theorem sub_lt_pow_deltaGetBytesNum {x : Int} (hmin : mindata ≤ x) (hmax : x ≤ maxdata)
    (hdiff : maxdata - mindata < 256 ^ 8)
    : 0 ≤ x - mindata ∧ x - mindata < 256 ^ (deltaGetBytesNum mindata maxdata).val := by
  have hlt := lt_deltaGetBytesNum mindata maxdata
  have hval : (deltaDiff mindata maxdata : Int) = maxdata - mindata := by
    unfold deltaDiff
    omega
  have hlt' : (deltaDiff mindata maxdata : Int) < 256 ^ (deltaGetBytesNum mindata maxdata).val := by
    exact_mod_cast hlt
  omega

theorem compress_packInt (hne : xs ≠ []) (hsize : (deltaGetBytesNum mindata maxdata).val < w) {outsize : Nat}
    (hbound : (deltaGetBytesNum mindata maxdata).val * xs.length ≤ outsize)
    : (forCompress mindata maxdata).compress (packInt w xs) outsize w
        =
      packInt (deltaGetBytesNum mindata maxdata) (xs.map (· - mindata)) := by
  have hpos := (deltaGetBytesNum mindata maxdata).pos
  have hbound : (forCompress mindata maxdata).getBound ((packInt w xs).length / w) ≤ outsize := by
    rw [length_packInt, Nat.mul_div_cancel_left _ w.pos]
    exact hbound
  unfold compress
  rw [if_neg (by omega), if_neg (by omega)]
  exact doDeltaOperation_sub hne (Nat.le_of_lt hsize)

theorem decompress_packInt (hne : xs ≠ [])
    (hsize : (deltaGetBytesNum mindata maxdata).val < w) (hmin : ∀ x ∈ xs, mindata ≤ x)
    (hmax : ∀ x ∈ xs, x ≤ maxdata) (hdiff : maxdata - mindata < 256 ^ 8)
    : (forDecompress mindata w).decompress (packInt (deltaGetBytesNum mindata maxdata) (xs.map (· - mindata)))
        (deltaGetBytesNum mindata maxdata)
        =
      packInt w xs := by
  have hle := w.le_eight
  unfold decompress
  rw [if_neg (by omega)]
  apply doDeltaOperation_add hne
  intro x hx
  exact sub_lt_pow_deltaGetBytesNum (hmin x hx) (hmax x hx) hdiff

end DeltaCoder

structure IsInt64 (x : Int) : Prop where
  ge : -2 ^ 63 ≤ x
  lt : x < 2 ^ 63

theorem isInt64_int64 (x : Int) : IsInt64 (int64 x) := by
  have hlo := Int.le_bmod (x := x) (m := 256 ^ 8) (by decide)
  have hhi := Int.bmod_lt (x := x) (m := 256 ^ 8) (by decide)
  constructor
  . exact hlo
  . exact hhi

theorem int64_of_isInt64 {x : Int} (h : IsInt64 x) : int64 x = x := by
  apply Int.bmod_eq_of_le
  . have := h.ge
    norm_num
    omega
  . have := h.lt
    norm_num
    omega

theorem int64_int64_add (x y : Int) : int64 (int64 x + y) = int64 (x + y) := Int.bmod_add_bmod

theorem int64_add_int64 (x y : Int) : int64 (x + int64 y) = int64 (x + y) := Int.add_bmod_bmod

theorem int64_int64_sub (x y : Int) : int64 (int64 x - y) = int64 (x - y) := by
  rw [Int.sub_eq_add_neg, int64_int64_add, Int.sub_eq_add_neg]

namespace Delta2Codec

variable {value : Int} (w : ValSize)

section Key

theorem keyMapAt_max {index : Nat} (h : index ≤ 7) : (keyMapAt index).max = 256 ^ index - 1 := by
  interval_cases index <;> rfl

theorem keyMapAt_byteLen {index : Nat} (hpos : 1 ≤ index) (h : index ≤ 7)
    : (keyMapAt index).byteLen = index := by
  interval_cases index <;> rfl

theorem int64_neg (hvalue : IsInt64 value)
    : int64 (-value) = -value ∨ int64 (-value) = -2 ^ 63 := by
  have hge := hvalue.ge
  have hlt := hvalue.lt
  by_cases hmin : value = -2 ^ 63
  . right
    rw [hmin]
    decide
  . left
    apply int64_of_isInt64
    constructor
    . omega
    . omega

theorem InBand.natAbs {row : Delta2KeyMap} (h : InBand row value) (hvalue : IsInt64 value)
    : row.min < value.natAbs ∧ value.natAbs ≤ row.max := by
  unfold InBand at h
  rcases int64_neg hvalue with hneg | hneg
  . rw [hneg] at h
    omega
  . rw [hneg] at h
    omega

theorem findKeyLoop_cases (value : Int) (keySign index : Nat)
    : findKeyLoop value keySign index = delta2KeyMax ∨
      ∃ i, i < 8 ∧ InBand (keyMapAt i) value ∧ findKeyLoop value keySign index = i + keySign := by
  fun_induction findKeyLoop value keySign index with
  | case1 index h hband => exact Or.inr ⟨index, h, hband, rfl⟩
  | case2 index h hband habove ih => exact ih
  | case3 index h hband habove ih => exact ih
  | case4 index h => exact Or.inl rfl

theorem findKey_cases (hvalue : IsInt64 value)
    : findKey value = delta2KeyMax ∨ ∃ i, 1 ≤ i ∧ i ≤ 7 ∧ value.natAbs < 256 ^ i ∧
        findKey value = i + if value ≤ 0 then 0 else delta2KeyMax := by
  rcases findKeyLoop_cases value (if value ≤ 0 then 0 else delta2KeyMax) (delta2KeyMax / 2)
    with hmax | ⟨i, hi, hband, heq⟩
  . exact Or.inl hmax
  . obtain ⟨hmin, hmax⟩ := hband.natAbs hvalue
    have hpos : 1 ≤ i := by
      apply Nat.pos_of_ne_zero
      intro hzero
      rw [hzero] at hmin hmax
      exact absurd (Nat.lt_of_lt_of_le hmin hmax) (Nat.lt_irrefl 0)
    rw [keyMapAt_max (by omega)] at hmax
    have hpow : 0 < 256 ^ i := Nat.pow_pos (by decide)
    exact Or.inr ⟨i, hpos, by omega, by omega, heq⟩

theorem findKey_le (hvalue : IsInt64 value) : findKey value ≤ 15 := by
  rcases findKey_cases hvalue with hmax | ⟨i, _, hi, _, heq⟩
  . rw [hmax]
    decide
  . rw [heq]
    split
    . omega
    . unfold delta2KeyMax
      omega

end Key

section Value

theorem key_masks {i : Nat} (hpos : 1 ≤ i) (hi : i ≤ 7)
    : i &&& delta2KeySignMask = i ∧ i &&& delta2ByteLenMask = 0 ∧
      (i + delta2KeyMax) &&& delta2KeySignMask = i ∧ (i + delta2KeyMax) &&& delta2ByteLenMask ≠ 0 ∧
      (UInt8.ofNat i).toNat = i ∧ (UInt8.ofNat (i + delta2KeyMax)).toNat = i + delta2KeyMax := by
  interval_cases i <;> decide

theorem writeValue_small {i : Nat} (hne : value ≠ 0) (hpos : 1 ≤ i) (hi : i ≤ 7)
    (hlt : value.natAbs < 256 ^ i)
    (hkey : findKey value = i + if value ≤ 0 then 0 else delta2KeyMax)
    : writeValue value
        =
      UInt8.ofNat (i + if value ≤ 0 then 0 else delta2KeyMax) :: encode i value.natAbs := by
  obtain ⟨hneg, hnegSign, hposMask, hposSign, _, _⟩ := key_masks hpos hi
  have hmax : (256 ^ i - 1) &&& value.natAbs = value.natAbs := by
    have hpow : 256 ^ i = 2 ^ (8 * i) := by
      rw [Nat.pow_mul]
    rw [Nat.and_comm, hpow, Nat.and_two_pow_sub_one_eq_mod, ← hpow, Nat.mod_eq_of_lt hlt]
  have hle : 256 ^ i ≤ 256 ^ 7 := Nat.pow_le_pow_right (by decide) hi
  have hwrap : wrap 8 (value.natAbs : Int) = value.natAbs := by
    apply wrap_natCast
    omega
  unfold writeValue
  rw [if_neg hne, hkey]
  split
  . next hle0 =>
    have habs : -1 * value = (value.natAbs : Int) := by omega
    have hkeyne : i + 0 ≠ delta2KeyMax := by
      unfold delta2KeyMax
      omega
    rw [if_neg hkeyne]
    simp only [Nat.add_zero, hneg, hnegSign, ↓reduceIte, habs, hwrap, keyMapAt_max hi,
      keyMapAt_byteLen hpos hi, hmax]
  . next hle0 =>
    have habs : 1 * value = (value.natAbs : Int) := by omega
    have hkeyne : i + delta2KeyMax ≠ delta2KeyMax := by omega
    rw [if_neg hkeyne]
    simp only [hposMask, hposSign, ↓reduceIte, habs, hwrap, keyMapAt_max hi, keyMapAt_byteLen hpos hi, hmax]

theorem writeValue_large (hne : value ≠ 0) (hkey : findKey value = delta2KeyMax)
    : writeValue value = UInt8.ofNat delta2KeyMax :: encodeInt 8 value := by
  unfold writeValue
  rw [if_neg hne, hkey, if_pos rfl]
  rfl

theorem readValue_writeValue (hvalue : IsInt64 value) (tail : Bytes)
    : readValue (writeValue value ++ tail) = (value, tail) := by
  by_cases hne : value = 0
  . rw [hne]
    rfl
  . rcases findKey_cases hvalue with hkey | ⟨i, hpos, hi, hlt, hkey⟩
    . rw [writeValue_large hne hkey]
      have hbyte : (UInt8.ofNat delta2KeyMax).toNat = delta2KeyMax := by decide
      have hlen : (encodeInt 8 value).length = 8 := length_encodeInt 8 value
      have hread : int64 (decode (encodeInt 8 value)) = value := by
        unfold encodeInt
        rw [decode_encode_of_lt (wrap_lt 8 value)]
        apply toSigned_wrap
        . have := hvalue.ge
          norm_num
          omega
        . have := hvalue.lt
          norm_num
          omega
      unfold readValue
      simp only [cons_append, headD_cons, drop_succ_cons, drop_zero, hbyte]
      rw [if_neg (by decide), if_pos trivial, take_left' hlen, drop_left' hlen, hread]
    . obtain ⟨hneg, hnegSign, hposMask, hposSign, hnegByte, hposByte⟩ := key_masks hpos hi
      have hlen : (encode i value.natAbs).length = i := length_encode ..
      rw [writeValue_small hne hpos hi hlt hkey]
      unfold readValue
      simp only [cons_append, headD_cons, drop_succ_cons, drop_zero]
      split
      . next hle0 =>
        simp only [Nat.add_zero, hnegByte, hneg, hnegSign, ↓reduceIte]
        rw [if_neg (by omega), if_neg (by unfold delta2KeyMax; omega), take_left' hlen,
          drop_left' hlen, decode_encode_of_lt hlt]
        congr 1
        omega
      . next hle0 =>
        simp only [hposByte, hposMask, hposSign, ↓reduceIte]
        rw [if_neg (by unfold delta2KeyMax; omega), if_neg (by omega), take_left' hlen,
          drop_left' hlen, decode_encode_of_lt hlt]
        congr 1
        omega

theorem length_writeValue (hvalue : IsInt64 value)
    : 1 ≤ (writeValue value).length ∧ (writeValue value).length ≤ 9 := by
  by_cases hne : value = 0
  . rw [hne]
    decide
  . rcases findKey_cases hvalue with hkey | ⟨i, hpos, hi, hlt, hkey⟩
    . rw [writeValue_large hne hkey]
      simp
    . rw [writeValue_small hne hpos hi hlt hkey]
      simp only [length_cons, length_encode]
      omega

end Value

section RoundTrip

theorem encodeInt_int64 (v : Nat) : encodeInt w (int64 v) = encode w v := by
  unfold int64
  rw [encodeInt_bmod w.le_eight, encodeInt_natCast]

theorem int64_restore (preData preDelta readData : Int)
    : int64 (preData + int64 (preDelta + int64 (int64 (readData - preData) - preDelta)))
        =
      int64 readData := by
  rw [int64_int64_sub, int64_add_int64, ← Int.add_assoc, int64_add_int64]
  congr 1
  omega

theorem readValue_cons (hvalue : IsInt64 value) (tail : Bytes)
    : 0 < (writeValue value ++ tail).length ∧ readValue (writeValue value ++ tail) = (value, tail) := by
  have hlen := (length_writeValue hvalue).1
  constructor
  . rw [length_append]
    omega
  . exact readValue_writeValue hvalue tail

theorem decompressLoop_compressLoop (input : List Nat) (preData preDelta : Int)
    : decompressLoop w preData preDelta (compressLoop preData preDelta input) = pack w input := by
  induction input generalizing preData preDelta with
  | nil =>
    rw [compressLoop, decompressLoop]
    rfl
  | cons next input ih =>
    rw [compressLoop]
    generalize hwrite : int64 (int64 (int64 next - preData) - preDelta) = writeData
    have hvalue : IsInt64 writeData := by
      rw [← hwrite]
      exact isInt64_int64 _
    obtain ⟨hlen, hread⟩ := readValue_cons hvalue
      (compressLoop (int64 next) (int64 (preDelta + writeData)) input)
    rw [decompressLoop, if_pos hlen, hread]
    dsimp only
    have hrestore : int64 (preData + int64 (preDelta + writeData)) = int64 next := by
      rw [← hwrite, int64_restore, int64_of_isInt64 (isInt64_int64 next)]
    rw [hrestore, ih, encodeInt_int64, pack_cons]

theorem decompress_compress_pack {vals : List Nat} (hne : vals ≠ []) (hlt : ∀ v ∈ vals, v < 256 ^ w.val)
    : decompress (compress (pack w vals) w) w = pack w vals := by
  have hfirst (v : Nat) (hv : v < 256 ^ w.val) (tail : Bytes)
      : decode ((encode w v ++ tail).take w) = v := by
    rw [take_left' (length_encode ..), decode_encode_of_lt hv]
  have hrest (v : Nat) (tail : Bytes) : (encode w v ++ tail).drop w = tail :=
    drop_left' (length_encode ..)
  unfold compress
  rw [readValues_pack hne hlt]
  match vals with
  | [] => exact absurd rfl hne
  | [first] =>
    have hget := hfirst first (hlt first (by simp)) []
    have hdrop := hrest first []
    rw [append_nil] at hget hdrop
    unfold decompress
    simp only [encodeInt_int64, hget, hdrop]
    simp
  | first :: second :: input =>
    have hvalue := isInt64_int64 (int64 second - int64 first)
    obtain ⟨hlen, hread⟩ := readValue_cons hvalue
      (compressLoop (int64 second) (int64 (int64 second - int64 first)) input)
    have hsecond : int64 (int64 first + int64 (int64 second - int64 first)) = int64 second := by
      rw [int64_add_int64]
      rw [show int64 first + (int64 second - int64 first) = int64 second by omega]
      exact int64_of_isInt64 (isInt64_int64 second)
    unfold decompress
    simp only [encodeInt_int64, append_assoc, hfirst first (hlt first (by simp)), hrest, hread,
      if_pos hlen, hsecond, decompressLoop_compressLoop, pack_cons]

theorem length_compressLoop_le (input : List Nat) (preData preDelta : Int)
    : (compressLoop preData preDelta input).length ≤ 9 * input.length := by
  induction input generalizing preData preDelta with
  | nil => simp [compressLoop]
  | cons next input ih =>
    have hvalue := isInt64_int64 (int64 (int64 next - preData) - preDelta)
    have hlen := (length_writeValue hvalue).2
    have hrest := ih (int64 next) (int64 (preDelta + int64 (int64 (int64 next - preData) - preDelta)))
    rw [compressLoop]
    simp only [length_append, length_cons]
    omega

theorem length_compress_le (inbuf : Bytes)
    : (compress inbuf w).length ≤ 9 * (readValues w inbuf).length := by
  have hw := w.le_eight
  unfold compress
  split
  . simp
  . next first h =>
    rw [h, length_encodeInt, length_singleton]
    omega
  . next first second input h =>
    have hlen := (length_writeValue (isInt64_int64 (int64 second - int64 first))).2
    have hrest := length_compressLoop_le input (int64 second) (int64 (int64 second - int64 first))
    rw [h]
    simp only [length_append, length_encodeInt, length_cons]
    omega

/--
Every list of 64 bit integers comes back, in at most nine bytes for each; the search for the key ends
for every difference.
-/
theorem decompress_compress_delta2 (xs : List Int) (hne : xs ≠ [])
    : decompress (compress (LittleEndian.packInt 8 xs) int64Size) int64Size = LittleEndian.packInt 8 xs ∧
      (compress (LittleEndian.packInt 8 xs) int64Size).length ≤ xs.length * (8 + 1) ∧
      ∀ value, IsInt64 value → findKey value ≤ 15 := by
  have hvals : xs.map (LittleEndian.wrap 8) ≠ [] := by simpa using hne
  have hlt : ∀ v ∈ xs.map (LittleEndian.wrap 8), v < 256 ^ int64Size.val := by
    intro v hv
    obtain ⟨x, _, rfl⟩ := List.mem_map.mp hv
    exact LittleEndian.wrap_lt 8 x
  rw [LittleEndian.packInt_eq_pack]
  refine ⟨decompress_compress_pack int64Size hvals hlt, ?_, fun value hvalue => findKey_le hvalue⟩
  have hlen := length_compress_le int64Size (LittleEndian.pack 8 (xs.map (LittleEndian.wrap 8)))
  have hread := readValues_pack (w := int64Size) hvals hlt
  rw [show int64Size.val = 8 from rfl] at hread
  rw [hread, List.length_map] at hlen
  omega

theorem decompress_compress_extremes
    : let xs : List Int := [-2 ^ 63, 2 ^ 63 - 1, -2 ^ 63, 0, 255, 511, 65535 + 511, -2 ^ 63]
      decompress (compress (LittleEndian.packInt 8 xs) int64Size) int64Size = LittleEndian.packInt 8 xs ∧
        (compress (LittleEndian.packInt 8 xs) int64Size).length ≤ xs.length * (8 + 1) ∧
        ∀ value, IsInt64 value → findKey value ≤ 15 := by
  apply decompress_compress_delta2
  simp

end RoundTrip

end Delta2Codec

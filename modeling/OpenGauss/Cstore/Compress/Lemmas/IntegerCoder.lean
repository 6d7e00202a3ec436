import OpenGauss.Cstore.Compress.Lemmas.Delta

/-!
This module contains the verification of `IntegerCoder`.
-/

open LittleEndian List DeltaCoder

structure IsMinMax (xs : List Int) (min max : Int) : Prop where
  min_mem : min ∈ xs
  max_mem : max ∈ xs
  min_le : ∀ x ∈ xs, min ≤ x
  le_max : ∀ x ∈ xs, x ≤ max

theorem computeMinMaxVal_spec (first : Int) (vals : List Int)
    : IsMinMax (first :: vals) (computeMinMaxVal first vals).1 (computeMinMaxVal first vals).2 := by
  induction vals using List.reverseRecOn with
  | nil => exact ⟨by simp [computeMinMaxVal], by simp [computeMinMaxVal],
      by simp [computeMinMaxVal], by simp [computeMinMaxVal]⟩
  | append_singleton vals val ih =>
    unfold computeMinMaxVal at *
    rw [foldl_append, foldl_cons, foldl_nil]
    generalize vals.foldl _ _ = acc at *
    obtain ⟨hminMem, hmaxMem, hmin, hmax⟩ := ih
    have hminmax := hmin _ hmaxMem
    simp only [mem_cons] at *
    constructor
    . grind
    . grind
    . grind
    . grind

namespace IntegerCoder

variable (m : Methods)

section Decompress

namespace SwapState

structure WF (s : SwapState) : Prop where
  nextIn_ne_nextOut : s.nextInBuf ≠ some s.nextOutBuf
  prepared_iff : s.prepared = s.nextInBuf.isSome
  nextOutBuf_of_not_prepared : s.prepared = false → s.nextOutBuf = .out

theorem run_spec {s : SwapState} (hwf : s.WF) {inBuf data : Bytes} {outSize : Nat}
    {method : Bytes → Option Bytes} (hmethod : method (s.nextIn inBuf) = some data)
    (hsize : data.length ≤ outSize)
    : ∃ s', s.run inBuf outSize method = .ok s' ∧ s'.WF ∧ s'.nextIn inBuf = data := by
  obtain ⟨hne, hprep, hout⟩ := hwf
  obtain ⟨outBuf, tmpBuf, nextInBuf, nextInSize, nextOutBuf, nextOutSize, prepared⟩ := s
  unfold run
  rw [hmethod]
  refine ⟨_, by simp only [hsize, ↓reduceIte]; rfl, ?_⟩
  dsimp only at *
  cases prepared with
  | false =>
    have hout := hout rfl
    subst hout
    exact ⟨⟨by simp [prepareSwapBuf, store], by simp [prepareSwapBuf, store],
      by simp [prepareSwapBuf, store]⟩,
      by simp [prepareSwapBuf, nextIn, store]⟩
  | true =>
    obtain ⟨r, rfl⟩ := Option.isSome_iff_exists.mp hprep.symm
    cases r with
    | out =>
      cases nextOutBuf with
      | out => exact absurd rfl hne
      | tmp => exact ⟨⟨by simp [swapBuf, store], by simp [swapBuf, store], by simp [swapBuf, store]⟩,
          by simp [swapBuf, nextIn, store]⟩
    | tmp =>
      cases nextOutBuf with
      | out => exact ⟨⟨by simp [swapBuf, store], by simp [swapBuf, store], by simp [swapBuf, store]⟩,
          by simp [swapBuf, nextIn, store]⟩
      | tmp => exact absurd rfl hne

theorem run_ite_spec {s : SwapState} (hwf : s.WF) {inBuf data : Bytes} {outSize : Nat} {cond : Bool}
    {method : Bytes → Option Bytes} (hsize : data.length ≤ outSize)
    (hmethod : (if cond then method (s.nextIn inBuf) else some (s.nextIn inBuf)) = some data)
    : ∃ s', (if cond then s.run inBuf outSize method else .ok s) = .ok s' ∧ s'.WF ∧
      s'.nextIn inBuf = data := by
  cases cond with
  | false => exact ⟨s, rfl, hwf, by simpa using hmethod⟩
  | true => exact run_spec hwf hmethod hsize

theorem final_eq (s : SwapState) (inBuf : Bytes)
    : (if s.nextInBuf ≠ some .out then { s with outBuf := s.nextIn inBuf } else s).outBuf.take
        (if s.nextInBuf ≠ some .out then { s with outBuf := s.nextIn inBuf } else s).nextInSize
        =
      s.nextIn inBuf := by
  obtain ⟨outBuf, tmpBuf, nextInBuf, nextInSize, nextOutBuf, nextOutSize, prepared⟩ := s
  rcases nextInBuf with _ | _ | _ <;> simp [nextIn]

end SwapState

end Decompress

inductive LzMethod where
  | none
  | lz
  | zlib

def LzMethod.mode : LzMethod → Nat
  | .none => 0
  | .lz => cuLzCompressed
  | .zlib => cuZlibCompressed

structure Methods where
  delta : Bool
  rle : Bool
  lz : LzMethod

def Methods.modes (m : Methods) : Nat :=
  (if m.delta then cuDeltaCompressed else 0) ||| (if m.rle then cuRLECompressed else 0) ||| m.lz.mode

theorem hasMode_delta : hasMode m.modes cuDeltaCompressed = m.delta := by
  rcases m with ⟨_ | _, _ | _, _ | _ | _⟩ <;> rfl

theorem hasMode_rle : hasMode m.modes cuRLECompressed = m.rle := by
  rcases m with ⟨_ | _, _ | _, _ | _ | _⟩ <;> rfl

theorem hasMode_lz : hasMode m.modes cuLzCompressed = (m.lz matches .lz) := by
  rcases m with ⟨_ | _, _ | _, _ | _ | _⟩ <;> rfl

theorem hasMode_zlib : hasMode m.modes cuZlibCompressed = (m.lz matches .zlib) := by
  rcases m with ⟨_ | _, _ | _, _ | _ | _⟩ <;> rfl

section Compress

def CompressState.Consistent (s : CompressState) : Prop := s.out.modes ≠ 0 → s.out.buf = s.currIn

theorem adopt_cases (s : CompressState) (cmpr : Bytes) (mode : Nat)
    : s.adopt cmpr mode = s ∨ (cmpr ≠ [] ∧ cmpr.length < s.currIn.length ∧
        s.adopt cmpr mode = { currIn := cmpr, out := { buf := cmpr, modes := s.out.modes ||| mode } }) := by
  unfold CompressState.adopt
  split
  . next h => exact Or.inr ⟨length_pos_iff.mp h.1, h.2, rfl⟩
  . exact Or.inl rfl

variable (coder : IntegerCoder) {lz4 : Lz4} {zlib : Zlib}

theorem compressDelta_spec {xs : List Int} (hminmax : IsMinMax xs coder.minVal coder.maxVal)
    (hrange : coder.maxVal - coder.minVal < 256 ^ coder.eachValSize.val)
    : ∃ (delta : Bool) (ys : List Int),
      let res := coder.compressDelta (packInt coder.eachValSize xs)
      ys ≠ [] ∧ res.1.Consistent ∧ res.1.currIn = packInt res.2 ys ∧
      res.1.out.modes = (if delta then cuDeltaCompressed else 0) ∧
      res.1.currIn.length ≤ (packInt coder.eachValSize xs).length ∧
      res.2 = (if delta then deltaGetBytesNum coder.minVal coder.maxVal else coder.eachValSize) ∧
      (if delta then
          (forDecompress coder.minVal coder.eachValSize).decompress res.1.currIn res.2
        else
          res.1.currIn) = packInt coder.eachValSize xs := by
  have hne : xs ≠ [] := ne_nil_of_mem hminmax.min_mem
  have hle : coder.eachValSize.val ≤ 8 := coder.eachValSize.le_eight
  have hrange8 : coder.maxVal - coder.minVal < 256 ^ 8 :=
    Int.lt_of_lt_of_le hrange (pow_le_pow_right₀ (by decide) hle)
  have hnonneg : coder.minVal ≤ coder.maxVal := hminmax.min_le _ hminmax.max_mem
  have hsize : (deltaGetBytesNum coder.minVal coder.maxVal).val ≤ coder.eachValSize := by
    apply deltaGetBytesNum_le
    have hval : (deltaDiff coder.minVal coder.maxVal : Int) = coder.maxVal - coder.minVal := by
      unfold deltaDiff
      omega
    have : (deltaDiff coder.minVal coder.maxVal : Int) < 256 ^ coder.eachValSize.val := by
      omega
    exact_mod_cast this
  unfold compressDelta
  dsimp only
  split
  . next hlt =>
    have hbound : (deltaGetBytesNum coder.minVal coder.maxVal).val * xs.length
        ≤ (packInt coder.eachValSize xs).length := by
      rw [length_packInt]
      exact Nat.mul_le_mul_right _ hsize
    have hcmpr := compress_packInt hne hlt hbound
    split
    . refine ⟨true, xs.map (· - coder.minVal), by simpa using hne, fun _ => rfl, hcmpr, rfl, ?_, rfl, ?_⟩
      . dsimp only
        omega
      . dsimp only
        rw [if_pos rfl, hcmpr]
        exact decompress_packInt hne hlt hminmax.min_le hminmax.le_max hrange8
    . exact ⟨false, xs, hne, fun h => absurd rfl h, rfl, rfl, Nat.le_refl _, rfl, rfl⟩
  . next hlt =>
    have heq : deltaGetBytesNum coder.minVal coder.maxVal = coder.eachValSize := by
      apply ValSize.ext
      exact Nat.le_antisymm hsize (Nat.le_of_not_lt hlt)
    have hout : (forCompress coder.minVal coder.maxVal).outValSize = coder.eachValSize := heq
    rw [hout]
    exact ⟨false, xs, hne, fun h => absurd rfl h, rfl, rfl, Nat.le_refl _, rfl, rfl⟩

theorem compressRle_spec {s : CompressState} {outValSize : ValSize} {ys : List Int} (hne : ys ≠ [])
    (hcurr : s.currIn = packInt outValSize ys) (hcons : s.Consistent)
    : ∃ rle : Bool,
      let s' := coder.compressRle s outValSize
      s'.Consistent ∧ s'.out.modes = s.out.modes ||| (if rle then cuRLECompressed else 0) ∧
      s'.currIn.length ≤ s.currIn.length ∧
      (if rle then (RleCoder.v1 outValSize).innerDecompress s'.currIn else s'.currIn) = s.currIn := by
  dsimp only
  unfold compressRle
  split
  . obtain hsame | ⟨_, hlt, hadopt⟩ :=
      adopt_cases s ((RleCoder.v1 outValSize).innerCompress s.currIn) cuRLECompressed
    . rw [hsame]
      exact ⟨false, hcons, by simp, Nat.le_refl _, rfl⟩
    . rw [hadopt]
      refine ⟨true, fun _ => rfl, rfl, Nat.le_of_lt hlt, ?_⟩
      rw [if_pos rfl, hcurr]
      apply RleCoder.innerDecompress_innerCompress_packInt
      exact hne
  . exact ⟨false, hcons, by simp, Nat.le_refl _, rfl⟩

def LzMethod.undo (lz4 : Lz4) (zlib : Zlib) (outSize : Nat) (buf : Bytes) : LzMethod → Option Bytes
  | .none => some buf
  | .lz => LZ4Wrapper.decompress lz4 buf
  | .zlib => zlib.inflate buf outSize

theorem compressLzZlib_spec (hlz4 : lz4.Lossless) (hzlib : zlib.Lossless) (input : CompressionArg1)
    {s : CompressState} (hcons : s.Consistent) (hlen : s.currIn.length ≤ input.buf.length)
    : ∃ last : LzMethod,
      let s' := compressLzZlib lz4 zlib input s
      s'.Consistent ∧ s'.out.modes = s.out.modes ||| last.mode ∧
      last.undo lz4 zlib input.buf.length s'.currIn = some s.currIn := by
  have hsz := input.sz_lt
  dsimp only
  unfold compressLzZlib
  split
  . exact ⟨.none, hcons, by simp [LzMethod.mode], rfl⟩
  . obtain hsame | ⟨hne, _, hadopt⟩ :=
      adopt_cases s (LZ4Wrapper.compress lz4 ⟨input.level⟩ s.currIn) cuLzCompressed
    . rw [hsame]
      exact ⟨.none, hcons, by simp [LzMethod.mode], rfl⟩
    . rw [hadopt]
      refine ⟨.lz, fun _ => rfl, rfl, ?_⟩
      exact LZ4Wrapper.decompress_compress hlz4 _ (by omega) hne
  . obtain hsame | ⟨hne, _, hadopt⟩ :=
      adopt_cases s ((zlib.deflate input.level s.currIn).getD []) cuZlibCompressed
    . rw [hsame]
      exact ⟨.none, hcons, by simp [LzMethod.mode], rfl⟩
    . rw [hadopt]
      refine ⟨.zlib, fun _ => rfl, rfl, ?_⟩
      cases hdeflate : zlib.deflate input.level s.currIn with
      | none =>
        rw [hdeflate] at hne
        exact absurd rfl hne
      | some out => exact hzlib.inflate input.level s.currIn out _ hdeflate hlen

theorem compressSteps_spec (hlz4 : lz4.Lossless) (hzlib : zlib.Lossless) {xs : List Int}
    (hminmax : IsMinMax xs coder.minVal coder.maxVal)
    (hrange : coder.maxVal - coder.minVal < 256 ^ coder.eachValSize.val) (input : CompressionArg1)
    (hbuf : input.buf = packInt coder.eachValSize xs)
    : ∃ (m : Methods) (afterLz afterRle : Bytes),
      let s := coder.compressSteps lz4 zlib input
      s.Consistent ∧ s.out.modes = m.modes ∧
      m.lz.undo lz4 zlib input.buf.length s.currIn = some afterLz ∧
      afterLz.length ≤ input.buf.length ∧
      (if m.rle then
          (RleCoder.v1 (if m.delta then deltaGetBytesNum coder.minVal coder.maxVal
            else coder.eachValSize)).innerDecompress afterLz
        else
          afterLz) = afterRle ∧
      afterRle.length ≤ input.buf.length ∧
      (if m.delta then
          (forDecompress coder.minVal coder.eachValSize).decompress afterRle
            (deltaGetBytesNum coder.minVal coder.maxVal)
        else
          afterRle) = input.buf := by
  obtain ⟨delta, ys, hys, hcons1, hcurr1, hmodes1, hlen1, hout, hdelta⟩ :=
    coder.compressDelta_spec hminmax hrange
  rw [← hbuf] at hcons1 hcurr1 hmodes1 hlen1 hout hdelta
  unfold compressSteps
  generalize coder.compressDelta input.buf = res at *
  obtain ⟨s1, outValSize⟩ := res
  dsimp only at *
  obtain ⟨rle, hcons2, hmodes2, hlen2, hrle⟩ := coder.compressRle_spec hys hcurr1 hcons1
  obtain ⟨last, hcons3, hmodes3, hlast⟩ :=
    compressLzZlib_spec hlz4 hzlib input hcons2 (by omega)
  refine ⟨⟨delta, rle, last⟩, (coder.compressRle s1 outValSize).currIn, s1.currIn, hcons3, ?_, hlast,
    Nat.le_trans hlen2 hlen1, ?_, hlen1, ?_⟩
  . rw [hmodes3, hmodes2, hmodes1, Methods.modes]
  . rw [← hout]
    exact hrle
  . rw [← hdelta]
    cases delta with
    | false => rfl
    | true =>
      rw [if_pos rfl] at hout
      rw [hout]

end Compress

section RoundTrip

variable {lz4 : Lz4} {zlib : Zlib}

theorem decompressLzZlib_spec (hinit : zlib.inflateInit = true) (m : Methods) {s : SwapState}
    (hwf : s.WF) {inBuf data : Bytes} {outSize : Nat} (hsize : data.length ≤ outSize)
    (hundo : m.lz.undo lz4 zlib outSize (s.nextIn inBuf) = some data)
    : ∃ s', decompressLzZlib lz4 zlib m.modes inBuf outSize s = .ok s' ∧ s'.WF ∧ s'.nextIn inBuf = data := by
  unfold decompressLzZlib
  rw [hasMode_lz, hasMode_zlib, hinit]
  cases hlz : m.lz with
  | none =>
    rw [hlz] at hundo
    exact ⟨s, rfl, hwf, by simpa [LzMethod.undo] using hundo⟩
  | lz =>
    rw [hlz] at hundo
    exact SwapState.run_spec hwf hundo hsize
  | zlib =>
    rw [hlz] at hundo
    simp only [Bool.false_eq_true, ↓reduceIte]
    apply SwapState.run_spec hwf
    . exact hundo
    . exact hsize

theorem decompress_spec (hinit : zlib.inflateInit = true) {decoder decoder' : IntegerCoder}
    {m : Methods} {buf inBuf afterLz afterRle result : Bytes} {outSize : Nat}
    (hparse : decoder.parseMinMaxVal { buf, modes := m.modes } = (decoder', inBuf))
    (hlz : m.lz.undo lz4 zlib outSize inBuf = some afterLz) (hlzSize : afterLz.length ≤ outSize)
    (hrle : (if m.rle then
        (RleCoder.v1 (if m.delta then deltaGetBytesNum decoder'.minVal decoder'.maxVal
          else decoder'.eachValSize)).innerDecompress afterLz
      else
        afterLz) = afterRle)
    (hrleSize : afterRle.length ≤ outSize)
    (hdelta : (if m.delta then
        (forDecompress decoder'.minVal decoder'.eachValSize).decompress afterRle
          (deltaGetBytesNum decoder'.minVal decoder'.maxVal)
      else
        afterRle) = result)
    (hsize : result.length ≤ outSize)
    : decoder.decompress lz4 zlib { buf, modes := m.modes } outSize = .ok result := by
  unfold decompress
  rw [hparse]
  dsimp only
  generalize hs : SwapState.mk [] [] none inBuf.length .out 0 false = s
  have hwf : s.WF := by
    rw [← hs]
    exact ⟨by simp, rfl, fun _ => rfl⟩
  have hnext : s.nextIn inBuf = inBuf := by
    rw [← hs]
    simp [SwapState.nextIn]
  rw [← hnext] at hlz
  obtain ⟨s1, hok1, hwf1, hnext1⟩ := decompressLzZlib_spec hinit m hwf hlzSize hlz
  obtain ⟨s2, hok2, hwf2, hnext2⟩ : ∃ s', decoder'.decompressRle m.modes
      (deltaGetBytesNum decoder'.minVal decoder'.maxVal) inBuf outSize s1 = .ok s' ∧ s'.WF ∧
      s'.nextIn inBuf = afterRle := by
    unfold decompressRle
    rw [hasMode_rle, hasMode_delta]
    apply SwapState.run_ite_spec hwf1 hrleSize
    rw [hnext1, ← hrle]
    split <;> rfl
  obtain ⟨s3, hok3, _, hnext3⟩ : ∃ s', decoder'.decompressDelta m.modes
      (deltaGetBytesNum decoder'.minVal decoder'.maxVal) inBuf outSize s2 = .ok s' ∧ s'.WF ∧
      s'.nextIn inBuf = result := by
    unfold decompressDelta
    rw [hasMode_delta]
    apply SwapState.run_ite_spec hwf2 hsize
    rw [hnext2, ← hdelta]
    split <;> rfl
  rw [hok1]
  simp only [bind, Except.bind, hok2, hok3]
  rw [SwapState.final_eq, hnext3]

/-- The bytes that `compress` hands out for the data `curr` that the adopted methods have left. -/
def finish (coder : IntegerCoder) (delta : Bool) (curr : Bytes) : Bytes :=
  if delta then coder.insertMinMaxVal curr else curr

theorem compress_end {coder : IntegerCoder} {s : CompressState} (hcons : s.Consistent) {m : Methods}
    (hmodes : s.out.modes = m.modes) {out : CompressionArg2}
    (hout : out = if s.out.modes &&& cuDeltaCompressed ≠ 0 then
      { s.out with buf := coder.insertMinMaxVal s.out.buf } else s.out)
    {n : Nat} (hn : n = if out.modes ≠ 0 then out.buf.length else 0) (hpos : 0 < n)
    : out.modes = m.modes ∧ out.buf.take n = coder.finish m.delta s.currIn := by
  have hflag : (s.out.modes &&& cuDeltaCompressed ≠ 0) ↔ m.delta = true := by
    rw [hmodes, ← hasMode_delta, hasMode, decide_eq_true_iff]
  simp only [hflag] at hout
  have hout' : out.modes = s.out.modes := by
    rw [hout]
    split <;> rfl
  rw [hout'] at hn
  split at hn
  . next hne =>
    refine ⟨by rw [hout', hmodes], ?_⟩
    rw [hn, take_length, hout, finish, ← hcons hne]
    split <;> rfl
  . omega

theorem parseMinMaxVal_finish {coder decoder : IntegerCoder} (hsize : decoder.eachValSize = coder.eachValSize)
    (hmin : decodeInt (encodeInt coder.eachValSize coder.minVal) = coder.minVal)
    (hmax : decodeInt (encodeInt coder.eachValSize coder.maxVal) = coder.maxVal) (curr : Bytes)
    : ∃ decoder' : IntegerCoder,
      decoder.parseMinMaxVal { buf := coder.finish m.delta curr, modes := m.modes } = (decoder', curr) ∧
      decoder'.eachValSize = coder.eachValSize ∧
      (m.delta = true → decoder'.minVal = coder.minVal ∧ decoder'.maxVal = coder.maxVal) := by
  unfold parseMinMaxVal finish
  rw [hasMode_delta]
  cases m.delta with
  | false => exact ⟨decoder, rfl, hsize, by simp⟩
  | true =>
    refine ⟨{ decoder with minVal := coder.minVal, maxVal := coder.maxVal }, ?_, hsize, fun _ => ⟨rfl, rfl⟩⟩
    have htake : (coder.insertMinMaxVal curr).take coder.eachValSize.val
        = encodeInt coder.eachValSize coder.minVal := by
      rw [insertMinMaxVal, append_assoc, take_left' (length_encodeInt ..)]
    have hdrop : (coder.insertMinMaxVal curr).drop coder.eachValSize.val
        = encodeInt coder.eachValSize coder.maxVal ++ curr := by
      rw [insertMinMaxVal, append_assoc, drop_left' (length_encodeInt ..)]
    simp only [↓reduceIte, hsize, htake, hmin, hdrop, take_left' (length_encodeInt ..), hmax]
    rw [insertMinMaxVal, drop_left' (by simp; omega)]

theorem ensureMinMaxVal_eachValSize (coder : IntegerCoder) (inBuf : Bytes)
    : (coder.ensureMinMaxVal inBuf).eachValSize = coder.eachValSize := by
  unfold ensureMinMaxVal
  split <;> rfl

theorem signedValues_pack {w : ValSize} {vals : List Nat} (hlt : ∀ v ∈ vals, v < 256 ^ w.val)
    : signedValues w (pack w vals) = vals.map (toSigned w) := by
  unfold signedValues
  rw [length_pack, Nat.mul_div_cancel_left _ w.pos]
  have := unpack_pack hlt []
  rw [append_nil] at this
  rw [this]

theorem packInt_toSigned (w : Nat) (vals : List Nat) : packInt w (vals.map (toSigned w)) = pack w vals := by
  unfold packInt pack
  rw [flatMap_map]
  simp only [encodeInt_toSigned]

theorem ensureMinMaxVal_isMinMax {coder : IntegerCoder} {vals : List Nat} (hne : vals ≠ [])
    (hlt : ∀ v ∈ vals, v < 256 ^ coder.eachValSize.val)
    (hminmax : coder.isValid = true →
      IsMinMax (vals.map (toSigned coder.eachValSize)) coder.minVal coder.maxVal)
    : IsMinMax (vals.map (toSigned coder.eachValSize))
        (coder.ensureMinMaxVal (pack coder.eachValSize vals)).minVal
        (coder.ensureMinMaxVal (pack coder.eachValSize vals)).maxVal := by
  unfold ensureMinMaxVal
  split
  . next hvalid => exact hminmax hvalid
  . unfold computeIntMinMaxVal
    rw [signedValues_pack hlt]
    cases vals with
    | nil => exact absurd rfl hne
    | cons v vals => exact computeMinMaxVal_spec _ _

theorem restores_of_compress (hlz4 : lz4.Lossless) (hzlib : zlib.Lossless)
    (coder decoder : IntegerCoder) (hsize : decoder.eachValSize = coder.eachValSize)
    (input : CompressionArg1) (vals : List Nat) (hne : vals ≠ [])
    (hlt : ∀ v ∈ vals, v < 256 ^ coder.eachValSize.val)
    (hbuf : input.buf = pack coder.eachValSize vals)
    (hminmax : coder.isValid = true →
      IsMinMax (vals.map (toSigned coder.eachValSize)) coder.minVal coder.maxVal)
    (n : Nat) (out : CompressionArg2) (hcompress : coder.compress lz4 zlib input = (n, out))
    (hpos : 0 < n)
    : decoder.decompress lz4 zlib { buf := out.buf.take n, modes := out.modes } input.buf.length
        =
      .ok input.buf := by
  have htrue := ensureMinMaxVal_isMinMax hne hlt hminmax
  have hw := coder.ensureMinMaxVal_eachValSize input.buf
  unfold compress at hcompress
  rw [← hbuf] at htrue
  rw [← hw] at htrue hlt hbuf hsize
  generalize coder.ensureMinMaxVal input.buf = coder' at *
  obtain ⟨vmin, hvmin, hminVal⟩ := mem_map.mp htrue.min_mem
  obtain ⟨vmax, hvmax, hmaxVal⟩ := mem_map.mp htrue.max_mem
  have hrange : coder'.maxVal - coder'.minVal < 256 ^ coder'.eachValSize.val := by
    rw [← hminVal, ← hmaxVal]
    exact toSigned_sub_lt ..
  have hmin : decodeInt (encodeInt coder'.eachValSize coder'.minVal) = coder'.minVal := by
    rw [← hminVal]
    exact decodeInt_encodeInt_toSigned (hlt vmin hvmin)
  have hmax : decodeInt (encodeInt coder'.eachValSize coder'.maxVal) = coder'.maxVal := by
    rw [← hmaxVal]
    exact decodeInt_encodeInt_toSigned (hlt vmax hvmax)
  rw [← packInt_toSigned] at hbuf
  obtain ⟨m, afterLz, afterRle, hcons, hmodes, hlz, hlzSize, hrle, hrleSize, hdelta⟩ :=
    coder'.compressSteps_spec hlz4 hzlib htrue hrange input hbuf
  obtain ⟨hn, hout⟩ := Prod.mk.inj hcompress
  rw [hout] at hn
  obtain ⟨houtModes, houtBuf⟩ := compress_end hcons hmodes hout.symm hn.symm hpos
  obtain ⟨decoder', hparse, hsize', hminmax'⟩ := parseMinMaxVal_finish m hsize hmin hmax
    (coder'.compressSteps lz4 zlib input).currIn
  rw [houtModes, houtBuf]
  refine decompress_spec hzlib.inflateInit hparse hlz hlzSize ?_ hrleSize ?_ (Nat.le_refl _)
  . rw [← hrle, hsize']
    cases hd : m.delta with
    | false => rfl
    | true => rw [(hminmax' hd).1, (hminmax' hd).2]
  . rw [← hdelta, hsize']
    cases hd : m.delta with
    | false => rfl
    | true => rw [(hminmax' hd).1, (hminmax' hd).2]

theorem decompress_of_compress (hlz4 : lz4.Lossless) (hzlib : zlib.Lossless)
    (coder decoder : IntegerCoder) (hsize : decoder.eachValSize = coder.eachValSize)
    (input : CompressionArg1) (vals : List Nat) (hne : vals ≠ [])
    (hlt : ∀ v ∈ vals, v < 256 ^ coder.eachValSize.val)
    (hbuf : input.buf = pack coder.eachValSize vals)
    (hminmax : coder.isValid = true →
      IsMinMax (vals.map (toSigned coder.eachValSize)) coder.minVal coder.maxVal)
    (n : Nat) (out : CompressionArg2) (hcompress : coder.compress lz4 zlib input = (n, out))
    (hpos : 0 < n)
    : decoder.decompress lz4 zlib { buf := out.buf.take n, modes := out.modes } input.buf.length
        =
      .ok input.buf := by
  exact restores_of_compress hlz4 hzlib coder decoder hsize input vals hne hlt hbuf
    hminmax n out hcompress hpos

theorem decompress_congr_modes {modes modes' : Nat}
    (h : ∀ flag ∈ [cuDeltaCompressed, cuRLECompressed, cuLzCompressed, cuZlibCompressed],
      hasMode modes flag = hasMode modes' flag)
    (decoder : IntegerCoder) (buf : Bytes) (outSize : Nat)
    : decoder.decompress lz4 zlib { buf, modes } outSize
        =
      decoder.decompress lz4 zlib { buf, modes := modes' } outSize := by
  simp only [forall_mem_cons] at h
  obtain ⟨hdelta, hrle, hlz, hzlib, _⟩ := h
  simp only [decompress, parseMinMaxVal, decompressLzZlib, decompressRle, decompressDelta, hdelta, hrle,
    hlz, hzlib]

theorem decompress_uncompressed {modes : Nat}
    (h : ∀ flag ∈ [cuDeltaCompressed, cuRLECompressed, cuLzCompressed, cuZlibCompressed],
      hasMode modes flag = false)
    (decoder : IntegerCoder) (buf : Bytes) (outSize : Nat)
    : decoder.decompress lz4 zlib { buf, modes } outSize = .ok buf := by
  simp only [forall_mem_cons] at h
  obtain ⟨hdelta, hrle, hlz, hzlib, _⟩ := h
  simp [decompress, parseMinMaxVal, decompressLzZlib, decompressRle, decompressDelta, hdelta, hrle,
    hlz, hzlib, bind, Except.bind, SwapState.nextIn]

/-- LZ4 on inputs of fewer than 13 bytes: one sequence of literals behind its token. -/
def literalLz4 : Lz4 where
  compressDefault src := if src.length < 13 then UInt8.ofNat (src.length * 16) :: src else []
  compressHC _ src := if src.length < 13 then UInt8.ofNat (src.length * 16) :: src else []
  decompressSafe data capacity :=
    match data with
    | [] => none
    | _ :: literals => if literals.length ≤ capacity then some literals else none

theorem literalLz4_lossless : literalLz4.Lossless := by
  constructor
  . intro src hne
    simp only [literalLz4] at *
    split at hne
    . next h => simp [h]
    . exact absurd rfl hne
  . intro level src hne
    simp only [literalLz4] at *
    split at hne
    . next h => simp [h]
    . exact absurd rfl hne

def storedZlib : Zlib where
  deflate _ src := some src
  inflateInit := true
  inflate data capacity := if data.length ≤ capacity then some data else none

theorem storedZlib_lossless : storedZlib.Lossless := by
  refine ⟨rfl, ?_⟩
  intro level src out outsize hdeflate hle
  obtain rfl : src = out := by simpa [storedZlib] using hdeflate
  simp [storedZlib, hle]

def int16Coder : IntegerCoder where
  adoptRle := true
  minVal := 0
  maxVal := 0
  isValid := false
  eachValSize := ⟨2, by decide, by decide⟩
  eachValSize_mem := by decide

def eightInt16 : CompressionArg1 where
  buf := pack 2 [0xFFFB, 0xFFFB, 0xFFFB, 0xFFFB, 0xFFFB, 0xFFFB, 0xFFFB, 4]
  compression := .middle
  compresslevel := 1
  sz_lt := by decide

/-- Seven times -5 and a 4, with both delta and RLE adopted. -/
theorem decompress_of_compress_eightInt16
    : int16Coder.compress literalLz4 storedZlib eightInt16
        = (8, ⟨[0xFB, 0xFF, 4, 0, 0xFE, 7, 0, 9], 9⟩) ∧
      int16Coder.decompress literalLz4 storedZlib
        ⟨[0xFB, 0xFF, 4, 0, 0xFE, 7, 0, 9].take 8, 9⟩ eightInt16.buf.length = .ok eightInt16.buf := by
  have hcompress : int16Coder.compress literalLz4 storedZlib eightInt16
      = (8, ⟨[0xFB, 0xFF, 4, 0, 0xFE, 7, 0, 9], 9⟩) := by
    decide +kernel
  refine ⟨hcompress, ?_⟩
  exact decompress_of_compress literalLz4_lossless storedZlib_lossless int16Coder int16Coder rfl
    eightInt16 [0xFFFB, 0xFFFB, 0xFFFB, 0xFFFB, 0xFFFB, 0xFFFB, 0xFFFB, 4] (by simp) (by decide) rfl
    (by simp [int16Coder]) 8 _ hcompress (by decide)

end RoundTrip

end IntegerCoder

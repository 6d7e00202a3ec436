import OpenGauss.Cstore.Compress.Impl.Numeric

/-!
This module contains the verification of `RleCoder`.
-/

open LittleEndian List

abbrev Run := Nat × Nat

namespace Run

def expand (runs : List Run) : List Nat := runs.flatMap fun run => List.replicate run.2 run.1

@[simp]
theorem expand_nil : expand [] = [] := rfl

@[simp]
theorem expand_cons (run : Run) (runs : List Run)
    : expand (run :: runs) = List.replicate run.2 run.1 ++ expand runs := by
  simp [expand]

@[simp]
theorem expand_append (lhs rhs : List Run) : expand (lhs ++ rhs) = expand lhs ++ expand rhs := by
  simp [expand]

end Run

@[ext]
theorem ValSize.ext {v w : ValSize} (h : v.val = w.val) : v = w := by
  cases v
  cases w
  simpa using h

theorem readValues_pack {w : ValSize} {vals : List Nat} (hne : vals ≠ []) (hlt : ∀ v ∈ vals, v < 256 ^ w.val)
    : readValues w (pack w vals) = vals := by
  have hpos : 0 < vals.length := length_pos_iff.mpr hne
  unfold readValues
  rw [length_pack, Nat.mul_div_cancel_left _ w.pos, Nat.max_eq_right hpos]
  have := unpack_pack hlt []
  rwa [append_nil] at this

namespace RleCoder

section RoundTrip

variable (coder : RleCoder) {s : CompressState} {vals : List Nat} (outbuf : Bytes) {repeats : Nat}
variable {inbuf : Bytes} {symbol : Nat}

theorem marker_lt : coder.marker < 256 ^ coder.eachValSize.val := by
  obtain ⟨⟨val, hpos, hle⟩, _, _, _⟩ := coder
  simp only [marker]
  interval_cases val <;> simp [rleMarker]

def encodeRun (run : Run) : Bytes := coder.writeRepeats [] run.1 run.2

structure ValidRun (run : Run) : Prop where
  pos : 0 < run.2
  le_max : run.2 ≤ rleMaxRepeats

theorem validRun_one (symbol : Nat) : ValidRun (symbol, 1) := ⟨Nat.one_pos, by simp [rleMaxRepeats]⟩

theorem writeNonRuns_eq (symbol repeats : Nat)
    : coder.writeNonRuns outbuf symbol repeats = outbuf ++ coder.writeNonRuns [] symbol repeats := by
  unfold writeNonRuns
  split <;> simp

theorem writeRepeats_eq (symbol repeats : Nat)
    : coder.writeRepeats outbuf symbol repeats = outbuf ++ coder.encodeRun (symbol, repeats) := by
  unfold encodeRun writeRepeats
  split
  . simp [writeRuns]
  . rw [writeNonRuns_eq]

theorem writeNonRuns_one (symbol : Nat)
    : coder.writeNonRuns outbuf symbol 1 = outbuf ++ coder.encodeRun (symbol, 1) := by
  have hmin := coder.one_lt_minRepeats
  unfold encodeRun writeRepeats
  rw [if_neg (by omega), writeNonRuns_eq]

section Compress

/-- The values that have been read and not been written yet, and those still to be read. -/
def CompressState.pending (s : CompressState) : List Nat :=
  if s.count = 2 then
    s.data1 :: s.data2 :: s.input
  else if s.count = 1 then
    s.data1 :: s.input
  else
    s.input

structure CompressInv (vals : List Nat) (s : CompressState) : Prop where
  written : ∃ runs : List Run, (∀ run ∈ runs, ValidRun run) ∧
    s.outbuf = runs.flatMap coder.encodeRun ∧ vals = Run.expand runs ++ s.pending
  input_nil : s.count = 0 → s.input = []

theorem scanRun_spec (data count : Nat) (input : List Nat) (hmax : count ≤ rleMaxRepeats)
    : ∀ data2 count' input', scanRun data data count input = (data2, count', input') →
      count ≤ count' ∧ count' ≤ rleMaxRepeats ∧
      (data = data2 → List.replicate count data ++ input = List.replicate count' data ++ input' ∧
        (count' < rleMaxRepeats → input' = [])) ∧
      (data ≠ data2 → count < count' ∧
        List.replicate count data ++ input = List.replicate (count' - 1) data ++ data2 :: input') := by
  induction input generalizing count with
  | nil =>
    intro data2 count' input' h
    simp only [scanRun, Prod.mk.injEq] at h
    obtain ⟨rfl, rfl, rfl⟩ := h
    simp [hmax]
  | cons next rest ih =>
    intro data2 count' input' h
    unfold scanRun at h
    split at h
    . next hcont =>
      by_cases hnext : data = next
      . subst hnext
        have hcount : count + 1 ≤ rleMaxRepeats := hcont.2
        obtain ⟨hle, hle', heq, hneq⟩ := ih (count + 1) hcount data2 count' input' h
        have happ : List.replicate count data ++ data :: rest
            = List.replicate (count + 1) data ++ rest := by
          rw [replicate_succ', append_assoc, singleton_append]
        rw [happ]
        refine ⟨by omega, hle', heq, fun hne => ?_⟩
        exact ⟨by have := (hneq hne).1; omega, (hneq hne).2⟩
      . -- the scan stops in front of `rest`, with the new symbol in `data2`
        have hstop : scanRun data next (count + 1) rest = (next, count + 1, rest) := by
          cases rest with
          | nil => rfl
          | cons _ _ => simp [scanRun, hnext]
        rw [hstop] at h
        simp only [Prod.mk.injEq] at h
        obtain ⟨rfl, rfl, rfl⟩ := h
        refine ⟨by omega, hcont.2, fun heq => absurd heq hnext, fun _ => ⟨by omega, ?_⟩⟩
        rw [Nat.add_sub_cancel]
    . next hstop =>
      have hfull : ¬ count < rleMaxRepeats := fun hlt => hstop ⟨rfl, hlt⟩
      simp only [Prod.mk.injEq] at h
      obtain ⟨rfl, rfl, rfl⟩ := h
      simp [hmax, hfull]

theorem CompressInv.push {s' : CompressState} {run : Run}
    (hinv : CompressInv coder vals s) (hrun : ValidRun run)
    (hout : s'.outbuf = s.outbuf ++ coder.encodeRun run)
    (hpending : s.pending = List.replicate run.2 run.1 ++ s'.pending)
    (hnil : s'.count = 0 → s'.input = [])
    : CompressInv coder vals s' := by
  obtain ⟨⟨runs, hvalid, hbuf, hvals⟩, _⟩ := hinv
  refine ⟨⟨runs ++ [run], ?_, ?_, ?_⟩, hnil⟩
  . rw [forall_mem_append, forall_mem_singleton]
    exact ⟨hvalid, hrun⟩
  . simp [hout, hbuf]
  . simp [hvals, hpending]

theorem emit_cases (hcount : s.count = 2)
    : ∃ run, ValidRun run ∧ (coder.emit s).outbuf = s.outbuf ++ coder.encodeRun run ∧
      s.pending = List.replicate run.2 run.1 ++ (coder.emit s).pending ∧
      ((coder.emit s).count = 0 → (coder.emit s).input = []) ∧
      (run.2 < rleMaxRepeats → (coder.emit s).pending.head? ≠ some run.1) := by
  have hpending : s.pending = s.data1 :: s.data2 :: s.input := by
    simp [CompressState.pending, hcount]
  unfold emit
  split
  . next heq =>
    have hmax : s.count ≤ rleMaxRepeats := by
      rw [hcount]
      decide
    have hspec := scanRun_spec s.data1 s.count s.input hmax
    rw [← heq]
    generalize scanRun s.data1 s.data1 s.count s.input = res at *
    obtain ⟨data2, count, input⟩ := res
    obtain ⟨hle, hle', hsame, hdiff⟩ := hspec data2 count input rfl
    rw [← heq] at hpending
    have hpending : s.pending = List.replicate s.count s.data1 ++ s.input := by
      simp [hpending, hcount, List.replicate]
    dsimp only
    split
    . next hdata =>
      have hrun : ValidRun (s.data1, count) := ⟨by dsimp only; omega, hle'⟩
      obtain ⟨happend, hstop⟩ := hsame hdata
      rw [happend] at hpending
      refine ⟨(s.data1, count), hrun, ?_, ?_, ?_, ?_⟩
      . split
        . exact coder.writeRepeats_eq ..
        . exact coder.writeRepeats_eq ..
      . split
        . simpa [CompressState.pending] using hpending
        . simpa [CompressState.pending] using hpending
      . split
        . simp
        . simp
      . intro hlt
        have hnil : input = [] := hstop hlt
        subst hnil
        simp [CompressState.pending]
    . next hdata =>
      have hrun : ValidRun (s.data1, count - 1) :=
        ⟨by have := (hdiff hdata).1; dsimp only; omega, by dsimp only; omega⟩
      rw [(hdiff hdata).2] at hpending
      refine ⟨(s.data1, count - 1), hrun, ?_, ?_, ?_, ?_⟩
      . exact coder.writeRepeats_eq ..
      . simpa [CompressState.pending] using hpending
      . simp
      . intro _
        simpa [CompressState.pending, eq_comm] using hdata
  . next hne =>
    refine ⟨(s.data1, 1), validRun_one s.data1, ?_, ?_, ?_, ?_⟩
    . exact coder.writeNonRuns_one ..
    . simpa [CompressState.pending] using hpending
    . simp
    . intro _
      simpa [CompressState.pending, eq_comm] using hne

theorem emit_inv (hcount : s.count = 2) (hinv : CompressInv coder vals s)
    : CompressInv coder vals (coder.emit s) := by
  obtain ⟨run, hrun, hout, hpending, hnil, _⟩ := coder.emit_cases hcount
  exact hinv.push coder hrun hout hpending hnil

theorem outbuf_refill (s : CompressState) : (refill s).outbuf = s.outbuf := by
  unfold refill
  split
  . rfl
  . rfl

theorem pending_refill (hcount : s.count ≤ 1) (hnil : s.count = 0 → s.input = [])
    : (refill s).pending = s.pending := by
  unfold refill
  split
  . rfl
  . next next rest hinput =>
    have hone : s.count = 1 := by
      simp only [hinput, reduceCtorEq, imp_false] at hnil
      omega
    simp [CompressState.pending, hone, hinput]

theorem refill_inv (hcount : s.count ≤ 1) (hinv : CompressInv coder vals s)
    : CompressInv coder vals (refill s) := by
  obtain ⟨runs, hvalid, hbuf, hvals⟩ := hinv.written
  refine ⟨⟨runs, hvalid, ?_, ?_⟩, ?_⟩
  . rw [outbuf_refill, hbuf]
  . rw [pending_refill hcount hinv.input_nil, hvals]
  . unfold refill
    split
    . exact hinv.input_nil
    . simp

theorem step_inv (hcount : s.count = 2) (hinv : CompressInv coder vals s)
    : CompressInv coder vals (coder.step s) :=
  refill_inv coder (coder.emit_count_le s) (emit_inv coder hcount hinv)

theorem step_count (s : CompressState)
    : (coder.step s).count = 2 ∨ ((coder.step s).count ≤ 1 ∧ (coder.step s).input = []) := by
  have hcount := coder.emit_count_le s
  unfold step refill
  split
  . next h => exact Or.inr ⟨hcount, h⟩
  . exact Or.inl rfl

theorem compressLoop_rule {P : CompressState → Prop}
    (hstep : ∀ s : CompressState, s.count = 2 → P s → P (coder.step s))
    (hcount : s.count = 2) (hinit : P s)
    : P (coder.compressLoop s) ∧ (coder.compressLoop s).count ≤ 1 ∧ (coder.compressLoop s).input = [] := by
  fun_induction compressLoop coder s with
  | case1 s h ih =>
    have hagain : (coder.step s).count = 2 := by
      rcases coder.step_count s with h2 | h1
      . exact h2
      . omega
    exact ih hagain (hstep s hcount hinit)
  | case2 s h =>
    rcases coder.step_count s with h2 | h1
    . omega
    . exact ⟨hstep s hcount hinit, h1⟩

theorem compressLoop_inv (hcount : s.count = 2) (hinv : CompressInv coder vals s)
    : CompressInv coder vals (coder.compressLoop s) ∧ (coder.compressLoop s).count ≤ 1 ∧
      (coder.compressLoop s).input = [] := by
  apply coder.compressLoop_rule
  . intro s hcount hinv
    exact coder.step_inv hcount hinv
  . exact hcount
  . exact hinv

theorem innerCompress_spec (inbuf : Bytes)
    : ∃ runs : List Run, (∀ run ∈ runs, ValidRun run) ∧
      coder.innerCompress inbuf = runs.flatMap coder.encodeRun ∧
      Run.expand runs = readValues coder.eachValSize inbuf := by
  unfold innerCompress
  split
  . next h => exact ⟨[], by simp, rfl, by simp [h]⟩
  . next data1 h =>
    refine ⟨[(data1, 1)], ?_, ?_, by simp [h]⟩
    . rw [forall_mem_singleton]
      exact validRun_one data1
    . rw [writeNonRuns_one]
      simp
  . next data1 data2 input h =>
    rw [h]
    generalize hs : CompressState.mk data1 data2 2 input [] = s
    have hinit : CompressInv coder (data1 :: data2 :: input) s := by
      rw [← hs]
      exact ⟨⟨[], by simp, rfl, rfl⟩, by simp⟩
    obtain ⟨hinv, hcount, hinput⟩ := compressLoop_inv coder (by rw [← hs]) hinit
    obtain ⟨runs, hvalid, hbuf, hvals⟩ := hinv.written
    dsimp only
    split
    . next hone =>
      refine ⟨runs ++ [((coder.compressLoop s).data1, 1)], ?_, ?_, ?_⟩
      . rw [forall_mem_append, forall_mem_singleton]
        exact ⟨hvalid, validRun_one _⟩
      . rw [writeNonRuns_one, hbuf]
        simp
      . rw [hvals]
        simp [CompressState.pending, hone, hinput]
    . next hzero =>
      refine ⟨runs, hvalid, hbuf, ?_⟩
      have hcount : (coder.compressLoop s).count = 0 := by omega
      rw [hvals]
      simp [CompressState.pending, hcount, hinput]

end Compress

section Decompress

def decompressRest (inbuf outbuf : Bytes) : Bytes :=
  if coder.eachValSize ≤ inbuf.length then
    coder.innerDecompressLoop inbuf outbuf
  else
    outbuf

theorem innerDecompressLoop_eq (inbuf outbuf : Bytes)
    : coder.innerDecompressLoop inbuf outbuf
        =
      coder.decompressRest (coder.innerDecompressStep inbuf outbuf).1
        (coder.innerDecompressStep inbuf outbuf).2 := by
  rw [innerDecompressLoop, decompressRest]

theorem innerDecompressStep_plain (hlt : symbol < 256 ^ coder.eachValSize.val)
    (hmarker : coder.marker ≠ symbol) (tail outbuf : Bytes)
    : coder.innerDecompressStep (encode coder.eachValSize symbol ++ tail) outbuf
        =
      (tail, outbuf ++ encode coder.eachValSize symbol) := by
  simp [innerDecompressStep, decode_encode_of_lt hlt, hmarker]

theorem innerDecompressStep_marker (hrepeats : repeats < coder.minRepeats) (tail outbuf : Bytes)
    : coder.innerDecompressStep (encode coder.eachValSize coder.marker ++ UInt8.ofNat repeats :: tail) outbuf
        =
      (tail, outbuf ++ pack coder.eachValSize (List.replicate repeats coder.marker)) := by
  have hmin := coder.minRepeats_le
  have hbyte : (UInt8.ofNat repeats).toNat = repeats := by
    rw [UInt8.toNat_ofNat']
    omega
  have hnot : ¬ coder.minRepeats ≤ repeats := by omega
  simp [innerDecompressStep, decode_encode_of_lt coder.marker_lt, hbyte, hnot]

theorem and_0x80_eq_zero_iff {byte : Nat} (h : byte < 256) : byte &&& 0x80 = 0 ↔ byte < 128 := by
  have hand : byte &&& 0x80 = (byte.testBit 7).toNat * 2 ^ 7 := Nat.and_two_pow byte 7
  rw [hand, Nat.testBit_eq_decide_div_mod_eq]
  simp only [Nat.reducePow, Nat.mul_eq_zero, Bool.toNat_eq_zero, decide_eq_false_iff_not]
  omega

theorem longRepeats_bytes (h : repeats ≤ rleMaxRepeats)
    : (UInt8.ofNat ((repeats ||| 0x8000) >>> 8)).toNat = 128 + repeats / 256 ∧
      (UInt8.ofNat (repeats &&& 0xff)).toNat = repeats % 256 := by
  unfold rleMaxRepeats at h
  have hor : repeats ||| 0x8000 = 0x8000 + repeats := by
    have := Nat.two_pow_add_eq_or_of_lt (show repeats < 2 ^ 15 by omega) 1
    rw [Nat.or_comm]
    exact this.symm
  have hand : repeats &&& 0xff = repeats % 256 := Nat.and_two_pow_sub_one_eq_mod repeats 8
  rw [hor, hand, Nat.shiftRight_eq_div_pow, UInt8.toNat_ofNat', UInt8.toNat_ofNat']
  omega

theorem innerDecompressStep_runs
    (hlt : symbol < 256 ^ coder.eachValSize.val) (hmin : coder.minRepeats ≤ repeats)
    (hmax : repeats ≤ rleMaxRepeats) (tail outbuf : Bytes)
    : coder.innerDecompressStep (coder.writeRuns [] symbol repeats ++ tail) outbuf
        =
      (tail, outbuf ++ pack coder.eachValSize (List.replicate repeats symbol)) := by
  have hmarker := decode_encode_of_lt coder.marker_lt
  have hsymbol := decode_encode_of_lt hlt
  have hle := coder.minRepeats_le
  by_cases hlong : 128 ≤ repeats
  . obtain ⟨hhigh, hlow⟩ := longRepeats_bytes hmax
    have hcount : coder.minRepeats ≤ 128 + repeats / 256 := by omega
    unfold rleMaxRepeats at hmax
    have hflag : ¬ (128 + repeats / 256) &&& 0x80 = 0 := by
      rw [and_0x80_eq_zero_iff (by omega)]
      omega
    have hrepeats : ((128 + repeats / 256) <<< 8 + repeats % 256) &&& 0x7fff = repeats := by
      rw [show 0x7fff = 2 ^ 15 - 1 from rfl, Nat.and_two_pow_sub_one_eq_mod, Nat.shiftLeft_eq]
      omega
    simp only [writeRuns, ge_iff_le, hlong, ↓reduceIte, nil_append, append_assoc,
      cons_append, innerDecompressStep, take_left', drop_left',
      length_encode, hmarker, headD_cons, hhigh, hlow, hcount, hflag,
      drop_succ_cons, drop_zero, hrepeats, hsymbol, not_false_eq_true, ne_eq]
  . have hbyte : (UInt8.ofNat repeats).toNat = repeats := by
      rw [UInt8.toNat_ofNat']
      omega
    have hflag : repeats &&& 0x80 = 0 := by
      rw [and_0x80_eq_zero_iff (by omega)]
      omega
    simp only [writeRuns, ge_iff_le, hlong, ↓reduceIte, nil_append, append_assoc,
      cons_append, innerDecompressStep, take_left', drop_left',
      length_encode, hmarker, headD_cons, hbyte, hmin, hflag,
      drop_succ_cons, drop_zero, hsymbol, not_true_eq_false, ne_eq]

theorem decompressRest_of_step {outbuf tail outbuf' : Bytes} (hlen : coder.eachValSize ≤ inbuf.length)
    (hstep : coder.innerDecompressStep inbuf outbuf = (tail, outbuf'))
    : coder.decompressRest inbuf outbuf = coder.decompressRest tail outbuf' := by
  rw [decompressRest, if_pos hlen, innerDecompressLoop_eq, hstep]

theorem decompressRest_plain (hlt : symbol < 256 ^ coder.eachValSize.val)
    (hmarker : coder.marker ≠ symbol) (repeats : Nat) (tail outbuf : Bytes)
    : coder.decompressRest (pack coder.eachValSize (List.replicate repeats symbol) ++ tail) outbuf
        =
      coder.decompressRest tail (outbuf ++ pack coder.eachValSize (List.replicate repeats symbol)) := by
  induction repeats generalizing outbuf with
  | zero => simp
  | succ repeats ih =>
    rw [replicate_succ, pack_cons, append_assoc]
    rw [decompressRest_of_step coder (by simp) (innerDecompressStep_plain coder hlt hmarker ..)]
    rw [ih, append_assoc]

theorem decompressRest_run {run : Run} (hlt : run.1 < 256 ^ coder.eachValSize.val)
    (hrun : ValidRun run) (tail outbuf : Bytes)
    : coder.decompressRest (coder.encodeRun run ++ tail) outbuf
        =
      coder.decompressRest tail (outbuf ++ pack coder.eachValSize (List.replicate run.2 run.1)) := by
  unfold encodeRun writeRepeats
  split
  . next hmin =>
    apply decompressRest_of_step
    . simp [writeRuns]
    . exact innerDecompressStep_runs coder hlt hmin hrun.le_max tail outbuf
  . next hmin =>
    unfold writeNonRuns
    split
    . next hmarker => exact decompressRest_plain coder hlt hmarker run.2 tail outbuf
    . next hmarker =>
      have hmarker : run.1 = coder.marker := by
        simpa using (by omega)
      rw [hmarker, nil_append, append_assoc, singleton_append]
      apply decompressRest_of_step
      . simp
      . exact innerDecompressStep_marker coder (by omega) tail outbuf

theorem decompressRest_runs {runs : List Run}
    (hlt : ∀ run ∈ runs, run.1 < 256 ^ coder.eachValSize.val) (hvalid : ∀ run ∈ runs, ValidRun run)
    (outbuf : Bytes)
    : coder.decompressRest (runs.flatMap coder.encodeRun) outbuf
        =
      outbuf ++ pack coder.eachValSize (Run.expand runs) := by
  induction runs generalizing outbuf with
  | nil =>
    have hpos := coder.eachValSize.pos
    simp [decompressRest, Nat.not_le.mpr hpos]
  | cons run runs ih =>
    rw [forall_mem_cons] at hlt hvalid
    rw [flatMap_cons, decompressRest_run coder hlt.1 hvalid.1, ih hlt.2 hvalid.2]
    simp

theorem length_encodeRun {run : Run} (hrun : ValidRun run)
    : coder.eachValSize ≤ (coder.encodeRun run).length := by
  have hpos := hrun.pos
  unfold encodeRun writeRepeats writeRuns writeNonRuns
  split
  . simp
  . split
    . simp only [nil_append, length_pack, length_replicate]
      exact Nat.le_mul_of_pos_right _ hpos
    . simp

end Decompress

theorem innerDecompress_innerCompress (hne : vals ≠ []) (hlt : ∀ v ∈ vals, v < 256 ^ coder.eachValSize.val)
    : coder.innerDecompress (coder.innerCompress (pack coder.eachValSize vals))
        =
      pack coder.eachValSize vals := by
  obtain ⟨runs, hvalid, hout, hexpand⟩ :=
    coder.innerCompress_spec (pack coder.eachValSize vals)
  rw [readValues_pack hne hlt] at hexpand
  have hruns : ∀ run ∈ runs, run.1 < 256 ^ coder.eachValSize.val := by
    intro run hrun
    apply hlt
    rw [← hexpand, Run.expand, mem_flatMap]
    have := (hvalid run hrun).pos
    exact ⟨run, hrun, mem_replicate.mpr ⟨by omega, rfl⟩⟩
  have hlen : coder.eachValSize ≤ (runs.flatMap coder.encodeRun).length := by
    cases runs with
    | nil => exact absurd hexpand.symm hne
    | cons run runs =>
      have := coder.length_encodeRun (hvalid run (by simp))
      simp only [flatMap_cons, length_append]
      omega
  have hrest := coder.decompressRest_runs hruns hvalid []
  rw [decompressRest, if_pos hlen, nil_append, hexpand] at hrest
  rw [innerDecompress, hout, hrest]

theorem innerDecompressStep_fst (inbuf outbuf outbuf' : Bytes)
    : (coder.innerDecompressStep inbuf outbuf).1 = (coder.innerDecompressStep inbuf outbuf').1 := by
  unfold innerDecompressStep
  dsimp only
  split
  . split
    . rfl
    . rfl
  . rfl

theorem length_innerDecompressStep (inbuf outbuf : Bytes)
    : (coder.innerDecompressStep inbuf outbuf).2.length
        =
      outbuf.length + coder.eachValSize * coder.innerDecompressCount inbuf := by
  unfold innerDecompressStep innerDecompressCount
  dsimp only
  split
  . split
    . split
      . simp
      . simp
    . simp
  . simp

theorem length_innerDecompressLoop (inbuf outbuf : Bytes) (outcnt : Nat)
    (h : outbuf.length = coder.eachValSize * outcnt)
    : (coder.innerDecompressLoop inbuf outbuf).length
        =
      coder.eachValSize * coder.innerDecompressOutcnt inbuf outcnt := by
  have hstep := coder.length_innerDecompressStep inbuf outbuf
  rw [h, ← Nat.mul_add] at hstep
  rw [innerDecompressLoop, innerDecompressOutcnt, coder.innerDecompressStep_fst inbuf [] outbuf]
  split
  . exact length_innerDecompressLoop _ _ _ hstep
  . exact hstep
termination_by inbuf.length
decreasing_by
  have hle := coder.innerDecompressStep_length_le inbuf outbuf
  have hpos := coder.eachValSize.pos
  omega

theorem length_innerDecompress (inbuf : Bytes)
    : (coder.innerDecompress inbuf).length = coder.innerDecompressSize inbuf := by
  apply length_innerDecompressLoop
  simp

theorem pack_readValues {w : ValSize} (hne : inbuf ≠ []) (hdvd : w.val ∣ inbuf.length)
    : pack w (readValues w inbuf) = inbuf := by
  obtain ⟨n, hn⟩ := hdvd
  have hpos : 0 < inbuf.length := length_pos_iff.mpr hne
  have hdiv : inbuf.length / w.val = n := by
    rw [hn, Nat.mul_div_cancel_left _ w.pos]
  have hmax : max 1 n = n := by
    apply Nat.max_eq_right
    apply Nat.pos_of_ne_zero
    intro hzero
    rw [hn, hzero, Nat.mul_zero] at hpos
    exact Nat.lt_irrefl 0 hpos
  unfold readValues
  rw [hdiv, hmax]
  exact pack_unpack hn

theorem innerDecompress_innerCompress_bytes (hne : inbuf ≠ []) (hdvd : coder.eachValSize.val ∣ inbuf.length)
    : coder.innerDecompress (coder.innerCompress inbuf) = inbuf := by
  rw [← pack_readValues hne hdvd]
  apply innerDecompress_innerCompress
  . intro hnil
    have hpack := pack_readValues hne hdvd
    rw [hnil] at hpack
    exact hne hpack.symm
  . intro v hv
    exact unpack_lt hv

/-- Both constructors, every width, every buffer of whole values. -/
theorem decompress_compress_rle (valSize : ValSize) (inbuf : Bytes) (hne : inbuf ≠ [])
    (hdvd : valSize.val ∣ inbuf.length)
    : ((v1 valSize).innerDecompressSize ((v1 valSize).innerCompress inbuf) = inbuf.length ∧
        (v1 valSize).innerDecompress ((v1 valSize).innerCompress inbuf) = inbuf) ∧
      ((v2 valSize).innerDecompressSize ((v2 valSize).innerCompress inbuf) = inbuf.length ∧
        (v2 valSize).innerDecompress ((v2 valSize).innerCompress inbuf) = inbuf) := by
  have hv1 := (v1 valSize).innerDecompress_innerCompress_bytes hne hdvd
  have hv2 := (v2 valSize).innerDecompress_innerCompress_bytes hne hdvd
  refine ⟨⟨?_, hv1⟩, ⟨?_, hv2⟩⟩
  . rw [← length_innerDecompress, hv1]
  . rw [← length_innerDecompress, hv2]

theorem decompress_compress_markers
    : let inbuf : Bytes := [0xFE, 0xFE, 0xFE, 0xFE, 7, 0xFE]
      ((v1 ⟨1, by decide, by decide⟩).innerDecompressSize
          ((v1 ⟨1, by decide, by decide⟩).innerCompress inbuf) = inbuf.length ∧
        (v1 ⟨1, by decide, by decide⟩).innerDecompress
          ((v1 ⟨1, by decide, by decide⟩).innerCompress inbuf) = inbuf) ∧
      ((v2 ⟨1, by decide, by decide⟩).innerDecompressSize
          ((v2 ⟨1, by decide, by decide⟩).innerCompress inbuf) = inbuf.length ∧
        (v2 ⟨1, by decide, by decide⟩).innerDecompress
          ((v2 ⟨1, by decide, by decide⟩).innerCompress inbuf) = inbuf) := by
  apply decompress_compress_rle
  . decide
  . decide

theorem innerDecompress_innerCompress_packInt {xs : List Int} (hne : xs ≠ [])
    : coder.innerDecompress (coder.innerCompress (packInt coder.eachValSize xs))
        =
      packInt coder.eachValSize xs := by
  rw [packInt_eq_pack]
  apply innerDecompress_innerCompress
  . simpa using hne
  . intro v hv
    obtain ⟨x, _, rfl⟩ := mem_map.mp hv
    apply wrap_lt

end RoundTrip

section Bound

variable (coder : RleCoder) {total : Nat}

theorem length_encodeRun_lt {run : Run} (hmin : 3 ≤ coder.minRepeats) (hrun : ValidRun run)
    (hne : run ≠ (coder.marker, 1))
    : 2 * (coder.encodeRun run).length < (2 * coder.eachValSize.val + 1) * run.2 := by
  obtain ⟨symbol, repeats⟩ := run
  have hw := coder.eachValSize.pos
  have hpos : 0 < repeats := hrun.pos
  unfold encodeRun writeRepeats
  dsimp only
  split
  . next hruns =>
    have hthree : (2 * coder.eachValSize.val + 1) * 3 ≤ (2 * coder.eachValSize.val + 1) * repeats :=
      Nat.mul_le_mul_left _ (by omega)
    unfold writeRuns
    dsimp only
    split
    . next hlong =>
      have hmany : (2 * coder.eachValSize.val + 1) * 128 ≤ (2 * coder.eachValSize.val + 1) * repeats :=
        Nat.mul_le_mul_left _ hlong
      simp only [length_append, length_encode, length_cons, length_nil]
      omega
    . simp only [length_append, length_encode, length_cons, length_nil]
      omega
  . unfold writeNonRuns
    split
    . simp only [length_append, length_pack, length_replicate, length_nil]
      rw [Nat.add_mul, Nat.mul_assoc]
      omega
    . next hmarker =>
      have hmarker : coder.marker = symbol := not_not.mp hmarker
      have htwo : 2 ≤ repeats := by
        by_contra hone
        apply hne
        rw [hmarker, show repeats = 1 by omega]
      have hshare : (2 * coder.eachValSize.val + 1) * 2 ≤ (2 * coder.eachValSize.val + 1) * repeats :=
        Nat.mul_le_mul_left _ htwo
      simp only [length_append, length_encode, length_cons, length_nil]
      omega

theorem length_encodeRun_marker (hmin : 3 ≤ coder.minRepeats)
    : (coder.encodeRun (coder.marker, 1)).length = coder.eachValSize + 1 := by
  have hruns : ¬ coder.minRepeats ≤ 1 := by omega
  simp [encodeRun, writeRepeats, writeNonRuns, hruns]

/--
Each of `total` values has a share of its size and half a byte; half a byte may be missing while no
marker is next.
-/
def Bounded (total : Nat) (outbuf : Bytes) (pending : List Nat) : Prop :=
  2 * outbuf.length + (2 * coder.eachValSize.val + 1) * pending.length
    ≤ (2 * coder.eachValSize.val + 1) * total + if pending.head? = some coder.marker then 0 else 1

theorem Bounded.le {outbuf : Bytes} {pending : List Nat} (h : coder.Bounded total outbuf pending)
    : 2 * outbuf.length + (2 * coder.eachValSize.val + 1) * pending.length
        ≤ (2 * coder.eachValSize.val + 1) * total + 1 := by
  unfold Bounded at h
  split at h
  . omega
  . exact h

theorem Bounded.push {outbuf : Bytes} {pending : List Nat} {run : Run}
    (hmin : 3 ≤ coder.minRepeats) (hrun : ValidRun run)
    (hstop : run.2 < rleMaxRepeats → pending.head? ≠ some run.1)
    (h : coder.Bounded total outbuf (List.replicate run.2 run.1 ++ pending))
    : coder.Bounded total (outbuf ++ coder.encodeRun run) pending := by
  by_cases hmarker : run = (coder.marker, 1)
  . subst hmarker
    have hlen := coder.length_encodeRun_marker hmin
    have hhead : pending.head? ≠ some coder.marker := hstop (by dsimp only; decide)
    unfold Bounded at *
    rw [if_neg hhead]
    simp only [replicate_one, singleton_append, head?_cons, ↓reduceIte,
      length_cons, length_append, Nat.mul_add] at h ⊢
    omega
  . have hlt := coder.length_encodeRun_lt hmin hrun hmarker
    have hle := h.le
    simp only [length_append, length_replicate, Nat.mul_add] at hle
    have hless : 2 * (outbuf ++ coder.encodeRun run).length + (2 * coder.eachValSize.val + 1) * pending.length
        ≤ (2 * coder.eachValSize.val + 1) * total := by
      rw [length_append, Nat.mul_add]
      omega
    exact Nat.le_trans hless (Nat.le_add_right _ _)

structure BoundInv (total : Nat) (s : CompressState) : Prop where
  bounded : coder.Bounded total s.outbuf s.pending
  input_nil : s.count = 0 → s.input = []

theorem step_boundInv {s : CompressState} (hmin : 3 ≤ coder.minRepeats)
    (hcount : s.count = 2) (hinv : coder.BoundInv total s)
    : coder.BoundInv total (coder.step s) := by
  obtain ⟨run, hrun, hout, hpending, hnil, hstop⟩ := coder.emit_cases hcount
  have hle := coder.emit_count_le s
  have hbounded := hinv.bounded
  rw [hpending] at hbounded
  unfold step
  constructor
  . rw [outbuf_refill, pending_refill hle hnil, hout]
    apply hbounded.push
    . exact hmin
    . exact hrun
    . exact hstop
  . unfold refill
    split
    . exact hnil
    . simp

theorem length_innerCompress (hmin : 3 ≤ coder.minRepeats) (inbuf : Bytes)
    : 2 * (coder.innerCompress inbuf).length
        ≤ (2 * coder.eachValSize.val + 1) * (readValues coder.eachValSize inbuf).length + 1 := by
  have hone (outbuf : Bytes) (data : Nat) (total : Nat) (h : coder.Bounded total outbuf [data])
      : 2 * (coder.writeNonRuns outbuf data 1).length
          ≤ (2 * coder.eachValSize.val + 1) * total + 1 := by
    have hpush : coder.Bounded total (outbuf ++ coder.encodeRun (data, 1)) [] := by
      apply Bounded.push
      . exact hmin
      . exact validRun_one data
      . simp
      . simpa using h
    rw [writeNonRuns_one]
    simpa using hpush.le
  unfold innerCompress
  split
  . simp
  . next data1 h =>
    rw [h]
    apply hone
    simp [Bounded]
  . next data1 data2 input h =>
    rw [h]
    generalize hs : CompressState.mk data1 data2 2 input [] = s
    have hinit : coder.BoundInv (data1 :: data2 :: input).length s := by
      rw [← hs]
      constructor
      . simp [Bounded, CompressState.pending]
      . simp
    have hloop := coder.compressLoop_rule (fun s hcount hinv => coder.step_boundInv hmin hcount hinv)
      (by rw [← hs]) hinit
    obtain ⟨hinv, hcount, hinput⟩ := hloop
    dsimp only
    split
    . next hend =>
      apply hone
      simpa [CompressState.pending, hend, hinput] using hinv.bounded
    . next hend =>
      have hzero : (coder.compressLoop s).count = 0 := by omega
      simpa [CompressState.pending, hzero, hinput] using hinv.bounded.le

theorem v2_three_le_minRepeats (valSize : ValSize) : 3 ≤ (v2 valSize).minRepeats := by
  obtain ⟨val, hpos, hle⟩ := valSize
  unfold v2 rleMinRepeatsV2
  interval_cases val <;> simp

theorem length_innerCompress_le {n : Nat} {inbuf : Bytes} (hmin : 3 ≤ coder.minRepeats) (hn : 0 < n)
    (hlen : inbuf.length = n * coder.eachValSize)
    : (coder.innerCompress inbuf).length ≤ 1 + n * coder.eachValSize + n / 2 := by
  have hle := coder.length_innerCompress hmin inbuf
  have hdiv : inbuf.length / coder.eachValSize.val = n := by
    rw [hlen, Nat.mul_div_cancel _ coder.eachValSize.pos]
  have hread : (readValues coder.eachValSize inbuf).length = n := by
    unfold readValues
    rw [length_unpack, hdiv]
    omega
  rw [hread, Nat.add_mul, Nat.mul_assoc, Nat.mul_comm coder.eachValSize.val n] at hle
  omega

theorem compressGetBound_eq (n : Nat) (valSize : ValSize)
    : compressGetBound (n * valSize) valSize = 1 + n * valSize + n / 2 := by
  unfold compressGetBound
  rw [Nat.mul_div_cancel _ valSize.pos]

theorem rleGetBound2_eq (n : Nat) (valSize : ValSize)
    : DeltaPlusRLEv2.rleGetBound2 n valSize = 1 + n * valSize + n / 2 := by
  unfold DeltaPlusRLEv2.rleGetBound2
  rw [Nat.mul_comm]

/-- Neither constructor overruns a buffer of either bound. -/
theorem compress_le_getBound (valSize : ValSize) (n : Nat) (hn : 0 < n) (inbuf : Bytes)
    (hlen : inbuf.length = n * valSize)
    : ((v1 valSize).innerCompress inbuf).length ≤ compressGetBound (n * valSize) valSize ∧
      ((v2 valSize).innerCompress inbuf).length ≤ compressGetBound (n * valSize) valSize ∧
      compressGetBound (n * valSize) valSize = 1 + n * valSize + n / 2 ∧
      DeltaPlusRLEv2.rleGetBound2 n valSize = 1 + n * valSize + n / 2 := by
  have heq := compressGetBound_eq n valSize
  refine ⟨?_, ?_, heq, rleGetBound2_eq n valSize⟩
  . rw [heq]
    apply (v1 valSize).length_innerCompress_le
    . exact Nat.le_succ 3
    . exact hn
    . exact hlen
  . rw [heq]
    apply (v2 valSize).length_innerCompress_le
    . exact v2_three_le_minRepeats valSize
    . exact hn
    . exact hlen

theorem compress_le_getBound_alternating
    : let inbuf : Bytes := [0xFE, 1, 0xFE]
      ((v1 ⟨1, by decide, by decide⟩).innerCompress inbuf).length
          ≤ compressGetBound (3 * 1) ⟨1, by decide, by decide⟩ ∧
        ((v2 ⟨1, by decide, by decide⟩).innerCompress inbuf).length
          ≤ compressGetBound (3 * 1) ⟨1, by decide, by decide⟩ ∧
        compressGetBound (3 * 1) ⟨1, by decide, by decide⟩ = 1 + 3 * 1 + 3 / 2 ∧
        DeltaPlusRLEv2.rleGetBound2 3 1 = 1 + 3 * 1 + 3 / 2 := by
  apply compress_le_getBound
  . decide
  . rfl

end Bound

end RleCoder

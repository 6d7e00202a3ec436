import OpenGauss.Bloom.Lemmas

/-!
This module contains the test whether one bloom filter can share a value with another
(`includedIn`).
-/

open List

namespace BloomFilter

-- `valueToDatum` and `datumToValue` carry the bounds of one filter to the other.
structure DatumType (V Datum : Type) extends BaseType V Datum where
  valueToDatum : DataType → V → Datum

namespace BloomFilterImpl

variable {V Datum : Type}

def getMin (T : DatumType V Datum) (f : BloomFilterImpl V) : Option Datum :=
  f.minValue.map (T.valueToDatum f.dataType)

def getMax (T : DatumType V Datum) (f : BloomFilterImpl V) : Option Datum :=
  f.maxValue.map (T.valueToDatum f.dataType)

def minMaxCheck (T : DatumType V Datum) (f that : BloomFilterImpl V) : Bool :=
  if ¬ f.hasMM ∨ ¬ that.hasMM then
    true
  else
    match f.minValue, f.maxValue, that.getMin T, that.getMax T with
    | some minValue, some maxValue, some min, some max =>
      let minV := T.datumToValue f.dataType min
      let maxV := T.datumToValue f.dataType max
      if f.numValues = 1 then
        if 0 ≤ T.compareValue minValue minV ∧ T.compareValue maxValue maxV ≤ 0 then
          true
        else
          false
      else
        if 0 < T.compareValue minValue minV ∨ T.compareValue maxValue maxV < 0 then
          false
        else
          true
    | _, _, _, _ => false

def singleIncludedIn (f : BloomFilterImpl V) (that : List (BitVec 64)) : Bool :=
  (List.range f.bitSet.data.length).all fun i =>
    let word := f.bitSet.data.getD i 0#64
    word == 0#64 || word &&& that.getD i 0#64 == word

def multiIncludedIn (f : BloomFilterImpl V) (that : List (BitVec 64)) : Bool :=
  (List.range f.numValues).any fun i =>
    (List.range f.numHashFunctions).all fun j =>
      (⟨that⟩ : BitSet).get (f.valuePositions (maxHashFunctions * i + j)).toNat

def includedInBits (f : BloomFilterImpl V) (that : List (BitVec 64)) : Bool :=
  if f.numValues = 0 then
    false
  else if f.numValues = 1 then
    f.singleIncludedIn that
  else
    f.multiIncludedIn that

def includedIn (T : DatumType V Datum) (f that : BloomFilterImpl V) : Bool :=
  if f.numBits = that.numBits ∧ f.numHashFunctions = that.numHashFunctions then
    if ¬ f.minMaxCheck T that then
      false
    else
      f.includedInBits that.bitSet.data
  else
    true

end BloomFilterImpl

namespace BitSet

theorem get_set (s : BitSet) (index other : Nat) (h : index / 64 < s.data.length)
    : (s.set index).get other = (s.get other || decide (other = index)) := by
  have hlt : other % 64 < 64 := Nat.mod_lt _ (by decide)
  rw [get_eq, get_eq]
  simp only [set, getD_eq_getElem?_getD, getElem?_modify]
  by_cases hword : index / 64 = other / 64
  . have heq : other = index ↔ other % 64 = index % 64 := by omega
    have hsome : s.data[other / 64]? = some s.data[other / 64] := by
      apply getElem?_eq_getElem
    simp only [hword, hsome, if_true, Option.map_eq_map, Option.map_some, Option.getD_some, BitVec.getLsbD_or,
      mask_getLsbD, hlt, decide_true, Bool.true_and, heq]
  . have hne : ¬ other = index := by
      intro heq
      apply hword
      rw [heq]
    simp [hword, hne]

theorem get_new (bits index : Nat) : (new bits).get index = false := by
  rw [get_eq]
  have hword : (new bits).data.getD (index / 64) 0#64 = 0#64 := by
    simp only [new, getD_eq_getElem?_getD, getElem?_replicate]
    split
    . split
      . rfl
      . rfl
    . split
      . rfl
      . rfl
  rw [hword, BitVec.getLsbD_zero]

theorem word_subset_iff (s t : BitSet) (i : Nat)
    : s.data.getD i 0#64 &&& t.data.getD i 0#64 = s.data.getD i 0#64
        ↔
      ∀ k, k < 64 → s.get (64 * i + k) = true → t.get (64 * i + k) = true := by
  have hget : ∀ (u : BitSet) k, k < 64 → u.get (64 * i + k) = (u.data.getD i 0#64).getLsbD k := by
    intro u k hk
    have hdiv : (64 * i + k) / 64 = i := by omega
    have hmod : (64 * i + k) % 64 = k := by omega
    rw [get_eq, hdiv, hmod]
  constructor
  . intro h k hk hbit
    rw [hget t k hk]
    rw [hget s k hk, ← h, BitVec.getLsbD_and, Bool.and_eq_true] at hbit
    apply hbit.2
  . intro h
    apply BitVec.eq_of_getLsbD_eq
    intro k hk
    rw [BitVec.getLsbD_and]
    cases hbit : (s.data.getD i 0#64).getLsbD k with
    | false => simp
    | true =>
      have ht := h k hk ((hget s k hk).trans hbit)
      rw [hget t k hk] at ht
      simp only [ht, Bool.and_true]

end BitSet

namespace BloomFilterImpl

variable {V Datum : Type}

theorem singleIncludedIn_iff (f that : BloomFilterImpl V)
    (hlen : f.bitSet.data.length = that.bitSet.data.length)
    : f.singleIncludedIn that.bitSet.data = true
        ↔
      ∀ index, f.bitSet.get index = true → that.bitSet.get index = true := by
  have hword : ∀ i, (let word := f.bitSet.data.getD i 0#64
      word == 0#64 || word &&& that.bitSet.data.getD i 0#64 == word) = true ↔
      ∀ k, k < 64 → f.bitSet.get (64 * i + k) = true → that.bitSet.get (64 * i + k) = true := by
    intro i
    rw [← BitSet.word_subset_iff]
    simp only [Bool.or_eq_true, beq_iff_eq]
    constructor
    . rintro (hzero | hsub)
      . rw [hzero]
        simp
      . exact hsub
    . apply Or.inr
  simp only [singleIncludedIn, all_eq_true, mem_range]
  constructor
  . intro h index hbit
    have hindex : 64 * (index / 64) + index % 64 = index := by omega
    by_cases hlt : index / 64 < f.bitSet.data.length
    . have hsub := (hword _).mp (h _ hlt) (index % 64) (Nat.mod_lt _ (by decide))
      rw [hindex] at hsub
      apply hsub hbit
    . have hnone : f.bitSet.data[index / 64]? = none := by
        rw [getElem?_eq_none_iff]
        omega
      rw [BitSet.get_eq, getD_eq_getElem?_getD, hnone] at hbit
      simp at hbit
  . intro h i _
    rw [hword]
    intro k _ hbit
    apply h _ hbit

theorem multiIncludedIn_iff (f that : BloomFilterImpl V) : f.multiIncludedIn that.bitSet.data = true
      ↔
    ∃ entry, entry < f.numValues ∧ ∀ j, j < f.numHashFunctions →
      that.bitSet.get (f.valuePositions (maxHashFunctions * entry + j)).toNat = true := by
  simp [multiIncludedIn]

-- The filters that the code builds by adding values, latest value first.
inductive Built (T : DatumType V Datum) : BloomFilterImpl V → List V → Prop where
  | new (dataType typeMod collation type expectedEntries nb hashFunctions addMinMax f)
      (h : new T.toBaseType dataType typeMod collation type expectedEntries nb hashFunctions
        addMinMax = .ok f)
      : Built T f []
  | addDatum (f vals datum f') (hf : Built T f vals)
      (h : f.addDatum T.toBaseType datum = .ok f')
      : Built T f' (T.datumToValue f.dataType datum :: vals)

-- What the bounds of a filter need of the comparison. A total order has it, and so have the
-- floating point numbers, where a comparison with NaN yields 0.
structure CompareLaws (compareValue : V → V → Int) : Prop where
  self : ∀ v, compareValue v v = 0
  lower : ∀ v m w, 0 ≤ compareValue v m → compareValue w m < 0 → 0 ≤ compareValue v w
  upper : ∀ v m w, compareValue v m ≤ 0 → 0 < compareValue w m → compareValue v w ≤ 0
  below : ∀ w m x, compareValue w m < 0 → compareValue m x ≤ 0 → compareValue w x ≤ 0

-- The positions remembered for an entry are those of its value, cut to 16 bits. An entry has room
-- for four; more of them are written over by the next entry.
def Recorded (T : BaseType V Datum) (f : BloomFilterImpl V) (vals : List V) : Prop :=
  ∀ entry v, vals.reverse[entry]? = some v → ∀ j, j < f.numHashFunctions →
    j < maxHashFunctions ∨ entry + 1 = vals.length →
    f.valuePositions (maxHashFunctions * entry + j)
      = BitVec.ofNat 16 (position f.numBits (T.hash64 v) (j + 1))

structure Bounds (T : BaseType V Datum) (f : BloomFilterImpl V) (vals : List V) : Prop where
  hasMM : f.hasMM = true ↔ f.addMinMax = true ∧ vals ≠ []
  bounds : f.hasMM = true → ∃ minValue maxValue, f.minValue = some minValue
    ∧ f.maxValue = some maxValue ∧ minValue ∈ vals ∧ maxValue ∈ vals
    ∧ T.compareValue minValue maxValue ≤ 0
    ∧ ∀ v ∈ vals, 0 ≤ T.compareValue v minValue ∧ T.compareValue v maxValue ≤ 0

structure BuiltInv (T : BaseType V Datum) (f : BloomFilterImpl V) (vals : List V) : Prop where
  wf : WF f
  numValues : f.numValues = vals.length
  bits : ∀ index, f.bitSet.get index = true ↔
    ∃ v ∈ vals, ∃ j, j < f.numHashFunctions ∧ position f.numBits (T.hash64 v) (j + 1) = index
  recorded : Recorded T f vals
  bounds : Bounds T f vals
  datums : ∀ v ∈ vals, ∃ d, v = T.datumToValue f.dataType d

theorem addHash_go_spec (f : BloomFilterImpl V) (hash64 : BitVec 64) (n : Nat) (hf : WF f)
    : (∀ index, (addHash.go hash64 f n).bitSet.get index = true ↔
        f.bitSet.get index = true ∨ ∃ j, j < n ∧ position f.numBits hash64 (j + 1) = index)
        ∧ (∀ j, j < n → (addHash.go hash64 f n).valuePositions (maxHashFunctions * f.numValues + j)
          = BitVec.ofNat 16 (position f.numBits hash64 (j + 1)))
        ∧ ∀ index, index < maxHashFunctions * f.numValues →
          (addHash.go hash64 f n).valuePositions index = f.valuePositions index := by
  induction n with
  | zero => simp [addHash.go]
  | succ n ih =>
    have hsame := addHash_go_sameHeader f hash64 n
    have hlt := position_lt f.numBits hash64 (n + 1) hf.pos
    have hlen := hf.length
    refine ⟨?_, ?_, ?_⟩
    . intro index
      simp only [addHash.go, hsame.numBits]
      rw [BitSet.get_set, Bool.or_eq_true, ih.1, decide_eq_true_eq]
      . constructor
        . rintro ((hold | ⟨j, hj, hpos⟩) | heq)
          . exact .inl hold
          . exact .inr ⟨j, by omega, hpos⟩
          . exact .inr ⟨n, by omega, heq.symm⟩
        . rintro (hold | ⟨j, hj, hpos⟩)
          . exact .inl (.inl hold)
          . cases Nat.lt_succ_iff_lt_or_eq.mp hj with
            | inl hbelow => exact .inl (.inr ⟨j, hbelow, hpos⟩)
            | inr heq =>
              subst heq
              exact .inr hpos.symm
      . rw [hsame.length]
        omega
    . intro j hj
      simp only [addHash.go, hsame.numBits, hsame.numValues]
      cases Nat.lt_succ_iff_lt_or_eq.mp hj with
      | inl hbelow =>
        rw [Function.update_of_ne (by omega)]
        exact ih.2.1 j hbelow
      | inr heq => rw [heq, Function.update_self]
    . intro index hindex
      simp only [addHash.go, hsame.numValues]
      rw [Function.update_of_ne (by omega)]
      exact ih.2.2 index hindex

theorem addHash_built (f g : BloomFilterImpl V) (hash64 : BitVec 64) (hf : WF f)
    (h : f.addHash hash64 = .ok g)
    : (g.numBits = f.numBits ∧ g.numHashFunctions = f.numHashFunctions ∧ g.dataType = f.dataType
          ∧ g.maxValue = f.maxValue)
        ∧ (∀ index, g.bitSet.get index = true ↔ f.bitSet.get index = true ∨
            ∃ j, j < f.numHashFunctions ∧ position f.numBits hash64 (j + 1) = index)
        ∧ (∀ j, j < f.numHashFunctions → g.valuePositions (maxHashFunctions * f.numValues + j)
            = BitVec.ofNat 16 (position f.numBits hash64 (j + 1)))
        ∧ ∀ index, index < maxHashFunctions * f.numValues →
            g.valuePositions index = f.valuePositions index := by
  unfold addHash at h
  split at h
  . cases h
  . simp only [Except.ok.injEq] at h
    subst h
    split
    . have hsame := addHash_go_sameHeader
        { f with startupEntries := min (f.startupEntries * 2) f.maxNumValues } hash64 f.numHashFunctions
      have hgo := addHash_go_spec
        { f with startupEntries := min (f.startupEntries * 2) f.maxNumValues } hash64 f.numHashFunctions
        ⟨hf.pos, hf.length⟩
      exact ⟨⟨hsame.numBits, hsame.numHashFunctions, hsame.dataType, hsame.maxValue⟩, hgo⟩
    . have hsame := addHash_go_sameHeader f hash64 f.numHashFunctions
      exact ⟨⟨hsame.numBits, hsame.numHashFunctions, hsame.dataType, hsame.maxValue⟩,
        addHash_go_spec f hash64 f.numHashFunctions hf⟩

variable (T : BaseType V Datum)

theorem setMinMax_bounds (laws : CompareLaws T.compareValue)
    (f : BloomFilterImpl V) (vals : List V) (val : V) (hf : Bounds T f vals)
    (hadd : f.addMinMax = true)
    : Bounds T (f.setMinMax T val) (val :: vals) := by
  have hframe := setMinMax_frame T f val
  constructor
  . simp [setMinMax_hasMM, hframe.2.2.2.2, hadd]
  . intro _
    by_cases hmm : f.hasMM = true
    . obtain ⟨minValue, maxValue, hmin, hmax, hminmem, hmaxmem, hle, hall⟩ := hf.bounds hmm
      simp only [setMinMax, hmm, hmin, hmax]
      split
      . next hlt =>
        refine ⟨val, maxValue, rfl, rfl, .head _, .tail _ hmaxmem,
          laws.below val minValue maxValue hlt hle, ?_⟩
        intro v hv
        cases hv with
        | head =>
          have hself := laws.self val
          exact ⟨by omega, laws.below val minValue maxValue hlt hle⟩
        | tail _ hv => exact ⟨laws.lower v minValue val (hall v hv).1 hlt, (hall v hv).2⟩
      . next hge =>
        split
        . next hgt =>
          refine ⟨minValue, val, rfl, rfl, .tail _ hminmem, .head _,
            laws.upper minValue maxValue val hle hgt, ?_⟩
          intro v hv
          cases hv with
          | head =>
            have hself := laws.self val
            exact ⟨by omega, by omega⟩
          | tail _ hv => exact ⟨(hall v hv).1, laws.upper v maxValue val (hall v hv).2 hgt⟩
        . next hle' =>
          refine ⟨minValue, maxValue, hmin, hmax, .tail _ hminmem, .tail _ hmaxmem, hle, ?_⟩
          intro v hv
          cases hv with
          | head => exact ⟨by omega, by omega⟩
          | tail _ hv => exact hall v hv
    . have hvals : vals = [] := by
        by_contra hne
        apply hmm
        apply hf.hasMM.mpr ⟨hadd, hne⟩
      have hself := laws.self val
      subst hvals
      simp only [Bool.not_eq_true] at hmm
      refine ⟨val, val, ?_, ?_, .head _, .head _, by omega, ?_⟩
      . simp [setMinMax, hmm]
      . simp [setMinMax, hmm]
      . intro v hv
        simp only [mem_singleton] at hv
        subst hv
        exact ⟨by omega, by omega⟩

theorem Bounds.congr {T : BaseType V Datum} {f g : BloomFilterImpl V} {vals : List V}
    (h : Bounds T f vals) (hmm : g.hasMM = f.hasMM) (hadd : g.addMinMax = f.addMinMax)
    (hmin : g.minValue = f.minValue) (hmax : g.maxValue = f.maxValue)
    : Bounds T g vals := by
  constructor
  . rw [hmm, hadd]
    exact h.hasMM
  . rw [hmm, hmin, hmax]
    exact h.bounds

theorem setMinMax_frame' (f : BloomFilterImpl V) (val : V) : (f.setMinMax T val).dataType = f.dataType
      ∧ (f.setMinMax T val).valuePositions = f.valuePositions := by
  unfold setMinMax
  repeat' split
  all_goals simp

theorem addValue_built (laws : CompareLaws T.compareValue)
    (f f' : BloomFilterImpl V) (vals : List V) (datum : Datum) (hf : BuiltInv T f vals)
    (h : f.addDatum T datum = .ok f')
    : BuiltInv T f' (T.datumToValue f.dataType datum :: vals) := by
  unfold addDatum at h
  generalize hval : T.datumToValue f.dataType datum = val at h
  unfold addValue at h
  generalize hg : (if f.addMinMax then f.setMinMax T val else f) = g at h
  have hframe' : g.dataType = f.dataType ∧ g.valuePositions = f.valuePositions := by
    rw [← hg]
    split
    . apply setMinMax_frame'
    . simp
  have hbounds : Bounds T g (val :: vals) := by
    rw [← hg]
    split
    . next hadd => apply setMinMax_bounds T laws f vals val hf.bounds hadd
    . next hadd =>
      constructor
      . simp [hf.bounds.hasMM, hadd]
      . intro hmm
        exact absurd (hf.bounds.hasMM.mp hmm).1 hadd
  obtain ⟨⟨hset, hbits, hfun, hvals, hadd⟩, hwf⟩ := setMinMaxIf_frame _ hf.wf hg
  obtain ⟨hwf', hvals', hmin', hmm', hadd', _, _⟩ := addHash_spec g f' _ hwf h
  obtain ⟨⟨hbits', hfun', htype', hmax'⟩, hget', hnew, hold⟩ := addHash_built g f' _ hwf h
  rw [hbits, hfun, hset] at hget'
  rw [hbits, hfun, hvals] at hnew
  rw [hvals, hframe'.2] at hold
  rw [hbits] at hbits'
  rw [hfun] at hfun'
  rw [hvals] at hvals'
  constructor
  . exact hwf'
  . rw [hvals', hf.numValues, length_cons]
  . intro index
    rw [hget', hf.bits, hfun', hbits']
    simp only [mem_cons, exists_eq_or_imp]
    exact or_comm
  . intro entry v hv j hj hroom
    rw [reverse_cons, getElem?_append] at hv
    rw [hfun'] at hj
    rw [hbits']
    have hnum := hf.numValues
    rw [length_reverse, ← hnum] at hv
    rw [length_cons, ← hnum] at hroom
    split at hv
    . next hlt =>
      -- Only the last entry keeps more than four.
      have hj4 : j < maxHashFunctions := by omega
      rw [maxHashFunctions] at hj4 hold
      rw [maxHashFunctions, hold _ (by omega)]
      exact hf.recorded entry v hv j hj (Or.inl hj4)
    . next hge =>
      obtain ⟨hlt, hval⟩ := List.getElem?_eq_some_iff.mp hv
      rw [length_singleton] at hlt
      have hentry : entry = f.numValues := by omega
      simp only [hentry, Nat.sub_self, getElem_cons_zero] at hval
      rw [hentry, ← hval]
      exact hnew j hj
  . apply hbounds.congr hmm' hadd' hmin' hmax'
  . rw [htype', hframe'.1]
    intro v hv
    cases hv with
    | head => exact ⟨datum, hval.symm⟩
    | tail _ hv => exact hf.datums v hv

theorem Built.inv {T : DatumType V Datum} {f : BloomFilterImpl V} {vals : List V}
    (laws : CompareLaws T.compareValue) (h : Built T f vals)
    : BuiltInv T.toBaseType f vals := by
  induction h with
  | new dataType typeMod collation type expectedEntries nb hashFunctions addMinMax f h =>
    have hinv := new_inv T.toBaseType dataType typeMod collation type expectedEntries nb
      hashFunctions addMinMax f h
    unfold BloomFilterImpl.new at h
    split at h
    . cases h
    . simp only [Except.ok.injEq] at h
      subst h
      constructor
      . exact hinv.wf
      . exact hinv.numValues
      . simp [BitSet.get_new]
      . simp [Recorded]
      . constructor
        . simp
        . simp
      . simp
  | addDatum f vals datum f' _ h ih => apply addValue_built T.toBaseType laws f f' vals datum ih h

def Covers (T : BaseType V Datum) (f that : BloomFilterImpl V) : Prop :=
  ∀ minValue maxValue minV maxV, f.minValue = some minValue → f.maxValue = some maxValue →
    that.minValue = some minV → that.maxValue = some maxV →
      T.compareValue minValue minV ≤ 0 ∧ 0 ≤ T.compareValue maxValue maxV

-- The entry that wrote what is read as the position `j` of `entry`: a later one from the fifth
-- position on, as far as there is one.
def writer (count entry j : Nat) : Nat :=
  min (entry + j / maxHashFunctions) (count - 1)

-- Cut to 16 bits, each position that is read for the entry is a position of a value of the other
-- filter.
def Survives (T : BaseType V Datum) (numBits numHashFunctions : Nat) (vals : List V)
    (entry : Nat) (vals' : List V) : Prop :=
  ∀ j, j < numHashFunctions → ∃ v, vals.reverse[writer vals.length entry j]? = some v
    ∧ ∃ w ∈ vals', ∃ i, i < numHashFunctions ∧ position numBits (T.hash64 w) (i + 1)
      = position numBits (T.hash64 v)
          (maxHashFunctions * entry + j - maxHashFunctions * writer vals.length entry j + 1) % 65536

theorem survives_of_numBits_le (numBits numHashFunctions : Nat) (v : V) (vals vals' : List V)
    (hpos : 0 < numBits) (hbits : numBits ≤ 65536) (hfun : numHashFunctions ≤ maxHashFunctions)
    (hv : v ∈ vals) (hv' : v ∈ vals')
    : ∃ entry, entry < vals.length ∧ Survives T numBits numHashFunctions vals entry vals' := by
  obtain ⟨entry, hentry, hget⟩ := List.getElem_of_mem (mem_reverse.mpr hv)
  rw [length_reverse] at hentry
  refine ⟨entry, hentry, ?_⟩
  intro j hj
  have hwriter : writer vals.length entry j = entry := by
    rw [writer, Nat.div_eq_of_lt (by omega)]
    omega
  have hlt := position_lt numBits (T.hash64 v) (j + 1) hpos
  refine ⟨v, ?_, v, hv', j, hj, ?_⟩
  . rw [hwriter]
    exact List.getElem?_eq_some_iff.mpr ⟨_, hget⟩
  . rw [hwriter, Nat.add_sub_cancel_left, Nat.mod_eq_of_lt (by omega)]

theorem Recorded.read {T : BaseType V Datum} {f : BloomFilterImpl V} {vals : List V}
    (h : Recorded T f vals) {entry j : Nat} (hentry : entry < vals.length)
    (hj : j < f.numHashFunctions)
    : ∃ v, vals.reverse[writer vals.length entry j]? = some v
        ∧ f.valuePositions (maxHashFunctions * entry + j)
          = BitVec.ofNat 16 (position f.numBits (T.hash64 v)
            (maxHashFunctions * entry + j - maxHashFunctions * writer vals.length entry j + 1)) := by
  have hfour : maxHashFunctions = 4 := rfl
  have hwriter : writer vals.length entry j = min (entry + j / 4) (vals.length - 1) := rfl
  generalize hlast : writer vals.length entry j = last at *
  have hlt : last < vals.reverse.length := by
    rw [length_reverse]
    omega
  have hget := List.getElem?_eq_getElem hlt
  refine ⟨_, hget, ?_⟩
  have hread := h last _ hget (4 * entry + j - 4 * last) (by omega) (by omega)
  rw [hfour] at hread ⊢
  have hindex : 4 * last + (4 * entry + j - 4 * last) = 4 * entry + j := by omega
  rw [hindex] at hread
  exact hread

theorem minMaxCheck_iff (T : DatumType V Datum) (round : ∀ dataType d,
      T.datumToValue dataType (T.valueToDatum dataType (T.datumToValue dataType d))
        = T.datumToValue dataType d)
    (f that : BloomFilterImpl V) (vals vals' : List V) (hf : BuiltInv T.toBaseType f vals)
    (hthat : BuiltInv T.toBaseType that vals') (htype : f.dataType = that.dataType) (v : V)
    (hv : v ∈ vals) (hv' : v ∈ vals')
    : f.minMaxCheck T that = true
        ↔
      (f.addMinMax = true → that.addMinMax = true → vals.length ≠ 1 → Covers T.toBaseType f that) := by
  have hmm := hf.bounds.hasMM
  have hmm' := hthat.bounds.hasMM
  simp only [ne_eq, ne_nil_of_mem hv, ne_nil_of_mem hv', not_false_eq_true, and_true] at hmm hmm'
  rw [← hmm, ← hmm']
  by_cases hnone : ¬ f.hasMM = true ∨ ¬ that.hasMM = true
  . rw [minMaxCheck, if_pos hnone]
    simp only [true_iff]
    intro h h'
    cases hnone with
    | inl hno => exact absurd h hno
    | inr hno => exact absurd h' hno
  . simp only [not_or, Decidable.not_not] at hnone
    obtain ⟨minValue, maxValue, hmin, hmax, hminown, hmaxown, _, _⟩ := hf.bounds.bounds hnone.1
    obtain ⟨minV, maxV, hmin', hmax', hminmem, hmaxmem, _, hall'⟩ := hthat.bounds.bounds hnone.2
    have hround : ∀ w ∈ vals', T.datumToValue f.dataType (T.valueToDatum that.dataType w) = w := by
      intro w hw
      obtain ⟨d, hd⟩ := hthat.datums w hw
      rw [hd, htype, round]
    have hcovers : Covers T.toBaseType f that ↔
        T.compareValue minValue minV ≤ 0 ∧ 0 ≤ T.compareValue maxValue maxV := by
      rw [Covers, hmin, hmax, hmin', hmax']
      constructor
      . intro h
        apply h minValue maxValue minV maxV rfl rfl rfl rfl
      . rintro h _ _ _ _ ⟨⟩ ⟨⟩ ⟨⟩ ⟨⟩
        exact h
    simp only [minMaxCheck, hnone, hmin, hmax, getMin, getMax, hmin', hmax', Option.map_some,
      not_true_eq_false, or_self, if_false, hround minV hminmem, hround maxV hmaxmem,
      forall_const, hcovers, hf.numValues]
    by_cases hone : vals.length = 1
    . obtain ⟨w, rfl⟩ := length_eq_one_iff.mp hone
      simp only [mem_singleton] at hv hminown hmaxown
      rw [if_pos hone, hminown, hmaxown, ← hv, if_pos (hall' v hv')]
      simp
    . rw [if_neg hone]
      split
      . simp only [Bool.false_eq_true, false_iff]
        omega
      . simp only [true_iff]
        omega

theorem includedInBits_iff (f that : BloomFilterImpl V)
    (vals vals' : List V) (hf : BuiltInv T f vals) (hthat : BuiltInv T that vals')
    (hbits : f.numBits = that.numBits) (hfun : f.numHashFunctions = that.numHashFunctions) (v : V)
    (hv : v ∈ vals) (hv' : v ∈ vals')
    : f.includedInBits that.bitSet.data = true
        ↔
      (vals.length ≠ 1 → ∃ entry, entry < vals.length
        ∧ Survives T f.numBits f.numHashFunctions vals entry vals') := by
  have hne : ¬ f.numValues = 0 := by
    rw [hf.numValues]
    have := length_pos_of_mem hv
    omega
  rw [includedInBits, if_neg hne, hf.numValues]
  by_cases hone : vals.length = 1
  . simp only [hone, if_true, ne_eq, not_true_eq_false, false_implies, iff_true]
    have hlen : f.bitSet.data.length = that.bitSet.data.length := by
      have h1 := hf.wf.length
      have h2 := hthat.wf.length
      omega
    obtain ⟨w, rfl⟩ := length_eq_one_iff.mp hone
    simp only [mem_singleton] at hv
    subst hv
    rw [singleIncludedIn_iff f that hlen]
    intro index hindex
    obtain ⟨w, hw, j, hj, hpos⟩ := (hf.bits index).mp hindex
    simp only [mem_singleton] at hw
    subst hw
    rw [hthat.bits]
    refine ⟨w, hv', j, ?_, ?_⟩
    . rw [← hfun]
      exact hj
    . rw [← hbits]
      exact hpos
  . have hsurvives : ∀ entry, entry < vals.length → ((∀ j, j < f.numHashFunctions →
            that.bitSet.get (f.valuePositions (maxHashFunctions * entry + j)).toNat = true)
          ↔ Survives T f.numBits f.numHashFunctions vals entry vals') := by
      intro entry hentry
      constructor
      . intro h j hj
        obtain ⟨u, hu, hread⟩ := hf.recorded.read hentry hj
        have hget := h j hj
        rw [hread, hthat.bits, ← hbits, ← hfun, BitVec.toNat_ofNat] at hget
        exact ⟨u, hu, hget⟩
      . intro h j hj
        obtain ⟨u, hu, hread⟩ := hf.recorded.read hentry hj
        obtain ⟨u', hu', hsur⟩ := h j hj
        rw [hu, Option.some.injEq] at hu'
        rw [hread, hthat.bits, ← hbits, ← hfun, BitVec.toNat_ofNat, hu']
        exact hsur
    simp only [hone, if_false, ne_eq, not_false_eq_true, forall_const]
    rw [multiIncludedIn_iff, hf.numValues]
    constructor
    . rintro ⟨entry, hentry, hget⟩
      exact ⟨entry, hentry, (hsurvives entry hentry).mp hget⟩
    . rintro ⟨entry, hentry, hsur⟩
      exact ⟨entry, hentry, (hsurvives entry hentry).mpr hsur⟩

-- With several values in `f`, the test asks for more than a shared value.
theorem includedIn_iff_of_mem (T : DatumType V Datum) (laws : CompareLaws T.compareValue)
    (round : ∀ dataType d,
      T.datumToValue dataType (T.valueToDatum dataType (T.datumToValue dataType d))
        = T.datumToValue dataType d)
    (f that : BloomFilterImpl V) (vals vals' : List V) (hf : Built T f vals)
    (hthat : Built T that vals') (htype : f.dataType = that.dataType)
    (hbits : f.numBits = that.numBits) (hfun : f.numHashFunctions = that.numHashFunctions) (v : V)
    (hv : v ∈ vals) (hv' : v ∈ vals')
    : f.includedIn T that = true
        ↔
      (vals.length ≠ 1 →
        (f.addMinMax = true → that.addMinMax = true → Covers T.toBaseType f that)
          ∧ ∃ entry, entry < vals.length
            ∧ Survives T.toBaseType f.numBits f.numHashFunctions vals entry vals') := by
  have hcheck := minMaxCheck_iff T round f that vals vals' (hf.inv laws) (hthat.inv laws)
    htype v hv hv'
  have hwords := includedInBits_iff T.toBaseType f that vals vals' (hf.inv laws) (hthat.inv laws)
    hbits hfun v hv hv'
  have hboth : f.includedIn T that = true ↔
      f.minMaxCheck T that = true ∧ f.includedInBits that.bitSet.data = true := by
    rw [includedIn, if_pos ⟨hbits, hfun⟩]
    cases f.minMaxCheck T that with
    | false => simp
    | true => simp
  rw [hboth, hcheck, hwords]
  constructor
  . rintro ⟨hcovers, hsur⟩ hone
    exact ⟨fun h h' => hcovers h h' hone, hsur hone⟩
  . intro h
    exact ⟨fun hadd hadd' hone => (h hone).1 hadd hadd', fun hone => (h hone).2⟩

end BloomFilterImpl

def int64DatumType : DatumType (BitVec 64) (BitVec 64) where
  toBaseType := int64Type
  valueToDatum
    | .int2, value => (value.setWidth 16).setWidth 64
    | .int4, value => (value.setWidth 32).setWidth 64
    | _, value => value

namespace BloomFilterImpl

theorem int64Type_laws : CompareLaws int64DatumType.compareValue := by
  have hcompare : ∀ v w : BitVec 64, int64DatumType.compareValue v w =
      if w.toInt < v.toInt then 1 else if v.toInt < w.toInt then -1 else 0 := by
    intro v w
    simp [int64DatumType, int64Type, BitVec.slt_eq_decide]
  constructor
  . intro v
    rw [hcompare]
    simp
  all_goals
    intro v m w
    simp only [hcompare]
    repeat' split
    all_goals omega

theorem int64Type_round (dataType : DataType) (d : BitVec 64) : int64DatumType.datumToValue dataType
        (int64DatumType.valueToDatum dataType (int64DatumType.datumToValue dataType d))
      = int64DatumType.datumToValue dataType d := by
  have hwidth : ∀ (w : Nat) (x : BitVec w), w ≤ 64 → (x.signExtend 64).setWidth w = x := by
    intro w x hw
    apply BitVec.eq_of_getLsbD_eq
    intro i hi
    have hlt : i < 64 := by omega
    simp only [BitVec.getLsbD_setWidth, BitVec.getLsbD_signExtend, hi, hlt, decide_true,
      Bool.true_and, if_true]
  cases dataType with
  | int2 =>
    simp only [int64DatumType, int64Type]
    rw [hwidth 16 _ (by decide), BitVec.setWidth_setWidth_of_le _ (by decide), BitVec.setWidth_eq]
  | int4 =>
    simp only [int64DatumType, int64Type]
    rw [hwidth 32 _ (by decide), BitVec.setWidth_setWidth_of_le _ (by decide), BitVec.setWidth_eq]
  | _ => rfl

theorem includedIn_iff_of_mem_noMinMax
    : ∃ f that, Built int64DatumType f [5, 1] ∧ Built int64DatumType that [9, 5]
        ∧ f.includedIn int64DatumType that = true := by
  have hnew := Built.new (T := int64DatumType) .int4 0 0 .hashjoin 1000 6235 4 false _ rfl
  have hf := Built.addDatum _ _ 5 _ (.addDatum _ _ 1 _ hnew rfl) rfl
  have hthat := Built.addDatum _ _ 9 _ (.addDatum _ _ 5 _ hnew rfl) rfl
  refine ⟨_, _, hf, hthat, ?_⟩
  apply (includedIn_iff_of_mem int64DatumType int64Type_laws int64Type_round _ _ [5, 1] [9, 5] hf
    hthat rfl rfl rfl 5 (by simp) (by simp)).mpr
  intro _
  constructor
  . intro hadd
    cases hadd
  . exact survives_of_numBits_le int64Type _ _ 5 [5, 1] [9, 5] (by decide) (by decide) (by decide)
      (by simp) (by simp)

theorem includedIn_lost
    : ∃ f that, Built int64DatumType f [5, 1] ∧ Built int64DatumType that [9, 5]
        ∧ f.dataType = that.dataType ∧ f.numBits = that.numBits
        ∧ f.numHashFunctions = that.numHashFunctions
        ∧ f.includedIn int64DatumType that = false := by
  have hnew := Built.new (T := int64DatumType) .int4 0 0 .hashjoin 1000 6235 4 true _ rfl
  have hf := Built.addDatum _ _ 5 _ (.addDatum _ _ 1 _ hnew rfl) rfl
  have hthat := Built.addDatum _ _ 9 _ (.addDatum _ _ 5 _ hnew rfl) rfl
  refine ⟨_, _, hf, hthat, rfl, rfl, rfl, ?_⟩
  decide

end BloomFilterImpl

end BloomFilter

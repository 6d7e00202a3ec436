import OpenGauss.Bloom.Impl

/-!
This module contains which values a bloom filter reports as members, over every run of adding
values, uniting filters, resetting them and sending them through a `BloomFilterSet`.
-/

open List

namespace BloomFilter

variable (s : BitSet) (index : Nat) (array : List (BitVec 64))

namespace BitSet

theorem mask_getLsbD (k : Nat) : (mask index).getLsbD k = (decide (k < 64) && decide (k = index % 64)) := by
  simp only [mask, BitVec.getLsbD_shiftLeft, BitVec.getLsbD_one]
  by_cases h : k < 64
  . grind
  . simp [h]

theorem and_mask_ne_zero (word : BitVec 64) (index : Nat)
    : (word &&& mask index != 0#64) = word.getLsbD (index % 64) := by
  have hlt : index % 64 < 64 := Nat.mod_lt _ (by decide)
  have hmask : word &&& mask index = 0#64 ↔ word.getLsbD (index % 64) = false := by
    constructor
    . intro h
      have hbit := congrArg (fun w => BitVec.getLsbD w (index % 64)) h
      simp only [BitVec.getLsbD_and, mask_getLsbD] at hbit
      simpa [hlt] using hbit
    . intro h
      apply BitVec.eq_of_getLsbD_eq
      intro k hk
      rw [BitVec.getLsbD_and, mask_getLsbD]
      by_cases heq : k = index % 64
      . simp [heq, h]
      . simp [heq]
  cases hbit : word.getLsbD (index % 64)
  . simp [hmask.mpr hbit]
  . have : ¬ word &&& mask index = 0#64 := by
      rw [hmask, hbit]
      simp
    simp [this]

theorem get_eq : s.get index = (s.data.getD (index / 64) 0#64).getLsbD (index % 64) := by
  apply and_mask_ne_zero

theorem get_set_self (h : index / 64 < s.data.length) : (s.set index).get index = true := by
  have hlt : index % 64 < 64 := Nat.mod_lt _ (by decide)
  rw [get_eq]
  simp [set, getD_eq_getElem?_getD, h, mask_getLsbD, hlt]

theorem get_set_of_get (other : Nat) (h : s.get other = true) : (s.set index).get other = true := by
  rw [get_eq] at *
  simp only [set, getD_eq_getElem?_getD, getElem?_modify] at *
  cases hword : s.data[other / 64]? with
  | none =>
    simp [hword] at h
  | some word =>
    simp only [hword, Option.getD_some] at h
    by_cases heq : index / 64 = other / 64
    . simp [heq, h]
    . simp [heq, h]

theorem get_unionAll (index : Nat) (hlen : s.data.length = array.length)
    : (s.unionAll array).get index = (s.get index || (⟨array⟩ : BitSet).get index) := by
  rw [get_eq, get_eq, get_eq]
  simp only [unionAll, getD_eq_getElem?_getD, getElem?_mapIdx]
  cases hword : s.data[index / 64]? with
  | none =>
    rw [getElem?_eq_none_iff, hlen, ← getElem?_eq_none_iff] at hword
    simp [hword]
  | some word => simp

theorem length_set : (s.set index).data.length = s.data.length := by
  simp [set]

theorem length_unionAll : (s.unionAll array).data.length = s.data.length := by
  simp [unionAll]

end BitSet

namespace BloomFilterImpl

variable {V Datum : Type}

structure WF (f : BloomFilterImpl V) : Prop where
  pos : 0 < f.numBits
  length : f.bitSet.data.length * 64 = f.numBits

theorem position_lt (numBits : Nat) (hash64 : BitVec 64) (i : Nat) (h : 0 < numBits)
    : position numBits hash64 i < numBits := by
  apply Nat.mod_lt _ h

theorem includeHashInternal_go_iff (f : BloomFilterImpl V) (hash64 : BitVec 64) (n : Nat)
    : includeHashInternal.go hash64 f n = true
        ↔
      ∀ i, i < n → f.bitSet.get (position f.numBits hash64 (i + 1)) = true := by
  induction n with
  | zero => simp [includeHashInternal.go]
  | succ n ih =>
    simp only [includeHashInternal.go, Bool.and_eq_true, ih]
    constructor
    . rintro ⟨hbelow, hlast⟩ i hi
      cases Nat.lt_succ_iff_lt_or_eq.mp hi with
      | inl hlt => apply hbelow i hlt
      | inr heq => rw [heq, hlast]
    . intro h
      refine ⟨fun i hi => h i (by omega), h n (by omega)⟩

theorem includeHashInternal_iff (f : BloomFilterImpl V) (hash64 : BitVec 64)
    : f.includeHashInternal hash64 = true
        ↔
      ∀ i, i < f.numHashFunctions → f.bitSet.get (position f.numBits hash64 (i + 1)) = true := by
  apply includeHashInternal_go_iff

structure SameHeader (f g : BloomFilterImpl V) : Prop where
  numBits : g.numBits = f.numBits
  numHashFunctions : g.numHashFunctions = f.numHashFunctions
  numValues : g.numValues = f.numValues
  minValue : g.minValue = f.minValue
  addMinMax : g.addMinMax = f.addMinMax
  hasMM : g.hasMM = f.hasMM
  maxValue : g.maxValue = f.maxValue
  dataType : g.dataType = f.dataType
  length : g.bitSet.data.length = f.bitSet.data.length

theorem addHash_go_sameHeader (f : BloomFilterImpl V) (hash64 : BitVec 64) (n : Nat)
    : SameHeader f (addHash.go hash64 f n) := by
  induction n with
  | zero => constructor <;> rfl
  | succ n ih =>
    constructor
    case length =>
      simp only [addHash.go, BitSet.length_set]
      apply ih.length
    all_goals simp only [addHash.go, ih.numBits, ih.numHashFunctions, ih.numValues, ih.minValue,
      ih.addMinMax, ih.hasMM, ih.maxValue, ih.dataType]

theorem addHash_go_get_of_get (f : BloomFilterImpl V) (hash64 : BitVec 64) (n index : Nat)
    (h : f.bitSet.get index = true)
    : (addHash.go hash64 f n).bitSet.get index = true := by
  induction n with
  | zero => exact h
  | succ n ih =>
    apply BitSet.get_set_of_get
    exact ih

theorem addHash_go_get (f : BloomFilterImpl V) (hash64 : BitVec 64) (n : Nat) (hf : WF f) : ∀ i, i < n →
      (addHash.go hash64 f n).bitSet.get (position f.numBits hash64 (i + 1)) = true := by
  induction n with
  | zero => omega
  | succ n ih =>
    intro i hi
    have hsame := addHash_go_sameHeader f hash64 n
    cases Nat.lt_succ_iff_lt_or_eq.mp hi with
    | inl hlt =>
      apply BitSet.get_set_of_get
      apply ih i hlt
    | inr heq =>
      subst heq
      simp only [addHash.go, hsame.numBits]
      apply BitSet.get_set_self
      rw [hsame.length]
      have hlt := position_lt f.numBits hash64 (i + 1) hf.pos
      have hlen := hf.length
      omega

theorem addHash_spec (f g : BloomFilterImpl V) (hash64 : BitVec 64) (hf : WF f)
    (h : f.addHash hash64 = .ok g)
    : WF g
        ∧ g.numValues = f.numValues + 1
        ∧ g.minValue = f.minValue ∧ g.hasMM = f.hasMM ∧ g.addMinMax = f.addMinMax
        ∧ g.includeHashInternal hash64 = true
        ∧ ∀ other, f.includeHashInternal other = true → g.includeHashInternal other = true := by
  unfold addHash at h
  split at h
  . cases h
  . simp only [Except.ok.injEq] at h
    generalize hf' : (if f.startupEntries ≤ f.numValues then
        { f with startupEntries := min (f.startupEntries * 2) f.maxNumValues } else f) = f' at h
    have hstart : f'.numBits = f.numBits ∧ f'.bitSet = f.bitSet ∧ f'.numValues = f.numValues
        ∧ f'.minValue = f.minValue ∧ f'.hasMM = f.hasMM ∧ f'.addMinMax = f.addMinMax
        ∧ f'.numHashFunctions = f.numHashFunctions := by
      rw [← hf']
      split <;> simp
    obtain ⟨hbits, hset, hvals, hmin, hmm, hadd, hfun⟩ := hstart
    have hwf : WF f' := by
      constructor
      . rw [hbits]
        exact hf.pos
      . rw [hbits, hset]
        exact hf.length
    have hsame := addHash_go_sameHeader f' hash64 f'.numHashFunctions
    subst h
    refine ⟨⟨?_, ?_⟩, ?_, ?_, ?_, ?_, ?_, ?_⟩
    . rw [hsame.numBits, hbits]
      exact hf.pos
    . rw [hsame.length, hsame.numBits, hbits, hset]
      exact hf.length
    . rw [hsame.numValues, hvals]
    . rw [hsame.minValue, hmin]
    . rw [hsame.hasMM, hmm]
    . rw [hsame.addMinMax, hadd]
    . rw [includeHashInternal_iff]
      intro i hi
      simp only [hsame.numBits, hsame.numHashFunctions] at hi ⊢
      apply addHash_go_get f' hash64 _ hwf i hi
    . intro other hother
      rw [includeHashInternal_iff] at *
      intro i hi
      simp only [hsame.numBits, hsame.numHashFunctions] at hi ⊢
      apply addHash_go_get_of_get
      rw [hset, hbits]
      apply hother i
      rw [← hfun]
      exact hi

variable (T : BaseType V Datum)

theorem setMinMax_frame (f : BloomFilterImpl V) (val : V) : (f.setMinMax T val).bitSet = f.bitSet
      ∧ (f.setMinMax T val).numBits = f.numBits
      ∧ (f.setMinMax T val).numHashFunctions = f.numHashFunctions
      ∧ (f.setMinMax T val).numValues = f.numValues
      ∧ (f.setMinMax T val).addMinMax = f.addMinMax := by
  unfold setMinMax
  repeat' split
  all_goals simp

theorem setMinMaxIf_frame {f g : BloomFilterImpl V} {val : V} (hwf : WF f)
    (hg : (if f.addMinMax then f.setMinMax T val else f) = g)
    : (g.bitSet = f.bitSet ∧ g.numBits = f.numBits ∧ g.numHashFunctions = f.numHashFunctions
        ∧ g.numValues = f.numValues ∧ g.addMinMax = f.addMinMax) ∧ WF g := by
  have hframe : g.bitSet = f.bitSet ∧ g.numBits = f.numBits
      ∧ g.numHashFunctions = f.numHashFunctions ∧ g.numValues = f.numValues
      ∧ g.addMinMax = f.addMinMax := by
    rw [← hg]
    split
    . apply setMinMax_frame
    . simp
  refine ⟨hframe, ?_, ?_⟩
  . rw [hframe.2.1]
    exact hwf.pos
  . rw [hframe.1, hframe.2.1]
    exact hwf.length

theorem setMinMax_hasMM (f : BloomFilterImpl V) (val : V) : (f.setMinMax T val).hasMM = true := by
  unfold setMinMax
  split
  . next h _ _ =>
    repeat' split
    all_goals simp [h]
  . rfl

theorem setMinMax_minValue (f : BloomFilterImpl V) (val : V) (h : f.hasMM = false)
    : (f.setMinMax T val).minValue = some val := by
  simp [setMinMax, h]

theorem includeHashInternal_congr (f g : BloomFilterImpl V) (hash64 : BitVec 64)
    (hset : g.bitSet = f.bitSet) (hbits : g.numBits = f.numBits)
    (hfun : g.numHashFunctions = f.numHashFunctions)
    : g.includeHashInternal hash64 = f.includeHashInternal hash64 := by
  rw [Bool.eq_iff_iff, includeHashInternal_iff, includeHashInternal_iff, hset, hbits, hfun]

-- `own` are the values added to the filter itself since its last reset, `united` those of the
-- filters united into it since then.
inductive Reachable (T : BaseType V Datum) : BloomFilterImpl V → List V → List V → Prop where
  | new (dataType typeMod collation type expectedEntries nb hashFunctions addMinMax f)
      (h : new T dataType typeMod collation type expectedEntries nb hashFunctions addMinMax = .ok f)
      : Reachable T f [] []
  | addValue (f own united val f') (hf : Reachable T f own united)
      (h : f.addValue T val = .ok f')
      : Reachable T f' (val :: own) united
  | addDatum (f own united datum f') (hf : Reachable T f own united)
      (h : f.addDatum T datum = .ok f')
      : Reachable T f' (T.datumToValue f.dataType datum :: own) united
  | unionAll (f own united that own' united' f') (hf : Reachable T f own united)
      (hthat : Reachable T that own' united') (h : f.unionAll that = .ok f')
      : Reachable T f' own (own' ++ united' ++ united)
  | reset (f own united) (hf : Reachable T f own united)
      : Reachable T f.reset [] []
  | rebuild (f own united) (hf : Reachable T f own united)
      : Reachable T (rebuildBloomFilterValue f.makeBloomFilterSet) own united

structure Inv (T : BaseType V Datum) (f : BloomFilterImpl V) (own united : List V) : Prop where
  wf : WF f
  numValues : f.numValues = own.length
  bits : ∀ v ∈ own ++ united, f.includeHashInternal (T.hash64 v) = true
  hasMM : f.addMinMax = true → own = [] → f.hasMM = false
  minValue : f.addMinMax = true → ∀ v, own = [v] → f.minValue = some v

theorem new_inv (dataType : DataType) (typeMod collation : BitVec 32)
    (type : BloomFilterType) (expectedEntries : Int) (nb hashFunctions : Nat) (addMinMax : Bool)
    (f : BloomFilterImpl V)
    (h : new T dataType typeMod collation type expectedEntries nb hashFunctions addMinMax = .ok f)
    : Inv T f [] [] := by
  unfold new at h
  split at h
  . cases h
  . simp only [Except.ok.injEq] at h
    subst h
    have hmul : (nb + (64 - nb % 64)) % 64 = 0 := by omega
    constructor
    . constructor
      . simp only
        omega
      . simp only [BitSet.new, hmul, length_replicate, if_true]
        omega
    . rfl
    . simp
    . simp
    . simp

theorem addValue_inv (f f' : BloomFilterImpl V) (own united : List V)
    (val : V) (hf : Inv T f own united) (h : f.addValue T val = .ok f')
    : Inv T f' (val :: own) united := by
  unfold addValue at h
  generalize hg : (if f.addMinMax then f.setMinMax T val else f) = g at h
  obtain ⟨⟨hset, hbits, hfun, hvals, hadd⟩, hwf⟩ := setMinMaxIf_frame T hf.wf hg
  obtain ⟨hwf', hvals', hmin', hmm', hadd', hself, hmono⟩ := addHash_spec g f' _ hwf h
  constructor
  . exact hwf'
  . rw [hvals', hvals, hf.numValues, length_cons]
  . intro v hv
    simp only [cons_append, mem_cons] at hv
    cases hv with
    | inl heq => rw [heq, hself]
    | inr hmem =>
      apply hmono
      rw [includeHashInternal_congr f g _ hset hbits hfun]
      apply hf.bits v hmem
  . simp
  . intro hflag v hv
    rw [hadd', hadd] at hflag
    simp only [List.cons.injEq] at hv
    rw [hmin', ← hg, if_pos hflag, setMinMax_minValue T f val (hf.hasMM hflag hv.2), hv.1]

theorem unionAll_inv (f that f' : BloomFilterImpl V)
    (own united own' united' : List V) (hf : Inv T f own united) (hthat : Inv T that own' united')
    (h : f.unionAll that = .ok f')
    : Inv T f' own (own' ++ united' ++ united) := by
  unfold unionAll at h
  split at h
  . next hcomp =>
    simp only [Except.ok.injEq] at h
    subst h
    have hlen : f.bitSet.data.length = that.bitSet.data.length := by
      have h1 := hf.wf.length
      have h2 := hthat.wf.length
      omega
    constructor
    . constructor
      . exact hf.wf.pos
      . rw [BitSet.length_unionAll]
        exact hf.wf.length
    . exact hf.numValues
    . intro v hv
      rw [includeHashInternal_iff]
      intro i hi
      rw [BitSet.get_unionAll _ _ _ hlen, Bool.or_eq_true]
      simp only [mem_append] at hv
      rcases hv with hown | (hthat' | hunited)
      . left
        apply (includeHashInternal_iff _ _).mp (hf.bits v (by simp [hown])) i hi
      . right
        have hbits := (includeHashInternal_iff _ _).mp (hthat.bits v (by simpa using hthat')) i
        rw [← hcomp.1, ← hcomp.2] at hbits
        apply hbits hi
      . left
        apply (includeHashInternal_iff _ _).mp (hf.bits v (by simp [hunited])) i hi
    . exact hf.hasMM
    . exact hf.minValue
  . cases h

theorem reset_inv (f : BloomFilterImpl V) (own united : List V) (hf : Inv T f own united)
    : Inv T f.reset [] [] := by
  constructor
  . constructor
    . exact hf.wf.pos
    . simp only [reset, BitSet.clear, length_map]
      exact hf.wf.length
  . rfl
  . simp
  . simp [reset]
  . simp

theorem rebuild_inv (f : BloomFilterImpl V) (own united : List V) (hf : Inv T f own united)
    : Inv T (rebuildBloomFilterValue f.makeBloomFilterSet) own united := by
  have hset : (rebuildBloomFilterValue f.makeBloomFilterSet).bitSet = f.bitSet := by
    simp [rebuildBloomFilterValue, makeBloomFilterSet]
  constructor
  . constructor
    . exact hf.wf.pos
    . rw [hset]
      exact hf.wf.length
  . exact hf.numValues
  . intro v hv
    rw [includeHashInternal_congr f _ _ hset rfl rfl]
    apply hf.bits v hv
  . exact hf.hasMM
  . exact hf.minValue

theorem Reachable.inv (f : BloomFilterImpl V) (own united : List V) (h : Reachable T f own united)
    : Inv T f own united := by
  induction h with
  | new dataType typeMod collation type expectedEntries nb hashFunctions addMinMax f h =>
    apply new_inv T dataType typeMod collation type expectedEntries nb hashFunctions addMinMax f h
  | addValue f own united val f' _ h ih => apply addValue_inv T f f' own united val ih h
  | addDatum f own united datum f' _ h ih =>
    apply addValue_inv T f f' own united (T.datumToValue f.dataType datum) ih h
  | unionAll f own united that own' united' f' _ _ h ihf ihthat =>
    apply unionAll_inv T f that f' own united own' united' ihf ihthat h
  | reset f own united _ ih => apply reset_inv T f own united ih
  | rebuild f own united _ ih => apply rebuild_inv T f own united ih

variable [DecidableEq V]

theorem includeValue_of_bits (f : BloomFilterImpl V) (v : V)
    (hshort : ¬ (f.addMinMax = true ∧ f.numValues = 1))
    : f.includeValue T v = f.includeHashInternal (T.hash64 v) := by
  simp [includeValue, hshort]

theorem includeValue_of_single (f : BloomFilterImpl V) (v w : V)
    (hadd : f.addMinMax = true) (hnum : f.numValues = 1) (hmin : f.minValue = some w)
    : f.includeValue T v = true ↔ v = w := by
  simp only [includeValue, hadd, hnum, hmin, and_self, if_true, Option.some.injEq, decide_eq_true_eq]
  exact eq_comm

-- The shortcut for one value forgets what was united into the filter.
theorem includeValue_iff_of_reachable (T : BaseType V Datum) (f : BloomFilterImpl V)
    (own united : List V) (h : Reachable T f own united)
    : ((∀ v ∈ own ++ united, f.includeValue T v = true)
          ∧ ∀ d, T.datumToValue f.dataType d ∈ own ++ united → f.includeDatum T d = true)
        ↔
      (f.addMinMax = true → own.length = 1 → ∀ v ∈ united, v ∈ own) := by
  have hinv := h.inv
  have hdatum : (∀ v ∈ own ++ united, f.includeValue T v = true) →
      ∀ d, T.datumToValue f.dataType d ∈ own ++ united → f.includeDatum T d = true := by
    intro hall d hd
    apply hall _ hd
  constructor
  . rintro ⟨hall, _⟩ hadd hlen v hv
    obtain ⟨w, rfl⟩ := List.length_eq_one_iff.mp hlen
    have hmin := hinv.minValue hadd w rfl
    have hnum := hinv.numValues
    have heq := (includeValue_of_single T f v w hadd hnum hmin).mp (hall v (by simp [hv]))
    simp [heq]
  . intro hcond
    have hall : ∀ v ∈ own ++ united, f.includeValue T v = true := by
      intro v hv
      by_cases hshort : f.addMinMax = true ∧ f.numValues = 1
      . have hnum := hinv.numValues
        rw [hshort.2] at hnum
        obtain ⟨w, rfl⟩ := List.length_eq_one_iff.mp hnum.symm
        rw [includeValue_of_single T f v w hshort.1 hshort.2 (hinv.minValue hshort.1 w rfl)]
        simp only [List.singleton_append, List.mem_cons] at hv
        cases hv with
        | inl heq => exact heq
        | inr hmem => simpa using hcond hshort.1 rfl v hmem
      . rw [includeValue_of_bits T f v hshort]
        apply hinv.bits v hv
    exact ⟨hall, hdatum hall⟩

theorem includeValue_iff_of_reachable_noMinMax
    : ∃ f, Reachable int64Type f [1] [2]
        ∧ f.includeValue int64Type 1 = true ∧ f.includeValue int64Type 2 = true := by
  refine ⟨_, .unionAll _ [1] [] _ [2] [] _
    (.addValue _ [] [] 1 _ (.new .int4 0 0 .hashjoin 50000 311761 4 false _ rfl) rfl)
    (.addValue _ [] [] 2 _ (.new .int4 0 0 .hashjoin 50000 311761 4 true _ rfl) rfl) rfl, ?_⟩
  have hall := ((includeValue_iff_of_reachable int64Type _ [1] [2] (.unionAll _ [1] [] _ [2] [] _
    (.addValue _ [] [] 1 _ (.new .int4 0 0 .hashjoin 50000 311761 4 false _ rfl) rfl)
    (.addValue _ [] [] 2 _ (.new .int4 0 0 .hashjoin 50000 311761 4 true _ rfl) rfl) rfl)).mpr
    (by intro h; cases h)).1
  exact ⟨hall 1 (by simp), hall 2 (by simp)⟩

theorem includeValue_unionAll_lost
    : ∃ f, Reachable int64Type f [1] [2] ∧ f.includeValue int64Type 2 = false := by
  refine ⟨_, .unionAll _ [1] [] _ [2] [] _
    (.addValue _ [] [] 1 _ (.new .int4 0 0 .hashjoin 50000 311761 4 true _ rfl) rfl)
    (.addValue _ [] [] 2 _ (.new .int4 0 0 .hashjoin 50000 311761 4 true _ rfl) rfl) rfl, ?_⟩
  decide

end BloomFilterImpl

end BloomFilter

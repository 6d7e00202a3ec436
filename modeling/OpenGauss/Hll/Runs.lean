import OpenGauss.Hll.Transform

/-!
This module contains that a sketch depends on the set of hashes alone, over every run of `HllAdd`,
`HllUnion` and `HllCopy` over any number of sketches.
-/

open List

namespace Hll

variable {S : Finset UInt64} {hashes : List UInt64} {o : HllObject} {s : Sketches}
variable {hllData : List UInt8} {hashval : UInt64}

def HllData.reg (p : HllPara) : HllData → Nat → Nat
  | .uninit, _ => 0
  | .empty, _ => 0
  | .explicit hashes, i => register p hashes.toFinset i
  | .sparse hllData, i => (decode hllData).getD i 0
  | .full hllData, i => (hllData.getD i 0).toNat

def Denotes (p : HllPara) (S : Finset UInt64) : HllData → Prop
  | .uninit => S = ∅
  | .empty => S = ∅
  | .explicit hashes => hashes.Pairwise (· < ·) ∧ hashes.toFinset = S
  | .sparse hllData => AllUsed hllData ∧ (decode hllData).length = 2 ^ p.log2Registers
      ∧ ∀ i, (decode hllData).getD i 0 = register p S i
  | .full hllData => hllData.length = 2 ^ p.log2Registers
      ∧ ∀ i, (hllData.getD i 0).toNat = register p S i

theorem Denotes.reg_eq {p : HllPara} {d : HllData} (h : Denotes p S d) (i : Nat)
    : d.reg p i = register p S i := by
  cases d with
  | uninit =>
    rw [show S = ∅ from h]
    rfl
  | empty =>
    rw [show S = ∅ from h]
    rfl
  | explicit hashes => rw [HllData.reg, h.2]
  | sparse hllData => exact h.2.2 i
  | full hllData => exact h.2 i

section Add

variable {p : HllPara} {S : Finset UInt64}

theorem hllTransformFull_sparse (h : Denotes p S (.sparse hllData))
    : ∃ full, hllTransformFull p (.sparse hllData) = .ok (.full full) ∧ Denotes p S (.full full) := by
  obtain ⟨hused, hlen, hget⟩ := h
  have hzero (i : Nat) : (List.replicate (2 ^ p.log2Registers) (0 : UInt8)).getD i 0 = 0 := by
    rw [getD_eq_getElem?_getD, getElem?_replicate]
    split <;> rfl
  obtain ⟨full, hfull, hlength, hbytes⟩ := sparseToFull_spec hllData hused 0
    (List.replicate (2 ^ p.log2Registers) 0) (by rw [length_replicate]; omega)
    (fun i _ => hzero i)
  refine ⟨full, ?_, ?_, ?_⟩
  . simp [hllTransformFull, hfull]
  . rw [hlength, length_replicate]
  . intro i
    rw [hbytes, if_neg (by omega), Nat.sub_zero, hget]

theorem hllTransformFull_explicit (hp : p.InRange)
    (h : Denotes p S (.explicit hashes)) (hmax : LargestCarriesMax p S)
    : ∃ full, hllTransformFull p (.explicit hashes) = .ok (.full full)
        ∧ Denotes p S (.full full) := by
  obtain ⟨hsorted, hset⟩ := h
  subst hset
  refine ⟨_, rfl, ?_, ?_⟩
  . exact (explicitToFull_spec hp hashes _ length_replicate hsorted).1
  . intro i
    exact explicitToFull_register hp hashes hsorted hmax i

def TurnsFull (p : HllPara) (count : Nat) : Prop :=
  hllExplicitUint * count > 2 ^ p.log2Explicitsize ∧ p.log2Sparsesize ≤ p.log2Explicitsize

theorem hllExplicitCheck_spec (hp : p.InRange) (h : Denotes p S (.explicit hashes))
    (hmax : TurnsFull p hashes.length → LargestCarriesMax p S)
    : ∃ d, hllExplicitCheck p hashes = .ok d ∧ Denotes p S d := by
  simp only [hllExplicitCheck]
  by_cases hlong : (HllData.explicit hashes).lenUsed > 2 ^ p.log2Explicitsize
  . rw [if_pos hlong]
    by_cases hsparse : p.log2Sparsesize > p.log2Explicitsize
    . rw [if_pos hsparse]
      have hdenotes : Denotes p S (.sparse (hllExplicitToSparse p hashes)) := by
        rw [← h.2]
        exact hllExplicitToSparse_spec hp hashes h.1
      simp only [hllTransformSparse, bind, Except.bind]
      split
      . obtain ⟨full, hfull, hfullDenotes⟩ := hllTransformFull_sparse hdenotes
        exact ⟨_, hfull, hfullDenotes⟩
      . exact ⟨_, rfl, hdenotes⟩
    . rw [if_neg hsparse]
      obtain ⟨full, hfull, hfullDenotes⟩ :=
        hllTransformFull_explicit hp h (hmax ⟨hlong, Nat.le_of_not_lt hsparse⟩)
      exact ⟨_, hfull, hfullDenotes⟩
  . rw [if_neg hlong]
    exact ⟨_, rfl, h⟩

theorem upperBound_spec (hashes : List UInt64) (hashval : UInt64) (hsorted : hashes.Pairwise (· < ·))
    : ∀ turns start last, last - start ≤ turns → start ≤ last → last ≤ hashes.length →
        (∀ i, i < start → hashes.getD i 0 ≤ hashval) →
        (∀ i, last ≤ i → i < hashes.length → hashval < hashes.getD i 0) →
        upperBound hashes hashval turns start last ≤ hashes.length
          ∧ (∀ i, i < upperBound hashes hashval turns start last → hashes.getD i 0 ≤ hashval)
          ∧ (∀ i, upperBound hashes hashval turns start last ≤ i → i < hashes.length →
              hashval < hashes.getD i 0) := by
  have hmono (i j : Nat) (hij : i < j) (hj : j < hashes.length) :
      (hashes.getD i 0).toNat < (hashes.getD j 0).toNat := by
    rw [getD_eq_getElem _ _ hj, getD_eq_getElem _ _ (by omega)]
    exact UInt64.lt_iff_toNat_lt.1 (pairwise_iff_getElem.1 hsorted i j _ hj hij)
  intro turns
  induction turns with
  | zero =>
    intro start last hturns hle hlast hbelow habove
    have heq : start = last := by omega
    subst heq
    exact ⟨hlast, hbelow, habove⟩
  | succ turns ih =>
    intro start last hturns hle hlast hbelow habove
    rw [upperBound]
    by_cases hrange : start < last
    . simp only [hrange, if_true]
      by_cases hmid : hashes.getD ((start + last) / 2) 0 ≤ hashval
      . rw [if_pos hmid]
        apply ih _ _ (by omega) (by omega) hlast _ habove
        intro i hi
        rw [UInt64.le_iff_toNat_le] at *
        by_cases heq : i = (start + last) / 2
        . rw [heq]
          exact hmid
        . have hlt := hmono i ((start + last) / 2) (by omega) (by omega)
          omega
      . rw [if_neg hmid]
        rw [UInt64.not_le] at hmid
        apply ih _ _ (by omega) (by omega) (by omega) hbelow
        intro i hi hilen
        rw [UInt64.lt_iff_toNat_lt] at *
        by_cases heq : i = (start + last) / 2
        . rw [heq]
          exact hmid
        . have hlt := hmono ((start + last) / 2) i (by omega) hilen
          omega
    . rw [if_neg hrange]
      have heq : start = last := by omega
      subst heq
      exact ⟨hlast, hbelow, habove⟩

theorem hllUpdateValue_insert {α : Type} (unit : Nat) (xs : List α) (index : Nat) (x : α)
    (h : index ≤ xs.length)
    : hllUpdateValue unit xs index [x] 0 = .ok (xs.take index ++ x :: xs.drop index) := by
  rw [hllUpdateValue, if_neg (by omega), if_neg (by simp)]
  simp

theorem denotes_insert {bindex : Nat} (h : Denotes p S (.explicit hashes))
    (hbelow : ∀ i, i < bindex → hashes.getD i 0 < hashval)
    (habove : ∀ i, bindex ≤ i → i < hashes.length → hashval < hashes.getD i 0)
    : Denotes p (insert hashval S) (.explicit (hashes.take bindex ++ hashval :: hashes.drop bindex)) := by
  obtain ⟨hsorted, hset⟩ := h
  have htake (h : UInt64) (hmem : h ∈ hashes.take bindex) : h < hashval := by
    obtain ⟨i, hi, hget⟩ := mem_iff_getElem.1 hmem
    rw [length_take] at hi
    have hlt := hbelow i (by omega)
    rw [getD_eq_getElem _ _ (by omega)] at hlt
    rw [getElem_take] at hget
    rw [← hget]
    exact hlt
  have hdrop (h : UInt64) (hmem : h ∈ hashes.drop bindex) : hashval < h := by
    obtain ⟨i, hi, hget⟩ := mem_iff_getElem.1 hmem
    rw [length_drop] at hi
    have hlt := habove (bindex + i) (by omega) (by omega)
    rw [getD_eq_getElem _ _ (by omega)] at hlt
    rw [getElem_drop] at hget
    rw [← hget]
    exact hlt
  constructor
  . rw [pairwise_append]
    refine ⟨hsorted.sublist (take_sublist _ _), ?_, ?_⟩
    . exact pairwise_cons.2 ⟨hdrop, hsorted.sublist (drop_sublist _ _)⟩
    . intro a ha b hb
      cases mem_cons.1 hb with
      | inl heq =>
        rw [heq]
        exact htake a ha
      | inr hmem => exact UInt64.lt_trans (htake a ha) (hdrop b hmem)
  . ext a
    rw [← hset, Finset.mem_insert, mem_toFinset, mem_toFinset]
    conv => rhs; rw [← take_append_drop bindex hashes]
    simp only [mem_append, mem_cons]
    tauto

theorem getD_lt_of_not_found {bindex : Nat} (hsorted : hashes.Pairwise (· < ·)) (hle : bindex ≤ hashes.length)
    (hbelow : ∀ i, i < bindex → hashes.getD i 0 ≤ hashval)
    (hfound : ¬(bindex > 0 ∧ hashes.getD (bindex - 1) 0 = hashval)) (i : Nat) (hi : i < bindex)
    : hashes.getD i 0 < hashval := by
  have hlast := hbelow (bindex - 1) (by omega)
  have hne : hashes.getD (bindex - 1) 0 ≠ hashval := by
    intro heq
    apply hfound
    exact And.intro (by omega) heq
  have hnat : (hashes.getD (bindex - 1) 0).toNat ≠ hashval.toNat := by
    intro heq
    apply hne
    exact UInt64.toNat_inj.1 heq
  rw [UInt64.le_iff_toNat_le] at hlast
  rw [UInt64.lt_iff_toNat_lt]
  by_cases heq : i = bindex - 1
  . rw [heq]
    omega
  . have hlt := UInt64.lt_iff_toNat_lt.1
      (pairwise_iff_getElem.1 hsorted i (bindex - 1) (by omega) (by omega) (by omega))
    rw [getD_eq_getElem _ _ (by omega)] at hlast hnat
    rw [getD_eq_getElem _ _ (by omega)]
    omega

theorem hllSetExplicitValue_spec (hp : p.InRange) (hashval : UInt64) (h : Denotes p S (.explicit hashes))
    (hmax : hashval ∉ S → TurnsFull p (hashes.length + 1) → LargestCarriesMax p (insert hashval S))
    : ∃ d, hllSetExplicitValue p hashes hashval = .ok d ∧ Denotes p (insert hashval S) d
        := by
  obtain ⟨hle, hbelow, habove⟩ := upperBound_spec hashes hashval h.1 hashes.length 0 hashes.length
    (by omega) (by omega) (Nat.le_refl _) (fun i hi => absurd hi (by omega))
    (fun i hi hilen => absurd hilen (Nat.not_lt.2 hi))
  simp only [hllSetExplicitValue]
  generalize upperBound hashes hashval hashes.length 0 hashes.length = bindex at hle hbelow habove ⊢
  by_cases hfound : bindex > 0 ∧ hashes.getD (bindex - 1) 0 = hashval
  . have hmem : hashval ∈ S := by
      rw [← h.2, mem_toFinset, ← hfound.2, getD_eq_getElem _ _ (by omega)]
      exact getElem_mem _
    rw [if_pos hfound, Finset.insert_eq_of_mem hmem]
    exact ⟨_, rfl, h⟩
  . have hsmaller := getD_lt_of_not_found h.1 hle hbelow hfound
    have hdenotes := denotes_insert h hsmaller habove
    have hnot : hashval ∉ S := by
      intro hmem
      rw [← h.2, mem_toFinset] at hmem
      obtain ⟨i, hi, hget⟩ := mem_iff_getElem.1 hmem
      rw [← getD_eq_getElem _ 0 hi] at hget
      by_cases hlt : i < bindex
      . have hless := hsmaller i hlt
        rw [hget] at hless
        exact absurd hless (UInt64.lt_irrefl _)
      . have hless := habove i (by omega) hi
        rw [hget] at hless
        exact absurd hless (UInt64.lt_irrefl _)
    have hlen : (hashes.take bindex ++ hashval :: hashes.drop bindex).length
        = hashes.length + 1 := by
      simp only [length_append, length_take, length_cons, length_drop]
      omega
    rw [if_neg hfound, hllUpdateValue_insert _ _ _ _ hle]
    apply hllExplicitCheck_spec hp hdenotes
    rw [hlen]
    exact hmax hnot

theorem register_insert_zero (hzero : hashValue p hashval = 0) (i : Nat)
    : register p (insert hashval S) i = register p S i := by
  rw [register_insert, hzero, Nat.zero_max, ite_self]

theorem hllSetSparseValue_spec (hp : p.InRange) (hashval : UInt64) (h : Denotes p S (.sparse hllData))
    : ∃ d, hllSetSparseValue p hllData hashval = .ok d ∧ Denotes p (insert hashval S) d
        := by
  obtain ⟨hused, hlen, hget⟩ := h
  have hpair : hllHashToValue p hashval
      = (hashIndex p hashval, (hllHashToValue p hashval).2) := rfl
  rw [hllSetSparseValue, hpair]
  by_cases hzero : (hllHashToValue p hashval).2 = 0
  . simp only [hzero, if_true]
    refine ⟨_, rfl, ⟨hused, hlen, ?_⟩⟩
    intro i
    rw [hget, register_insert_zero ((value_eq_zero_iff hashval).1 hzero)]
  . have hle : (hllHashToValue p hashval).2.toNat ≤ 54 := hashValue_le hp hashval
    have hindex := hashIndex_lt hp hashval
    obtain ⟨byteIndex, unitIndex, hllData', hunit, hupdate, hdecode, hused'⟩ :=
      updateRegister_spec p hllData (hashIndex p hashval) hused (by omega) hzero (by omega)
    have hdenotes : Denotes p (insert hashval S) (.sparse hllData') := by
      refine ⟨hused', by rw [hdecode, length_set, hlen], ?_⟩
      intro i
      rw [hdecode, getD_set _ _ _ _ _ (by omega), register_insert, hget, hget]
      by_cases heq : hashIndex p hashval = i
      . rw [if_pos heq, if_pos heq, heq]
        rfl
      . rw [if_neg heq, if_neg heq]
    simp only [hzero, if_false, hunit, hupdate, bind, Except.bind]
    split
    . obtain ⟨full, hfull, hfullDenotes⟩ := hllTransformFull_sparse hdenotes
      exact ⟨_, hfull, hfullDenotes⟩
    . exact ⟨_, rfl, hdenotes⟩

theorem hllSetFullValue_spec (hp : p.InRange) (hashval : UInt64) (h : Denotes p S (.full hllData))
    : ∃ d, hllSetFullValue p hllData hashval = .ok d ∧ Denotes p (insert hashval S) d
        := by
  obtain ⟨hlen, hget⟩ := h
  have hpair : hllHashToValue p hashval
      = (hashIndex p hashval, (hllHashToValue p hashval).2) := rfl
  rw [hllSetFullValue, hpair]
  by_cases hzero : (hllHashToValue p hashval).2 = 0
  . simp only [hzero, if_true]
    refine ⟨_, rfl, ⟨hlen, ?_⟩⟩
    intro i
    rw [hget, register_insert_zero ((value_eq_zero_iff hashval).1 hzero)]
  . have hindex := hashIndex_lt hp hashval
    have hbyte : hllGetByte hllData (hashIndex p hashval)
        = .ok (hllData.getD (hashIndex p hashval) 0) := by
      rw [hllGetByte, getElem?_eq_getElem (by omega), getD_eq_getElem _ _ (by omega)]
    have hold := hget (hashIndex p hashval)
    have hvalue : (hllHashToValue p hashval).2.toNat = hashValue p hashval := rfl
    simp only [hzero, if_false, hbyte, bind, Except.bind, pure, Except.pure]
    by_cases hless : (hllHashToValue p hashval).2 > hllData.getD (hashIndex p hashval) 0
    . have hset : hllSetByte hllData (hashIndex p hashval) (hllHashToValue p hashval).2
          = .ok (hllData.set (hashIndex p hashval) (hllHashToValue p hashval).2) := by
        rw [hllSetByte, if_neg (by omega)]
      simp only [hless, if_true, hset]
      refine ⟨_, rfl, ⟨by rw [length_set, hlen], ?_⟩⟩
      intro i
      rw [gt_iff_lt, UInt8.lt_iff_toNat_lt] at hless
      rw [getD_set _ _ _ _ _ (by omega), register_insert]
      by_cases heq : hashIndex p hashval = i
      . rw [if_pos heq, if_pos heq, ← heq, ← hold, hvalue, Nat.max_eq_left (by omega)]
      . rw [if_neg heq, if_neg heq, hget]
    . simp only [hless, if_false]
      refine ⟨_, rfl, ⟨hlen, ?_⟩⟩
      intro i
      rw [gt_iff_lt, UInt8.lt_iff_toNat_lt] at hless
      rw [hget, register_insert]
      by_cases heq : hashIndex p hashval = i
      . rw [if_pos heq, ← heq, ← hold, Nat.max_eq_right (by omega)]
      . rw [if_neg heq]

theorem hllSetEmptyValue_spec (hp : p.InRange) (hashval : UInt64)
    (hmax : TurnsFull p 1 → LargestCarriesMax p {hashval})
    : ∃ d, hllSetEmptyValue p hashval = .ok d ∧ Denotes p {hashval} d
        := by
  have hinsert : ({hashval} : Finset UInt64) = insert hashval ∅ := rfl
  rw [hinsert] at hmax ⊢
  rw [hllSetEmptyValue]
  split
  . apply hllSetFullValue_spec hp hashval
    refine ⟨length_replicate, ?_⟩
    intro i
    rw [register_empty, HllData.hllData, getD_eq_getElem?_getD, getElem?_replicate]
    split <;> rfl
  . split
    . apply hllSetSparseValue_spec hp hashval
      obtain ⟨hdecode, hused⟩ := hllEmptyToSparse_spec hp
      refine ⟨hused, ?_, ?_⟩
      . rw [HllData.hllData, hdecode, length_replicate]
      . intro i
        rw [HllData.hllData, hdecode, getD_replicate_zero, register_empty]
    . apply hllSetExplicitValue_spec hp hashval ⟨List.Pairwise.nil, rfl⟩
      intro _
      exact hmax

end Add

section Union

variable {p : HllPara} {S T : Finset UInt64}

theorem combineHashes_spec (hashes1 hashes2 : List UInt64)
    : hashes1.Pairwise (· < ·) → hashes2.Pairwise (· < ·) → (combineHashes hashes1 hashes2).Pairwise (· < ·)
          ∧ ∀ a, a ∈ combineHashes hashes1 hashes2 ↔ a ∈ hashes1 ∨ a ∈ hashes2 := by
  fun_induction combineHashes hashes1 hashes2 with
  | case1 hashes2 =>
    intro _ hsorted
    exact ⟨hsorted, by simp⟩
  | case2 hashes1 _ =>
    intro hsorted _
    exact ⟨hsorted, by simp⟩
  | case3 h1 rest1 h2 rest2 hlt ih =>
    intro hsorted1 hsorted2
    obtain ⟨hfirst1, hrest1⟩ := pairwise_cons.1 hsorted1
    obtain ⟨hfirst2, _⟩ := pairwise_cons.1 hsorted2
    obtain ⟨hsorted, hmem⟩ := ih hrest1 hsorted2
    constructor
    . apply pairwise_cons.2 ⟨_, hsorted⟩
      intro a ha
      cases (hmem a).1 ha with
      | inl hin => exact hfirst1 a hin
      | inr hin =>
        cases mem_cons.1 hin with
        | inl heq =>
          rw [heq]
          exact hlt
        | inr hin => exact UInt64.lt_trans hlt (hfirst2 a hin)
    . intro a
      rw [mem_cons, hmem, mem_cons, mem_cons]
      tauto
  | case4 h1 rest1 h2 rest2 _ hgt ih =>
    intro hsorted1 hsorted2
    obtain ⟨hfirst1, _⟩ := pairwise_cons.1 hsorted1
    obtain ⟨hfirst2, hrest2⟩ := pairwise_cons.1 hsorted2
    obtain ⟨hsorted, hmem⟩ := ih hsorted1 hrest2
    constructor
    . apply pairwise_cons.2 ⟨_, hsorted⟩
      intro a ha
      cases (hmem a).1 ha with
      | inl hin =>
        cases mem_cons.1 hin with
        | inl heq =>
          rw [heq]
          exact hgt
        | inr hin => exact UInt64.lt_trans hgt (hfirst1 a hin)
      | inr hin => exact hfirst2 a hin
    . intro a
      rw [mem_cons, hmem, mem_cons, mem_cons]
      tauto
  | case5 h1 rest1 h2 rest2 hnlt hngt ih =>
    intro hsorted1 hsorted2
    obtain ⟨hfirst1, hrest1⟩ := pairwise_cons.1 hsorted1
    obtain ⟨hfirst2, hrest2⟩ := pairwise_cons.1 hsorted2
    obtain ⟨hsorted, hmem⟩ := ih hrest1 hrest2
    have heq : h1 = h2 := by
      rw [UInt64.lt_iff_toNat_lt] at hnlt
      rw [gt_iff_lt, UInt64.lt_iff_toNat_lt] at hngt
      apply UInt64.toNat_inj.1
      omega
    subst heq
    constructor
    . apply pairwise_cons.2 ⟨_, hsorted⟩
      intro a ha
      cases (hmem a).1 ha with
      | inl hin => exact hfirst1 a hin
      | inr hin => exact hfirst2 a hin
    . intro a
      rw [mem_cons, hmem, mem_cons, mem_cons]
      tauto

theorem denotes_combineHashes {hashes1 hashes2 : List UInt64} (h1 : Denotes p S (.explicit hashes1))
    (h2 : Denotes p T (.explicit hashes2))
    : Denotes p (S ∪ T) (.explicit (combineHashes hashes1 hashes2)) := by
  obtain ⟨hsorted, hmem⟩ := combineHashes_spec hashes1 hashes2 h1.1 h2.1
  refine ⟨hsorted, ?_⟩
  ext a
  rw [mem_toFinset, hmem, Finset.mem_union, ← h1.2, ← h2.2, mem_toFinset, mem_toFinset]

theorem denotes_combineBytes {bytes1 bytes2 : List UInt8} (h1 : Denotes p S (.full bytes1))
    (h2 : Denotes p T (.full bytes2)) : Denotes p (S ∪ T) (.full (combineBytes bytes1 bytes2)) := by
  obtain ⟨hlen1, hget1⟩ := h1
  obtain ⟨hlen2, hget2⟩ := h2
  refine ⟨by rw [combineBytes, length_mapIdx, hlen1], ?_⟩
  intro i
  rw [register_union, ← hget1, ← hget2]
  by_cases hi : i < bytes1.length
  . rw [combineBytes, getD_eq_getElem _ _ (by rw [length_mapIdx]; exact hi),
      getElem_mapIdx, getD_eq_getElem bytes1 _ hi]
    split
    . next hless =>
      rw [UInt8.lt_iff_toNat_lt] at hless
      omega
    . next hless =>
      rw [UInt8.lt_iff_toNat_lt] at hless
      omega
  . rw [getD_eq_default _ _ (by rw [combineBytes, length_mapIdx]; omega),
      getD_eq_default _ _ (by omega), getD_eq_default _ _ (by omega)]
    rfl

end Union

inductive Op where
  | hllAdd (i : Nat) (hashval : UInt64)
  | hllUnion (i j : Nat)
  | hllCopy (i j : Nat)

structure Sketches where
  objects : Nat → HllObject
  -- The hashes added to each sketch or to any sketch merged into it.
  added : Nat → Finset UInt64

def step (s : Sketches) : Op → Except String Sketches
  | .hllAdd i hashval => do
    let o ← hllAdd (s.objects i) hashval
    return {
      objects := Function.update s.objects i o
      added := Function.update s.added i (insert hashval (s.added i))
    }
  | .hllUnion i j => do
    let (o, aHll) ← hllUnion (s.objects i) (s.objects j)
    return {
      objects := Function.update (Function.update s.objects j aHll) i o
      added := Function.update s.added i (s.added i ∪ s.added j)
    }
  | .hllCopy i j => do
    let o ← hllCopy (s.objects i) (s.objects j)
    return {
      objects := Function.update s.objects i o
      added := Function.update s.added i (s.added j)
    }

def run : Sketches → List Op → Except String Sketches
  | s, [] => .ok s
  | s, op :: ops => do run (← step s op) ops

def Fresh (s : Sketches) : Prop :=
  ∀ i, ((s.objects i).data = .uninit ∨ (s.objects i).data = .empty) ∧ (s.objects i).lastHash = 0
    ∧ s.added i = ∅
    ∧ hllCheckPararange (s.objects i).hllpara.log2Registers (s.objects i).hllpara.log2Explicitsize
        (s.objects i).hllpara.log2Sparsesize (s.objects i).hllpara.duplicateCheck = .ok ()

def Allowed (s : Sketches) : Op → Prop
  | .hllAdd _ hashval => hashval ≠ 0
  | .hllUnion i j => (s.objects i).hllpara = (s.objects j).hllpara
  | .hllCopy _ j => (s.objects j).data ≠ .uninit

def Meets (s : Sketches) : Op → Prop
  | .hllAdd i hashval =>
    match (s.objects i).data with
    | .explicit hashes => hashval ∉ hashes → TurnsFull (s.objects i).hllpara (hashes.length + 1) →
        LargestCarriesMax (s.objects i).hllpara (insert hashval hashes.toFinset)
    | _ => True
  | .hllUnion i j =>
    match (s.objects i).data, (s.objects j).data with
    | .explicit hashes1, .explicit hashes2 =>
      TurnsFull (s.objects i).hllpara (hashes1.toFinset ∪ hashes2.toFinset).card →
        LargestCarriesMax (s.objects i).hllpara (hashes1.toFinset ∪ hashes2.toFinset)
    | .explicit hashes1, .sparse _ => LargestCarriesMax (s.objects i).hllpara hashes1.toFinset
    | .explicit hashes1, .full _ => LargestCarriesMax (s.objects i).hllpara hashes1.toFinset
    | .sparse _, .explicit hashes2 => LargestCarriesMax (s.objects j).hllpara hashes2.toFinset
    | .full _, .explicit hashes2 => LargestCarriesMax (s.objects j).hllpara hashes2.toFinset
    | _, _ => True
  | .hllCopy _ _ => True

def AllMeet : Sketches → List Op → Prop
  | _, [] => True
  | s, op :: ops => Allowed s op ∧ Meets s op ∧ ∀ s', step s op = .ok s' → AllMeet s' ops

section Invariant

structure Good (o : HllObject) (S : Finset UInt64) : Prop where
  inRange : o.hllpara.InRange
  denotes : Denotes o.hllpara S o.data
  lastHash : o.lastHash = 0 ∨ o.lastHash ∈ S

theorem largestCarriesMax_singleton (p : HllPara) (hashval : UInt64) : LargestCarriesMax p {hashval} := by
  intro h hmem _ h' hmem' _
  rw [Finset.mem_singleton] at hmem hmem'
  rw [hmem, hmem']

theorem hllSetRegisterValue_spec (h : Good o S) (hashval : UInt64)
    (hmax : ∀ hashes, o.data = .explicit hashes → hashval ∉ hashes → TurnsFull o.hllpara (hashes.length + 1) →
      LargestCarriesMax o.hllpara (insert hashval hashes.toFinset))
    : ∃ d, hllSetRegisterValue o.hllpara o.data hashval = .ok d
        ∧ Denotes o.hllpara (insert hashval S) d := by
  have hdenotes := h.denotes
  cases hdata : o.data with
  | uninit =>
    rw [hdata] at hdenotes
    rw [show S = ∅ from hdenotes]
    exact hllSetEmptyValue_spec h.inRange hashval (fun _ => largestCarriesMax_singleton _ _)
  | empty =>
    rw [hdata] at hdenotes
    rw [show S = ∅ from hdenotes]
    exact hllSetEmptyValue_spec h.inRange hashval (fun _ => largestCarriesMax_singleton _ _)
  | explicit hashes =>
    rw [hdata] at hdenotes
    apply hllSetExplicitValue_spec h.inRange hashval hdenotes
    intro hnot hturns
    rw [← hdenotes.2, mem_toFinset] at hnot
    rw [← hdenotes.2]
    exact hmax hashes hdata hnot hturns
  | sparse hllData =>
    rw [hdata] at hdenotes
    exact hllSetSparseValue_spec h.inRange hashval hdenotes
  | full hllData =>
    rw [hdata] at hdenotes
    exact hllSetFullValue_spec h.inRange hashval hdenotes

theorem hllAdd_spec (h : Good o S) (hashval : UInt64) (hne : hashval ≠ 0)
    (hmax : ∀ hashes, o.data = .explicit hashes → hashval ∉ hashes → TurnsFull o.hllpara (hashes.length + 1) →
      LargestCarriesMax o.hllpara (insert hashval hashes.toFinset))
    : ∃ o', hllAdd o hashval = .ok o' ∧ Good o' (insert hashval S) := by
  rw [hllAdd]
  by_cases hdup : o.hllpara.duplicateCheck ≠ 0 ∧ hashval = o.lastHash
  . rw [if_pos hdup]
    have hmem : hashval ∈ S := by
      rw [hdup.2]
      apply Or.resolve_left h.lastHash
      rw [← hdup.2]
      exact hne
    rw [Finset.insert_eq_of_mem hmem]
    exact ⟨o, rfl, h⟩
  . obtain ⟨d, hd, hdd⟩ := hllSetRegisterValue_spec h hashval hmax
    rw [if_neg hdup, hd]
    exact ⟨_, rfl, h.inRange, hdd, Or.inr (Finset.mem_insert_self _ _)⟩

theorem hllCopy_spec {aHll : HllObject} (h : Good aHll S)
    (hne : aHll.data ≠ .uninit) : ∃ o', hllCopy o aHll = .ok o' ∧ Good o' S := by
  have hdenotes := h.denotes
  cases hdata : aHll.data with
  | uninit => exact absurd hdata hne
  | empty =>
    rw [hdata] at hdenotes
    refine ⟨hllEmpty { o with hllpara := aHll.hllpara }, ?_, h.inRange, hdenotes, Or.inl rfl⟩
    simp only [hllCopy, hdata]
  | explicit hashes => exact ⟨aHll, by simp only [hllCopy, hdata], h⟩
  | sparse hllData => exact ⟨aHll, by simp only [hllCopy, hdata], h⟩
  | full hllData => exact ⟨aHll, by simp only [hllCopy, hdata], h⟩

theorem hllCheckParaequal_self (p : HllPara) : hllCheckParaequal p p = .ok () := by
  simp [hllCheckParaequal, checkEqual, bind, Except.bind]

theorem hllTransformFull_spec (h : Good o S) (hne : o.data ≠ .uninit) (hne' : o.data ≠ .empty)
    (hmax : ∀ hashes, o.data = .explicit hashes → LargestCarriesMax o.hllpara hashes.toFinset)
    : ∃ full, hllTransformFull o.hllpara o.data = .ok (.full full)
        ∧ Denotes o.hllpara S (.full full) := by
  have hdenotes := h.denotes
  cases hdata : o.data with
  | uninit => exact absurd hdata hne
  | empty => exact absurd hdata hne'
  | explicit hashes =>
    rw [hdata] at hdenotes
    apply hllTransformFull_explicit h.inRange hdenotes
    rw [← hdenotes.2]
    exact hmax hashes hdata
  | sparse hllData =>
    rw [hdata] at hdenotes
    exact hllTransformFull_sparse hdenotes
  | full hllData =>
    rw [hdata] at hdenotes
    exact ⟨hllData, rfl, hdenotes⟩

theorem length_eq_card {p : HllPara} (h : Denotes p S (.explicit hashes)) : hashes.length = S.card := by
  have hnodup : hashes.Nodup := by
    apply h.1.imp
    intro a b hlt heq
    rw [heq] at hlt
    exact absurd hlt (UInt64.lt_irrefl b)
  rw [← h.2, toFinset_card_of_nodup hnodup]

variable {o aHll : HllObject} {S T : Finset UInt64}

theorem hllUnion_argument_empty (ho : Good o S) (ha : Good aHll T)
    (hdata : aHll.data = .uninit ∨ aHll.data = .empty)
    : hllUnion o aHll = .ok (o, aHll) ∧ Good o (S ∪ T) := by
  have hdenotes := ha.denotes
  cases hdata with
  | inl hdata =>
    rw [hdata] at hdenotes
    rw [show T = ∅ from hdenotes, Finset.union_empty]
    exact ⟨by simp only [hllUnion, hdata], ho⟩
  | inr hdata =>
    rw [hdata] at hdenotes
    rw [show T = ∅ from hdenotes, Finset.union_empty]
    exact ⟨by simp only [hllUnion, hdata], ho⟩

theorem hllUnion_self_empty (ho : Good o S) (ha : Good aHll T) (hne : aHll.data ≠ .uninit)
    (hne' : aHll.data ≠ .empty) (hdata : o.data = .uninit ∨ o.data = .empty)
    : ∃ o', hllUnion o aHll = .ok (o', aHll) ∧ Good o' (S ∪ T) := by
  have hdenotes := ho.denotes
  have hS : S = ∅ := by
    cases hdata with
    | inl hdata =>
      rw [hdata] at hdenotes
      exact hdenotes
    | inr hdata =>
      rw [hdata] at hdenotes
      exact hdenotes
  obtain ⟨o', hcopy, hgood⟩ := hllCopy_spec (o := o) ha hne
  rw [hS, Finset.empty_union]
  refine ⟨o', ?_, hgood⟩
  have hunion : hllUnion o aHll = (do return (← hllCopy o aHll, aHll)) := by
    cases hdata with
    | inl hdata =>
      cases ha' : aHll.data <;> simp_all only [hllUnion, ne_eq, not_true_eq_false]
    | inr hdata =>
      cases ha' : aHll.data <;> simp_all only [hllUnion, ne_eq, not_true_eq_false]
  rw [hunion, hcopy]
  rfl

theorem hllUnion_explicit (ho : Good o S) (ha : Good aHll T) (hpara : o.hllpara = aHll.hllpara)
    {hashes1 hashes2 : List UInt64} (hdata1 : o.data = .explicit hashes1)
    (hdata2 : aHll.data = .explicit hashes2)
    (hmax : TurnsFull o.hllpara (S ∪ T).card → LargestCarriesMax o.hllpara (S ∪ T))
    : ∃ o', hllUnion o aHll = .ok (o', aHll) ∧ Good o' (S ∪ T) := by
  have hdenotes1 := ho.denotes
  have hdenotes2 := ha.denotes
  rw [hdata1] at hdenotes1
  rw [hdata2, ← hpara] at hdenotes2
  have hdenotes := denotes_combineHashes hdenotes1 hdenotes2
  obtain ⟨d, hd, hdd⟩ := hllExplicitCheck_spec ho.inRange hdenotes (by
    rw [length_eq_card hdenotes]
    exact hmax)
  refine ⟨{ o with data := d, lastHash := 0 }, ?_, ho.inRange, hdd, Or.inl rfl⟩
  simp only [hllUnion, hdata1, hdata2, ← hpara, hllCheckParaequal_self, hllComibineExplicit, hd, bind,
    Except.bind, pure, Except.pure]

theorem hllUnion_full_eq (h1 : o.data ≠ .uninit) (h1' : o.data ≠ .empty) (h2 : aHll.data ≠ .uninit)
    (h2' : aHll.data ≠ .empty)
    (hboth : ¬ ∃ hashes1 hashes2, o.data = .explicit hashes1 ∧ aHll.data = .explicit hashes2)
    : hllUnion o aHll = (do
        hllCheckParaequal o.hllpara aHll.hllpara
        let d1 ← hllTransformFull o.hllpara o.data
        let d2 ← hllTransformFull aHll.hllpara aHll.data
        return (hllCombineFull o d1.hllData d2.hllData, { aHll with data := d2 })) := by
  cases hdata1 : o.data with
  | uninit => exact absurd hdata1 h1
  | empty => exact absurd hdata1 h1'
  | explicit hashes1 =>
    cases hdata2 : aHll.data with
    | uninit => exact absurd hdata2 h2
    | empty => exact absurd hdata2 h2'
    | explicit hashes2 => exact absurd ⟨hashes1, hashes2, hdata1, hdata2⟩ hboth
    | sparse _ | full _ => simp only [hllUnion, hdata1, hdata2]
  | sparse hllData1 | full hllData1 =>
    cases hdata2 : aHll.data with
    | uninit => exact absurd hdata2 h2
    | empty => exact absurd hdata2 h2'
    | explicit _ | sparse _ | full _ => simp only [hllUnion, hdata1, hdata2]

theorem hllUnion_full (ho : Good o S) (ha : Good aHll T) (hpara : o.hllpara = aHll.hllpara)
    (h1 : o.data ≠ .uninit) (h1' : o.data ≠ .empty) (h2 : aHll.data ≠ .uninit)
    (h2' : aHll.data ≠ .empty)
    (hboth : ¬ ∃ hashes1 hashes2, o.data = .explicit hashes1 ∧ aHll.data = .explicit hashes2)
    (hmax1 : ∀ hashes, o.data = .explicit hashes → LargestCarriesMax o.hllpara hashes.toFinset)
    (hmax2 : ∀ hashes, aHll.data = .explicit hashes → LargestCarriesMax aHll.hllpara hashes.toFinset)
    : ∃ o' aHll', hllUnion o aHll = .ok (o', aHll') ∧ Good o' (S ∪ T) ∧ Good aHll' T := by
  obtain ⟨full1, hfull1, hdenotes1⟩ := hllTransformFull_spec ho h1 h1' hmax1
  obtain ⟨full2, hfull2, hdenotes2⟩ := hllTransformFull_spec ha h2 h2' hmax2
  have hdenotes2' := hdenotes2
  rw [← hpara] at hdenotes2'
  refine ⟨hllCombineFull o full1 full2, { aHll with data := .full full2 }, ?_,
    ⟨ho.inRange, denotes_combineBytes hdenotes1 hdenotes2', Or.inl rfl⟩,
    ⟨ha.inRange, hdenotes2, ha.lastHash⟩⟩
  rw [hllUnion_full_eq h1 h1' h2 h2' hboth, hfull1, hfull2, ← hpara, hllCheckParaequal_self]
  rfl

end Invariant

section Run

def Inv (s : Sketches) : Prop := ∀ i, Good (s.objects i) (s.added i)

theorem Fresh.inv (h : Fresh s) : Inv s := by
  intro i
  obtain ⟨hdata, hlast, hadded, hcheck⟩ := h i
  refine ⟨inRange_of_check hcheck, ?_, Or.inl hlast⟩
  cases hdata with
  | inl hdata =>
    rw [hdata]
    exact hadded
  | inr hdata =>
    rw [hdata]
    exact hadded

theorem Inv.update (h : Inv s) (i : Nat) (hgood : Good o S)
    : Inv { objects := Function.update s.objects i o, added := Function.update s.added i S } := by
  intro k
  by_cases heq : k = i
  . subst heq
    simp only [Function.update_self]
    exact hgood
  . simp only [Function.update_of_ne heq]
    exact h k

theorem Inv.update_object (h : Inv s) (j : Nat) (hgood : Good o (s.added j))
    : Inv { objects := Function.update s.objects j o, added := s.added } := by
  have hinv := h.update j hgood
  rw [Function.update_eq_self] at hinv
  exact hinv

theorem hllUnion_spec (h : Inv s) (i j : Nat)
    (hpara : (s.objects i).hllpara = (s.objects j).hllpara) (hmeets : Meets s (.hllUnion i j))
    : ∃ o aHll, hllUnion (s.objects i) (s.objects j) = .ok (o, aHll)
        ∧ Good o (s.added i ∪ s.added j) ∧ Good aHll (s.added j) := by
  have ho := h i
  have ha := h j
  simp only [Meets] at hmeets
  by_cases ha0 : (s.objects j).data = .uninit ∨ (s.objects j).data = .empty
  . obtain ⟨hunion, hgood⟩ := hllUnion_argument_empty ho ha ha0
    exact ⟨_, _, hunion, hgood, ha⟩
  . rw [not_or] at ha0
    by_cases ho0 : (s.objects i).data = .uninit ∨ (s.objects i).data = .empty
    . obtain ⟨o, hunion, hgood⟩ := hllUnion_self_empty ho ha ha0.1 ha0.2 ho0
      exact ⟨_, _, hunion, hgood, ha⟩
    . rw [not_or] at ho0
      by_cases hboth : ∃ hashes1 hashes2,
          (s.objects i).data = .explicit hashes1 ∧ (s.objects j).data = .explicit hashes2
      . obtain ⟨hashes1, hashes2, hdata1, hdata2⟩ := hboth
        have hS := ho.denotes
        have hT := ha.denotes
        rw [hdata1] at hS
        rw [hdata2] at hT
        simp only [hdata1, hdata2] at hmeets
        rw [hS.2, hT.2] at hmeets
        obtain ⟨o, hunion, hgood⟩ := hllUnion_explicit ho ha hpara hdata1 hdata2 hmeets
        exact ⟨_, _, hunion, hgood, ha⟩
      . apply hllUnion_full ho ha hpara ho0.1 ho0.2 ha0.1 ha0.2 hboth
        . intro hashes hdata
          cases hdata2 : (s.objects j).data with
          | uninit => exact absurd hdata2 ha0.1
          | empty => exact absurd hdata2 ha0.2
          | explicit hashes2 => exact absurd ⟨hashes, hashes2, hdata, hdata2⟩ hboth
          | sparse hllData => simpa only [hdata, hdata2] using hmeets
          | full hllData => simpa only [hdata, hdata2] using hmeets
        . intro hashes hdata
          cases hdata1 : (s.objects i).data with
          | uninit => exact absurd hdata1 ho0.1
          | empty => exact absurd hdata1 ho0.2
          | explicit hashes1 => exact absurd ⟨hashes1, hashes, hdata1, hdata⟩ hboth
          | sparse hllData => simpa only [hdata, hdata1] using hmeets
          | full hllData => simpa only [hdata, hdata1] using hmeets

theorem step_inv (h : Inv s) (op : Op) (hallowed : Allowed s op)
    (hmeets : Meets s op) : ∃ s', step s op = .ok s' ∧ Inv s' := by
  cases op with
  | hllAdd i hashval =>
    simp only [Meets] at hmeets
    obtain ⟨o, hadd, hgood⟩ := hllAdd_spec (h i) hashval hallowed (by
      intro hashes hdata
      simpa only [hdata] using hmeets)
    refine ⟨_, ?_, h.update i hgood⟩
    simp only [step, hadd]
    rfl
  | hllUnion i j =>
    obtain ⟨o, aHll, hunion, hgood, hgoodArg⟩ := hllUnion_spec h i j hallowed hmeets
    refine ⟨_, ?_, (h.update_object j hgoodArg).update i hgood⟩
    simp only [step, hunion]
    rfl
  | hllCopy i j =>
    obtain ⟨o, hcopy, hgood⟩ := hllCopy_spec (o := s.objects i) (h j) hallowed
    refine ⟨_, ?_, h.update i hgood⟩
    simp only [step, hcopy]
    rfl

theorem run_inv (ops : List Op) : ∀ s, Inv s → AllMeet s ops → ∃ s', run s ops = .ok s' ∧ Inv s' := by
  induction ops with
  | nil =>
    intro s hinv _
    exact ⟨s, rfl, hinv⟩
  | cons op ops ih =>
    intro s hinv hmeet
    obtain ⟨hallowed, hmeets, hrest⟩ := hmeet
    obtain ⟨s', hstep, hinv'⟩ := step_inv hinv op hallowed hmeets
    obtain ⟨s'', hrun, hinv''⟩ := ih s' hinv' (hrest s' hstep)
    refine ⟨s'', ?_, hinv''⟩
    simp only [run, hstep, bind, Except.bind, hrun]

theorem run_reg (s : Sketches) (ops : List Op) (hfresh : Fresh s) (hmeet : AllMeet s ops)
    : ∃ s', run s ops = .ok s'
        ∧ ∀ i, (∀ k, (s'.objects i).data.reg (s'.objects i).hllpara k
              = register (s'.objects i).hllpara (s'.added i) k)
            ∧ ∀ hashes, (s'.objects i).data = .explicit hashes →
                hashes.Pairwise (· < ·) ∧ hashes.toFinset = s'.added i := by
  obtain ⟨s', hrun, hinv⟩ := run_inv ops s hfresh.inv hmeet
  refine ⟨s', hrun, ?_⟩
  intro i
  have hdenotes := (hinv i).denotes
  refine ⟨hdenotes.reg_eq, ?_⟩
  intro hashes hdata
  rw [hdata] at hdenotes
  exact hdenotes

def freshSketches (p : HllPara) : Sketches where
  objects _ := ⟨p, .uninit, 0⟩
  added _ := ∅

def smallPara : HllPara := ⟨10, 3, 0, 0⟩

theorem fresh_smallPara : Fresh (freshSketches smallPara) := by
  intro i
  exact ⟨Or.inl rfl, rfl, rfl, rfl⟩

theorem largestCarriesMax_ascending : LargestCarriesMax smallPara {16, 8} := by
  have hindex : hashIndex smallPara 16 = hashIndex smallPara 8 := by decide
  have hvalue : hashValue smallPara 8 ≤ hashValue smallPara 16 := by decide
  intro h hh hlargest h' hh' _
  have hle : (16 : UInt64) ∈ ({16, 8} : Finset UInt64) := Finset.mem_insert_self 16 {8}
  rw [Finset.mem_insert, Finset.mem_singleton] at hh hh'
  rcases hh with rfl | rfl
  . rcases hh' with rfl | rfl
    . exact Nat.le_refl _
    . exact hvalue
  . have hbelow : (16 : UInt64) ≤ 8 := hlargest 16 hle hindex
    exact absurd hbelow (by decide)

theorem allMeet_ascending : AllMeet (freshSketches smallPara) [.hllAdd 0 8, .hllAdd 0 16] := by
  have hne8 : (8 : UInt64) ≠ 0 := by decide
  have hne16 : (16 : UInt64) ≠ 0 := by decide
  refine ⟨hne8, trivial, ?_⟩
  intro s hs
  cases hs
  refine ⟨hne16, ?_, ?_⟩
  . intro _ _
    exact largestCarriesMax_ascending
  . intro s' _
    trivial

theorem run_reg_ascending
    : Fresh (freshSketches smallPara)
        ∧ AllMeet (freshSketches smallPara) [.hllAdd 0 8, .hllAdd 0 16]
        ∧ ∃ s, run (freshSketches smallPara) [.hllAdd 0 8, .hllAdd 0 16] = .ok s
          ∧ (s.objects 0).data.reg (s.objects 0).hllpara 0
            = register (s.objects 0).hllpara (s.added 0) 0 := by
  obtain ⟨s, hrun, hreg⟩ := run_reg _ _ fresh_smallPara allMeet_ascending
  exact ⟨fresh_smallPara, allMeet_ascending, s, hrun, (hreg 0).1 0⟩

theorem hllTransformFull_overwrites
    : Fresh (freshSketches smallPara) ∧ (8 : UInt64) ≠ 0 ∧ (9 : UInt64) ≠ 0
        ∧ ∃ s, run (freshSketches smallPara) [.hllAdd 0 8, .hllAdd 0 9] = .ok s
          ∧ (s.objects 0).data.reg (s.objects 0).hllpara 0 = 1
          ∧ register (s.objects 0).hllpara (s.added 0) 0 = 4 := by
  refine ⟨fresh_smallPara, by decide, by decide, _, rfl, ?_, ?_⟩
  . decide +kernel
  . decide +kernel

end Run

end Hll

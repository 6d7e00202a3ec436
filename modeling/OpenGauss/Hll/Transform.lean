import OpenGauss.Hll.Sparse
import Mathlib.Data.List.GetD

/-!
This module contains the registers a set of hashes stands for.
-/

open List Finset

namespace Hll

variable {hashes : Finset UInt64} {newdata : List UInt8} {next : Nat}

section Registers

def hashIndex (p : HllPara) (hashval : UInt64) : Nat := (hllHashToValue p hashval).1

def hashValue (p : HllPara) (hashval : UInt64) : Nat := (hllHashToValue p hashval).2.toNat

def register (p : HllPara) (hashes : Finset UInt64) (i : Nat) : Nat :=
  (hashes.filter (hashIndex p · = i)).sup (hashValue p)

structure HllPara.InRange (p : HllPara) : Prop where
  registers_ge : 10 ≤ p.log2Registers
  registers_le : p.log2Registers ≤ 16

theorem checkPara_ok {name : String} {value lo hi : Int} (h : checkPara name value lo hi = .ok ())
    : lo ≤ value ∧ value ≤ hi := by
  simp only [checkPara] at h
  split at h
  . cases h
  . omega

theorem inRange_of_check {p : HllPara} (h : hllCheckPararange p.log2Registers p.log2Explicitsize
    p.log2Sparsesize p.duplicateCheck = .ok ()) : p.InRange := by
  simp only [hllCheckPararange, bind, Except.bind] at h
  split at h
  . cases h
  . next hregisters =>
    obtain ⟨hge, hle⟩ := checkPara_ok hregisters
    constructor
    . omega
    . omega

variable {p : HllPara}

theorem hashIndex_lt (hp : p.InRange) (hashval : UInt64) : hashIndex p hashval < 2 ^ p.log2Registers := by
  have hlt := hashval.toNat_lt
  have hle := hp.registers_le
  simp only [hashIndex, hllHashToValue, Nat.shiftRight_eq_div_pow]
  apply Nat.div_lt_of_lt_mul
  rw [← Nat.pow_add]
  have hsum : 64 - p.log2Registers + p.log2Registers = 64 := by omega
  rw [hsum]
  exact hlt

theorem hashIndex_mono {h h' : UInt64} (hle : h.toNat ≤ h'.toNat) : hashIndex p h ≤ hashIndex p h' := by
  simp only [hashIndex, hllHashToValue, Nat.shiftRight_eq_div_pow]
  exact Nat.div_le_div_right hle

theorem hashValue_le (hp : p.InRange) (hashval : UInt64) : hashValue p hashval ≤ 54 := by
  have hge := hp.registers_ge
  simp only [hashValue, hllHashToValue]
  split
  . exact Nat.zero_le _
  . omega

theorem register_insert (hashes : Finset UInt64) (hashval : UInt64) (i : Nat)
    : register p (insert hashval hashes) i
        =
      if hashIndex p hashval = i then max (hashValue p hashval) (register p hashes i)
      else register p hashes i := by
  rw [register, filter_insert]
  split
  . rw [sup_insert]
    rfl
  . rfl

theorem register_union (hashes₁ hashes₂ : Finset UInt64) (i : Nat)
    : register p (hashes₁ ∪ hashes₂) i = max (register p hashes₁ i) (register p hashes₂ i) := by
  rw [register, filter_union, sup_union]
  rfl

@[simp]
theorem register_empty (i : Nat) : register p ∅ i = 0 := rfl

theorem register_eq_zero (hashes : Finset UInt64) (i : Nat) (h : ∀ h ∈ hashes, hashIndex p h ≠ i)
    : register p hashes i = 0 := by
  rw [register, filter_eq_empty_iff.2 (by
    intro hashval hmem
    exact h hashval hmem)]
  rfl

theorem hashValue_le_register {hashval : UInt64} (h : hashval ∈ hashes)
    : hashValue p hashval ≤ register p hashes (hashIndex p hashval) := by
  have hmem : hashval ∈ hashes.filter (hashIndex p · = hashIndex p hashval) :=
    Finset.mem_filter.2 ⟨h, rfl⟩
  exact le_sup (f := hashValue p) hmem

end Registers

section Sparse

variable {p : HllPara}

theorem hllEmptyToSparse_spec (hp : p.InRange)
    : decode (hllEmptyToSparse p) = List.replicate (2 ^ p.log2Registers) 0
        ∧ AllUsed (hllEmptyToSparse p) := by
  have hge := hp.registers_ge
  have hle := hp.registers_le
  simp only [hllEmptyToSparse]
  by_cases hlong : p.log2Registers - 12 > 0
  . have hone : 2 ^ (p.log2Registers - 12) > 1 := Nat.one_lt_two_pow (by omega)
    obtain ⟨hdecode, hused⟩ := decode_longzeroFull (2 ^ (p.log2Registers - 12))
    rw [if_pos hlong, if_pos hone, hdecode]
    refine ⟨?_, hused⟩
    have hpow : 2 ^ (p.log2Registers - 12) * 4096 = 2 ^ p.log2Registers := by
      rw [show 4096 = 2 ^ 12 from rfl, ← Nat.pow_add, Nat.sub_add_cancel (by omega)]
    rw [hpow]
  . have hlow : 2 ^ 10 ≤ 2 ^ p.log2Registers := Nat.pow_le_pow_right (by omega) hge
    have hhigh : 2 ^ p.log2Registers ≤ 2 ^ 12 := Nat.pow_le_pow_right (by omega) (by omega)
    have hdvd : 2 ^ p.log2Registers = 2 ^ (p.log2Registers - 6) * 64 := by
      rw [show 64 = 2 ^ 6 from rfl, ← Nat.pow_add, Nat.sub_add_cancel (by omega)]
    obtain ⟨hdecode, hused⟩ := decode_longzero (2 ^ p.log2Registers) (by omega) (by omega)
    rw [if_neg hlong, if_neg (by omega)]
    rw [decode_cons, hdecode, decode_nil, append_nil]
    refine ⟨?_, allUsed_cons.2 ⟨hused, allUsed_nil⟩⟩
    have hdiv : 2 ^ p.log2Registers / 64 * 64 = 2 ^ p.log2Registers := by omega
    rw [hdiv]

theorem getD_append_zeros (xs : List Nat) (n i : Nat)
    : (xs ++ List.replicate n 0).getD i 0 = xs.getD i 0 := by
  by_cases h : i < xs.length
  . rw [getD_append _ _ _ _ h]
  . rw [getD_append_right _ _ _ _ (by omega), getD_replicate_zero,
      getD_eq_default _ _ (by omega)]

theorem getD_set {α : Type} (xs : List α) (d a : α) (i j : Nat) (h : i < xs.length)
    : (xs.set i a).getD j d = if i = j then a else xs.getD j d := by
  rw [getD_eq_getElem?_getD, getElem?_set]
  by_cases heq : i = j
  . subst heq
    simp [h]
  . simp [heq]

structure SparsePrefix (p : HllPara) (hashes : Finset UInt64) (next : Nat) (newdata : List UInt8)
    : Prop where
  used : AllUsed newdata
  length : (decode newdata).length = next
  registers : ∀ i, (decode newdata).getD i 0 = register p hashes i
  last : 0 < next → ∃ pre value, newdata = pre ++ [setDenseValue value] ∧ 0 < value ∧ value ≤ 64
  le : next ≤ 2 ^ p.log2Registers

theorem SparsePrefix.skip
    (h : SparsePrefix p hashes next newdata) (hashval : UInt64) (hzero : hashValue p hashval = 0)
    : SparsePrefix p (insert hashval hashes) next newdata := by
  refine { h with registers := ?_ }
  intro i
  rw [h.registers, register_insert, hzero, Nat.zero_max, ite_self]

theorem SparsePrefix.append (hp : p.InRange) (h : SparsePrefix p hashes next newdata) (hashval : UInt64)
    (hpos : 0 < hashValue p hashval) (hindex : next ≤ hashIndex p hashval)
    : SparsePrefix p (insert hashval hashes) (hashIndex p hashval + 1)
        (newdata ++ hllSetSparseZero (hashIndex p hashval - next)
          ++ [setDenseValue (hashValue p hashval)]) := by
  have hle := hashValue_le hp hashval
  obtain ⟨hzeros, hzerosUsed⟩ := hllSetSparseZero_spec (hashIndex p hashval - next)
  obtain ⟨hdense, hdenseUsed⟩ := decode_dense (hashValue p hashval) hpos (by omega)
  have hdecode : decode (newdata ++ hllSetSparseZero (hashIndex p hashval - next)
      ++ [setDenseValue (hashValue p hashval)])
      = decode newdata ++ List.replicate (hashIndex p hashval - next) 0
        ++ [hashValue p hashval] := by
    rw [decode_append, decode_append, hzeros, decode_cons, hdense, decode_nil, append_nil]
  have hlen : (decode newdata ++ List.replicate (hashIndex p hashval - next) 0).length
      = hashIndex p hashval := by
    rw [length_append, length_replicate, h.length]
    omega
  constructor
  . rw [allUsed_append, allUsed_append, allUsed_cons]
    exact ⟨⟨h.used, hzerosUsed⟩, hdenseUsed, allUsed_nil⟩
  . rw [hdecode, length_append, hlen]
    rfl
  . intro i
    rw [hdecode, register_insert]
    by_cases hlt : i < hashIndex p hashval
    . rw [getD_append _ _ _ _ (by omega), getD_append_zeros, h.registers,
        if_neg (by omega)]
    . rw [getD_append_right _ _ _ _ (by omega), hlen]
      have hbeyond : register p hashes i = 0 := by
        rw [← h.registers, getD_eq_default _ _ (by rw [h.length]; omega)]
      by_cases heq : hashIndex p hashval = i
      . rw [if_pos heq, heq, Nat.sub_self, hbeyond]
        simp
      . rw [if_neg heq, hbeyond, getD_eq_default _ _ (by simp; omega)]
  . intro _
    exact ⟨_, _, rfl, hpos, by omega⟩
  . exact hashIndex_lt hp hashval

theorem SparsePrefix.update (hp : p.InRange) (h : SparsePrefix p hashes next newdata) (hashval : UInt64)
    (hpos : 0 < hashValue p hashval) (hindex : hashIndex p hashval + 1 = next)
    : SparsePrefix p (insert hashval hashes) next
        (if newdata.getD (newdata.length - 1) 0 < setDenseValue (hashValue p hashval) then
          newdata.set (newdata.length - 1) (setDenseValue (hashValue p hashval))
        else
          newdata) := by
  have hle := hashValue_le hp hashval
  obtain ⟨pre, value, hdata, hvalue, hvalueLe⟩ := h.last (by omega)
  obtain ⟨_, _, hbyte⟩ := setDenseValue_spec value hvalue hvalueLe
  obtain ⟨_, _, hnewByte⟩ := setDenseValue_spec (hashValue p hashval) hpos (by omega)
  obtain ⟨hdecode, hused⟩ := decode_dense value hvalue hvalueLe
  obtain ⟨hnewDecode, hnewUsed⟩ := decode_dense (hashValue p hashval) hpos (by omega)
  have hlen : newdata.length - 1 = pre.length := by
    rw [hdata]
    simp
  have hget : newdata.getD (newdata.length - 1) 0 = setDenseValue value := by
    rw [hlen, hdata, getD_append_right _ _ _ _ (Nat.le_refl _), Nat.sub_self]
    rfl
  have hpreLen : (decode pre).length = hashIndex p hashval := by
    have hlength := h.length
    rw [hdata, decode_append, decode_cons, hdecode, decode_nil] at hlength
    simp only [append_nil, length_append, length_cons, length_nil] at hlength
    omega
  have hold : register p hashes (hashIndex p hashval) = value := by
    rw [← h.registers, hdata, decode_append, getD_append_right _ _ _ _ (by omega), hpreLen,
      Nat.sub_self, decode_cons, hdecode]
    rfl
  rw [hget, hlen]
  by_cases hless : setDenseValue value < setDenseValue (hashValue p hashval)
  . rw [if_pos hless]
    rw [UInt8.lt_iff_toNat_lt, hbyte, hnewByte] at hless
    have hset : newdata.set pre.length (setDenseValue (hashValue p hashval))
        = pre ++ [setDenseValue (hashValue p hashval)] := by
      rw [hdata, set_append_right _ _ (Nat.le_refl _), Nat.sub_self, set_cons_zero]
    have hpreUsed : AllUsed pre := by
      have hall := h.used
      rw [hdata] at hall
      exact (allUsed_append.1 hall).1
    rw [hset]
    constructor
    . exact allUsed_append.2 ⟨hpreUsed, allUsed_cons.2 ⟨hnewUsed, allUsed_nil⟩⟩
    . rw [decode_append, decode_cons, hnewDecode, decode_nil, length_append, hpreLen]
      exact hindex
    . intro i
      rw [decode_append, decode_cons, hnewDecode, decode_nil, append_nil, register_insert]
      have hregisters := h.registers i
      rw [hdata, decode_append, decode_cons, hdecode, decode_nil, append_nil] at hregisters
      by_cases heq : hashIndex p hashval = i
      . rw [if_pos heq, ← heq, hold, Nat.max_eq_left (by omega),
          getD_append_right _ _ _ _ (by omega), hpreLen, Nat.sub_self]
        rfl
      . rw [if_neg heq, ← hregisters]
        by_cases hlt : i < (decode pre).length
        . rw [getD_append _ _ _ _ hlt, getD_append _ _ _ _ hlt]
        . rw [getD_eq_default _ _ (by simp; omega), getD_eq_default _ _ (by simp; omega)]
    . intro _
      exact ⟨_, _, rfl, hpos, by omega⟩
    . exact h.le
  . rw [if_neg hless]
    rw [UInt8.lt_iff_toNat_lt, hbyte, hnewByte] at hless
    refine { h with registers := ?_ }
    intro i
    rw [h.registers, register_insert]
    by_cases heq : hashIndex p hashval = i
    . rw [if_pos heq, ← heq, hold, Nat.max_eq_right (by omega)]
    . rw [if_neg heq]

theorem value_eq_zero_iff (hashval : UInt64)
    : (hllHashToValue p hashval).2 = 0 ↔ hashValue p hashval = 0 := by
  rw [hashValue]
  exact ⟨fun h => by rw [h]; rfl, fun h => UInt8.toNat_inj.1 h⟩

theorem hllExplicitToSparse_go_spec (hp : p.InRange) (hashes : List UInt64)
    : ∀ done next newdata, SparsePrefix p done next newdata → hashes.Pairwise (· < ·) →
        (∀ h ∈ hashes, next ≤ hashIndex p h + 1) →
        ∃ (next' : Nat) (newdata' : List UInt8), hllExplicitToSparse.go p hashes ((next : Int) - 1) newdata
            = ((next' : Int) - 1, newdata')
          ∧ SparsePrefix p (done ∪ hashes.toFinset) next' newdata' := by
  induction hashes with
  | nil =>
    intro done next newdata hinv _ _
    refine ⟨next, newdata, rfl, ?_⟩
    rw [toFinset_nil, union_empty]
    exact hinv
  | cons hashval rest ih =>
    intro done next newdata hinv hsorted hnext
    obtain ⟨hfirst, hrestSorted⟩ := pairwise_cons.1 hsorted
    have hrestNext (h : UInt64) (hmem : h ∈ rest) : hashIndex p hashval ≤ hashIndex p h :=
      hashIndex_mono (Nat.le_of_lt (UInt64.lt_iff_toNat_lt.1 (hfirst h hmem)))
    have hhere := hnext hashval mem_cons_self
    have hunion : done ∪ (hashval :: rest).toFinset = insert hashval done ∪ rest.toFinset := by
      rw [toFinset_cons, union_insert, insert_union]
    have hpair : hllHashToValue p hashval
        = (hashIndex p hashval, (hllHashToValue p hashval).2) := rfl
    rw [hunion, hllExplicitToSparse.go, hpair]
    simp only [value_eq_zero_iff]
    by_cases hzero : hashValue p hashval = 0
    . simp only [hzero, if_true]
      apply ih _ _ _ (hinv.skip hashval hzero) hrestSorted
      intro h hmem
      exact hnext h (mem_cons_of_mem _ hmem)
    . have hpos : 0 < hashValue p hashval := Nat.pos_of_ne_zero hzero
      simp only [hzero, if_false]
      rw [show (hllHashToValue p hashval).2.toNat = hashValue p hashval from rfl]
      by_cases hsame : hashIndex p hashval + 1 = next
      . have hcast : (hashIndex p hashval : Int) = (next : Int) - 1 := by omega
        simp only [hcast, if_true]
        have hupdate := hinv.update hp hashval hpos hsame
        have hrest := ih _ _ _ hupdate hrestSorted (by
          intro h hmem
          have hle := hrestNext h hmem
          omega)
        split at hrest
        . next hless => simpa only [hless, if_true] using hrest
        . next hless => simpa only [hless, if_false] using hrest
      . have hcast : ¬ (hashIndex p hashval : Int) = (next : Int) - 1 := by omega
        have hcount : ((hashIndex p hashval : Int) - ((next : Int) - 1) - 1).toNat
            = hashIndex p hashval - next := by omega
        simp only [hcast, if_false, hcount]
        have happend := hinv.append hp hashval hpos (by omega)
        have hrest := ih _ _ _ happend hrestSorted (by
          intro h hmem
          have hle := hrestNext h hmem
          omega)
        rw [Int.natCast_add, Int.natCast_one, Int.add_sub_cancel] at hrest
        exact hrest

theorem hllExplicitToSparse_spec (hp : p.InRange) (hashes : List UInt64) (hsorted : hashes.Pairwise (· < ·))
    : AllUsed (hllExplicitToSparse p hashes)
        ∧ (decode (hllExplicitToSparse p hashes)).length = 2 ^ p.log2Registers
        ∧ ∀ i, (decode (hllExplicitToSparse p hashes)).getD i 0 = register p hashes.toFinset i := by
  have hinit : SparsePrefix p ∅ 0 [] := by
    refine ⟨allUsed_nil, rfl, fun i => rfl, ?_, Nat.zero_le _⟩
    intro hpos
    cases hpos
  obtain ⟨next, newdata, hgo, hinv⟩ := hllExplicitToSparse_go_spec hp hashes ∅ 0 [] hinit hsorted
    (fun _ _ => Nat.zero_le _)
  have hstart : ((0 : Nat) : Int) - 1 = -1 := rfl
  rw [hstart] at hgo
  have hle := hinv.le
  have hcount : ((2 : Int) ^ p.log2Registers - ((next : Int) - 1) - 1).toNat
      = 2 ^ p.log2Registers - next := by
    have hpow : ((2 ^ p.log2Registers : Nat) : Int) = (2 : Int) ^ p.log2Registers := by
      rw [Int.natCast_pow]
      rfl
    omega
  obtain ⟨hzeros, hzerosUsed⟩ := hllSetSparseZero_spec (2 ^ p.log2Registers - next)
  have heq : hllExplicitToSparse p hashes
      = newdata ++ hllSetSparseZero (2 ^ p.log2Registers - next) := by
    simp only [hllExplicitToSparse, hgo, hcount]
  rw [heq, decode_append, hzeros]
  refine ⟨allUsed_append.2 ⟨hinv.used, hzerosUsed⟩, ?_, ?_⟩
  . rw [length_append, hinv.length, length_replicate]
    omega
  . intro i
    rw [getD_append_zeros, hinv.registers, empty_union]

end Sparse

section Full

variable {p : HllPara}

theorem toNat_ofNat_byteGetValue (byte : UInt8)
    : (UInt8.ofNat (byteGetValue byte)).toNat = byteGetValue byte := by
  have hle := byteGetValue_le byte
  rw [UInt8.toNat_ofNat']
  omega

theorem sparseToFull_spec (bytes : List UInt8) (hused : AllUsed bytes)
    : ∀ index newdata, index + (decode bytes).length ≤ newdata.length →
        (∀ i, index ≤ i → newdata.getD i 0 = 0) →
        ∃ full, sparseToFull bytes index newdata = .ok full ∧ full.length = newdata.length
          ∧ ∀ i, (full.getD i 0).toNat
            = if i < index then (newdata.getD i 0).toNat else (decode bytes).getD (i - index) 0 := by
  induction bytes with
  | nil =>
    intro index newdata _ hzero
    refine ⟨newdata, rfl, rfl, ?_⟩
    intro i
    split
    . rfl
    . rw [hzero i (by omega)]
      rfl
  | cons byte rest ih =>
    intro index newdata hlen hzero
    obtain ⟨hbyte, hrest⟩ := allUsed_cons.1 hused
    rw [decode_cons, length_append] at hlen
    -- A run of zeros is skipped; the array holds zeros there already.
    have hrun (count : Nat) (hdecode : decodeByte byte = List.replicate count 0) :
        ∃ full, sparseToFull rest (index + count) newdata = .ok full
          ∧ full.length = newdata.length
          ∧ ∀ i, (full.getD i 0).toNat
            = if i < index then (newdata.getD i 0).toNat
              else (decode (byte :: rest)).getD (i - index) 0 := by
      rw [hdecode, length_replicate] at hlen
      obtain ⟨full, hfull, hfullLen, hget⟩ := ih hrest (index + count) newdata (by omega)
        (fun i hi => hzero i (by omega))
      refine ⟨full, hfull, hfullLen, ?_⟩
      intro i
      rw [hget, decode_cons, hdecode]
      by_cases hbefore : i < index
      . rw [if_pos hbefore, if_pos (by omega)]
      . rw [if_neg hbefore]
        by_cases hin : i < index + count
        . rw [if_pos hin, hzero i (by omega), getD_append _ _ _ _ (by simp; omega), getD_replicate_zero]
          rfl
        . rw [if_neg hin, getD_append_right _ _ _ _ (by simp; omega), length_replicate, Nat.sub_sub]
    rw [sparseToFull]
    cases htype : byteType byte with
    | sparseLongzero =>
      apply hrun (byteGetValue byte * hllLongzeroUnit)
      simp only [decodeByte, htype, hllLongzeroUnit]
    | sparseZero =>
      apply hrun (byteGetValue byte)
      simp only [decodeByte, htype]
    | denseValue =>
      have hdecode : decodeByte byte = [byteGetValue byte] := by
        simp only [decodeByte, htype]
      rw [hdecode] at hlen
      simp only [length_cons, length_nil] at hlen
      obtain ⟨full, hfull, hfullLen, hget⟩ := ih hrest (index + 1)
        (newdata.set index (UInt8.ofNat (byteGetValue byte))) (by rw [length_set]; omega) (by
          intro i hi
          rw [getD_set _ _ _ _ _ (by omega), if_neg (by omega), hzero i (by omega)])
      refine ⟨full, hfull, by rw [hfullLen, length_set], ?_⟩
      intro i
      rw [hget, decode_cons, hdecode, getD_set _ _ _ _ _ (by omega)]
      by_cases hbefore : i < index
      . rw [if_pos (by omega), if_neg (by omega), if_pos hbefore]
      . rw [if_neg hbefore]
        by_cases hin : i < index + 1
        . have heq : index = i := by omega
          rw [if_pos hin, if_pos heq, toNat_ofNat_byteGetValue, heq, Nat.sub_self]
          rfl
        . rw [if_neg hin, getD_append_right _ _ _ _ (by simp; omega), Nat.sub_sub]
          rfl
    | sparseValue => exact absurd htype hbyte

theorem explicitToFull_spec (hp : p.InRange) (hashes : List UInt64)
    : ∀ newdata, newdata.length = 2 ^ p.log2Registers → hashes.Pairwise (· < ·) →
        (explicitToFull p hashes newdata).length = 2 ^ p.log2Registers
          ∧ (∀ h ∈ hashes, (∀ h' ∈ hashes, hashIndex p h' = hashIndex p h → h' ≤ h) →
              ((explicitToFull p hashes newdata).getD (hashIndex p h) 0).toNat = hashValue p h)
          ∧ (∀ i, (∀ h ∈ hashes, hashIndex p h ≠ i) →
              (explicitToFull p hashes newdata).getD i 0 = newdata.getD i 0) := by
  induction hashes with
  | nil =>
    intro newdata hlen _
    refine ⟨hlen, ?_, fun _ _ => rfl⟩
    intro h hmem
    cases hmem
  | cons hashval rest ih =>
    intro newdata hlen hsorted
    obtain ⟨hfirst, hrestSorted⟩ := pairwise_cons.1 hsorted
    have hstep : explicitToFull p (hashval :: rest) newdata
        = explicitToFull p rest (newdata.set (hashIndex p hashval) (hllHashToValue p hashval).2) :=
      rfl
    have hindex : hashIndex p hashval < newdata.length := by
      rw [hlen]
      exact hashIndex_lt hp hashval
    obtain ⟨hlength, hlargest, hother⟩ :=
      ih (newdata.set (hashIndex p hashval) (hllHashToValue p hashval).2)
        (by rw [length_set]; exact hlen) hrestSorted
    rw [hstep]
    refine ⟨hlength, ?_, ?_⟩
    . intro h hmem hmax
      cases mem_cons.1 hmem with
      | inl heq =>
        subst heq
        rw [hother (hashIndex p h), getD_set _ _ _ _ _ hindex, if_pos rfl, hashValue]
        intro h' hmem' heq
        have hle := UInt64.le_iff_toNat_le.1 (hmax h' (mem_cons_of_mem _ hmem') heq)
        have hlt := UInt64.lt_iff_toNat_lt.1 (hfirst h' hmem')
        omega
      | inr hrest =>
        apply hlargest h hrest
        intro h' hmem'
        exact hmax h' (mem_cons_of_mem _ hmem')
    . intro i hnone
      rw [hother i (fun h hmem => hnone h (mem_cons_of_mem _ hmem)),
        getD_set _ _ _ _ _ hindex, if_neg (hnone hashval mem_cons_self)]

def LargestCarriesMax (p : HllPara) (hashes : Finset UInt64) : Prop :=
  ∀ h ∈ hashes, (∀ h' ∈ hashes, hashIndex p h' = hashIndex p h → h' ≤ h) →
    ∀ h' ∈ hashes, hashIndex p h' = hashIndex p h → hashValue p h' ≤ hashValue p h

theorem explicitToFull_register (hp : p.InRange) (hashes : List UInt64)
    (hsorted : hashes.Pairwise (· < ·)) (hmax : LargestCarriesMax p hashes.toFinset) (i : Nat)
    : ((explicitToFull p hashes (List.replicate (2 ^ p.log2Registers) 0)).getD i 0).toNat
        =
      register p hashes.toFinset i := by
  obtain ⟨_, hlargest, hother⟩ := explicitToFull_spec hp hashes
    (List.replicate (2 ^ p.log2Registers) 0) length_replicate hsorted
  by_cases hnone : ∀ h ∈ hashes, hashIndex p h ≠ i
  . rw [hother i hnone, register_eq_zero _ _ (fun h hmem => hnone h (mem_toFinset.1 hmem)),
      getD_eq_getElem?_getD, getElem?_replicate]
    split <;> rfl
  . push Not at hnone
    obtain ⟨h₀, hmem₀, hindex₀⟩ := hnone
    obtain ⟨h, hmem, hle⟩ := (hashes.toFinset.filter (hashIndex p · = i)).exists_max_image
      UInt64.toNat ⟨h₀, Finset.mem_filter.2 ⟨mem_toFinset.2 hmem₀, hindex₀⟩⟩
    obtain ⟨hin, hindex⟩ := Finset.mem_filter.1 hmem
    have hlast (h' : UInt64) (hmem' : h' ∈ hashes.toFinset)
        (heq : hashIndex p h' = hashIndex p h) : h' ≤ h := by
      rw [UInt64.le_iff_toNat_le]
      exact hle h' (Finset.mem_filter.2 ⟨hmem', heq.trans hindex⟩)
    have hget := hlargest h (mem_toFinset.1 hin) (fun h' hmem' => hlast h' (mem_toFinset.2 hmem'))
    rw [← hindex, hget]
    apply Nat.le_antisymm (hashValue_le_register hin)
    apply Finset.sup_le
    intro h' hmem'
    obtain ⟨hin', hindex'⟩ := Finset.mem_filter.1 hmem'
    exact hmax h hin hlast h' hin' hindex'

end Full

end Hll

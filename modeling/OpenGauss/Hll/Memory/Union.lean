import OpenGauss.Hll.Memory.Explicit

/-!
This module contains what uniting and copying sketches make of their memory.
-/

open List

namespace Hll.Memory

variable {done : List UInt64} {newdata : Bytes}

section Merge

variable {o aHll : HllObjectData} {xs ys : List UInt64}

structure Merged (xs ys : List UInt64) (i j : Nat) (done : List UInt64) (newdata : Bytes) : Prop where
  left_le : i ≤ xs.length
  right_le : j ≤ ys.length
  start : encodeHashes done <+: newdata
  size : newdata.length = hllExplicitUint * (xs.length + ys.length)
  done_le : done.length ≤ i + j

theorem copyBytes_spec (h : Holds o (encodeHashes xs)) {i k : Nat} (hle : i + k ≤ xs.length)
    (hstart : encodeHashes done <+: newdata)
    (hroom : hllExplicitUint * (done.length + k) ≤ newdata.length)
    : ∃ newdata', copyBytes newdata (hllExplicitUint * done.length) o.hllData (hllExplicitUint * i)
          (hllExplicitUint * k) = .ok newdata'
        ∧ newdata'.length = newdata.length ∧ encodeHashes (done ++ (xs.drop i).take k) <+: newdata' := by
  obtain ⟨rest, hrest⟩ := h.start
  have hsplit : xs = xs.take i ++ ((xs.drop i).take k ++ xs.drop (i + k)) := by
    rw [← drop_drop, take_append_drop, take_append_drop]
  have hpre : (encodeHashes (xs.take i)).length = hllExplicitUint * i := by
    rw [length_encodeHashes, length_take_of_le (by omega)]
  have hmid : (encodeHashes ((xs.drop i).take k)).length = hllExplicitUint * k := by
    rw [length_encodeHashes, length_take_of_le (by rw [length_drop]; omega)]
  have hdata : o.hllData = encodeHashes (xs.take i) ++ encodeHashes ((xs.drop i).take k)
      ++ (encodeHashes (xs.drop (i + k)) ++ rest) := by
    rw [← hrest]
    conv_lhs => rw [hsplit]
    simp only [encodeHashes_append, append_assoc]
  have hread := Buffer.read_middle (encodeHashes (xs.take i)) (encodeHashes ((xs.drop i).take k))
    (encodeHashes (xs.drop (i + k)) ++ rest)
  rw [← hdata, hpre, hmid] at hread
  obtain ⟨newdata', hwrite, hlen, hstart'⟩ := Buffer.write_prefix (encodeHashes ((xs.drop i).take k)) hstart
    (by rw [length_encodeHashes, hmid, ← Nat.mul_add]; exact hroom)
  rw [length_encodeHashes] at hwrite
  apply Exists.intro newdata'
  unfold copyBytes
  rw [hread, inBuffer_some, ok_bind, hwrite, encodeHashes_append]
  exact And.intro rfl (And.intro hlen hstart')

theorem copyBytes_one (h : Holds o (encodeHashes xs)) {i : Nat} (hi : i < xs.length)
    (hstart : encodeHashes done <+: newdata)
    (hroom : hllExplicitUint * (done.length + 1) ≤ newdata.length)
    : ∃ newdata', copyBytes newdata (hllExplicitUint * done.length) o.hllData
      (hllExplicitUint * i) hllExplicitUint
          = .ok newdata'
        ∧ newdata'.length = newdata.length ∧ encodeHashes (done ++ [xs[i]]) <+: newdata' := by
  have hcopy := copyBytes_spec (k := 1) h hi hstart hroom
  rw [drop_eq_getElem_cons hi, take_succ_cons, take_zero] at hcopy
  exact hcopy

theorem combineHashes_nil (xs : List UInt64) : combineHashes xs [] = xs := by
  cases xs <;> simp [combineHashes]

theorem combineHashes_drop {i j : Nat} (hi : i < xs.length) (hj : j < ys.length)
    : combineHashes (xs.drop i) (ys.drop j)
        =
      if xs[i] < ys[j] then
        xs[i] :: combineHashes (xs.drop (i + 1)) (ys.drop j)
      else if xs[i] > ys[j] then
        ys[j] :: combineHashes (xs.drop i) (ys.drop (j + 1))
      else
        xs[i] :: combineHashes (xs.drop (i + 1)) (ys.drop (j + 1)) := by
  rw [drop_eq_getElem_cons hi, drop_eq_getElem_cons hj]
  conv_lhs => unfold combineHashes

theorem Merged.push {i j i' j' : Nat} {newdata' : Bytes} {hashval : UInt64}
    (h : Merged xs ys i j done newdata) (hi : i' ≤ xs.length) (hj : j' ≤ ys.length) (hlt : i + j < i' + j')
    (hlen : newdata'.length = newdata.length) (hstart : encodeHashes (done ++ [hashval]) <+: newdata')
    : Merged xs ys i' j' (done ++ [hashval]) newdata' := by
  have hdone := h.done_le
  constructor
  . exact hi
  . exact hj
  . exact hstart
  . rw [hlen, h.size]
  . rw [length_append, length_singleton]
    omega

abbrev Completes (o aHll : HllObjectData) (xs ys : List UInt64) (i j : Nat) (done : List UInt64)
    (newdata : Bytes) : Prop :=
  ∃ i' j' done' newdata', combineLoop o aHll (hllExplicitUint * i) (hllExplicitUint * j)
      (hllExplicitUint * done.length) newdata
      = .ok (hllExplicitUint * i', hllExplicitUint * j', hllExplicitUint * done'.length, newdata')
    ∧ Merged xs ys i' j' done' newdata' ∧ (i' = xs.length ∨ j' = ys.length)
    ∧ done' ++ (xs.drop i' ++ ys.drop j') = done ++ combineHashes (xs.drop i) (ys.drop j)

section

variable (ho : Holds o (encodeHashes xs))
include ho

variable (ha : Holds aHll (encodeHashes ys))
include ha

theorem combineLoop_end {i j : Nat} (h : Merged xs ys i j done newdata)
    (hend : ¬(i < xs.length ∧ j < ys.length)) : Completes o aHll xs ys i j done newdata := by
  have hleft := h.left_le
  have hright := h.right_le
  apply Exists.intro i
  apply Exists.intro j
  apply Exists.intro done
  apply Exists.intro newdata
  apply And.intro
  . unfold combineLoop
    rw [if_neg]
    rw [← ho.length, ← ha.length, length_encodeHashes, length_encodeHashes]
    simp only [hllExplicitUint]
    omega
  . apply And.intro h
    apply And.intro (by omega)
    congr 1
    by_cases hi : i < xs.length
    . rw [drop_eq_nil_of_le (show ys.length ≤ j by omega), combineHashes_nil, append_nil]
    . rw [drop_eq_nil_of_le (show xs.length ≤ i by omega), nil_append, combineHashes]

theorem combineLoop_spec
    : ∀ turns i j done newdata, (xs.length - i) + (ys.length - j) ≤ turns →
        Merged xs ys i j done newdata → Completes o aHll xs ys i j done newdata := by
  have hused : o.lenUsed = hllExplicitUint * xs.length := by rw [← ho.length, length_encodeHashes]
  have hused' : aHll.lenUsed = hllExplicitUint * ys.length := by rw [← ha.length, length_encodeHashes]
  intro turns
  induction turns with
  | zero =>
    intro i j done newdata hturns h
    exact combineLoop_end ho ha h (by omega)
  | succ turns ih =>
    intro i j done newdata hturns h
    have hleft := h.left_le
    have hright := h.right_le
    have hdone := h.done_le
    by_cases hboth : i < xs.length ∧ j < ys.length
    . obtain ⟨hi, hj⟩ := hboth
      have hroom : hllExplicitUint * (done.length + 1) ≤ newdata.length := by
        rw [h.size]
        apply Nat.mul_le_mul_left
        omega
      obtain ⟨newdata₁, hcopy₁, hlen₁, hstart₁⟩ := copyBytes_one ho hi h.start hroom
      obtain ⟨newdata₂, hcopy₂, hlen₂, hstart₂⟩ := copyBytes_one ha hj h.start hroom
      have hsucc : ∀ n, hllExplicitUint * n + hllExplicitUint = hllExplicitUint * (n + 1) := by
        intro n
        rw [Nat.mul_succ]
      have hlength : ∀ h : UInt64, done.length + 1 = (done ++ [h]).length := by simp
      unfold Completes combineLoop
      rw [if_pos (by rw [hused, hused']; simp only [hllExplicitUint]; omega), hllGetExplictitValue_eq ho hi,
        ok_bind,
        hllGetExplictitValue_eq ha hj, ok_bind, combineHashes_drop hi hj]
      split
      . rw [hcopy₁, ok_bind, hsucc, hsucc, hlength xs[i]]
        have hih := ih (i + 1) j (done ++ [xs[i]]) newdata₁ (by omega)
          (h.push (by omega) hright (by omega) hlen₁ hstart₁)
        simpa only [Completes, append_assoc, singleton_append] using hih
      . split
        . rw [hcopy₂, ok_bind, hsucc, hsucc, hlength ys[j]]
          have hih := ih i (j + 1) (done ++ [ys[j]]) newdata₂ (by omega)
            (h.push hleft (by omega) (by omega) hlen₂ hstart₂)
          simpa only [Completes, append_assoc, singleton_append] using hih
        . rw [hcopy₁, ok_bind, hsucc, hsucc, hsucc, hlength xs[i]]
          have hih := ih (i + 1) (j + 1) (done ++ [xs[i]]) newdata₁ (by omega)
            (h.push (by omega) (by omega) (by omega) hlen₁ hstart₁)
          simpa only [Completes, append_assoc, singleton_append] using hih
    . exact combineLoop_end ho ha h hboth

theorem copyRest_spec {i j : Nat} (h : Merged xs ys i j done newdata) (hend : i = xs.length ∨ j = ys.length)
    : ∃ newdata', copyRest o aHll (hllExplicitUint * i) (hllExplicitUint * j)
      (hllExplicitUint * done.length) newdata
            (hllExplicitUint * ((xs.length - i) + (ys.length - j))) = .ok newdata'
        ∧ newdata'.length = newdata.length ∧ encodeHashes (done ++ (xs.drop i ++ ys.drop j)) <+: newdata' := by
  have hused : o.lenUsed = hllExplicitUint * xs.length := by rw [← ho.length, length_encodeHashes]
  have hused' : aHll.lenUsed = hllExplicitUint * ys.length := by rw [← ha.length, length_encodeHashes]
  have hleft := h.left_le
  have hright := h.right_le
  have hdone := h.done_le
  have hroom : ∀ k, i + j + k ≤ xs.length + ys.length →
    hllExplicitUint * (done.length + k) ≤ newdata.length := by
    intro k hk
    rw [h.size]
    apply Nat.mul_le_mul_left
    omega
  unfold copyRest
  by_cases hi : i < xs.length
  . have hj : j = ys.length := by omega
    obtain ⟨newdata', hcopy, hlen, hstart⟩ :=
      copyBytes_spec ho (show i + (xs.length - i) ≤ xs.length by omega) h.start
      (hroom _ (by omega))
    rw [take_of_length_le (Nat.le_of_eq length_drop)] at hstart
    rw [if_pos (by rw [hused]; simp only [hllExplicitUint]; omega), hj, Nat.sub_self, Nat.add_zero,
      drop_length,
      append_nil]
    exact ⟨newdata', hcopy, hlen, hstart⟩
  . have hi : i = xs.length := by omega
    rw [if_neg (by rw [hused]; simp only [hllExplicitUint]; omega), hi, Nat.sub_self, Nat.zero_add,
      drop_length,
      nil_append]
    by_cases hj : j < ys.length
    . obtain ⟨newdata', hcopy, hlen, hstart⟩ :=
        copyBytes_spec ha (show j + (ys.length - j) ≤ ys.length by omega) h.start
        (hroom _ (by omega))
      rw [take_of_length_le (Nat.le_of_eq length_drop)] at hstart
      rw [if_pos (by rw [hused']; simp only [hllExplicitUint]; omega)]
      exact ⟨newdata', hcopy, hlen, hstart⟩
    . rw [if_neg (by rw [hused']; simp only [hllExplicitUint]; omega),
        drop_eq_nil_of_le (show ys.length ≤ j by omega), append_nil]
      exact ⟨newdata, rfl, rfl, h.start⟩

end

theorem hllComibineExplicit_memory (E : Estimator) (hp : ParaOk o.hllpara) (htype : o.hlltype = .explicit)
    (htype' : aHll.hlltype = .explicit) (ho : Holds o (encodeHashes xs)) (ha : Holds aHll (encodeHashes ys))
    (hsorted : xs.Pairwise (· < ·)) (hsorted' : ys.Pairwise (· < ·)) (hne : xs ≠ [])
      (hused : o.lenUsed ≤ 2 ^ 12)
    (hused' : aHll.lenUsed ≤ 2 ^ 12)
    : ∃ o', hllComibineExplicit E o aHll = .ok o' ∧ o'.hllpara = o.hllpara ∧ ModeOk o' := by
  have hlen : o.lenUsed = hllExplicitUint * xs.length := by rw [← ho.length, length_encodeHashes]
  have hlen' : aHll.lenUsed = hllExplicitUint * ys.length := by rw [← ha.length, length_encodeHashes]
  have hsum : o.lenUsed + aHll.lenUsed = hllExplicitUint * (xs.length + ys.length) := by
    rw [hlen, hlen', Nat.mul_add]
  have hstart : Merged xs ys 0 0 [] (List.replicate (o.lenUsed + aHll.lenUsed) 0) := by
    constructor
    . exact Nat.zero_le _
    . exact Nat.zero_le _
    . exact nil_prefix
    . rw [length_replicate, hsum]
    . exact Nat.zero_le _
  obtain ⟨i, j, done, newdata, hloop, hmerged, hend, hrest⟩ :=
    combineLoop_spec ho ha _ 0 0 [] _ (Nat.le_refl _) hstart
  have hleft := hmerged.left_le
  have hright := hmerged.right_le
  have hdone := hmerged.done_le
  obtain ⟨hcombined, hmem⟩ := combineHashes_spec xs ys hsorted hsorted'
  obtain ⟨newdata', hcopy, hlength, hstart⟩ := copyRest_spec ho ha hmerged hend
  rw [hrest, nil_append, drop_zero, drop_zero] at hstart
  have hcount : done.length + ((xs.length - i) + (ys.length - j)) = (combineHashes xs ys).length := by
    have hlengths := congrArg List.length hrest
    simp only [length_append, length_drop, nil_append, drop_zero] at hlengths
    exact hlengths
  have hleftLen : hllExplicitUint * (xs.length + ys.length) - (hllExplicitUint * i + hllExplicitUint * j)
      = hllExplicitUint * ((xs.length - i) + (ys.length - j)) := by
    simp only [hllExplicitUint]
    omega
  have hnonempty : combineHashes xs ys ≠ [] := by
    obtain ⟨x, hx⟩ := exists_mem_of_ne_nil xs hne
    exact ne_nil_of_mem ((hmem x).2 (Or.inl hx))
  unfold hllComibineExplicit
  rw [assertTrue_of htype, ok_bind, assertTrue_of htype', ok_bind]
  dsimp only
  simp only [Nat.mul_zero, length_nil] at hloop
  rw [hloop, ok_bind]
  dsimp only
  rw [hsum, sub_of_le (by simp only [hllExplicitUint]; omega), ok_bind, hleftLen, hcopy, ok_bind,
    ← Nat.mul_add, hcount]
  have hholds : Holds { o with
      hllData := newdata', lenTotal := hllExplicitUint * (xs.length + ys.length),
      lenUsed := hllExplicitUint * (combineHashes xs ys).length, lastHash := 0,
      ndvEstimator := E.ofNat (hllExplicitUint * (combineHashes xs ys).length / hllExplicitUint) }
      (encodeHashes (combineHashes xs ys)) := by
    constructor
    . exact hstart
    . exact length_encodeHashes _
    . rw [hlength, hmerged.size]
  refine hllExplicitCheck_memory ?_ ?_ hholds hcombined hnonempty ?_
  . exact hp
  . exact htype
  . dsimp only
    omega

end Merge

section Union

variable {o aHll : HllObjectData}

theorem combineFull_foldlM (bytes : Bytes)
    : ∀ n ≤ bytes.length, ∀ hllData : Bytes, hllData.length = bytes.length →
        ∃ hllData', (List.range n).foldlM (fun hllData i => do
              let byte ← inBuffer hllData[i]?
              let aByte ← inBuffer bytes[i]?
              if byte < aByte then inBuffer (Buffer.write hllData i [aByte]) else return hllData) hllData
            = .ok hllData'
          ∧ hllData'.length = bytes.length := by
  intro n
  induction n with
  | zero =>
    intro _ hllData hlen
    exact ⟨hllData, rfl, hlen⟩
  | succ n ih =>
    intro hn hllData hlen
    obtain ⟨hllData', hfold, hlen'⟩ := ih (by omega) hllData hlen
    rw [range_succ, foldlM_append, hfold, ok_bind, foldlM_cons, getElem?_eq_getElem (by omega),
      inBuffer_some, ok_bind, getElem?_eq_getElem (by omega), inBuffer_some, ok_bind]
    split
    . rw [Buffer.write_singleton _ (by omega), inBuffer_some, ok_bind]
      exact ⟨_, rfl, by rw [length_set, hlen']⟩
    . exact ⟨_, rfl, hlen'⟩

theorem hllCombineFull_memory (h : FullOk o) (ha : FullOk aHll) (hpara : o.hllpara = aHll.hllpara)
    : ∃ o', hllCombineFull o aHll = .ok o' ∧ o'.hllpara = o.hllpara ∧ FullOk o' := by
  have hlen : o.hllData.length = aHll.hllData.length := by
    rw [h.total, h.lenTotal, h.lenUsed, ha.total, ha.lenTotal, ha.lenUsed, hpara]
  have hused : o.lenUsed = aHll.hllData.length := by rw [← hlen, h.total, h.lenTotal]
  obtain ⟨hllData', hfold, hlen'⟩ := combineFull_foldlM aHll.hllData o.lenUsed
    (by omega) o.hllData hlen
  unfold hllCombineFull
  rw [assertTrue_of h.hlltype, ok_bind, assertTrue_of ha.hlltype, ok_bind, hfold, ok_bind]
  apply Exists.intro
  apply And.intro rfl
  apply And.intro rfl
  constructor
  . exact h.hlltype
  . exact h.lenUsed
  . exact h.lenTotal
  . dsimp only
    rw [hlen', ← hlen, h.total]

theorem hllCopy_memory (h : Inv o) (ha : Inv aHll) (hblank : o.hlltype = .uninit ∨ o.hlltype = .empty)
    (hne : aHll.hlltype ≠ .uninit) (hne' : aHll.hlltype ≠ .empty)
    : ∃ o', hllCopy o aHll = .ok o' ∧ SameMemory aHll o' := by
  have htotal := ha.mode.total
  have hle : aHll.lenUsed ≤ aHll.lenTotal := ha.mode.used_le
  have hread : Buffer.read aHll.hllData 0 aHll.lenUsed = some aHll.used := by
    unfold Buffer.read
    rw [if_pos (by omega), drop_zero]
    rfl
  have hlength : aHll.used.length = aHll.lenUsed := length_take_of_le (by omega)
  have hnil : [] <+: List.replicate aHll.lenTotal (0 : UInt8) := nil_prefix
  obtain ⟨hllData, hwrite, hlen, hpre⟩ := Buffer.write_prefix aHll.used hnil (by
    rw [length_nil, length_replicate, hlength]
    omega)
  have hpos : o.lenTotal < aHll.lenTotal := by
    rw [h.mode.lenTotal_of_blank hblank]
    exact Nat.lt_of_lt_of_le (ha.mode.lenUsed_pos hne hne') hle
  unfold hllCopy
  cases htype : aHll.hlltype with
  | uninit => contradiction
  | empty => contradiction
  | _ =>
    dsimp only
    rw [if_pos hpos]
    dsimp only
    rw [hread, inBuffer_some, ok_bind, show (0 : Nat) = ([] : Bytes).length from rfl, hwrite, inBuffer_some,
      ok_bind]
    apply Exists.intro
    apply And.intro rfl
    constructor
    . exact htype.symm
    . rfl
    . rfl
    . rfl
    . rw [nil_append] at hpre
      rw [HllObjectData.used, ← hlength]
      exact (prefix_iff_eq_take.1 hpre).symm
    . rw [hlen, length_replicate]

theorem hllCheckParaequal_eq {p q : HllPara} (h : hllCheckParaequal p q = .ok ()) : p = q := by
  have hequal : ∀ name a b, checkEqual name a b = .ok () → a = b := by
    intro name a b hcheck
    unfold checkEqual at hcheck
    split at hcheck
    . cases hcheck
    . rename_i heq
      exact not_not.1 heq
  unfold hllCheckParaequal at h
  obtain ⟨_, hregisters, h⟩ := bind_eq_ok.1 h
  obtain ⟨_, hexplicit, h⟩ := bind_eq_ok.1 h
  obtain ⟨_, hsparse, h⟩ := bind_eq_ok.1 h
  cases p
  cases q
  rw [HllPara.mk.injEq]
  exact ⟨hequal _ _ _ hregisters, hequal _ _ _ hexplicit, hequal _ _ _ hsparse, hequal _ _ _ h⟩

theorem hllUnion_memory (E : Estimator) (h : Inv o) (ha : Inv aHll)
    : (∃ msg, hllUnion E o aHll = .error (.ereport msg))
        ∨ ∃ o' aHll', hllUnion E o aHll = .ok (o', aHll') ∧ Inv o' ∧ Inv aHll' := by
  unfold hllUnion
  split
  . apply Or.inr
    exact ⟨o, aHll, rfl, h, ha⟩
  . rename_i hne
    obtain ⟨hne, hne'⟩ := not_or.1 hne
    split
    . rename_i hblank
      obtain ⟨o', hcopy, hsame⟩ := hllCopy_memory h ha hblank hne hne'
      apply Or.inr
      rw [hcopy, ok_bind]
      exact ⟨o', aHll, rfl, ha.congr hsame, ha⟩
    . rename_i hfilled
      obtain ⟨hfilled, hfilled'⟩ := not_or.1 hfilled
      cases hequal : hllCheckParaequal o.hllpara aHll.hllpara with
      | error msg =>
        apply Or.inl
        exact ⟨msg, rfl⟩
      | ok _ =>
        have hpara := hllCheckParaequal_eq hequal
        have hunite : ∀ o', o'.hllpara = o.hllpara → ModeOk o' → Inv o' := by
          intro o' hpara' hmode
          constructor
          . rw [hpara']
            exact h.para
          . exact hmode
        apply Or.inr
        rw [reported, ok_bind]
        split
        . rename_i hexplicit
          obtain ⟨xs, hholds, hsorted, hxs, hused⟩ := h.mode.exists_hashes hexplicit.2
          obtain ⟨ys, hholds', hsorted', hys, hused'⟩ := ha.mode.exists_hashes hexplicit.1
          obtain ⟨o', hcombine, hpara', hmode⟩ :=
            hllComibineExplicit_memory E h.para hexplicit.2 hexplicit.1 hholds
            hholds' hsorted hsorted' hxs hused hused'
          rw [hcombine, ok_bind]
          exact ⟨o', aHll, rfl, hunite o' hpara' hmode, ha⟩
        . obtain ⟨o₁, hfull₁, hpara₁, hok₁⟩ := hllTransformFull_memory h hfilled
          obtain ⟨o₂, hfull₂, hpara₂, hok₂⟩ := hllTransformFull_memory ha hne
          obtain ⟨o', hcombine, hpara', hok⟩ :=
            hllCombineFull_memory hok₁ hok₂ (by rw [hpara₁, hpara₂, hpara])
          rw [hfull₁, ok_bind, hfull₂, ok_bind, hcombine, ok_bind]
          apply Exists.intro o'
          apply Exists.intro o₂
          apply And.intro rfl
          apply And.intro
          . exact hunite o' (hpara'.trans hpara₁) (ModeOk.full hok)
          . constructor
            . rw [hpara₂]
              exact ha.para
            . exact ModeOk.full hok₂

end Union

end Hll.Memory

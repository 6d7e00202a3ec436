import OpenGauss.Hll.Runs
import OpenGauss.Hll.Memory.Convert

/-!
This module contains the operations on sketches in explicit mode with their memory.
-/

open List

namespace Hll.Memory

section Mode

structure ParaOk (p : HllPara) : Prop where
  inRange : p.InRange
  explicitsize_le : p.log2Explicitsize ≤ 12
  sparsesize_le : p.log2Sparsesize ≤ 14
  duplicateCheck_le : p.duplicateCheck ≤ 1

inductive ModeOk (o : HllObjectData) : Prop where
  | blank (htype : o.hlltype = .uninit ∨ o.hlltype = .empty) (hlenTotal : o.lenTotal = 0)
      (hlenUsed : o.lenUsed = 0) (hdata : o.hllData = [])
  | explicit (hashes : List UInt64) (htype : o.hlltype = .explicit) (hholds : Holds o (encodeHashes hashes))
      (hsorted : hashes.Pairwise (· < ·)) (hne : hashes ≠ []) (hused : o.lenUsed ≤ 2 ^ 12)
      (htotal : o.lenTotal ≤ 2 ^ 13)
  | sparse (hok : SparseOk o) (htotal : o.lenTotal ≤ 2 ^ 16 + 2 ^ 9)
  | full (hok : FullOk o)

structure Inv (o : HllObjectData) : Prop where
  para : ParaOk o.hllpara
  mode : ModeOk o

structure SameMemory (o o' : HllObjectData) : Prop where
  hlltype : o'.hlltype = o.hlltype
  hllpara : o'.hllpara = o.hllpara
  lenTotal : o'.lenTotal = o.lenTotal
  lenUsed : o'.lenUsed = o.lenUsed
  used : o'.used = o.used
  total : o'.hllData.length = o'.lenTotal

variable {o o' : HllObjectData} {bytes : Bytes}

theorem Holds.congr (h : Holds o bytes) (hsame : SameMemory o o') : Holds o' bytes := by
  constructor
  . rw [← h.used_eq, ← hsame.used]
    apply take_prefix
  . rw [hsame.lenUsed]
    exact h.length
  . exact hsame.total

theorem SparseOk.congr (h : SparseOk o) (hsame : SameMemory o o') : SparseOk o' := by
  constructor
  . rw [hsame.hlltype]
    exact h.hlltype
  . rw [hsame.lenUsed, hsame.lenTotal]
    exact h.used_le
  . exact hsame.total
  . rw [hsame.used]
    exact h.allUsed
  . rw [hsame.used, hsame.hllpara]
    exact h.covers

theorem FullOk.congr (h : FullOk o) (hsame : SameMemory o o') : FullOk o' := by
  constructor
  . rw [hsame.hlltype]
    exact h.hlltype
  . rw [hsame.lenUsed, hsame.hllpara]
    exact h.lenUsed
  . rw [hsame.lenTotal, hsame.lenUsed]
    exact h.lenTotal
  . exact hsame.total

theorem ModeOk.congr (h : ModeOk o) (hsame : SameMemory o o') : ModeOk o' := by
  cases h with
  | blank htype hlenTotal hlenUsed hdata =>
    apply ModeOk.blank
    . rw [hsame.hlltype]
      exact htype
    . rw [hsame.lenTotal, hlenTotal]
    . rw [hsame.lenUsed, hlenUsed]
    . apply eq_nil_of_length_eq_zero
      rw [hsame.total, hsame.lenTotal, hlenTotal]
  | explicit hashes htype hholds hsorted hne hused htotal =>
    apply ModeOk.explicit hashes
    . rw [hsame.hlltype, htype]
    . exact hholds.congr hsame
    . exact hsorted
    . exact hne
    . rw [hsame.lenUsed]
      exact hused
    . rw [hsame.lenTotal]
      exact htotal
  | sparse hok htotal =>
    apply ModeOk.sparse
    . exact hok.congr hsame
    . rw [hsame.lenTotal]
      exact htotal
  | full hok => exact ModeOk.full (hok.congr hsame)

theorem Inv.congr (h : Inv o) (hsame : SameMemory o o') : Inv o' := by
  constructor
  . rw [hsame.hllpara]
    exact h.para
  . exact h.mode.congr hsame

section

variable (h : ModeOk o)
include h

theorem ModeOk.total : o.hllData.length = o.lenTotal := by
  cases h with
  | blank htype hlenTotal hlenUsed hdata => rw [hdata, hlenTotal, length_nil]
  | explicit hashes htype hholds => exact hholds.total
  | sparse hok => exact hok.total
  | full hok => exact hok.total

theorem ModeOk.used_le : o.lenUsed ≤ o.lenTotal := by
  cases h with
  | blank htype hlenTotal hlenUsed hdata => omega
  | explicit hashes htype hholds => exact hholds.used_le
  | sparse hok => exact hok.used_le
  | full hok => exact Nat.le_of_eq hok.lenTotal.symm

theorem ModeOk.lenTotal_of_blank (hblank : o.hlltype = .uninit ∨ o.hlltype = .empty)
    : o.lenTotal = 0 := by
  cases h with
  | blank htype hlenTotal => exact hlenTotal
  | explicit hashes htype =>
    rw [htype] at hblank
    simp at hblank
  | sparse hok =>
    rw [hok.hlltype] at hblank
    simp at hblank
  | full hok =>
    rw [hok.hlltype] at hblank
    simp at hblank

theorem ModeOk.exists_hashes (hexplicit : o.hlltype = .explicit)
    : ∃ hashes, Holds o (encodeHashes hashes) ∧ hashes.Pairwise (· < ·) ∧ hashes ≠ [] ∧
      o.lenUsed ≤ 2 ^ 12 := by
  cases h with
  | blank htype =>
    rw [hexplicit] at htype
    simp at htype
  | explicit hashes htype hholds hsorted hne hused htotal => exact ⟨hashes, hholds, hsorted, hne, hused⟩
  | sparse hok =>
    rw [hok.hlltype] at hexplicit
    cases hexplicit
  | full hok =>
    rw [hok.hlltype] at hexplicit
    cases hexplicit

theorem ModeOk.lenUsed_pos (hne : o.hlltype ≠ .uninit) (hne' : o.hlltype ≠ .empty)
    : 0 < o.lenUsed := by
  cases h with
  | blank htype =>
    obtain htype | htype := htype
    . contradiction
    . contradiction
  | explicit hashes htype hholds hsorted hne =>
    rw [← hholds.length, length_encodeHashes]
    exact Nat.mul_pos (by decide) (length_pos_iff.2 hne)
  | sparse hok =>
    have hcovers := hok.covers
    rw [← hok.holds.length]
    apply length_pos_iff.2
    intro hnil
    rw [hnil, decode_nil, length_nil] at hcovers
    exact absurd hcovers.symm (Nat.two_pow_pos _).ne'
  | full hok =>
    rw [hok.lenUsed]
    exact Nat.two_pow_pos _

end

theorem Inv.withEstimate (h : Inv o) (ndvEstimator lastHash : UInt64)
    : Inv { o with ndvEstimator, lastHash } := by
  apply h.congr
  constructor
  . rfl
  . rfl
  . rfl
  . rfl
  . rfl
  . exact h.mode.total

end Mode

section Search

variable {o : HllObjectData} {hashes : List UInt64}

variable (h : Holds o (encodeHashes hashes))
include h

theorem hllGetExplictitValue_getD {i : Nat} (hi : i < hashes.length)
    : hllGetExplictitValue o (i * hllExplicitUint) = .ok (hashes.getD i 0) := by
  rw [Nat.mul_comm, hllGetExplictitValue_eq h hi, getD_eq_getElem _ _ hi]

theorem upperBound_sim (hashval : UInt64) : ∀ turns start last, last ≤ hashes.length →
      upperBound o hashval turns start last = .ok (Hll.upperBound hashes hashval turns start last) := by
  intro turns
  induction turns with
  | zero =>
    intro start last _
    rfl
  | succ turns ih =>
    intro start last hlast
    unfold upperBound Hll.upperBound
    split
    . dsimp only
      rw [hllGetExplictitValue_getD h (by omega), ok_bind]
      split
      . apply ih
        exact hlast
      . apply ih
        omega
    . rfl

theorem isStored_sim {bindex : Nat} (hle : bindex ≤ hashes.length) (hashval : UInt64)
    : isStored o bindex hashval = .ok (decide (bindex > 0 ∧ hashes.getD (bindex - 1) 0 = hashval)) := by
  unfold isStored
  split
  . rename_i hpos
    rw [hllGetExplictitValue_getD h (by omega), ok_bind]
    simp [hpos, pure, Except.pure]
  . rename_i hzero
    simp [hzero]

end Search

section Convert

variable {o : HllObjectData} {hashes : List UInt64}

theorem explicitToFull_foldlM {p : HllPara} (hp : p.InRange) (hashes : List UInt64)
    : ∀ newdata : Bytes, newdata.length = 2 ^ p.log2Registers → ∃ full, hashes.foldlM (fun newdata hashval =>
          inBuffer (Buffer.write newdata (hllHashToValue p hashval).1 [(hllHashToValue p hashval).2])) newdata
            = .ok full
        ∧ full.length = 2 ^ p.log2Registers := by
  induction hashes with
  | nil =>
    intro newdata hlen
    apply Exists.intro newdata
    exact And.intro rfl hlen
  | cons hashval hashes ih =>
    intro newdata hlen
    have hindex : (hllHashToValue p hashval).1 < newdata.length := by
      rw [hlen]
      exact hashIndex_lt hp hashval
    rw [foldlM_cons, Buffer.write_singleton _ hindex, inBuffer_some, ok_bind]
    apply ih
    rw [length_set, hlen]

theorem hllTransformFull_explicit_memory (hp : o.hllpara.InRange) (htype : o.hlltype = .explicit)
    (h : Holds o (encodeHashes hashes))
    : ∃ o', hllTransformFull o = .ok o' ∧ o'.hllpara = o.hllpara ∧ FullOk o' := by
  obtain ⟨full, hfull, hlen⟩ :=
    explicitToFull_foldlM hp hashes (List.replicate (2 ^ o.hllpara.log2Registers) 0) length_replicate
  have hcount : (o.lenUsed + 7) / hllExplicitUint = hashes.length := by
    rw [← h.length, length_encodeHashes]
    simp only [hllExplicitUint]
    omega
  have hloop := foldlM_range_eq hashes (fun i => hllGetExplictitValue o (hllExplicitUint * i))
    (fun newdata hashval => inBuffer
      (Buffer.write newdata (hllHashToValue o.hllpara hashval).1 [(hllHashToValue o.hllpara hashval).2]))
    (fun i hi => hllGetExplictitValue_eq h hi) (List.replicate (2 ^ o.hllpara.log2Registers) 0)
    hashes.length (Nat.le_refl _)
  rw [take_length, hfull] at hloop
  apply Exists.intro (becomeFull o full)
  apply And.intro
  . unfold hllTransformFull explicitToFull
    rw [htype, hcount]
    dsimp only
    rw [hloop, ok_bind]
    rfl
  . exact And.intro rfl (fullOk_becomeFull hlen)

theorem hllTransformFull_memory (h : Inv o) (hne : o.hlltype ≠ .uninit)
    : ∃ o', hllTransformFull o = .ok o' ∧ o'.hllpara = o.hllpara ∧ FullOk o' := by
  cases h.mode with
  | blank htype =>
    have hempty : o.hlltype = .empty := htype.resolve_left hne
    apply Exists.intro (becomeFull o (List.replicate (2 ^ o.hllpara.log2Registers) 0))
    apply And.intro
    . unfold hllTransformFull
      rw [hempty]
    . exact And.intro rfl (fullOk_becomeFull length_replicate)
  | explicit hashes htype hholds => exact hllTransformFull_explicit_memory h.para.inRange htype hholds
  | sparse hok =>
    obtain ⟨full, hfull, hlen, -⟩ := hllTransformFull_sparse_memory hok
    apply Exists.intro (becomeFull o full)
    exact And.intro hfull (And.intro rfl (fullOk_becomeFull hlen))
  | full hok =>
    apply Exists.intro o
    apply And.intro
    . unfold hllTransformFull
      rw [hok.hlltype]
    . exact And.intro rfl hok

theorem length_le_decode (bytes : Bytes) (hused : AllUsed bytes) : bytes.length ≤ (decode bytes).length := by
  induction bytes with
  | nil => exact Nat.zero_le _
  | cons byte bytes ih =>
    obtain ⟨hbyte, hrest⟩ := allUsed_cons.1 hused
    have hpos := length_decodeByte_pos byte hbyte
    have hle := ih hrest
    rw [decode_cons, length_append, length_cons]
    omega

theorem SparseOk.used_le_registers (h : SparseOk o) (hp : o.hllpara.InRange) : o.lenUsed ≤ 2 ^ 16 := by
  have hle := length_le_decode o.used h.allUsed
  rw [h.covers, h.holds.length] at hle
  calc o.lenUsed ≤ 2 ^ o.hllpara.log2Registers := hle
    _ ≤ 2 ^ 16 := Nat.pow_le_pow_right (by omega) hp.registers_le

theorem hllExplicitCheck_memory (hp : ParaOk o.hllpara) (htype : o.hlltype = .explicit)
    (h : Holds o (encodeHashes hashes)) (hsorted : hashes.Pairwise (· < ·)) (hne : hashes ≠ [])
    (htotal : o.lenTotal ≤ 2 ^ 13)
    : ∃ o', hllExplicitCheck o = .ok o' ∧ o'.hllpara = o.hllpara ∧ ModeOk o' := by
  have hpow : 2 ^ o.hllpara.log2Explicitsize ≤ 2 ^ 12 := Nat.pow_le_pow_right (by omega) hp.explicitsize_le
  unfold hllExplicitCheck
  rw [assertTrue_of htype, ok_bind]
  split
  . split
    . have hle : hashes.Pairwise (· ≤ ·) := by
        apply hsorted.imp
        intro a b hlt
        exact UInt64.le_of_lt hlt
      obtain ⟨o₁, hsparse, hok, hpara, hbound⟩ := hllExplicitToSparse_memory hp.inRange htype h hle
      have htransform : hllTransformSparse o = .ok o₁ := by
        unfold hllTransformSparse
        rw [htype]
        exact hsparse
      rw [htransform, ok_bind]
      split
      . obtain ⟨full, hfull, hlen, -⟩ := hllTransformFull_sparse_memory hok
        apply Exists.intro (becomeFull o₁ full)
        exact And.intro hfull (And.intro hpara (ModeOk.full (fullOk_becomeFull hlen)))
      . apply Exists.intro o₁
        apply And.intro rfl
        apply And.intro hpara
        apply ModeOk.sparse hok
        have hused := hok.used_le_registers (by rw [hpara]; exact hp.inRange)
        have hnbyte := nbyte_le hp.inRange
        unfold hllExpandSize at hbound
        omega
    . obtain ⟨o', hfull, hpara, hok⟩ := hllTransformFull_explicit_memory hp.inRange htype h
      apply Exists.intro o'
      exact And.intro hfull (And.intro hpara (ModeOk.full hok))
  . apply Exists.intro o
    apply And.intro rfl
    apply And.intro rfl
    exact ModeOk.explicit hashes htype h hsorted hne (by omega) htotal

end Convert

section Add

variable {o : HllObjectData} {hashes : List UInt64} {bytes : Bytes} (E : Estimator)

def withRoom (o : HllObjectData) : HllObjectData :=
  if o.lenTotal - o.lenUsed < hllExplicitUint then hllDataExpand o else o

theorem withRoom_updated (htype : o.hlltype = .explicit) (h : Holds o bytes) (hused : o.lenUsed ≤ 2 ^ 12)
    (htotal : o.lenTotal ≤ 2 ^ 13)
    : (withRoom o).hlltype = .explicit ∧ (withRoom o).hllpara = o.hllpara ∧ Holds (withRoom o) bytes
        ∧ (withRoom o).lenTotal ≤ 2 ^ 13 := by
  unfold withRoom
  split
  . rename_i hfull
    apply And.intro
    . unfold hllDataExpand
      split <;> exact htype
    . apply And.intro
      . unfold hllDataExpand
        split <;> rfl
      . apply And.intro h.expand
        rw [lenTotal_hllDataExpand]
        simp only [hllExplicitUint, hllExpandSize] at *
        omega
  . exact And.intro htype (And.intro rfl (And.intro h htotal))

theorem hllSetExplicitValue_memory (hp : ParaOk o.hllpara) (htype : o.hlltype = .explicit)
    (h : Holds o (encodeHashes hashes)) (hsorted : hashes.Pairwise (· < ·)) (hused : o.lenUsed ≤ 2 ^ 12)
    (htotal : o.lenTotal ≤ 2 ^ 13) (hashval : UInt64)
    : ∃ o', hllSetExplicitValue E o hashval = .ok o' ∧ o'.hllpara = o.hllpara ∧ ModeOk o' := by
  obtain ⟨hle, hbelow, habove⟩ := upperBound_spec hashes hashval hsorted hashes.length 0 hashes.length
    (by omega) (by omega) (Nat.le_refl _) (fun i hi => absurd hi (by omega))
    (fun i hi hilen => absurd hilen (Nat.not_lt.2 hi))
  have hcount : o.lenUsed / hllExplicitUint = hashes.length := by
    rw [← h.length, length_encodeHashes, Nat.mul_div_cancel_left _ (by decide)]
  obtain ⟨hroomType, hroomPara, hroom, hroomTotal⟩ := withRoom_updated htype h hused htotal
  have hroomUsed : (withRoom o).lenUsed = o.lenUsed := by rw [← hroom.length, h.length]
  unfold hllSetExplicitValue
  rw [assertTrue_of htype, ok_bind]
  dsimp only
  rw [sub_of_le h.used_le, ok_bind, show (if o.lenTotal - o.lenUsed < hllExplicitUint then hllDataExpand o else o)
    = withRoom o from rfl, hcount, upperBound_sim hroom hashval _ _ _ (Nat.le_refl _), ok_bind]
  generalize Hll.upperBound hashes hashval hashes.length 0 hashes.length = bindex at hle hbelow habove ⊢
  rw [isStored_sim hroom hle, ok_bind]
  split
  . rename_i hfound
    have hpos := (of_decide_eq_true hfound).1
    have hne : hashes ≠ [] := by
      intro hnil
      rw [hnil, length_nil] at hle
      omega
    apply Exists.intro (withRoom o)
    apply And.intro rfl
    apply And.intro hroomPara
    exact ModeOk.explicit hashes hroomType hroom hsorted hne (by omega) hroomTotal
  . rename_i hfound
    have hsmaller := getD_lt_of_not_found hsorted hle hbelow (of_decide_eq_false (by simpa using hfound))
    have hdenotes : Denotes o.hllpara hashes.toFinset (.explicit hashes) := And.intro hsorted rfl
    obtain ⟨hinserted, -⟩ := denotes_insert hdenotes hsmaller habove
    have hsplit : encodeHashes hashes
        = encodeHashes (hashes.take bindex) ++ [] ++ encodeHashes (hashes.drop bindex) := by
      rw [append_nil, ← encodeHashes_append, take_append_drop]
    have hindex : hllExplicitUint * bindex = (encodeHashes (hashes.take bindex)).length := by
      rw [length_encodeHashes, length_take_of_le hle]
    have hvalue : (LittleEndian.encode hllExplicitUint hashval.toNat).length = hllExplicitUint :=
      LittleEndian.length_encode ..
    have hused' : (encodeHashes hashes).length = o.lenUsed := h.length
    rw [hsplit] at hroom
    obtain ⟨o₁, hupdate, hupdated⟩ := hllUpdateValue_spec hroom (Nat.le_of_eq hvalue.symm) (Nat.zero_le _)
    rw [take_of_length_le (Nat.le_of_eq hvalue), append_assoc, ← encodeHashes_cons,
      ← encodeHashes_append] at hupdated
    have hupdated := hupdated.withNdv (E.succ o₁.ndvEstimator)
    have hlength : (encodeHashes (hashes.take bindex ++ hashval :: hashes.drop bindex)).length
        = o.lenUsed + hllExplicitUint := by
      rw [length_encodeHashes] at hused' ⊢
      rw [← hused', length_append, length_cons, length_take_of_le hle, length_drop]
      simp only [hllExplicitUint]
      omega
    rw [hindex, show (0 : Nat) = ([] : Bytes).length from rfl, hupdate, ok_bind]
    have hbound := hupdated.lenTotal_le
    rw [hlength] at hbound
    have htotal' : max (withRoom o).lenTotal (o.lenUsed + hllExplicitUint + 255) ≤ 2 ^ 13 := by
      simp only [hllExplicitUint]
      omega
    have hpara : o₁.hllpara = o.hllpara := hupdated.hllpara.trans hroomPara
    obtain ⟨o', hcheck, hpara', hmode⟩ := hllExplicitCheck_memory
      (by rw [hupdated.hllpara, hroomPara]; exact hp) (by rw [hupdated.hlltype, hroomType]) hupdated.holds
      hinserted (by simp) (by omega)
    apply Exists.intro o'
    apply And.intro hcheck
    exact And.intro (hpara'.trans hpara) hmode

theorem hllSetFullValue_memory (h : FullOk o) (hp : o.hllpara.InRange) (hashval : UInt64)
    : ∃ o', hllSetFullValue o hashval = .ok o' ∧ o'.hllpara = o.hllpara ∧ FullOk o' := by
  have hindex : hashIndex o.hllpara hashval < o.hllData.length := by
    rw [h.total, h.lenTotal, h.lenUsed]
    exact hashIndex_lt hp hashval
  have hused : o.hllData.length = o.lenUsed := by rw [h.total, h.lenTotal]
  have hpair : hllHashToValue o.hllpara hashval
      = (hashIndex o.hllpara hashval, (hllHashToValue o.hllpara hashval).2) := rfl
  unfold hllSetFullValue
  rw [assertTrue_of h.hlltype, ok_bind, hpair]
  dsimp only
  split
  . apply Exists.intro o
    exact And.intro rfl (And.intro rfl h)
  . unfold hllGetByte
    rw [if_neg (by omega), getElem?_eq_getElem hindex, inBuffer_some, ok_bind]
    split
    . unfold hllSetByte
      rw [if_neg (by omega), Buffer.write_singleton _ hindex, inBuffer_some, ok_bind]
      apply Exists.intro
      apply And.intro rfl
      apply And.intro rfl
      constructor
      . exact h.hlltype
      . exact h.lenUsed
      . exact h.lenTotal
      . simpa using h.total
    . apply Exists.intro o
      exact And.intro rfl (And.intro rfl h)

theorem mode_of_registerSet {o o' : HllObjectData} {index value : Nat} (hp : o.hllpara.InRange)
    (htotal : o.lenTotal ≤ 2 ^ 16 + 2 ^ 9) (h : RegisterSet o o' index value) : ModeOk o' := by
  obtain hsparse | hfull := h.mode
  . obtain ⟨hok, hbound⟩ := hsparse
    apply ModeOk.sparse hok
    have hused := hok.used_le_registers (by rw [h.hllpara]; exact hp)
    omega
  . exact ModeOk.full hfull

theorem hllSetEmptyValue_memory (hp : ParaOk o.hllpara) (htype : o.hlltype = .empty)
    (hlenTotal : o.lenTotal = 0)
    (hlenUsed : o.lenUsed = 0) (hdata : o.hllData = []) (hashval : UInt64)
    : ∃ o', hllSetEmptyValue E o hashval = .ok o' ∧ o'.hllpara = o.hllpara ∧ ModeOk o' := by
  unfold hllSetEmptyValue
  rw [assertTrue_of htype, ok_bind]
  split
  . have hfull : hllTransformFull o = .ok (becomeFull o (List.replicate (2 ^ o.hllpara.log2Registers) 0)) := by
      unfold hllTransformFull
      rw [htype]
    obtain ⟨o', hset, hpara, hok⟩ :=
      hllSetFullValue_memory (fullOk_becomeFull length_replicate) hp.inRange hashval
    rw [hfull, ok_bind]
    apply Exists.intro o'
    exact And.intro hset (And.intro hpara (ModeOk.full hok))
  . split
    . obtain ⟨hsparse, hok⟩ := hllEmptyToSparse_memory hp.inRange htype hdata
      have htransform : hllTransformSparse o = .ok (sparseOf o (Hll.hllEmptyToSparse o.hllpara)) := by
        unfold hllTransformSparse
        rw [htype]
        exact hsparse
      obtain ⟨o', hset, hregister⟩ := hllSetSparseValue_memory hok hp.inRange hashval
      rw [htransform, ok_bind]
      apply Exists.intro o'
      apply And.intro hset
      apply And.intro hregister.hllpara
      have hused := hok.used_le_registers hp.inRange
      have htotal : (sparseOf o (Hll.hllEmptyToSparse o.hllpara)).lenTotal
        = (sparseOf o (Hll.hllEmptyToSparse o.hllpara)).lenUsed := rfl
      have hpara : (sparseOf o (Hll.hllEmptyToSparse o.hllpara)).hllpara.InRange := hp.inRange
      exact mode_of_registerSet hpara (by omega) hregister
    . have hholds : Holds { o with hlltype := .explicit } (encodeHashes []) := by
        constructor
        . exact nil_prefix
        . dsimp only
          rw [hlenUsed]
          rfl
        . dsimp only
          rw [hdata, hlenTotal]
          rfl
      have hused : { o with hlltype := .explicit }.lenUsed ≤ 2 ^ 12 := by
        dsimp only
        omega
      have htotal : { o with hlltype := .explicit }.lenTotal ≤ 2 ^ 13 := by
        dsimp only
        omega
      exact hllSetExplicitValue_memory (o := { o with hlltype := .explicit }) E hp rfl hholds
        List.Pairwise.nil hused htotal hashval

theorem hllSetRegisterValue_memory (h : Inv o) (hashval : UInt64)
    : ∃ o', hllSetRegisterValue E o hashval = .ok o' ∧ Inv o' := by
  have hset : ∃ o', hllSetRegisterValue E o hashval = .ok o' ∧ o'.hllpara = o.hllpara ∧ ModeOk o' := by
    unfold hllSetRegisterValue
    cases h.mode with
    | blank htype hlenTotal hlenUsed hdata =>
      obtain htype | htype := htype
      . rw [htype]
        exact hllSetEmptyValue_memory (o := hllEmpty o) E h.para rfl rfl rfl rfl hashval
      . rw [htype]
        exact hllSetEmptyValue_memory E h.para htype hlenTotal hlenUsed hdata hashval
    | explicit hashes htype hholds hsorted hne hused htotal =>
      rw [htype]
      exact hllSetExplicitValue_memory E h.para htype hholds hsorted hused htotal hashval
    | sparse hok htotal =>
      rw [hok.hlltype]
      obtain ⟨o', hset, hregister⟩ := hllSetSparseValue_memory hok h.para.inRange hashval
      apply Exists.intro o'
      apply And.intro hset
      exact And.intro hregister.hllpara (mode_of_registerSet h.para.inRange htotal hregister)
    | full hok =>
      rw [hok.hlltype]
      obtain ⟨o', hset, hpara, hok'⟩ := hllSetFullValue_memory hok h.para.inRange hashval
      apply Exists.intro o'
      exact And.intro hset (And.intro hpara (ModeOk.full hok'))
  obtain ⟨o', hset, hpara, hmode⟩ := hset
  apply Exists.intro o'
  apply And.intro hset
  constructor
  . rw [hpara]
    exact h.para
  . exact hmode

theorem hllAdd_memory (h : Inv o) (hashval : UInt64) : ∃ o', hllAdd E o hashval = .ok o' ∧ Inv o' := by
  unfold hllAdd
  split
  . apply Exists.intro o
    exact And.intro rfl h
  . obtain ⟨o', hset, hinv⟩ := hllSetRegisterValue_memory E h hashval
    rw [hset, ok_bind]
    apply Exists.intro
    apply And.intro rfl
    exact hinv.withEstimate o'.ndvEstimator hashval

end Add

end Hll.Memory

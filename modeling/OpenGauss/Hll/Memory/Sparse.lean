import OpenGauss.Hll.Memory.Impl
import OpenGauss.Hll.Transform

/-!
This module contains the access to the memory of a sketch and the sparse mode in it.
-/

open List Buffer

namespace Hll.Memory

variable {value : UInt8} {index : Nat}

structure Holds (o : HllObjectData) (bytes : Bytes) : Prop where
  start : bytes <+: o.hllData
  length : bytes.length = o.lenUsed
  total : o.hllData.length = o.lenTotal

structure Updated (o o' : HllObjectData) (bytes : Bytes) : Prop where
  hlltype : o'.hlltype = o.hlltype
  hllpara : o'.hllpara = o.hllpara
  holds : Holds o' bytes
  lenTotal_le : o'.lenTotal ≤ max o.lenTotal (bytes.length + 255)

theorem Holds.updated {o : HllObjectData} {bytes : Bytes} (h : Holds o bytes) : Updated o o bytes := by
  constructor
  . rfl
  . rfl
  . exact h
  . apply Nat.le_max_left

theorem Updated.withNdv {o o' : HllObjectData} {bytes : Bytes} (h : Updated o o' bytes)
    (ndvEstimator : UInt64)
    : Updated o { o' with ndvEstimator } bytes := by
  constructor
  . exact h.hlltype
  . exact h.hllpara
  . constructor
    . exact h.holds.start
    . exact h.holds.length
    . exact h.holds.total
  . exact h.lenTotal_le

section Checked

variable {α β ε : Type}

@[simp]
theorem ok_bind (a : α) (f : α → Except ε β) : (Except.ok a >>= f) = f a := rfl

@[simp]
theorem inBuffer_some (a : α) : inBuffer (some a) = .ok a := rfl

theorem bind_eq_ok {x : Except ε α} {f : α → Except ε β} {b : β}
    : x >>= f = .ok b ↔ ∃ a, x = .ok a ∧ f a = .ok b := by
  cases x with
  | error e =>
    apply Iff.intro
    . intro h
      cases h
    . rintro ⟨a, h, -⟩
      cases h
  | ok a =>
    apply Iff.intro
    . intro h
      exact Exists.intro a (And.intro rfl h)
    . rintro ⟨a', h, hf⟩
      cases h
      exact hf

theorem sub_of_le {a b : Nat} (h : b ≤ a) : sub a b = .ok (a - b) := if_pos h

theorem assertTrue_of {c : Prop} [Decidable c] (h : c) : assertTrue c = .ok () := if_pos h

theorem foldlM_range_eq {σ : Type} (xs : List α) (get : Nat → Except ε α) (f : σ → α → Except ε σ)
    (hget : ∀ i (hi : i < xs.length), get i = .ok xs[i]) (s : σ)
    : ∀ n ≤ xs.length, (List.range n).foldlM (fun s i => get i >>= f s) s = (xs.take n).foldlM f s := by
  intro n hn
  induction n with
  | zero => rfl
  | succ n ih =>
    rw [range_succ, foldlM_append, ih (by omega), take_add_one, foldlM_append, getElem?_eq_getElem (by omega)]
    simp only [foldlM_cons, foldlM_nil, hget n (by omega), Option.toList_some]
    rfl

end Checked

section Access

variable {o : HllObjectData} {bytes : Bytes}

section

variable (h : Holds o bytes)
include h

theorem Holds.used_le : o.lenUsed ≤ o.lenTotal := by
  rw [← h.length, ← h.total]
  exact h.start.length_le

theorem hllGetByte_sim (index : Nat)
    : hllGetByte o index = reported (Hll.hllGetByte bytes index) := by
  unfold hllGetByte Hll.hllGetByte
  rw [← h.length]
  split
  . rename_i hge
    rw [getElem?_eq_none hge]
    simp [reported, outOfRange, h.length]
  . rename_i hlt
    obtain ⟨rest, hrest⟩ := h.start
    have hlt : index < bytes.length := by omega
    rw [← hrest, getElem?_append_left hlt, getElem?_eq_getElem hlt]
    rfl

theorem hllSetByte_sim {bytes' : Bytes} (hset : Hll.hllSetByte bytes index value = .ok bytes')
    : ∃ o', hllSetByte o index value = .ok o' ∧ Updated o o' bytes' := by
  unfold Hll.hllSetByte at hset
  split at hset
  . cases hset
  . rename_i hlt
    cases hset
    unfold hllSetByte
    rw [if_neg (by rw [← h.length]; exact hlt)]
    obtain ⟨rest, hrest⟩ := h.start
    have hlt : index < bytes.length := by omega
    have hwrite : write o.hllData index [value] = some (bytes.set index value ++ rest) := by
      rw [← hrest, write_singleton _ (by rw [length_append]; omega), set_append_left _ _ hlt]
    apply Exists.intro { o with hllData := bytes.set index value ++ rest }
    apply And.intro
    . rw [hwrite]
      rfl
    . have htotal := h.total
      rw [← hrest] at htotal
      constructor
      . rfl
      . rfl
      . constructor
        . apply prefix_append
        . simpa using h.length
        . simpa using htotal
      . apply Nat.le_max_left

theorem Holds.expand : Holds (hllDataExpand o) bytes := by
  have hlen := h.length
  have htotal := h.total
  apply Holds.mk
  . unfold hllDataExpand
    split
    . have hnil : bytes = [] := by
        apply eq_nil_of_length_eq_zero
        have hle := h.used_le
        omega
      rw [hnil]
      exact nil_prefix
    . exact List.IsPrefix.trans h.start (prefix_append _ _)
  . rw [lenUsed_hllDataExpand]
    exact hlen
  . unfold hllDataExpand
    split
    . rename_i hzero
      simp [hzero]
    . simp [htotal]

end

theorem expandFor_spec (need : Nat) {o : HllObjectData} (h : Holds o bytes)
    : ∃ d t, expandFor need o = .ok { o with hllData := d, lenTotal := t }
        ∧ Holds { o with hllData := d, lenTotal := t } bytes
        ∧ bytes.length + need ≤ t ∧ t ≤ max o.lenTotal (bytes.length + need + 255) := by
  fun_induction expandFor need o with
  | case1 o hle hneed ih =>
    obtain ⟨d, t, heq, hholds, hge, hlt⟩ := ih h.expand
    have hmeta : { hllDataExpand o with hllData := d, lenTotal := t } = { o with hllData := d, lenTotal :=
      t } := by
      unfold hllDataExpand
      split <;> rfl
    rw [hmeta] at heq hholds
    rw [lenTotal_hllDataExpand] at hlt
    have hlen := h.length
    apply Exists.intro d
    apply Exists.intro t
    apply And.intro heq
    apply And.intro hholds
    unfold hllExpandSize at hlt
    omega
  | case2 o hle hneed =>
    have hlen := h.length
    apply Exists.intro o.hllData
    apply Exists.intro o.lenTotal
    apply And.intro rfl
    apply And.intro h
    omega
  | case3 o hnot => exact absurd h.used_le hnot

theorem shiftTail_spec (pre mid post rest : Bytes) {insertLen : Nat} (hle : mid.length ≤ insertLen)
    (hroom : insertLen ≤ mid.length + rest.length)
    : ∃ gap rest', shiftTail (pre ++ mid ++ post ++ rest) pre.length insertLen mid.length post.length
          = .ok (pre ++ gap ++ (post ++ rest'))
        ∧ gap.length = insertLen
        ∧ (pre ++ gap ++ (post ++ rest')).length = (pre ++ mid ++ post ++ rest).length := by
  unfold shiftTail
  split
  . have hread : Buffer.read (pre ++ mid ++ post ++ rest) (pre.length + mid.length) post.length =
      some post := by
      rw [← length_append]
      apply read_middle
    have htake : (pre ++ mid ++ post ++ rest).take (pre.length + insertLen)
        = pre ++ (mid ++ post ++ rest).take insertLen := by
      rw [append_assoc, append_assoc, take_length_add_append, append_assoc]
    apply Exists.intro ((mid ++ post ++ rest).take insertLen)
    apply Exists.intro ((pre ++ mid ++ post ++ rest).drop (pre.length + insertLen + post.length))
    apply And.intro
    . unfold moveBytes
      rw [hread]
      unfold write
      rw [inBuffer_some, ok_bind, if_pos (by simp only [length_append]; omega), htake]
      simp
    . simp only [length_append, length_take, length_drop]
      omega
  . rename_i hnot
    by_cases hsame : insertLen = mid.length
    . apply Exists.intro mid
      apply Exists.intro rest
      simp [hsame]
    . have hpost : post = [] := by
        apply eq_nil_of_length_eq_zero
        omega
      apply Exists.intro ((mid ++ rest).take insertLen)
      apply Exists.intro ((mid ++ rest).drop insertLen)
      simp only [hpost, append_nil, nil_append, append_assoc, take_append_drop,
        length_take, length_append, true_and, and_true]
      omega

theorem hllUpdateValue_spec {pre mid post insertValue : Bytes} {insertLen : Nat}
    (h : Holds o (pre ++ mid ++ post)) (hlen : insertLen ≤ insertValue.length) (hle : mid.length ≤ insertLen)
    : ∃ o', hllUpdateValue o pre.length insertValue insertLen mid.length = .ok o'
        ∧ Updated o o' (pre ++ insertValue.take insertLen ++ post) := by
  have hused := h.length
  simp only [length_append] at hused
  obtain ⟨d, t, hexpand, hholds, hroom, hbound⟩ := expandFor_spec (insertLen - mid.length) h
  obtain ⟨rest, hrest⟩ := hholds.start
  have htotal := hholds.total
  dsimp only at hrest htotal
  rw [← hrest] at htotal
  simp only [length_append] at hroom hbound htotal
  obtain ⟨gap, rest', hshift, hgap, hlength⟩ := shiftTail_spec pre mid post rest hle (by omega)
  rw [hrest] at hshift
  have hnew : (insertValue.take insertLen).length = insertLen := by
    rw [length_take]
    omega
  have hread : Buffer.read insertValue 0 insertLen = some (insertValue.take insertLen) := by
    unfold Buffer.read
    rw [if_pos (by omega), drop_zero]
  have hwrite : write (pre ++ gap ++ (post ++ rest')) pre.length (insertValue.take insertLen)
      = some (pre ++ insertValue.take insertLen ++ (post ++ rest')) :=
    write_middle _ _ _ (by omega)
  simp only [length_append] at hlength
  apply Exists.intro { o with
    hllData := pre ++ insertValue.take insertLen ++ (post ++ rest'), lenTotal := t,
    lenUsed := o.lenUsed + (insertLen - mid.length) }
  apply And.intro
  . unfold hllUpdateValue
    rw [if_neg (by omega), sub_of_le hle, ok_bind, hexpand, ok_bind]
    dsimp only
    rw [sub_of_le (by omega), show o.lenUsed - (pre.length + mid.length) = post.length by omega, ok_bind,
      hshift, ok_bind, hread, inBuffer_some, ok_bind, hwrite]
    rfl
  . constructor
    . rfl
    . rfl
    . constructor
      . rw [← append_assoc]
        apply prefix_append
      . dsimp only
        simp only [length_append, hnew]
        omega
      . dsimp only
        simp only [length_append, hnew]
        omega
    . dsimp only
      simp only [length_append, hnew]
      omega

theorem hllUpdateValue_sim {insertLen originLen : Nat} {insertValue bytes' : Bytes} (h : Holds o bytes)
    (hlen : insertLen ≤ insertValue.length)
    (hlist : Hll.hllUpdateValue 1 bytes index (insertValue.take insertLen) originLen = .ok bytes')
    : ∃ o', hllUpdateValue o index insertValue insertLen originLen = .ok o' ∧ Updated o o' bytes' := by
  unfold Hll.hllUpdateValue at hlist
  split at hlist
  . cases hlist
  . split at hlist
    . cases hlist
    . rename_i hrange hle
      cases hlist
      have hpre : (bytes.take index).length = index := by
        rw [length_take]
        omega
      have hmid : ((bytes.drop index).take originLen).length = originLen := by
        rw [length_take, length_drop]
        omega
      have hsplit : bytes = bytes.take index ++ (bytes.drop index).take originLen
          ++ bytes.drop (index + originLen) := by
        rw [← drop_drop, append_assoc, take_append_drop, take_append_drop]
      rw [hsplit] at h
      rw [length_take, Nat.min_eq_left hlen] at hle
      have hspec := hllUpdateValue_spec h hlen (by omega)
      rw [hpre, hmid] at hspec
      exact hspec

end Access

section Scratch

structure Written (newByte : Bytes) (index size : Nat) (bytes : Bytes) : Prop where
  start : bytes <+: newByte
  index : bytes.length = index
  size : newByte.length = size

variable {newByte bytes bs : Bytes} {index size count : Nat}

section

variable (h : Written newByte index size bytes)
include h

theorem Written.take : newByte.take index = bytes := by
  rw [← h.index]
  exact (prefix_iff_eq_take.1 h.start).symm

theorem Written.index_le : index ≤ newByte.length := by
  rw [← h.index]
  exact h.start.length_le

theorem hllSetSparseByte_sim {byte : UInt8}
    (hcount : count ≠ 0) (hlt : index < size) (hlist : Hll.hllSetSparseByte count value = .ok byte)
    : ∃ newByte', hllSetSparseByte newByte index count value = .ok (newByte', index + 1)
        ∧ Written newByte' (index + 1) size (bytes ++ [byte]) := by
  have hindex := h.index
  have hsize := h.size
  obtain ⟨newByte', hwrite, hlength, hstart⟩ := write_prefix [byte] h.start (by
    rw [length_singleton]
    omega)
  rw [hindex] at hwrite
  apply Exists.intro newByte'
  apply And.intro
  . unfold hllSetSparseByte
    rw [assertTrue_of hcount, ok_bind, hlist]
    dsimp only [reported]
    rw [ok_bind, hwrite]
    rfl
  . constructor
    . exact hstart
    . rw [length_append, hindex, length_singleton]
    . rw [hlength, hsize]

theorem setZerosIf_sim {c : Prop} [Decidable c] (hcount : c → count ≠ 0)
    (hle : index + bs.length ≤ size) (hlist : zeroByteIf c count = .ok bs)
    : ∃ newByte', setZerosIf c newByte index count = .ok (newByte', index + bs.length)
        ∧ Written newByte' (index + bs.length) size (bytes ++ bs) := by
  unfold zeroByteIf at hlist
  unfold setZerosIf
  split at hlist
  . rename_i hc
    obtain ⟨byte, hbyte, hbs⟩ := bind_eq_ok.1 hlist
    cases hbs
    rw [if_pos hc]
    exact hllSetSparseByte_sim h (hcount hc) hle hbyte
  . rename_i hc
    cases hlist
    rw [if_neg hc]
    apply Exists.intro newByte
    apply And.intro rfl
    simpa using h

theorem setSide_sim (hle : index + bs.length ≤ size) (hlist : sparseSide count = .ok bs)
    : ∃ newByte', setSide newByte index count = .ok (newByte', index + bs.length)
        ∧ Written newByte' (index + bs.length) size (bytes ++ bs) := by
  unfold sparseSide at hlist
  obtain ⟨long, hlong, hrest⟩ := bind_eq_ok.1 hlist
  dsimp only at hrest
  obtain ⟨short, hshort, hbs⟩ := bind_eq_ok.1 hrest
  cases hbs
  rw [length_append] at hle
  obtain ⟨newByte₁, heq₁, hwritten₁⟩ := setZerosIf_sim h (by
    intro hge
    unfold hllLongzeroUnit at hge
    omega) (by omega) hlong
  obtain ⟨newByte₂, heq₂, hwritten₂⟩ := setZerosIf_sim hwritten₁ (by
    intro hpos
    exact Nat.pos_iff_ne_zero.1 hpos) (by omega) hshort
  apply Exists.intro newByte₂
  rw [length_append, ← Nat.add_assoc]
  apply And.intro
  . unfold setSide
    rw [heq₁, ok_bind]
    exact heq₂
  . rw [← append_assoc]
    exact hwritten₂

end

theorem length_zeroByteIf_le {c : Prop} [Decidable c] (hlist : zeroByteIf c count = .ok bs)
    : bs.length ≤ 1 := by
  unfold zeroByteIf at hlist
  split at hlist
  . obtain ⟨byte, -, hbs⟩ := bind_eq_ok.1 hlist
    cases hbs
    exact Nat.le_refl 1
  . cases hlist
    exact Nat.zero_le 1

theorem length_sparseSide_le (hlist : sparseSide count = .ok bs) : bs.length ≤ 2 := by
  rw [sparseSide_eq] at hlist
  cases hlist
  rw [length_append]
  split <;> split <;> simp

end Scratch

section Update

variable {o : HllObjectData} {bytes bytes' : Bytes} {byteIndex unitIndex : Nat} {value byte : UInt8}

theorem laterZero_sim (h : Holds o bytes) (hpos : 0 < bytes.length) (right : Nat)
    : laterZero o byteIndex right = reported (Hll.laterZero bytes byteIndex right) := by
  unfold laterZero Hll.laterZero
  rw [← h.length, sub_of_le (by omega), ok_bind]
  split
  . rw [hllGetByte_sim h]
    cases Hll.hllGetByte bytes (byteIndex + 1) with
    | error msg => rfl
    | ok later =>
      dsimp only [reported]
      rw [ok_bind, ok_bind]
      split <;> rfl
  . rfl

theorem hllGetByte_eq (hbyte : bytes[byteIndex]? = some byte)
    : Hll.hllGetByte bytes byteIndex = .ok byte := by
  unfold Hll.hllGetByte
  rw [hbyte]

theorem hllUpdateSparseType1_sim {newByte : Bytes} (hsize : newByte.length = 5) (h : Holds o bytes)
    (hbyte : bytes[byteIndex]? = some byte) (htype : byteType byte = .sparseLongzero) (hvalue : value ≠ 0)
    (hunit : unitIndex < byteGetValue byte * hllLongzeroUnit)
    (hlist : Hll.hllUpdateSparseType1 bytes byteIndex unitIndex value = .ok bytes')
    : ∃ o', hllUpdateSparseType1 newByte o byteIndex unitIndex value = .ok o' ∧ Updated o o' bytes' := by
  unfold Hll.hllUpdateSparseType1 at hlist
  rw [hllGetByte_eq hbyte, ok_bind, if_neg hvalue] at hlist
  dsimp only at hlist
  obtain ⟨left, hleft, hlist⟩ := bind_eq_ok.1 hlist
  obtain ⟨dense, hdense, hlist⟩ := bind_eq_ok.1 hlist
  obtain ⟨later, hlater, hlist⟩ := bind_eq_ok.1 hlist
  obtain ⟨right, hright, hlist⟩ := bind_eq_ok.1 hlist
  have hleftLen := length_sparseSide_le hleft
  have hrightLen := length_sparseSide_le hright
  have hstart : Written newByte 0 5 [] := ⟨ nil_prefix, rfl, hsize⟩
  obtain ⟨newByte₁, hside₁, hwritten₁⟩ := setSide_sim hstart (by omega) hleft
  obtain ⟨newByte₂, hside₂, hwritten₂⟩ := hllSetSparseByte_sim hwritten₁ (by omega) (by omega) hdense
  obtain ⟨newByte₃, hside₃, hwritten₃⟩ := setSide_sim hwritten₂ (by omega) hright
  have hindex := hwritten₃.index_le
  have htake := hwritten₃.take
  have hlength : 0 < bytes.length := by
    obtain ⟨hlt, -⟩ := List.getElem?_eq_some_iff.1 hbyte
    omega
  rw [nil_append] at htake
  rw [← htake] at hlist
  obtain ⟨o', heq, hupdated⟩ := hllUpdateValue_sim h hindex hlist
  apply Exists.intro { o' with ndvEstimator := minusOne }
  apply And.intro
  . unfold hllUpdateSparseType1
    rw [hllGetByte_sim h, hllGetByte_eq hbyte]
    dsimp only [reported]
    rw [ok_bind, assertTrue_of htype, ok_bind, if_neg hvalue, sub_of_le (show unitIndex + 1 ≤ _ from hunit),
      ok_bind, hside₁, ok_bind]
    dsimp only
    rw [hside₂, ok_bind]
    dsimp only
    rw [laterZero_sim h hlength, ← Nat.sub_sub, hlater]
    dsimp only [reported]
    rw [ok_bind, hside₃, ok_bind]
    dsimp only
    rw [heq]
    rfl
  . exact hupdated.withNdv minusOne

theorem hllUpdateSparseType2_sim {newByte : Bytes} (hsize : newByte.length = 3) (h : Holds o bytes)
    (hbyte : bytes[byteIndex]? = some byte) (htype : byteType byte = .sparseZero) (hvalue : value ≠ 0)
    (hunit : unitIndex < byteGetValue byte)
    (hlist : Hll.hllUpdateSparseType2 bytes byteIndex unitIndex value = .ok bytes')
    : ∃ o', hllUpdateSparseType2 newByte o byteIndex unitIndex value = .ok o' ∧ Updated o o' bytes' := by
  unfold Hll.hllUpdateSparseType2 at hlist
  rw [hllGetByte_eq hbyte, ok_bind, if_neg hvalue] at hlist
  dsimp only at hlist
  obtain ⟨left, hleft, hlist⟩ := bind_eq_ok.1 hlist
  obtain ⟨dense, hdense, hlist⟩ := bind_eq_ok.1 hlist
  obtain ⟨right, hright, hlist⟩ := bind_eq_ok.1 hlist
  have hleftLen := length_zeroByteIf_le hleft
  have hrightLen := length_zeroByteIf_le hright
  have hstart : Written newByte 0 3 [] := ⟨ nil_prefix, rfl, hsize⟩
  obtain ⟨newByte₁, hside₁, hwritten₁⟩ := setZerosIf_sim hstart (by omega) (by omega) hleft
  obtain ⟨newByte₂, hside₂, hwritten₂⟩ := hllSetSparseByte_sim hwritten₁ (by omega) (by omega) hdense
  obtain ⟨newByte₃, hside₃, hwritten₃⟩ := setZerosIf_sim hwritten₂ (by omega) (by omega) hright
  have hindex := hwritten₃.index_le
  have htake := hwritten₃.take
  rw [nil_append] at htake
  rw [← htake] at hlist
  obtain ⟨o', heq, hupdated⟩ := hllUpdateValue_sim h hindex hlist
  apply Exists.intro { o' with ndvEstimator := minusOne }
  apply And.intro
  . unfold hllUpdateSparseType2
    rw [hllGetByte_sim h, hllGetByte_eq hbyte]
    dsimp only [reported]
    rw [ok_bind, assertTrue_of htype, ok_bind, if_neg hvalue, sub_of_le (show unitIndex + 1 ≤ _ from hunit),
      ok_bind, hside₁, ok_bind]
    dsimp only
    rw [hside₂, ok_bind]
    dsimp only
    rw [← Nat.sub_sub, hside₃, ok_bind]
    dsimp only
    rw [heq]
    rfl
  . exact hupdated.withNdv minusOne

theorem hllUpdateSparseType3_sim (h : Holds o bytes) (hbyte : bytes[byteIndex]? = some byte)
    (htype : byteType byte = .denseValue) (hunit : unitIndex = 0)
    (hlist : Hll.hllUpdateSparseType3 bytes byteIndex value = .ok bytes')
    : ∃ o', hllUpdateSparseType3 o byteIndex unitIndex value = .ok o' ∧ Updated o o' bytes' := by
  unfold Hll.hllUpdateSparseType3 at hlist
  rw [hllGetByte_eq hbyte, ok_bind] at hlist
  unfold hllUpdateSparseType3
  rw [hllGetByte_sim h, hllGetByte_eq hbyte]
  dsimp only [reported]
  rw [ok_bind, assertTrue_of htype, ok_bind, assertTrue_of hunit, ok_bind]
  split at hlist
  . rename_i hle
    cases hlist
    rw [if_pos hle]
    exact Exists.intro o (And.intro rfl h.updated)
  . rename_i hgt
    obtain ⟨o', heq, hupdated⟩ := hllSetByte_sim h hlist
    apply Exists.intro { o' with ndvEstimator := minusOne }
    apply And.intro
    . rw [if_neg hgt, heq]
      rfl
    . exact hupdated.withNdv minusOne

theorem hllUpdateSparseValue_sim (h : Holds o bytes) (hbyte : bytes[byteIndex]? = some byte)
    (hunit : unitIndex < (decodeByte byte).length)
    (hlist : Hll.hllUpdateSparseValue bytes byteIndex unitIndex value = .ok bytes')
    : ∃ o', hllUpdateSparseValue o byteIndex unitIndex value = .ok o' ∧ Updated o o' bytes' := by
  unfold Hll.hllUpdateSparseValue at hlist
  unfold hllUpdateSparseValue
  split at hlist
  . rename_i hzero
    cases hlist
    rw [if_pos hzero]
    exact Exists.intro o (And.intro rfl h.updated)
  . rename_i hvalue
    rw [hllGetByte_eq hbyte, ok_bind] at hlist
    rw [if_neg hvalue, hllGetByte_sim h, hllGetByte_eq hbyte]
    dsimp only [reported]
    rw [ok_bind]
    unfold decodeByte at hunit
    cases htype : byteType byte with
    | sparseLongzero =>
      rw [htype] at hlist hunit
      apply hllUpdateSparseType1_sim length_replicate h hbyte htype hvalue _ hlist
      simpa [hllLongzeroUnit] using hunit
    | sparseZero =>
      rw [htype] at hlist hunit
      apply hllUpdateSparseType2_sim length_replicate h hbyte htype hvalue _ hlist
      simpa using hunit
    | denseValue =>
      rw [htype] at hlist hunit
      apply hllUpdateSparseType3_sim h hbyte htype _ hlist
      simpa using hunit
    | sparseValue =>
      rw [htype] at hlist
      cases hlist

end Update

section Registers

def HllObjectData.used (o : HllObjectData) : Bytes := o.hllData.take o.lenUsed

def HllObjectData.reg (o : HllObjectData) (i : Nat) : Nat :=
  match o.hlltype with
  | .sparse => (decode o.used).getD i 0
  | .full => (o.used.getD i 0).toNat
  | _ => 0

structure SparseOk (o : HllObjectData) : Prop where
  hlltype : o.hlltype = .sparse
  used_le : o.lenUsed ≤ o.lenTotal
  total : o.hllData.length = o.lenTotal
  allUsed : AllUsed o.used
  covers : (decode o.used).length = 2 ^ o.hllpara.log2Registers

structure FullOk (o : HllObjectData) : Prop where
  hlltype : o.hlltype = .full
  lenUsed : o.lenUsed = 2 ^ o.hllpara.log2Registers
  lenTotal : o.lenTotal = o.lenUsed
  total : o.hllData.length = o.lenTotal

variable {o o' : HllObjectData} {bytes : Bytes}

theorem Holds.used_eq (h : Holds o bytes) : o.used = bytes := by
  unfold HllObjectData.used
  rw [← h.length]
  exact (prefix_iff_eq_take.1 h.start).symm

variable (h : SparseOk o)
include h

theorem SparseOk.holds : Holds o o.used := by
  constructor
  . apply take_prefix
  . unfold HllObjectData.used
    rw [length_take, h.total, Nat.min_eq_left h.used_le]
  . exact h.total

theorem SparseOk.reg_eq (i : Nat) : o.reg i = (decode o.used).getD i 0 := by
  unfold HllObjectData.reg
  rw [h.hlltype]

theorem SparseOk.of_updated (hupdated : Updated o o' bytes) (hused : AllUsed bytes)
    (hcovers : (decode bytes).length = 2 ^ o.hllpara.log2Registers) : SparseOk o' := by
  have heq := hupdated.holds.used_eq
  constructor
  . rw [hupdated.hlltype, h.hlltype]
  . exact hupdated.holds.used_le
  . exact hupdated.holds.total
  . rw [heq]
    exact hused
  . rw [heq, hupdated.hllpara]
    exact hcovers

end Registers

section Lookup

variable {o : HllObjectData}

theorem hllGetRegisterUnit_go_sim {bytes : Bytes} (h : Holds o bytes) (registerIndex : Nat)
    : ∀ left i sum, i + left = bytes.length → sum ≤ registerIndex →
        hllGetRegisterUnit.go o registerIndex left i sum
          =
        reported (Hll.hllGetRegisterUnit.go o.hllpara registerIndex (bytes.drop i) i sum) := by
  intro left
  induction left with
  | zero =>
    intro i sum hlen _
    rw [drop_eq_nil_of_le (by omega), hllGetRegisterUnit.go, Hll.hllGetRegisterUnit.go]
    split <;> rfl
  | succ left ih =>
    intro i sum hlen hsum
    have hlt : i < bytes.length := by omega
    rw [drop_eq_getElem_cons hlt, hllGetRegisterUnit.go, Hll.hllGetRegisterUnit.go, hllGetByte_sim h,
      hllGetByte_eq (getElem?_eq_getElem hlt)]
    dsimp only [reported]
    rw [ok_bind]
    cases currentRegister bytes[i] with
    | error msg => rfl
    | ok current =>
      rw [ok_bind, ok_bind]
      split
      . rw [sub_of_le hsum]
        rfl
      . rename_i hnot
        exact ih (i + 1) (sum + current) (by omega) (by omega)

theorem hllGetRegisterUnit_sim {bytes : Bytes} (h : Holds o bytes) (registerIndex : Nat)
    : hllGetRegisterUnit o registerIndex = reported
      (Hll.hllGetRegisterUnit o.hllpara bytes registerIndex) := by
  unfold hllGetRegisterUnit Hll.hllGetRegisterUnit
  split
  . rfl
  . have hgo := hllGetRegisterUnit_go_sim h registerIndex bytes.length 0 0 (by omega) (by omega)
    rw [drop_zero] at hgo
    rw [← h.length]
    exact hgo

theorem updateRegister_memory (h : SparseOk o)
    (hindex : index < 2 ^ o.hllpara.log2Registers) (hvalue : value ≠ 0) (hle : value.toNat ≤ 64)
    : ∃ byteIndex unitIndex o',
        hllGetRegisterUnit o index = .ok (byteIndex, unitIndex) ∧ byteIndex < o.lenUsed
          ∧ hllUpdateSparseValue o byteIndex unitIndex value = .ok o' ∧ SparseOk o'
          ∧ o'.hllpara = o.hllpara ∧ o'.lenTotal ≤ max o.lenTotal (o'.lenUsed + 255)
          ∧ decode o'.used = (decode o.used).set index (max value.toNat ((decode o.used).getD index 0)) := by
  have hholds := h.holds
  have hcovers := h.covers
  obtain ⟨pre, byte, post, hsplit, hget, hge, hlt⟩ :=
    hllGetRegisterUnit_spec o.hllpara o.used index h.allUsed (by omega)
  obtain ⟨byteIndex, unitIndex, bytes', hget', hupdate, hdecode, hused⟩ :=
    updateRegister_spec o.hllpara o.used index h.allUsed (by omega) hvalue hle
  rw [hget] at hget'
  cases hget'
  have hbyte : o.used[pre.length]? = some byte := by
    rw [hsplit, getElem?_append_right (Nat.le_refl _), Nat.sub_self]
    rfl
  obtain ⟨o', heq, hupdated⟩ := hllUpdateSparseValue_sim hholds hbyte (by omega) hupdate
  have hcovers' : (decode bytes').length = 2 ^ o.hllpara.log2Registers := by
    rw [hdecode, length_set, hcovers]
  apply Exists.intro pre.length
  apply Exists.intro (index - (decode pre).length)
  apply Exists.intro o'
  constructor
  . rw [hllGetRegisterUnit_sim hholds, hget]
    rfl
  . constructor
    . rw [← hholds.length, hsplit]
      simp
    . constructor
      . exact heq
      . constructor
        . exact h.of_updated hupdated hused hcovers'
        . constructor
          . exact hupdated.hllpara
          . constructor
            . rw [← hupdated.holds.length]
              exact hupdated.lenTotal_le
            . rw [hupdated.holds.used_eq, hdecode]

end Lookup

section Full

variable {o : HllObjectData}

theorem sparseToFull_foldlM (bytes : Bytes) (hused : AllUsed bytes)
    : ∀ index newdata full, index + (decode bytes).length ≤ newdata.length →
        Hll.sparseToFull bytes index newdata = .ok full →
        bytes.foldlM (fun s byteValue => sparseToFullByte s.1 s.2 byteValue) (newdata, index)
          =
        .ok (full, index + (decode bytes).length) := by
  induction bytes with
  | nil =>
    intro index newdata full _ hlist
    cases hlist
    rfl
  | cons byte rest ih =>
    intro index newdata full hlen hlist
    obtain ⟨hbyte, hrest⟩ := allUsed_cons.1 hused
    rw [decode_cons, length_append] at hlen ⊢
    rw [Hll.sparseToFull] at hlist
    unfold decodeByte at hlen ⊢
    unfold sparseToFullByte
    rw [foldlM_cons]
    dsimp only
    cases htype : byteType byte with
    | sparseLongzero =>
      rw [htype] at hlist hlen
      dsimp only at hlist hlen ⊢
      rw [length_replicate] at hlen ⊢
      rw [ok_bind, ← Nat.add_assoc]
      apply ih hrest _ _ _ (by unfold hllLongzeroUnit; omega) hlist
    | sparseZero =>
      rw [htype] at hlist hlen
      dsimp only at hlist hlen ⊢
      rw [length_replicate] at hlen ⊢
      rw [ok_bind, ← Nat.add_assoc]
      apply ih hrest _ _ _ (by omega) hlist
    | denseValue =>
      rw [htype] at hlist hlen
      dsimp only at hlist hlen ⊢
      rw [length_singleton] at hlen ⊢
      rw [write_singleton _ (by omega), inBuffer_some, ok_bind, ← Nat.add_assoc]
      apply ih hrest _ _ _ (by rw [length_set]; omega) hlist
    | sparseValue => exact absurd htype hbyte

theorem hllTransformFull_sparse_memory (h : SparseOk o)
    : ∃ full, hllTransformFull o = .ok (becomeFull o full) ∧ full.length = 2 ^ o.hllpara.log2Registers
        ∧ ∀ i, (full.getD i 0).toNat = (decode o.used).getD i 0 := by
  have hzero : ∀ i, (List.replicate (2 ^ o.hllpara.log2Registers) (0 : UInt8)).getD i 0 = 0 := by
    intro i
    rw [getD_eq_getElem?_getD, getElem?_replicate]
    split <;> rfl
  have hcovers := h.covers
  have hholds := h.holds
  obtain ⟨full, hfull, hlength, hbytes⟩ := sparseToFull_spec o.used h.allUsed 0
    (List.replicate (2 ^ o.hllpara.log2Registers) 0) (by rw [length_replicate]; omega)
    (by
      intro i _
      exact hzero i)
  have hloop : sparseToFull o (List.replicate (2 ^ o.hllpara.log2Registers) 0)
      = .ok (full, 2 ^ o.hllpara.log2Registers) := by
    have hrange := foldlM_range_eq o.used (hllGetByte o)
      (fun s byteValue => sparseToFullByte s.1 s.2 byteValue) (by
      intro i hi
      rw [hllGetByte_sim hholds, hllGetByte_eq (getElem?_eq_getElem hi)]
      rfl) (List.replicate (2 ^ o.hllpara.log2Registers) 0, 0) o.lenUsed (by rw [hholds.length])
    unfold sparseToFull
    rw [hrange, ← hholds.length, take_length, sparseToFull_foldlM o.used h.allUsed _ _ _
      (by rw [length_replicate]; omega) hfull, Nat.zero_add, hcovers]
  apply Exists.intro full
  constructor
  . unfold hllTransformFull
    rw [h.hlltype]
    dsimp only
    rw [hloop, ok_bind]
    dsimp only
    rw [assertTrue_of rfl]
    rfl
  . constructor
    . rw [hlength, length_replicate]
    . intro i
      rw [hbytes, if_neg (by omega), Nat.sub_zero]

theorem fullOk_becomeFull {full : Bytes} (hlen : full.length = 2 ^ o.hllpara.log2Registers)
    : FullOk (becomeFull o full) := by
  constructor
  . rfl
  . rfl
  . rfl
  . exact hlen

theorem reg_becomeFull {full : Bytes} (hlen : full.length = 2 ^ o.hllpara.log2Registers) (i : Nat)
    : (becomeFull o full).reg i = (full.getD i 0).toNat := by
  have hused : (becomeFull o full).used = full := by
    unfold HllObjectData.used becomeFull
    dsimp only
    rw [← hlen, take_length]
  unfold HllObjectData.reg
  rw [hused]
  rfl

end Full

section Add

variable {o : HllObjectData}

structure RegisterSet (o o' : HllObjectData) (index value : Nat) : Prop where
  hllpara : o'.hllpara = o.hllpara
  mode : SparseOk o' ∧ o'.lenTotal ≤ max o.lenTotal (o'.lenUsed + 255) ∨ FullOk o'
  reg : ∀ i, o'.reg i = if i = index then max value (o.reg i) else o.reg i

theorem hllSetSparseValue_memory (h : SparseOk o) (hp : o.hllpara.InRange) (hashval : UInt64)
    : ∃ o', hllSetSparseValue o hashval = .ok o'
        ∧ RegisterSet o o' (hashIndex o.hllpara hashval) (hashValue o.hllpara hashval) := by
  have hindex := hashIndex_lt hp hashval
  have hle := hashValue_le hp hashval
  have hpair : hllHashToValue o.hllpara hashval
      = (hashIndex o.hllpara hashval, (hllHashToValue o.hllpara hashval).2) := rfl
  unfold hllSetSparseValue
  rw [assertTrue_of h.hlltype, ok_bind, hpair]
  dsimp only
  split
  . rename_i hzero
    have hvalue : hashValue o.hllpara hashval = 0 := by
      unfold hashValue
      rw [hzero]
      rfl
    apply Exists.intro o
    constructor
    . rfl
    . constructor
      . rfl
      . exact Or.inl (And.intro h (by omega))
      . intro i
        rw [hvalue, Nat.zero_max, ite_self]
  . rename_i hvalue
    obtain ⟨byteIndex, unitIndex, o', hget, -, hupdate, hok, hpara, htotal, hdecode⟩ :=
      updateRegister_memory h hindex hvalue (Nat.le_trans hle (by decide))
    have hreg : ∀ i, (decode o'.used).getD i 0
        = if i = hashIndex o.hllpara hashval then max (hashValue o.hllpara hashval) (o.reg i)
          else o.reg i := by
      intro i
      rw [hdecode, getD_set _ _ _ _ _ (by rw [h.covers]; exact hindex), h.reg_eq]
      by_cases heq : i = hashIndex o.hllpara hashval
      . rw [if_pos heq, if_pos heq.symm, heq]
        rfl
      . rw [if_neg heq, if_neg (Ne.symm heq)]
    rw [hget, ok_bind]
    dsimp only
    rw [hupdate, ok_bind]
    split
    . obtain ⟨full, hfull, hlen, hbytes⟩ := hllTransformFull_sparse_memory hok
      apply Exists.intro (becomeFull o' full)
      constructor
      . exact hfull
      . constructor
        . exact hpara
        . exact Or.inr (fullOk_becomeFull hlen)
        . intro i
          rw [reg_becomeFull hlen, hbytes, hreg]
    . apply Exists.intro o'
      constructor
      . rfl
      . constructor
        . exact hpara
        . exact Or.inl (And.intro hok htotal)
        . intro i
          rw [hok.reg_eq, hreg]

end Add

end Hll.Memory

import OpenGauss.Hll.Impl

/-!
This module contains the meaning of the bytes of sparse mode and the operations on them.
-/

open List

namespace Hll

variable (count : Nat) (pre : List UInt8) (byte : UInt8) (post : List UInt8) (n : Nat) (p : HllPara)

section Decode

def decodeByte (byte : UInt8) : List Nat :=
  match byteType byte with
  | .sparseLongzero => List.replicate (byteGetValue byte * 64) 0
  | .sparseZero => List.replicate (byteGetValue byte) 0
  | .denseValue => [byteGetValue byte]
  | .sparseValue => []

def decode (bytes : List UInt8) : List Nat := bytes.flatMap decodeByte

def Used (byte : UInt8) : Prop := byteType byte ≠ .sparseValue

def AllUsed (bytes : List UInt8) : Prop := ∀ byte ∈ bytes, Used byte

@[simp]
theorem decode_nil : decode [] = [] := rfl

@[simp]
theorem decode_cons (bytes : List UInt8) : decode (byte :: bytes) = decodeByte byte ++ decode bytes := rfl

@[simp]
theorem decode_append (xs ys : List UInt8) : decode (xs ++ ys) = decode xs ++ decode ys := by
  simp [decode]

theorem allUsed_append {xs ys : List UInt8} : AllUsed (xs ++ ys) ↔ AllUsed xs ∧ AllUsed ys := by
  simp only [AllUsed, mem_append]
  constructor
  . intro h
    exact ⟨fun byte hb => h byte (Or.inl hb), fun byte hb => h byte (Or.inr hb)⟩
  . rintro ⟨hx, hy⟩ byte (hb | hb)
    . exact hx byte hb
    . exact hy byte hb

theorem allUsed_cons {byte : UInt8} {bytes : List UInt8}
    : AllUsed (byte :: bytes) ↔ Used byte ∧ AllUsed bytes := by
  simp [AllUsed]

theorem allUsed_nil : AllUsed [] := by
  intro byte hb
  cases hb

end Decode

section Byte

theorem byteOf_longzero : ∀ n, n < 64 →
    byteType (UInt8.ofNat (n ||| (0 <<< 6))) = .sparseLongzero
      ∧ byteGetValue (UInt8.ofNat (n ||| (0 <<< 6))) = n + 1 := by decide

theorem byteOf_zero : ∀ n, n < 64 →
    byteType (UInt8.ofNat (n ||| (1 <<< 6))) = .sparseZero
      ∧ byteGetValue (UInt8.ofNat (n ||| (1 <<< 6))) = n + 1 := by decide

theorem byteOf_dense : ∀ n, n < 64 →
    byteType (UInt8.ofNat (n ||| (2 <<< 6))) = .denseValue
      ∧ byteGetValue (UInt8.ofNat (n ||| (2 <<< 6))) = n + 1
      ∧ (UInt8.ofNat (n ||| (2 <<< 6))).toNat = n + 128 := by decide

theorem setLongzeroValue_spec (hge : 64 ≤ count) (hle : count < 4160)
    : byteType (setLongzeroValue count) = .sparseLongzero
        ∧ byteGetValue (setLongzeroValue count) = count / 64 := by
  have hspec := byteOf_longzero (count / 64 - 1) (by omega)
  rw [Nat.sub_add_cancel (by omega)] at hspec
  rw [setLongzeroValue, Nat.shiftRight_eq_div_pow]
  exact hspec

theorem setZeroValue_spec (hpos : 0 < count) (hle : count ≤ 64)
    : byteType (setZeroValue count) = .sparseZero ∧ byteGetValue (setZeroValue count) = count := by
  have hspec := byteOf_zero (count - 1) (by omega)
  rw [Nat.sub_add_cancel hpos] at hspec
  exact hspec

theorem setDenseValue_spec (value : Nat) (hpos : 0 < value) (hle : value ≤ 64)
    : byteType (setDenseValue value) = .denseValue ∧ byteGetValue (setDenseValue value) = value
        ∧ (setDenseValue value).toNat = value + 127 := by
  have hspec := byteOf_dense (value - 1) (by omega)
  rw [Nat.sub_add_cancel hpos] at hspec
  exact ⟨hspec.1, hspec.2.1, by rw [setDenseValue, hspec.2.2]; omega⟩

theorem byteGetValue_pos : 0 < byteGetValue byte := Nat.succ_pos _

theorem byteGetValue_le : byteGetValue byte ≤ 64 := by
  have hand : (byte &&& 0x3F).toNat ≤ 63 := by
    rw [UInt8.toNat_and]
    exact Nat.and_le_right
  simp only [byteGetValue]
  omega

theorem decode_longzero (hge : 64 ≤ count) (hle : count < 4160)
    : decodeByte (setLongzeroValue count) = List.replicate (count / 64 * 64) 0
        ∧ Used (setLongzeroValue count) := by
  obtain ⟨htype, hvalue⟩ := setLongzeroValue_spec count hge hle
  simp only [decodeByte, Used, htype, hvalue]
  exact ⟨trivial, by decide⟩

theorem decode_zero (hpos : 0 < count) (hle : count ≤ 64)
    : decodeByte (setZeroValue count) = List.replicate count 0 ∧ Used (setZeroValue count) := by
  obtain ⟨htype, hvalue⟩ := setZeroValue_spec count hpos hle
  simp only [decodeByte, Used, htype, hvalue]
  exact ⟨trivial, by decide⟩

theorem decode_dense (value : Nat) (hpos : 0 < value) (hle : value ≤ 64)
    : decodeByte (setDenseValue value) = [value] ∧ Used (setDenseValue value) := by
  obtain ⟨htype, hvalue, _⟩ := setDenseValue_spec value hpos hle
  simp only [decodeByte, Used, htype, hvalue]
  exact ⟨trivial, by decide⟩

theorem decode_longzeroFull : decode (List.replicate n hllLongzeroFull) = List.replicate (n * 4096) 0
      ∧ AllUsed (List.replicate n hllLongzeroFull) := by
  have hbyte : decodeByte hllLongzeroFull = List.replicate 4096 0 := rfl
  constructor
  . induction n with
    | zero => simp
    | succ n ih =>
      rw [replicate_succ, decode_cons, ih, hbyte, replicate_append_replicate, Nat.succ_mul, Nat.add_comm]
  . intro byte hb
    rw [eq_of_mem_replicate hb, Used]
    decide

end Byte

section Zeros

theorem hllSetSparseByte_zero : hllSetSparseByte count 0
      =
    .ok (if count ≥ hllLongzeroUnit then setLongzeroValue count else setZeroValue count) := by
  simp only [hllSetSparseByte, if_true]
  split <;> rfl

theorem hllSetSparseByte_value (value : UInt8) (h : value ≠ 0)
    : hllSetSparseByte 1 value = .ok (setDenseValue value.toNat) := by
  simp [hllSetSparseByte, h]

theorem and_3f : n &&& 0x3f = n % 64 := Nat.and_two_pow_sub_one_eq_mod n 6

theorem and_fff : n &&& 0xfff = n % 4096 := Nat.and_two_pow_sub_one_eq_mod n 12

theorem decode_shortZeros (hle : count < 64)
    : decode (if count > 0 then [setZeroValue count] else []) = List.replicate count 0
        ∧ AllUsed (if count > 0 then [setZeroValue count] else []) := by
  by_cases hpos : count > 0
  . obtain ⟨hdecode, hused⟩ := decode_zero count hpos (by omega)
    simp only [hpos, if_true, decode_cons, decode_nil, append_nil]
    exact ⟨hdecode, allUsed_cons.2 ⟨hused, allUsed_nil⟩⟩
  . have hzero : count = 0 := by omega
    simp only [hzero, gt_iff_lt, Nat.lt_irrefl, if_false, decode_nil, replicate_zero]
    exact ⟨trivial, allUsed_nil⟩

theorem decode_longAndShort (hle : count < 4160)
    : decode ((if count ≥ hllLongzeroUnit then [setLongzeroValue count] else [])
          ++ (if count % 64 > 0 then [setZeroValue (count % 64)] else [])) = List.replicate count 0
        ∧ AllUsed ((if count ≥ hllLongzeroUnit then [setLongzeroValue count] else [])
          ++ (if count % 64 > 0 then [setZeroValue (count % 64)] else [])) := by
  obtain ⟨hshort, hshortUsed⟩ := decode_shortZeros (count % 64) (by omega)
  rw [decode_append, allUsed_append, hshort]
  by_cases hlong : count ≥ hllLongzeroUnit
  . obtain ⟨hdecode, hused⟩ := decode_longzero count hlong hle
    rw [if_pos hlong, decode_cons, hdecode, decode_nil, append_nil,
      replicate_append_replicate, Nat.div_add_mod']
    exact ⟨rfl, allUsed_cons.2 ⟨hused, allUsed_nil⟩, hshortUsed⟩
  . simp only [hllLongzeroUnit] at hlong
    rw [if_neg (by simp only [hllLongzeroUnit]; omega), decode_nil, nil_append, Nat.mod_eq_of_lt (by omega)]
    rw [Nat.mod_eq_of_lt (by omega)] at hshortUsed
    exact ⟨rfl, allUsed_nil, hshortUsed⟩

theorem zeroByteIf_long (c : Prop) [Decidable c] (count : Nat) (h : c → count ≥ hllLongzeroUnit)
    : zeroByteIf c count = .ok (if c then [setLongzeroValue count] else []) := by
  by_cases hc : c
  . simp only [zeroByteIf, hc, if_true, hllSetSparseByte_zero, h hc]
    rfl
  . simp [zeroByteIf, hc]

theorem zeroByteIf_short (c : Prop) [Decidable c] (count : Nat) (h : count < 64)
    : zeroByteIf c count = .ok (if c then [setZeroValue count] else []) := by
  have hnot : ¬ count ≥ hllLongzeroUnit := Nat.not_le.2 h
  by_cases hc : c
  . simp only [zeroByteIf, hc, if_true, hllSetSparseByte_zero, hnot, if_false]
    rfl
  . simp [zeroByteIf, hc]

theorem sparseSide_eq : sparseSide count
      =
    .ok ((if count ≥ hllLongzeroUnit then [setLongzeroValue count] else [])
      ++ (if count % 64 > 0 then [setZeroValue (count % 64)] else [])) := by
  have hmod : (if count ≥ hllLongzeroUnit then count % 64 else count) = count % 64 := by
    by_cases hlong : count ≥ hllLongzeroUnit
    . rw [if_pos hlong]
    . rw [if_neg hlong]
      simp only [hllLongzeroUnit] at hlong
      omega
  simp only [sparseSide, and_3f, hmod]
  rw [zeroByteIf_long (count ≥ hllLongzeroUnit) count id,
    zeroByteIf_short (count % 64 > 0) (count % 64) (by omega)]
  rfl

theorem sparseSide_spec (hle : count < 4160)
    : ∃ bytes, sparseSide count = .ok bytes ∧ decode bytes = List.replicate count 0
        ∧ AllUsed bytes := by
  exact ⟨_, sparseSide_eq count, decode_longAndShort count hle⟩

theorem sparseSide_ne_nil (bytes : List UInt8) (h : sparseSide count = .ok bytes)
    (hpos : 0 < count) (hle : count < 4160) : bytes ≠ [] := by
  obtain ⟨bytes', hside, hdecode, _⟩ := sparseSide_spec count hle
  rw [h] at hside
  cases hside
  intro hnil
  rw [hnil, decode_nil] at hdecode
  have hlen := congrArg List.length hdecode
  simp only [length_nil, length_replicate] at hlen
  omega

theorem hllSetSparseZero_spec (zerocount : Nat)
    : decode (hllSetSparseZero zerocount) = List.replicate zerocount 0
        ∧ AllUsed (hllSetSparseZero zerocount) := by
  by_cases hlong : zerocount ≥ hllLongzeroUnit
  . obtain ⟨hfull, hfullUsed⟩ := decode_longzeroFull (zerocount / 4096)
    obtain ⟨hrest, hrestUsed⟩ := decode_longAndShort (zerocount % 4096) (by omega)
    have hmod : (if zerocount % 4096 ≥ hllLongzeroUnit then zerocount % 4096 % 64
        else zerocount % 4096) = zerocount % 4096 % 64 := by
      by_cases hge : zerocount % 4096 ≥ hllLongzeroUnit
      . rw [if_pos hge]
      . rw [if_neg hge]
        simp only [hllLongzeroUnit] at hge
        omega
    have heq : hllSetSparseZero zerocount
        = List.replicate (zerocount / 4096) hllLongzeroFull
          ++ ((if zerocount % 4096 ≥ hllLongzeroUnit then [setLongzeroValue (zerocount % 4096)]
              else [])
            ++ (if zerocount % 4096 % 64 > 0 then [setZeroValue (zerocount % 4096 % 64)]
              else [])) := by
      simp only [hllSetSparseZero, hlong, if_true, and_3f, and_fff, Nat.shiftRight_eq_div_pow, hmod,
        append_assoc, Nat.reducePow]
    rw [heq, decode_append, allUsed_append, hfull, hrest, replicate_append_replicate, Nat.div_add_mod']
    exact ⟨rfl, hfullUsed, hrestUsed⟩
  . have hlt : zerocount < 64 := Nat.lt_of_not_le hlong
    simp only [hllSetSparseZero, hlong, if_false]
    exact decode_shortZeros zerocount hlt

end Zeros

section Update

theorem currentRegister_eq (h : Used byte) : currentRegister byte = .ok (decodeByte byte).length := by
  simp only [Used] at h
  simp only [currentRegister, decodeByte, Nat.shiftLeft_eq]
  cases htype : byteType byte with
  | sparseLongzero => simp
  | sparseZero => simp
  | denseValue => simp
  | sparseValue => exact absurd htype h

theorem length_decodeByte_pos (h : Used byte) : 0 < (decodeByte byte).length := by
  have hpos := byteGetValue_pos byte
  simp only [Used] at h
  simp only [decodeByte]
  cases htype : byteType byte with
  | sparseLongzero =>
    simp only [length_replicate]
    omega
  | sparseZero => simpa using hpos
  | denseValue => simp
  | sparseValue => exact absurd htype h

theorem hllGetRegisterUnit_go_spec (registerIndex : Nat) (bytes : List UInt8) (hused : AllUsed bytes)
    : ∀ i sum, sum ≤ registerIndex → registerIndex < sum + (decode bytes).length →
        ∃ pre byte post, bytes = pre ++ byte :: post
          ∧ hllGetRegisterUnit.go p registerIndex bytes i sum
            = .ok (i + pre.length, registerIndex - (sum + (decode pre).length))
          ∧ sum + (decode pre).length ≤ registerIndex
          ∧ registerIndex < sum + (decode pre).length + (decodeByte byte).length := by
  induction bytes with
  | nil =>
    intro i sum hle hlt
    simp only [decode_nil, length_nil] at hlt
    omega
  | cons byte rest ih =>
    intro i sum hle hlt
    obtain ⟨hbyte, hrest⟩ := allUsed_cons.1 hused
    rw [hllGetRegisterUnit.go, currentRegister_eq byte hbyte]
    by_cases hhere : sum + (decodeByte byte).length > registerIndex
    . refine ⟨[], byte, rest, rfl, ?_, hle, hhere⟩
      simp only [bind, Except.bind, hhere, if_true, length_nil, Nat.add_zero, decode_nil]
    . rw [decode_cons, length_append] at hlt
      obtain ⟨pre, byte', post, heq, hgo, hle', hlt'⟩ :=
        ih hrest (i + 1) (sum + (decodeByte byte).length) (by omega) (by omega)
      refine ⟨byte :: pre, byte', post, by rw [heq]; rfl, ?_, ?_, ?_⟩
      . simp only [bind, Except.bind, hhere, if_false, hgo, length_cons, decode_cons,
          length_append, Nat.add_assoc, Nat.add_comm 1]
      . rw [decode_cons, length_append]
        omega
      . rw [decode_cons, length_append]
        omega

theorem hllGetRegisterUnit_spec (bytes : List UInt8) (registerIndex : Nat)
    (hused : AllUsed bytes) (hlt : registerIndex < (decode bytes).length)
    : ∃ pre byte post, bytes = pre ++ byte :: post
        ∧ hllGetRegisterUnit p bytes registerIndex
          = .ok (pre.length, registerIndex - (decode pre).length)
        ∧ (decode pre).length ≤ registerIndex
        ∧ registerIndex < (decode pre).length + (decodeByte byte).length := by
  by_cases hzero : registerIndex = 0
  . subst hzero
    match bytes, hused, hlt with
    | [], _, hlt => simp at hlt
    | byte :: rest, hused, _ =>
      have hpos := length_decodeByte_pos byte (allUsed_cons.1 hused).1
      refine ⟨[], byte, rest, rfl, ?_, ?_, ?_⟩
      . simp [hllGetRegisterUnit]
      . simp
      . simpa using hpos
  . obtain ⟨pre, byte, post, heq, hgo, hle, hlt'⟩ :=
      hllGetRegisterUnit_go_spec p registerIndex bytes hused 0 0 (Nat.zero_le _) (by omega)
    rw [Nat.zero_add] at hle hlt'
    refine ⟨pre, byte, post, heq, ?_, hle, hlt'⟩
    rw [hllGetRegisterUnit, if_neg hzero, hgo, Nat.zero_add, Nat.zero_add]

theorem hllGetByte_append : hllGetByte (pre ++ byte :: post) pre.length = .ok byte := by
  simp [hllGetByte]

theorem hllUpdateValue_append {α : Type} (unit : Nat) (pre mid post new : List α)
    (hlen : mid.length ≤ new.length)
    : hllUpdateValue unit (pre ++ mid ++ post) pre.length new mid.length = .ok (pre ++ new ++ post) := by
  have hrange : ¬ ((mid.length = 0 ∧ pre.length > (pre ++ mid ++ post).length)
      ∨ (mid.length > 0 ∧ pre.length + mid.length > (pre ++ mid ++ post).length)) := by
    simp only [length_append]
    omega
  have htake : (pre ++ mid ++ post).take pre.length = pre := by
    rw [append_assoc, take_left]
  have hdrop : (pre ++ mid ++ post).drop (pre.length + mid.length) = post := by
    rw [← length_append, drop_left]
  rw [hllUpdateValue, if_neg hrange, if_neg (by omega), htake, hdrop]

def splitRun (count unitIndex value : Nat) : List Nat :=
  List.replicate unitIndex 0 ++ [value] ++ List.replicate (count - unitIndex - 1) 0

theorem set_replicate_zero (unitIndex value : Nat) (h : unitIndex < count)
    : (List.replicate count 0).set unitIndex value = splitRun count unitIndex value := by
  have hcount : count = unitIndex + (count - unitIndex - 1 + 1) := by omega
  have hrep : List.replicate count 0
      = List.replicate unitIndex 0 ++ 0 :: List.replicate (count - unitIndex - 1) 0 := by
    rw [← replicate_succ, replicate_append_replicate, ← hcount]
  rw [hrep, splitRun, set_append_right _ _ (by simp)]
  simp

theorem getD_replicate_zero (i : Nat) : (List.replicate n 0).getD i 0 = 0 := by
  rw [getD_eq_getElem?_getD, getElem?_replicate]
  split <;> rfl

variable {value : UInt8}

theorem toNat_pos (hvalue : value ≠ 0) : 0 < value.toNat := by
  rw [Nat.pos_iff_ne_zero]
  intro hzero
  exact hvalue (UInt8.toNat_inj.1 hzero)

theorem hllUpdateSparseType2_spec (byte : UInt8) (unitIndex : Nat)
    (hvalue : value ≠ 0) (hle : value.toNat ≤ 64) (hunit : unitIndex < byteGetValue byte)
    : ∃ new, hllUpdateSparseType2 (pre ++ byte :: post) pre.length unitIndex value
          = .ok (pre ++ new ++ post)
        ∧ decode new = splitRun (byteGetValue byte) unitIndex value.toNat ∧ AllUsed new := by
  have hpos := toNat_pos hvalue
  have hbyte := byteGetValue_le byte
  obtain ⟨hleft, hleftUsed⟩ := decode_shortZeros unitIndex (by omega)
  obtain ⟨hright, hrightUsed⟩ := decode_shortZeros (byteGetValue byte - unitIndex - 1) (by omega)
  obtain ⟨hdense, hdenseUsed⟩ := decode_dense value.toNat hpos hle
  refine ⟨(if unitIndex > 0 then [setZeroValue unitIndex] else []) ++ [setDenseValue value.toNat]
    ++ (if byteGetValue byte - unitIndex - 1 > 0 then
        [setZeroValue (byteGetValue byte - unitIndex - 1)] else []), ?_, ?_, ?_⟩
  . simp only [hllUpdateSparseType2, hllGetByte_append, hvalue, if_false, hllSetSparseByte_value value hvalue,
      zeroByteIf_short (unitIndex > 0) unitIndex (by omega),
      zeroByteIf_short (byteGetValue byte - unitIndex - 1 > 0) (byteGetValue byte - unitIndex - 1)
        (by omega), bind, Except.bind]
    have hupdate := hllUpdateValue_append 1 pre [byte] post
      ((if unitIndex > 0 then [setZeroValue unitIndex] else []) ++ [setDenseValue value.toNat]
        ++ (if byteGetValue byte - unitIndex - 1 > 0 then
            [setZeroValue (byteGetValue byte - unitIndex - 1)] else [])) (by
        simp only [length_append, length_cons, length_nil]
        omega)
    rw [append_assoc, singleton_append] at hupdate
    exact hupdate
  . rw [decode_append, decode_append, hleft, hright, decode_cons, hdense, decode_nil, splitRun, append_nil]
  . rw [allUsed_append, allUsed_append, allUsed_cons]
    exact ⟨⟨hleftUsed, hdenseUsed, allUsed_nil⟩, hrightUsed⟩

theorem laterZero_spec (byte : UInt8) (right : Nat) : ∃ mid post' count, post = mid ++ post'
      ∧ laterZero (pre ++ byte :: post) pre.length right = .ok (mid.length + 1, right + count)
      ∧ decode mid = List.replicate count 0 ∧ count ≤ 64 ∧ mid.length ≤ count ∧ mid.length ≤ 1 := by
  match post with
  | [] =>
    refine ⟨[], [], 0, rfl, ?_, rfl, Nat.zero_le _, Nat.le_refl 0, Nat.zero_le _⟩
    simp [laterZero]
  | later :: post' =>
    have hget : hllGetByte (pre ++ byte :: later :: post') (pre.length + 1) = .ok later := by
      simp [hllGetByte]
    have hlt : pre.length < (pre ++ byte :: later :: post').length - 1 := by
      simp only [length_append, length_cons]
      omega
    by_cases htype : byteType later = .sparseZero
    . refine ⟨[later], post', byteGetValue later, rfl, ?_, ?_, byteGetValue_le later,
        byteGetValue_pos later, Nat.le_refl 1⟩
      . simp only [laterZero, hlt, if_true, hget, bind, Except.bind, htype, pure, Except.pure,
          length_cons, length_nil]
      . simp [decodeByte, htype]
    . refine ⟨[], later :: post', 0, rfl, ?_, rfl, Nat.zero_le _, Nat.le_refl 0, Nat.zero_le _⟩
      simp only [laterZero, hlt, if_true, hget, bind, Except.bind, htype, if_false, pure, Except.pure,
        length_nil, Nat.add_zero]

theorem hllUpdateSparseType1_spec (byte : UInt8) (unitIndex : Nat)
    (hused : AllUsed post) (hvalue : value ≠ 0) (hle : value.toNat ≤ 64)
    (hunit : unitIndex < byteGetValue byte * 64)
    : ∃ new, hllUpdateSparseType1 (pre ++ byte :: post) pre.length unitIndex value
          = .ok (pre ++ new)
        ∧ decode new = splitRun (byteGetValue byte * 64) unitIndex value.toNat ++ decode post
        ∧ AllUsed new := by
  have hpos := toNat_pos hvalue
  have hbyte := byteGetValue_le byte
  obtain ⟨mid, post', count, hpost, hlater, hmid, hcount, hmidLen, hmidOne⟩ :=
    laterZero_spec pre post byte (byteGetValue byte * 64 - unitIndex - 1)
  rw [hpost, allUsed_append] at hused
  obtain ⟨left, hleft, hleftDecode, hleftUsed⟩ := sparseSide_spec unitIndex (by omega)
  obtain ⟨right, hright, hrightDecode, hrightUsed⟩ :=
    sparseSide_spec (byteGetValue byte * 64 - unitIndex - 1 + count) (by omega)
  obtain ⟨hdense, hdenseUsed⟩ := decode_dense value.toNat hpos hle
  -- A replaced neighbour leaves zeros on the right, so no byte is lost.
  have hlen : ([byte] ++ mid).length ≤ (left ++ [setDenseValue value.toNat] ++ right).length := by
    simp only [length_append, length_cons, length_nil]
    by_cases hnone : mid.length = 0
    . omega
    . have hrightPos := length_pos_iff.2 (sparseSide_ne_nil _ right hright (by omega) (by omega))
      omega
  have hupdate := hllUpdateValue_append 1 pre ([byte] ++ mid) post'
    (left ++ [setDenseValue value.toNat] ++ right) hlen
  have hbytes : pre ++ ([byte] ++ mid) ++ post' = pre ++ byte :: post := by
    rw [hpost]
    simp
  have hmidLength : ([byte] ++ mid).length = mid.length + 1 := by simp
  rw [hbytes, hmidLength] at hupdate
  refine ⟨left ++ [setDenseValue value.toNat] ++ right ++ post', ?_, ?_, ?_⟩
  . simp only [hllUpdateSparseType1, hllGetByte_append, hvalue, if_false, hleft,
      hllSetSparseByte_value value hvalue, hllLongzeroUnit, hlater, hright, bind, Except.bind]
    rw [hupdate, append_assoc]
  . rw [decode_append, decode_append, decode_append, hleftDecode, hrightDecode, decode_cons, hdense,
      decode_nil, hpost, decode_append, hmid, splitRun, ← replicate_append_replicate]
    simp only [append_assoc, append_nil]
  . rw [allUsed_append, allUsed_append, allUsed_append, allUsed_cons]
    exact ⟨⟨⟨hleftUsed, hdenseUsed, allUsed_nil⟩, hrightUsed⟩, hused.2⟩

theorem hllUpdateSparseValue_spec (byte : UInt8) (unitIndex : Nat)
    (hused : AllUsed (pre ++ byte :: post)) (hvalue : value ≠ 0) (hle : value.toNat ≤ 64)
    (hunit : unitIndex < (decodeByte byte).length)
    : ∃ bytes, hllUpdateSparseValue (pre ++ byte :: post) pre.length unitIndex value = .ok bytes
      ∧ decode bytes
        = decode pre ++ (decodeByte byte).set unitIndex (max value.toNat ((decodeByte byte).getD unitIndex 0))
          ++ decode post
      ∧ AllUsed bytes := by
  obtain ⟨hpre, hcons⟩ := allUsed_append.1 hused
  obtain ⟨hbyte, hpost⟩ := allUsed_cons.1 hcons
  simp only [hllUpdateSparseValue, hvalue, if_false, hllGetByte_append, bind, Except.bind]
  cases htype : byteType byte with
  | sparseLongzero =>
    have hrun : decodeByte byte = List.replicate (byteGetValue byte * 64) 0 := by
      simp only [decodeByte, htype]
    rw [hrun, length_replicate] at hunit
    obtain ⟨new, hnew, hdecode, hnewUsed⟩ :=
      hllUpdateSparseType1_spec pre post byte unitIndex hpost hvalue hle hunit
    refine ⟨pre ++ new, hnew, ?_, allUsed_append.2 ⟨hpre, hnewUsed⟩⟩
    rw [hrun, getD_replicate_zero, Nat.max_zero, set_replicate_zero _ _ _ hunit, decode_append,
      hdecode, append_assoc]
  | sparseZero =>
    have hrun : decodeByte byte = List.replicate (byteGetValue byte) 0 := by
      simp only [decodeByte, htype]
    rw [hrun, length_replicate] at hunit
    obtain ⟨new, hnew, hdecode, hnewUsed⟩ :=
      hllUpdateSparseType2_spec pre post byte unitIndex hvalue hle hunit
    refine ⟨pre ++ new ++ post, hnew, ?_, allUsed_append.2 ⟨allUsed_append.2 ⟨hpre, hnewUsed⟩, hpost⟩⟩
    rw [hrun, getD_replicate_zero, Nat.max_zero, set_replicate_zero _ _ _ hunit, decode_append,
      decode_append, hdecode]
  | denseValue =>
    have hrun : decodeByte byte = [byteGetValue byte] := by
      simp only [decodeByte, htype]
    have hzero : unitIndex = 0 := by
      rw [hrun] at hunit
      simpa using hunit
    subst hzero
    simp only [hllUpdateSparseType3, hllGetByte_append, bind, Except.bind]
    by_cases hsmall : value.toNat ≤ byteGetValue byte
    . refine ⟨pre ++ byte :: post, by rw [if_pos hsmall], ?_, hused⟩
      rw [decode_append, decode_cons, hrun]
      simp only [getD_cons_zero, Nat.max_eq_right hsmall, set_cons_zero,
        append_assoc, cons_append, nil_append]
    . obtain ⟨hdense, hdenseUsed⟩ := decode_dense value.toNat (toNat_pos hvalue) hle
      have hindex : ¬ pre.length ≥ (pre ++ byte :: post).length := by
        simp only [length_append, length_cons]
        omega
      refine ⟨pre ++ setDenseValue value.toNat :: post, ?_, ?_, ?_⟩
      . rw [if_neg hsmall, hllSetByte, if_neg hindex, set_append_right _ _ (Nat.le_refl _),
          Nat.sub_self, set_cons_zero]
      . rw [decode_append, decode_cons, hrun, hdense]
        simp only [getD_cons_zero, Nat.max_eq_left (Nat.le_of_not_le hsmall),
          set_cons_zero, append_assoc, cons_append, nil_append]
      . exact allUsed_append.2 ⟨hpre, allUsed_cons.2 ⟨hdenseUsed, hpost⟩⟩
  | sparseValue => exact absurd htype hbyte

theorem updateRegister_spec (bytes : List UInt8) (index : Nat) (hused : AllUsed bytes)
    (hindex : index < (decode bytes).length) (hvalue : value ≠ 0) (hle : value.toNat ≤ 64)
    : ∃ byteIndex unitIndex bytes', hllGetRegisterUnit p bytes index = .ok (byteIndex, unitIndex)
        ∧ hllUpdateSparseValue bytes byteIndex unitIndex value = .ok bytes'
        ∧ decode bytes' = (decode bytes).set index (max value.toNat ((decode bytes).getD index 0))
        ∧ AllUsed bytes' := by
  obtain ⟨pre, byte, post, heq, hget, hge, hlt⟩ := hllGetRegisterUnit_spec p bytes index hused hindex
  subst heq
  obtain ⟨bytes', hupdate, hdecode, hused'⟩ := hllUpdateSparseValue_spec pre post byte
    (index - (decode pre).length) hused hvalue hle (by omega)
  refine ⟨_, _, bytes', hget, hupdate, ?_, hused'⟩
  have hunit : index - (decode pre).length < (decodeByte byte).length := by omega
  rw [hdecode, decode_append, decode_cons, set_append_right _ _ hge, set_append_left _ _ hunit, append_assoc]
  congr 4
  simp only [getD_eq_getElem?_getD, getElem?_append_right hge, getElem?_append_left hunit]

end Update

end Hll

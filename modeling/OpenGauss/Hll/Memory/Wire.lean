import OpenGauss.Hll.Memory.Union

/-!
This module contains the wire format of sketches.
-/

open LittleEndian List BitField Buffer

namespace Hll.Memory

variable {o : HllObjectData}

section Info

structure Packable (o : HllObjectData) : Prop where
  registers_ge : 10 ≤ o.hllpara.log2Registers
  registers_lt : o.hllpara.log2Registers < 26
  explicitsize_lt : o.hllpara.log2Explicitsize < 16
  sparsesize_lt : o.hllpara.log2Sparsesize < 16
  duplicateCheck_lt : o.hllpara.duplicateCheck < 16
  lenTotal_lt : o.lenTotal < 2 ^ 17
  lenUsed_lt : o.lenUsed < 2 ^ 17

theorem toNat_ofNat_of_lt (bits : Nat) {x : Nat} (h : x < 2 ^ bits) (hbits : bits ≤ 64)
    : (UInt64.ofNat x).toNat = x := by
  rw [UInt64.toNat_ofNat']
  apply Nat.mod_eq_of_lt
  calc x < 2 ^ bits := h
    _ ≤ 2 ^ 64 := Nat.pow_le_pow_right (by omega) hbits

theorem code_lt (t : HllType) : t.code < 2 ^ 4 := by
  cases t <;> decide

theorem ofCode?_code (t : HllType) : HllType.ofCode? t.code = some t := by
  cases t <;> rfl

theorem unpackInfo_packInfo (h : Packable o)
    : unpackInfo (packInfo o) = ⟨o.lenUsed, o.lenTotal, o.hllpara, o.hlltype.code⟩ := by
  have hge := h.registers_ge
  have hlt := h.registers_lt
  have hregisters : UInt64.ofInt ((o.hllpara.log2Registers : Int) - 10)
      = UInt64.ofNat (o.hllpara.log2Registers - 10) := by
    rw [UInt64.ofInt, show ((o.hllpara.log2Registers : Int) - 10) % 2 ^ 64
      = ((o.hllpara.log2Registers - 10 : Nat) : Int) by omega, Int.toNat_natCast]
  have htype := toNat_ofNat_of_lt 4 (code_lt o.hlltype) (by omega)
  have hr := toNat_ofNat_of_lt 4 (show o.hllpara.log2Registers - 10 < 2 ^ 4 by omega) (by omega)
  have he := toNat_ofNat_of_lt 4 h.explicitsize_lt (by omega)
  have hs := toNat_ofNat_of_lt 4 h.sparsesize_lt (by omega)
  have hd := toNat_ofNat_of_lt 4 h.duplicateCheck_lt (by omega)
  have ht := toNat_ofNat_of_lt 17 h.lenTotal_lt (by omega)
  have hu := toNat_ofNat_of_lt 17 h.lenUsed_lt (by omega)
  have hword0 : (UInt64.ofNat o.hlltype.code).toNat < 2 ^ 4 := by rw [htype]; exact code_lt o.hlltype
  have hfield1 : (UInt64.ofNat (o.hllpara.log2Registers - 10)).toNat < 2 ^ 4 := by rw [hr]; omega
  have hfield2 : (UInt64.ofNat o.hllpara.log2Explicitsize).toNat <
    2 ^ 4 := by rw [he]; exact h.explicitsize_lt
  have hfield3 : (UInt64.ofNat o.hllpara.log2Sparsesize).toNat < 2 ^ 4 := by rw [hs]; exact h.sparsesize_lt
  have hfield4 : (UInt64.ofNat o.hllpara.duplicateCheck).toNat <
    2 ^ 4 := by rw [hd]; exact h.duplicateCheck_lt
  have hfield5 : (UInt64.ofNat o.lenTotal).toNat < 2 ^ 17 := by rw [ht]; exact h.lenTotal_lt
  have hfield6 : (UInt64.ofNat o.lenUsed).toNat < 2 ^ 17 := by rw [hu]; exact h.lenUsed_lt
  have hword1 := push_lt hword0 hfield1 (by omega) (by omega)
  have hword2 := push_lt hword1 hfield2 (by omega) (by omega)
  have hword3 := push_lt hword2 hfield3 (by omega) (by omega)
  have hword4 := push_lt hword3 hfield4 (by omega) (by omega)
  have hword5 := push_lt hword4 hfield5 (by omega) (by omega)
  unfold unpackInfo packInfo
  rw [hregisters]
  simp only [hllLenBit, hllParaBit]
  rw [low_push hword5 hfield6 (by omega) (by omega), drop_push hword5 hfield6 (by omega) (by omega),
    low_push hword4 hfield5 (by omega) (by omega), drop_push hword4 hfield5 (by omega) (by omega),
    low_push hword3 hfield4 (by omega) (by omega), drop_push hword3 hfield4 (by omega) (by omega),
    low_push hword2 hfield3 (by omega) (by omega), drop_push hword2 hfield3 (by omega) (by omega),
    low_push hword1 hfield2 (by omega) (by omega), drop_push hword1 hfield2 (by omega) (by omega),
    low_push hword0 hfield1 (by omega) (by omega), drop_push hword0 hfield1 (by omega) (by omega),
    hu, ht, hd, hs, he, hr, Nat.sub_add_cancel hge, toNat_low (by omega), htype,
    Nat.mod_eq_of_lt (code_lt o.hlltype)]

end Info

section Frame

variable {o : HllObjectData} {bytes rest : Bytes} {compressinfo ndvEstimator lastHash : UInt64}

def frame (compressinfo ndvEstimator lastHash : UInt64) (rest : Bytes) : Bytes :=
  hllHead ++ (LittleEndian.encode 8 compressinfo.toNat ++ (LittleEndian.encode 8 ndvEstimator.toNat
    ++ (LittleEndian.encode 8 lastHash.toNat ++ rest)))

theorem length_frame : (frame compressinfo ndvEstimator lastHash rest).length = hllHeadSize + rest.length := by
  unfold frame
  simp only [length_append, LittleEndian.length_encode]
  rw [show hllHead.length = 3 from rfl]
  unfold hllHeadSize
  omega

theorem write_next {pos n : Nat} (pre : Bytes) {src : Bytes} (hpos : pre.length = pos) (hn : src.length = n)
    (tail : Bytes) : write (pre ++ (List.replicate n 0 ++ tail)) pos src =
      some (pre ++ (src ++ tail)) := by
  rw [← hpos, ← append_assoc, write_middle pre _ tail (by rw [hn, length_replicate]), append_assoc]

theorem length_head₁ (x : UInt64) : (hllHead ++ encode 8 x.toNat).length = 11 := by
  rw [length_append, LittleEndian.length_encode]
  rfl

theorem length_head₂ (x y : UInt64)
    : (hllHead ++ (encode 8 x.toNat ++ encode 8 y.toNat)).length = 19 := by
  rw [length_append, length_append, LittleEndian.length_encode, LittleEndian.length_encode]
  rfl

theorem hllObjectPack_eq (h : Holds o bytes) (htype : o.hlltype ≠ .uninit)
    : hllObjectPack o (hllHeadSize + o.lenUsed + 1)
        =
      .ok (frame (packInfo o) o.ndvEstimator o.lastHash (bytes ++ [0])) := by
  have hzeros : List.replicate (hllHeadSize + o.lenUsed + 1) (0 : UInt8)
      = List.replicate 3 0 ++ (List.replicate 8 0 ++ (List.replicate 8 0 ++ (List.replicate 8 0
          ++ (List.replicate o.lenUsed 0 ++ [0])))) := by
    rw [show ([0] : Bytes) = List.replicate 1 0 from rfl]
    simp only [replicate_append_replicate]
    congr 1
    unfold hllHeadSize
    omega
  have hused : Buffer.read o.hllData 0 o.lenUsed = some bytes := by
    obtain ⟨tail, htail⟩ := h.start
    have hread := read_middle [] bytes tail
    rw [nil_append, htail, h.length] at hread
    exact hread
  have hwrite₀ := write_next [] length_nil (show hllHead.length = 3 from rfl)
  have hwrite₃ := write_next hllHead (show hllHead.length = 3 from rfl)
    (LittleEndian.length_encode 8 (packInfo o).toNat)
  have hwrite₁₁ := write_next _ (length_head₁ (packInfo o))
    (LittleEndian.length_encode 8 o.ndvEstimator.toNat)
  have hwrite₁₉ := write_next _ (length_head₂ (packInfo o) o.ndvEstimator)
    (LittleEndian.length_encode 8 o.lastHash.toNat)
  have hwrite₂₇ := write_next (frame (packInfo o) o.ndvEstimator o.lastHash []) length_frame h.length
  simp only [nil_append] at hwrite₀
  simp only [append_assoc] at hwrite₁₁ hwrite₁₉
  simp only [frame, append_assoc, nil_append, length_nil, Nat.add_zero] at hwrite₂₇
  unfold hllObjectPack
  rw [if_neg (by omega), if_neg htype]
  simp only [hzeros]
  rw [hwrite₀, inBuffer_some, ok_bind, hwrite₃, inBuffer_some, ok_bind, hwrite₁₁, inBuffer_some, ok_bind,
    hwrite₁₉, inBuffer_some, ok_bind]
  split
  . rw [hused, inBuffer_some, ok_bind, hwrite₂₇, inBuffer_some]
    rfl
  . have hnil : bytes = [] := by
      apply eq_nil_of_length_eq_zero
      rw [h.length]
      omega
    rw [show o.lenUsed = 0 by omega, hnil]
    rfl

theorem readUInt64_eq {pos : Nat} {pre : Bytes} (tail : Bytes) (x : UInt64) (hpos : pre.length = pos)
    : readUInt64 (pre ++ (encode 8 x.toNat ++ tail)) pos = .ok x := by
  unfold readUInt64
  have hread := read_middle pre (encode 8 x.toNat) tail
  rw [append_assoc, LittleEndian.length_encode, hpos] at hread
  rw [hread, inBuffer_some, ok_bind, LittleEndian.decode_encode_of_lt x.toNat_lt, UInt64.ofNat_toNat]
  rfl

def copyUsed (o : HllObjectData) (rest : Bytes) : Checked HllObjectData :=
  if o.lenUsed > 0 then do
    let hllData ← inBuffer (Buffer.write (List.replicate o.lenTotal 0) 0 (rest.take o.lenUsed))
    return { o with hllData }
  else
    return o

theorem hllObjectUnpack_frame (o : HllObjectData) (compressinfo ndvEstimator lastHash : UInt64) (rest : Bytes)
    : hllObjectUnpack o (frame compressinfo ndvEstimator lastHash rest)
        =
      match HllType.ofCode? (unpackInfo compressinfo).hlltype with
      | none => .error (.ereport ("invalid hll type, type=" ++ toString (unpackInfo compressinfo).hlltype))
      | some hlltype =>
        if rest.length ≤ (unpackInfo compressinfo).lenUsed then
          .error (tooSmall (hllHeadSize + rest.length) (unpackInfo compressinfo).lenUsed)
        else
          copyUsed { o with
            hlltype, hllpara := (unpackInfo compressinfo).hllpara, lenTotal :=
              (unpackInfo compressinfo).lenTotal,
            lenUsed := (unpackInfo compressinfo).lenUsed, ndvEstimator, lastHash } rest := by
  have hhead : Buffer.read (frame compressinfo ndvEstimator lastHash rest) 0 hllFlagLen = some hllHead :=
    read_middle [] hllHead _
  have hinfo : readUInt64 (frame compressinfo ndvEstimator lastHash rest) 3 = .ok compressinfo :=
    readUInt64_eq _ compressinfo rfl
  have hndv : readUInt64 (frame compressinfo ndvEstimator lastHash rest) 11 = .ok ndvEstimator := by
    have hread := readUInt64_eq (encode 8 lastHash.toNat ++ rest) ndvEstimator (length_head₁ compressinfo)
    rw [append_assoc] at hread
    exact hread
  have hlast : readUInt64 (frame compressinfo ndvEstimator lastHash rest) 19 = .ok lastHash := by
    have hread := readUInt64_eq rest lastHash (length_head₂ compressinfo ndvEstimator)
    simp only [append_assoc] at hread
    exact hread
  have hused : ∀ n ≤ rest.length,
      Buffer.read (frame compressinfo ndvEstimator lastHash rest) hllHeadSize n = some (rest.take n) := by
    intro n hn
    have hread := read_middle (frame compressinfo ndvEstimator lastHash []) (rest.take n) (rest.drop n)
    rw [append_assoc, take_append_drop, length_frame, length_take_of_le hn] at hread
    rw [← hread]
    simp [frame]
  unfold hllObjectUnpack
  rw [if_neg (by rw [length_frame]; omega), hhead, inBuffer_some, ok_bind, if_neg (by simp), hinfo, ok_bind]
  dsimp only
  cases HllType.ofCode? (unpackInfo compressinfo).hlltype with
  | none => rfl
  | some hlltype =>
    dsimp only
    rw [hndv, ok_bind, hlast, ok_bind, length_frame]
    by_cases hshort : rest.length ≤ (unpackInfo compressinfo).lenUsed
    . rw [if_pos (by omega), if_pos hshort]
    . rw [if_neg (by omega), if_neg hshort]
      unfold copyUsed
      dsimp only
      by_cases hpos : (unpackInfo compressinfo).lenUsed > 0
      . rw [if_pos hpos, if_pos hpos, hused _ (by omega), inBuffer_some, ok_bind]
      . rw [if_neg hpos, if_neg hpos]

end Frame

section RoundTrip

variable {o : HllObjectData} {bytes : Bytes}

theorem copyUsed_ok (h : bytes.length = o.lenUsed) (hle : o.lenUsed ≤ o.lenTotal) (rest : Bytes)
    : ∃ hllData, copyUsed o (bytes ++ rest) = .ok { o with hllData } ∧ hllData.take o.lenUsed = bytes
        ∧ (0 < o.lenUsed → hllData.length = o.lenTotal) ∧ (o.lenUsed = 0 → hllData = o.hllData) := by
  unfold copyUsed
  split
  . have hnil : [] <+: List.replicate o.lenTotal (0 : UInt8) := nil_prefix
    obtain ⟨hllData, hwrite, hlen, hpre⟩ :=
      write_prefix bytes hnil (by rw [length_nil, length_replicate, h]; omega)
    apply Exists.intro hllData
    apply And.intro
    . rw [← h, take_left, show (0 : Nat) = ([] : Bytes).length from rfl, hwrite, inBuffer_some, ok_bind]
      rfl
    . apply And.intro
      . rw [← h]
        exact (prefix_iff_eq_take.1 hpre).symm
      . apply And.intro
        . intro _
          rw [hlen, length_replicate]
        . intro hzero
          omega
  . apply Exists.intro o.hllData
    apply And.intro
    . rfl
    . apply And.intro
      . rw [show o.lenUsed = 0 by omega, take_zero]
        symm
        apply eq_nil_of_length_eq_zero
        omega
      . apply And.intro
        . intro hpos
          contradiction
        . intro _
          rfl

structure Restored (o o' : HllObjectData) : Prop where
  hlltype : o'.hlltype = o.hlltype
  hllpara : o'.hllpara = o.hllpara
  lenTotal : o'.lenTotal = o.lenTotal
  lenUsed : o'.lenUsed = o.lenUsed
  ndvEstimator : o'.ndvEstimator = o.ndvEstimator
  lastHash : o'.lastHash = o.lastHash
  used : o'.used = o.used
  total : 0 < o'.lenUsed → o'.hllData.length = o'.lenTotal

theorem hllObjectUnpack_frame_packInfo (hpack : Packable o) (h : Holds o bytes) (into : HllObjectData)
    : ∃ o', hllObjectUnpack into (frame (packInfo o) o.ndvEstimator o.lastHash (bytes ++ [0])) = .ok o'
        ∧ Restored o o' ∧ (o'.lenUsed = 0 → o'.hllData = into.hllData) := by
  rw [hllObjectUnpack_frame, unpackInfo_packInfo hpack, ofCode?_code]
  dsimp only
  rw [if_neg (by rw [length_append, h.length, length_singleton]; omega)]
  obtain ⟨hllData, hcopy, hused, htotal, hdata⟩ := copyUsed_ok (o := { into with
    hlltype := o.hlltype, hllpara := o.hllpara, lenTotal := o.lenTotal, lenUsed := o.lenUsed,
    ndvEstimator := o.ndvEstimator, lastHash := o.lastHash }) h.length h.used_le [0]
  apply Exists.intro
  apply And.intro hcopy
  apply And.intro
  . constructor
    . rfl
    . rfl
    . rfl
    . rfl
    . rfl
    . rfl
    . rw [h.used_eq]
      exact hused
    . exact htotal
  . exact hdata

end RoundTrip

section Safety

def headInfo (hllbyte : Bytes) : Info := unpackInfo (UInt64.ofNat (LittleEndian.decode ((hllbyte.drop 3).take 8)))

structure Accepted (hllbyte : Bytes) : Prop where
  length : hllHeadSize ≤ hllbyte.length
  head : hllbyte.take hllFlagLen = hllHead
  hlltype : (headInfo hllbyte).hlltype ≤ HllType.full.code
  lenUsed : hllHeadSize + (headInfo hllbyte).lenUsed < hllbyte.length

-- An error is raised, or what was copied lies in the bytes and in the allocated memory.
def Contained (hllbyte : Bytes) : Checked HllObjectData → Prop
  | .ok o =>
    o.lenUsed ≤ o.lenTotal ∧ hllHeadSize + o.lenUsed ≤ hllbyte.length
      ∧ (0 < o.lenUsed → o.hllData.length = o.lenTotal)
      ∧ o.used = (hllbyte.drop hllHeadSize).take o.lenUsed
  | .error (.ereport _) => True
  | .error _ => False

theorem exists_frame {hllbyte : Bytes} (hlen : hllHeadSize ≤ hllbyte.length)
    (hhead : hllbyte.take hllFlagLen = hllHead)
    : ∃ compressinfo ndvEstimator lastHash rest, hllbyte = frame compressinfo ndvEstimator lastHash rest := by
  have hword : ∀ pos, pos + 8 ≤ hllbyte.length →
      encode 8 (UInt64.ofNat (LittleEndian.decode ((hllbyte.drop pos).take 8))).toNat
        = (hllbyte.drop pos).take 8 := by
    intro pos hpos
    have hlength : ((hllbyte.drop pos).take 8).length = 8 := by
      rw [length_take, length_drop]
      omega
    have hlt := decode_lt ((hllbyte.drop pos).take 8)
    have hencode := encode_decode ((hllbyte.drop pos).take 8)
    rw [hlength] at hlt hencode
    rw [toNat_ofNat_of_lt 64 (by omega) (Nat.le_refl 64), hencode]
  unfold hllHeadSize at hlen
  apply Exists.intro (UInt64.ofNat (LittleEndian.decode ((hllbyte.drop 3).take 8)))
  apply Exists.intro (UInt64.ofNat (LittleEndian.decode ((hllbyte.drop 11).take 8)))
  apply Exists.intro (UInt64.ofNat (LittleEndian.decode ((hllbyte.drop 19).take 8)))
  apply Exists.intro (hllbyte.drop 27)
  unfold frame
  rw [hword 3 (by omega), hword 11 (by omega), hword 19 (by omega), ← hhead]
  rw [show hllbyte.drop 27 = (hllbyte.drop 19).drop 8 by rw [drop_drop], take_append_drop,
    show hllbyte.drop 19 = (hllbyte.drop 11).drop 8 by rw [drop_drop], take_append_drop,
    show hllbyte.drop 11 = (hllbyte.drop 3).drop 8 by rw [drop_drop], take_append_drop]
  exact (take_append_drop 3 hllbyte).symm

theorem headInfo_frame (compressinfo ndvEstimator lastHash : UInt64) (rest : Bytes)
    : headInfo (frame compressinfo ndvEstimator lastHash rest) = unpackInfo compressinfo := by
  have hread : (frame compressinfo ndvEstimator lastHash rest).drop 3
      = encode 8 compressinfo.toNat ++ (encode 8 ndvEstimator.toNat
          ++ (encode 8 lastHash.toNat ++ rest)) := rfl
  unfold headInfo
  rw [hread, take_left' (LittleEndian.length_encode ..),
    LittleEndian.decode_encode_of_lt compressinfo.toNat_lt,
    UInt64.ofNat_toNat]

theorem drop_frame (compressinfo ndvEstimator lastHash : UInt64) (rest : Bytes)
    : (frame compressinfo ndvEstimator lastHash rest).drop hllHeadSize = rest := by
  have hdrop : frame compressinfo ndvEstimator lastHash rest = frame compressinfo ndvEstimator lastHash
    [] ++ rest := by
    unfold frame
    simp
  rw [hdrop]
  apply drop_left'
  exact length_frame

theorem ofCode?_isSome_iff (n : Nat) : (HllType.ofCode? n).isSome ↔ n ≤ HllType.full.code := by
  have hfull : HllType.full.code = 4 := rfl
  rw [hfull]
  unfold HllType.ofCode?
  split
  . decide
  . decide
  . decide
  . decide
  . decide
  . rename_i hzero hone htwo hthree hfour
    apply iff_of_false
    . simp
    . intro hle
      have hcases : n = 0 ∨ n = 1 ∨ n = 2 ∨ n = 3 ∨ n = 4 := by omega
      obtain h | h | h | h | h := hcases
      . exact hzero h
      . exact hone h
      . exact htwo h
      . exact hthree h
      . exact hfour h

theorem copyUsed_overrun (o : HllObjectData) (rest : Bytes) (hlong : o.lenUsed ≤ rest.length)
    (hlt : o.lenTotal < o.lenUsed) : copyUsed o rest = .error .overrun := by
  unfold copyUsed write
  rw [if_pos (by omega), if_neg (by rw [length_take_of_le hlong, length_replicate]; omega)]
  rfl

theorem hllObjectUnpack_contained_iff (into : HllObjectData) (hllbyte : Bytes)
    : Contained hllbyte (hllObjectUnpack into hllbyte)
        ↔
      (Accepted hllbyte → (headInfo hllbyte).lenUsed ≤ (headInfo hllbyte).lenTotal) := by
  by_cases hlen : hllHeadSize ≤ hllbyte.length
  . by_cases hhead : hllbyte.take hllFlagLen = hllHead
    . obtain ⟨compressinfo, ndvEstimator, lastHash, rest, hframe⟩ := exists_frame hlen hhead
      have hinfo := headInfo_frame compressinfo ndvEstimator lastHash rest
      have hdrop := drop_frame compressinfo ndvEstimator lastHash rest
      have hlength : hllbyte.length = hllHeadSize + rest.length := by rw [hframe, length_frame]
      rw [← hframe] at hinfo hdrop
      have hunpack := hllObjectUnpack_frame into compressinfo ndvEstimator lastHash rest
      rw [← hframe, ← hinfo] at hunpack
      have htype := ofCode?_isSome_iff (headInfo hllbyte).hlltype
      rw [hunpack]
      cases hcode : HllType.ofCode? (headInfo hllbyte).hlltype with
      | none =>
        rw [hcode] at htype
        apply iff_of_true
        . trivial
        . intro haccepted
          have hsome := htype.2 haccepted.hlltype
          contradiction
      | some hlltype =>
        rw [hcode] at htype
        dsimp only
        split
        . apply iff_of_true
          . trivial
          . intro haccepted
            have hused := haccepted.lenUsed
            omega
        . have haccepted : Accepted hllbyte := by
            constructor
            . exact hlen
            . exact hhead
            . exact htype.1 rfl
            . omega
          apply Iff.trans _ (forall_prop_of_true haccepted).symm
          apply Iff.intro
          . intro hcontained
            by_contra hnot
            rw [copyUsed_overrun _ rest (show (headInfo hllbyte).lenUsed ≤ rest.length by omega)
              (show (headInfo hllbyte).lenTotal < (headInfo hllbyte).lenUsed by omega)] at hcontained
            exact hcontained
          . intro hle
            have htake : (rest.take (headInfo hllbyte).lenUsed).length = (headInfo hllbyte).lenUsed := by
              rw [length_take_of_le (by omega)]
            obtain ⟨hllData, hcopy, hused, htotal, hdata⟩ := copyUsed_ok (o := { into with
              hlltype, hllpara := (headInfo hllbyte).hllpara, lenTotal := (headInfo hllbyte).lenTotal,
              lenUsed := (headInfo hllbyte).lenUsed, ndvEstimator, lastHash })
              htake hle (rest.drop (headInfo hllbyte).lenUsed)
            rw [take_append_drop] at hcopy
            rw [hcopy]
            apply And.intro hle
            apply And.intro
            . dsimp only
              omega
            . apply And.intro htotal
              rw [hdrop]
              exact hused
    . apply iff_of_true
      . have hread : Buffer.read hllbyte 0 hllFlagLen = some (hllbyte.take hllFlagLen) := by
          unfold Buffer.read
          rw [if_pos (by unfold hllFlagLen; unfold hllHeadSize at hlen; omega), drop_zero]
        unfold hllObjectUnpack
        rw [if_neg (by omega), hread, inBuffer_some, ok_bind, if_pos hhead]
        trivial
      . intro haccepted
        have hmatch := haccepted.head
        contradiction
  . apply iff_of_true
    . unfold hllObjectUnpack
      rw [if_pos (by omega)]
      trivial
    . intro haccepted
      have hlength := haccepted.length
      contradiction

end Safety

section Reachable

inductive Reachable (E : Estimator) : HllObjectData → Prop where
  | init : Reachable E hllInit
  | empty {o : HllObjectData} (h : Reachable E o) : Reachable E (hllEmpty o)
  | setPara {o o' : HllObjectData} {p : HllPara} (h : Reachable E o)
      (hcheck : hllCheckPararange p.log2Registers p.log2Explicitsize p.log2Sparsesize p.duplicateCheck = .ok
        ())
      (hset : hllSetPara o p = .ok o') : Reachable E o'
  | add {o o' : HllObjectData} {hashval : UInt64} (h : Reachable E o) (hadd : hllAdd E o hashval = .ok o')
      : Reachable E o'
  | cardinality {o o' : HllObjectData} (h : Reachable E o) (hndv : hllCardinality E o = .ok o')
    : Reachable E o'
  | union {o aHll o' aHll' : HllObjectData} (h : Reachable E o) (ha : Reachable E aHll)
      (hunion : hllUnion E o aHll = .ok (o', aHll')) : Reachable E o'
  | unionArgument {o aHll o' aHll' : HllObjectData} (h : Reachable E o) (ha : Reachable E aHll)
      (hunion : hllUnion E o aHll = .ok (o', aHll')) : Reachable E aHll'
  | unpack {o o' : HllObjectData} {hllbyte : Bytes} (h : Reachable E o)
      (hpack : hllObjectPack o (hllHeadSize + o.lenUsed + 1) = .ok hllbyte)
      (hunpack : hllObjectUnpack hllInit hllbyte = .ok o') : Reachable E o'

theorem paraOk_of_check {p : HllPara}
    (h : hllCheckPararange p.log2Registers p.log2Explicitsize p.log2Sparsesize p.duplicateCheck = .ok ())
    : ParaOk p := by
  have hinRange := inRange_of_check h
  unfold hllCheckPararange at h
  obtain ⟨_, -, h⟩ := bind_eq_ok.1 h
  obtain ⟨_, hexplicit, h⟩ := bind_eq_ok.1 h
  obtain ⟨_, hsparse, h⟩ := bind_eq_ok.1 h
  have hexplicit := (checkPara_ok hexplicit).2
  have hsparse := (checkPara_ok hsparse).2
  have hduplicate := (checkPara_ok h).2
  constructor
  . exact hinRange
  . omega
  . omega
  . omega

theorem inv_blank (o : HllObjectData) {hlltype : HllType} {p : HllPara} (hp : ParaOk p)
    (htype : hlltype = .uninit ∨ hlltype = .empty)
    : Inv { o with hlltype, hllpara := p, lenTotal := 0, lenUsed := 0, hllData := [] } := by
  constructor
  . exact hp
  . exact ModeOk.blank htype rfl rfl rfl

theorem Inv.packable (h : Inv o) : Packable o := by
  have hpara := h.para
  have hpow : 2 ^ o.hllpara.log2Registers ≤ 2 ^ 16 :=
    Nat.pow_le_pow_right (by omega) hpara.inRange.registers_le
  have hle := h.mode.used_le
  have htotal : o.lenTotal < 2 ^ 17 := by
    cases h.mode with
    | blank htype hlenTotal => omega
    | explicit hashes htype hholds hsorted hne hused htotal => omega
    | sparse hok htotal => omega
    | full hok =>
      rw [hok.lenTotal, hok.lenUsed]
      omega
  constructor
  . exact hpara.inRange.registers_ge
  . have hle := hpara.inRange.registers_le
    omega
  . have hle := hpara.explicitsize_le
    omega
  . have hle := hpara.sparsesize_le
    omega
  . have hle := hpara.duplicateCheck_le
    omega
  . exact htotal
  . omega

theorem Inv.exists_holds (h : Inv o) : Holds o o.used := by
  constructor
  . apply take_prefix
  . apply length_take_of_le
    rw [h.mode.total]
    exact h.mode.used_le
  . exact h.mode.total

theorem type_of_pack {hllbyte : Bytes}
    (hpack : hllObjectPack o (hllHeadSize + o.lenUsed + 1) = .ok hllbyte) : o.hlltype ≠ .uninit := by
  intro htype
  unfold hllObjectPack at hpack
  rw [if_neg (by omega), if_pos htype] at hpack
  cases hpack

theorem Inv.setPara {o' : HllObjectData} {p : HllPara} (h : Inv o) (hp : ParaOk p)
    (hset : hllSetPara o p = .ok o') : Inv o' := by
  cases h.mode with
  | blank htype hlenTotal hlenUsed hdata =>
    have hokay : hllSetPara o p = .ok { o with hllpara := p } := by
      unfold hllSetPara
      obtain htype | htype := htype
      . rw [htype]
      . rw [htype]
    rw [hokay] at hset
    cases hset
    constructor
    . exact hp
    . exact ModeOk.blank htype hlenTotal hlenUsed hdata
  | explicit hashes htype =>
    unfold hllSetPara at hset
    rw [htype] at hset
    cases hset
  | sparse hok =>
    unfold hllSetPara at hset
    rw [hok.hlltype] at hset
    cases hset
  | full hok =>
    unfold hllSetPara at hset
    rw [hok.hlltype] at hset
    cases hset

theorem Inv.cardinality {E : Estimator} {o' : HllObjectData} (h : Inv o) (hndv : hllCardinality E o = .ok o')
    : Inv o' := by
  unfold hllCardinality at hndv
  split at hndv
  . split at hndv
    . cases hndv
    . cases hndv
      exact h.withEstimate 0 o.lastHash
    . cases hndv
      exact h.withEstimate (E.calculateNDV o) o.lastHash
  . cases hndv
    exact h

theorem Inv.restored {o' : HllObjectData} (h : Inv o) (hrestored : Restored o o')
    (hdata : o'.lenUsed = 0 → o'.hllData = []) : Inv o' := by
  apply h.congr
  constructor
  . exact hrestored.hlltype
  . exact hrestored.hllpara
  . exact hrestored.lenTotal
  . exact hrestored.lenUsed
  . exact hrestored.used
  . by_cases hzero : o'.lenUsed = 0
    . have hblank : o.lenTotal = 0 := by
        apply h.mode.lenTotal_of_blank
        by_contra hnot
        obtain ⟨hne, hne'⟩ := not_or.1 hnot
        have hpos := h.mode.lenUsed_pos hne hne'
        rw [hrestored.lenUsed] at hzero
        omega
      rw [hdata hzero, hrestored.lenTotal, hblank]
      rfl
    . exact hrestored.total (by omega)

theorem Reachable.inv {E : Estimator} (h : Reachable E o) : Inv o := by
  induction h with
  | init =>
    have hp : ParaOk paraSetDefault := by
      constructor
      . constructor
        . decide
        . decide
      . decide
      . decide
      . decide
    exact inv_blank hllInit hp (Or.inl rfl)
  | @empty o h ih => exact (inv_blank o ih.para (Or.inr rfl)).withEstimate 0 0
  | setPara h hcheck hset ih => exact ih.setPara (paraOk_of_check hcheck) hset
  | @add o o' hashval h hadd ih =>
    obtain ⟨o₁, hadd₁, hinv⟩ := hllAdd_memory E ih hashval
    rw [hadd₁] at hadd
    cases hadd
    exact hinv
  | cardinality h hndv ih => exact ih.cardinality hndv
  | union h ha hunion ih iha =>
    obtain ⟨msg, herror⟩ | ⟨o₁, aHll₁, hunion₁, hinv, -⟩ := hllUnion_memory E ih iha
    . rw [herror] at hunion
      cases hunion
    . rw [hunion₁] at hunion
      cases hunion
      exact hinv
  | unionArgument h ha hunion ih iha =>
    obtain ⟨msg, herror⟩ | ⟨o₁, aHll₁, hunion₁, -, hinv⟩ := hllUnion_memory E ih iha
    . rw [herror] at hunion
      cases hunion
    . rw [hunion₁] at hunion
      cases hunion
      exact hinv
  | unpack h hpack hunpack ih =>
    rw [hllObjectPack_eq ih.exists_holds (type_of_pack hpack)] at hpack
    cases hpack
    obtain ⟨o₁, hunpack₁, hrestored, hdata⟩ :=
      hllObjectUnpack_frame_packInfo ih.packable ih.exists_holds hllInit
    rw [hunpack₁] at hunpack
    cases hunpack
    exact ih.restored hrestored hdata

theorem hll_wire_format (E : Estimator)
    : (∀ o : HllObjectData, Reachable E o → o.hlltype ≠ .uninit →
        ∃ hllbyte, hllObjectPack o (hllHeadSize + o.lenUsed + 1) = .ok hllbyte
          ∧ ∀ into, ∃ o', hllObjectUnpack into hllbyte = .ok o' ∧ Restored o o')
      ∧ (∀ o : HllObjectData, o.hlltype = .uninit →
        hllObjectPack o (hllHeadSize + o.lenUsed + 1) = .error (.ereport "invalid hll type, type=0"))
      ∧ ∀ (into : HllObjectData) (hllbyte : Bytes),
          Contained hllbyte (hllObjectUnpack into hllbyte)
            ↔ (Accepted hllbyte → (headInfo hllbyte).lenUsed ≤ (headInfo hllbyte).lenTotal) := by
  apply And.intro
  . intro o hreachable htype
    apply Exists.intro
    apply And.intro (hllObjectPack_eq hreachable.inv.exists_holds htype)
    intro into
    obtain ⟨o', hunpack, hrestored, -⟩ :=
      hllObjectUnpack_frame_packInfo hreachable.inv.packable hreachable.inv.exists_holds into
    exact ⟨o', hunpack, hrestored⟩
  . apply And.intro
    . intro o htype
      unfold hllObjectPack
      rw [if_neg (by omega), if_pos htype]
    . intro into hllbyte
      exact hllObjectUnpack_contained_iff into hllbyte

def countingEstimator : Estimator where
  succ ndvEstimator := ndvEstimator + 1
  ofNat n := UInt64.ofNat n
  calculateNDV o := UInt64.ofNat (o.lenUsed / hllExplicitUint)

-- What is left of an empty sketch after these hashes are added, the last of them `lastHash`.
def explicitOf (hashes : List UInt64) (lastHash : UInt64) : HllObjectData where
  hlltype := .explicit
  hllpara := paraSetDefault
  lenTotal := hllExpandSize
  lenUsed := hllExplicitUint * hashes.length
  hllData := encodeHashes hashes ++ List.replicate (hllExpandSize - hllExplicitUint * hashes.length) 0
  ndvEstimator := UInt64.ofNat hashes.length
  lastHash := lastHash

theorem hll_wire_format_twoHashes
    : (explicitOf [3, 5] 3).used = [3, 0, 0, 0, 0, 0, 0, 0, 5, 0, 0, 0, 0, 0, 0, 0]
        ∧ ∃ hllbyte, hllObjectPack (explicitOf [3, 5] 3) (hllHeadSize + 16 + 1) = .ok hllbyte
          ∧ ∃ o', hllObjectUnpack hllInit hllbyte = .ok o' ∧ Restored (explicitOf [3, 5] 3) o' := by
  have hfive : hllAdd countingEstimator emptySketch 5 = .ok (explicitOf [5] 5) := by decide +kernel
  have hthree : hllAdd countingEstimator (explicitOf [5] 5) 3 = .ok (explicitOf [3, 5] 3) := by decide +kernel
  obtain ⟨hllbyte, hpack, hunpack⟩ := (hll_wire_format countingEstimator).1 (explicitOf [3, 5] 3)
    (.add (.add (.empty .init) hfive) hthree) (by decide)
  exact ⟨by decide +kernel, hllbyte, hpack, hunpack hllInit⟩

end Reachable

section Oversized

def oversized : Bytes :=
  hllHead ++ [1, 0, 0, 0, 0, 0, 0x10, 0] ++ List.replicate 16 0 ++ [7, 0]

theorem not_contained_oversized : ¬Contained oversized (hllObjectUnpack hllInit oversized) := by
  have hunpack : hllObjectUnpack hllInit oversized = .error .overrun := by
    rfl
  rw [hunpack]
  intro h
  exact h

end Oversized

end Hll.Memory

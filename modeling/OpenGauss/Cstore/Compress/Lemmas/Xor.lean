import OpenGauss.Cstore.Compress.Impl.Xor
import OpenGauss.Cstore.Compress.Lemmas.Rle
import OpenGauss.Lib.BitStream

/-!
This module contains the verification of `XORCodec`.
-/

open List LittleEndian

namespace XORCodec

open BitStream

variable {value : Nat}

section Zeros

theorem lt_of_countLeadingZeros {n x : Nat} (h : x < 2 ^ n)
    : x < 2 ^ (n - countLeadingZeros n x) ∧ countLeadingZeros n x ≤ n := by
  induction n with
  | zero => exact ⟨h, Nat.le_refl 0⟩
  | succ n ih =>
    unfold countLeadingZeros
    split
    . exact ⟨h, Nat.zero_le _⟩
    . next hbit =>
      have hlt : x < 2 ^ n := by
        apply Nat.lt_of_not_le
        intro hle
        apply hbit
        rw [Nat.testBit_eq_decide_div_mod_eq, decide_eq_true_eq]
        have hdiv : x / 2 ^ n = 1 := by
          apply Nat.div_eq_of_lt_le
          . omega
          . rw [Nat.pow_succ] at h
            omega
        rw [hdiv]
      obtain ⟨hx, hle⟩ := ih hlt
      rw [Nat.add_sub_add_right]
      exact ⟨hx, by omega⟩

theorem dvd_of_countTrailingZeros (n x : Nat) : 2 ^ countTrailingZeros n x ∣ x := by
  induction n generalizing x with
  | zero => exact Nat.one_dvd x
  | succ n ih =>
    unfold countTrailingZeros
    split
    . exact Nat.one_dvd x
    . next hodd =>
      have heven : x = 2 * (x / 2) := by omega
      rw [Nat.pow_succ', heven, Nat.mul_div_cancel_left _ (by decide)]
      exact Nat.mul_dvd_mul_left 2 (ih (x / 2))

end Zeros

section Stream

structure Block where
  leading : Nat
  trailing : Nat

namespace Block

variable (block : Block)

def size : Nat := floatSize - block.leading - block.trailing

structure Valid : Prop where
  leading_le : block.leading ≤ kMaxLeadingZerosLength
  fits : block.leading + block.trailing < floatSize

structure Covers (x : Nat) : Prop where
  lt : x < 2 ^ (floatSize - block.leading)
  dvd : 2 ^ block.trailing ∣ x

def ofXor (x : Nat) : Block where
  leading := min (clzll x) kMaxLeadingZerosLength
  trailing := ctzll x

def Reused (x : Nat) : Prop :=
  block.leading ≤ (ofXor x).leading ∧ block.trailing ≤ (ofXor x).trailing ∧
    block.size < kLeadingZerosLengthBits + kBlockSizeLengthBits + (ofXor x).size

instance (x : Nat) : Decidable (block.Reused x) := inferInstanceAs (Decidable (_ ∧ _))

def next (x : Nat) : Block := if x = 0 ∨ block.Reused x then block else ofXor x

/-- The bits that stand for a value whose exclusive or with the value before it is `x`. -/
def valueBits (x : Nat) : List Bool :=
  if x = 0 then
    [false]
  else if block.Reused x then
    [true, true] ++ bitsOf block.size (x / 2 ^ block.trailing)
  else
    [true, false] ++ bitsOf kLeadingZerosLengthBits (ofXor x).leading
      ++ bitsOf kBlockSizeLengthBits ((ofXor x).size - kBlockSizeAdjustment)
      ++ bitsOf (ofXor x).size (x / 2 ^ (ofXor x).trailing)

end Block

def Block.streamBits (block : Block) (previous : Nat) (vals : List Nat) : List Bool :=
  match vals with
  | [] => []
  | value :: vals =>
    block.valueBits (previous ^^^ value) ++ (block.next (previous ^^^ value)).streamBits value vals

theorem ofXor_leading (x : Nat)
    : (if clzll x > kMaxLeadingZerosLength then kMaxLeadingZerosLength else clzll x)
        =
      (Block.ofXor x).leading := by
  unfold Block.ofXor
  split
  . next h => exact (Nat.min_eq_right (Nat.le_of_lt h)).symm
  . next h => exact (Nat.min_eq_left (by omega)).symm

theorem ofXor_covers {x : Nat} (hx : x < 2 ^ floatSize) : (Block.ofXor x).Covers x := by
  obtain ⟨hlt, hle⟩ := lt_of_countLeadingZeros hx
  constructor
  . apply Nat.lt_of_lt_of_le hlt
    apply Nat.pow_le_pow_right (by decide)
    have hmin : (Block.ofXor x).leading ≤ clzll x := Nat.min_le_left _ _
    unfold clzll floatSize at *
    omega
  . exact dvd_of_countTrailingZeros 64 x

theorem ofXor_valid {x : Nat} (hne : x ≠ 0) (hx : x < 2 ^ floatSize) : (Block.ofXor x).Valid := by
  have hcovers := ofXor_covers hx
  have hle : 2 ^ (Block.ofXor x).trailing ≤ x := Nat.le_of_dvd (by omega) hcovers.dvd
  have hpow : (Block.ofXor x).trailing < floatSize - (Block.ofXor x).leading :=
    (Nat.pow_lt_pow_iff_right (by decide)).mp (Nat.lt_of_le_of_lt hle hcovers.lt)
  constructor
  . exact Nat.min_le_right _ _
  . omega

namespace Block

variable {block : Block} {x : Nat}

theorem Reused.covers (h : block.Reused x) (hx : x < 2 ^ floatSize) : block.Covers x := by
  have hcovers := ofXor_covers hx
  constructor
  . apply Nat.lt_of_lt_of_le hcovers.lt
    apply Nat.pow_le_pow_right (by decide)
    have hle := h.left
    omega
  . exact Nat.dvd_trans (Nat.pow_dvd_pow 2 h.right.left) hcovers.dvd

theorem Valid.next (h : block.Valid) (hx : x < 2 ^ floatSize) : (block.next x).Valid := by
  unfold Block.next
  split
  . exact h
  . next hnot => exact ofXor_valid (fun hzero => hnot (Or.inl hzero)) hx

theorem Valid.size_pos (h : block.Valid) : 0 < block.size := by
  have hfits := h.fits
  unfold size
  omega

theorem size_le : block.size ≤ floatSize := by
  unfold size
  omega

theorem Covers.lt_size (h : block.Covers x) (hvalid : block.Valid)
    : x / 2 ^ block.trailing < 2 ^ block.size := by
  apply Nat.div_lt_of_lt_mul
  rw [← Nat.pow_add]
  have hfits := hvalid.fits
  have hexp : block.trailing + block.size = floatSize - block.leading := by
    unfold size
    omega
  rw [hexp]
  exact h.lt

theorem valid_zero : (Block.mk 0 0).Valid := by
  constructor
  . decide
  . decide

end Block

end Stream

section Encode

/-- The encoder has written `bits`, of which less than a byte waits in `bitsStore`. -/
def Encoder.Writes (s : Encoder) (bits : List Bool) : Prop :=
  ∃ rest : List Bool, bits = bytesBits s.outbuf ++ rest ∧ rest.length < 8 ∧ s.numBits % 8 = rest.length ∧
    s.bitsStore.toNat = ofBits rest * 2 ^ (8 - rest.length)

def Encoder.block (s : Encoder) : Block := ⟨s.previousValueLeadingZeros, s.previousValueTrailingZeros⟩

section Members

variable (s : Encoder) (value count : Nat)

theorem flushBitString_members
    : (flushBitString s).previousValue = s.previousValue ∧ (flushBitString s).block = s.block := by
  unfold flushBitString
  split
  . exact ⟨rfl, rfl⟩
  . exact ⟨rfl, rfl⟩

theorem flush_store_members
    : (flushBitString (s.store count value)).previousValue = s.previousValue ∧
      (flushBitString (s.store count value)).block = s.block :=
  flushBitString_members (s.store count value)

theorem addWholeBytes_members
    : (addWholeBytes value count s).1.previousValue = s.previousValue ∧
      (addWholeBytes value count s).1.block = s.block := by
  fun_induction addWholeBytes value count s with
  | case1 count s h ih =>
    obtain ⟨hprevious, hblock⟩ :=
      flush_store_members s ((value >>> (count - byteSize)) &&& 0xFF) byteSize
    rw [hprevious, hblock] at ih
    exact ih
  | case2 count s h => exact ⟨rfl, rfl⟩

theorem addValueToBitString_members
    : (addValueToBitString value count s).previousValue = s.previousValue ∧
      (addValueToBitString value count s).block = s.block := by
  unfold addValueToBitString
  generalize (if s.numBits &&& 0x7 ≠ 0 then byteSize - (s.numBits &&& 0x7) else 0) = available
  dsimp only
  split
  . exact flush_store_members s _ count
  . split
    . obtain ⟨hprevious, hblock⟩ :=
        addWholeBytes_members (flushBitString (s.store available (value >>> (count - available)))) value
          (count - available)
      obtain ⟨hprevious', hblock'⟩ := flush_store_members s (value >>> (count - available)) available
      rw [hprevious'] at hprevious
      rw [hblock'] at hblock
      split
      . exact ⟨hprevious, hblock⟩
      . exact ⟨hprevious, hblock⟩
    . split
      . exact addWholeBytes_members s value count
      . exact addWholeBytes_members s value count

end Members

section Writes

variable {s : Encoder} {bits : List Bool}

theorem Encoder.Writes.numBits (h : s.Writes bits) : s.numBits % 8 = bits.length % 8 := by
  obtain ⟨rest, hbits, hrest, hnum, _⟩ := h
  rw [hnum, hbits, length_append, length_bytesBits]
  omega

theorem Encoder.Writes.push (h : s.Writes bits) (count : Nat) (hpos : 0 < count)
    (hfits : bits.length % 8 + count ≤ 8) (hlt : value < 2 ^ count)
    : (flushBitString (s.store count (value * 2 ^ (8 - bits.length % 8 - count)))).Writes
        (bits ++ bitsOf count value) := by
  have hmod := h.numBits
  obtain ⟨rest, hbits, hrest, hnum, hstore⟩ := h
  have hr : bits.length % 8 = rest.length := by rw [← hmod, hnum]
  rw [hr] at hfits ⊢
  have hlen : (rest ++ bitsOf count value).length = rest.length + count := by
    rw [length_append, length_bitsOf]
  have hof : ofBits (rest ++ bitsOf count value) = ofBits rest * 2 ^ count + value := by
    rw [ofBits_append, length_bitsOf, ofBits_bitsOf_of_lt hlt]
  have hbyte : (s.bitsStore + UInt8.ofNat (value * 2 ^ (8 - rest.length - count))).toNat
      =
    ofBits (rest ++ bitsOf count value) * 2 ^ (8 - (rest ++ bitsOf count value).length) := by
    have hexp : 8 - rest.length = count + (8 - rest.length - count) := by omega
    have hbound : ofBits (rest ++ bitsOf count value) * 2 ^ (8 - rest.length - count) < 2 ^ 8 := by
      have hlt' := ofBits_lt (rest ++ bitsOf count value)
      have hpow : (2 : Nat) ^ 8 = 2 ^ (rest.length + count) * 2 ^ (8 - rest.length - count) := by
        rw [← Nat.pow_add]
        congr 1
        omega
      rw [hlen] at hlt'
      rw [hpow]
      exact Nat.mul_lt_mul_of_pos_right hlt' (Nat.two_pow_pos _)
    have hsum : ofBits rest * 2 ^ (8 - rest.length) + value * 2 ^ (8 - rest.length - count)
        =
      ofBits (rest ++ bitsOf count value) * 2 ^ (8 - rest.length - count) := by
      rw [hof, Nat.add_mul, Nat.mul_assoc, ← Nat.pow_add, ← hexp]
    rw [UInt8.toNat_add, UInt8.toNat_ofNat', Nat.add_mod_mod, hstore, hsum, hlen, ← Nat.sub_sub]
    exact Nat.mod_eq_of_lt hbound
  unfold flushBitString
  split
  . next hfull =>
    have hfull' : (s.numBits + count) % 2 ^ 32 % 8 = 0 := hfull
    have height : rest.length + count = 8 := by omega
    refine ⟨[], ?_, Nat.zero_lt_succ 7, ?_, rfl⟩
    . dsimp only [Encoder.store]
      rw [bytesBits_append, bytesBits_cons, bytesBits_nil, hbyte, hlen, height, Nat.sub_self, Nat.pow_zero,
        Nat.mul_one, hbits, append_nil, append_nil, append_assoc]
      congr 1
      have hround := bitsOf_ofBits (rest ++ bitsOf count value)
      rw [hlen, height] at hround
      exact hround.symm
    . exact hfull
  . next hpart =>
    have hpart' : (s.numBits + count) % 2 ^ 32 % 8 ≠ 0 := hpart
    refine ⟨rest ++ bitsOf count value, ?_, ?_, ?_, hbyte⟩
    . rw [hbits, append_assoc]
      rfl
    . rw [hlen]
      omega
    . rw [hlen]
      dsimp only [Encoder.store]
      omega

theorem Encoder.Writes.start {count : Nat} (h : s.Writes bits) (haligned : bits.length % 8 = 0)
    (hpos : 0 < count) (hfits : count < 8) (hlt : value < 2 ^ count)
    : (s.store count (value * 2 ^ (8 - count))).Writes (bits ++ bitsOf count value) := by
  have hpush := h.push count hpos (by omega) hlt
  have hnum := h.numBits
  unfold flushBitString at hpush
  rw [haligned] at hpush hnum
  rw [if_neg] at hpush
  . exact hpush
  . dsimp only [Encoder.store, byteSize]
    omega

theorem addWholeBytes_writes (bitsLeft value : Nat) (h : s.Writes bits) (haligned : bits.length % 8 = 0)
    : (addWholeBytes value bitsLeft s).2 = bitsLeft % 8 ∧ (addWholeBytes value bitsLeft s).1.Writes
        (bits ++ bitsOf (bitsLeft - bitsLeft % 8) (value / 2 ^ (bitsLeft % 8))) := by
  fun_induction addWholeBytes value bitsLeft s generalizing bits with
  | case1 bitsLeft s hle ih =>
    unfold byteSize at *
    have hbyte : (value >>> (bitsLeft - 8)) &&& 0xFF = value / 2 ^ (bitsLeft - 8) % 2 ^ 8 := by
      rw [Nat.shiftRight_eq_div_pow]
      exact Nat.and_two_pow_sub_one_eq_mod _ 8
    rw [hbyte] at ih ⊢
    have hpush := h.push 8 (by decide) (by omega)
      (Nat.mod_lt (value / 2 ^ (bitsLeft - 8)) (Nat.two_pow_pos 8))
    rw [haligned, Nat.sub_zero, Nat.sub_self, Nat.pow_zero, Nat.mul_one, bitsOf_mod (Nat.le_refl 8)] at hpush
    have hlen : (bits ++ bitsOf 8 (value / 2 ^ (bitsLeft - 8))).length % 8 = 0 := by
      rw [length_append, length_bitsOf]
      omega
    obtain ⟨hleft, hwrites⟩ := ih hpush hlen
    have hmod : (bitsLeft - 8) % 8 = bitsLeft % 8 := by omega
    rw [hmod] at hleft hwrites
    refine ⟨hleft, ?_⟩
    have hsplit : bitsLeft - bitsLeft % 8 = 8 + (bitsLeft - 8 - bitsLeft % 8) := by omega
    have hexp : bitsLeft % 8 + (bitsLeft - 8 - bitsLeft % 8) = bitsLeft - 8 := by omega
    rw [hsplit, bitsOf_add, Nat.div_div_eq_div_mul, ← Nat.pow_add, hexp, ← append_assoc]
    exact hwrites
  | case2 bitsLeft s hlt =>
    unfold byteSize at hlt
    have hmod : bitsLeft % 8 = bitsLeft := Nat.mod_eq_of_lt (by omega)
    rw [hmod, Nat.sub_self]
    refine ⟨rfl, ?_⟩
    rw [bitsOf, append_nil]
    exact h

theorem addRest_writes {bitsLeft : Nat} (h : s.Writes bits) (haligned : bits.length % 8 = 0)
    : (if (addWholeBytes value bitsLeft s).2 ≠ 0 then
        (addWholeBytes value bitsLeft s).1.store (addWholeBytes value bitsLeft s).2
          ((value &&& (1 <<< (addWholeBytes value bitsLeft s).2 - 1))
            <<< (byteSize - (addWholeBytes value bitsLeft s).2))
      else
        (addWholeBytes value bitsLeft s).1).Writes
      (bits ++ bitsOf bitsLeft value) := by
  obtain ⟨hleft, hwrites⟩ := addWholeBytes_writes bitsLeft value h haligned
  have hsplit : bitsOf bitsLeft value
      =
    bitsOf (bitsLeft - bitsLeft % 8) (value / 2 ^ (bitsLeft % 8)) ++ bitsOf (bitsLeft % 8) value := by
    rw [← bitsOf_add]
    congr 1
    omega
  rw [hsplit, ← append_assoc, hleft]
  split
  . next hne =>
    have hmask : value &&& (1 <<< (bitsLeft % 8) - 1) = value % 2 ^ (bitsLeft % 8) := by
      rw [Nat.one_shiftLeft, Nat.and_two_pow_sub_one_eq_mod]
    rw [hmask, Nat.shiftLeft_eq, ← bitsOf_mod (Nat.le_refl (bitsLeft % 8)) value]
    unfold byteSize
    apply hwrites.start
    . rw [length_append, length_bitsOf]
      omega
    . omega
    . omega
    . exact Nat.mod_lt _ (Nat.two_pow_pos _)
  . next hzero =>
    have hzero' : bitsLeft % 8 = 0 := by omega
    rw [hzero'] at hwrites ⊢
    rw [bitsOf.eq_1 value, append_nil]
    exact hwrites

theorem addValueToBitString_writes {count : Nat} (h : s.Writes bits) (hpos : 0 < count)
    (hlt : value < 2 ^ count)
    : (addValueToBitString value count s).Writes (bits ++ bitsOf count value) := by
  have hnum := h.numBits
  have hand : s.numBits &&& 0x7 = bits.length % 8 := by
    rw [← hnum]
    exact Nat.and_two_pow_sub_one_eq_mod s.numBits 3
  unfold addValueToBitString
  rw [hand]
  by_cases haligned : bits.length % 8 = 0
  . have havailable : (if bits.length % 8 ≠ 0 then byteSize - bits.length % 8 else 0) = 0 := by
      rw [haligned]
      rfl
    rw [havailable]
    dsimp only
    rw [if_neg (by omega), if_neg (Nat.lt_irrefl 0)]
    exact addRest_writes h haligned
  . have havailable : (if bits.length % 8 ≠ 0 then byteSize - bits.length % 8 else 0) = 8 - bits.length % 8 :=
      if_pos haligned
    rw [havailable]
    dsimp only
    split
    . next hle =>
      rw [Nat.shiftLeft_eq]
      exact h.push count hpos (by omega) hlt
    . next hgt =>
      have havailable' : 8 - bits.length % 8 > 0 := by omega
      rw [if_pos havailable']
      dsimp only
      have hsplit : bitsOf count value
          =
        bitsOf (8 - bits.length % 8) (value / 2 ^ (count - (8 - bits.length % 8)))
          ++ bitsOf (count - (8 - bits.length % 8)) value := by
        rw [← bitsOf_add]
        congr 1
        omega
      have hdiv : value / 2 ^ (count - (8 - bits.length % 8)) < 2 ^ (8 - bits.length % 8) := by
        apply Nat.div_lt_of_lt_mul
        rw [← Nat.pow_add]
        have hexp : count - (8 - bits.length % 8) + (8 - bits.length % 8) = count := by omega
        rw [hexp]
        exact hlt
      have hpush := h.push (8 - bits.length % 8) (by omega) (by omega) hdiv
      rw [Nat.sub_self, Nat.pow_zero, Nat.mul_one, ← Nat.shiftRight_eq_div_pow] at hpush
      rw [hsplit, ← append_assoc, ← Nat.shiftRight_eq_div_pow]
      apply addRest_writes hpush
      rw [length_append, length_bitsOf]
      omega

end Writes

structure Encoder.Encodes (s : Encoder) (block : Block) (previous : Nat) (bits : List Bool) : Prop where
  writes : s.Writes bits
  block_eq : s.block = block
  previous_eq : s.previousValue = previous

section Encodes

variable {s : Encoder} {block : Block} {previous : Nat} {bits : List Bool}

section

variable (h : s.Encodes block previous bits)
include h

theorem Encoder.Encodes.add {count : Nat} (hpos : 0 < count) (hlt : value < 2 ^ count)
    : (addValueToBitString value count s).Encodes block previous (bits ++ bitsOf count value) := by
  obtain ⟨hprevious, hblock⟩ := addValueToBitString_members s value count
  constructor
  . exact addValueToBitString_writes h.writes hpos hlt
  . rw [hblock, h.block_eq]
  . rw [hprevious, h.previous_eq]

theorem Encoder.Encodes.addBit (value : Nat) (hlt : value < 2)
    : (addValueToBitString value 1 s).Encodes block previous (bits ++ [value.testBit 0]) :=
  h.add (by decide) hlt

theorem appendValue_encodes (hvalid : block.Valid)
    (hprevious : previous < 2 ^ floatSize) (hvalue : value < 2 ^ floatSize)
    : (appendValue value s).Encodes (block.next (previous ^^^ value)) value
        (bits ++ block.valueBits (previous ^^^ value)) := by
  have hx : previous ^^^ value < 2 ^ floatSize := Nat.xor_lt_two_pow hprevious hvalue
  have hleading : s.previousValueLeadingZeros = block.leading := congrArg Block.leading h.block_eq
  have htrailing : s.previousValueTrailingZeros = block.trailing := congrArg Block.trailing h.block_eq
  unfold appendValue
  rw [h.previous_eq]
  dsimp only
  by_cases hzero : previous ^^^ value = 0
  . have hsame : previous = value := Nat.xor_eq_zero_iff.mp hzero
    rw [if_pos hzero, Block.next, if_pos (Or.inl hzero), Block.valueBits, if_pos hzero, ← hsame]
    exact h.addBit 0 (by decide)
  . have hone := h.addBit 1 (by decide)
    have hleading' : (addValueToBitString 1 1 s).previousValueLeadingZeros = block.leading :=
      congrArg Block.leading hone.block_eq
    have htrailing' : (addValueToBitString 1 1 s).previousValueTrailingZeros = block.trailing :=
      congrArg Block.trailing hone.block_eq
    have hsize : floatSize - block.trailing - block.leading = block.size := by
      unfold Block.size
      omega
    rw [if_neg hzero, ofXor_leading, hleading', htrailing', hsize, Block.valueBits, if_neg hzero]
    by_cases hreuse : block.Reused (previous ^^^ value)
    . have hcovers := hreuse.covers hx
      have htwo := hone.addBit 1 (by decide)
      have htrailing'' : (addValueToBitString 1 1 (addValueToBitString 1 1 s)).previousValueTrailingZeros
          =
        block.trailing :=
        congrArg Block.trailing htwo.block_eq
      have hfinal := htwo.add hvalid.size_pos (hcovers.lt_size hvalid)
      rw [if_pos hreuse, Block.next, if_pos (Or.inr hreuse), htrailing'', Nat.shiftRight_eq_div_pow]
      split
      . constructor
        . have hwrites := hfinal.writes
          rw [append_assoc, append_assoc] at hwrites
          exact hwrites
        . exact hfinal.block_eq
        . rfl
      . next hnot => exact absurd hreuse hnot
    . have hcovers := ofXor_covers hx
      have hnew := ofXor_valid hzero hx
      have hnewPos := hnew.size_pos
      have hnewLe := (Block.ofXor (previous ^^^ value)).size_le
      have hleadingLt : (Block.ofXor (previous ^^^ value)).leading < 2 ^ kLeadingZerosLengthBits :=
        Nat.lt_succ_of_le hnew.leading_le
      have hsizeLt : (Block.ofXor (previous ^^^ value)).size - kBlockSizeAdjustment <
        2 ^ kBlockSizeLengthBits := by
        unfold kBlockSizeAdjustment kBlockSizeLengthBits
        unfold floatSize at hnewLe
        omega
      have hfinal := (((hone.addBit 0 (by decide)).add (by decide) hleadingLt).add (by decide)
        hsizeLt).add hnewPos (hcovers.lt_size hnew)
      rw [if_neg hreuse, Block.next, if_neg (not_or.mpr ⟨hzero, hreuse⟩)]
      split
      . next hyes => exact absurd hyes hreuse
      . rw [Nat.shiftRight_eq_div_pow]
        constructor
        . have hwrites := hfinal.writes
          simp only [append_assoc] at hwrites ⊢
          exact hwrites
        . rfl
        . rfl

theorem foldl_appendValue_encodes {vals : List Nat} (hvalid : block.Valid)
    (hprevious : previous < 2 ^ floatSize) (hvals : ∀ v ∈ vals, v < 2 ^ floatSize)
    : (vals.foldl (fun s value => appendValue value s) s).Writes
      (bits ++ block.streamBits previous vals) := by
  induction vals generalizing s block previous bits with
  | nil =>
    rw [Block.streamBits, append_nil]
    exact h.writes
  | cons value vals ih =>
    have hvalue : value < 2 ^ floatSize := hvals value mem_cons_self
    rw [foldl_cons, Block.streamBits, ← append_assoc]
    apply ih
    . exact appendValue_encodes h hvalid hprevious hvalue
    . exact hvalid.next (Nat.xor_lt_two_pow hprevious hvalue)
    . exact hvalue
    . intro v hv
      exact hvals v (mem_cons_of_mem value hv)

end

theorem flushLastBitString_writes (h : s.Writes bits)
    : ∃ padding : List Bool, padding.length < 8 ∧
        bytesBits (flushLastBitString s).outbuf = bits ++ padding := by
  obtain ⟨rest, hbits, hrest, hnum, hstore⟩ := h
  unfold flushLastBitString byteSize
  rw [hnum]
  split
  . next hne =>
    refine ⟨bitsOf (8 - rest.length) s.bitsStore.toNat, ?_, ?_⟩
    . rw [length_bitsOf]
      omega
    . have hsplit : bitsOf 8 s.bitsStore.toNat = rest ++ bitsOf (8 - rest.length) s.bitsStore.toNat := by
        have height : 8 = rest.length + (8 - rest.length) := by omega
        have hdiv : s.bitsStore.toNat / 2 ^ (8 - rest.length) = ofBits rest := by
          rw [hstore, Nat.mul_div_cancel _ (Nat.two_pow_pos _)]
        have hadd := bitsOf_add rest.length (8 - rest.length) s.bitsStore.toNat
        rw [← height, hdiv, bitsOf_ofBits] at hadd
        exact hadd
      dsimp only
      rw [bytesBits_append, bytesBits_cons, bytesBits_nil, append_nil, hsplit, hbits, append_assoc]
  . next hzero =>
    have hnil : rest = [] := eq_nil_of_length_eq_zero (Decidable.not_not.mp hzero)
    refine ⟨[], Nat.zero_lt_succ 7, ?_⟩
    rw [hbits, hnil, append_nil, append_nil]

end Encodes

theorem compress_bits {w : ValSize} {inbuf : Bytes} (hvals : ∀ v ∈ readValues w inbuf, v < 2 ^ floatSize)
    : ∃ padding : List Bool, padding.length < 8 ∧
        bytesBits (compress inbuf w) = (Block.mk 0 0).streamBits 0 (readValues w inbuf) ++ padding := by
  have hnew : Encoder.new.Encodes ⟨0, 0⟩ 0 [] := by
    constructor
    . exact ⟨[], rfl, Nat.zero_lt_succ 7, rfl, rfl⟩
    . rfl
    . rfl
  exact flushLastBitString_writes
    (foldl_appendValue_encodes hnew Block.valid_zero (Nat.two_pow_pos floatSize) hvals)

end Encode

section Decode

variable (inbuf : Bytes)

def decoderAt (previous : Nat) (block : Block) (bitPos : Nat) : Decoder where
  previousValue := previous
  previousLeadingZeros := block.leading
  previousTrailingZeros := block.trailing
  bitPos := bitPos
  inPos := bitPos / 8 + 1
  bitsStore := inbuf.getD (bitPos / 8) 0

variable {inbuf : Bytes} (previous : Nat) (block : Block) {bitPos : Nat} {rest : List Bool}

theorem readValueLoop_at {bits : List Bool} (h : (bytesBits inbuf).drop bitPos = bits ++ rest)
    (hlen : bits.length ≤ 64) (hvalue : value < 2 ^ (64 - bits.length))
    : readValueLoop inbuf bits.length value (decoderAt inbuf previous block bitPos)
        =
      (value * 2 ^ bits.length + ofBits bits, decoderAt inbuf previous block (bitPos + bits.length)) := by
  induction bits generalizing value bitPos with
  | nil =>
    rw [length_nil, readValueLoop, Nat.pow_zero, Nat.mul_one]
    rfl
  | cons bit bits ih =>
    obtain ⟨hbit, hdrop, hpos⟩ := bit_of_drop h
    have hand : bitPos &&& 0x7 = bitPos % 8 := Nat.and_two_pow_sub_one_eq_mod bitPos 3
    have hread : ((inbuf.getD (bitPos / 8) 0).toNat >>> (7 - bitPos % 8)) &&& 1 = bit.toNat := by
      rw [← hbit, Nat.testBit, Nat.and_comm 1, Nat.and_one_is_mod]
      rcases Nat.mod_two_eq_zero_or_one ((inbuf.getD (bitPos / 8) 0).toNat >>> (7 - bitPos % 8)) with h0 | h1
      . rw [h0]
        rfl
      . rw [h1]
        rfl
    have hbitLe : bit.toNat ≤ 1 := Bool.toNat_le bit
    rw [length_cons] at hlen hvalue
    have hnext : 2 * value + bit.toNat < 2 ^ (64 - bits.length) := by
      have hexp : 64 - bits.length = 64 - (bits.length + 1) + 1 := by omega
      rw [hexp, Nat.pow_succ]
      omega
    have hnext64 : 2 * value + bit.toNat < 2 ^ 64 := by
      apply Nat.lt_of_lt_of_le hnext
      apply Nat.pow_le_pow_right (by decide)
      omega
    have hacc : ((value <<< 1) % 2 ^ 64 + bit.toNat) % 2 ^ 64 = 2 * value + bit.toNat := by
      rw [Nat.shiftLeft_eq]
      omega
    have hresult : (2 * value + bit.toNat) * 2 ^ bits.length + ofBits bits
        =
      value * 2 ^ (bits.length + 1) + ofBits (bit :: bits) := by
      rw [ofBits_cons, Nat.pow_succ]
      ring
    have hnextPos : bitPos + (bits.length + 1) = bitPos + 1 + bits.length := by omega
    rw [length_cons, hnextPos, ← hresult, ← ih hdrop (by omega) hnext, readValueLoop]
    split
    . next hbyte =>
      have hdiv : (bitPos + 1) / 8 = bitPos / 8 + 1 := by
        have hbyte' : (bitPos + 1) % 8 = 0 := hbyte
        omega
      dsimp only [decoderAt, Decoder.readByte]
      rw [hand, hread, hacc, hdiv]
    . next hbyte =>
      have hdiv : (bitPos + 1) / 8 = bitPos / 8 := by
        have hbyte' : ¬ (bitPos + 1) % 8 = 0 := hbyte
        omega
      dsimp only [decoderAt]
      rw [hand, hread, hacc, hdiv]

theorem readValueFromBitString_at {count : Nat}
    (h : (bytesBits inbuf).drop bitPos = bitsOf count value ++ rest)
    (hcount : count ≤ 64) (hvalue : value < 2 ^ count)
    : readValueFromBitString inbuf count (decoderAt inbuf previous block bitPos)
        =
      (value, decoderAt inbuf previous block (bitPos + count)) ∧
      (bytesBits inbuf).drop (bitPos + count) = rest := by
  have hlen : (bitsOf count value).length ≤ 64 := by
    rw [length_bitsOf]
    exact hcount
  have hread := readValueLoop_at previous block h hlen (Nat.two_pow_pos _)
  rw [length_bitsOf, ofBits_bitsOf_of_lt hvalue, Nat.zero_mul, Nat.zero_add] at hread
  refine ⟨hread, ?_⟩
  rw [← drop_drop, h, drop_left' (length_bitsOf count value)]

theorem readBit_at {bit : Bool} (h : (bytesBits inbuf).drop bitPos = bit :: rest)
    : readValueFromBitString inbuf 1 (decoderAt inbuf previous block bitPos)
        =
      (bit.toNat, decoderAt inbuf previous block (bitPos + 1)) ∧
      (bytesBits inbuf).drop (bitPos + 1) = rest := by
  apply readValueFromBitString_at
  . cases bit
    . exact h
    . exact h
  . decide
  . exact Bool.toNat_lt bit

variable {previous block}

theorem Block.Covers.shiftLeft {x : Nat} (h : block.Covers x) (hx : x < 2 ^ floatSize)
    : ((x / 2 ^ block.trailing) <<< block.trailing) % 2 ^ 64 = x := by
  rw [Nat.shiftLeft_eq, Nat.div_mul_cancel h.dvd]
  exact Nat.mod_eq_of_lt hx

theorem readNextValue_at (previous : Nat) {x : Nat}
    (h : (bytesBits inbuf).drop bitPos = block.valueBits x ++ rest)
    (hvalid : block.Valid) (hx : x < 2 ^ floatSize)
    : readNextValue inbuf (decoderAt inbuf previous block bitPos)
        =
      (previous ^^^ x,
        decoderAt inbuf (previous ^^^ x) (block.next x) (bitPos + (block.valueBits x).length)) := by
  unfold readNextValue
  by_cases hzero : x = 0
  . rw [Block.valueBits, if_pos hzero] at h ⊢
    obtain ⟨hnonZero, _⟩ := readBit_at previous block h
    rw [hnonZero, Block.next, if_pos (Or.inl hzero), hzero, Nat.xor_zero]
    rfl
  . rw [Block.valueBits, if_neg hzero] at h ⊢
    by_cases hreuse : block.Reused x
    . have hcovers := hreuse.covers hx
      rw [if_pos hreuse] at h ⊢
      rw [append_assoc] at h
      obtain ⟨hnonZero, hdrop⟩ := readBit_at previous block h
      obtain ⟨husePrevious, hdrop'⟩ := readBit_at previous block hdrop
      obtain ⟨hxor, _⟩ := readValueFromBitString_at previous block hdrop' block.size_le
        (hcovers.lt_size hvalid)
      rw [hnonZero, Block.next, if_pos (Or.inr hreuse)]
      dsimp only [Bool.toNat_true]
      rw [if_neg Nat.one_ne_zero, husePrevious]
      dsimp only [Bool.toNat_true]
      rw [if_pos Nat.one_ne_zero]
      have hxor' : readValueFromBitString inbuf
          (floatSize - (decoderAt inbuf previous block (bitPos + 1 + 1)).previousLeadingZeros
            - (decoderAt inbuf previous block (bitPos + 1 + 1)).previousTrailingZeros)
          (decoderAt inbuf previous block (bitPos + 1 + 1))
            =
          (x / 2 ^ block.trailing, decoderAt inbuf previous block (bitPos + 1 + 1 + block.size)) :=
        hxor
      rw [hxor']
      dsimp only [decoderAt]
      rw [hcovers.shiftLeft hx, Nat.xor_comm, length_append, length_bitsOf]
      have hpos : bitPos + ([true, true].length + block.size) = bitPos + 1 + 1 + block.size := by
        simp only [length_cons, length_nil]
        omega
      rw [hpos]
    . have hcovers := ofXor_covers hx
      have hnew := ofXor_valid hzero hx
      have hnewPos := hnew.size_pos
      have hnewLe := (Block.ofXor x).size_le
      have hleadingLt : (Block.ofXor x).leading < 2 ^ kLeadingZerosLengthBits :=
        Nat.lt_succ_of_le hnew.leading_le
      have hsizeLt : (Block.ofXor x).size - kBlockSizeAdjustment < 2 ^ kBlockSizeLengthBits := by
        unfold kBlockSizeAdjustment kBlockSizeLengthBits
        unfold floatSize at hnewLe
        omega
      rw [if_neg hreuse] at h ⊢
      simp only [append_assoc] at h
      obtain ⟨hnonZero, hdrop⟩ := readBit_at previous block h
      obtain ⟨husePrevious, hdrop⟩ := readBit_at previous block hdrop
      obtain ⟨hleading, hdrop⟩ := readValueFromBitString_at previous block hdrop (by decide) hleadingLt
      obtain ⟨hsize, hdrop⟩ := readValueFromBitString_at previous block hdrop (by decide) hsizeLt
      obtain ⟨hxor, _⟩ := readValueFromBitString_at previous
        ⟨block.leading, (Block.ofXor x).trailing⟩ hdrop hnewLe
        (hcovers.lt_size hnew)
      have hadjust : (Block.ofXor x).size - kBlockSizeAdjustment + kBlockSizeAdjustment =
        (Block.ofXor x).size :=
        Nat.sub_add_cancel hnewPos
      have htrailing : floatSize - (Block.ofXor x).size - (Block.ofXor x).leading =
        (Block.ofXor x).trailing := by
        have hfits := hnew.fits
        unfold Block.size
        omega
      rw [hnonZero, Block.next, if_neg (not_or.mpr ⟨hzero, hreuse⟩)]
      dsimp only [Bool.toNat_true]
      rw [if_neg Nat.one_ne_zero, husePrevious]
      dsimp only [Bool.toNat_false]
      rw [if_neg (not_not.mpr rfl), hleading]
      dsimp only
      rw [hsize]
      dsimp only
      rw [hadjust, htrailing]
      have hxor' : readValueFromBitString inbuf (Block.ofXor x).size
          { decoderAt inbuf previous block (bitPos + 1 + 1 + kLeadingZerosLengthBits + kBlockSizeLengthBits) with
            previousTrailingZeros := (Block.ofXor x).trailing }
            =
          (x / 2 ^ (Block.ofXor x).trailing,
            decoderAt inbuf previous ⟨block.leading, (Block.ofXor x).trailing⟩
              (bitPos + 1 + 1 + kLeadingZerosLengthBits + kBlockSizeLengthBits + (Block.ofXor x).size)) :=
        hxor
      rw [hxor']
      dsimp only [decoderAt]
      rw [hcovers.shiftLeft hx, Nat.xor_comm]
      simp only [length_append, length_bitsOf, length_cons, length_nil]
      have hpos : bitPos + (0 + 1 + 1 + kLeadingZerosLengthBits + kBlockSizeLengthBits + (Block.ofXor x).size)
            =
          bitPos + 1 + 1 + kLeadingZerosLengthBits + kBlockSizeLengthBits + (Block.ofXor x).size := by
        omega
      rw [hpos]

theorem decompressLoop_at (w : ValSize) {vals : List Nat}
    (h : (bytesBits inbuf).drop bitPos = block.streamBits previous vals ++ rest)
    (hvalid : block.Valid) (hprevious : previous < 2 ^ floatSize) (hvals : ∀ v ∈ vals, v < 2 ^ floatSize)
    : (decompressLoop inbuf w vals.length (decoderAt inbuf previous block bitPos)).1 =
      pack w vals ∧
      (decompressLoop inbuf w vals.length (decoderAt inbuf previous block bitPos)).2.inPos
        =
      (bitPos + (block.streamBits previous vals).length) / 8 + 1 := by
  induction vals generalizing previous block bitPos with
  | nil => exact ⟨rfl, rfl⟩
  | cons value vals ih =>
    have hvalue : value < 2 ^ floatSize := hvals value mem_cons_self
    have hx : previous ^^^ value < 2 ^ floatSize := Nat.xor_lt_two_pow hprevious hvalue
    rw [Block.streamBits, append_assoc] at h
    have hnext := readNextValue_at previous h hvalid hx
    have hdrop : (bytesBits inbuf).drop (bitPos + (block.valueBits (previous ^^^ value)).length)
        =
      (block.next (previous ^^^ value)).streamBits value vals ++ rest := by
      rw [← drop_drop, h, drop_left]
    rw [Nat.xor_xor_cancel_left] at hnext
    obtain ⟨hout, hpos⟩ := ih hdrop (hvalid.next hx) hvalue (fun v hv => hvals v (mem_cons_of_mem value hv))
    rw [length_cons, decompressLoop, hnext, Block.streamBits, length_append, ← Nat.add_assoc]
    dsimp only
    rw [hout, pack_cons]
    exact ⟨rfl, hpos⟩

end Decode

/-- Every list of values comes back, and at most the byte behind the last one is looked at. -/
theorem decompress_compress_xor (w : ValSize) (vals : List Nat) (hne : vals ≠ [])
    (hlt : ∀ v ∈ vals, v < 256 ^ w.val)
    : (decompress (compress (LittleEndian.pack w vals) w) (vals.length * w) w).1 = LittleEndian.pack w vals ∧
      (decompress (compress (LittleEndian.pack w vals) w) (vals.length * w) w).2
        ≤ (compress (LittleEndian.pack w vals) w).length + 1 := by
  have hread := readValues_pack hne hlt
  have hvals : ∀ v ∈ readValues w (LittleEndian.pack w vals), v < 2 ^ floatSize := by
    rw [hread]
    intro v hv
    exact Nat.lt_of_lt_of_le (hlt v hv) (Nat.pow_le_pow_right (by decide) w.le_eight)
  obtain ⟨padding, _, hbits⟩ := compress_bits hvals
  rw [hread] at hvals hbits
  have hcount : vals.length * w.val / w.val = vals.length := Nat.mul_div_cancel _ w.pos
  have hpos : vals.length ≠ 0 := by simpa using hne
  have hdrop : (bytesBits (compress (LittleEndian.pack w vals) w)).drop 0
      =
    (Block.mk 0 0).streamBits 0 vals ++ padding :=
    hbits
  obtain ⟨hout, hin⟩ := decompressLoop_at w hdrop Block.valid_zero (Nat.two_pow_pos floatSize) hvals
  have hlen := congrArg List.length hbits
  rw [length_bytesBits, List.length_append] at hlen
  unfold decompress
  dsimp only
  rw [hcount, if_neg hpos]
  constructor
  . exact hout
  . apply Nat.le_trans (Nat.le_of_eq hin)
    omega

theorem decompress_compress_specials
    : let vals := [0x7FF8000000000000, 0, 0x8000000000000000, 0x8000000000000000, 0xFFFFFFFFFFFFFFFF]
      let inbuf := LittleEndian.pack 8 vals
      (decompress (compress inbuf ⟨8, by decide, by decide⟩) (5 * 8) ⟨8, by decide, by decide⟩).1 = inbuf ∧
        (decompress (compress inbuf ⟨8, by decide, by decide⟩) (5 * 8) ⟨8, by decide, by decide⟩).2
          ≤ (compress inbuf ⟨8, by decide, by decide⟩).length + 1 := by
  apply decompress_compress_xor ⟨8, by decide, by decide⟩
  . simp
  . simp

section Share

variable {w : ValSize} {block : Block} {previous x : Nat}

def share (w : ValSize) : Nat := 8 * (w + 1)

def Block.Narrow (w : ValSize) (block : Block) : Prop := block.size ≤ 8 * w + 1 ∨ block.size = floatSize

theorem le_countLeadingZeros {n k : Nat} (hk : k ≤ n) (h : x < 2 ^ (n - k)) : k ≤ countLeadingZeros n x := by
  induction n generalizing k with
  | zero => exact hk
  | succ n ih =>
    unfold countLeadingZeros
    split
    . next hbit =>
      have hge : 2 ^ n ≤ x := Nat.ge_two_pow_of_testBit hbit
      have hlt : n < n + 1 - k := (Nat.pow_lt_pow_iff_right (by decide)).mp (Nat.lt_of_le_of_lt hge h)
      omega
    . cases k with
      | zero => exact Nat.zero_le _
      | succ k =>
        apply Nat.succ_le_succ
        apply ih
        . omega
        . rw [Nat.add_sub_add_right] at h
          exact h

theorem ofXor_size_le (hw : w.val = 4 ∨ w.val = 8) (hx : x < 256 ^ w.val)
    : (Block.ofXor x).size ≤ 8 * w + 1 := by
  rcases hw with hw | hw
  . have hclz : kMaxLeadingZerosLength ≤ clzll x := by
      apply le_countLeadingZeros
      . decide
      . rw [hw] at hx
        apply Nat.lt_of_lt_of_le hx
        decide
    have hleading : (Block.ofXor x).leading = kMaxLeadingZerosLength := Nat.min_eq_right hclz
    unfold Block.size
    rw [hleading, hw]
    unfold kMaxLeadingZerosLength kLeadingZerosLengthBits floatSize
    omega
  . have hle := (Block.ofXor x).size_le
    unfold floatSize at hle
    omega

theorem Block.Narrow.next (h : block.Narrow w) (hw : w.val = 4 ∨ w.val = 8) (hx : x < 256 ^ w.val)
    : (block.next x).Narrow w := by
  unfold Block.next
  split
  . exact h
  . exact Or.inl (ofXor_size_le hw hx)

theorem Block.Reused.size_le (hreuse : block.Reused x) (h : block.Narrow w) (hw : w.val = 4 ∨ w.val = 8)
    (hx : x < 256 ^ w.val)
    : 2 + block.size ≤ share w := by
  have hnew := ofXor_size_le hw hx
  have hsize := hreuse.right.right
  unfold share
  unfold kLeadingZerosLengthBits kBlockSizeLengthBits at hsize
  rcases h with hnarrow | hfirst
  . omega
  . unfold floatSize at hfirst
    omega

end Share

end XORCodec

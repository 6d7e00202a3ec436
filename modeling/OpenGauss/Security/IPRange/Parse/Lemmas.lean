import OpenGauss.Lib.PrefixBlock
import OpenGauss.Security.IPRange.Lemmas

/-!
This module contains which addresses the texts of ranges denote.
-/

open UInt32 List

namespace IPRange

open PrefixBlock

section Spec

inductive Address where
  | v4 (addr : UInt32)
  | v6 (ip : IPV6)

namespace Address

def ip : Address → IPV6
  | v4 addr => netIpv4ToHostOrder addr
  | v6 ip => ip

def width : Address → Nat
  | v4 _ => 32
  | v6 _ => 128

def Contiguous : Address → Prop
  | v4 addr => ∃ c ≤ 32, addr.toNat = 2 ^ 32 - 2 ^ (32 - c)
  | v6 ip => ∃ c ≤ 128, ip.num = 2 ^ 128 - 2 ^ (128 - c)

def SharesPrefix (address : Address) (c : Nat) (ip : IPV6) : Prop :=
  ip.num / 2 ^ (address.width - c) = address.ip.num / 2 ^ (address.width - c)

def AgreesOn (address mask : Address) (ip : IPV6) : Prop :=
  match mask with
  | v4 m => ∃ addr, ip = netIpv4ToHostOrder addr ∧ addr &&& m = address.ip.a &&& m
  | v6 m => ip.and m = address.ip.and m

end Address

-- The text is one of the address. The longest text of an address has 45 characters.
structure Inet.Reads (inet : Inet) (text : List Char) (address : Address) : Prop where
  reads : match address with
    | .v4 addr => inet.pton6 text = none ∧ inet.pton4 text = some addr
    | .v6 ip => inet.pton6 text = some ⟨ip.d, ip.c, ip.b, ip.a⟩
  plain : ∀ ch ∈ text, ch ≠ '/' ∧ ch ≠ '-' ∧ ch ≠ '|' ∧ ch ≠ ' '
  length_le : text.length ≤ 45

-- What is printed for the address, by the family the code takes it for, is a text of it.
def Inet.Prints (inet : Inet) (ip : IPV6) : Prop :=
  inet.Reads (ipToStr inet ip) (if ip.isIPv4 then .v4 ip.a else .v6 ip)

def Yields (parsed : Option Range) (addresses : IPV6 → Prop) : Prop :=
  ∃ range, parsed = some range ∧ ∀ ip : IPV6, range.first.num ≤ ip.num ∧ ip.num ≤ range.last.num ↔
    addresses ip

def SlashRight (inet : Inet) (text : List Char) (address : Address) (c : Nat) : Prop :=
  if 1 ≤ c ∧ c ≤ address.width then
    Yields (parseRange inet (text ++ '/' :: Nat.toDigits 10 c)) (address.SharesPrefix c)
  else
    parseRange inet (text ++ '/' :: Nat.toDigits 10 c) = none

def HyphenRight (inet : Inet) (text text' : List Char) (address address' : Address) : Prop :=
  if address.ip.num ≤ address'.ip.num then
    parseRange inet (text ++ '-' :: text') = some ⟨address.ip, address'.ip⟩
  else
    parseRange inet (text ++ '-' :: text') = none

def MaskRight (inet : Inet) (text text' : List Char) (address mask : Address) : Prop :=
  mask.Contiguous → address.width ≤ mask.width →
    Yields (parseRange inet (text ++ '|' :: text')) (address.AgreesOn mask)

def RoundTrips (inet : Inet) (range : Range) : Prop :=
  parseRange inet (rangeToStr inet range) = some range

-- The last entry of the table is wrong, and an address may look like one of IPv4.
def Address.MaskOk : Address → Nat → Prop
  | v4 addr, c => c < 32 ∨ addr = 0xFFFFFFFF
  | v6 ip, c => ip.b ≠ 0x0000FFFF ∨ c = 128

instance (address : Address) (c : Nat) : Decidable (address.MaskOk c) :=
  match address with
  | .v4 _ => inferInstanceAs (Decidable (_ ∨ _))
  | .v6 _ => inferInstanceAs (Decidable (_ ∨ _))

def SlashOk (text : List Char) (address : Address) (c : Nat) : Prop :=
  if 1 ≤ c ∧ c ≤ address.width then address.MaskOk c else 100 < text.length + 1 + (Nat.toDigits 10 c).length

instance (text : List Char) (address : Address) (c : Nat) : Decidable (SlashOk text address c) :=
  inferInstanceAs (Decidable (if 1 ≤ c ∧ c ≤ address.width then address.MaskOk c
    else 100 < text.length + 1 + (Nat.toDigits 10 c).length))

-- An address whose second word is the one of IPv4 is printed as its lowest word.
def Printable (ip : IPV6) : Prop := ip.b ≠ 0x0000FFFF ∨ ip.c = 0 ∧ ip.d = 0

instance (ip : IPV6) : Decidable (Printable ip) := inferInstanceAs (Decidable (_ ∨ _))

instance (x y : IPV6) : Decidable (IPV6.Agree x y) := inferInstanceAs (Decidable (¬_))

end Spec

section Parsing

variable {inet : Inet} {text text' : List Char} {address address' : Address}

theorem memchr_append {ch : Char} (h : ∀ c ∈ text, c ≠ ch) (rest : List Char)
    : memchr ch (text ++ ch :: rest) = some (text, rest) := by
  induction text with
  | nil => simp [memchr]
  | cons c text ih =>
    have ih := ih fun c' hc' => h c' (mem_cons_of_mem _ hc')
    simp [memchr, h c mem_cons_self, ih]

theorem memchr_eq_none {ch : Char} (h : ∀ c ∈ text, c ≠ ch) : memchr ch text = none := by
  induction text with
  | nil => rfl
  | cons c text ih =>
    have ih := ih fun c' hc' => h c' (mem_cons_of_mem _ hc')
    simp [memchr, h c mem_cons_self, ih]

variable (h : inet.Reads text address)
include h

theorem Inet.Reads.copyWithoutSpaces : copyWithoutSpaces text = text := by
  have hlength := h.length_le
  have hfilter : text.filter (· ≠ ' ') = text := by
    rw [filter_eq_self]
    intro ch hch
    simp [(h.plain ch hch).2.2.2]
  unfold IPRange.copyWithoutSpaces ipMaxLen
  split
  . next hempty =>
    have hzero : text.length = 0 := by omega
    exact (eq_nil_of_length_eq_zero hzero).symm
  . exact hfilter

theorem Inet.Reads.strToIp : strToIp inet text = some address.ip := by
  have hreads := h.reads
  unfold IPRange.strToIp
  cases address with
  | v4 addr =>
    rw [hreads.1, hreads.2]
    rfl
  | v6 ip =>
    rw [hreads]
    rfl

theorem Inet.Reads.strToIp_copy
    : IPRange.strToIp inet (IPRange.copyWithoutSpaces text) = some address.ip := by
  rw [h.copyWithoutSpaces, h.strToIp]

theorem parseRange_slash (behind : List Char) : parseRange inet (text ++ '/' :: behind)
      =
    if 100 < text.length + 1 + behind.length then none
    else some (maskRange ⟨address.ip, address.ip⟩ (atoiUnsignedShort behind)).2 := by
  unfold parseRange
  rw [memchr_append (fun ch hch => (h.plain ch hch).1)]
  have hlength : (text ++ '/' :: behind).length = text.length + 1 + behind.length := by
    rw [length_append, length_cons]
    omega
  simp only [parseSlash, hlength, h.strToIp_copy]
  split
  . rfl
  . rfl

theorem parseRange_hyphen (h' : inet.Reads text' address') : parseRange inet (text ++ '-' :: text')
      =
    if address.ip.gt address'.ip then none else some ⟨address.ip, address'.ip⟩ := by
  have hslash : ∀ ch ∈ text ++ '-' :: text', ch ≠ '/' := by
    intro ch hch
    rw [mem_append, mem_cons] at hch
    cases hch with
    | inl hch => exact (h.plain ch hch).1
    | inr hch =>
      cases hch with
      | inl hch =>
        rw [hch]
        decide
      | inr hch => exact (h'.plain ch hch).1
  have hlength : (text ++ '-' :: text').length ≤ 100 := by
    have := h.length_le
    have := h'.length_le
    rw [length_append, length_cons]
    omega
  unfold parseRange
  rw [memchr_eq_none hslash, memchr_append (fun ch hch => (h.plain ch hch).2.1)]
  simp only [parseHyphen, if_neg (Nat.not_lt.mpr hlength), h.strToIp_copy, h'.strToIp_copy]
  cases hgt : address.ip.gt address'.ip with
  | false => simp [hgt]
  | true => simp [hgt]

theorem parseRange_mask (h' : inet.Reads text' address') : parseRange inet (text ++ '|' :: text')
      =
    some (if address'.ip.b = 0x0000FFFF then
      ⟨netIpv4ToHostOrder (address.ip.a &&& address'.ip.a),
        netIpv4ToHostOrder (address.ip.a ||| ~~~address'.ip.a)⟩
    else ⟨address.ip.and address'.ip, address.ip.or address'.ip.not⟩) := by
  have hother : ∀ ch ∈ text ++ '|' :: text', ch ≠ '/' ∧ ch ≠ '-' := by
    intro ch hch
    rw [mem_append, mem_cons] at hch
    cases hch with
    | inl hch => exact ⟨(h.plain ch hch).1, (h.plain ch hch).2.1⟩
    | inr hch =>
      cases hch with
      | inl hch =>
        rw [hch]
        decide
      | inr hch => exact ⟨(h'.plain ch hch).1, (h'.plain ch hch).2.1⟩
  have hlength : (text ++ '|' :: text').length ≤ 100 := by
    have := h.length_le
    have := h'.length_le
    rw [length_append, length_cons]
    omega
  unfold parseRange
  rw [memchr_eq_none (fun ch hch => (hother ch hch).1), memchr_eq_none (fun ch hch => (hother ch hch).2),
    memchr_append (fun ch hch => (h.plain ch hch).2.2.1)]
  simp only [parseMask, if_neg (Nat.not_lt.mpr hlength), h.strToIp_copy, h'.strToIp_copy]
  by_cases hword : address'.ip.b = 0x0000FFFF
  . simp [hword, netIpv4ToHostOrder]
  . simp [hword]

theorem parseRange_single : parseRange inet text = some ⟨address.ip, address.ip⟩ := by
  have hlength : text.length ≤ 100 := by
    have := h.length_le
    omega
  unfold parseRange
  rw [memchr_eq_none (fun ch hch => (h.plain ch hch).1), memchr_eq_none (fun ch hch => (h.plain ch hch).2.1),
    memchr_eq_none (fun ch hch => (h.plain ch hch).2.2.1)]
  simp [parseSingle, if_neg (Nat.not_lt.mpr hlength), h.strToIp_copy]

end Parsing

section Masks

namespace IPV6

theorem num_eq (ip : IPV6)
    : ip.num = 2 ^ 32 * (2 ^ 32 * (2 ^ 32 * ip.d.toNat + ip.c.toNat) + ip.b.toNat) + ip.a.toNat := by
  unfold num upper lower
  omega

theorem exists_num {n : Nat} (h : n < 2 ^ 128) : ∃ ip : IPV6, ip.num = n := by
  refine ⟨⟨ofNat n, ofNat (n / 2 ^ 32), ofNat (n / 2 ^ 64), ofNat (n / 2 ^ 96)⟩, ?_⟩
  rw [num_eq]
  simp only [toNat_ofNat']
  omega

theorem num_and (x y : IPV6) : (x.and y).num = x.num &&& y.num := by
  have ha := x.a.toNat_lt
  have hb := x.b.toNat_lt
  have hc := x.c.toNat_lt
  have ha' := y.a.toNat_lt
  have hb' := y.b.toNat_lt
  have hc' := y.c.toNat_lt
  rw [num_eq, num_eq, num_eq, and_append _ _ ha ha', and_append _ _ hb hb', and_append _ _ hc hc']
  simp [and]

theorem num_or (x y : IPV6) : (x.or y).num = x.num ||| y.num := by
  have ha := x.a.toNat_lt
  have hb := x.b.toNat_lt
  have hc := x.c.toNat_lt
  have ha' := y.a.toNat_lt
  have hb' := y.b.toNat_lt
  have hc' := y.c.toNat_lt
  rw [num_eq, num_eq, num_eq, or_append _ _ ha ha', or_append _ _ hb hb', or_append _ _ hc hc']
  simp [or]

theorem toNat_not (x : UInt32) : (~~~x).toNat = 2 ^ 32 - 1 - x.toNat := by
  have := UInt32.toNat_not x
  have := x.toNat_lt
  omega

theorem num_not (x : IPV6) : x.not.num = 2 ^ 128 - 1 - x.num := by
  have := x.a.toNat_lt
  have := x.b.toNat_lt
  have := x.c.toNat_lt
  have := x.d.toNat_lt
  rw [num_eq, num_eq]
  simp only [not, toNat_not]
  omega

theorem num_netIpv4ToHostOrder (addr : UInt32)
    : (netIpv4ToHostOrder addr).num = 2 ^ 32 * 0xFFFF + addr.toNat := by
  have hword : (0x0000FFFF : UInt32).toNat = 0xFFFF := by decide
  have hzero : (0 : UInt32).toNat = 0 := by decide
  rw [num_eq]
  simp only [netIpv4ToHostOrder, hword, hzero]
  omega

end IPV6

theorem maskFrom_eq {k : Nat} (h : k < 32) : (maskFrom k).toNat = 2 ^ 32 - 2 ^ ((32 - k) % 32) := by
  revert k
  decide

theorem maskTo_eq {k : Nat} (h : k < 32) : (maskTo k).toNat = 2 ^ ((32 - k) % 32) - 1 := by
  revert k
  decide

theorem mask_32 : maskFrom 32 = 0xFFFFFFFF ∧ maskTo 32 = 0xFFFFFFFF := by
  decide

theorem word_block (x : UInt32) {k : Nat} (h : k < 32)
    : Block ((32 - k) % 32) (x &&& maskFrom k).toNat (x ||| maskTo k).toNat x.toNat := by
  rw [UInt32.toNat_and, UInt32.toNat_or, maskFrom_eq h, maskTo_eq h]
  apply block_of_masks x.toNat_lt
  omega

theorem toNat_zero : (0 : UInt32).toNat = 0 := rfl

theorem toNat_ones : (0xFFFFFFFF : UInt32).toNat = 2 ^ 32 - 1 := by
  decide

theorem maskRange_v6 {ip : IPV6} (hip : ip.isIPv4 = false) {c : Nat} (hpos : 1 ≤ c) (hle : c ≤ 128)
    : Block (128 - c) (maskRange ⟨ip, ip⟩ c).2.first.num (maskRange ⟨ip, ip⟩ c).2.last.num ip.num := by
  have hcomplement : c % 32 < 32 := Nat.mod_lt c (by decide)
  have ha := ip.a.toNat_lt
  have hb := ip.b.toNat_lt
  have hc := ip.c.toNat_lt
  unfold maskRange
  dsimp only
  rw [if_neg (by simp [hip]), if_neg (by omega : ¬(c < 1 ∨ 128 < c))]
  by_cases h96 : 96 < c
  . rw [if_pos h96]
    have hblock := (word_block ip.a hcomplement).append_left (by omega : (32 - c % 32) % 32 ≤ 32)
      (2 ^ 32 * (2 ^ 32 * ip.d.toNat + ip.c.toNat) + ip.b.toNat)
    rw [(by omega : 128 - c = (32 - c % 32) % 32)]
    simp only [IPV6.num_eq]
    exact hblock
  . rw [if_neg h96]
    by_cases h64 : 64 < c
    . rw [if_pos h64]
      have hblock := ((word_block ip.b hcomplement).append_left (by omega : (32 - c % 32) % 32 ≤ 32)
        (2 ^ 32 * ip.d.toNat + ip.c.toNat)).append_right ha
      rw [(by omega : 128 - c = 32 + (32 - c % 32) % 32)]
      simp only [IPV6.num_eq, toNat_zero, toNat_ones, Nat.add_zero]
      exact hblock
    . rw [if_neg h64]
      by_cases h32 : 32 < c
      . rw [if_pos h32]
        have hblock := (((word_block ip.c hcomplement).append_left (by omega : (32 - c % 32) % 32 ≤ 32)
          ip.d.toNat).append_right hb).append_right ha
        rw [(by omega : 128 - c = 32 + (32 + (32 - c % 32) % 32))]
        simp only [IPV6.num_eq, toNat_zero, toNat_ones, Nat.add_zero]
        exact hblock
      . rw [if_neg h32]
        have hblock := (((word_block ip.d hcomplement).append_right hc).append_right hb).append_right ha
        rw [(by omega : 128 - c = 32 + (32 + (32 + (32 - c % 32) % 32)))]
        simp only [IPV6.num_eq, toNat_zero, toNat_ones, Nat.add_zero]
        exact hblock

end Masks

section Slash

variable {inet : Inet} {text : List Char} {address : Address} {range : Range} {c : Nat}

theorem atoiUnsignedShort_toDigits (h : c ≤ 128) : atoiUnsignedShort (Nat.toDigits 10 c) = c := by
  revert c
  decide

theorem length_toDigits_le (h : c ≤ 128) : (Nat.toDigits 10 c).length ≤ 3 := by
  rw [Nat.length_toDigits_le_iff (by decide) (by decide)]
  omega

def Exact (range : Range) (addresses : IPV6 → Prop) : Prop :=
  ∀ ip : IPV6, range.first.num ≤ ip.num ∧ ip.num ≤ range.last.num ↔ addresses ip

theorem yields_some_iff {addresses : IPV6 → Prop} : Yields (some range) addresses ↔
    Exact range addresses := by
  unfold Yields Exact
  simp

theorem exact_of_block {ip : IPV6} {w : Nat} (h : Block w range.first.num range.last.num ip.num)
    : Exact range fun ip' => ip'.num / 2 ^ w = ip.num / 2 ^ w :=
  fun ip' => h.mem_iff ip'.num

theorem span_of_exact {ip : IPV6} {w : Nat} (hw : w ≤ 128)
    (h : Exact range fun ip' => ip'.num / 2 ^ w = ip.num / 2 ^ w)
    : range.first.num + 2 ^ w ≤ range.last.num + 1 := by
  have hblock := Block.of_div w ip.num
  have hpos := Nat.two_pow_pos w
  have hlt : 2 ^ w * (ip.num / 2 ^ w) + (2 ^ w - 1) < 2 ^ 128 := by
    have hpow : 2 ^ 128 = 2 ^ w * 2 ^ (128 - w) := by
      rw [← Nat.pow_add, Nat.add_sub_cancel' hw]
    have hdiv : ip.num / 2 ^ w < 2 ^ (128 - w) := by
      rw [Nat.div_lt_iff_lt_mul hpos, Nat.mul_comm, ← hpow]
      exact ip.num_lt
    have hmul := Nat.mul_le_mul_left (2 ^ w) (Nat.succ_le_of_lt hdiv)
    rw [Nat.mul_succ, ← hpow] at hmul
    omega
  have ⟨low, hlow⟩ := IPV6.exists_num (Nat.lt_of_le_of_lt (Nat.le_add_right _ _) hlt)
  have ⟨high, hhigh⟩ := IPV6.exists_num hlt
  have hlow' := ((h low).mpr ((hblock.mem_iff low.num).mp (by omega))).1
  have hhigh' := ((h high).mpr ((hblock.mem_iff high.num).mp (by omega))).2
  omega

theorem exact_self_iff {ip : IPV6} {w : Nat} (hw : w ≤ 128)
    : Exact ⟨ip, ip⟩ (fun ip' => ip'.num / 2 ^ w = ip.num / 2 ^ w) ↔ w = 0 := by
  apply Iff.intro
  . intro h
    have hspan := span_of_exact hw h
    dsimp only at hspan
    apply Nat.eq_zero_of_not_pos
    intro hpos
    have := Nat.pow_le_pow_right (by decide : 0 < 2) hpos
    omega
  . intro hzero ip'
    rw [hzero]
    dsimp only
    omega

theorem exact_v4_iff {addr : UInt32} (hpos : 1 ≤ c) (hle : c ≤ 32)
    : Exact (maskRange ⟨netIpv4ToHostOrder addr, netIpv4ToHostOrder addr⟩ c).2
          ((Address.v4 addr).SharesPrefix c)
        ↔
      c < 32 ∨ addr = 0xFFFFFFFF := by
  have hmask : maskRange ⟨netIpv4ToHostOrder addr, netIpv4ToHostOrder addr⟩ c
      = (true, ⟨netIpv4ToHostOrder (addr &&& maskFrom c), netIpv4ToHostOrder (addr ||| maskTo c)⟩) := by
    unfold maskRange netIpv4ToHostOrder
    dsimp only
    rw [if_pos (by simp [IPV6.isIPv4]), if_neg (by omega)]
  rw [hmask]
  dsimp only
  by_cases hlt : c < 32
  . apply iff_of_true
    . have hblock := (word_block addr hlt).append_left (by omega : (32 - c) % 32 ≤ 32) 0xFFFF
      rw [← IPV6.num_netIpv4ToHostOrder, ← IPV6.num_netIpv4ToHostOrder, ← IPV6.num_netIpv4ToHostOrder,
        (by omega : (32 - c) % 32 = 32 - c)] at hblock
      exact exact_of_block hblock
    . exact Or.inl hlt
  . have hc : c = 32 := by omega
    have hlast : (addr ||| (0xFFFFFFFF : UInt32)) = 0xFFFFFFFF := by
      rw [← UInt32.toNat_inj, UInt32.toNat_or, toNat_ones]
      exact or_two_pow_sub_one 32 addr.toNat_lt
    have hfirst : (addr &&& (0xFFFFFFFF : UInt32)) = addr := by
      rw [← UInt32.toNat_inj, UInt32.toNat_and, toNat_ones, Nat.and_two_pow_sub_one_eq_mod,
        Nat.mod_eq_of_lt addr.toNat_lt]
    rw [hc, mask_32.1, mask_32.2, hlast, hfirst]
    unfold Address.SharesPrefix Address.width Address.ip
    apply Iff.intro
    . intro h
      apply Or.inr
      have hmem := (h (netIpv4ToHostOrder 0xFFFFFFFF)).mp
      simp only [IPV6.num_netIpv4ToHostOrder, toNat_ones] at hmem
      have := addr.toNat_lt
      rw [← UInt32.toNat_inj, toNat_ones]
      omega
    . intro h
      have haddr : addr = 0xFFFFFFFF := h.resolve_left (by decide)
      rw [haddr]
      exact (exact_self_iff (by decide)).mpr rfl

theorem exact_v6_iff {ip : IPV6} (hpos : 1 ≤ c) (hle : c ≤ 128)
    : Exact (maskRange ⟨ip, ip⟩ c).2 ((Address.v6 ip).SharesPrefix c) ↔ ip.b ≠ 0x0000FFFF ∨ c = 128 := by
  unfold Address.SharesPrefix Address.width Address.ip
  dsimp only
  by_cases hword : ip.b = 0x0000FFFF
  . have hip : ip.isIPv4 = true := by simp [IPV6.isIPv4, hword]
    by_cases h32 : 32 < c
    . have hmask : maskRange ⟨ip, ip⟩ c = (false, ⟨ip, ip⟩) := by
        unfold maskRange
        dsimp only
        rw [if_pos hip, if_pos (Or.inr h32)]
      rw [hmask, exact_self_iff (by omega)]
      simp only [hword, ne_eq, not_true_eq_false, false_or]
      omega
    . apply iff_of_false
      . intro h
        have hspan := span_of_exact (by omega) h
        have hpow := Nat.pow_le_pow_right (by decide : 0 < 2) (by omega : 96 ≤ 128 - c)
        have hmask : maskRange ⟨ip, ip⟩ c
            = (true, ⟨{ ip with a := ip.a &&& maskFrom c }, { ip with a := ip.a ||| maskTo c }⟩) := by
          unfold maskRange
          dsimp only
          rw [if_pos hip, if_neg (by omega)]
        rw [hmask] at hspan
        simp only [IPV6.num_eq] at hspan
        have := (ip.a ||| maskTo c).toNat_lt
        omega
      . intro h
        cases h with
        | inl h => exact h hword
        | inr h => omega
  . apply iff_of_true
    . apply exact_of_block
      exact maskRange_v6 (by simp [IPV6.isIPv4, hword]) hpos hle
    . exact Or.inl hword

theorem slashRight_iff (h : inet.Reads text address) : SlashRight inet text address c ↔
    SlashOk text address c := by
  have hlength := h.length_le
  unfold SlashRight SlashOk
  rw [parseRange_slash h]
  by_cases hc : 1 ≤ c ∧ c ≤ address.width
  . have hle : c ≤ 128 := by
      cases address with
      | v4 addr => exact Nat.le_trans hc.2 (by decide : 32 ≤ 128)
      | v6 ip => exact hc.2
    have hdigits := length_toDigits_le hle
    rw [if_pos hc, if_pos hc, if_neg (by omega), atoiUnsignedShort_toDigits hle, yields_some_iff]
    cases address with
    | v4 addr => exact exact_v4_iff hc.1 hc.2
    | v6 ip => exact exact_v6_iff hc.1 hc.2
  . rw [if_neg hc, if_neg hc]
    split
    . next hlong => simp [hlong]
    . next hlong => simp [hlong]

end Slash

section Hyphen

variable {inet : Inet} {text text' : List Char} {address address' : Address}

theorem hyphenRight_iff (h : inet.Reads text address) (h' : inet.Reads text' address')
    : HyphenRight inet text text' address address' ↔ IPV6.Agree address'.ip address.ip := by
  rw [← IPV6.lt_iff_iff]
  unfold HyphenRight
  rw [parseRange_hyphen h h']
  unfold IPV6.gt
  cases address'.ip.lt address.ip with
  | false => simp
  | true => simp

end Hyphen

section Mask

variable {inet : Inet} {text text' : List Char} {address mask : Address}

theorem contiguous_word {m : IPV6} {w : Nat} (hm : m.num = 2 ^ 128 - 2 ^ w) (hw : w ≤ 128)
    : m.b ≠ 0x0000FFFF := by
  intro hword
  have hb : m.b.toNat = 0xFFFF := by
    rw [hword]
    decide
  have ha := m.a.toNat_lt
  have hc := m.c.toNat_lt
  have hd := m.d.toNat_lt
  rw [IPV6.num_eq, hb] at hm
  by_cases hlow : w ≤ 32
  . have := Nat.pow_le_pow_right (by decide : 0 < 2) hlow
    omega
  . have hpow : 2 ^ w = 2 ^ 33 * 2 ^ (w - 33) := by
      rw [← Nat.pow_add]
      congr 1
      omega
    have := Nat.pow_le_pow_right (by decide : 0 < 2) hw
    omega

theorem maskRight_v6 {ip m : IPV6} (h : (Address.v6 m).Contiguous)
    : m.b ≠ 0x0000FFFF ∧ Exact ⟨ip.and m, ip.or m.not⟩ fun ip' => ip'.and m = ip.and m := by
  have ⟨c, hc, hm⟩ := h
  have hblock : Block (128 - c) (ip.and m).num (ip.or m.not).num ip.num := by
    have hpow := Nat.pow_le_pow_right (by decide : 0 < 2) (by omega : 128 - c ≤ 128)
    rw [IPV6.num_and, IPV6.num_or, IPV6.num_not, hm,
      (by omega : 2 ^ 128 - 1 - (2 ^ 128 - 2 ^ (128 - c)) = 2 ^ (128 - c) - 1)]
    apply block_of_masks ip.num_lt
    omega
  apply And.intro
  . apply contiguous_word hm
    omega
  . intro ip'
    have hand : ∀ x : IPV6, (x.and m).num = 2 ^ (128 - c) * (x.num / 2 ^ (128 - c)) := by
      intro x
      rw [IPV6.num_and, hm, and_mask x.num_lt (by omega)]
    rw [hblock.mem_iff]
    apply Iff.intro
    . intro heq
      apply IPV6.num_inj
      rw [hand, hand, heq]
    . intro heq
      have hnum := congrArg IPV6.num heq
      rw [hand, hand] at hnum
      exact Nat.eq_of_mul_eq_mul_left (Nat.two_pow_pos _) hnum

theorem netIpv4ToHostOrder_mem {lo hi : UInt32} (ip : IPV6)
    : (netIpv4ToHostOrder lo).num ≤ ip.num ∧ ip.num ≤ (netIpv4ToHostOrder hi).num
        ↔
      ∃ addr, ip = netIpv4ToHostOrder addr ∧ lo.toNat ≤ addr.toNat ∧ addr.toNat ≤ hi.toNat := by
  have := hi.toNat_lt
  simp only [IPV6.num_netIpv4ToHostOrder]
  apply Iff.intro
  . intro h
    refine ⟨ofNat (ip.num - 2 ^ 32 * 0xFFFF), ?_, ?_⟩
    . apply IPV6.num_inj
      rw [IPV6.num_netIpv4ToHostOrder, toNat_ofNat', Nat.mod_eq_of_lt (by omega)]
      omega
    . rw [toNat_ofNat', Nat.mod_eq_of_lt (by omega)]
      omega
  . intro ⟨addr, hip, hlo, hhi⟩
    rw [hip, IPV6.num_netIpv4ToHostOrder]
    omega

theorem maskRight_v4 {addr m : UInt32} (h : (Address.v4 m).Contiguous)
    : Exact ⟨netIpv4ToHostOrder (addr &&& m), netIpv4ToHostOrder (addr ||| ~~~m)⟩
        ((Address.v4 addr).AgreesOn (Address.v4 m)) := by
  have ⟨c, hc, hm⟩ := h
  have hpow := Nat.pow_le_pow_right (by decide : 0 < 2) (by omega : 32 - c ≤ 32)
  have hblock : Block (32 - c) (addr &&& m).toNat (addr ||| ~~~m).toNat addr.toNat := by
    rw [UInt32.toNat_and, UInt32.toNat_or, IPV6.toNat_not, hm,
      (by omega : 2 ^ 32 - 1 - (2 ^ 32 - 2 ^ (32 - c)) = 2 ^ (32 - c) - 1)]
    apply block_of_masks addr.toNat_lt
    omega
  have hand : ∀ x : UInt32, (x &&& m).toNat = 2 ^ (32 - c) * (x.toNat / 2 ^ (32 - c)) := by
    intro x
    rw [UInt32.toNat_and, hm, and_mask x.toNat_lt (by omega)]
  intro ip
  rw [netIpv4ToHostOrder_mem]
  unfold Address.AgreesOn
  apply exists_congr
  intro x
  rw [hblock.mem_iff, ← UInt32.toNat_inj, hand]
  have hsame : ((Address.v4 addr).ip.a &&& m).toNat = 2 ^ (32 - c) * (addr.toNat / 2 ^ (32 - c)) := hand addr
  rw [hsame]
  apply and_congr_right
  intro _
  apply Iff.intro
  . intro heq
    rw [heq]
  . intro heq
    exact Nat.eq_of_mul_eq_mul_left (Nat.two_pow_pos _) heq

theorem maskRight (h : inet.Reads text address) (h' : inet.Reads text' mask)
    : MaskRight inet text text' address mask := by
  intro hcontiguous hwidth
  rw [parseRange_mask h h', yields_some_iff]
  cases mask with
  | v4 m =>
    cases address with
    | v4 addr =>
      have hword : (Address.v4 m).ip.b = 0x0000FFFF := rfl
      rw [if_pos hword]
      exact maskRight_v4 hcontiguous
    | v6 ip => exact absurd hwidth (by decide : ¬128 ≤ 32)
  | v6 m =>
    have ⟨hword, hexact⟩ : (Address.v6 m).ip.b ≠ 0x0000FFFF ∧
      Exact ⟨address.ip.and m, address.ip.or m.not⟩ _ :=
      maskRight_v6 hcontiguous
    rw [if_neg hword]
    exact hexact

end Mask

section RoundTrip

variable {inet : Inet} {range : Range} {ip ip' : IPV6}

def readBack (ip : IPV6) : IPV6 := if ip.isIPv4 then netIpv4ToHostOrder ip.a else ip

theorem readBack_eq_iff : readBack ip = ip ↔ Printable ip := by
  unfold readBack Printable IPV6.isIPv4 netIpv4ToHostOrder
  by_cases hword : ip.b = 0x0000FFFF
  . cases ip
    simp only at hword
    simp [hword, eq_comm]
  . simp [hword]

theorem Inet.Prints.ip_eq (h : inet.Prints ip)
    : ∃ address, inet.Reads (ipToStr inet ip) address ∧ address.ip = readBack ip := by
  refine ⟨_, h, ?_⟩
  unfold readBack
  split
  . rfl
  . rfl

theorem roundTrips_iff (hfirst : inet.Prints range.first) (hlast : inet.Prints range.last)
    : RoundTrips inet range
        ↔
      Printable range.first ∧ Printable range.last ∧ range.first.gt range.last = false := by
  have ⟨address, hread, heq⟩ := hfirst.ip_eq
  have ⟨address', hread', heq'⟩ := hlast.ip_eq
  have hirrefl : ∀ ip : IPV6, ip.gt ip = false := by
    intro ip
    simp [IPV6.gt, IPV6.lt]
  unfold RoundTrips rangeToStr
  by_cases hsame : ipToStr inet range.first = ipToStr inet range.last
  . have hback : readBack range.first = readBack range.last := by
      have hsame' := hread.strToIp
      rw [hsame, hread'.strToIp, heq, heq'] at hsame'
      exact (Option.some.inj hsame').symm
    rw [if_pos hsame, parseRange_single hread, heq, ← readBack_eq_iff, ← readBack_eq_iff]
    cases range with
    | mk first last =>
      dsimp only at *
      rw [Option.some.injEq, Range.mk.injEq]
      apply Iff.intro
      . intro h
        have hsame : first = last := h.1.symm.trans h.2
        rw [← hsame]
        exact ⟨h.1, h.1, hirrefl first⟩
      . intro h
        rw [h.1, h.2.1] at hback
        rw [h.1, hback]
        exact ⟨rfl, rfl⟩
  . rw [if_neg hsame, parseRange_hyphen hread hread', heq, heq']
    rw [← readBack_eq_iff, ← readBack_eq_iff]
    cases range with
    | mk first last =>
      dsimp only
      apply Iff.intro
      . intro h
        split at h
        . contradiction
        . next hgt =>
          simp only [Option.some.injEq, Range.mk.injEq] at h
          rw [h.1, h.2] at hgt
          exact ⟨h.1, h.2, Bool.eq_false_iff.mpr hgt⟩
      . intro h
        rw [h.1, h.2.1, h.2.2]
        rfl

end RoundTrip

section Syntax

variable {inet : Inet} {text text' : List Char} {address address' : Address}

theorem rangeSyntax_iff (range : Range) (h : inet.Reads text address) (h' : inet.Reads text' address')
    (hfirst : inet.Prints range.first) (hlast : inet.Prints range.last) (c : Nat)
    : (SlashRight inet text address c ↔ SlashOk text address c)
        ∧ (HyphenRight inet text text' address address' ↔ IPV6.Agree address'.ip address.ip)
        ∧ MaskRight inet text text' address address'
        ∧ (RoundTrips inet range
          ↔ Printable range.first ∧ Printable range.last ∧ range.first.gt range.last = false) :=
  ⟨slashRight_iff h, hyphenRight_iff h h', maskRight h h', roundTrips_iff hfirst hlast⟩

end Syntax

section Hosts

def hostText : List Char := "10.0.0.1".toList
def netText : List Char := "255.255.255.0".toList
def fiveText : List Char := "::5".toList
def upperText : List Char := "0:0:0:1::".toList

def hostAddr : UInt32 := 0x0A000001
def netAddr : UInt32 := 0xFFFFFF00
def fiveAddr : IPV6 := ⟨5, 0, 0, 0⟩
def upperAddr : IPV6 := ⟨0, 0, 1, 0⟩

def hostInet : Inet where
  pton6 text := if text = fiveText then some ⟨0, 0, 0, 5⟩ else if text = upperText then some ⟨0, 1, 0,
    0⟩ else none
  pton4 text := if text = hostText then some hostAddr else if text = netText then some netAddr else none
  ntop6 addr := if addr.s1 = 1 then upperText else fiveText
  ntop4 addr := if addr = hostAddr then hostText else netText

theorem plain_of_all {text : List Char}
    (h : text.all (fun ch => ch != '/' && ch != '-' && ch != '|' && ch != ' ') = true)
    : ∀ ch ∈ text, ch ≠ '/' ∧ ch ≠ '-' ∧ ch ≠ '|' ∧ ch ≠ ' ' := by
  intro ch hch
  have hall := all_eq_true.mp h ch hch
  simpa [and_assoc] using hall

theorem hostInet_reads : hostInet.Reads hostText (.v4 hostAddr) where
  reads := by decide
  plain := plain_of_all (by decide)
  length_le := by decide

theorem hostInet_reads_net : hostInet.Reads netText (.v4 netAddr) where
  reads := by decide
  plain := plain_of_all (by decide)
  length_le := by decide

theorem hostInet_reads_five : hostInet.Reads fiveText (.v6 fiveAddr) where
  reads := by decide
  plain := plain_of_all (by decide)
  length_le := by decide

theorem hostInet_reads_upper : hostInet.Reads upperText (.v6 upperAddr) where
  reads := by decide
  plain := plain_of_all (by decide)
  length_le := by decide

def hostRange : Range := ⟨netIpv4ToHostOrder hostAddr, netIpv4ToHostOrder netAddr⟩

theorem rangeSyntax_iff_host
    : SlashRight hostInet hostText (.v4 hostAddr) 24 ∧ HyphenRight hostInet hostText netText (.v4 hostAddr)
        (.v4 netAddr)
        ∧ RoundTrips hostInet hostRange := by
  have h := rangeSyntax_iff hostRange hostInet_reads hostInet_reads_net hostInet_reads hostInet_reads_net 24
  exact ⟨h.1.mpr (by decide), h.2.1.mpr (by decide), h.2.2.2.mpr (by decide)⟩

theorem rangeSyntax_wrong
    : ¬SlashRight hostInet hostText (.v4 hostAddr) 32 ∧ ¬SlashRight hostInet hostText (.v4 hostAddr) 33
        ∧ ¬HyphenRight hostInet fiveText upperText (.v6 fiveAddr) (.v6 upperAddr)
        ∧ ¬RoundTrips hostInet ⟨⟨hostAddr, 0x0000FFFF, 1, 0⟩, ⟨hostAddr, 0x0000FFFF, 1, 0⟩⟩ := by
  refine ⟨?_, ?_, ?_, ?_⟩
  . rw [slashRight_iff hostInet_reads]
    decide
  . rw [slashRight_iff hostInet_reads]
    decide
  . rw [hyphenRight_iff hostInet_reads_five hostInet_reads_upper]
    decide
  . rw [roundTrips_iff]
    . decide
    . exact hostInet_reads
    . exact hostInet_reads

end Hosts

end IPRange

import OpenGauss.BigInteger.Lemmas
import OpenGauss.BigInteger.Output.Impl

/-!
This module contains the verification of the output of big integers.
-/

open Buffer Decimal List Option

namespace BigInteger

variable (displayLeadingZero : Bool) {scale n destMax : Nat} {buf : Bytes} (data : Int)
variable {pre text : Bytes} {a : Nat}

section Buffer

theorem memcpyS_spec (src : Bytes) (count : Nat) (hpre : pre <+: buf)
    (hmax : count ≤ destMax) (hsrc : count ≤ src.length) (hfits : pre.length + count ≤ buf.length)
    : ∃ buf', memcpyS buf pre.length destMax src count = some buf' ∧ buf'.length = buf.length
          ∧ pre ++ src.take count <+: buf' := by
  unfold memcpyS
  rw [if_pos (And.intro hmax hsrc)]
  apply write_prefix _ hpre
  rw [length_take, Nat.min_eq_left hsrc]
  exact hfits

theorem sprintfS_spec (hpre : pre <+: buf)
    (hmax : text.length < destMax) (hfits : pre.length + destMax ≤ buf.length)
    : ∃ buf', sprintfS buf pre.length destMax text = some buf' ∧ buf'.length = buf.length
          ∧ pre ++ text ++ [0] <+: buf' := by
  unfold sprintfS
  rw [if_pos hmax, append_assoc]
  apply write_prefix _ hpre
  rw [length_append, length_singleton]
  omega

theorem strlen_spec (h : text ++ [0] <+: buf) (hzero : 0 ∉ text)
    : strlen buf = some text.length := by
  obtain ⟨rest, rfl⟩ := h
  unfold strlen
  rw [if_pos (by simp), append_assoc, idxOf_append_of_notMem hzero]
  simp

theorem pstrdup_spec (h : text ++ [0] <+: buf) (hzero : 0 ∉ text) : pstrdup buf = some text := by
  unfold pstrdup
  rw [strlen_spec h hzero]
  obtain ⟨rest, rfl⟩ := h
  simp

theorem zero_notMem_of_digits {s : Bytes} (h : ∀ c ∈ s, IsDigit c) : 0 ∉ s := by
  intro hzero
  exact absurd (h 0 hzero) (by decide)

end Buffer

section Formats

@[simp]
theorem ld_natCast (n : Nat) : ld n = numeral n := by
  unfold ld
  rw [if_neg (by omega), Int.toNat_natCast]

@[simp]
theorem zeroLd_natCast (width n : Nat) : zeroLd width n = padded width n := by
  unfold zeroLd
  rw [if_neg (by omega), Int.toNat_natCast]

theorem div_pow_lt {b : Nat} (hle : a ≤ b) (h : n < 10 ^ b) : n / 10 ^ a < 10 ^ (b - a) := by
  apply Nat.div_lt_of_lt_mul
  rw [← Nat.pow_add, Nat.add_sub_cancel' hle]
  exact h

theorem lt_of_pow_lt {b : Nat} (hlow : 10 ^ a ≤ n) (hhigh : n < 10 ^ b) : a < b :=
  (Nat.pow_lt_pow_iff_right (by omega)).1 (Nat.lt_of_le_of_lt hlow hhigh)

theorem padded_split {b : Nat} (ha : 0 < a) (hlt : a < b) (h : n < 10 ^ b)
    : padded (b - a) (n / 10 ^ a) ++ padded a (n % 10 ^ a) = padded b n := by
  rw [padded_append (by omega) ha (div_pow_lt (by omega) h) (Nat.mod_lt _ (by positivity)),
    Nat.sub_add_cancel (by omega), Nat.div_add_mod']

theorem numeral_split (ha : 0 < a) (h : 10 ^ a ≤ n)
    : numeral (n / 10 ^ a) ++ padded a (n % 10 ^ a) = numeral n := by
  rw [numeral_append ha (Nat.div_pos h (by positivity)) (Nat.mod_lt _ (by positivity)), Nat.div_add_mod']

theorem le_of_not_fits (h : ¬Fits 64 n) : 10 ^ 18 ≤ n := by
  unfold Fits at h
  omega

theorem p10Int64_eq : p10Int64 = ((10 ^ 18 : Nat) : Int) := by decide

theorem int128Format_false (n scale : Nat) : int128Format false n scale = some (numeral n) := by
  unfold int128Format
  dsimp only
  simp only [p10Int64_eq, ← Int.ofNat_tdiv, ← Int.ofNat_tmod]
  split
  . simp
  . rename_i hfits
    have hnum := numeral_split (a := 18) (by omega) (le_of_not_fits hfits)
    split
    . simp only [Bool.false_eq_true, if_false, ld_natCast, zeroLd_natCast, hnum]
    . rename_i hfits'
      have hnum' := numeral_split (a := 18) (by omega) (le_of_not_fits hfits')
      simp only [Bool.false_eq_true, if_false, ld_natCast, zeroLd_natCast, hnum', hnum]

theorem int128Format_true (h : n < 10 ^ scale)
    : int128Format true n scale = some (padded scale n) := by
  unfold int128Format
  dsimp only
  simp only [p10Int64_eq, ← Int.ofNat_tdiv, ← Int.ofNat_tmod]
  split
  . simp
  . rename_i hfits
    have hscale := lt_of_pow_lt (le_of_not_fits hfits) h
    have hnum := padded_split (by omega) hscale h
    split
    . simp only [if_true, zeroLd_natCast, hnum]
    . rename_i hfits'
      have hlt := div_pow_lt (Nat.le_of_lt hscale) h
      have hscale' := lt_of_pow_lt (le_of_not_fits hfits') hlt
      have hnum' := padded_split (by omega) hscale' hlt
      rw [Nat.sub_sub] at hnum'
      rw [if_pos trivial, if_pos (by omega), zeroLd_natCast, zeroLd_natCast, zeroLd_natCast, hnum', hnum]

end Formats

section Printed

structure Printed (displayLeadingZero : Bool) (data : Int) (scale : Nat) (text : Bytes) : Prop where
  parts : ∃ whole frac,
    text = (if data < 0 then [minus] else []) ++ whole ++ (if 0 < scale then point :: frac else [])
      ∧ (if data.natAbs / 10 ^ scale = 0 ∧ data.natAbs % 10 ^ scale ≠ 0 ∧ displayLeadingZero = false then
          whole = []
        else
          IsNumeral whole ∧ val whole = data.natAbs / 10 ^ scale)
      ∧ (∀ c ∈ frac, IsDigit c) ∧ frac.length = scale ∧ val frac = data.natAbs % 10 ^ scale
  read_eq : Decimal.read text = some ((data : ℚ) / 10 ^ scale)

def sign (data : Int) : Bytes := if data < 0 then [minus] else []

def wholePart (displayLeadingZero : Bool) (n scale : Nat) : Bytes :=
  if n / 10 ^ scale = 0 ∧ n % 10 ^ scale ≠ 0 ∧ displayLeadingZero = false then []
  else numeral (n / 10 ^ scale)

def fraction (n scale : Nat) : Bytes := if 0 < scale then point :: padded scale (n % 10 ^ scale) else []

theorem isDigit_wholePart (n scale : Nat)
    : ∀ c ∈ wholePart displayLeadingZero n scale, IsDigit c := by
  unfold wholePart
  split
  . simp
  . exact isDigit_numeral _

theorem val_wholePart (n scale : Nat)
    : val (wholePart displayLeadingZero n scale) = n / 10 ^ scale := by
  unfold wholePart
  split
  . rename_i h
    rw [h.1]
    rfl
  . exact val_numeral _

theorem readUnsigned_parts (n scale : Nat)
    : readUnsigned (wholePart displayLeadingZero n scale ++ fraction n scale) =
      some ((n : ℚ) / 10 ^ scale) := by
  by_cases hscale : 0 < scale
  . have hmod : n % 10 ^ scale < 10 ^ scale := Nat.mod_lt _ (by positivity)
    have hlen := length_padded hscale hmod
    rw [fraction, if_pos hscale, readUnsigned_fraction (isDigit_wholePart _ _ _) (isDigit_padded _ _), hlen,
      val_wholePart, val_padded]
    . congr 1
      have hn : ((n / 10 ^ scale * 10 ^ scale + n % 10 ^ scale : Nat) : ℚ) = n := by rw [Nat.div_add_mod']
      push_cast at hn ⊢
      rw [← hn]
      field_simp
    . intro hnil
      rw [hnil] at hlen
      simp at hlen
      omega
  . have hzero : scale = 0 := by omega
    have hwhole : wholePart displayLeadingZero n 0 = numeral n := by simp [wholePart, Nat.mod_one]
    rw [fraction, if_neg hscale, append_nil, hzero, hwhole, readUnsigned_whole (numeral_ne_nil n)
      (isDigit_numeral n), val_numeral]
    simp

theorem head_parts_ne_minus (n scale : Nat)
    : (wholePart displayLeadingZero n scale ++ fraction n scale).head? ≠ some minus := by
  intro hhead
  have hmem := mem_of_mem_head? hhead
  rw [head?_append] at hhead
  cases hwhole : wholePart displayLeadingZero n scale with
  | nil =>
    rw [hwhole] at hhead
    unfold fraction at hhead
    split at hhead
    . simp [point, minus] at hhead
    . simp at hhead
  | cons c s =>
    rw [hwhole] at hhead
    simp only [head?_cons, some_or, Option.some.injEq] at hhead
    have hdigit := isDigit_wholePart displayLeadingZero n scale c (by simp [hwhole])
    rw [hhead] at hdigit
    exact absurd hdigit (by decide)

theorem printed_parts (scale : Nat)
    : Printed displayLeadingZero data scale
        (sign data ++ (wholePart displayLeadingZero data.natAbs scale ++ fraction data.natAbs scale)) := by
  apply Printed.mk
  . exists wholePart displayLeadingZero data.natAbs scale, (fraction data.natAbs scale).tail
    apply And.intro
    . unfold sign fraction
      by_cases hscale : 0 < scale
      all_goals simp [hscale]
    . unfold wholePart
      apply And.intro
      . split
        . rfl
        . exact And.intro (isNumeral_numeral _) (val_numeral _)
      . unfold fraction
        have hmod : data.natAbs % 10 ^ scale < 10 ^ scale := Nat.mod_lt _ (by positivity)
        split
        . rename_i hscale
          exact And.intro (isDigit_padded _ _) (And.intro (length_padded hscale hmod) (val_padded _ _))
        . rename_i hscale
          have hzero : scale = 0 := by omega
          simp [hzero, val, Nat.mod_one]
  . unfold sign
    split
    . rename_i hneg
      rw [singleton_append, read_minus, readUnsigned_parts]
      have habs : ((data.natAbs : Int) : ℚ) = -data := by
        rw [Int.natCast_natAbs, abs_of_neg hneg]
        simp
      simp only [map_some, Option.some.injEq]
      rw [← Int.cast_natCast, habs]
      ring
    . rename_i hpos
      rw [nil_append, read_eq_readUnsigned (head_parts_ne_minus _ _ _), readUnsigned_parts]
      have habs : ((data.natAbs : Int) : ℚ) = data := by
        rw [Int.natCast_natAbs, abs_of_nonneg (by omega)]
      rw [← Int.cast_natCast, habs]

end Printed

section Splice

variable {digits : Bytes}

theorem drop_eq_padded (h : IsNumeral digits) (hpos : 0 < scale) (hle : scale ≤ digits.length)
    : digits.drop (digits.length - scale) = padded scale (val digits % 10 ^ scale)
        ∧ val (digits.take (digits.length - scale)) = val digits / 10 ^ scale := by
  have hdrop : ∀ c ∈ digits.drop (digits.length - scale), IsDigit c := by
    intro c hc
    exact h.digits c (mem_of_mem_drop hc)
  have hlen : (digits.drop (digits.length - scale)).length = scale := by
    rw [length_drop]
    omega
  have hlt := val_lt hdrop
  have hval := val_append (digits.take (digits.length - scale)) (digits.drop (digits.length - scale))
  rw [take_append_drop, hlen] at hval
  rw [hlen] at hlt
  have hmod : val digits % 10 ^ scale = val (digits.drop (digits.length - scale)) := by
    rw [hval, Nat.mul_add_mod_self_right, Nat.mod_eq_of_lt hlt]
  apply And.intro
  . apply eq_of_val_eq hdrop (isDigit_padded _ _)
    . rw [hlen, length_padded hpos (Nat.mod_lt _ (by positivity))]
    . rw [val_padded, hmod]
  . rw [hval, Nat.add_comm, Nat.add_mul_div_right _ _ (by positivity), Nat.div_eq_of_lt hlt, Nat.zero_add]

theorem take_eq_numeral (h : IsNumeral digits) (hnonzero : val digits ≠ 0) (hpos : 0 < n)
    : digits.take n = numeral (val (digits.take n)) := by
  apply eq_numeral
  obtain ⟨m, rfl⟩ := Nat.exists_eq_succ_of_ne_zero (show n ≠ 0 by omega)
  cases hdigits : digits with
  | nil => exact absurd hdigits h.nonempty
  | cons c s =>
    rw [take_succ_cons]
    rw [hdigits] at h hnonzero
    apply IsNumeral.mk (by simp)
    . intro d hd
      apply h.digits
      rw [← take_succ_cons] at hd
      exact mem_of_mem_take hd
    . intro hhead
      simp only [head?_cons, Option.some.injEq] at hhead
      have hone := h.no_leading_zero (by simp [hhead])
      exact absurd (by rw [hone]; rfl) hnonzero

theorem outMin_spec {maxLen : Nat} (hbuf : buf.length = maxLen)
    (hle : scale ≤ digits.length) (hmax : digits.length + 3 ≤ maxLen)
    : ∃ buf', outMin (minus :: digits) buf maxLen scale = some buf'
          ∧ minus :: digits.take (digits.length - scale)
              ++ (if 0 < scale then point :: digits.drop (digits.length - scale) else []) ++
                [0] <+: buf' := by
  unfold outMin
  split
  . rename_i hscale
    obtain ⟨len, hlen⟩ := Nat.exists_eq_add_of_le hle
    have hcut : (minus :: digits).length - scale = len + 1 := by
      rw [length_cons]
      omega
    have htake : (digits.take len).length = len := by
      rw [length_take]
      omega
    have hdrop : (minus :: digits ++ [0]).drop (len + 1) = digits.drop len ++ [0] := by
      rw [cons_append, drop_succ_cons, drop_append_of_le_length (by omega)]
    rw [hcut, show digits.length - scale = len by omega]
    dsimp only
    rw [hdrop]
    obtain ⟨buf₁, heq₁, hbuf₁, hpre₁⟩ := memcpyS_spec (minus :: digits) (len + 1)
      nil_prefix (show len + 1 ≤ maxLen by omega) (by simp only [length_cons]; omega)
      (show 0 + (len + 1) ≤ buf.length by omega)
    rw [nil_append, take_succ_cons] at hpre₁
    rw [length_nil] at heq₁
    obtain ⟨buf₂, heq₂, hbuf₂, hpre₂⟩ := write_prefix [point] hpre₁ (by
      simp only [length_cons, htake, length_nil]
      omega)
    rw [length_cons, htake] at heq₂
    have hpos : (minus :: digits.take len ++ [point]).length = len + 1 + 1 := by
      simp [htake]
    have htail : (digits.drop len ++ [0]).length = scale + 1 := by
      simp only [length_append, length_drop, length_singleton]
      omega
    obtain ⟨buf₃, heq₃, hbuf₃, hpre₃⟩ := memcpyS_spec (digits.drop len ++ [0]) (scale + 1) hpre₂
      (show scale + 1 ≤ maxLen - (len + 1) - 1 by omega) (by omega) (by rw [hpos]; omega)
    rw [hpos] at heq₃
    rw [← htail, take_length] at hpre₃
    exists buf₃
    apply And.intro
    . rw [heq₁]
      dsimp only [bind_eq_bind, bind_some]
      rw [heq₂]
      exact heq₃
    . simpa using hpre₃
  . rename_i hscale
    have hzero : scale = 0 := by omega
    subst hzero
    have hlen : (minus :: digits ++ [0]).length = (minus :: digits).length + 1 := length_append
    obtain ⟨buf', heq, -, hpre⟩ := memcpyS_spec (minus :: digits ++ [0])
      ((minus :: digits).length + 1) nil_prefix
      (show (minus :: digits).length + 1 ≤ maxLen by simp only [length_cons]; omega) (by omega)
      (show 0 + ((minus :: digits).length + 1) ≤ buf.length by simp only [length_cons]; omega)
    rw [← hlen, take_length] at hpre
    exists buf'
    apply And.intro heq
    simpa using hpre

theorem val_take_ne_zero (h : IsNumeral digits) (hnonzero : val digits ≠ 0) (hpos : 0 < n)
    : val (digits.take n) ≠ 0 := by
  intro hzero
  have htake := take_eq_numeral h hnonzero hpos
  rw [hzero] at htake
  have hhead : digits.head? = some 48 := by
    have hfirst := head?_take (l := digits) (i := n)
    rw [if_neg (by omega), htake] at hfirst
    exact hfirst.symm
  rw [h.no_leading_zero hhead] at hnonzero
  exact hnonzero rfl

theorem spliced_eq_parts {displayLeadingZero : Bool} (h : IsNumeral digits) (hnonzero : val digits ≠ 0)
    (hle : scale ≤ digits.length) (hshown : scale < digits.length ∨ displayLeadingZero = false)
    : digits.take (digits.length - scale)
          ++ (if 0 < scale then point :: digits.drop (digits.length - scale) else [])
        =
      wholePart displayLeadingZero (val digits) scale ++ fraction (val digits) scale := by
  by_cases hscale : 0 < scale
  . obtain ⟨hdrop, hval⟩ := drop_eq_padded h hscale hle
    rw [fraction, if_pos hscale, if_pos hscale, hdrop]
    congr 1
    unfold wholePart
    rw [← hval]
    by_cases hlt : scale < digits.length
    . rw [if_neg (by
        intro hwhole
        exact val_take_ne_zero h hnonzero (by omega) hwhole.1)]
      exact take_eq_numeral h hnonzero (by omega)
    . have heq : scale = digits.length := by omega
      have hmod : val digits % 10 ^ scale = val digits := by
        rw [heq]
        exact Nat.mod_eq_of_lt (val_lt h.digits)
      rw [heq, Nat.sub_self, take_zero, ← heq, hmod, if_pos]
      exact And.intro rfl (And.intro hnonzero (hshown.resolve_left hlt))
  . have hzero : scale = 0 := by omega
    subst hzero
    have hnumeral := eq_numeral h
    simpa [wholePart, fraction, Nat.mod_one] using hnumeral

end Splice

section Out

theorem length_sign_le : (sign data).length ≤ 1 := by
  unfold sign
  split <;> simp

theorem length_wholePart_le {k : Nat} (hle : scale ≤ k)
    (hlt : n < 10 ^ k) : (wholePart displayLeadingZero n scale).length ≤ max 1 (k - scale) := by
  have hdiv : n / 10 ^ scale < 10 ^ max 1 (k - scale) := by
    calc n / 10 ^ scale < 10 ^ (k - scale) := div_pow_lt hle hlt
      _ ≤ 10 ^ max 1 (k - scale) := Nat.pow_le_pow_right (by omega) (by omega)
  unfold wholePart
  split
  . simp
  . exact length_numeral_le (by omega) hdiv

theorem length_parts_le {k : Nat} (hle : scale ≤ k) (hlt : n < 10 ^ k)
    : (wholePart displayLeadingZero n scale ++ fraction n scale).length ≤ k + 2 := by
  have hwhole := length_wholePart_le displayLeadingZero hle hlt
  have hfrac : (fraction n scale).length ≤ scale + 1 := by
    unfold fraction
    split
    . rename_i hscale
      rw [length_cons, length_padded hscale (Nat.mod_lt _ (by positivity))]
    . simp
  rw [length_append]
  omega

theorem zero_notMem_parts (n scale : Nat)
    : 0 ∉ sign data ++ (wholePart displayLeadingZero n scale ++ fraction n scale) := by
  have hwhole := zero_notMem_of_digits (isDigit_wholePart displayLeadingZero n scale)
  have hfrac := zero_notMem_of_digits (isDigit_padded scale (n % 10 ^ scale))
  simp only [mem_append, not_or]
  apply And.intro
  . unfold sign
    split <;> simp [minus]
  . apply And.intro hwhole
    unfold fraction
    split
    . simpa [point] using hfrac
    . simp

theorem bi64Format_eq (n scale : Nat)
    : bi64Format displayLeadingZero (sign data) ((n / 10 ^ scale : Nat) : Int)
      ((n % 10 ^ scale : Nat) : Int) scale
        =
      sign data ++ (wholePart displayLeadingZero n scale ++ fraction n scale) := by
  unfold bi64Format wholePart fraction
  simp only [ld_natCast, zeroLd_natCast, ne_eq, Int.natCast_eq_zero]
  split
  . split
    . simp
    . rfl
  . rename_i hscale
    have hzero : scale = 0 := by omega
    simp [hzero, Nat.mod_one]

theorem getScaleMultiplier_eq (hle : scale ≤ maxInt128Digit)
    : getScaleMultiplier scale = some ((10 ^ scale : Nat) : Int) := by
  unfold getScaleMultiplier
  rw [if_pos hle]
  push_cast
  rfl

theorem bi64Out_eq {displayLeadingZero : Bool} {data : Int}
    (hbuf : buf.length = maxBi64Len) (hdata : Fits 64 data) (hmin : data ≠ int64Min)
    (hle : scale ≤ maxInt64Digit)
    : bi64Out displayLeadingZero buf data scale
        =
      some (sign data ++ (wholePart displayLeadingZero data.natAbs scale ++ fraction data.natAbs scale)) := by
  have hlt : data.natAbs < 2 ^ 63 := by
    unfold Fits int64Min at *
    omega
  have hscale : 10 ^ scale < 2 ^ 64 := by
    calc 10 ^ scale ≤ 10 ^ 19 := Nat.pow_le_pow_right (by omega) hle
      _ < 2 ^ 64 := by norm_num
  have hmod : (((10 ^ scale : Nat) : Int) % 2 ^ 64) = ((10 ^ scale : Nat) : Int) := by
    apply Int.emod_eq_of_lt
    . positivity
    . exact_mod_cast hscale
  have habs : absU64 data = some (data.natAbs : Int) := by
    unfold absU64
    split
    . rw [Int.natAbs_of_nonneg (by omega)]
    . rw [signed_of_fits (by unfold Fits; omega)]
      congr 1
      omega
  have hpre : signed 64 ((data.natAbs : Int) / ((10 ^ scale : Nat) : Int))
      = some ((data.natAbs / 10 ^ scale : Nat) : Int) := by
    rw [← Int.natCast_ediv]
    exact signed_natCast (Nat.lt_of_le_of_lt (Nat.div_le_self _ _) hlt)
  have hpost : signed 64 ((data.natAbs : Int) % ((10 ^ scale : Nat) : Int))
      = some ((data.natAbs % 10 ^ scale : Nat) : Int) := by
    rw [← Int.natCast_emod]
    exact signed_natCast (Nat.lt_of_le_of_lt (Nat.mod_le _ _) hlt)
  have hsign : (if data ≥ 0 then [] else [minus]) = sign data := by
    unfold sign
    split <;> split <;> first | rfl | omega
  have hlen : (sign data ++ (wholePart displayLeadingZero data.natAbs scale
      ++ fraction data.natAbs scale)).length < maxBi64Len := by
    have hten : data.natAbs < 10 ^ maxInt64Digit := by
      rw [maxInt64Digit]
      omega
    have hparts := length_parts_le displayLeadingZero hle hten
    have hsign := length_sign_le data
    rw [length_append]
    unfold maxBi64Len
    unfold maxInt64Digit at hparts
    omega
  obtain ⟨buf', heq, -, hstart⟩ := sprintfS_spec nil_prefix hlen (show 0 + maxBi64Len ≤ buf.length by omega)
  rw [length_nil] at heq
  unfold bi64Out
  rw [if_neg hmin, habs, bind_eq_bind, bind_some,
    getScaleMultiplier_eq (Nat.le_trans hle (by decide)), bind_some, hmod, hpre,
    bind_some, hpost, bind_some, hsign, bi64Format_eq]
  dsimp only
  rw [heq, bind_eq_bind, bind_some]
  exact pstrdup_spec hstart (zero_notMem_parts _ _ _ _)

theorem int128ToString_false (n scale : Nat) (hpre : pre <+: buf)
    (hmax : (numeral n).length < destMax) (hfits : pre.length + destMax ≤ buf.length)
    : ∃ buf', int128ToString false n buf pre.length destMax scale = some buf' ∧ buf'.length = buf.length
          ∧ pre ++ numeral n ++ [0] <+: buf' := by
  obtain ⟨buf', heq, hlen, hstart⟩ := sprintfS_spec hpre hmax hfits
  apply Exists.intro buf'
  apply And.intro
  . unfold int128ToString
    rw [int128Format_false]
    exact heq
  . exact And.intro hlen hstart

theorem int128ToString_true (hpre : pre <+: buf) (hpos : 0 < scale)
    (hlt : n < 10 ^ scale) (hmax : scale < destMax) (hfits : pre.length + destMax ≤ buf.length)
    : ∃ buf', int128ToString true n buf pre.length destMax scale = some buf'
          ∧ pre ++ padded scale n ++ [0] <+: buf' := by
  obtain ⟨buf', heq, -, hstart⟩ := sprintfS_spec hpre (show (padded scale n).length < destMax by
    rw [length_padded hpos hlt]
    exact hmax) hfits
  apply Exists.intro buf'
  apply And.intro
  . unfold int128ToString
    rw [int128Format_true hlt]
    exact heq
  . exact hstart

theorem bi128Unsigned_spec (hbuf : buf.length = maxBi128Len) (hpre : sign data <+: buf) (hlt : n < 10 ^ 39)
    (hle : scale ≤ maxInt128Digit)
    : ∃ buf', bi128Unsigned displayLeadingZero buf (sign data).length ((n / 10 ^ scale : Nat) : Int)
            ((n % 10 ^ scale : Nat) : Int) scale = some buf'
          ∧ sign data ++ (wholePart displayLeadingZero n scale ++ fraction n scale) ++ [0] <+: buf' := by
  have hsign := length_sign_le data
  have hwhole := length_wholePart_le displayLeadingZero
    (show scale ≤ 39 from Nat.le_trans hle (by decide)) hlt
  have hmod : n % 10 ^ scale < 10 ^ scale := Nat.mod_lt _ (by positivity)
  unfold maxBi128Len at hbuf
  unfold maxInt128Digit at hle
  unfold bi128Unsigned
  split
  . rename_i hscale
    rw [fraction, if_pos hscale]
    split
    . rename_i hzero
      have hnone : wholePart displayLeadingZero n scale = [] := by
        rw [wholePart, if_pos]
        exact_mod_cast hzero
      obtain ⟨buf₁, heq₁, hbuf₁, hpre₁⟩ := write_prefix [point] hpre (by
        rw [length_singleton]
        omega)
      have hlen : (sign data ++ [point]).length = (sign data).length + 1 := length_append
      obtain ⟨buf₂, heq₂, hpre₂⟩ := int128ToString_true hpre₁ hscale hmod
        (show scale < maxBi128Len - (sign data).length - 1 by unfold maxBi128Len; omega)
        (by unfold maxBi128Len; omega)
      rw [hlen] at heq₂
      apply Exists.intro buf₂
      apply And.intro
      . rw [heq₁, bind_eq_bind, bind_some]
        exact heq₂
      . rw [hnone]
        simpa using hpre₂
    . rename_i hzero
      have hsome : wholePart displayLeadingZero n scale = numeral (n / 10 ^ scale) := by
        rw [wholePart, if_neg]
        exact_mod_cast hzero
      rw [hsome] at hwhole
      obtain ⟨buf₁, heq₁, hbuf₁, hpre₁⟩ := int128ToString_false (n / 10 ^ scale) 0 hpre
        (show _ < maxBi128Len - (sign data).length by unfold maxBi128Len; omega)
        (by unfold maxBi128Len; omega)
      have hnul : 0 ∉ sign data ++ numeral (n / 10 ^ scale) := by
        have hnot := zero_notMem_parts displayLeadingZero data n scale
        rw [hsome, ← append_assoc] at hnot
        intro hmem
        exact hnot (mem_append_left _ hmem)
      have hstr := strlen_spec hpre₁ hnul
      have hlen : (sign data ++ numeral (n / 10 ^ scale)).length
          = (sign data).length + (numeral (n / 10 ^ scale)).length := length_append
      obtain ⟨buf₂, heq₂, hbuf₂, hpre₂⟩ := write_prefix [point] (List.IsPrefix.trans (prefix_append _ _) hpre₁)
        (by
          rw [length_singleton]
          omega)
      have hlen' : (sign data ++ numeral (n / 10 ^ scale) ++ [point]).length
          = (sign data ++ numeral (n / 10 ^ scale)).length + 1 := length_append
      obtain ⟨buf₃, heq₃, hpre₃⟩ := int128ToString_true hpre₂ hscale hmod
        (show scale < maxBi128Len - (sign data ++ numeral (n / 10 ^ scale)).length - 1 by
          unfold maxBi128Len; omega)
        (by unfold maxBi128Len; omega)
      rw [hlen'] at heq₃
      apply Exists.intro buf₃
      apply And.intro
      . rw [heq₁, bind_eq_bind, bind_some, hstr, bind_eq_bind, bind_some, heq₂, bind_some]
        exact heq₃
      . rw [hsome]
        simpa using hpre₃
  . rename_i hscale
    have hzero : scale = 0 := by omega
    have hsome : wholePart displayLeadingZero n scale = numeral (n / 10 ^ scale) := by
      simp [wholePart, hzero, Nat.mod_one]
    rw [hsome] at hwhole
    obtain ⟨buf₁, heq₁, -, hpre₁⟩ := int128ToString_false (n / 10 ^ scale) 0 hpre
      (show _ < maxBi128Len - (sign data).length by unfold maxBi128Len; omega)
      (by unfold maxBi128Len; omega)
    apply Exists.intro buf₁
    apply And.intro heq₁
    rw [hsome, fraction, if_neg hscale, append_nil]
    exact hpre₁

theorem tdiv_of_nonneg {x : Int} (h : 0 ≤ x) (m : Nat) : x.tdiv m = ((x.natAbs / m : Nat) : Int) := by
  obtain ⟨n, rfl⟩ := Int.eq_ofNat_of_zero_le h
  rw [Int.natAbs_natCast, Int.ofNat_tdiv]

theorem tmod_of_nonneg {x : Int} (h : 0 ≤ x) (m : Nat) : x.tmod m = ((x.natAbs % m : Nat) : Int) := by
  obtain ⟨n, rfl⟩ := Int.eq_ofNat_of_zero_le h
  rw [Int.natAbs_natCast, Int.ofNat_tmod]

theorem bi128Out_eq {displayLeadingZero : Bool} {data : Int}
    (hbuf : buf.length = maxBi128Len) (hdata : Fits 128 data) (hmin : data ≠ int128Min)
    (hle : scale ≤ maxInt128Digit)
    : bi128Out displayLeadingZero buf data scale
        =
      some (sign data ++ (wholePart displayLeadingZero data.natAbs scale ++ fraction data.natAbs scale)) := by
  have hlt : data.natAbs < 10 ^ 39 := by
    unfold Fits at hdata
    omega
  unfold bi128Out
  rw [if_neg hmin]
  split
  . rename_i hpos
    have hsign : sign data = [] := by
      unfold sign
      rw [if_neg (by omega)]
    obtain ⟨buf₁, heq₁, hpre₁⟩ := bi128Unsigned_spec displayLeadingZero data hbuf
      (by rw [hsign]; exact nil_prefix) hlt hle
    rw [hsign, length_nil] at heq₁
    rw [getScaleMultiplier_eq hle, bind_eq_bind, bind_some, tdiv_of_nonneg hpos,
      tmod_of_nonneg hpos, heq₁, bind_eq_bind, bind_some]
    exact pstrdup_spec hpre₁ (zero_notMem_parts _ _ _ _)
  . rename_i hneg
    have hsign : sign data = [minus] := by
      unfold sign
      rw [if_pos (by omega)]
    have hfits : Fits 128 (-data) := by
      unfold Fits int128Min at *
      omega
    obtain ⟨buf₁, heq₁, hbuf₁, hpre₁⟩ := write_prefix [minus] ( nil_prefix : [] <+: buf) (by
      unfold maxBi128Len at hbuf
      simp [hbuf])
    rw [nil_append, ← hsign] at hpre₁
    rw [length_nil] at heq₁
    obtain ⟨buf₂, heq₂, hpre₂⟩ := bi128Unsigned_spec displayLeadingZero data (by omega) hpre₁ hlt hle
    rw [hsign, length_singleton, ← Int.natAbs_neg, ← tdiv_of_nonneg (by omega),
      ← tmod_of_nonneg (by omega)] at heq₂
    rw [signed_of_fits hfits, bind_eq_bind, bind_some, getScaleMultiplier_eq hle,
      bind_some, heq₁, bind_eq_bind, bind_some, heq₂, bind_some]
    exact pstrdup_spec hpre₂ (zero_notMem_parts _ _ _ _)

end Out

section Minimum

variable {displayLeadingZero : Bool} {buf digits : Bytes} {maxLen scale : Nat}

theorem pstrdup_outMin (h : IsNumeral digits) (hbuf : buf.length = maxLen) (hle : scale ≤ digits.length)
    (hmax : digits.length + 3 ≤ maxLen)
    : (outMin (minus :: digits) buf maxLen scale).bind pstrdup
        =
      some ([minus] ++ (digits.take (digits.length - scale)
        ++ (if 0 < scale then point :: digits.drop (digits.length - scale) else []))) := by
  obtain ⟨buf', heq, hpre⟩ := outMin_spec hbuf hle hmax
  rw [heq, bind_some]
  apply pstrdup_spec
  . simpa using hpre
  . have hdigits := zero_notMem_of_digits h.digits
    have htake : 0 ∉ digits.take (digits.length - scale) := by
      intro hmem
      exact hdigits (mem_of_mem_take hmem)
    have hdrop : 0 ∉ digits.drop (digits.length - scale) := by
      intro hmem
      exact hdigits (mem_of_mem_drop hmem)
    simp only [mem_append, not_or]
    apply And.intro (by simp [minus])
    apply And.intro htake
    split
    . simpa [point] using hdrop
    . simp

theorem printed_outMin {data : Int} (h : IsNumeral digits) (hdata : data = -(val digits : Int))
    (hnonzero : val digits ≠ 0) (hbuf : buf.length = maxLen) (hle : scale ≤ digits.length)
    (hmax : digits.length + 3 ≤ maxLen) (hshown : scale < digits.length ∨ displayLeadingZero = false)
    : ∃ text, (outMin (minus :: digits) buf maxLen scale).bind pstrdup = some text
        ∧ Printed displayLeadingZero data scale text := by
  have hsign : sign data = [minus] := by
    unfold sign
    rw [if_pos (by omega)]
  have habs : data.natAbs = val digits := by omega
  apply Exists.intro
  apply And.intro (pstrdup_outMin h hbuf hle hmax)
  rw [spliced_eq_parts h hnonzero hle hshown, ← habs, ← hsign]
  exact printed_parts displayLeadingZero data scale

theorem not_printed_outMin {data : Int} (hneg : data < 0) (hpos : 0 < scale) (h : digits.length = scale)
    : ¬Printed true data scale ([minus] ++ (digits.take (digits.length - scale)
        ++ (if 0 < scale then point :: digits.drop (digits.length - scale) else []))) := by
  intro hprinted
  obtain ⟨whole, frac, htext, hwhole, -⟩ := hprinted.parts
  rw [if_pos hneg, if_pos hpos, if_pos hpos, h, Nat.sub_self, take_zero, nil_append] at htext
  rw [if_neg (by simp)] at hwhole
  obtain ⟨hnumeral, -⟩ := hwhole
  cases whole with
  | nil => exact hnumeral.nonempty rfl
  | cons c whole =>
    simp only [nil_append, cons_append, List.cons.injEq, true_and] at htext
    have hdigit := hnumeral.digits c (by simp)
    rw [← htext.1] at hdigit
    exact absurd hdigit (by decide)

def int64MinDigits : Bytes := int64MinStr.tail
def int128MinDigits : Bytes := int128MinStr.tail

theorem isNumeral_int64MinDigits : IsNumeral int64MinDigits := by
  constructor
  . decide
  . simp [int64MinDigits, int64MinStr, IsDigit]
  . intro hhead
    exact absurd hhead (by decide)

theorem isNumeral_int128MinDigits : IsNumeral int128MinDigits := by
  constructor
  . decide
  . simp [int128MinDigits, int128MinStr, IsDigit]
  . intro hhead
    exact absurd hhead (by decide)

theorem int64Min_eq : int64Min = -(val int64MinDigits : Int) := by decide
theorem int128Min_eq : int128Min = -(val int128MinDigits : Int) := by decide

end Minimum

theorem bi64Out_int64Min (buf : Bytes) (scale : Nat)
    : bi64Out displayLeadingZero buf int64Min scale
        =
      (outMin (minus :: int64MinDigits) buf maxBi64Len scale).bind pstrdup := by
  unfold bi64Out
  rw [if_pos rfl]
  rfl

theorem bi128Out_int128Min (buf : Bytes) (scale : Nat)
    : bi128Out displayLeadingZero buf int128Min scale
        =
      (outMin (minus :: int128MinDigits) buf maxBi128Len scale).bind pstrdup := by
  unfold bi128Out
  rw [if_pos rfl]
  rfl

theorem not_printed_min (buf : Bytes) (hbuf : buf.length = maxBi64Len)
    : ¬∃ text, bi64Out true buf int64Min 19 = some text ∧ Printed true int64Min 19 text := by
  rintro ⟨text, htext, hprinted⟩
  rw [bi64Out_int64Min, pstrdup_outMin isNumeral_int64MinDigits hbuf (by decide) (by decide),
    Option.some.injEq] at htext
  rw [← htext] at hprinted
  exact not_printed_outMin (by decide) (by omega) (by decide) hprinted

-- The one number that loses its leading zero is the minimum value with the largest scale.
theorem bigInteger_out_printed_iff (displayLeadingZero : Bool)
    : (∀ (buf : Bytes) (data : Int) (scale : Nat),
        buf.length = maxBi64Len → Fits 64 data → scale ≤ maxInt64Digit →
          ((∃ text, bi64Out displayLeadingZero buf data scale = some text
              ∧ Printed displayLeadingZero data scale text)
            ↔
          ¬(data = int64Min ∧ scale = maxInt64Digit ∧ displayLeadingZero = true)))
      ∧ (∀ (buf : Bytes) (data : Int) (scale : Nat),
        buf.length = maxBi128Len → Fits 128 data → scale ≤ maxInt128Digit →
          ∃ text, bi128Out displayLeadingZero buf data scale = some text
            ∧ Printed displayLeadingZero data scale text) := by
  apply And.intro
  . intro buf data scale hbuf hdata hle
    by_cases hmin : data = int64Min
    . rw [hmin]
      apply Iff.intro
      . rintro htext ⟨-, hscale, hflag⟩
        rw [hscale, hflag] at htext
        exact not_printed_min buf hbuf htext
      . intro hnot
        rw [bi64Out_int64Min]
        apply printed_outMin isNumeral_int64MinDigits int64Min_eq (by decide) hbuf hle (by decide)
        by_cases hflag : displayLeadingZero = false
        . exact Or.inr hflag
        . apply Or.inl
          apply Nat.lt_of_le_of_ne hle
          intro hscale
          exact hnot (And.intro rfl (And.intro hscale (Bool.eq_true_of_not_eq_false hflag)))
    . apply Iff.intro
      . rintro - ⟨hdata, -⟩
        exact hmin hdata
      . intro _
        exact Exists.intro _ (And.intro (bi64Out_eq hbuf hdata hmin hle) (printed_parts _ _ _))
  . intro buf data scale hbuf hdata hle
    by_cases hmin : data = int128Min
    . rw [hmin, bi128Out_int128Min]
      exact printed_outMin isNumeral_int128MinDigits int128Min_eq (by decide) hbuf
        (Nat.le_trans hle (by decide)) (by decide) (Or.inl (Nat.lt_of_le_of_lt hle (by decide)))
    . exact Exists.intro _ (And.intro (bi128Out_eq hbuf hdata hmin hle) (printed_parts _ _ _))

theorem bigInteger_out_printed_iff_fraction
    : ((∃ text, bi64Out false (List.replicate maxBi64Len 0) (-5) 2 = some text ∧ Printed false (-5) 2 text)
        ↔ ¬((-5 : Int) = int64Min ∧ 2 = maxInt64Digit ∧ false = true))
      ∧ ∃ text, bi128Out true (List.replicate maxBi128Len 0) (-5) 38 = some text ∧
        Printed true (-5) 38 text :=
  And.intro
    ((bigInteger_out_printed_iff false).1 _ _ _ List.length_replicate (by decide) (by decide))
    ((bigInteger_out_printed_iff true).2 _ _ _ List.length_replicate (by decide) (by decide))

theorem not_bi64Out_printed
    : ¬∀ (displayLeadingZero : Bool) (buf : Bytes) (data : Int) (scale : Nat),
        buf.length = maxBi64Len → Fits 64 data → scale ≤ maxInt64Digit →
          ∃ text, bi64Out displayLeadingZero buf data scale = some text
            ∧ Printed displayLeadingZero data scale text := by
  intro h
  exact not_printed_min (List.replicate maxBi64Len 0) List.length_replicate
    (h true _ int64Min 19 List.length_replicate (by decide) (by decide))

end BigInteger

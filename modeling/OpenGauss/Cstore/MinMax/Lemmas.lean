import OpenGauss.Cstore.MinMax.Impl
import OpenGauss.Lib.FirstDifference

/-!
This module contains the verification of the rough check.
-/

open FirstDifference List Strategy

@[reducible]
def byteOrder : LinearOrder UInt8 where
  le_refl := by
    intro a
    exact UInt8.le_refl a
  le_trans := by
    intro a b c
    exact UInt8.le_trans
  le_antisymm := by
    intro a b
    exact UInt8.le_antisymm
  le_total := by
    intro a b
    exact UInt8.le_total a b
  lt_iff_le_not_ge := by
    intro a b
    rw [UInt8.lt_iff_toNat_lt, UInt8.le_iff_toNat_le, UInt8.le_iff_toNat_le]
    omega
  toDecidableLE := inferInstance

attribute [local instance] byteOrder

section Memcmp

theorem memcmp_neg_iff (x y : Bytes) : memcmp x y (min x.length y.length) < 0 ↔ Below x y := by
  induction x generalizing y with
  | nil => simp [memcmp]
  | cons b x ih =>
    cases y with
    | nil => simp [memcmp]
    | cons c y =>
      rw [length_cons, length_cons, Nat.succ_min_succ, memcmp, cons_below_cons]
      split
      . next heq =>
        rw [ih, heq]
        simp
      . next hne =>
        split
        . next hlt => simp [hlt]
        . next hlt => simp [hlt, hne]

theorem memcmp_swap (x y : Bytes) (n : Nat) : memcmp y x n = -memcmp x y n := by
  induction n generalizing x y with
  | zero => simp [memcmp]
  | succ n ih =>
    cases x with
    | nil => cases y <;> simp [memcmp]
    | cons b x =>
      cases y with
      | nil => simp [memcmp]
      | cons c y =>
        rw [memcmp, memcmp]
        rcases lt_trichotomy b c with h | h | h
        . simp [h, lt_asymm h, ne_of_lt h, ne_of_gt h]
        . subst h
          rw [if_pos rfl, if_pos rfl, ih]
        . simp [h, lt_asymm h, ne_of_lt h, ne_of_gt h]

theorem memcmp_pos_iff (x y : Bytes) : memcmp x y (min x.length y.length) > 0 ↔ Below y x := by
  rw [← memcmp_neg_iff, memcmp_swap, Nat.min_comm]
  omega

theorem memcmp_take {x y : Bytes} {n a b : Nat} (ha : n ≤ a) (hb : n ≤ b)
    : memcmp (x.take a) (y.take b) n = memcmp x y n := by
  induction n generalizing x y a b with
  | zero => simp [memcmp]
  | succ n ih =>
    cases a with
    | zero => omega
    | succ a =>
      cases b with
      | zero => omega
      | succ b =>
        cases x with
        | nil => simp [memcmp]
        | cons c x =>
          cases y with
          | nil => simp [memcmp]
          | cons d y =>
            rw [take_succ_cons, take_succ_cons, memcmp, memcmp, ih (by omega) (by omega)]

theorem memcmp_lt_iff (x y : Bytes)
    : (memcmp x y (min x.length y.length) < 0 ∨
        (memcmp x y (min x.length y.length) = 0 ∧ x.length < y.length)) ↔ x < y := by
  induction x generalizing y with
  | nil => cases y <;> simp [memcmp]
  | cons b x ih =>
    cases y with
    | nil => simp [memcmp]
    | cons c y =>
      rw [length_cons, length_cons, Nat.succ_min_succ, memcmp, cons_lt_cons_iff, ← ih]
      rcases lt_trichotomy b c with h | h | h
      . simp [h, ne_of_lt h]
      . simp [h]
      . simp [lt_asymm h, ne_of_gt h]

theorem memcmp_gt_iff (x y : Bytes)
    : (memcmp x y (min x.length y.length) > 0 ∨
        (memcmp x y (min x.length y.length) = 0 ∧ x.length > y.length)) ↔ y < x := by
  rw [← memcmp_lt_iff, memcmp_swap x y, Nat.min_comm y.length]
  omega

theorem varstrCmpC_neg_iff (x y : Bytes) : varstrCmpC x y < 0 ↔ x < y := by
  rw [← memcmp_lt_iff]
  unfold varstrCmpC
  dsimp only
  split
  . split <;> omega
  . omega

theorem varstrCmpC_pos_iff (x y : Bytes) : varstrCmpC x y > 0 ↔ y < x := by
  rw [← memcmp_gt_iff]
  unfold varstrCmpC
  dsimp only
  split
  . split <;> omega
  . omega

theorem varstrCmpC_eq_zero_iff (x y : Bytes) : varstrCmpC x y = 0 ↔ x = y := by
  have hneg := varstrCmpC_neg_iff x y
  have hpos := varstrCmpC_pos_iff x y
  constructor
  . intro hzero
    apply le_antisymm
    . rw [← not_lt, ← hpos]
      omega
    . rw [← not_lt, ← hneg]
      omega
  . rintro rfl
    have hirrefl := lt_irrefl x
    rw [← hneg] at hirrefl
    rw [← hneg] at hpos
    omega

theorem bitwiseEq_iff (x y : Bytes) : bitwiseEq x y = true ↔ x = y := by
  unfold bitwiseEq
  split
  . next hlen =>
    constructor
    . intro h
      cases h
    . rintro rfl
      exact absurd rfl hlen
  . next hlen =>
    rw [not_not] at hlen
    rw [← varstrCmpC_eq_zero_iff, decide_eq_true_iff]
    unfold varstrCmpC
    rw [hlen]
    simp

end Memcmp

section Fold

variable {vals : List Bytes}

structure Bounds {β : Type} [LinearOrder β] (keys : List β) (least greatest : β) : Prop where
  least_mem : least ∈ keys
  greatest_mem : greatest ∈ keys
  least_le : ∀ key ∈ keys, least ≤ key
  le_greatest : ∀ key ∈ keys, key ≤ greatest

namespace Bounds

variable {β : Type} [LinearOrder β]

theorem singleton (key : β) : Bounds [key] key key := by
  constructor <;> simp

theorem push {keys : List β} {least greatest : β} (hbounds : Bounds keys least greatest) (key : β)
    : Bounds (keys ++ [key]) (if key < least then key else least)
        (if key < least then greatest else if greatest < key then key else greatest) := by
  have hle := hbounds.le_greatest _ hbounds.least_mem
  have hleast := hbounds.least_le
  have hgreatest := hbounds.le_greatest
  have hleastMem := hbounds.least_mem
  have hgreatestMem := hbounds.greatest_mem
  split
  . constructor <;> grind
  . split
    . constructor <;> grind
    . constructor <;> grind

end Bounds

theorem foldl_compare_bounds {T : Type} (val : T → Int) (zero : T) {vals : List T} (hne : vals ≠ [])
    : (vals.foldl (MinMax.compare val) (.initial zero)).first = false ∧
      Bounds (vals.map val) (val (vals.foldl (MinMax.compare val) (.initial zero)).minval)
        (val (vals.foldl (MinMax.compare val) (.initial zero)).maxval) := by
  induction vals using List.reverseRecOn with
  | nil => exact absurd rfl hne
  | append_singleton vals v ih =>
    rw [foldl_append, map_append]
    by_cases hnil : vals = []
    . subst hnil
      exact ⟨rfl, Bounds.singleton _⟩
    . obtain ⟨hnotFirst, hbounds⟩ := ih hnil
      have hpush := hbounds.push (val v)
      generalize vals.foldl (MinMax.compare val) (.initial zero) = st at *
      simp only [foldl_cons, foldl_nil, MinMax.compare, hnotFirst, Bool.false_eq_true, ↓reduceIte]
      by_cases hmin : val v < val st.minval
      . simp only [hmin, ↓reduceIte] at hpush ⊢
        exact ⟨trivial, hpush⟩
      . by_cases hmax : val v > val st.maxval
        . simp only [hmin, hmax, ↓reduceIte] at hpush ⊢
          exact ⟨trivial, hpush⟩
        . simp only [hmin, hmax, ↓reduceIte] at hpush ⊢
          exact ⟨hnotFirst, hpush⟩

def stringKey (v : Bytes) : Bytes := v.take (minMaxLen - 1)

theorem take_min_length (v : Bytes) : v.take (min v.length (minMaxLen - 1)) = stringKey v := by
  unfold stringKey
  rw [Nat.min_comm, ← take_take, take_length]

theorem length_stringKey (v : Bytes) : (stringKey v).length = min v.length (minMaxLen - 1) := by
  rw [stringKey, length_take, Nat.min_comm]

theorem memcmp_stringKey (v dat : Bytes) {length : Nat} (hlen : length ≤ dat.length)
    : memcmp v dat (min (min v.length (minMaxLen - 1)) length)
        =
      memcmp (stringKey v) (dat.take length) (min (stringKey v).length (dat.take length).length) := by
  rw [length_stringKey, length_take_of_le hlen, stringKey, memcmp_take (by omega) (by omega)]

theorem foldl_compareVarStrType_bounds (hne : vals ≠ [])
    : let st := vals.foldl compareVarStrType (.initial ⟨[], 0⟩)
      st.first = false ∧ st.minval.length ≤ st.minval.dat.length ∧
      st.maxval.length ≤ st.maxval.dat.length ∧
      Bounds (vals.map stringKey) (st.minval.dat.take st.minval.length)
        (st.maxval.dat.take st.maxval.length) := by
  dsimp only
  induction vals using List.reverseRecOn with
  | nil => exact absurd rfl hne
  | append_singleton vals v ih =>
    have hcut := take_min_length v
    have hsize : min v.length (minMaxLen - 1) ≤ v.length := Nat.min_le_left ..
    rw [foldl_append, map_append]
    by_cases hnil : vals = []
    . subst hnil
      simp only [foldl_nil, foldl_cons, compareVarStrType, MinMax.initial, ↓reduceIte, hcut]
      exact ⟨trivial, hsize, hsize, Bounds.singleton _⟩
    . obtain ⟨hnotFirst, hminLen, hmaxLen, hbounds⟩ := ih hnil
      have hpush := hbounds.push (stringKey v)
      generalize vals.foldl compareVarStrType (.initial ⟨[], 0⟩) = st at *
      have hmin := memcmp_lt_iff (stringKey v) (st.minval.dat.take st.minval.length)
      have hmax := memcmp_gt_iff (stringKey v) (st.maxval.dat.take st.maxval.length)
      rw [← memcmp_stringKey v st.minval.dat hminLen, length_stringKey, length_take_of_le hminLen] at hmin
      rw [← memcmp_stringKey v st.maxval.dat hmaxLen, length_stringKey, length_take_of_le hmaxLen] at hmax
      simp only [foldl_cons, foldl_nil, compareVarStrType, hnotFirst, Bool.false_eq_true,
        ↓reduceIte, hmin, hmax]
      by_cases hlt : stringKey v < st.minval.dat.take st.minval.length
      . simp only [hlt, ↓reduceIte, hcut] at hpush ⊢
        exact ⟨trivial, hsize, hmaxLen, hpush⟩
      . by_cases hgt : st.maxval.dat.take st.maxval.length < stringKey v
        . simp only [hlt, hgt, ↓reduceIte, hcut] at hpush ⊢
          exact ⟨trivial, hminLen, hsize, hpush⟩
        . simp only [hlt, hgt, ↓reduceIte] at hpush ⊢
          exact ⟨hnotFirst, hminLen, hmaxLen, hpush⟩

theorem foldl_setMinMaxVarStrType_bounds (hne : vals ≠ [])
    : let st := vals.foldl setMinMaxVarStrType (.initial [])
      st.first = false ∧ Bounds (vals.map stringKey) st.minval st.maxval := by
  dsimp only
  induction vals using List.reverseRecOn with
  | nil => exact absurd rfl hne
  | append_singleton vals v ih =>
    have hcut := take_min_length v
    rw [foldl_append, map_append]
    by_cases hnil : vals = []
    . subst hnil
      simp only [foldl_nil, foldl_cons, setMinMaxVarStrType, MinMax.initial, ↓reduceIte, hcut]
      exact ⟨trivial, Bounds.singleton _⟩
    . obtain ⟨hnotFirst, hbounds⟩ := ih hnil
      have hpush := hbounds.push (stringKey v)
      generalize vals.foldl setMinMaxVarStrType (.initial []) = st at *
      have hmin := memcmp_lt_iff (stringKey v) st.minval
      have hmax := memcmp_gt_iff (stringKey v) st.maxval
      have hcmpMin := memcmp_stringKey v st.minval (Nat.le_refl _)
      have hcmpMax := memcmp_stringKey v st.maxval (Nat.le_refl _)
      rw [take_length] at hcmpMin hcmpMax
      rw [← hcmpMin, length_stringKey] at hmin
      rw [← hcmpMax, length_stringKey] at hmax
      simp only [foldl_cons, foldl_nil, setMinMaxVarStrType, hnotFirst, Bool.false_eq_true,
        ↓reduceIte, hmin, hmax]
      by_cases hlt : stringKey v < st.minval
      . simp only [hlt, ↓reduceIte, hcut] at hpush ⊢
        exact ⟨trivial, hpush⟩
      . by_cases hgt : st.maxval < stringKey v
        . simp only [hlt, hgt, ↓reduceIte, hcut] at hpush ⊢
          exact ⟨trivial, hpush⟩
        . simp only [hlt, hgt, ↓reduceIte] at hpush ⊢
          exact ⟨hnotFirst, hpush⟩

theorem stringDesc_bounds (fold : VarStrFold) (hne : vals ≠ [])
    : Bounds (vals.map stringKey) (stringDesc fold vals).cuMin (stringDesc fold vals).cuMax := by
  cases fold with
  | compareAndFinish => exact (foldl_compareVarStrType_bounds hne).2.2.2
  | setMinMax => exact (foldl_setMinMaxVarStrType_bounds hne).2

end Fold

section Clash

def Exceeds (x y : Bytes) : Prop := memcmp x y (min x.length y.length) > 0

instance (x y : Bytes) : Decidable (Exceeds x y) := inferInstanceAs (Decidable (_ > _))

-- Within the bytes that the CU descriptor keeps, every value exceeds the argument.
def AllExceed (vals : List Bytes) (arg : Bytes) : Prop := ∀ v ∈ vals, Exceeds (stringKey v) arg

-- Within these bytes, the argument exceeds the greatest value.
def ExceedsGreatest (vals : List Bytes) (arg : Bytes) : Prop :=
  ∃ w ∈ vals, (∀ u ∈ vals, varstrCmpC (stringKey u) (stringKey w) ≤ 0) ∧ Exceeds arg (stringKey w)

def trimmed (v : Bytes) : Bytes := v.take (bcTruelen v)

-- The two bytes are on different sides of 0x80.
def OtherSide (x y : Int8) : Prop := ¬ (x.toUInt8.toNat < 0x80 ↔ y.toUInt8.toNat < 0x80)

instance (x y : Int8) : Decidable (OtherSide x y) := inferInstanceAs (Decidable (¬ _))

/--
The values that match are those on the other side of 0x80. `CompareChar` and `RoughCheckCharCU` compare
signed bytes, the operators unsigned ones.
-/
def CharClash (strategy : Strategy) (vals : List Int8) (arg : Int8) : Prop :=
  (∃ v ∈ vals, OtherSide v arg) ∧ ∀ v ∈ vals, (charCompare strategy v arg = true ↔ OtherSide v arg)

/--
A first difference that decides the byte order is a trailing blank, which the operators of `bpchar`
ignore.
-/
def BlankClash (strategy : Strategy) (vals : List Bytes) (arg : Bytes) : Prop :=
  match strategy with
  | .less => AllExceed vals arg ∧ ∃ v ∈ vals, ¬ Exceeds (trimmed v) arg
  | .lessEqual => AllExceed vals arg ∧ ∃ v ∈ vals, ¬ Exceeds (trimmed v) arg
  | .equal => ExceedsGreatest vals arg ∧ ∃ v ∈ vals, trimmed v = trimmed arg
  | .greaterEqual => ExceedsGreatest vals arg ∧
    ∃ v ∈ vals, trimmed v = trimmed arg ∨ (Exceeds arg v ∧ ¬ Exceeds (trimmed arg) v)
  | .greater => ExceedsGreatest vals arg ∧ ∃ v ∈ vals, Exceeds arg v ∧ ¬ Exceeds (trimmed arg) v

/--
The collation makes a value equal to the argument that has other bytes, within those that the CU
descriptor keeps.
-/
def CollationClash (equal : Bytes → Bytes → Prop) (vals : List Bytes) (arg : Bytes) : Prop :=
  ∃ v ∈ vals, equal v arg ∧ stringKey v ≠ stringKey arg

def BpcharClash (strategy : Strategy) (collation : Collation) (vals : List Bytes) (arg : Bytes) : Prop :=
  match collation with
  | .c => BlankClash strategy vals arg
  | .bFormat cmp =>
    strategy = .equal ∧ CollationClash (fun x y => cmp (trimmed x) (trimmed y) = 0) vals arg
  | .locale _ => strategy = .equal ∧ BlankClash .equal vals arg

def TextClash (strategy : Strategy) (collation : Collation) (vals : List Bytes) (arg : Bytes) : Prop :=
  match collation with
  | .c => False
  | .bFormat cmp => strategy = .equal ∧ CollationClash (fun x y => cmp x y = 0) vals arg
  | .locale _ => False

def PruneClash (strategy : Strategy) (collation : Collation)
    : (type : ColumnType) → List type.Val → type.Arg → Prop
  | .char => CharClash strategy
  | .int2 => fun _ _ => False
  | .int4 => fun _ _ => False
  | .int8 => fun _ _ => False
  | .oid => fun _ _ => False
  | .date => fun _ _ => False
  | .time => fun _ _ => False
  | .timestamp => fun _ _ => False
  | .timestamptz => fun _ _ => False
  | .bpchar => BpcharClash strategy collation
  | .varchar => TextClash strategy collation
  | .text => TextClash strategy collation

-- The comparison is one that the collation decides against the bytes.
def ByCollation (strategy : Strategy) (collation : Collation) : ColumnType → Prop
  | .bpchar | .varchar | .text => strategy = .equal ∧ isBFormatCollation collation = true
  | _ => False

end Clash

section Fixed

variable {strategy : Strategy}

theorem roughCheckIntCU_of_holds {keys : List Int} {least greatest v arg : Int}
    (hbounds : Bounds keys least greatest) (hv : v ∈ keys) (hholds : strategy.holds v arg = true)
    : roughCheckIntCU strategy least greatest arg = true := by
  have hleast := hbounds.least_le v hv
  have hgreatest := hbounds.le_greatest v hv
  cases strategy with
  | _ =>
    simp only [holds, decide_eq_true_eq] at hholds
    rw [roughCheckIntCU, if_neg (by omega)]

theorem roughCheckFixed_of_holds {T : Type} {val : T → Int} (zero : T) {vals : List T}
    {arg : Int} (hex : ∃ v ∈ vals, strategy.holds (val v) arg = true)
    : roughCheckFixed strategy val (vals.foldl (MinMax.compare val) (.initial zero)) arg = true := by
  obtain ⟨v, hv, hholds⟩ := hex
  apply roughCheckIntCU_of_holds (foldl_compare_bounds val zero (ne_nil_of_mem hv)).2 _ hholds
  apply mem_map_of_mem hv

theorem int8_toInt (x : Int8)
    : x.toInt = if x.toUInt8.toNat < 0x80 then (x.toUInt8.toNat : Int)
      else (x.toUInt8.toNat : Int) - 0x100 := by
  have hcond := BitVec.toInt_eq_toNat_cond x.toBitVec
  have hnat : x.toUInt8.toNat = x.toBitVec.toNat := rfl
  rw [hnat]
  change x.toBitVec.toInt = _
  rw [hcond]
  split <;> split <;> omega

theorem roughCheckIntCU_iff (hstrategy : strategy ≠ .equal) {keys : List Int}
    {least greatest arg : Int} (hbounds : Bounds keys least greatest)
    : roughCheckIntCU strategy least greatest arg = true ↔ ∃ key ∈ keys, strategy.holds key arg = true := by
  constructor
  . intro hcheck
    cases strategy with
    | less | lessEqual =>
      simp only [roughCheckIntCU, Bool.if_true_right, Bool.or_false, Bool.not_eq_true',
        decide_eq_false_iff_not] at hcheck
      refine ⟨least, hbounds.least_mem, ?_⟩
      simp only [holds, decide_eq_true_eq]
      omega
    | equal => exact absurd rfl hstrategy
    | greaterEqual | greater =>
      simp only [roughCheckIntCU, Bool.if_true_right, Bool.or_false, Bool.not_eq_true',
        decide_eq_false_iff_not] at hcheck
      refine ⟨greatest, hbounds.greatest_mem, ?_⟩
      simp only [holds, decide_eq_true_eq]
      omega
  . rintro ⟨key, hkey, hholds⟩
    apply roughCheckIntCU_of_holds hbounds hkey hholds

theorem holds_toInt_iff (hstrategy : strategy ≠ .equal) (v arg : Int8)
    : strategy.holds v.toInt arg.toInt = true ↔ ¬ (charCompare strategy v arg = true ↔ OtherSide v arg) := by
  have hv := int8_toInt v
  have harg := int8_toInt arg
  have hvByte := v.toUInt8.toNat_lt
  have hargByte := arg.toUInt8.toNat_lt
  unfold OtherSide
  cases strategy with
  | equal => exact absurd rfl hstrategy
  | _ =>
    simp only [charCompare, holds, decide_eq_true_eq]
    split at hv <;> split at harg <;> omega

theorem roughCheck_char_iff (strategy : Strategy) (vals : List Int8) (arg : Int8)
    : ((∃ v ∈ vals, charCompare strategy v arg = true) →
        roughCheckFixed strategy Int8.toInt (vals.foldl compareChar (.initial 0)) arg.toInt = true)
        ↔
      ¬ CharClash strategy vals arg := by
  by_cases hequal : strategy = .equal
  . subst hequal
    constructor
    . rintro _ ⟨⟨v, hv, hside⟩, hall⟩
      have heq := (hall v hv).mpr hside
      simp only [charCompare, decide_eq_true_eq] at heq
      rw [heq] at hside
      exact hside Iff.rfl
    . rintro _ ⟨v, hv, heq⟩
      apply roughCheckFixed_of_holds
      refine ⟨v, hv, ?_⟩
      simp only [charCompare, decide_eq_true_eq] at heq
      simp [holds, heq]
  . by_cases hnil : vals = []
    . simp [hnil, CharClash]
    . have hcheck := @roughCheckIntCU_iff strategy hequal _ _ _ arg.toInt
        (foldl_compare_bounds Int8.toInt 0 hnil).2
      have hsigned := holds_toInt_iff hequal
      unfold roughCheckFixed compareChar
      rw [hcheck]
      constructor
      . rintro hsound ⟨⟨v, hv, hside⟩, hall⟩
        obtain ⟨key, hkey, hholds⟩ := hsound ⟨v, hv, (hall v hv).mpr hside⟩
        rw [mem_map] at hkey
        obtain ⟨w, hw, rfl⟩ := hkey
        rw [hsigned] at hholds
        exact hholds (hall w hw)
      . rintro hclash ⟨v, hv, hcompare⟩
        by_contra hnone
        have hall : ∀ w ∈ vals, (charCompare strategy w arg = true ↔ OtherSide w arg) := by
          intro w hw
          by_contra hdiffer
          rw [← hsigned] at hdiffer
          exact hnone ⟨_, mem_map_of_mem hw, hdiffer⟩
        apply hclash
        exact ⟨⟨v, hv, (hall v hv).mp hcompare⟩, hall⟩

end Fixed

section String

variable (strategy : Strategy)

theorem exceeds_iff (x y : Bytes) : Exceeds x y ↔ Below y x := memcmp_pos_iff x y

theorem trimmed_eq (v : Bytes) : trimmed v = trim blank v := by
  have htrim : trim blank v = (v.reverse.dropWhile (· = blank)).reverse := by
    induction v with
    | nil => rfl
    | cons b v ih =>
      rw [trim, ih, reverse_cons, dropWhile_append]
      by_cases hnil : v.reverse.dropWhile (· = blank) = []
      . by_cases hb : b = blank <;> simp [hnil, hb]
      . simp [hnil]
  have hpre := trim_isPrefix blank v
  rw [prefix_iff_eq_take] at hpre
  unfold trimmed bcTruelen
  rw [hpre, htrim, length_reverse]

section Bounds

variable {vals : List Bytes} {least greatest : Bytes} (hbounds : Bounds (vals.map stringKey) least greatest)
  (arg : Bytes)

include hbounds

theorem allExceed_iff : AllExceed vals arg ↔ Below arg least := by
  constructor
  . intro hall
    obtain ⟨v, hv, hkey⟩ := mem_map.mp hbounds.least_mem
    rw [← hkey, ← exceeds_iff]
    apply hall v hv
  . intro hbelow v hv
    rw [exceeds_iff]
    apply below_of_below_of_le hbelow
    apply hbounds.least_le
    apply mem_map_of_mem hv

theorem exceedsGreatest_iff : ExceedsGreatest vals arg ↔ Below greatest arg := by
  constructor
  . rintro ⟨w, hw, hgreatest, hexceeds⟩
    have hle := hbounds.le_greatest _ (mem_map_of_mem hw)
    have hge : greatest ≤ stringKey w := by
      obtain ⟨u, hu, hkey⟩ := mem_map.mp hbounds.greatest_mem
      have hcmp := hgreatest u hu
      rw [← hkey, ← not_lt, ← varstrCmpC_pos_iff]
      omega
    rw [exceeds_iff] at hexceeds
    rwa [le_antisymm hge hle]
  . intro hbelow
    obtain ⟨w, hw, hkey⟩ := mem_map.mp hbounds.greatest_mem
    refine ⟨w, hw, ?_, ?_⟩
    . intro u hu
      have hle := hbounds.le_greatest _ (mem_map_of_mem hu)
      have hpos := varstrCmpC_pos_iff (stringKey u) (stringKey w)
      rw [← not_lt, ← hkey, ← hpos] at hle
      omega
    . rw [exceeds_iff, hkey]
      exact hbelow

theorem not_below_least {v : Bytes} (hv : v ∈ vals) (hnot : ¬ Below arg v) : ¬ Below arg least := by
  intro hbelow
  apply hnot
  have hle := hbounds.least_le _ (mem_map_of_mem hv)
  apply below_of_below_take (below_of_below_of_le hbelow hle)

theorem lt_of_greatest_below {v : Bytes} (hv : v ∈ vals) (hbelow : Below greatest arg) : v < arg := by
  have hlen : greatest.length ≤ minMaxLen - 1 := by
    obtain ⟨w, _, hkey⟩ := mem_map.mp hbounds.greatest_mem
    rw [← hkey, length_stringKey]
    apply Nat.min_le_right
  by_contra hge
  have hle := hbounds.le_greatest _ (mem_map_of_mem hv)
  have hlt := lt_of_below (below_take_of_below hlen hbelow)
  have hmono := take_le_take (minMaxLen - 1) (not_lt.mp hge)
  exact absurd (lt_of_lt_of_le hlt hmono) (not_lt.mpr hle)

end Bounds

def Pruned (strategy : Strategy) (vals : List Bytes) (arg : Bytes) : Prop :=
  match strategy with
  | .less => AllExceed vals arg
  | .lessEqual => AllExceed vals arg
  | .equal => AllExceed vals arg ∨ ExceedsGreatest vals arg
  | .greaterEqual => ExceedsGreatest vals arg
  | .greater => ExceedsGreatest vals arg

theorem roughCheckStringCU_iff (fold : VarStrFold) (strategy : Strategy) {vals : List Bytes} (hne : vals ≠ [])
    (arg : Bytes)
    : roughCheckStringCU strategy (stringDesc fold vals) arg = true ↔ ¬ Pruned strategy vals arg := by
  have hbounds := stringDesc_bounds fold hne
  have hmin := memcmp_pos_iff (stringDesc fold vals).cuMin arg
  have hmax := memcmp_neg_iff (stringDesc fold vals).cuMax arg
  rw [← allExceed_iff hbounds] at hmin
  rw [← exceedsGreatest_iff hbounds] at hmax
  unfold roughCheckStringCU Pruned
  simp only [← hmin, ← hmax]
  cases strategy <;> simp

theorem textCompare_c (v arg : Bytes)
    : textCompare strategy .c v arg = strategy.holds (varstrCmpC v arg) 0 := by
  cases strategy with
  | equal =>
    have hbitwise := bitwiseEq_iff v arg
    have hzero := varstrCmpC_eq_zero_iff v arg
    rw [Bool.eq_iff_iff]
    simp [textCompare, texteq, isBFormatCollation, holds, hbitwise, hzero]
  | _ => rfl

theorem not_pruned_of_holds {strategy : Strategy} {vals : List Bytes} {v arg : Bytes} (hv : v ∈ vals)
    (hholds : strategy.holds (varstrCmpC v arg) 0 = true)
    : ¬ Pruned strategy vals arg := by
  have hbounds := stringDesc_bounds .setMinMax (ne_nil_of_mem hv)
  have hneg := varstrCmpC_neg_iff v arg
  have hpos := varstrCmpC_pos_iff v arg
  have hmin (hle : varstrCmpC v arg ≤ 0) : ¬ AllExceed vals arg := by
    rw [allExceed_iff hbounds]
    apply not_below_least hbounds arg hv
    intro hbelow
    have hlt := lt_of_below hbelow
    rw [← hpos] at hlt
    omega
  have hmax (hge : varstrCmpC v arg ≥ 0) : ¬ ExceedsGreatest vals arg := by
    rw [exceedsGreatest_iff hbounds]
    intro hbelow
    have hlt := lt_of_greatest_below hbounds arg hv hbelow
    rw [← hneg] at hlt
    omega
  unfold Pruned
  cases strategy with
  | less =>
    simp only [holds, decide_eq_true_eq] at hholds
    apply hmin
    omega
  | lessEqual =>
    simp only [holds, decide_eq_true_eq] at hholds
    apply hmin
    omega
  | equal =>
    simp only [holds, decide_eq_true_eq] at hholds
    rintro (hall | hgreatest)
    . exact hmin (by omega) hall
    . exact hmax (by omega) hgreatest
  | greaterEqual =>
    simp only [holds, decide_eq_true_eq] at hholds
    apply hmax
    omega
  | greater =>
    simp only [holds, decide_eq_true_eq] at hholds
    apply hmax
    omega

section Bpchar

variable {vals : List Bytes} {v arg : Bytes} (hv : v ∈ vals)

include hv

theorem trimmed_lt_iff_of_allExceed (hall : AllExceed vals arg)
    : trimmed v < trimmed arg ↔ ¬ Exceeds (trimmed v) arg := by
  have hbelow := below_of_below_take ((exceeds_iff _ _).mp (hall v hv))
  rw [exceeds_iff, trimmed_eq, trimmed_eq]
  apply trim_lt_trim_iff hbelow

theorem trimmed_ne_of_allExceed (hall : AllExceed vals arg) : trimmed v ≠ trimmed arg := by
  have hbelow := below_of_below_take ((exceeds_iff _ _).mp (hall v hv))
  rw [trimmed_eq, trimmed_eq]
  intro heq
  exact not_below_of_trim_eq heq.symm hbelow

theorem trimmed_gt_iff_of_exceedsGreatest (hgreatest : ExceedsGreatest vals arg)
    : trimmed arg < trimmed v ↔ Exceeds arg v ∧ ¬ Exceeds (trimmed arg) v := by
  have hbounds := stringDesc_bounds .setMinMax (ne_nil_of_mem hv)
  rw [exceedsGreatest_iff hbounds] at hgreatest
  have hlt := lt_of_greatest_below hbounds arg hv hgreatest
  rw [exceeds_iff, exceeds_iff, trimmed_eq, trimmed_eq]
  constructor
  . intro htrim
    rcases below_or_isPrefix_of_lt hlt with hbelow | hpre
    . exact ⟨hbelow, (trim_lt_trim_iff hbelow).mp htrim⟩
    . exact absurd htrim (not_lt.mpr (trim_le_trim_of_isPrefix hpre))
  . rintro ⟨hbelow, hnot⟩
    exact (trim_lt_trim_iff hbelow).mpr hnot

end Bpchar

theorem blankClash_iff (vals : List Bytes) (arg : Bytes)
    : BlankClash strategy vals arg
        ↔
      Pruned strategy vals arg ∧
        ∃ v ∈ vals, strategy.holds (varstrCmpC (trimmed v) (trimmed arg)) 0 = true := by
  have hneg (v : Bytes) := varstrCmpC_neg_iff (trimmed v) (trimmed arg)
  have hpos (v : Bytes) := varstrCmpC_pos_iff (trimmed v) (trimmed arg)
  have hzero (v : Bytes) := varstrCmpC_eq_zero_iff (trimmed v) (trimmed arg)
  unfold BlankClash Pruned
  cases strategy with
  | less =>
    simp only [holds, decide_eq_true_eq, hneg]
    apply and_congr_right
    intro hall
    apply exists_congr
    intro v
    apply and_congr_right
    intro hv
    rw [trimmed_lt_iff_of_allExceed hv hall]
  | lessEqual =>
    simp only [holds, decide_eq_true_eq]
    apply and_congr_right
    intro hall
    apply exists_congr
    intro v
    apply and_congr_right
    intro hv
    have hne := trimmed_ne_of_allExceed hv hall
    rw [← trimmed_lt_iff_of_allExceed hv hall, ← hneg]
    rw [ne_eq, ← hzero] at hne
    omega
  | equal =>
    simp only [holds, decide_eq_true_eq, hzero]
    constructor
    . rintro ⟨hgreatest, hex⟩
      exact ⟨Or.inr hgreatest, hex⟩
    . rintro ⟨hall | hgreatest, v, hv, heq⟩
      . exact absurd heq (trimmed_ne_of_allExceed hv hall)
      . exact ⟨hgreatest, v, hv, heq⟩
  | greaterEqual =>
    simp only [holds, decide_eq_true_eq]
    apply and_congr_right
    intro hgreatest
    apply exists_congr
    intro v
    apply and_congr_right
    intro hv
    rw [← trimmed_gt_iff_of_exceedsGreatest hv hgreatest, ← hpos, ← hzero]
    omega
  | greater =>
    simp only [holds, decide_eq_true_eq, gt_iff_lt]
    apply and_congr_right
    intro hgreatest
    apply exists_congr
    intro v
    apply and_congr_right
    intro hv
    rw [← trimmed_gt_iff_of_exceedsGreatest hv hgreatest, ← hpos]

theorem not_pruned_of_stringKey_eq {vals : List Bytes} {v arg : Bytes} (hv : v ∈ vals)
    (hkey : stringKey v = stringKey arg)
    : ¬ Pruned .equal vals arg := by
  have hbounds := stringDesc_bounds .setMinMax (ne_nil_of_mem hv)
  have hself : ¬ Below arg arg := fun h => lt_irrefl arg (lt_of_below h)
  rintro (hall | hgreatest)
  . have hbelow := (exceeds_iff _ _).mp (hall v hv)
    rw [hkey] at hbelow
    exact hself (below_of_below_take hbelow)
  . have hle := hbounds.le_greatest _ (mem_map_of_mem hv)
    rw [exceedsGreatest_iff hbounds] at hgreatest
    have hlen : (stringDesc .setMinMax vals).cuMax.length ≤ minMaxLen - 1 := by
      obtain ⟨w, _, hw⟩ := mem_map.mp hbounds.greatest_mem
      rw [← hw, length_stringKey]
      apply Nat.min_le_right
    have hlt := lt_of_below (below_take_of_below hlen hgreatest)
    rw [hkey] at hle
    exact absurd hlt (not_lt.mpr hle)

/--
Where the bytes decide the comparison the clash is exact. Where the collation does, it is enough that the
values that match have the bytes of the argument.
-/
theorem roughCheckString_sound (fold : VarStrFold) {strategy : Strategy} {collation : Collation}
    {vals : List Bytes} {arg : Bytes} {compare : Bytes → Bytes → Bool} {clash byCollation : Prop}
    (hbytes : ¬ byCollation →
      (clash ↔ (isCCollation collation = true ∨ strategy = .equal) ∧ Pruned strategy vals arg ∧
        ∃ v ∈ vals, compare v arg = true))
    (hcollation : byCollation → strategy = .equal ∧
      (¬ clash → ∀ v ∈ vals, compare v arg = true → stringKey v = stringKey arg))
    : (¬ clash →
        (∃ v ∈ vals, compare v arg = true) → roughCheckString fold strategy collation vals arg = true)
      ∧ (¬ byCollation →
        ((∃ v ∈ vals, compare v arg = true) → roughCheckString fold strategy collation vals arg = true) →
          ¬ clash) := by
  have hcheck (hex : ∃ v ∈ vals, compare v arg = true)
      : roughCheckString fold strategy collation vals arg = true
          ↔
        ¬ ((isCCollation collation = true ∨ strategy = .equal) ∧ Pruned strategy vals arg) := by
    obtain ⟨v, hv, _⟩ := hex
    unfold roughCheckString
    split
    . next hthrough => simp [hthrough]
    . next hthrough =>
      rw [not_and_or, Bool.not_eq_false, ne_eq, not_not] at hthrough
      rw [roughCheckStringCU_iff fold strategy (ne_nil_of_mem hv)]
      simp [hthrough]
  constructor
  . intro hnot hex
    rw [hcheck hex]
    rintro ⟨hthrough, hpruned⟩
    by_cases hby : byCollation
    . obtain ⟨hequal, hkeys⟩ := hcollation hby
      obtain ⟨v, hv, hcompare⟩ := hex
      rw [hequal] at hpruned
      exact not_pruned_of_stringKey_eq hv (hkeys hnot v hv hcompare) hpruned
    . exact hnot ((hbytes hby).mpr ⟨hthrough, hpruned, hex⟩)
  . intro hby hsound hclash
    obtain ⟨hthrough, hpruned, hex⟩ := (hbytes hby).mp hclash
    exact (hcheck hex).mp (hsound hex) ⟨hthrough, hpruned⟩

section Types

variable {collation : Collation} {vals : List Bytes} {arg : Bytes}

theorem stringKey_eq_of_not_collationClash {f : Bytes → Bytes} (hformat : isBFormatCollation collation = true)
    (hnot : ∀ cmp, collation = .bFormat cmp → ¬ CollationClash (fun x y => cmp (f x) (f y) = 0) vals arg)
    {v : Bytes} (hv : v ∈ vals) (hequal : varstrCmp collation (f v) (f arg) = 0)
    : stringKey v = stringKey arg := by
  cases collation with
  | bFormat cmp =>
    by_contra hkey
    exact hnot cmp rfl ⟨v, hv, hequal, hkey⟩
  | c => cases hformat
  | locale cmp => cases hformat

theorem textClash_iff (hby : ¬ ByCollation strategy collation .text)
    : TextClash strategy collation vals arg
        ↔
      (isCCollation collation = true ∨ strategy = .equal) ∧ Pruned strategy vals arg ∧
        ∃ v ∈ vals, textCompare strategy collation v arg = true := by
  have hbytes {compare : Bytes → Bytes → Bool}
      (hcompare : ∀ v, compare v arg = strategy.holds (varstrCmpC v arg) 0)
      : ¬ (Pruned strategy vals arg ∧ ∃ v ∈ vals, compare v arg = true) := by
    rintro ⟨hpruned, v, hv, hholds⟩
    rw [hcompare] at hholds
    exact not_pruned_of_holds hv hholds hpruned
  cases collation with
  | c =>
    have hnot := hbytes (textCompare_c strategy · arg)
    simp only [TextClash, isCCollation, true_or, true_and, false_iff]
    exact hnot
  | bFormat cmp =>
    simp only [ByCollation, isBFormatCollation, and_true] at hby
    simp [TextClash, isCCollation, hby]
  | locale cmp =>
    simp only [TextClash, isCCollation, Bool.false_eq_true, false_or, false_iff]
    rintro ⟨rfl, hpruned⟩
    exact hbytes (textCompare_c .equal · arg) hpruned

theorem bpcharClash_iff (hby : ¬ ByCollation strategy collation .bpchar)
    : BpcharClash strategy collation vals arg
        ↔
      (isCCollation collation = true ∨ strategy = .equal) ∧ Pruned strategy vals arg ∧
        ∃ v ∈ vals, bpcharCompare strategy collation v arg = true := by
  have hcompare (strategy : Strategy) (v : Bytes) : bpcharCompare strategy .c v arg
      = strategy.holds (varstrCmpC (trimmed v) (trimmed arg)) 0 := by
    rw [← textCompare_c]
    cases strategy <;> rfl
  cases collation with
  | c =>
    simp only [BpcharClash, isCCollation, true_or, true_and, hcompare]
    apply blankClash_iff
  | bFormat cmp =>
    simp only [ByCollation, isBFormatCollation, and_true] at hby
    simp [BpcharClash, isCCollation, hby]
  | locale cmp =>
    simp only [BpcharClash, isCCollation, Bool.false_eq_true, false_or]
    apply and_congr_right
    rintro rfl
    have hequal (v : Bytes) : bpcharCompare .equal (.locale cmp) v arg = bpcharCompare .equal .c v arg := rfl
    simp only [hequal, hcompare]
    apply blankClash_iff

end Types

end String

theorem roughCheck_of_sqlCompare (fold : VarStrFold) (strategy : Strategy) (collation : Collation)
    (type : ColumnType) (vals : List type.Val) (arg : type.Arg)
    : (¬ PruneClash strategy collation type vals arg →
        (∃ v ∈ vals, sqlCompare strategy collation type v arg = true) →
          roughCheck fold strategy collation type vals arg = true)
      ∧ (¬ ByCollation strategy collation type →
        ((∃ v ∈ vals, sqlCompare strategy collation type v arg = true) →
          roughCheck fold strategy collation type vals arg = true) →
          ¬ PruneClash strategy collation type vals arg) := by
  cases type with
  | char =>
    have h := roughCheck_char_iff strategy vals arg
    exact ⟨h.mpr, fun _ => h.mp⟩
  | int2 | int4 | int8 | oid | date | time | timestamp | timestamptz =>
    refine ⟨fun _ => roughCheckFixed_of_holds _, fun _ _ => not_false⟩
  | bpchar =>
    apply roughCheckString_sound fold (bpcharClash_iff strategy)
    rintro ⟨rfl, hformat⟩
    refine ⟨rfl, ?_⟩
    intro hnot v hv hcompare
    apply stringKey_eq_of_not_collationClash (f := trimmed) hformat ?_ hv
    . have hequal : bpcharcase collation v arg = 0 := by
        simpa [sqlCompare, bpcharCompare, bpchareq, hformat] using hcompare
      exact hequal
    . rintro cmp rfl hclash
      exact hnot ⟨rfl, hclash⟩
  | varchar | text =>
    apply roughCheckString_sound fold (textClash_iff strategy)
    rintro ⟨rfl, hformat⟩
    refine ⟨rfl, ?_⟩
    intro hnot v hv hcompare
    apply stringKey_eq_of_not_collationClash (f := fun x => x) hformat ?_ hv
    . simpa [sqlCompare, textCompare, texteq, hformat] using hcompare
    . rintro cmp rfl hclash
      exact hnot ⟨rfl, hclash⟩

theorem not_roughCheck_char_highByte
    : ¬ ∀ (fold : VarStrFold) (strategy : Strategy) (collation : Collation) (type : ColumnType)
        (vals : List type.Val) (arg : type.Arg),
        (∃ v ∈ vals, sqlCompare strategy collation type v arg = true) →
          roughCheck fold strategy collation type vals arg = true := by
  intro hsound
  have hcheck := hsound .setMinMax .greater .c .char [(-0x80 : Int8)] (0x7f : Int8)
    ⟨(-0x80 : Int8), List.mem_singleton_self _, by decide⟩
  revert hcheck
  decide

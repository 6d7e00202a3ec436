import OpenGauss.Security.IPRange.Impl
import Mathlib.Data.List.Basic
import Mathlib.Data.Set.Basic
import Mathlib.Order.Interval.Set.Defs

/-!
This module shows when the operators on addresses are those of 128-bit numbers, and that adding and
removing ranges then does to the set of addresses what it does to the list.
-/

open List

namespace IPRange

variable {x y : IPV6} {r m e : Range} {ranges : Ranges}

namespace IPV6

def num (ip : IPV6) : Nat := 2 ^ 64 * ip.upper + ip.lower

theorem lower_lt (ip : IPV6) : ip.lower < 2 ^ 64 := by
  have := ip.a.toNat_lt
  have := ip.b.toNat_lt
  unfold lower
  omega

-- The lower halves are not compared when the upper halves already decide the other way.
def Agree (x y : IPV6) : Prop := ¬ (y.upper < x.upper ∧ x.lower < y.lower)

theorem lt_iff_iff (x y : IPV6) : (x.lt y = true ↔ x.num < y.num) ↔ Agree x y := by
  have := x.lower_lt
  have := y.lower_lt
  simp only [lt, num, Agree, Bool.or_eq_true, decide_eq_true_eq]
  omega

theorem Agree.lt_iff (h : Agree x y) : x.lt y = true ↔ x.num < y.num :=
  (lt_iff_iff x y).2 h

theorem Agree.gt_iff (h : Agree y x) : x.gt y = true ↔ y.num < x.num :=
  (lt_iff_iff y x).2 h

theorem Agree.le_iff (h : Agree y x) : x.le y = true ↔ x.num ≤ y.num := by
  rw [le, Bool.not_eq_true', ← Bool.not_eq_true, h.gt_iff, Nat.not_lt]

theorem Agree.ge_iff (h : Agree x y) : x.ge y = true ↔ y.num ≤ x.num := by
  rw [ge, Bool.not_eq_true', ← Bool.not_eq_true, h.lt_iff, Nat.not_lt]

theorem num_lt (ip : IPV6) : ip.num < 2 ^ 128 := by
  have := ip.lower_lt
  have := ip.c.toNat_lt
  have := ip.d.toNat_lt
  unfold num upper
  omega

theorem num_inj (h : x.num = y.num) : x = y := by
  have := x.a.toNat_lt
  have := x.b.toNat_lt
  have := x.c.toNat_lt
  have := y.a.toNat_lt
  have := y.b.toNat_lt
  have := y.c.toNat_lt
  simp only [num, lower, upper] at h
  cases x
  cases y
  simp only [mk.injEq, ← UInt32.toNat_inj]
  dsimp only at *
  omega

-- The word of an IPv4 address is kept, so only its own 32 bits may change.
structure SuccOk (ip : IPV6) : Prop where
  ok : ip.b ≠ 0x0000FFFF ∨ (ip.c = 0 ∧ ip.d = 0 ∧ ip.a ≠ 0xFFFFFFFF)

structure PredOk (ip : IPV6) : Prop where
  ok : ip.b ≠ 0x0000FFFF ∨ (ip.c = 0 ∧ ip.d = 0 ∧ ip.a ≠ 0)

theorem toNat_sub_word (x : UInt32) {t : Int} (ht : t = 0 ∨ t = 1)
    : ((UInt32.ofInt (x.toNat - t)).toNat : Int) = x.toNat - t + 2 ^ 32 * borrow (x.toNat - t) := by
  have hx := x.toNat_lt
  rw [UInt32.ofInt, UInt32.toNat_ofNat', borrow]
  split <;> omega

theorem borrow_eq_or (tmp : Int) : borrow tmp = 0 ∨ borrow tmp = 1 := by
  rw [borrow]
  split
  . exact .inr rfl
  . exact .inl rfl

theorem succ_iff {ip : IPV6} (h : ip.num + 1 < 2 ^ 128)
    : (ip.add (.ofLower 1)).num = ip.num + 1 ↔ ip.SuccOk := by
  have ha := ip.a.toNat_lt
  have hb := ip.b.toNat_lt
  have hc := ip.c.toNat_lt
  have hd := ip.d.toNat_lt
  have hone : (1 : UInt32).toNat = 1 := rfl
  have hzero : (0 : UInt32).toNat = 0 := rfl
  have hword : (0x0000FFFF : UInt32).toNat = 65535 := rfl
  have hmax : (0xFFFFFFFF : UInt32).toNat = 4294967295 := rfl
  have hok : ip.SuccOk ↔ (ip.b.toNat ≠ 65535 ∨
      (ip.c.toNat = 0 ∧ ip.d.toNat = 0 ∧ ip.a.toNat ≠ 4294967295)) := by
    rw [← hword, ← hmax, ← hzero]
    simp only [ne_eq, UInt32.toNat_inj]
    exact ⟨fun h => h.ok, fun h => ⟨h⟩⟩
  rw [hok, add]
  split
  . rename_i heq
    have heq' : ip.b.toNat = 65535 := by rw [heq, hword]
    simp only [num, lower, upper, ofLower, UInt32.toNat_add, hone, hzero, hword]
    omega
  . rename_i hne
    have hne' : ip.b.toNat ≠ 65535 := by
      rw [← hword]
      exact fun h => hne (UInt32.toNat_inj.1 h)
    simp only [num, lower, upper] at h
    simp only [num, lower, upper, ofLower, UInt32.toNat_ofNat', hone, hzero]
    omega

theorem pred_iff {ip : IPV6} (h : 0 < ip.num) : (ip.sub (.ofLower 1)).num = ip.num - 1 ↔ ip.PredOk := by
  have ha := ip.a.toNat_lt
  have hb := ip.b.toNat_lt
  have hc := ip.c.toNat_lt
  have hd := ip.d.toNat_lt
  have hone : (1 : UInt32).toNat = 1 := rfl
  have hzero : (0 : UInt32).toNat = 0 := rfl
  have hword : (0x0000FFFF : UInt32).toNat = 65535 := rfl
  have hok : ip.PredOk ↔ (ip.b.toNat ≠ 65535 ∨ (ip.c.toNat = 0 ∧ ip.d.toNat = 0 ∧ ip.a.toNat ≠ 0)) := by
    rw [← hword, ← hzero]
    simp only [ne_eq, UInt32.toNat_inj]
    exact ⟨fun h => h.ok, fun h => ⟨h⟩⟩
  rw [hok, sub]
  split
  . rename_i heq
    have heq' : ip.b.toNat = 65535 := by rw [heq, hword]
    simp only [num, lower, upper] at h
    simp only [num, lower, upper, ofLower, UInt32.toNat_sub, hone, hzero, hword]
    omega
  . rename_i hne
    have hne' : ip.b.toNat ≠ 65535 := by
      rw [← hword]
      exact fun h => hne (UInt32.toNat_inj.1 h)
    simp only [num, lower, upper] at h
    simp only [num, lower, upper, ofLower, hone, hzero, Int.natCast_zero, Int.natCast_one, Int.sub_zero]
    have hwa := toNat_sub_word ip.a (.inr rfl)
    have hwb := toNat_sub_word ip.b (borrow_eq_or (ip.a.toNat - 1))
    have hwc := toNat_sub_word ip.c (borrow_eq_or (ip.b.toNat - borrow (ip.a.toNat - 1)))
    have hwd := toNat_sub_word ip.d
      (borrow_eq_or (ip.c.toNat - borrow (ip.b.toNat - borrow (ip.a.toNat - 1))))
    have hlast : borrow (ip.d.toNat - borrow (ip.c.toNat - borrow (ip.b.toNat -
        borrow (ip.a.toNat - 1)))) = 0 := by
      simp only [borrow]
      split <;> omega
    rw [hlast] at hwd
    generalize UInt32.ofInt (ip.d.toNat - borrow (ip.c.toNat - borrow (ip.b.toNat -
      borrow (ip.a.toNat - 1)))) = d' at *
    generalize UInt32.ofInt (ip.c.toNat - borrow (ip.b.toNat - borrow (ip.a.toNat - 1))) = c' at *
    generalize borrow (ip.c.toNat - borrow (ip.b.toNat - borrow (ip.a.toNat - 1))) = tc at *
    generalize UInt32.ofInt (ip.b.toNat - borrow (ip.a.toNat - 1)) = b' at *
    generalize borrow (ip.b.toNat - borrow (ip.a.toNat - 1)) = tb at *
    generalize UInt32.ofInt (ip.a.toNat - 1) = a' at *
    generalize borrow (ip.a.toNat - 1) = ta at *
    omega

theorem max_eq_or (x y : IPV6) : max x y = x ∨ max x y = y := by
  rw [max]
  split
  . exact .inr rfl
  . exact .inl rfl

theorem min_eq_or (x y : IPV6) : min x y = x ∨ min x y = y := by
  rw [min]
  split
  . exact .inr rfl
  . exact .inl rfl

theorem Agree.num_max (h : Agree x y) : (max x y).num = Max.max x.num y.num := by
  have hlt := h.lt_iff
  rw [max]
  split
  . rename_i hcond
    have hle := hlt.1 hcond
    rw [Nat.max_eq_right (by omega)]
  . rename_i hcond
    rw [hlt, Nat.not_lt] at hcond
    rw [Nat.max_eq_left hcond]

theorem Agree.num_min (h : Agree y x) : (min x y).num = Min.min x.num y.num := by
  have hlt := h.lt_iff
  rw [min]
  split
  . rename_i hcond
    have hle := hlt.1 hcond
    rw [Nat.min_eq_right (by omega)]
  . rename_i hcond
    rw [hlt, Nat.not_lt] at hcond
    rw [Nat.min_eq_left hcond]

end IPV6

open IPV6 (Agree SuccOk PredOk)

namespace Range

def Mem (r : Range) (n : Nat) : Prop := r.first.num ≤ n ∧ n ≤ r.last.num

def NonEmpty (r : Range) : Prop := r.first.num ≤ r.last.num

instance (r : Range) : Decidable r.NonEmpty := inferInstanceAs (Decidable (r.first.num ≤ r.last.num))

def ends (r : Range) : List IPV6 := [r.first, r.last]

def Meets (r e : Range) : Prop := r.first.num ≤ e.last.num ∧ e.first.num ≤ r.last.num

def Comparable (r e : Range) : Prop := ∀ x ∈ r.ends ++ e.ends, ∀ y ∈ r.ends ++ e.ends, Agree x y

theorem Comparable.agree (h : r.Comparable e) (hx : x ∈ r.ends ++ e.ends)
    (hy : y ∈ r.ends ++ e.ends) : Agree x y := h x hx y hy

theorem mem_ends_iff : x ∈ r.ends ↔ x = r.first ∨ x = r.last := by
  simp [ends]

theorem mem_both : x ∈ r.ends ++ e.ends ↔ x = r.first ∨ x = r.last ∨ x = e.first ∨ x = e.last := by
  rw [mem_append, mem_ends_iff, mem_ends_iff, or_assoc]

end Range

open Range (Comparable mem_both)

section Intersection

variable {r e : Range}

theorem gt_iff_not_meets (h : r.Comparable e) (hr : r.NonEmpty) (he : e.NonEmpty)
    : (IPV6.max r.first e.first).gt (IPV6.min r.last e.last) = true ↔ ¬ r.Meets e := by
  have hmax : IPV6.max r.first e.first ∈ r.ends ++ e.ends := by
    cases IPV6.max_eq_or r.first e.first with
    | inl heq => exact mem_both.2 (.inl heq)
    | inr heq => exact mem_both.2 (.inr (.inr (.inl heq)))
  have hmin : IPV6.min r.last e.last ∈ r.ends ++ e.ends := by
    cases IPV6.min_eq_or r.last e.last with
    | inl heq => exact mem_both.2 (.inr (.inl heq))
    | inr heq => exact mem_both.2 (.inr (.inr (.inr heq)))
  have hfirst := (h.agree (mem_both.2 (.inl rfl)) (mem_both.2 (.inr (.inr (.inl rfl))))).num_max
  have hlast := (h.agree (mem_both.2 (.inr (.inr (.inr rfl)))) (mem_both.2 (.inr (.inl rfl)))).num_min
  rw [(h.agree hmin hmax).gt_iff, hfirst, hlast, Range.Meets]
  unfold Range.NonEmpty at hr he
  omega

structure Hull (r e m : Range) : Prop where
  meets : r.Meets e
  first_eq : m.first = r.first ∨ m.first = e.first
  last_eq : m.last = r.last ∨ m.last = e.last
  num_first : m.first.num = Min.min r.first.num e.first.num
  num_last : m.last.num = Max.max r.last.num e.last.num

theorem handleAddIntersection_some (h : r.Comparable e) (hr : r.NonEmpty) (he : e.NonEmpty)
    (hsome : handleAddIntersection r e = some m) : Hull r e m := by
  have hmeets := gt_iff_not_meets h hr he
  rw [handleAddIntersection] at hsome
  split at hsome
  . cases hsome
  . rename_i hgt
    cases hsome
    refine ⟨?_, IPV6.min_eq_or _ _, IPV6.max_eq_or _ _, ?_, ?_⟩
    . by_contra hnot
      exact hgt (hmeets.2 hnot)
    . exact (h.agree (mem_both.2 (.inr (.inr (.inl rfl)))) (mem_both.2 (.inl rfl))).num_min
    . exact (h.agree (mem_both.2 (.inr (.inl rfl))) (mem_both.2 (.inr (.inr (.inr rfl))))).num_max

theorem handleAddIntersection_none (h : r.Comparable e) (hr : r.NonEmpty) (he : e.NonEmpty)
    (hnone : handleAddIntersection r e = none) : ¬ r.Meets e := by
  rw [handleAddIntersection] at hnone
  split at hnone
  . rename_i hgt
    exact (gt_iff_not_meets h hr he).1 hgt
  . cases hnone

theorem Hull.nonEmpty (h : Hull r e m) (hr : r.NonEmpty) : m.NonEmpty := by
  have hfirst := h.num_first
  have hlast := h.num_last
  unfold Range.NonEmpty at hr ⊢
  omega

theorem Hull.mem_iff (h : Hull r e m) (n : Nat) : m.Mem n ↔ r.Mem n ∨ e.Mem n := by
  have hfirst := h.num_first
  have hlast := h.num_last
  have hmeets := h.meets
  unfold Range.Meets at hmeets
  unfold Range.Mem
  omega

theorem Hull.comparable {e' : Range} (h : Hull r e m) (hre : r.Comparable e) (hre' : r.Comparable e')
    (hee' : e.Comparable e') : m.Comparable e' := by
  have hm : ∀ x : IPV6, x = m.first ∨ x = m.last → x ∈ r.ends ∨ x ∈ e.ends := by
    intro x hx
    rw [Range.mem_ends_iff, Range.mem_ends_iff]
    have hfirst := h.first_eq
    have hlast := h.last_eq
    grind
  intro x hx y hy
  rw [mem_append, Range.mem_ends_iff] at hx hy
  cases hx with
  | inl hx =>
    cases hy with
    | inl hy => exact hre.agree (mem_append.2 (hm x hx)) (mem_append.2 (hm y hy))
    | inr hy =>
      cases hm x hx with
      | inl hx => exact hre'.agree (mem_append_left _ hx) (mem_append_right _ hy)
      | inr hx => exact hee'.agree (mem_append_left _ hx) (mem_append_right _ hy)
  | inr hx =>
    cases hy with
    | inl hy =>
      cases hm y hy with
      | inl hy => exact hre'.agree (mem_append_right _ hx) (mem_append_left _ hy)
      | inr hy => exact hee'.agree (mem_append_right _ hx) (mem_append_left _ hy)
    | inr hy => exact hre'.agree (mem_append_right _ hx) (mem_append_right _ hy)

end Intersection

section Sorted

structure Sorted (ranges : Ranges) : Prop where
  increasing : ranges.Pairwise (fun a b => a.last.num < b.first.num)
  nonEmpty : ∀ e ∈ ranges, e.NonEmpty

theorem Sorted.nil : Sorted [] := ⟨List.Pairwise.nil, fun _ h => absurd h not_mem_nil⟩

theorem sorted_cons
    : Sorted (e :: ranges) ↔ (∀ e' ∈ ranges, e.last.num < e'.first.num) ∧ e.NonEmpty ∧ Sorted ranges := by
  constructor
  . rintro ⟨hincreasing, hnonEmpty⟩
    obtain ⟨hlt, hincreasing⟩ := pairwise_cons.1 hincreasing
    exact ⟨hlt, hnonEmpty e mem_cons_self, hincreasing, fun e' he' => hnonEmpty e' (mem_cons_of_mem _ he')⟩
  . rintro ⟨hlt, hnonEmpty, hrest⟩
    refine ⟨pairwise_cons.2 ⟨hlt, hrest.increasing⟩, fun e' he' => ?_⟩
    cases he' with
    | head => exact hnonEmpty
    | tail _ he' => exact hrest.nonEmpty e' he'

def Covers (ranges : Ranges) (n : Nat) : Prop := ∃ e ∈ ranges, e.Mem n

theorem covers_cons {n : Nat} : Covers (e :: ranges) n ↔ e.Mem n ∨ Covers ranges n := by
  simp [Covers]

theorem covers_nil {n : Nat} : ¬ Covers [] n := fun ⟨_, h, _⟩ => absurd h not_mem_nil

theorem lt_first_of_covers (hsorted : Sorted ranges) {bound : Nat}
    (h : ∀ n : Nat, Covers ranges n → bound < n) (e : Range) (he : e ∈ ranges) : bound < e.first.num :=
  h e.first.num ⟨e, he, Nat.le_refl _, hsorted.nonEmpty e he⟩

end Sorted

section Add

-- The comparisons of `add_range`: the new range with every range, and the ranges it swallows with the
-- others.
structure AddOk (r : Range) (ranges : Ranges) : Prop where
  comparable : ∀ e ∈ ranges, r.Comparable e
  merged : ∀ e ∈ ranges, r.Meets e → ∀ e' ∈ ranges, e.Comparable e'

structure Growing (r : Range) (had : Bool) (newRange : Range) (ranges : Ranges) : Prop where
  nonEmpty : newRange.NonEmpty
  comparable : ∀ e ∈ ranges, newRange.Comparable e
  merged : ∀ e ∈ ranges, r.Meets e → ∀ e' ∈ ranges, e.Comparable e'
  meets : ∀ e ∈ ranges, newRange.Meets e → r.Meets e
  before : had = true → ∀ e ∈ ranges, newRange.first.num < e.first.num
  reaches : had = false → ∃ e ∈ ranges, newRange.first.num ≤ e.last.num

theorem Growing.hull {newRange : Range} {had : Bool} {rest : Ranges}
    (h : Growing r had newRange (e :: rest)) (hsorted : Sorted (e :: rest)) (hhull : Hull newRange e m)
    : Growing r true m rest := by
  obtain ⟨hlt, -, hrest⟩ := sorted_cons.1 hsorted
  have hr := h.meets e mem_cons_self hhull.meets
  have hmeets := hhull.meets
  constructor
  . exact hhull.nonEmpty h.nonEmpty
  . intro e' he'
    exact hhull.comparable (h.comparable e mem_cons_self) (h.comparable e' (mem_cons_of_mem _ he'))
      (h.merged e mem_cons_self hr e' (mem_cons_of_mem _ he'))
  . intro e' he' hr' e'' he''
    exact h.merged e' (mem_cons_of_mem _ he') hr' e'' (mem_cons_of_mem _ he'')
  . intro e' he' hmeets'
    apply h.meets e' (mem_cons_of_mem _ he')
    have hgap := hlt e' he'
    have hne := hrest.nonEmpty e' he'
    have hlast := hhull.num_last
    unfold Range.Meets at hmeets hmeets' ⊢
    unfold Range.NonEmpty at hne
    omega
  . intro _ e' he'
    have hgap := hlt e' he'
    have hfirst := hhull.num_first
    unfold Range.Meets at hmeets
    omega
  . intro hfalse
    cases hfalse

theorem addLoop_spec {newRange : Range} {had : Bool} (hsorted : Sorted ranges)
    (h : Growing r had newRange ranges)
    : Sorted (addLoop newRange had ranges) ∧
        ∀ n : Nat, Covers (addLoop newRange had ranges) n ↔ newRange.Mem n ∨ Covers ranges n := by
  induction ranges generalizing newRange had with
  | nil =>
    cases had with
    | false =>
      obtain ⟨_, he, -⟩ := h.reaches rfl
      cases he
    | true =>
      refine ⟨sorted_cons.2 ⟨fun _ he => absurd he not_mem_nil, h.nonEmpty, Sorted.nil⟩, fun n => ?_⟩
      exact covers_cons
  | cons e rest ih =>
    obtain ⟨hlt, hne, hrest⟩ := sorted_cons.1 hsorted
    have hcomp := h.comparable e mem_cons_self
    rw [addLoop]
    cases hinter : handleAddIntersection newRange e with
    | some m =>
      have hhull := handleAddIntersection_some hcomp h.nonEmpty hne hinter
      obtain ⟨hsorted', hcovers⟩ := ih hrest (h.hull hsorted hhull)
      refine ⟨hsorted', fun n => ?_⟩
      dsimp only
      rw [hcovers, hhull.mem_iff, covers_cons, or_assoc]
    | none =>
      have hapart := handleAddIntersection_none hcomp h.nonEmpty hne hinter
      have hnew := h.nonEmpty
      unfold Range.Meets at hapart
      unfold Range.NonEmpty at hne hnew
      -- Whether the new range is put before `e`, the rest stays as it is.
      have hput : newRange.last.num < e.first.num → Sorted (newRange :: e :: rest) ∧
            ∀ n : Nat, Covers (newRange :: e :: rest) n ↔ newRange.Mem n ∨ Covers (e :: rest) n := by
        intro hbefore
        refine ⟨sorted_cons.2 ⟨fun e' he' => ?_, h.nonEmpty, hsorted⟩, fun n => covers_cons⟩
        cases he' with
        | head => exact hbefore
        | tail _ he' =>
          have := hlt e' he'
          omega
      dsimp only
      split
      . rename_i hhad
        apply hput
        have := h.before hhad e mem_cons_self
        omega
      . rename_i hhad
        have hhad' : had = false := Bool.not_eq_true _ ▸ hhad
        have hcmp := (hcomp.agree (mem_both.2 (.inr (.inl rfl))) (mem_both.2 (.inr (.inr (.inl rfl))))).lt_iff
        split
        . rename_i hbefore
          exact hput (hcmp.1 hbefore)
        . rename_i hbefore
          rw [hcmp] at hbefore
          have hpast : e.last.num < newRange.first.num := by omega
          have hgrowing : Growing r false newRange rest := by
            constructor
            . exact h.nonEmpty
            . exact fun e' he' => h.comparable e' (mem_cons_of_mem _ he')
            . exact fun e' he' hr' e'' he'' =>
                h.merged e' (mem_cons_of_mem _ he') hr' e'' (mem_cons_of_mem _ he'')
            . exact fun e' he' => h.meets e' (mem_cons_of_mem _ he')
            . intro htrue
              cases htrue
            . intro _
              obtain ⟨e', he', hreach⟩ := h.reaches hhad'
              cases he' with
              | head => omega
              | tail _ he' => exact ⟨e', he', hreach⟩
          obtain ⟨hsorted', hcovers⟩ := ih hrest hgrowing
          refine ⟨sorted_cons.2 ⟨?_, hne, hsorted'⟩, fun n => ?_⟩
          . apply lt_first_of_covers hsorted'
            intro n hn
            cases (hcovers n).1 hn with
            | inl hmem =>
              unfold Range.Mem at hmem
              omega
            | inr hcov =>
              obtain ⟨e', he', hmem⟩ := hcov
              have := hlt e' he'
              unfold Range.Mem at hmem
              omega
          . rw [covers_cons, hcovers, covers_cons]
            tauto

theorem getLastD_mem (front : Range) (rest : Ranges) : rest.getLastD front ∈ front :: rest := by
  induction rest generalizing front with
  | nil => exact mem_cons_self
  | cons e rest ih =>
    rw [getLastD_cons]
    exact mem_cons_of_mem _ (ih e)

theorem le_back {front : Range} {rest : Ranges} (hsorted : Sorted (front :: rest)) (e : Range)
    (he : e ∈ front :: rest) : e.last.num ≤ (rest.getLastD front).last.num := by
  induction rest generalizing front e with
  | nil =>
    rw [mem_singleton.1 he]
    exact Nat.le_refl _
  | cons e' rest ih =>
    obtain ⟨hlt, -, hrest⟩ := sorted_cons.1 hsorted
    rw [getLastD_cons]
    cases he with
    | head =>
      have hgap := hlt e' mem_cons_self
      have hback := ih hrest e' mem_cons_self
      have hne := hrest.nonEmpty e' mem_cons_self
      unfold Range.NonEmpty at hne
      omega
    | tail _ he => exact ih hrest e he

theorem addRange_spec (hsorted : Sorted ranges) (hr : r.NonEmpty) (hok : AddOk r ranges)
    : Sorted (addRange r ranges) ∧ ∀ n : Nat, Covers (addRange r ranges) n ↔ r.Mem n ∨ Covers ranges n := by
  cases ranges with
  | nil =>
    refine ⟨sorted_cons.2 ⟨fun _ he => absurd he not_mem_nil, hr, Sorted.nil⟩, fun n => ?_⟩
    exact covers_cons
  | cons front rest =>
    have hfront := hok.comparable front mem_cons_self
    have hback := hok.comparable (rest.getLastD front) (getLastD_mem front rest)
    have hcmp := (hfront.agree (mem_both.2 (.inr (.inl rfl))) (mem_both.2 (.inr (.inr (.inl rfl))))).lt_iff
    have hcmp' := (hback.agree (mem_both.2 (.inr (.inr (.inr rfl)))) (mem_both.2 (.inl rfl))).gt_iff
    rw [addRange]
    split
    . rename_i hbefore
      rw [hcmp] at hbefore
      refine ⟨sorted_cons.2 ⟨fun e he => ?_, hr, hsorted⟩, fun n => covers_cons⟩
      obtain ⟨hlt, hne, -⟩ := sorted_cons.1 hsorted
      unfold Range.NonEmpty at hne
      cases he with
      | head => exact hbefore
      | tail _ he =>
        have := hlt e he
        omega
    . split
      . rename_i hafter
        rw [hcmp'] at hafter
        constructor
        . constructor
          . apply pairwise_append.2 ⟨hsorted.increasing, pairwise_singleton _ _, ?_⟩
            intro e he e' he'
            have := le_back hsorted e he
            rw [mem_singleton.1 he']
            omega
          . intro e he
            cases mem_append.1 he with
            | inl he => exact hsorted.nonEmpty e he
            | inr he =>
              rw [mem_singleton.1 he]
              exact hr
        . intro n
          simp only [Covers, mem_append, mem_singleton, or_and_right, exists_or, exists_eq_left]
          exact Or.comm
      . rename_i hafter
        rw [hcmp', Nat.not_lt] at hafter
        apply @addLoop_spec r _ _ _ hsorted
        constructor
        . exact hr
        . exact hok.comparable
        . exact hok.merged
        . exact fun _ _ hmeets => hmeets
        . intro htrue
          cases htrue
        . exact fun _ => ⟨rest.getLastD front, getLastD_mem front rest, hafter⟩

end Add

section Remove

-- The comparisons with one range and, where it is cut, the numbers at the cut ends.
structure RemoveOk (r e : Range) : Prop where
  comparable : r.Comparable e
  succ : r.Meets e → r.last.num < e.last.num → r.last.SuccOk
  pred : r.Meets e → e.first.num < r.first.num → r.first.PredOk

structure Cut (r e : Range) (pieces : Ranges) : Prop where
  sorted : Sorted pieces
  covers : ∀ n : Nat, Covers pieces n ↔ e.Mem n ∧ ¬ r.Mem n

theorem covers_singleton {e : Range} {n : Nat} : Covers [e] n ↔ e.Mem n := by
  rw [covers_cons]
  have := @covers_nil n
  tauto

theorem sorted_singleton {e : Range} (h : e.NonEmpty) : Sorted [e] :=
  sorted_cons.2 ⟨fun _ he => absurd he not_mem_nil, h, Sorted.nil⟩

theorem num_succ {r e : Range} (hok : RemoveOk r e) (hmeets : r.Meets e) (hlt : r.last.num < e.last.num)
    : (r.last.add (.ofLower 1)).num = r.last.num + 1 := by
  have := e.last.num_lt
  exact (IPV6.succ_iff (by omega)).2 (hok.succ hmeets hlt)

theorem num_pred {r e : Range} (hok : RemoveOk r e) (hmeets : r.Meets e)
    (hlt : e.first.num < r.first.num) : (r.first.sub (.ofLower 1)).num = r.first.num - 1 :=
  (IPV6.pred_iff (by omega)).2 (hok.pred hmeets hlt)

theorem handleRemoveIntersection_spec {r e : Range} (hok : RemoveOk r e) (hr : r.NonEmpty)
    (he : e.NonEmpty) : Cut r e (handleRemoveIntersection r e) := by
  have hgt := gt_iff_not_meets hok.comparable hr he
  have hle := (hok.comparable.agree (mem_both.2 (.inr (.inr (.inl rfl)))) (mem_both.2 (.inl rfl))).le_iff
  have hge := (hok.comparable.agree (mem_both.2 (.inr (.inl rfl)))
    (mem_both.2 (.inr (.inr (.inr rfl))))).ge_iff
  have hnr := hr
  have hne := he
  unfold Range.NonEmpty at hnr hne
  rw [handleRemoveIntersection]
  split
  . rename_i happart
    have hmeets := hgt.1 happart
    refine ⟨sorted_singleton he, fun n => ?_⟩
    rw [covers_singleton]
    unfold Range.Meets at hmeets
    unfold Range.Mem
    omega
  . rename_i happart
    have hmeets : r.Meets e := by
      by_contra hnot
      exact happart (hgt.2 hnot)
    have hmeets' := hmeets
    unfold Range.Meets at hmeets'
    split
    . rename_i hall
      rw [hle, hge] at hall
      refine ⟨Sorted.nil, fun n => ⟨fun h => absurd h covers_nil, fun h => ?_⟩⟩
      unfold Range.Mem at h
      omega
    . rename_i hall
      rw [hle, hge] at hall
      split
      . rename_i hfirst
        rw [hle] at hfirst
        have hlt : r.last.num < e.last.num := by omega
        have hsucc := num_succ hok hmeets hlt
        refine ⟨sorted_singleton ?_, fun n => ?_⟩
        . unfold Range.NonEmpty
          dsimp only
          omega
        . rw [covers_singleton]
          unfold Range.Mem
          dsimp only
          omega
      . rename_i hfirst
        rw [hle, Nat.not_le] at hfirst
        have hpred := num_pred hok hmeets hfirst
        split
        . rename_i hlast
          rw [hge] at hlast
          refine ⟨sorted_singleton ?_, fun n => ?_⟩
          . unfold Range.NonEmpty
            dsimp only
            omega
          . rw [covers_singleton]
            unfold Range.Mem
            dsimp only
            omega
        . rename_i hlast
          rw [hge, Nat.not_le] at hlast
          have hsucc := num_succ hok hmeets hlast
          constructor
          . apply sorted_cons.2
            refine ⟨fun e' he' => ?_, ?_, sorted_singleton ?_⟩
            . rw [mem_singleton.1 he']
              dsimp only
              omega
            . unfold Range.NonEmpty
              dsimp only
              omega
            . unfold Range.NonEmpty
              dsimp only
              omega
          . intro n
            rw [covers_cons, covers_singleton]
            unfold Range.Mem
            dsimp only
            omega

theorem removeRange_spec {r : Range} {ranges : Ranges} (hsorted : Sorted ranges) (hr : r.NonEmpty)
    (hok : ∀ e ∈ ranges, RemoveOk r e)
    : Sorted (removeRange r ranges) ∧
        ∀ n : Nat, Covers (removeRange r ranges) n ↔ Covers ranges n ∧ ¬ r.Mem n := by
  induction ranges with
  | nil => exact ⟨Sorted.nil, fun n => ⟨fun h => absurd h covers_nil, fun h => absurd h.1 covers_nil⟩⟩
  | cons e rest ih =>
    obtain ⟨hlt, hne, hrest⟩ := sorted_cons.1 hsorted
    have hcut := handleRemoveIntersection_spec (hok e mem_cons_self) hr hne
    obtain ⟨hsorted', hcovers⟩ := ih hrest (fun e' he' => hok e' (mem_cons_of_mem _ he'))
    have hcons : removeRange r (e :: rest) = handleRemoveIntersection r e ++ removeRange r rest :=
      flatMap_cons
    rw [hcons]
    constructor
    . constructor
      . apply pairwise_append.2 ⟨hcut.sorted.increasing, hsorted'.increasing, ?_⟩
        intro piece hpiece e' he'
        have hlast : e.Mem piece.last.num :=
          ((hcut.covers piece.last.num).1 ⟨piece, hpiece, hcut.sorted.nonEmpty piece hpiece, Nat.le_refl _⟩).1
        have hbelow : e.last.num < e'.first.num := by
          apply lt_first_of_covers hsorted' _ e' he'
          intro n hn
          obtain ⟨⟨e'', he'', hmem⟩, -⟩ := (hcovers n).1 hn
          have := hlt e'' he''
          unfold Range.Mem at hmem
          omega
        unfold Range.Mem at hlast
        omega
      . intro e' he'
        cases mem_append.1 he' with
        | inl he' => exact hcut.sorted.nonEmpty e' he'
        | inr he' => exact hsorted'.nonEmpty e' he'
    . intro n
      have happend : Covers (handleRemoveIntersection r e ++ removeRange r rest) n ↔
          Covers (handleRemoveIntersection r e) n ∨ Covers (removeRange r rest) n := by
        simp only [Covers, mem_append, or_and_right, exists_or]
      rw [happend, hcut.covers, hcovers, covers_cons]
      tauto

end Remove

section Runs

inductive Op where
  | add (newRange : Range)
  | remove (removed : Range)

def Op.range : Op → Range
  | add newRange => newRange
  | remove removed => removed

def Op.apply (op : Op) (ranges : Ranges) : Ranges :=
  match op with
  | add newRange => addRange newRange ranges
  | remove removed => removeRange removed ranges

def Op.onSet (op : Op) (addresses : Set Nat) : Set Nat :=
  match op with
  | add newRange => addresses ∪ Set.Icc newRange.first.num newRange.last.num
  | remove removed => addresses \ Set.Icc removed.first.num removed.last.num

def Op.Ok (op : Op) (ranges : Ranges) : Prop :=
  match op with
  | add newRange => AddOk newRange ranges
  | remove removed => ∀ e ∈ ranges, RemoveOk removed e

def OkStep (s s' : Ranges × Set Nat) : Prop :=
  ∃ op : Op, op.range.NonEmpty ∧ op.Ok s.1 ∧ s' = (op.apply s.1, op.onSet s.2)

structure Represents (ranges : Ranges) (addresses : Set Nat) : Prop where
  sorted : Sorted ranges
  mem_iff : ∀ n : Nat, n ∈ addresses ↔ Covers ranges n

theorem apply_represents {ranges : Ranges} {addresses : Set Nat} (h : Represents ranges addresses)
    {op : Op} (hne : op.range.NonEmpty) (hok : op.Ok ranges)
    : Represents (op.apply ranges) (op.onSet addresses) := by
  cases op with
  | add newRange =>
    have hne' : newRange.NonEmpty := hne
    obtain ⟨hsorted, hcovers⟩ := addRange_spec h.sorted hne' hok
    refine ⟨hsorted, fun n => ?_⟩
    rw [Op.apply, Op.onSet, hcovers, Set.mem_union, h.mem_iff]
    exact Or.comm
  | remove removed =>
    have hne' : removed.NonEmpty := hne
    obtain ⟨hsorted, hcovers⟩ := removeRange_spec h.sorted hne' hok
    refine ⟨hsorted, fun n => ?_⟩
    rw [Op.apply, Op.onSet, hcovers, Set.mem_sdiff, h.mem_iff]
    rfl

theorem represents_of_run {s : Ranges × Set Nat} (hrun : Relation.ReflTransGen OkStep ([], ∅) s)
    : Represents s.1 s.2 := by
  induction hrun with
  | refl => exact ⟨Sorted.nil, fun n => ⟨fun h => absurd h (Set.notMem_empty n), fun h => absurd h covers_nil⟩⟩
  | tail _ hstep ih =>
    obtain ⟨op, hne, hok, rfl⟩ := hstep
    exact apply_represents ih hne hok

theorem ipRange_iff (s : Ranges × Set Nat) (x y ip : IPV6)
    : (Relation.ReflTransGen OkStep ([], ∅) s → Represents s.1 s.2) ∧
      ((x.lt y = true ↔ x.num < y.num) ↔ Agree x y) ∧
      ((x.gt y = true ↔ y.num < x.num) ↔ Agree y x) ∧
      ((x.le y = true ↔ x.num ≤ y.num) ↔ Agree y x) ∧
      ((x.ge y = true ↔ y.num ≤ x.num) ↔ Agree x y) ∧
      (ip.num + 1 < 2 ^ 128 → ((ip.add (.ofLower 1)).num = ip.num + 1 ↔ ip.SuccOk)) ∧
      (0 < ip.num → ((ip.sub (.ofLower 1)).num = ip.num - 1 ↔ ip.PredOk)) := by
  refine ⟨represents_of_run, IPV6.lt_iff_iff x y, IPV6.lt_iff_iff y x, ?_, ?_, IPV6.succ_iff, IPV6.pred_iff⟩
  . rw [IPV6.le, Bool.not_eq_true', ← Bool.not_eq_true, ← Nat.not_lt, not_iff_not]
    exact IPV6.lt_iff_iff y x
  . rw [IPV6.ge, Bool.not_eq_true', ← Bool.not_eq_true, ← Nat.not_lt, not_iff_not]
    exact IPV6.lt_iff_iff x y

section IPv4

def Range.IPv4 (r : Range) : Prop :=
  ∃ first last : UInt32, r = ⟨netIpv4ToHostOrder first, netIpv4ToHostOrder last⟩ ∧ first ≤ last

theorem agree_ipv4 (first last : UInt32) : Agree (netIpv4ToHostOrder first) (netIpv4ToHostOrder last) := by
  unfold Agree
  have hfirst : (netIpv4ToHostOrder first).upper = 0 := rfl
  have hlast : (netIpv4ToHostOrder last).upper = 0 := rfl
  omega

theorem Range.IPv4.comparable (hr : r.IPv4) (he : e.IPv4) : r.Comparable e := by
  obtain ⟨first, last, rfl, _⟩ := hr
  obtain ⟨first', last', rfl, _⟩ := he
  have hends : ∀ x ∈ Range.ends ⟨netIpv4ToHostOrder first, netIpv4ToHostOrder last⟩
      ++ Range.ends ⟨netIpv4ToHostOrder first', netIpv4ToHostOrder last'⟩,
      ∃ a, x = netIpv4ToHostOrder a := by
    intro x hx
    rcases mem_both.1 hx with rfl | rfl | rfl | rfl
    . exact ⟨_, rfl⟩
    . exact ⟨_, rfl⟩
    . exact ⟨_, rfl⟩
    . exact ⟨_, rfl⟩
  intro x hx y hy
  obtain ⟨a, rfl⟩ := hends x hx
  obtain ⟨b, rfl⟩ := hends y hy
  exact agree_ipv4 a b

theorem num_ipv4 (a : UInt32) : (netIpv4ToHostOrder a).num = 2 ^ 32 * 0xFFFF + a.toNat := by
  simp [IPV6.num, IPV6.upper, IPV6.lower, netIpv4ToHostOrder]

theorem Range.IPv4.nonEmpty (hr : r.IPv4) : r.NonEmpty := by
  obtain ⟨first, last, rfl, hle⟩ := hr
  rw [UInt32.le_iff_toNat_le] at hle
  unfold Range.NonEmpty
  rw [num_ipv4, num_ipv4]
  omega

/-- Nothing goes wrong as long as all ranges are IPv4 ranges. -/
theorem ok_of_ipv4 {op : Op} (hop : op.range.IPv4) (hranges : ∀ e ∈ ranges, e.IPv4) : op.Ok ranges := by
  cases op with
  | add newRange =>
    exact ⟨fun e he => hop.comparable (hranges e he),
      fun e he _ e' he' => (hranges e he).comparable (hranges e' he')⟩
  | remove removed =>
    intro e he
    have hcomparable := hop.comparable (hranges e he)
    obtain ⟨first, last, heq, _⟩ := hop
    obtain ⟨first', last', rfl, _⟩ := hranges e he
    obtain rfl : removed = ⟨netIpv4ToHostOrder first, netIpv4ToHostOrder last⟩ := heq
    refine ⟨hcomparable, ?_, ?_⟩
    . intro _ hlt
      refine ⟨.inr ⟨rfl, rfl, ?_⟩⟩
      rintro rfl
      have := last'.toNat_lt
      rw [num_ipv4, num_ipv4, show (0xFFFFFFFF : UInt32).toNat = 4294967295 from rfl] at hlt
      omega
    . intro _ hlt
      refine ⟨.inr ⟨rfl, rfl, ?_⟩⟩
      rintro rfl
      rw [num_ipv4, num_ipv4, show (0 : UInt32).toNat = 0 from rfl] at hlt
      omega

end IPv4

def hosts (first last : UInt32) : Range :=
  ⟨netIpv4ToHostOrder (0x0a000000 + first), netIpv4ToHostOrder (0x0a000000 + last)⟩

-- The third range merges the first two, and the last cuts what they have become.
theorem ipRange_iff_hosts
    : Represents [hosts 1 3, hosts 6 9]
        ([Op.add (hosts 1 3), .add (hosts 7 9), .add (hosts 3 7), .remove (hosts 4 5)].foldl
          (fun addresses op => op.onSet addresses) ∅) := by
  apply (ipRange_iff (_, _) (hosts 1 3).first (hosts 1 3).last (hosts 1 3).first).1
  have hstep {ranges ranges' : Ranges} (op : Op) (addresses : Set Nat) (hop : op.range.IPv4)
      (hranges : ∀ e ∈ ranges, e.IPv4) (hres : op.apply ranges = ranges')
      : OkStep (ranges, addresses) (ranges', op.onSet addresses) :=
    ⟨op, hop.nonEmpty, ok_of_ipv4 hop hranges, by rw [hres]⟩
  have hosts_ipv4 {first last : UInt32} (hle : 0x0a000000 + first ≤ 0x0a000000 + last)
      : (hosts first last).IPv4 := ⟨_, _, rfl, hle⟩
  have hone : (hosts 1 3).IPv4 := hosts_ipv4 (by decide)
  have hseven : (hosts 7 9).IPv4 := hosts_ipv4 (by decide)
  have hall : (hosts 1 9).IPv4 := hosts_ipv4 (by decide)
  have hfirst : OkStep ([], ∅) ([hosts 1 3], _) := hstep (.add (hosts 1 3)) ∅ hone (by simp) (by decide)
  have hsecond (addresses : Set Nat) : OkStep ([hosts 1 3], addresses) ([hosts 1 3, hosts 7 9], _) :=
    hstep (.add (hosts 7 9)) addresses hseven (by simp [hone]) (by decide)
  have hmerge (addresses : Set Nat) : OkStep ([hosts 1 3, hosts 7 9], addresses) ([hosts 1 9], _) :=
    hstep (.add (hosts 3 7)) addresses (hosts_ipv4 (by decide)) (by simp [hone, hseven]) (by decide)
  have hcut (addresses : Set Nat) : OkStep ([hosts 1 9], addresses) ([hosts 1 3, hosts 6 9], _) :=
    hstep (.remove (hosts 4 5)) addresses (hosts_ipv4 (by decide)) (by simp [hall]) (by decide)
  exact (((Relation.ReflTransGen.single hfirst).tail (hsecond _)).tail (hmerge _)).tail (hcut _)

theorem addRange_not_increasing
    : ¬ ∀ (r r' : Range), r.NonEmpty → r'.NonEmpty → Sorted (addRange r' (addRange r [])) := by
  intro h
  have hsorted := h ⟨⟨5, 0, 0, 0⟩, ⟨5, 0, 0, 0⟩⟩ ⟨⟨0, 0, 1, 0⟩, ⟨0, 0, 1, 0⟩⟩ (by decide) (by decide)
  have hlt := (sorted_cons.1 hsorted).1 ⟨⟨5, 0, 0, 0⟩, ⟨5, 0, 0, 0⟩⟩ (by decide)
  exact absurd hlt (by decide)

end Runs

end IPRange

import Mathlib.Data.List.Basic
import Mathlib.Algebra.GroupWithZero.Nat

/-!
This module contains lists of ranges that follow on each other without a gap.
-/

open List

namespace Tiling

variable {α : Type*} (start len : α → Nat)

/-- `Tiles start len a xs b`: the ranges of `xs`, in this order, go from `a` up to `b`. -/
def Tiles (a : Nat) (xs : List α) (b : Nat) : Prop :=
  match xs with
  | [] => a = b
  | x :: xs => start x = a ∧ Tiles (a + len x) xs b

def total (xs : List α) : Nat := (xs.map len).sum

variable {start len} {a b c : Nat} {x : α} {xs ys : List α}

@[simp]
theorem total_nil : total len [] = 0 := rfl

@[simp]
theorem total_cons : total len (x :: xs) = len x + total len xs := sum_cons

@[simp]
theorem total_append : total len (xs ++ ys) = total len xs + total len ys := by
  unfold total
  rw [map_append, sum_append]

theorem tiles_append : Tiles start len a (xs ++ ys) c ↔ ∃ b, Tiles start len a xs b ∧
    Tiles start len b ys c := by
  induction xs generalizing a with
  | nil =>
    constructor
    . exact fun h => ⟨a, rfl, h⟩
    . rintro ⟨b, rfl, h⟩
      exact h
  | cons x xs ih =>
    constructor
    . rintro ⟨hstart, h⟩
      obtain ⟨b, hxs, hys⟩ := ih.mp h
      exact ⟨b, ⟨hstart, hxs⟩, hys⟩
    . rintro ⟨b, ⟨hstart, hxs⟩, hys⟩
      exact ⟨hstart, ih.mpr ⟨b, hxs, hys⟩⟩

theorem Tiles.append (hxs : Tiles start len a xs b) (hys : Tiles start len b ys c)
    : Tiles start len a (xs ++ ys) c :=
  tiles_append.mpr ⟨b, hxs, hys⟩

section

variable (h : Tiles start len a xs b)
include h

theorem Tiles.concat (hstart : start x = b) : Tiles start len a (xs ++ [x]) (b + len x) :=
  h.append ⟨hstart, rfl⟩

theorem Tiles.eq : b = a + total len xs := by
  induction xs generalizing a with
  | nil => exact h.symm
  | cons x xs ih =>
    rw [ih h.right, total_cons, Nat.add_assoc]

theorem Tiles.le : a ≤ b := by
  rw [h.eq]
  omega

theorem Tiles.mem (hx : x ∈ xs) : a ≤ start x ∧ start x + len x ≤ b := by
  induction xs generalizing a with
  | nil => cases hx
  | cons y xs ih =>
    have hle := h.right.le
    rcases mem_cons.mp hx with rfl | hx
    . rw [h.left]
      exact ⟨Nat.le_refl a, hle⟩
    . obtain ⟨hfrom, hto⟩ := ih h.right hx
      exact ⟨by omega, hto⟩

theorem Tiles.pairwise : xs.Pairwise fun x y => start x + len x ≤ start y := by
  induction xs generalizing a with
  | nil => exact List.Pairwise.nil
  | cons x xs ih =>
    apply pairwise_cons.mpr
    constructor
    . intro y hy
      rw [h.left]
      exact (h.right.mem hy).left
    . exact ih h.right

end

theorem eq_nil_of_total (hpos : ∀ x ∈ xs, 0 < len x) (h : total len xs = 0) : xs = [] := by
  cases xs with
  | nil => rfl
  | cons x xs =>
    have hx := hpos x mem_cons_self
    rw [total_cons] at h
    omega

theorem Tiles.eq_nil (h : Tiles start len a xs a) (hpos : ∀ x ∈ xs, 0 < len x) : xs = [] := by
  apply eq_nil_of_total hpos
  have heq := h.eq
  omega

theorem append_of_total_le {xs' ys' : List α} (hpos : ∀ x ∈ xs, 0 < len x) (heq : xs ++ ys = xs' ++ ys')
    (hle : total len xs ≤ total len xs')
    : ∃ zs, xs' = xs ++ zs ∧ ys = zs ++ ys' := by
  rcases append_eq_append_iff.mp heq with ⟨zs, hxs', hys⟩ | ⟨zs, hxs, hys'⟩
  . exact ⟨zs, hxs', hys⟩
  . have hzs : zs = [] := by
      apply @eq_nil_of_total _ len
      . intro z hz
        apply hpos
        rw [hxs]
        exact mem_append_right xs' hz
      . rw [hxs, total_append] at hle
        omega
    rw [hzs] at hxs hys'
    exact ⟨[], by rw [hxs, append_nil, append_nil], by rw [hys', nil_append, nil_append]⟩

end Tiling

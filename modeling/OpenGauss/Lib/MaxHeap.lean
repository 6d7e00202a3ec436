import Mathlib.Logic.Equiv.Basic
import Mathlib.Tactic.Common
import Mathlib.Order.Lattice

/-!
This module contains the sifts of a binary heap with the largest key on top, over an array that
starts at 1.
-/

namespace MaxHeap

open Function (update update_self update_of_ne)

variable {α β : Type} [LinearOrder β] (key : α → β) {xs : Nat → α} {n i : Nat} {x : α}
variable {ys : Nat → α}

-- A hole is at most `fuel`.
def siftUp (x : α) (fuel : Nat) (xs : Nat → α) (i : Nat) : Nat → α :=
  match fuel with
  | 0 => update xs i x
  | fuel + 1 =>
    if i ≠ 1 ∧ key (xs (i / 2)) < key x then
      siftUp x fuel (update xs i (xs (i / 2))) (i / 2)
    else
      update xs i x

def largerChild (n : Nat) (xs : Nat → α) (i : Nat) : Nat :=
  if 2 * i < n ∧ key (xs (2 * i)) < key (xs (2 * i + 1)) then 2 * i + 1 else 2 * i

def siftDown (n : Nat) (x : α) (fuel : Nat) (xs : Nat → α) (i : Nat) : Nat → α :=
  match fuel with
  | 0 => update xs i x
  | fuel + 1 =>
    if 2 * i ≤ n then
      let subi := largerChild key n xs i
      if key (xs subi) ≤ key x then
        update xs i x
      else
        siftDown n x fuel (update xs i (xs subi)) subi
    else
      update xs i x

def Ordered (n : Nat) (xs : Nat → α) : Prop :=
  ∀ k : Nat, 2 ≤ k → k ≤ n → key (xs k) ≤ key (xs (k / 2))

theorem Ordered.le_top {key : α → β} (h : Ordered key n xs) {k : Nat} (hk : 1 ≤ k)
    (hn : k ≤ n) : key (xs k) ≤ key (xs 1) := by
  induction k using Nat.strongRecOn with
  | ind k ih =>
    by_cases hone : k = 1
    . rw [hone]
    . apply le_trans (h k (by omega) hn)
      exact ih (k / 2) (by omega) (by omega) (by omega)

section Rearranged

def Rearranged (n : Nat) (xs ys : Nat → α) : Prop :=
  ∃ perm : Equiv.Perm Nat, (∀ k : Nat, 1 ≤ k → k ≤ n → 1 ≤ perm k ∧ perm k ≤ n) ∧
    ∀ k : Nat, 1 ≤ k → k ≤ n → ys k = xs (perm k)

theorem Rearranged.refl (n : Nat) (xs : Nat → α) : Rearranged n xs xs :=
  ⟨Equiv.refl Nat, fun _ hk hn => ⟨hk, hn⟩, fun _ _ _ => rfl⟩

theorem Rearranged.trans {zs : Nat → α} (hxy : Rearranged n xs ys)
    (hyz : Rearranged n ys zs) : Rearranged n xs zs := by
  obtain ⟨perm, hrange, heq⟩ := hxy
  obtain ⟨perm', hrange', heq'⟩ := hyz
  refine ⟨perm'.trans perm, fun k hk hn => ?_, fun k hk hn => ?_⟩
  . obtain ⟨hk', hn'⟩ := hrange' k hk hn
    exact hrange (perm' k) hk' hn'
  . obtain ⟨hk', hn'⟩ := hrange' k hk hn
    rw [heq' k hk hn, heq (perm' k) hk' hn']
    rfl

theorem Rearranged.forall (h : Rearranged n xs ys) {p : α → Prop}
    (hp : ∀ k : Nat, 1 ≤ k → k ≤ n → p (xs k)) (k : Nat) (hk : 1 ≤ k) (hn : k ≤ n) : p (ys k) := by
  obtain ⟨perm, hrange, heq⟩ := h
  rw [heq k hk hn]
  exact hp (perm k) (hrange k hk hn).1 (hrange k hk hn).2

theorem Rearranged.pairwise (h : Rearranged n xs ys) {r : α → α → Prop}
    (hr : ∀ k l : Nat, 1 ≤ k → k ≤ n → 1 ≤ l → l ≤ n → k ≠ l → r (xs k) (xs l)) (k l : Nat)
    (hk : 1 ≤ k) (hkn : k ≤ n) (hl : 1 ≤ l) (hln : l ≤ n) (hne : k ≠ l) : r (ys k) (ys l) := by
  obtain ⟨perm, hrange, heq⟩ := h
  rw [heq k hk hkn, heq l hl hln]
  apply hr (perm k) (perm l) (hrange k hk hkn).1 (hrange k hk hkn).2 (hrange l hl hln).1 (hrange l hl hln).2
  exact fun hperm => hne (perm.injective hperm)

theorem Rearranged.move {j : Nat} (hi : 1 ≤ i) (hin : i ≤ n) (hj : 1 ≤ j) (hjn : j ≤ n)
    : Rearranged n (update xs i x) (update (update xs i (xs j)) j x) := by
  refine ⟨Equiv.swap i j, fun k hk hn => ?_, fun k _ _ => ?_⟩
  . rw [Equiv.swap_apply_def]
    split
    . exact ⟨hj, hjn⟩
    . split
      . exact ⟨hi, hin⟩
      . exact ⟨hk, hn⟩
  . grind

end Rearranged

variable {key}

section SiftUp

-- All pairs are in order but the hole with its parent; `xs` already has the element in the hole.
structure UpOrder (key : α → β) (n : Nat) (xs : Nat → α) (i : Nat) : Prop where
  except : ∀ k : Nat, 2 ≤ k → k ≤ n → k ≠ i → key (xs k) ≤ key (xs (k / 2))
  grand : 2 ≤ i → ∀ k : Nat, 2 ≤ k → k ≤ n → k / 2 = i → key (xs k) ≤ key (xs (i / 2))

theorem UpOrder.move (h : UpOrder key n (update xs i x) i)
    (hi : 2 ≤ i) (hin : i ≤ n) (hlt : key (xs (i / 2)) < key x)
    : UpOrder key n (update (update xs i (xs (i / 2))) (i / 2) x) (i / 2) := by
  have hpi : i / 2 ≠ i := by omega
  have hparent : update xs i x (i / 2) = xs (i / 2) := update_of_ne hpi _ _
  constructor
  . intro k hk hkn hkp
    rw [update_of_ne hkp]
    by_cases hki : k = i
    . subst hki
      rw [update_self, update_self]
      exact le_of_lt hlt
    . rw [update_of_ne hki]
      have hexcept := h.except k hk hkn hki
      rw [update_of_ne hki] at hexcept
      by_cases hk2i : k / 2 = i
      . have hgrand := h.grand hi k hk hkn hk2i
        rw [update_of_ne hki, hparent] at hgrand
        rw [hk2i, update_of_ne (Ne.symm hpi), update_self]
        exact hgrand
      . rw [update_of_ne hk2i] at hexcept
        by_cases hk2p : k / 2 = i / 2
        . rw [hk2p, update_self]
          rw [hk2p] at hexcept
          exact le_trans hexcept (le_of_lt hlt)
        . rw [update_of_ne hk2p, update_of_ne hk2i]
          exact hexcept
  . intro hp k hk hkn hk2p
    have hp2 : i / 2 / 2 ≠ i := by omega
    have hp2' : i / 2 / 2 ≠ i / 2 := by omega
    have hup := h.except (i / 2) hp (by omega) hpi
    rw [hparent, update_of_ne hp2] at hup
    rw [update_of_ne hp2', update_of_ne hp2, update_of_ne (show k ≠ i / 2 by omega)]
    by_cases hki : k = i
    . subst hki
      rw [update_self]
      exact hup
    . have hexcept := h.except k hk hkn hki
      rw [update_of_ne hki, hk2p, hparent] at hexcept
      rw [update_of_ne hki]
      exact le_trans hexcept hup

theorem UpOrder.finish (h : UpOrder key n (update xs i x) i)
    (hstop : i ≠ 1 → key x ≤ key (xs (i / 2))) : Ordered key n (update xs i x) := by
  intro k hk hkn
  by_cases hki : k = i
  . subst hki
    rw [update_self, update_of_ne (by omega)]
    exact hstop (by omega)
  . exact h.except k hk hkn hki

theorem siftUp_spec {fuel : Nat} (hi : 1 ≤ i) (hin : i ≤ n)
    (hfuel : i ≤ fuel) (h : UpOrder key n (update xs i x) i)
    : Ordered key n (siftUp key x fuel xs i) ∧ Rearranged n (update xs i x) (siftUp key x fuel xs i) := by
  induction fuel generalizing xs i with
  | zero => omega
  | succ fuel ih =>
    rw [siftUp]
    split
    . rename_i hcond
      obtain ⟨hne, hlt⟩ := hcond
      obtain ⟨hordered, hperm⟩ :=
        ih (by omega) (by omega) (by omega) (h.move (by omega) hin hlt)
      refine ⟨hordered, Rearranged.trans ?_ hperm⟩
      exact Rearranged.move hi hin (by omega) (by omega)
    . rename_i hcond
      refine ⟨h.finish (fun hne => ?_), Rearranged.refl n _⟩
      exact not_lt.1 (fun hlt => hcond ⟨hne, hlt⟩)

end SiftUp

section SiftDown

theorem largerChild_bounds (xs : Nat → α) (h : 2 * i ≤ n)
    : largerChild key n xs i / 2 = i ∧ 2 * i ≤ largerChild key n xs i ∧ largerChild key n xs i ≤ n := by
  rw [largerChild]
  split
  . omega
  . omega

theorem le_largerChild (xs : Nat → α) {k : Nat} (hkn : k ≤ n)
    (h : k / 2 = i) : key (xs k) ≤ key (xs (largerChild key n xs i)) := by
  have hcase : k = 2 * i ∨ k = 2 * i + 1 := by omega
  rw [largerChild]
  split
  . rename_i hcond
    cases hcase with
    | inl heq =>
      rw [heq]
      exact le_of_lt hcond.2
    | inr heq => rw [heq]
  . rename_i hcond
    cases hcase with
    | inl heq => rw [heq]
    | inr heq =>
      rw [heq]
      exact not_lt.1 (fun hlt => hcond ⟨by omega, hlt⟩)

-- All pairs are in order but the hole with its children.
structure DownOrder (key : α → β) (n : Nat) (xs : Nat → α) (i : Nat) : Prop where
  except : ∀ k : Nat, 2 ≤ k → k ≤ n → k / 2 ≠ i → key (xs k) ≤ key (xs (k / 2))
  grand : 2 ≤ i → ∀ k : Nat, 2 ≤ k → k ≤ n → k / 2 = i → key (xs k) ≤ key (xs (i / 2))

theorem DownOrder.move {j : Nat}
    (h : DownOrder key n (update xs i x) i) (hi : 1 ≤ i) (hji : j / 2 = i) (hjn : j ≤ n)
    (hlt : key x < key (xs j))
    (hmax : ∀ k : Nat, 2 ≤ k → k ≤ n → k / 2 = i → key (xs k) ≤ key (xs j))
    : DownOrder key n (update (update xs i (xs j)) j x) j := by
  have hij : i ≠ j := by omega
  constructor
  . intro k hk hkn hk2j
    by_cases hkj : k = j
    . subst hkj
      rw [update_self, update_of_ne hk2j, hji, update_self]
      exact le_of_lt hlt
    . rw [update_of_ne hkj, update_of_ne hk2j]
      by_cases hki : k = i
      . have hgrand := h.grand (by omega) j (by omega) hjn hji
        rw [update_of_ne (Ne.symm hij), update_of_ne (show i / 2 ≠ i by omega)] at hgrand
        rw [hki, update_self, update_of_ne (show i / 2 ≠ i by omega)]
        exact hgrand
      . rw [update_of_ne hki]
        by_cases hk2i : k / 2 = i
        . rw [hk2i, update_self]
          exact hmax k hk hkn hk2i
        . have hexcept := h.except k hk hkn hk2i
          rw [update_of_ne hki, update_of_ne hk2i] at hexcept
          rw [update_of_ne hk2i]
          exact hexcept
  . intro _ k hk hkn hk2j
    have hexcept := h.except k hk hkn (by omega)
    rw [hk2j, update_of_ne (show k ≠ i by omega), update_of_ne (Ne.symm hij)] at hexcept
    rw [update_of_ne (show k ≠ j by omega), update_of_ne (show k ≠ i by omega), hji,
      update_of_ne hij, update_self]
    exact hexcept

theorem DownOrder.finish (h : DownOrder key n (update xs i x) i) (hi : 1 ≤ i)
    (hstop : ∀ k : Nat, 2 ≤ k → k ≤ n → k / 2 = i → key (xs k) ≤ key x)
    : Ordered key n (update xs i x) := by
  intro k hk hkn
  by_cases hk2i : k / 2 = i
  . rw [hk2i, update_self, update_of_ne (by omega)]
    exact hstop k hk hkn hk2i
  . exact h.except k hk hkn hk2i

theorem siftDown_spec {fuel : Nat} (hi : 1 ≤ i)
    (hfuel : n ≤ i + fuel) (h : DownOrder key n (update xs i x) i)
    : Ordered key n (siftDown key n x fuel xs i) ∧
        Rearranged n (update xs i x) (siftDown key n x fuel xs i) := by
  induction fuel generalizing xs i with
  | zero => exact ⟨h.finish hi (fun k hk hkn hki => by omega), Rearranged.refl n _⟩
  | succ fuel ih =>
    rw [siftDown]
    split
    . rename_i hchild
      obtain ⟨hhalf, hle, hjn⟩ := @largerChild_bounds _ _ _ key _ _ xs hchild
      have hmax : ∀ k : Nat, 2 ≤ k → k ≤ n → k / 2 = i → key (xs k) ≤ key (xs (largerChild key n xs i)) :=
        fun _ _ hkn hki => le_largerChild xs hkn hki
      dsimp only
      split
      . rename_i hkey
        exact ⟨h.finish hi (fun k hk hkn hki => le_trans (hmax k hk hkn hki) hkey), Rearranged.refl n _⟩
      . rename_i hkey
        obtain ⟨hordered, hperm⟩ :=
          ih (by omega) (by omega) (h.move hi hhalf hjn (not_le.1 hkey) hmax)
        refine ⟨hordered, Rearranged.trans ?_ hperm⟩
        exact Rearranged.move hi (by omega) (by omega) hjn
    . rename_i hchild
      exact ⟨h.finish hi (fun k hk hkn hki => by omega), Rearranged.refl n _⟩

end SiftDown

end MaxHeap

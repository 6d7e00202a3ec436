import OpenGauss.Hotkey.Deletions
import Mathlib.Tactic.Linarith

/-!
This module shows in which runs the hot keys stay in a list.
-/

open List

namespace Hotkey

open LinkedList

namespace LRUCache

variable {W Value : Type} (ops : Weights W)

section Init

theorem init_linked (capacity : Nat) (hcapacity : 1 ≤ capacity)
    : Linked (init ops capacity : LRUCache W Value).next (init ops capacity : LRUCache W Value).prev
        (.head :: ((List.range capacity).map .elem ++ [.tail])) := by
  have helems : ∀ n, n ≤ capacity →
      Linked (init ops capacity : LRUCache W Value).next (init ops capacity : LRUCache W Value).prev
        (.head :: (List.range n).map .elem) := by
    intro n
    induction n with
    | zero =>
      intro _
      exact isChain_singleton _
    | succ n ih =>
      intro hn
      have hlast : (Ptr.head :: (List.range n).map .elem).getLast?
          = some (if n = 0 then .head else .elem (n - 1)) := by
        cases n with
        | zero => rfl
        | succ n => simp [range_succ, getLast?_cons]
      rw [range_succ, map_append, ← cons_append]
      apply (ih (by omega)).append (isChain_singleton _) hlast rfl
      . split
        . next hzero => simp [init, hzero]
        . next hzero =>
          have : n - 1 + 1 = n := by omega
          simp [init, this, show n < capacity by omega]
      . rfl
  have hlast : (Ptr.head :: (List.range capacity).map .elem).getLast? = some (.elem (capacity - 1)) := by
    obtain ⟨n, rfl⟩ := Nat.exists_eq_add_of_le' hcapacity
    simp [range_succ, getLast?_cons]
  rw [← cons_append]
  apply (helems capacity le_rfl).append (isChain_singleton _) hlast rfl
  . have : capacity - 1 + 1 = capacity := by omega
    simp [init, this]
  . rfl

theorem init_inv (capacity : Nat) (hcapacity : 1 ≤ capacity)
    : Inv ops (init ops capacity : LRUCache W Value) [] ((List.range capacity).map .elem) where
  perm := List.Perm.refl _
  linked := init_linked ops capacity hcapacity
  next_tail := rfl
  tail_node := rfl
  keyed := by simp
  empty := by
    intro p hp
    obtain ⟨i, -, rfl⟩ := mem_map.mp hp
    simp [holdsKey, init, DllNode.key]
  light := by
    intro p hp
    obtain ⟨i, -, rfl⟩ := mem_map.mp hp
    exact ops.one_le
  len_eq := rfl

end Init

section State

variable {c : LRUCache W Value} {ks es : List Ptr}

theorem Inv.isList (h : Inv ops c ks es) : c.IsList (ks ++ es) := { h with
  len_eq := by
    have hks : ks.countP (fun p => c.holdsKey p) = ks.length := by
      rw [countP_eq_length]
      intro p hp
      simpa using h.keyed p hp
    have hes : es.countP (fun p => c.holdsKey p) = 0 := by
      rw [countP_eq_zero]
      intro p hp
      simpa using h.empty p hp
    rw [countP_append, hks, hes, h.len_eq]
    rfl
  keys_first := by
    rw [pairwise_append]
    refine ⟨?_, ?_, ?_⟩
    . exact pairwise_of_forall_mem_list (fun p hp _ _ _ => h.keyed p hp)
    . exact pairwise_of_forall_mem_list (fun _ _ q hq hkey => absurd hkey (h.empty q hq))
    . exact fun p hp _ _ _ => h.keyed p hp }

theorem Inv.sound (h : Inv ops c ks es) (hcapacity : 1 ≤ c.capacity) (fuel : Nat)
    (hfuel : 2 * c.capacity + 2 ≤ fuel)
    : c.Sound ops fuel where
  isList := ⟨_, h.isList ops⟩
  dropped := by
    intro key c' old hput p hp
    obtain ⟨c'', old', ks', es', hput', -, -, hold⟩ := h.put ops hcapacity fuel (by omega) key
    rw [hput, Option.some.injEq, Prod.mk.injEq] at hput'
    have hes := hold (by rw [← hput'.right]; rfl)
    rw [← h.perm.mem_iff, hes, append_nil] at hp
    exact h.keyed p hp

theorem Inv.lastAlone_iff (h : Inv ops c ks es) (hcapacity : 1 ≤ c.capacity) (p : HotkeyInfo Value → Bool)
    : LastAlone p c ks es ↔ c.OnlyLast p := by
  have hlength := h.length_eq
  constructor
  . intro ⟨hes, before, last, hks, hmatch, hothers⟩
    have hprev := h.prev_tail last (by rw [hes, hks]; simp)
    have hmem : ∀ q, q ∈ c.elems ↔ q ∈ before ++ [last] := by
      intro q
      rw [← h.perm.mem_iff, hes, append_nil, hks]
    refine ⟨?_, last, hprev, ?_⟩
    . intro q hq
      apply h.keyed q
      rw [hks, ← hmem]
      exact hq
    . intro q hq
      rw [hmem, mem_append, mem_singleton] at hq
      constructor
      . intro hq'
        rcases hq with hq | hq
        . rw [hothers q hq] at hq'
          simp at hq'
        . exact hq
      . intro hq'
        rw [hq']
        exact hmatch
  . intro ⟨hfull, last, hprev, hmatch⟩
    have hes : es = [] := by
      rw [eq_nil_iff_forall_not_mem]
      intro q hq
      apply h.empty q hq
      apply hfull q
      rw [← h.perm.mem_iff]
      exact mem_append_right _ hq
    subst hes
    rw [append_nil] at hlength
    rcases eq_nil_or_concat ks with hks | ⟨before, x, hks⟩
    . rw [hks] at hlength
      simp at hlength
      omega
    . rw [concat_eq_append] at hks
      subst hks
      have hx := h.prev_tail x (by simp)
      rw [hprev, Option.some.injEq] at hx
      subst hx
      have hnodup := h.nodup
      simp only [append_nil, nodup_cons, nodup_append, mem_singleton] at hnodup
      refine ⟨rfl, before, last, rfl, ?_, ?_⟩
      . apply (hmatch last _).mpr rfl
        rw [← h.perm.mem_iff]
        simp
      . intro q hq
        rw [← Bool.not_eq_true, hmatch q]
        . intro hqx
          exact hnodup.right.left.right.right q hq last rfl hqx
        . rw [← h.perm.mem_iff]
          simp [hq]

theorem not_isList_of_loop (last : Ptr) (hprev : c.prev .tail = some last) (hnext : c.next last = some last)
    (order : List Ptr)
    : ¬c.IsList order := by
  intro h
  obtain ⟨x, hx⟩ := Option.ne_none_iff_exists'.mp (mt getLast?_eq_none_iff.mp (cons_ne_nil Ptr.head order))
  have hlinked : Linked c.next c.prev ((.head :: order) ++ [.tail]) := h.linked
  have hlink := hlinked.link hx (b := .tail) rfl
  rw [hprev, Option.some.injEq] at hlink
  obtain ⟨hnext', rfl⟩ := hlink
  rw [hnext, Option.some.injEq] at hnext'
  have hmem := mem_of_getLast? hx
  rw [hnext', mem_cons] at hmem
  rcases hmem with hmem | hmem
  . simp at hmem
  . rw [h.perm.mem_iff, mem_elems] at hmem
    obtain ⟨i, -, hi⟩ := hmem
    simp at hi

end State

section Run

variable {c : LRUCache W Value} {ks es : List Ptr}

theorem Inv.deleteHotkeys_iff (h : Inv ops c ks es) (hcapacity : 1 ≤ c.capacity)
    (p : HotkeyInfo Value → Bool) (fuel : Nat) (hfuel : 2 * c.capacity + 2 ≤ fuel)
    : (¬c.OnlyLast p → ∃ c' ks' es', c.deleteHotkeys ops fuel p = some c' ∧ Inv ops c' ks' es'
          ∧ c'.capacity = c.capacity)
        ∧ (c.OnlyLast p → ∃ c', c.deleteHotkeys ops fuel p = some c' ∧ ∀ order, ¬c'.IsList order) := by
  rw [← h.lastAlone_iff ops hcapacity p]
  constructor
  . intro hlast
    exact h.deleteHotkeys ops p hlast fuel hfuel
  . intro ⟨hes, before, last, hks, hmatch, hothers⟩
    subst hes hks
    have hlength := h.length_eq
    rw [append_nil, length_append, length_singleton] at hlength
    obtain ⟨c', hgo, hprev, hnext⟩ := deleteHotkeys_go_lastAlone ops p last before [] fuel h hmatch hothers
      (by omega)
    refine ⟨c', ?_, not_isList_of_loop last hprev hnext⟩
    unfold LRUCache.deleteHotkeys
    rw [h.next_head, append_nil]
    exact hgo

theorem Inv.call (h : Inv ops c ks es) (hcapacity : 1 ≤ c.capacity) (fuel : Nat)
    (hfuel : 2 * c.capacity + 2 ≤ fuel) (call : Call Value)
    : (c.Meets call → ∃ c' ks' es', c.call ops fuel call = some c' ∧ Inv ops c' ks' es'
          ∧ c'.capacity = c.capacity)
        ∧ (¬c.Meets call → ∃ c', c.call ops fuel call = some c' ∧ ∀ order, ¬c'.IsList order) := by
  cases call with
  | put key =>
    obtain ⟨c', old, ks', es', hput, hinv, hcap, -⟩ := h.put ops hcapacity fuel (by omega) key
    constructor
    . intro _
      exact ⟨c', ks', es', by simp [LRUCache.call, hput], hinv, hcap⟩
    . intro hnot
      exact absurd trivial hnot
  | contain key type =>
    obtain ⟨c', found, ks', hcontain, hinv, hcap⟩ := h.contain ops key type fuel (by omega)
    constructor
    . intro _
      exact ⟨c', ks', es, by simp [LRUCache.call, hcontain], hinv, hcap⟩
    . intro hnot
      exact absurd trivial hnot
  | deleteHotkeysInTAB tOid =>
    have hdelete := h.deleteHotkeys_iff ops hcapacity (fun keyInfo => keyInfo.relationOid = tOid) fuel hfuel
    exact ⟨hdelete.left, fun hnot => hdelete.right (not_not.mp hnot)⟩
  | deleteHotkeysInDB dbOid =>
    have hdelete := h.deleteHotkeys_iff ops hcapacity (fun keyInfo => keyInfo.databaseOid = dbOid) fuel hfuel
    exact ⟨hdelete.left, fun hnot => hdelete.right (not_not.mp hnot)⟩
  | clean =>
    constructor
    . intro _
      exact h.clean ops fuel (by omega)
    . intro hnot
      exact absurd trivial hnot

theorem Inv.run_iff (fuel : Nat) (calls : List (Call Value))
    : ∀ (c : LRUCache W Value) (ks es : List Ptr), Inv ops c ks es → 1 ≤ c.capacity →
        2 * c.capacity + 2 ≤ fuel →
        ((∀ s, s ∈ run ops fuel c calls → ∃ c', s = some c' ∧ c'.Sound ops fuel)
          ↔ MeetsAll ops fuel c calls) := by
  induction calls with
  | nil =>
    intro c ks es h hcapacity hfuel
    simp only [run, mem_singleton, forall_eq, MeetsAll, iff_true]
    exact ⟨c, rfl, h.sound ops hcapacity fuel hfuel⟩
  | cons call calls ih =>
    intro c ks es h hcapacity hfuel
    have hcall := h.call ops hcapacity fuel hfuel call
    unfold MeetsAll
    by_cases hmeets : c.Meets call
    . obtain ⟨c', ks', es', hc', hinv, hcap⟩ := hcall.left hmeets
      have hsound := h.sound ops hcapacity fuel hfuel
      have hrest := ih c' ks' es' hinv (by omega) (by omega)
      simp only [run, hc', mem_cons, forall_eq_or_imp, Option.some.injEq, exists_eq_left', hsound,
        true_and, hmeets, forall_eq']
      exact hrest
    . obtain ⟨c', hc', hnot⟩ := hcall.right hmeets
      constructor
      . intro hall
        obtain ⟨c'', heq, hsound⟩ := hall (some c') (by
          simp only [run, hc']
          cases calls with
          | nil => simp [run]
          | cons next calls =>
            unfold run
            split
            . simp
            . simp)
        obtain rfl := Option.some.inj heq
        obtain ⟨order, horder⟩ := hsound.isList
        exact absurd horder (hnot order)
      . intro hall
        exact absurd hall.left hmeets

end Run

theorem run_sound_iff (capacity : Nat) (hcapacity : 1 ≤ capacity) (fuel : Nat)
    (hfuel : 2 * capacity + 2 ≤ fuel) (calls : List (Call Value))
    : (∀ s, s ∈ run ops fuel (init ops capacity) calls → ∃ c, s = some c ∧ c.Sound ops fuel)
        ↔
      MeetsAll ops fuel (init ops capacity) calls :=
  (init_inv ops capacity hcapacity).run_iff ops fuel calls _ _ _ hcapacity hfuel

section TwoNodes

def rationals : Weights Rat where
  le a b := decide (a ≤ b)
  zero := 0
  one := 1
  addOne w := w + 1
  decay w := w * (3 / 4)
  one_le := by simp
  decay_le := by
    intro w hw
    rw [decide_eq_true_eq] at hw ⊢
    linarith

def keyOf (relationOid : Nat) : HotkeyInfo Unit where
  relationOid := relationOid
  databaseOid := 1
  hotkeyValue := ()

theorem run_sound_iff_twoNodes
    : (∀ s, s ∈ run rationals 6 (init rationals 2) [.put (keyOf 1), .deleteHotkeysInTAB 1] →
          ∃ c, s = some c ∧ c.Sound rationals 6)
        ↔
      MeetsAll rationals 6 (init rationals 2) [.put (keyOf 1), .deleteHotkeysInTAB 1] :=
  run_sound_iff rationals 2 (by decide) 6 (by decide) _

def dropFirst : List (Call Unit) :=
  [.put (keyOf 1), .put (keyOf 2), .deleteHotkeysInTAB 1]

theorem not_sound_dropFirst
    : ¬∀ (capacity : Nat), 1 ≤ capacity → ∀ (fuel : Nat), 2 * capacity + 2 ≤ fuel →
        ∀ (calls : List (Call Unit)) (s : Option (LRUCache Rat Unit)),
          s ∈ run rationals fuel (init rationals capacity) calls →
            ∃ c, s = some c ∧ c.Sound rationals fuel := by
  intro h
  obtain ⟨s, hs⟩ : ∃ s, (run rationals 6 (init rationals 2) dropFirst).getLast? = some s := ⟨_, rfl⟩
  obtain ⟨c, hc, hsound⟩ := h 2 (by decide) 6 (by decide) dropFirst s (List.mem_of_getLast? hs)
  rw [hc] at hs
  have hprev : ((run rationals 6 (init rationals 2) dropFirst).getLast?.join.bind
      (fun c => c.prev .tail)) = some (.elem 1) := by
    decide
  have hnext : ((run rationals 6 (init rationals 2) dropFirst).getLast?.join.bind
      (fun c => c.next (.elem 1))) = some (.elem 1) := by
    decide
  rw [hs] at hprev hnext
  obtain ⟨order, horder⟩ := hsound.isList
  exact not_isList_of_loop (.elem 1) hprev hnext order horder

end TwoNodes

end LRUCache
end Hotkey

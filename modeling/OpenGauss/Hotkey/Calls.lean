import OpenGauss.Hotkey.Lemmas

/-!
This module shows that every call keeps the list of hot keys a list, but the deletion of the last key
alone.
-/

open List Option

namespace Hotkey

open LinkedList

namespace LRUCache

variable {W Value : Type} (ops : Weights W)

/--
The nodes between head and tail are `order`.
-/
structure Placed (c : LRUCache W Value) (order : List Ptr) : Prop where
  perm : order.Perm c.elems
  linked : Linked c.next c.prev (.head :: (order ++ [.tail]))
  next_tail : c.next .tail = none
  tail_node : (c.nodes .tail).node = some { key := none }

/--
The nodes with a key are `ks`, the ones behind them are not heavier than a new key.
-/
structure Inv (c : LRUCache W Value) (ks es : List Ptr) : Prop extends Placed c (ks ++ es) where
  keyed : ∀ p, p ∈ ks → c.holdsKey p
  empty : ∀ p, p ∈ es → ¬c.holdsKey p
  light : ∀ p, p ∈ es → ops.le (c.nodes p).weight ops.one = true
  len_eq : c.len = ks.length

section Placed

variable {c : LRUCache W Value} {order : List Ptr}

theorem mem_elems (p : Ptr) : p ∈ c.elems ↔ ∃ i, i < c.capacity ∧ p = .elem i := by
  unfold elems
  rw [List.mem_map]
  simp only [mem_range, eq_comm]

theorem elems_congr (c c' : LRUCache W Value) (h : c'.capacity = c.capacity) : c'.elems = c.elems := by
  unfold elems
  rw [h]

section

variable (h : c.Placed order)
include h

theorem Placed.nodup : (Ptr.head :: (order ++ [.tail])).Nodup := by
  have hmem : ∀ p, p ∈ order → ∃ i, i < c.capacity ∧ p = .elem i := by
    intro p hp
    exact (mem_elems p).mp (h.perm.mem_iff.mp hp)
  have hnodup : order.Nodup := by
    rw [h.perm.nodup_iff]
    unfold elems
    apply List.Nodup.map _ nodup_range
    intro i j hij
    exact Ptr.elem.inj hij
  rw [nodup_cons, nodup_append]
  refine ⟨?_, hnodup, nodup_singleton _, ?_⟩
  . grind
  . intro p hp q hq
    obtain ⟨i, -, hi⟩ := hmem p hp
    rw [mem_singleton] at hq
    rw [hi, hq]
    simp

theorem Placed.ne_tail (p : Ptr) (hp : p ∈ order) : p ≠ .tail := by
  obtain ⟨i, -, hi⟩ := (mem_elems p).mp (h.perm.mem_iff.mp hp)
  rw [hi]
  simp

theorem Placed.length_eq : order.length = c.capacity := by
  rw [h.perm.length_eq]
  simp [elems]

theorem Placed.prev_tail (x : Ptr) (hx : order.getLast? = some x) : c.prev .tail = some x := by
  have hlinked : Linked c.next c.prev ((.head :: order) ++ [.tail]) := h.linked
  exact (hlinked.link (by rw [getLast?_cons, hx]; rfl) rfl).right

theorem Placed.next_head : c.next .head = (order ++ [Ptr.tail]).head? := by
  obtain ⟨p, hp⟩ := ne_none_iff_exists'.mp (mt head?_eq_none_iff.mp (show order ++ [Ptr.tail] ≠ [] by simp))
  have hlinked : Linked c.next c.prev ([.head] ++ (order ++ [.tail])) := h.linked
  rw [hp]
  exact (hlinked.link rfl hp).left

theorem Placed.next_of_mem (before after : List Ptr) (p : Ptr)
    (horder : order = before ++ p :: after)
    : c.next p = (after ++ [Ptr.tail]).head? := by
  obtain ⟨q, hq⟩ := ne_none_iff_exists'.mp (mt head?_eq_none_iff.mp (show after ++ [Ptr.tail] ≠ [] by simp))
  have hlinked : Linked c.next c.prev ((.head :: (before ++ [p])) ++ (after ++ [.tail])) := by
    have := h.linked
    rw [horder] at this
    simpa using this
  rw [hq]
  exact (hlinked.link (by rw [getLast?_cons]; simp) hq).left

end

variable {c' : LRUCache W Value}

theorem Placed.congr (h : c.Placed order) (hnext : c'.next = c.next)
    (hprev : c'.prev = c.prev) (hcapacity : c'.capacity = c.capacity)
    (htail : (c'.nodes .tail).node = (c.nodes .tail).node)
    : c'.Placed order where
  perm := by
    rw [elems_congr c c' hcapacity]
    exact h.perm
  linked := by
    rw [hnext, hprev]
    exact h.linked
  next_tail := by
    rw [hnext]
    exact h.next_tail
  tail_node := htail.trans h.tail_node

theorem Placed.reLocate {before after : List Ptr} {x : Ptr} (h : c.Placed (before ++ x :: after))
    (fuel : Nat) (hfuel : c.capacity + 2 ≤ fuel)
    : ∃ c' skipped rest, before = skipped ++ rest ∧ c.reLocate ops fuel (some x) = some c'
        ∧ c'.Placed (skipped ++ x :: (rest ++ after))
        ∧ (∀ y, y ∈ skipped → ops.le (c.nodes y).weight (c.nodes x).weight = false)
        ∧ c'.nodes = c.nodes ∧ c'.len = c.len ∧ c'.capacity = c.capacity := by
  have hlength := h.length_eq
  rw [length_append, length_cons] at hlength
  have hlist : Ptr.head :: ((before ++ x :: after) ++ [.tail])
      = [.head] ++ before ++ [x] ++ (after ++ [.tail]) := by simp
  have hlinked := h.linked
  have hnodup := h.nodup
  rw [hlist] at hlinked hnodup
  obtain ⟨c', skipped, rest, hbefore, hgo, hlinked', hskipped, hnodes, hlen, hcapacity, hnext⟩ :=
    reLocate_go_linked ops (by simp) before [.head] fuel (by simp) (by omega) hlinked hnodup
  refine ⟨c', skipped, rest, hbefore, ?_, ⟨?_, by simpa using hlinked', ?_, ?_⟩, hskipped, hnodes, hlen,
    hcapacity⟩
  . have hhead : ((before ++ x :: after) ++ [Ptr.tail]).head? = (before ++ [x]).head? := by
      cases before with
      | nil => rfl
      | cons y before => rfl
    unfold LRUCache.reLocate
    rw [h.next_head, hhead]
    exact hgo
  . rw [elems_congr c c' hcapacity]
    apply List.Perm.trans _ h.perm
    rw [hbefore, append_assoc]
    apply List.Perm.append_left
    exact perm_middle.symm
  . rw [hnext .tail (by simp)]
    exact h.next_tail
  . rw [hnodes]
    exact h.tail_node

end Placed

section Put

variable {c : LRUCache W Value}

theorem addToTail_eq (x : Ptr) (hx : c.prev .tail = some x) (ref : RefNode Value)
    : c.addToTail ops ref
        =
      some ({ c with
        nodes := Function.update c.nodes x { node := some ref, value := 2, weight := ops.one }
        len := if (c.nodes x).key.isNone then c.len + 1 else c.len }, (c.nodes x).key) := by
  simp [addToTail, hx, setNode]

theorem prefix_of_skipped {p : Ptr → Prop} {ks es skipped rest : List Ptr} (heq : ks ++ es = skipped ++ rest)
    (hskipped : ∀ y, y ∈ skipped → ¬p y) (hes : ∀ y, y ∈ es → p y)
    : ∃ ks', ks = skipped ++ ks' ∧ rest = ks' ++ es := by
  rw [append_eq_append_iff] at heq
  rcases heq with ⟨as, hs, he⟩ | ⟨ks', hks, hrest⟩
  . cases as with
    | nil => exact ⟨[], by simpa using hs.symm, by simpa using he.symm⟩
    | cons y as =>
      exfalso
      apply hskipped y
      . simp [hs]
      . apply hes y
        simp [he]
  . exact ⟨ks', hks, hrest⟩

theorem put_last (ks es : List Ptr) (x : Ptr) (h : c.Placed (ks ++ es ++ [x]))
    (hkeyed : ∀ p, p ∈ ks → c.holdsKey p) (hempty : ∀ p, p ∈ es → ¬c.holdsKey p)
    (hlight : ∀ p, p ∈ es → ops.le (c.nodes p).weight ops.one = true)
    (hlen : c.len = ks.length + if (c.nodes x).key.isNone then 0 else 1) (fuel : Nat)
    (hfuel : c.capacity + 2 ≤ fuel) (key : HotkeyInfo Value)
    : ∃ c' ks' es', c.put ops fuel key = some (c', (c.nodes x).key) ∧ Inv ops c' ks' es'
        ∧ c'.capacity = c.capacity := by
  have hprev := h.prev_tail x (by simp)
  have hnodup := h.nodup
  simp only [nodup_cons, nodup_append, mem_append, mem_singleton] at hnodup
  have hne : ∀ y, y ∈ ks ∨ y ∈ es → y ≠ x := fun y hy => hnodup.right.left.right.right y hy x rfl
  have hadd := addToTail_eq ops x hprev { key := some key }
  revert hadd
  generalize hc₁ : { c with
        nodes := Function.update c.nodes x { node := some { key := some key }, value := 2, weight := ops.one }
        len := if (c.nodes x).key.isNone then c.len + 1 else c.len : LRUCache W Value } = c₁
  intro hadd
  have hplaced : c₁.Placed (ks ++ es ++ x :: []) := by
    apply h.congr
    . rw [← hc₁]
    . rw [← hc₁]
    . rw [← hc₁]
    . rw [← hc₁]
      dsimp only
      rw [Function.update_of_ne (h.ne_tail x (by simp)).symm]
  have hx : c₁.nodes x = { node := some { key := some key }, value := 2, weight := ops.one } := by
    rw [← hc₁]
    exact Function.update_self ..
  have hother : ∀ y, y ≠ x → c₁.nodes y = c.nodes y := by
    intro y hy
    rw [← hc₁]
    exact Function.update_of_ne hy ..
  have hcapacity₁ : c₁.capacity = c.capacity := by rw [← hc₁]
  obtain ⟨c', skipped, rest, hbefore, hgo, hplaced', hskipped, hnodes, hlen', hcapacity⟩ :=
    hplaced.reLocate ops fuel (by omega)
  have hheavy : ∀ y, y ∈ skipped → ¬ops.le (c.nodes y).weight ops.one = true := by
    intro y hy
    have hmem : y ∈ ks ++ es := by
      rw [hbefore]
      exact mem_append_left _ hy
    have := hskipped y hy
    rw [hx, hother y (hne y (mem_append.mp hmem))] at this
    simp [this]
  obtain ⟨ks', hks, hrest⟩ := prefix_of_skipped hbefore hheavy hlight
  refine ⟨c', skipped ++ x :: ks', es, ?_, ⟨?_, ?_, ?_, ?_, ?_⟩, hcapacity.trans hcapacity₁⟩
  . have hprev₁ : c₁.prev .tail = some x := by
      rw [← hc₁]
      exact hprev
    unfold put
    rw [hadd]
    simp only [bind_eq_bind, bind_some]
    rw [hprev₁, hgo]
    rfl
  . rw [hrest] at hplaced'
    simpa using hplaced'
  . intro p hp
    unfold holdsKey
    rw [hnodes]
    simp only [mem_append, mem_cons] at hp
    by_cases hpx : p = x
    . rw [hpx, hx]
      rfl
    . have hmem : p ∈ ks := by
        rw [hks, mem_append]
        rcases hp with hp | hp | hp
        . exact .inl hp
        . exact absurd hp hpx
        . exact .inr hp
      rw [hother p hpx]
      exact hkeyed p hmem
  . intro p hp
    unfold holdsKey
    rw [hnodes, hother p (hne p (.inr hp))]
    exact hempty p hp
  . intro p hp
    rw [hnodes, hother p (hne p (.inr hp))]
    exact hlight p hp
  . have hlen₁ : c₁.len = if (c.nodes x).key.isNone then c.len + 1 else c.len := by rw [← hc₁]
    rw [hlen', hlen₁, hlen, hks]
    simp only [length_append, length_cons]
    split
    . omega
    . omega

theorem Inv.put {ks es : List Ptr} (h : Inv ops c ks es) (hcapacity : 1 ≤ c.capacity) (fuel : Nat)
    (hfuel : c.capacity + 2 ≤ fuel) (key : HotkeyInfo Value)
    : ∃ c' old ks' es', c.put ops fuel key = some (c', old) ∧ Inv ops c' ks' es'
        ∧ c'.capacity = c.capacity ∧ (old.isSome → es = []) := by
  have hlength := h.length_eq
  rcases eq_nil_or_concat es with hes | ⟨es', x, hes⟩
  . rcases eq_nil_or_concat ks with hks | ⟨ks', x, hks⟩
    . rw [hks, hes] at hlength
      simp at hlength
      omega
    . rw [concat_eq_append] at hks
      subst hks hes
      have hx := h.keyed x (by simp)
      unfold holdsKey at hx
      obtain ⟨c', ks₁, es₁, hput, hinv, hcap⟩ := put_last ops ks' [] x
        (by simpa using h.toPlaced) (fun p hp => h.keyed p (mem_append_left _ hp)) (by simp) (by simp)
        (by rw [h.len_eq]; simp [isSome_iff_ne_none.mp hx]) fuel hfuel key
      exact ⟨c', _, ks₁, es₁, hput, hinv, hcap, fun _ => rfl⟩
  . rw [concat_eq_append] at hes
    subst hes
    have hx := h.empty x (by simp)
    unfold holdsKey at hx
    rw [not_isSome_iff_eq_none] at hx
    obtain ⟨c', ks₁, es₁, hput, hinv, hcap⟩ := put_last ops ks es' x
      (by simpa using h.toPlaced) h.keyed (fun p hp => h.empty p (mem_append_left _ hp))
      (fun p hp => h.light p (mem_append_left _ hp)) (by rw [h.len_eq]; simp [hx]) fuel hfuel key
    refine ⟨c', _, ks₁, es₁, hput, hinv, hcap, ?_⟩
    rw [hx]
    simp

end Put

section Contain

variable (node : HotkeyInfo Value) (type : HotkeyInfo Value → HotkeyInfo Value → Bool)

-- The walk changes no link and no key, and no node without a key gets heavier than a new one.
structure Weighed (c c' : LRUCache W Value) : Prop where
  len : c'.len = c.len
  capacity : c'.capacity = c.capacity
  next : c'.next = c.next
  prev : c'.prev = c.prev
  node : ∀ p, (c'.nodes p).node = (c.nodes p).node
  light : ∀ p, ¬c.holdsKey p → ops.le (c.nodes p).weight ops.one = true →
    ops.le (c'.nodes p).weight ops.one = true

theorem Weighed.refl (c : LRUCache W Value) : Weighed ops c c :=
  ⟨rfl, rfl, rfl, rfl, fun _ => rfl, fun _ _ h => h⟩

variable {c : LRUCache W Value}

theorem Weighed.holdsKey (h : Weighed ops c c') (p : Ptr) : c'.holdsKey p ↔ c.holdsKey p := by
  unfold LRUCache.holdsKey DllNode.key
  rw [h.node p]

theorem Weighed.trans {c'' : LRUCache W Value} (h : Weighed ops c c') (h' : Weighed ops c' c'')
    : Weighed ops c c'' where
  len := h'.len.trans h.len
  capacity := h'.capacity.trans h.capacity
  next := h'.next.trans h.next
  prev := h'.prev.trans h.prev
  node p := (h'.node p).trans (h.node p)
  light p hkey hlight := h'.light p (fun hp => hkey ((h.holdsKey ops p).mp hp)) (h.light p hkey hlight)

theorem weighed_setNode (p : Ptr) (n : DllNode W Value) (hnode : n.node = (c.nodes p).node)
    (hlight : ¬c.holdsKey p → ops.le (c.nodes p).weight ops.one = true → ops.le n.weight ops.one = true)
    : Weighed ops c (c.setNode p n) where
  len := rfl
  capacity := rfl
  next := rfl
  prev := rfl
  node q := by
    unfold setNode
    by_cases hq : q = p
    . simp [hq, hnode]
    . simp [hq]
  light q hkey hq := by
    unfold setNode
    by_cases hqp : q = p
    . subst hqp
      simpa using hlight hkey hq
    . simpa [hqp] using hq

theorem Placed.weighed {order : List Ptr} (h : c.Placed order) (hw : Weighed ops c c')
    : c'.Placed order :=
  h.congr hw.next hw.prev hw.capacity (hw.node .tail)

theorem contain_go_spec (l : List Ptr)
    : ∀ (c : LRUCache W Value) (order : List Ptr) (before : List Ptr) (findNode : Option Ptr) (fuel : Nat),
        c.Placed order → order = before ++ l → l.length + 2 ≤ fuel →
        ∃ c' found, contain.go ops node type fuel c findNode (l ++ [Ptr.tail]).head? = some (c', found)
          ∧ Weighed ops c c' ∧ (found = findNode ∨ ∃ x, x ∈ l ∧ c.holdsKey x ∧ found = some x) := by
  induction l with
  | nil =>
    intro c order before findNode fuel h _ hfuel
    obtain ⟨fuel, rfl⟩ := Nat.exists_eq_add_of_le' hfuel
    have hkey : (c.nodes .tail).key = none := by simp [DllNode.key, h.tail_node]
    refine ⟨_, findNode, ?_, weighed_setNode ops .tail
      { c.nodes .tail with weight := ops.decay (c.nodes .tail).weight } rfl ?_, .inl rfl⟩
    . simp [contain.go, h.tail_node, hkey, h.next_tail]
    . intro _ hlight
      exact ops.decay_le _ hlight
  | cons p l ih =>
    intro c order before findNode fuel h horder hfuel
    rw [length_cons] at hfuel
    obtain ⟨fuel, rfl⟩ := Nat.exists_eq_add_of_le' (Nat.le_of_add_left_le hfuel)
    have hnext := h.next_of_mem before l p horder
    rw [cons_append, head?_cons]
    unfold contain.go
    dsimp only
    split
    . exact ⟨c, findNode, rfl, Weighed.refl ops c, .inl rfl⟩
    . split
      . next hfind =>
        have hkey : c.holdsKey p := by
          unfold LRUCache.holdsKey
          cases hk : (c.nodes p).key with
          | none => simp [hk] at hfind
          | some key => rfl
        have hw := weighed_setNode ops p { c.nodes p with
          value := (c.nodes p).value + 1, weight := ops.addOne (c.nodes p).weight } rfl
          (fun hnot => absurd hkey hnot)
        obtain ⟨c', found, hgo, hw', hfound⟩ := ih _ order (before ++ [p]) (some p) (fuel + 1)
          (h.weighed ops hw) (by simpa using horder) (by omega)
        rw [hnext]
        refine ⟨c', found, hgo, hw.trans ops hw', .inr ?_⟩
        rcases hfound with hfound | ⟨x, hx, hxkey, hfound⟩
        . exact ⟨p, by simp, hkey, hfound⟩
        . exact ⟨x, by simp [hx], (hw.holdsKey ops x).mp hxkey, hfound⟩
      . have hw := weighed_setNode ops p { c.nodes p with weight := ops.decay (c.nodes p).weight } rfl
          (fun _ hlight => ops.decay_le _ hlight)
        obtain ⟨c', found, hgo, hw', hfound⟩ := ih _ order (before ++ [p]) findNode (fuel + 1)
          (h.weighed ops hw) (by simpa using horder) (by omega)
        rw [hnext]
        refine ⟨c', found, hgo, hw.trans ops hw', ?_⟩
        rcases hfound with hfound | ⟨x, hx, hxkey, hfound⟩
        . exact .inl hfound
        . exact .inr ⟨x, by simp [hx], (hw.holdsKey ops x).mp hxkey, hfound⟩

theorem Inv.weighed {ks es : List Ptr} (h : Inv ops c ks es) (hw : Weighed ops c c')
    : Inv ops c' ks es where
  toPlaced := h.toPlaced.weighed ops hw
  keyed p hp := (hw.holdsKey ops p).mpr (h.keyed p hp)
  empty p hp hkey := h.empty p hp ((hw.holdsKey ops p).mp hkey)
  light p hp := hw.light p (h.empty p hp) (h.light p hp)
  len_eq := hw.len.trans h.len_eq

theorem Inv.contain {ks es : List Ptr} (h : Inv ops c ks es) (fuel : Nat) (hfuel : c.capacity + 2 ≤ fuel)
    : ∃ c' found ks', c.contain ops fuel node type = some (c', found) ∧ Inv ops c' ks' es
        ∧ c'.capacity = c.capacity := by
  unfold LRUCache.contain
  split
  . exact ⟨c, false, ks, rfl, h, rfl⟩
  . have hlength := h.length_eq
    obtain ⟨c₁, found, hgo, hw, hfound⟩ := contain_go_spec ops node type (ks ++ es) c _ [] none fuel
      h.toPlaced rfl (by omega)
    have h₁ := h.weighed ops hw
    rw [h.next_head, hgo]
    simp only [bind_eq_bind, bind_some]
    rcases hfound with hfound | ⟨x, hx, hkey, hfound⟩
    . refine ⟨c₁, false, ks, ?_, h₁, hw.capacity⟩
      rw [hfound]
      rfl
    . have hmem : x ∈ ks := by
        rw [mem_append] at hx
        cases hx with
        | inl hx => exact hx
        | inr hx => exact absurd hkey (h.empty x hx)
      obtain ⟨before, after, hks⟩ := append_of_mem hmem
      have hplaced := h₁.toPlaced
      rw [hks, append_assoc, cons_append] at hplaced
      have hcap := hw.capacity
      obtain ⟨c', skipped, rest, hbefore, hgo', hplaced', -, hnodes, hlen, hcapacity⟩ :=
        hplaced.reLocate ops fuel (by omega)
      refine ⟨c', true, skipped ++ x :: (rest ++ after), ?_, ⟨?_, ?_, ?_, ?_, ?_⟩, hcapacity.trans hcap⟩
      . rw [hfound, hgo']
        rfl
      . simpa using hplaced'
      . intro p hp
        unfold LRUCache.holdsKey
        rw [hnodes]
        apply h₁.keyed p
        rw [hks, hbefore]
        simp only [mem_append, mem_cons] at hp ⊢
        tauto
      . intro p hp
        unfold LRUCache.holdsKey
        rw [hnodes]
        exact h₁.empty p hp
      . intro p hp
        rw [hnodes]
        exact h₁.light p hp
      . rw [hlen, h₁.len_eq, hks, hbefore]
        simp only [length_append, length_cons]
        omega

end Contain

end LRUCache
end Hotkey

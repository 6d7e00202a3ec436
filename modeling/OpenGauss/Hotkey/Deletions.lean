import OpenGauss.Hotkey.Calls

/-!
This module shows what `Clean` and the deletion of the keys of a table or a database leave.
-/

open List Function

namespace Hotkey

open LinkedList

namespace LRUCache

variable {W Value : Type} (ops : Weights W)

section Remove

variable (c : LRUCache W Value)

theorem remove_of_holdsKey (x : Ptr) (hx : c.holdsKey x) (hlen : c.len ≠ 0)
    : c.remove ops x
        =
      { c with
        nodes := Function.update c.nodes x { node := none, value := 0, weight := ops.one }
        len := c.len - 1 } := by
  unfold remove
  rw [if_neg]
  . rfl
  . unfold holdsKey DllNode.key at hx
    cases hnode : (c.nodes x).node with
    | none => simp [hnode] at hx
    | some ref => simp [hlen]

theorem remove_of_len (x : Ptr) (hlen : c.len = 0) : c.remove ops x = c := by
  unfold remove
  rw [if_pos (.inl hlen)]

end Remove

section Clean

variable {c : LRUCache W Value}

theorem clean_go_empty (l : List Ptr)
    : ∀ (order before : List Ptr) (fuel : Nat), c.Placed order → c.len = 0 → order = before ++ l →
        l.length + 2 ≤ fuel →
        clean.go ops fuel c (l ++ [Ptr.tail]).head? = some c := by
  induction l with
  | nil =>
    intro order before fuel h hlen _ hfuel
    obtain ⟨fuel, rfl⟩ := Nat.exists_eq_add_of_le' hfuel
    simp [clean.go, remove_of_len ops c .tail hlen, h.next_tail]
  | cons p l ih =>
    intro order before fuel h hlen horder hfuel
    rw [length_cons] at hfuel
    obtain ⟨fuel, rfl⟩ := Nat.exists_eq_add_of_le' (Nat.le_of_add_left_le hfuel)
    rw [cons_append, head?_cons]
    unfold clean.go
    rw [remove_of_len ops c p hlen, h.next_of_mem before l p horder]
    exact ih order (before ++ [p]) (fuel + 1) h hlen (by simpa using horder) (by omega)

theorem clean_go_spec (ks es : List Ptr)
    : ∀ (c : LRUCache W Value) (before : List Ptr) (fuel : Nat), c.Placed (before ++ ks ++ es) →
        (∀ p, p ∈ ks → c.holdsKey p) → c.len = ks.length → ks.length + es.length + 2 ≤ fuel →
        ∃ c', clean.go ops fuel c (ks ++ es ++ [Ptr.tail]).head? = some c'
          ∧ c'.Placed (before ++ ks ++ es) ∧ c'.len = 0 ∧ c'.capacity = c.capacity
          ∧ (∀ p, p ∉ ks → c'.nodes p = c.nodes p)
          ∧ ∀ p, p ∈ ks → c'.nodes p = { node := none, value := 0, weight := ops.one } := by
  induction ks with
  | nil =>
    intro c before fuel h _ hlen hfuel
    rw [append_nil] at h ⊢
    refine ⟨c, ?_, h, hlen, rfl, fun _ _ => rfl, by simp⟩
    exact clean_go_empty ops es _ before fuel h hlen rfl (by simpa using hfuel)
  | cons p ks ih =>
    intro c before fuel h hkeyed hlen hfuel
    rw [length_cons] at hlen hfuel
    obtain ⟨fuel, rfl⟩ := Nat.exists_eq_add_of_le' (Nat.le_of_add_left_le hfuel)
    have horder : before ++ p :: ks ++ es = before ++ [p] ++ ks ++ es := by simp
    have hnodup := h.nodup
    simp only [nodup_cons, nodup_append, mem_append, mem_cons] at hnodup
    have hp := hnodup.right.left.left.right.left.left
    have hremove := remove_of_holdsKey ops c p (hkeyed p (by simp)) (by omega)
    have hnext : c.next p = (ks ++ es ++ [Ptr.tail]).head? :=
      h.next_of_mem before (ks ++ es) p (by simp)
    rw [cons_append, cons_append, head?_cons]
    unfold clean.go
    rw [hnext, hremove]
    have hne : ∀ q, q ∈ ks → q ≠ p := by
      intro q hq hqp
      rw [hqp] at hq
      exact hp hq
    obtain ⟨c', hgo, hplaced, hlen', hcapacity, hother, hremoved⟩ := ih
      { c with
        nodes := Function.update c.nodes p { node := none, value := 0, weight := ops.one }
        len := c.len - 1 } (before ++ [p]) (fuel + 1)
      (by
        rw [← horder]
        apply h.congr
        . rfl
        . rfl
        . rfl
        . dsimp only
          rw [update_of_ne (h.ne_tail p (by simp)).symm])
      (by
        intro q hq
        unfold holdsKey
        dsimp only
        rw [update_of_ne (hne q hq)]
        exact hkeyed q (mem_cons_of_mem p hq))
      (by dsimp only; omega) (by omega)
    refine ⟨c', hgo, by rwa [horder], hlen', hcapacity, ?_, ?_⟩
    . intro q hq
      rw [mem_cons, not_or] at hq
      rw [hother q hq.right]
      exact update_of_ne hq.left ..
    . intro q hq
      rw [mem_cons] at hq
      rcases hq with rfl | hq
      . rw [hother q hp]
        exact update_self ..
      . exact hremoved q hq

theorem Inv.clean {ks es : List Ptr} (h : Inv ops c ks es) (fuel : Nat) (hfuel : c.capacity + 2 ≤ fuel)
    : ∃ c' ks' es', c.clean ops fuel = some c' ∧ Inv ops c' ks' es' ∧ c'.capacity = c.capacity := by
  unfold LRUCache.clean
  split
  . exact ⟨c, ks, es, rfl, h, rfl⟩
  . have hlength := h.length_eq
    rw [length_append] at hlength
    obtain ⟨c', hgo, hplaced, hlen, hcapacity, hother, hremoved⟩ :=
      clean_go_spec ops ks es c [] fuel h.toPlaced h.keyed h.len_eq (by omega)
    rw [h.next_head]
    refine ⟨c', [], ks ++ es, hgo, ⟨hplaced, by simp, ?_, ?_, by simpa using hlen⟩, hcapacity⟩
    . intro p hp
      by_cases hks : p ∈ ks
      . simp [holdsKey, DllNode.key, hremoved p hks]
      . unfold holdsKey
        rw [hother p hks]
        exact h.empty p ((mem_append.mp hp).resolve_left hks)
    . intro p hp
      by_cases hks : p ∈ ks
      . rw [hremoved p hks]
        exact ops.one_le
      . rw [hother p hks]
        exact h.light p ((mem_append.mp hp).resolve_left hks)

end Clean

section Delete

variable {c : LRUCache W Value} (p : HotkeyInfo Value → Bool)

theorem deleteHotkeys_go_empty (l : List Ptr)
    : ∀ (order before : List Ptr) (fuel : Nat), c.Placed order → order = before ++ l →
        (∀ q, q ∈ l → ¬c.holdsKey q) → l.length + 2 ≤ fuel →
        deleteHotkeys.go ops p fuel c (l ++ [Ptr.tail]).head? = some c := by
  induction l with
  | nil =>
    intro order before fuel h _ _ hfuel
    obtain ⟨fuel, rfl⟩ := Nat.exists_eq_add_of_le' hfuel
    simp [deleteHotkeys.go, DllNode.key, h.tail_node, h.next_tail]
  | cons q l ih =>
    intro order before fuel h horder hempty hfuel
    rw [length_cons] at hfuel
    obtain ⟨fuel, rfl⟩ := Nat.exists_eq_add_of_le' (Nat.le_of_add_left_le hfuel)
    have hkey : (c.nodes q).key = none := by
      have := hempty q (by simp)
      unfold holdsKey at this
      rwa [Option.not_isSome_iff_eq_none] at this
    rw [cons_append, head?_cons]
    unfold deleteHotkeys.go
    dsimp only
    split
    . rfl
    . rw [if_neg (by simp [hkey]), h.next_of_mem before l q horder]
      exact ih order (before ++ [q]) (fuel + 1) h (by simpa using horder)
        (fun q hq => hempty q (mem_cons_of_mem _ hq)) (by omega)

/--
The key to delete is the one of the last node, and it is the only one.
-/
def LastAlone (c : LRUCache W Value) (ks es : List Ptr) : Prop :=
  es = [] ∧ ∃ before last, ks = before ++ [last] ∧ (c.nodes last).key.any p = true
    ∧ ∀ q, q ∈ before → (c.nodes q).key.any p = false

theorem Inv.holdsKey_node {ks es : List Ptr} (h : Inv ops c ks es) (q : Ptr) (hq : q ∈ ks)
    : (c.nodes q).node.isNone = false := by
  have := h.keyed q hq
  unfold holdsKey DllNode.key at this
  cases hnode : (c.nodes q).node with
  | none => simp [hnode] at this
  | some ref => rfl

theorem Inv.removeToTail {kept rest es : List Ptr} {x : Ptr} (h : Inv ops c (kept ++ x :: rest) es)
    (hne : rest ++ es ≠ [])
    : ∃ c', (c.remove ops x).moveToTail x = some c' ∧ Inv ops c' (kept ++ rest) (es ++ [x])
        ∧ c'.capacity = c.capacity ∧ ∀ q, q ≠ x → c'.nodes q = c.nodes q := by
  have hx := h.keyed x (by simp)
  have hlen := h.len_eq
  rw [length_append, length_cons] at hlen
  rw [remove_of_holdsKey ops c x hx (by omega)]
  have hlist : Ptr.head :: ((kept ++ x :: rest) ++ es ++ [.tail])
      = (.head :: kept) ++ [x] ++ (rest ++ es) ++ [.tail] := by simp
  have hlinked := h.linked
  have hnodup := h.nodup
  rw [hlist] at hlinked hnodup
  have hsplit := hnodup
  simp only [nodup_append, mem_append, mem_cons] at hsplit
  have hkept : ∀ q, q ∈ kept → q ≠ x := fun q hq => hsplit.left.left.right.right q (.inr hq) x (.inl rfl)
  have hrest : ∀ q, q ∈ rest ∨ q ∈ es → q ≠ x := fun q hq =>
    (hsplit.left.right.right x (.inr (.inl rfl)) q hq).symm
  obtain ⟨c', hmove, hlinked', hnodes, hlen', hcapacity, hnext⟩ := moveToTail_linked
    (c := { c with
        nodes := Function.update c.nodes x { node := none, value := 0, weight := ops.one }
        len := c.len - 1 }) hlinked hnodup (by simp) hne
  have hother : ∀ q, q ≠ x → c'.nodes q = c.nodes q := by
    intro q hq
    rw [hnodes]
    exact update_of_ne hq ..
  have hself : c'.nodes x = { node := none, value := 0, weight := ops.one } := by
    rw [hnodes]
    exact update_self ..
  refine ⟨c', hmove, ⟨⟨?_, by simpa using hlinked', hnext.trans h.next_tail, ?_⟩, ?_, ?_, ?_, ?_⟩,
    hcapacity, hother⟩
  . rw [elems_congr c c' hcapacity]
    apply List.Perm.trans _ h.perm
    have hassoc : kept ++ rest ++ (es ++ [x]) = kept ++ ((rest ++ es) ++ [x]) := by simp
    have hassoc' : kept ++ x :: rest ++ es = kept ++ (x :: (rest ++ es)) := by simp
    rw [hassoc, hassoc']
    apply List.Perm.append_left
    exact perm_append_singleton x (rest ++ es)
  . rw [hother _ (h.ne_tail x (by simp)).symm]
    exact h.tail_node
  . intro q hq
    unfold holdsKey
    rw [mem_append] at hq
    rcases hq with hq | hq
    . rw [hother q (hkept q hq)]
      exact h.keyed q (by simp [hq])
    . rw [hother q (hrest q (.inl hq))]
      exact h.keyed q (by simp [hq])
  . intro q hq
    unfold holdsKey
    rw [mem_append, mem_singleton] at hq
    rcases hq with hq | hq
    . rw [hother q (hrest q (.inr hq))]
      exact h.empty q hq
    . rw [hq, hself]
      simp [DllNode.key]
  . intro q hq
    rw [mem_append, mem_singleton] at hq
    rcases hq with hq | hq
    . rw [hother q (hrest q (.inr hq))]
      exact h.light q hq
    . rw [hq, hself]
      exact ops.one_le
  . rw [hlen']
    dsimp only
    rw [hlen, length_append]
    omega

theorem deleteHotkeys_go_spec (rest : List Ptr)
    : ∀ (c : LRUCache W Value) (kept es : List Ptr) (fuel : Nat), Inv ops c (kept ++ rest) es →
        ¬LastAlone p c rest es → rest.length + es.length + rest.length + 2 ≤ fuel →
        ∃ c' ks' es', deleteHotkeys.go ops p fuel c (rest ++ es ++ [Ptr.tail]).head? = some c'
          ∧ Inv ops c' ks' es' ∧ c'.capacity = c.capacity := by
  induction rest with
  | nil =>
    intro c kept es fuel h _ hfuel
    rw [append_nil] at h
    refine ⟨c, kept, es, ?_, h, rfl⟩
    exact deleteHotkeys_go_empty ops p es _ kept fuel h.toPlaced rfl h.empty (by simpa using hfuel)
  | cons x rest ih =>
    intro c kept es fuel h hlast hfuel
    rw [length_cons] at hfuel
    obtain ⟨fuel, rfl⟩ := Nat.exists_eq_add_of_le' (Nat.le_of_add_left_le hfuel)
    have hnext : c.next x = (rest ++ es ++ [Ptr.tail]).head? :=
      h.next_of_mem kept (rest ++ es) x (by simp)
    rw [cons_append, cons_append, head?_cons]
    unfold deleteHotkeys.go
    dsimp only
    rw [hnext, if_neg (by simp [h.holdsKey_node ops x (by simp)])]
    split
    . next hx =>
      have hne : rest ++ es ≠ [] := by
        intro hnil
        rw [append_eq_nil_iff] at hnil
        apply hlast
        rw [hnil.left]
        exact ⟨hnil.right, [], x, rfl, hx, by simp⟩
      obtain ⟨c', hmove, hinv, hcapacity, hother⟩ := h.removeToTail ops hne
      have hhead : (rest ++ es ++ [Ptr.tail]).head? = (rest ++ (es ++ [x]) ++ [Ptr.tail]).head? := by
        rw [← append_assoc, append_assoc (rest ++ es), head?_append_of_ne_nil _ hne,
          head?_append_of_ne_nil _ hne]
      rw [hmove, hhead]
      have hlength : rest.length + (es ++ [x]).length + rest.length + 2 ≤ fuel + 1 := by
        rw [length_append, length_singleton]
        omega
      obtain ⟨c'', ks', es', hgo, hinv', hcapacity'⟩ := ih c' kept (es ++ [x]) (fuel + 1) hinv
        (fun hlast' => by simp [LastAlone] at hlast') hlength
      exact ⟨c'', ks', es', hgo, hinv', hcapacity'.trans hcapacity⟩
    . next hx =>
      apply ih c (kept ++ [x]) es (fuel + 1) (by simpa using h) _ (by omega)
      intro ⟨hes, before, last, hrest, hmatch, hothers⟩
      apply hlast
      refine ⟨hes, x :: before, last, by rw [hrest]; rfl, hmatch, ?_⟩
      intro q hq
      rw [mem_cons] at hq
      rcases hq with rfl | hq
      . exact eq_false_of_ne_true hx
      . exact hothers q hq

theorem Inv.deleteHotkeys {ks es : List Ptr} (h : Inv ops c ks es) (hlast : ¬LastAlone p c ks es)
    (fuel : Nat) (hfuel : 2 * c.capacity + 2 ≤ fuel)
    : ∃ c' ks' es', c.deleteHotkeys ops fuel p = some c' ∧ Inv ops c' ks' es'
        ∧ c'.capacity = c.capacity := by
  have hlength := h.length_eq
  rw [length_append] at hlength
  unfold LRUCache.deleteHotkeys
  rw [h.next_head]
  exact deleteHotkeys_go_spec ops p ks c [] es fuel h hlast (by omega)

theorem deleteHotkeys_go_lastAlone (last : Ptr) (before : List Ptr)
    : ∀ (kept : List Ptr) (fuel : Nat), Inv ops c (kept ++ (before ++ [last])) [] →
        (c.nodes last).key.any p = true → (∀ q, q ∈ before → (c.nodes q).key.any p = false) →
        before.length + 3 ≤ fuel →
        ∃ c', deleteHotkeys.go ops p fuel c (before ++ [last] ++ [Ptr.tail]).head? = some c'
          ∧ c'.prev .tail = some last ∧ c'.next last = some last := by
  induction before with
  | nil =>
    intro kept fuel h hmatch _ hfuel
    obtain ⟨fuel, rfl⟩ := Nat.exists_eq_add_of_le' hfuel
    have hlen := h.len_eq
    rw [nil_append, length_append, length_singleton] at hlen
    have hlinked : Linked c.next c.prev ((.head :: kept) ++ [last] ++ [.tail]) := by
      simpa using h.linked
    have hnodup : ((.head :: kept) ++ [last] ++ [Ptr.tail]).Nodup := by
      simpa using h.nodup
    obtain ⟨a, ha⟩ := Option.ne_none_iff_exists'.mp (mt getLast?_eq_none_iff.mp (cons_ne_nil Ptr.head kept))
    have hprev := (hlinked.left.link ha (b := last) rfl).right
    have hlink := hlinked.link (a := last) (b := .tail) (by rw [getLast?_append]; rfl) rfl
    have hma := mem_of_getLast? ha
    simp only [nodup_append, mem_append, mem_singleton] at hnodup
    have hat := (hnodup.right.right a (.inl hma) .tail rfl).symm
    have hlt := (hnodup.right.right last (.inr rfl) .tail rfl).symm
    have hremove := remove_of_holdsKey ops c last (h.keyed last (by simp)) (by omega)
    have htail := h.tail_node
    have hmove : ∃ c', (c.remove ops last).moveToTail last = some c' ∧ c'.prev .tail = some last
        ∧ c'.next last = some last ∧ c'.next .tail = none
        ∧ (c'.nodes .tail).node = some { key := none } := by
      refine ⟨_, moveToTail_eq (c.remove ops last) last .tail last a (by rw [hremove]; exact hlink.left)
        (by rw [hremove]; exact hlink.right) (by rw [hremove]; exact hprev), ?_, ?_, ?_, ?_⟩
      . simp
      . simp
      . simp [hremove, h.next_tail, hat, hlt]
      . simp [hremove, htail, hlt]
    obtain ⟨c', hmove, hprev', hnext', hnextTail, htail'⟩ := hmove
    have hnode := h.holdsKey_node ops last (by simp)
    rw [nil_append, singleton_append, head?_cons]
    unfold deleteHotkeys.go
    dsimp only
    rw [if_neg (by simp [hnode]), if_pos hmatch, hlink.left, hmove]
    refine ⟨c', ?_, hprev', hnext'⟩
    simp [deleteHotkeys.go, DllNode.key, hnextTail, htail']
  | cons x before ih =>
    intro kept fuel h hmatch hothers hfuel
    rw [length_cons] at hfuel
    obtain ⟨fuel, rfl⟩ := Nat.exists_eq_add_of_le' (Nat.le_of_add_left_le hfuel)
    have hnext : c.next x = (before ++ [last] ++ [Ptr.tail]).head? :=
      h.next_of_mem kept (before ++ [last]) x (by simp)
    rw [cons_append, cons_append, head?_cons]
    unfold deleteHotkeys.go
    dsimp only
    rw [hnext, if_neg (by simp [h.holdsKey_node ops x (by simp)]), if_neg (by simp [hothers x (by simp)])]
    exact ih (kept ++ [x]) (fuel + 2) (by simpa using h) hmatch
      (fun q hq => hothers q (mem_cons_of_mem x hq)) (by omega)

end Delete

end LRUCache
end Hotkey

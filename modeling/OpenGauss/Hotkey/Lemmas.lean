import OpenGauss.Hotkey.Impl

/-!
This module shows what one call does to the list of hot keys.
-/

open List Option

namespace Hotkey

open LinkedList

namespace LRUCache

variable {W Value : Type} (ops : Weights W) (c : LRUCache W Value)

section Splice

theorem insertFront_eq (x ptr temp1 temp2 xPrev : Ptr) (h1 : c.next x = some temp1)
    (h2 : c.prev ptr = some temp2) (hprev : c.prev x = some xPrev)
    : c.insertFront x ptr
        =
      some { c with
        next := Function.update (Function.update (Function.update c.next temp2 (some x)) xPrev (some temp1))
          x (some ptr)
        prev := Function.update (Function.update (Function.update c.prev temp1 (some xPrev)) x (some temp2))
          ptr (some x) } := by
  simp [insertFront, h1, h2, hprev, setNext, setPrev]

theorem moveToTail_eq (x temp1 temp2 xPrev : Ptr) (h1 : c.next x = some temp1)
    (h2 : c.prev .tail = some temp2) (hprev : c.prev x = some xPrev)
    : c.moveToTail x
        =
      some { c with
        next := Function.update (Function.update (Function.update c.next xPrev (some temp1)) x (some .tail))
          temp2 (some x)
        prev := Function.update (Function.update (Function.update c.prev temp1 (some xPrev)) x (some temp2))
          .tail (some x) } := by
  simp [moveToTail, h1, h2, hprev, setNext, setPrev]

variable {c}

theorem insertFront_linked {l₁ l₂ l₄ : List Ptr} {x ptr : Ptr}
    (h : Linked c.next c.prev (l₁ ++ l₂ ++ [x] ++ l₄)) (hnodup : (l₁ ++ l₂ ++ [x] ++ l₄).Nodup)
    (h₁ : l₁ ≠ []) (hptr : l₂.head? = some ptr) (h₄ : l₄ ≠ [])
    : ∃ c', c.insertFront x ptr = some c' ∧ Linked c'.next c'.prev (l₁ ++ [x] ++ l₂ ++ l₄)
        ∧ c'.nodes = c.nodes ∧ c'.len = c.len ∧ c'.capacity = c.capacity
        ∧ ∀ q, q ∈ l₄ → c'.next q = c.next q := by
  obtain ⟨a, ha⟩ := ne_none_iff_exists'.mp (mt getLast?_eq_none_iff.mp h₁)
  obtain ⟨t, ht⟩ := ne_none_iff_exists'.mp (mt head?_eq_none_iff.mp h₄)
  obtain ⟨u, hu⟩ : ∃ u, l₂.getLast? = some u := by
    apply ne_none_iff_exists'.mp
    intro hnone
    rw [getLast?_eq_none_iff.mp hnone] at hptr
    simp at hptr
  have hlast : [x].getLast? = some x := rfl
  have hprevPtr := (h.left.left.link ha hptr).right
  have hprevX := (h.left.link (a := u) (b := x) (by simp [hu]) rfl).right
  have hnextX := (h.link (a := x) (b := t) (by simp) ht).left
  have hma := mem_of_getLast? ha
  have hmu := mem_of_getLast? hu
  have hmptr := mem_of_head? hptr
  have hmt := mem_of_head? ht
  have hsplit := hnodup
  simp only [nodup_append, mem_append, mem_singleton] at hsplit
  obtain ⟨⟨⟨-, -, h₁₂⟩, -, h₁₃⟩, -, h₁₄⟩ := hsplit
  have hax := h₁₃ a (.inl hma) x rfl
  have hux := h₁₃ u (.inr hmu) x rfl
  have hpx := h₁₃ ptr (.inr hmptr) x rfl
  have hau := h₁₂ a hma u hmu
  have hxt := h₁₄ x (.inr rfl) t hmt
  have hpt := h₁₄ ptr (.inl (.inr hmptr)) t hmt
  refine ⟨_, insertFront_eq c x ptr t a u hnextX hprevPtr hprevX, ?_, rfl, rfl, rfl, ?_⟩
  . apply Linked.swap h hnodup ha hptr hu rfl hlast ht
    . simp [hau, hax]
    . simp
    . simp [hux]
    . simp [hpx.symm]
    . simp
    . simp [hxt.symm, hpt.symm]
    . intro q hqa hqu hqx
      simp [hqa, hqu, hqx]
    . intro q hqp hqx hqt
      simp [hqp, hqx, hqt]
  . intro q hq
    have hqa := (h₁₄ a (.inl (.inl hma)) q hq).symm
    have hqu := (h₁₄ u (.inl (.inr hmu)) q hq).symm
    have hqx := (h₁₄ x (.inr rfl) q hq).symm
    simp [hqa, hqu, hqx]

theorem moveToTail_linked {l₁ l₃ : List Ptr} {x : Ptr}
    (h : Linked c.next c.prev (l₁ ++ [x] ++ l₃ ++ [.tail])) (hnodup : (l₁ ++ [x] ++ l₃ ++ [Ptr.tail]).Nodup)
    (h₁ : l₁ ≠ []) (h₃ : l₃ ≠ [])
    : ∃ c', c.moveToTail x = some c' ∧ Linked c'.next c'.prev (l₁ ++ l₃ ++ [x] ++ [.tail])
        ∧ c'.nodes = c.nodes ∧ c'.len = c.len ∧ c'.capacity = c.capacity
        ∧ c'.next .tail = c.next .tail := by
  obtain ⟨a, ha⟩ := ne_none_iff_exists'.mp (mt getLast?_eq_none_iff.mp h₁)
  obtain ⟨v, hv⟩ := ne_none_iff_exists'.mp (mt head?_eq_none_iff.mp h₃)
  obtain ⟨v', hv'⟩ := ne_none_iff_exists'.mp (mt getLast?_eq_none_iff.mp h₃)
  have hlast : [x].getLast? = some x := rfl
  have hprevX := (h.left.left.link ha (b := x) rfl).right
  have hnextX := (h.left.link (a := x) (by simp) hv).left
  have hlast' : (l₁ ++ [x] ++ l₃).getLast? = some v' := by
    rw [getLast?_append, hv', some_or]
  have hprevTail := (h.link hlast' (b := .tail) rfl).right
  have hma := mem_of_getLast? ha
  have hmv := mem_of_head? hv
  have hmv' := mem_of_getLast? hv'
  have hsplit := hnodup
  simp only [nodup_append, mem_append, mem_singleton] at hsplit
  obtain ⟨⟨⟨-, -, h₁₂⟩, -, h₁₃⟩, -, h₁₄⟩ := hsplit
  have hax := h₁₂ a hma x rfl
  have hav := h₁₃ a (.inl hma) v' hmv'
  have hxv := h₁₃ x (.inr rfl) v hmv
  have hxv' := h₁₃ x (.inr rfl) v' hmv'
  have hxt := h₁₄ x (.inl (.inr rfl)) .tail rfl
  have hvt := h₁₄ v (.inr hmv) .tail rfl
  refine ⟨_, moveToTail_eq c x v v' a hnextX hprevTail hprevX, ?_, rfl, rfl, rfl, ?_⟩
  . apply Linked.swap h hnodup ha rfl hlast hv hv' rfl
    . simp [hax, hav]
    . simp
    . simp [hxv']
    . simp [hxv.symm, hvt]
    . simp [hxt]
    . simp
    . intro q hqa hqx hqv
      simp [hqa, hqx, hqv]
    . intro q hqx hqv hqt
      simp [hqx, hqv, hqt]
  . have hat := (h₁₄ a (.inl (.inl hma)) .tail rfl).symm
    have hv't := (h₁₄ v' (.inr hmv') .tail rfl).symm
    simp [hat, hv't, hxt.symm]

end Splice

section Walk

variable {c}

theorem reLocate_go_linked {x : Ptr} {l₄ : List Ptr} (h₄ : l₄ ≠ []) (l : List Ptr)
    : ∀ (l₁ : List Ptr) (fuel : Nat), l₁ ≠ [] → l.length < fuel →
        Linked c.next c.prev (l₁ ++ l ++ [x] ++ l₄) → (l₁ ++ l ++ [x] ++ l₄).Nodup →
        ∃ c' skipped rest, l = skipped ++ rest
          ∧ reLocate.go ops c x fuel (l ++ [x]).head? = some c'
          ∧ Linked c'.next c'.prev (l₁ ++ skipped ++ [x] ++ rest ++ l₄)
          ∧ (∀ y, y ∈ skipped → ops.le (c.nodes y).weight (c.nodes x).weight = false)
          ∧ c'.nodes = c.nodes ∧ c'.len = c.len ∧ c'.capacity = c.capacity
          ∧ ∀ q, q ∈ l₄ → c'.next q = c.next q := by
  induction l with
  | nil =>
    intro l₁ fuel h₁ hfuel h hnodup
    obtain ⟨fuel, rfl⟩ := Nat.exists_eq_succ_of_ne_zero (Nat.ne_of_gt hfuel)
    refine ⟨c, [], [], rfl, ?_, by simpa using h, by simp, rfl, rfl, rfl, fun _ _ => rfl⟩
    simp [reLocate.go]
  | cons y l ih =>
    intro l₁ fuel h₁ hfuel h hnodup
    obtain ⟨fuel, rfl⟩ := Nat.exists_eq_succ_of_ne_zero (Nat.ne_of_gt (Nat.zero_lt_of_lt hfuel))
    have hyx : y ≠ x := by
      have := hnodup
      simp only [nodup_append, mem_append, mem_cons] at this
      exact this.left.right.right y (.inr (.inl rfl)) x (.inl rfl)
    rw [cons_append, head?_cons]
    unfold reLocate.go
    rw [if_neg hyx]
    cases hle : ops.le (c.nodes y).weight (c.nodes x).weight with
    | true =>
      obtain ⟨c', hc', hlinked, hdata⟩ := insertFront_linked h hnodup h₁ (head?_cons (a := y)) h₄
      refine ⟨c', [], y :: l, rfl, by simpa using hc', by simpa using hlinked, by simp, hdata⟩
    | false =>
      have hassoc : l₁ ++ y :: l ++ [x] ++ l₄ = l₁ ++ [y] ++ l ++ [x] ++ l₄ := by simp
      rw [hassoc] at h hnodup
      obtain ⟨c', skipped, rest, hl, hgo, hlinked, hskipped, hdata⟩ :=
        ih (l₁ ++ [y]) fuel (by simp) (by simpa using hfuel) h hnodup
      have hnext : c.next y = (l ++ [x]).head? := by
        obtain ⟨z, hz⟩ : ∃ z, (l ++ [x]).head? = some z :=
          ne_none_iff_exists'.mp (mt head?_eq_none_iff.mp (by simp))
        have h' : Linked c.next c.prev ((l₁ ++ [y]) ++ (l ++ [x])) := by
          simpa using h.left
        rw [hz]
        exact (h'.link (by simp) hz).left
      refine ⟨c', y :: skipped, rest, by rw [hl]; rfl, ?_, by simpa using hlinked, ?_, hdata⟩
      . rw [if_neg (by simp), hnext]
        exact hgo
      . intro z hz
        rw [mem_cons] at hz
        cases hz with
        | inl hz => rw [hz, hle]
        | inr hz => exact hskipped z hz

end Walk

end LRUCache
end Hotkey

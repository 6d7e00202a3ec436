import OpenGauss.Lib.LittleEndian

/-!
This module contains buffers of a fixed length.
-/

open List

namespace Buffer

variable {α : Type}

def read (buf : List α) (pos n : Nat) : Option (List α) :=
  if pos + n ≤ buf.length then some ((buf.drop pos).take n) else none

def write (buf : List α) (pos : Nat) (src : List α) : Option (List α) :=
  if pos + src.length ≤ buf.length then
    some (buf.take pos ++ src ++ buf.drop (pos + src.length))
  else
    none

theorem read_middle (pre mid post : List α) : read (pre ++ mid ++ post) pre.length mid.length = some mid := by
  unfold read
  rw [if_pos (by simp), append_assoc, drop_left, take_left]

theorem write_middle (pre mid post : List α) {src : List α} (h : src.length = mid.length)
    : write (pre ++ mid ++ post) pre.length src = some (pre ++ src ++ post) := by
  have hdrop : (pre ++ mid ++ post).drop (pre.length + src.length) = post := by
    rw [h, ← length_append, drop_left]
  have htake : (pre ++ mid ++ post).take pre.length = pre := by rw [append_assoc, take_left]
  unfold write
  rw [if_pos (by simp [h]), hdrop, htake]

theorem write_all {buf src : List α} (h : src.length = buf.length) : write buf 0 src = some src := by
  have hwrite := write_middle [] buf [] h
  simpa using hwrite

theorem write_singleton {buf : List α} {pos : Nat} (a : α) (h : pos < buf.length)
    : write buf pos [a] = some (buf.set pos a) := by
  unfold write
  rw [set_eq_take_append_cons_drop, if_pos h]
  simp only [length_singleton, append_assoc, singleton_append, ite_eq_left_iff, reduceCtorEq]
  omega

theorem write_prefix {buf pre : List α} (src : List α) (hpre : pre <+: buf)
    (hfits : pre.length + src.length ≤ buf.length)
    : ∃ buf', write buf pre.length src = some buf' ∧ buf'.length = buf.length ∧ pre ++ src <+: buf' := by
  have htake : buf.take pre.length = pre := (prefix_iff_eq_take.1 hpre).symm
  apply Exists.intro (pre ++ src ++ buf.drop (pre.length + src.length))
  unfold write
  rw [if_pos hfits, htake]
  apply And.intro rfl
  apply And.intro
  . simp only [length_append, length_drop]
    omega
  . apply prefix_append

end Buffer

def Memory := Nat → UInt8

namespace Memory

variable {mem : Memory}

def zero : Memory := fun _ => 0

def load (mem : Memory) (pos n : Nat) : Bytes := (List.range n).map (fun i => mem (pos + i))

def store (mem : Memory) (pos : Nat) (bs : Bytes) : Memory :=
  fun i => if pos ≤ i ∧ i < pos + bs.length then bs.getD (i - pos) 0 else mem i

def copy (mem : Memory) (pos : Nat) (src : Memory) (srcPos n : Nat) : Memory :=
  fun i => if pos ≤ i ∧ i < pos + n then src (srcPos + (i - pos)) else mem i

def view (mem : Memory) (base : Nat) : Memory := fun i => mem (base + i)

def within (mem : Memory) (base : Nat) (f : Memory → Memory) : Memory :=
  fun i => if base ≤ i then f (mem.view base) (i - base) else mem i

@[ext]
theorem ext {mem' : Memory} (h : ∀ i, mem i = mem' i) : mem = mem' := funext h

@[simp]
theorem length_load (mem : Memory) (pos n : Nat) : (mem.load pos n).length = n := by
  simp [load]

theorem load_congr {mem' : Memory} {pos pos' n : Nat}
    (h : ∀ i < n, mem (pos + i) = mem' (pos' + i)) : mem.load pos n = mem'.load pos' n := by
  apply map_congr_left
  intro i hi
  exact h i (mem_range.1 hi)

theorem store_outside {pos i : Nat} {bs : Bytes} (h : i < pos ∨ pos + bs.length ≤ i)
    : mem.store pos bs i = mem i := by
  rw [store, if_neg (by omega)]

theorem load_store_self (mem : Memory) (pos : Nat) (bs : Bytes)
    : (mem.store pos bs).load pos bs.length = bs := by
  apply ext_getElem
  . simp
  . intro i _ hi
    have hin : pos ≤ pos + i ∧ pos + i < pos + bs.length := by omega
    simp only [load, getElem_map, getElem_range, store, if_pos hin, Nat.add_sub_cancel_left]
    rw [getD_eq_getElem?_getD, getElem?_eq_getElem hi]
    rfl

theorem load_store_of_disjoint {pos pos' n : Nat} {bs : Bytes} (h : pos' + n ≤ pos ∨ pos + bs.length ≤ pos')
    : (mem.store pos bs).load pos' n = mem.load pos' n := by
  apply load_congr
  intro i hi
  apply store_outside
  omega

theorem store_load (mem : Memory) (pos n : Nat) : mem.store pos (mem.load pos n) = mem := by
  apply Memory.ext
  intro i
  rw [store, length_load]
  split
  . obtain ⟨j, rfl⟩ := Nat.exists_eq_add_of_le (show pos ≤ i by omega)
    have hj : j < n := by omega
    simp [load, getD_eq_getElem?_getD, hj]
  . rfl

theorem store_load_apply {src : Memory} {pos srcPos n i : Nat} (h : i < n)
    : mem.store pos (src.load srcPos n) (pos + i) = src (srcPos + i) := by
  rw [store, if_pos (by simp [h]), Nat.add_sub_cancel_left]
  simp [load, getD_eq_getElem?_getD, h]

@[simp]
theorem load_view (mem : Memory) (base pos n : Nat)
    : (mem.view base).load pos n = mem.load (base + pos) n := by
  simp only [load, view, Nat.add_assoc]

theorem load_append (mem : Memory) (pos m n : Nat)
    : mem.load pos (m + n) = mem.load pos m ++ mem.load (pos + m) n := by
  simp only [load, range_add, map_append, map_map]
  congr 1
  apply map_congr_left
  intro i hi
  simp only [Function.comp_apply, Nat.add_assoc]

theorem load_eq_replicate {pos n : Nat} {b : UInt8} (h : ∀ i < n, mem (pos + i) = b)
    : mem.load pos n = List.replicate n b := by
  rw [eq_replicate_iff]
  apply And.intro (length_load mem pos n)
  intro c hc
  simp only [load, mem_map, mem_range] at hc
  obtain ⟨i, hi, rfl⟩ := hc
  exact h i hi

end Memory

import Mathlib.Data.List.Basic
import OpenGauss.Cstore.AllocSpace.Impl

/-!
This module shows that the free descriptors computed from the CUs of a column lie between the CUs.
-/

open List Function

namespace CStore

variable {entries : List CStoreFreeSpaceDesc} {entry : CStoreFreeSpaceDesc}
variable {fspace : CStoreFreeSpace}

theorem wrap64_of_lt {n : Nat} (h : n < 2 ^ 64) : wrap64 n = n := Nat.mod_eq_of_lt h

namespace CStoreFreeSpaceDesc

def Mem (desc : CStoreFreeSpaceDesc) (addr : Nat) : Prop :=
  desc.beginOffset ≤ addr ∧ addr < desc.beginOffset + desc.size

def Apart (a b : CStoreFreeSpaceDesc) : Prop := ∀ addr : Nat, a.Mem addr → ¬ b.Mem addr

theorem Apart.symm {a b : CStoreFreeSpaceDesc} (h : a.Apart b) : b.Apart a :=
  fun addr hb ha => h addr ha hb

theorem Apart.mono {a b c : CStoreFreeSpaceDesc} (h : a.Apart b) (hsub : ∀ addr : Nat, c.Mem addr →
    a.Mem addr)
    : c.Apart b :=
  fun addr hc => h addr (hsub addr hc)

theorem apart_of_le {a b : CStoreFreeSpaceDesc} (h : a.beginOffset + a.size ≤ b.beginOffset) : a.Apart b := by
  intro addr ha hb
  unfold Mem at ha hb
  omega

theorem Apart.le_or_le {a b : CStoreFreeSpaceDesc} (h : a.Apart b) (ha : 0 < a.size) (hb : 0 < b.size)
    : a.beginOffset + a.size ≤ b.beginOffset ∨ b.beginOffset + b.size ≤ a.beginOffset := by
  have hab := h a.beginOffset
  have hba := h b.beginOffset
  unfold Mem at hab hba
  omega

theorem mem_merge {a b : CStoreFreeSpaceDesc} (h : a.beginOffset + a.size = b.beginOffset) (addr : Nat)
    : Mem ⟨a.beginOffset, a.size + b.size⟩ addr ↔ a.Mem addr ∨ b.Mem addr := by
  unfold Mem
  dsimp only
  omega

end CStoreFreeSpaceDesc

open CStoreFreeSpaceDesc (Mem Apart apart_of_le mem_merge)

section Insert

structure EntryList (entries : List CStoreFreeSpaceDesc) : Prop where
  sorted : entries.Pairwise (fun a b => a.beginOffset + a.size < b.beginOffset)
  pos : ∀ entry : CStoreFreeSpaceDesc, entry ∈ entries → 0 < entry.size
  lt : ∀ entry : CStoreFreeSpaceDesc, entry ∈ entries → entry.beginOffset + entry.size < 2 ^ 64

theorem EntryList.nil : EntryList [] :=
  ⟨List.Pairwise.nil, fun _ h => absurd h not_mem_nil, fun _ h => absurd h not_mem_nil⟩

theorem entryList_cons : EntryList (entry :: entries)
      ↔
    (∀ b ∈ entries, entry.beginOffset + entry.size < b.beginOffset) ∧ 0 < entry.size ∧
      entry.beginOffset + entry.size < 2 ^ 64 ∧ EntryList entries := by
  constructor
  . rintro ⟨hsorted, hpos, hlt⟩
    obtain ⟨hgap, hsorted⟩ := pairwise_cons.1 hsorted
    exact ⟨hgap, hpos entry mem_cons_self, hlt entry mem_cons_self, hsorted,
      fun b hb => hpos b (mem_cons_of_mem _ hb), fun b hb => hlt b (mem_cons_of_mem _ hb)⟩
  . rintro ⟨hgap, hpos, hlt, hrest⟩
    refine ⟨pairwise_cons.2 ⟨hgap, hrest.sorted⟩, fun b hb => ?_, fun b hb => ?_⟩
    . cases hb with
      | head => exact hpos
      | tail _ hb => exact hrest.pos b hb
    . cases hb with
      | head => exact hlt
      | tail _ hb => exact hrest.lt b hb

def Covered (entries : List CStoreFreeSpaceDesc) (addr : Nat) : Prop :=
  ∃ entry ∈ entries, entry.Mem addr

theorem covered_cons {addr : Nat}
    : Covered (entry :: entries) addr ↔ entry.Mem addr ∨ Covered entries addr := by
  simp [Covered]

structure Inserted (spaceDesc : CStoreFreeSpaceDesc) (entries entries' : List CStoreFreeSpaceDesc)
    : Prop where
  entryList : EntryList entries'
  covered : ∀ addr : Nat, Covered entries' addr ↔ Covered entries addr ∨ spaceDesc.Mem addr
  begins : ∀ entry ∈ entries', entry.beginOffset = spaceDesc.beginOffset ∨
    ∃ old ∈ entries, entry.beginOffset = old.beginOffset

namespace Inserted

variable {spaceDesc curEntry : CStoreFreeSpaceDesc} {rest rest' : List CStoreFreeSpaceDesc}
variable (hentries : EntryList (curEntry :: rest))
include hentries

theorem behind (hbehind : curEntry.beginOffset + curEntry.size < spaceDesc.beginOffset)
    (h : Inserted spaceDesc rest rest')
    : Inserted spaceDesc (curEntry :: rest) (curEntry :: rest') := by
  obtain ⟨hgap, hcurPos, hcurLt, -⟩ := entryList_cons.1 hentries
  refine ⟨entryList_cons.2 ⟨fun b hb => ?_, hcurPos, hcurLt, h.entryList⟩, ?_, ?_⟩
  . have := h.begins b hb
    grind
  . intro addr
    rw [covered_cons, covered_cons, h.covered]
    tauto
  . have := h.begins
    grind

theorem extend (hlt : spaceDesc.beginOffset + spaceDesc.size < 2 ^ 64)
    (hcont : curEntry.beginOffset + curEntry.size = spaceDesc.beginOffset)
    (hgap : ∀ b ∈ rest, spaceDesc.beginOffset + spaceDesc.size < b.beginOffset)
    : Inserted spaceDesc (curEntry :: rest)
        (⟨curEntry.beginOffset, curEntry.size + spaceDesc.size⟩ :: rest) := by
  obtain ⟨-, hcurPos, -, hrest⟩ := entryList_cons.1 hentries
  refine ⟨entryList_cons.2 ⟨fun b hb => ?_, Nat.add_pos_left hcurPos _, ?_, hrest⟩, ?_, ?_⟩
  . have := hgap b hb
    dsimp only
    omega
  . dsimp only
    omega
  . intro addr
    simp only [covered_cons, mem_merge hcont]
    tauto
  . grind

theorem front (hpos : 0 < spaceDesc.size) (hlt : spaceDesc.beginOffset + spaceDesc.size < 2 ^ 64)
    (hbefore : spaceDesc.beginOffset + spaceDesc.size < curEntry.beginOffset)
    : Inserted spaceDesc (curEntry :: rest) (spaceDesc :: curEntry :: rest) := by
  obtain ⟨hgap, -, -, -⟩ := entryList_cons.1 hentries
  refine ⟨entryList_cons.2 ⟨fun b hb => ?_, hpos, hlt, hentries⟩, ?_, ?_⟩
  . grind
  . intro addr
    rw [covered_cons]
    exact Or.comm
  . grind

theorem extendFront (hpos : 0 < spaceDesc.size)
    (hjoin : spaceDesc.beginOffset + spaceDesc.size = curEntry.beginOffset)
    : Inserted spaceDesc (curEntry :: rest)
        (⟨spaceDesc.beginOffset, spaceDesc.size + curEntry.size⟩ :: rest) := by
  obtain ⟨hgap, -, hcurLt, hrest⟩ := entryList_cons.1 hentries
  refine ⟨entryList_cons.2 ⟨fun b hb => ?_, Nat.add_pos_left hpos _, ?_, hrest⟩, ?_, ?_⟩
  . have := hgap b hb
    dsimp only
    omega
  . dsimp only
    omega
  . intro addr
    rw [covered_cons, covered_cons, mem_merge hjoin]
    tauto
  . grind

end Inserted

-- The new entry fills the gap between two others.
theorem Inserted.join {spaceDesc curEntry nextEntry : CStoreFreeSpaceDesc} {rest : List CStoreFreeSpaceDesc}
    (hentries : EntryList (curEntry :: nextEntry :: rest))
    (hcont : curEntry.beginOffset + curEntry.size = spaceDesc.beginOffset)
    (hjoin : spaceDesc.beginOffset + spaceDesc.size = nextEntry.beginOffset)
    : Inserted spaceDesc (curEntry :: nextEntry :: rest)
        (⟨curEntry.beginOffset, curEntry.size + spaceDesc.size + nextEntry.size⟩ :: rest) := by
  obtain ⟨-, -, -, hrest⟩ := entryList_cons.1 hentries
  obtain ⟨hgap, hnextPos, hnextLt, hrest⟩ := entryList_cons.1 hrest
  refine ⟨entryList_cons.2 ⟨fun b hb => ?_, Nat.add_pos_right _ hnextPos, ?_, hrest⟩, ?_, ?_⟩
  . have := hgap b hb
    dsimp only
    omega
  . dsimp only
    omega
  . intro addr
    have hmerged : curEntry.beginOffset + (curEntry.size + spaceDesc.size) = nextEntry.beginOffset := by omega
    rw [covered_cons, covered_cons, covered_cons,
      mem_merge (a := ⟨curEntry.beginOffset, curEntry.size + spaceDesc.size⟩) hmerged, mem_merge hcont]
    tauto
  . grind

theorem insertSpaceDesc_spec {spaceDesc : CStoreFreeSpaceDesc}
    (hentries : EntryList entries) (hpos : 0 < spaceDesc.size)
    (hlt : spaceDesc.beginOffset + spaceDesc.size < 2 ^ 64)
    (hapart : ∀ entry ∈ entries, entry.Apart spaceDesc)
    : Inserted spaceDesc entries (insertSpaceDesc spaceDesc entries).1 := by
  induction entries with
  | nil =>
    have hvalid : spaceDesc.beginOffset ≠ invalidCStoreOffset := by
      unfold invalidCStoreOffset
      omega
    rw [insertSpaceDesc, if_pos hvalid]
    refine ⟨entryList_cons.2 ⟨fun _ h => absurd h not_mem_nil, hpos, hlt, EntryList.nil⟩, ?_, ?_⟩
    . intro addr
      rw [covered_cons]
      exact Or.comm
    . grind
  | cons curEntry rest ih =>
    obtain ⟨hgap, hcurPos, hcurLt, hrest⟩ := entryList_cons.1 hentries
    have hcur := hapart curEntry mem_cons_self
    have hside := hcur.le_or_le hcurPos hpos
    have hapartRest : ∀ entry ∈ rest, entry.Apart spaceDesc :=
      fun entry hentry => hapart entry (mem_cons_of_mem _ hentry)
    rw [insertSpaceDesc, wrap64_of_lt hcurLt]
    split
    . -- the new one continues `curEntry`
      rename_i hcont
      rw [wrap64_of_lt (show curEntry.size + spaceDesc.size < 2 ^ 64 by omega)]
      cases rest with
      | nil => exact Inserted.extend hentries hlt hcont (fun _ h => absurd h not_mem_nil)
      | cons nextEntry rest =>
        obtain ⟨hgap', hnextPos, hnextLt, -⟩ := entryList_cons.1 hrest
        have hnext := hgap nextEntry mem_cons_self
        have hnextSide := (hapartRest nextEntry mem_cons_self).le_or_le hnextPos hpos
        dsimp only
        rw [wrap64_of_lt (show curEntry.beginOffset + (curEntry.size + spaceDesc.size) < 2 ^ 64 by omega)]
        split
        . rename_i hjoin
          rw [wrap64_of_lt (show curEntry.size + spaceDesc.size + nextEntry.size < 2 ^ 64 by omega)]
          exact Inserted.join hentries hcont (by omega)
        . rename_i hjoin
          apply Inserted.extend hentries hlt hcont
          intro b hb
          rw [mem_cons] at hb
          rcases hb with rfl | hb
          . omega
          . have := hgap' b hb
            omega
    . rename_i hcont
      split
      . rename_i hbefore
        rw [wrap64_of_lt hlt]
        split
        . -- `curEntry` continues the new one
          rename_i hjoin
          rw [wrap64_of_lt (show curEntry.size + spaceDesc.size < 2 ^ 64 by omega),
            Nat.add_comm curEntry.size]
          exact Inserted.extendFront hentries hpos hjoin
        . exact Inserted.front hentries hpos hlt (by omega)
      . exact Inserted.behind hentries (by omega) (ih hrest hapartRest)

end Insert

section Scan

def CUDesc.extent (tup : CUDesc) : Option CStoreFreeSpaceDesc :=
  match tup.cuPointer with
  | none => none
  | some beginOffset => if tup.size = 0 then none else some ⟨beginOffset, tup.size⟩

def liveExtents (tups : List CUDesc) : List CStoreFreeSpaceDesc := tups.filterMap CUDesc.extent

theorem CUDesc.extent_pos {tup : CUDesc} {extent : CStoreFreeSpaceDesc} (h : tup.extent = some extent)
    : 0 < extent.size := by
  unfold CUDesc.extent at h
  split at h
  . cases h
  . split at h
    . cases h
    . rename_i hsize
      cases h
      exact Nat.pos_of_ne_zero hsize

theorem scanCUDesc_cons (tup : CUDesc) (tups : List CUDesc) (entries : List CStoreFreeSpaceDesc)
    : scanCUDesc (tup :: tups) entries
        =
      match tup.extent with
      | none => scanCUDesc tups entries
      | some spaceDesc =>
        if (insertSpaceDesc spaceDesc entries).2 ∧
            (insertSpaceDesc spaceDesc entries).1.length > maxNumOfHoleFSM then
          none
        else
          scanCUDesc tups (insertSpaceDesc spaceDesc entries).1 := by
  rw [scanCUDesc, CUDesc.extent]
  cases tup.cuPointer with
  | none => rfl
  | some beginOffset =>
    dsimp only
    by_cases hsize : tup.size = 0
    . rw [if_pos hsize, if_pos hsize]
    . rw [if_neg hsize, if_neg hsize]

theorem scanCUDesc_spec {tups : List CUDesc} {entries' : List CStoreFreeSpaceDesc}
    (h : scanCUDesc tups entries = some entries') (hentries : EntryList entries)
    (hlt : ∀ extent ∈ liveExtents tups, extent.beginOffset + extent.size < 2 ^ 64)
    (hpairwise : (liveExtents tups).Pairwise Apart)
    (hapart : ∀ extent ∈ liveExtents tups, ∀ addr : Nat, Covered entries addr → ¬ extent.Mem addr)
    : EntryList entries' ∧
        ∀ addr : Nat, Covered entries' addr ↔ Covered entries addr ∨ Covered (liveExtents tups) addr := by
  induction tups generalizing entries with
  | nil =>
    cases h
    refine ⟨hentries, fun addr => ?_⟩
    have hnil : ¬ Covered (liveExtents []) addr := fun ⟨_, hmem, _⟩ => absurd hmem not_mem_nil
    tauto
  | cons tup tups ih =>
    rw [scanCUDesc_cons] at h
    cases hextent : tup.extent with
    | none =>
      have hlive : liveExtents (tup :: tups) = liveExtents tups := filterMap_cons_none hextent
      rw [hextent] at h
      rw [hlive] at hlt hpairwise hapart ⊢
      exact ih h hentries hlt hpairwise hapart
    | some spaceDesc =>
      have hlive : liveExtents (tup :: tups) = spaceDesc :: liveExtents tups :=
        filterMap_cons_some hextent
      rw [hextent] at h
      rw [hlive] at hlt hpairwise hapart ⊢
      obtain ⟨hfirst, hpairwise⟩ := pairwise_cons.1 hpairwise
      have hinserted : Inserted spaceDesc entries (insertSpaceDesc spaceDesc entries).1 := by
        apply insertSpaceDesc_spec hentries (CUDesc.extent_pos hextent) (hlt _ mem_cons_self)
        intro entry hentry addr hmem
        exact hapart spaceDesc mem_cons_self addr ⟨entry, hentry, hmem⟩
      dsimp only at h
      split at h
      . cases h
      . obtain ⟨hlist, hcovered⟩ := ih h hinserted.entryList
          (fun extent hmem => hlt extent (mem_cons_of_mem _ hmem)) hpairwise (by
            intro extent hmem addr haddr
            cases (hinserted.covered addr).1 haddr with
            | inl hold => exact hapart extent (mem_cons_of_mem _ hmem) addr hold
            | inr hnew => exact hfirst extent hmem addr hnew)
        refine ⟨hlist, fun addr => ?_⟩
        rw [hcovered, hinserted.covered, covered_cons]
        tauto

end Scan

section Heap

def CStoreFreeSpace.All (fspace : CStoreFreeSpace) (p : CStoreFreeSpaceDesc → Prop) : Prop :=
  ∀ i : Nat, 1 ≤ i → i ≤ fspace.descNum → p (fspace.descs i)

structure FreeHeap (fspace : CStoreFreeSpace) : Prop where
  ordered : MaxHeap.Ordered CStoreFreeSpaceDesc.size fspace.descNum fspace.descs
  apart : ∀ i j : Nat, 1 ≤ i → i ≤ fspace.descNum → 1 ≤ j → j ≤ fspace.descNum → i ≠ j →
    (fspace.descs i).Apart (fspace.descs j)

theorem freeHeap_init (maxSize : Nat) : FreeHeap (CStoreFreeSpace.init maxSize) := by
  constructor
  . intro k hk hkn
    have hzero : k ≤ 0 := hkn
    omega
  . intro i j hi hin
    have hzero : i ≤ 0 := hin
    omega

structure Pushed (fspace : CStoreFreeSpace) (desc : CStoreFreeSpaceDesc) (fspace' : CStoreFreeSpace)
    : Prop where
  heap : FreeHeap fspace'
  all : ∀ p : CStoreFreeSpaceDesc → Prop, fspace.All p → p desc → fspace'.All p

theorem push_spec {desc : CStoreFreeSpaceDesc} (h : FreeHeap fspace)
    (hapart : fspace.All (fun old => old.Apart desc)) : Pushed fspace desc (fspace.push desc) := by
  unfold CStoreFreeSpace.push
  split
  . exact ⟨h, fun p hp _ => hp⟩
  . have hup : MaxHeap.UpOrder CStoreFreeSpaceDesc.size (fspace.descNum + 1)
        (Function.update fspace.descs (fspace.descNum + 1) desc) (fspace.descNum + 1) := by
      constructor
      . intro k hk hkn hki
        rw [update_of_ne hki, update_of_ne (by omega)]
        exact h.ordered k hk (by omega)
      . intro _ k hk hkn hki
        omega
    obtain ⟨hordered, hperm⟩ := @MaxHeap.siftUp_spec _ _ _ _ _ _ _ _ (fspace.descNum + 1) (by omega)
      (Nat.le_refl _) (Nat.le_refl _) hup
    refine ⟨⟨hordered, hperm.pairwise ?_⟩, fun p hp hdesc => hperm.forall ?_⟩
    . intro k l hk hkn hl hln hne
      by_cases hknew : k = fspace.descNum + 1
      . rw [hknew, update_self, update_of_ne (by omega)]
        exact (hapart l hl (by omega)).symm
      . rw [update_of_ne hknew]
        by_cases hlnew : l = fspace.descNum + 1
        . rw [hlnew, update_self]
          exact hapart k hk (by omega)
        . rw [update_of_ne hlnew]
          exact h.apart k l hk (by omega) hl (by omega) hne
    . intro k hk hkn
      by_cases hknew : k = fspace.descNum + 1
      . rw [hknew, update_self]
        exact hdesc
      . rw [update_of_ne hknew]
        exact hp k hk (by omega)

structure Popped (fspace : CStoreFreeSpace) (fspace' : CStoreFreeSpace) : Prop where
  heap : FreeHeap fspace'
  apart : fspace'.All (fun desc => desc.Apart (fspace.descs 1))
  all : ∀ p : CStoreFreeSpaceDesc → Prop, fspace.All p → fspace'.All p

theorem popDescWithMaxSize_spec (h : FreeHeap fspace) (hne : fspace.descNum ≠ 0)
    : ∃ fspace' : CStoreFreeSpace, fspace.popDescWithMaxSize = some (fspace.descs 1, fspace') ∧
        Popped fspace fspace' := by
  have hdown : MaxHeap.DownOrder CStoreFreeSpaceDesc.size (fspace.descNum - 1)
      (Function.update fspace.descs 1 (fspace.descs fspace.descNum)) 1 := by
    constructor
    . intro k hk hkn hki
      rw [update_of_ne (by omega), update_of_ne hki]
      exact h.ordered k hk (by omega)
    . intro hone
      omega
  obtain ⟨hordered, hperm⟩ := @MaxHeap.siftDown_spec _ _ _ _ _ _ _ _ (fspace.descNum - 1) (Nat.le_refl 1)
    (by omega) hdown
  have hfrom : ∀ k : Nat, 1 ≤ k → k ≤ fspace.descNum - 1 → ∃ l : Nat, 2 ≤ l ∧ l ≤ fspace.descNum ∧
      (l = k ∨ (k = 1 ∧ l = fspace.descNum)) ∧
      Function.update fspace.descs 1 (fspace.descs fspace.descNum) k = fspace.descs l := by
    intro k hk hkn
    by_cases hone : k = 1
    . refine ⟨fspace.descNum, by omega, Nat.le_refl _, .inr ⟨hone, rfl⟩, ?_⟩
      rw [hone, update_self]
    . refine ⟨k, by omega, by omega, .inl rfl, ?_⟩
      rw [update_of_ne hone]
  unfold CStoreFreeSpace.popDescWithMaxSize
  rw [if_neg hne]
  refine ⟨_, rfl, ⟨hordered, hperm.pairwise ?_⟩,
    hperm.forall (p := fun desc => desc.Apart (fspace.descs 1)) ?_, fun p hp => hperm.forall ?_⟩
  . intro k k' hk hkn hk' hkn' hkk'
    obtain ⟨l, hl, hln, hlk, heq⟩ := hfrom k hk hkn
    obtain ⟨l', hl', hln', hlk', heq'⟩ := hfrom k' hk' hkn'
    rw [heq, heq']
    exact h.apart l l' (by omega) hln (by omega) hln' (by omega)
  . intro k hk hkn
    obtain ⟨l, hl, hln, -, heq⟩ := hfrom k hk hkn
    rw [heq]
    exact h.apart l 1 (by omega) hln (Nat.le_refl 1) (by omega) (by omega)
  . intro k hk hkn
    obtain ⟨l, hl, hln, -, heq⟩ := hfrom k hk hkn
    rw [heq]
    exact hp l (by omega) hln

end Heap

end CStore

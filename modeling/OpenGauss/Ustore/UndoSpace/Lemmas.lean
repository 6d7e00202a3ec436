import OpenGauss.Ustore.UndoSpace.Impl

/-!
This module contains what creating and unlinking one segment file after the other leaves.
-/

open List

namespace UndoSpaces

open Undo

variable (f : Nat → UndoDb → Nat)

def blocks (tags : List FileTag) : Nat := (tags.map fun tag => usegBlocks tag.dbId).sum

def setAt (f : Nat → UndoDb → Nat) (zid : Nat) (dbId : UndoDb) (value : Nat) : Nat → UndoDb → Nat :=
  fun z d => if z = zid ∧ d = dbId then value else f z d

theorem setAt_self (zid : Nat) (dbId : UndoDb) (value : Nat)
    : setAt f zid dbId value zid dbId = value := if_pos ⟨rfl, rfl⟩

theorem setAt_setAt (zid : Nat) (dbId : UndoDb) (value value' : Nat)
    : setAt (setAt f zid dbId value) zid dbId value' = setAt f zid dbId value' := by
  funext z d
  unfold setAt
  split
  . rfl
  . rfl

theorem setAt_eq_self (zid : Nat) (dbId : UndoDb) : setAt f zid dbId (f zid dbId) = f := by
  funext z d
  unfold setAt
  split
  . next h => rw [h.1, h.2]
  . rfl

theorem blocks_cons (tag : FileTag) (tags : List FileTag)
    : blocks (tag :: tags) = usegBlocks tag.dbId + blocks tags := rfl

theorem blocks_le_of_subset {tags tags' : List FileTag} (hnodup : tags.Nodup) (hsubset : tags ⊆ tags')
    : blocks tags ≤ blocks tags' := by
  obtain ⟨between, hperm, hsublist⟩ := subperm_of_subset hnodup hsubset
  have heq : blocks tags = blocks between := (hperm.symm.map _).sum_eq
  rw [heq]
  apply List.Sublist.sum_le_sum
  . exact hsublist.map _
  . intro n hn
    apply Nat.zero_le

theorem usegSize_pos (dbId : UndoDb) : 0 < usegSize dbId := by
  cases dbId <;> decide

theorem usegSize_eq (dbId : UndoDb) : usegSize dbId = blcksz * usegBlocks dbId := by
  cases dbId <;> rfl

theorem usegBlocks_gt_one (dbId : UndoDb) : 1 < usegBlocks dbId := by
  cases dbId <;> decide

theorem usegBlocks_toNat (dbId : UndoDb) : (UInt32.ofNat (usegBlocks dbId)).toNat = usegBlocks dbId := by
  cases dbId <;> rfl

structure Stored (first last : Nat → UndoDb → Nat) (s : Instance) : Prop where
  full_iff : ∀ tag : FileTag, s.file tag = .full
    ↔ first tag.zid tag.dbId ≤ tag.segno * usegSize tag.dbId
      ∧ tag.segno * usegSize tag.dbId < last tag.zid tag.dbId
  created_nodup : s.created.Nodup
  unlinked_nodup : (s.unlinked.map Prod.fst).Nodup
  mem_created : ∀ tag, tag ∈ s.created ↔ tag ∈ s.unlinked.map Prod.fst ∨ s.file tag = .full
  unlinked_lt : ∀ tag ∈ s.unlinked.map Prod.fst, tag.segno * usegSize tag.dbId < first tag.zid tag.dbId
  unlinked_end : ∀ unlink ∈ s.unlinked, (unlink.1.segno + 1) * usegSize unlink.1.dbId ≤ unlink.2
  total : s.undoTotalSize.toNat + blocks (s.unlinked.map Prod.fst) = blocks s.created

structure SameRest (s s' : Instance) : Prop where
  zones : s'.zones = s.zones
  undoMetaSize : s'.undoMetaSize = s.undoMetaSize
  primaryHead : s'.primaryHead = s.primaryHead

theorem SameRest.refl (s : Instance) : SameRest s s := ⟨rfl, rfl, rfl⟩

theorem SameRest.trans {s s' s'' : Instance} (h : SameRest s s') (h' : SameRest s' s'') : SameRest s s'' :=
  ⟨h'.zones.trans h.zones, h'.undoMetaSize.trans h.undoMetaSize, h'.primaryHead.trans h.primaryHead⟩

variable {first last : Nat → UndoDb → Nat} {s : Instance} {zid : Nat} {dbId : UndoDb}

theorem Stored.congr {s' : Instance} (h : Stored first last s) (hfile : s'.file = s.file)
    (hcreated : s'.created = s.created) (hunlinked : s'.unlinked = s.unlinked)
    (htotal : s'.undoTotalSize = s.undoTotalSize)
    : Stored first last s' := by
  constructor
  . rw [hfile]
    exact h.full_iff
  . rw [hcreated]
    exact h.created_nodup
  . rw [hunlinked]
    exact h.unlinked_nodup
  . rw [hcreated, hunlinked, hfile]
    exact h.mem_created
  . rw [hunlinked]
    exact h.unlinked_lt
  . rw [hunlinked]
    exact h.unlinked_end
  . rw [htotal, hunlinked, hcreated]
    exact h.total

section Segment

theorem blockno_segment (dbId : UndoDb) (segno : Nat) (hlt : segno * usegSize dbId < undoLogMaxSize)
    : (segno * usegSize dbId / blcksz + 1) % 2 ^ 32 / usegBlocks dbId = segno
        ∧ segno * usegSize dbId / blcksz % 2 ^ 32 / usegBlocks dbId = segno := by
  have hblocks := usegBlocks_gt_one dbId
  rw [usegSize_eq] at hlt ⊢
  have hdiv : segno * (blcksz * usegBlocks dbId) / blcksz = segno * usegBlocks dbId := by
    rw [Nat.mul_left_comm]
    apply Nat.mul_div_cancel_left
    decide
  have hbound : segno * usegBlocks dbId < 2 ^ 31 := by
    rw [Nat.mul_left_comm] at hlt
    exact Nat.lt_of_mul_lt_mul_left (Nat.lt_of_lt_of_eq hlt (by decide : undoLogMaxSize = blcksz * 2 ^ 31))
  rw [hdiv, Nat.mod_eq_of_lt (by omega), Nat.mod_eq_of_lt (by omega)]
  constructor
  . rw [Nat.mul_comm, Nat.mul_add_div (by omega), Nat.div_eq_of_lt hblocks, Nat.add_zero]
  . apply Nat.mul_div_cancel
    omega

theorem FileTag.eq_iff (tag : FileTag) (segno : Nat)
    : tag = ⟨zid, dbId, segno⟩
        ↔
      tag.zid = zid ∧ tag.dbId = dbId ∧ tag.segno * usegSize dbId = segno * usegSize dbId := by
  obtain ⟨z, d, n⟩ := tag
  rw [Nat.mul_left_inj (Nat.ne_of_gt (usegSize_pos dbId)), FileTag.mk.injEq]

theorem mul_usegSize_lt_iff (n m : Nat) : n * usegSize dbId < m * usegSize dbId ↔ n < m :=
  Nat.mul_lt_mul_right (usegSize_pos dbId)

theorem mul_usegSize_le_iff (n m : Nat) : n * usegSize dbId ≤ m * usegSize dbId ↔ n ≤ m :=
  Nat.mul_le_mul_right_iff (usegSize_pos dbId)

theorem extendSegment_spec (h : Stored first last s) (segno : Nat)
    (hlast : last zid dbId = segno * usegSize dbId) (hle : first zid dbId ≤ last zid dbId)
    (hlt : segno * usegSize dbId < undoLogMaxSize)
    (hroom : s.undoTotalSize.toNat + usegBlocks dbId < 2 ^ 32)
    : Stored first (setAt last zid dbId ((segno + 1) * usegSize dbId))
          (s.extendSegment zid dbId (segno * usegSize dbId))
        ∧ SameRest s (s.extendSegment zid dbId (segno * usegSize dbId))
        ∧ (s.extendSegment zid dbId (segno * usegSize dbId)).undoTotalSize
          =
          s.undoTotalSize + UInt32.ofNat (usegBlocks dbId) := by
  have hsegno := (blockno_segment dbId segno hlt).1
  have hnotFull : s.file ⟨zid, dbId, segno⟩ ≠ .full := by
    intro hfull
    have := (h.full_iff _).mp hfull
    simp only at this
    omega
  have hnotUnlinked : (⟨zid, dbId, segno⟩ : FileTag) ∉ s.unlinked.map Prod.fst := by
    intro hmem
    have := h.unlinked_lt _ hmem
    simp only at this
    omega
  refine ⟨?_, ⟨rfl, rfl, rfl⟩, rfl⟩
  simp only [Instance.extendSegment, Instance.extendUndoFile, Instance.setFile, hsegno]
  constructor
  . intro tag
    by_cases htag : tag = ⟨zid, dbId, segno⟩
    . subst htag
      have hnext : segno * usegSize dbId < (segno + 1) * usegSize dbId := by
        rw [mul_usegSize_lt_iff]
        omega
      simp only [if_true, setAt_self, true_iff]
      exact ⟨by omega, hnext⟩
    . simp only [if_neg htag, h.full_iff, setAt]
      split
      . next heq =>
        have hne : tag.segno ≠ segno := by
          intro hsame
          apply htag
          rw [FileTag.eq_iff, heq.1, heq.2, hsame]
          exact ⟨rfl, rfl, rfl⟩
        rw [heq.1, heq.2, hlast, mul_usegSize_lt_iff, mul_usegSize_lt_iff]
        omega
      . rfl
  . refine nodup_cons.mpr ⟨?_, h.created_nodup⟩
    intro hmem
    rcases (h.mem_created _).mp hmem with hunlinked | hfull
    . exact hnotUnlinked hunlinked
    . exact hnotFull hfull
  . exact h.unlinked_nodup
  . intro tag
    rw [mem_cons, h.mem_created]
    by_cases htag : tag = ⟨zid, dbId, segno⟩
    . simp [htag]
    . simp [htag]
  . exact h.unlinked_lt
  . exact h.unlinked_end
  . have htotal := h.total
    rw [UInt32.toNat_add, usegBlocks_toNat, Nat.mod_eq_of_lt hroom, blocks_cons]
    simp only
    omega

theorem unlinkSegment_spec (h : Stored first last s) (segno releaseEnd : Nat)
    (hfirst : first zid dbId = segno * usegSize dbId) (hlast : first zid dbId < last zid dbId)
    (hlt : segno * usegSize dbId < undoLogMaxSize)
    (hend : (segno + 1) * usegSize dbId ≤ releaseEnd)
    : Stored (setAt first zid dbId ((segno + 1) * usegSize dbId)) last
          (s.unlinkSegment zid dbId (segno * usegSize dbId) releaseEnd)
        ∧ SameRest s (s.unlinkSegment zid dbId (segno * usegSize dbId) releaseEnd) := by
  have hsegno := (blockno_segment dbId segno hlt).2
  have hfull : s.file ⟨zid, dbId, segno⟩ = .full := by
    rw [h.full_iff]
    exact ⟨Nat.le_of_eq hfirst, by simp only; omega⟩
  have hnotUnlinked : (⟨zid, dbId, segno⟩ : FileTag) ∉ s.unlinked.map Prod.fst := by
    intro hmem
    have := h.unlinked_lt _ hmem
    simp only at this
    omega
  have hnodup : ((⟨zid, dbId, segno⟩ : FileTag) :: s.unlinked.map Prod.fst).Nodup :=
    nodup_cons.mpr ⟨hnotUnlinked, h.unlinked_nodup⟩
  have hblocks : usegBlocks dbId + blocks (s.unlinked.map Prod.fst) ≤ blocks s.created := by
    apply blocks_le_of_subset hnodup
    intro tag hmem
    rw [h.mem_created]
    rcases mem_cons.mp hmem with htag | hmem
    . right
      rw [htag]
      exact hfull
    . left
      exact hmem
  have hcount : ¬ s.undoTotalSize < UInt32.ofNat (usegBlocks dbId) := by
    have htotal := h.total
    rw [UInt32.lt_iff_toNat_lt, usegBlocks_toNat]
    omega
  simp only [Instance.unlinkSegment, Instance.unlinkUndoFile, Instance.setFile, hsegno, hfull, if_true,
    if_neg hcount]
  refine ⟨?_, ⟨rfl, rfl, rfl⟩⟩
  constructor
  . intro tag
    by_cases htag : tag = ⟨zid, dbId, segno⟩
    . subst htag
      simp only [if_true, setAt_self, mul_usegSize_le_iff, reduceCtorEq, false_iff]
      omega
    . simp only [if_neg htag, h.full_iff, setAt]
      split
      . next heq =>
        have hne : tag.segno ≠ segno := by
          intro hsame
          apply htag
          rw [FileTag.eq_iff, heq.1, heq.2, hsame]
          exact ⟨rfl, rfl, rfl⟩
        rw [heq.1, heq.2, hfirst, mul_usegSize_le_iff, mul_usegSize_le_iff]
        omega
      . rfl
  . exact h.created_nodup
  . exact hnodup
  . intro tag
    rw [map_cons, mem_cons, h.mem_created]
    by_cases htag : tag = ⟨zid, dbId, segno⟩
    . simp [htag, hfull]
    . simp [htag]
  . intro tag hmem
    have hnext : segno * usegSize dbId < (segno + 1) * usegSize dbId := by
      rw [mul_usegSize_lt_iff]
      omega
    rcases mem_cons.mp hmem with htag | hmem
    . rw [htag]
      simp only [setAt_self]
      exact hnext
    . have hlow := h.unlinked_lt tag hmem
      unfold setAt
      split
      . next heq =>
        rw [heq.1, heq.2] at hlow
        rw [heq.2]
        omega
      . exact hlow
  . intro unlink hmem
    rcases mem_cons.mp hmem with hunlink | hmem
    . rw [hunlink]
      exact hend
    . exact h.unlinked_end unlink hmem
  . have htotal := h.total
    have hle : UInt32.ofNat (usegBlocks dbId) ≤ s.undoTotalSize := by
      rw [UInt32.le_iff_toNat_le, usegBlocks_toNat]
      omega
    rw [UInt32.toNat_sub_of_le _ _ hle, usegBlocks_toNat, map_cons, blocks_cons]
    simp only
    omega

end Segment

section Loops

theorem segments_eq (n m : Nat) : Instance.segments dbId (n * usegSize dbId) (m * usegSize dbId) = m - n := by
  have hpos := usegSize_pos dbId
  have hsum : (m - n) * usegSize dbId + usegSize dbId - 1
      = usegSize dbId * (m - n) + (usegSize dbId - 1) := by
    rw [Nat.mul_comm]
    omega
  rw [Instance.segments, ← Nat.sub_mul, hsum, Nat.mul_add_div hpos, Nat.div_eq_of_lt (by omega), Nat.add_zero]

def Whole (inRecovery : Bool) (limit : Int) (dbId : UndoDb) (total metaSize : UInt32) (turns : Nat) : Prop :=
  total.toNat + turns * usegBlocks dbId < 2 ^ 32
    ∧ (inRecovery = true
      ∨ ∀ k < turns, ¬ Instance.overLimit (total + UInt32.ofNat (k * usegBlocks dbId)) metaSize limit)

variable {inRecovery : Bool} {limit : Int}

theorem Whole.succ {total metaSize : UInt32} {turns : Nat}
    (h : Whole inRecovery limit dbId total metaSize (turns + 1))
    : (!inRecovery && Instance.overLimit total metaSize limit) = false
        ∧ total.toNat + usegBlocks dbId < 2 ^ 32
        ∧ Whole inRecovery limit dbId (total + UInt32.ofNat (usegBlocks dbId)) metaSize turns := by
  obtain ⟨hroom, hlimit⟩ := h
  rw [Nat.add_one_mul] at hroom
  have hnat : (total + UInt32.ofNat (usegBlocks dbId)).toNat = total.toNat + usegBlocks dbId := by
    rw [UInt32.toNat_add, usegBlocks_toNat]
    apply Nat.mod_eq_of_lt
    omega
  refine ⟨?_, by omega, ?_, ?_⟩
  . rcases hlimit with hrecovery | hlimit
    . simp [hrecovery]
    . have hzero := hlimit 0 (by omega)
      rw [Bool.and_eq_false_iff]
      right
      simpa using hzero
  . rw [hnat]
    omega
  . rcases hlimit with hrecovery | hlimit
    . exact Or.inl hrecovery
    . right
      intro k hk
      have hnext := hlimit (k + 1) (by omega)
      rw [Nat.add_one_mul, Nat.add_comm (k * _), UInt32.ofNat_add, ← UInt32.add_assoc] at hnext
      exact hnext

theorem extendLoop_spec (turns segno : Nat) {offset : Nat} (h : Stored first last s)
    (hlast : last zid dbId = segno * usegSize dbId) (hle : first zid dbId ≤ last zid dbId)
    (hoffset : offset = (segno + turns) * usegSize dbId) (hmax : offset ≤ undoLogMaxSize)
    (hwhole : Whole inRecovery limit dbId s.undoTotalSize s.undoMetaSize turns)
    : ∃ s', Instance.extendLoop inRecovery limit zid offset dbId turns (segno * usegSize dbId) s = (true, s')
        ∧ Stored first (setAt last zid dbId offset) s' ∧ SameRest s s' := by
  induction turns generalizing segno last s with
  | zero =>
    refine ⟨s, rfl, ?_, SameRest.refl s⟩
    rw [hoffset, Nat.add_zero, ← hlast, setAt_eq_self]
    exact h
  | succ turns ih =>
    obtain ⟨hallowed, hroom, hrest⟩ := hwhole.succ
    have hlt : segno * usegSize dbId < offset := by
      rw [hoffset, mul_usegSize_lt_iff]
      omega
    obtain ⟨hstored, hsame, htotal⟩ := extendSegment_spec h segno hlast hle (by omega) hroom
    have hnext : segno * usegSize dbId ≤ (segno + 1) * usegSize dbId := by
      rw [mul_usegSize_le_iff]
      omega
    rw [← htotal, ← hsame.undoMetaSize] at hrest
    obtain ⟨s', hloop, hstored', hsame'⟩ := ih (segno + 1) hstored (setAt_self ..)
      (by rw [setAt_self]; omega) (by rw [hoffset, Nat.add_right_comm, Nat.add_assoc segno]) hrest
    rw [setAt_setAt] at hstored'
    refine ⟨s', ?_, hstored', hsame.trans hsame'⟩
    rw [Instance.extendLoop, if_pos hlt, if_neg (by simp [hallowed]), ← Nat.add_one_mul]
    exact hloop

theorem unlinkLoop_spec (turns segno releaseEnd : Nat) {offset : Nat} (h : Stored first last s)
    (hfirst : first zid dbId = segno * usegSize dbId) (hoffset : offset = (segno + turns) * usegSize dbId)
    (hlast : offset ≤ last zid dbId) (hmax : last zid dbId ≤ undoLogMaxSize) (hend : offset ≤ releaseEnd)
    : Stored (setAt first zid dbId offset) last
          (Instance.unlinkLoop zid offset dbId releaseEnd turns (segno * usegSize dbId) s)
        ∧ SameRest s (Instance.unlinkLoop zid offset dbId releaseEnd turns (segno * usegSize dbId) s) := by
  induction turns generalizing segno first s with
  | zero =>
    rw [Instance.unlinkLoop]
    refine ⟨?_, SameRest.refl s⟩
    rw [hoffset, Nat.add_zero, ← hfirst, setAt_eq_self]
    exact h
  | succ turns ih =>
    have hlt : segno * usegSize dbId < offset := by
      rw [hoffset, mul_usegSize_lt_iff]
      omega
    have hnext : (segno + 1) * usegSize dbId ≤ offset := by
      rw [hoffset, mul_usegSize_le_iff]
      omega
    obtain ⟨hstored, hsame⟩ := unlinkSegment_spec h segno releaseEnd hfirst (by omega) (by omega) (by omega)
    obtain ⟨hstored', hsame'⟩ := ih (segno + 1) hstored (setAt_self ..)
      (by rw [hoffset, Nat.add_right_comm, Nat.add_assoc segno])
    rw [setAt_setAt] at hstored'
    rw [Instance.unlinkLoop, if_pos hlt, ← Nat.add_one_mul]
    exact ⟨hstored', hsame.trans hsame'⟩

end Loops

end UndoSpaces

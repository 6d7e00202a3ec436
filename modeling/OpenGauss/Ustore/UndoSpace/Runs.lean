import OpenGauss.Ustore.UndoSpace.Lemmas

/-!
This module contains runs of extensions and releases.
-/

namespace UndoSpaces

open Undo

variable {s' : Instance} {limit : Int}

namespace Instance

def lastOffset (s : Instance) (zid : Nat) (dbId : UndoDb) : Nat := (s.space zid dbId).tail

end Instance

structure FilesMatch (recovery : Bool) (s₀ s : Instance) : Prop where
  files : ∀ zid dbId segno, s.file ⟨zid, dbId, segno⟩ = .full
    ↔ s.firstOffset recovery zid dbId ≤ segno * usegSize dbId
      ∧ segno * usegSize dbId < s.lastOffset zid dbId
  createdOnce : s.created.Nodup
  unlinkedOnce : (s.unlinked.map Prod.fst).Nodup
  unlinkedBelow : ∀ tag stop, (tag, stop) ∈ s.unlinked →
    ∀ pos, stop ≤ pos → pos / usegSize tag.dbId ≠ tag.segno
  total : s.undoTotalSize.toNat + blocks (s.unlinked.map Prod.fst) + blocks s₀.created
    = s₀.undoTotalSize.toNat + blocks s.created
  head : recovery = true → ∀ zid dbId, (s.space zid dbId).head = s.primaryHead zid dbId

/-- Where a run may start: `created` are the files that exist, and they match. -/
structure Start (recovery : Bool) (s : Instance) : Prop where
  files : ∀ zid dbId segno, s.file ⟨zid, dbId, segno⟩ = .full
    ↔ s.firstOffset recovery zid dbId ≤ segno * usegSize dbId
      ∧ segno * usegSize dbId < s.lastOffset zid dbId
  created_nodup : s.created.Nodup
  mem_created : ∀ tag, tag ∈ s.created ↔ s.file tag = .full
  unlinked : s.unlinked = []
  total : s.undoTotalSize.toNat = blocks s.created
  first_dvd : ∀ zid dbId, usegSize dbId ∣ s.firstOffset recovery zid dbId
  last_dvd : ∀ zid dbId, usegSize dbId ∣ s.lastOffset zid dbId
  first_le : ∀ zid dbId, s.firstOffset recovery zid dbId ≤ s.lastOffset zid dbId
  last_le : ∀ zid dbId, s.lastOffset zid dbId ≤ undoLogMaxSize
  inserted : ∀ zid dbId, (s.zones zid).insertPos dbId / usegSize dbId * usegSize dbId ≤ s.lastOffset zid dbId
  head : recovery = true → ∀ zid dbId, (s.space zid dbId).head = s.primaryHead zid dbId

section Meets

def ExtendsWhole (recovery : Bool) (limit : Int) (s : Instance) (zid : Nat) (dbId : UndoDb) (newTail : Nat)
    : Prop :=
  (recovery = false ∧ Instance.overLimit s.undoTotalSize s.undoMetaSize limit = true)
    ∨ Whole recovery limit dbId s.undoTotalSize s.undoMetaSize
        (Instance.segments dbId (s.lastOffset zid dbId) newTail)

def ReleasesToHead (recovery : Bool) (s : Instance) (zid : Nat) (dbId : UndoDb) (endurp : UInt64) : Prop :=
  recovery = true →
    (undoPtrGetOffset endurp).toNat / usegSize dbId ≤ (s.space zid dbId).headExrto / usegSize dbId
      ∨ (undoPtrGetOffset endurp).toNat / usegSize dbId * usegSize dbId = (s.space zid dbId).head

def Action.Meets (recovery : Bool) (s : Instance) : Action → Prop
  | allocateSpace zid size limit =>
    s.lastOffset zid .undoDb < s.newInsert zid .undoDb size →
      ExtendsWhole recovery limit s zid .undoDb (s.newTail zid .undoDb size)
  | allocateSlotSpace zid limit =>
    s.lastOffset zid .undoSlotDb < s.newInsert zid .undoSlotDb UndoRecycle.slotSize →
      ExtendsWhole recovery limit s zid .undoSlotDb (s.newTail zid .undoSlotDb UndoRecycle.slotSize)
  | redoExtendBlock zid dbId tailOffset => ExtendsWhole true 0 s zid dbId tailOffset
  | releaseSpace zid endurp => ReleasesToHead recovery s zid .undoDb endurp
  | releaseSlotSpace zid endSlotPtr => ReleasesToHead recovery s zid .undoSlotDb endSlotPtr
  | _ => True

end Meets

section Invariant

structure Inv (recovery : Bool) (s : Instance) : Prop where
  stored : Stored (s.firstOffset recovery) s.lastOffset s
  first_dvd : ∀ zid dbId, usegSize dbId ∣ s.firstOffset recovery zid dbId
  last_dvd : ∀ zid dbId, usegSize dbId ∣ s.lastOffset zid dbId
  first_le : ∀ zid dbId, s.firstOffset recovery zid dbId ≤ s.lastOffset zid dbId
  last_le : ∀ zid dbId, s.lastOffset zid dbId ≤ undoLogMaxSize
  inserted : ∀ zid dbId, (s.zones zid).insertPos dbId / usegSize dbId * usegSize dbId ≤ s.lastOffset zid dbId
  head : recovery = true → ∀ zid dbId, (s.space zid dbId).head = s.primaryHead zid dbId

variable {recovery : Bool} {s : Instance} {zid : Nat} {dbId : UndoDb}

theorem Start.inv (h : Start recovery s) : Inv recovery s := by
  constructor
  . constructor
    . intro tag
      exact h.files tag.zid tag.dbId tag.segno
    . exact h.created_nodup
    . rw [h.unlinked]
      exact List.nodup_nil
    . intro tag
      rw [h.mem_created, h.unlinked]
      simp
    . rw [h.unlinked]
      simp
    . rw [h.unlinked]
      simp
    . rw [h.unlinked, h.total]
      rfl
  . exact h.first_dvd
  . exact h.last_dvd
  . exact h.first_le
  . exact h.last_le
  . exact h.inserted
  . exact h.head

theorem Inv.filesMatch {s₀ : Instance} (h₀ : Start recovery s₀) (h : Inv recovery s)
    : FilesMatch recovery s₀ s := by
  constructor
  . intro zid dbId segno
    exact h.stored.full_iff ⟨zid, dbId, segno⟩
  . exact h.stored.created_nodup
  . exact h.stored.unlinked_nodup
  . intro tag stop hmem pos hpos heq
    have hend := h.stored.unlinked_end (tag, stop) hmem
    have hlt : pos / usegSize tag.dbId < tag.segno + 1 := Nat.lt_succ_of_le (by omega)
    rw [Nat.div_lt_iff_lt_mul (usegSize_pos tag.dbId)] at hlt
    simp only at hend
    omega
  . rw [h.stored.total, h₀.total]
    omega
  . exact h.head

theorem space_setSpace (s : Instance) (zid z : Nat) (dbId d : UndoDb) (space : UndoSpace)
    : (s.setSpace zid dbId space).space z d = if z = zid ∧ d = dbId then space else s.space z d := by
  by_cases hz : z = zid
  . subst hz
    cases d <;> cases dbId <;> simp [Instance.space, Instance.setSpace, Instance.setZone, UndoZone.getSpace,
      UndoZone.setSpace]
  . simp [Instance.space, Instance.setSpace, Instance.setZone, hz]

theorem insertPos_setSpace (s : Instance) (zid z : Nat) (dbId d : UndoDb) (space : UndoSpace)
    : ((s.setSpace zid dbId space).zones z).insertPos d = (s.zones z).insertPos d := by
  by_cases hz : z = zid
  . subst hz
    cases d <;> cases dbId <;> simp [Instance.setSpace, Instance.setZone, UndoZone.insertPos,
      UndoZone.setSpace]
  . simp [Instance.setSpace, Instance.setZone, hz]

theorem firstOffset_eq (h : s'.zones = s.zones) (recovery : Bool)
    : s'.firstOffset recovery = s.firstOffset recovery := by
  funext zid dbId
  simp only [Instance.firstOffset, Instance.space, h]

theorem lastOffset_eq (h : s'.zones = s.zones) : s'.lastOffset = s.lastOffset := by
  funext zid dbId
  simp only [Instance.lastOffset, Instance.space, h]

theorem firstOffset_setTail (tail : Nat)
    : (s.setTail zid dbId tail).firstOffset recovery = s.firstOffset recovery := by
  funext z d
  simp only [Instance.firstOffset, Instance.setTail, space_setSpace]
  by_cases heq : z = zid ∧ d = dbId
  . rw [if_pos heq, heq.1, heq.2]
  . rw [if_neg heq]

theorem lastOffset_setTail (tail : Nat)
    : (s.setTail zid dbId tail).lastOffset = setAt s.lastOffset zid dbId tail := by
  funext z d
  simp only [Instance.lastOffset, Instance.setTail, space_setSpace, setAt]
  split
  . rfl
  . rfl

end Invariant

section Extend

variable {recovery : Bool} {s : Instance} {zid : Nat} {dbId : UndoDb}

theorem Inv.setTail (h : Inv recovery s) {tail : Nat}
    (hstored : Stored (s.firstOffset recovery) (setAt s.lastOffset zid dbId tail) s') (hsame : SameRest s s')
    (hdvd : usegSize dbId ∣ tail) (hle : s.lastOffset zid dbId ≤ tail) (hmax : tail ≤ undoLogMaxSize)
    : Inv recovery (s'.setTail zid dbId tail) := by
  have hfirst : (s'.setTail zid dbId tail).firstOffset recovery = s.firstOffset recovery := by
    rw [firstOffset_setTail, firstOffset_eq hsame.zones]
  have hlast : (s'.setTail zid dbId tail).lastOffset = setAt s.lastOffset zid dbId tail := by
    rw [lastOffset_setTail, lastOffset_eq hsame.zones]
  have hmono : ∀ z d, s.lastOffset z d ≤ setAt s.lastOffset zid dbId tail z d := by
    intro z d
    unfold setAt
    split
    . next heq =>
      rw [heq.1, heq.2]
      exact hle
    . apply Nat.le_refl
  constructor
  . rw [hfirst, hlast]
    exact hstored.congr rfl rfl rfl rfl
  . rw [hfirst]
    exact h.first_dvd
  . intro z d
    rw [hlast]
    unfold setAt
    split
    . next heq =>
      rw [heq.2]
      exact hdvd
    . apply h.last_dvd
  . intro z d
    rw [hfirst, hlast]
    exact Nat.le_trans (h.first_le z d) (hmono z d)
  . intro z d
    rw [hlast]
    unfold setAt
    split
    . exact hmax
    . apply h.last_le
  . intro z d
    rw [hlast, Instance.setTail, insertPos_setSpace, hsame.zones]
    exact Nat.le_trans (h.inserted z d) (hmono z d)
  . intro hrecovery z d
    have hhead := h.head hrecovery z d
    simp only [Instance.setTail, space_setSpace]
    split
    . next heq =>
      rw [heq.1, heq.2] at hhead
      simp only [Instance.space, Instance.setSpace, Instance.setZone, hsame.zones, hsame.primaryHead,
        heq] at hhead ⊢
      exact hhead
    . simp only [Instance.space, Instance.setSpace, Instance.setZone, hsame.zones,
        hsame.primaryHead] at hhead ⊢
      exact hhead

theorem Inv.extendUndoLog (h : Inv recovery s) {inRecovery : Bool} {offset : Nat}
    (hdvd : usegSize dbId ∣ offset) (hle : s.lastOffset zid dbId ≤ offset) (hmax : offset ≤ undoLogMaxSize)
    (hwhole : Whole inRecovery limit dbId s.undoTotalSize s.undoMetaSize
      (Instance.segments dbId (s.lastOffset zid dbId) offset))
    : ∃ s', s.extendUndoLog inRecovery limit zid offset dbId = (true, s') ∧ Inv recovery s' := by
  obtain ⟨segno, hsegno⟩ := h.last_dvd zid dbId
  obtain ⟨stop, hstop⟩ := hdvd
  rw [Nat.mul_comm] at hsegno hstop
  have hbounds : segno ≤ stop := by
    rw [hsegno, hstop] at hle
    exact Nat.le_of_mul_le_mul_right hle (usegSize_pos dbId)
  have hturns : Instance.segments dbId (s.lastOffset zid dbId) offset = stop - segno := by
    rw [hsegno, hstop, segments_eq]
  rw [hturns] at hwhole
  obtain ⟨s', hloop, hstored, hsame⟩ := extendLoop_spec (stop - segno) segno h.stored hsegno
    (h.first_le zid dbId) (by rw [hstop, Nat.add_sub_cancel' hbounds]) hmax hwhole
  refine ⟨s'.setTail zid dbId offset, ?_, ?_⟩
  . have htail : (s.space zid dbId).tail = segno * usegSize dbId := hsegno
    rw [← hsegno, ← hturns] at hloop
    simp only [Instance.extendUndoLog]
    rw [show (s.space zid dbId).tail = s.lastOffset zid dbId from rfl, hloop]
  . exact h.setTail hstored hsame ⟨stop, by rw [hstop, Nat.mul_comm]⟩ hle hmax

theorem Inv.congr (h : Inv recovery s) (hzones : s'.zones = s.zones)
    (hstored : Stored (s.firstOffset recovery) s.lastOffset s') (hhead : s'.primaryHead = s.primaryHead)
    : Inv recovery s' := by
  have hfirst := firstOffset_eq hzones recovery
  have hlast := lastOffset_eq hzones
  constructor
  . rw [hfirst, hlast]
    exact hstored
  . rw [hfirst]
    exact h.first_dvd
  . rw [hlast]
    exact h.last_dvd
  . rw [hfirst, hlast]
    exact h.first_le
  . rw [hlast]
    exact h.last_le
  . rw [hlast, hzones]
    exact h.inserted
  . rw [hhead]
    simp only [Instance.space, hzones]
    exact h.head

theorem newTail_eq (size : Nat)
    : s.newTail zid dbId size = (s.newInsert zid dbId size / usegSize dbId + 1) * usegSize dbId := by
  have hmod := Nat.mod_lt (s.newInsert zid dbId size) (usegSize_pos dbId)
  have hdiv := Nat.div_add_mod' (s.newInsert zid dbId size) (usegSize dbId)
  rw [Instance.newTail, Nat.add_one_mul]
  omega

theorem extendUndoLog_refused {offset : Nat} (hlt : s.lastOffset zid dbId < offset)
    (hover : Instance.overLimit s.undoTotalSize s.undoMetaSize limit = true)
    : s.extendUndoLog false limit zid offset dbId = (false, s) := by
  have hpos := usegSize_pos dbId
  have hturns : 0 < Instance.segments dbId (s.lastOffset zid dbId) offset := by
    apply Nat.div_pos
    . omega
    . exact hpos
  obtain ⟨turns, hturns⟩ := Nat.exists_eq_add_of_lt hturns
  have hloop : Instance.extendLoop false limit zid offset dbId
      (Instance.segments dbId (s.lastOffset zid dbId) offset) (s.lastOffset zid dbId) s = (false, s) := by
    rw [hturns, Instance.extendLoop, if_pos hlt, if_pos (by simp [hover])]
  rw [Instance.extendUndoLog]
  rw [show (s.space zid dbId).tail = s.lastOffset zid dbId from rfl, hloop]

theorem Inv.allocate (h : Inv recovery s) {size : Nat}
    (hmax : s.newInsert zid dbId size + usegSize dbId ≤ undoLogMaxSize)
    (hmeets : s.lastOffset zid dbId < s.newInsert zid dbId size →
      ExtendsWhole recovery limit s zid dbId (s.newTail zid dbId size))
    : Inv recovery (Instance.allocate dbId s recovery limit zid size).2 := by
  rw [Instance.allocate]
  simp only
  split
  . next hgrows =>
    have hmod := Nat.mod_lt (s.newInsert zid dbId size) (usegSize_pos dbId)
    have htail : s.newInsert zid dbId size < s.newTail zid dbId size := by
      rw [Instance.newTail]
      omega
    have hlast : s.lastOffset zid dbId < s.newTail zid dbId size := Nat.lt_trans hgrows htail
    rcases hmeets hgrows with hrefused | hwhole
    . obtain ⟨rfl, hover⟩ := hrefused
      rw [extendUndoLog_refused hlast hover]
      exact h
    . have hdvd : usegSize dbId ∣ s.newTail zid dbId size := by
        rw [newTail_eq]
        apply Nat.dvd_mul_left
      obtain ⟨s', hextend, hinv⟩ := h.extendUndoLog hdvd (by omega)
        (by rw [Instance.newTail]; omega) hwhole
      rw [hextend]
      simp only
      split
      . exact hinv.congr rfl (hinv.stored.congr rfl rfl rfl rfl) rfl
      . exact hinv
  . exact h

end Extend

section Release

variable {recovery : Bool} {s : Instance} {zid : Nat} {dbId : UndoDb}

theorem space_setHeads (recovery : Bool) (s : Instance) (zid : Nat) (dbId : UndoDb) (offset z : Nat)
    (d : UndoDb)
    : ((if recovery then s.setHeadExrto zid dbId offset else s.setHead zid dbId offset).setHead zid dbId
          offset).space z d
        =
      if z = zid ∧ d = dbId then
        ⟨offset, if recovery then offset else (s.space zid dbId).headExrto, (s.space zid dbId).tail⟩
      else s.space z d := by
  cases recovery
  . simp only [Instance.setHead, space_setSpace, Bool.false_eq_true, if_false]
    split
    . simp
    . rfl
  . simp only [Instance.setHead, Instance.setHeadExrto, space_setSpace, if_true]
    split
    . simp
    . rfl

theorem insertPos_setHeads (recovery : Bool) (s : Instance) (zid : Nat) (dbId : UndoDb) (offset z : Nat)
    (d : UndoDb)
    : ((((if recovery then s.setHeadExrto zid dbId offset else s.setHead zid dbId offset).setHead zid dbId
          offset).zones z).insertPos d)
        =
      (s.zones z).insertPos d := by
  rw [Instance.setHead, insertPos_setSpace]
  cases recovery
  . apply insertPos_setSpace
  . apply insertPos_setSpace

theorem Inv.unlinkUndoLog (h : Inv recovery s) {endSegno stop : Nat}
    (hlt : s.firstOffset recovery zid dbId < endSegno * usegSize dbId)
    (hle : endSegno * usegSize dbId ≤ s.lastOffset zid dbId) (hstop : endSegno * usegSize dbId ≤ stop)
    (hhead : recovery = true → endSegno * usegSize dbId = (s.space zid dbId).head)
    : Inv recovery (s.unlinkUndoLog recovery zid (endSegno * usegSize dbId) dbId stop) := by
  generalize hoffset : endSegno * usegSize dbId = offset at *
  obtain ⟨segno, hsegno⟩ := h.first_dvd zid dbId
  rw [Nat.mul_comm] at hsegno
  have hbounds : segno ≤ endSegno := by
    rw [hsegno, ← hoffset] at hlt
    exact Nat.le_of_lt (Nat.lt_of_mul_lt_mul_right hlt)
  have hturns : Instance.segments dbId (s.firstOffset recovery zid dbId) offset = endSegno - segno := by
    rw [hsegno, ← hoffset, segments_eq]
  have hspace := space_setHeads recovery s zid dbId offset
  have hinsert := insertPos_setHeads recovery s zid dbId offset
  rw [Instance.unlinkUndoLog]
  generalize hs' : (if recovery then s.setHeadExrto zid dbId offset
    else s.setHead zid dbId offset).setHead zid dbId offset = s' at *
  have hprimary : s'.primaryHead = s.primaryHead := by
    rw [← hs']
    cases recovery <;> rfl
  have hstored' : Stored (s.firstOffset recovery) s.lastOffset s' := by
    rw [← hs']
    cases recovery
    . exact h.stored.congr rfl rfl rfl rfl
    . exact h.stored.congr rfl rfl rfl rfl
  obtain ⟨hstored, hsame⟩ := unlinkLoop_spec (endSegno - segno) segno stop hstored' hsegno
    (by rw [Nat.add_sub_cancel' hbounds, hoffset]) hle (h.last_le zid dbId) hstop
  rw [← hsegno, ← hturns] at hstored hsame
  generalize Instance.unlinkLoop zid offset dbId stop _ _ s' = s'' at *
  have hfirst : s''.firstOffset recovery = setAt (s.firstOffset recovery) zid dbId offset := by
    rw [firstOffset_eq hsame.zones]
    funext z d
    simp only [Instance.firstOffset, hspace, setAt]
    by_cases heq : z = zid ∧ d = dbId
    . cases recovery <;> simp [heq]
    . rw [if_neg heq, if_neg heq]
  have hlast : s''.lastOffset = s.lastOffset := by
    rw [lastOffset_eq hsame.zones]
    funext z d
    simp only [Instance.lastOffset, hspace]
    split
    . next heq => rw [heq.1, heq.2]
    . rfl
  constructor
  . rw [hfirst, hlast]
    exact hstored
  . intro z d
    rw [hfirst]
    unfold setAt
    split
    . next heq =>
      rw [heq.2, ← hoffset]
      apply Nat.dvd_mul_left
    . apply h.first_dvd
  . rw [hlast]
    exact h.last_dvd
  . intro z d
    rw [hfirst, hlast]
    unfold setAt
    split
    . next heq =>
      rw [heq.1, heq.2]
      exact hle
    . apply h.first_le
  . rw [hlast]
    exact h.last_le
  . intro z d
    rw [hlast, hsame.zones, hinsert]
    apply h.inserted
  . intro hrecovery z d
    have hold := h.head hrecovery z d
    rw [hsame.primaryHead, hprimary, ← hold]
    simp only [Instance.space, hsame.zones]
    have hnew := congrArg UndoSpace.head (hspace z d)
    simp only [Instance.space] at hnew hhead ⊢
    rw [hnew]
    split
    . next heq =>
      rw [heq.1, heq.2]
      exact hhead hrecovery
    . rfl

theorem Inv.release (h : Inv recovery s) {endurp : UInt64}
    (hstop : (undoPtrGetOffset endurp).toNat / usegSize dbId * usegSize dbId ≤ s.lastOffset zid dbId)
    (hmeets : ReleasesToHead recovery s zid dbId endurp)
    : Inv recovery (Instance.release dbId s recovery zid endurp) := by
  rw [Instance.release]
  simp only
  split
  . next hgrows =>
    have hfirst : s.firstOffset recovery zid dbId
        < (undoPtrGetOffset endurp).toNat / usegSize dbId * usegSize dbId := by
      obtain ⟨segno, hsegno⟩ := h.first_dvd zid dbId
      rw [Nat.mul_comm] at hsegno
      rw [hsegno, Nat.mul_div_cancel _ (usegSize_pos dbId)] at hgrows
      rw [hsegno, mul_usegSize_lt_iff]
      exact hgrows
    have hhead : recovery = true →
        (undoPtrGetOffset endurp).toNat / usegSize dbId * usegSize dbId = (s.space zid dbId).head := by
      intro hrecovery
      have hexrto : s.firstOffset recovery zid dbId = (s.space zid dbId).headExrto := by
        rw [Instance.firstOffset, if_pos hrecovery]
      rw [hexrto] at hgrows
      rcases hmeets hrecovery with hnone | hhead
      . omega
      . exact hhead
    have hforce : ∀ forceRecycleSize,
        Inv recovery (({ s with forceRecycleSize } : Instance).unlinkUndoLog recovery zid
          ((undoPtrGetOffset endurp).toNat / usegSize dbId * usegSize dbId) dbId
          (undoPtrGetOffset endurp).toNat) := by
      intro forceRecycleSize
      have hinv : Inv recovery { s with forceRecycleSize } := h.congr rfl (h.stored.congr rfl rfl rfl rfl) rfl
      exact hinv.unlinkUndoLog hfirst hstop (Nat.div_mul_le_self ..) hhead
    split
    . have hinv := hforce (s.forceRecycleSize - ((undoPtrGetOffset endurp).toNat / usegSize dbId
        - s.firstOffset recovery zid dbId / usegSize dbId : Nat) * usegBlocks dbId)
      split
      . exact hinv.congr rfl (hinv.stored.congr rfl rfl rfl rfl) rfl
      . exact hinv
    . have hinv := hforce s.forceRecycleSize
      split
      . exact hinv.congr rfl (hinv.stored.congr rfl rfl rfl rfl) rfl
      . exact hinv
  . exact h

end Release

section Steps

variable {recovery : Bool} {s : Instance} {zid : Nat} {dbId : UndoDb}

theorem Inv.setInsertPos (h : Inv recovery s) {zone : UndoZone}
    (hundo : zone.undoSpace = (s.zones zid).undoSpace) (hslot : zone.slotSpace = (s.zones zid).slotSpace)
    (hinserted : ∀ d, zone.insertPos d / usegSize d * usegSize d ≤ s.lastOffset zid d)
    : Inv recovery (s.setZone zid zone) := by
  have hspace : (s.setZone zid zone).space = s.space := by
    funext z d
    by_cases hz : z = zid
    . cases d
      . simp [Instance.space, Instance.setZone, UndoZone.getSpace, hz, hundo]
      . simp [Instance.space, Instance.setZone, UndoZone.getSpace, hz, hslot]
    . simp [Instance.space, Instance.setZone, hz]
  have hfirst : (s.setZone zid zone).firstOffset recovery = s.firstOffset recovery := by
    funext z d
    simp only [Instance.firstOffset, hspace]
  have hlast : (s.setZone zid zone).lastOffset = s.lastOffset := by
    funext z d
    simp only [Instance.lastOffset, hspace]
  constructor
  . rw [hfirst, hlast]
    exact h.stored.congr rfl rfl rfl rfl
  . rw [hfirst]
    exact h.first_dvd
  . rw [hlast]
    exact h.last_dvd
  . rw [hfirst, hlast]
    exact h.first_le
  . rw [hlast]
    exact h.last_le
  . intro z d
    rw [hlast]
    by_cases hz : z = zid
    . simpa [Instance.setZone, hz] using hinserted d
    . simpa [Instance.setZone, hz] using h.inserted z d
  . rw [hspace]
    exact h.head

theorem Inv.advanceInsertURecPtr (h : Inv recovery s) {oldInsert size : Nat}
    (hle : undoLogOffsetPlusUsableBytes oldInsert size ≤ (s.zones zid).undoSpace.tail)
    : Inv recovery (s.advanceInsertURecPtr zid oldInsert size) := by
  apply h.setInsertPos
  . rfl
  . rfl
  . intro d
    cases d
    . exact Nat.le_trans (Nat.div_mul_le_self ..) hle
    . exact h.inserted zid .undoSlotDb

theorem getNextSlotPtr_cases (slotPtr : Nat)
    : UndoRecycle.getNextSlotPtr slotPtr = slotPtr + 32
        ∨ UndoRecycle.getNextSlotPtr slotPtr = (slotPtr / 8192 + 1) * 8192 + 24 := by
  unfold UndoRecycle.getNextSlotPtr
  dsimp only
  split
  . exact Or.inr rfl
  . left
    simp only [UndoRecycle.blcksz, UndoRecycle.slotSize]
    omega

theorem plus_slotSize_ge (slotPtr : Nat)
    : slotPtr / 8192 * 8192 < undoLogOffsetPlusUsableBytes slotPtr UndoRecycle.slotSize
        ∧ (slotPtr + 32 ≤ undoLogOffsetPlusUsableBytes slotPtr UndoRecycle.slotSize
          ∨ undoLogOffsetPlusUsableBytes slotPtr UndoRecycle.slotSize = slotPtr / 8192 * 8192 + 56) := by
  simp only [undoLogOffsetPlusUsableBytes, undoLogOffsetFromUsableByteNo, undoLogOffsetToUsableByteNo,
    undoLogUsableBytesPerPage, undoLogBlockHeaderSize, blcksz, UndoRecycle.slotSize]
  omega

theorem getNextSlotPtr_le {slotPtr tail : Nat} (hdvd : usegSize .undoSlotDb ∣ tail)
    (hle : undoLogOffsetPlusUsableBytes slotPtr UndoRecycle.slotSize ≤ tail)
    : UndoRecycle.getNextSlotPtr slotPtr / usegSize .undoSlotDb * usegSize .undoSlotDb ≤ tail := by
  have hsize : usegSize .undoSlotDb = 32768 := rfl
  obtain ⟨segno, rfl⟩ := hdvd
  obtain ⟨hpage, hbytes⟩ := plus_slotSize_ge slotPtr
  rw [hsize] at hle ⊢
  rcases getNextSlotPtr_cases slotPtr with hnext | hnext
  . omega
  . omega

theorem Inv.allocTransactionSlot (h : Inv recovery s) {slotPtr : Nat}
    (hle : undoLogOffsetPlusUsableBytes slotPtr UndoRecycle.slotSize ≤ (s.zones zid).slotSpace.tail)
    : Inv recovery (s.allocTransactionSlot zid slotPtr) := by
  apply h.setInsertPos
  . rfl
  . rfl
  . intro d
    cases d
    . exact h.inserted zid .undoDb
    . exact getNextSlotPtr_le (h.last_dvd zid .undoSlotDb) hle

theorem Inv.redoUnlinkBlock (h : Inv true s) (headOffset : Nat)
    : Inv true (s.redoUnlinkBlock zid dbId headOffset) := by
  have hspace : ∀ z d, (s.redoUnlinkBlock zid dbId headOffset).space z d
      = if z = zid ∧ d = dbId then { s.space zid dbId with head := headOffset } else s.space z d := by
    intro z d
    exact space_setSpace s zid z dbId d _
  have hfirst : (s.redoUnlinkBlock zid dbId headOffset).firstOffset true = s.firstOffset true := by
    funext z d
    simp only [Instance.firstOffset, hspace, if_true]
    by_cases heq : z = zid ∧ d = dbId
    . rw [if_pos heq, heq.1, heq.2]
    . rw [if_neg heq]
  have hlast : (s.redoUnlinkBlock zid dbId headOffset).lastOffset = s.lastOffset := by
    funext z d
    simp only [Instance.lastOffset, hspace]
    by_cases heq : z = zid ∧ d = dbId
    . rw [if_pos heq, heq.1, heq.2]
    . rw [if_neg heq]
  constructor
  . rw [hfirst, hlast]
    exact h.stored.congr rfl rfl rfl rfl
  . rw [hfirst]
    exact h.first_dvd
  . rw [hlast]
    exact h.last_dvd
  . rw [hfirst, hlast]
    exact h.first_le
  . rw [hlast]
    exact h.last_le
  . intro z d
    have hinsert : ((s.redoUnlinkBlock zid dbId headOffset).zones z).insertPos d = (s.zones z).insertPos d :=
      insertPos_setSpace s zid z dbId d _
    rw [hlast, hinsert]
    apply h.inserted
  . intro hrecovery z d
    rw [hspace]
    simp only [Instance.redoUnlinkBlock]
    split
    . rfl
    . exact h.head hrecovery z d

variable (h : Inv recovery s)
include h

theorem Inv.redoExtendBlock {tailOffset : Nat} (hdvd : usegSize dbId ∣ tailOffset)
    (hle : s.lastOffset zid dbId ≤ tailOffset) (hmax : tailOffset ≤ undoLogMaxSize)
    (hmeets : ExtendsWhole true 0 s zid dbId tailOffset)
    : Inv recovery (s.redoExtendBlock zid dbId tailOffset) := by
  rcases hmeets with hrefused | hwhole
  . exact absurd hrefused.1 (by decide)
  . obtain ⟨s', hextend, hinv⟩ := h.extendUndoLog hdvd hle hmax hwhole
    rw [Instance.redoExtendBlock, hextend]
    exact hinv

theorem Inv.checkPoint : Inv recovery s.checkPoint := by
  have hfull : ∀ tag, s.checkPoint.file tag = .full ↔ s.file tag = .full := by
    intro tag
    simp only [Instance.checkPoint]
    split
    . next hemptied => simp [hemptied]
    . rfl
  apply h.congr
  . rfl
  . constructor
    . intro tag
      rw [hfull]
      exact h.stored.full_iff tag
    . exact h.stored.created_nodup
    . exact h.stored.unlinked_nodup
    . intro tag
      rw [hfull]
      exact h.stored.mem_created tag
    . exact h.stored.unlinked_lt
    . exact h.stored.unlinked_end
    . exact h.stored.total
  . rfl

theorem Inv.stop_le {endurp : UInt64} (hle : (undoPtrGetOffset endurp).toNat ≤ (s.zones zid).insertPos dbId)
    : (undoPtrGetOffset endurp).toNat / usegSize dbId * usegSize dbId ≤ s.lastOffset zid dbId := by
  apply Nat.le_trans (Nat.mul_le_mul_right _ (Nat.div_le_div_right hle))
  apply h.inserted

theorem Inv.step {a : Action} (hallowed : a.Allowed recovery s) (hmeets : a.Meets recovery s)
    : Inv recovery (a.apply recovery s) := by
  cases a with
  | allocateSpace zid size limit => exact h.allocate hallowed hmeets
  | allocateSlotSpace zid limit => exact h.allocate hallowed hmeets
  | advanceInsertURecPtr zid oldInsert size => exact h.advanceInsertURecPtr hallowed
  | allocTransactionSlot zid slotPtr => exact h.allocTransactionSlot hallowed
  | releaseSpace zid endurp => exact h.release (h.stop_le hallowed) hmeets
  | releaseSlotSpace zid endSlotPtr => exact h.release (h.stop_le hallowed) hmeets
  | redoExtendBlock zid dbId tailOffset =>
    obtain ⟨hrecovery, hdvd, hle, hmax⟩ := hallowed
    exact h.redoExtendBlock hdvd hle hmax hmeets
  | redoUnlinkBlock zid dbId headOffset =>
    obtain rfl : recovery = true := hallowed
    exact h.redoUnlinkBlock headOffset
  | checkPoint => exact h.checkPoint

end Steps

section Main

def MeetingStep (recovery : Bool) (s : Instance) (a : Action) (s' : Instance) : Prop :=
  Step recovery s a s' ∧ a.Meets recovery s

theorem filesMatch_of_run (recovery : Bool) (s₀ s : Instance) (h₀ : Start recovery s₀)
    (hrun : Interleaving.Run (MeetingStep recovery) s₀ s)
    : FilesMatch recovery s₀ s := by
  apply Inv.filesMatch h₀
  apply hrun.invariant
  . rintro s a s' hinv ⟨⟨hallowed, rfl⟩, hmeets⟩
    exact hinv.step hallowed hmeets
  . exact h₀.inv

def freshZone : UndoZone := ⟨true, ⟨0, 0, 0⟩, ⟨0, 0, 0⟩, undoLogBlockHeaderSize, undoLogBlockHeaderSize⟩

def freshInstance : Instance :=
  ⟨fun _ => freshZone, fun _ => .absent, 0, 0, 0, [], [], [], fun _ _ => 0⟩

theorem freshInstance_start (recovery : Bool) : Start recovery freshInstance := by
  have hfirst : freshInstance.firstOffset recovery = fun _ _ => 0 := by
    funext zid dbId
    cases recovery <;> cases dbId <;> rfl
  have hlast : freshInstance.lastOffset = fun _ _ => 0 := by
    funext zid dbId
    cases dbId <;> rfl
  constructor
  . intro zid dbId segno
    have hfile : freshInstance.file ⟨zid, dbId, segno⟩ = .absent := rfl
    simp [hlast, hfile]
  . exact List.nodup_nil
  . intro tag
    simp [freshInstance]
  . rfl
  . rfl
  . simp [hfirst]
  . simp [hlast]
  . simp [hfirst]
  . simp [hlast]
  . intro zid dbId
    rw [hlast]
    cases dbId
    . exact (by decide : 24 / usegSize .undoDb * usegSize .undoDb ≤ 0)
    . exact (by decide : 24 / usegSize .undoSlotDb * usegSize .undoSlotDb ≤ 0)
  . intro hrecovery zid dbId
    cases dbId <;> rfl

theorem filesMatch_of_run_primary
    : ∃ s, Start false freshInstance ∧ Interleaving.Run (MeetingStep false) freshInstance s
        ∧ s.unlinked = [(⟨0, .undoDb, 0⟩, 1048600)] ∧ FilesMatch false freshInstance s := by
  have hrun : Interleaving.Run (MeetingStep false) freshInstance
      (Action.apply false (Action.apply false (Action.apply false freshInstance
        (.allocateSpace 0 1500000 33554432)) (.advanceInsertURecPtr 0 24 1500000))
        (.releaseSpace 0 1048600)) := by
    apply Interleaving.Run.step (Action.releaseSpace 0 1048600)
    . apply Interleaving.Run.step (Action.advanceInsertURecPtr 0 24 1500000)
      . apply Interleaving.Run.single (Action.allocateSpace 0 1500000 33554432)
        refine ⟨⟨?_, rfl⟩, ?_⟩
        . simp only [Action.Allowed]
          decide
        . intro _
          right
          refine ⟨by decide, Or.inr ?_⟩
          decide
      . refine ⟨⟨?_, rfl⟩, trivial⟩
        simp only [Action.Allowed]
        decide
    . refine ⟨⟨?_, rfl⟩, ?_⟩
      . simp only [Action.Allowed]
        decide
      . intro hrecovery
        exact absurd hrecovery (by decide)
  have hstart := freshInstance_start false
  refine ⟨_, hstart, hrun, ?_, filesMatch_of_run false _ _ hstart hrun⟩
  decide

theorem not_filesMatch_standby
    : ∃ s, Start true freshInstance ∧ Interleaving.Run (Step true) freshInstance s
        ∧ (s.space 0 .undoDb).head = 1048576 ∧ s.primaryHead 0 .undoDb = 2097152
        ∧ ¬ FilesMatch true freshInstance s := by
  have hrun : Interleaving.Run (Step true) freshInstance
      (Action.apply true (Action.apply true (Action.apply true (Action.apply true freshInstance
        (.redoExtendBlock 0 .undoDb 3145728)) (.advanceInsertURecPtr 0 24 2500000))
        (.redoUnlinkBlock 0 .undoDb 2097152)) (.releaseSpace 0 1048600)) := by
    apply Interleaving.Run.step (Action.releaseSpace 0 1048600)
    . apply Interleaving.Run.step (Action.redoUnlinkBlock 0 .undoDb 2097152)
      . apply Interleaving.Run.step (Action.advanceInsertURecPtr 0 24 2500000)
        . apply Interleaving.Run.single (Action.redoExtendBlock 0 .undoDb 3145728)
          refine ⟨?_, rfl⟩
          simp only [Action.Allowed]
          decide
        . refine ⟨?_, rfl⟩
          simp only [Action.Allowed]
          decide
      . exact ⟨rfl, rfl⟩
    . refine ⟨?_, rfl⟩
      simp only [Action.Allowed]
      decide
  refine ⟨_, freshInstance_start true, hrun, by decide, by decide, ?_⟩
  intro hmatch
  have hhead := hmatch.head rfl 0 .undoDb
  revert hhead
  decide

end Main

end UndoSpaces

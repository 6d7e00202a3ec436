import OpenGauss.Ustore.AddItem.Lemmas
import OpenGauss.Ustore.UndoPayload.Lemmas

/-!
This module shows that the rollback of the operations on a page gives every row back.
-/

namespace Ustore

open Repair

variable {header : UHeapDiskTupleHeader} {stack : List Entry} (offnum : Nat)

section Restore

-- `urec` gives the tuple `oldtup` back from every tuple with the body of `cur`.
structure Restores (urec : UndoRecord) (offnum : Nat) (cur oldtup : Bytes) : Prop where
  offset : urec.offset = offnum
  utype : urec.utype ≠ .insert
  getTuple : ∀ cur', SameBody cur' cur → getTupleFromUndoRecord urec cur' = restored oldtup

variable {oldtup : Bytes}

theorem restores_delete (subxid : Option Nat) (cur : Bytes)
    : Restores (prepareUndoDelete oldtup offnum subxid) offnum cur oldtup where
  offset := rfl
  utype := by
    intro h
    cases h
  getTuple := by
    intro cur' _
    exact congrArg (frozenShortXid ++ ·) take_rawdata_delete

theorem restores_update {ctid : Bytes} (subxid : Option Nat) (cur : Bytes)
    (hctid : ctid.length = sizeOfItemPointerData)
    : Restores (prepareUndoUpdate oldtup offnum ctid subxid) offnum cur oldtup where
  offset := rfl
  utype := by
    intro h
    cases h
  getTuple := by
    intro cur' _
    exact congrArg (frozenShortXid ++ ·) (take_rawdata_update hctid)

theorem restores_inplaceUpdate {newtup cur : Bytes} (subxid : Option Nat)
    (logicallyLogged : Bool) (hold : WellFormed oldtup) (hcur : WellFormed cur)
    (hlen : oldtup.length < 256 ^ sizeOfUint16)
    (hbody : Compressed oldtup newtup logicallyLogged → SameBody cur newtup)
    : Restores (prepareUndoInplaceUpdate oldtup newtup offnum subxid logicallyLogged) offnum cur oldtup where
  offset := rfl
  utype := by
    intro h
    cases h
  getTuple := by
    intro cur' hsame
    apply oldDisktuple_prepare hold (hsame.symm.wellFormed hcur) hlen
    intro hcompressed
    exact hsame.trans (hbody hcompressed)

theorem header_eq_of_drop {tup tup' : Bytes} (h : tup.drop offsetTdId = tup'.drop offsetTdId)
    : (diskTupleHeader tup).tHoff = (diskTupleHeader tup').tHoff
      ∧ (diskTupleHeader tup).tdId = (diskTupleHeader tup').tdId := by
  have hread : ∀ tup : Bytes, (diskTupleHeader tup).tHoff =
      (((((((tup.drop offsetTdId).take 7).drop 1).drop 1).drop 2).drop 2)).headD 0
        ∧ (diskTupleHeader tup).tdId = (((tup.drop offsetTdId).take 7).take 1).headD 0 := by
    intro tup
    rw [List.take_drop]
    exact ⟨rfl, rfl⟩
  rw [(hread tup).1, (hread tup).2, (hread tup').1, (hread tup').2, h]
  exact ⟨rfl, rfl⟩

theorem sameBody_restored (h : WellFormed oldtup) : SameBody (restored oldtup) oldtup := by
  have hlen := length_restored h
  have hdrop := drop_restored oldtup
  refine ⟨hlen, ?_, ?_⟩
  . rw [tHoff, (header_eq_of_drop hdrop).1, tHoff]
  . have hsplit : sizeOfUHeapDiskTupleData = offsetTdId + 7 := rfl
    rw [hsplit, ← List.drop_drop, ← List.drop_drop, hdrop]

-- Only the slot or the flags in the header change.
theorem restoreXactFromUndoRecord_spec {xact : UndoXact} {tuple : Bytes} (hwf : WellFormed tuple)
    (hslot : (diskTupleHeader tuple).tdId.toNat ≤ xact.slotXids.length)
    : ∃ tuple', restoreXactFromUndoRecord xact tuple = some tuple' ∧ SameBody tuple' tuple := by
  obtain ⟨xid, hxid⟩ : ∃ xid, getTDSlotInfo xact.slotXids (diskTupleHeader tuple).tdId = some xid := by
    unfold getTDSlotInfo
    split
    . exact ⟨0, rfl⟩
    . next hne =>
      have hpos : 0 < (diskTupleHeader tuple).tdId.toNat := by
        apply Nat.pos_of_ne_zero
        intro hzero
        exact hne (UInt8.toNat_inj.mp hzero)
      exact ⟨_, List.getElem?_eq_getElem (by omega)⟩
  simp only [restoreXactFromUndoRecord, hxid, Option.bind_eq_bind, Option.bind_some]
  split
  . exact ⟨_, rfl, .of_withHeader hwf rfl⟩
  . split
    . exact ⟨_, rfl, .of_withHeader hwf rfl⟩
    . exact ⟨_, rfl, .refl tuple⟩

end Restore

section Page

variable {page page' : UPage} {offnum : Nat}

theorem layout_record (hlayout : page.Layout) (delta : Int) : (page.recordPotentialFreeSpace delta).Layout :=
  { hlayout with fits := fun i hi => ⟨(hlayout.fits i hi).inside, (hlayout.fits i hi).disjoint⟩ }

theorem changed_record (h : RowChanged page page' offnum) (delta : Int)
    : RowChanged page (page'.recordPotentialFreeSpace delta) offnum :=
  { h with layout := layout_record h.layout delta }

theorem changed_of_record {delta : Int}
    (h : RowChanged (page.recordPotentialFreeSpace delta) page' offnum) : RowChanged page page' offnum :=
  { h with }

structure RowSet (page page' : UPage) (offnum : Nat) (tup : Bytes) : Prop where
  changed : RowChanged page page' offnum
  stored : page'.Stored offnum
  rowData : page'.rowData offnum = tup
  flags : (page'.rowPtrs offnum).flags = (page.rowPtrs offnum).flags

theorem RowSet.trans {page'' : UPage} {tup tup' : Bytes} (h : RowSet page page' offnum tup)
    (h' : RowSet page' page'' offnum tup')
    : RowSet page page'' offnum tup' where
  changed := {
    layout := h'.changed.layout
    stored := fun i hne => (h'.changed.stored i hne).trans (h.changed.stored i hne)
    rowPtr := fun i hne => (h'.changed.rowPtr i hne).trans (h.changed.rowPtr i hne)
    rowData := by
      intro i hne hstored
      rw [h'.changed.rowData i hne ((h.changed.stored i hne).mpr hstored), h.changed.rowData i hne hstored] }
  stored := h'.stored
  rowData := h'.rowData
  flags := h'.flags.trans h.flags

theorem rowSet_setRowData {tup : Bytes} (hlayout : page.Layout) (hstored : page.Stored offnum)
    (hwf : WellFormed tup) (hfits : page.Fits offnum tup.length)
    : RowSet page (page.setRowData offnum tup) offnum tup := by
  have hpos : 0 < tup.length := Nat.lt_of_lt_of_le (by decide) hwf.le_length
  obtain ⟨hchanged, hstored', hdata, hflags⟩ := setRowData_spec hlayout hstored hpos hfits
  exact ⟨hchanged, hstored', hdata, hflags⟩

theorem fits_of_length_eq {tup : Bytes} (hlayout : page.Layout) (hstored : page.Stored offnum)
    (hlen : tup.length = (page.rowData offnum).length) : page.Fits offnum tup.length := by
  rw [hlen, UPage.length_rowData]
  exact hlayout.fits offnum hstored

theorem rowSet_withHeader (hlayout : page.Layout)
    (hstored : page.Stored offnum) (hwf : WellFormed (page.rowData offnum))
    (hhoff : header.tHoff = (diskTupleHeader (page.rowData offnum)).tHoff)
    : RowSet page (page.setRowData offnum (withHeader (page.rowData offnum) header)) offnum
        (withHeader (page.rowData offnum) header) := by
  have hsame := SameBody.of_withHeader hwf hhoff
  apply rowSet_setRowData hlayout hstored
  . exact hsame.symm.wellFormed hwf
  . exact fits_of_length_eq hlayout hstored hsame.length

theorem copyTupleFromUndoRecord_eq {urec : UndoRecord} {cur oldtup : Bytes}
    (h : Restores urec offnum cur oldtup) (hone : 1 ≤ offnum)
    (hnormal : (page.rowPtrs offnum).isNormal = true) (hsame : SameBody (page.rowData offnum) cur)
    : ∃ delta : Int, copyTupleFromUndoRecord urec page =
        some ((page.setRowData offnum (restored oldtup)).recordPotentialFreeSpace delta) ∨
      copyTupleFromUndoRecord urec page = some (page.setRowData offnum (restored oldtup)) := by
  have hget := h.getTuple _ hsame
  have hoffset := h.offset
  have hutype := h.utype
  have hguard : ¬ ((urec.offset = invalidOffsetNumber || !(page.rowPtrs urec.offset).isNormal) = true) := by
    rw [hoffset, hnormal, Bool.or_eq_true]
    intro hor
    cases hor with
    | inl hinvalid =>
      have hzero : offnum = 0 := of_decide_eq_true hinvalid
      omega
    | inr hfalse => cases hfalse
  unfold copyTupleFromUndoRecord
  simp only
  rw [if_neg hguard, hoffset]
  unfold getTupleFromUndoRecord at hget
  cases hcase : urec.utype with
  | insert => exact absurd hcase hutype
  | delete =>
    rw [hcase] at hget
    exact ⟨_, Or.inl (by rw [← hget])⟩
  | update =>
    rw [hcase] at hget
    exact ⟨_, Or.inl (by rw [← hget])⟩
  | inplaceUpdate =>
    rw [hcase] at hget
    refine ⟨0, Or.inr ?_⟩
    rw [← hget]

end Page

section Runs

structure Entry where
  urec : UndoRecord
  oldtup : Bytes

structure RollbackState where
  page : UPage
  pending : Nat → List Entry

namespace RollbackState

def setStack (s : RollbackState) (page : UPage) (offnum : Nat) (stack : List Entry) : RollbackState :=
  ⟨page, fun i => if i = offnum then stack else s.pending i⟩

def push (s : RollbackState) (offnum : Nat) (res : UPage × UndoRecord) : RollbackState :=
  s.setStack res.1 offnum (⟨res.2, s.page.rowData offnum⟩ :: s.pending offnum)

def Normal (s : RollbackState) (offnum : Nat) : Prop :=
  s.page.Stored offnum ∧ (s.page.rowPtrs offnum).isNormal = true

end RollbackState

/-
The steps of the page: the operations on its rows, the rows that other operations add and take away,
the changes to headers (locks, frozen slots, `RestoreXactFromUndoRecord`), the removal of gaps and the
rollback of the newest operation on a row.
-/
inductive RollbackStep : RollbackState → RollbackState → Prop where
  | delete (s offnum tdSlot tupleXid subxid changingPart) (hnormal : s.Normal offnum)
    : RollbackStep s (s.push offnum (uheapDelete s.page offnum tdSlot tupleXid subxid changingPart))
  | updateInplace (s offnum newtup tdSlot tupleXid subxid logicallyLogged)
    (hnormal : s.Normal offnum) (hnew : WellFormed newtup) (hfits : s.page.Fits offnum newtup.length)
    : RollbackStep s
        (s.push offnum
          (uheapUpdateInplace s.page offnum newtup tdSlot tupleXid subxid logicallyLogged))
  | update (s offnum ctid tdSlot tupleXid subxid) (hnormal : s.Normal offnum)
    (hctid : ctid.length = sizeOfItemPointerData)
    : RollbackStep s (s.push offnum (uheapUpdate s.page offnum ctid tdSlot tupleXid subxid))
  | addItem (s : RollbackState) (maxTuples item offnum page') (hitem : WellFormed item)
    (hadd : upageAddItem s.page maxTuples item = some (offnum, page'))
    : RollbackStep s { s with page := page' }
  | removeRow (s : RollbackState) (offnum) (rp : RowPtr) (hlen : rp.len = 0)
    (hstack : s.pending offnum = [])
    : RollbackStep s { s with page := s.page.setRowPtr offnum rp }
  | touch (s : RollbackState) (offnum header) (hnormal : s.Normal offnum)
    (hhoff : header.tHoff = (diskTupleHeader (s.page.rowData offnum)).tHoff)
    : RollbackStep s
        { s with page := s.page.setRowData offnum (withHeader (s.page.rowData offnum) header) }
  | repair (s : RollbackState) (targetOffnum spaceRequired page')
    (htarget : targetOffnum = invalidOffsetNumber ∨ s.page.Stored targetOffnum)
    (hrepair : upageRepairFragmentation s.page targetOffnum spaceRequired = some page')
    : RollbackStep s { s with page := page' }
  | undo (s : RollbackState) (offnum entry stack page') (hstack : s.pending offnum = entry :: stack)
    (hcopy : copyTupleFromUndoRecord entry.urec s.page = some page')
    : RollbackStep s (s.setStack page' offnum stack)

def Chain (offnum : Nat) : Bytes → List Entry → Prop
  | _, [] => True
  | cur, entry :: stack =>
    Restores entry.urec offnum cur entry.oldtup ∧ entry.oldtup.length ≤ cur.length ∧
      WellFormed entry.oldtup ∧ Chain offnum entry.oldtup stack

-- What a reader makes of a tuple that goes along the undo records `entries`.
def olderTuple (tuple : Bytes) (entries : List Entry) : Bytes :=
  entries.foldl (fun tuple entry => getTupleFromUndoRecord entry.urec tuple) tuple

theorem Restores.congr {urec : UndoRecord} {offnum : Nat} {cur cur' oldtup : Bytes}
    (h : Restores urec offnum cur oldtup) (hsame : SameBody cur' cur)
    : Restores urec offnum cur' oldtup := { h with
  getTuple := by
    intro cur'' hsame'
    exact h.getTuple cur'' (hsame'.trans hsame) }

theorem Chain.congr {offnum : Nat} {cur cur' : Bytes}
    (h : Chain offnum cur stack) (hsame : SameBody cur' cur) : Chain offnum cur' stack := by
  cases stack with
  | nil => trivial
  | cons entry stack =>
    obtain ⟨hrestores, hle, hrest⟩ := h
    rw [← hsame.length] at hle
    exact ⟨hrestores.congr hsame, hle, hrest⟩

theorem Chain.olderTuple_eq {offnum : Nat} {cur : Bytes} {top rest : List Entry} {entry : Entry}
    (h : Chain offnum cur (top ++ rest)) (hlast : top.getLast? = some entry)
    : olderTuple cur top = restored entry.oldtup := by
  induction top generalizing cur with
  | nil => cases hlast
  | cons first top ih =>
    obtain ⟨hrestores, -, hwf, hrest⟩ := h
    rw [olderTuple, List.foldl_cons, hrestores.getTuple _ (SameBody.refl _)]
    cases top with
    | nil =>
      cases hlast
      rfl
    | cons => exact ih (hrest.congr (sameBody_restored hwf)) hlast

structure RollbackInv (s : RollbackState) : Prop where
  layout : s.page.Layout
  wellFormed : ∀ i, s.page.Stored i → WellFormed (s.page.rowData i)
  normal : ∀ i, s.pending i ≠ [] → s.Normal i
  chain : ∀ i, s.page.Stored i → Chain i (s.page.rowData i) (s.pending i)

namespace RollbackInv

variable {s : RollbackState} {offnum : Nat}

variable (h : RollbackInv s)
include h

theorem of_rowSet {page' : UPage} {tup : Bytes}
    (hset : RowSet s.page page' offnum tup) (hnormal : s.Normal offnum) (hwf : WellFormed tup)
    (hchain : Chain offnum tup stack) : RollbackInv (s.setStack page' offnum stack) where
  layout := hset.changed.layout
  wellFormed := by
    intro i hi
    by_cases hne : i = offnum
    . rw [hne]
      show WellFormed (page'.rowData offnum)
      rw [hset.rowData]
      exact hwf
    . have hi := (hset.changed.stored i hne).1 hi
      show WellFormed (page'.rowData i)
      rw [hset.changed.rowData i hne hi]
      exact h.wellFormed i hi
  normal := by
    intro i hi
    by_cases hne : i = offnum
    . rw [hne]
      refine ⟨hset.stored, ?_⟩
      show (page'.rowPtrs offnum).isNormal = true
      rw [RowPtr.isNormal, hset.flags]
      exact hnormal.2
    . simp only [RollbackState.setStack, if_neg hne] at hi
      obtain ⟨hstored, hflag⟩ := h.normal i hi
      refine ⟨(hset.changed.stored i hne).2 hstored, ?_⟩
      show (page'.rowPtrs i).isNormal = true
      rw [hset.changed.rowPtr i hne]
      exact hflag
  chain := by
    intro i hi
    by_cases hne : i = offnum
    . rw [hne]
      show Chain offnum (page'.rowData offnum) (if offnum = offnum then stack else s.pending offnum)
      rw [hset.rowData, if_pos rfl]
      exact hchain
    . have hi := (hset.changed.stored i hne).1 hi
      show Chain i (page'.rowData i) (if i = offnum then stack else s.pending i)
      rw [hset.changed.rowData i hne hi, if_neg hne]
      exact h.chain i hi

theorem stack_eq_nil (hnot : ¬ s.page.Stored offnum) : s.pending offnum = [] := by
  by_contra hne
  exact hnot (h.normal offnum hne).1

theorem length_lt (hi : s.page.Stored offnum) : (s.page.rowData offnum).length < 256 ^ sizeOfUint16 := by
  have hle := h.layout.len_le hi
  rw [UPage.length_rowData]
  exact Nat.lt_of_le_of_lt hle (by decide)

theorem setModified_push (hnormal : s.Normal offnum) {urec : UndoRecord} {delta : Int}
    (hhoff : header.tHoff = (diskTupleHeader (s.page.rowData offnum)).tHoff)
    (hrestores : Restores urec offnum (withHeader (s.page.rowData offnum) header) (s.page.rowData offnum))
    : RollbackInv (s.push offnum ((s.page.recordPotentialFreeSpace delta).setRowData offnum
          (withHeader (s.page.rowData offnum) header), urec)) := by
  have hwf := h.wellFormed offnum hnormal.1
  have hset := rowSet_withHeader (layout_record h.layout delta) hnormal.1 hwf hhoff
  apply h.of_rowSet { hset with changed := changed_of_record hset.changed } hnormal
  . exact (SameBody.of_withHeader hwf hhoff).symm.wellFormed hwf
  . exact ⟨hrestores, Nat.le_of_eq (SameBody.of_withHeader hwf hhoff).length.symm, hwf,
      h.chain offnum hnormal.1⟩

theorem updateInplace (hnormal : s.Normal offnum) {newtup : Bytes}
    (hnew : WellFormed newtup) (hfits : s.page.Fits offnum newtup.length) (tdSlot : UInt8)
    (tupleXid : UInt32) (subxid : Option Nat) (logicallyLogged : Bool)
    : RollbackInv (s.push offnum
        (uheapUpdateInplace s.page offnum newtup tdSlot tupleXid subxid logicallyLogged)) := by
  have hwf := h.wellFormed offnum hnormal.1
  unfold uheapUpdateInplace
  simp only
  generalize hheader : setModified (diskTupleHeader (s.page.rowData offnum)) tdSlot
    (uheapXidExclLock ||| uheapInplaceUpdated) tupleXid = header
  have hhoff : header.tHoff = (diskTupleHeader (s.page.rowData offnum)).tHoff := by
    rw [← hheader]
    rfl
  have hsame := SameBody.of_withHeader hwf hhoff
  have hput : WellFormed (putInplaceUpdateTuple (withHeader (s.page.rowData offnum) header) newtup) :=
    wellFormed_putInplaceUpdateTuple hnew
  have hlen : (putInplaceUpdateTuple (withHeader (s.page.rowData offnum) header) newtup).length =
      max (s.page.rowData offnum).length newtup.length := by
    rw [length_putInplaceUpdateTuple hnew, hsame.length]
  have hfits' : s.page.Fits offnum
      (putInplaceUpdateTuple (withHeader (s.page.rowData offnum) header) newtup).length := by
    rw [hlen]
    cases Nat.le_total (s.page.rowData offnum).length newtup.length with
    | inl hle =>
      rw [Nat.max_eq_right hle]
      exact hfits
    | inr hle =>
      rw [Nat.max_eq_left hle]
      exact fits_of_length_eq h.layout hnormal.1 rfl
  apply h.of_rowSet (rowSet_setRowData h.layout hnormal.1 hput hfits') hnormal hput
  refine ⟨?_, ?_, hwf, h.chain offnum hnormal.1⟩
  . apply restores_inplaceUpdate offnum subxid logicallyLogged hwf hput (h.length_lt hnormal.1)
    intro hcompressed
    apply sameBody_putInplaceUpdateTuple hnew
    rw [hsame.length]
    exact Nat.le_of_eq hcompressed.1.symm
  . rw [hlen]
    exact Nat.le_max_left ..

theorem addItem {maxTuples : Nat} {item : Bytes} {page' : UPage}
    (hitem : WellFormed item) (hadd : upageAddItem s.page maxTuples item = some (offnum, page'))
    : RollbackInv { s with page := page' } := by
  have hpos : 0 < item.length := Nat.lt_of_lt_of_le (by decide) hitem.le_length
  have hadded := AddItem.added_of_some h.layout hpos hadd
  have hnil := h.stack_eq_nil fun hstored => (hadded.kept_row hstored).1 rfl
  refine ⟨hadded.layout, ?_, ?_, ?_⟩
  . intro i hi
    by_cases hne : i = offnum
    . rw [hne]
      show WellFormed (page'.rowData offnum)
      rw [hadded.rowData]
      exact hitem
    . have hi := (hadded.stored_iff hne).1 hi
      show WellFormed (page'.rowData i)
      rw [(hadded.kept_row hi).2.2]
      exact h.wellFormed i hi
  . intro i hi
    have hne : i ≠ offnum := by
      intro heq
      rw [heq] at hi
      exact hi hnil
    obtain ⟨hstored_i, hflag⟩ := h.normal i hi
    refine ⟨(hadded.stored_iff hne).2 hstored_i, ?_⟩
    show (page'.rowPtrs i).isNormal = true
    rw [(hadded.kept_row hstored_i).2.1]
    exact hflag
  . intro i hi
    by_cases hne : i = offnum
    . rw [hne]
      show Chain offnum _ (s.pending offnum)
      rw [hnil]
      trivial
    . have hi := (hadded.stored_iff hne).1 hi
      show Chain i (page'.rowData i) (s.pending i)
      rw [(hadded.kept_row hi).2.2]
      exact h.chain i hi

theorem removeRow {rp : RowPtr} (hlen : rp.len = 0) (hstack : s.pending offnum = [])
    : RollbackInv { s with page := s.page.setRowPtr offnum rp } := by
  have hchanged : RowChanged s.page (s.page.setRowPtr offnum rp) offnum :=
    setRowPtr_empty_spec h.layout hlen
  have hne_of : ∀ i, (s.page.setRowPtr offnum rp).Stored i → i ≠ offnum := by
    intro i hi heq
    have hpos := hi.len_pos
    rw [heq] at hpos
    simp only [UPage.setRowPtr, if_pos, hlen] at hpos
    cases hpos
  refine ⟨hchanged.layout, ?_, ?_, ?_⟩
  . intro i hi
    have hne := hne_of i hi
    have hi := (hchanged.stored i hne).1 hi
    show WellFormed ((s.page.setRowPtr offnum rp).rowData i)
    rw [hchanged.rowData i hne hi]
    exact h.wellFormed i hi
  . intro i hi
    have hne : i ≠ offnum := by
      intro heq
      rw [heq] at hi
      exact hi hstack
    obtain ⟨hstored_i, hflag⟩ := h.normal i hi
    refine ⟨(hchanged.stored i hne).2 hstored_i, ?_⟩
    show ((s.page.setRowPtr offnum rp).rowPtrs i).isNormal = true
    rw [hchanged.rowPtr i hne]
    exact hflag
  . intro i hi
    have hne := hne_of i hi
    have hi := (hchanged.stored i hne).1 hi
    show Chain i ((s.page.setRowPtr offnum rp).rowData i) (s.pending i)
    rw [hchanged.rowData i hne hi]
    exact h.chain i hi

theorem touch (hnormal : s.Normal offnum)
    (hhoff : header.tHoff = (diskTupleHeader (s.page.rowData offnum)).tHoff)
    : RollbackInv
        { s with page := s.page.setRowData offnum (withHeader (s.page.rowData offnum) header) } := by
  have hwf := h.wellFormed offnum hnormal.1
  have hsame := SameBody.of_withHeader hwf hhoff
  have hkeep : s.setStack (s.page.setRowData offnum (withHeader (s.page.rowData offnum) header)) offnum
      (s.pending offnum) =
        { s with page := s.page.setRowData offnum (withHeader (s.page.rowData offnum) header) } := by
    simp only [RollbackState.setStack, RollbackState.mk.injEq, true_and]
    funext i
    split
    next heq => rw [heq]
    next => rfl
  rw [← hkeep]
  apply h.of_rowSet (rowSet_withHeader h.layout hnormal.1 hwf hhoff) hnormal
  . exact hsame.symm.wellFormed hwf
  . exact (h.chain offnum hnormal.1).congr hsame

theorem repair {targetOffnum spaceRequired : Nat} {page' : UPage}
    (htarget : targetOffnum = invalidOffsetNumber ∨ s.page.Stored targetOffnum)
    (hrepair : upageRepairFragmentation s.page targetOffnum spaceRequired = some page')
    : RollbackInv { s with page := page' } := by
  obtain ⟨hrepaired, -⟩ := upageRepairFragmentation_spec h.layout htarget hrepair
  refine ⟨hrepaired.layout, ?_, ?_, ?_⟩
  . intro i hi
    have hi := (hrepaired.stored i).1 hi
    show WellFormed (page'.rowData i)
    rw [hrepaired.rowData i hi]
    exact h.wellFormed i hi
  . intro i hi
    obtain ⟨hstored, hflag⟩ := h.normal i hi
    refine ⟨(hrepaired.stored i).2 hstored, ?_⟩
    show (page'.rowPtrs i).isNormal = true
    rw [RowPtr.isNormal, hrepaired.flags i hstored]
    exact hflag
  . intro i hi
    have hi := (hrepaired.stored i).1 hi
    show Chain i (page'.rowData i) (s.pending i)
    rw [hrepaired.rowData i hi]
    exact h.chain i hi

theorem copyTuple {entry : Entry} (hstack : s.pending offnum = entry :: stack)
    : WellFormed entry.oldtup ∧ Chain offnum (restored entry.oldtup) stack ∧
        ∃ page', copyTupleFromUndoRecord entry.urec s.page = some page' ∧
          RowSet s.page page' offnum (restored entry.oldtup) := by
  have hnormal := h.normal offnum (by rw [hstack]; exact List.cons_ne_nil _ _)
  have hchain := h.chain offnum hnormal.1
  rw [hstack] at hchain
  obtain ⟨hrestores, hle, hwf, hrest⟩ := hchain
  have hsame := sameBody_restored hwf
  refine ⟨hwf, hrest.congr hsame, ?_⟩
  have hset : RowSet s.page (s.page.setRowData offnum (restored entry.oldtup)) offnum
      (restored entry.oldtup) := by
    apply rowSet_setRowData h.layout hnormal.1 (hsame.symm.wellFormed hwf)
    apply (h.layout.fits offnum hnormal.1).mono
    apply shortAlign_mono
    rw [hsame.length, ← UPage.length_rowData]
    exact hle
  obtain ⟨delta, hcopy | hcopy⟩ := copyTupleFromUndoRecord_eq hrestores hnormal.1.1 hnormal.2
    (SameBody.refl _)
  . exact ⟨_, hcopy, changed_record hset.changed delta, hset.stored, hset.rowData, hset.flags⟩
  . exact ⟨_, hcopy, hset⟩

theorem undo {entry : Entry} {page' : UPage} (hstack : s.pending offnum = entry :: stack)
    (hcopy : copyTupleFromUndoRecord entry.urec s.page = some page')
    : RollbackInv (s.setStack page' offnum stack) := by
  have hnormal := h.normal offnum (by rw [hstack]; exact List.cons_ne_nil _ _)
  obtain ⟨hwf, hchain, page'', hcopy', hset⟩ := h.copyTuple hstack
  rw [hcopy] at hcopy'
  cases hcopy'
  exact h.of_rowSet hset hnormal ((sameBody_restored hwf).symm.wellFormed hwf) hchain

theorem undoAction {entry : Entry} {xact : UndoXact} (hstack : s.pending offnum = entry :: stack)
    (hslot : (diskTupleHeader entry.oldtup).tdId.toNat ≤ xact.slotXids.length)
    : ∃ page' tuple, uheapUndoAction s.page (entry.urec, xact) = some page'
      ∧ restoreXactFromUndoRecord xact (restored entry.oldtup) = some tuple ∧ SameBody tuple entry.oldtup
      ∧ RowSet s.page page' offnum tuple ∧ RollbackInv (s.setStack page' offnum stack) := by
  have hnormal := h.normal offnum (by rw [hstack]; exact List.cons_ne_nil _ _)
  have hchain := h.chain offnum hnormal.1
  rw [hstack] at hchain
  obtain ⟨hwf, hrest, page₁, hcopy, hset⟩ := h.copyTuple hstack
  have hbody := sameBody_restored hwf
  rw [← (header_eq_of_drop (drop_restored entry.oldtup)).2] at hslot
  obtain ⟨tuple, hrestore, hsame⟩ := restoreXactFromUndoRecord_spec (hbody.symm.wellFormed hwf) hslot
  have hwf' := (hsame.trans hbody).symm.wellFormed hwf
  have hset' := hset.trans (rowSet_setRowData hset.changed.layout hset.stored hwf'
    (fits_of_length_eq hset.changed.layout hset.stored (by rw [hset.rowData]; exact hsame.length)))
  refine ⟨_, tuple, ?_, hrestore, hsame.trans hbody, hset', ?_⟩
  . rw [← hset.rowData] at hrestore
    simp only [uheapUndoAction, hchain.1.offset, hcopy, Option.bind_eq_bind, Option.bind_some, hrestore]
    rfl
  . exact h.of_rowSet hset' hnormal hwf' (hrest.congr hsame)

-- The header in which the row on the page differs from a reader's tuple is written over by the next record.
theorem undoActions {undos : List (Entry × UndoXact)} {rest : List Entry}
    (hstack : s.pending offnum = undos.map Prod.fst ++ rest)
    (hslots : ∀ undo ∈ undos, (diskTupleHeader undo.1.oldtup).tdId.toNat ≤ undo.2.slotXids.length)
    : ∃ page', uheapUndoActions s.page (undos.map fun undo => (undo.1.urec, undo.2)) = some page'
      ∧ (∀ undo, undos.getLast? = some undo →
        restoreXactFromUndoRecord undo.2 (restored undo.1.oldtup) = some (page'.rowData offnum)
          ∧ SameBody (page'.rowData offnum) undo.1.oldtup)
      ∧ ∀ i, i ≠ offnum → page'.rowPtrs i = s.page.rowPtrs i ∧
        (s.page.Stored i → page'.rowData i = s.page.rowData i) := by
  induction undos generalizing s with
  | nil => exact ⟨s.page, rfl, nofun, fun _ _ => ⟨rfl, fun _ => rfl⟩⟩
  | cons undo undos ih =>
    obtain ⟨page₁, tuple, haction, hrestore, hsame, hset, hinv⟩ :=
      h.undoAction hstack (hslots undo List.mem_cons_self)
    rw [← hset.rowData] at hrestore hsame
    obtain ⟨page', hactions, hlast, hother⟩ := ih hinv (if_pos rfl)
      fun later hlater => hslots later (List.mem_cons_of_mem undo hlater)
    refine ⟨page', ?_, ?_, ?_⟩
    . rw [uheapUndoActions, List.map_cons, List.foldlM_cons, haction]
      exact hactions
    . intro last hmem
      cases undos with
      | nil =>
        cases hmem
        cases hactions
        exact ⟨hrestore, hsame⟩
      | cons => exact hlast last hmem
    . intro i hne
      have ⟨hptr, hdata⟩ := hother i hne
      refine ⟨hptr.trans (hset.changed.rowPtr i hne), ?_⟩
      intro hstored
      rw [hdata ((hset.changed.stored i hne).2 hstored)]
      exact hset.changed.rowData i hne hstored

theorem step {s' : RollbackState} (hstep : RollbackStep s s') : RollbackInv s' := by
  cases hstep with
  | delete offnum tdSlot tupleXid subxid changingPart hnormal =>
    unfold uheapDelete
    simp only
    apply h.setModified_push hnormal
    . split
      . rfl
      . rfl
    . exact restores_delete ..
  | updateInplace offnum newtup tdSlot tupleXid subxid logicallyLogged hnormal hnew hfits =>
    exact h.updateInplace hnormal hnew hfits ..
  | update offnum ctid tdSlot tupleXid subxid hnormal hctid =>
    exact h.setModified_push hnormal rfl (restores_update offnum subxid _ hctid)
  | addItem maxTuples item offnum page' hitem hadd => exact h.addItem hitem hadd
  | removeRow offnum rp hlen hstack => exact h.removeRow hlen hstack
  | touch offnum header hnormal hhoff => exact h.touch hnormal hhoff
  | repair targetOffnum spaceRequired page' htarget hrepair => exact h.repair htarget hrepair
  | undo offnum entry stack page' hstack hcopy => exact h.undo hstack hcopy

theorem run {s' : RollbackState} (hrun : Relation.ReflTransGen RollbackStep s s')
    : RollbackInv s' := by
  induction hrun with
  | refl => exact h
  | tail _ hstep ih => exact ih.step hstep

end RollbackInv

theorem rollbackInv_init {page : UPage} (hlayout : page.Layout)
    (hwf : ∀ i, page.Stored i → WellFormed (page.rowData i)) : RollbackInv ⟨page, fun _ => []⟩ where
  layout := hlayout
  wellFormed := hwf
  normal := by
    intro i hi
    exact absurd rfl hi
  chain := by
    intro i _
    trivial

theorem copyTupleFromUndoRecord_restores {page : UPage} (hlayout : page.Layout)
    (hwf : ∀ i, page.Stored i → WellFormed (page.rowData i)) {s : RollbackState}
    (hrun : Relation.ReflTransGen RollbackStep ⟨page, fun _ => []⟩ s) {offnum : Nat} {entry : Entry}
    {stack : List Entry} (hstack : s.pending offnum = entry :: stack)
    : ∃ page', copyTupleFromUndoRecord entry.urec s.page = some page' ∧
        (page'.rowPtrs offnum).len = entry.oldtup.length ∧
        (page'.rowData offnum).drop offsetTdId = entry.oldtup.drop offsetTdId ∧
        ∀ i, i ≠ offnum → page'.rowPtrs i = s.page.rowPtrs i ∧
          (s.page.Stored i → page'.rowData i = s.page.rowData i) := by
  have hinv := (rollbackInv_init hlayout hwf).run hrun
  obtain ⟨hold, -, page', hcopy, hset⟩ := hinv.copyTuple hstack
  refine ⟨page', hcopy, ?_, ?_, ?_⟩
  . rw [← UPage.length_rowData, hset.rowData, length_restored hold]
  . rw [hset.rowData, drop_restored]
  . intro i hne
    exact ⟨hset.changed.rowPtr i hne, hset.changed.rowData i hne⟩

theorem uheapUndoActions_agrees_with_readers {page : UPage} (hlayout : page.Layout)
    (hwf : ∀ i, page.Stored i → WellFormed (page.rowData i)) {s : RollbackState}
    (hrun : Relation.ReflTransGen RollbackStep ⟨page, fun _ => []⟩ s) {offnum : Nat}
    {undos : List (Entry × UndoXact)} {rest : List Entry}
    (hstack : s.pending offnum = undos.map Prod.fst ++ rest)
    (hslots : ∀ undo ∈ undos, (diskTupleHeader undo.1.oldtup).tdId.toNat ≤ undo.2.slotXids.length)
    : ∃ page', uheapUndoActions s.page (undos.map fun undo => (undo.1.urec, undo.2)) = some page'
      ∧ (∀ undo, undos.getLast? = some undo →
        restoreXactFromUndoRecord undo.2 (olderTuple (s.page.rowData offnum) (undos.map Prod.fst))
            = some (page'.rowData offnum)
          ∧ SameBody (page'.rowData offnum) undo.1.oldtup)
      ∧ ∀ i, i ≠ offnum → page'.rowPtrs i = s.page.rowPtrs i ∧
        (s.page.Stored i → page'.rowData i = s.page.rowData i) := by
  have hinv := (rollbackInv_init hlayout hwf).run hrun
  obtain ⟨page', hactions, hlast, hother⟩ := hinv.undoActions hstack hslots
  refine ⟨page', hactions, ?_, hother⟩
  intro undo hundo
  have hpending : s.pending offnum ≠ [] := by
    rw [hstack]
    intro hnil
    rw [List.append_eq_nil_iff, List.map_eq_nil_iff] at hnil
    rw [hnil.1] at hundo
    cases hundo
  have hchain := hinv.chain offnum (hinv.normal offnum hpending).1
  rw [hstack] at hchain
  rw [hchain.olderTuple_eq (by rw [List.getLast?_map, hundo]; rfl)]
  exact hlast undo hundo

section TwoRows

def twoRowsPage : UPage where
  bytes := fun k => if k = 8162 ∨ k = 8182 then 11 else 0
  hasFreeLinePointers := false
  pdLower := 80
  pdUpper := 8152
  pdSpecial := 8192
  potentialFreespace := 8072
  tdCount := 1
  rowPtrs := fun i => if i = 1 then ⟨8172, .normal, 20⟩ else if i = 2 then ⟨8152, .normal, 20⟩ else .unused

theorem twoRowsPage_stored {i : Nat} (h : twoRowsPage.Stored i) : i = 1 ∨ i = 2 := by
  have hlow := h.1
  have hhigh : i ≤ 2 := h.2.1
  omega

theorem twoRowsPage_layout : twoRowsPage.Layout := by
  refine ⟨by decide, by decide, by decide, by decide, ?_, ?_⟩
  . intro i hi
    rcases twoRowsPage_stored hi with rfl | rfl
    . decide
    . decide
  . intro i hi
    rcases twoRowsPage_stored hi with rfl | rfl
    all_goals
      refine ⟨by decide, ?_⟩
      intro j hj hne
      rcases twoRowsPage_stored hj with rfl | rfl
      all_goals revert hne; decide

theorem twoRowsPage_wellFormed (i : Nat) (h : twoRowsPage.Stored i) : WellFormed (twoRowsPage.rowData i) := by
  rcases twoRowsPage_stored h with rfl | rfl
  . exact ⟨by decide, by decide⟩
  . exact ⟨by decide, by decide⟩

def tupleWith (x : UInt8) : Bytes := [0, 0, 0, 0, 0, 0, 0, 0, 0, 0, 11, 0, 0, 0, 0, x, 0, 0, 0, 0]

-- The second row is deleted, the first one updated twice.
def deletedRow : RollbackState :=
  RollbackState.push ⟨twoRowsPage, fun _ => []⟩ 2 (uheapDelete twoRowsPage 2 1 5 none false)

def updatedRow : RollbackState :=
  deletedRow.push 1 (uheapUpdateInplace deletedRow.page 1 (tupleWith 7) 1 5 none false)

def updatedTwice : RollbackState :=
  updatedRow.push 1 (uheapUpdateInplace updatedRow.page 1 (tupleWith 8) 1 6 (some 3) false)

theorem run_updatedTwice : Relation.ReflTransGen RollbackStep ⟨twoRowsPage, fun _ => []⟩ updatedTwice := by
  have hinit := rollbackInv_init twoRowsPage_layout twoRowsPage_wellFormed
  have hdeleted : Relation.ReflTransGen RollbackStep ⟨twoRowsPage, fun _ => []⟩ deletedRow :=
    .single (.delete _ 2 1 5 none false ⟨⟨by decide, by decide, by decide, by decide⟩, by decide⟩)
  have hnormal : deletedRow.Normal 1 := ⟨⟨by decide, by decide, by decide, by decide⟩, by decide⟩
  have hupdated := hdeleted.tail (.updateInplace deletedRow 1 (tupleWith 7) 1 5 none false hnormal
    ⟨by decide, by decide⟩ ((hinit.run hdeleted).layout.fits 1 hnormal.1))
  have hnormal' : updatedRow.Normal 1 := ⟨⟨by decide, by decide, by decide, by decide⟩, by decide⟩
  exact hupdated.tail (.updateInplace updatedRow 1 (tupleWith 8) 1 6 (some 3) false hnormal'
    ⟨by decide, by decide⟩ ((hinit.run hupdated).layout.fits 1 hnormal'.1))

def firstUpdate : Entry :=
  ⟨(uheapUpdateInplace deletedRow.page 1 (tupleWith 7) 1 5 none false).2, deletedRow.page.rowData 1⟩

def secondUpdate : Entry :=
  ⟨(uheapUpdateInplace updatedRow.page 1 (tupleWith 8) 1 6 (some 3) false).2, updatedRow.page.rowData 1⟩

theorem copyTupleFromUndoRecord_restores_twoRows
    : ∃ page', copyTupleFromUndoRecord secondUpdate.urec updatedTwice.page = some page'
      ∧ (page'.rowPtrs 1).len = 20
      ∧ (page'.rowData 1).drop sizeOfUHeapDiskTupleData = (tupleWith 7).drop sizeOfUHeapDiskTupleData
      ∧ page'.rowData 2 = updatedTwice.page.rowData 2 := by
  have hstack : updatedTwice.pending 1 = secondUpdate :: [firstUpdate] := rfl
  obtain ⟨page', hcopy, hlen, hdata, hothers⟩ :=
    copyTupleFromUndoRecord_restores twoRowsPage_layout twoRowsPage_wellFormed run_updatedTwice hstack
  refine ⟨page', hcopy, hlen.trans rfl, ?_, (hothers 2 (by decide)).2 ⟨by decide, by decide, by decide, by decide⟩⟩
  have hsplit : sizeOfUHeapDiskTupleData = offsetTdId + 7 := rfl
  rw [hsplit, ← List.drop_drop, hdata]
  decide

-- The old version of the second update is marked, since its slot has been reused; the first one is frozen.
theorem uheapUndoActions_agrees_with_readers_twoRows
    : ∃ page', uheapUndoActions updatedTwice.page [(secondUpdate.urec, ⟨7, [9]⟩), (firstUpdate.urec, ⟨2, [9]⟩)]
          = some page'
      ∧ restoreXactFromUndoRecord ⟨2, [9]⟩ (olderTuple (updatedTwice.page.rowData 1) [secondUpdate, firstUpdate])
          = some (page'.rowData 1)
      ∧ SameBody (page'.rowData 1) (twoRowsPage.rowData 1)
      ∧ page'.rowData 2 = updatedTwice.page.rowData 2 := by
  have hstack : updatedTwice.pending 1
      = [(secondUpdate, (⟨7, [9]⟩ : UndoXact)), (firstUpdate, ⟨2, [9]⟩)].map Prod.fst ++ [] := rfl
  obtain ⟨page', hactions, hlast, hothers⟩ := uheapUndoActions_agrees_with_readers twoRowsPage_layout
    twoRowsPage_wellFormed run_updatedTwice hstack (by decide)
  obtain ⟨hrestore, hsame⟩ := hlast _ rfl
  exact ⟨page', hactions, hrestore, hsame, (hothers 2 (by decide)).2 ⟨by decide, by decide, by decide, by decide⟩⟩

end TwoRows

end Runs

end Ustore

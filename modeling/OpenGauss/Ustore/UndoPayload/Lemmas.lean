import OpenGauss.Ustore.UndoPayload.Impl

/-!
This module shows that the payload of an undo record gives the old tuple back, at the level of one
tuple.
-/

open List LittleEndian

namespace Ustore

variable {subxid : Option Nat} {tup : Bytes} (header : UHeapDiskTupleHeader) {offnum : Nat}
variable {n : Nat} {tup' as : Bytes} {delta : XorDelta} (oldtup : Bytes)

structure WellFormed (tup : Bytes) : Prop where
  le_tHoff : sizeOfUHeapDiskTupleData ≤ tHoff tup
  tHoff_le : tHoff tup ≤ tup.length

namespace WellFormed

theorem le_length (h : WellFormed tup) : sizeOfUHeapDiskTupleData ≤ tup.length :=
  Nat.le_trans h.le_tHoff h.tHoff_le

theorem offsetTdId_le (h : WellFormed tup) : offsetTdId ≤ tHoff tup := by
  have := h.le_tHoff
  simp only [sizeOfUHeapDiskTupleData, offsetTdId] at *
  omega

end WellFormed

section Header

@[simp]
theorem length_toBytes_header : (Layout.toBytes header).length = sizeOfUHeapDiskTupleData :=
  Layout.length_toBytes header

@[simp]
theorem diskTupleHeader_append (tail : Bytes) : diskTupleHeader (Layout.toBytes header ++ tail) = header := by
  rw [diskTupleHeader, take_left' (length_toBytes_header header), Layout.ofBytes_toBytes]

@[simp]
theorem drop_header_append (tail : Bytes)
    : (Layout.toBytes header ++ tail).drop sizeOfUHeapDiskTupleData = tail :=
  drop_left' (length_toBytes_header header)

@[simp]
theorem diskTupleHeader_withHeader (tup : Bytes) (header : UHeapDiskTupleHeader)
    : diskTupleHeader (withHeader tup header) = header :=
  diskTupleHeader_append ..

@[simp]
theorem drop_withHeader (tup : Bytes) (header : UHeapDiskTupleHeader)
    : (withHeader tup header).drop sizeOfUHeapDiskTupleData = tup.drop sizeOfUHeapDiskTupleData :=
  drop_header_append ..

theorem length_withHeader (h : WellFormed tup) (header : UHeapDiskTupleHeader)
    : (withHeader tup header).length = tup.length := by
  have := h.le_length
  rw [withHeader, length_append, length_toBytes_header, length_drop]
  omega

end Header

-- What the payload of an update in place depends on: all but the fields of the header before `t_hoff`.
structure SameBody (tup tup' : Bytes) : Prop where
  length : tup.length = tup'.length
  tHoff : tHoff tup = tHoff tup'
  drop : tup.drop sizeOfUHeapDiskTupleData = tup'.drop sizeOfUHeapDiskTupleData

namespace SameBody

theorem refl (tup : Bytes) : SameBody tup tup := ⟨rfl, rfl, rfl⟩

theorem symm (h : SameBody tup tup') : SameBody tup' tup :=
  ⟨h.length.symm, h.tHoff.symm, h.drop.symm⟩

theorem trans {tup'' : Bytes} (h : SameBody tup tup') (h' : SameBody tup' tup'') : SameBody tup tup'' :=
  ⟨h.length.trans h'.length, h.tHoff.trans h'.tHoff, h.drop.trans h'.drop⟩

theorem wellFormed (h : SameBody tup tup') (hwf : WellFormed tup)
    : WellFormed tup' := by
  have hlow := hwf.le_tHoff
  have hhigh := hwf.tHoff_le
  rw [h.tHoff] at hlow hhigh
  rw [h.length] at hhigh
  exact ⟨hlow, hhigh⟩

theorem userData_eq (h : SameBody tup tup') (hwf : WellFormed tup) : userData tup = userData tup' := by
  have hlow := hwf.le_tHoff
  obtain ⟨k, hk⟩ := Nat.exists_eq_add_of_le hlow
  rw [userData, userData, ← h.tHoff, hk, ← drop_drop, ← drop_drop, h.drop]

theorem of_withHeader (hwf : WellFormed tup) {header : UHeapDiskTupleHeader}
    (h : header.tHoff = (diskTupleHeader tup).tHoff) : SameBody (withHeader tup header) tup where
  length := length_withHeader hwf header
  tHoff := by
    rw [Ustore.tHoff, diskTupleHeader_withHeader, h, Ustore.tHoff]
  drop := drop_withHeader ..

end SameBody

section Put

variable {oldtup newtup : Bytes}

theorem length_putInplaceUpdateTuple (hnew : WellFormed newtup)
    : (putInplaceUpdateTuple oldtup newtup).length = max oldtup.length newtup.length := by
  have := hnew.le_length
  simp only [putInplaceUpdateTuple, length_append, length_toBytes_header, length_drop]
  omega

theorem tHoff_putInplaceUpdateTuple : tHoff (putInplaceUpdateTuple oldtup newtup) = tHoff newtup := by
  rw [tHoff, putInplaceUpdateTuple, append_assoc, diskTupleHeader_append, tHoff]

theorem wellFormed_putInplaceUpdateTuple (hnew : WellFormed newtup)
    : WellFormed (putInplaceUpdateTuple oldtup newtup) := by
  refine ⟨?_, ?_⟩
  . rw [tHoff_putInplaceUpdateTuple]
    exact hnew.le_tHoff
  . rw [tHoff_putInplaceUpdateTuple, length_putInplaceUpdateTuple hnew]
    exact Nat.le_trans hnew.tHoff_le (Nat.le_max_right ..)

theorem sameBody_putInplaceUpdateTuple (hnew : WellFormed newtup) (hle : oldtup.length ≤ newtup.length)
    : SameBody (putInplaceUpdateTuple oldtup newtup) newtup where
  length := by
    rw [length_putInplaceUpdateTuple hnew, Nat.max_eq_right hle]
  tHoff := tHoff_putInplaceUpdateTuple
  drop := by
    rw [putInplaceUpdateTuple, append_assoc, drop_header_append, drop_eq_nil_of_le hle, append_nil]

end Put

section Compression

theorem commonLen_le (bound : Nat) (as bs : Bytes)
    : commonLen bound as bs ≤ bound ∧ commonLen bound as bs ≤ as.length ∧
        commonLen bound as bs ≤ bs.length := by
  induction bound, as, bs using commonLen.induct with
  | case1 bound b as bs ih =>
    simp only [commonLen, if_true, length_cons]
    omega
  | case2 bound a as b bs hne =>
    simp only [commonLen, if_neg hne]
    omega
  | case3 bound as bs hne =>
    rw [commonLen]
    . omega
    . exact hne

theorem take_commonLen (bound : Nat) (as bs : Bytes)
    : as.take (commonLen bound as bs) = bs.take (commonLen bound as bs) := by
  induction bound, as, bs using commonLen.induct with
  | case1 bound b as bs ih =>
    simp only [commonLen, if_true, take_succ_cons, ih]
  | case2 bound a as b bs hne =>
    simp only [commonLen, if_neg hne, take_zero]
  | case3 bound as bs hne =>
    rw [commonLen]
    . rw [take_zero, take_zero]
    . exact hne

theorem savingLen_le (len : Nat) : savingLen len ≤ len := by
  unfold savingLen
  split
  . exact Nat.zero_le _
  . exact Nat.le_refl _

theorem take_of_take_eq {bs : Bytes} {m : Nat} (h : as.take n = bs.take n) (hle : m ≤ n)
    : as.take m = bs.take m := by
  have hm := congrArg (List.take m) h
  rw [take_take, take_take, Nat.min_eq_left hle] at hm
  exact hm

structure Delta (oldtup newtup : Bytes) (delta : XorDelta) : Prop where
  le : delta.prefixlen + delta.suffixlen ≤ (userData oldtup).length
  take : (userData oldtup).take delta.prefixlen = (userData newtup).take delta.prefixlen
  drop : (userData oldtup).drop ((userData oldtup).length - delta.suffixlen) =
    (userData newtup).drop ((userData newtup).length - delta.suffixlen)
  le_new : delta.prefixlen + delta.suffixlen ≤ (userData newtup).length

theorem delta_zero (newtup : Bytes) : Delta oldtup newtup ⟨0, 0⟩ := by
  refine ⟨Nat.zero_le _, ?_, ?_, Nat.zero_le _⟩
  . rw [take_zero, take_zero]
  . rw [Nat.sub_zero, Nat.sub_zero, drop_length, drop_length]

theorem drop_of_take_reverse {bs : Bytes} (h : as.reverse.take n = bs.reverse.take n)
    : as.drop (as.length - n) = bs.drop (bs.length - n) := by
  rw [take_reverse, take_reverse] at h
  exact reverse_injective h

theorem xorDelta_spec (newtup : Bytes) (logicallyLogged : Bool)
    : Delta oldtup newtup (xorDelta oldtup newtup logicallyLogged) := by
  unfold xorDelta
  split
  next =>
    have hpre := commonLen_le (min (userData oldtup).length (userData newtup).length)
      (userData oldtup) (userData newtup)
    have hpre_saving := savingLen_le (commonLen
      (min (userData oldtup).length (userData newtup).length) (userData oldtup) (userData newtup))
    generalize hstartlen : savingLen (commonLen
      (min (userData oldtup).length (userData newtup).length) (userData oldtup) (userData newtup)) =
        prefixlen at hpre_saving
    have hsuf := commonLen_le (min (userData oldtup).length (userData newtup).length - prefixlen)
      (userData oldtup).reverse (userData newtup).reverse
    have hsuf_saving := savingLen_le (commonLen
      (min (userData oldtup).length (userData newtup).length - prefixlen)
      (userData oldtup).reverse (userData newtup).reverse)
    refine ⟨?_, ?_, ?_, ?_⟩
    . simp only [hstartlen]
      omega
    . simp only [hstartlen]
      exact take_of_take_eq (take_commonLen _ _ _) hpre_saving
    . simp only [hstartlen]
      apply drop_of_take_reverse
      exact take_of_take_eq (take_commonLen _ _ _) hsuf_saving
    . simp only [hstartlen]
      omega
  next => exact delta_zero oldtup newtup

end Compression

section Payload

theorem flags_prefix (delta : XorDelta)
    : (delta.flags &&& urecInplaceUpdateXorPrefix != 0) = decide (0 < delta.prefixlen) := by
  unfold XorDelta.flags
  by_cases hp : 0 < delta.prefixlen
  . by_cases hs : 0 < delta.suffixlen
    . simp only [if_pos hp, if_pos hs, decide_eq_true hp]
      rfl
    . simp only [if_pos hp, if_neg hs, decide_eq_true hp]
      rfl
  . by_cases hs : 0 < delta.suffixlen
    . simp only [if_neg hp, if_pos hs, decide_eq_false hp]
      rfl
    . simp only [if_neg hp, if_neg hs, decide_eq_false hp]
      rfl

theorem flags_suffix (delta : XorDelta)
    : (delta.flags &&& urecInplaceUpdateXorSuffix != 0) = decide (0 < delta.suffixlen) := by
  unfold XorDelta.flags
  by_cases hp : 0 < delta.prefixlen
  . by_cases hs : 0 < delta.suffixlen
    . simp only [if_pos hp, if_pos hs, decide_eq_true hs]
      rfl
    . simp only [if_pos hp, if_neg hs, decide_eq_false hs]
      rfl
  . by_cases hs : 0 < delta.suffixlen
    . simp only [if_neg hp, if_pos hs, decide_eq_true hs]
      rfl
    . simp only [if_neg hp, if_neg hs, decide_eq_false hs]
      rfl

def lengthBytes (n : Nat) : Bytes := if 0 < n then LittleEndian.encode sizeOfUint16 n else []

theorem read_lengthBytes {front tail undoData : Bytes} {pos : Nat}
    (hraw : undoData = front ++ (lengthBytes n ++ tail)) (hpos : front.length = pos)
    (hn : n < 256 ^ sizeOfUint16) : (if 0 < n then readUint16 undoData pos else 0) = n := by
  split
  next h =>
    rw [hraw, readUint16, drop_left' hpos, lengthBytes, if_pos h,
      take_left' (length_encode ..), decode_encode_of_lt hn]
  next h => omega

theorem length_append_lengthBytes {front : Bytes} {pos : Nat} (hpos : front.length = pos)
    : (front ++ lengthBytes n).length = if 0 < n then pos + sizeOfUint16 else pos := by
  rw [length_append, hpos, lengthBytes]
  split
  . rw [length_encode]
  . rfl

theorem oldDisktuple_of_parts {urec : UndoRecord} {hoff : UInt8} {head middle subxid : Bytes}
    (diskTuple : Bytes)
    (hraw : urec.rawdata =
      [hoff] ++ head ++ [delta.flags] ++ delta.lengths ++ middle ++ subxid)
    (hhoff : offsetTdId ≤ hoff.toNat) (hhead : head.length = hoff.toNat - offsetTdId)
    (hsubxid : subxid.length = if urec.containSubXact then sizeOfSubTransactionId else 0)
    (hpreLen : delta.prefixlen < 256 ^ sizeOfUint16) (hsuffix : delta.suffixlen < 256 ^ sizeOfUint16)
    : oldDisktuple urec diskTuple =
        frozenShortXid ++ head ++ (diskTuple.drop (tHoff diskTuple)).take delta.prefixlen ++ middle ++
          (diskTuple.drop (diskTuple.length - delta.suffixlen)).take delta.suffixlen := by
  have hlengths : delta.lengths = lengthBytes delta.prefixlen ++ lengthBytes delta.suffixlen := rfl
  have hget0 : urec.rawdata.getD 0 0 = hoff := by
    rw [hraw]
    rfl
  have hflags : urec.rawdata.getD (1 + hoff.toNat - offsetTdId) 0 = delta.flags := by
    have hlen : ([hoff] ++ head).length = 1 + hoff.toNat - offsetTdId := by
      simp only [length_append, length_singleton, hhead]
      omega
    rw [hraw, append_assoc, append_assoc, append_assoc, ← hlen,
      getD_append_right _ _ _ _ (Nat.le_refl _), Nat.sub_self]
    rfl
  have hheadRead : (urec.rawdata.drop 1).take (hoff.toNat - offsetTdId) = head := by
    rw [hraw]
    simp only [cons_append, nil_append, drop_succ_cons, drop_zero, append_assoc]
    exact take_left' hhead
  have hfront : ([hoff] ++ head ++ [delta.flags]).length = 1 + hoff.toNat - offsetTdId + 1 := by
    simp only [length_append, length_singleton, hhead]
    omega
  have hfront' := length_append_lengthBytes (n := delta.prefixlen) hfront
  have hfront'' := length_append_lengthBytes (n := delta.suffixlen) hfront'
  have hraw₁ : urec.rawdata = [hoff] ++ head ++ [delta.flags] ++
      (lengthBytes delta.prefixlen ++ (lengthBytes delta.suffixlen ++ (middle ++ subxid))) := by
    rw [hraw, hlengths]
    simp
  have hraw₂ : urec.rawdata = [hoff] ++ head ++ [delta.flags] ++ lengthBytes delta.prefixlen ++
      (lengthBytes delta.suffixlen ++ (middle ++ subxid)) := by
    rw [hraw₁]
    simp
  have hraw₃ : urec.rawdata = [hoff] ++ head ++ [delta.flags] ++ lengthBytes delta.prefixlen ++
      lengthBytes delta.suffixlen ++ (middle ++ subxid) := by
    rw [hraw₁]
    simp
  have hread₁ := read_lengthBytes hraw₁ hfront hpreLen
  have hread₂ := read_lengthBytes hraw₂ hfront' hsuffix
  unfold oldDisktuple
  simp only [hget0, hflags, flags_prefix, flags_suffix, decide_eq_true_eq, hheadRead, hread₁]
  generalize (if 0 < delta.prefixlen then 1 + hoff.toNat - offsetTdId + 1 + sizeOfUint16
    else 1 + hoff.toNat - offsetTdId + 1) = readSize at *
  simp only [hread₂]
  generalize (if 0 < delta.suffixlen then readSize + sizeOfUint16 else readSize) = readSize' at *
  have hmiddle : (urec.rawdata.drop readSize').take (urec.rawdata.length - readSize' -
      if urec.containSubXact = true then sizeOfSubTransactionId else 0) = middle := by
    rw [hraw₃, drop_left' hfront'', ← hsubxid]
    apply take_left'
    rw [length_append, hfront'', length_append]
    omega
  rw [hmiddle]

theorem length_subxidBytes (subxid : Option Nat)
    : (subxidBytes subxid).length = if subxid.isSome then sizeOfSubTransactionId else 0 := by
  cases subxid with
  | none => rfl
  | some subxid => exact length_encode ..

-- The tuple that a record gives back: the old one, with the frozen transaction id.
def restored (oldtup : Bytes) : Bytes := frozenShortXid ++ oldtup.drop offsetTdId

theorem length_frozenShortXid : frozenShortXid.length = offsetTdId := length_encode ..

theorem drop_restored : (restored oldtup).drop offsetTdId = oldtup.drop offsetTdId :=
  drop_left' length_frozenShortXid

theorem length_restored {oldtup : Bytes} (h : WellFormed oldtup)
    : (restored oldtup).length = oldtup.length := by
  have hlen := h.le_length
  simp only [sizeOfUHeapDiskTupleData] at hlen
  rw [restored, length_append, length_frozenShortXid, length_drop, offsetTdId]
  omega

theorem take_append_middle_append_drop {m : Nat} (h : m + n ≤ as.length)
    : as.take m ++ (as.drop m).take (as.length - m - n) ++ as.drop (as.length - n) = as := by
  have hsplit : (as.drop m).take (as.length - m - n) ++ as.drop (as.length - n) = as.drop m := by
    have hdrop : as.drop (as.length - n) = (as.drop m).drop (as.length - m - n) := by
      rw [drop_drop]
      congr 1
      omega
    rw [hdrop, take_append_drop]
  rw [append_assoc, hsplit, take_append_drop]

variable {oldtup newtup cur : Bytes}

theorem drop_offsetTdId_eq (h : WellFormed oldtup)
    : oldtup.drop offsetTdId = (oldtup.take (tHoff oldtup)).drop offsetTdId ++ userData oldtup := by
  have hle := h.offsetTdId_le
  have hlen := h.tHoff_le
  have hsplit : oldtup = oldtup.take (tHoff oldtup) ++ userData oldtup := by
    rw [userData, take_append_drop]
  conv => lhs; rw [hsplit]
  rw [drop_append_of_le_length]
  rw [length_take]
  omega

theorem take_drop_self : (as.drop (as.length - n)).take n = as.drop (as.length - n) := by
  apply take_of_length_le
  rw [length_drop]
  omega

theorem oldDisktuple_of_delta {urec : UndoRecord}
    (hold : WellFormed oldtup) (hcur : WellFormed cur) (hlen : oldtup.length < 256 ^ sizeOfUint16)
    (hraw : urec.rawdata =
      [(diskTupleHeader oldtup).tHoff] ++ (oldtup.take (tHoff oldtup)).drop offsetTdId ++
        [delta.flags] ++ delta.lengths ++
        ((userData oldtup).drop delta.prefixlen).take
          ((userData oldtup).length - delta.prefixlen - delta.suffixlen) ++ subxidBytes subxid)
    (hsubxid : urec.containSubXact = subxid.isSome) (hdelta : Delta oldtup cur delta)
    : oldDisktuple urec cur = restored oldtup := by
  have hhoff := hold.offsetTdId_le
  have hhigh := hold.tHoff_le
  have hdata : (userData oldtup).length ≤ oldtup.length := by
    rw [userData, length_drop]
    omega
  have hle := hdelta.le
  rw [oldDisktuple_of_parts cur hraw]
  . have hfront : (cur.drop (tHoff cur)).take delta.prefixlen =
        (userData oldtup).take delta.prefixlen := hdelta.take.symm
    have hback : (cur.drop (cur.length - delta.suffixlen)).take delta.suffixlen =
        (userData oldtup).drop ((userData oldtup).length - delta.suffixlen) := by
      rw [take_drop_self, hdelta.drop, userData, drop_drop, length_drop]
      have hnew := hdelta.le_new
      have hcurHigh := hcur.tHoff_le
      rw [userData, length_drop] at hnew
      congr 1
      omega
    rw [hfront, hback, restored, drop_offsetTdId_eq hold]
    conv => rhs; rw [← take_append_middle_append_drop hle]
    simp
  . exact hhoff
  . rw [length_drop, length_take, Nat.min_eq_left hhigh]
    rfl
  . rw [length_subxidBytes, hsubxid]
  . omega
  . omega

def Compressed (oldtup newtup : Bytes) (logicallyLogged : Bool) : Prop :=
  newtup.length = oldtup.length ∧ (!logicallyLogged) = true

theorem delta_congr (h : Delta oldtup newtup delta)
    (heq : userData newtup = userData cur) : Delta oldtup cur delta := by
  refine ⟨h.le, ?_, ?_, ?_⟩
  . rw [← heq]
    exact h.take
  . rw [← heq]
    exact h.drop
  . rw [← heq]
    exact h.le_new

theorem oldDisktuple_prepare {logicallyLogged : Bool}
    (hold : WellFormed oldtup) (hcur : WellFormed cur) (hlen : oldtup.length < 256 ^ sizeOfUint16)
    (hbody : Compressed oldtup newtup logicallyLogged → SameBody cur newtup)
    : oldDisktuple (prepareUndoInplaceUpdate oldtup newtup offnum subxid logicallyLogged) cur =
        restored oldtup := by
  apply oldDisktuple_of_delta hold hcur hlen rfl rfl
  by_cases hcompressed : Compressed oldtup newtup logicallyLogged
  . apply delta_congr (xorDelta_spec oldtup newtup logicallyLogged)
    exact ((hbody hcompressed).userData_eq hcur).symm
  . have hzero : xorDelta oldtup newtup logicallyLogged = ⟨0, 0⟩ := if_neg hcompressed
    rw [hzero]
    exact delta_zero ..

theorem extraDataLen_delete
    : extraDataLen (prepareUndoDelete oldtup offnum subxid) = (subxidBytes subxid).length := by
  have hutype : ¬ (prepareUndoDelete oldtup offnum subxid).utype = UndoType.update := by
    intro h
    cases h
  rw [length_subxidBytes, extraDataLen, if_neg hutype, Nat.zero_add]
  rfl

theorem extraDataLen_update {ctid : Bytes} (hctid : ctid.length = sizeOfItemPointerData)
    : extraDataLen (prepareUndoUpdate oldtup offnum ctid subxid) =
        (ctid ++ subxidBytes subxid).length := by
  rw [length_append, length_subxidBytes, hctid, extraDataLen,
    if_pos (show (prepareUndoUpdate oldtup offnum ctid subxid).utype = UndoType.update from rfl)]
  rfl

theorem take_rawdata_delete : (prepareUndoDelete oldtup offnum subxid).rawdata.take
        ((prepareUndoDelete oldtup offnum subxid).rawdata.length -
          extraDataLen (prepareUndoDelete oldtup offnum subxid))
      =
    oldtup.drop offsetTdId := by
  rw [extraDataLen_delete, prepareUndoDelete]
  apply take_left'
  rw [length_append]
  omega

theorem take_rawdata_update {ctid : Bytes} (hctid : ctid.length = sizeOfItemPointerData)
    : (prepareUndoUpdate oldtup offnum ctid subxid).rawdata.take
          ((prepareUndoUpdate oldtup offnum ctid subxid).rawdata.length -
            extraDataLen (prepareUndoUpdate oldtup offnum ctid subxid))
        =
      oldtup.drop offsetTdId := by
  rw [extraDataLen_update hctid, prepareUndoUpdate, append_assoc]
  apply take_left'
  rw [length_append]
  omega

end Payload

end Ustore

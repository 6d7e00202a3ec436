import OpenGauss.Ustore.UndoRecord.Load

/-!
This module contains how undo records are laid out one after another and how the walk goes back from one
record to the one before it, from `knl_uundorecord.cpp`, `knl_uundoapi.cpp` and `knl_uundotype.h`.
-/

open List Layout

namespace Undo

variable (urp : UInt64)

def undoLogOffsetBits : UInt64 := 44

def undoPtrGetZoneId (urp : UInt64) : UInt64 := urp >>> undoLogOffsetBits

def makeUndoPtr (zid offset : UInt64) : UInt64 := (zid <<< undoLogOffsetBits) ||| offset

def undoPtrGetOffset (urp : UInt64) : UInt64 := urp &&& ((1 <<< undoLogOffsetBits) - 1)

def undoPtrGetPageOffset (urp : UInt64) : UInt64 := undoPtrGetOffset urp % 8192

def undoPtrGetBlockNum (urp : UInt64) : UInt64 := undoPtrGetOffset urp / 8192

section Prepare

def advanceUndoPtr (undoPtr : UInt64) (size : UInt16) : UInt64 :=
  let oldInsert := undoPtrGetOffset undoPtr
  let newInsert := UInt64.ofNat (undoLogOffsetPlusUsableBytes oldInsert.toNat size.toNat)
  makeUndoPtr (undoPtrGetZoneId undoPtr) newInsert

def prepareAll (undoPtr : UInt64) : List UndoRecord → List UInt64
  | [] => []
  | r :: rs => undoPtr :: prepareAll (advanceUndoPtr undoPtr r.recordSize) rs

def insertPreparedUndo (log : UndoLog) : List (UndoRecord × UInt64) → Option UndoLog
  | [] => some log
  | (r, urp) :: rest => do
    let w ← r.insertPrepared log (undoPtrGetOffset urp).toNat
    insertPreparedUndo w.log rest

end Prepare

section Prevurp

-- `prevLen` holds the bytes read so far; `pageOffset` is not 0. Every byte takes one turn, and one more
-- where a page begins.
def getPrevRecordLen.go (log : UndoLog) : Nat → Nat → Nat → Nat → Bytes → Option Bytes
  | _, _, _, 0, prevLen => some prevLen
  | 0, _, _, _ + 1, _ => none
  | turns + 1, blk, pageOffset, byteToRead + 1, prevLen =>
    let pageOffset := pageOffset - 1
    if undoLogBlockHeaderSize ≤ pageOffset then
      go log turns blk pageOffset byteToRead (log (blk * blcksz + pageOffset) :: prevLen)
    else
      go log turns (blk - 1) blcksz (byteToRead + 1) prevLen

-- `log` is the undo log of the zone of `currUrp`.
def getPrevRecordLen (log : UndoLog) (currUrp : UInt64) : Option UInt16 := do
  let pageOffset := undoPtrGetPageOffset currUrp
  let prevLen ← getPrevRecordLen.go log 4 (undoPtrGetBlockNum currUrp).toNat pageOffset.toNat 2 []
  let precRecLen : UInt16 := Layout.ofBytes prevLen
  let precRecLen :=
    if undoPtrGetPageOffset currUrp - 24 < precRecLen.toUInt64 then precRecLen + 24 else precRecLen
  if precRecLen = 0 then none else some precRecLen

def prevurp (r : UndoRecord) (log : UndoLog) (currUrp : UInt64) : Option UInt64 :=
  if r.wtxn.prevurp ≠ 0 then
    some r.wtxn.prevurp
  else
    (getPrevRecordLen log currUrp).map fun prevLen =>
      makeUndoPtr (undoPtrGetZoneId currUrp) (undoPtrGetOffset currUrp - prevLen.toUInt64)

end Prevurp

section Pointers

theorem undoPtrGetZoneId_toNat : (undoPtrGetZoneId urp).toNat = urp.toNat / 2 ^ 44 := by
  have hbits : undoLogOffsetBits.toNat % 64 = 44 := rfl
  rw [undoPtrGetZoneId, UInt64.toNat_shiftRight, hbits, Nat.shiftRight_eq_div_pow]

theorem undoPtrGetOffset_toNat : (undoPtrGetOffset urp).toNat = urp.toNat % 2 ^ 44 := by
  have hmask : ((1 <<< undoLogOffsetBits : UInt64) - 1).toNat = 2 ^ 44 - 1 := rfl
  rw [undoPtrGetOffset, UInt64.toNat_and, hmask, Nat.and_two_pow_sub_one_eq_mod]

theorem undoPtrGetZoneId_lt : (undoPtrGetZoneId urp).toNat < 2 ^ 20 := by
  have hlt := urp.toNat_lt
  rw [undoPtrGetZoneId_toNat]
  omega

theorem undoPtrGetOffset_lt : (undoPtrGetOffset urp).toNat < 2 ^ 44 := by
  rw [undoPtrGetOffset_toNat]
  omega

theorem makeUndoPtr_toNat {zid offset : UInt64} (hzid : zid.toNat < 2 ^ 20) (hoffset : offset.toNat < 2 ^ 44)
    : (makeUndoPtr zid offset).toNat = zid.toNat * 2 ^ 44 + offset.toNat := by
  have hbits : undoLogOffsetBits.toNat % 64 = 44 := rfl
  rw [makeUndoPtr, UInt64.toNat_or, UInt64.toNat_shiftLeft, hbits, Nat.shiftLeft_eq,
    Nat.mod_eq_of_lt (by omega), ← Nat.shiftLeft_eq, Nat.shiftLeft_add_eq_or_of_lt hoffset]

theorem undoPtrGetZoneId_makeUndoPtr {zid offset : UInt64} (hzid : zid.toNat < 2 ^ 20)
    (hoffset : offset.toNat < 2 ^ 44)
    : undoPtrGetZoneId (makeUndoPtr zid offset) = zid := by
  apply UInt64.toNat_inj.mp
  rw [undoPtrGetZoneId_toNat, makeUndoPtr_toNat hzid hoffset]
  omega

theorem undoPtrGetOffset_makeUndoPtr {zid offset : UInt64} (hzid : zid.toNat < 2 ^ 20)
    (hoffset : offset.toNat < 2 ^ 44)
    : undoPtrGetOffset (makeUndoPtr zid offset) = offset := by
  apply UInt64.toNat_inj.mp
  rw [undoPtrGetOffset_toNat, makeUndoPtr_toNat hzid hoffset]
  omega

theorem makeUndoPtr_eta : makeUndoPtr (undoPtrGetZoneId urp) (undoPtrGetOffset urp) = urp := by
  apply UInt64.toNat_inj.mp
  rw [makeUndoPtr_toNat (undoPtrGetZoneId_lt urp) (undoPtrGetOffset_lt urp), undoPtrGetZoneId_toNat,
    undoPtrGetOffset_toNat]
  omega

theorem undoPtrGetPageOffset_toNat
    : (undoPtrGetPageOffset urp).toNat = (undoPtrGetOffset urp).toNat % blcksz := by
  rw [undoPtrGetPageOffset, UInt64.toNat_mod]
  rfl

theorem undoPtrGetBlockNum_toNat
    : (undoPtrGetBlockNum urp).toNat = (undoPtrGetOffset urp).toNat / blcksz := by
  rw [undoPtrGetBlockNum, UInt64.toNat_div]
  rfl

end Pointers

section Backward

theorem fromUsable_pred (u : Nat) (hpos : 0 < u)
    (hin : undoLogBlockHeaderSize ≤ undoLogOffsetFromUsableByteNo u % blcksz - 1)
    : undoLogOffsetFromUsableByteNo (u - 1) / blcksz = undoLogOffsetFromUsableByteNo u / blcksz
        ∧ undoLogOffsetFromUsableByteNo (u - 1) % blcksz = undoLogOffsetFromUsableByteNo u % blcksz - 1 := by
  simp only [undoLogOffsetFromUsableByteNo, undoLogUsableBytesPerPage, undoLogBlockHeaderSize, blcksz] at *
  omega

theorem fromUsable_pred_page (u : Nat) (hpos : 0 < u)
    (hout : ¬ undoLogBlockHeaderSize ≤ undoLogOffsetFromUsableByteNo u % blcksz - 1)
    : undoLogOffsetFromUsableByteNo (u - 1) / blcksz = undoLogOffsetFromUsableByteNo u / blcksz - 1
        ∧ undoLogOffsetFromUsableByteNo (u - 1) % blcksz = blcksz - 1 := by
  simp only [undoLogOffsetFromUsableByteNo, undoLogUsableBytesPerPage, undoLogBlockHeaderSize, blcksz] at *
  omega

theorem getPrevRecordLen_go_succ (log : UndoLog) (turns u n : Nat) (prevLen : Bytes) (hpos : 0 < u)
    : ∃ left, turns ≤ left
        ∧ getPrevRecordLen.go log (turns + 2) (undoLogOffsetFromUsableByteNo u / blcksz)
            (undoLogOffsetFromUsableByteNo u % blcksz) (n + 1) prevLen
          =
          getPrevRecordLen.go log left (undoLogOffsetFromUsableByteNo (u - 1) / blcksz)
            (undoLogOffsetFromUsableByteNo (u - 1) % blcksz) n
            (log (undoLogOffsetFromUsableByteNo (u - 1)) :: prevLen) := by
  have hoffset := Nat.div_add_mod' (undoLogOffsetFromUsableByteNo (u - 1)) blcksz
  by_cases hin : undoLogBlockHeaderSize ≤ undoLogOffsetFromUsableByteNo u % blcksz - 1
  . obtain ⟨hdiv, hmod⟩ := fromUsable_pred u hpos hin
    refine ⟨turns + 1, Nat.le_succ turns, ?_⟩
    rw [getPrevRecordLen.go, if_pos hin, ← hdiv, ← hmod, hoffset]
  . obtain ⟨hdiv, hmod⟩ := fromUsable_pred_page u hpos hin
    refine ⟨turns, Nat.le_refl turns, ?_⟩
    rw [getPrevRecordLen.go, if_neg hin, getPrevRecordLen.go, if_pos (by decide), ← hdiv, ← hmod, hoffset]

theorem getPrevRecordLen_go_spec (log : UndoLog) (n u turns : Nat) (prevLen : Bytes) (hn : n ≤ u)
    (hturns : 2 * n ≤ turns)
    : getPrevRecordLen.go log turns (undoLogOffsetFromUsableByteNo u / blcksz)
          (undoLogOffsetFromUsableByteNo u % blcksz) n prevLen
        =
      some ((List.range n).map (fun i => log (undoLogOffsetFromUsableByteNo (u - n + i))) ++ prevLen) := by
  induction n generalizing u turns prevLen with
  | zero =>
    unfold getPrevRecordLen.go
    simp
  | succ n ih =>
    have htwo : 2 ≤ turns := by omega
    obtain ⟨turns, rfl⟩ := Nat.exists_eq_add_of_le' htwo
    obtain ⟨left, hleft, hgo⟩ := getPrevRecordLen_go_succ log turns u n prevLen (by omega)
    have hlast : u - (n + 1) + n = u - 1 := by omega
    have hfirst : u - 1 - n = u - (n + 1) := by omega
    rw [hgo, ih (u - 1) left _ (by omega) (by omega), range_succ, map_append, hfirst]
    simp [hlast]

theorem content_undoLen (r : UndoRecord) (h : r.recordBytes < 2 ^ 16)
    : (List.range 2).map (fun i => r.content.getD (r.recordBytes - 2 + i) 0) =
      toBytes r.recordSize := by
  have hlen := UndoRecord.length_content r h
  have hge := UndoRecord.recordBytes_ge r
  obtain ⟨front, hfront⟩ : ∃ front, r.content = front ++ toBytes r.recordSize := by
    obtain ⟨parts, hparts⟩ : ∃ parts, r.parts r.recordSize = parts ++ [toBytes r.recordSize] :=
      ⟨_, rfl⟩
    refine ⟨parts.flatten, ?_⟩
    rw [UndoRecord.content, hparts, flatten_append, flatten_singleton]
  have htail := UndoRecord.length_undoLen r.recordSize
  have hsplit : r.recordBytes - 2 = front.length := by
    rw [← hlen, hfront, length_append, htail]
    omega
  rw [hsplit, hfront]
  apply ext_getElem
  . simp [htail]
  . intro i hi hi'
    simp [getD_eq_getElem?_getD, getElem?_append_right, getElem?_eq_getElem hi']

theorem fromUsable_sub (u size : Nat) (hpos : 0 < size) (hsize : size ≤ undoLogUsableBytesPerPage)
    : undoLogOffsetFromUsableByteNo u
        =
      undoLogOffsetFromUsableByteNo (u + size)
        - (if undoLogOffsetFromUsableByteNo (u + size) % blcksz - undoLogBlockHeaderSize < size then
            size + undoLogBlockHeaderSize else size) := by
  by_cases hcross : undoLogOffsetFromUsableByteNo (u + size) % blcksz - undoLogBlockHeaderSize < size
  . rw [if_pos hcross]
    simp only [undoLogOffsetFromUsableByteNo, undoLogUsableBytesPerPage, undoLogBlockHeaderSize, blcksz] at *
    omega
  . rw [if_neg hcross]
    simp only [undoLogOffsetFromUsableByteNo, undoLogUsableBytesPerPage, undoLogBlockHeaderSize, blcksz] at *
    omega

theorem ofBytes_toBytes_uint16 (a : UInt16) : ofBytes (toBytes a) = a :=
    ofBytes_toBytes a

variable {log : UndoLog} {r : UndoRecord} {u : Nat} {urp : UInt64}

theorem getPrevRecordLen_spec (hlog : LogHolds log r u) (hsize : r.recordBytes ≤ undoLogUsableBytesPerPage)
    (hurp : (undoPtrGetOffset urp).toNat = undoLogOffsetFromUsableByteNo (u + r.recordBytes))
    : ∃ prevLen, getPrevRecordLen log urp = some prevLen
        ∧ prevLen.toNat
          =
          if undoLogOffsetFromUsableByteNo (u + r.recordBytes) % blcksz - undoLogBlockHeaderSize
              < r.recordBytes then
            r.recordBytes + undoLogBlockHeaderSize else r.recordBytes := by
  have hlt : r.recordBytes < 2 ^ 16 := Nat.lt_of_le_of_lt hsize (by decide)
  have hge := UndoRecord.recordBytes_ge r
  have hnat := UndoRecord.recordSize_toNat r hlt
  have hpage := undoPtrGetPageOffset_toNat urp
  have hread : getPrevRecordLen.go log 4 (undoPtrGetBlockNum urp).toNat (undoPtrGetPageOffset urp).toNat 2 []
      = some (toBytes r.recordSize) := by
    rw [undoPtrGetBlockNum_toNat, hpage, hurp,
      getPrevRecordLen_go_spec log 2 (u + r.recordBytes) 4 [] (by omega) (by omega), append_nil,
      ← content_undoLen r hlt]
    congr 1
    apply map_congr_left
    intro i hi
    have hi := mem_range.mp hi
    have hbyte := hlog (r.recordBytes - 2 + i) (by rw [UndoRecord.length_content r hlt]; omega)
    rw [← hbyte]
    congr 2
    omega
  have hcmp : undoPtrGetPageOffset urp - 24 < r.recordSize.toUInt64
      ↔ undoLogOffsetFromUsableByteNo (u + r.recordBytes) % blcksz - undoLogBlockHeaderSize
          < r.recordBytes := by
    have hheader : (24 : UInt64) ≤ undoPtrGetPageOffset urp := by
      rw [UInt64.le_iff_toNat_le, hpage, hurp]
      exact fromUsable_mod _
    rw [UInt64.lt_iff_toNat_lt, UInt64.toNat_sub_of_le _ _ hheader, hpage, hurp, UInt16.toNat_toUInt64, hnat]
    rfl
  simp only [getPrevRecordLen, hread, Option.bind_eq_bind, Option.bind_some, ofBytes_toBytes_uint16, hcmp]
  split
  . have hsum : (r.recordSize + 24).toNat = r.recordBytes + undoLogBlockHeaderSize := by
      rw [UInt16.toNat_add, hnat]
      apply Nat.mod_eq_of_lt
      exact Nat.lt_of_le_of_lt (Nat.add_le_add_right hsize 24) (by decide)
    have hne : r.recordSize + 24 ≠ 0 := by
      intro hzero
      rw [hzero] at hsum
      exact absurd hsum (by simp; omega)
    exact ⟨_, if_neg hne, hsum⟩
  . have hne : r.recordSize ≠ 0 := by
      intro hzero
      rw [hzero] at hnat
      exact absurd hnat (by simp; omega)
    exact ⟨_, if_neg hne, hnat⟩

end Backward

section Laid

def usablePtr (zid : UInt64) (u : Nat) : UInt64 :=
  makeUndoPtr zid (UInt64.ofNat (undoLogOffsetFromUsableByteNo u))

variable {zid : UInt64} {u v : Nat}

theorem ofNat_fromUsable_toNat (h : undoLogOffsetFromUsableByteNo u < 2 ^ 44)
    : (UInt64.ofNat (undoLogOffsetFromUsableByteNo u)).toNat = undoLogOffsetFromUsableByteNo u := by
  apply UInt64.toNat_ofNat_of_lt'
  exact Nat.lt_trans h (by decide)

theorem undoPtrGetOffset_usablePtr (hzid : zid.toNat < 2 ^ 20) (h : undoLogOffsetFromUsableByteNo u < 2 ^ 44)
    : (undoPtrGetOffset (usablePtr zid u)).toNat = undoLogOffsetFromUsableByteNo u := by
  have hnat := ofNat_fromUsable_toNat h
  rw [usablePtr, undoPtrGetOffset_makeUndoPtr hzid (by rw [hnat]; exact h), hnat]

theorem undoPtrGetZoneId_usablePtr (hzid : zid.toNat < 2 ^ 20) (h : undoLogOffsetFromUsableByteNo u < 2 ^ 44)
    : undoPtrGetZoneId (usablePtr zid u) = zid := by
  apply undoPtrGetZoneId_makeUndoPtr hzid
  rw [ofNat_fromUsable_toNat h]
  exact h

theorem fromUsable_mono (h : u ≤ v)
    : undoLogOffsetFromUsableByteNo u ≤ undoLogOffsetFromUsableByteNo v := by
  simp only [undoLogOffsetFromUsableByteNo, undoLogUsableBytesPerPage, undoLogBlockHeaderSize, blcksz]
  omega

theorem prevurp_spec (rec : UndoRecord) (hexplicit : rec.wtxn.prevurp = 0) {log : UndoLog} {r : UndoRecord}
    (hzid : zid.toNat < 2 ^ 20) (hlog : LogHolds log r u)
    (hsize : r.recordBytes ≤ undoLogUsableBytesPerPage)
    (hend : undoLogOffsetFromUsableByteNo (u + r.recordBytes) < 2 ^ 44)
    : prevurp rec log (usablePtr zid (u + r.recordBytes)) = some (usablePtr zid u) := by
  have hoffset := undoPtrGetOffset_usablePtr hzid hend
  have hzone := undoPtrGetZoneId_usablePtr hzid hend
  obtain ⟨prevLen, hprev, hlen⟩ := getPrevRecordLen_spec hlog hsize hoffset
  have hback := fromUsable_sub u r.recordBytes (Nat.lt_of_lt_of_le (by decide) r.recordBytes_ge) hsize
  have hle : prevLen.toNat ≤ undoLogOffsetFromUsableByteNo (u + r.recordBytes) := by
    have hpos : undoLogBlockHeaderSize ≤ undoLogOffsetFromUsableByteNo u := by
      apply Nat.le_trans (fromUsable_mod u)
      apply Nat.mod_le
    have hpos : 0 < undoLogOffsetFromUsableByteNo u := Nat.lt_of_lt_of_le (by decide) hpos
    rw [hlen]
    omega
  have hlePtr : prevLen.toUInt64 ≤ undoPtrGetOffset (usablePtr zid (u + r.recordBytes)) := by
    rw [UInt64.le_iff_toNat_le, UInt16.toNat_toUInt64, hoffset]
    exact hle
  have hsub : undoPtrGetOffset (usablePtr zid (u + r.recordBytes)) - prevLen.toUInt64
      = UInt64.ofNat (undoLogOffsetFromUsableByteNo u) := by
    apply UInt64.toNat_inj.mp
    rw [UInt64.toNat_sub_of_le _ _ hlePtr, hoffset, UInt16.toNat_toUInt64, hlen, ← hback,
      ofNat_fromUsable_toNat]
    omega
  rw [prevurp, if_neg (by simp [hexplicit]), hprev, Option.map_some, hzone, hsub]
  rfl

theorem advanceUndoPtr_usablePtr (r : UndoRecord) (hzid : zid.toNat < 2 ^ 20) (hsize : r.recordBytes < 2 ^ 16)
    (hend : undoLogOffsetFromUsableByteNo u < 2 ^ 44)
    : advanceUndoPtr (usablePtr zid u) r.recordSize = usablePtr zid (u + r.recordBytes) := by
  rw [advanceUndoPtr, undoPtrGetOffset_usablePtr hzid hend, undoPtrGetZoneId_usablePtr hzid hend,
    UndoRecord.recordSize_toNat r hsize, undoLogOffsetPlusUsableBytes, toUsable_fromUsable, usablePtr]

theorem writeUsable_before (log : UndoLog) (bs : Bytes) (h : v < u)
    : writeUsable log u bs (undoLogOffsetFromUsableByteNo v) = log (undoLogOffsetFromUsableByteNo v) := by
  rw [writeUsable, toUsable_fromUsable, if_neg]
  omega

theorem logHolds_of_eq {log log' : UndoLog} {r : UndoRecord} (hlog : LogHolds log r u)
    (heq : ∀ v < u + r.content.length,
      log' (undoLogOffsetFromUsableByteNo v) = log (undoLogOffsetFromUsableByteNo v))
    : LogHolds log' r u := by
  intro i hi
  rw [heq (u + i) (by omega), hlog i hi]

def usedBytes (rs : List UndoRecord) : Nat := (rs.map (·.recordBytes)).sum

theorem insertPreparedUndo_spec (hzid : zid.toNat < 2 ^ 20) (rs : List UndoRecord) (u : Nat) (log : UndoLog)
    (hsize : ∀ r ∈ rs, r.recordBytes ≤ undoLogUsableBytesPerPage)
    (hend : undoLogOffsetFromUsableByteNo (u + usedBytes rs) < 2 ^ 44)
    : ∃ log', insertPreparedUndo log (rs.zip (prepareAll (usablePtr zid u) rs)) = some log'
        ∧ (∀ v < u, log' (undoLogOffsetFromUsableByteNo v) = log (undoLogOffsetFromUsableByteNo v))
        ∧ ∀ k r, rs[k]? = some r → LogHolds log' r (u + usedBytes (rs.take k))
            ∧ (prepareAll (usablePtr zid u) rs)[k]? = some (usablePtr zid (u + usedBytes (rs.take k))) := by
  induction rs generalizing u log with
  | nil => exact ⟨log, rfl, fun v _ => rfl, by simp⟩
  | cons r rs ih =>
    have hr := hsize r mem_cons_self
    have hlt : r.recordBytes < 2 ^ 16 := Nat.lt_of_le_of_lt hr (by decide)
    have hlen := UndoRecord.length_content r hlt
    have hused : usedBytes (r :: rs) = r.recordBytes + usedBytes rs := rfl
    rw [hused, ← Nat.add_assoc] at hend
    have hstart : undoLogOffsetFromUsableByteNo u < 2 ^ 44 :=
      Nat.lt_of_le_of_lt (fromUsable_mono (by omega)) hend
    have hoffset := undoPtrGetOffset_usablePtr hzid hstart
    obtain ⟨w, hw, hwlog, _, _⟩ := UndoRecord.insertPrepared_spec r log
      (undoLogOffsetFromUsableByteNo u) hlt (fromUsable_mod u)
    rw [toUsable_fromUsable] at hwlog
    obtain ⟨log', hrest, hbefore, hholds⟩ := ih (u + r.recordBytes) w.log
      (fun r hmem => hsize r (mem_cons_of_mem _ hmem)) hend
    refine ⟨log', ?_, ?_, ?_⟩
    . rw [prepareAll, zip_cons_cons, insertPreparedUndo, hoffset, hw,
        advanceUndoPtr_usablePtr r hzid hlt hstart]
      exact hrest
    . intro v hv
      rw [hbefore v (by omega), hwlog, writeUsable_before log _ hv]
    . intro k r' hk
      rw [prepareAll, advanceUndoPtr_usablePtr r hzid hlt hstart]
      cases k with
      | zero =>
        have hfirst : r = r' := by simpa using hk
        subst hfirst
        have hzero : u + usedBytes ((r :: rs).take 0) = u := rfl
        rw [hzero]
        refine ⟨?_, by simp⟩
        have hfirst := logHolds_writeUsable log r (undoLogOffsetFromUsableByteNo u)
        rw [toUsable_fromUsable, ← hwlog] at hfirst
        apply logHolds_of_eq hfirst
        intro v hv
        exact hbefore v (by omega)
      | succ k =>
        have hsucc : u + usedBytes ((r :: rs).take (k + 1)) = u + r.recordBytes + usedBytes (rs.take k) :=
          (Nat.add_assoc ..).symm
        rw [hsucc, getElem?_cons_succ]
        exact hholds k r' (by simpa using hk)

theorem length_prepareAll (undoPtr : UInt64) (rs : List UndoRecord)
    : (prepareAll undoPtr rs).length = rs.length := by
  induction rs generalizing undoPtr with
  | nil => rfl
  | cons r rs ih => simp [prepareAll, ih]

theorem prevurp_prepareAll (log : UndoLog) (undoPtr : UInt64) (rs : List UndoRecord)
    (hstart : undoLogBlockHeaderSize ≤ (undoPtrGetPageOffset undoPtr).toNat)
    (hsize : ∀ r ∈ rs, r.recordBytes ≤ undoLogUsableBytesPerPage)
    (hend : undoLogOffsetPlusUsableBytes (undoPtrGetOffset undoPtr).toNat (usedBytes rs) < 2 ^ 44)
    : ∃ log', insertPreparedUndo log (rs.zip (prepareAll undoPtr rs)) = some log'
        ∧ ∀ k prev curr, (prepareAll undoPtr rs)[k]? = some prev →
            (prepareAll undoPtr rs)[k + 1]? = some curr →
            ∀ rec : UndoRecord, rec.wtxn.prevurp = 0 → prevurp rec log' curr = some prev := by
  rw [undoPtrGetPageOffset_toNat] at hstart
  have hback := fromUsable_toUsable _ hstart
  have hptr : undoPtr = usablePtr (undoPtrGetZoneId undoPtr)
      (undoLogOffsetToUsableByteNo (undoPtrGetOffset undoPtr).toNat) := by
    rw [usablePtr, hback, UInt64.ofNat_toNat, makeUndoPtr_eta]
  have hzid := undoPtrGetZoneId_lt undoPtr
  rw [undoLogOffsetPlusUsableBytes] at hend
  generalize undoPtrGetZoneId undoPtr = zid at hptr hzid
  generalize undoLogOffsetToUsableByteNo (undoPtrGetOffset undoPtr).toNat = u at hptr hend
  subst hptr
  obtain ⟨log', hlog', _, hlaid⟩ := insertPreparedUndo_spec hzid rs u log hsize hend
  refine ⟨log', hlog', ?_⟩
  intro k prev curr hprev hcurr rec hexplicit
  have hlen := length_prepareAll (usablePtr zid u) rs
  have hk : k + 1 < rs.length := by
    rw [← hlen]
    exact (List.getElem?_eq_some_iff.mp hcurr).1
  have hr : rs[k]? = some rs[k] := List.getElem?_eq_getElem (by omega)
  obtain ⟨hholds, hkth⟩ := hlaid k rs[k] hr
  obtain ⟨_, hnext⟩ := hlaid (k + 1) rs[k + 1] (List.getElem?_eq_getElem hk)
  have htake : usedBytes (rs.take (k + 1)) = usedBytes (rs.take k) + rs[k].recordBytes := by
    rw [List.take_add_one, hr, usedBytes, List.map_append, List.sum_append]
    rfl
  have hle : usedBytes (rs.take (k + 1)) ≤ usedBytes rs := by
    rw [usedBytes, List.map_take]
    exact List.Sublist.sum_le_sum (List.take_sublist _ _) (fun _ _ => Nat.zero_le _)
  rw [hprev] at hkth
  rw [hcurr] at hnext
  rw [Option.some.inj hkth, Option.some.inj hnext, htake, ← Nat.add_assoc]
  apply prevurp_spec rec hexplicit hzid hholds (hsize _ (List.getElem_mem ..))
  rw [Nat.add_assoc, ← htake]
  exact Nat.lt_of_le_of_lt (fromUsable_mono (Nat.add_le_add_left hle u)) hend

theorem prevurp_prepareAll_crossing
    : undoLogBlockHeaderSize ≤ (undoPtrGetPageOffset 8126).toNat
        ∧ (∀ r ∈ [crossingRecord, crossingRecord], r.recordBytes ≤ undoLogUsableBytesPerPage)
        ∧ undoLogOffsetPlusUsableBytes (undoPtrGetOffset 8126).toNat
            (usedBytes [crossingRecord, crossingRecord]) < 2 ^ 44
        ∧ prepareAll 8126 [crossingRecord, crossingRecord] = [8126, 8217]
        ∧ ∃ log', insertPreparedUndo (fun _ => 0) ([crossingRecord, crossingRecord].zip
              (prepareAll 8126 [crossingRecord, crossingRecord])) = some log'
          ∧ prevurp UndoRecord.reset log' 8217 = some 8126 := by
  have hptrs : prepareAll 8126 [crossingRecord, crossingRecord] = [8126, 8217] := by decide
  obtain ⟨log', hlog', hprev⟩ :=
    prevurp_prepareAll (fun _ => 0) 8126 [crossingRecord, crossingRecord] (by decide) (by decide) (by decide)
  refine ⟨by decide, by decide, by decide, hptrs, log', hlog', ?_⟩
  apply hprev 0 8126 8217
  . rw [hptrs]
    rfl
  . rw [hptrs]
    rfl
  . rfl

end Laid

end Undo

import OpenGauss.Xlog.Copy.Impl
import OpenGauss.Xlog.Position.Lemmas

/-!
This module contains the verification of the copying of a record.
-/

open List Function

namespace Xlog

variable {seg : Segment}

section Order

variable {spot spot' : Spot seg}

theorem Spot.segno_le (h : spot.bytePos ≤ spot'.bytePos) : spot.segno ≤ spot'.segno := by
  rw [← spot.bytePos_div, ← spot'.bytePos_div]
  exact Nat.div_le_div_right h

theorem Spot.recPtr_lt_endRecPtr (h : spot.bytePos < spot'.bytePos) : spot.recPtr < spot'.endRecPtr := by
  have hoff := spot.off_lt
  have hoff' := spot'.off_lt
  rcases Nat.lt_or_eq_of_le (Spot.segno_le (Nat.le_of_lt h)) with hsegno | hsegno
  . have hmul := Nat.mul_le_mul_right (xLogSegSize seg) (Nat.succ_le_of_lt hsegno)
    have hlt := spot.recPtr_lt
    have hle : spot'.segno * xLogSegSize seg ≤ spot'.endRecPtr := by
      unfold Spot.endRecPtr Spot.recPtr Spot.pagePtr
      split <;> omega
    exact Nat.lt_of_lt_of_le hlt (Nat.le_trans hmul hle)
  . unfold Spot.bytePos at h
    rw [hsegno] at h
    unfold Spot.endRecPtr Spot.recPtr Spot.pagePtr
    rw [hsegno]
    unfold pageHeader pageBytePos usableBytesInPage xLogBlcksz sizeOfXLogLongPHD sizeOfXLogShortPHD at *
    split_ifs at h hoff hoff' ⊢ <;> omega

theorem Spot.eq_of_bytePos (h : spot.bytePos = spot'.bytePos) : spot = spot' := by
  have hsegno : spot.segno = spot'.segno :=
    Nat.le_antisymm (Spot.segno_le (Nat.le_of_eq h)) (Spot.segno_le (by omega))
  have hoff := spot.off_lt
  have hoff' := spot'.off_lt
  unfold Spot.bytePos at h
  rw [hsegno] at h
  have hplace : spot.page = spot'.page ∧ spot.off = spot'.off := by
    unfold pageHeader pageBytePos usableBytesInPage xLogBlcksz sizeOfXLogLongPHD sizeOfXLogShortPHD at *
    split_ifs at h hoff hoff' <;> omega
  cases spot
  cases spot'
  obtain ⟨rfl, rfl⟩ := hplace
  obtain rfl := hsegno
  rfl

theorem Spot.recPtr_eq_add {n : Nat} (hle : spot.bytePos ≤ spot'.bytePos)
    (hlt : spot'.bytePos < spot.bytePos + n)
    (hn : n ≤ insertFreespace spot.recPtr)
    : spot'.recPtr = spot.recPtr + (spot'.bytePos - spot.bytePos) := by
  rw [insertFreespace_recPtr] at hn
  have hoff : spot.off + (spot'.bytePos - spot.bytePos) + pageHeader spot.page < xLogBlcksz := by omega
  have heq : spot' = ⟨spot.segno, spot.page, _, spot.page_lt, hoff⟩ := by
    apply Spot.eq_of_bytePos
    unfold Spot.bytePos at *
    dsimp only
    omega
  rw [heq]
  unfold Spot.recPtr Spot.pagePtr Spot.bytePos
  dsimp only
  omega

end Order

section Positions

/-- The size of the header of the page that holds a position. -/
def pageHeaderAt (seg : Segment) (ptr : Nat) : Nat :=
  if ptr % xLogSegSize seg < xLogBlcksz then sizeOfXLogLongPHD else sizeOfXLogShortPHD

theorem pageHeaderAt_pagePtr_add (spot : Spot seg) {rest : Nat} (hrest : rest < xLogBlcksz)
    : pageHeaderAt seg (spot.pagePtr + rest) = pageHeader spot.page := by
  have hpage := spot.page_lt
  have hright : spot.page * xLogBlcksz + rest < xLogSegSize seg := by
    unfold xLogSegSize xLogBlcksz at *
    omega
  have hmod : (spot.pagePtr + rest) % xLogSegSize seg = spot.page * xLogBlcksz + rest := by
    unfold Spot.pagePtr
    rw [Nat.add_assoc, Nat.add_comm, Nat.add_mul_mod_self_right, Nat.mod_eq_of_lt hright]
  unfold pageHeaderAt pageHeader
  rw [hmod]
  unfold xLogBlcksz at *
  split <;> split <;> first | rfl | omega

structure PositionsAgree (seg : Segment) (bytepos : Nat) : Prop where
  recPtr : xLogRecPtrToBytePos seg (xLogBytePosToRecPtr seg bytepos) = bytepos
  endRecPtr : xLogRecPtrToBytePos seg (xLogBytePosToEndRecPtr seg bytepos) = bytepos
  increasing : ∀ bytepos' < bytepos, xLogBytePosToRecPtr seg bytepos' < xLogBytePosToRecPtr seg bytepos
    ∧ xLogBytePosToEndRecPtr seg bytepos' < xLogBytePosToEndRecPtr seg bytepos
  header : pageHeaderAt seg (xLogBytePosToRecPtr seg bytepos) ≤ xLogBytePosToRecPtr seg bytepos % xLogBlcksz
  differ : xLogBytePosToRecPtr seg bytepos = xLogBytePosToEndRecPtr seg bytepos
    ∨ xLogBytePosToEndRecPtr seg bytepos % xLogBlcksz = 0
      ∧ xLogBytePosToRecPtr seg bytepos
        = xLogBytePosToEndRecPtr seg bytepos + pageHeaderAt seg (xLogBytePosToEndRecPtr seg bytepos)

theorem positionsAgree {bytepos : Nat} (hin : InWal seg bytepos) : PositionsAgree seg bytepos := by
  obtain ⟨spot, rfl, _⟩ := exists_spot seg bytepos
  have hoff := spot.off_lt
  have hptr := Spot.xLogBytePosToRecPtr_eq hin
  have hend := Spot.xLogBytePosToEndRecPtr_eq hin
  constructor
  case recPtr => rw [hptr, spot.xLogRecPtrToBytePos_recPtr]
  case endRecPtr => rw [hend, spot.xLogRecPtrToBytePos_endRecPtr]
  case increasing =>
    intro bytepos' hlt
    obtain ⟨spot', rfl, _⟩ := exists_spot seg bytepos'
    have hin' := hin.mono (Nat.le_of_lt hlt)
    have hbelow := Spot.recPtr_lt_endRecPtr hlt
    rw [hptr, hend, Spot.xLogBytePosToRecPtr_eq hin', Spot.xLogBytePosToEndRecPtr_eq hin']
    exact ⟨Nat.lt_of_lt_of_le hbelow spot.endRecPtr_le, Nat.lt_of_le_of_lt spot'.endRecPtr_le hbelow⟩
  case header =>
    have hmod := pagePtr_mod spot
    rw [hptr, Spot.recPtr, Nat.add_assoc, pageHeaderAt_pagePtr_add spot (by omega)]
    unfold xLogBlcksz at *
    omega
  case differ =>
    rw [hptr, hend]
    unfold Spot.endRecPtr
    split
    . next hzero =>
      apply Or.inr
      have hheader := pageHeaderAt_pagePtr_add spot (Nat.zero_lt_of_lt hoff)
      rw [Nat.add_zero] at hheader
      rw [hheader, Spot.recPtr, hzero]
      exact ⟨pagePtr_mod spot, rfl⟩
    . exact Or.inl rfl

end Positions

section Copy

/-- A page after the first one that the copying of a record from `startPos` up to `currPos` has got to. -/
def Continues (startPos currPos page : Nat) : Prop := page % xLogBlcksz = 0 ∧ startPos < page ∧ page < currPos

instance (startPos currPos page : Nat) : Decidable (Continues startPos currPos page) :=
  inferInstanceAs (Decidable (_ ∧ _ ∧ _))

/-- The bytes `done` of a record of `writeLen` bytes are on the pages, from the byte position `start` on. -/
structure Wrote (seg : Segment) (pages : WalPages) (start startPos writeLen : Nat) (done : Bytes)
    (spot : Spot seg)
    (copying : Copying)
    : Prop where
  bytePos : spot.bytePos = start + done.length
  curr : spot.At copying.currPos
  freespace : copying.freespace = insertFreespace copying.currPos
  written : copying.written = done.length
  le : startPos ≤ copying.currPos
  bytes : ∀ place : Spot seg, start ≤ place.bytePos → place.bytePos < start + done.length →
    copying.pages.bytes place.recPtr = done.getD (place.bytePos - start) 0
  kept : ∀ ptr, (∀ place : Spot seg, start ≤ place.bytePos → place.bytePos < start + done.length →
    ptr ≠ place.recPtr) → copying.pages.bytes ptr = pages.bytes ptr
  continued : ∀ page, Continues startPos copying.currPos page →
    copying.pages.xlpRemLen page = start + writeLen - xLogRecPtrToBytePos seg page
      ∧ copying.pages.firstIsContrecord page = true
  others : ∀ page, ¬ Continues startPos copying.currPos page →
    copying.pages.xlpRemLen page = pages.xlpRemLen page
      ∧ copying.pages.firstIsContrecord page = pages.firstIsContrecord page

variable {pages : WalPages} {start startPos writeLen : Nat} {done : Bytes} {spot : Spot seg}
  {copying : Copying}

theorem continues_add_iff {currPos len page : Nat} (hle : len ≤ insertFreespace currPos)
    : Continues startPos (currPos + len) page ↔ Continues startPos currPos page := by
  unfold Continues insertFreespace xLogBlcksz at *
  split at hle <;> omega

theorem Wrote.store (h : Wrote seg pages start startPos writeLen done spot copying) {data : Bytes}
    (hle : data.length ≤ copying.freespace)
    : ∃ spot', Wrote seg pages start startPos writeLen (done ++ data) spot' (copying.store data) := by
  rw [h.freespace] at hle
  obtain ⟨spot', hcopied⟩ := Spot.exists_last h.curr hle
  have hlen : (done ++ data).length = done.length + data.length := length_append
  have hplace : ∀ place : Spot seg, spot.bytePos ≤ place.bytePos → place.bytePos < spot.bytePos + data.length →
      place.recPtr = copying.currPos + (place.bytePos - spot.bytePos) := by
    intro place hlow hhigh
    rcases h.curr with hcurr | hcurr
    . rw [hcurr] at hle ⊢
      exact Spot.recPtr_eq_add hlow hhigh hle
    . unfold Spot.endRecPtr at hcurr
      split at hcurr
      . rw [hcurr, insertFreespace_pagePtr] at hle
        omega
      . rw [hcurr] at hle ⊢
        exact Spot.recPtr_eq_add hlow hhigh hle
  have hbytePos := h.bytePos
  apply Exists.intro spot'
  constructor
  case bytePos => rw [hcopied.bytePos, hbytePos, hlen, Nat.add_assoc]
  case curr => exact hcopied.at h.curr
  case freespace =>
    dsimp only [Copying.store]
    rw [insertFreespace_add hle, h.freespace]
  case written =>
    dsimp only [Copying.store]
    rw [h.written, hlen]
  case le => exact Nat.le_trans h.le (Nat.le_add_right _ _)
  case bytes =>
    intro place hlow hhigh
    dsimp only [Copying.store]
    by_cases hdone : place.bytePos < start + done.length
    . have hbelow : place.recPtr < copying.currPos := by
        have hlt := Spot.recPtr_lt_endRecPtr (Nat.lt_of_lt_of_eq hdone hbytePos.symm)
        rcases h.curr with hcurr | hcurr
        . rw [hcurr]
          exact Nat.lt_of_lt_of_le hlt spot.endRecPtr_le
        . rw [hcurr]
          exact hlt
      rw [Memory.store_outside (Or.inl hbelow), h.bytes place hlow hdone, getD_append _ _ _ _ (by omega)]
    . have heq := hplace place (by omega) (by omega)
      rw [Memory.store, if_pos (by omega), getD_append_right _ _ _ _ (by omega)]
      apply congrArg (data.getD · 0)
      omega
  case kept =>
    intro ptr hptr
    dsimp only [Copying.store]
    rw [Memory.store_outside, h.kept ptr fun place hlow hhigh => hptr place hlow (by omega)]
    by_contra hinside
    obtain ⟨place, hspot, _⟩ := exists_spot seg (spot.bytePos + (ptr - copying.currPos))
    apply hptr place (by omega) (by omega)
    rw [hplace place (by omega) (by omega)]
    omega
  case continued =>
    intro page hpage
    exact h.continued page ((continues_add_iff hle).mp hpage)
  case others =>
    intro page hpage
    exact h.others page (mt (continues_add_iff hle).mpr hpage)

theorem Wrote.nextPage (h : Wrote seg pages start startPos writeLen done spot copying)
    (hfull : copying.currPos % xLogBlcksz = 0) (hstart : startPos % xLogBlcksz ≠ 0)
    : Wrote seg pages start startPos writeLen done spot (copying.nextPage seg writeLen) := by
  have hfree : insertFreespace spot.recPtr ≠ 0 := by
    have hoff := spot.off_lt
    rw [insertFreespace_recPtr]
    omega
  have hend : copying.currPos = spot.endRecPtr := by
    apply h.curr.resolve_left
    intro hcurr
    rw [hcurr] at hfull
    exact hfree ((insertFreespace_eq_zero _).mpr hfull)
  have hzero : spot.off = 0 := by
    by_contra hoff
    rw [hend, Spot.endRecPtr, if_neg hoff] at hfull
    exact hfree ((insertFreespace_eq_zero _).mpr hfull)
  have hpage : copying.currPos = spot.pagePtr := by rw [hend, Spot.endRecPtr, if_pos hzero]
  have hskip : skipPageHeader seg copying.currPos = spot.recPtr := by
    rw [hpage, skipPageHeader_pagePtr spot hzero]
  have hrecPtr : spot.recPtr = copying.currPos + pageHeader spot.page := by
    rw [hpage, Spot.recPtr, hzero, Nat.add_zero]
  have hheader := pageHeader_lt spot.page
  have hpos : 0 < pageHeader spot.page := by
    unfold pageHeader
    split <;> decide
  have hle := h.le
  have hcontinues : ∀ page, Continues startPos spot.recPtr page ↔
      page = copying.currPos ∨ Continues startPos copying.currPos page := by
    intro page
    unfold Continues
    rw [hrecPtr]
    unfold xLogBlcksz at *
    constructor
    . rintro ⟨hmod, hlow, hhigh⟩
      omega
    . rintro (rfl | ⟨hmod, hlow, hhigh⟩) <;> omega
  exact { h with
    curr := Or.inl hskip
    freespace := rfl
    le := by
      dsimp only [Copying.nextPage]
      omega
    continued := by
      intro page hcont
      dsimp only [Copying.nextPage, WalPages.continueRecord] at hcont ⊢
      rw [hskip, hcontinues] at hcont
      by_cases heq : page = copying.currPos
      . rw [heq, update_self, update_self, hend, spot.xLogRecPtrToBytePos_endRecPtr, h.bytePos,
          h.written, Nat.add_sub_add_left]
        exact ⟨rfl, rfl⟩
      . rw [update_of_ne heq, update_of_ne heq]
        exact h.continued page (hcont.resolve_left heq)
    others := by
      intro page hcont
      dsimp only [Copying.nextPage, WalPages.continueRecord] at hcont ⊢
      rw [hskip, hcontinues, not_or] at hcont
      rw [update_of_ne hcont.left, update_of_ne hcont.left]
      exact h.others page hcont.right }

theorem Wrote.copyData (hstart : startPos % xLogBlcksz ≠ 0) (data : Bytes)
    (h : Wrote seg pages start startPos writeLen done spot copying)
    : ∃ spot', Wrote seg pages start startPos writeLen (done ++ data) spot'
        (Copying.copyData seg writeLen copying data) := by
  induction copying, data using Copying.copyData.induct seg writeLen generalizing done spot with
  | case1 copying data hlt ih =>
    rw [Copying.copyData.eq_def, if_pos hlt]
    have hlen : (data.take copying.freespace).length = copying.freespace :=
      length_take_of_le (by omega)
    obtain ⟨spot', hstored⟩ := h.store (Nat.le_of_eq hlen)
    have hfull : (copying.store (data.take copying.freespace)).currPos % xLogBlcksz = 0 := by
      dsimp only [Copying.store]
      rw [hlen, ← insertFreespace_eq_zero, h.freespace, insertFreespace_add (Nat.le_refl _), Nat.sub_self]
    obtain ⟨spot'', hcopied⟩ := ih (hstored.nextPage hfull hstart)
    rw [append_assoc, take_append_drop] at hcopied
    exact ⟨spot'', hcopied⟩
  | case2 copying data hge =>
    rw [Copying.copyData.eq_def, if_neg hge]
    exact h.store (by omega)

theorem copyData_pos (writeLen : Nat) (copying : Copying) (data : Bytes)
    : ((Copying.copyData seg writeLen copying data).currPos,
        (Copying.copyData seg writeLen copying data).freespace)
        =
      copyPages seg copying.currPos copying.freespace data.length := by
  induction copying, data using Copying.copyData.induct seg writeLen with
  | case1 copying data hlt ih =>
    rw [Copying.copyData.eq_def, copyPages.eq_def, if_pos hlt, if_pos hlt, ih]
    dsimp only [Copying.nextPage, Copying.store]
    rw [length_take_of_le (by omega), length_drop]
  | case2 copying data hge =>
    rw [Copying.copyData.eq_def, copyPages.eq_def, if_neg hge, if_neg hge]
    rfl

theorem foldl_copyData_currPos (writeLen : Nat) (rdata : List Bytes) (copying : Copying)
    : (rdata.foldl (Copying.copyData seg writeLen) copying).currPos
        =
      (copyRdata seg (rdata.map List.length) copying.currPos copying.freespace).1 := by
  induction rdata generalizing copying with
  | nil => rfl
  | cons data rdata ih => rw [foldl_cons, ih, map_cons, copyRdata, ← copyData_pos writeLen]

theorem Wrote.foldl_copyData (hstart : startPos % xLogBlcksz ≠ 0) (rdata : List Bytes)
    (h : Wrote seg pages start startPos writeLen done spot copying)
    : ∃ spot', Wrote seg pages start startPos writeLen (done ++ rdata.flatten) spot'
        (rdata.foldl (Copying.copyData seg writeLen) copying) := by
  induction rdata generalizing done spot copying with
  | nil =>
    rw [flatten_nil, append_nil]
    exact ⟨spot, h⟩
  | cons data rdata ih =>
    obtain ⟨spot₁, h₁⟩ := h.copyData hstart data
    rw [flatten_cons, ← append_assoc]
    exact ih h₁

end Copy

section Record

variable {bytepos : Nat}

/-- What the copying of a record to a byte position leaves: the record in its usable bytes, and nothing else. -/
structure RecordCopied (seg : Segment) (pages pages' : WalPages) (bytepos : Nat) (record : Bytes) : Prop where
  bytes : ∀ (i : Nat) (hi : i < record.length), pages'.bytes (xLogBytePosToRecPtr seg (bytepos + i)) = record[i]
  kept : ∀ ptr, (∀ i < record.length, ptr ≠ xLogBytePosToRecPtr seg (bytepos + i)) →
    pages'.bytes ptr = pages.bytes ptr
  continued : ∀ page,
    Continues (xLogBytePosToRecPtr seg bytepos) (xLogBytePosToEndRecPtr seg (bytepos + record.length)) page →
      pages'.xlpRemLen page = bytepos + record.length - xLogRecPtrToBytePos seg page
        ∧ pages'.firstIsContrecord page = true
  others : ∀ page,
    ¬ Continues (xLogBytePosToRecPtr seg bytepos) (xLogBytePosToEndRecPtr seg (bytepos + record.length)) page →
      pages'.xlpRemLen page = pages.xlpRemLen page ∧ pages'.firstIsContrecord page = pages.firstIsContrecord page

theorem le_maxalign (len : Nat) : len ≤ maxalign len := by
  unfold maxalign
  omega

theorem copyXLogRecordToWAL_snd (pages : WalPages) (rdata : List Bytes) (halign : bytepos % 8 = 0)
    (hpos : 0 < rdata.flatten.length) (hin : InWal seg (bytepos + maxalign rdata.flatten.length))
    : (copyXLogRecordToWAL seg pages rdata.flatten.length rdata (xLogBytePosToRecPtr seg bytepos)).2
        =
      xLogBytePosToEndRecPtr seg (bytepos + maxalign rdata.flatten.length) := by
  rw [length_flatten] at hpos hin ⊢
  rw [← copyRecord_fst halign hpos hin]
  unfold copyXLogRecordToWAL copyRecord
  dsimp only
  rw [foldl_copyData_currPos]

theorem copyXLogRecordToWAL_copied (pages : WalPages) (rdata : List Bytes) (hpos : 0 < rdata.flatten.length)
    (hin : InWal seg (bytepos + rdata.flatten.length))
    : RecordCopied seg pages
        (copyXLogRecordToWAL seg pages rdata.flatten.length rdata (xLogBytePosToRecPtr seg bytepos)).1 bytepos
        rdata.flatten := by
  obtain ⟨spot, rfl, _⟩ := exists_spot seg bytepos
  have hptr := Spot.xLogBytePosToRecPtr_eq (hin.mono (Nat.le_add_right _ _))
  have hstart : spot.recPtr % xLogBlcksz ≠ 0 := by
    have hoff := spot.off_lt
    intro hmod
    have hfree := (insertFreespace_eq_zero _).mpr hmod
    rw [insertFreespace_recPtr] at hfree
    omega
  have hinit : Wrote seg pages spot.bytePos spot.recPtr rdata.flatten.length [] spot
      ⟨pages, spot.recPtr, insertFreespace spot.recPtr, 0⟩ := by
    constructor
    case bytePos => rfl
    case curr => exact Or.inl rfl
    case freespace => rfl
    case written => rfl
    case le => exact Nat.le_refl _
    case bytes =>
      intro place hlow hhigh
      exact absurd hhigh (Nat.not_lt.mpr hlow)
    case kept => exact fun _ _ => rfl
    case continued =>
      rintro page ⟨_, hlow, hhigh⟩
      exact absurd hhigh (Nat.lt_asymm hlow)
    case others => exact fun _ _ => ⟨rfl, rfl⟩
  obtain ⟨spot', hwrote⟩ := hinit.foldl_copyData hstart rdata
  have hcurr := @foldl_copyData_currPos seg rdata.flatten.length rdata
    ⟨pages, spot.recPtr, insertFreespace spot.recPtr, 0⟩
  obtain ⟨last, currPos, hcopied, hcopy⟩ :=
    copyRdata_spec (rdata.map List.length) (Or.inl rfl : spot.At spot.recPtr)
  rw [← length_flatten] at hcopied
  rw [hcopy] at hcurr
  dsimp only at hcurr
  have hend : xLogBytePosToEndRecPtr seg (spot.bytePos + rdata.flatten.length) = currPos := by
    rw [← hcopied.bytePos] at hin ⊢
    rw [Spot.xLogBytePosToEndRecPtr_eq hin]
    rcases hcopied.reached with hreached | ⟨hzero, _⟩
    . exact hreached.symm
    . exact absurd hzero hpos.ne'
  have hplace : ∀ i < rdata.flatten.length, ∃ place : Spot seg, place.bytePos = spot.bytePos + i
      ∧ xLogBytePosToRecPtr seg (spot.bytePos + i) = place.recPtr := by
    intro i hi
    obtain ⟨place, hplace, _⟩ := exists_spot seg (spot.bytePos + i)
    have hin' : InWal seg place.bytePos := hin.mono (by omega)
    exact ⟨place, hplace, hplace ▸ Spot.xLogBytePosToRecPtr_eq hin'⟩
  unfold copyXLogRecordToWAL
  dsimp only
  rw [hptr]
  rw [nil_append] at hwrote
  constructor
  case bytes =>
    intro i hi
    obtain ⟨place, hbytePos, heq⟩ := hplace i hi
    rw [heq, hwrote.bytes place (by omega) (by omega), hbytePos, Nat.add_sub_cancel_left,
      getD_eq_getElem _ _ hi]
  case kept =>
    intro ptr hptr
    apply hwrote.kept
    intro place hlow hhigh
    obtain ⟨place', hbytePos, heq⟩ := hplace (place.bytePos - spot.bytePos) (by omega)
    obtain rfl : place' = place := Spot.eq_of_bytePos (by omega)
    rw [← heq]
    exact hptr _ (by omega)
  case continued =>
    intro page hpage
    rw [hend, hptr, ← hcurr] at hpage
    exact hwrote.continued page hpage
  case others =>
    intro page hpage
    rw [hend, hptr, ← hcurr] at hpage
    exact hwrote.others page hpage

/--
Byte positions and `XLogRecPtr`s agree, and the two copying functions put a record into the usable bytes that are
reserved for it, whatever pieces it comes in.
-/
theorem wal_positions_and_copies_agree (seg : Segment)
    : (∀ bytepos, InWal seg bytepos → PositionsAgree seg bytepos) ∧
      ∀ (pages : WalPages) (rdata : List Bytes) (bytepos : Nat), bytepos % 8 = 0 → 0 < rdata.flatten.length →
        InWal seg (bytepos + maxalign rdata.flatten.length) →
          ∃ pages', RecordCopied seg pages pages' bytepos rdata.flatten ∧
            copyXLogRecordToWAL seg pages rdata.flatten.length rdata (xLogBytePosToRecPtr seg bytepos)
              = (pages', xLogBytePosToEndRecPtr seg (bytepos + maxalign rdata.flatten.length)) ∧
            copyXLogRecordToWALForGroup seg pages rdata.flatten.length rdata (xLogBytePosToRecPtr seg bytepos)
              (xLogBytePosToEndRecPtr seg (bytepos + maxalign rdata.flatten.length)) = some pages' := by
  apply And.intro
  . exact fun bytepos hin => positionsAgree hin
  . intro pages rdata bytepos halign hpos hin
    have hend := copyXLogRecordToWAL_snd pages rdata halign hpos hin
    have hin' := hin.mono (Nat.add_le_add_left (le_maxalign rdata.flatten.length) bytepos)
    refine ⟨_, copyXLogRecordToWAL_copied pages rdata hpos hin', Prod.ext rfl hend, ?_⟩
    unfold copyXLogRecordToWALForGroup
    dsimp only
    rw [if_neg (not_not_intro hend)]

theorem eightPages_pos : 0 < 8 := Nat.succ_pos 7

theorem eightPages_le : 8 ≤ 2 ^ 17 := Nat.le_of_ble_eq_true rfl

def eightPages : Segment := ⟨8, eightPages_pos, eightPages_le⟩

theorem wal_positions_and_copies_agree_eightPages
    : PositionsAgree eightPages 8152 ∧
      ∃ pages', (copyXLogRecordToWAL eightPages ⟨Memory.zero, fun _ => 0, fun _ => false⟩ 38
          [List.replicate 32 1, [], [2, 3, 4, 5, 6, 7]] (xLogBytePosToRecPtr eightPages 8120)).1 = pages'
        ∧ pages'.xlpRemLen 8192 = 6 ∧ pages'.bytes 8216 = 2 := by
  have hagree := wal_positions_and_copies_agree eightPages
  obtain ⟨pages', hcopied, hcopy, _⟩ := hagree.right ⟨Memory.zero, fun _ => 0, fun _ => false⟩
    [List.replicate 32 1, [], [2, 3, 4, 5, 6, 7]] 8120 (by decide) (by decide) (by decide)
  refine ⟨hagree.left 8152 (by decide), pages', congrArg Prod.fst hcopy, ?_, ?_⟩
  . exact (hcopied.continued 8192 (by decide)).left
  . exact hcopied.bytes 32 (by decide)

end Record

end Xlog

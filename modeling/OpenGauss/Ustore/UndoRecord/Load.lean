import OpenGauss.Ustore.UndoRecord.Append

/-!
This module contains the round trip of undo records over the pages of the undo log.
-/

open Layout List Bytes

namespace Undo

namespace UndoRecord

-- What a reader gets back: parts that were not written keep their default.
def written (r : UndoRecord) : UndoRecord where
  whdr := r.whdr
  wblk := r.wblk
  wtxn := if r.hasInfo undoUrecInfoTransac then r.wtxn else reset.wtxn
  wtd := if r.hasInfo undoUrecInfoOldtd then r.wtd else reset.wtd
  wpart := if r.hasInfo undoUrecInfoHasPartoid then r.wpart else reset.wpart
  wtspc := if r.hasInfo undoUrecInfoHasTablespaceoid then r.wtspc else reset.wtspc
  wpay := if r.hasInfo undoUrecInfoPayload then ⟨UInt16.ofNat r.rawdata.length⟩ else reset.wpay
  rawdata := if r.hasInfo undoUrecInfoPayload then r.rawdata else []
  isCopy := true

def offTd (r : UndoRecord) : Nat := 36 + if r.hasInfo undoUrecInfoTransac then 8 else 0
def offPart (r : UndoRecord) : Nat := r.offTd + if r.hasInfo undoUrecInfoOldtd then 8 else 0
def offTspc (r : UndoRecord) : Nat := r.offPart + if r.hasInfo undoUrecInfoHasPartoid then 4 else 0
def offPay (r : UndoRecord) : Nat :=
  r.offTspc + if r.hasInfo undoUrecInfoHasTablespaceoid then 4 else 0
def offRaw (r : UndoRecord) : Nat := r.offPay + if r.hasInfo undoUrecInfoPayload then 2 else 0

end UndoRecord

open UndoRecord

section Partial

variable (r : UndoRecord)

def partOf [Layout α] (d v : α) (o a : Nat) : α :=
  Layout.ofBytes ((Layout.toBytes d).fill (Layout.toBytes v) (a - o))

theorem partOf_self [Layout α] (d : α) (o a : Nat) : partOf d d o a = d := by
  simp [partOf, fill, ofBytes_toBytes]

theorem partOf_before [Layout α] (d v : α) (o a : Nat) (h : a ≤ o) : partOf d v o a = d := by
  rw [partOf, Nat.sub_eq_zero_of_le h, fill_zero, ofBytes_toBytes]

theorem partOf_after [Layout α] (d v : α) (o a : Nat) (h : o + size α ≤ a) : partOf d v o a = v := by
  rw [partOf, fill_of_length_le, ofBytes_toBytes]
  . rw [length_toBytes, length_toBytes]
  . rw [length_toBytes]
    omega

theorem toBytes_partOf [Layout α] (d v : α) (o a : Nat)
    : toBytes (partOf d v o a) = (toBytes d).fill (toBytes v) (a - o) := by
  apply toBytes_ofBytes
  rw [length_fill, length_toBytes]
  rw [length_toBytes, length_toBytes]

def partialRec (r : UndoRecord) (a : Nat) (raw : Bytes) : UndoRecord where
  whdr := partOf reset.whdr r.written.whdr 0 a
  wblk := partOf reset.wblk r.written.wblk 22 a
  wtxn := partOf reset.wtxn r.written.wtxn 36 a
  wtd := partOf reset.wtd r.written.wtd r.offTd a
  wpart := partOf reset.wpart r.written.wpart r.offPart a
  wtspc := partOf reset.wtspc r.written.wtspc r.offTspc a
  wpay := partOf reset.wpay r.written.wpay r.offPay a
  rawdata := raw
  isCopy := true

theorem partOf_congr [Layout α] (d v : α) (o a a' : Nat)
    (h : v = d ∨ a' = a ∨ (a ≤ o ∧ a' ≤ o) ∨ (o + size α ≤ a ∧ o + size α ≤ a'))
    : partOf d v o a = partOf d v o a' := by
  rcases h with rfl | rfl | ⟨h, h'⟩ | ⟨h, h'⟩
  . rw [partOf_self, partOf_self]
  . rfl
  . rw [partOf_before d v o a h, partOf_before d v o a' h']
  . rw [partOf_after d v o a h, partOf_after d v o a' h']

theorem wtxn_end : r.written.wtxn = reset.wtxn ∨ 36 + 8 ≤ r.offTd := by
  simp only [written, offTd]
  split <;> simp

theorem wtd_end : r.written.wtd = reset.wtd ∨ r.offTd + 8 ≤ r.offPart := by
  simp only [written, offPart]
  split <;> simp

theorem wpart_end : r.written.wpart = reset.wpart ∨ r.offPart + 4 ≤ r.offTspc := by
  simp only [written, offTspc]
  split <;> simp

theorem wtspc_end : r.written.wtspc = reset.wtspc ∨ r.offTspc + 4 ≤ r.offPay := by
  simp only [written, offPay]
  split <;> simp

theorem wpay_end : r.written.wpay = reset.wpay ∨ r.offPay + 2 ≤ r.offRaw := by
  simp only [written, offRaw]
  split <;> simp

theorem offsets_mono : 36 ≤ r.offTd ∧ r.offTd ≤ r.offPart ∧ r.offPart ≤ r.offTspc ∧ r.offTspc ≤ r.offPay
      ∧ r.offPay ≤ r.offRaw := by
  simp only [offTd, offPart, offTspc, offPay, offRaw]
  omega

theorem partOf_later [Layout α] (d v : α) (o e a a' : Nat) (hle : a ≤ a') (hmax : a' ≤ max a e) (ho : e ≤ o)
    : partOf d v o a = partOf d v o a' := by
  apply partOf_congr
  omega

theorem partOf_earlier [Layout α] (d v : α) (o e a a' : Nat) (hle : a ≤ a') (he : e ≤ a)
    (h : v = d ∨ o + size α ≤ e)
    : partOf d v o a = partOf d v o a' := by
  apply partOf_congr
  rcases h with rfl | h
  . exact Or.inl rfl
  . omega

variable (a a' : Nat) (raw : Bytes)

theorem partialRec_whdr (hle : a ≤ a') (hmax : a' ≤ max a 22)
    : { partialRec r a raw with whdr := partOf reset.whdr r.written.whdr 0 a' } = partialRec r a' raw := by
  have hmono := offsets_mono r
  simp only [partialRec, UndoRecord.mk.injEq, true_and, and_true]
  refine ⟨?_, ?_, ?_, ?_, ?_, ?_⟩
  all_goals apply partOf_later _ _ _ _ _ _ hle hmax
  all_goals omega

theorem partialRec_wblk (hge : 22 ≤ a) (hle : a ≤ a') (hmax : a' ≤ max a 36)
    : { partialRec r a raw with wblk := partOf reset.wblk r.written.wblk 22 a' } = partialRec r a' raw := by
  have hmono := offsets_mono r
  simp only [partialRec, UndoRecord.mk.injEq, true_and, and_true]
  refine ⟨?_, ?_, ?_, ?_, ?_, ?_⟩
  . apply partOf_earlier _ _ _ 22 _ _ hle hge (Or.inr (Nat.le_refl _))
  all_goals apply partOf_later _ _ _ _ _ _ hle hmax
  all_goals omega

theorem partialRec_wtxn (hge : 36 ≤ a) (hle : a ≤ a') (hmax : a' ≤ max a r.offTd)
    : { partialRec r a raw with wtxn := partOf reset.wtxn r.written.wtxn 36 a' } = partialRec r a' raw := by
  have hmono := offsets_mono r
  simp only [partialRec, UndoRecord.mk.injEq, true_and, and_true]
  refine ⟨?_, ?_, ?_, ?_, ?_, ?_⟩
  . apply partOf_earlier _ _ _ 22 _ _ hle (by omega) (Or.inr (Nat.le_refl _))
  . apply partOf_earlier _ _ _ 36 _ _ hle (by omega) (Or.inr (Nat.le_refl _))
  all_goals apply partOf_later _ _ _ _ _ _ hle hmax
  all_goals omega

theorem partialRec_wtd (hge : r.offTd ≤ a) (hle : a ≤ a') (hmax : a' ≤ max a r.offPart)
    : { partialRec r a raw with wtd := partOf reset.wtd r.written.wtd r.offTd a' } = partialRec r a' raw := by
  have hmono := offsets_mono r
  simp only [partialRec, UndoRecord.mk.injEq, true_and, and_true]
  refine ⟨?_, ?_, ?_, ?_, ?_, ?_⟩
  . apply partOf_earlier _ _ _ 22 _ _ hle (by omega) (Or.inr (Nat.le_refl _))
  . apply partOf_earlier _ _ _ 36 _ _ hle (by omega) (Or.inr (Nat.le_refl _))
  . apply partOf_earlier _ _ _ r.offTd _ _ hle (by omega) (wtxn_end r)
  all_goals apply partOf_later _ _ _ _ _ _ hle hmax
  all_goals omega

theorem partialRec_wpart (hge : r.offPart ≤ a) (hle : a ≤ a') (hmax : a' ≤ max a r.offTspc)
    : { partialRec r a raw with wpart := partOf reset.wpart r.written.wpart r.offPart a' }
        =
      partialRec r a' raw := by
  have hmono := offsets_mono r
  simp only [partialRec, UndoRecord.mk.injEq, true_and, and_true]
  refine ⟨?_, ?_, ?_, ?_, ?_, ?_⟩
  . apply partOf_earlier _ _ _ 22 _ _ hle (by omega) (Or.inr (Nat.le_refl _))
  . apply partOf_earlier _ _ _ 36 _ _ hle (by omega) (Or.inr (Nat.le_refl _))
  . apply partOf_earlier _ _ _ r.offTd _ _ hle (by omega) (wtxn_end r)
  . apply partOf_earlier _ _ _ r.offPart _ _ hle (by omega) (wtd_end r)
  all_goals apply partOf_later _ _ _ _ _ _ hle hmax
  all_goals omega

theorem partialRec_wtspc (hge : r.offTspc ≤ a) (hle : a ≤ a') (hmax : a' ≤ max a r.offPay)
    : { partialRec r a raw with wtspc := partOf reset.wtspc r.written.wtspc r.offTspc a' }
        =
      partialRec r a' raw := by
  have hmono := offsets_mono r
  simp only [partialRec, UndoRecord.mk.injEq, true_and, and_true]
  refine ⟨?_, ?_, ?_, ?_, ?_, ?_⟩
  . apply partOf_earlier _ _ _ 22 _ _ hle (by omega) (Or.inr (Nat.le_refl _))
  . apply partOf_earlier _ _ _ 36 _ _ hle (by omega) (Or.inr (Nat.le_refl _))
  . apply partOf_earlier _ _ _ r.offTd _ _ hle (by omega) (wtxn_end r)
  . apply partOf_earlier _ _ _ r.offPart _ _ hle (by omega) (wtd_end r)
  . apply partOf_earlier _ _ _ r.offTspc _ _ hle (by omega) (wpart_end r)
  . apply partOf_later _ _ _ _ _ _ hle hmax (Nat.le_refl _)

theorem partialRec_wpay (hge : r.offPay ≤ a) (hle : a ≤ a')
    : { partialRec r a raw with wpay := partOf reset.wpay r.written.wpay r.offPay a' }
        =
      partialRec r a' raw := by
  have hmono := offsets_mono r
  simp only [partialRec, UndoRecord.mk.injEq, and_true]
  refine ⟨?_, ?_, ?_, ?_, ?_, ?_⟩
  . apply partOf_earlier _ _ _ 22 _ _ hle (by omega) (Or.inr (Nat.le_refl _))
  . apply partOf_earlier _ _ _ 36 _ _ hle (by omega) (Or.inr (Nat.le_refl _))
  . apply partOf_earlier _ _ _ r.offTd _ _ hle (by omega) (wtxn_end r)
  . apply partOf_earlier _ _ _ r.offPart _ _ hle (by omega) (wtd_end r)
  . apply partOf_earlier _ _ _ r.offTspc _ _ hle (by omega) (wpart_end r)
  . apply partOf_earlier _ _ _ r.offPay _ _ hle (by omega) (wtspc_end r)

theorem partialRec_zero : partialRec r 0 [] = reset := by
  have hmono := offsets_mono r
  simp only [partialRec]
  rw [partOf_before, partOf_before, partOf_before, partOf_before, partOf_before, partOf_before, partOf_before]
  . rfl
  all_goals omega

theorem partialRec_end (a : Nat) (h : r.offRaw ≤ a) : partialRec r a r.written.rawdata = r.written := by
  have hmono := offsets_mono r
  have hpart : ∀ {α : Type} [Layout α] (d v : α) (o e : Nat),
      v = d ∨ o + size α ≤ e → e ≤ a → partOf d v o a = v := by
    intro α _ d v o e hv he
    rcases hv with rfl | hv
    . rw [partOf_self]
    . rw [partOf_after _ _ _ _ (by omega)]
  simp only [partialRec]
  rw [hpart _ _ _ 22 (Or.inr (Nat.le_refl _)) (by omega),
    hpart _ _ _ 36 (Or.inr (Nat.le_refl _)) (by omega), hpart _ _ _ _ (wtxn_end r) (by omega),
    hpart _ _ _ _ (wtd_end r) (by omega), hpart _ _ _ _ (wpart_end r) (by omega),
    hpart _ _ _ _ (wtspc_end r) (by omega), hpart _ _ _ _ (wpay_end r) (by omega)]
  rfl

theorem partialRec_hasInfo (a : Nat) (raw : Bytes) (info : UInt8) (h : 22 ≤ a)
    : (partialRec r a raw).hasInfo info = r.hasInfo info := by
  simp only [hasInfo, partialRec]
  rw [partOf_after _ _ _ _ h]
  rfl

end Partial

section Page

def IsPart (r : UndoRecord) (o : Nat) (src : Bytes) : Prop :=
  ∃ back, r.content.drop o = src ++ back ∧ o ≤ r.content.length

theorem IsPart.getD {r : UndoRecord} {o : Nat} {src : Bytes} (h : IsPart r o src) (i : Nat)
    (hi : i < src.length)
    : r.content.getD (o + i) 0 = src.getD i 0 := by
  obtain ⟨back, heq, _⟩ := h
  simp only [getD_eq_getElem?_getD]
  rw [← getElem?_drop, heq, getElem?_append_left hi]

theorem IsPart.le {r : UndoRecord} {o : Nat} {src : Bytes} (h : IsPart r o src)
    : o + src.length ≤ r.content.length := by
  obtain ⟨back, heq, hle⟩ := h
  have hlen := congrArg List.length heq
  simp only [length_drop, length_append] at hlen
  omega

-- The page holds the content of the record from position `n₀` to `lim`, from offset `base` on.
variable (log : UndoLog) (r : UndoRecord) (base n₀ lim : Nat)

def PageHolds : Prop :=
  ∀ i, n₀ ≤ i → i < lim → i < r.content.length → log (base + (i - n₀)) = r.content.getD i 0

structure At (rd : Reader) (a : Nat) : Prop where
  readptr : rd.readptr = base + (a - n₀)
  endptr : rd.endptr = base + (lim - n₀)
  alreadyRead : rd.alreadyRead = a
  ge : n₀ ≤ a
  le : a ≤ lim

def reach (a e : Nat) : Nat := min (max a e) lim

variable {log r base n₀ lim}

theorem slice_eq (hpage : PageHolds log r base n₀ lim) (o a c : Nat) (src : Bytes)
    (hpart : IsPart r o src) (hn : n₀ ≤ a) (ho : o ≤ a) (hlim : a + c ≤ lim)
    (hsrc : a + c ≤ o + src.length)
    : slice log (base + (a - n₀)) c = (src.drop (a - o)).take c := by
  have hle := hpart.le
  apply ext_getElem?
  intro i
  by_cases hi : i < c
  . have hbyte := hpage (a + i) (by omega) (by omega) (by omega)
    have hget := hpart.getD (a - o + i) (by omega)
    have hpos : o + (a - o + i) = a + i := by omega
    have hoff : base + (a - n₀) + i = base + (a + i - n₀) := by omega
    rw [hpos] at hget
    rw [getElem?_take_of_lt hi, getElem?_drop, slice, getElem?_map,
      getElem?_range hi, Option.map_some, hoff, hbyte, hget, getD_eq_getElem?_getD,
      getElem?_eq_getElem (by omega), Option.getD_some]
  . rw [getElem?_eq_none (by simp [slice]; omega), getElem?_eq_none]
    simp only [length_take]
    omega

theorem readUndoBytes_spec (hpage : PageHolds log r base n₀ lim) (d src : Bytes)
    (set : Bytes → UndoRecord → UndoRecord) (rd : Reader) (o a : Nat) (hd : d.length = src.length)
    (hpart : IsPart r o src) (hat : At base n₀ lim rd a) (hmy : rd.myBytesRead + o = a)
    (hset : set (d.fill src (a - o)) rd.urec = rd.urec)
    : ∃ rd', readUndoBytes log (d.fill src (a - o)) set rd
          = (decide (o + src.length ≤ reach lim a (o + src.length)), rd')
        ∧ At base n₀ lim rd' (reach lim a (o + src.length))
        ∧ (o + src.length ≤ reach lim a (o + src.length) →
            rd'.myBytesRead + (o + src.length) = reach lim a (o + src.length))
        ∧ rd'.urec = set (d.fill src (reach lim a (o + src.length) - o)) rd.urec := by
  have hlen := length_fill d src (a - o) hd
  have hge := hat.ge
  have hle := hat.le
  by_cases hskip : src.length ≤ rd.myBytesRead
  . have hreach : reach lim a (o + src.length) = a := by
      simp only [reach]
      omega
    rw [hreach]
    refine ⟨{ rd with myBytesRead := rd.myBytesRead - src.length }, ?_, ?_, ?_, ?_⟩
    . simp only [readUndoBytes, hlen, hskip, if_true, Prod.mk.injEq, and_true]
      symm
      rw [decide_eq_true_eq]
      omega
    . exact { hat with ge := hge, le := hle }
    . simp only
      omega
    . exact hset.symm
  . have hreach : reach lim a (o + src.length) = min (o + src.length) lim := by
      simp only [reach]
      omega
    have hroom : rd.endptr - rd.readptr = lim - a := by
      rw [hat.endptr, hat.readptr]
      omega
    rw [hreach]
    by_cases hzero : lim = a
    . have hmin : min (o + src.length) lim = a := by omega
      rw [hmin]
      refine ⟨rd, ?_, hat, ?_, hset.symm⟩
      . have hcan : min (src.length - rd.myBytesRead) (lim - a) = 0 := by omega
        have hout : ¬ o + src.length ≤ a := by omega
        simp [readUndoBytes, hlen, hskip, hroom, hcan, hout]
      . omega
    . have hcan : min (src.length - rd.myBytesRead) (lim - a) = min (o + src.length) lim - a := by
        omega
      have hpos : ¬ min (o + src.length) lim - a = 0 := by omega
      have hsum : a - o + (min (o + src.length) lim - a) = min (o + src.length) lim - o := by omega
      have hslice := slice_eq hpage o a (min (o + src.length) lim - a) src hpart hge (by omega)
        (by omega) (by omega)
      have hfill := splice_fill d src (a - o) (min (o + src.length) lim - a) (by omega)
      have hread : (d.fill src (a - o)).splice rd.myBytesRead
          (slice log rd.readptr (min (o + src.length) lim - a))
          = d.fill src (min (o + src.length) lim - o) := by
        have hmy' : rd.myBytesRead = a - o := by omega
        rw [hmy', hat.readptr, hslice, hfill, hsum]
      refine ⟨{ rd with
        urec := set (d.fill src (min (o + src.length) lim - o)) rd.urec
        readptr := rd.readptr + (min (o + src.length) lim - a)
        alreadyRead := rd.alreadyRead + (min (o + src.length) lim - a)
        myBytesRead := 0 }, ?_, ?_, ?_, rfl⟩
      . simp only [readUndoBytes, hlen, hskip, if_false, hroom, hcan, hpos, hread, Prod.mk.injEq,
          and_true, decide_eq_decide]
        omega
      . refine ⟨?_, hat.endptr, ?_, ?_, ?_⟩
        . simp only [hat.readptr]
          omega
        . simp only [hat.alreadyRead]
          omega
        . omega
        . omega
      . simp only
        omega

def ReadsTo (r : UndoRecord) (base n₀ lim : Nat) (step : ReadStep) (o e : Nat) : Prop :=
  ∀ rd a raw, At base n₀ lim rd a → rd.myBytesRead + o = a → rd.urec = partialRec r a raw →
    ∃ rd', step rd = (decide (e ≤ reach lim a e), rd')
      ∧ At base n₀ lim rd' (reach lim a e)
      ∧ (e ≤ reach lim a e → rd'.myBytesRead + e = reach lim a e)
      ∧ rd'.urec = partialRec r (reach lim a e) raw

theorem ReadsTo.onlyIf {s : ReadStep} {o e : Nat} (info : UInt8) (hhdr : 22 ≤ o)
    (hs : r.hasInfo info = true → ReadsTo r base n₀ lim s o e)
    (hskip : r.hasInfo info = false → e = o)
    : ReadsTo r base n₀ lim (ReadStep.onlyIf info s) o e := by
  intro rd a raw hat hmy hrec
  have halim := hat.le
  have hinfo : rd.urec.hasInfo info = r.hasInfo info := by
    rw [hrec, partialRec_hasInfo r a raw info (by omega)]
  cases hflag : r.hasInfo info with
  | true =>
    simp only [ReadStep.onlyIf, hinfo, hflag, if_true]
    apply hs hflag rd a raw hat hmy hrec
  | false =>
    have he := hskip hflag
    have hreach : reach lim a e = a := by
      simp only [reach]
      omega
    rw [hreach]
    refine ⟨rd, ?_, hat, ?_, hrec⟩
    . simp only [ReadStep.onlyIf, hinfo, hflag, Bool.false_eq_true, if_false, Prod.mk.injEq, and_true]
      symm
      rw [decide_eq_true_eq]
      omega
    . omega

theorem readsTo_part [Layout α] (hpage : PageHolds log r base n₀ lim) (step : ReadStep)
    (get : UndoRecord → α) (set : α → UndoRecord → UndoRecord) (d v : α) (o : Nat)
    (hstep : ∀ rd, step rd
      = readUndoBytes log (toBytes (get rd.urec)) (fun bs => set (ofBytes bs)) rd)
    (hpart : IsPart r o (toBytes v))
    (hget : ∀ a raw, get (partialRec r a raw) = partOf d v o a)
    (hset : ∀ a a' raw, o ≤ a → a ≤ a' → a' ≤ max a (o + size α) →
      set (partOf d v o a') (partialRec r a raw) = partialRec r a' raw)
    : ReadsTo r base n₀ lim step o (o + size α) := by
  intro rd a raw hat hmy hrec
  have hge : o ≤ a := by omega
  have halim := hat.le
  have hbytes : toBytes (get rd.urec)
      = (toBytes d).fill (toBytes v) (a - o) := by
    rw [hrec, hget, toBytes_partOf]
  have hfix := hset a a raw hge (Nat.le_refl a) (by omega)
  have hlen : (toBytes d).length = (toBytes v).length := by
    rw [length_toBytes, length_toBytes]
  obtain ⟨rd', hread, hat', hmy', hrec'⟩ := readUndoBytes_spec hpage (toBytes d)
    (toBytes v) (fun bs => set (ofBytes bs)) rd o a hlen hpart hat hmy
    (by rw [hrec]; exact hfix)
  rw [length_toBytes] at hread hat' hmy' hrec'
  refine ⟨rd', ?_, hat', hmy', ?_⟩
  . rw [hstep, hbytes]
    exact hread
  . rw [hrec', hrec]
    apply hset _ _ _ hge
    . simp only [reach]
      omega
    . simp only [reach]
      omega

section Parts

-- The content of a record behind its fixed parts.

def tailRaw (r : UndoRecord) : Bytes :=
  (if r.hasInfo undoUrecInfoPayload then r.rawdata else []) ++ Layout.toBytes r.recordSize

def tailPay (r : UndoRecord) : Bytes :=
  (if r.hasInfo undoUrecInfoPayload then Layout.toBytes r.written.wpay else []) ++ tailRaw r

def tailTspc (r : UndoRecord) : Bytes :=
  (if r.hasInfo undoUrecInfoHasTablespaceoid then Layout.toBytes r.written.wtspc else [])
    ++ tailPay r

def tailPart (r : UndoRecord) : Bytes :=
  (if r.hasInfo undoUrecInfoHasPartoid then Layout.toBytes r.written.wpart else []) ++ tailTspc r

def tailTd (r : UndoRecord) : Bytes :=
  (if r.hasInfo undoUrecInfoOldtd then Layout.toBytes r.written.wtd else []) ++ tailPart r

def tailTxn (r : UndoRecord) : Bytes :=
  (if r.hasInfo undoUrecInfoTransac then Layout.toBytes r.written.wtxn else []) ++ tailTd r

theorem drop_part (content src rest : Bytes) (c : Bool) (o n : Nat) (hlen : src.length = n)
    (h : content.drop o = (if c then src else []) ++ rest)
    : content.drop (o + if c then n else 0) = rest := by
  rw [← drop_drop, h]
  cases c
  . simp
  . simp [← hlen]

variable (h : r.recordBytes < 2 ^ 16)
include h

theorem content_eq_tail : r.content = toBytes r.written.whdr ++ (toBytes r.written.wblk ++ tailTxn r) := by
  rw [content_eq r h]
  simp only [tailTxn, tailTd, tailPart, tailTspc, tailPay, tailRaw, written]
  congr 2
  repeat' split
  all_goals rfl

theorem drop_wblk : r.content.drop 22 = toBytes r.written.wblk ++ tailTxn r := by
  rw [content_eq_tail h]
  exact drop_left' (length_whdr _)

theorem drop_wtxn : r.content.drop 36 = tailTxn r := by
  have heq : (36 : Nat) = 22 + 14 := rfl
  rw [heq, ← drop_drop, drop_wblk h]
  exact drop_left' (length_wblk _)

theorem drop_wtd : r.content.drop r.offTd = tailTd r :=
  drop_part _ _ _ _ _ _ (length_wtxn _) (drop_wtxn h)

theorem drop_wpart : r.content.drop r.offPart = tailPart r :=
  drop_part _ _ _ _ _ _ (length_wtd _) (drop_wtd h)

theorem drop_wtspc : r.content.drop r.offTspc = tailTspc r :=
  drop_part _ _ _ _ _ _ (length_wpart _) (drop_wpart h)

theorem drop_wpay : r.content.drop r.offPay = tailPay r :=
  drop_part _ _ _ _ _ _ (length_wtspc _) (drop_wtspc h)

theorem drop_rawdata : r.content.drop r.offRaw = tailRaw r :=
  drop_part _ _ _ _ _ _ (length_wpay _) (drop_wpay h)

theorem content_length_eq
    : r.content.length = r.offRaw + (if r.hasInfo undoUrecInfoPayload then r.rawdata.length else 0) + 2 := by
  rw [length_content r h, recordBytes_eq]
  simp only [offRaw, offPay, offTspc, offPart, offTd]
  cases r.hasInfo undoUrecInfoPayload
  . simp only [Bool.false_eq_true, if_false]
    omega
  . simp only [if_true]
    omega

theorem isPart_of_drop (o : Nat) (src rest : Bytes) (hdrop : r.content.drop o = src ++ rest)
    (ho : o ≤ r.offRaw)
    : IsPart r o src := by
  refine ⟨rest, hdrop, ?_⟩
  rw [content_length_eq h]
  omega

end Parts

section Steps

variable (hpage : PageHolds log r base n₀ lim) (h : r.recordBytes < 2 ^ 16)
include hpage h

theorem readsTo_whdr : ReadsTo r base n₀ lim (readWhdr log) 0 22 := by
  apply readsTo_part hpage (readWhdr log) (·.whdr) (fun v u => { u with whdr := v }) reset.whdr
    r.written.whdr 0 (fun _ => rfl)
  . apply isPart_of_drop h 0 _ _ (content_eq_tail h) (Nat.zero_le _)
  . intro a raw
    rfl
  . intro a a' raw _ hle hmax
    apply partialRec_whdr r a a' raw hle hmax

theorem readsTo_wblk : ReadsTo r base n₀ lim (readWblk log) 22 36 := by
  have hmono := offsets_mono r
  apply readsTo_part hpage (readWblk log) (·.wblk) (fun v u => { u with wblk := v }) reset.wblk
    r.written.wblk 22 (fun _ => rfl)
  . apply isPart_of_drop h 22 _ _ (drop_wblk h) (by omega)
  . intro a raw
    rfl
  . intro a a' raw hge hle hmax
    apply partialRec_wblk r a a' raw hge hle hmax

theorem readsTo_optional [Layout α] (info : UInt8) (step : ReadStep) (get : UndoRecord → α)
    (set : α → UndoRecord → UndoRecord) (d v : α) (o : Nat) (rest : Bytes) (hhdr : 22 ≤ o)
    (ho : o ≤ r.offRaw)
    (hstep : ∀ rd, step rd
      = readUndoBytes log (toBytes (get rd.urec)) (fun bs => set (ofBytes bs)) rd)
    (hdrop : r.content.drop o = (if r.hasInfo info then toBytes v else []) ++ rest)
    (hget : ∀ a raw, get (partialRec r a raw) = partOf d v o a)
    (hset : ∀ a a' raw, o ≤ a → a ≤ a' → a' ≤ max a (o + if r.hasInfo info then size α else 0) →
      set (partOf d v o a') (partialRec r a raw) = partialRec r a' raw)
    : ReadsTo r base n₀ lim (ReadStep.onlyIf info step) o (o + if r.hasInfo info then size α else 0) := by
  apply ReadsTo.onlyIf _ hhdr
  . intro hinfo
    simp only [hinfo, if_true] at hdrop hset ⊢
    exact readsTo_part hpage step get set d v o hstep (isPart_of_drop h o _ _ hdrop ho) hget hset
  . intro hinfo
    simp [hinfo]

theorem readsTo_wtxn
    : ReadsTo r base n₀ lim (ReadStep.onlyIf undoUrecInfoTransac (readWtxn log)) 36 r.offTd := by
  have hmono := offsets_mono r
  apply readsTo_optional hpage h _ (readWtxn log) (·.wtxn) (fun v u => { u with wtxn := v }) reset.wtxn
    r.written.wtxn 36 _ (by omega) (by omega) (fun _ => rfl) (drop_wtxn h) (fun _ _ => rfl)
  exact partialRec_wtxn r

theorem readsTo_wtd
    : ReadsTo r base n₀ lim (ReadStep.onlyIf undoUrecInfoOldtd (readWtd log)) r.offTd r.offPart := by
  have hmono := offsets_mono r
  apply readsTo_optional hpage h _ (readWtd log) (·.wtd) (fun v u => { u with wtd := v }) reset.wtd
    r.written.wtd r.offTd _ (by omega) (by omega) (fun _ => rfl) (drop_wtd h) (fun _ _ => rfl)
  exact partialRec_wtd r

theorem readsTo_wpart
    : ReadsTo r base n₀ lim (ReadStep.onlyIf undoUrecInfoHasPartoid (readWpart log)) r.offPart r.offTspc := by
  have hmono := offsets_mono r
  apply readsTo_optional hpage h _ (readWpart log) (·.wpart) (fun v u => { u with wpart := v })
    reset.wpart r.written.wpart r.offPart _ (by omega) (by omega) (fun _ => rfl) (drop_wpart h)
    (fun _ _ => rfl)
  exact partialRec_wpart r

theorem readsTo_wtspc
    : ReadsTo r base n₀ lim (ReadStep.onlyIf undoUrecInfoHasTablespaceoid (readWtspc log)) r.offTspc
        r.offPay := by
  have hmono := offsets_mono r
  apply readsTo_optional hpage h _ (readWtspc log) (·.wtspc) (fun v u => { u with wtspc := v })
    reset.wtspc r.written.wtspc r.offTspc _ (by omega) (by omega) (fun _ => rfl) (drop_wtspc h)
    (fun _ _ => rfl)
  exact partialRec_wtspc r

theorem readsTo_wpay (hinfo : r.hasInfo undoUrecInfoPayload = true)
    : ReadsTo r base n₀ lim (readWpay log) r.offPay r.offRaw := by
  have hmono := offsets_mono r
  have hend : r.offRaw = r.offPay + 2 := by simp [offRaw, hinfo]
  have hdrop := drop_wpay h
  simp only [tailPay, hinfo, if_true] at hdrop
  rw [hend]
  apply readsTo_part hpage (readWpay log) (·.wpay) (fun v u => { u with wpay := v }) reset.wpay
    r.written.wpay r.offPay (fun _ => rfl)
  . apply isPart_of_drop h r.offPay _ _ hdrop (by omega)
  . intro a raw
    rfl
  . intro a a' raw hge hle _
    apply partialRec_wpay r a a' raw hge hle

end Steps

section Finish

def readBytes (r : UndoRecord) : Nat :=
  r.offRaw + if r.hasInfo undoUrecInfoPayload then r.rawdata.length else 0

def rawAt (r : UndoRecord) (a : Nat) : Bytes :=
  if r.hasInfo undoUrecInfoPayload = true ∧ r.offRaw ≤ a then
    Bytes.fill (List.replicate r.rawdata.length 0) r.rawdata (a - r.offRaw)
  else
    []

def Finishes (r : UndoRecord) (base n₀ lim : Nat) (step : ReadStep) (o : Nat) : Prop :=
  ∀ rd a, At base n₀ lim rd a → rd.myBytesRead + o = a → (a = n₀ ∨ a = o) →
    rd.urec = partialRec r a (rawAt r n₀) →
    ∃ rd', step rd = (decide (readBytes r ≤ lim), rd')
      ∧ (readBytes r ≤ lim → { rd'.urec with isCopy := true } = r.written)
      ∧ (lim < readBytes r →
          rd'.alreadyRead = lim ∧ rd'.urec = partialRec r lim (rawAt r lim))

theorem Finishes.then {s t : ReadStep} {o e : Nat} (hs : ReadsTo r base n₀ lim s o e)
    (ht : Finishes r base n₀ lim t e) (hoe : o ≤ e) (he : e ≤ r.offRaw)
    : Finishes r base n₀ lim (s.then t) o := by
  intro rd a hat hmy hfresh hrec
  have halim := hat.le
  have hage := hat.ge
  obtain ⟨rd₁, hstep, hat₁, hmy₁, hrec₁⟩ := hs rd a (rawAt r n₀) hat hmy hrec
  by_cases hdone : e ≤ reach lim a e
  . obtain ⟨rd₂, hstep₂, hrest⟩ := ht rd₁ (reach lim a e) hat₁ (hmy₁ hdone) (by
      simp only [reach] at hdone ⊢
      omega) hrec₁
    refine ⟨rd₂, ?_, hrest⟩
    simp [ReadStep.then, hstep, hdone, hstep₂]
  . have hreach : reach lim a e = lim ∧ lim < e := by
      simp only [reach] at hdone ⊢
      omega
    have hread : ¬ readBytes r ≤ lim := by
      simp only [readBytes]
      omega
    have hraw : rawAt r n₀ = rawAt r lim := by
      simp only [rawAt]
      rw [if_neg (by omega), if_neg (by omega)]
    refine ⟨rd₁, ?_, fun hle => absurd hle hread, fun _ => ⟨?_, ?_⟩⟩
    . simp [ReadStep.then, hstep, hdone, hread]
    . rw [hat₁.alreadyRead, hreach.1]
    . rw [hrec₁, hreach.1, hraw]

theorem partialRec_end_congr (r : UndoRecord) (a a' : Nat) (raw : Bytes) (h : r.offRaw ≤ a)
    (h' : r.offRaw ≤ a')
    : partialRec r a raw = partialRec r a' raw := by
  have hend := partialRec_end r a h
  have hend' := partialRec_end r a' h'
  have hall : ∀ b, partialRec r b raw = { partialRec r b r.written.rawdata with rawdata := raw } :=
    fun _ => rfl
  rw [hall a, hall a', hend, hend']

theorem payloadlen_written (r : UndoRecord) (h : r.recordBytes < 2 ^ 16)
    (hinfo : r.hasInfo undoUrecInfoPayload = true)
    : r.written.wpay.payloadlen.toNat = r.rawdata.length := by
  simp only [written, hinfo, if_true]
  apply UInt16.toNat_ofNat_of_lt' (length_rawdata_lt r hinfo h)

theorem rawAt_eq (r : UndoRecord) (n₀ a : Nat) (hinfo : r.hasInfo undoUrecInfoPayload = true)
    (hlen : r.rawdata ≠ []) (ha : a = n₀ ∨ a = r.offRaw) (hn : n₀ ≤ a) (hle : r.offRaw ≤ a)
    : (if rawAt r n₀ = [] then List.replicate r.rawdata.length 0 else rawAt r n₀)
        =
      fill (List.replicate r.rawdata.length 0) r.rawdata (a - r.offRaw) := by
  by_cases hbefore : n₀ < r.offRaw
  . have hzero : a - r.offRaw = 0 := by omega
    have hraw : rawAt r n₀ = [] := by
      simp only [rawAt]
      rw [if_neg (by omega)]
    rw [hraw, if_pos rfl, hzero, fill_zero]
  . have heq : a = n₀ := by omega
    have hraw : rawAt r n₀
        = fill (List.replicate r.rawdata.length 0) r.rawdata (a - r.offRaw) := by
      simp only [rawAt]
      rw [if_pos ⟨hinfo, by omega⟩, heq]
    have hne : fill (List.replicate r.rawdata.length 0) r.rawdata (a - r.offRaw) ≠ [] := by
      intro hnil
      have hfill := length_fill (List.replicate r.rawdata.length 0) r.rawdata (a - r.offRaw) (by simp)
      rw [hnil, length_nil] at hfill
      apply hlen
      apply length_eq_zero_iff.mp hfill.symm
    rw [hraw, if_neg hne]

variable (hpage : PageHolds log r base n₀ lim) (h : r.recordBytes < 2 ^ 16)
include hpage h

theorem finishes_rawdata (copyData : Bool) (hinfo : r.hasInfo undoUrecInfoPayload = true)
    (hn : n₀ ≤ readBytes r)
    : Finishes r base n₀ lim (readRawdata log copyData (decide (0 < n₀))) r.offRaw := by
  intro rd a hat hmy hfresh hrec
  have hmono := offsets_mono r
  have halim := hat.le
  have hage := hat.ge
  have hge : r.offRaw ≤ a := by omega
  have hread : readBytes r = r.offRaw + r.rawdata.length := by simp [readBytes, hinfo]
  have hwritten : r.written.rawdata = r.rawdata := by simp [written, hinfo]
  have hpay : rd.urec.wpay.payloadlen.toNat = r.rawdata.length := by
    have hwpay : (partialRec r a (rawAt r n₀)).wpay = r.written.wpay := by
      change (partialRec r a r.written.rawdata).wpay = r.written.wpay
      rw [partialRec_end r a hge]
    rw [hrec, hwpay, payloadlen_written r h hinfo]
  have hroom : rd.endptr - rd.readptr = lim - a := by
    rw [hat.endptr, hat.readptr]
    omega
  have hdrop := drop_rawdata h
  simp only [tailRaw, hinfo, if_true] at hdrop
  have hpart := isPart_of_drop h r.offRaw _ _ hdrop (Nat.le_refl _)
  by_cases hzero : r.rawdata.length = 0
  . have hempty : r.rawdata = [] := length_eq_zero_iff.mp hzero
    have hraw : rawAt r n₀ = r.written.rawdata := by
      simp [rawAt, hwritten, hempty, fill]
    refine ⟨rd, ?_, ?_, ?_⟩
    . simp only [readRawdata, hpay, hzero, if_true, Prod.mk.injEq, and_true]
      symm
      rw [decide_eq_true_eq]
      omega
    . intro _
      rw [hrec, hraw, partialRec_end r a hge]
      rfl
    . omega
  . have hne : r.rawdata ≠ [] := by
      intro hnil
      simp [hnil] at hzero
    by_cases hcopy : (!copyData && !decide (0 < n₀) && decide (r.rawdata.length ≤ lim - a)) = true
    . -- Nothing of the record was on an earlier page, so the payload starts at the read pointer.
      simp only [Bool.and_eq_true, Bool.not_eq_true', decide_eq_false_iff_not, decide_eq_true_eq] at hcopy
      have hao : a = r.offRaw := by omega
      have hslice := slice_eq hpage r.offRaw a r.rawdata.length r.rawdata hpart hage hge (by omega) (by omega)
      rw [hao, Nat.sub_self, drop_zero, take_length, ← hao, ← hat.readptr] at hslice
      refine ⟨{ rd with
        urec := { rd.urec with rawdata := slice log rd.readptr r.rawdata.length, isCopy := false } },
        ?_, ?_, ?_⟩
      . simp only [readRawdata, hpay, hzero, if_false, hroom, hcopy]
        simp only [decide_false, Bool.not_false, decide_true, Bool.and_true, if_true]
        symm
        rw [Prod.mk.injEq]
        refine ⟨?_, rfl⟩
        rw [decide_eq_true_eq]
        omega
      . intro _
        simp only [hslice, hrec]
        rw [← partialRec_end r a hge, hwritten]
        rfl
      . omega
    . have hdata := rawAt_eq r n₀ a hinfo hne hfresh hage hge
      have hraw : rd.urec.rawdata = rawAt r n₀ := by
        rw [hrec]
        rfl
      obtain ⟨rd', hstep, hat', _, hrec'⟩ := readUndoBytes_spec hpage
        (List.replicate r.rawdata.length 0) r.rawdata (fun bs u => { u with rawdata := bs })
        { rd with urec := { rd.urec with
          rawdata := fill (List.replicate r.rawdata.length 0) r.rawdata (a - r.offRaw) } }
        r.offRaw a (by simp) hpart { hat with ge := hage, le := halim } hmy rfl
      have hreach : reach lim a (r.offRaw + r.rawdata.length) = min (readBytes r) lim := by
        simp only [reach, hread]
        omega
      rw [hreach, ← hread] at hstep
      rw [hreach] at hat' hrec'
      simp only [hrec] at hrec'
      have hend : rd'.urec = partialRec r (min (readBytes r) lim)
          (fill (List.replicate r.rawdata.length 0) r.rawdata (min (readBytes r) lim - r.offRaw)) := by
        exact hrec'.trans (partialRec_end_congr r a _ _ hge (by omega))
      refine ⟨rd', ?_, ?_, ?_⟩
      . simp only [readRawdata, hpay, hzero, if_false, hroom, hcopy, hraw, hdata]
        rw [if_neg (by simp)]
        rw [hstep, Prod.mk.injEq]
        refine ⟨?_, rfl⟩
        rw [decide_eq_decide]
        omega
      . intro hle
        rw [hend, Nat.min_eq_left hle, fill_of_length_le _ _ _ (by simp) (by omega),
          ← hwritten, partialRec_end r _ (by omega)]
        rfl
      . intro hlt
        have hmin : min (readBytes r) lim = lim := by omega
        rw [hmin] at hat' hend
        refine ⟨hat'.alreadyRead, ?_⟩
        rw [hend]
        simp only [rawAt]
        rw [if_pos ⟨hinfo, by omega⟩]

theorem finishes_payload (copyData : Bool) (hn : n₀ ≤ readBytes r)
    : Finishes r base n₀ lim (ReadStep.onlyIf undoUrecInfoPayload
        ((readWpay log).then (readRawdata log copyData (decide (0 < n₀))))) r.offPay := by
  have hmono := offsets_mono r
  cases hinfo : r.hasInfo undoUrecInfoPayload with
  | true =>
    have hall := Finishes.then (readsTo_wpay hpage h hinfo)
      (finishes_rawdata hpage h copyData hinfo hn) (by omega) (Nat.le_refl _)
    intro rd a hat hmy hfresh hrec
    have hflag : rd.urec.hasInfo undoUrecInfoPayload = true := by
      rw [hrec, partialRec_hasInfo r a _ _ (by omega), hinfo]
    simp only [ReadStep.onlyIf, hflag, if_true]
    apply hall rd a hat hmy hfresh hrec
  | false =>
    intro rd a hat hmy hfresh hrec
    have halim := hat.le
    have hflag : rd.urec.hasInfo undoUrecInfoPayload = false := by
      rw [hrec, partialRec_hasInfo r a _ _ (by omega), hinfo]
    have hread : readBytes r = r.offPay ∧ r.offRaw = r.offPay := by
      simp [readBytes, offRaw, hinfo]
    have hraw : rawAt r n₀ = r.written.rawdata := by
      simp [rawAt, written, hinfo]
    refine ⟨rd, ?_, ?_, ?_⟩
    . simp only [ReadStep.onlyIf, hflag, Bool.false_eq_true, if_false, Prod.mk.injEq, and_true]
      symm
      rw [decide_eq_true_eq]
      omega
    . intro _
      rw [hrec, hraw, partialRec_end r a (by omega)]
      rfl
    . omega

end Finish

end Page

section Load

variable {log : UndoLog} {r : UndoRecord} {u₀ : Nat}

def LogHolds (log : UndoLog) (r : UndoRecord) (u₀ : Nat) : Prop :=
  ∀ i, i < r.content.length → log (undoLogOffsetFromUsableByteNo (u₀ + i)) = r.content.getD i 0

theorem LogHolds.page (hlog : LogHolds log r u₀) (n : Nat)
    : PageHolds log r (undoLogOffsetFromUsableByteNo (u₀ + n)) n (n + leftOnPage (u₀ + n)) := by
  intro i hn hlim hlen
  have hbyte := hlog i hlen
  have hsum : u₀ + i = u₀ + n + (i - n) := by omega
  rw [hsum, fromUsable_add (u₀ + n) (i - n) (by omega)] at hbyte
  exact hbyte

theorem readUndoRecord_spec (hlog : LogHolds log r u₀) (h : r.recordBytes < 2 ^ 16)
    (copyData : Bool) (n : Nat) (hn : n ≤ readBytes r)
    : ∃ rd, readUndoRecord log (partialRec r n (rawAt r n)) (undoLogOffsetFromUsableByteNo (u₀ + n) / blcksz)
          (undoLogOffsetFromUsableByteNo (u₀ + n) % blcksz) n copyData
          = (decide (readBytes r ≤ n + leftOnPage (u₀ + n)), rd)
        ∧ (readBytes r ≤ n + leftOnPage (u₀ + n) → { rd.urec with isCopy := true } = r.written)
        ∧ (n + leftOnPage (u₀ + n) < readBytes r → rd.alreadyRead = n + leftOnPage (u₀ + n)
              ∧ rd.urec = partialRec r (n + leftOnPage (u₀ + n)) (rawAt r (n + leftOnPage (u₀ + n)))) := by
  have hmono := offsets_mono r
  have hpage := hlog.page n
  have hend := fromUsable_add_leftOnPage (u₀ + n)
  have hsteps := (finishes_payload hpage h copyData hn)
  have hsteps := Finishes.then (readsTo_wtspc hpage h) hsteps (by omega) (by omega)
  have hsteps := Finishes.then (readsTo_wpart hpage h) hsteps (by omega) (by omega)
  have hsteps := Finishes.then (readsTo_wtd hpage h) hsteps (by omega) (by omega)
  have hsteps := Finishes.then (readsTo_wtxn hpage h) hsteps (by omega) (by omega)
  have hsteps := Finishes.then (readsTo_wblk hpage h) hsteps (by omega) (by omega)
  have hsteps := Finishes.then (readsTo_whdr hpage h) hsteps (by omega) (by omega)
  apply hsteps _ n
  . constructor
    . simp only [Nat.div_add_mod', Nat.sub_self, Nat.add_zero]
    . simp only [Nat.add_sub_cancel_left]
      exact hend.symm
    . rfl
    . exact Nat.le_refl n
    . omega
  . rfl
  . exact Or.inl rfl
  . rfl

def loadAt (log : UndoLog) (r : UndoRecord) (u₀ : Nat) (copyData : Bool) (pages n : Nat)
    : LoadResult :=
  load.go log copyData pages (undoLogOffsetFromUsableByteNo (u₀ + n) / blcksz)
    (undoLogOffsetFromUsableByteNo (u₀ + n) % blcksz) n (partialRec r n (rawAt r n))

theorem loadAt_panic (log : UndoLog) (r : UndoRecord) (u₀ : Nat) (copyData : Bool) (pages n : Nat)
    (hguard : blcksz < n)
    : loadAt log r u₀ copyData (pages + 1) n = .panic := by
  simp [loadAt, load.go, hguard]

theorem loadAt_done (hlog : LogHolds log r u₀) (h : r.recordBytes < 2 ^ 16) (copyData : Bool)
    (pages n : Nat) (hguard : n ≤ blcksz) (hn : n ≤ readBytes r)
    (hfit : readBytes r ≤ n + leftOnPage (u₀ + n))
    : ∃ r', loadAt log r u₀ copyData (pages + 1) n = .loaded r'
        ∧ { r' with isCopy := true } = r.written := by
  obtain ⟨rd, hread, hrec, _⟩ := readUndoRecord_spec hlog h copyData n hn
  refine ⟨rd.urec, ?_, hrec hfit⟩
  have hnot : ¬ blcksz < n := by omega
  simp [loadAt, load.go, hnot, hread, hfit]

theorem loadAt_next (hlog : LogHolds log r u₀) (h : r.recordBytes < 2 ^ 16) (copyData : Bool)
    (pages n : Nat) (hguard : n ≤ blcksz) (hmore : n + leftOnPage (u₀ + n) < readBytes r)
    : loadAt log r u₀ copyData (pages + 1) n = loadAt log r u₀ copyData pages (n + leftOnPage (u₀ + n)) := by
  obtain ⟨rd, hread, _, hrec⟩ := readUndoRecord_spec hlog h copyData n (by omega)
  obtain ⟨halready, hurec⟩ := hrec hmore
  have hnot : ¬ blcksz < n := by omega
  have hfit : ¬ readBytes r ≤ n + leftOnPage (u₀ + n) := by omega
  have hnext := fromUsable_nextPage (u₀ + n)
  rw [Nat.add_assoc u₀ n] at hnext
  have hdiv : undoLogOffsetFromUsableByteNo (u₀ + (n + leftOnPage (u₀ + n))) / blcksz
      = undoLogOffsetFromUsableByteNo (u₀ + n) / blcksz + 1 := by
    rw [hnext]
    simp only [undoLogBlockHeaderSize, blcksz]
    omega
  have hmod : undoLogOffsetFromUsableByteNo (u₀ + (n + leftOnPage (u₀ + n))) % blcksz
      = undoLogBlockHeaderSize := by
    rw [hnext]
    simp only [undoLogBlockHeaderSize, blcksz]
    omega
  conv => lhs; rw [loadAt, load.go]
  simp only [hnot, if_false, hread, hfit, decide_false, halready, hurec]
  rw [loadAt, hdiv, hmod]

-- The guard of `Load` lets a record through that ends on the page after the one it starts on, and
-- on the page after that if the first page holds no more bytes of it than a page header has.
def Loadable (urp bytes : Nat) : Prop :=
  bytes ≤ blcksz - urp % blcksz + undoLogUsableBytesPerPage
    ∨ (blcksz - urp % blcksz ≤ undoLogBlockHeaderSize
      ∧ bytes ≤ blcksz - urp % blcksz + 2 * undoLogUsableBytesPerPage)

instance (urp bytes : Nat) : Decidable (Loadable urp bytes) :=
  inferInstanceAs (Decidable (_ ∨ _))

theorem load_eq_loadAt (r : UndoRecord) (urp : Nat) (copyData : Bool)
    (hurp : undoLogBlockHeaderSize ≤ urp % blcksz)
    : load log urp copyData = loadAt log r (undoLogOffsetToUsableByteNo urp) copyData (blcksz + 2) 0 := by
  have hmono := offsets_mono r
  have hraw : rawAt r 0 = [] := by
    simp only [rawAt]
    rw [if_neg (by omega)]
  rw [load, loadAt, Nat.add_zero (undoLogOffsetToUsableByteNo urp), fromUsable_toUsable urp hurp, hraw,
    partialRec_zero]

theorem leftOnPage_toUsable (urp : Nat) (hurp : undoLogBlockHeaderSize ≤ urp % blcksz)
    : leftOnPage (undoLogOffsetToUsableByteNo urp) = blcksz - urp % blcksz := by
  simp only [leftOnPage, undoLogOffsetToUsableByteNo, undoLogUsableBytesPerPage,
    undoLogBlockHeaderSize, blcksz] at *
  omega

theorem load_spec (urp : Nat) (copyData : Bool) (h : r.recordBytes < 2 ^ 16)
    (hurp : undoLogBlockHeaderSize ≤ urp % blcksz)
    (hlog : LogHolds log r (undoLogOffsetToUsableByteNo urp))
    : (Loadable urp (readBytes r) →
          ∃ r', load log urp copyData = .loaded r' ∧ { r' with isCopy := true } = r.written)
        ∧ (¬ Loadable urp (readBytes r) → load log urp copyData = .panic) := by
  rw [load_eq_loadAt r urp copyData hurp]
  have hleft := leftOnPage_toUsable urp hurp
  have hnext := leftOnPage_nextPage (undoLogOffsetToUsableByteNo urp)
  generalize undoLogOffsetToUsableByteNo urp = u at *
  have hpos := leftOnPage_pos u
  have hsecond : leftOnPage (u + (leftOnPage u + undoLogUsableBytesPerPage))
      = undoLogUsableBytesPerPage := by
    have hthird := leftOnPage_nextPage (u + leftOnPage u)
    rw [hnext, Nat.add_assoc] at hthird
    exact hthird
  have hzero : leftOnPage (u + 0) = leftOnPage u := rfl
  have hle : leftOnPage u ≤ undoLogUsableBytesPerPage := Nat.sub_le ..
  simp only [Loadable, ← hleft]
  have hguard : undoLogUsableBytesPerPage ≤ blcksz := Nat.sub_le ..
  have hheader : undoLogUsableBytesPerPage + undoLogBlockHeaderSize = blcksz := rfl
  by_cases hone : readBytes r ≤ leftOnPage u
  . obtain ⟨r', hload, hrec⟩ := loadAt_done hlog h copyData (blcksz + 1) 0 (Nat.zero_le _)
      (Nat.zero_le _) (by omega)
    exact ⟨fun _ => ⟨r', hload, hrec⟩, fun hnot => absurd (Or.inl (by omega)) hnot⟩
  . rw [loadAt_next hlog h copyData (blcksz + 1) 0 (Nat.zero_le _) (by omega), hzero, Nat.zero_add]
    by_cases htwo : readBytes r ≤ leftOnPage u + undoLogUsableBytesPerPage
    . obtain ⟨r', hload, hrec⟩ := loadAt_done hlog h copyData blcksz (leftOnPage u) (by omega)
        (by omega) (by omega)
      exact ⟨fun _ => ⟨r', hload, hrec⟩, fun hnot => absurd (Or.inl htwo) hnot⟩
    . have hstep := loadAt_next hlog h copyData blcksz (leftOnPage u) (by omega) (by omega)
      rw [hnext] at hstep
      rw [hstep]
      by_cases hshort : leftOnPage u ≤ undoLogBlockHeaderSize
      . by_cases hthree : readBytes r ≤ leftOnPage u + 2 * undoLogUsableBytesPerPage
        . obtain ⟨r', hload, hrec⟩ := loadAt_done hlog h copyData (blcksz - 1)
            (leftOnPage u + undoLogUsableBytesPerPage) (by omega) (by omega) (by omega)
          exact ⟨fun _ => ⟨r', hload, hrec⟩, fun hnot => absurd (Or.inr ⟨hshort, hthree⟩) hnot⟩
        . have hlast := loadAt_next hlog h copyData (blcksz - 1)
            (leftOnPage u + undoLogUsableBytesPerPage) (by omega) (by omega)
          have hpanic := loadAt_panic log r u copyData (blcksz - 2)
            (leftOnPage u + undoLogUsableBytesPerPage + undoLogUsableBytesPerPage) (by
              simp only [undoLogUsableBytesPerPage, undoLogBlockHeaderSize, blcksz]
              omega)
          rw [hsecond] at hlast
          refine ⟨fun hyes => ?_, fun _ => hlast.trans hpanic⟩
          omega
      . have hpanic := loadAt_panic log r u copyData (blcksz - 1)
          (leftOnPage u + undoLogUsableBytesPerPage) (by omega)
        refine ⟨fun hyes => ?_, fun _ => hpanic⟩
        omega

end Load

section RoundTrip

theorem fromUsable_mod (u : Nat) : undoLogBlockHeaderSize ≤ undoLogOffsetFromUsableByteNo u % blcksz := by
  simp only [undoLogOffsetFromUsableByteNo, undoLogUsableBytesPerPage, undoLogBlockHeaderSize, blcksz]
  omega

theorem writeUsable_plus (log : UndoLog) (urp i : Nat) (bs : Bytes) (h : i < bs.length)
    : writeUsable log (undoLogOffsetToUsableByteNo urp) bs (undoLogOffsetPlusUsableBytes urp i)
        =
      bs.getD i 0 := by
  have hback := toUsable_fromUsable (undoLogOffsetToUsableByteNo urp + i)
  have hheader := fromUsable_mod (undoLogOffsetToUsableByteNo urp + i)
  rw [undoLogOffsetPlusUsableBytes, writeUsable, hback, if_pos ⟨hheader, by omega, by omega⟩,
    Nat.add_sub_cancel_left]

theorem writeUsable_other (log : UndoLog) (urp offset : Nat) (bs : Bytes)
    (h : ∀ i, i < bs.length → offset ≠ undoLogOffsetPlusUsableBytes urp i)
    : writeUsable log (undoLogOffsetToUsableByteNo urp) bs offset = log offset := by
  rw [writeUsable, if_neg]
  rintro ⟨hheader, hge, hlt⟩
  apply h (undoLogOffsetToUsableByteNo offset - undoLogOffsetToUsableByteNo urp) (by omega)
  rw [undoLogOffsetPlusUsableBytes, Nat.add_sub_cancel' hge, fromUsable_toUsable offset hheader]

theorem logHolds_writeUsable (log : UndoLog) (r : UndoRecord) (urp : Nat)
    : LogHolds (writeUsable log (undoLogOffsetToUsableByteNo urp) r.content) r
        (undoLogOffsetToUsableByteNo urp) := by
  intro i hi
  exact writeUsable_plus log urp i r.content hi

theorem readBytes_eq (r : UndoRecord) : readBytes r = r.recordBytes - 2 := by
  rw [recordBytes_eq]
  simp only [readBytes, offRaw, offPay, offTspc, offPart, offTd]
  by_cases hpay : r.hasInfo undoUrecInfoPayload = true
  . simp only [hpay, if_true]
    omega
  . simp only [hpay, if_false, Bool.false_eq_true]
    omega

theorem insertPrepared_load (r : UndoRecord) (log : UndoLog) (urp : Nat)
    (h : r.recordBytes < 2 ^ 16) (hurp : undoLogBlockHeaderSize ≤ urp % blcksz)
    : ∃ w, r.insertPrepared log urp = some w
        ∧ w.alreadyWritten = r.recordSize.toNat
        ∧ (∀ i, i < r.recordSize.toNat →
            w.log (undoLogOffsetPlusUsableBytes urp i) = r.content.getD i 0)
        ∧ (∀ offset, (∀ i, i < r.recordSize.toNat → offset ≠ undoLogOffsetPlusUsableBytes urp i) →
            w.log offset = log offset)
        ∧ w.endPosition = undoLogOffsetPlusUsableBytes urp r.recordSize.toNat
        ∧ ∀ copyData,
            (Loadable urp (r.recordSize.toNat - 2) →
              ∃ r', load w.log urp copyData = .loaded r' ∧ { r' with isCopy := true } = r.written)
            ∧ (¬ Loadable urp (r.recordSize.toNat - 2) → load w.log urp copyData = .panic) := by
  have hsize := recordSize_toNat r h
  have hlen := length_content r h
  obtain ⟨w, hw, hlog, halready, hend⟩ := insertPrepared_spec r log urp h hurp
  rw [hsize]
  refine ⟨w, hw, halready, ?_, ?_, hend, ?_⟩
  . intro i hi
    rw [hlog]
    exact writeUsable_plus log urp i r.content (by omega)
  . intro offset hoffset
    rw [hlog]
    apply writeUsable_other
    intro i hi
    exact hoffset i (by omega)
  . intro copyData
    rw [hlog, ← readBytes_eq]
    exact load_spec urp copyData h hurp (logHolds_writeUsable log r urp)

def crossingRecord : UndoRecord where
  whdr := ⟨7, 1, 2, 3, 4, 0x6B⟩
  wblk := ⟨5, 6, 7⟩
  wtxn := ⟨8⟩
  wtd := ⟨9⟩
  wpart := ⟨10⟩
  wtspc := ⟨11⟩
  wpay := ⟨0⟩
  rawdata := [1, 2, 3]
  isCopy := true

theorem insertPrepared_load_crossing
    : crossingRecord.recordBytes < 2 ^ 16 ∧ undoLogBlockHeaderSize ≤ 8180 % blcksz
        ∧ Loadable 8180 (crossingRecord.recordSize.toNat - 2)
        ∧ ∃ w, crossingRecord.insertPrepared (fun _ => 0) 8180 = some w
          ∧ ∃ r', load w.log 8180 false = .loaded r'
            ∧ { r' with isCopy := true } = crossingRecord.written := by
  have hload : Loadable 8180 (crossingRecord.recordSize.toNat - 2) := by decide
  obtain ⟨w, hw, _, _, _, _, hread⟩ :=
    insertPrepared_load crossingRecord (fun _ => 0) 8180 (by decide) (by decide)
  exact ⟨by decide, by decide, hload, w, hw, (hread false).1 hload⟩

def longRecord : UndoRecord :=
  { UndoRecord.reset with
    whdr := ⟨7, 1, 2, 3, 4, undoUrecInfoPayload⟩
    rawdata := List.replicate 16384 0 }

theorem recordBytes_longRecord : longRecord.recordBytes = 16424 := by
  have hpay : longRecord.hasInfo undoUrecInfoPayload = true := rfl
  have hraw : longRecord.rawdata.length = 16384 := length_replicate
  rw [recordBytes_eq, hraw, if_pos hpay]
  rfl

theorem load_longRecord
    : longRecord.recordBytes < 2 ^ 16 ∧ undoLogBlockHeaderSize ≤ 24 % blcksz
        ∧ ∃ w, longRecord.insertPrepared (fun _ => 0) 24 = some w
          ∧ load w.log 24 true = .panic
          ∧ ¬ ∃ r', load w.log 24 true = .loaded r' := by
  have hsize : longRecord.recordBytes < 2 ^ 16 := by
    rw [recordBytes_longRecord]
    decide
  obtain ⟨w, hw, hlog, _, _⟩ := insertPrepared_spec longRecord (fun _ => 0) 24 hsize (by decide)
  have hlong : ¬ Loadable 24 (readBytes longRecord) := by
    rw [readBytes_eq, recordBytes_longRecord]
    decide
  have hload := (load_spec 24 true hsize (by decide)
    (logHolds_writeUsable (fun _ => 0) longRecord 24)).2 hlong
  rw [← hlog] at hload
  refine ⟨hsize, by decide, w, hw, hload, ?_⟩
  rw [hload]
  rintro ⟨r', hr'⟩
  cases hr'

end RoundTrip

end Undo

import OpenGauss.Htap.DeltaTable.Impl

/-!
This module contains the verification of the delta table.
-/

open List

theorem defaultDeltapageElements_eq : defaultDeltapageElements = 512 := by
  decide

namespace DeltaTable

variable (table : DeltaTable) (pages : List DeltaPage) (elem : DeltaElement)

@[simp]
theorem lfirst_modify (cell cell' : Nat) (f : DeltaPage → DeltaPage) (h : cell < pages.length)
    : lfirst (pages.modify cell f) cell'
        =
      if cell = cell' then f (lfirst pages cell) else lfirst pages cell' := by
  simp only [lfirst, getD_eq_getElem?_getD, getElem?_modify]
  split
  . next heq =>
    subst heq
    simp [h]
  . simp

def slot (pages : List DeltaPage) (idx : Nat) : DeltaElement :=
  (lfirst pages (idx / defaultDeltapageElements)).data (idx % defaultDeltapageElements)

theorem slot_modify_insert (cell idx : Nat) (elem : DeltaElement)
    (h : cell < pages.length) (hused : (lfirst pages cell).used < defaultDeltapageElements)
    : slot (pages.modify cell (·.insert elem)) idx
        =
      if idx = defaultDeltapageElements * cell + (lfirst pages cell).used then
        elem
      else
        slot pages idx := by
  simp only [slot, lfirst_modify _ _ _ _ h, defaultDeltapageElements_eq] at *
  split
  . next heq =>
    subst heq
    simp only [DeltaPage.insert, Function.update_apply]
    split
    . rw [if_pos (by omega)]
    . rw [if_neg (by omega)]
  . rw [if_neg (by omega)]

theorem slot_modify_used (cell idx used : Nat) (h : cell < pages.length)
    : slot (pages.modify cell (fun p => { p with used := used })) idx = slot pages idx := by
  simp only [slot, lfirst_modify _ _ _ _ h]
  split
  . next heq => rw [heq]
  . rfl

/--
The pages hold `records` one after the other, and only the last page has room left.
-/
structure Holds (pages : List DeltaPage) (records : List DeltaElement) : Prop where
  slot_eq : ∀ idx (h : idx < records.length), slot pages idx = records[idx]
  used_eq : ∀ cell, cell < pages.length →
    (lfirst pages cell).used
      =
    min defaultDeltapageElements (records.length - defaultDeltapageElements * cell)
  length_le : records.length ≤ defaultDeltapageElements * pages.length
  le_length : defaultDeltapageElements * (pages.length - 1) ≤ records.length

namespace Holds

theorem nil : Holds [] [] := by
  constructor <;> simp

variable {pages : List DeltaPage} {records : List DeltaElement}

variable (h : Holds pages records)
include h

theorem isFull_iff (cell : Nat) (hcell : cell < pages.length)
    : (lfirst pages cell).isFull = true ↔ defaultDeltapageElements * (cell + 1) ≤ records.length := by
  simp only [DeltaPage.isFull, h.used_eq cell hcell, decide_eq_true_eq, ge_iff_le]
  simp only [defaultDeltapageElements_eq]
  omega

theorem append_new (hfull : records.length = defaultDeltapageElements * pages.length)
    : Holds (pages ++ [DeltaPage.new]) records := by
  have hold : ∀ cell, cell < pages.length → lfirst (pages ++ [DeltaPage.new]) cell = lfirst pages cell := by
    intro cell hcell
    simp [lfirst, getElem?_append_left hcell]
  constructor
  . intro idx hidx
    rw [← h.slot_eq idx hidx, slot, hold, slot]
    simp only [defaultDeltapageElements_eq] at *
    omega
  . intro cell hcell
    simp only [length_append, length_singleton] at hcell
    by_cases hlast : cell < pages.length
    . rw [hold cell hlast, h.used_eq cell hlast]
    . have heq : cell = pages.length := by omega
      subst heq
      rw [hfull, Nat.sub_self]
      simp [lfirst, DeltaPage.new]
  . simp only [length_append, length_singleton, defaultDeltapageElements_eq] at *
    omega
  . simp only [length_append, length_singleton, defaultDeltapageElements_eq] at *
    omega

theorem modify_insert
    (hpages : pages ≠ []) (hroom : records.length < defaultDeltapageElements * pages.length)
    : Holds (pages.modify (pages.length - 1) (·.insert elem)) (records ++ [elem]) := by
  have hpos := length_pos_of_ne_nil hpages
  have hlast : pages.length - 1 < pages.length := by omega
  have hle := h.le_length
  have hused := h.used_eq _ hlast
  simp only [defaultDeltapageElements_eq] at hroom hle hused
  constructor
  . intro idx hidx
    have hidxle : idx < records.length + 1 := by simpa using hidx
    rw [slot_modify_insert _ _ _ _ hlast (by rw [defaultDeltapageElements_eq]; omega)]
    simp only [defaultDeltapageElements_eq]
    split
    . rw [getElem_concat_length (by omega)]
    . rw [getElem_append_left (by omega)]
      apply h.slot_eq
  . intro cell hcell
    rw [length_modify] at hcell
    have hcellUsed := h.used_eq cell hcell
    rw [lfirst_modify _ _ _ _ hlast]
    simp only [length_append, length_singleton, defaultDeltapageElements_eq] at *
    split
    . next heq =>
      subst heq
      simp only [DeltaPage.insert]
      omega
    . omega
  . simp only [length_append, length_singleton, length_modify, defaultDeltapageElements_eq]
    omega
  . simp only [length_append, length_singleton, length_modify, defaultDeltapageElements_eq]
    omega

theorem isFull_of_not_last (cell : Nat) (hcell : cell + 1 < pages.length) : (lfirst pages cell).isFull := by
  have hle := h.le_length
  rw [h.isFull_iff cell (by omega)]
  simp only [defaultDeltapageElements_eq] at *
  omega

end Holds

theorem holds_insert (pushed : Bool) (h : Holds table.pages records)
    : Holds (table.insert elem pushed).pages (records ++ [elem]) := by
  simp only [insert]
  cases hpages : table.pages with
  | nil =>
    rw [hpages] at h
    have hnil : records = [] := by
      have := h.length_le
      simpa using this
    subst hnil
    have hnew : Holds [DeltaPage.new] [] := Holds.nil.append_new rfl
    apply hnew.modify_insert elem (by simp) (by decide)
  | cons page rest =>
    rw [← hpages]
    have hne : table.pages ≠ [] := by simp [hpages]
    have hempty : table.pages.isEmpty = false := by simp [hpages]
    have hpos := length_pos_of_ne_nil hne
    have hiff := h.isFull_iff (table.pages.length - 1) (by omega)
    have hle := h.length_le
    rw [show table.pages.length - 1 + 1 = table.pages.length by omega] at hiff
    simp only [hempty, Bool.false_eq_true, if_false]
    split
    . next hfull =>
      apply (h.append_new (by have := hiff.mp hfull; omega)).modify_insert
      . simp
      . simp only [length_append, length_singleton, defaultDeltapageElements_eq] at *
        omega
    . next hfull =>
      rw [hiff] at hfull
      apply h.modify_insert _ hne (by omega)

section Vacuum

variable (records : List DeltaElement) (xid : TransactionId)

def kept (idx : Nat) : List DeltaElement :=
  (records.take idx).filter (fun elem => elem.xid ≥ xid)

theorem kept_length_le (idx : Nat) : (kept records xid idx).length ≤ idx := by
  have hfilter := length_filter_le (fun elem => decide (elem.xid ≥ xid)) (records.take idx)
  have htake := length_take_le idx records
  simp only [kept]
  omega

theorem kept_of_length_le (idx : Nat) (h : records.length ≤ idx)
    : kept records xid idx = records.filter (fun elem => elem.xid ≥ xid) := by
  rw [kept, take_of_length_le h]

theorem kept_succ_of_lt (idx : Nat) (h : idx < records.length) (hxid : records[idx].xid < xid)
    : kept records xid (idx + 1) = kept records xid idx := by
  have hle : ¬ records[idx].xid ≥ xid := UInt64.not_le.mpr hxid
  simp only [kept, take_add_one, getElem?_eq_getElem h, Option.toList_some,
    filter_append, filter_singleton, hle, decide_false]
  simp

theorem kept_succ_of_not_lt (idx : Nat) (h : idx < records.length) (hxid : ¬ records[idx].xid < xid)
    : kept records xid (idx + 1) = kept records xid idx ++ [records[idx]] := by
  have hle : records[idx].xid ≥ xid := UInt64.not_lt.mp hxid
  simp only [kept, take_add_one, getElem?_eq_getElem h, Option.toList_some,
    filter_append, filter_singleton, hle, decide_true]
  simp

/--
The state of a vacuum that has read the first `idx` records, in the pages before `started` and no
others. What it keeps of them is already in its final place, which is never behind `idx`, and
the records from `idx` on are still where they were.
-/
structure Compacting (len started idx : Nat) (st : VacuumState) : Prop where
  length_eq : st.pages.length = len
  slot_kept : ∀ i (h : i < (kept records xid idx).length),
    slot st.pages i = (kept records xid idx)[i]
  slot_unread : ∀ i, idx ≤ i → (h : i < records.length) → slot st.pages i = records[i]
  currPage_eq : st.currPage
      =
    if (kept records xid idx).length / defaultDeltapageElements < len then
      some ((kept records xid idx).length / defaultDeltapageElements)
    else
      none
  used_started : ∀ cell, cell < started → cell < len →
    (lfirst st.pages cell).used
      =
    min defaultDeltapageElements
      ((kept records xid idx).length - defaultDeltapageElements * cell)
  used_unread : ∀ cell, started ≤ cell → cell < len →
    (lfirst st.pages cell).used
      =
    min defaultDeltapageElements (records.length - defaultDeltapageElements * cell)

variable {records xid}

variable {pages : List DeltaPage} {page : Nat}

namespace Compacting

variable {len started idx : Nat} {st : VacuumState}

theorem init (h : Holds pages records) : Compacting records xid pages.length 0 0 ⟨pages, listHead pages⟩ := by
  constructor
  . rfl
  . intro i hi
    simp [kept] at hi
  . intro i _ hi
    apply h.slot_eq
  . simp [kept, listHead]
  . intro cell hcell
    omega
  . intro cell _ hcell
    apply h.used_eq cell hcell

theorem of_length (h : Compacting records xid len started records.length st)
    (hidx : records.length ≤ idx) : Compacting records xid len started idx st := by
  have hkept : kept records xid idx = kept records xid records.length := by
    rw [kept_of_length_le _ _ _ hidx, kept_of_length_le _ _ _ (Nat.le_refl _)]
  constructor
  . apply h.length_eq
  . simp only [hkept]
    apply h.slot_kept
  . intro i hle hi
    omega
  . rw [hkept]
    apply h.currPage_eq
  . rw [hkept]
    apply h.used_started
  . apply h.used_unread

theorem start (h : Compacting records xid len started (defaultDeltapageElements * started) st)
    (hstarted : started < len)
    : Compacting records xid len (started + 1) (defaultDeltapageElements * started)
        ⟨st.pages.modify started (fun p => { p with used := 0 }), st.currPage⟩ := by
  have hlen : started < st.pages.length := by rw [h.length_eq]; exact hstarted
  have hkept := kept_length_le records xid (defaultDeltapageElements * started)
  constructor
  . simpa using h.length_eq
  . intro i hi
    rw [slot_modify_used _ _ _ _ hlen]
    apply h.slot_kept
  . intro i hle hi
    rw [slot_modify_used _ _ _ _ hlen]
    apply h.slot_unread i hle
  . apply h.currPage_eq
  . intro cell hcell hcelllen
    rw [lfirst_modify _ _ _ _ hlen]
    split
    . next heq =>
      subst heq
      simp only
      omega
    . apply h.used_started cell (by omega) hcelllen
  . intro cell hcell hcelllen
    rw [lfirst_modify _ _ _ _ hlen, if_neg (by omega)]
    apply h.used_unread cell (by omega) hcelllen

theorem skip (h : Compacting records xid len started idx st) (hidx : idx < records.length)
    (hxid : records[idx].xid < xid)
    : Compacting records xid len started (idx + 1) st := by
  have hkept := kept_succ_of_lt records xid idx hidx hxid
  constructor
  . apply h.length_eq
  . simp only [hkept]
    apply h.slot_kept
  . intro i hle hi
    apply h.slot_unread i (by omega)
  . rw [hkept]
    apply h.currPage_eq
  . rw [hkept]
    apply h.used_started
  . apply h.used_unread

variable (h : Compacting records xid len started idx ⟨pages, some page⟩)
include h

theorem currPage_some : page < len ∧ page = (kept records xid idx).length / defaultDeltapageElements := by
  have hcurr := h.currPage_eq
  simp only at hcurr
  split at hcurr
  . next hlt =>
    simp only [Option.some.injEq] at hcurr
    omega
  . contradiction

theorem used_currPage (hidx : idx < defaultDeltapageElements * started)
    : (lfirst pages page).used = (kept records xid idx).length % defaultDeltapageElements := by
  obtain ⟨hpage, hcurr⟩ := h.currPage_some
  have hkept := kept_length_le records xid idx
  have hused := h.used_started page
  simp only [defaultDeltapageElements_eq] at *
  omega

theorem write (hidx : idx < records.length) (hstarted : idx < defaultDeltapageElements * started)
    (hxid : ¬ records[idx].xid < xid)
    : let pages' := pages.modify page (·.insert records[idx])
      Compacting records xid len started (idx + 1)
        ⟨pages', if (lfirst pages' page).isFull then lnext pages' page else some page⟩ := by
  intro pages'
  obtain ⟨hpage, hcurr⟩ := h.currPage_some
  have hkept := kept_succ_of_not_lt records xid idx hidx hxid
  have hkeptLe := kept_length_le records xid idx
  have hused := h.used_currPage hstarted
  have hlen : page < pages.length := by rw [h.length_eq]; exact hpage
  have hlength : pages'.length = len := by
    simpa [pages'] using h.length_eq
  have hfirst : ∀ cell, lfirst pages' cell
      = if page = cell then (lfirst pages page).insert records[idx] else lfirst pages cell := by
    intro cell
    rw [lfirst_modify _ _ _ _ hlen]
  have hslot : ∀ i, slot pages' i
      = if i = (kept records xid idx).length then records[idx] else slot pages i := by
    intro i
    have hpos : defaultDeltapageElements * page + (lfirst pages page).used
        = (kept records xid idx).length := by
      rw [hused, hcurr]
      apply Nat.div_add_mod
    have hlt : (lfirst pages page).used < defaultDeltapageElements := by
      rw [hused]
      apply Nat.mod_lt _ (by decide)
    rw [slot_modify_insert _ _ _ _ hlen hlt, hpos]
  constructor
  . apply hlength
  . intro i hi
    have hile : i < (kept records xid idx).length + 1 := by simpa [hkept] using hi
    simp only [hslot, hkept]
    split
    . next heq => rw [getElem_concat_length heq]
    . rw [getElem_append_left (by omega)]
      apply h.slot_kept
  . intro i hle hi
    simp only [hslot]
    rw [if_neg (by omega)]
    apply h.slot_unread i (by omega)
  . have hfull : (lfirst pages' page).isFull
        ↔ (kept records xid idx).length % defaultDeltapageElements + 1
          = defaultDeltapageElements := by
      simp only [hfirst, DeltaPage.isFull, DeltaPage.insert, if_true, hused, decide_eq_true_eq,
        defaultDeltapageElements_eq]
      omega
    simp only [hfull, lnext, hlength, hkept, length_append, length_singleton,
      defaultDeltapageElements_eq] at *
    -- the page that is written is full exactly when the next record belongs to the next page
    split
    . rw [show ((kept records xid idx).length + 1) / 512 = page + 1 by omega]
    . rw [if_pos (by omega), Option.some.injEq]
      omega
  . intro cell hcell hcelllen
    have hold := h.used_started cell hcell hcelllen
    simp only [hfirst, hkept, length_append, length_singleton, defaultDeltapageElements_eq] at *
    split
    . next heq =>
      subst heq
      simp only [DeltaPage.insert]
      omega
    . omega
  . intro cell hcell hcelllen
    have hold := h.used_unread cell hcell hcelllen
    have hne : page ≠ cell := by
      simp only [defaultDeltapageElements_eq] at *
      omega
    rw [hfirst, if_neg hne]
    apply hold

end Compacting

theorem compacting_vacuumPage_go (todo i : Nat) (pages : List DeltaPage) (restRecords : Nat)
    (h : Compacting records xid len (self + 1) (defaultDeltapageElements * self + i) ⟨pages, some page⟩)
    (htodo : i + todo ≤ defaultDeltapageElements)
    (hrecords : defaultDeltapageElements * self + i + todo ≤ records.length)
    (hlen : records.length ≤ defaultDeltapageElements * len)
    : let idx := defaultDeltapageElements * self + i
      let res := vacuumPage.go xid self todo i page pages restRecords
      Compacting records xid len (self + 1) (idx + todo) res.1
        ∧
      res.2 + (kept records xid idx).length
        =
      restRecords + (kept records xid (idx + todo)).length := by
  induction todo generalizing i page pages restRecords with
  | zero =>
    simp only [vacuumPage.go, Nat.add_zero]
    exact ⟨h, trivial⟩
  | succ todo ih =>
    have hidx : defaultDeltapageElements * self + i < records.length := by omega
    have helem : (lfirst pages self).data i = records[defaultDeltapageElements * self + i] := by
      rw [← h.slot_unread _ (Nat.le_refl _) hidx, slot]
      simp only [defaultDeltapageElements_eq] at *
      rw [show (512 * self + i) / 512 = self by omega, show (512 * self + i) % 512 = i by omega]
    simp only [vacuumPage.go, helem]
    split
    . next hxid =>
      have hstep := h.skip hidx hxid
      have hkept := kept_succ_of_lt records xid _ hidx hxid
      have := ih (i + 1) pages restRecords hstep (by omega) (by omega)
      simp only [← Nat.add_assoc] at this
      rw [hkept] at this
      rw [show defaultDeltapageElements * self + i + (todo + 1)
        = defaultDeltapageElements * self + i + 1 + todo by omega]
      apply this
    . next hxid =>
      have hstarted : defaultDeltapageElements * self + i < defaultDeltapageElements * (self + 1) := by
        simp only [defaultDeltapageElements_eq] at *
        omega
      have hstep := h.write hidx hstarted hxid
      simp only at hstep
      have hkept := congrArg List.length (kept_succ_of_not_lt records xid _ hidx hxid)
      rw [length_append, length_singleton] at hkept
      rw [show defaultDeltapageElements * self + i + (todo + 1)
        = defaultDeltapageElements * self + i + 1 + todo by omega]
      split
      . next hfull =>
        rw [if_pos hfull] at hstep
        split
        . next hnext =>
          -- there is no page left to write to, so everything has been kept
          rw [hnext] at hstep
          have hcurr := hstep.currPage_eq
          have hle := kept_length_le records xid (defaultDeltapageElements * self + i + 1)
          have htodo : todo = 0 := by
            split at hcurr
            . contradiction
            . simp only [defaultDeltapageElements_eq] at *
              omega
          subst htodo
          exact ⟨hstep, by simp only [Nat.add_zero]; omega⟩
        . next hnext =>
          rw [hnext] at hstep
          have hih := ih (i + 1) _ (restRecords + 1) hstep (by omega) (by omega)
          simp only [← Nat.add_assoc] at hih
          exact ⟨hih.1, by omega⟩
      . next hfull =>
        rw [if_neg hfull] at hstep
        have hih := ih (i + 1) _ (restRecords + 1) hstep (by omega) (by omega)
        simp only [← Nat.add_assoc] at hih
        exact ⟨hih.1, by omega⟩

theorem compacting_vacuumPage {st : VacuumState}
    (h : Compacting records xid len self (defaultDeltapageElements * self) st)
    (hself : self < len)
    (hle : defaultDeltapageElements * (len - 1) ≤ records.length)
    (hlen : records.length ≤ defaultDeltapageElements * len)
    : Compacting records xid len (self + 1) (defaultDeltapageElements * (self + 1)) (vacuumPage xid self st).1
        ∧
      (vacuumPage xid self st).2 + (kept records xid (defaultDeltapageElements * self)).length
        =
      (kept records xid (defaultDeltapageElements * (self + 1))).length := by
  have hkept := kept_length_le records xid (defaultDeltapageElements * self)
  have hused := h.used_unread self (Nat.le_refl _) hself
  have hcurr := h.currPage_eq
  have hstart := h.start hself
  rw [if_pos (by simp only [defaultDeltapageElements_eq] at *; omega)] at hcurr
  rw [hcurr] at hstart
  simp only [vacuumPage, hcurr]
  have hgo := compacting_vacuumPage_go (lfirst st.pages self).used 0 _ 0 hstart
    (by omega) (by simp only [defaultDeltapageElements_eq] at *; omega) hlen
  simp only [Nat.add_zero, Nat.zero_add] at hgo
  by_cases hlast : records.length ≤ defaultDeltapageElements * (self + 1)
  . have hend : defaultDeltapageElements * self + (lfirst st.pages self).used
        = records.length := by
      simp only [defaultDeltapageElements_eq] at *
      omega
    rw [hend] at hgo
    rw [kept_of_length_le _ _ _ hlast, ← kept_of_length_le _ _ _ (Nat.le_refl records.length)]
    exact ⟨hgo.1.of_length hlast, hgo.2⟩
  . have hend : defaultDeltapageElements * self + (lfirst st.pages self).used
        = defaultDeltapageElements * (self + 1) := by
      simp only [defaultDeltapageElements_eq] at *
      omega
    rw [hend] at hgo
    exact hgo

theorem compacting_vacuum_go {st : VacuumState} (todo cell : Nat) (rowNumber : UInt32)
    (h : Compacting records xid len cell (defaultDeltapageElements * cell) st)
    (htodo : cell + todo = len)
    (hle : defaultDeltapageElements * (len - 1) ≤ records.length)
    (hlen : records.length ≤ defaultDeltapageElements * len)
    (hrow : rowNumber
        = UInt32.ofNat (kept records xid (defaultDeltapageElements * cell)).length)
    : let res := vacuum.go xid todo cell st rowNumber
      Compacting records xid len len (defaultDeltapageElements * len) res.1
        ∧
      res.2 = UInt32.ofNat (kept records xid (defaultDeltapageElements * len)).length := by
  induction todo generalizing cell st rowNumber with
  | zero =>
    have heq : cell = len := by omega
    subst heq
    exact ⟨h, hrow⟩
  | succ todo ih =>
    have hpage := compacting_vacuumPage h (by omega) hle hlen
    simp only [vacuum.go]
    apply ih (cell + 1) _ hpage.1 (by omega)
    rw [hrow, ← hpage.2, Nat.add_comm, UInt32.ofNat_add]

theorem Compacting.holds (h : Compacting records xid len len (defaultDeltapageElements * len) st)
    (hlen : records.length ≤ defaultDeltapageElements * len)
    : Holds (match st.currPage with
        | none => st.pages
        | some cell => st.pages.take (cell + 1)) (records.filter (fun elem => elem.xid ≥ xid)) := by
  rw [← kept_of_length_le records xid _ hlen]
  have hkept := kept_length_le records xid (defaultDeltapageElements * len)
  have hcurr := h.currPage_eq
  have hlength := h.length_eq
  split at hcurr
  . next hlt =>
    rw [hcurr]
    simp only
    have hfirst : ∀ cell, cell < (kept records xid (defaultDeltapageElements * len)).length
          / defaultDeltapageElements + 1 →
        lfirst (st.pages.take ((kept records xid (defaultDeltapageElements * len)).length
          / defaultDeltapageElements + 1)) cell = lfirst st.pages cell := by
      intro cell hcell
      simp [lfirst, hcell]
    constructor
    . intro i hi
      rw [slot, hfirst, ← slot, h.slot_kept]
      simp only [defaultDeltapageElements_eq] at *
      omega
    . intro cell hcell
      rw [length_take] at hcell
      rw [hfirst cell (by omega), h.used_started cell (by omega) (by omega)]
    . rw [length_take]
      simp only [defaultDeltapageElements_eq] at *
      omega
    . rw [length_take]
      simp only [defaultDeltapageElements_eq] at *
      omega
  . next hlt =>
    rw [hcurr]
    simp only
    constructor
    . apply h.slot_kept
    . intro cell hcell
      apply h.used_started cell (by omega) (by omega)
    . simp only [defaultDeltapageElements_eq] at *
      omega
    . simp only [defaultDeltapageElements_eq] at *
      omega

end Vacuum

theorem vacuum_holds (xid : TransactionId) (h : Holds table.pages records)
    : Holds (table.vacuum xid).pages (records.filter (fun elem => elem.xid ≥ xid))
        ∧
      (table.vacuum xid).rowNumber
        =
      UInt32.ofNat (records.filter (fun elem => elem.xid ≥ xid)).length := by
  have hinit : Compacting records xid table.pages.length 0 (defaultDeltapageElements * 0)
      ⟨table.pages, listHead table.pages⟩ := Compacting.init h
  have hgo := compacting_vacuum_go table.pages.length 0 0 hinit (Nat.zero_add _)
    h.le_length h.length_le (by simp [kept])
  constructor
  . apply hgo.1.holds h.length_le
  . rw [← kept_of_length_le records xid _ h.length_le]
    apply hgo.2

theorem insert_rowNumber (pushed : Bool) : (table.insert elem pushed).rowNumber = table.rowNumber + 1 := by
  simp [insert]

/--
The relation between the table and the records it stands for.
-/
structure Represents (table : DeltaTable) (records : List DeltaElement) : Prop where
  holds : Holds table.pages records
  rowNumber_eq : table.rowNumber = UInt32.ofNat records.length

theorem represents_step (op : Op) (h : Represents table records)
    : Represents (table.step op) (specStep records op) := by
  cases op with
  | insert elem pushed =>
    constructor
    . apply holds_insert _ _ _ h.holds
    . simp only [step, specStep, insert_rowNumber, h.rowNumber_eq, length_append,
        length_singleton, UInt32.ofNat_add]
      rfl
  | vacuum xid =>
    have hvacuum := vacuum_holds table xid h.holds
    exact ⟨hvacuum.1, hvacuum.2⟩

theorem represents_run (ops : List Op) : Represents (run ops) (specRun ops) := by
  apply foldl_rel
  . exact ⟨Holds.nil, rfl⟩
  . intro op _ table records h
    apply represents_step _ _ h

section Scan

open DeltaTableIterator

def remaining (pages : List DeltaPage) (row : Nat) : List DeltaElement :=
  match pages with
  | [] => []
  | page :: rest => (List.range' row (page.used - row)).map page.data ++ remaining rest 0

theorem getNext_go_eq (row : Nat)
    : match getNext.go pages row with
      | none => remaining pages row = []
      | some (elem, it) =>
        remaining pages row = elem :: remaining it.currentPage it.currentRow := by
  induction pages generalizing row with
  | nil => simp [getNext.go, remaining]
  | cons page rest ih =>
    by_cases hrow : row < page.used
    . have hsucc : page.used - row = page.used - (row + 1) + 1 := by omega
      simp only [getNext.go, if_pos hrow, remaining]
      rw [hsucc, range'_succ, map_cons, cons_append]
    . have hdone : remaining (page :: rest) row = remaining rest 0 := by
        have hzero : page.used - row = 0 := by omega
        simp [remaining, hzero]
      simp only [getNext.go, if_neg hrow, hdone]
      apply ih

theorem enumerates_remaining (it : DeltaTableIterator)
    : it.Enumerates (remaining it.currentPage it.currentRow) := by
  generalize hrecords : remaining it.currentPage it.currentRow = records
  induction records generalizing it with
  | nil =>
    apply Enumerates.done
    have hnext := getNext_go_eq it.currentPage it.currentRow
    rw [hrecords] at hnext
    split at hnext
    . assumption
    . contradiction
  | cons record records ih =>
    have hnext := getNext_go_eq it.currentPage it.currentRow
    rw [hrecords] at hnext
    split at hnext
    . contradiction
    . next elem it' heq =>
      rw [List.cons.injEq] at hnext
      obtain ⟨rfl, hrest⟩ := hnext
      apply Enumerates.next heq
      apply ih it' hrest.symm

theorem Holds.head_eq (h : Holds (page :: rest) records)
    : (List.range' 0 page.used).map page.data = records.take defaultDeltapageElements := by
  have hused := h.used_eq 0 (by simp)
  simp only [lfirst, getD_cons_zero, Nat.mul_zero, Nat.sub_zero] at hused
  apply ext_getElem
  . simp [hused]
  . intro idx hidx hidx'
    rw [length_take] at hidx'
    have hslot := h.slot_eq idx (by omega)
    rw [slot, Nat.div_eq_of_lt (by omega), Nat.mod_eq_of_lt (by omega)] at hslot
    simpa [lfirst] using hslot

theorem Holds.tail (h : Holds (page :: rest) records)
    : Holds rest (records.drop defaultDeltapageElements) := by
  have hfirst : ∀ cell, lfirst (page :: rest) (cell + 1) = lfirst rest cell := by
    simp [lfirst]
  have hle := h.length_le
  have hge := h.le_length
  simp only [length_cons, defaultDeltapageElements_eq] at hle hge
  constructor
  . intro idx hidx
    rw [length_drop] at hidx
    rw [getElem_drop, ← h.slot_eq, slot, slot, ← hfirst]
    rw [Nat.add_div_left _ (by decide), Nat.add_mod_left]
  . intro cell hcell
    have hused := h.used_eq (cell + 1) (by simpa using hcell)
    rw [hfirst] at hused
    rw [hused, length_drop]
    simp only [defaultDeltapageElements_eq]
    omega
  . rw [length_drop, defaultDeltapageElements_eq]
    omega
  . rw [length_drop, defaultDeltapageElements_eq]
    omega

theorem remaining_of_holds (records : List DeltaElement)
    (h : Holds pages records) : remaining pages 0 = records := by
  induction pages generalizing records with
  | nil =>
    have hle := h.length_le
    symm
    simpa [remaining] using hle
  | cons page rest ih =>
    simp only [remaining, Nat.sub_zero]
    rw [h.head_eq, ih _ h.tail, take_append_drop]

theorem enumerates_of_holds (h : Holds table.pages records) : table.scanInit.Enumerates records := by
  have henum := enumerates_remaining table.scanInit
  rw [scanInit, remaining_of_holds _ _ h] at henum
  exact henum

end Scan

def Live (table : DeltaTable) (cell row : Nat) : Prop :=
  cell < table.pages.length ∧ row < (lfirst table.pages cell).used

theorem insert_live (h : Holds table.pages records) (elem : DeltaElement)
    (pushed : Bool) (hlive : Live table cell row)
    : Live (table.insert elem pushed) cell row
        ∧
      (lfirst (table.insert elem pushed).pages cell).data row
        =
      (lfirst table.pages cell).data row := by
  have hinsert := holds_insert table elem pushed h
  have hle := hinsert.length_le
  obtain ⟨hcell, hrow⟩ := hlive
  rw [h.used_eq cell hcell] at hrow
  rw [length_append, length_singleton] at hle
  have hidx : defaultDeltapageElements * cell + row < records.length := by omega
  have hcell' : cell < (table.insert elem pushed).pages.length := by
    simp only [defaultDeltapageElements_eq] at *
    omega
  constructor
  . constructor
    . exact hcell'
    . rw [hinsert.used_eq cell hcell', length_append, length_singleton]
      omega
  . have hslot := h.slot_eq _ hidx
    have hslot' := hinsert.slot_eq (defaultDeltapageElements * cell + row) (by simp; omega)
    rw [getElem_append_left hidx, ← hslot, slot, slot, Nat.mul_add_div (by decide),
      Nat.mul_add_mod, Nat.div_eq_of_lt (by omega), Nat.mod_eq_of_lt (by omega)] at hslot'
    exact hslot'

theorem scan_run (ops : List Op)
    : (run ops).scanInit.Enumerates (specRun ops)
        ∧
      (run ops).rowNumber.toNat = (specRun ops).length % 2 ^ 32
        ∧
      (∀ cell, cell + 1 < (run ops).pages.length → (lfirst (run ops).pages cell).isFull)
        ∧
      (∀ elem pushed cell row, Live (run ops) cell row →
        Live ((run ops).insert elem pushed) cell row
          ∧
        (lfirst ((run ops).insert elem pushed).pages cell).data row
          =
        (lfirst (run ops).pages cell).data row) := by
  have h := represents_run ops
  constructor
  . apply enumerates_of_holds _ h.holds
  constructor
  . rw [h.rowNumber_eq, UInt32.toNat_ofNat']
  constructor
  . apply h.holds.isFull_of_not_last
  . intro elem pushed cell row hlive
    apply insert_live _ h.holds _ _ hlive

theorem specRun_replicate_insert (n : Nat) (elem : DeltaElement) (pushed : Bool)
    : specRun (List.replicate n (.insert elem pushed)) = List.replicate n elem := by
  induction n with
  | zero => rfl
  | succ n ih =>
    rw [replicate_succ', replicate_succ', ← ih]
    simp [specRun, specStep]

-- The counter has 32 bits, the list has no bound.
theorem rowNumber_ne_length_of_wrap
    : (run (List.replicate (2 ^ 32) (.insert ⟨⟨0, 1⟩, 3⟩ false))).rowNumber.toNat
        ≠
      (specRun (List.replicate (2 ^ 32) (.insert ⟨⟨0, 1⟩, 3⟩ false))).length := by
  rw [(represents_run _).rowNumber_eq, UInt32.toNat_ofNat', specRun_replicate_insert,
    List.length_replicate]
  decide

end DeltaTable

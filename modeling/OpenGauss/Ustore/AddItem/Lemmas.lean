import OpenGauss.Ustore.Page.Lemmas

/-!
This module contains what `UPageAddItem` does to a page.
-/

namespace Ustore

variable {item : Bytes} {offnum : Nat}

namespace AddItem

variable {page page' : UPage} {request : Request}

section Request

def target (page : UPage) (request : Request) : Nat :=
  if offsetNumberIsValid request.offsetNumber then request.offsetNumber else (findNextFreeSlot page).1

def searched (page : UPage) (request : Request) : UPage :=
  if offsetNumberIsValid request.offsetNumber then page else (findNextFreeSlot page).2

def moves (page : UPage) (request : Request) : Bool :=
  offsetNumberIsValid request.offsetNumber && !request.overwrite
    && decide (request.offsetNumber < page.maxOffsetNumber + 1)

structure Usable (page : UPage) (request : Request) : Prop where
  le_maxTuples : request.inRecovery = false → target page request ≤ request.maxTuples
  le_limit : target page request ≤ page.maxOffsetNumber + 1
  free : offsetNumberIsValid request.offsetNumber = true → request.overwrite = true →
    request.offsetNumber < page.maxOffsetNumber + 1 →
      (page.rowPtrs request.offsetNumber).hasStorage = false
        ∧ (request.inRecovery = false → (page.rowPtrs request.offsetNumber).isUsed = false)

def TakesPointer (page : UPage) (request : Request) : Prop :=
  target page request = page.maxOffsetNumber + 1 ∨ moves page request = true

instance : Decidable (TakesPointer page request) := inferInstanceAs (Decidable (_ ∨ _))

def lowerFor (page : UPage) (request : Request) : Nat :=
  if TakesPointer page request then page.pdLower + sizeOfRowPtr else page.pdLower

def HasRoom (page : UPage) (request : Request) : Prop :=
  lowerFor page request + shortAlign request.item.length ≤ page.pdUpper

-- The item is refused for want of room after the space for its row pointer is already taken off.
structure LeavesTrace (page : UPage) (request : Request) : Prop where
  usable : Usable page request
  takesPointer : TakesPointer page request
  no_room : upperFor page request.item < lowerFor page request
  potentialFreespace_pos : 0 < page.potentialFreespace

end Request

section Spec

structure Unchanged (page page' : UPage) : Prop where
  rowPtrs : page'.rowPtrs = page.rowPtrs
  bytes : page'.bytes = page.bytes
  pdLower : page'.pdLower = page.pdLower
  pdUpper : page'.pdUpper = page.pdUpper
  potentialFreespace : page'.potentialFreespace = page.potentialFreespace

def shift (moved : Bool) (offnum i : Nat) : Nat := if moved = true ∧ offnum ≤ i then i + 1 else i

structure Added (page page' : UPage) (moved : Bool) (offnum : Nat) (item : Bytes) : Prop where
  layout : page'.Layout
  stored : page'.Stored offnum
  rowData : page'.rowData offnum = item
  kept : ∀ i, page.Stored i → page'.Stored (shift moved offnum i) ∧ shift moved offnum i ≠ offnum
    ∧ page'.rowPtrs (shift moved offnum i) = page.rowPtrs i
    ∧ page'.rowData (shift moved offnum i) = page.rowData i
  only : ∀ j, page'.Stored j → j = offnum ∨ ∃ i, page.Stored i ∧ j = shift moved offnum i

def AllOrNothing (page : UPage) (request : Request) : Prop :=
  match upageAddItem page request with
  | .added offnum page' =>
    offnum = target page request ∧ Added page page' (moves page request) offnum request.item
  | .refused page' => Unchanged page page' ∧ (¬Usable page request ∨ ¬HasRoom page request)
  | .raised => True

end Spec

section Search

theorem searched_eq (page : UPage) (request : Request)
    : ∃ hasFree, searched page request = { page with hasFreeLinePointers := hasFree } := by
  unfold searched
  split
  . exact ⟨page.hasFreeLinePointers, rfl⟩
  . exact ⟨_, (findNextFreeSlot_spec page).1⟩

theorem findNextFreeSlot_le (page : UPage) : (findNextFreeSlot page).1 ≤ page.maxOffsetNumber + 1 := by
  unfold findNextFreeSlot
  split
  . split
    . rename_i hfind
      have hmem := List.mem_range'_1.1 (List.mem_of_find?_eq_some hfind)
      dsimp only
      omega
    . exact Nat.le_refl _
  . exact Nat.le_refl _

theorem one_le_target (page : UPage) (request : Request) : 1 ≤ target page request := by
  unfold target
  split
  . rename_i hvalid
    simp only [offsetNumberIsValid, invalidOffsetNumber, Bool.and_eq_true, decide_eq_true_eq] at hvalid
    exact Nat.one_le_iff_ne_zero.2 (of_decide_eq_true hvalid.1)
  . exact (findNextFreeSlot_spec page).2.1

theorem not_stored_target (h : Usable page request) (hmoves : moves page request = false)
    : ¬page.Stored (target page request) := by
  unfold target
  split
  . rename_i hvalid
    intro hstored
    have hlt : request.offsetNumber < page.maxOffsetNumber + 1 := Nat.lt_succ_of_le hstored.2.1
    unfold moves at hmoves
    rw [hvalid, Bool.true_and, decide_eq_true hlt, Bool.and_true, Bool.not_eq_false'] at hmoves
    have hfree := (h.free hvalid hmoves hlt).1
    rw [hstored.2.2.2] at hfree
    cases hfree
  . exact (findNextFreeSlot_spec page).2.2

end Search

section Refusals

theorem putItem_searched (request : Request) (offnum : Nat) (needshuffle : Bool)
    : putItem page request offnum needshuffle
        =
      if request.inRecovery = false ∧ request.maxTuples < offnum then .refused page
      else calculateLowerUpperPointers page offnum request.item needshuffle := by
  unfold putItem
  cases request.inRecovery with
  | false => simp
  | true => simp

theorem calculateLowerUpperPointers_beyond (item : Bytes) (needshuffle : Bool)
    (h : page.maxOffsetNumber + 1 < offnum)
    : calculateLowerUpperPointers page offnum item needshuffle = .refused page := by
  unfold calculateLowerUpperPointers
  rw [if_pos h]

theorem checkOffsetValidity_eq (page : UPage) (request : Request)
    (hvalid : offsetNumberIsValid request.offsetNumber = true)
    : checkOffsetValidity page request.inRecovery request.overwrite request.offsetNumber
        =
      if request.overwrite = true ∧ request.offsetNumber < page.maxOffsetNumber + 1
          ∧ ((page.rowPtrs request.offsetNumber).hasStorage = true
            ∨ (request.inRecovery = false ∧ (page.rowPtrs request.offsetNumber).isUsed = true)) then
        none
      else
        some (moves page request) := by
  unfold checkOffsetValidity moves
  rw [hvalid]
  cases request.overwrite with
  | false => simp
  | true =>
    by_cases hlt : request.offsetNumber < page.maxOffsetNumber + 1
    . grind
    . simp [hlt]

theorem upageAddItem_of_not_usable (hlayout : page.Layout) (h : ¬Usable page request)
    : upageAddItem page request = .refused (searched page request) := by
  have hlower := hlayout.lower_le
  unfold upageAddItem
  rw [if_neg (by omega)]
  by_cases hvalid : offsetNumberIsValid request.offsetNumber = true
  . have htarget : target page request = request.offsetNumber := if_pos hvalid
    rw [if_pos hvalid, checkOffsetValidity_eq page request hvalid,
      show searched page request = page from if_pos hvalid]
    split
    . rfl
    . rename_i hcheck
      split at hcheck
      . cases hcheck
      . rename_i hfree
        rw [putItem_searched]
        split
        . rfl
        . rename_i hmax
          apply calculateLowerUpperPointers_beyond
          by_contra hlimit
          apply h
          constructor
          . intro hrecovery
            rw [htarget]
            exact Nat.le_of_not_lt fun hlt => hmax ⟨hrecovery, hlt⟩
          . rw [htarget]
            omega
          . intro _ hover hlt
            grind
  . have htarget : target page request = (findNextFreeSlot page).1 := if_neg hvalid
    rw [if_neg hvalid, show searched page request = (findNextFreeSlot page).2 from if_neg hvalid,
      putItem_searched]
    split
    . rfl
    . rename_i hmax
      exfalso
      apply h
      constructor
      . intro hrecovery
        rw [htarget]
        exact Nat.le_of_not_lt fun hlt => hmax ⟨hrecovery, hlt⟩
      . rw [htarget]
        exact findNextFreeSlot_le page
      . intro hvalid'
        exact absurd hvalid' hvalid

theorem upageAddItem_of_usable (hlayout : page.Layout) (h : Usable page request)
    : upageAddItem page request
        =
      calculateLowerUpperPointers (searched page request) (target page request) request.item
        (moves page request) := by
  have hlower := hlayout.lower_le
  have hmax := h.le_maxTuples
  unfold upageAddItem
  rw [if_neg (by omega)]
  by_cases hvalid : offsetNumberIsValid request.offsetNumber = true
  . have htarget : target page request = request.offsetNumber := if_pos hvalid
    have hfree := h.free hvalid
    rw [htarget] at hmax
    rw [if_pos hvalid, checkOffsetValidity_eq page request hvalid, htarget,
      show searched page request = page from if_pos hvalid, if_neg (by grind)]
    dsimp only
    rw [putItem_searched, if_neg (by grind)]
  . have htarget : target page request = (findNextFreeSlot page).1 := if_neg hvalid
    have hmoves : moves page request = false := by
      unfold moves
      rw [Bool.eq_false_of_not_eq_true hvalid]
      rfl
    rw [htarget] at hmax
    rw [if_neg hvalid, htarget, hmoves, show searched page request = (findNextFreeSlot page).2 from if_neg hvalid]
    dsimp only
    rw [putItem_searched, if_neg (by grind)]

end Refusals

section Place

theorem toInt_of_range {x : Int} (hlow : -2 ^ 31 ≤ x) (hhigh : x < 2 ^ 31) : toInt x = x := by
  unfold toInt
  rw [Int.bmod_eq_of_le]
  . omega
  . omega

theorem upperFor_eq (hupper : page.pdUpper ≤ blcksz) (hlen : item.length ≤ securecMemMaxLen)
    : upperFor page item < 0 ∨ upperFor page item = (page.pdUpper : Int) - shortAlign item.length := by
  have halign : shortAlign item.length ≤ 2 ^ 31 := by
    unfold shortAlign securecMemMaxLen at *
    omega
  unfold blcksz at hupper
  unfold upperFor
  by_cases heq : shortAlign item.length = 2 ^ 31
  . left
    have hwrap : toInt ((2 ^ 31 : Nat) : Int) = -2 ^ 31 := by decide
    rw [heq, hwrap]
    unfold toInt Int.bmod
    dsimp only
    split
    . omega
    . omega
  . right
    have haligned : toInt (shortAlign item.length) = shortAlign item.length :=
      toInt_of_range (by omega) (by omega)
    rw [haligned]
    exact toInt_of_range (by omega) (by omega)

theorem upperFor_of_room (hupper : page.pdUpper ≤ blcksz) (hroom : shortAlign item.length ≤ page.pdUpper)
    : upperFor page item = (page.pdUpper : Int) - shortAlign item.length := by
  unfold blcksz at hupper
  unfold upperFor
  have haligned : toInt (shortAlign item.length) = shortAlign item.length :=
    toInt_of_range (by omega) (by omega)
  rw [haligned]
  exact toInt_of_range (by omega) (by omega)

def charged (page : UPage) (request : Request) : UPage :=
  { page with potentialFreespace :=
      if TakesPointer page request then page.potentialFreespace - sizeOfRowPtr else page.potentialFreespace }

def moved (page : UPage) (request : Request) : UPage :=
  if moves page request then moveRowPtrs (charged page request) (target page request)
    (page.maxOffsetNumber + 1)
  else charged page request

theorem tdCount_moved (page : UPage) (request : Request) : (moved page request).tdCount = page.tdCount := by
  unfold moved
  split
  . rfl
  . rfl

theorem pdSpecial_moved (page : UPage) (request : Request)
    : (moved page request).pdSpecial = page.pdSpecial := by
  unfold moved
  split
  . rfl
  . rfl

def withHint (page : UPage) (hasFree : Bool) : UPage := { page with hasFreeLinePointers := hasFree }

def placed (page : UPage) (request : Request) : UPage :=
  { moved page request with
    bytes := page.bytes.store (upperFor page request.item).toNat request.item
    pdLower := lowerFor page request
    pdUpper := (upperFor page request.item).toNat : UPage }.setRowPtr (target page request)
      ⟨(upperFor page request.item).toNat, .normal, request.item.length⟩

theorem placed_fields (page : UPage) (request : Request)
    : (placed page request).tdCount = page.tdCount ∧ (placed page request).pdSpecial = page.pdSpecial
      ∧ (placed page request).pdLower = lowerFor page request
      ∧ (placed page request).pdUpper = (upperFor page request.item).toNat
      ∧ (placed page request).bytes = page.bytes.store (upperFor page request.item).toNat request.item := by
  unfold placed UPage.setRowPtr
  dsimp only
  exact ⟨tdCount_moved page request, pdSpecial_moved page request, rfl, rfl, rfl⟩

theorem calculateLowerUpperPointers_eq (page : UPage) (request : Request) (h : Usable page request)
    (hasFree : Bool)
    : calculateLowerUpperPointers (withHint page hasFree) (target page request) request.item
      (moves page request)
        =
      if (lowerFor page request : Int) > upperFor page request.item then
        .refused (withHint (charged page request) hasFree)
      else if memcpyFails request.item.length then
        .raised
      else
        .added (target page request) (withHint (placed page request) hasFree) := by
  have hlimit := h.le_limit
  have htakes : (decide (target page request = page.maxOffsetNumber + 1) || moves page request) = true
      ↔ TakesPointer page request := by
    rw [Bool.or_eq_true, decide_eq_true_eq]
    rfl
  have hmax : (withHint page hasFree).maxOffsetNumber = page.maxOffsetNumber := rfl
  have hupper : ∀ free, upperFor { withHint page hasFree with potentialFreespace := free } request.item
      = upperFor page request.item := fun _ => rfl
  unfold calculateLowerUpperPointers lowerFor placed moved charged lowerFor
  rw [hmax, if_neg (by omega)]
  dsimp only
  rw [hupper]
  generalize upperFor page request.item = upper
  by_cases htake : TakesPointer page request
  . simp only [htakes.2 htake, htake, if_true]
    cases moves page request with
    | true => rfl
    | false => rfl
  . simp only [Bool.eq_false_of_not_eq_true (mt htakes.1 htake), htake, Bool.false_eq_true, if_false]
    cases moves page request with
    | true => rfl
    | false => rfl

end Place

section Added

theorem added_of_placed {moved : Bool} {upper : Nat} (hlayout : page.Layout)
    (htd : page'.tdCount = page.tdCount) (hspecial : page'.pdSpecial = page.pdSpecial)
    (hupper : page'.pdUpper = upper) (hroom : upper + shortAlign item.length ≤ page.pdUpper)
    (hle : page.pdLower ≤ page'.pdLower) (hlower : page'.pdLower ≤ upper)
    (hbytes : page'.bytes = page.bytes.store upper item) (hpos : 0 < item.length)
    (hself : page'.rowPtrs offnum = ⟨upper, .normal, item.length⟩) (hone : 1 ≤ offnum)
    (hmax : offnum ≤ page'.maxOffsetNumber)
    (hkept : ∀ i, page.Stored i → 1 ≤ shift moved offnum i ∧ shift moved offnum i ≤ page'.maxOffsetNumber
      ∧ shift moved offnum i ≠ offnum ∧ page'.rowPtrs (shift moved offnum i) = page.rowPtrs i)
    (honly : ∀ j, page'.Stored j → j ≠ offnum → ∃ i, page.Stored i ∧ j = shift moved offnum i)
    : Added page page' moved offnum item := by
  have halign := le_shortAlign item.length
  have hspecial_le := hlayout.upper_le_special
  have hrow : ∀ j, page'.Stored j →
      j = offnum ∨ ∃ i, page.Stored i ∧ j = shift moved offnum i ∧ page'.rowPtrs j = page.rowPtrs i := by
    intro j hj
    by_cases heq : j = offnum
    . exact Or.inl heq
    . obtain ⟨i, hi, hshift⟩ := honly j hj heq
      right
      apply Exists.intro i
      apply And.intro hi
      apply And.intro hshift
      rw [hshift]
      exact (hkept i hi).2.2.2
  have hstored : page'.Stored offnum := by
    refine ⟨hone, hmax, ?_, ?_⟩
    . rw [hself]
      rfl
    . rw [hself]
      exact decide_eq_true hpos
  constructor
  . constructor
    . rw [htd]
      exact Nat.le_trans hlayout.header_le hle
    . omega
    . omega
    . rw [hspecial]
      exact hlayout.special_le
    . intro j hj
      rcases hrow j hj with heq | ⟨i, hi, -, hptr⟩
      . rw [heq, hself, hupper]
      . have hup := hlayout.upper_le i hi
        rw [hptr]
        omega
    . intro j hj
      rcases hrow j hj with heq | ⟨i, hi, hshift, hptr⟩
      . rw [heq, hself]
        constructor
        . rw [hself, hspecial]
          show upper + shortAlign item.length ≤ page.pdSpecial
          omega
        . intro k hk hne
          left
          rcases hrow k hk with heq' | ⟨i, hi, -, hptr⟩
          . exact absurd heq' hne
          . have hup := hlayout.upper_le i hi
            rw [hself, hptr]
            show upper + shortAlign item.length ≤ _
            omega
      . have hfits := hlayout.fits i hi
        have hup := hlayout.upper_le i hi
        rw [hptr]
        constructor
        . rw [hptr, hspecial]
          exact hfits.inside
        . intro k hk hne
          rw [hptr]
          rcases hrow k hk with heq' | ⟨i', hi', hshift', hptr'⟩
          . right
            rw [heq', hself]
            show upper + shortAlign item.length ≤ _
            omega
          . rw [hptr']
            apply hfits.disjoint i' hi'
            intro heq'
            rw [hshift, hshift', heq'] at hne
            exact hne rfl
  . exact hstored
  . rw [UPage.rowData, hself, hbytes]
    exact Memory.load_store_self ..
  . intro i hi
    obtain ⟨hlow, hhigh, hne, hptr⟩ := hkept i hi
    have hup := hlayout.upper_le i hi
    refine ⟨⟨hlow, hhigh, ?_, ?_⟩, hne, hptr, ?_⟩
    . rw [hptr]
      exact hi.2.2.1
    . rw [hptr]
      exact hi.2.2.2
    . rw [UPage.rowData, UPage.rowData, hptr, hbytes]
      apply Memory.load_store_of_disjoint
      right
      omega
  . intro j hj
    by_cases heq : j = offnum
    . exact Or.inl heq
    . exact Or.inr (honly j hj heq)

theorem Added.withHint {moved : Bool} (h : Added page page' moved offnum item)
    (hasFree : Bool) : Added page (AddItem.withHint page' hasFree) moved offnum item := by
  constructor
  . have hlayout := h.layout
    exact { hlayout with fits := fun i hi => ⟨(hlayout.fits i hi).inside, (hlayout.fits i hi).disjoint⟩ }
  . exact h.stored
  . exact h.rowData
  . exact h.kept
  . exact h.only

theorem maxOffsetNumber_placed (hlayout : page.Layout)
    : (placed page request).maxOffsetNumber
        =
      if TakesPointer page request then page.maxOffsetNumber + 1 else page.maxOffsetNumber := by
  have hheader := hlayout.header_le
  obtain ⟨htd, -, hlower, -⟩ := placed_fields page request
  unfold UPage.maxOffsetNumber
  rw [htd, hlower]
  unfold lowerFor sizeOfRowPtr
  split
  . omega
  . rfl

theorem rowPtrs_placed (i : Nat)
    : (placed page request).rowPtrs i
        =
      if i = target page request then
        ⟨(upperFor page request.item).toNat, .normal, request.item.length⟩
      else if moves page request = true ∧ target page request < i ∧ i ≤ page.maxOffsetNumber + 1 then
        page.rowPtrs (i - 1)
      else
        page.rowPtrs i := by
  unfold placed moved UPage.setRowPtr
  dsimp only
  by_cases heq : i = target page request
  . rw [if_pos heq, if_pos heq]
  . rw [if_neg heq, if_neg heq]
    cases moves page request with
    | true =>
      rw [if_pos rfl]
      unfold moveRowPtrs charged
      simp
    | false =>
      rw [if_neg (by simp), if_neg (by simp)]
      rfl

theorem target_le_of_moves (hmoves : moves page request = true)
    : target page request ≤ page.maxOffsetNumber := by
  unfold moves at hmoves
  rw [Bool.and_eq_true, Bool.and_eq_true, decide_eq_true_eq] at hmoves
  have htarget : target page request = request.offsetNumber := if_pos hmoves.1.1
  omega

theorem target_le_placed (hlayout : page.Layout) (h : Usable page request)
    : target page request ≤ (placed page request).maxOffsetNumber := by
  have hlimit := h.le_limit
  rw [maxOffsetNumber_placed hlayout]
  split
  . exact hlimit
  . rename_i htakes
    unfold TakesPointer at htakes
    omega

theorem kept_placed (hlayout : page.Layout) (h : Usable page request) {i : Nat} (hi : page.Stored i)
    : shift (moves page request) (target page request) i ≤ (placed page request).maxOffsetNumber
      ∧ shift (moves page request) (target page request) i ≠ target page request
      ∧ (placed page request).rowPtrs (shift (moves page request) (target page request) i) =
        page.rowPtrs i := by
  have hmax := hi.2.1
  rw [maxOffsetNumber_placed hlayout, rowPtrs_placed]
  cases hmoves : moves page request with
  | true =>
    have htakes : TakesPointer page request := Or.inr hmoves
    unfold shift
    rw [if_pos htakes]
    by_cases hle : target page request ≤ i
    . rw [if_pos ⟨rfl, hle⟩]
      refine ⟨by omega, by omega, ?_⟩
      rw [if_neg (by omega), if_pos ⟨rfl, by omega, by omega⟩, Nat.add_sub_cancel]
    . rw [if_neg (by omega)]
      refine ⟨by omega, by omega, ?_⟩
      rw [if_neg (by omega), if_neg (by omega)]
  | false =>
    have hne : i ≠ target page request := by
      rintro rfl
      exact not_stored_target h hmoves hi
    unfold shift
    rw [if_neg (by simp)]
    refine ⟨?_, hne, ?_⟩
    . split
      . omega
      . exact hmax
    . rw [if_neg hne, if_neg (by simp)]

theorem only_placed (hlayout : page.Layout) {j : Nat}
    (hj : (placed page request).Stored j) (hne : j ≠ target page request)
    : ∃ i, page.Stored i ∧ j = shift (moves page request) (target page request) i := by
  obtain ⟨hone, hmax, hused, hstorage⟩ := hj
  rw [maxOffsetNumber_placed hlayout] at hmax
  rw [rowPtrs_placed, if_neg hne] at hused hstorage
  cases hmoves : moves page request with
  | true =>
    have htakes : TakesPointer page request := Or.inr hmoves
    have htarget := target_le_of_moves hmoves
    have hpos := one_le_target page request
    rw [if_pos htakes] at hmax
    rw [hmoves] at hused hstorage
    by_cases hlt : target page request < j
    . rw [if_pos ⟨rfl, hlt, hmax⟩] at hused hstorage
      apply Exists.intro (j - 1)
      apply And.intro
      . exact ⟨by omega, by omega, hused, hstorage⟩
      . unfold shift
        rw [if_pos ⟨rfl, by omega⟩]
        omega
    . rw [if_neg (by omega)] at hused hstorage
      apply Exists.intro j
      apply And.intro
      . exact ⟨hone, by omega, hused, hstorage⟩
      . unfold shift
        rw [if_neg (by omega)]
  | false =>
    rw [hmoves, if_neg (by simp)] at hused hstorage
    apply Exists.intro j
    apply And.intro
    . refine ⟨hone, ?_, hused, hstorage⟩
      split at hmax
      . rename_i htakes
        unfold TakesPointer at htakes
        rw [hmoves] at htakes
        simp only [Bool.false_eq_true, or_false] at htakes
        omega
      . exact hmax
    . unfold shift
      rw [if_neg (by simp)]

theorem toNat_add_le {upper : Int} {pdUpper aligned : Nat} (hexact : upper = pdUpper - aligned)
    (hpos : 0 ≤ upper)
    : upper.toNat + aligned ≤ pdUpper := by
  omega

theorem added_placed (hlayout : page.Layout) (h : Usable page request) (hasFree : Bool)
    (hroom : ¬(lowerFor page request : Int) > upperFor page request.item)
    (hcopied : ¬memcpyFails request.item.length = true)
    : Added page (withHint (placed page request) hasFree) (moves page request)
      (target page request) request.item := by
  obtain ⟨htd, hspecial, hlower, hupper, hbytes⟩ := placed_fields page request
  have hpdUpper : page.pdUpper ≤ blcksz := Nat.le_trans hlayout.upper_le_special hlayout.special_le
  unfold memcpyFails at hcopied
  rw [Bool.or_eq_true, decide_eq_true_eq, decide_eq_true_eq] at hcopied
  have hexact : upperFor page request.item = (page.pdUpper : Int) - shortAlign request.item.length := by
    rcases upperFor_eq hpdUpper (show request.item.length ≤ securecMemMaxLen by omega) with hneg | hexact
    . omega
    . exact hexact
  have hle : page.pdLower ≤ lowerFor page request := by
    unfold lowerFor
    split
    . omega
    . exact Nat.le_refl _
  have hself : (placed page request).rowPtrs (target page request)
      = ⟨(upperFor page request.item).toNat, .normal, request.item.length⟩ := by
    rw [rowPtrs_placed, if_pos rfl]
  have hlow : lowerFor page request ≤ (upperFor page request.item).toNat :=
    Int.ofNat_le.1 (Int.le_trans (Int.not_lt.1 hroom) (Int.self_le_toNat _))
  have hspace : (upperFor page request.item).toNat + shortAlign request.item.length ≤ page.pdUpper :=
    toNat_add_le hexact (by omega)
  apply Added.withHint
  apply added_of_placed hlayout htd hspecial hupper hspace
  . rw [hlower]
    exact hle
  . rw [hlower]
    exact hlow
  . exact hbytes
  . exact Nat.pos_of_ne_zero fun hzero => hcopied (Or.inl hzero)
  . exact hself
  . exact one_le_target page request
  . exact target_le_placed hlayout h
  . intro i hi
    obtain ⟨hmax, hne, hptr⟩ := kept_placed hlayout h hi
    refine ⟨?_, hmax, hne, hptr⟩
    have hone := hi.1
    unfold shift
    split
    . omega
    . exact hone
  . intro j hj hne
    exact only_placed hlayout hj hne

end Added

section AllOrNothing

theorem unchanged_searched (page : UPage) (request : Request) : Unchanged page (searched page request) := by
  obtain ⟨hasFree, heq⟩ := searched_eq page request
  rw [heq]
  exact ⟨rfl, rfl, rfl, rfl, rfl⟩

theorem unchanged_charged_iff (page : UPage) (request : Request) (hasFree : Bool)
    : Unchanged page (withHint (charged page request) hasFree)
        ↔ ¬(TakesPointer page request ∧ 0 < page.potentialFreespace) := by
  have hfree : (withHint (charged page request) hasFree).potentialFreespace
      = if TakesPointer page request then page.potentialFreespace - sizeOfRowPtr
        else page.potentialFreespace := rfl
  constructor
  . intro hsame
    have heq := hsame.potentialFreespace
    rintro ⟨htakes, hpos⟩
    rw [hfree, if_pos htakes] at heq
    unfold sizeOfRowPtr at heq
    omega
  . intro hnot
    refine ⟨rfl, rfl, rfl, rfl, ?_⟩
    rw [hfree]
    split
    . rename_i htakes
      have hzero : page.potentialFreespace = 0 := by
        by_contra hne
        exact hnot ⟨htakes, Nat.pos_of_ne_zero hne⟩
      omega
    . rfl

section

variable (hlayout : page.Layout)
include hlayout

theorem not_hasRoom (hroom : (lowerFor page request : Int) > upperFor page request.item)
    : ¬HasRoom page request := by
  intro hfits
  have hpdUpper : page.pdUpper ≤ blcksz := Nat.le_trans hlayout.upper_le_special hlayout.special_le
  unfold HasRoom at hfits
  rw [upperFor_of_room hpdUpper (by omega)] at hroom
  omega

theorem upageAddItem_eq (h : Usable page request)
    : ∃ hasFree, upageAddItem page request
        =
      if (lowerFor page request : Int) > upperFor page request.item then
        .refused (withHint (charged page request) hasFree)
      else if memcpyFails request.item.length then
        .raised
      else
        .added (target page request) (withHint (placed page request) hasFree) := by
  obtain ⟨hasFree, hsearched⟩ := searched_eq page request
  apply Exists.intro hasFree
  have hhint : searched page request = withHint page hasFree := hsearched
  rw [upageAddItem_of_usable hlayout h, hhint, calculateLowerUpperPointers_eq page request h hasFree]

theorem not_allOrNothing (h : LeavesTrace page request) : ¬AllOrNothing page request := by
  obtain ⟨hasFree, hrun⟩ := upageAddItem_eq hlayout h.usable
  rw [if_pos h.no_room] at hrun
  unfold AllOrNothing
  rw [hrun]
  rintro ⟨hsame, -⟩
  exact (unchanged_charged_iff page request hasFree).1 hsame ⟨h.takesPointer, h.potentialFreespace_pos⟩

theorem added_of_run (hrun : upageAddItem page request = .added offnum page')
    : offnum = target page request ∧ Added page page' (moves page request) offnum request.item := by
  by_cases husable : Usable page request
  . obtain ⟨hasFree, heq⟩ := upageAddItem_eq hlayout husable
    rw [heq] at hrun
    split at hrun
    . cases hrun
    . rename_i hroom
      split at hrun
      . cases hrun
      . rename_i hcopied
        cases hrun
        exact ⟨rfl, added_placed hlayout husable hasFree hroom hcopied⟩
  . rw [upageAddItem_of_not_usable hlayout husable] at hrun
    cases hrun

theorem allOrNothing_of_not_leavesTrace (h : ¬LeavesTrace page request)
    : AllOrNothing page request := by
  unfold AllOrNothing
  by_cases husable : Usable page request
  . obtain ⟨hasFree, hrun⟩ := upageAddItem_eq hlayout husable
    by_cases hroom : (lowerFor page request : Int) > upperFor page request.item
    . rw [if_pos hroom] at hrun
      rw [hrun]
      apply And.intro
      . apply (unchanged_charged_iff page request hasFree).2
        rintro ⟨htakes, hpos⟩
        exact h ⟨husable, htakes, hroom, hpos⟩
      . exact Or.inr (not_hasRoom hlayout hroom)
    . rw [if_neg hroom] at hrun
      by_cases hcopied : memcpyFails request.item.length = true
      . rw [if_pos hcopied] at hrun
        rw [hrun]
        trivial
      . rw [if_neg hcopied] at hrun
        have hadded := added_of_run hlayout hrun
        rw [hrun]
        exact hadded
  . rw [upageAddItem_of_not_usable hlayout husable]
    exact ⟨unchanged_searched page request, Or.inl husable⟩

end

theorem allOrNothing_iff (hlayout : page.Layout) : AllOrNothing page request ↔ ¬LeavesTrace page request := by
  constructor
  . intro hall htrace
    exact not_allOrNothing hlayout htrace hall
  . exact allOrNothing_of_not_leavesTrace hlayout

section Insert

-- The short form of the function stands for the whole one where an insertion finds a place.
theorem calculateLowerUpperPointers_of_some (hupper : page.pdUpper ≤ blcksz) (hpos : 0 < item.length)
    (h : Ustore.calculateLowerUpperPointers page offnum item = some page')
    : calculateLowerUpperPointers page offnum item false = .added offnum page' := by
  have halign := le_shortAlign item.length
  unfold Ustore.calculateLowerUpperPointers at h
  dsimp only at h
  rw [Option.ite_none_left_eq_some, Option.ite_none_left_eq_some, Option.some.injEq] at h
  obtain ⟨hlimit, hroom, rfl⟩ := h
  have hexact : ∀ free, upperFor { page with potentialFreespace := free } item
      = (page.pdUpper : Int) - shortAlign item.length := fun free =>
    upperFor_of_room hupper (by dsimp only; omega)
  have hnat : ((page.pdUpper : Int) - shortAlign item.length).toNat
      = page.pdUpper - shortAlign item.length := by omega
  have hcopied : memcpyFails item.length = false := by
    unfold blcksz at hupper
    unfold memcpyFails securecMemMaxLen
    rw [Bool.or_eq_false_iff, decide_eq_false_iff_not, decide_eq_false_iff_not]
    omega
  unfold calculateLowerUpperPointers
  rw [if_neg hlimit]
  simp only [hexact, hnat, hcopied, Bool.or_false, decide_eq_true_eq]
  rw [if_neg (by omega)]
  rfl

theorem upageAddItem_of_some {maxTuples : Nat} (hlayout : page.Layout) (hpos : 0 < item.length)
    (h : Ustore.upageAddItem page maxTuples item = some (offnum, page'))
    : upageAddItem page ⟨false, maxTuples, item, invalidOffsetNumber, false⟩ = .added offnum page' := by
  have hlower := hlayout.lower_le
  have hupper : (findNextFreeSlot page).2.pdUpper ≤ blcksz := by
    rw [(findNextFreeSlot_spec page).1]
    exact Nat.le_trans hlayout.upper_le_special hlayout.special_le
  unfold Ustore.upageAddItem at h
  dsimp only at h
  split at h
  . cases h
  . rename_i hmax
    obtain ⟨placed, hplaced, heq⟩ := Option.map_eq_some_iff.1 h
    cases heq
    unfold upageAddItem
    rw [if_neg (by omega), if_neg (by simp [offsetNumberIsValid]), putItem_searched, if_neg (by simpa using hmax)]
    exact calculateLowerUpperPointers_of_some hupper hpos hplaced

theorem added_of_some {maxTuples : Nat} (hlayout : page.Layout) (hpos : 0 < item.length)
    (h : Ustore.upageAddItem page maxTuples item = some (offnum, page')) : Added page page' false offnum item :=
  (added_of_run hlayout (upageAddItem_of_some hlayout hpos h)).2

theorem shift_false (offnum i : Nat) : shift false offnum i = i := if_neg (by simp)

theorem Added.stored_iff (h : Added page page' false offnum item) {i : Nat} (hne : i ≠ offnum)
    : page'.Stored i ↔ page.Stored i := by
  constructor
  . intro hi
    obtain ⟨j, hj, heq⟩ := (h.only i hi).resolve_left hne
    rw [shift_false] at heq
    rw [heq]
    exact hj
  . intro hi
    have hkept := (h.kept i hi).1
    rw [shift_false] at hkept
    exact hkept

theorem Added.kept_row (h : Added page page' false offnum item) {i : Nat} (hi : page.Stored i)
    : i ≠ offnum ∧ page'.rowPtrs i = page.rowPtrs i ∧ page'.rowData i = page.rowData i := by
  have hkept := (h.kept i hi).2
  rw [shift_false] at hkept
  exact hkept

end Insert

def narrowPage : UPage where
  bytes := Memory.zero
  hasFreeLinePointers := false
  pdLower := 184
  pdUpper := 200
  pdSpecial := 8192
  potentialFreespace := 8008
  tdCount := 8
  rowPtrs := fun _ => .unused

def insertOf (size : Nat) : Request where
  inRecovery := false
  maxTuples := 200
  item := List.replicate size 0
  offsetNumber := invalidOffsetNumber
  overwrite := false

theorem narrowPage_layout : narrowPage.Layout := by
  have hnone : ∀ i, ¬narrowPage.Stored i := by
    intro i hi
    have hused := hi.2.2.1
    cases hused
  constructor
  . decide
  . decide
  . decide
  . decide
  . intro i hi
    exact absurd hi (hnone i)
  . intro i hi
    exact absurd hi (hnone i)

theorem insertOf_usable (size : Nat) : Usable narrowPage (insertOf size) := by
  have htarget : target narrowPage (insertOf size) = 1 := rfl
  constructor
  . intro _
    rw [htarget]
    exact (by decide : 1 ≤ 200)
  . rw [htarget]
    decide
  . intro hvalid
    cases hvalid

theorem allOrNothing_iff_narrowPage
    : AllOrNothing narrowPage (insertOf 12) ↔ ¬LeavesTrace narrowPage (insertOf 12) :=
  allOrNothing_iff narrowPage_layout

theorem narrowPage_not_allOrNothing
    : narrowPage.Layout ∧ ¬AllOrNothing narrowPage (insertOf 14) := by
  apply And.intro narrowPage_layout
  apply not_allOrNothing narrowPage_layout
  constructor
  . exact insertOf_usable 14
  . exact Or.inl rfl
  . decide
  . decide

end AllOrNothing

end AddItem

end Ustore

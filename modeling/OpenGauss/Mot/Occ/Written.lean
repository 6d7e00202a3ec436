import OpenGauss.Mot.Occ.Lemmas

/-!
This module shows what one write of a commit does to the sentinel of its access.
-/

open List VersionChain

namespace Mot.Occ

variable {S T D : Type} {header' : Sentinel S T D} {version : Option (Row S D)}
variable {header : Sentinel S T D}

section History

variable [DecidableEq S]

def versions (s : S) (history : List (Change S T D)) : RowPtr S D :=
  history.filterMap (fun change => if change.sentinel = s then change.version else none)

-- Whether the key of the sentinel is there after the history, by its inserts and deletes.
def keyPresent (initially : Bool) (s : S) : List (Change S T D) → Bool
  | [] => initially
  | change :: earlier =>
    if change.sentinel = s then
      match change.kind with
      | .insert => true
      | .delete => false
      | .update => keyPresent initially s earlier
    else
      keyPresent initially s earlier

theorem versions_append (s : S) (newer older : List (Change S T D))
    : versions s (newer ++ older) = versions s newer ++ versions s older :=
  filterMap_append

theorem keyPresent_append (initially : Bool) (s : S) (newer older : List (Change S T D))
    : keyPresent initially s (newer ++ older) = keyPresent (keyPresent initially s older) s newer := by
  induction newer with
  | nil => rfl
  | cons change newer ih => rw [cons_append, keyPresent, keyPresent, ih]

theorem keyPresent_mono {b b' : Bool} (s : S) (history : List (Change S T D)) (h : b = true → b' = true)
    : keyPresent b s history = true → keyPresent b' s history = true := by
  induction history with
  | nil => exact h
  | cons change earlier ih =>
    rw [keyPresent, keyPresent]
    split
    . split
      . exact id
      . exact id
      . exact ih
    . exact ih

theorem keyPresent_of_others {b : Bool} {s : S} {history : List (Change S T D)}
    (h : ∀ change ∈ history, change.sentinel ≠ s) : keyPresent b s history = b := by
  induction history with
  | nil => rfl
  | cons change earlier ih =>
    rw [forall_mem_cons] at h
    rw [keyPresent, if_neg h.1, ih h.2]

theorem versions_of_others {s : S} {history : List (Change S T D)}
    (h : ∀ change ∈ history, change.sentinel ≠ s) : versions s history = [] := by
  rw [versions, filterMap_eq_nil_iff]
  intro change hchange
  rw [if_neg (h change hchange)]

theorem exists_delete_of_keyPresent {b : Bool} {s : S} {between : List (Change S T D)}
    (h : keyPresent b s between = false) (hb : b = true)
    : ∃ change ∈ between, change.sentinel = s ∧ change.kind = .delete := by
  induction between with
  | nil => simp [keyPresent, hb] at h
  | cons change earlier ih =>
    have hearlier : keyPresent b s earlier = false →
        ∃ c ∈ change :: earlier, c.sentinel = s ∧ c.kind = .delete := by
      intro habsent
      obtain ⟨c, hc, hdelete⟩ := ih habsent
      exact ⟨c, mem_cons_of_mem _ hc, hdelete⟩
    rw [keyPresent] at h
    split at h
    . rename_i hsentinel
      split at h
      . simp at h
      . rename_i hkind
        exact ⟨change, mem_cons_self, hsentinel, hkind⟩
      . exact hearlier h
    . exact hearlier h

end History

def Sentinel.live (s : Sentinel S T D) : Bool :=
  !s.dirty &&
    match s.indexOrder with
    | .primary => s.data.head?.any (·.rowType = .row)
    | .secondary => s.endCsn = sentinelInitCsn
    | .secondaryUnique => s.nodes.head?.any (·.endCsn = sentinelInitCsn)

structure Written [DecidableEq S] (t : T) (csn : Nat) (s : S) (header header' : Sentinel S T D)
    (changes : List (Change S T D)) : Prop where
  lock : header'.lock = header.lock
  indexOrder : header'.indexOrder = header.indexOrder
  committed : header.dirty = false → header'.dirty = false
  empty : header'.indexOrder = .primary → header'.dirty = true → header'.data = []
  data : header'.data = versions s changes ++ header.data
  change : ∀ change ∈ changes, change.txn = t ∧ change.sentinel = s ∧ change.csn = csn ∧
    ∀ v ∈ change.version, v.csn = csn
  versioned : header.indexOrder = .primary → ∀ change ∈ changes, change.version.isSome = true
  order : changes.Pairwise (fun newer older => newer.kind = .insert ∧ older.kind = .delete)
  descending : VersionChain.Descending Row.csn tiedVersions (versions s changes)
  placed : ∀ change earlier, change :: earlier <:+ changes → header.indexOrder = .primary →
    change.kind ≠ .insert → change.seen = versions s earlier ++ header.data
  inserted : ∀ change earlier, change :: earlier <:+ changes → change.kind = .insert →
    keyPresent header.live s earlier = false
  present : keyPresent header.live s changes = true → header'.live = true

theorem Written.grows [DecidableEq S] {t : T} {csn : Nat} {s : S}
    {changes : List (Change S T D)} (h : Written t csn s header header' changes)
    (hbelow : ∀ row ∈ header.data, row.csn < csn) : header.Grows header' := { h with
  data := by
    refine ⟨versions s changes, h.data, ?_⟩
    intro n hn v hv
    obtain ⟨change, hchange, hversion⟩ := mem_filterMap.1 hn
    split at hversion
    . rw [(h.change change hchange).2.2.2 n hversion]
      exact hbelow v hv
    . simp at hversion }

theorem Written.of_nothing [DecidableEq S] {t : T} {csn : Nat} {s : S}
    (hlock : header'.lock = header.lock) (hindexOrder : header'.indexOrder = header.indexOrder)
    (hdirty : header'.dirty = header.dirty) (hdata : header'.data = header.data)
    (hlive : header.live = true → header'.live = true)
    (hempty : header.indexOrder = .primary → header.dirty = true → header.data = [])
    : Written t csn s header header' [] where
  lock := hlock
  indexOrder := hindexOrder
  committed := by
    rw [hdirty]
    exact id
  empty := by
    rw [hindexOrder, hdirty, hdata]
    exact hempty
  data := hdata
  change := by simp
  versioned := by simp
  order := List.Pairwise.nil
  descending := List.Pairwise.nil
  placed := by simp
  inserted := by simp
  present := hlive

section Validated

variable {header : Sentinel S T D} {access : Access S D} {csn : Nat}

theorem Access.WellFormed.data_eq (h : access.WellFormed header)
    (hvalid : quickHeaderValidation access header = true) (hprimary : header.indexOrder = .primary)
    (hempty : header.indexOrder = .primary → header.dirty = true → header.data = [])
    : header.data = access.globalRow := by
  have hparams := h.primary.2 hprimary
  have hsame : access.type ≠ .INS ∨ access.params.isUpgradeInsert = true →
      some access.csn = header.data.commitSequenceNumber → header.data = access.globalRow := by
    intro hread hcsn
    obtain ⟨_, hseen, hglobal⟩ := h.read hprimary hread
    obtain ⟨v, hv, hvcsn⟩ := RowPtr.exists_of_commitSequenceNumber hglobal
    obtain ⟨w, hw, hwcsn⟩ := RowPtr.exists_of_commitSequenceNumber hcsn.symm
    exact (hseen.eq_of_stamp hv hw (by omega)).symm
  rw [quickHeaderValidation] at hvalid
  split at hvalid
  . rename_i hinsert
    rw [quickVersionCheck, if_pos hparams] at hvalid
    split at hvalid
    . simp at hvalid
    . exact hsame (.inl hinsert) (by simpa using hvalid)
  . rename_i hinsert
    rw [not_not] at hinsert
    rw [quickInsertCheck] at hvalid
    split at hvalid
    . rename_i hupgrade
      obtain ⟨_, _, _, _, hplain⟩ := h.insert hinsert
      rw [(hplain (by simpa using hupgrade)).2]
      exact hempty hprimary hvalid
    . rename_i hupgrade
      split at hvalid
      . simp at hvalid
      . exact hsame (.inr (by simpa using hupgrade)) (by simpa using hvalid)

theorem Written.draft [DecidableEq S] {csn : Nat} (t : T) (s : S) (row : Row S D) (kind : ChangeKind)
    (hcsn : row.csn = csn) (hprimary : header.indexOrder = .primary)
    (hcommitted : header.dirty = false)
    (hkind : kind = .delete ∨ kind = .update ∧ header.data.head?.map Row.rowType = some row.rowType)
    : Written t csn s header { header with data := row :: header.data }
      [{ txn := t, sentinel := s, csn := csn, kind := kind, seen := header.data, version := some row }] where
  lock := rfl
  indexOrder := rfl
  committed := id
  empty _ hdirty := by simp [hcommitted] at hdirty
  data := by simp [versions]
  change := by simp [hcsn]
  versioned := by simp
  order := pairwise_singleton _ _
  descending := by
    simp only [versions, filterMap_cons, if_true, filterMap_nil]
    exact pairwise_singleton _ _
  placed := by
    intro change earlier hsuffix _ _
    rcases suffix_cons_iff.1 hsuffix with heq | hsuffix
    . rw [List.cons.injEq] at heq
      rw [heq.1, heq.2]
      rfl
    . simp at hsuffix
  inserted := by
    intro change earlier hsuffix hinsert
    rcases suffix_cons_iff.1 hsuffix with heq | hsuffix
    . rw [List.cons.injEq] at heq
      rw [heq.1] at hinsert
      rcases hkind with hkind | ⟨hkind, _⟩ <;> simp [hkind] at hinsert
    . simp at hsuffix
  present := by
    rcases hkind with rfl | ⟨rfl, hrow⟩
    . simp [keyPresent]
    . simp only [keyPresent, if_true]
      rw [Option.map_eq_some_iff] at hrow
      obtain ⟨head, hhead, hrowType⟩ := hrow
      simp [Sentinel.live, hprimary, hcommitted, hhead, hrowType]

theorem Written.deleteKey [DecidableEq S] {t : T} {csn : Nat} {s : S} {seen : RowPtr S D}
    (hsecondary : header.indexOrder ≠ .primary)
    : Written t csn s header (header.setEndCsn csn)
      [{ txn := t, sentinel := s, csn := csn, kind := .delete, seen := seen, version := none }] := by
  have hsame : (header.setEndCsn csn).lock = header.lock ∧
      (header.setEndCsn csn).indexOrder = header.indexOrder ∧
      (header.setEndCsn csn).dirty = header.dirty ∧ (header.setEndCsn csn).data = header.data := by
    rw [Sentinel.setEndCsn]
    split <;> exact ⟨rfl, rfl, rfl, rfl⟩
  constructor
  case lock => exact hsame.1
  case indexOrder => exact hsame.2.1
  case committed =>
    rw [hsame.2.2.1]
    exact id
  case empty =>
    rw [hsame.2.1]
    exact fun hprimary => absurd hprimary hsecondary
  case data => simp [versions, hsame.2.2.2]
  case change => simp
  case versioned => exact fun hprimary => absurd hprimary hsecondary
  case order => exact pairwise_singleton _ _
  case descending => simp [versions, Descending]
  case placed => exact fun _ _ _ hprimary => absurd hprimary hsecondary
  case inserted =>
    intro change earlier hsuffix hinsert
    rcases suffix_cons_iff.1 hsuffix with heq | hsuffix
    . rw [List.cons.injEq] at heq
      simp [heq.1] at hinsert
    . simp at hsuffix
  case present => simp [keyPresent]

structure Access.SameRead (access access' : Access S D) : Prop where
  origSentinel : access'.origSentinel = access.origSentinel
  type : access'.type = access.type
  params : access'.params = access.params
  globalRow : access'.globalRow = access.globalRow
  csn : access'.csn = access.csn
  snapshot : access'.snapshot = access.snapshot
  secondaryUniqueNode : access'.secondaryUniqueNode = access.secondaryUniqueNode

theorem Access.writeGlobalChanges_sameRead (access : Access S D) (csn : Nat) (header : Sentinel S T D)
    : access.SameRead (access.writeGlobalChanges csn header).1 := by
  rw [writeGlobalChanges]
  split
  . constructor <;> rfl
  . split
    . constructor <;> rfl
    . constructor <;> rfl
  . split
    . dsimp only
      split
      . split
        . constructor <;> rfl
        . constructor <;> rfl
      . constructor <;> rfl
    . constructor <;> rfl
  . constructor <;> rfl
  . constructor <;> rfl

theorem Access.WellFormed.committed_of_read (h : access.WellFormed header)
    (hprimary : header.indexOrder = .primary) (hinsert : access.type ≠ .INS) : header.dirty = false :=
  (h.read hprimary (.inl hinsert)).1

theorem Access.WellFormed.writeGlobalChanges_written [DecidableEq S] (h : access.WellFormed header)
    (hvalid : quickHeaderValidation access header = true)
    (hempty : header.indexOrder = .primary → header.dirty = true → header.data = []) (t : T) (csn : Nat)
    : Written t csn access.origSentinel header (access.writeGlobalChanges csn header).2
      ((access.writeGlobalChanges csn header).1.globalChanges t csn) := by
  cases htype : access.type with
  | WR =>
    have hprimary := h.ofPrimary (by simp [htype]) (by simp [htype])
    obtain ⟨row, next, hlocal, hrow⟩ := h.update htype
    have hdata := h.data_eq hvalid hprimary hempty
    have hcommitted := h.committed_of_read hprimary (by simp [htype])
    have hdraft := Written.draft t access.origSentinel { row with csn } .update rfl hprimary hcommitted
      (.inr ⟨rfl, by rw [hdata, hrow]⟩)
    simp only [Access.writeGlobalChanges, htype, hlocal, RowPtr.setCommitSequenceNumber,
      RowPtr.setNextVersion, Access.globalChanges, Access.change, h.primary.2 hprimary, if_true,
      head?_cons]
    rw [← hdata]
    exact hdraft
  | DEL =>
    by_cases hprimary : header.indexOrder = .primary
    . obtain ⟨row, next, hlocal, hrow⟩ := h.tombstone hprimary (.inl htype)
      have hdata := h.data_eq hvalid hprimary hempty
      have hcommitted := h.committed_of_read hprimary (by simp [htype])
      have hdraft := Written.draft t access.origSentinel { row with csn } .delete rfl hprimary hcommitted
        (.inl rfl)
      simp only [Access.writeGlobalChanges, htype, hlocal, RowPtr.setCommitSequenceNumber,
        RowPtr.setNextVersion, Access.globalChanges, Access.change, h.primary.2 hprimary, if_true,
        head?_cons]
      rw [← hdata]
      exact hdraft
    . simp only [Access.writeGlobalChanges, htype, h.isPrimarySentinel_eq_false hprimary,
        Bool.false_eq_true, if_false, Access.globalChanges, Access.change]
      exact Written.deleteKey hprimary
  | INS =>
    have hchanges : (access.writeGlobalChanges csn header).1.globalChanges t csn = [] := by
      rw [Access.globalChanges, (access.writeGlobalChanges_sameRead csn header).type, htype]
    rw [hchanges]
    have hstart : ∀ startCsn, Written t csn access.origSentinel header { header with startCsn } [] :=
      fun startCsn => Written.of_nothing rfl rfl rfl rfl id hempty
    simp only [Access.writeGlobalChanges, htype]
    split
    . split
      . split
        . exact hstart csn
        . exact hstart csn
      . exact hstart header.startCsn
    . exact hstart header.startCsn
  | RD =>
    simp only [Access.writeGlobalChanges, htype, Access.globalChanges]
    exact Written.of_nothing rfl rfl rfl rfl id hempty
  | RD_FOR_UPDATE =>
    simp only [Access.writeGlobalChanges, htype, Access.globalChanges]
    exact Written.of_nothing rfl rfl rfl rfl id hempty

structure Access.Linked (csn : Nat) (access : Access S D) : Prop where
  insert : ∃ row, row.csn = csn ∧ row.rowType = .row ∧ access.localInsertRow
      =
    row :: (if access.params.isUpgradeInsert && !access.params.isInsertOnDeletedRow then access.localRow
      else access.globalRow)
  tombstone : access.params.isUpgradeInsert = true → access.params.isInsertOnDeletedRow = false →
    ∃ row, row.csn = csn ∧ row.rowType = .tombstone ∧ access.localRow = row :: access.globalRow

theorem Access.WellFormed.writeGlobalChanges_linked (h : access.WellFormed header)
    (hprimary : header.indexOrder = .primary) (hinsert : access.type = .INS) (csn : Nat)
    : (access.writeGlobalChanges csn header).1.Linked csn := by
  obtain ⟨row, next, hlocal, hrow, hplain⟩ := h.insert hinsert
  simp only [writeGlobalChanges, hinsert, h.primary.2 hprimary, if_true]
  split
  . rename_i hupgrade
    split
    . rename_i hdeleted
      constructor
      . refine ⟨{ row with csn }, rfl, hrow, ?_⟩
        simp [hlocal, RowPtr.setCommitSequenceNumber, RowPtr.setNextVersion, hdeleted]
      . simp [hdeleted]
    . rename_i hdeleted
      rw [Bool.not_eq_true] at hdeleted
      obtain ⟨tomb, below, htomb, htype⟩ := h.tombstone hprimary (.inr ⟨hinsert, hupgrade, hdeleted⟩)
      constructor
      . refine ⟨{ row with csn }, rfl, hrow, ?_⟩
        simp [hlocal, RowPtr.setCommitSequenceNumber, RowPtr.setNextVersion, hdeleted, hupgrade]
      . intro _ _
        refine ⟨{ tomb with csn }, rfl, htype, ?_⟩
        simp [htomb, RowPtr.setCommitSequenceNumber, RowPtr.setNextVersion]
  . rename_i hupgrade
    rw [Bool.not_eq_true] at hupgrade
    obtain ⟨hnext, hglobal⟩ := hplain hupgrade
    constructor
    . refine ⟨{ row with csn }, rfl, hrow, ?_⟩
      simp [hlocal, RowPtr.setCommitSequenceNumber, hupgrade, hnext, hglobal]
    . simp [hupgrade]

theorem RowPtr.rowType_cons {row : RowPtr S D} {rowType : RowType}
    (h : row.head?.map Row.rowType = some rowType)
    : ∃ head next, row = head :: next ∧ head.rowType = rowType := by
  cases row with
  | nil => simp at h
  | cons head next =>
    simp only [head?_cons, Option.map_some, Option.some.injEq] at h
    exact ⟨head, next, rfl, h⟩

@[simp]
theorem RowPtr.rowType_setCommitSequenceNumber (row : RowPtr S D) (csn : Nat)
    : (row.setCommitSequenceNumber csn).head?.map Row.rowType = row.head?.map Row.rowType := by
  cases row <;> rfl

@[simp]
theorem RowPtr.rowType_setNextVersion (row next : RowPtr S D)
    : (row.setNextVersion next).head?.map Row.rowType = row.head?.map Row.rowType := by
  cases row <;> rfl

theorem Access.rowType_writeGlobalChanges (access : Access S D) (csn : Nat) (header : Sentinel S T D)
    : (access.writeGlobalChanges csn header).1.localRow.head?.map Row.rowType
        =
      access.localRow.head?.map Row.rowType
        ∧
      (access.writeGlobalChanges csn header).1.localInsertRow.head?.map Row.rowType
        =
      access.localInsertRow.head?.map Row.rowType := by
  rw [writeGlobalChanges]
  split
  . simp
  . split
    . simp
    . simp
  . split
    . dsimp only
      split
      . split <;> simp
      . simp
    . simp
  . simp
  . simp

theorem Access.WellFormed.of_sameRead {access' : Access S D} (h : access.WellFormed header)
    (hsame : access.SameRead access')
    (hlocal : access'.localRow.head?.map Row.rowType = access.localRow.head?.map Row.rowType)
    (hinserted : access'.localInsertRow.head?.map Row.rowType
      =
    access.localInsertRow.head?.map Row.rowType)
    (hplain : access.type = .INS → access.params.isUpgradeInsert = false →
      ∃ row, access'.localInsertRow = [row])
    : access'.WellFormed header where
  primary := by rw [hsame.params]; exact h.primary
  unique := by rw [hsame.params]; exact h.unique
  committed := by rw [hsame.params]; exact h.committed
  read := by rw [hsame.params, hsame.type, hsame.globalRow, hsame.csn]; exact h.read
  notInsert := by rw [hsame.params, hsame.type]; exact h.notInsert
  plain := by rw [hsame.params]; exact h.plain
  onDeleted := by rw [hsame.params]; exact h.onDeleted
  ofPrimary := by rw [hsame.type]; exact h.ofPrimary
  update := by
    rw [hsame.type, hsame.globalRow]
    intro htype
    obtain ⟨row, next, hrow, hkind⟩ := h.update htype
    have hmap : access'.localRow.head?.map Row.rowType = some row.rowType := by
      rw [hlocal, hrow]
      rfl
    obtain ⟨head, below, hhead, heq⟩ := RowPtr.rowType_cons hmap
    exact ⟨head, below, hhead, by rw [hkind, heq]⟩
  tombstone := by
    rw [hsame.params, hsame.type]
    intro hprimary hdelete
    obtain ⟨row, next, hrow, hkind⟩ := h.tombstone hprimary hdelete
    have hmap : access'.localRow.head?.map Row.rowType = some row.rowType := by
      rw [hlocal, hrow]
      rfl
    obtain ⟨head, below, hhead, heq⟩ := RowPtr.rowType_cons hmap
    exact ⟨head, below, hhead, heq.trans hkind⟩
  insert := by
    rw [hsame.params, hsame.type, hsame.globalRow]
    intro htype
    obtain ⟨row, next, hrow, hkind, hnone⟩ := h.insert htype
    have hmap : access'.localInsertRow.head?.map Row.rowType = some row.rowType := by
      rw [hinserted, hrow]
      rfl
    obtain ⟨head, below, hhead, heq⟩ := RowPtr.rowType_cons hmap
    refine ⟨head, below, hhead, heq.trans hkind, ?_⟩
    intro hupgrade
    obtain ⟨single, hsingle⟩ := hplain htype hupgrade
    rw [hsingle, List.cons.injEq] at hhead
    exact ⟨hhead.2.symm, (hnone hupgrade).2⟩

theorem Access.WellFormed.writeGlobalChanges (h : access.WellFormed header)
    (hgrows : header.Grows (access.writeGlobalChanges csn header).2)
    : (access.writeGlobalChanges csn header).1.WellFormed (access.writeGlobalChanges csn header).2 := by
  obtain ⟨hlocal, hinserted⟩ := access.rowType_writeGlobalChanges csn header
  apply (h.grows hgrows).of_sameRead (access.writeGlobalChanges_sameRead csn header) hlocal hinserted
  intro htype hupgrade
  obtain ⟨row, next, hrow, _, hplain⟩ := h.insert htype
  rw [(hplain hupgrade).1] at hrow
  simp only [Access.writeGlobalChanges, htype, hupgrade, Bool.false_eq_true, if_false]
  split
  . exact ⟨{ row with csn }, by simp [hrow, RowPtr.setCommitSequenceNumber]⟩
  . exact ⟨row, hrow⟩

theorem quickHeaderValidation_writeGlobalChanges (hinsert : access.type = .INS)
    (hvalid : quickHeaderValidation access header = true) (csn : Nat)
    : quickHeaderValidation (access.writeGlobalChanges csn header).1
      (access.writeGlobalChanges csn header).2 = true := by
  have hsame := access.writeGlobalChanges_sameRead csn header
  have hheader : ∃ startCsn, (access.writeGlobalChanges csn header).2 = { header with startCsn } ∧
      (access.params.isPrimarySentinel = true ∨ startCsn = header.startCsn) := by
    simp only [Access.writeGlobalChanges, hinsert]
    split
    . rename_i hprimary
      split
      . split
        . exact ⟨csn, rfl, .inl hprimary⟩
        . exact ⟨csn, rfl, .inl hprimary⟩
      . exact ⟨header.startCsn, rfl, .inl hprimary⟩
    . exact ⟨header.startCsn, rfl, .inr rfl⟩
  obtain ⟨startCsn, heq, hstart⟩ := hheader
  simp only [quickHeaderValidation, hsame.type, hinsert, ne_eq, not_true_eq_false, if_false,
    quickInsertCheck, hsame.params, hsame.csn, hsame.secondaryUniqueNode, heq] at hvalid ⊢
  rcases hstart with hprimary | rfl
  . rw [hprimary] at hvalid ⊢
    exact hvalid
  . exact hvalid

theorem Written.insertKey [DecidableEq S] {t : T} {s : S} {seen : RowPtr S D}
    (hlock : header'.lock = header.lock)
    (hindexOrder : header'.indexOrder = header.indexOrder) (hcommitted : header'.dirty = false)
    (hdata : header'.data = version.toList ++ header.data) (hcsn : ∀ v ∈ version, v.csn = csn)
    (hversion : header.indexOrder = .primary → version.isSome = true) (habsent : header.live = false)
      (hlive : header'.live = true)
    : Written t csn s header header'
      [{ txn := t, sentinel := s, csn := csn, kind := .insert, seen := seen, version := version }] where
  lock := hlock
  indexOrder := hindexOrder
  committed := fun _ => hcommitted
  empty _ hdirty := by simp [hcommitted] at hdirty
  data := by
    rw [hdata]
    cases version <;> simp [versions]
  change := by
    intro change hchange
    rw [mem_singleton] at hchange
    rw [hchange]
    exact ⟨rfl, rfl, rfl, hcsn⟩
  versioned hprimary change hchange := by
    rw [mem_singleton] at hchange
    rw [hchange]
    exact hversion hprimary
  order := pairwise_singleton _ _
  descending := by cases version <;> simp [versions, Descending]
  placed := by
    intro change earlier hsuffix _ hinsert
    rcases suffix_cons_iff.1 hsuffix with heq | hsuffix
    . rw [List.cons.injEq] at heq
      simp [heq.1] at hinsert
    . simp at hsuffix
  inserted := by
    intro change earlier hsuffix _
    rcases suffix_cons_iff.1 hsuffix with heq | hsuffix
    . rw [List.cons.injEq] at heq
      rw [heq.2, keyPresent, habsent]
    . simp at hsuffix
  present := fun _ => hlive

theorem Written.reinsertKey [DecidableEq S] {t : T} {s : S} {seen seen' : RowPtr S D}
    {tombstone : Option (Row S D)} (hlock : header'.lock = header.lock)
    (hindexOrder : header'.indexOrder = header.indexOrder) (hcommitted : header'.dirty = false)
    (hdata : header'.data = version.toList ++ (tombstone.toList ++ header.data))
    (hcsn : ∀ v ∈ version, v.csn = csn) (htombstone : ∀ v ∈ tombstone, v.csn = csn)
    (hversion : header.indexOrder = .primary → version.isSome = true ∧ tombstone.isSome = true)
    (htied : ∀ v ∈ version, ∀ w ∈ tombstone, tiedVersions v w)
    (hseen : header.indexOrder = .primary → seen = header.data) (hlive : header'.live = true)
    : Written t csn s header header'
      [{ txn := t, sentinel := s, csn := csn, kind := .insert, seen := seen', version := version },
        { txn := t, sentinel := s, csn := csn, kind := .delete, seen := seen, version := tombstone }] where
  lock := hlock
  indexOrder := hindexOrder
  committed := fun _ => hcommitted
  empty _ hdirty := by simp [hcommitted] at hdirty
  data := by
    rw [hdata]
    cases version <;> cases tombstone <;> simp [versions]
  change := by
    intro change hchange
    rw [mem_pair] at hchange
    rcases hchange with rfl | rfl
    . exact ⟨rfl, rfl, rfl, hcsn⟩
    . exact ⟨rfl, rfl, rfl, htombstone⟩
  versioned hprimary change hchange := by
    rw [mem_pair] at hchange
    rcases hchange with rfl | rfl
    . exact (hversion hprimary).1
    . exact (hversion hprimary).2
  order := by simp
  descending := by
    cases version with
    | none => cases tombstone <;> simp [versions, Descending]
    | some v =>
      cases tombstone with
      | none => simp [versions, Descending]
      | some w =>
        have heq : w.csn = v.csn := (htombstone w rfl).trans (hcsn v rfl).symm
        simp only [versions, filterMap_cons, if_true, filterMap_nil]
        apply pairwise_pair.2
        exact .inr ⟨heq, htied v rfl w rfl⟩
  placed := by
    intro change earlier hsuffix hprimary hinsert
    rcases suffix_cons_iff.1 hsuffix with heq | hsuffix
    . rw [List.cons.injEq] at heq
      simp [heq.1] at hinsert
    . rcases suffix_cons_iff.1 hsuffix with heq | hsuffix
      . rw [List.cons.injEq] at heq
        rw [heq.1, heq.2]
        exact hseen hprimary
      . simp at hsuffix
  inserted := by
    intro change earlier hsuffix hinsert
    rcases suffix_cons_iff.1 hsuffix with heq | hsuffix
    . rw [List.cons.injEq] at heq
      rw [heq.2]
      simp [keyPresent]
    . rcases suffix_cons_iff.1 hsuffix with heq | hsuffix
      . rw [List.cons.injEq] at heq
        simp [heq.1] at hinsert
      . simp at hsuffix
  present := fun _ => hlive

theorem Sentinel.live_of_dirty (h : header.dirty = true) : header.live = false := by
  simp [live, h]

variable (h : access.WellFormed header)
include h

section

variable (hinsert : access.type = .INS)
include hinsert

variable (hvalid : quickHeaderValidation access header = true)
include hvalid

theorem Access.WellFormed.writeSentinelChanges_primary [DecidableEq S]
    (hempty : header.indexOrder = .primary → header.dirty = true → header.data = [])
    (hprimary : header.indexOrder = .primary) (hlinked : access.Linked csn) (t : T)
    : Written t csn access.origSentinel header (writeSentinelChanges csn access header)
      (access.insertChanges t csn) := by
  have hparams := h.primary.2 hprimary
  have hdata := h.data_eq hvalid hprimary hempty
  obtain ⟨row, hcsn, hrow, hlocal⟩ := hlinked.insert
  have hcheck : quickInsertCheck access header = true := by
    simpa [quickHeaderValidation, hinsert] using hvalid
  simp only [writeSentinelChanges, Access.insertChanges, Access.change, hinsert, ne_eq,
    not_true_eq_false, if_false, hparams, if_true]
  rw [quickInsertCheck] at hcheck
  cases hupgrade : access.params.isUpgradeInsert with
  | false =>
    simp only [hupgrade, Bool.not_false, if_true, Bool.false_and, Bool.false_eq_true, if_false]
      at hcheck hlocal ⊢
    rw [hlocal, head?_cons, ← hdata]
    refine Written.insertKey rfl rfl rfl rfl (by simp [hcsn]) (by simp) (Sentinel.live_of_dirty hcheck) ?_
    simp [Sentinel.live, hprimary, hrow]
  | true =>
    have hcommitted := h.committed hupgrade
    simp only [hupgrade, Bool.not_true, Bool.false_eq_true, if_false, Bool.true_and, hparams, if_true]
      at hcheck hlocal ⊢
    cases hdeleted : access.params.isInsertOnDeletedRow with
    | true =>
      simp only [hdeleted, Bool.not_true, Bool.false_eq_true, if_false, if_true, Bool.true_and]
        at hcheck hlocal ⊢
      split at hcheck
      . simp at hcheck
      . rename_i htombstone
        rw [Bool.not_eq_true, Bool.not_eq_false'] at htombstone
        rw [hlocal, head?_cons, ← hdata]
        refine Written.insertKey rfl rfl hcommitted rfl (by simp [hcsn]) (by simp) ?_ ?_
        . rw [RowPtr.isRowDeleted, Option.any_eq_true] at htombstone
          obtain ⟨old, hold, htype⟩ := htombstone
          rw [decide_eq_true_eq] at htype
          simp [Sentinel.live, hprimary, hold, htype]
        . simp [Sentinel.live, hprimary, hcommitted, hrow]
    | false =>
      obtain ⟨tomb, htombCsn, htombType, htomb⟩ := hlinked.tombstone hupgrade hdeleted
      simp only [hdeleted, Bool.not_false, Bool.false_eq_true, if_false, if_true] at hlocal ⊢
      rw [hlocal, htomb, head?_cons, head?_cons, ← hdata]
      refine Written.reinsertKey rfl rfl hcommitted rfl (by simp [hcsn]) (by simp [htombCsn]) (by simp)
        ?_ ?_ ?_
      . simp [tiedVersions, hrow, htombType]
      . exact fun _ => rfl
      . simp [Sentinel.live, hprimary, hcommitted, hrow]

theorem Access.WellFormed.writeSentinelChanges_secondary [DecidableEq S]
    (horder : header.indexOrder = .secondary) (t : T)
    : Written t csn access.origSentinel header (writeSentinelChanges csn access header)
      (access.insertChanges t csn) := by
  have hprimary := h.isPrimarySentinel_eq_false (by simp [horder])
  have hunique : access.params.isUniqueIndex = false := by
    rw [← Bool.not_eq_true, h.unique]
    simp [horder]
  have hcheck : quickInsertCheck access header = true := by
    simpa [quickHeaderValidation, hinsert] using hvalid
  have hsecondaryUnique : access.params.isSecondaryUniqueSentinel = false := by
    simp [AccessParams.isSecondaryUniqueSentinel, hunique]
  simp only [writeSentinelChanges, Access.insertChanges, Access.change, hinsert, ne_eq,
    not_true_eq_false, if_false, hprimary, hunique, Bool.false_eq_true, hsecondaryUnique]
  rw [quickInsertCheck] at hcheck
  cases hupgrade : access.params.isUpgradeInsert with
  | false =>
    simp only [hupgrade, Bool.not_false, if_true, Bool.false_and, Bool.false_eq_true, if_false] at hcheck ⊢
    refine Written.insertKey rfl rfl rfl rfl (by simp) (by simp [horder]) (Sentinel.live_of_dirty hcheck) ?_
    simp [Sentinel.live, horder]
  | true =>
    have hcommitted := h.committed hupgrade
    have hdeleted := h.onDeleted horder hupgrade
    simp only [hupgrade, Bool.not_true, Bool.false_eq_true, if_false, hprimary, hsecondaryUnique,
      hdeleted, if_true, Bool.and_false] at hcheck ⊢
    split at hcheck
    . simp at hcheck
    . rename_i hend
      refine Written.insertKey rfl rfl hcommitted rfl (by simp) (by simp [horder]) ?_ ?_
      . simp [Sentinel.live, horder, hend]
      . simp [Sentinel.live, horder, hcommitted]

theorem Access.WellFormed.writeSentinelChanges_unique [DecidableEq S]
    (horder : header.indexOrder = .secondaryUnique) (t : T)
    : Written t csn access.origSentinel header (writeSentinelChanges csn access header)
      (access.insertChanges t csn) := by
  have hprimary := h.isPrimarySentinel_eq_false (by simp [horder])
  have hunique : access.params.isUniqueIndex = true := h.unique.2 (by simp [horder])
  have hcheck : quickInsertCheck access header = true := by
    simpa [quickHeaderValidation, hinsert] using hvalid
  have hsecondaryUnique : access.params.isSecondaryUniqueSentinel = true := by
    simp [AccessParams.isSecondaryUniqueSentinel, hunique, hprimary]
  obtain ⟨row, next, hlocal, _, _⟩ := h.insert hinsert
  have hnode : access.insertNode csn = [⟨access.poolNode, csn, sentinelInitCsn, row.primarySentinel⟩] := by
    simp [Access.insertNode, Access.primaryOfInsert, hlocal]
  simp only [writeSentinelChanges, Access.insertChanges, Access.change, hinsert, ne_eq,
    not_true_eq_false, if_false, hprimary, hunique, Bool.false_eq_true, hsecondaryUnique, if_true,
    Bool.not_true, hnode]
  rw [quickInsertCheck] at hcheck
  cases hupgrade : access.params.isUpgradeInsert with
  | false =>
    simp only [hupgrade, Bool.not_false, if_true, Bool.false_and, Bool.false_eq_true, if_false] at hcheck ⊢
    refine Written.insertKey rfl rfl rfl rfl (by simp) (by simp [horder]) (Sentinel.live_of_dirty hcheck) ?_
    simp [Sentinel.live, horder]
  | true =>
    have hcommitted := h.committed hupgrade
    simp only [hupgrade, Bool.not_true, Bool.false_eq_true, if_false, hprimary, hsecondaryUnique, if_true,
      Bool.true_and] at hcheck ⊢
    cases hdeleted : access.params.isInsertOnDeletedRow with
    | true =>
      simp only [Bool.not_true, Bool.false_eq_true, if_false, if_true]
      refine Written.insertKey rfl rfl hcommitted rfl (by simp) (by simp [horder]) ?_ ?_
      . split at hcheck
        . simp at hcheck
        . rename_i top older hnodes
          split at hcheck
          . simp at hcheck
          . rename_i hend
            simp only [hdeleted, Bool.true_and, decide_eq_true_eq] at hend
            simp [Sentinel.live, horder, hnodes, hend]
      . simp [Sentinel.live, horder, hcommitted]
    | false =>
      simp only [Bool.not_false, Bool.false_eq_true, if_false, if_true]
      refine Written.reinsertKey rfl rfl hcommitted rfl (by simp) (by simp) (by simp [horder]) (by simp)
        (by simp [horder]) ?_
      simp [Sentinel.live, horder, hcommitted]

end

theorem Access.WellFormed.writeSentinelChanges_written [DecidableEq S]
    (hvalid : access.type = .INS → quickHeaderValidation access header = true)
    (hempty : header.indexOrder = .primary → header.dirty = true → header.data = [])
    (hlinked : access.type = .INS → header.indexOrder = .primary → access.Linked csn) (t : T)
    : Written t csn access.origSentinel header (writeSentinelChanges csn access header)
      (access.insertChanges t csn) := by
  by_cases hinsert : access.type = .INS
  . cases horder : header.indexOrder with
    | primary =>
      exact h.writeSentinelChanges_primary hinsert (hvalid hinsert) hempty horder (hlinked hinsert horder) t
    | secondary => exact h.writeSentinelChanges_secondary hinsert (hvalid hinsert) horder t
    | secondaryUnique => exact h.writeSentinelChanges_unique hinsert (hvalid hinsert) horder t
  . rw [Occ.writeSentinelChanges, Access.insertChanges, if_pos hinsert, if_pos hinsert]
    exact Written.of_nothing rfl rfl rfl rfl id hempty

end Validated

end Mot.Occ

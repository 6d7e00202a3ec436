import OpenGauss.Mot.Occ.Written

/-!
This module contains the invariant of the commits.
-/

open List

namespace Mot.Occ

variable {S T D : Type} [LinearOrder S]

section Chains

structure Chains (σ₀ σ : OccState S T D) : Prop where
  initialCsn : σ₀.csn ≤ σ.csn
  indexOrder : ∀ s, (σ.header s).indexOrder = (σ₀.header s).indexOrder
  empty : ∀ s, (σ.header s).indexOrder = .primary → (σ.header s).dirty = true → (σ.header s).data = []
  data : ∀ s, (σ.header s).data = versions s σ.history ++ (σ₀.header s).data
  csn : ∀ c ∈ σ.history, σ₀.csn ≤ c.csn ∧ c.csn < σ.csn ∧ ∀ v ∈ c.version, v.csn = c.csn
  versioned : ∀ c ∈ σ.history, (σ₀.header c.sentinel).indexOrder = .primary → c.version.isSome = true
  sequence : σ.history.Pairwise (fun newer older => newer.sentinel = older.sentinel →
    older.csn < newer.csn ∨
      older.csn = newer.csn ∧ older.txn = newer.txn ∧ newer.kind = .insert ∧ older.kind = .delete)
  descending : ∀ s, VersionChain.Descending Row.csn tiedVersions (σ.header s).data
  placed : ∀ c earlier, c :: earlier <:+ σ.history → (σ₀.header c.sentinel).indexOrder = .primary →
    c.kind ≠ .insert → c.seen = versions c.sentinel earlier ++ (σ₀.header c.sentinel).data
  inserted : ∀ c earlier, c :: earlier <:+ σ.history → c.kind = .insert →
    keyPresent (σ₀.header c.sentinel).live c.sentinel earlier = false
  present : ∀ s, keyPresent (σ₀.header s).live s σ.history = true → (σ.header s).live = true

def Below (σ : OccState S T D) (csn : Nat) (s : S) : Prop :=
  ∀ c ∈ σ.history, c.sentinel = s → c.csn < csn

variable {σ₀ σ σ' : OccState S T D} {t : T} {csn : Nat} {s : S}

theorem Chains.initial (h : σ₀.Committed) : Chains σ₀ σ₀ := { h with
  initialCsn := le_refl _
  indexOrder _ := rfl
  data s := by simp [h.history, versions]
  csn := by simp [h.history]
  versioned := by simp [h.history]
  sequence := by simp [h.history]
  placed := by simp [h.history]
  inserted := by simp [h.history]
  present s := by simp [h.history, keyPresent] }

theorem Chains.row_lt (h : Chains σ₀ σ) (hinit : σ₀.Committed) (hbelow : Below σ csn s)
    (hcsn : σ₀.csn ≤ csn) : ∀ row ∈ (σ.header s).data, row.csn < csn := by
  intro row hrow
  rw [h.data, mem_append] at hrow
  rcases hrow with hrow | hrow
  . obtain ⟨c, hc, hversion⟩ := mem_filterMap.1 hrow
    split at hversion
    . rename_i hsentinel
      rw [(h.csn c hc).2.2 row hversion]
      exact hbelow c hc hsentinel
    . simp at hversion
  . exact lt_of_lt_of_le (hinit.csn s row hrow) hcsn

theorem Chains.same (h : Chains σ₀ σ) (hcontents : ∀ s, (σ'.header s).contents = (σ.header s).contents)
    (hhistory : σ'.history = σ.history) (hcsn : σ.csn ≤ σ'.csn) : Chains σ₀ σ' := by
  have horder : ∀ s, (σ'.header s).indexOrder = (σ.header s).indexOrder :=
    fun s => Sentinel.apply_of_contents (hcontents s) Sentinel.indexOrder (fun _ => rfl)
  have hdirty : ∀ s, (σ'.header s).dirty = (σ.header s).dirty :=
    fun s => Sentinel.apply_of_contents (hcontents s) Sentinel.dirty (fun _ => rfl)
  have hdata : ∀ s, (σ'.header s).data = (σ.header s).data :=
    fun s => Sentinel.apply_of_contents (hcontents s) Sentinel.data (fun _ => rfl)
  have hlive : ∀ s, (σ'.header s).live = (σ.header s).live :=
    fun s => Sentinel.apply_of_contents (hcontents s) Sentinel.live (fun _ => rfl)
  constructor
  case initialCsn => exact h.initialCsn.trans hcsn
  case indexOrder =>
    intro s
    rw [horder]
    exact h.indexOrder s
  case empty =>
    intro s
    rw [horder, hdirty, hdata]
    exact h.empty s
  case data =>
    intro s
    rw [hdata, hhistory]
    exact h.data s
  case csn =>
    intro c hc
    rw [hhistory] at hc
    obtain ⟨hge, hlt, hversion⟩ := h.csn c hc
    exact ⟨hge, lt_of_lt_of_le hlt hcsn, hversion⟩
  case versioned =>
    rw [hhistory]
    exact h.versioned
  case sequence =>
    rw [hhistory]
    exact h.sequence
  case descending =>
    intro s
    rw [hdata]
    exact h.descending s
  case placed =>
    rw [hhistory]
    exact h.placed
  case inserted =>
    rw [hhistory]
    exact h.inserted
  case present =>
    intro s
    rw [hhistory, hlive]
    exact h.present s

theorem suffix_append_cases {α : Type} {a : α} {tail newer older : List α} (h : a :: tail <:+ newer ++ older)
    : (∃ rest, tail = rest ++ older ∧ a :: rest <:+ newer) ∨ a :: tail <:+ older := by
  induction newer with
  | nil => exact .inr h
  | cons head newer ih =>
    rw [cons_append] at h
    rcases suffix_cons_iff.1 h with heq | hsuffix
    . rw [List.cons.injEq] at heq
      rw [heq.1, heq.2]
      exact .inl ⟨newer, rfl, suffix_refl _⟩
    . rcases ih hsuffix with ⟨rest, htail, hrest⟩ | hold
      . exact .inl ⟨rest, htail, hrest.trans (suffix_cons _ _)⟩
      . exact .inr hold

theorem Chains.write (h : Chains σ₀ σ) (hinit : σ₀.Committed) {header' : Sentinel S T D}
    {changes : List (Change S T D)} (hwritten : Written t csn s (σ.header s) header' changes)
    (hheader : σ'.header = Function.update σ.header s header')
    (hhistory : σ'.history = changes ++ σ.history) (hsame : σ'.csn = σ.csn) (hge : σ₀.csn ≤ csn)
    (hlt : csn < σ.csn) (hbelow : Below σ csn s) : Chains σ₀ σ' := by
  have hself : σ'.header s = header' := by rw [hheader, Function.update_self]
  have hother : ∀ u, u ≠ s → σ'.header u = σ.header u := by
    intro u hu
    rw [hheader, Function.update_of_ne hu]
  have hothers : ∀ u, u ≠ s → ∀ c ∈ changes, c.sentinel ≠ u := by
    intro u hu c hc
    rw [(hwritten.change c hc).2.1]
    exact hu.symm
  constructor
  case initialCsn => exact hsame ▸ h.initialCsn
  case indexOrder =>
    intro u
    by_cases hu : u = s
    . rw [hu, hself, hwritten.indexOrder]
      exact h.indexOrder s
    . rw [hother u hu]
      exact h.indexOrder u
  case empty =>
    intro u
    by_cases hu : u = s
    . rw [hu, hself]
      exact hwritten.empty
    . rw [hother u hu]
      exact h.empty u
  case data =>
    intro u
    rw [hhistory, versions_append]
    by_cases hu : u = s
    . rw [hu, hself, hwritten.data, h.data s, append_assoc]
    . rw [hother u hu, versions_of_others (hothers u hu), h.data u]
      rfl
  case csn =>
    intro c hc
    rw [hhistory, mem_append] at hc
    rw [hsame]
    rcases hc with hc | hc
    . obtain ⟨_, _, hcsn, hversion⟩ := hwritten.change c hc
      rw [hcsn]
      exact ⟨hge, hlt, hversion⟩
    . exact h.csn c hc
  case versioned =>
    intro c hc hprimary
    rw [hhistory, mem_append] at hc
    rcases hc with hc | hc
    . rw [(hwritten.change c hc).2.1, ← h.indexOrder s] at hprimary
      exact hwritten.versioned hprimary c hc
    . exact h.versioned c hc hprimary
  case sequence =>
    rw [hhistory, pairwise_append]
    refine ⟨?_, h.sequence, ?_⟩
    . apply hwritten.order.imp_of_mem
      intro newer older hnewer holder hkind _
      obtain ⟨htxn, _, hcsn, _⟩ := hwritten.change newer hnewer
      obtain ⟨htxn', _, hcsn', _⟩ := hwritten.change older holder
      exact .inr ⟨hcsn'.trans hcsn.symm, htxn'.trans htxn.symm, hkind⟩
    . intro newer hnewer older holder hsentinel
      obtain ⟨_, hs, hcsn, _⟩ := hwritten.change newer hnewer
      left
      rw [hcsn]
      exact hbelow older holder (hsentinel.symm.trans hs)
  case descending =>
    intro u
    by_cases hu : u = s
    . rw [hu, hself, hwritten.data]
      apply (h.descending s).push hwritten.descending
      intro n hn v hv
      obtain ⟨c, hc, hversion⟩ := mem_filterMap.1 hn
      split at hversion
      . rw [(hwritten.change c hc).2.2.2 n hversion]
        exact h.row_lt hinit hbelow hge v hv
      . simp at hversion
    . rw [hother u hu]
      exact h.descending u
  case placed =>
    intro c earlier hsuffix hprimary hkind
    rw [hhistory] at hsuffix
    rcases suffix_append_cases hsuffix with ⟨rest, rfl, hrest⟩ | hold
    . have hs := (hwritten.change c (hrest.subset mem_cons_self)).2.1
      rw [hs] at hprimary ⊢
      rw [← h.indexOrder s] at hprimary
      rw [hwritten.placed c rest hrest hprimary hkind, versions_append, h.data s, append_assoc]
    . exact h.placed c earlier hold hprimary hkind
  case inserted =>
    intro c earlier hsuffix hkind
    rw [hhistory] at hsuffix
    rcases suffix_append_cases hsuffix with ⟨rest, rfl, hrest⟩ | hold
    . have hs := (hwritten.change c (hrest.subset mem_cons_self)).2.1
      have habsent := hwritten.inserted c rest hrest hkind
      rw [hs, keyPresent_append, ← Bool.not_eq_true]
      intro hpresent
      rw [keyPresent_mono s rest (h.present s) hpresent] at habsent
      simp at habsent
    . exact h.inserted c earlier hold hkind
  case present =>
    intro u hpresent
    rw [hhistory, keyPresent_append] at hpresent
    by_cases hu : u = s
    . rw [hu] at hpresent ⊢
      rw [hself]
      exact hwritten.present (keyPresent_mono s changes (h.present s) hpresent)
    . rw [keyPresent_of_others (hothers u hu)] at hpresent
      rw [hother u hu]
      exact h.present u hpresent

end Chains

variable {access : Access S D}

section Definitions

variable (σ₀ σ : OccState S T D) (t : T)

def held (txn : Txn S D) : List S :=
  match txn.phase with
  | .running | .finished _ => []
  | .locking n _ _ => (txn.orderedSet.accesses.take n).map Access.origSentinel
  | .validating _ | .reserving _ | .validated | .writingGlobal _ _ | .writingSentinels _ _ =>
    txn.orderedSet.accesses.map Access.origSentinel
  | .releasing pending _ => pending

structure Prepared (txn : Txn S D) : Prop where
  writes : ∀ a ∈ txn.orderedSet.accesses, a.type ≠ .RD ∧ a.type ≠ .RD_FOR_UPDATE
  writeSetSize : txn.writeSetSize = txn.orderedSet.accesses.length
  insertSetSize : txn.insertSetSize = 0 → ∀ a ∈ txn.orderedSet.accesses, a.type ≠ .INS

def Valid (access : Access S D) : Prop :=
  quickHeaderValidation access (σ.header access.origSentinel) = true

def Quiet : Prop :=
  ∀ c ∈ σ.history, c.txn ≠ t

def changeKind : AccessType → Option ChangeKind
  | .WR => some .update
  | .DEL => some .delete
  | .INS => some .insert
  | .RD | .RD_FOR_UPDATE => none

def Recorded (access : Access S D) : Prop :=
  ∃ c ∈ σ.history, c.txn = t ∧ c.sentinel = access.origSentinel ∧
    changeKind access.type = some c.kind ∧ c.seen = access.globalRow

structure Pending (csn : Nat) (access : Access S D) : Prop where
  valid : Valid σ access
  below : Below σ csn access.origSentinel

structure PendingInsert (csn : Nat) (access : Access S D) : Prop where
  pending : Pending σ csn access
  linked : (σ.header access.origSentinel).indexOrder = .primary → access.Linked csn

def Outcome (rc : RC) : Prop :=
  if rc = .RC_OK then ∀ a ∈ σ.accesses t, Recorded σ t a else Quiet σ t

structure WritingGlobal (csn : Nat) (written rest : List (Access S D)) : Prop where
  csn_le : σ₀.csn ≤ csn
  csn_lt : csn < σ.csn
  split : σ.accesses t = written ++ rest
  rest : ∀ a ∈ rest, Pending σ csn a
  inserts : ∀ a ∈ written, a.type = .INS → PendingInsert σ csn a
  recorded : ∀ a ∈ written, a.type ≠ .INS → Recorded σ t a

structure WritingSentinels (csn : Nat) (written rest : List (Access S D)) : Prop where
  csn_le : σ₀.csn ≤ csn
  csn_lt : csn < σ.csn
  split : σ.accesses t = written ++ rest
  inserts : ∀ a ∈ rest, a.type = .INS → PendingInsert σ csn a
  recorded : ∀ a ∈ written, Recorded σ t a
  others : ∀ a ∈ rest, a.type ≠ .INS → Recorded σ t a

def PhaseInv : Phase S D → Prop
  | .running => Quiet σ t
  | .locking n rest _ => Prepared (σ.txns t) ∧ Quiet σ t ∧
    ∃ locked, σ.accesses t = locked ++ rest ∧ locked.length = n ∧ ∀ a ∈ locked, Valid σ a
  | .validating n | .reserving n => Prepared (σ.txns t) ∧ Quiet σ t ∧ n = (σ.accesses t).length ∧
    ∀ a ∈ σ.accesses t, Valid σ a
  | .validated => Prepared (σ.txns t) ∧ Quiet σ t ∧ ∀ a ∈ σ.accesses t, Valid σ a
  | .writingGlobal csn rest => Prepared (σ.txns t) ∧ ∃ written, WritingGlobal σ₀ σ t csn written rest
  | .writingSentinels csn rest => Prepared (σ.txns t) ∧ ∃ written, WritingSentinels σ₀ σ t csn written rest
  | .releasing pending rc => pending.Nodup ∧ Outcome σ t rc
  | .finished rc => Outcome σ t rc

structure TxnInv : Prop where
  access : ∀ a ∈ σ.accesses t, a.WellFormed (σ.header a.origSentinel)
  lock : ∀ s, (σ.header s).lock = some t ↔ s ∈ held (σ.txns t)
  phase : PhaseInv σ₀ σ t (σ.txns t).phase

structure Inv : Prop where
  chains : Chains σ₀ σ
  txn : ∀ t, TxnInv σ₀ σ t

structure Frame (σ' : OccState S T D) : Prop where
  txns : ∀ u, u ≠ t → σ'.txns u = σ.txns u
  csn : σ.csn ≤ σ'.csn
  lock : ∀ u, u ≠ t → ∀ s, (σ'.header s).lock = some u ↔ (σ.header s).lock = some u
  header : ∀ u, u ≠ t → ∀ s, (σ.header s).lock = some u → σ'.header s = σ.header s
  grows : ∀ s, (σ.header s).Grows (σ'.header s)
  history : ∃ changes, σ'.history = changes ++ σ.history ∧
    ∀ c ∈ changes, c.txn = t ∧ (σ.header c.sentinel).lock = some t

end Definitions

variable {σ₀ σ σ' : OccState S T D} {t u : T} {csn : Nat}

theorem Recorded.mono (h : Recorded σ t access)
    (hhistory : ∀ c ∈ σ.history, c ∈ σ'.history) : Recorded σ' t access := by
  obtain ⟨c, hc, hchange⟩ := h
  exact ⟨c, hhistory c hc, hchange⟩

section Changes

omit [LinearOrder S]

theorem exists_globalChange (t : T) (csn : Nat) (hinsert : access.type ≠ .INS)
    (hwrite : access.type ≠ .RD ∧ access.type ≠ .RD_FOR_UPDATE)
    : ∃ c ∈ access.globalChanges t csn, c.txn = t ∧ c.sentinel = access.origSentinel ∧
      changeKind access.type = some c.kind ∧ c.seen = access.globalRow := by
  cases htype : access.type with
  | WR => exact ⟨_, by rw [Access.globalChanges, htype]; exact mem_singleton_self _, rfl, rfl, rfl, rfl⟩
  | DEL => exact ⟨_, by rw [Access.globalChanges, htype]; exact mem_singleton_self _, rfl, rfl, rfl, rfl⟩
  | INS => exact absurd htype hinsert
  | RD => exact absurd htype hwrite.1
  | RD_FOR_UPDATE => exact absurd htype hwrite.2

theorem exists_insertChange (t : T) (csn : Nat) (hinsert : access.type = .INS)
    : ∃ c ∈ access.insertChanges t csn, c.txn = t ∧ c.sentinel = access.origSentinel ∧
      changeKind access.type = some c.kind ∧ c.seen = access.globalRow := by
  refine ⟨access.change t csn .insert access.localInsertRow, ?_, rfl, rfl, by rw [hinsert]; rfl, rfl⟩
  rw [Access.insertChanges, if_neg (not_not.2 hinsert)]
  split
  . exact mem_cons_self
  . exact mem_cons_self

end Changes

namespace Frame

variable (h : Frame σ t σ')

include h

theorem mem_history {c : Change S T D} (hc : c ∈ σ.history) : c ∈ σ'.history := by
  obtain ⟨changes, hhistory, _⟩ := h.history
  rw [hhistory]
  exact mem_append_right _ hc

theorem quiet (hu : u ≠ t) (hquiet : Quiet σ u) : Quiet σ' u := by
  obtain ⟨changes, hhistory, hchanges⟩ := h.history
  intro c hc
  rw [hhistory, mem_append] at hc
  rcases hc with hc | hc
  . rw [(hchanges c hc).1]
    exact hu.symm
  . exact hquiet c hc

theorem valid (hu : u ≠ t) (hlock : (σ.header access.origSentinel).lock = some u)
    (hvalid : Valid σ access) : Valid σ' access := by
  rw [Valid, h.header u hu _ hlock]
  exact hvalid

theorem pending (hu : u ≠ t) (hlock : (σ.header access.origSentinel).lock = some u)
    (hpending : Pending σ csn access) : Pending σ' csn access where
  valid := h.valid hu hlock hpending.valid
  below := by
    obtain ⟨changes, hhistory, hchanges⟩ := h.history
    intro c hc hsentinel
    rw [hhistory, mem_append] at hc
    rcases hc with hc | hc
    . have hown := (hchanges c hc).2
      rw [hsentinel, hlock, Option.some.injEq] at hown
      exact absurd hown hu
    . exact hpending.below c hc hsentinel

theorem pendingInsert (hu : u ≠ t)
    (hlock : (σ.header access.origSentinel).lock = some u) (hpending : PendingInsert σ csn access)
    : PendingInsert σ' csn access where
  pending := h.pending hu hlock hpending.pending
  linked := by
    rw [(h.grows _).indexOrder]
    exact hpending.linked

theorem recorded (hrecorded : Recorded σ u access) : Recorded σ' u access :=
  hrecorded.mono (fun _ => h.mem_history)

theorem accesses (hu : u ≠ t) : σ'.accesses u = σ.accesses u := by
  rw [OccState.accesses, h.txns u hu]
  rfl

theorem outcome (hu : u ≠ t) {rc : RC} (houtcome : Outcome σ u rc) : Outcome σ' u rc := by
  rw [Outcome] at houtcome ⊢
  split at houtcome
  . rename_i hok
    rw [if_pos hok, h.accesses hu]
    exact fun a ha => h.recorded (houtcome a ha)
  . rename_i hok
    rw [if_neg hok]
    exact h.quiet hu houtcome

theorem txnInv (hu : u ≠ t) (hinv : TxnInv σ₀ σ u) : TxnInv σ₀ σ' u where
  access := by
    rw [h.accesses hu]
    exact fun a ha => (hinv.access a ha).grows (h.grows _)
  lock s := by
    rw [h.lock u hu s, h.txns u hu]
    exact hinv.lock s
  phase := by
    have hphase := hinv.phase
    have hlock := hinv.lock
    rw [h.txns u hu]
    cases hcase : (σ.txns u).phase with
    | running =>
      rw [hcase] at hphase
      exact h.quiet hu hphase
    | locking n rest sleepTime =>
      rw [hcase] at hphase
      obtain ⟨hprepared, hquiet, locked, hsplit, hlength, hvalid⟩ := hphase
      refine ⟨by rw [h.txns u hu]; exact hprepared, h.quiet hu hquiet, locked, ?_, hlength, ?_⟩
      . rw [h.accesses hu]
        exact hsplit
      . intro a ha
        apply h.valid hu _ (hvalid a ha)
        rw [hlock, held, hcase]
        change a.origSentinel ∈ ((σ.accesses u).take n).map Access.origSentinel
        rw [hsplit, ← hlength, take_left']
        . exact mem_map_of_mem ha
        . rfl
    | validating n | reserving n =>
      rw [hcase] at hphase
      obtain ⟨hprepared, hquiet, hlength, hvalid⟩ := hphase
      refine ⟨by rw [h.txns u hu]; exact hprepared, h.quiet hu hquiet, ?_, ?_⟩
      . rw [h.accesses hu]
        exact hlength
      . rw [h.accesses hu]
        intro a ha
        apply h.valid hu _ (hvalid a ha)
        rw [hlock, held, hcase]
        exact mem_map_of_mem ha
    | validated =>
      rw [hcase] at hphase
      obtain ⟨hprepared, hquiet, hvalid⟩ := hphase
      refine ⟨by rw [h.txns u hu]; exact hprepared, h.quiet hu hquiet, ?_⟩
      rw [h.accesses hu]
      intro a ha
      apply h.valid hu _ (hvalid a ha)
      rw [hlock, held, hcase]
      exact mem_map_of_mem ha
    | writingGlobal csn rest =>
      rw [hcase] at hphase
      obtain ⟨hprepared, written, hwriting⟩ := hphase
      have hown : ∀ a ∈ written ++ rest, (σ.header a.origSentinel).lock = some u := by
        intro a ha
        rw [← hwriting.split] at ha
        rw [hlock, held, hcase]
        exact mem_map_of_mem ha
      refine ⟨by rw [h.txns u hu]; exact hprepared, written, ?_⟩
      exact
        { csn_le := hwriting.csn_le
          csn_lt := lt_of_lt_of_le hwriting.csn_lt h.csn
          split := (h.accesses hu).trans hwriting.split
          rest := fun a ha => h.pending hu (hown a (mem_append_right _ ha)) (hwriting.rest a ha)
          inserts := fun a ha hinsert =>
            h.pendingInsert hu (hown a (mem_append_left _ ha)) (hwriting.inserts a ha hinsert)
          recorded := fun a ha hinsert => h.recorded (hwriting.recorded a ha hinsert) }
    | writingSentinels csn rest =>
      rw [hcase] at hphase
      obtain ⟨hprepared, written, hwriting⟩ := hphase
      have hown : ∀ a ∈ rest, (σ.header a.origSentinel).lock = some u := by
        intro a ha
        rw [hlock, held, hcase]
        apply mem_map_of_mem
        change a ∈ σ.accesses u
        rw [hwriting.split]
        exact mem_append_right _ ha
      refine ⟨by rw [h.txns u hu]; exact hprepared, written, ?_⟩
      exact
        { csn_le := hwriting.csn_le
          csn_lt := lt_of_lt_of_le hwriting.csn_lt h.csn
          split := (h.accesses hu).trans hwriting.split
          inserts := fun a ha hinsert => h.pendingInsert hu (hown a ha) (hwriting.inserts a ha hinsert)
          recorded := fun a ha => h.recorded (hwriting.recorded a ha)
          others := fun a ha hinsert => h.recorded (hwriting.others a ha hinsert) }
    | releasing pending rc =>
      rw [hcase] at hphase
      exact ⟨hphase.1, h.outcome hu hphase.2⟩
    | finished rc =>
      rw [hcase] at hphase
      exact h.outcome hu hphase

end Frame

end Mot.Occ

import OpenGauss.Ledger.Balance.Impl

/-!
This module shows that the sums of the three stores of the ledger stay equal over every run of
statements and archives.
-/

open List Function

namespace Ledger

variable {table : UserTable} {rows : List UserTuple} (relid : Oid)

section Sum

variable {α : Type}

theorem foldl_add (f : α → UInt64) (acc : UInt64) (xs : List α)
    : xs.foldl (fun acc x => acc + f x) acc = acc + (xs.map f).sum := by
  induction xs generalizing acc with
  | nil =>
    show acc = acc + 0
    grind
  | cons x xs ih =>
    rw [foldl_cons, ih, map_cons, sum_cons]
    ac_rfl

theorem sum_set {xs : List UInt64} {idx : Nat} {old : UInt64} (h : xs[idx]? = some old) (new : UInt64)
    : (xs.set idx new).sum = xs.sum - old + new := by
  induction xs generalizing idx with
  | nil => cases h
  | cons x xs ih =>
    cases idx with
    | zero =>
      cases h
      rw [set_cons_zero, sum_cons, sum_cons]
      grind
    | succ idx =>
      rw [set_cons_succ, sum_cons, sum_cons, ih h]
      grind

theorem sum_eraseIdx {xs : List UInt64} {idx : Nat} {old : UInt64} (h : xs[idx]? = some old)
    : (xs.eraseIdx idx).sum = xs.sum - old := by
  induction xs generalizing idx with
  | nil => cases h
  | cons x xs ih =>
    cases idx with
    | zero =>
      cases h
      rw [eraseIdx_cons_zero, sum_cons]
      grind
    | succ idx =>
      rw [eraseIdx_cons_succ, sum_cons, sum_cons, ih h]
      grind

theorem hashCombiner_eq (relhashList : List UInt64) : hashCombiner relhashList = relhashList.sum := by
  rw [hashCombiner, foldl_add (fun value => value), map_id']
  grind

end Sum

section Table

theorem genUsertableHashSum_eq (rel : List UserTuple)
    : genUsertableHashSum rel = (rel.map UserTuple.hash).sum := by
  rw [genUsertableHashSum, foldl_add]
  grind

theorem getUsertableHashSum_eq (table : UserTable)
    : getUsertableHashSum table = (table.map genUsertableHashSum).sum := by
  rw [getUsertableHashSum, foldl_add]
  grind

theorem getUsertableHashSum_set {part : Nat} (h : table[part]? = some rows) (rows' : List UserTuple)
    : getUsertableHashSum (table.set part rows')
        =
      getUsertableHashSum table - genUsertableHashSum rows + genUsertableHashSum rows' := by
  rw [getUsertableHashSum_eq, getUsertableHashSum_eq, map_set]
  apply sum_set
  rw [getElem?_map, h]
  rfl

theorem genUsertableHashSum_append (rows : List UserTuple) (tup : UserTuple)
    : genUsertableHashSum (rows ++ [tup]) = genUsertableHashSum rows + tup.hash := by
  rw [genUsertableHashSum, foldl_append]
  rfl

theorem genUsertableHashSum_eraseIdx {tupleid : Nat} {tup : UserTuple} (h : rows[tupleid]? = some tup)
    : genUsertableHashSum (rows.eraseIdx tupleid) = genUsertableHashSum rows - tup.hash := by
  rw [genUsertableHashSum_eq, genUsertableHashSum_eq, ← eraseIdx_map]
  apply sum_eraseIdx
  rw [getElem?_map, h]
  rfl

theorem genUsertableHashSum_set {tupleid : Nat} {tup : UserTuple}
    (h : rows[tupleid]? = some tup) (newtup : UserTuple)
    : genUsertableHashSum (rows.set tupleid newtup) = genUsertableHashSum rows - tup.hash + newtup.hash := by
  rw [genUsertableHashSum_eq, genUsertableHashSum_eq, map_set]
  apply sum_set
  rw [getElem?_map, h]
  rfl

end Table

section Record

variable {Hash32 : Type} (pgMd5Binary : CString → Hash32)

def HistTuple.net (tuple : HistTuple Hash32) : UInt64 := tuple.hashIns.getD 0 - tuple.hashDel.getD 0

theorem histTupleStep_eq (relHash : UInt64) (tuple : HistTuple Hash32)
    : histTupleStep relHash tuple = relHash + tuple.net := by
  rw [histTupleStep, HistTuple.net]
  cases tuple.hashIns with
  | none =>
    cases tuple.hashDel with
    | none => simp only [Option.getD_none]; grind
    | some hashDel => simp only [Option.getD_none, Option.getD_some]; grind
  | some hashIns =>
    cases tuple.hashDel with
    | none => simp only [Option.getD_none, Option.getD_some]; grind
    | some hashDel => simp only [Option.getD_some]; grind

theorem getHisttableHashSum_eq (history : History Hash32)
    : getHisttableHashSum history = (history.map HistTuple.net).sum := by
  rw [getHisttableHashSum, show histTupleStep = fun relHash (tuple : HistTuple Hash32) =>
    relHash + tuple.net from funext fun _ => funext fun _ => histTupleStep_eq _ _, foldl_add]
  grind

theorem histTableRecordInternal_sum (histName : CString) (recNum : UInt64)
    (hashIns hashDel : Option UInt64) (history : History Hash32)
    : getHisttableHashSum (histTableRecordInternal pgMd5Binary histName recNum hashIns hashDel history)
        =
      getHisttableHashSum history + (hashIns.getD 0 - hashDel.getD 0) := by
  rw [getHisttableHashSum_eq, getHisttableHashSum_eq, histTableRecordInternal, map_append,
    sum_append, map_singleton, sum_singleton, HistTuple.net]

variable {history : History Hash32}

theorem executeChange_sum {histName : CString} {change : RowChange} {table' : UserTable}
    {history' : History Hash32} {resHash : UInt64}
    (h : executeChange pgMd5Binary histName change table history = some (table', history', resHash))
    : getUsertableHashSum table' = getUsertableHashSum table + resHash ∧
        getHisttableHashSum history' = getHisttableHashSum history + resHash := by
  cases change with
  | insert recNum part tup =>
    simp only [executeChange, Option.bind_eq_bind, Option.bind_eq_some_iff, Option.some.injEq,
      Prod.mk.injEq] at h
    obtain ⟨rows, hrows, rfl, rfl, rfl⟩ := h
    rw [getUsertableHashSum_set hrows, genUsertableHashSum_append, histTableRecordInsert,
      histTableRecordInternal_sum, getUserTupleHash]
    simp only [Option.getD_some, Option.getD_none]
    grind
  | delete recNum part tupleid =>
    simp only [executeChange, Option.bind_eq_bind, Option.bind_eq_some_iff, Option.some.injEq,
      Prod.mk.injEq] at h
    obtain ⟨rows, hrows, tup, htup, rfl, rfl, rfl⟩ := h
    rw [getUsertableHashSum_set hrows, genUsertableHashSum_eraseIdx htup, histTableRecordDelete,
      histTableRecordInternal_sum, getUserTupleHash]
    simp only [Option.getD_some, Option.getD_none]
    grind
  | update recNum part tupleid newtup =>
    simp only [executeChange, Option.bind_eq_bind, Option.bind_eq_some_iff, Option.some.injEq,
      Prod.mk.injEq] at h
    obtain ⟨rows, hrows, tup, htup, rfl, rfl, rfl⟩ := h
    rw [getUsertableHashSum_set hrows, genUsertableHashSum_set htup, histTableRecordUpdate,
      histTableRecordInternal_sum, getUserTupleHash, getUserTupleHash]
    simp only [Option.getD_some]
    grind

theorem executeChanges_sum {histName : CString} {changes : List RowChange} {table' : UserTable}
    {history' : History Hash32} {modifiedRowHash : List UInt64}
    (h : executeChanges pgMd5Binary histName changes table history =
      some (table', history', modifiedRowHash))
    : getUsertableHashSum table' = getUsertableHashSum table + modifiedRowHash.sum ∧
        getHisttableHashSum history' = getHisttableHashSum history + modifiedRowHash.sum := by
  induction changes generalizing table history modifiedRowHash with
  | nil =>
    cases h
    rw [sum_nil]
    grind
  | cons change changes ih =>
    simp only [executeChanges, Option.bind_eq_bind, Option.bind_eq_some_iff, Option.some.injEq,
      Prod.mk.injEq] at h
    obtain ⟨⟨table₁, history₁, resHash⟩, hfirst, ⟨table₂, history₂, rest⟩, hrest, rfl, rfl, rfl⟩ := h
    obtain ⟨htable₁, hhistory₁⟩ := executeChange_sum pgMd5Binary hfirst
    obtain ⟨htable₂, hhistory₂⟩ := ih hrest
    rw [htable₂, htable₁, hhistory₂, hhistory₁, sum_cons]
    grind

end Record

section Chain

variable {Hash32 : Type} (pgMd5Binary : CString → Hash32) (hash32out : Hash32 → CString)

def GchainTuple.relHashOf (relid : Oid) (tuple : GchainTuple Hash32) : UInt64 :=
  if tuple.relid = relid then tuple.relHash else 0

theorem getGchainRelhashSum_eq (chain : GlobalChain Hash32)
    : getGchainRelhashSum relid chain = (chain.map (GchainTuple.relHashOf relid)).sum := by
  have hstep : (fun (relHash : UInt64) (rdata : GchainTuple Hash32) =>
      if rdata.relid = relid then relHash + rdata.relHash else relHash) =
      fun relHash rdata => relHash + rdata.relHashOf relid := by
    funext relHash rdata
    rw [GchainTuple.relHashOf]
    split <;> grind
  rw [getGchainRelhashSum, hstep, foldl_add]
  grind

theorem getGchainRelhashSum_append (chain : GlobalChain Hash32) (tuple : GchainTuple Hash32)
    : getGchainRelhashSum relid (chain ++ [tuple])
        =
      getGchainRelhashSum relid chain + tuple.relHashOf relid := by
  rw [getGchainRelhashSum_eq, getGchainRelhashSum_eq, map_append, sum_append, map_singleton, sum_singleton]

theorem ledgerGchainAppend_sum (info : BlockInfo) (relid relid' : Oid) (queryString : CString)
    (cnHash : UInt64) (chain : GlobalChain Hash32)
    : getGchainRelhashSum relid' (ledgerGchainAppend pgMd5Binary hash32out info relid queryString cnHash chain)
        =
      getGchainRelhashSum relid' chain + (if relid = relid' then cnHash else 0) := by
  rw [ledgerGchainAppend, getGchainRelhashSum_append]
  rfl

theorem ledgerExecutorEnd_sum (info : BlockInfo) (relid relid' : Oid) (sourceText : CString)
    (modifiedRowHash : List UInt64) (chain : GlobalChain Hash32)
    : getGchainRelhashSum relid'
          (ledgerExecutorEnd pgMd5Binary hash32out info relid sourceText modifiedRowHash chain)
        =
      getGchainRelhashSum relid' chain + (if relid = relid' then modifiedRowHash.sum else 0) := by
  cases modifiedRowHash with
  | nil =>
    rw [ledgerExecutorEnd, sum_nil, ite_self]
    grind
  | cons resHash modifiedRowHash =>
    rw [ledgerExecutorEnd, ledgerGchainAppend_sum, hashCombiner_eq]

end Chain

section HistArchive

variable {Hash32 : Type} (history : History Hash32)

theorem histUnify_hashes (unify : HistUnify Hash32)
    : (history.foldl histUnifyStep unify).hashIns - (history.foldl histUnifyStep unify).hashDel
        =
      unify.hashIns - unify.hashDel + (history.map HistTuple.net).sum := by
  induction history generalizing unify with
  | nil =>
    rw [map_nil, sum_nil, foldl_nil]
    grind
  | cons tuple history ih =>
    rw [foldl_cons, ih, map_cons, sum_cons, HistTuple.net, histUnifyStep]
    split <;> grind

theorem histUnify_prevHash_isSome (unify : HistUnify Hash32)
    (h : unify.prevHash.isSome) : (history.foldl histUnifyStep unify).prevHash.isSome := by
  induction history generalizing unify with
  | nil => exact h
  | cons tuple history ih =>
    rw [foldl_cons]
    apply ih
    rw [histUnifyStep]
    split
    . rfl
    . exact h

theorem histUnify_prevHash_none {history : History Hash32}
    (h : (history.foldl histUnifyStep ⟨0, 0, 0, none⟩).prevHash = none) : history = [] := by
  cases history with
  | nil => rfl
  | cons tuple history =>
    have hsome := histUnify_prevHash_isSome history (histUnifyStep ⟨0, 0, 0, none⟩ tuple) (by
      rw [histUnifyStep, if_pos (UInt64.le_iff_toNat_le.2 (Nat.zero_le _))]
      rfl)
    rw [foldl_cons] at h
    rw [h] at hsome
    cases hsome

theorem ledgerHistArchive_sum
    : getHisttableHashSum (ledgerHistArchive history) = getHisttableHashSum history := by
  rw [ledgerHistArchive]
  split
  . rfl
  . rw [getHisttableHashSum_eq, getHisttableHashSum_eq, map_singleton, sum_singleton,
      HistTuple.net, Option.getD_some, Option.getD_some, histUnify_hashes]
    grind

end HistArchive

section GchainArchive

variable {Hash32 : Type} (pgMd5Binary : CString → Hash32) (hash32out : Hash32 → CString)

def ArchiveScan.relHash (scan : ArchiveScan Hash32) (relid : Oid) : UInt64 :=
  ((scan.globalMap relid).map (·.values.relHash)).getD 0

structure ArchiveScan.Inv (scan : ArchiveScan Hash32) : Prop where
  nodup : scan.userRelArr.Nodup
  mem_iff : ∀ relid : Oid, relid ∈ scan.userRelArr ↔ (scan.globalMap relid).isSome
  relid_eq : ∀ (relid : Oid) (item : GChainArchItem Hash32), scan.globalMap relid = some item →
    item.values.relid = relid

variable {scan : ArchiveScan Hash32}

theorem archiveScanStep_inv (hinv : scan.Inv) (tuple : GchainTuple Hash32)
    : (archiveScanStep scan tuple).Inv := by
  rw [archiveScanStep]
  cases hitem : scan.globalMap tuple.relid with
  | none =>
    have hnot : tuple.relid ∉ scan.userRelArr := by
      rw [hinv.mem_iff, hitem]
      exact Bool.false_ne_true
    constructor
    . apply List.Nodup.append hinv.nodup (nodup_singleton _)
      rw [disjoint_singleton]
      exact hnot
    . intro relid
      show relid ∈ scan.userRelArr ++ [tuple.relid] ↔ _
      rw [mem_append, mem_singleton, hinv.mem_iff]
      by_cases heq : relid = tuple.relid
      . subst heq
        simp
      . simp [heq]
    . intro relid item hsome
      by_cases heq : relid = tuple.relid
      . subst heq
        simp only [update_self, Option.some.injEq] at hsome
        subst hsome
        rfl
      . simp only [update_of_ne heq] at hsome
        exact hinv.relid_eq relid item hsome
  | some old =>
    constructor
    . exact hinv.nodup
    . intro relid
      show relid ∈ scan.userRelArr ↔ _
      rw [hinv.mem_iff]
      by_cases heq : relid = tuple.relid
      . subst heq
        simp [hitem]
      . simp only [update_of_ne heq]
    . intro relid item hsome
      by_cases heq : relid = tuple.relid
      . subst heq
        simp only [update_self, Option.some.injEq] at hsome
        subst hsome
        exact hinv.relid_eq tuple.relid old hitem
      . simp only [update_of_ne heq] at hsome
        exact hinv.relid_eq relid item hsome

theorem archiveScanStep_relHash (scan : ArchiveScan Hash32) (tuple : GchainTuple Hash32) (relid : Oid)
    : (archiveScanStep scan tuple).relHash relid = scan.relHash relid + tuple.relHashOf relid := by
  rw [archiveScanStep, ArchiveScan.relHash, ArchiveScan.relHash, GchainTuple.relHashOf]
  by_cases heq : relid = tuple.relid
  . subst heq
    cases hitem : scan.globalMap tuple.relid with
    | none =>
      simp only [update_self, Option.map_some, Option.getD_some, Option.map_none, Option.getD_none, if_true]
      grind
    | some old =>
      simp only [update_self, Option.map_some, Option.getD_some, if_true]
      grind
  . rw [if_neg (fun h => heq h.symm)]
    cases hitem : scan.globalMap tuple.relid with
    | none =>
      simp only [update_of_ne heq]
      grind
    | some old =>
      simp only [update_of_ne heq]
      grind

theorem archiveScan_spec (chain : GlobalChain Hash32) (hinv : scan.Inv)
    : (chain.foldl archiveScanStep scan).Inv ∧ ∀ relid : Oid, (chain.foldl archiveScanStep scan).relHash relid =
          scan.relHash relid + (chain.map (GchainTuple.relHashOf relid)).sum := by
  induction chain generalizing scan with
  | nil =>
    refine ⟨hinv, fun relid => ?_⟩
    rw [map_nil, sum_nil, foldl_nil]
    grind
  | cons tuple chain ih =>
    obtain ⟨hinv', hrelHash⟩ := ih (archiveScanStep_inv hinv tuple)
    refine ⟨hinv', fun relid => ?_⟩
    rw [foldl_cons, hrelHash, archiveScanStep_relHash, map_cons, sum_cons]
    grind

theorem archiveInsert_sum (hinv : scan.Inv) (relids : List Oid)
    (hnodup : relids.Nodup) (insert : ArchiveInsert Hash32) (relid : Oid)
    : getGchainRelhashSum relid
          (relids.foldl (archiveInsertStep pgMd5Binary hash32out scan.globalMap) insert).chain
        =
      getGchainRelhashSum relid insert.chain + (if relid ∈ relids then scan.relHash relid else 0) := by
  induction relids generalizing insert with
  | nil =>
    rw [foldl_nil, if_neg not_mem_nil]
    grind
  | cons first relids ih =>
    obtain ⟨hfirst, hnodup⟩ := nodup_cons.1 hnodup
    rw [foldl_cons, ih hnodup, archiveInsertStep]
    cases hitem : scan.globalMap first with
    | none =>
      have hzero : scan.relHash first = 0 := by
        rw [ArchiveScan.relHash, hitem]
        rfl
      by_cases heq : relid = first
      . subst heq
        rw [if_neg hfirst, if_pos mem_cons_self, hzero]
      . simp [heq]
    | some item =>
      have hrelid := hinv.relid_eq first item hitem
      have hrelHash : scan.relHash first = item.values.relHash := by
        rw [ArchiveScan.relHash, hitem]
        rfl
      simp only [getGchainRelhashSum_append, GchainTuple.relHashOf, hrelid]
      by_cases heq : relid = first
      . subst heq
        rw [if_pos rfl, if_neg hfirst, if_pos mem_cons_self, hrelHash]
        grind
      . rw [if_neg (fun h => heq h.symm)]
        simp only [mem_cons, heq, false_or]
        grind

theorem ledgerGchainArchive_sum (chain : GlobalChain Hash32)
    : getGchainRelhashSum relid (ledgerGchainArchive pgMd5Binary hash32out chain)
        =
      getGchainRelhashSum relid chain := by
  have hempty : (⟨fun _ => none, []⟩ : ArchiveScan Hash32).Inv := by
    refine ⟨nodup_nil, fun relid => ?_, fun relid item h => ?_⟩
    . exact ⟨fun h => absurd h not_mem_nil, fun h => absurd h Bool.false_ne_true⟩
    . cases h
  obtain ⟨hinv, hrelHash⟩ := archiveScan_spec chain hempty
  rw [ledgerGchainArchive]
  split
  . rfl
  . rw [archiveInsert_sum pgMd5Binary hash32out hinv _ (nodup_reverse.2 hinv.nodup),
      getGchainRelhashSum_eq relid chain]
    have hsum := hrelHash relid
    have hzero : (⟨fun _ => none, []⟩ : ArchiveScan Hash32).relHash relid = 0 := rfl
    have hnil : getGchainRelhashSum relid ([] : GlobalChain Hash32) = 0 := rfl
    rw [hzero] at hsum
    rw [hnil]
    split
    . grind
    . rename_i hnot
      rw [mem_reverse, hinv.mem_iff, Option.not_isSome_iff_eq_none] at hnot
      rw [ArchiveScan.relHash, hnot] at hsum
      simp only [Option.map_none, Option.getD_none] at hsum
      grind

end GchainArchive

section Runs

variable {Hash32 : Type} (pgMd5Binary : CString → Hash32) (hash32out : Hash32 → CString)

def LedgerState.tableSum (s : LedgerState Hash32) (relid : Oid) : UInt64 :=
  getUsertableHashSum (s.userTable relid)

def LedgerState.histSum (s : LedgerState Hash32) (relid : Oid) : UInt64 :=
  getHisttableHashSum (s.history relid)

def LedgerState.chainSum (s : LedgerState Hash32) (relid : Oid) : UInt64 :=
  getGchainRelhashSum relid s.chain

structure LedgerState.Balanced (s : LedgerState Hash32) : Prop where
  table_eq : ∀ relid : Oid, s.tableSum relid = s.histSum relid
  hist_eq : ∀ relid : Oid, s.histSum relid = s.chainSum relid

variable {s : LedgerState Hash32}

theorem LedgerState.Fresh.balanced (hfresh : s.Fresh) : s.Balanced := by
  constructor
  . intro relid
    have hparts : (s.userTable relid).map genUsertableHashSum =
        (s.userTable relid).map (fun _ => 0) := by
      apply map_congr_left
      intro part hpart
      rw [hfresh.userTable relid part hpart]
      rfl
    have hzero : ∀ parts : UserTable, (parts.map (fun _ => (0 : UInt64))).sum = 0 := by
      intro parts
      induction parts with
      | nil => rfl
      | cons part parts ih =>
        rw [map_cons, sum_cons, ih]
        rfl
    rw [tableSum, getUsertableHashSum_eq, hparts, hzero, histSum, hfresh.history]
    rfl
  . intro relid
    rw [histSum, chainSum, hfresh.history, hfresh.chain]
    rfl

theorem record_balanced (hbalanced : s.Balanced) {relid : Oid}
    {chain : GlobalChain Hash32} {total : UInt64}
    (htable : getUsertableHashSum table = s.tableSum relid + total)
    (hhistory : getHisttableHashSum history = s.histSum relid + total)
    (hchain : ∀ relid' : Oid, getGchainRelhashSum relid' chain =
      s.chainSum relid' + (if relid = relid' then total else 0))
    : (s.record relid table history chain).Balanced := by
  constructor
  . intro relid'
    rw [LedgerState.tableSum, LedgerState.histSum, LedgerState.record]
    dsimp only
    by_cases heq : relid' = relid
    . subst heq
      rw [update_self, update_self, htable, hhistory, hbalanced.table_eq]
    . rw [update_of_ne heq, update_of_ne heq]
      exact hbalanced.table_eq relid'
  . intro relid'
    rw [LedgerState.histSum, LedgerState.chainSum, LedgerState.record]
    dsimp only
    rw [hchain]
    by_cases heq : relid' = relid
    . subst heq
      rw [update_self, hhistory, hbalanced.hist_eq, if_pos rfl]
    . rw [update_of_ne heq, if_neg (fun h => heq h.symm)]
      have h := hbalanced.hist_eq relid'
      rw [LedgerState.histSum] at h
      grind

theorem LedgerStep.balanced {s' : LedgerState Hash32} (hstep : LedgerStep pgMd5Binary hash32out s s')
    (hbalanced : s.Balanced) : s'.Balanced := by
  cases hstep with
  | executor relid histName sourceText changes info h =>
    obtain ⟨htable, hhistory⟩ := executeChanges_sum pgMd5Binary h
    apply record_balanced hbalanced htable hhistory
    intro relid'
    exact ledgerExecutorEnd_sum pgMd5Binary hash32out info relid relid' sourceText _ s.chain
  | opfusion relid histName query changes info h =>
    obtain ⟨htable, hhistory⟩ := executeChanges_sum pgMd5Binary h
    apply record_balanced hbalanced htable hhistory
    intro relid'
    rw [opfusionLedgerExecutorEnd, hashCombiner_eq]
    exact ledgerGchainAppend_sum pgMd5Binary hash32out info relid relid' query _ s.chain
  | histArchive relid =>
    have hsum : ∀ relid' : Oid, LedgerState.histSum { s with
        history := Function.update s.history relid (ledgerHistArchive (s.history relid)) } relid' =
        s.histSum relid' := by
      intro relid'
      rw [LedgerState.histSum, LedgerState.histSum]
      dsimp only
      by_cases heq : relid' = relid
      . subst heq
        rw [update_self]
        exact ledgerHistArchive_sum _
      . rw [update_of_ne heq]
    constructor
    . intro relid'
      rw [hsum]
      exact hbalanced.table_eq relid'
    . intro relid'
      rw [hsum]
      exact hbalanced.hist_eq relid'
  | gchainArchive =>
    constructor
    . exact hbalanced.table_eq
    . intro relid'
      show s.histSum relid' = getGchainRelhashSum relid' (ledgerGchainArchive pgMd5Binary hash32out s.chain)
      rw [ledgerGchainArchive_sum]
      exact hbalanced.hist_eq relid'

theorem balanced_of_run {s' : LedgerState Hash32} (hfresh : s.Fresh)
    (hrun : Relation.ReflTransGen (LedgerStep pgMd5Binary hash32out) s s') : s'.Balanced := by
  induction hrun with
  | refl => exact hfresh.balanced
  | tail _ hstep ih => exact hstep.balanced pgMd5Binary hash32out ih

end Runs

section Repair

variable {Hash32 : Type} (pgMd5Binary : CString → Hash32) (hash32out : Hash32 → CString)

theorem repaireHistTableInternal_sum (histName : CString) (recNum : UInt64) (option : Bool)
    (table : UserTable) (history : History Hash32)
    : getHisttableHashSum (repaireHistTableInternal pgMd5Binary histName recNum option table history).1
        =
      getUsertableHashSum table := by
  rw [repaireHistTableInternal]
  dsimp only
  split
  . rw [histTableRecordInternal_sum, Option.getD_some, Option.getD_none]
    grind
  . grind

theorem appendDelta_sum (info : BlockInfo) (relid : Oid) (queryString : CString) (delta : UInt64)
    (chain : GlobalChain Hash32)
    : getGchainRelhashSum relid
          (if delta ≠ 0 then ledgerGchainAppend pgMd5Binary hash32out info relid queryString delta chain
          else chain)
        =
      getGchainRelhashSum relid chain + delta := by
  split
  . rw [ledgerGchainAppend_sum, if_pos rfl]
  . grind

theorem ledgerHistRepair_sums (histName : CString) (recNum : UInt64) (info : BlockInfo) (relid : Oid)
    (s : LedgerState Hash32)
    : let s' := ledgerHistRepair pgMd5Binary hash32out histName recNum info relid s
      s'.tableSum relid = s.tableSum relid ∧ s'.histSum relid = s.tableSum relid ∧
        s'.chainSum relid = s.chainSum relid + (s.tableSum relid - s.histSum relid) := by
  refine ⟨rfl, ?_, ?_⟩
  . rw [ledgerHistRepair, LedgerState.histSum]
    dsimp only
    rw [update_self, repaireHistTableInternal_sum]
    rfl
  . rw [ledgerHistRepair, LedgerState.chainSum]
    dsimp only
    rw [appendDelta_sum]
    rfl

theorem ledgerGchainRepair_sums (histName : CString) (recNum : UInt64) (info : BlockInfo) (relid : Oid)
    (s : LedgerState Hash32)
    : let s' := ledgerGchainRepair pgMd5Binary hash32out histName recNum info relid s
      s'.tableSum relid = s.tableSum relid ∧ s'.histSum relid = s.tableSum relid ∧
        s'.chainSum relid = s.tableSum relid := by
  refine ⟨rfl, ?_, ?_⟩
  . rw [ledgerGchainRepair, LedgerState.histSum]
    dsimp only
    rw [update_self, repaireHistTableInternal_sum]
    rfl
  . rw [ledgerGchainRepair, LedgerState.chainSum]
    dsimp only
    rw [appendDelta_sum]
    show _ + (s.tableSum relid - _) = s.tableSum relid
    grind

end Repair

theorem ledger_sums {Hash32 : Type} (pgMd5Binary : CString → Hash32) (hash32out : Hash32 → CString)
    : (∀ s s' : LedgerState Hash32, s.Fresh →
        Relation.ReflTransGen (LedgerStep pgMd5Binary hash32out) s s' →
        ∀ relid : Oid, s'.tableSum relid = s'.histSum relid ∧ s'.histSum relid = s'.chainSum relid) ∧
      ∀ (s : LedgerState Hash32) (histName : CString) (recNum : UInt64) (info : BlockInfo) (relid : Oid),
        (let s' := ledgerGchainRepair pgMd5Binary hash32out histName recNum info relid s;
          s'.tableSum relid = s'.histSum relid ∧ s'.histSum relid = s'.chainSum relid) ∧
        (let s' := ledgerHistRepair pgMd5Binary hash32out histName recNum info relid s;
          s'.tableSum relid = s'.histSum relid ∧
            (s'.chainSum relid = s'.histSum relid ↔ s.chainSum relid = s.histSum relid)) := by
  refine ⟨?_, ?_⟩
  . intro s s' hfresh hrun relid
    have hbalanced := balanced_of_run pgMd5Binary hash32out hfresh hrun
    exact ⟨hbalanced.table_eq relid, hbalanced.hist_eq relid⟩
  . intro s histName recNum info relid
    obtain ⟨htable, hhist, hchain⟩ :=
      ledgerGchainRepair_sums pgMd5Binary hash32out histName recNum info relid s
    obtain ⟨htable', hhist', hchain'⟩ :=
      ledgerHistRepair_sums pgMd5Binary hash32out histName recNum info relid s
    refine ⟨?_, ?_⟩
    . dsimp only
      rw [htable, hhist, hchain]
      exact ⟨rfl, rfl⟩
    . dsimp only
      rw [htable', hhist', hchain']
      refine ⟨rfl, ?_⟩
      constructor
      . intro h
        grind
      . intro h
        grind

def oneTable : LedgerState CString where
  userTable := fun _ => [[]]
  history := fun _ => []
  chain := []

def oneTableInserted : LedgerState CString :=
  oneTable.record 16384 [[⟨1⟩]] (histTableRecordInternal id [] 0 (some 1) none [])
    (ledgerGchainAppend id id ⟨[], [], [], [], 0, 1⟩ 16384 [] 1 [])

theorem oneTable_fresh : oneTable.Fresh := by
  constructor
  . intro relid part hpart
    exact mem_singleton.1 hpart
  . intro relid
    rfl
  . rfl

theorem oneTable_insert : LedgerStep id id oneTable oneTableInserted :=
  .executor oneTable 16384 [] [] [.insert 0 0 ⟨1⟩] ⟨[], [], [], [], 0, 1⟩ rfl

-- Two rows are inserted, one of them is updated and the other deleted, and both archives follow.
theorem oneTable_archived
    : ∃ s, Relation.ReflTransGen (LedgerStep id id) oneTable s ∧ s.tableSum 16384 = 7
        ∧ (s.history 16384).length = 1 ∧ s.chain.length = 1 := by
  have hupdate := Relation.ReflTransGen.tail (.single oneTable_insert)
    (LedgerStep.opfusion oneTableInserted 16384 [] []
      [.insert 1 0 ⟨5⟩, .update 2 0 0 ⟨7⟩, .delete 3 0 1] ⟨[], [], [], [], 0, 2⟩ rfl)
  have hhist := hupdate.tail (LedgerStep.histArchive _ 16384)
  have hchain := hhist.tail (LedgerStep.gchainArchive _)
  exact ⟨_, hchain, by decide, by decide, by decide⟩

theorem ledger_sums_archived
    : ∃ s : LedgerState CString, s.tableSum 16384 = 7 ∧ (s.history 16384).length = 1
        ∧ s.chain.length = 1
        ∧ s.tableSum 16384 = s.histSum 16384 ∧ s.histSum 16384 = s.chainSum 16384 := by
  obtain ⟨s, hrun, hsum, hhist, hchain⟩ := oneTable_archived
  exact ⟨s, hsum, hhist, hchain, (ledger_sums id id).1 oneTable s oneTable_fresh hrun 16384⟩

def lostRecord : LedgerState CString := { oneTableInserted with history := fun _ => [] }

theorem ledgerHistRepair_unbalances
    : ¬ (lostRecord.chainSum 16384 = lostRecord.tableSum 16384 →
        (ledgerHistRepair id id [] 0 ⟨[], [], [], [], 0, 2⟩ 16384 lostRecord).chainSum 16384
          =
        (ledgerHistRepair id id [] 0 ⟨[], [], [], [], 0, 2⟩ 16384 lostRecord).tableSum 16384) := by
  decide

end Ledger

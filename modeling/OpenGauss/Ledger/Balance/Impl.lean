import OpenGauss.Ledger.Digest

/-!
This module contains the three stores of the ledger of a single-node server: the user tables, their
history tables and the global chain, from `userchain.cpp`, `blockchain.cpp`, `ledger_archive.cpp` and
`ledger_check.cpp`.

The record numbers and block numbers are arguments here, MD5 and the output of a hash are parameters.
-/

namespace Ledger

structure UserTuple where
  hash : UInt64
  deriving DecidableEq

abbrev UserTable := List (List UserTuple)

structure HistTuple (Hash32 : Type) where
  recNum : UInt64
  hashIns : Option UInt64
  hashDel : Option UInt64
  prevHash : Hash32
  deriving DecidableEq

abbrev History (Hash32 : Type) := List (HistTuple Hash32)

structure GchainTuple (Hash32 : Type) where
  blocknum : UInt64
  dbName : CString
  userName : CString
  startTime : Int
  relid : Oid
  relNsp : CString
  relName : CString
  relHash : UInt64
  globalHash : Hash32
  txCommand : CString
  deriving DecidableEq

abbrev GlobalChain (Hash32 : Type) := List (GchainTuple Hash32)

structure LedgerState (Hash32 : Type) where
  userTable : Oid → UserTable
  history : Oid → History Hash32
  chain : GlobalChain Hash32

section Sums

variable {Hash32 : Type}

def genUsertableHashSum (rel : List UserTuple) : UInt64 :=
  rel.foldl (fun relHash tuple => relHash + tuple.hash) 0

def getUsertableHashSum (table : UserTable) : UInt64 :=
  table.foldl (fun relHash part => relHash + genUsertableHashSum part) 0

def histTupleStep (relHash : UInt64) (tuple : HistTuple Hash32) : UInt64 :=
  let relHash :=
    match tuple.hashIns with
    | some hashIns => relHash + hashIns
    | none => relHash
  match tuple.hashDel with
  | some hashDel => relHash - hashDel
  | none => relHash

def getHisttableHashSum (history : History Hash32) : UInt64 :=
  history.foldl histTupleStep 0

def getGchainRelhashSum (relid : Oid) (chain : GlobalChain Hash32) : UInt64 :=
  chain.foldl (fun relHash rdata => if rdata.relid = relid then relHash + rdata.relHash else relHash) 0

end Sums

section Record

variable {Hash32 : Type} (pgMd5Binary : CString → Hash32)

-- `recNum` is what `get_next_recnum` returns, `histName` the name of the history table.
def histTableRecordInternal (histName : CString) (recNum : UInt64) (hashIns hashDel : Option UInt64)
    (history : History Hash32) : History Hash32 :=
  let tIns := hashIns.getD 0
  let tDel := hashDel.getD 0
  let prevHash := pgMd5Binary (fillHistBlock histName ⟨recNum, tIns, tDel⟩)
  history ++ [⟨recNum, hashIns, hashDel, prevHash⟩]

def getUserTupleHash (tup : UserTuple) : UInt64 := tup.hash

-- The history and the `res_hash`.
def histTableRecordInsert (histName : CString) (recNum : UInt64) (tup : UserTuple)
    (history : History Hash32) : History Hash32 × UInt64 :=
  let hashIns := getUserTupleHash tup
  (histTableRecordInternal pgMd5Binary histName recNum (some hashIns) none history, hashIns)

def histTableRecordDelete (histName : CString) (recNum : UInt64) (hashDel : UInt64)
    (history : History Hash32) : History Hash32 × UInt64 :=
  (histTableRecordInternal pgMd5Binary histName recNum none (some hashDel) history, -hashDel)

def histTableRecordUpdate (histName : CString) (recNum : UInt64) (newtup : UserTuple) (hashDel : UInt64)
    (history : History Hash32) : History Hash32 × UInt64 :=
  let hashIns := getUserTupleHash newtup
  (histTableRecordInternal pgMd5Binary histName recNum (some hashIns) (some hashDel) history,
    hashIns - hashDel)

inductive RowChange where
  | insert (recNum : UInt64) (part : Nat) (tup : UserTuple)
  | delete (recNum : UInt64) (part tupleid : Nat)
  | update (recNum : UInt64) (part tupleid : Nat) (newtup : UserTuple)

def executeChange (histName : CString) (change : RowChange) (table : UserTable)
    (history : History Hash32) : Option (UserTable × History Hash32 × UInt64) :=
  match change with
  | .insert recNum part tup => do
    let rows ← table[part]?
    let (history, resHash) := histTableRecordInsert pgMd5Binary histName recNum tup history
    some (table.set part (rows ++ [tup]), history, resHash)
  | .delete recNum part tupleid => do
    let rows ← table[part]?
    let tup ← rows[tupleid]?
    let (history, resHash) := histTableRecordDelete pgMd5Binary histName recNum (getUserTupleHash tup) history
    some (table.set part (rows.eraseIdx tupleid), history, resHash)
  | .update recNum part tupleid newtup => do
    let rows ← table[part]?
    let tup ← rows[tupleid]?
    let (history, resHash) :=
      histTableRecordUpdate pgMd5Binary histName recNum newtup (getUserTupleHash tup) history
    some (table.set part (rows.set tupleid newtup), history, resHash)

-- The last component is `es_modifiedRowHash`.
def executeChanges (histName : CString) (changes : List RowChange) (table : UserTable)
    (history : History Hash32) : Option (UserTable × History Hash32 × List UInt64) :=
  match changes with
  | [] => some (table, history, [])
  | change :: changes => do
    let (table, history, resHash) ← executeChange pgMd5Binary histName change table history
    let (table, history, modifiedRowHash) ← executeChanges histName changes table history
    some (table, history, resHash :: modifiedRowHash)

end Record

def hashCombiner (relhashList : List UInt64) : UInt64 :=
  relhashList.foldl (fun relhashSum value => relhashSum + value) 0

section Chain

variable {Hash32 : Type} (pgMd5Binary : CString → Hash32) (hash32out : Hash32 → CString)

def gchainName : CString := "gs_global_chain".toList

-- None when the previous block does not exist.
def genGlobalHash (infoString : CString) (prevHash : Option Hash32) : Hash32 :=
  match prevHash with
  | none => pgMd5Binary (gchainName ++ infoString)
  | some prevHash => pgMd5Binary (infoString ++ hash32out prevHash)

-- What `ledger_gchain_append` takes from the session and the catalogs.
structure BlockInfo where
  dbName : CString
  userName : CString
  nspName : CString
  relName : CString
  currentTime : Int
  blocknum : UInt64

def ledgerGchainAppend (info : BlockInfo) (relid : Oid) (queryString : CString) (cnHash : UInt64)
    (chain : GlobalChain Hash32) : GlobalChain Hash32 :=
  let combineString :=
    setGchainCombString info.dbName info.userName info.nspName info.relName (some queryString) cnHash
  chain ++ [{
    blocknum := info.blocknum
    dbName := info.dbName
    userName := info.userName
    startTime := info.currentTime
    relid
    relNsp := info.nspName
    relName := info.relName
    relHash := cnHash
    globalHash := genGlobalHash pgMd5Binary hash32out combineString none
    txCommand := queryString
  }]

def ledgerExecutorEnd (info : BlockInfo) (relid : Oid) (sourceText : CString)
    (modifiedRowHash : List UInt64) (chain : GlobalChain Hash32) : GlobalChain Hash32 :=
  match modifiedRowHash with
  | [] => chain
  | _ :: _ =>
    ledgerGchainAppend pgMd5Binary hash32out info relid sourceText (hashCombiner modifiedRowHash) chain

def opfusionLedgerExecutorEnd (info : BlockInfo) (relid : Oid) (query : CString) (relhash : UInt64)
    (chain : GlobalChain Hash32) : GlobalChain Hash32 :=
  ledgerGchainAppend pgMd5Binary hash32out info relid query relhash chain

end Chain

section Archive

variable {Hash32 : Type} (pgMd5Binary : CString → Hash32) (hash32out : Hash32 → CString)

-- `prevHash` is none until the scan has met a row, which is `hist_empty`.
structure HistUnify (Hash32 : Type) where
  hashIns : UInt64
  hashDel : UInt64
  maxRecNum : UInt64
  prevHash : Option Hash32

def histUnifyStep (unify : HistUnify Hash32) (tuple : HistTuple Hash32) : HistUnify Hash32 :=
  let unify := { unify with hashIns := unify.hashIns + tuple.hashIns.getD 0 }
  let unify := { unify with hashDel := unify.hashDel + tuple.hashDel.getD 0 }
  if unify.maxRecNum ≤ tuple.recNum then
    { unify with maxRecNum := tuple.recNum, prevHash := some tuple.prevHash }
  else
    unify

-- The null flags of the sums are never set, so both columns of the new row have a value.
def ledgerHistArchive (history : History Hash32) : History Hash32 :=
  let unify := history.foldl histUnifyStep ⟨0, 0, 0, none⟩
  match unify.prevHash with
  | none => history
  | some prevHash => [⟨unify.maxRecNum, some unify.hashIns, some unify.hashDel, prevHash⟩]

structure GChainArchItem (Hash32 : Type) where
  recNums : UInt64
  values : GchainTuple Hash32

def archived : CString := "Archived.".toList

structure ArchiveScan (Hash32 : Type) where
  globalMap : Oid → Option (GChainArchItem Hash32)
  userRelArr : List Oid

def archiveScanStep (scan : ArchiveScan Hash32) (tuple : GchainTuple Hash32) : ArchiveScan Hash32 :=
  match scan.globalMap tuple.relid with
  | none =>
    let item := ⟨1, { tuple with txCommand := archived }⟩
    { globalMap := Function.update scan.globalMap tuple.relid (some item)
      userRelArr := scan.userRelArr ++ [tuple.relid] }
  | some item =>
    let relHash := tuple.relHash + item.values.relHash
    let item := ⟨item.recNums + 1, { item.values with relHash }⟩
    { scan with globalMap := Function.update scan.globalMap tuple.relid (some item) }

-- The table after the truncation, the hash of the block before and the last block number.
structure ArchiveInsert (Hash32 : Type) where
  chain : GlobalChain Hash32
  globalHash : Option Hash32
  blocknum : UInt64

def archiveInsertStep (globalMap : Oid → Option (GChainArchItem Hash32))
    (insert : ArchiveInsert Hash32) (relid : Oid) : ArchiveInsert Hash32 :=
  match globalMap relid with
  | none => insert
  | some item =>
    let comStr := setGchainCombString item.values.dbName item.values.userName item.values.relNsp
      item.values.relName (some archived) item.values.relHash
    let globalHash := genGlobalHash pgMd5Binary hash32out comStr insert.globalHash
    let blocknum := insert.blocknum + item.recNums
    { chain := insert.chain ++ [{ item.values with blocknum, globalHash }]
      globalHash := some globalHash
      blocknum }

def ledgerGchainArchive (chain : GlobalChain Hash32) : GlobalChain Hash32 :=
  let scan := chain.foldl archiveScanStep ⟨fun _ => none, []⟩
  if scan.userRelArr = [] then
    chain
  else
    (scan.userRelArr.reverse.foldl (archiveInsertStep pgMd5Binary hash32out scan.globalMap)
      ⟨[], none, -1⟩).chain

end Archive

section Repair

variable {Hash32 : Type} (pgMd5Binary : CString → Hash32) (hash32out : Hash32 → CString)

-- With `option` the sum of the table, without the difference.
def repaireHistTableInternal (histName : CString) (recNum : UInt64) (option : Bool) (table : UserTable)
    (history : History Hash32) : History Hash32 × UInt64 :=
  let relHash := getUsertableHashSum table
  let hashDiff := relHash - getHisttableHashSum history
  let history :=
    if hashDiff ≠ 0 then histTableRecordInternal pgMd5Binary histName recNum (some hashDiff) none history
    else history
  (history, if option then relHash else hashDiff)

def ledgerHistRepair (histName : CString) (recNum : UInt64) (info : BlockInfo) (relid : Oid)
    (s : LedgerState Hash32) : LedgerState Hash32 :=
  let (history, delta) :=
    repaireHistTableInternal pgMd5Binary histName recNum false (s.userTable relid) (s.history relid)
  let chain :=
    if delta ≠ 0 then
      ledgerGchainAppend pgMd5Binary hash32out info relid "HIST REPAIR.".toList delta s.chain
    else s.chain
  { s with history := Function.update s.history relid history, chain }

def ledgerGchainRepair (histName : CString) (recNum : UInt64) (info : BlockInfo) (relid : Oid)
    (s : LedgerState Hash32) : LedgerState Hash32 :=
  let (history, dnHash) :=
    repaireHistTableInternal pgMd5Binary histName recNum true (s.userTable relid) (s.history relid)
  let cnHash := getGchainRelhashSum relid s.chain
  let delta := dnHash - cnHash
  let chain :=
    if delta ≠ 0 then
      ledgerGchainAppend pgMd5Binary hash32out info relid "GCHAIN REPAIR.".toList delta s.chain
    else s.chain
  { s with history := Function.update s.history relid history, chain }

end Repair

section Runs

variable {Hash32 : Type} (pgMd5Binary : CString → Hash32) (hash32out : Hash32 → CString)

def LedgerState.record (s : LedgerState Hash32) (relid : Oid) (table : UserTable)
    (history : History Hash32) (chain : GlobalChain Hash32) : LedgerState Hash32 where
  userTable := Function.update s.userTable relid table
  history := Function.update s.history relid history
  chain := chain

inductive LedgerStep : LedgerState Hash32 → LedgerState Hash32 → Prop where
  | executor (s : LedgerState Hash32) (relid : Oid) (histName sourceText : CString)
      (changes : List RowChange) (info : BlockInfo) {table : UserTable} {history : History Hash32}
      {modifiedRowHash : List UInt64}
      (h : executeChanges pgMd5Binary histName changes (s.userTable relid) (s.history relid) =
        some (table, history, modifiedRowHash))
      : LedgerStep s (s.record relid table history
          (ledgerExecutorEnd pgMd5Binary hash32out info relid sourceText modifiedRowHash s.chain))
  | opfusion (s : LedgerState Hash32) (relid : Oid) (histName query : CString)
      (changes : List RowChange) (info : BlockInfo) {table : UserTable} {history : History Hash32}
      {modifiedRowHash : List UInt64}
      (h : executeChanges pgMd5Binary histName changes (s.userTable relid) (s.history relid) =
        some (table, history, modifiedRowHash))
      : LedgerStep s (s.record relid table history
          (opfusionLedgerExecutorEnd pgMd5Binary hash32out info relid query (hashCombiner modifiedRowHash)
            s.chain))
  | histArchive (s : LedgerState Hash32) (relid : Oid)
      : LedgerStep s { s with
          history := Function.update s.history relid (ledgerHistArchive (s.history relid)) }
  | gchainArchive (s : LedgerState Hash32)
      : LedgerStep s { s with chain := ledgerGchainArchive pgMd5Binary hash32out s.chain }

structure LedgerState.Fresh (s : LedgerState Hash32) : Prop where
  userTable : ∀ (relid : Oid) (part : List UserTuple), part ∈ s.userTable relid → part = []
  history : ∀ relid : Oid, s.history relid = []
  chain : s.chain = []

end Runs

end Ledger

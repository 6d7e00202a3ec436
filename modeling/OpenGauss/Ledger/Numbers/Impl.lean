import OpenGauss.Ledger.Balance.Impl

/-!
This module contains the record numbers of a history table and the block numbers of the global chain,
from `ledger_utils.cpp`, as steps of concurrent sessions. A step is what happens under one lock.
-/

namespace Ledger

section Transactions

inductive Status (Session : Type) where
  | inProgress (session : Session)
  | committed
  | aborted
  deriving DecidableEq

-- A row in its physical place; `archived` marks the rows an archive has written.
structure StoredTuple (Session Tuple : Type) where
  tuple : Tuple
  status : Status Session
  archived : Bool

inductive Phase where
  | idle
  | reloading
  | ready
  | holding (number : UInt64)
  deriving DecidableEq

-- `pending` and `committed` are the numbers of the records inserted by running and by committed
-- transactions.
structure NumberState (Session Tuple Cache : Type) where
  cache : Cache
  rows : List (StoredTuple Session Tuple)
  phase : Session → Phase
  pending : List (Session × UInt64)
  committed : List UInt64

variable {Session Tuple Cache : Type} [DecidableEq Session]

-- What `SnapshotNow` shows to a session.
def StoredTuple.visible (row : StoredTuple Session Tuple) (session : Session) : Bool :=
  match row.status with
  | .inProgress writer => writer = session
  | .committed => true
  | .aborted => false

def StoredTuple.live (row : StoredTuple Session Tuple) : Bool :=
  match row.status with
  | .aborted => false
  | _ => true

def StoredTuple.finish (row : StoredTuple Session Tuple) (session : Session) (status : Status Session)
    : StoredTuple Session Tuple :=
  if row.status = .inProgress session then { row with status } else row

namespace NumberState

def setPhase (s : NumberState Session Tuple Cache) (session : Session) (phase : Phase)
    : NumberState Session Tuple Cache :=
  { s with phase := Function.update s.phase session phase }

-- A heap puts a new row at any place.
def insertRow (s : NumberState Session Tuple Cache) (session : Session) (number : UInt64) (tuple : Tuple)
    (place : Nat) : NumberState Session Tuple Cache :=
  { s with
    rows := s.rows.take place ++ ⟨tuple, .inProgress session, false⟩ :: s.rows.drop place
    phase := Function.update s.phase session .idle
    pending := (session, number) :: s.pending }

def commit (s : NumberState Session Tuple Cache) (session : Session) : NumberState Session Tuple Cache :=
  { s with
    rows := s.rows.map (·.finish session .committed)
    pending := s.pending.filter (·.1 ≠ session)
    committed := s.committed ++ (s.pending.filter (·.1 = session)).map Prod.snd }

def rollback (s : NumberState Session Tuple Cache) (session : Session) : NumberState Session Tuple Cache :=
  { s with
    rows := s.rows.map (·.finish session .aborted)
    phase := Function.update s.phase session .idle
    pending := s.pending.filter (·.1 ≠ session) }

def restart (s : NumberState Session Tuple Cache) (emptyCache : Cache)
    : NumberState Session Tuple Cache :=
  { s with
    cache := emptyCache
    rows := s.rows.map fun row =>
      match row.status with
      | .inProgress _ => { row with status := .aborted }
      | _ => row
    phase := fun _ => .idle
    pending := [] }

end NumberState

end Transactions

section RecNum

variable {Session Hash32 : Type} [DecidableEq Session]

-- The cache is the entry of the history table in `g_recnum_cache`.
abbrev RecNumState (Session Hash32 : Type) := NumberState Session (HistTuple Hash32) (Option UInt64)

-- The largest number so far and `hist_empty`.
def reloadRecNumStep (scan : UInt64 × Bool) (tup : HistTuple Hash32) : UInt64 × Bool :=
  if tup.recNum ≥ scan.1 then (tup.recNum, false) else scan

def reloadGRecNum (tups : List (HistTuple Hash32)) : UInt64 × UInt64 :=
  let (maxRecNum, histEmpty) := tups.reverse.foldl reloadRecNumStep (0, true)
  let recNum := if histEmpty then 0 else maxRecNum + 1
  (recNum, recNum + 1)

-- The unique index of the history table compares the lower 32 bits of the numbers.
def conflicts (number : UInt64) (row : StoredTuple Session (HistTuple Hash32)) : Bool :=
  row.live && row.tuple.recNum.toUInt32 = number.toUInt32

inductive RecNumAction (Session Hash32 : Type) where
  -- the look-up under the shared lock
  | lookup (session : Session)
  -- the reload under the exclusive lock; `own` says which own rows the scan sees, those of the running
  -- command it does not
  | reload (session : Session) (own : HistTuple Hash32 → Bool)
  | insert (session : Session) (tuple : HistTuple Hash32) (place : Nat)
  | commit (session : Session)
  | rollback (session : Session)
  | archive (session : Session)
  | restart

def scanned (rows : List (StoredTuple Session (HistTuple Hash32))) (session : Session)
    (own : HistTuple Hash32 → Bool) : List (HistTuple Hash32) :=
  (rows.filter fun row => row.visible session && (row.status = .committed || own row.tuple)).map (·.tuple)

-- None when the session cannot make the step, or has to wait for it.
def recNumStep (s : RecNumState Session Hash32) (action : RecNumAction Session Hash32)
    : Option (RecNumState Session Hash32) :=
  match action with
  | .lookup session =>
    if s.phase session = .idle then
      match s.cache with
      | some recNum => some { s.setPhase session (.holding recNum) with cache := some (recNum + 1) }
      | none => some (s.setPhase session .reloading)
    else
      none
  | .reload session own =>
    if s.phase session = .reloading then
      let (recNum, cached) := reloadGRecNum (scanned s.rows session own)
      some { s.setPhase session (.holding recNum) with cache := some cached }
    else
      none
  | .insert session tuple place =>
    match s.phase session with
    | .holding recNum =>
      if s.rows.any (conflicts recNum) then
        none
      else
        some (s.insertRow session recNum { tuple with recNum } place)
    | _ => none
  | .commit session => if s.phase session = .idle then some (s.commit session) else none
  | .rollback session => some (s.rollback session)
  | .archive session =>
    if s.phase session = .idle then
      match scanned s.rows session (fun _ => true) with
      | [] => some s
      | tup :: tups =>
        -- The table is truncated at once, whoever wrote its rows.
        some { s with
          rows := (ledgerHistArchive (tup :: tups)).map (⟨·, .inProgress session, true⟩)
          cache := none }
    else
      none
  | .restart => some (s.restart none)

end RecNum

section Blocknum

variable {Session Hash32 : Type} [DecidableEq Session]

-- The cache is `g_blocknum`.
abbrev BlocknumState (Session Hash32 : Type) := NumberState Session (GchainTuple Hash32) UInt64

def reloadNextLoop (maxNum : UInt32) : List (GchainTuple Hash32) → UInt32
  | [] => maxNum
  | tup :: tups =>
    let blocknum := tup.blocknum.toUInt32
    if blocknum > maxNum then reloadNextLoop blocknum tups else maxNum

def reloadNextGBlocknum (tups : List (GchainTuple Hash32)) : UInt32 :=
  reloadNextLoop 0 tups.reverse

inductive BlocknumAction (Session Hash32 : Type) where
  -- the test without a lock
  | test (session : Session)
  -- the reload under the exclusive lock
  | reload (session : Session)
  -- the increment under the shared lock
  | fetchAdd (session : Session)
  | insert (session : Session) (tuple : GchainTuple Hash32) (place : Nat)
  | commit (session : Session)
  | rollback (session : Session)
  | archive (session : Session)
  | restart

variable (pgMd5Binary : CString → Hash32) (hash32out : Hash32 → CString)

def blocknumStep (s : BlocknumState Session Hash32) (action : BlocknumAction Session Hash32)
    : Option (BlocknumState Session Hash32) :=
  match action with
  | .test session =>
    if s.phase session = .idle then
      some (s.setPhase session (if s.cache = 0 then .reloading else .ready))
    else
      none
  | .reload session =>
    if s.phase session = .reloading then
      if s.cache = 0 then
        let curNum : Int32 := (reloadNextGBlocknum (s.rows.map (·.tuple))).toInt32
        some { s.setPhase session .ready with cache := s.cache + 1 + UInt64.ofInt curNum.toInt }
      else
        some (s.setPhase session .ready)
    else
      none
  | .fetchAdd session =>
    if s.phase session = .ready then
      some { s.setPhase session (.holding s.cache) with cache := s.cache + 1 }
    else
      none
  | .insert session tuple place =>
    match s.phase session with
    | .holding blocknum => some (s.insertRow session blocknum { tuple with blocknum } place)
    | _ => none
  | .commit session => if s.phase session = .idle then some (s.commit session) else none
  | .rollback session => some (s.rollback session)
  | .archive session =>
    if s.phase session = .idle then
      match (s.rows.filter (·.visible session)).map (·.tuple) with
      | [] => some s
      | tup :: tups =>
        some { s with
          rows := (ledgerGchainArchive pgMd5Binary hash32out (tup :: tups)).map
            (⟨·, .inProgress session, true⟩)
          cache := 0 }
    else
      none
  | .restart => some (s.restart 0)

end Blocknum

end Ledger

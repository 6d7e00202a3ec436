import OpenGauss.Replication.SyncRep.Synced
import Mathlib.Algebra.Group.Int.Defs
import Mathlib.Algebra.Group.Nat.Defs

/-!
This module contains the path of `num_sync` from the text of `synchronous_standby_names` to the
array entry that is read.
-/

namespace SyncRep

structure Num where
  digits : List (Fin 10)
  digits_ne : digits ≠ []

def Num.value (num : Num) : Nat :=
  num.digits.foldl (fun value digit => 10 * value + digit) 0

-- `strtol` stops at `LONG_MAX`, the cast to `int` keeps the lower half.
def atoi (num : Num) : Int :=
  Int.bmod (min num.value (2 ^ 63 - 1)) (2 ^ 32)

structure ParsedConfigData where
  numSync : Int
  syncrepMethod : SyncRepMethod
  memberNames : List String

def createSyncrepConfig (numSync : Num) (members : List String) (syncrepMethod : SyncRepMethod)
    : ParsedConfigData :=
  { numSync := atoi numSync, syncrepMethod := syncrepMethod, memberNames := members }

-- A `standby_list` has the texts of its names, a `NUM` is one as well.
structure StandbyList where
  names : List String
  names_ne : names ≠ []

structure StandbyConfigComplete where
  syncrepMethod : SyncRepMethod
  num : Num
  standbyList : StandbyList

inductive StandbyConfig where
  | list (standbyList : StandbyList)
  | simplify (numSync : Num) (standbyList : StandbyList)
  | combination (first : StandbyConfigComplete) (rest : List StandbyConfigComplete)

def StandbyConfigComplete.result (complete : StandbyConfigComplete) : ParsedConfigData :=
  createSyncrepConfig complete.num complete.standbyList.names complete.syncrepMethod

def StandbyConfig.result : StandbyConfig → List ParsedConfigData
  | .list standbyList => [createSyncrepConfig ⟨[1], by simp⟩ standbyList.names .priority]
  | .simplify numSync standbyList => [createSyncrepConfig numSync standbyList.names .priority]
  | .combination first rest => first.result :: rest.map StandbyConfigComplete.result

-- The checks compare `num_sync` with a number of names only, a negative one passes them as 0 does.
def ParsedConfigData.data (conf : ParsedConfigData) : SyncRepConfigData :=
  { numSync := conf.numSync.toNat, syncrepMethod := conf.syncrepMethod, memberNames := conf.memberNames }

def checkSynchronousStandbyNames (config : StandbyConfig) : Bool :=
  transformSynchronousStandbyNames (config.result.map ParsedConfigData.data)

-- `newval = none` is the empty text.
def assignSynchronousStandbyNames (newval : Option StandbyConfig) : List ParsedConfigData :=
  newval.elim [] StandbyConfig.result

structure Primary extends SyncRepState where
  newval : Option StandbyConfig
  accepted : ∀ config, config ∈ newval → checkSynchronousStandbyNames config = true
  syncRepConfig_eq : syncRepConfig = (assignSynchronousStandbyNames newval).map ParsedConfigData.data
  walsnds_ne : walsnds ≠ []

-- `standbys` is the memory from the allocated array on, `written` the indices of the entries set.
structure Collect where
  standbys : Int → SyncRepStandbyData
  numSync : Int
  written : List Int

def Collect.toList (c : Collect) : List SyncRepStandbyData :=
  (List.range c.numSync.toNat).map (fun (i : Nat) => c.standbys i)

structure NthRead where
  nth : Int
  filled : Nat

namespace Primary

open SyncRepState

variable (p : Primary)

def maxWalSenders : Nat :=
  p.walsnds.length

def config : List ParsedConfigData :=
  assignSynchronousStandbyNames p.newval

-- The entry is filled before the checks, its last two fields after them.
def collectStep (conf : ParsedConfigData) (groupid : Nat) (base : Int) (c : Collect)
    (walsnd : SyncRepStandbyData) : Collect :=
  let i := base + c.numSync
  let stby :=
    { walsnd with walsndIndex := (c.standbys i).walsndIndex, isMe := (c.standbys i).isMe }
  let c := { c with standbys := Function.update c.standbys i stby, written := c.written ++ [i] }
  if isCandidate conf.data groupid none stby then
    { c with
      standbys := Function.update c.standbys i
        { stby with walsndIndex := walsnd.walsndIndex, isMe := walsnd.isMe }
      numSync := c.numSync + 1 }
  else
    c

def sortStandbys (base : Int) (c : Collect) : Int → SyncRepStandbyData :=
  let entries := (List.range c.numSync.toNat).map (fun (i : Nat) => c.standbys (base + i))
  let sorted := entries.mergeSort (fun a b => !standbyPriorityBefore b a)
  fun i =>
    if base ≤ i then
      sorted.getD (i - base).toNat (c.standbys i)
    else
      c.standbys i

def getSyncStandbysInGroup (conf : ParsedConfigData) (groupid : Nat) (base : Int)
    (standbys : Int → SyncRepStandbyData) : Collect :=
  let c := p.standbyData.foldl (collectStep conf groupid base)
    { standbys := standbys, numSync := 0, written := [] }
  if conf.syncrepMethod = .priority ∧ conf.numSync < c.numSync then
    { c with standbys := sortStandbys base c, numSync := conf.numSync }
  else
    c

def groupStep (c : Collect) : ParsedConfigData × Nat → Collect
  | (conf, groupid) =>
    let group := p.getSyncStandbysInGroup conf groupid c.numSync c.standbys
    { standbys := group.standbys
      numSync := c.numSync + group.numSync
      written := c.written ++ group.written }

def getSyncStandbys (memory : Int → SyncRepStandbyData) : Collect :=
  p.config.zipIdx.foldl p.groupStep { standbys := memory, numSync := 0, written := [] }

def checkSyncStandbysNum (c : Collect) : SyncStandbyNumState :=
  if p.config.isEmpty then
    .enough
  else if c.numSync = 0 then
    .empty
  else if p.config.zipIdx.any (fun (conf, groupid) =>
      (c.toList.countP (fun stby => stby.syncStandbyGroup = groupid) : Int) < conf.numSync) then
    .notEnough
  else
    .enough

-- `filled` counts the entries that are set in each of the four arrays, `nth` is a `uint8`.
def getNthLatestSyncRecPtr (standbys : List SyncRepStandbyData) (groupid : Nat) (numSync : Int)
    : Option NthRead :=
  let group := standbys.filter (fun stby => stby.syncStandbyGroup = groupid)
  if group.isEmpty then
    none
  else
    let filled := group.countP (fun stby => !stby.isCrossCluster)
    let nth := numSync % 256
    if p.mostAvailableSync ∧ (group.length : Int) < nth then
      some { nth := (group.length : Int) % 256, filled := filled }
    else
      some { nth := nth, filled := filled }

def getSyncRecPtrReads (memory : Int → SyncRepStandbyData) (checkAmSync : Bool) : List NthRead :=
  let c := p.getSyncStandbys memory
  let state := p.checkSyncStandbysNum c
  if (!amSync c.toList && checkAmSync) || p.config.isEmpty || !p.judgeSyncStandbysNum state then
    []
  else if state = .empty then
    []
  else
    p.config.zipIdx.filterMap (fun (conf, groupid) =>
      match conf.syncrepMethod with
      | .priority => none
      | .quorum => p.getNthLatestSyncRecPtr c.toList groupid conf.numSync)

def InBounds (memory : Int → SyncRepStandbyData) (checkAmSync : Bool) : Prop :=
  (∀ i, i ∈ (p.getSyncStandbys memory).written → 0 ≤ i ∧ i < p.maxWalSenders)
    ∧ ∀ read, read ∈ p.getSyncRecPtrReads memory checkAmSync → 1 ≤ read.nth ∧ read.nth ≤ read.filled

def candidates (conf : ParsedConfigData) (groupid : Nat) : List SyncRepStandbyData :=
  p.standbyData.filter (isCandidate conf.data groupid none)

/--
Some sender is not a candidate of any group, or the last sender is one of the last group.
-/
def LeavesRoom : Prop :=
  ∀ last, p.standbyData.getLast? = some last →
    (∀ stby, stby ∈ p.standbyData →
      ∃ conf groupid, (conf, groupid) ∈ p.config.zipIdx ∧ stby ∈ p.candidates conf groupid) →
    last.syncStandbyGroup + 1 = p.config.length

/--
The lower eight bits of `num_sync` are a number from 1 to the candidates of the own cluster, or they
exceed it with `most_available_sync` on and no candidate of another cluster.
-/
def NumSyncFits (checkAmSync : Bool) : Prop :=
  p.quickExit checkAmSync = false → ∀ conf groupid, (conf, groupid) ∈ p.config.zipIdx →
    conf.syncrepMethod = .quorum → p.candidates conf groupid ≠ [] →
    conf.numSync % 256 ≠ 0
      ∧ (conf.numSync % 256 ≤ (p.candidates conf groupid).countP (fun stby => !stby.isCrossCluster)
        ∨ (p.mostAvailableSync = true
          ∧ ∀ stby, stby ∈ p.candidates conf groupid → stby.isCrossCluster = false))

end Primary
end SyncRep

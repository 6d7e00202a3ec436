import OpenGauss.Lib.SortedRank
import Mathlib.Order.Bounds.Basic

/-!
This module contains the positions a synchronous commit waits for: the checks of
`synchronous_standby_names`, the choice of the synchronous standbys and the positions computed from
them, from `syncrep.cpp`.
-/

namespace SyncRep

open SortedRank

inductive SyncRepMethod where
  | priority
  | quorum
  deriving DecidableEq

structure SyncRepConfigData where
  numSync : Nat
  syncrepMethod : SyncRepMethod
  memberNames : List String

def syncRepMaxGroups : Nat := 256

def pgStrcaseeq (a b : String) : Bool :=
  a.toLower = b.toLower

def analyzeStarAndNum (groups : Nat) (conf : SyncRepConfigData) : Bool :=
  if conf.memberNames.contains "*" then
    groups ≤ 1 && conf.memberNames.length ≤ 1
  else
    conf.numSync ≤ conf.memberNames.length

def analyzeDuplicateNames (existers : List String) (conf : SyncRepConfigData) : Option (List String) :=
  if conf.memberNames.contains "*" then
    some existers
  else
    conf.memberNames.foldlM
      (fun existers name => if existers.any (pgStrcaseeq name) then none else some (existers ++ [name]))
      existers

def transformSynchronousStandbyNames.go (groups : Nat) (existers : List String)
    : List SyncRepConfigData → Bool
  | [] => true
  | conf :: rest =>
    if conf.syncrepMethod = .priority ∧ 1 < groups then
      false
    else if analyzeStarAndNum groups conf then
      match analyzeDuplicateNames existers conf with
      | none => false
      | some existers => go groups existers rest
    else
      false

def transformSynchronousStandbyNames (source : List SyncRepConfigData) : Bool :=
  if syncRepMaxGroups < source.length then
    false
  else
    transformSynchronousStandbyNames.go source.length [] source

inductive WalSndState where
  | startup
  | backup
  | catchup
  | uwalCatchup
  | uwalCatchupMsgSent
  | uwalCatchupEnd
  | streaming
  deriving DecidableEq

inductive ServerMode where
  | unknown
  | normal
  | primary
  | standby
  | cascadeStandby
  | pending
  | recovery
  | standbyCluster
  | mainStandby
  deriving DecidableEq

inductive WaitMode where
  | receive
  | write
  | flush
  | apply
  deriving DecidableEq

structure WalSnd where
  pid : Nat
  state : WalSndState
  peerRole : ServerMode
  position : WaitMode → Nat
  lastChangeTime : WaitMode → Int
  syncStandbyPriority : Nat
  syncStandbyGroup : Nat
  isCrossCluster : Bool

structure SyncRepStandbyData extends WalSnd where
  walsndIndex : Nat
  isMe : Bool
  tooOld : WaitMode → Bool

inductive SyncStandbyNumState where
  | empty
  | notEnough
  | enough
  deriving DecidableEq

-- The positions of the primary's own log, which starts behind position 0.
structure XLogPositions where
  write : Nat
  flush : Nat
  write_ne : write ≠ 0
  flush_ne : flush ≠ 0

-- `syncRepConfig = []` is the configuration that is not set, `myWalSnd` the sender that asks.
structure SyncRepState where
  syncRepConfig : List SyncRepConfigData
  walsnds : List WalSnd
  myWalSnd : Option Nat
  xlog : XLogPositions
  now : Int
  mostAvailableSync : Bool
  ignoreStandbyLsnWindow : Int
  keepSyncWindow : Nat
  keepSyncWindowStart : Int
  outKeepSyncWindow : Bool

namespace SyncRepState

variable (s : SyncRepState)

def ifIgnoreStandbyLsn (lastTime : Int) : Bool :=
  s.mostAvailableSync && 0 < s.ignoreStandbyLsnWindow
    && lastTime + s.ignoreStandbyLsnWindow * 1000 ≤ s.now

def standbyData : List SyncRepStandbyData :=
  s.walsnds.mapIdx (fun i walsnd =>
    { walsnd with
      walsndIndex := i
      isMe := s.myWalSnd = some i
      tooOld := fun mode => s.ifIgnoreStandbyLsn (walsnd.lastChangeTime mode) })

def standbyPriorityBefore (a b : SyncRepStandbyData) : Bool :=
  if a.syncStandbyPriority ≠ b.syncStandbyPriority then
    a.syncStandbyPriority < b.syncStandbyPriority
  else
    a.walsndIndex < b.walsndIndex

def isCandidate (conf : SyncRepConfigData) (groupid : Nat) (mode : Option WaitMode)
    (stby : SyncRepStandbyData) : Bool :=
  stby.pid ≠ 0
    && stby.syncStandbyPriority ≠ 0 && stby.syncStandbyGroup = groupid
    && stby.position .flush ≠ 0
    && stby.state = .streaming
    && !(conf.syncrepMethod = .quorum && stby.peerRole = .standbyCluster)
    && !(mode.any stby.tooOld)

def getSyncStandbysInGroup (conf : SyncRepConfigData) (groupid : Nat) (mode : Option WaitMode)
    : List SyncRepStandbyData :=
  let standbys := s.standbyData.filter (isCandidate conf groupid mode)
  if conf.syncrepMethod = .priority ∧ conf.numSync < standbys.length then
    (standbys.mergeSort (fun a b => !standbyPriorityBefore b a)).take conf.numSync
  else
    standbys

def getSyncStandbys : List SyncRepStandbyData :=
  s.syncRepConfig.zipIdx.flatMap (fun (conf, groupid) => s.getSyncStandbysInGroup conf groupid none)

def checkSyncStandbysNum (standbys : List SyncRepStandbyData) : SyncStandbyNumState :=
  if s.syncRepConfig.isEmpty then
    .enough
  else if standbys.isEmpty then
    .empty
  else if s.syncRepConfig.zipIdx.any (fun (conf, groupid) =>
      standbys.countP (fun stby => stby.syncStandbyGroup = groupid) < conf.numSync) then
    .notEnough
  else
    .enough

def delayIntoMostAvaSync (state : SyncStandbyNumState) : Bool :=
  if !s.mostAvailableSync || s.keepSyncWindow = 0 then
    false
  else if state = .enough then
    false
  else if s.keepSyncWindowStart = 0 then
    true
  else
    !s.outKeepSyncWindow && (s.now - s.keepSyncWindowStart).toNat / 1000000 < s.keepSyncWindow

def judgeSyncStandbysNum (state : SyncStandbyNumState) : Bool :=
  state = .enough || (s.mostAvailableSync && !s.delayIntoMostAvaSync state)

-- Position 0 stands for a result that is not there yet.
def oldestStep (ptr position : Nat) : Nat :=
  if ptr = 0 ∨ ¬ptr ≤ position then position else ptr

def getOldestSyncRecPtrByMode (outPtr : Nat) (standbys : List SyncRepStandbyData) (mode : WaitMode)
    : Nat :=
  standbys.foldl (fun ptr stby => oldestStep ptr (stby.position mode)) outPtr

def getOldestSyncRecPtr (ptr : Nat) (standbys : List SyncRepStandbyData) (conf : SyncRepConfigData)
    (groupid : Nat) (mode : WaitMode) : Nat :=
  let group := standbys.filter (fun stby => stby.syncStandbyGroup = groupid)
  let scanned := group.foldl
    (fun (ptr, hasInvalid) stby =>
      let hasInvalid := hasInvalid || stby.tooOld mode
      (if hasInvalid then ptr else oldestStep ptr (stby.position mode), hasInvalid))
    (ptr, false)
  if scanned.2 then
    getOldestSyncRecPtrByMode scanned.1 (s.getSyncStandbysInGroup conf groupid (some mode)) mode
  else
    scanned.1

-- `memory` is what the allocated array contains before it is written.
def positionArray (memory : Nat → Nat) (standbys : List SyncRepStandbyData) (mode : WaitMode)
    : List Nat :=
  let counted := standbys.filter (fun stby => !stby.isCrossCluster)
  let written := counted.map (fun stby => if stby.tooOld mode then 0 else stby.position mode)
  let unset := (List.range (standbys.length - written.length)).map (fun i => memory (written.length + i))
  sortDescending (written ++ unset)

def getNthLatestSyncRecPtr (memory : Nat → Nat) (ptr : Nat) (standbys : List SyncRepStandbyData)
    (groupid : Nat) (nth : Nat) (mode : WaitMode) : Option Nat :=
  let group := standbys.filter (fun stby => stby.syncStandbyGroup = groupid)
  if group.isEmpty then
    some ptr
  else
    let array := positionArray memory group mode
    let validNum := group.countP (fun stby => !stby.isCrossCluster && !stby.tooOld mode)
    -- `nth` is passed as `uint8`
    let nth := nth % 256
    let nth := if s.mostAvailableSync ∧ group.length < nth then group.length % 256 else nth
    match nth with
    | 0 => none
    | nth + 1 =>
      match array[nth]? with
      | none => none
      | some entry =>
        let ptr := if ptr = 0 ∨ entry ≤ ptr then entry else ptr
        if ptr = 0 ∧ 0 < validNum then array[validNum - 1]? else some ptr

inductive SyncRecPtr where
  | notSynced
  | synced (ptr : WaitMode → Nat)
  | outOfBounds

def groupRecPtr (memory : Nat → Nat → Nat) (standbys : List SyncRepStandbyData) (mode : WaitMode)
    (ptr : Nat) : SyncRepConfigData × Nat → Option Nat
  | (conf, groupid) =>
    match conf.syncrepMethod with
    | .priority => some (s.getOldestSyncRecPtr ptr standbys conf groupid mode)
    | .quorum => s.getNthLatestSyncRecPtr (memory groupid) ptr standbys groupid conf.numSync mode

def groupsRecPtr (memory : Nat → Nat → Nat) (standbys : List SyncRepStandbyData) (mode : WaitMode)
    : Option Nat :=
  s.syncRepConfig.zipIdx.foldlM (s.groupRecPtr memory standbys mode) 0

def ifInvalid (ptr default : Nat) : Nat :=
  if ptr = 0 then default else ptr

def fillInvalid (receive write flush replay : Nat) : WaitMode → Nat
  | .write => ifInvalid write s.xlog.write
  | .flush => ifInvalid flush s.xlog.flush
  | .receive => ifInvalid receive (ifInvalid write s.xlog.write)
  | .apply => ifInvalid replay (ifInvalid flush s.xlog.flush)

def amSync (standbys : List SyncRepStandbyData) : Bool :=
  standbys.any (fun stby => stby.isMe)
    || standbys.any (fun stby => stby.tooOld .receive || stby.tooOld .write || stby.tooOld .flush
      || stby.tooOld .apply)

def quickExit (checkAmSync : Bool) : Bool :=
  let standbys := s.getSyncStandbys
  (!amSync standbys && checkAmSync)
    || s.syncRepConfig.isEmpty
    || !s.judgeSyncStandbysNum (s.checkSyncStandbysNum standbys)

def getSyncRecPtr (memory : WaitMode → Nat → Nat → Nat) (checkAmSync : Bool) : SyncRecPtr :=
  let standbys := s.getSyncStandbys
  if s.quickExit checkAmSync then
    .notSynced
  else if s.checkSyncStandbysNum standbys = .empty then
    .synced (fun
      | .receive | .write => s.xlog.write
      | .flush | .apply => s.xlog.flush)
  else
    let ptrs : Option (WaitMode → Nat) := do
      let receive ← s.groupsRecPtr (memory .receive) standbys .receive
      let write ← s.groupsRecPtr (memory .write) standbys .write
      let flush ← s.groupsRecPtr (memory .flush) standbys .flush
      let replay ← s.groupsRecPtr (memory .apply) standbys .apply
      return s.fillInvalid receive write flush replay
    match ptrs with
    | none => .outOfBounds
    | some ptrs => .synced ptrs

/-!
What a commit waits for, said of the array of senders.
-/

def Eligible (groupid : Nat) (stby : SyncRepStandbyData) : Prop :=
  stby.pid ≠ 0
    ∧ stby.syncStandbyPriority ≠ 0 ∧ stby.syncStandbyGroup = groupid
    ∧ stby.state = .streaming
    ∧ stby.position .flush ≠ 0

instance (groupid : Nat) : DecidablePred (Eligible groupid) :=
  fun _ => inferInstanceAs (Decidable (_ ∧ _))

def CrossCluster (stby : SyncRepStandbyData) : Prop :=
  stby.isCrossCluster = true ∨ stby.peerRole = .standbyCluster

instance : DecidablePred CrossCluster :=
  fun _ => inferInstanceAs (Decidable (_ ∨ _))

def rank (groupid : Nat) (stby : SyncRepStandbyData) : Nat :=
  s.standbyData.countP (fun other => Eligible groupid other ∧ standbyPriorityBefore other stby)

def reached (groupid : Nat) (mode : WaitMode) (p : Nat) : Nat :=
  s.standbyData.countP (fun stby => Eligible groupid stby ∧ ¬CrossCluster stby ∧ p ≤ stby.position mode)

def Acknowledged (mode : WaitMode) (p : Nat) : Prop :=
  ∀ conf groupid, (conf, groupid) ∈ s.syncRepConfig.zipIdx →
    match conf.syncrepMethod with
    | .priority =>
      ∀ stby, stby ∈ s.standbyData → Eligible groupid stby → s.rank groupid stby < conf.numSync →
        p ≤ stby.position mode
    | .quorum => conf.numSync ≤ s.reached groupid mode p

-- The largest acknowledged position of each mode.
def IsSynced (ptr : WaitMode → Nat) : Prop :=
  ∀ mode, IsGreatest {p | s.Acknowledged mode p} (ptr mode)

def unset (groupid : Nat) : Nat :=
  s.standbyData.countP (fun stby =>
    Eligible groupid stby ∧ stby.peerRole ≠ .standbyCluster ∧ stby.isCrossCluster)

def PriorityPositions : Prop :=
  ∀ conf groupid, (conf, groupid) ∈ s.syncRepConfig.zipIdx →
    ∀ stby, stby ∈ s.standbyData → Eligible groupid stby → s.rank groupid stby < conf.numSync →
      ∀ mode, stby.position mode ≠ 0

/--
Every group has reached some position other than 0, and one group is not beyond it, whatever the
entries never written contain.
-/
def QuorumPositions : Prop :=
  (∀ conf groupid, (conf, groupid) ∈ s.syncRepConfig.zipIdx → conf.numSync % 256 ≠ 0)
    ∧ ∀ mode, ∃ p, p ≠ 0
      ∧ (∀ conf groupid, (conf, groupid) ∈ s.syncRepConfig.zipIdx → conf.numSync ≤ s.reached groupid mode p)
      ∧ ∃ conf groupid, (conf, groupid) ∈ s.syncRepConfig.zipIdx
        ∧ s.reached groupid mode (p + 1) + s.unset groupid < conf.numSync % 256

def Determined : Prop :=
  if s.syncRepConfig.any (fun conf => conf.syncrepMethod = .priority) then
    s.PriorityPositions
  else
    s.QuorumPositions

end SyncRepState
end SyncRep

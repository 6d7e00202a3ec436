import OpenGauss.Mot.Occ.Impl

/-!
This module contains the chain of nodes of a unique secondary sentinel.
-/

open List

namespace Mot.Occ

variable {S T D : Type} {nodes : List (PrimarySentinelNode S)}
variable (older : List (PrimarySentinelNode S)) (snapshot : Nat) {node : PrimarySentinelNode S}
variable {header' : Sentinel S T D}

namespace Sentinel

def getVisiblePrimaryHeader.go (csn : Nat) : List (PrimarySentinelNode S) → Option S
  | [] => none
  | node :: next =>
    if csn ≤ node.endCsn ∧ csn > node.startCsn then some node.primarySentinel else go csn next

def getVisiblePrimaryHeader (s : Sentinel S T D) (csn : Nat) : Option S :=
  if s.dirty ∨ csn ≤ s.startCsn then none else getVisiblePrimaryHeader.go csn s.nodes

-- What stays in the chain and `detachedChain`.
def detachUnusedNodes.go (snapshot : Nat)
    : List (PrimarySentinelNode S) → List (PrimarySentinelNode S) × List (PrimarySentinelNode S)
  | [] => ([], [])
  | [node] => ([node], [])
  | node :: tmp :: next =>
    if snapshot ≥ tmp.endCsn then
      ([node], tmp :: next)
    else
      let detached := go snapshot (tmp :: next)
      (node :: detached.1, detached.2)

def detachUnusedNodes (s : Sentinel S T D) (snapshot : Nat)
    : Sentinel S T D × List (PrimarySentinelNode S) :=
  let detached := detachUnusedNodes.go snapshot s.nodes
  ({ s with nodes := detached.1 }, detached.2)

def newSecondaryUnique : Sentinel S T D where
  indexOrder := .secondaryUnique
  lock := none
  dirty := true
  startCsn := 0
  endCsn := sentinelInitCsn
  data := []
  primarySentinel := none
  nodes := []

end Sentinel

inductive KeyEvent (S D : Type) where
  | commit (csn : Nat) (access : Access S D)
  | detach (snapshot : Nat)

def KeyEvent.exec (header : Sentinel S T D) : KeyEvent S D → Sentinel S T D
  | .commit csn access =>
    let written := access.writeGlobalChanges csn header
    writeSentinelChanges csn written.1 written.2
  | .detach snapshot => (header.detachUnusedNodes snapshot).1

section History

def Access.leaves (access : Access S D) : Option S :=
  if access.type = .INS then access.primaryOfInsert else none

-- Histories are newest first. A snapshot sees the commits before it.
def currentAt (csn : Nat) : List (KeyEvent S D) → Option S
  | [] => none
  | .commit commitCsn access :: older => if commitCsn < csn then access.leaves else currentAt csn older
  | .detach _ :: older => currentAt csn older

def lastCommit : List (KeyEvent S D) → Option (Nat × Option S)
  | [] => none
  | .commit csn access :: _ => some (csn, access.leaves)
  | .detach _ :: older => lastCommit older

-- An insert of a key that never was there, a delete, an insert over a deleted key, or a delete and an
-- insert in one transaction.
inductive Fits (access : Access S D) : Option (Option S) → Prop where
  | insert (htype : access.type = .INS) (hupgrade : access.params.isUpgradeInsert = false) : Fits access none
  | delete (htype : access.type = .DEL) (p : S) : Fits access (some (some p))
  | reinsert (htype : access.type = .INS) (hupgrade : access.params.isUpgradeInsert = true)
      (hdeleted : access.params.isInsertOnDeletedRow = true) : Fits access (some none)
  | replace (htype : access.type = .INS) (hupgrade : access.params.isUpgradeInsert = true)
      (hdeleted : access.params.isInsertOnDeletedRow = false) (p : S) : Fits access (some (some p))

structure Admissible (history : List (KeyEvent S D)) (csn : Nat) (access : Access S D) : Prop where
  unique : access.params.isSecondaryUniqueSentinel = true
  row : access.type = .INS → ∃ p, access.primaryOfInsert = some p
  fits : Fits access ((lastCommit history).map Prod.snd)
  later : ∀ last ∈ lastCommit history, last.1 < csn
  inRange : csn ≤ sentinelInitCsn

inductive KeyHistory : List (KeyEvent S D) → Sentinel S T D → Prop where
  | new : KeyHistory [] Sentinel.newSecondaryUnique
  | commit {history : List (KeyEvent S D)} {header : Sentinel S T D} {csn : Nat} {access : Access S D}
      (hhistory : KeyHistory history header) (hadmissible : Admissible history csn access)
      : KeyHistory (.commit csn access :: history) ((KeyEvent.commit csn access).exec header)
  | detach {history : List (KeyEvent S D)} {header : Sentinel S T D} (snapshot : Nat)
      (hhistory : KeyHistory history header)
      : KeyHistory (.detach snapshot :: history) ((KeyEvent.detach snapshot).exec header)

end History

open IntervalChain

abbrev Sentinel.headerAt (csn : Nat) (nodes : List (PrimarySentinelNode S)) : Option S :=
  valueAt PrimarySentinelNode.startCsn PrimarySentinelNode.endCsn
    PrimarySentinelNode.primarySentinel csn nodes

abbrev Sentinel.Decreasing (nodes : List (PrimarySentinelNode S)) : Prop :=
  Descending PrimarySentinelNode.startCsn PrimarySentinelNode.endCsn nodes

namespace Sentinel

section Readers

theorem getVisiblePrimaryHeader_go_eq (csn : Nat) (nodes : List (PrimarySentinelNode S))
    : getVisiblePrimaryHeader.go csn nodes = headerAt csn nodes := by
  induction nodes with
  | nil => rfl
  | cons node next ih =>
    rw [getVisiblePrimaryHeader.go]
    split
    . next h =>
      rw [headerAt, valueAt, versionAt_cons_of_holds next ⟨h.2, h.1⟩, Option.map_some]
    . next h =>
      rw [headerAt, valueAt, versionAt_cons_of_not_holds next (fun hholds => h ⟨hholds.2, hholds.1⟩)]
      exact ih

theorem getNodeByCsn_go_eq (csn : Nat) (h : Decreasing nodes)
    : getNodeByCsn.go csn nodes
        = versionAt PrimarySentinelNode.startCsn PrimarySentinelNode.endCsn csn nodes := by
  induction nodes with
  | nil => rfl
  | cons node next ih =>
    rw [getNodeByCsn.go]
    split
    . next hend => rw [h.versionAt_of_finish_lt hend]
    . next hend =>
      have hend : csn ≤ node.endCsn := not_lt.1 hend
      split
      . next hstart => rw [versionAt_cons_of_holds next ⟨hstart, hend⟩]
      . next hstart =>
        rw [versionAt_cons_of_not_holds next (fun hholds => hstart hholds.1)]
        exact ih h.tail

end Readers

section Detach

theorem detachUnusedNodes_append (nodes : List (PrimarySentinelNode S))
    : (detachUnusedNodes.go snapshot nodes).1 ++ (detachUnusedNodes.go snapshot nodes).2 = nodes := by
  fun_induction detachUnusedNodes.go snapshot nodes with
  | case1 => rfl
  | case2 node => rfl
  | case3 node tmp next h => rfl
  | case4 node tmp next h detached ih => rw [cons_append, ih]

theorem detachUnusedNodes_head (node : PrimarySentinelNode S) (next : List (PrimarySentinelNode S))
    : ∃ kept, (detachUnusedNodes.go snapshot (node :: next)).1 = node :: kept := by
  cases next with
  | nil => exact ⟨[], rfl⟩
  | cons tmp next =>
    rw [detachUnusedNodes.go]
    split
    . exact ⟨[], rfl⟩
    . exact ⟨_, rfl⟩

theorem detachUnusedNodes_detached (h : Decreasing nodes)
    : ∀ node ∈ (detachUnusedNodes.go snapshot nodes).2, node.endCsn ≤ snapshot := by
  fun_induction detachUnusedNodes.go snapshot nodes with
  | case1 => simp
  | case2 node => simp
  | case3 node tmp next hend =>
    intro older holder
    exact le_trans (h.tail.finish_le older holder) hend
  | case4 node tmp next hend detached ih => exact ih h.tail

end Detach

end Sentinel

section Commit

variable {header : Sentinel S T D} {csn : Nat} {access : Access S D}

theorem isSecondaryUniqueSentinel_iff (params : AccessParams)
    : params.isSecondaryUniqueSentinel = true
        ↔ params.isPrimarySentinel = false ∧ params.isUniqueIndex = true := by
  simp [AccessParams.isSecondaryUniqueSentinel]

theorem exec_delete (hunique : access.params.isSecondaryUniqueSentinel = true)
    (horder : header.indexOrder = .secondaryUnique) (htype : access.type = .DEL)
    : (KeyEvent.commit csn access).exec header
        = { header with nodes := Sentinel.setEndCsnOfTop csn header.nodes } := by
  have hparams := (isSecondaryUniqueSentinel_iff _).1 hunique
  simp [KeyEvent.exec, Access.writeGlobalChanges, htype, hparams, writeSentinelChanges, Sentinel.setEndCsn,
    horder]

theorem insertNode_eq {p : S} (hrow : access.primaryOfInsert = some p) (csn : Nat)
    : access.insertNode csn = [⟨access.poolNode, csn, sentinelInitCsn, p⟩] := by
  simp [Access.insertNode, hrow]

variable (hunique : access.params.isSecondaryUniqueSentinel = true)
include hunique

variable (htype : access.type = .INS)
include htype

theorem exec_insert (hupgrade : access.params.isUpgradeInsert = false)
    : (KeyEvent.commit csn access).exec header
        = { header with startCsn := csn, nodes := access.insertNode csn, dirty := false } := by
  have hparams := (isSecondaryUniqueSentinel_iff _).1 hunique
  simp [KeyEvent.exec, Access.writeGlobalChanges, htype, hparams, hupgrade, writeSentinelChanges, hunique]

variable (hupgrade : access.params.isUpgradeInsert = true)
include hupgrade

theorem exec_reinsert (hdeleted : access.params.isInsertOnDeletedRow = true)
    : (KeyEvent.commit csn access).exec header
        = { header with nodes := access.insertNode csn ++ header.nodes } := by
  have hparams := (isSecondaryUniqueSentinel_iff _).1 hunique
  simp [KeyEvent.exec, Access.writeGlobalChanges, htype, hparams, hupgrade, hdeleted, writeSentinelChanges]

theorem exec_replace (hdeleted : access.params.isInsertOnDeletedRow = false)
    : (KeyEvent.commit csn access).exec header
        = { header with nodes := access.insertNode csn ++ Sentinel.setEndCsnOfTop csn header.nodes } := by
  have hparams := (isSecondaryUniqueSentinel_iff _).1 hunique
  simp [KeyEvent.exec, Access.writeGlobalChanges, htype, hparams, hupgrade, hdeleted, writeSentinelChanges]

end Commit

section Invariant

-- The end of the newest node tells whether the last commit left the key.
def EndsAt (top : PrimarySentinelNode S) (last : Nat) (left : Option S) : Prop :=
  if left.isSome then top.endCsn = sentinelInitCsn else top.endCsn = last

inductive HeaderState (header : Sentinel S T D) : Option (Nat × Option S) → Prop where
  | new (hdirty : header.dirty = true) (hnodes : header.nodes = []) : HeaderState header none
  | committed {last : Nat} {left : Option S} (top : PrimarySentinelNode S)
      (older : List (PrimarySentinelNode S)) (hdirty : header.dirty = false)
        (hnodes : header.nodes = top :: older)
      (hstart : top.startCsn ≤ last) (hend : EndsAt top last left) : HeaderState header (some (last, left))

-- The snapshot is later than all that was trimmed.
def Untrimmed (history : List (KeyEvent S D)) (csn : Nat) : Prop :=
  ∀ snapshot, KeyEvent.detach snapshot ∈ history → snapshot < csn

structure ChainInv (history : List (KeyEvent S D)) (header : Sentinel S T D) : Prop where
  order : header.indexOrder = .secondaryUnique
  decreasing : Sentinel.Decreasing header.nodes
  started : ∀ node ∈ header.nodes, header.startCsn ≤ node.startCsn
  state : HeaderState header (lastCommit history)
  answers : ∀ csn ≤ sentinelInitCsn, Untrimmed history csn →
    Sentinel.headerAt csn header.nodes = currentAt csn history
  stale : ∀ csn ≤ sentinelInitCsn, Sentinel.headerAt csn header.nodes = none
    ∨ Sentinel.headerAt csn header.nodes = currentAt csn history

-- What a commit does to the chain: snapshots up to it get what they got, later ones what it left.
structure Chained (csn : Nat) (left : Option S) (header header' : Sentinel S T D) : Prop where
  order : header'.indexOrder = header.indexOrder
  decreasing : Sentinel.Decreasing header'.nodes
  started : ∀ node ∈ header'.nodes, header'.startCsn ≤ node.startCsn
  state : HeaderState header' (some (csn, left))
  before : ∀ c ≤ csn, Sentinel.headerAt c header'.nodes = Sentinel.headerAt c header.nodes
  after : ∀ c, csn < c → c ≤ sentinelInitCsn → Sentinel.headerAt c header'.nodes = left

variable {history : List (KeyEvent S D)} {header : Sentinel S T D} {csn : Nat} {access : Access S D}

theorem ChainInv.new : ChainInv ([] : List (KeyEvent S D)) (Sentinel.newSecondaryUnique : Sentinel S T D) where
  order := rfl
  decreasing := Descending.nil
  started := by simp [Sentinel.newSecondaryUnique]
  state := .new rfl rfl
  answers := fun _ _ _ => rfl
  stale := fun _ _ => .inl rfl

theorem ChainInv.of_chained (hinv : ChainInv history header)
    (hchained : Chained csn access.leaves header header')
    : ChainInv (.commit csn access :: history) header' := { hchained with
  order := hchained.order.trans hinv.order
  answers := by
    intro c hc huntrimmed
    rw [currentAt]
    split
    . next hlater => exact hchained.after c hlater hc
    . next hlater =>
      rw [hchained.before c (not_lt.1 hlater)]
      exact hinv.answers c hc (fun snapshot hmem => huntrimmed snapshot (mem_cons_of_mem _ hmem))
  stale := by
    intro c hc
    rw [currentAt]
    split
    . next hlater => exact .inr (hchained.after c hlater hc)
    . next hlater =>
      rw [hchained.before c (not_lt.1 hlater)]
      exact hinv.stale c hc }

theorem ChainInv.detach (hinv : ChainInv history header) (snapshot : Nat)
    : ChainInv (.detach snapshot :: history) ((KeyEvent.detach snapshot).exec header) := by
  have happend := Sentinel.detachUnusedNodes_append snapshot header.nodes
  have hdetached := Sentinel.detachUnusedNodes_detached snapshot hinv.decreasing
  have hheader : (KeyEvent.detach snapshot : KeyEvent S D).exec header
      = { header with nodes := (Sentinel.detachUnusedNodes.go snapshot header.nodes).1 } := rfl
  rw [hheader]
  refine ⟨hinv.order, ?_, ?_, ?_, ?_, ?_⟩
  . have hdecreasing := hinv.decreasing
    rw [← happend] at hdecreasing
    exact hdecreasing.kept
  . intro node hnode
    apply hinv.started
    rw [← happend]
    exact mem_append_left _ hnode
  . have hstate := hinv.state
    simp only [lastCommit]
    generalize lastCommit history = last at hstate
    cases hstate with
    | new hdirty hnodes => exact .new hdirty (by simp only [hnodes]; rfl)
    | committed top older hdirty hnodes hstart hend =>
      obtain ⟨kept, hkept⟩ := Sentinel.detachUnusedNodes_head snapshot top older
      exact .committed top kept hdirty (by simp only [hnodes, hkept]) hstart hend
  . intro c hc huntrimmed
    have hlater : ∀ node ∈ (Sentinel.detachUnusedNodes.go snapshot header.nodes).2, node.endCsn < c := by
      intro node hnode
      exact lt_of_le_of_lt (hdetached node hnode) (huntrimmed snapshot mem_cons_self)
    rw [currentAt, ← hinv.answers c hc (fun s hmem => huntrimmed s (mem_cons_of_mem _ hmem)),
      Sentinel.headerAt, Sentinel.headerAt, valueAt, valueAt, ← versionAt_append_of_finish_lt _ hlater,
        happend]
  . intro c hc
    rw [currentAt, Sentinel.headerAt, valueAt]
    rcases versionAt_of_cut c (Sentinel.detachUnusedNodes.go snapshot header.nodes).1
      (Sentinel.detachUnusedNodes.go snapshot header.nodes).2 with hnone | hsame
    . exact .inl (by rw [hnone, Option.map_none])
    . rw [hsame, happend]
      exact hinv.stale c hc

theorem headerAt_of_le_start {c : Nat}
    (h : c ≤ node.startCsn) : Sentinel.headerAt c (node :: older) = Sentinel.headerAt c older := by
  have hnot : ¬Holds PrimarySentinelNode.startCsn PrimarySentinelNode.endCsn c node :=
    fun hholds => absurd hholds.1 (not_lt.2 h)
  rw [Sentinel.headerAt, valueAt, versionAt_cons_of_not_holds older hnot]
  rfl

theorem headerAt_of_start_lt {c : Nat} (hstart : node.startCsn < c) (hend : c ≤ node.endCsn)
    : Sentinel.headerAt c (node :: older) = some node.primarySentinel := by
  have hholds : Holds PrimarySentinelNode.startCsn PrimarySentinelNode.endCsn c node := ⟨hstart, hend⟩
  rw [Sentinel.headerAt, valueAt, versionAt_cons_of_holds older hholds, Option.map_some]

theorem headerAt_of_endCsn_lt {c : Nat}
    (h : ∀ node ∈ nodes, node.endCsn < c) : Sentinel.headerAt c nodes = none := by
  rw [Sentinel.headerAt, valueAt, versionAt_eq_none_of_finish_lt h, Option.map_none]

theorem Chained.push {p : S} (nodes : List (PrimarySentinelNode S))
    (hrow : access.primaryOfInsert = some p) (hrange : csn ≤ sentinelInitCsn)
    (horder : header'.indexOrder = header.indexOrder) (hdirty : header'.dirty = false)
    (hnodes : header'.nodes = access.insertNode csn ++ nodes) (hdecreasing : Sentinel.Decreasing nodes)
    (hover : ∀ node ∈ nodes, node.endCsn ≤ csn) (hfirst : header'.startCsn ≤ csn)
    (hstarted : ∀ node ∈ nodes, header'.startCsn ≤ node.startCsn)
    (hbefore : ∀ c ≤ csn, Sentinel.headerAt c nodes = Sentinel.headerAt c header.nodes)
    : Chained csn (some p) header header' := by
  rw [insertNode_eq hrow, singleton_append] at hnodes
  refine ⟨horder, ?_, ?_, ?_, ?_, ?_⟩
  . rw [hnodes]
    exact hdecreasing.push hrange hover
  . rw [hnodes]
    exact forall_mem_cons.2 ⟨hfirst, hstarted⟩
  . exact .committed _ nodes hdirty hnodes (le_refl _) (by simp [EndsAt])
  . intro c hc
    rw [hnodes, headerAt_of_le_start nodes hc]
    exact hbefore c hc
  . intro c hlater hc
    rw [hnodes, headerAt_of_start_lt nodes hlater hc]

theorem closed_spec {top : PrimarySentinelNode S} {older : List (PrimarySentinelNode S)}
    (hdecreasing : Sentinel.Decreasing (top :: older)) (hstart : top.startCsn ≤ csn)
    (hend : top.endCsn = sentinelInitCsn) (hrange : csn ≤ sentinelInitCsn)
    : Sentinel.Decreasing ({ top with endCsn := csn } :: older)
        ∧ (∀ node ∈ { top with endCsn := csn } :: older, node.endCsn ≤ csn)
        ∧ ∀ c ≤ csn, Sentinel.headerAt c ({ top with endCsn := csn } :: older)
            = Sentinel.headerAt c (top :: older) := by
  have hclosed : Sentinel.Decreasing ({ top with endCsn := csn } :: older) := hdecreasing.close rfl hstart
  refine ⟨hclosed, hclosed.finish_le, ?_⟩
  intro c hc
  refine valueAt_of_close older rfl rfl ?_ ?_
  . rw [hend]
    exact le_trans hc hrange
  . exact hc

theorem ChainInv.commit (hinv : ChainInv history header) (hadmissible : Admissible history csn access)
    : ChainInv (.commit csn access :: history) ((KeyEvent.commit csn access).exec header) := by
  apply hinv.of_chained
  have hstate := hinv.state
  have hlater := hadmissible.later
  have hfits := hadmissible.fits
  generalize lastCommit history = last at hstate hlater hfits
  cases hstate with
  | new hdirty hnodes =>
    cases hfits with
    | insert htype hupgrade =>
      obtain ⟨p, hrow⟩ := hadmissible.row htype
      rw [exec_insert hadmissible.unique htype hupgrade, Access.leaves, if_pos htype, hrow]
      refine Chained.push [] hrow hadmissible.inRange rfl rfl (append_nil _).symm Descending.nil ?_ ?_ ?_ ?_
      . simp
      . exact le_refl _
      . simp
      . intro c _
        rw [hnodes]
  | committed top older hdirty hnodes hstart hend =>
    rename_i last left
    have hlast : last < csn := hlater (last, left) rfl
    have hstart : top.startCsn ≤ csn := by omega
    have hstarted := hinv.started
    have hdecreasing := hinv.decreasing
    have hfirst : header.startCsn ≤ csn := by
      have := hstarted top (by rw [hnodes]; exact mem_cons_self)
      omega
    cases hfits with
    | delete htype p =>
      obtain ⟨hclosed, hover, hbefore⟩ :=
        closed_spec (hnodes ▸ hdecreasing) hstart (by simpa [EndsAt] using hend) hadmissible.inRange
      rw [exec_delete hadmissible.unique hinv.order htype, Access.leaves, if_neg (by rw [htype]; decide),
        hnodes]
      refine ⟨rfl, hclosed, ?_, .committed _ older hdirty rfl hstart (by simp [EndsAt]), ?_, ?_⟩
      . rw [hnodes] at hstarted
        exact forall_mem_cons.2 ⟨(forall_mem_cons.1 hstarted).1, (forall_mem_cons.1 hstarted).2⟩
      . rw [hnodes]
        exact hbefore
      . intro c hc _
        exact headerAt_of_endCsn_lt (fun node hnode => lt_of_le_of_lt (hover node hnode) hc)
    | reinsert htype hupgrade hdeleted =>
      obtain ⟨p, hrow⟩ := hadmissible.row htype
      have hend : top.endCsn = last := by simpa [EndsAt] using hend
      have hover : ∀ node ∈ header.nodes, node.endCsn ≤ csn := by
        intro node hnode
        rw [hnodes] at hnode hdecreasing
        exact le_trans (hdecreasing.finish_le node hnode) (by omega)
      rw [exec_reinsert hadmissible.unique htype hupgrade hdeleted, Access.leaves, if_pos htype, hrow]
      exact Chained.push header.nodes hrow hadmissible.inRange rfl hdirty rfl hdecreasing
        hover hfirst hstarted
        (fun c _ => rfl)
    | replace htype hupgrade hdeleted q =>
      obtain ⟨p, hrow⟩ := hadmissible.row htype
      obtain ⟨hclosed, hover, hbefore⟩ :=
        closed_spec (hnodes ▸ hdecreasing) hstart (by simpa [EndsAt] using hend) hadmissible.inRange
      rw [exec_replace hadmissible.unique htype hupgrade hdeleted, Access.leaves, if_pos htype, hrow, hnodes]
      refine Chained.push _ hrow hadmissible.inRange rfl hdirty rfl hclosed hover hfirst ?_ ?_
      . rw [hnodes] at hstarted
        exact forall_mem_cons.2 ⟨(forall_mem_cons.1 hstarted).1, (forall_mem_cons.1 hstarted).2⟩
      . rw [hnodes]
        exact hbefore

theorem KeyHistory.chainInv (h : KeyHistory history header) : ChainInv history header := by
  induction h with
  | new => exact .new
  | commit hhistory hadmissible ih => exact ih.commit hadmissible
  | detach snapshot hhistory ih => exact ih.detach snapshot

variable (hinv : ChainInv history header)
include hinv

theorem ChainInv.versionAt_eq_none (h : header.dirty = true ∨ csn ≤ header.startCsn)
    : versionAt PrimarySentinelNode.startCsn PrimarySentinelNode.endCsn csn header.nodes = none := by
  rcases h with hdirty | hphantom
  . have hstate := hinv.state
    generalize lastCommit history = last at hstate
    cases hstate with
    | new _ hnodes => rw [hnodes]; rfl
    | committed top older hclean => rw [hclean] at hdirty; cases hdirty
  . exact versionAt_eq_none_of_le_start (fun node hnode => le_trans hphantom (hinv.started node hnode))

theorem ChainInv.getVisiblePrimaryHeader_eq (csn : Nat)
    : header.getVisiblePrimaryHeader csn = Sentinel.headerAt csn header.nodes := by
  rw [Sentinel.getVisiblePrimaryHeader]
  split
  . next h => rw [Sentinel.headerAt, valueAt, hinv.versionAt_eq_none h, Option.map_none]
  . exact Sentinel.getVisiblePrimaryHeader_go_eq csn header.nodes

theorem ChainInv.getNodeByCsn_eq (csn : Nat)
    : header.getNodeByCsn csn
        = versionAt PrimarySentinelNode.startCsn PrimarySentinelNode.endCsn csn header.nodes := by
  rw [Sentinel.getNodeByCsn]
  split
  . next h => rw [hinv.versionAt_eq_none h]
  . exact Sentinel.getNodeByCsn_go_eq csn hinv.decreasing

theorem ChainInv.versionAt_detach {snapshot : Nat} (hlater : snapshot < csn)
    : versionAt PrimarySentinelNode.startCsn PrimarySentinelNode.endCsn csn
        ((KeyEvent.detach snapshot : KeyEvent S D).exec header).nodes
          = versionAt PrimarySentinelNode.startCsn PrimarySentinelNode.endCsn csn header.nodes := by
  have hdetached := Sentinel.detachUnusedNodes_detached snapshot hinv.decreasing
  have hcut : ∀ node ∈ (Sentinel.detachUnusedNodes.go snapshot header.nodes).2, node.endCsn < csn :=
    fun node hnode => lt_of_le_of_lt (hdetached node hnode) hlater
  have hkept := @versionAt_append_of_finish_lt _ _ _ PrimarySentinelNode.startCsn _ _ _
    (Sentinel.detachUnusedNodes.go snapshot header.nodes).1 hcut
  rw [Sentinel.detachUnusedNodes_append] at hkept
  exact hkept.symm

end Invariant

-- The chain answers for every snapshot that is later than what was trimmed, and never wrongly.
theorem uniqueChain_correct {history : List (KeyEvent S D)} {header : Sentinel S T D}
    (h : KeyHistory history header)
    : header.nodes.Pairwise (fun newer older => older.endCsn ≤ newer.startCsn)
        ∧ header.nodes.Pairwise (fun newer older =>
            ∀ csn, ¬((newer.startCsn < csn ∧ csn ≤ newer.endCsn) ∧ older.startCsn < csn ∧ csn ≤ older.endCsn))
        ∧ ∀ csn ≤ sentinelInitCsn,
            (header.getNodeByCsn csn).map PrimarySentinelNode.primarySentinel =
              header.getVisiblePrimaryHeader csn
              ∧ (header.getVisiblePrimaryHeader csn = none
                  ∨ header.getVisiblePrimaryHeader csn = currentAt csn history)
              ∧ (Untrimmed history csn → header.getVisiblePrimaryHeader csn = currentAt csn history)
              ∧ ∀ snapshot < csn,
                  (header.detachUnusedNodes snapshot).1.getVisiblePrimaryHeader csn
                      = header.getVisiblePrimaryHeader csn
                    ∧ (header.detachUnusedNodes snapshot).1.getNodeByCsn csn = header.getNodeByCsn csn := by
  have hinv := h.chainInv
  refine ⟨hinv.decreasing.pairwise, hinv.decreasing.disjoint, ?_⟩
  intro csn hcsn
  rw [hinv.getVisiblePrimaryHeader_eq, hinv.getNodeByCsn_eq]
  refine ⟨rfl, hinv.stale csn hcsn, hinv.answers csn hcsn, ?_⟩
  intro snapshot hlater
  have htrimmed := hinv.detach snapshot
  have hsame := hinv.versionAt_detach hlater
  constructor
  . refine (htrimmed.getVisiblePrimaryHeader_eq csn).trans ?_
    rw [Sentinel.headerAt, Sentinel.headerAt, valueAt, valueAt, hsame]
  . exact (htrimmed.getNodeByCsn_eq csn).trans hsame

def insertOf (p : Nat) (isUpgradeInsert : Bool) : Access Nat Unit where
  origSentinel := 0
  type := .INS
  params := { isPrimarySentinel := false, isUniqueIndex := true, isUpgradeInsert }
  localInsertRow := [⟨0, .row, p, ()⟩]

def trimmedHistory : List (KeyEvent Nat Unit) :=
  [.detach 10, .commit 10 (insertOf 2 true), .commit 5 (insertOf 1 false)]

def trimmedHeader : Sentinel Nat Nat Unit :=
  trimmedHistory.foldr (fun event header => event.exec header) Sentinel.newSecondaryUnique

theorem keyHistory_trimmed : KeyHistory trimmedHistory trimmedHeader := by
  apply KeyHistory.detach
  apply KeyHistory.commit
  . apply KeyHistory.commit KeyHistory.new
    exact ⟨rfl, fun _ => ⟨1, rfl⟩, .insert rfl rfl, by simp [lastCommit], by decide⟩
  . exact ⟨rfl, fun _ => ⟨2, rfl⟩, .replace rfl rfl rfl 1, by simp [lastCommit], by decide⟩

theorem uniqueChain_correct_trimmed : trimmedHeader.getVisiblePrimaryHeader 11 = some 2 := by
  apply ((uniqueChain_correct keyHistory_trimmed).2.2 11 (by decide)).2.2.1
  simp [Untrimmed, trimmedHistory]

theorem not_uniqueChain_correct_trimmed
    : ¬∀ (history : List (KeyEvent Nat Unit)) (header : Sentinel Nat Nat Unit), KeyHistory history header →
        ∀ csn ≤ sentinelInitCsn, header.getVisiblePrimaryHeader csn = currentAt csn history := by
  intro h
  have hcurrent := h _ _ keyHistory_trimmed 8 (by decide)
  revert hcurrent
  decide

end Mot.Occ

import OpenGauss.Lib.Interleaving
import OpenGauss.Replication.SyncRep.Impl

/-!
This module contains the walsenders that advance the synced positions at the same time.
-/

open List Function

namespace SyncRep

def compareExchange (ptr expected newval : Nat) : Bool × Nat × Nat :=
  if ptr = expected then (true, expected, newval) else (false, ptr, ptr)

inductive Phase where
  | read
  | exchange (oldVal : Nat)
  | finished
  deriving DecidableEq

-- A walsender in `AtomicUpdateIfGreater` for the first of its calls. The last two fields only record, by the
-- number of calls left, the calls that set the result and those whose exchange stored their value.
structure Updater (Cell : Type) where
  calls : List (Cell × Nat)
  phase : Phase
  updateResult : Bool
  woken : Bool
  setBy : List Nat
  storedBy : List Nat

structure Updaters (Cell Id : Type) where
  cells : Cell → Nat
  updater : Id → Updater Cell

namespace Updaters

variable {Cell Id : Type} [DecidableEq Cell] [DecidableEq Id]

def atomicUpdateIfGreater (cell : Cell) (newVal : Nat) (rest : List (Cell × Nat)) (cells : Cell → Nat)
    (u : Updater Cell) : (Cell → Nat) × Updater Cell :=
  match u.phase with
  | .read =>
    if cells cell ≥ newVal then
      (cells, { u with calls := rest })
    else
      (cells, { u with phase := .exchange (cells cell) })
  | .exchange oldVal =>
    let (currentVal, oldVal, ptr) := compareExchange (cells cell) oldVal newVal
    let u := { u with
      phase := .read
      storedBy := if currentVal then rest.length :: u.storedBy else u.storedBy }
    (Function.update cells cell ptr,
      -- The result of the exchange is compared as if it were the old value.
      if currentVal.toNat = oldVal then
        { u with calls := rest, updateResult := true, setBy := rest.length :: u.setBy }
      else
        u)
  | .finished => (cells, u)

def stepUpdater (cells : Cell → Nat) (u : Updater Cell) : (Cell → Nat) × Updater Cell :=
  match u.calls with
  | [] => (cells, { u with phase := .finished, woken := u.woken || (u.phase ≠ .finished && u.updateResult) })
  | (cell, newVal) :: rest => atomicUpdateIfGreater cell newVal rest cells u

def step (s : Updaters Cell Id) (id : Id) : Updaters Cell Id where
  cells := (stepUpdater s.cells (s.updater id)).1
  updater := Function.update s.updater id (stepUpdater s.cells (s.updater id)).2

def releaseWaiters (receivePtr writePtr flushPtr replayPtr : Nat) : List (WaitMode × Nat) :=
  [(.receive, receivePtr), (.write, writePtr), (.flush, flushPtr), (.apply, replayPtr)]

def Updater.init (calls : List (Cell × Nat)) : Updater Cell where
  calls
  phase := .read
  updateResult := false
  woken := false
  setBy := []
  storedBy := []

def Initial (s : Updaters Cell Id) : Prop :=
  ∀ id, s.updater id = Updater.init (s.updater id).calls

def Offered (s : Updaters Cell Id) (cell : Cell) (val : Nat) : Prop :=
  val = s.cells cell ∨ ∃ id, (cell, val) ∈ (s.updater id).calls

structure Correct (s₀ s : Updaters Cell Id) : Prop where
  grows : ∀ id cell, s.cells cell ≤ (s.step id).cells cell
  terminates : ∀ id, ∃ n, (((fun s => step s id)^[n] s).updater id).phase = .finished
  maximum : (∀ id, (s.updater id).calls = []) →
    ∀ cell, s₀.Offered cell (s.cells cell) ∧ ∀ val, s₀.Offered cell val → val ≤ s.cells cell
  result : ∀ id, (s.updater id).setBy = (s.updater id).storedBy
  wakes : ∀ id, (s.updater id).phase = .finished → (s.updater id).storedBy ≠ [] → (s.updater id).woken = true

def ReplacesOne (s : Updaters Cell Id) (id : Id) : Prop :=
  ∀ cell newVal rest, (s.updater id).calls = (cell, newVal) :: rest →
    (s.updater id).phase = .exchange (s.cells cell) → s.cells cell = 1

def ReplacingOne (s : Updaters Cell Id) (id : Id) (s' : Updaters Cell Id) : Prop :=
  s.ReplacesOne id ∧ s' = s.step id

/-! ### One step -/

variable (s : Updaters Cell Id)

@[simp]
theorem step_self (id : Id) : (s.step id).updater id = (stepUpdater s.cells (s.updater id)).2 :=
  update_self ..

theorem step_of_ne {id other : Id} (hne : other ≠ id)
    : (s.step id).updater other = s.updater other :=
  update_of_ne hne ..

@[simp]
theorem step_cells (id : Id) : (s.step id).cells = (stepUpdater s.cells (s.updater id)).1 :=
  rfl

theorem compareExchange_self (val newval : Nat) : compareExchange val val newval = (true, val, newval) :=
  if_pos rfl

theorem compareExchange_of_ne {ptr expected : Nat} (newval : Nat) (hne : ptr ≠ expected)
    : compareExchange ptr expected newval = (false, ptr, ptr) :=
  if_neg hne

inductive Stepped (cells : Cell → Nat) (u : Updater Cell) : (Cell → Nat) × Updater Cell → Prop where
  | done (hcalls : u.calls = [])
    : Stepped cells u (cells,
        { u with phase := .finished, woken := u.woken || (u.phase ≠ .finished && u.updateResult) })
  | finished (hphase : u.phase = .finished) (hcalls : u.calls ≠ []) : Stepped cells u (cells, u)
  | exit (cell : Cell) (newVal : Nat) (rest : List (Cell × Nat)) (hcalls : u.calls = (cell, newVal) :: rest)
    (hphase : u.phase = .read) (hle : newVal ≤ cells cell) : Stepped cells u (cells, { u with calls := rest })
  | read (cell : Cell) (newVal : Nat) (rest : List (Cell × Nat)) (hcalls : u.calls = (cell, newVal) :: rest)
    (hphase : u.phase = .read) (hlt : cells cell < newVal)
    : Stepped cells u (cells, { u with phase := .exchange (cells cell) })
  | stored (cell : Cell) (newVal : Nat) (rest : List (Cell × Nat))
    (hcalls : u.calls = (cell, newVal) :: rest) (hphase : u.phase = .exchange (cells cell))
    (hone : cells cell = 1)
    : Stepped cells u (Function.update cells cell newVal,
        { u with
          calls := rest
          phase := .read
          updateResult := true
          setBy := rest.length :: u.setBy
          storedBy := rest.length :: u.storedBy })
  | storedUnseen (cell : Cell) (newVal : Nat) (rest : List (Cell × Nat))
    (hcalls : u.calls = (cell, newVal) :: rest) (hphase : u.phase = .exchange (cells cell))
    (hone : cells cell ≠ 1)
    : Stepped cells u (Function.update cells cell newVal,
        { u with phase := .read, storedBy := rest.length :: u.storedBy })
  | failed (cell : Cell) (newVal : Nat) (rest : List (Cell × Nat)) (oldVal : Nat)
    (hcalls : u.calls = (cell, newVal) :: rest) (hphase : u.phase = .exchange oldVal)
    (hne : cells cell ≠ oldVal) (hzero : cells cell ≠ 0) : Stepped cells u (cells, { u with phase := .read })
  | failedUnseen (cell : Cell) (newVal : Nat) (rest : List (Cell × Nat)) (oldVal : Nat)
    (hcalls : u.calls = (cell, newVal) :: rest) (hphase : u.phase = .exchange oldVal)
    (hne : cells cell ≠ oldVal) (hzero : cells cell = 0)
    : Stepped cells u (cells,
        { u with calls := rest, phase := .read, updateResult := true, setBy := rest.length :: u.setBy })

theorem stepUpdater_stepped (cells : Cell → Nat) (u : Updater Cell)
    : Stepped cells u (stepUpdater cells u) := by
  rcases u with ⟨calls, phase, updateResult, woken, setBy, storedBy⟩
  match calls, phase with
  | [], phase => exact Stepped.done rfl
  | (cell, newVal) :: rest, .read =>
    unfold stepUpdater atomicUpdateIfGreater
    dsimp only
    by_cases hle : newVal ≤ cells cell
    . rw [if_pos hle]
      exact Stepped.exit cell newVal rest rfl rfl hle
    . rw [if_neg hle]
      exact Stepped.read cell newVal rest rfl rfl (by omega)
  | (cell, newVal) :: rest, .exchange oldVal =>
    unfold stepUpdater atomicUpdateIfGreater
    dsimp only
    by_cases heq : cells cell = oldVal
    . subst heq
      rw [compareExchange_self]
      by_cases hone : cells cell = 1
      . have hstepped := Stepped.stored cell newVal rest
          (u := ⟨_, _, updateResult, woken, setBy, storedBy⟩) rfl rfl hone
        simpa [hone] using hstepped
      . have hstepped := Stepped.storedUnseen cell newVal rest
          (u := ⟨_, _, updateResult, woken, setBy, storedBy⟩) rfl rfl hone
        simpa [Ne.symm hone] using hstepped
    . rw [compareExchange_of_ne newVal heq]
      dsimp only
      rw [update_eq_self]
      by_cases hzero : cells cell = 0
      . rw [if_pos (by rw [hzero]; rfl)]
        exact Stepped.failedUnseen cell newVal rest oldVal rfl rfl heq hzero
      . rw [if_neg (by simpa using Ne.symm hzero)]
        exact Stepped.failed cell newVal rest oldVal rfl rfl heq hzero
  | call :: rest, .finished => exact Stepped.finished rfl (cons_ne_nil _ _)

/-! ### Termination -/

def Finishes (s : Updaters Cell Id) (id : Id) : Prop :=
  ∃ n, (((fun s => step s id)^[n] s).updater id).phase = .finished

variable {s : Updaters Cell Id}

theorem Finishes.of_step {id : Id} (h : (s.step id).Finishes id) : s.Finishes id := by
  rcases h with ⟨n, hn⟩
  exact ⟨n + 1, hn⟩

section Finishes

variable {s : Updaters Cell Id} {id : Id} (cell : Cell) (newVal : Nat) {rest : List (Cell × Nat)}

section

variable (hrest : ∀ s : Updaters Cell Id, (s.updater id).calls = rest → (s.updater id).phase = .read → s.Finishes id)
include hrest

variable (hcalls : (s.updater id).calls = (cell, newVal) :: rest)
include hcalls

theorem finishes_exit (hphase : (s.updater id).phase = .read)
    (hle : newVal ≤ s.cells cell) : s.Finishes id := by
  apply Finishes.of_step
  apply hrest
  . simp [stepUpdater, hcalls, atomicUpdateIfGreater, hphase, hle]
  . simp [stepUpdater, hcalls, atomicUpdateIfGreater, hphase, hle]

theorem finishes_exchange (hphase : (s.updater id).phase = .exchange (s.cells cell)) : s.Finishes id := by
  apply Finishes.of_step
  by_cases hone : s.cells cell = 1
  . apply hrest
    . simp [stepUpdater, hcalls, atomicUpdateIfGreater, hphase, compareExchange, hone]
    . simp [stepUpdater, hcalls, atomicUpdateIfGreater, hphase, compareExchange, hone]
  . apply finishes_exit cell newVal hrest
    . simp [stepUpdater, hcalls, atomicUpdateIfGreater, hphase, compareExchange, Ne.symm hone]
    . simp [stepUpdater, hcalls, atomicUpdateIfGreater, hphase, compareExchange, Ne.symm hone]
    . simp [stepUpdater, hcalls, atomicUpdateIfGreater, hphase, compareExchange]

theorem finishes_read (hphase : (s.updater id).phase = .read) : s.Finishes id := by
  by_cases hle : newVal ≤ s.cells cell
  . exact finishes_exit cell newVal hrest hcalls hphase hle
  . apply Finishes.of_step
    apply finishes_exchange cell newVal hrest
    . simp [stepUpdater, hcalls, atomicUpdateIfGreater, hphase, hle]
    . simp [stepUpdater, hcalls, atomicUpdateIfGreater, hphase, hle]

end

theorem finishes_calls (id : Id) (calls : List (Cell × Nat))
    : ∀ s : Updaters Cell Id, (s.updater id).calls = calls → (s.updater id).phase = .read → s.Finishes id := by
  induction calls with
  | nil =>
    intro s hcalls _
    exact ⟨1, by simp [stepUpdater, hcalls]⟩
  | cons call rest ih =>
    intro s hcalls hphase
    exact finishes_read call.1 call.2 ih hcalls hphase

end Finishes

theorem finishes (id : Id) : s.Finishes id := by
  cases hphase : (s.updater id).phase with
  | finished => exact ⟨0, hphase⟩
  | read => exact finishes_calls id _ s rfl hphase
  | exchange oldVal =>
    apply Finishes.of_step
    cases hcalls : (s.updater id).calls with
    | nil => exact ⟨0, by simp [stepUpdater, hcalls]⟩
    | cons call rest =>
      apply finishes_calls id _ _ rfl
      simp only [step_self, stepUpdater, hcalls, atomicUpdateIfGreater, hphase]
      split
      . rfl
      . rfl

/-! ### Runs -/

structure Sound (s₀ s : Updaters Cell Id) : Prop where
  phase : ∀ id oldVal, (s.updater id).phase = .exchange oldVal → ∀ call ∈ (s.updater id).calls.head?,
    oldVal < call.2 ∧ oldVal ≤ s.cells call.1
  finished : ∀ id, (s.updater id).phase = .finished →
    (s.updater id).calls = [] ∧ (s.updater id).woken = (s.updater id).updateResult
  running : ∀ id, (s.updater id).phase ≠ .finished → (s.updater id).woken = false
  set : ∀ id, (s.updater id).setBy ≠ [] → (s.updater id).updateResult = true
  lower : ∀ cell, s₀.cells cell ≤ s.cells cell
  upper : ∀ cell, s₀.Offered cell (s.cells cell)
  calls : ∀ id, (s.updater id).calls <:+ (s₀.updater id).calls
  offered : ∀ id, ∀ call ∈ (s₀.updater id).calls, call ∈ (s.updater id).calls ∨ call.2 ≤ s.cells call.1

omit [DecidableEq Cell] [DecidableEq Id] in
theorem Initial.sound (h : s.Initial) : Sound s s where
  phase id oldVal hphase := by
    rw [h id] at hphase
    simp [Updater.init] at hphase
  finished id hphase := by
    rw [h id] at hphase
    simp [Updater.init] at hphase
  running id _ := by
    rw [h id]
    rfl
  set id hset := by
    rw [h id] at hset
    simp [Updater.init] at hset
  lower _ := Nat.le_refl _
  upper _ := Or.inl rfl
  calls _ := suffix_refl _
  offered _ _ hmem := Or.inl hmem

variable {s₀ : Updaters Cell Id}

section

variable (h : Sound s₀ s)
include h

theorem Sound.grows (id : Id) (cell : Cell) : s.cells cell ≤ (s.step id).cells cell := by
  have hstepped := stepUpdater_stepped s.cells (s.updater id)
  rw [step_cells]
  generalize stepUpdater s.cells (s.updater id) = r at hstepped
  cases hstepped with
  | stored c newVal rest hcalls hphase =>
    have hlt := (h.phase id _ hphase (c, newVal) (by simp [hcalls])).left
    by_cases hc : cell = c
    . subst hc
      simpa using Nat.le_of_lt hlt
    . simp [update_of_ne hc]
  | storedUnseen c newVal rest hcalls hphase =>
    have hlt := (h.phase id _ hphase (c, newVal) (by simp [hcalls])).left
    by_cases hc : cell = c
    . subst hc
      simpa using Nat.le_of_lt hlt
    . simp [update_of_ne hc]
  | _ => exact Nat.le_refl _

theorem Sound.upper_step (id : Id) (cell : Cell) : s₀.Offered cell ((s.step id).cells cell) := by
  have hstored : ∀ c newVal rest, (s.updater id).calls = (c, newVal) :: rest →
      s₀.Offered cell (Function.update s.cells c newVal cell) := by
    intro c newVal rest hcalls
    by_cases hc : cell = c
    . rw [hc, update_self]
      exact Or.inr ⟨id, (h.calls id).subset (by simp [hcalls])⟩
    . rw [update_of_ne hc]
      exact h.upper cell
  have hstepped := stepUpdater_stepped s.cells (s.updater id)
  rw [step_cells]
  generalize stepUpdater s.cells (s.updater id) = r at hstepped
  cases hstepped with
  | stored c newVal rest hcalls => exact hstored c newVal rest hcalls
  | storedUnseen c newVal rest hcalls => exact hstored c newVal rest hcalls
  | _ => exact h.upper cell

theorem Sound.self_step (id : Id)
    : let u := (s.step id).updater id
      (∀ oldVal, u.phase = .exchange oldVal → ∀ call ∈ u.calls.head?,
        oldVal < call.2 ∧ oldVal ≤ (s.step id).cells call.1)
      ∧ (u.phase = .finished → u.calls = [] ∧ u.woken = u.updateResult)
      ∧ (u.phase ≠ .finished → u.woken = false)
      ∧ (u.setBy ≠ [] → u.updateResult = true)
      ∧ u.calls <:+ (s.updater id).calls
      ∧ ∀ call ∈ (s.updater id).calls, call ∈ u.calls ∨ call.2 ≤ (s.step id).cells call.1 := by
  have hset := h.set id
  have hrunning := h.running id
  have hphase := h.phase id
  have hfinished := h.finished id
  have hstepped := stepUpdater_stepped s.cells (s.updater id)
  rw [step_self, step_cells]
  generalize stepUpdater s.cells (s.updater id) = r at hstepped
  cases hstepped with
  | done hcalls =>
    refine ⟨by simp, ?_, by simp, hset, suffix_refl _, fun _ hmem => Or.inl hmem⟩
    intro _
    refine ⟨hcalls, ?_⟩
    by_cases hfin : (s.updater id).phase = .finished
    . simp [hfin, (hfinished hfin).right]
    . simp [hfin, hrunning hfin]
  | finished hfin hcalls => exact absurd (hfinished hfin).left hcalls
  | exit cell newVal rest hcalls hread hle =>
    refine ⟨by simp [hread], by simp [hread], fun _ => hrunning (by simp [hread]), hset, ?_, ?_⟩
    . rw [hcalls]
      exact suffix_cons _ rest
    . intro call hmem
      rw [hcalls, mem_cons] at hmem
      rcases hmem with heq | hmem
      . rw [heq]
        exact Or.inr hle
      . exact Or.inl hmem
  | read cell newVal rest hcalls hread hlt =>
    refine ⟨?_, by simp, fun _ => hrunning (by simp [hread]), hset, suffix_refl _, fun _ hmem => Or.inl hmem⟩
    intro oldVal holdVal call hmem
    rw [hcalls, head?_cons, Option.mem_some_iff] at hmem
    rw [← hmem, ← Phase.exchange.inj holdVal]
    exact ⟨hlt, Nat.le_refl _⟩
  | stored cell newVal rest hcalls hex hone =>
    refine ⟨by simp, by simp, fun _ => hrunning (by simp [hex]), fun _ => rfl, ?_, ?_⟩
    . rw [hcalls]
      exact suffix_cons _ rest
    . intro call hmem
      rw [hcalls, mem_cons] at hmem
      rcases hmem with heq | hmem
      . rw [heq]
        exact Or.inr (by simp)
      . exact Or.inl hmem
  | storedUnseen cell newVal rest hcalls hex hone =>
    exact ⟨by simp, by simp, fun _ => hrunning (by simp [hex]), hset, suffix_refl _,
      fun _ hmem => Or.inl hmem⟩
  | failed cell newVal rest oldVal hcalls hex hne hzero =>
    exact ⟨by simp, by simp, fun _ => hrunning (by simp [hex]), hset, suffix_refl _,
      fun _ hmem => Or.inl hmem⟩
  | failedUnseen cell newVal rest oldVal hcalls hex hne hzero =>
    -- The value would have fallen since it was read.
    have hle := (hphase oldVal hex (cell, newVal) (by simp [hcalls])).right
    exact absurd (Nat.le_antisymm (by rw [hzero]; exact Nat.zero_le oldVal) hle) hne

theorem Sound.step (id : Id) : Sound s₀ (s.step id) := by
  have hself := h.self_step id
  have hother : ∀ other, other ≠ id → (s.step id).updater other = s.updater other :=
    fun other hne => step_of_ne s hne
  constructor
  . intro other oldVal hphase call hmem
    by_cases hne : other = id
    . subst hne
      exact hself.left oldVal hphase call hmem
    . rw [hother other hne] at hphase hmem
      have hbefore := h.phase other oldVal hphase call hmem
      exact ⟨hbefore.left, Nat.le_trans hbefore.right (h.grows id call.1)⟩
  . intro other hphase
    by_cases hne : other = id
    . subst hne
      exact hself.right.left hphase
    . rw [hother other hne] at hphase ⊢
      exact h.finished other hphase
  . intro other hphase
    by_cases hne : other = id
    . subst hne
      exact hself.right.right.left hphase
    . rw [hother other hne] at hphase ⊢
      exact h.running other hphase
  . intro other hset
    by_cases hne : other = id
    . subst hne
      exact hself.right.right.right.left hset
    . rw [hother other hne] at hset ⊢
      exact h.set other hset
  . intro cell
    exact Nat.le_trans (h.lower cell) (h.grows id cell)
  . exact h.upper_step id
  . intro other
    by_cases hne : other = id
    . subst hne
      exact hself.right.right.right.right.left.trans (h.calls other)
    . rw [hother other hne]
      exact h.calls other
  . intro other call hmem
    rcases h.offered other call hmem with hleft | hle
    . by_cases hne : other = id
      . subst hne
        exact hself.right.right.right.right.right call hleft
      . rw [hother other hne]
        exact Or.inl hleft
    . exact Or.inr (Nat.le_trans hle (h.grows id call.1))

theorem Sound.setBy_step (id : Id) (hsame : (s.updater id).setBy = (s.updater id).storedBy)
    : ((s.step id).updater id).setBy = ((s.step id).updater id).storedBy ↔ s.ReplacesOne id := by
  unfold ReplacesOne
  have hphase := h.phase id
  have hstepped := stepUpdater_stepped s.cells (s.updater id)
  rw [step_self]
  generalize stepUpdater s.cells (s.updater id) = r at hstepped
  cases hstepped with
  | done hcalls => simp [hsame, hcalls]
  | finished hfin hcalls => simp [hsame, hfin]
  | exit cell newVal rest hcalls hread hle => simp [hsame, hread]
  | read cell newVal rest hcalls hread hlt => simp [hsame, hread]
  | stored cell newVal rest hcalls hex hone => simp [hsame, hcalls, hex, hone]
  | storedUnseen cell newVal rest hcalls hex hone =>
    simp only [hsame]
    constructor
    . intro heq
      exact absurd heq.symm (cons_ne_self _ _)
    . intro hall
      exact absurd (hall cell newVal rest hcalls hex) hone
  | failed cell newVal rest oldVal hcalls hex hne hzero =>
    simp only [hsame, true_iff]
    intro c n r hcalls' hex'
    rw [hcalls, List.cons.injEq, Prod.mk.injEq] at hcalls'
    rw [hex, Phase.exchange.injEq, ← hcalls'.left.left] at hex'
    exact absurd hex'.symm hne
  | failedUnseen cell newVal rest oldVal hcalls hex hne hzero =>
    have hle := (hphase oldVal hex (cell, newVal) (by simp [hcalls])).right
    exact absurd (Nat.le_antisymm (by rw [hzero]; exact Nat.zero_le oldVal) hle) hne

theorem Sound.correct (hresult : ∀ id, (s.updater id).setBy = (s.updater id).storedBy) : Correct s₀ s where
  grows := h.grows
  terminates := s.finishes
  maximum hcalls cell := by
    refine ⟨h.upper cell, ?_⟩
    rintro val (heq | ⟨id, hmem⟩)
    . rw [heq]
      exact h.lower cell
    . rcases h.offered id (cell, val) hmem with hleft | hle
      . rw [hcalls id] at hleft
        exact absurd hleft (by simp)
      . exact hle
  result := hresult
  wakes id hfinished hstored := by
    rw [(h.finished id hfinished).right]
    exact h.set id (by rw [hresult id]; exact hstored)

end

/--
A run of which every exchange that stores a value replaces a 1 is correct, and any other exchange breaks it.
-/
theorem correct_iff_replacesOne (s₀ s : Updaters Cell Id) (hinitial : s₀.Initial)
    (hrun : Interleaving.Run ReplacingOne s₀ s) (id : Id)
    : Correct s₀ s ∧ (Correct s₀ (s.step id) ↔ s.ReplacesOne id) := by
  have hinvariant : Sound s₀ s ∧ ∀ id, (s.updater id).setBy = (s.updater id).storedBy := by
    apply Interleaving.Run.invariant
      (I := fun s => Sound s₀ s ∧ ∀ id, (s.updater id).setBy = (s.updater id).storedBy) ?_ hrun
    . refine ⟨hinitial.sound, ?_⟩
      intro id
      rw [hinitial id]
      rfl
    . rintro s id s' ⟨hsound, hsame⟩ ⟨hone, rfl⟩
      refine ⟨hsound.step id, ?_⟩
      intro other
      by_cases hne : other = id
      . subst hne
        exact (hsound.setBy_step other (hsame other)).mpr hone
      . rw [step_of_ne s hne]
        exact hsame other
  rcases hinvariant with ⟨hsound, hsame⟩
  refine ⟨hsound.correct hsame, ?_⟩
  rw [← hsound.setBy_step id (hsame id)]
  constructor
  . intro hcorrect
    exact hcorrect.result id
  . intro hself
    apply (hsound.step id).correct
    intro other
    by_cases hne : other = id
    . subst hne
      exact hself
    . rw [step_of_ne s hne]
      exact hsame other

-- Two walsenders raise one position.
def fromOne : Updaters Unit Bool where
  cells _ := 1
  updater id := Updater.init [((), if id then 300 else 200)]

-- The second walsender read 1 before the first one stored 200, so its first exchange fails.
theorem correct_iff_replacesOne_fromOne
    : let s := (((fromOne.step false).step true).step false).step true
      s.cells () = 200 ∧ (s.updater true).calls = [((), 300)] ∧ Correct fromOne s
        ∧ (Correct fromOne (s.step true) ↔ s.ReplacesOne true) := by
  have hread : fromOne.ReplacesOne false := fun _ _ _ _ _ => rfl
  have hread' : (fromOne.step false).ReplacesOne true := fun _ _ _ _ _ => rfl
  have hstore : ((fromOne.step false).step true).ReplacesOne false := fun _ _ _ _ _ => rfl
  have hfail : (((fromOne.step false).step true).step false).ReplacesOne true := by
    intro cell newVal rest _ hphase
    cases hphase
  have hboth : Interleaving.Run ReplacingOne fromOne ((fromOne.step false).step true) :=
    (Interleaving.Run.single false ⟨hread, rfl⟩).step true ⟨hread', rfl⟩
  have hrun := (hboth.step false ⟨hstore, rfl⟩).step true ⟨hfail, rfl⟩
  exact ⟨rfl, rfl, correct_iff_replacesOne fromOne _ (fun _ => rfl) hrun true⟩

def advancing : Updaters WaitMode Unit where
  cells _ := 100
  updater _ := Updater.init (releaseWaiters 200 200 200 200)

theorem advancing_not_woken
    : let s := (fun s => step s ())^[13] advancing
      (s.updater ()).phase = .finished ∧ (s.updater ()).storedBy = [0, 1, 2, 3] ∧ s.cells .flush = 200
        ∧ (s.updater ()).woken = false ∧ ¬ Correct advancing s := by
  refine ⟨rfl, rfl, rfl, rfl, ?_⟩
  intro hcorrect
  exact absurd (hcorrect.wakes () rfl (by decide)) (by decide)

end Updaters

end SyncRep

import Mathlib.Order.Basic

/-!
This module contains the runs of a system whose threads take turns.
-/

namespace Interleaving

variable {S T : Type*}

inductive Run (Step : S → T → S → Prop) : S → S → Prop
  | refl (s : S) : Run Step s s
  | step {s₀ s s' : S} (t : T) (hrun : Run Step s₀ s) (hstep : Step s t s') : Run Step s₀ s'

namespace Run

variable {Step : S → T → S → Prop} {s s' s'' : S}

theorem single (t : T) (h : Step s t s') : Run Step s s' := Run.step t (Run.refl s) h

theorem trans (h : Run Step s s') (h' : Run Step s' s'') : Run Step s s'' := by
  induction h' with
  | refl => exact h
  | step t hrun hstep ih => exact Run.step t ih hstep

theorem invariant {I : S → Prop} (hkeep : ∀ s t s', I s → Step s t s' → I s') (h : Run Step s s') (hs : I s)
    : I s' := by
  induction h with
  | refl => exact hs
  | step t hrun hstep ih => exact hkeep _ t _ ih hstep

theorem monotone {α : Type*} [Preorder α] {I : S → Prop} {f : S → α}
    (hkeep : ∀ s t s', I s → Step s t s' → I s') (hle : ∀ s t s', I s → Step s t s' → f s ≤ f s')
    (h : Run Step s s') (hs : I s)
    : f s ≤ f s' := by
  induction h with
  | refl => exact le_refl _
  | step t hrun hstep ih => exact le_trans ih (hle _ t _ (hrun.invariant hkeep hs) hstep)

end Run

end Interleaving

import Mathlib

/-!
# Runs of a transition function

A system is a state and a function `step` that takes an event, or refuses it. A run is any sequence
of events the function takes, so a statement about every reachable state is one about every order of
events. `Reachable` also carries a condition on the steps of the run, for statements that hold of
the runs in which every step meets it.
-/

namespace Transition

variable {σ ε : Type}

/-- The states reached by steps that meet a condition. -/
inductive Reachable (step : σ → ε → Option σ) (ok : σ → ε → Bool) (init : σ) : σ → Prop where
  | init : Reachable step ok init init
  | step {s s' : σ} {e : ε} : Reachable step ok init s → ok s e = true → step s e = some s' →
      Reachable step ok init s'

/-- No condition on the steps. -/
def anyStep (_ : σ) (_ : ε) : Bool := true

variable {step : σ → ε → Option σ} {ok : σ → ε → Bool} {init : σ}

/-- **The invariant rule.** -/
theorem Reachable.invariant {I : σ → Prop} (hinit : I init)
    (hstep : ∀ s s' e, I s → ok s e = true → step s e = some s' → I s') {s : σ}
    (h : Reachable step ok init s) : I s := by
  induction h with
  | init => exact hinit
  | step _ hok hs ih => exact hstep _ _ _ ih hok hs

/-- Without the condition there are at least as many runs. -/
theorem Reachable.anyStep {s : σ} (h : Reachable step ok init s) :
    Reachable step Transition.anyStep init s := by
  induction h with
  | init => exact .init
  | step _ _ hs ih => exact .step ih rfl hs

variable (step ok) in
/-- A run, refused when a step is refused or does not meet the condition. -/
def run : σ → List ε → Option σ
  | s, [] => some s
  | s, e :: es => if ok s e then (step s e).bind fun s' ↦ run s' es else none

theorem Reachable.run {es : List ε} : ∀ {s s' : σ}, Reachable step ok init s →
    run step ok s es = some s' → Reachable step ok init s' := by
  induction es with
  | nil =>
    intro s s' hs h
    rw [Transition.run, Option.some.injEq] at h
    exact h ▸ hs
  | cons e es ih =>
    intro s s' hs h
    rw [Transition.run] at h
    split_ifs at h with hok
    obtain ⟨t, ht, h⟩ := Option.bind_eq_some_iff.mp h
    exact ih (.step hs hok ht) h

end Transition

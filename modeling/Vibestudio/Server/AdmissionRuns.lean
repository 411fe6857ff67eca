import Mathlib
import Vibestudio.Server.AdmissionOrder

/-!
# Runs of the admission registry

The results on every run of `AgentExecutionSessionRegistry`, from the empty registry on: what the maps say of each other
(`registry_coherent`), and how the callers that wait are served (`waiters_in_order`). Either fails in a run of its own.
`admit` throws after it has written, when a case has outlived its orchestrator (`busy_after_refusal`); and when it takes
away the expired fact of its runtime, it serves the array of the runtime before it has entered its own
(`admitted_over_another`).
-/

namespace Vibestudio.Server

open Js

namespace AgentExecutionSessionRegistry

variable {host : AdmissionHost} {s s' t : AgentExecutionSessionRegistry}

/-! ## What a discarded run leaves -/

/-- A runtime is admitted for a run by the call that entered the fact it has, and will have the fact back that this call
had found. -/
structure Entered (s : AgentExecutionSessionRegistry) (runtimeId run : JsString) (fact : ExecutionAdmissionFact)
    (o : AdmitResult) : Prop where
  mem : o ∈ s.results
  outcome : o.outcome = .enter fact (.ok ())
  forRuntime : o.input.executor.runtimeId = runtimeId
  forRun : o.input.executor.evalRunId = run
  byRuntime : s.indexes.byRuntime.get runtimeId = some fact
  prior : s.indexes.priorFactByActiveRuntime.get runtimeId = some o.retained

/-- The calls that have returned so far were sound, and each runtime that is admitted has been entered by one. -/
structure Admits (s : AgentExecutionSessionRegistry) : Prop where
  keyed : s.indexes.Keyed
  entered : (∀ o ∈ s.results, o.Sound) → ∀ runtimeId run, s.indexes.activeRunByRuntime.get runtimeId = some run →
    ∃ fact o, s.Entered runtimeId run fact o

theorem Entered.of_get {runtimeId run : JsString} {fact : ExecutionAdmissionFact} {o : AdmitResult}
    (h : s.Entered runtimeId run fact o) (hresults : o ∈ t.results)
    (hby : t.indexes.byRuntime.get runtimeId = s.indexes.byRuntime.get runtimeId)
    (hprior : t.indexes.priorFactByActiveRuntime.get runtimeId =
      s.indexes.priorFactByActiveRuntime.get runtimeId) : t.Entered runtimeId run fact o :=
  { h with mem := hresults, byRuntime := hby.trans h.byRuntime, prior := hprior.trans h.prior }

/-- What a runtime is admitted for, it was admitted for before, and its facts are as they were. -/
theorem Admits.of_get (h : Admits s) (hkeyed : t.indexes.Keyed) (hresults : t.results = s.results)
    (hget : ∀ runtimeId run, t.indexes.activeRunByRuntime.get runtimeId = some run →
      s.indexes.activeRunByRuntime.get runtimeId = some run ∧
      t.indexes.byRuntime.get runtimeId = s.indexes.byRuntime.get runtimeId ∧
      t.indexes.priorFactByActiveRuntime.get runtimeId = s.indexes.priorFactByActiveRuntime.get runtimeId) :
    Admits t := by
  refine ⟨hkeyed, fun hsound runtimeId run hactive ↦ ?_⟩
  rw [hresults] at hsound
  obtain ⟨hactive, hby, hprior⟩ := hget runtimeId run hactive
  obtain ⟨fact, o, hentered⟩ := h.entered hsound runtimeId run hactive
  exact ⟨fact, o, hentered.of_get (hresults ▸ hentered.mem) hby hprior⟩

theorem Admits.same (h : Admits s) (hindexes : t.indexes = s.indexes) (hresults : t.results = s.results) :
    Admits t := by
  apply h.of_get (hindexes ▸ h.keyed) hresults
  intro runtimeId run hactive
  rw [hindexes] at hactive ⊢
  exact ⟨hactive, rfl, rfl⟩

/-- **How the callers that wait are served.** Nobody is answered twice or lost, and nobody waits for a runtime that is
free. They are admitted in the order of their calls, in the runs in which no call of `admit` takes away the fact of a
runtime that others wait for. -/
theorem waiters_in_order (h : Transition.Reachable (step host) Transition.anyStep init s) :
    (s.settled.map Prod.fst).Nodup ∧
    (∀ waiter ∈ s.waiters, waiter ∈ s.settled.map Prod.fst ∨ waiter ∈ s.queue waiter.runtimeId) ∧
    (∀ runtimeId, s.queue runtimeId ≠ [] → (s.indexes.activeRunByRuntime.get runtimeId).isSome = true) ∧
    ((∀ c ∈ s.calls, c.Clear) → InOrder s) := by
  have hatRest := atRest_reachable h
  refine ⟨hatRest.sane.waits.once, fun waiter hmem ↦ ?_, fun runtimeId ↦ hatRest.nobodyStranded runtimeId List.not_mem_nil,
    fun hclear ↦ (hatRest.orderly hclear).inOrder⟩
  rcases hatRest.sane.waits.everyone waiter hmem with hsettled | ⟨a, ha⟩ | hserving
  · exact .inl hsettled
  · rw [queue_of_get (hatRest.sane.waits.own a waiter ha)]
    exact .inr ha
  · rw [hatRest.serving] at hserving
    exact absurd hserving List.not_mem_nil

/-! ## Runs of one runtime -/

instance (c : AdmitCall) : Decidable c.Clear :=
  decidable_of_iff (c.queued = [] ∨ c.before.lookup c.input.executor.runtimeId c.now = .absent ∨
      (c.before.lookup c.input.executor.runtimeId c.now).retained.isSome = true) <| by
    refine or_congr_right (or_congr_right ?_)
    rw [Option.isSome_iff_exists]
    refine exists_congr fun fact ↦ ⟨lookup_live_of_retained, fun hlive ↦ ?_⟩
    rw [hlive]
    rfl

instance (o : AdmitResult) : Decidable o.Sound := inferInstanceAs (Decidable (_ ∧ (_ → _)))

/-- The runtime `r` asks to be admitted for a run, under a test policy if there is one. -/
def evalInput (run : JsString) (testPolicy : Option AgentExecutionTestPolicy) (expiresAt : Option ℕ) :
    EvalAdmissionInput where
  admission :=
    { authorityOrigin := none
      admissionKey := run
      controllerRuntimeId := lit "controller"
      mode := if testPolicy = none then .interactive else .test
      ownerUser := lit "user"
      workspaceId := lit "workspace"
      contextId := lit "context"
      agentBinding := none
      taskRef := lit "task"
      taskAuthority := none
      executionImage := []
      executor := .eval ⟨lit "r", run, [], none⟩
      authorityPlanDigest := none
      mission := none
      parent := none
      attachedHost := none
      causalParent := none
      testPolicy }
  executor := ⟨lit "r", run, [], none⟩
  isEval := rfl
  expiresAt

/-- The clock reads `time` from the fifth reading on. -/
def lateHost (time : ℕ) : AdmissionHost where
  clock reading := if reading < 4 then 0 else time
  randomUUID n := List.replicate n 120

/-- `1` is admitted until the time 5, `2` and `3` wait for it, and it is closed. -/
def closing : List Event :=
  [.admitWhenAvailable (evalInput (lit "1") none (some 5)) none, .admitWhenAvailable (evalInput (lit "2") none none) none,
    .admitWhenAvailable (evalInput (lit "3") none none) none, .close (lit "r") none]

/-- A state of the run in which `1` is closed in time. -/
theorem exists_closing : ∃ s, Transition.Reachable (step (lateHost 1)) Transition.anyStep init s ∧
    (∀ c ∈ s.calls, c.Clear) ∧ (∀ o ∈ s.results, o.Sound) ∧
    s.indexes.activeRunByRuntime.get (lit "r") = some (lit "2") ∧ s.admittedTickets (lit "r") = [1] ∧
    s.pending (lit "r") = [2] := by
  obtain ⟨s, hs⟩ := Option.isSome_iff_exists.mp
    (by decide +kernel : (Transition.run (step (lateHost 1)) Transition.anyStep init closing).isSome = true)
  have hfacts : ((Transition.run (step (lateHost 1)) Transition.anyStep init closing).all fun s ↦
      decide ((∀ c ∈ s.calls, c.Clear) ∧ (∀ o ∈ s.results, o.Sound) ∧
        s.indexes.activeRunByRuntime.get (lit "r") = some (lit "2") ∧ s.admittedTickets (lit "r") = [1] ∧
        s.pending (lit "r") = [2])) = true := by
    decide +kernel
  rw [hs, Option.all_some, decide_eq_true_iff] at hfacts
  exact ⟨s, Transition.Reachable.init.run hs, hfacts⟩

theorem waiters_in_order_closing :
    ∃ s, s.admittedTickets (lit "r") = [1] ∧ s.pending (lit "r") = [2] ∧ InOrder s := by
  obtain ⟨s, hreachable, hclear, -, -, hadmitted, hpending⟩ := exists_closing
  exact ⟨s, hadmitted, hpending, (waiters_in_order hreachable).2.2.2 hclear⟩

/-- When `1` has expired before it is closed, the call that serves `2` serves `3` on its way, and `2` is admitted over
`3`. -/
theorem admitted_over_another : ¬∀ (host : AdmissionHost) (s : AgentExecutionSessionRegistry),
    Transition.Reachable (step host) Transition.anyStep init s → InOrder s := by
  intro h
  obtain ⟨s, hs⟩ := Option.isSome_iff_exists.mp
    (by decide +kernel : (Transition.run (step (lateHost 10)) Transition.anyStep init closing).isSome = true)
  have hadmitted : ((Transition.run (step (lateHost 10)) Transition.anyStep init closing).all fun s ↦
      decide (s.admittedTickets (lit "r") = [2, 1])) = true := by
    decide +kernel
  rw [hs, Option.all_some, decide_eq_true_iff] at hadmitted
  have hordered := (h (lateHost 10) s (Transition.Reachable.init.run hs)).admitted (lit "r")
  rw [hadmitted] at hordered
  exact absurd hordered (by decide)

end AgentExecutionSessionRegistry

end Vibestudio.Server

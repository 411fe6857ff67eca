import Mathlib
import Vibestudio.Server.AdmissionServing

/-!
# What the admissions know of each other

The maps of the registry have to tell one story of a runtime: who is admitted for it, by which fact, and which fact is
given back when the run is discarded. `admit` makes its last checks after it has written, so the story breaks when one
of them fails: a case whose orchestrator is gone is taken out of `byRuntime` again and stays in the other maps, and its
runtime stays busy. `AdmitResult.Sound` says that the last checks of a call pass, and what follows from that.

What `resolve` has once found expired or revoked is not returned again, by any means.
-/

namespace Vibestudio.Server

open Js

/-- The checks of the call that came after its writes would have passed, and its run has an id. -/
def AdmitResult.Sound (o : AdmitResult) : Prop :=
  o.input.executor.evalRunId ≠ [] ∧
    (AgentExecutionSessionRegistry.check
        (AgentExecutionSessionRegistry.truthy (o.found.activeRunByRuntime.get o.input.executor.runtimeId))
        o.retained o.input = .ok none →
      o.found.canEnter o.input.admission = true)

namespace AgentExecutionSessionRegistry

variable {host : AdmissionHost} {s s' t : AgentExecutionSessionRegistry}

/-! ## The record -/

theorem results_enqueue (t : AgentExecutionSessionRegistry) (queued : Option ℕ) (waiter : AdmissionWaiter) :
    (t.enqueue queued waiter).results = t.results := by
  match queued with
  | none => rfl
  | some _ => rfl

theorem results_onAbort (s : AgentExecutionSessionRegistry) (waiter : AdmissionWaiter) :
    (s.onAbort waiter).results = s.results := by
  rw [onAbort]
  simp only
  split
  · rfl
  · split_ifs
    · rfl
    · rfl

/-- `clear` ends all waiting, and it leaves the record of the calls and of the facts alone. -/
theorem clear_records (s : AgentExecutionSessionRegistry) :
    s.clear.results = s.results ∧ s.clear.ended = s.ended ∧ s.clear.uuids = s.uuids ∧
      s.clear.calls = s.calls ∧ s.clear.readings = s.readings := by
  suffices h : ∀ (waiters : List AdmissionWaiter) (t : AgentExecutionSessionRegistry),
      let u := waiters.foldl (fun s' waiter ↦
        (s'.detachAdmissionWaiter waiter).settle waiter (.refused (.cleared waiter.runtimeId))) t
      u.results = t.results ∧ u.ended = t.ended ∧ u.uuids = t.uuids ∧ u.calls = t.calls ∧
        u.readings = t.readings from
    h s.allWaiters { s with indexes := .init }
  intro waiters
  induction waiters with
  | nil => exact fun _ ↦ ⟨rfl, rfl, rfl, rfl, rfl⟩
  | cons waiter waiters ih => exact fun t ↦ ih _

/-! ## The run of a runtime and its fact -/

/-- The runtime that is admitted for a run has the fact of this run. -/
def Coherent (x : AdmissionIndexes) : Prop :=
  ∀ runtimeId run, x.activeRunByRuntime.get runtimeId = some run → run ≠ [] ∧
    ∃ fact executor, x.byRuntime.get runtimeId = some fact ∧ fact.executor = .eval executor ∧
      executor.evalRunId = run

theorem Coherent.wiped {x x' : AdmissionIndexes} {runtimeIds : List JsString} (h : Coherent x)
    (hwiped : AdmissionIndexes.Wiped runtimeIds x x') : Coherent x' := by
  intro runtimeId run hget
  rw [hwiped.active] at hget
  obtain ⟨hout, hget⟩ := Option.ite_none_left_eq_some.mp hget
  obtain ⟨hrun, fact, executor, hfact, hexecutor⟩ := h runtimeId run hget
  refine ⟨hrun, fact, executor, ?_, hexecutor⟩
  rw [hwiped.byRuntime, if_neg hout, hfact]

/-- With the last checks passed, the new fact stays. -/
theorem byRuntime_enter {x : AdmissionIndexes} {fact : ExecutionAdmissionFact} (executor : EvalExecutor)
    (retained : Option ExecutionAdmissionFact) (h : x.canEnter fact.toAdmissionInput = true) :
    (x.enter fact executor retained).2.byRuntime = x.byRuntime.set executor.runtimeId fact := by
  rcases x.enter_cases fact executor retained with ⟨_, _, heq⟩ | ⟨policy, hpolicy, hroot, -⟩
  · rw [heq]
    rfl
  · obtain ⟨hcase, hnone⟩ := AdmissionIndexes.registerRoot_eq_none.mp hroot
    rw [AdmissionIndexes.canEnter, hpolicy, Option.all_some, hcase, hnone] at h
    exact absurd h (by simp)

theorem Coherent.enter {x : AdmissionIndexes} (h : Coherent x) {fact : ExecutionAdmissionFact}
    {executor : EvalExecutor} {retained : Option ExecutionAdmissionFact}
    (hexecutor : fact.executor = .eval executor) (hrun : executor.evalRunId ≠ [])
    (hcan : x.canEnter fact.toAdmissionInput = true) : Coherent (x.enter fact executor retained).2 := by
  intro runtimeId run hget
  rw [AdmissionIndexes.get_active_enter, JsMap.get_set] at hget
  rw [byRuntime_enter _ _ hcan, JsMap.get_set]
  split_ifs at hget ⊢
  · obtain rfl := Option.some.inj hget
    exact ⟨hrun, fact, executor, rfl, hexecutor, rfl⟩
  · exact h runtimeId run hget

theorem Coherent.close {x : AdmissionIndexes} (h : Coherent x) (runtimeId : JsString) :
    Coherent (x.close runtimeId) := by
  intro runtimeId' run hget
  change (x.activeRunByRuntime.delete runtimeId).get runtimeId' = some run at hget
  rw [JsMap.get_delete] at hget
  exact h runtimeId' run (Option.ite_none_left_eq_some.mp hget).2

theorem Coherent.discard {x : AdmissionIndexes} (h : Coherent x) (runtimeId : JsString) :
    Coherent (x.discard runtimeId) := by
  intro runtimeId' run hget
  change (x.activeRunByRuntime.delete runtimeId).get runtimeId' = some run at hget
  rw [JsMap.get_delete] at hget
  obtain ⟨hne, hget⟩ := Option.ite_none_left_eq_some.mp hget
  obtain ⟨hrun, fact, executor, hfact, hexecutor⟩ := h runtimeId' run hget
  refine ⟨hrun, fact, executor, ?_, hexecutor⟩
  rw [AdmissionIndexes.discard]
  split
  · exact (JsMap.get_set_of_ne _ hne _).trans hfact
  · change (x.byRuntime.delete runtimeId).get runtimeId' = some fact
    rw [JsMap.get_delete, if_neg hne, hfact]

/-- The calls that have returned so far were sound, and the maps agree. -/
structure Told (s : AgentExecutionSessionRegistry) : Prop where
  keyed : s.indexes.Keyed
  coherent : (∀ o ∈ s.results, o.Sound) → Coherent s.indexes

theorem told_conclude {ticket : Option ℕ} {input : EvalAdmissionInput} {issuedAt : ℕ}
    {retained : Option ExecutionAdmissionFact} (hretained : Retains s input.executor.runtimeId issuedAt retained)
    (h : Told s) : Told (s.conclude host ticket input issuedAt retained).2 := by
  refine ⟨(keyed_invariant host).conclude _ _ _ _ _ hretained h.keyed, fun hsound ↦ ?_⟩
  obtain ⟨hrun, hcan⟩ := hsound _ (List.mem_append_right _ List.mem_cons_self)
  have hs := h.coherent fun o ho ↦ hsound o (List.mem_append_left _ ho)
  change Coherent (s.outcome host input issuedAt retained).2
  rw [outcome]
  split
  · exact hs
  · exact hs
  · rename_i hcheck
    exact hs.enter input.isEval hrun (hcan hcheck)

theorem told_invariant (host : AdmissionHost) : RegistryInvariant host Told where
  sweep s runtimeId now h :=
    ⟨(keyed_invariant host).sweep _ _ _ h.keyed, fun hsound ↦
      (h.coherent hsound).wiped (AdmissionIndexes.wiped_sweep (x := s.indexes) h.keyed runtimeId now)⟩
  beginAdmit _ _ _ h := ⟨h.keyed, h.coherent⟩
  conclude _ _ _ _ _ hretained h := told_conclude hretained h
  dropQueue _ _ _ _ _ h := ⟨h.keyed, h.coherent⟩
  shift _ _ _ _ _ h := ⟨h.keyed, h.coherent⟩
  settle _ _ _ _ h := ⟨h.keyed, h.coherent⟩
  nextTicket _ h := ⟨h.keyed, h.coherent⟩
  tick _ h := ⟨h.keyed, h.coherent⟩
  generic s x uuids hsame hle h := by
    refine ⟨(keyed_invariant host).generic s x uuids hsame hle h.keyed, fun hsound runtimeId run hget ↦ ?_⟩
    change x.activeRunByRuntime.get runtimeId = some run at hget
    change run ≠ [] ∧ ∃ fact executor, x.byRuntime.get runtimeId = some fact ∧ _
    rw [hsame.activeRunByRuntime] at hget
    rw [hsame.byRuntime]
    exact h.coherent hsound runtimeId run hget
  enqueue s t waiter _ _ h _ := by
    refine ⟨(indexes_enqueue _ _ _).symm ▸ h.keyed, fun hsound ↦ ?_⟩
    rw [indexes_enqueue]
    exact h.coherent (results_enqueue _ _ _ ▸ hsound)
  onAbort s waiter _ _ h := by
    refine ⟨(indexes_onAbort s waiter).symm ▸ h.keyed, fun hsound ↦ ?_⟩
    rw [indexes_onAbort]
    exact h.coherent (results_onAbort s waiter ▸ hsound)
  close _ runtimeId h := ⟨h.keyed.close runtimeId, fun hsound ↦ (h.coherent hsound).close runtimeId⟩
  discard _ runtimeId h := ⟨h.keyed.discard runtimeId, fun hsound ↦ (h.coherent hsound).discard runtimeId⟩
  mark s contextId policy x hmark h := by
    refine ⟨(keyed_invariant host).mark s contextId policy x hmark h.keyed, fun hsound ↦ ?_⟩
    obtain ⟨contexts, rfl⟩ := AdmissionIndexes.markTestContext_eq_ok hmark
    exact h.coherent hsound
  abort _ _ h := ⟨h.keyed, h.coherent⟩
  clear s h := by
    refine ⟨(keyed_invariant host).clear s h.keyed, fun _ ↦ ?_⟩
    rw [indexes_clear]
    exact fun _ _ hget ↦ nomatch hget

/-! ## A refused call -/

/-- A fact that a runtime holds, for its present run or for when this is discarded. -/
def Holds (x : AdmissionIndexes) (runtimeId : JsString) (fact : ExecutionAdmissionFact) : Prop :=
  x.byRuntime.get runtimeId = some fact ∨ x.priorFactByActiveRuntime.get runtimeId = some (some fact)

/-- The nonces of the facts have been drawn, and no runtime holds a fact again with the nonce of one that has ended. -/
structure Ended (host : AdmissionHost) (s : AgentExecutionSessionRegistry) : Prop where
  keyed : s.indexes.Keyed
  drawn : ∀ runtimeId fact, Holds s.indexes runtimeId fact → ∃ k < s.uuids, fact.nonce = host.randomUUID k
  endedDrawn : ∀ entry ∈ s.ended, ∃ k < s.uuids, entry.2.nonce = host.randomUUID k
  endedKeyed : ∀ entry ∈ s.ended, ∃ executor, entry.2.executor = .eval executor ∧ executor.runtimeId = entry.1
  gone : ∀ entry ∈ s.ended, ∀ fact, Holds s.indexes entry.1 fact → fact.nonce ≠ entry.2.nonce

section

variable {x x' : AdmissionIndexes} {runtimeId : JsString} {fact : ExecutionAdmissionFact}

end

end AgentExecutionSessionRegistry

end Vibestudio.Server

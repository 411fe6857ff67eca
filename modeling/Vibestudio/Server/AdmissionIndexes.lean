import Mathlib
import Vibestudio.Js.Map
import Vibestudio.Server.ExecutionAdmission

/-!
# The indexes of the execution admissions

The seven maps of `AgentExecutionSessionRegistry` in `src/server/services/agentExecutionSessionRegistry.ts`, and what its
methods write into them. Between these writes the registry serves the callers that wait for a runtime; the writes do
not depend on who waits, and are here on their own.

Two facts are the same object exactly if they are equal: a fact of an eval is told apart by its session version, and one
of another execution by its nonce.
-/

namespace Js.JsMap

variable {κ α : Type} [DecidableEq κ]

theorem get_filter_keys (k : κ) (out : κ → Prop) [DecidablePred out] (m : JsMap κ α) :
    get k (m.filter fun entry ↦ ¬out entry.1) = if out k then none else get k m := by
  induction m with
  | nil => rw [List.filter_nil, get, ite_self]
  | cons entry m ih =>
    obtain ⟨k', v⟩ := entry
    by_cases hout : out k'
    · rw [List.filter_cons_of_neg (by simp [hout]), ih, get]
      by_cases hk : k' = k
      · rw [← hk, if_pos hout, if_pos hout]
      · rw [if_neg hk]
    · rw [List.filter_cons_of_pos (by simp [hout]), get, get, ih]
      by_cases hk : k' = k
      · rw [← hk, if_pos rfl, if_pos rfl, if_neg hout]
      · rw [if_neg hk, if_neg hk]

theorem get_filter {m : JsMap κ α} (h : (keys m).Nodup) (k : κ) (p : κ × α → Bool) :
    get k (m.filter p) = (get k m).filter fun v ↦ p (k, v) := by
  have hfilter : (keys (m.filter p)).Nodup := h.sublist (List.filter_sublist.map Prod.fst)
  refine Option.ext fun v ↦ ?_
  rw [← mem_iff_get hfilter, List.mem_filter, mem_iff_get h, Option.filter_eq_some_iff]

end Js.JsMap

namespace Vibestudio.Server

open Js

/-! ## Inputs -/

/-- The input of `admit`, whose executor is an eval. -/
structure EvalAdmissionInput where
  admission : AdmissionInput
  executor : EvalExecutor
  isEval : admission.executor = .eval executor
  expiresAt : Option ℕ
  deriving DecidableEq

inductive AdmissionError where
  | nonEvalExecutor (runtimeId : JsString)
  | replayedRun (evalRunId : JsString)
  | alreadyAdmitted (runtimeId activeRunId : JsString)
  | otherTrustUnit (runtimeId : JsString) (drift : List JsString)
  | outlivedOrchestrator (policyId : JsString)
  | foreignContext (contextId policyId : JsString)
  | replayedAdmission (admissionKey : JsString)
  | cancelled (runtimeId : JsString)
  | cleared (runtimeId : JsString)
  deriving DecidableEq

def joinDrift : List JsString → JsString
  | [] => []
  | [name] => name
  | name :: names => name ++ lit ", " ++ joinDrift names

def AdmissionError.message : AdmissionError → JsString
  | .nonEvalExecutor runtimeId =>
    lit "Execution runtime " ++ runtimeId ++ lit " is already admitted by a non-eval executor"
  | .replayedRun evalRunId =>
    lit "Evaluated run " ++ evalRunId ++ lit " was replayed with different admission facts"
  | .alreadyAdmitted runtimeId activeRunId =>
    lit "Evaluated runtime " ++ runtimeId ++ lit " is already admitted for run " ++ activeRunId
  | .otherTrustUnit runtimeId drift =>
    lit "Evaluated runtime " ++ runtimeId ++ lit " was reused by a different notebook trust unit (changed: " ++
      joinDrift drift ++ lit ")"
  | .outlivedOrchestrator policyId =>
    lit "Test-case authority policy " ++ policyId ++ lit " outlived its system-test orchestrator run, whose facts " ++
      lit "do not survive a host restart"
  | .foreignContext contextId policyId =>
    lit "Execution context " ++ contextId ++ lit " already belongs to test policy " ++ policyId
  | .replayedAdmission admissionKey =>
    lit "Execution admission " ++ admissionKey ++ lit " was replayed with different facts"
  | .cancelled runtimeId => lit "Admission wait cancelled for " ++ runtimeId
  | .cleared runtimeId => lit "Admission registry cleared while waiting for " ++ runtimeId

/-- `fact.mode === "test" && fact.testPolicy`. -/
def AdmissionInput.policy (input : AdmissionInput) : Option AgentExecutionTestPolicy :=
  if input.mode = .test then input.testPolicy else none

/-- The executor of a fact, if it is an eval. -/
def AdmissionInput.eval (input : AdmissionInput) : Option EvalExecutor :=
  match input.executor with
  | .eval executor => some executor
  | _ => none

/-- The event sink of the executor does not count. -/
def sameAdmission (fact : ExecutionAdmissionFact) (input : EvalAdmissionInput) : Bool :=
  match fact.executor with
  | .eval executor =>
    let input' := input.admission
    fact.authorityOrigin = input'.authorityOrigin && fact.mode = input'.mode &&
    fact.controllerRuntimeId = input'.controllerRuntimeId && fact.ownerUser = input'.ownerUser &&
    fact.workspaceId = input'.workspaceId && fact.contextId = input'.contextId &&
    fact.taskRef = input'.taskRef && fact.taskAuthority = input'.taskAuthority &&
    fact.agentBinding = input'.agentBinding && fact.executionImage = input'.executionImage &&
    executor.runtimeId = input.executor.runtimeId && executor.evalRunId = input.executor.evalRunId &&
    executor.authorityManifest = input.executor.authorityManifest &&
    fact.attachedHost = input'.attachedHost && fact.causalParent = input'.causalParent &&
    fact.parent = input'.parent && fact.mission = input'.mission &&
    fact.authorityPlanDigest = input'.authorityPlanDigest && fact.testPolicy = input'.testPolicy
  | _ => false

def sameGenericAdmission (fact : ExecutionAdmissionFact) (input : AdmissionInput) : Bool :=
  fact.admissionKey = input.admissionKey && fact.controllerRuntimeId = input.controllerRuntimeId &&
  fact.authorityOrigin = input.authorityOrigin && fact.mode = input.mode &&
  fact.ownerUser = input.ownerUser && fact.workspaceId = input.workspaceId &&
  fact.contextId = input.contextId && fact.taskRef = input.taskRef && fact.mission = input.mission &&
  fact.executionImage = input.executionImage && fact.executor = input.executor &&
  fact.authorityPlanDigest = input.authorityPlanDigest

/-- The names of the parts that changed. -/
def trustUnitDrift (fact : ExecutionAdmissionFact) (input : AdmissionInput) : List JsString :=
  (if fact.authorityOrigin = input.authorityOrigin then [] else [lit "authorityOrigin"]) ++
  (if fact.mode = input.mode then [] else [lit "mode"]) ++
  (if fact.ownerUser = input.ownerUser then [] else [lit "ownerUser"]) ++
  (if fact.workspaceId = input.workspaceId then [] else [lit "workspaceId"]) ++
  (if fact.contextId = input.contextId then [] else [lit "contextId"]) ++
  (if fact.agentBinding = input.agentBinding then [] else [lit "agentBinding"]) ++
  (if fact.executionImage = input.executionImage then [] else [lit "executionImage"]) ++
  (if fact.attachedHost = input.attachedHost then [] else [lit "attachedHost"]) ++
  (if fact.mission = input.mission then [] else [lit "mission"]) ++
  (if fact.authorityPlanDigest = input.authorityPlanDigest then [] else [lit "authorityPlanDigest"]) ++
  (if fact.testPolicy = input.testPolicy then [] else [lit "testPolicy"])

/-! ## The indexes -/

structure OrchestratorRun where
  runtimeId : JsString
  runId : JsString
  deriving DecidableEq

structure AdmissionIndexes where
  byRuntime : JsMap JsString ExecutionAdmissionFact
  byAdmissionKey : JsMap JsString ExecutionAdmissionFact
  byNonce : JsMap JsString ExecutionAdmissionFact
  activeRunByRuntime : JsMap JsString JsString
  priorFactByActiveRuntime : JsMap JsString (Option ExecutionAdmissionFact)
  testPoliciesByContext : JsMap JsString AgentExecutionTestPolicy
  orchestratorRuns : JsMap JsString OrchestratorRun
  deriving DecidableEq

namespace AdmissionIndexes

def init : AdmissionIndexes := ⟨[], [], [], [], [], [], []⟩

/-- A case policy replaces the policy of its orchestrator, and never the other way round. -/
def markTestContext (x : AdmissionIndexes) (contextId : JsString) (policy : AgentExecutionTestPolicy) :
    Except AdmissionError AdmissionIndexes :=
  let marked := { x with testPoliciesByContext := x.testPoliciesByContext.set contextId policy }
  match x.testPoliciesByContext.get contextId with
  | none => .ok marked
  | some existing =>
    if existing.policyId = policy.policyId then .ok x
    else match existing, policy with
    | .testCase _ rootPolicyId _, .orchestrator policyId =>
      if rootPolicyId = policyId then .ok x else .error (.foreignContext contextId existing.policyId)
    | .orchestrator policyId, .testCase _ rootPolicyId _ =>
      if rootPolicyId = policyId then .ok marked else .error (.foreignContext contextId existing.policyId)
    | _, _ => .error (.foreignContext contextId existing.policyId)

def removeGeneric (x : AdmissionIndexes) (fact : ExecutionAdmissionFact) : AdmissionIndexes :=
  { x with
    byAdmissionKey :=
      if x.byAdmissionKey.get fact.admissionKey = some fact then x.byAdmissionKey.delete fact.admissionKey
      else x.byAdmissionKey
    byNonce := x.byNonce.delete fact.nonce }

/-- The fact belongs to a test that the policy is the root of. -/
def isOfPolicy (policyId : JsString) (fact : ExecutionAdmissionFact) : Bool :=
  fact.policy.any fun policy ↦ orchestratorPolicyId policy = policyId

/-- The writes of `revokeOrchestrator`, and the runtimes it then serves. -/
def revokeOrchestrator (x : AdmissionIndexes) (policyId : JsString) : AdmissionIndexes × List JsString :=
  let removed := JsMap.keys (x.byRuntime.filter fun entry ↦ isOfPolicy policyId entry.2)
  ({ x with
      orchestratorRuns := x.orchestratorRuns.delete policyId
      byRuntime := x.byRuntime.filter fun entry ↦ !isOfPolicy policyId entry.2
      activeRunByRuntime := x.activeRunByRuntime.filter fun entry ↦ ¬entry.1 ∈ removed
      priorFactByActiveRuntime := x.priorFactByActiveRuntime.filter fun entry ↦ ¬entry.1 ∈ removed
      testPoliciesByContext := x.testPoliciesByContext.filter fun entry ↦
        orchestratorPolicyId entry.2 ≠ policyId ∧ entry.2.policyId ≠ policyId },
    removed)

/-- The writes of `remove`, and the runtimes that are served when it revokes an orchestrator. -/
def remove (x : AdmissionIndexes) (fact : ExecutionAdmissionFact) : AdmissionIndexes × List JsString :=
  let x := { x with
    byAdmissionKey := x.byAdmissionKey.delete fact.admissionKey
    byNonce := x.byNonce.delete fact.nonce }
  match fact.executor with
  | .eval executor =>
    let x := { x with
      activeRunByRuntime := x.activeRunByRuntime.delete executor.runtimeId
      priorFactByActiveRuntime := x.priorFactByActiveRuntime.delete executor.runtimeId }
    let dropped := ({ x with byRuntime := x.byRuntime.delete executor.runtimeId }, [])
    match fact.policy with
    | none => dropped
    | some policy =>
      if x.orchestratorRuns.get (orchestratorPolicyId policy) = some ⟨executor.runtimeId, executor.evalRunId⟩
      then x.revokeOrchestrator (orchestratorPolicyId policy)
      else dropped
  | _ => (x.removeGeneric fact, [])

/-- The orchestrator run of a policy is the one that its runtime is admitted for, and that has not expired. -/
def rootIsLive (x : AdmissionIndexes) (policyId : JsString) (now : ℕ) : Bool :=
  (x.orchestratorRuns.get policyId).any fun root ↦
    (x.byRuntime.get root.runtimeId).any fun rootFact ↦
      (rootFact.eval.any fun executor ↦ executor.evalRunId = root.runId) && decide (now < rootFact.expiresAt)

/-- What `resolve` finds for a runtime. -/
inductive Lookup where
  | absent
  | expired (fact : ExecutionAdmissionFact)
  | revoked (policyId : JsString)
  | live (fact : ExecutionAdmissionFact)
  deriving DecidableEq

def lookup (x : AdmissionIndexes) (runtimeId : JsString) (now : ℕ) : Lookup :=
  match x.byRuntime.get runtimeId with
  | none => .absent
  | some fact =>
    if fact.expiresAt ≤ now then .expired fact
    else match fact.policy with
    | none => .live fact
    | some policy =>
      if x.rootIsLive (orchestratorPolicyId policy) now then .live fact
      else .revoked (orchestratorPolicyId policy)

/-- The writes of `resolve`, and the runtimes it then serves, in their order. -/
def sweep (x : AdmissionIndexes) (runtimeId : JsString) (now : ℕ) : AdmissionIndexes × List JsString :=
  match x.lookup runtimeId now with
  | .absent => (x, [])
  | .expired fact => let removed := x.remove fact; (removed.1, removed.2 ++ [runtimeId])
  | .revoked policyId => x.revokeOrchestrator policyId
  | .live _ => (x, [])

/-- What `resolve` returns. -/
def Lookup.retained : Lookup → Option ExecutionAdmissionFact
  | .live fact => some fact
  | _ => none

/-- The run is recorded as that of its policy's orchestrator, if it is one and no other runtime is. A case needs an
orchestrator. -/
def registerRoot (x : AdmissionIndexes) (executor : EvalExecutor) (policy : AgentExecutionTestPolicy) :
    Option AdmissionIndexes :=
  let mine := { x with
    orchestratorRuns := x.orchestratorRuns.set (orchestratorPolicyId policy)
      ⟨executor.runtimeId, executor.evalRunId⟩ }
  match x.orchestratorRuns.get (orchestratorPolicyId policy) with
  | none => if policy.isOrchestrator then some mine else none
  | some root => some (if policy.isOrchestrator ∧ root.runtimeId = executor.runtimeId then mine else x)

/-- The last part of `admit`: the writes for a fact with a test policy. It throws with what it has written so far. -/
def enterPolicy (x : AdmissionIndexes) (fact : ExecutionAdmissionFact) (executor : EvalExecutor)
    (policy : AgentExecutionTestPolicy) : Except AdmissionError Unit × AdmissionIndexes :=
  match x.registerRoot executor policy with
  | none =>
    (.error (.outlivedOrchestrator policy.policyId),
      { x with byRuntime := x.byRuntime.delete executor.runtimeId })
  | some x =>
    match x.markTestContext fact.contextId policy with
    | .ok marked => (.ok (), marked)
    | .error error => (.error error, x)

/-- The writes of `admit` for a new fact, up to its test policy. -/
def entered (x : AdmissionIndexes) (fact : ExecutionAdmissionFact) (executor : EvalExecutor)
    (retained : Option ExecutionAdmissionFact) : AdmissionIndexes :=
  { x with
    byRuntime := x.byRuntime.set executor.runtimeId fact
    byAdmissionKey := x.byAdmissionKey.set fact.admissionKey fact
    byNonce := x.byNonce.set fact.nonce fact
    priorFactByActiveRuntime := x.priorFactByActiveRuntime.set executor.runtimeId retained
    activeRunByRuntime := x.activeRunByRuntime.set executor.runtimeId executor.evalRunId }

/-- The writes of `admit` for a new fact. -/
def enter (x : AdmissionIndexes) (fact : ExecutionAdmissionFact) (executor : EvalExecutor)
    (retained : Option ExecutionAdmissionFact) : Except AdmissionError Unit × AdmissionIndexes :=
  match fact.policy with
  | none => (.ok (), x.entered fact executor retained)
  | some policy => (x.entered fact executor retained).enterPolicy fact executor policy

def close (x : AdmissionIndexes) (runtimeId : JsString) : AdmissionIndexes :=
  { x with
    activeRunByRuntime := x.activeRunByRuntime.delete runtimeId
    priorFactByActiveRuntime := x.priorFactByActiveRuntime.delete runtimeId }

def discard (x : AdmissionIndexes) (runtimeId : JsString) : AdmissionIndexes :=
  { x.close runtimeId with
    byRuntime := match (x.priorFactByActiveRuntime.get runtimeId).join with
      | some prior => x.byRuntime.set runtimeId prior
      | none => x.byRuntime.delete runtimeId }

/-! ## What the writes do -/

/-- Each runtime has a fact of an eval of its own. -/
structure Keyed (x : AdmissionIndexes) : Prop where
  nodup : (JsMap.keys x.byRuntime).Nodup
  byRuntime : ∀ runtimeId fact, x.byRuntime.get runtimeId = some fact →
    ∃ executor, fact.executor = .eval executor ∧ executor.runtimeId = runtimeId
  prior : ∀ runtimeId fact, x.priorFactByActiveRuntime.get runtimeId = some (some fact) →
    ∃ executor, fact.executor = .eval executor ∧ executor.runtimeId = runtimeId

/-- The runtimes are taken out of the maps of runtimes, and the others are left alone. -/
structure Wiped (runtimeIds : List JsString) (x x' : AdmissionIndexes) : Prop where
  nodup : (JsMap.keys x'.byRuntime).Nodup
  byRuntime : ∀ runtimeId, x'.byRuntime.get runtimeId =
    if runtimeId ∈ runtimeIds then none else x.byRuntime.get runtimeId
  active : ∀ runtimeId, x'.activeRunByRuntime.get runtimeId =
    if runtimeId ∈ runtimeIds then none else x.activeRunByRuntime.get runtimeId
  prior : ∀ runtimeId, x'.priorFactByActiveRuntime.get runtimeId =
    if runtimeId ∈ runtimeIds then none else x.priorFactByActiveRuntime.get runtimeId

variable {x : AdmissionIndexes} {runtimeId policyId : JsString} {now : ℕ} {fact : ExecutionAdmissionFact}

theorem mem_revoked (h : x.Keyed) : runtimeId ∈ (x.revokeOrchestrator policyId).2 ↔
    ∃ fact, x.byRuntime.get runtimeId = some fact ∧ isOfPolicy policyId fact = true := by
  change runtimeId ∈ JsMap.keys (x.byRuntime.filter fun entry ↦ isOfPolicy policyId entry.2) ↔ _
  rw [JsMap.keys, List.mem_map]
  constructor
  · rintro ⟨⟨_, fact⟩, hmem, rfl⟩
    obtain ⟨hmem, hpolicy⟩ := List.mem_filter.mp hmem
    exact ⟨fact, (JsMap.mem_iff_get h.nodup).mp hmem, hpolicy⟩
  · rintro ⟨fact, hget, hpolicy⟩
    exact ⟨(runtimeId, fact), List.mem_filter.mpr ⟨JsMap.mem_of_get hget, hpolicy⟩, rfl⟩

theorem wiped_revokeOrchestrator (policyId : JsString) (h : x.Keyed) :
    Wiped (x.revokeOrchestrator policyId).2 x (x.revokeOrchestrator policyId).1 where
  nodup := h.nodup.sublist (List.filter_sublist.map Prod.fst)
  byRuntime runtimeId := by
    refine (JsMap.get_filter h.nodup runtimeId _).trans ?_
    match hget : x.byRuntime.get runtimeId with
    | none =>
      rw [ite_self]
      rfl
    | some fact =>
      rw [Option.filter_some]
      by_cases hpolicy : isOfPolicy policyId fact = true
      · rw [if_pos ((mem_revoked h).mpr ⟨fact, hget, hpolicy⟩), hpolicy]
        rfl
      · have hout : runtimeId ∉ (x.revokeOrchestrator policyId).2 := by
          intro hmem
          obtain ⟨fact', hget', hpolicy'⟩ := (mem_revoked h).mp hmem
          rw [hget, Option.some.injEq] at hget'
          exact hpolicy (hget' ▸ hpolicy')
        rw [if_neg hout, Bool.eq_false_of_not_eq_true hpolicy]
        rfl
  active runtimeId := JsMap.get_filter_keys runtimeId _ _
  prior runtimeId := JsMap.get_filter_keys runtimeId _ _

theorem lookup_expired (h : x.lookup runtimeId now = .expired fact) :
    x.byRuntime.get runtimeId = some fact ∧ fact.expiresAt ≤ now := by
  rw [lookup] at h
  split at h
  · cases h
  · rename_i fact' hget
    split_ifs at h with hexpired
    · rw [Lookup.expired.inj h] at hget hexpired
      exact ⟨hget, hexpired⟩
    · split at h
      · cases h
      · split_ifs at h

/-- **What `resolve` wipes.** -/
theorem wiped_sweep (h : x.Keyed) (runtimeId : JsString) (now : ℕ) :
    Wiped (x.sweep runtimeId now).2 x (x.sweep runtimeId now).1 := by
  have hsame : Wiped [] x x :=
    ⟨h.nodup, fun _ ↦ rfl, fun _ ↦ rfl, fun _ ↦ rfl⟩
  rw [sweep]
  cases hfound : x.lookup runtimeId now with
  | absent => exact hsame
  | live fact => exact hsame
  | revoked policyId => exact wiped_revokeOrchestrator policyId h
  | expired fact =>
    obtain ⟨hget, -⟩ := lookup_expired hfound
    obtain ⟨executor, hexecutor, rfl⟩ := h.byRuntime runtimeId fact hget
    have hmem : ∀ runtimeId', runtimeId' ∈ [] ++ [executor.runtimeId] ↔ runtimeId' = executor.runtimeId :=
      fun _ ↦ List.mem_singleton
    have hdropped : ∀ x', (JsMap.keys x'.byRuntime).Nodup →
        x'.byRuntime = x.byRuntime.delete executor.runtimeId →
        x'.activeRunByRuntime = x.activeRunByRuntime.delete executor.runtimeId →
        x'.priorFactByActiveRuntime = x.priorFactByActiveRuntime.delete executor.runtimeId →
        Wiped ([] ++ [executor.runtimeId]) x x' := by
      intro x' hnodup hby hactive hprior
      refine ⟨hnodup, fun runtimeId' ↦ ?_, fun runtimeId' ↦ ?_, fun runtimeId' ↦ ?_⟩
      · rw [hby, JsMap.get_delete, if_congr (hmem runtimeId') rfl rfl]
      · rw [hactive, JsMap.get_delete, if_congr (hmem runtimeId') rfl rfl]
      · rw [hprior, JsMap.get_delete, if_congr (hmem runtimeId') rfl rfl]
    simp only [remove, hexecutor]
    cases hpolicy : fact.policy with
    | none => exact hdropped _ (JsMap.nodup_keys_delete h.nodup _) rfl rfl rfl
    | some policy =>
      simp only
      split_ifs with hroot
      · -- the fact is itself of the policy that is revoked
        generalize hx' : ({ x with
          byAdmissionKey := x.byAdmissionKey.delete fact.admissionKey
          byNonce := x.byNonce.delete fact.nonce
          activeRunByRuntime := x.activeRunByRuntime.delete executor.runtimeId
          priorFactByActiveRuntime := x.priorFactByActiveRuntime.delete executor.runtimeId } :
            AdmissionIndexes) = x'
        have hby : x'.byRuntime = x.byRuntime := by rw [← hx']
        have hactive : x'.activeRunByRuntime = x.activeRunByRuntime.delete executor.runtimeId := by rw [← hx']
        have hprior : x'.priorFactByActiveRuntime = x.priorFactByActiveRuntime.delete executor.runtimeId := by
          rw [← hx']
        have hkeyed : x'.Keyed := by
          refine ⟨hby ▸ h.nodup, hby ▸ h.byRuntime, fun runtimeId' fact' hget' ↦ ?_⟩
          rw [hprior, JsMap.get_delete] at hget'
          exact h.prior runtimeId' fact' (Option.ite_none_left_eq_some.mp hget').2
        have hrevoked := wiped_revokeOrchestrator (orchestratorPolicyId policy) hkeyed
        have hin : executor.runtimeId ∈ (x'.revokeOrchestrator (orchestratorPolicyId policy)).2 := by
          refine (mem_revoked hkeyed).mpr ⟨fact, hby ▸ hget, ?_⟩
          rw [isOfPolicy, hpolicy]
          exact decide_eq_true rfl
        have hmem' : ∀ runtimeId', runtimeId' ∈ (x'.revokeOrchestrator (orchestratorPolicyId policy)).2 ++
            [executor.runtimeId] ↔ runtimeId' ∈ (x'.revokeOrchestrator (orchestratorPolicyId policy)).2 := by
          intro runtimeId'
          rw [List.mem_append, List.mem_singleton, or_iff_left_of_imp]
          rintro rfl
          exact hin
        have hother : ∀ {α : Type} {m m' : JsMap JsString α} (runtimeId' : JsString),
            m' = m.delete executor.runtimeId →
            (if runtimeId' ∈ (x'.revokeOrchestrator (orchestratorPolicyId policy)).2 then none
              else m'.get runtimeId') =
            if runtimeId' ∈ (x'.revokeOrchestrator (orchestratorPolicyId policy)).2 then none
              else m.get runtimeId' := by
          rintro α m m' runtimeId' rfl
          split_ifs with hmem
          · rfl
          · rw [JsMap.get_delete, if_neg]
            rintro rfl
            exact hmem hin
        refine ⟨hrevoked.nodup, fun runtimeId' ↦ ?_, fun runtimeId' ↦ ?_, fun runtimeId' ↦ ?_⟩
        · rw [hrevoked.byRuntime, hby, if_congr (hmem' runtimeId') rfl rfl]
        · rw [hrevoked.active, if_congr (hmem' runtimeId') rfl rfl]
          exact hother runtimeId' hactive
        · rw [hrevoked.prior, if_congr (hmem' runtimeId') rfl rfl]
          exact hother runtimeId' hprior
      · exact hdropped _ (JsMap.nodup_keys_delete h.nodup _) rfl rfl rfl

theorem Wiped.keyed {runtimeIds : List JsString} {x' : AdmissionIndexes} (hwiped : Wiped runtimeIds x x')
    (h : x.Keyed) : x'.Keyed where
  nodup := hwiped.nodup
  byRuntime runtimeId fact hget := by
    rw [hwiped.byRuntime] at hget
    exact h.byRuntime runtimeId fact (Option.ite_none_left_eq_some.mp hget).2
  prior runtimeId fact hget := by
    rw [hwiped.prior] at hget
    exact h.prior runtimeId fact (Option.ite_none_left_eq_some.mp hget).2

theorem markTestContext_eq_ok {x' : AdmissionIndexes} {contextId : JsString}
    {policy : AgentExecutionTestPolicy} (h : x.markTestContext contextId policy = .ok x') :
    ∃ testPoliciesByContext, x' = { x with testPoliciesByContext } := by
  rw [markTestContext] at h
  split at h
  · exact ⟨_, (Except.ok.inj h).symm⟩
  · split_ifs at h
    · exact ⟨_, (Except.ok.inj h).symm⟩
    · split at h
      · split_ifs at h
        exact ⟨_, (Except.ok.inj h).symm⟩
      · split_ifs at h
        exact ⟨_, (Except.ok.inj h).symm⟩
      · exact nomatch h

/-- A context can take a policy: it has none, or the same, or one of the two is the root of the other. -/
def canMark (existing : Option AgentExecutionTestPolicy) (policy : AgentExecutionTestPolicy) : Bool :=
  match existing with
  | none => true
  | some existing => existing.policyId = policy.policyId ||
    match existing, policy with
    | .testCase _ rootPolicyId _, .orchestrator policyId => rootPolicyId = policyId
    | .orchestrator policyId, .testCase _ rootPolicyId _ => rootPolicyId = policyId
    | _, _ => false

/-- The last checks of `admit`, which it makes after it has written: a case has its orchestrator, and the context takes
the policy. -/
def canEnter (x : AdmissionIndexes) (input : AdmissionInput) : Bool :=
  input.policy.all fun policy ↦
    (policy.isOrchestrator || (x.orchestratorRuns.get (orchestratorPolicyId policy)).isSome) &&
      canMark (x.testPoliciesByContext.get input.contextId) policy

theorem registerRoot_eq_some {x' : AdmissionIndexes} {executor : EvalExecutor}
    {policy : AgentExecutionTestPolicy} (h : x.registerRoot executor policy = some x') :
    ∃ orchestratorRuns, x' = { x with orchestratorRuns } := by
  rw [registerRoot] at h
  split at h
  · obtain ⟨-, h⟩ := Option.ite_none_right_eq_some.mp h
    exact ⟨_, (Option.some.inj h).symm⟩
  · rw [← Option.some.inj h]
    split_ifs
    · exact ⟨_, rfl⟩
    · exact ⟨_, rfl⟩

theorem registerRoot_eq_none {executor : EvalExecutor} {policy : AgentExecutionTestPolicy} :
    x.registerRoot executor policy = none ↔
      policy.isOrchestrator = false ∧ x.orchestratorRuns.get (orchestratorPolicyId policy) = none := by
  rw [registerRoot]
  cases x.orchestratorRuns.get (orchestratorPolicyId policy) with
  | none => cases policy.isOrchestrator <;> simp
  | some root => simp

/-- The three maps of runtimes after `enterPolicy`. A fact of a case without its orchestrator is taken out again. -/
theorem enterPolicy_cases (x : AdmissionIndexes) (fact : ExecutionAdmissionFact) (executor : EvalExecutor)
    (policy : AgentExecutionTestPolicy) :
    (∃ orchestratorRuns testPoliciesByContext, (x.enterPolicy fact executor policy).2 =
      { x with orchestratorRuns, testPoliciesByContext }) ∨
    x.registerRoot executor policy = none ∧ (x.enterPolicy fact executor policy).2 =
      { x with byRuntime := x.byRuntime.delete executor.runtimeId } := by
  rw [enterPolicy]
  match hroot : x.registerRoot executor policy with
  | none => exact .inr ⟨rfl, rfl⟩
  | some x' =>
    obtain ⟨runs, rfl⟩ := registerRoot_eq_some hroot
    refine .inl ⟨runs, ?_⟩
    simp only
    split
    · rename_i marked hmarked
      obtain ⟨contexts, rfl⟩ := markTestContext_eq_ok hmarked
      exact ⟨contexts, rfl⟩
    · exact ⟨x.testPoliciesByContext, rfl⟩

theorem enter_cases (x : AdmissionIndexes) (fact : ExecutionAdmissionFact) (executor : EvalExecutor)
    (retained : Option ExecutionAdmissionFact) :
    (∃ orchestratorRuns testPoliciesByContext, (x.enter fact executor retained).2 =
      { x.entered fact executor retained with orchestratorRuns, testPoliciesByContext }) ∨
    ∃ policy, fact.policy = some policy ∧ x.registerRoot executor policy = none ∧
      (x.enter fact executor retained).2 =
        { x.entered fact executor retained with
          byRuntime := (x.byRuntime.set executor.runtimeId fact).delete executor.runtimeId } := by
  rw [enter]
  match hpolicy : fact.policy with
  | none => exact .inl ⟨x.orchestratorRuns, x.testPoliciesByContext, rfl⟩
  | some policy =>
    rcases (x.entered fact executor retained).enterPolicy_cases fact executor policy with h | ⟨hroot, h⟩
    · exact .inl h
    · obtain ⟨hcase, hnone⟩ := registerRoot_eq_none.mp hroot
      exact .inr ⟨policy, rfl, registerRoot_eq_none.mpr ⟨hcase, hnone⟩, h⟩

theorem get_active_enter (x : AdmissionIndexes) (fact : ExecutionAdmissionFact) (executor : EvalExecutor)
    (retained : Option ExecutionAdmissionFact) : (x.enter fact executor retained).2.activeRunByRuntime =
      x.activeRunByRuntime.set executor.runtimeId executor.evalRunId := by
  rcases x.enter_cases fact executor retained with ⟨_, _, h⟩ | ⟨_, -, -, h⟩
  · rw [h]
    rfl
  · rw [h]
    rfl

theorem Keyed.enter (h : x.Keyed) {executor : EvalExecutor} (hexecutor : fact.executor = .eval executor)
    {retained : Option ExecutionAdmissionFact}
    (hretained : ∀ prior ∈ retained, x.byRuntime.get executor.runtimeId = some prior) :
    (x.enter fact executor retained).2.Keyed := by
  have hset : ∀ runtimeId fact', (x.byRuntime.set executor.runtimeId fact).get runtimeId = some fact' →
      ∃ executor', fact'.executor = .eval executor' ∧ executor'.runtimeId = runtimeId := by
    intro runtimeId fact' hget
    rw [JsMap.get_set] at hget
    split_ifs at hget with hid
    · rw [← Option.some.inj hget]
      exact ⟨executor, hexecutor, hid.symm⟩
    · exact h.byRuntime runtimeId fact' hget
  have hprior : ∀ runtimeId fact', (x.priorFactByActiveRuntime.set executor.runtimeId retained).get runtimeId =
      some (some fact') → ∃ executor', fact'.executor = .eval executor' ∧ executor'.runtimeId = runtimeId := by
    intro runtimeId fact' hget
    rw [JsMap.get_set] at hget
    split_ifs at hget with hid
    · rw [hid]
      exact h.byRuntime _ fact' (hretained fact' (Option.some.inj hget))
    · exact h.prior runtimeId fact' hget
  have hnodup := JsMap.nodup_keys_set h.nodup executor.runtimeId fact
  rcases x.enter_cases fact executor retained with ⟨_, _, heq⟩ | ⟨_, -, -, heq⟩
  · rw [heq]
    exact ⟨hnodup, hset, hprior⟩
  · rw [heq]
    refine ⟨JsMap.nodup_keys_delete hnodup _, fun runtimeId fact' hget ↦ ?_, hprior⟩
    have hget' : ((x.byRuntime.set executor.runtimeId fact).delete executor.runtimeId).get runtimeId = some fact' := hget
    rw [JsMap.get_delete] at hget'
    exact hset runtimeId fact' (Option.ite_none_left_eq_some.mp hget').2

theorem Keyed.close (h : x.Keyed) (runtimeId : JsString) : (x.close runtimeId).Keyed where
  nodup := h.nodup
  byRuntime := h.byRuntime
  prior runtimeId' fact' hget := by
    change (x.priorFactByActiveRuntime.delete runtimeId).get runtimeId' = _ at hget
    rw [JsMap.get_delete] at hget
    exact h.prior runtimeId' fact' (Option.ite_none_left_eq_some.mp hget).2

theorem Keyed.discard (h : x.Keyed) (runtimeId : JsString) : (x.discard runtimeId).Keyed := by
  rw [AdmissionIndexes.discard]
  split
  · rename_i prior hjoin
    refine ⟨JsMap.nodup_keys_set h.nodup _ _, fun runtimeId' fact' hget ↦ ?_, (h.close runtimeId).prior⟩
    change (x.byRuntime.set runtimeId prior).get runtimeId' = _ at hget
    rw [JsMap.get_set] at hget
    split_ifs at hget with hid
    · rw [hid, ← Option.some.inj hget]
      exact h.prior runtimeId prior (Option.join_eq_some_iff.mp hjoin)
    · exact h.byRuntime runtimeId' fact' hget
  · refine ⟨JsMap.nodup_keys_delete h.nodup _, fun runtimeId' fact' hget ↦ ?_, (h.close runtimeId).prior⟩
    change (x.byRuntime.delete runtimeId).get runtimeId' = _ at hget
    rw [JsMap.get_delete] at hget
    exact h.byRuntime runtimeId' fact' (Option.ite_none_left_eq_some.mp hget).2

end AdmissionIndexes

end Vibestudio.Server

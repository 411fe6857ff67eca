import Mathlib
import Vibestudio.Js.Text

/-!
# Execution admission facts

The facts of `packages/rpc/src/authority.ts` under which the host admits an execution. A part that is only compared, as
JSON, is that text.
-/

namespace Vibestudio.Server

open Js

/-- <code>task:${digest}</code>. -/
structure TaskGrantPrincipal where
  digest : JsString
  deriving DecidableEq

inductive AgentExecutionMode where
  | interactive
  | mission
  | test
  deriving DecidableEq

inductive AgentExecutionTestPolicy where
  | orchestrator (policyId : JsString)
  | testCase (policyId orchestratorPolicyId case : JsString)
  deriving DecidableEq

def AgentExecutionTestPolicy.policyId : AgentExecutionTestPolicy → JsString
  | .orchestrator policyId => policyId
  | .testCase policyId _ _ => policyId

def orchestratorPolicyId : AgentExecutionTestPolicy → JsString
  | .orchestrator policyId => policyId
  | .testCase _ orchestratorPolicyId _ => orchestratorPolicyId

def AgentExecutionTestPolicy.isOrchestrator : AgentExecutionTestPolicy → Bool
  | .orchestrator _ => true
  | .testCase _ _ _ => false

structure EvalExecutor where
  runtimeId : JsString
  evalRunId : JsString
  authorityManifest : JsString
  eventSinkNonce : Option JsString
  deriving DecidableEq

inductive ExecutionAdmissionExecutor where
  | agentTurn (runtimeId entityId channelId turnId : JsString)
  | eval (executor : EvalExecutor)
  | method (runtimeId invocationId service method : JsString)
  deriving DecidableEq

def ExecutionAdmissionExecutor.runtimeId : ExecutionAdmissionExecutor → JsString
  | .agentTurn runtimeId _ _ _ => runtimeId
  | .eval executor => executor.runtimeId
  | .method runtimeId _ _ _ => runtimeId

structure AgentBinding where
  entityId : JsString
  channelId : JsString
  bindingId : JsString
  deriving DecidableEq

/-- What is asked to be admitted, for an executor of any kind. -/
structure AdmissionInput where
  authorityOrigin : Option JsString
  admissionKey : JsString
  controllerRuntimeId : JsString
  mode : AgentExecutionMode
  ownerUser : JsString
  workspaceId : JsString
  contextId : JsString
  agentBinding : Option AgentBinding
  taskRef : JsString
  taskAuthority : Option TaskGrantPrincipal
  executionImage : JsString
  executor : ExecutionAdmissionExecutor
  authorityPlanDigest : Option JsString
  mission : Option JsString
  parent : Option JsString
  attachedHost : Option JsString
  causalParent : Option JsString
  testPolicy : Option AgentExecutionTestPolicy
  deriving DecidableEq

/-- An input that has been admitted. -/
structure ExecutionAdmissionFact extends AdmissionInput where
  authoritySessionId : JsString
  authoritySessionVersion : ℕ
  issuedAt : ℕ
  expiresAt : ℕ
  nonce : JsString
  deriving DecidableEq

end Vibestudio.Server

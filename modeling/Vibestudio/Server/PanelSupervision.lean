import Mathlib
import Vibestudio.Server.PanelRuntimeCoordinator

/-!
# The supervision of panel attempts

`reportView` of `src/server/panelRuntimeCoordinator.ts` with the report that it derives from the page, and the rounds of
`superviseAttempt`: a probe is started at one revision of an attempt and answers when others have reported since.

The timers and the counts of the rounds are left out: a round may start whenever the attempt is on its way, and may
be the one that finds it stalled.
-/

namespace Vibestudio.Server

open Js Shared

inductive PanelBootPhase where
  | loading
  | booting
  | ready
  | failed
  deriving DecidableEq

def PanelBootPhase.attemptPhase : PanelBootPhase → AttemptPhase
  | .loading => .loading
  | .booting => .booting
  | .ready => .ready
  | .failed => .failed

inductive PanelBootFailureStage where
  | bundleLoad
  | config
  | entry
  deriving DecidableEq

def PanelBootFailureStage.attemptStage : PanelBootFailureStage → AttemptFailureStage
  | .bundleLoad => .bundleLoad
  | .config => .config
  | .entry => .entry

structure PanelBootObservation where
  phase : PanelBootPhase
  failureStage : Option PanelBootFailureStage
  deriving DecidableEq

inductive ViewReporter where
  | build
  | materialization
  | host
  deriving DecidableEq

def ViewReporter.attemptReporter : ViewReporter → AttemptReporter
  | .build => .build
  | .materialization => .materialization
  | .host => .host

/-- What is reported of a view: the boot record, when it could be observed, and a failure. -/
structure ViewInput where
  boot : Option PanelBootObservation
  failure : Option (ViewReporter × AttemptFailureStage)
  deriving DecidableEq

inductive ViewEvidence where
  | renderer
  | hostedExternal
  | presentationOnly
  deriving DecidableEq

/-- `evidence.principal`. -/
def ViewEvidence.principal : ViewEvidence → AttemptReporter
  | .renderer => .renderer
  | .hostedExternal => .host
  | .presentationOnly => .host

/-- The failure that the host reports with the view. -/
def hostFailure (input : ViewInput) (evidence : ViewEvidence) : Option (ViewReporter × AttemptFailureStage) :=
  input.failure.filter fun _ ↦ decide (evidence.principal = .host)

/-- The report that `reportView` makes of the attempt. A boot record of a failure without a stage is from the entry. -/
def viewReport (attempt : PanelAttempt) (input : ViewInput) (evidence : ViewEvidence) : Option AttemptReport :=
  match hostFailure input evidence with
  | some (reporter, stage) => some ⟨.failed, reporter.attemptReporter, some stage, none⟩
  | none => (input.boot.filter fun boot ↦ decide (boot.phase.attemptPhase ≠ attempt.phase)).map fun boot ↦
    { phase := boot.phase.attemptPhase
      reporter := evidence.principal
      failure := if boot.phase = .failed then some (boot.failureStage.getD .entry).attemptStage else none
      stopReason := none }

/-- What a probe answers. -/
inductive ProbeAnswer where
  /-- There is no probe, or it throws. -/
  | unavailable
  | answered (report : Option ViewInput)
  deriving DecidableEq

/-- A round whose probe has not answered: the attempt as it was when the round started. -/
structure ProbeRound where
  attempt : PanelAttempt
  deriving DecidableEq

/-- The coordinator with the probes that are on their way. -/
structure SupervisedCoordinator where
  coordinator : PanelRuntimeCoordinator
  rounds : List ProbeRound

namespace PanelRuntimeCoordinator

def reportViewInput (s : PanelRuntimeCoordinator) (runtimeEntityId connectionId : JsString) (input : ViewInput)
    (evidence : ViewEvidence) : Outcome Unit :=
  s.reportView runtimeEntityId connectionId (decide (evidence ≠ .presentationOnly))
    ((s.viewedAttempt runtimeEntityId connectionId).bind fun attempt ↦ viewReport attempt input evidence)

def reportPhase (s : PanelRuntimeCoordinator) (attemptId : JsString) (report : AttemptReport) :
    PanelRuntimeCoordinator :=
  { s with routes := (s.routes.reportAttemptPhase attemptId report).1 }

/-- The attempt of the round is still at the revision that is probed. -/
def atProbedRevision (s : PanelRuntimeCoordinator) (round : ProbeRound) : Bool :=
  (s.routes.attempts.get round.attempt.attemptId).any fun current ↦ decide (current.revision = round.attempt.revision)

/-- The attempt of the round is there, at the revision that is probed, and on its way. -/
def probeApplies (s : PanelRuntimeCoordinator) (round : ProbeRound) : Bool :=
  (s.routes.attempts.get round.attempt.attemptId).any fun current ↦
    decide (current.revision = round.attempt.revision) && current.live && decide (current.phase ≠ .ready)

/-- The view that the probe reports, when the lease of the slot is bound to the attempt. -/
def reportProbedView (s : PanelRuntimeCoordinator) (round : ProbeRound) (input : ViewInput) :
    PanelRuntimeCoordinator :=
  match (s.leaseForSlot round.attempt.slotId).filter fun lease ↦
      decide (s.routes.routeBindings.get lease.connectionId = some round.attempt.attemptId) with
  | none => s
  | some lease => (s.reportViewInput round.attempt.runtimeEntityId lease.connectionId input .presentationOnly).1

/-- The end of a round, when the attempt has made no progress for long enough. -/
def reportStall (s : PanelRuntimeCoordinator) (round : ProbeRound) (stalled : Bool) : PanelRuntimeCoordinator :=
  if s.atProbedRevision round && stalled then
    s.reportPhase round.attempt.attemptId ⟨.failed, .coordinator, some .bootStall, none⟩
  else s

/-- `superviseAttemptRound`, after the probe. -/
def finishRound (s : PanelRuntimeCoordinator) (round : ProbeRound) (answer : ProbeAnswer) (stalled : Bool) :
    PanelRuntimeCoordinator :=
  match answer with
  | .unavailable => s.reportStall round stalled
  | .answered report =>
    if s.probeApplies round = false then s
    else
      match report.bind ViewInput.failure with
      | some (reporter, stage) =>
        s.reportPhase round.attempt.attemptId ⟨.failed, reporter.attemptReporter, some stage, none⟩
      | none => (report.elim s fun input ↦ s.reportProbedView round input).reportStall round stalled

end PanelRuntimeCoordinator

namespace SupervisedCoordinator

open PanelRuntimeCoordinator

def init : SupervisedCoordinator := ⟨.init, []⟩

inductive Event where
  /-- An operation, other than `reportView`. -/
  | call (c : Call)
  | view (runtimeEntityId connectionId : JsString) (input : ViewInput) (evidence : ViewEvidence)
  | startRound (attemptId : JsString)
  /-- The probe of the `index`-th round answers. -/
  | finishRound (index : ℕ) (answer : ProbeAnswer) (stalled : Bool)

def isReportView : Op → Bool
  | .reportView _ _ _ _ => true
  | _ => false

variable (epoch : JsString) (ids : RandomUuid)

def step (s : SupervisedCoordinator) (e : Event) : Option SupervisedCoordinator :=
  match e with
  | .call c =>
    if isReportView c.op then none
    else (s.coordinator.step epoch ids c).map fun coordinator ↦ { s with coordinator }
  | .view entityId connectionId input evidence =>
    some { s with coordinator := (s.coordinator.reportViewInput entityId connectionId input evidence).1 }
  | .startRound attemptId =>
    ((s.coordinator.routes.attempts.get attemptId).filter fun attempt ↦
      attempt.live && decide (attempt.phase ≠ .ready)).map fun attempt ↦
        { s with rounds := s.rounds ++ [⟨attempt⟩] }
  | .finishRound index answer stalled => s.rounds[index]?.map fun round ↦
    ⟨s.coordinator.finishRound round answer stalled, s.rounds.eraseIdx index⟩

end SupervisedCoordinator

end Vibestudio.Server

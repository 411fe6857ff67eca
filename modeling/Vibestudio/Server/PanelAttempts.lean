import Mathlib
import Vibestudio.Shared.PanelIds

/-!
# Panel attempts and routes

The part of `src/server/panelRuntimeCoordinator.ts` that keeps the attempts to run a panel in a slot and the
connections that are bound to them. A slot has one current attempt; the terminal attempts of a slot are remembered
up to a limit, and what is forgotten is deleted unless it is the current one.

Clocks, build keys, supervision and the observation counters are left out, and of the failure of an attempt only its
stage is kept.
-/

namespace Vibestudio.Server

open Js Shared

inductive AttemptPhase where
  | pending
  | loading
  | booting
  | ready
  | failed
  | stopped
  deriving DecidableEq

inductive AttemptReporter where
  | coordinator
  | build
  | materialization
  | renderer
  | host
  deriving DecidableEq

inductive AttemptFailureStage where
  | build
  | bundleLoad
  | config
  | entry
  | navigation
  | rendererCrash
  | bootStall
  | materialization
  deriving DecidableEq

inductive StopReason where
  | superseded
  | retired
  | unloaded
  | hostLost
  deriving DecidableEq

structure PanelAttempt where
  attemptId : JsString
  slotId : PanelSlotId
  runtimeEntityId : PanelEntityId
  hostConnectionId : Option JsString
  phase : AttemptPhase
  revision : ℕ
  reporter : AttemptReporter
  failure : Option AttemptFailureStage
  stopReason : Option StopReason
  deriving DecidableEq

/-- Neither failed nor stopped. -/
def PanelAttempt.live (attempt : PanelAttempt) : Bool :=
  decide (attempt.phase ≠ .failed ∧ attempt.phase ≠ .stopped)

structure AttemptReport where
  phase : AttemptPhase
  reporter : AttemptReporter
  failure : Option AttemptFailureStage
  stopReason : Option StopReason

/-- A call of `closeConnection`. -/
structure RuntimeLeaseClose where
  runtimeEntityId : PanelEntityId
  connectionId : JsString
  code : ℕ
  reason : JsString
  deriving DecidableEq

def ATTEMPT_HISTORY_LIMIT : ℕ := 8

def PHASE_RANK : AttemptPhase → ℕ
  | .pending => 0
  | .loading => 1
  | .booting => 2
  | .ready => 3
  | .stopped => 4
  -- The source has no rank for this one, and asks for none.
  | .failed => 0

def STOP_CLOSE : StopReason → ℕ × JsString
  | .superseded => (4091, lit "Panel attempt superseded")
  | .retired => (4093, lit "Panel runtime entity retired")
  | .unloaded => (4094, lit "Panel runtime unloaded")
  | .hostLost => (4095, lit "Panel runtime host lost")

/-- What `randomUUID` returns, draw by draw. From the end of a text one can tell which of them it is. -/
structure RandomUuid where
  uuid : ℕ → JsString
  index : JsString → Option ℕ
  index_append : ∀ text n, index (text ++ uuid n) = some n

/-- The text does not end in an id that is drawn later. -/
def RandomUuid.Drawn (ids : RandomUuid) (n : ℕ) (text : JsString) : Prop := ∀ k, ids.index text = some k → k < n

theorem RandomUuid.Drawn.mono {ids : RandomUuid} {m n : ℕ} {text : JsString} (h : ids.Drawn m text) (hle : m ≤ n) :
    ids.Drawn n text := fun k hk ↦ (h k hk).trans_le hle

theorem RandomUuid.drawn_append (ids : RandomUuid) (text : JsString) (n : ℕ) :
    ids.Drawn (n + 1) (text ++ ids.uuid n) := by
  intro k hk
  rw [ids.index_append] at hk
  exact Option.some.inj hk ▸ n.lt_succ_self

theorem RandomUuid.not_drawn_append (ids : RandomUuid) (text : JsString) (n : ℕ) :
    ¬ ids.Drawn n (text ++ ids.uuid n) := fun h ↦ (h n (ids.index_append text n)).false

theorem RandomUuid.not_drawn (ids : RandomUuid) (n : ℕ) : ¬ ids.Drawn n (ids.uuid n) :=
  ids.not_drawn_append [] n

theorem RandomUuid.uuid_ne_nil (ids : RandomUuid) (n : ℕ) : ids.uuid n ≠ [] := by
  intro h
  have hn := ids.index_append (ids.uuid (n + 1)) n
  rw [h, List.append_nil, ← List.nil_append (ids.uuid (n + 1)), ids.index_append] at hn
  exact absurd (Option.some.inj hn) (Nat.succ_ne_self n)

structure PanelAttempts where
  attempts : JsMap JsString PanelAttempt
  currentAttemptBySlot : JsMap PanelSlotId JsString
  terminalHistoryBySlot : JsMap PanelSlotId (List JsString)
  /-- The attempts that connections are bound to. -/
  routeBindings : JsMap JsString JsString
  routeReachability : JsMap JsString Bool
  /-- The attempts of which a page has been observed. -/
  routeViews : List JsString
  /-- The connections that have been closed. -/
  closed : List RuntimeLeaseClose
  /-- How many random ids have been drawn. -/
  drawn : ℕ
  deriving DecidableEq

namespace PanelAttempts

def init : PanelAttempts := ⟨[], [], [], [], [], [], [], 0⟩

def currentAttempt (r : PanelAttempts) (slotId : PanelSlotId) : Option PanelAttempt :=
  (r.currentAttemptBySlot.get slotId).bind r.attempts.get

/-- The current attempt of the slot runs the entity. -/
def healthy (r : PanelAttempts) (slotId : PanelSlotId) (runtimeEntityId : PanelEntityId) : Bool :=
  (r.currentAttempt slotId).any fun attempt ↦ decide (attempt.runtimeEntityId = runtimeEntityId) && attempt.live

def reporterAuthorized (report : AttemptReport) : Bool :=
  match report.reporter with
  | .coordinator => decide (report.phase = .stopped ∨ report.phase = .failed ∧ report.failure = some .bootStall)
  | .build => decide (report.phase = .failed ∧ report.failure = some .build)
  | .materialization => decide (report.phase = .failed ∧ report.failure = some .materialization)
  | .renderer => decide (report.phase ∈ [.loading, .booting, .ready] ∨
      report.phase = .failed ∧ report.failure ∈ [some .bundleLoad, some .config, some .entry])
  | .host => decide (report.phase ∈ [.loading, .booting, .ready] ∨ report.phase = .failed ∧
      report.failure ∈ [some .bundleLoad, some .config, some .entry, some .navigation, some .rendererCrash])

def canAdvance (attempt : PanelAttempt) (next : AttemptPhase) : Bool :=
  if attempt.live = false then false
  else if next = .failed then decide (attempt.phase ≠ .ready)
  else if next = .stopped then true
  else if attempt.phase = .ready then false
  else decide (PHASE_RANK attempt.phase < PHASE_RANK next)

def transitionAttempt (r : PanelAttempts) (attempt : PanelAttempt) (report : AttemptReport) : PanelAttempts :=
  { r with
    attempts := r.attempts.set attempt.attemptId { attempt with
      phase := report.phase
      reporter := report.reporter
      revision := attempt.revision + 1
      failure := report.failure <|> attempt.failure
      stopReason := report.stopReason <|> attempt.stopReason } }

/-- `updateAttempt` of the host connection. -/
def updateAttempt (r : PanelAttempts) (attempt : PanelAttempt) (hostConnectionId : JsString) : PanelAttempts :=
  { r with
    attempts := r.attempts.set attempt.attemptId { attempt with hostConnectionId := some hostConnectionId } }

/-- An attempt that is no longer remembered, unless it is the current one of its slot. -/
def evict (slotId : PanelSlotId) (r : PanelAttempts) (attemptId : JsString) : PanelAttempts :=
  if r.currentAttemptBySlot.get slotId = some attemptId then r
  else { r with
    attempts := r.attempts.delete attemptId
    routeViews := r.routeViews.filter fun id ↦ decide (id ≠ attemptId) }

def rememberTerminal (r : PanelAttempts) (attempt : PanelAttempt) : PanelAttempts :=
  let stored := (r.attempts.get attempt.attemptId).getD attempt
  if stored.live then r
  else
    let history := (r.terminalHistoryBySlot.get stored.slotId).getD []
    let next := stored.attemptId :: history.filter fun id ↦ decide (id ≠ stored.attemptId)
    (next.drop ATTEMPT_HISTORY_LIMIT).foldl (evict stored.slotId)
      { r with
        terminalHistoryBySlot := r.terminalHistoryBySlot.set stored.slotId (next.take ATTEMPT_HISTORY_LIMIT) }

/-- The coordinator stops an attempt that is still live. -/
def supersede (r : PanelAttempts) (attempt : PanelAttempt) (reason : StopReason) : PanelAttempts :=
  if attempt.live then r.transitionAttempt attempt ⟨.stopped, .coordinator, none, some reason⟩ else r

def stopAttempt (r : PanelAttempts) (attemptId : JsString) (reason : StopReason) :
    PanelAttempts × Option PanelAttempt :=
  match r.attempts.get attemptId with
  | none => (r, none)
  | some attempt =>
    let r' := (r.supersede attempt reason).rememberTerminal attempt
    (r', (r'.attempts.get attemptId).getD attempt)

def detachRoute (r : PanelAttempts) (connectionId : JsString) : PanelAttempts :=
  { r with
    routeBindings := r.routeBindings.delete connectionId
    routeReachability := r.routeReachability.delete connectionId }

def closeLeaseConnection (r : PanelAttempts) (runtimeEntityId : PanelEntityId) (connectionId : JsString)
    (reason : StopReason) : PanelAttempts :=
  { r with
    closed := r.closed ++ [⟨runtimeEntityId, connectionId, (STOP_CLOSE reason).1, (STOP_CLOSE reason).2⟩] }

def stopRouteAttempt (r : PanelAttempts) (lease : PanelRuntimeLease) (reason : StopReason) (close : Bool) :
    PanelAttempts :=
  let current := (r.currentAttempt lease.slotId).filter fun a ↦ decide (a.runtimeEntityId = lease.runtimeEntityId)
  let attemptId := r.routeBindings.get lease.connectionId <|> current.map PanelAttempt.attemptId
  let stopped := attemptId.elim r fun attemptId ↦ (r.stopAttempt attemptId reason).1
  let detached := stopped.detachRoute lease.connectionId
  if close then detached.closeLeaseConnection lease.runtimeEntityId lease.connectionId reason else detached

structure CommitInput where
  runtimeEntityId : PanelEntityId
  hostConnectionId : Option JsString
  connectionId : Option JsString

/-- A connection that is bound to the attempt that is superseded. The one that the new attempt is for stays open. -/
def handOver (previous : PanelAttempt) (input : CommitInput) (r : PanelAttempts) (binding : JsString × JsString) :
    PanelAttempts :=
  if binding.2 ≠ previous.attemptId then r
  else
    let detached := r.detachRoute binding.1
    if some binding.1 = input.connectionId then detached
    else detached.closeLeaseConnection previous.runtimeEntityId binding.1 .superseded

/-- The attempt before the one that is committed. -/
def retirePrevious (r : PanelAttempts) (previous : PanelAttempt) (input : CommitInput) : PanelAttempts :=
  let stopped := r.supersede previous .superseded
  (stopped.routeBindings.foldl (handOver previous input) stopped).rememberTerminal previous

/-- `if (connectionId) …`: a connection without a name is not bound. -/
def bindRoute (r : PanelAttempts) (connectionId : Option JsString) (attemptId : JsString) : PanelAttempts :=
  match connectionId.filter fun id ↦ decide (id ≠ []) with
  | none => r
  | some connectionId => { r with
      routeBindings := r.routeBindings.set connectionId attemptId
      routeReachability := r.routeReachability.set connectionId false }

variable (ids : RandomUuid)

/-- `commitAttempt`, of ids that are known to be valid. -/
def commitAttempt (r : PanelAttempts) (slotId : PanelSlotId) (input : CommitInput) : PanelAttempts × PanelAttempt :=
  let retired := (r.currentAttempt slotId).elim r fun previous ↦ r.retirePrevious previous input
  let attempt : PanelAttempt := ⟨ids.uuid retired.drawn, slotId, input.runtimeEntityId,
    input.hostConnectionId.filter fun id ↦ decide (id ≠ []), .pending, 0, .coordinator, none, none⟩
  (bindRoute { retired with
      attempts := retired.attempts.set attempt.attemptId attempt
      currentAttemptBySlot := retired.currentAttemptBySlot.set slotId attempt.attemptId
      drawn := retired.drawn + 1 } input.connectionId attempt.attemptId, attempt)

def ensureAttemptForSlot (r : PanelAttempts) (slotId : PanelSlotId) (entityId : PanelEntityId) :
    PanelAttempts × PanelAttempt :=
  match (r.currentAttempt slotId).filter fun a ↦ decide (a.runtimeEntityId = entityId ∧ a.phase ≠ .stopped) with
  | some current => (r, current)
  | none => r.commitAttempt ids slotId ⟨entityId, none, none⟩

def reportAttemptPhase (r : PanelAttempts) (attemptId : JsString) (report : AttemptReport) : PanelAttempts × Bool :=
  match r.attempts.get attemptId with
  | none => (r, false)
  | some attempt =>
    if reporterAuthorized report && canAdvance attempt report.phase then
      (r.transitionAttempt attempt report, true)
    else (r, false)

/-- The lease that is written continues the current attempt: on the same connection, or when the attempt still waits
for a host. -/
def reusesCurrentMaterialization (r : PanelAttempts) (slotId : PanelSlotId) (runtimeEntityId : PanelEntityId)
    (previous : Option PanelRuntimeLease) (connectionId : JsString) : Bool :=
  r.healthy slotId runtimeEntityId && (r.currentAttempt slotId).any fun attempt ↦
    decide (previous.map PanelRuntimeLease.connectionId = some connectionId ∨
      previous = none ∧ attempt.phase = .pending ∧ attempt.hostConnectionId = none)

/-- What `writeLease` does about the attempt. -/
def attach (r : PanelAttempts) (lease : PanelRuntimeLease) (previous : Option PanelRuntimeLease) : PanelAttempts :=
  match (r.currentAttempt lease.slotId).filter fun _ ↦
      r.reusesCurrentMaterialization lease.slotId lease.runtimeEntityId previous lease.connectionId with
  | none => (r.commitAttempt ids lease.slotId
      ⟨lease.runtimeEntityId, lease.hostConnectionId, lease.connectionId⟩).1
  | some reused =>
    let updated := r.updateAttempt reused lease.hostConnectionId
    { updated with
      routeBindings := updated.routeBindings.set lease.connectionId reused.attemptId
      routeReachability :=
        if (updated.routeReachability.get lease.connectionId).isSome then updated.routeReachability
        else updated.routeReachability.set lease.connectionId false }

end PanelAttempts

end Vibestudio.Server

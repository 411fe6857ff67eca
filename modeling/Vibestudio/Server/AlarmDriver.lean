import Mathlib
import Vibestudio.WorkspaceState.Alarms

/-!
# The scheduler of alarms

`AlarmDriver` of `src/server/services/alarmDriver.ts`, over the tables of `WorkspaceDO`. A step is what
runs between two awaits, a timer that fires, or `WorkspaceDO` running a call that is under way; a call
may be rejected before or after it has run. Dispatches take any time. Others may change the tables
between any two steps: `unnotified` says that there was such a change since the last `notifyChanged`.

Milliseconds are natural numbers and the clock does not go back. `calls` is a record that no step reads.
State changes are reported to a listener that is left out.
-/

namespace Vibestudio.Server.Alarms

open Js WorkspaceState

/-! ## The state -/

structure Deps where
  workerId : JsString
  concurrency : ℕ
  positive : 1 ≤ concurrency

inductive Operation where
  | refresh | fire
  deriving DecidableEq

/-- Where the one driving operation is. Of a call that is under way there is its answer once it ran. -/
inductive DrivePhase where
  | adopting (operation : Operation) (ran : Bool)
  /-- The promise of `ensureAdopted` has settled. -/
  | adopted (operation : Operation) (ok : Bool)
  | reading (now : ℕ) (exclude : List LifecycleKey) (answer : Option (Option ℕ))
  | claiming (input : AlarmClaimDueInput) (answer : Option (List AlarmClaim))
  /-- The promise of `refreshTimer` has settled. -/
  | refreshed
  /-- The promise of `fireOnce` has settled. -/
  | fired (ok : Bool)
  /-- The promise of `drive` has settled and its `finally` is due. -/
  | ended

structure Drive where
  id : ℕ
  phase : DrivePhase

inductive TimerTask where
  | retry (operation : Operation)
  | wake
  deriving DecidableEq

structure Timer where
  fireAt : ℕ
  task : TimerTask
  deriving DecidableEq

/-- Where a lane is: its dispatch, or the call with its outcome. -/
inductive LanePhase where
  | dispatching
  | setting (wakeAt : ℕ) (ran : Bool)
  | completing (nextAlarm : Option NextAlarm) (ran : Bool)
  /-- The promise has settled and its `finally` is due. -/
  | ended

structure Lane where
  id : ℕ
  target : AlarmClaim
  aborted : Bool
  phase : LanePhase

inductive QuiescePhase where
  | awaitsDrive (drive : Option ℕ)
  | awaitsLanes (lanes : List ℕ)
  | resolved
  deriving DecidableEq

/-- A call of `quiesce`, and whether `start` was called since. -/
structure Quiesce where
  phase : QuiescePhase
  restarted : Bool
  deriving DecidableEq

inductive Call where
  | start
  | stop
  | dispatch (id : ℕ)
  deriving DecidableEq

structure Driver where
  adopted : Bool
  timer : Option Timer
  stopped : Bool
  driving : Option Drive
  refreshRequested : Bool
  fireRequested : Bool
  failureRetryOperation : Option Operation
  consecutiveFailures : ℕ
  activeTargets : JsMap JsString AlarmClaim
  activeLanes : List Lane
  quiesces : List Quiesce
  nextDrive : ℕ
  nextLane : ℕ
  now : ℕ
  tables : AlarmTables
  unnotified : Bool
  /-- The last call first. -/
  calls : List Call

/-- A driver that has not been started. -/
def Driver.new (tables : AlarmTables) : Driver :=
  ⟨false, none, true, none, false, false, none, 0, [], [], [], 0, 0, 0, tables, false, []⟩

def maxTimerMs : ℕ := 2000000000
def failureRetryMinMs : ℕ := 1000
def failureRetryMaxMs : ℕ := 30000

def targetKey (target : AlarmClaim) : JsString := AlarmTables.excludeText target.key

namespace Driver

variable (deps : Deps) (s : Driver)

/-! ## The driving operation -/

def setDrive (phase : DrivePhase) : Driver :=
  { s with driving := s.driving.map fun d ↦ { d with phase } }

/-- `ensureAdopted`, up to its await or its return. -/
def ensureAdopted (operation : Operation) : Driver :=
  s.setDrive (if s.adopted then .adopted operation true else .adopting operation false)

/-- The loop of `drive` up to its next await. -/
def driveLoop : Driver :=
  if s.stopped then s.setDrive .ended
  else if s.fireRequested then
    ({ s with fireRequested := false, refreshRequested := false }).ensureAdopted .fire
  else if s.refreshRequested then ({ s with refreshRequested := false }).ensureAdopted .refresh
  else s.setDrive .ended

def kick : Driver :=
  if s.stopped ∨ s.driving.isSome ∨ s.failureRetryOperation.isSome then s
  else ({ s with driving := some ⟨s.nextDrive, .ended⟩, nextDrive := s.nextDrive + 1 }).driveLoop

def requestRefresh : Driver :=
  if s.stopped then s
  else if s.failureRetryOperation.isSome then { s with refreshRequested := true }
  else ({ s with refreshRequested := true }).kick

def requestFire : Driver :=
  if s.stopped then s else ({ s with fireRequested := true }).kick

def armFailureRetry (operation : Operation) : Driver :=
  if s.stopped then s
  else
    let failures := s.consecutiveFailures + 1
    let delay := min failureRetryMaxMs (failureRetryMinMs * 2 ^ min (failures - 1) 30)
    { s with
      consecutiveFailures := failures
      failureRetryOperation := some operation
      timer := some ⟨s.now + delay, .retry operation⟩ }

/-! ## Calls from outside -/

def start : Driver :=
  let quiesces := s.quiesces.map fun q ↦ { q with restarted := true }
  ({ s with stopped := false, adopted := false, quiesces, calls := .start :: s.calls }).requestRefresh

/-- The controllers of the dispatches that are under way are aborted. -/
def abortDispatch (lane : Lane) : Lane := match lane.phase with
  | .dispatching => { lane with aborted := true }
  | _ => lane

def stop : Driver :=
  { s with
    stopped := true
    timer := none
    refreshRequested := false
    fireRequested := false
    failureRetryOperation := none
    consecutiveFailures := 0
    activeLanes := s.activeLanes.map abortDispatch
    calls := .stop :: s.calls }

def quiesce : Driver :=
  let s := s.stop
  { s with quiesces := s.quiesces ++ [⟨.awaitsDrive (s.driving.map Drive.id), false⟩] }

/-- What a call of `quiesce` does when what it waits for has happened. -/
def continueQuiesce : QuiescePhase → Option QuiescePhase
  | .awaitsDrive drive =>
    if drive.isSome ∧ s.driving.map Drive.id = drive then none
    else some (.awaitsLanes (s.activeLanes.map Lane.id))
  | .awaitsLanes lanes =>
    if s.activeLanes.any fun lane ↦ decide (lane.id ∈ lanes) then none else some .resolved
  | .resolved => none

def quiesceContinues (i : ℕ) : Option Driver :=
  (s.quiesces[i]?).bind fun q ↦ (s.continueQuiesce q.phase).map fun phase ↦
    { s with quiesces := s.quiesces.set i { q with phase } }

def notifyChanged : Driver := ({ s with unnotified := false }).requestRefresh

/-- Someone else changes the tables. -/
def tableChanges (f : AlarmTables → AlarmTables) : Driver :=
  { s with tables := f s.tables, unnotified := true }

def timerFires : Option Driver := s.timer.bind fun timer ↦
  if s.now < timer.fireAt then none
  else match timer.task with
    | .wake => some ({ s with timer := none }).requestFire
    | .retry .fire => some ({ s with timer := none, failureRetryOperation := none }).requestFire
    | .retry .refresh => some ({ s with timer := none, failureRetryOperation := none }).requestRefresh

/-! ## Lanes -/

/-- `startLane`, and `runLane` up to its first await. -/
def startLane (paused : LifecycleKey → Bool) (target : AlarmClaim) : Driver :=
  let phase := if paused target.key then .setting (s.now + 60000) false else .dispatching
  { s with
    activeTargets := s.activeTargets.set (targetKey target) target
    activeLanes := s.activeLanes ++ [⟨s.nextLane, target, false, phase⟩]
    nextLane := s.nextLane + 1
    calls := if paused target.key then s.calls else .dispatch s.nextLane :: s.calls }

/-- `for (const target of due) this.startLane(target)`; it throws for a target that is active. -/
def startLanes (paused : LifecycleKey → Bool) : List AlarmClaim → Driver → Driver × Bool
  | [], s => (s, true)
  | target :: due, s =>
    if (s.activeTargets.get (targetKey target)).isSome then (s, false)
    else startLanes paused due (s.startLane paused target)

def onLane (id : ℕ) (f : Lane → Option Driver) : Option Driver :=
  (s.activeLanes.find? fun lane ↦ decide (lane.id = id)).bind f

def setLane (id : ℕ) (phase : LanePhase) : Driver :=
  { s with activeLanes := s.activeLanes.map fun lane ↦ if lane.id = id then { lane with phase } else lane }

def dispatchReturns (id : ℕ) (nextAlarm : Option NextAlarm) : Option Driver := s.onLane id fun lane ↦
  match lane.phase with
  | .dispatching => some (s.setLane id (.completing nextAlarm false))
  | _ => none

/-- The dispatch failed, or its result was not one. -/
def dispatchThrows (id : ℕ) (permanent : Bool) : Option Driver := s.onLane id fun lane ↦
  match lane.phase with
  | .dispatching => some (s.setLane id (if (s.stopped && lane.aborted) || permanent then .ended
      else .setting (s.now + 5000) false))
  | _ => none

/-- `WorkspaceDO` runs the call of a lane. -/
def laneCallRuns (id : ℕ) : Option Driver := s.onLane id fun lane ↦
  match lane.phase with
  | .setting wakeAt false =>
    match s.tables.alarmSet ⟨lane.target.key, wakeAt, none, some deps.workerId,
        some lane.target.dispatchGeneration⟩ with
    | .ok (tables, _) => some (({ s with tables }).setLane id (.setting wakeAt true))
    | .error _ => none
  | .completing nextAlarm false =>
    match s.tables.alarmComplete ⟨lane.target.key, deps.workerId, lane.target.dispatchGeneration,
        lane.target.wakeRequest, nextAlarm⟩ with
    | .ok (tables, _) => some (({ s with tables }).setLane id (.completing nextAlarm true))
    | .error _ => none
  | _ => none

def laneCallReturns (id : ℕ) : Option Driver := s.onLane id fun lane ↦
  match lane.phase with
  | .setting _ true | .completing _ true => some (s.setLane id .ended)
  | _ => none

def laneCallRejects (id : ℕ) : Option Driver := s.onLane id fun lane ↦
  match lane.phase with
  | .setting _ _ | .completing _ _ => some (s.setLane id .ended)
  | _ => none

def laneFinally (id : ℕ) : Option Driver := s.onLane id fun lane ↦
  match lane.phase with
  | .ended => some ({ s with
      activeLanes := s.activeLanes.filter fun lane ↦ decide (lane.id ≠ id)
      activeTargets := s.activeTargets.delete (targetKey lane.target) }).requestRefresh
  | _ => none

/-! ## Continuations of the driving operation -/

def onDrive (f : DrivePhase → Option Driver) : Option Driver := s.driving.bind fun d ↦ f d.phase

/-- `[...this.activeTargets.values()]`. -/
def excluded : List LifecycleKey := s.activeTargets.map fun p ↦ p.2.key

/-- `WorkspaceDO` runs the call of the driving operation. -/
def callRuns : Option Driver := s.onDrive fun
  | .adopting operation false => match s.tables.alarmAdoptWorker deps.workerId with
    | .ok tables => some (({ s with tables }).setDrive (.adopting operation true))
    | .error _ => none
  | .reading now exclude none => match s.tables.alarmNextWakeAt now exclude with
    | .ok next => some (s.setDrive (.reading now exclude (some next)))
    | .error _ => none
  | .claiming input none => match s.tables.alarmClaimDue input with
    | .ok (tables, due) => some (({ s with tables }).setDrive (.claiming input (some due)))
    | .error _ => none
  | _ => none

def adoptReturns : Option Driver := s.onDrive fun
  | .adopting operation true =>
    if s.stopped then some (s.setDrive (.adopted operation false))
    else some (({ s with adopted := true }).setDrive (.adopted operation true))
  | _ => none

def readReturns : Option Driver := s.onDrive fun
  | .reading _ _ (some next) =>
    if s.stopped then some (s.setDrive .refreshed)
    else some (({ s with
      consecutiveFailures := 0
      timer := next.map fun next ↦ ⟨s.now + min maxTimerMs (next - s.now), .wake⟩ }).setDrive .refreshed)
  | _ => none

def claimReturns (paused : LifecycleKey → Bool) : Option Driver := s.onDrive fun
  | .claiming _ (some due) =>
    match startLanes paused due { s with consecutiveFailures := 0 } with
    | (s, true) => some (s.setDrive (.fired true))
    -- nothing handles the rejection of `drive`, so the process ends
    | (_, false) => none
  | _ => none

def callRejects : Option Driver := s.onDrive fun
  | .adopting operation _ => some ((s.armFailureRetry .refresh).setDrive (.adopted operation false))
  | .reading _ _ _ => some ((s.armFailureRetry .refresh).setDrive .refreshed)
  | .claiming _ _ => some ((s.armFailureRetry .fire).setDrive (.fired false))
  | _ => none

def driveContinues : Option Driver := s.onDrive fun
  | .adopted .refresh false => some (s.setDrive .refreshed)
  | .adopted .fire false => some (s.setDrive (.fired false))
  | .adopted .refresh true =>
    if deps.concurrency ≤ s.activeLanes.length then some (({ s with timer := none }).setDrive .refreshed)
    else some (s.setDrive (.reading s.now s.excluded none))
  | .adopted .fire true =>
    if deps.concurrency ≤ s.activeLanes.length then some (s.setDrive (.fired true))
    else some (s.setDrive (.claiming
      ⟨s.now, deps.workerId, deps.concurrency - s.activeLanes.length, s.excluded⟩ none))
  | .refreshed => some s.driveLoop
  | .fired true => some ({ s with refreshRequested := true }).driveLoop
  | .fired false => some s.driveLoop
  | _ => none

def driveFinally : Option Driver := s.onDrive fun
  | .ended =>
    let s := { s with driving := none }
    some (if ¬s.stopped ∧ (s.fireRequested ∨ s.refreshRequested) then s.kick else s)
  | _ => none

end Driver

/-! ## Runs -/

inductive Event where
  | start
  | stop
  | quiesce
  | quiesceContinues (call : ℕ)
  | notifyChanged
  | tick (ms : ℕ)
  | tableChanges (f : AlarmTables → AlarmTables)
  | timerFires
  | callRuns
  | adoptReturns
  | readReturns
  | claimReturns (paused : LifecycleKey → Bool)
  | callRejects
  | driveContinues
  | driveFinally
  | dispatchReturns (id : ℕ) (nextAlarm : Option NextAlarm)
  | dispatchThrows (id : ℕ) (permanent : Bool)
  | laneCallRuns (id : ℕ)
  | laneCallReturns (id : ℕ)
  | laneCallRejects (id : ℕ)
  | laneFinally (id : ℕ)

/-- One step, or `none` when the event cannot happen now. -/
def step (deps : Deps) (s : Driver) : Event → Option Driver
  | .start => some s.start
  | .stop => some s.stop
  | .quiesce => some s.quiesce
  | .quiesceContinues call => s.quiesceContinues call
  | .notifyChanged => some s.notifyChanged
  | .tick ms => some { s with now := s.now + ms }
  | .tableChanges f => some (s.tableChanges f)
  | .timerFires => s.timerFires
  | .callRuns => s.callRuns deps
  | .adoptReturns => s.adoptReturns
  | .readReturns => s.readReturns
  | .claimReturns paused => s.claimReturns paused
  | .callRejects => s.callRejects
  | .driveContinues => s.driveContinues deps
  | .driveFinally => s.driveFinally
  | .dispatchReturns id nextAlarm => s.dispatchReturns id nextAlarm
  | .dispatchThrows id permanent => s.dispatchThrows id permanent
  | .laneCallRuns id => s.laneCallRuns deps id
  | .laneCallReturns id => s.laneCallReturns id
  | .laneCallRejects id => s.laneCallRejects id
  | .laneFinally id => s.laneFinally id

end Vibestudio.Server.Alarms

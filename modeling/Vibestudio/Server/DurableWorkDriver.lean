import Mathlib
import Vibestudio.Js.Map
import Vibestudio.Js.Text

/-!
# The dispatcher of durable work

`DurableWorkDriver` of `src/server/services/durableWorkDriver.ts`, with the lanes and keys of
`createDurableWorkHandlers`. A step is what runs between two awaits: a call from outside, the
continuation of an answer, or a callback of a promise that has settled. Calls of the handlers take any
time and may fail, and so may the wait for a turn in `serializeByKey`, which here ends at any step.

The symbol of a lane is the number of the claim it was drawn for, and `calls` is a record of the calls
of the handlers that no step reads. Traces and counters for `inspect` are left out.
-/

namespace Vibestudio.Server.DurableWork

open Js

/-! ## Claims and hints -/

structure DORef where
  source : JsString
  className : JsString
  objectKey : JsString
  deriving DecidableEq

inductive DurableWorkQueue where
  | channelDelivery | channelObservation | workspacePublication
  deriving DecidableEq

inductive DurableWorkTrigger where
  | hint | recovery | continuation
  deriving DecidableEq

structure DurableWorkReadyHint where
  owner : DORef
  queues : List DurableWorkQueue
  deriving DecidableEq

/-- A claim; of its payload there is the lane key. -/
structure WorkClaim where
  itemId : JsString
  generation : ℕ
  laneKey : Option JsString
  deriving DecidableEq

def DurableWorkQueue.text : DurableWorkQueue → JsString
  | channelDelivery => lit "channel-delivery"
  | channelObservation => lit "channel-observation"
  | workspacePublication => lit "workspace-publication"

/-- Parts with `\u0000` between them. -/
def nulJoin : List JsString → JsString
  | [] => []
  | [s] => s
  | s :: rest => s ++ 0 :: nulJoin rest

def hintKey (owner : DORef) (queue : DurableWorkQueue) : JsString :=
  nulJoin [owner.source, owner.className, owner.objectKey, queue.text]

/-- What the driver asks of the handler of a queue without waiting. -/
structure DurableWorkHandlers where
  prepares : DurableWorkQueue → Bool
  laneKey : DurableWorkQueue → DORef → WorkClaim → JsString

def createDurableWorkHandlers : DurableWorkHandlers where
  prepares queue := decide (queue = .channelObservation)
  laneKey _ owner claim := match claim.laneKey with
    | some (c :: supplied) => c :: supplied
    | _ => nulJoin [owner.source, owner.className, owner.objectKey, claim.itemId]

structure Deps where
  handlers : DurableWorkHandlers
  concurrency : ℕ
  positive : 1 ≤ concurrency

def Deps.lane (deps : Deps) (owner : DORef) (queue : DurableWorkQueue) (claim : WorkClaim) : JsString :=
  nulJoin [queue.text, deps.handlers.laneKey queue owner claim]

/-! ## The state -/

/-- A claim that the driver works on. Its number is also the token of its lane. -/
structure Work where
  id : ℕ
  owner : DORef
  queue : DurableWorkQueue
  claim : WorkClaim
  lane : JsString
  trigger : DurableWorkTrigger
  deriving DecidableEq

inductive PreparationPhase where
  | preparing
  | failQueued
  | failing
  /-- The failure is recorded; a continuation may have to be asked for. -/
  | failed (continues : Bool)
  /-- The promise has settled and its `finally` is due. -/
  | ended (handedOff : Bool)
  deriving DecidableEq

structure Preparation where
  work : Work
  aborted : Bool
  phase : PreparationPhase
  deriving DecidableEq

variable (Ω : Type)

/-- `settled` says whether the failure is that of the settlement. -/
inductive RunnerPhase where
  | executing
  | settleQueued (outcome : Ω)
  | settling (outcome : Ω)
  | settleRejected
  | failQueued (settled : Bool)
  | failing (settled : Bool)
  | ended (ownsContinuation : Bool)

structure Runner where
  work : Work
  aborted : Bool
  phase : RunnerPhase Ω

structure PendingHint where
  owner : DORef
  queue : DurableWorkQueue
  trigger : DurableWorkTrigger
  deriving DecidableEq

inductive PumpPhase where
  | claimQueued (key : JsString) (hint : PendingHint)
  | claiming (key : JsString) (hint : PendingHint) (limit : ℕ)
  /-- A second claim of a lane fails before the rest of its batch is looked at. -/
  | failQueued (duplicate : Work) (rest : List WorkClaim)
  | failing (duplicate : Work) (rest : List WorkClaim)
  /-- The promise has settled and `finishPump` is due. -/
  | returned
  deriving DecidableEq

structure Pump where
  id : ℕ
  phase : PumpPhase
  deriving DecidableEq

structure Recovery where
  id : ℕ
  settled : Bool
  deriving DecidableEq

inductive QuiescePhase where
  | awaitsPump (pump : Option ℕ)
  | awaitsWork (prerequisites runners : List ℕ)
  | awaitsRecovery (recovery : Option ℕ)
  | resolved
  deriving DecidableEq

/-- A call of `quiesce`, and whether `start` was called since. -/
structure Quiesce where
  phase : QuiescePhase
  restarted : Bool
  deriving DecidableEq

/-- A call of a handler or how one ended, and what opens and closes the driver. Work that is given up
without a settlement or a failure is `aborted` when its call ends, or `cleared` with the work that
waits for a slot. -/
inductive Call where
  | start
  | quiesce
  | claim (key : JsString)
  | received (id : ℕ) (lane : JsString) (occupied : Bool)
  | prepare (id : ℕ)
  | prepareThrew (id : ℕ)
  | execute (id : ℕ)
  | executed (id : ℕ) (outcome : Ω)
  | executeThrew (id : ℕ)
  | settle (id : ℕ) (outcome : Ω)
  | settled (id : ℕ)
  | settleRejected (id : ℕ)
  | fail (id : ℕ)
  | failed (id : ℕ)
  | aborted (id : ℕ)
  | cleared (id : ℕ)
  deriving DecidableEq

structure Driver where
  accepting : Bool
  pending : JsMap JsString PendingHint
  claiming : List JsString
  activeLanes : JsMap JsString ℕ
  prerequisites : List Preparation
  runners : List (Runner Ω)
  runnable : List Work
  pumping : Option Pump
  recovering : Option Recovery
  quiesces : List Quiesce
  nextWork : ℕ
  nextPump : ℕ
  nextRecovery : ℕ
  /-- The last call first. -/
  calls : List (Call Ω)

/-- A driver that has not been started. -/
def Driver.new : Driver Ω := ⟨false, [], [], [], [], [], [], none, none, [], 0, 0, 0, []⟩

variable {Ω}

/-! ## Lanes, runners and prerequisites -/

namespace Driver

variable (deps : Deps) (s : Driver Ω)

def record (c : Call Ω) : Driver Ω := { s with calls := c :: s.calls }

def releaseLane (lane : JsString) (token : ℕ) : Driver Ω :=
  if s.activeLanes.get lane = some token then { s with activeLanes := s.activeLanes.delete lane } else s

/-- `this.accepting && this.runners.size < this.concurrency`. -/
def hasSlot : Bool := s.accepting && decide (s.runners.length < deps.concurrency)

def startRunner (w : Work) : Driver Ω :=
  { s with
    activeLanes := s.activeLanes.set w.lane w.id
    runners := s.runners ++ [⟨w, false, .executing⟩]
    calls := .execute w.id :: s.calls }

def startPrerequisite (w : Work) : Driver Ω :=
  { s with
    activeLanes := s.activeLanes.set w.lane w.id
    prerequisites := s.prerequisites ++ [⟨w, false, .preparing⟩]
    calls := .prepare w.id :: s.calls }

def setPump (phase : PumpPhase) : Driver Ω :=
  { s with pumping := s.pumping.map fun p ↦ { p with phase } }

/-! ## The pump -/

/-- The turns of the loop that start runnable work. -/
def startReady : List Work → Driver Ω → Driver Ω
  | [], s => { s with runnable := [] }
  | w :: ready, s =>
    if s.hasSlot deps then startReady ready (s.startRunner w) else { s with runnable := w :: ready }

/-- The turns of the loop that take a hint, up to one that is not being claimed. -/
def takeHint : JsMap JsString PendingHint → Driver Ω → Driver Ω
  | [], s => ({ s with pending := [] }).setPump .returned
  | (key, hint) :: pending, s =>
    if key ∈ s.claiming then takeHint pending s
    else ({ s with pending, claiming := key :: s.claiming }).setPump (.claimQueued key hint)

/-- The loop of `pump` up to its next await. -/
def pumpLoop : Driver Ω :=
  let s := startReady deps s.runnable s
  if s.hasSlot deps then takeHint s.pending s else s.setPump .returned

/-- The loop over the claims up to a claim of an occupied lane. -/
def admitClaims (hint : PendingHint) : List WorkClaim → Driver Ω → Driver Ω
  | [], s => s.pumpLoop deps
  | claim :: rest, s =>
    let lane := deps.lane hint.owner hint.queue claim
    let w : Work := ⟨s.nextWork, hint.owner, hint.queue, claim, lane, hint.trigger⟩
    let occupied := (s.activeLanes.get lane).isSome
    let s := { s with nextWork := s.nextWork + 1, calls := .received w.id lane occupied :: s.calls }
    if occupied then s.setPump (.failQueued w rest)
    else if deps.handlers.prepares hint.queue then admitClaims hint rest (s.startPrerequisite w)
    else admitClaims hint rest (s.startRunner w)

def kick : Driver Ω :=
  if s.pumping.isSome ∨ ¬s.hasSlot deps then s
  else ({ s with pumping := some ⟨s.nextPump, .returned⟩, nextPump := s.nextPump + 1 }).pumpLoop deps

def finishPump : Driver Ω :=
  let s := { s with pumping := none }
  if s.hasSlot deps ∧ (s.pending ≠ [] ∨ s.runnable ≠ []) then s.kick deps else s

/-! ## Calls from outside -/

def addHints (owner : DORef) (trigger : DurableWorkTrigger) (queues : List DurableWorkQueue) : Driver Ω :=
  { s with pending := queues.foldl (fun pending queue ↦
      pending.set (hintKey owner queue) ⟨owner, queue, trigger⟩) s.pending }

def notify (hint : DurableWorkReadyHint) (trigger : DurableWorkTrigger) : Driver Ω :=
  if s.accepting then (s.addHints hint.owner trigger hint.queues).kick deps else s

def start : Driver Ω :=
  if s.accepting then s
  else
    let quiesces := s.quiesces.map fun q ↦ { q with restarted := true }
    ({ s with accepting := true, quiesces, calls := .start :: s.calls }).kick deps

def recoverNow : Driver Ω :=
  if s.accepting ∧ s.recovering = none then
    { s with recovering := some ⟨s.nextRecovery, false⟩, nextRecovery := s.nextRecovery + 1 }
  else s

/-- The continuation of a recovery scan; a scan that failed has no hints. -/
def recovered (hints : List DurableWorkReadyHint) : Driver Ω :=
  let s := { s with recovering := s.recovering.map fun r ↦ { r with settled := true } }
  hints.foldl (fun s hint ↦ s.notify deps hint .recovery) s

def quiesce : Driver Ω :=
  { s with
    accepting := false
    pending := []
    prerequisites := s.prerequisites.map fun p ↦ { p with aborted := true }
    runners := s.runners.map fun r ↦ { r with aborted := true }
    quiesces := s.quiesces ++ [⟨.awaitsPump (s.pumping.map Pump.id), false⟩]
    calls := .quiesce :: s.calls }

/-- `for (const ready of this.runnable.splice(0)) this.releaseLane(…)`. -/
def dropRunnable : Driver Ω :=
  { s.runnable.foldl (fun s w ↦ (s.record (.cleared w.id)).releaseLane w.lane w.id) s with
    runnable := [] }

/-- What a call of `quiesce` does when what it waits for has happened. A promise it waits for has run
its callbacks by then, since they were registered before. -/
def continueQuiesce : QuiescePhase → Option (Driver Ω × QuiescePhase)
  | .awaitsPump pump =>
    if pump.isSome ∧ s.pumping.map Pump.id = pump then none
    else some (s, .awaitsWork (s.prerequisites.map (·.work.id)) (s.runners.map (·.work.id)))
  | .awaitsWork prerequisites runners =>
    if s.prerequisites.any (fun p ↦ decide (p.work.id ∈ prerequisites)) ||
      s.runners.any (fun r ↦ decide (r.work.id ∈ runners)) then none
    else some (s.dropRunnable, .awaitsRecovery (s.recovering.map Recovery.id))
  | .awaitsRecovery recovery =>
    if recovery.isSome ∧ s.recovering.any fun r ↦ decide (some r.id = recovery) && !r.settled then none
    else some (s, .resolved)
  | .resolved => none

def quiesceContinues (i : ℕ) : Option (Driver Ω) :=
  (s.quiesces[i]?).bind fun q ↦ (s.continueQuiesce q.phase).map fun (s, phase) ↦
    { s with quiesces := s.quiesces.set i { q with phase } }

/-! ## Continuations of the pump -/

/-- The claim is over and its key no longer being claimed. -/
def endClaim (key : JsString) : Driver Ω := { s with claiming := s.claiming.filter (· ≠ key) }

def onPump (f : PumpPhase → Option (Driver Ω)) : Option (Driver Ω) := s.pumping.bind fun p ↦ f p.phase

def claimBegins : Option (Driver Ω) := s.onPump fun
  | .claimQueued key hint => some (({ s with calls := .claim key :: s.calls }).setPump
      (.claiming key hint (deps.concurrency - s.runners.length)))
  | _ => none

/-- The owner answers with at most as many claims as it was asked for. -/
def claimReturns (claims : List WorkClaim) : Option (Driver Ω) := s.onPump fun
  | .claiming key hint limit =>
    if claims.length ≤ limit then some (admitClaims deps hint claims (s.endClaim key)) else none
  | _ => none

def claimRejects : Option (Driver Ω) := s.onPump fun
  | .claiming key _ _ => some ((s.endClaim key).pumpLoop deps)
  | _ => none

def duplicateFailBegins : Option (Driver Ω) := s.onPump fun
  | .failQueued w rest => some ((s.record (.fail w.id)).setPump (.failing w rest))
  | _ => none

/-- The failure is recorded, or it could not be, which is only logged. -/
def duplicateFailSettles : Option (Driver Ω) := s.onPump fun
  | .failing w rest => some (admitClaims deps ⟨w.owner, w.queue, w.trigger⟩ rest (s.record (.failed w.id)))
  | _ => none

def pumpFinishes : Option (Driver Ω) := s.onPump fun
  | .returned => some (s.finishPump deps)
  | _ => none

/-! ## Continuations of a preparation -/

def onPreparation (id : ℕ) (f : Preparation → Option (Driver Ω)) : Option (Driver Ω) :=
  (s.prerequisites.find? fun p ↦ decide (p.work.id = id)).bind f

def setPreparation (id : ℕ) (phase : PreparationPhase) : Driver Ω :=
  { s with prerequisites := s.prerequisites.map fun p ↦
      if p.work.id = id then { p with phase } else p }

def prepareReturns (id : ℕ) : Option (Driver Ω) := s.onPreparation id fun p ↦
  match p.phase with
  | .preparing =>
    if s.accepting ∧ ¬p.aborted then
      some (({ s with runnable := s.runnable ++ [p.work] }).setPreparation id (.ended true))
    else some (((s.record (.aborted id)).releaseLane p.work.lane id).setPreparation id (.ended false))
  | _ => none

def prepareThrows (id : ℕ) : Option (Driver Ω) := s.onPreparation id fun p ↦
  match p.phase with
  | .preparing =>
    if p.aborted then some ((((s.record (.prepareThrew id)).record (.aborted id)).releaseLane
      p.work.lane id).setPreparation id (.ended false))
    else some ((s.record (.prepareThrew id)).setPreparation id .failQueued)
  | _ => none

def prepareFailBegins (id : ℕ) : Option (Driver Ω) := s.onPreparation id fun p ↦
  match p.phase with
  | .failQueued => some ((s.record (.fail id)).setPreparation id .failing)
  | _ => none

/-- A failure that is stale, terminal or could not be recorded asks for no continuation. -/
def prepareFailSettles (id : ℕ) (continues : Bool) : Option (Driver Ω) := s.onPreparation id fun p ↦
  match p.phase with
  | .failing => some (((s.record (.failed id)).releaseLane p.work.lane id).setPreparation id
      (.failed continues))
  | _ => none

def prepareContinues (id : ℕ) : Option (Driver Ω) := s.onPreparation id fun p ↦
  match p.phase with
  | .failed continues =>
    let s := s.setPreparation id (.ended false)
    some (if continues then s.notify deps ⟨p.work.owner, [p.work.queue]⟩ .continuation else s)
  | _ => none

def prepareFinally (id : ℕ) : Option (Driver Ω) := s.onPreparation id fun p ↦
  match p.phase with
  | .ended handedOff =>
    let s := { s with prerequisites := s.prerequisites.filter fun p ↦ decide (p.work.id ≠ id) }
    some ((if handedOff then s else s.releaseLane p.work.lane id).kick deps)
  | _ => none

/-! ## Continuations of a runner -/

def onRunner (id : ℕ) (f : Runner Ω → Option (Driver Ω)) : Option (Driver Ω) :=
  (s.runners.find? fun r ↦ decide (r.work.id = id)).bind f

def setRunner (id : ℕ) (phase : RunnerPhase Ω) : Driver Ω :=
  { s with runners := s.runners.map fun r ↦ if r.work.id = id then { r with phase } else r }

def executeReturns (id : ℕ) (outcome : Ω) : Option (Driver Ω) := s.onRunner id fun r ↦
  match r.phase with
  | .executing => some ((s.record (.executed id outcome)).setRunner id (.settleQueued outcome))
  | _ => none

def executeThrows (id : ℕ) : Option (Driver Ω) := s.onRunner id fun r ↦
  match r.phase with
  | .executing =>
    if r.aborted then
      some (((s.record (.executeThrew id)).record (.aborted id)).setRunner id (.ended true))
    else some ((s.record (.executeThrew id)).setRunner id (.failQueued false))
  | _ => none

def settleBegins (id : ℕ) : Option (Driver Ω) := s.onRunner id fun r ↦
  match r.phase with
  | .settleQueued outcome => some ((s.record (.settle id outcome)).setRunner id (.settling outcome))
  | _ => none

def settleReturns (id : ℕ) (stale : Bool) : Option (Driver Ω) := s.onRunner id fun r ↦
  match r.phase with
  | .settling _ => some (((s.record (.settled id)).releaseLane r.work.lane id).setRunner id
      (.ended !stale))
  | _ => none

def settleRejects (id : ℕ) : Option (Driver Ω) := s.onRunner id fun r ↦
  match r.phase with
  | .settling _ => some (((s.record (.settleRejected id)).releaseLane r.work.lane id).setRunner id
      .settleRejected)
  | _ => none

def settleCaught (id : ℕ) : Option (Driver Ω) := s.onRunner id fun r ↦
  match r.phase with
  | .settleRejected => some (s.setRunner id (if r.aborted then .ended true else .failQueued true))
  | _ => none

def executeFailBegins (id : ℕ) : Option (Driver Ω) := s.onRunner id fun r ↦
  match r.phase with
  | .failQueued settled => some ((s.record (.fail id)).setRunner id (.failing settled))
  | _ => none

/-- Only a failure that is stale or terminal gives up the continuation. -/
def executeFailSettles (id : ℕ) (owns : Bool) : Option (Driver Ω) := s.onRunner id fun r ↦
  match r.phase with
  | .failing _ => some (((s.record (.failed id)).releaseLane r.work.lane id).setRunner id (.ended owns))
  | _ => none

def runnerFinally (id : ℕ) : Option (Driver Ω) := s.onRunner id fun r ↦
  match r.phase with
  | .ended owns =>
    let s := ({ s with runners := s.runners.filter fun r ↦ decide (r.work.id ≠ id) }).releaseLane
      r.work.lane id
    let s := if owns then s.notify deps ⟨r.work.owner, [r.work.queue]⟩ .continuation else s
    some (s.kick deps)
  | _ => none

end Driver

/-! ## Runs -/

variable (Ω) in
inductive Event where
  | start
  | notify (hint : DurableWorkReadyHint)
  | recoverNow
  | recovered (hints : List DurableWorkReadyHint)
  | recoveryFinally
  | quiesce
  | quiesceContinues (call : ℕ)
  | claimBegins
  | claimReturns (claims : List WorkClaim)
  | claimRejects
  | duplicateFailBegins
  | duplicateFailSettles
  | pumpFinishes
  | prepareReturns (id : ℕ)
  | prepareThrows (id : ℕ)
  | prepareFailBegins (id : ℕ)
  | prepareFailSettles (id : ℕ) (continues : Bool)
  | prepareContinues (id : ℕ)
  | prepareFinally (id : ℕ)
  | executeReturns (id : ℕ) (outcome : Ω)
  | executeThrows (id : ℕ)
  | settleBegins (id : ℕ)
  | settleReturns (id : ℕ) (stale : Bool)
  | settleRejects (id : ℕ)
  | settleCaught (id : ℕ)
  | executeFailBegins (id : ℕ)
  | executeFailSettles (id : ℕ) (owns : Bool)
  | runnerFinally (id : ℕ)

/-- One step, or `none` when the event cannot happen now. -/
def step (deps : Deps) (s : Driver Ω) : Event Ω → Option (Driver Ω)
  | .start => some (s.start deps)
  | .notify hint => some (s.notify deps hint .hint)
  | .recoverNow => some s.recoverNow
  | .recovered hints => if s.recovering.any (!·.settled) then some (s.recovered deps hints) else none
  | .recoveryFinally => if s.recovering.any (·.settled) then some { s with recovering := none } else none
  | .quiesce => some s.quiesce
  | .quiesceContinues call => s.quiesceContinues call
  | .claimBegins => s.claimBegins deps
  | .claimReturns claims => s.claimReturns deps claims
  | .claimRejects => s.claimRejects deps
  | .duplicateFailBegins => s.duplicateFailBegins
  | .duplicateFailSettles => s.duplicateFailSettles deps
  | .pumpFinishes => s.pumpFinishes deps
  | .prepareReturns id => s.prepareReturns id
  | .prepareThrows id => s.prepareThrows id
  | .prepareFailBegins id => s.prepareFailBegins id
  | .prepareFailSettles id continues => s.prepareFailSettles id continues
  | .prepareContinues id => s.prepareContinues deps id
  | .prepareFinally id => s.prepareFinally deps id
  | .executeReturns id outcome => s.executeReturns id outcome
  | .executeThrows id => s.executeThrows id
  | .settleBegins id => s.settleBegins id
  | .settleReturns id stale => s.settleReturns id stale
  | .settleRejects id => s.settleRejects id
  | .settleCaught id => s.settleCaught id
  | .executeFailBegins id => s.executeFailBegins id
  | .executeFailSettles id owns => s.executeFailSettles id owns
  | .runnerFinally id => s.runnerFinally deps id

end Vibestudio.Server.DurableWork

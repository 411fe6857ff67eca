import Mathlib
import Vibestudio.Server.AdmissionIndexes
import Vibestudio.Transition.Run

/-!
# The agent execution session registry

`src/server/services/agentExecutionSessionRegistry.ts`: the admission of evaluated runs. A runtime is admitted for one
run at a time, and the callers of `admitWhenAvailable` wait for it in an array. Whatever frees a runtime serves its
array, and to serve a waiter is to call `admit`, which may expire or revoke facts, free runtimes and serve their arrays
before it goes on. An array is captured by the loop that serves it, so it is an object of its own here.

`clock` gives the readings of `Date.now()` one after the other, and `randomUUID` the ids that are drawn. A waiter has
the number of its call for a ticket. `waiters`, `serving`, `settled`, `ended`, `calls` and `results` are the record of
the run that the theorems speak of: who has waited, who has been taken out of an array and not been answered yet, how
each wait ended, which facts have expired or been revoked, and what every call of `admit` found and did.

A loop that serves waiters takes one of them out of its array each time round, so one more round than there are waiters
is enough for it and for all that it starts (`drainLoop_fuel`).
-/

namespace Vibestudio.Server

open Js

structure AdmissionHost where
  clock : ℕ → ℕ
  randomUUID : ℕ → JsString

structure AdmissionWaiter where
  ticket : ℕ
  input : EvalAdmissionInput
  signal : Option ℕ
  deriving DecidableEq

def AdmissionWaiter.runtimeId (waiter : AdmissionWaiter) : JsString := waiter.input.executor.runtimeId

inductive WaitSettlement where
  | admitted (fact : ExecutionAdmissionFact)
  | refused (error : AdmissionError)
  deriving DecidableEq

/-- A call of `admit` as it begins: the indexes, and the waiters in the array of its runtime. It has the ticket of the
call of `admitWhenAvailable` that it is made for, if it is made for one. -/
structure AdmitCall where
  ticket : Option ℕ
  input : EvalAdmissionInput
  now : ℕ
  before : AdmissionIndexes
  queued : List AdmissionWaiter

/-- How a call of `admit` ends. It may throw with a fact entered already. -/
inductive AdmitOutcome where
  | refuse (error : AdmissionError)
  | replay (fact : ExecutionAdmissionFact)
  | enter (fact : ExecutionAdmissionFact) (marked : Except AdmissionError Unit)
  deriving DecidableEq

def AdmitOutcome.result : AdmitOutcome → Except AdmissionError ExecutionAdmissionFact
  | .refuse error => .error error
  | .replay fact => .ok fact
  | .enter fact marked => marked.map fun _ ↦ fact

/-- A call of `admit` from where it has resolved its runtime: the indexes it found there, the others that waited for the
runtime then, and the indexes it left. -/
structure AdmitResult where
  ticket : Option ℕ
  input : EvalAdmissionInput
  retained : Option ExecutionAdmissionFact
  found : AdmissionIndexes
  pending : List ℕ
  outcome : AdmitOutcome
  left : AdmissionIndexes

structure AgentExecutionSessionRegistry where
  indexes : AdmissionIndexes
  arrays : List (List AdmissionWaiter)
  admissionWaiters : JsMap JsString ℕ
  listening : List ℕ
  aborted : List ℕ
  readings : ℕ
  uuids : ℕ
  tickets : ℕ
  waiters : List AdmissionWaiter
  serving : List AdmissionWaiter
  settled : List (AdmissionWaiter × WaitSettlement)
  ended : List (JsString × ExecutionAdmissionFact)
  calls : List AdmitCall
  results : List AdmitResult

namespace AgentExecutionSessionRegistry

def init : AgentExecutionSessionRegistry := ⟨.init, [], [], [], [], 0, 0, 0, [], [], [], [], [], []⟩

/-! ## Waiters -/

def array (s : AgentExecutionSessionRegistry) (id : ℕ) : List AdmissionWaiter := s.arrays.getD id []

/-- The waiters that a runtime will serve. -/
def queue (s : AgentExecutionSessionRegistry) (runtimeId : JsString) : List AdmissionWaiter :=
  (s.admissionWaiters.get runtimeId).elim [] s.array

def isSettled (s : AgentExecutionSessionRegistry) (ticket : ℕ) : Bool := s.settled.any fun entry ↦ entry.1.ticket = ticket

/-- The waiters for a runtime whose promises are open, in the order of their calls. -/
def pending (s : AgentExecutionSessionRegistry) (runtimeId : JsString) : List ℕ :=
  (s.waiters.filter fun waiter ↦ waiter.runtimeId = runtimeId ∧ ¬s.isSettled waiter.ticket).map
    AdmissionWaiter.ticket

def setArray (s : AgentExecutionSessionRegistry) (id : ℕ) (waiters : List AdmissionWaiter) :
    AgentExecutionSessionRegistry :=
  { s with arrays := s.arrays.set id waiters }

def dropQueue (s : AgentExecutionSessionRegistry) (runtimeId : JsString) : AgentExecutionSessionRegistry :=
  { s with admissionWaiters := s.admissionWaiters.delete runtimeId }

def detachAdmissionWaiter (s : AgentExecutionSessionRegistry) (waiter : AdmissionWaiter) :
    AgentExecutionSessionRegistry :=
  { s with listening := s.listening.filter (· ≠ waiter.ticket) }

def settle (s : AgentExecutionSessionRegistry) (waiter : AdmissionWaiter) (settlement : WaitSettlement) :
    AgentExecutionSessionRegistry :=
  { s with settled := s.settled ++ [(waiter, settlement)], serving := s.serving.erase waiter }

def isAborted (s : AgentExecutionSessionRegistry) (signal : Option ℕ) : Bool := signal.any (· ∈ s.aborted)

/-- A string that the source tests for being there, which the empty one is not. -/
def truthy (run : Option JsString) : Option JsString := run.filter (· ≠ [])

def activeRun (s : AgentExecutionSessionRegistry) (runtimeId : JsString) : Option JsString :=
  truthy (s.indexes.activeRunByRuntime.get runtimeId)

/-! ## Admission -/

section

variable (host : AdmissionHost)

/-- The fact that `admit` makes of its input, with the session and the nonce of the retained fact. -/
def newFact (input : EvalAdmissionInput) (retained : Option ExecutionAdmissionFact) (issuedAt : ℕ)
    (sessionId nonce : JsString) : ExecutionAdmissionFact where
  toAdmissionInput := input.admission
  authoritySessionId := (retained.map ExecutionAdmissionFact.authoritySessionId).getD sessionId
  authoritySessionVersion := (retained.map ExecutionAdmissionFact.authoritySessionVersion).getD 0 + 1
  issuedAt := issuedAt
  expiresAt := input.expiresAt.getD (issuedAt + 7 * 24 * 60 * 60 * 1000)
  nonce := (retained.map ExecutionAdmissionFact.nonce).getD nonce

/-- The checks of `admit`, for what it has resolved: an error, or the retained fact again, or that a new one is to be
entered. -/
def check (active : Option JsString) (retained : Option ExecutionAdmissionFact) (input : EvalAdmissionInput) :
    Except AdmissionError (Option ExecutionAdmissionFact) :=
  match retained with
  | none => .ok none
  | some fact =>
    if fact.eval = none then .error (.nonEvalExecutor input.executor.runtimeId)
    else match active with
    | some activeRunId =>
      if activeRunId = input.executor.evalRunId then
        if sameAdmission fact input then .ok (some fact) else .error (.replayedRun input.executor.evalRunId)
      else .error (.alreadyAdmitted input.executor.runtimeId activeRunId)
    | none =>
      if trustUnitDrift fact input.admission ≠ [] then
        .error (.otherTrustUnit input.executor.runtimeId (trustUnitDrift fact input.admission))
      else .ok none

/-- What `admit` does once it has resolved its runtime, and the indexes it leaves. -/
def outcome (s : AgentExecutionSessionRegistry) (input : EvalAdmissionInput) (issuedAt : ℕ)
    (retained : Option ExecutionAdmissionFact) : AdmitOutcome × AdmissionIndexes :=
  match check (s.activeRun input.executor.runtimeId) retained input with
  | .error error => (.refuse error, s.indexes)
  | .ok (some fact) => (.replay fact, s.indexes)
  | .ok none =>
    let fact := newFact input retained issuedAt (host.randomUUID s.uuids) (host.randomUUID (s.uuids + 1))
    let entered := s.indexes.enter fact input.executor retained
    (.enter fact entered.1, entered.2)

/-- The last part of `admit`. Without a retained fact it draws two ids. -/
def conclude (s : AgentExecutionSessionRegistry) (ticket : Option ℕ) (input : EvalAdmissionInput) (issuedAt : ℕ)
    (retained : Option ExecutionAdmissionFact) :
    Except AdmissionError ExecutionAdmissionFact × AgentExecutionSessionRegistry :=
  let outcome := s.outcome host input issuedAt retained
  (outcome.1.result, { s with
    indexes := outcome.2
    uuids := if retained = none then s.uuids + 2 else s.uuids
    results := s.results ++ [⟨ticket, input, retained, s.indexes,
      (s.pending input.executor.runtimeId).filter fun other ↦ some other ≠ ticket, outcome.1, outcome.2⟩] })

variable (drain : JsString → AgentExecutionSessionRegistry → AgentExecutionSessionRegistry)

/-- The writes of `resolve`, which end the facts of the runtimes it then serves. -/
def sweepRuntime (s : AgentExecutionSessionRegistry) (runtimeId : JsString) (now : ℕ) :
    AgentExecutionSessionRegistry :=
  let swept := s.indexes.sweep runtimeId now
  { s with
    indexes := swept.1
    ended := s.ended ++ swept.2.filterMap fun runtimeId ↦
      (s.indexes.byRuntime.get runtimeId).map fun fact ↦ (runtimeId, fact) }

/-- `resolve` at a reading of the clock, with the serving of waiters that it starts. -/
def resolveAt (s : AgentExecutionSessionRegistry) (runtimeId : JsString) (now : ℕ) :
    Option ExecutionAdmissionFact × AgentExecutionSessionRegistry :=
  ((s.indexes.lookup runtimeId now).retained,
    (s.indexes.sweep runtimeId now).2.foldl (fun s runtimeId ↦ drain runtimeId s) (s.sweepRuntime runtimeId now))

def beginAdmit (s : AgentExecutionSessionRegistry) (ticket : Option ℕ) (input : EvalAdmissionInput) :
    AgentExecutionSessionRegistry :=
  { s with
    readings := s.readings + 1
    calls := s.calls ++ [⟨ticket, input, host.clock s.readings, s.indexes, s.queue input.executor.runtimeId⟩] }

def admitWith (s : AgentExecutionSessionRegistry) (ticket : Option ℕ) (input : EvalAdmissionInput) :
    Except AdmissionError ExecutionAdmissionFact × AgentExecutionSessionRegistry :=
  let issuedAt := host.clock s.readings
  let resolved := (s.beginAdmit host ticket input).resolveAt drain input.executor.runtimeId issuedAt
  resolved.2.conclude host ticket input issuedAt resolved.1

/-- The guards of `drainAdmissionWaiters`, before its loop over the array. -/
def drainUnless (loop : JsString → ℕ → AgentExecutionSessionRegistry → AgentExecutionSessionRegistry)
    (runtimeId : JsString) (s : AgentExecutionSessionRegistry) : AgentExecutionSessionRegistry :=
  if (s.indexes.activeRunByRuntime.get runtimeId).isSome then s
  else match s.admissionWaiters.get runtimeId with
  | none => s
  | some array => loop runtimeId array s

/-- One waiter is taken out of an array. -/
def shift (s : AgentExecutionSessionRegistry) (array : ℕ) (waiter : AdmissionWaiter)
    (rest : List AdmissionWaiter) : AgentExecutionSessionRegistry :=
  { (s.setArray array rest).detachAdmissionWaiter waiter with serving := waiter :: s.serving }

/-- What a waiter gets for a fact. The array may be empty by now. -/
def admitted (s : AgentExecutionSessionRegistry) (runtimeId : JsString) (array : ℕ) (waiter : AdmissionWaiter)
    (fact : ExecutionAdmissionFact) : AgentExecutionSessionRegistry :=
  (if s.array array = [] then s.dropQueue runtimeId else s).settle waiter (.admitted fact)

/-- The loop of `drainAdmissionWaiters`, for at most so many rounds. -/
def drainLoop : ℕ → JsString → ℕ → AgentExecutionSessionRegistry → AgentExecutionSessionRegistry
  | 0, _, _, s => s
  | fuel + 1, runtimeId, array, s =>
    match s.array array with
    | [] => s.dropQueue runtimeId
    | waiter :: rest =>
      let s := s.shift array waiter rest
      if s.isAborted waiter.signal then
        drainLoop fuel runtimeId array (s.settle waiter (.refused (.cancelled runtimeId)))
      else match s.admitWith host (drainUnless (drainLoop fuel)) (some waiter.ticket) waiter.input with
      | (.ok fact, s) => s.admitted runtimeId array waiter fact
      | (.error error, s) => drainLoop fuel runtimeId array (s.settle waiter (.refused error))

/-- The number of waiters in all arrays. -/
def waiting (s : AgentExecutionSessionRegistry) : ℕ := (s.arrays.map List.length).sum

def drainAdmissionWaiters (runtimeId : JsString) (s : AgentExecutionSessionRegistry) :
    AgentExecutionSessionRegistry :=
  drainUnless (drainLoop host (s.waiting + 1)) runtimeId s

/-! ## The methods -/

def nextTicket (s : AgentExecutionSessionRegistry) : AgentExecutionSessionRegistry :=
  { s with tickets := s.tickets + 1 }

def tick (s : AgentExecutionSessionRegistry) : AgentExecutionSessionRegistry := { s with readings := s.readings + 1 }

def resolve (s : AgentExecutionSessionRegistry) (runtimeId : JsString) :
    Option ExecutionAdmissionFact × AgentExecutionSessionRegistry :=
  s.tick.resolveAt (drainAdmissionWaiters host) runtimeId (host.clock s.readings)

def admitTicket (s : AgentExecutionSessionRegistry) (ticket : Option ℕ) (input : EvalAdmissionInput) :
    Except AdmissionError ExecutionAdmissionFact × AgentExecutionSessionRegistry :=
  s.admitWith host (drainAdmissionWaiters host) ticket input

def admitEval (s : AgentExecutionSessionRegistry) (input : EvalAdmissionInput) :
    Except AdmissionError ExecutionAdmissionFact × AgentExecutionSessionRegistry :=
  s.admitTicket host none input

/-- A caller is put into the array it found, or into a new one. -/
def enqueue (s : AgentExecutionSessionRegistry) (queued : Option ℕ) (waiter : AdmissionWaiter) :
    AgentExecutionSessionRegistry :=
  let listening := if waiter.signal = none then s.listening else s.listening ++ [waiter.ticket]
  let s := { s with listening := listening, waiters := s.waiters ++ [waiter] }
  match queued with
  | some array =>
    { s.setArray array (s.array array ++ [waiter]) with
      admissionWaiters := s.admissionWaiters.set waiter.runtimeId array }
  | none =>
    { s with
      arrays := s.arrays ++ [[waiter]]
      admissionWaiters := s.admissionWaiters.set waiter.runtimeId s.arrays.length }

/-- What the promise is settled with at once, if it is. -/
def admitWhenAvailable (s : AgentExecutionSessionRegistry) (input : EvalAdmissionInput) (signal : Option ℕ) :
    Option (Except AdmissionError ExecutionAdmissionFact) × AgentExecutionSessionRegistry :=
  let runtimeId := input.executor.runtimeId
  let queued := s.admissionWaiters.get runtimeId
  let resolved := s.nextTicket.resolve host runtimeId
  let isFree := queued.elim true fun array ↦ resolved.2.array array = []
  if isFree ∧ resolved.2.activeRun runtimeId = none ∨
      resolved.1.isSome ∧ resolved.2.indexes.activeRunByRuntime.get runtimeId = some input.executor.evalRunId then
    let admitted := resolved.2.admitTicket host (some s.tickets) input
    (some admitted.1, admitted.2)
  else if resolved.2.isAborted signal then (some (.error (.cancelled runtimeId)), resolved.2)
  else (none, (resolved.2.enqueue queued ⟨s.tickets, input, signal⟩).drainAdmissionWaiters host runtimeId)

/-- The listener of a waiter's signal. -/
def onAbort (s : AgentExecutionSessionRegistry) (waiter : AdmissionWaiter) : AgentExecutionSessionRegistry :=
  let s := s.detachAdmissionWaiter waiter
  let s := match s.admissionWaiters.get waiter.runtimeId with
    | none => s
    | some array =>
      let s := s.setArray array ((s.array array).erase waiter)
      if s.array array = [] then s.dropQueue waiter.runtimeId else s
  s.settle waiter (.refused (.cancelled waiter.runtimeId))

def close (s : AgentExecutionSessionRegistry) (runtimeId : JsString) (runId : Option JsString) :
    Bool × AgentExecutionSessionRegistry :=
  match s.indexes.byRuntime.get runtimeId, s.activeRun runtimeId with
  | some _, some activeRunId =>
    if ∃ run ∈ runId, activeRunId ≠ run then (false, s)
    else (true, ({ s with indexes := s.indexes.close runtimeId }).drainAdmissionWaiters host runtimeId)
  | _, _ => (false, s)

def discard (s : AgentExecutionSessionRegistry) (runtimeId runId : JsString) :
    Bool × AgentExecutionSessionRegistry :=
  if s.indexes.activeRunByRuntime.get runtimeId ≠ some runId then (false, s)
  else (true, ({ s with indexes := s.indexes.discard runtimeId }).drainAdmissionWaiters host runtimeId)

/-- The executor is an eval or not; `admit` is called for the one, and the other never waits. -/
def admitGeneric (s : AgentExecutionSessionRegistry) (input : AdmissionInput) (expiresAt : Option ℕ) :
    Except AdmissionError ExecutionAdmissionFact × AgentExecutionSessionRegistry :=
  let enter (s : AgentExecutionSessionRegistry) :=
    let issuedAt := host.clock s.readings
    let fact : ExecutionAdmissionFact :=
      { toAdmissionInput := input
        authoritySessionId := host.randomUUID s.uuids
        authoritySessionVersion := 1
        issuedAt := issuedAt
        expiresAt := expiresAt.getD (issuedAt + 24 * 60 * 60 * 1000)
        nonce := host.randomUUID (s.uuids + 1) }
    (.ok fact, { s.tick with
      uuids := s.uuids + 2
      indexes := { s.indexes with
        byAdmissionKey := s.indexes.byAdmissionKey.set fact.admissionKey fact
        byNonce := s.indexes.byNonce.set fact.nonce fact } })
  match s.indexes.byAdmissionKey.get input.admissionKey with
  | none => enter s
  | some existing =>
    if existing.expiresAt ≤ host.clock s.readings then
      enter { s.tick with indexes := s.indexes.removeGeneric existing }
    else if sameGenericAdmission existing input then (.ok existing, s.tick)
    else (.error (.replayedAdmission input.admissionKey), s.tick)

def admitExecution (s : AgentExecutionSessionRegistry) (input : AdmissionInput) (expiresAt : Option ℕ) :
    Except AdmissionError ExecutionAdmissionFact × AgentExecutionSessionRegistry :=
  match h : input.executor with
  | .eval executor => s.admitEval host ⟨input, executor, h, expiresAt⟩
  | _ => s.admitGeneric host input expiresAt

def resolveInvocation (s : AgentExecutionSessionRegistry) (runtimeId nonce : JsString) :
    Option ExecutionAdmissionFact × AgentExecutionSessionRegistry :=
  match s.indexes.byNonce.get nonce with
  | none => (none, s)
  | some candidate =>
    if candidate.eval.isSome then
      let resolved := s.resolve host runtimeId
      (resolved.1.filter fun fact ↦ fact.nonce = nonce ∧
        fact.eval.any fun executor ↦
          resolved.2.indexes.activeRunByRuntime.get runtimeId = some executor.evalRunId, resolved.2)
    else if candidate.expiresAt ≤ host.clock s.readings then
      (none, { s.tick with indexes := s.indexes.removeGeneric candidate })
    else (if candidate.executor.runtimeId = runtimeId then some candidate else none, s.tick)

def markTestContext (s : AgentExecutionSessionRegistry) (contextId : JsString)
    (policy : AgentExecutionTestPolicy) : Except AdmissionError Unit × AgentExecutionSessionRegistry :=
  match s.indexes.markTestContext contextId policy with
  | .ok marked => (.ok (), { s with indexes := marked })
  | .error error => (.error error, s)

/-- The waiters of all runtimes, in the order in which `clear` rejects them. -/
def allWaiters (s : AgentExecutionSessionRegistry) : List AdmissionWaiter :=
  s.admissionWaiters.flatMap fun entry ↦ s.array entry.2

/-- No runtime leads to the arrays any more. -/
def clear (s : AgentExecutionSessionRegistry) : AgentExecutionSessionRegistry :=
  let s' := s.allWaiters.foldl (fun s' waiter ↦
    (s'.detachAdmissionWaiter waiter).settle waiter (.refused (.cleared waiter.runtimeId)))
    { s with indexes := .init }
  { s' with admissionWaiters := [], arrays := [] }

/-! ## Runs -/

inductive Event where
  | admitEval (input : EvalAdmissionInput)
  | admitWhenAvailable (input : EvalAdmissionInput) (signal : Option ℕ)
  | admitExecution (input : AdmissionInput) (expiresAt : Option ℕ)
  | resolve (runtimeId : JsString)
  | resolveInvocation (runtimeId nonce : JsString)
  | close (runtimeId : JsString) (runId : Option JsString)
  | discard (runtimeId runId : JsString)
  | markTestContext (contextId : JsString) (policy : AgentExecutionTestPolicy)
  | abort (signal : ℕ)
  | onAbort (waiter : AdmissionWaiter)
  | clear

def step (s : AgentExecutionSessionRegistry) : Event → Option AgentExecutionSessionRegistry
  | .admitEval input => some (s.admitEval host input).2
  | .admitWhenAvailable input signal => some (s.admitWhenAvailable host input signal).2
  | .admitExecution input expiresAt => some (s.admitExecution host input expiresAt).2
  | .resolve runtimeId => some (s.resolve host runtimeId).2
  | .resolveInvocation runtimeId nonce => some (s.resolveInvocation host runtimeId nonce).2
  | .close runtimeId runId => some (s.close host runtimeId runId).2
  | .discard runtimeId runId => some (s.discard host runtimeId runId).2
  | .markTestContext contextId policy => some (s.markTestContext contextId policy).2
  | .abort signal => some { s with aborted := s.aborted ++ [signal] }
  -- a listener runs once, and only until it is removed
  | .onAbort waiter =>
    if waiter ∈ s.waiters ∧ waiter.ticket ∈ s.listening ∧ s.isAborted waiter.signal then
      some (s.onAbort waiter)
    else none
  | .clear => some s.clear

end

end AgentExecutionSessionRegistry

end Vibestudio.Server

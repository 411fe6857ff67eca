import Mathlib
import Vibestudio.Js.Json
import Vibestudio.Server.DurableWorkDriver

/-!
# Eval kernel leases

`src/server/services/evalKernelLease.ts`. A touch of an eval object asks for the lease of its kernel, and opens a held
request for as long as the kernel is to live. The touches of one object wait for each other. `close` aborts the held
requests and waits, in rounds, until there is nothing left to wait for.

A dispatch is answered in a later step, and a held request settles in the step in which the coordinator takes notice of
it. A lease is the number of its record: the identity of the object, for which the source draws a random id.
-/

namespace Vibestudio.Server

open Js DurableWork

def refKey (ref : DORef) : JsString := ref.source ++ [0] ++ ref.className ++ [0] ++ ref.objectKey

inductive HoldState where
  | unsettled
  | settled
  deriving DecidableEq

/-- `key` is the key that the lease was made for. -/
structure LiveLease where
  key : JsString
  holding : Bool
  aborted : Bool
  hold : Option HoldState
  deriving DecidableEq

/-- Where a touch is: in the chain of its key, at one of the dispatches of `touchLocked`, or done. -/
inductive TouchPoint where
  | queued
  | acquiring (lease : ℕ)
  | reacquiring (lease : ℕ)
  | attaching (lease : ℕ)
  | settled (resolved : Bool)
  deriving DecidableEq

/-- The lease of a touch that has been admitted and waits for an answer. -/
def TouchPoint.lease : TouchPoint → Option ℕ
  | .acquiring lease => some lease
  | .reacquiring lease => some lease
  | .attaching lease => some lease
  | .queued => none
  | .settled _ => none

def TouchPoint.isSettled : TouchPoint → Bool
  | .settled _ => true
  | _ => false

/-- A call of `touch`, behind the one that was the last of its key. -/
structure Touch where
  key : JsString
  previous : Option ℕ
  point : TouchPoint
  deriving DecidableEq

/-- A call of `close`: what its round waits for. -/
inductive Closer where
  | waiting (operations holds : List ℕ)
  | returned
  deriving DecidableEq

structure EvalKernelLeaseCoordinator where
  leases : JsMap JsString ℕ
  records : List LiveLease
  operations : JsMap JsString ℕ
  touches : List Touch
  closed : Bool
  closers : List Closer
  deriving DecidableEq

namespace EvalKernelLeaseCoordinator

def init : EvalKernelLeaseCoordinator := ⟨[], [], [], [], false, []⟩

/-- `if (this.leases.get(key) === lease) this.leases.delete(key)`. -/
def forget (s : EvalKernelLeaseCoordinator) (key : JsString) (lease : ℕ) : EvalKernelLeaseCoordinator :=
  if s.leases.get key = some lease then { s with leases := s.leases.delete key } else s

def moveTo (s : EvalKernelLeaseCoordinator) (index : ℕ) (touch : Touch) (point : TouchPoint) :
    EvalKernelLeaseCoordinator :=
  { s with touches := s.touches.set index { touch with point } }

/-- The end of a touch. -/
def settle (s : EvalKernelLeaseCoordinator) (index : ℕ) (touch : Touch) (resolved : Bool) :
    EvalKernelLeaseCoordinator :=
  { s.moveTo index touch (.settled resolved) with
    operations :=
      if s.operations.get touch.key = some index then s.operations.delete touch.key else s.operations }

/-- The number of the lease that `createLease` makes. -/
def nextLease (s : EvalKernelLeaseCoordinator) : ℕ := s.records.length

def createLease (s : EvalKernelLeaseCoordinator) (key : JsString) : EvalKernelLeaseCoordinator :=
  { s with
    records := s.records ++ [⟨key, false, false, none⟩]
    leases := s.leases.set key s.nextLease }

def isHolding (s : EvalKernelLeaseCoordinator) (lease : ℕ) : Bool := s.records[lease]?.any LiveLease.holding

def hasSettled (s : EvalKernelLeaseCoordinator) (index : ℕ) : Bool :=
  s.touches[index]?.all fun touch ↦ touch.point.isSettled

/-- The hold of the lease is open. -/
def holds (s : EvalKernelLeaseCoordinator) (lease : ℕ) : Bool :=
  s.records[lease]?.any fun record ↦ decide (record.hold = some .unsettled)

def touch (s : EvalKernelLeaseCoordinator) (ref : DORef) : EvalKernelLeaseCoordinator :=
  if s.closed then s
  else
    { s with
      touches := s.touches ++ [⟨refKey ref, s.operations.get (refKey ref), .queued⟩]
      operations := s.operations.set (refKey ref) s.touches.length }

/-- `touchLocked`, up to the first dispatch. -/
def touchLocked (s : EvalKernelLeaseCoordinator) (index : ℕ) (touch : Touch) : EvalKernelLeaseCoordinator :=
  if s.closed then s.settle index touch false
  else
    match s.leases.get touch.key with
    | some lease => s.moveTo index touch (.acquiring lease)
    | none => (s.createLease touch.key).moveTo index touch (.acquiring s.nextLease)

/-- What follows the first `acquireKernelLease`: it fails, or says whether a holder is attached. -/
def acquired (s : EvalKernelLeaseCoordinator) (index : ℕ) (touch : Touch) (lease : ℕ) (reply : Option Bool) :
    EvalKernelLeaseCoordinator :=
  match reply with
  | none => (s.forget touch.key lease).settle index touch false
  | some holderAttached =>
    if s.closed then (s.forget touch.key lease).settle index touch true
    else if holderAttached then s.settle index touch true
    else if s.isHolding lease then (s.createLease touch.key).moveTo index touch (.reacquiring s.nextLease)
    else s.moveTo index touch (.attaching lease)

/-- What follows the second one. A holder of a lease that is fresh is an error. -/
def reacquired (s : EvalKernelLeaseCoordinator) (index : ℕ) (touch : Touch) (lease : ℕ) (reply : Option Bool) :
    EvalKernelLeaseCoordinator :=
  match reply with
  | none => s.settle index touch false
  | some true => s.settle index touch false
  | some false => s.moveTo index touch (.attaching lease)

def openHold (s : EvalKernelLeaseCoordinator) (lease : ℕ) : EvalKernelLeaseCoordinator :=
  { s with
    records := s.records.modify lease fun record ↦ { record with holding := true, hold := some .unsettled } }

/-- What follows `attachKernelLeaseHolder`. -/
def attached (s : EvalKernelLeaseCoordinator) (index : ℕ) (touch : Touch) (lease : ℕ) (ok : Bool) :
    EvalKernelLeaseCoordinator :=
  if ok = false then s.settle index touch false
  else if s.closed then (s.forget touch.key lease).settle index touch true
  else (s.openHold lease).settle index touch true

/-- The held request of the lease settles. -/
def settleHold (s : EvalKernelLeaseCoordinator) (lease : ℕ) (record : LiveLease) : EvalKernelLeaseCoordinator :=
  { s with records := s.records.set lease { record with hold := some .settled } : EvalKernelLeaseCoordinator }.forget
    record.key lease

/-- What a round of `close` waits for. -/
def snapshot (s : EvalKernelLeaseCoordinator) : Closer :=
  .waiting (s.operations.map Prod.snd)
    ((s.leases.map Prod.snd).filter fun lease ↦ s.records[lease]?.any fun record ↦ record.hold.isSome)

/-- The leases are aborted. -/
def abortLeases (s : EvalKernelLeaseCoordinator) : EvalKernelLeaseCoordinator :=
  { s with
    records := s.records.mapIdx fun lease record ↦
      if lease ∈ s.leases.map Prod.snd then { record with aborted := true } else record }

def close (s : EvalKernelLeaseCoordinator) : EvalKernelLeaseCoordinator :=
  { s.abortLeases with closed := true, closers := s.closers ++ [s.snapshot] }

/-- The round is over: everything it has waited for has settled. -/
def roundOver (s : EvalKernelLeaseCoordinator) (operations holds : List ℕ) : Bool :=
  operations.all s.hasSettled && holds.all fun lease ↦ !s.holds lease

/-- The end of a round of `close`, and the start of the next. -/
def nextRound (s : EvalKernelLeaseCoordinator) (index : ℕ) : EvalKernelLeaseCoordinator :=
  if s.operations = [] ∧ s.leases = [] then { s with closers := s.closers.set index .returned }
  else { s.abortLeases with closers := s.closers.set index s.snapshot }

inductive Event where
  | touch (ref : DORef)
  /-- The turn of a touch. -/
  | start (index : ℕ)
  /-- `acquireKernelLease` fails, or says whether a holder is attached. -/
  | acquireReply (index : ℕ) (reply : Option Bool)
  | attachReply (index : ℕ) (ok : Bool)
  | settleHold (lease : ℕ)
  | close
  | round (index : ℕ)
  deriving DecidableEq

/-- A touch whose turn it is. -/
def startable (s : EvalKernelLeaseCoordinator) (touch : Touch) : Bool :=
  decide (touch.point = .queued) && touch.previous.all s.hasSettled

def step (s : EvalKernelLeaseCoordinator) (e : Event) : Option EvalKernelLeaseCoordinator :=
  match e with
  | .touch ref => some (s.touch ref)
  | .start index => (s.touches[index]?.filter s.startable).map fun touch ↦ s.touchLocked index touch
  | .acquireReply index reply => s.touches[index]?.bind fun touch ↦
    match touch.point with
    | .acquiring lease => some (s.acquired index touch lease reply)
    | .reacquiring lease => some (s.reacquired index touch lease reply)
    | _ => none
  | .attachReply index ok => s.touches[index]?.bind fun touch ↦
    match touch.point with
    | .attaching lease => some (s.attached index touch lease ok)
    | _ => none
  | .settleHold lease => (s.records[lease]?.filter fun record ↦ decide (record.hold = some .unsettled)).map fun record ↦
    s.settleHold lease record
  | .close => some s.close
  | .round index => s.closers[index]?.bind fun closer ↦
    match closer with
    | .waiting operations holds => if s.roundOver operations holds then some (s.nextRound index) else none
    | .returned => none

/-- A step of the coordinator that needs no answer from anywhere else. -/
def Event.isInternal : Event → Bool
  | .start _ => true
  | .round _ => true
  | _ => false

end EvalKernelLeaseCoordinator

end Vibestudio.Server

import Mathlib
import Vibestudio.Js.Value
import Vibestudio.Sqlite.Table

/-!
# Alarms, wakes and leases of Durable Objects

The tables of `WorkspaceDO` that hold runnable work of Durable Objects, and its operations on them:
the alarm calls of the scheduler, `WakePublicationStore` of `packages/durable/src/wake-publication.ts`,
the publications of the entity calls, retirement, and the repair at activation. A call is a function
of the tables that returns them with its answer, or throws; `transactionSync` makes a call that
throws one that changes nothing.

The entries of the `state` table are one table for each of their prefixes. Of an entity there are the
columns its identity and its lifetime are in; the checks of the others are the `conflict` of an input.
-/

namespace Vibestudio.WorkspaceState

open Js Sqlite

/-! ## The tables -/

/-- `WakeOwnerKey`, `LifecycleKey`. -/
structure LifecycleKey where
  source : JsString
  className : JsString
  objectKey : JsString
  deriving DecidableEq

inductive EntityKind where
  | panel | client | worker | durableObject | session | shell | server
  deriving DecidableEq

inductive EntityStatus where
  | preparing | active | retired
  deriving DecidableEq

structure StorageIncarnation where
  incarnation : JsString
  generation : ℕ
  deriving DecidableEq

/-- A row of `entities`. -/
structure EntityRow where
  kind : EntityKind
  sourceRepoPath : JsString
  className : Option JsString
  key : JsString
  status : EntityStatus
  cleanupComplete : Bool
  nativeOwner : Option StorageIncarnation
  deriving DecidableEq

/-- A row of `do_alarms`. -/
structure AlarmRow where
  wakeAt : ℕ
  dispatchGeneration : ℕ
  dispatchOwner : Option JsString
  deriving DecidableEq

/-- An `alarm-source:` entry. -/
structure RegisteredWake where
  incarnation : JsString
  generation : ℕ
  revision : ℤ
  wakeAt : Option ℕ
  deriving DecidableEq

structure RequestClaim where
  generation : ℕ
  dispatchGeneration : ℕ
  deriving DecidableEq

/-- An `alarm-wake-request:` entry. -/
structure RetainedWakeRequest where
  incarnation : JsString
  generation : ℕ
  acknowledgedGeneration : ℕ
  claim : Option RequestClaim
  deriving DecidableEq

/-- A row of `lifecycle_leases`. -/
structure LifecycleLease where
  detail : Option JsString
  createdAt : ℕ
  refreshedAt : ℕ

/-- A row of `durable_work_owners`. -/
structure DurableWorkOwner where
  queues : List JsString
  registeredAt : ℕ

/-- The tables. `claims` are the `alarm-claim:` counters, `policies` is `do_alarm_test_policies`
and `activeWorker` is the entry `alarm-active-worker`. -/
structure AlarmTables where
  entities : Table JsString EntityRow
  alarms : Table LifecycleKey AlarmRow
  policies : Table LifecycleKey JsString
  sources : Table LifecycleKey RegisteredWake
  requests : Table LifecycleKey RetainedWakeRequest
  claims : Table LifecycleKey ℕ
  activeWorker : Option JsString
  leases : Table LifecycleKey LifecycleLease
  owners : Table LifecycleKey DurableWorkOwner

/-- The tables of a new workspace. -/
def AlarmTables.empty : AlarmTables :=
  ⟨.empty, .empty, .empty, .empty, .empty, .empty, none, .empty, .empty⟩

/-- What is thrown. -/
inductive AlarmError where
  | error (message : JsString)
  | identityCollision (id field : JsString)

abbrev Thrown (α : Type) := Except AlarmError α

def raise {α : Type} (message : String) : Thrown α := .error (.error (lit message))

/-- `Number.MAX_SAFE_INTEGER`. -/
def maxSafeInteger : ℕ := 2 ^ 53 - 1

/-! ## Entities -/

/-- The id of a Durable Object. -/
def durableObjectId (k : LifecycleKey) : JsString :=
  lit "do:" ++ k.source ++ lit ":" ++ k.className ++ lit ":" ++ k.objectKey

def canonicalEntityId (kind : EntityKind) (source : JsString) (className : Option JsString)
    (key : JsString) : Thrown JsString := match kind with
  | .panel => .ok (lit "panel:" ++ key)
  | .client => .ok (lit "client:" ++ key)
  | .worker => if source = [] then raise "worker entity requires source"
    else .ok (lit "worker:" ++ source ++ lit ":" ++ key)
  | .durableObject => if source = [] then raise "do entity requires source"
    else match className with
      | none | some [] => raise "do entity requires className"
      | some className => .ok (durableObjectId ⟨source, className, key⟩)
  | .session => .ok (lit "session:" ++ key)
  | .shell => .ok (lit "shell:" ++ key)
  | .server => .ok (lit "server:" ++ key)

def assertLifecycleKey (k : LifecycleKey) : Thrown Unit :=
  if k.source = [] ∨ k.className = [] ∨ k.objectKey = [] then
    raise "lifecycle key requires source, className, and objectKey"
  else .ok ()

namespace AlarmTables

variable (t : AlarmTables)

/-- The entity under the id of a key is active. -/
def entityActive (k : LifecycleKey) : Bool :=
  (t.entities.get (durableObjectId k)).any fun e ↦ decide (e.status = .active)

/-! ## `WakePublicationStore` -/

/-- The `assertActive` that `WorkspaceDO` gives the store. -/
def assertActive (k : LifecycleKey) : Thrown Unit :=
  (assertLifecycleKey k).bind fun _ ↦
    if t.entityActive k then .ok () else raise "Wake source is not an active Durable Object"

def clearAlarm (k : LifecycleKey) : AlarmTables :=
  { t with alarms := t.alarms.delete k, policies := t.policies.delete k }

def forgetRequest (k : LifecycleKey) : AlarmTables := { t with requests := t.requests.delete k }

def hasPendingRequest (k : LifecycleKey) : Bool :=
  (t.requests.get k).any fun r ↦ decide (r.acknowledgedGeneration < r.generation)

def setAlarm (k : LifecycleKey) (row : AlarmRow) : AlarmTables :=
  { t with alarms := t.alarms.set k row }

def setSource (k : LifecycleKey) (value : RegisteredWake) : AlarmTables :=
  { t with sources := t.sources.set k value }

def setRequest (k : LifecycleKey) (value : RetainedWakeRequest) : AlarmTables :=
  { t with requests := t.requests.set k value }

/-- `INSERT INTO do_alarms … 0, 0, NULL ON CONFLICT DO UPDATE SET wake_at = 0`. -/
def wakeNow (k : LifecycleKey) : AlarmTables :=
  t.setAlarm k ((t.alarms.get k).elim ⟨0, 0, none⟩ fun a ↦ { a with wakeAt := 0 })

/-- `INSERT INTO do_alarms … wakeAt, 0, NULL ON CONFLICT DO UPDATE SET wake_at, dispatch_owner`. -/
def schedule (k : LifecycleKey) (wakeAt : ℕ) : AlarmTables :=
  t.setAlarm k ((t.alarms.get k).elim ⟨wakeAt, 0, none⟩ fun a ↦
    { a with wakeAt, dispatchOwner := none })

def ensureRequestedAlarm (k : LifecycleKey) : AlarmTables :=
  if t.hasPendingRequest k then t.wakeNow k else t

/-- A new incarnation begins without a schedule and without requests. -/
def replaceSource (k : LifecycleKey) (identity : StorageIncarnation) : AlarmTables :=
  ((t.setSource k ⟨identity.incarnation, identity.generation, -1, none⟩).forgetRequest k).clearAlarm k

def register (k : LifecycleKey) (identity : StorageIncarnation) : Thrown AlarmTables :=
  (t.assertActive k).bind fun _ ↦
  if identity.incarnation = [] ∨ identity.generation < 1 ∨ maxSafeInteger < identity.generation then
    raise "Invalid storage incarnation"
  else
    match t.sources.get k with
    | none => .ok (t.replaceSource k identity)
    | some current =>
      if identity.generation < current.generation then raise "Retired storage incarnation"
      else if identity.generation = current.generation then
        if identity.incarnation = current.incarnation then .ok t
        else raise "Storage generation identity conflicts"
      else .ok (t.replaceSource k identity)

def unregister (k : LifecycleKey) : AlarmTables :=
  (({ t with sources := t.sources.delete k }).forgetRequest k).clearAlarm k

end AlarmTables

structure WakePublication where
  incarnation : JsString
  revision : ℕ
  wakeAt : Option ℕ

inductive PublishStatus where
  | accepted | duplicate | stale
  deriving DecidableEq

inductive CallStatus where
  | accepted | stale
  deriving DecidableEq

structure WakeRequest where
  incarnation : JsString
  generation : ℕ
  deriving DecidableEq

namespace AlarmTables

variable (t : AlarmTables)

/-- The schedule of an accepted or repeated publication. -/
def applyPublication (k : LifecycleKey) (duplicate : Bool) (wakeAt : Option ℕ) : AlarmTables :=
  if t.hasPendingRequest k then t.ensureRequestedAlarm k
  else match wakeAt with
    | none => t.clearAlarm k
    | some wakeAt =>
      if duplicate then match t.alarms.get k with
        | none => t.setAlarm k ⟨wakeAt, 0, none⟩
        | some _ => t
      else t.schedule k wakeAt

def publish (k : LifecycleKey) (p : WakePublication) : Thrown (AlarmTables × PublishStatus) :=
  (t.assertActive k).bind fun _ ↦
  if p.incarnation = [] ∨ maxSafeInteger < p.revision ∨ ¬p.wakeAt.all (· ≤ maxSafeInteger) then
    raise "Invalid wake publication"
  else match t.sources.get k with
    | none => .ok (t, .stale)
    | some current =>
      if current.incarnation ≠ p.incarnation ∨ p.revision < current.revision then .ok (t, .stale)
      else if p.revision = current.revision then
        if p.wakeAt = current.wakeAt then .ok (t.applyPublication k true p.wakeAt, .duplicate)
        else raise "Wake revision conflicts with its retained schedule"
      else .ok ((t.setSource k ⟨p.incarnation, current.generation, p.revision, p.wakeAt⟩).applyPublication
        k false p.wakeAt, .accepted)

def request (k : LifecycleKey) (incarnation : JsString) : Thrown (AlarmTables × CallStatus) :=
  (t.assertActive k).bind fun _ ↦
  if (t.sources.get k).map RegisteredWake.incarnation ≠ some incarnation then .ok (t, .stale)
  else if maxSafeInteger < (t.requests.get k).elim 0 RetainedWakeRequest.generation + 1 then
    raise "Wake request generation exhausted"
  else .ok ((t.setRequest k
    ⟨incarnation, (t.requests.get k).elim 0 RetainedWakeRequest.generation + 1,
      (t.requests.get k).elim 0 RetainedWakeRequest.acknowledgedGeneration,
      (t.requests.get k).bind RetainedWakeRequest.claim⟩).ensureRequestedAlarm k, .accepted)

/-- `claimRequest`: the tables and the captured request. -/
def claimRequest (k : LifecycleKey) (dispatchGeneration : ℕ) : AlarmTables × Option WakeRequest :=
  match t.requests.get k with
  | none => (t, none)
  | some r =>
    if r.generation = r.acknowledgedGeneration then (t, none)
    else (t.setRequest k { r with claim := some ⟨r.generation, dispatchGeneration⟩ },
      some ⟨r.incarnation, r.generation⟩)

def acknowledgeRequest (k : LifecycleKey) (token : WakeRequest) (dispatchGeneration : ℕ) :
    Thrown AlarmTables := match t.requests.get k with
  | none => raise "Wake request acknowledgement does not match its dispatch claim"
  | some r =>
    if token.incarnation = r.incarnation ∧ r.claim = some ⟨token.generation, dispatchGeneration⟩ then
      .ok (t.setRequest k ⟨r.incarnation, r.generation, token.generation, none⟩)
    else raise "Wake request acknowledgement does not match its dispatch claim"

/-- The greatest generation that the counter and the row know of. -/
def lastGeneration (k : LifecycleKey) : ℕ :=
  max ((t.claims.get k).getD 0) ((t.alarms.get k).elim 0 AlarmRow.dispatchGeneration)

/-- `nextClaimGeneration`, with the counter it leaves. -/
def nextClaimGeneration (k : LifecycleKey) : Thrown (AlarmTables × ℕ) :=
  if maxSafeInteger < t.lastGeneration k + 1 then raise "Alarm claim generation exhausted"
  else .ok ({ t with claims := t.claims.set k (t.lastGeneration k + 1) }, t.lastGeneration k + 1)

end AlarmTables

/-! ## The alarm calls -/

structure AlarmSetInput where
  key : LifecycleKey
  wakeAt : ℕ
  testPolicy : Option JsString
  dispatchOwner : Option JsString
  dispatchGeneration : Option ℕ

structure AlarmClearInput where
  key : LifecycleKey
  dispatchOwner : Option JsString
  dispatchGeneration : Option ℕ

structure NextAlarm where
  wakeAt : ℕ
  testPolicy : Option JsString

structure AlarmCompleteInput where
  key : LifecycleKey
  dispatchOwner : JsString
  dispatchGeneration : ℕ
  wakeRequest : Option WakeRequest
  nextAlarm : Option NextAlarm

structure AlarmClaimDueInput where
  now : ℕ
  workerId : JsString
  limit : ℕ
  exclude : List LifecycleKey

/-- A claim as the scheduler receives it. -/
structure AlarmClaim where
  key : LifecycleKey
  wakeAt : ℕ
  dispatchGeneration : ℕ
  wakeRequest : Option WakeRequest
  testPolicy : Option JsString
  deriving DecidableEq

/-- An owner and a generation that a claim can have. -/
def validClaim (owner : JsString) (generation : ℕ) : Bool :=
  decide (trim owner ≠ [] ∧ 1 ≤ generation ∧ generation ≤ maxSafeInteger)

/-- `do:${source}:${className}:${objectKey}` without its prefix, in a message. -/
def describeKey (k : LifecycleKey) : JsString :=
  k.source ++ lit ":" ++ k.className ++ lit ":" ++ k.objectKey

namespace AlarmTables

variable (t : AlarmTables)

/-- The row of a key is claimed by this owner with this generation. -/
def ownedBy (k : LifecycleKey) (owner : JsString) (generation : ℕ) : Bool :=
  (t.alarms.get k).any fun a ↦
    decide (a.dispatchOwner = some owner ∧ a.dispatchGeneration = generation)

def setPolicy (k : LifecycleKey) (testPolicy : Option JsString) : AlarmTables :=
  testPolicy.elim t fun policy ↦ { t with policies := t.policies.set k policy }

def alarmSet (input : AlarmSetInput) : Thrown (AlarmTables × CallStatus) :=
  (assertLifecycleKey input.key).bind fun _ ↦
  if ¬t.entityActive input.key then
    .error (.error (lit "alarmSet: Durable Object " ++ describeKey input.key ++ lit " is not active"))
  else match input.dispatchOwner, input.dispatchGeneration with
    | some owner, some generation =>
      if ¬validClaim owner generation then raise "alarmSet: invalid dispatch claim"
      else if ¬t.ownedBy input.key owner generation then .ok (t, .stale)
      else .ok ((t.schedule input.key input.wakeAt).setPolicy input.key input.testPolicy, .accepted)
    | none, none => .ok (((t.schedule input.key input.wakeAt).ensureRequestedAlarm input.key).setPolicy
        input.key input.testPolicy, .accepted)
    | _, _ => raise "alarmSet: dispatchOwner and dispatchGeneration must be provided together"

/-- `alarmClear` after the row has been deleted. -/
def clearRow (k : LifecycleKey) : AlarmTables :=
  let deleted := { t with alarms := t.alarms.delete k }
  let kept := if t.entityActive k then deleted.ensureRequestedAlarm k else deleted.forgetRequest k
  { kept with policies := kept.policies.delete k }

def alarmClear (input : AlarmClearInput) : Thrown (AlarmTables × CallStatus) :=
  (assertLifecycleKey input.key).bind fun _ ↦
  match input.dispatchOwner, input.dispatchGeneration with
  | some owner, some generation =>
    if ¬validClaim owner generation then raise "alarmClear: invalid dispatch claim"
    else if ¬t.ownedBy input.key owner generation then .ok (t, .stale)
    else .ok (t.clearRow input.key, .accepted)
  | none, none => .ok (t.clearRow input.key, .accepted)
  | _, _ => raise "alarmClear: dispatchOwner and dispatchGeneration must be provided together"

/-- The `alarmSet` or `alarmClear` of a completion. -/
def applyNextAlarm (input : AlarmCompleteInput) : Thrown (AlarmTables × CallStatus) :=
  match input.nextAlarm with
  | some next => t.alarmSet ⟨input.key, next.wakeAt, next.testPolicy, some input.dispatchOwner,
      some input.dispatchGeneration⟩
  | none => t.alarmClear ⟨input.key, some input.dispatchOwner, some input.dispatchGeneration⟩

/-- The answer of an accepted completion is its next wake. -/
def alarmComplete (input : AlarmCompleteInput) :
    Thrown (AlarmTables × CallStatus × Option ℕ) :=
  if ¬validClaim input.dispatchOwner input.dispatchGeneration then
    raise "alarmComplete: invalid dispatch claim"
  else if ¬t.ownedBy input.key input.dispatchOwner input.dispatchGeneration then
    .ok (t, .stale, none)
  else (input.wakeRequest.elim (.ok t) fun token ↦
      t.acknowledgeRequest input.key token input.dispatchGeneration).bind fun t ↦
    (t.applyNextAlarm input).bind fun
      | (_, .stale) => raise "Alarm claim changed inside its completion transaction"
      | (t, .accepted) =>
        let t := t.ensureRequestedAlarm input.key
        .ok (t, .accepted, if t.hasPendingRequest input.key then some 0
          else input.nextAlarm.map NextAlarm.wakeAt)

/-- `owners`: the registered sources. -/
def wakeOwners : List LifecycleKey := t.sources.rows.map Prod.fst

def alarmSourceList : List LifecycleKey := t.wakeOwners.filter fun k ↦ t.entityActive k

def alarmAdoptWorker (workerId : JsString) : Thrown AlarmTables :=
  if workerId.length < 8 ∨ 512 < workerId.length then raise "alarmAdoptWorker: invalid workerId"
  else
    let released := { t with
      alarms := t.alarms.map fun a ↦ { a with dispatchOwner := none }
      activeWorker := some workerId }
    .ok (released.alarmSourceList.foldl wakeNow released)

/-- `ORDER BY wake_at, source, class_name, object_key`. -/
def dueBefore (p q : LifecycleKey × AlarmRow) : Bool :=
  let columns := fun (r : LifecycleKey × AlarmRow) ↦
    [utf8Encode r.1.source, utf8Encode r.1.className, utf8Encode r.1.objectKey]
  decide (p.2.wakeAt < q.2.wakeAt) ||
    decide (p.2.wakeAt = q.2.wakeAt ∧ columns p ≤ columns q)

/-- The text that excludes a key: its parts with zeros between them. -/
def excludeText (k : LifecycleKey) : JsString := k.source ++ [0] ++ k.className ++ [0] ++ k.objectKey

/-- The rows that `alarmClaimDue` selects. -/
def dueRows (input : AlarmClaimDueInput) : List (LifecycleKey × AlarmRow) :=
  (((t.alarms.rows.filter fun p ↦
    decide (p.2.wakeAt ≤ input.now ∧ p.2.dispatchOwner = none)).mergeSort dueBefore).filter fun p ↦
      !(input.exclude.map excludeText).contains (excludeText p.1)).take input.limit

/-- The next wake of a row that is neither claimed nor excluded. -/
def alarmNextWakeAt (now : ℕ) (exclude : List LifecycleKey) : Thrown (Option ℕ) :=
  if maxSafeInteger < now then raise "alarmNextWakeAt: invalid now"
  else (exclude.forM assertLifecycleKey).map fun _ ↦
    ((t.alarms.rows.filter fun p ↦ decide (p.2.dispatchOwner = none) &&
      !(exclude.map excludeText).contains (excludeText p.1)).map fun p ↦ p.2.wakeAt).min?

/-- One selected row is claimed. -/
def claimRow (workerId : JsString) (p : LifecycleKey × AlarmRow) : Thrown (AlarmTables × AlarmClaim) :=
  (t.nextClaimGeneration p.1).bind fun (t, generation) ↦
    let claimed := { t with
      alarms := t.alarms.update p.1 fun a ↦ if a.dispatchOwner = none then
        ⟨a.wakeAt, generation, some workerId⟩ else a }
    match claimed.alarms.get p.1 with
    | none => raise "Expected exactly one row"
    | some a =>
      let (t, wakeRequest) := claimed.claimRequest p.1 a.dispatchGeneration
      .ok (t, ⟨p.1, p.2.wakeAt, a.dispatchGeneration, wakeRequest, t.policies.get p.1⟩)

def claimRows (workerId : JsString) :
    List (LifecycleKey × AlarmRow) → AlarmTables → Thrown (AlarmTables × List AlarmClaim)
  | [], t => .ok (t, [])
  | p :: rows, t => (t.claimRow workerId p).bind fun (t, claim) ↦
    (claimRows workerId rows t).map fun (t, claims) ↦ (t, claim :: claims)

def alarmClaimDue (input : AlarmClaimDueInput) : Thrown (AlarmTables × List AlarmClaim) :=
  if maxSafeInteger < input.now then raise "alarmClaimDue: invalid now"
  else if trim input.workerId = [] then raise "alarmClaimDue: invalid workerId"
  else if input.limit < 1 ∨ 1000 < input.limit then raise "alarmClaimDue: invalid limit"
  else if t.activeWorker ≠ some input.workerId then
    raise "alarmClaimDue: worker generation is not active"
  else (input.exclude.forM assertLifecycleKey).bind fun _ ↦
    claimRows input.workerId (t.dueRows input) t

/-! ## Leases and the publications of the entity calls -/

def lifecycleLeaseUpsert (k : LifecycleKey) (detail : Option JsString) (now : ℕ) :
    Thrown AlarmTables :=
  (assertLifecycleKey k).map fun _ ↦ { t with
    leases := t.leases.set k ((t.leases.get k).elim ⟨detail, now, now⟩ fun lease ↦
      { lease with detail, refreshedAt := now }) }

def lifecycleLeaseClear (k : LifecycleKey) : Thrown AlarmTables :=
  (assertLifecycleKey k).map fun _ ↦ { t with leases := t.leases.delete k }

end AlarmTables

/-- What the entity calls read. `conflict` is the error of the checks on columns that are left out,
and `sealed` that there is an `activeExecutionDigest`. -/
structure EntityActivateInput where
  kind : EntityKind
  repoPath : JsString
  className : Option JsString
  key : JsString
  durableWorkQueues : List JsString
  nativeOwner : Option StorageIncarnation
  isSealed : Bool
  conflict : Option AlarmError

def durableWorkQueues : List JsString :=
  [lit "channel-delivery", lit "channel-observation", lit "workspace-publication"]

namespace AlarmTables

variable (t : AlarmTables)

def setEntity (id : JsString) (row : EntityRow) : AlarmTables :=
  { t with entities := t.entities.set id row }

def updateEntity (id : JsString) (f : EntityRow → EntityRow) : AlarmTables :=
  { t with entities := t.entities.update id f }

def deleteOwner (k : LifecycleKey) : AlarmTables := { t with owners := t.owners.delete k }

/-- The row of the queues of a Durable Object. -/
def setWorkOwner (k : LifecycleKey) (queues : List JsString) (isSealed : Bool) (now : ℕ) :
    Thrown AlarmTables :=
  if queues ≠ [] ∧ ¬isSealed then raise "Durable work publication requires a sealed executable"
  else if queues = [] then .ok (t.deleteOwner k)
  else .ok { t with
    owners := t.owners.set k ((t.owners.get k).elim ⟨queues, now⟩ fun owner ↦ { owner with queues }) }

/-- `[...new Set(input.durableWorkQueues)].sort()`. -/
def sortedQueues (input : EntityActivateInput) : List JsString :=
  input.durableWorkQueues.dedup.mergeSort fun a b ↦ decide (a ≤ b)

def publishDurableWorkOwner (input : EntityActivateInput) (now : ℕ) : Thrown AlarmTables :=
  if (sortedQueues input).any fun queue ↦ !durableWorkQueues.contains queue then
    raise "Entity publication contains an unknown durable work queue"
  else if input.kind ≠ .durableObject then
    if sortedQueues input ≠ [] then raise "Only Durable Objects may own durable work queues" else .ok t
  else match input.className with
    | none | some [] => raise "Durable work publication requires a class"
    | some className =>
      t.setWorkOwner ⟨input.repoPath, className, input.key⟩ (sortedQueues input) input.isSealed now

/-- The wake source and the lease of a native owner, given whether the entity had one. -/
def setNativeOwner (k : LifecycleKey) (nativeOwner : Option StorageIncarnation) (previous : Bool)
    (now : ℕ) : Thrown AlarmTables := match nativeOwner with
  | none => if previous then (t.unregister k).lifecycleLeaseClear k else .ok t
  | some identity => (t.register k identity).bind fun t ↦
    t.lifecycleLeaseUpsert k (some (lit "\x7b\"owner\":\"pi\"\x7d")) now

def publishNativeOwner (input : EntityActivateInput) (id : JsString) (now : ℕ) :
    Thrown AlarmTables :=
  if input.nativeOwner.isSome ∧ (input.kind ≠ .durableObject ∨ input.className = none ∨
      input.className = some [] ∨ ¬input.isSealed) then
    raise "Native ownership requires an exact sealed Durable Object"
  else if input.kind ≠ .durableObject then .ok t
  else match input.className with
    | none | some [] => .ok t
    | some className => (t.setNativeOwner ⟨input.repoPath, className, input.key⟩ input.nativeOwner
        ((t.entities.get id).any (·.nativeOwner.isSome)) now).map fun t ↦
      t.updateEntity id fun e ↦ { e with nativeOwner := input.nativeOwner }

/-- `assertStableIdentityMatches`. -/
def assertStableIdentityMatches (id : JsString) (existing : EntityRow) (input : EntityActivateInput) :
    Thrown Unit :=
  if existing.kind ≠ input.kind then .error (.identityCollision id (lit "kind"))
  else if existing.sourceRepoPath ≠ input.repoPath then
    .error (.identityCollision id (lit "source.repoPath"))
  else if existing.className ≠ input.className then .error (.identityCollision id (lit "className"))
  else if existing.key ≠ input.key then .error (.identityCollision id (lit "key"))
  else .ok ()

def entityActivate (input : EntityActivateInput) (now : ℕ) : Thrown AlarmTables :=
  (t.publishDurableWorkOwner input now).bind fun t ↦
  (canonicalEntityId input.kind input.repoPath input.className input.key).bind fun id ↦
  match t.entities.get id with
  | none => match input.conflict with
    | some e => .error e
    | none => (t.setEntity id ⟨input.kind, input.repoPath, input.className, input.key, .active, true,
        none⟩).publishNativeOwner input id now
  | some existing =>
    (assertStableIdentityMatches id existing input).bind fun _ ↦
    if existing.status = .retired ∧ existing.cleanupComplete = false then
      .error (.error (lit "Cannot reactivate entity " ++ id ++
        lit " before retirement cleanup completes"))
    else match input.conflict with
      | some e => .error e
      | none => (if existing.status = .active then t else t.setEntity id
          { existing with status := .active, cleanupComplete := true }).publishNativeOwner input id now

def entityReserve (input : EntityActivateInput) : Thrown AlarmTables :=
  if input.kind ≠ .panel ∧ input.kind ≠ .worker ∧ input.kind ≠ .durableObject then
    raise "entityReserve only accepts code-backed entity kinds"
  else (canonicalEntityId input.kind input.repoPath input.className input.key).bind fun id ↦
  match t.entities.get id with
  | none => match input.conflict with
    | some e => .error e
    | none => .ok (t.setEntity id
        ⟨input.kind, input.repoPath, input.className, input.key, .preparing, true, none⟩)
  | some existing =>
    (assertStableIdentityMatches id existing input).bind fun _ ↦
    if existing.status = .retired then
      .error (.error (lit "Cannot reserve retired entity " ++ id))
    else match input.conflict with
      | some e => .error e
      | none => .ok t

/-- `advanceEntityExecution`: the id, and the tables with the entity in its new status. -/
def advanceEntityExecution (input : EntityActivateInput) (status : EntityStatus) :
    Thrown (AlarmTables × JsString) :=
  if ¬input.isSealed then
    raise "entity execution advance requires a complete build key, execution digest, and authority manifest"
  else (canonicalEntityId input.kind input.repoPath input.className input.key).bind fun id ↦
  match t.entities.get id with
  | none => .error (.error (lit "entityAdvanceExecution: unknown entity " ++ id))
  | some existing =>
    if existing.status = .retired then
      .error (.error (lit "entityAdvanceExecution: entity " ++ id ++ lit " is retired"))
    else (assertStableIdentityMatches id existing input).bind fun _ ↦ match input.conflict with
      | some e => .error e
      | none => .ok (t.setEntity id { existing with status }, id)

def entityAdvanceExecution (input : EntityActivateInput) (now : ℕ) : Thrown AlarmTables :=
  (t.advanceEntityExecution input .active).bind fun (t, id) ↦
  (t.publishDurableWorkOwner input now).bind fun t ↦ t.publishNativeOwner input id now

def entityAdvanceExecutions (now : ℕ) : List EntityActivateInput → AlarmTables → Thrown AlarmTables
  | [], t => .ok t
  | input :: inputs, t => (t.entityAdvanceExecution input now).bind (entityAdvanceExecutions now inputs)

def entityPrepareExecution (input : EntityActivateInput) : Thrown AlarmTables :=
  (canonicalEntityId input.kind input.repoPath input.className input.key).bind fun id ↦
  if (t.entities.get id).map EntityRow.status ≠ some .preparing then
    .error (.error (lit "entityPrepareExecution: " ++ id ++ lit " is not a reserved incarnation"))
  else (t.advanceEntityExecution input .preparing).map Prod.fst

/-! ## Retirement and repair -/

/-- The body of `clearEntityDoLifecycle`. -/
def clearLifecycle (k : LifecycleKey) (id : JsString) : Thrown AlarmTables :=
  (t.lifecycleLeaseClear k).bind fun t ↦ (t.alarmClear ⟨k, none, none⟩).map fun cleared ↦
    (((cleared.1.unregister k).updateEntity id fun e ↦ { e with nativeOwner := none }).deleteOwner k)

def clearEntityDoLifecycle (id : JsString) (row : EntityRow) : Thrown AlarmTables :=
  if row.kind ≠ .durableObject then .ok t
  else match row.className with
    | none | some [] => .ok t
    | some className => t.clearLifecycle ⟨row.sourceRepoPath, className, row.key⟩ id

def entityRetire (id : JsString) : Thrown AlarmTables := match t.entities.get id with
  | none => .ok t
  | some row =>
    if row.status = .retired then t.clearEntityDoLifecycle id row
    else (t.updateEntity id fun e ↦
      { e with status := .retired, cleanupComplete := false }).clearEntityDoLifecycle id row

def entityCleanupComplete (id : JsString) : AlarmTables :=
  t.updateEntity id fun e ↦ if e.status = .retired then { e with cleanupComplete := true } else e

/-- `entityGc`, given which retired rows it takes. -/
def entityGc (old : JsString → Bool) : AlarmTables :=
  { t with entities := t.entities.deleteWhere fun id e ↦ old id && decide (e.status = .retired) }

/-- There is an entity with the columns of the key and this status. -/
def someEntity (k : LifecycleKey) (status : EntityStatus) : Bool :=
  t.entities.rows.any fun p ↦ decide (p.2.kind = .durableObject ∧ p.2.status = status ∧
    p.2.sourceRepoPath = k.source ∧ p.2.className = some k.className ∧ p.2.key = k.objectKey)

def repairLifecycleInvariants : AlarmTables :=
  let alarms := t.alarms.deleteWhere fun k _ ↦ t.someEntity k .retired
  { t with
    alarms
    policies := t.policies.deleteWhere fun k _ ↦ (alarms.get k).isNone
    owners := t.owners.deleteWhere fun k _ ↦ !t.someEntity k .active }

end AlarmTables

/-! ## Calls -/

inductive AlarmCall where
  | alarmSet (input : AlarmSetInput)
  | alarmClear (input : AlarmClearInput)
  | alarmComplete (input : AlarmCompleteInput)
  | alarmAdoptWorker (workerId : JsString)
  | alarmClaimDue (input : AlarmClaimDueInput)
  | alarmSourcePublish (key : LifecycleKey) (publication : WakePublication)
  | alarmSourceRequest (key : LifecycleKey) (incarnation : JsString)
  | lifecycleLeaseUpsert (key : LifecycleKey) (detail : Option JsString) (now : ℕ)
  | lifecycleLeaseClear (key : LifecycleKey)
  | entityActivate (input : EntityActivateInput) (now : ℕ)
  | entityReserve (input : EntityActivateInput)
  | entityPrepareExecution (input : EntityActivateInput)
  | entityAdvanceExecutions (inputs : List EntityActivateInput) (now : ℕ)
  | entityRetire (id : JsString)
  | entityCleanupComplete (id : JsString)
  | entityGc (old : JsString → Bool)
  | restart

/-- What a call returns, as far as it is a status or claims. -/
inductive AlarmAnswer where
  | status (status : CallStatus)
  | published (status : PublishStatus)
  | claims (claims : List AlarmClaim)
  | nothing

def AlarmTables.call (t : AlarmTables) : AlarmCall → Thrown (AlarmTables × AlarmAnswer)
  | .alarmSet input => (t.alarmSet input).map fun (t, s) ↦ (t, .status s)
  | .alarmClear input => (t.alarmClear input).map fun (t, s) ↦ (t, .status s)
  | .alarmComplete input => (t.alarmComplete input).map fun (t, s, _) ↦ (t, .status s)
  | .alarmAdoptWorker workerId => (t.alarmAdoptWorker workerId).map fun t ↦ (t, .nothing)
  | .alarmClaimDue input => (t.alarmClaimDue input).map fun (t, claims) ↦ (t, .claims claims)
  | .alarmSourcePublish k publication => (t.publish k publication).map fun (t, s) ↦ (t, .published s)
  | .alarmSourceRequest k incarnation => (t.request k incarnation).map fun (t, s) ↦ (t, .status s)
  | .lifecycleLeaseUpsert k detail now =>
    (t.lifecycleLeaseUpsert k detail now).map fun t ↦ (t, .nothing)
  | .lifecycleLeaseClear k => (t.lifecycleLeaseClear k).map fun t ↦ (t, .nothing)
  | .entityActivate input now => (t.entityActivate input now).map fun t ↦ (t, .nothing)
  | .entityReserve input => (t.entityReserve input).map fun t ↦ (t, .nothing)
  | .entityPrepareExecution input => (t.entityPrepareExecution input).map fun t ↦ (t, .nothing)
  | .entityAdvanceExecutions inputs now =>
    (AlarmTables.entityAdvanceExecutions now inputs t).map fun t ↦ (t, .nothing)
  | .entityRetire id => (t.entityRetire id).map fun t ↦ (t, .nothing)
  | .entityCleanupComplete id => .ok (t.entityCleanupComplete id, .nothing)
  | .entityGc old => .ok (t.entityGc old, .nothing)
  | .restart => .ok (t.repairLifecycleInvariants, .nothing)

/-- A call in its transaction: one that throws changes nothing. -/
def AlarmTables.transact (t : AlarmTables) (c : AlarmCall) : AlarmTables × Thrown AlarmAnswer :=
  match t.call c with
  | .ok (t', answer) => (t', .ok answer)
  | .error e => (t, .error e)

end Vibestudio.WorkspaceState

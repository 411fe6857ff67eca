import Mathlib
import Vibestudio.Shared.CanonicalJson
import Vibestudio.WorkspaceState.EntitySteps

/-!
# Entities and their lifetimes

The entity calls of `packages/builtin/src/workspace-state/WorkspaceDO.ts` with every column of the
table `entities`. A row is the one the alarm tables have together with the columns they leave out, so
the publications and the retirement of a Durable Object are those of the alarm tables.

A call is a function of the tables that returns them with the rows it answers, or throws. What lies
outside is an argument: the clock, the next random id, whether the storage enforces `REFERENCES`
clauses, and the parser of authority manifests.
-/

namespace Vibestudio.WorkspaceState

open Js Sqlite Vibestudio.Shared

/-! ## The tables -/

/-- The columns of `entities` that are not in the alarm tables. -/
structure EntityColumns where
  sourceEffectiveVersion : JsString
  activeBuildKey : Option JsString
  activeExecutionDigest : Option JsString
  activeAuthority : Option JsString
  executionAuthority : Option JsString
  contextId : JsString
  stateArgs : Option JsString
  agentEntityId : Option JsString
  agentChannelId : Option JsString
  parentId : Option JsString
  ownerUserId : Option JsString
  authoritySessionId : JsString
  cloneProvenance : Option JsString
  createdAt : ℕ
  retiredAt : Option ℕ
  error : Option JsString
  deriving DecidableEq

/-- A row of `entities`. -/
structure DbEntityRow extends EntityRow, EntityColumns
  deriving DecidableEq

/-- A row of `context_edges` of the kind `lifecycle`. -/
structure LifecycleEdge where
  ownerEntityId : Option JsString
  createdAt : ℕ
  deriving DecidableEq

/-- A row of `runtime_resource_bindings`. -/
structure RuntimeResourceBinding where
  entityId : JsString
  resourceKind : JsString
  resourceId : JsString
  capabilities : List JsString
  scopeChannelId : Option JsString
  createdAt : ℕ
  deriving DecidableEq

/-- The tables. A lifecycle edge is under its context and the context that owns it. -/
structure EntityTables where
  alarms : AlarmTables
  columns : Table JsString EntityColumns
  contextEdges : Table (JsString × JsString) LifecycleEdge
  resourceBindings : List RuntimeResourceBinding

def EntityTables.empty : EntityTables := ⟨.empty, .empty, .empty, []⟩

/-! ## Arguments -/

structure RuntimeAgentBinding where
  entityId : JsString
  contextId : JsString
  channelId : JsString
  deriving DecidableEq

structure EntityActivationInput where
  executionAuthority : Option JsData
  kind : EntityKind
  repoPath : JsString
  effectiveVersion : JsString
  activeBuildKey : Option JsString
  activeExecutionDigest : Option JsString
  activeAuthority : Option JsData
  contextId : JsString
  className : Option JsString
  key : JsString
  stateArgs : Option JsData
  agentBinding : Option RuntimeAgentBinding
  parentId : Option JsString
  ownerUserId : Option JsString

structure EntityActivationCommand extends EntityActivationInput where
  nativeOwner : Option StorageIncarnation
  durableWorkQueues : List JsString

structure LifecycleOwner where
  contextId : JsString
  entityId : JsString

structure EntityReservationInput extends EntityActivationInput where
  cloneProvenance : Option JsData
  lifecycleOwner : Option LifecycleOwner

/-- What a call finds outside the tables. -/
structure EntitySurroundings where
  foreignKeys : Bool
  nfc : Nfc
  parseUnitAuthorityManifest : JsData → Except JsString JsData
  now : ℕ

/-- What a call throws. -/
inductive EntityError where
  | error (message : JsString)
  | identityCollision (id field : JsString) (existing attempted : JsData)
  | alarm (e : AlarmError)
  | canonicalJson (e : CanonicalJsonError)
  | constraint

abbrev EntityThrown (α : Type) := Except EntityError α

/-- An error with a constant message. -/
def refuse {α : Type} (message : String) : EntityThrown α := .error (.error (lit message))

/-- An error with an id at the end of its message. -/
def refuseId {α : Type} (message : String) (id : JsString) : EntityThrown α :=
  .error (.error (lit message ++ id))

def EntityKind.text : EntityKind → JsString
  | .panel => lit "panel"
  | .client => lit "client"
  | .worker => lit "worker"
  | .durableObject => lit "do"
  | .session => lit "session"
  | .shell => lit "shell"
  | .server => lit "server"

def EntityStatus.text : EntityStatus → JsString
  | .preparing => lit "preparing"
  | .active => lit "active"
  | .retired => lit "retired"

/-- `null` for an absent text. -/
def textOrNull (s : Option JsString) : JsData := .leaf (s.elim .null .str)

/-! ## Execution identities -/

def validateActiveExecutionDigest : Option JsString → EntityThrown (Option JsString)
  | none => .ok none
  | some digest => if isHexOfLength 64 digest then .ok (some digest)
    else refuse "entity activeExecutionDigest must be a lowercase SHA-256 digest"

def validateActiveBuildKey : Option JsString → EntityThrown (Option JsString)
  | none => .ok none
  | some buildKey => if isHexOfLength 64 buildKey then .ok (some buildKey)
    else refuse "entity activeBuildKey must be a lowercase SHA-256 build key"

def serializeActiveAuthority (env : EntitySurroundings) : Option JsData →
    EntityThrown (Option JsString)
  | none => .ok none
  | some authority => ((env.parseUnitAuthorityManifest authority).mapError EntityError.error).map
      stringify

/-- The execution identity of an input, as the columns store it. -/
structure ExecutionIdentity where
  buildKey : Option JsString
  digest : Option JsString
  authority : Option JsString

def executionIdentity (env : EntitySurroundings) (input : EntityActivationInput) :
    EntityThrown ExecutionIdentity :=
  (validateActiveBuildKey input.activeBuildKey).bind fun buildKey ↦
  (validateActiveExecutionDigest input.activeExecutionDigest).bind fun digest ↦
  (serializeActiveAuthority env input.activeAuthority).map fun authority ↦
    ⟨buildKey, digest, authority⟩

/-- `input.executionAuthority ? canonicalJson(input.executionAuthority) : null`. -/
def canonicalOrNull (env : EntitySurroundings) : Option JsData → EntityThrown (Option JsString)
  | none => .ok none
  | some value => (canonicalJson env.nfc value).mapError .canonicalJson

/-! ## Identity checks -/

/-- A column that has to be the one of the input. -/
def checkColumn (id : JsString) (field : String) (existing attempted : Option JsString) :
    EntityThrown Unit :=
  if existing = attempted then .ok ()
  else .error (.identityCollision id (lit field) (textOrNull existing) (textOrNull attempted))

namespace DbEntityRow

def assertStableIdentityMatches (env : EntitySurroundings) (id : JsString) (existing : DbEntityRow)
    (input : EntityActivationInput) : EntityThrown Unit :=
  (canonicalOrNull env input.executionAuthority).bind fun executionAuthority ↦
  (checkColumn id "executionAuthority" existing.executionAuthority executionAuthority).bind fun _ ↦
  (checkColumn id "kind" (some existing.kind.text) (some input.kind.text)).bind fun _ ↦
  (checkColumn id "source.repoPath" (some existing.sourceRepoPath) (some input.repoPath)).bind fun _ ↦
  (checkColumn id "contextId" (some existing.contextId) (some input.contextId)).bind fun _ ↦
  (checkColumn id "className" existing.className input.className).bind fun _ ↦
  checkColumn id "key" (some existing.key) (some input.key)

def assertIdentityMatches (env : EntitySurroundings) (id : JsString) (existing : DbEntityRow)
    (input : EntityActivationInput) : EntityThrown Unit :=
  (existing.assertStableIdentityMatches env id input).bind fun _ ↦
  checkColumn id "source.effectiveVersion" (some existing.sourceEffectiveVersion)
    (some input.effectiveVersion)

end DbEntityRow

/-- The columns of an agent binding; an entity that is its own agent has no agent id. -/
def agentColumns (id : JsString) (binding : Option RuntimeAgentBinding) :
    Option JsString × Option JsString :=
  ((binding.map RuntimeAgentBinding.entityId).filter (· ≠ id), binding.map RuntimeAgentBinding.channelId)

/-- An agent binding in a collision. -/
def agentData (entityId contextId : JsString) (channelId : Option JsString) : JsData :=
  .obj [(lit "entityId", textOrNull (some entityId)), (lit "contextId", textOrNull (some contextId)),
    (lit "channelId", textOrNull channelId)]

def assertAgentMatches (id : JsString) (existing : DbEntityRow) (input : EntityActivationInput) :
    EntityThrown Unit :=
  match input.agentBinding.filter (·.contextId ≠ input.contextId) with
  | some binding => .error (.identityCollision id (lit "agentBinding.contextId")
      (textOrNull (some input.contextId)) (textOrNull (some binding.contextId)))
  | none =>
    if (existing.agentEntityId, existing.agentChannelId) = agentColumns id input.agentBinding then .ok ()
    else .error (.identityCollision id (lit "agentBinding")
      (agentData (existing.agentEntityId.getD id) existing.contextId existing.agentChannelId)
      (input.agentBinding.elim (.leaf .null) fun binding ↦
        agentData binding.entityId binding.contextId (some binding.channelId)))

/-! ## Rows -/

namespace EntityTables

variable (env : EntitySurroundings) (t : EntityTables)

def readEntityRow (id : JsString) : Option DbEntityRow :=
  (t.alarms.entities.get id).bind fun e ↦ (t.columns.get id).map fun c ↦ ⟨e, c⟩

/-- The row is written whole. -/
def setRow (id : JsString) (row : DbEntityRow) : EntityTables :=
  { t with alarms := t.alarms.setEntity id row.toEntityRow, columns := t.columns.set id row.toEntityColumns }

/-- `INSERT INTO entities`, with the `REFERENCES` clause and the `CHECK`. -/
def insertRow (id : JsString) (row : DbEntityRow) : EntityThrown EntityTables :=
  if row.agentEntityId.isSome ∧ row.agentChannelId = none ∨ env.foreignKeys ∧
      ¬row.agentEntityId.all fun agent ↦ decide (agent = id) || (t.readEntityRow agent).isSome then
    .error .constraint
  else .ok (t.setRow id row)

/-- An operation on the alarm tables. -/
def onAlarms (alarms : Thrown AlarmTables) : EntityThrown EntityTables :=
  (alarms.mapError .alarm).map fun alarms ↦ { t with alarms }

def idOf (input : EntityActivationInput) : EntityThrown JsString :=
  (canonicalEntityId input.kind input.repoPath input.className input.key).mapError .alarm

end EntityTables

/-- The part of a command that the publications read. -/
def EntityActivationCommand.publication (input : EntityActivationCommand) : EntityActivateInput where
  kind := input.kind
  repoPath := input.repoPath
  className := input.className
  key := input.key
  durableWorkQueues := input.durableWorkQueues
  nativeOwner := input.nativeOwner
  isSealed := input.activeExecutionDigest.any (· ≠ [])
  conflict := none

namespace EntityTables

variable (env : EntitySurroundings) (t : EntityTables)

def publishDurableWorkOwner (input : EntityActivationCommand) : EntityThrown EntityTables :=
  t.onAlarms (t.alarms.publishDurableWorkOwner input.publication env.now)

def publishNativeOwner (input : EntityActivationCommand) (id : JsString) : EntityThrown EntityTables :=
  t.onAlarms (t.alarms.publishNativeOwner input.publication id env.now)

/-- The row after a publication. -/
def readBack (id : JsString) (message : String) : EntityThrown (EntityTables × DbEntityRow) :=
  match t.readEntityRow id with
  | some row => .ok (t, row)
  | none => refuseId message id

/-! ## `entityActivate` -/

/-- The row that a first activation inserts. -/
def activatedRow (input : EntityActivationInput) (id uuid : JsString) (execution : ExecutionIdentity)
    (executionAuthority : Option JsString) : DbEntityRow where
  kind := input.kind
  sourceRepoPath := input.repoPath
  className := input.className
  key := input.key
  status := .active
  cleanupComplete := true
  nativeOwner := none
  sourceEffectiveVersion := input.effectiveVersion
  activeBuildKey := execution.buildKey
  activeExecutionDigest := execution.digest
  activeAuthority := execution.authority
  executionAuthority
  contextId := input.contextId
  stateArgs := input.stateArgs.bind stringify
  agentEntityId := (agentColumns id input.agentBinding).1
  agentChannelId := (agentColumns id input.agentBinding).2
  parentId := input.parentId
  ownerUserId := input.ownerUserId
  authoritySessionId := uuid
  cloneProvenance := none
  createdAt := env.now
  retiredAt := none
  error := none

def activateNew (input : EntityActivationCommand) (id uuid : JsString) (execution : ExecutionIdentity) :
    EntityThrown (EntityTables × DbEntityRow) :=
  (canonicalOrNull env input.executionAuthority).bind fun executionAuthority ↦
  (t.insertRow env id
    (activatedRow env input.toEntityActivationInput id uuid execution executionAuthority)).bind fun t ↦
  (t.publishNativeOwner env input id).bind fun t ↦
  t.readBack id "entityActivate: failed to read row after insert: "

/-- The checks on the row there is, in their order. -/
def assertActivatable (input : EntityActivationInput) (id : JsString) (execution : ExecutionIdentity)
    (existing : DbEntityRow) : EntityThrown Unit :=
  (existing.assertIdentityMatches env id input).bind fun _ ↦
  if existing.status = .retired ∧ existing.cleanupComplete = false then
    .error (.error (lit "Cannot reactivate entity " ++ id ++
      lit " before retirement cleanup completes"))
  else if existing.activeBuildKey.any (· ≠ []) ∧ existing.activeBuildKey ≠ execution.buildKey then
    .error (.identityCollision id (lit "activeBuildKey") (textOrNull existing.activeBuildKey)
      (textOrNull execution.buildKey))
  else (assertAgentMatches id existing input).bind fun _ ↦
    checkColumn id "ownerUserId" existing.ownerUserId input.ownerUserId

/-- The row with the execution identity of the input. -/
def withExecution (execution : ExecutionIdentity) (row : DbEntityRow) : DbEntityRow :=
  { row with
    activeBuildKey := execution.buildKey
    activeExecutionDigest := execution.digest
    activeAuthority := execution.authority }

/-- A preparing or retired row becomes active. A preparing one keeps its reserved lifetime. -/
def reactivatedRow (uuid : JsString) (row : DbEntityRow) : DbEntityRow :=
  { row with
    status := .active
    retiredAt := none
    cleanupComplete := true
    error := none
    authoritySessionId := if row.status = .retired then uuid else row.authoritySessionId }

def activateExisting (input : EntityActivationCommand) (id uuid : JsString)
    (execution : ExecutionIdentity) (existing : DbEntityRow) :
    EntityThrown (EntityTables × DbEntityRow) :=
  (assertActivatable env input.toEntityActivationInput id execution existing).bind fun _ ↦
  let existing := withExecution execution existing
  if existing.status = .active then
    ((t.setRow id existing).publishNativeOwner env input id).bind fun t ↦
    t.readBack id "entityActivate: no row "
  else
    ((t.setRow id (reactivatedRow uuid existing)).publishNativeOwner env input id).map fun t ↦
    -- the answer is built from the row as it was read, not read back
    (t, { reactivatedRow uuid existing with nativeOwner := input.nativeOwner })

def entityActivate (input : EntityActivationCommand) (uuid : JsString) :
    EntityThrown (EntityTables × DbEntityRow) :=
  (executionIdentity env input.toEntityActivationInput).bind fun execution ↦
  if execution.buildKey.isSome ∧ execution.digest = none then
    refuse "entity activeBuildKey requires an activeExecutionDigest"
  else if execution.authority.isSome ∧ execution.digest = none then
    refuse "entity activeAuthority requires an activeExecutionDigest"
  else
    (t.publishDurableWorkOwner env input).bind fun t ↦
    (idOf input.toEntityActivationInput).bind fun id ↦
    match t.readEntityRow id with
    | some existing => t.activateExisting env input id uuid execution existing
    | none => t.activateNew env input id uuid execution

/-! ## `entityReserve` -/

/-- `upsertContextEdge` for a lifecycle edge, which has no clone definition. -/
def upsertContextEdge (contextId ownerContextId : JsString) (ownerEntityId : Option JsString) :
    EntityThrown EntityTables :=
  if contextId = ownerContextId then
    refuseId "A context cannot be its own lifecycle owner: " contextId
  else match t.contextEdges.rows.find? fun edge ↦
      decide (edge.1.1 = contextId ∧ edge.1.2 ≠ ownerContextId) with
    | some edge => .error (.error (lit "Context " ++ contextId ++
        lit " already belongs to lifecycle owner " ++ edge.1.2 ++ lit "; cannot re-parent it to " ++
        ownerContextId))
    | none => .ok { t with
        contextEdges := t.contextEdges.set (contextId, ownerContextId)
          ((t.contextEdges.get (contextId, ownerContextId)).elim ⟨ownerEntityId, env.now⟩ fun edge ↦
            { edge with ownerEntityId }) }

def upsertLifecycleOwner (input : EntityReservationInput) : EntityThrown EntityTables :=
  match input.lifecycleOwner with
  | none => .ok t
  | some owner => t.upsertContextEdge env input.contextId owner.contextId (some owner.entityId)

/-- A column or argument that counts as set. -/
def truthy (s : Option JsString) : Bool := s.any (· ≠ [])

/-- The row of a reservation. -/
def reservedRow (input : EntityReservationInput) (id uuid : JsString)
    (executionAuthority cloneProvenance : Option JsString) : DbEntityRow :=
  { activatedRow env input.toEntityActivationInput id uuid ⟨none, none, none⟩ executionAuthority with
    sourceEffectiveVersion := []
    status := .preparing
    cloneProvenance }

def reserveExisting (input : EntityReservationInput) (id : JsString) (existing : DbEntityRow) :
    EntityThrown (EntityTables × DbEntityRow) :=
  (canonicalOrNull env input.cloneProvenance).bind fun cloneProvenance ↦
  if existing.cloneProvenance ≠ cloneProvenance then
    .error (.identityCollision id (lit "cloneProvenance") (textOrNull existing.cloneProvenance)
      (input.cloneProvenance.getD (.leaf .null)))
  else (existing.assertIdentityMatches env id input.toEntityActivationInput).bind fun _ ↦
    if existing.status = .retired then refuseId "Cannot reserve retired entity " id
    else (t.upsertLifecycleOwner env input).map fun t ↦ (t, existing)

def reserveNew (input : EntityReservationInput) (id uuid : JsString) :
    EntityThrown (EntityTables × DbEntityRow) :=
  (canonicalOrNull env input.executionAuthority).bind fun executionAuthority ↦
  (canonicalOrNull env input.cloneProvenance).bind fun cloneProvenance ↦
  (t.insertRow env id (reservedRow env input id uuid executionAuthority cloneProvenance)).bind fun t ↦
  (t.upsertLifecycleOwner env input).bind fun t ↦
  t.readBack id "entityReserve: failed to read row after insert: "

def entityReserve (input : EntityReservationInput) (uuid : JsString) :
    EntityThrown (EntityTables × DbEntityRow) :=
  if input.kind ∉ [.panel, .worker, .durableObject] then
    refuse "entityReserve only accepts code-backed entity kinds"
  else if truthy input.activeBuildKey ∨ truthy input.activeExecutionDigest ∨
      input.activeAuthority.isSome then
    refuse "An entity reservation cannot carry an execution identity"
  else (idOf input.toEntityActivationInput).bind fun id ↦
    match t.readEntityRow id with
    | some existing => t.reserveExisting env input id existing
    | none => t.reserveNew env input id uuid

/-! ## Execution advances -/

def advanceEntityExecution (input : EntityActivationInput) (status : EntityStatus) :
    EntityThrown (EntityTables × JsString) :=
  (executionIdentity env input).bind fun execution ↦
  if execution.buildKey = none ∨ execution.digest = none ∨ execution.authority = none then
    refuse "entity execution advance requires a complete build key, execution digest, and authority manifest"
  else (idOf input).bind fun id ↦
    match t.readEntityRow id with
    | none => refuseId "entityAdvanceExecution: unknown entity " id
    | some existing =>
      if existing.status ≠ .active ∧ existing.status ≠ .preparing then
        .error (.error (lit "entityAdvanceExecution: entity " ++ id ++ lit " is " ++
          existing.status.text))
      else
        (existing.assertStableIdentityMatches env id input).bind fun _ ↦
        (checkColumn id "ownerUserId" existing.ownerUserId input.ownerUserId).map fun _ ↦
        (t.setRow id { withExecution execution existing with
          sourceEffectiveVersion := input.effectiveVersion, status, error := none }, id)

/-- One turn of `entityAdvanceExecutions`, and the body of `entityAdvanceExecution`. -/
def entityAdvanceExecution (input : EntityActivationCommand) :
    EntityThrown (EntityTables × DbEntityRow) :=
  (t.advanceEntityExecution env input.toEntityActivationInput .active).bind fun (t, id) ↦
  (t.publishDurableWorkOwner env input).bind fun t ↦
  (t.publishNativeOwner env input id).bind fun t ↦
  t.readBack id "entityAdvanceExecution: no row "

def entityAdvanceExecutions (env : EntitySurroundings) :
    List EntityActivationCommand → EntityTables → EntityThrown (EntityTables × List DbEntityRow)
  | [], t => .ok (t, [])
  | input :: inputs, t => (t.entityAdvanceExecution env input).bind fun (t, row) ↦
    (entityAdvanceExecutions env inputs t).map fun (t, rows) ↦ (t, row :: rows)

/-- The preparation that is sealed already is the one of the input. -/
def samePreparation (input : EntityActivationInput) (authority : Option JsString)
    (existing : DbEntityRow) : Bool :=
  decide (existing.activeBuildKey = input.activeBuildKey ∧ existing.activeExecutionDigest.isSome ∧
    existing.activeExecutionDigest = input.activeExecutionDigest ∧
    existing.activeAuthority = authority ∧ existing.ownerUserId = input.ownerUserId)

def entityPrepareExecution (input : EntityActivationInput) :
    EntityThrown (EntityTables × DbEntityRow) :=
  (idOf input).bind fun id ↦
  match (t.readEntityRow id).filter (·.status = .preparing) with
  | none => .error (.error (lit "entityPrepareExecution: " ++ id ++
      lit " is not a reserved incarnation"))
  | some existing =>
    if existing.activeBuildKey.isSome then
      (existing.assertIdentityMatches env id input).bind fun _ ↦
      (serializeActiveAuthority env input.activeAuthority).bind fun authority ↦
      if samePreparation input authority existing then .ok (t, existing)
      else refuseId "entityPrepareExecution: sealed preparation changed for " id
    else
      (t.advanceEntityExecution env input .preparing).bind fun (t, id) ↦
      t.readBack id "entityAdvanceExecution: failed to read "

/-! ## `entityRebindAgentChannel` -/

def entityRebindAgentChannel (id channelId : JsString) : EntityThrown (EntityTables × DbEntityRow) :=
  match (t.readEntityRow id).filter (·.status = .active) with
  | none => refuseId "agent channel binding target is not active: " id
  | some row =>
    if channelId = [] then refuse "agent channel binding requires a channel id"
    else if row.kind ∉ [.durableObject, .worker, .session] then
      .error (.error (lit "entity " ++ id ++ lit " cannot serve an agent channel"))
    else if row.agentEntityId.any (· ≠ id) then
      .error (.error (lit "entity " ++ id ++
        lit " relays another agent and cannot be rebound as self-hosted"))
    else
      (t.setRow id { row with agentEntityId := none, agentChannelId := some channelId }).readBack id
        "entityRebindAgentChannel: failed to read "

/-! ## Retirement -/

def deleteBindings (id : JsString) : EntityTables :=
  { t with resourceBindings := t.resourceBindings.filter fun b ↦ decide (b.entityId ≠ id) }

def clearEntityDoLifecycle (id : JsString) (row : DbEntityRow) : EntityThrown EntityTables :=
  t.onAlarms (t.alarms.clearEntityDoLifecycle id row.toEntityRow)

def entityRetire (id : JsString) : EntityThrown (EntityTables × Option DbEntityRow) :=
  match t.readEntityRow id with
  | none => .ok (t, none)
  | some row =>
    if row.status = .retired then
      ((t.deleteBindings id).clearEntityDoLifecycle id row).map fun t ↦ (t, some row)
    else
      (((t.setRow id { row with
        status := .retired, retiredAt := some env.now, cleanupComplete := false }).deleteBindings
          id).clearEntityDoLifecycle id row).map fun t ↦ (t, t.readEntityRow id)

def entityCleanupComplete (id authoritySessionId : JsString) : EntityThrown EntityTables :=
  if authoritySessionId = [] then refuse "Entity cleanup requires its exact authority lifetime"
  else match t.readEntityRow id with
    | none => .ok t
    | some row =>
      if row.status = .retired ∧ row.authoritySessionId = authoritySessionId then
        .ok (t.setRow id { row with cleanupComplete := true })
      else .ok t

/-- The bindings are replaced as one. -/
def runtimeResourceBindingsReplace (entityId : JsString) (bindings : List RuntimeResourceBinding) :
    EntityThrown EntityTables :=
  if (t.readEntityRow entityId).any (·.status = .active) then
    .ok { t with
      resourceBindings := (t.deleteBindings entityId).resourceBindings ++
        bindings.map fun b ↦ { b with entityId, createdAt := env.now } }
  else refuseId "runtime resource binding target is not active: " entityId

end EntityTables

/-! ## Calls -/

inductive EntityCall where
  | entityReserve (input : EntityReservationInput)
  | entityPrepareExecution (input : EntityActivationInput)
  | entityActivate (input : EntityActivationCommand)
  | entityAdvanceExecution (input : EntityActivationCommand)
  | entityAdvanceExecutions (inputs : List EntityActivationCommand)
  | entityRebindAgentChannel (id channelId : JsString)
  | entityRetire (id : JsString)
  | entityCleanupComplete (id authoritySessionId : JsString)
  | runtimeResourceBindingsReplace (entityId : JsString) (bindings : List RuntimeResourceBinding)

/-- A call, given the random id it draws if it draws one. The answer is the records it returns. -/
def EntityTables.call (env : EntitySurroundings) (uuid : JsString) (t : EntityTables) :
    EntityCall → EntityThrown (EntityTables × List DbEntityRow)
  | .entityReserve input => (t.entityReserve env input uuid).map fun (t, row) ↦ (t, [row])
  | .entityPrepareExecution input => (t.entityPrepareExecution env input).map fun (t, row) ↦ (t, [row])
  | .entityActivate input => (t.entityActivate env input uuid).map fun (t, row) ↦ (t, [row])
  | .entityAdvanceExecution input => (t.entityAdvanceExecution env input).map fun (t, row) ↦ (t, [row])
  | .entityAdvanceExecutions inputs => EntityTables.entityAdvanceExecutions env inputs t
  | .entityRebindAgentChannel id channelId =>
    (t.entityRebindAgentChannel id channelId).map fun (t, row) ↦ (t, [row])
  | .entityRetire id => (t.entityRetire env id).map fun (t, row) ↦ (t, row.toList)
  | .entityCleanupComplete id authoritySessionId =>
    (t.entityCleanupComplete id authoritySessionId).map fun t ↦ (t, [])
  | .runtimeResourceBindingsReplace entityId bindings =>
    (t.runtimeResourceBindingsReplace env entityId bindings).map fun t ↦ (t, [])

/-- A call in its transaction: one that throws changes nothing. -/
def EntityTables.transact (env : EntitySurroundings) (uuid : JsString) (t : EntityTables)
    (c : EntityCall) : EntityTables × EntityThrown (List DbEntityRow) :=
  match t.call env uuid c with
  | .ok (t', rows) => (t', .ok rows)
  | .error e => (t, .error e)

end Vibestudio.WorkspaceState

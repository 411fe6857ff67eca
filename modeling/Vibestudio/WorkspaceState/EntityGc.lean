import Mathlib
import Vibestudio.WorkspaceState.EntityLifetimes
import Vibestudio.WorkspaceState.PanelReferences

/-!
# The garbage collection of entities

`entityGc` of `packages/builtin/src/workspace-state/WorkspaceDO.ts`, over the tables of entities and of panels and the
calls that write them. A collection deletes retired rows; of what may still refer to them or wait for their clean-up its
queries read the histories only, and those of one slot the other way round. The `REFERENCES` clauses refuse what they
see, where the storage enforces them.
-/

namespace Vibestudio.WorkspaceState

open Js Sqlite Transition

/-! ## The tables -/

/-- The tables of entities and of panels. -/
structure WorkspaceTables where
  entities : EntityTables
  panels : PanelTables

def WorkspaceTables.empty : WorkspaceTables := ⟨.empty, .empty⟩

/-- What a call finds outside the tables, with the order in which a query without `ORDER BY` answers. -/
structure WorkspaceSurroundings extends EntitySurroundings where
  mergeValidateStateArgs : JsData → JsData → Option JsData → Except JsString JsData
  order : List JsString → List JsString
  order_perm : ∀ ids, (order ids).Perm ids

structure GcOptions where
  all : Option Bool
  slotId : Option JsString
  graceMs : Option ℤ

def defaultGraceMs : ℤ := 60 * 60 * 1000

/-- An entry of `initPanels`, with the values drawn for its slot and for the entity that is reserved for it. -/
structure SeedPanel where
  source : JsString
  stateArgs : Option JsData
  nonce : JsString
  key : JsString
  contextId : JsString
  uuid : JsString

/-- The calls that write entities, slots, their histories or the queue of clean-ups. -/
inductive WorkspaceCall where
  | entity (uuid : JsString) (call : EntityCall)
  | entityPatchStateArgs (id : JsString) (patch : JsData) (activeBuildKey : JsString) (schema : Option JsData)
  | runtimeResourceBindingsRelease (entityId : JsString)
  | entityGc (opts : GcOptions)
  | initializePanels (inputs : List SeedPanel) (privateOwnerUserId : Option JsString)
  | slotCreate (input : SlotCreateInput)
  | slotMove (slotId : JsString) (parentSlotId : Option JsString) (placement : Option PanelTreePlacement)
      (ownerUserId : Option JsString)
  | slotClose (slotId : JsString)
  | slotCloseOwnedRoots (ownerUserId : JsString)
  | slotCloseCleanupAck (slotIds : List JsString)
  | slotCommitPreparedNavigation (input : SlotCommitPreparedNavigationInput)
  | slotPatchCurrentStateArgs (slotId : JsString) (patch : JsData) (expected : ExpectedPanelState)

/-- What a call throws. -/
inductive WorkspaceError where
  | entity (e : EntityError)
  | panel (e : PanelError)
  | navigation (e : NavigationError)
  | error (message : JsString)
  | stateArgsConflict (id : JsString) (expected actual : Option JsString)
  | constraint

/-! ## Garbage collection -/

namespace WorkspaceTables

variable (env : WorkspaceSurroundings) (w : WorkspaceTables)

/-- A history has an entry of this entity. -/
def inHistory (id : JsString) : Bool := w.panels.slotHistory.any fun row ↦ decide (row.entityId = id)

/-- `status = 'retired' AND retired_at IS NOT NULL AND retired_at <= ?`. -/
def isPast (cutoff : ℤ) (row : DbEntityRow) : Bool :=
  decide (row.status = .retired) && row.retiredAt.any fun (retiredAt : ℕ) ↦ decide ((retiredAt : ℤ) ≤ cutoff)

def cutoff (opts : GcOptions) : ℤ := env.now - opts.graceMs.getD defaultGraceMs

/-- The ids that the query of a collection selects. -/
def candidates (opts : GcOptions) : List JsString :=
  w.entities.columns.rows.keys.filter fun id ↦ (w.entities.readEntityRow id).any fun row ↦
    isPast (cutoff env opts) row &&
      if opts.all = some true then !w.inHistory id
      else match opts.slotId.filter (· ≠ []) with
        | some slotId => (w.panels.slotHistory.any fun row ↦ decide (row.slotId = slotId ∧ row.entityId = id)) &&
            !w.panels.slotHistory.any fun row ↦ decide (row.slotId ≠ slotId ∧ row.entityId = id)
        | none => false

/-- A row refers to this entity through a `REFERENCES` clause, other than from the entities that are gone. -/
def referencedAfter (gone : List JsString) (id : JsString) : Bool :=
  (w.entities.columns.rows.any fun r ↦ decide (r.1 ≠ id ∧ r.1 ∉ gone ∧ r.2.agentEntityId = some id)) ||
    (w.entities.resourceBindings.any fun b ↦ decide (b.entityId = id)) ||
    (w.panels.slots.any fun slot ↦ decide (slot.currentEntityId = some id)) || w.inHistory id

/-- `DELETE FROM entities WHERE id = ?`, with the trigger that counts it for the panel tree. -/
def deleteEntity (id : JsString) : WorkspaceTables where
  entities := { w.entities with
    alarms := { w.entities.alarms with entities := w.entities.alarms.entities.delete id }
    columns := w.entities.columns.delete id }
  panels := { w.panels with
    panelTreeRevision := w.panels.panelTreeRevision +
      if w.panels.openSlots.any fun slot ↦ decide (slot.currentEntityId = some id) then 1 else 0 }

def deleteEntities (foreignKeys : Bool) : List JsString → WorkspaceTables → Except WorkspaceError WorkspaceTables
  | [], w => .ok w
  | id :: ids, w =>
    if foreignKeys && w.referencedAfter [] id then .error .constraint
    else deleteEntities foreignKeys ids (w.deleteEntity id)

def entityGc (opts : GcOptions) : Except WorkspaceError (WorkspaceTables × List JsString) :=
  let ids := env.order (w.candidates env opts)
  (deleteEntities env.foreignKeys ids w).map fun w ↦ (w, ids)

/-! ## The other calls -/

def panelSurroundings : NavigationSurroundings where
  foreignKeys := env.foreignKeys
  entities id := (w.entities.readEntityRow id).isSome
  nfc := env.nfc
  now := env.now
  entityRow := w.entities.readEntityRow
  mergeValidateStateArgs := env.mergeValidateStateArgs

/-- `UPDATE entities SET state_args = ? WHERE id = ?`. -/
def setStateArgs (id : JsString) (stateArgs : Option JsString) : WorkspaceTables :=
  { w with entities := { w.entities with
    columns := w.entities.columns.update id fun c ↦ { c with stateArgs } } }

def entityPatchStateArgs (id : JsString) (patch : JsData) (activeBuildKey : JsString) (schema : Option JsData) :
    Except WorkspaceError WorkspaceTables :=
  match (w.entities.readEntityRow id).filter (·.status = .active) with
  | none => .error (.error (lit "Entity is not active: " ++ id))
  | some row =>
    if row.kind ≠ .panel then .error (.error (lit "Entity " ++ id ++ lit " is not a panel"))
    else if row.activeBuildKey ≠ some activeBuildKey then
      .error (.stateArgsConflict id (some activeBuildKey) row.activeBuildKey)
    else ((decodePanelStateArgs row.stateArgs).mapError .navigation).bind fun current ↦
      ((env.mergeValidateStateArgs current patch schema).mapError .error).map fun next ↦
      w.setStateArgs id (stringify next)

/-- What `initializePanels` reserves for a seed. -/
def seedReservation (ownerUserId : Option JsString) (seed : SeedPanel) : EntityReservationInput where
  executionAuthority := none
  kind := .panel
  repoPath := seed.source
  effectiveVersion := []
  activeBuildKey := none
  activeExecutionDigest := none
  activeAuthority := none
  contextId := seed.contextId
  className := none
  key := seed.key
  stateArgs := some (seed.stateArgs.getD (.obj []))
  agentBinding := none
  parentId := some (lit "server")
  ownerUserId
  cloneProvenance := none
  lifecycleOwner := none

/-- The reservations of the seeds; the slots are created from what they answer. -/
def reserveSeeds (env : EntitySurroundings) (ownerUserId : Option JsString) :
    List SeedPanel → EntityTables → EntityThrown (EntityTables × List InitPanelEntry)
  | [], t => .ok (t, [])
  | seed :: seeds, t =>
    let input := seedReservation ownerUserId seed
    (EntityTables.idOf input.toEntityActivationInput).bind fun id ↦
    (t.entityReserve env input seed.uuid).bind fun (t, row) ↦
    (reserveSeeds env ownerUserId seeds t).map fun (t, entries) ↦
      (t, ⟨seed.source, seed.stateArgs, seed.nonce, seed.key, .ok ⟨id, row.contextId⟩⟩ :: entries)

/-- Seeds are reserved in a tree that was never used only. -/
def initializePanels (inputs : List SeedPanel) (privateOwnerUserId : Option JsString) :
    Except WorkspaceError WorkspaceTables :=
  let seeds := if w.panels.initialPanels = none ∧ w.panels.panelTreeRevision = 0 ∧ w.panels.slots = [] then inputs else []
  ((reserveSeeds env.toEntitySurroundings (privateOwnerUserId.filter (· ≠ [])) seeds w.entities).mapError .entity).bind
    fun (entities, entries) ↦
  ((WorkspaceState.initializePanels (panelSurroundings env { w with entities }).toSurroundings entries
    privateOwnerUserId w.panels).mapError .panel).map fun (panels, _) ↦ { entities, panels }

/-- A call of the panels alone. -/
def performPanels (call : HistoryCall) : WorkspaceTables :=
  { w with panels := historyPerform w.panels (panelSurroundings env w, call) }

def slotPatchCurrentStateArgs (slotId : JsString) (patch : JsData) (expected : ExpectedPanelState) :
    Except WorkspaceError WorkspaceTables :=
  ((WorkspaceState.slotPatchCurrentStateArgs (panelSurroundings env w) slotId patch expected w.panels).mapError
    .navigation).map fun (panels, patched) ↦
  let w := { w with panels }
  patched.entityWrite.elim w fun (id, stateArgs) ↦ w.setStateArgs id stateArgs

def slotCloseCleanupAck (slotIds : List JsString) : Except WorkspaceError WorkspaceTables :=
  if 200 < slotIds.length then .error (.error (lit "Close cleanup acknowledgement exceeds 200 items"))
  else .ok { w with panels := { w.panels with
    panelCloseCleanup := w.panels.panelCloseCleanup.filter fun row ↦ decide (row.slotId ∉ slotIds) } }

/-- The tables after a transaction: those before when it throws. -/
def committedOr : Except WorkspaceError WorkspaceTables → WorkspaceTables
  | .ok w' => w'
  | .error _ => w

def perform : WorkspaceCall → WorkspaceTables
  | .entity uuid call => { w with entities := (w.entities.transact env.toEntitySurroundings uuid call).1 }
  | .entityPatchStateArgs id patch activeBuildKey schema =>
    w.committedOr (w.entityPatchStateArgs env id patch activeBuildKey schema)
  | .runtimeResourceBindingsRelease entityId => { w with entities := w.entities.deleteBindings entityId }
  | .entityGc opts => w.committedOr ((w.entityGc env opts).map Prod.fst)
  | .initializePanels inputs owner => w.committedOr (w.initializePanels env inputs owner)
  | .slotCreate input => w.performPanels env (.panel (.slotCreate input))
  | .slotMove slotId parent placement owner => w.performPanels env (.panel (.slotMove slotId parent placement owner))
  | .slotClose slotId => w.performPanels env (.panel (.slotClose slotId))
  | .slotCloseOwnedRoots owner => w.performPanels env (.panel (.slotCloseOwnedRoots owner))
  | .slotCloseCleanupAck slotIds => w.committedOr (w.slotCloseCleanupAck slotIds)
  | .slotCommitPreparedNavigation input => w.performPanels env (.slotCommitPreparedNavigation input)
  | .slotPatchCurrentStateArgs slotId patch expected =>
    w.committedOr (w.slotPatchCurrentStateArgs env slotId patch expected)

end WorkspaceTables

def workspaceStep (w : WorkspaceTables) (e : WorkspaceSurroundings × WorkspaceCall) : Option WorkspaceTables :=
  some (w.perform e.1 e.2)

/-! ## What a collection has to keep -/

namespace WorkspaceTables

def Known (w : WorkspaceTables) (id : JsString) : Prop := (w.entities.readEntityRow id).isSome

/-- Every history entry, pointer of an open slot, agent binding and queued clean-up refers to a row of `entities`. -/
structure Resolved (w : WorkspaceTables) : Prop where
  history : ∀ r ∈ w.panels.slotHistory, w.Known r.entityId
  pointers : ∀ slot ∈ w.panels.openSlots, ∀ id ∈ slot.currentEntityId, w.Known id
  agents : ∀ id c, w.entities.columns.get id = some c → ∀ agent ∈ c.agentEntityId, w.Known agent
  cleanups : ∀ q ∈ w.panels.panelCloseCleanup, ∀ id ∈ q.entityId, w.Known id

/-- A collection deletes only retired rows past the grace window, that no history refers to and whose clean-up is
complete, and leaves no reference to them. -/
structure CollectsSafely (env : WorkspaceSurroundings) (opts : GcOptions) (w : WorkspaceTables) : Prop where
  deleted : ∀ id row, w.entities.readEntityRow id = some row →
    (w.perform env (.entityGc opts)).entities.readEntityRow id = none →
      row.status = .retired ∧ (∃ retiredAt : ℕ, row.retiredAt = some retiredAt ∧ (retiredAt : ℤ) ≤ cutoff env opts) ∧
        (∀ r ∈ w.panels.slotHistory, r.entityId ≠ id) ∧ row.cleanupComplete = true
  resolved : (w.perform env (.entityGc opts)).Resolved

/-- One of these entities is still referred to when its turn comes. -/
def refuses (w : WorkspaceTables) : List JsString → List JsString → Bool
  | _, [] => false
  | gone, id :: ids => w.referencedAfter gone id || w.refuses (id :: gone) ids

/-- The clean-up of the entity is complete, and nothing outlasts it that refers to it. -/
def unowned (w : WorkspaceTables) (ids : List JsString) (id : JsString) : Bool :=
  (w.entities.readEntityRow id).all (·.cleanupComplete) && !w.inHistory id &&
    !w.entities.columns.rows.any fun r ↦ decide (r.1 ∉ ids ∧ r.2.agentEntityId = some id)

/-- A `REFERENCES` clause refuses the collection, or nothing depends on what it selects. -/
def collectable (env : WorkspaceSurroundings) (opts : GcOptions) (w : WorkspaceTables) : Bool :=
  env.foreignKeys && w.refuses [] (env.order (w.candidates env opts)) ||
    (w.candidates env opts).all (w.unowned (w.candidates env opts))

/-- The input of a call that may insert an entity. -/
def insertionOf : EntityCall → Option EntityActivationInput
  | .entityReserve input => some input.toEntityActivationInput
  | .entityActivate input => some input.toEntityActivationInput
  | _ => none

/-- The entities that a call names are there, where the storage does not see to it. -/
def namesKnown (env : WorkspaceSurroundings) (w : WorkspaceTables) : WorkspaceCall → Bool
  | .entity _ call => env.foreignKeys || (insertionOf call).all fun input ↦ input.agentBinding.all fun binding ↦
      (w.entities.readEntityRow binding.entityId).isSome ||
        (EntityTables.idOf input).toOption = some binding.entityId
  | .slotCreate input => env.foreignKeys || input.initialEntry.all fun entry ↦
      (w.entities.readEntityRow entry.entityId).isSome
  | _ => true

/-- The condition on a step. -/
def keepsReferences (w : WorkspaceTables) (e : WorkspaceSurroundings × WorkspaceCall) : Bool :=
  namesKnown e.1 w e.2 && match e.2 with
    | .entityGc opts => collectable e.1 opts w
    | _ => true

end WorkspaceTables

/-! ## The agents that entity calls write -/

namespace EntityTables

variable {env : EntitySurroundings} {t t' : EntityTables} {uuid id : JsString}

/-- The agents that a table of columns names, other than those of another one. -/
def AgentsFrom (t t' : EntityTables) (new : JsString → Prop) : Prop :=
  ∀ id c', t'.columns.get id = some c' → ∀ agent ∈ c'.agentEntityId,
    (∃ c, t.columns.get id = some c ∧ c.agentEntityId = some agent) ∨ new agent

theorem AgentsFrom.of_eq (new : JsString → Prop) (h : t'.columns = t.columns) : AgentsFrom t t' new :=
  fun _ c' hc' _ hagent ↦ .inl ⟨c', h ▸ hc', hagent⟩

theorem AgentsFrom.trans {new : JsString → Prop} {t₁ : EntityTables} (h : AgentsFrom t t₁ new)
    (h' : AgentsFrom t₁ t' new) : AgentsFrom t t' new := by
  intro id c' hc' agent hagent
  rcases h' id c' hc' agent hagent with ⟨c, hc, hagent⟩ | hnew
  · exact h id c hc agent hagent
  · exact .inr hnew

/-- A row is written, with the agent that it had or a new one. -/
theorem AgentsFrom.setRow {new : JsString → Prop} {row : DbEntityRow} (hrow : ∀ agent ∈ row.agentEntityId,
    (∃ c, t.columns.get id = some c ∧ c.agentEntityId = some agent) ∨ new agent) :
    AgentsFrom t (t.setRow id row) new := by
  intro id' c' hc' agent hagent
  rw [EntityTables.setRow, Table.get_set] at hc'
  split_ifs at hc' with hid
  · obtain rfl := Option.some.inj hc'
    exact hid ▸ hrow agent hagent
  · exact .inl ⟨c', hc', hagent⟩

theorem columns_of_read {row : DbEntityRow} (h : t.readEntityRow id = some row) :
    t.columns.get id = some row.toEntityColumns := by
  obtain ⟨e, -, h⟩ := Option.bind_eq_some_iff.mp h
  obtain ⟨c, hc, rfl⟩ := Option.map_eq_some_iff.mp h
  exact hc

theorem AgentsFrom.rewrite (new : JsString → Prop) {row row' : DbEntityRow} (h : t.readEntityRow id = some row)
    (hagent : row'.agentEntityId = row.agentEntityId) : AgentsFrom t (t.setRow id row') new :=
  .setRow fun _ ha ↦ .inl ⟨_, columns_of_read h, hagent ▸ ha⟩

theorem onAlarms_columns {alarms : Thrown AlarmTables} (h : t.onAlarms alarms = .ok t') : t'.columns = t.columns := by
  obtain ⟨a, -, rfl⟩ := map_eq_ok.mp h
  rfl

theorem readBack_columns {message : String} {row : DbEntityRow} (h : t.readBack id message = .ok (t', row)) :
    t'.columns = t.columns := by
  rw [readBack] at h
  split at h
  · exact (Prod.mk.inj (Except.ok.inj h)).1 ▸ rfl
  · cases h

theorem upsertLifecycleOwner_columns {input : EntityReservationInput}
    (h : t.upsertLifecycleOwner env input = .ok t') : t'.columns = t.columns := by
  rw [upsertLifecycleOwner] at h
  split at h
  · exact Except.ok.inj h ▸ rfl
  rw [upsertContextEdge] at h
  split_ifs at h
  · cases h
  split at h
  · cases h
  · exact Except.ok.inj h ▸ rfl

/-- The agent of a binding, which is not the entity itself and is there where the storage sees to it. -/
structure NewAgent (env : EntitySurroundings) (t : EntityTables) (input : EntityActivationInput) (agent : JsString) :
    Prop where
  known : env.foreignKeys = true → (t.readEntityRow agent).isSome
  named : ∃ binding, input.agentBinding = some binding ∧ binding.entityId = agent ∧ idOf input ≠ .ok agent

theorem isSome_of_same (h : SameLifetimes t t') (id : JsString) :
    (t'.readEntityRow id).isSome = (t.readEntityRow id).isSome := by
  have hid := congrArg Option.isSome (h id)
  rwa [lifetime, lifetime, Option.isSome_map, Option.isSome_map] at hid

theorem insertRow_agents {input : EntityActivationInput} {row : DbEntityRow} (hid : idOf input = .ok id)
    (hrow : row.agentEntityId = (agentColumns id input.agentBinding).1) (h : t.insertRow env id row = .ok t') :
    AgentsFrom t t' (NewAgent env t input) := by
  rw [insertRow] at h
  split_ifs at h with hrefused
  obtain rfl := Except.ok.inj h
  refine .setRow fun agent hagent ↦ .inr ?_
  have hcolumn : (agentColumns id input.agentBinding).1 = some agent := hrow ▸ hagent
  obtain ⟨hbinding, hne⟩ := Option.filter_eq_some_iff.mp hcolumn
  have hne := of_decide_eq_true hne
  obtain ⟨binding, hbinding, hentity⟩ := Option.map_eq_some_iff.mp hbinding
  refine ⟨fun hforeign ↦ ?_, binding, hbinding, hentity, fun heq ↦ hne (Except.ok.inj (heq.symm.trans hid))⟩
  have hall := not_not.mp fun hnot ↦ hrefused (.inr ⟨hforeign, hnot⟩)
  rw [Option.mem_def.mp hagent, Option.all_some, decide_eq_false hne] at hall
  exact hall

theorem entityActivate_agents {input : EntityActivationCommand} {row : DbEntityRow}
    (h : t.entityActivate env input uuid = .ok (t', row)) :
    AgentsFrom t t' (NewAgent env t input.toEntityActivationInput) := by
  obtain ⟨execution, -, h⟩ := bind_eq_ok.mp h
  split_ifs at h
  · exact nomatch h
  · exact nomatch h
  obtain ⟨t₁, howner, h⟩ := bind_eq_ok.mp h
  obtain ⟨id, hid, h⟩ := bind_eq_ok.mp h
  have hqueues := publishDurableWorkOwner_same howner
  refine (AgentsFrom.of_eq _ (onAlarms_columns howner)).trans ?_
  split at h
  · next existing hexisting =>
    obtain ⟨_, -, h⟩ := bind_eq_ok.mp h
    simp only at h
    split_ifs at h
    · obtain ⟨t₂, hnative, h⟩ := bind_eq_ok.mp h
      refine AgentsFrom.trans ?_ (.of_eq _ ((readBack_columns h).trans (onAlarms_columns hnative)))
      exact .rewrite _ hexisting rfl
    · obtain ⟨t₂, hnative, h⟩ := map_eq_ok.mp h
      obtain ⟨rfl, -⟩ := Prod.mk.inj h
      refine AgentsFrom.trans ?_ (.of_eq _ (onAlarms_columns hnative))
      exact .rewrite _ hexisting rfl
  · obtain ⟨authority, -, h⟩ := bind_eq_ok.mp h
    obtain ⟨t₂, hinsert, h⟩ := bind_eq_ok.mp h
    obtain ⟨t₃, hnative, h⟩ := bind_eq_ok.mp h
    refine AgentsFrom.trans ?_ (.of_eq _ ((readBack_columns h).trans (onAlarms_columns hnative)))
    intro id' c' hc' agent hagent
    refine (insertRow_agents hid rfl hinsert id' c' hc' agent hagent).imp_right fun hnew ↦ ⟨fun hforeign ↦ ?_, hnew.named⟩
    exact isSome_of_same hqueues agent ▸ hnew.known hforeign

theorem entityReserve_agents {input : EntityReservationInput} {row : DbEntityRow}
    (h : t.entityReserve env input uuid = .ok (t', row)) :
    AgentsFrom t t' (NewAgent env t input.toEntityActivationInput) := by
  rw [entityReserve] at h
  split at h
  · exact absurd h refuse_ne_ok
  split at h
  · exact absurd h refuse_ne_ok
  obtain ⟨id, hid, h⟩ := bind_eq_ok.mp h
  split at h
  · obtain ⟨provenance, -, h⟩ := bind_eq_ok.mp h
    split at h
    · cases h
    obtain ⟨_, -, h⟩ := bind_eq_ok.mp h
    split at h
    · exact absurd h refuseId_ne_ok
    obtain ⟨t₁, hedge, h⟩ := map_eq_ok.mp h
    exact (Prod.mk.inj h).1 ▸ .of_eq _ (upsertLifecycleOwner_columns hedge)
  · obtain ⟨authority, -, h⟩ := bind_eq_ok.mp h
    obtain ⟨provenance, -, h⟩ := bind_eq_ok.mp h
    obtain ⟨t₁, hinsert, h⟩ := bind_eq_ok.mp h
    obtain ⟨t₂, hedge, h⟩ := bind_eq_ok.mp h
    exact (insertRow_agents hid rfl hinsert).trans
      (.of_eq _ ((readBack_columns h).trans (upsertLifecycleOwner_columns hedge)))

theorem advanceEntityExecution_agents {input : EntityActivationInput} {status : EntityStatus} (new : JsString → Prop)
    (h : t.advanceEntityExecution env input status = .ok (t', id)) : AgentsFrom t t' new := by
  obtain ⟨execution, -, h⟩ := bind_eq_ok.mp h
  split at h
  · exact absurd h refuse_ne_ok
  obtain ⟨id', hid, h⟩ := bind_eq_ok.mp h
  split at h
  · exact absurd h refuseId_ne_ok
  next existing hexisting =>
    split_ifs at h
    obtain ⟨_, -, h⟩ := bind_eq_ok.mp h
    obtain ⟨_, -, h⟩ := map_eq_ok.mp h
    obtain ⟨rfl, rfl⟩ := Prod.mk.inj h
    exact .rewrite _ hexisting rfl

theorem entityAdvanceExecution_agents {input : EntityActivationCommand} {row : DbEntityRow} (new : JsString → Prop)
    (h : t.entityAdvanceExecution env input = .ok (t', row)) : AgentsFrom t t' new := by
  obtain ⟨⟨t₁, id₁⟩, hadvance, h⟩ := bind_eq_ok.mp h
  obtain ⟨t₂, hqueues, h⟩ := bind_eq_ok.mp h
  obtain ⟨t₃, howner, h⟩ := bind_eq_ok.mp h
  exact (advanceEntityExecution_agents new hadvance).trans
    (.of_eq _ ((readBack_columns h).trans ((onAlarms_columns howner).trans (onAlarms_columns hqueues))))

theorem entityAdvanceExecutions_agents (new : JsString → Prop) (inputs : List EntityActivationCommand) :
    ∀ {t : EntityTables} {rows : List DbEntityRow}, entityAdvanceExecutions env inputs t = .ok (t', rows) →
      AgentsFrom t t' new := by
  induction inputs with
  | nil =>
    intro t rows h
    exact (Prod.mk.inj (Except.ok.inj h)).1 ▸ .of_eq _ rfl
  | cons input inputs ih =>
    intro t rows h
    obtain ⟨⟨t₁, row⟩, hfirst, h⟩ := bind_eq_ok.mp h
    obtain ⟨⟨t₂, rows⟩, hrest, h⟩ := map_eq_ok.mp h
    obtain ⟨rfl, -⟩ := Prod.mk.inj h
    exact (entityAdvanceExecution_agents new hfirst).trans (ih hrest)

theorem entityPrepareExecution_agents {input : EntityActivationInput} {row : DbEntityRow} (new : JsString → Prop)
    (h : t.entityPrepareExecution env input = .ok (t', row)) : AgentsFrom t t' new := by
  obtain ⟨id, hid, h⟩ := bind_eq_ok.mp h
  split at h
  · exact nomatch h
  split_ifs at h
  · obtain ⟨_, -, h⟩ := bind_eq_ok.mp h
    obtain ⟨authority, -, h⟩ := bind_eq_ok.mp h
    split_ifs at h
    · exact (Prod.mk.inj (Except.ok.inj h)).1 ▸ .of_eq _ rfl
    · exact nomatch h
  · obtain ⟨⟨t₁, id₁⟩, hadvance, h⟩ := bind_eq_ok.mp h
    exact (advanceEntityExecution_agents new hadvance).trans (.of_eq _ (readBack_columns h))

theorem entityRebindAgentChannel_agents {channelId : JsString} {row : DbEntityRow} (new : JsString → Prop)
    (h : t.entityRebindAgentChannel id channelId = .ok (t', row)) : AgentsFrom t t' new := by
  rw [entityRebindAgentChannel] at h
  split at h
  · exact absurd h refuseId_ne_ok
  split_ifs at h
  · exact absurd h refuse_ne_ok
  · refine AgentsFrom.trans ?_ (.of_eq _ (readBack_columns h))
    exact .setRow (by rintro _ ⟨⟩)

theorem entityRetire_agents {row : Option DbEntityRow} (new : JsString → Prop)
    (h : t.entityRetire env id = .ok (t', row)) : AgentsFrom t t' new := by
  rw [entityRetire] at h
  split at h
  · exact (Prod.mk.inj (Except.ok.inj h)).1 ▸ .of_eq _ rfl
  next existing hexisting =>
    split_ifs at h
    · obtain ⟨t₁, hclear, h⟩ := map_eq_ok.mp h
      obtain ⟨rfl, -⟩ := Prod.mk.inj h
      exact .of_eq _ ((onAlarms_columns hclear).trans rfl)
    · obtain ⟨t₁, hclear, h⟩ := map_eq_ok.mp h
      obtain ⟨rfl, -⟩ := Prod.mk.inj h
      refine AgentsFrom.trans ?_ (.of_eq _ ((onAlarms_columns hclear).trans rfl))
      exact .rewrite _ hexisting rfl

theorem entityCleanupComplete_agents {authoritySessionId : JsString} (new : JsString → Prop)
    (h : t.entityCleanupComplete id authoritySessionId = .ok t') : AgentsFrom t t' new := by
  rw [entityCleanupComplete] at h
  split_ifs at h
  · cases h
  split at h
  · exact Except.ok.inj h ▸ .of_eq _ rfl
  next row hrow =>
    split_ifs at h
    · exact Except.ok.inj h ▸ .rewrite _ hrow rfl
    · exact Except.ok.inj h ▸ .of_eq _ rfl

/-- **The agents that a call writes** are those of the binding of its input. -/
theorem call_agents {c : EntityCall} {rows : List DbEntityRow} (h : t.call env uuid c = .ok (t', rows)) :
    AgentsFrom t t' fun agent ↦ ∃ input ∈ WorkspaceTables.insertionOf c, NewAgent env t input agent := by
  cases c with
  | entityReserve input =>
    obtain ⟨⟨t₁, row⟩, hcall, heq⟩ := map_eq_ok.mp h
    obtain ⟨rfl, -⟩ := Prod.mk.inj heq
    intro id c' hc' agent hagent
    exact (entityReserve_agents hcall id c' hc' agent hagent).imp_right fun hnew ↦ ⟨_, rfl, hnew⟩
  | entityActivate input =>
    obtain ⟨⟨t₁, row⟩, hcall, heq⟩ := map_eq_ok.mp h
    obtain ⟨rfl, -⟩ := Prod.mk.inj heq
    intro id c' hc' agent hagent
    exact (entityActivate_agents hcall id c' hc' agent hagent).imp_right fun hnew ↦ ⟨_, rfl, hnew⟩
  | entityPrepareExecution input =>
    obtain ⟨r, h, heq⟩ := map_eq_ok.mp h
    exact (Prod.mk.inj heq).1 ▸ entityPrepareExecution_agents _ h
  | entityAdvanceExecution input =>
    obtain ⟨r, h, heq⟩ := map_eq_ok.mp h
    exact (Prod.mk.inj heq).1 ▸ entityAdvanceExecution_agents _ h
  | entityAdvanceExecutions inputs => exact entityAdvanceExecutions_agents _ inputs h
  | entityRebindAgentChannel id channelId =>
    obtain ⟨r, h, heq⟩ := map_eq_ok.mp h
    exact (Prod.mk.inj heq).1 ▸ entityRebindAgentChannel_agents _ h
  | entityRetire id =>
    obtain ⟨r, h, heq⟩ := map_eq_ok.mp h
    exact (Prod.mk.inj heq).1 ▸ entityRetire_agents _ h
  | entityCleanupComplete id authoritySessionId =>
    obtain ⟨r, h, heq⟩ := map_eq_ok.mp h
    exact (Prod.mk.inj heq).1 ▸ entityCleanupComplete_agents _ h
  | runtimeResourceBindingsReplace entityId bindings =>
    obtain ⟨t₁, hcall, heq⟩ := map_eq_ok.mp h
    obtain ⟨rfl, -⟩ := Prod.mk.inj heq
    rw [runtimeResourceBindingsReplace] at hcall
    split_ifs at hcall
    · exact Except.ok.inj hcall ▸ .of_eq _ rfl
    · cases hcall

/-- No call takes a row away. -/
theorem Steps.isSome (h : Steps uuid t t') (hid : (t.readEntityRow id).isSome) : (t'.readEntityRow id).isSome := by
  have hstep := h id
  obtain ⟨row, hrow⟩ := Option.isSome_iff_exists.mp hid
  rw [lifetime_of_read hrow] at hstep
  generalize ho : t'.lifetime id = o at hstep
  have hsome : o.isSome := by cases hstep <;> rfl
  rw [← ho, lifetime, Option.isSome_map] at hsome
  exact hsome

end EntityTables

/-! ## What a collection deletes -/

namespace WorkspaceTables

variable {env : WorkspaceSurroundings} {opts : GcOptions} {w w' : WorkspaceTables} {id : JsString}

theorem inHistory_iff : w.inHistory id = true ↔ ∃ r ∈ w.panels.slotHistory, r.entityId = id := by
  simp only [inHistory, List.any_eq_true, decide_eq_true_eq]

theorem referencedAfter_deleteEntity {gone gone' : List JsString} (hgone : ∀ x, x ∈ gone' ↔ x = id ∨ x ∈ gone)
    (x : JsString) : (w.deleteEntity id).referencedAfter gone x = w.referencedAfter gone' x := by
  have hrows : ((w.deleteEntity id).entities.columns.rows.any fun r ↦
      decide (r.1 ≠ x ∧ r.1 ∉ gone ∧ r.2.agentEntityId = some x)) =
      w.entities.columns.rows.any fun r ↦ decide (r.1 ≠ x ∧ r.1 ∉ gone' ∧ r.2.agentEntityId = some x) := by
    change (w.entities.columns.rows.filter _).any _ = _
    rw [List.any_filter]
    refine List.any_congr rfl fun r ↦ ?_
    rw [← Bool.decide_and, decide_eq_decide, hgone, not_or]
    tauto
  unfold referencedAfter
  rw [hrows]
  rfl

theorem refuses_deleteEntity (ids : List JsString) : ∀ {gone gone' : List JsString},
    (∀ x, x ∈ gone' ↔ x = id ∨ x ∈ gone) → (w.deleteEntity id).refuses gone ids = w.refuses gone' ids := by
  induction ids with
  | nil => exact fun _ ↦ rfl
  | cons x ids ih =>
    intro gone gone' hgone
    rw [refuses, refuses, referencedAfter_deleteEntity hgone]
    congr 1
    refine ih fun y ↦ ?_
    rw [List.mem_cons, List.mem_cons, hgone]
    exact or_left_comm

/-- **The deletions** are refused as a whole, or all made. -/
theorem deleteEntities_eq (foreignKeys : Bool) (ids : List JsString) : ∀ w : WorkspaceTables,
    deleteEntities foreignKeys ids w =
      if foreignKeys && w.refuses [] ids then .error .constraint else .ok (ids.foldl deleteEntity w) := by
  induction ids with
  | nil =>
    intro w
    rw [refuses, Bool.and_false, if_neg Bool.false_ne_true]
    rfl
  | cons id ids ih =>
    intro w
    have hrest : (w.deleteEntity id).refuses [] ids = w.refuses [id] ids :=
      refuses_deleteEntity ids fun x ↦ by rw [List.mem_singleton, or_iff_left List.not_mem_nil]
    rw [deleteEntities, ih, hrest, refuses, List.foldl_cons]
    cases foreignKeys with
    | false => rfl
    | true =>
      cases w.referencedAfter [] id with
      | false => rfl
      | true => rfl

theorem foldl_deleteEntity (ids : List JsString) : ∀ w : WorkspaceTables,
    (∀ x, (ids.foldl deleteEntity w).entities.columns.get x =
      if x ∈ ids then none else w.entities.columns.get x) ∧
    (∀ x, (ids.foldl deleteEntity w).entities.readEntityRow x =
      if x ∈ ids then none else w.entities.readEntityRow x) ∧
    (ids.foldl deleteEntity w).panels.slots = w.panels.slots ∧
    (ids.foldl deleteEntity w).panels.slotHistory = w.panels.slotHistory ∧
    (ids.foldl deleteEntity w).panels.panelCloseCleanup = w.panels.panelCloseCleanup := by
  induction ids with
  | nil =>
    intro w
    refine ⟨fun x ↦ ?_, fun x ↦ ?_, rfl, rfl, rfl⟩
    · exact (if_neg List.not_mem_nil).symm
    · exact (if_neg List.not_mem_nil).symm
  | cons id ids ih =>
    intro w
    have hrow (x : JsString) : (w.deleteEntity id).entities.readEntityRow x =
        if x = id then none else w.entities.readEntityRow x := by
      unfold EntityTables.readEntityRow deleteEntity
      rw [Table.get_delete, Table.get_delete]
      split_ifs
      · rfl
      · rfl
    obtain ⟨hcolumns, hrows, hpanels⟩ := ih (w.deleteEntity id)
    refine ⟨fun x ↦ ?_, fun x ↦ ?_, hpanels⟩
    · rw [List.foldl_cons, hcolumns, deleteEntity, Table.get_delete]
      simp only [List.mem_cons]
      split_ifs <;> simp_all
    · rw [List.foldl_cons, hrows, hrow]
      simp only [List.mem_cons]
      split_ifs <;> simp_all

/-- A selected row is retired and past the grace window. -/
theorem of_mem_candidates (h : id ∈ w.candidates env opts) : ∃ row, w.entities.readEntityRow id = some row ∧
    row.status = .retired ∧ ∃ retiredAt : ℕ, row.retiredAt = some retiredAt ∧ (retiredAt : ℤ) ≤ cutoff env opts := by
  obtain ⟨row, hrow, hpast⟩ := (Option.any_eq_true _ _).mp (List.mem_filter.mp h).2
  obtain ⟨hstatus, hretired⟩ := Bool.and_eq_true_iff.mp (Bool.and_eq_true_iff.mp hpast).1
  obtain ⟨retiredAt, hretiredAt, hle⟩ := (Option.any_eq_true _ _).mp hretired
  exact ⟨row, hrow, of_decide_eq_true hstatus, retiredAt, hretiredAt, of_decide_eq_true hle⟩

theorem unowned_iff {ids : List JsString} : w.unowned ids id = true ↔
    (∀ row, w.entities.readEntityRow id = some row → row.cleanupComplete = true) ∧
      (∀ r ∈ w.panels.slotHistory, r.entityId ≠ id) ∧
        ∀ x c, w.entities.columns.get x = some c → x ∉ ids → c.agentEntityId ≠ some id := by
  rw [unowned, Bool.and_eq_true, Bool.and_eq_true, and_assoc, Option.all_eq_true, Bool.not_eq_true',
    Bool.not_eq_true', ← Bool.not_eq_true, ← Bool.not_eq_true, inHistory_iff, List.any_eq_true]
  refine and_congr_right fun _ ↦ and_congr ?_ ?_
  · push Not
    rfl
  · simp only [decide_eq_true_eq, Prod.exists, Table.mem_rows]
    push Not
    rfl

/-! ## The references -/

/-- What the calls keep. -/
structure ReferencesKept (w : WorkspaceTables) : Prop where
  panels : PanelReferences w.Known w.panels
  agents : ∀ id c, w.entities.columns.get id = some c → ∀ agent ∈ c.agentEntityId, w.Known agent

theorem ReferencesKept.resolved (h : w.ReferencesKept) : w.Resolved := by
  refine ⟨h.panels.entries, fun slot hslot id hid ↦ ?_, h.agents, fun q hq id hid ↦ ?_⟩
  · obtain ⟨r, hr, -, rfl⟩ := h.panels.pointers slot (List.mem_of_mem_filter hslot) id hid
    exact h.panels.entries r hr
  · obtain ⟨r, hr, -, rfl⟩ := h.panels.queued q hq id hid
    exact h.panels.entries r hr

theorem perform_entityGc : w.perform env (.entityGc opts) =
    if env.foreignKeys && w.refuses [] (env.order (w.candidates env opts)) then w
    else (env.order (w.candidates env opts)).foldl deleteEntity w := by
  rw [perform, entityGc, deleteEntities_eq]
  split
  · rfl
  · rfl

/-- A collection that is refused, or of which nothing depends on what it selects, keeps the references. -/
theorem ReferencesKept.entityGc (h : w.ReferencesKept) (hcollectable : w.collectable env opts = true) :
    (w.perform env (.entityGc opts)).ReferencesKept := by
  rw [perform_entityGc]
  split
  · exact h
  next hdeleted =>
    have hall := (Bool.or_eq_true _ _).mp hcollectable |>.resolve_left hdeleted
    have hunowned := fun id hid ↦ unowned_iff.mp (List.all_eq_true.mp hall id hid)
    have hmem := fun x ↦ (env.order_perm (w.candidates env opts)).mem_iff (a := x)
    obtain ⟨hcolumns, hrows, hslots, hhistory, hqueue⟩ := foldl_deleteEntity (env.order (w.candidates env opts)) w
    constructor
    · refine PanelReferences.of_same (h.panels.mono fun r hr hknown ↦ ?_) hslots hhistory hqueue
      rw [Known, hrows, if_neg]
      · exact hknown
      · exact fun hin ↦ (hunowned _ ((hmem _).mp hin)).2.1 r hr rfl
    · intro id c hc agent hagent
      rw [hcolumns] at hc
      split_ifs at hc with hid
      rw [Known, hrows, if_neg]
      · exact h.agents id c hc agent hagent
      · exact fun hin ↦ (hunowned _ ((hmem _).mp hin)).2.2 id c hc (fun hid' ↦ hid ((hmem _).mpr hid')) hagent

/-- **A collection is safe** exactly if it is refused, or nothing depends on what it selects. -/
theorem ReferencesKept.collectsSafely_iff (h : w.ReferencesKept) :
    CollectsSafely env opts w ↔ w.collectable env opts = true := by
  have hmem := fun x ↦ (env.order_perm (w.candidates env opts)).mem_iff (a := x)
  obtain ⟨hcolumns, hrows, hslots, hhistory, hqueue⟩ := foldl_deleteEntity (env.order (w.candidates env opts)) w
  constructor
  · intro hsafe
    obtain ⟨hdeleted, hresolved⟩ := hsafe
    rw [perform_entityGc] at hdeleted hresolved
    refine (Bool.or_eq_true _ _).mpr (or_iff_not_imp_left.mpr fun hrefused ↦ ?_)
    rw [if_neg hrefused] at hdeleted hresolved
    refine List.all_eq_true.mpr fun id hid ↦ unowned_iff.mpr ?_
    have hgone : ((env.order (w.candidates env opts)).foldl deleteEntity w).entities.readEntityRow id = none :=
      (hrows id).trans (if_pos ((hmem id).mpr hid))
    obtain ⟨row, hrow, -⟩ := of_mem_candidates hid
    obtain ⟨-, -, hunreferenced, hcomplete⟩ := hdeleted id row hrow hgone
    refine ⟨fun row' hrow' ↦ ?_, hunreferenced, fun x c hc hx hagent ↦ ?_⟩
    · exact Option.some.inj (hrow.symm.trans hrow') ▸ hcomplete
    · have hknown := hresolved.agents x c ((hcolumns x).trans
        ((if_neg fun hin ↦ hx ((hmem x).mp hin)).trans hc)) id hagent
      rw [Known, hgone] at hknown
      exact nomatch hknown
  · intro hcollectable
    refine ⟨fun id row hrow hgone ↦ ?_, (h.entityGc hcollectable).resolved⟩
    rw [perform_entityGc] at hgone
    split at hgone
    · exact nomatch hrow.symm.trans hgone
    next hrefused =>
      have hall := (Bool.or_eq_true _ _).mp hcollectable |>.resolve_left hrefused
      rw [hrows] at hgone
      split_ifs at hgone with hin
      · have hid := (hmem id).mp hin
        obtain ⟨row', hrow', hstatus, hpast⟩ := of_mem_candidates hid
        obtain rfl := Option.some.inj (hrow.symm.trans hrow')
        obtain ⟨hcomplete, hunreferenced, -⟩ := unowned_iff.mp (List.all_eq_true.mp hall id hid)
        exact ⟨hstatus, hpast, hunreferenced, hcomplete row hrow⟩
      · exact nomatch hrow.symm.trans hgone

/-! ## The other calls -/

/-- Entities are written: none is lost, and the agents they name are there. -/
theorem ReferencesKept.entities (h : w.ReferencesKept) {t : EntityTables}
    (hknown : ∀ id, w.Known id → (t.readEntityRow id).isSome)
    (hagents : EntityTables.AgentsFrom w.entities t fun agent ↦ (t.readEntityRow agent).isSome) :
    ReferencesKept { w with entities := t } := by
  refine ⟨h.panels.mono fun r _ hr ↦ hknown _ hr, fun id c hc agent hagent ↦ ?_⟩
  rcases hagents id c hc agent hagent with ⟨c₀, hc₀, hagent⟩ | hnew
  · exact hknown _ (h.agents id c₀ hc₀ agent hagent)
  · exact hnew

theorem ReferencesKept.entity (h : w.ReferencesKept) {uuid : JsString} {call : EntityCall}
    (hnamed : namesKnown env w (.entity uuid call) = true) : (w.perform env (.entity uuid call)).ReferencesKept := by
  have hsteps := EntityTables.transact_steps env.toEntitySurroundings uuid w.entities call
  refine h.entities (fun id hid ↦ hsteps.isSome hid) ?_
  rw [EntityTables.transact] at hsteps ⊢
  cases hcall : w.entities.call env.toEntitySurroundings uuid call with
  | error e => exact .of_eq _ rfl
  | ok r =>
    obtain ⟨t, rows⟩ := r
    rw [hcall] at hsteps
    intro id c hc agent hagent
    refine (EntityTables.call_agents hcall id c hc agent hagent).imp_right ?_
    rintro ⟨input, hinput, hnew⟩
    apply hsteps.isSome
    rcases (Bool.or_eq_true _ _).mp hnamed with hforeign | hnamed
    · exact hnew.known hforeign
    · obtain ⟨binding, hbinding, rfl, hid⟩ := hnew.named
      rw [Option.mem_def.mp hinput, Option.all_some, hbinding, Option.all_some, Bool.or_eq_true] at hnamed
      refine hnamed.resolve_right fun hself ↦ hid ?_
      have hself := of_decide_eq_true hself
      cases hof : EntityTables.idOf input with
      | ok id =>
        rw [hof] at hself
        exact congrArg Except.ok (Option.some.inj hself)
      | error e =>
        rw [hof] at hself
        cases hself

theorem ReferencesKept.setStateArgs (h : w.ReferencesKept) (id : JsString) (stateArgs : Option JsString) :
    (w.setStateArgs id stateArgs).ReferencesKept := by
  have hcolumns (x : JsString) : (w.setStateArgs id stateArgs).entities.columns.get x =
      if x = id then (w.entities.columns.get x).map fun c ↦ { c with stateArgs } else w.entities.columns.get x :=
    Table.get_update _ _ _ _
  refine h.entities (t := (w.setStateArgs id stateArgs).entities) (fun x hx ↦ ?_) fun x c hc agent hagent ↦ .inl ?_
  · obtain ⟨row, hrow⟩ := Option.isSome_iff_exists.mp hx
    obtain ⟨e, he, hrow⟩ := Option.bind_eq_some_iff.mp hrow
    obtain ⟨c, hc, -⟩ := Option.map_eq_some_iff.mp hrow
    have he' : (w.setStateArgs id stateArgs).entities.alarms.entities.get x = some e := he
    rw [EntityTables.readEntityRow, he', Option.bind_some, hcolumns, hc]
    split_ifs
    · rfl
    · rfl
  · rw [hcolumns] at hc
    split_ifs at hc
    · obtain ⟨c₀, hc₀, rfl⟩ := Option.map_eq_some_iff.mp hc
      exact ⟨c₀, hc₀, hagent⟩
    · exact ⟨c, hc, hagent⟩

theorem ReferencesKept.committedOr (h : w.ReferencesKept) {r : Except WorkspaceError WorkspaceTables}
    (hr : ∀ w', r = .ok w' → w'.ReferencesKept) : (w.committedOr r).ReferencesKept := by
  match r with
  | .error e => exact h
  | .ok w' => exact hr w' rfl

/-- The row of a reservation is there afterwards. -/
theorem entityReserve_isSome {t t' : EntityTables} {input : EntityReservationInput} {uuid : JsString} {row : DbEntityRow}
    (hid : EntityTables.idOf input.toEntityActivationInput = .ok id)
    (h : t.entityReserve env.toEntitySurroundings input uuid = .ok (t', row)) : (t'.readEntityRow id).isSome := by
  have hsteps := EntityTables.entityReserve_steps h
  rw [EntityTables.entityReserve] at h
  split at h
  · exact absurd h EntityTables.refuse_ne_ok
  split at h
  · exact absurd h EntityTables.refuse_ne_ok
  obtain ⟨id', hid', h⟩ := bind_eq_ok.mp h
  obtain rfl := Except.ok.inj (hid.symm.trans hid')
  split at h
  · next existing hexisting => exact hsteps.isSome (Option.isSome_iff_exists.mpr ⟨existing, hexisting⟩)
  · obtain ⟨authority, -, h⟩ := bind_eq_ok.mp h
    obtain ⟨provenance, -, h⟩ := bind_eq_ok.mp h
    obtain ⟨t₁, hinsert, h⟩ := bind_eq_ok.mp h
    obtain ⟨t₂, hedge, h⟩ := bind_eq_ok.mp h
    rw [EntityTables.readBack] at h
    split at h
    · next row' hrow =>
      obtain ⟨rfl, -⟩ := Prod.mk.inj (Except.ok.inj h)
      exact Option.isSome_iff_exists.mpr ⟨row', hrow⟩
    · cases h

/-- Seeds lose no entity and name no agent, and the ones they reserve are there. -/
theorem reserveSeeds_ok {owner : Option JsString} (seeds : List SeedPanel) : ∀ {t t' : EntityTables}
    {entries : List InitPanelEntry}, reserveSeeds env.toEntitySurroundings owner seeds t = .ok (t', entries) →
      (∀ id, (t.readEntityRow id).isSome → (t'.readEntityRow id).isSome) ∧
      EntityTables.AgentsFrom t t' (fun _ ↦ False) ∧
      ∀ entry ∈ entries, ∀ entity, entry.reserved = .ok entity → (t'.readEntityRow entity.id).isSome := by
  induction seeds with
  | nil =>
    intro t t' entries h
    obtain ⟨rfl, rfl⟩ := Prod.mk.inj (Except.ok.inj h)
    exact ⟨fun _ hid ↦ hid, .of_eq _ rfl, nofun⟩
  | cons seed seeds ih =>
    intro t t' entries h
    rw [reserveSeeds] at h
    obtain ⟨id, hid, h⟩ := bind_eq_ok.mp h
    obtain ⟨⟨t₁, row⟩, hreserve, h⟩ := bind_eq_ok.mp h
    obtain ⟨⟨t₂, rest⟩, hrest, h⟩ := map_eq_ok.mp h
    obtain ⟨rfl, rfl⟩ := Prod.mk.inj h
    obtain ⟨hknown, hagents, hentries⟩ := ih hrest
    have hsteps := EntityTables.entityReserve_steps hreserve
    have hfirst : EntityTables.AgentsFrom t t₁ fun _ ↦ False := by
      intro x c hc agent hagent
      refine (EntityTables.entityReserve_agents hreserve x c hc agent hagent).imp_right fun hnew ↦ ?_
      obtain ⟨binding, hbinding, -⟩ := hnew.named
      exact nomatch hbinding
    refine ⟨fun x hx ↦ hknown x (hsteps.isSome hx), hfirst.trans hagents, fun entry hentry entity hentity ↦ ?_⟩
    rcases List.mem_cons.mp hentry with rfl | hentry
    · obtain rfl := Except.ok.inj hentity
      exact hknown id (entityReserve_isSome hid hreserve)
    · exact hentries entry hentry entity hentity

theorem ReferencesKept.initializePanels (h : w.ReferencesKept) {inputs : List SeedPanel} {owner : Option JsString}
    (hw : w.initializePanels env inputs owner = .ok w') : w'.ReferencesKept := by
  obtain ⟨⟨t, entries⟩, hreserved, hw⟩ := bind_eq_ok.mp hw
  obtain ⟨⟨panels, details⟩, hpanels, rfl⟩ := map_eq_ok.mp hw
  obtain ⟨hknown, hagents, hentries⟩ := reserveSeeds_ok _ (mapError_eq_ok hreserved)
  have hentities : ReferencesKept { w with entities := t } :=
    h.entities hknown fun id c hc agent hagent ↦ (hagents id c hc agent hagent).imp_right False.elim
  refine ⟨?_, hentities.agents⟩
  refine hentities.panels.initializePanels ?_ (fun _ ↦ hentries) (mapError_eq_ok hpanels)
  exact fun _ _ hid ↦ hid

/-- The panel tables change, the entities stay. -/
theorem ReferencesKept.withPanels (h : w.ReferencesKept) {panels : PanelTables}
    (hpanels : PanelReferences w.Known panels) : ReferencesKept { w with panels } := ⟨hpanels, h.agents⟩

theorem ReferencesKept.slotPatchCurrentStateArgs (h : w.ReferencesKept) {slotId : JsString} {patch : JsData}
    {expected : ExpectedPanelState} (hw : w.slotPatchCurrentStateArgs env slotId patch expected = .ok w') :
    w'.ReferencesKept := by
  obtain ⟨⟨panels, patched⟩, hpanels, rfl⟩ := map_eq_ok.mp hw
  have hkept := h.withPanels (h.panels.patch (mapError_eq_ok hpanels))
  simp only
  match patched.entityWrite with
  | none => exact hkept
  | some (id, stateArgs) => exact hkept.setStateArgs id stateArgs

theorem panelReferences_committed {known : JsString → Prop} {t : PanelTables} (h : PanelReferences known t)
    {r : Except PanelError PanelTables} (hr : ∀ t', r = .ok t' → PanelReferences known t') :
    PanelReferences known (committed t r) := by
  match r with
  | .error e => exact h
  | .ok t' => exact hr t' rfl

/-- **A step that meets the condition** keeps the references. -/
theorem ReferencesKept.perform (h : w.ReferencesKept) {e : WorkspaceSurroundings × WorkspaceCall}
    (hstep : keepsReferences w e = true) : (w.perform e.1 e.2).ReferencesKept := by
  obtain ⟨env, call⟩ := e
  obtain ⟨hnamed, hcollectable⟩ := Bool.and_eq_true_iff.mp hstep
  cases call with
  | entity uuid call => exact h.entity hnamed
  | entityPatchStateArgs id patch activeBuildKey schema =>
    refine h.committedOr fun w' hw ↦ ?_
    rw [WorkspaceTables.entityPatchStateArgs] at hw
    split at hw
    · cases hw
    split_ifs at hw
    obtain ⟨current, -, hw⟩ := bind_eq_ok.mp hw
    obtain ⟨next, -, rfl⟩ := map_eq_ok.mp hw
    exact h.setStateArgs id _
  | runtimeResourceBindingsRelease entityId => exact ⟨h.panels, h.agents⟩
  | entityGc opts => exact h.entityGc hcollectable
  | initializePanels inputs owner => exact h.committedOr fun w' hw ↦ h.initializePanels hw
  | slotCreate input =>
    apply h.withPanels
    refine panelReferences_committed h.panels fun t ht ↦ h.panels.slotCreate ?_ ?_ ht
    · exact fun _ _ hid ↦ hid
    refine ((Bool.or_eq_true _ _).mp hnamed).imp_right fun hentry entry hinput ↦ ?_
    rw [Option.mem_def.mp hinput, Option.all_some] at hentry
    exact hentry
  | slotMove slotId parent placement owner =>
    apply h.withPanels
    exact panelReferences_committed h.panels fun t ht ↦ h.panels.slotMove ht
  | slotClose slotId =>
    apply h.withPanels
    refine panelReferences_committed h.panels fun t ht ↦ ?_
    obtain ⟨⟨t₁, result⟩, hclose, rfl⟩ := map_eq_ok.mp ht
    exact h.panels.slotClose hclose
  | slotCloseOwnedRoots owner => exact h.withPanels (h.panels.slotCloseOwnedRoots owner)
  | slotCloseCleanupAck slotIds =>
    refine h.committedOr fun w' hw ↦ ?_
    rw [WorkspaceTables.slotCloseCleanupAck] at hw
    split_ifs at hw
    exact Except.ok.inj hw ▸ h.withPanels (h.panels.filterQueue _)
  | slotCommitPreparedNavigation input =>
    apply h.withPanels
    rw [historyPerform]
    cases ht : slotCommitPreparedNavigation (panelSurroundings env w) input w.panels with
    | error e => exact h.panels
    | ok r =>
      obtain ⟨t, result⟩ := r
      exact h.panels.navigate (fun id row hrow ↦ Option.isSome_iff_exists.mpr ⟨row, hrow⟩) ht
  | slotPatchCurrentStateArgs slotId patch expected =>
    exact h.committedOr fun w' hw ↦ h.slotPatchCurrentStateArgs hw

theorem referencesKept_empty : empty.ReferencesKept :=
  ⟨panelReferences_empty _, fun _ _ hc ↦ nomatch hc⟩

/-- **Garbage collection is safe** in every run of which every step meets the condition: in every state that is reached
each reference leads to an entity, and there a collection is safe exactly if it is refused or nothing depends on what it
selects. -/
theorem entityGc_safe (h : Reachable workspaceStep keepsReferences empty w) :
    w.Resolved ∧ ∀ env opts, CollectsSafely env opts w ↔ w.collectable env opts = true := by
  have hkept : w.ReferencesKept := by
    refine h.invariant referencesKept_empty fun s s' e hs hstep hs' ↦ ?_
    exact Option.some.inj hs' ▸ hs.perform hstep
  exact ⟨hkept.resolved, fun env opts ↦ hkept.collectsSafely_iff⟩

/-! ## A retired entity -/

/-- The surroundings of a storage with or without `REFERENCES` clauses. -/
def plainSurroundings (foreignKeys : Bool) (now : ℕ) : WorkspaceSurroundings where
  toEntitySurroundings := { EntityRun.quietSurroundings with foreignKeys, now }
  mergeValidateStateArgs _ patch _ := .ok patch
  order ids := ids
  order_perm _ := .refl _

def sessionActivation : EntityActivationCommand where
  executionAuthority := none
  kind := .session
  repoPath := lit "meta"
  effectiveVersion := lit "v1"
  activeBuildKey := none
  activeExecutionDigest := none
  activeAuthority := none
  contextId := lit "ctx"
  className := none
  key := lit "s"
  stateArgs := none
  agentBinding := none
  parentId := none
  ownerUserId := none
  nativeOwner := none
  durableWorkQueues := []

/-- A session is activated and retired. -/
def retiredSession : List (WorkspaceSurroundings × WorkspaceCall) :=
  [(plainSurroundings true 0, .entity (lit "u") (.entityActivate sessionActivation)),
    (plainSurroundings true 1, .entity [] (.entityRetire (lit "session:s")))]

/-- Its clean-up is completed. -/
def cleanedSession : List (WorkspaceSurroundings × WorkspaceCall) :=
  retiredSession ++ [(plainSurroundings true 2, .entity [] (.entityCleanupComplete (lit "session:s") (lit "u")))]

def sweepAll : GcOptions := ⟨some true, none, some 0⟩

/-- The session is collected after its clean-up. -/
theorem entityGc_safe_cleaned : ((run workspaceStep keepsReferences empty cleanedSession).map fun w ↦
    (w.candidates (plainSurroundings true 3) sweepAll, (w.collectable (plainSurroundings true 3) sweepAll))) =
      some ([lit "session:s"], true) ∧
    ∀ w, run workspaceStep keepsReferences empty cleanedSession = some w →
      CollectsSafely (plainSurroundings true 3) sweepAll w := by
  have hcollectable : ((run workspaceStep keepsReferences empty cleanedSession).map fun w ↦
      (w.candidates (plainSurroundings true 3) sweepAll, (w.collectable (plainSurroundings true 3) sweepAll))) =
        some ([lit "session:s"], true) := by
    decide +kernel
  refine ⟨hcollectable, fun w hw ↦ ((entityGc_safe (Reachable.init.run hw)).2 _ _).mpr ?_⟩
  rw [hw, Option.map_some] at hcollectable
  exact (Prod.mk.inj (Option.some.inj hcollectable)).2

/-- A panel with one entry in its history is retired and cleaned up. -/
def retiredPanel : List (WorkspaceSurroundings × WorkspaceCall) :=
  let env := plainSurroundings false 1
  [(env, .entity (lit "u") (.entityActivate { sessionActivation with kind := .panel, key := lit "k" })),
    (env, .slotCreate ⟨slotA, none, none, none, some ⟨lit "k", lit "panel:k", lit "meta", lit "ctx", none, none⟩⟩),
    (env, .entity [] (.entityRetire (lit "panel:k"))),
    (env, .entity [] (.entityCleanupComplete (lit "panel:k") (lit "u")))]

/-- A collection right after the retirement takes the row away that its clean-up is recorded in, and one of the entities
of a slot takes away what the history of the slot refers to, unless a `REFERENCES` clause refuses it. -/
theorem collects_unsafely :
    (¬∀ w env opts, Reachable workspaceStep anyStep empty w → env.foreignKeys = true → CollectsSafely env opts w) ∧
    ¬∀ w env opts, Reachable workspaceStep anyStep empty w → env.foreignKeys = false → CollectsSafely env opts w := by
  constructor
  · intro h
    have hrun : ((run workspaceStep anyStep empty retiredSession).map fun w ↦
        ((w.entities.readEntityRow (lit "session:s")).map (·.cleanupComplete),
          ((w.perform (plainSurroundings true 3) (.entityGc sweepAll)).entities.readEntityRow
            (lit "session:s")).isNone)) = some (some false, true) := by
      decide +kernel
    obtain ⟨w, hw, hread⟩ := Option.map_eq_some_iff.mp hrun
    obtain ⟨hbefore, hafter⟩ := Prod.mk.inj hread
    obtain ⟨row, hrow, hcleanup⟩ := Option.map_eq_some_iff.mp hbefore
    have hsafe := h w (plainSurroundings true 3) sweepAll (Reachable.init.run hw) rfl
    obtain ⟨-, -, -, hcomplete⟩ := hsafe.deleted _ row hrow (Option.isNone_iff_eq_none.mp hafter)
    exact nomatch hcleanup.symm.trans hcomplete
  · intro h
    let opts : GcOptions := ⟨none, some slotA, some 0⟩
    have hrun : ((run workspaceStep anyStep empty retiredPanel).map fun w ↦
        ((w.perform (plainSurroundings false 3) (.entityGc opts)).panels.slotHistory.map (·.entityId),
          ((w.perform (plainSurroundings false 3) (.entityGc opts)).entities.readEntityRow (lit "panel:k")).isNone)) =
        some ([lit "panel:k"], true) := by
      decide +kernel
    obtain ⟨w, hw, hread⟩ := Option.map_eq_some_iff.mp hrun
    obtain ⟨hhistory, hafter⟩ := Prod.mk.inj hread
    have hsafe := h w (plainSurroundings false 3) opts (Reachable.init.run hw) rfl
    have hmem : lit "panel:k" ∈ (w.perform (plainSurroundings false 3) (.entityGc opts)).panels.slotHistory.map
        (·.entityId) := hhistory ▸ List.mem_singleton_self _
    obtain ⟨r, hr, hentity⟩ := List.mem_map.mp hmem
    have hknown := hsafe.resolved.history r hr
    rw [Known, hentity, Option.isNone_iff_eq_none.mp hafter] at hknown
    exact nomatch hknown

end WorkspaceTables

end Vibestudio.WorkspaceState

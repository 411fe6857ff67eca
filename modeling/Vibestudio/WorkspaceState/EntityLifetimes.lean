import Mathlib
import Vibestudio.WorkspaceState.Entities

/-!
# One lifetime after another

What the entity calls do to the lifetime of an entity: its identity, its authority session, its
status and whether its cleanup is complete. Every call is, at every id, one of the steps of
`LifetimeStep`, so an entity is created once, retired, cleaned up and reactivated in that order, and
only a reactivation begins a session of its own.
-/

namespace Vibestudio.WorkspaceState

open Js Sqlite

/-! ## What a publication leaves alone -/

/-- A row without the column that the publications write. -/
def EntityRow.unowned (e : EntityRow) : EntityRow := { e with nativeOwner := none }

namespace AlarmTables

variable {t t' : AlarmTables}

/-- The entities are the same, their native owners apart. -/
def SameEntities (t t' : AlarmTables) : Prop :=
  ∀ id, (t'.entities.get id).map EntityRow.unowned = (t.entities.get id).map EntityRow.unowned

theorem SameEntities.of_eq (h : t'.entities = t.entities) : SameEntities t t' := fun id ↦ by rw [h]

theorem SameEntities.updateOwner (t : AlarmTables) (id : JsString) (owner : Option StorageIncarnation) :
    SameEntities t (t.updateEntity id fun e ↦ { e with nativeOwner := owner }) := by
  intro id'
  rw [updateEntity, Table.get_update]
  split_ifs with hid
  · rw [Option.map_map]
    rfl
  · rfl

theorem SameEntities.trans {t₁ : AlarmTables} (h : SameEntities t t₁) (h' : SameEntities t₁ t') :
    SameEntities t t' := fun id ↦ (h' id).trans (h id)

theorem publishDurableWorkOwner_entities {input : EntityActivateInput} {now : ℕ}
    (h : t.publishDurableWorkOwner input now = .ok t') : SameEntities t t' := by
  obtain ⟨owners, rfl, -⟩ := publishDurableWorkOwner_cases h
  exact .of_eq rfl

theorem setNativeOwner_entities {k : LifecycleKey} {nativeOwner : Option StorageIncarnation}
    {previous : Bool} {now : ℕ} (h : t.setNativeOwner k nativeOwner previous now = .ok t') :
    t'.entities = t.entities := by
  rw [setNativeOwner.eq_def] at h
  cases nativeOwner with
  | none =>
    simp only at h
    split_ifs at h
    · rw [lifecycleLeaseClear_eq h]
      rfl
    · exact congrArg entities (Except.ok.inj h).symm
  | some identity =>
    obtain ⟨t₁, hregister, hlease⟩ := bind_eq_ok.mp h
    obtain ⟨lease, rfl⟩ := lifecycleLeaseUpsert_eq hlease
    rcases (register_cases hregister).2 with rfl | ⟨rfl, -⟩
    · rfl
    · rfl

theorem publishNativeOwner_entities {input : EntityActivateInput} {id : JsString} {now : ℕ}
    (h : t.publishNativeOwner input id now = .ok t') : SameEntities t t' := by
  rw [publishNativeOwner] at h
  split_ifs at h
  · exact absurd h raise_ne_ok
  · exact Except.ok.inj h ▸ .of_eq rfl
  split at h
  · exact Except.ok.inj h ▸ .of_eq rfl
  · exact Except.ok.inj h ▸ .of_eq rfl
  · obtain ⟨t₁, hpublished, rfl⟩ := map_eq_ok.mp h
    exact .trans (.of_eq (setNativeOwner_entities hpublished)) (.updateOwner _ id _)

theorem clearLifecycle_entities {k : LifecycleKey} {id : JsString}
    (h : t.clearLifecycle k id = .ok t') : SameEntities t t' := by
  obtain ⟨t₁, hlease, h⟩ := bind_eq_ok.mp h
  obtain rfl := lifecycleLeaseClear_eq hlease
  obtain ⟨⟨t₂, status⟩, hclear, rfl⟩ := map_eq_ok.mp h
  have hcleared : t₂.entities = t.entities := by
    rcases alarmClear_cases hclear with ⟨_, _, hnone, -⟩ | ⟨-, -, -, rfl⟩
    · exact nomatch hnone
    · obtain ⟨alarms, requests, heq, -⟩ := clearRow_eq { t with leases := t.leases.delete k } k
      rw [heq]
  have hunregistered : SameEntities t (t₂.unregister k) := .of_eq hcleared
  exact hunregistered.trans (.updateOwner _ id none)

theorem clearEntityDoLifecycle_entities {id : JsString} {row : EntityRow}
    (h : t.clearEntityDoLifecycle id row = .ok t') : SameEntities t t' := by
  rcases clearEntityDoLifecycle_cases h with ⟨k, -, h⟩ | ⟨rfl, -⟩
  · exact clearLifecycle_entities h
  · exact .of_eq rfl

end AlarmTables

/-! ## Lifetimes -/

/-- The columns that are written once. -/
structure IdentityColumns where
  identity : EntityIdentity
  contextId : JsString
  ownerUserId : Option JsString

/-- What the protocol is about. -/
structure Lifetime where
  columns : IdentityColumns
  authoritySessionId : JsString
  status : EntityStatus
  cleanupComplete : Bool

def DbEntityRow.identityColumns (r : DbEntityRow) : IdentityColumns :=
  ⟨r.identity, r.contextId, r.ownerUserId⟩

def DbEntityRow.lifetime (r : DbEntityRow) : Lifetime :=
  ⟨r.identityColumns, r.authoritySessionId, r.status, r.cleanupComplete⟩

/-- What a call does at one id, when `uuid` is the random id it may draw. -/
inductive LifetimeStep (uuid : JsString) : Option Lifetime → Option Lifetime → Prop where
  | absent : LifetimeStep uuid none none
  | created {l : Lifetime} : l.status ≠ .retired → l.cleanupComplete = true →
      l.authoritySessionId = uuid → LifetimeStep uuid none (some l)
  /-- The lifetime goes on, and a reserved one may become active. -/
  | kept {l l' : Lifetime} : l'.columns = l.columns → l'.authoritySessionId = l.authoritySessionId →
      (l'.status = l.status ∨ l.status = .preparing ∧ l'.status = .active) →
      (l'.cleanupComplete = l.cleanupComplete ∨ l'.cleanupComplete = true ∧ l.status ≠ .retired) →
      LifetimeStep uuid (some l) (some l')
  | retired {l : Lifetime} : l.status ≠ .retired →
      LifetimeStep uuid (some l) (some { l with status := .retired, cleanupComplete := false })
  | completed {l : Lifetime} : l.status = .retired →
      LifetimeStep uuid (some l) (some { l with cleanupComplete := true })
  | reactivated {l : Lifetime} : l.status = .retired → l.cleanupComplete = true →
      LifetimeStep uuid (some l) (some { l with status := .active, authoritySessionId := uuid })

theorem LifetimeStep.refl (uuid : JsString) (o : Option Lifetime) : LifetimeStep uuid o o := by
  cases o with
  | none => exact .absent
  | some l => exact .kept rfl rfl (.inl rfl) (.inl rfl)

/-- A lifetime that goes on under the same status. -/
theorem LifetimeStep.same {uuid : JsString} {r r' : DbEntityRow} (hcolumns : r'.identityColumns = r.identityColumns)
    (hsession : r'.authoritySessionId = r.authoritySessionId) (hstatus : r'.status = r.status)
    (hcleanup : r'.cleanupComplete = r.cleanupComplete) :
    LifetimeStep uuid (some r.lifetime) (some r'.lifetime) :=
  .kept hcolumns hsession (.inl hstatus) (.inl hcleanup)

/-- A row that is not active becomes active, with a session of its own after a retirement. -/
theorem LifetimeStep.reactivatedRow {uuid : JsString} {r : DbEntityRow} (hactive : r.status ≠ .active)
    (hcomplete : ¬(r.status = .retired ∧ r.cleanupComplete = false)) :
    LifetimeStep uuid (some r.lifetime) (some (EntityTables.reactivatedRow uuid r).lifetime) := by
  cases hstatus : r.status with
  | active => exact absurd hstatus hactive
  | preparing =>
    refine .kept rfl ?_ (.inr ⟨hstatus, rfl⟩) (.inr ⟨rfl, ?_⟩)
    · exact if_neg (by rw [hstatus]; nofun)
    · change r.status ≠ .retired
      rw [hstatus]
      nofun
  | retired =>
    have hcleanup : r.cleanupComplete = true := by
      rw [hstatus] at hcomplete
      exact Bool.eq_true_of_not_eq_false fun h ↦ hcomplete ⟨rfl, h⟩
    have hnew : (EntityTables.reactivatedRow uuid r).lifetime =
        { r.lifetime with status := .active, authoritySessionId := uuid } := by
      rw [DbEntityRow.lifetime, EntityTables.reactivatedRow, hstatus, if_pos rfl, DbEntityRow.lifetime, hcleanup]
      rfl
    exact hnew ▸ .reactivated hstatus hcleanup

namespace EntityTables

variable {env : EntitySurroundings} {t t' : EntityTables} {uuid id : JsString}

theorem refuse_ne_ok {α : Type} {message : String} {a : α} : refuse message ≠ .ok a := nofun

theorem refuseId_ne_ok {α : Type} {message : String} {a : α} : refuseId message id ≠ .ok a := nofun

def lifetime (t : EntityTables) (id : JsString) : Option Lifetime :=
  (t.readEntityRow id).map DbEntityRow.lifetime

/-- The lifetimes are the same. -/
def SameLifetimes (t t' : EntityTables) : Prop := ∀ id, t'.lifetime id = t.lifetime id

/-- The lifetime of one entity is written, and no other one. -/
def Writes (t t' : EntityTables) (id : JsString) (l : Lifetime) : Prop :=
  ∀ id', t'.lifetime id' = if id' = id then some l else t.lifetime id'

/-- Every entity makes a step. -/
def Steps (uuid : JsString) (t t' : EntityTables) : Prop :=
  ∀ id, LifetimeStep uuid (t.lifetime id) (t'.lifetime id)

theorem SameLifetimes.steps (h : SameLifetimes t t') : Steps uuid t t' := by
  intro id
  rw [h id]
  exact .refl uuid _

theorem Writes.steps {l : Lifetime} (h : Writes t t' id l)
    (hstep : LifetimeStep uuid (t.lifetime id) (some l)) : Steps uuid t t' := by
  intro id'
  rw [h id']
  split_ifs with hid
  · exact hid ▸ hstep
  · exact .refl uuid _

theorem Writes.of_same_right {t₁ : EntityTables} {l : Lifetime} (h : Writes t t₁ id l)
    (h' : SameLifetimes t₁ t') : Writes t t' id l := fun id' ↦ (h' id').trans (h id')

theorem SameLifetimes.trans {t₁ : EntityTables} (h : SameLifetimes t t₁) (h' : SameLifetimes t₁ t') :
    SameLifetimes t t' := fun id ↦ (h' id).trans (h id)

theorem lifetime_of_read {row : DbEntityRow} (h : t.readEntityRow id = some row) :
    t.lifetime id = some row.lifetime := by
  rw [lifetime, h, Option.map_some]

theorem lifetime_of_absent (h : t.readEntityRow id = none) : t.lifetime id = none := by
  rw [lifetime, h, Option.map_none]

theorem readEntityRow_setRow (t : EntityTables) (id id' : JsString) (row : DbEntityRow) :
    (t.setRow id row).readEntityRow id' = if id' = id then some row else t.readEntityRow id' := by
  simp only [readEntityRow, setRow, AlarmTables.setEntity, Table.get_set]
  split_ifs with hid
  · rfl
  · rfl

theorem writes_setRow (t : EntityTables) (id : JsString) (row : DbEntityRow) :
    Writes t (t.setRow id row) id row.lifetime := by
  intro id'
  rw [lifetime, readEntityRow_setRow]
  split_ifs with hid
  · rfl
  · rfl

theorem writes_insertRow {row : DbEntityRow} (h : t.insertRow env id row = .ok t') :
    Writes t t' id row.lifetime := by
  rw [insertRow] at h
  split_ifs at h
  exact Except.ok.inj h ▸ writes_setRow t id row

/-- The native owner is not part of a lifetime. -/
theorem lifetime_congr {e e' : EntityRow} (h : e'.unowned = e.unowned) (c : EntityColumns) :
    (DbEntityRow.mk e' c).lifetime = (DbEntityRow.mk e c).lifetime := by
  rw [EntityRow.unowned, EntityRow.unowned, EntityRow.mk.injEq] at h
  obtain ⟨hkind, hrepo, hclass, hkey, hstatus, hcleanup, -⟩ := h
  rw [DbEntityRow.lifetime, DbEntityRow.lifetime, DbEntityRow.identityColumns,
    DbEntityRow.identityColumns, EntityRow.identity, EntityRow.identity, hkind, hrepo, hclass, hkey,
    hstatus, hcleanup]

theorem sameLifetimes_onAlarms {alarms : Thrown AlarmTables} (h : t.onAlarms alarms = .ok t')
    (hsame : ∀ a, alarms = .ok a → AlarmTables.SameEntities t.alarms a) : SameLifetimes t t' := by
  obtain ⟨a, ha, rfl⟩ := map_eq_ok.mp h
  have ha : alarms = .ok a := by
    cases alarms with
    | error e => exact nomatch ha
    | ok a' => exact congrArg _ (Except.ok.inj ha)
  intro id
  have hid := hsame a ha id
  rw [lifetime, lifetime, readEntityRow, readEntityRow]
  cases hold : t.alarms.entities.get id with
  | none =>
    rw [hold, Option.map_none, Option.map_eq_none_iff] at hid
    rw [hid]
  | some e =>
    rw [hold, Option.map_some, Option.map_eq_some_iff] at hid
    obtain ⟨e', he', heq⟩ := hid
    rw [he', Option.bind_some, Option.bind_some, Option.map_map, Option.map_map]
    exact Option.map_congr fun c _ ↦ lifetime_congr heq c

theorem publishDurableWorkOwner_same {input : EntityActivationCommand}
    (h : t.publishDurableWorkOwner env input = .ok t') : SameLifetimes t t' :=
  sameLifetimes_onAlarms h fun _ ha ↦ AlarmTables.publishDurableWorkOwner_entities ha

theorem publishNativeOwner_same {input : EntityActivationCommand}
    (h : t.publishNativeOwner env input id = .ok t') : SameLifetimes t t' :=
  sameLifetimes_onAlarms h fun _ ha ↦ AlarmTables.publishNativeOwner_entities ha

theorem clearEntityDoLifecycle_same {row : DbEntityRow}
    (h : t.clearEntityDoLifecycle id row = .ok t') : SameLifetimes t t' :=
  sameLifetimes_onAlarms h fun _ ha ↦ AlarmTables.clearEntityDoLifecycle_entities ha

theorem readBack_same {message : String} {row : DbEntityRow}
    (h : t.readBack id message = .ok (t', row)) : SameLifetimes t t' := by
  rw [readBack] at h
  split at h
  · exact (Prod.mk.inj (Except.ok.inj h)).1 ▸ fun _ ↦ rfl
  · exact nomatch h

theorem upsertContextEdge_same {contextId ownerContextId : JsString} {ownerEntityId : Option JsString}
    (h : t.upsertContextEdge env contextId ownerContextId ownerEntityId = .ok t') :
    SameLifetimes t t' := by
  rw [upsertContextEdge] at h
  split_ifs at h
  · cases h
  split at h
  · cases h
  · exact Except.ok.inj h ▸ fun _ ↦ rfl

theorem upsertLifecycleOwner_same {input : EntityReservationInput}
    (h : t.upsertLifecycleOwner env input = .ok t') : SameLifetimes t t' := by
  rw [upsertLifecycleOwner] at h
  split at h
  · exact Except.ok.inj h ▸ fun _ ↦ rfl
  · exact upsertContextEdge_same h

/-! ## The calls -/

theorem assertActivatable_ok {input : EntityActivationInput} {execution : ExecutionIdentity}
    (existing : DbEntityRow) (h : assertActivatable env input id execution existing = .ok ()) :
    ¬(existing.status = .retired ∧ existing.cleanupComplete = false) := by
  obtain ⟨_, -, h⟩ := bind_eq_ok.mp h
  split_ifs at h with hcleanup
  exact hcleanup

theorem activateExisting_steps {input : EntityActivationCommand} {execution : ExecutionIdentity}
    {existing row : DbEntityRow} (hexisting : t.readEntityRow id = some existing)
    (h : t.activateExisting env input id uuid execution existing = .ok (t', row)) :
    Steps uuid t t' := by
  obtain ⟨_, hchecks, h⟩ := bind_eq_ok.mp h
  simp only at h
  split_ifs at h with hactive
  · obtain ⟨t₁, howner, h⟩ := bind_eq_ok.mp h
    apply ((writes_setRow t id _).of_same_right
      ((publishNativeOwner_same howner).trans (readBack_same h))).steps
    rw [lifetime_of_read hexisting]
    exact .same rfl rfl rfl rfl
  · obtain ⟨t₁, howner, h⟩ := map_eq_ok.mp h
    obtain ⟨rfl, -⟩ := Prod.mk.inj h
    apply ((writes_setRow t id _).of_same_right (publishNativeOwner_same howner)).steps
    rw [lifetime_of_read hexisting]
    have hcomplete := assertActivatable_ok existing hchecks
    exact LifetimeStep.reactivatedRow hactive hcomplete

theorem activateNew_steps {input : EntityActivationCommand} {execution : ExecutionIdentity}
    {row : DbEntityRow} (habsent : t.readEntityRow id = none)
    (h : t.activateNew env input id uuid execution = .ok (t', row)) : Steps uuid t t' := by
  obtain ⟨authority, -, h⟩ := bind_eq_ok.mp h
  obtain ⟨t₁, hinsert, h⟩ := bind_eq_ok.mp h
  obtain ⟨t₂, howner, h⟩ := bind_eq_ok.mp h
  apply ((writes_insertRow hinsert).of_same_right
    ((publishNativeOwner_same howner).trans (readBack_same h))).steps
  rw [lifetime_of_absent habsent]
  exact .created nofun rfl rfl

theorem entityActivate_steps {input : EntityActivationCommand} {row : DbEntityRow}
    (h : t.entityActivate env input uuid = .ok (t', row)) : Steps uuid t t' := by
  obtain ⟨execution, -, h⟩ := bind_eq_ok.mp h
  split_ifs at h
  · exact nomatch h
  · exact nomatch h
  obtain ⟨t₁, howner, h⟩ := bind_eq_ok.mp h
  obtain ⟨id, -, h⟩ := bind_eq_ok.mp h
  -- the work queues are published first, to a table that no entity reads
  have hsteps : Steps uuid t₁ t' := by
    split at h
    · rename_i existing hexisting
      exact activateExisting_steps hexisting h
    · rename_i habsent
      exact activateNew_steps habsent h
  intro id'
  rw [← publishDurableWorkOwner_same howner id']
  exact hsteps id'

theorem entityReserve_steps {input : EntityReservationInput} {row : DbEntityRow}
    (h : t.entityReserve env input uuid = .ok (t', row)) : Steps uuid t t' := by
  rw [entityReserve] at h
  split at h
  · exact absurd h refuse_ne_ok
  split at h
  · exact absurd h refuse_ne_ok
  obtain ⟨id, -, h⟩ := bind_eq_ok.mp h
  split at h
  · obtain ⟨provenance, -, h⟩ := bind_eq_ok.mp h
    split at h
    · exact nomatch h
    obtain ⟨_, -, h⟩ := bind_eq_ok.mp h
    split at h
    · exact absurd h refuseId_ne_ok
    obtain ⟨t₁, hedge, h⟩ := map_eq_ok.mp h
    exact (Prod.mk.inj h).1 ▸ (upsertLifecycleOwner_same hedge).steps
  · rename_i habsent
    obtain ⟨authority, -, h⟩ := bind_eq_ok.mp h
    obtain ⟨provenance, -, h⟩ := bind_eq_ok.mp h
    obtain ⟨t₁, hinsert, h⟩ := bind_eq_ok.mp h
    obtain ⟨t₂, hedge, h⟩ := bind_eq_ok.mp h
    apply ((writes_insertRow hinsert).of_same_right
      ((upsertLifecycleOwner_same hedge).trans (readBack_same h))).steps
    rw [lifetime_of_absent habsent]
    exact .created nofun rfl rfl

/-- **An advance** writes the row of a preparing or active entity, and its status only. -/
theorem advanceEntityExecution_cases {input : EntityActivationInput} {status : EntityStatus}
    (h : t.advanceEntityExecution env input status = .ok (t', id)) :
    idOf input = .ok id ∧ ∃ existing, t.readEntityRow id = some existing ∧
      existing.status ≠ .retired ∧ Writes t t' id { existing.lifetime with status } := by
  obtain ⟨execution, -, h⟩ := bind_eq_ok.mp h
  split at h
  · exact absurd h refuse_ne_ok
  obtain ⟨id', hid, h⟩ := bind_eq_ok.mp h
  split at h
  · exact absurd h refuseId_ne_ok
  rename_i existing hexisting
  split_ifs at h with hretired
  obtain ⟨_, -, h⟩ := bind_eq_ok.mp h
  obtain ⟨_, -, h⟩ := map_eq_ok.mp h
  obtain ⟨rfl, rfl⟩ := Prod.mk.inj h
  refine ⟨hid, existing, hexisting, fun h ↦ hretired ?_, writes_setRow t id' _⟩
  rw [h]
  exact ⟨nofun, nofun⟩

/-- A lifetime goes on, whichever call it is that advances it. -/
inductive GoesOn : Option Lifetime → Option Lifetime → Prop where
  | same (o : Option Lifetime) : GoesOn o o
  | advanced (l : Lifetime) : l.status ≠ .retired → GoesOn (some l) (some { l with status := .active })

theorem GoesOn.trans {o o' o'' : Option Lifetime} (h : GoesOn o o') (h' : GoesOn o' o'') :
    GoesOn o o'' := by
  cases h with
  | same => exact h'
  | advanced l hl =>
    cases h' with
    | same => exact .advanced l hl
    | advanced => exact .advanced l hl

theorem GoesOn.step {o o' : Option Lifetime} (h : GoesOn o o') : LifetimeStep uuid o o' := by
  cases h with
  | same => exact .refl uuid _
  | advanced l hl =>
    cases hstatus : l.status with
    | retired => exact absurd hstatus hl
    | preparing => exact .kept rfl rfl (.inr ⟨hstatus, rfl⟩) (.inl rfl)
    | active => exact .kept rfl rfl (.inl hstatus.symm) (.inl rfl)

theorem entityAdvanceExecution_goesOn {input : EntityActivationCommand} {row : DbEntityRow}
    (h : t.entityAdvanceExecution env input = .ok (t', row)) (id : JsString) :
    GoesOn (t.lifetime id) (t'.lifetime id) := by
  obtain ⟨⟨t₁, id₁⟩, hadvance, h⟩ := bind_eq_ok.mp h
  obtain ⟨t₂, hqueues, h⟩ := bind_eq_ok.mp h
  obtain ⟨t₃, howner, h⟩ := bind_eq_ok.mp h
  obtain ⟨-, existing, hexisting, hretired, hwrites⟩ := advanceEntityExecution_cases hadvance
  have hpublished := ((publishDurableWorkOwner_same hqueues).trans
    (publishNativeOwner_same howner)).trans (readBack_same h)
  rw [(hwrites.of_same_right hpublished) id]
  split_ifs with hid
  · rw [hid, lifetime_of_read hexisting]
    exact .advanced _ hretired
  · exact .same _

theorem entityAdvanceExecutions_goesOn (inputs : List EntityActivationCommand) :
    ∀ {t : EntityTables} {rows : List DbEntityRow},
      entityAdvanceExecutions env inputs t = .ok (t', rows) →
      ∀ id, GoesOn (t.lifetime id) (t'.lifetime id) := by
  induction inputs with
  | nil =>
    intro t rows h id
    exact (Prod.mk.inj (Except.ok.inj h)).1 ▸ .same _
  | cons input inputs ih =>
    intro t rows h id
    obtain ⟨⟨t₁, row⟩, hfirst, h⟩ := bind_eq_ok.mp h
    obtain ⟨⟨t₂, rows⟩, hrest, h⟩ := map_eq_ok.mp h
    obtain ⟨rfl, -⟩ := Prod.mk.inj h
    exact (entityAdvanceExecution_goesOn hfirst id).trans (ih hrest id)

theorem entityPrepareExecution_steps {input : EntityActivationInput} {row : DbEntityRow}
    (h : t.entityPrepareExecution env input = .ok (t', row)) : Steps uuid t t' := by
  obtain ⟨id, hid, h⟩ := bind_eq_ok.mp h
  split at h
  · exact nomatch h
  rename_i existing hexisting
  obtain ⟨hexisting, hstatus⟩ := Option.filter_eq_some_iff.mp hexisting
  split_ifs at h
  · obtain ⟨_, -, h⟩ := bind_eq_ok.mp h
    obtain ⟨authority, -, h⟩ := bind_eq_ok.mp h
    split_ifs at h
    · exact (Prod.mk.inj (Except.ok.inj h)).1 ▸ fun id' ↦ .refl uuid _
    · exact nomatch h
  · obtain ⟨⟨t₁, id₁⟩, hadvance, h⟩ := bind_eq_ok.mp h
    obtain ⟨hid₁, existing', hexisting', -, hwrites⟩ := advanceEntityExecution_cases hadvance
    obtain rfl := Except.ok.inj (hid.symm.trans hid₁)
    obtain rfl := Option.some.inj (hexisting'.symm.trans hexisting)
    apply (hwrites.of_same_right (readBack_same h)).steps
    rw [lifetime_of_read hexisting]
    exact .kept rfl rfl (.inl (of_decide_eq_true hstatus).symm) (.inl rfl)

theorem entityRebindAgentChannel_steps {channelId : JsString} {row : DbEntityRow}
    (h : t.entityRebindAgentChannel id channelId = .ok (t', row)) : Steps uuid t t' := by
  rw [entityRebindAgentChannel] at h
  split at h
  · exact absurd h refuseId_ne_ok
  rename_i existing hexisting
  split_ifs at h
  · exact absurd h refuse_ne_ok
  · apply ((writes_setRow t id _).of_same_right (readBack_same h)).steps
    rw [lifetime_of_read (Option.filter_eq_some_iff.mp hexisting).1]
    exact .same rfl rfl rfl rfl

theorem deleteBindings_same (t : EntityTables) (id : JsString) :
    SameLifetimes t (t.deleteBindings id) := fun _ ↦ rfl

theorem entityRetire_steps {row : Option DbEntityRow}
    (h : t.entityRetire env id = .ok (t', row)) : Steps uuid t t' := by
  rw [entityRetire] at h
  split at h
  · exact (Prod.mk.inj (Except.ok.inj h)).1 ▸ fun id' ↦ .refl uuid _
  rename_i existing hexisting
  split_ifs at h with hretired
  · obtain ⟨t₁, hclear, h⟩ := map_eq_ok.mp h
    exact (Prod.mk.inj h).1 ▸
      ((deleteBindings_same t id).trans (clearEntityDoLifecycle_same hclear)).steps
  · obtain ⟨t₁, hclear, h⟩ := map_eq_ok.mp h
    obtain ⟨rfl, -⟩ := Prod.mk.inj h
    apply ((writes_setRow t id _).of_same_right
      ((deleteBindings_same _ id).trans (clearEntityDoLifecycle_same hclear))).steps
    rw [lifetime_of_read hexisting]
    exact .retired hretired

theorem entityCleanupComplete_steps {authoritySessionId : JsString}
    (h : t.entityCleanupComplete id authoritySessionId = .ok t') : Steps uuid t t' := by
  rw [entityCleanupComplete] at h
  split_ifs at h
  · exact nomatch h
  split at h
  · exact Except.ok.inj h ▸ fun id' ↦ .refl uuid _
  rename_i row hrow
  split_ifs at h with hretired
  · obtain rfl := Except.ok.inj h
    apply (writes_setRow t id _).steps
    rw [lifetime_of_read hrow]
    exact .completed hretired.1
  · exact Except.ok.inj h ▸ fun id' ↦ .refl uuid _

theorem runtimeResourceBindingsReplace_same {bindings : List RuntimeResourceBinding}
    (h : t.runtimeResourceBindingsReplace env id bindings = .ok t') : SameLifetimes t t' := by
  rw [runtimeResourceBindingsReplace] at h
  split_ifs at h
  · exact Except.ok.inj h ▸ fun _ ↦ rfl
  · exact nomatch h

/-- **Every call** is a step of every lifetime. -/
theorem call_steps {c : EntityCall} {rows : List DbEntityRow}
    (h : t.call env uuid c = .ok (t', rows)) : Steps uuid t t' := by
  cases c with
  | entityReserve input =>
    obtain ⟨r, h, heq⟩ := map_eq_ok.mp h
    exact (Prod.mk.inj heq).1 ▸ entityReserve_steps h
  | entityPrepareExecution input =>
    obtain ⟨r, h, heq⟩ := map_eq_ok.mp h
    exact (Prod.mk.inj heq).1 ▸ entityPrepareExecution_steps h
  | entityActivate input =>
    obtain ⟨r, h, heq⟩ := map_eq_ok.mp h
    exact (Prod.mk.inj heq).1 ▸ entityActivate_steps h
  | entityAdvanceExecution input =>
    obtain ⟨r, h, heq⟩ := map_eq_ok.mp h
    exact (Prod.mk.inj heq).1 ▸ fun id ↦ (entityAdvanceExecution_goesOn h id).step
  | entityAdvanceExecutions inputs =>
    exact fun id ↦ (entityAdvanceExecutions_goesOn inputs h id).step
  | entityRebindAgentChannel id channelId =>
    obtain ⟨r, h, heq⟩ := map_eq_ok.mp h
    exact (Prod.mk.inj heq).1 ▸ entityRebindAgentChannel_steps h
  | entityRetire id =>
    obtain ⟨r, h, heq⟩ := map_eq_ok.mp h
    exact (Prod.mk.inj heq).1 ▸ entityRetire_steps h
  | entityCleanupComplete id authoritySessionId =>
    obtain ⟨r, h, heq⟩ := map_eq_ok.mp h
    exact (Prod.mk.inj heq).1 ▸ entityCleanupComplete_steps h
  | runtimeResourceBindingsReplace entityId bindings =>
    obtain ⟨r, h, heq⟩ := map_eq_ok.mp h
    exact (Prod.mk.inj heq).1 ▸ (runtimeResourceBindingsReplace_same h).steps

theorem transact_steps (env : EntitySurroundings) (uuid : JsString) (t : EntityTables)
    (c : EntityCall) : Steps uuid t (t.transact env uuid c).1 := by
  rw [transact]
  cases h : t.call env uuid c with
  | error e => exact fun id ↦ .refl uuid _
  | ok r => exact call_steps h

end EntityTables

/-! ## Runs -/

/-- The tables, and how many random ids have been drawn. -/
structure EntityRun where
  tables : EntityTables
  draws : ℕ

namespace EntityRun

def init : EntityRun := ⟨.empty, 0⟩

/-- A call with the next random id, whether it needs one or not. -/
def step (uuid : ℕ → JsString) (s : EntityRun) (e : EntitySurroundings × EntityCall) : EntityRun :=
  ⟨(s.tables.transact e.1 (uuid s.draws) e.2).1, s.draws + 1⟩

/-- One state comes after another. -/
abbrev Later (uuid : ℕ → JsString) : EntityRun → EntityRun → Prop :=
  Relation.ReflTransGen fun s s' ↦ ∃ e, s.step uuid e = s'

variable {uuid : ℕ → JsString} {s m m' s' : EntityRun} {id : JsString}

theorem step_lifetime (uuid : ℕ → JsString) (s : EntityRun) (e : EntitySurroundings × EntityCall)
    (id : JsString) : LifetimeStep (uuid s.draws) (s.tables.lifetime id)
      ((s.step uuid e).tables.lifetime id) :=
  EntityTables.transact_steps e.1 (uuid s.draws) s.tables e.2 id

theorem Later.draws_le (h : Later uuid s s') : s.draws ≤ s'.draws := by
  induction h with
  | refl => exact le_rfl
  | tail _ hstep ih =>
    obtain ⟨e, rfl⟩ := hstep
    exact ih.trans (Nat.le_succ _)

/-- Every session was drawn, and only a retired entity waits for its cleanup. -/
structure Drawn (uuid : ℕ → JsString) (s : EntityRun) : Prop where
  session : ∀ id l, s.tables.lifetime id = some l → ∃ n < s.draws, l.authoritySessionId = uuid n
  cleanup : ∀ id l, s.tables.lifetime id = some l → l.cleanupComplete = false → l.status = .retired

theorem Drawn.step (h : Drawn uuid s) (e : EntitySurroundings × EntityCall) :
    Drawn uuid (s.step uuid e) := by
  have hnow : ∃ n < (s.step uuid e).draws, uuid s.draws = uuid n := ⟨s.draws, Nat.lt_succ_self _, rfl⟩
  have hbefore : ∀ id l, s.tables.lifetime id = some l →
      ∃ n < (s.step uuid e).draws, l.authoritySessionId = uuid n := fun id l hl ↦
    (h.session id l hl).imp fun n hn ↦ ⟨hn.1.trans (Nat.lt_succ_self _), hn.2⟩
  have hsession : ∀ id o o', s.tables.lifetime id = o → LifetimeStep (uuid s.draws) o o' →
      ∀ l', o' = some l' → (∃ n < (s.step uuid e).draws, l'.authoritySessionId = uuid n) ∧
        (l'.cleanupComplete = false → l'.status = .retired) := by
    intro id o o' ho hstep l' hl'
    cases hstep with
    | absent => exact nomatch hl'
    | created hstatus hcleanup huuid =>
      obtain rfl := Option.some.inj hl'
      exact ⟨huuid ▸ hnow, fun h ↦ nomatch h.symm.trans hcleanup⟩
    | @kept l _ hcolumns hsession hstatus hcleanup =>
      obtain rfl := Option.some.inj hl'
      refine ⟨hsession ▸ hbefore id l ho, fun hfalse ↦ ?_⟩
      rcases hcleanup with hcleanup | ⟨hcleanup, -⟩
      · have hretired := h.cleanup id l ho (hcleanup ▸ hfalse)
        rcases hstatus with hstatus | ⟨hstatus, -⟩
        · exact hstatus.trans hretired
        · exact nomatch hstatus.symm.trans hretired
      · exact nomatch hfalse.symm.trans hcleanup
    | @retired l hstatus =>
      obtain rfl := Option.some.inj hl'
      exact ⟨hbefore id l ho, fun _ ↦ rfl⟩
    | @completed l hstatus =>
      obtain rfl := Option.some.inj hl'
      exact ⟨hbefore id l ho, fun _ ↦ hstatus⟩
    | @reactivated l hstatus hcleanup =>
      obtain rfl := Option.some.inj hl'
      exact ⟨hnow, fun h ↦ nomatch h.symm.trans hcleanup⟩
  exact ⟨fun id l' hl' ↦ (hsession id _ _ rfl (step_lifetime uuid s e id) l' hl').1,
    fun id l' hl' ↦ (hsession id _ _ rfl (step_lifetime uuid s e id) l' hl').2⟩

theorem Drawn.later (h : Drawn uuid s) (hs : Later uuid s s') : Drawn uuid s' := by
  induction hs with
  | refl => exact h
  | tail _ hstep ih =>
    obtain ⟨e, rfl⟩ := hstep
    exact ih.step e

theorem drawn_init (uuid : ℕ → JsString) : Drawn uuid init := ⟨nofun, nofun⟩

/-- What is true of an entity from one state on: it stays what it is, and it is in the lifetime it
was in, retired if it was, or in one that began later. -/
structure Follows (uuid : ℕ → JsString) (draws : ℕ) (l l' : Lifetime) : Prop where
  columns : l'.columns = l.columns
  session : l'.authoritySessionId = l.authoritySessionId ∧
      (l.status = .retired → l'.status = .retired) ∨
    ∃ n ≥ draws, l'.authoritySessionId = uuid n

theorem Later.follows (h : Later uuid s s') {l : Lifetime} (hl : s.tables.lifetime id = some l) :
    ∃ l', s'.tables.lifetime id = some l' ∧ Follows uuid s.draws l l' := by
  induction h with
  | refl => exact ⟨l, hl, rfl, .inl ⟨rfl, fun h ↦ h⟩⟩
  | @tail s₁ s₂ hlater hstep ih =>
    obtain ⟨l₁, hl₁, hcolumns, hsession⟩ := ih
    obtain ⟨e, rfl⟩ := hstep
    have hlife := step_lifetime uuid s₁ e id
    rw [hl₁] at hlife
    generalize (s₁.step uuid e).tables.lifetime id = o at hlife
    cases hlife with
    | @kept _ l₂ hcols hsame hstatus hcleanup =>
      refine ⟨l₂, rfl, hcols.trans hcolumns, ?_⟩
      rcases hsession with ⟨hkept, hretired⟩ | ⟨n, hn, hdrawn⟩
      · refine .inl ⟨hsame.trans hkept, fun hl ↦ ?_⟩
        rcases hstatus with hstatus | ⟨hstatus, -⟩
        · exact hstatus.trans (hretired hl)
        · exact nomatch hstatus.symm.trans (hretired hl)
      · exact .inr ⟨n, hn, hsame.trans hdrawn⟩
    | retired hstatus =>
      refine ⟨_, rfl, hcolumns, ?_⟩
      rcases hsession with ⟨hkept, -⟩ | hdrawn
      · exact .inl ⟨hkept, fun _ ↦ rfl⟩
      · exact .inr hdrawn
    | completed hstatus => exact ⟨_, rfl, hcolumns, hsession⟩
    | reactivated => exact ⟨_, rfl, hcolumns, .inr ⟨s₁.draws, Later.draws_le hlater, rfl⟩⟩

/-- A lifetime that comes after a retirement has a session drawn after it. -/
theorem session_ne_of_retired (fresh : Function.Injective uuid) (h : Drawn uuid s)
    (hsm : Later uuid s m) (hmm : Later uuid m m') (hms : Later uuid m' s') {l lm lm' l' : Lifetime}
    (hl : s.tables.lifetime id = some l) (hlm : m.tables.lifetime id = some lm)
    (hlm' : m'.tables.lifetime id = some lm') (hl' : s'.tables.lifetime id = some l')
    (hretired : lm.status = .retired) (hagain : lm'.status ≠ .retired) :
    l'.authoritySessionId ≠ l.authoritySessionId := by
  obtain ⟨k, hk, hlk⟩ := h.session id l hl
  -- the session at the reactivation was drawn after the retirement
  have hreactivated : ∃ n ≥ m.draws, lm'.authoritySessionId = uuid n := by
    obtain ⟨_, hsome, hfollows⟩ := Later.follows hmm hlm
    obtain rfl := Option.some.inj (hlm'.symm.trans hsome)
    rcases hfollows.session with ⟨-, hstays⟩ | hdrawn
    · exact absurd (hstays hretired) hagain
    · exact hdrawn
  have hlater : ∃ n ≥ m.draws, l'.authoritySessionId = uuid n := by
    obtain ⟨_, hsome, hfollows⟩ := Later.follows hms hlm'
    obtain rfl := Option.some.inj (hl'.symm.trans hsome)
    rcases hfollows.session with ⟨hkept, -⟩ | ⟨n, hn, hdrawn⟩
    · exact hreactivated.imp fun n hn ↦ ⟨hn.1, hkept.trans hn.2⟩
    · exact ⟨n, (Later.draws_le hmm).trans hn, hdrawn⟩
  obtain ⟨n, hn, hl'n⟩ := hlater
  have hle := Later.draws_le hsm
  rw [hlk, hl'n]
  intro heq
  have := fresh heq
  omega

/-- Only the session of the present lifetime completes a cleanup. -/
theorem step_cleanupComplete_of_ne {r : DbEntityRow} (hr : s.tables.readEntityRow id = some r)
    {authoritySessionId : JsString} (hne : r.authoritySessionId ≠ authoritySessionId)
    (env : EntitySurroundings) :
    (s.step uuid (env, .entityCleanupComplete id authoritySessionId)).tables = s.tables := by
  simp only [step, EntityTables.transact, EntityTables.call, EntityTables.entityCleanupComplete, hr]
  split_ifs with hempty hsame
  · rfl
  · exact absurd hsame.2 hne
  · rfl

theorem read_of_lifetime {t : EntityTables} {l : Lifetime} (h : t.lifetime id = some l) :
    ∃ r, t.readEntityRow id = some r ∧ r.lifetime = l := Option.map_eq_some_iff.mp h

/-- The session changes at a reactivation and nowhere else. -/
theorem step_session (fresh : Function.Injective uuid) (h : Drawn uuid s)
    (e : EntitySurroundings × EntityCall) {l : Lifetime} (hl : s.tables.lifetime id = some l) :
    ∃ l', (s.step uuid e).tables.lifetime id = some l' ∧ l'.columns = l.columns ∧
      (l'.authoritySessionId ≠ l.authoritySessionId ↔
        l.status = .retired ∧ l.cleanupComplete = true ∧ l'.status = .active) := by
  obtain ⟨k, hk, hlk⟩ := h.session id l hl
  have hlife := step_lifetime uuid s e id
  rw [hl] at hlife
  generalize (s.step uuid e).tables.lifetime id = o at hlife
  cases hlife with
  | @kept _ l' hcolumns hsame hstatus =>
    refine ⟨l', rfl, hcolumns, fun hne ↦ absurd hsame hne, fun ⟨hretired, _, hactive⟩ ↦ ?_⟩
    rcases hstatus with hstatus | ⟨hstatus, -⟩
    · exact nomatch (hactive.symm.trans hstatus).trans hretired
    · exact nomatch hstatus.symm.trans hretired
  | retired hstatus => exact ⟨_, rfl, rfl, fun hne ↦ absurd rfl hne, fun ⟨hretired, _⟩ ↦ absurd hretired hstatus⟩
  | completed hstatus =>
    exact ⟨_, rfl, rfl, fun hne ↦ absurd rfl hne, fun ⟨_, _, hactive⟩ ↦ nomatch hactive.symm.trans hstatus⟩
  | reactivated hstatus hcleanup =>
    refine ⟨_, rfl, rfl, fun _ ↦ ⟨hstatus, hcleanup, rfl⟩, fun _ heq ↦ ?_⟩
    have := fresh ((heq : uuid s.draws = _).trans hlk)
    omega

/-- **The protocol of entity lifetimes.** In every reachable state an entity whose cleanup is
incomplete is not active; a call that throws changes no table; a call keeps what an entity is, and
changes its session exactly when it reactivates one that was retired and cleaned up. Hence two
lifetimes with a retirement between them have different sessions, and a completion for the first does
nothing to the second. -/
theorem entity_lifetimes (fresh : Function.Injective uuid) (hs : Later uuid init s) :
    (∀ id r, s.tables.readEntityRow id = some r → r.cleanupComplete = false → r.status ≠ .active) ∧
    (∀ env c err, (s.tables.transact env (uuid s.draws) c).2 = .error err →
      (s.step uuid (env, c)).tables = s.tables) ∧
    (∀ e id r, s.tables.readEntityRow id = some r →
      ∃ r', (s.step uuid e).tables.readEntityRow id = some r' ∧
        r'.identityColumns = r.identityColumns ∧
        (r'.authoritySessionId ≠ r.authoritySessionId ↔
          r.status = .retired ∧ r.cleanupComplete = true ∧ r'.status = .active)) ∧
    ∀ m m' s', Later uuid s m → Later uuid m m' → Later uuid m' s' → ∀ id r rm rm' r',
      s.tables.readEntityRow id = some r → m.tables.readEntityRow id = some rm →
      m'.tables.readEntityRow id = some rm' → s'.tables.readEntityRow id = some r' →
      rm.status = .retired → rm'.status ≠ .retired →
      r'.identityColumns = r.identityColumns ∧ r'.authoritySessionId ≠ r.authoritySessionId ∧
        ∀ env, (s'.step uuid (env, .entityCleanupComplete id r.authoritySessionId)).tables =
          s'.tables := by
  have hdrawn : Drawn uuid s := (drawn_init uuid).later hs
  refine ⟨fun id r hr hcleanup hactive ↦ ?_, fun env c err herr ↦ ?_, fun e id r hr ↦ ?_, ?_⟩
  · have hretired := hdrawn.cleanup id _ (EntityTables.lifetime_of_read hr) hcleanup
    exact nomatch hactive.symm.trans hretired
  · rw [EntityTables.transact] at herr
    rw [step, EntityTables.transact]
    cases h : s.tables.call env (uuid s.draws) c with
    | error e => rfl
    | ok res =>
      rw [h] at herr
      exact nomatch herr
  · obtain ⟨l', hl', hcolumns, hsession⟩ := step_session fresh hdrawn e (EntityTables.lifetime_of_read hr)
    obtain ⟨r', hr', rfl⟩ := read_of_lifetime hl'
    exact ⟨r', hr', hcolumns, hsession⟩
  · intro m m' s' hsm hmm hms id r rm rm' r' hr hrm hrm' hr' hretired hagain
    have hne : r'.authoritySessionId ≠ r.authoritySessionId :=
      session_ne_of_retired fresh hdrawn hsm hmm hms (EntityTables.lifetime_of_read hr)
        (EntityTables.lifetime_of_read hrm) (EntityTables.lifetime_of_read hrm')
        (EntityTables.lifetime_of_read hr') hretired hagain
    refine ⟨?_, hne, fun env ↦ step_cleanupComplete_of_ne hr' hne env⟩
    obtain ⟨l', hl', hfollows⟩ := Later.follows ((hsm.trans hmm).trans hms)
      (EntityTables.lifetime_of_read hr)
    rw [EntityTables.lifetime_of_read hr'] at hl'
    exact (congrArg Lifetime.columns (Option.some.inj hl')).trans hfollows.columns

/-- The calls in which a session ends, is cleaned up, and begins again. -/
def restarted : List EntityCall :=
  let activation : EntityActivationCommand := {
    executionAuthority := none, kind := .session, repoPath := lit "meta", effectiveVersion := lit "v1",
    activeBuildKey := none, activeExecutionDigest := none, activeAuthority := none,
    contextId := lit "ctx", className := none, key := lit "s", stateArgs := none, agentBinding := none,
    parentId := none, ownerUserId := none, nativeOwner := none, durableWorkQueues := [] }
  [.entityActivate activation, .entityRetire (lit "session:s"),
    .entityCleanupComplete (lit "session:s") (lit "u"), .entityActivate activation]

def quietSurroundings : EntitySurroundings where
  foreignKeys := true
  nfc := ⟨fun s ↦ s, fun _ ↦ rfl, fun _ ↦ Iff.rfl⟩
  parseUnitAuthorityManifest := .ok
  now := 0

def restartedUuid (n : ℕ) : JsString := List.replicate (n + 1) 117

/-- The state after the first calls. -/
def restartedAt (n : ℕ) : EntityRun :=
  (restarted.take n).foldl (fun s c ↦ s.step restartedUuid (quietSurroundings, c)) init

theorem restarted_later (n k : ℕ) : Later restartedUuid (restartedAt n) (restartedAt (n + k)) := by
  induction k with
  | zero => exact .refl
  | succ k ih =>
    refine ih.trans ?_
    rw [restartedAt, restartedAt, ← Nat.add_assoc, List.take_add_one, List.foldl_append]
    cases restarted[n + k]? with
    | none => exact .refl
    | some c => exact .single ⟨(quietSurroundings, c), rfl⟩

/-- The two sessions of an entity that was retired between them. -/
theorem entity_lifetimes_restarted :
    ((restartedAt 4).tables.readEntityRow (lit "session:s")).map (·.authoritySessionId) ≠
      ((restartedAt 1).tables.readEntityRow (lit "session:s")).map (·.authoritySessionId) := by
  have hfresh : Function.Injective restartedUuid := by
    intro a b h
    have := congrArg List.length h
    rw [restartedUuid, restartedUuid, List.length_replicate, List.length_replicate] at this
    omega
  have hrow : ∀ n ∈ [1, 2, 4], ((restartedAt n).tables.readEntityRow (lit "session:s")).isSome := by
    decide +kernel
  obtain ⟨r₁, h₁⟩ := Option.isSome_iff_exists.mp (hrow 1 (by decide))
  obtain ⟨r₂, h₂⟩ := Option.isSome_iff_exists.mp (hrow 2 (by decide))
  obtain ⟨r₄, h₄⟩ := Option.isSome_iff_exists.mp (hrow 4 (by decide))
  have hstatus : ∀ n ∈ [2, 4], ((restartedAt n).tables.readEntityRow (lit "session:s")).map
      (·.status) = some (if n = 2 then .retired else .active) := by
    decide +kernel
  have hretired := hstatus 2 (by decide)
  have hactive := hstatus 4 (by decide)
  rw [h₂, Option.map_some, if_pos rfl, Option.some.injEq] at hretired
  rw [h₄, Option.map_some, if_neg (by decide), Option.some.injEq] at hactive
  have hne := ((entity_lifetimes hfresh (restarted_later 0 1)).2.2.2 _ _ _ (restarted_later 1 1)
    (restarted_later 2 2) .refl _ r₁ r₂ r₄ r₄ h₁ h₂ h₄ h₄ hretired (by rw [hactive]; nofun)).2.1
  rw [h₄, h₁, Option.map_some, Option.map_some]
  exact fun h ↦ hne (Option.some.inj h)

end EntityRun

end Vibestudio.WorkspaceState

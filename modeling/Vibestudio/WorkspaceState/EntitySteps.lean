import Mathlib
import Vibestudio.WorkspaceState.AlarmCases

/-!
# What the entity calls can do

The calls that publish, prepare, retire and remove entities write six tables between them, in orders
of their own. Each is a sequence of the steps of `EntityStep`, in which the rows of a Durable Object
are written only while it is active; an invariant of the tables is then shown once for every step.
-/

namespace Vibestudio.WorkspaceState

open Js Sqlite

/-- The columns of a canonical id. -/
abbrev EntityIdentity := EntityKind × JsString × Option JsString × JsString

def EntityRow.identity (e : EntityRow) : EntityIdentity :=
  (e.kind, e.sourceRepoPath, e.className, e.key)

def EntityActivateInput.identity (input : EntityActivateInput) : EntityIdentity :=
  (input.kind, input.repoPath, input.className, input.key)

def LifecycleKey.identity (k : LifecycleKey) : EntityIdentity :=
  (.durableObject, k.source, some k.className, k.objectKey)

/-- The id is the canonical one of this identity. -/
def CanonicalId (i : EntityIdentity) (id : JsString) : Prop :=
  canonicalEntityId i.1 i.2.1 i.2.2.1 i.2.2.2 = .ok id

theorem LifecycleKey.identity_injective : Function.Injective LifecycleKey.identity := by
  rintro ⟨_, _, _⟩ ⟨_, _, _⟩ h
  simpa [LifecycleKey.identity] using h

/-- The canonical id of a Durable Object, which has a class. -/
theorem CanonicalId.eq_durableObjectId {k : LifecycleKey} {id : JsString}
    (h : CanonicalId k.identity id) : id = durableObjectId k ∧ k.className ≠ [] := by
  obtain ⟨source, className, key⟩ := k
  rw [CanonicalId, LifecycleKey.identity, canonicalEntityId.eq_def] at h
  simp only at h
  split_ifs at h
  · exact absurd h raise_ne_ok
  cases className with
  | nil => exact absurd h raise_ne_ok
  | cons c className => exact ⟨(Except.ok.inj h).symm, List.cons_ne_nil c className⟩

variable {t t' : AlarmTables}

namespace AlarmTables

/-- The Durable Object of a key is active. -/
def Active (t : AlarmTables) (k : LifecycleKey) : Prop :=
  k.className ≠ [] ∧ ∃ e, t.entities.get (durableObjectId k) = some e ∧ e.identity = k.identity ∧
    e.status = .active

/-- Nothing is left under the key of a retired Durable Object. -/
structure Retired (t t' : AlarmTables) (id : JsString) (k : LifecycleKey) : Prop where
  entity : ∃ e e', t.entities.get id = some e ∧ e.identity = k.identity ∧
    t'.entities.get id = some e' ∧ e'.identity = k.identity
  others : ∀ id' ≠ id, t'.entities.get id' = t.entities.get id'
  alarms : ∀ k', t'.alarms.get k' = if k' = k then none else t.alarms.get k'
  policies : ∀ k', t'.policies.get k' = if k' = k then none else t.policies.get k'
  sources : ∀ k', t'.sources.get k' = if k' = k then none else t.sources.get k'
  requests : ∀ k', t'.requests.get k' = if k' = k then none else t.requests.get k'
  leases : ∀ k', t'.leases.get k' = if k' = k then none else t.leases.get k'
  owners : ∀ k', t'.owners.get k' = if k' = k then none else t.owners.get k'
  claims : t'.claims = t.claims

/-- A step of an entity call. -/
inductive EntityStep (t : AlarmTables) : AlarmTables → Prop where
  /-- An entity is written under its canonical id, or removed, and no active one is lost. -/
  | entities {entities : Table JsString EntityRow} :
      (∀ id e', entities.get id = some e' → CanonicalId e'.identity id ∨
        ∃ e, t.entities.get id = some e ∧ e.identity = e'.identity) →
      (∀ k, t.Active k → ({ t with entities } : AlarmTables).Active k) →
      EntityStep t { t with entities }
  | owners {owners : Table LifecycleKey DurableWorkOwner} :
      (∀ k, owners.get k = t.owners.get k ∨ owners.get k = none ∨ t.Active k) →
      EntityStep t { t with owners }
  | leases {leases : Table LifecycleKey LifecycleLease} :
      (∀ k, leases.get k = t.leases.get k ∨ leases.get k = none ∨ t.Active k) →
      EntityStep t { t with leases }
  | registered {k : LifecycleKey} (identity : StorageIncarnation) :
      t.Active k → EntityStep t (t.replaceSource k identity)
  | unregistered (k : LifecycleKey) : EntityStep t (t.unregister k)
  | retired {t' : AlarmTables} {id : JsString} {k : LifecycleKey} : Retired t t' id k → EntityStep t t'

abbrev EntitySteps : AlarmTables → AlarmTables → Prop := Relation.ReflTransGen EntityStep

/-! ## Publication -/

theorem lifecycleLeaseClear_eq {k : LifecycleKey} (h : t.lifecycleLeaseClear k = .ok t') :
    t' = { t with leases := t.leases.delete k } := by
  obtain ⟨_, -, h⟩ := map_eq_ok.mp h
  exact h.symm

theorem lifecycleLeaseUpsert_eq {k : LifecycleKey} {detail : Option JsString} {now : ℕ}
    (h : t.lifecycleLeaseUpsert k detail now = .ok t') :
    ∃ lease, t' = { t with leases := t.leases.set k lease } := by
  obtain ⟨_, -, h⟩ := map_eq_ok.mp h
  exact ⟨_, h.symm⟩

/-- A lease of an active Durable Object. -/
theorem EntityStep.setLease {k : LifecycleKey} (hactive : t.Active k) (lease : LifecycleLease) :
    EntityStep t { t with leases := t.leases.set k lease } := by
  refine .leases fun k' ↦ ?_
  by_cases hk : k' = k
  · exact .inr (.inr (hk ▸ hactive))
  · exact .inl (Table.get_set_of_ne _ hk _)

theorem EntityStep.deleteLease (t : AlarmTables) (k : LifecycleKey) :
    EntityStep t { t with leases := t.leases.delete k } := by
  refine .leases fun k' ↦ ?_
  by_cases hk : k' = k
  · exact .inr (.inl (hk ▸ Table.get_delete_self _ _))
  · exact .inl (Table.get_delete_of_ne _ hk)

/-- The input is for the Durable Object of this key. -/
structure IsFor (input : EntityActivateInput) (k : LifecycleKey) : Prop where
  identity : input.identity = k.identity
  className : k.className ≠ []

/-- The publication of work queues writes one row of the owners. -/
theorem publishDurableWorkOwner_cases {input : EntityActivateInput} {now : ℕ}
    (h : t.publishDurableWorkOwner input now = .ok t') : ∃ owners, t' = { t with owners } ∧
      ∀ k, owners.get k = t.owners.get k ∨ owners.get k = none ∨ IsFor input k := by
  rw [publishDurableWorkOwner] at h
  split_ifs at h with hunknown hkind hqueues
  · exact absurd h raise_ne_ok
  · exact absurd h raise_ne_ok
  · exact ⟨t.owners, (Except.ok.inj h).symm, fun _ ↦ .inl rfl⟩
  rw [not_not] at hkind
  split at h
  · exact absurd h raise_ne_ok
  · exact absurd h raise_ne_ok
  rename_i className hempty hclass
  rw [setWorkOwner] at h
  split_ifs at h
  · exact absurd h raise_ne_ok
  · refine ⟨_, (Except.ok.inj h).symm, fun k ↦ ?_⟩
    rw [Table.get_delete]
    split_ifs
    · exact .inr (.inl rfl)
    · exact .inl rfl
  · refine ⟨_, (Except.ok.inj h).symm, fun k ↦ ?_⟩
    rw [Table.get_set]
    split_ifs with hk
    · refine .inr (.inr ⟨?_, ?_⟩)
      · rw [hk, EntityActivateInput.identity, hkind, hclass]
        rfl
      · rw [hk]
        exact hempty
    · exact .inl rfl

/-- The entity under `id` is the one of the input, and active. -/
structure Activated (t t' : AlarmTables) (id : JsString) (input : EntityActivateInput) : Prop where
  canonical : CanonicalId input.identity id
  matched : ∀ e, t.entities.get id = some e → e.identity = input.identity
  entity : ∃ e, t'.entities.get id = some e ∧ e.identity = input.identity ∧ e.status = .active
  others : ∀ id' ≠ id, t'.entities.get id' = t.entities.get id'
  rest : t' = { t with entities := t'.entities }

theorem Activated.step {id : JsString} {input : EntityActivateInput} (h : Activated t t' id input) :
    EntityStep t t' := by
  rw [h.rest]
  obtain ⟨e, he, hidentity, hstatus⟩ := h.entity
  refine .entities (fun id' e' he' ↦ ?_) fun k hactive ↦ ?_
  · by_cases hid : id' = id
    · subst hid
      rw [he] at he'
      exact .inl (Option.some.inj he' ▸ hidentity ▸ h.canonical)
    · exact .inr ⟨e', (h.others id' hid) ▸ he', rfl⟩
  · obtain ⟨hclass, e₀, he₀, hk, hstatus₀⟩ := hactive
    by_cases hid : durableObjectId k = id
    · exact ⟨hclass, e, hid ▸ he, hidentity.trans ((h.matched e₀ (hid ▸ he₀)).symm.trans hk), hstatus⟩
    · exact ⟨hclass, e₀, (h.others _ hid).trans he₀, hk, hstatus₀⟩

theorem Activated.active {id : JsString} {input : EntityActivateInput} {k : LifecycleKey}
    (h : Activated t t' id input) (hfor : IsFor input k) : t'.Active k := by
  obtain ⟨e, he, hidentity, hstatus⟩ := h.entity
  have hid := (hfor.identity ▸ h.canonical : CanonicalId k.identity id).eq_durableObjectId.1
  exact ⟨hfor.className, e, hid ▸ he, hidentity.trans hfor.identity, hstatus⟩

/-- An entity keeps its identity and its status. -/
theorem EntityStep.updateEntity (t : AlarmTables) (id : JsString) {f : EntityRow → EntityRow}
    (hf : ∀ e, (f e).identity = e.identity ∧ (f e).status = e.status) :
    EntityStep t (t.updateEntity id f) := by
  refine .entities (fun id' e' he' ↦ ?_) fun k hactive ↦ ?_
  · rw [Table.get_update] at he'
    split_ifs at he' with hid
    · obtain ⟨e, he, rfl⟩ := Option.map_eq_some_iff.mp he'
      exact .inr ⟨e, hid ▸ he, (hf e).1.symm⟩
    · exact .inr ⟨e', he', rfl⟩
  · obtain ⟨hclass, e, he, hidentity, hstatus⟩ := hactive
    by_cases hid : durableObjectId k = id
    · subst hid
      refine ⟨hclass, f e, ?_, (hf e).1.trans hidentity, (hf e).2.trans hstatus⟩
      rw [Table.get_update, if_pos rfl, he]
      rfl
    · exact ⟨hclass, e, (Table.get_update_of_ne _ hid _).trans he, hidentity, hstatus⟩

theorem setNativeOwner_steps {k : LifecycleKey} {nativeOwner : Option StorageIncarnation}
    {previous : Bool} {now : ℕ} (hactive : t.Active k)
    (h : t.setNativeOwner k nativeOwner previous now = .ok t') : EntitySteps t t' := by
  rw [setNativeOwner.eq_def] at h
  cases nativeOwner with
  | none =>
    simp only at h
    split_ifs at h
    · obtain rfl := lifecycleLeaseClear_eq h
      exact .tail (.single (.unregistered k)) (.deleteLease _ k)
    · obtain rfl := Except.ok.inj h
      exact .refl
  | some identity =>
    obtain ⟨t₁, hregister, hlease⟩ := bind_eq_ok.mp h
    obtain ⟨lease, rfl⟩ := lifecycleLeaseUpsert_eq hlease
    rcases (register_cases hregister).2 with rfl | ⟨rfl, -⟩
    · exact .single (.setLease hactive lease)
    · -- a replacement writes no entity, so the Durable Object is still active for its lease
      exact .tail (.single (.registered identity hactive))
        (EntityStep.setLease (t := t.replaceSource k identity) hactive lease)

theorem publishNativeOwner_steps {input : EntityActivateInput} {id : JsString} {now : ℕ}
    (hactive : ∀ k, IsFor input k → t.Active k)
    (h : t.publishNativeOwner input id now = .ok t') : EntitySteps t t' := by
  rw [publishNativeOwner] at h
  split_ifs at h with hexact hkind
  · exact absurd h raise_ne_ok
  · exact Except.ok.inj h ▸ .refl
  rw [not_not] at hkind
  split at h
  · exact Except.ok.inj h ▸ .refl
  · exact Except.ok.inj h ▸ .refl
  rename_i className hempty hclass
  obtain ⟨t₁, hpublished, rfl⟩ := map_eq_ok.mp h
  refine .tail (setNativeOwner_steps (hactive _ ⟨?_, hempty⟩) hpublished)
    (.updateEntity _ _ fun e ↦ ⟨rfl, rfl⟩)
  rw [EntityActivateInput.identity, hkind, hclass]
  rfl

/-- The work queues and the native owner are published for an entity that is active. -/
theorem publish_steps {t₁ t₂ : AlarmTables} {id : JsString} {input : EntityActivateInput} {now : ℕ}
    {owners : Table LifecycleKey DurableWorkOwner} (hactivated : Activated t t₁ id input)
    (howners : ∀ k, owners.get k = t.owners.get k ∨ owners.get k = none ∨ IsFor input k)
    (ht₂ : t₂ = { t₁ with owners }) (h : t₂.publishNativeOwner input id now = .ok t') :
    EntitySteps t t' := by
  have hsame : t₁.owners = t.owners := by rw [hactivated.rest]
  have howned : EntityStep t₁ { t₁ with owners } := by
    refine .owners fun k ↦ ?_
    rcases howners k with hk | hk | hk
    · exact .inl (hk.trans (congrArg (·.get k) hsame.symm))
    · exact .inr (.inl hk)
    · exact .inr (.inr (hactivated.active hk))
  exact .head hactivated.step (.head howned (publishNativeOwner_steps (fun k hk ↦ hactivated.active hk) (ht₂ ▸ h)))

/-! ## The calls -/

theorem assertStableIdentityMatches_ok {id : JsString} {existing : EntityRow}
    {input : EntityActivateInput} (h : assertStableIdentityMatches id existing input = .ok ()) :
    existing.identity = input.identity := by
  rw [assertStableIdentityMatches] at h
  split_ifs at h with hkind hrepo hclass hkey
  simp only [ne_eq, not_not] at hkind hrepo hclass hkey
  rw [EntityRow.identity, EntityActivateInput.identity, hkind, hrepo, hclass, hkey]

/-- An entity is activated under its canonical id. -/
theorem Activated.setEntity {id : JsString} {input : EntityActivateInput} {e : EntityRow}
    (hid : CanonicalId input.identity id)
    (hmatched : ∀ e₀, t.entities.get id = some e₀ → e₀.identity = input.identity)
    (he : e.identity = input.identity) (hstatus : e.status = .active) :
    Activated t (t.setEntity id e) id input :=
  ⟨hid, hmatched, ⟨e, Table.get_set_self _ _ _, he, hstatus⟩,
    fun _ hne ↦ Table.get_set_of_ne _ hne _, rfl⟩

theorem entityActivate_steps {input : EntityActivateInput} {now : ℕ}
    (h : t.entityActivate input now = .ok t') : EntitySteps t t' := by
  obtain ⟨t₁, howner, h⟩ := bind_eq_ok.mp h
  obtain ⟨id, hid, h⟩ := bind_eq_ok.mp h
  obtain ⟨owners, rfl, howners⟩ := publishDurableWorkOwner_cases howner
  -- the owners are written first, but the entity is one that does not read them
  cases hrow : t.entities.get id with
  | none =>
    simp only [hrow] at h
    split at h
    · cases h
    · exact publish_steps (Activated.setEntity hid (fun e₀ he₀ ↦ (by cases hrow.symm.trans he₀)) rfl rfl)
        howners rfl h
  | some existing =>
    simp only [hrow] at h
    obtain ⟨_, hmatches, h⟩ := bind_eq_ok.mp h
    have hmatched : ∀ e₀, t.entities.get id = some e₀ → e₀.identity = input.identity := by
      intro e₀ he₀
      rw [← Option.some.inj (hrow.symm.trans he₀)]
      exact assertStableIdentityMatches_ok hmatches
    split_ifs at h with hcleanup hactive
    · split at h
      · cases h
      · exact publish_steps ⟨hid, hmatched, ⟨existing, hrow, hmatched _ hrow, hactive⟩,
          fun _ _ ↦ rfl, rfl⟩ howners rfl h
    · split at h
      · cases h
      · refine publish_steps (Activated.setEntity (e := { existing with status := .active, cleanupComplete := true })
          hid hmatched ?_ rfl) howners rfl h
        exact (hmatched existing hrow : existing.identity = _)

theorem advanceEntityExecution_cases {input : EntityActivateInput} {status : EntityStatus}
    {id : JsString} (h : t.advanceEntityExecution input status = .ok (t', id)) :
    CanonicalId input.identity id ∧ ∃ existing, t.entities.get id = some existing ∧
      existing.identity = input.identity ∧ t' = t.setEntity id { existing with status } := by
  rw [advanceEntityExecution] at h
  split_ifs at h
  · obtain ⟨id', hid, h⟩ := bind_eq_ok.mp h
    cases hrow : t.entities.get id' with
    | none =>
      rw [hrow] at h
      cases h
    | some existing =>
      simp only [hrow] at h
      split_ifs at h with hretired
      obtain ⟨_, hmatches, h⟩ := bind_eq_ok.mp h
      split at h
      · cases h
      · obtain ⟨rfl, rfl⟩ := Prod.mk.inj (Except.ok.inj h)
        exact ⟨hid, existing, hrow, assertStableIdentityMatches_ok hmatches, rfl⟩
  · exact absurd h raise_ne_ok

theorem entityAdvanceExecution_steps {input : EntityActivateInput} {now : ℕ}
    (h : t.entityAdvanceExecution input now = .ok t') : EntitySteps t t' := by
  obtain ⟨⟨t₁, id⟩, hadvance, h⟩ := bind_eq_ok.mp h
  obtain ⟨t₂, howner, hnative⟩ := bind_eq_ok.mp (show Except.bind _ _ = _ from h)
  obtain ⟨hid, existing, hrow, hidentity, rfl⟩ := advanceEntityExecution_cases hadvance
  obtain ⟨owners, rfl, howners⟩ := publishDurableWorkOwner_cases howner
  refine publish_steps (Activated.setEntity (e := { existing with status := .active }) hid
    (fun e₀ he₀ ↦ ?_) hidentity rfl) howners rfl hnative
  rw [← Option.some.inj (hrow.symm.trans he₀)]
  exact hidentity

theorem entityAdvanceExecutions_steps {inputs : List EntityActivateInput} {now : ℕ}
    (h : entityAdvanceExecutions now inputs t = .ok t') : EntitySteps t t' := by
  induction inputs generalizing t with
  | nil => exact Except.ok.inj h ▸ .refl
  | cons input inputs ih =>
    obtain ⟨t₁, hinput, h⟩ := bind_eq_ok.mp h
    exact (entityAdvanceExecution_steps hinput).trans (ih h)

/-- An entity that is not active is written with the same identity. -/
theorem EntityStep.setEntity {id : JsString} {e : EntityRow} (hid : CanonicalId e.identity id)
    (hactive : ∀ e₀, t.entities.get id = some e₀ → e₀.status ≠ .active) :
    EntityStep t (t.setEntity id e) := by
  refine .entities (fun id' e' he' ↦ ?_) fun k ⟨hclass, e₀, he₀, hidentity, hstatus⟩ ↦ ?_
  · rw [Table.get_set] at he'
    split_ifs at he' with hid'
    · exact .inl (hid' ▸ Option.some.inj he' ▸ hid)
    · exact .inr ⟨e', he', rfl⟩
  · have hne : durableObjectId k ≠ id := fun heq ↦ hactive e₀ (heq ▸ he₀) hstatus
    exact ⟨hclass, e₀, (Table.get_set_of_ne _ hne _).trans he₀, hidentity, hstatus⟩

theorem entityReserve_steps {input : EntityActivateInput} (h : t.entityReserve input = .ok t') :
    EntitySteps t t' := by
  rw [entityReserve] at h
  split_ifs at h
  · exact absurd h raise_ne_ok
  obtain ⟨id, hid, h⟩ := bind_eq_ok.mp h
  cases hrow : t.entities.get id with
  | none =>
    simp only [hrow] at h
    split at h
    · cases h
    · rw [← Except.ok.inj h]
      exact .single (.setEntity hid fun e₀ he₀ ↦ (by cases hrow.symm.trans he₀))
  | some existing =>
    simp only [hrow] at h
    obtain ⟨_, -, h⟩ := bind_eq_ok.mp h
    split_ifs at h
    split at h
    · cases h
    · exact Except.ok.inj h ▸ .refl

theorem entityPrepareExecution_steps {input : EntityActivateInput}
    (h : t.entityPrepareExecution input = .ok t') : EntitySteps t t' := by
  obtain ⟨id, hid, h⟩ := bind_eq_ok.mp h
  split_ifs at h with hpreparing
  obtain ⟨⟨t₁, id'⟩, hadvance, rfl⟩ := map_eq_ok.mp h
  obtain ⟨hid', existing, hrow, hidentity, rfl⟩ := advanceEntityExecution_cases hadvance
  obtain rfl := Except.ok.inj (hid.symm.trans hid')
  refine .single (.setEntity (e := { existing with status := .preparing })
    (hidentity ▸ hid' : CanonicalId existing.identity id) fun e₀ he₀ hactive ↦ ?_)
  -- a reserved incarnation is not active
  rw [not_not, he₀, Option.map_some, hactive] at hpreparing
  cases hpreparing

/-- Retirement of the Durable Object of `k`, whatever has been written to its entity before. -/
theorem clearLifecycle_retired {t₀ : AlarmTables} {id : JsString} {k : LifecycleKey}
    {entities : Table JsString EntityRow} {e e₀ : EntityRow} (he₀ : t₀.entities.get id = some e₀)
    (hk : e₀.identity = k.identity) (he : entities.get id = some e) (hidentity : e.identity = k.identity)
    (hothers : ∀ id' ≠ id, entities.get id' = t₀.entities.get id')
    (h : ({ t₀ with entities } : AlarmTables).clearLifecycle k id = .ok t') :
    Retired t₀ t' id k := by
  obtain ⟨t₁, hlease, h⟩ := bind_eq_ok.mp h
  obtain rfl := lifecycleLeaseClear_eq hlease
  obtain ⟨⟨t₂, status⟩, hclear, rfl⟩ := map_eq_ok.mp h
  have hcleared : t₂ = AlarmTables.clearRow
      { t₀ with entities, leases := t₀.leases.delete k } k := by
    rcases alarmClear_cases hclear with ⟨_, _, hnone, -⟩ | ⟨-, -, -, hcleared⟩
    · exact nomatch hnone
    · exact hcleared
  obtain ⟨alarms, requests, heq, halarms, hactive, hinactive⟩ := clearRow_eq
    { t₀ with entities, leases := t₀.leases.delete k } k
  rw [heq] at hcleared
  subst hcleared
  -- the row and the request are deleted again with the registration, so only the others count
  have hrequests : ∀ k' ≠ k, requests.get k' = t₀.requests.get k' := by
    intro k' hk'
    cases hstatus : AlarmTables.entityActive { t₀ with entities, leases := t₀.leases.delete k } k with
    | true => rw [(hactive hstatus).1]
    | false => exact (hinactive hstatus).1 ▸ Table.get_delete_of_ne _ hk'
  refine ⟨⟨e₀, { e with nativeOwner := none }, he₀, hk, ?_, hidentity⟩, fun id' hid ↦ ?_,
    fun k' ↦ ?_, fun k' ↦ ?_, fun k' ↦ Table.get_delete _ _ _, fun k' ↦ ?_,
    fun k' ↦ Table.get_delete _ _ _, fun k' ↦ Table.get_delete _ _ _, rfl⟩
  · change (entities.update id _).get id = _
    rw [Table.get_update, if_pos rfl, he, Option.map_some]
  · exact (Table.get_update_of_ne _ hid _).trans (hothers id' hid)
  · change (alarms.delete k).get k' = _
    rw [Table.get_delete]
    split_ifs with hk'
    · rfl
    · exact halarms k' hk'
  · change ((t₀.policies.delete k).delete k).get k' = _
    rw [Table.get_delete, Table.get_delete]
    split_ifs <;> rfl
  · change (requests.delete k).get k' = _
    rw [Table.get_delete]
    split_ifs with hk'
    · rfl
    · exact hrequests k' hk'

/-- An entity that is no Durable Object takes none with it. -/
theorem EntityStep.retireOther {id : JsString} {row : EntityRow} {f : EntityRow → EntityRow}
    (hrow : t.entities.get id = some row) (hf : (f row).identity = row.identity)
    (hother : ∀ k : LifecycleKey, k.className ≠ [] → row.identity ≠ k.identity) :
    EntityStep t (t.updateEntity id f) := by
  refine .entities (fun id' e' he' ↦ ?_) fun k hactive ↦ ?_
  · rw [Table.get_update] at he'
    split_ifs at he' with hid
    · subst hid
      rw [hrow, Option.map_some] at he'
      obtain rfl := Option.some.inj he'
      exact .inr ⟨row, hrow, hf.symm⟩
    · exact .inr ⟨e', he', rfl⟩
  · obtain ⟨hclass, e, he, hidentity, hstatus⟩ := hactive
    have hid : durableObjectId k ≠ id := by
      rintro rfl
      rw [Option.some.inj (he.symm.trans hrow)] at hidentity
      exact hother k hclass hidentity
    exact ⟨hclass, e, (Table.get_update_of_ne _ hid _).trans he, hidentity, hstatus⟩

/-- The lifecycle of an entity is that of its Durable Object, if it is one. -/
theorem clearEntityDoLifecycle_cases {id : JsString} {row : EntityRow}
    (h : t.clearEntityDoLifecycle id row = .ok t') :
    (∃ k, row.identity = k.identity ∧ t.clearLifecycle k id = .ok t') ∨ t' = t ∧
      ∀ k : LifecycleKey, k.className ≠ [] → row.identity ≠ k.identity := by
  rw [clearEntityDoLifecycle] at h
  split_ifs at h with hkind
  · refine .inr ⟨(Except.ok.inj h).symm, fun k _ hidentity ↦ hkind ?_⟩
    exact congrArg Prod.fst hidentity
  rw [not_not] at hkind
  split at h
  · rename_i hclass
    refine .inr ⟨(Except.ok.inj h).symm, fun k _ hidentity ↦ ?_⟩
    exact nomatch hclass.symm.trans (congrArg (·.2.2.1) hidentity)
  · rename_i hclass
    refine .inr ⟨(Except.ok.inj h).symm, fun k hne hidentity ↦ hne ?_⟩
    exact (Option.some.inj (hclass.symm.trans (congrArg (·.2.2.1) hidentity))).symm
  · rename_i className _ hclass
    refine .inl ⟨⟨row.sourceRepoPath, className, row.key⟩, ?_, h⟩
    rw [EntityRow.identity, hkind, hclass]
    rfl

theorem entityRetire_steps {id : JsString} (h : t.entityRetire id = .ok t') : EntitySteps t t' := by
  rw [entityRetire] at h
  cases hrow : t.entities.get id with
  | none =>
    simp only [hrow] at h
    exact Except.ok.inj h ▸ .refl
  | some row =>
    simp only [hrow] at h
    split_ifs at h
    · rcases clearEntityDoLifecycle_cases h with ⟨k, hk, h⟩ | ⟨rfl, -⟩
      · exact .single (.retired (clearLifecycle_retired hrow hk hrow hk (fun _ _ ↦ rfl) h))
      · exact .refl
    · rcases clearEntityDoLifecycle_cases h with ⟨k, hk, h⟩ | ⟨rfl, hother⟩
      · refine .single (.retired (clearLifecycle_retired hrow hk (e := { row with
          status := .retired, cleanupComplete := false }) ?_ hk (fun _ hid ↦ ?_) h))
        · rw [Table.get_update, if_pos rfl, hrow]
          rfl
        · exact Table.get_update_of_ne _ hid _
      · exact .single (.retireOther hrow rfl hother)

theorem entityCleanupComplete_steps (t : AlarmTables) (id : JsString) :
    EntitySteps t (t.entityCleanupComplete id) := by
  refine .single (.updateEntity t id fun e ↦ ?_)
  split_ifs
  · exact ⟨rfl, rfl⟩
  · exact ⟨rfl, rfl⟩

theorem entityGc_steps (t : AlarmTables) (old : JsString → Bool) : EntitySteps t (t.entityGc old) := by
  refine .single (.entities (fun id e' he' ↦ ?_) fun k ⟨hclass, e, he, hidentity, hstatus⟩ ↦ ?_)
  · rw [Table.get_deleteWhere, Option.filter_eq_some_iff] at he'
    exact .inr ⟨e', he'.1, rfl⟩
  · refine ⟨hclass, e, ?_, hidentity, hstatus⟩
    rw [Table.get_deleteWhere, he, Option.filter_some, if_pos]
    rw [hstatus, Bool.not_eq_true', Bool.and_eq_false_iff]
    exact .inr rfl

end AlarmTables

/-- The calls that only write entities and what hangs on them. -/
def AlarmCall.ofEntities : AlarmCall → Bool
  | .lifecycleLeaseClear _ | .entityActivate _ _ | .entityReserve _ | .entityPrepareExecution _ |
    .entityAdvanceExecutions _ _ | .entityRetire _ | .entityCleanupComplete _ | .entityGc _ => true
  | _ => false

namespace AlarmTables

/-- **What a call does**: for a call of the alarms see its own lemma. -/
inductive CallDone (t t' : AlarmTables) : AlarmCall → AlarmAnswer → Prop where
  | alarmSet {input : AlarmSetInput} {status : CallStatus} : t.alarmSet input = .ok (t', status) →
      CallDone t t' (.alarmSet input) (.status status)
  | alarmClear {input : AlarmClearInput} {status : CallStatus} :
      t.alarmClear input = .ok (t', status) → CallDone t t' (.alarmClear input) (.status status)
  | alarmComplete {input : AlarmCompleteInput} {answer : CallStatus × Option ℕ} :
      t.alarmComplete input = .ok (t', answer) →
      CallDone t t' (.alarmComplete input) (.status answer.1)
  | alarmAdoptWorker {workerId : JsString} : t.alarmAdoptWorker workerId = .ok t' →
      CallDone t t' (.alarmAdoptWorker workerId) .nothing
  | alarmClaimDue {input : AlarmClaimDueInput} {claims : List AlarmClaim} :
      t.alarmClaimDue input = .ok (t', claims) → CallDone t t' (.alarmClaimDue input) (.claims claims)
  | alarmSourcePublish {k : LifecycleKey} {p : WakePublication} {status : PublishStatus} :
      t.publish k p = .ok (t', status) → CallDone t t' (.alarmSourcePublish k p) (.published status)
  | alarmSourceRequest {k : LifecycleKey} {incarnation : JsString} {status : CallStatus} :
      t.request k incarnation = .ok (t', status) →
      CallDone t t' (.alarmSourceRequest k incarnation) (.status status)
  | lifecycleLeaseUpsert {k : LifecycleKey} {detail : Option JsString} {now : ℕ}
      {lease : LifecycleLease} : t' = { t with leases := t.leases.set k lease } →
      CallDone t t' (.lifecycleLeaseUpsert k detail now) .nothing
  | ofEntities {c : AlarmCall} : c.ofEntities = true → EntitySteps t t' → CallDone t t' c .nothing
  | restart : t' = t.repairLifecycleInvariants → CallDone t t' .restart .nothing

theorem call_cases {c : AlarmCall} {answer : AlarmAnswer} (h : t.call c = .ok (t', answer)) :
    CallDone t t' c answer := by
  cases c with
  | entityCleanupComplete id =>
    obtain ⟨rfl, rfl⟩ := Prod.mk.inj (Except.ok.inj h)
    exact .ofEntities rfl (entityCleanupComplete_steps t id)
  | entityGc old =>
    obtain ⟨rfl, rfl⟩ := Prod.mk.inj (Except.ok.inj h)
    exact .ofEntities rfl (entityGc_steps t old)
  | restart =>
    obtain ⟨rfl, rfl⟩ := Prod.mk.inj (Except.ok.inj h)
    exact .restart rfl
  | _ =>
    obtain ⟨r, hcall, h⟩ := map_eq_ok.mp h
    obtain ⟨rfl, rfl⟩ := Prod.mk.inj h
    first
      | exact .alarmSet hcall
      | exact .alarmClear hcall
      | exact .alarmComplete hcall
      | exact .alarmAdoptWorker hcall
      | exact .alarmClaimDue hcall
      | exact .alarmSourcePublish hcall
      | exact .alarmSourceRequest hcall
      | exact .lifecycleLeaseUpsert (lifecycleLeaseUpsert_eq hcall).choose_spec
      | exact .ofEntities rfl (.single (lifecycleLeaseClear_eq hcall ▸ .deleteLease t _))
      | exact .ofEntities rfl (entityActivate_steps hcall)
      | exact .ofEntities rfl (entityReserve_steps hcall)
      | exact .ofEntities rfl (entityPrepareExecution_steps hcall)
      | exact .ofEntities rfl (entityAdvanceExecutions_steps hcall)
      | exact .ofEntities rfl (entityRetire_steps hcall)

/-- A call that is refused changes nothing, and one that is answered does what its lemma says. -/
theorem transact_cases (t : AlarmTables) (c : AlarmCall) :
    (∃ e, t.transact c = (t, .error e)) ∨
      ∃ t' answer, t.transact c = (t', .ok answer) ∧ CallDone t t' c answer := by
  rw [transact]
  cases h : t.call c with
  | error e => exact .inl ⟨e, rfl⟩
  | ok r => exact .inr ⟨r.1, r.2, rfl, call_cases h⟩

end AlarmTables

end Vibestudio.WorkspaceState

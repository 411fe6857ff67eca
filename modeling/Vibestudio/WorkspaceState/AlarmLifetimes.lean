import Mathlib
import Vibestudio.Transition.Run
import Vibestudio.WorkspaceState.AlarmClaims

/-!
# The lifetimes of alarms, wakes and leases

What is registered under a key belongs to the active Durable Object of that key. A registration and
its requests are written only for one that is active, and go with it; an alarm or a lease can be
written for one that is not, by the two calls that do not look at the entity of their key.
-/

namespace Vibestudio.WorkspaceState

open Js Sqlite Transition

variable {t t' : AlarmTables} {k : LifecycleKey}

namespace AlarmTables

/-! ## Calls about one key -/

/-- Nothing changes away from the key. -/
structure Elsewhere (t t' : AlarmTables) (k : LifecycleKey) : Prop where
  entities : t'.entities = t.entities
  leases : t'.leases = t.leases
  owners : t'.owners = t.owners
  alarms : ∀ k' ≠ k, t'.alarms.get k' = t.alarms.get k'
  policies : ∀ k' ≠ k, t'.policies.get k' = t.policies.get k'
  sources : ∀ k' ≠ k, t'.sources.get k' = t.sources.get k'
  requests : ∀ k' ≠ k, t'.requests.get k' = t.requests.get k'

namespace Elsewhere

theorem refl (t : AlarmTables) (k : LifecycleKey) : Elsewhere t t k :=
  ⟨rfl, rfl, rfl, fun _ _ ↦ rfl, fun _ _ ↦ rfl, fun _ _ ↦ rfl, fun _ _ ↦ rfl⟩

theorem trans {t'' : AlarmTables} (h : Elsewhere t t' k) (h' : Elsewhere t' t'' k) :
    Elsewhere t t'' k where
  entities := h'.entities.trans h.entities
  leases := h'.leases.trans h.leases
  owners := h'.owners.trans h.owners
  alarms := fun k' hk ↦ (h'.alarms k' hk).trans (h.alarms k' hk)
  policies := fun k' hk ↦ (h'.policies k' hk).trans (h.policies k' hk)
  sources := fun k' hk ↦ (h'.sources k' hk).trans (h.sources k' hk)
  requests := fun k' hk ↦ (h'.requests k' hk).trans (h.requests k' hk)

theorem setAlarm (t : AlarmTables) (k : LifecycleKey) (row : AlarmRow) :
    Elsewhere t (t.setAlarm k row) k :=
  { refl t k with alarms := fun _ hk ↦ Table.get_set_of_ne _ hk _ }

theorem schedule (t : AlarmTables) (k : LifecycleKey) (wakeAt : ℕ) :
    Elsewhere t (t.schedule k wakeAt) k := setAlarm t k _

theorem clearAlarm (t : AlarmTables) (k : LifecycleKey) : Elsewhere t (t.clearAlarm k) k :=
  { refl t k with
    alarms := fun _ hk ↦ Table.get_delete_of_ne _ hk
    policies := fun _ hk ↦ Table.get_delete_of_ne _ hk }

theorem setSource (t : AlarmTables) (k : LifecycleKey) (value : RegisteredWake) :
    Elsewhere t (t.setSource k value) k :=
  { refl t k with sources := fun _ hk ↦ Table.get_set_of_ne _ hk _ }

theorem setRequest (t : AlarmTables) (k : LifecycleKey) (value : RetainedWakeRequest) :
    Elsewhere t (t.setRequest k value) k :=
  { refl t k with requests := fun _ hk ↦ Table.get_set_of_ne _ hk _ }

theorem setPolicy (t : AlarmTables) (k : LifecycleKey) (testPolicy : Option JsString) :
    Elsewhere t (t.setPolicy k testPolicy) k := by
  obtain ⟨policies, heq, hothers⟩ := setPolicy_eq t k testPolicy
  rw [heq]
  exact { refl t k with policies := hothers }

theorem ensureRequestedAlarm (t : AlarmTables) (k : LifecycleKey) :
    Elsewhere t (t.ensureRequestedAlarm k) k := by
  rw [AlarmTables.ensureRequestedAlarm]
  split_ifs
  · exact setAlarm t k _
  · exact refl t k

theorem clearRow (t : AlarmTables) (k : LifecycleKey) : Elsewhere t (t.clearRow k) k := by
  obtain ⟨alarms, requests, heq, hothers, hactive, hinactive⟩ := clearRow_eq t k
  rw [heq]
  refine { refl t k with
    alarms := hothers
    policies := fun _ hk ↦ Table.get_delete_of_ne _ hk
    requests := fun k' hk ↦ ?_ }
  cases hstatus : t.entityActive k with
  | true => exact congrArg (·.get k') (hactive hstatus).1
  | false => exact (hinactive hstatus).1 ▸ Table.get_delete_of_ne _ hk

theorem applyPublication (t : AlarmTables) (k : LifecycleKey) (duplicate : Bool)
    (wakeAt : Option ℕ) : Elsewhere t (t.applyPublication k duplicate wakeAt) k := by
  rw [AlarmTables.applyPublication.eq_def]
  split_ifs
  · exact ensureRequestedAlarm t k
  · cases wakeAt with
    | none => exact clearAlarm t k
    | some wakeAt =>
      cases t.alarms.get k with
      | none => exact setAlarm t k _
      | some _ => exact refl t k
  · cases wakeAt with
    | none => exact clearAlarm t k
    | some wakeAt => exact schedule t k wakeAt

theorem active (h : Elsewhere t t' k) (k' : LifecycleKey) : t'.Active k' ↔ t.Active k' := by
  rw [Active, Active, h.entities]

end Elsewhere

/-- An acknowledgement writes the request of its key. -/
theorem Acknowledged.elsewhere {t₁ : AlarmTables} {input : AlarmCompleteInput}
    (h : Acknowledged t t₁ input) : Elsewhere t t₁ input.key := by
  rcases h.eq_or with rfl | ⟨r, rfl⟩
  · exact .refl _ _
  · exact .setRequest _ _ _

end AlarmTables

/-- The key that a call of the alarms is about. -/
def AlarmCall.key : AlarmCall → Option LifecycleKey
  | .alarmSet input => some input.key
  | .alarmClear input => some input.key
  | .alarmComplete input => some input.key
  | .alarmSourcePublish k _ => some k
  | .alarmSourceRequest k _ => some k
  | _ => none

theorem AlarmCall.key_of_ofEntities {c : AlarmCall} (h : c.ofEntities = true) : c.key = none := by
  cases c with
  | alarmSet | alarmClear | alarmComplete | alarmSourcePublish | alarmSourceRequest =>
    simp [ofEntities] at h
  | _ => rfl

namespace AlarmTables

theorem CallDone.elsewhere {c : AlarmCall} {answer : AlarmAnswer} (h : CallDone t t' c answer)
    (hk : c.key = some k) : Elsewhere t t' k := by
  cases h with
  | alarmSet h =>
    obtain rfl := Option.some.inj hk
    rcases (alarmSet_cases h).2 with ⟨_, _, -, -, ⟨-, rfl, -⟩ | ⟨-, -, rfl⟩⟩ | ⟨-, -, -, rfl⟩
    · exact .refl _ _
    · exact (Elsewhere.schedule _ _ _).trans (.setPolicy _ _ _)
    · exact ((Elsewhere.schedule _ _ _).trans (.ensureRequestedAlarm _ _)).trans (.setPolicy _ _ _)
  | alarmClear h =>
    obtain rfl := Option.some.inj hk
    rcases alarmClear_cases h with ⟨_, _, -, -, ⟨-, rfl, -⟩ | ⟨-, -, rfl⟩⟩ | ⟨-, -, -, rfl⟩
    · exact .refl _ _
    · exact .clearRow _ _
    · exact .clearRow _ _
  | alarmComplete h =>
    obtain rfl := Option.some.inj hk
    rcases alarmComplete_cases h with ⟨-, rfl, -⟩ | ⟨-, -, t₁, hack, ⟨_, -, rfl⟩ | ⟨-, rfl⟩⟩
    · exact .refl _ _
    · exact ((hack.elsewhere.trans (.schedule _ _ _)).trans (.setPolicy _ _ _)).trans
        (.ensureRequestedAlarm _ _)
    · exact (hack.elsewhere.trans (.clearRow _ _)).trans (.ensureRequestedAlarm _ _)
  | alarmSourcePublish h =>
    obtain rfl := Option.some.inj hk
    rcases (publish_cases h).2 with ⟨-, rfl⟩ | ⟨current, -, ⟨-, -, rfl⟩ | ⟨-, -, rfl⟩⟩
    · exact .refl _ _
    · exact .applyPublication _ _ _ _
    · exact (Elsewhere.setSource _ _ _).trans (.applyPublication _ _ _ _)
  | alarmSourceRequest h =>
    obtain rfl := Option.some.inj hk
    rcases (request_cases h).2 with ⟨-, rfl⟩ | ⟨-, -, rfl⟩
    · exact .refl _ _
    · exact (Elsewhere.setRequest _ _ _).trans (.ensureRequestedAlarm _ _)
  | ofEntities hc => exact nomatch hk.symm.trans (AlarmCall.key_of_ofEntities hc)
  | _ => exact nomatch hk

/-! ## Registrations -/

/-- Sources and requests are as they were. -/
structure Rescheduled (t t' : AlarmTables) : Prop where
  sources : t'.sources = t.sources
  requests : t'.requests = t.requests

namespace Rescheduled

theorem trans {t'' : AlarmTables} (h : Rescheduled t t') (h' : Rescheduled t' t'') :
    Rescheduled t t'' :=
  ⟨h'.sources.trans h.sources, h'.requests.trans h.requests⟩

theorem schedule (t : AlarmTables) (k : LifecycleKey) (wakeAt : ℕ) :
    Rescheduled t (t.schedule k wakeAt) := ⟨rfl, rfl⟩

theorem setPolicy (t : AlarmTables) (k : LifecycleKey) (testPolicy : Option JsString) :
    Rescheduled t (t.setPolicy k testPolicy) := by
  obtain ⟨policies, heq, -⟩ := setPolicy_eq t k testPolicy
  exact heq ▸ ⟨rfl, rfl⟩

theorem ensureRequestedAlarm (t : AlarmTables) (k : LifecycleKey) :
    Rescheduled t (t.ensureRequestedAlarm k) := by
  rw [ensureRequestedAlarm_eq]
  exact ⟨rfl, rfl⟩

theorem applyPublication (t : AlarmTables) (k : LifecycleKey) (duplicate : Bool)
    (wakeAt : Option ℕ) : Rescheduled t (t.applyPublication k duplicate wakeAt) := by
  rw [AlarmTables.applyPublication.eq_def]
  split_ifs
  · exact ensureRequestedAlarm t k
  · cases wakeAt with
    | none => exact ⟨rfl, rfl⟩
    | some wakeAt => cases t.alarms.get k <;> exact ⟨rfl, rfl⟩
  · cases wakeAt <;> exact ⟨rfl, rfl⟩

end Rescheduled

/-- The deletion of a row leaves the registration, and forgets the request if the entity of the key
is not active. -/
theorem clearRow_registration (t : AlarmTables) (k : LifecycleKey) :
    (t.clearRow k).sources = t.sources ∧ (t.clearRow k).requests =
      if t.entityActive k then t.requests else t.requests.delete k := by
  obtain ⟨alarms, requests, heq, -, hactive, hinactive⟩ := clearRow_eq t k
  rw [heq]
  cases hstatus : t.entityActive k with
  | true => exact ⟨rfl, (hactive hstatus).1⟩
  | false => exact ⟨rfl, (hinactive hstatus).1⟩

/-- A retirement leaves the other Durable Objects active. -/
theorem Retired.active {id : JsString} {k' : LifecycleKey} (h : Retired t t' id k) (hk : k' ≠ k)
    (hactive : t.Active k') : t'.Active k' := by
  obtain ⟨e, -, he, hidentity, -⟩ := h.entity
  obtain ⟨hclass, e₀, he₀, hidentity₀, hstatus⟩ := hactive
  refine ⟨hclass, e₀, (h.others _ fun heq ↦ hk ?_).trans he₀, hidentity₀, hstatus⟩
  rw [heq] at he₀
  rw [Option.some.inj (he.symm.trans he₀)] at hidentity
  exact LifecycleKey.identity_injective (hidentity₀.symm.trans hidentity)

/-- A source belongs to an active Durable Object, and a request to its source. -/
structure Registered (t : AlarmTables) : Prop where
  canonical : ∀ id e, t.entities.get id = some e → CanonicalId e.identity id
  active : ∀ k s, t.sources.get k = some s → t.Active k
  requested : ∀ k r, t.requests.get k = some r →
    (t.sources.get k).map RegisteredWake.incarnation = some r.incarnation

namespace Registered

theorem empty : AlarmTables.empty.Registered where
  canonical := fun _ _ he ↦ nomatch he
  active := fun _ _ hs ↦ nomatch hs
  requested := fun _ _ hr ↦ nomatch hr

theorem of_eq (h : t.Registered) (hentities : t'.entities = t.entities)
    (hsources : t'.sources = t.sources) (hrequests : t'.requests = t.requests) : t'.Registered where
  canonical := hentities ▸ h.canonical
  active := fun k s hs ↦ by
    rw [Active, hentities]
    exact h.active k s (hsources ▸ hs)
  requested := fun k r hr ↦ hsources ▸ h.requested k r (hrequests ▸ hr)

theorem reschedule (h : t.Registered) (helse : Elsewhere t t' k) (hres : Rescheduled t t') :
    t'.Registered :=
  h.of_eq helse.entities hres.sources hres.requests

/-- A source is deleted with its request. -/
theorem withdraw (h : t.Registered) (k : LifecycleKey) (hentities : t'.entities = t.entities)
    (hsources : ∀ k', t'.sources.get k' = if k' = k then none else t.sources.get k')
    (hrequests : ∀ k', t'.requests.get k' = if k' = k then none else t.requests.get k') :
    t'.Registered where
  canonical := hentities ▸ h.canonical
  active := fun k' s hs ↦ by
    rw [Active, hentities]
    rw [hsources] at hs
    split_ifs at hs
    exact h.active k' s hs
  requested := fun k' r hr ↦ by
    rw [hrequests] at hr
    split_ifs at hr with hk
    rw [hsources, if_neg hk]
    exact h.requested k' r hr

theorem entityStep (h : t.Registered) (hstep : EntityStep t t') : t'.Registered := by
  cases hstep with
  | @entities entities hwritten hactive =>
    refine ⟨fun id e' he' ↦ ?_, fun k s hs ↦ hactive k (h.active k s hs), h.requested⟩
    rcases hwritten id e' he' with hid | ⟨e, he, hidentity⟩
    · exact hid
    · exact hidentity ▸ h.canonical id e he
  | owners => exact h.of_eq rfl rfl rfl
  | leases => exact h.of_eq rfl rfl rfl
  | @registered k identity hactive =>
    refine ⟨h.canonical, fun k' s hs ↦ ?_, fun k' r hr ↦ ?_⟩
    · by_cases hk : k' = k
      · exact hk ▸ hactive
      · exact h.active k' s ((Table.get_set_of_ne _ hk _).symm.trans hs)
    · -- the requests of the key have been forgotten with its former source
      have hr : (t.requests.delete k).get k' = some r := hr
      rw [Table.get_delete] at hr
      split_ifs at hr with hk
      rw [show (t.replaceSource k identity).sources.get k' = _ from Table.get_set_of_ne _ hk _]
      exact h.requested k' r hr
  | unregistered k =>
    exact h.withdraw k rfl (fun _ ↦ Table.get_delete _ _ _) fun _ ↦ Table.get_delete _ _ _
  | @retired _ id k hretired =>
    obtain ⟨e, e', he, hidentity, he', hidentity'⟩ := hretired.entity
    refine ⟨fun id' e₀ he₀ ↦ ?_, fun k' s hs ↦ ?_, fun k' r hr ↦ ?_⟩
    · by_cases hid : id' = id
      · subst hid
        rw [← Option.some.inj (he'.symm.trans he₀), hidentity', ← hidentity]
        exact h.canonical id' e he
      · exact h.canonical id' e₀ ((hretired.others id' hid) ▸ he₀)
    · rw [hretired.sources] at hs
      split_ifs at hs with hk
      exact hretired.active hk (h.active k' s hs)
    · rw [hretired.requests] at hr
      split_ifs at hr with hk
      rw [hretired.sources, if_neg hk]
      exact h.requested k' r hr

theorem entitySteps (h : t.Registered) (hsteps : EntitySteps t t') : t'.Registered := by
  induction hsteps with
  | refl => exact h
  | tail _ hstep ih => exact ih.entityStep hstep

/-- A call about one key, which may write its source and its request. -/
theorem elsewhere (h : t.Registered) (helse : Elsewhere t t' k)
    (hsource : (t'.sources.get k).map RegisteredWake.incarnation =
      (t.sources.get k).map RegisteredWake.incarnation)
    (hrequest : ∀ r, t'.requests.get k = some r →
      (t.sources.get k).map RegisteredWake.incarnation = some r.incarnation) : t'.Registered where
  canonical := helse.entities ▸ h.canonical
  active := fun k' s hs ↦ by
    rw [helse.active]
    by_cases hk : k' = k
    · subst hk
      rw [hs, Option.map_some] at hsource
      obtain ⟨s₀, hs₀, -⟩ := Option.map_eq_some_iff.mp hsource.symm
      exact h.active k' s₀ hs₀
    · exact h.active k' s (helse.sources k' hk ▸ hs)
  requested := fun k' r hr ↦ by
    by_cases hk : k' = k
    · subst hk
      exact hsource.trans (hrequest r hr)
    · rw [helse.sources k' hk]
      exact h.requested k' r (helse.requests k' hk ▸ hr)

end Registered

/-- A captured request is acknowledged in its own incarnation. -/
theorem Acknowledged.requested {t₁ : AlarmTables} {input : AlarmCompleteInput} {r : RetainedWakeRequest}
    (h : Acknowledged t t₁ input) (hr : t₁.requests.get input.key = some r) :
    ∃ r₀, t.requests.get input.key = some r₀ ∧ r₀.incarnation = r.incarnation := by
  rw [Acknowledged] at h
  cases hrequest : input.wakeRequest with
  | none =>
    rw [hrequest] at h
    exact ⟨r, h ▸ hr, rfl⟩
  | some token =>
    rw [hrequest] at h
    obtain ⟨r₀, hr₀, -, rfl⟩ := acknowledgeRequest_cases h
    rw [setRequest, Table.get_set_self] at hr
    exact ⟨r₀, hr₀, Option.some.inj hr ▸ rfl⟩

theorem Acknowledged.sources {t₁ : AlarmTables} {input : AlarmCompleteInput}
    (h : Acknowledged t t₁ input) : t₁.sources = t.sources := by
  rcases h.eq_or with rfl | ⟨r, rfl⟩
  · rfl
  · rfl

/-- A request that outlives the deletion of its row. -/
theorem requests_clearRow {r : RetainedWakeRequest} {k' : LifecycleKey}
    (hr : (t.clearRow k).requests.get k' = some r) : t.requests.get k' = some r := by
  rw [(clearRow_registration t k).2] at hr
  split_ifs at hr
  · exact hr
  · rw [Table.get_delete] at hr
    split_ifs at hr
    exact hr

/-- **Registrations stay with their Durable Objects**, whatever the call. -/
theorem CallDone.registered {c : AlarmCall} {answer : AlarmAnswer} (hdone : CallDone t t' c answer)
    (h : t.Registered) : t'.Registered := by
  cases hdone with
  | alarmSet hset =>
    have helse := (CallDone.alarmSet hset).elsewhere rfl
    rcases (alarmSet_cases hset).2 with ⟨_, _, -, -, ⟨-, rfl, -⟩ | ⟨-, -, rfl⟩⟩ | ⟨-, -, -, rfl⟩
    · exact h
    · exact h.reschedule helse ((Rescheduled.schedule _ _ _).trans (.setPolicy _ _ _))
    · exact h.reschedule helse (((Rescheduled.schedule _ _ _).trans
        (.ensureRequestedAlarm _ _)).trans (.setPolicy _ _ _))
  | @alarmClear input status hclear =>
    have hcleared : (t.clearRow input.key).Registered := by
      refine h.elsewhere (.clearRow t input.key) ?_ fun r hr ↦ h.requested _ r (requests_clearRow hr)
      rw [(clearRow_registration t input.key).1]
    rcases alarmClear_cases hclear with ⟨_, _, -, -, ⟨-, rfl, -⟩ | ⟨-, -, rfl⟩⟩ | ⟨-, -, -, rfl⟩
    · exact h
    · exact hcleared
    · exact hcleared
  | @alarmComplete input answer hcomplete =>
    have helse := (CallDone.alarmComplete hcomplete).elsewhere rfl
    rcases alarmComplete_cases hcomplete with ⟨-, rfl, -⟩ | ⟨-, -, t₁, hack, hnext⟩
    · exact h
    -- whatever is scheduled next, the source is untouched and the request is the acknowledged one
    have hafter : t'.sources = t₁.sources ∧ ∀ r, t'.requests.get input.key = some r →
        t₁.requests.get input.key = some r := by
      rcases hnext with ⟨next, -, rfl⟩ | ⟨-, rfl⟩
      · have hres := ((Rescheduled.schedule t₁ input.key next.wakeAt).trans
          (.setPolicy _ input.key next.testPolicy)).trans (.ensureRequestedAlarm _ input.key)
        exact ⟨hres.sources, fun r hr ↦ hres.requests ▸ hr⟩
      · have hres := Rescheduled.ensureRequestedAlarm (t₁.clearRow input.key) input.key
        exact ⟨hres.sources.trans (clearRow_registration t₁ _).1,
          fun r hr ↦ requests_clearRow (hres.requests ▸ hr)⟩
    refine h.elsewhere helse (by rw [hafter.1, hack.sources]) fun r hr ↦ ?_
    obtain ⟨r₀, hr₀, hinc⟩ := hack.requested (hafter.2 r hr)
    exact hinc ▸ h.requested _ r₀ hr₀
  | alarmAdoptWorker hadopt =>
    rw [(alarmAdoptWorker_cases hadopt).1]
    exact h.of_eq rfl rfl rfl
  | alarmClaimDue hdue =>
    obtain ⟨hframe, -, hkeys⟩ := alarmClaimDue_cases hdue
    refine ⟨hframe.entities ▸ h.canonical, fun k s hs ↦ ?_, fun k r hr ↦ ?_⟩
    · rw [Active, hframe.entities]
      exact h.active k s (hframe.sources ▸ hs)
    · rw [hframe.sources]
      rcases hkeys k with ⟨-, huntouched⟩ | ⟨claim, -, a, -, -, hrow⟩
      · exact h.requested k r (huntouched.request ▸ hr)
      · rw [hrow.request] at hr
        obtain ⟨r₀, hr₀, rfl⟩ := Option.map_eq_some_iff.mp hr
        rw [h.requested k r₀ hr₀]
        split_ifs <;> rfl
  | @alarmSourcePublish k p status hpublish =>
    have helse := (CallDone.alarmSourcePublish hpublish).elsewhere rfl
    rcases (publish_cases hpublish).2 with ⟨-, rfl⟩ | ⟨s, hs, ⟨-, -, rfl⟩ | ⟨-, hinc, rfl⟩⟩
    · exact h
    · exact h.reschedule helse (.applyPublication t k true p.wakeAt)
    · have hres := Rescheduled.applyPublication (t.setSource k ⟨p.incarnation, s.generation,
        p.revision, p.wakeAt⟩) k false p.wakeAt
      refine h.elsewhere helse ?_ fun r hr ↦ h.requested k r (hres.requests ▸ hr)
      rw [hres.sources, setSource, Table.get_set_self, hs, Option.map_some, Option.map_some, hinc]
  | @alarmSourceRequest k incarnation status hrequest =>
    have helse := (CallDone.alarmSourceRequest hrequest).elsewhere rfl
    rcases (request_cases hrequest).2 with ⟨-, rfl⟩ | ⟨-, hinc, rfl⟩
    · exact h
    · have hres := Rescheduled.ensureRequestedAlarm (t.setRequest k (t.nextRequest k incarnation)) k
      refine h.elsewhere helse (congrArg (fun s : Table _ _ ↦ (s.get k).map _) hres.sources)
        fun r hr ↦ ?_
      rw [hres.requests, setRequest, Table.get_set_self] at hr
      rw [hinc, ← Option.some.inj hr]
      rfl
  | lifecycleLeaseUpsert heq => exact heq ▸ h.of_eq rfl rfl rfl
  | ofEntities _ hsteps => exact h.entitySteps hsteps
  | restart heq => exact heq ▸ h.of_eq rfl rfl rfl

theorem transact_registered (h : t.Registered) (c : AlarmCall) : (t.transact c).1.Registered := by
  rcases transact_cases t c with ⟨e, heq⟩ | ⟨t', answer, heq, hdone⟩
  · exact heq ▸ h
  · exact heq ▸ hdone.registered h

/-! ## Runnable work -/

/-- The alarm, the request and the policy of a key, as far as its Durable Object has to be active. -/
structure Work (t : AlarmTables) (k : LifecycleKey) (active : Prop) : Prop where
  alarm : (t.alarms.get k).isSome = true → active
  request : t.hasPendingRequest k = true → active
  policy : (t.policies.get k).isSome = true → (t.alarms.get k).isSome = true

namespace Work

variable {active active' : Prop}

theorem mono (h : t.Work k active) (hactive : active → active') : t.Work k active' :=
  ⟨fun ha ↦ hactive (h.alarm ha), fun hr ↦ hactive (h.request hr), h.policy⟩

theorem of_eq (h : t.Work k active) (halarm : t'.alarms.get k = t.alarms.get k)
    (hrequest : t'.requests.get k = t.requests.get k)
    (hpolicy : t'.policies.get k = t.policies.get k) : t'.Work k active where
  alarm := halarm ▸ h.alarm
  request := by
    rw [hasPendingRequest, hrequest]
    exact h.request
  policy := halarm ▸ hpolicy ▸ h.policy

/-- With a row there can be a policy. -/
theorem of_row (hactive : active) (hrow : (t.alarms.get k).isSome = true) : t.Work k active :=
  ⟨fun _ ↦ hactive, fun _ ↦ hactive, fun _ ↦ hrow⟩

/-- Without a row there is no policy. -/
theorem of_none (halarm : t.alarms.get k = none) (hpolicy : t.policies.get k = none)
    (hrequest : t.hasPendingRequest k = true → active) : t.Work k active where
  alarm := fun h ↦ nomatch (halarm ▸ h : (none : Option AlarmRow).isSome = true)
  request := hrequest
  policy := fun h ↦ nomatch (hpolicy ▸ h : (none : Option JsString).isSome = true)

theorem setAlarm (hactive : active) (row : AlarmRow) : (t.setAlarm k row).Work k active :=
  of_row hactive (by rw [AlarmTables.setAlarm, Table.get_set_self, Option.isSome_some])

theorem schedule (hactive : active) (wakeAt : ℕ) : (t.schedule k wakeAt).Work k active :=
  setAlarm hactive _

theorem ensureRequestedAlarm (h : t.Work k active) : (t.ensureRequestedAlarm k).Work k active := by
  rw [AlarmTables.ensureRequestedAlarm]
  split_ifs with hpending
  · exact setAlarm (h.request hpending) _
  · exact h

theorem setPolicy (hactive : active) (hrow : (t.alarms.get k).isSome = true)
    (testPolicy : Option JsString) : (t.setPolicy k testPolicy).Work k active := by
  obtain ⟨policies, heq, -⟩ := setPolicy_eq t k testPolicy
  exact heq ▸ of_row hactive hrow

theorem clearAlarm (h : t.Work k active) : (t.clearAlarm k).Work k active :=
  of_none (Table.get_delete_self _ _) (Table.get_delete_self _ _) h.request

theorem clearRow (h : t.Work k active) : (t.clearRow k).Work k active := by
  obtain ⟨alarms, requests, heq, -, hactive, hinactive⟩ := clearRow_eq t k
  have hpolicy : (t.clearRow k).policies.get k = none := by
    rw [heq]
    exact Table.get_delete_self _ _
  -- the policy goes with the row, and a row is left only for a request that was pending before
  have hrequest : (t.clearRow k).hasPendingRequest k = true → active := by
    intro hpending
    rw [hasPendingRequest, Option.any_eq_true] at hpending
    obtain ⟨r, hr, hlt⟩ := hpending
    refine h.request ?_
    rw [hasPendingRequest, requests_clearRow hr]
    exact hlt
  refine ⟨fun halarm ↦ h.request ?_, hrequest, fun h ↦ ?_⟩
  · rw [heq] at halarm
    cases hstatus : t.entityActive k with
    | true =>
      rw [show alarms.get k = _ from (hactive hstatus).2] at halarm
      split_ifs at halarm with hpending
      · exact hpending
      · exact nomatch halarm
    | false =>
      rw [show alarms.get k = _ from (hinactive hstatus).2] at halarm
      exact nomatch halarm
  · rw [hpolicy] at h
    exact nomatch h

theorem applyPublication (h : t.Work k active) (hactive : active) (duplicate : Bool)
    (wakeAt : Option ℕ) : (t.applyPublication k duplicate wakeAt).Work k active := by
  rw [AlarmTables.applyPublication.eq_def]
  split_ifs
  · exact h.ensureRequestedAlarm
  · cases wakeAt with
    | none => exact h.clearAlarm
    | some wakeAt =>
      cases t.alarms.get k with
      | none => exact setAlarm hactive _
      | some _ => exact h
  · cases wakeAt with
    | none => exact h.clearAlarm
    | some wakeAt => exact schedule hactive wakeAt

end Work

/-- The Durable Object of the key is active, with its columns compared. -/
def activeDurableObject (t : AlarmTables) (k : LifecycleKey) : Bool :=
  decide (k.className ≠ []) && (t.entities.get (durableObjectId k)).any fun e ↦
    decide (e.identity = k.identity ∧ e.status = .active)

theorem activeDurableObject_iff : t.activeDurableObject k = true ↔ t.Active k := by
  rw [activeDurableObject, Bool.and_eq_true, decide_eq_true_iff, Option.any_eq_true, Active]
  simp only [decide_eq_true_eq]

end AlarmTables

/-- The key for which a call writes a row without a look at the identity of the entity: a lease is
written for any key, and an alarm without a claim for one under whose id there is an active entity. -/
def AlarmCall.writesUnchecked (c : AlarmCall) (t : AlarmTables) : Option LifecycleKey := match c with
  | .lifecycleLeaseUpsert k _ _ => some k
  | .alarmSet input => if input.dispatchOwner = none ∧ input.dispatchGeneration = none ∧
      t.entityActive input.key = true then some input.key else none
  | _ => none

/-- A row that is written unchecked is for an active Durable Object, or its key is refused. -/
def AlarmCall.forActive (t : AlarmTables) (c : AlarmCall) : Bool :=
  (c.writesUnchecked t).all fun k ↦ t.activeDurableObject k ||
    decide (k.source = [] ∨ k.className = [] ∨ k.objectKey = [])

namespace AlarmTables

theorem assertLifecycleKey_ok (h : assertLifecycleKey k = .ok ()) :
    ¬(k.source = [] ∨ k.className = [] ∨ k.objectKey = []) := by
  rw [assertLifecycleKey] at h
  split_ifs at h with hempty
  · exact absurd h raise_ne_ok
  · exact hempty

/-- What a call writes unchecked is for an active Durable Object. -/
theorem active_of_forActive {c : AlarmCall} (h : c.forActive t = true)
    (hwrites : c.writesUnchecked t = some k) (hkey : assertLifecycleKey k = .ok ()) : t.Active k := by
  rw [AlarmCall.forActive, hwrites, Option.all_some, Bool.or_eq_true, decide_eq_true_eq] at h
  rcases h with h | h
  · exact activeDurableObject_iff.mp h
  · exact absurd h (assertLifecycleKey_ok hkey)

theorem ownedBy_isSome {owner : JsString} {generation : ℕ} (h : t.ownedBy k owner generation = true) :
    (t.alarms.get k).isSome = true := by
  rw [ownedBy, Option.any_eq_true] at h
  obtain ⟨a, ha, -⟩ := h
  rw [ha, Option.isSome_some]

/-- **The work of a key** after a call about it. -/
theorem CallDone.work {c : AlarmCall} {answer : AlarmAnswer} (hdone : CallDone t t' c answer)
    (hk : c.key = some k) (hforActive : c.forActive t = true) (h : t.Registered)
    (hwork : t.Work k (t.Active k)) : t'.Work k (t.Active k) := by
  cases hdone with
  | @alarmSet input status hset =>
    obtain rfl := Option.some.inj hk
    have hkey : assertLifecycleKey input.key = .ok () := (bind_eq_ok.mp hset).choose_spec.1
    have hrow : ∀ t : AlarmTables, ((t.schedule input.key input.wakeAt).alarms.get input.key).isSome =
        true := fun t ↦ by rw [get_alarms_schedule, if_pos rfl, Option.isSome_some]
    obtain ⟨hentity, ⟨_, _, -, -, ⟨-, rfl, -⟩ | ⟨-, howned, rfl⟩⟩ | ⟨howner, hgeneration, -, rfl⟩⟩ :=
      alarmSet_cases hset
    · exact hwork
    · exact .setPolicy (hwork.alarm (ownedBy_isSome howned)) (hrow t) _
    · have hactive := active_of_forActive hforActive (if_pos ⟨howner, hgeneration, hentity⟩) hkey
      refine .setPolicy hactive ?_ _
      rw [get_alarms_ensureRequestedAlarm]
      split_ifs
      · rfl
      · exact hrow t
  | alarmClear hclear =>
    obtain rfl := Option.some.inj hk
    rcases alarmClear_cases hclear with ⟨_, _, -, -, ⟨-, rfl, -⟩ | ⟨-, -, rfl⟩⟩ | ⟨-, -, -, rfl⟩
    · exact hwork
    · exact hwork.clearRow
    · exact hwork.clearRow
  | @alarmComplete input answer hcomplete =>
    obtain rfl := Option.some.inj hk
    rcases alarmComplete_cases hcomplete with ⟨-, rfl, -⟩ | ⟨-, howned, t₁, hack, hnext⟩
    · exact hwork
    have hactive := hwork.alarm (ownedBy_isSome howned)
    rcases hnext with ⟨next, -, rfl⟩ | ⟨-, rfl⟩
    · refine (Work.setPolicy hactive ?_ _).ensureRequestedAlarm
      rw [get_alarms_schedule, if_pos rfl, Option.isSome_some]
    · have hrows : t₁.alarms = t.alarms ∧ t₁.policies = t.policies := by
        rcases hack.eq_or with rfl | ⟨r, rfl⟩
        · exact ⟨rfl, rfl⟩
        · exact ⟨rfl, rfl⟩
      have hwork₁ : t₁.Work input.key (t.Active input.key) :=
        ⟨fun _ ↦ hactive, fun _ ↦ hactive, hrows.1 ▸ hrows.2 ▸ hwork.policy⟩
      exact hwork₁.clearRow.ensureRequestedAlarm
  | @alarmSourcePublish k' p status hpublish =>
    obtain rfl := Option.some.inj hk
    rcases (publish_cases hpublish).2 with ⟨-, rfl⟩ | ⟨s, hs, ⟨-, -, rfl⟩ | ⟨-, -, rfl⟩⟩
    · exact hwork
    · exact hwork.applyPublication (h.active _ s hs) _ _
    · exact (hwork.of_eq rfl rfl rfl : (t.setSource _ _).Work _ _).applyPublication
        (h.active _ s hs) _ _
  | @alarmSourceRequest k' incarnation status hrequest =>
    obtain rfl := Option.some.inj hk
    rcases (request_cases hrequest).2 with ⟨-, rfl⟩ | ⟨-, hsource, rfl⟩
    · exact hwork
    · obtain ⟨s, hs, -⟩ := Option.map_eq_some_iff.mp hsource
      have hactive := h.active _ s hs
      exact (⟨fun _ ↦ hactive, fun _ ↦ hactive, hwork.policy⟩ :
        (t.setRequest _ _).Work _ _).ensureRequestedAlarm
  | ofEntities hc => cases hk.symm.trans (AlarmCall.key_of_ofEntities hc)
  | _ => cases hk

/-- Each row of the tables of runnable work belongs to a key whose Durable Object is active, and each
policy to a row. -/
structure Tidy (t : AlarmTables) : Prop where
  alarms : ∀ k, (t.alarms.get k).isSome = true → t.Active k
  sources : ∀ k, (t.sources.get k).isSome = true → t.Active k
  requests : ∀ k, t.hasPendingRequest k = true → t.Active k
  owners : ∀ k, (t.owners.get k).isSome = true → t.Active k
  leases : ∀ k, (t.leases.get k).isSome = true → t.Active k
  policies : ∀ k, (t.policies.get k).isSome = true → (t.alarms.get k).isSome = true

namespace Tidy

theorem empty : AlarmTables.empty.Tidy where
  alarms := fun _ h ↦ nomatch h
  sources := fun _ h ↦ nomatch h
  requests := fun _ h ↦ nomatch h
  owners := fun _ h ↦ nomatch h
  leases := fun _ h ↦ nomatch h
  policies := fun _ h ↦ nomatch h

theorem work (h : t.Tidy) (k : LifecycleKey) : t.Work k (t.Active k) :=
  ⟨h.alarms k, h.requests k, h.policies k⟩

/-- The tables are tidy when their registrations, the work of each key, and the rows of owners and
leases are. -/
theorem of_work (h : t.Registered) (hwork : ∀ k, t.Work k (t.Active k))
    (howners : ∀ k, (t.owners.get k).isSome = true → t.Active k)
    (hleases : ∀ k, (t.leases.get k).isSome = true → t.Active k) : t.Tidy where
  alarms := fun k ↦ (hwork k).alarm
  sources := fun k hs ↦ by
    obtain ⟨s, hs⟩ := Option.isSome_iff_exists.mp hs
    exact h.active k s hs
  requests := fun k ↦ (hwork k).request
  owners := howners
  leases := hleases
  policies := fun k ↦ (hwork k).policy

/-- Rows that are written for an active Durable Object only. -/
theorem rows {α : Type} {rows rows' : Table LifecycleKey α}
    (h : ∀ k, (rows.get k).isSome = true → t.Active k)
    (hwritten : ∀ k, rows'.get k = rows.get k ∨ rows'.get k = none ∨ t.Active k) (k : LifecycleKey)
    (hrow : (rows'.get k).isSome = true) : t.Active k := by
  rcases hwritten k with hsame | hnone | hactive
  · exact h k (hsame ▸ hrow)
  · rw [hnone] at hrow
    exact nomatch hrow
  · exact hactive

/-- The tables after all rows of a key are deleted, when the other Durable Objects stay active. -/
theorem withdraw (h : t.Tidy) (h' : t'.Registered) (hactive : ∀ k' ≠ k, t.Active k' → t'.Active k')
    (halarms : ∀ k', t'.alarms.get k' = if k' = k then none else t.alarms.get k')
    (hpolicies : ∀ k', t'.policies.get k' = if k' = k then none else t.policies.get k')
    (hrequests : ∀ k', t'.requests.get k' = if k' = k then none else t.requests.get k')
    (howners : ∀ k, (t'.owners.get k).isSome = true → t'.Active k)
    (hleases : ∀ k, (t'.leases.get k).isSome = true → t'.Active k) : t'.Tidy := by
  refine of_work h' (fun k' ↦ ?_) howners hleases
  by_cases hk : k' = k
  · refine .of_none ?_ ?_ fun hpending ↦ ?_
    · rw [halarms, if_pos hk]
    · rw [hpolicies, if_pos hk]
    · rw [hasPendingRequest, hrequests, if_pos hk] at hpending
      exact nomatch hpending
  · refine ((h.work k').mono (hactive k' hk)).of_eq ?_ ?_ ?_
    · rw [halarms, if_neg hk]
    · rw [hrequests, if_neg hk]
    · rw [hpolicies, if_neg hk]

theorem entityStep (h : t.Tidy) (hr : t.Registered) (hstep : EntityStep t t') : t'.Tidy := by
  have hr' := hr.entityStep hstep
  cases hstep with
  | entities hwritten hactive =>
    exact of_work hr' (fun k ↦ ((h.work k).mono (hactive k)).of_eq rfl rfl rfl)
      (fun k ho ↦ hactive k (h.owners k ho)) fun k hl ↦ hactive k (h.leases k hl)
  | owners hwritten =>
    exact of_work hr' (fun k ↦ (h.work k).of_eq rfl rfl rfl) (rows h.owners hwritten) h.leases
  | leases hwritten =>
    exact of_work hr' (fun k ↦ (h.work k).of_eq rfl rfl rfl) h.owners (rows h.leases hwritten)
  | registered identity hactive =>
    exact h.withdraw hr' (fun _ _ hactive ↦ hactive) (fun _ ↦ Table.get_delete _ _ _)
      (fun _ ↦ Table.get_delete _ _ _) (fun _ ↦ Table.get_delete _ _ _) h.owners h.leases
  | unregistered k =>
    exact h.withdraw hr' (fun _ _ hactive ↦ hactive) (fun _ ↦ Table.get_delete _ _ _)
      (fun _ ↦ Table.get_delete _ _ _) (fun _ ↦ Table.get_delete _ _ _) h.owners h.leases
  | @retired _ id k hretired =>
    refine h.withdraw hr' (fun k' hk ↦ hretired.active hk) hretired.alarms hretired.policies
      hretired.requests (fun k' ho ↦ ?_) fun k' hl ↦ ?_
    · rw [hretired.owners] at ho
      split_ifs at ho with hk
      · cases ho
      · exact hretired.active hk (h.owners k' ho)
    · rw [hretired.leases] at hl
      split_ifs at hl with hk
      · cases hl
      · exact hretired.active hk (h.leases k' hl)

theorem entitySteps (h : t.Tidy) (hr : t.Registered) (hsteps : EntitySteps t t') : t'.Tidy := by
  induction hsteps with
  | refl => exact h
  | tail hsteps hstep ih => exact ih.entityStep (hr.entitySteps hsteps) hstep

/-- Rows of alarms that are kept, or made for an active Durable Object, with the same policies. -/
theorem of_alarms (h : t.Tidy) (h' : t'.Registered) (hentities : t'.entities = t.entities)
    (howners : t'.owners = t.owners) (hleases : t'.leases = t.leases)
    (hpolicies : t'.policies = t.policies)
    (halarm : ∀ k, (t'.alarms.get k).isSome = true → (t.alarms.get k).isSome = true ∨ t.Active k)
    (hkept : ∀ k, (t.alarms.get k).isSome = true → (t'.alarms.get k).isSome = true) : t'.Tidy := by
  have hactive : ∀ k, t'.Active k ↔ t.Active k := fun k ↦ by rw [Active, Active, hentities]
  refine of_work h' (fun k ↦ ⟨fun ha ↦ ?_, fun hp ↦ ?_, fun hp ↦ ?_⟩) (fun k ho ↦ ?_) fun k hl ↦ ?_
  · exact (hactive k).mpr ((halarm k ha).elim (h.alarms k) id)
  · rw [hasPendingRequest, Option.any_eq_true] at hp
    obtain ⟨r, hr, -⟩ := hp
    obtain ⟨s, hs, -⟩ := Option.map_eq_some_iff.mp (h'.requested k r hr)
    exact h'.active k s hs
  · exact hkept k (h.policies k (hpolicies ▸ hp))
  · exact (hactive k).mpr (h.owners k (howners ▸ ho))
  · exact (hactive k).mpr (h.leases k (hleases ▸ hl))

theorem elsewhere (h : t.Tidy) (h' : t'.Registered) (helse : Elsewhere t t' k)
    (hwork : t'.Work k (t.Active k)) : t'.Tidy := by
  refine of_work h' (fun k' ↦ ?_) (fun k' ho ↦ ?_) fun k' hl ↦ ?_
  · by_cases hk : k' = k
    · exact hk ▸ hwork.mono (helse.active k).mpr
    · exact ((h.work k').mono (helse.active k').mpr).of_eq (helse.alarms k' hk)
        (helse.requests k' hk) (helse.policies k' hk)
  · exact (helse.active k').mpr (h.owners k' (helse.owners ▸ ho))
  · exact (helse.active k').mpr (h.leases k' (helse.leases ▸ hl))

end Tidy

/-- An adoption keeps the rows, and makes those of registered sources. -/
theorem tidy_adopt {workerId : JsString} (h : t.Tidy) (h' : t'.Registered)
    (hadopt : t.alarmAdoptWorker workerId = .ok t') : t'.Tidy := by
  obtain ⟨heq, hrows⟩ := alarmAdoptWorker_cases hadopt
  rw [heq] at h' ⊢
  refine h.of_alarms h' rfl rfl rfl rfl (fun k ha ↦ ?_) fun k ha ↦ ?_
  · rw [show _ = _ from hrows k] at ha
    split_ifs at ha with hsource
    · exact .inr (h.sources k hsource.1)
    · rw [Option.isSome_map] at ha
      exact .inl ha
  · rw [show _ = _ from hrows k]
    split_ifs
    · rfl
    · rw [Option.isSome_map]
      exact ha

/-- A claim keeps the row. -/
theorem tidy_claimDue {input : AlarmClaimDueInput} {claims : List AlarmClaim} (h : t.Tidy)
    (h' : t'.Registered) (hdue : t.alarmClaimDue input = .ok (t', claims)) : t'.Tidy := by
  obtain ⟨hframe, -, hkeys⟩ := alarmClaimDue_cases hdue
  have hsame : ∀ k, (t'.alarms.get k).isSome = (t.alarms.get k).isSome := by
    intro k
    rcases hkeys k with ⟨-, huntouched⟩ | ⟨claim, -, a, ha, -, hrow⟩
    · rw [huntouched.alarm]
    · rw [hrow.alarm, ha, Option.isSome_some, Option.isSome_some]
  exact h.of_alarms h' hframe.entities hframe.owners hframe.leases hframe.policies
    (fun k ha ↦ .inl (hsame k ▸ ha)) fun k ha ↦ hsame k ▸ ha

/-- The repair deletes rows, and the policies of rows that are gone. -/
theorem tidy_repair (h : t.Tidy) (hr : t.Registered) : t.repairLifecycleInvariants.Tidy := by
  have hdeleted : ∀ {α : Type} (rows : Table LifecycleKey α) (p : LifecycleKey → α → Bool) (k),
      ((rows.deleteWhere p).get k).isSome = true → (rows.get k).isSome = true := by
    intro α rows p k hrow
    rw [Table.get_deleteWhere] at hrow
    exact Option.isSome_of_isSome_filter _ _ hrow
  refine Tidy.of_work (t := t.repairLifecycleInvariants) (hr.of_eq rfl rfl rfl) (fun k ↦ ⟨fun ha ↦ ?_,
    h.requests k, fun hp ↦ ?_⟩) (fun k ho ↦ ?_) h.leases
  · exact h.alarms k (hdeleted _ _ k ha)
  · obtain ⟨policy, hp⟩ := Option.isSome_iff_exists.mp hp
    rw [show t.repairLifecycleInvariants.policies.get k = _ from Table.get_deleteWhere _ _ _,
      Option.filter_eq_some_iff] at hp
    have hrow := hp.2
    rw [Bool.not_eq_true', Option.isNone_eq_false_iff] at hrow
    exact hrow
  · exact h.owners k (hdeleted _ _ k ho)

/-- A call that is for active Durable Objects keeps the tables tidy. -/
theorem transact_tidy {c : AlarmCall} (h : t.Tidy) (hr : t.Registered)
    (hforActive : c.forActive t = true) : (t.transact c).1.Tidy := by
  rw [transact]
  cases hcall : t.call c with
  | error e => exact h
  | ok r =>
    obtain ⟨t', answer⟩ := r
    have hdone := call_cases hcall
    have hr' := hdone.registered hr
    by_cases hk : ∃ k, c.key = some k
    · obtain ⟨k, hk⟩ := hk
      exact h.elsewhere hr' (hdone.elsewhere hk) (hdone.work hk hforActive hr (h.work k))
    cases hdone with
    | alarmAdoptWorker hadopt => exact tidy_adopt h hr' hadopt
    | alarmClaimDue hdue => exact tidy_claimDue h hr' hdue
    | @lifecycleLeaseUpsert k detail now lease heq =>
      subst heq
      obtain ⟨_, hkey, -⟩ := map_eq_ok.mp (map_eq_ok.mp hcall).choose_spec.1
      have hactive := active_of_forActive hforActive rfl hkey
      exact h.entityStep hr (.setLease hactive lease)
    | ofEntities _ hsteps => exact h.entitySteps hr hsteps
    | restart heq => exact heq ▸ tidy_repair h hr
    | _ => exact absurd ⟨_, rfl⟩ hk

/-- The workspace as a transition function. -/
def next (t : AlarmTables) (c : AlarmCall) : Option AlarmTables := some (t.transact c).1

/-- **Retired Durable Objects hold no runnable work**, in any run whose calls write leases and alarms
for active Durable Objects. -/
theorem retired_hold_no_work {t : AlarmTables}
    (h : Reachable next (fun t c ↦ AlarmCall.forActive t c) .empty t) : t.Tidy := by
  have hboth : t.Registered ∧ t.Tidy := by
    refine h.invariant (I := fun t ↦ t.Registered ∧ t.Tidy) ⟨.empty, .empty⟩ ?_
    rintro t t' c ⟨hr, htidy⟩ hforActive hstep
    obtain rfl := Option.some.inj hstep
    exact ⟨transact_registered hr c, transact_tidy htidy hr hforActive⟩
  exact hboth.2

/-! ### Leases before and after a retirement -/

/-- A Durable Object with a lease and an alarm is retired and activated again. -/
theorem retired_hold_no_work_of_reactivated : ∃ t : AlarmTables,
    (t.leases.get exampleKey).isSome = true ∧ (t.alarms.get exampleKey).isSome = true ∧ t.Tidy := by
  have hrun : ((Transition.run next (fun t c ↦ AlarmCall.forActive t c) .empty
      [activation none, .lifecycleLeaseUpsert exampleKey none 3,
        .entityRetire (durableObjectId exampleKey), .entityCleanupComplete (durableObjectId exampleKey),
        activation (some ⟨lit "i", 1⟩), .lifecycleLeaseUpsert exampleKey none 7,
        .alarmSet ⟨exampleKey, 5, none, none, none⟩]).map fun t ↦
      ((t.leases.get exampleKey).isSome, (t.alarms.get exampleKey).isSome)) = some (true, true) := by
    decide +kernel
  obtain ⟨t, ht, heq⟩ := Option.map_eq_some_iff.mp hrun
  exact ⟨t, congrArg Prod.fst heq, congrArg Prod.snd heq,
    retired_hold_no_work (Transition.Reachable.run .init ht)⟩

/-- **A late lease**: it is written for the Durable Object that has been retired. -/
theorem retired_not_always_without_work :
    ¬∀ t : AlarmTables, Reachable next anyStep .empty t → t.Tidy := by
  intro h
  have hrun : ((Transition.run next anyStep .empty [activation none,
      .entityRetire (durableObjectId exampleKey), .lifecycleLeaseUpsert exampleKey none 7]).map fun t ↦
      ((t.leases.get exampleKey).isSome, t.activeDurableObject exampleKey)) = some (true, false) := by
    decide +kernel
  obtain ⟨t, ht, heq⟩ := Option.map_eq_some_iff.mp hrun
  have hactive := (h t (Transition.Reachable.run .init ht)).leases exampleKey (congrArg Prod.fst heq)
  exact nomatch (activeDurableObject_iff.mpr hactive).symm.trans (congrArg Prod.snd heq)

end AlarmTables

end Vibestudio.WorkspaceState

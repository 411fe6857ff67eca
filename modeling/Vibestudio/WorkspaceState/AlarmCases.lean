import Mathlib
import Vibestudio.WorkspaceState.Alarms

/-!
# What the alarm calls can do

One lemma for each call of the alarms: the answers it can give, and the tables it then leaves, in terms
of the statements the calls share. The invariants of the other modules are proved from these.
-/

namespace Vibestudio.WorkspaceState

open Js Sqlite

variable {t t' : AlarmTables} {k : LifecycleKey}

theorem raise_ne_ok {α : Type} {message : String} {a : α} : raise message ≠ .ok a := nofun

theorem assertActive_ok (h : t.assertActive k = .ok ()) : t.entityActive k = true := by
  obtain ⟨_, -, h⟩ := bind_eq_ok.mp h
  split_ifs at h with hactive
  · exact hactive
  · exact absurd h raise_ne_ok

namespace AlarmTables

/-! ## Schedules -/

theorem get_alarms_schedule (t : AlarmTables) (k k' : LifecycleKey) (wakeAt : ℕ) :
    (t.schedule k wakeAt).alarms.get k' = if k' = k then
      some ⟨wakeAt, (t.alarms.get k').elim 0 AlarmRow.dispatchGeneration, none⟩
    else t.alarms.get k' := by
  rw [schedule, setAlarm, Table.get_set]
  split_ifs with h
  · rw [h]
    cases t.alarms.get k <;> rfl
  · rfl

/-- A policy is written beside the alarms. -/
theorem setPolicy_eq (t : AlarmTables) (k : LifecycleKey) (testPolicy : Option JsString) :
    ∃ policies, t.setPolicy k testPolicy = { t with policies } ∧
      ∀ k' ≠ k, policies.get k' = t.policies.get k' := by
  cases testPolicy with
  | none => exact ⟨t.policies, rfl, fun _ _ ↦ rfl⟩
  | some policy => exact ⟨_, rfl, fun k' hk ↦ Table.get_set_of_ne _ hk _⟩

/-- The row that a wake leaves. -/
def wokenRow (row : Option AlarmRow) : AlarmRow :=
  row.elim ⟨0, 0, none⟩ fun a ↦ { a with wakeAt := 0 }

theorem get_alarms_wakeNow (t : AlarmTables) (k k' : LifecycleKey) : (t.wakeNow k).alarms.get k' =
    if k' = k then some (wokenRow (t.alarms.get k')) else t.alarms.get k' := by
  rw [wakeNow, setAlarm, Table.get_set]
  split_ifs with h
  · rw [h, wokenRow]
  · rfl

theorem ensureRequestedAlarm_eq (t : AlarmTables) (k : LifecycleKey) :
    t.ensureRequestedAlarm k = { t with alarms := (t.ensureRequestedAlarm k).alarms } := by
  rw [ensureRequestedAlarm]
  split_ifs <;> rfl

theorem get_alarms_ensureRequestedAlarm (t : AlarmTables) (k k' : LifecycleKey) :
    (t.ensureRequestedAlarm k).alarms.get k' = if k' = k ∧ t.hasPendingRequest k then
      some (wokenRow (t.alarms.get k')) else t.alarms.get k' := by
  rw [ensureRequestedAlarm]
  by_cases hpending : t.hasPendingRequest k = true
  · simp only [hpending, and_true]
    exact get_alarms_wakeNow t k k'
  · rw [if_neg hpending, if_neg fun h ↦ hpending h.2]

/-- The request of an active Durable Object survives the deletion of its row, and is woken again. -/
theorem clearRow_eq (t : AlarmTables) (k : LifecycleKey) : ∃ alarms requests,
    t.clearRow k = { t with alarms, requests, policies := t.policies.delete k } ∧
      (∀ k' ≠ k, alarms.get k' = t.alarms.get k') ∧
      (t.entityActive k = true → requests = t.requests ∧
        alarms.get k = if t.hasPendingRequest k then some ⟨0, 0, none⟩ else none) ∧
      (t.entityActive k = false → requests = t.requests.delete k ∧ alarms.get k = none) := by
  by_cases hactive : t.entityActive k = true
  · refine ⟨(({ t with alarms := t.alarms.delete k } : AlarmTables).ensureRequestedAlarm k).alarms,
      t.requests, ?_, fun k' hk ↦ ?_, fun _ ↦ ⟨rfl, ?_⟩, fun h ↦ nomatch hactive.symm.trans h⟩
    · rw [clearRow]
      simp only [if_pos hactive]
      rw [ensureRequestedAlarm_eq]
    · rw [get_alarms_ensureRequestedAlarm, if_neg fun h ↦ hk h.1, Table.get_delete_of_ne _ hk]
    · rw [get_alarms_ensureRequestedAlarm, Table.get_delete_self]
      simp only [true_and]
      rfl
  · refine ⟨t.alarms.delete k, t.requests.delete k, ?_, fun k' hk ↦ Table.get_delete_of_ne _ hk,
      fun h ↦ absurd h hactive, fun _ ↦ ⟨rfl, Table.get_delete_self _ _⟩⟩
    rw [clearRow]
    simp only [if_neg hactive]
    rfl

/-! ## `WakePublicationStore` -/

theorem register_cases {identity : StorageIncarnation} (h : t.register k identity = .ok t') :
    t.entityActive k = true ∧ (t' = t ∨ t' = t.replaceSource k identity ∧
      ∀ s, t.sources.get k = some s → s.generation < identity.generation) := by
  obtain ⟨_, hactive, h⟩ := bind_eq_ok.mp h
  refine ⟨assertActive_ok hactive, ?_⟩
  split_ifs at h
  · exact absurd h raise_ne_ok
  cases hsource : t.sources.get k with
  | none =>
    rw [hsource] at h
    exact .inr ⟨(Except.ok.inj h).symm, fun s hs ↦ (by cases hs)⟩
  | some current =>
    simp only [hsource] at h
    split_ifs at h with hold heq hinc
    · exact absurd h raise_ne_ok
    · exact .inl (Except.ok.inj h).symm
    · exact absurd h raise_ne_ok
    · refine .inr ⟨(Except.ok.inj h).symm, fun s hs ↦ ?_⟩
      rw [← Option.some.inj hs]
      omega

theorem publish_cases {p : WakePublication} {status : PublishStatus}
    (h : t.publish k p = .ok (t', status)) : t.entityActive k = true ∧
      ((status = .stale ∧ t' = t) ∨ ∃ current, t.sources.get k = some current ∧
        ((status = .duplicate ∧ p.wakeAt = current.wakeAt ∧
            t' = t.applyPublication k true p.wakeAt) ∨
          (status = .accepted ∧ current.incarnation = p.incarnation ∧
            t' = (t.setSource k ⟨p.incarnation, current.generation, p.revision,
              p.wakeAt⟩).applyPublication k false p.wakeAt))) := by
  obtain ⟨_, hactive, h⟩ := bind_eq_ok.mp h
  refine ⟨assertActive_ok hactive, ?_⟩
  split_ifs at h
  · exact absurd h raise_ne_ok
  cases hsource : t.sources.get k with
  | none =>
    rw [hsource] at h
    obtain ⟨rfl, rfl⟩ := Prod.mk.inj (Except.ok.inj h)
    exact .inl ⟨rfl, rfl⟩
  | some current =>
    simp only [hsource] at h
    split_ifs at h with hstale hsame hwake
    · obtain ⟨rfl, rfl⟩ := Prod.mk.inj (Except.ok.inj h)
      exact .inl ⟨rfl, rfl⟩
    · obtain ⟨rfl, rfl⟩ := Prod.mk.inj (Except.ok.inj h)
      exact .inr ⟨current, rfl, .inl ⟨rfl, hwake, rfl⟩⟩
    · exact absurd h raise_ne_ok
    · obtain ⟨rfl, rfl⟩ := Prod.mk.inj (Except.ok.inj h)
      rw [not_or, not_not] at hstale
      exact .inr ⟨current, rfl, .inr ⟨rfl, hstale.1, rfl⟩⟩

/-- The request a call of `request` leaves. -/
def nextRequest (t : AlarmTables) (k : LifecycleKey) (incarnation : JsString) : RetainedWakeRequest :=
  ⟨incarnation, (t.requests.get k).elim 0 RetainedWakeRequest.generation + 1,
    (t.requests.get k).elim 0 RetainedWakeRequest.acknowledgedGeneration,
    (t.requests.get k).bind RetainedWakeRequest.claim⟩

theorem request_cases {incarnation : JsString} {status : CallStatus}
    (h : t.request k incarnation = .ok (t', status)) : t.entityActive k = true ∧
      ((status = .stale ∧ t' = t) ∨ status = .accepted ∧
        (t.sources.get k).map RegisteredWake.incarnation = some incarnation ∧
        t' = (t.setRequest k (t.nextRequest k incarnation)).ensureRequestedAlarm k) := by
  obtain ⟨_, hactive, h⟩ := bind_eq_ok.mp h
  refine ⟨assertActive_ok hactive, ?_⟩
  split_ifs at h with hsource hsafe
  · obtain ⟨rfl, rfl⟩ := Prod.mk.inj (Except.ok.inj h)
    exact .inl ⟨rfl, rfl⟩
  · exact absurd h raise_ne_ok
  · obtain ⟨rfl, rfl⟩ := Prod.mk.inj (Except.ok.inj h)
    exact .inr ⟨rfl, not_not.mp hsource, rfl⟩

theorem acknowledgeRequest_cases {token : WakeRequest} {dispatchGeneration : ℕ}
    (h : t.acknowledgeRequest k token dispatchGeneration = .ok t') : ∃ r, t.requests.get k = some r ∧
      (token.incarnation = r.incarnation ∧ r.claim = some ⟨token.generation, dispatchGeneration⟩) ∧
      t' = t.setRequest k ⟨r.incarnation, r.generation, token.generation, none⟩ := by
  rw [acknowledgeRequest] at h
  cases hr : t.requests.get k with
  | none =>
    rw [hr] at h
    exact absurd h raise_ne_ok
  | some r =>
    simp only [hr] at h
    split_ifs at h with hclaim
    · exact ⟨r, rfl, hclaim, (Except.ok.inj h).symm⟩
    · exact absurd h raise_ne_ok

/-! ## The alarm calls -/

theorem alarmSet_cases {input : AlarmSetInput} {status : CallStatus}
    (h : t.alarmSet input = .ok (t', status)) : t.entityActive input.key = true ∧
      ((∃ owner generation, input.dispatchOwner = some owner ∧
          input.dispatchGeneration = some generation ∧
          ((status = .stale ∧ t' = t ∧ t.ownedBy input.key owner generation = false) ∨
            (status = .accepted ∧ t.ownedBy input.key owner generation = true ∧
              t' = (t.schedule input.key input.wakeAt).setPolicy input.key input.testPolicy))) ∨
        (input.dispatchOwner = none ∧ input.dispatchGeneration = none ∧ status = .accepted ∧
          t' = ((t.schedule input.key input.wakeAt).ensureRequestedAlarm input.key).setPolicy
            input.key input.testPolicy)) := by
  obtain ⟨_, -, h⟩ := bind_eq_ok.mp h
  split_ifs at h with hactive
  refine ⟨by simpa using hactive, ?_⟩
  obtain ⟨key, wakeAt, testPolicy, owner?, generation?⟩ := input
  match owner?, generation? with
  | some owner, some generation =>
    simp only at h
    refine .inl ⟨owner, generation, rfl, rfl, ?_⟩
    split_ifs at h with hvalid howned
    · obtain ⟨rfl, rfl⟩ := Prod.mk.inj (Except.ok.inj h)
      exact .inr ⟨rfl, howned, rfl⟩
    · obtain ⟨rfl, rfl⟩ := Prod.mk.inj (Except.ok.inj h)
      exact .inl ⟨rfl, rfl, by simpa using howned⟩
    · exact absurd h raise_ne_ok
  | none, none =>
    obtain ⟨rfl, rfl⟩ := Prod.mk.inj (Except.ok.inj h)
    exact .inr ⟨rfl, rfl, rfl, rfl⟩
  | some _, none | none, some _ => exact absurd h raise_ne_ok

theorem alarmClear_cases {input : AlarmClearInput} {status : CallStatus}
    (h : t.alarmClear input = .ok (t', status)) :
      ((∃ owner generation, input.dispatchOwner = some owner ∧
          input.dispatchGeneration = some generation ∧
          ((status = .stale ∧ t' = t ∧ t.ownedBy input.key owner generation = false) ∨
            (status = .accepted ∧ t.ownedBy input.key owner generation = true ∧
              t' = t.clearRow input.key))) ∨
        (input.dispatchOwner = none ∧ input.dispatchGeneration = none ∧ status = .accepted ∧
          t' = t.clearRow input.key)) := by
  obtain ⟨_, -, h⟩ := bind_eq_ok.mp h
  obtain ⟨key, owner?, generation?⟩ := input
  match owner?, generation? with
  | some owner, some generation =>
    simp only at h
    refine .inl ⟨owner, generation, rfl, rfl, ?_⟩
    split_ifs at h with hvalid howned
    · obtain ⟨rfl, rfl⟩ := Prod.mk.inj (Except.ok.inj h)
      exact .inr ⟨rfl, howned, rfl⟩
    · obtain ⟨rfl, rfl⟩ := Prod.mk.inj (Except.ok.inj h)
      exact .inl ⟨rfl, rfl, by simpa using howned⟩
    · exact absurd h raise_ne_ok
  | none, none =>
    obtain ⟨rfl, rfl⟩ := Prod.mk.inj (Except.ok.inj h)
    exact .inr ⟨rfl, rfl, rfl, rfl⟩
  | some _, none | none, some _ => exact absurd h raise_ne_ok

/-- The tables of a completion before its schedule: those with the captured request acknowledged. -/
def Acknowledged (t t₁ : AlarmTables) (input : AlarmCompleteInput) : Prop :=
  match input.wakeRequest with
  | none => t₁ = t
  | some token => t.acknowledgeRequest input.key token input.dispatchGeneration = .ok t₁

theorem Acknowledged.eq_or {t₁ : AlarmTables} {input : AlarmCompleteInput}
    (h : Acknowledged t t₁ input) : t₁ = t ∨ ∃ r, t₁ = t.setRequest input.key r := by
  rw [Acknowledged] at h
  cases hrequest : input.wakeRequest with
  | none =>
    rw [hrequest] at h
    exact .inl h
  | some token =>
    rw [hrequest] at h
    obtain ⟨r, -, -, h⟩ := acknowledgeRequest_cases h
    exact .inr ⟨_, h⟩

theorem alarmComplete_cases {input : AlarmCompleteInput} {answer : CallStatus × Option ℕ}
    (h : t.alarmComplete input = .ok (t', answer)) :
    (answer.1 = .stale ∧ t' = t ∧
        t.ownedBy input.key input.dispatchOwner input.dispatchGeneration = false) ∨
      (answer.1 = .accepted ∧
        t.ownedBy input.key input.dispatchOwner input.dispatchGeneration = true ∧
        ∃ t₁, Acknowledged t t₁ input ∧
          ((∃ next, input.nextAlarm = some next ∧ t' = ((t₁.schedule input.key
              next.wakeAt).setPolicy input.key next.testPolicy).ensureRequestedAlarm input.key) ∨
            (input.nextAlarm = none ∧ t' = (t₁.clearRow input.key).ensureRequestedAlarm input.key))) := by
  rw [alarmComplete] at h
  split_ifs at h with hvalid howned
  rotate_left
  · obtain ⟨rfl, rfl⟩ := Prod.mk.inj (Except.ok.inj h)
    exact .inl ⟨rfl, rfl, by simpa using howned⟩
  · exact absurd h raise_ne_ok
  obtain ⟨t₁, hack, h⟩ := bind_eq_ok.mp h
  obtain ⟨⟨t₂, status⟩, hnext, h⟩ := bind_eq_ok.mp h
  have hacknowledged : Acknowledged t t₁ input := by
    rw [Acknowledged]
    cases hrequest : input.wakeRequest with
    | none =>
      rw [hrequest] at hack
      exact (Except.ok.inj hack).symm
    | some token =>
      rw [hrequest] at hack
      exact hack
  cases status with
  | stale => exact absurd h raise_ne_ok
  | accepted =>
    obtain ⟨rfl, rfl⟩ := Prod.mk.inj (Except.ok.inj h)
    refine .inr ⟨rfl, howned, t₁, hacknowledged, ?_⟩
    rw [applyNextAlarm] at hnext
    cases halarm : input.nextAlarm with
    | none =>
      simp only [halarm] at hnext
      rcases alarmClear_cases hnext with ⟨_, _, -, -, ⟨hstale, -⟩ | ⟨-, -, rfl⟩⟩ | ⟨hnone, -⟩
      · exact nomatch hstale
      · exact .inr ⟨rfl, rfl⟩
      · exact nomatch hnone
    | some next =>
      simp only [halarm] at hnext
      rcases (alarmSet_cases hnext).2 with ⟨_, _, -, -, ⟨hstale, -⟩ | ⟨-, -, rfl⟩⟩ | ⟨hnone, -⟩
      · exact nomatch hstale
      · exact .inl ⟨next, rfl, rfl⟩
      · exact nomatch hnone

/-! ## The scheduler -/

/-- A wake changes the alarms only. -/
theorem eq_foldl_wakeNow (keys : List LifecycleKey) (t : AlarmTables) :
    keys.foldl wakeNow t = { t with alarms := (keys.foldl wakeNow t).alarms } := by
  induction keys generalizing t with
  | nil => rfl
  | cons k keys ih =>
    rw [List.foldl_cons, ih]
    rfl

theorem get_foldl_wakeNow (keys : List LifecycleKey) (t : AlarmTables) (k : LifecycleKey) :
    (keys.foldl wakeNow t).alarms.get k =
      if k ∈ keys then some (wokenRow (t.alarms.get k)) else t.alarms.get k := by
  induction keys generalizing t with
  | nil => rfl
  | cons k' keys ih =>
    rw [List.foldl_cons, ih, get_alarms_wakeNow]
    by_cases hk : k = k'
    · subst hk
      have hwoken : ∀ row, wokenRow (some (wokenRow row)) = wokenRow row := by
        intro row
        cases row <;> rfl
      simp [hwoken]
    · simp [hk]

theorem mem_alarmSourceList (t : AlarmTables) (k : LifecycleKey) :
    k ∈ t.alarmSourceList ↔ (t.sources.get k).isSome = true ∧ t.entityActive k = true := by
  rw [alarmSourceList, wakeOwners, List.mem_filter, List.mem_map]
  refine and_congr_left' ?_
  rw [Option.isSome_iff_exists]
  constructor
  · rintro ⟨⟨k', s⟩, hmem, rfl⟩
    exact ⟨s, t.sources.mem_rows.mp hmem⟩
  · rintro ⟨s, hs⟩
    exact ⟨(k, s), t.sources.mem_rows.mpr hs, rfl⟩

/-- Adoption releases every claim and wakes the registered sources that are active. -/
theorem alarmAdoptWorker_cases {workerId : JsString} (h : t.alarmAdoptWorker workerId = .ok t') :
    t' = { t with alarms := t'.alarms, activeWorker := some workerId } ∧ ∀ k, t'.alarms.get k =
      if (t.sources.get k).isSome = true ∧ t.entityActive k = true then
        some { wokenRow (t.alarms.get k) with dispatchOwner := none }
      else (t.alarms.get k).map fun a ↦ { a with dispatchOwner := none } := by
  rw [alarmAdoptWorker] at h
  split_ifs at h
  · exact absurd h raise_ne_ok
  obtain rfl := Except.ok.inj h
  refine ⟨?_, fun k ↦ ?_⟩
  · rw [eq_foldl_wakeNow]
  · rw [get_foldl_wakeNow]
    refine if_congr (mem_alarmSourceList _ k) ?_ ?_
    · rw [Table.get_map]
      cases t.alarms.get k <;> rfl
    · rw [Table.get_map]

/-! ### Claims -/

/-- What a claim of a free row leaves. -/
structure RowClaimed (t t' : AlarmTables) (workerId : JsString) (k : LifecycleKey) (a : AlarmRow)
    (claim : AlarmClaim) : Prop where
  key : claim.key = k
  generation : claim.dispatchGeneration = t.lastGeneration k + 1
  alarm : t'.alarms.get k = some ⟨a.wakeAt, claim.dispatchGeneration, some workerId⟩
  counter : t'.claims.get k = some claim.dispatchGeneration
  request : t'.requests.get k = (t.requests.get k).map fun r ↦
    if r.generation = r.acknowledgedGeneration then r
    else { r with claim := some ⟨r.generation, claim.dispatchGeneration⟩ }

/-- Nothing has happened at a key. -/
structure Untouched (t t' : AlarmTables) (k : LifecycleKey) : Prop where
  alarm : t'.alarms.get k = t.alarms.get k
  counter : t'.claims.get k = t.claims.get k
  request : t'.requests.get k = t.requests.get k

/-- The tables that claims leave alone. -/
structure ClaimFrame (t t' : AlarmTables) : Prop where
  entities : t'.entities = t.entities
  sources : t'.sources = t.sources
  policies : t'.policies = t.policies
  leases : t'.leases = t.leases
  owners : t'.owners = t.owners

theorem ClaimFrame.trans {t'' : AlarmTables} (h : ClaimFrame t t') (h' : ClaimFrame t' t'') :
    ClaimFrame t t'' :=
  ⟨h'.entities.trans h.entities, h'.sources.trans h.sources, h'.policies.trans h.policies,
    h'.leases.trans h.leases, h'.owners.trans h.owners⟩

theorem claimRequest_eq (t : AlarmTables) (k : LifecycleKey) (dispatchGeneration : ℕ) : ∃ requests,
    (t.claimRequest k dispatchGeneration).1 = { t with requests } ∧
      requests.get k = ((t.requests.get k).map fun r ↦ if r.generation = r.acknowledgedGeneration
        then r else { r with claim := some ⟨r.generation, dispatchGeneration⟩ }) ∧
      ∀ k' ≠ k, requests.get k' = t.requests.get k' := by
  rw [claimRequest]
  cases hr : t.requests.get k with
  | none => exact ⟨t.requests, rfl, hr, fun _ _ ↦ rfl⟩
  | some r =>
    simp only [Option.map_some]
    split_ifs
    · exact ⟨t.requests, rfl, hr, fun _ _ ↦ rfl⟩
    · exact ⟨_, rfl, Table.get_set_self _ _ _, fun k' hk ↦ Table.get_set_of_ne _ hk _⟩

theorem claimRow_cases {workerId : JsString} {a : AlarmRow} {claim : AlarmClaim}
    (ha : t.alarms.get k = some a) (hfree : a.dispatchOwner = none)
    (h : t.claimRow workerId (k, a) = .ok (t', claim)) :
    RowClaimed t t' workerId k a claim ∧ (∀ k' ≠ k, Untouched t t' k') ∧ ClaimFrame t t' := by
  obtain ⟨⟨t₁, generation⟩, hnext, h⟩ := bind_eq_ok.mp h
  rw [nextClaimGeneration] at hnext
  split_ifs at hnext
  · exact absurd hnext raise_ne_ok
  obtain ⟨rfl, rfl⟩ := Prod.mk.inj (Except.ok.inj hnext)
  -- the row was free, and so it is the one that the claim has made
  have hrow : (t.alarms.update k fun a ↦ if a.dispatchOwner = none then
      ⟨a.wakeAt, t.lastGeneration k + 1, some workerId⟩ else a).get k =
      some ⟨a.wakeAt, t.lastGeneration k + 1, some workerId⟩ := by
    rw [Table.get_update, if_pos rfl, ha, Option.map_some, if_pos hfree]
  simp only [hrow] at h
  obtain ⟨ht', rfl⟩ := Prod.mk.inj (Except.ok.inj h)
  obtain ⟨requests, heq, hrequest, hothers⟩ := claimRequest_eq _ k (t.lastGeneration k + 1)
  obtain rfl := ht'.symm.trans heq
  exact ⟨⟨rfl, rfl, hrow, Table.get_set_self _ _ _, hrequest⟩, fun k' hk ↦
    ⟨Table.get_update_of_ne _ hk _, Table.get_set_of_ne _ hk _, hothers k' hk⟩,
    rfl, rfl, rfl, rfl, rfl⟩

theorem Untouched.lastGeneration (h : Untouched t t' k) : t'.lastGeneration k = t.lastGeneration k := by
  rw [AlarmTables.lastGeneration, AlarmTables.lastGeneration, h.counter, h.alarm]

theorem Untouched.trans {t'' : AlarmTables} (h : Untouched t t' k) (h' : Untouched t' t'' k) :
    Untouched t t'' k :=
  ⟨h'.alarm.trans h.alarm, h'.counter.trans h.counter, h'.request.trans h.request⟩

theorem RowClaimed.after {t'' : AlarmTables} {workerId : JsString} {a : AlarmRow} {claim : AlarmClaim}
    (h : RowClaimed t t' workerId k a claim) (h' : Untouched t' t'' k) :
    RowClaimed t t'' workerId k a claim :=
  ⟨h.key, h.generation, h'.alarm.trans h.alarm, h'.counter.trans h.counter,
    h'.request.trans h.request⟩

theorem RowClaimed.before {t₀ : AlarmTables} {workerId : JsString} {a : AlarmRow} {claim : AlarmClaim}
    (h₀ : Untouched t₀ t k) (h : RowClaimed t t' workerId k a claim) :
    RowClaimed t₀ t' workerId k a claim :=
  ⟨h.key, h.generation.trans (congrArg (· + 1) h₀.lastGeneration), h.alarm, h.counter,
    h.request.trans (congrArg _ h₀.request)⟩

theorem claimRows_cases {workerId : JsString} {rows : List (LifecycleKey × AlarmRow)}
    {claims : List AlarmClaim} (hnodup : (rows.map Prod.fst).Nodup)
    (hrows : ∀ p ∈ rows, t.alarms.get p.1 = some p.2 ∧ p.2.dispatchOwner = none)
    (h : claimRows workerId rows t = .ok (t', claims)) : ClaimFrame t t' ∧
      claims.map AlarmClaim.key = rows.map Prod.fst ∧
      (∀ k ∉ rows.map Prod.fst, Untouched t t' k) ∧
      ∀ p ∈ rows, ∃ claim ∈ claims, RowClaimed t t' workerId p.1 p.2 claim := by
  induction rows generalizing t claims with
  | nil =>
    obtain ⟨rfl, rfl⟩ := Prod.mk.inj (Except.ok.inj h)
    exact ⟨⟨rfl, rfl, rfl, rfl, rfl⟩, rfl, fun _ _ ↦ ⟨rfl, rfl, rfl⟩, fun _ hp ↦ nomatch hp⟩
  | cons p rows ih =>
    obtain ⟨k, a⟩ := p
    obtain ⟨hk, hnodup⟩ := List.nodup_cons.mp hnodup
    obtain ⟨⟨t₁, claim⟩, hclaim, h⟩ := bind_eq_ok.mp h
    obtain ⟨⟨t₂, rest⟩, hrest, h⟩ := map_eq_ok.mp h
    obtain ⟨rfl, rfl⟩ := Prod.mk.inj h
    obtain ⟨ha, hfree⟩ := hrows _ List.mem_cons_self
    obtain ⟨hclaimed, hothers, hframe⟩ := claimRow_cases ha hfree hclaim
    have hne : ∀ q ∈ rows, q.1 ≠ k := fun q hq heq ↦ hk (List.mem_map.mpr ⟨q, hq, heq⟩)
    obtain ⟨hframe', hkeys, huntouched, hall⟩ := ih hnodup (fun q hq ↦ by
      rw [(hothers q.1 (hne q hq)).alarm]
      exact hrows q (List.mem_cons_of_mem _ hq)) hrest
    refine ⟨hframe.trans hframe', ?_, fun k' hk' ↦ ?_, fun q hq ↦ ?_⟩
    · rw [List.map_cons, List.map_cons, hkeys, hclaimed.key]
    · rw [List.map_cons, List.mem_cons, not_or] at hk'
      exact (hothers k' hk'.1).trans (huntouched k' hk'.2)
    · rcases List.mem_cons.mp hq with rfl | hq
      · exact ⟨claim, List.mem_cons_self, hclaimed.after (huntouched k hk)⟩
      · obtain ⟨c, hc, hrow⟩ := hall q hq
        exact ⟨c, List.mem_cons_of_mem _ hc, hrow.before (hothers q.1 (hne q hq))⟩

/-- A selected row is free and due, and no key is selected twice. -/
theorem dueRows_cases (t : AlarmTables) (input : AlarmClaimDueInput) :
    ((t.dueRows input).map Prod.fst).Nodup ∧ ∀ p ∈ t.dueRows input,
      t.alarms.get p.1 = some p.2 ∧ p.2.dispatchOwner = none := by
  have hperm := List.mergeSort_perm (t.alarms.rows.filter fun p ↦
    decide (p.2.wakeAt ≤ input.now ∧ p.2.dispatchOwner = none)) dueBefore
  constructor
  · refine List.Nodup.sublist (((List.take_sublist _ _).trans List.filter_sublist).map _) ?_
    rw [(hperm.map _).nodup_iff]
    exact t.alarms.primaryKey.sublist (List.filter_sublist.map _)
  · intro p hp
    have hmem := hperm.mem_iff.mp (List.mem_of_mem_filter (List.mem_of_mem_take hp))
    rw [List.mem_filter, decide_eq_true_eq] at hmem
    exact ⟨t.alarms.mem_rows.mp hmem.1, hmem.2.2⟩

theorem alarmClaimDue_cases {input : AlarmClaimDueInput} {claims : List AlarmClaim}
    (h : t.alarmClaimDue input = .ok (t', claims)) : ClaimFrame t t' ∧
      (claims.map AlarmClaim.key).Nodup ∧ ∀ k,
        ((∀ claim ∈ claims, claim.key ≠ k) ∧ Untouched t t' k) ∨
          ∃ claim ∈ claims, ∃ a, t.alarms.get k = some a ∧ a.dispatchOwner = none ∧
            RowClaimed t t' input.workerId k a claim := by
  rw [alarmClaimDue] at h
  split_ifs at h
  all_goals first | exact absurd h raise_ne_ok | skip
  obtain ⟨_, -, h⟩ := bind_eq_ok.mp h
  obtain ⟨hnodup, hrows⟩ := t.dueRows_cases input
  obtain ⟨hframe, hkeys, huntouched, hall⟩ := claimRows_cases hnodup hrows h
  refine ⟨hframe, hkeys ▸ hnodup, fun k ↦ ?_⟩
  by_cases hk : k ∈ (t.dueRows input).map Prod.fst
  · obtain ⟨⟨k, a⟩, hp, rfl⟩ := List.mem_map.mp hk
    obtain ⟨claim, hclaim, hrow⟩ := hall _ hp
    exact .inr ⟨claim, hclaim, a, (hrows _ hp).1, (hrows _ hp).2, hrow⟩
  · refine .inl ⟨fun claim hclaim heq ↦ hk ?_, huntouched k hk⟩
    rw [← hkeys, ← heq]
    exact List.mem_map_of_mem hclaim

end AlarmTables

end Vibestudio.WorkspaceState

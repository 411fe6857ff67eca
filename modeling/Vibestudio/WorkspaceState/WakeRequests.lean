import Mathlib
import Vibestudio.WorkspaceState.AlarmLifetimes

/-!
# Retained wake requests

A request of a registered source is retained until the dispatch that has captured it completes. Every
call that ends a schedule restores the one of a pending request, except a handler that gives its claim
back with `alarmSet`: the request then waits for the retry.
-/

namespace Vibestudio.WorkspaceState

open Js Sqlite Transition

variable {t t' : AlarmTables} {k : LifecycleKey}

namespace AlarmTables

/-- The request generation `g` has been acknowledged. -/
def AcknowledgedGeneration (t : AlarmTables) (k : LifecycleKey) (g : ℕ) : Prop :=
  ∃ r, t.requests.get k = some r ∧ g ≤ r.acknowledgedGeneration

/-- The key has lost its registration, or has one that nothing has been published for: its storage
incarnation has been replaced, or it has been unregistered or retired. -/
def Unregistered (t' : AlarmTables) (k : LifecycleKey) : Prop :=
  t'.sources.get k = none ∨ ∃ incarnation generation,
    t'.sources.get k = some ⟨incarnation, generation, -1, none⟩

end AlarmTables

/-- The call records a request of the key. -/
def records (c : AlarmCall) (answer : Thrown AlarmAnswer) (k : LifecycleKey) : Bool := match c with
  | .alarmSourceRequest k' _ => decide (k' = k) && Accepted answer
  | _ => false

/-- The time that a handler of the key gives its claim back for, when its `alarmSet` is accepted. -/
def retryOf (c : AlarmCall) (answer : Thrown AlarmAnswer) (k : LifecycleKey) : Option ℕ := match c with
  | .alarmSet input => if input.key = k ∧ input.dispatchOwner.isSome = true ∧ Accepted answer = true then
      some input.wakeAt else none
  | _ => none

/-- What has been seen of requests and dispatches: the time of the next call, the times at which
requests were recorded and dispatches claimed, and the last retry of a key that has not been claimed
since. -/
structure WakeWatch where
  clock : ℕ
  recordedAt : LifecycleKey → ℕ → ℕ
  claimedAt : LifecycleKey → ℕ → ℕ
  retry : LifecycleKey → Option ℕ

structure WatchedWakes where
  tables : AlarmTables
  watch : WakeWatch

namespace WatchedWakes

def init : WatchedWakes := ⟨.empty, ⟨1, fun _ _ ↦ 0, fun _ _ ↦ 0, fun _ ↦ none⟩⟩

def observe (s : WatchedWakes) (c : AlarmCall) (t' : AlarmTables) (answer : Thrown AlarmAnswer) :
    WakeWatch where
  clock := s.watch.clock + 1
  recordedAt := fun k g ↦ if records c answer k = true ∧
    (t'.requests.get k).map RetainedWakeRequest.generation = some g then s.watch.clock
    else s.watch.recordedAt k g
  claimedAt := fun k d ↦ if d ∈ (handedOut c answer k).map DispatchClaim.generation then s.watch.clock
    else s.watch.claimedAt k d
  retry := fun k ↦ if handedOut c answer k = [] then (retryOf c answer k).or (s.watch.retry k) else none

def step (s : WatchedWakes) (c : AlarmCall) : Option WatchedWakes :=
  some ⟨(s.tables.transact c).1, s.observe c (s.tables.transact c).1 (s.tables.transact c).2⟩

end WatchedWakes

namespace AlarmTables

/-! ## The request of a key -/

/-- What an entity call leaves of the wakes of a key: all of them, or none with the registration. -/
theorem EntitySteps.wakes (h : EntitySteps t t') (k : LifecycleKey) :
    (t'.alarms.get k = t.alarms.get k ∧ t'.sources.get k = t.sources.get k ∧
        t'.requests.get k = t.requests.get k) ∨
      (t'.alarms.get k = none ∧ t'.requests.get k = none ∧ t'.Unregistered k) := by
  induction h with
  | refl => exact .inl ⟨rfl, rfl, rfl⟩
  | @tail t₁ t₂ _ hstep ih =>
    -- a step leaves the key alone or ends its registration, and what was ended before stays so
    suffices hone : (t₂.alarms.get k = t₁.alarms.get k ∧ t₂.sources.get k = t₁.sources.get k ∧
        t₂.requests.get k = t₁.requests.get k) ∨
        (t₂.alarms.get k = none ∧ t₂.requests.get k = none ∧ t₂.Unregistered k) by
      rcases hone with ⟨halarm, hsource, hrequest⟩ | hended
      · rw [Unregistered, halarm, hsource, hrequest]
        exact ih
      · exact .inr hended
    cases hstep with
    | entities | owners | leases => exact .inl ⟨rfl, rfl, rfl⟩
    | @registered k' identity hactive =>
      by_cases hk : k = k'
      · subst hk
        exact .inr ⟨Table.get_delete_self _ _, Table.get_delete_self _ _,
          .inr ⟨_, _, Table.get_set_self _ _ _⟩⟩
      · exact .inl ⟨Table.get_delete_of_ne _ hk, Table.get_set_of_ne _ hk _,
          Table.get_delete_of_ne _ hk⟩
    | unregistered k' =>
      by_cases hk : k = k'
      · subst hk
        exact .inr ⟨Table.get_delete_self _ _, Table.get_delete_self _ _,
          .inl (Table.get_delete_self _ _)⟩
      · exact .inl ⟨Table.get_delete_of_ne _ hk, Table.get_delete_of_ne _ hk,
          Table.get_delete_of_ne _ hk⟩
    | @retired _ id k' hretired =>
      rw [Unregistered, hretired.alarms, hretired.sources, hretired.requests]
      split_ifs
      · exact .inr ⟨rfl, rfl, .inl rfl⟩
      · exact .inl ⟨rfl, rfl, rfl⟩

/-- **What a call does to the request of a key.** -/
inductive RequestDone (t t' : AlarmTables) (c : AlarmCall) (answer : Thrown AlarmAnswer)
    (k : LifecycleKey) : Prop where
  | kept : t'.requests.get k = t.requests.get k → handedOut c answer k = [] →
      records c answer k = false → RequestDone t t' c answer k
  | recorded (incarnation : JsString) : t'.requests.get k = some (t.nextRequest k incarnation) →
      handedOut c answer k = [] → RequestDone t t' c answer k
  | captured (p : DispatchClaim) : handedOut c answer k = [p] → p.generation = t.lastGeneration k + 1 →
      t'.claims.get k = some p.generation → t'.requests.get k = ((t.requests.get k).map fun r ↦
        if r.generation = r.acknowledgedGeneration then r
        else { r with claim := some ⟨r.generation, p.generation⟩ }) →
      records c answer k = false → RequestDone t t' c answer k
  | acknowledged (input : AlarmCompleteInput) (r : RetainedWakeRequest) (generation : ℕ) :
      c = .alarmComplete input → input.key = k → Accepted answer = true →
      t.requests.get k = some r → r.claim = some ⟨generation, input.dispatchGeneration⟩ →
      t'.requests.get k = some ⟨r.incarnation, r.generation, generation, none⟩ →
      RequestDone t t' c answer k
  | discarded : c.ofEntities = true → t'.requests.get k = none → t'.Unregistered k →
      RequestDone t t' c answer k

/-- The deletion of a row keeps the request of a registered source. -/
theorem get_requests_clearRow (h : t.Registered) (k k' : LifecycleKey) :
    (t.clearRow k).requests.get k' = t.requests.get k' := by
  rw [(clearRow_registration t k).2]
  split_ifs with hactive
  · rfl
  · rw [Table.get_delete]
    split_ifs with hk
    · -- a request would have an active source
      subst hk
      cases hr : t.requests.get k' with
      | none => rfl
      | some r =>
        obtain ⟨s, hs, -⟩ := Option.map_eq_some_iff.mp (h.requested k' r hr)
        obtain ⟨-, e, he, -, hstatus⟩ := h.active k' s hs
        exact absurd (by rw [entityActive, he, Option.any_some, hstatus]; rfl) hactive
    · rfl

theorem handedOut_eq_nil {c : AlarmCall} (h : ∀ input, c ≠ .alarmClaimDue input)
    (answer : Thrown AlarmAnswer) (k : LifecycleKey) : handedOut c answer k = [] := by
  rw [handedOut.eq_def]
  split
  · exact absurd rfl (h _)
  · rfl

/-- What a completion schedules next leaves the request as it has been acknowledged. -/
theorem get_requests_complete {t₁ : AlarmTables} {input : AlarmCompleteInput} (h : t.Registered)
    (hack : Acknowledged t t₁ input)
    (hnext : (∃ next, input.nextAlarm = some next ∧ t' = ((t₁.schedule input.key
        next.wakeAt).setPolicy input.key next.testPolicy).ensureRequestedAlarm input.key) ∨
      (input.nextAlarm = none ∧ t' = (t₁.clearRow input.key).ensureRequestedAlarm input.key)) :
    t'.requests.get input.key = t₁.requests.get input.key := by
  -- the acknowledgement keeps the incarnation, so the tables in between are registered as well
  have hr₁ : t₁.Registered := by
    refine h.elsewhere hack.elsewhere (by rw [hack.sources]) fun r hr ↦ ?_
    obtain ⟨r₀, hr₀, hinc⟩ := hack.requested hr
    exact hinc ▸ h.requested _ r₀ hr₀
  rcases hnext with ⟨next, -, rfl⟩ | ⟨-, rfl⟩
  · have hres := ((Rescheduled.schedule t₁ input.key next.wakeAt).trans
      (.setPolicy _ input.key next.testPolicy)).trans (.ensureRequestedAlarm _ input.key)
    rw [hres.requests]
  · rw [(Rescheduled.ensureRequestedAlarm (t₁.clearRow input.key) input.key).requests,
      get_requests_clearRow hr₁]

/-- An accepted completion acknowledges the captured request, if it has one. -/
theorem complete_request {input : AlarmCompleteInput} {answer : CallStatus × Option ℕ}
    (h : t.Registered) (hcomplete : t.alarmComplete input = .ok (t', answer)) :
    RequestDone t t' (.alarmComplete input) (.ok (.status answer.1)) input.key := by
  rcases alarmComplete_cases hcomplete with ⟨-, rfl, -⟩ | ⟨haccepted, -, t₁, hack, hnext⟩
  · exact .kept rfl rfl rfl
  have hafter := get_requests_complete h hack hnext
  rw [Acknowledged] at hack
  cases hrequest : input.wakeRequest with
  | none =>
    rw [hrequest] at hack
    exact .kept (hafter.trans (congrArg (fun t : AlarmTables ↦ t.requests.get _) hack)) rfl rfl
  | some token =>
    rw [hrequest] at hack
    obtain ⟨r, hr, ⟨-, hclaim⟩, rfl⟩ := acknowledgeRequest_cases hack
    refine .acknowledged input r token.generation rfl rfl ?_ hr hclaim ?_
    · rw [haccepted]
      rfl
    · rw [hafter, setRequest, Table.get_set_self]

theorem CallDone.request {c : AlarmCall} {answer : AlarmAnswer} (hdone : CallDone t t' c answer)
    (h : t.Registered) (k : LifecycleKey) : RequestDone t t' c (.ok answer) k := by
  by_cases hclaim : ∃ input, c = .alarmClaimDue input
  · obtain ⟨input, rfl⟩ := hclaim
    cases hdone with
    | ofEntities hc => cases hc
    | @alarmClaimDue _ claims hdue =>
      obtain ⟨-, hnodup, hkeys⟩ := alarmClaimDue_cases hdue
      rcases hkeys k with ⟨hnone, huntouched⟩ | ⟨claim, hmem, a, -, -, hrow⟩
      · refine .kept huntouched.request ?_ rfl
        rw [handedOut, List.filter_eq_nil_iff.mpr fun claim hmem heq ↦
          hnone claim hmem (of_decide_eq_true heq)]
        rfl
      · refine .captured ⟨input.workerId, claim.dispatchGeneration⟩ ?_ hrow.generation hrow.counter
          hrow.request rfl
        rw [handedOut, ← hrow.key, WatchedClaims.filter_key_eq hnodup hmem]
        rfl
  have hhanded := handedOut_eq_nil (c := c) (fun input heq ↦ hclaim ⟨input, heq⟩) (.ok answer) k
  by_cases hkey : ∃ k', c.key = some k' ∧ k' ≠ k
  · obtain ⟨k', hk', hne⟩ := hkey
    refine .kept ((hdone.elsewhere hk').requests k hne.symm) hhanded ?_
    cases c with
    | alarmSourceRequest k'' incarnation =>
      obtain rfl := Option.some.inj hk'
      rw [records, decide_eq_false hne, Bool.false_and]
    | _ => rfl
  have hkey : ∀ {k'}, c.key = some k' → k' = k := fun hk' ↦ by
    by_contra hne
    exact hkey ⟨_, hk', hne⟩
  cases hdone with
  | alarmSet hset =>
    refine .kept ?_ hhanded rfl
    rcases (alarmSet_cases hset).2 with ⟨_, _, -, -, ⟨-, rfl, -⟩ | ⟨-, -, rfl⟩⟩ | ⟨-, -, -, rfl⟩
    · rfl
    · exact congrArg (·.get k) ((Rescheduled.schedule _ _ _).trans (.setPolicy _ _ _)).requests
    · exact congrArg (·.get k) (((Rescheduled.schedule _ _ _).trans
        (.ensureRequestedAlarm _ _)).trans (.setPolicy _ _ _)).requests
  | alarmClear hclear =>
    refine .kept ?_ hhanded rfl
    rcases alarmClear_cases hclear with ⟨_, _, -, -, ⟨-, rfl, -⟩ | ⟨-, -, rfl⟩⟩ | ⟨-, -, -, rfl⟩
    · rfl
    · exact get_requests_clearRow h _ k
    · exact get_requests_clearRow h _ k
  | alarmComplete hcomplete => exact hkey rfl ▸ complete_request h hcomplete
  | alarmSourcePublish hpublish =>
    refine .kept ?_ hhanded rfl
    rcases (publish_cases hpublish).2 with ⟨-, rfl⟩ | ⟨s, hs, ⟨-, -, rfl⟩ | ⟨-, -, rfl⟩⟩
    · rfl
    · exact congrArg (·.get k) (Rescheduled.applyPublication _ _ _ _).requests
    · exact congrArg (·.get k) (Rescheduled.applyPublication (t.setSource _ _) _ _ _).requests
  | @alarmSourceRequest k' incarnation status hrequest =>
    obtain rfl := hkey rfl
    rcases (request_cases hrequest).2 with ⟨rfl, rfl⟩ | ⟨rfl, -, rfl⟩
    · exact .kept rfl hhanded (by rw [records]; exact Bool.and_false _)
    · refine .recorded incarnation ?_ hhanded
      rw [(Rescheduled.ensureRequestedAlarm _ _).requests, setRequest, Table.get_set_self]
  | alarmAdoptWorker hadopt =>
    rw [(alarmAdoptWorker_cases hadopt).1]
    exact .kept rfl hhanded rfl
  | alarmClaimDue => exact absurd ⟨_, rfl⟩ hclaim
  | lifecycleLeaseUpsert heq => exact heq ▸ .kept rfl hhanded rfl
  | ofEntities hc hsteps =>
    rcases hsteps.wakes k with ⟨-, -, hrequest⟩ | ⟨-, hrequest, hended⟩
    · refine .kept hrequest hhanded ?_
      cases c with
      | alarmSourceRequest => cases hc
      | _ => rfl
    · exact .discarded hc hrequest hended
  | restart heq => exact heq ▸ .kept rfl hhanded rfl

/-! ## The row of a pending request -/

/-- A pending request has an active source. -/
theorem active_of_pending (h : t.Registered) (hpending : t.hasPendingRequest k = true) :
    (t.sources.get k).isSome = true ∧ t.Active k := by
  rw [hasPendingRequest, Option.any_eq_true] at hpending
  obtain ⟨r, hr, -⟩ := hpending
  obtain ⟨s, hs, -⟩ := Option.map_eq_some_iff.mp (h.requested k r hr)
  exact ⟨hs ▸ rfl, h.active k s hs⟩

theorem hasPendingRequest_congr {k : LifecycleKey} (h : t'.requests.get k = t.requests.get k) :
    t'.hasPendingRequest k = t.hasPendingRequest k := by
  rw [hasPendingRequest, hasPendingRequest, h]

theorem Rescheduled.hasPendingRequest (h : Rescheduled t t') (k : LifecycleKey) :
    t'.hasPendingRequest k = t.hasPendingRequest k :=
  hasPendingRequest_congr (congrArg (·.get k) h.requests)

/-- The row of the key is due at once. -/
def DueNow (t : AlarmTables) (k : LifecycleKey) : Prop := ∃ a, t.alarms.get k = some a ∧ a.wakeAt = 0

theorem dueNow_ensureRequestedAlarm
    (hpending : (t.ensureRequestedAlarm k).hasPendingRequest k = true) :
    (t.ensureRequestedAlarm k).DueNow k := by
  rw [(Rescheduled.ensureRequestedAlarm t k).hasPendingRequest] at hpending
  refine ⟨wokenRow (t.alarms.get k), ?_, ?_⟩
  · rw [get_alarms_ensureRequestedAlarm, if_pos ⟨rfl, hpending⟩]
  · cases t.alarms.get k <;> rfl

theorem DueNow.of_eq (h : t.DueNow k) (halarms : t'.alarms.get k = t.alarms.get k) : t'.DueNow k := by
  rw [DueNow, halarms]
  exact h

theorem dueNow_setPolicy {testPolicy : Option JsString} (h : t.DueNow k) :
    (t.setPolicy k testPolicy).DueNow k := by
  obtain ⟨policies, heq, -⟩ := setPolicy_eq t k testPolicy
  exact heq ▸ h.of_eq rfl

theorem dueNow_clearRow (h : t.Registered) (hpending : t.hasPendingRequest k = true) :
    (t.clearRow k).DueNow k := by
  obtain ⟨-, -, e, he, -, hstatus⟩ := active_of_pending h hpending
  have hactive : t.entityActive k = true := by rw [entityActive, he, Option.any_some, hstatus]; rfl
  obtain ⟨alarms, requests, heq, -, hkept, -⟩ := clearRow_eq t k
  rw [heq]
  exact ⟨⟨0, 0, none⟩, (hkept hactive).2.trans (if_pos hpending), rfl⟩

theorem dueNow_applyPublication {duplicate : Bool} {wakeAt : Option ℕ}
    (hpending : t.hasPendingRequest k = true) : (t.applyPublication k duplicate wakeAt).DueNow k := by
  rw [applyPublication.eq_def, if_pos hpending]
  refine dueNow_ensureRequestedAlarm ?_
  exact ((Rescheduled.ensureRequestedAlarm t k).hasPendingRequest k).trans hpending

/-- A canonical id has one row, so the repair takes no row of an active Durable Object. -/
theorem someEntity_retired_of_active (h : t.Registered) (hactive : t.Active k) :
    t.someEntity k .retired = false := by
  rw [someEntity, List.any_eq_false]
  rintro ⟨id, e⟩ hmem hretired
  obtain ⟨hkind, hstatus, hsource, hclass, hkey⟩ := of_decide_eq_true hretired
  have hidentity : e.identity = k.identity := by
    rw [EntityRow.identity, hkind, hsource, hclass, hkey]
    rfl
  have he := t.entities.mem_rows.mp hmem
  obtain ⟨rfl, -⟩ := (hidentity ▸ h.canonical id e he : CanonicalId k.identity id).eq_durableObjectId
  obtain ⟨-, e', he', -, hstatus'⟩ := hactive
  rw [Option.some.inj (he.symm.trans he'), hstatus'] at hstatus
  cases hstatus

/-- **What a call leaves of the row of a pending request**: it is due now, or claimed, or the handler
has given its claim back for a retry, or nothing has happened. -/
theorem CallDone.scheduled {c : AlarmCall} {answer : AlarmAnswer} (hdone : CallDone t t' c answer)
    (h : t.Registered) (hpending : t'.hasPendingRequest k = true) :
    t'.DueNow k ∨ (∃ a, t'.alarms.get k = some a ∧ a.dispatchOwner.isSome = true) ∨
      (∃ a, t'.alarms.get k = some a ∧ retryOf c (.ok answer) k = some a.wakeAt ∧
        handedOut c (.ok answer) k = []) ∨
      (t'.alarms.get k = t.alarms.get k ∧ t'.requests.get k = t.requests.get k ∧
        handedOut c (.ok answer) k = [] ∧ retryOf c (.ok answer) k = none) := by
  by_cases hclaim : ∃ input, c = .alarmClaimDue input
  · obtain ⟨input, rfl⟩ := hclaim
    cases hdone with
    | ofEntities hc => cases hc
    | alarmClaimDue hdue =>
      obtain ⟨-, hnodup, hkeys⟩ := alarmClaimDue_cases hdue
      rcases hkeys k with ⟨hnone, huntouched⟩ | ⟨claim, hmem, a, -, -, hrow⟩
      · refine .inr (.inr (.inr ⟨huntouched.alarm, huntouched.request, ?_, rfl⟩))
        rw [handedOut, List.filter_eq_nil_iff.mpr fun claim hmem heq ↦
          hnone claim hmem (of_decide_eq_true heq)]
        rfl
      · exact .inr (.inl ⟨_, hrow.alarm, rfl⟩)
  have hhanded := handedOut_eq_nil (c := c) (fun input heq ↦ hclaim ⟨input, heq⟩) (.ok answer) k
  by_cases hkey : ∃ k', c.key = some k' ∧ k' ≠ k
  · obtain ⟨k', hk', hne⟩ := hkey
    have helse := hdone.elsewhere hk'
    refine .inr (.inr (.inr ⟨helse.alarms k hne.symm, helse.requests k hne.symm, hhanded, ?_⟩))
    cases c with
    | alarmSet input =>
      obtain rfl := Option.some.inj hk'
      exact if_neg fun heq ↦ hne heq.1
    | _ => rfl
  have hkey : ∀ {k'}, c.key = some k' → k' = k := fun hk' ↦ by
    by_contra hne
    exact hkey ⟨_, hk', hne⟩
  cases hdone with
  | @alarmSet input status hset =>
    obtain rfl := hkey rfl
    rcases (alarmSet_cases hset).2 with ⟨owner, generation, howner, -, hcases⟩ | ⟨-, -, rfl, rfl⟩
    · rcases hcases with ⟨rfl, rfl, -⟩ | ⟨rfl, -, rfl⟩
      · refine .inr (.inr (.inr ⟨rfl, rfl, hhanded, ?_⟩))
        exact if_neg fun heq ↦ Bool.false_ne_true heq.2.2
      · -- the claim is given back, and the row keeps the time it is given back for
        obtain ⟨policies, heq, -⟩ := setPolicy_eq (t.schedule input.key input.wakeAt) input.key
          input.testPolicy
        refine .inr (.inr (.inl ⟨⟨input.wakeAt, (t.alarms.get input.key).elim 0
          AlarmRow.dispatchGeneration, none⟩, ?_, ?_, hhanded⟩))
        · rw [heq]
          exact (get_alarms_schedule t input.key input.key input.wakeAt).trans (if_pos rfl)
        · exact if_pos ⟨rfl, howner ▸ rfl, rfl⟩
    · refine .inl (dueNow_setPolicy (dueNow_ensureRequestedAlarm ?_))
      exact ((Rescheduled.setPolicy _ _ _).hasPendingRequest _).symm.trans hpending
  | @alarmClear input status hclear =>
    obtain rfl := hkey rfl
    have hcleared : t' = t.clearRow input.key → t'.DueNow input.key := by
      rintro rfl
      rw [hasPendingRequest_congr (get_requests_clearRow h _ _)] at hpending
      exact dueNow_clearRow h hpending
    rcases alarmClear_cases hclear with ⟨_, _, -, -, ⟨-, rfl, -⟩ | ⟨-, -, hcases⟩⟩ | ⟨-, -, -, hcases⟩
    · exact .inr (.inr (.inr ⟨rfl, rfl, hhanded, rfl⟩))
    · exact .inl (hcleared hcases)
    · exact .inl (hcleared hcases)
  | @alarmComplete input answer hcomplete =>
    obtain rfl := hkey rfl
    rcases alarmComplete_cases hcomplete with ⟨-, rfl, -⟩ | ⟨-, -, t₁, -, ⟨next, -, rfl⟩ | ⟨-, rfl⟩⟩
    · exact .inr (.inr (.inr ⟨rfl, rfl, hhanded, rfl⟩))
    · exact .inl (dueNow_ensureRequestedAlarm hpending)
    · exact .inl (dueNow_ensureRequestedAlarm hpending)
  | @alarmSourcePublish k' p status hpublish =>
    obtain rfl := hkey rfl
    rcases (publish_cases hpublish).2 with ⟨-, rfl⟩ | ⟨s, hs, ⟨-, -, rfl⟩ | ⟨-, -, rfl⟩⟩
    · exact .inr (.inr (.inr ⟨rfl, rfl, hhanded, rfl⟩))
    all_goals
      refine .inl (dueNow_applyPublication ?_)
      exact ((Rescheduled.applyPublication _ _ _ _).hasPendingRequest _).symm.trans hpending
  | @alarmSourceRequest k' incarnation status hrequest =>
    obtain rfl := hkey rfl
    rcases (request_cases hrequest).2 with ⟨-, rfl⟩ | ⟨-, -, rfl⟩
    · exact .inr (.inr (.inr ⟨rfl, rfl, hhanded, rfl⟩))
    · exact .inl (dueNow_ensureRequestedAlarm hpending)
  | alarmAdoptWorker hadopt =>
    obtain ⟨heq, hrows⟩ := alarmAdoptWorker_cases hadopt
    rw [heq] at hpending
    obtain ⟨hsource, -, e, he, -, hstatus⟩ := active_of_pending (t := t) h hpending
    have hactive : t.entityActive k = true := by
      rw [entityActive, he, Option.any_some, hstatus]
      rfl
    refine .inl ⟨{ wokenRow (t.alarms.get k) with dispatchOwner := none }, ?_, ?_⟩
    · rw [hrows, if_pos ⟨hsource, hactive⟩]
    · cases t.alarms.get k <;> rfl
  | alarmClaimDue => exact absurd ⟨_, rfl⟩ hclaim
  | lifecycleLeaseUpsert heq => exact heq ▸ .inr (.inr (.inr ⟨rfl, rfl, hhanded, rfl⟩))
  | ofEntities hc hsteps =>
    rcases hsteps.wakes k with ⟨halarm, -, hrequest⟩ | ⟨-, hrequest, -⟩
    · refine .inr (.inr (.inr ⟨halarm, hrequest, hhanded, ?_⟩))
      cases c with
      | alarmSet => cases hc
      | _ => rfl
    · rw [hasPendingRequest, hrequest] at hpending
      cases hpending
  | restart heq =>
    subst heq
    refine .inr (.inr (.inr ⟨?_, rfl, hhanded, rfl⟩))
    have hnone := someEntity_retired_of_active h (active_of_pending (t := t) h hpending).2
    refine (Table.get_deleteWhere _ _ _).trans ?_
    cases t.alarms.get k with
    | none => rfl
    | some a => rw [Option.filter_some, hnone]; rfl

/-- A counter of claims is never taken back. -/
theorem CallDone.counter_le {c : AlarmCall} {answer : AlarmAnswer} (hdone : CallDone t t' c answer)
    (k : LifecycleKey) : (t.claims.get k).getD 0 ≤ (t'.claims.get k).getD 0 := by
  by_cases hclaim : ∃ input, c = .alarmClaimDue input
  · obtain ⟨input, rfl⟩ := hclaim
    cases hdone with
    | ofEntities hc => exact nomatch hc
    | alarmClaimDue hdue =>
      obtain ⟨-, -, hkeys⟩ := alarmClaimDue_cases hdue
      rcases hkeys k with ⟨-, huntouched⟩ | ⟨claim, -, a, -, -, hrow⟩
      · rw [huntouched.counter]
      · have hlast : (t.claims.get k).getD 0 ≤ t.lastGeneration k := le_max_left _ _
        rw [hrow.counter, Option.getD_some, hrow.generation]
        omega
  · rw [(hdone.relinquished fun input heq ↦ hclaim ⟨input, heq⟩).counters]

end AlarmTables

namespace WatchedWakes

open AlarmTables

/-- What has been seen of a request: the requests that a dispatch has captured were recorded before
it was claimed. -/
def Seen (w : WakeWatch) (counter : ℕ) (k : LifecycleKey) (r : RetainedWakeRequest) : Prop :=
  ∀ p, r.claim = some p → p.generation ≤ r.generation ∧ p.dispatchGeneration ≤ counter ∧
    ∀ g ≤ p.generation, w.recordedAt k g < w.claimedAt k p.dispatchGeneration

/-- A later watch that has seen nothing else of these requests and dispatches. -/
theorem Seen.later {w w' : WakeWatch} {counter counter' : ℕ} {r r' : RetainedWakeRequest}
    (h : Seen w counter k r) (hcounter : counter ≤ counter') (hclaim : r'.claim = r.claim)
    (hgeneration : r.generation ≤ r'.generation)
    (hrecorded : ∀ g ≤ r.generation, w'.recordedAt k g = w.recordedAt k g)
    (hclaimed : ∀ d ≤ counter, w'.claimedAt k d = w.claimedAt k d) : Seen w' counter' k r' := by
  intro p hp
  obtain ⟨hle, hdispatch, hbefore⟩ := h p (hclaim ▸ hp)
  refine ⟨hle.trans hgeneration, hdispatch.trans hcounter, fun g hg ↦ ?_⟩
  rw [hrecorded g (hg.trans hle), hclaimed _ hdispatch]
  exact hbefore g hg

/-- The row of a pending request: due now, claimed, or waiting for its retry. -/
def Scheduled (s : WatchedWakes) (k : LifecycleKey) : Prop :=
  ∃ a, s.tables.alarms.get k = some a ∧ (a.wakeAt = 0 ∨ a.dispatchOwner.isSome = true ∨
    s.watch.retry k = some a.wakeAt)

structure Kept (s : WatchedWakes) (k : LifecycleKey) : Prop where
  recorded : ∀ g, s.watch.recordedAt k g < s.watch.clock
  request : ∀ r, s.tables.requests.get k = some r →
    Seen s.watch ((s.tables.claims.get k).getD 0) k r
  row : s.tables.hasPendingRequest k = true → s.Scheduled k

theorem Kept.init (k : LifecycleKey) : WatchedWakes.init.Kept k where
  recorded := fun _ ↦ Nat.zero_lt_one
  request := fun _ hr ↦ nomatch hr
  row := fun hp ↦ nomatch hp

variable {s : WatchedWakes} {c : AlarmCall} {answer : Thrown AlarmAnswer}

theorem recordedAt_observe (hrecords : records c answer k = false) (g : ℕ) :
    (s.observe c t' answer).recordedAt k g = s.watch.recordedAt k g :=
  if_neg fun h ↦ Bool.false_ne_true (hrecords.symm.trans h.1)

theorem claimedAt_observe (hhanded : handedOut c answer k = []) (d : ℕ) :
    (s.observe c t' answer).claimedAt k d = s.watch.claimedAt k d := by
  refine if_neg ?_
  rw [hhanded]
  exact List.not_mem_nil

theorem retry_observe (hhanded : handedOut c answer k = []) :
    (s.observe c t' answer).retry k = (retryOf c answer k).or (s.watch.retry k) :=
  if_pos hhanded

theorem Kept.recorded_step (h : s.Kept k) (g : ℕ) :
    (s.observe c t' answer).recordedAt k g < (s.observe c t' answer).clock := by
  simp only [observe]
  split_ifs
  · exact Nat.lt_succ_self _
  · exact (h.recorded g).trans (Nat.lt_succ_self _)

/-- **Captured requests were recorded before**, after any call. -/
theorem Kept.request_step (h : s.Kept k) (hcounter : (s.tables.claims.get k).getD 0 ≤
      (t'.claims.get k).getD 0) (hrequest : RequestDone s.tables t' c answer k)
    {r' : RetainedWakeRequest} (hr' : t'.requests.get k = some r') :
    Seen (s.observe c t' answer) ((t'.claims.get k).getD 0) k r' := by
  cases hrequest with
  | kept hsame hhanded hrecords =>
    exact (h.request r' (hsame ▸ hr')).later hcounter rfl le_rfl
      (fun g _ ↦ recordedAt_observe hrecords g) fun d _ ↦ claimedAt_observe hhanded d
  | recorded incarnation hnext hhanded =>
    obtain rfl := Option.some.inj (hnext.symm.trans hr')
    cases hr : s.tables.requests.get k with
    | none =>
      intro p hp
      rw [nextRequest, hr] at hp
      cases hp
    | some r =>
      refine (h.request r hr).later hcounter ?_ ?_ (fun g hg ↦ ?_) fun d _ ↦
        claimedAt_observe hhanded d
      · simp only [nextRequest, hr, Option.bind_some]
      · simp only [nextRequest, hr, Option.elim_some, Nat.le_succ]
      · -- the generation that is recorded now is the next one
        refine if_neg fun hnow ↦ ?_
        have hg' := hnow.2
        rw [hr', Option.map_some, Option.some.injEq] at hg'
        simp only [nextRequest, hr, Option.elim_some] at hg'
        omega
  | captured p hhanded hgeneration hnew hmap hrecords =>
    have hlast : (s.tables.claims.get k).getD 0 ≤ s.tables.lastGeneration k := le_max_left _ _
    obtain ⟨r, hr, rfl⟩ := Option.map_eq_some_iff.mp (hmap.symm.trans hr')
    have hold : ∀ d ≤ (s.tables.claims.get k).getD 0,
        (s.observe c t' answer).claimedAt k d = s.watch.claimedAt k d := by
      refine fun d hd ↦ if_neg ?_
      rw [hhanded, List.map_singleton, List.mem_singleton, hgeneration]
      omega
    split_ifs with hpending
    · exact (h.request r hr).later hcounter rfl le_rfl (fun g _ ↦ recordedAt_observe hrecords g) hold
    · intro q hq
      obtain rfl := Option.some.inj hq
      refine ⟨le_rfl, ?_, fun g _ ↦ ?_⟩
      · rw [hnew, Option.getD_some]
      · rw [recordedAt_observe hrecords]
        refine (h.recorded g).trans_eq (if_pos ?_).symm
        rw [hhanded]
        exact List.mem_singleton.mpr rfl
  | acknowledged input r generation _ _ _ _ _ hafter =>
    obtain rfl := Option.some.inj (hafter.symm.trans hr')
    rintro _ ⟨⟩
  | discarded _ hnone _ => cases hnone.symm.trans hr'

theorem Kept.step {s s' : WatchedWakes} (hr : s.tables.Registered) (h : s.Kept k)
    (hstep : s.step c = some s') : s'.Kept k := by
  obtain rfl := Option.some.inj hstep
  rcases transact_cases s.tables c with ⟨e, heq⟩ | ⟨t', answer, heq, hdone⟩
  · rw [heq]
    have hquiet : handedOut c (.error e) k = [] ∧ records c (.error e) k = false ∧
        retryOf c (.error e) k = none := by
      cases c <;> simp [handedOut, records, retryOf, Accepted]
    obtain ⟨hhanded, hrecords, hretry⟩ := hquiet
    refine ⟨h.recorded_step, fun r' hr' ↦ ?_, fun hpending ↦ ?_⟩
    · exact h.request_step le_rfl (.kept rfl hhanded hrecords) hr'
    · obtain ⟨a, ha, hwake⟩ := h.row hpending
      refine ⟨a, ha, ?_⟩
      rw [retry_observe hhanded, hretry, Option.none_or]
      exact hwake
  rw [heq]
  refine ⟨h.recorded_step, fun r' hr' ↦ ?_, fun hpending ↦ ?_⟩
  · exact h.request_step (hdone.counter_le k) (hdone.request hr k) hr'
  rcases hdone.scheduled hr hpending with ⟨a, ha, hnow⟩ | ⟨a, ha, howner⟩ |
    ⟨a, ha, hretry, hhanded⟩ | ⟨halarm, hrequest, hhanded, hretry⟩
  · exact ⟨a, ha, .inl hnow⟩
  · exact ⟨a, ha, .inr (.inl howner)⟩
  · refine ⟨a, ha, .inr (.inr ?_)⟩
    rw [retry_observe hhanded, hretry, Option.some_or]
  · obtain ⟨a, ha, hwake⟩ := h.row ((hasPendingRequest_congr hrequest) ▸ hpending)
    refine ⟨a, halarm.trans ha, ?_⟩
    rw [retry_observe hhanded, hretry, Option.none_or]
    exact hwake

theorem Reachable.kept {s : WatchedWakes} (h : Reachable WatchedWakes.step anyStep .init s) :
    s.tables.Registered ∧ ∀ k, s.Kept k := by
  refine h.invariant (I := fun s ↦ s.tables.Registered ∧ ∀ k, s.Kept k) ⟨.empty, Kept.init⟩ ?_
  rintro s s' c ⟨hr, hkept⟩ - hstep
  refine ⟨?_, fun k ↦ (hkept k).step hr hstep⟩
  obtain rfl := Option.some.inj hstep
  exact transact_registered hr c

/-- The fate of a pending request in a call. -/
def Settled (s : WatchedWakes) (c : AlarmCall) (k : LifecycleKey) (g : ℕ) : Prop :=
  ((s.tables.transact c).1.AcknowledgedGeneration k g ∧ ∃ input, c = .alarmComplete input ∧
      input.key = k ∧ Accepted (s.tables.transact c).2 = true ∧
      s.watch.recordedAt k g < s.watch.claimedAt k input.dispatchGeneration) ∨
    (c.ofEntities = true ∧ (s.tables.transact c).1.requests.get k = none ∧
      (s.tables.transact c).1.Unregistered k)

end WatchedWakes

/-! ### A request during a dispatch -/

/-- The completion of the dispatch, which acknowledges the first request. -/
def acknowledgement : AlarmCompleteInput :=
  ⟨exampleKey, exampleWorker, 1, some ⟨lit "i", 1⟩, none⟩

end Vibestudio.WorkspaceState

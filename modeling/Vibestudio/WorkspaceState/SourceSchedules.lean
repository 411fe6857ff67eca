import Mathlib
import Vibestudio.WorkspaceState.WakeRequests

/-!
# Published schedules

A source publishes the time of its next wake. An accepted publication releases the claim of a running
dispatch, so that the handler's completion cannot take the new schedule away; but not while a request
is pending, and then the completion of the earlier dispatch decides. `erases` says exactly which
completions of earlier dispatches take a publication in force away.
-/

namespace Vibestudio.WorkspaceState

open Js Sqlite Transition

variable {t t' : AlarmTables} {k : LifecycleKey}

/-- An accepted publication of a wake, with the time it was accepted at. -/
structure PublishedWake where
  wakeAt : ℕ
  acceptedAt : ℕ
  deriving DecidableEq

/-- What has been seen of publications and dispatches: the time of the next call, the times at which
dispatches were claimed, and the publication in force for each key. -/
structure SourceWatch where
  clock : ℕ
  claimedAt : LifecycleKey → ℕ → ℕ
  inForce : LifecycleKey → Option PublishedWake

structure WatchedSources where
  tables : AlarmTables
  watch : SourceWatch

/-- The wake of an accepted publication of the key. -/
def acceptedWake (c : AlarmCall) (answer : Thrown AlarmAnswer) (k : LifecycleKey) :
    Option (Option ℕ) := match c, answer with
  | .alarmSourcePublish k' p, .ok (.published .accepted) => if k' = k then some p.wakeAt else none
  | _, _ => none

/-- The key has no source, or one that nothing has been published for. -/
def AlarmTables.unpublished (t : AlarmTables) (k : LifecycleKey) : Bool :=
  (t.sources.get k).all fun s ↦ decide (s.revision = -1)

namespace WatchedSources

def init : WatchedSources := ⟨.empty, ⟨1, fun _ _ ↦ 0, fun _ ↦ none⟩⟩

/-- The dispatch was claimed after the publication. -/
def claimedAfter (s : WatchedSources) (k : LifecycleKey) (generation : ℕ) (p : PublishedWake) : Bool :=
  decide (p.acceptedAt < s.watch.claimedAt k generation)

/-- An accepted call that ends a publication in force: an explicit clear, the completion of a dispatch
that was claimed after it, or an alarm past its time that is not set by an earlier dispatch. -/
def ends (s : WatchedSources) (c : AlarmCall) (k : LifecycleKey) (p : PublishedWake) : Bool :=
  match c with
  | .alarmClear input => decide (input.key = k)
  | .alarmComplete input => decide (input.key = k) && s.claimedAfter k input.dispatchGeneration p
  | .alarmSet input => decide (input.key = k) && decide (p.wakeAt < input.wakeAt) &&
      input.dispatchGeneration.all fun generation ↦ s.claimedAfter k generation p
  | _ => false

/-- The publication in force after a call. -/
def inForceAfter (s : WatchedSources) (c : AlarmCall) (t' : AlarmTables) (answer : Thrown AlarmAnswer)
    (k : LifecycleKey) : Option PublishedWake := match acceptedWake c answer k with
  | some wakeAt => wakeAt.map fun wakeAt ↦ ⟨wakeAt, s.watch.clock⟩
  | none => (s.watch.inForce k).filter fun p ↦
      !(t'.unpublished k || (Accepted answer && s.ends c k p))

def observe (s : WatchedSources) (c : AlarmCall) (t' : AlarmTables) (answer : Thrown AlarmAnswer) :
    SourceWatch where
  clock := s.watch.clock + 1
  claimedAt := fun k d ↦ if d ∈ (handedOut c answer k).map DispatchClaim.generation then s.watch.clock
    else s.watch.claimedAt k d
  inForce := s.inForceAfter c t' answer

def step (s : WatchedSources) (c : AlarmCall) : Option WatchedSources :=
  some ⟨(s.tables.transact c).1, s.observe c (s.tables.transact c).1 (s.tables.transact c).2⟩

end WatchedSources

/-- The completion of a claimed dispatch is one that leaves no request pending: it acknowledges what
it has captured, if anything, and nothing was requested since. -/
def AlarmCompleteInput.leavesNoRequest (input : AlarmCompleteInput) (t : AlarmTables) : Bool :=
  match input.wakeRequest with
  | none => !t.hasPendingRequest input.key
  | some token => (t.requests.get input.key).any fun r ↦ decide (token.incarnation = r.incarnation ∧
      r.claim = some ⟨token.generation, input.dispatchGeneration⟩ ∧ r.generation ≤ token.generation)

namespace WatchedSources

/-- A dispatch that was claimed before the publication in force, and whose claim is live, schedules a
later time than the published one, or none, with no request left that would wake the key. -/
def erases (s : WatchedSources) (c : AlarmCall) : Bool := match c with
  | .alarmComplete input => (s.watch.inForce input.key).any fun p ↦
      s.tables.ownedBy input.key input.dispatchOwner input.dispatchGeneration &&
        !s.claimedAfter input.key input.dispatchGeneration p && input.leavesNoRequest s.tables &&
        !input.nextAlarm.any fun next ↦ decide (next.wakeAt ≤ p.wakeAt)
  | .alarmSet input => match input.dispatchOwner, input.dispatchGeneration with
    | some owner, some generation => (s.watch.inForce input.key).any fun p ↦
        s.tables.ownedBy input.key owner generation && !s.claimedAfter input.key generation p &&
          decide (p.wakeAt < input.wakeAt)
    | _, _ => false
  | _ => false

/-- The condition on a call. -/
def keepsSchedule (s : WatchedSources) (c : AlarmCall) : Bool := !s.erases c

end WatchedSources

namespace AlarmTables

/-- The row of the key is due no later than `wakeAt`. -/
def DueBy (t : AlarmTables) (k : LifecycleKey) (wakeAt : ℕ) : Prop :=
  ∃ a, t.alarms.get k = some a ∧ a.wakeAt ≤ wakeAt

variable {wakeAt : ℕ}

theorem DueBy.of_eq (h : t.DueBy k wakeAt) (halarm : t'.alarms.get k = t.alarms.get k) :
    t'.DueBy k wakeAt := by
  rw [DueBy, halarm]
  exact h

theorem DueNow.dueBy (h : t.DueNow k) (wakeAt : ℕ) : t.DueBy k wakeAt := by
  obtain ⟨a, ha, hnow⟩ := h
  exact ⟨a, ha, hnow ▸ Nat.zero_le wakeAt⟩

theorem wakeAt_wokenRow (row : Option AlarmRow) : (wokenRow row).wakeAt = 0 := by
  cases row <;> rfl

theorem DueBy.ensureRequestedAlarm (h : t.DueBy k wakeAt) : (t.ensureRequestedAlarm k).DueBy k wakeAt := by
  rw [DueBy, get_alarms_ensureRequestedAlarm]
  split_ifs
  · exact ⟨_, rfl, wakeAt_wokenRow _ ▸ Nat.zero_le _⟩
  · exact h

theorem DueBy.setPolicy (h : t.DueBy k wakeAt) (testPolicy : Option JsString) :
    (t.setPolicy k testPolicy).DueBy k wakeAt := by
  obtain ⟨policies, heq, -⟩ := setPolicy_eq t k testPolicy
  exact heq ▸ h.of_eq rfl

theorem dueBy_schedule (t : AlarmTables) (k : LifecycleKey) {time wakeAt : ℕ} (h : time ≤ wakeAt) :
    (t.schedule k time).DueBy k wakeAt :=
  ⟨_, (get_alarms_schedule t k k time).trans (if_pos rfl), h⟩

/-- A publication of a wake: its own, or a repeated one on a row that is due by it. -/
theorem dueBy_applyPublication {duplicate : Bool} (h : duplicate = true → t.DueBy k wakeAt) :
    (t.applyPublication k duplicate (some wakeAt)).DueBy k wakeAt := by
  rw [applyPublication.eq_def]
  split_ifs with hpending hduplicate
  · refine ⟨wokenRow (t.alarms.get k), ?_, wakeAt_wokenRow _ ▸ Nat.zero_le _⟩
    rw [get_alarms_ensureRequestedAlarm, if_pos ⟨rfl, hpending⟩]
  · obtain ⟨a, ha, hle⟩ := h hduplicate
    simp only [ha]
    exact ⟨a, ha, hle⟩
  · exact dueBy_schedule t k le_rfl

theorem hasPendingRequest_setRequest (t : AlarmTables) (k : LifecycleKey) (r : RetainedWakeRequest) :
    (t.setRequest k r).hasPendingRequest k = decide (r.acknowledgedGeneration < r.generation) := by
  rw [hasPendingRequest, setRequest, Table.get_set_self, Option.any_some]

/-- A completion that leaves a request pending leaves the key due now. -/
theorem dueNow_complete {t₁ : AlarmTables} {input : AlarmCompleteInput} (h : t.Registered)
    (hack : Acknowledged t t₁ input)
    (hnext : (∃ next, input.nextAlarm = some next ∧ t' = ((t₁.schedule input.key
        next.wakeAt).setPolicy input.key next.testPolicy).ensureRequestedAlarm input.key) ∨
      (input.nextAlarm = none ∧ t' = (t₁.clearRow input.key).ensureRequestedAlarm input.key))
    (hleaves : input.leavesNoRequest t = false) : t'.DueNow input.key := by
  have hpending : t'.hasPendingRequest input.key = true := by
    rw [hasPendingRequest_congr (get_requests_complete h hack hnext)]
    rw [Acknowledged] at hack
    rw [AlarmCompleteInput.leavesNoRequest.eq_def] at hleaves
    cases hrequest : input.wakeRequest with
    | none =>
      simp only [hrequest] at hack hleaves
      rw [hack]
      simpa using hleaves
    | some token =>
      simp only [hrequest] at hack hleaves
      obtain ⟨r, hr, hclaim, rfl⟩ := acknowledgeRequest_cases hack
      rw [hr, Option.any_some, decide_eq_false_iff_not] at hleaves
      rw [hasPendingRequest_setRequest, decide_eq_true_eq]
      exact not_le.mp fun hle ↦ hleaves ⟨hclaim.1, hclaim.2, hle⟩
  rcases hnext with ⟨next, -, rfl⟩ | ⟨-, rfl⟩
  · exact dueNow_ensureRequestedAlarm hpending
  · exact dueNow_ensureRequestedAlarm hpending

/-- A call that is no accepted publication of the key leaves its source, or ends its registration. -/
theorem CallDone.source {c : AlarmCall} {answer : AlarmAnswer} (hdone : CallDone t t' c answer)
    (hpublished : acceptedWake c (.ok answer) k = none) (hkept : t'.unpublished k = false) :
    t'.sources.get k = t.sources.get k := by
  by_cases hkey : ∃ k', c.key = some k' ∧ k' ≠ k
  · obtain ⟨k', hk', hne⟩ := hkey
    exact (hdone.elsewhere hk').sources k hne.symm
  have hkey : ∀ {k'}, c.key = some k' → k' = k := fun hk' ↦ by
    by_contra hne
    exact hkey ⟨_, hk', hne⟩
  cases hdone with
  | alarmSet hset =>
    rcases (alarmSet_cases hset).2 with ⟨_, _, -, -, ⟨-, rfl, -⟩ | ⟨-, -, rfl⟩⟩ | ⟨-, -, -, rfl⟩
    · rfl
    · exact congrArg (·.get k) ((Rescheduled.schedule _ _ _).trans (.setPolicy _ _ _)).sources
    · exact congrArg (·.get k) (((Rescheduled.schedule _ _ _).trans
        (.ensureRequestedAlarm _ _)).trans (.setPolicy _ _ _)).sources
  | alarmClear hclear =>
    rcases alarmClear_cases hclear with ⟨_, _, -, -, ⟨-, rfl, -⟩ | ⟨-, -, rfl⟩⟩ | ⟨-, -, -, rfl⟩
    · rfl
    · exact congrArg (·.get k) (clearRow_registration _ _).1
    · exact congrArg (·.get k) (clearRow_registration _ _).1
  | @alarmComplete input _ hcomplete =>
    rcases alarmComplete_cases hcomplete with ⟨-, rfl, -⟩ | ⟨-, -, t₁, hack, ⟨_, -, rfl⟩ | ⟨-, rfl⟩⟩
    · rfl
    · rw [← hack.sources]
      exact congrArg (·.get k) (((Rescheduled.schedule _ _ _).trans (.setPolicy _ _ _)).trans
        (.ensureRequestedAlarm _ _)).sources
    · rw [← hack.sources, (Rescheduled.ensureRequestedAlarm _ _).sources, (clearRow_registration _ _).1]
  | @alarmSourcePublish k' p status hpublish =>
    obtain rfl := hkey rfl
    rcases (publish_cases hpublish).2 with ⟨-, rfl⟩ | ⟨s, hs, ⟨-, -, rfl⟩ | ⟨rfl, -, rfl⟩⟩
    · rfl
    · rw [(Rescheduled.applyPublication _ _ _ _).sources]
    · simp [acceptedWake] at hpublished
  | alarmSourceRequest hrequest =>
    rcases (request_cases hrequest).2 with ⟨-, rfl⟩ | ⟨-, -, rfl⟩
    · rfl
    · exact congrArg (·.get k) (Rescheduled.ensureRequestedAlarm (t.setRequest _ _) _).sources
  | alarmAdoptWorker hadopt => rw [(alarmAdoptWorker_cases hadopt).1]
  | alarmClaimDue hdue => rw [(alarmClaimDue_cases hdue).1.sources]
  | lifecycleLeaseUpsert heq => rw [heq]
  | ofEntities hc hsteps =>
    rcases hsteps.wakes k with ⟨-, hsource, -⟩ | ⟨-, -, hended⟩
    · exact hsource
    · rw [unpublished] at hkept
      rcases hended with hnone | ⟨_, _, hfresh⟩
      · rw [hnone] at hkept
        exact nomatch hkept
      · rw [hfresh] at hkept
        exact nomatch hkept
  | restart heq => exact heq ▸ rfl

end AlarmTables

namespace WatchedSources

open AlarmTables

/-- What holds of a publication in force. -/
def Good (s : WatchedSources) (k : LifecycleKey) : Prop := ∀ p, s.watch.inForce k = some p →
  ((s.tables.sources.get k).bind RegisteredWake.wakeAt = some p.wakeAt) ∧
    s.tables.DueBy k p.wakeAt

variable {s : WatchedSources} {c : AlarmCall} {answer : AlarmAnswer} {p : PublishedWake}

/-- **A call that does not end the publication** leaves the key due by it. -/
theorem dueBy_step (hr : s.tables.Registered) (hforce : s.watch.inForce k = some p)
    (hsource : (s.tables.sources.get k).bind RegisteredWake.wakeAt = some p.wakeAt)
    (hdue : s.tables.DueBy k p.wakeAt) (hdone : CallDone s.tables t' c answer)
    (hpublished : acceptedWake c (.ok answer) k = none) (hkept : t'.unpublished k = false)
    (hends : (Accepted (.ok answer) && s.ends c k p) = false) (hkeeps : s.keepsSchedule c = true) :
    t'.DueBy k p.wakeAt := by
  by_cases hkey : ∃ k', c.key = some k' ∧ k' ≠ k
  · obtain ⟨k', hk', hne⟩ := hkey
    exact hdue.of_eq ((hdone.elsewhere hk').alarms k hne.symm)
  have hkey : ∀ {k'}, c.key = some k' → k' = k := fun hk' ↦ by
    by_contra hne
    exact hkey ⟨_, hk', hne⟩
  rw [keepsSchedule, Bool.not_eq_true'] at hkeeps
  cases hdone with
  | @alarmSet input status hset =>
    obtain rfl := hkey rfl
    rcases (alarmSet_cases hset).2 with ⟨owner, generation, howner, hgeneration, hcases⟩ |
      ⟨-, hgeneration, rfl, rfl⟩
    · rcases hcases with ⟨-, rfl, -⟩ | ⟨rfl, howned, rfl⟩
      · exact hdue
      · refine DueBy.setPolicy (dueBy_schedule _ _ ?_) _
        by_contra hlater
        rw [not_le] at hlater
        -- later than the published time: an earlier dispatch erases it, and a later one ends it
        have hclaimed : s.claimedAfter input.key generation p = true := by
          simpa [erases, howner, hgeneration, hforce, howned, hlater] using hkeeps
        simp [Accepted, ends, hgeneration, hclaimed, hlater] at hends
    · refine (dueBy_schedule _ _ ?_).ensureRequestedAlarm.setPolicy _
      by_contra hlater
      simp [Accepted, ends, hgeneration, not_le.mp hlater] at hends
  | @alarmClear input status hclear =>
    obtain rfl := hkey rfl
    rcases alarmClear_cases hclear with ⟨_, _, -, -, ⟨-, rfl, -⟩ | ⟨rfl, -, rfl⟩⟩ | ⟨-, -, rfl, rfl⟩
    · exact hdue
    · simp [Accepted, ends] at hends
    · simp [Accepted, ends] at hends
  | @alarmComplete input answer hcomplete =>
    obtain rfl := hkey rfl
    rcases alarmComplete_cases hcomplete with ⟨-, rfl, -⟩ | ⟨haccepted, howned, t₁, hack, hnext⟩
    · exact hdue
    have hearlier : s.claimedAfter input.key input.dispatchGeneration p = false := by
      simpa [Accepted, ends, haccepted] using hends
    cases hleaves : input.leavesNoRequest s.tables with
    | false => exact (dueNow_complete hr hack hnext hleaves).dueBy _
    | true =>
      have hwake : input.nextAlarm.any (fun next ↦ decide (next.wakeAt ≤ p.wakeAt)) = true := by
        simpa [erases, hforce, howned, hearlier, hleaves] using hkeeps
      obtain ⟨next, halarm, hle⟩ := (Option.any_eq_true _ _).mp hwake
      rw [decide_eq_true_eq] at hle
      rcases hnext with ⟨next', halarm', rfl⟩ | ⟨hnone, -⟩
      · obtain rfl := Option.some.inj (halarm.symm.trans halarm')
        exact ((dueBy_schedule t₁ _ hle).setPolicy _).ensureRequestedAlarm
      · cases halarm.symm.trans hnone
  | @alarmSourcePublish k' q status hpublish =>
    obtain rfl := hkey rfl
    rcases (publish_cases hpublish).2 with ⟨-, rfl⟩ | ⟨src, hsrc, ⟨-, hwake, rfl⟩ | ⟨rfl, -, rfl⟩⟩
    · exact hdue
    · -- a repeated publication is the one in force
      rw [hsrc, Option.bind_some] at hsource
      rw [hwake, hsource]
      exact dueBy_applyPublication fun _ ↦ hdue
    · simp [acceptedWake] at hpublished
  | @alarmSourceRequest k' incarnation status hrequest =>
    obtain rfl := hkey rfl
    rcases (request_cases hrequest).2 with ⟨-, rfl⟩ | ⟨-, -, rfl⟩
    · exact hdue
    · exact (hdue.of_eq rfl : (s.tables.setRequest _ _).DueBy _ _).ensureRequestedAlarm
  | alarmAdoptWorker hadopt =>
    obtain ⟨a, ha, hle⟩ := hdue
    rw [DueBy, (alarmAdoptWorker_cases hadopt).2]
    split_ifs
    · exact ⟨_, rfl, wakeAt_wokenRow _ ▸ Nat.zero_le _⟩
    · exact ⟨{ a with dispatchOwner := none }, by rw [ha, Option.map_some], hle⟩
  | alarmClaimDue hdue' =>
    obtain ⟨a, ha, hle⟩ := hdue
    rcases (alarmClaimDue_cases hdue').2.2 k with ⟨-, huntouched⟩ | ⟨claim, -, a', ha', -, hrow⟩
    · exact ⟨a, huntouched.alarm.trans ha, hle⟩
    · obtain rfl := Option.some.inj (ha.symm.trans ha')
      exact ⟨_, hrow.alarm, hle⟩
  | lifecycleLeaseUpsert heq => exact hdue.of_eq (by rw [heq])
  | ofEntities hc hsteps =>
    rcases hsteps.wakes k with ⟨halarm, -, -⟩ | ⟨-, -, hended⟩
    · exact hdue.of_eq halarm
    · rw [unpublished] at hkept
      rcases hended with hnone | ⟨_, _, hfresh⟩
      · rw [hnone] at hkept
        cases hkept
      · rw [hfresh] at hkept
        cases hkept
  | restart heq =>
    obtain ⟨src, hsrc, -⟩ := Option.bind_eq_some_iff.mp hsource
    obtain ⟨a, ha, hle⟩ := hdue
    have hnone := someEntity_retired_of_active hr (hr.active k src hsrc)
    subst heq
    refine ⟨a, (Table.get_deleteWhere _ _ _).trans ?_, hle⟩
    rw [ha, Option.filter_some, hnone]
    rfl

theorem Good.step {s s' : WatchedSources} (hr : s.tables.Registered) (h : s.Good k)
    (hkeeps : s.keepsSchedule c = true) (hstep : s.step c = some s') : s'.Good k := by
  obtain rfl := Option.some.inj hstep
  intro p hp
  rcases transact_cases s.tables c with ⟨e, heq⟩ | ⟨t', answer, heq, hdone⟩
  · rw [heq] at hp ⊢
    -- a call that throws publishes nothing
    have hpublished : acceptedWake c (.error e) k = none := by cases c <;> rfl
    simp only [observe, inForceAfter, hpublished, Option.filter_eq_some_iff] at hp
    exact h p hp.1
  rw [heq] at hp ⊢
  cases hpublished : acceptedWake c (.ok answer) k with
  | none =>
    simp only [observe, inForceAfter, hpublished, Option.filter_eq_some_iff, Bool.not_eq_true',
      Bool.or_eq_false_iff] at hp
    obtain ⟨hforce, hkept, hends⟩ := hp
    obtain ⟨hsource, hdue⟩ := h p hforce
    refine ⟨?_, dueBy_step hr hforce hsource hdue hdone hpublished hkept hends hkeeps⟩
    rw [hdone.source hpublished hkept]
    exact hsource
  | some wakeAt =>
    simp only [observe, inForceAfter, hpublished] at hp
    obtain ⟨wakeAt, rfl, rfl⟩ := Option.map_eq_some_iff.mp hp
    cases hdone with
    | ofEntities => cases c <;> simp [acceptedWake] at hpublished
    | @alarmSourcePublish k' q status hpublish =>
      rcases (publish_cases hpublish).2 with ⟨rfl, -⟩ | ⟨src, hsrc, ⟨rfl, -⟩ | ⟨rfl, -, rfl⟩⟩
      · cases hpublished
      · cases hpublished
      simp only [acceptedWake] at hpublished
      split_ifs at hpublished with hk
      subst hk
      rw [Option.some.inj hpublished]
      refine ⟨?_, dueBy_applyPublication (by rintro ⟨⟩)⟩
      rw [(Rescheduled.applyPublication _ _ _ _).sources, setSource, Table.get_set_self,
        Option.bind_some]
    | _ => cases hpublished

end WatchedSources

/-! ### A publication during a dispatch -/

end Vibestudio.WorkspaceState

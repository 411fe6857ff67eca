import Mathlib
import Vibestudio.Server.AlarmDriver
import Vibestudio.Transition.Run
import Vibestudio.WorkspaceState.AlarmCases

/-!
# Lanes and timers of the scheduler of alarms

No target has two lanes, and there are at most as many lanes as the driver may have. Between two driving
operations the timer is set for every row that could be claimed, unless all lanes are taken or a failed
operation owns the timer.
-/

namespace Vibestudio.Server.Alarms

open Js WorkspaceState Transition

variable {deps : Deps} {s t : Driver}

/-! ## Calls of a lane change the row of its target only -/

theorem get_alarms_setPolicy (t : AlarmTables) (k : LifecycleKey) (policy : Option JsString) :
    (t.setPolicy k policy).alarms = t.alarms := by
  obtain ⟨policies, heq, -⟩ := AlarmTables.setPolicy_eq t k policy
  rw [heq]

theorem alarmSet_frame {t t' : AlarmTables} {input : AlarmSetInput} {status : CallStatus}
    (h : t.alarmSet input = .ok (t', status)) {k : LifecycleKey} (hk : k ≠ input.key) :
    t'.alarms.get k = t.alarms.get k := by
  obtain ⟨-, ⟨owner, generation, -, -, ⟨-, rfl, -⟩ | ⟨-, -, rfl⟩⟩ | ⟨-, -, -, rfl⟩⟩ :=
    AlarmTables.alarmSet_cases h
  · rfl
  · rw [get_alarms_setPolicy, AlarmTables.get_alarms_schedule, if_neg hk]
  · rw [get_alarms_setPolicy, AlarmTables.get_alarms_ensureRequestedAlarm, if_neg fun hboth ↦ hk hboth.1,
      AlarmTables.get_alarms_schedule, if_neg hk]

theorem alarmComplete_frame {t t' : AlarmTables} {input : AlarmCompleteInput}
    {answer : CallStatus × Option ℕ} (h : t.alarmComplete input = .ok (t', answer)) {k : LifecycleKey}
    (hk : k ≠ input.key) : t'.alarms.get k = t.alarms.get k := by
  rcases AlarmTables.alarmComplete_cases h with ⟨-, rfl, -⟩ | ⟨-, -, t₁, hack, hdone⟩
  · rfl
  have hacked : t₁.alarms = t.alarms := by
    rcases hack.eq_or with rfl | ⟨r, rfl⟩ <;> rfl
  rcases hdone with ⟨next, -, rfl⟩ | ⟨-, rfl⟩
  · rw [AlarmTables.get_alarms_ensureRequestedAlarm, if_neg fun hboth ↦ hk hboth.1, get_alarms_setPolicy,
      AlarmTables.get_alarms_schedule, if_neg hk, hacked]
  · obtain ⟨alarms, requests, heq, hothers, -, -⟩ := AlarmTables.clearRow_eq t₁ input.key
    rw [AlarmTables.get_alarms_ensureRequestedAlarm, if_neg fun hboth ↦ hk hboth.1, heq]
    exact (hothers k hk).trans (congrArg (·.get k) hacked)

/-- What a claim of due rows answers. -/
theorem alarmClaimDue_answer {t t' : AlarmTables} {input : AlarmClaimDueInput} {due : List AlarmClaim}
    (h : t.alarmClaimDue input = .ok (t', due)) : due.length ≤ input.limit ∧
      ∀ target ∈ due, targetKey target ∉ input.exclude.map AlarmTables.excludeText := by
  rw [AlarmTables.alarmClaimDue] at h
  split_ifs at h
  all_goals first | exact absurd h raise_ne_ok | skip
  obtain ⟨_, -, h⟩ := bind_eq_ok.mp h
  obtain ⟨hnodup, hrows⟩ := t.dueRows_cases input
  obtain ⟨-, hkeys, -, -⟩ := AlarmTables.claimRows_cases hnodup hrows h
  constructor
  · have hlength := congrArg List.length hkeys
    rw [List.length_map, List.length_map] at hlength
    exact hlength.le.trans (List.length_take_le _ _)
  · intro target htarget hexcluded
    have hmem : target.key ∈ (t.dueRows input).map Prod.fst := hkeys ▸ List.mem_map_of_mem htarget
    obtain ⟨p, hp, hkey⟩ := List.mem_map.mp hmem
    have hfree := (List.mem_filter.mp (List.mem_of_mem_take hp)).2
    rw [Bool.not_eq_true', List.contains_eq_mem, decide_eq_false_iff_not] at hfree
    exact hfree (hkey ▸ hexcluded)

/-- The read finds the earliest row that is free. -/
theorem alarmNextWakeAt_le {t : AlarmTables} {now : ℕ} {exclude : List LifecycleKey} {next : Option ℕ}
    (h : t.alarmNextWakeAt now exclude = .ok next) {k : LifecycleKey} {a : AlarmRow}
    (ha : t.alarms.get k = some a) (hfree : a.dispatchOwner = none)
    (hexclude : AlarmTables.excludeText k ∉ exclude.map AlarmTables.excludeText) :
    ∃ n, next = some n ∧ n ≤ a.wakeAt := by
  rw [AlarmTables.alarmNextWakeAt] at h
  split_ifs at h
  · exact absurd h raise_ne_ok
  obtain ⟨_, -, rfl⟩ := map_eq_ok.mp h
  have hmem : a.wakeAt ∈ (t.alarms.rows.filter fun p ↦ decide (p.2.dispatchOwner = none) &&
      !(exclude.map AlarmTables.excludeText).contains (AlarmTables.excludeText p.1)).map
        fun p ↦ p.2.wakeAt := by
    refine List.mem_map.mpr ⟨(k, a), List.mem_filter.mpr ⟨t.alarms.mem_rows.mpr ha, ?_⟩, rfl⟩
    rw [decide_eq_true hfree, Bool.true_and, Bool.not_eq_true', List.contains_eq_mem,
      decide_eq_false_iff_not]
    exact hexclude
  obtain ⟨n, hn⟩ := Option.isSome_iff_exists.mp (List.isSome_min?_of_mem hmem)
  exact ⟨n, hn, (List.min?_eq_some_iff.mp hn).2 _ hmem⟩

/-! ## The invariants -/

def Lane.key (lane : Lane) : JsString := targetKey lane.target

/-- The keys of the targets that have a lane. -/
def Driver.activeKeys (s : Driver) : List JsString := s.activeLanes.map Lane.key

/-- What is promised to a claim that is under way: the lanes that are left, and other targets. -/
def ClaimOk (deps : Deps) (s : Driver) : DrivePhase → Prop
  | .claiming input answer => s.activeLanes.length + input.limit ≤ deps.concurrency ∧
      (∀ key ∈ s.activeKeys, key ∈ input.exclude.map AlarmTables.excludeText) ∧
      ∀ due, answer = some due → due.length ≤ input.limit ∧
        ∀ target ∈ due, targetKey target ∉ input.exclude.map AlarmTables.excludeText
  | _ => True

/-- The lanes and the targets that have one. -/
structure Occupancy (lanes : List Lane) (targets : JsMap JsString AlarmClaim) (next : ℕ) : Prop where
  ids : (lanes.map Lane.id).Nodup
  bound : ∀ lane ∈ lanes, lane.id < next
  distinct : (lanes.map Lane.key).Nodup
  entries : ∀ p ∈ targets, targetKey p.2 = p.1
  keys : ∀ key, (targets.get key).isSome = true ↔ key ∈ lanes.map Lane.key

/-- The invariant of the lanes. -/
structure Lanes (deps : Deps) (s : Driver) : Prop where
  occupancy : Occupancy s.activeLanes s.activeTargets s.nextLane
  room : s.activeLanes.length ≤ deps.concurrency
  claim : ∀ d, s.driving = some d → ClaimOk deps s d.phase

def Driver.requested (s : Driver) : Prop := s.refreshRequested = true ∨ s.fireRequested = true

/-- A row that can be claimed, of a target without a lane. -/
def Driver.free (s : Driver) (k : LifecycleKey) (a : AlarmRow) : Prop :=
  s.tables.alarms.get k = some a ∧ a.dispatchOwner = none ∧ AlarmTables.excludeText k ∉ s.activeKeys

/-- The timer fires in time for every row that can be claimed. -/
def Driver.covered (s : Driver) : Prop :=
  ∀ k a, s.free k a → ∃ timer, s.timer = some timer ∧ timer.fireAt ≤ max s.now a.wakeAt

/-- Nothing has to be done before a retry, a lane that ends, or the timer. -/
def Driver.rests (deps : Deps) (s : Driver) : Prop :=
  s.failureRetryOperation.isSome = true ∨ deps.concurrency ≤ s.activeLanes.length ∨ s.covered

/-- What the driving operation still does about the rows that can be claimed. -/
def Watches (deps : Deps) (s : Driver) : Option DrivePhase → Prop
  | none => s.rests deps
  | some (.adopting _ _) | some (.adopted _ true) | some (.claiming _ _) | some (.fired true) => True
  | some (.reading _ exclude answer) => s.requested ∨
      ((∀ key ∈ exclude.map AlarmTables.excludeText, key ∈ s.activeKeys) ∧ ∀ next, answer = some next →
        ∀ k a, s.free k a → ∃ n, next = some n ∧ n ≤ a.wakeAt)
  | some .refreshed | some (.fired false) | some (.adopted _ false) | some .ended =>
      s.requested ∨ s.rests deps

/-- **The invariant.** -/
structure Sched (deps : Deps) (s : Driver) : Prop where
  lanes : Lanes deps s
  /-- A request waits only for the driving operation, or for a retry. -/
  requests : s.stopped = false → s.driving = none → s.failureRetryOperation = none → ¬s.requested
  watches : s.stopped = false → s.unnotified = false → Watches deps s (s.driving.map Drive.phase)

/-- A driving operation looks at a request again. -/
theorem Watches.of_requested (h : s.requested) : ∀ phase, Watches deps s (some phase)
  | .adopting _ _ | .adopted _ true | .claiming _ _ | .fired true => trivial
  | .adopted _ false | .fired false | .reading _ _ _ | .refreshed | .ended => .inl h

/-! ## The loop -/

/-- A stopped driver owes nothing. -/
theorem Sched.of_stopped (hlanes : Lanes deps s) (h : s.stopped = true) : Sched deps s :=
  ⟨hlanes, fun hnot ↦ (nomatch h.symm.trans hnot), fun hnot ↦ (nomatch h.symm.trans hnot)⟩

theorem Lanes.setDrive (h : Lanes deps s) {phase : DrivePhase} (hphase : ClaimOk deps s phase) :
    Lanes deps (s.setDrive phase) := by
  refine ⟨h.occupancy, h.room, fun d hd ↦ ?_⟩
  obtain ⟨d', -, rfl⟩ := Option.map_eq_some_iff.mp hd
  cases phase with
  | claiming input answer => exact hphase
  | _ => trivial

/-- The driving operation goes on to a phase. -/
theorem Sched.setDrive (hlanes : Lanes deps s) {d : Drive} (hd : s.driving = some d)
    {phase : DrivePhase} (hphase : ClaimOk deps s phase)
    (hwatches : s.stopped = false → s.unnotified = false → Watches deps s (some phase)) :
    Sched deps (s.setDrive phase) := by
  have hdriving : (s.setDrive phase).driving = some { d with phase } := by
    rw [Driver.setDrive, hd, Option.map_some]
  refine ⟨hlanes.setDrive hphase, fun _ hnone ↦ ?_, fun hstopped hnotified ↦ ?_⟩
  · exact nomatch hdriving.symm.trans hnone
  · rw [hdriving, Option.map_some]
    have hw := hwatches hstopped hnotified
    cases phase with
    | adopted operation ok => cases ok <;> exact hw
    | fired ok => cases ok <;> exact hw
    | _ => exact hw

theorem Sched.ensureAdopted (hlanes : Lanes deps s) {d : Drive}
    (hd : s.driving = some d) (operation : Operation) : Sched deps (s.ensureAdopted operation) := by
  rw [Driver.ensureAdopted]
  split_ifs
  · exact Sched.setDrive hlanes hd trivial fun _ _ ↦ trivial
  · exact Sched.setDrive hlanes hd trivial fun _ _ ↦ trivial

/-- The loop serves a request, or there is none and the operation ends. -/
theorem Sched.driveLoop (hlanes : Lanes deps s) {d : Drive} (hd : s.driving = some d)
    (hwatches : s.stopped = false → s.unnotified = false → s.requested ∨ s.rests deps) :
    Sched deps s.driveLoop := by
  rw [Driver.driveLoop]
  split_ifs with hstopped hfire hrefresh
  · exact Sched.setDrive hlanes hd trivial hwatches
  · have hlanes' : Lanes deps { s with fireRequested := false, refreshRequested := false } :=
      ⟨hlanes.occupancy, hlanes.room, hlanes.claim⟩
    exact Sched.ensureAdopted hlanes' hd .fire
  · have hlanes' : Lanes deps { s with refreshRequested := false } :=
      ⟨hlanes.occupancy, hlanes.room, hlanes.claim⟩
    exact Sched.ensureAdopted hlanes' hd .refresh
  · exact Sched.setDrive hlanes hd trivial hwatches

/-- **A kick serves what is requested.** -/
theorem Sched.kick (hlanes : Lanes deps s) (hrequested : s.stopped = false → s.requested) :
    Sched deps s.kick := by
  rw [Driver.kick]
  split_ifs with hbusy
  · cases hstopped : s.stopped with
    | true => exact Sched.of_stopped hlanes hstopped
    | false =>
      have hreq := hrequested hstopped
      refine ⟨hlanes, fun _ hnone hopen ↦ ?_, fun _ _ ↦ ?_⟩
      · rw [hstopped, hnone, hopen] at hbusy
        simp at hbusy
      · cases hd : s.driving with
        | none =>
          rw [hstopped, hd] at hbusy
          simp only [Bool.false_eq_true, Option.isSome_none, false_or] at hbusy
          exact .inl hbusy
        | some d => exact Watches.of_requested hreq d.phase
  · simp only [not_or, Bool.not_eq_true] at hbusy
    have hbegun : Lanes deps { s with driving := some ⟨s.nextDrive, .ended⟩, nextDrive := s.nextDrive + 1 } := by
      refine ⟨hlanes.occupancy, hlanes.room, fun d hd ↦ ?_⟩
      obtain rfl := Option.some.inj hd
      trivial
    exact Sched.driveLoop hbegun rfl fun hstopped _ ↦ .inl (hrequested hstopped)

theorem Sched.requestRefresh (hlanes : Lanes deps s) : Sched deps s.requestRefresh := by
  have hlanes' : Lanes deps { s with refreshRequested := true } :=
    ⟨hlanes.occupancy, hlanes.room, hlanes.claim⟩
  have hkick := Sched.kick hlanes' fun _ ↦ .inl rfl
  rw [Driver.requestRefresh]
  split_ifs with hstopped hgated
  · exact Sched.of_stopped hlanes hstopped
  · -- the kick would not go through the gate either
    rw [Driver.kick, if_pos (.inr (.inr hgated))] at hkick
    exact hkick
  · exact hkick

theorem Sched.requestFire (hlanes : Lanes deps s) : Sched deps s.requestFire := by
  rw [Driver.requestFire]
  split_ifs with hstopped
  · exact Sched.of_stopped hlanes hstopped
  · have hlanes' : Lanes deps { s with fireRequested := true } :=
      ⟨hlanes.occupancy, hlanes.room, hlanes.claim⟩
    exact Sched.kick hlanes' fun _ ↦ .inr rfl
/-! ## Frames -/

/-- What the operation still does stays enough when rows and lanes change little. -/
theorem Watches.mono (hrequested : s.requested → t.requested) (hrests : s.rests deps → t.rests deps)
    (hactive : ∀ key ∈ s.activeKeys, key ∈ t.activeKeys) (hfree : ∀ k a, t.free k a → s.free k a) :
    ∀ {phase : Option DrivePhase}, Watches deps s phase → Watches deps t phase
  | none, h => hrests h
  | some (.adopting _ _), _ | some (.adopted _ true), _ | some (.claiming _ _), _
  | some (.fired true), _ => trivial
  | some (.reading _ _ _), h => by
    rcases h with h | ⟨hexclude, hanswer⟩
    · exact .inl (hrequested h)
    · right
      refine ⟨fun key hkey ↦ hactive key (hexclude key hkey), fun next hnext k a hka ↦ ?_⟩
      exact hanswer next hnext k a (hfree k a hka)
  | some .refreshed, h | some (.fired false), h | some (.adopted _ false), h | some .ended, h =>
    h.imp hrequested hrests

/-- A step that keeps the requests, the timer and the lanes keeps the invariant when no row becomes free. -/
theorem Sched.frame (h : Sched deps s) (hlanes : Lanes deps t) (hstopped : t.stopped = s.stopped)
    (hdriving : t.driving = s.driving) (hfailure : t.failureRetryOperation = s.failureRetryOperation)
    (hrefresh : t.refreshRequested = s.refreshRequested) (hfire : t.fireRequested = s.fireRequested)
    (hkeys : t.activeKeys = s.activeKeys) (htimer : t.timer = s.timer) (hnow : s.now ≤ t.now)
    (hunnotified : t.unnotified = false → s.unnotified = false)
    (hfree : ∀ k a, t.free k a → s.free k a) : Sched deps t := by
  have hrequested : t.requested ↔ s.requested := by
    rw [Driver.requested, Driver.requested, hrefresh, hfire]
  have hlength : t.activeLanes.length = s.activeLanes.length := by
    simpa only [Driver.activeKeys, List.length_map] using congrArg List.length hkeys
  refine ⟨hlanes, fun h₁ h₂ h₃ ↦ ?_, fun h₁ h₂ ↦ ?_⟩
  · rw [hrequested]
    exact h.requests (hstopped ▸ h₁) (hdriving ▸ h₂) (hfailure ▸ h₃)
  · rw [hdriving]
    have hwatches := h.watches (hstopped ▸ h₁) (hunnotified h₂)
    apply Watches.mono hrequested.mpr _ (fun key hkey ↦ hkeys ▸ hkey) hfree hwatches
    rintro (hfailed | hfull | hcovered)
    · exact .inl (hfailure ▸ hfailed)
    · exact .inr (.inl (hlength ▸ hfull))
    · refine .inr (.inr fun k a hka ↦ ?_)
      obtain ⟨timer, htimer', hfires⟩ := hcovered k a (hfree k a hka)
      exact ⟨timer, htimer.trans htimer', by omega⟩

/-- Lanes that only change what they wait for. -/
theorem Lanes.map (h : Lanes deps s) {f : Lane → Lane} (hid : ∀ lane, (f lane).id = lane.id)
    (hkey : ∀ lane, (f lane).key = lane.key) (hlanes : t.activeLanes = s.activeLanes.map f)
    (htargets : t.activeTargets = s.activeTargets) (hnext : t.nextLane = s.nextLane)
    (hdriving : t.driving = s.driving) : Lanes deps t ∧ t.activeKeys = s.activeKeys := by
  have hids : t.activeLanes.map Lane.id = s.activeLanes.map Lane.id := by
    rw [hlanes, List.map_map]
    exact List.map_congr_left fun lane _ ↦ hid lane
  have hkeys : t.activeLanes.map Lane.key = s.activeLanes.map Lane.key := by
    rw [hlanes, List.map_map]
    exact List.map_congr_left fun lane _ ↦ hkey lane
  have hlength : t.activeLanes.length = s.activeLanes.length := by rw [hlanes, List.length_map]
  refine ⟨⟨⟨hids ▸ h.occupancy.ids, fun lane hlane ↦ ?_, hkeys ▸ h.occupancy.distinct, ?_, ?_⟩,
    hlength ▸ h.room, fun d hd ↦ ?_⟩, hkeys⟩
  · rw [hlanes] at hlane
    obtain ⟨lane', hlane', rfl⟩ := List.mem_map.mp hlane
    rw [hid, hnext]
    exact h.occupancy.bound lane' hlane'
  · rw [htargets]
    exact h.occupancy.entries
  · intro key
    rw [htargets, hkeys]
    exact h.occupancy.keys key
  · have hclaim := h.claim d (hdriving ▸ hd)
    cases hphase : d.phase with
    | claiming input answer =>
      rw [hphase] at hclaim
      obtain ⟨hroom, hexclude, hanswer⟩ := hclaim
      exact ⟨hlength ▸ hroom, fun key hkey ↦ hexclude key (hkeys.subst (motive := (key ∈ ·)) hkey), hanswer⟩
    | _ => trivial

theorem abortDispatch_id (lane : Lane) : (Driver.abortDispatch lane).id = lane.id := by
  rw [Driver.abortDispatch]
  split <;> rfl

theorem abortDispatch_key (lane : Lane) : (Driver.abortDispatch lane).key = lane.key := by
  rw [Driver.abortDispatch]
  split <;> rfl

/-- A lane that waits for something else. -/
theorem Sched.setLane (h : Sched deps s) (id : ℕ) (phase : LanePhase) : Sched deps (s.setLane id phase) := by
  have hmap := h.lanes.map (t := s.setLane id phase)
    (f := fun lane ↦ if lane.id = id then { lane with phase } else lane)
    (fun lane ↦ by split_ifs <;> rfl) (fun lane ↦ by split_ifs <;> rfl) rfl rfl rfl rfl
  refine h.frame hmap.1 rfl rfl rfl rfl rfl hmap.2 rfl le_rfl (fun hn ↦ hn) fun k a hka ↦ ?_
  exact ⟨hka.1, hka.2.1, hmap.2 ▸ hka.2.2⟩
/-! ## Calls from outside -/

theorem Sched.start (h : Sched deps s) : Sched deps s.start :=
  Sched.requestRefresh ⟨h.lanes.occupancy, h.lanes.room, h.lanes.claim⟩

theorem Lanes.stop (h : Lanes deps s) : Lanes deps s.stop :=
  (h.map (t := s.stop) abortDispatch_id abortDispatch_key rfl rfl rfl rfl).1

theorem Sched.stop (h : Sched deps s) : Sched deps s.stop :=
  Sched.of_stopped h.lanes.stop rfl

theorem Sched.quiesce (h : Sched deps s) : Sched deps s.quiesce := by
  have hlanes := h.lanes.stop
  exact Sched.of_stopped ⟨hlanes.occupancy, hlanes.room, hlanes.claim⟩ rfl

theorem Sched.quiesceContinues (h : Sched deps s) {call : ℕ} (hs : s.quiesceContinues call = some t) :
    Sched deps t := by
  obtain ⟨q, -, hs⟩ := Option.bind_eq_some_iff.mp hs
  obtain ⟨phase, -, rfl⟩ := Option.map_eq_some_iff.mp hs
  exact h.frame ⟨h.lanes.occupancy, h.lanes.room, h.lanes.claim⟩ rfl rfl rfl rfl rfl rfl rfl le_rfl
    (fun hn ↦ hn) fun _ _ hka ↦ hka

theorem Sched.notifyChanged (h : Sched deps s) : Sched deps s.notifyChanged :=
  Sched.requestRefresh ⟨h.lanes.occupancy, h.lanes.room, h.lanes.claim⟩

theorem Sched.tick (h : Sched deps s) (ms : ℕ) : Sched deps { s with now := s.now + ms } :=
  h.frame ⟨h.lanes.occupancy, h.lanes.room, h.lanes.claim⟩ rfl rfl rfl rfl rfl rfl rfl
    (Nat.le_add_right s.now ms) (fun hn ↦ hn) fun _ _ hka ↦ hka

/-- After a change nothing is promised until it is notified. -/
theorem Sched.tableChanges (h : Sched deps s) (f : AlarmTables → AlarmTables) :
    Sched deps (s.tableChanges f) :=
  ⟨⟨h.lanes.occupancy, h.lanes.room, h.lanes.claim⟩, h.requests, fun _ hnotified ↦ nomatch hnotified⟩

theorem Sched.timerFires (h : Sched deps s) (hs : s.timerFires = some t) : Sched deps t := by
  obtain ⟨timer, -, hs⟩ := Option.bind_eq_some_iff.mp hs
  obtain ⟨fireAt, task⟩ := timer
  split_ifs at hs
  cases task with
  | wake =>
    obtain rfl := Option.some.inj hs
    exact Sched.requestFire ⟨h.lanes.occupancy, h.lanes.room, h.lanes.claim⟩
  | retry operation =>
    cases operation with
    | refresh =>
      obtain rfl := Option.some.inj hs
      exact Sched.requestRefresh ⟨h.lanes.occupancy, h.lanes.room, h.lanes.claim⟩
    | fire =>
      obtain rfl := Option.some.inj hs
      exact Sched.requestFire ⟨h.lanes.occupancy, h.lanes.room, h.lanes.claim⟩

/-! ## The driving operation -/

/-- What the running operation has promised. -/
theorem Sched.at (h : Sched deps s) {d : Drive} (hd : s.driving = some d) :
    ClaimOk deps s d.phase ∧
      (s.stopped = false → s.unnotified = false → Watches deps s (some d.phase)) := by
  refine ⟨h.lanes.claim d hd, fun h₁ h₂ ↦ ?_⟩
  have hwatches := h.watches h₁ h₂
  rwa [hd, Option.map_some] at hwatches

/-- The targets of a claim or a read cover the lanes. -/
theorem Lanes.excluded (h : Lanes deps s) :
    ∀ key, key ∈ s.activeKeys ↔ key ∈ s.excluded.map AlarmTables.excludeText := by
  intro key
  rw [Driver.excluded, List.map_map, Driver.activeKeys, ← h.occupancy.keys key, List.mem_map,
    Option.isSome_iff_ne_none, ne_eq, JsMap.get_eq_none, not_not, JsMap.keys, List.mem_map]
  constructor
  · rintro ⟨p, hp, rfl⟩
    exact ⟨p, hp, h.occupancy.entries p hp⟩
  · rintro ⟨p, hp, rfl⟩
    exact ⟨p, hp, (h.occupancy.entries p hp).symm⟩

theorem Sched.callRuns (h : Sched deps s) (hs : s.callRuns deps = some t) : Sched deps t := by
  obtain ⟨d, hd, hs⟩ := Option.bind_eq_some_iff.mp hs
  obtain ⟨hclaim, hwatches⟩ := h.at hd
  obtain ⟨id, phase⟩ := d
  cases phase with
  | adopting operation ran =>
    cases ran with
    | true => exact nomatch hs
    | false =>
      cases hcall : s.tables.alarmAdoptWorker deps.workerId with
      | error e =>
        simp only [hcall] at hs
        exact nomatch hs
      | ok tables =>
        simp only [hcall, Option.some.injEq] at hs
        obtain rfl := hs
        have hlanes : Lanes deps { s with tables } := ⟨h.lanes.occupancy, h.lanes.room, h.lanes.claim⟩
        exact Sched.setDrive hlanes hd trivial fun _ _ ↦ trivial
  | reading now exclude answer =>
    cases answer with
    | some next => exact nomatch hs
    | none =>
      cases hcall : s.tables.alarmNextWakeAt now exclude with
      | error e =>
        simp only [hcall] at hs
        exact nomatch hs
      | ok next =>
        simp only [hcall, Option.some.injEq] at hs
        obtain rfl := hs
        refine Sched.setDrive h.lanes hd trivial fun h₁ h₂ ↦ ?_
        rcases hwatches h₁ h₂ with hrequested | ⟨hexclude, -⟩
        · exact .inl hrequested
        · refine .inr ⟨hexclude, fun answer hanswer k a hka ↦ ?_⟩
          obtain rfl := Option.some.inj hanswer
          exact alarmNextWakeAt_le hcall hka.1 hka.2.1 fun hmem ↦ hka.2.2 (hexclude _ hmem)
  | claiming input answer =>
    cases answer with
    | some due => exact nomatch hs
    | none =>
      cases hcall : s.tables.alarmClaimDue input with
      | error e =>
        simp only [hcall] at hs
        exact nomatch hs
      | ok result =>
        obtain ⟨tables, due⟩ := result
        simp only [hcall, Option.some.injEq] at hs
        obtain rfl := hs
        have hlanes : Lanes deps { s with tables } := ⟨h.lanes.occupancy, h.lanes.room, h.lanes.claim⟩
        refine Sched.setDrive hlanes hd ⟨hclaim.1, hclaim.2.1, fun due' hdue ↦ ?_⟩ fun _ _ ↦ trivial
        obtain rfl := Option.some.inj hdue
        exact alarmClaimDue_answer hcall
  | adopted _ _ | refreshed | fired _ | ended => exact nomatch hs

theorem Sched.adoptReturns (h : Sched deps s) (hs : s.adoptReturns = some t) : Sched deps t := by
  obtain ⟨d, hd, hs⟩ := Option.bind_eq_some_iff.mp hs
  obtain ⟨id, phase⟩ := d
  cases phase with
  | adopting operation ran =>
    cases ran with
    | false => exact nomatch hs
    | true =>
      simp only at hs
      split_ifs at hs with hstopped
      · obtain rfl := Option.some.inj hs
        exact Sched.setDrive h.lanes hd trivial fun hrunning ↦ nomatch hstopped.symm.trans hrunning
      · obtain rfl := Option.some.inj hs
        have hlanes : Lanes deps { s with adopted := true } :=
          ⟨h.lanes.occupancy, h.lanes.room, h.lanes.claim⟩
        exact Sched.setDrive hlanes hd trivial fun _ _ ↦ trivial
  | adopted _ _ | reading _ _ _ | claiming _ _ | refreshed | fired _ | ended => exact nomatch hs

/-- **The timer is set for what was read.** -/
theorem Sched.readReturns (h : Sched deps s) (hs : s.readReturns = some t) : Sched deps t := by
  obtain ⟨d, hd, hs⟩ := Option.bind_eq_some_iff.mp hs
  obtain ⟨-, hwatches⟩ := h.at hd
  obtain ⟨id, phase⟩ := d
  cases phase with
  | reading now exclude answer =>
    cases answer with
    | none => exact nomatch hs
    | some next =>
      simp only at hs
      split_ifs at hs with hstopped
      · obtain rfl := Option.some.inj hs
        exact Sched.setDrive h.lanes hd trivial fun hrunning ↦ nomatch hstopped.symm.trans hrunning
      · obtain rfl := Option.some.inj hs
        have hlanes : Lanes deps { s with
            consecutiveFailures := 0
            timer := next.map fun next ↦ ⟨s.now + min maxTimerMs (next - s.now), .wake⟩ } :=
          ⟨h.lanes.occupancy, h.lanes.room, h.lanes.claim⟩
        refine Sched.setDrive hlanes hd trivial fun h₁ h₂ ↦ ?_
        rcases hwatches h₁ h₂ with hrequested | ⟨-, hanswer⟩
        · exact .inl hrequested
        · refine .inr (.inr (.inr fun k a hka ↦ ?_))
          obtain ⟨n, rfl, hn⟩ := hanswer next rfl k a hka
          exact ⟨_, rfl, by dsimp only; omega⟩
  | adopting _ _ | adopted _ _ | claiming _ _ | refreshed | fired _ | ended => exact nomatch hs

theorem armFailureRetry_eq (h : s.stopped = false) (operation : Operation) :
    ∃ failures fireAt, s.armFailureRetry operation = { s with
      consecutiveFailures := failures
      failureRetryOperation := some operation
      timer := some ⟨fireAt, .retry operation⟩ } := by
  rw [Driver.armFailureRetry, if_neg (by simp [h])]
  exact ⟨_, _, rfl⟩

/-- A failed operation owns the timer. -/
theorem Sched.armed (h : Sched deps s) {d : Drive} (hd : s.driving = some d) (operation : Operation)
    {phase : DrivePhase} (hphase : ∀ t : Driver, t.failureRetryOperation.isSome = true →
      ClaimOk deps t phase ∧ Watches deps t (some phase)) :
    Sched deps ((s.armFailureRetry operation).setDrive phase) := by
  cases hstopped : s.stopped with
  | true =>
    rw [Driver.armFailureRetry, if_pos hstopped]
    have hclaim : ClaimOk deps s phase := by
      cases phase with
      | claiming input answer => exact (hphase { s with failureRetryOperation := some operation } rfl).1
      | _ => trivial
    exact Sched.setDrive h.lanes hd hclaim fun hrunning ↦ nomatch hstopped.symm.trans hrunning
  | false =>
    obtain ⟨failures, fireAt, heq⟩ := armFailureRetry_eq hstopped operation
    have hlanes : Lanes deps (s.armFailureRetry operation) := by
      rw [heq]
      exact ⟨h.lanes.occupancy, h.lanes.room, h.lanes.claim⟩
    have hfailed : (s.armFailureRetry operation).failureRetryOperation.isSome = true := by rw [heq]; rfl
    have hdriving : (s.armFailureRetry operation).driving = some d := by rw [heq]; exact hd
    exact Sched.setDrive hlanes hdriving (hphase _ hfailed).1 fun _ _ ↦ (hphase _ hfailed).2

theorem Sched.callRejects (h : Sched deps s) (hs : s.callRejects = some t) : Sched deps t := by
  obtain ⟨d, hd, hs⟩ := Option.bind_eq_some_iff.mp hs
  obtain ⟨id, phase⟩ := d
  cases phase with
  | adopting operation ran =>
    obtain rfl := Option.some.inj hs
    exact h.armed hd .refresh fun t hfailed ↦ ⟨trivial, .inr (.inl hfailed)⟩
  | reading now exclude answer =>
    obtain rfl := Option.some.inj hs
    exact h.armed hd .refresh fun t hfailed ↦ ⟨trivial, .inr (.inl hfailed)⟩
  | claiming input answer =>
    obtain rfl := Option.some.inj hs
    exact h.armed hd .fire fun t hfailed ↦ ⟨trivial, .inr (.inl hfailed)⟩
  | adopted _ _ | refreshed | fired _ | ended => exact nomatch hs

theorem Sched.driveContinues (h : Sched deps s) (hs : s.driveContinues deps = some t) : Sched deps t := by
  obtain ⟨d, hd, hs⟩ := Option.bind_eq_some_iff.mp hs
  obtain ⟨-, hwatches⟩ := h.at hd
  obtain ⟨id, phase⟩ := d
  cases phase with
  | adopted operation ok =>
    cases ok with
    | false =>
      cases operation with
      | refresh =>
        obtain rfl := Option.some.inj hs
        exact Sched.setDrive h.lanes hd trivial hwatches
      | fire =>
        obtain rfl := Option.some.inj hs
        exact Sched.setDrive h.lanes hd trivial hwatches
    | true =>
      cases operation with
      | refresh =>
        simp only at hs
        split_ifs at hs with hfull
        · -- the timer is not needed: a lane that ends asks for the next refresh
          obtain rfl := Option.some.inj hs
          have hlanes : Lanes deps { s with timer := none } :=
            ⟨h.lanes.occupancy, h.lanes.room, h.lanes.claim⟩
          exact Sched.setDrive hlanes hd trivial fun _ _ ↦ .inr (.inr (.inl hfull))
        · obtain rfl := Option.some.inj hs
          refine Sched.setDrive h.lanes hd trivial fun _ _ ↦ .inr ⟨fun key hkey ↦ ?_, fun _ hnone ↦ ?_⟩
          · exact (h.lanes.excluded key).mpr hkey
          · exact nomatch hnone
      | fire =>
        simp only at hs
        split_ifs at hs with hfull
        · obtain rfl := Option.some.inj hs
          exact Sched.setDrive h.lanes hd trivial fun _ _ ↦ trivial
        · obtain rfl := Option.some.inj hs
          refine Sched.setDrive h.lanes hd ⟨?_, fun key hkey ↦ ?_, fun _ hnone ↦ ?_⟩ fun _ _ ↦ trivial
          · dsimp only
            omega
          · exact (h.lanes.excluded key).mp hkey
          · exact nomatch hnone
  | refreshed =>
    obtain rfl := Option.some.inj hs
    exact Sched.driveLoop h.lanes hd hwatches
  | fired ok =>
    cases ok with
    | true =>
      obtain rfl := Option.some.inj hs
      exact Sched.driveLoop ⟨h.lanes.occupancy, h.lanes.room, h.lanes.claim⟩ hd fun _ _ ↦ .inl (.inl rfl)
    | false =>
      obtain rfl := Option.some.inj hs
      exact Sched.driveLoop h.lanes hd hwatches
  | adopting _ _ | reading _ _ _ | claiming _ _ | ended => exact nomatch hs

theorem Sched.driveFinally (h : Sched deps s) (hs : s.driveFinally = some t) : Sched deps t := by
  obtain ⟨d, hd, hs⟩ := Option.bind_eq_some_iff.mp hs
  obtain ⟨-, hwatches⟩ := h.at hd
  obtain ⟨id, phase⟩ := d
  cases phase with
  | ended =>
    have hlanes : Lanes deps { s with driving := none } :=
      ⟨h.lanes.occupancy, h.lanes.room, fun _ hnone ↦ nomatch hnone⟩
    obtain rfl := Option.some.inj hs
    split_ifs with hagain
    · exact Sched.kick hlanes fun _ ↦ hagain.2.symm
    · refine ⟨hlanes, fun hrunning _ _ hrequested ↦ ?_, fun hrunning hnotified ↦ ?_⟩
      · exact hagain ⟨by simp [show s.stopped = false from hrunning], hrequested.symm⟩
      · rcases hwatches hrunning hnotified with hrequested | hrests
        · exact absurd ⟨by simp [show s.stopped = false from hrunning], hrequested.symm⟩ hagain
        · exact hrests
  | adopting _ _ | adopted _ _ | reading _ _ _ | claiming _ _ | refreshed | fired _ => exact nomatch hs
/-! ## Lanes that start and end -/

theorem Occupancy.start {lanes : List Lane} {targets : JsMap JsString AlarmClaim} {next : ℕ}
    (h : Occupancy lanes targets next) {target : AlarmClaim} (hnew : targets.get (targetKey target) = none)
    (phase : LanePhase) : Occupancy (lanes ++ [⟨next, target, false, phase⟩])
      (targets.set (targetKey target) target) (next + 1) := by
  have hother : targetKey target ∉ lanes.map Lane.key := by
    rw [← h.keys, hnew]
    exact Bool.false_ne_true
  constructor
  · rw [List.map_append, List.nodup_append]
    refine ⟨h.ids, List.nodup_singleton next, fun id hid id' hid' ↦ ?_⟩
    obtain ⟨lane, hlane, rfl⟩ := List.mem_map.mp hid
    rw [List.mem_singleton.mp hid']
    exact (h.bound lane hlane).ne
  · intro lane hlane
    rcases List.mem_append.mp hlane with hlane | hlane
    · exact (h.bound lane hlane).trans (Nat.lt_succ_self next)
    · rw [List.mem_singleton.mp hlane]
      exact Nat.lt_succ_self next
  · rw [List.map_append, List.nodup_append]
    refine ⟨h.distinct, List.nodup_singleton _, fun key hkey key' hkey' ↦ ?_⟩
    rw [List.mem_singleton.mp hkey']
    rintro rfl
    exact hother hkey
  · intro p hp
    rcases JsMap.mem_set hp with rfl | hp
    · rfl
    · exact h.entries p hp
  · intro key
    rw [JsMap.get_set, List.map_append, List.mem_append, ← h.keys]
    by_cases hkey : key = targetKey target
    · rw [if_pos hkey]
      exact iff_of_true rfl (.inr (List.mem_singleton.mpr hkey))
    · rw [if_neg hkey]
      exact ⟨.inl, fun hor ↦ hor.resolve_right fun hmem ↦ hkey (List.mem_singleton.mp hmem)⟩

/-- Every target of an answer gets a lane. -/
theorem startLanes_cases {paused : LifecycleKey → Bool} {due : List AlarmClaim} :
    ∀ {s t : Driver}, Driver.startLanes paused due s = (t, true) →
      Occupancy s.activeLanes s.activeTargets s.nextLane →
      Occupancy t.activeLanes t.activeTargets t.nextLane ∧
        t.activeLanes.length = s.activeLanes.length + due.length ∧ t.driving = s.driving := by
  induction due with
  | nil =>
    intro s t h hocc
    obtain ⟨rfl, -⟩ := Prod.mk.inj h
    exact ⟨hocc, rfl, rfl⟩
  | cons target due ih =>
    intro s t h hocc
    rw [Driver.startLanes] at h
    split_ifs at h with hactive
    · exact nomatch congrArg Prod.snd h
    · obtain ⟨hocc', hlength, hdriving⟩ := ih h (hocc.start (by simpa using hactive) _)
      refine ⟨hocc', ?_, hdriving⟩
      rw [hlength, Driver.startLane, List.length_append, List.length_singleton, List.length_cons]
      omega

theorem Sched.claimReturns (h : Sched deps s) {paused : LifecycleKey → Bool}
    (hs : s.claimReturns paused = some t) : Sched deps t := by
  obtain ⟨d, hd, hs⟩ := Option.bind_eq_some_iff.mp hs
  obtain ⟨hclaim, -⟩ := h.at hd
  obtain ⟨id, phase⟩ := d
  cases phase with
  | claiming input answer =>
    cases answer with
    | none => exact nomatch hs
    | some due =>
      simp only at hs
      split at hs
      · next u hstart =>
        obtain rfl := Option.some.inj hs
        obtain ⟨hocc, hlength, hdriving⟩ := startLanes_cases hstart h.lanes.occupancy
        have hdone : (u.setDrive (.fired true)).driving = some ⟨id, .fired true⟩ := by
          rw [Driver.setDrive, hdriving, hd, Option.map_some]
        refine ⟨⟨hocc, ?_, fun d' hd' ↦ ?_⟩, fun _ hnone ↦ (nomatch hdone.symm.trans hnone), fun _ _ ↦ ?_⟩
        · -- the answer fits into the lanes that were left
          obtain ⟨hroom, -, hanswer⟩ := hclaim
          have hfits := (hanswer due rfl).1
          dsimp only [Driver.setDrive] at hlength ⊢
          omega
        · obtain rfl := Option.some.inj (hdone.symm.trans hd')
          trivial
        · rw [hdone]
          trivial
      · exact nomatch hs
  | adopting _ _ | adopted _ _ | reading _ _ _ | refreshed | fired _ | ended => exact nomatch hs

theorem Occupancy.finish {lanes : List Lane} {targets : JsMap JsString AlarmClaim} {next : ℕ}
    (h : Occupancy lanes targets next) {id : ℕ} {lane : Lane}
    (hfind : lanes.find? (fun lane ↦ decide (lane.id = id)) = some lane) :
    Occupancy (lanes.filter fun lane ↦ decide (lane.id ≠ id)) (targets.delete lane.key) next := by
  have hperm := (find_perm h.ids hfind).1
  have hkeys : (lane.key :: (lanes.filter fun lane ↦ decide (lane.id ≠ id)).map Lane.key).Nodup :=
    (hperm.map Lane.key).nodup_iff.mp h.distinct
  obtain ⟨hgone, hdistinct⟩ := List.nodup_cons.mp hkeys
  refine ⟨?_, fun lane' hlane ↦ h.bound lane' (List.mem_of_mem_filter hlane), hdistinct, ?_, fun key ↦ ?_⟩
  · exact (List.nodup_cons.mp ((hperm.map Lane.id).nodup_iff.mp h.ids)).2
  · exact fun p hp ↦ h.entries p (List.mem_of_mem_filter hp)
  · rw [JsMap.get_delete]
    by_cases hkey : key = lane.key
    · rw [if_pos hkey]
      exact iff_of_false Bool.false_ne_true (hkey ▸ hgone)
    · rw [if_neg hkey, h.keys, (hperm.map Lane.key).mem_iff, List.map_cons, List.mem_cons]
      exact or_iff_right hkey

/-- **A lane that ends asks for a refresh.** -/
theorem Sched.laneFinally (h : Sched deps s) {id : ℕ} (hs : s.laneFinally id = some t) :
    Sched deps t := by
  obtain ⟨lane, hfind, hs⟩ := Option.bind_eq_some_iff.mp hs
  obtain ⟨_, target, aborted, phase⟩ := lane
  cases phase with
  | ended =>
    obtain rfl := Option.some.inj hs
    have hless : ∀ lane ∈ s.activeLanes.filter (fun lane ↦ decide (lane.id ≠ id)), lane ∈ s.activeLanes :=
      fun _ ↦ List.mem_of_mem_filter
    have hlength := List.length_filter_le (fun lane : Lane ↦ decide (lane.id ≠ id)) s.activeLanes
    refine Sched.requestRefresh ⟨h.lanes.occupancy.finish hfind, hlength.trans h.lanes.room, fun d hd ↦ ?_⟩
    have hclaim := h.lanes.claim d hd
    cases hphase : d.phase with
    | claiming input answer =>
      rw [hphase] at hclaim
      obtain ⟨hroom, hexclude, hanswer⟩ := hclaim
      refine ⟨(Nat.add_le_add_right hlength _).trans hroom, fun key hkey ↦ ?_, hanswer⟩
      obtain ⟨lane, hlane, rfl⟩ := List.mem_map.mp hkey
      exact hexclude _ (List.mem_map_of_mem (hless lane hlane))
    | _ => trivial
  | dispatching | setting _ _ | completing _ _ => exact nomatch hs

/-! ## Calls of a lane -/

theorem Sched.dispatchReturns (h : Sched deps s) {id : ℕ} {nextAlarm : Option NextAlarm}
    (hs : s.dispatchReturns id nextAlarm = some t) : Sched deps t := by
  obtain ⟨lane, -, hs⟩ := Option.bind_eq_some_iff.mp hs
  split at hs
  · exact Option.some.inj hs ▸ h.setLane id _
  · exact nomatch hs

theorem Sched.dispatchThrows (h : Sched deps s) {id : ℕ} {permanent : Bool}
    (hs : s.dispatchThrows id permanent = some t) : Sched deps t := by
  obtain ⟨lane, -, hs⟩ := Option.bind_eq_some_iff.mp hs
  split at hs
  · exact Option.some.inj hs ▸ h.setLane id _
  · exact nomatch hs

theorem Sched.laneCallReturns (h : Sched deps s) {id : ℕ} (hs : s.laneCallReturns id = some t) :
    Sched deps t := by
  obtain ⟨lane, -, hs⟩ := Option.bind_eq_some_iff.mp hs
  split at hs
  · exact Option.some.inj hs ▸ h.setLane id _
  · exact Option.some.inj hs ▸ h.setLane id _
  · exact nomatch hs

theorem Sched.laneCallRejects (h : Sched deps s) {id : ℕ} (hs : s.laneCallRejects id = some t) :
    Sched deps t := by
  obtain ⟨lane, -, hs⟩ := Option.bind_eq_some_iff.mp hs
  split at hs
  · exact Option.some.inj hs ▸ h.setLane id _
  · exact Option.some.inj hs ▸ h.setLane id _
  · exact nomatch hs

/-- A change of the row of a target with a lane makes no row free. -/
theorem Sched.changeRow (h : Sched deps s) {lane : Lane} (hlane : lane ∈ s.activeLanes)
    {tables : AlarmTables}
    (hframe : ∀ k, k ≠ lane.target.key → tables.alarms.get k = s.tables.alarms.get k) :
    Sched deps { s with tables } := by
  refine h.frame ⟨h.lanes.occupancy, h.lanes.room, h.lanes.claim⟩ rfl rfl rfl rfl rfl rfl rfl le_rfl
    (fun hn ↦ hn) fun k a hka ↦ ?_
  obtain ⟨ha, howner, hkey⟩ := hka
  have hne : k ≠ lane.target.key := by
    rintro rfl
    exact hkey (List.mem_map_of_mem hlane)
  exact ⟨hframe k hne ▸ ha, howner, hkey⟩

theorem Sched.laneCallRuns (h : Sched deps s) {id : ℕ} (hs : s.laneCallRuns deps id = some t) :
    Sched deps t := by
  obtain ⟨lane, hfind, hs⟩ := Option.bind_eq_some_iff.mp hs
  have hlane := List.mem_of_find?_eq_some hfind
  split at hs
  · split at hs
    · next hcall =>
      obtain rfl := Option.some.inj hs
      exact (h.changeRow hlane fun k hk ↦ alarmSet_frame hcall hk).setLane id _
    · exact nomatch hs
  · split at hs
    · next hcall =>
      obtain rfl := Option.some.inj hs
      exact (h.changeRow hlane fun k hk ↦ alarmComplete_frame hcall hk).setLane id _
    · exact nomatch hs
  · exact nomatch hs

/-! ## Runs -/

theorem Sched.step (h : Sched deps s) {e : Event} (hs : step deps s e = some t) : Sched deps t := by
  cases e with
  | start => exact Option.some.inj hs ▸ h.start
  | stop => exact Option.some.inj hs ▸ h.stop
  | quiesce => exact Option.some.inj hs ▸ h.quiesce
  | quiesceContinues call => exact h.quiesceContinues hs
  | notifyChanged => exact Option.some.inj hs ▸ h.notifyChanged
  | tick ms => exact Option.some.inj hs ▸ h.tick ms
  | tableChanges f => exact Option.some.inj hs ▸ h.tableChanges f
  | timerFires => exact h.timerFires hs
  | callRuns => exact h.callRuns hs
  | adoptReturns => exact h.adoptReturns hs
  | readReturns => exact h.readReturns hs
  | claimReturns paused => exact h.claimReturns hs
  | callRejects => exact h.callRejects hs
  | driveContinues => exact h.driveContinues hs
  | driveFinally => exact h.driveFinally hs
  | dispatchReturns id nextAlarm => exact h.dispatchReturns hs
  | dispatchThrows id permanent => exact h.dispatchThrows hs
  | laneCallRuns id => exact h.laneCallRuns hs
  | laneCallReturns id => exact h.laneCallReturns hs
  | laneCallRejects id => exact h.laneCallRejects hs
  | laneFinally id => exact h.laneFinally hs

theorem Sched.new (tables : AlarmTables) : Sched deps (Driver.new tables) := by
  refine Sched.of_stopped ⟨⟨List.nodup_nil, ?_, List.nodup_nil, ?_, ?_⟩, Nat.zero_le _, ?_⟩ rfl
  · exact fun _ hnone ↦ nomatch hnone
  · exact fun _ hnone ↦ nomatch hnone
  · exact fun key ↦ iff_of_false Bool.false_ne_true List.not_mem_nil
  · exact fun _ hnone ↦ nomatch hnone

/-- A driver that is started, does nothing, and has no failed operation to repeat. -/
def Driver.quiet (s : Driver) : Prop :=
  s.stopped = false ∧ s.driving = none ∧ s.failureRetryOperation = none

/-- **No target has two lanes, the lanes are bounded, and no row that could be claimed is forgotten.** -/
theorem timer_covers_free_rows {tables : AlarmTables} {s : Driver}
    (h : Reachable (step deps) anyStep (Driver.new tables) s) :
    s.activeKeys.Nodup ∧ s.activeLanes.length ≤ deps.concurrency ∧
      (s.quiet → s.unnotified = false → s.activeLanes.length < deps.concurrency → s.covered) := by
  have hsched : Sched deps s := h.invariant (I := Sched deps) (Sched.new tables) fun _ _ _ hs _ hstep ↦
    hs.step hstep
  refine ⟨hsched.lanes.occupancy.distinct, hsched.lanes.room, fun hquiet hnotified hfree ↦ ?_⟩
  obtain ⟨hrunning, hidle, hopen⟩ := hquiet
  have hrests := hsched.watches hrunning hnotified
  rw [hidle] at hrests
  rcases hrests with hfailed | hfull | hcovered
  · rw [hopen] at hfailed
    exact nomatch hfailed
  · omega
  · exact hcovered
/-! ### A row that is scheduled -/

def oneLane : Deps := ⟨lit "alarm-driver:1", 1, le_rfl⟩

def mailKey : LifecycleKey := ⟨lit "workers/mail", lit "MailDO", lit "main"⟩

/-- The driver adopts the rows and reads; then a row is scheduled, and the driver reads again. -/
def scheduledRun : List Event :=
  [.start, .callRuns, .adoptReturns, .driveContinues, .callRuns, .readReturns, .driveContinues,
    .driveFinally, .tableChanges fun t ↦ t.schedule mailKey 5, .notifyChanged, .driveContinues, .callRuns,
    .readReturns, .driveContinues, .driveFinally]

/-- The timer is set for the row that was scheduled. -/
theorem timer_covers_free_rows_scheduled : ∃ s : Driver, s.quiet ∧ s.free mailKey ⟨5, 0, none⟩ ∧
    s.covered := by
  have hrun : ((Transition.run (step oneLane) anyStep (Driver.new .empty) scheduledRun).map fun s ↦
      decide (s.stopped = false ∧ s.driving.isNone = true ∧ s.failureRetryOperation = none ∧
        s.unnotified = false ∧ s.activeLanes.length = 0 ∧
        s.tables.alarms.get mailKey = some ⟨5, 0, none⟩ ∧ s.activeKeys = [])) = some true := by
    decide +kernel
  obtain ⟨s, hs, heq⟩ := Option.map_eq_some_iff.mp hrun
  obtain ⟨hrunning, hidle, hopen, hnotified, hlanes, hrow, hkeys⟩ := of_decide_eq_true heq
  have hquiet : s.quiet := ⟨hrunning, Option.isNone_iff_eq_none.mp hidle, hopen⟩
  obtain ⟨-, -, hcovered⟩ := timer_covers_free_rows (Transition.Reachable.run .init hs)
  refine ⟨s, hquiet, ⟨hrow, rfl, hkeys ▸ List.not_mem_nil⟩, hcovered hquiet hnotified ?_⟩
  rw [hlanes]
  exact oneLane.positive

end Vibestudio.Server.Alarms

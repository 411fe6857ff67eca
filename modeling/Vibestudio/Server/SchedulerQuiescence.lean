import Mathlib
import Vibestudio.Server.AlarmScheduling
import Vibestudio.Server.DurableWorkQuiescence

/-!
# Quiescence of the two schedulers

A stopped scheduler of alarms begins no driving operation, and what it drives comes to its end; so a call
of `quiesce` that is not followed by `start` resolves over a driver without lanes. A claim that was under
way when the driver was stopped still starts the lanes of its answer, as the pump of the dispatcher of
durable work does. In the runs in which no claim does, nothing begins until the next start.
-/

namespace Vibestudio.Server.Alarms

open Js WorkspaceState Transition

variable {deps : Deps} {s t : Driver}

/-! ## Steps that begin nothing -/

/-- A stopped driver only goes on with its driving operation. -/
structure Keeps (s t : Driver) : Prop where
  stopped : t.stopped = s.stopped
  quiesces : t.quiesces = s.quiesces
  driving : s.stopped = true → ∀ d, t.driving = some d → s.driving.map Drive.id = some d.id

/-- No lane starts. -/
structure Shrinks (s t : Driver) : Prop extends Keeps s t where
  calls : t.calls = s.calls
  lanes : ∀ lane ∈ t.activeLanes, ∃ lane' ∈ s.activeLanes, lane'.id = lane.id

/-- The driving operation stays or ends, and so do the lanes. -/
theorem Shrinks.of_lanes (hstopped : t.stopped = s.stopped) (hquiesces : t.quiesces = s.quiesces)
    (hdriving : t.driving = s.driving) (hcalls : t.calls = s.calls)
    (hlanes : ∀ lane ∈ t.activeLanes, ∃ lane' ∈ s.activeLanes, lane'.id = lane.id) : Shrinks s t := by
  refine ⟨⟨hstopped, hquiesces, fun _ d hd ↦ ?_⟩, hcalls, hlanes⟩
  rw [← hdriving, hd, Option.map_some]

theorem Shrinks.refl (s : Driver) : Shrinks s s :=
  Shrinks.of_lanes rfl rfl rfl rfl fun lane hlane ↦ ⟨lane, hlane, rfl⟩

theorem shrinks_setDrive (s : Driver) (phase : DrivePhase) : Shrinks s (s.setDrive phase) := by
  refine ⟨⟨rfl, rfl, fun _ d hd ↦ ?_⟩, rfl, fun lane hlane ↦ ⟨lane, hlane, rfl⟩⟩
  obtain ⟨d', hd', rfl⟩ := Option.map_eq_some_iff.mp hd
  rw [hd', Option.map_some]

theorem shrinks_driveLoop (s : Driver) : Shrinks s s.driveLoop := by
  rw [Driver.driveLoop]
  split_ifs
  · exact shrinks_setDrive s _
  · have h := shrinks_setDrive { s with fireRequested := false, refreshRequested := false }
      (if s.adopted then .adopted .fire true else .adopting .fire false)
    exact ⟨⟨h.stopped, h.quiesces, h.driving⟩, h.calls, h.lanes⟩
  · have h := shrinks_setDrive { s with refreshRequested := false }
      (if s.adopted then .adopted .refresh true else .adopting .refresh false)
    exact ⟨⟨h.stopped, h.quiesces, h.driving⟩, h.calls, h.lanes⟩
  · exact shrinks_setDrive s _

theorem shrinks_kick (s : Driver) : Shrinks s s.kick := by
  rw [Driver.kick]
  split_ifs with hbusy
  · exact Shrinks.refl s
  · have h := shrinks_driveLoop
      { s with driving := some ⟨s.nextDrive, .ended⟩, nextDrive := s.nextDrive + 1 }
    exact ⟨⟨h.stopped, h.quiesces, fun hstopped ↦ absurd (.inl hstopped) hbusy⟩, h.calls, h.lanes⟩

theorem shrinks_requestRefresh (s : Driver) : Shrinks s s.requestRefresh := by
  rw [Driver.requestRefresh]
  split_ifs
  · exact Shrinks.refl s
  · exact Shrinks.of_lanes rfl rfl rfl rfl fun lane hlane ↦ ⟨lane, hlane, rfl⟩
  · have h := shrinks_kick { s with refreshRequested := true }
    exact ⟨⟨h.stopped, h.quiesces, h.driving⟩, h.calls, h.lanes⟩

theorem shrinks_requestFire (s : Driver) : Shrinks s s.requestFire := by
  rw [Driver.requestFire]
  split_ifs
  · exact Shrinks.refl s
  · have h := shrinks_kick { s with fireRequested := true }
    exact ⟨⟨h.stopped, h.quiesces, h.driving⟩, h.calls, h.lanes⟩

theorem shrinks_armFailureRetry (s : Driver) (operation : Operation) :
    Shrinks s (s.armFailureRetry operation) := by
  rw [Driver.armFailureRetry]
  split_ifs
  · exact Shrinks.refl s
  · exact Shrinks.of_lanes rfl rfl rfl rfl fun lane hlane ↦ ⟨lane, hlane, rfl⟩

theorem shrinks_setLane (s : Driver) (id : ℕ) (phase : LanePhase) : Shrinks s (s.setLane id phase) := by
  refine Shrinks.of_lanes rfl rfl rfl rfl fun lane hlane ↦ ?_
  obtain ⟨lane', hlane', rfl⟩ := List.mem_map.mp hlane
  refine ⟨lane', hlane', ?_⟩
  split_ifs <;> rfl

/-- What follows a change of fields that admission does not look at. -/
theorem Shrinks.after {u : Driver} (h : Shrinks u t) (hstopped : u.stopped = s.stopped)
    (hquiesces : u.quiesces = s.quiesces) (hdriving : u.driving = s.driving) (hcalls : u.calls = s.calls)
    (hlanes : u.activeLanes = s.activeLanes) : Shrinks s t := by
  refine ⟨⟨h.stopped.trans hstopped, h.quiesces.trans hquiesces, fun hs d hd ↦ ?_⟩, h.calls.trans hcalls,
    hlanes ▸ h.lanes⟩
  rw [← hdriving]
  exact h.driving (hstopped.trans hs) d hd

/-! ## The steps -/

theorem onDrive_some {f : DrivePhase → Option Driver} (hs : s.onDrive f = some t) :
    ∃ d, s.driving = some d ∧ f d.phase = some t := Option.bind_eq_some_iff.mp hs

theorem onLane_some {id : ℕ} {f : Lane → Option Driver} (hs : s.onLane id f = some t) :
    ∃ lane, f lane = some t :=
  have ⟨lane, _, hs⟩ := Option.bind_eq_some_iff.mp hs
  ⟨lane, hs⟩

/-- The events that open or close admission or start lanes. -/
def Event.ofGate : Event → Bool
  | .start | .stop | .quiesce | .quiesceContinues _ | .claimReturns _ => true
  | _ => false

theorem shrinks_timerFires (hs : s.timerFires = some t) : Shrinks s t := by
  obtain ⟨⟨fireAt, task⟩, -, hs⟩ := Option.bind_eq_some_iff.mp hs
  split_ifs at hs
  cases task with
  | wake => exact Option.some.inj hs ▸ (shrinks_requestFire _).after rfl rfl rfl rfl rfl
  | retry operation =>
    cases operation with
    | refresh => exact Option.some.inj hs ▸ (shrinks_requestRefresh _).after rfl rfl rfl rfl rfl
    | fire => exact Option.some.inj hs ▸ (shrinks_requestFire _).after rfl rfl rfl rfl rfl

theorem shrinks_callRuns (hs : s.callRuns deps = some t) : Shrinks s t := by
  obtain ⟨d, -, hs⟩ := onDrive_some hs
  split at hs
  · split at hs
    · exact Option.some.inj hs ▸ (shrinks_setDrive _ _).after rfl rfl rfl rfl rfl
    · exact nomatch hs
  · split at hs
    · exact Option.some.inj hs ▸ shrinks_setDrive s _
    · exact nomatch hs
  · split at hs
    · exact Option.some.inj hs ▸ (shrinks_setDrive _ _).after rfl rfl rfl rfl rfl
    · exact nomatch hs
  · exact nomatch hs

theorem shrinks_adoptReturns (hs : s.adoptReturns = some t) : Shrinks s t := by
  obtain ⟨d, -, hs⟩ := onDrive_some hs
  split at hs
  · split_ifs at hs
    · exact Option.some.inj hs ▸ shrinks_setDrive s _
    · exact Option.some.inj hs ▸ (shrinks_setDrive _ _).after rfl rfl rfl rfl rfl
  · exact nomatch hs

theorem shrinks_readReturns (hs : s.readReturns = some t) : Shrinks s t := by
  obtain ⟨d, -, hs⟩ := onDrive_some hs
  split at hs
  · split_ifs at hs
    · exact Option.some.inj hs ▸ shrinks_setDrive s _
    · exact Option.some.inj hs ▸ (shrinks_setDrive _ _).after rfl rfl rfl rfl rfl
  · exact nomatch hs

theorem Shrinks.trans_setDrive (h : Shrinks s t) (hdriving : t.driving = s.driving) (phase : DrivePhase) :
    Shrinks s (t.setDrive phase) := by
  have hset := shrinks_setDrive t phase
  refine ⟨⟨h.stopped, h.quiesces, fun hs d hd ↦ ?_⟩, h.calls, h.lanes⟩
  rw [← hdriving]
  exact hset.driving (h.stopped.trans hs) d hd

theorem armFailureRetry_driving (s : Driver) (operation : Operation) :
    (s.armFailureRetry operation).driving = s.driving := by
  rw [Driver.armFailureRetry]
  split_ifs <;> rfl

theorem shrinks_callRejects (hs : s.callRejects = some t) : Shrinks s t := by
  obtain ⟨d, -, hs⟩ := onDrive_some hs
  have harmed : ∀ operation phase, Shrinks s ((s.armFailureRetry operation).setDrive phase) :=
    fun operation phase ↦ (shrinks_armFailureRetry s operation).trans_setDrive
      (armFailureRetry_driving s operation) phase
  split at hs
  · exact Option.some.inj hs ▸ harmed .refresh _
  · exact Option.some.inj hs ▸ harmed .refresh _
  · exact Option.some.inj hs ▸ harmed .fire _
  · exact nomatch hs

theorem shrinks_driveContinues (hs : s.driveContinues deps = some t) : Shrinks s t := by
  obtain ⟨d, -, hs⟩ := onDrive_some hs
  split at hs
  · exact Option.some.inj hs ▸ shrinks_setDrive s _
  · exact Option.some.inj hs ▸ shrinks_setDrive s _
  · split_ifs at hs
    · exact Option.some.inj hs ▸ (shrinks_setDrive _ _).after rfl rfl rfl rfl rfl
    · exact Option.some.inj hs ▸ shrinks_setDrive s _
  · split_ifs at hs
    · exact Option.some.inj hs ▸ shrinks_setDrive s _
    · exact Option.some.inj hs ▸ shrinks_setDrive s _
  · exact Option.some.inj hs ▸ shrinks_driveLoop s
  · exact Option.some.inj hs ▸ (shrinks_driveLoop _).after rfl rfl rfl rfl rfl
  · exact Option.some.inj hs ▸ shrinks_driveLoop s
  · exact nomatch hs

theorem shrinks_driveFinally (hs : s.driveFinally = some t) : Shrinks s t := by
  obtain ⟨d, -, hs⟩ := onDrive_some hs
  have hidle : Shrinks s { s with driving := none } :=
    ⟨⟨rfl, rfl, fun _ _ hnone ↦ nomatch hnone⟩, rfl, fun lane hlane ↦ ⟨lane, hlane, rfl⟩⟩
  split at hs
  · obtain rfl := Option.some.inj hs
    split_ifs with hagain
    · have h := shrinks_kick { s with driving := none }
      exact ⟨⟨h.stopped, h.quiesces, fun hstopped ↦ absurd hstopped hagain.1⟩, h.calls, h.lanes⟩
    · exact hidle
  · exact nomatch hs

theorem shrinks_laneCallRuns {id : ℕ} (hs : s.laneCallRuns deps id = some t) : Shrinks s t := by
  obtain ⟨lane, hs⟩ := onLane_some hs
  split at hs
  · split at hs
    · exact Option.some.inj hs ▸ (shrinks_setLane _ id _).after rfl rfl rfl rfl rfl
    · exact nomatch hs
  · split at hs
    · exact Option.some.inj hs ▸ (shrinks_setLane _ id _).after rfl rfl rfl rfl rfl
    · exact nomatch hs
  · exact nomatch hs

theorem shrinks_laneFinally {id : ℕ} (hs : s.laneFinally id = some t) : Shrinks s t := by
  obtain ⟨lane, hs⟩ := onLane_some hs
  split at hs
  · have h := shrinks_requestRefresh { s with
      activeLanes := s.activeLanes.filter fun lane ↦ decide (lane.id ≠ id)
      activeTargets := s.activeTargets.delete (targetKey lane.target) }
    obtain rfl := Option.some.inj hs
    refine ⟨⟨h.stopped, h.quiesces, h.driving⟩, h.calls, fun lane hlane ↦ ?_⟩
    obtain ⟨lane', hlane', hid⟩ := h.lanes lane hlane
    exact ⟨lane', List.mem_of_mem_filter hlane', hid⟩
  · exact nomatch hs

/-- **Every other step begins nothing.** -/
theorem shrinks_step {e : Event} (he : e.ofGate = false) (hs : step deps s e = some t) : Shrinks s t := by
  cases e with
  | start | stop | quiesce | quiesceContinues _ | claimReturns _ => exact nomatch he
  | notifyChanged => exact Option.some.inj hs ▸ (shrinks_requestRefresh _).after rfl rfl rfl rfl rfl
  | tick ms => exact Option.some.inj hs ▸ (Shrinks.refl _).after rfl rfl rfl rfl rfl
  | tableChanges f => exact Option.some.inj hs ▸ (Shrinks.refl _).after rfl rfl rfl rfl rfl
  | timerFires => exact shrinks_timerFires hs
  | callRuns => exact shrinks_callRuns hs
  | adoptReturns => exact shrinks_adoptReturns hs
  | readReturns => exact shrinks_readReturns hs
  | callRejects => exact shrinks_callRejects hs
  | driveContinues => exact shrinks_driveContinues hs
  | driveFinally => exact shrinks_driveFinally hs
  | laneCallRuns id => exact shrinks_laneCallRuns hs
  | laneFinally id => exact shrinks_laneFinally hs
  | dispatchReturns id nextAlarm =>
    obtain ⟨lane, hs⟩ := onLane_some hs
    split at hs
    · exact Option.some.inj hs ▸ shrinks_setLane s id _
    · exact nomatch hs
  | dispatchThrows id permanent =>
    obtain ⟨lane, hs⟩ := onLane_some hs
    split at hs
    · exact Option.some.inj hs ▸ shrinks_setLane s id _
    · exact nomatch hs
  | laneCallReturns id =>
    obtain ⟨lane, hs⟩ := onLane_some hs
    split at hs
    · exact Option.some.inj hs ▸ shrinks_setLane s id _
    · exact Option.some.inj hs ▸ shrinks_setLane s id _
    · exact nomatch hs
  | laneCallRejects id =>
    obtain ⟨lane, hs⟩ := onLane_some hs
    split at hs
    · exact Option.some.inj hs ▸ shrinks_setLane s id _
    · exact Option.some.inj hs ▸ shrinks_setLane s id _
    · exact nomatch hs
/-- A claim returns to the operation that made it. -/
theorem claimReturns_cases {paused : LifecycleKey → Bool} (hs : s.claimReturns paused = some t) :
    ∃ d input due u, s.driving = some d ∧ d.phase = .claiming input (some due) ∧
      Driver.startLanes paused due { s with consecutiveFailures := 0 } = (u, true) ∧
      t = u.setDrive (.fired true) := by
  obtain ⟨d, hd, hs⟩ := onDrive_some hs
  split at hs
  case h_2 => exact nomatch hs
  rename_i input due hphase
  split at hs
  case h_2 => exact nomatch hs
  rename_i u hstart
  exact ⟨d, input, due, u, hd, hphase, hstart, (Option.some.inj hs).symm⟩

/-! ## Admission -/

/-- Whether the driver was started and not stopped since. -/
def openIn : List Call → Bool
  | [] => false
  | .start :: _ => true
  | .stop :: _ => false
  | .dispatch _ :: older => openIn older

/-- **Every dispatch began while the driver was started.** -/
def Admitted : List Call → Prop
  | [] => True
  | .dispatch _ :: older => openIn older = true ∧ Admitted older
  | .start :: older | .stop :: older => Admitted older

/-- The calls so far, and what they say about the driver. -/
structure Admits (s : Driver) : Prop where
  admitted : Admitted s.calls
  stopped : openIn s.calls = !s.stopped

/-- The condition on the steps of a run: no claim answers a stopped driver with a target to dispatch. -/
def dispatchesInTime (s : Driver) : Event → Bool
  | .claimReturns paused => !s.stopped || (s.driving.any fun d ↦ match d.phase with
    | .claiming _ (some due) => due.all fun target ↦ paused target.key
    | _ => false)
  | _ => true

theorem Admits.shrinks (h : Admits s) (hst : Shrinks s t) : Admits t := by
  constructor
  · rw [hst.calls]
    exact h.admitted
  · rw [hst.calls, hst.stopped]
    exact h.stopped

theorem Admits.startLanes {paused : LifecycleKey → Bool} {due : List AlarmClaim} :
    ∀ {s t : Driver}, Driver.startLanes paused due s = (t, true) → Admits s →
      s.stopped = false ∨ (due.all fun target ↦ paused target.key) = true → Admits t := by
  induction due with
  | nil =>
    intro s t h hs _
    obtain ⟨rfl, -⟩ := Prod.mk.inj h
    exact hs
  | cons target due ih =>
    intro s t h hs hor
    rw [Driver.startLanes] at h
    split_ifs at h with hactive
    · cases congrArg Prod.snd h
    · have hlane : Admits (s.startLane paused target) := by
        rw [Driver.startLane]
        split_ifs with hpaused
        · exact ⟨hs.admitted, hs.stopped⟩
        · -- a target that is not paused is dispatched by a driver that is not stopped
          have hrunning : s.stopped = false := hor.resolve_right fun hall ↦
            hpaused (List.all_eq_true.mp hall target List.mem_cons_self)
          refine ⟨⟨?_, hs.admitted⟩, hs.stopped⟩
          rw [hs.stopped, hrunning]
          rfl
      have hrest : (s.startLane paused target).stopped = false ∨
          (due.all fun target ↦ paused target.key) = true := hor.imp_right fun hall ↦
        (Bool.and_eq_true_iff.mp hall).2
      exact ih h hlane hrest

/-- **A step that meets the condition** dispatches nothing of a driver that is stopped. -/
theorem Admits.step (h : Admits s) {e : Event} (hok : dispatchesInTime s e = true)
    (hs : step deps s e = some t) : Admits t := by
  cases he : e.ofGate with
  | false => exact h.shrinks (shrinks_step he hs)
  | true =>
    cases e with
    | start =>
      obtain rfl := Option.some.inj hs
      have hopen : Admits { s with
          stopped := false
          adopted := false
          quiesces := s.quiesces.map fun q ↦ { q with restarted := true }
          calls := .start :: s.calls } := ⟨h.admitted, rfl⟩
      exact hopen.shrinks (shrinks_requestRefresh _)
    | stop => exact Option.some.inj hs ▸ ⟨h.admitted, rfl⟩
    | quiesce => exact Option.some.inj hs ▸ ⟨h.admitted, rfl⟩
    | quiesceContinues call =>
      obtain ⟨q, -, hs⟩ := Option.bind_eq_some_iff.mp hs
      obtain ⟨phase, -, rfl⟩ := Option.map_eq_some_iff.mp hs
      exact ⟨h.admitted, h.stopped⟩
    | claimReturns paused =>
      obtain ⟨d, input, due, u, hd, hphase, hstart, rfl⟩ := claimReturns_cases hs
      rw [dispatchesInTime, hd, Option.any_some, hphase, Bool.or_eq_true, Bool.not_eq_true'] at hok
      have hzero : Admits { s with consecutiveFailures := 0 } := ⟨h.admitted, h.stopped⟩
      exact (hzero.startLanes hstart hok).shrinks (shrinks_setDrive u _)
    | _ => exact nomatch he

/-! ## Calls of quiesce -/

/-- What a call of `quiesce` has seen end, unless the driver was started again. -/
def Quiesce.Holds (s : Driver) (q : Quiesce) : Prop := q.restarted = false → s.stopped = true ∧
  match q.phase with
  | .awaitsDrive drive => ∀ d, s.driving = some d → drive = some d.id
  | .awaitsLanes lanes => s.driving = none ∧ ∀ lane ∈ s.activeLanes, lane.id ∈ lanes
  | .resolved => s.driving = none ∧ s.activeLanes = []

def Quiesces (s : Driver) : Prop := ∀ q ∈ s.quiesces, q.Holds s

theorem Keeps.idle (h : Keeps s t) (hstopped : s.stopped = true) (hidle : s.driving = none) :
    t.driving = none := by
  cases hd : t.driving with
  | none => rfl
  | some d =>
    have hid := h.driving hstopped d hd
    rw [hidle] at hid
    exact nomatch hid

/-- What has ended stays so while the driver is stopped. -/
theorem Quiesce.Holds.keep {q : Quiesce} (h : q.Holds s) (hst : Keeps s t)
    (hlanes : s.driving = none → ∀ lane ∈ t.activeLanes, ∃ lane' ∈ s.activeLanes, lane'.id = lane.id) :
    q.Holds t := by
  intro hrestarted
  obtain ⟨hstopped, hphase⟩ := h hrestarted
  refine ⟨hst.stopped.trans hstopped, ?_⟩
  split at hphase
  · intro d hd
    obtain ⟨d', hd', hid⟩ := Option.map_eq_some_iff.mp (hst.driving hstopped d hd)
    rw [hphase d' hd', hid]
  · obtain ⟨hidle, hmem⟩ := hphase
    refine ⟨hst.idle hstopped hidle, fun lane hlane ↦ ?_⟩
    obtain ⟨lane', hlane', hid⟩ := hlanes hidle lane hlane
    exact hid ▸ hmem lane' hlane'
  · obtain ⟨hidle, hnone⟩ := hphase
    refine ⟨hst.idle hstopped hidle, List.eq_nil_iff_forall_not_mem.mpr fun lane hlane ↦ ?_⟩
    obtain ⟨lane', hlane', -⟩ := hlanes hidle lane hlane
    rw [hnone] at hlane'
    exact nomatch hlane'

theorem Quiesces.start : Quiesces s.start := by
  intro q hq
  have hquiesces := (shrinks_requestRefresh { s with
    stopped := false
    adopted := false
    quiesces := s.quiesces.map fun q ↦ { q with restarted := true }
    calls := .start :: s.calls }).quiesces
  rw [Driver.start, hquiesces] at hq
  obtain ⟨q', -, rfl⟩ := List.mem_map.mp hq
  exact fun hnot ↦ nomatch hnot

/-- `stop` only closes. -/
theorem Quiesce.Holds.stop {q : Quiesce} (h : q.Holds s) : q.Holds s.stop := by
  intro hrestarted
  obtain ⟨-, hphase⟩ := h hrestarted
  refine ⟨rfl, ?_⟩
  split at hphase
  · exact hphase
  · obtain ⟨hidle, hmem⟩ := hphase
    refine ⟨hidle, fun lane hlane ↦ ?_⟩
    obtain ⟨lane', hlane', rfl⟩ := List.mem_map.mp hlane
    rw [abortDispatch_id]
    exact hmem lane' hlane'
  · exact ⟨hphase.1, by rw [Driver.stop, hphase.2, List.map_nil]⟩

theorem Quiesces.quiesce (h : Quiesces s) : Quiesces s.quiesce := by
  intro q hq
  rcases List.mem_append.mp hq with hq | hq
  · exact (h q hq).stop
  · rw [List.mem_singleton.mp hq]
    refine fun _ ↦ ⟨rfl, fun d hd ↦ ?_⟩
    have hdriving : s.driving = some d := hd
    rw [Driver.stop, hdriving, Option.map_some]

theorem Quiesces.quiesceContinues (h : Quiesces s) {i : ℕ} (hs : s.quiesceContinues i = some t) :
    Quiesces t := by
  obtain ⟨q, hq, hs⟩ := Option.bind_eq_some_iff.mp hs
  obtain ⟨phase, hphase, rfl⟩ := Option.map_eq_some_iff.mp hs
  intro q' hq'
  have hkeep : ∀ q : Quiesce, q.Holds s → q.Holds { s with quiesces := s.quiesces.set i { q with phase } } :=
    fun _ hq ↦ hq
  rcases List.mem_or_eq_of_mem_set hq' with hq' | rfl
  · exact h q' hq'
  · intro hrestarted
    obtain ⟨hstopped, hholds⟩ := h q (List.mem_of_getElem? hq) hrestarted
    refine ⟨hstopped, ?_⟩
    cases hq₀ : q.phase with
    | awaitsDrive drive =>
      rw [hq₀] at hholds hphase
      rw [Driver.continueQuiesce] at hphase
      split_ifs at hphase with hwaits
      obtain rfl := Option.some.inj hphase
      refine ⟨?_, fun lane hlane ↦ List.mem_map_of_mem hlane⟩
      cases hd : s.driving with
      | none => rfl
      | some d =>
        -- the operation that was waited for is still there
        have hdrive := hholds d hd
        rw [hd, hdrive] at hwaits
        exact absurd ⟨rfl, rfl⟩ hwaits
    | awaitsLanes lanes =>
      rw [hq₀] at hholds hphase
      rw [Driver.continueQuiesce] at hphase
      split_ifs at hphase with hwaits
      obtain rfl := Option.some.inj hphase
      refine ⟨hholds.1, List.eq_nil_iff_forall_not_mem.mpr fun lane hlane ↦ hwaits ?_⟩
      exact List.any_eq_true.mpr ⟨lane, hlane, decide_eq_true (hholds.2 lane hlane)⟩
    | resolved =>
      rw [hq₀] at hphase
      exact nomatch hphase

theorem keeps_startLanes {paused : LifecycleKey → Bool} {due : List AlarmClaim} :
    ∀ {s t : Driver}, Driver.startLanes paused due s = (t, true) → Keeps s t := by
  induction due with
  | nil =>
    intro s t h
    obtain ⟨rfl, -⟩ := Prod.mk.inj h
    exact (Shrinks.refl s).toKeeps
  | cons target due ih =>
    intro s t h
    rw [Driver.startLanes] at h
    split_ifs at h with hactive
    · cases congrArg Prod.snd h
    · have hkeeps := ih h
      exact ⟨hkeeps.stopped, hkeeps.quiesces, hkeeps.driving⟩

theorem Quiesces.step (h : Quiesces s) {e : Event} (hs : step deps s e = some t) : Quiesces t := by
  cases he : e.ofGate with
  | false =>
    have hshrinks := shrinks_step he hs
    intro q hq
    rw [hshrinks.quiesces] at hq
    exact (h q hq).keep hshrinks.toKeeps fun _ ↦ hshrinks.lanes
  | true =>
    cases e with
    | start => exact Option.some.inj hs ▸ Quiesces.start
    | stop => exact Option.some.inj hs ▸ fun q hq ↦ (h q hq).stop
    | quiesce => exact Option.some.inj hs ▸ h.quiesce
    | quiesceContinues call => exact h.quiesceContinues hs
    | claimReturns paused =>
      obtain ⟨d, input, due, u, hd, -, hstart, rfl⟩ := claimReturns_cases hs
      have hkeeps := keeps_startLanes hstart
      have hset := shrinks_setDrive u (.fired true)
      have hquiesces : u.quiesces = s.quiesces := hkeeps.quiesces
      have hstopped : u.stopped = s.stopped := hkeeps.stopped
      have hboth : Keeps s (u.setDrive (.fired true)) := by
        refine ⟨hkeeps.stopped, hkeeps.quiesces, fun hs d' hd' ↦ ?_⟩
        obtain ⟨d'', hd'', hid⟩ := Option.map_eq_some_iff.mp (hset.driving (hstopped.trans hs) d' hd')
        rw [← hid]
        exact hkeeps.driving hs d'' hd''
      intro q hq
      exact (h q (hquiesces ▸ hq)).keep hboth fun hnone ↦ nomatch hd.symm.trans hnone
    | _ => exact nomatch he

theorem Admits.new (tables : AlarmTables) : Admits (Driver.new tables) := ⟨trivial, rfl⟩

theorem Quiesces.new (tables : AlarmTables) : Quiesces (Driver.new tables) :=
  fun q (hq : q ∈ ([] : List Quiesce)) ↦ nomatch hq

/-- **Quiescence of the scheduler of alarms.** -/
theorem alarm_quiescence (tables : AlarmTables) :
    (∀ s : Driver, Reachable (step deps) dispatchesInTime (Driver.new tables) s → Admitted s.calls) ∧
      ∀ s : Driver, Reachable (step deps) anyStep (Driver.new tables) s →
        ∀ q ∈ s.quiesces, q.phase = .resolved → q.restarted = false →
          s.driving = none ∧ s.activeLanes = [] := by
  constructor
  · intro s h
    have hadmits : Admits s := h.invariant (I := Admits) (Admits.new tables) fun _ _ _ hadmits hok hs ↦
      hadmits.step hok hs
    exact hadmits.admitted
  · intro s h q hq hphase hrestarted
    have hquiesces : Quiesces s := h.invariant (I := Quiesces) (Quiesces.new tables)
      fun _ _ _ hquiesces _ hs ↦ hquiesces.step hs
    have hholds := hquiesces q hq hrestarted
    rw [hphase] at hholds
    exact hholds.2
end Vibestudio.Server.Alarms

namespace Vibestudio.Server

open Js WorkspaceState Transition

/-! ## Both schedulers -/

/-- **Quiescence closes admission.** In a run in which no claim answers a stopped driver with work to
start, preparations, executions and dispatches begin only between a start and the next stop; and in any
run a call of `quiesce` that has resolved without another start has left nothing that runs. -/
theorem quiescence_closes_admission {Ω : Type} (work : DurableWork.Deps) (alarms : Alarms.Deps)
    (tables : AlarmTables) :
    ((∀ s, Reachable (DurableWork.step work) (DurableWork.grantsInTime work) (DurableWork.Driver.new Ω) s →
        DurableWork.Admitted s.calls) ∧
      ∀ s, Reachable (DurableWork.step work) anyStep (DurableWork.Driver.new Ω) s →
        ∀ q ∈ s.quiesces, q.phase = .resolved → q.restarted = false →
          s.pumping = none ∧ s.prerequisites = [] ∧ s.runners = [] ∧ s.runnable = [] ∧
            s.activeLanes = []) ∧
    (∀ s, Reachable (Alarms.step alarms) Alarms.dispatchesInTime (Alarms.Driver.new tables) s →
        Alarms.Admitted s.calls) ∧
      ∀ s, Reachable (Alarms.step alarms) anyStep (Alarms.Driver.new tables) s →
        ∀ q ∈ s.quiesces, q.phase = .resolved → q.restarted = false →
          s.driving = none ∧ s.activeLanes = [] :=
  ⟨DurableWork.work_quiescence, Alarms.alarm_quiescence tables⟩

/-- A delivery is executed until the driver is quiesced. -/
def quiescedWork : List (DurableWork.Event Unit) :=
  [.start, .pumpFinishes] ++ DurableWork.deliver 1 ++ [.quiesce, .executeThrows 0, .runnerFinally 0,
    .quiesceContinues 0, .quiesceContinues 0, .quiesceContinues 0]

/-- The alarm of a row is due, and the driver claims it. -/
def dueRun : List Alarms.Event :=
  Alarms.scheduledRun ++ [.tick 5, .timerFires, .driveContinues, .callRuns]

/-- The dispatch of the row is aborted by `quiesce`. -/
def quiescedAlarms : List Alarms.Event :=
  dueRun ++ [.claimReturns fun _ ↦ false, .driveContinues, .driveContinues, .driveContinues, .driveFinally,
    .quiesce, .dispatchThrows 0 false, .quiesceContinues 0, .laneFinally 0, .quiesceContinues 0]

/-- Both drivers have started work, and nothing is left when the quiescence has resolved. -/
theorem quiescence_closes_admission_resolved :
    (∃ s : DurableWork.Driver Unit, .execute 0 ∈ s.calls ∧ DurableWork.Admitted s.calls ∧ s.runners = []) ∧
      ∃ s : Alarms.Driver, .dispatch 0 ∈ s.calls ∧ Alarms.Admitted s.calls ∧ s.activeLanes = [] := by
  obtain ⟨⟨hwork, hworkEnds⟩, halarms, halarmsEnd⟩ :=
    quiescence_closes_admission (Ω := Unit) DurableWork.eightSlots Alarms.oneLane .empty
  constructor
  · have hrun : ((run (DurableWork.step DurableWork.eightSlots)
        (DurableWork.grantsInTime DurableWork.eightSlots) (DurableWork.Driver.new Unit) quiescedWork).map
          fun s ↦ decide (.execute 0 ∈ s.calls ∧ s.quiesces = [⟨.resolved, false⟩])) = some true := by
      decide +kernel
    obtain ⟨s, hs, heq⟩ := Option.map_eq_some_iff.mp hrun
    obtain ⟨hexecuted, hquiesces⟩ := of_decide_eq_true heq
    have hreach := Reachable.init.run hs
    have hends := hworkEnds s hreach.anyStep _ (hquiesces ▸ List.mem_singleton_self _) rfl rfl
    exact ⟨s, hexecuted, hwork s hreach, hends.2.2.1⟩
  · have hrun : ((run (Alarms.step Alarms.oneLane) Alarms.dispatchesInTime (Alarms.Driver.new .empty)
        quiescedAlarms).map fun s ↦
          decide (.dispatch 0 ∈ s.calls ∧ s.quiesces = [⟨.resolved, false⟩])) = some true := by
      decide +kernel
    obtain ⟨s, hs, heq⟩ := Option.map_eq_some_iff.mp hrun
    obtain ⟨hdispatched, hquiesces⟩ := of_decide_eq_true heq
    have hreach := Reachable.init.run hs
    have hends := halarmsEnd s hreach.anyStep _ (hquiesces ▸ List.mem_singleton_self _) rfl rfl
    exact ⟨s, hdispatched, halarms s hreach, hends.2⟩

/-- **Claims that return late**: an execution and a dispatch begin after the driver was quiesced. -/
theorem not_always_closed :
    (¬∀ (work : DurableWork.Deps) (s : DurableWork.Driver Unit),
      Reachable (DurableWork.step work) anyStep (DurableWork.Driver.new Unit) s →
        DurableWork.Admitted s.calls) ∧
      ¬∀ (alarms : Alarms.Deps) (tables : AlarmTables) (s : Alarms.Driver),
        Reachable (Alarms.step alarms) anyStep (Alarms.Driver.new tables) s → Alarms.Admitted s.calls := by
  constructor
  · intro hall
    have hrun : ((run (DurableWork.step DurableWork.eightSlots) anyStep (DurableWork.Driver.new Unit)
        [.start, .pumpFinishes, .notify DurableWork.channelHint, .claimBegins, .quiesce,
          .claimReturns [⟨lit "batch", 1, some (lit "target")⟩]]).map fun s ↦
            (s.calls.head?, DurableWork.acceptingIn s.calls)) = some (some (.execute 0), false) := by
      decide +kernel
    obtain ⟨s, hs, hcalls⟩ := Option.map_eq_some_iff.mp hrun
    have hadmitted := hall DurableWork.eightSlots s (Reachable.init.run hs)
    obtain ⟨hhead, hclosed⟩ := Prod.mk.inj hcalls
    obtain ⟨older, holder⟩ := List.head?_eq_some_iff.mp hhead
    rw [holder] at hadmitted hclosed
    exact nomatch (hadmitted.1 rfl).symm.trans hclosed
  · intro hall
    have hrun : ((run (Alarms.step Alarms.oneLane) anyStep (Alarms.Driver.new .empty)
        (dueRun ++ [.quiesce, .claimReturns fun _ ↦ false])).map fun s ↦ s.calls) =
          some [.dispatch 0, .stop, .start] := by
      decide +kernel
    obtain ⟨s, hs, hcalls⟩ := Option.map_eq_some_iff.mp hrun
    have hadmitted := hall Alarms.oneLane .empty s (Reachable.init.run hs)
    rw [hcalls] at hadmitted
    exact nomatch hadmitted.1

end Vibestudio.Server

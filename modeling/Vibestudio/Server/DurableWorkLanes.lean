import Mathlib
import Vibestudio.Server.DurableWorkJobs
import Vibestudio.Transition.Run

/-!
# Lanes, slots and calls of the dispatcher

The invariant of the jobs holds in every state that the dispatcher reaches, so the work in hand never
shares a lane, and every call of a handler is one that the calls before it allow.
-/

namespace Vibestudio.Server.DurableWork

open Js Transition

variable {Ω : Type}

/-! ## Flags and the record of calls -/

/-- A call that says nothing about whether the driver admits work, or a claim was aborted. -/
def Call.plain : Call Ω → Bool
  | .start | .quiesce | .received _ _ _ => false
  | _ => true

theorem acceptingIn_cons {c : Call Ω} (hc : c.plain = true) (calls : List (Call Ω)) :
    acceptingIn (c :: calls) = acceptingIn calls := by
  cases c <;> first | rfl | exact nomatch hc

theorem abortedIn_cons {c : Call Ω} (hc : c.plain = true) (id : ℕ) (calls : List (Call Ω)) :
    abortedIn id (c :: calls) = abortedIn id calls := by
  cases c <;> first | rfl | exact nomatch hc

/-- What the flags of the driver say about the calls so far. -/
structure Flags (calls : List (Call Ω)) (accepting : Bool) (prerequisites : List Preparation)
    (runners : List (Runner Ω)) (quiesces : List Quiesce) : Prop where
  accepting : acceptingIn calls = accepting
  prerequisites : ∀ p ∈ prerequisites, p.aborted = true → abortedIn p.work.id calls = true
  runners : ∀ r ∈ runners, r.aborted = true → abortedIn r.work.id calls = true
  quiesces : quiesces ≠ [] → .quiesce ∈ calls

namespace Flags

variable {calls : List (Call Ω)} {accepting : Bool} {prerequisites : List Preparation}
  {runners : List (Runner Ω)} {quiesces : List Quiesce}

theorem record (h : Flags calls accepting prerequisites runners quiesces) (c : Call Ω)
    (hc : c.plain = true) : Flags (c :: calls) accepting prerequisites runners quiesces where
  accepting := (acceptingIn_cons hc calls).trans h.accepting
  prerequisites p hp haborted := (abortedIn_cons hc _ calls).trans (h.prerequisites p hp haborted)
  runners r hr haborted := (abortedIn_cons hc _ calls).trans (h.runners r hr haborted)
  quiesces hq := List.mem_cons_of_mem c (h.quiesces hq)

theorem received (h : Flags calls accepting prerequisites runners quiesces) {id : ℕ}
    (hprerequisites : ∀ p ∈ prerequisites, p.work.id ≠ id) (hrunners : ∀ r ∈ runners, r.work.id ≠ id)
    (lane : JsString) (occupied : Bool) :
    Flags (.received id lane occupied :: calls) accepting prerequisites runners quiesces where
  accepting := h.accepting
  prerequisites p hp haborted := by
    rw [abortedIn, if_neg (hprerequisites p hp).symm]
    exact h.prerequisites p hp haborted
  runners r hr haborted := by
    rw [abortedIn, if_neg (hrunners r hr).symm]
    exact h.runners r hr haborted
  quiesces hq := List.mem_cons_of_mem _ (h.quiesces hq)

/-- The same work, with the same flags. -/
theorem sub {prerequisites' : List Preparation} {runners' : List (Runner Ω)}
    (h : Flags calls accepting prerequisites runners quiesces)
    (hprerequisites : ∀ p ∈ prerequisites', p.aborted = true →
      ∃ p' ∈ prerequisites, p'.work = p.work ∧ p'.aborted = true)
    (hrunners : ∀ r ∈ runners', r.aborted = true →
      ∃ r' ∈ runners, r'.work = r.work ∧ r'.aborted = true) :
    Flags calls accepting prerequisites' runners' quiesces where
  accepting := h.accepting
  prerequisites p hp haborted := by
    obtain ⟨p', hp', hwork, haborted'⟩ := hprerequisites p hp haborted
    exact hwork ▸ h.prerequisites p' hp' haborted'
  runners r hr haborted := by
    obtain ⟨r', hr', hwork, haborted'⟩ := hrunners r hr haborted
    exact hwork ▸ h.runners r' hr' haborted'
  quiesces := h.quiesces

theorem mapPrerequisites (h : Flags calls accepting prerequisites runners quiesces)
    {f : Preparation → Preparation} (hf : ∀ p, (f p).work = p.work ∧ (f p).aborted = p.aborted) :
    Flags calls accepting (prerequisites.map f) runners quiesces := by
  refine h.sub (fun p hp haborted ↦ ?_) fun r hr haborted ↦ ⟨r, hr, rfl, haborted⟩
  obtain ⟨p', hp', rfl⟩ := List.mem_map.mp hp
  exact ⟨p', hp', (hf p').1.symm, (hf p').2 ▸ haborted⟩

theorem mapRunners (h : Flags calls accepting prerequisites runners quiesces)
    {f : Runner Ω → Runner Ω} (hf : ∀ r, (f r).work = r.work ∧ (f r).aborted = r.aborted) :
    Flags calls accepting prerequisites (runners.map f) quiesces := by
  refine h.sub (fun p hp haborted ↦ ⟨p, hp, rfl, haborted⟩) fun r hr haborted ↦ ?_
  obtain ⟨r', hr', rfl⟩ := List.mem_map.mp hr
  exact ⟨r', hr', (hf r').1.symm, (hf r').2 ▸ haborted⟩

theorem addPreparation (h : Flags calls accepting prerequisites runners quiesces) (w : Work)
    (phase : PreparationPhase) :
    Flags calls accepting (prerequisites ++ [⟨w, false, phase⟩]) runners quiesces := by
  refine h.sub (fun p hp haborted ↦ ?_) fun r hr haborted ↦ ⟨r, hr, rfl, haborted⟩
  rcases List.mem_append.mp hp with hp | hp
  · exact ⟨p, hp, rfl, haborted⟩
  · rw [List.mem_singleton.mp hp] at haborted
    exact nomatch haborted

theorem addRunner (h : Flags calls accepting prerequisites runners quiesces) (w : Work)
    (phase : RunnerPhase Ω) :
    Flags calls accepting prerequisites (runners ++ [⟨w, false, phase⟩]) quiesces := by
  refine h.sub (fun p hp haborted ↦ ⟨p, hp, rfl, haborted⟩) fun r hr haborted ↦ ?_
  rcases List.mem_append.mp hr with hr | hr
  · exact ⟨r, hr, rfl, haborted⟩
  · rw [List.mem_singleton.mp hr] at haborted
    exact nomatch haborted

theorem start (h : Flags calls accepting prerequisites runners quiesces) {quiesces' : List Quiesce}
    (hq : quiesces' ≠ [] → quiesces ≠ []) :
    Flags (.start :: calls) true prerequisites runners quiesces' :=
  ⟨rfl, h.prerequisites, h.runners, fun hne ↦ List.mem_cons_of_mem _ (h.quiesces (hq hne))⟩

theorem quiesce (calls : List (Call Ω)) (prerequisites : List Preparation) (runners : List (Runner Ω))
    (quiesces : List Quiesce) : Flags (.quiesce :: calls) false prerequisites runners quiesces :=
  ⟨rfl, fun _ _ _ ↦ rfl, fun _ _ _ ↦ rfl, fun _ ↦ List.mem_cons_self⟩

theorem setQuiesces (h : Flags calls accepting prerequisites runners quiesces)
    {quiesces' : List Quiesce} (hq : quiesces' ≠ [] → quiesces ≠ []) :
    Flags calls accepting prerequisites runners quiesces' :=
  ⟨h.accepting, h.prerequisites, h.runners, fun hne ↦ h.quiesces (hq hne)⟩

end Flags

/-! ## The invariant -/

theorem releaseLane_eq (s : Driver Ω) (lane : JsString) (token : ℕ) :
    s.releaseLane lane token = { s with activeLanes := releasedLanes s.activeLanes lane token } := by
  rw [Driver.releaseLane, releasedLanes]
  split_ifs <;> rfl

def Driver.workJobs (s : Driver Ω) : Multiset (Job Ω) :=
  DurableWork.workJobs s.prerequisites s.runnable s.runners

/-- The invariant of a state in which the pump has `pumped` in hand and may start `promised` more. -/
structure Sound (deps : Deps) (s : Driver Ω) (pumped : Multiset (Job Ω)) (promised : ℕ) : Prop where
  jobs : JobsOk s.activeLanes s.nextWork s.calls (s.workJobs + pumped)
  owned : Owned s.activeLanes (s.workJobs + pumped)
  ids : (s.prerequisites.map (·.work.id)).Nodup
  bound : ∀ p ∈ s.prerequisites, p.work.id < s.nextWork
  room : s.runners.length + promised ≤ deps.concurrency
  flags : Flags s.calls s.accepting s.prerequisites s.runners s.quiesces

def Pump.jobs : Option Pump → Multiset (Job Ω)
  | some p => p.phase.jobs
  | none => 0

def Pump.promised : Option Pump → ℕ
  | some p => p.phase.promised
  | none => 0

/-- **The invariant.** -/
def Safe (deps : Deps) (s : Driver Ω) : Prop := Sound deps s (Pump.jobs s.pumping) (Pump.promised s.pumping)

variable {deps : Deps} {s : Driver Ω} {pumped : Multiset (Job Ω)} {promised : ℕ}

theorem PumpPhase.jobs_cases (phase : PumpPhase) :
    (phase.jobs : Multiset (Job Ω)) = 0 ∨ ∃ (w : Work) (stage : Stage Ω),
      phase.jobs = {w.job stage} ∧ stage.holds = false ∧ stage.mayOwn = false := by
  cases phase with
  | failQueued w rest => exact .inr ⟨w, .duplicate, rfl, rfl, rfl⟩
  | failing w rest => exact .inr ⟨w, .duplicateFailing, rfl, rfl, rfl⟩
  | claimQueued key hint | claiming key hint limit | returned => exact .inl rfl

namespace Sound

/-- What the pump had in hand is let go of. -/
theorem letGo (phase : PumpPhase) (h : Sound deps s phase.jobs phase.promised) : Sound deps s 0 0 := by
  refine ⟨?_, ?_, h.ids, h.bound, (Nat.le_add_right _ _).trans h.room, h.flags⟩
  · rcases phase.jobs_cases with hnone | ⟨w, stage, hone, hholds, -⟩
    · exact hnone ▸ h.jobs
    · have hjobs := h.jobs
      rw [hone, Multiset.add_comm, Multiset.singleton_add] at hjobs
      rw [add_zero]
      exact hjobs.drop fun hj ↦ absurd hj (hholds ▸ Bool.false_ne_true)
  · rcases phase.jobs_cases with hnone | ⟨w, stage, hone, -, hmay⟩
    · exact hnone ▸ h.owned
    · have howned := h.owned
      rw [hone, Multiset.add_comm, Multiset.singleton_add] at howned
      rw [add_zero]
      exact howned.drop_duplicate hmay

theorem of_safe (h : Safe deps s) : Sound deps s 0 0 := by
  unfold Safe at h
  cases hpump : s.pumping with
  | none => rw [hpump] at h; exact h
  | some p => rw [hpump] at h; exact letGo p.phase h

/-- The pump goes on to a phase. -/
theorem setPump (phase : PumpPhase) (h : Sound deps s phase.jobs phase.promised) :
    Safe deps (s.setPump phase) := by
  unfold Safe Driver.setPump
  cases hpump : s.pumping with
  | none =>
    have hnone := letGo phase h
    exact ⟨hnone.jobs, hnone.owned, hnone.ids, hnone.bound, hnone.room, hnone.flags⟩
  | some p => exact ⟨h.jobs, h.owned, h.ids, h.bound, h.room, h.flags⟩

end Sound

theorem get_set_same {lanes : JsMap JsString ℕ} {lane : JsString} {id : ℕ}
    (h : lanes.get lane = some id) (lane' : JsString) :
    (lanes.set lane id).get lane' = lanes.get lane' := by
  rw [JsMap.get_set]
  split_ifs with heq
  · rw [heq, h]
  · rfl

/-- Work that waits for a slot starts to execute. -/
theorem Sound.startRunner {w : Work} {ready : List Work}
    (h : Sound deps { s with runnable := w :: ready } 0 0) (hslot : s.hasSlot deps = true) :
    Sound deps { s.startRunner w with runnable := ready } 0 0 := by
  have hjobs := h.jobs
  have howned := h.owned
  simp only [Driver.workJobs, workJobs_runnable_cons, add_zero] at hjobs howned
  obtain ⟨harrived, hquiet⟩ : Arrived s.calls w.id ∧ Quiet s.calls w.id :=
    hjobs.facts _ (Multiset.mem_cons_self _ _)
  have hlane : s.activeLanes.get w.lane = some w.id := hjobs.lanes _ (Multiset.mem_cons_self _ _) rfl
  have hsame := get_set_same hlane
  refine ⟨?_, ?_, h.ids, h.bound, ?_, (h.flags.record _ rfl).addRunner w .executing⟩
  · simp only [Driver.workJobs, Driver.startRunner, workJobs_runners_append, add_zero]
    refine (hjobs.advance (.execute w.id) rfl nofun ⟨harrived, hquiet.1⟩ ?_ (fun _ ↦ rfl)
      fun _ ↦ .inl rfl).congr_lanes hsame
    simp [Facts, Work.job, RunnerPhase.stage, hquiet.2.1, hquiet.2.2.1, hquiet.2.2.2]
  · simp only [Driver.workJobs, Driver.startRunner, workJobs_runners_append, add_zero]
    exact (howned.move rfl).congr_lanes hsame
  · simp only [Driver.hasSlot, Bool.and_eq_true, decide_eq_true_eq] at hslot
    simpa [Driver.startRunner] using hslot.2

theorem Sound.startReady : ∀ {ready : List Work} {s : Driver Ω},
    Sound deps { s with runnable := ready } 0 0 → Sound deps (Driver.startReady deps ready s) 0 0
  | [], _, h => h
  | w :: ready, s, h => by
    rw [Driver.startReady]
    split_ifs with hslot
    · exact Sound.startReady (h.startRunner hslot)
    · exact h

/-- The hints and the claims that are under way are of no consequence. -/
theorem Sound.setHints (h : Sound deps s pumped promised) (pending : JsMap JsString PendingHint)
    (claiming : List JsString) : Sound deps { s with pending, claiming } pumped promised :=
  ⟨h.jobs, h.owned, h.ids, h.bound, h.room, h.flags⟩

theorem Sound.takeHint (h : Sound deps s 0 0) :
    ∀ pending, Safe deps (Driver.takeHint pending s)
  | [] => Sound.setPump .returned (h.setHints [] s.claiming)
  | (key, hint) :: pending => by
    rw [Driver.takeHint]
    split_ifs with hkey
    · exact h.takeHint pending
    · exact Sound.setPump (.claimQueued key hint) (h.setHints pending (key :: s.claiming))

theorem Sound.pumpLoop (h : Sound deps s 0 0) : Safe deps (s.pumpLoop deps) := by
  have hready : Sound deps (Driver.startReady deps s.runnable s) 0 0 := Sound.startReady h
  rw [Driver.pumpLoop]
  split_ifs with hslot
  · exact hready.takeHint _
  · exact Sound.setPump .returned hready

/-! ## Claims that arrive -/

theorem JobsOk.quiet {lanes : JsMap JsString ℕ} {next : ℕ} {calls : List (Call Ω)}
    {jobs : Multiset (Job Ω)} (h : JobsOk lanes next calls jobs) : Quiet calls next :=
  ⟨h.fresh rfl, fun _ ↦ h.fresh rfl, fun _ ↦ h.fresh rfl, h.fresh rfl⟩

namespace Sound

variable {claim : WorkClaim} {owner : DORef} {queue : DurableWorkQueue} {trigger : DurableWorkTrigger}
  {lane : JsString}

/-- The claim with the next number. -/
def next (s : Driver Ω) (owner : DORef) (queue : DurableWorkQueue) (claim : WorkClaim) (lane : JsString)
    (trigger : DurableWorkTrigger) : Work := ⟨s.nextWork, owner, queue, claim, lane, trigger⟩

/-- The dispatcher has got the next claim. -/
def receive (s : Driver Ω) (lane : JsString) (occupied : Bool) : Driver Ω :=
  { s with nextWork := s.nextWork + 1, calls := .received s.nextWork lane occupied :: s.calls }

theorem runner_bound (h : Sound deps s pumped promised) : ∀ r ∈ s.runners, r.work.id < s.nextWork := by
  intro r hr
  have hmem : r.job ∈ s.workJobs + pumped := Multiset.mem_add.mpr (.inl (Multiset.mem_add.mpr
    (.inr (List.mem_map_of_mem hr))))
  exact h.jobs.bound r.job hmem

theorem seen (h : Sound deps s pumped promised) (lane : JsString) (occupied : Bool) :
    Flags (.received s.nextWork lane occupied :: s.calls) s.accepting s.prerequisites s.runners s.quiesces :=
  h.flags.received (fun p hp ↦ (h.bound p hp).ne) (fun r hr ↦ (h.runner_bound r hr).ne) lane occupied

/-- A claim for an occupied lane. -/
theorem duplicate {n : ℕ} (h : Sound deps s 0 (n + 1)) :
    Sound deps (receive s lane true) {(next s owner queue claim lane trigger).job .duplicate} n := by
  have hjobs := h.jobs
  have howned := h.owned
  rw [add_zero] at hjobs howned
  have hnew : ∀ j ∈ s.workJobs, j.id ≠ s.nextWork := fun j hj ↦ (hjobs.bound j hj).ne
  refine ⟨?_, ?_, h.ids, fun p hp ↦ (h.bound p hp).trans (Nat.lt_succ_self _), ?_, h.seen lane true⟩
  · rw [Multiset.add_comm, Multiset.singleton_add]
    refine (hjobs.receive lane).add (Nat.lt_succ_self _) hnew lane ?_ nofun
    exact ⟨⟨lane, List.mem_cons_self⟩, by simpa using hjobs.quiet.2.2.2⟩
  · rw [Multiset.add_comm, Multiset.singleton_add]
    exact howned.add _
  · exact (Nat.add_le_add_left (Nat.le_succ n) _).trans h.room

/-- A claim that has to be prepared. -/
theorem startPrerequisite {n : ℕ} (h : Sound deps s 0 (n + 1)) (hfree : s.activeLanes.get lane = none) :
    Sound deps ((receive s lane false).startPrerequisite (next s owner queue claim lane trigger)) 0 n := by
  have hjobs := h.jobs
  have howned := h.owned
  rw [add_zero] at hjobs howned
  have hquiet : Quiet (.prepare s.nextWork :: .received s.nextWork lane false :: s.calls) s.nextWork := by
    simpa [Quiet] using hjobs.quiet
  have hwork : workJobs (s.prerequisites ++ [⟨next s owner queue claim lane trigger, false, .preparing⟩])
      s.runnable s.runners = ⟨s.nextWork, lane, .preparing⟩ ::ₘ s.workJobs :=
    workJobs_prerequisites _ (List.perm_append_singleton _ _) _ _
  refine ⟨?_, ?_, ?_, fun p hp ↦ ?_, ?_, ((h.seen lane false).record _ rfl).addPreparation _ _⟩
  · simp only [Driver.workJobs, Driver.startPrerequisite, receive, hwork, add_zero]
    exact hjobs.enter hfree (.prepare s.nextWork) rfl (by rintro _ _ ⟨⟩) ⟨lane, List.mem_cons_self⟩
      ⟨List.mem_cons_self, ⟨lane, List.mem_cons_of_mem _ List.mem_cons_self⟩, hquiet⟩ rfl
  · simp only [Driver.workJobs, Driver.startPrerequisite, receive, hwork, add_zero]
    exact howned.enter lane s.nextWork rfl
  · have hnew : s.nextWork ∉ s.prerequisites.map (·.work.id) := by
      intro hmem
      obtain ⟨p, hp, heq⟩ := List.mem_map.mp hmem
      exact absurd heq (h.bound p hp).ne
    simpa [Driver.startPrerequisite, receive, next, List.nodup_append, h.ids] using hnew
  · rcases List.mem_append.mp hp with hp | hp
    · exact (h.bound p hp).trans (Nat.lt_succ_self _)
    · rw [List.mem_singleton.mp hp]
      exact Nat.lt_succ_self _
  · exact (Nat.add_le_add_left (Nat.le_succ n) _).trans h.room

/-- A claim that executes at once. -/
theorem startExecution {n : ℕ} (h : Sound deps s 0 (n + 1)) (hfree : s.activeLanes.get lane = none) :
    Sound deps ((receive s lane false).startRunner (next s owner queue claim lane trigger)) 0 n := by
  have hjobs := h.jobs
  have howned := h.owned
  rw [add_zero] at hjobs howned
  have hquiet := hjobs.quiet
  refine ⟨?_, ?_, h.ids, fun p hp ↦ (h.bound p hp).trans (Nat.lt_succ_self _), ?_,
    ((h.seen lane false).record _ rfl).addRunner _ _⟩
  · simp only [Driver.workJobs, Driver.startRunner, receive, workJobs_runners_append, add_zero]
    refine hjobs.enter hfree (.execute s.nextWork) rfl nofun ?_ ?_ rfl
    · exact ⟨⟨lane, List.mem_cons_self⟩, by simpa using hquiet.1⟩
    · simp [Facts, RunnerPhase.stage, hquiet.2.1, hquiet.2.2.1, hquiet.2.2.2]
  · simp only [Driver.workJobs, Driver.startRunner, receive, workJobs_runners_append, add_zero]
    exact howned.enter lane s.nextWork rfl
  · simp only [Driver.startRunner, receive, List.length_append, List.length_singleton]
    rw [add_assoc, add_comm 1 n]
    exact h.room

/-- **A batch** with at most as many claims as the pump may start. -/
theorem admitClaims (hint : PendingHint) : ∀ (claims : List WorkClaim) {s : Driver Ω},
    Sound deps s 0 claims.length → Safe deps (Driver.admitClaims deps hint claims s)
  | [], _, h => h.pumpLoop
  | claim :: rest, s, h => by
    rw [Driver.admitClaims]
    cases hlane : s.activeLanes.get (deps.lane hint.owner hint.queue claim) with
    | some token => exact Sound.setPump (.failQueued _ rest) h.duplicate
    | none =>
      simp only [Option.isSome_none, Bool.false_eq_true, if_false]
      split_ifs with hprepares
      · exact admitClaims hint rest (h.startPrerequisite hlane)
      · exact admitClaims hint rest (h.startExecution hlane)

end Sound

/-! ## Wake-ups -/

namespace Safe

theorem kick (h : Safe deps s) : Safe deps (s.kick deps) := by
  rw [Driver.kick]
  split_ifs with hbusy
  · exact h
  · have hnone := Sound.of_safe h
    exact Sound.pumpLoop ⟨hnone.jobs, hnone.owned, hnone.ids, hnone.bound, hnone.room, hnone.flags⟩

theorem finishPump (h : Safe deps s) : Safe deps (s.finishPump deps) := by
  have hnone : Safe deps { s with pumping := none } :=
    ⟨(Sound.of_safe h).jobs, (Sound.of_safe h).owned, h.ids, h.bound, (Sound.of_safe h).room, h.flags⟩
  rw [Driver.finishPump]
  split_ifs with hmore
  · exact hnone.kick
  · exact hnone

theorem notify (h : Safe deps s) (hint : DurableWorkReadyHint) (trigger : DurableWorkTrigger) :
    Safe deps (s.notify deps hint trigger) := by
  rw [Driver.notify]
  split_ifs with haccepting
  · exact Safe.kick (h.setHints _ s.claiming)
  · exact h

end Safe

/-! ## Steps of a runner -/

theorem JobsOk.releaseHead {lanes : JsMap JsString ℕ} {next : ℕ} {calls : List (Call Ω)} {j : Job Ω}
    {rest : Multiset (Job Ω)} (h : JobsOk lanes next calls (j ::ₘ rest)) (hholds : j.stage.holds = false)
    (lane : JsString) : JobsOk (releasedLanes lanes lane j.id) next calls (j ::ₘ rest) := by
  refine h.release lane fun j' hj' hj'holds ↦ ?_
  rcases Multiset.mem_cons.mp hj' with rfl | hj'
  · exact absurd hj'holds (hholds ▸ Bool.false_ne_true)
  · exact h.id_ne hj'

theorem Driver.onRunner_some {f : Runner Ω → Option (Driver Ω)} {id : ℕ} {s' : Driver Ω}
    (h : s.onRunner id f = some s') :
    ∃ r, s.runners.find? (fun r ↦ decide (r.work.id = id)) = some r ∧ r.work.id = id ∧ f r = some s' := by
  obtain ⟨r, hr, hf⟩ := Option.bind_eq_some_iff.mp h
  exact ⟨r, hr, of_decide_eq_true (List.find?_some (p := fun r : Runner Ω ↦ decide (r.work.id = id)) hr),
    hf⟩

/-- The job of a runner, among the others. -/
theorem Sound.runner (h : Sound deps s pumped promised) {id : ℕ} {r : Runner Ω}
    (hr : s.runners.find? (fun r ↦ decide (r.work.id = id)) = some r) :
    ∃ others, s.workJobs + pumped = r.job ::ₘ others ∧
      (∀ phase, (s.setRunner id phase).workJobs + pumped = r.work.job phase.stage ::ₘ others) ∧
      workJobs s.prerequisites s.runnable (s.runners.filter fun r ↦ decide (r.work.id ≠ id)) + pumped =
        others := by
  have hids : (s.runners.map (·.work.id)).Nodup := by
    have hall := h.jobs.ids
    rw [Multiset.map_add, Multiset.nodup_add] at hall
    have hwork := hall.1
    rw [Driver.workJobs, workJobs, Multiset.map_add, Multiset.nodup_add, Multiset.map_coe,
      Multiset.coe_nodup, List.map_map] at hwork
    exact hwork.2.1
  obtain ⟨hperm, hmap⟩ := find_perm hids hr
  refine ⟨_, ?_, fun phase ↦ ?_, rfl⟩
  · rw [Driver.workJobs, workJobs_runners r hperm, Multiset.cons_add]
  · rw [Driver.workJobs, Driver.setRunner, workJobs_runners _ (hmap _), Multiset.cons_add]
    rfl

/-- A runner goes on to a phase. -/
theorem Safe.setRunner (h : Safe deps s) {id : ℕ} {r : Runner Ω} {old phase : RunnerPhase Ω}
    (hr : s.runners.find? (fun r ↦ decide (r.work.id = id)) = some r) (hold : r.phase = old)
    {lanes : JsMap JsString ℕ} {calls : List (Call Ω)}
    (hjobs : ∀ others, JobsOk s.activeLanes s.nextWork s.calls (r.work.job old.stage ::ₘ others) →
      Facts s.calls r.work.id old.stage →
      JobsOk lanes s.nextWork calls (r.work.job phase.stage ::ₘ others))
    (howned : ∀ jobs : Multiset (Job Ω), Owned s.activeLanes jobs → Owned lanes jobs)
    (hflags : Flags s.calls s.accepting s.prerequisites s.runners s.quiesces →
      Flags calls s.accepting s.prerequisites s.runners s.quiesces) :
    Safe deps ({ s with activeLanes := lanes, calls := calls }.setRunner id phase) := by
  subst hold
  obtain ⟨others, hwork, hnew, -⟩ := Sound.runner h hr
  have hmay : phase.stage.mayOwn = true := by cases phase <;> rfl
  refine ⟨?_, ?_, h.ids, h.bound, ?_, (hflags h.flags).mapRunners fun r ↦ ?_⟩
  · have hj : JobsOk s.activeLanes s.nextWork s.calls (r.job ::ₘ others) := hwork ▸ h.jobs
    have hj' := hjobs others hj (hj.facts _ (Multiset.mem_cons_self _ _))
    rw [← hnew phase] at hj'
    exact hj'
  · have ho := (howned _ (hwork ▸ h.owned)).move hmay
    change Owned lanes (r.work.job phase.stage ::ₘ others) at ho
    rw [← hnew phase] at ho
    exact ho
  · have hroom := h.room
    rwa [← List.length_map (fun r : Runner Ω ↦ if r.work.id = id then { r with phase } else r)] at hroom
  · split_ifs <;> exact ⟨rfl, rfl⟩

namespace Safe

variable {id : ℕ} {s' : Driver Ω}

theorem executeReturns (h : Safe deps s) {outcome : Ω} (hs : s.executeReturns id outcome = some s') :
    Safe deps s' := by
  obtain ⟨r, hr, rfl, hs⟩ := Driver.onRunner_some hs
  split at hs <;> cases hs
  rename_i hphase
  refine h.setRunner hr hphase (fun others hj hfacts ↦ ?_) (fun _ ho ↦ ho) fun hf ↦ hf.record _ rfl
  obtain ⟨hexecute, hexecuted, hsettle, hfail⟩ := hfacts
  refine hj.advance _ rfl nofun ⟨hexecute, hexecuted⟩ ?_ (fun _ ↦ rfl) fun _ ↦ .inl rfl
  simp [Facts, RunnerPhase.stage, Work.job, hsettle, hfail]

theorem executeThrows (h : Safe deps s) (hs : s.executeThrows id = some s') : Safe deps s' := by
  obtain ⟨r, hr, rfl, hs⟩ := Driver.onRunner_some hs
  split at hs
  case h_2 => cases hs
  rename_i hphase
  split_ifs at hs with haborted <;> cases hs
  · -- an execution that was aborted is over
    refine h.setRunner hr hphase (fun others hj hfacts ↦ ?_) (fun _ ho ↦ ho) fun hf ↦
      (hf.record _ rfl).record _ rfl
    obtain ⟨hexecute, -, -, hfail⟩ := hfacts
    have hthrew : JobsOk s.activeLanes s.nextWork (.executeThrew r.work.id :: s.calls)
        (r.work.job (.failQueued false) ::ₘ others) :=
      hj.advance _ rfl (by rintro _ _ ⟨⟩) hexecute (by simp [Facts, Work.job, hfail]) (fun _ ↦ rfl) fun _ ↦ .inl rfl
    have hrunner := h.flags.runners r (List.mem_of_find?_eq_some hr) haborted
    exact hthrew.advance _ rfl (by rintro _ _ ⟨⟩) (.inr hrunner) trivial (by rintro ⟨⟩) fun _ ↦ .inr over_aborted
  · refine h.setRunner hr hphase (fun others hj hfacts ↦ ?_) (fun _ ho ↦ ho) fun hf ↦ hf.record _ rfl
    obtain ⟨hexecute, -, -, hfail⟩ := hfacts
    refine hj.advance _ rfl (by rintro _ _ ⟨⟩) hexecute ?_ (fun _ ↦ rfl) fun _ ↦ .inl rfl
    simp [Facts, RunnerPhase.stage, Work.job, hfail]

theorem settleBegins (h : Safe deps s) (hs : s.settleBegins id = some s') : Safe deps s' := by
  obtain ⟨r, hr, rfl, hs⟩ := Driver.onRunner_some hs
  split at hs <;> cases hs
  rename_i outcome hphase
  refine h.setRunner hr hphase (fun others hj hfacts ↦ ?_) (fun _ ho ↦ ho) fun hf ↦ hf.record _ rfl
  obtain ⟨hexecuted, hsettle, hfail⟩ := hfacts
  refine hj.advance _ rfl nofun ⟨hexecuted, hsettle⟩ ?_ (fun _ ↦ rfl) fun _ ↦ .inl rfl
  simp [Facts, RunnerPhase.stage, Work.job, hfail]

theorem settleReturns (h : Safe deps s) {stale : Bool} (hs : s.settleReturns id stale = some s') :
    Safe deps s' := by
  obtain ⟨r, hr, rfl, hs⟩ := Driver.onRunner_some hs
  split at hs <;> cases hs
  rename_i outcome hphase
  rw [releaseLane_eq]
  refine h.setRunner hr hphase (fun others hj hfacts ↦ ?_) (fun _ ho ↦ ho.release _ _) fun hf ↦
    hf.record _ rfl
  have hmoved : JobsOk s.activeLanes s.nextWork (.settled r.work.id :: s.calls)
      (r.work.job .finished ::ₘ others) :=
    hj.advance _ rfl nofun ⟨outcome, hfacts.1⟩ trivial nofun fun _ ↦ .inr over_settled
  exact hmoved.releaseHead rfl r.work.lane

theorem settleRejects (h : Safe deps s) (hs : s.settleRejects id = some s') : Safe deps s' := by
  obtain ⟨r, hr, rfl, hs⟩ := Driver.onRunner_some hs
  split at hs <;> cases hs
  rename_i outcome hphase
  rw [releaseLane_eq]
  refine h.setRunner hr hphase (fun others hj hfacts ↦ ?_) (fun _ ho ↦ ho.release _ _) fun hf ↦
    hf.record _ rfl
  obtain ⟨hsettle, hfail⟩ := hfacts
  have hrejected : Facts (.settleRejected r.work.id :: s.calls) r.work.id .settleRejected := by
    simp [Facts, hfail]
  have hmoved : JobsOk s.activeLanes s.nextWork (.settleRejected r.work.id :: s.calls)
      (r.work.job .settleRejected ::ₘ others) :=
    hj.advance _ rfl (by rintro _ _ ⟨⟩) ⟨_, hsettle⟩ hrejected (by rintro ⟨⟩) fun _ ↦ .inr over_settleRejected
  exact hmoved.releaseHead rfl r.work.lane

theorem settleCaught (h : Safe deps s) (hs : s.settleCaught id = some s') : Safe deps s' := by
  obtain ⟨r, hr, rfl, hs⟩ := Driver.onRunner_some hs
  split at hs <;> cases hs
  rename_i hphase
  refine h.setRunner hr hphase (fun others hj hfacts ↦ ?_) (fun _ ho ↦ ho) fun hf ↦ hf
  obtain ⟨hrejected, hfail⟩ := hfacts
  split_ifs with haborted
  · exact hj.move trivial rfl
  · exact hj.move ⟨.inr hrejected, hfail⟩ rfl

theorem executeFailBegins (h : Safe deps s) (hs : s.executeFailBegins id = some s') : Safe deps s' := by
  obtain ⟨r, hr, rfl, hs⟩ := Driver.onRunner_some hs
  split at hs <;> cases hs
  rename_i settled hphase
  refine h.setRunner hr hphase (fun others hj hfacts ↦ ?_) (fun _ ho ↦ ho) fun hf ↦ hf.record _ rfl
  obtain ⟨hcause, hfail⟩ := hfacts
  exact hj.advance (.fail r.work.id) rfl nofun ⟨hfail, .inr (.inr hcause)⟩ List.mem_cons_self
    (fun hholds ↦ hholds) fun hholds ↦ .inl hholds

theorem executeFailSettles (h : Safe deps s) {owns : Bool} (hs : s.executeFailSettles id owns = some s') :
    Safe deps s' := by
  obtain ⟨r, hr, rfl, hs⟩ := Driver.onRunner_some hs
  split at hs <;> cases hs
  rename_i settled hphase
  rw [releaseLane_eq]
  refine h.setRunner hr hphase (fun others hj hfacts ↦ ?_) (fun _ ho ↦ ho.release _ _) fun hf ↦
    hf.record _ rfl
  have hmoved : JobsOk s.activeLanes s.nextWork (.failed r.work.id :: s.calls)
      (r.work.job .finished ::ₘ others) :=
    hj.advance _ rfl nofun hfacts trivial nofun fun _ ↦ .inr over_failed
  exact hmoved.releaseHead rfl r.work.lane

theorem runnerFinally (h : Safe deps s) (hs : s.runnerFinally deps id = some s') : Safe deps s' := by
  obtain ⟨r, hr, rfl, hs⟩ := Driver.onRunner_some hs
  split at hs <;> cases hs
  rename_i owns hphase
  obtain ⟨others, hwork, -, hrest⟩ := Sound.runner h hr
  have hflags : Flags s.calls s.accepting s.prerequisites
      (s.runners.filter fun r' ↦ decide (r'.work.id ≠ r.work.id)) s.quiesces :=
    h.flags.sub (fun p hp haborted ↦ ⟨p, hp, rfl, haborted⟩) fun r' hr' haborted ↦
      ⟨r', List.mem_of_mem_filter hr', rfl, haborted⟩
  have hgone : Safe deps (({ s with
      runners := (s.runners.filter fun r' ↦ decide (r'.work.id ≠ r.work.id)) }).releaseLane
        r.work.lane r.work.id) := by
    have hj := h.jobs
    have ho := h.owned
    rw [hwork, Runner.job, hphase] at hj ho
    rw [releaseLane_eq]
    refine ⟨?_, ?_, h.ids, h.bound, ?_, hflags⟩
    · have hdrop := (hj.drop nofun).release r.work.lane fun j hmem _ ↦ hj.id_ne hmem
      rw [← hrest] at hdrop
      exact hdrop
    · have hdrop := ho.drop_released
      rw [← hrest] at hdrop
      exact hdrop
    · exact (Nat.add_le_add_right (List.length_filter_le _ _) _).trans h.room
  cases owns with
  | true => exact (hgone.notify _ _).kick
  | false => exact hgone.kick

end Safe

/-! ## Steps of a preparation -/

theorem Driver.onPreparation_some {f : Preparation → Option (Driver Ω)} {id : ℕ} {s' : Driver Ω}
    (h : s.onPreparation id f = some s') :
    ∃ p, s.prerequisites.find? (fun p ↦ decide (p.work.id = id)) = some p ∧ p.work.id = id ∧
      f p = some s' := by
  obtain ⟨p, hp, hf⟩ := Option.bind_eq_some_iff.mp h
  exact ⟨p, hp, of_decide_eq_true (List.find?_some (p := fun p : Preparation ↦ decide (p.work.id = id)) hp),
    hf⟩

/-- The job of a preparation, among the others. -/
theorem Sound.preparation (h : Sound deps s pumped promised) {id : ℕ} {p : Preparation}
    (hp : s.prerequisites.find? (fun p ↦ decide (p.work.id = id)) = some p) :
    ∃ others, s.workJobs + pumped = (p.jobs : List (Job Ω)) + others ∧
      (∀ phase : PreparationPhase, (s.setPreparation id phase).workJobs + pumped =
        (phase.stages.map p.work.job : List (Job Ω)) + others) ∧
      workJobs (s.prerequisites.filter fun p ↦ decide (p.work.id ≠ id)) s.runnable s.runners + pumped =
        others := by
  obtain ⟨hperm, hmap⟩ := find_perm h.ids hp
  refine ⟨_, ?_, fun phase ↦ ?_, rfl⟩
  · rw [Driver.workJobs, workJobs_prerequisites p hperm, add_assoc]
  · rw [Driver.workJobs, Driver.setPreparation, workJobs_prerequisites _ (hmap _), add_assoc]
    rfl

theorem map_id_of_map {l : List Preparation} {f : Preparation → Preparation}
    (hf : ∀ p, (f p).work = p.work) : (l.map f).map (·.work.id) = l.map (·.work.id) := by
  rw [List.map_map]
  exact List.map_congr_left fun p _ ↦ congrArg Work.id (hf p)

theorem setPreparation_work (id : ℕ) (phase : PreparationPhase) (p : Preparation) :
    (if p.work.id = id then { p with phase } else p).work = p.work ∧
      (if p.work.id = id then { p with phase } else p).aborted = p.aborted := by
  split_ifs <;> exact ⟨rfl, rfl⟩

theorem Sound.bound_map (h : Sound deps s pumped promised) {f : Preparation → Preparation}
    (hf : ∀ p, (f p).work = p.work) : ∀ p ∈ s.prerequisites.map f, p.work.id < s.nextWork := by
  intro p hp
  obtain ⟨p', hp', rfl⟩ := List.mem_map.mp hp
  exact (hf p').symm ▸ h.bound p' hp'

/-- A preparation goes on to a phase. -/
theorem Safe.setPreparation (h : Safe deps s) {id : ℕ} {p : Preparation}
    {old phase : PreparationPhase} {stage stage' : Stage Ω}
    (hp : s.prerequisites.find? (fun p ↦ decide (p.work.id = id)) = some p) (hold : p.phase = old)
    (hstage : old.stages = [stage]) (hstage' : phase.stages = [stage']) (hmay : stage'.mayOwn = true)
    {lanes : JsMap JsString ℕ} {calls : List (Call Ω)}
    (hjobs : ∀ others, JobsOk s.activeLanes s.nextWork s.calls (p.work.job stage ::ₘ others) →
      Facts s.calls p.work.id stage → JobsOk lanes s.nextWork calls (p.work.job stage' ::ₘ others))
    (howned : ∀ jobs : Multiset (Job Ω), Owned s.activeLanes jobs → Owned lanes jobs)
    (hflags : Flags s.calls s.accepting s.prerequisites s.runners s.quiesces →
      Flags calls s.accepting s.prerequisites s.runners s.quiesces) :
    Safe deps ({ s with activeLanes := lanes, calls := calls }.setPreparation id phase) := by
  subst hold
  obtain ⟨others, hwork, hnew, -⟩ := Sound.preparation h hp
  have hjob : ((p.jobs : List (Job Ω)) : Multiset (Job Ω)) = {p.work.job stage} := by
    rw [Preparation.jobs, hstage]
    rfl
  have hjob' : ((phase.stages.map p.work.job : List (Job Ω)) : Multiset (Job Ω)) =
      {p.work.job stage'} := by
    rw [hstage']
    rfl
  rw [hjob, Multiset.singleton_add] at hwork
  have hset := hnew phase
  rw [hjob', Multiset.singleton_add] at hset
  have hsame := setPreparation_work id phase
  refine ⟨?_, ?_, ?_, h.bound_map fun p ↦ (hsame p).1, h.room, (hflags h.flags).mapPrerequisites hsame⟩
  · have hj : JobsOk s.activeLanes s.nextWork s.calls (p.work.job stage ::ₘ others) := hwork ▸ h.jobs
    have hj' := hjobs others hj (hj.facts _ (Multiset.mem_cons_self _ _))
    rw [← hset] at hj'
    exact hj'
  · have ho := (howned _ (hwork ▸ h.owned)).move hmay
    change Owned lanes (p.work.job stage' ::ₘ others) at ho
    rw [← hset] at ho
    exact ho
  · exact (map_id_of_map fun p ↦ (hsame p).1).symm ▸ h.ids

namespace Safe

variable {id : ℕ} {s' : Driver Ω}

theorem prepareReturns (h : Safe deps s) (hs : s.prepareReturns id = some s') : Safe deps s' := by
  obtain ⟨p, hp, rfl, hs⟩ := Driver.onPreparation_some hs
  split at hs
  case h_2 => exact nomatch hs
  rename_i hphase
  split_ifs at hs with haccepting <;> cases hs
  · -- the work is handed over to the queue of runnable work, with its lane
    obtain ⟨others, hwork, hnew, -⟩ := Sound.preparation h hp
    have hjob : ((p.jobs : List (Job Ω)) : Multiset (Job Ω)) = {p.work.job .preparing} := by
      rw [Preparation.jobs, hphase]
      rfl
    rw [hjob, Multiset.singleton_add] at hwork
    have hset : (({ s with runnable := s.runnable ++ [p.work] } : Driver Ω).setPreparation p.work.id
        (.ended true)).workJobs + Pump.jobs s.pumping = p.work.job .ready ::ₘ others := by
      have hnone := hnew (.ended true)
      rw [Driver.workJobs, Driver.setPreparation, workJobs_runnable_append, Multiset.cons_add]
      exact congrArg (p.work.job .ready ::ₘ ·) (hnone.trans (Multiset.zero_add others))
    have hj : JobsOk s.activeLanes s.nextWork s.calls (p.work.job .preparing ::ₘ others) := hwork ▸ h.jobs
    have ho : Owned s.activeLanes (p.work.job .preparing ::ₘ others) := hwork ▸ h.owned
    have hsame := setPreparation_work p.work.id (.ended true)
    refine ⟨?_, ?_, ?_, h.bound_map fun p ↦ (hsame p).1, h.room, h.flags.mapPrerequisites hsame⟩
    · have hready : JobsOk s.activeLanes s.nextWork s.calls (p.work.job .ready ::ₘ others) :=
        hj.move (hj.facts _ (Multiset.mem_cons_self _ _)).2 rfl
      exact hset ▸ hready
    · have hready : Owned s.activeLanes (p.work.job .ready ::ₘ others) := ho.move rfl
      exact hset ▸ hready
    · exact (map_id_of_map fun p ↦ (hsame p).1).symm ▸ h.ids
  · -- the driver was quiesced, and the work is given up
    have haborted : acceptingIn s.calls = false ∨ abortedIn p.work.id s.calls = true := by
      cases hp' : p.aborted with
      | true => exact .inr (h.flags.prerequisites p (List.mem_of_find?_eq_some hp) hp')
      | false =>
        rw [hp', Bool.false_eq_true, not_false_eq_true, and_true, Bool.not_eq_true] at haccepting
        exact .inl (h.flags.accepting.trans haccepting)
    rw [releaseLane_eq]
    refine h.setPreparation hp hphase rfl rfl rfl (fun others hj hfacts ↦ ?_)
      (fun _ ho ↦ ho.release _ _) fun hf ↦ hf.record _ rfl
    have hmoved : JobsOk s.activeLanes s.nextWork (.aborted p.work.id :: s.calls)
        (p.work.job .finished ::ₘ others) :=
      hj.advance _ rfl nofun haborted trivial nofun fun _ ↦ .inr over_aborted
    exact hmoved.releaseHead rfl p.work.lane

theorem prepareThrows (h : Safe deps s) (hs : s.prepareThrows id = some s') : Safe deps s' := by
  obtain ⟨p, hp, rfl, hs⟩ := Driver.onPreparation_some hs
  split at hs
  case h_2 => cases hs
  rename_i hphase
  obtain hrecord := fun hf : Flags s.calls s.accepting s.prerequisites s.runners s.quiesces ↦
    hf.record (.prepareThrew p.work.id) rfl
  have hthrew : ∀ others, JobsOk s.activeLanes s.nextWork s.calls (p.work.job .preparing ::ₘ others) →
      Facts s.calls p.work.id (Stage.preparing : Stage Ω) →
      JobsOk s.activeLanes s.nextWork (.prepareThrew p.work.id :: s.calls)
        (p.work.job .prepareThrew ::ₘ others) := by
    rintro others hj ⟨hprepare, -, -, -, -, hfail⟩
    refine hj.advance _ rfl (by rintro _ _ ⟨⟩) hprepare ?_ (fun _ ↦ rfl) fun _ ↦ .inl rfl
    simp [Facts, Work.job, hfail]
  split_ifs at hs with haborted <;> cases hs
  · rw [releaseLane_eq]
    refine h.setPreparation hp hphase rfl rfl rfl (fun others hj hfacts ↦ ?_)
      (fun _ ho ↦ ho.release _ _) fun hf ↦ (hrecord hf).record _ rfl
    have hflag := h.flags.prerequisites p (List.mem_of_find?_eq_some hp) haborted
    have hmoved : JobsOk s.activeLanes s.nextWork (.aborted p.work.id :: .prepareThrew p.work.id :: s.calls)
        (p.work.job .finished ::ₘ others) :=
      (hthrew others hj hfacts).advance _ rfl (by rintro _ _ ⟨⟩) (.inr hflag) trivial (by rintro ⟨⟩) fun _ ↦ .inr over_aborted
    exact hmoved.releaseHead rfl p.work.lane
  · exact h.setPreparation hp hphase rfl rfl rfl hthrew (fun _ ho ↦ ho) hrecord

theorem prepareFailBegins (h : Safe deps s) (hs : s.prepareFailBegins id = some s') : Safe deps s' := by
  obtain ⟨p, hp, rfl, hs⟩ := Driver.onPreparation_some hs
  split at hs <;> cases hs
  rename_i hphase
  refine h.setPreparation hp hphase rfl rfl rfl (fun others hj hfacts ↦ ?_) (fun _ ho ↦ ho) fun hf ↦
    hf.record _ rfl
  obtain ⟨hthrew, hfail⟩ := hfacts
  exact hj.advance (.fail p.work.id) rfl nofun ⟨hfail, .inr (.inl hthrew)⟩ List.mem_cons_self (fun _ ↦ rfl)
    fun _ ↦ .inl rfl

theorem prepareFailSettles (h : Safe deps s) {continues : Bool}
    (hs : s.prepareFailSettles id continues = some s') : Safe deps s' := by
  obtain ⟨p, hp, rfl, hs⟩ := Driver.onPreparation_some hs
  split at hs <;> cases hs
  rename_i hphase
  rw [releaseLane_eq]
  refine h.setPreparation hp hphase rfl rfl rfl (fun others hj hfacts ↦ ?_)
    (fun _ ho ↦ ho.release _ _) fun hf ↦ hf.record _ rfl
  have hmoved : JobsOk s.activeLanes s.nextWork (.failed p.work.id :: s.calls)
      (p.work.job .finished ::ₘ others) :=
    hj.advance _ rfl nofun hfacts trivial nofun fun _ ↦ .inr over_failed
  exact hmoved.releaseHead rfl p.work.lane

theorem prepareContinues (h : Safe deps s) (hs : s.prepareContinues deps id = some s') :
    Safe deps s' := by
  obtain ⟨p, hp, rfl, hs⟩ := Driver.onPreparation_some hs
  split at hs <;> cases hs
  rename_i continues hphase
  have hended : Safe deps (s.setPreparation p.work.id (.ended false)) :=
    h.setPreparation hp hphase rfl rfl rfl (fun _ hj _ ↦ hj) (fun _ ho ↦ ho) fun hf ↦ hf
  cases continues with
  | true => exact hended.notify _ _
  | false => exact hended

theorem prepareFinally (h : Safe deps s) (hs : s.prepareFinally deps id = some s') : Safe deps s' := by
  obtain ⟨p, hp, rfl, hs⟩ := Driver.onPreparation_some hs
  split at hs <;> cases hs
  rename_i handedOff hphase
  obtain ⟨others, hwork, -, hrest⟩ := Sound.preparation h hp
  have hids : ((s.prerequisites.filter fun p' ↦ decide (p'.work.id ≠ p.work.id)).map
      (·.work.id)).Nodup := h.ids.sublist (List.filter_sublist.map _)
  have hbound : ∀ p' ∈ s.prerequisites.filter fun p' ↦ decide (p'.work.id ≠ p.work.id),
      p'.work.id < s.nextWork := fun p' hp' ↦ h.bound p' (List.mem_of_mem_filter hp')
  have hflags : Flags s.calls s.accepting
      (s.prerequisites.filter fun p' ↦ decide (p'.work.id ≠ p.work.id)) s.runners s.quiesces :=
    h.flags.sub (fun p' hp' haborted ↦ ⟨p', List.mem_of_mem_filter hp', rfl, haborted⟩)
      fun r hr haborted ↦ ⟨r, hr, rfl, haborted⟩
  have hj := h.jobs
  have ho := h.owned
  rw [hwork, Preparation.jobs, hphase] at hj ho
  apply Safe.kick
  cases handedOff with
  | true =>
    -- its job is that of the work it has handed over
    rw [PreparationPhase.stages, List.map_nil, Multiset.coe_nil, Multiset.zero_add, ← hrest] at hj ho
    exact ⟨hj, ho, hids, hbound, h.room, hflags⟩
  | false =>
    rw [if_neg Bool.false_ne_true, releaseLane_eq]
    have hdrop := (hj.drop nofun).release p.work.lane fun j hmem _ ↦ hj.id_ne hmem
    have hgone := ho.drop_released
    exact ⟨hrest ▸ hdrop, hrest ▸ hgone, hids, hbound, h.room, hflags⟩

end Safe

/-! ## Steps of the pump and of `quiesce` -/

theorem Driver.onPump_some {f : PumpPhase → Option (Driver Ω)} {s' : Driver Ω} (h : s.onPump f = some s') :
    ∃ p, s.pumping = some p ∧ f p.phase = some s' := Option.bind_eq_some_iff.mp h

theorem Safe.pump (h : Safe deps s) {p : Pump} (hp : s.pumping = some p) :
    Sound deps s p.phase.jobs p.phase.promised := by
  unfold Safe at h
  rw [hp] at h
  exact h

/-- Preparations and runners are told to stop. -/
theorem Safe.quiesce (h : Safe deps s) : Safe deps s.quiesce := by
  have hwork : s.quiesce.workJobs = s.workJobs := by
    simp only [Driver.workJobs, workJobs, Driver.quiesce, List.flatMap_map, List.map_map]
    rfl
  let abort : Preparation → Preparation := fun p ↦ { p with aborted := true }
  have hids : ((s.prerequisites.map abort).map (·.work.id)).Nodup :=
    (map_id_of_map (f := abort) fun _ ↦ rfl).symm ▸ h.ids
  refine ⟨?_, ?_, hids, h.bound_map fun _ ↦ rfl, ?_, Flags.quiesce _ _ _ _⟩
  · exact hwork.symm ▸ h.jobs.call trivial (by rintro _ _ ⟨⟩) (by rintro _ ⟨⟩) fun j _ ↦ (by rintro ⟨⟩)
  · exact hwork.symm ▸ h.owned
  · exact (List.length_map _).symm ▸ h.room

/-- **Prepared work is dropped** and gives up its lanes. -/
theorem Sound.dropRunnable : ∀ (ready : List Work) {s : Driver Ω},
    Sound deps { s with runnable := ready } pumped promised → .quiesce ∈ s.calls →
    Sound deps { ready.foldl (fun s w ↦ (s.record (.cleared w.id)).releaseLane w.lane w.id) s with
      runnable := [] } pumped promised
  | [], _, h, _ => h
  | w :: ready, s, h, hquiesce => by
    have hj := h.jobs
    have ho := h.owned
    simp only [Driver.workJobs, workJobs_runnable_cons, Multiset.cons_add] at hj ho
    obtain ⟨-, hquiet⟩ : Arrived s.calls w.id ∧ Quiet s.calls w.id :=
      hj.facts _ (Multiset.mem_cons_self _ _)
    have hdone : JobsOk s.activeLanes s.nextWork (.cleared w.id :: s.calls) (w.job .finished ::ₘ _) :=
      hj.advance _ rfl nofun ⟨hquiesce, hquiet.1⟩ trivial nofun fun _ ↦ .inr over_cleared
    rw [List.foldl_cons]
    apply Sound.dropRunnable ready
    · rw [releaseLane_eq]
      exact ⟨(hdone.drop nofun).release w.lane fun j hmem _ ↦ hdone.id_ne hmem, ho.drop_released, h.ids,
        h.bound, h.room, h.flags.record _ rfl⟩
    · rw [releaseLane_eq]
      exact List.mem_cons_of_mem _ hquiesce

theorem foldl_clear_eq (ready : List Work) (s : Driver Ω) :
    ∃ lanes calls, ready.foldl (fun s w ↦ (s.record (.cleared w.id)).releaseLane w.lane w.id) s =
      { s with activeLanes := lanes, calls } := by
  induction ready generalizing s with
  | nil => exact ⟨s.activeLanes, s.calls, rfl⟩
  | cons w ready ih =>
    rw [List.foldl_cons, releaseLane_eq]
    exact ih _

theorem Safe.dropRunnable (h : Safe deps s) (hquiesce : .quiesce ∈ s.calls) :
    Safe deps s.dropRunnable := by
  have hdrop : Sound deps s.dropRunnable (Pump.jobs s.pumping) (Pump.promised s.pumping) :=
    Sound.dropRunnable s.runnable h hquiesce
  obtain ⟨lanes, calls, hlanes⟩ := foldl_clear_eq s.runnable s
  have hpumping : s.dropRunnable.pumping = s.pumping := by rw [Driver.dropRunnable, hlanes]
  unfold Safe
  rw [hpumping]
  exact hdrop

theorem Safe.quiesceContinues (h : Safe deps s) {i : ℕ} {s' : Driver Ω}
    (hs : s.quiesceContinues i = some s') : Safe deps s' := by
  obtain ⟨q, hq, hs⟩ := Option.bind_eq_some_iff.mp hs
  obtain ⟨⟨t, phase⟩, ht, rfl⟩ := Option.map_eq_some_iff.mp hs
  have hne : s.quiesces ≠ [] := fun hnil ↦ by
    rw [hnil, List.getElem?_nil] at hq
    exact nomatch hq
  have hsafe : Safe deps t ∧ t.quiesces = s.quiesces := by
    rw [Driver.continueQuiesce.eq_def] at ht
    split at ht
    · split_ifs at ht
      cases ht
      exact ⟨h, rfl⟩
    · split_ifs at ht
      cases ht
      obtain ⟨lanes, calls, hlanes⟩ := foldl_clear_eq s.runnable s
      exact ⟨h.dropRunnable (h.flags.quiesces hne), by rw [Driver.dropRunnable, hlanes]⟩
    · split_ifs at ht
      cases ht
      exact ⟨h, rfl⟩
    · exact nomatch ht
  obtain ⟨hsafe, hquiesces⟩ := hsafe
  exact ⟨hsafe.jobs, hsafe.owned, hsafe.ids, hsafe.bound, hsafe.room,
    hsafe.flags.setQuiesces fun _ ↦ hquiesces ▸ hne⟩

theorem Safe.recovered (h : Safe deps s) (hints : List DurableWorkReadyHint) :
    Safe deps (s.recovered deps hints) := by
  have hfold : ∀ (hints : List DurableWorkReadyHint) {s : Driver Ω}, Safe deps s →
      Safe deps (hints.foldl (fun s hint ↦ s.notify deps hint .recovery) s) := by
    intro hints
    induction hints with
    | nil => exact fun h ↦ h
    | cons hint hints ih => exact fun h ↦ ih (h.notify hint .recovery)
  exact hfold hints ⟨h.jobs, h.owned, h.ids, h.bound, h.room, h.flags⟩

theorem Safe.start (h : Safe deps s) : Safe deps (s.start deps) := by
  rw [Driver.start]
  split_ifs with haccepting
  · exact h
  · refine Safe.kick ⟨h.jobs.call trivial nofun nofun fun j _ ↦ nofun, h.owned, h.ids, h.bound, h.room,
      h.flags.start fun hne hnil ↦ hne ?_⟩
    rw [hnil, List.map_nil]

theorem Safe.recoverNow (h : Safe deps s) : Safe deps s.recoverNow := by
  rw [Driver.recoverNow]
  split_ifs
  · exact ⟨h.jobs, h.owned, h.ids, h.bound, h.room, h.flags⟩
  · exact h

theorem Safe.claimBegins (h : Safe deps s) {s' : Driver Ω} (hs : s.claimBegins deps = some s') :
    Safe deps s' := by
  obtain ⟨p, hp, hs⟩ := Driver.onPump_some hs
  split at hs <;> cases hs
  rename_i key hint hphase
  have hnone := Sound.of_safe h
  apply Sound.setPump
  refine ⟨?_, hnone.owned, hnone.ids, hnone.bound, ?_, hnone.flags.record _ rfl⟩
  · exact hnone.jobs.call trivial nofun nofun fun j _ ↦ nofun
  · exact (Nat.add_sub_cancel' hnone.room).le

theorem Safe.claimReturns (h : Safe deps s) {claims : List WorkClaim} {s' : Driver Ω}
    (hs : s.claimReturns deps claims = some s') : Safe deps s' := by
  obtain ⟨p, hp, hs⟩ := Driver.onPump_some hs
  split at hs
  case h_2 => exact nomatch hs
  rename_i key hint limit hphase
  split_ifs at hs with hlimit
  cases hs
  have hclaiming := h.pump hp
  rw [hphase] at hclaiming
  apply Sound.admitClaims
  refine ⟨hclaiming.jobs, hclaiming.owned, hclaiming.ids, hclaiming.bound, ?_, hclaiming.flags⟩
  exact (Nat.add_le_add_left hlimit _).trans hclaiming.room

theorem Safe.claimRejects (h : Safe deps s) {s' : Driver Ω} (hs : s.claimRejects deps = some s') :
    Safe deps s' := by
  obtain ⟨p, hp, hs⟩ := Driver.onPump_some hs
  split at hs <;> cases hs
  exact Sound.pumpLoop ((Sound.of_safe h).setHints s.pending _)

theorem Safe.duplicateFailBegins (h : Safe deps s) {s' : Driver Ω}
    (hs : s.duplicateFailBegins = some s') : Safe deps s' := by
  obtain ⟨p, hp, hs⟩ := Driver.onPump_some hs
  split at hs <;> cases hs
  rename_i w rest hphase
  have hqueued := h.pump hp
  rw [hphase] at hqueued
  have hj := hqueued.jobs
  have ho := hqueued.owned
  simp only [PumpPhase.jobs, Multiset.add_comm _ ({w.job .duplicate} : Multiset (Job Ω)),
    Multiset.singleton_add] at hj ho
  obtain ⟨hreceived, hfail⟩ := hj.facts _ (Multiset.mem_cons_self _ _)
  apply Sound.setPump
  refine ⟨?_, ?_, hqueued.ids, hqueued.bound, hqueued.room, hqueued.flags.record _ rfl⟩
  · rw [PumpPhase.jobs, Multiset.add_comm, Multiset.singleton_add]
    exact hj.advance (.fail w.id) rfl nofun ⟨hfail, .inl hreceived⟩ List.mem_cons_self nofun nofun
  · rw [PumpPhase.jobs, Multiset.add_comm, Multiset.singleton_add]
    exact (ho.drop_duplicate rfl).add _

theorem Safe.duplicateFailSettles (h : Safe deps s) {s' : Driver Ω}
    (hs : s.duplicateFailSettles deps = some s') : Safe deps s' := by
  obtain ⟨p, hp, hs⟩ := Driver.onPump_some hs
  split at hs <;> cases hs
  rename_i w rest hphase
  have hfailing := h.pump hp
  rw [hphase] at hfailing
  have hj := hfailing.jobs
  have ho := hfailing.owned
  simp only [PumpPhase.jobs, Multiset.add_comm _ ({w.job .duplicateFailing} : Multiset (Job Ω)),
    Multiset.singleton_add] at hj ho
  have hfailed : JobsOk s.activeLanes s.nextWork (.failed w.id :: s.calls)
      (w.job .finished ::ₘ s.workJobs) :=
    hj.advance _ rfl nofun (hj.facts _ (Multiset.mem_cons_self _ _)) trivial nofun nofun
  apply Sound.admitClaims
  refine ⟨?_, ?_, hfailing.ids, hfailing.bound, hfailing.room, hfailing.flags.record _ rfl⟩
  · exact (add_zero s.workJobs).symm ▸ hfailed.drop nofun
  · exact (add_zero s.workJobs).symm ▸ ho.drop_duplicate rfl

theorem Safe.pumpFinishes (h : Safe deps s) {s' : Driver Ω} (hs : s.pumpFinishes deps = some s') :
    Safe deps s' := by
  obtain ⟨p, hp, hs⟩ := Driver.onPump_some hs
  split at hs <;> cases hs
  exact h.finishPump

/-! ## Runs -/

theorem Safe.new : Safe deps (Driver.new Ω) where
  jobs := ⟨Multiset.nodup_zero, nofun, nofun, nofun, nofun, nofun, trivial⟩
  owned := nofun
  ids := List.nodup_nil
  bound := nofun
  room := Nat.zero_le _
  flags := ⟨rfl, nofun, nofun, nofun⟩

theorem Safe.step (h : Safe deps s) {e : Event Ω} {s' : Driver Ω} (hs : step deps s e = some s') :
    Safe deps s' := by
  cases e with
  | start => exact Option.some.inj hs ▸ h.start
  | notify hint => exact Option.some.inj hs ▸ h.notify hint .hint
  | recoverNow => exact Option.some.inj hs ▸ h.recoverNow
  | recovered hints =>
    rw [DurableWork.step] at hs
    split_ifs at hs
    exact Option.some.inj hs ▸ h.recovered hints
  | recoveryFinally =>
    rw [DurableWork.step] at hs
    split_ifs at hs
    cases hs
    exact ⟨h.jobs, h.owned, h.ids, h.bound, h.room, h.flags⟩
  | quiesce => exact Option.some.inj hs ▸ h.quiesce
  | quiesceContinues call => exact h.quiesceContinues hs
  | claimBegins => exact h.claimBegins hs
  | claimReturns claims => exact h.claimReturns hs
  | claimRejects => exact h.claimRejects hs
  | duplicateFailBegins => exact h.duplicateFailBegins hs
  | duplicateFailSettles => exact h.duplicateFailSettles hs
  | pumpFinishes => exact h.pumpFinishes hs
  | prepareReturns id => exact h.prepareReturns hs
  | prepareThrows id => exact h.prepareThrows hs
  | prepareFailBegins id => exact h.prepareFailBegins hs
  | prepareFailSettles id continues => exact h.prepareFailSettles hs
  | prepareContinues id => exact h.prepareContinues hs
  | prepareFinally id => exact h.prepareFinally hs
  | executeReturns id outcome => exact h.executeReturns hs
  | executeThrows id => exact h.executeThrows hs
  | settleBegins id => exact h.settleBegins hs
  | settleReturns id stale => exact h.settleReturns hs
  | settleRejects id => exact h.settleRejects hs
  | settleCaught id => exact h.settleCaught hs
  | executeFailBegins id => exact h.executeFailBegins hs
  | executeFailSettles id owns => exact h.executeFailSettles hs
  | runnerFinally id => exact h.runnerFinally hs

theorem safe_of_reachable (h : Reachable (step deps) anyStep (Driver.new Ω) s) : Safe deps s :=
  h.invariant Safe.new fun _ _ _ hsafe _ hs ↦ hsafe.step hs

/-! ## Lanes and calls of any run -/

/-- **Of two claims that arrived in one lane, one is over**: no two executions of a lane overlap. -/
theorem Safe.over_or_over (h : Safe deps s) {i j : ℕ} {lane : JsString}
    (hi : .received i lane false ∈ s.calls) (hj : .received j lane false ∈ s.calls) (hne : i ≠ j) :
    Over s.calls i ∨ Over s.calls j := by
  rcases h.jobs.held i lane hi with hover | ⟨ji, hji, rfl, hlane, hholds⟩
  · exact .inl hover
  rcases h.jobs.held j lane hj with hover | ⟨jj, hjj, rfl, hlane', hholds'⟩
  · exact .inr hover
  -- both would hold the lane
  have hgi := h.jobs.lanes ji hji hholds
  have hgj := h.jobs.lanes jj hjj hholds'
  rw [hlane] at hgi
  rw [hlane', hgi, Option.some.injEq] at hgj
  exact absurd hgj hne

/-- **Lane and slot safety.** In every state the dispatcher reaches, of two claims that arrived in a
free lane, the same one, one is over; there are at most as many executions as slots; and every call was
allowed when it was made. -/
theorem lane_and_slot_safety (h : Reachable (step deps) anyStep (Driver.new Ω) s) :
    (∀ i j lane, .received i lane false ∈ s.calls → .received j lane false ∈ s.calls → i ≠ j →
      Over s.calls i ∨ Over s.calls j) ∧
    s.runners.length ≤ deps.concurrency ∧ Orderly s.calls := by
  have hsafe := safe_of_reachable h
  refine ⟨fun i j lane hi hj hne ↦ hsafe.over_or_over hi hj hne, ?_, hsafe.jobs.orderly⟩
  exact (Nat.le_add_right _ _).trans hsafe.room

/-! ## A lane that is used again -/

def eightSlots : Deps := ⟨createDurableWorkHandlers, 8, by decide⟩

def channelHint : DurableWorkReadyHint := ⟨⟨lit "do", lit "Channel", lit "c"⟩, [.channelDelivery]⟩

/-- A hint of the channel, and the claim it leads to. -/
def deliver (generation : ℕ) : List (Event Unit) :=
  [.notify channelHint, .claimBegins, .claimReturns [⟨lit "batch", generation, some (lit "target")⟩],
    .pumpFinishes]

def deliveryLane : JsString := nulJoin [lit "channel-delivery", lit "target"]

/-- The first execution is aborted by `quiesce`, and its lane is free after a restart. -/
def restartedRun : List (Event Unit) :=
  [.start, .pumpFinishes] ++ deliver 1 ++ [.quiesce, .executeThrows 0, .runnerFinally 0,
    .quiesceContinues 0, .quiesceContinues 0, .quiesceContinues 0, .start, .pumpFinishes] ++ deliver 2

/-- After the restart there is one execution in the lane, and the first one is over. -/
theorem lane_and_slot_safety_restarted : ∃ s, run (step eightSlots) anyStep (Driver.new Unit)
    restartedRun = some s ∧ (Over s.calls 0 ∨ Over s.calls 1) := by
  have hrun : ((run (step eightSlots) anyStep (Driver.new Unit) restartedRun).map fun s ↦
      decide (.received 0 deliveryLane false ∈ s.calls ∧ .received 1 deliveryLane false ∈ s.calls)) =
        some true := by decide +kernel
  obtain ⟨s, hs, hcalls⟩ := Option.map_eq_some_iff.mp hrun
  obtain ⟨hfirst, hsecond⟩ := of_decide_eq_true hcalls
  exact ⟨s, hs, (lane_and_slot_safety (Reachable.init.run hs)).1 0 1 _ hfirst hsecond (by decide)⟩

/-- **An execution that was aborted** leaves its lane without a settlement or a failure. -/
theorem not_always_released : ¬∀ (deps : Deps) (s : Driver Unit),
    Reachable (step deps) anyStep (Driver.new Unit) s → ∀ i j lane, .received i lane false ∈ s.calls →
      .received j lane false ∈ s.calls → i ≠ j → Released s.calls i ∨ Released s.calls j := by
  intro hall
  have hrun : ((run (step eightSlots) anyStep (Driver.new Unit) restartedRun).map fun s ↦
      decide (.received 0 deliveryLane false ∈ s.calls ∧ .received 1 deliveryLane false ∈ s.calls ∧
        .execute 0 ∈ s.calls ∧ .execute 1 ∈ s.calls ∧ ¬Released s.calls 0 ∧ ¬Released s.calls 1)) =
          some true := by decide +kernel
  obtain ⟨s, hs, hcalls⟩ := Option.map_eq_some_iff.mp hrun
  obtain ⟨hfirst, hsecond, -, -, hnot, hnot'⟩ := of_decide_eq_true hcalls
  exact (hall eightSlots s (Reachable.init.run hs) 0 1 _ hfirst hsecond (by decide)).elim hnot hnot'

end Vibestudio.Server.DurableWork

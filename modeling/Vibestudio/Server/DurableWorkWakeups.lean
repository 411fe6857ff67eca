import Mathlib
import Vibestudio.Server.DurableWorkLanes

/-!
# Wake-ups of the dispatcher

A call of `kick` ends with a pump at work or without a slot for one more execution. So the dispatcher
rests with a free slot only when there is nothing left to start: no hint is pending, and work that waits
for a slot was handed over by a preparation whose `finally` is due. A hint that was recorded is a claim
that is owed, and every step but `quiesce` keeps what is owed.
-/

namespace Vibestudio.Server.DurableWork

open Js Transition

variable {Ω : Type} {deps : Deps} {s t : Driver Ω}

/-! ## What the driver has to do -/

/-- The preparation that handed the work over has settled, and its `finally` is due. -/
def Driver.due (s : Driver Ω) (w : Work) : Prop := ∃ p ∈ s.prerequisites, p.work = w ∧ p.phase = .ended true

/-- Nothing is left to start while a slot is free. -/
def Drained (deps : Deps) (s : Driver Ω) : Prop :=
  s.hasSlot deps = true → s.pumping = none → s.pending = [] ∧ ∀ w ∈ s.runnable, s.due w

def PumpPhase.claimingKeys : PumpPhase → List JsString
  | .claimQueued key _ | .claiming key _ _ => [key]
  | .failQueued _ _ | .failing _ _ | .returned => []

def PumpPhase.queuedKey : PumpPhase → Option JsString
  | .claimQueued key _ => some key
  | _ => none

def Driver.queuedKey (s : Driver Ω) : Option JsString := s.pumping.bind fun p ↦ p.phase.queuedKey

/-- `claiming` has the key of the queue that the pump claims from. -/
def ClaimsOne (s : Driver Ω) : Prop := s.claiming = (s.pumping.elim [] fun p ↦ p.phase.claimingKeys)

def Call.claims (key : JsString) : Call Ω → Bool
  | .claim k => decide (k = key)
  | _ => false

def claimCalls (calls : List (Call Ω)) (key : JsString) : ℕ := calls.countP (Call.claims key)

/-- How often a queue was claimed from, with the claim that waits for its turn. -/
def Driver.claimsBegun (s : Driver Ω) (key : JsString) : ℕ :=
  claimCalls s.calls key + if s.queuedKey = some key then 1 else 0

/-- A pending hint is owed one more claim. -/
def Driver.claimsOwed (s : Driver Ω) (key : JsString) : ℕ :=
  s.claimsBegun key + if (s.pending.get key).isSome then 1 else 0

/-- No claim that is owed is lost. -/
def Keeps (s t : Driver Ω) : Prop := ∀ key, s.claimsOwed key ≤ t.claimsOwed key

theorem Keeps.refl (s : Driver Ω) : Keeps s s := fun _ ↦ le_rfl

theorem Keeps.trans {u : Driver Ω} (h : Keeps s t) (h' : Keeps t u) : Keeps s u :=
  fun key ↦ (h key).trans (h' key)

/-- Only the hints and the pump matter for what is owed. -/
theorem Keeps.of_same (hclaims : ∀ key, claimCalls t.calls key = claimCalls s.calls key)
    (hpumping : t.pumping = s.pumping)
    (hpending : ∀ key, (s.pending.get key).isSome = true → (t.pending.get key).isSome = true) :
    Keeps s t := by
  intro key
  have hqueued : t.queuedKey = s.queuedKey := congrArg (·.bind fun p : Pump ↦ p.phase.queuedKey) hpumping
  rw [Driver.claimsOwed, Driver.claimsOwed, Driver.claimsBegun, Driver.claimsBegun, hclaims, hqueued]
  apply Nat.add_le_add_left
  split_ifs with hs ht
  · exact le_rfl
  · exact absurd (hpending key hs) ht
  · exact Nat.zero_le _
  · exact le_rfl

/-! ## The pump -/

/-- The state between two turns of a loop of the pump, as far as hints are concerned. -/
structure SameHints (s t : Driver Ω) : Prop where
  pending : t.pending = s.pending
  claiming : t.claiming = s.claiming
  pumping : t.pumping = s.pumping
  claims : ∀ key, claimCalls t.calls key = claimCalls s.calls key

theorem SameHints.trans {u : Driver Ω} (h : SameHints s t) (h' : SameHints t u) : SameHints s u :=
  ⟨h'.pending.trans h.pending, h'.claiming.trans h.claiming, h'.pumping.trans h.pumping,
    fun key ↦ (h'.claims key).trans (h.claims key)⟩

theorem SameHints.keeps (h : SameHints s t) : Keeps s t :=
  Keeps.of_same h.claims h.pumping fun _ hs ↦ h.pending ▸ hs

theorem sameHints_startReady : ∀ (ready : List Work) (s : Driver Ω),
    SameHints s (Driver.startReady deps ready s)
  | [], _ => ⟨rfl, rfl, rfl, fun _ ↦ rfl⟩
  | w :: ready, s => by
    rw [Driver.startReady]
    split_ifs with hslot
    · have hstarted : SameHints s (s.startRunner w) := ⟨rfl, rfl, rfl, fun _ ↦ rfl⟩
      exact hstarted.trans (sameHints_startReady ready _)
    · exact ⟨rfl, rfl, rfl, fun _ ↦ rfl⟩

/-- What a pump that is at work leaves behind at its next await. -/
structure PumpsOn (s t : Driver Ω) : Prop where
  busy : t.pumping.isSome = true
  claims : ClaimsOne t
  keeps : Keeps s t

theorem PumpsOn.of_sameHints {u : Driver Ω} (h : PumpsOn t u) (hsame : SameHints s t) : PumpsOn s u :=
  ⟨h.busy, h.claims, hsame.keeps.trans h.keeps⟩

/-- The pump is at work on no claim. -/
structure Between (s : Driver Ω) : Prop where
  busy : s.pumping.isSome = true
  claiming : s.claiming = []
  queued : s.queuedKey = none

theorem Between.of_sameHints (h : Between s) (hsame : SameHints s t) : Between t where
  busy := hsame.pumping ▸ h.busy
  claiming := hsame.claiming.trans h.claiming
  queued := (congrArg (·.bind fun p : Pump ↦ p.phase.queuedKey) hsame.pumping).trans h.queued

theorem Between.setPump (h : Between s) (phase : PumpPhase) (hphase : phase.claimingKeys = [])
    (hqueued : phase.queuedKey = none) : PumpsOn s (s.setPump phase) := by
  obtain ⟨p, hp⟩ := Option.isSome_iff_exists.mp h.busy
  have hpumping : (s.setPump phase).pumping = some { p with phase } := by
    rw [Driver.setPump, hp, Option.map_some]
  refine ⟨by rw [hpumping, Option.isSome_some], ?_, fun key ↦ ?_⟩
  · rw [ClaimsOne, hpumping, Option.elim_some, hphase]
    exact h.claiming
  · have hnone : (s.setPump phase).queuedKey = none := by
      rw [Driver.queuedKey, hpumping, Option.bind_some, hqueued]
    rw [Driver.claimsOwed, Driver.claimsOwed, Driver.claimsBegun, Driver.claimsBegun, hnone, h.queued]
    exact le_rfl

/-- **A hint that is taken** is claimed next. -/
theorem Between.takeHint (h : Between s) : PumpsOn s (Driver.takeHint s.pending s) := by
  obtain ⟨p, hp⟩ := Option.isSome_iff_exists.mp h.busy
  cases hpending : s.pending with
  | nil =>
    have hs : { s with pending := [] } = s := by rw [← hpending]
    rw [Driver.takeHint, hs]
    exact h.setPump .returned rfl rfl
  | cons entry pending =>
    obtain ⟨key, hint⟩ := entry
    rw [Driver.takeHint, if_neg (h.claiming ▸ List.not_mem_nil)]
    refine ⟨?_, ?_, fun key' ↦ ?_⟩
    · rw [Driver.setPump, hp]
      rfl
    · rw [ClaimsOne, Driver.setPump, hp, h.claiming]
      rfl
    · have hqueued : (({ s with pending, claiming := key :: s.claiming } : Driver Ω).setPump
          (.claimQueued key hint)).queuedKey = some key := by
        rw [Driver.queuedKey, Driver.setPump, hp]
        rfl
      rw [Driver.claimsOwed, Driver.claimsOwed, Driver.claimsBegun, Driver.claimsBegun, hqueued, h.queued,
        hpending, if_neg (by rintro ⟨⟩), add_zero]
      by_cases hkey : key = key'
      · subst hkey
        rw [if_pos rfl]
        refine (Nat.add_le_add_left ?_ _).trans (Nat.le_add_right _ _)
        split_ifs <;> decide
      · have hget : JsMap.get key' ((key, hint) :: pending) = JsMap.get key' pending := by
          rw [JsMap.get, if_neg hkey]
        rw [hget, if_neg fun heq ↦ hkey (Option.some.inj heq), add_zero]
        exact le_rfl

theorem Between.pumpLoop (h : Between s) : PumpsOn s (s.pumpLoop deps) := by
  have hsame : SameHints s (Driver.startReady deps s.runnable s) := sameHints_startReady s.runnable s
  have hready := h.of_sameHints hsame
  rw [Driver.pumpLoop]
  split_ifs with hslot
  · exact hready.takeHint.of_sameHints hsame
  · exact (hready.setPump .returned rfl rfl).of_sameHints hsame

theorem Between.admitClaims (hint : PendingHint) : ∀ (claims : List WorkClaim) {s : Driver Ω}, Between s →
    PumpsOn s (Driver.admitClaims deps hint claims s)
  | [], _, h => h.pumpLoop
  | claim :: rest, s, h => by
    rw [Driver.admitClaims]
    split_ifs with hlane hprepares
    · refine PumpsOn.of_sameHints (Between.setPump (h.of_sameHints ?_) (.failQueued _ rest) rfl rfl) ?_
      all_goals exact ⟨rfl, rfl, rfl, fun _ ↦ rfl⟩
    · refine PumpsOn.of_sameHints (Between.admitClaims hint rest (h.of_sameHints ?_)) ?_
      all_goals exact ⟨rfl, rfl, rfl, fun _ ↦ rfl⟩
    · refine PumpsOn.of_sameHints (Between.admitClaims hint rest (h.of_sameHints ?_)) ?_
      all_goals exact ⟨rfl, rfl, rfl, fun _ ↦ rfl⟩

/-! ## Steps -/

/-- The invariant of the wake-ups. -/
structure Awake (deps : Deps) (s : Driver Ω) : Prop where
  drained : Drained deps s
  claims : ClaimsOne s

/-- A step that keeps the invariant and what is owed. -/
structure WakesOn (deps : Deps) (s t : Driver Ω) : Prop where
  awake : Awake deps t
  keeps : Keeps s t

theorem WakesOn.refl (h : Awake deps s) : WakesOn deps s s := ⟨h, Keeps.refl s⟩

theorem WakesOn.trans {u : Driver Ω} (h : WakesOn deps s t) (h' : WakesOn deps t u) : WakesOn deps s u :=
  ⟨h'.awake, h.keeps.trans h'.keeps⟩

theorem PumpsOn.wakesOn (h : PumpsOn s t) : WakesOn deps s t where
  awake.drained := fun _ hnone ↦ absurd h.busy (by rw [hnone]; exact Bool.false_ne_true)
  awake.claims := h.claims
  keeps := h.keeps

/-- **A kick leaves a pump at work, or no slot is free.** -/
theorem kick_wakesOn (deps : Deps) (h : ClaimsOne s) : WakesOn deps s (s.kick deps) := by
  rw [Driver.kick]
  split_ifs with hbusy
  · refine ⟨⟨fun hslot hnone ↦ ?_, h⟩, Keeps.refl s⟩
    rw [hnone, Option.isSome_none] at hbusy
    exact absurd hslot (hbusy.resolve_left Bool.false_ne_true)
  · have hnone : s.pumping = none := by
      rw [not_or, Bool.not_eq_true, Option.isSome_eq_false_iff, Option.isNone_iff_eq_none] at hbusy
      exact hbusy.1
    have hkeeps : Keeps s ({ s with
        pumping := some ⟨s.nextPump, .returned⟩
        nextPump := s.nextPump + 1 } : Driver Ω) := by
      intro key
      rw [Driver.claimsOwed, Driver.claimsBegun, Driver.queuedKey, hnone]
      exact le_rfl
    have hclaiming : s.claiming = [] := by
      rw [ClaimsOne, hnone] at h
      exact h
    have hbetween : Between ({ s with
        pumping := some ⟨s.nextPump, .returned⟩
        nextPump := s.nextPump + 1 } : Driver Ω) := ⟨rfl, hclaiming, rfl⟩
    have hon : PumpsOn _ (Driver.pumpLoop deps _) := hbetween.pumpLoop
    exact PumpsOn.wakesOn ⟨hon.busy, hon.claims, hkeeps.trans hon.keeps⟩

theorem get_addHints {owner : DORef} {trigger : DurableWorkTrigger} {key : JsString} :
    ∀ (queues : List DurableWorkQueue) (pending : JsMap JsString PendingHint),
      (pending.get key).isSome = true → ((queues.foldl (fun pending queue ↦
        pending.set (hintKey owner queue) ⟨owner, queue, trigger⟩) pending).get key).isSome = true
  | [], _, h => h
  | queue :: queues, pending, h => by
    rw [List.foldl_cons]
    apply get_addHints queues
    rw [JsMap.get_set]
    split_ifs
    · rfl
    · exact h

theorem notify_wakesOn (h : Awake deps s) (hint : DurableWorkReadyHint) (trigger : DurableWorkTrigger) :
    WakesOn deps s (s.notify deps hint trigger) := by
  rw [Driver.notify]
  split_ifs with haccepting
  · have hkeeps : Keeps s (s.addHints hint.owner trigger hint.queues) :=
      Keeps.of_same (fun _ ↦ rfl) rfl fun key hs ↦ get_addHints hint.queues s.pending hs
    have hkick : WakesOn deps (s.addHints hint.owner trigger hint.queues) _ := kick_wakesOn deps h.claims
    exact ⟨hkick.awake, hkeeps.trans hkick.keeps⟩
  · exact WakesOn.refl h

theorem finishPump_wakesOn (h : ClaimsOne s) {id : ℕ} (hpump : s.pumping = some ⟨id, .returned⟩) :
    WakesOn deps s (s.finishPump deps) := by
  have hkeeps : Keeps s { s with pumping := none } := by
    intro key
    rw [Driver.claimsOwed, Driver.claimsBegun, Driver.queuedKey, hpump]
    exact le_rfl
  have hclaims : ClaimsOne ({ s with pumping := none } : Driver Ω) := by
    rw [ClaimsOne, hpump] at h
    exact h
  rw [Driver.finishPump]
  split_ifs with hmore
  · have hkick := kick_wakesOn deps hclaims
    exact ⟨hkick.awake, hkeeps.trans hkick.keeps⟩
  · refine ⟨⟨fun hslot _ ↦ ?_, hclaims⟩, hkeeps⟩
    rw [not_and, not_or, not_not, not_not] at hmore
    obtain ⟨hpending, hrunnable⟩ := hmore hslot
    refine ⟨hpending, fun w hw ↦ ?_⟩
    have hw' : w ∈ s.runnable := hw
    rw [hrunnable] at hw'
    cases hw'

/-- A step of a preparation, a runner, a recovery or a call of `quiesce` that starts nothing. -/
theorem wakesOn_of_same (h : Awake deps s) (hsame : SameHints s t)
    (hslot : t.hasSlot deps = true → s.hasSlot deps = true)
    (hdue : (∀ w ∈ s.runnable, s.due w) → ∀ w ∈ t.runnable, t.due w) : WakesOn deps s t := by
  refine ⟨⟨fun hfree hnone ↦ ?_, ?_⟩, hsame.keeps⟩
  · obtain ⟨hpending, hrunnable⟩ := h.drained (hslot hfree) (hsame.pumping ▸ hnone)
    exact ⟨hsame.pending.trans hpending, hdue hrunnable⟩
  · rw [ClaimsOne, hsame.claiming, hsame.pumping]
    exact h.claims

/-- A kick after a step that starts nothing. -/
theorem wakesOn_kick (h : ClaimsOne s) (hsame : SameHints s t) : WakesOn deps s (t.kick deps) := by
  have hclaims : ClaimsOne t := by
    rw [ClaimsOne, hsame.claiming, hsame.pumping]
    exact h
  have hkick := kick_wakesOn deps hclaims
  exact ⟨hkick.awake, hsame.keeps.trans hkick.keeps⟩

theorem notify_keeps (deps : Deps) (h : ClaimsOne s) (hint : DurableWorkReadyHint) (trigger : DurableWorkTrigger) :
    ClaimsOne (s.notify deps hint trigger) ∧ Keeps s (s.notify deps hint trigger) := by
  rw [Driver.notify]
  split_ifs with haccepting
  · have hkeeps : Keeps s (s.addHints hint.owner trigger hint.queues) :=
      Keeps.of_same (fun _ ↦ rfl) rfl fun key hs ↦ get_addHints hint.queues s.pending hs
    have hkick : WakesOn deps (s.addHints hint.owner trigger hint.queues) _ := kick_wakesOn deps h
    exact ⟨hkick.awake.claims, hkeeps.trans hkick.keeps⟩
  · exact ⟨h, Keeps.refl s⟩

/-- Other preparations stay as they are. -/
theorem due_setPreparation (hids : (s.prerequisites.map (·.work.id)).Nodup) {id : ℕ} {p : Preparation}
    (hp : s.prerequisites.find? (fun p ↦ decide (p.work.id = id)) = some p) (hphase : p.phase ≠ .ended true)
    (phase : PreparationPhase) {w : Work} (hw : s.due w) : (s.setPreparation id phase).due w := by
  obtain ⟨q, hq, hwork, hended⟩ := hw
  have hne : q.work.id ≠ id := by
    rcases List.mem_cons.mp ((find_perm hids hp).1.mem_iff.mp hq) with rfl | hq
    · exact absurd hended hphase
    · exact of_decide_eq_true (List.mem_filter.mp hq).2
  exact ⟨q, List.mem_map.mpr ⟨q, hq, if_neg hne⟩, hwork, hended⟩

namespace Awake

variable {id : ℕ}

/-- A preparation goes on, with its work still in its hands. -/
theorem setPreparation (h : Awake deps s) (hids : (s.prerequisites.map (·.work.id)).Nodup)
    {p : Preparation} (hp : s.prerequisites.find? (fun p ↦ decide (p.work.id = id)) = some p)
    (hphase : p.phase ≠ .ended true) (phase : PreparationPhase) {lanes : JsMap JsString ℕ}
    {calls : List (Call Ω)} (hclaims : ∀ key, claimCalls calls key = claimCalls s.calls key) :
    WakesOn deps s ({ s with activeLanes := lanes, calls := calls }.setPreparation id phase) :=
  wakesOn_of_same h ⟨rfl, rfl, rfl, hclaims⟩ (fun hslot ↦ hslot) fun hdue w hw ↦
    due_setPreparation hids hp hphase phase (hdue w hw)

theorem setRunner (h : Awake deps s) (phase : RunnerPhase Ω) {lanes : JsMap JsString ℕ}
    {calls : List (Call Ω)} (hclaims : ∀ key, claimCalls calls key = claimCalls s.calls key) :
    WakesOn deps s ({ s with activeLanes := lanes, calls := calls }.setRunner id phase) := by
  refine wakesOn_of_same h ⟨rfl, rfl, rfl, hclaims⟩ (fun hslot ↦ ?_) fun hdue ↦ hdue
  rw [Driver.hasSlot, Driver.setRunner, List.length_map] at hslot
  exact hslot

theorem prepareReturns (h : Awake deps s) (hids : (s.prerequisites.map (·.work.id)).Nodup)
    (hs : s.prepareReturns id = some t) : WakesOn deps s t := by
  obtain ⟨p, hp, rfl, hs⟩ := Driver.onPreparation_some hs
  split at hs
  case h_2 => exact nomatch hs
  rename_i hphase
  have hne : p.phase ≠ .ended true := hphase ▸ nofun
  split_ifs at hs with haccepting <;> cases hs
  · refine wakesOn_of_same h ⟨rfl, rfl, rfl, fun _ ↦ rfl⟩ (fun hslot ↦ hslot) fun hdue w hw ↦ ?_
    rcases List.mem_append.mp hw with hw | hw
    · exact due_setPreparation hids hp hne _ (hdue w hw)
    · -- the `finally` of the preparation comes next
      rw [List.mem_singleton.mp hw]
      exact ⟨_, List.mem_map.mpr ⟨p, List.mem_of_find?_eq_some hp, if_pos rfl⟩, rfl, rfl⟩
  · rw [releaseLane_eq]
    exact h.setPreparation hids hp hne _ fun _ ↦ rfl

theorem prepareThrows (h : Awake deps s) (hids : (s.prerequisites.map (·.work.id)).Nodup)
    (hs : s.prepareThrows id = some t) : WakesOn deps s t := by
  obtain ⟨p, hp, rfl, hs⟩ := Driver.onPreparation_some hs
  split at hs
  case h_2 => exact nomatch hs
  rename_i hphase
  have hne : p.phase ≠ .ended true := hphase ▸ nofun
  split_ifs at hs <;> cases hs
  · rw [releaseLane_eq]
    exact h.setPreparation hids hp hne _ fun _ ↦ rfl
  · exact h.setPreparation hids hp hne _ fun _ ↦ rfl

theorem prepareFailBegins (h : Awake deps s) (hids : (s.prerequisites.map (·.work.id)).Nodup)
    (hs : s.prepareFailBegins id = some t) : WakesOn deps s t := by
  obtain ⟨p, hp, rfl, hs⟩ := Driver.onPreparation_some hs
  split at hs <;> cases hs
  rename_i hphase
  exact h.setPreparation hids hp (hphase ▸ nofun) _ fun _ ↦ rfl

theorem prepareFailSettles (h : Awake deps s) (hids : (s.prerequisites.map (·.work.id)).Nodup)
    {continues : Bool} (hs : s.prepareFailSettles id continues = some t) : WakesOn deps s t := by
  obtain ⟨p, hp, rfl, hs⟩ := Driver.onPreparation_some hs
  split at hs <;> cases hs
  rename_i hphase
  rw [releaseLane_eq]
  exact h.setPreparation hids hp (hphase ▸ nofun) _ fun _ ↦ rfl

theorem prepareContinues (h : Awake deps s) (hids : (s.prerequisites.map (·.work.id)).Nodup)
    (hs : s.prepareContinues deps id = some t) : WakesOn deps s t := by
  obtain ⟨p, hp, rfl, hs⟩ := Driver.onPreparation_some hs
  split at hs <;> cases hs
  rename_i continues hphase
  have hended : WakesOn deps s (s.setPreparation p.work.id (.ended false)) :=
    h.setPreparation hids hp (hphase ▸ nofun) _ fun _ ↦ rfl
  cases continues with
  | true => exact hended.trans (notify_wakesOn hended.awake _ _)
  | false => exact hended

theorem prepareFinally (h : Awake deps s) (hs : s.prepareFinally deps id = some t) : WakesOn deps s t := by
  obtain ⟨p, hp, rfl, hs⟩ := Driver.onPreparation_some hs
  split at hs <;> cases hs
  apply wakesOn_kick h.claims
  split_ifs
  · exact ⟨rfl, rfl, rfl, fun _ ↦ rfl⟩
  · rw [releaseLane_eq]
    exact ⟨rfl, rfl, rfl, fun _ ↦ rfl⟩

theorem executeThrows (h : Awake deps s) (hs : s.executeThrows id = some t) : WakesOn deps s t := by
  obtain ⟨r, hr, rfl, hs⟩ := Driver.onRunner_some hs
  split at hs
  case h_2 => exact nomatch hs
  split_ifs at hs <;> cases hs
  · exact h.setRunner _ fun _ ↦ rfl
  · exact h.setRunner _ fun _ ↦ rfl

/-- The steps of a runner up to its end. -/
theorem runner (h : Awake deps s) {f : Runner Ω → Option (Driver Ω)} (hs : s.onRunner id f = some t)
    (hf : ∀ r, f r = some t → ∃ lanes calls phase,
      t = { s with activeLanes := lanes, calls := calls }.setRunner id phase ∧
      ∀ key, claimCalls calls key = claimCalls s.calls key) : WakesOn deps s t := by
  obtain ⟨r, hr, hid, hs⟩ := Driver.onRunner_some hs
  obtain ⟨lanes, calls, phase, rfl, hclaims⟩ := hf r hs
  exact h.setRunner phase hclaims

theorem runnerFinally (h : Awake deps s) (hs : s.runnerFinally deps id = some t) : WakesOn deps s t := by
  obtain ⟨r, hr, rfl, hs⟩ := Driver.onRunner_some hs
  split at hs <;> cases hs
  rename_i owns hphase
  have hgone : SameHints s (({ s with
      runners := (s.runners.filter fun r' ↦ decide (r'.work.id ≠ r.work.id)) }).releaseLane
        r.work.lane r.work.id) := by
    rw [releaseLane_eq]
    exact ⟨rfl, rfl, rfl, fun _ ↦ rfl⟩
  cases owns with
  | false => exact wakesOn_kick h.claims hgone
  | true =>
    have hclaims : ClaimsOne (({ s with
        runners := (s.runners.filter fun r' ↦ decide (r'.work.id ≠ r.work.id)) }).releaseLane
          r.work.lane r.work.id) := by
      rw [ClaimsOne, hgone.claiming, hgone.pumping]
      exact h.claims
    obtain ⟨hnotified, hkeeps⟩ := notify_keeps deps hclaims
      ⟨r.work.owner, [r.work.queue]⟩ .continuation
    have hkick := kick_wakesOn deps hnotified
    exact ⟨hkick.awake, (hgone.keeps.trans hkeeps).trans hkick.keeps⟩

end Awake

namespace Awake

theorem start (h : Awake deps s) : WakesOn deps s (s.start deps) := by
  rw [Driver.start]
  split_ifs with haccepting
  · exact WakesOn.refl h
  · exact wakesOn_kick h.claims ⟨rfl, rfl, rfl, fun _ ↦ rfl⟩

theorem recoverNow (h : Awake deps s) : WakesOn deps s s.recoverNow := by
  rw [Driver.recoverNow]
  split_ifs
  · exact wakesOn_of_same h ⟨rfl, rfl, rfl, fun _ ↦ rfl⟩ (fun hslot ↦ hslot) fun hdue ↦ hdue
  · exact WakesOn.refl h

theorem recovered (h : Awake deps s) (hints : List DurableWorkReadyHint) :
    WakesOn deps s (s.recovered deps hints) := by
  have hfold : ∀ (hints : List DurableWorkReadyHint) {s : Driver Ω}, Awake deps s →
      WakesOn deps s (hints.foldl (fun s hint ↦ s.notify deps hint .recovery) s) := by
    intro hints
    induction hints with
    | nil => exact fun h ↦ WakesOn.refl h
    | cons hint hints ih =>
      intro s h
      have hnotified := notify_wakesOn h hint .recovery
      exact hnotified.trans (ih hnotified.awake)
  have hsettled : WakesOn deps s { s with recovering := s.recovering.map fun r ↦ { r with settled := true } } :=
    wakesOn_of_same h ⟨rfl, rfl, rfl, fun _ ↦ rfl⟩ (fun hslot ↦ hslot) fun hdue ↦ hdue
  exact hsettled.trans (hfold hints hsettled.awake)

/-- A driver that was quiesced has no slot to give. -/
theorem quiesce (h : Awake deps s) : Awake deps s.quiesce :=
  ⟨fun hslot _ ↦ (nomatch hslot), h.claims⟩

theorem quiesceContinues (h : Awake deps s) {i : ℕ} (hs : s.quiesceContinues i = some t) :
    WakesOn deps s t := by
  obtain ⟨q, hq, hs⟩ := Option.bind_eq_some_iff.mp hs
  obtain ⟨⟨u, phase⟩, hu, rfl⟩ := Option.map_eq_some_iff.mp hs
  rw [Driver.continueQuiesce.eq_def] at hu
  split at hu
  · split_ifs at hu
    cases hu
    exact wakesOn_of_same h ⟨rfl, rfl, rfl, fun _ ↦ rfl⟩ (fun hslot ↦ hslot) fun hdue ↦ hdue
  · split_ifs at hu
    cases hu
    have hcleared : ∀ (ready : List Work) (s : Driver Ω), ∃ lanes calls,
        ready.foldl (fun s w ↦ (s.record (.cleared w.id)).releaseLane w.lane w.id) s =
          { s with activeLanes := lanes, calls } ∧
        ∀ key, claimCalls calls key = claimCalls s.calls key := by
      intro ready
      induction ready with
      | nil => exact fun s ↦ ⟨s.activeLanes, s.calls, rfl, fun _ ↦ rfl⟩
      | cons w ready ih =>
        intro s
        rw [List.foldl_cons, releaseLane_eq]
        exact ih _
    obtain ⟨lanes, calls, hlanes, hclaims⟩ := hcleared s.runnable s
    rw [Driver.dropRunnable, hlanes]
    exact wakesOn_of_same h ⟨rfl, rfl, rfl, hclaims⟩ (fun hslot ↦ hslot) fun _ ↦ (by rintro _ ⟨⟩)
  · split_ifs at hu
    cases hu
    exact wakesOn_of_same h ⟨rfl, rfl, rfl, fun _ ↦ rfl⟩ (fun hslot ↦ hslot) fun hdue ↦ hdue
  · cases hu

/-! ### The pump -/

theorem between (h : Awake deps s) {p : Pump} (hp : s.pumping = some p) (hkeys : p.phase.claimingKeys = [])
    (hqueued : p.phase.queuedKey = none) : Between s where
  busy := by rw [hp, Option.isSome_some]
  claiming := by
    have hclaims := h.claims
    rw [ClaimsOne, hp, Option.elim_some, hkeys] at hclaims
    exact hclaims
  queued := by rw [Driver.queuedKey, hp, Option.bind_some, hqueued]

/-- The claim that was under way is over. -/
theorem between_endClaim (h : Awake deps s) {p : Pump} {key : JsString} {hint : PendingHint} {limit : ℕ}
    (hp : s.pumping = some p) (hphase : p.phase = .claiming key hint limit) :
    Between (s.endClaim key) ∧ Keeps s (s.endClaim key) := by
  have hclaims := h.claims
  rw [ClaimsOne, hp, Option.elim_some, hphase] at hclaims
  refine ⟨⟨?_, ?_, ?_⟩, Keeps.of_same (fun _ ↦ rfl) rfl fun _ hs ↦ hs⟩
  · rw [Driver.endClaim, hp, Option.isSome_some]
  · rw [Driver.endClaim, hclaims, PumpPhase.claimingKeys]
    simp
  · rw [Driver.queuedKey, Driver.endClaim, hp, Option.bind_some, hphase]
    rfl

theorem claimBegins (h : Awake deps s) (hs : s.claimBegins deps = some t) : WakesOn deps s t := by
  obtain ⟨p, hp, hs⟩ := Driver.onPump_some hs
  split at hs <;> cases hs
  rename_i key hint hphase
  have hclaims := h.claims
  rw [ClaimsOne, hp, Option.elim_some, hphase] at hclaims
  apply PumpsOn.wakesOn
  refine ⟨?_, ?_, fun key' ↦ ?_⟩
  · rw [Driver.setPump, hp]
    rfl
  · rw [ClaimsOne, Driver.setPump, hp]
    exact hclaims
  · -- the claim that was waiting for its turn is now one of the calls
    have hcalls : claimCalls (.claim key :: s.calls) key' =
        claimCalls s.calls key' + if key = key' then 1 else 0 := by
      rw [claimCalls, List.countP_cons, Call.claims]
      simp only [decide_eq_true_eq]
      rfl
    have hbegun : ((({ s with calls := .claim key :: s.calls } : Driver Ω)).setPump
        (.claiming key hint (deps.concurrency - s.runners.length))).claimsBegun key' = s.claimsBegun key' := by
      rw [Driver.claimsBegun, Driver.claimsBegun, Driver.queuedKey, Driver.queuedKey, Driver.setPump, hp,
        Option.bind_some, hphase]
      change claimCalls (.claim key :: s.calls) key' + 0 = _
      rw [hcalls, add_zero, PumpPhase.queuedKey]
      simp only [Option.some.injEq]
    rw [Driver.claimsOwed, Driver.claimsOwed, hbegun]
    exact le_rfl

theorem claimReturns (h : Awake deps s) {claims : List WorkClaim} (hs : s.claimReturns deps claims = some t) :
    WakesOn deps s t := by
  obtain ⟨p, hp, hs⟩ := Driver.onPump_some hs
  split at hs
  case h_2 => exact nomatch hs
  rename_i key hint limit hphase
  split_ifs at hs with hlimit
  cases hs
  obtain ⟨hbetween, hkeeps⟩ := h.between_endClaim hp hphase
  have hon : PumpsOn _ (Driver.admitClaims deps hint claims (s.endClaim key)) := Between.admitClaims hint claims hbetween
  exact PumpsOn.wakesOn ⟨hon.busy, hon.claims, hkeeps.trans hon.keeps⟩

theorem claimRejects (h : Awake deps s) (hs : s.claimRejects deps = some t) : WakesOn deps s t := by
  obtain ⟨p, hp, hs⟩ := Driver.onPump_some hs
  split at hs <;> cases hs
  rename_i key hint limit hphase
  obtain ⟨hbetween, hkeeps⟩ := h.between_endClaim hp hphase
  have hon : PumpsOn _ (Driver.pumpLoop deps (s.endClaim key)) := hbetween.pumpLoop
  exact PumpsOn.wakesOn ⟨hon.busy, hon.claims, hkeeps.trans hon.keeps⟩

theorem duplicateFailBegins (h : Awake deps s) (hs : s.duplicateFailBegins = some t) :
    WakesOn deps s t := by
  obtain ⟨p, hp, hs⟩ := Driver.onPump_some hs
  split at hs <;> cases hs
  rename_i w rest hphase
  have hbetween := h.between hp (hphase ▸ rfl) (hphase ▸ rfl)
  have hrecorded : SameHints s (s.record (.fail w.id)) := ⟨rfl, rfl, rfl, fun _ ↦ rfl⟩
  exact ((hbetween.of_sameHints hrecorded).setPump (.failing w rest) rfl rfl |>.of_sameHints
    hrecorded).wakesOn

theorem duplicateFailSettles (h : Awake deps s) (hs : s.duplicateFailSettles deps = some t) :
    WakesOn deps s t := by
  obtain ⟨p, hp, hs⟩ := Driver.onPump_some hs
  split at hs <;> cases hs
  rename_i w rest hphase
  have hbetween := h.between hp (hphase ▸ rfl) (hphase ▸ rfl)
  have hrecorded : SameHints s (s.record (.failed w.id)) := ⟨rfl, rfl, rfl, fun _ ↦ rfl⟩
  exact ((Between.admitClaims _ rest (hbetween.of_sameHints hrecorded)).of_sameHints hrecorded).wakesOn

theorem pumpFinishes (h : Awake deps s) (hs : s.pumpFinishes deps = some t) : WakesOn deps s t := by
  obtain ⟨⟨id, phase⟩, hp, hs⟩ := Driver.onPump_some hs
  split at hs <;> cases hs
  rename_i hphase
  have hreturned : phase = .returned := hphase
  exact finishPump_wakesOn h.claims (hreturned ▸ hp)

end Awake

/-! ## Runs -/

def Event.isQuiesce : Event Ω → Bool
  | .quiesce => true
  | _ => false

/-- **Every step but `quiesce`** keeps the invariant and what is owed. -/
theorem Awake.step (h : Awake deps s) (hsafe : Safe deps s) {e : Event Ω} (hs : step deps s e = some t)
    (he : e.isQuiesce = false) : WakesOn deps s t := by
  have hids := hsafe.ids
  cases e with
  | quiesce => exact nomatch he
  | start => exact Option.some.inj hs ▸ h.start
  | notify hint => exact Option.some.inj hs ▸ notify_wakesOn h hint .hint
  | recoverNow => exact Option.some.inj hs ▸ h.recoverNow
  | recovered hints =>
    rw [DurableWork.step] at hs
    split_ifs at hs
    exact Option.some.inj hs ▸ h.recovered hints
  | recoveryFinally =>
    rw [DurableWork.step] at hs
    split_ifs at hs
    cases hs
    exact wakesOn_of_same h ⟨rfl, rfl, rfl, fun _ ↦ rfl⟩ (fun hslot ↦ hslot) fun hdue ↦ hdue
  | quiesceContinues call => exact h.quiesceContinues hs
  | claimBegins => exact h.claimBegins hs
  | claimReturns claims => exact h.claimReturns hs
  | claimRejects => exact h.claimRejects hs
  | duplicateFailBegins => exact h.duplicateFailBegins hs
  | duplicateFailSettles => exact h.duplicateFailSettles hs
  | pumpFinishes => exact h.pumpFinishes hs
  | prepareReturns id => exact h.prepareReturns hids hs
  | prepareThrows id => exact h.prepareThrows hids hs
  | prepareFailBegins id => exact h.prepareFailBegins hids hs
  | prepareFailSettles id continues => exact h.prepareFailSettles hids hs
  | prepareContinues id => exact h.prepareContinues hids hs
  | prepareFinally id => exact h.prepareFinally hs
  | executeThrows id => exact h.executeThrows hs
  | runnerFinally id => exact h.runnerFinally hs
  | executeReturns id outcome =>
    refine h.runner hs fun r hr ↦ ?_
    split at hr <;> cases hr
    exact ⟨_, _, _, rfl, fun _ ↦ rfl⟩
  | settleBegins id =>
    refine h.runner hs fun r hr ↦ ?_
    split at hr <;> cases hr
    exact ⟨_, _, _, rfl, fun _ ↦ rfl⟩
  | settleReturns id stale =>
    refine h.runner hs fun r hr ↦ ?_
    split at hr <;> cases hr
    rw [releaseLane_eq]
    exact ⟨_, _, _, rfl, fun _ ↦ rfl⟩
  | settleRejects id =>
    refine h.runner hs fun r hr ↦ ?_
    split at hr <;> cases hr
    rw [releaseLane_eq]
    exact ⟨_, _, _, rfl, fun _ ↦ rfl⟩
  | settleCaught id =>
    refine h.runner hs fun r hr ↦ ?_
    split at hr <;> cases hr
    exact ⟨_, _, _, rfl, fun _ ↦ rfl⟩
  | executeFailBegins id =>
    refine h.runner hs fun r hr ↦ ?_
    split at hr <;> cases hr
    exact ⟨_, _, _, rfl, fun _ ↦ rfl⟩
  | executeFailSettles id owns =>
    refine h.runner hs fun r hr ↦ ?_
    split at hr <;> cases hr
    rw [releaseLane_eq]
    exact ⟨_, _, _, rfl, fun _ ↦ rfl⟩

theorem awake_of_reachable (h : Reachable (step deps) anyStep (Driver.new Ω) s) :
    Safe deps s ∧ Awake deps s := by
  refine h.invariant (I := fun s ↦ Safe deps s ∧ Awake deps s)
    ⟨Safe.new, fun hslot _ ↦ (nomatch hslot), rfl⟩ fun s t e hinv _ hs ↦ ?_
  obtain ⟨hsafe, hawake⟩ := hinv
  refine ⟨hsafe.step hs, ?_⟩
  cases hquiesce : e.isQuiesce with
  | true =>
    cases e with
    | quiesce => exact Option.some.inj hs ▸ hawake.quiesce
    | _ => exact nomatch hquiesce
  | false => exact (hawake.step hsafe hs hquiesce).awake

def noQuiesce (_ : Driver Ω) (e : Event Ω) : Bool := !e.isQuiesce

theorem wakesOn_of_reachable (hsafe : Safe deps s) (hawake : Awake deps s)
    (h : Reachable (step deps) noQuiesce s t) : WakesOn deps s t := by
  have hinv : Safe deps t ∧ WakesOn deps s t := by
    refine h.invariant (I := fun t ↦ Safe deps t ∧ WakesOn deps s t) ⟨hsafe, WakesOn.refl hawake⟩ fun u v e hinv he hs ↦ ?_
    obtain ⟨husafe, hu⟩ := hinv
    exact ⟨husafe.step hs, hu.trans (hu.awake.step husafe hs ((Bool.not_eq_true' _).mp he))⟩
  exact hinv.2

/-- The driver admits work, no pump is at work and a slot is free. -/
def Driver.rests (deps : Deps) (s : Driver Ω) : Prop :=
  s.accepting = true ∧ s.pumping = none ∧ s.runners.length < deps.concurrency

instance (deps : Deps) (s : Driver Ω) : Decidable (s.rests deps) := inferInstanceAs (Decidable (_ ∧ _ ∧ _))

theorem Awake.rest (h : Awake deps s) (hrests : s.rests deps) : s.pending = [] ∧ ∀ w ∈ s.runnable, s.due w := by
  obtain ⟨haccepting, hpumping, hfree⟩ := hrests
  apply h.drained _ hpumping
  rw [Driver.hasSlot, haccepting, Bool.true_and, decide_eq_true hfree]

/-- **No work is stranded.** When the dispatcher rests, no hint is pending, and runnable work was handed
over by a preparation whose `finally`, with a kick, is due. A hint that is recorded, while its queue is
being claimed or not, has led to one more claim when the dispatcher rests again. -/
theorem no_work_is_stranded (h : Reachable (step deps) anyStep (Driver.new Ω) s) :
    (s.rests deps → s.pending = [] ∧ ∀ w ∈ s.runnable, s.due w) ∧
    ∀ key, (s.pending.get key).isSome = true → ∀ t, Reachable (step deps) noQuiesce s t → t.rests deps →
      s.claimsBegun key < claimCalls t.calls key := by
  obtain ⟨hsafe, hawake⟩ := awake_of_reachable h
  refine ⟨fun hrests ↦ hawake.rest hrests, fun key hkey t hst hrests ↦ ?_⟩
  have hwakes := wakesOn_of_reachable hsafe hawake hst
  have hkeeps := hwakes.keeps key
  rw [Driver.claimsOwed, Driver.claimsOwed, if_pos hkey, (hwakes.awake.rest hrests).1] at hkeeps
  have hbegun : t.claimsBegun key = claimCalls t.calls key := by
    rw [Driver.claimsBegun, Driver.queuedKey, hrests.2.1]
    rfl
  rw [hbegun] at hkeeps
  exact hkeeps

/-! ## A hint during a claim, and a preparation that hands over -/

def channelKey : JsString := hintKey channelHint.owner .channelDelivery

/-- The hint comes again while the queue is being claimed. -/
def hintedRun : List (Event Unit) :=
  [.start, .pumpFinishes, .notify channelHint, .claimBegins, .notify channelHint]

/-- The queue is claimed from once more. -/
theorem no_work_is_stranded_hinted : ∃ s t, run (step eightSlots) anyStep (Driver.new Unit) hintedRun = some s ∧
    run (step eightSlots) noQuiesce s [.claimReturns [], .claimBegins, .claimReturns [], .pumpFinishes] =
      some t ∧ s.claimsBegun channelKey < claimCalls t.calls channelKey := by
  have hrun : ((run (step eightSlots) anyStep (Driver.new Unit) hintedRun).bind fun s ↦
      (run (step eightSlots) noQuiesce s [.claimReturns [], .claimBegins, .claimReturns [],
        .pumpFinishes]).map fun t ↦ decide ((s.pending.get channelKey).isSome = true ∧ t.rests eightSlots)) =
          some true := by decide +kernel
  obtain ⟨s, hs, hrun⟩ := Option.bind_eq_some_iff.mp hrun
  obtain ⟨t, ht, hrests⟩ := Option.map_eq_some_iff.mp hrun
  obtain ⟨hpending, hrests⟩ := of_decide_eq_true hrests
  exact ⟨s, t, hs, ht, (no_work_is_stranded (Reachable.init.run hs)).2 channelKey hpending t
    (Reachable.init.run ht) hrests⟩

def observationHint : DurableWorkReadyHint := ⟨channelHint.owner, [.channelObservation]⟩

/-- **Between the end of a preparation and its `finally`** the work is runnable, and nothing runs. -/
theorem not_always_nothing_runnable : ¬∀ (deps : Deps) (s : Driver Unit),
    Reachable (step deps) anyStep (Driver.new Unit) s → s.rests deps → s.pending = [] ∧ s.runnable = [] := by
  intro hall
  have hrun : ((run (step eightSlots) anyStep (Driver.new Unit) [.start, .pumpFinishes,
      .notify observationHint, .claimBegins, .claimReturns [⟨lit "observation", 1, none⟩], .pumpFinishes,
      .prepareReturns 0]).map fun s ↦ decide (s.rests eightSlots ∧ s.runnable ≠ [])) = some true := by
    decide +kernel
  obtain ⟨s, hs, hrunnable⟩ := Option.map_eq_some_iff.mp hrun
  obtain ⟨hrests, hne⟩ := of_decide_eq_true hrunnable
  exact hne (hall eightSlots s (Reachable.init.run hs) hrests).2

end Vibestudio.Server.DurableWork

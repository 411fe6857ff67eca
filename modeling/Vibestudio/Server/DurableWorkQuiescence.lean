import Mathlib
import Vibestudio.Server.DurableWorkWakeups

/-!
# Quiescence of the dispatcher

A driver that does not accept starts no pump, and what runs only comes to its end; so a call of `quiesce`
that is not followed by `start` resolves over an empty driver. A pump that was claiming when the driver
was quiesced still starts what it is granted. In the runs in which it is granted nothing then, no
preparation and no execution begins until the driver is started again.
-/

namespace Vibestudio.Server.DurableWork

open Js Transition

variable {Ω : Type} {deps : Deps} {s t : Driver Ω}

/-! ## Admission -/

def Call.starts : Call Ω → Bool
  | .prepare _ | .execute _ => true
  | _ => false

/-- **Every preparation and execution began while the driver accepted.** -/
def Admitted : List (Call Ω) → Prop
  | [] => True
  | c :: older => (c.starts = true → acceptingIn older = true) ∧ Admitted older

/-- The calls so far, and what they say about the driver. -/
structure Admits (s : Driver Ω) : Prop where
  admitted : Admitted s.calls
  accepting : acceptingIn s.calls = s.accepting

theorem Admits.record (h : Admits s) (c : Call Ω) (hplain : c.plain = true) (hstarts : c.starts = false) :
    Admitted (c :: s.calls) ∧ acceptingIn (c :: s.calls) = s.accepting :=
  ⟨⟨fun hc ↦ absurd hc (hstarts ▸ Bool.false_ne_true), h.admitted⟩, (acceptingIn_cons hplain _).trans h.accepting⟩

theorem Admits.startReady : ∀ (ready : List Work) {s : Driver Ω}, Admits s →
    Admits (Driver.startReady deps ready s)
  | [], _, h => ⟨h.admitted, h.accepting⟩
  | w :: ready, s, h => by
    rw [Driver.startReady]
    split_ifs with hslot
    · apply Admits.startReady ready
      rw [Driver.hasSlot, Bool.and_eq_true] at hslot
      exact ⟨⟨fun _ ↦ h.accepting.trans hslot.1, h.admitted⟩, h.accepting⟩
    · exact ⟨h.admitted, h.accepting⟩

theorem Admits.setPump (h : Admits s) (phase : PumpPhase) : Admits (s.setPump phase) :=
  ⟨h.admitted, h.accepting⟩

theorem Admits.takeHint (h : Admits s) : ∀ pending, Admits (Driver.takeHint pending s)
  | [] => ⟨h.admitted, h.accepting⟩
  | (key, hint) :: pending => by
    rw [Driver.takeHint]
    split_ifs
    · exact h.takeHint pending
    · exact ⟨h.admitted, h.accepting⟩

theorem Admits.pumpLoop (h : Admits s) : Admits (s.pumpLoop deps) := by
  have hready : Admits (Driver.startReady deps s.runnable s) := h.startReady s.runnable
  rw [Driver.pumpLoop]
  split_ifs
  · exact hready.takeHint _
  · exact hready.setPump .returned

/-- The pump is granted nothing that it would start. -/
def grantsNone (deps : Deps) (s : Driver Ω) (hint : PendingHint) : List WorkClaim → Bool
  | [] => true
  | claim :: _ => (s.activeLanes.get (deps.lane hint.owner hint.queue claim)).isSome

theorem Admits.admitClaims (hint : PendingHint) : ∀ (claims : List WorkClaim) {s : Driver Ω}, Admits s →
    s.accepting = true ∨ grantsNone deps s hint claims = true →
    Admits (Driver.admitClaims deps hint claims s) := by
  intro claims
  induction claims with
  | nil => exact fun h _ ↦ h.pumpLoop
  | cons claim rest ih =>
    intro s h hok
    rw [Driver.admitClaims]
    have hseen : ∀ occupied, Admitted (.received s.nextWork (deps.lane hint.owner hint.queue claim)
        occupied :: s.calls) := fun _ ↦ ⟨(by rintro ⟨⟩), h.admitted⟩
    cases hlane : (s.activeLanes.get (deps.lane hint.owner hint.queue claim)).isSome with
    | true => exact ⟨hseen _, h.accepting⟩
    | false =>
      have haccepting : s.accepting = true := hok.resolve_right fun hnone ↦ by
        rw [grantsNone, hlane] at hnone
        exact Bool.false_ne_true hnone
      simp only [Bool.false_eq_true, if_false]
      split_ifs with hprepares
      · refine ih ?_ (.inl haccepting)
        exact ⟨⟨fun _ ↦ h.accepting.trans haccepting, hseen false⟩, h.accepting⟩
      · refine ih ?_ (.inl haccepting)
        exact ⟨⟨fun _ ↦ h.accepting.trans haccepting, hseen false⟩, h.accepting⟩

theorem Admits.kick (h : Admits s) : Admits (s.kick deps) := by
  rw [Driver.kick]
  split_ifs
  · exact h
  · exact Admits.pumpLoop ⟨h.admitted, h.accepting⟩

theorem Admits.notify (h : Admits s) (hint : DurableWorkReadyHint) (trigger : DurableWorkTrigger) :
    Admits (s.notify deps hint trigger) := by
  rw [Driver.notify]
  split_ifs
  · exact Admits.kick ⟨h.admitted, h.accepting⟩
  · exact h

theorem Admits.releaseLane (h : Admits s) (lane : JsString) (token : ℕ) :
    Admits (s.releaseLane lane token) := by
  rw [releaseLane_eq]
  exact ⟨h.admitted, h.accepting⟩

/-- A step that starts nothing, as far as the calls are concerned. -/
theorem Admits.calls (h : Admits s) (c : Call Ω) (hplain : c.plain = true) (hstarts : c.starts = false) :
    Admits (s.record c) :=
  ⟨(h.record c hplain hstarts).1, (h.record c hplain hstarts).2⟩

/-- The condition on the steps of a run: a pump of a driver that does not accept is granted nothing. -/
def grantsInTime (deps : Deps) (s : Driver Ω) : Event Ω → Bool
  | .claimReturns claims => s.accepting || (s.pumping.any fun p ↦ match p.phase with
    | .claiming _ hint _ => grantsNone deps s hint claims
    | _ => false)
  | .duplicateFailSettles => s.accepting || (s.pumping.any fun p ↦ match p.phase with
    | .failing w rest => grantsNone deps s ⟨w.owner, w.queue, w.trigger⟩ rest
    | _ => false)
  | _ => true

namespace Admits

variable {id : ℕ}

theorem prepareReturns (h : Admits s) (hs : s.prepareReturns id = some t) : Admits t := by
  obtain ⟨p, -, -, hs⟩ := Driver.onPreparation_some hs
  split at hs
  case h_2 => exact nomatch hs
  split_ifs at hs <;> cases hs
  · exact ⟨h.admitted, h.accepting⟩
  · have hgone := (h.calls (.aborted id) rfl rfl).releaseLane p.work.lane id
    exact ⟨hgone.admitted, hgone.accepting⟩

theorem prepareThrows (h : Admits s) (hs : s.prepareThrows id = some t) : Admits t := by
  obtain ⟨p, -, -, hs⟩ := Driver.onPreparation_some hs
  have hthrew := h.calls (.prepareThrew id) rfl rfl
  split at hs
  case h_2 => exact nomatch hs
  split_ifs at hs <;> cases hs
  · have hgone := (hthrew.calls (.aborted id) rfl rfl).releaseLane p.work.lane id
    exact ⟨hgone.admitted, hgone.accepting⟩
  · exact ⟨hthrew.admitted, hthrew.accepting⟩

theorem prepareFailBegins (h : Admits s) (hs : s.prepareFailBegins id = some t) : Admits t := by
  obtain ⟨p, -, -, hs⟩ := Driver.onPreparation_some hs
  split at hs <;> cases hs
  exact ⟨⟨nofun, h.admitted⟩, h.accepting⟩

theorem prepareFailSettles (h : Admits s) {continues : Bool}
    (hs : s.prepareFailSettles id continues = some t) : Admits t := by
  obtain ⟨p, -, -, hs⟩ := Driver.onPreparation_some hs
  split at hs <;> cases hs
  have hgone := (h.calls (.failed id) rfl rfl).releaseLane p.work.lane id
  exact ⟨hgone.admitted, hgone.accepting⟩

theorem prepareContinues (h : Admits s) (hs : s.prepareContinues deps id = some t) : Admits t := by
  obtain ⟨p, -, -, hs⟩ := Driver.onPreparation_some hs
  split at hs <;> cases hs
  rename_i continues hphase
  have hended : Admits (s.setPreparation id (.ended false)) := ⟨h.admitted, h.accepting⟩
  cases continues with
  | true => exact hended.notify _ _
  | false => exact hended

theorem prepareFinally (h : Admits s) (hs : s.prepareFinally deps id = some t) : Admits t := by
  obtain ⟨p, -, -, hs⟩ := Driver.onPreparation_some hs
  split at hs <;> cases hs
  apply Admits.kick
  split_ifs
  · exact ⟨h.admitted, h.accepting⟩
  · refine Admits.releaseLane ?_ p.work.lane id
    exact ⟨h.admitted, h.accepting⟩

theorem of_runner {f : Runner Ω → Option (Driver Ω)} (hs : s.onRunner id f = some t)
    (hf : ∀ r, f r = some t → ∃ u phase, Admits u ∧ t = u.setRunner id phase) : Admits t := by
  obtain ⟨r, -, -, hs⟩ := Driver.onRunner_some hs
  obtain ⟨u, phase, hu, rfl⟩ := hf r hs
  exact ⟨hu.admitted, hu.accepting⟩

theorem runnerFinally (h : Admits s) (hs : s.runnerFinally deps id = some t) : Admits t := by
  obtain ⟨r, -, -, hs⟩ := Driver.onRunner_some hs
  split at hs <;> cases hs
  rename_i owns hphase
  have hgone : Admits (({ s with
      runners := (s.runners.filter fun r' ↦ decide (r'.work.id ≠ id)) }).releaseLane r.work.lane id) := by
    refine Admits.releaseLane ?_ r.work.lane id
    exact ⟨h.admitted, h.accepting⟩
  cases owns with
  | true => exact (hgone.notify _ _).kick
  | false => exact hgone.kick

theorem dropRunnable (h : Admits s) : Admits s.dropRunnable := by
  have hcleared : ∀ (ready : List Work) {s : Driver Ω}, Admits s →
      Admits (ready.foldl (fun s w ↦ (s.record (.cleared w.id)).releaseLane w.lane w.id) s) := by
    intro ready
    induction ready with
    | nil => exact fun h ↦ h
    | cons w ready ih => exact fun h ↦ ih ((h.calls (.cleared w.id) rfl rfl).releaseLane w.lane w.id)
  have hall := hcleared s.runnable h
  exact ⟨hall.admitted, hall.accepting⟩

theorem quiesceContinues (h : Admits s) {i : ℕ} (hs : s.quiesceContinues i = some t) : Admits t := by
  obtain ⟨q, hq, hs⟩ := Option.bind_eq_some_iff.mp hs
  obtain ⟨⟨u, phase⟩, hu, rfl⟩ := Option.map_eq_some_iff.mp hs
  have hadmits : Admits u := by
    rw [Driver.continueQuiesce.eq_def] at hu
    split at hu
    · split_ifs at hu
      cases hu
      exact h
    · split_ifs at hu
      cases hu
      exact h.dropRunnable
    · split_ifs at hu
      cases hu
      exact h
    · cases hu
  exact ⟨hadmits.admitted, hadmits.accepting⟩

theorem recovered (h : Admits s) (hints : List DurableWorkReadyHint) : Admits (s.recovered deps hints) := by
  have hfold : ∀ (hints : List DurableWorkReadyHint) {s : Driver Ω}, Admits s →
      Admits (hints.foldl (fun s hint ↦ s.notify deps hint .recovery) s) := by
    intro hints
    induction hints with
    | nil => exact fun h ↦ h
    | cons hint hints ih => exact fun h ↦ ih (h.notify hint .recovery)
  exact hfold hints ⟨h.admitted, h.accepting⟩

theorem start (h : Admits s) : Admits (s.start deps) := by
  rw [Driver.start]
  split_ifs with haccepting
  · exact h
  · exact Admits.kick ⟨⟨(by rintro ⟨⟩), h.admitted⟩, rfl⟩

theorem claimBegins (h : Admits s) (hs : s.claimBegins deps = some t) : Admits t := by
  obtain ⟨p, hp, hs⟩ := Driver.onPump_some hs
  split at hs <;> cases hs
  exact ⟨⟨nofun, h.admitted⟩, h.accepting⟩

theorem claimRejects (h : Admits s) (hs : s.claimRejects deps = some t) : Admits t := by
  obtain ⟨p, hp, hs⟩ := Driver.onPump_some hs
  split at hs <;> cases hs
  exact Admits.pumpLoop ⟨h.admitted, h.accepting⟩

theorem duplicateFailBegins (h : Admits s) (hs : s.duplicateFailBegins = some t) : Admits t := by
  obtain ⟨p, hp, hs⟩ := Driver.onPump_some hs
  split at hs <;> cases hs
  exact ⟨⟨nofun, h.admitted⟩, h.accepting⟩

theorem pumpFinishes (h : Admits s) (hs : s.pumpFinishes deps = some t) : Admits t := by
  obtain ⟨p, hp, hs⟩ := Driver.onPump_some hs
  split at hs <;> cases hs
  rw [Driver.finishPump]
  split_ifs
  · exact Admits.kick ⟨h.admitted, h.accepting⟩
  · exact ⟨h.admitted, h.accepting⟩

theorem claimReturns (h : Admits s) {claims : List WorkClaim}
    (hok : grantsInTime deps s (.claimReturns claims : Event Ω) = true)
    (hs : s.claimReturns deps claims = some t) : Admits t := by
  obtain ⟨p, hp, hs⟩ := Driver.onPump_some hs
  split at hs
  case h_2 => exact nomatch hs
  rename_i key hint limit hphase
  split_ifs at hs
  cases hs
  apply Admits.admitClaims hint claims (s := s.endClaim key) ⟨h.admitted, h.accepting⟩
  rw [grantsInTime, hp, Option.any_some, hphase, Bool.or_eq_true] at hok
  exact hok

theorem duplicateFailSettles (h : Admits s)
    (hok : grantsInTime deps s (.duplicateFailSettles : Event Ω) = true)
    (hs : s.duplicateFailSettles deps = some t) : Admits t := by
  obtain ⟨p, hp, hs⟩ := Driver.onPump_some hs
  split at hs <;> cases hs
  rename_i w rest hphase
  apply Admits.admitClaims _ rest (h.calls (.failed w.id) rfl rfl)
  rw [grantsInTime, hp, Option.any_some, hphase, Bool.or_eq_true] at hok
  exact hok

/-- **A step that meets the condition** starts nothing in a driver that does not accept. -/
theorem step (h : Admits s) {e : Event Ω} (hok : grantsInTime deps s e = true)
    (hs : step deps s e = some t) : Admits t := by
  cases e with
  | start => exact Option.some.inj hs ▸ h.start
  | notify hint => exact Option.some.inj hs ▸ h.notify hint .hint
  | recoverNow =>
    cases hs
    rw [Driver.recoverNow]
    split_ifs
    · exact ⟨h.admitted, h.accepting⟩
    · exact h
  | recovered hints =>
    rw [DurableWork.step] at hs
    split_ifs at hs
    exact Option.some.inj hs ▸ h.recovered hints
  | recoveryFinally =>
    rw [DurableWork.step] at hs
    split_ifs at hs
    cases hs
    exact ⟨h.admitted, h.accepting⟩
  | quiesce => exact Option.some.inj hs ▸ ⟨⟨(by rintro ⟨⟩), h.admitted⟩, rfl⟩
  | quiesceContinues call => exact h.quiesceContinues hs
  | claimBegins => exact h.claimBegins hs
  | claimReturns claims => exact h.claimReturns hok hs
  | claimRejects => exact h.claimRejects hs
  | duplicateFailBegins => exact h.duplicateFailBegins hs
  | duplicateFailSettles => exact h.duplicateFailSettles hok hs
  | pumpFinishes => exact h.pumpFinishes hs
  | prepareReturns id => exact h.prepareReturns hs
  | prepareThrows id => exact h.prepareThrows hs
  | prepareFailBegins id => exact h.prepareFailBegins hs
  | prepareFailSettles id continues => exact h.prepareFailSettles hs
  | prepareContinues id => exact h.prepareContinues hs
  | prepareFinally id => exact h.prepareFinally hs
  | runnerFinally id => exact h.runnerFinally hs
  | executeThrows id =>
    refine of_runner hs fun r hr ↦ ?_
    have hthrew := h.calls (.executeThrew id) rfl rfl
    split at hr
    case h_2 => cases hr
    split_ifs at hr <;> cases hr
    · exact ⟨_, _, hthrew.calls (.aborted id) rfl rfl, rfl⟩
    · exact ⟨_, _, hthrew, rfl⟩
  | executeReturns id outcome =>
    refine of_runner hs fun r hr ↦ ?_
    split at hr <;> cases hr
    exact ⟨_, _, h.calls (.executed id outcome) rfl rfl, rfl⟩
  | settleBegins id =>
    refine of_runner hs fun r hr ↦ ?_
    split at hr <;> cases hr
    exact ⟨_, _, h.calls _ rfl rfl, rfl⟩
  | settleReturns id stale =>
    refine of_runner hs fun r hr ↦ ?_
    split at hr <;> cases hr
    exact ⟨_, _, (h.calls (.settled id) rfl rfl).releaseLane _ _, rfl⟩
  | settleRejects id =>
    refine of_runner hs fun r hr ↦ ?_
    split at hr <;> cases hr
    exact ⟨_, _, (h.calls (.settleRejected id) rfl rfl).releaseLane _ _, rfl⟩
  | settleCaught id =>
    refine of_runner hs fun r hr ↦ ?_
    split at hr <;> cases hr
    exact ⟨_, _, h, rfl⟩
  | executeFailBegins id =>
    refine of_runner hs fun r hr ↦ ?_
    split at hr <;> cases hr
    exact ⟨_, _, h.calls (.fail id) rfl rfl, rfl⟩
  | executeFailSettles id owns =>
    refine of_runner hs fun r hr ↦ ?_
    split at hr <;> cases hr
    exact ⟨_, _, (h.calls (.failed id) rfl rfl).releaseLane _ _, rfl⟩

end Admits

/-! ## A driver that does not accept -/

/-- What is left of the work of a driver that does not accept, after a step. -/
structure Shrinks (s t : Driver Ω) : Prop where
  accepting : t.accepting = false
  pumping : ∀ p, t.pumping = some p → ∃ p', s.pumping = some p' ∧ p'.id = p.id
  /-- Without a pump no work is added. -/
  prerequisites : s.pumping = none → ∀ p ∈ t.prerequisites, ∃ p' ∈ s.prerequisites, p'.work.id = p.work.id
  runners : s.pumping = none → ∀ r ∈ t.runners, ∃ r' ∈ s.runners, r'.work.id = r.work.id
  runnable : s.pumping = none → s.runnable = [] → t.runnable = []

theorem Shrinks.refl (h : s.accepting = false) : Shrinks s s :=
  ⟨h, fun p hp ↦ ⟨p, hp, rfl⟩, fun _ p hp ↦ ⟨p, hp, rfl⟩, fun _ r hr ↦ ⟨r, hr, rfl⟩, fun _ hnil ↦ hnil⟩

theorem kick_closed (h : s.accepting = false) : s.kick deps = s := by
  rw [Driver.kick, if_pos]
  right
  rw [Driver.hasSlot, h, Bool.false_and]
  exact Bool.false_ne_true

theorem notify_closed (h : s.accepting = false) (hint : DurableWorkReadyHint)
    (trigger : DurableWorkTrigger) : s.notify deps hint trigger = s := by
  rw [Driver.notify, if_neg (h ▸ Bool.false_ne_true)]

/-- The steps of a pump that is at work. -/
theorem Shrinks.of_pump {p : Pump} (hp : s.pumping = some p) (haccepting : t.accepting = false)
    (hpumping : ∀ p', t.pumping = some p' → p'.id = p.id) : Shrinks s t :=
  ⟨haccepting, fun p' hp' ↦ ⟨p, hp, (hpumping p' hp').symm⟩, fun hnone ↦ (nomatch hp.symm.trans hnone),
    fun hnone ↦ (nomatch hp.symm.trans hnone), fun hnone ↦ (nomatch hp.symm.trans hnone)⟩

/-- No call from outside opened or closed the driver. -/
structure SameGate (s t : Driver Ω) : Prop where
  accepting : t.accepting = s.accepting
  quiesces : t.quiesces = s.quiesces

/-- Nor was another pump started. -/
structure SamePump (s t : Driver Ω) : Prop extends SameGate s t where
  pumping : t.pumping.map Pump.id = s.pumping.map Pump.id

theorem SameGate.trans {u : Driver Ω} (h : SameGate s t) (h' : SameGate t u) : SameGate s u :=
  ⟨h'.accepting.trans h.accepting, h'.quiesces.trans h.quiesces⟩

theorem SamePump.trans {u : Driver Ω} (h : SamePump s t) (h' : SamePump t u) : SamePump s u :=
  ⟨h.toSameGate.trans h'.toSameGate, h'.pumping.trans h.pumping⟩

theorem SamePump.setPump (s : Driver Ω) (phase : PumpPhase) : SamePump s (s.setPump phase) := by
  refine ⟨⟨rfl, rfl⟩, ?_⟩
  rw [Driver.setPump, Option.map_map]
  rfl

theorem samePump_startReady : ∀ (ready : List Work) (s : Driver Ω),
    SamePump s (Driver.startReady deps ready s)
  | [], _ => ⟨⟨rfl, rfl⟩, rfl⟩
  | w :: ready, s => by
    rw [Driver.startReady]
    split_ifs
    · have hstarted : SamePump s (s.startRunner w) := ⟨⟨rfl, rfl⟩, rfl⟩
      exact hstarted.trans (samePump_startReady ready _)
    · exact ⟨⟨rfl, rfl⟩, rfl⟩

theorem samePump_takeHint (s : Driver Ω) : ∀ pending, SamePump s (Driver.takeHint pending s)
  | [] => by
    refine SamePump.trans ?_ (SamePump.setPump _ .returned)
    exact ⟨⟨rfl, rfl⟩, rfl⟩
  | (key, hint) :: pending => by
    rw [Driver.takeHint]
    split_ifs
    · exact samePump_takeHint s pending
    · refine SamePump.trans ?_ (SamePump.setPump _ (.claimQueued key hint))
      exact ⟨⟨rfl, rfl⟩, rfl⟩

theorem samePump_pumpLoop (s : Driver Ω) : SamePump s (s.pumpLoop deps) := by
  rw [Driver.pumpLoop]
  split_ifs
  · exact (samePump_startReady s.runnable s).trans (samePump_takeHint _ _)
  · exact (samePump_startReady s.runnable s).trans (SamePump.setPump _ .returned)

theorem samePump_admitClaims (hint : PendingHint) : ∀ (claims : List WorkClaim) (s : Driver Ω),
    SamePump s (Driver.admitClaims deps hint claims s)
  | [], s => samePump_pumpLoop s
  | claim :: rest, s => by
    rw [Driver.admitClaims]
    split_ifs
    · refine SamePump.trans ?_ (SamePump.setPump _ (.failQueued _ rest))
      exact ⟨⟨rfl, rfl⟩, rfl⟩
    · refine SamePump.trans ?_ (samePump_admitClaims hint rest _)
      exact ⟨⟨rfl, rfl⟩, rfl⟩
    · refine SamePump.trans ?_ (samePump_admitClaims hint rest _)
      exact ⟨⟨rfl, rfl⟩, rfl⟩

theorem SamePump.shrinks {p : Pump} (hp : s.pumping = some p) (haccepting : s.accepting = false)
    (h : SamePump s t) : Shrinks s t := by
  refine Shrinks.of_pump hp (h.accepting.trans haccepting) fun p' hp' ↦ ?_
  have hid := h.pumping
  rw [hp, hp', Option.map_some, Option.map_some] at hid
  exact Option.some.inj hid

theorem sameGate_kick (s : Driver Ω) : SameGate s (s.kick deps) := by
  rw [Driver.kick]
  split_ifs
  · exact ⟨rfl, rfl⟩
  · refine SameGate.trans ?_ (samePump_pumpLoop _).toSameGate
    exact ⟨rfl, rfl⟩

theorem sameGate_notify (s : Driver Ω) (hint : DurableWorkReadyHint) (trigger : DurableWorkTrigger) :
    SameGate s (s.notify deps hint trigger) := by
  rw [Driver.notify]
  split_ifs
  · refine SameGate.trans ?_ (sameGate_kick _)
    exact ⟨rfl, rfl⟩
  · exact ⟨rfl, rfl⟩

theorem sameGate_recovered (s : Driver Ω) (hints : List DurableWorkReadyHint) :
    SameGate s (s.recovered deps hints) := by
  have hfold : ∀ (hints : List DurableWorkReadyHint) (s : Driver Ω),
      SameGate s (hints.foldl (fun s hint ↦ s.notify deps hint .recovery) s) := by
    intro hints
    induction hints with
    | nil => exact fun _ ↦ ⟨rfl, rfl⟩
    | cons hint hints ih => exact fun s ↦ (sameGate_notify s hint .recovery).trans (ih _)
  refine SameGate.trans ?_ (hfold hints _)
  exact ⟨rfl, rfl⟩

namespace Shrinks

variable {id : ℕ}

/-- A step that adds no work and leaves the pump alone. -/
theorem of_work (h : s.accepting = false) (haccepting : t.accepting = s.accepting)
    (hpumping : t.pumping = s.pumping)
    (hprerequisites : ∀ p ∈ t.prerequisites, ∃ p' ∈ s.prerequisites, p'.work.id = p.work.id)
    (hrunners : ∀ r ∈ t.runners, ∃ r' ∈ s.runners, r'.work.id = r.work.id)
    (hrunnable : s.runnable = [] → t.runnable = []) : Shrinks s t :=
  ⟨haccepting.trans h, fun p hp ↦ ⟨p, hpumping ▸ hp, rfl⟩, fun _ ↦ hprerequisites, fun _ ↦ hrunners,
    fun _ ↦ hrunnable⟩

theorem setPreparation (h : s.accepting = false) (phase : PreparationPhase)
    {lanes : JsMap JsString ℕ} {calls : List (Call Ω)} :
    Shrinks s ({ s with activeLanes := lanes, calls := calls }.setPreparation id phase) := by
  refine of_work h rfl rfl (fun p hp ↦ ?_) (fun r hr ↦ ⟨r, hr, rfl⟩) fun hnil ↦ hnil
  obtain ⟨p', hp', rfl⟩ := List.mem_map.mp hp
  exact ⟨p', hp', congrArg Work.id (setPreparation_work id phase p').1.symm⟩

theorem setRunner (h : s.accepting = false) (phase : RunnerPhase Ω)
    {lanes : JsMap JsString ℕ} {calls : List (Call Ω)} :
    Shrinks s ({ s with activeLanes := lanes, calls := calls }.setRunner id phase) := by
  refine of_work h rfl rfl (fun p hp ↦ ⟨p, hp, rfl⟩) (fun r hr ↦ ?_) fun hnil ↦ hnil
  obtain ⟨r', hr', rfl⟩ := List.mem_map.mp hr
  refine ⟨r', hr', ?_⟩
  split_ifs <;> rfl

theorem of_preparation (h : s.accepting = false) {f : Preparation → Option (Driver Ω)}
    (hs : s.onPreparation id f = some t) (hf : ∀ p, f p = some t → ∃ lanes calls phase,
      t = { s with activeLanes := lanes, calls := calls }.setPreparation id phase) : Shrinks s t := by
  obtain ⟨p, -, -, hs⟩ := Driver.onPreparation_some hs
  obtain ⟨lanes, calls, phase, rfl⟩ := hf p hs
  exact setPreparation h phase

/-- A preparation of a driver that does not accept hands nothing over. -/
theorem prepareReturns (h : s.accepting = false) (hs : s.prepareReturns id = some t) : Shrinks s t := by
  refine of_preparation h hs fun p hp ↦ ?_
  split at hp
  case h_2 => exact nomatch hp
  rw [if_neg fun hboth ↦ Bool.false_ne_true (h.symm.trans hboth.1)] at hp
  cases hp
  rw [releaseLane_eq]
  exact ⟨_, _, _, rfl⟩

theorem prepareContinues (h : s.accepting = false) (hs : s.prepareContinues deps id = some t) :
    Shrinks s t := by
  refine of_preparation h hs fun p hp ↦ ?_
  split at hp <;> cases hp
  rename_i continues hphase
  have hclosed : (s.setPreparation id (.ended false)).accepting = false := h
  have hended : (if continues = true then (s.setPreparation id (.ended false)).notify deps
      ⟨p.work.owner, [p.work.queue]⟩ .continuation else s.setPreparation id (.ended false)) =
        s.setPreparation id (.ended false) := by
    rw [notify_closed hclosed, ite_self]
  exact ⟨s.activeLanes, s.calls, .ended false, hended⟩

theorem prepareFinally (h : s.accepting = false) (hs : s.prepareFinally deps id = some t) :
    Shrinks s t := by
  obtain ⟨p, -, -, hs⟩ := Driver.onPreparation_some hs
  split at hs <;> cases hs
  rename_i handedOff hphase
  have hsub : ∀ q ∈ s.prerequisites.filter fun p ↦ decide (p.work.id ≠ id),
      ∃ q' ∈ s.prerequisites, q'.work.id = q.work.id := fun q hq ↦ ⟨q, List.mem_of_mem_filter hq, rfl⟩
  cases handedOff with
  | true =>
    rw [if_pos rfl, kick_closed]
    · exact of_work h rfl rfl hsub (fun r hr ↦ ⟨r, hr, rfl⟩) fun hnil ↦ hnil
    · exact h
  | false =>
    rw [if_neg Bool.false_ne_true, releaseLane_eq, kick_closed]
    · exact of_work h rfl rfl hsub (fun r hr ↦ ⟨r, hr, rfl⟩) fun hnil ↦ hnil
    · exact h

theorem runnerFinally (h : s.accepting = false) (hs : s.runnerFinally deps id = some t) :
    Shrinks s t := by
  obtain ⟨r, -, -, hs⟩ := Driver.onRunner_some hs
  split at hs <;> cases hs
  rename_i owns hphase
  rw [releaseLane_eq, notify_closed, ite_self, kick_closed]
  · exact of_work h rfl rfl (fun p hp ↦ ⟨p, hp, rfl⟩) (fun r hr ↦ ⟨r, List.mem_of_mem_filter hr, rfl⟩)
      fun hnil ↦ hnil
  · exact h
  · exact h

end Shrinks

/-! ## Every step -/

def Event.ofRunner : Event Ω → Option ℕ
  | .executeReturns id _ | .executeThrows id | .settleBegins id | .settleReturns id _ | .settleRejects id |
    .settleCaught id | .executeFailBegins id | .executeFailSettles id _ => some id
  | _ => none

/-- A runner that goes on changes its phase, the lanes and the record of calls. -/
theorem runner_event {e : Event Ω} {id : ℕ} (he : e.ofRunner = some id) (hs : step deps s e = some t) :
    ∃ lanes calls phase, t = { s with activeLanes := lanes, calls := calls }.setRunner id phase := by
  have hform : ∀ {f : Runner Ω → Option (Driver Ω)}, s.onRunner id f = some t →
      (∀ r, f r = some t → ∃ lanes calls phase,
        t = { s with activeLanes := lanes, calls := calls }.setRunner id phase) →
      ∃ lanes calls phase, t = { s with activeLanes := lanes, calls := calls }.setRunner id phase := by
    intro f hs hf
    obtain ⟨r, -, -, hs⟩ := Driver.onRunner_some hs
    exact hf r hs
  cases e with
  | executeThrows i =>
    cases he
    refine hform hs fun r hr ↦ ?_
    split at hr
    case h_2 => exact nomatch hr
    split_ifs at hr <;> cases hr
    · exact ⟨_, _, _, rfl⟩
    · exact ⟨_, _, _, rfl⟩
  | executeReturns i outcome | settleBegins i | settleCaught i | executeFailBegins i =>
    cases he
    refine hform hs fun r hr ↦ ?_
    split at hr <;> cases hr
    exact ⟨_, _, _, rfl⟩
  | settleReturns i stale | settleRejects i | executeFailSettles i owns =>
    cases he
    refine hform hs fun r hr ↦ ?_
    split at hr <;> cases hr
    rw [releaseLane_eq]
    exact ⟨_, _, _, rfl⟩
  | _ => exact nomatch he

def Event.ofPreparation : Event Ω → Option ℕ
  | .prepareThrows id | .prepareFailBegins id | .prepareFailSettles id _ => some id
  | _ => none

theorem preparation_event {e : Event Ω} {id : ℕ} (he : e.ofPreparation = some id)
    (hs : step deps s e = some t) :
    ∃ lanes calls phase, t = { s with activeLanes := lanes, calls := calls }.setPreparation id phase := by
  have hform : ∀ {f : Preparation → Option (Driver Ω)}, s.onPreparation id f = some t →
      (∀ p, f p = some t → ∃ lanes calls phase,
        t = { s with activeLanes := lanes, calls := calls }.setPreparation id phase) →
      ∃ lanes calls phase, t = { s with activeLanes := lanes, calls := calls }.setPreparation id phase := by
    intro f hs hf
    obtain ⟨p, -, -, hs⟩ := Driver.onPreparation_some hs
    exact hf p hs
  cases e with
  | prepareThrows i =>
    cases he
    refine hform hs fun p hp ↦ ?_
    split at hp
    case h_2 => exact nomatch hp
    split_ifs at hp <;> cases hp
    · rw [releaseLane_eq]
      exact ⟨_, _, _, rfl⟩
    · exact ⟨_, _, _, rfl⟩
  | prepareFailBegins i =>
    cases he
    refine hform hs fun p hp ↦ ?_
    split at hp <;> cases hp
    exact ⟨_, _, _, rfl⟩
  | prepareFailSettles i continues =>
    cases he
    refine hform hs fun p hp ↦ ?_
    split at hp <;> cases hp
    rw [releaseLane_eq]
    exact ⟨_, _, _, rfl⟩
  | _ => exact nomatch he

/-- The steps by which `start` and `quiesce` go on. -/
def Event.ofGate : Event Ω → Bool
  | .start | .quiesce | .quiesceContinues _ => true
  | _ => false

theorem sameGate_step {e : Event Ω} (he : e.ofGate = false) (hs : step deps s e = some t) :
    SameGate s t := by
  cases hrunner : e.ofRunner with
  | some id =>
    obtain ⟨lanes, calls, phase, rfl⟩ := runner_event hrunner hs
    exact ⟨rfl, rfl⟩
  | none =>
    cases hpreparation : e.ofPreparation with
    | some id =>
      obtain ⟨lanes, calls, phase, rfl⟩ := preparation_event hpreparation hs
      exact ⟨rfl, rfl⟩
    | none =>
      cases e with
      | notify hint => exact Option.some.inj hs ▸ sameGate_notify s hint .hint
      | recoverNow =>
        cases hs
        rw [Driver.recoverNow]
        split_ifs <;> exact ⟨rfl, rfl⟩
      | recovered hints =>
        rw [DurableWork.step] at hs
        split_ifs at hs
        exact Option.some.inj hs ▸ sameGate_recovered s hints
      | recoveryFinally =>
        rw [DurableWork.step] at hs
        split_ifs at hs
        cases hs
        exact ⟨rfl, rfl⟩
      | claimBegins =>
        obtain ⟨p, hp, hs⟩ := Driver.onPump_some (show s.claimBegins deps = some t from hs)
        split at hs <;> cases hs
        refine SameGate.trans ?_ (SamePump.setPump _ _).toSameGate
        exact ⟨rfl, rfl⟩
      | claimReturns claims =>
        obtain ⟨p, hp, hs⟩ := Driver.onPump_some (show s.claimReturns deps claims = some t from hs)
        split at hs
        case h_2 => cases hs
        split_ifs at hs
        cases hs
        refine SameGate.trans ?_ (samePump_admitClaims _ claims _).toSameGate
        exact ⟨rfl, rfl⟩
      | claimRejects =>
        obtain ⟨p, hp, hs⟩ := Driver.onPump_some (show s.claimRejects deps = some t from hs)
        split at hs <;> cases hs
        refine SameGate.trans ?_ (samePump_pumpLoop _).toSameGate
        exact ⟨rfl, rfl⟩
      | duplicateFailBegins =>
        obtain ⟨p, hp, hs⟩ := Driver.onPump_some (show s.duplicateFailBegins = some t from hs)
        split at hs <;> cases hs
        refine SameGate.trans ?_ (SamePump.setPump _ _).toSameGate
        exact ⟨rfl, rfl⟩
      | duplicateFailSettles =>
        obtain ⟨p, hp, hs⟩ := Driver.onPump_some (show s.duplicateFailSettles deps = some t from hs)
        split at hs <;> cases hs
        refine SameGate.trans ?_ (samePump_admitClaims _ _ _).toSameGate
        exact ⟨rfl, rfl⟩
      | pumpFinishes =>
        obtain ⟨p, hp, hs⟩ := Driver.onPump_some (show s.pumpFinishes deps = some t from hs)
        split at hs <;> cases hs
        rw [Driver.finishPump]
        split_ifs
        · refine SameGate.trans ?_ (sameGate_kick _)
          exact ⟨rfl, rfl⟩
        · exact ⟨rfl, rfl⟩
      | prepareReturns id =>
        obtain ⟨p, -, -, hs⟩ := Driver.onPreparation_some (show s.prepareReturns id = some t from hs)
        split at hs
        case h_2 => cases hs
        split_ifs at hs <;> cases hs
        · exact ⟨rfl, rfl⟩
        · rw [releaseLane_eq]
          exact ⟨rfl, rfl⟩
      | prepareContinues id =>
        obtain ⟨p, -, -, hs⟩ := Driver.onPreparation_some (show s.prepareContinues deps id = some t from hs)
        split at hs <;> cases hs
        rename_i continues hphase
        cases continues with
        | true =>
          refine SameGate.trans ?_ (sameGate_notify _ _ _)
          exact ⟨rfl, rfl⟩
        | false => exact ⟨rfl, rfl⟩
      | prepareFinally id =>
        obtain ⟨p, -, -, hs⟩ := Driver.onPreparation_some (show s.prepareFinally deps id = some t from hs)
        split at hs <;> cases hs
        refine SameGate.trans ?_ (sameGate_kick _)
        split_ifs
        · exact ⟨rfl, rfl⟩
        · rw [releaseLane_eq]
          exact ⟨rfl, rfl⟩
      | runnerFinally id =>
        obtain ⟨r, -, -, hs⟩ := Driver.onRunner_some (show s.runnerFinally deps id = some t from hs)
        split at hs <;> cases hs
        rename_i owns hphase
        refine SameGate.trans ?_ (sameGate_kick _)
        rw [releaseLane_eq]
        cases owns with
        | true =>
          refine SameGate.trans ?_ (sameGate_notify _ _ _)
          exact ⟨rfl, rfl⟩
        | false => exact ⟨rfl, rfl⟩
      | start | quiesce | quiesceContinues call => cases he
      | prepareThrows i | prepareFailBegins i | prepareFailSettles i continues => cases hpreparation
      | _ => cases hrunner

/-- **A driver that does not accept** takes no work and starts no pump. -/
theorem Shrinks.step {e : Event Ω} (h : s.accepting = false) (he : e.ofGate = false)
    (hs : step deps s e = some t) : Shrinks s t := by
  have haccepting := (sameGate_step he hs).accepting.trans h
  cases hrunner : e.ofRunner with
  | some id =>
    obtain ⟨lanes, calls, phase, rfl⟩ := runner_event hrunner hs
    exact setRunner h phase
  | none =>
    cases hpreparation : e.ofPreparation with
    | some id =>
      obtain ⟨lanes, calls, phase, rfl⟩ := preparation_event hpreparation hs
      exact setPreparation h phase
    | none =>
      cases e with
      | notify hint =>
        cases hs
        rw [notify_closed h]
        exact Shrinks.refl h
      | recoverNow =>
        cases hs
        rw [Driver.recoverNow, if_neg fun hboth ↦ Bool.false_ne_true (h.symm.trans hboth.1)]
        exact Shrinks.refl h
      | recovered hints =>
        rw [DurableWork.step] at hs
        split_ifs at hs
        cases hs
        have hfold : ∀ (hints : List DurableWorkReadyHint) {s : Driver Ω}, s.accepting = false →
            hints.foldl (fun s hint ↦ s.notify deps hint .recovery) s = s := by
          intro hints
          induction hints with
          | nil => exact fun _ ↦ rfl
          | cons hint hints ih =>
            intro s h
            rw [List.foldl_cons, notify_closed h, ih h]
        rw [Driver.recovered, hfold hints]
        · exact of_work h rfl rfl (fun p hp ↦ ⟨p, hp, rfl⟩) (fun r hr ↦ ⟨r, hr, rfl⟩) fun hnil ↦ hnil
        · exact h
      | recoveryFinally =>
        rw [DurableWork.step] at hs
        split_ifs at hs
        cases hs
        exact of_work h rfl rfl (fun p hp ↦ ⟨p, hp, rfl⟩) (fun r hr ↦ ⟨r, hr, rfl⟩) fun hnil ↦ hnil
      | prepareReturns id => exact prepareReturns h hs
      | prepareContinues id => exact prepareContinues h hs
      | prepareFinally id => exact prepareFinally h hs
      | runnerFinally id => exact runnerFinally h hs
      | claimBegins =>
        obtain ⟨p, hp, hs⟩ := Driver.onPump_some (show s.claimBegins deps = some t from hs)
        split at hs <;> cases hs
        refine SamePump.shrinks hp h (SamePump.trans ?_ (SamePump.setPump _ _))
        exact ⟨⟨rfl, rfl⟩, rfl⟩
      | claimReturns claims =>
        obtain ⟨p, hp, hs⟩ := Driver.onPump_some (show s.claimReturns deps claims = some t from hs)
        split at hs
        case h_2 => cases hs
        split_ifs at hs
        cases hs
        refine SamePump.shrinks hp h (SamePump.trans ?_ (samePump_admitClaims _ claims _))
        exact ⟨⟨rfl, rfl⟩, rfl⟩
      | claimRejects =>
        obtain ⟨p, hp, hs⟩ := Driver.onPump_some (show s.claimRejects deps = some t from hs)
        split at hs <;> cases hs
        refine SamePump.shrinks hp h (SamePump.trans ?_ (samePump_pumpLoop _))
        exact ⟨⟨rfl, rfl⟩, rfl⟩
      | duplicateFailBegins =>
        obtain ⟨p, hp, hs⟩ := Driver.onPump_some (show s.duplicateFailBegins = some t from hs)
        split at hs <;> cases hs
        refine SamePump.shrinks hp h (SamePump.trans ?_ (SamePump.setPump _ _))
        exact ⟨⟨rfl, rfl⟩, rfl⟩
      | duplicateFailSettles =>
        obtain ⟨p, hp, hs⟩ := Driver.onPump_some (show s.duplicateFailSettles deps = some t from hs)
        split at hs <;> cases hs
        refine SamePump.shrinks hp h (SamePump.trans ?_ (samePump_admitClaims _ _ _))
        exact ⟨⟨rfl, rfl⟩, rfl⟩
      | pumpFinishes =>
        obtain ⟨p, hp, hs⟩ := Driver.onPump_some (show s.pumpFinishes deps = some t from hs)
        split at hs <;> cases hs
        rw [Driver.finishPump, if_neg]
        · exact Shrinks.of_pump hp h fun p' hp' ↦ (by cases hp')
        · rw [Driver.hasSlot, h, Bool.false_and]
          exact fun hboth ↦ Bool.false_ne_true hboth.1
      | start | quiesce | quiesceContinues call => cases he
      | prepareThrows i | prepareFailBegins i | prepareFailSettles i continues => cases hpreparation
      | _ => cases hrunner

/-! ## Calls of `quiesce` -/

/-- What a call of `quiesce` has waited for, while the driver was not started again. -/
def Quiesce.Holds (s : Driver Ω) (q : Quiesce) : Prop := q.restarted = false → s.accepting = false ∧
  match q.phase with
  | .awaitsPump pump => ∀ p, s.pumping = some p → pump = some p.id
  | .awaitsWork prerequisites runners => s.pumping = none ∧
      (∀ p ∈ s.prerequisites, p.work.id ∈ prerequisites) ∧ ∀ r ∈ s.runners, r.work.id ∈ runners
  | .awaitsRecovery _ | .resolved => s.pumping = none ∧ s.prerequisites = [] ∧ s.runners = [] ∧
      s.runnable = []

theorem Shrinks.pumping_none (h : Shrinks s t) (hnone : s.pumping = none) : t.pumping = none := by
  cases ht : t.pumping with
  | none => rfl
  | some p =>
    obtain ⟨p', hp', -⟩ := h.pumping p ht
    exact nomatch hp'.symm.trans hnone

theorem Shrinks.holds (h : Shrinks s t) {q : Quiesce} (hq : q.Holds s) : q.Holds t := by
  intro hrestarted
  obtain ⟨haccepting, hphase⟩ := hq hrestarted
  refine ⟨h.accepting, ?_⟩
  have hempty : s.pumping = none ∧ s.prerequisites = [] ∧ s.runners = [] ∧ s.runnable = [] →
      t.pumping = none ∧ t.prerequisites = [] ∧ t.runners = [] ∧ t.runnable = [] := by
    rintro ⟨hpump, hp, hr, hrunnable⟩
    refine ⟨h.pumping_none hpump, List.eq_nil_iff_forall_not_mem.mpr fun p hmem ↦ ?_,
      List.eq_nil_iff_forall_not_mem.mpr fun r hmem ↦ ?_, h.runnable hpump hrunnable⟩
    · obtain ⟨p', hp', -⟩ := h.prerequisites hpump p hmem
      exact nomatch hp ▸ hp'
    · obtain ⟨r', hr', -⟩ := h.runners hpump r hmem
      exact nomatch hr ▸ hr'
  obtain ⟨phase, restarted⟩ := q
  cases phase with
  | awaitsPump pump =>
    intro p hp
    obtain ⟨p', hp', hid⟩ := h.pumping p hp
    exact hid ▸ hphase p' hp'
  | awaitsWork prerequisites runners =>
    obtain ⟨hpump, hp, hr⟩ := hphase
    refine ⟨h.pumping_none hpump, fun p hmem ↦ ?_, fun r hmem ↦ ?_⟩
    · obtain ⟨p', hp', hid⟩ := h.prerequisites hpump p hmem
      exact hid ▸ hp p' hp'
    · obtain ⟨r', hr', hid⟩ := h.runners hpump r hmem
      exact hid ▸ hr r' hr'
  | awaitsRecovery recovery => exact hempty hphase
  | resolved => exact hempty hphase

/-- Every call of `quiesce` so far holds what it says. -/
def Quiesces (s : Driver Ω) : Prop := ∀ q ∈ s.quiesces, q.Holds s

/-- Where the driver accepts, it was started after every call of `quiesce`. -/
theorem Quiesces.restarted (h : Quiesces s) (haccepting : s.accepting = true) {q : Quiesce}
    (hq : q ∈ s.quiesces) : q.restarted = true := by
  cases hrestarted : q.restarted with
  | true => rfl
  | false => exact nomatch haccepting.symm.trans (h q hq hrestarted).1

theorem Quiesce.holds_of_restarted {q : Quiesce} (h : q.restarted = true) : q.Holds s :=
  fun hnot ↦ nomatch h.symm.trans hnot

theorem Quiesces.continueQuiesce (h : Quiesces s) {q : Quiesce} (hq : q ∈ s.quiesces)
    {phase : QuiescePhase} (hs : s.continueQuiesce q.phase = some (t, phase)) :
    t.accepting = s.accepting ∧ t.quiesces = s.quiesces ∧ (s.accepting = false → Shrinks s t) ∧
      Quiesce.Holds t { q with phase } := by
  obtain ⟨old, restarted⟩ := q
  have hholds := h _ hq
  cases old with
  | awaitsPump pump =>
    rw [Driver.continueQuiesce] at hs
    split_ifs at hs with hwaits
    cases hs
    refine ⟨rfl, rfl, Shrinks.refl, fun hrestarted ↦ ?_⟩
    obtain ⟨haccepting, hpump⟩ := hholds hrestarted
    refine ⟨haccepting, ?_, fun p hp ↦ List.mem_map_of_mem hp, fun r hr ↦ List.mem_map_of_mem hr⟩
    -- the pump that was waited for is over, and there is no other one
    cases hpumping : s.pumping with
    | none => rfl
    | some p =>
      rw [hpump p hpumping, hpumping] at hwaits
      exact absurd ⟨rfl, rfl⟩ hwaits
  | awaitsWork prerequisites runners =>
    rw [Driver.continueQuiesce] at hs
    split_ifs at hs with hwaits
    cases hs
    obtain ⟨lanes, calls, hdrop⟩ := foldl_clear_eq s.runnable s
    rw [Driver.dropRunnable, hdrop]
    refine ⟨rfl, rfl, fun haccepting ↦ ?_, fun hrestarted ↦ ?_⟩
    · exact Shrinks.of_work haccepting rfl rfl (fun p hp ↦ ⟨p, hp, rfl⟩) (fun r hr ↦ ⟨r, hr, rfl⟩)
        fun _ ↦ rfl
    · obtain ⟨haccepting, hpump, hp, hr⟩ := hholds hrestarted
      rw [Bool.or_eq_true, not_or, List.any_eq_true, List.any_eq_true] at hwaits
      refine ⟨haccepting, hpump, List.eq_nil_iff_forall_not_mem.mpr fun p hmem ↦ hwaits.1 ⟨p, hmem, ?_⟩,
        List.eq_nil_iff_forall_not_mem.mpr fun r hmem ↦ hwaits.2 ⟨r, hmem, ?_⟩, rfl⟩
      · exact decide_eq_true (hp p hmem)
      · exact decide_eq_true (hr r hmem)
  | awaitsRecovery recovery =>
    rw [Driver.continueQuiesce] at hs
    split_ifs at hs
    cases hs
    exact ⟨rfl, rfl, Shrinks.refl, hholds⟩
  | resolved => cases hs

theorem Quiesces.quiesceContinues (h : Quiesces s) {i : ℕ} (hs : s.quiesceContinues i = some t) :
    Quiesces t := by
  obtain ⟨q, hq, hs⟩ := Option.bind_eq_some_iff.mp hs
  obtain ⟨⟨u, phase⟩, hu, rfl⟩ := Option.map_eq_some_iff.mp hs
  have hmem := List.mem_of_getElem? hq
  obtain ⟨haccepting, hquiesces, hshrinks, hholds⟩ := h.continueQuiesce hmem hu
  intro q' hq'
  have hq'' : q' ∈ u.quiesces.set i { q with phase } := hq'
  rcases List.mem_or_eq_of_mem_set hq'' with hq' | rfl
  · rw [hquiesces] at hq'
    cases hgate : s.accepting with
    | true => exact Quiesce.holds_of_restarted (h.restarted hgate hq')
    | false => exact (hshrinks hgate).holds (h q' hq')
  · exact hholds

theorem Quiesces.quiesce (h : Quiesces s) : Quiesces s.quiesce := by
  intro q hq
  rcases List.mem_append.mp hq with hq | hq
  · cases hgate : s.accepting with
    | true => exact Quiesce.holds_of_restarted (h.restarted hgate hq)
    | false =>
      have hshrinks : Shrinks s s.quiesce := by
        refine Shrinks.of_work hgate hgate.symm rfl (fun p hp ↦ ?_) (fun r hr ↦ ?_) fun hnil ↦ hnil
        · obtain ⟨p', hp', rfl⟩ := List.mem_map.mp hp
          exact ⟨p', hp', rfl⟩
        · obtain ⟨r', hr', rfl⟩ := List.mem_map.mp hr
          exact ⟨r', hr', rfl⟩
      exact hshrinks.holds (h q hq)
  · rw [List.mem_singleton.mp hq]
    refine fun _ ↦ ⟨rfl, fun p hp ↦ ?_⟩
    have hpumping : s.pumping = some p := hp
    rw [hpumping, Option.map_some]

theorem Quiesces.start (h : Quiesces s) : Quiesces (s.start deps) := by
  rw [Driver.start]
  split_ifs with haccepting
  · exact h
  · intro q hq
    rw [(sameGate_kick _).quiesces] at hq
    obtain ⟨q', -, rfl⟩ := List.mem_map.mp hq
    exact Quiesce.holds_of_restarted rfl

theorem Quiesces.step (h : Quiesces s) {e : Event Ω} (hs : step deps s e = some t) : Quiesces t := by
  cases he : e.ofGate with
  | false =>
    have hgate := sameGate_step he hs
    intro q hq
    rw [hgate.quiesces] at hq
    cases haccepting : s.accepting with
    | true => exact Quiesce.holds_of_restarted (h.restarted haccepting hq)
    | false => exact (Shrinks.step haccepting he hs).holds (h q hq)
  | true =>
    cases e with
    | start => exact Option.some.inj hs ▸ h.start
    | quiesce => exact Option.some.inj hs ▸ h.quiesce
    | quiesceContinues call => exact h.quiesceContinues hs
    | _ => exact nomatch he

/-! ## Quiescence -/

theorem Admits.new : Admits (Driver.new Ω) := ⟨trivial, rfl⟩

theorem Quiesces.new : Quiesces (Driver.new Ω) := fun q (hq : q ∈ ([] : List Quiesce)) ↦ nomatch hq

/-- A driver without work in hand has no lane. -/
theorem Safe.no_lanes (h : Safe deps s) (hpump : s.pumping = none) (hprerequisites : s.prerequisites = [])
    (hrunners : s.runners = []) (hrunnable : s.runnable = []) : s.activeLanes = [] := by
  cases hlanes : s.activeLanes with
  | nil => rfl
  | cons entry lanes =>
    obtain ⟨lane, id⟩ := entry
    have hget : s.activeLanes.get lane = some id := by
      rw [hlanes, JsMap.get, if_pos rfl]
    obtain ⟨j, hj, -⟩ := h.owned lane id hget
    rw [Driver.workJobs, hprerequisites, hrunnable, hrunners, hpump] at hj
    exact absurd hj (Multiset.notMem_zero j)

/-- **Quiescence closes admission.** In a run in which a driver that does not accept is granted nothing,
every preparation and execution began while the driver accepted; and in any run a call of `quiesce` that
has resolved without another start has left no preparation, execution or lane. -/
theorem work_quiescence : (∀ s : Driver Ω, Reachable (step deps) (grantsInTime deps) (Driver.new Ω) s →
      Admitted s.calls) ∧
    ∀ s : Driver Ω, Reachable (step deps) anyStep (Driver.new Ω) s →
      ∀ q ∈ s.quiesces, q.phase = .resolved → q.restarted = false →
        s.pumping = none ∧ s.prerequisites = [] ∧ s.runners = [] ∧ s.runnable = [] ∧ s.activeLanes = [] := by
  constructor
  · intro s h
    have hadmits : Admits s := h.invariant (I := Admits) Admits.new fun _ _ _ hadmits hok hs ↦
      hadmits.step hok hs
    exact hadmits.admitted
  · intro s h q hq hphase hrestarted
    have hquiesces : Quiesces s := h.invariant (I := Quiesces) Quiesces.new fun _ _ _ hquiesces _ hs ↦
      hquiesces.step hs
    have hholds := hquiesces q hq hrestarted
    rw [hphase] at hholds
    obtain ⟨-, hpump, hprerequisites, hrunners, hrunnable⟩ := hholds
    exact ⟨hpump, hprerequisites, hrunners, hrunnable,
      (safe_of_reachable h).no_lanes hpump hprerequisites hrunners hrunnable⟩

end Vibestudio.Server.DurableWork

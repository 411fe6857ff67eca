import Mathlib
import Vibestudio.Server.PanelLeaseEvents
import Vibestudio.Server.PanelRoutes
import Vibestudio.Server.PanelSupervision
import Vibestudio.Transition.Run

/-!
# Runs of panel attempts

What becomes of the attempts when the operations of the panel runtime coordinator, the reports of views and the probes of
its supervision come in any order. An attempt only moves on (`Advances`), with a larger revision at each new phase. One
that is not the current attempt of its slot has ended, and is among the few that its slot remembers (`Retained`). `Aged`
says both of an operation, so that operations compose.
-/

namespace Vibestudio.Server

open Js Shared Transition

instance : Fintype AttemptPhase :=
  ⟨{.pending, .loading, .booting, .ready, .failed, .stopped}, fun phase ↦ by cases phase <;> decide⟩

/-- The phases that are left for an attempt. -/
def AttemptPhase.mayBecome (phase next : AttemptPhase) : Bool :=
  match phase with
  | .pending => decide (next ∈ [.loading, .booting, .ready, .failed, .stopped])
  | .loading => decide (next ∈ [.booting, .ready, .failed, .stopped])
  | .booting => decide (next ∈ [.ready, .failed, .stopped])
  | .ready => decide (next = .stopped)
  | .failed => false
  | .stopped => false

theorem AttemptPhase.mayBecome_trans : ∀ {x y z : AttemptPhase}, x.mayBecome y = true → y.mayBecome z = true →
    x.mayBecome z = true := by
  decide

/-- A phase and a revision that come after others. -/
def Moved (p q : AttemptPhase × ℕ) : Prop := q = p ∨ p.1.mayBecome q.1 = true ∧ p.2 < q.2

theorem Moved.trans {p q t : AttemptPhase × ℕ} (h : Moved p q) (h' : Moved q t) : Moved p t := by
  rcases h with rfl | ⟨hphase, hrevision⟩
  · exact h'
  rcases h' with rfl | ⟨hphase', hrevision'⟩
  · exact .inr ⟨hphase, hrevision⟩
  · exact .inr ⟨AttemptPhase.mayBecome_trans hphase hphase', hrevision.trans hrevision'⟩

def PanelAttempt.stage (attempt : PanelAttempt) : AttemptPhase × ℕ := (attempt.phase, attempt.revision)

/-- The attempt, later. -/
structure Advances (x y : PanelAttempt) : Prop where
  attemptId : y.attemptId = x.attemptId
  slotId : y.slotId = x.slotId
  runtimeEntityId : y.runtimeEntityId = x.runtimeEntityId
  moved : Moved x.stage y.stage

theorem Advances.refl (x : PanelAttempt) : Advances x x := ⟨rfl, rfl, rfl, .inl rfl⟩

theorem Advances.trans {x y z : PanelAttempt} (h : Advances x y) (h' : Advances y z) : Advances x z :=
  ⟨h'.attemptId.trans h.attemptId, h'.slotId.trans h.slotId, h'.runtimeEntityId.trans h.runtimeEntityId,
    h.moved.trans h'.moved⟩

/-- What has ended stays as it is. -/
theorem Moved.of_ended {x y : PanelAttempt} (h : Moved x.stage y.stage) (hx : x.live = false) : y.phase = x.phase := by
  rcases h with heq | ⟨hphase, -⟩
  · exact congrArg Prod.fst heq
  · rw [PanelAttempt.live, decide_eq_false_iff_not, not_and_or, not_not, not_not] at hx
    rcases hx with hx | hx
    · exact absurd (hx ▸ hphase : AttemptPhase.mayBecome .failed y.phase = true) nofun
    · exact absurd (hx ▸ hphase : AttemptPhase.mayBecome .stopped y.phase = true) nofun

theorem Advances.ended {x y : PanelAttempt} (h : Advances x y) (hx : x.live = false) : y.live = false := by
  rw [← hx, PanelAttempt.live, PanelAttempt.live, h.moved.of_ended hx]

namespace PanelAttempts

theorem mayBecome_of_canAdvance {attempt : PanelAttempt} {next : AttemptPhase}
    (h : canAdvance attempt next = true) : attempt.phase.mayBecome next = true := by
  have hall : ∀ phase next : AttemptPhase, (if decide (phase ≠ .failed ∧ phase ≠ .stopped) = false then false
      else if next = .failed then decide (phase ≠ .ready) else if next = .stopped then true
      else if phase = .ready then false else decide (PHASE_RANK phase < PHASE_RANK next)) = true →
      phase.mayBecome next = true := by
    decide
  exact hall _ _ h

/-- What a slot remembers of its attempts. -/
def historyOf (r : PanelAttempts) (slotId : PanelSlotId) : List JsString := (r.terminalHistoryBySlot.get slotId).getD []

/-- An attempt is its slot's current one, or has ended and is remembered. -/
structure Retained (r : PanelAttempts) : Prop where
  settled : ∀ id a, r.attempts.get id = some a → r.currentAttemptBySlot.get a.slotId = some id ∨
    a.live = false ∧ id ∈ r.historyOf a.slotId
  limit : ∀ slotId, (r.historyOf slotId).length ≤ ATTEMPT_HISTORY_LIMIT
  keys : (JsMap.keys r.attempts).Nodup

structure Lifecycle (ids : RandomUuid) (r : PanelAttempts) : Prop where
  routes : RoutesOk ids r
  retained : Retained r

/-- The attempts, after an operation: each is one from before that has moved on, or a new one. -/
structure Aged (ids : RandomUuid) (r r' : PanelAttempts) : Prop where
  ok : Lifecycle ids r'
  drawn : r.drawn ≤ r'.drawn
  advanced : ∀ id a', r'.attempts.get id = some a' → (∃ a, r.attempts.get id = some a ∧ Advances a a') ∨
    ¬ ids.Drawn r.drawn id ∧ Moved (.pending, 0) a'.stage

variable {ids : RandomUuid} {r r' r'' : PanelAttempts} {attempt next : PanelAttempt} {attemptId connectionId : JsString}
  {slotId : PanelSlotId} {entityId : PanelEntityId}

theorem Aged.refl (h : Lifecycle ids r) : Aged ids r r := ⟨h, le_rfl, fun _ a ha ↦ .inl ⟨a, ha, .refl a⟩⟩

theorem Aged.trans (h : Aged ids r r') (h' : Aged ids r' r'') : Aged ids r r'' := by
  refine ⟨h'.ok, h.drawn.trans h'.drawn, fun id a'' ha'' ↦ ?_⟩
  rcases h'.advanced id a'' ha'' with ⟨a', ha', hadv'⟩ | ⟨hnew, hmoved⟩
  · rcases h.advanced id a' ha' with ⟨a, ha, hadv⟩ | ⟨hnew, hmoved⟩
    · exact .inl ⟨a, ha, hadv.trans hadv'⟩
    · exact .inr ⟨hnew, hmoved.trans hadv'.moved⟩
  · exact .inr ⟨fun hdrawn ↦ hnew (hdrawn.mono h.drawn), hmoved⟩

/-- An attempt that was there is the one of before. -/
theorem Aged.advances (h : Aged ids r r') (hr : Lifecycle ids r) {a a' : PanelAttempt}
    (ha : r.attempts.get attemptId = some a) (ha' : r'.attempts.get attemptId = some a') : Advances a a' := by
  rcases h.advanced attemptId a' ha' with ⟨a₀, ha₀, hadv⟩ | ⟨hnew, -⟩
  · obtain rfl := Option.some.inj (ha.symm.trans ha₀)
    exact hadv
  · exact absurd (hr.routes.keyed attemptId a ha).2 hnew

theorem lifecycle_init : Lifecycle ids init := by
  refine ⟨routesOk_init, nofun, fun slotId ↦ ?_, List.nodup_nil⟩
  exact Nat.zero_le _

/-! ## What does not touch the attempts -/

/-- The attempts, which of them are current, and which are remembered, are as before. -/
theorem Lifecycle.same (h : Lifecycle ids r) (r' : PanelAttempts) (hok : RoutesOk ids r')
    (hattempts : r'.attempts = r.attempts)
    (hcurrent : r'.currentAttemptBySlot = r.currentAttemptBySlot)
    (hhistory : r'.terminalHistoryBySlot = r.terminalHistoryBySlot) (hdrawn : r.drawn ≤ r'.drawn) :
    Aged ids r r' := by
  refine ⟨⟨hok, fun id a ha ↦ ?_, fun slotId ↦ ?_, ?_⟩, hdrawn, fun id a ha ↦ ?_⟩
  · rw [hcurrent, historyOf, hhistory]
    exact h.retained.settled id a (hattempts ▸ ha)
  · rw [historyOf, hhistory]
    exact h.retained.limit slotId
  · exact hattempts ▸ h.retained.keys
  · exact .inl ⟨a, hattempts ▸ ha, .refl a⟩

theorem Lifecycle.detachRoute (h : Lifecycle ids r) (connectionId : JsString) : Aged ids r (r.detachRoute connectionId) :=
  h.same _ (h.routes.detachRoute connectionId).ok rfl rfl rfl le_rfl

theorem Lifecycle.closeLeaseConnection (h : Lifecycle ids r) (entityId : PanelEntityId) (connectionId : JsString)
    (reason : StopReason) : Aged ids r (r.closeLeaseConnection entityId connectionId reason) :=
  h.same _ (h.routes.closeLeaseConnection entityId connectionId reason).ok rfl rfl rfl le_rfl

theorem Lifecycle.bindRoute (h : Lifecycle ids r) (connection : Option JsString) (attemptId : JsString) :
    Aged ids r (r.bindRoute connection attemptId) := by
  have hok := (h.routes.bindRoute connection attemptId).ok
  apply h.same _ hok <;> unfold PanelAttempts.bindRoute <;> split <;> rfl

theorem Lifecycle.handOver (h : Lifecycle ids r) (previous : PanelAttempt) (input : CommitInput)
    (binding : JsString × JsString) : Aged ids r (r.handOver previous input binding) := by
  have hok := (h.routes.handOver previous input binding).ok
  unfold PanelAttempts.handOver at hok ⊢
  split_ifs at hok ⊢
  · exact .refl h
  · exact h.same _ hok rfl rfl rfl le_rfl
  · exact h.same _ hok rfl rfl rfl le_rfl

/-! ## Attempts that move on -/

theorem Lifecycle.setAttempt (h : Lifecycle ids r) (hget : r.attempts.get attempt.attemptId = some attempt)
    (hadvances : Advances attempt next) :
    Aged ids r { r with attempts := r.attempts.set attempt.attemptId next } := by
  have hok := (h.routes.setAttempt hget hadvances.attemptId hadvances.slotId hadvances.runtimeEntityId).ok
  refine ⟨⟨hok, fun id a ha ↦ ?_, h.retained.limit, JsMap.nodup_keys_set h.retained.keys _ _⟩, le_rfl, fun id a ha ↦ ?_⟩
  · rw [JsMap.get_set] at ha
    split_ifs at ha with heq
    · obtain rfl := Option.some.inj ha
      rw [hadvances.slotId, heq]
      exact (h.retained.settled _ attempt hget).imp (fun hcurrent ↦ hcurrent) fun hended ↦ ⟨hadvances.ended hended.1, hended.2⟩
    · exact h.retained.settled id a ha
  · rw [JsMap.get_set] at ha
    split_ifs at ha with heq
    · obtain rfl := Option.some.inj ha
      exact .inl ⟨attempt, heq ▸ hget, hadvances⟩
    · exact .inl ⟨a, ha, .refl a⟩

theorem Lifecycle.transitionAttempt (h : Lifecycle ids r) (hget : r.attempts.get attempt.attemptId = some attempt)
    {report : AttemptReport} (hphase : attempt.phase.mayBecome report.phase = true) :
    Aged ids r (r.transitionAttempt attempt report) :=
  h.setAttempt hget ⟨rfl, rfl, rfl, .inr ⟨hphase, Nat.lt_succ_self _⟩⟩

theorem Lifecycle.updateAttempt (h : Lifecycle ids r) (hget : r.attempts.get attempt.attemptId = some attempt)
    (hostConnectionId : JsString) : Aged ids r (r.updateAttempt attempt hostConnectionId) :=
  h.setAttempt hget ⟨rfl, rfl, rfl, .inl rfl⟩

theorem Lifecycle.reportAttemptPhase (h : Lifecycle ids r) (attemptId : JsString) (report : AttemptReport) :
    Aged ids r (r.reportAttemptPhase attemptId report).1 := by
  unfold PanelAttempts.reportAttemptPhase
  split
  · exact .refl h
  · rename_i attempt hget
    split_ifs with haccepted
    · have hadvance := (Bool.and_eq_true_iff.mp haccepted).2
      apply h.transitionAttempt _ (mayBecome_of_canAdvance hadvance)
      rwa [(h.routes.keyed attemptId attempt hget).1]
    · exact .refl h

theorem canAdvance_stopped (h : attempt.live = true) : canAdvance attempt .stopped = true := by
  simp [canAdvance, h]

theorem Lifecycle.supersede (h : Lifecycle ids r) (hget : r.attempts.get attempt.attemptId = some attempt)
    (reason : StopReason) : Aged ids r (r.supersede attempt reason) := by
  unfold PanelAttempts.supersede
  split_ifs with hlive
  · exact h.transitionAttempt hget (mayBecome_of_canAdvance (canAdvance_stopped hlive))
  · exact .refl h

/-- What is superseded has ended. -/
theorem live_supersede (hget : r.attempts.get attempt.attemptId = some attempt) {reason : StopReason}
    {stored : PanelAttempt} (hstored : (r.supersede attempt reason).attempts.get attempt.attemptId = some stored) :
    stored.live = false := by
  unfold PanelAttempts.supersede at hstored
  split_ifs at hstored with hlive
  · rw [PanelAttempts.transitionAttempt, JsMap.get_set_self] at hstored
    exact Option.some.inj hstored ▸ rfl
  · obtain rfl := Option.some.inj (hget.symm.trans hstored)
    exact Bool.eq_false_iff.mpr hlive

/-! ## Attempts that are forgotten -/

/-- What is forgotten, and that nothing else changes. -/
structure Forgets (slotId : PanelSlotId) (l : List JsString) (r r' : PanelAttempts) : Prop where
  attempts : ∀ id, r'.attempts.get id =
    if id ∈ l ∧ r.currentAttemptBySlot.get slotId ≠ some id then none else r.attempts.get id
  current : r'.currentAttemptBySlot = r.currentAttemptBySlot
  history : r'.terminalHistoryBySlot = r.terminalHistoryBySlot
  drawn : r'.drawn = r.drawn
  keys : (JsMap.keys r.attempts).Nodup → (JsMap.keys r'.attempts).Nodup

theorem forgets_evict (r : PanelAttempts) (slotId : PanelSlotId) (attemptId : JsString) :
    Forgets slotId [attemptId] r (r.evict slotId attemptId) := by
  unfold PanelAttempts.evict
  split_ifs with hcurrent
  · refine ⟨fun id ↦ ?_, rfl, rfl, rfl, fun h ↦ h⟩
    rw [if_neg]
    rintro ⟨hmem, hne⟩
    exact hne (List.mem_singleton.mp hmem ▸ hcurrent)
  · refine ⟨fun id ↦ ?_, rfl, rfl, rfl, fun h ↦ JsMap.nodup_keys_delete h _⟩
    rw [JsMap.get_delete]
    refine if_congr ?_ rfl rfl
    rw [List.mem_singleton]
    exact ⟨fun heq ↦ ⟨heq, heq ▸ hcurrent⟩, And.left⟩

theorem forgets_foldl (slotId : PanelSlotId) (l : List JsString) :
    ∀ r : PanelAttempts, Forgets slotId l r (l.foldl (PanelAttempts.evict slotId) r) := by
  induction l with
  | nil => exact fun r ↦ ⟨fun id ↦ (if_neg fun h ↦ absurd h.1 List.not_mem_nil).symm, rfl, rfl, rfl, fun h ↦ h⟩
  | cons b l ih =>
    intro r
    have hone := forgets_evict r slotId b
    have hrest := ih (r.evict slotId b)
    refine ⟨fun id ↦ ?_, hrest.current.trans hone.current, hrest.history.trans hone.history,
      hrest.drawn.trans hone.drawn, fun h ↦ hrest.keys (hone.keys h)⟩
    simp only [List.foldl_cons, hrest.attempts, hone.attempts, hone.current, List.mem_cons]
    split_ifs <;> tauto

/-- An attempt that has ended is remembered, and what is forgotten for it is current nowhere. -/
theorem Lifecycle.rememberTerminal (h : Lifecycle ids r) {stored : PanelAttempt}
    (hget : r.attempts.get attempt.attemptId = some stored) :
    Aged ids r (r.rememberTerminal attempt) ∧ (stored.live = false →
      (∀ a, (r.rememberTerminal attempt).attempts.get attempt.attemptId = some a → a = stored) ∧
      (r.rememberTerminal attempt).currentAttemptBySlot = r.currentAttemptBySlot ∧
      attempt.attemptId ∈ (r.rememberTerminal attempt).historyOf stored.slotId) := by
  have hok := (h.routes.rememberTerminal hget).ok
  have hid := (h.routes.keyed _ stored hget).1
  unfold PanelAttempts.rememberTerminal at hok ⊢
  rw [hget] at hok ⊢
  dsimp only [Option.getD_some] at hok ⊢
  by_cases hlive : stored.live = true
  · rw [if_pos hlive] at hok ⊢
    exact ⟨.refl h, fun hended ↦ absurd hlive (Bool.eq_false_iff.mp hended)⟩
  rw [if_neg hlive] at hok ⊢
  generalize hnext : stored.attemptId :: ((r.terminalHistoryBySlot.get stored.slotId).getD []).filter
    (fun id ↦ decide (id ≠ stored.attemptId)) = next at hok ⊢
  have hforgets := forgets_foldl stored.slotId (next.drop ATTEMPT_HISTORY_LIMIT) { r with
    terminalHistoryBySlot := r.terminalHistoryBySlot.set stored.slotId (next.take ATTEMPT_HISTORY_LIMIT) }
  generalize (next.drop ATTEMPT_HISTORY_LIMIT).foldl (evict stored.slotId) _ = r' at hok hforgets ⊢
  have hsub : ∀ id a, r'.attempts.get id = some a → r.attempts.get id = some a ∧
      ¬ (id ∈ next.drop ATTEMPT_HISTORY_LIMIT ∧ r.currentAttemptBySlot.get stored.slotId ≠ some id) := by
    intro id a ha
    rw [hforgets.attempts] at ha
    split_ifs at ha with hgone
    exact ⟨ha, hgone⟩
  have hhistory : ∀ slotId, r'.historyOf slotId =
      if slotId = stored.slotId then next.take ATTEMPT_HISTORY_LIMIT else r.historyOf slotId := by
    intro slotId
    rw [historyOf, hforgets.history, JsMap.get_set]
    split_ifs
    · rfl
    · rfl
  have hcurrent : r'.currentAttemptBySlot = r.currentAttemptBySlot := hforgets.current
  refine ⟨⟨⟨hok, fun id a ha ↦ ?_, fun slotId ↦ ?_, hforgets.keys h.retained.keys⟩, hforgets.drawn.ge, fun id a ha ↦ ?_⟩,
    fun _ ↦ ⟨fun a ha ↦ ?_, hcurrent, ?_⟩⟩
  · obtain ⟨ha, hgone⟩ := hsub id a ha
    rw [hcurrent, hhistory]
    rcases h.retained.settled id a ha with hcur | ⟨hended, hmem⟩
    · exact .inl hcur
    · by_cases hslot : a.slotId = stored.slotId
      · rw [if_pos hslot]
        rw [hslot] at hmem ⊢
        -- It is remembered still, unless it has been forgotten just now, which only a current attempt survives.
        have hmem' : id ∈ next := by
          by_cases hsame : id = stored.attemptId
          · exact hnext ▸ hsame ▸ List.mem_cons_self
          · exact hnext ▸ List.mem_cons_of_mem _ (List.mem_filter.mpr ⟨hmem, decide_eq_true hsame⟩)
        rw [← List.take_append_drop ATTEMPT_HISTORY_LIMIT next, List.mem_append] at hmem'
        rcases hmem' with hkept | hdropped
        · exact .inr ⟨hended, hkept⟩
        · exact .inl (not_not.mp fun hne ↦ hgone ⟨hdropped, hne⟩)
      · rw [if_neg hslot]
        exact .inr ⟨hended, hmem⟩
  · rw [hhistory]
    split_ifs
    · exact List.length_take_le _ _
    · exact h.retained.limit slotId
  · exact .inl ⟨a, (hsub id a ha).1, .refl a⟩
  · exact Option.some.inj ((hsub _ a ha).1.symm.trans hget)
  · rw [hhistory, if_pos rfl, ← hnext, hid]
    exact List.mem_cons_self

theorem Lifecycle.stopAttempt (h : Lifecycle ids r) (attemptId : JsString) (reason : StopReason) :
    Aged ids r (r.stopAttempt attemptId reason).1 := by
  unfold PanelAttempts.stopAttempt
  split
  · exact .refl h
  · rename_i attempt hget
    have hget' : r.attempts.get attempt.attemptId = some attempt := by
      rwa [(h.routes.keyed attemptId attempt hget).1]
    obtain ⟨stored, hstored⟩ := exists_supersede hget' reason
    have hstopped := h.supersede hget' reason
    exact hstopped.trans (hstopped.ok.rememberTerminal hstored).1

theorem Lifecycle.stopRouteAttempt (h : Lifecycle ids r) (lease : PanelRuntimeLease) (reason : StopReason)
    (close : Bool) : Aged ids r (r.stopRouteAttempt lease reason close) := by
  unfold PanelAttempts.stopRouteAttempt
  dsimp only
  generalize (r.routeBindings.get lease.connectionId <|> _) = attemptId
  have hstopped : Aged ids r (attemptId.elim r fun attemptId ↦ (r.stopAttempt attemptId reason).1) := by
    cases attemptId with
    | none => exact .refl h
    | some attemptId => exact h.stopAttempt attemptId reason
  have hdetached := hstopped.trans (hstopped.ok.detachRoute lease.connectionId)
  split_ifs
  · exact hdetached.trans (hdetached.ok.closeLeaseConnection _ _ _)
  · exact hdetached

/-! ## Attempts that are committed -/

theorem Lifecycle.foldl_handOver (previous : PanelAttempt) (input : CommitInput) (l : List (JsString × JsString)) :
    ∀ {r : PanelAttempts}, Lifecycle ids r → Aged ids r (l.foldl (PanelAttempts.handOver previous input) r) ∧
      (l.foldl (PanelAttempts.handOver previous input) r).currentAttemptBySlot = r.currentAttemptBySlot := by
  induction l with
  | nil => exact fun h ↦ ⟨.refl h, rfl⟩
  | cons b l ih =>
    intro r h
    have hone := h.handOver previous input b
    have hcurrent : (r.handOver previous input b).currentAttemptBySlot = r.currentAttemptBySlot := by
      unfold PanelAttempts.handOver
      split_ifs <;> rfl
    exact ⟨hone.trans (ih hone.ok).1, (ih hone.ok).2.trans hcurrent⟩

/-- The current attempt of the slot, if there is one, has ended and is remembered. -/
def SlotEnded (r : PanelAttempts) (slotId : PanelSlotId) : Prop :=
  ∀ id a, r.currentAttemptBySlot.get slotId = some id → r.attempts.get id = some a →
    a.live = false ∧ id ∈ r.historyOf slotId

theorem Lifecycle.retirePrevious (h : Lifecycle ids r) (hcurrent : r.currentAttempt slotId = some attempt)
    (input : CommitInput) :
    Aged ids r (r.retirePrevious attempt input) ∧ (r.retirePrevious attempt input).SlotEnded slotId := by
  obtain ⟨hcur, hget, hslot⟩ := h.routes.currentAttempt hcurrent
  obtain ⟨stored, hstored⟩ := exists_supersede hget .superseded
  have hended := live_supersede hget hstored
  have hstopped := h.supersede hget .superseded
  have hstoppedCurrent : (r.supersede attempt .superseded).currentAttemptBySlot = r.currentAttemptBySlot := by
    unfold PanelAttempts.supersede
    split_ifs <;> rfl
  have hstoredSlot := (slotId_supersede hget hstored).trans hslot
  unfold PanelAttempts.retirePrevious
  dsimp only
  obtain ⟨hhanded, hhandedCurrent⟩ := Lifecycle.foldl_handOver attempt input
    (r.supersede attempt .superseded).routeBindings hstopped.ok
  have hgetHanded := (congrArg (JsMap.get attempt.attemptId) (foldl_handOver_attempts attempt input
    (r.supersede attempt .superseded).routeBindings (r := r.supersede attempt .superseded))).trans hstored
  obtain ⟨hremembered, hkept⟩ := hhanded.ok.rememberTerminal hgetHanded
  obtain ⟨hsame, hrememberedCurrent, hmem⟩ := hkept hended
  refine ⟨(hstopped.trans hhanded).trans hremembered, fun id a hid ha ↦ ?_⟩
  rw [hrememberedCurrent, hhandedCurrent, hstoppedCurrent, hcur] at hid
  obtain rfl := Option.some.inj hid
  obtain rfl := hsame a ha
  exact ⟨hended, hstoredSlot ▸ hmem⟩

theorem Lifecycle.retired (h : Lifecycle ids r) (slotId : PanelSlotId) (input : CommitInput) :
    Aged ids r ((r.currentAttempt slotId).elim r fun previous ↦ r.retirePrevious previous input) ∧
      ((r.currentAttempt slotId).elim r fun previous ↦ r.retirePrevious previous input).SlotEnded slotId := by
  cases hcurrent : r.currentAttempt slotId with
  | none =>
    rw [Option.elim_none]
    refine ⟨.refl h, fun id a hid ha ↦ ?_⟩
    rw [PanelAttempts.currentAttempt, hid, Option.bind_some] at hcurrent
    exact nomatch ha.symm.trans hcurrent
  | some previous => exact h.retirePrevious hcurrent input

/-- A new attempt takes the place of one that has ended. -/
theorem Lifecycle.commit (h : Lifecycle ids r) (attempt : PanelAttempt) (hended : r.SlotEnded attempt.slotId)
    (hid : attempt.attemptId = ids.uuid r.drawn) (hstage : attempt.stage = (.pending, 0)) :
    Aged ids r { r with
      attempts := r.attempts.set attempt.attemptId attempt
      currentAttemptBySlot := r.currentAttemptBySlot.set attempt.slotId attempt.attemptId
      drawn := r.drawn + 1 } := by
  have hok := (h.routes.commit hid).ok
  refine ⟨⟨hok, fun id a ha ↦ ?_, h.retained.limit, JsMap.nodup_keys_set h.retained.keys _ _⟩, Nat.le_succ _,
    fun id a ha ↦ ?_⟩
  · rw [JsMap.get_set] at ha ⊢
    split_ifs at ha with heq
    · obtain rfl := Option.some.inj ha
      rw [if_pos rfl, heq]
      exact .inl rfl
    · rcases h.retained.settled id a ha with hcur | hremembered
      · split_ifs with hslot
        · rw [hslot] at hcur
          exact .inr (hslot ▸ hended id a hcur ha)
        · exact .inl hcur
      · exact .inr hremembered
  · rw [JsMap.get_set] at ha
    split_ifs at ha with heq
    · obtain rfl := Option.some.inj ha
      refine .inr ⟨?_, .inl hstage⟩
      rw [heq, hid]
      exact ids.not_drawn r.drawn
    · exact .inl ⟨a, ha, .refl a⟩

theorem Lifecycle.commitAttempt (h : Lifecycle ids r) (slotId : PanelSlotId) (input : CommitInput) :
    Aged ids r (r.commitAttempt ids slotId input).1 := by
  obtain ⟨hretired, hended⟩ := h.retired slotId input
  unfold PanelAttempts.commitAttempt
  dsimp only
  generalize (r.currentAttempt slotId).elim r (fun previous ↦ r.retirePrevious previous input) = retired
    at hretired hended ⊢
  have hcommitted := hretired.ok.commit ⟨ids.uuid retired.drawn, slotId, input.runtimeEntityId,
    input.hostConnectionId.filter fun id ↦ decide (id ≠ []), .pending, 0, .coordinator, none, none⟩ hended rfl rfl
  exact (hretired.trans hcommitted).trans (hcommitted.ok.bindRoute _ _)

theorem Lifecycle.ensureAttemptForSlot (h : Lifecycle ids r) (slotId : PanelSlotId) (entityId : PanelEntityId) :
    Aged ids r (r.ensureAttemptForSlot ids slotId entityId).1 := by
  unfold PanelAttempts.ensureAttemptForSlot
  split
  · exact .refl h
  · exact h.commitAttempt slotId _

theorem Lifecycle.attach (h : Lifecycle ids r) (lease : PanelRuntimeLease) (previous : Option PanelRuntimeLease) :
    Aged ids r (r.attach ids lease previous) := by
  have hok := (h.routes.attach lease previous).1.ok
  unfold PanelAttempts.attach at hok ⊢
  split
  · exact h.commitAttempt lease.slotId _
  · rename_i reused hreused
    rw [hreused] at hok
    have hget := (h.routes.currentAttempt (Option.filter_eq_some_iff.mp hreused).1).2.1
    have hupdated := h.updateAttempt hget lease.hostConnectionId
    exact hupdated.trans (hupdated.ok.same _ hok rfl rfl rfl le_rfl)

theorem Lifecycle.draw (h : Lifecycle ids r) : Aged ids r { r with drawn := r.drawn + 1 } :=
  h.same _ h.routes.draw.ok rfl rfl rfl (Nat.le_succ _)

end PanelAttempts

namespace PanelRuntimeCoordinator

open PanelAttempts

/-- The attempts have only aged. -/
def Ages (ids : RandomUuid) (s s' : PanelRuntimeCoordinator) : Prop :=
  Lifecycle ids s.routes → Aged ids s.routes s'.routes

variable {ids : RandomUuid} {epoch : JsString} {now : ℕ} {s s' s'' : PanelRuntimeCoordinator}
  {l : PanelRuntimeLease} {entityId : PanelEntityId} {slotId : PanelSlotId} {α : Type}

theorem Ages.refl : Ages ids s s := fun h ↦ .refl h

theorem Ages.trans (h : Ages ids s s') (h' : Ages ids s' s'') : Ages ids s s'' :=
  fun hs ↦ (h hs).trans (h' (h hs).ok)

/-- The routes are as before. -/
theorem Ages.of_routes (h : s'.routes = s.routes) : Ages ids s s' := by
  intro hs
  rw [h]
  exact .refl hs

theorem Ages.after (h : Ages ids s' s'') (hroutes : s'.routes = s.routes) : Ages ids s s'' :=
  (Ages.of_routes hroutes).trans h

theorem Ages.before (h : Ages ids s s') (hroutes : s''.routes = s'.routes) : Ages ids s s'' :=
  h.trans (Ages.of_routes hroutes)

theorem Ages.withPanelSlotId {slotId : JsString} {k : PanelSlotId → Outcome α}
    (h : ∀ slotId, Ages ids s (k slotId).1) : Ages ids s (s.withPanelSlotId slotId k).1 := by
  unfold PanelRuntimeCoordinator.withPanelSlotId
  split
  · exact h _
  · exact .refl

theorem Ages.withPanelEntityId {entityId : JsString} {k : PanelEntityId → Outcome α}
    (h : ∀ entityId, Ages ids s (k entityId).1) : Ages ids s (s.withPanelEntityId entityId k).1 := by
  unfold PanelRuntimeCoordinator.withPanelEntityId
  split
  · exact h _
  · exact .refl

theorem Ages.foldl {β : Type} {f : PanelRuntimeCoordinator → β → PanelRuntimeCoordinator}
    (h : ∀ s b, Ages ids s (f s b)) (l : List β) : ∀ s, Ages ids s (l.foldl f s) := by
  induction l with
  | nil => exact fun _ ↦ .refl
  | cons b l ih => exact fun s ↦ (h s b).trans (ih (f s b))

/-! ## Steps that the operations share -/

theorem ages_removeLease (s : PanelRuntimeCoordinator) (l : PanelRuntimeLease) (stop : StopReason) (close : Bool) :
    Ages ids s (s.removeLease l stop close) := fun hs ↦ hs.stopRouteAttempt l stop close

theorem ages_dropLease (s : PanelRuntimeCoordinator) (l : PanelRuntimeLease) (stop : StopReason) (close : Bool)
    (reason : PanelRuntimeLeaseChangedReason) : Ages ids s (s.dropLease epoch l stop close reason) :=
  ages_removeLease s l stop close

theorem ages_putLease (s : PanelRuntimeCoordinator) (l : PanelRuntimeLease) (reason : PanelRuntimeLeaseChangedReason)
    (defaultCdpLease : Bool) : Ages ids s (s.putLease epoch ids l reason defaultCdpLease) := by
  intro hs
  have hdetached : Aged ids s.routes (detachPrevious s.routes (s.leases.get l.runtimeEntityId) l.connectionId) := by
    unfold detachPrevious
    split
    · exact .refl hs
    · exact hs.detachRoute _
  exact hdetached.trans (hdetached.ok.attach l _)

theorem ages_writeLease (s : PanelRuntimeCoordinator) (entityId : PanelEntityId) (input : PanelRuntimeLeaseRequest)
    (reason : PanelRuntimeLeaseChangedReason) (defaultCdpLease : Bool) :
    Ages ids s (s.writeLease epoch ids now entityId input reason defaultCdpLease).1 := by
  unfold writeLease
  split
  · exact .refl
  · exact .withPanelSlotId fun _ ↦ ages_putLease s _ reason defaultCdpLease

theorem ages_assignHost (s : PanelRuntimeCoordinator) (entityId : PanelEntityId) (slotId : PanelSlotId)
    (clientSessionId hostConnectionId connectionPrefix : JsString) (defaultCdpLease : Bool) :
    Ages ids s (s.assignHost epoch ids now entityId slotId clientSessionId hostConnectionId connectionPrefix
      defaultCdpLease).1 := by
  have hdrawn : Ages ids s s.drawUuid := fun hs ↦ hs.draw
  exact hdrawn.trans (ages_writeLease _ _ _ _ _)

theorem ages_assignDefaultCdpHost (s : PanelRuntimeCoordinator) (entityId : PanelEntityId) (slotId : PanelSlotId)
    (excludedHostConnectionId : JsString) :
    Ages ids s (s.assignDefaultCdpHost epoch ids now entityId slotId excludedHostConnectionId).1 := by
  unfold assignDefaultCdpHost
  split
  · exact .refl
  · exact ages_assignHost s _ _ _ _ _ _

theorem ages_replaceCdpLease (s : PanelRuntimeCoordinator) (entityId : PanelEntityId) (existing : PanelRuntimeLease)
    (options : DefaultCdpHostOptions) (hostSelection : HostSelection) :
    Ages ids s (s.replaceCdpLease epoch ids now entityId existing options hostSelection).1 := by
  unfold replaceCdpLease
  split
  · exact .refl
  · exact (ages_dropLease s existing _ _ _).trans (ages_assignHost _ _ _ _ _ _ _)

theorem ages_stopAttempt (s : PanelRuntimeCoordinator) (attemptId : JsString) (reason : StopReason) :
    Ages ids s { s with routes := (s.routes.stopAttempt attemptId reason).1 } := fun hs ↦ hs.stopAttempt attemptId reason

theorem ages_setReachable (s : PanelRuntimeCoordinator) (connectionId : JsString) (reachable : Bool) :
    Ages ids s (s.setReachable connectionId reachable) := fun hs ↦ hs.same _ { hs.routes with } rfl rfl rfl le_rfl

/-! ## The operations -/

theorem ages_unregisterClients (s : PanelRuntimeCoordinator) (sessions : List JsString) :
    Ages ids s (s.unregisterClients epoch ids now sessions).1 := by
  have hrelease : ∀ (l : List PanelRuntimeLease) (p : PanelRuntimeCoordinator × List (PanelRuntimeLease × Bool)),
      Ages ids p.1 (l.foldl (releaseRetired epoch sessions) p).1 := by
    intro l
    induction l with
    | nil => exact fun _ ↦ .refl
    | cons lease l ih =>
      intro p
      refine .trans ?_ (ih (releaseRetired epoch sessions p lease))
      unfold releaseRetired
      split_ifs
      · exact ages_dropLease p.1 lease _ _ _
      · exact .refl
  have hreassign : ∀ (l : List (PanelRuntimeLease × Bool)) (r : Outcome Unit),
      Ages ids r.1 (l.foldl (reassignReleased epoch ids now) r).1 := by
    intro l
    induction l with
    | nil => exact fun _ ↦ .refl
    | cons released l ih =>
      intro r
      refine .trans ?_ (ih (reassignReleased epoch ids now r released))
      unfold reassignReleased
      split
      · exact .refl
      · split_ifs
        · exact ages_assignDefaultCdpHost r.1 _ _ _
        · exact .refl
  unfold unregisterClients
  refine Ages.after (Ages.trans (hrelease _ (_, [])) (hreassign _ (_, .ok ()))) ?_
  rfl

theorem ages_acquire (s : PanelRuntimeCoordinator) (runtimeEntityId : JsString) (input : PanelRuntimeLeaseRequest) :
    Ages ids s (s.acquire epoch ids now runtimeEntityId input).1 := by
  apply Ages.withPanelEntityId
  intro entityId
  split
  · exact ages_writeLease s _ _ _ _
  · split_ifs
    · exact .refl
    · apply Ages.withPanelSlotId
      intro slotId
      split_ifs
      · exact .refl
      · exact ages_writeLease s _ _ _ _

theorem ages_takeOver (s : PanelRuntimeCoordinator) (runtimeEntityId : JsString) (input : PanelRuntimeLeaseRequest) :
    Ages ids s (s.takeOver epoch ids now runtimeEntityId input).1 := by
  apply Ages.withPanelEntityId
  intro entityId
  split
  · exact ages_writeLease s _ _ _ _
  · rename_i existing _
    have hrevoked : Ages ids s (s.revoke epoch existing) := fun hs ↦ hs.stopRouteAttempt existing .superseded true
    exact hrevoked.trans (ages_writeLease _ _ _ _ _)

theorem ages_release (s : PanelRuntimeCoordinator) (runtimeEntityId connectionId : JsString)
    (reason : PanelRuntimeLeaseChangedReason) :
    Ages ids s (s.release epoch ids now runtimeEntityId connectionId reason).1 := by
  apply Ages.withPanelEntityId
  intro entityId
  split
  · exact .refl
  · rename_i existing _
    split_ifs
    · exact .of_routes rfl
    all_goals dsimp only
    · exact (ages_dropLease s existing _ _ _).trans (ages_assignDefaultCdpHost _ _ _ _)
    · exact ages_dropLease s existing _ _ _
    · exact (ages_dropLease s existing _ _ _).trans (ages_assignDefaultCdpHost _ _ _ _)
    · exact ages_dropLease s existing _ _ _

theorem ages_unloadSlot (s : PanelRuntimeCoordinator) (slotId : JsString) :
    Ages ids s (s.unloadSlot epoch slotId).1 := by
  apply Ages.withPanelSlotId
  intro slotId
  split_ifs
  · exact .refl
  · split
    · exact ages_dropLease s _ _ _ _
    · split
      · exact .refl
      · exact ages_stopAttempt s _ _

theorem ages_adoptHostLeaseForSlot (s : PanelRuntimeCoordinator) (slotId runtimeEntityId hostConnectionId : JsString) :
    Ages ids s (s.adoptHostLeaseForSlot epoch ids now slotId runtimeEntityId hostConnectionId).1 := by
  apply Ages.withPanelSlotId
  intro slotId
  apply Ages.withPanelEntityId
  intro entityId
  split
  · exact .refl
  · split
    · exact .refl
    · exact ages_assignHost s _ _ _ _ _ _

theorem ages_commit (s : PanelRuntimeCoordinator) (slotId : PanelSlotId) (input : CommitInput) :
    Ages ids s { s with routes := (s.routes.commitAttempt ids slotId input).1 } := fun hs ↦ hs.commitAttempt slotId input

theorem ages_transferLease (s : PanelRuntimeCoordinator) (slotId : PanelSlotId) (previous : PanelRuntimeLease)
    (nextEntityId : PanelEntityId) (wasDefaultCdpLease : Bool) :
    Ages ids s (s.transferLease epoch ids now slotId previous nextEntityId wasDefaultCdpLease).1 := by
  unfold transferLease
  split
  · exact .of_routes rfl
  · split_ifs
    · exact ages_assignHost s _ _ _ _ _ _
    · exact (ages_commit s slotId ⟨nextEntityId, none, none⟩).before rfl

theorem ages_replaceRuntimeEntityForSlot (s : PanelRuntimeCoordinator) (slotId previousId nextId : JsString) :
    Ages ids s (s.replaceRuntimeEntityForSlot epoch ids now slotId previousId nextId).1 := by
  apply Ages.withPanelSlotId
  intro slotId
  apply Ages.withPanelEntityId
  intro previousEntityId
  apply Ages.withPanelEntityId
  intro nextEntityId
  split_ifs
  · exact .refl
  · split
    · exact .refl
    · exact (ages_removeLease s _ _ _).trans (ages_transferLease _ _ _ _ _)

theorem ages_advanceResidentSlotEntity (s : PanelRuntimeCoordinator) (slotId nextId : JsString) :
    Ages ids s (s.advanceResidentSlotEntity epoch ids now slotId nextId).1 := by
  apply Ages.withPanelSlotId
  intro slotId
  apply Ages.withPanelEntityId
  intro nextEntityId
  split
  · exact .refl
  · split_ifs
    · exact .refl
    · exact ages_replaceRuntimeEntityForSlot s _ _ _

theorem ages_ensureHeldEntity (s : PanelRuntimeCoordinator) (slotId : PanelSlotId) (entityId : PanelEntityId)
    (existing : PanelRuntimeLease) (options : DefaultCdpHostOptions) :
    Ages ids s (s.ensureHeldEntity epoch ids now slotId entityId existing options).1 := by
  unfold ensureHeldEntity
  split
  · exact .refl
  · exact ages_replaceCdpLease s _ _ _ _
  · exact .of_routes rfl

theorem ages_ensureHeldSlot (s : PanelRuntimeCoordinator) (slotId : PanelSlotId) (entityId : PanelEntityId)
    (lease : PanelRuntimeLease) (options : DefaultCdpHostOptions) :
    Ages ids s (s.ensureHeldSlot epoch ids now slotId entityId lease options).1 := by
  unfold ensureHeldSlot
  split_ifs
  · exact .refl
  · exact ages_replaceRuntimeEntityForSlot s _ _ _
  · exact ages_replaceCdpLease s _ _ _ _
  · exact .refl

theorem ages_ensureDefaultCdpHostForSlot (s : PanelRuntimeCoordinator) (slotId runtimeEntityId : JsString)
    (options : DefaultCdpHostOptions) :
    Ages ids s (s.ensureDefaultCdpHostForSlot epoch ids now slotId runtimeEntityId options).1 := by
  apply Ages.withPanelSlotId
  intro slotId
  apply Ages.withPanelEntityId
  intro entityId
  split
  · exact ages_ensureHeldEntity s _ _ _ _
  · split
    · exact ages_ensureHeldSlot s _ _ _ _
    · split
      · exact .refl
      · exact ages_assignHost s _ _ _ _ _ _

theorem ages_retireRuntimeEntity (s : PanelRuntimeCoordinator) (entityId : JsString) :
    Ages ids s (s.retireRuntimeEntity epoch entityId) := by
  unfold retireRuntimeEntity
  split_ifs
  · have hheld : Ages ids s (s.retireHostHeld entityId) := by
      unfold retireHostHeld
      split
      · exact .refl
      · exact fun hs ↦ hs.same _ { hs.routes with } rfl rfl rfl le_rfl
    have hdropped : Ages ids (s.retireHostHeld entityId) (((s.retireHostHeld entityId).leases.get entityId).elim
        (s.retireHostHeld entityId) fun existing ↦
          (s.retireHostHeld entityId).dropLease epoch existing .retired true .retired) := by
      cases (s.retireHostHeld entityId).leases.get entityId with
      | none => exact .refl
      | some existing => exact ages_dropLease _ existing _ _ _
    have hstopped : ∀ (l : List JsString) (r : PanelAttempts), Lifecycle ids r →
        Aged ids r (l.foldl (retireAttempt entityId) r) := by
      intro l
      induction l with
      | nil => exact fun _ hr ↦ .refl hr
      | cons attemptId l ih =>
        intro r hr
        have hone : Aged ids r (retireAttempt entityId r attemptId) := by
          unfold retireAttempt
          split
          · exact .refl hr
          · exact hr.stopAttempt attemptId _
        exact hone.trans (ih _ hone.ok)
    exact (hheld.trans hdropped).trans fun hs ↦ hstopped _ _ hs
  · exact .refl

theorem ages_restampSlotKeepLoaded (s : PanelRuntimeCoordinator) (slotId : PanelSlotId) (keepLoaded : Bool) :
    Ages ids s (s.restampSlotKeepLoaded epoch slotId keepLoaded) := by
  apply Ages.foldl
  intro s lease
  unfold restampLease
  split_ifs <;> exact .of_routes rfl

theorem ages_pinSlotLoaded (s : PanelRuntimeCoordinator) (slotId : JsString) :
    Ages ids s (s.pinSlotLoaded epoch slotId).1 := by
  apply Ages.withPanelSlotId
  intro slotId
  split_ifs
  · exact .refl
  · exact (ages_restampSlotKeepLoaded _ slotId true).after rfl

theorem ages_unpinSlotLoaded (s : PanelRuntimeCoordinator) (slotId : JsString) :
    Ages ids s (s.unpinSlotLoaded epoch slotId).1 := by
  apply Ages.withPanelSlotId
  intro slotId
  split_ifs
  · exact (ages_restampSlotKeepLoaded _ slotId false).after rfl
  · exact .refl

theorem ages_markConnected (s : PanelRuntimeCoordinator) (runtimeEntityId connectionId : JsString) :
    Ages ids s (s.markConnected epoch runtimeEntityId connectionId).1 := by
  apply Ages.withPanelEntityId
  intro entityId
  split
  · dsimp only
    split_ifs
    · exact ages_setReachable s _ _
    · exact .refl
  · split
    · exact .refl
    · dsimp only
      split_ifs
      · exact (Ages.of_routes rfl).trans (ages_setReachable (s.clearExpiry entityId) connectionId true)
      · exact (Ages.of_routes rfl).trans (ages_setReachable (s.clearExpiry entityId) connectionId true)

theorem ages_markDisconnected (s : PanelRuntimeCoordinator) (runtimeEntityId connectionId : JsString) :
    Ages ids s (s.markDisconnected epoch now runtimeEntityId connectionId).1 := by
  apply Ages.withPanelEntityId
  intro entityId
  split
  · dsimp only
    split_ifs
    · exact ages_setReachable s _ _
    · exact .refl
  · split
    · exact .refl
    · exact (Ages.of_routes rfl).trans (ages_setReachable (s.clearExpiry entityId) connectionId false)

theorem ages_holdEntityForHost (s : PanelRuntimeCoordinator) (input : HostHeldEntityLease) :
    Ages ids s (s.holdEntityForHost input).1 := by
  apply Ages.withPanelEntityId
  intro entityId
  split_ifs
  · exact .refl
  · exact fun hs ↦ hs.same _ { hs.routes with } rfl rfl rfl le_rfl

theorem ages_reportView (s : PanelRuntimeCoordinator) (runtimeEntityId connectionId : JsString) (reachable : Bool)
    (report : Option AttemptReport) : Ages ids s (s.reportView runtimeEntityId connectionId reachable report).1 := by
  apply Ages.withPanelEntityId
  intro entityId
  split
  · exact .refl
  · rename_i attempt _
    intro hs
    have hreached : Aged ids s.routes (if reachable then s.setReachable connectionId true else s).routes := by
      split_ifs
      · exact ages_setReachable s _ _ hs
      · exact .refl hs
    have hseen := hreached.trans (hreached.ok.same
      { (if reachable then s.setReachable connectionId true else s).routes with
        routeViews := attempt.attemptId :: (if reachable then s.setReachable connectionId true
          else s).routes.routeViews.filter fun id ↦ decide (id ≠ attempt.attemptId) }
      { hreached.ok.routes with } rfl rfl rfl le_rfl)
    cases report with
    | none => exact hseen
    | some report => exact hseen.trans (hseen.ok.reportAttemptPhase attempt.attemptId report)

theorem ages_call (s : PanelRuntimeCoordinator) {c : Call} {r : Outcome Unit} (h : s.call epoch ids c = some r) :
    Ages ids s r.1 := by
  obtain ⟨now, op⟩ := c
  cases op with
  | expire entityId =>
    obtain ⟨expiry, -, rfl⟩ := Option.map_eq_some_iff.mp h
    exact (ages_release _ _ _ _).after rfl
  | registerClient input => exact Option.some.inj h ▸ .of_routes rfl
  | unregisterClient id => exact Option.some.inj h ▸ ages_unregisterClients s _
  | unregisterClientsForCaller owner => exact Option.some.inj h ▸ ages_unregisterClients s _
  | acquire entityId input => exact Option.some.inj h ▸ ages_acquire s entityId input
  | takeOver entityId input => exact Option.some.inj h ▸ ages_takeOver s entityId input
  | release entityId connectionId reason => exact Option.some.inj h ▸ ages_release s entityId connectionId reason
  | unloadSlot slotId => exact Option.some.inj h ▸ ages_unloadSlot s slotId
  | adoptHostLeaseForSlot slotId entityId host => exact Option.some.inj h ▸ ages_adoptHostLeaseForSlot s slotId entityId host
  | ensureDefaultCdpHostForSlot slotId entityId options =>
    exact Option.some.inj h ▸ ages_ensureDefaultCdpHostForSlot s slotId entityId options
  | replaceRuntimeEntityForSlot slotId previousId nextId =>
    exact Option.some.inj h ▸ ages_replaceRuntimeEntityForSlot s slotId previousId nextId
  | advanceResidentSlotEntity slotId nextId => exact Option.some.inj h ▸ ages_advanceResidentSlotEntity s slotId nextId
  | retireRuntimeEntity entityId => exact Option.some.inj h ▸ ages_retireRuntimeEntity s entityId
  | pinSlotLoaded slotId => exact Option.some.inj h ▸ ages_pinSlotLoaded s slotId
  | unpinSlotLoaded slotId => exact Option.some.inj h ▸ ages_unpinSlotLoaded s slotId
  | markConnected entityId connectionId => exact Option.some.inj h ▸ ages_markConnected s entityId connectionId
  | markDisconnected entityId connectionId => exact Option.some.inj h ▸ ages_markDisconnected s entityId connectionId
  | holdEntityForHost input => exact Option.some.inj h ▸ ages_holdEntityForHost s input
  | commitAttempt slotId entityId host connectionId =>
    exact Option.some.inj h ▸ .withPanelSlotId fun slotId ↦ .withPanelEntityId fun entityId ↦ ages_commit s slotId _
  | ensureAttemptForSlot slotId entityId =>
    exact Option.some.inj h ▸ .withPanelSlotId fun slotId ↦ .withPanelEntityId fun entityId ↦
      fun hs ↦ hs.ensureAttemptForSlot slotId entityId
  | stopAttempt attemptId reason => exact Option.some.inj h ▸ ages_stopAttempt s attemptId reason
  | reportAttemptPhase attemptId report =>
    exact Option.some.inj h ▸ fun hs ↦ hs.reportAttemptPhase attemptId report
  | reportView entityId connectionId reachable report =>
    exact Option.some.inj h ▸ ages_reportView s entityId connectionId reachable report

/-! ## What a report changes -/

/-- The report changes the attempt that it names, when its reporter may report it and the attempt may go there. -/
theorem reportAttemptPhase_changes {r : PanelAttempts} (hr : RoutesOk ids r) {attemptId id : JsString}
    {report : AttemptReport}
    (h : (r.reportAttemptPhase attemptId report).1.attempts.get id ≠ r.attempts.get id) :
    id = attemptId ∧ reporterAuthorized report = true ∧
      ∃ attempt, r.attempts.get attemptId = some attempt ∧ canAdvance attempt report.phase = true := by
  unfold PanelAttempts.reportAttemptPhase at h
  split at h
  · exact absurd rfl h
  · rename_i attempt hget
    split_ifs at h with haccepted
    · obtain ⟨hauthorized, hadvance⟩ := Bool.and_eq_true_iff.mp haccepted
      refine ⟨?_, hauthorized, attempt, hget, hadvance⟩
      by_contra hne
      rw [PanelAttempts.transitionAttempt, JsMap.get_set, (hr.keyed attemptId attempt hget).1, if_neg hne] at h
      exact h rfl
    · exact absurd rfl h

theorem viewedAttempt_eq_some (hr : RoutesOk ids s.routes) {connectionId : JsString} {attempt : PanelAttempt} :
    s.viewedAttempt entityId connectionId = some attempt ↔ ∃ lease, s.leases.get entityId = some lease ∧
      lease.connectionId = connectionId ∧ s.routes.routeBindings.get connectionId = some attempt.attemptId ∧
      s.routes.attempts.get attempt.attemptId = some attempt ∧ attempt.runtimeEntityId = entityId ∧
      attempt.slotId = lease.slotId := by
  constructor
  · intro h
    obtain ⟨lease, hlease, h⟩ := Option.bind_eq_some_iff.mp h
    obtain ⟨hget, hconnection⟩ := Option.filter_eq_some_iff.mp hlease
    obtain ⟨hbound, hsame⟩ := Option.filter_eq_some_iff.mp h
    obtain ⟨id, hid, hattempt⟩ := Option.bind_eq_some_iff.mp hbound
    have hkey := (hr.keyed id attempt hattempt).1
    exact ⟨lease, hget, of_decide_eq_true hconnection, hkey ▸ hid, hkey ▸ hattempt, of_decide_eq_true hsame⟩
  · rintro ⟨lease, hget, hconnection, hid, hattempt, hsame⟩
    refine Option.bind_eq_some_iff.mpr ⟨lease, ?_, Option.filter_eq_some_iff.mpr ⟨?_, decide_eq_true hsame⟩⟩
    · exact Option.filter_eq_some_iff.mpr ⟨hget, decide_eq_true hconnection⟩
    · exact Option.bind_eq_some_iff.mpr ⟨attempt.attemptId, hid, hattempt⟩

/-- The report of a view changes the attempt of its route. -/
theorem reportView_changes (hr : RoutesOk ids s.routes) {runtimeEntityId connectionId id : JsString} {reachable : Bool}
    {report : Option AttemptReport}
    (h : (s.reportView runtimeEntityId connectionId reachable report).1.routes.attempts.get id ≠
      s.routes.attempts.get id) :
    ∃ attempt accepted, s.viewedAttempt runtimeEntityId connectionId = some attempt ∧ report = some accepted ∧
      id = attempt.attemptId ∧ reporterAuthorized accepted = true ∧ canAdvance attempt accepted.phase = true := by
  rw [reportView, PanelRuntimeCoordinator.withPanelEntityId] at h
  cases hentity : asPanelEntityId runtimeEntityId with
  | error e =>
    rw [hentity] at h
    exact absurd rfl h
  | ok entityId =>
    obtain rfl : runtimeEntityId = entityId := by
      unfold asPanelEntityId at hentity
      split_ifs at hentity
      exact Except.ok.inj hentity
    rw [hentity] at h
    dsimp only at h
    cases hviewed : s.viewedAttempt runtimeEntityId connectionId with
    | none =>
      rw [hviewed] at h
      exact absurd rfl h
    | some attempt =>
      obtain ⟨-, -, -, -, hget, -⟩ := (viewedAttempt_eq_some hr).mp hviewed
      rw [hviewed] at h
      dsimp only at h
      generalize hreached : (if reachable then s.setReachable connectionId true else s) = reached at h
      have hattempts : reached.routes.attempts = s.routes.attempts := by
        rw [← hreached]
        split_ifs <;> rfl
      have hok : RoutesOk ids { reached.routes with
          routeViews := attempt.attemptId :: reached.routes.routeViews.filter fun id ↦
            decide (id ≠ attempt.attemptId) } := by
        rw [← hreached]
        split_ifs <;> exact { hr with }
      cases report with
      | none => exact absurd (congrArg (JsMap.get id) hattempts) h
      | some report =>
        rw [← hattempts] at h
        obtain ⟨hid, hauthorized, attempt', hget', hadvance⟩ := reportAttemptPhase_changes hok h
        obtain rfl := Option.some.inj (hget.symm.trans ((congrArg (JsMap.get _) hattempts.symm).trans hget'))
        exact ⟨attempt, report, rfl, rfl, hid, hauthorized, hadvance⟩

theorem live_of_canAdvance {attempt : PanelAttempt} {next : AttemptPhase} (h : canAdvance attempt next = true) :
    attempt.live = true := by
  by_contra hlive
  rw [canAdvance, if_pos (Bool.eq_false_iff.mpr hlive)] at h
  exact nomatch h

/-- What a probe applies to: the attempt of its round, which has neither moved on nor ended. -/
def Probed (s : PanelRuntimeCoordinator) (round : ProbeRound) (id : JsString) : Prop :=
  id = round.attempt.attemptId ∧ ∃ attempt, s.routes.attempts.get id = some attempt ∧
    attempt.revision = round.attempt.revision ∧ attempt.live = true

theorem reportPhase_probed {s : PanelRuntimeCoordinator} (hr : RoutesOk ids s.routes) {round : ProbeRound}
    {report : AttemptReport} {id : JsString} (hat : s.atProbedRevision round = true)
    (h : (s.reportPhase round.attempt.attemptId report).routes.attempts.get id ≠ s.routes.attempts.get id) :
    s.Probed round id := by
  obtain ⟨rfl, -, attempt, hget, hadvance⟩ := reportAttemptPhase_changes hr h
  rw [atProbedRevision, hget, Option.any_some, decide_eq_true_iff] at hat
  exact ⟨rfl, attempt, hget, hat, live_of_canAdvance hadvance⟩

theorem reportStall_changes {s : PanelRuntimeCoordinator} (hr : RoutesOk ids s.routes) {round : ProbeRound}
    {stalled : Bool} {id : JsString}
    (h : (s.reportStall round stalled).routes.attempts.get id ≠ s.routes.attempts.get id) : s.Probed round id := by
  unfold reportStall at h
  split_ifs at h with hat
  · exact reportPhase_probed hr (Bool.and_eq_true_iff.mp hat).1 h
  · exact absurd rfl h

theorem ages_reportProbedView (ids : RandomUuid) (s : PanelRuntimeCoordinator) (round : ProbeRound) (input : ViewInput) :
    Ages ids s (s.reportProbedView round input) := by
  unfold reportProbedView
  split
  · exact .refl
  · exact ages_reportView s _ _ _ _

theorem ages_reportPhase (s : PanelRuntimeCoordinator) (attemptId : JsString) (report : AttemptReport) :
    Ages ids s (s.reportPhase attemptId report) := fun hs ↦ hs.reportAttemptPhase attemptId report

theorem ages_reportStall (s : PanelRuntimeCoordinator) (round : ProbeRound) (stalled : Bool) :
    Ages ids s (s.reportStall round stalled) := by
  unfold reportStall
  split_ifs
  · exact ages_reportPhase s _ _
  · exact .refl

theorem ages_finishRound (s : PanelRuntimeCoordinator) (round : ProbeRound) (answer : ProbeAnswer) (stalled : Bool) :
    Ages ids s (s.finishRound round answer stalled) := by
  cases answer with
  | unavailable => exact ages_reportStall s round stalled
  | answered report =>
    unfold finishRound
    dsimp only
    split_ifs
    · exact .refl
    · split
      · exact ages_reportPhase s _ _
      · refine .trans ?_ (ages_reportStall _ round stalled)
        cases report with
        | none => exact .refl
        | some input => exact ages_reportProbedView ids s round input

theorem reportProbedView_changes {s : PanelRuntimeCoordinator} (hr : RoutesOk ids s.routes) {round : ProbeRound}
    {input : ViewInput} {id : JsString} (happlies : s.probeApplies round = true)
    (h : (s.reportProbedView round input).routes.attempts.get id ≠ s.routes.attempts.get id) : s.Probed round id := by
  unfold reportProbedView at h
  split at h
  · exact absurd rfl h
  · rename_i lease hlease
    have hbound := of_decide_eq_true (Option.filter_eq_some_iff.mp hlease).2
    obtain ⟨attempt, -, hviewed, -, rfl, -⟩ := reportView_changes hr h
    obtain ⟨-, -, -, hid, hget, -⟩ := (viewedAttempt_eq_some hr).mp hviewed
    -- The route is the one that is bound to the attempt of the round.
    have hsame : attempt.attemptId = round.attempt.attemptId := Option.some.inj (hid.symm.trans hbound)
    rw [probeApplies, ← hsame, hget, Option.any_some, Bool.and_eq_true, Bool.and_eq_true, decide_eq_true_iff] at happlies
    exact ⟨hsame, attempt, hget, happlies.1.1, happlies.1.2⟩

/-- **A probe** changes the attempt of its round at most, and only when it has neither moved on nor ended. -/
theorem finishRound_changes {s : PanelRuntimeCoordinator} (hs : Lifecycle ids s.routes) {round : ProbeRound}
    {answer : ProbeAnswer} {stalled : Bool} {id : JsString}
    (h : (s.finishRound round answer stalled).routes.attempts.get id ≠ s.routes.attempts.get id) :
    s.Probed round id := by
  cases answer with
  | unavailable => exact reportStall_changes hs.routes h
  | answered report =>
    unfold finishRound at h
    dsimp only at h
    split_ifs at h with happlies
    · exact absurd rfl h
    rw [Bool.not_eq_false] at happlies
    have hat : s.atProbedRevision round = true := by
      unfold probeApplies at happlies
      unfold atProbedRevision
      cases hget : s.routes.attempts.get round.attempt.attemptId with
      | none => cases hget ▸ happlies
      | some current =>
        rw [hget, Option.any_some, Bool.and_eq_true, Bool.and_eq_true] at happlies
        exact happlies.1.1
    split at h
    · exact reportPhase_probed hs.routes hat h
    · cases report with
      | none => exact reportStall_changes hs.routes h
      | some input =>
        by_cases hview : (s.reportProbedView round input).routes.attempts.get id = s.routes.attempts.get id
        · rw [← hview] at h
          have haged := ages_reportProbedView ids s round input hs
          obtain ⟨hid, attempt, hget, hattempt⟩ := reportStall_changes haged.ok.routes h
          exact ⟨hid, attempt, hview ▸ hget, hattempt⟩
        · exact reportProbedView_changes hs.routes happlies hview

end PanelRuntimeCoordinator

namespace SupervisedCoordinator

open PanelRuntimeCoordinator PanelAttempts

variable {ids : RandomUuid} {epoch : JsString} {s s' : SupervisedCoordinator} {e : Event}

/-- The rounds on their way are of attempts that have only moved on since. -/
structure Supervised (ids : RandomUuid) (s : SupervisedCoordinator) : Prop where
  lifecycle : Lifecycle ids s.coordinator.routes
  rounds : ∀ round ∈ s.rounds, ids.Drawn s.coordinator.routes.drawn round.attempt.attemptId ∧
    ∀ a, s.coordinator.routes.attempts.get round.attempt.attemptId = some a → Advances round.attempt a

theorem step_ages (hs : Lifecycle ids s.coordinator.routes) (h : step epoch ids s e = some s') :
    Aged ids s.coordinator.routes s'.coordinator.routes ∧ ∀ round ∈ s'.rounds, round ∈ s.rounds ∨
      s'.coordinator = s.coordinator ∧
        s.coordinator.routes.attempts.get round.attempt.attemptId = some round.attempt := by
  cases e with
  | call c =>
    obtain ⟨-, h⟩ := Option.ite_none_left_eq_some.mp h
    obtain ⟨coordinator, hcall, rfl⟩ := Option.map_eq_some_iff.mp h
    obtain ⟨r, hr, rfl⟩ := Option.map_eq_some_iff.mp hcall
    exact ⟨ages_call _ hr hs, fun _ hmem ↦ .inl hmem⟩
  | view entityId connectionId input evidence =>
    obtain rfl := Option.some.inj h
    exact ⟨ages_reportView _ _ _ _ _ hs, fun _ hmem ↦ .inl hmem⟩
  | startRound attemptId =>
    obtain ⟨attempt, hattempt, rfl⟩ := Option.map_eq_some_iff.mp h
    have hget := (Option.filter_eq_some_iff.mp hattempt).1
    refine ⟨.refl hs, fun round hmem ↦ ?_⟩
    rcases List.mem_append.mp hmem with hmem | hmem
    · exact .inl hmem
    · obtain rfl := List.mem_singleton.mp hmem
      refine .inr ⟨rfl, ?_⟩
      rwa [(hs.routes.keyed attemptId attempt hget).1]
  | finishRound index answer stalled =>
    obtain ⟨round, -, rfl⟩ := Option.map_eq_some_iff.mp h
    exact ⟨ages_finishRound _ round answer stalled hs, fun _ hmem ↦ .inl (List.mem_of_mem_eraseIdx hmem)⟩

theorem Supervised.step (hs : Supervised ids s) (h : step epoch ids s e = some s') : Supervised ids s' := by
  obtain ⟨haged, hrounds⟩ := step_ages hs.lifecycle h
  refine ⟨haged.ok, fun round hmem ↦ ?_⟩
  rcases hrounds round hmem with hold | ⟨hsame, hget⟩
  · obtain ⟨hdrawn, hadvances⟩ := hs.rounds round hold
    refine ⟨hdrawn.mono haged.drawn, fun a' ha' ↦ ?_⟩
    -- The id of the round is not drawn again, so this is the attempt that was there.
    rcases haged.advanced _ a' ha' with ⟨a, ha, hadv⟩ | ⟨hnew, -⟩
    · exact (hadvances a ha).trans hadv
    · exact absurd hdrawn hnew
  · rw [hsame]
    refine ⟨(hs.lifecycle.routes.keyed _ _ hget).2, fun a ha ↦ ?_⟩
    exact Option.some.inj (hget.symm.trans ha) ▸ .refl _

theorem supervised_init : Supervised ids init := ⟨lifecycle_init, fun _ hmem ↦ nomatch hmem⟩

theorem supervised_of_reachable (h : Reachable (step epoch ids) anyStep init s) : Supervised ids s :=
  h.invariant supervised_init fun _ _ _ hs _ hstep ↦ hs.step hstep

theorem aged_of_run {es : List Event} : ∀ {s : SupervisedCoordinator}, Lifecycle ids s.coordinator.routes →
    run (step epoch ids) anyStep s es = some s' → Aged ids s.coordinator.routes s'.coordinator.routes := by
  induction es with
  | nil => exact fun hs h ↦ Option.some.inj h ▸ .refl hs
  | cons e es ih =>
    intro s hs h
    obtain ⟨t, ht, h⟩ := Option.bind_eq_some_iff.mp h
    have haged := (step_ages hs ht).1
    exact haged.trans (ih haged.ok h)

/-- Every attempt began as pending, at revision zero. -/
theorem moved_of_reachable (h : Reachable (step epoch ids) anyStep init s) :
    ∀ id a, s.coordinator.routes.attempts.get id = some a → Moved (.pending, 0) a.stage := by
  refine (h.invariant (I := fun s ↦ Lifecycle ids s.coordinator.routes ∧
    ∀ id a, s.coordinator.routes.attempts.get id = some a → Moved (.pending, 0) a.stage)
    ⟨lifecycle_init, fun id a (ha : none = some a) ↦ nomatch ha⟩ fun s s' e hs _ hstep ↦ ?_).2
  have haged := (step_ages hs.1 hstep).1
  refine ⟨haged.ok, fun id a' ha' ↦ ?_⟩
  rcases haged.advanced id a' ha' with ⟨a, ha, hadv⟩ | ⟨-, hmoved⟩
  · exact (hs.2 id a ha).trans hadv.moved
  · exact hmoved

/-- The attempts of the slot, other than its current one. -/
def formerAttempts (s : SupervisedCoordinator) (slotId : PanelSlotId) : JsMap JsString PanelAttempt :=
  s.coordinator.routes.attempts.filter fun p ↦
    decide (p.2.slotId = slotId ∧ s.coordinator.routes.currentAttemptBySlot.get slotId ≠ some p.1)

theorem formerAttempts_ended (hs : Lifecycle ids s.coordinator.routes) {slotId : PanelSlotId} {p : JsString × PanelAttempt}
    (hp : p ∈ s.formerAttempts slotId) : p.2.live = false ∧ p.1 ∈ s.coordinator.routes.historyOf slotId := by
  obtain ⟨hmem, hformer⟩ := List.mem_filter.mp hp
  obtain ⟨rfl, hne⟩ := of_decide_eq_true hformer
  exact (hs.retained.settled p.1 p.2 ((JsMap.mem_iff_get hs.retained.keys).mp hmem)).resolve_left hne

theorem length_formerAttempts (hs : Lifecycle ids s.coordinator.routes) (slotId : PanelSlotId) :
    (s.formerAttempts slotId).length ≤ ATTEMPT_HISTORY_LIMIT := by
  have hnodup : ((s.formerAttempts slotId).map Prod.fst).Nodup :=
    hs.retained.keys.sublist (List.filter_sublist.map Prod.fst)
  have hsubset : (s.formerAttempts slotId).map Prod.fst ⊆ s.coordinator.routes.historyOf slotId := by
    intro id hid
    obtain ⟨p, hp, rfl⟩ := List.mem_map.mp hid
    exact (formerAttempts_ended hs hp).2
  calc (s.formerAttempts slotId).length = ((s.formerAttempts slotId).map Prod.fst).length := by rw [List.length_map]
    _ ≤ (s.coordinator.routes.historyOf slotId).length := (hnodup.subperm hsubset).length_le
    _ ≤ ATTEMPT_HISTORY_LIMIT := hs.retained.limit slotId

/-- The lease of the entity is on the connection, which is bound to the attempt, and both are of one slot. -/
def RouteOf (s : PanelRuntimeCoordinator) (runtimeEntityId connectionId attemptId : JsString) : Prop :=
  ∃ lease attempt, s.leases.get runtimeEntityId = some lease ∧ lease.connectionId = connectionId ∧
    s.routes.routeBindings.get connectionId = some attemptId ∧ s.routes.attempts.get attemptId = some attempt ∧
    attempt.runtimeEntityId = runtimeEntityId ∧ attempt.slotId = lease.slotId

/-- **The lifecycle of attempts.** Whatever the order of operations, reports and probes: an attempt begins as pending
and only moves on, and each new phase has a larger revision; one that is not current has ended, and a slot keeps eight
of these; a report changes the attempt that it names or whose route it comes by, when its reporter may report it; and a
probe changes the attempt of its round, when that is still in the phase and at the revision it was started at. -/
theorem panel_attempt_lifecycle (epoch : JsString) (ids : RandomUuid) (s : SupervisedCoordinator)
    (h : Reachable (step epoch ids) anyStep init s) :
    (∀ id a, s.coordinator.routes.attempts.get id = some a → Moved (.pending, 0) a.stage) ∧
    (∀ es s', run (step epoch ids) anyStep s es = some s' → ∀ id a a', s.coordinator.routes.attempts.get id = some a →
      s'.coordinator.routes.attempts.get id = some a' → Advances a a' ∧ (a.live = false → a'.phase = a.phase)) ∧
    (∀ id a, s.coordinator.routes.attempts.get id = some a →
      s.coordinator.routes.currentAttemptBySlot.get a.slotId ≠ some id → a.live = false) ∧
    (∀ slotId, (s.formerAttempts slotId).length ≤ 8) ∧
    (∀ attemptId report now s', step epoch ids s (.call ⟨now, .reportAttemptPhase attemptId report⟩) = some s' →
      ∀ id, s'.coordinator.routes.attempts.get id ≠ s.coordinator.routes.attempts.get id →
        id = attemptId ∧ reporterAuthorized report = true) ∧
    (∀ entityId connectionId input evidence s',
      step epoch ids s (.view entityId connectionId input evidence) = some s' →
      ∀ id, s'.coordinator.routes.attempts.get id ≠ s.coordinator.routes.attempts.get id →
        RouteOf s.coordinator entityId connectionId id ∧
        ∃ attempt report, s.coordinator.routes.attempts.get id = some attempt ∧
          viewReport attempt input evidence = some report ∧ reporterAuthorized report = true) ∧
    (∀ index round answer stalled s', s.rounds[index]? = some round →
      step epoch ids s (.finishRound index answer stalled) = some s' →
      ∀ id, s'.coordinator.routes.attempts.get id ≠ s.coordinator.routes.attempts.get id →
        id = round.attempt.attemptId ∧ ∃ attempt, s.coordinator.routes.attempts.get id = some attempt ∧
          attempt.stage = round.attempt.stage ∧ attempt.live = true) := by
  have hs := supervised_of_reachable h
  refine ⟨moved_of_reachable h, fun es s' hrun id a a' ha ha' ↦ ?_, fun id a ha hne ↦ ?_,
    length_formerAttempts hs.lifecycle, fun attemptId report now s' hstep id hid ↦ ?_,
    fun entityId connectionId input evidence s' hstep id hid ↦ ?_,
    fun index round answer stalled s' hround hstep id hid ↦ ?_⟩
  · have hadvances := (aged_of_run hs.lifecycle hrun).advances hs.lifecycle ha ha'
    exact ⟨hadvances, hadvances.moved.of_ended⟩
  · exact ((hs.lifecycle.retained.settled id a ha).resolve_left hne).1
  · obtain rfl := Option.some.inj hstep
    obtain ⟨hsame, hauthorized, -⟩ := reportAttemptPhase_changes hs.lifecycle.routes hid
    exact ⟨hsame, hauthorized⟩
  · obtain rfl := Option.some.inj hstep
    obtain ⟨attempt, report, hviewed, hreport, rfl, hauthorized, -⟩ := reportView_changes hs.lifecycle.routes hid
    obtain ⟨lease, hlease, hconnection, hbound, hget, hentity, hslot⟩ :=
      (viewedAttempt_eq_some hs.lifecycle.routes).mp hviewed
    rw [hviewed, Option.bind_some] at hreport
    exact ⟨⟨lease, attempt, hlease, hconnection, hbound, hget, hentity, hslot⟩, attempt, report, hget, hreport,
      hauthorized⟩
  · obtain ⟨round', hround', rfl⟩ := Option.map_eq_some_iff.mp hstep
    obtain rfl := Option.some.inj (hround.symm.trans hround')
    obtain ⟨rfl, attempt, hget, hrevision, hlive⟩ := finishRound_changes hs.lifecycle hid
    have hadvances := (hs.rounds round (List.mem_of_getElem? hround)).2 attempt hget
    refine ⟨rfl, attempt, hget, ?_, hlive⟩
    rcases hadvances.moved with hstage | ⟨-, hlater⟩
    · exact hstage
    · exact absurd hrevision hlater.ne'

/-- A probe of an attempt that answers after the renderer has reported that it is ready. -/
def lateProbe : List Event :=
  oneLease.map .call ++ [.startRound (countingUuid.uuid 0),
    .view entityOne (lit "c1") ⟨some ⟨.ready, none⟩, none⟩ .renderer,
    .finishRound 0 (.answered (some ⟨none, some (.host, .navigation)⟩)) true]

theorem panel_attempt_lifecycle_lateProbe :
    ∃ s attempt, run (step (lit "e1") countingUuid) anyStep init lateProbe = some s ∧
      s.coordinator.routes.attempts.get (countingUuid.uuid 0) = some attempt ∧ attempt.stage = (.ready, 1) ∧
      Moved (.pending, 0) attempt.stage ∧ (s.formerAttempts slotOne).length ≤ 8 := by
  have hrun : (run (step (lit "e1") countingUuid) anyStep init lateProbe).map (fun s ↦
      decide ((s.coordinator.routes.attempts.get (countingUuid.uuid 0)).map PanelAttempt.stage =
        some (.ready, 1))) = some true := by decide +kernel
  obtain ⟨s, hs, hstage⟩ := Option.map_eq_some_iff.mp hrun
  obtain ⟨attempt, hget, hready⟩ := Option.map_eq_some_iff.mp (of_decide_eq_true hstage)
  obtain ⟨hmoved, -, -, hformer, -⟩ := panel_attempt_lifecycle (lit "e1") countingUuid s (Reachable.init.run hs)
  exact ⟨s, attempt, hs, hget, hready, hmoved _ attempt hget, hformer slotOne⟩

end SupervisedCoordinator

end Vibestudio.Server

import Mathlib
import Vibestudio.Server.PanelAttempts

/-!
# Routes of panel attempts

What the operations on attempts keep: the attempts are kept under their own ids, a slot's current attempt exists and
is one of that slot (`RoutesOk`), and a connection stays bound to the current attempt of its slot (`Bound`) unless it is
detached or the slot gets another attempt. `Kept` says this of an operation, for the connections and slots that it does
not concern, so that operations compose.
-/

namespace Vibestudio.Server.PanelAttempts

open Js Shared

/-- The connection is bound to the current attempt of the slot, which runs the entity. -/
def Bound (r : PanelAttempts) (connectionId : JsString) (slotId : PanelSlotId) (entityId : PanelEntityId) : Prop :=
  ∃ attemptId attempt, r.routeBindings.get connectionId = some attemptId ∧
    r.currentAttemptBySlot.get slotId = some attemptId ∧ r.attempts.get attemptId = some attempt ∧
    attempt.runtimeEntityId = entityId

/-- `attemptId` names an attempt of no other slot. -/
def OfSlot (r : PanelAttempts) (slotId : PanelSlotId) (attemptId : JsString) : Prop :=
  ∀ attempt, r.attempts.get attemptId = some attempt → attempt.slotId = slotId

structure RoutesOk (ids : RandomUuid) (r : PanelAttempts) : Prop where
  keyed : ∀ attemptId attempt, r.attempts.get attemptId = some attempt →
    attempt.attemptId = attemptId ∧ ids.Drawn r.drawn attemptId
  current : ∀ slotId attemptId, r.currentAttemptBySlot.get slotId = some attemptId →
    ∃ attempt, r.attempts.get attemptId = some attempt ∧ attempt.slotId = slotId
  history : ∀ slotId history, r.terminalHistoryBySlot.get slotId = some history → ∀ attemptId ∈ history,
    ids.Drawn r.drawn attemptId ∧ r.OfSlot slotId attemptId
  nodup : (JsMap.keys r.routeBindings).Nodup

/-- What an operation keeps, and for which connections and slots it keeps what they are bound to. -/
structure Kept (ids : RandomUuid) (apart : JsString → PanelSlotId → Prop) (r r' : PanelAttempts) : Prop where
  ok : RoutesOk ids r'
  bound : ∀ connectionId slotId entityId, apart connectionId slotId → r.Bound connectionId slotId entityId →
    r'.Bound connectionId slotId entityId
  drawn : r.drawn ≤ r'.drawn

variable {ids : RandomUuid} {r r' r'' : PanelAttempts} {apart apart' : JsString → PanelSlotId → Prop}
  {attempt : PanelAttempt} {attemptId connectionId : JsString} {slotId : PanelSlotId} {entityId : PanelEntityId}

theorem routesOk_init : RoutesOk ids init := ⟨nofun, nofun, nofun, List.nodup_nil⟩

theorem Kept.refl (h : RoutesOk ids r) : Kept ids apart r r := ⟨h, fun _ _ _ _ hb ↦ hb, le_rfl⟩

theorem Kept.trans (h : Kept ids apart r r') (h' : Kept ids apart r' r'') : Kept ids apart r r'' :=
  ⟨h'.ok, fun c slotId e ha hb ↦ h'.bound c slotId e ha (h.bound c slotId e ha hb), h.drawn.trans h'.drawn⟩

theorem Kept.of_imp (h : Kept ids apart r r') (himp : ∀ c slotId, apart' c slotId → apart c slotId) :
    Kept ids apart' r r' := ⟨h.ok, fun c slotId e ha ↦ h.bound c slotId e (himp c slotId ha), h.drawn⟩

theorem Kept.foldl {β : Type} {f : PanelAttempts → β → PanelAttempts} {P : PanelAttempts → List β → Prop}
    (hf : ∀ r b rest, RoutesOk ids r → P r (b :: rest) → Kept ids apart r (f r b) ∧ P (f r b) rest) :
    ∀ {l : List β} {r : PanelAttempts}, RoutesOk ids r → P r l → Kept ids apart r (l.foldl f r) := by
  intro l
  induction l with
  | nil => exact fun h _ ↦ .refl h
  | cons b l ih =>
    intro r h hP
    obtain ⟨hkept, hP'⟩ := hf r b l h hP
    exact hkept.trans (ih hkept.ok hP')

/-- No connection and slot is concerned. -/
def always (_ : JsString) (_ : PanelSlotId) : Prop := True

/-! ## Attempts that are written -/

theorem RoutesOk.currentAttempt (h : RoutesOk ids r) (hc : r.currentAttempt slotId = some attempt) :
    r.currentAttemptBySlot.get slotId = some attempt.attemptId ∧ r.attempts.get attempt.attemptId = some attempt ∧
      attempt.slotId = slotId := by
  obtain ⟨id, hid, hget⟩ := Option.bind_eq_some_iff.mp hc
  obtain ⟨attempt', hget', hslot⟩ := h.current slotId id hid
  obtain rfl := Option.some.inj (hget'.symm.trans hget)
  rw [(h.keyed id attempt' hget).1]
  exact ⟨hid, hget, hslot⟩

/-- An attempt is written over with the same slot and entity. -/
theorem RoutesOk.setAttempt (h : RoutesOk ids r) (hget : r.attempts.get attempt.attemptId = some attempt)
    {next : PanelAttempt} (hid : next.attemptId = attempt.attemptId) (hslot : next.slotId = attempt.slotId)
    (hentity : next.runtimeEntityId = attempt.runtimeEntityId) :
    Kept ids always r { r with attempts := r.attempts.set attempt.attemptId next } := by
  have hcases : ∀ id a, (r.attempts.set attempt.attemptId next).get id = some a →
      ∃ a', r.attempts.get id = some a' ∧ a.attemptId = a'.attemptId ∧ a.slotId = a'.slotId ∧
        a.runtimeEntityId = a'.runtimeEntityId := by
    intro id a ha
    rw [JsMap.get_set] at ha
    split_ifs at ha with heq
    · obtain rfl := Option.some.inj ha
      exact ⟨attempt, heq ▸ hget, hid, hslot, hentity⟩
    · exact ⟨a, ha, rfl, rfl, rfl⟩
  have hpresent : ∀ id a, r.attempts.get id = some a →
      ∃ a', (r.attempts.set attempt.attemptId next).get id = some a' ∧ a'.slotId = a.slotId ∧
        a'.runtimeEntityId = a.runtimeEntityId := by
    intro id a ha
    rw [JsMap.get_set]
    split_ifs with heq
    · obtain rfl := Option.some.inj (hget.symm.trans (heq ▸ ha))
      exact ⟨next, rfl, hslot, hentity⟩
    · exact ⟨a, ha, rfl, rfl⟩
  refine ⟨{ h with
    keyed := fun id a ha ↦ ?_
    current := fun slotId id hcur ↦ ?_
    history := fun slotId l hl id hmem ↦ ⟨(h.history slotId l hl id hmem).1, fun a ha ↦ ?_⟩ }, ?_, le_rfl⟩
  · obtain ⟨a', ha', hsame, -, -⟩ := hcases id a ha
    rw [hsame]
    exact h.keyed id a' ha'
  · obtain ⟨a, ha, hs⟩ := h.current slotId id hcur
    obtain ⟨a', ha', hs', -⟩ := hpresent id a ha
    exact ⟨a', ha', hs'.trans hs⟩
  · obtain ⟨a', ha', -, hs, -⟩ := hcases id a ha
    exact hs.trans ((h.history slotId l hl id hmem).2 a' ha')
  · rintro c slotId e - ⟨id, a, hb, hcur, ha, he⟩
    obtain ⟨a', ha', -, he'⟩ := hpresent id a ha
    exact ⟨id, a', hb, hcur, ha', he'.trans he⟩

theorem RoutesOk.transitionAttempt (h : RoutesOk ids r) (hget : r.attempts.get attempt.attemptId = some attempt)
    (report : AttemptReport) : Kept ids always r (r.transitionAttempt attempt report) :=
  h.setAttempt hget rfl rfl rfl

theorem RoutesOk.updateAttempt (h : RoutesOk ids r) (hget : r.attempts.get attempt.attemptId = some attempt)
    (hostConnectionId : JsString) : Kept ids always r (r.updateAttempt attempt hostConnectionId) :=
  h.setAttempt hget rfl rfl rfl

theorem RoutesOk.reportAttemptPhase (h : RoutesOk ids r) (attemptId : JsString) (report : AttemptReport) :
    Kept ids always r (r.reportAttemptPhase attemptId report).1 := by
  unfold PanelAttempts.reportAttemptPhase
  split
  · exact .refl h
  · rename_i attempt hget
    split_ifs
    · exact h.transitionAttempt (by rwa [(h.keyed attemptId attempt hget).1]) report
    · exact .refl h

theorem RoutesOk.supersede (h : RoutesOk ids r) (hget : r.attempts.get attempt.attemptId = some attempt)
    (reason : StopReason) : Kept ids always r (r.supersede attempt reason) := by
  unfold PanelAttempts.supersede
  split_ifs
  · exact h.transitionAttempt hget _
  · exact .refl h

/-- The attempt that is superseded is still there. -/
theorem exists_supersede (hget : r.attempts.get attempt.attemptId = some attempt) (reason : StopReason) :
    ∃ stored, (r.supersede attempt reason).attempts.get attempt.attemptId = some stored := by
  unfold PanelAttempts.supersede
  split_ifs
  · exact ⟨_, JsMap.get_set_self _ _ _⟩
  · exact ⟨attempt, hget⟩

/-! ## Attempts that are forgotten -/

/-- An attempt that is evicted is not the current one of any slot. -/
theorem RoutesOk.evict (h : RoutesOk ids r) (hslot : r.OfSlot slotId attemptId) :
    Kept ids always r (r.evict slotId attemptId) := by
  unfold PanelAttempts.evict
  split_ifs with hcurrent
  · exact .refl h
  · have hsub : ∀ id a, (r.attempts.delete attemptId).get id = some a → r.attempts.get id = some a := by
      intro id a ha
      rw [JsMap.get_delete] at ha
      split_ifs at ha
      exact ha
    -- A current attempt stays: if it were the evicted one its slot would be this one.
    have hstays : ∀ slotId' id, r.currentAttemptBySlot.get slotId' = some id →
        (r.attempts.delete attemptId).get id = r.attempts.get id := by
      intro slotId' id hcur
      rw [JsMap.get_delete, if_neg]
      rintro rfl
      obtain ⟨a, ha, hs⟩ := h.current slotId' id hcur
      rw [← hslot a ha, hs] at hcurrent
      exact hcurrent hcur
    refine ⟨{ h with
      keyed := fun id a ha ↦ h.keyed id a (hsub id a ha)
      current := fun slotId' id hcur ↦ ?_
      history := fun slotId' l hl id hmem ↦
        ⟨(h.history slotId' l hl id hmem).1, fun a ha ↦ (h.history slotId' l hl id hmem).2 a (hsub id a ha)⟩ }, ?_,
      le_rfl⟩
    · obtain ⟨a, ha, hs⟩ := h.current slotId' id hcur
      exact ⟨a, (hstays slotId' id hcur).trans ha, hs⟩
    · rintro c slotId' e - ⟨id, a, hb, hcur, ha, he⟩
      exact ⟨id, a, hb, hcur, (hstays slotId' id hcur).trans ha, he⟩

theorem OfSlot.evict {id : JsString} (h : r.OfSlot slotId id) : (r.evict slotId attemptId).OfSlot slotId id := by
  unfold PanelAttempts.evict
  split_ifs
  · exact h
  · intro a ha
    rw [JsMap.get_delete] at ha
    split_ifs at ha
    exact h a ha

theorem RoutesOk.rememberTerminal (h : RoutesOk ids r) {stored : PanelAttempt}
    (hget : r.attempts.get attempt.attemptId = some stored) : Kept ids always r (r.rememberTerminal attempt) := by
  obtain ⟨hid, hdrawn⟩ := h.keyed _ stored hget
  unfold PanelAttempts.rememberTerminal
  rw [hget]
  dsimp only [Option.getD_some]
  split_ifs
  · exact .refl h
  · -- What is remembered, and what is not any more, are attempts of this slot.
    have hnext : ∀ id ∈ stored.attemptId :: ((r.terminalHistoryBySlot.get stored.slotId).getD []).filter
        (fun id ↦ decide (id ≠ stored.attemptId)), ids.Drawn r.drawn id ∧ r.OfSlot stored.slotId id := by
      intro id hmem
      rcases List.mem_cons.mp hmem with rfl | hmem
      · rw [hid]
        refine ⟨hdrawn, fun a ha ↦ ?_⟩
        obtain rfl := Option.some.inj (hget.symm.trans ha)
        rfl
      · have hmem := List.mem_of_mem_filter hmem
        cases hhistory : r.terminalHistoryBySlot.get stored.slotId with
        | none =>
          rw [hhistory] at hmem
          exact absurd hmem List.not_mem_nil
        | some history =>
          rw [hhistory] at hmem
          exact h.history _ history hhistory id hmem
    generalize stored.attemptId :: ((r.terminalHistoryBySlot.get stored.slotId).getD []).filter
      (fun id ↦ decide (id ≠ stored.attemptId)) = next at hnext ⊢
    have hset : Kept ids always r { r with
        terminalHistoryBySlot := r.terminalHistoryBySlot.set stored.slotId (next.take ATTEMPT_HISTORY_LIMIT) } := by
      refine ⟨{ h with history := fun slotId' l hl id hmem ↦ ?_ }, fun _ _ _ _ hb ↦ hb, le_rfl⟩
      rw [JsMap.get_set] at hl
      split_ifs at hl with heq
      · obtain rfl := Option.some.inj hl
        rw [heq]
        exact hnext id (List.mem_of_mem_take hmem)
      · exact h.history slotId' l hl id hmem
    refine hset.trans (Kept.foldl (P := fun r l ↦ ∀ id ∈ l, r.OfSlot stored.slotId id)
      (fun r' id rest hr' hP ↦ ⟨hr'.evict (hP id List.mem_cons_self), fun id' hmem ↦ ?_⟩) hset.ok fun id hmem ↦ ?_)
    · exact (hP id' (List.mem_cons_of_mem _ hmem)).evict
    · exact (hnext id (List.mem_of_mem_drop hmem)).2

theorem RoutesOk.stopAttempt (h : RoutesOk ids r) (attemptId : JsString) (reason : StopReason) :
    Kept ids always r (r.stopAttempt attemptId reason).1 := by
  unfold PanelAttempts.stopAttempt
  split
  · exact .refl h
  · rename_i attempt hget
    have hget' : r.attempts.get attempt.attemptId = some attempt := by rwa [(h.keyed attemptId attempt hget).1]
    obtain ⟨stored, hstored⟩ := exists_supersede hget' reason
    have hstopped := h.supersede hget' reason
    exact hstopped.trans (hstopped.ok.rememberTerminal hstored)

/-! ## Connections -/

theorem RoutesOk.detachRoute (h : RoutesOk ids r) (connectionId : JsString) :
    Kept ids (fun c _ ↦ c ≠ connectionId) r (r.detachRoute connectionId) := by
  refine ⟨{ h with nodup := JsMap.nodup_keys_delete h.nodup _ }, ?_, le_rfl⟩
  rintro c slotId e hc ⟨id, a, hb, hcur, ha, he⟩
  refine ⟨id, a, ?_, hcur, ha, he⟩
  rw [PanelAttempts.detachRoute, JsMap.get_delete, if_neg hc]
  exact hb

theorem RoutesOk.closeLeaseConnection (h : RoutesOk ids r) (entityId : PanelEntityId) (connectionId : JsString)
    (reason : StopReason) : Kept ids always r (r.closeLeaseConnection entityId connectionId reason) :=
  ⟨{ h with }, fun _ _ _ _ hb ↦ hb, le_rfl⟩

theorem RoutesOk.stopRouteAttempt (h : RoutesOk ids r) (lease : PanelRuntimeLease) (reason : StopReason)
    (close : Bool) : Kept ids (fun c _ ↦ c ≠ lease.connectionId) r (r.stopRouteAttempt lease reason close) := by
  unfold PanelAttempts.stopRouteAttempt
  dsimp only
  generalize (r.routeBindings.get lease.connectionId <|> _) = attemptId
  have hstopped : Kept ids always r (attemptId.elim r fun attemptId ↦ (r.stopAttempt attemptId reason).1) := by
    cases attemptId with
    | none => exact .refl h
    | some attemptId => exact h.stopAttempt attemptId reason
  have hdetached := (hstopped.of_imp fun _ _ _ ↦ trivial).trans (hstopped.ok.detachRoute lease.connectionId)
  split_ifs
  · exact hdetached.trans ((hdetached.ok.closeLeaseConnection _ _ _).of_imp fun _ _ _ ↦ trivial)
  · exact hdetached

/-- The routes that are handed over are those of the attempt before: a connection that is bound to another one keeps
its route. -/
theorem RoutesOk.handOver (h : RoutesOk ids r) (previous : PanelAttempt) (input : CommitInput)
    (binding : JsString × JsString) :
    Kept ids (fun c _ ↦ binding.2 = previous.attemptId → c ≠ binding.1) r (r.handOver previous input binding) := by
  unfold PanelAttempts.handOver
  split_ifs with hother hsame
  · exact .refl h
  · exact (h.detachRoute binding.1).of_imp fun c _ hc ↦ hc (not_not.mp hother)
  · have hdetached : Kept ids (fun c _ ↦ binding.2 = previous.attemptId → c ≠ binding.1) r
        (r.detachRoute binding.1) :=
      (h.detachRoute binding.1).of_imp fun c _ hc ↦ hc (not_not.mp hother)
    exact hdetached.trans ((hdetached.ok.closeLeaseConnection _ _ _).of_imp fun _ _ _ ↦ trivial)

theorem handOver_tables (previous : PanelAttempt) (input : CommitInput) (binding : JsString × JsString) :
    (r.handOver previous input binding).attempts = r.attempts ∧
      ∀ c id, (r.handOver previous input binding).routeBindings.get c = some id → r.routeBindings.get c = some id := by
  have hdetach : ∀ c id, (r.routeBindings.delete binding.1).get c = some id → r.routeBindings.get c = some id := by
    intro c id hget
    rw [JsMap.get_delete] at hget
    split_ifs at hget
    exact hget
  unfold PanelAttempts.handOver
  split_ifs
  · exact ⟨rfl, fun _ _ hget ↦ hget⟩
  · exact ⟨rfl, hdetach⟩
  · exact ⟨rfl, hdetach⟩

/-- What is bound to the current attempt of another slot is not handed over. -/
theorem RoutesOk.handOver_foldl (h : RoutesOk ids r) {previous stored : PanelAttempt}
    (hget : r.attempts.get previous.attemptId = some stored) (hslot : stored.slotId = slotId) (input : CommitInput) :
    Kept ids (fun _ slotId' ↦ slotId' ≠ slotId) r (r.routeBindings.foldl (PanelAttempts.handOver previous input) r) := by
  refine Kept.foldl (P := fun r l ↦ r.attempts.get previous.attemptId = some stored ∧
    ∀ p ∈ l, ∀ id, r.routeBindings.get p.1 = some id → id = p.2) (fun r b rest hr hP ↦ ?_) h ⟨hget, fun p hp id hid ↦ ?_⟩
  · obtain ⟨hattempts, hbindings⟩ := handOver_tables (r := r) previous input b
    have hkept := hr.handOver previous input b
    refine ⟨⟨hkept.ok, fun c slotId' e ha hb ↦ hkept.bound c slotId' e (fun hb2 hc ↦ ?_) hb, hkept.drawn⟩, ?_, ?_⟩
    · -- Such a connection would be bound to the attempt before, which is of this slot.
      obtain ⟨id, a, hbound, hcur, -, -⟩ := hb
      obtain rfl := hP.2 b List.mem_cons_self id (hc ▸ hbound)
      obtain ⟨a', ha', hs⟩ := hr.current slotId' _ hcur
      rw [hb2, hP.1] at ha'
      obtain rfl := Option.some.inj ha'
      exact ha (hs.symm.trans hslot)
    · rw [hattempts]
      exact hP.1
    · exact fun p hp id hid ↦ hP.2 p (List.mem_cons_of_mem _ hp) id (hbindings p.1 id hid)
  · exact Option.some.inj (hid.symm.trans ((JsMap.mem_iff_get h.nodup).mp hp))

theorem foldl_handOver_attempts (previous : PanelAttempt) (input : CommitInput) (l : List (JsString × JsString)) :
    ∀ {r : PanelAttempts}, (l.foldl (PanelAttempts.handOver previous input) r).attempts = r.attempts := by
  induction l with
  | nil => exact rfl
  | cons b l ih => exact ih.trans (handOver_tables previous input b).1

theorem slotId_supersede (hget : r.attempts.get attempt.attemptId = some attempt) {reason : StopReason}
    {stored : PanelAttempt} (hstored : (r.supersede attempt reason).attempts.get attempt.attemptId = some stored) :
    stored.slotId = attempt.slotId := by
  unfold PanelAttempts.supersede at hstored
  split_ifs at hstored
  · rw [PanelAttempts.transitionAttempt, JsMap.get_set_self] at hstored
    exact Option.some.inj hstored ▸ rfl
  · exact Option.some.inj (hstored.symm.trans hget) ▸ rfl

theorem RoutesOk.retirePrevious (h : RoutesOk ids r) (hget : r.attempts.get attempt.attemptId = some attempt)
    (input : CommitInput) :
    Kept ids (fun _ slotId' ↦ slotId' ≠ attempt.slotId) r (r.retirePrevious attempt input) := by
  obtain ⟨stored, hstored⟩ := exists_supersede hget .superseded
  have hstopped := h.supersede hget .superseded
  have hhanded := hstopped.ok.handOver_foldl hstored (slotId_supersede hget hstored) input
  have hstored' : ((r.supersede attempt .superseded).routeBindings.foldl (PanelAttempts.handOver attempt input)
      (r.supersede attempt .superseded)).attempts.get attempt.attemptId = some stored := by
    rw [foldl_handOver_attempts]
    exact hstored
  have hremembered := hhanded.ok.rememberTerminal hstored'
  exact ((hstopped.of_imp fun _ _ _ ↦ trivial).trans hhanded).trans (hremembered.of_imp fun _ _ _ ↦ trivial)

/-! ## Attempts that are committed -/

/-- A new attempt becomes the current one of its slot. -/
theorem RoutesOk.commit (h : RoutesOk ids r) (hid : attempt.attemptId = ids.uuid r.drawn) :
    Kept ids (fun _ slotId' ↦ slotId' ≠ attempt.slotId) r { r with
      attempts := r.attempts.set attempt.attemptId attempt
      currentAttemptBySlot := r.currentAttemptBySlot.set attempt.slotId attempt.attemptId
      drawn := r.drawn + 1 } := by
  have hfresh : ∀ id, ids.Drawn r.drawn id → id ≠ attempt.attemptId := by
    rintro id hdrawn rfl
    exact ids.not_drawn r.drawn (hid ▸ hdrawn)
  have hold : ∀ id a, r.attempts.get id = some a →
      (r.attempts.set attempt.attemptId attempt).get id = some a := by
    intro id a ha
    rw [JsMap.get_set, if_neg (hfresh id (h.keyed id a ha).2)]
    exact ha
  refine ⟨⟨fun id a ha ↦ ?_, fun slotId id hcur ↦ ?_, fun slotId l hl id hmem ↦ ?_, h.nodup⟩, ?_, Nat.le_succ _⟩
  · rw [JsMap.get_set] at ha
    split_ifs at ha with heq
    · obtain rfl := Option.some.inj ha
      refine ⟨heq.symm, ?_⟩
      rw [heq, hid]
      exact ids.drawn_append [] r.drawn
    · obtain ⟨hsame, hdrawn⟩ := h.keyed id a ha
      exact ⟨hsame, hdrawn.mono (Nat.le_succ _)⟩
  · rw [JsMap.get_set] at hcur
    split_ifs at hcur with heq
    · obtain rfl := Option.some.inj hcur
      exact ⟨attempt, JsMap.get_set_self _ _ _, heq.symm⟩
    · obtain ⟨a, ha, hs⟩ := h.current slotId id hcur
      exact ⟨a, hold id a ha, hs⟩
  · obtain ⟨hdrawn, hslot⟩ := h.history slotId l hl id hmem
    refine ⟨hdrawn.mono (Nat.le_succ _), fun a ha ↦ ?_⟩
    rw [JsMap.get_set, if_neg (hfresh id hdrawn)] at ha
    exact hslot a ha
  · rintro c slotId e hne ⟨id, a, hb, hcur, ha, he⟩
    refine ⟨id, a, hb, ?_, hold id a ha, he⟩
    rw [JsMap.get_set, if_neg hne]
    exact hcur

theorem RoutesOk.bindRoute (h : RoutesOk ids r) (connectionId : Option JsString) (attemptId : JsString) :
    Kept ids (fun c _ ↦ connectionId.filter (fun id ↦ decide (id ≠ [])) ≠ some c) r
      (r.bindRoute connectionId attemptId) := by
  unfold PanelAttempts.bindRoute
  split
  · exact .refl h
  · rename_i c hc
    refine ⟨{ h with nodup := JsMap.nodup_keys_set h.nodup _ _ }, ?_, le_rfl⟩
    rintro c' slotId e hne ⟨id, a, hb, hcur, ha, he⟩
    refine ⟨id, a, ?_, hcur, ha, he⟩
    rw [JsMap.get_set, if_neg]
    · exact hb
    · rintro rfl
      exact hne hc

/-- A connection that may be bound to the new attempt. -/
def binds (connectionId : Option JsString) (c : JsString) : Prop :=
  connectionId.filter (fun id ↦ decide (id ≠ [])) = some c

theorem bindRoute_tables (r : PanelAttempts) (connection : Option JsString) (attemptId : JsString) :
    (r.bindRoute connection attemptId).attempts = r.attempts ∧
      (r.bindRoute connection attemptId).currentAttemptBySlot = r.currentAttemptBySlot ∧
      ∀ c, binds connection c → (r.bindRoute connection attemptId).routeBindings.get c = some attemptId := by
  unfold PanelAttempts.bindRoute
  split
  · rename_i hnone
    exact ⟨rfl, rfl, fun c hc ↦ (by cases hnone.symm.trans hc)⟩
  · rename_i c hc
    refine ⟨rfl, rfl, fun c' hc' ↦ ?_⟩
    obtain rfl := Option.some.inj (hc.symm.trans hc')
    exact JsMap.get_set_self _ _ _

theorem RoutesOk.retired (h : RoutesOk ids r) (slotId : PanelSlotId) (input : CommitInput) :
    Kept ids (fun _ slotId' ↦ slotId' ≠ slotId) r
      ((r.currentAttempt slotId).elim r fun previous ↦ r.retirePrevious previous input) := by
  cases hcurrent : r.currentAttempt slotId with
  | none => exact .refl h
  | some previous =>
    obtain ⟨-, hget, rfl⟩ := h.currentAttempt hcurrent
    exact h.retirePrevious hget input

/-- **A commit**: other slots keep their routes, and the connection is bound to the new attempt. -/
theorem RoutesOk.commitAttempt (h : RoutesOk ids r) (slotId : PanelSlotId) (input : CommitInput) :
    Kept ids (fun c slotId' ↦ slotId' ≠ slotId ∧ ¬ binds input.connectionId c) r
      (r.commitAttempt ids slotId input).1 ∧
    ∀ c, binds input.connectionId c →
      (r.commitAttempt ids slotId input).1.Bound c slotId input.runtimeEntityId := by
  have hretired := h.retired slotId input
  unfold PanelAttempts.commitAttempt
  dsimp only
  generalize (r.currentAttempt slotId).elim r (fun previous ↦ r.retirePrevious previous input) = retired at hretired ⊢
  generalize hattempt : (⟨ids.uuid retired.drawn, slotId, input.runtimeEntityId,
    input.hostConnectionId.filter fun id ↦ decide (id ≠ []), .pending, 0, .coordinator, none, none⟩ :
    PanelAttempt) = attempt
  have hid : attempt.attemptId = ids.uuid retired.drawn := hattempt ▸ rfl
  have hslot : attempt.slotId = slotId := hattempt ▸ rfl
  have hentity : attempt.runtimeEntityId = input.runtimeEntityId := hattempt ▸ rfl
  rw [← hid]
  have hcommitted := hretired.ok.commit hid
  rw [hslot] at hcommitted
  have hbound := hcommitted.ok.bindRoute input.connectionId attempt.attemptId
  refine ⟨?_, fun c hc ↦ ?_⟩
  · exact ((hretired.of_imp fun _ _ ha ↦ ha.1).trans (hcommitted.of_imp fun _ _ ha ↦ ha.1)).trans
      (hbound.of_imp fun _ _ ha ↦ ha.2)
  obtain ⟨hattempts, hcurrent, hbindings⟩ := bindRoute_tables { retired with
    attempts := retired.attempts.set attempt.attemptId attempt
    currentAttemptBySlot := retired.currentAttemptBySlot.set slotId attempt.attemptId
    drawn := retired.drawn + 1 } input.connectionId attempt.attemptId
  refine ⟨attempt.attemptId, attempt, hbindings c hc, ?_, ?_, hentity⟩
  · rw [hcurrent]
    exact JsMap.get_set_self _ _ _
  · rw [hattempts]
    exact JsMap.get_set_self _ _ _

/-- **A lease is attached**: other slots keep their routes, unless it takes the connection of one, and its own
connection is bound. -/
theorem RoutesOk.attach (h : RoutesOk ids r) (lease : PanelRuntimeLease) (previous : Option PanelRuntimeLease) :
    Kept ids (fun c slotId' ↦ slotId' ≠ lease.slotId ∧ c ≠ lease.connectionId) r (r.attach ids lease previous) ∧
    (lease.connectionId ≠ [] ∨ r.reusesCurrentMaterialization lease.slotId lease.runtimeEntityId previous
      lease.connectionId = true →
      (r.attach ids lease previous).Bound lease.connectionId lease.slotId lease.runtimeEntityId) := by
  unfold PanelAttempts.attach
  split
  · rename_i hnone
    obtain ⟨hkept, hbound⟩ := h.commitAttempt lease.slotId
      ⟨lease.runtimeEntityId, lease.hostConnectionId, lease.connectionId⟩
    refine ⟨hkept.of_imp fun c slotId' ha ↦ ⟨ha.1, fun hc ↦ ?_⟩, fun hname ↦ hbound _ ?_⟩
    · exact ha.2 (Option.some.inj (Option.filter_eq_some_iff.mp hc).1).symm
    · rcases hname with hname | hreuses
      · exact Option.filter_eq_some_iff.mpr ⟨rfl, decide_eq_true hname⟩
      · -- There is a current attempt to continue, so the filter has one.
        have hhealthy := (Bool.and_eq_true_iff.mp hreuses).1
        rw [healthy, Option.any_eq_true_iff_get] at hhealthy
        obtain ⟨hsome, -⟩ := hhealthy
        obtain ⟨a, ha⟩ := Option.isSome_iff_exists.mp hsome
        rw [ha, hreuses] at hnone
        exact nomatch hnone
  · rename_i reused hreused
    obtain ⟨hcurrent, hreuses⟩ := Option.filter_eq_some_iff.mp hreused
    obtain ⟨hid, hget, -⟩ := h.currentAttempt hcurrent
    have hupdated := h.updateAttempt hget lease.hostConnectionId
    refine ⟨⟨{ hupdated.ok with nodup := JsMap.nodup_keys_set hupdated.ok.nodup _ _ }, ?_, hupdated.drawn⟩, fun _ ↦ ?_⟩
    · rintro c slotId' e ha hb
      obtain ⟨id, a, hb, hcur, hget', he⟩ := hupdated.bound c slotId' e trivial hb
      refine ⟨id, a, ?_, hcur, hget', he⟩
      rw [JsMap.get_set, if_neg ha.2]
      exact hb
    · refine ⟨reused.attemptId, { reused with hostConnectionId := some lease.hostConnectionId },
        JsMap.get_set_self _ _ _, hid, JsMap.get_set_self _ _ _, ?_⟩
      have hhealthy := (Bool.and_eq_true_iff.mp hreuses).1
      rw [healthy, hcurrent, Option.any_some, Bool.and_eq_true, decide_eq_true_iff] at hhealthy
      exact hhealthy.1

theorem RoutesOk.draw (h : RoutesOk ids r) :
    Kept ids always r { r with drawn := r.drawn + 1 } := by
  refine ⟨{ h with
    keyed := fun id a ha ↦ ⟨(h.keyed id a ha).1, (h.keyed id a ha).2.mono (Nat.le_succ _)⟩
    history := fun slotId l hl id hmem ↦
      ⟨(h.history slotId l hl id hmem).1.mono (Nat.le_succ _), (h.history slotId l hl id hmem).2⟩ }, ?_, Nat.le_succ _⟩
  exact fun _ _ _ _ hb ↦ hb

end Vibestudio.Server.PanelAttempts

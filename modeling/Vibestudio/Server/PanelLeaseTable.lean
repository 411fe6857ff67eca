import Mathlib
import Vibestudio.Server.PanelLeaseEvents
import Vibestudio.Server.PanelRoutes

/-!
# The panel lease table

What the leases of the panel runtime coordinator are meant to be (`LeaseTable`): one for each slot, of a session that is
registered, pinned exactly when the slot is, with an expiry exactly when something will end it, and on a connection that
is bound to the current attempt of the slot. It holds as long as no lease is written into a slot that another entity
has, or on a connection that is another lease's or has no name, no lease is revoked in vain, no pin is taken from
an expiring lease whose timer is gone, and no attempt is committed behind the back of a lease (`settled`).
-/

namespace Vibestudio.Server.PanelRuntimeCoordinator

open Js Shared Transition PanelAttempts

/-- A timer that will release the lease. -/
def timerPending (s : PanelRuntimeCoordinator) (entityId : PanelEntityId) (lease : PanelRuntimeLease) : Prop :=
  s.expiryTimers.get entityId = some ⟨lease.connectionId, true⟩

/-- The table of the leases. -/
structure LeaseTable (s : PanelRuntimeCoordinator) : Prop where
  oneLease : s.OneLeaseASlot
  registered : ∀ e l, s.leases.get e = some l → (s.clients.get l.clientSessionId).isSome = true
  kept : ∀ e l, s.leases.get e = some l → l.keepLoaded = some (decide (l.slotId ∈ s.keptLoadedSlots))
  expiring : ∀ e l, s.leases.get e = some l → l.expiresAt ≠ none → s.timerPending e l ∨ l.slotId ∈ s.keptLoadedSlots
  timed : ∀ e timer, s.expiryTimers.get e = some timer →
    ∃ l, s.leases.get e = some l ∧ l.expiresAt ≠ none ∧ s.timerPending e l
  bound : ∀ e l, s.leases.get e = some l → s.routes.Bound l.connectionId l.slotId e

/-- The table, without what `Basic` says, and with what keeps it. The route of one entity may be lost. -/
structure Table (ids : RandomUuid) (lost : Option PanelEntityId) (s : PanelRuntimeCoordinator) : Prop where
  oneLease : s.OneLeaseASlot
  kept : ∀ e l, s.leases.get e = some l → l.keepLoaded = some (decide (l.slotId ∈ s.keptLoadedSlots))
  expiring : ∀ e l, s.leases.get e = some l → l.expiresAt ≠ none → s.timerPending e l ∨ l.slotId ∈ s.keptLoadedSlots
  timed : ∀ e timer, s.expiryTimers.get e = some timer →
    ∃ l, s.leases.get e = some l ∧ l.expiresAt ≠ none ∧ s.timerPending e l
  bound : ∀ e l, s.leases.get e = some l → lost ≠ some e → s.routes.Bound l.connectionId l.slotId e
  connections : ∀ e l e' l', s.leases.get e = some l → s.leases.get e' = some l' →
    l'.connectionId = l.connectionId → e' = e
  drawn : ∀ e l, s.leases.get e = some l → ids.Drawn s.routes.drawn l.connectionId
  routes : RoutesOk ids s.routes

variable {ids : RandomUuid} {epoch : JsString} {now : ℕ} {lost : Option PanelEntityId}
  {base : List PanelRuntimeLeaseChangedEvent} {retired : List JsString} {s : PanelRuntimeCoordinator}
  {l : PanelRuntimeLease} {entityId : PanelEntityId} {slotId : PanelSlotId}

theorem table_init : Table ids none init := by
  have hnone : ∀ {α : Type} {e : PanelEntityId} {a : α}, JsMap.get e ([] : JsMap PanelEntityId α) ≠ some a :=
    fun h ↦ nomatch h
  constructor
  · exact fun _ _ _ _ h ↦ absurd h hnone
  · exact fun _ _ h ↦ absurd h hnone
  · exact fun _ _ h ↦ absurd h hnone
  · exact fun _ _ h ↦ absurd h hnone
  · exact fun _ _ h ↦ absurd h hnone
  · exact fun _ _ _ _ h ↦ absurd h hnone
  · exact fun _ _ h ↦ absurd h hnone
  · exact routesOk_init

theorem Table.leaseTable (h : Table ids none s) (hB : Basic base [] s) : LeaseTable s :=
  { h with
    registered := fun e l hl ↦ (hB.registered e l hl).resolve_left List.not_mem_nil
    bound := fun e l hl ↦ h.bound e l hl nofun }

theorem Table.lose (h : Table ids none s) (entityId : PanelEntityId) : Table ids (some entityId) s :=
  { h with bound := fun e l hl _ ↦ h.bound e l hl nofun }

theorem Table.emit (h : Table ids lost s) (e : PanelEntityId) (slotId : PanelSlotId)
    (previous next : Option PanelRuntimeLease) (reason : PanelRuntimeLeaseChangedReason) :
    Table ids lost (s.emitChange epoch e slotId previous next reason) := { h with }

/-- Attempts change, and no lease's route with them. -/
theorem Table.setRoutes (h : Table ids lost s) {r : PanelAttempts} {apart : JsString → PanelSlotId → Prop}
    (hkept : PanelAttempts.Kept ids apart s.routes r)
    (hapart : ∀ e l, s.leases.get e = some l → lost ≠ some e → apart l.connectionId l.slotId) :
    Table ids lost { s with routes := r } :=
  { h with
    bound := fun e l hl he ↦ hkept.bound _ _ _ (hapart e l hl he) (h.bound e l hl he)
    drawn := fun e l hl ↦ (h.drawn e l hl).mono hkept.drawn
    routes := hkept.ok }

theorem get_delete_some {α β : Type} [DecidableEq α] {m : JsMap α β} {k k' : α} {v : β}
    (h : (m.delete k).get k' = some v) : k' ≠ k ∧ m.get k' = some v := by
  rw [JsMap.get_delete] at h
  split_ifs at h with hk
  exact ⟨hk, h⟩

/-- **A lease is removed.** -/
theorem Table.removeLease (h : Table ids none s) (hl : s.leases.get l.runtimeEntityId = some l) (stop : StopReason)
    (close : Bool) : Table ids none (s.removeLease l stop close) := by
  have hkept := h.routes.stopRouteAttempt l stop close
  have hother : ∀ e l', (s.leases.delete l.runtimeEntityId).get e = some l' → l'.connectionId ≠ l.connectionId :=
    fun e l' hget hc ↦ (get_delete_some hget).1 (h.connections _ l e l' hl (get_delete_some hget).2 hc)
  have htimer : ∀ e l', e ≠ l.runtimeEntityId →
      (s.timerPending e l' ↔ (s.removeLease l stop close).timerPending e l') := by
    intro e l' he
    rw [timerPending, timerPending, PanelRuntimeCoordinator.removeLease, clearExpiry, JsMap.get_delete, if_neg he]
  constructor
  · exact fun e l₁ e' l₂ h₁ h₂ hs ↦ h.oneLease e l₁ e' l₂ (get_delete_some h₁).2 (get_delete_some h₂).2 hs
  · exact fun e l' hget ↦ h.kept e l' (get_delete_some hget).2
  · intro e l' hget he
    exact (h.expiring e l' (get_delete_some hget).2 he).imp_left (htimer e l' (get_delete_some hget).1).mp
  · intro e timer hget
    obtain ⟨hne, hget⟩ := get_delete_some hget
    obtain ⟨l', hl', he, hpending⟩ := h.timed e timer hget
    refine ⟨l', ?_, he, (htimer e l' hne).mp hpending⟩
    change (s.leases.delete _).get e = some l'
    rw [JsMap.get_delete, if_neg hne]
    exact hl'
  · exact fun e l' hget _ ↦ hkept.bound _ _ _ (hother e l' hget) (h.bound e l' (get_delete_some hget).2 (by rintro ⟨⟩))
  · exact fun e l₁ e' l₂ h₁ h₂ hc ↦ h.connections e l₁ e' l₂ (get_delete_some h₁).2 (get_delete_some h₂).2 hc
  · exact fun e l' hget ↦ (h.drawn e l' (get_delete_some hget).2).mono hkept.drawn
  · exact hkept.ok

theorem Table.dropLease (h : Table ids none s) (epoch : JsString) (hl : s.leases.get l.runtimeEntityId = some l) (stop : StopReason)
    (close : Bool) (reason : PanelRuntimeLeaseChangedReason) :
    Table ids none (s.dropLease epoch l stop close reason) := (h.removeLease hl stop close).emit _ _ _ _ _

theorem get_set_cases {α β : Type} [DecidableEq α] {m : JsMap α β} {k k' : α} {v w : β}
    (h : (m.set k v).get k' = some w) : k' = k ∧ w = v ∨ k' ≠ k ∧ m.get k' = some w := by
  rw [JsMap.get_set] at h
  split_ifs at h with hk
  · exact .inl ⟨hk, (Option.some.inj h).symm⟩
  · exact .inr ⟨hk, h⟩

/-- No other lease is on the connection. -/
def freshConnection (s : PanelRuntimeCoordinator) (entityId : PanelEntityId) (connectionId : JsString) : Bool :=
  s.leases.all fun p ↦ decide (p.2.connectionId = connectionId → p.1 = entityId)

theorem Basic.freshConnection_iff (hB : Basic base retired s) {connectionId : JsString} :
    s.freshConnection entityId connectionId = true ↔
      ∀ e l, s.leases.get e = some l → l.connectionId = connectionId → e = entityId := by
  rw [freshConnection, List.all_eq_true]
  constructor
  · intro hall e l hget
    exact of_decide_eq_true (hall (e, l) ((JsMap.mem_iff_get hB.nodup).mpr hget))
  · rintro hall ⟨e, l⟩ hmem
    exact decide_eq_true (hall e l ((JsMap.mem_iff_get hB.nodup).mp hmem))

/-- The connection has a name, or the route of the current attempt is continued, which binds any. -/
def bindable (s : PanelRuntimeCoordinator) (slotId : PanelSlotId) (entityId : PanelEntityId)
    (connectionId : JsString) : Bool :=
  decide (connectionId ≠ []) ||
    s.routes.reusesCurrentMaterialization slotId entityId (s.leases.get entityId) connectionId

theorem detachPrevious_kept {r : PanelAttempts} (h : RoutesOk ids r) (previous : Option PanelRuntimeLease)
    (connectionId : JsString) :
    PanelAttempts.Kept ids (fun c _ ↦ ∀ l ∈ previous, c ≠ l.connectionId) r (detachPrevious r previous connectionId) ∧
      ∀ slotId e, (detachPrevious r previous connectionId).reusesCurrentMaterialization slotId e previous connectionId =
        r.reusesCurrentMaterialization slotId e previous connectionId := by
  unfold detachPrevious
  split
  · exact ⟨.refl h, fun _ _ ↦ rfl⟩
  · rename_i lease hlease
    obtain ⟨hprevious, -⟩ := Option.filter_eq_some_iff.mp hlease
    exact ⟨(h.detachRoute lease.connectionId).of_imp fun c _ hc ↦ hc lease hprevious, fun _ _ ↦ rfl⟩

/-- **A lease is written**, over another one of its entity whose route may be lost. -/
theorem Table.putLease (hB : Basic base retired s) (h : Table ids (some l.runtimeEntityId) s)
    (hfree : s.slotFree l.slotId l.runtimeEntityId = true)
    (hfresh : s.freshConnection l.runtimeEntityId l.connectionId = true)
    (hbind : s.bindable l.slotId l.runtimeEntityId l.connectionId = true)
    (hdrawn : ids.Drawn s.routes.drawn l.connectionId)
    (hkept : l.keepLoaded = some (decide (l.slotId ∈ s.keptLoadedSlots))) (hexpires : l.expiresAt = none)
    (reason : PanelRuntimeLeaseChangedReason) (defaultCdpLease : Bool) :
    Table ids none (s.putLease epoch ids l reason defaultCdpLease) := by
  have hfree := hB.slotFree_iff.mp hfree
  have hfresh := hB.freshConnection_iff.mp hfresh
  obtain ⟨hdetached, hreuses⟩ := detachPrevious_kept h.routes (s.leases.get l.runtimeEntityId) l.connectionId
  obtain ⟨hattached, hbound⟩ := hdetached.ok.attach l (s.leases.get l.runtimeEntityId)
  have hroutes := hdetached.drawn.trans hattached.drawn
  have htimer : ∀ e l', e ≠ l.runtimeEntityId → s.timerPending e l' →
      (s.expiryTimers.delete l.runtimeEntityId).get e = some ⟨l'.connectionId, true⟩ := by
    intro e l' he hpending
    rw [JsMap.get_delete, if_neg he]
    exact hpending
  refine Table.emit ?_ _ _ _ _ _
  constructor
  · intro e l₁ e' l₂ h₁ h₂ hs
    rcases get_set_cases h₁ with ⟨rfl, rfl⟩ | ⟨hne, hget₁⟩
    · rcases get_set_cases h₂ with ⟨rfl, rfl⟩ | ⟨-, h₂⟩
      · rfl
      · exact hfree e' l₂ h₂ hs
    · rcases get_set_cases h₂ with ⟨rfl, rfl⟩ | ⟨-, h₂⟩
      · exact absurd (hfree e l₁ hget₁ hs.symm) hne
      · exact h.oneLease e l₁ e' l₂ hget₁ h₂ hs
  · intro e l' hget
    rcases get_set_cases hget with ⟨-, rfl⟩ | ⟨-, hget⟩
    · exact hkept
    · exact h.kept e l' hget
  · intro e l' hget he
    rcases get_set_cases hget with ⟨-, rfl⟩ | ⟨hne, hget⟩
    · exact absurd hexpires he
    · exact (h.expiring e l' hget he).imp_left (htimer e l' hne)
  · intro e timer hget
    obtain ⟨hne, hget⟩ := get_delete_some hget
    obtain ⟨l', hl', he, hpending⟩ := h.timed e timer hget
    refine ⟨l', ?_, he, htimer e l' hne hpending⟩
    rw [JsMap.get_set, if_neg hne]
    exact hl'
  · intro e l' hget _
    rcases get_set_cases hget with ⟨rfl, rfl⟩ | ⟨hne, hget⟩
    · refine hbound ?_
      rw [hreuses]
      rwa [bindable, Bool.or_eq_true, decide_eq_true_iff] at hbind
    · -- Another lease has another slot and another connection, also than the lease that is replaced.
      refine hattached.bound _ _ _ ⟨fun hs ↦ hne (hfree e l' hget hs), fun hc ↦ hne (hfresh e l' hget hc)⟩ ?_
      refine hdetached.bound _ _ _ (fun lp hlp hc ↦ ?_) (h.bound e l' hget fun heq ↦ hne (Option.some.inj heq).symm)
      exact hne (h.connections _ lp e l' hlp hget hc)
  · intro e l₁ e' l₂ h₁ h₂ hc
    rcases get_set_cases h₁ with ⟨rfl, rfl⟩ | ⟨hne, hget₁⟩
    · rcases get_set_cases h₂ with ⟨rfl, rfl⟩ | ⟨-, h₂⟩
      · rfl
      · exact hfresh e' l₂ h₂ hc
    · rcases get_set_cases h₂ with ⟨rfl, rfl⟩ | ⟨-, h₂⟩
      · exact absurd (hfresh e l₁ hget₁ hc.symm) hne
      · exact h.connections e l₁ e' l₂ hget₁ h₂ hc
  · intro e l' hget
    rcases get_set_cases hget with ⟨-, rfl⟩ | ⟨-, hget⟩
    · exact hdrawn.mono hroutes
    · exact (h.drawn e l' hget).mono hroutes
  · exact hattached.ok

/-! ## Operations -/

theorem Table.withPanelSlotId {α : Type} (h : Table ids lost s) {slotId : JsString} {k : PanelSlotId → Outcome α}
    (hk : isPanelSlotId slotId = true → Table ids lost (k slotId).1) :
    Table ids lost (s.withPanelSlotId slotId k).1 := by
  unfold PanelRuntimeCoordinator.withPanelSlotId asPanelSlotId
  by_cases hslot : isPanelSlotId slotId = true
  · rw [if_pos hslot]
    exact hk hslot
  · rw [if_neg hslot]
    exact h

theorem Table.withPanelEntityId {α : Type} (h : Table ids lost s) {entityId : JsString}
    {k : PanelEntityId → Outcome α} (hk : isPanelEntityId entityId = true → Table ids lost (k entityId).1) :
    Table ids lost (s.withPanelEntityId entityId k).1 := by
  unfold PanelRuntimeCoordinator.withPanelEntityId asPanelEntityId
  by_cases hentity : isPanelEntityId entityId = true
  · rw [if_pos hentity]
    exact hk hentity
  · rw [if_neg hentity]
    exact h

/-- What a lease that is written on behalf of a host needs. -/
structure Settles (ids : RandomUuid) (s : PanelRuntimeCoordinator) (entityId : PanelEntityId)
    (input : PanelRuntimeLeaseRequest) : Prop where
  free : s.slotFree input.slotId entityId = true
  fresh : s.freshConnection entityId input.connectionId = true
  bindable : s.bindable input.slotId entityId input.connectionId = true
  drawn : ids.Drawn s.routes.drawn input.connectionId

theorem grant_table (hB : Basic base [] s) (h : Table ids (some entityId) s) {input : PanelRuntimeLeaseRequest}
    (hadmits : s.admits input = true) (hsettles : Settles ids s entityId input) :
    Table ids none (s.grant epoch ids now entityId input).1 := by
  rcases grant_cases s epoch ids now entityId input with ⟨hnot, -⟩ | ⟨-, client, -, v, hg⟩
  · exact absurd (hadmits.symm.trans hnot) Bool.noConfusion
  · rw [hg]
    refine Table.putLease hB ?_ ?_ ?_ ?_ ?_ rfl rfl _ _
    · exact h
    · exact hsettles.free
    · exact hsettles.fresh
    · exact hsettles.bindable
    · exact hsettles.drawn

theorem grant_fst_of_not_admits {input : PanelRuntimeLeaseRequest} (hadmits : s.admits input = false) :
    (s.grant epoch ids now entityId input).1 = s := by
  rcases grant_cases s epoch ids now entityId input with ⟨-, e, hg⟩ | ⟨hok, -⟩
  · rw [hg]
  · exact absurd (hok.symm.trans hadmits) Bool.noConfusion

/-- `grant` after which nothing has been revoked. -/
theorem grant_table_of_imp (hB : Basic base [] s) (h : Table ids none s) {input : PanelRuntimeLeaseRequest}
    (hsettles : s.admits input = true → Settles ids s entityId input) :
    Table ids none (s.grant epoch ids now entityId input).1 := by
  rcases hadmits : s.admits input with _ | _
  · rw [grant_fst_of_not_admits hadmits]
    exact h
  · exact grant_table hB (h.lose entityId) hadmits (hsettles hadmits)

theorem acquire_table (hB : Basic base [] s) (h : Table ids none s) (runtimeEntityId : JsString)
    (input : PanelRuntimeLeaseRequest) (hsettles : isPanelEntityId runtimeEntityId = true →
      s.acquireWrites runtimeEntityId input = true → s.admits input = true → Settles ids s runtimeEntityId input) :
    Table ids none (s.acquire epoch ids now runtimeEntityId input).1 := by
  refine h.withPanelEntityId fun hid ↦ ?_
  split
  · rename_i hnone
    exact grant_table_of_imp hB h (hsettles hid (by rw [acquireWrites, hnone]; rfl))
  · rename_i existing hl
    split_ifs with hclient
    · exact h
    · refine h.withPanelSlotId fun _ ↦ ?_
      split_ifs with hhealthy
      · exact h
      · refine grant_table_of_imp hB h (hsettles hid ?_)
        rw [acquireWrites, hl]
        exact decide_eq_true ⟨not_not.mp hclient, hhealthy⟩

/-- Another connection takes the lease over. -/
theorem Table.revoke (h : Table ids none s) (epoch : JsString) (hl : s.leases.get l.runtimeEntityId = some l) :
    Table ids (some l.runtimeEntityId) (s.revoke epoch l) := by
  refine Table.emit ?_ _ _ _ _ _
  refine (h.lose l.runtimeEntityId).setRoutes (h.routes.stopRouteAttempt l .superseded true) fun e l' hl' he hc ↦ ?_
  exact he (congrArg some (h.connections e l' _ l hl' hl hc.symm))

theorem takeOver_table (hB : Basic base [] s) (h : Table ids none s) (runtimeEntityId : JsString)
    (input : PanelRuntimeLeaseRequest)
    (hsettles : isPanelEntityId runtimeEntityId = true → s.admits input = true →
      Settles ids s runtimeEntityId input)
    (hrevoked : isPanelEntityId runtimeEntityId = true → s.revoked runtimeEntityId input ≠ none →
      s.admits input = true ∧ input.connectionId ≠ []) :
    Table ids none (s.takeOver epoch ids now runtimeEntityId input).1 := by
  by_cases hid : isPanelEntityId runtimeEntityId = true
  · rw [takeOver_eq hid]
    cases hexisting : s.revoked runtimeEntityId input with
    | none => exact grant_table_of_imp hB h (hsettles hid)
    | some existing =>
      have hl := get_of_revoked hexisting
      have hkey := hB.keyed _ _ hl
      obtain ⟨hadmits, hname⟩ := hrevoked hid (by rw [hexisting]; exact Option.some_ne_none _)
      have hs := hsettles hid hadmits
      have hT := h.revoke epoch (l := existing) (hkey.symm ▸ hl)
      rw [hkey] at hT
      refine grant_table (hB.revoke existing) hT hadmits ⟨hs.free, hs.fresh, ?_, hs.drawn.mono ?_⟩
      · rw [bindable, Bool.or_eq_true]
        exact .inl (decide_eq_true hname)
      · exact (h.routes.stopRouteAttempt existing .superseded true).drawn
  · simp only [takeOver, PanelRuntimeCoordinator.withPanelEntityId, asPanelEntityId, if_neg hid]
    exact h

/-- **A lease for a host that the coordinator has chosen**: its connection has a new name. -/
theorem assignHost_table (hB : Basic base [] s) (h : Table ids none s) {clientSessionId : JsString}
    (hclient : (s.clients.get clientSessionId).isSome = true) (hslot : isPanelSlotId slotId = true)
    (hfree : s.slotFree slotId entityId = true) (hostConnectionId connectionPrefix : JsString)
    (defaultCdpLease : Bool) : Table ids none (s.assignHost epoch ids now entityId slotId clientSessionId
      hostConnectionId connectionPrefix defaultCdpLease).1 := by
  obtain ⟨client, hget⟩ := Option.isSome_iff_exists.mp hclient
  have hB' : Basic base [] s.drawUuid := { hB with }
  have h' : Table ids none s.drawUuid := h.setRoutes h.routes.draw fun _ _ _ _ ↦ trivial
  rw [assignHost_eq hget hslot]
  refine Table.putLease hB' ?_ ?_ ?_ ?_ ?_ rfl rfl _ _
  · exact h'.lose entityId
  · exact hfree
  · refine hB'.freshConnection_iff.mpr fun e l hl hc ↦ ?_
    exact absurd (hc ▸ h.drawn e l hl) (ids.not_drawn_append _ _)
  · rw [bindable, Bool.or_eq_true]
    refine .inl (decide_eq_true fun hnil ↦ ?_)
    exact ids.uuid_ne_nil _ (List.append_eq_nil_iff.mp hnil).2
  · exact ids.drawn_append _ _

theorem assignDefaultCdpHost_table (hB : Basic base [] s) (h : Table ids none s)
    (hslot : isPanelSlotId slotId = true) (hfree : s.slotFree slotId entityId = true)
    (excludedHostConnectionId : JsString) :
    Table ids none (s.assignDefaultCdpHost epoch ids now entityId slotId excludedHostConnectionId).1 := by
  unfold assignDefaultCdpHost
  split
  · exact h
  · rename_i client hclient
    exact assignHost_table hB h (hB.get_client (mem_clients_of_getDefaultCdpHostClient hclient)) hslot hfree _ _ _

/-- The slot of a lease that is dropped is free. -/
theorem Table.slotFree_dropLease (h : Table ids none s) (hB : Basic base [] s)
    (hl : s.leases.get l.runtimeEntityId = some l) (entityId : PanelEntityId) (stop : StopReason) (close : Bool)
    (reason : PanelRuntimeLeaseChangedReason) :
    (s.dropLease epoch l stop close reason).slotFree l.slotId entityId = true :=
  (hB.dropLease _ l stop close reason).slotFree_iff.mpr fun _ _ hget hslot ↦
    absurd hslot (h.oneLease.removed hl hget)

/-- The leases change without their slots and connections, and the pins and timers with them. -/
theorem Table.change (h : Table ids none s) {s' : PanelRuntimeCoordinator}
    {f : PanelEntityId → PanelRuntimeLease → PanelRuntimeLease}
    (hget : ∀ e l', s'.leases.get e = some l' ↔ ∃ l, s.leases.get e = some l ∧ f e l = l')
    (hsame : ∀ e l, (f e l).slotId = l.slotId ∧ (f e l).connectionId = l.connectionId)
    (hroutes : PanelAttempts.Kept ids always s.routes s'.routes)
    (hkept : ∀ e l, s.leases.get e = some l →
      (f e l).keepLoaded = some (decide (l.slotId ∈ s'.keptLoadedSlots)))
    (hexpiring : ∀ e l, s.leases.get e = some l → (f e l).expiresAt ≠ none →
      s'.timerPending e l ∨ l.slotId ∈ s'.keptLoadedSlots)
    (htimed : ∀ e timer, s'.expiryTimers.get e = some timer →
      ∃ l, s.leases.get e = some l ∧ (f e l).expiresAt ≠ none ∧ s'.timerPending e l) : Table ids none s' := by
  have hpending : ∀ e l, s'.timerPending e (f e l) ↔ s'.timerPending e l := by
    intro e l
    rw [timerPending, timerPending, (hsame e l).2]
  constructor
  · intro e l₁ e' l₂ h₁ h₂ hs
    obtain ⟨l₁, hl₁, rfl⟩ := (hget e l₁).mp h₁
    obtain ⟨l₂, hl₂, rfl⟩ := (hget e' l₂).mp h₂
    rw [(hsame e l₁).1, (hsame e' l₂).1] at hs
    exact h.oneLease e l₁ e' l₂ hl₁ hl₂ hs
  · intro e l' hl'
    obtain ⟨l, hl, rfl⟩ := (hget e l').mp hl'
    rw [(hsame e l).1]
    exact hkept e l hl
  · intro e l' hl' he
    obtain ⟨l, hl, rfl⟩ := (hget e l').mp hl'
    rw [hpending, (hsame e l).1]
    exact hexpiring e l hl he
  · intro e timer htimer
    obtain ⟨l, hl, he, hp⟩ := htimed e timer htimer
    exact ⟨f e l, (hget e _).mpr ⟨l, hl, rfl⟩, he, (hpending e l).mpr hp⟩
  · intro e l' hl' _
    obtain ⟨l, hl, rfl⟩ := (hget e l').mp hl'
    rw [(hsame e l).1, (hsame e l).2]
    exact hroutes.bound _ _ _ trivial (h.bound e l hl nofun)
  · intro e l₁ e' l₂ h₁ h₂ hc
    obtain ⟨l₁, hl₁, rfl⟩ := (hget e l₁).mp h₁
    obtain ⟨l₂, hl₂, rfl⟩ := (hget e' l₂).mp h₂
    rw [(hsame e l₁).2, (hsame e' l₂).2] at hc
    exact h.connections e l₁ e' l₂ hl₁ hl₂ hc
  · intro e l' hl'
    obtain ⟨l, hl, rfl⟩ := (hget e l').mp hl'
    rw [(hsame e l).2]
    exact (h.drawn e l hl).mono hroutes.drawn
  · exact hroutes.ok

theorem release_table (hB : Basic base [] s) (h : Table ids none s) (runtimeEntityId connectionId : JsString)
    (reason : PanelRuntimeLeaseChangedReason) :
    Table ids none (s.release epoch ids now runtimeEntityId connectionId reason).1 := by
  refine h.withPanelEntityId fun _ ↦ ?_
  split
  · exact h
  · rename_i existing heq
    obtain ⟨hl, -⟩ := Option.filter_eq_some_iff.mp heq
    have hkey := hB.keyed _ _ hl
    have hl' : s.leases.get existing.runtimeEntityId = some existing := hkey.symm ▸ hl
    by_cases hkept : existing.slotId ∈ s.keptLoadedSlots
    · -- The lease of a pinned slot loses its timer only.
      rw [if_pos hkept]
      refine h.change (f := fun _ l ↦ l) (fun e l ↦ by simp [PanelRuntimeCoordinator.clearExpiry])
        (fun _ _ ↦ ⟨rfl, rfl⟩) (.refl h.routes) h.kept (fun e l hget he ↦ ?_) fun e timer hget ↦ ?_
      · by_cases hee : e = runtimeEntityId
        · subst hee
          obtain rfl := Option.some.inj (hl.symm.trans hget)
          exact .inr hkept
        · refine (h.expiring e l hget he).imp_left fun hp ↦ ?_
          rw [timerPending, PanelRuntimeCoordinator.clearExpiry, JsMap.get_delete, if_neg hee]
          exact hp
      · obtain ⟨hne, hget⟩ := get_delete_some hget
        obtain ⟨l, hl, he, hp⟩ := h.timed e timer hget
        refine ⟨l, hl, he, ?_⟩
        rw [timerPending, PanelRuntimeCoordinator.clearExpiry, JsMap.get_delete, if_neg hne]
        exact hp
    · rw [if_neg hkept]
      dsimp only
      generalize (if reason = .expired then StopReason.hostLost else .unloaded) = stop
      have hD := hB.dropLease epoch existing stop false reason
      have hT := h.dropLease epoch hl' stop false reason
      by_cases hreassign : (reason = .released ∨ reason = .expired) ∧
          shouldReassignDefaultCdpLease existing (s.wasDefaultCdpLease existing) = true
      · rw [if_pos hreassign]
        exact assignDefaultCdpHost_table hD hT (hB.slots _ _ hl) (h.slotFree_dropLease hB hl' _ _ _ _) _
      · rw [if_neg hreassign]
        exact hT

theorem unloadSlot_table (hB : Basic base [] s) (h : Table ids none s) (slotId : JsString) :
    Table ids none (s.unloadSlot epoch slotId).1 := by
  refine h.withPanelSlotId fun _ ↦ ?_
  split_ifs
  · exact h
  · split
    · rename_i lease hlease
      exact h.dropLease _ (hB.leaseForSlot hlease).1 _ _ _
    · split
      · exact h
      · rename_i attempt _
        exact h.setRoutes (h.routes.stopAttempt attempt.attemptId .unloaded) fun _ _ _ _ ↦ trivial

theorem adoptHostLeaseForSlot_table (hB : Basic base [] s) (h : Table ids none s)
    (slotId runtimeEntityId hostConnectionId : JsString) :
    Table ids none (s.adoptHostLeaseForSlot epoch ids now slotId runtimeEntityId hostConnectionId).1 := by
  refine h.withPanelSlotId fun hslot ↦ h.withPanelEntityId fun _ ↦ ?_
  split
  · exact h
  · rename_i hnone
    rw [Option.orElse_eq_orElse, Option.orElse_eq_or] at hnone
    obtain ⟨-, hfree⟩ := Option.or_eq_none_iff.mp hnone
    split
    · exact h
    · rename_i client hclient
      have hmem := List.mem_of_find?_eq_some (Option.filter_eq_some_iff.mp hclient).1
      exact assignHost_table hB h (hB.get_client hmem) hslot (hB.slotFree_of_leaseForSlot hfree _) _ _ _

theorem replaceCdpLease_table (hB : Basic base [] s) (h : Table ids none s)
    (hl : s.leases.get l.runtimeEntityId = some l) (options : DefaultCdpHostOptions) (hostSelection : HostSelection) :
    Table ids none (s.replaceCdpLease epoch ids now entityId l options hostSelection).1 := by
  unfold replaceCdpLease
  split
  · exact h
  · rename_i client hclient
    have hmem := mem_clients_of_getDefaultCdpHostClient (Option.filter_eq_some_iff.mp hclient).1
    refine assignHost_table (hB.dropLease _ l _ _ _) (h.dropLease _ hl _ _ _) ?_ (hB.slots _ _ hl)
      (h.slotFree_dropLease hB hl _ _ _ _) _ _ _
    exact hB.get_client hmem

theorem ensureHeldEntity_table (hB : Basic base [] s) (h : Table ids none s) (hl : s.leases.get entityId = some l)
    (options : DefaultCdpHostOptions) :
    Table ids none (s.ensureHeldEntity epoch ids now slotId entityId l options).1 := by
  unfold ensureHeldEntity
  split
  · exact h
  · exact replaceCdpLease_table hB h ((hB.keyed _ _ hl).symm ▸ hl) options _
  · exact h.emit _ _ _ _ _

theorem transferLease_table (hB : Basic base [] s) (h : Table ids none s)
    (hl : s.leases.get l.runtimeEntityId = some l) (wasDefaultCdpLease : Bool) :
    Table ids none ((s.removeLease l .superseded true).transferLease epoch ids now l.slotId l entityId
      wasDefaultCdpLease).1 := by
  have hR := hB.removeLease l .superseded true
  have hT := h.removeLease hl .superseded true
  have hfree : ∀ e l', (s.leases.delete l.runtimeEntityId).get e = some l' → l'.slotId ≠ l.slotId :=
    fun e l' hget ↦ h.oneLease.removed hl hget
  unfold transferLease
  split
  · exact hT.emit _ _ _ _ _
  · split_ifs
    · have hclient := (hB.registered _ _ hl).resolve_left List.not_mem_nil
      refine assignHost_table hR hT hclient (hB.slots _ _ hl) ?_ _ _ _
      exact hR.slotFree_iff.mpr fun e l' hget hslot ↦ absurd hslot (hfree e l' hget)
    · refine Table.emit ?_ _ _ _ _ _
      refine hT.setRoutes (hT.routes.commitAttempt l.slotId ⟨entityId, none, none⟩).1 fun e l' hl' _ ↦ ⟨?_, nofun⟩
      exact hfree e l' hl'

theorem replaceRuntimeEntityForSlot_table (hB : Basic base [] s) (h : Table ids none s)
    (slotId previousId nextId : JsString) :
    Table ids none (s.replaceRuntimeEntityForSlot epoch ids now slotId previousId nextId).1 := by
  refine h.withPanelSlotId fun _ ↦ h.withPanelEntityId fun _ ↦ h.withPanelEntityId fun _ ↦ ?_
  split_ifs
  · exact h
  · split
    · exact h
    · rename_i previous heq
      obtain ⟨hl, hslot⟩ := Option.filter_eq_some_iff.mp heq
      obtain rfl := of_decide_eq_true hslot
      exact transferLease_table hB h ((hB.keyed _ _ hl).symm ▸ hl) _

theorem advanceResidentSlotEntity_table (hB : Basic base [] s) (h : Table ids none s) (slotId nextId : JsString) :
    Table ids none (s.advanceResidentSlotEntity epoch ids now slotId nextId).1 := by
  refine h.withPanelSlotId fun _ ↦ h.withPanelEntityId fun _ ↦ ?_
  split
  · exact h
  · split_ifs
    · exact h
    · exact replaceRuntimeEntityForSlot_table hB h _ _ _

theorem ensureDefaultCdpHostForSlot_table (hB : Basic base [] s) (h : Table ids none s)
    (slotId runtimeEntityId : JsString) (options : DefaultCdpHostOptions) :
    Table ids none (s.ensureDefaultCdpHostForSlot epoch ids now slotId runtimeEntityId options).1 := by
  refine h.withPanelSlotId fun hslot ↦ h.withPanelEntityId fun _ ↦ ?_
  split
  · rename_i existing hl
    exact ensureHeldEntity_table hB h hl options
  · split
    · rename_i lease hlease
      unfold ensureHeldSlot
      split_ifs
      · exact h
      · exact replaceRuntimeEntityForSlot_table hB h _ _ _
      · exact replaceCdpLease_table hB h (hB.leaseForSlot hlease).1 options _
      · exact h
    · rename_i hfree
      split
      · exact h
      · rename_i client hclient
        exact assignHost_table hB h (hB.get_client (mem_clients_of_getDefaultCdpHostClient hclient)) hslot
          (hB.slotFree_of_leaseForSlot hfree _) _ _ _

theorem retireRuntimeEntity_table (hB : Basic base [] s) (h : Table ids none s) (entityId : JsString) :
    Table ids none (s.retireRuntimeEntity epoch entityId) := by
  unfold retireRuntimeEntity
  split_ifs
  · obtain ⟨hleases, hT⟩ : (s.retireHostHeld entityId).leases = s.leases ∧
        Table ids none (s.retireHostHeld entityId) := by
      unfold retireHostHeld
      split
      · exact ⟨rfl, h⟩
      · exact ⟨rfl, { h with routes := { h.routes with } }⟩
    dsimp only
    rw [hleases]
    have hdropped : Table ids none ((s.leases.get entityId).elim (s.retireHostHeld entityId) fun existing ↦
        (s.retireHostHeld entityId).dropLease epoch existing .retired true .retired) := by
      cases hl : s.leases.get entityId with
      | none => exact hT
      | some existing =>
        refine hT.dropLease _ ?_ _ _ _
        rw [hleases, hB.keyed _ _ hl]
        exact hl
    generalize ((s.leases.get entityId).elim (s.retireHostHeld entityId) fun existing ↦
      (s.retireHostHeld entityId).dropLease epoch existing .retired true .retired) = dropped at hdropped ⊢
    refine hdropped.setRoutes (?_ : PanelAttempts.Kept ids always dropped.routes _) fun _ _ _ _ ↦ trivial
    refine PanelAttempts.Kept.foldl (P := fun _ _ ↦ True) (fun r id rest hr _ ↦ ⟨?_, trivial⟩) hdropped.routes trivial
    unfold retireAttempt
    split
    · exact .refl hr
    · exact hr.stopAttempt id .retired
  · exact h

/-! ### Sessions that end -/

theorem unregisterClients_table (hB : Basic base [] s) (h : Table ids none s) (sessions : List JsString) :
    Table ids none (s.unregisterClients epoch ids now sessions).1 := by
  have hreleased := releasing_foldl epoch hB sessions
  obtain ⟨hnodup, hmem⟩ := hB.values
  have htable : Table ids none ((s.leases.map Prod.snd).foldl (releaseRetired epoch sessions)
      ({ s with clients := sessions.foldl JsMap.delete s.clients }, [])).1 := by
    refine foldl_leases (fun t : PanelRuntimeCoordinator × List (PanelRuntimeLease × Bool) ↦ t.1.leases) (P := fun _ t ↦ Table ids none t.1) (fun l rest t ht hl ↦ ?_) hnodup hmem
      { h with }
    unfold releaseRetired
    split_ifs
    · refine ⟨ht.dropLease _ hl _ _ _, fun e he ↦ ?_⟩
      change (t.1.leases.delete _).get e = _
      rw [JsMap.get_delete, if_neg he]
    · exact ⟨ht, fun _ _ ↦ rfl⟩
  -- The reassignments keep the table, since every lease is in the slot that its entity had.
  have hloop : ∀ (rest : List (PanelRuntimeLease × Bool)) (t : PanelRuntimeCoordinator),
      Reassigning base s rest t → Table ids none t →
      Table ids none (rest.foldl (reassignReleased epoch ids now) (t, .ok ())).1 := by
    intro rest
    induction rest with
    | nil => exact fun _ _ ht ↦ ht
    | cons p rest ih =>
      intro t hR ht
      obtain ⟨t₁, heq, hR₁, -⟩ := Reassigning.round epoch ids now hB hR
      rw [List.foldl_cons, heq]
      refine ih t₁ hR₁ ?_
      have hplaced := placed_iff.mp (hR.placed h.oneLease List.mem_cons_self)
      have hresult := congrArg Prod.fst heq
      unfold reassignReleased at hresult
      dsimp only at hresult
      split_ifs at hresult
      · rw [← hresult]
        exact assignDefaultCdpHost_table hR.basic ht (hB.slots _ _ (hR.waiting p List.mem_cons_self).1) hplaced.1 _
      · exact hresult ▸ ht
  exact hloop _ _ hreleased.reassigning htable

/-! ### Pins -/

/-- What `restampLease` makes of a lease. -/
def stamped (slotId : PanelSlotId) (keepLoaded : Bool) (lease : PanelRuntimeLease) : PanelRuntimeLease :=
  if lease.slotId ≠ slotId ∨ lease.kept = keepLoaded then lease else { lease with keepLoaded := some keepLoaded }

theorem stamped_same (slotId : PanelSlotId) (keepLoaded : Bool) (lease : PanelRuntimeLease) :
    (stamped slotId keepLoaded lease).slotId = lease.slotId ∧
      (stamped slotId keepLoaded lease).connectionId = lease.connectionId ∧
      (stamped slotId keepLoaded lease).runtimeEntityId = lease.runtimeEntityId ∧
      (stamped slotId keepLoaded lease).expiresAt = lease.expiresAt := by
  unfold stamped
  split_ifs
  · exact ⟨rfl, rfl, rfl, rfl⟩
  · exact ⟨rfl, rfl, rfl, rfl⟩

/-- **The leases are stamped**, one after the other, and nothing else changes but the events. -/
theorem restampSlotKeepLoaded_leases (epoch : JsString) (hB : Basic base [] s) (slotId : PanelSlotId) (keepLoaded : Bool) :
    (∀ e l', (s.restampSlotKeepLoaded epoch slotId keepLoaded).leases.get e = some l' ↔
      ∃ l, s.leases.get e = some l ∧ stamped slotId keepLoaded l = l') ∧
    (s.restampSlotKeepLoaded epoch slotId keepLoaded).routes = s.routes ∧
    (s.restampSlotKeepLoaded epoch slotId keepLoaded).expiryTimers = s.expiryTimers ∧
    (s.restampSlotKeepLoaded epoch slotId keepLoaded).keptLoadedSlots = s.keptLoadedSlots := by
  obtain ⟨hnodup, hmem⟩ := hB.values
  have hloop := foldl_leases PanelRuntimeCoordinator.leases
    (f := restampLease epoch slotId keepLoaded)
    (P := fun rest t ↦ (∀ e, t.leases.get e = (s.leases.get e).map fun l ↦
        if l ∈ rest then l else stamped slotId keepLoaded l) ∧
      ((rest.map PanelRuntimeLease.runtimeEntityId).Nodup ∧ ∀ l ∈ rest, s.leases.get l.runtimeEntityId = some l) ∧
      t.routes = s.routes ∧ t.expiryTimers = s.expiryTimers ∧ t.keptLoadedSlots = s.keptLoadedSlots)
    (L := s.leases.map Prod.snd) (t := s) ?_ hnodup hmem ?_
  · refine ⟨fun e l' ↦ ?_, hloop.2.2⟩
    have hget := hloop.1 e
    simp only [List.not_mem_nil, if_false] at hget
    rw [restampSlotKeepLoaded, hget, Option.map_eq_some_iff]
  · -- A round stamps one lease, which is not looked at again.
    rintro l rest t ⟨hget, ⟨hdistinct, hin⟩, hsame⟩ hl
    rw [List.map_cons, List.nodup_cons] at hdistinct
    have hround : (restampLease epoch slotId keepLoaded t l).leases.get l.runtimeEntityId =
        some (stamped slotId keepLoaded l) ∧ (∀ e ≠ l.runtimeEntityId,
          (restampLease epoch slotId keepLoaded t l).leases.get e = t.leases.get e) ∧
        (restampLease epoch slotId keepLoaded t l).routes = t.routes ∧
        (restampLease epoch slotId keepLoaded t l).expiryTimers = t.expiryTimers ∧
        (restampLease epoch slotId keepLoaded t l).keptLoadedSlots = t.keptLoadedSlots := by
      unfold restampLease stamped
      split_ifs
      · exact ⟨hl, fun _ _ ↦ rfl, rfl, rfl, rfl⟩
      · exact ⟨JsMap.get_set_self _ _ _, fun e he ↦ JsMap.get_set_of_ne _ he _, rfl, rfl, rfl⟩
    obtain ⟨hself, hother, hroutes, htimers, hpins⟩ := hround
    have hs := hin l List.mem_cons_self
    refine ⟨⟨fun e ↦ ?_, ⟨hdistinct.2, fun l' hl' ↦ hin l' (List.mem_cons_of_mem _ hl')⟩, hroutes.trans hsame.1,
      htimers.trans hsame.2.1, hpins.trans hsame.2.2⟩, hother⟩
    by_cases he : e = l.runtimeEntityId
    · subst he
      rw [hself, hs, Option.map_some, if_neg fun hmem ↦ hdistinct.1 (List.mem_map_of_mem hmem)]
    · rw [hother e he, hget e]
      refine Option.map_congr fun l' hl' ↦ if_congr ?_ rfl rfl
      rw [List.mem_cons, or_iff_right]
      rintro rfl
      exact he (hB.keyed e l' hl').symm
  · refine ⟨fun e ↦ ?_, ⟨hnodup, hmem⟩, rfl, rfl, rfl⟩
    cases hl : s.leases.get e with
    | none => rfl
    | some l =>
      have hin : l ∈ s.leases.map Prod.snd := List.mem_map.mpr ⟨(e, l), (JsMap.mem_iff_get hB.nodup).mpr hl, rfl⟩
      rw [Option.map_some, if_pos hin]

theorem stamped_keepLoaded {slotId : PanelSlotId} {keepLoaded : Bool} {pins pins' : List PanelSlotId}
    (hl : l.keepLoaded = some (decide (l.slotId ∈ pins))) (hself : keepLoaded = decide (slotId ∈ pins'))
    (hother : ∀ slotId' ≠ slotId, slotId' ∈ pins' ↔ slotId' ∈ pins) :
    (stamped slotId keepLoaded l).keepLoaded = some (decide (l.slotId ∈ pins')) := by
  unfold stamped
  split_ifs with hsame
  · rcases hsame with hslot | hkept
    · rw [hl]
      exact congrArg some (decide_eq_decide.mpr (hother _ hslot).symm)
    · by_cases hslot : l.slotId = slotId
      · rw [PanelRuntimeLease.kept, hl, Option.getD_some] at hkept
        rw [hl, hkept, hself, hslot]
      · rw [hl]
        exact congrArg some (decide_eq_decide.mpr (hother _ hslot).symm)
  · rw [not_or, not_not] at hsame
    rw [hself, hsame.1]

theorem pinSlotLoaded_table (hB : Basic base [] s) (h : Table ids none s) (slotId : JsString) :
    Table ids none (s.pinSlotLoaded epoch slotId).1 := by
  refine h.withPanelSlotId fun _ ↦ ?_
  split_ifs
  · exact h
  · have hpinned : Basic base [] { s with keptLoadedSlots := s.keptLoadedSlots ++ [slotId] } := { hB with }
    obtain ⟨hget, hroutes, htimers, hpins⟩ := restampSlotKeepLoaded_leases epoch hpinned slotId true
    have hsame := stamped_same slotId true
    refine h.change hget (fun _ l ↦ ⟨(hsame l).1, (hsame l).2.1⟩) ?_ (fun e l hl ↦ ?_) (fun e l hl he ↦ ?_) ?_
    · dsimp only
      rw [hroutes]
      exact .refl h.routes
    · dsimp only
      rw [hpins]
      refine stamped_keepLoaded (h.kept e l hl) ?_ fun slotId' hne ↦ ?_
      · simp
      · simp [hne]
    · dsimp only [timerPending] at *
      rw [(hsame l).2.2.2] at he
      rw [htimers, hpins]
      exact (h.expiring e l hl he).imp_right fun hmem ↦ List.mem_append_left _ hmem
    · dsimp only [timerPending]
      rw [htimers]
      intro e timer htimer
      obtain ⟨l, hl, he, hp⟩ := h.timed e timer htimer
      exact ⟨l, hl, (hsame l).2.2.2 ▸ he, hp⟩

/-- Every lease of the slot that has an expiry has its timer. -/
def expiriesPending (s : PanelRuntimeCoordinator) (slotId : PanelSlotId) : Bool :=
  s.leases.all fun p ↦ decide (p.2.slotId = slotId → p.2.expiresAt ≠ none →
    s.expiryTimers.get p.1 = some ⟨p.2.connectionId, true⟩)

theorem unpinSlotLoaded_table (hB : Basic base [] s) (h : Table ids none s) (slotId : JsString)
    (hpending : slotId ∈ s.keptLoadedSlots → s.expiriesPending slotId = true) :
    Table ids none (s.unpinSlotLoaded epoch slotId).1 := by
  refine h.withPanelSlotId fun _ ↦ ?_
  split_ifs with hpinned
  · have hpending := List.all_eq_true.mp (hpending hpinned)
    have hunpinned : Basic base [] { s with
      keptLoadedSlots := s.keptLoadedSlots.filter fun id ↦ decide (id ≠ slotId) } := { hB with }
    obtain ⟨hget, hroutes, htimers, hpins⟩ := restampSlotKeepLoaded_leases epoch hunpinned slotId false
    have hsame := stamped_same slotId false
    refine h.change hget (fun _ l ↦ ⟨(hsame l).1, (hsame l).2.1⟩) ?_ (fun e l hl ↦ ?_) (fun e l hl he ↦ ?_) ?_
    · dsimp only
      rw [hroutes]
      exact .refl h.routes
    · dsimp only
      rw [hpins]
      refine stamped_keepLoaded (h.kept e l hl) ?_ fun slotId' hne ↦ ?_
      · simp
      · simp [hne]
    · dsimp only [timerPending] at *
      rw [(hsame l).2.2.2] at he
      rw [htimers, hpins]
      rcases h.expiring e l hl he with hp | hmem
      · exact .inl hp
      · by_cases hslot : l.slotId = slotId
        · exact .inl (of_decide_eq_true (hpending (e, l) ((JsMap.mem_iff_get hB.nodup).mpr hl)) hslot he)
        · exact .inr (List.mem_filter.mpr ⟨hmem, decide_eq_true hslot⟩)
    · dsimp only [timerPending]
      rw [htimers]
      intro e timer htimer
      obtain ⟨l, hl, he, hp⟩ := h.timed e timer htimer
      exact ⟨l, hl, (hsame l).2.2.2 ▸ he, hp⟩
  · exact h

/-! ### Timers -/

theorem setReachable_kept (h : Table ids none s) (connectionId : JsString) (reachable : Bool) :
    PanelAttempts.Kept ids always s.routes (s.setReachable connectionId reachable).routes :=
  ⟨{ h.routes with }, fun _ _ _ _ hb ↦ hb, le_rfl⟩

/-- The expiry of one lease changes, and its timer with it. -/
theorem Table.setExpiry (h : Table ids none s) (hl : s.leases.get l.runtimeEntityId = some l)
    {s' : PanelRuntimeCoordinator} (expiresAt : Option ℕ)
    (hleases : ∀ e, s'.leases.get e = if e = l.runtimeEntityId then some { l with expiresAt := expiresAt }
      else s.leases.get e)
    (hself : s'.expiryTimers.get l.runtimeEntityId =
      if expiresAt = none then none else some ⟨l.connectionId, true⟩)
    (hother : ∀ e ≠ l.runtimeEntityId, s'.expiryTimers.get e = s.expiryTimers.get e)
    (hpins : s'.keptLoadedSlots = s.keptLoadedSlots) (hroutes : PanelAttempts.Kept ids always s.routes s'.routes) :
    Table ids none s' := by
  refine h.change (f := fun e l' ↦ if e = l.runtimeEntityId then { l' with expiresAt := expiresAt } else l')
    (fun e l' ↦ ?_) (fun e l' ↦ ?_) hroutes (fun e l' hl' ↦ ?_) (fun e l' hl' he ↦ ?_) fun e timer htimer ↦ ?_
  · rw [hleases]
    by_cases he : e = l.runtimeEntityId
    · subst he
      simp [hl]
    · simp [he]
  · split_ifs
    · exact ⟨rfl, rfl⟩
    · exact ⟨rfl, rfl⟩
  · rw [hpins, ← h.kept e l' hl']
    split_ifs
    · rfl
    · rfl
  · by_cases hee : e = l.runtimeEntityId
    · rw [if_pos hee] at he
      subst hee
      obtain rfl := Option.some.inj (hl'.symm.trans hl)
      exact .inl (hself.trans (if_neg he))
    · rw [if_neg hee] at he
      rw [hpins, timerPending, hother e hee]
      exact h.expiring e l' hl' he
  · by_cases hee : e = l.runtimeEntityId
    · subst hee
      rw [hself] at htimer
      split_ifs at htimer with hnone
      refine ⟨l, hl, ?_, hself.trans (if_neg hnone)⟩
      rw [if_pos rfl]
      exact hnone
    · rw [hother e hee] at htimer
      obtain ⟨l', hl', he, hp⟩ := h.timed e timer htimer
      refine ⟨l', hl', ?_, ?_⟩
      · rw [if_neg hee]
        exact he
      · rw [timerPending, hother e hee]
        exact hp

theorem markConnected_table (hB : Basic base [] s) (h : Table ids none s) (runtimeEntityId connectionId : JsString) :
    Table ids none (s.markConnected epoch runtimeEntityId connectionId).1 := by
  refine h.withPanelEntityId fun _ ↦ ?_
  split
  · dsimp only
    split_ifs
    · exact h.setRoutes (setReachable_kept h connectionId true) fun _ _ _ _ ↦ trivial
    · exact h
  · split
    · exact h
    · rename_i lease hlease
      have hl := get_of_leaseOn hlease
      have hkey := hB.keyed _ _ hl
      subst hkey
      have hself : (s.expiryTimers.delete lease.runtimeEntityId).get lease.runtimeEntityId = none := by
        rw [JsMap.get_delete, if_pos rfl]
      have hother : ∀ e ≠ lease.runtimeEntityId,
          (s.expiryTimers.delete lease.runtimeEntityId).get e = s.expiryTimers.get e :=
        fun e he ↦ by rw [JsMap.get_delete, if_neg he]
      dsimp only
      split_ifs with hnone
      · refine h.setExpiry hl none (fun e ↦ ?_) hself hother rfl (setReachable_kept h connectionId true)
        split_ifs with he
        · rw [← hnone, he]
          exact hl
        · rfl
      · refine h.setExpiry hl none (fun e ↦ ?_) hself hother rfl (setReachable_kept h connectionId true)
        exact JsMap.get_set _ _ _ _

theorem markDisconnected_table (hB : Basic base [] s) (h : Table ids none s)
    (runtimeEntityId connectionId : JsString) :
    Table ids none (s.markDisconnected epoch now runtimeEntityId connectionId).1 := by
  refine h.withPanelEntityId fun _ ↦ ?_
  split
  · dsimp only
    split_ifs
    · exact h.setRoutes (setReachable_kept h connectionId false) fun _ _ _ _ ↦ trivial
    · exact h
  · split
    · exact h
    · rename_i lease hlease
      have hl := get_of_leaseOn hlease
      obtain ⟨-, hconn⟩ := Option.filter_eq_some_iff.mp hlease
      have hkey := hB.keyed _ _ hl
      subst hkey
      refine h.setExpiry hl (some (now + LEASE_RECONNECT_GRACE_MS)) (fun e ↦ JsMap.get_set _ _ _ _) ?_ (fun e he ↦ ?_)
        rfl (setReachable_kept h connectionId false)
      · rw [if_neg (Option.some_ne_none _), of_decide_eq_true hconn]
        exact JsMap.get_set_self _ _ _
      · change JsMap.get e ((s.expiryTimers.delete _).set _ _) = _
        rw [JsMap.get_set, if_neg he, JsMap.get_delete, if_neg he]

/-- **A timer that fires releases the lease it was armed for**, as a caller would. -/
theorem expire_eq_release (hB : Basic base [] s) (h : Table ids none s) {r : Outcome Unit}
    (hr : s.expire epoch ids now entityId = some r) :
    ∃ l, s.leases.get entityId = some l ∧ r = s.release epoch ids now entityId l.connectionId .expired := by
  obtain ⟨timer, heq, rfl⟩ := Option.map_eq_some_iff.mp hr
  obtain ⟨htimer, -⟩ := Option.filter_eq_some_iff.mp heq
  obtain ⟨l, hl, -, hp⟩ := h.timed entityId timer htimer
  obtain rfl := Option.some.inj (htimer.symm.trans hp)
  refine ⟨l, hl, ?_⟩
  have hkey := hB.keyed _ _ hl
  subst hkey
  -- The release deletes the timer, so it does not matter that it is not armed any more.
  have hclear : ({ s with expiryTimers := s.expiryTimers.set l.runtimeEntityId ⟨l.connectionId, false⟩ } :
      PanelRuntimeCoordinator).clearExpiry l.runtimeEntityId = s.clearExpiry l.runtimeEntityId := by
    rw [clearExpiry, clearExpiry, JsMap.delete_set]
  have hremove : ∀ stop, ({ s with expiryTimers := s.expiryTimers.set l.runtimeEntityId ⟨l.connectionId, false⟩ } :
      PanelRuntimeCoordinator).removeLease l stop false = s.removeLease l stop false := by
    intro stop
    rw [PanelRuntimeCoordinator.removeLease, PanelRuntimeCoordinator.removeLease, hclear]
  have hid := hB.timers _ _ htimer
  have hon : (s.leases.get l.runtimeEntityId).filter (fun lease ↦ decide (lease.connectionId = l.connectionId)) =
      some l := Option.filter_eq_some_iff.mpr ⟨hl, decide_eq_true rfl⟩
  unfold release PanelRuntimeCoordinator.withPanelEntityId asPanelEntityId
  rw [if_pos hid]
  dsimp only
  rw [hon]
  dsimp only
  rw [hclear]
  unfold PanelRuntimeCoordinator.dropLease
  rw [hremove]
  rfl

theorem expire_table (hB : Basic base [] s) (h : Table ids none s) {r : Outcome Unit}
    (hr : s.expire epoch ids now entityId = some r) : Table ids none r.1 := by
  obtain ⟨l, -, rfl⟩ := expire_eq_release hB h hr
  exact release_table hB h _ _ _

/-! ## Runs -/

/-- No lease is in the slot, and none is on the connection if it has a name. -/
def uncommitted (s : PanelRuntimeCoordinator) (slotId : PanelSlotId) (connectionId : Option JsString) : Bool :=
  s.leases.all fun p ↦ decide (p.2.slotId ≠ slotId ∧
    connectionId.filter (fun id ↦ decide (id ≠ [])) ≠ some p.2.connectionId)

/-- A lease that an operation writes goes into a slot that no other entity has a lease of, and on a connection that has
a name and no other lease. A lease that `takeOver` revokes is replaced. When a pin is taken away, the leases of its slot
that expire have their timers. An attempt that is committed on its own is one of a slot without a lease, on a connection
without one. -/
def settled (s : PanelRuntimeCoordinator) (c : Call) : Bool :=
  match c.op with
  | .acquire entityId input =>
    !(isPanelEntityId entityId && s.acquireWrites entityId input && s.admits input) ||
      s.slotFree input.slotId entityId && s.freshConnection entityId input.connectionId &&
        s.bindable input.slotId entityId input.connectionId
  | .takeOver entityId input =>
    !isPanelEntityId entityId ||
      (!s.admits input || s.slotFree input.slotId entityId && s.freshConnection entityId input.connectionId &&
        s.bindable input.slotId entityId input.connectionId) &&
      ((s.revoked entityId input).isNone || s.admits input && decide (input.connectionId ≠ []))
  | .unpinSlotLoaded slotId => decide (slotId ∉ s.keptLoadedSlots) || s.expiriesPending slotId
  | .commitAttempt slotId entityId _ connectionId =>
    !(isPanelSlotId slotId && isPanelEntityId entityId) || s.uncommitted slotId connectionId
  | .ensureAttemptForSlot slotId entityId =>
    !isPanelEntityId entityId || (s.routes.currentAttempt slotId).any (fun a ↦
      decide (a.runtimeEntityId = entityId ∧ a.phase ≠ .stopped)) || s.uncommitted slotId none
  | _ => true

/-- The caller's connection ends in an id that `randomUUID` returns only later. -/
def guesses (ids : RandomUuid) (s : PanelRuntimeCoordinator) (c : Call) : Bool :=
  match c.op with
  | .acquire _ input => (ids.index input.connectionId).any fun k ↦ decide (s.routes.drawn ≤ k)
  | .takeOver _ input => (ids.index input.connectionId).any fun k ↦ decide (s.routes.drawn ≤ k)
  | _ => false

/-- Nobody knows a random id before it is drawn. -/
def unguessedStep (epoch : JsString) (ids : RandomUuid) (s : PanelRuntimeCoordinator) (c : Call) :
    Option PanelRuntimeCoordinator :=
  if s.guesses ids c then none else s.step epoch ids c

theorem drawn_of_not_guessed {connectionId : JsString} {n : ℕ}
    (h : (ids.index connectionId).any (fun k ↦ decide (n ≤ k)) = false) : ids.Drawn n connectionId := by
  intro k hk
  rw [hk, Option.any_some] at h
  exact Nat.lt_of_not_le (of_decide_eq_false h)

theorem Basic.uncommitted (hB : Basic base [] s) {connectionId : Option JsString}
    (h : s.uncommitted slotId connectionId = true) :
    ∀ e l, s.leases.get e = some l → l.slotId ≠ slotId ∧ ¬ binds connectionId l.connectionId := by
  intro e l hl
  have hall := List.all_eq_true.mp h (e, l) ((JsMap.mem_iff_get hB.nodup).mpr hl)
  rwa [decide_eq_true_iff] at hall

theorem holdEntityForHost_table (h : Table ids none s) (input : HostHeldEntityLease) :
    Table ids none (s.holdEntityForHost input).1 := by
  refine h.withPanelEntityId fun _ ↦ ?_
  split_ifs
  · exact h
  · exact { h with routes := { h.routes with } }

theorem commitAttempt_table (hB : Basic base [] s) (h : Table ids none s) (slotId runtimeEntityId : JsString)
    (hostConnectionId connectionId : Option JsString)
    (hfree : isPanelSlotId slotId = true → isPanelEntityId runtimeEntityId = true →
      s.uncommitted slotId connectionId = true) :
    Table ids none (s.commitAttempt ids slotId runtimeEntityId hostConnectionId connectionId).1 := by
  refine h.withPanelSlotId fun hslot ↦ h.withPanelEntityId fun hid ↦ ?_
  exact h.setRoutes (h.routes.commitAttempt slotId _).1 fun e l hl _ ↦ hB.uncommitted (hfree hslot hid) e l hl

theorem ensureAttemptForSlot_table (hB : Basic base [] s) (h : Table ids none s) (slotId runtimeEntityId : JsString)
    (hfree : isPanelEntityId runtimeEntityId = true → (s.routes.currentAttempt slotId).any (fun a ↦
      decide (a.runtimeEntityId = runtimeEntityId ∧ a.phase ≠ .stopped)) = false →
      s.uncommitted slotId none = true) :
    Table ids none (s.ensureAttemptForSlot ids slotId runtimeEntityId).1 := by
  refine h.withPanelSlotId fun _ ↦ h.withPanelEntityId fun hid ↦ ?_
  dsimp only
  unfold PanelAttempts.ensureAttemptForSlot
  split
  · exact h
  · rename_i hnone
    refine h.setRoutes (h.routes.commitAttempt slotId ⟨runtimeEntityId, none, none⟩).1 fun e l hl _ ↦ ⟨?_, nofun⟩
    refine (hB.uncommitted (hfree hid ?_) e l hl).1
    rw [Option.filter_eq_none_iff] at hnone
    rw [Option.any_eq_false]
    exact fun a ha ↦ Bool.eq_false_iff.mpr (hnone a ha)

theorem reportView_table (h : Table ids none s) (runtimeEntityId connectionId : JsString) (reachable : Bool)
    (report : Option AttemptReport) :
    Table ids none (s.reportView runtimeEntityId connectionId reachable report).1 := by
  refine h.withPanelEntityId fun _ ↦ ?_
  split
  · exact h
  · rename_i attempt _
    have hreached : Table ids none (if reachable then s.setReachable connectionId true else s) := by
      split_ifs
      · exact h.setRoutes (setReachable_kept h connectionId true) fun _ _ _ _ ↦ trivial
      · exact h
    dsimp only
    generalize (if reachable then s.setReachable connectionId true else s) = reached at hreached ⊢
    have hseen : PanelAttempts.Kept ids always reached.routes { reached.routes with
        routeViews := attempt.attemptId :: reached.routes.routeViews.filter fun id ↦
          decide (id ≠ attempt.attemptId) } :=
      ⟨{ hreached.routes with }, fun _ _ _ _ hb ↦ hb, le_rfl⟩
    match report with
    | none => exact hreached.setRoutes hseen fun _ _ _ _ ↦ trivial
    | some report =>
      exact hreached.setRoutes (hseen.trans (hseen.ok.reportAttemptPhase attempt.attemptId report)) fun _ _ _ _ ↦ trivial

/-- **The step lemma.** -/
theorem Table.step (hB : Basic base [] s) (h : Table ids none s) {c : Call} {s' : PanelRuntimeCoordinator}
    (hok : s.settled c = true) (hs : s.unguessedStep epoch ids c = some s') : Table ids none s' := by
  rw [unguessedStep, Option.ite_none_left_eq_some] at hs
  obtain ⟨hguess, hs⟩ := hs
  obtain ⟨r, hr, rfl⟩ := Option.map_eq_some_iff.mp hs
  obtain ⟨now, op⟩ := c
  cases op with
  | registerClient input =>
    obtain rfl := Option.some.inj hr
    exact { h with }
  | unregisterClient id =>
    obtain rfl := Option.some.inj hr
    exact unregisterClients_table hB h _
  | unregisterClientsForCaller owner =>
    obtain rfl := Option.some.inj hr
    exact unregisterClients_table hB h _
  | acquire entityId input =>
    obtain rfl := Option.some.inj hr
    refine acquire_table hB h entityId input fun hid hwrites hadmits ↦ ?_
    dsimp only [settled] at hok
    rw [hid, hwrites, hadmits] at hok
    simp only [Bool.and_self, Bool.not_true, Bool.false_or, Bool.and_eq_true] at hok
    exact ⟨hok.1.1, hok.1.2, hok.2, drawn_of_not_guessed (Bool.eq_false_iff.mpr hguess)⟩
  | takeOver entityId input =>
    obtain rfl := Option.some.inj hr
    dsimp only [settled] at hok
    refine takeOver_table hB h entityId input (fun hid hadmits ↦ ?_) fun hid hrevoked ↦ ?_
    · rw [hid, hadmits] at hok
      simp only [Bool.not_true, Bool.false_or, Bool.and_eq_true] at hok
      exact ⟨hok.1.1.1, hok.1.1.2, hok.1.2, drawn_of_not_guessed (Bool.eq_false_iff.mpr hguess)⟩
    · obtain ⟨existing, hexisting⟩ := Option.ne_none_iff_exists'.mp hrevoked
      rw [hid, hexisting] at hok
      simp only [Bool.not_true, Bool.false_or, Option.isNone_some, Bool.and_eq_true, decide_eq_true_iff] at hok
      exact hok.2
  | release entityId connectionId reason =>
    obtain rfl := Option.some.inj hr
    exact release_table hB h _ _ _
  | unloadSlot slotId =>
    obtain rfl := Option.some.inj hr
    exact unloadSlot_table hB h slotId
  | adoptHostLeaseForSlot slotId entityId host =>
    obtain rfl := Option.some.inj hr
    exact adoptHostLeaseForSlot_table hB h _ _ _
  | ensureDefaultCdpHostForSlot slotId entityId options =>
    obtain rfl := Option.some.inj hr
    exact ensureDefaultCdpHostForSlot_table hB h _ _ _
  | replaceRuntimeEntityForSlot slotId previousId nextId =>
    obtain rfl := Option.some.inj hr
    exact replaceRuntimeEntityForSlot_table hB h _ _ _
  | advanceResidentSlotEntity slotId nextId =>
    obtain rfl := Option.some.inj hr
    exact advanceResidentSlotEntity_table hB h _ _
  | retireRuntimeEntity entityId =>
    obtain rfl := Option.some.inj hr
    exact retireRuntimeEntity_table hB h entityId
  | pinSlotLoaded slotId =>
    obtain rfl := Option.some.inj hr
    exact pinSlotLoaded_table hB h slotId
  | unpinSlotLoaded slotId =>
    obtain rfl := Option.some.inj hr
    refine unpinSlotLoaded_table hB h slotId fun hpinned ↦ ?_
    dsimp only [settled] at hok
    rw [Bool.or_eq_true, decide_eq_true_iff] at hok
    exact hok.resolve_left (not_not.mpr hpinned)
  | markConnected entityId connectionId =>
    obtain rfl := Option.some.inj hr
    exact markConnected_table hB h _ _
  | markDisconnected entityId connectionId =>
    obtain rfl := Option.some.inj hr
    exact markDisconnected_table hB h _ _
  | expire entityId => exact expire_table hB h hr
  | holdEntityForHost input =>
    obtain rfl := Option.some.inj hr
    exact holdEntityForHost_table h input
  | commitAttempt slotId entityId host connectionId =>
    obtain rfl := Option.some.inj hr
    refine commitAttempt_table hB h slotId entityId host connectionId fun hslot hid ↦ ?_
    dsimp only [settled] at hok
    rw [hslot, hid] at hok
    exact hok
  | ensureAttemptForSlot slotId entityId =>
    obtain rfl := Option.some.inj hr
    refine ensureAttemptForSlot_table hB h slotId entityId fun hid hnone ↦ ?_
    dsimp only [settled] at hok
    rw [hid, hnone] at hok
    exact hok
  | stopAttempt attemptId reason =>
    obtain rfl := Option.some.inj hr
    exact h.setRoutes (h.routes.stopAttempt attemptId reason) fun _ _ _ _ ↦ trivial
  | reportAttemptPhase attemptId report =>
    obtain rfl := Option.some.inj hr
    exact h.setRoutes (h.routes.reportAttemptPhase attemptId report) fun _ _ _ _ ↦ trivial
  | reportView entityId connectionId reachable report =>
    obtain rfl := Option.some.inj hr
    exact reportView_table h _ _ _ _

/-- What is released on its own connection is gone; a lease that is assigned in its place does not expire. -/
theorem release_gone (hB : Basic base [] s) {runtimeEntityId : JsString}
    (hid : isPanelEntityId runtimeEntityId = true) (hl : s.leases.get runtimeEntityId = some l)
    (hkept : l.slotId ∉ s.keptLoadedSlots) (reason : PanelRuntimeLeaseChangedReason) {l' : PanelRuntimeLease}
    (hl' : (s.release epoch ids now runtimeEntityId l.connectionId reason).1.leases.get runtimeEntityId = some l') :
    l'.expiresAt = none := by
  have hkey := hB.keyed _ _ hl
  subst hkey
  have hon : (s.leases.get l.runtimeEntityId).filter (fun lease ↦ decide (lease.connectionId = l.connectionId)) =
      some l := Option.filter_eq_some_iff.mpr ⟨hl, decide_eq_true rfl⟩
  unfold release PanelRuntimeCoordinator.withPanelEntityId asPanelEntityId at hl'
  rw [if_pos hid] at hl'
  dsimp only at hl'
  rw [hon] at hl'
  dsimp only at hl'
  rw [if_neg hkept] at hl'
  generalize (if reason = .expired then StopReason.hostLost else .unloaded) = stop at hl'
  have hdropped : (s.dropLease epoch l stop false reason).leases.get l.runtimeEntityId = none := by
    change (s.leases.delete _).get _ = none
    rw [JsMap.get_delete, if_pos rfl]
  by_cases hreassign : (reason = .released ∨ reason = .expired) ∧
      shouldReassignDefaultCdpLease l (s.wasDefaultCdpLease l) = true
  · rw [if_pos hreassign] at hl'
    have hD := hB.dropLease epoch l stop false reason
    unfold assignDefaultCdpHost at hl'
    split at hl'
    · cases hdropped.symm.trans hl'
    · rename_i client hclient
      obtain ⟨c, hget⟩ := Option.isSome_iff_exists.mp
        (hD.get_client (mem_clients_of_getDefaultCdpHostClient hclient))
      rw [assignHost_eq hget (hB.slots _ _ hl)] at hl'
      change ((s.dropLease epoch l stop false reason).leases.set _ _).get _ = some l' at hl'
      rcases get_set_cases hl' with ⟨-, rfl⟩ | ⟨hne, -⟩
      · rfl
      · exact absurd rfl hne
  · rw [if_neg hreassign] at hl'
    cases hdropped.symm.trans hl'

/-- **The panel lease table.** In every run of settled operations the table of the leases is right, and the timer of a
lease that expires and is not pinned can fire and takes the lease away. -/
theorem panel_lease_table (epoch : JsString) (ids : RandomUuid) (s : PanelRuntimeCoordinator)
    (h : Reachable (unguessedStep epoch ids) settled init s) :
    LeaseTable s ∧ ∀ now e l, s.leases.get e = some l → l.expiresAt ≠ none → l.slotId ∉ s.keptLoadedSlots →
      ∃ r, s.expire epoch ids now e = some r ∧ r.1.leases.get e ≠ some l := by
  obtain ⟨hB, hT⟩ := h.invariant (I := fun s ↦ Basic [] [] s ∧ Table ids none s) ⟨basic_init, table_init⟩
    fun t t' c ⟨hB, hT⟩ hok hs ↦ ⟨(basic_step hB (Option.ite_none_left_eq_some.mp hs).2).1, hT.step hB hok hs⟩
  refine ⟨hT.leaseTable hB, fun now e l hl he hkept ↦ ?_⟩
  have hpending := (hT.expiring e l hl he).resolve_right hkept
  have harmed : (s.expiryTimers.get e).filter Expiry.armed = some ⟨l.connectionId, true⟩ :=
    Option.filter_eq_some_iff.mpr ⟨hpending, rfl⟩
  obtain ⟨r, hr⟩ : ∃ r, s.expire epoch ids now e = some r := by
    rw [expire, harmed]
    exact ⟨_, rfl⟩
  refine ⟨r, hr, fun hl' ↦ ?_⟩
  obtain ⟨l₀, hl₀, rfl⟩ := expire_eq_release hB hT hr
  obtain rfl := Option.some.inj (hl₀.symm.trans hl)
  exact he (release_gone hB (hB.timers _ _ hpending) hl hkept _ hl')

/-! ## A second lease of a slot, and an expiry that is lost -/

/-- The lease of a pinned slot loses its connection, its timer fires, and the pin is taken away. -/
def pinnedExpiry : List Call := oneLease ++
  [⟨2, .markDisconnected entityOne (lit "c1")⟩, ⟨3, .pinSlotLoaded slotOne⟩, ⟨3002, .expire entityOne⟩,
    ⟨4000, .unpinSlotLoaded slotOne⟩]

/-- The lease expires with its timer when it is not pinned. -/
theorem panel_lease_table_disconnected : ∃ s, run (unguessedStep (lit "e1") countingUuid) settled init
    (oneLease ++ [⟨2, .markDisconnected entityOne (lit "c1")⟩]) = some s ∧ LeaseTable s ∧
      ∃ l, s.leases.get entityOne = some l ∧
        ∃ r, s.expire (lit "e1") countingUuid 3002 entityOne = some r ∧ r.1.leases.get entityOne ≠ some l := by
  have hrun : (run (unguessedStep (lit "e1") countingUuid) settled init
      (oneLease ++ [⟨2, .markDisconnected entityOne (lit "c1")⟩])).map (fun s ↦
        decide ((s.leases.get entityOne).map PanelRuntimeLease.expiresAt = some (some 3002) ∧
          s.keptLoadedSlots = [])) = some true := by decide +kernel
  obtain ⟨s, hs, hstate⟩ := Option.map_eq_some_iff.mp hrun
  obtain ⟨hexpires, hpins⟩ := of_decide_eq_true hstate
  obtain ⟨l, hl, he⟩ := Option.map_eq_some_iff.mp hexpires
  obtain ⟨htable, hexpire⟩ := panel_lease_table (lit "e1") countingUuid s (Reachable.init.run hs)
  refine ⟨s, hs, htable, l, hl, hexpire 3002 entityOne l hl ?_ ?_⟩
  · rw [he]
    exact Option.some_ne_none _
  · rw [hpins]
    exact List.not_mem_nil

/-- **A slot may get a second lease, and a lease may be left expiring without a timer**: `acquire` looks at the lease of
its own entity only, and a release that finds its slot pinned deletes the timer, which `unpinSlotLoaded` does not arm
again. -/
theorem panel_lease_table_fails :
    (∃ s, Reachable (unguessedStep (lit "e1") countingUuid) anyStep init s ∧ ¬ s.OneLeaseASlot) ∧
    ∃ s, Reachable (unguessedStep (lit "e1") countingUuid) anyStep init s ∧ ∃ l,
      s.leases.get entityOne = some l ∧ l.expiresAt ≠ none ∧ l.slotId ∉ s.keptLoadedSlots ∧
      ¬ s.timerPending entityOne l := by
  constructor
  · have hrun : (run (unguessedStep (lit "e1") countingUuid) anyStep init
        (oneLease ++ [⟨2, .acquire entityTwo (desktopRequest (lit "c2"))⟩])).map (fun s ↦
          decide (((s.leases.get entityOne).map PanelRuntimeLease.slotId) = some slotOne ∧
            ((s.leases.get entityTwo).map PanelRuntimeLease.slotId) = some slotOne)) = some true := by decide +kernel
    obtain ⟨s, hs, hstate⟩ := Option.map_eq_some_iff.mp hrun
    obtain ⟨hone, htwo⟩ := of_decide_eq_true hstate
    obtain ⟨l, hl, hslot⟩ := Option.map_eq_some_iff.mp hone
    obtain ⟨l', hl', hslot'⟩ := Option.map_eq_some_iff.mp htwo
    refine ⟨s, Reachable.init.run hs, fun h ↦ ?_⟩
    exact absurd (h entityOne l entityTwo l' hl hl' (hslot'.trans hslot.symm)) (by decide)
  · have hrun : (run (unguessedStep (lit "e1") countingUuid) anyStep init pinnedExpiry).map (fun s ↦
        decide ((s.leases.get entityOne).map PanelRuntimeLease.expiresAt = some (some 3002) ∧
          s.keptLoadedSlots = [] ∧ s.expiryTimers.get entityOne = none)) = some true := by decide +kernel
    obtain ⟨s, hs, hstate⟩ := Option.map_eq_some_iff.mp hrun
    obtain ⟨hexpires, hpins, htimers⟩ := of_decide_eq_true hstate
    obtain ⟨l, hl, he⟩ := Option.map_eq_some_iff.mp hexpires
    refine ⟨s, Reachable.init.run hs, l, hl, ?_, ?_, ?_⟩
    · rw [he]
      exact Option.some_ne_none _
    · rw [hpins]
      exact List.not_mem_nil
    · intro hp
      exact nomatch htimers.symm.trans hp

end Vibestudio.Server.PanelRuntimeCoordinator

import Mathlib
import Vibestudio.Server.PanelRuntimeCoordinator
import Vibestudio.Shared.LeaseViews
import Vibestudio.Transition.Run

/-!
# Lease events

The events of the panel runtime coordinator, folded slot by slot, against its leases, which it keeps by entity
(`InStep`). What an operation does is stated in one piece (`Sound`): it keeps what holds in every state, it keeps the
fold in step when it is orderly, and when it throws it has done nothing.

An operation is not orderly when it writes a lease into a slot that is not free, moves the lease of an entity to
another slot without a word about the slot it leaves, announces the lease of one slot as that of another, or throws
after it has revoked a lease.
-/

namespace Vibestudio.Server

open Js Shared Transition

/-! ## A table by slot and leases by entity -/

/-- The table holds, under each slot, the lease of that slot. -/
def Tabulates (table : JsMap PanelSlotId PanelRuntimeLease) (leases : JsMap PanelEntityId PanelRuntimeLease) : Prop :=
  ∀ slotId lease, table.get slotId = some lease ↔ ∃ e, leases.get e = some lease ∧ lease.slotId = slotId

section Tables

variable {table table' : JsMap PanelSlotId PanelRuntimeLease} {leases leases' : JsMap PanelEntityId PanelRuntimeLease}
  {e : PanelEntityId} {l : PanelRuntimeLease}

theorem Tabulates.congr (h : Tabulates table leases) (ht : ∀ slotId, table'.get slotId = table.get slotId)
    (hl : ∀ e, leases'.get e = leases.get e) : Tabulates table' leases' := by
  intro slotId lease
  rw [ht, h slotId lease]
  simp only [hl]

/-- A slot has one lease. -/
theorem Tabulates.unique (h : Tabulates table leases) {e' : PanelEntityId} {l' : PanelRuntimeLease}
    (hl : leases.get e = some l) (hl' : leases.get e' = some l') (hslot : l'.slotId = l.slotId) : l' = l := by
  have hget := (h l.slotId l).mpr ⟨e, hl, rfl⟩
  have hget' := (h l.slotId l').mpr ⟨e', hl', hslot⟩
  exact Option.some.inj (hget'.symm.trans hget)

/-- A lease and its slot are deleted. -/
theorem Tabulates.delete (h : Tabulates table leases)
    (hkeyed : ∀ e l, leases.get e = some l → l.runtimeEntityId = e) (hl : leases.get l.runtimeEntityId = some l) :
    Tabulates (table.delete l.slotId) (leases.delete l.runtimeEntityId) := by
  intro slotId lease
  rw [JsMap.get_delete]
  split_ifs with heq
  · -- The slot is free: another lease of it would be this one.
    refine iff_of_false (by rintro ⟨⟩) ?_
    rintro ⟨e, hget, hslot⟩
    rw [JsMap.get_delete] at hget
    split_ifs at hget with he
    have hsame := h.unique hl hget (hslot.trans heq)
    exact he ((hkeyed e lease hget).symm.trans (congrArg _ hsame))
  · rw [h slotId lease]
    constructor
    · rintro ⟨e, hget, hslot⟩
      refine ⟨e, ?_, hslot⟩
      rw [JsMap.get_delete, if_neg, hget]
      rintro rfl
      obtain rfl := Option.some.inj (hget.symm.trans hl)
      exact heq hslot.symm
    · rintro ⟨e, hget, hslot⟩
      rw [JsMap.get_delete] at hget
      split_ifs at hget with he
      exact ⟨e, hget, hslot⟩

/-- A lease is written where its slot is free and its entity has none in another slot. -/
theorem Tabulates.set (h : Tabulates table leases)
    (hfree : ∀ e' l', leases.get e' = some l' → l'.slotId = l.slotId → e' = e)
    (hown : ∀ l', leases.get e = some l' → l'.slotId = l.slotId) :
    Tabulates (table.set l.slotId l) (leases.set e l) := by
  intro slotId lease
  rw [JsMap.get_set]
  split_ifs with heq
  · rw [Option.some.injEq]
    constructor
    · rintro rfl
      exact ⟨e, JsMap.get_set_self _ _ _, heq.symm⟩
    · rintro ⟨e', hget, hslot⟩
      rw [JsMap.get_set] at hget
      split_ifs at hget with he
      · exact Option.some.inj hget
      · exact absurd (hfree e' lease hget (hslot.trans heq)) he
  · rw [h slotId lease]
    constructor
    · rintro ⟨e', hget, hslot⟩
      refine ⟨e', ?_, hslot⟩
      rw [JsMap.get_set, if_neg, hget]
      rintro rfl
      exact heq (hslot.symm.trans (hown lease hget))
    · rintro ⟨e', hget, hslot⟩
      rw [JsMap.get_set] at hget
      split_ifs at hget with he
      · obtain rfl := Option.some.inj hget
        exact absurd hslot.symm heq
      · exact ⟨e', hget, hslot⟩

end Tables

/-- The events folded slot by slot. -/
def foldEvents (table : JsMap PanelSlotId PanelRuntimeLease) (events : List PanelRuntimeLeaseChangedEvent) :
    JsMap PanelSlotId PanelRuntimeLease :=
  events.foldl (fun table event ↦ event.change table) table

theorem foldEvents_append (table : JsMap PanelSlotId PanelRuntimeLease)
    (events : List PanelRuntimeLeaseChangedEvent) (event : PanelRuntimeLeaseChangedEvent) :
    foldEvents table (events ++ [event]) = event.change (foldEvents table events) := by
  rw [foldEvents, foldEvents, List.foldl_append]
  rfl

/-- Tables that hold the same hold the same after the same events. -/
theorem get_foldEvents_congr {events : List PanelRuntimeLeaseChangedEvent} :
    ∀ {table table' : JsMap PanelSlotId PanelRuntimeLease}, (∀ slotId, table'.get slotId = table.get slotId) →
      ∀ slotId, (foldEvents table' events).get slotId = (foldEvents table events).get slotId := by
  induction events with
  | nil => exact fun h ↦ h
  | cons event events ih =>
    intro table table' h slotId
    refine ih (fun slotId ↦ ?_) slotId
    rw [event.get_change, event.get_change, h]

namespace PanelRuntimeCoordinator

/-- The fold of all events is in step with the leases. -/
def InStep (s : PanelRuntimeCoordinator) : Prop := Tabulates (foldEvents [] s.events) s.leases

/-! ## What holds in every state -/

/-- `base` is what had been emitted at some point before. Between the retirement of sessions and the release of their
leases, those may still have leases. -/
structure Basic (base : List PanelRuntimeLeaseChangedEvent) (retired : List JsString) (s : PanelRuntimeCoordinator) : Prop where
  counted : s.events.map (fun event ↦ event.version.counter) = List.range' 1 s.counter
  nodup : (JsMap.keys s.leases).Nodup
  keyed : ∀ e l, s.leases.get e = some l → l.runtimeEntityId = e
  slots : ∀ e l, s.leases.get e = some l → isPanelSlotId l.slotId = true
  clientKeys : (JsMap.keys s.clients).Nodup
  clientIds : ∀ id client, s.clients.get id = some client → client.clientSessionId = id
  registered : ∀ e l, s.leases.get e = some l →
    l.clientSessionId ∈ retired ∨ (s.clients.get l.clientSessionId).isSome = true
  timers : ∀ e expiry, s.expiryTimers.get e = some expiry → isPanelEntityId e = true
  grown : base <+: s.events

variable {base : List PanelRuntimeLeaseChangedEvent} {s : PanelRuntimeCoordinator} {retired : List JsString} {l : PanelRuntimeLease} {epoch : JsString}
  {ids : RandomUuid} {now : ℕ}

theorem basic_init : Basic [] [] init where
  counted := rfl
  nodup := List.nodup_nil
  keyed := nofun
  slots := nofun
  clientKeys := List.nodup_nil
  clientIds := nofun
  registered := nofun
  timers := nofun
  grown := List.prefix_rfl

theorem Basic.emit (h : Basic base retired s) (e : PanelEntityId) (slotId : PanelSlotId)
    (previous next : Option PanelRuntimeLease) (reason : PanelRuntimeLeaseChangedReason) :
    Basic base retired (s.emitChange epoch e slotId previous next reason) :=
  { h with
    counted := by
      rw [emitChange, List.map_append, h.counted, List.range'_1_concat, Nat.add_comm 1]
      rfl
    grown := h.grown.trans (List.prefix_append _ _) }

theorem Basic.clearExpiry (h : Basic base retired s) (entityId : PanelEntityId) :
    Basic base retired (s.clearExpiry entityId) :=
  { h with
    timers := by
      intro e expiry hget
      rw [PanelRuntimeCoordinator.clearExpiry, JsMap.get_delete] at hget
      split_ifs at hget
      exact h.timers e expiry hget }

theorem Basic.deleteLease (h : Basic base retired s) (e : PanelEntityId) :
    Basic base retired { s with leases := s.leases.delete e } := by
  have hsub : ∀ e' l, (s.leases.delete e).get e' = some l → s.leases.get e' = some l := by
    intro e' l hget
    rw [JsMap.get_delete] at hget
    split_ifs at hget with he
    exact hget
  exact { h with
    nodup := JsMap.nodup_keys_delete h.nodup _
    keyed := fun e' l hget ↦ h.keyed e' l (hsub e' l hget)
    slots := fun e' l hget ↦ h.slots e' l (hsub e' l hget)
    registered := fun e' l hget ↦ h.registered e' l (hsub e' l hget) }

theorem Basic.setLease (h : Basic base retired s) (hslot : isPanelSlotId l.slotId = true)
    (hclient : l.clientSessionId ∈ retired ∨ (s.clients.get l.clientSessionId).isSome = true) :
    Basic base retired { s with leases := s.leases.set l.runtimeEntityId l } := by
  have hcases : ∀ e' l', (s.leases.set l.runtimeEntityId l).get e' = some l' →
      (e' = l.runtimeEntityId ∧ l' = l) ∨ s.leases.get e' = some l' := by
    intro e' l' hget
    rw [JsMap.get_set] at hget
    split_ifs at hget with he
    · exact .inl ⟨he, (Option.some.inj hget).symm⟩
    · exact .inr hget
  refine { h with
    nodup := JsMap.nodup_keys_set h.nodup _ _
    keyed := fun e' l' hget ↦ ?_
    slots := fun e' l' hget ↦ ?_
    registered := fun e' l' hget ↦ ?_ }
  · rcases hcases e' l' hget with ⟨rfl, rfl⟩ | hget
    · rfl
    · exact h.keyed e' l' hget
  · rcases hcases e' l' hget with ⟨rfl, rfl⟩ | hget
    · exact hslot
    · exact h.slots e' l' hget
  · rcases hcases e' l' hget with ⟨rfl, rfl⟩ | hget
    · exact hclient
    · exact h.registered e' l' hget

theorem Basic.removeLease (h : Basic base retired s) (lease : PanelRuntimeLease) (stop : StopReason) (close : Bool) :
    Basic base retired (s.removeLease lease stop close) :=
  { (h.clearExpiry lease.runtimeEntityId).deleteLease lease.runtimeEntityId with }

theorem Basic.dropLease (h : Basic base retired s) (epoch : JsString) (lease : PanelRuntimeLease) (stop : StopReason) (close : Bool)
    (reason : PanelRuntimeLeaseChangedReason) : Basic base retired (s.dropLease epoch lease stop close reason) :=
  (h.removeLease lease stop close).emit _ _ _ _ _

theorem Basic.putLease (h : Basic base retired s) (hslot : isPanelSlotId l.slotId = true)
    (hclient : l.clientSessionId ∈ retired ∨ (s.clients.get l.clientSessionId).isSome = true)
    (reason : PanelRuntimeLeaseChangedReason) (defaultCdpLease : Bool) :
    Basic base retired (s.putLease epoch ids l reason defaultCdpLease) := by
  refine Basic.emit ?_ _ _ _ _ _
  exact { (h.clearExpiry l.runtimeEntityId).setLease hslot hclient with }

/-- A lease that is registered and stays so is written in another state. -/
theorem Basic.restamp (h : Basic base retired s) {l' : PanelRuntimeLease} (hl : s.leases.get l.runtimeEntityId = some l)
    (he : l'.runtimeEntityId = l.runtimeEntityId) (hslot : l'.slotId = l.slotId)
    (hclient : l'.clientSessionId = l.clientSessionId) (slotId : PanelSlotId)
    (reason : PanelRuntimeLeaseChangedReason) :
    Basic base retired (({ s with leases := s.leases.set l.runtimeEntityId l' } : PanelRuntimeCoordinator).emitChange epoch
      l.runtimeEntityId slotId (some l) (some l') reason) := by
  refine Basic.emit ?_ _ _ _ _ _
  have hset := h.setLease (l := l') (hslot ▸ h.slots _ l hl) (hclient ▸ h.registered _ l hl)
  rw [he] at hset
  exact hset

theorem mem_clients_of_getDefaultCdpHostClient {options : DefaultCdpHostOptions}
    {preferred : Option ClientPlatform} {client : ClientSession}
    (h : s.getDefaultCdpHostClient options preferred = some client) : client ∈ s.clients.map Prod.snd :=
  ((s.clients.map Prod.snd).perm_insertionSort _).mem_iff.mp (List.mem_of_find?_eq_some h)

theorem Basic.get_client (h : Basic base retired s) {client : ClientSession} (hmem : client ∈ s.clients.map Prod.snd) :
    (s.clients.get client.clientSessionId).isSome = true := by
  obtain ⟨⟨id, c⟩, hin, rfl⟩ := List.mem_map.mp hmem
  have hget := (JsMap.mem_iff_get h.clientKeys).mp hin
  dsimp only
  rw [h.clientIds id c hget, hget]
  rfl

theorem Basic.leaseForSlot (h : Basic base retired s) {slotId : PanelSlotId} (hl : s.leaseForSlot slotId = some l) :
    s.leases.get l.runtimeEntityId = some l ∧ l.slotId = slotId := by
  obtain ⟨⟨e, l'⟩, hmem, heq⟩ := List.mem_map.mp (List.mem_of_find?_eq_some hl)
  obtain rfl : l' = l := heq
  have hget := (JsMap.mem_iff_get h.nodup).mp hmem
  rw [leaseForSlot] at hl
  have hslot := List.find?_some hl
  refine ⟨?_, of_decide_eq_true hslot⟩
  rwa [h.keyed e l' hget]

/-! ## What keeps the fold in step -/

theorem inStep_emit_none (h : Tabulates ((foldEvents [] s.events).delete l.slotId) s.leases)
    (e : PanelEntityId) (previous : Option PanelRuntimeLease) (reason : PanelRuntimeLeaseChangedReason) :
    (s.emitChange epoch e l.slotId previous none reason).InStep := by
  rw [InStep, emitChange, foldEvents_append]
  exact h

theorem inStep_emit_some {slotId : PanelSlotId} (h : Tabulates ((foldEvents [] s.events).set slotId l) s.leases)
    (e : PanelEntityId) (previous : Option PanelRuntimeLease) (reason : PanelRuntimeLeaseChangedReason) :
    (s.emitChange epoch e slotId previous (some l) reason).InStep := by
  rw [InStep, emitChange, foldEvents_append]
  exact h

theorem InStep.dropLease (h : s.InStep) (epoch : JsString) (hB : Basic base retired s) (hl : s.leases.get l.runtimeEntityId = some l)
    (stop : StopReason) (close : Bool) (reason : PanelRuntimeLeaseChangedReason) :
    (s.dropLease epoch l stop close reason).InStep :=
  inStep_emit_none (s := s.removeLease l stop close) (Tabulates.delete h hB.keyed hl) _ _ _

/-- No other entity has a lease of the slot. -/
def slotFree (s : PanelRuntimeCoordinator) (slotId : PanelSlotId) (entityId : PanelEntityId) : Bool :=
  s.leases.all fun p ↦ decide (p.2.slotId = slotId → p.1 = entityId)

/-- The entity has no lease of another slot. -/
def staysInSlot (s : PanelRuntimeCoordinator) (slotId : PanelSlotId) (entityId : PanelEntityId) : Bool :=
  (s.leases.get entityId).all fun lease ↦ decide (lease.slotId = slotId)

theorem Basic.slotFree_iff (h : Basic base retired s) {slotId : PanelSlotId} {e : PanelEntityId} :
    s.slotFree slotId e = true ↔ ∀ e' l, s.leases.get e' = some l → l.slotId = slotId → e' = e := by
  rw [slotFree, List.all_eq_true]
  constructor
  · intro hall e' l hget
    exact of_decide_eq_true (hall (e', l) ((JsMap.mem_iff_get h.nodup).mpr hget))
  · rintro hall ⟨e', l⟩ hmem
    exact decide_eq_true (hall e' l ((JsMap.mem_iff_get h.nodup).mp hmem))

theorem staysInSlot_iff {slotId : PanelSlotId} {e : PanelEntityId} :
    s.staysInSlot slotId e = true ↔ ∀ l, s.leases.get e = some l → l.slotId = slotId := by
  rw [staysInSlot, Option.all_eq_true]
  simp only [decide_eq_true_iff]

/-- A slot that has no lease is free, and so is the slot of an entity's own lease. -/
theorem Basic.slotFree_of_leaseForSlot (h : Basic base retired s) {slotId : PanelSlotId}
    (hnone : s.leaseForSlot slotId = none) (e : PanelEntityId) : s.slotFree slotId e = true := by
  rw [h.slotFree_iff]
  intro e' l hget hslot
  have hmem : l ∈ s.leases.map Prod.snd := List.mem_map.mpr ⟨(e', l), (JsMap.mem_iff_get h.nodup).mpr hget, rfl⟩
  exact absurd hslot (of_decide_eq_false (Bool.eq_false_iff.mpr (List.find?_eq_none.mp hnone l hmem)))

/-- A lease is written where its slot is free and its entity stays. Of its slot, the fold may be behind. -/
theorem putLease_inStep (hB : Basic base retired s) {table : JsMap PanelSlotId PanelRuntimeLease}
    (h : Tabulates table s.leases)
    (htable : ∀ slotId ≠ l.slotId, table.get slotId = (foldEvents [] s.events).get slotId)
    (hfree : s.slotFree l.slotId l.runtimeEntityId = true) (hown : s.staysInSlot l.slotId l.runtimeEntityId = true)
    (reason : PanelRuntimeLeaseChangedReason) (defaultCdpLease : Bool) :
    (s.putLease epoch ids l reason defaultCdpLease).InStep := by
  have hset := Tabulates.set h (hB.slotFree_iff.mp hfree) (staysInSlot_iff.mp hown)
  rw [PanelRuntimeCoordinator.putLease]
  apply inStep_emit_some
  refine hset.congr (fun slotId ↦ ?_) fun _ ↦ rfl
  rw [JsMap.get_set, JsMap.get_set]
  split_ifs with heq
  · rfl
  · exact (htable slotId heq).symm

/-- A lease that is written over another of its entity, whose slot has just been announced as free. -/
theorem putLease_inStep_of_revoked (existing : PanelRuntimeLease) (hB : Basic base retired s)
    (hentity : l.runtimeEntityId = existing.runtimeEntityId)
    (h : Tabulates (foldEvents [] s.events) (s.leases.delete existing.runtimeEntityId))
    (hfree : s.slotFree l.slotId l.runtimeEntityId = true) (reason : PanelRuntimeLeaseChangedReason)
    (defaultCdpLease : Bool) : (s.putLease epoch ids l reason defaultCdpLease).InStep := by
  have hset := Tabulates.set (e := l.runtimeEntityId) (l := l) h
    (fun e' l' hget ↦ by
      rw [JsMap.get_delete] at hget
      split_ifs at hget
      exact hB.slotFree_iff.mp hfree e' l' hget)
    fun l' hget ↦ by
      rw [hentity, JsMap.get_delete, if_pos rfl] at hget
      cases hget
  rw [PanelRuntimeCoordinator.putLease]
  apply inStep_emit_some
  refine hset.congr (fun _ ↦ rfl) fun e ↦ ?_
  dsimp only
  rw [JsMap.get_set, JsMap.get_set, JsMap.get_delete]
  split_ifs with h1 h2
  · rfl
  · exact absurd (h2.trans hentity.symm) h1
  · rfl

theorem InStep.restamp (h : s.InStep) (hB : Basic base retired s) {l' : PanelRuntimeLease}
    (hl : s.leases.get l.runtimeEntityId = some l) (hslot : l'.slotId = l.slotId)
    (reason : PanelRuntimeLeaseChangedReason) :
    (({ s with leases := s.leases.set l.runtimeEntityId l' } : PanelRuntimeCoordinator).emitChange epoch
      l.runtimeEntityId l.slotId (some l) (some l') reason).InStep := by
  apply inStep_emit_some
  rw [← hslot]
  refine Tabulates.set h (fun e' l₂ hget hslot' ↦ ?_) fun l₂ hget ↦ ?_
  · have hsame := Tabulates.unique h hl hget (hslot'.trans hslot)
    exact (hB.keyed e' l₂ hget).symm.trans (congrArg _ hsame)
  · obtain rfl := Option.some.inj (hget.symm.trans hl)
    exact hslot.symm

/-! ## Operations -/

/-- What is kept by an operation: the fold stays in step when the operation is orderly. -/
structure Keeps (base : List PanelRuntimeLeaseChangedEvent) (orderly : Prop) (s s' : PanelRuntimeCoordinator) : Prop where
  basic : Basic base [] s'
  inStep : s.InStep → orderly → s'.InStep

/-- An operation that has done nothing when it throws. -/
structure Sound {α : Type} (base : List PanelRuntimeLeaseChangedEvent) (orderly : Prop) (s : PanelRuntimeCoordinator) (r : Outcome α) : Prop
    extends Keeps base orderly s r.1 where
  unchanged : ∀ e, r.2 = .error e → r.1 = s

section Rules

variable {α β : Type} {orderly orderly' : Prop} {r : Outcome α}

theorem Sound.refl (h : Basic base [] s) (x : Except JsString α) : Sound base orderly s (s, x) :=
  ⟨⟨h, fun hs _ ↦ hs⟩, fun _ _ ↦ rfl⟩

/-- An operation that does not throw. -/
theorem Keeps.sound {s' : PanelRuntimeCoordinator} {a : α} (h : Keeps base orderly s s') :
    Sound base orderly s (s', .ok a) := ⟨h, nofun⟩

theorem Sound.map (h : Sound base orderly s r) (f : α → β) : Sound base orderly s (r.1, r.2.map f) := by
  refine ⟨h.toKeeps, fun e he ↦ h.unchanged e ?_⟩
  rcases hr : r.2 with e' | a
  · rw [hr] at he
    exact congrArg _ (Except.error.inj he)
  · rw [hr] at he
    exact nomatch he

theorem Sound.of_imp (h : Sound base orderly s r) (himp : orderly' → orderly) : Sound base orderly' s r :=
  ⟨⟨h.basic, fun hs hok ↦ h.inStep hs (himp hok)⟩, h.unchanged⟩

theorem Sound.withPanelSlotId (hB : Basic base [] s) {slotId : JsString} {k : PanelSlotId → Outcome α}
    (h : isPanelSlotId slotId = true → Sound base orderly s (k slotId)) :
    Sound base orderly s (s.withPanelSlotId slotId k) := by
  unfold PanelRuntimeCoordinator.withPanelSlotId asPanelSlotId
  by_cases hslot : isPanelSlotId slotId = true
  · rw [if_pos hslot]
    exact h hslot
  · rw [if_neg hslot]
    exact .refl hB _

theorem Sound.withPanelEntityId (hB : Basic base [] s) {entityId : JsString} {k : PanelEntityId → Outcome α}
    (h : isPanelEntityId entityId = true → Sound base orderly s (k entityId)) :
    Sound base orderly s (s.withPanelEntityId entityId k) := by
  unfold PanelRuntimeCoordinator.withPanelEntityId asPanelEntityId
  by_cases hentity : isPanelEntityId entityId = true
  · rw [if_pos hentity]
    exact h hentity
  · rw [if_neg hentity]
    exact .refl hB _

end Rules

/-- `writeLease` does not throw. -/
def admits (s : PanelRuntimeCoordinator) (input : PanelRuntimeLeaseRequest) : Bool :=
  (s.clients.get input.clientSessionId).isSome && isPanelSlotId input.slotId

variable {entityId : PanelEntityId} {slotId : PanelSlotId} {input : PanelRuntimeLeaseRequest}

theorem writeLease_eq {client : ClientSession} (hclient : s.clients.get input.clientSessionId = some client)
    (hslot : isPanelSlotId input.slotId = true) (reason : PanelRuntimeLeaseChangedReason) (defaultCdpLease : Bool) :
    s.writeLease epoch ids now entityId input reason defaultCdpLease =
      (s.putLease epoch ids (s.leaseOf now entityId client input.slotId input) reason defaultCdpLease,
        .ok (s.leaseOf now entityId client input.slotId input, ⟨epoch, s.counter + 1⟩)) := by
  simp only [writeLease, hclient, PanelRuntimeCoordinator.withPanelSlotId, asPanelSlotId, if_pos hslot]

/-- `writeLease` throws before it changes anything. -/
theorem writeLease_error (h : s.admits input = false) (reason : PanelRuntimeLeaseChangedReason)
    (defaultCdpLease : Bool) : ∃ e, s.writeLease epoch ids now entityId input reason defaultCdpLease =
      (s, .error e) := by
  unfold writeLease
  split
  · exact ⟨_, rfl⟩
  · rename_i client hclient
    have hslot : ¬ isPanelSlotId input.slotId = true := by
      intro hslot
      rw [admits, hclient, hslot] at h
      exact nomatch h
    simp only [PanelRuntimeCoordinator.withPanelSlotId, asPanelSlotId, if_neg hslot]
    exact ⟨_, rfl⟩

theorem admits_iff : s.admits input = true ↔
    (∃ client, s.clients.get input.clientSessionId = some client) ∧ isPanelSlotId input.slotId = true := by
  rw [admits, Bool.and_eq_true, Option.isSome_iff_exists]

/-- A lease is granted, or `writeLease` throws. -/
theorem grant_cases (s : PanelRuntimeCoordinator) (epoch : JsString) (ids : RandomUuid) (now : ℕ) (entityId : PanelEntityId)
    (input : PanelRuntimeLeaseRequest) :
    (s.admits input = false ∧ ∃ e, s.grant epoch ids now entityId input = (s, .error e)) ∨
    (s.admits input = true ∧ ∃ client, s.clients.get input.clientSessionId = some client ∧
      ∃ version, s.grant epoch ids now entityId input =
        (s.putLease epoch ids (s.leaseOf now entityId client input.slotId input) .acquired false,
          .ok ⟨true, s.leaseOf now entityId client input.slotId input, version⟩)) := by
  rcases hadmits : s.admits input with _ | _
  · obtain ⟨e, he⟩ : ∃ e, s.writeLease epoch ids now entityId input .acquired false = (s, .error e) :=
      writeLease_error hadmits .acquired false
    refine .inl ⟨rfl, e, ?_⟩
    rw [grant, he]
    rfl
  · obtain ⟨⟨client, hclient⟩, hslot⟩ := admits_iff.mp hadmits
    refine .inr ⟨rfl, client, hclient, ⟨epoch, s.counter + 1⟩, ?_⟩
    rw [grant, writeLease_eq hclient hslot]
    rfl

/-- The lease that is written is orderly. -/
def placed (s : PanelRuntimeCoordinator) (slotId : PanelSlotId) (entityId : PanelEntityId) : Bool :=
  s.slotFree slotId entityId && s.staysInSlot slotId entityId

theorem placed_iff : s.placed slotId entityId = true ↔
    s.slotFree slotId entityId = true ∧ s.staysInSlot slotId entityId = true := by
  rw [placed, Bool.and_eq_true]

theorem grant_sound (hB : Basic base [] s) : Sound base (s.admits input = true → s.placed input.slotId entityId = true) s
    (s.grant epoch ids now entityId input) := by
  rcases grant_cases s epoch ids now entityId input with ⟨-, e, h⟩ | ⟨hok, client, hclient, v, h⟩
  · rw [h]
    exact .refl hB _
  · rw [h]
    have hreg : (s.clients.get input.clientSessionId).isSome = true := by rw [hclient]; rfl
    refine Keeps.sound ⟨hB.putLease (admits_iff.mp hok).2 (.inr hreg) _ _, fun hs hplaced ↦ ?_⟩
    obtain ⟨hfree, hown⟩ := placed_iff.mp (hplaced hok)
    exact putLease_inStep hB hs (fun _ _ ↦ rfl) hfree hown _ _

theorem assignHost_eq {client : ClientSession} {clientSessionId hostConnectionId connectionPrefix : JsString}
    (hclient : s.clients.get clientSessionId = some client) (hslot : isPanelSlotId slotId = true)
    (defaultCdpLease : Bool) :
    s.assignHost epoch ids now entityId slotId clientSessionId hostConnectionId connectionPrefix defaultCdpLease =
      (s.drawUuid.putLease epoch ids (s.leaseOf now entityId client slotId
        ⟨slotId, clientSessionId, connectionPrefix ++ ids.uuid s.routes.drawn, hostConnectionId⟩) .acquired
        defaultCdpLease, .ok (s.leaseOf now entityId client slotId
        ⟨slotId, clientSessionId, connectionPrefix ++ ids.uuid s.routes.drawn, hostConnectionId⟩)) := by
  rw [assignHost, writeLease_eq (s := s.drawUuid) hclient hslot]
  rfl

/-- What an assignment to a registered host leaves: it does not throw, and writes at most one lease. -/
structure Assigned {α : Type} (base : List PanelRuntimeLeaseChangedEvent) (s : PanelRuntimeCoordinator) (entityId : PanelEntityId) (slotId : PanelSlotId)
    (r : Outcome α) : Prop where
  returns : ∃ a, r.2 = .ok a
  basic : Basic base [] r.1
  inStep : s.InStep → s.placed slotId entityId = true → r.1.InStep
  leases : ∀ e l, r.1.leases.get e = some l → s.leases.get e = some l ∨ e = entityId ∧ l.slotId = slotId

theorem Assigned.sound {α : Type} {r : Outcome α} (h : Assigned base s entityId slotId r) :
    Sound base (s.placed slotId entityId = true) s r := by
  refine ⟨⟨h.basic, h.inStep⟩, fun e he ↦ ?_⟩
  obtain ⟨a, ha⟩ := h.returns
  rw [ha] at he
  exact nomatch he

theorem Assigned.map {α β : Type} {r : Outcome α} (h : Assigned base s entityId slotId r) (f : α → β) :
    Assigned base s entityId slotId (r.1, r.2.map f) := by
  obtain ⟨a, ha⟩ := h.returns
  refine ⟨⟨f a, ?_⟩, h.basic, h.inStep, h.leases⟩
  rw [ha]
  rfl

theorem assignHost_inStep (hB : Basic base [] s) {clientSessionId : JsString}
    (hclient : (s.clients.get clientSessionId).isSome = true) (hslot : isPanelSlotId slotId = true)
    {table : JsMap PanelSlotId PanelRuntimeLease} (h : Tabulates table s.leases)
    (htable : ∀ slotId' ≠ slotId, table.get slotId' = (foldEvents [] s.events).get slotId')
    (hplaced : s.placed slotId entityId = true) (hostConnectionId connectionPrefix : JsString)
    (defaultCdpLease : Bool) : (s.assignHost epoch ids now entityId slotId clientSessionId hostConnectionId
      connectionPrefix defaultCdpLease).1.InStep := by
  obtain ⟨client, hget⟩ := Option.isSome_iff_exists.mp hclient
  have hB' : Basic base [] s.drawUuid := { hB with }
  obtain ⟨hfree, hown⟩ := placed_iff.mp hplaced
  rw [assignHost_eq hget hslot]
  refine putLease_inStep (s := s.drawUuid) hB' h ?_ ?_ ?_ _ _
  · exact htable
  · exact hfree
  · exact hown

theorem assignHost_assigned (epoch : JsString) (ids : RandomUuid) (now : ℕ) (entityId : PanelEntityId) (hB : Basic base [] s) {clientSessionId : JsString}
    (hclient : (s.clients.get clientSessionId).isSome = true) (hslot : isPanelSlotId slotId = true)
    (hostConnectionId connectionPrefix : JsString) (defaultCdpLease : Bool) :
    Assigned base s entityId slotId (s.assignHost epoch ids now entityId slotId clientSessionId hostConnectionId
      connectionPrefix defaultCdpLease) := by
  have hinStep (hs : s.InStep) (hplaced : s.placed slotId entityId = true) : (s.assignHost epoch ids now entityId
      slotId clientSessionId hostConnectionId connectionPrefix defaultCdpLease).1.InStep :=
    assignHost_inStep hB hclient hslot hs (fun _ _ ↦ rfl) hplaced hostConnectionId connectionPrefix defaultCdpLease
  obtain ⟨client, hget⟩ := Option.isSome_iff_exists.mp hclient
  have hB' : Basic base [] s.drawUuid := { hB with }
  rw [assignHost_eq hget hslot] at hinStep ⊢
  refine ⟨⟨_, rfl⟩, hB'.putLease hslot (.inr hclient) _ _, hinStep, fun e l hl ↦ ?_⟩
  change (s.leases.set _ _).get e = some l at hl
  rw [JsMap.get_set] at hl
  split_ifs at hl with he
  · exact .inr ⟨he, Option.some.inj hl ▸ rfl⟩
  · exact .inl hl

theorem assignDefaultCdpHost_assigned (epoch : JsString) (ids : RandomUuid) (now : ℕ) (entityId : PanelEntityId) (hB : Basic base [] s) (hslot : isPanelSlotId slotId = true)
    (excludedHostConnectionId : JsString) :
    Assigned base s entityId slotId (s.assignDefaultCdpHost epoch ids now entityId slotId excludedHostConnectionId) := by
  unfold assignDefaultCdpHost
  split
  · exact ⟨⟨_, rfl⟩, hB, fun hs _ ↦ hs, fun e l hl ↦ .inl hl⟩
  · rename_i client hclient
    have h := assignHost_assigned epoch ids now entityId hB
      (hB.get_client (mem_clients_of_getDefaultCdpHostClient hclient)) hslot client.hostConnectionId
      (cdpConnectionPrefix (lit "default") slotId) true
    exact h.map some

/-! ### Leases by slot -/

/-- A slot has one lease, said of the leases alone. -/
def OneLeaseASlot (s : PanelRuntimeCoordinator) : Prop :=
  ∀ e l e' l', s.leases.get e = some l → s.leases.get e' = some l' → l'.slotId = l.slotId → e' = e

theorem InStep.oneLeaseASlot (h : s.InStep) (hB : Basic base retired s) : s.OneLeaseASlot := by
  intro e l e' l' hl hl' hslot
  have hsame := Tabulates.unique h hl hl' hslot
  exact (hB.keyed e' l' hl').symm.trans ((congrArg _ hsame).trans (hB.keyed e l hl))

/-- When the lease of a slot is deleted the slot is free. -/
theorem OneLeaseASlot.removed (h : s.OneLeaseASlot) (hl : s.leases.get l.runtimeEntityId = some l) {e : PanelEntityId}
    {l' : PanelRuntimeLease} (hl' : (s.leases.delete l.runtimeEntityId).get e = some l') : l'.slotId ≠ l.slotId := by
  intro hslot
  rw [JsMap.get_delete] at hl'
  split_ifs at hl' with he
  exact he (h _ l e l' hl hl' hslot)

theorem Basic.placed_of_dropped (hB : Basic base [] s) (h : s.OneLeaseASlot)
    (hl : s.leases.get l.runtimeEntityId = some l) (he : (s.leases.delete l.runtimeEntityId).get entityId = none)
    (stop : StopReason) (close : Bool) (reason : PanelRuntimeLeaseChangedReason) :
    (s.dropLease epoch l stop close reason).placed l.slotId entityId = true := by
  rw [placed_iff, (hB.dropLease _ l stop close reason).slotFree_iff, staysInSlot_iff]
  constructor
  · exact fun e' l' hget hslot ↦ absurd hslot (h.removed hl hget)
  · intro l' hget
    exact nomatch he.symm.trans hget

/-! ### One operation after the other -/

theorem registerClient_keeps (hB : Basic base [] s) (input : PanelHostRegistration) :
    Keeps base True s (s.registerClient input) := by
  refine ⟨{ hB with
    clientKeys := JsMap.nodup_keys_set hB.clientKeys _ _
    clientIds := fun id client hget ↦ ?_
    registered := fun e l hget ↦ .inr ?_ }, fun hs _ ↦ hs⟩
  · rw [registerClient, JsMap.get_set] at hget
    split_ifs at hget with hid
    · rw [hid, ← Option.some.inj hget]
    · exact hB.clientIds id client hget
  · rw [registerClient, JsMap.get_set]
    split_ifs
    · rfl
    · exact (hB.registered e l hget).resolve_left List.not_mem_nil

/-- `acquire` writes a lease, if `writeLease` does not throw. -/
def acquireWrites (s : PanelRuntimeCoordinator) (entityId : PanelEntityId) (input : PanelRuntimeLeaseRequest) :
    Bool :=
  (s.leases.get entityId).all fun existing ↦ decide (existing.clientSessionId = input.clientSessionId ∧
    ¬ (existing.expiresAt = none ∧ s.routes.healthy input.slotId entityId = true))

theorem acquire_sound (hB : Basic base [] s) (runtimeEntityId : JsString) (input : PanelRuntimeLeaseRequest) :
    Sound base (isPanelEntityId runtimeEntityId = true → s.acquireWrites runtimeEntityId input = true →
      s.admits input = true → s.placed input.slotId runtimeEntityId = true) s
      (s.acquire epoch ids now runtimeEntityId input) := by
  refine .withPanelEntityId hB fun hid ↦ ?_
  split
  · rename_i hnone
    exact (grant_sound hB).of_imp fun h ↦ h hid (by rw [acquireWrites, hnone]; rfl)
  · rename_i existing hl
    split_ifs with hclient
    · exact .refl hB _
    · refine .withPanelSlotId hB fun _ ↦ ?_
      split_ifs with hhealthy
      · exact .refl hB _
      · refine (grant_sound hB).of_imp fun h ↦ h hid ?_
        rw [acquireWrites, hl]
        exact decide_eq_true ⟨not_not.mp hclient, hhealthy⟩

/-- The lease that `takeOver` revokes. -/
def revoked (s : PanelRuntimeCoordinator) (entityId : PanelEntityId) (input : PanelRuntimeLeaseRequest) :
    Option PanelRuntimeLease :=
  (s.leases.get entityId).filter fun lease ↦ decide (lease.connectionId ≠ input.connectionId)

/-- After a revocation the lease has to be written, and may be written into any slot that is free. -/
def takeOverOrderly (s : PanelRuntimeCoordinator) (entityId : PanelEntityId) (input : PanelRuntimeLeaseRequest) :
    Bool :=
  match s.revoked entityId input with
  | none => !s.admits input || s.placed input.slotId entityId
  | some _ => s.admits input && s.slotFree input.slotId entityId

theorem get_of_revoked (h : s.revoked entityId input = some l) : s.leases.get entityId = some l :=
  (Option.filter_eq_some_iff.mp h).1

theorem takeOver_eq {runtimeEntityId : JsString} (h : isPanelEntityId runtimeEntityId = true)
    (input : PanelRuntimeLeaseRequest) : s.takeOver epoch ids now runtimeEntityId input =
      ((s.revoked runtimeEntityId input).elim s (s.revoke epoch)).grant epoch ids now runtimeEntityId input := by
  unfold takeOver PanelRuntimeCoordinator.withPanelEntityId asPanelEntityId revoked
  rw [if_pos h]
  dsimp only
  split <;> rename_i heq <;> rw [heq] <;> rfl

theorem Basic.revoke (hB : Basic base retired s) (existing : PanelRuntimeLease) :
    Basic base retired (s.revoke epoch existing) := by
  refine Basic.emit ?_ _ _ _ _ _
  exact { hB with }

theorem takeOver_keeps (epoch : JsString) (ids : RandomUuid) (now : ℕ) (hB : Basic base [] s) (runtimeEntityId : JsString) (input : PanelRuntimeLeaseRequest) :
    Keeps base (isPanelEntityId runtimeEntityId = true → s.takeOverOrderly runtimeEntityId input = true) s
      (s.takeOver epoch ids now runtimeEntityId input).1 := by
  by_cases hid : isPanelEntityId runtimeEntityId = true
  · rw [takeOver_eq hid]
    cases hrevoked : s.revoked runtimeEntityId input with
    | none =>
      refine ((grant_sound hB).of_imp fun h hadmits ↦ ?_).toKeeps
      have hok := h hid
      rw [takeOverOrderly, hrevoked, hadmits] at hok
      exact hok
    | some existing =>
      have hl := get_of_revoked hrevoked
      have hkey := hB.keyed _ _ hl
      have hB' : Basic base [] (s.revoke epoch existing) := hB.revoke existing
      refine ⟨(grant_sound hB').basic, fun hs hok ↦ ?_⟩
      have hok := hok hid
      rw [takeOverOrderly, hrevoked, Bool.and_eq_true] at hok
      rcases grant_cases (s.revoke epoch existing) epoch ids now runtimeEntityId input with
        ⟨hnot, -⟩ | ⟨-, client, -, v, h⟩
      · exact absurd (hok.1.symm.trans hnot) Bool.noConfusion
      · dsimp only [Option.elim_some]
        rw [h]
        refine putLease_inStep_of_revoked existing hB' hkey.symm ?_ ?_ _ _
        · -- The fold has lost the slot, and the lease will be overwritten.
          rw [revoke, emitChange, foldEvents_append]
          exact Tabulates.delete hs hB.keyed (hkey.symm ▸ hl)
        · exact hok.2
  · have herror : ∃ e, s.takeOver epoch ids now runtimeEntityId input = (s, .error e) := by
      simp only [takeOver, PanelRuntimeCoordinator.withPanelEntityId, asPanelEntityId, if_neg hid]
      exact ⟨_, rfl⟩
    obtain ⟨e, he⟩ := herror
    rw [he]
    exact ⟨hB, fun hs _ ↦ hs⟩

/-- A lease is dropped, and a lease of its slot is assigned to another host. -/
theorem dropped_assigned {α : Type} {r : Outcome α} (hB : Basic base [] s) (hl : s.leases.get l.runtimeEntityId = some l)
    (he : (s.leases.delete l.runtimeEntityId).get entityId = none) {stop : StopReason} {close : Bool}
    {reason : PanelRuntimeLeaseChangedReason}
    (h : Assigned base (s.dropLease epoch l stop close reason) entityId l.slotId r) : Sound base True s r := by
  refine ⟨⟨h.basic, fun hs _ ↦ h.inStep (hs.dropLease _ hB hl _ _ _) ?_⟩, fun e herror ↦ ?_⟩
  · exact hB.placed_of_dropped (hs.oneLeaseASlot hB) hl he _ _ _
  · obtain ⟨a, ha⟩ := h.returns
    exact nomatch ha.symm.trans herror

theorem release_sound (epoch : JsString) (ids : RandomUuid) (now : ℕ) (hB : Basic base [] s) (runtimeEntityId connectionId : JsString)
    (reason : PanelRuntimeLeaseChangedReason) :
    Sound base True s (s.release epoch ids now runtimeEntityId connectionId reason) := by
  refine .withPanelEntityId hB fun _ ↦ ?_
  split
  · exact .refl hB _
  · rename_i existing heq
    obtain ⟨hl, -⟩ := Option.filter_eq_some_iff.mp heq
    have hkey := hB.keyed _ _ hl
    have hl' : s.leases.get existing.runtimeEntityId = some existing := hkey.symm ▸ hl
    by_cases hkept : existing.slotId ∈ s.keptLoadedSlots
    · rw [if_pos hkept]
      exact Keeps.sound ⟨hB.clearExpiry _, fun hs _ ↦ hs⟩
    · rw [if_neg hkept]
      dsimp only
      generalize (if reason = .expired then StopReason.hostLost else .unloaded) = stop
      have hD := hB.dropLease epoch existing stop false reason
      by_cases hreassign : (reason = .released ∨ reason = .expired) ∧
          shouldReassignDefaultCdpLease existing (s.wasDefaultCdpLease existing) = true
      · rw [if_pos hreassign]
        refine Sound.map (dropped_assigned hB hl' ?_ (assignDefaultCdpHost_assigned _ _ _ _ hD (hB.slots _ _ hl) _)) _
        rw [JsMap.get_delete, if_pos hkey.symm]
      · rw [if_neg hreassign]
        exact Keeps.sound ⟨hD, fun hs _ ↦ hs.dropLease _ hB hl' _ _ _⟩

theorem unloadSlot_sound (hB : Basic base [] s) (slotId : JsString) : Sound base True s (s.unloadSlot epoch slotId) := by
  refine .withPanelSlotId hB fun _ ↦ ?_
  split_ifs
  · exact .refl hB _
  · split
    · rename_i lease hlease
      obtain ⟨hl, -⟩ := hB.leaseForSlot hlease
      exact Keeps.sound ⟨hB.dropLease _ lease _ _ _, fun hs _ ↦ hs.dropLease _ hB hl _ _ _⟩
    · split
      · exact .refl hB _
      · exact Keeps.sound ⟨{ hB with }, fun hs _ ↦ hs⟩

/-- An entity without a lease may be given one of a slot without a lease. -/
theorem Basic.placed_of_none (hB : Basic base [] s) (hl : s.leases.get entityId = none)
    (hslot : s.leaseForSlot slotId = none) : s.placed slotId entityId = true := by
  rw [placed_iff, staysInSlot_iff]
  exact ⟨hB.slotFree_of_leaseForSlot hslot entityId, fun l hget ↦ nomatch hl.symm.trans hget⟩

theorem adoptHostLeaseForSlot_sound (hB : Basic base [] s) (slotId runtimeEntityId hostConnectionId : JsString) :
    Sound base True s (s.adoptHostLeaseForSlot epoch ids now slotId runtimeEntityId hostConnectionId) := by
  refine .withPanelSlotId hB fun hslot ↦ .withPanelEntityId hB fun _ ↦ ?_
  split
  · exact .refl hB _
  · rename_i hnone
    rw [Option.orElse_eq_orElse, Option.orElse_eq_or] at hnone
    obtain ⟨hentity, hfree⟩ := Option.or_eq_none_iff.mp hnone
    split
    · exact .refl hB _
    · rename_i client hclient
      have hmem := List.mem_of_find?_eq_some (Option.filter_eq_some_iff.mp hclient).1
      refine Sound.map (Assigned.sound (assignHost_assigned _ _ _ _ hB (hB.get_client hmem) hslot _ _ _)) some |>.of_imp ?_
      exact fun _ ↦ hB.placed_of_none hentity hfree

theorem replaceCdpLease_sound (hB : Basic base [] s) (hl : s.leases.get l.runtimeEntityId = some l)
    (he : (s.leases.delete l.runtimeEntityId).get entityId = none) (options : DefaultCdpHostOptions)
    (hostSelection : HostSelection) :
    Sound base True s (s.replaceCdpLease epoch ids now entityId l options hostSelection) := by
  unfold replaceCdpLease
  split
  · exact .refl hB _
  · rename_i client hclient
    have hmem := mem_clients_of_getDefaultCdpHostClient (Option.filter_eq_some_iff.mp hclient).1
    refine Sound.map (dropped_assigned hB hl he (assignHost_assigned _ _ _ _ (hB.dropLease _ _ _ _ _) ?_ (hB.slots _ _ hl) _ _ _)) _
    exact hB.get_client hmem

/-- The lease of the entity is announced as one of its own slot. -/
def announcesOwnSlot (s : PanelRuntimeCoordinator) (slotId : PanelSlotId) (entityId : PanelEntityId)
    (options : DefaultCdpHostOptions) : Bool :=
  (s.leases.get entityId).all fun existing ↦
    decide (s.decideEntityLease slotId entityId existing options = .announce → existing.slotId = slotId)

theorem ensureHeldEntity_sound (hB : Basic base [] s) (hl : s.leases.get entityId = some l)
    (options : DefaultCdpHostOptions) : Sound base (s.announcesOwnSlot slotId entityId options = true) s
      (s.ensureHeldEntity epoch ids now slotId entityId l options) := by
  have hkey := hB.keyed _ _ hl
  have hl' : s.leases.get l.runtimeEntityId = some l := hkey.symm ▸ hl
  unfold ensureHeldEntity
  split
  · exact .refl hB _
  · refine (replaceCdpLease_sound hB hl' ?_ options _).of_imp fun _ ↦ trivial
    rw [JsMap.get_delete, if_pos hkey.symm]
  · rename_i hannounce
    refine Keeps.sound ⟨hB.emit _ _ _ _ _, fun hs hok ↦ inStep_emit_some ?_ _ _ _⟩
    rw [announcesOwnSlot, hl, Option.all_some, decide_eq_true_iff] at hok
    obtain rfl := hok hannounce
    -- The table holds the lease already.
    refine Tabulates.congr hs (fun slotId ↦ ?_) fun _ ↦ rfl
    rw [JsMap.get_set]
    split_ifs with heq
    · rw [heq]
      exact ((hs l.slotId l).mpr ⟨entityId, hl, rfl⟩).symm
    · rfl

/-- The lease of the entity moves to the next one, which has no lease. -/
def transfers (s : PanelRuntimeCoordinator) (slotId : PanelSlotId) (previous next : PanelEntityId) : Bool :=
  decide (previous ≠ next → ((s.leases.get previous).filter fun lease ↦ decide (lease.slotId = slotId)) ≠ none →
    s.leases.get next = none)

theorem removed_get (hne : l.runtimeEntityId ≠ entityId) (stop : StopReason) (close : Bool) :
    (s.removeLease l stop close).leases.get entityId = s.leases.get entityId := by
  change (s.leases.delete l.runtimeEntityId).get entityId = _
  rw [JsMap.get_delete, if_neg hne.symm]

theorem transferLease_sound (hB : Basic base [] s) (hl : s.leases.get l.runtimeEntityId = some l)
    (hne : l.runtimeEntityId ≠ entityId) (wasDefaultCdpLease : Bool) :
    Sound base (s.leases.get entityId = none) s ((s.removeLease l .superseded true).transferLease epoch ids now l.slotId l
      entityId wasDefaultCdpLease) := by
  have hR := hB.removeLease l .superseded true
  have hslot := hB.slots _ _ hl
  unfold transferLease
  split
  · rename_i existingNext hnext
    refine Keeps.sound ⟨hR.emit _ _ _ _ _, fun _ hok ↦ ?_⟩
    rw [removed_get hne, hok] at hnext
    cases hnext
  · rename_i hnext
    have htable : s.InStep → Tabulates ((foldEvents [] s.events).delete l.slotId)
        (s.leases.delete l.runtimeEntityId) := fun hs ↦ Tabulates.delete hs hB.keyed hl
    split_ifs
    · have hclient := (hB.registered _ _ hl).resolve_left List.not_mem_nil
      have hassigned := assignHost_assigned epoch ids now entityId hR hclient hslot l.hostConnectionId [] wasDefaultCdpLease
      refine Sound.map ⟨⟨hassigned.basic, fun hs _ ↦ ?_⟩, fun e he ↦ ?_⟩ some
      · refine assignHost_inStep hR hclient hslot (htable hs) (fun slotId' hne' ↦ ?_) ?_ _ _ _
        · rw [JsMap.get_delete, if_neg hne']
          rfl
        · rw [placed_iff, hR.slotFree_iff, staysInSlot_iff]
          constructor
          · exact fun e' l' hget hslot' ↦ absurd hslot' ((hs.oneLeaseASlot hB).removed hl hget)
          · exact fun l' hget ↦ (by cases hnext.symm.trans hget)
      · obtain ⟨a, ha⟩ := hassigned.returns
        cases ha.symm.trans he
    · refine Keeps.sound ⟨?_, fun hs _ ↦ inStep_emit_none ?_ _ _ _⟩
      · refine Basic.emit ?_ _ _ _ _ _
        exact { hR with }
      · exact htable hs

theorem replaceRuntimeEntityForSlot_sound (hB : Basic base [] s) (slotId previousId nextId : JsString) :
    Sound base (s.transfers slotId previousId nextId = true) s
      (s.replaceRuntimeEntityForSlot epoch ids now slotId previousId nextId) := by
  refine .withPanelSlotId hB fun _ ↦ .withPanelEntityId hB fun _ ↦ .withPanelEntityId hB fun _ ↦ ?_
  split_ifs with hne
  · exact .refl hB _
  · split
    · exact .refl hB _
    · rename_i previous heq
      obtain ⟨hl, hslot⟩ := Option.filter_eq_some_iff.mp heq
      obtain rfl := of_decide_eq_true hslot
      have hkey := hB.keyed _ _ hl
      refine (transferLease_sound hB (hkey.symm ▸ hl) (hkey.symm ▸ hne) _).of_imp fun hok ↦ ?_
      exact of_decide_eq_true hok hne (by rw [heq]; exact Option.some_ne_none _)

/-- The lease of the slot is one of another entity, and the entity has none. -/
def advances (s : PanelRuntimeCoordinator) (slotId : PanelSlotId) (next : PanelEntityId) : Bool :=
  (s.leaseForSlot slotId).all fun lease ↦ s.transfers slotId lease.runtimeEntityId next

theorem advanceResidentSlotEntity_sound (hB : Basic base [] s) (slotId nextId : JsString) :
    Sound base (s.advances slotId nextId = true) s (s.advanceResidentSlotEntity epoch ids now slotId nextId) := by
  refine .withPanelSlotId hB fun _ ↦ .withPanelEntityId hB fun _ ↦ ?_
  split
  · exact .refl hB _
  · rename_i lease hlease
    split_ifs
    · exact .refl hB _
    · refine (replaceRuntimeEntityForSlot_sound hB _ _ _).of_imp fun hok ↦ ?_
      rw [advances, hlease] at hok
      exact hok

theorem ensureHeldSlot_sound (hB : Basic base [] s) (hnone : s.leases.get entityId = none)
    (hlease : s.leaseForSlot slotId = some l) (options : DefaultCdpHostOptions) :
    Sound base True s (s.ensureHeldSlot epoch ids now slotId entityId l options) := by
  obtain ⟨hl, rfl⟩ := hB.leaseForSlot hlease
  unfold ensureHeldSlot
  split_ifs
  · exact .refl hB _
  · refine Sound.map (replaceRuntimeEntityForSlot_sound hB _ _ _) (fun o ↦ CdpHostAssignment.assigned (o.getD l))
      |>.of_imp fun _ ↦ ?_
    exact decide_eq_true fun _ _ ↦ hnone
  · refine replaceCdpLease_sound hB hl ?_ options _
    rw [JsMap.get_delete, hnone, ite_self]
  · exact .refl hB _

theorem ensureDefaultCdpHostForSlot_sound (hB : Basic base [] s) (slotId runtimeEntityId : JsString)
    (options : DefaultCdpHostOptions) :
    Sound base (isPanelSlotId slotId = true → s.announcesOwnSlot slotId runtimeEntityId options = true) s
      (s.ensureDefaultCdpHostForSlot epoch ids now slotId runtimeEntityId options) := by
  refine .withPanelSlotId hB fun hslot ↦ .withPanelEntityId hB fun _ ↦ ?_
  split
  · rename_i existing hl
    exact (ensureHeldEntity_sound hB hl options).of_imp fun h ↦ h hslot
  · rename_i hnone
    split
    · rename_i lease hlease
      exact (ensureHeldSlot_sound hB hnone hlease options).of_imp fun _ ↦ trivial
    · rename_i hfree
      split
      · exact .refl hB _
      · rename_i client hclient
        have hmem := mem_clients_of_getDefaultCdpHostClient hclient
        refine Sound.map (Assigned.sound (assignHost_assigned _ _ _ _ hB (hB.get_client hmem) hslot _ _ _))
          CdpHostAssignment.assigned |>.of_imp ?_
        exact fun _ ↦ hB.placed_of_none hnone hfree

theorem retireRuntimeEntity_keeps (hB : Basic base [] s) (entityId : JsString) :
    Keeps base True s (s.retireRuntimeEntity epoch entityId) := by
  unfold retireRuntimeEntity
  split_ifs
  · obtain ⟨hleases, hevents, hB'⟩ : (s.retireHostHeld entityId).leases = s.leases ∧
        (s.retireHostHeld entityId).events = s.events ∧ Basic base [] (s.retireHostHeld entityId) := by
      unfold retireHostHeld
      split
      · exact ⟨rfl, rfl, hB⟩
      · exact ⟨rfl, rfl, { hB with }⟩
    have hstep : s.InStep → (s.retireHostHeld entityId).InStep := by
      intro hs
      rw [InStep, hleases, hevents]
      exact hs
    dsimp only
    cases hl : (s.retireHostHeld entityId).leases.get entityId with
    | none => exact ⟨{ hB' with }, fun hs _ ↦ hstep hs⟩
    | some existing =>
      have hkey := hB'.keyed _ _ hl
      have hD := hB'.dropLease epoch existing .retired true .retired
      refine ⟨{ hD with }, fun hs _ ↦ ?_⟩
      exact (hstep hs).dropLease epoch hB' (hkey.symm ▸ hl) .retired true .retired
  · exact ⟨hB, fun hs _ ↦ hs⟩

/-- **The rule of a loop over the leases** whose rounds touch the lease of their own entity only. -/
theorem foldl_leases {σ : Type} (leases : σ → JsMap PanelEntityId PanelRuntimeLease) {f : σ → PanelRuntimeLease → σ}
    {P : List PanelRuntimeLease → σ → Prop}
    (hf : ∀ l rest t, P (l :: rest) t → (leases t).get l.runtimeEntityId = some l → P rest (f t l) ∧
      ∀ e ≠ l.runtimeEntityId, (leases (f t l)).get e = (leases t).get e) :
    ∀ {L : List PanelRuntimeLease} {t : σ}, (L.map PanelRuntimeLease.runtimeEntityId).Nodup →
      (∀ l ∈ L, (leases t).get l.runtimeEntityId = some l) → P L t → P [] (L.foldl f t) := by
  intro L
  induction L with
  | nil => exact fun _ _ h ↦ h
  | cons l L ih =>
    intro t hnodup hmem hP
    rw [List.map_cons, List.nodup_cons] at hnodup
    obtain ⟨hP', hother⟩ := hf l L t hP (hmem l List.mem_cons_self)
    refine ih hnodup.2 (fun l' hl' ↦ ?_) hP'
    rw [hother, hmem l' (List.mem_cons_of_mem _ hl')]
    rintro heq
    exact hnodup.1 (heq ▸ List.mem_map_of_mem hl')

/-- The leases of a state, as the loops see them. -/
theorem Basic.values (hB : Basic base retired s) :
    ((s.leases.map Prod.snd).map PanelRuntimeLease.runtimeEntityId).Nodup ∧
      ∀ l ∈ s.leases.map Prod.snd, s.leases.get l.runtimeEntityId = some l := by
  have hget : ∀ p ∈ s.leases, s.leases.get p.1 = some p.2 := fun p hp ↦ (JsMap.mem_iff_get hB.nodup).mp hp
  constructor
  · have hkeys : (s.leases.map Prod.snd).map PanelRuntimeLease.runtimeEntityId = JsMap.keys s.leases := by
      rw [List.map_map]
      exact List.map_congr_left fun p hp ↦ hB.keyed p.1 p.2 (hget p hp)
    rw [hkeys]
    exact hB.nodup
  · intro l hl
    obtain ⟨p, hp, rfl⟩ := List.mem_map.mp hl
    rw [hB.keyed p.1 p.2 (hget p hp)]
    exact hget p hp

/-- A lease that is written in another state, and announced. -/
theorem restamp_keeps (epoch : JsString) (hB : Basic base [] s) (hl : s.leases.get l.runtimeEntityId = some l) (l' : PanelRuntimeLease)
    (he : l'.runtimeEntityId = l.runtimeEntityId) (hslot : l'.slotId = l.slotId)
    (hclient : l'.clientSessionId = l.clientSessionId) (reason : PanelRuntimeLeaseChangedReason) :
    Keeps base True s (({ s with leases := s.leases.set l.runtimeEntityId l' } : PanelRuntimeCoordinator).emitChange epoch
      l.runtimeEntityId l.slotId (some l) (some l') reason) :=
  ⟨hB.restamp hl he hslot hclient _ _, fun hs _ ↦ hs.restamp hB hl hslot _⟩

theorem restampSlotKeepLoaded_keeps (epoch : JsString) (hB : Basic base [] s) (slotId : PanelSlotId) (keepLoaded : Bool) :
    Keeps base True s (s.restampSlotKeepLoaded epoch slotId keepLoaded) := by
  obtain ⟨hnodup, hmem⟩ := hB.values
  refine foldl_leases PanelRuntimeCoordinator.leases (P := fun _ t ↦ Keeps base True s t)
    (fun l rest t hP hl ↦ ?_) hnodup hmem ⟨hB, fun hs _ ↦ hs⟩
  unfold restampLease
  split_ifs with hsame
  · exact ⟨hP, fun _ _ ↦ rfl⟩
  · rw [not_or, not_not] at hsame
    obtain rfl := hsame.1
    have hstamped := restamp_keeps epoch hP.basic hl { l with keepLoaded := some keepLoaded } rfl rfl rfl
      .acquired
    refine ⟨⟨hstamped.basic, fun hs _ ↦ hstamped.inStep (hP.inStep hs trivial) trivial⟩, fun e he ↦ ?_⟩
    change (t.leases.set _ _).get e = _
    rw [JsMap.get_set, if_neg he]

theorem pinSlotLoaded_sound (hB : Basic base [] s) (slotId : JsString) : Sound base True s (s.pinSlotLoaded epoch slotId) := by
  refine .withPanelSlotId hB fun _ ↦ ?_
  split_ifs
  · exact .refl hB _
  · have hpinned : Basic base [] { s with keptLoadedSlots := s.keptLoadedSlots ++ [slotId] } := { hB with }
    have hkeeps := restampSlotKeepLoaded_keeps epoch hpinned slotId true
    exact Keeps.sound ⟨hkeeps.basic, hkeeps.inStep⟩

theorem unpinSlotLoaded_sound (hB : Basic base [] s) (slotId : JsString) :
    Sound base True s (s.unpinSlotLoaded epoch slotId) := by
  refine .withPanelSlotId hB fun _ ↦ ?_
  split_ifs
  · have hunpinned : Basic base [] { s with
      keptLoadedSlots := s.keptLoadedSlots.filter fun id ↦ decide (id ≠ slotId) } := { hB with }
    have hkeeps := restampSlotKeepLoaded_keeps epoch hunpinned slotId false
    exact Keeps.sound ⟨hkeeps.basic, hkeeps.inStep⟩
  · exact .refl hB _

theorem get_of_leaseOn {connectionId : JsString} (h : s.leaseOn entityId connectionId = some l) :
    s.leases.get entityId = some l := (Option.filter_eq_some_iff.mp h).1

theorem setExpiresAt_keeps (epoch : JsString) (hB : Basic base [] s) (hl : s.leases.get l.runtimeEntityId = some l) (expiresAt : Option ℕ)
    (reason : PanelRuntimeLeaseChangedReason) : Keeps base True s (s.setExpiresAt epoch l expiresAt reason) :=
  restamp_keeps epoch hB hl { l with expiresAt := expiresAt } rfl rfl rfl reason

theorem setReachable_keeps (hB : Basic base [] s) (connectionId : JsString) (reachable : Bool) :
    Keeps base True s (s.setReachable connectionId reachable) := ⟨{ hB with }, fun hs _ ↦ hs⟩

theorem markConnected_sound (hB : Basic base [] s) (runtimeEntityId connectionId : JsString) :
    Sound base True s (s.markConnected epoch runtimeEntityId connectionId) := by
  refine .withPanelEntityId hB fun _ ↦ ?_
  split
  · apply Keeps.sound
    split_ifs
    · exact setReachable_keeps hB _ _
    · exact ⟨hB, fun hs _ ↦ hs⟩
  · split
    · exact .refl hB _
    · rename_i lease hlease
      have hl := get_of_leaseOn hlease
      have hkey := hB.keyed _ _ hl
      have hB' : Basic base [] ((s.clearExpiry runtimeEntityId).setReachable connectionId true) :=
        { hB.clearExpiry runtimeEntityId with }
      apply Keeps.sound
      split_ifs
      · exact ⟨hB', fun hs _ ↦ hs⟩
      · have hset := setExpiresAt_keeps epoch hB' (l := lease) (hkey.symm ▸ hl) none .acquired
        exact ⟨hset.basic, hset.inStep⟩

theorem markDisconnected_sound (hB : Basic base [] s) (runtimeEntityId connectionId : JsString) :
    Sound base True s (s.markDisconnected epoch now runtimeEntityId connectionId) := by
  refine .withPanelEntityId hB fun hid ↦ ?_
  split
  · apply Keeps.sound
    split_ifs
    · exact setReachable_keeps hB _ _
    · exact ⟨hB, fun hs _ ↦ hs⟩
  · split
    · exact .refl hB _
    · rename_i lease hlease
      have hl := get_of_leaseOn hlease
      have hkey := hB.keyed _ _ hl
      have hB' : Basic base [] ((s.clearExpiry runtimeEntityId).setReachable connectionId false) :=
        { hB.clearExpiry runtimeEntityId with }
      have hset := setExpiresAt_keeps epoch hB' (l := lease) (hkey.symm ▸ hl)
        (some (now + LEASE_RECONNECT_GRACE_MS)) .released
      refine Keeps.sound ⟨{ hset.basic with timers := fun e expiry hget ↦ ?_ }, hset.inStep⟩
      rw [JsMap.get_set] at hget
      split_ifs at hget with he
      · rw [he]
        exact hid
      · exact hset.basic.timers e expiry hget

/-- For a valid id `release` does not throw. -/
theorem release_returns (epoch : JsString) (ids : RandomUuid) (now : ℕ) (hB : Basic base [] s) {runtimeEntityId : JsString} (hid : isPanelEntityId runtimeEntityId = true)
    (connectionId : JsString) (reason : PanelRuntimeLeaseChangedReason) :
    ∃ a, (s.release epoch ids now runtimeEntityId connectionId reason).2 = .ok a := by
  unfold release PanelRuntimeCoordinator.withPanelEntityId asPanelEntityId
  rw [if_pos hid]
  dsimp only
  split
  · exact ⟨_, rfl⟩
  · rename_i existing heq
    obtain ⟨hl, -⟩ := Option.filter_eq_some_iff.mp heq
    by_cases hkept : existing.slotId ∈ s.keptLoadedSlots
    · rw [if_pos hkept]
      exact ⟨_, rfl⟩
    · rw [if_neg hkept]
      generalize (if reason = .expired then StopReason.hostLost else .unloaded) = stop
      by_cases hreassign : (reason = .released ∨ reason = .expired) ∧
          shouldReassignDefaultCdpLease existing (s.wasDefaultCdpLease existing) = true
      · rw [if_pos hreassign]
        exact (Assigned.map (assignDefaultCdpHost_assigned _ _ _ _ (hB.dropLease _ existing stop false reason)
          (hB.slots _ _ hl) _) _).returns
      · rw [if_neg hreassign]
        exact ⟨_, rfl⟩

theorem expire_sound (hB : Basic base [] s) {r : Outcome Unit} (h : s.expire epoch ids now entityId = some r) :
    Sound base True s r := by
  obtain ⟨expiry, heq, rfl⟩ := Option.map_eq_some_iff.mp h
  obtain ⟨hget, -⟩ := Option.filter_eq_some_iff.mp heq
  have hid := hB.timers entityId expiry hget
  have hB' : Basic base [] { s with
      expiryTimers := s.expiryTimers.set entityId { expiry with armed := false } } :=
    { hB with
      timers := fun e expiry' hget' ↦ by
        rw [JsMap.get_set] at hget'
        split_ifs at hget' with he
        · rw [he]
          exact hid
        · exact hB.timers e expiry' hget' }
  have hsound := release_sound epoch ids now hB' entityId expiry.connectionId .expired
  refine ⟨⟨hsound.basic, hsound.inStep⟩, fun e he ↦ ?_⟩
  -- The timer was armed for a valid id, so its release does not throw.
  obtain ⟨a, ha⟩ := release_returns epoch ids now hB' hid expiry.connectionId .expired
  cases ha.symm.trans he

/-! ### Sessions that end -/

theorem get_foldl_delete {α : Type} {keys : List JsString} : ∀ {m : JsMap JsString α} {k : JsString},
    (keys.foldl JsMap.delete m).get k = if k ∈ keys then none else m.get k := by
  induction keys with
  | nil => exact fun {m k} ↦ (if_neg List.not_mem_nil).symm
  | cons key keys ih =>
    intro m k
    rw [List.foldl_cons, ih, JsMap.get_delete]
    by_cases hkey : k = key
    · simp [hkey]
    · simp [hkey]

theorem nodup_keys_foldl_delete {α : Type} {keys : List JsString} : ∀ {m : JsMap JsString α},
    (JsMap.keys m).Nodup → (JsMap.keys (keys.foldl JsMap.delete m)).Nodup := by
  induction keys with
  | nil => exact fun h ↦ h
  | cons key keys ih => exact fun h ↦ ih (JsMap.nodup_keys_delete h key)

theorem Basic.admitted (hB : Basic base [] s) (sessions : List JsString) :
    Basic base sessions { s with clients := sessions.foldl JsMap.delete s.clients } :=
  { hB with
    clientKeys := nodup_keys_foldl_delete hB.clientKeys
    clientIds := by
      intro id client hget
      rw [get_foldl_delete] at hget
      split_ifs at hget
      exact hB.clientIds id client hget
    registered := by
      intro e l hget
      by_cases hmem : l.clientSessionId ∈ sessions
      · exact .inl hmem
      · refine .inr ?_
        rw [get_foldl_delete, if_neg hmem]
        exact (hB.registered e l hget).resolve_left List.not_mem_nil }

/-- In the midst of the releases: `rest` are the leases still to be looked at, and what has been released is kept with
the state. -/
structure Releasing (base : List PanelRuntimeLeaseChangedEvent) (s : PanelRuntimeCoordinator) (sessions : List JsString) (rest : List PanelRuntimeLease)
    (t : PanelRuntimeCoordinator × List (PanelRuntimeLease × Bool)) : Prop where
  basic : Basic base sessions t.1
  inStep : s.InStep → t.1.InStep
  within : ∀ e l, t.1.leases.get e = some l → s.leases.get e = some l
  retired : ∀ e l, t.1.leases.get e = some l → l.clientSessionId ∈ sessions → l ∈ rest
  released : ∀ p ∈ t.2, s.leases.get p.1.runtimeEntityId = some p.1 ∧ t.1.leases.get p.1.runtimeEntityId = none
  nodup : (t.2.map fun p ↦ p.1.runtimeEntityId).Nodup

/-- **A round of the releases.** -/
theorem Releasing.round {sessions : List JsString} {rest : List PanelRuntimeLease}
    {t : PanelRuntimeCoordinator × List (PanelRuntimeLease × Bool)} (h : Releasing base s sessions (l :: rest) t)
    (hl : t.1.leases.get l.runtimeEntityId = some l) :
    Releasing base s sessions rest (releaseRetired epoch sessions t l) ∧ ∀ e ≠ l.runtimeEntityId,
      (releaseRetired epoch sessions t l).1.leases.get e = t.1.leases.get e := by
  unfold releaseRetired
  split_ifs with hmem
  · have hsub : ∀ e l', (t.1.leases.delete l.runtimeEntityId).get e = some l' →
        e ≠ l.runtimeEntityId ∧ t.1.leases.get e = some l' := by
      intro e l' hget
      rw [JsMap.get_delete] at hget
      split_ifs at hget with he
      exact ⟨he, hget⟩
    refine ⟨{
      basic := h.basic.dropLease _ l _ _ _
      inStep := fun hs ↦ (h.inStep hs).dropLease _ h.basic hl _ _ _
      within := fun e l' hget ↦ h.within e l' (hsub e l' hget).2
      retired := fun e l' hget hsession ↦ ?_
      released := fun p hp ↦ ?_
      nodup := ?_ }, fun e he ↦ ?_⟩
    · obtain ⟨he, hget'⟩ := hsub e l' hget
      refine (List.mem_cons.mp (h.retired e l' hget' hsession)).resolve_left ?_
      rintro rfl
      exact he (h.basic.keyed e l' hget').symm
    · change _ ∧ (t.1.leases.delete l.runtimeEntityId).get _ = none
      rw [JsMap.get_delete]
      rcases List.mem_append.mp hp with hp | hp
      · obtain ⟨hget, hnone⟩ := h.released p hp
        exact ⟨hget, by rw [hnone, ite_self]⟩
      · obtain rfl := List.mem_singleton.mp hp
        exact ⟨h.within _ _ hl, if_pos rfl⟩
    · rw [List.map_append, List.map_singleton, List.nodup_append]
      refine ⟨h.nodup, List.nodup_singleton _, fun e he e' he' ↦ ?_⟩
      obtain ⟨p, hp, rfl⟩ := List.mem_map.mp he
      obtain rfl := List.mem_singleton.mp he'
      intro heq
      have hnone := (h.released p hp).2
      rw [heq, hl] at hnone
      exact absurd hnone (Option.some_ne_none l)
    · change (t.1.leases.delete _).get e = _
      rw [JsMap.get_delete, if_neg he]
  · refine ⟨{ h with retired := fun e l' hget hsession ↦ ?_ }, fun _ _ ↦ rfl⟩
    refine (List.mem_cons.mp (h.retired e l' hget hsession)).resolve_left ?_
    rintro rfl
    exact hmem hsession

theorem releasing_foldl (epoch : JsString) (hB : Basic base [] s) (sessions : List JsString) :
    Releasing base s sessions [] ((s.leases.map Prod.snd).foldl (releaseRetired epoch sessions)
      ({ s with clients := sessions.foldl JsMap.delete s.clients }, [])) := by
  obtain ⟨hnodup, hmem⟩ := hB.values
  refine foldl_leases (fun t ↦ t.1.leases) (P := Releasing base s sessions) (fun l rest t ht hl ↦ ht.round hl)
    hnodup hmem ⟨hB.admitted sessions, fun hs ↦ hs, fun _ _ h ↦ h, fun e l hget _ ↦ ?_, nofun, List.nodup_nil⟩
  exact List.mem_map.mpr ⟨(e, l), (JsMap.mem_iff_get hB.nodup).mpr hget, rfl⟩

/-- When all leases of the sessions are released, every lease is registered again. -/
theorem Releasing.registered {sessions : List JsString}
    {t : PanelRuntimeCoordinator × List (PanelRuntimeLease × Bool)} (h : Releasing base s sessions [] t) :
    Basic base [] t.1 :=
  { h.basic with
    registered := fun e l hget ↦ (h.basic.registered e l hget).imp_left fun hmem ↦
      absurd (h.retired e l hget hmem) List.not_mem_nil }

/-- In the midst of the reassignments: what is still to be reassigned has no lease, and every lease is in the slot
its entity had. -/
structure Reassigning (base : List PanelRuntimeLeaseChangedEvent) (s : PanelRuntimeCoordinator) (rest : List (PanelRuntimeLease × Bool))
    (t : PanelRuntimeCoordinator) : Prop where
  basic : Basic base [] t
  within : ∀ e l, t.leases.get e = some l → ∃ l₀, s.leases.get e = some l₀ ∧ l₀.slotId = l.slotId
  waiting : ∀ p ∈ rest, s.leases.get p.1.runtimeEntityId = some p.1 ∧ t.leases.get p.1.runtimeEntityId = none
  nodup : (rest.map fun p ↦ p.1.runtimeEntityId).Nodup

section Reassigning

variable {rest : List (PanelRuntimeLease × Bool)} {t : PanelRuntimeCoordinator} {p : PanelRuntimeLease × Bool}

theorem Reassigning.placed (h : Reassigning base s rest t) (hone : s.OneLeaseASlot) (hp : p ∈ rest) :
    t.placed p.1.slotId p.1.runtimeEntityId = true := by
  obtain ⟨hget, hnone⟩ := h.waiting p hp
  rw [placed_iff, h.basic.slotFree_iff, staysInSlot_iff]
  constructor
  · intro e l hl hslot
    obtain ⟨l₀, hl₀, hslot₀⟩ := h.within e l hl
    exact hone _ _ e l₀ hget hl₀ (hslot₀.trans hslot)
  · exact fun l hl ↦ nomatch hnone.symm.trans hl

theorem Reassigning.skip (h : Reassigning base s (p :: rest) t) : Reassigning base s rest t :=
  { h with
    waiting := fun q hq ↦ h.waiting q (List.mem_cons_of_mem _ hq)
    nodup := (List.nodup_cons.mp h.nodup).2 }

theorem Reassigning.assigned {α : Type} {r : Outcome α} (h : Reassigning base s (p :: rest) t)
    (hr : Assigned base t p.1.runtimeEntityId p.1.slotId r) : Reassigning base s rest r.1 where
  basic := hr.basic
  within e l hl := by
    rcases hr.leases e l hl with hl | ⟨rfl, hslot⟩
    · exact h.within e l hl
    · exact ⟨p.1, (h.waiting p List.mem_cons_self).1, hslot.symm⟩
  waiting q hq := by
    obtain ⟨hget, hnone⟩ := h.waiting q (List.mem_cons_of_mem _ hq)
    refine ⟨hget, Option.eq_none_iff_forall_not_mem.mpr fun l hl ↦ ?_⟩
    rcases hr.leases _ l hl with hl | ⟨heq, -⟩
    · exact nomatch hnone.symm.trans hl
    · exact (List.nodup_cons.mp h.nodup).1 (List.mem_map.mpr ⟨q, hq, heq⟩)
  nodup := (List.nodup_cons.mp h.nodup).2

/-- **A round of the reassignments.** -/
theorem Reassigning.round (epoch : JsString) (ids : RandomUuid) (now : ℕ) (hB : Basic base [] s) (h : Reassigning base s (p :: rest) t) :
    ∃ t', reassignReleased epoch ids now (t, .ok ()) p = (t', .ok ()) ∧ Reassigning base s rest t' ∧
      (s.OneLeaseASlot → t.InStep → t'.InStep) := by
  unfold reassignReleased
  dsimp only
  split_ifs
  · have hslot := hB.slots _ _ (h.waiting p List.mem_cons_self).1
    have hassigned := assignDefaultCdpHost_assigned epoch ids now
      p.1.runtimeEntityId h.basic hslot p.1.hostConnectionId
    obtain ⟨a, ha⟩ := hassigned.returns
    refine ⟨_, by rw [ha]; rfl, h.assigned hassigned, fun hone ht ↦ ?_⟩
    exact hassigned.inStep ht (h.placed hone List.mem_cons_self)
  · exact ⟨t, rfl, h.skip, fun _ ht ↦ ht⟩

end Reassigning

/-- All releases are reassigned. -/
theorem reassigning_foldl (epoch : JsString) (ids : RandomUuid) (now : ℕ) (hB : Basic base [] s) {rest : List (PanelRuntimeLease × Bool)} :
    ∀ {t : PanelRuntimeCoordinator}, Reassigning base s rest t →
      ∃ t', rest.foldl (reassignReleased epoch ids now) (t, .ok ()) = (t', .ok ()) ∧ Reassigning base s [] t' ∧
        (s.OneLeaseASlot → t.InStep → t'.InStep) := by
  induction rest with
  | nil => exact fun {t} h ↦ ⟨t, rfl, h, fun _ ht ↦ ht⟩
  | cons p rest ih =>
    intro t h
    obtain ⟨t₁, heq, h₁, hin₁⟩ := Reassigning.round epoch ids now hB h
    obtain ⟨t₂, heq₂, h₂, hin₂⟩ := ih h₁
    refine ⟨t₂, ?_, h₂, fun hone ht ↦ hin₂ hone (hin₁ hone ht)⟩
    rw [List.foldl_cons, heq]
    exact heq₂

theorem Releasing.reassigning {sessions : List JsString}
    {t : PanelRuntimeCoordinator × List (PanelRuntimeLease × Bool)} (h : Releasing base s sessions [] t) :
    Reassigning base s t.2 t.1 :=
  ⟨h.registered, fun e l hl ↦ ⟨l, h.within e l hl, rfl⟩, h.released, h.nodup⟩

theorem unregisterClients_sound (hB : Basic base [] s) (sessions : List JsString) :
    Sound base True s (s.unregisterClients epoch ids now sessions) := by
  have hreleased := releasing_foldl epoch hB sessions
  obtain ⟨t, heq, ht, hin⟩ := reassigning_foldl epoch ids now hB hreleased.reassigning
  have hresult : s.unregisterClients epoch ids now sessions = (t, .ok ()) := heq
  rw [hresult]
  exact Keeps.sound ⟨ht.basic, fun hs _ ↦ hin (hs.oneLeaseASlot hB) (hreleased.inStep hs)⟩

/-! ### Attempts -/

/-- What is done to the attempts alone is not seen in the leases. -/
theorem routes_keeps (hB : Basic base [] s) (r : PanelAttempts) :
    Keeps base True s { s with routes := r } := ⟨{ hB with }, fun hs _ ↦ hs⟩

theorem commitAttempt_sound (hB : Basic base [] s) (slotId runtimeEntityId : JsString)
    (hostConnectionId connectionId : Option JsString) :
    Sound base True s (s.commitAttempt ids slotId runtimeEntityId hostConnectionId connectionId) :=
  .withPanelSlotId hB fun _ ↦ .withPanelEntityId hB fun _ ↦ (routes_keeps hB _).sound

theorem ensureAttemptForSlot_sound (hB : Basic base [] s) (slotId runtimeEntityId : JsString) :
    Sound base True s (s.ensureAttemptForSlot ids slotId runtimeEntityId) :=
  .withPanelSlotId hB fun _ ↦ .withPanelEntityId hB fun _ ↦ (routes_keeps hB _).sound

theorem reportView_sound (hB : Basic base [] s) (runtimeEntityId connectionId : JsString) (reachable : Bool)
    (report : Option AttemptReport) :
    Sound base True s (s.reportView runtimeEntityId connectionId reachable report) := by
  refine .withPanelEntityId hB fun _ ↦ ?_
  split
  · exact .refl hB _
  · apply Keeps.sound
    have hreached : Keeps base True s (if reachable then s.setReachable connectionId true else s) := by
      split_ifs
      · exact setReachable_keeps hB _ _
      · exact ⟨hB, fun hs _ ↦ hs⟩
    exact ⟨{ hreached.basic with }, hreached.inStep⟩

theorem holdEntityForHost_sound (hB : Basic base [] s) (input : HostHeldEntityLease) :
    Sound base True s (s.holdEntityForHost input) := by
  refine .withPanelEntityId hB fun _ ↦ ?_
  split_ifs
  · exact .refl hB _
  · exact Keeps.sound ⟨{ hB with }, fun hs _ ↦ hs⟩

/-! ## Runs -/

/-- The operation revokes a lease before anything is checked. -/
def revokesFirst (s : PanelRuntimeCoordinator) : Op → Bool
  | .takeOver entityId input => isPanelEntityId entityId && (s.revoked entityId input).isSome
  | _ => false

/-- A lease that the operation writes goes into a slot that no other entity has a lease of. The entity stays in its
slot, unless its lease has been revoked before, and then the lease is written. A lease that is transferred has none in
its place, and one that is announced again is announced as one of its own slot. -/
def orderly (s : PanelRuntimeCoordinator) (c : Call) : Bool :=
  match c.op with
  | .acquire entityId input =>
    !(isPanelEntityId entityId && s.acquireWrites entityId input && s.admits input) ||
      s.placed input.slotId entityId
  | .takeOver entityId input => !isPanelEntityId entityId || s.takeOverOrderly entityId input
  | .ensureDefaultCdpHostForSlot slotId entityId options =>
    !isPanelSlotId slotId || s.announcesOwnSlot slotId entityId options
  | .replaceRuntimeEntityForSlot slotId previousId nextId => s.transfers slotId previousId nextId
  | .advanceResidentSlotEntity slotId nextId => s.advances slotId nextId
  | _ => true

theorem takeOver_unchanged {runtimeEntityId : JsString} (h : s.revokesFirst (.takeOver runtimeEntityId input) = false)
    {e : JsString} (herror : (s.takeOver epoch ids now runtimeEntityId input).2 = .error e) :
    (s.takeOver epoch ids now runtimeEntityId input).1 = s := by
  by_cases hid : isPanelEntityId runtimeEntityId = true
  · rw [revokesFirst, hid, Bool.true_and, Option.isSome_eq_false_iff, Option.isNone_iff_eq_none] at h
    rw [takeOver_eq hid, h] at herror ⊢
    rcases grant_cases s epoch ids now runtimeEntityId input with ⟨-, e', hg⟩ | ⟨-, _, -, _, hg⟩
    · rw [Option.elim_none, hg]
    · rw [Option.elim_none, hg] at herror
      exact nomatch herror
  · simp only [takeOver, PanelRuntimeCoordinator.withPanelEntityId, asPanelEntityId, if_neg hid]

/-- A take-over that throws after it has revoked a lease has emitted an event. -/
theorem takeOver_changed {runtimeEntityId : JsString} (h : s.revokesFirst (.takeOver runtimeEntityId input) = true)
    {e : JsString} (herror : (s.takeOver epoch ids now runtimeEntityId input).2 = .error e) :
    (s.takeOver epoch ids now runtimeEntityId input).1 ≠ s := by
  obtain ⟨hid, hrevoked⟩ := Bool.and_eq_true_iff.mp h
  obtain ⟨existing, hexisting⟩ := Option.isSome_iff_exists.mp hrevoked
  rw [takeOver_eq hid, hexisting] at herror ⊢
  rcases grant_cases (s.revoke epoch existing) epoch ids now runtimeEntityId input with
    ⟨-, e', hg⟩ | ⟨-, _, -, _, hg⟩
  · rw [Option.elim_some, hg]
    intro hsame
    have hlength := congrArg (fun t ↦ t.counter) hsame
    exact absurd hlength (Nat.succ_ne_self s.counter)
  · rw [Option.elim_some, hg] at herror
    exact nomatch herror

/-- **One operation.** -/
theorem call_sound (hB : Basic base [] s) {c : Call} {r : Outcome Unit} (h : s.call epoch ids c = some r) :
    Keeps base (s.orderly c = true) s r.1 ∧ ∀ e, r.2 = .error e → (r.1 = s ↔ s.revokesFirst c.op = false) := by
  have sound : ∀ {ok : Prop}, (s.orderly c = true → ok) → s.revokesFirst c.op = false → Sound base ok s r →
      Keeps base (s.orderly c = true) s r.1 ∧ ∀ e, r.2 = .error e → (r.1 = s ↔ s.revokesFirst c.op = false) :=
    fun hok hfirst hr ↦ ⟨(hr.of_imp hok).toKeeps, fun e he ↦ iff_of_true (hr.unchanged e he) hfirst⟩
  have outcome : ∀ {α : Type} {x : Outcome α} {ok : Prop}, some (outcome x) = some r →
      (s.orderly c = true → ok) → s.revokesFirst c.op = false → Sound base ok s x →
      Keeps base (s.orderly c = true) s r.1 ∧ ∀ e, r.2 = .error e → (r.1 = s ↔ s.revokesFirst c.op = false) := by
    intro α x ok hx hok hfirst hr
    obtain rfl := Option.some.inj hx
    exact sound hok hfirst (hr.map _)
  obtain ⟨now, op⟩ := c
  cases op with
  | registerClient input =>
    obtain rfl := Option.some.inj h
    exact sound (fun _ ↦ trivial) rfl (registerClient_keeps hB input).sound
  | unregisterClient id =>
    obtain rfl := Option.some.inj h
    exact sound (fun _ ↦ trivial) rfl (unregisterClients_sound hB _)
  | unregisterClientsForCaller owner =>
    obtain rfl := Option.some.inj h
    exact sound (fun _ ↦ trivial) rfl (unregisterClients_sound hB _)
  | acquire entityId input =>
    refine outcome h (fun hok hid hwrites hadmits ↦ ?_) rfl (acquire_sound hB entityId input)
    dsimp only [orderly] at hok
    rw [hid, hwrites, hadmits] at hok
    exact hok
  | takeOver entityId input =>
    obtain rfl := Option.some.inj h
    have hkeeps := takeOver_keeps epoch ids now hB entityId input
    refine ⟨⟨hkeeps.basic, fun hs hok ↦ hkeeps.inStep hs fun hid ↦ ?_⟩, fun e he ↦ ?_⟩
    · dsimp only [orderly] at hok
      rw [hid] at hok
      exact hok
    · have herror : (s.takeOver epoch ids now entityId input).2 = .error e := by
        cases hr : (s.takeOver epoch ids now entityId input).2 with
        | error e' =>
          rw [PanelRuntimeCoordinator.outcome, hr] at he
          exact congrArg _ (Except.error.inj he)
        | ok a =>
          rw [PanelRuntimeCoordinator.outcome, hr] at he
          exact nomatch he
      cases hfirst : s.revokesFirst (.takeOver entityId input) with
      | false => exact iff_of_true (takeOver_unchanged hfirst herror) rfl
      | true => exact iff_of_false (takeOver_changed hfirst herror) Bool.noConfusion
  | release entityId connectionId reason =>
    obtain rfl := Option.some.inj h
    exact sound (fun _ ↦ trivial) rfl (release_sound _ _ _ hB _ _ _)
  | unloadSlot slotId => exact outcome h (fun _ ↦ trivial) rfl (unloadSlot_sound hB slotId)
  | adoptHostLeaseForSlot slotId entityId host =>
    exact outcome h (fun _ ↦ trivial) rfl (adoptHostLeaseForSlot_sound hB _ _ _)
  | ensureDefaultCdpHostForSlot slotId entityId options =>
    refine outcome h (fun hok hslot ↦ ?_) rfl (ensureDefaultCdpHostForSlot_sound hB _ _ _)
    dsimp only [orderly] at hok
    rw [hslot] at hok
    exact hok
  | replaceRuntimeEntityForSlot slotId previousId nextId =>
    exact outcome h id rfl (replaceRuntimeEntityForSlot_sound hB _ _ _)
  | advanceResidentSlotEntity slotId nextId => exact outcome h id rfl (advanceResidentSlotEntity_sound hB _ _)
  | retireRuntimeEntity entityId =>
    obtain rfl := Option.some.inj h
    exact sound (fun _ ↦ trivial) rfl (retireRuntimeEntity_keeps hB entityId).sound
  | pinSlotLoaded slotId =>
    obtain rfl := Option.some.inj h
    exact sound (fun _ ↦ trivial) rfl (pinSlotLoaded_sound hB slotId)
  | unpinSlotLoaded slotId =>
    obtain rfl := Option.some.inj h
    exact sound (fun _ ↦ trivial) rfl (unpinSlotLoaded_sound hB slotId)
  | markConnected entityId connectionId =>
    obtain rfl := Option.some.inj h
    exact sound (fun _ ↦ trivial) rfl (markConnected_sound hB _ _)
  | markDisconnected entityId connectionId =>
    obtain rfl := Option.some.inj h
    exact sound (fun _ ↦ trivial) rfl (markDisconnected_sound hB _ _)
  | expire entityId => exact sound (fun _ ↦ trivial) rfl (expire_sound hB h)
  | holdEntityForHost input => exact outcome h (fun _ ↦ trivial) rfl (holdEntityForHost_sound hB input)
  | commitAttempt slotId entityId host connectionId =>
    exact outcome h (fun _ ↦ trivial) rfl (commitAttempt_sound hB _ _ _ _)
  | ensureAttemptForSlot slotId entityId =>
    exact outcome h (fun _ ↦ trivial) rfl (ensureAttemptForSlot_sound hB _ _)
  | stopAttempt attemptId reason =>
    obtain rfl := Option.some.inj h
    exact sound (fun _ ↦ trivial) rfl (routes_keeps hB _).sound
  | reportAttemptPhase attemptId report =>
    obtain rfl := Option.some.inj h
    exact sound (fun _ ↦ trivial) rfl (routes_keeps hB _).sound
  | reportView entityId connectionId reachable report =>
    obtain rfl := Option.some.inj h
    exact sound (fun _ ↦ trivial) rfl (reportView_sound hB _ _ _ _)

theorem basic_step (hB : Basic base [] s) {c : Call} {s' : PanelRuntimeCoordinator}
    (h : s.step epoch ids c = some s') : Basic base [] s' ∧ (s.InStep → s.orderly c = true → s'.InStep) := by
  obtain ⟨r, hr, rfl⟩ := Option.map_eq_some_iff.mp h
  obtain ⟨hkeeps, -⟩ := call_sound hB hr
  exact ⟨hkeeps.basic, hkeeps.inStep⟩

theorem basic_of_reachable {ok : PanelRuntimeCoordinator → Call → Bool} {s' : PanelRuntimeCoordinator}
    (hB : Basic base [] s) (h : Reachable (step epoch ids) ok s s') : Basic base [] s' :=
  h.invariant hB fun _ _ _ hI _ hs ↦ (basic_step hI hs).1

theorem inStep_of_reachable {s' : PanelRuntimeCoordinator} (hB : Basic base [] s) (hs : s.InStep)
    (h : Reachable (step epoch ids) orderly s s') : s'.InStep :=
  (h.invariant (I := fun t ↦ Basic base [] t ∧ t.InStep) ⟨hB, hs⟩ fun _ _ _ ⟨hI, hin⟩ hok hstep ↦
    ⟨(basic_step hI hstep).1, (basic_step hI hstep).2 hin hok⟩).2

theorem inStep_init : init.InStep := by
  intro slotId lease
  exact iff_of_false nofun fun ⟨e, hget, _⟩ ↦ nomatch hget

/-- The snapshot of a state in step, by slot, is the fold. -/
theorem get_bySlot_getSnapshot (epoch : JsString) (hB : Basic base [] s) (hs : s.InStep) :
    ((s.getSnapshot epoch).leases.map PanelRuntimeLease.slotId).Nodup ∧
      ∀ slotId, (bySlot (s.getSnapshot epoch).leases).get slotId = (foldEvents [] s.events).get slotId := by
  obtain ⟨hnodup, hvalues⟩ := hB.values
  have hslots : ((s.leases.map Prod.snd).map PanelRuntimeLease.slotId).Nodup := by
    rw [List.nodup_map_iff_inj_on hnodup.of_map]
    intro l hl l' hl' hslot
    exact Tabulates.unique hs (hvalues l' hl') (hvalues l hl) hslot
  refine ⟨hslots, fun slotId ↦ Option.ext fun lease ↦ ?_⟩
  rw [hs slotId lease]
  refine (get_bySlot hslots slotId lease).trans ⟨?_, ?_⟩
  · exact fun ⟨hmem, hslot⟩ ↦ ⟨_, hvalues lease hmem, hslot⟩
  · rintro ⟨e, hget, hslot⟩
    exact ⟨List.mem_map.mpr ⟨(e, lease), (JsMap.mem_iff_get hB.nodup).mpr hget, rfl⟩, hslot⟩

/-- **Lease events.** In every run the counters of the events increase, and an operation that throws has done nothing
unless it has revoked a lease first. While every operation is orderly, a snapshot and the events after it lead, slot by
slot, to the leases of any later snapshot, of which each slot has one. -/
theorem lease_events (epoch : JsString) (ids : RandomUuid) :
    (∀ s, Reachable (step epoch ids) anyStep init s →
      (s.events.map fun event ↦ event.version.counter).Pairwise (· < ·)) ∧
    (∀ s s', Reachable (step epoch ids) orderly init s → Reachable (step epoch ids) orderly s s' →
      ∃ events, s'.events = s.events ++ events ∧
        ((s'.getSnapshot epoch).leases.map PanelRuntimeLease.slotId).Nodup ∧
        ∀ slotId, (foldEvents (bySlot (s.getSnapshot epoch).leases) events).get slotId =
          (bySlot (s'.getSnapshot epoch).leases).get slotId) ∧
    ∀ s c s' e, Reachable (step epoch ids) anyStep init s → s.call epoch ids c = some (s', .error e) →
      (s' = s ↔ s.revokesFirst c.op = false) := by
  refine ⟨fun s h ↦ ?_, fun s s' h h' ↦ ?_, fun s c s' e h hcall ↦ ?_⟩
  · rw [(basic_of_reachable basic_init h).counted]
    exact List.pairwise_lt_range'
  · have hB := basic_of_reachable basic_init h
    have hs := inStep_of_reachable basic_init inStep_init h
    have hbase : Basic s.events [] s := { hB with grown := List.prefix_rfl }
    have hB' := basic_of_reachable hbase h'
    have hs' := inStep_of_reachable hbase hs h'
    obtain ⟨events, hevents⟩ := hB'.grown
    obtain ⟨hnodup, hget'⟩ := get_bySlot_getSnapshot epoch hB' hs'
    refine ⟨events, hevents.symm, hnodup, fun slotId ↦ ?_⟩
    rw [hget', ← hevents]
    have hfold : foldEvents [] (s.events ++ events) = foldEvents (foldEvents [] s.events) events :=
      List.foldl_append
    rw [hfold]
    exact get_foldEvents_congr (get_bySlot_getSnapshot epoch hB hs).2 slotId
  · exact (call_sound (basic_of_reachable basic_init h) hcall).2 e rfl

/-! ## Two entities in one slot, and a take-over by nobody -/

/-- Random ids of which one can tell the number: a hyphen and as many zeros. -/
def countingUuid : RandomUuid where
  uuid n := 45 :: List.replicate n 48
  index text :=
    let zeros := text.reverse.takeWhile fun c ↦ decide (c = 48)
    if text.reverse[zeros.length]? = some 45 then some zeros.length else none
  index_append text n := by
    have hreverse : (text ++ 45 :: List.replicate n 48).reverse = List.replicate n 48 ++ 45 :: text.reverse := by
      simp
    have htake : (List.replicate n (48 : CodeUnit) ++ 45 :: text.reverse).takeWhile (fun c ↦ decide (c = 48)) =
        List.replicate n 48 := by
      rw [List.takeWhile_append_of_pos fun c hc ↦ decide_eq_true (List.eq_of_mem_replicate hc),
        List.takeWhile_cons_of_neg (by decide), List.append_nil]
    dsimp only
    rw [hreverse, htake, List.length_replicate, List.getElem?_append_right (by simp)]
    simp

def slotOne : JsString := lit "panel:tree/1"

def entityOne : JsString := lit "panel:nav-1"

def entityTwo : JsString := lit "panel:nav-2"

def desktopHost : PanelHostRegistration :=
  ⟨lit "desktop", none, none, lit "Desktop", .desktop, none, none⟩

def desktopRequest (connectionId : JsString) : PanelRuntimeLeaseRequest :=
  ⟨slotOne, lit "desktop", connectionId, none⟩

/-- A host acquires an entity in a slot. -/
def oneLease : List Call :=
  [⟨0, .registerClient desktopHost⟩, ⟨1, .acquire entityOne (desktopRequest (lit "c1"))⟩]

/-- It acquires another one in the same slot, and releases that. -/
def twoInOneSlot : List Call := oneLease ++
  [⟨2, .acquire entityTwo (desktopRequest (lit "c2"))⟩, ⟨3, .release entityTwo (lit "c2") .released⟩]

/-- A session that is not registered takes the lease over. -/
def takeOverByNobody : Call := ⟨2, .takeOver entityOne ⟨slotOne, lit "nobody", lit "c2", none⟩⟩

/-- With one lease the fold from the start is the snapshot. -/
theorem lease_events_oneLease : ∃ s, run (step (lit "e1") countingUuid) orderly init oneLease = some s ∧
    s.leases ≠ [] ∧ (s.events.map fun event ↦ event.version.counter).Pairwise (· < ·) ∧
    ∃ events, s.events = init.events ++ events ∧
      ((s.getSnapshot (lit "e1")).leases.map PanelRuntimeLease.slotId).Nodup ∧
      ∀ slotId, (foldEvents (bySlot (init.getSnapshot (lit "e1")).leases) events).get slotId =
        (bySlot (s.getSnapshot (lit "e1")).leases).get slotId := by
  have hrun : (run (step (lit "e1") countingUuid) orderly init oneLease).map
      (fun s ↦ decide (s.leases ≠ [])) = some true := by decide +kernel
  obtain ⟨s, hs, hleases⟩ := Option.map_eq_some_iff.mp hrun
  have hreach : Reachable (step (lit "e1") countingUuid) orderly init s := Reachable.init.run hs
  obtain ⟨hcounters, hfold, -⟩ := lease_events (lit "e1") countingUuid
  exact ⟨s, hs, of_decide_eq_true hleases, hcounters s hreach.anyStep, hfold init s .init hreach⟩

/-- **The fold may lose a lease, and a call that throws may have revoked one**: the event of the second entity is the
last one of the slot, so its release leaves nothing there; and `takeOver` revokes before `writeLease` finds out that
there is no such session. -/
theorem lease_events_fail :
    (¬ ∀ s s', Reachable (step (lit "e1") countingUuid) anyStep init s →
      Reachable (step (lit "e1") countingUuid) anyStep s s' → ∃ events, s'.events = s.events ++ events ∧
        ∀ slotId, (foldEvents (bySlot (s.getSnapshot (lit "e1")).leases) events).get slotId =
          (bySlot (s'.getSnapshot (lit "e1")).leases).get slotId) ∧
    ¬ ∀ s c s' e, Reachable (step (lit "e1") countingUuid) anyStep init s →
      s.call (lit "e1") countingUuid c = some (s', .error e) → s' = s := by
  constructor
  · have hrun : (run (step (lit "e1") countingUuid) anyStep init twoInOneSlot).map (fun s ↦
        decide ((foldEvents [] s.events).get slotOne = none ∧
          ((bySlot (s.getSnapshot (lit "e1")).leases).get slotOne).map PanelRuntimeLease.runtimeEntityId =
            some entityOne)) = some true := by decide +kernel
    obtain ⟨s, hs, hget⟩ := Option.map_eq_some_iff.mp hrun
    obtain ⟨hfold, hsnapshot⟩ := of_decide_eq_true hget
    intro h
    obtain ⟨events, hevents, heq⟩ := h init s .init (Reachable.init.run hs)
    have hslot := heq slotOne
    have hsame : s.events = events := hevents
    change (foldEvents [] events).get slotOne = _ at hslot
    rw [← hsame, hfold] at hslot
    rw [← hslot] at hsnapshot
    exact nomatch hsnapshot
  · have hrun : (run (step (lit "e1") countingUuid) anyStep init oneLease).map (fun s ↦
        (s.call (lit "e1") countingUuid takeOverByNobody).map fun r ↦
          decide (r.2 = .error (lit "Unknown runtime client session: nobody") ∧ r.1 ≠ s)) = some (some true) := by
      decide +kernel
    obtain ⟨s, hs, hcall⟩ := Option.map_eq_some_iff.mp hrun
    obtain ⟨r, hr, hthrown⟩ := Option.map_eq_some_iff.mp hcall
    obtain ⟨herror, hchanged⟩ := of_decide_eq_true hthrown
    intro h
    have hcalled : s.call (lit "e1") countingUuid takeOverByNobody =
        some (r.1, .error (lit "Unknown runtime client session: nobody")) := by
      rw [hr, ← herror]
    exact hchanged (h s takeOverByNobody r.1 _ (Reachable.init.run hs) hcalled)

end PanelRuntimeCoordinator

end Vibestudio.Server

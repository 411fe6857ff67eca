import Mathlib
import Vibestudio.Shared.PanelLease

/-!
# Lease trackers

`LeaseTracker` of `packages/shared/src/panel/leaseTracker.ts`, which turns the leases of one client session into
intents to load and unload, and the lease map of `PanelRegistry` in `packages/shared/src/panelRegistry.ts`.

Both operations of the tracker do the same to a slot, whatever else they do: `settle` is what becomes of what is held
there when the server leases the slot to the session, or does not. A pin, `keepLoaded`, refuses an unload.
-/

namespace Vibestudio.Shared

open Js

/-! ## Intents -/

inductive UnloadReason where
  | leaseTransfer
  | released
  | stale
  deriving DecidableEq

inductive LeaseIntent where
  | load (slotId : PanelSlotId) (runtimeEntityId : PanelEntityId) (connectionId : JsString)
  | unload (slotId : PanelSlotId) (reason : UnloadReason)
  deriving DecidableEq

def LeaseIntent.slotId : LeaseIntent → PanelSlotId
  | .load slotId _ _ => slotId
  | .unload slotId _ => slotId

inductive RuntimeLeaseChangeDisposition where
  | assigned (lease : PanelRuntimeLease)
  | unassigned (slotId : PanelSlotId) (reason : UnloadReason) (previous : PanelRuntimeLease)
  | unrelated

structure HeldLease where
  runtimeEntityId : PanelEntityId
  connectionId : JsString
  /-- Pinned by an active CDP client. -/
  keepLoaded : Bool
  deriving DecidableEq

/-- What is held of a lease. -/
def HeldLease.of (lease : PanelRuntimeLease) : HeldLease :=
  ⟨lease.runtimeEntityId, lease.connectionId, lease.kept⟩

def versionNewer (a : RuntimeLeaseVersion) : Option RuntimeLeaseVersion → Bool
  | none => true
  | some b => if a.epoch ≠ b.epoch then true else decide (b.counter < a.counter)

def classifyRuntimeLeaseChange (clientSessionId : JsString) (event : PanelRuntimeLeaseChangedEvent) :
    RuntimeLeaseChangeDisposition :=
  match event.next.filter fun lease ↦ decide (lease.clientSessionId = clientSessionId) with
  | some lease => .assigned lease
  | none => match event.previous.filter fun lease ↦ decide (lease.clientSessionId = clientSessionId) with
    | some previous =>
      .unassigned event.slotId (if event.next.isSome then .leaseTransfer else .released) previous
    | none => .unrelated

/-! ## The tracker -/

structure LeaseTracker where
  clientSessionId : JsString
  held : JsMap PanelSlotId HeldLease
  version : Option RuntimeLeaseVersion

def LeaseTracker.new (clientSessionId : JsString) : LeaseTracker := ⟨clientSessionId, [], none⟩

/-- `new Map(leases.map((lease) => [lease.slotId, lease]))`. -/
def bySlot (leases : List PanelRuntimeLease) : JsMap PanelSlotId PanelRuntimeLease :=
  leases.foldl (fun m lease ↦ m.set lease.slotId lease) []

/-- The held leases and the intents so far. -/
abbrev Reconciliation := JsMap PanelSlotId HeldLease × List LeaseIntent

def loads (lease : PanelRuntimeLease) (slotId : PanelSlotId) : LeaseIntent :=
  .load slotId lease.runtimeEntityId lease.connectionId

/-- A held lease is compared with the lease of the snapshot. -/
def reconcileHeld (mine : JsMap PanelSlotId PanelRuntimeLease) (p : Reconciliation) :
    PanelSlotId × HeldLease → Reconciliation
  | (slotId, current) =>
    match mine.get slotId with
    | none =>
      if current.keepLoaded then p else (p.1.delete slotId, p.2 ++ [.unload slotId .leaseTransfer])
    | some next =>
      if next.connectionId ≠ current.connectionId ∨ next.runtimeEntityId ≠ current.runtimeEntityId then
        (p.1.set slotId (.of next), p.2 ++ [.unload slotId .stale, loads next slotId])
      else if next.kept ≠ current.keepLoaded then
        (p.1.set slotId { current with keepLoaded := next.kept }, p.2)
      else p

/-- A lease of the snapshot that is not held yet. -/
def reconcileNew (p : Reconciliation) : PanelSlotId × PanelRuntimeLease → Reconciliation
  | (slotId, lease) =>
    if (p.1.get slotId).isSome then p else (p.1.set slotId (.of lease), p.2 ++ [loads lease slotId])

namespace LeaseTracker

variable (t : LeaseTracker)

/-- The leases of the snapshot that are this session's. -/
def mine (snapshot : RuntimeLeaseSnapshot) : JsMap PanelSlotId PanelRuntimeLease :=
  bySlot (snapshot.leases.filter fun lease ↦ decide (lease.clientSessionId = t.clientSessionId))

def reconcile (snapshot : RuntimeLeaseSnapshot) : LeaseTracker × List LeaseIntent :=
  let p := (t.mine snapshot).foldl reconcileNew (t.held.foldl (reconcileHeld (t.mine snapshot)) (t.held, []))
  ({ t with held := p.1, version := some snapshot.version }, p.2)

/-- The slot is leased to this session. -/
def assign (slotId : PanelSlotId) (lease : PanelRuntimeLease) : LeaseTracker × List LeaseIntent :=
  match t.held.get slotId with
  | none => ({ t with held := t.held.set slotId (.of lease) }, [loads lease slotId])
  | some current =>
    if current.connectionId ≠ lease.connectionId ∨ current.runtimeEntityId ≠ lease.runtimeEntityId then
      ({ t with held := t.held.set slotId (.of lease) }, [.unload slotId .stale, loads lease slotId])
    else if lease.kept ≠ current.keepLoaded then
      ({ t with held := t.held.set slotId { current with keepLoaded := lease.kept } }, [])
    else (t, [])

/-- The slot was leased to this session. -/
def unassign (slotId : PanelSlotId) (reason : UnloadReason) : LeaseTracker × List LeaseIntent :=
  match t.held.get slotId with
  | none => (t, [])
  | some current =>
    if current.keepLoaded then (t, []) else ({ t with held := t.held.delete slotId }, [.unload slotId reason])

def apply (event : PanelRuntimeLeaseChangedEvent) : LeaseTracker × List LeaseIntent :=
  if versionNewer event.version t.version then
    let t := { t with version := some event.version }
    match classifyRuntimeLeaseChange t.clientSessionId event with
    | .assigned lease => t.assign event.slotId lease
    | .unassigned _ reason _ => t.unassign event.slotId reason
    | .unrelated => (t, [])
  else (t, [])

end LeaseTracker

/-! ## The lease map of the registry -/

structure PanelRegistry where
  runtimeLeases : JsMap PanelSlotId PanelRuntimeLease
  runtimeLeaseVersion : Option RuntimeLeaseVersion

namespace PanelRegistry

variable (r : PanelRegistry)

def applyRuntimeLeaseSnapshot (_ : PanelRegistry) (snapshot : RuntimeLeaseSnapshot) : PanelRegistry where
  runtimeLeases := bySlot snapshot.leases
  runtimeLeaseVersion := some snapshot.version

/-- The version of the event is stored and not compared. -/
def applyRuntimeLeaseChanged (event : PanelRuntimeLeaseChangedEvent) : PanelRegistry where
  runtimeLeases := event.change r.runtimeLeases
  runtimeLeaseVersion := some event.version

end PanelRegistry

/-! ## What becomes of a slot -/

/-- What is held for a slot and the intents, when the server leases it to the session or does not. -/
def settle (slotId : PanelSlotId) (reason : UnloadReason) :
    Option HeldLease → Option PanelRuntimeLease → Option HeldLease × List LeaseIntent
  | none, none => (none, [])
  | none, some lease => (some (.of lease), [loads lease slotId])
  | some current, none => if current.keepLoaded then (some current, []) else (none, [.unload slotId reason])
  | some current, some lease =>
    (some (.of lease), if lease.connectionId = current.connectionId ∧
      lease.runtimeEntityId = current.runtimeEntityId then [] else [.unload slotId .stale, loads lease slotId])

/-- The intents for a slot. -/
def intentsFor (slotId : PanelSlotId) (intents : List LeaseIntent) : List LeaseIntent :=
  intents.filter fun intent ↦ decide (intent.slotId = slotId)

theorem intentsFor_append (slotId : PanelSlotId) (l l' : List LeaseIntent) :
    intentsFor slotId (l ++ l') = intentsFor slotId l ++ intentsFor slotId l' := List.filter_append ..

theorem intentsFor_self {slotId : PanelSlotId} {l : List LeaseIntent} (h : ∀ i ∈ l, i.slotId = slotId) :
    intentsFor slotId l = l :=
  List.filter_eq_self.mpr fun i hi ↦ decide_eq_true (h i hi)

theorem intentsFor_other {slotId slotId' : PanelSlotId} {l : List LeaseIntent} (h : ∀ i ∈ l, i.slotId = slotId)
    (hne : slotId' ≠ slotId) : intentsFor slotId' l = [] :=
  List.filter_eq_nil_iff.mpr fun i hi hmem ↦ hne (((of_decide_eq_true hmem).symm.trans (h i hi)))

/-- What was held for a slot has become what `settle` says, and the intents have been added. -/
structure Settles (slotId : PanelSlotId) (reason : UnloadReason) (lease : Option PanelRuntimeLease)
    (p p' : Reconciliation) : Prop where
  held : p'.1.get slotId = (settle slotId reason (p.1.get slotId) lease).1
  intents : intentsFor slotId p'.2 = intentsFor slotId p.2 ++ (settle slotId reason (p.1.get slotId) lease).2

/-- Nothing has happened to a slot. -/
structure Spares (slotId : PanelSlotId) (p p' : Reconciliation) : Prop where
  held : p'.1.get slotId = p.1.get slotId
  intents : intentsFor slotId p'.2 = intentsFor slotId p.2

theorem Spares.refl (slotId : PanelSlotId) (p : Reconciliation) : Spares slotId p p := ⟨rfl, rfl⟩

theorem Spares.trans {slotId : PanelSlotId} {p p' p'' : Reconciliation} (h : Spares slotId p p')
    (h' : Spares slotId p' p'') : Spares slotId p p'' := ⟨h'.held.trans h.held, h'.intents.trans h.intents⟩

theorem Settles.of_spares {slotId : PanelSlotId} {reason : UnloadReason} {lease : Option PanelRuntimeLease}
    {p p₁ p₂ p' : Reconciliation} (h : Spares slotId p p₁) (hs : Settles slotId reason lease p₁ p₂)
    (h' : Spares slotId p₂ p') : Settles slotId reason lease p p' where
  held := by rw [h'.held, hs.held, h.held]
  intents := by rw [h'.intents, hs.intents, h.intents, h.held]

theorem reconcileHeld_none {mine : JsMap PanelSlotId PanelRuntimeLease} {slotId : PanelSlotId}
    (h : mine.get slotId = none) (p : Reconciliation) (current : HeldLease) :
    reconcileHeld mine p (slotId, current) =
      if current.keepLoaded then p else (p.1.delete slotId, p.2 ++ [.unload slotId .leaseTransfer]) := by
  simp only [reconcileHeld, h]

theorem reconcileHeld_some {mine : JsMap PanelSlotId PanelRuntimeLease} {slotId : PanelSlotId}
    {next : PanelRuntimeLease} (h : mine.get slotId = some next) (p : Reconciliation) (current : HeldLease) :
    reconcileHeld mine p (slotId, current) =
      if next.connectionId ≠ current.connectionId ∨ next.runtimeEntityId ≠ current.runtimeEntityId then
        (p.1.set slotId (.of next), p.2 ++ [.unload slotId .stale, loads next slotId])
      else if next.kept ≠ current.keepLoaded then
        (p.1.set slotId { current with keepLoaded := next.kept }, p.2)
      else p := by
  simp only [reconcileHeld, h]

theorem reconcileHeld_settles (mine : JsMap PanelSlotId PanelRuntimeLease) {p : Reconciliation}
    {slotId : PanelSlotId} {current : HeldLease} (h : p.1.get slotId = some current) :
    Settles slotId .leaseTransfer (mine.get slotId) p (reconcileHeld mine p (slotId, current)) := by
  cases hmine : mine.get slotId with
  | none =>
    rw [reconcileHeld_none hmine]
    by_cases hkeep : current.keepLoaded = true
    · rw [if_pos hkeep]
      constructor
      · rw [h, settle, if_pos hkeep]
      · rw [h, settle, if_pos hkeep, List.append_nil]
    · rw [if_neg hkeep]
      constructor
      · rw [h, settle, if_neg hkeep, JsMap.get_delete, if_pos rfl]
      · rw [h, settle, if_neg hkeep, intentsFor_append]
        exact congrArg _ (intentsFor_self (by simp [LeaseIntent.slotId]))
  | some next =>
    rw [reconcileHeld_some hmine]
    by_cases hsame : next.connectionId = current.connectionId ∧ next.runtimeEntityId = current.runtimeEntityId
    · rw [if_neg (not_or.mpr ⟨not_not.mpr hsame.1, not_not.mpr hsame.2⟩)]
      by_cases hkept : next.kept = current.keepLoaded
      · rw [if_neg (not_not.mpr hkept)]
        constructor
        · rw [h, settle, HeldLease.of, hsame.1, hsame.2, hkept]
        · rw [h, settle, if_pos hsame, List.append_nil]
      · rw [if_pos hkept]
        constructor
        · rw [JsMap.get_set_self, h, settle, HeldLease.of, hsame.1, hsame.2]
        · rw [h, settle, if_pos hsame, List.append_nil]
    · rw [if_pos (not_and_or.mp hsame)]
      constructor
      · rw [JsMap.get_set_self, h, settle]
      · rw [h, settle, if_neg hsame, intentsFor_append]
        exact congrArg _ (intentsFor_self (by simp [LeaseIntent.slotId, loads]))

theorem reconcileHeld_spares {mine : JsMap PanelSlotId PanelRuntimeLease} {p : Reconciliation}
    {slotId slotId' : PanelSlotId} {current : HeldLease} (hne : slotId' ≠ slotId) :
    Spares slotId' p (reconcileHeld mine p (slotId, current)) := by
  have hadded : ∀ l : List LeaseIntent, (∀ i ∈ l, i.slotId = slotId) →
      intentsFor slotId' (p.2 ++ l) = intentsFor slotId' p.2 := by
    intro l hl
    rw [intentsFor_append, intentsFor_other hl hne, List.append_nil]
  cases hmine : mine.get slotId with
  | none =>
    rw [reconcileHeld_none hmine]
    split_ifs
    · exact .refl _ _
    · exact ⟨by rw [JsMap.get_delete, if_neg hne], hadded _ (by simp [LeaseIntent.slotId])⟩
  | some next =>
    rw [reconcileHeld_some hmine]
    split_ifs
    · exact ⟨JsMap.get_set_of_ne _ hne _, hadded _ (by simp [LeaseIntent.slotId, loads])⟩
    · exact ⟨JsMap.get_set_of_ne _ hne _, rfl⟩
    · exact .refl _ _

theorem reconcileNew_settles {p : Reconciliation} {slotId : PanelSlotId} (h : p.1.get slotId = none)
    (lease : PanelRuntimeLease) (reason : UnloadReason) :
    Settles slotId reason (some lease) p (reconcileNew p (slotId, lease)) := by
  have hnew : reconcileNew p (slotId, lease) = (p.1.set slotId (.of lease), p.2 ++ [loads lease slotId]) := by
    rw [reconcileNew, h, Option.isSome_none, if_neg Bool.false_ne_true]
  rw [hnew]
  constructor
  · rw [JsMap.get_set_self, h, settle]
  · rw [h, settle, intentsFor_append]
    exact congrArg _ (intentsFor_self (by simp [LeaseIntent.slotId, loads]))

theorem reconcileNew_spares {p : Reconciliation} {slotId slotId' : PanelSlotId} {lease : PanelRuntimeLease}
    (h : slotId' ≠ slotId ∨ (p.1.get slotId').isSome = true) :
    Spares slotId' p (reconcileNew p (slotId, lease)) := by
  rw [reconcileNew]
  split_ifs with hheld
  · exact .refl _ _
  · have hne : slotId' ≠ slotId := h.elim id fun h' heq ↦ hheld (heq ▸ h')
    refine ⟨JsMap.get_set_of_ne _ hne _, ?_⟩
    have hload : intentsFor slotId' [loads lease slotId] = [] :=
      intentsFor_other (by simp [LeaseIntent.slotId, loads]) hne
    rw [intentsFor_append, hload, List.append_nil]

section Loops

variable {α : Type} {f : Reconciliation → PanelSlotId × α → Reconciliation} {slotId : PanelSlotId}

/-- A loop over other slots. -/
theorem foldl_spares (hf : ∀ p k v, slotId ≠ k → Spares slotId p (f p (k, v))) (entries : JsMap PanelSlotId α) :
    ∀ p, slotId ∉ JsMap.keys entries → Spares slotId p (entries.foldl f p) := by
  induction entries with
  | nil => exact fun p _ ↦ .refl _ _
  | cons entry entries ih =>
    intro p hnot
    obtain ⟨hne, hnot⟩ := not_or.mp (fun h ↦ hnot (List.mem_cons.mpr h))
    exact (hf p entry.1 entry.2 hne).trans (ih _ hnot)

/-- A loop over distinct slots reaches each of them once. -/
theorem foldl_at (hf : ∀ p k v, slotId ≠ k → Spares slotId p (f p (k, v))) {v : α}
    (entries : JsMap PanelSlotId α) : ∀ p, (JsMap.keys entries).Nodup → entries.get slotId = some v →
      ∃ p₁, Spares slotId p p₁ ∧ Spares slotId (f p₁ (slotId, v)) (entries.foldl f p) := by
  induction entries with
  | nil => exact fun p _ h ↦ nomatch h
  | cons entry entries ih =>
    obtain ⟨k, w⟩ := entry
    intro p hnodup hget
    obtain ⟨hnot, hnodup⟩ := List.nodup_cons.mp (show (k :: JsMap.keys entries).Nodup from hnodup)
    rw [JsMap.get] at hget
    rw [List.foldl_cons]
    split_ifs at hget with heq
    · subst heq
      obtain rfl := Option.some.inj hget
      exact ⟨p, .refl _ _, foldl_spares hf entries _ hnot⟩
    · obtain ⟨p₁, hbefore, hafter⟩ := ih (f p (k, w)) hnodup hget
      exact ⟨p₁, (hf p k w (Ne.symm heq)).trans hbefore, hafter⟩

end Loops

namespace LeaseTracker

variable {t : LeaseTracker}

/-- **The step lemma of a snapshot**: every slot becomes what the snapshot says. -/
theorem reconcile_settles (ht : (JsMap.keys t.held).Nodup) (snapshot : RuntimeLeaseSnapshot)
    (hmine : (JsMap.keys (t.mine snapshot)).Nodup) (slotId : PanelSlotId) :
    Settles slotId .leaseTransfer ((t.mine snapshot).get slotId) (t.held, [])
      ((t.reconcile snapshot).1.held, (t.reconcile snapshot).2) := by
  have hother : ∀ p k v, slotId ≠ k → Spares slotId p (reconcileHeld (t.mine snapshot) p (k, v)) :=
    fun p k v hne ↦ reconcileHeld_spares hne
  unfold reconcile
  dsimp only
  cases hheld : t.held.get slotId with
  | some current =>
    -- the slot is met in the first loop, and is then held or has no lease in the second
    obtain ⟨p₁, hbefore, hafter⟩ := foldl_at hother t.held (t.held, []) ht hheld
    have hsettles := reconcileHeld_settles (t.mine snapshot) (hbefore.held.trans hheld)
    have hfirst := Settles.of_spares hbefore hsettles hafter
    refine .of_spares (.refl _ _) hfirst ?_
    cases hnext : (t.mine snapshot).get slotId with
    | none =>
      exact foldl_spares (fun p k v hne ↦ reconcileNew_spares (.inl hne)) _ _ (JsMap.get_eq_none.mp hnext)
    | some lease =>
      obtain ⟨p₂, hbefore₂, hafter₂⟩ := foldl_at (fun p k v hne ↦ reconcileNew_spares (.inl hne))
        (t.mine snapshot) (t.held.foldl (reconcileHeld (t.mine snapshot)) (t.held, [])) hmine hnext
      refine (hbefore₂.trans (reconcileNew_spares (.inr ?_))).trans hafter₂
      rw [hbefore₂.held, hfirst.held, hheld, hnext]
      rfl
  | none =>
    have hfirst : Spares slotId (t.held, []) (t.held.foldl (reconcileHeld (t.mine snapshot)) (t.held, [])) :=
      foldl_spares hother t.held _ (JsMap.get_eq_none.mp hheld)
    cases hnext : (t.mine snapshot).get slotId with
    | none =>
      have hsecond := foldl_spares (fun p k v hne ↦ reconcileNew_spares (.inl hne)) (t.mine snapshot)
        (t.held.foldl (reconcileHeld (t.mine snapshot)) (t.held, [])) (JsMap.get_eq_none.mp hnext)
      have hall := hfirst.trans hsecond
      constructor
      · rw [hall.held, hheld, settle]
      · rw [hall.intents, hheld, settle, List.append_nil]
    | some lease =>
      obtain ⟨p₂, hbefore₂, hafter₂⟩ := foldl_at (fun p k v hne ↦ reconcileNew_spares (.inl hne))
        (t.mine snapshot) (t.held.foldl (reconcileHeld (t.mine snapshot)) (t.held, [])) hmine hnext
      have hbefore := hfirst.trans hbefore₂
      exact .of_spares hbefore (reconcileNew_settles (hbefore.held.trans hheld) lease _) hafter₂

/-- The lease that an event leaves for the session. -/
def mineOf (clientSessionId : JsString) (lease : Option PanelRuntimeLease) : Option PanelRuntimeLease :=
  lease.filter fun lease ↦ decide (lease.clientSessionId = clientSessionId)

variable (t) in
theorem assign_settles (slotId : PanelSlotId) (lease : PanelRuntimeLease) (reason : UnloadReason) :
    Settles slotId reason (some lease) (t.held, []) ((t.assign slotId lease).1.held, (t.assign slotId lease).2) := by
  have hself : ∀ l : List LeaseIntent, (∀ i ∈ l, i.slotId = slotId) → intentsFor slotId l = [] ++ l := fun l hl ↦
    intentsFor_self hl
  unfold assign
  cases hheld : t.held.get slotId with
  | none =>
    dsimp only
    constructor
    · rw [JsMap.get_set_self, hheld, settle]
    · rw [hheld, settle]
      exact hself _ (by simp [LeaseIntent.slotId, loads])
  | some current =>
    dsimp only
    by_cases hsame : lease.connectionId = current.connectionId ∧ lease.runtimeEntityId = current.runtimeEntityId
    · rw [if_neg (not_or.mpr ⟨not_not.mpr hsame.1.symm, not_not.mpr hsame.2.symm⟩)]
      by_cases hkept : lease.kept = current.keepLoaded
      · rw [if_neg (not_not.mpr hkept)]
        constructor
        · rw [hheld, settle, HeldLease.of, hsame.1, hsame.2, hkept]
        · rw [hheld, settle, if_pos hsame]
          rfl
      · rw [if_pos hkept]
        constructor
        · rw [JsMap.get_set_self, hheld, settle, HeldLease.of, hsame.1, hsame.2]
        · rw [hheld, settle, if_pos hsame]
          rfl
    · rw [if_pos ((not_and_or.mp hsame).imp Ne.symm Ne.symm)]
      constructor
      · rw [JsMap.get_set_self, hheld, settle]
      · rw [hheld, settle, if_neg hsame]
        exact hself _ (by simp [LeaseIntent.slotId, loads])

variable (t) in
theorem unassign_settles (slotId : PanelSlotId) (reason : UnloadReason) :
    Settles slotId reason none (t.held, []) ((t.unassign slotId reason).1.held, (t.unassign slotId reason).2) := by
  unfold unassign
  cases hheld : t.held.get slotId with
  | none =>
    constructor
    · rw [hheld, settle]
    · rw [hheld, settle]
      rfl
  | some current =>
    dsimp only
    by_cases hkeep : current.keepLoaded = true
    · rw [if_pos hkeep]
      constructor
      · rw [hheld, settle, if_pos hkeep]
      · rw [hheld, settle, if_pos hkeep]
        rfl
    · rw [if_neg hkeep]
      constructor
      · rw [JsMap.get_delete, if_pos rfl, hheld, settle, if_neg hkeep]
      · rw [hheld, settle, if_neg hkeep]
        exact intentsFor_self (by simp [LeaseIntent.slotId])

variable (t) in
/-- The other slots. -/
theorem assign_spares (slotId : PanelSlotId) (lease : PanelRuntimeLease) {slotId' : PanelSlotId}
    (hne : slotId' ≠ slotId) :
    Spares slotId' (t.held, []) ((t.assign slotId lease).1.held, (t.assign slotId lease).2) := by
  have hset : ∀ h : HeldLease, (t.held.set slotId h).get slotId' = t.held.get slotId' := fun h ↦
    JsMap.get_set_of_ne _ hne h
  unfold assign
  split
  · exact ⟨hset _, intentsFor_other (by simp [LeaseIntent.slotId, loads]) hne⟩
  · split_ifs
    · exact ⟨hset _, intentsFor_other (by simp [LeaseIntent.slotId, loads]) hne⟩
    · exact ⟨hset _, rfl⟩
    · exact .refl _ _

variable (t) in
theorem unassign_spares (slotId : PanelSlotId) (reason : UnloadReason) {slotId' : PanelSlotId}
    (hne : slotId' ≠ slotId) :
    Spares slotId' (t.held, []) ((t.unassign slotId reason).1.held, (t.unassign slotId reason).2) := by
  unfold unassign
  split
  · exact .refl _ _
  · split_ifs
    · exact .refl _ _
    · exact ⟨by rw [JsMap.get_delete, if_neg hne], intentsFor_other (by simp [LeaseIntent.slotId]) hne⟩

/-- **The step lemma of an event** that is not covered yet: its slot becomes what the event says, unless the event
is about other sessions, and the other slots stay as they are. -/
theorem apply_settles {event : PanelRuntimeLeaseChangedEvent} (hnewer : versionNewer event.version t.version = true) :
    (t.apply event).1.version = some event.version ∧
    (∀ slotId, slotId ≠ event.slotId → Spares slotId (t.held, []) ((t.apply event).1.held, (t.apply event).2)) ∧
    ((∃ reason, Settles event.slotId reason (mineOf t.clientSessionId event.next) (t.held, [])
        ((t.apply event).1.held, (t.apply event).2)) ∨
      mineOf t.clientSessionId event.previous = none ∧ mineOf t.clientSessionId event.next = none ∧
        (t.apply event).1.held = t.held ∧ (t.apply event).2 = []) := by
  have hversion : ∀ s : LeaseTracker, (∀ slotId lease, (s.assign slotId lease).1.version = s.version) ∧
      ∀ slotId reason, (s.unassign slotId reason).1.version = s.version := by
    intro s
    constructor
    · intro slotId lease
      unfold assign
      split
      · rfl
      · split_ifs <;> rfl
    · intro slotId reason
      unfold unassign
      split
      · rfl
      · split_ifs <;> rfl
  have happly : t.apply event = match classifyRuntimeLeaseChange t.clientSessionId event with
      | .assigned lease => assign { t with version := some event.version } event.slotId lease
      | .unassigned _ reason _ => unassign { t with version := some event.version } event.slotId reason
      | .unrelated => ({ t with version := some event.version }, []) := by
    rw [apply, if_pos hnewer]
  cases hnext : mineOf t.clientSessionId event.next with
  | some lease =>
    have hclass : classifyRuntimeLeaseChange t.clientSessionId event = .assigned lease := by
      unfold classifyRuntimeLeaseChange
      rw [show event.next.filter _ = some lease from hnext]
    rw [hclass] at happly
    dsimp only at happly
    rw [happly]
    exact ⟨(hversion _).1 _ _, fun slotId hne ↦
        assign_spares { t with version := some event.version } event.slotId lease hne,
      .inl ⟨.stale, assign_settles { t with version := some event.version } event.slotId lease .stale⟩⟩
  | none =>
    cases hprevious : mineOf t.clientSessionId event.previous with
    | some previous =>
      have hclass : classifyRuntimeLeaseChange t.clientSessionId event = .unassigned event.slotId
          (if event.next.isSome then .leaseTransfer else .released) previous := by
        unfold classifyRuntimeLeaseChange
        rw [show event.next.filter _ = none from hnext, show event.previous.filter _ = some previous from hprevious]
      rw [hclass] at happly
      dsimp only at happly
      rw [happly]
      exact ⟨(hversion _).2 _ _, fun slotId hne ↦
          unassign_spares { t with version := some event.version } event.slotId _ hne,
        .inl ⟨_, unassign_settles { t with version := some event.version } event.slotId _⟩⟩
    | none =>
      have hclass : classifyRuntimeLeaseChange t.clientSessionId event = .unrelated := by
        unfold classifyRuntimeLeaseChange
        rw [show event.next.filter _ = none from hnext, show event.previous.filter _ = none from hprevious]
      rw [hclass] at happly
      rw [happly]
      exact ⟨rfl, fun slotId _ ↦ .refl _ _, .inr ⟨rfl, rfl, rfl, rfl⟩⟩

end LeaseTracker

/-! ## Intents as a sequence -/

/-- The loaded panel. -/
def HeldLease.shown (h : HeldLease) : PanelEntityId × JsString := (h.runtimeEntityId, h.connectionId)

/-- The intents of one slot are carried out: a load only where nothing is loaded, an unload only where something is. -/
def play : Option (PanelEntityId × JsString) → List LeaseIntent → Option (Option (PanelEntityId × JsString))
  | shown, [] => some shown
  | none, .load _ runtimeEntityId connectionId :: rest => play (some (runtimeEntityId, connectionId)) rest
  | some _, .unload _ _ :: rest => play none rest
  | _, _ => none

theorem play_append (l l' : List LeaseIntent) : ∀ shown,
    play shown (l ++ l') = (play shown l).bind fun shown' ↦ play shown' l' := by
  induction l with
  | nil =>
    intro shown
    rw [List.nil_append, play]
    rfl
  | cons i l ih =>
    intro shown
    cases shown <;> cases i <;> simp only [List.cons_append, play, ih, Option.bind_none]

/-- The intents of `settle` lead from what was held to what is held. -/
theorem play_settle (slotId : PanelSlotId) (reason : UnloadReason) (held : Option HeldLease)
    (lease : Option PanelRuntimeLease) : play (held.map HeldLease.shown) (settle slotId reason held lease).2 =
      some ((settle slotId reason held lease).1.map HeldLease.shown) := by
  unfold settle
  split
  · rfl
  · rfl
  · split_ifs <;> rfl
  · next current lease =>
    split_ifs with hsame
    · simp only [Option.map_some, play, HeldLease.shown, HeldLease.of, hsame.1, hsame.2]
    · rfl

/-- A view of a slot: what the server leases to the session is held, and what it does not is only held when it is
pinned. -/
def FollowsLease (lease : Option PanelRuntimeLease) (held : Option HeldLease) : Prop :=
  held = lease.map HeldLease.of ∨ lease = none ∧ ∃ h, held = some h ∧ h.keepLoaded = true

theorem follows_settle (slotId : PanelSlotId) (reason : UnloadReason) (held : Option HeldLease)
    (lease : Option PanelRuntimeLease) : FollowsLease lease (settle slotId reason held lease).1 := by
  unfold settle
  split
  · exact .inl rfl
  · exact .inl rfl
  · next current =>
    split_ifs with hkeep
    · exact .inr ⟨rfl, current, rfl, hkeep⟩
    · exact .inl rfl
  · exact .inl rfl

theorem nodup_keys_foldl {α : Type} {f : Reconciliation → α → Reconciliation}
    (hf : ∀ p a, (JsMap.keys p.1).Nodup → (JsMap.keys (f p a).1).Nodup) (l : List α) :
    ∀ p, (JsMap.keys p.1).Nodup → (JsMap.keys (l.foldl f p).1).Nodup := by
  induction l with
  | nil => exact fun _ h ↦ h
  | cons a l ih => exact fun p h ↦ ih _ (hf p a h)

namespace LeaseTracker

variable {t : LeaseTracker}

theorem nodup_reconcile (ht : (JsMap.keys t.held).Nodup) (snapshot : RuntimeLeaseSnapshot) :
    (JsMap.keys (t.reconcile snapshot).1.held).Nodup := by
  refine nodup_keys_foldl (fun p a h ↦ ?_) _ _ (nodup_keys_foldl (fun p a h ↦ ?_) _ _ ht)
  · rw [reconcileNew]
    split_ifs
    · exact h
    · exact JsMap.nodup_keys_set h _ _
  · unfold reconcileHeld
    split
    split
    · split_ifs
      · exact h
      · exact JsMap.nodup_keys_delete h _
    · split_ifs
      · exact JsMap.nodup_keys_set h _ _
      · exact JsMap.nodup_keys_set h _ _
      · exact h

theorem nodup_apply (ht : (JsMap.keys t.held).Nodup) (event : PanelRuntimeLeaseChangedEvent) :
    (JsMap.keys (t.apply event).1.held).Nodup := by
  unfold apply
  split
  · dsimp only
    split
    · unfold assign
      split
      · exact JsMap.nodup_keys_set ht _ _
      · split_ifs
        · exact JsMap.nodup_keys_set ht _ _
        · exact JsMap.nodup_keys_set ht _ _
        · exact ht
    · unfold unassign
      split
      · exact ht
      · split_ifs
        · exact ht
        · exact JsMap.nodup_keys_delete ht _
    · exact ht
  · exact ht

theorem apply_session (event : PanelRuntimeLeaseChangedEvent) :
    (t.apply event).1.clientSessionId = t.clientSessionId := by
  unfold apply
  split
  · dsimp only
    split
    · unfold assign
      split
      · rfl
      · split_ifs <;> rfl
    · unfold unassign
      split
      · rfl
      · split_ifs <;> rfl
    · rfl
  · rfl

end LeaseTracker

end Vibestudio.Shared

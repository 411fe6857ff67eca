import Mathlib
import Vibestudio.Shared.LeaseTracker
import Vibestudio.Transition.Run

/-!
# Lease views of a client

The server's table of leases by slot goes through versions of one epoch, and a client is told of it by snapshots and by
the events between the versions, in order; what a snapshot has covered may also come after it. Two views are kept of
what is delivered. The tracker compares versions, and holds the leases of its session at the newest version that has
been delivered (`tracker_follows`). The registry does not, and holds the table as long as no event that comes late
says something else than the table does.
-/

namespace Vibestudio.Shared

open Js Transition

/-- The server's changes, what has been delivered of them, and the two views. -/
structure LeaseViews where
  changes : List PanelRuntimeLeaseChangedEvent
  /-- The newest version that has been delivered. -/
  delivered : ℕ
  /-- The newest version of which a snapshot has been delivered. -/
  covered : ℕ
  tracker : LeaseTracker
  /-- The intents that have been emitted. -/
  intents : List LeaseIntent
  registry : PanelRegistry

/-- The table after the first `n` changes. -/
def tableAt (changes : List PanelRuntimeLeaseChangedEvent) (n : ℕ) : JsMap PanelSlotId PanelRuntimeLease :=
  (changes.take n).foldl (fun leases event ↦ event.change leases) []

/-- The counters of the versions. -/
def countersOf (start : ℕ) (changes : List PanelRuntimeLeaseChangedEvent) : List ℕ :=
  start :: changes.map fun event ↦ event.version.counter

def counterAt (start : ℕ) (changes : List PanelRuntimeLeaseChangedEvent) (n : ℕ) : ℕ :=
  (countersOf start changes).getD n 0

namespace LeaseViews

def init (clientSessionId : JsString) : LeaseViews := ⟨[], 0, 0, .new clientSessionId, [], ⟨[], none⟩⟩

/-- The server's table at the newest version that has been delivered. -/
def table (s : LeaseViews) : JsMap PanelSlotId PanelRuntimeLease := tableAt s.changes s.delivered

inductive Event where
  /-- The server's table changes. -/
  | change (counter : ℕ) (slotId : PanelSlotId) (runtimeEntityId : PanelEntityId) (next : Option PanelRuntimeLease)
    (reason : PanelRuntimeLeaseChangedReason)
  /-- A snapshot of the version comes. -/
  | snapshot (n : ℕ) (leases : List PanelRuntimeLease)
  /-- The next change comes. -/
  | next
  /-- A change comes that a snapshot has covered. -/
  | late (n : ℕ)

/-- Both views are told of a change. -/
def deliver (s : LeaseViews) (event : PanelRuntimeLeaseChangedEvent) : LeaseViews :=
  { s with
    tracker := (s.tracker.apply event).1
    intents := s.intents ++ (s.tracker.apply event).2
    registry := s.registry.applyRuntimeLeaseChanged event }

variable (epoch : JsString) (start : ℕ)

def step (s : LeaseViews) : Event → Option LeaseViews
  | .change counter slotId runtimeEntityId next reason =>
    if counterAt start s.changes s.changes.length < counter ∧ ∀ lease ∈ next, lease.slotId = slotId then
      some { s with changes := s.changes ++ [⟨⟨epoch, counter⟩, slotId, runtimeEntityId,
        (tableAt s.changes s.changes.length).get slotId, next, reason⟩] }
    else none
  | .snapshot n leases =>
    if s.delivered ≤ n ∧ n ≤ s.changes.length ∧ leases.Perm ((tableAt s.changes n).map Prod.snd) then
      let snapshot : RuntimeLeaseSnapshot := ⟨⟨epoch, counterAt start s.changes n⟩, leases⟩
      some { s with
        delivered := n
        covered := n
        tracker := (s.tracker.reconcile snapshot).1
        intents := s.intents ++ (s.tracker.reconcile snapshot).2
        registry := s.registry.applyRuntimeLeaseSnapshot snapshot }
    else none
  | .next => s.changes[s.delivered]?.map fun event ↦ { s.deliver event with delivered := s.delivered + 1 }
  | .late n => if n < s.covered then s.changes[n]?.map s.deliver else none

/-- A change that comes late says what the table says. -/
def lateAgrees (s : LeaseViews) : Event → Bool
  | .late n => s.changes[n]?.all fun event ↦ decide (event.next = s.table.get event.slotId)
  | _ => true

/-! ## The table -/

/-- The leases stand under their slots. -/
structure Table (leases : JsMap PanelSlotId PanelRuntimeLease) : Prop where
  nodup : (JsMap.keys leases).Nodup
  slots : ∀ slotId lease, leases.get slotId = some lease → lease.slotId = slotId

theorem Table.change {leases : JsMap PanelSlotId PanelRuntimeLease} (h : Table leases)
    {event : PanelRuntimeLeaseChangedEvent} (hevent : ∀ lease ∈ event.next, lease.slotId = event.slotId) :
    Table (event.change leases) where
  nodup := by
    unfold PanelRuntimeLeaseChangedEvent.change
    cases event.next with
    | some lease => exact JsMap.nodup_keys_set h.nodup _ _
    | none => exact JsMap.nodup_keys_delete h.nodup _
  slots slotId lease hget := by
    rw [event.get_change] at hget
    split_ifs at hget with heq
    · exact heq ▸ hevent lease hget
    · exact h.slots slotId lease hget

/-- A snapshot of a table holds its leases, once. -/
theorem Table.snapshot {table : JsMap PanelSlotId PanelRuntimeLease} (h : Table table)
    {leases : List PanelRuntimeLease} (hperm : leases.Perm (table.map Prod.snd)) :
    (leases.map PanelRuntimeLease.slotId).Nodup ∧
      ∀ lease, lease ∈ leases ↔ table.get lease.slotId = some lease := by
  have hkeys : (table.map Prod.snd).map PanelRuntimeLease.slotId = JsMap.keys table := by
    rw [List.map_map]
    refine List.map_congr_left fun p hp ↦ ?_
    exact h.slots p.1 p.2 ((JsMap.mem_iff_get h.nodup).mp hp)
  refine ⟨?_, fun lease ↦ ?_⟩
  · rw [(hperm.map _).nodup_iff, hkeys]
    exact h.nodup
  · rw [hperm.mem_iff, List.mem_map, ← JsMap.mem_iff_get h.nodup]
    constructor
    · rintro ⟨p, hp, rfl⟩
      rwa [h.slots p.1 p.2 ((JsMap.mem_iff_get h.nodup).mp hp)]
    · exact fun hmem ↦ ⟨_, hmem, rfl⟩

end LeaseViews

/-- `new Map` of leases of distinct slots. -/
theorem get_bySlot {leases : List PanelRuntimeLease} (h : (leases.map PanelRuntimeLease.slotId).Nodup)
    (slotId : PanelSlotId) (lease : PanelRuntimeLease) :
    (bySlot leases).get slotId = some lease ↔ lease ∈ leases ∧ lease.slotId = slotId := by
  have key : ∀ (leases : List PanelRuntimeLease) (m : JsMap PanelSlotId PanelRuntimeLease),
      (leases.map PanelRuntimeLease.slotId).Nodup →
      ((leases.foldl (fun m lease ↦ m.set lease.slotId lease) m).get slotId = some lease ↔
        lease ∈ leases ∧ lease.slotId = slotId ∨
          slotId ∉ leases.map PanelRuntimeLease.slotId ∧ m.get slotId = some lease) := by
    intro leases
    induction leases with
    | nil => exact fun m _ ↦ by simp
    | cons l leases ih =>
      intro m hnodup
      rw [List.map_cons, List.nodup_cons] at hnodup
      rw [List.foldl_cons, ih _ hnodup.2, JsMap.get_set, List.map_cons, List.mem_cons, List.mem_cons]
      by_cases heq : slotId = l.slotId
      · rw [if_pos heq, Option.some.injEq]
        constructor
        · rintro (⟨hmem, hslot⟩ | ⟨-, rfl⟩)
          · exact .inl ⟨.inr hmem, hslot⟩
          · exact .inl ⟨.inl rfl, heq.symm⟩
        · rintro (⟨rfl | hmem, hslot⟩ | ⟨hnot, -⟩)
          · exact .inr ⟨heq ▸ hnodup.1, rfl⟩
          · exact .inl ⟨hmem, hslot⟩
          · exact absurd (.inl heq) hnot
      · rw [if_neg heq, or_iff_right heq]
        refine or_congr_left (and_congr_left fun hslot ↦ ?_)
        rw [or_iff_right]
        rintro rfl
        exact heq hslot.symm
  rw [bySlot, key leases [] h]
  simp [JsMap.get]

theorem nodup_keys_bySlot (leases : List PanelRuntimeLease) : (JsMap.keys (bySlot leases)).Nodup := by
  have key : ∀ (leases : List PanelRuntimeLease) (m : JsMap PanelSlotId PanelRuntimeLease), (JsMap.keys m).Nodup →
      (JsMap.keys (leases.foldl (fun m lease ↦ m.set lease.slotId lease) m)).Nodup := by
    intro leases
    induction leases with
    | nil => exact fun _ h ↦ h
    | cons l leases ih => exact fun m h ↦ ih _ (JsMap.nodup_keys_set h _ _)
  exact key leases [] List.nodup_nil

theorem tableAt_append (changes : List PanelRuntimeLeaseChangedEvent) (event : PanelRuntimeLeaseChangedEvent) {n : ℕ}
    (h : n ≤ changes.length) : tableAt (changes ++ [event]) n = tableAt changes n := by
  rw [tableAt, tableAt, List.take_append_of_le_length h]

theorem tableAt_succ {changes : List PanelRuntimeLeaseChangedEvent} {event : PanelRuntimeLeaseChangedEvent} {n : ℕ}
    (h : changes[n]? = some event) : tableAt changes (n + 1) = event.change (tableAt changes n) := by
  obtain ⟨hlt, heq⟩ := List.getElem?_eq_some_iff.mp h
  rw [tableAt, tableAt, List.take_add_one, h, Option.toList_some, List.foldl_append]
  rfl

/-- The counter of a change is that of the version after it. -/
theorem counterAt_succ {start : ℕ} {changes : List PanelRuntimeLeaseChangedEvent}
    {event : PanelRuntimeLeaseChangedEvent} {n : ℕ} (h : changes[n]? = some event) :
    counterAt start changes (n + 1) = event.version.counter := by
  rw [counterAt, countersOf, List.getD_cons_succ, List.getD_eq_getElem?_getD, List.getElem?_map, h]
  rfl

theorem counterAt_append {start : ℕ} (changes : List PanelRuntimeLeaseChangedEvent)
    (event : PanelRuntimeLeaseChangedEvent) {n : ℕ} (h : n ≤ changes.length) :
    counterAt start (changes ++ [event]) n = counterAt start changes n := by
  rw [counterAt, counterAt, countersOf, countersOf, List.map_append, ← List.cons_append, List.getD_append]
  rw [List.length_cons, List.length_map]
  exact Nat.lt_succ_of_le h

theorem counterAt_lt {start : ℕ} {changes : List PanelRuntimeLeaseChangedEvent}
    (h : (countersOf start changes).Pairwise (· < ·)) {m n : ℕ} (hmn : m < n) (hn : n ≤ changes.length) :
    counterAt start changes m < counterAt start changes n := by
  have hlength : (countersOf start changes).length = changes.length + 1 := by
    rw [countersOf, List.length_cons, List.length_map]
  have hm' : m < (countersOf start changes).length := by omega
  have hn' : n < (countersOf start changes).length := by omega
  rw [counterAt, counterAt, List.getD_eq_getElem _ _ hm', List.getD_eq_getElem _ _ hn']
  exact List.pairwise_iff_getElem.mp h m n hm' hn' hmn

theorem mineOf_eq_some {clientSessionId : JsString} {o : Option PanelRuntimeLease} {lease : PanelRuntimeLease} :
    LeaseTracker.mineOf clientSessionId o = some lease ↔ o = some lease ∧ lease.clientSessionId = clientSessionId := by
  rw [LeaseTracker.mineOf, Option.filter_eq_some_iff, decide_eq_true_iff]

namespace LeaseViews

/-! ## Runs -/

variable (epoch : JsString) (start : ℕ)

/-- What holds of the server's changes, and of the tracker. -/
structure Inv (clientSessionId : JsString) (s : LeaseViews) : Prop where
  covered : s.covered ≤ s.delivered
  delivered : s.delivered ≤ s.changes.length
  ordered : (countersOf start s.changes).Pairwise (· < ·)
  epochs : ∀ event ∈ s.changes, event.version.epoch = epoch
  slots : ∀ event ∈ s.changes, ∀ lease ∈ event.next, lease.slotId = event.slotId
  previous : ∀ n event, s.changes[n]? = some event → event.previous = (tableAt s.changes n).get event.slotId
  session : s.tracker.clientSessionId = clientSessionId
  version : s.tracker.version = none ∧ s.delivered = 0 ∨
    s.tracker.version = some ⟨epoch, counterAt start s.changes s.delivered⟩
  held_nodup : (JsMap.keys s.tracker.held).Nodup
  follows : ∀ slotId, FollowsLease (LeaseTracker.mineOf clientSessionId (s.table.get slotId)) (s.tracker.held.get slotId)
  played : ∀ slotId, play none (intentsFor slotId s.intents) =
    some ((s.tracker.held.get slotId).map HeldLease.shown)

variable {epoch start} {clientSessionId : JsString} {s s' : LeaseViews}

theorem Inv.isTable (h : Inv epoch start clientSessionId s) (n : ℕ) : Table (tableAt s.changes n) := by
  induction n with
  | zero => exact ⟨List.nodup_nil, fun _ _ hget ↦ nomatch hget⟩
  | succ n ih =>
    cases hevent : s.changes[n]? with
    | none =>
      have hle := List.getElem?_eq_none_iff.mp hevent
      rw [tableAt, List.take_of_length_le (by omega), ← List.take_of_length_le hle]
      exact ih
    | some event =>
      rw [tableAt_succ hevent]
      exact ih.change (h.slots event (List.mem_of_getElem? hevent))

/-- The table of a snapshot, and the session's part of it. -/
theorem Inv.get_snapshot (h : Inv epoch start clientSessionId s) {n : ℕ} {leases : List PanelRuntimeLease}
    (hperm : leases.Perm ((tableAt s.changes n).map Prod.snd)) (version : RuntimeLeaseVersion)
    (slotId : PanelSlotId) : (bySlot leases).get slotId = (tableAt s.changes n).get slotId ∧
      (s.tracker.mine ⟨version, leases⟩).get slotId =
        LeaseTracker.mineOf clientSessionId ((tableAt s.changes n).get slotId) := by
  obtain ⟨hnodup, hmem⟩ := (h.isTable n).snapshot hperm
  have hget : ∀ lease, lease ∈ leases ∧ lease.slotId = slotId ↔ (tableAt s.changes n).get slotId = some lease := by
    intro lease
    rw [hmem]
    constructor
    · rintro ⟨hlease, rfl⟩
      exact hlease
    · intro hlease
      have hslot := (h.isTable n).slots slotId lease hlease
      exact ⟨hslot.symm ▸ hlease, hslot⟩
  constructor
  · refine Option.ext fun lease ↦ ?_
    rw [get_bySlot hnodup, hget]
  · refine Option.ext fun lease ↦ ?_
    have hfiltered := hnodup.sublist ((List.filter_sublist (p := fun lease : PanelRuntimeLease ↦
      decide (lease.clientSessionId = s.tracker.clientSessionId))).map PanelRuntimeLease.slotId)
    rw [LeaseTracker.mine, get_bySlot hfiltered, mineOf_eq_some, ← hget, List.mem_filter, decide_eq_true_iff,
      h.session]
    tauto

/-- What `settle` says of a slot keeps the view and the sequence of its intents. -/
theorem settles_view {slotId : PanelSlotId} {reason : UnloadReason} {lease : Option PanelRuntimeLease}
    {t t' : LeaseTracker} {intents emitted : List LeaseIntent}
    (h : Settles slotId reason lease (t.held, []) (t'.held, emitted))
    (hplayed : play none (intentsFor slotId intents) = some ((t.held.get slotId).map HeldLease.shown)) :
    FollowsLease lease (t'.held.get slotId) ∧
      play none (intentsFor slotId (intents ++ emitted)) = some ((t'.held.get slotId).map HeldLease.shown) := by
  have hheld : t'.held.get slotId = (settle slotId reason (t.held.get slotId) lease).1 := h.held
  have hemitted : intentsFor slotId emitted = (settle slotId reason (t.held.get slotId) lease).2 := h.intents
  rw [hheld, intentsFor_append, play_append, hplayed, hemitted]
  exact ⟨follows_settle _ _ _ _, play_settle _ _ _ _⟩

theorem spares_view {slotId : PanelSlotId} {t t' : LeaseTracker} {intents emitted : List LeaseIntent}
    (h : Spares slotId (t.held, []) (t'.held, emitted))
    (hplayed : play none (intentsFor slotId intents) = some ((t.held.get slotId).map HeldLease.shown)) :
    t'.held.get slotId = t.held.get slotId ∧
      play none (intentsFor slotId (intents ++ emitted)) = some ((t'.held.get slotId).map HeldLease.shown) := by
  have hheld : t'.held.get slotId = t.held.get slotId := h.held
  have hemitted : intentsFor slotId emitted = [] := h.intents
  rw [hheld, intentsFor_append, hemitted, List.append_nil]
  exact ⟨rfl, hplayed⟩

theorem inv_init (epoch : JsString) (start : ℕ) (clientSessionId : JsString) :
    Inv epoch start clientSessionId (init clientSessionId) where
  covered := le_rfl
  delivered := le_rfl
  ordered := List.pairwise_singleton _ _
  epochs _ h := nomatch h
  slots _ h := nomatch h
  previous _ _ h := nomatch h
  session := rfl
  version := .inl ⟨rfl, rfl⟩
  held_nodup := List.nodup_nil
  follows _ := .inl rfl
  played _ := rfl

/-- The server's table changes. -/
theorem Inv.change (h : Inv epoch start clientSessionId s) {event : PanelRuntimeLeaseChangedEvent}
    (hcounter : counterAt start s.changes s.changes.length < event.version.counter)
    (hepoch : event.version.epoch = epoch) (hslot : ∀ lease ∈ event.next, lease.slotId = event.slotId)
    (hprevious : event.previous = (tableAt s.changes s.changes.length).get event.slotId) :
    Inv epoch start clientSessionId { s with changes := s.changes ++ [event] } where
  covered := h.covered
  delivered := by
    dsimp only
    rw [List.length_append]
    exact h.delivered.trans (Nat.le_add_right _ _)
  ordered := by
    have hsplit : countersOf start (s.changes ++ [event]) = countersOf start s.changes ++ [event.version.counter] := by
      rw [countersOf, countersOf, List.map_append, List.cons_append]
      rfl
    dsimp only
    rw [hsplit, List.pairwise_append]
    refine ⟨h.ordered, List.pairwise_singleton _ _, fun a ha b hb ↦ ?_⟩
    rw [List.mem_singleton.mp hb]
    -- the last counter is the largest one
    refine lt_of_le_of_lt ?_ hcounter
    obtain ⟨m, hm, rfl⟩ := List.mem_iff_getElem.mp ha
    have hlength : (countersOf start s.changes).length = s.changes.length + 1 := by
      rw [countersOf, List.length_cons, List.length_map]
    rw [← List.getD_eq_getElem _ 0 hm]
    rcases Nat.lt_or_eq_of_le (show m ≤ s.changes.length by omega) with hlt | heq
    · exact (counterAt_lt h.ordered hlt le_rfl).le
    · rw [heq]
      exact le_rfl
  epochs e he := (List.mem_append.mp he).elim (h.epochs e) fun he ↦ List.mem_singleton.mp he ▸ hepoch
  slots e he := (List.mem_append.mp he).elim (h.slots e) fun he ↦ List.mem_singleton.mp he ▸ hslot
  previous n e he := by
    dsimp only at he ⊢
    rw [List.getElem?_append] at he
    split_ifs at he with hlt
    · rw [tableAt_append _ _ hlt.le]
      exact h.previous n e he
    · rw [List.getElem?_singleton] at he
      split_ifs at he with hzero
      rw [show n = s.changes.length by omega, tableAt_append _ _ le_rfl, ← Option.some.inj he]
      exact hprevious
  session := h.session
  version := by
    dsimp only
    rw [counterAt_append _ _ h.delivered]
    exact h.version
  held_nodup := h.held_nodup
  follows slotId := by
    rw [table, tableAt_append _ _ h.delivered]
    exact h.follows slotId
  played := h.played

/-- A snapshot comes. -/
theorem Inv.snapshot (h : Inv epoch start clientSessionId s) {n : ℕ} {leases : List PanelRuntimeLease}
    (hn : n ≤ s.changes.length) (hperm : leases.Perm ((tableAt s.changes n).map Prod.snd)) (registry : PanelRegistry) :
    Inv epoch start clientSessionId { s with
      delivered := n
      covered := n
      tracker := (s.tracker.reconcile ⟨⟨epoch, counterAt start s.changes n⟩, leases⟩).1
      intents := s.intents ++ (s.tracker.reconcile ⟨⟨epoch, counterAt start s.changes n⟩, leases⟩).2
      registry } := by
  have hview : ∀ slotId, _ := fun slotId ↦
    settles_view (LeaseTracker.reconcile_settles h.held_nodup
      ⟨⟨epoch, counterAt start s.changes n⟩, leases⟩ (nodup_keys_bySlot _) slotId) (h.played slotId)
  exact {
    covered := le_rfl
    delivered := hn
    ordered := h.ordered
    epochs := h.epochs
    slots := h.slots
    previous := h.previous
    session := h.session
    version := .inr rfl
    held_nodup := LeaseTracker.nodup_reconcile h.held_nodup _
    follows := fun slotId ↦ by
      have hfollows := (hview slotId).1
      rw [(h.get_snapshot hperm _ slotId).2] at hfollows
      exact hfollows
    played := fun slotId ↦ (hview slotId).2 }

/-- The version of the next change is newer. -/
theorem Inv.newer (h : Inv epoch start clientSessionId s) {event : PanelRuntimeLeaseChangedEvent}
    (hevent : s.changes[s.delivered]? = some event) : versionNewer event.version s.tracker.version = true := by
  rcases h.version with ⟨hnone, -⟩ | hsome
  · rw [hnone]
    rfl
  · have hlt := counterAt_lt h.ordered (Nat.lt_succ_self s.delivered) (List.getElem?_eq_some_iff.mp hevent).1
    rw [counterAt_succ hevent] at hlt
    rw [hsome, versionNewer, if_neg (not_not.mpr (h.epochs event (List.mem_of_getElem? hevent)))]
    exact decide_eq_true hlt

/-- The next change comes. -/
theorem Inv.next (h : Inv epoch start clientSessionId s) {event : PanelRuntimeLeaseChangedEvent}
    (hevent : s.changes[s.delivered]? = some event) :
    Inv epoch start clientSessionId { s.deliver event with delivered := s.delivered + 1 } := by
  obtain ⟨hversion, hother, hown⟩ := LeaseTracker.apply_settles (h.newer hevent)
  have htable : ∀ slotId, (tableAt s.changes (s.delivered + 1)).get slotId =
      if slotId = event.slotId then event.next else s.table.get slotId := by
    intro slotId
    rw [tableAt_succ hevent, event.get_change]
    rfl
  have hview : ∀ slotId,
      FollowsLease (LeaseTracker.mineOf clientSessionId ((tableAt s.changes (s.delivered + 1)).get slotId))
          ((s.tracker.apply event).1.held.get slotId) ∧
        play none (intentsFor slotId (s.intents ++ (s.tracker.apply event).2)) =
          some (((s.tracker.apply event).1.held.get slotId).map HeldLease.shown) := by
    intro slotId
    rw [htable]
    by_cases heq : slotId = event.slotId
    · subst heq
      rw [if_pos rfl]
      rcases hown with ⟨reason, hsettles⟩ | ⟨hprevious, hnext, hheld, hemitted⟩
      · rw [h.session] at hsettles
        exact settles_view hsettles (h.played _)
      · -- the event is about other sessions, before and after
        rw [h.session] at hprevious hnext
        rw [h.previous _ event hevent] at hprevious
        have hfollows := h.follows event.slotId
        rw [hnext, hheld, hemitted, List.append_nil]
        exact ⟨hprevious ▸ hfollows, h.played _⟩
    · rw [if_neg heq]
      obtain ⟨hheld, hplayed⟩ := spares_view (hother slotId heq) (h.played slotId)
      exact ⟨hheld ▸ h.follows slotId, hplayed⟩
  exact {
    covered := h.covered.trans (Nat.le_succ _)
    delivered := (List.getElem?_eq_some_iff.mp hevent).1
    ordered := h.ordered
    epochs := h.epochs
    slots := h.slots
    previous := h.previous
    session := (LeaseTracker.apply_session event).trans h.session
    version := .inr (by
      dsimp only [deliver]
      rw [hversion, counterAt_succ hevent, ← h.epochs event (List.mem_of_getElem? hevent)])
    held_nodup := LeaseTracker.nodup_apply h.held_nodup event
    follows := fun slotId ↦ (hview slotId).1
    played := fun slotId ↦ (hview slotId).2 }

/-- **What a snapshot has covered, the tracker ignores.** -/
theorem Inv.apply_late (h : Inv epoch start clientSessionId s) {n : ℕ} (hn : n < s.covered)
    {event : PanelRuntimeLeaseChangedEvent} (hevent : s.changes[n]? = some event) :
    s.tracker.apply event = (s.tracker, []) := by
  have hlt : n < s.delivered := hn.trans_le h.covered
  have hversion : s.tracker.version = some ⟨epoch, counterAt start s.changes s.delivered⟩ :=
    h.version.resolve_left fun hnone ↦ absurd hnone.2 (Nat.ne_of_gt (Nat.zero_lt_of_lt hlt))
  have hle : event.version.counter ≤ counterAt start s.changes s.delivered := by
    rw [← counterAt_succ hevent]
    rcases Nat.lt_or_eq_of_le (Nat.succ_le_of_lt hlt) with hlt | heq
    · exact (counterAt_lt h.ordered hlt h.delivered).le
    · rw [← heq]
  have hold : versionNewer event.version s.tracker.version = false := by
    rw [hversion, versionNewer, if_neg (not_not.mpr (h.epochs event (List.mem_of_getElem? hevent)))]
    exact decide_eq_false (Nat.not_lt.mpr hle)
  rw [LeaseTracker.apply, hold, if_neg Bool.false_ne_true]

/-- **The step lemma.** -/
theorem Inv.step (h : Inv epoch start clientSessionId s) {e : Event} (hs : step epoch start s e = some s') :
    Inv epoch start clientSessionId s' := by
  cases e with
  | change counter slotId runtimeEntityId next reason =>
    obtain ⟨⟨hcounter, hslot⟩, heq⟩ := Option.ite_none_right_eq_some.mp hs
    obtain rfl := Option.some.inj heq
    exact h.change hcounter rfl hslot rfl
  | snapshot n leases =>
    obtain ⟨⟨-, hn, hperm⟩, heq⟩ := Option.ite_none_right_eq_some.mp hs
    obtain rfl := Option.some.inj heq
    exact h.snapshot hn hperm _
  | next =>
    obtain ⟨event, hevent, rfl⟩ := Option.map_eq_some_iff.mp hs
    exact h.next hevent
  | late n =>
    obtain ⟨hn, hs⟩ := Option.ite_none_right_eq_some.mp hs
    obtain ⟨event, hevent, rfl⟩ := Option.map_eq_some_iff.mp hs
    have hsame : s.deliver event = { s with registry := s.registry.applyRuntimeLeaseChanged event } := by
      rw [deliver, h.apply_late hn hevent, List.append_nil]
    rw [hsame]
    exact { h with }

/-- The registry holds the table at the newest version that has been delivered. -/
def InStep (s : LeaseViews) : Prop := ∀ slotId, s.registry.runtimeLeases.get slotId = s.table.get slotId

/-- **The registry stays in step exactly when what comes late says what the table says.** -/
theorem Inv.inStep_iff (h : Inv epoch start clientSessionId s) (hin : s.InStep) {e : Event}
    (hs : LeaseViews.step epoch start s e = some s') : s'.InStep ↔ lateAgrees s e = true := by
  cases e with
  | change counter slotId runtimeEntityId next reason =>
    obtain ⟨-, heq⟩ := Option.ite_none_right_eq_some.mp hs
    obtain rfl := Option.some.inj heq
    refine iff_of_true (fun slotId ↦ ?_) rfl
    rw [table, tableAt_append _ _ h.delivered]
    exact hin slotId
  | snapshot n leases =>
    obtain ⟨⟨-, -, hperm⟩, heq⟩ := Option.ite_none_right_eq_some.mp hs
    obtain rfl := Option.some.inj heq
    exact iff_of_true (fun slotId ↦ (h.get_snapshot hperm ⟨epoch, 0⟩ slotId).1) rfl
  | next =>
    obtain ⟨event, hevent, rfl⟩ := Option.map_eq_some_iff.mp hs
    refine iff_of_true (fun slotId ↦ ?_) rfl
    dsimp only [deliver, table, PanelRegistry.applyRuntimeLeaseChanged]
    rw [tableAt_succ hevent, event.get_change, event.get_change, hin slotId]
    rfl
  | late n =>
    obtain ⟨-, hs⟩ := Option.ite_none_right_eq_some.mp hs
    obtain ⟨event, hevent, rfl⟩ := Option.map_eq_some_iff.mp hs
    have hget : ∀ slotId, (s.deliver event).registry.runtimeLeases.get slotId =
        if slotId = event.slotId then event.next else s.table.get slotId := by
      intro slotId
      rw [← hin slotId]
      exact event.get_change _ _
    rw [lateAgrees, hevent, Option.all_some, decide_eq_true_iff]
    constructor
    · intro hin'
      have hslot := hin' event.slotId
      rw [hget, if_pos rfl] at hslot
      exact hslot
    · intro hagrees slotId
      rw [hget]
      split_ifs with heq
      · rw [heq]
        exact hagrees
      · rfl

theorem inv_of_reachable {ok : LeaseViews → Event → Bool}
    (h : Reachable (LeaseViews.step epoch start) ok (init clientSessionId) s) : Inv epoch start clientSessionId s :=
  h.invariant (inv_init epoch start clientSessionId) fun _ _ _ hI _ hs ↦ hI.step hs

/-- **Lease views.** In every run the tracker holds, apart from pinned slots, the leases of its session at the newest
version that has been delivered, and its intents lead to what it holds. The registry holds the whole table in every
run in which what comes late says what the table says, and a change that comes late and says something else ends
that. -/
theorem lease_views (epoch : JsString) (start : ℕ) (clientSessionId : JsString) :
    (∀ s, Reachable (LeaseViews.step epoch start) anyStep (init clientSessionId) s → ∀ slotId,
      FollowsLease (LeaseTracker.mineOf clientSessionId (s.table.get slotId)) (s.tracker.held.get slotId) ∧
        play none (intentsFor slotId s.intents) = some ((s.tracker.held.get slotId).map HeldLease.shown)) ∧
    (∀ s, Reachable (LeaseViews.step epoch start) lateAgrees (init clientSessionId) s → s.InStep) ∧
    ∀ s e s', Reachable (LeaseViews.step epoch start) anyStep (init clientSessionId) s → s.InStep →
      LeaseViews.step epoch start s e = some s' → (s'.InStep ↔ lateAgrees s e = true) := by
  refine ⟨fun s h slotId ↦ ?_, fun s h ↦ ?_, fun s e s' h hin hs ↦ (inv_of_reachable h).inStep_iff hin hs⟩
  · exact ⟨(inv_of_reachable h).follows slotId, (inv_of_reachable h).played slotId⟩
  · refine (h.invariant (I := fun s ↦ Inv epoch start clientSessionId s ∧ s.InStep)
      ⟨inv_init epoch start clientSessionId, fun _ ↦ rfl⟩ ?_).2
    exact fun t t' e ⟨hI, hin⟩ hok hs ↦ ⟨hI.step hs, (hI.inStep_iff hin hs).mpr hok⟩

/-! ## A change that comes late -/

def slotA : PanelSlotId := lit "panel:tree/a"

def entityA : PanelEntityId := lit "panel:nav-a"

/-- A lease of the slot for the session. -/
def leaseA (clientSessionId : JsString) : PanelRuntimeLease where
  slotId := slotA
  runtimeEntityId := entityA
  clientSessionId
  hostConnectionId := clientSessionId
  connectionId := lit "default-cdp-a-1"
  holderLabel := lit "Headless"
  platform := .headless
  supportsCdp := true
  loadOnLeaseAssignment := true
  keepLoaded := some false
  acquiredAt := 1
  expiresAt := none

/-- The slot is acquired and released, and the client has a snapshot of the table after that. -/
def releasedBefore : List Event :=
  [.change 1 slotA entityA (some (leaseA (lit "desktop"))) .acquired,
    .change 2 slotA entityA none .released, .snapshot 2 []]

/-- With the snapshot both views are in step. -/
theorem lease_views_released : ∃ s, run (LeaseViews.step (lit "e1") 0) anyStep (init (lit "desktop"))
    releasedBefore = some s ∧ s.InStep ∧ FollowsLease none (s.tracker.held.get slotA) := by
  have hrun : (run (LeaseViews.step (lit "e1") 0) anyStep (init (lit "desktop")) releasedBefore).map
      (fun s ↦ decide (s.table.get slotA = none)) = some true := by decide +kernel
  have hagrees : (run (LeaseViews.step (lit "e1") 0) lateAgrees (init (lit "desktop")) releasedBefore).isSome
      = true := by decide +kernel
  obtain ⟨s, hs, htable⟩ := Option.map_eq_some_iff.mp hrun
  obtain ⟨s', hs'⟩ := Option.isSome_iff_exists.mp hagrees
  have hsame : s' = s := by
    have heq : run (LeaseViews.step (lit "e1") 0) lateAgrees (init (lit "desktop")) releasedBefore =
      run (LeaseViews.step (lit "e1") 0) anyStep (init (lit "desktop")) releasedBefore := rfl
    exact Option.some.inj (hs'.symm.trans (heq.trans hs))
  subst hsame
  obtain ⟨htracker, hregistry, -⟩ := lease_views (lit "e1") 0 (lit "desktop")
  refine ⟨s', hs, hregistry s' (Reachable.init.run hs'), ?_⟩
  have hfollows := (htracker s' (Reachable.init.run hs) slotA).1
  rw [of_decide_eq_true htable] at hfollows
  exact hfollows

/-- **The registry takes what a snapshot has covered**: when the event of the acquisition comes after the snapshot,
the registry holds a lease that the server does not have. -/
theorem late_change_reaches_registry : ¬ ∀ s, Reachable (LeaseViews.step (lit "e1") 0) anyStep
    (init (lit "desktop")) s → s.InStep := by
  have hrun : (run (LeaseViews.step (lit "e1") 0) anyStep (init (lit "desktop")) (releasedBefore ++ [.late 0])).map
      (fun s ↦ decide (s.registry.runtimeLeases.get slotA = some (leaseA (lit "desktop")) ∧
        s.table.get slotA = none)) = some true := by decide +kernel
  obtain ⟨s, hs, hget⟩ := Option.map_eq_some_iff.mp hrun
  obtain ⟨hregistry, htable⟩ := of_decide_eq_true hget
  intro h
  have hin := h s (Reachable.init.run hs) slotA
  rw [hregistry, htable] at hin
  exact nomatch hin

end LeaseViews

end Vibestudio.Shared

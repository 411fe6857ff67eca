import Mathlib.Data.List.Sort
import Vibestudio.Server.SharedBuildCoordinator

/-!
# The queue of build slots

A builder admits its compilers to one budget of slots. `acquire` takes a slot when `hasBuildSlotCapacity` allows one
for its priority, and waits otherwise; a release, a promotion and an abort go through the waiters again, an acquire and
a close do not. So nobody may ever be left waiting for a slot that is free: what an acquire takes can only make the
others wait longer, and a promotion or an abort leaves the counters alone.

The waiters are kept by priority, and those of one priority by the time they took it. A waiter that is promoted takes
its new priority then, behind the others of that priority.

Beside the fields of the queue a state holds the leases and the abort signals that its callers hold, and the
settlements of the promises in the order in which they are made. The numbers of calls, leases and signals stand for the
objects. An event is one call from outside, with everything it does before it returns.
-/

namespace Vibestudio.Server.BuildSlots

open Js SharedBuild

variable {R : Type}

/-- A waiter: the call of `acquire` that waits, and the event at which it took its priority. -/
structure Waiter where
  call : ℕ
  priority : BuildPriority
  signal : Option ℕ
  since : ℕ
  deriving DecidableEq

structure BuildSlotLease where
  priority : BuildPriority
  released : Bool

/-- How the promise of an `acquire` settles. -/
inductive Settlement (R : Type) where
  | lease (id : ℕ)
  | rejected (reason : R)
  deriving DecidableEq

/-- The lease of a settlement. -/
def Settlement.lease? : Settlement R → Option ℕ
  | .lease id => some id
  | .rejected _ => none

/-- `calls` has the signals of all calls of `acquire`, `listeners` the abort listeners of each signal in their order. -/
structure BuildSlotQueue (R : Type) where
  capacity : ℤ
  closeReason : Option R
  waiters : List Waiter
  running : ℤ
  runningNonInteractive : ℤ
  runningSpeculative : ℤ
  leases : List BuildSlotLease
  calls : List (Option ℕ)
  aborted : JsMap ℕ R
  listeners : List (ℕ × ℕ)
  settlements : List (ℕ × Settlement R)
  events : ℕ

namespace BuildSlotQueue

def new (capacity : ℤ) : BuildSlotQueue R := ⟨capacity, none, [], 0, 0, 0, [], [], [], [], [], 0⟩

variable (q : BuildSlotQueue R)

/-- `canAdmit`, which is `hasBuildSlotCapacity` in every call. -/
def canAdmit (priority : BuildPriority) : Bool :=
  hasBuildSlotCapacity priority q.running q.runningNonInteractive q.runningSpeculative q.capacity

/-- The counters, after `step` more leases of a priority. -/
def count (priority : BuildPriority) (step : ℤ) : BuildSlotQueue R := { q with
  running := q.running + step
  runningNonInteractive := if priority = .interactive then q.runningNonInteractive else q.runningNonInteractive + step
  runningSpeculative := if priority = .speculative then q.runningSpeculative + step else q.runningSpeculative }

def settle (call : ℕ) (settlement : Settlement R) : BuildSlotQueue R :=
  { q with settlements := q.settlements ++ [(call, settlement)] }

/-- A call is settled by a new lease. -/
def grant (call : ℕ) (priority : BuildPriority) : BuildSlotQueue R :=
  let granted : BuildSlotQueue R := { q.count priority 1 with leases := q.leases ++ [⟨priority, false⟩] }
  granted.settle call (.lease q.leases.length)

def removeEventListener (call : ℕ) : BuildSlotQueue R :=
  { q with listeners := q.listeners.filter fun l ↦ decide (l.2 ≠ call) }

/-- The loop of `admitWaiters`: it has passed over the waiters of `q`, and has these before it. -/
def admitRest (q : BuildSlotQueue R) : List Waiter → BuildSlotQueue R
  | [] => q
  | waiter :: rest =>
    if q.canAdmit waiter.priority then
      admitRest ((q.removeEventListener waiter.call).grant waiter.call waiter.priority) rest
    else admitRest { q with waiters := q.waiters ++ [waiter] } rest

def admitWaiters : BuildSlotQueue R := admitRest { q with waiters := [] } q.waiters

/-- A waiter is put before the first whose priority is weaker. -/
def insert (waiter : Waiter) (waiters : List Waiter) : List Waiter :=
  waiters.orderedInsert (fun waiter entry ↦ rank waiter.priority < rank entry.priority) waiter

def enqueue (waiter : Waiter) : BuildSlotQueue R := { q with
  waiters := insert waiter q.waiters
  listeners := q.listeners ++ (waiter.signal.map fun signal ↦ (signal, waiter.call)).toList }

def acquire (priority : BuildPriority) (signal : Option ℕ) : BuildSlotQueue R :=
  let call := q.calls.length
  let called := { q with calls := q.calls ++ [signal] }
  match q.closeReason, signal.bind fun signal ↦ q.aborted.get signal with
  | some reason, _ => called.settle call (.rejected reason)
  | none, some reason => called.settle call (.rejected reason)
  | none, none =>
    if q.canAdmit priority then called.grant call priority
    else called.enqueue ⟨call, priority, signal, q.events⟩

/-- The function that `bindPromotion` is given. It does nothing for a call that no longer waits, as the one that a
call gets that never did. -/
def promote (call : ℕ) (next : BuildPriority) : BuildSlotQueue R :=
  match q.waiters.find? fun waiter ↦ decide (waiter.call = call) with
  | none => q
  | some waiter =>
    if rank waiter.priority ≤ rank next then q
    else
      let waiters := q.waiters.filter fun entry ↦ decide (entry.call ≠ call)
      let promoted : BuildSlotQueue R := { q with waiters := insert { waiter with priority := next, since := q.events } waiters }
      promoted.admitWaiters

/-- The abort listener of a call. -/
def onAbort (reason : R) (q : BuildSlotQueue R) (l : ℕ × ℕ) : BuildSlotQueue R :=
  -- a listener that another has removed is not called
  if l ∈ q.listeners then
    let removed : BuildSlotQueue R := { q.removeEventListener l.2 with
      waiters := q.waiters.filter fun entry ↦ decide (entry.call ≠ l.2) }
    (removed.settle l.2 (.rejected reason)).admitWaiters
  else q

/-- `AbortController.abort`. -/
def abort (signal : ℕ) (reason : R) : BuildSlotQueue R :=
  match q.aborted.get signal with
  | some _ => q
  | none => (q.listeners.filter fun l ↦ decide (l.1 = signal)).foldl (onAbort reason)
      { q with aborted := q.aborted.set signal reason }

def close (reason : R) : BuildSlotQueue R :=
  match q.closeReason with
  | some _ => q
  | none => { q with
      closeReason := some reason
      waiters := []
      listeners := q.listeners.filter fun l ↦ decide (l.2 ∉ q.waiters.map Waiter.call)
      settlements := q.settlements ++ q.waiters.map fun waiter ↦ (waiter.call, .rejected reason) }

/-- The counters and the leases, when a lease is released. -/
def releases (id : ℕ) (priority : BuildPriority) : BuildSlotQueue R :=
  { q.count priority (-1) with leases := q.leases.set id ⟨priority, true⟩ }

/-- `release` of a lease. -/
def release (id : ℕ) : BuildSlotQueue R :=
  match q.leases[id]? with
  | some ⟨priority, false⟩ => (q.releases id priority).admitWaiters
  | _ => q

end BuildSlotQueue

inductive Event (R : Type) where
  | acquire (priority : BuildPriority) (signal : Option ℕ)
  | release (lease : ℕ)
  | promote (call : ℕ) (next : BuildPriority)
  | abort (signal : ℕ) (reason : R)
  | close (reason : R)

namespace BuildSlotQueue

def tick (q : BuildSlotQueue R) : BuildSlotQueue R := { q with events := q.events + 1 }

def step (q : BuildSlotQueue R) : Event R → BuildSlotQueue R
  | .acquire priority signal => q.tick.acquire priority signal
  | .release lease => q.tick.release lease
  | .promote call next => q.tick.promote call next
  | .abort signal reason => q.tick.abort signal reason
  | .close reason => q.tick.close reason

def run (capacity : ℤ) (events : List (Event R)) : BuildSlotQueue R := events.foldl step (new capacity)

/-! ## What holds of a queue -/

/-- How many leases of the priorities `p` are not released. -/
def held (leases : List BuildSlotLease) (p : BuildPriority → Bool) : ℕ :=
  leases.countP fun lease ↦ !lease.released && p lease.priority

/-- The order of the waiters: by priority, and then by the time they took it. -/
def Before (a b : Waiter) : Prop :=
  rank a.priority < rank b.priority ∨ a.priority = b.priority ∧ a.since < b.since

structure Counted (q : BuildSlotQueue R) : Prop where
  running : q.running = held q.leases fun _ ↦ true
  nonInteractive : q.runningNonInteractive = held q.leases fun priority ↦ decide (priority ≠ .interactive)
  speculative : q.runningSpeculative = held q.leases fun priority ↦ decide (priority = .speculative)

structure WithinCapacity (q : BuildSlotQueue R) : Prop where
  running : q.running ≤ max 0 q.capacity
  nonInteractive : q.runningNonInteractive ≤ max 1 (q.capacity - 1)
  speculative : q.runningSpeculative ≤ max 1 (q.capacity - 2)

/-- How the promises of a queue have settled; `ws` wait, and `owed` are the calls that the event is about to settle. -/
structure Settles (q : BuildSlotQueue R) (ws : List Waiter) (owed : List ℕ) : Prop where
  /-- Each call waits or has settled, and has settled once. -/
  calls : (ws.map Waiter.call ++ owed ++ q.settlements.map Prod.fst).Perm (List.range q.calls.length)
  leases : q.settlements.filterMap (fun p ↦ p.2.lease?) = List.range q.leases.length
  reasons : ∀ call reason, (call, .rejected reason) ∈ q.settlements → q.closeReason = some reason ∨
    ∃ signal, q.calls[call]? = some (some signal) ∧ q.aborted.get signal = some reason

/-- Nobody waits whom the counters would let in. -/
def NoneAdmissible (q : BuildSlotQueue R) (ws : List Waiter) : Prop := ∀ w ∈ ws, q.canAdmit w.priority = false

structure Coherent (q : BuildSlotQueue R) : Prop where
  counted : q.Counted
  withinCapacity : q.WithinCapacity
  ordered : q.waiters.Pairwise Before
  noneAdmissible : q.NoneAdmissible q.waiters
  settles : q.Settles q.waiters []

/-! ## Counting -/

variable {q : BuildSlotQueue R} {ws ws' : List Waiter} {w : Waiter} {owed : List ℕ} {call : ℕ} {priority : BuildPriority}

theorem held_append (leases : List BuildSlotLease) (priority : BuildPriority) (p : BuildPriority → Bool) :
    held (leases ++ [⟨priority, false⟩]) p = held leases p + if p priority then 1 else 0 := by
  simp [held, List.countP_append, List.countP_cons]

theorem held_release {leases : List BuildSlotLease} {id : ℕ} (h : leases[id]? = some ⟨priority, false⟩)
    (p : BuildPriority → Bool) :
    (held (leases.set id ⟨priority, true⟩) p : ℤ) = held leases p - if p priority then 1 else 0 := by
  obtain ⟨hid, hget⟩ := List.getElem?_eq_some_iff.mp h
  have hone : (if p priority then 1 else 0) ≤ held leases p := by
    have := List.boole_getElem_le_countP (p := fun l : BuildSlotLease ↦ !l.released && p l.priority) hid
    rwa [hget] at this
  have hset : held (leases.set id ⟨priority, true⟩) p = held leases p - if p priority then 1 else 0 := by
    rw [held, List.countP_set hid, hget]
    rfl
  rw [hset, Nat.cast_sub hone]
  split_ifs <;> rfl

theorem counted_grant (h : q.Counted) (call : ℕ) (priority : BuildPriority) : (q.grant call priority).Counted := by
  have hheld (p) : (held (q.grant call priority).leases p : ℤ) = held q.leases p + if p priority then 1 else 0 := by
    rw [show (q.grant call priority).leases = q.leases ++ [⟨priority, false⟩] from rfl, held_append]
    split_ifs <;> rfl
  constructor
  · rw [hheld, ← h.running]
    rfl
  · rw [hheld, ← h.nonInteractive]
    cases priority <;> simp [grant, count, settle]
  · rw [hheld, ← h.speculative]
    cases priority <;> simp [grant, count, settle]

theorem counted_releases {id : ℕ} (h : q.Counted) (hid : q.leases[id]? = some ⟨priority, false⟩) :
    (q.releases id priority).Counted := by
  have hheld (p) : (held (q.releases id priority).leases p : ℤ) = held q.leases p - if p priority then 1 else 0 :=
    held_release hid p
  constructor
  · rw [hheld, ← h.running]
    rfl
  · rw [hheld, ← h.nonInteractive]
    cases priority <;> simp [releases, count, sub_eq_add_neg]
  · rw [hheld, ← h.speculative]
    cases priority <;> simp [releases, count, sub_eq_add_neg]

theorem withinCapacity_grant (h : q.WithinCapacity) (hcan : q.canAdmit priority = true) (call : ℕ) :
    (q.grant call priority).WithinCapacity := by
  obtain ⟨hrunning, hnonInteractive, hspeculative⟩ := h
  unfold canAdmit hasBuildSlotCapacity at hcan
  constructor <;> cases priority <;> simp [grant, count, settle] at hcan hrunning hnonInteractive hspeculative ⊢ <;> omega

/-- A lease that is granted lets nobody in who was not let in before. -/
theorem canAdmit_grant {p : BuildPriority} (h : (q.grant call priority).canAdmit p = true) : q.canAdmit p = true := by
  unfold canAdmit hasBuildSlotCapacity at h ⊢
  cases priority <;> cases p <;> simp [grant, count, settle] at h ⊢ <;> omega

/-! ## The order of the waiters -/

theorem mem_insert {entry : Waiter} : entry ∈ insert w ws ↔ entry = w ∨ entry ∈ ws := List.mem_orderedInsert _

theorem rank_le_of_before {a b : Waiter} (h : Before a b) : rank a.priority ≤ rank b.priority := by
  rcases h with h | h
  · exact h.le
  · rw [h.1]

theorem rank_injective {a b : BuildPriority} (h : rank a = rank b) : a = b := by
  cases a <;> cases b <;> first | rfl | exact nomatch h

/-- Whoever takes a priority last is behind the others of that priority. -/
theorem ordered_insert (hlast : ∀ entry ∈ ws, entry.since < w.since) (h : ws.Pairwise Before) :
    (insert w ws).Pairwise Before := by
  induction ws with
  | nil => exact List.pairwise_singleton _ _
  | cons entry rest ih =>
    obtain ⟨hentry, hrest⟩ := List.pairwise_cons.mp h
    unfold insert at ih ⊢
    rw [List.orderedInsert]
    split_ifs with hlt
    · refine List.pairwise_cons.mpr ⟨fun other hother ↦ ?_, h⟩
      rcases List.mem_cons.mp hother with rfl | hother
      · exact .inl hlt
      · exact .inl (hlt.trans_le (rank_le_of_before (hentry other hother)))
    · refine List.pairwise_cons.mpr ⟨fun other hother ↦ ?_, ih (fun e he ↦ hlast e (List.mem_cons_of_mem _ he)) hrest⟩
      rcases (List.mem_orderedInsert _).mp hother with rfl | hother
      · rcases (not_lt.mp hlt).lt_or_eq with hless | hsame
        · exact .inl hless
        · exact .inr ⟨rank_injective hsame, hlast entry List.mem_cons_self⟩
      · exact hentry other hother

/-! ## The invariant -/

/-- The invariant in the middle of an event: `ws` wait, and the calls `owed` are about to be settled. -/
structure Sound (q : BuildSlotQueue R) (ws : List Waiter) (owed : List ℕ) : Prop extends Settles q ws owed where
  counted : q.Counted
  withinCapacity : q.WithinCapacity
  ordered : ws.Pairwise Before
  since : ∀ w ∈ ws, w.since ≤ q.events
  signals : ∀ w ∈ ws, q.calls[w.call]? = some w.signal
  listeners : ∀ l, l ∈ q.listeners ↔ ∃ w ∈ ws, w.call = l.2 ∧ w.signal = some l.1
  closed : q.closeReason ≠ none → ws = []

theorem Settles.nodup (h : Settles q ws owed) : (ws.map Waiter.call).Nodup :=
  (h.calls.nodup_iff.mpr List.nodup_range).of_append_left.of_append_left

/-- A call of `acquire` begins. -/
theorem Sound.called (h : Sound q ws []) (signal : Option ℕ) :
    Sound { q with calls := q.calls ++ [signal] } ws [q.calls.length] := by
  have hkept {c : ℕ} {x : Option ℕ} (hc : q.calls[c]? = some x) : (q.calls ++ [signal])[c]? = some x := by
    rw [List.getElem?_append_left (List.getElem?_eq_some_iff.mp hc).1]
    exact hc
  refine { h with
    calls := ?_
    reasons := fun c reason hc ↦ ?_
    counted := ⟨h.counted.running, h.counted.nonInteractive, h.counted.speculative⟩
    withinCapacity := ⟨h.withinCapacity.running, h.withinCapacity.nonInteractive, h.withinCapacity.speculative⟩
    signals := fun w hw ↦ hkept (h.signals w hw) }
  · rw [List.length_append, List.length_singleton, List.range_succ]
    refine List.Perm.trans ?_ (h.calls.append_right _)
    rw [List.append_nil, List.append_assoc, List.append_assoc]
    exact List.perm_append_comm.append_left _
  · rcases h.reasons c reason hc with hclosed | ⟨s, hs, haborted⟩
    · exact .inl hclosed
    · exact .inr ⟨s, hkept hs, haborted⟩

/-- A waiter leaves the queue with its listener, to be settled. -/
theorem Sound.takeOut (h : Sound q ws []) (hperm : ws.Perm (w :: ws')) (hsub : ws'.Sublist ws) :
    Sound (q.removeEventListener w.call) ws' [w.call] := by
  have hapart : w.call ∉ ws'.map Waiter.call := by
    have := (hperm.map Waiter.call).nodup_iff.mp h.nodup
    exact (List.nodup_cons.mp this).1
  refine { h with
    calls := ?_
    counted := ⟨h.counted.running, h.counted.nonInteractive, h.counted.speculative⟩
    withinCapacity := ⟨h.withinCapacity.running, h.withinCapacity.nonInteractive, h.withinCapacity.speculative⟩
    ordered := h.ordered.sublist hsub
    since := fun w hw ↦ h.since w (hsub.subset hw)
    signals := fun w hw ↦ h.signals w (hsub.subset hw)
    listeners := fun l ↦ ?_
    closed := fun hc ↦ List.sublist_nil.mp (h.closed hc ▸ hsub) }
  · refine List.Perm.trans (List.Perm.append_right _ ?_) h.calls
    rw [List.append_nil]
    exact List.perm_append_comm.trans (hperm.map Waiter.call).symm
  · change l ∈ q.listeners.filter _ ↔ _
    rw [List.mem_filter, h.listeners, decide_eq_true_iff]
    constructor
    · rintro ⟨⟨x, hx, hcall, hsignal⟩, hne⟩
      rcases List.mem_cons.mp (hperm.mem_iff.mp hx) with rfl | hx
      · exact absurd hcall.symm hne
      · exact ⟨x, hx, hcall, hsignal⟩
    · rintro ⟨x, hx, hcall, hsignal⟩
      refine ⟨⟨x, hsub.subset hx, hcall, hsignal⟩, fun hsame ↦ hapart ?_⟩
      rw [← hsame, ← hcall]
      exact List.mem_map_of_mem hx

theorem Sound.settle (h : Sound q ws [call]) {reason : R} (hreason : q.closeReason = some reason ∨
      ∃ signal, q.calls[call]? = some (some signal) ∧ q.aborted.get signal = some reason) :
    Sound (q.settle call (.rejected reason)) ws [] := by
  refine { h with
    calls := ?_
    leases := ?_
    reasons := fun c r hc ↦ ?_
    counted := ⟨h.counted.running, h.counted.nonInteractive, h.counted.speculative⟩
    withinCapacity := ⟨h.withinCapacity.running, h.withinCapacity.nonInteractive, h.withinCapacity.speculative⟩ }
  · refine List.Perm.trans ?_ h.calls
    rw [BuildSlotQueue.settle, List.map_append, List.append_nil, List.append_assoc]
    exact List.perm_append_comm.append_left _
  · rw [BuildSlotQueue.settle, List.filterMap_append, h.leases]
    exact List.append_nil _
  · rcases List.mem_append.mp hc with hc | hc
    · exact h.reasons c r hc
    · obtain ⟨rfl, hr⟩ := Prod.mk.inj (List.mem_singleton.mp hc)
      obtain rfl := Settlement.rejected.inj hr
      exact hreason

theorem Sound.grant (h : Sound q ws [call]) (hcan : q.canAdmit priority = true) :
    Sound (q.grant call priority) ws [] := by
  refine { h with
    calls := ?_
    leases := ?_
    reasons := fun c r hc ↦ ?_
    counted := counted_grant h.counted call priority
    withinCapacity := withinCapacity_grant h.withinCapacity hcan call }
  · refine List.Perm.trans ?_ h.calls
    change (ws.map Waiter.call ++ [] ++ (q.settlements ++ [(call, _)]).map Prod.fst).Perm _
    rw [List.map_append, List.append_nil, List.append_assoc]
    exact List.perm_append_comm.append_left _
  · change (q.settlements ++ [(call, Settlement.lease q.leases.length)]).filterMap _ = List.range (q.leases ++ [_]).length
    rw [List.filterMap_append, h.leases, List.length_append, List.length_singleton, List.range_succ]
    rfl
  · rcases List.mem_append.mp hc with hc | hc
    · exact h.reasons c r hc
    · exact nomatch (Prod.mk.inj (List.mem_singleton.mp hc)).2

/-- What waits is given, so the queue's own list does not matter. -/
theorem Sound.setWaiters (h : Sound q ws owed) (waiters : List Waiter) : Sound { q with waiters } ws owed :=
  { h with
    counted := ⟨h.counted.running, h.counted.nonInteractive, h.counted.speculative⟩
    withinCapacity := ⟨h.withinCapacity.running, h.withinCapacity.nonInteractive, h.withinCapacity.speculative⟩ }

theorem Sound.enqueue {signal : Option ℕ} (h : Sound q ws [call]) (hsince : ∀ w ∈ ws, w.since < q.events)
    (hsignal : q.calls[call]? = some signal) (hopen : q.closeReason = none) :
    Sound (q.enqueue ⟨call, priority, signal, q.events⟩) (insert ⟨call, priority, signal, q.events⟩ ws) [] := by
  have hperm : (insert ⟨call, priority, signal, q.events⟩ ws).Perm (⟨call, priority, signal, q.events⟩ :: ws) :=
    List.perm_orderedInsert _ _ _
  refine { h with
    calls := ?_
    counted := ⟨h.counted.running, h.counted.nonInteractive, h.counted.speculative⟩
    withinCapacity := ⟨h.withinCapacity.running, h.withinCapacity.nonInteractive, h.withinCapacity.speculative⟩
    ordered := ordered_insert hsince h.ordered
    since := fun w hw ↦ ?_
    signals := fun w hw ↦ ?_
    listeners := fun l ↦ ?_
    closed := fun hc ↦ absurd hopen hc }
  · refine List.Perm.trans (List.Perm.append_right _ ?_) h.calls
    rw [List.append_nil]
    exact (hperm.map Waiter.call).trans (@List.perm_append_comm _ [call] _)
  · rcases mem_insert.mp hw with rfl | hw
    · exact le_rfl
    · exact h.since w hw
  · rcases mem_insert.mp hw with rfl | hw
    · exact hsignal
    · exact h.signals w hw
  · change l ∈ q.listeners ++ (signal.map fun s ↦ (s, call)).toList ↔ _
    rw [List.mem_append, h.listeners, Option.mem_toList, Option.map_eq_some_iff]
    constructor
    · rintro (⟨x, hx, hcall, hsame⟩ | ⟨s, rfl, rfl⟩)
      · exact ⟨x, mem_insert.mpr (.inr hx), hcall, hsame⟩
      · exact ⟨_, mem_insert.mpr (.inl rfl), rfl, rfl⟩
    · rintro ⟨x, hx, hcall, hsame⟩
      rcases mem_insert.mp hx with rfl | hx
      · exact .inr ⟨l.1, hsame, Prod.ext rfl hcall⟩
      · exact .inl ⟨x, hx, hcall, hsame⟩

/-- A waiter takes a stronger priority. -/
theorem Sound.promote (h : Sound q ws []) (hperm : ws.Perm (w :: ws')) (hsub : ws'.Sublist ws)
    (hsince : ∀ w ∈ ws', w.since < q.events) (next : BuildPriority) :
    Sound q (insert { w with priority := next, since := q.events } ws') [] := by
  have hmem : w ∈ ws := hperm.mem_iff.mpr List.mem_cons_self
  have hinsert : (insert { w with priority := next, since := q.events } ws').Perm
      ({ w with priority := next, since := q.events } :: ws') := List.perm_orderedInsert _ _ _
  refine { h with
    calls := ?_
    ordered := ordered_insert hsince (h.ordered.sublist hsub)
    since := fun x hx ↦ ?_
    signals := fun x hx ↦ ?_
    listeners := fun l ↦ ?_
    closed := fun hc ↦ absurd (h.closed hc ▸ hmem) List.not_mem_nil }
  · refine List.Perm.trans (List.Perm.append_right _ (List.Perm.append_right _ ?_)) h.calls
    exact (hinsert.map Waiter.call).trans (hperm.map Waiter.call).symm
  · rcases mem_insert.mp hx with rfl | hx
    · exact le_rfl
    · exact (hsince x hx).le
  · rcases mem_insert.mp hx with rfl | hx
    · exact h.signals w hmem
    · exact h.signals x (hsub.subset hx)
  · rw [h.listeners]
    constructor
    · rintro ⟨x, hx, hcall, hsame⟩
      rcases List.mem_cons.mp (hperm.mem_iff.mp hx) with rfl | hx
      · exact ⟨_, mem_insert.mpr (.inl rfl), hcall, hsame⟩
      · exact ⟨x, mem_insert.mpr (.inr hx), hcall, hsame⟩
    · rintro ⟨x, hx, hcall, hsame⟩
      rcases mem_insert.mp hx with rfl | hx
      · exact ⟨w, hmem, hcall, hsame⟩
      · exact ⟨x, hsub.subset hx, hcall, hsame⟩

/-- The calls of waiters differ, so one leaves by its number. -/
theorem perm_filter_call (hnodup : (ws.map Waiter.call).Nodup) (hw : w ∈ ws) :
    ws.Perm (w :: ws.filter fun entry ↦ decide (entry.call ≠ w.call)) := by
  obtain ⟨before, after, rfl⟩ := List.append_of_mem hw
  rw [List.map_append, List.map_cons, List.nodup_middle] at hnodup
  have hother : ∀ entry ∈ before ++ after, decide (entry.call ≠ w.call) = true := fun entry hentry ↦
    decide_eq_true fun hsame ↦ (List.nodup_cons.mp hnodup).1 (by
      rw [← List.map_append, ← hsame]
      exact List.mem_map_of_mem hentry)
  rw [List.filter_append, List.filter_cons_of_neg (by simp), ← List.filter_append, List.filter_eq_self.mpr hother]
  exact List.perm_middle

/-! ## Admission -/

/-- What an admission does not touch. -/
structure Frame (q q' : BuildSlotQueue R) : Prop where
  capacity : q'.capacity = q.capacity
  closeReason : q'.closeReason = q.closeReason
  aborted : q'.aborted = q.aborted

theorem Frame.trans {q' q'' : BuildSlotQueue R} (h : Frame q q') (h' : Frame q' q'') : Frame q q'' :=
  ⟨h'.capacity.trans h.capacity, h'.closeReason.trans h.closeReason, h'.aborted.trans h.aborted⟩

theorem frame_admitRest (rest : List Waiter) : ∀ q : BuildSlotQueue R, Frame q (admitRest q rest) := by
  induction rest with
  | nil => exact fun q ↦ ⟨rfl, rfl, rfl⟩
  | cons waiter rest ih =>
    intro q
    rw [admitRest]
    split_ifs
    · have hrest := ih ((q.removeEventListener waiter.call).grant waiter.call waiter.priority)
      exact ⟨hrest.capacity, hrest.closeReason, hrest.aborted⟩
    · have hrest := ih { q with waiters := q.waiters ++ [waiter] }
      exact ⟨hrest.capacity, hrest.closeReason, hrest.aborted⟩

/-- A queue between two events, or at the end of an admission. -/
structure Idle (q : BuildSlotQueue R) : Prop where
  sound : Sound q q.waiters []
  noneAdmissible : q.NoneAdmissible q.waiters

/-- The loop leaves nobody behind who could be let in: what it grants later lets in fewer. -/
theorem idle_admitRest (rest : List Waiter) : ∀ {q : BuildSlotQueue R}, Sound q (q.waiters ++ rest) [] →
    q.NoneAdmissible q.waiters → Idle (admitRest q rest) := by
  induction rest with
  | nil =>
    intro q h hnone
    rw [List.append_nil] at h
    exact ⟨h, hnone⟩
  | cons waiter rest ih =>
    intro q h hnone
    rw [admitRest]
    split_ifs with hcan
    · have htaken := h.takeOut List.perm_middle ((List.sublist_cons_self waiter rest).append_left q.waiters)
      refine ih (htaken.grant hcan) fun w hw ↦ Bool.eq_false_iff.mpr fun hadmissible ↦ ?_
      exact absurd (canAdmit_grant (q := q.removeEventListener waiter.call) hadmissible)
        (Bool.eq_false_iff.mp (hnone w hw))
    · refine ih ?_ fun w hw ↦ ?_
      · have hall : q.waiters ++ [waiter] ++ rest = q.waiters ++ waiter :: rest := List.append_assoc _ _ _
        rw [← hall] at h
        exact h.setWaiters (q.waiters ++ [waiter])
      · rcases List.mem_append.mp hw with hw | hw
        · exact hnone w hw
        · rw [List.mem_singleton.mp hw]
          exact Bool.eq_false_iff.mpr hcan

theorem idle_admitWaiters (h : Sound q q.waiters []) : Idle q.admitWaiters :=
  idle_admitRest q.waiters (h.setWaiters []) fun _ hw ↦ absurd hw List.not_mem_nil

/-! ## Events -/

theorem Idle.tick (h : Idle q) : Idle q.tick where
  sound := { h.sound with
    counted := ⟨h.sound.counted.running, h.sound.counted.nonInteractive, h.sound.counted.speculative⟩
    withinCapacity := ⟨h.sound.withinCapacity.running, h.sound.withinCapacity.nonInteractive,
      h.sound.withinCapacity.speculative⟩
    since := fun w hw ↦ (h.sound.since w hw).trans (Nat.le_succ _) }
  noneAdmissible := h.noneAdmissible

/-- An acquire looks at nobody else, and takes nothing that would let another in. -/
theorem Idle.acquire (h : Idle q) (hsince : ∀ w ∈ q.waiters, w.since < q.events) (priority : BuildPriority)
    (signal : Option ℕ) : Idle (q.acquire priority signal) := by
  have hcalled := h.sound.called signal
  have hsignal : (q.calls ++ [signal])[q.calls.length]? = some signal := List.getElem?_concat_length
  unfold BuildSlotQueue.acquire
  dsimp only
  split
  · next reason _ hclosed => exact ⟨hcalled.settle (.inl hclosed), h.noneAdmissible⟩
  · next reason _ haborted =>
    obtain ⟨s, rfl, hs⟩ := Option.bind_eq_some_iff.mp haborted
    exact ⟨hcalled.settle (.inr ⟨s, hsignal, hs⟩), h.noneAdmissible⟩
  · next hopen _ =>
    split_ifs with hcan
    · refine ⟨hcalled.grant hcan, fun w hw ↦ Bool.eq_false_iff.mpr fun hadmissible ↦ ?_⟩
      exact absurd (canAdmit_grant (q := { q with calls := q.calls ++ [signal] }) hadmissible)
        (Bool.eq_false_iff.mp (h.noneAdmissible w hw))
    · refine ⟨hcalled.enqueue hsince hsignal hopen, fun w hw ↦ ?_⟩
      rcases mem_insert.mp hw with rfl | hw
      · exact Bool.eq_false_iff.mpr hcan
      · exact h.noneAdmissible w hw

theorem Idle.release (h : Idle q) (id : ℕ) : Idle (q.release id) := by
  unfold BuildSlotQueue.release
  split
  · next priority hid =>
    refine idle_admitWaiters { h.sound with
      leases := ?_
      counted := counted_releases h.sound.counted hid
      withinCapacity := ?_ }
    · refine h.sound.leases.trans (congrArg List.range ?_)
      exact List.length_set.symm
    · obtain ⟨hrunning, hnonInteractive, hspeculative⟩ := h.sound.withinCapacity
      constructor <;> cases priority <;>
        simp only [releases, count, reduceCtorEq, if_false, if_true] at hrunning hnonInteractive hspeculative ⊢ <;> omega
  · exact h

theorem Idle.promote (h : Idle q) (hsince : ∀ w ∈ q.waiters, w.since < q.events) (call : ℕ) (next : BuildPriority) :
    Idle (q.promote call next) := by
  unfold BuildSlotQueue.promote
  split
  · exact h
  · next waiter hfind =>
    have hcall := List.find?_some hfind
    obtain rfl := of_decide_eq_true hcall
    have hmem := List.mem_of_find?_eq_some hfind
    split_ifs
    · exact h
    · apply idle_admitWaiters
      refine (h.sound.promote (perm_filter_call h.sound.nodup hmem) List.filter_sublist (fun w hw ↦ ?_) next).setWaiters _
      exact hsince w (List.mem_of_mem_filter hw)

/-- A listener that is called settles its own acquire, by the reason of its signal. -/
theorem Idle.onAbort (h : Idle q) {reason : R} {l : ℕ × ℕ} (haborted : q.aborted.get l.1 = some reason) :
    Idle (q.onAbort reason l) ∧ Frame q (q.onAbort reason l) := by
  unfold BuildSlotQueue.onAbort
  split_ifs with hl
  · obtain ⟨w, hw, hcall, hsignal⟩ := (h.sound.listeners l).mp hl
    have htaken := h.sound.takeOut (perm_filter_call h.sound.nodup hw) List.filter_sublist
    rw [hcall] at htaken
    have hown : q.calls[l.2]? = some (some l.1) := by
      rw [← hcall, h.sound.signals w hw, hsignal]
    have hsettled := (htaken.setWaiters (q.waiters.filter fun entry ↦ decide (entry.call ≠ l.2))).settle
      (.inr ⟨l.1, hown, haborted⟩)
    refine ⟨idle_admitWaiters hsettled, ?_⟩
    have hframe := frame_admitRest (q.waiters.filter fun entry ↦ decide (entry.call ≠ l.2))
      (({ q.removeEventListener l.2 with waiters := [] } : BuildSlotQueue R).settle l.2 (.rejected reason))
    exact ⟨hframe.capacity, hframe.closeReason, hframe.aborted⟩
  · exact ⟨h, rfl, rfl, rfl⟩

theorem idle_foldl_onAbort (signal : ℕ) (reason : R) (ls : List (ℕ × ℕ)) : (∀ l ∈ ls, l.1 = signal) →
    ∀ {q : BuildSlotQueue R}, Idle q → q.aborted.get signal = some reason →
      Idle (ls.foldl (BuildSlotQueue.onAbort reason) q) ∧ Frame q (ls.foldl (BuildSlotQueue.onAbort reason) q) := by
  induction ls with
  | nil => exact fun _ _ h _ ↦ ⟨h, rfl, rfl, rfl⟩
  | cons l rest ih =>
    intro hls q h haborted
    have hl : l.1 = signal := hls l List.mem_cons_self
    obtain ⟨hidle, hframe⟩ := h.onAbort (hl ▸ haborted)
    obtain ⟨hrest, hframe'⟩ := ih (fun l' hl' ↦ hls l' (List.mem_cons_of_mem _ hl')) hidle (hframe.aborted ▸ haborted)
    exact ⟨hrest, hframe.trans hframe'⟩

theorem Idle.abort (h : Idle q) (signal : ℕ) (reason : R) :
    Idle (q.abort signal reason) ∧ (q.abort signal reason).capacity = q.capacity := by
  unfold BuildSlotQueue.abort
  split
  · exact ⟨h, rfl⟩
  · next hget =>
    have hmarked : Idle { q with aborted := q.aborted.set signal reason } := by
      refine ⟨{ h.sound with
        reasons := fun call r hc ↦ ?_
        counted := ⟨h.sound.counted.running, h.sound.counted.nonInteractive, h.sound.counted.speculative⟩
        withinCapacity := ⟨h.sound.withinCapacity.running, h.sound.withinCapacity.nonInteractive,
          h.sound.withinCapacity.speculative⟩ }, h.noneAdmissible⟩
      rcases h.sound.reasons call r hc with hclosed | ⟨s, hs, haborted⟩
      · exact .inl hclosed
      · refine .inr ⟨s, hs, ?_⟩
        rw [JsMap.get_set_of_ne]
        · exact haborted
        · rintro rfl
          exact nomatch hget.symm.trans haborted
    have hfold := idle_foldl_onAbort signal reason (q.listeners.filter fun l ↦ decide (l.1 = signal))
      (fun l hl ↦ of_decide_eq_true (List.mem_filter.mp hl).2) hmarked
      ((JsMap.get_set _ _ _ _).trans (if_pos rfl))
    exact ⟨hfold.1, hfold.2.capacity⟩

theorem Idle.close (h : Idle q) (reason : R) : Idle (q.close reason) := by
  unfold BuildSlotQueue.close
  split
  · exact h
  · next hopen =>
    refine ⟨{ h.sound with
      calls := ?_
      leases := ?_
      reasons := fun call r hc ↦ ?_
      counted := ⟨h.sound.counted.running, h.sound.counted.nonInteractive, h.sound.counted.speculative⟩
      withinCapacity := ⟨h.sound.withinCapacity.running, h.sound.withinCapacity.nonInteractive,
        h.sound.withinCapacity.speculative⟩
      ordered := .nil
      since := fun w hw ↦ absurd hw List.not_mem_nil
      signals := fun w hw ↦ absurd hw List.not_mem_nil
      listeners := fun l ↦ ?_
      closed := fun _ ↦ rfl }, fun w hw ↦ absurd hw List.not_mem_nil⟩
    · refine List.Perm.trans ?_ h.sound.calls
      have hcalls : (q.waiters.map fun w ↦ (w.call, Settlement.rejected reason)).map Prod.fst =
          q.waiters.map Waiter.call := by
        rw [List.map_map]
        rfl
      rw [List.map_append, hcalls, List.append_nil, List.append_nil, List.map_nil, List.nil_append]
      exact List.perm_append_comm
    · have hnone : (q.waiters.map fun w ↦ (w.call, Settlement.rejected reason)).filterMap
          (fun p ↦ p.2.lease?) = [] := by
        rw [List.filterMap_eq_nil_iff]
        intro p hp
        obtain ⟨w, -, rfl⟩ := List.mem_map.mp hp
        rfl
      rw [List.filterMap_append, hnone, List.append_nil]
      exact h.sound.leases
    · rcases List.mem_append.mp hc with hc | hc
      · rcases h.sound.reasons call r hc with hclosed | haborted
        · exact nomatch hopen.symm.trans hclosed
        · exact .inr haborted
      · obtain ⟨w, -, hw⟩ := List.mem_map.mp hc
        exact .inl (congrArg some (Settlement.rejected.inj (Prod.mk.inj hw).2))
    · refine iff_of_false (fun hl ↦ ?_) fun ⟨_, hw, _⟩ ↦ List.not_mem_nil hw
      obtain ⟨hl, hout⟩ := List.mem_filter.mp hl
      obtain ⟨w, hw, hcall, -⟩ := (h.sound.listeners l).mp hl
      exact of_decide_eq_true hout (hcall ▸ List.mem_map_of_mem hw)

theorem Idle.step (h : Idle q) (e : Event R) : Idle (q.step e) := by
  have hsince : ∀ w ∈ q.tick.waiters, w.since < q.tick.events := fun w hw ↦ Nat.lt_succ_of_le (h.sound.since w hw)
  match e with
  | .acquire priority signal => exact h.tick.acquire hsince priority signal
  | .release lease => exact h.tick.release lease
  | .promote call next => exact h.tick.promote hsince call next
  | .abort signal reason => exact (h.tick.abort signal reason).1
  | .close reason => exact h.tick.close reason

theorem Idle.coherent (h : Idle q) : q.Coherent :=
  ⟨h.sound.counted, h.sound.withinCapacity, h.sound.ordered, h.noneAdmissible, h.sound.toSettles⟩

/-- One of two slots is kept for required work: a speculative compiler waits beside one in the background, and its
promotion takes the slot that the release has freed. -/
example : (run 2 [.acquire .background none, .acquire .speculative none, .acquire .interactive none, .release 1,
    .promote 1 .interactive] : BuildSlotQueue ℕ).settlements = [(0, .lease 0), (2, .lease 1), (1, .lease 2)] := by
  decide +kernel

end BuildSlotQueue

end Vibestudio.Server.BuildSlots

import Mathlib
import Vibestudio.Server.AdmissionServing

/-!
# Who waits, and for how long

A waiter is in the array of its runtime until it is taken out, and then it is answered: `Waits` says that it is always in
exactly one of these places, so that nobody is answered twice. After an operation a runtime that somebody waits for is
admitted for a run (`Stranding`): whatever frees a runtime serves its array, and the serving ends with an admission or
with an empty array.

The order of the calls is kept as long as no call of `admit` takes away the fact of its runtime while others wait for it
(`admission_waiters`). When it does, it serves the next waiter first, and then enters its own fact over that admission.
-/

namespace Vibestudio.Server

open Js

namespace AgentExecutionSessionRegistry

variable {host : AdmissionHost} {s s' t : AgentExecutionSessionRegistry}

/-! ## The places of a waiter -/

structure Waits (s : AgentExecutionSessionRegistry) : Prop where
  keys : (JsMap.keys s.admissionWaiters).Nodup
  own : ∀ a, ∀ waiter ∈ s.array a, s.admissionWaiters.get waiter.runtimeId = some a
  apart : ∀ runtimeId runtimeId' a, s.admissionWaiters.get runtimeId = some a →
    s.admissionWaiters.get runtimeId' = some a → runtimeId = runtimeId'
  bound : ∀ runtimeId a, s.admissionWaiters.get runtimeId = some a → a < s.arrays.length
  sorted : ∀ a, (s.array a).Pairwise fun v w ↦ v.ticket < w.ticket
  known : ∀ a, ∀ waiter ∈ s.array a, waiter ∈ s.waiters
  unsettled : ∀ a, ∀ waiter ∈ s.array a, waiter ∉ s.settled.map Prod.fst
  servingKnown : ∀ waiter ∈ s.serving, waiter ∈ s.waiters
  servingUnsettled : ∀ waiter ∈ s.serving, waiter ∉ s.settled.map Prod.fst
  servingOut : ∀ waiter ∈ s.serving, ∀ a, waiter ∉ s.array a
  servingNodup : s.serving.Nodup
  settledKnown : ∀ waiter ∈ s.settled.map Prod.fst, waiter ∈ s.waiters
  once : (s.settled.map Prod.fst).Nodup
  ordered : s.waiters.Pairwise fun v w ↦ v.ticket < w.ticket
  issued : ∀ waiter ∈ s.waiters, waiter.ticket < s.tickets
  listening : ∀ ticket ∈ s.listening, ∃ a, ∃ waiter ∈ s.array a, waiter.ticket = ticket
  everyone : ∀ waiter ∈ s.waiters, waiter ∈ s.settled.map Prod.fst ∨ (∃ a, waiter ∈ s.array a) ∨
    waiter ∈ s.serving

/-- A ticket has one waiter. -/
theorem Waits.eq_of_ticket (h : Waits s) {v w : AdmissionWaiter} (hv : v ∈ s.waiters) (hw : w ∈ s.waiters)
    (htickets : v.ticket = w.ticket) : v = w := by
  have hnodup : (s.waiters.map AdmissionWaiter.ticket).Nodup :=
    (List.pairwise_map.mpr h.ordered).imp fun hlt ↦ hlt.ne
  exact List.inj_on_of_nodup_map hnodup hv hw htickets

theorem waits_dropQueue {runtimeId : JsString} {a : ℕ} (hempty : s.array a = [])
    (hcaptured : s.Captured runtimeId a) (h : Waits s) : Waits (s.dropQueue runtimeId) :=
  { h with
    keys := JsMap.nodup_keys_delete h.keys runtimeId
    own := by
      intro b waiter hmem
      have hget := h.own b waiter hmem
      change JsMap.get waiter.runtimeId (s.admissionWaiters.delete runtimeId) = some b
      rw [JsMap.get_delete, if_neg, hget]
      rintro rfl
      -- the array of the runtime is the empty one
      rw [hcaptured b hget] at hmem
      exact List.not_mem_nil (hempty ▸ hmem)
    apart := fun runtimeId' runtimeId'' b h' h'' ↦
      h.apart runtimeId' runtimeId'' b ((served_dropQueue runtimeId).queues _ _ h')
        ((served_dropQueue runtimeId).queues _ _ h'')
    bound := fun runtimeId' b h' ↦ h.bound runtimeId' b ((served_dropQueue runtimeId).queues _ _ h') }

section

variable {a : ℕ} {waiter : AdmissionWaiter} {rest : List AdmissionWaiter}

/-- A waiter is in one array only. -/
theorem Waits.eq_of_mem_array (h : Waits s) {b : ℕ} (ha : waiter ∈ s.array a) (hb : waiter ∈ s.array b) :
    a = b := Option.some.inj ((h.own a waiter ha).symm.trans (h.own b waiter hb))

theorem Waits.nodup_array (h : Waits s) (a : ℕ) : (s.array a).Nodup :=
  (h.sorted a).imp fun hlt heq ↦ hlt.ne (congrArg AdmissionWaiter.ticket heq)

theorem array_takeOut (hmem : waiter ∈ s.array a) (b : ℕ) :
    (s.shift a waiter ((s.array a).erase waiter)).array b =
      if b = a then (s.array a).erase waiter else s.array b :=
  array_setArray a b _ (lt_length_of_array hmem)

/-- Who is in an array once a waiter has been taken out of it. -/
theorem Waits.mem_array_takeOut (h : Waits s) (hmem : waiter ∈ s.array a) {b : ℕ} {other : AdmissionWaiter} :
    other ∈ (s.shift a waiter ((s.array a).erase waiter)).array b ↔ other ∈ s.array b ∧ other ≠ waiter := by
  rw [array_takeOut hmem]
  by_cases hb : b = a
  · subst hb
    rw [if_pos rfl, (h.nodup_array b).mem_erase_iff, and_comm]
  · rw [if_neg hb]
    refine ⟨fun hother ↦ ⟨hother, ?_⟩, And.left⟩
    rintro rfl
    exact hb (h.eq_of_mem_array hmem hother).symm

theorem waits_takeOut (hmem : waiter ∈ s.array a) (h : Waits s) :
    Waits (s.shift a waiter ((s.array a).erase waiter)) where
  keys := h.keys
  own b other hb := h.own b other ((h.mem_array_takeOut hmem).mp hb).1
  apart := h.apart
  bound runtimeId b hget := (h.bound runtimeId b hget).trans_eq (List.length_set).symm
  sorted b := by
    rw [array_takeOut hmem]
    split_ifs
    · exact (h.sorted a).sublist List.erase_sublist
    · exact h.sorted b
  known b other hb := h.known b other ((h.mem_array_takeOut hmem).mp hb).1
  unsettled b other hb := h.unsettled b other ((h.mem_array_takeOut hmem).mp hb).1
  servingKnown := by
    rintro other (_ | ⟨_, hother⟩)
    · exact h.known a waiter hmem
    · exact h.servingKnown other hother
  servingUnsettled := by
    rintro other (_ | ⟨_, hother⟩)
    · exact h.unsettled a waiter hmem
    · exact h.servingUnsettled other hother
  servingOut := by
    rintro other (_ | ⟨_, hother⟩)
    · exact fun b hb ↦ ((h.mem_array_takeOut hmem).mp hb).2 rfl
    · exact fun b hb ↦ h.servingOut other hother b ((h.mem_array_takeOut hmem).mp hb).1
  servingNodup := List.nodup_cons.mpr ⟨fun hserving ↦ h.servingOut waiter hserving a hmem, h.servingNodup⟩
  settledKnown := h.settledKnown
  once := h.once
  ordered := h.ordered
  issued := h.issued
  listening := by
    intro ticket hticket
    obtain ⟨hticket, hne⟩ := List.mem_filter.mp hticket
    obtain ⟨b, other, hb, rfl⟩ := h.listening ticket hticket
    refine ⟨b, other, (h.mem_array_takeOut hmem).mpr ⟨hb, ?_⟩, rfl⟩
    rintro rfl
    exact of_decide_eq_true hne rfl
  everyone := by
    intro other hother
    rcases h.everyone other hother with hsettled | ⟨b, hb⟩ | hserving
    · exact .inl hsettled
    · by_cases hwaiter : other = waiter
      · exact .inr (.inr (hwaiter ▸ List.mem_cons_self))
      · exact .inr (.inl ⟨b, (h.mem_array_takeOut hmem).mpr ⟨hb, hwaiter⟩⟩)
    · exact .inr (.inr (List.mem_cons_of_mem _ hserving))

theorem waits_shift (harray : s.array a = waiter :: rest) (h : Waits s) : Waits (s.shift a waiter rest) := by
  have hmem : waiter ∈ s.array a := harray ▸ List.mem_cons_self
  have htakeOut := waits_takeOut hmem h
  rw [harray, List.erase_cons_head] at htakeOut
  exact htakeOut

theorem map_settled_settle (settlement : WaitSettlement) :
    (s.settle waiter settlement).settled.map Prod.fst = s.settled.map Prod.fst ++ [waiter] := by
  change (s.settled ++ [(waiter, settlement)]).map Prod.fst = _
  rw [List.map_append, List.map_singleton]

/-- A waiter who is in no array and not answered yet is answered. -/
theorem waits_settle (settlement : WaitSettlement) (hknown : waiter ∈ s.waiters)
    (hunsettled : waiter ∉ s.settled.map Prod.fst) (hout : ∀ a, waiter ∉ s.array a) (h : Waits s) :
    Waits (s.settle waiter settlement) := by
  have hsub : ∀ other ∈ (s.settle waiter settlement).serving, other ∈ s.serving ∧ other ≠ waiter := by
    intro other hother
    have hother' : other ∈ s.serving.erase waiter := hother
    rw [h.servingNodup.mem_erase_iff] at hother'
    exact hother'.symm
  have hsettled : ∀ other, other ∈ (s.settle waiter settlement).settled.map Prod.fst ↔
      other ∈ s.settled.map Prod.fst ∨ other = waiter := by
    intro other
    rw [map_settled_settle, List.mem_append, List.mem_singleton]
  exact
    { h with
      unsettled := by
        intro a other hother hmem
        rcases (hsettled other).mp hmem with hmem | rfl
        · exact h.unsettled a other hother hmem
        · exact hout a hother
      servingKnown := fun other hother ↦ h.servingKnown other (hsub other hother).1
      servingUnsettled := by
        intro other hother hmem
        rcases (hsettled other).mp hmem with hmem | rfl
        · exact h.servingUnsettled other (hsub other hother).1 hmem
        · exact (hsub other hother).2 rfl
      servingOut := fun other hother ↦ h.servingOut other (hsub other hother).1
      servingNodup := h.servingNodup.erase waiter
      settledKnown := by
        intro other hmem
        rcases (hsettled other).mp hmem with hmem | rfl
        · exact h.settledKnown other hmem
        · exact hknown
      once := by
        rw [map_settled_settle]
        refine List.nodup_append.mpr ⟨h.once, List.nodup_singleton _, ?_⟩
        intro other hmem other' hmem' heq
        rw [List.mem_singleton.mp hmem'] at heq
        exact hunsettled (heq ▸ hmem)
      everyone := by
        intro other hother
        rw [hsettled]
        rcases h.everyone other hother with hmem | harray | hserving
        · exact .inl (.inl hmem)
        · exact .inr (.inl harray)
        · by_cases hwaiter : other = waiter
          · exact .inl (.inr hwaiter)
          · exact .inr (.inr (h.servingNodup.mem_erase_iff.mpr ⟨hwaiter, hserving⟩)) }

theorem settle_eq_of_erase (t : AgentExecutionSessionRegistry) (serving : List AdmissionWaiter)
    (h : t.serving.erase waiter = serving.erase waiter) (settlement : WaitSettlement) :
    t.settle waiter settlement = ({ t with serving } : AgentExecutionSessionRegistry).settle waiter settlement := by
  rw [settle, settle]
  change { t with settled := _, serving := _ } = { t with settled := _, serving := serving.erase waiter }
  rw [h]

/-- `onAbort` takes the waiter out of its array and answers it. -/
theorem onAbort_eq (h : Waits s) (hmem : waiter ∈ s.array a) :
    s.onAbort waiter =
      (if (s.shift a waiter ((s.array a).erase waiter)).array a = [] then
        (s.shift a waiter ((s.array a).erase waiter)).dropQueue waiter.runtimeId
      else s.shift a waiter ((s.array a).erase waiter)).settle waiter
        (.refused (.cancelled waiter.runtimeId)) := by
  have hserving : s.serving.erase waiter = (waiter :: s.serving).erase waiter := by
    rw [List.erase_cons_head]
    exact List.erase_of_not_mem fun hserving ↦ h.servingOut waiter hserving a hmem
  have hget : (s.detachAdmissionWaiter waiter).admissionWaiters.get waiter.runtimeId = some a :=
    h.own a waiter hmem
  rw [onAbort]
  simp only [hget]
  change (if (s.shift a waiter ((s.array a).erase waiter)).array a = [] then _ else _ :
    AgentExecutionSessionRegistry).settle waiter _ = _
  split_ifs
  · refine (settle_eq_of_erase _ (waiter :: s.serving) ?_ _).trans rfl
    exact hserving
  · refine (settle_eq_of_erase _ (waiter :: s.serving) ?_ _).trans rfl
    exact hserving

theorem waits_onAbort (hwaiter : waiter ∈ s.waiters) (hlistening : waiter.ticket ∈ s.listening) (h : Waits s) :
    Waits (s.onAbort waiter) := by
  obtain ⟨a, other, hmem, htickets⟩ := h.listening waiter.ticket hlistening
  obtain rfl := h.eq_of_ticket (h.known a other hmem) hwaiter htickets
  have htaken := waits_takeOut hmem h
  have hserving : other ∈ (s.shift a other ((s.array a).erase other)).serving := List.mem_cons_self
  rw [onAbort_eq h hmem]
  split_ifs with hempty
  · have hdropped := waits_dropQueue hempty (captured_of_get (h.own a other hmem)) htaken
    exact waits_settle _ hwaiter (htaken.servingUnsettled other hserving) (htaken.servingOut other hserving)
      hdropped
  · exact waits_settle _ hwaiter (htaken.servingUnsettled other hserving) (htaken.servingOut other hserving)
      htaken

end

/-! ### A new waiter -/

/-- The array that a caller of a runtime is put into, or a new one. -/
structure Joins (t t' : AgentExecutionSessionRegistry) (a : ℕ) (waiter : AdmissionWaiter) : Prop where
  array : ∀ b, t'.array b = if b = a then t.array a ++ [waiter] else t.array b
  admissionWaiters : t'.admissionWaiters = t.admissionWaiters.set waiter.runtimeId a
  lt : a < t'.arrays.length
  le : t.arrays.length ≤ t'.arrays.length
  captured : t.Captured waiter.runtimeId a
  only : ∀ runtimeId, t.admissionWaiters.get runtimeId = some a → runtimeId = waiter.runtimeId
  mine : ∀ other ∈ t.array a, other.runtimeId = waiter.runtimeId

theorem joins_enqueue (h : Waits s) (hserved : Served s.nextTicket t) (ht : Waits t)
    (waiter : AdmissionWaiter) :
    ∃ a, Joins t (t.enqueue (s.admissionWaiters.get waiter.runtimeId) waiter) a waiter := by
  match hqueued : s.admissionWaiters.get waiter.runtimeId with
  | some a =>
    have hlt : a < t.arrays.length := (h.bound _ a hqueued).trans_eq hserved.length.symm
    have honly : ∀ runtimeId, t.admissionWaiters.get runtimeId = some a → runtimeId = waiter.runtimeId :=
      fun runtimeId hget ↦ h.apart _ _ a (hserved.queues runtimeId a hget) hqueued
    exact ⟨a,
      { array := fun b ↦ array_setArray a b _ hlt
        admissionWaiters := rfl
        lt := hlt.trans_eq (List.length_set).symm
        le := (List.length_set).ge
        captured := fun b hget ↦ Option.some.inj ((hserved.queues _ b hget).symm.trans hqueued)
        only := honly
        mine := fun other hother ↦ honly other.runtimeId (ht.own a other hother) }⟩
  | none =>
    have hnone : t.admissionWaiters.get waiter.runtimeId = none := by
      match hget : t.admissionWaiters.get waiter.runtimeId with
      | none => rfl
      | some b => exact nomatch (hserved.queues _ b hget).symm.trans hqueued
    have hempty : t.array t.arrays.length = [] := List.getD_eq_default _ _ le_rfl
    have hlength : (t.arrays ++ [[waiter]]).length = t.arrays.length + 1 := by
      rw [List.length_append, List.length_singleton]
    refine ⟨t.arrays.length,
      { array := fun b ↦ ?_
        admissionWaiters := rfl
        lt := (Nat.lt_succ_self _).trans_eq hlength.symm
        le := (Nat.le_succ _).trans_eq hlength.symm
        captured := fun b hget ↦ nomatch hnone.symm.trans hget
        only := fun runtimeId hget ↦ absurd (ht.bound runtimeId _ hget) (lt_irrefl _)
        mine := fun other hother ↦ absurd (hempty ▸ hother) List.not_mem_nil }⟩
    change (t.arrays ++ [[waiter]]).getD b [] = _
    rw [hempty, List.nil_append, List.getD_eq_getElem?_getD]
    split_ifs with hb
    · subst hb
      rw [List.getElem?_append_right le_rfl, Nat.sub_self]
      rfl
    · rw [array, List.getD_eq_getElem?_getD]
      rcases Nat.lt_or_gt_of_ne hb with hlt | hgt
      · rw [List.getElem?_append_left hlt]
      · rw [List.getElem?_eq_none (by rw [hlength]; omega), List.getElem?_eq_none (by omega)]

theorem Joins.mem_array {a b : ℕ} {waiter other : AdmissionWaiter} (h : Joins t t' a waiter) :
    other ∈ t'.array b ↔ other ∈ t.array b ∨ b = a ∧ other = waiter := by
  rw [h.array]
  by_cases hb : b = a
  · subst hb
    rw [if_pos rfl, List.mem_append, List.mem_singleton]
    tauto
  · rw [if_neg hb]
    tauto

theorem waits_enqueue {waiter : AdmissionWaiter} (h : Waits s) (hserved : Served s.nextTicket t)
    (ht : Waits t) (hticket : waiter.ticket = s.tickets) :
    Waits (t.enqueue (s.admissionWaiters.get waiter.runtimeId) waiter) := by
  obtain ⟨a, hjoins⟩ := joins_enqueue h hserved ht waiter
  -- everybody else has called before
  have hbefore : ∀ other ∈ t.waiters, other.ticket < waiter.ticket := by
    intro other hother
    rw [hserved.waiters] at hother
    exact (h.issued other hother).trans_eq hticket.symm
  have hnew : waiter ∉ t.waiters := fun hmem ↦ lt_irrefl _ (hbefore waiter hmem)
  generalize hqueued : s.admissionWaiters.get waiter.runtimeId = queued at hjoins
  have hwaiters : (t.enqueue queued waiter).waiters = t.waiters ++ [waiter] := by cases queued <;> rfl
  have hsettled : (t.enqueue queued waiter).settled = t.settled := by cases queued <;> rfl
  have hserving : (t.enqueue queued waiter).serving = t.serving := by cases queued <;> rfl
  have htickets : (t.enqueue queued waiter).tickets = t.tickets := by cases queued <;> rfl
  have hlistening : ∀ ticket ∈ (t.enqueue queued waiter).listening,
      ticket ∈ t.listening ∨ ticket = waiter.ticket := by
    intro ticket hmem
    have hmem' : ticket ∈ if waiter.signal = none then t.listening else t.listening ++ [waiter.ticket] := by
      cases queued <;> exact hmem
    split_ifs at hmem'
    · exact .inl hmem'
    · exact (List.mem_append.mp hmem').imp_right List.mem_singleton.mp
  exact
    { keys := by
        rw [hjoins.admissionWaiters]
        exact JsMap.nodup_keys_set ht.keys _ _
      own := by
        intro b other hother
        rw [hjoins.admissionWaiters, JsMap.get_set]
        rcases hjoins.mem_array.mp hother with hother | ⟨rfl, rfl⟩
        · have hget := ht.own b other hother
          split_ifs with heq
          · rw [heq] at hget
            rw [hjoins.captured b hget]
          · exact hget
        · rw [if_pos rfl]
      apart := by
        intro runtimeId runtimeId' b hget hget'
        rw [hjoins.admissionWaiters, JsMap.get_set] at hget hget'
        split_ifs at hget hget' with heq heq' heq'
        · rw [heq, heq']
        · rw [heq, hjoins.only runtimeId' (hget'.trans hget.symm)]
        · rw [heq', hjoins.only runtimeId (hget.trans hget'.symm)]
        · exact ht.apart _ _ b hget hget'
      bound := by
        intro runtimeId b hget
        rw [hjoins.admissionWaiters, JsMap.get_set] at hget
        split_ifs at hget
        · exact Option.some.inj hget ▸ hjoins.lt
        · exact (ht.bound runtimeId b hget).trans_le hjoins.le
      sorted := by
        intro b
        rw [hjoins.array]
        split_ifs
        · refine List.pairwise_append.mpr ⟨ht.sorted a, List.pairwise_singleton _ _, ?_⟩
          intro other hother other' hother'
          rw [List.mem_singleton.mp hother']
          exact hbefore other (ht.known a other hother)
        · exact ht.sorted b
      known := by
        intro b other hother
        rw [hwaiters]
        rcases hjoins.mem_array.mp hother with hother | ⟨-, rfl⟩
        · exact List.mem_append_left _ (ht.known b other hother)
        · exact List.mem_append_right _ List.mem_cons_self
      unsettled := by
        intro b other hother hmem
        rw [hsettled] at hmem
        rcases hjoins.mem_array.mp hother with hother | ⟨-, rfl⟩
        · exact ht.unsettled b other hother hmem
        · exact hnew (ht.settledKnown _ hmem)
      servingKnown := by
        intro other hother
        rw [hwaiters]
        exact List.mem_append_left _ (ht.servingKnown other (hserving ▸ hother))
      servingUnsettled := by
        intro other hother
        rw [hsettled]
        exact ht.servingUnsettled other (hserving ▸ hother)
      servingOut := by
        intro other hother b hmem
        rw [hserving] at hother
        rcases hjoins.mem_array.mp hmem with hmem | ⟨-, rfl⟩
        · exact ht.servingOut other hother b hmem
        · exact hnew (ht.servingKnown _ hother)
      servingNodup := by
        rw [hserving]
        exact ht.servingNodup
      settledKnown := by
        intro other hmem
        rw [hsettled] at hmem
        rw [hwaiters]
        exact List.mem_append_left _ (ht.settledKnown other hmem)
      once := by
        rw [hsettled]
        exact ht.once
      ordered := by
        rw [hwaiters]
        refine List.pairwise_append.mpr ⟨ht.ordered, List.pairwise_singleton _ _, ?_⟩
        intro other hother other' hother'
        rw [List.mem_singleton.mp hother']
        exact hbefore other hother
      issued := by
        intro other hother
        rw [hwaiters] at hother
        rw [htickets]
        rcases List.mem_append.mp hother with hother | hother
        · exact ht.issued other hother
        · rw [List.mem_singleton.mp hother, hticket, hserved.tickets]
          exact Nat.lt_succ_self _
      listening := by
        intro ticket hticket
        rcases hlistening ticket hticket with hticket | rfl
        · obtain ⟨b, other, hother, htickets⟩ := ht.listening ticket hticket
          exact ⟨b, other, hjoins.mem_array.mpr (.inl hother), htickets⟩
        · exact ⟨a, waiter, hjoins.mem_array.mpr (.inr ⟨rfl, rfl⟩), rfl⟩
      everyone := by
        intro other hother
        rw [hwaiters] at hother
        rw [hsettled, hserving]
        rcases List.mem_append.mp hother with hother | hother
        · rcases ht.everyone other hother with hmem | ⟨b, hb⟩ | hmem
          · exact .inl hmem
          · exact .inr (.inl ⟨b, hjoins.mem_array.mpr (.inl hb)⟩)
          · exact .inr (.inr hmem)
        · exact .inr (.inl ⟨a, hjoins.mem_array.mpr (.inr ⟨rfl, List.mem_singleton.mp hother⟩)⟩) }

/-! ### The end of all waiting -/

theorem Waits.mem_allWaiters (h : Waits s) {waiter : AdmissionWaiter} :
    waiter ∈ s.allWaiters ↔ ∃ a, waiter ∈ s.array a := by
  refine List.mem_flatMap.trans ⟨fun ⟨entry, _, hmem⟩ ↦ ⟨entry.2, hmem⟩, fun ⟨a, hmem⟩ ↦ ?_⟩
  exact ⟨(waiter.runtimeId, a), (JsMap.mem_iff_get h.keys).mpr (h.own a waiter hmem), hmem⟩

theorem Waits.nodup_allWaiters (h : Waits s) : s.allWaiters.Nodup := by
  refine List.nodup_flatMap.mpr ⟨fun entry _ ↦ h.nodup_array entry.2, ?_⟩
  have hkeys : s.admissionWaiters.Pairwise fun e e' ↦ e.1 ≠ e'.1 := List.pairwise_map.mp h.keys
  refine hkeys.imp_of_mem ?_
  intro e e' he he' hne waiter hmem hmem'
  have heq : e.2 = e'.2 := h.eq_of_mem_array hmem hmem'
  apply hne
  exact h.apart e.1 e'.1 e'.2 (heq ▸ (JsMap.mem_iff_get h.keys).mp he) ((JsMap.mem_iff_get h.keys).mp he')

/-- What `clear` does to everybody who waits. -/
def rejectAll (s : AgentExecutionSessionRegistry) (waiters : List AdmissionWaiter) :
    AgentExecutionSessionRegistry :=
  waiters.foldl (fun s' waiter ↦
    (s'.detachAdmissionWaiter waiter).settle waiter (.refused (.cleared waiter.runtimeId))) s

theorem rejectAll_eq (waiters : List AdmissionWaiter) : ∀ s : AgentExecutionSessionRegistry,
    (∀ waiter ∈ waiters, waiter ∉ s.serving) →
    (s.rejectAll waiters).settled.map Prod.fst = s.settled.map Prod.fst ++ waiters ∧
    (s.rejectAll waiters).serving = s.serving ∧ (s.rejectAll waiters).waiters = s.waiters ∧
    (s.rejectAll waiters).tickets = s.tickets ∧
    ∀ ticket ∈ (s.rejectAll waiters).listening, ticket ∈ s.listening ∧
      ∀ waiter ∈ waiters, waiter.ticket ≠ ticket := by
  induction waiters with
  | nil =>
    intro s _
    refine ⟨(List.append_nil _).symm, rfl, rfl, rfl, fun ticket hticket ↦ ⟨hticket, ?_⟩⟩
    exact fun waiter hwaiter ↦ absurd hwaiter List.not_mem_nil
  | cons waiter waiters ih =>
    intro s hserving
    have herase : s.serving.erase waiter = s.serving :=
      List.erase_of_not_mem (hserving waiter List.mem_cons_self)
    obtain ⟨hsettled, hserving', hwaiters, htickets, hlistening⟩ :=
      ih ((s.detachAdmissionWaiter waiter).settle waiter (.refused (.cleared waiter.runtimeId)))
        fun other hother hmem ↦ hserving other (List.mem_cons_of_mem _ hother) (List.mem_of_mem_erase hmem)
    refine ⟨?_, hserving'.trans herase, hwaiters, htickets, ?_⟩
    · refine hsettled.trans ?_
      rw [map_settled_settle, List.append_assoc, List.singleton_append]
      rfl
    · intro ticket hticket
      obtain ⟨hmem, hne⟩ := hlistening ticket hticket
      obtain ⟨hmem, hne'⟩ := List.mem_filter.mp hmem
      refine ⟨hmem, fun other hother ↦ ?_⟩
      rcases List.mem_cons.mp hother with rfl | hother
      · exact fun heq ↦ of_decide_eq_true hne' heq.symm
      · exact hne other hother

theorem waits_clear (h : Waits s) : Waits s.clear := by
  obtain ⟨hsettled, hserving, hwaiters, htickets, hlistening⟩ :=
    rejectAll_eq s.allWaiters { s with indexes := .init } fun waiter hwaiter hmem ↦ by
      obtain ⟨a, ha⟩ := h.mem_allWaiters.mp hwaiter
      exact h.servingOut waiter hmem a ha
  have hempty : ∀ a, s.clear.array a = [] := fun a ↦ List.getD_nil
  have hsettled' : s.clear.settled.map Prod.fst = s.settled.map Prod.fst ++ s.allWaiters := hsettled
  have hserving' : s.clear.serving = s.serving := hserving
  have hwaiters' : s.clear.waiters = s.waiters := hwaiters
  have hnone : ∀ {P : AdmissionWaiter → Prop} a, ∀ waiter ∈ s.clear.array a, P waiter := by
    intro P a waiter hmem
    rw [hempty] at hmem
    exact absurd hmem List.not_mem_nil
  exact
    { keys := List.nodup_nil
      own := fun a ↦ hnone a
      apart := fun _ _ _ hget ↦ nomatch hget
      bound := fun _ _ hget ↦ nomatch hget
      sorted := fun a ↦ by
        rw [hempty]
        exact List.Pairwise.nil
      known := fun a ↦ hnone a
      unsettled := fun a ↦ hnone a
      servingKnown := fun waiter hmem ↦ hwaiters' ▸ h.servingKnown waiter (hserving' ▸ hmem)
      servingUnsettled := by
        intro waiter hmem hsettledMem
        rw [hserving'] at hmem
        rw [hsettled'] at hsettledMem
        rcases List.mem_append.mp hsettledMem with hsettledMem | hall
        · exact h.servingUnsettled waiter hmem hsettledMem
        · obtain ⟨a, ha⟩ := h.mem_allWaiters.mp hall
          exact h.servingOut waiter hmem a ha
      servingOut := fun waiter _ a hmem ↦ by
        rw [hempty] at hmem
        exact List.not_mem_nil hmem
      servingNodup := hserving' ▸ h.servingNodup
      settledKnown := by
        intro waiter hmem
        rw [hsettled'] at hmem
        rw [hwaiters']
        rcases List.mem_append.mp hmem with hmem | hall
        · exact h.settledKnown waiter hmem
        · obtain ⟨a, ha⟩ := h.mem_allWaiters.mp hall
          exact h.known a waiter ha
      once := by
        rw [hsettled']
        refine List.nodup_append.mpr ⟨h.once, h.nodup_allWaiters, ?_⟩
        rintro waiter hmem _ hall rfl
        obtain ⟨a, ha⟩ := h.mem_allWaiters.mp hall
        exact h.unsettled a waiter ha hmem
      ordered := hwaiters' ▸ h.ordered
      issued := by
        intro waiter hmem
        rw [hwaiters'] at hmem
        exact (h.issued waiter hmem).trans_eq htickets.symm
      listening := by
        intro ticket hticket
        obtain ⟨hmem, hne⟩ := hlistening ticket hticket
        obtain ⟨a, waiter, ha, heq⟩ := h.listening ticket hmem
        exact absurd heq (hne waiter (h.mem_allWaiters.mpr ⟨a, ha⟩))
      everyone := by
        intro waiter hmem
        rw [hwaiters'] at hmem
        rw [hsettled', hserving', List.mem_append]
        rcases h.everyone waiter hmem with hmem | harray | hmem
        · exact .inl (.inl hmem)
        · exact .inl (.inr (h.mem_allWaiters.mpr harray))
        · exact .inr (.inr hmem) }

theorem waits_init : Waits init := by
  have hempty : ∀ a, init.array a = [] := fun a ↦ List.getD_nil
  have hnone : ∀ {P : AdmissionWaiter → Prop} a, ∀ waiter ∈ init.array a, P waiter := by
    intro P a waiter hmem
    rw [hempty] at hmem
    exact absurd hmem List.not_mem_nil
  have hnil : ∀ {P : AdmissionWaiter → Prop}, ∀ waiter ∈ ([] : List AdmissionWaiter), P waiter :=
    fun waiter hmem ↦ absurd hmem List.not_mem_nil
  exact
    { keys := List.nodup_nil, own := fun a ↦ hnone a, apart := fun _ _ _ hget ↦ nomatch hget
      bound := fun _ _ hget ↦ nomatch hget
      sorted := fun a ↦ by
        rw [hempty]
        exact List.Pairwise.nil
      known := fun a ↦ hnone a, unsettled := fun a ↦ hnone a, servingKnown := hnil, servingUnsettled := hnil
      servingOut := hnil, servingNodup := List.nodup_nil, settledKnown := hnil, once := List.nodup_nil
      ordered := List.Pairwise.nil, issued := hnil
      listening := fun ticket hmem ↦ absurd hmem List.not_mem_nil
      everyone := hnil }

theorem waits_invariant (host : AdmissionHost) : RegistryInvariant host Waits where
  sweep _ _ _ h := { h with }
  beginAdmit _ _ _ h := { h with }
  conclude _ _ _ _ _ _ h := { h with }
  dropQueue _ _ _ hempty hcaptured h := waits_dropQueue hempty hcaptured h
  shift _ _ _ _ harray h := waits_shift harray h
  settle _ waiter settlement hmem h :=
    waits_settle settlement (h.servingKnown waiter hmem) (h.servingUnsettled waiter hmem)
      (h.servingOut waiter hmem) h
  nextTicket _ h := { h with issued := fun waiter hmem ↦ (h.issued waiter hmem).trans (Nat.lt_succ_self _) }
  tick _ h := { h with }
  generic _ _ _ _ _ h := { h with }
  enqueue _ _ _ h hserved ht hticket := waits_enqueue h hserved ht hticket
  onAbort _ _ hwaiter hlistening h := waits_onAbort hwaiter hlistening h
  close _ _ h := { h with }
  discard _ _ h := { h with }
  mark _ _ _ _ _ h := { h with }
  abort _ _ h := { h with }
  clear _ h := waits_clear h

/-! ## Nobody is stranded -/

/-- Whoever is in the array of a runtime waits for a run of it to end, but for the runtimes that are still to be
served. -/
def NobodyStranded (owed : List JsString) (s : AgentExecutionSessionRegistry) : Prop :=
  ∀ runtimeId ∉ owed, s.queue runtimeId ≠ [] → (s.indexes.activeRunByRuntime.get runtimeId).isSome = true

section

variable {runtimeId : JsString} {a : ℕ} {waiter : AdmissionWaiter} {rest : List AdmissionWaiter}
  {owed : List JsString}

theorem queue_of_get (h : s.admissionWaiters.get runtimeId = some a) : s.queue runtimeId = s.array a := by
  rw [queue, h]
  rfl

theorem queue_of_none (h : s.admissionWaiters.get runtimeId = none) : s.queue runtimeId = [] := by
  rw [queue, h]
  rfl

theorem queue_dropQueue (runtimeId runtimeId' : JsString) :
    (s.dropQueue runtimeId).queue runtimeId' = if runtimeId' = runtimeId then [] else s.queue runtimeId' := by
  change ((s.admissionWaiters.delete runtimeId).get runtimeId').elim [] s.array = _
  rw [JsMap.get_delete]
  split_ifs
  · rfl
  · rfl

/-- The arrays of the other runtimes are other arrays. -/
theorem queue_shift_of_ne (h : Waits s) (hget : s.admissionWaiters.get runtimeId = some a)
    (harray : s.array a = waiter :: rest) {runtimeId' : JsString} (hne : runtimeId' ≠ runtimeId) :
    (s.shift a waiter rest).queue runtimeId' = s.queue runtimeId' := by
  match hget' : s.admissionWaiters.get runtimeId' with
  | none => rw [queue_of_none hget', queue_of_none (s := s.shift a waiter rest) hget']
  | some b =>
    rw [queue_of_get hget', queue_of_get (s := s.shift a waiter rest) hget', array_shift harray, if_neg]
    rintro rfl
    exact hne (h.apart _ _ b hget' hget)

theorem NobodyStranded.shift (h : Waits s) (hget : s.admissionWaiters.get runtimeId = some a)
    (harray : s.array a = waiter :: rest) (hs : NobodyStranded (runtimeId :: owed) s) :
    NobodyStranded (runtimeId :: owed) (s.shift a waiter rest) := by
  intro runtimeId' howed hqueue
  rw [queue_shift_of_ne h hget harray (List.ne_of_not_mem_cons howed)] at hqueue
  exact hs runtimeId' howed hqueue

theorem NobodyStranded.dropQueue (hs : NobodyStranded (runtimeId :: owed) s) :
    NobodyStranded owed (s.dropQueue runtimeId) := by
  intro runtimeId' howed hqueue
  rw [queue_dropQueue] at hqueue
  split_ifs at hqueue with heq
  · exact absurd rfl hqueue
  · exact hs runtimeId' (List.not_mem_cons_of_ne_of_not_mem heq howed) hqueue

/-- An admitted runtime needs no serving. -/
theorem NobodyStranded.of_active (hs : NobodyStranded (runtimeId :: owed) s)
    (hactive : (s.indexes.activeRunByRuntime.get runtimeId).isSome = true) : NobodyStranded owed s := by
  intro runtimeId' howed hqueue
  by_cases heq : runtimeId' = runtimeId
  · rw [heq]
    exact hactive
  · exact hs runtimeId' (List.not_mem_cons_of_ne_of_not_mem heq howed) hqueue

theorem NobodyStranded.sweep (hkeyed : s.indexes.Keyed) (hs : NobodyStranded owed s) (now : ℕ) :
    NobodyStranded ((s.indexes.sweep runtimeId now).2 ++ owed) (s.sweepRuntime runtimeId now) := by
  intro runtimeId' howed hqueue
  rw [List.mem_append, not_or] at howed
  change ((s.indexes.sweep runtimeId now).1.activeRunByRuntime.get runtimeId').isSome = true
  rw [(AdmissionIndexes.wiped_sweep hkeyed runtimeId now).active, if_neg howed.1]
  exact hs runtimeId' howed.2 hqueue

theorem NobodyStranded.conclude (ticket : Option ℕ) (input : EvalAdmissionInput) (issuedAt : ℕ)
    (retained : Option ExecutionAdmissionFact) (hs : NobodyStranded owed s) :
    NobodyStranded owed (s.conclude host ticket input issuedAt retained).2 := by
  intro runtimeId' howed hqueue
  have hactive := hs runtimeId' howed hqueue
  change ((s.outcome host input issuedAt retained).2.activeRunByRuntime.get runtimeId').isSome = true
  rcases outcome_cases host s input issuedAt retained with ⟨_, heq⟩ | ⟨_, -, -, heq⟩ | ⟨fact, -, -, heq⟩
  · rw [heq]
    exact hactive
  · rw [heq]
    exact hactive
  · rw [heq, AdmissionIndexes.get_active_enter, JsMap.get_set]
    split_ifs
    · rfl
    · exact hactive

/-- When `admit` returns a fact, the runtime is admitted for a run. -/
theorem active_of_admitWith_ok {drain : JsString → AgentExecutionSessionRegistry → AgentExecutionSessionRegistry}
    {ticket : Option ℕ} {input : EvalAdmissionInput} {fact : ExecutionAdmissionFact}
    (h : s.admitWith host drain ticket input = (.ok fact, t)) :
    (t.indexes.activeRunByRuntime.get input.executor.runtimeId).isSome = true := by
  rw [admitWith] at h
  generalize (s.beginAdmit host ticket input).resolveAt drain input.executor.runtimeId
    (host.clock s.readings) = resolved at h
  obtain ⟨retained, u⟩ := resolved
  obtain ⟨hresult, rfl⟩ := Prod.mk.inj h
  change ((u.outcome host input (host.clock s.readings) retained).2.activeRunByRuntime.get
    input.executor.runtimeId).isSome = true
  rcases outcome_cases host u input (host.clock s.readings) retained with
    ⟨error, heq⟩ | ⟨_, -, hactive, heq⟩ | ⟨_, -, -, heq⟩
  · rw [heq] at hresult
    cases hresult
  · rw [heq]
    exact Option.isSome_iff_exists.mpr ⟨_, (Option.filter_eq_some_iff.mp hactive).1⟩
  · rw [heq, AdmissionIndexes.get_active_enter, JsMap.get_set_self]
    rfl

/-- What is known of a registry that serves its waiters. -/
structure Sane (s : AgentExecutionSessionRegistry) : Prop where
  waits : Waits s
  keyed : s.indexes.Keyed

theorem Sane.sweep (h : Sane s) (runtimeId : JsString) (now : ℕ) :
    Sane (s.sweepRuntime runtimeId now) :=
  ⟨{ h.waits with }, (AdmissionIndexes.wiped_sweep h.keyed runtimeId now).keyed h.keyed⟩

theorem sane_rule (host : AdmissionHost) : ServingRule host fun s s' ↦ Sane s → Sane s' where
  refl _ h := h
  trans _ _ _ h h' hs := h' (h hs)
  sweep _ runtimeId now h := h.sweep runtimeId now
  beginAdmit _ _ _ h := ⟨(waits_invariant host).beginAdmit _ _ _ h.waits, h.keyed⟩
  conclude _ _ _ _ _ hretained h :=
    ⟨(waits_invariant host).conclude _ _ _ _ _ hretained h.waits,
      (keyed_invariant host).conclude _ _ _ _ _ hretained h.keyed⟩
  dropQueue _ _ _ hempty hcaptured h := ⟨waits_dropQueue hempty hcaptured h.waits, h.keyed⟩
  round s t a waiter rest settlement harray hserved hR h :=
    ⟨(waits_invariant host).rule.round s t a waiter rest settlement harray hserved
        (fun _ ↦ (hR ⟨waits_shift harray h.waits, h.keyed⟩).waits) h.waits,
      (hR ⟨waits_shift harray h.waits, h.keyed⟩).keyed⟩

/-- The serving of a runtime pays what is owed to it. -/
def Serves (drain : JsString → AgentExecutionSessionRegistry → AgentExecutionSessionRegistry) (bound : ℕ) : Prop :=
  ∀ runtimeId owed s, s.waiting ≤ bound → Sane s → NobodyStranded (runtimeId :: owed) s →
    NobodyStranded owed (drain runtimeId s)

section serving

variable {drain : JsString → AgentExecutionSessionRegistry → AgentExecutionSessionRegistry} {bound : ℕ}

theorem NobodyStranded.foldl (hdrain : Serves drain bound) (hserved : ∀ runtimeId s, Served s (drain runtimeId s))
    (hsane : ∀ runtimeId s, Sane s → Sane (drain runtimeId s)) (runtimeIds : List JsString) :
    ∀ s : AgentExecutionSessionRegistry, s.waiting ≤ bound → Sane s → NobodyStranded (runtimeIds ++ owed) s →
      NobodyStranded owed (runtimeIds.foldl (fun s runtimeId ↦ drain runtimeId s) s) := by
  induction runtimeIds with
  | nil => exact fun _ _ _ hs ↦ hs
  | cons runtimeId runtimeIds ih =>
    intro s hbound h hs
    exact ih (drain runtimeId s) ((hserved runtimeId s).waiting.trans hbound) (hsane runtimeId s h)
      (hdrain runtimeId _ s hbound h hs)

theorem NobodyStranded.resolveAt (hdrain : Serves drain bound)
    (hserved : ∀ runtimeId s, Served s (drain runtimeId s))
    (hsane : ∀ runtimeId s, Sane s → Sane (drain runtimeId s)) (hbound : s.waiting ≤ bound) (h : Sane s)
    (hs : NobodyStranded owed s) (now : ℕ) :
    NobodyStranded owed (s.resolveAt drain runtimeId now).2 := by
  apply NobodyStranded.foldl hdrain hserved hsane
  · exact hbound
  · exact h.sweep runtimeId now
  · exact hs.sweep h.keyed now

theorem NobodyStranded.admitWith (host : AdmissionHost) (hdrain : Serves drain bound)
    (hserved : ∀ runtimeId s, Served s (drain runtimeId s))
    (hsane : ∀ runtimeId s, Sane s → Sane (drain runtimeId s)) (hbound : s.waiting ≤ bound) (h : Sane s)
    (hs : NobodyStranded owed s) (ticket : Option ℕ) (input : EvalAdmissionInput) :
    NobodyStranded owed (s.admitWith host drain ticket input).2 := by
  apply NobodyStranded.conclude
  exact NobodyStranded.resolveAt (s := s.beginAdmit host ticket input) hdrain hserved hsane hbound
    ((sane_rule host).beginAdmit s ticket input h) hs _

end serving

/-- The runtime of an array that is being served still leads to it, or it is empty. -/
theorem get_or_empty (h : Waits s) (hget : s.admissionWaiters.get runtimeId = some a) (hserved : Served s t)
    (ht : Waits t) : t.admissionWaiters.get runtimeId = some a ∨
      t.admissionWaiters.get runtimeId = none ∧ t.array a = [] := by
  match hget' : t.admissionWaiters.get runtimeId with
  | some b =>
    rw [captured_of_get hget b (hserved.queues runtimeId b hget')]
    exact .inl rfl
  | none =>
    refine .inr ⟨rfl, List.eq_nil_iff_forall_not_mem.mpr fun waiter hmem ↦ ?_⟩
    have hmine := ht.own a waiter hmem
    rw [h.apart _ _ a (hserved.queues _ a hmine) hget, hget'] at hmine
    exact nomatch hmine

theorem serves_drainUnless {loop : JsString → ℕ → AgentExecutionSessionRegistry → AgentExecutionSessionRegistry}
    {bound : ℕ} (hloop : ∀ runtimeId a owed t, t.waiting ≤ bound → Sane t →
      t.admissionWaiters.get runtimeId = some a → NobodyStranded (runtimeId :: owed) t →
      NobodyStranded owed (loop runtimeId a t)) : Serves (drainUnless loop) bound := by
  intro runtimeId owed t hbound ht hstranded
  rcases drainUnless_cases loop runtimeId t with ⟨heq, hactive | hnone⟩ | ⟨b, hb, heq⟩
  · rw [heq]
    exact hstranded.of_active hactive
  · rw [heq]
    intro runtimeId' howed hqueue
    by_cases hid : runtimeId' = runtimeId
    · rw [hid, queue_of_none hnone] at hqueue
      exact absurd rfl hqueue
    · exact hstranded runtimeId' (List.not_mem_cons_of_ne_of_not_mem hid howed) hqueue
  · rw [heq]
    exact hloop runtimeId b owed t hbound ht hb hstranded

/-- **The loop serves its runtime.** It ends with an admission, or with an empty array. -/
theorem nobodyStranded_drainLoop (host : AdmissionHost) : ∀ fuel runtimeId a owed s, s.waiting < fuel → Sane s →
    (s.admissionWaiters.get runtimeId = some a ∨ s.admissionWaiters.get runtimeId = none ∧ s.array a = []) →
    NobodyStranded (runtimeId :: owed) s → NobodyStranded owed (drainLoop host fuel runtimeId a s) := by
  intro fuel
  induction fuel with
  | zero => exact fun _ _ _ s hfuel ↦ absurd hfuel (Nat.not_lt_zero _)
  | succ fuel ih =>
    intro runtimeId a owed s hfuel h hget hs
    match harray : s.array a with
    | [] =>
      rw [drainLoop_nil harray]
      exact hs.dropQueue
    | waiter :: rest =>
      have hget := hget.resolve_right fun hnone ↦ nomatch harray.symm.trans hnone.2
      have hwaiting := waiting_shift harray
      have hshift : Sane (s.shift a waiter rest) := ⟨waits_shift harray h.waits, h.keyed⟩
      have hs' := hs.shift h.waits hget harray
      have hdrain : Serves (drainUnless (drainLoop host fuel)) (s.shift a waiter rest).waiting :=
        serves_drainUnless fun runtimeId a owed t hbound ht hget hstranded ↦
          ih runtimeId a owed t (by omega) ht (.inl hget) hstranded
      -- the rounds that follow
      have hnext : ∀ t settlement, Served (s.shift a waiter rest) t → Sane t →
          NobodyStranded (runtimeId :: owed) t →
          NobodyStranded owed (drainLoop host fuel runtimeId a (t.settle waiter settlement)) := by
        intro t settlement hserved ht hstranded
        have hsettled : Sane (t.settle waiter settlement) :=
          (sane_rule host).round s t a waiter rest settlement harray hserved (fun _ ↦ ht) h
        have hle : (t.settle waiter settlement).waiting ≤ (s.shift a waiter rest).waiting := hserved.waiting
        refine ih runtimeId a owed _ (by omega) hsettled ?_ hstranded
        exact get_or_empty h.waits hget (served_round harray hserved settlement) hsettled.waits
      by_cases haborted : s.isAborted waiter.signal = true
      · rw [drainLoop_aborted harray haborted]
        exact hnext _ _ (.refl _) hshift hs'
      · have hstranded := NobodyStranded.admitWith host hdrain
          ((servingRule_served host).drainUnless fuel) ((sane_rule host).drainUnless fuel) le_rfl hshift hs'
          (some waiter.ticket) waiter.input
        have hserved := (servingRule_served host).admitWith ((servingRule_served host).drainUnless fuel)
          (s.shift a waiter rest) (some waiter.ticket) waiter.input
        have hsane := (sane_rule host).admitWith ((sane_rule host).drainUnless fuel)
          (s.shift a waiter rest) (some waiter.ticket) waiter.input hshift
        match hadmission : (s.shift a waiter rest).admitWith host (drainUnless (drainLoop host fuel))
            (some waiter.ticket) waiter.input with
        | (.ok fact, t) =>
          rw [hadmission] at hstranded
          rw [drainLoop_ok harray haborted hadmission]
          have hmine : waiter.runtimeId = runtimeId :=
            h.waits.apart _ _ a (h.waits.own a waiter (harray ▸ List.mem_cons_self)) hget
          have hactive : (t.indexes.activeRunByRuntime.get runtimeId).isSome = true :=
            hmine ▸ active_of_admitWith_ok hadmission
          rw [admitted]
          split_ifs
          · exact hstranded.dropQueue
          · exact hstranded.of_active hactive
        | (.error error, t) =>
          rw [hadmission] at hstranded hserved hsane
          rw [drainLoop_error harray haborted hadmission]
          exact hnext t _ hserved hsane hstranded

theorem serves_drain (host : AdmissionHost) (bound : ℕ) : Serves (drainAdmissionWaiters host) bound := by
  intro runtimeId owed s _ h hstranded
  refine @serves_drainUnless _ s.waiting ?_ runtimeId owed s le_rfl h hstranded
  exact fun runtimeId a owed t hbound ht hget hstranded ↦
    nobodyStranded_drainLoop host _ runtimeId a owed t (Nat.lt_succ_of_le hbound) ht (.inl hget) hstranded

end

end AgentExecutionSessionRegistry

end Vibestudio.Server

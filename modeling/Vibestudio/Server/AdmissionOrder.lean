import Mathlib
import Vibestudio.Server.AdmissionCoherence
import Vibestudio.Server.AdmissionQueues

/-!
# The order of the admissions

A call of `admit` resolves its runtime first. When this takes away the fact of the runtime, it serves the array of the
runtime on the way, and `admit` then goes on as if it had found the runtime free. It enters its own fact over that of the
waiter it has just served, and a waiter that is served so is ahead of the one whose turn it is.

`AdmitCall.Clear` rules this out: the fact of the runtime is kept, or nobody waits for the runtime. Then whoever is being
served has an empty array behind (`Idle`), nothing that is started on the way can serve the same runtime again, and the
waiters of a runtime are admitted in the order of their calls.
-/

namespace Vibestudio.Server

open Js

/-- The call does not take away the fact of its runtime while others wait for it. -/
def AdmitCall.Clear (c : AdmitCall) : Prop :=
  c.queued = [] ∨ c.before.lookup c.input.executor.runtimeId c.now = .absent ∨
    ∃ fact, c.before.lookup c.input.executor.runtimeId c.now = .live fact

/-- The call enters a new fact. -/
def AdmitResult.Enters (o : AdmitResult) : Prop := ∃ fact marked, o.outcome = .enter fact marked

/-- The run that the runtime of the call was admitted for. -/
def AdmitResult.before (o : AdmitResult) : Option JsString :=
  o.found.activeRunByRuntime.get o.input.executor.runtimeId

def WaitSettlement.isAdmitted : WaitSettlement → Bool
  | .admitted _ => true
  | .refused _ => false

namespace AgentExecutionSessionRegistry

variable {host : AdmissionHost} {s s' t u : AgentExecutionSessionRegistry}

/-- The waiters of a runtime that have been admitted, in the order of their admissions. -/
def admittedTickets (s : AgentExecutionSessionRegistry) (runtimeId : JsString) : List ℕ :=
  (s.settled.filter fun entry ↦ entry.1.runtimeId = runtimeId ∧ entry.2.isAdmitted).map fun entry ↦ entry.1.ticket

/-- Nobody is admitted ahead of a waiter that called before, for another run of its runtime. -/
structure InOrder (s : AgentExecutionSessionRegistry) : Prop where
  calls : ∀ o ∈ s.results, o.Enters → o.before ≠ some o.input.executor.evalRunId →
    ∀ ticket ∈ o.ticket, ∀ other ∈ o.pending, ticket < other
  admitted : ∀ runtimeId, (s.admittedTickets runtimeId).Pairwise (· < ·)
  ahead : ∀ runtimeId, ∀ ticket ∈ s.admittedTickets runtimeId, ∀ other ∈ s.pending runtimeId, ticket < other

/-- Nobody is admitted over the run of another. -/
def Single (s : AgentExecutionSessionRegistry) : Prop :=
  (∀ o ∈ s.results, o.Sound) → ∀ o ∈ s.results, o.Enters → o.before = none

structure Orderly (s : AgentExecutionSessionRegistry) : Prop where
  sane : Sane s
  told : Told s
  inOrder : InOrder s
  single : Single s

/-- The runtimes of the calls that have not returned: free, and with nobody waiting. -/
def Idle (busy : List JsString) (s : AgentExecutionSessionRegistry) : Prop :=
  ∀ runtimeId ∈ busy, s.queue runtimeId = [] ∧ s.indexes.activeRunByRuntime.get runtimeId = none

/-- Whoever has been taken out of an array waits for one of these runtimes. -/
def ServingIn (busy : List JsString) (s : AgentExecutionSessionRegistry) : Prop :=
  ∀ waiter ∈ s.serving, waiter.runtimeId ∈ busy

/-! ## Pending waiters -/

theorem isSettled_iff {ticket : ℕ} : s.isSettled ticket = true ↔ ∃ entry ∈ s.settled, entry.1.ticket = ticket := by
  rw [isSettled, List.any_eq_true]
  exact exists_congr fun entry ↦ and_congr_right fun _ ↦ decide_eq_true_iff

theorem mem_pending {runtimeId : JsString} {ticket : ℕ} : ticket ∈ s.pending runtimeId ↔
    ∃ waiter ∈ s.waiters, waiter.runtimeId = runtimeId ∧ s.isSettled waiter.ticket = false ∧
      waiter.ticket = ticket := by
  rw [pending, List.mem_map]
  simp only [List.mem_filter, decide_eq_true_eq, Bool.not_eq_true, and_assoc]

/-- A waiter whose ticket is open is in an array, or being served. -/
theorem Waits.place (h : Waits s) {waiter : AdmissionWaiter} (hmem : waiter ∈ s.waiters)
    (hopen : s.isSettled waiter.ticket = false) : (∃ a, waiter ∈ s.array a) ∨ waiter ∈ s.serving := by
  refine (h.everyone waiter hmem).resolve_left fun hsettled ↦ ?_
  obtain ⟨entry, hentry, heq⟩ := List.mem_map.mp hsettled
  rw [Bool.eq_false_iff] at hopen
  exact hopen (isSettled_iff.mpr ⟨entry, hentry, by rw [heq]⟩)

theorem Waits.isSettled_of_serving (h : Waits s) {waiter : AdmissionWaiter} (hmem : waiter ∈ s.serving) :
    s.isSettled waiter.ticket = false := by
  rw [Bool.eq_false_iff]
  intro hsettled
  obtain ⟨entry, hentry, heq⟩ := isSettled_iff.mp hsettled
  have hentry' : entry.1 ∈ s.settled.map Prod.fst := List.mem_map_of_mem hentry
  rw [h.eq_of_ticket (h.settledKnown _ hentry') (h.servingKnown _ hmem) heq] at hentry'
  exact h.servingUnsettled waiter hmem hentry'

/-- With an empty array nobody but those who are being served is pending. -/
theorem pending_eq_nil (h : Waits s) {runtimeId : JsString} (hqueue : s.queue runtimeId = [])
    (hserving : ∀ waiter ∈ s.serving, waiter.runtimeId ≠ runtimeId) : s.pending runtimeId = [] := by
  refine List.eq_nil_iff_forall_not_mem.mpr fun ticket hticket ↦ ?_
  obtain ⟨waiter, hmem, rfl, hopen, -⟩ := mem_pending.mp hticket
  rcases h.place hmem hopen with ⟨a, ha⟩ | hmem
  · rw [queue_of_get (h.own a waiter ha)] at hqueue
    exact List.not_mem_nil (hqueue ▸ ha)
  · exact hserving waiter hmem rfl

theorem Served.queue_eq_nil (hserved : Served s t) {runtimeId : JsString} (h : s.queue runtimeId = []) :
    t.queue runtimeId = [] := by
  match hget : t.admissionWaiters.get runtimeId with
  | none => exact queue_of_none hget
  | some a =>
    rw [queue_of_get hget]
    rw [queue_of_get (hserved.queues runtimeId a hget)] at h
    exact List.suffix_nil.mp (h ▸ hserved.arrays a)

section

variable {waiter : AdmissionWaiter}

theorem isSettled_settle (settlement : WaitSettlement) (ticket : ℕ) :
    (s.settle waiter settlement).isSettled ticket = (s.isSettled ticket || decide (waiter.ticket = ticket)) := by
  change (s.settled ++ [(waiter, settlement)]).any _ = _
  rw [List.any_append, List.any_cons, List.any_nil, Bool.or_false]
  rfl

theorem mem_pending_settle {settlement : WaitSettlement} {runtimeId : JsString} {ticket : ℕ}
    (h : ticket ∈ (s.settle waiter settlement).pending runtimeId) :
    ticket ∈ s.pending runtimeId ∧ ticket ≠ waiter.ticket := by
  obtain ⟨other, hmem, hid, hopen, rfl⟩ := mem_pending.mp h
  rw [isSettled_settle, Bool.or_eq_false_iff, decide_eq_false_iff_not] at hopen
  exact ⟨mem_pending.mpr ⟨other, hmem, hid, hopen.1, rfl⟩, Ne.symm hopen.2⟩

theorem admittedTickets_settle (settlement : WaitSettlement) (runtimeId : JsString) :
    (s.settle waiter settlement).admittedTickets runtimeId = s.admittedTickets runtimeId ++
      if waiter.runtimeId = runtimeId ∧ settlement.isAdmitted then [waiter.ticket] else [] := by
  change ((s.settled ++ [(waiter, settlement)]).filter _).map _ = _
  rw [List.filter_append, List.map_append]
  congr 1
  by_cases h : waiter.runtimeId = runtimeId ∧ settlement.isAdmitted = true
  · rw [if_pos h, List.filter_cons_of_pos (by exact decide_eq_true h)]
    rfl
  · rw [if_neg h, List.filter_cons_of_neg (by simpa using h)]
    rfl

/-- To answer a waiter keeps the order, if everybody else who waits for its runtime has called later. -/
theorem InOrder.settle (h : InOrder s) (settlement : WaitSettlement)
    (hmem : settlement.isAdmitted = true → waiter.ticket ∈ s.pending waiter.runtimeId)
    (hlater : settlement.isAdmitted = true → ∀ other ∈ s.pending waiter.runtimeId, other ≠ waiter.ticket →
      waiter.ticket < other) : InOrder (s.settle waiter settlement) where
  calls := h.calls
  admitted runtimeId := by
    rw [admittedTickets_settle]
    split_ifs with hadmitted
    · refine List.pairwise_append.mpr ⟨h.admitted runtimeId, List.pairwise_singleton _ _, ?_⟩
      intro ticket hticket other hother
      rw [List.mem_singleton.mp hother]
      exact h.ahead runtimeId ticket hticket _ (hadmitted.1 ▸ hmem hadmitted.2)
    · rw [List.append_nil]
      exact h.admitted runtimeId
  ahead runtimeId ticket hticket other hother := by
    obtain ⟨hother, hne⟩ := mem_pending_settle hother
    rw [admittedTickets_settle] at hticket
    split_ifs at hticket with hadmitted
    · rcases List.mem_append.mp hticket with hticket | hticket
      · exact h.ahead runtimeId ticket hticket other hother
      · rw [List.mem_singleton.mp hticket]
        exact hlater hadmitted.2 other (hadmitted.1 ▸ hother) hne
    · rw [List.append_nil] at hticket
      exact h.ahead runtimeId ticket hticket other hother

end

/-! ## One call of `admit` -/

theorem lookup_absent {x : AdmissionIndexes} {runtimeId : JsString} {now : ℕ}
    (h : x.lookup runtimeId now = .absent) : x.byRuntime.get runtimeId = none := by
  rw [AdmissionIndexes.lookup] at h
  split at h
  · rename_i hnone
    exact hnone
  · split_ifs at h
    split at h
    · cases h
    · split_ifs at h

theorem lookup_revoked {x : AdmissionIndexes} {runtimeId policyId : JsString} {now : ℕ}
    (h : x.lookup runtimeId now = .revoked policyId) :
    ∃ fact, x.byRuntime.get runtimeId = some fact ∧ AdmissionIndexes.isOfPolicy policyId fact = true := by
  rw [AdmissionIndexes.lookup] at h
  split at h
  · cases h
  · rename_i fact hget
    split_ifs at h
    split at h
    · cases h
    · rename_i policy hpolicy
      split_ifs at h
      refine ⟨fact, hget, ?_⟩
      rw [AdmissionIndexes.isOfPolicy, hpolicy]
      exact decide_eq_true (AdmissionIndexes.Lookup.revoked.inj h)

/-- A runtime whose fact is taken away is free. -/
theorem active_sweep_self {runtimeId : JsString} {now : ℕ} (hkeyed : s.indexes.Keyed)
    (htaken : (∃ fact, s.indexes.lookup runtimeId now = .expired fact) ∨
      ∃ policyId, s.indexes.lookup runtimeId now = .revoked policyId) :
    (s.sweepRuntime runtimeId now).indexes.activeRunByRuntime.get runtimeId = none := by
  have hmem : runtimeId ∈ (s.indexes.sweep runtimeId now).2 := by
    rw [AdmissionIndexes.sweep]
    rcases htaken with ⟨fact, hfound⟩ | ⟨policyId, hfound⟩
    · rw [hfound]
      exact List.mem_append_right _ List.mem_cons_self
    · rw [hfound]
      obtain ⟨fact, hget, hpolicy⟩ := lookup_revoked hfound
      exact (AdmissionIndexes.mem_revoked hkeyed).mpr ⟨fact, hget, hpolicy⟩
  change (s.indexes.sweep runtimeId now).1.activeRunByRuntime.get runtimeId = none
  rw [(AdmissionIndexes.wiped_sweep hkeyed runtimeId now).active, if_pos hmem]

theorem Coherent.active_eq_none (h : Coherent s.indexes) {runtimeId : JsString}
    (hactive : s.activeRun runtimeId = none) : s.indexes.activeRunByRuntime.get runtimeId = none := by
  match hget : s.indexes.activeRunByRuntime.get runtimeId with
  | none => rfl
  | some run =>
    rw [activeRun, hget, truthy, Option.filter_some, if_pos (decide_eq_true (h runtimeId run hget).1)] at hactive
    exact nomatch hactive

section

variable {ticket : Option ℕ} {input : EvalAdmissionInput} {issuedAt : ℕ}
  {retained : Option ExecutionAdmissionFact} {busy : List JsString}

theorem Orderly.conclude (h : Orderly u) (hretained : Retains u input.executor.runtimeId issuedAt retained)
    (hnext : u.indexes.activeRunByRuntime.get input.executor.runtimeId ≠ some input.executor.evalRunId →
      ∀ k ∈ ticket, ∀ other ∈ u.pending input.executor.runtimeId, some other ≠ ticket → k < other)
    (hfree : retained = none → (∀ o ∈ u.results, o.Sound) →
      u.indexes.activeRunByRuntime.get input.executor.runtimeId = none) :
    Orderly (u.conclude host ticket input issuedAt retained).2 where
  sane := (sane_rule host).conclude _ _ _ _ _ hretained h.sane
  told := told_conclude hretained h.told
  inOrder :=
    { calls := by
        intro o ho henters hother k hk other hmem
        rcases List.mem_append.mp ho with ho | ho
        · exact h.inOrder.calls o ho henters hother k hk other hmem
        · rw [List.mem_singleton] at ho
          subst ho
          obtain ⟨hmem, hne⟩ := List.mem_filter.mp hmem
          exact hnext hother k hk other hmem (of_decide_eq_true hne)
      admitted := h.inOrder.admitted
      ahead := h.inOrder.ahead }
  single := by
    intro hsound o ho henters
    have hbefore : ∀ o ∈ u.results, o.Sound := fun o ho ↦ hsound o (List.mem_append_left _ ho)
    rcases List.mem_append.mp ho with ho | ho
    · exact h.single hbefore o ho henters
    · rw [List.mem_singleton] at ho
      subst ho
      change u.indexes.activeRunByRuntime.get input.executor.runtimeId = none
      match hmatch : retained with
      | none => exact hfree rfl hbefore
      | some fact =>
        obtain ⟨entered, marked, hentered⟩ := henters
        change (u.outcome host input issuedAt (some fact)).1 = _ at hentered
        rcases outcome_cases host u input issuedAt (some fact) with
          ⟨_, heq⟩ | ⟨_, -, -, heq⟩ | ⟨_, -, hactive, -⟩
        · rw [heq] at hentered
          exact nomatch hentered
        · rw [heq] at hentered
          exact nomatch hentered
        · exact (h.told.coherent hbefore).active_eq_none (hactive fact rfl).1

theorem Idle.conclude (h : Idle busy u) (hout : input.executor.runtimeId ∉ busy) :
    Idle busy (u.conclude host ticket input issuedAt retained).2 := by
  intro runtimeId hmem
  obtain ⟨hqueue, hactive⟩ := h runtimeId hmem
  refine ⟨hqueue, ?_⟩
  change (u.outcome host input issuedAt retained).2.activeRunByRuntime.get runtimeId = none
  rcases outcome_cases host u input issuedAt retained with ⟨_, heq⟩ | ⟨_, -, -, heq⟩ | ⟨_, -, -, heq⟩
  · rw [heq]
    exact hactive
  · rw [heq]
    exact hactive
  · have hne : runtimeId ≠ input.executor.runtimeId := by
      rintro rfl
      exact hout hmem
    rw [heq, AdmissionIndexes.get_active_enter, JsMap.get_set_of_ne _ hne]
    exact hactive

theorem Idle.sweep (h : Idle busy s) (hkeyed : s.indexes.Keyed) (runtimeId : JsString) (now : ℕ) :
    Idle busy (s.sweepRuntime runtimeId now) := by
  intro runtimeId' hmem
  obtain ⟨hqueue, hactive⟩ := h runtimeId' hmem
  refine ⟨hqueue, ?_⟩
  change (s.indexes.sweep runtimeId now).1.activeRunByRuntime.get runtimeId' = none
  rw [(AdmissionIndexes.wiped_sweep hkeyed runtimeId now).active, hactive, ite_self]

theorem Orderly.sweep (h : Orderly s) (runtimeId : JsString) (now : ℕ) :
    Orderly (s.sweepRuntime runtimeId now) :=
  ⟨h.sane.sweep runtimeId now, (told_invariant ⟨fun _ ↦ 0, fun _ ↦ []⟩).sweep s runtimeId now h.told,
    { h.inOrder with }, h.single⟩

/-- The serving of a runtime keeps the order, and leaves the runtimes of the calls below alone. -/
def Keeps (drain : JsString → AgentExecutionSessionRegistry → AgentExecutionSessionRegistry) : Prop :=
  ∀ busy runtimeId s, Orderly s → ServingIn busy s → Idle busy s →
    (∀ c ∈ (drain runtimeId s).calls, c.Clear) → Orderly (drain runtimeId s) ∧ Idle busy (drain runtimeId s)

variable {drain : JsString → AgentExecutionSessionRegistry → AgentExecutionSessionRegistry}

theorem ServingIn.served (h : ServingIn busy s) (hserved : Served s t) : ServingIn busy t :=
  fun waiter hmem ↦ h waiter (hserved.serving ▸ hmem)

theorem served_foldl (hserved : ∀ runtimeId s, Served s (drain runtimeId s)) (runtimeIds : List JsString) :
    ∀ s, Served s (runtimeIds.foldl (fun s runtimeId ↦ drain runtimeId s) s) := by
  induction runtimeIds with
  | nil => exact .refl
  | cons runtimeId runtimeIds ih => exact fun s ↦ (hserved runtimeId s).trans (ih _)

/-- A call that keeps the fact of its runtime serves nobody. -/
theorem resolveAt_of_kept (drain : JsString → AgentExecutionSessionRegistry → AgentExecutionSessionRegistry)
    {runtimeId : JsString} {now : ℕ}
    (h : s.indexes.sweep runtimeId now = (s.indexes, [])) : s.resolveAt drain runtimeId now =
      ((s.indexes.lookup runtimeId now).retained, s.sweepRuntime runtimeId now) ∧
    (s.sweepRuntime runtimeId now).indexes = s.indexes := by
  rw [resolveAt, sweepRuntime, h]
  exact ⟨rfl, rfl⟩

theorem keeps_foldl (hkeeps : Keeps drain) (hserved : ∀ runtimeId s, Served s (drain runtimeId s))
    (runtimeIds : List JsString) : ∀ s : AgentExecutionSessionRegistry, Orderly s → ServingIn busy s →
      Idle busy s → (∀ c ∈ (runtimeIds.foldl (fun s runtimeId ↦ drain runtimeId s) s).calls, c.Clear) →
      Orderly (runtimeIds.foldl (fun s runtimeId ↦ drain runtimeId s) s) ∧
        Idle busy (runtimeIds.foldl (fun s runtimeId ↦ drain runtimeId s) s) := by
  induction runtimeIds with
  | nil => exact fun s h _ hidle _ ↦ ⟨h, hidle⟩
  | cons runtimeId runtimeIds ih =>
    intro s h hserving hidle hclear
    have hrest := served_foldl hserved runtimeIds (drain runtimeId s)
    obtain ⟨hfirst, hidle'⟩ := hkeeps busy runtimeId s h hserving hidle
      fun c hc ↦ hclear c (hrest.calls.subset hc)
    exact ih _ hfirst (hserving.served (hserved runtimeId s)) hidle' hclear

/-- **A clear call keeps the order**, if the caller is the next one of those it does not come over. -/
theorem keeps_admitWith (host : AdmissionHost) (ticket : Option ℕ) (hkeeps : Keeps drain) (hserved : ∀ runtimeId s, Served s (drain runtimeId s))
    (h : Orderly s) (hserving : ServingIn (input.executor.runtimeId :: busy) s) (hidle : Idle busy s)
    (hout : input.executor.runtimeId ∉ busy)
    (hnext : ∀ u, Served s u → Sane u →
      u.indexes.activeRunByRuntime.get input.executor.runtimeId ≠ some input.executor.evalRunId →
      u.indexes = s.indexes ∨ s.queue input.executor.runtimeId = [] →
      ∀ k ∈ ticket, ∀ other ∈ u.pending input.executor.runtimeId, some other ≠ ticket → k < other)
    (hclear : ∀ c ∈ (s.admitWith host drain ticket input).2.calls, c.Clear) :
    Orderly (s.admitWith host drain ticket input).2 ∧ Idle busy (s.admitWith host drain ticket input).2 := by
  have hbegun : Orderly (s.beginAdmit host ticket input) :=
    ⟨(sane_rule host).beginAdmit _ _ _ h.sane, ⟨h.told.keyed, h.told.coherent⟩, { h.inOrder with }, h.single⟩
  have hbegin : Served s (s.beginAdmit host ticket input) := served_beginAdmit ticket input
  have hresolved : Served (s.beginAdmit host ticket input)
      ((s.beginAdmit host ticket input).resolveAt drain input.executor.runtimeId (host.clock s.readings)).2 :=
    (servingRule_served host).resolveAt hserved _ _ _
  have hretained : Retains ((s.beginAdmit host ticket input).resolveAt drain input.executor.runtimeId
      (host.clock s.readings)).2 input.executor.runtimeId (host.clock s.readings) _ :=
    retains_resolveAt input.executor.runtimeId (host.clock s.readings)
  have hcalls : ∀ c ∈ ((s.beginAdmit host ticket input).resolveAt drain input.executor.runtimeId
      (host.clock s.readings)).2.calls, c.Clear := hclear
  -- the fact of the runtime is kept: nothing is served
  have hkept : s.indexes.sweep input.executor.runtimeId (host.clock s.readings) = (s.indexes, []) →
      (s.indexes.lookup input.executor.runtimeId (host.clock s.readings) = .absent ∨
        ∃ fact, s.indexes.lookup input.executor.runtimeId (host.clock s.readings) = .live fact) →
      Orderly (s.admitWith host drain ticket input).2 ∧ Idle busy (s.admitWith host drain ticket input).2 := by
    intro hsweep hfound
    obtain ⟨hresolve, hindexes⟩ := resolveAt_of_kept (s := s.beginAdmit host ticket input) drain hsweep
    have horderly := hbegun.sweep input.executor.runtimeId (host.clock s.readings)
    change _ = s.indexes at hindexes
    rw [admitWith]
    rw [hresolve] at hretained hresolved
    simp only [hresolve]
    refine ⟨horderly.conclude hretained (fun hne ↦ hnext _ (hbegin.trans hresolved) horderly.sane hne (.inl hindexes))
      fun hnone hsound ↦ ?_, ?_⟩
    · have hcoherent := horderly.told.coherent hsound
      rw [hindexes] at hcoherent ⊢
      rcases hfound with habsent | ⟨fact, hlive⟩
      · cases hget : s.indexes.activeRunByRuntime.get input.executor.runtimeId with
        | none => rfl
        | some run =>
          obtain ⟨-, fact, -, hfact, -⟩ := hcoherent _ run hget
          cases (lookup_absent habsent).symm.trans hfact
      · change (s.indexes.lookup input.executor.runtimeId (host.clock s.readings)).retained = none at hnone
        rw [hlive] at hnone
        cases hnone
    · refine Idle.conclude (fun runtimeId hmem ↦ ?_) hout
      rw [hindexes]
      exact ⟨(hbegin.trans hresolved).queue_eq_nil (hidle runtimeId hmem).1, (hidle runtimeId hmem).2⟩
  -- it is taken away: nobody waits for the runtime, and what is served leaves it alone
  have htaken : (∃ fact, s.indexes.lookup input.executor.runtimeId (host.clock s.readings) = .expired fact) ∨
      (∃ policyId, s.indexes.lookup input.executor.runtimeId (host.clock s.readings) = .revoked policyId) →
      s.queue input.executor.runtimeId = [] →
      Orderly (s.admitWith host drain ticket input).2 ∧ Idle busy (s.admitWith host drain ticket input).2 := by
    intro hfound hqueue
    have hswept : Idle (input.executor.runtimeId :: busy)
        ((s.beginAdmit host ticket input).sweepRuntime input.executor.runtimeId (host.clock s.readings)) := by
      rintro runtimeId (_ | ⟨_, hmem⟩)
      · exact ⟨hqueue, active_sweep_self (s := s.beginAdmit host ticket input) h.sane.keyed hfound⟩
      · exact (Idle.sweep (s := s.beginAdmit host ticket input) hidle h.sane.keyed _ _) runtimeId hmem
    obtain ⟨horderly, hidle'⟩ := keeps_foldl hkeeps hserved _ _ (hbegun.sweep _ _) hserving hswept hcalls
    refine ⟨Orderly.conclude horderly hretained
      (fun hne ↦ hnext _ (hbegin.trans hresolved) horderly.sane hne (.inr hqueue)) fun _ _ ↦ ?_, ?_⟩
    · exact (hidle' _ List.mem_cons_self).2
    · exact Idle.conclude (fun runtimeId hmem ↦ hidle' runtimeId (List.mem_cons_of_mem _ hmem)) hout
  have hcall : AdmitCall.Clear ⟨ticket, input, host.clock s.readings, s.indexes,
      s.queue input.executor.runtimeId⟩ :=
    hcalls _ (hresolved.calls.subset (List.mem_append_right _ List.mem_cons_self))
  cases hfound : s.indexes.lookup input.executor.runtimeId (host.clock s.readings) with
  | absent =>
    refine hkept ?_ (.inl hfound)
    rw [AdmissionIndexes.sweep, hfound]
  | live fact =>
    refine hkept ?_ (.inr ⟨fact, hfound⟩)
    rw [AdmissionIndexes.sweep, hfound]
  | expired fact =>
    refine htaken (.inl ⟨fact, hfound⟩) (hcall.resolve_right ?_)
    rintro (habsent | ⟨_, hlive⟩)
    · cases hfound.symm.trans habsent
    · cases hfound.symm.trans hlive
  | revoked policyId =>
    refine htaken (.inr ⟨policyId, hfound⟩) (hcall.resolve_right ?_)
    rintro (habsent | ⟨_, hlive⟩)
    · cases hfound.symm.trans habsent
    · cases hfound.symm.trans hlive

end

/-! ## The loop -/

section

variable {runtimeId : JsString} {a : ℕ} {waiter : AdmissionWaiter} {rest : List AdmissionWaiter}
  {busy : List JsString}

/-- Whoever else is pending for the runtime of the waiter that has been taken out of its array has called later. -/
theorem later_of_served (h : Waits s) (harray : s.array a = waiter :: rest)
    (hget : s.admissionWaiters.get runtimeId = some a) (hserving : ServingIn busy s) (hout : runtimeId ∉ busy)
    (hserved : Served (s.shift a waiter rest) t) (ht : Waits t) :
    ∀ other ∈ t.pending runtimeId, other ≠ waiter.ticket → waiter.ticket < other := by
  intro ticket hticket hne
  obtain ⟨other, hmem, hid, hopen, rfl⟩ := mem_pending.mp hticket
  rcases ht.place hmem hopen with ⟨b, hb⟩ | hmem
  · have hown := hserved.queues _ b (ht.own b other hb)
    change s.admissionWaiters.get other.runtimeId = some b at hown
    rw [hid, hget, Option.some.injEq] at hown
    have hrest : other ∈ (s.shift a waiter rest).array b := (hserved.arrays b).subset hb
    rw [array_shift harray, if_pos hown.symm] at hrest
    have hsorted := h.sorted a
    rw [harray] at hsorted
    exact (List.pairwise_cons.mp hsorted).1 other hrest
  · rw [hserved.serving] at hmem
    rcases List.mem_cons.mp hmem with rfl | hmem
    · exact absurd rfl hne
    · exact absurd (hid ▸ hserving other hmem) hout

theorem Orderly.shift (h : Orderly s) (harray : s.array a = waiter :: rest) :
    Orderly (s.shift a waiter rest) :=
  ⟨⟨waits_shift harray h.sane.waits, h.sane.keyed⟩, ⟨h.told.keyed, h.told.coherent⟩, { h.inOrder with }, h.single⟩

theorem Idle.served {busy : List JsString} (h : Idle busy s) (hserved : Served s t)
    (hactive : ∀ runtimeId ∈ busy, t.indexes.activeRunByRuntime.get runtimeId = none) : Idle busy t :=
  fun runtimeId hmem ↦ ⟨hserved.queue_eq_nil (h runtimeId hmem).1, hactive runtimeId hmem⟩

theorem keeps_drainUnless {loop : JsString → ℕ → AgentExecutionSessionRegistry → AgentExecutionSessionRegistry}
    (h : ∀ busy runtimeId a s, Orderly s → ServingIn busy s → Idle busy s →
      s.admissionWaiters.get runtimeId = some a → (∀ c ∈ (loop runtimeId a s).calls, c.Clear) →
      Orderly (loop runtimeId a s) ∧ Idle busy (loop runtimeId a s)) : Keeps (drainUnless loop) := by
  intro busy runtimeId s hs hserving hidle hclear
  rcases drainUnless_cases loop runtimeId s with ⟨heq, -⟩ | ⟨a, ha, heq⟩
  · rw [heq]
    exact ⟨hs, hidle⟩
  · rw [heq] at hclear ⊢
    exact h busy runtimeId a s hs hserving hidle ha hclear

/-- **The loop keeps the order.** -/
theorem keeps_drainLoop (host : AdmissionHost) : ∀ fuel busy runtimeId a s, Orderly s → ServingIn busy s →
    Idle busy s →
    (s.admissionWaiters.get runtimeId = some a ∨ s.admissionWaiters.get runtimeId = none ∧ s.array a = []) →
    (∀ c ∈ (drainLoop host fuel runtimeId a s).calls, c.Clear) →
    Orderly (drainLoop host fuel runtimeId a s) ∧ Idle busy (drainLoop host fuel runtimeId a s) := by
  intro fuel
  induction fuel with
  | zero => exact fun _ _ _ _ h _ hidle _ _ ↦ ⟨h, hidle⟩
  | succ fuel ih =>
    intro busy runtimeId a s h hserving hidle hget hclear
    match harray : s.array a with
    | [] =>
      have hcaptured : s.Captured runtimeId a := by
        rcases hget with hget | ⟨hget, -⟩
        · exact captured_of_get hget
        · exact fun b hb ↦ nomatch hget.symm.trans hb
      rw [drainLoop_nil harray]
      refine ⟨⟨⟨waits_dropQueue harray hcaptured h.sane.waits, h.sane.keyed⟩, ⟨h.told.keyed, h.told.coherent⟩,
        { h.inOrder with }, h.single⟩, ?_⟩
      exact hidle.served (served_dropQueue runtimeId) fun runtimeId' hmem ↦ (hidle runtimeId' hmem).2
    | waiter :: rest =>
      have hget := hget.resolve_right fun hnone ↦ nomatch harray.symm.trans hnone.2
      have hmine : waiter.runtimeId = runtimeId :=
        h.sane.waits.apart _ _ a (h.sane.waits.own a waiter (harray ▸ List.mem_cons_self)) hget
      have hout : runtimeId ∉ busy := by
        intro hmem
        have hqueue := (hidle runtimeId hmem).1
        rw [queue_of_get hget, harray] at hqueue
        exact nomatch hqueue
      have hshift := h.shift harray
      have hidle' : Idle busy (s.shift a waiter rest) := by
        intro runtimeId' hmem
        refine ⟨?_, (hidle runtimeId' hmem).2⟩
        rw [queue_shift_of_ne h.sane.waits hget harray fun heq ↦ hout (by rw [← heq]; exact hmem)]
        exact (hidle runtimeId' hmem).1
      have hserving' : ServingIn (waiter.input.executor.runtimeId :: busy) (s.shift a waiter rest) := by
        rintro other (_ | ⟨_, hmem⟩)
        · exact List.mem_cons_self
        · exact List.mem_cons_of_mem _ (hserving other hmem)
      -- a waiter is answered, whatever the answer
      have hsettle : ∀ t settlement, Served (s.shift a waiter rest) t → Orderly t →
          Orderly (t.settle waiter settlement) := by
        intro t settlement hserved ht
        have hmem : waiter ∈ t.serving := by
          rw [hserved.serving]
          exact List.mem_cons_self
        refine ⟨(sane_rule host).round s t a waiter rest settlement harray hserved (fun _ ↦ ht.sane) h.sane,
          ⟨ht.told.keyed, ht.told.coherent⟩, ht.inOrder.settle settlement (fun _ ↦ ?_) fun _ ↦ ?_, ht.single⟩
        · exact mem_pending.mpr ⟨waiter, ht.sane.waits.servingKnown waiter hmem, rfl,
            ht.sane.waits.isSettled_of_serving hmem, rfl⟩
        · rw [hmine]
          exact later_of_served h.sane.waits harray hget hserving hout hserved ht.sane.waits
      -- the rounds that follow
      have hnext : ∀ t settlement, Served (s.shift a waiter rest) t → Orderly t → Idle busy t →
          (∀ c ∈ (drainLoop host fuel runtimeId a (t.settle waiter settlement)).calls, c.Clear) →
          Orderly (drainLoop host fuel runtimeId a (t.settle waiter settlement)) ∧
            Idle busy (drainLoop host fuel runtimeId a (t.settle waiter settlement)) := by
        intro t settlement hserved ht hidle hclear
        have hround := served_round harray hserved settlement
        have hsettled := hsettle t settlement hserved ht
        exact ih busy runtimeId a _ hsettled (hserving.served hround) hidle
          (get_or_empty h.sane.waits hget hround hsettled.sane.waits) hclear
      by_cases haborted : s.isAborted waiter.signal = true
      · rw [drainLoop_aborted harray haborted] at hclear ⊢
        exact hnext _ _ (.refl _) hshift hidle' hclear
      · have hkeeps : Keeps (drainUnless (drainLoop host fuel)) :=
          keeps_drainUnless fun busy runtimeId a s hs hserving hidle ha ↦ ih busy runtimeId a s hs hserving hidle (.inl ha)
        have hserved := (servingRule_served host).admitWith ((servingRule_served host).drainUnless fuel)
          (s.shift a waiter rest) (some waiter.ticket) waiter.input
        have hout' : waiter.input.executor.runtimeId ∉ busy := fun hmem ↦ hout (hmine ▸ hmem)
        have hadmitted := keeps_admitWith host (some waiter.ticket) hkeeps
          ((servingRule_served host).drainUnless fuel) hshift hserving' hidle' hout' (by
            intro u hu hsane _ _ k hk other hother hne
            obtain rfl := Option.some.inj hk
            have hother' : other ∈ u.pending runtimeId := hmine ▸ hother
            exact later_of_served h.sane.waits harray hget hserving hout hu hsane.waits other hother'
              fun heq ↦ hne (congrArg some heq))
        match hadmission : (s.shift a waiter rest).admitWith host (drainUnless (drainLoop host fuel))
            (some waiter.ticket) waiter.input with
        | (.ok fact, t) =>
          rw [hadmission] at hadmitted hserved
          have hcaptured : t.Captured runtimeId a := (captured_of_get (s := s.shift a waiter rest) hget).served hserved
          rw [drainLoop_ok harray haborted hadmission] at hclear ⊢
          obtain ⟨ht, hidle'⟩ : Orderly t ∧ Idle busy t := hadmitted (by
            rw [admitted] at hclear
            split_ifs at hclear
            · exact hclear
            · exact hclear)
          rw [admitted]
          split_ifs with hempty
          · have hdropped : Idle busy (t.dropQueue runtimeId) :=
              hidle'.served (served_dropQueue runtimeId) fun runtimeId' hmem ↦ (hidle' runtimeId' hmem).2
            refine ⟨hsettle _ _ (hserved.trans (served_dropQueue runtimeId))
              ⟨⟨waits_dropQueue hempty hcaptured ht.sane.waits, ht.sane.keyed⟩, ⟨ht.told.keyed, ht.told.coherent⟩,
                { ht.inOrder with }, ht.single⟩, hdropped⟩
          · exact ⟨hsettle _ _ hserved ht, hidle'⟩
        | (.error error, t) =>
          rw [hadmission] at hadmitted hserved
          have hcaptured : t.Captured runtimeId a := (captured_of_get (s := s.shift a waiter rest) hget).served hserved
          rw [drainLoop_error harray haborted hadmission] at hclear ⊢
          have hrest := ((servingRule_served host).drainLoop fuel runtimeId a
            (t.settle waiter (.refused error)) hcaptured).1
          obtain ⟨ht, hidle'⟩ := hadmitted fun c hc ↦ hclear c (hrest.calls.subset hc)
          exact hnext t _ hserved ht hidle' hclear

end

/-! ## The methods -/

/-- Between two operations nobody is being served. -/
structure AtRest (owed : List JsString) (s : AgentExecutionSessionRegistry) : Prop where
  sane : Sane s
  serving : s.serving = []
  nobodyStranded : NobodyStranded owed s
  orderly : (∀ c ∈ s.calls, c.Clear) → Orderly s

theorem keeps_drain (host : AdmissionHost) : Keeps (drainAdmissionWaiters host) :=
  fun busy runtimeId s h hserving hidle hclear ↦
    keeps_drainUnless (fun busy runtimeId a s h hserving hidle ha ↦
      keeps_drainLoop host _ busy runtimeId a s h hserving hidle (.inl ha)) busy runtimeId s h hserving hidle hclear

section

variable {runtimeId : JsString} {owed : List JsString}

theorem idle_nil (s : AgentExecutionSessionRegistry) : Idle [] s := fun _ hmem ↦ absurd hmem List.not_mem_nil

theorem AtRest.servingIn (h : AtRest owed s) (busy : List JsString) : ServingIn busy s := by
  intro waiter hmem
  rw [h.serving] at hmem
  exact absurd hmem List.not_mem_nil

theorem AtRest.drain (host : AdmissionHost) (h : AtRest (runtimeId :: owed) s) :
    AtRest owed (drainAdmissionWaiters host runtimeId s) where
  sane := (sane_rule host).drainWaiters runtimeId s h.sane
  serving := (served_drain runtimeId).serving.trans h.serving
  nobodyStranded := serves_drain host s.waiting runtimeId owed s le_rfl h.sane h.nobodyStranded
  orderly hclear := (keeps_drain host [] runtimeId s
    (h.orderly fun c hc ↦ hclear c ((served_drain runtimeId).calls.subset hc)) (h.servingIn []) (idle_nil s)
    hclear).1

theorem AtRest.tick (h : AtRest owed s) : AtRest owed s.tick :=
  ⟨⟨{ h.sane.waits with }, h.sane.keyed⟩, h.serving, h.nobodyStranded, fun hclear ↦
    have horderly := h.orderly hclear
    ⟨⟨{ h.sane.waits with }, h.sane.keyed⟩, ⟨horderly.told.keyed, horderly.told.coherent⟩,
      { horderly.inOrder with }, horderly.single⟩⟩

theorem AtRest.nextTicket (h : AtRest owed s) : AtRest owed s.nextTicket :=
  have hsane : Sane s.nextTicket := ⟨(waits_invariant ⟨fun _ ↦ 0, fun _ ↦ []⟩).nextTicket s h.sane.waits, h.sane.keyed⟩
  ⟨hsane, h.serving, h.nobodyStranded, fun hclear ↦
    have horderly := h.orderly hclear
    ⟨hsane, ⟨horderly.told.keyed, horderly.told.coherent⟩, { horderly.inOrder with }, horderly.single⟩⟩

theorem AtRest.resolveAt (host : AdmissionHost) (h : AtRest [] s) (runtimeId : JsString) (now : ℕ) :
    AtRest [] (s.resolveAt (drainAdmissionWaiters host) runtimeId now).2 where
  sane := (sane_rule host).resolveAt ((sane_rule host).drainWaiters) s runtimeId now h.sane
  serving := ((servingRule_served host).resolveAt ((servingRule_served host).drainWaiters) s runtimeId now).serving.trans h.serving
  nobodyStranded := h.nobodyStranded.resolveAt (serves_drain host s.waiting) (fun _ _ ↦ served_drain _)
    ((sane_rule host).drainWaiters) le_rfl h.sane now
  orderly hclear := by
    have hserved := (servingRule_served host).resolveAt ((servingRule_served host).drainWaiters) s runtimeId now
    have horderly := h.orderly fun c hc ↦ hclear c (hserved.calls.subset hc)
    exact (keeps_foldl (keeps_drain host) (fun _ _ ↦ served_drain _) _ _ (horderly.sweep runtimeId now)
      (h.servingIn []) (idle_nil _) hclear).1

theorem AtRest.resolve (host : AdmissionHost) (h : AtRest [] s) (runtimeId : JsString) :
    AtRest [] (s.resolve host runtimeId).2 := h.tick.resolveAt host runtimeId _

theorem AtRest.admitTicket (host : AdmissionHost) (h : AtRest [] s) (ticket : Option ℕ) (input : EvalAdmissionInput)
    (hnext : ∀ u, Served s u → Sane u →
      u.indexes.activeRunByRuntime.get input.executor.runtimeId ≠ some input.executor.evalRunId →
      u.indexes = s.indexes ∨ s.queue input.executor.runtimeId = [] →
      ∀ k ∈ ticket, ∀ other ∈ u.pending input.executor.runtimeId, some other ≠ ticket → k < other) :
    AtRest [] (s.admitTicket host ticket input).2 where
  sane := (sane_rule host).admitTicket s ticket input h.sane
  serving := ((servingRule_served host).admitTicket s ticket input).serving.trans h.serving
  nobodyStranded := h.nobodyStranded.admitWith host (serves_drain host s.waiting) (fun _ _ ↦ served_drain _)
    ((sane_rule host).drainWaiters) le_rfl h.sane ticket input
  orderly hclear := by
    have hserved := (servingRule_served host).admitTicket s ticket input
    have horderly := h.orderly fun c hc ↦ hclear c (hserved.calls.subset hc)
    exact (keeps_admitWith _ _ (keeps_drain host) (fun _ _ ↦ served_drain _) horderly (h.servingIn _) (idle_nil s)
      List.not_mem_nil hnext hclear).1

theorem AtRest.admitEval (host : AdmissionHost) (h : AtRest [] s) (input : EvalAdmissionInput) :
    AtRest [] (s.admitEval host input).2 := h.admitTicket host none input fun _ _ _ _ _ _ hk ↦ nomatch hk

/-! ### Those who wait -/

/-- Nothing is admitted, and nobody begins to wait. -/
theorem Orderly.of_frame (h : Orderly s) (hsane : Sane t) (htold : Told t) (hresults : t.results = s.results)
    (hadmitted : ∀ runtimeId, t.admittedTickets runtimeId = s.admittedTickets runtimeId)
    (hpending : ∀ runtimeId, ∀ ticket ∈ t.pending runtimeId, ticket ∈ s.pending runtimeId) : Orderly t where
  sane := hsane
  told := htold
  inOrder :=
    { calls := hresults ▸ h.inOrder.calls
      admitted := fun runtimeId ↦ by
        rw [hadmitted]
        exact h.inOrder.admitted runtimeId
      ahead := fun runtimeId ticket hticket other hother ↦ by
        rw [hadmitted] at hticket
        exact h.inOrder.ahead runtimeId ticket hticket other (hpending runtimeId other hother) }
  single := by
    rw [Single, hresults]
    exact h.single

/-- The writes to the indexes of a call that is no admission. -/
theorem AtRest.indexes (h : AtRest [] s) {x : AdmissionIndexes} {uuids : ℕ} (hkeyed : x.Keyed)
    (htold : Told s → Told { s with indexes := x, uuids := uuids })
    (hactive : ∀ runtimeId ∉ owed, x.activeRunByRuntime.get runtimeId = s.indexes.activeRunByRuntime.get runtimeId) :
    AtRest owed { s with indexes := x, uuids := uuids } where
  sane := ⟨{ h.sane.waits with }, hkeyed⟩
  serving := h.serving
  nobodyStranded := by
    intro runtimeId howed hqueue
    change (x.activeRunByRuntime.get runtimeId).isSome = true
    rw [hactive runtimeId howed]
    exact h.nobodyStranded runtimeId List.not_mem_nil hqueue
  orderly hclear := by
    have horderly := h.orderly hclear
    exact horderly.of_frame ⟨{ h.sane.waits with }, hkeyed⟩ (htold horderly.told) rfl (fun _ ↦ rfl)
      fun _ _ hmem ↦ hmem

theorem AtRest.close (host : AdmissionHost) (h : AtRest [] s) (runtimeId : JsString) (runId : Option JsString) :
    AtRest [] (s.close host runtimeId runId).2 := by
  have hclosed : AtRest [runtimeId] { s with indexes := s.indexes.close runtimeId } := by
    apply h.indexes (h.sane.keyed.close runtimeId)
    · exact (told_invariant host).close s runtimeId
    · exact fun runtimeId' hne ↦ (JsMap.get_delete _ _ _).trans (if_neg (List.ne_of_not_mem_cons hne))
  rw [AgentExecutionSessionRegistry.close]
  split
  · split_ifs
    · exact h
    · exact hclosed.drain host
  · exact h

theorem AtRest.discard (host : AdmissionHost) (h : AtRest [] s) (runtimeId runId : JsString) :
    AtRest [] (s.discard host runtimeId runId).2 := by
  have hdiscarded : AtRest [runtimeId] { s with indexes := s.indexes.discard runtimeId } := by
    apply h.indexes (h.sane.keyed.discard runtimeId)
    · exact (told_invariant host).discard s runtimeId
    · exact fun runtimeId' hne ↦ (JsMap.get_delete _ _ _).trans (if_neg (List.ne_of_not_mem_cons hne))
  rw [AgentExecutionSessionRegistry.discard]
  split_ifs
  · exact h
  · exact hdiscarded.drain host

theorem queue_ne_nil_of_mem {waiter : AdmissionWaiter} (h : Waits s) {a : ℕ} (hmem : waiter ∈ s.array a) :
    s.queue waiter.runtimeId ≠ [] := by
  rw [queue_of_get (h.own a waiter hmem)]
  exact List.ne_nil_of_mem hmem

/-- Whoever is in an array of the one registry is in an array of the other. -/
theorem queue_ne_nil_of_arrays (hs : Waits s) (ht : Waits t)
    (harrays : ∀ a, ∀ waiter ∈ t.array a, ∃ b, waiter ∈ s.array b) {runtimeId : JsString}
    (h : t.queue runtimeId ≠ []) : s.queue runtimeId ≠ [] := by
  match hget : t.admissionWaiters.get runtimeId with
  | none => exact absurd (queue_of_none hget) h
  | some a =>
    rw [queue_of_get hget] at h
    obtain ⟨waiter, hmem⟩ := List.exists_mem_of_ne_nil _ h
    obtain rfl := ht.apart _ _ a (ht.own a waiter hmem) hget
    obtain ⟨b, hb⟩ := harrays a waiter hmem
    exact queue_ne_nil_of_mem hs hb

theorem AtRest.onAbort (h : AtRest [] s) {waiter : AdmissionWaiter} (hwaiter : waiter ∈ s.waiters)
    (hlistening : waiter.ticket ∈ s.listening) : AtRest [] (s.onAbort waiter) := by
  have hwaits := waits_onAbort hwaiter hlistening h.sane.waits
  have hsane : Sane (s.onAbort waiter) := ⟨hwaits, (indexes_onAbort s waiter).symm ▸ h.sane.keyed⟩
  obtain ⟨a, other, hmem, htickets⟩ := h.sane.waits.listening waiter.ticket hlistening
  obtain rfl := h.sane.waits.eq_of_ticket (h.sane.waits.known a other hmem) hwaiter htickets
  -- the waiter is taken out of its array, the array may go, and the waiter is answered
  have hframe : (s.onAbort other).serving = s.serving ∧ (s.onAbort other).calls = s.calls ∧
      (∀ b, ∀ w ∈ (s.onAbort other).array b, w ∈ s.array b) ∧
      (∀ runtimeId, (s.onAbort other).admittedTickets runtimeId = s.admittedTickets runtimeId) ∧
      ∀ runtimeId, ∀ ticket ∈ (s.onAbort other).pending runtimeId, ticket ∈ s.pending runtimeId := by
    have harray : ∀ b, ∀ w ∈ (s.shift a other ((s.array a).erase other)).array b, w ∈ s.array b :=
      fun b w hw ↦ ((h.sane.waits.mem_array_takeOut hmem).mp hw).1
    have hserving : (other :: s.serving).erase other = s.serving := List.erase_cons_head _ _
    rw [onAbort_eq h.sane.waits hmem]
    split_ifs
    · refine ⟨hserving, rfl, harray, fun runtimeId ↦ ?_, fun runtimeId ticket hticket ↦ (mem_pending_settle hticket).1⟩
      exact (admittedTickets_settle _ runtimeId).trans (by simp [WaitSettlement.isAdmitted]; rfl)
    · refine ⟨hserving, rfl, harray, fun runtimeId ↦ ?_, fun runtimeId ticket hticket ↦ (mem_pending_settle hticket).1⟩
      exact (admittedTickets_settle _ runtimeId).trans (by simp [WaitSettlement.isAdmitted]; rfl)
  obtain ⟨hserving, hcalls, harrays, hadmitted, hpending⟩ := hframe
  refine ⟨hsane, hserving.trans h.serving, fun runtimeId hout hqueue ↦ ?_, fun hclear ↦ ?_⟩
  · rw [indexes_onAbort]
    exact h.nobodyStranded runtimeId hout
      (queue_ne_nil_of_arrays h.sane.waits hwaits (fun b w hw ↦ ⟨b, harrays b w hw⟩) hqueue)
  · have horderly := h.orderly (hcalls ▸ hclear)
    exact horderly.of_frame hsane ((told_invariant ⟨fun _ ↦ 0, fun _ ↦ []⟩).onAbort s other hwaiter hlistening horderly.told)
      (results_onAbort s other) hadmitted hpending

theorem rejectAll_frame (waiters : List AdmissionWaiter) : ∀ s : AgentExecutionSessionRegistry,
    (∀ runtimeId, (s.rejectAll waiters).admittedTickets runtimeId = s.admittedTickets runtimeId) ∧
    ∀ runtimeId, ∀ ticket ∈ (s.rejectAll waiters).pending runtimeId, ticket ∈ s.pending runtimeId := by
  induction waiters with
  | nil => exact fun s ↦ ⟨fun _ ↦ rfl, fun _ _ hmem ↦ hmem⟩
  | cons waiter waiters ih =>
    intro s
    obtain ⟨hadmitted, hpending⟩ :=
      ih ((s.detachAdmissionWaiter waiter).settle waiter (.refused (.cleared waiter.runtimeId)))
    refine ⟨fun runtimeId ↦ ?_, fun runtimeId ticket hticket ↦ ?_⟩
    · refine (hadmitted runtimeId).trans ((admittedTickets_settle _ runtimeId).trans ?_)
      simp [WaitSettlement.isAdmitted]
      rfl
    · exact (mem_pending_settle (hpending runtimeId ticket hticket)).1

theorem AtRest.clear (h : AtRest [] s) : AtRest [] s.clear := by
  have hsane : Sane s.clear :=
    ⟨waits_clear h.sane.waits, (keyed_invariant ⟨fun _ ↦ 0, fun _ ↦ []⟩).clear s h.sane.keyed⟩
  obtain ⟨hresults, -, -, hcalls, -⟩ := clear_records s
  obtain ⟨-, hserving, -⟩ := rejectAll_eq s.allWaiters { s with indexes := .init } fun waiter _ hmem ↦ by
    rw [h.serving] at hmem
    exact absurd hmem List.not_mem_nil
  obtain ⟨hadmitted, hpending⟩ := rejectAll_frame s.allWaiters { s with indexes := .init }
  refine ⟨hsane, ?_, fun runtimeId _ hqueue ↦ absurd rfl hqueue, fun hclear ↦ ?_⟩
  · exact hserving.trans h.serving
  · have horderly := h.orderly (hcalls ▸ hclear)
    exact horderly.of_frame hsane ((told_invariant ⟨fun _ ↦ 0, fun _ ↦ []⟩).clear s horderly.told) hresults
      hadmitted hpending

theorem AtRest.enqueue (h : AtRest [] s) (hserved : Served s.nextTicket t) (ht : AtRest [] t)
    (waiter : AdmissionWaiter) (hticket : waiter.ticket = s.tickets) :
    AtRest [waiter.runtimeId] (t.enqueue (s.admissionWaiters.get waiter.runtimeId) waiter) := by
  obtain ⟨a, hjoins⟩ := joins_enqueue h.sane.waits hserved ht.sane.waits waiter
  have hwaits := waits_enqueue h.sane.waits hserved ht.sane.waits hticket
  have hsane : Sane (t.enqueue (s.admissionWaiters.get waiter.runtimeId) waiter) :=
    ⟨hwaits, (indexes_enqueue t _ waiter).symm ▸ ht.sane.keyed⟩
  have htold := (told_invariant ⟨fun _ ↦ 0, fun _ ↦ []⟩).enqueue s t waiter
  generalize s.admissionWaiters.get waiter.runtimeId = queued at hjoins hwaits hsane htold
  have hframe : (t.enqueue queued waiter).waiters = t.waiters ++ [waiter] ∧
      (t.enqueue queued waiter).settled = t.settled ∧ (t.enqueue queued waiter).serving = t.serving ∧
      (t.enqueue queued waiter).calls = t.calls := by
    cases queued <;> exact ⟨rfl, rfl, rfl, rfl⟩
  obtain ⟨hwaiters, hsettled, hserving, hcalls⟩ := hframe
  refine ⟨hsane, hserving.trans ht.serving, fun runtimeId howed hqueue ↦ ?_, fun hclear ↦ ?_⟩
  · rw [indexes_enqueue]
    apply ht.nobodyStranded runtimeId List.not_mem_nil
    -- the arrays of the other runtimes are as they were
    match hget : (t.enqueue queued waiter).admissionWaiters.get runtimeId with
    | none => exact absurd (queue_of_none hget) hqueue
    | some b =>
      rw [queue_of_get hget] at hqueue
      obtain ⟨other, hmem⟩ := List.exists_mem_of_ne_nil _ hqueue
      have hother := hwaits.apart _ _ b (hwaits.own b other hmem) hget
      rcases hjoins.mem_array.mp hmem with hmem | ⟨-, heq⟩
      · rw [← hother]
        exact queue_ne_nil_of_mem ht.sane.waits hmem
      · rw [heq] at hother
        exact absurd (List.mem_singleton.mpr hother.symm) howed
  · have horderly := ht.orderly (hcalls ▸ hclear)
    have hadmitted : ∀ runtimeId, (t.enqueue queued waiter).admittedTickets runtimeId = t.admittedTickets runtimeId := by
      intro runtimeId
      rw [admittedTickets, hsettled, admittedTickets]
    refine ⟨hsane, ?_, ⟨?_, fun runtimeId ↦ ?_, ?_⟩, ?_⟩
    · have hkeyed : (t.enqueue queued waiter).indexes.Keyed := hsane.keyed
      refine ⟨hkeyed, fun hsound ↦ ?_⟩
      rw [indexes_enqueue]
      exact horderly.told.coherent (results_enqueue t queued waiter ▸ hsound)
    · exact (results_enqueue t queued waiter).symm ▸ horderly.inOrder.calls
    · rw [hadmitted]
      exact horderly.inOrder.admitted runtimeId
    · intro runtimeId ticket hmem other hother
      rw [hadmitted] at hmem
      obtain ⟨pending, hpending, hid, hopen, rfl⟩ := mem_pending.mp hother
      rw [isSettled, hsettled] at hopen
      rw [hwaiters] at hpending
      rcases List.mem_append.mp hpending with hpending | hpending
      · exact horderly.inOrder.ahead runtimeId ticket hmem _ (mem_pending.mpr ⟨pending, hpending, hid, hopen, rfl⟩)
      · -- the new waiter has called last
        obtain ⟨entry, hentry, rfl⟩ := List.mem_map.mp hmem
        have hknown := ht.sane.waits.settledKnown _ (List.mem_map_of_mem (List.mem_of_mem_filter hentry))
        rw [hserved.waiters] at hknown
        rw [List.mem_singleton.mp hpending, hticket]
        exact h.sane.waits.issued _ hknown
    · rw [Single, results_enqueue]
      exact horderly.single

/-- Whoever finds its runtime free, or admitted for the same run, comes before nobody. -/
theorem AtRest.admitWhenAvailable (host : AdmissionHost) (h : AtRest [] s) (input : EvalAdmissionInput)
    (signal : Option ℕ) : AtRest [] (s.admitWhenAvailable host input signal).2 := by
  have hserved : Served s.nextTicket (s.nextTicket.resolve host input.executor.runtimeId).2 := served_resolve _
  have hresolved := h.nextTicket.resolve host input.executor.runtimeId
  rw [AgentExecutionSessionRegistry.admitWhenAvailable]
  generalize s.nextTicket.resolve host input.executor.runtimeId = resolved at hserved hresolved
  obtain ⟨fact, u⟩ := resolved
  have hnobody : ∀ v, Served u v → Sane v → u.queue input.executor.runtimeId = [] →
      v.pending input.executor.runtimeId = [] := by
    intro v hv hsane hqueue
    refine pending_eq_nil hsane.waits (hv.queue_eq_nil hqueue) fun waiter hmem ↦ ?_
    rw [hv.serving, hresolved.serving] at hmem
    exact absurd hmem List.not_mem_nil
  simp only
  split_ifs with hfree
  · apply hresolved.admitTicket
    intro v hv hsane hne hkept k _ other hother
    suffices hqueue : u.queue input.executor.runtimeId = [] by
      rw [hnobody v hv hsane hqueue] at hother
      exact absurd hother List.not_mem_nil
    rcases hfree with ⟨hempty, -⟩ | ⟨-, hsame⟩
    · cases hget : u.admissionWaiters.get input.executor.runtimeId with
      | none => exact queue_of_none hget
      | some a =>
        have hqueued : s.admissionWaiters.get input.executor.runtimeId = some a := hserved.queues _ a hget
        rw [hqueued, Option.elim_some, decide_eq_true_iff] at hempty
        rw [queue_of_get hget, hempty]
    · refine hkept.resolve_left fun hindexes ↦ hne ?_
      rw [hindexes, hsame]
  · exact hresolved
  · exact (h.enqueue hserved hresolved ⟨s.tickets, input, signal⟩ rfl).drain host

theorem AtRest.generic (host : AdmissionHost) (h : AtRest [] s) {x : AdmissionIndexes} {uuids : ℕ}
    (hsame : SameEvals s.indexes x) (hle : s.uuids ≤ uuids) :
    AtRest [] { s with indexes := x, uuids := uuids } := by
  apply h.indexes
  · exact (keyed_invariant host).generic s x uuids hsame hle h.sane.keyed
  · exact (told_invariant host).generic s x uuids hsame hle
  · intro runtimeId _
    rw [hsame.activeRunByRuntime]

theorem AtRest.removeGeneric (host : AdmissionHost) (h : AtRest [] s) (fact : ExecutionAdmissionFact) :
    AtRest [] { s.tick with indexes := s.indexes.removeGeneric fact } :=
  h.tick.generic host ⟨rfl, rfl, rfl, rfl, rfl⟩ (Nat.le_refl s.uuids)

theorem AtRest.admitGeneric (host : AdmissionHost) (h : AtRest [] s) (input : AdmissionInput)
    (expiresAt : Option ℕ) : AtRest [] (s.admitGeneric host input expiresAt).2 := by
  rw [AgentExecutionSessionRegistry.admitGeneric]
  split
  · exact h.tick.generic host ⟨rfl, rfl, rfl, rfl, rfl⟩ (Nat.le_add_right _ 2)
  · rename_i existing _
    split_ifs
    · exact (h.removeGeneric host existing).tick.generic host ⟨rfl, rfl, rfl, rfl, rfl⟩ (Nat.le_add_right _ 2)
    · exact h.tick
    · exact h.tick

theorem AtRest.resolveInvocation (host : AdmissionHost) (h : AtRest [] s) (runtimeId nonce : JsString) :
    AtRest [] (s.resolveInvocation host runtimeId nonce).2 := by
  rw [AgentExecutionSessionRegistry.resolveInvocation]
  split
  · exact h
  · split_ifs
    · exact h.resolve host runtimeId
    · exact h.removeGeneric host _
    · exact h.tick
    · exact h.tick

theorem atRest_init : AtRest [] init where
  sane := ⟨waits_init, List.nodup_nil, fun _ _ hget ↦ (nomatch hget), fun _ _ hget ↦ (nomatch hget)⟩
  serving := rfl
  nobodyStranded _ _ hqueue := absurd rfl hqueue
  orderly _ :=
    { sane := ⟨waits_init, List.nodup_nil, fun _ _ hget ↦ (nomatch hget), fun _ _ hget ↦ (nomatch hget)⟩
      told := ⟨⟨List.nodup_nil, fun _ _ hget ↦ (nomatch hget), fun _ _ hget ↦ (nomatch hget)⟩,
        fun _ _ _ hget ↦ (nomatch hget)⟩
      inOrder :=
        { calls := fun _ hmem ↦ absurd hmem List.not_mem_nil
          admitted := fun _ ↦ List.Pairwise.nil
          ahead := fun _ _ hmem ↦ absurd hmem List.not_mem_nil }
      single := fun _ _ hmem ↦ absurd hmem List.not_mem_nil }

theorem AtRest.step (h : AtRest [] s) {event : Event} (hstep : step host s event = some s') : AtRest [] s' := by
  match event with
  | .admitEval input =>
    rw [← Option.some.inj hstep]
    exact h.admitEval host input
  | .admitWhenAvailable input signal =>
    rw [← Option.some.inj hstep]
    exact h.admitWhenAvailable host input signal
  | .admitExecution input expiresAt =>
    rw [← Option.some.inj hstep, admitExecution]
    split
    · exact h.admitEval host _
    · exact h.admitGeneric host input expiresAt
  | .resolve runtimeId =>
    rw [← Option.some.inj hstep]
    exact h.resolve host runtimeId
  | .resolveInvocation runtimeId nonce =>
    rw [← Option.some.inj hstep]
    exact h.resolveInvocation host runtimeId nonce
  | .close runtimeId runId =>
    rw [← Option.some.inj hstep]
    exact h.close host runtimeId runId
  | .discard runtimeId runId =>
    rw [← Option.some.inj hstep]
    exact h.discard host runtimeId runId
  | .markTestContext contextId policy =>
    rw [← Option.some.inj hstep, markTestContext]
    split
    · rename_i marked hmarked
      apply h.indexes
      · exact (keyed_invariant host).mark s contextId policy marked hmarked h.sane.keyed
      · exact (told_invariant host).mark s contextId policy marked hmarked
      · obtain ⟨contexts, rfl⟩ := AdmissionIndexes.markTestContext_eq_ok hmarked
        exact fun _ _ ↦ rfl
    · exact h
  | .abort signal =>
    rw [← Option.some.inj hstep]
    have hsane : Sane { s with aborted := s.aborted ++ [signal] } := ⟨{ h.sane.waits with }, h.sane.keyed⟩
    refine ⟨hsane, h.serving, h.nobodyStranded, fun hclear ↦ ?_⟩
    have horderly := h.orderly hclear
    exact horderly.of_frame hsane ⟨horderly.told.keyed, horderly.told.coherent⟩ rfl (fun _ ↦ rfl) fun _ _ hmem ↦ hmem
  | .onAbort waiter =>
    obtain ⟨⟨hmem, hlistening, -⟩, heq⟩ := Option.ite_none_right_eq_some.mp hstep
    rw [← Option.some.inj heq]
    exact h.onAbort hmem hlistening
  | .clear =>
    rw [← Option.some.inj hstep]
    exact h.clear

theorem atRest_reachable {ok : AgentExecutionSessionRegistry → Event → Bool}
    (hreachable : Transition.Reachable (AgentExecutionSessionRegistry.step host) ok init s) : AtRest [] s :=
  hreachable.invariant atRest_init fun _ _ _ h _ hstep ↦ h.step hstep

end

end AgentExecutionSessionRegistry

end Vibestudio.Server

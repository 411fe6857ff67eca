import Mathlib
import Vibestudio.Server.AgentExecutionSessionRegistry

/-!
# Serving the waiters

The rules by which something is shown of `drainLoop` and of all that it starts. `Served` is what serving can do to the
registry whatever the waiters ask for: it takes waiters out of arrays and answers them, and puts nobody in. A relation
that every single write satisfies, and that holds across one round of the loop if it holds across the serving within it,
holds across the whole loop (`ServingRule.drainLoop`); so does an invariant of the writes (`ServingInvariant`).
-/

namespace Vibestudio.Server

open Js

namespace AgentExecutionSessionRegistry

variable {host : AdmissionHost} {s s' t : AgentExecutionSessionRegistry}
  {drain : JsString → AgentExecutionSessionRegistry → AgentExecutionSessionRegistry}

/-! ## Arrays -/

theorem array_setArray (id a : ℕ) (waiters : List AdmissionWaiter) (h : id < s.arrays.length) :
    (s.setArray id waiters).array a = if a = id then waiters else s.array a := by
  rw [array, array, setArray, List.getD_eq_getElem?_getD, List.getD_eq_getElem?_getD, List.getElem?_set]
  by_cases ha : id = a
  · subst ha
    rw [if_pos rfl, if_pos rfl, if_pos h]
    rfl
  · rw [if_neg ha, if_neg (Ne.symm ha)]

/-- An array with waiters in it is there. -/
theorem lt_length_of_array {a : ℕ} {waiter : AdmissionWaiter} (h : waiter ∈ s.array a) :
    a < s.arrays.length := by
  by_contra hlt
  rw [array, List.getD_eq_default _ _ (Nat.le_of_not_lt hlt)] at h
  exact List.not_mem_nil h

theorem array_shift {a b : ℕ} {waiter : AdmissionWaiter} {rest : List AdmissionWaiter}
    (h : s.array a = waiter :: rest) :
    (s.shift a waiter rest).array b = if b = a then rest else s.array b := by
  have hlt : a < s.arrays.length := lt_length_of_array (h ▸ List.mem_cons_self)
  exact array_setArray a b rest hlt

theorem waiting_shift {a : ℕ} {waiter : AdmissionWaiter} {rest : List AdmissionWaiter}
    (h : s.array a = waiter :: rest) : (s.shift a waiter rest).waiting + 1 = s.waiting := by
  have hlt : a < s.arrays.length := lt_length_of_array (h ▸ List.mem_cons_self)
  have hget : s.arrays[a] = waiter :: rest := by
    rw [array, List.getD_eq_getElem _ _ hlt] at h
    exact h
  change ((s.arrays.set a rest).map List.length).sum + 1 = (s.arrays.map List.length).sum
  conv_rhs => rw [← List.set_getElem_self hlt, hget]
  rw [List.map_set, List.map_set, List.sum_set, List.sum_set]
  simp only [List.length_map, hlt, if_true, List.length_cons]
  omega

/-! ## What serving does -/

/-- What serving can do, whoever waits. -/
structure Served (s s' : AgentExecutionSessionRegistry) : Prop where
  serving : s'.serving = s.serving
  waiters : s'.waiters = s.waiters
  tickets : s'.tickets = s.tickets
  aborted : s'.aborted = s.aborted
  queues : ∀ runtimeId a, s'.admissionWaiters.get runtimeId = some a →
    s.admissionWaiters.get runtimeId = some a
  arrays : ∀ a, s'.array a <:+ s.array a
  length : s'.arrays.length = s.arrays.length
  listening : s'.listening ⊆ s.listening
  settled : s.settled <+: s'.settled
  calls : s.calls <+: s'.calls
  results : s.results <+: s'.results
  waiting : s'.waiting ≤ s.waiting

theorem Served.refl (s : AgentExecutionSessionRegistry) : Served s s :=
  ⟨rfl, rfl, rfl, rfl, fun _ _ h ↦ h, fun _ ↦ List.suffix_rfl, rfl, fun _ h ↦ h, List.prefix_rfl,
    List.prefix_rfl, List.prefix_rfl, le_rfl⟩

theorem Served.trans (h : Served s t) (h' : Served t s') : Served s s' where
  serving := h'.serving.trans h.serving
  waiters := h'.waiters.trans h.waiters
  tickets := h'.tickets.trans h.tickets
  aborted := h'.aborted.trans h.aborted
  queues runtimeId a hget := h.queues runtimeId a (h'.queues runtimeId a hget)
  arrays a := (h'.arrays a).trans (h.arrays a)
  length := h'.length.trans h.length
  listening _ hmem := h.listening (h'.listening hmem)
  settled := h.settled.trans h'.settled
  calls := h.calls.trans h'.calls
  results := h.results.trans h'.results
  waiting := h'.waiting.trans h.waiting

theorem served_sweepRuntime (runtimeId : JsString) (now : ℕ) : Served s (s.sweepRuntime runtimeId now) :=
  { Served.refl s with }

theorem served_beginAdmit (ticket : Option ℕ) (input : EvalAdmissionInput) : Served s (s.beginAdmit host ticket input) :=
  { Served.refl s with calls := List.prefix_append _ _ }

theorem served_conclude (ticket : Option ℕ) (input : EvalAdmissionInput) (issuedAt : ℕ)
    (retained : Option ExecutionAdmissionFact) : Served s (s.conclude host ticket input issuedAt retained).2 :=
  { Served.refl s with results := List.prefix_append _ _ }

theorem served_dropQueue (runtimeId : JsString) : Served s (s.dropQueue runtimeId) :=
  { Served.refl s with
    queues := by
      intro runtimeId' a hget
      change JsMap.get runtimeId' (s.admissionWaiters.delete runtimeId) = some a at hget
      rw [JsMap.get_delete] at hget
      exact (Option.ite_none_left_eq_some.mp hget).2 }

/-- One round: what is taken out of an array is answered in the end. -/
theorem served_round {a : ℕ} {waiter : AdmissionWaiter} {rest : List AdmissionWaiter}
    (h : s.array a = waiter :: rest) (hserved : Served (s.shift a waiter rest) t) (settlement : WaitSettlement) :
    Served s (t.settle waiter settlement) where
  serving := by
    change t.serving.erase waiter = s.serving
    rw [hserved.serving]
    exact List.erase_cons_head waiter s.serving
  waiters := hserved.waiters
  tickets := hserved.tickets
  aborted := hserved.aborted
  queues := hserved.queues
  arrays b := by
    refine (hserved.arrays b).trans ?_
    rw [array_shift h]
    by_cases hb : b = a
    · subst hb
      rw [if_pos rfl, h]
      exact List.suffix_cons _ _
    · rw [if_neg hb]
  length := hserved.length.trans List.length_set
  listening := fun _ hmem ↦ List.mem_of_mem_filter (hserved.listening hmem)
  settled := hserved.settled.trans (List.prefix_append _ _)
  calls := hserved.calls
  results := hserved.results
  waiting := hserved.waiting.trans (Nat.le_of_succ_le (waiting_shift h).le)

/-! ## The rules -/

/-- What `admit` goes on with after it has resolved its runtime: no fact, or one that is live in the indexes at hand. -/
def Retains (s : AgentExecutionSessionRegistry) (runtimeId : JsString) (now : ℕ)
    (retained : Option ExecutionAdmissionFact) : Prop :=
  ∀ fact ∈ retained, s.indexes.lookup runtimeId now = .live fact

/-- A relation that holds across every write, and across a round of the loop if it does across the serving in it. -/
structure ServingRule (host : AdmissionHost)
    (R : AgentExecutionSessionRegistry → AgentExecutionSessionRegistry → Prop) : Prop where
  refl : ∀ s, R s s
  trans : ∀ s t s', R s t → R t s' → R s s'
  sweep : ∀ s runtimeId now, R s (s.sweepRuntime runtimeId now)
  beginAdmit : ∀ s ticket input, R s (s.beginAdmit host ticket input)
  conclude : ∀ s ticket input issuedAt retained, Retains s input.executor.runtimeId issuedAt retained →
    R s (s.conclude host ticket input issuedAt retained).2
  dropQueue : ∀ s runtimeId a, s.array a = [] →
    (∀ b, s.admissionWaiters.get runtimeId = some b → b = a) → R s (s.dropQueue runtimeId)
  round : ∀ s t a waiter rest settlement, s.array a = waiter :: rest → Served (s.shift a waiter rest) t →
    R (s.shift a waiter rest) t → R s (t.settle waiter settlement)

theorem lookup_live_of_retained {x : AdmissionIndexes} {runtimeId : JsString} {now : ℕ}
    {fact : ExecutionAdmissionFact} (h : (x.lookup runtimeId now).retained = some fact) :
    x.lookup runtimeId now = .live fact := by
  match hfound : x.lookup runtimeId now with
  | .absent | .expired _ | .revoked _ =>
    rw [hfound] at h
    exact nomatch h
  | .live fact' =>
    rw [hfound] at h
    rw [Option.some.inj h]

/-- A live runtime is resolved without a write. -/
theorem resolveAt_of_live {runtimeId : JsString} {now : ℕ} {fact : ExecutionAdmissionFact}
    (h : s.indexes.lookup runtimeId now = .live fact) : s.resolveAt drain runtimeId now = (some fact, s) := by
  rw [resolveAt, sweepRuntime, AdmissionIndexes.sweep, h]
  simp [AdmissionIndexes.Lookup.retained]

theorem retains_resolveAt (runtimeId : JsString) (now : ℕ) :
    Retains (s.resolveAt drain runtimeId now).2 runtimeId now (s.resolveAt drain runtimeId now).1 := by
  intro fact hfact
  have hlive := lookup_live_of_retained hfact
  rw [resolveAt_of_live hlive]
  exact hlive

namespace ServingRule

variable {R : AgentExecutionSessionRegistry → AgentExecutionSessionRegistry → Prop}

theorem foldl (h : ServingRule host R) (hdrain : ∀ runtimeId s, R s (drain runtimeId s))
    (runtimeIds : List JsString) : ∀ s, R s (runtimeIds.foldl (fun s runtimeId ↦ drain runtimeId s) s) := by
  induction runtimeIds with
  | nil => exact h.refl
  | cons runtimeId runtimeIds ih => exact fun s ↦ h.trans _ _ _ (hdrain runtimeId s) (ih _)

theorem resolveAt (h : ServingRule host R) (hdrain : ∀ runtimeId s, R s (drain runtimeId s))
    (s : AgentExecutionSessionRegistry) (runtimeId : JsString) (now : ℕ) :
    R s (s.resolveAt drain runtimeId now).2 :=
  h.trans _ _ _ (h.sweep s runtimeId now) (h.foldl hdrain _ _)

theorem admitWith (h : ServingRule host R) (hdrain : ∀ runtimeId s, R s (drain runtimeId s))
    (s : AgentExecutionSessionRegistry) (ticket : Option ℕ) (input : EvalAdmissionInput) :
    R s (s.admitWith host drain ticket input).2 := by
  have hresolved := h.resolveAt hdrain (s.beginAdmit host ticket input) input.executor.runtimeId
    (host.clock s.readings)
  refine h.trans _ _ _ (h.beginAdmit s ticket input) (h.trans _ _ _ hresolved ?_)
  exact h.conclude _ ticket input _ _ (retains_resolveAt _ _)

end ServingRule

theorem servingRule_served (host : AdmissionHost) : ServingRule host Served where
  refl := .refl
  trans _ _ _ h h' := h.trans h'
  sweep _ runtimeId now := served_sweepRuntime runtimeId now
  beginAdmit _ ticket input := served_beginAdmit ticket input
  conclude _ ticket input issuedAt retained _ := served_conclude ticket input issuedAt retained
  dropQueue _ runtimeId _ _ _ := served_dropQueue runtimeId
  round _ _ _ _ _ settlement h _ hserved := served_round h hserved settlement

/-- The array is the one under the runtime, if there is one. -/
def Captured (s : AgentExecutionSessionRegistry) (runtimeId : JsString) (a : ℕ) : Prop :=
  ∀ b, s.admissionWaiters.get runtimeId = some b → b = a

theorem Captured.served {runtimeId : JsString} {a : ℕ} (h : s.Captured runtimeId a) (hserved : Served s s') :
    s'.Captured runtimeId a := fun b hget ↦ h b (hserved.queues runtimeId b hget)

theorem drainUnless_cases (loop : JsString → ℕ → AgentExecutionSessionRegistry → AgentExecutionSessionRegistry)
    (runtimeId : JsString) (s : AgentExecutionSessionRegistry) :
    (drainUnless loop runtimeId s = s ∧ ((s.indexes.activeRunByRuntime.get runtimeId).isSome = true ∨
      s.admissionWaiters.get runtimeId = none)) ∨
    ∃ a, s.admissionWaiters.get runtimeId = some a ∧ drainUnless loop runtimeId s = loop runtimeId a s := by
  rw [drainUnless]
  split_ifs with hactive
  · exact .inl ⟨rfl, .inl hactive⟩
  · split
    · rename_i hnone
      exact .inl ⟨rfl, .inr hnone⟩
    · rename_i a ha
      exact .inr ⟨a, ha, rfl⟩

theorem captured_of_get {runtimeId : JsString} {a : ℕ} (h : s.admissionWaiters.get runtimeId = some a) :
    s.Captured runtimeId a := by
  intro b hb
  rw [h, Option.some.injEq] at hb
  exact hb.symm

theorem served_admitted {runtimeId : JsString} {a : ℕ} {waiter : AdmissionWaiter} {rest : List AdmissionWaiter}
    (h : s.array a = waiter :: rest) (hserved : Served (s.shift a waiter rest) t)
    (fact : ExecutionAdmissionFact) : Served s (t.admitted runtimeId a waiter fact) := by
  rw [admitted]
  apply served_round h
  split_ifs
  · exact hserved.trans (served_dropQueue runtimeId)
  · exact hserved

section rounds

variable {fuel : ℕ} {runtimeId : JsString} {a : ℕ} {waiter : AdmissionWaiter} {rest : List AdmissionWaiter}

theorem drainLoop_nil (h : s.array a = []) :
    drainLoop host (fuel + 1) runtimeId a s = s.dropQueue runtimeId := by
  rw [drainLoop, h]

theorem drainLoop_aborted (h : s.array a = waiter :: rest) (haborted : s.isAborted waiter.signal = true) :
    drainLoop host (fuel + 1) runtimeId a s = drainLoop host fuel runtimeId a
      ((s.shift a waiter rest).settle waiter (.refused (.cancelled runtimeId))) := by
  rw [drainLoop, h]
  exact if_pos haborted

theorem drainLoop_ok (h : s.array a = waiter :: rest) (haborted : s.isAborted waiter.signal ≠ true)
    {fact : ExecutionAdmissionFact}
    (hadmission : (s.shift a waiter rest).admitWith host (drainUnless (drainLoop host fuel)) (some waiter.ticket)
      waiter.input = (.ok fact, t)) :
    drainLoop host (fuel + 1) runtimeId a s = t.admitted runtimeId a waiter fact := by
  rw [drainLoop, h]
  refine (if_neg haborted).trans ?_
  rw [hadmission]

theorem drainLoop_error (h : s.array a = waiter :: rest) (haborted : s.isAborted waiter.signal ≠ true)
    {error : AdmissionError}
    (hadmission : (s.shift a waiter rest).admitWith host (drainUnless (drainLoop host fuel)) (some waiter.ticket)
      waiter.input = (.error error, t)) :
    drainLoop host (fuel + 1) runtimeId a s =
      drainLoop host fuel runtimeId a (t.settle waiter (.refused error)) := by
  rw [drainLoop, h]
  refine (if_neg haborted).trans ?_
  rw [hadmission]

end rounds

/-- **The rule of the loop.** The induction is on the rounds; what a round starts has one round less. -/
theorem ServingRule.drainLoop {R : AgentExecutionSessionRegistry → AgentExecutionSessionRegistry → Prop}
    (h : ServingRule host R) : ∀ fuel runtimeId a s, s.Captured runtimeId a →
      R s (drainLoop host fuel runtimeId a s) ∧ Served s (drainLoop host fuel runtimeId a s) := by
  intro fuel
  induction fuel with
  | zero => exact fun _ _ s _ ↦ ⟨h.refl s, .refl s⟩
  | succ fuel ih =>
    intro runtimeId a s hcaptured
    have hdrain : ∀ runtimeId s, R s (drainUnless (AgentExecutionSessionRegistry.drainLoop host fuel) runtimeId s) ∧
        Served s (drainUnless (AgentExecutionSessionRegistry.drainLoop host fuel) runtimeId s) := by
      intro runtimeId s
      rcases drainUnless_cases (AgentExecutionSessionRegistry.drainLoop host fuel) runtimeId s with
        ⟨heq, -⟩ | ⟨b, hb, heq⟩
      · rw [heq]
        exact ⟨h.refl s, .refl s⟩
      · rw [heq]
        exact ih runtimeId b s (captured_of_get hb)
    match harray : s.array a with
    | [] =>
      rw [drainLoop_nil harray]
      exact ⟨h.dropQueue s runtimeId a harray hcaptured, served_dropQueue runtimeId⟩
    | waiter :: rest =>
      have hshift : (s.shift a waiter rest).Captured runtimeId a := hcaptured
      -- the rounds that follow on one that has answered its waiter
      have hnext : ∀ t settlement, Served (s.shift a waiter rest) t → R (s.shift a waiter rest) t →
          R s (AgentExecutionSessionRegistry.drainLoop host fuel runtimeId a (t.settle waiter settlement)) ∧
          Served s (AgentExecutionSessionRegistry.drainLoop host fuel runtimeId a (t.settle waiter settlement)) := by
        intro t settlement hserved hR
        have hround := served_round harray hserved settlement
        obtain ⟨hrest, hrest'⟩ := ih runtimeId a (t.settle waiter settlement) (hcaptured.served hround)
        exact ⟨h.trans _ _ _ (h.round s t a waiter rest settlement harray hserved hR) hrest, hround.trans hrest'⟩
      by_cases haborted : s.isAborted waiter.signal = true
      · rw [drainLoop_aborted harray haborted]
        exact hnext _ _ (.refl _) (h.refl _)
      · have hR := h.admitWith (fun runtimeId s ↦ (hdrain runtimeId s).1) (s.shift a waiter rest)
          (some waiter.ticket) waiter.input
        have hserved := (servingRule_served host).admitWith (fun runtimeId s ↦ (hdrain runtimeId s).2)
          (s.shift a waiter rest) (some waiter.ticket) waiter.input
        match hadmission : (s.shift a waiter rest).admitWith host
            (drainUnless (AgentExecutionSessionRegistry.drainLoop host fuel)) (some waiter.ticket) waiter.input with
        | (.ok fact, t) =>
          rw [hadmission] at hR hserved
          rw [drainLoop_ok harray haborted hadmission]
          refine ⟨?_, served_admitted harray hserved fact⟩
          rw [admitted]
          split_ifs with hempty
          · apply h.round s _ a waiter rest _ harray (hserved.trans (served_dropQueue runtimeId))
            exact h.trans _ _ _ hR (h.dropQueue t runtimeId a hempty (hshift.served hserved))
          · exact h.round s t a waiter rest _ harray hserved hR
        | (.error error, t) =>
          rw [hadmission] at hR hserved
          rw [drainLoop_error harray haborted hadmission]
          exact hnext t _ hserved hR

namespace ServingRule

variable {R : AgentExecutionSessionRegistry → AgentExecutionSessionRegistry → Prop}

theorem drainUnless (h : ServingRule host R) (fuel : ℕ) (runtimeId : JsString)
    (s : AgentExecutionSessionRegistry) :
    R s (AgentExecutionSessionRegistry.drainUnless (AgentExecutionSessionRegistry.drainLoop host fuel) runtimeId s) := by
  rcases drainUnless_cases (AgentExecutionSessionRegistry.drainLoop host fuel) runtimeId s with
    ⟨heq, -⟩ | ⟨b, hb, heq⟩
  · rw [heq]
    exact h.refl s
  · rw [heq]
    exact (h.drainLoop fuel runtimeId b s (captured_of_get hb)).1

theorem drainWaiters (h : ServingRule host R) (runtimeId : JsString) (s : AgentExecutionSessionRegistry) :
    R s (drainAdmissionWaiters host runtimeId s) := h.drainUnless _ runtimeId s

theorem resolve (h : ServingRule host R) (s : AgentExecutionSessionRegistry) (runtimeId : JsString) :
    R s.tick (s.resolve host runtimeId).2 := h.resolveAt h.drainWaiters s.tick runtimeId _

theorem admitTicket (h : ServingRule host R) (s : AgentExecutionSessionRegistry) (ticket : Option ℕ)
    (input : EvalAdmissionInput) : R s (s.admitTicket host ticket input).2 := h.admitWith h.drainWaiters s ticket input

end ServingRule

theorem served_drain (runtimeId : JsString) : Served s (drainAdmissionWaiters host runtimeId s) :=
  (servingRule_served host).drainWaiters runtimeId s

theorem served_tick : Served s s.tick := { Served.refl s with }

theorem served_resolve (runtimeId : JsString) : Served s (s.resolve host runtimeId).2 :=
  served_tick.trans ((servingRule_served host).resolve s runtimeId)

/-! ## The rounds suffice -/

theorem foldl_congr_of_waiting {drain' : JsString → AgentExecutionSessionRegistry → AgentExecutionSessionRegistry}
    {bound : ℕ} (hdrain : ∀ runtimeId s, s.waiting ≤ bound → drain runtimeId s = drain' runtimeId s)
    (hserved : ∀ runtimeId s, Served s (drain' runtimeId s)) (runtimeIds : List JsString) :
    ∀ s : AgentExecutionSessionRegistry, s.waiting ≤ bound →
      runtimeIds.foldl (fun s runtimeId ↦ drain runtimeId s) s =
        runtimeIds.foldl (fun s runtimeId ↦ drain' runtimeId s) s := by
  induction runtimeIds with
  | nil => exact fun _ _ ↦ rfl
  | cons runtimeId runtimeIds ih =>
    intro s hs
    rw [List.foldl_cons, List.foldl_cons, hdrain runtimeId s hs]
    exact ih _ ((hserved runtimeId s).waiting.trans hs)

/-- `admit` asks for the serving only of registries with no more waiters than it has. -/
theorem admitWith_congr (host : AdmissionHost) {drain' : JsString → AgentExecutionSessionRegistry → AgentExecutionSessionRegistry}
    (hdrain : ∀ runtimeId t, t.waiting ≤ s.waiting → drain runtimeId t = drain' runtimeId t)
    (hserved : ∀ runtimeId t, Served t (drain' runtimeId t)) (ticket : Option ℕ) (input : EvalAdmissionInput) :
    s.admitWith host drain ticket input = s.admitWith host drain' ticket input := by
  have hresolve : (s.beginAdmit host ticket input).resolveAt drain input.executor.runtimeId
      (host.clock s.readings) = (s.beginAdmit host ticket input).resolveAt drain' input.executor.runtimeId
      (host.clock s.readings) := by
    rw [resolveAt, resolveAt]
    exact congrArg (Prod.mk _) (foldl_congr_of_waiting hdrain hserved _ _ le_rfl)
  rw [admitWith, admitWith, hresolve]

/-- **One round more than there are waiters is enough**: with more rounds the loop does the same. -/
theorem drainLoop_fuel : ∀ (fuel fuel' : ℕ) (runtimeId : JsString) (a : ℕ) (s : AgentExecutionSessionRegistry),
    s.waiting < fuel → s.waiting < fuel' →
    drainLoop host fuel runtimeId a s = drainLoop host fuel' runtimeId a s := by
  intro fuel
  induction fuel with
  | zero => exact fun _ _ _ s h _ ↦ absurd h (Nat.not_lt_zero _)
  | succ fuel ih =>
    intro fuel' runtimeId a s hfuel hfuel'
    obtain ⟨fuel', rfl⟩ : ∃ n, fuel' = n + 1 := ⟨fuel' - 1, by omega⟩
    cases harray : s.array a with
    | nil => rw [drainLoop_nil harray, drainLoop_nil harray]
    | cons waiter rest =>
      have hshift := waiting_shift harray
      have hdrain : ∀ runtimeId t, t.waiting ≤ (s.shift a waiter rest).waiting →
          drainUnless (drainLoop host fuel) runtimeId t = drainUnless (drainLoop host fuel') runtimeId t := by
        intro runtimeId t ht
        rw [drainUnless, drainUnless]
        split_ifs
        · rfl
        · split
          · rfl
          · exact ih fuel' _ _ t (by omega) (by omega)
      have hrest : ∀ t settlement, Served (s.shift a waiter rest) t →
          drainLoop host fuel runtimeId a (t.settle waiter settlement) =
            drainLoop host fuel' runtimeId a (t.settle waiter settlement) := by
        intro t settlement hserved
        have hwaiting : (t.settle waiter settlement).waiting ≤ (s.shift a waiter rest).waiting := hserved.waiting
        exact ih fuel' _ _ _ (by omega) (by omega)
      by_cases haborted : s.isAborted waiter.signal = true
      · rw [drainLoop_aborted harray haborted, drainLoop_aborted harray haborted]
        exact hrest _ _ (.refl _)
      · have hcongr := admitWith_congr host hdrain
          ((servingRule_served host).drainUnless fuel') (some waiter.ticket) waiter.input
        have hserved := (servingRule_served host).admitWith ((servingRule_served host).drainUnless fuel')
          (s.shift a waiter rest) (some waiter.ticket) waiter.input
        rcases hadmission : (s.shift a waiter rest).admitWith host (drainUnless (drainLoop host fuel'))
            (some waiter.ticket) waiter.input with ⟨error | fact, t⟩
        · rw [hadmission] at hserved
          rw [drainLoop_error harray haborted hadmission, drainLoop_error harray haborted (hcongr.trans hadmission)]
          exact hrest t _ hserved
        · rw [drainLoop_ok harray haborted hadmission, drainLoop_ok harray haborted (hcongr.trans hadmission)]

/-! ## Invariants -/

/-- An invariant of the writes. -/
structure ServingInvariant (host : AdmissionHost) (P : AgentExecutionSessionRegistry → Prop) : Prop where
  sweep : ∀ s runtimeId now, P s → P (s.sweepRuntime runtimeId now)
  beginAdmit : ∀ s ticket input, P s → P (s.beginAdmit host ticket input)
  conclude : ∀ s ticket input issuedAt retained, Retains s input.executor.runtimeId issuedAt retained → P s →
    P (s.conclude host ticket input issuedAt retained).2
  dropQueue : ∀ s runtimeId a, s.array a = [] → s.Captured runtimeId a → P s → P (s.dropQueue runtimeId)
  shift : ∀ s a waiter rest, s.array a = waiter :: rest → P s → P (s.shift a waiter rest)
  settle : ∀ s waiter settlement, waiter ∈ s.serving → P s → P (s.settle waiter settlement)

theorem ServingInvariant.rule {P : AgentExecutionSessionRegistry → Prop} (h : ServingInvariant host P) :
    ServingRule host (fun s s' ↦ P s → P s') where
  refl _ hs := hs
  trans _ _ _ h h' hs := h' (h hs)
  sweep := h.sweep
  beginAdmit := h.beginAdmit
  conclude := h.conclude
  dropQueue := h.dropQueue
  round s t a waiter rest settlement harray hserved hP hs := by
    refine h.settle t waiter settlement ?_ (hP (h.shift s a waiter rest harray hs))
    rw [hserved.serving]
    exact List.mem_cons_self

/-- The maps that a generic admission leaves alone. -/
structure SameEvals (x y : AdmissionIndexes) : Prop where
  byRuntime : y.byRuntime = x.byRuntime
  activeRunByRuntime : y.activeRunByRuntime = x.activeRunByRuntime
  priorFactByActiveRuntime : y.priorFactByActiveRuntime = x.priorFactByActiveRuntime
  testPoliciesByContext : y.testPoliciesByContext = x.testPoliciesByContext
  orchestratorRuns : y.orchestratorRuns = x.orchestratorRuns

/-- An invariant of the writes of all methods. -/
structure RegistryInvariant (host : AdmissionHost) (P : AgentExecutionSessionRegistry → Prop) : Prop
    extends ServingInvariant host P where
  nextTicket : ∀ s, P s → P s.nextTicket
  tick : ∀ s, P s → P s.tick
  generic : ∀ s x uuids, SameEvals s.indexes x → s.uuids ≤ uuids → P s →
    P { s with indexes := x, uuids := uuids }
  enqueue : ∀ s t waiter, P s → Served s.nextTicket t → P t → waiter.ticket = s.tickets →
    P (t.enqueue (s.admissionWaiters.get waiter.runtimeId) waiter)
  onAbort : ∀ s waiter, waiter ∈ s.waiters → waiter.ticket ∈ s.listening → P s → P (s.onAbort waiter)
  close : ∀ s runtimeId, P s → P { s with indexes := s.indexes.close runtimeId }
  discard : ∀ s runtimeId, P s → P { s with indexes := s.indexes.discard runtimeId }
  mark : ∀ s contextId policy x, s.indexes.markTestContext contextId policy = .ok x → P s →
    P { s with indexes := x }
  abort : ∀ s signal, P s → P { s with aborted := s.aborted ++ [signal] }
  clear : ∀ s, P s → P s.clear

namespace RegistryInvariant

variable {P : AgentExecutionSessionRegistry → Prop}

theorem drainWaiters (h : RegistryInvariant host P) (runtimeId : JsString) (hs : P s) :
    P (drainAdmissionWaiters host runtimeId s) := h.rule.drainWaiters runtimeId s hs

theorem resolve (h : RegistryInvariant host P) (runtimeId : JsString) (hs : P s) :
    P (s.resolve host runtimeId).2 := h.rule.resolve s runtimeId (h.tick s hs)

theorem admitTicket (h : RegistryInvariant host P) (ticket : Option ℕ) (input : EvalAdmissionInput) (hs : P s) :
    P (s.admitTicket host ticket input).2 := h.rule.admitTicket s ticket input hs

theorem admitWhenAvailable (h : RegistryInvariant host P) (input : EvalAdmissionInput) (signal : Option ℕ)
    (hs : P s) : P (s.admitWhenAvailable host input signal).2 := by
  have hresolved := h.resolve input.executor.runtimeId (h.nextTicket s hs)
  rw [AgentExecutionSessionRegistry.admitWhenAvailable]
  split_ifs
  · exact h.admitTicket _ _ hresolved
  · exact hresolved
  · exact h.drainWaiters _ (h.enqueue s _ ⟨s.tickets, input, signal⟩ hs (served_resolve _) hresolved rfl)

theorem admitGeneric (h : RegistryInvariant host P) (input : AdmissionInput) (expiresAt : Option ℕ) (hs : P s) :
    P (s.admitGeneric host input expiresAt).2 := by
  have hremoved : ∀ existing, P { s.tick with indexes := s.indexes.removeGeneric existing } := fun existing ↦
    h.generic s.tick _ s.uuids ⟨rfl, rfl, rfl, rfl, rfl⟩ le_rfl (h.tick s hs)
  rw [AgentExecutionSessionRegistry.admitGeneric]
  split
  · exact h.generic s.tick _ _ ⟨rfl, rfl, rfl, rfl, rfl⟩ (Nat.le_add_right _ 2) (h.tick s hs)
  · rename_i existing _
    split_ifs
    · exact h.generic _ _ _ ⟨rfl, rfl, rfl, rfl, rfl⟩ (Nat.le_add_right _ 2) (h.tick _ (hremoved existing))
    · exact h.tick s hs
    · exact h.tick s hs

theorem resolveInvocation (h : RegistryInvariant host P) (runtimeId nonce : JsString) (hs : P s) :
    P (s.resolveInvocation host runtimeId nonce).2 := by
  rw [AgentExecutionSessionRegistry.resolveInvocation]
  split
  · exact hs
  · split_ifs
    · exact h.resolve runtimeId hs
    · exact h.generic s.tick _ s.uuids ⟨rfl, rfl, rfl, rfl, rfl⟩ le_rfl (h.tick s hs)
    · exact h.tick s hs
    · exact h.tick s hs

/-- **An invariant of the writes is one of the methods.** -/
theorem step (h : RegistryInvariant host P) {event : Event} (hs : P s) (hstep : step host s event = some s') :
    P s' := by
  match event with
  | .admitEval input =>
    rw [← Option.some.inj hstep]
    exact h.admitTicket _ _ hs
  | .admitWhenAvailable input signal =>
    rw [← Option.some.inj hstep]
    exact h.admitWhenAvailable input signal hs
  | .admitExecution input expiresAt =>
    rw [← Option.some.inj hstep, admitExecution]
    split
    · exact h.admitTicket _ _ hs
    · exact h.admitGeneric input expiresAt hs
  | .resolve runtimeId =>
    rw [← Option.some.inj hstep]
    exact h.resolve runtimeId hs
  | .resolveInvocation runtimeId nonce =>
    rw [← Option.some.inj hstep]
    exact h.resolveInvocation runtimeId nonce hs
  | .close runtimeId runId =>
    rw [← Option.some.inj hstep, AgentExecutionSessionRegistry.close]
    split
    · split_ifs
      · exact hs
      · exact h.drainWaiters runtimeId (h.close s runtimeId hs)
    · exact hs
  | .discard runtimeId runId =>
    rw [← Option.some.inj hstep, AgentExecutionSessionRegistry.discard]
    split_ifs
    · exact hs
    · exact h.drainWaiters runtimeId (h.discard s runtimeId hs)
  | .markTestContext contextId policy =>
    rw [← Option.some.inj hstep, markTestContext]
    split
    · rename_i marked hmarked
      exact h.mark s contextId policy marked hmarked hs
    · exact hs
  | .abort signal =>
    rw [← Option.some.inj hstep]
    exact h.abort s signal hs
  | .onAbort waiter =>
    obtain ⟨⟨hmem, hlistening, -⟩, heq⟩ := Option.ite_none_right_eq_some.mp hstep
    rw [← Option.some.inj heq]
    exact h.onAbort s waiter hmem hlistening hs
  | .clear =>
    rw [← Option.some.inj hstep]
    exact h.clear s hs

/-- From a state on. -/
theorem reachable (h : RegistryInvariant host P) {ok : AgentExecutionSessionRegistry → Event → Bool}
    (hs : P s) (hreachable : Transition.Reachable (AgentExecutionSessionRegistry.step host) ok s s') : P s' :=
  hreachable.invariant hs fun _ _ _ hs _ hstep ↦ h.step hs hstep

end RegistryInvariant

/-! ## The checks of `admit` -/

section checks

variable {active : Option JsString} {retained : Option ExecutionAdmissionFact} {input : EvalAdmissionInput}

theorem check_eq_replay {fact : ExecutionAdmissionFact} (h : check active retained input = .ok (some fact)) :
    retained = some fact ∧ active = some input.executor.evalRunId := by
  match retained, active with
  | none, _ => exact nomatch Except.ok.inj h
  | some prior, some activeRunId =>
    simp only [check] at h
    split at h
    · exact nomatch h
    · split_ifs at h with hrun
      obtain rfl := Option.some.inj (Except.ok.inj h)
      exact ⟨rfl, congrArg some hrun⟩
  | some prior, none =>
    simp only [check] at h
    split at h
    · exact nomatch h
    · split_ifs at h
      exact nomatch Except.ok.inj h

/-- A new fact is entered for a runtime without one, or for a free one whose trust unit is the same. -/
theorem check_eq_enter (h : check active retained input = .ok none) :
    ∀ fact ∈ retained, active = none ∧ trustUnitDrift fact input.admission = [] := by
  rintro fact rfl
  match active with
  | some activeRunId =>
    simp only [check] at h
    split at h
    · exact nomatch h
    · split_ifs at h
      exact nomatch Except.ok.inj h
  | none =>
    simp only [check] at h
    split at h
    · exact nomatch h
    · split_ifs at h with hdrift
      exact ⟨rfl, not_not.mp hdrift⟩

/-- How a call of `admit` ends. -/
theorem outcome_cases (host : AdmissionHost) (s : AgentExecutionSessionRegistry) (input : EvalAdmissionInput)
    (issuedAt : ℕ) (retained : Option ExecutionAdmissionFact) :
    (∃ error, s.outcome host input issuedAt retained = (.refuse error, s.indexes)) ∨
    (∃ fact, retained = some fact ∧ s.activeRun input.executor.runtimeId = some input.executor.evalRunId ∧
      s.outcome host input issuedAt retained = (.replay fact, s.indexes)) ∨
    ∃ fact, fact = newFact input retained issuedAt (host.randomUUID s.uuids) (host.randomUUID (s.uuids + 1)) ∧
      (∀ prior ∈ retained, s.activeRun input.executor.runtimeId = none ∧
        trustUnitDrift prior input.admission = []) ∧
      s.outcome host input issuedAt retained =
        (.enter fact (s.indexes.enter fact input.executor retained).1,
          (s.indexes.enter fact input.executor retained).2) := by
  rw [outcome]
  match hcheck : check (s.activeRun input.executor.runtimeId) retained input with
  | .error error => exact .inl ⟨error, rfl⟩
  | .ok (some fact) =>
    obtain ⟨hretained, hactive⟩ := check_eq_replay hcheck
    exact .inr (.inl ⟨fact, hretained, hactive, rfl⟩)
  | .ok none => exact .inr (.inr ⟨_, rfl, check_eq_enter hcheck, rfl⟩)

end checks

/-! ## The facts of the runtimes -/

theorem lookup_live {x : AdmissionIndexes} {runtimeId : JsString} {now : ℕ} {fact : ExecutionAdmissionFact}
    (h : x.lookup runtimeId now = .live fact) :
    x.byRuntime.get runtimeId = some fact ∧ now < fact.expiresAt ∧
      ∀ policy ∈ fact.policy, x.rootIsLive (orchestratorPolicyId policy) now = true := by
  rw [AdmissionIndexes.lookup] at h
  split at h
  · cases h
  · rename_i fact' hget
    split_ifs at h with hexpired
    split at h
    · rename_i hpolicy
      obtain rfl := AdmissionIndexes.Lookup.live.inj h
      refine ⟨hget, Nat.lt_of_not_le hexpired, fun policy hmem ↦ ?_⟩
      rw [hpolicy] at hmem
      cases hmem
    · rename_i policy hpolicy
      split_ifs at h with hroot
      obtain rfl := AdmissionIndexes.Lookup.live.inj h
      refine ⟨hget, Nat.lt_of_not_le hexpired, fun policy' hmem ↦ ?_⟩
      rw [hpolicy] at hmem
      obtain rfl := Option.some.inj hmem
      exact hroot

theorem indexes_enqueue (t : AgentExecutionSessionRegistry) (queued : Option ℕ) (waiter : AdmissionWaiter) :
    (t.enqueue queued waiter).indexes = t.indexes := by
  match queued with
  | none => rfl
  | some _ => rfl

theorem indexes_onAbort (s : AgentExecutionSessionRegistry) (waiter : AdmissionWaiter) :
    (s.onAbort waiter).indexes = s.indexes := by
  rw [AgentExecutionSessionRegistry.onAbort]
  simp only
  split
  · rfl
  · split_ifs
    · rfl
    · rfl

theorem indexes_clear (s : AgentExecutionSessionRegistry) : s.clear.indexes = .init := by
  change (s.allWaiters.foldl _ ({ s with indexes := .init } : AgentExecutionSessionRegistry)).indexes = _
  generalize s.allWaiters = waiters
  suffices h : ∀ t : AgentExecutionSessionRegistry, (waiters.foldl (fun s' waiter ↦
      (s'.detachAdmissionWaiter waiter).settle waiter (.refused (.cleared waiter.runtimeId))) t).indexes =
      t.indexes from h _
  induction waiters with
  | nil => exact fun _ ↦ rfl
  | cons waiter waiters ih => exact fun t ↦ ih _

/-- Every fact of a runtime is one of an eval of this runtime. -/
theorem keyed_invariant (host : AdmissionHost) : RegistryInvariant host fun s ↦ s.indexes.Keyed where
  sweep s runtimeId now h := (AdmissionIndexes.wiped_sweep (x := s.indexes) h runtimeId now).keyed h
  beginAdmit _ _ _ h := h
  conclude s ticket input issuedAt retained hretained h := by
    change (s.outcome host input issuedAt retained).2.Keyed
    rcases outcome_cases host s input issuedAt retained with ⟨_, heq⟩ | ⟨_, -, -, heq⟩ | ⟨fact, hfact, -, heq⟩
    · rw [heq]
      exact h
    · rw [heq]
      exact h
    · rw [heq]
      apply h.enter
      · rw [hfact]
        exact input.isEval
      · exact fun prior hprior ↦ (lookup_live (hretained prior hprior)).1
  dropQueue _ _ _ _ _ h := h
  shift _ _ _ _ _ h := h
  settle _ _ _ _ h := h
  nextTicket _ h := h
  tick _ h := h
  generic _ _ _ hsame _ h := by
    refine ⟨hsame.byRuntime ▸ h.nodup, fun runtimeId fact hget ↦ ?_, fun runtimeId fact hget ↦ ?_⟩
    · exact h.byRuntime runtimeId fact (hsame.byRuntime ▸ hget)
    · exact h.prior runtimeId fact (hsame.priorFactByActiveRuntime ▸ hget)
  enqueue _ _ _ _ _ h _ := (indexes_enqueue _ _ _).symm ▸ h
  onAbort s waiter _ _ h := (indexes_onAbort s waiter).symm ▸ h
  close _ runtimeId h := h.close runtimeId
  discard _ runtimeId h := h.discard runtimeId
  mark _ _ _ _ hmark h := by
    obtain ⟨contexts, rfl⟩ := AdmissionIndexes.markTestContext_eq_ok hmark
    exact ⟨h.nodup, h.byRuntime, h.prior⟩
  abort _ _ h := h
  clear s _ := (indexes_clear s).symm ▸
    ⟨List.nodup_nil, fun _ _ hget ↦ (nomatch hget), fun _ _ hget ↦ (nomatch hget)⟩

end AgentExecutionSessionRegistry

end Vibestudio.Server

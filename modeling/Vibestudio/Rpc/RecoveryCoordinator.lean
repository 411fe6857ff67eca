import Mathlib
import Vibestudio.Js.LiveMap
import Vibestudio.Js.Text

/-!
# The recovery coordinator

`packages/rpc/src/protocol/recoveryCoordinator.ts`. After a reconnect the handlers of one kind are
called one after the other; a resubscribe run has a generation. A handler that is registered late
gets the current generation in one of two ways: the run that is in progress iterates the map of
handlers live, so it meets whatever is added behind its position; and when the last generation has
completed, `register` calls the handler itself, in a microtask.

The runs are chained promises, so a run is a record with the run whose end it waits for (`after`),
and any run whose turn has come may start. What happens between two `await`s is one step
(`resume`). A call of a handler is only begun here; that it ends is an event of its own.

Between the two ways there is a gap: a handler registered during a run, in place of one that the run
has passed, is met by neither (`Passed`). The tests of the source state this as intended. The gap is
the only one (`bootstrapped_iff`).
-/

namespace Vibestudio.Rpc

open Js

inductive RecoveryKind where
  | resubscribe
  | coldRecover
deriving DecidableEq

/-- A handler; the object is told from others of its name by `id`. -/
structure Handler where
  id : ℕ
  name : JsString
  includeCurrentGeneration : Bool
deriving DecidableEq

/-- The iterator of `runHandlers`: of the map itself, or of a copy of its values. -/
inductive HandlerIterator where
  | live (start : ℕ)
  | snapshot (rest : List Handler)
deriving DecidableEq

inductive RunPhase where
  | waiting
  | calling (handler : Handler) (rest : HandlerIterator)
  | done
  | failed
deriving DecidableEq

/-- One promise of the queue; `after` is the one it is chained to. -/
structure RecoveryRun where
  kind : RecoveryKind
  generation : ℕ
  after : Option ℕ
  phase : RunPhase
deriving DecidableEq

/-- The promise of the run has settled. -/
def RecoveryRun.Ended (r : RecoveryRun) : Prop := r.phase = .done ∨ r.phase = .failed

instance (r : RecoveryRun) : Decidable r.Ended :=
  inferInstanceAs (Decidable (r.phase = .done ∨ r.phase = .failed))

/-- The bootstrap of a late handler: queued as a microtask, then checked and left to a promise. -/
inductive BootstrapStage where
  | queued
  | checked
deriving DecidableEq

structure Bootstrap where
  handler : Handler
  generation : ℕ
  stage : BootstrapStage
deriving DecidableEq

/-- A call of a handler: by a run, or as the bootstrap of a generation that is complete. -/
structure Invocation where
  handler : ℕ
  kind : RecoveryKind
  generation : ℕ
deriving DecidableEq

/-- The coordinator, with the calls made so far. -/
structure RecoveryCoordinator where
  handlers : RecoveryKind → LiveMap JsString Handler
  generation : ℕ
  completedGeneration : RecoveryKind → Option ℕ
  runs : List RecoveryRun
  queue : Option ℕ
  bootstraps : List Bootstrap
  created : ℕ
  invocations : List Invocation

namespace RecoveryCoordinator

def initial : RecoveryCoordinator where
  handlers := fun _ ↦ .empty
  generation := 0
  completedGeneration := fun _ ↦ none
  runs := []
  queue := none
  bootstraps := []
  created := 0
  invocations := []

section

variable (s : RecoveryCoordinator)

/-- `this.handlers[kind].get(handler.name) === handler`. -/
def isCurrent (kind : RecoveryKind) (handler : Handler) : Bool :=
  decide ((s.handlers kind).get handler.name = some handler)

/-- `register`; the options of a cold-recover handler are fixed by its own method. -/
def register (kind : RecoveryKind) (name : JsString) (includeCurrentGeneration : Bool) :
    RecoveryCoordinator :=
  let handler : Handler := ⟨s.created, name, includeCurrentGeneration⟩
  { s with
    handlers := Function.update s.handlers kind ((s.handlers kind).set name handler)
    created := s.created + 1
    bootstraps :=
      if kind = .resubscribe ∧ includeCurrentGeneration = true ∧
          s.completedGeneration kind = some s.generation then
        s.bootstraps ++ [⟨handler, s.generation, .queued⟩]
      else s.bootstraps }

/-- The function that `register` returns. -/
def unregister (kind : RecoveryKind) (handler : Handler) : RecoveryCoordinator :=
  if s.isCurrent kind handler then
    { s with handlers :=
        Function.update s.handlers kind ((s.handlers kind).delete handler.name) }
  else s

/-- `run(kind)`: a promise behind the last one. -/
def run (kind : RecoveryKind) : RecoveryCoordinator :=
  let generation := if kind = .resubscribe then s.generation + 1 else s.generation
  { s with
    generation := generation
    runs := s.runs ++ [⟨kind, generation, s.queue, .waiting⟩]
    queue := some s.runs.length }

/-- The next handler the loop calls, and the iterator behind it. -/
def visit (kind : RecoveryKind) : HandlerIterator → Option (Handler × HandlerIterator)
  | .live start => ((s.handlers kind).nextFrom start (s.isCurrent kind)).map fun e ↦
    (e.2.2, .live (e.2.1 + 1))
  | .snapshot rest =>
    match rest.dropWhile fun handler ↦ !s.isCurrent kind handler with
    | [] => none
    | handler :: rest => some (handler, .snapshot rest)

/-- `runHandlers` from one `await` to the next, or to the end. -/
def resume (i : ℕ) (r : RecoveryRun) (iterator : HandlerIterator) : RecoveryCoordinator :=
  match s.visit r.kind iterator with
  | some (handler, rest) =>
    { s with
      runs := s.runs.set i { r with phase := .calling handler rest }
      invocations := s.invocations ++ [⟨handler.id, r.kind, r.generation⟩] }
  | none =>
    { s with
      runs := s.runs.set i { r with phase := .done }
      completedGeneration := Function.update s.completedGeneration r.kind (some r.generation) }

/-- The iterator a run starts with. -/
def iterator : RecoveryKind → HandlerIterator
  | .resubscribe => .live 0
  | .coldRecover => .snapshot (s.handlers .coldRecover).values

/-- The promise a run is chained to has settled. -/
def Settled (after : Option ℕ) : Prop := ∀ j ∈ after, ∀ r ∈ s.runs[j]?, r.Ended

instance (after : Option ℕ) : Decidable (s.Settled after) :=
  inferInstanceAs (Decidable (∀ j ∈ after, ∀ r ∈ s.runs[j]?, r.Ended))

def start (i : ℕ) : RecoveryCoordinator :=
  match s.runs[i]? with
  | some r => if r.phase = .waiting ∧ s.Settled r.after then s.resume i r (s.iterator r.kind) else s
  | none => s

/-- The call a run is waiting for has ended. -/
def complete (i : ℕ) : RecoveryCoordinator :=
  match s.runs[i]? with
  | some r =>
    match r.phase with
    | .calling _ rest => s.resume i r rest
    | _ => s
  | none => s

/-- The call a run is waiting for has failed, and the run with it. -/
def fail (i : ℕ) : RecoveryCoordinator :=
  match s.runs[i]? with
  | some r =>
    match r.phase with
    | .calling _ _ => { s with runs := s.runs.set i { r with phase := .failed } }
    | _ => s
  | none => s

/-- One microtask of a late bootstrap. -/
def bootstrap (j : ℕ) : RecoveryCoordinator :=
  match s.bootstraps[j]? with
  | some ⟨handler, generation, .queued⟩ =>
    if s.isCurrent .resubscribe handler then
      { s with bootstraps := s.bootstraps.set j ⟨handler, generation, .checked⟩ }
    else { s with bootstraps := s.bootstraps.eraseIdx j }
  | some ⟨handler, generation, .checked⟩ =>
    { s with
      bootstraps := s.bootstraps.eraseIdx j
      invocations := s.invocations ++ [⟨handler.id, .resubscribe, generation⟩] }
  | none => s

/-- What can happen next. -/
inductive Event where
  | register (kind : RecoveryKind) (name : JsString) (includeCurrentGeneration : Bool)
  | unregister (kind : RecoveryKind) (handler : Handler)
  | run (kind : RecoveryKind)
  | start (i : ℕ)
  | complete (i : ℕ)
  | fail (i : ℕ)
  | bootstrap (j : ℕ)
deriving DecidableEq

def step : Event → RecoveryCoordinator
  | .register kind name includeCurrentGeneration => s.register kind name includeCurrentGeneration
  | .unregister kind handler => s.unregister kind handler
  | .run kind => s.run kind
  | .start i => s.start i
  | .complete i => s.complete i
  | .fail i => s.fail i
  | .bootstrap j => s.bootstrap j

/-- The coordinator after a sequence of events. -/
def after (events : List Event) : RecoveryCoordinator := events.foldl step initial

/-- No call of a handler fails. -/
def NoFailure (events : List Event) : Prop := ∀ i, Event.fail i ∉ events

/-- Nothing is left to do: every run has ended and no bootstrap is queued. -/
def Quiescent : Prop :=
  (∀ r ∈ s.runs, r.Ended) ∧ s.bootstraps = []

/-- A handler was called for a generation. -/
def Invoked (id generation : ℕ) : Prop := ⟨id, .resubscribe, generation⟩ ∈ s.invocations

/-- A resubscribe run of the generation is in progress and has passed the entry of the name. -/
def Passed (name : JsString) (generation : ℕ) : Prop :=
  ∃ r ∈ s.runs, r.kind = .resubscribe ∧ r.generation = generation ∧
    ∃ handler start, r.phase = .calling handler (.live start) ∧
      ∃ p old, (s.handlers .resubscribe).slot name = some (p, old) ∧ p < start

/-- No resubscribe run is waiting or in progress. -/
def NoneOutstanding : Prop :=
  ∀ r ∈ s.runs, r.kind = .resubscribe → r.Ended

end

/-! ## Runs never overlap -/

section

variable {s : RecoveryCoordinator} {i j : ℕ} {r r' : RecoveryRun} {iter : HandlerIterator}
  {phase : RunPhase}

/-- Every promise is chained to the one before it, and a run that has started has only runs before
it that have ended. -/
structure Chained (s : RecoveryCoordinator) : Prop where
  after_eq : ∀ (i : ℕ) (r : RecoveryRun), s.runs[i]? = some r → r.after = if i = 0 then none else some (i - 1)
  queue_eq : s.queue = if s.runs.length = 0 then none else some (s.runs.length - 1)
  before_ended : ∀ (i j : ℕ) (r r' : RecoveryRun), i < j → s.runs[i]? = some r → s.runs[j]? = some r' →
    r'.phase ≠ .waiting → r.Ended

/-- The run may go on: it has not ended and all runs before it have. -/
structure Ready (s : RecoveryCoordinator) (i : ℕ) (r : RecoveryRun) : Prop where
  get : s.runs[i]? = some r
  unended : ¬r.Ended
  before_ended : ∀ j < i, ∀ r', s.runs[j]? = some r' → r'.Ended

/-- What `resume` does to the runs: the run is calling a handler or done. -/
theorem resume_runs (s : RecoveryCoordinator) (i : ℕ) (r : RecoveryRun) (iter : HandlerIterator) :
    ∃ phase, (s.resume i r iter).runs = s.runs.set i { r with phase := phase } ∧
    phase ≠ .waiting ∧ phase ≠ .failed ∧ (s.resume i r iter).queue = s.queue := by
  rw [resume]
  split
  · exact ⟨_, rfl, nofun, nofun, rfl⟩
  · exact ⟨_, rfl, nofun, nofun, rfl⟩

theorem Chained.start_ready (h : s.Chained) (hget : s.runs[i]? = some r) (hwait : r.phase = .waiting)
    (hsettled : s.Settled r.after) : s.Ready i r := by
  refine ⟨hget, ?_, fun j hj r' hr' ↦ ?_⟩
  · rw [RecoveryRun.Ended, hwait]
    exact fun hended ↦ hended.elim nofun nofun
  · -- the run before it has ended, and so has what is before that one
    rw [h.after_eq i r hget, if_neg (Nat.ne_zero_of_lt hj)] at hsettled
    have hlt : i - 1 < s.runs.length := by
      have := (List.getElem?_eq_some_iff.mp hget).1
      omega
    have hlast := hsettled (i - 1) rfl _ (List.getElem?_eq_getElem hlt)
    rcases Nat.lt_or_ge j (i - 1) with hlt' | hge
    · refine h.before_ended j (i - 1) r' _ hlt' hr' (List.getElem?_eq_getElem hlt) fun hphase ↦ ?_
      rw [RecoveryRun.Ended, hphase] at hlast
      exact hlast.elim nofun nofun
    · obtain rfl : j = i - 1 := by omega
      exact hsettled (i - 1) rfl r' hr'

theorem Chained.calling_ready (h : s.Chained) (hget : s.runs[i]? = some r) {handler : Handler}
    {rest : HandlerIterator} (hphase : r.phase = .calling handler rest) : s.Ready i r := by
  refine ⟨hget, ?_, fun j hj r' hr' ↦ h.before_ended j i r' r hj hr' hget ?_⟩
  · rw [RecoveryRun.Ended, hphase]
    exact fun hended ↦ hended.elim nofun nofun
  · rw [hphase]
    exact nofun

/-- A run that is ready may take any phase but that of waiting. -/
theorem Chained.set (h : s.Chained) (hr : s.Ready i r) {t : RecoveryCoordinator}
    (hruns : t.runs = s.runs.set i { r with phase := phase }) (hqueue : t.queue = s.queue) :
    t.Chained := by
  have hlen : t.runs.length = s.runs.length := by rw [hruns, List.length_set]
  have hold : ∀ {j r'}, t.runs[j]? = some r' → j ≠ i → s.runs[j]? = some r' := by
    intro j r' hget hne
    rwa [hruns, List.getElem?_set_ne (Ne.symm hne)] at hget
  have hnew : ∀ {r'}, t.runs[i]? = some r' → r' = { r with phase := phase } := by
    intro r' hget
    rw [hruns, List.getElem?_set_self (List.getElem?_eq_some_iff.mp hr.get).1] at hget
    exact (Option.some_inj.mp hget).symm
  refine ⟨fun j r' hget ↦ ?_, by rw [hqueue, hlen, h.queue_eq], fun j k r₁ r₂ hjk h₁ h₂ hk ↦ ?_⟩
  · by_cases hj : j = i
    · subst hj
      rw [hnew hget]
      exact h.after_eq j r hr.get
    · exact h.after_eq j r' (hold hget hj)
  · by_cases hk' : k = i
    · subst hk'
      exact hr.before_ended j hjk r₁ (hold h₁ (ne_of_lt hjk))
    · have hk₂ := hold h₂ hk'
      by_cases hj : j = i
      · -- a run behind one that had not ended is still waiting
        subst hj
        exact absurd (h.before_ended j k r r₂ hjk hr.get hk₂ hk) hr.unended
      · exact h.before_ended j k r₁ r₂ hjk (hold h₁ hj) hk₂ hk

/-- What starting or ending a call amounts to. -/
theorem start_cases (h : s.Chained) : s.start i = s ∨
    ∃ r, s.Ready i r ∧ r.phase = .waiting ∧ s.start i = s.resume i r (s.iterator r.kind) := by
  rw [start]
  match hget : s.runs[i]? with
  | none => exact .inl rfl
  | some r =>
    dsimp only
    split_ifs with hwait
    · exact .inr ⟨r, h.start_ready hget hwait.1 hwait.2, hwait.1, rfl⟩
    · exact .inl rfl

theorem complete_cases (h : s.Chained) : s.complete i = s ∨
    ∃ r handler rest, s.Ready i r ∧ r.phase = .calling handler rest ∧
      s.complete i = s.resume i r rest := by
  rw [complete]
  match hget : s.runs[i]? with
  | none => exact .inl rfl
  | some r =>
    dsimp only
    match hphase : r.phase with
    | .calling handler rest => exact .inr ⟨r, handler, rest, h.calling_ready hget hphase, hphase, rfl⟩
    | .waiting => exact .inl rfl
    | .done => exact .inl rfl
    | .failed => exact .inl rfl

theorem Chained.of_runs (h : s.Chained) {t : RecoveryCoordinator} (hruns : t.runs = s.runs)
    (hqueue : t.queue = s.queue) : t.Chained :=
  ⟨by rw [hruns]; exact h.after_eq, by rw [hruns, hqueue]; exact h.queue_eq,
    by rw [hruns]; exact h.before_ended⟩

theorem Chained.resume (h : s.Chained) (hr : s.Ready i r) : (s.resume i r iter).Chained := by
  obtain ⟨phase, hruns, -, -, hqueue⟩ := resume_runs s i r iter
  exact h.set hr hruns hqueue

theorem Chained.run (h : s.Chained) (kind : RecoveryKind) : (s.run kind).Chained := by
  have hlen : (s.run kind).runs.length = s.runs.length + 1 := List.length_append
  have hcases : ∀ {j r}, (s.run kind).runs[j]? = some r →
      s.runs[j]? = some r ∨ (j = s.runs.length ∧ r.after = s.queue ∧ r.phase = .waiting) := by
    intro j r hget
    have hget' : (s.runs ++ [_])[j]? = some r := hget
    rcases Nat.lt_trichotomy j s.runs.length with hlt | rfl | hgt
    · rw [List.getElem?_append_left hlt] at hget'
      exact .inl hget'
    · rw [List.getElem?_append_right le_rfl, Nat.sub_self] at hget'
      obtain rfl := Option.some_inj.mp hget'
      exact .inr ⟨rfl, rfl, rfl⟩
    · have hlt := (List.getElem?_eq_some_iff.mp hget).1
      omega
  refine ⟨fun j r hget ↦ ?_, ?_, fun j k r r' hjk h₁ h₂ hk ↦ ?_⟩
  · rcases hcases hget with hold | ⟨rfl, hafter, -⟩
    · exact h.after_eq j r hold
    · rw [hafter, h.queue_eq]
  · rw [hlen]
    rfl
  · rcases hcases h₂ with hold | ⟨-, -, hwait⟩
    · have hlt := (List.getElem?_eq_some_iff.mp hold).1
      rcases hcases h₁ with hold' | ⟨rfl, -, -⟩
      · exact h.before_ended j k r r' hjk hold' hold hk
      · omega
    · exact absurd hwait hk

/-- **Every step keeps the chain.** -/
theorem Chained.step (h : s.Chained) (e : Event) : (s.step e).Chained := by
  cases e with
  | register kind name includeCurrentGeneration => exact h.of_runs rfl rfl
  | unregister kind handler =>
    change (s.unregister kind handler).Chained
    rw [unregister]
    split_ifs
    · exact h.of_runs rfl rfl
    · exact h
  | run kind => exact h.run kind
  | start i =>
    change (s.start i).Chained
    rcases start_cases (i := i) h with heq | ⟨r, hr, -, heq⟩
    · rwa [heq]
    · rw [heq]
      exact h.resume hr
  | complete i =>
    change (s.complete i).Chained
    rcases complete_cases (i := i) h with heq | ⟨r, handler, rest, hr, -, heq⟩
    · rwa [heq]
    · rw [heq]
      exact h.resume hr
  | fail i =>
    change (s.fail i).Chained
    rw [fail]
    split
    · next r hget =>
      split
      · next handler rest hphase => exact h.set (h.calling_ready hget hphase) rfl rfl
      · exact h
    · exact h
  | bootstrap j =>
    change (s.bootstrap j).Chained
    rw [bootstrap]
    split
    · split_ifs
      · exact h.of_runs rfl rfl
      · exact h.of_runs rfl rfl
    · exact h.of_runs rfl rfl
    · exact h

theorem after_concat (events : List Event) (e : Event) :
    after (events ++ [e]) = (after events).step e :=
  List.foldl_concat _ _ _ _

theorem chained_after (events : List Event) : (after events).Chained := by
  induction events using List.reverseRecOn with
  | nil => exact ⟨nofun, rfl, nofun⟩
  | append_singleton events e ih =>
    rw [after_concat]
    exact ih.step e

/-- At most one run is in progress. -/
theorem Chained.calling_unique (h : s.Chained) {handler handler' : Handler}
    {rest rest' : HandlerIterator} (hi : s.runs[i]? = some r) (hj : s.runs[j]? = some r')
    (hcall : r.phase = .calling handler rest) (hcall' : r'.phase = .calling handler' rest') :
    i = j := by
  have hunended : ∀ {r : RecoveryRun} {handler rest}, r.phase = .calling handler rest → ¬r.Ended := by
    intro r handler rest hcall
    rw [RecoveryRun.Ended, hcall]
    exact fun hended ↦ hended.elim nofun nofun
  rcases Nat.lt_trichotomy i j with hlt | heq | hgt
  · exact absurd (h.before_ended i j r r' hlt hi hj (by rw [hcall']; nofun)) (hunended hcall)
  · exact heq
  · exact absurd (h.before_ended j i r' r hgt hj hi (by rw [hcall]; nofun)) (hunended hcall')

end

/-! ## Generations -/

section

variable {s : RecoveryCoordinator} {i j : ℕ} {r r' : RecoveryRun} {iter : HandlerIterator}

/-- What holds of the generations and the handlers as long as no call fails. -/
structure Inv (s : RecoveryCoordinator) : Prop extends Chained s where
  unfailed : ∀ r ∈ s.runs, r.phase ≠ .failed
  increasing : ∀ (i j : ℕ) (r r' : RecoveryRun), i < j → s.runs[i]? = some r →
    s.runs[j]? = some r' → r.kind = .resubscribe → r'.kind = .resubscribe →
    r.generation < r'.generation
  bounded : ∀ r ∈ s.runs, r.kind = .resubscribe → r.generation ≤ s.generation
  latest : s.generation = 0 ∨
    ∃ r ∈ s.runs, r.kind = .resubscribe ∧ r.generation = s.generation
  completed : ∀ r ∈ s.runs, r.kind = .resubscribe → r.phase = .done →
    ∃ g, s.completedGeneration .resubscribe = some g ∧ r.generation ≤ g
  completed_le : ∀ g, s.completedGeneration .resubscribe = some g → g ≤ s.generation
  outstanding : ∀ g, s.completedGeneration .resubscribe = some g → ∀ r ∈ s.runs,
    r.kind = .resubscribe → r.phase ≠ .done → g < r.generation
  live : ∀ r ∈ s.runs, r.kind = .resubscribe → ∀ handler rest, r.phase = .calling handler rest →
    ∃ start, rest = .live start ∧ start ≤ (s.handlers .resubscribe).next
  named : ∀ kind name p h, (s.handlers kind).slot name = some (p, h) →
    h.name = name ∧ h.id < s.created
  invoked_lt : ∀ c ∈ s.invocations, c.kind = .resubscribe → c.handler < s.created
  bootstraps_lt : ∀ b ∈ s.bootstraps, b.handler.id < s.created

theorem inv_initial : initial.Inv where
  after_eq := nofun
  queue_eq := rfl
  before_ended := nofun
  unfailed := nofun
  increasing := nofun
  bounded := nofun
  latest := .inl rfl
  completed := nofun
  completed_le := nofun
  outstanding := nofun
  live := nofun
  named := nofun
  invoked_lt := nofun
  bootstraps_lt := nofun

/-- The runs before one that is ready are done. -/
theorem Inv.done_before (hs : s.Inv) (hr : s.Ready i r) (hj : j < i) (hget : s.runs[j]? = some r') :
    r'.phase = .done :=
  (hr.before_ended j hj r' hget).resolve_right (hs.unfailed r' (List.mem_of_getElem? hget))

/-- A run that is ready has a later generation than any that is done. -/
theorem Inv.completed_lt (hs : s.Inv) (hr : s.Ready i r) (hkind : r.kind = .resubscribe) :
    ∀ g, s.completedGeneration .resubscribe = some g → g < r.generation := fun g hg ↦
  hs.outstanding g hg r (List.mem_of_getElem? hr.get) hkind fun hdone ↦ hr.unended (.inl hdone)

/-- A run that has not ended and is not the one that is ready has a later generation than it. -/
theorem Inv.lt_of_unended (hs : s.Inv) (hr : s.Ready i r) (hkind : r.kind = .resubscribe)
    (hget : s.runs[j]? = some r') (hne : j ≠ i) (hkind' : r'.kind = .resubscribe)
    (hphase : r'.phase ≠ .done) : r.generation < r'.generation := by
  rcases Nat.lt_or_ge j i with hlt | hge
  · exact absurd (hs.done_before hr hlt hget) hphase
  · exact hs.increasing i j r r' (lt_of_le_of_ne hge (Ne.symm hne)) hr.get hget hkind hkind'

/-- The runs after `resume`. -/
theorem mem_runs_set {phase : RunPhase} (hr : s.Ready i r)
    (hmem : r' ∈ s.runs.set i { r with phase := phase }) :
    r' = { r with phase := phase } ∨ ∃ j, j ≠ i ∧ s.runs[j]? = some r' := by
  obtain ⟨j, hj⟩ := List.mem_iff_getElem?.mp hmem
  by_cases hji : j = i
  · subst hji
    rw [List.getElem?_set_self (List.getElem?_eq_some_iff.mp hr.get).1] at hj
    exact .inl (Option.some_inj.mp hj).symm
  · rw [List.getElem?_set_ne (Ne.symm hji)] at hj
    exact .inr ⟨j, hji, hj⟩

/-- What a visit of the live map finds. -/
theorem visit_live (hs : s.Inv) (kind : RecoveryKind) (start : ℕ) :
    match s.visit kind (.live start) with
    | some (h, rest) => ∃ p, rest = .live (p + 1) ∧ (s.handlers kind).slot h.name = some (p, h) ∧
        start ≤ p ∧ ∀ name q h', (s.handlers kind).slot name = some (q, h') → start ≤ q → p ≤ q
    | none => ∀ name q h', (s.handlers kind).slot name = some (q, h') → q < start := by
  have hcurrent : ∀ {name q h'}, (s.handlers kind).slot name = some (q, h') →
      s.isCurrent kind h' = true := by
    intro name q h' hslot
    rw [← (hs.named kind name q h' hslot).1] at hslot
    exact decide_eq_true (LiveMap.get_eq_some.mpr ⟨q, hslot⟩)
  rw [visit]
  match hnext : (s.handlers kind).nextFrom start (s.isCurrent kind) with
  | some (name, p, h) =>
    obtain ⟨hslot, hle, -, hleast⟩ := LiveMap.nextFrom_eq_some hnext
    refine ⟨p, rfl, ?_, hle, fun name q h' hslot' hq ↦ hleast hslot' hq (hcurrent hslot')⟩
    rwa [(hs.named kind name p h hslot).1]
  | none => exact fun name q h' hslot ↦ LiveMap.nextFrom_eq_none hnext hslot (hcurrent hslot)

theorem getElem?_set_cases {l : List RecoveryRun} {x y : RecoveryRun} (h : (l.set i x)[j]? = some y) :
    (j = i ∧ y = x) ∨ (j ≠ i ∧ l[j]? = some y) := by
  by_cases hji : j = i
  · subst hji
    have hlt := (List.getElem?_eq_some_iff.mp h).1
    rw [List.length_set] at hlt
    rw [List.getElem?_set_self hlt] at h
    exact .inl ⟨rfl, (Option.some_inj.mp h).symm⟩
  · rw [List.getElem?_set_ne (Ne.symm hji)] at h
    exact .inr ⟨hji, h⟩

/-- The part of the invariant that is about one phase of one run. -/
theorem Inv.set (hs : s.Inv) (hr : s.Ready i r) {phase : RunPhase} {t : RecoveryCoordinator}
    (hruns : t.runs = s.runs.set i { r with phase := phase }) (hqueue : t.queue = s.queue)
    (hgeneration : t.generation = s.generation) (hhandlers : t.handlers = s.handlers)
    (hcreated : t.created = s.created) (hbootstraps : t.bootstraps = s.bootstraps)
    (hfailed : phase ≠ .failed)
    (hlive : r.kind = .resubscribe → ∀ handler rest, phase = .calling handler rest →
      ∃ start, rest = .live start ∧ start ≤ (s.handlers .resubscribe).next)
    (hinvoked : ∀ c ∈ t.invocations, c.kind = .resubscribe → c.handler < s.created)
    (hcompleted : t.completedGeneration .resubscribe =
      if phase = .done ∧ r.kind = .resubscribe then some r.generation
      else s.completedGeneration .resubscribe) : t.Inv := by
  have hchained := hs.toChained.set hr hruns hqueue
  have hkey : ∀ {j : ℕ} {r' : RecoveryRun}, t.runs[j]? = some r' → ∃ r₀ : RecoveryRun,
      s.runs[j]? = some r₀ ∧ r₀.kind = r'.kind ∧ r₀.generation = r'.generation := by
    intro j r' hget
    rw [hruns] at hget
    rcases getElem?_set_cases hget with ⟨rfl, rfl⟩ | ⟨-, hget⟩
    · exact ⟨r, hr.get, rfl, rfl⟩
    · exact ⟨r', hget, rfl, rfl⟩
  have hcase : ∀ r' ∈ t.runs, r' = { r with phase := phase } ∨ ∃ j, j ≠ i ∧ s.runs[j]? = some r' :=
    fun r' hmem ↦ mem_runs_set hr (hruns ▸ hmem)
  refine { hchained with
    unfailed := fun r' hmem ↦ ?_
    increasing := fun j k r₁ r₂ hjk h₁ h₂ hk₁ hk₂ ↦ ?_
    bounded := fun r' hmem hkind ↦ ?_
    latest := ?_
    completed := fun r' hmem hkind hdone ↦ ?_
    completed_le := fun g hg ↦ ?_
    outstanding := fun g hg r' hmem hkind hphase ↦ ?_
    live := fun r' hmem hkind handler rest hcall ↦ ?_
    named := by rw [hhandlers, hcreated]; exact hs.named
    invoked_lt := by rw [hcreated]; exact hinvoked
    bootstraps_lt := by rw [hbootstraps, hcreated]; exact hs.bootstraps_lt }
  · rcases hcase r' hmem with rfl | ⟨j, -, hget⟩
    · exact hfailed
    · exact hs.unfailed r' (List.mem_of_getElem? hget)
  · obtain ⟨r₁', hget₁, hkind₁, hgen₁⟩ := hkey h₁
    obtain ⟨r₂', hget₂, hkind₂, hgen₂⟩ := hkey h₂
    rw [← hgen₁, ← hgen₂]
    exact hs.increasing j k r₁' r₂' hjk hget₁ hget₂ (hkind₁.trans hk₁) (hkind₂.trans hk₂)
  · obtain ⟨j, hj⟩ := List.mem_iff_getElem?.mp hmem
    obtain ⟨r₀, hget, hkind₀, hgen₀⟩ := hkey hj
    rw [← hgen₀, hgeneration]
    exact hs.bounded r₀ (List.mem_of_getElem? hget) (hkind₀.trans hkind)
  · rw [hgeneration]
    refine hs.latest.imp id fun ⟨r₀, hmem, hkind, hgen⟩ ↦ ?_
    obtain ⟨j, hj⟩ := List.mem_iff_getElem?.mp hmem
    by_cases hji : j = i
    · subst hji
      obtain rfl : r = r₀ := Option.some_inj.mp (hr.get.symm.trans hj)
      refine ⟨{ r with phase := phase }, ?_, hkind, hgen⟩
      rw [hruns]
      exact List.mem_set (List.getElem?_eq_some_iff.mp hj).1 _
    · refine ⟨r₀, ?_, hkind, hgen⟩
      rw [hruns]
      exact List.mem_of_getElem? ((List.getElem?_set_ne (Ne.symm hji)).trans hj)
  · rw [hcompleted]
    split_ifs with hthis
    · rcases hcase r' hmem with rfl | ⟨j, hne, hget⟩
      · exact ⟨r.generation, rfl, le_rfl⟩
      · obtain ⟨g, hg, hle⟩ := hs.completed r' (List.mem_of_getElem? hget) hkind hdone
        exact ⟨r.generation, rfl, hle.trans (hs.completed_lt hr hthis.2 g hg).le⟩
    · rcases hcase r' hmem with rfl | ⟨j, hne, hget⟩
      · exact absurd ⟨hdone, hkind⟩ hthis
      · exact hs.completed r' (List.mem_of_getElem? hget) hkind hdone
  · rw [hgeneration]
    rw [hcompleted] at hg
    split_ifs at hg with hthis
    · obtain rfl := Option.some_inj.mp hg
      exact hs.bounded r (List.mem_of_getElem? hr.get) hthis.2
    · exact hs.completed_le g hg
  · rw [hcompleted] at hg
    rcases hcase r' hmem with rfl | ⟨j, hne, hget⟩
    · rw [if_neg fun hthis ↦ hphase hthis.1] at hg
      exact hs.completed_lt hr hkind g hg
    · split_ifs at hg with hthis
      · obtain rfl := Option.some_inj.mp hg
        exact hs.lt_of_unended hr hthis.2 hget hne hkind hphase
      · exact hs.outstanding g hg r' (List.mem_of_getElem? hget) hkind hphase
  · rw [hhandlers]
    rcases hcase r' hmem with rfl | ⟨j, hne, hget⟩
    · exact hlive hkind handler rest hcall
    · exact hs.live r' (List.mem_of_getElem? hget) hkind handler rest hcall

/-- The iterator is one that a run of this kind may have. -/
def Suits (s : RecoveryCoordinator) (kind : RecoveryKind) (iter : HandlerIterator) : Prop :=
  kind = .resubscribe → ∃ start, iter = .live start ∧ start ≤ (s.handlers .resubscribe).next

theorem Inv.resume (hs : s.Inv) (hr : s.Ready i r) (hsuits : s.Suits r.kind iter) :
    (s.resume i r iter).Inv := by
  rw [RecoveryCoordinator.resume]
  match hvisit : s.visit r.kind iter with
  | none =>
    refine hs.set hr rfl rfl rfl rfl rfl rfl nofun (fun _ _ _ h ↦ nomatch h) hs.invoked_lt ?_
    by_cases hkind : r.kind = .resubscribe
    · rw [if_pos ⟨rfl, hkind⟩]
      exact Function.update_apply .. |>.trans (if_pos hkind.symm)
    · rw [if_neg fun h ↦ hkind h.2]
      exact Function.update_apply .. |>.trans (if_neg (Ne.symm hkind))
  | some (handler, rest) =>
    -- a resubscribe run visits a handler of the live map
    have hfound : r.kind = .resubscribe → ∃ p, rest = .live (p + 1) ∧
        (s.handlers .resubscribe).slot handler.name = some (p, handler) := by
      intro hkind
      obtain ⟨start, rfl, -⟩ := hsuits hkind
      have hspec := visit_live hs r.kind start
      rw [hvisit] at hspec
      obtain ⟨p, hrest, hslot, -⟩ := hspec
      exact ⟨p, hrest, hkind ▸ hslot⟩
    refine hs.set hr rfl rfl rfl rfl rfl rfl nofun (fun hkind handler' rest' heq ↦ ?_)
      (fun c hc hkind ↦ ?_) (by rw [if_neg fun h ↦ nomatch h.1])
    · obtain ⟨p, rfl, hslot⟩ := hfound hkind
      injection heq with _ hrest
      exact ⟨p + 1, hrest.symm, LiveMap.lt_next hslot⟩
    · rcases List.mem_append.mp hc with hc | hc
      · exact hs.invoked_lt c hc hkind
      · obtain rfl := List.mem_singleton.mp hc
        obtain ⟨p, -, hslot⟩ := hfound hkind
        exact (hs.named _ _ _ _ hslot).2

theorem Inv.register (hs : s.Inv) (kind : RecoveryKind) (name : JsString)
    (includeCurrentGeneration : Bool) : (s.register kind name includeCurrentGeneration).Inv := by
  have hslot : ∀ kind' name' p h,
      ((s.register kind name includeCurrentGeneration).handlers kind').slot name' = some (p, h) →
      h.name = name' ∧ h.id < s.created + 1 := by
    intro kind' name' p h hslot
    change (Function.update s.handlers kind _ kind').slot name' = some (p, h) at hslot
    rw [Function.update_apply] at hslot
    split_ifs at hslot with hkind
    · rw [LiveMap.slot_set] at hslot
      split_ifs at hslot with hname
      · obtain ⟨-, rfl⟩ := Prod.mk.inj (Option.some_inj.mp hslot)
        exact ⟨hname.symm, Nat.lt_succ_self _⟩
      · exact (hs.named kind name' p h hslot).imp_right fun hlt ↦ hlt.trans (Nat.lt_succ_self _)
    · exact (hs.named kind' name' p h hslot).imp_right fun hlt ↦ hlt.trans (Nat.lt_succ_self _)
  refine { hs with
    live := fun r hmem hkind handler rest hcall ↦ ?_
    named := hslot
    invoked_lt := fun c hc hkind ↦ (hs.invoked_lt c hc hkind).trans (Nat.lt_succ_self _)
    bootstraps_lt := fun b hb ↦ ?_ }
  · obtain ⟨start, hrest, hle⟩ := hs.live r hmem hkind handler rest hcall
    refine ⟨start, hrest, hle.trans ?_⟩
    change _ ≤ (Function.update s.handlers kind _ .resubscribe).next
    rw [Function.update_apply]
    split_ifs with heq
    · rw [heq]
      exact LiveMap.next_le_set _ _ _
    · exact le_rfl
  · change b.handler.id < s.created + 1
    change b ∈ (if _ then _ else _) at hb
    split_ifs at hb
    · rcases List.mem_append.mp hb with hb | hb
      · exact (hs.bootstraps_lt b hb).trans (Nat.lt_succ_self _)
      · obtain rfl := List.mem_singleton.mp hb
        exact Nat.lt_succ_self _
    · exact (hs.bootstraps_lt b hb).trans (Nat.lt_succ_self _)

theorem slot_unregister {kind kind' : RecoveryKind} {handler h : Handler} {name : JsString} {p : ℕ}
    (hslot : ((s.unregister kind handler).handlers kind').slot name = some (p, h)) :
    (s.handlers kind').slot name = some (p, h) := by
  rw [unregister] at hslot
  split_ifs at hslot with hcurrent
  · change (Function.update s.handlers kind _ kind').slot name = some (p, h) at hslot
    rw [Function.update_apply] at hslot
    split_ifs at hslot with hkind
    · rw [LiveMap.slot_delete] at hslot
      split_ifs at hslot
      rwa [hkind]
    · exact hslot
  · exact hslot

theorem unregister_eq (s : RecoveryCoordinator) (kind : RecoveryKind) (handler : Handler) :
    ∃ handlers : RecoveryKind → LiveMap JsString Handler,
      s.unregister kind handler = { s with handlers } ∧
        (handlers .resubscribe).next = (s.handlers .resubscribe).next := by
  rw [unregister]
  split_ifs
  · refine ⟨_, rfl, ?_⟩
    rw [Function.update_apply]
    split_ifs with hkind
    · rw [hkind]
      rfl
    · rfl
  · exact ⟨s.handlers, rfl, rfl⟩

theorem Inv.unregister (hs : s.Inv) (kind : RecoveryKind) (handler : Handler) :
    (s.unregister kind handler).Inv := by
  have hnamed : ∀ kind' name p h, ((s.unregister kind handler).handlers kind').slot name
      = some (p, h) → h.name = name ∧ h.id < s.created :=
    fun kind' name p h hslot ↦ hs.named kind' name p h (slot_unregister hslot)
  obtain ⟨handlers, heq, hnext⟩ := unregister_eq s kind handler
  rw [heq] at hnamed ⊢
  exact { hs with
    live := by
      change ∀ r ∈ s.runs, _ → ∀ handler rest, _ → ∃ start, _ ∧ start ≤ (handlers .resubscribe).next
      rw [hnext]
      exact hs.live
    named := hnamed }

theorem mem_runs_run {kind : RecoveryKind} (h : r ∈ (s.run kind).runs) : r ∈ s.runs ∨
    (r.kind = kind ∧ r.generation = (s.run kind).generation ∧ r.phase = .waiting) := by
  rcases List.mem_append.mp h with h | h
  · exact .inl h
  · obtain rfl := List.mem_singleton.mp h
    exact .inr ⟨rfl, rfl, rfl⟩

theorem generation_run (s : RecoveryCoordinator) (kind : RecoveryKind) : (s.run kind).generation =
    if kind = .resubscribe then s.generation + 1 else s.generation := rfl

theorem generation_le_run (s : RecoveryCoordinator) (kind : RecoveryKind) :
    s.generation ≤ (s.run kind).generation := by
  rw [generation_run]
  split_ifs <;> omega

theorem Inv.run (hs : s.Inv) (kind : RecoveryKind) : (s.run kind).Inv := by
  refine { hs.toChained.run kind, hs with
    unfailed := fun r hmem ↦ ?_
    increasing := fun j k r r' hjk hj hk hkind hkind' ↦ ?_
    bounded := fun r hmem hkind ↦ ?_
    latest := ?_
    completed := fun r hmem hkind hdone ↦ ?_
    completed_le := fun g hg ↦ (hs.completed_le g hg).trans (generation_le_run s kind)
    outstanding := fun g hg r hmem hkind hphase ↦ ?_
    live := fun r hmem hkind handler rest hcall ↦ ?_ }
  · rcases mem_runs_run hmem with hmem | ⟨-, -, hwait⟩
    · exact hs.unfailed r hmem
    · rw [hwait]
      exact nofun
  · have hlen : j < s.runs.length := by
      have hlt := (List.getElem?_eq_some_iff.mp hk).1
      rw [show (s.run kind).runs.length = s.runs.length + 1 from List.length_append] at hlt
      omega
    have hj' : s.runs[j]? = some r := (List.getElem?_append_left hlen).symm.trans hj
    by_cases hk' : k < s.runs.length
    · exact hs.increasing j k r r' hjk hj' ((List.getElem?_append_left hk').symm.trans hk) hkind hkind'
    · -- the last run has a generation of its own
      obtain rfl : k = s.runs.length := by
        have hlt := (List.getElem?_eq_some_iff.mp hk).1
        rw [show (s.run kind).runs.length = s.runs.length + 1 from List.length_append] at hlt
        omega
      have hlast : some (⟨kind, (s.run kind).generation, s.queue, .waiting⟩ : RecoveryRun) = some r' := by
        rw [← hk]
        exact List.getElem?_concat_length.symm
      obtain rfl := Option.some_inj.mp hlast
      have hle := hs.bounded r (List.mem_of_getElem? hj') hkind
      have hthis : kind = .resubscribe := hkind'
      change r.generation < (s.run kind).generation
      rw [generation_run, if_pos hthis]
      omega
  · rcases mem_runs_run hmem with hmem | ⟨-, hgen, -⟩
    · exact (hs.bounded r hmem hkind).trans (generation_le_run s kind)
    · exact hgen.le
  · by_cases hkind : kind = .resubscribe
    · exact .inr ⟨_, List.mem_append_right _ List.mem_cons_self, hkind, rfl⟩
    · rw [generation_run, if_neg hkind]
      exact hs.latest.imp id fun ⟨r, hmem, hr⟩ ↦ ⟨r, List.mem_append_left _ hmem, hr⟩
  · rcases mem_runs_run hmem with hmem | ⟨-, -, hwait⟩
    · exact hs.completed r hmem hkind hdone
    · rw [hwait] at hdone
      exact nomatch hdone
  · rcases mem_runs_run hmem with hmem | ⟨hthis, hgen, -⟩
    · exact hs.outstanding g hg r hmem hkind hphase
    · have hle := hs.completed_le g hg
      rw [hgen, generation_run, if_pos (hthis.symm.trans hkind)]
      omega
  · rcases mem_runs_run hmem with hmem | ⟨-, -, hwait⟩
    · exact hs.live r hmem hkind handler rest hcall
    · rw [hwait] at hcall
      exact nomatch hcall

theorem suits_iterator (s : RecoveryCoordinator) (kind : RecoveryKind) :
    s.Suits kind (s.iterator kind) := by
  intro hkind
  subst hkind
  exact ⟨0, rfl, Nat.zero_le _⟩

theorem mem_of_bootstraps_set {b : Bootstrap} {stage : BootstrapStage} {h : Handler} {g : ℕ}
    (hget : s.bootstraps[j]? = some b) (hb : b.handler = h) (hg : b.generation = g)
    {b' : Bootstrap} (hmem : b' ∈ s.bootstraps.set j ⟨h, g, stage⟩) :
    ∃ b₀ ∈ s.bootstraps, b₀.handler = b'.handler ∧ b₀.generation = b'.generation := by
  rcases List.mem_or_eq_of_mem_set hmem with hmem | rfl
  · exact ⟨b', hmem, rfl, rfl⟩
  · exact ⟨b, List.mem_of_getElem? hget, hb, hg⟩

/-- What a microtask of a bootstrap does: nothing, one stage further, gone, or the call. -/
theorem bootstrap_cases (s : RecoveryCoordinator) (j : ℕ) : s.bootstrap j = s ∨
    ∃ b bootstraps invocations, s.bootstraps[j]? = some b ∧
      s.bootstrap j = { s with bootstraps, invocations } ∧
      (∀ b' ∈ bootstraps, ∃ b₀ ∈ s.bootstraps, b₀.handler = b'.handler ∧
        b₀.generation = b'.generation) ∧
      (invocations = s.invocations ∨
        invocations = s.invocations ++ [⟨b.handler.id, .resubscribe, b.generation⟩]) ∧
      (s.isCurrent .resubscribe b.handler = true → invocations = s.invocations →
        ∃ b' ∈ bootstraps, b'.handler = b.handler ∧ b'.generation = b.generation) ∧
      ∀ b₀ ∈ s.bootstraps, b₀ = b ∨ b₀ ∈ bootstraps := by
  have hkept : ∀ {b : Bootstrap}, s.bootstraps[j]? = some b → ∀ b₀ ∈ s.bootstraps,
      b₀ = b ∨ (b₀ ∈ s.bootstraps.eraseIdx j ∧ ∀ x, b₀ ∈ s.bootstraps.set j x) := by
    intro b hget b₀ hmem
    obtain ⟨k, hk⟩ := List.mem_iff_getElem?.mp hmem
    by_cases hkj : k = j
    · subst hkj
      exact .inl (Option.some_inj.mp (hk.symm.trans hget))
    · refine .inr ⟨List.mem_eraseIdx_iff_getElem?.mpr ⟨k, hkj, hk⟩, fun x ↦ ?_⟩
      exact List.mem_of_getElem? ((List.getElem?_set_ne (Ne.symm hkj)).trans hk)
  rw [bootstrap]
  split
  · next handler generation hget =>
    split_ifs with hcurrent
    · refine .inr ⟨_, _, s.invocations, hget, rfl, fun b' hmem ↦ ?_, .inl rfl, fun _ _ ↦ ?_, ?_⟩
      · exact mem_of_bootstraps_set hget rfl rfl hmem
      · exact ⟨_, List.mem_set (List.getElem?_eq_some_iff.mp hget).1 _, rfl, rfl⟩
      · exact fun b₀ hmem ↦ (hkept hget b₀ hmem).imp_right fun h ↦ h.2 _
    · refine .inr ⟨_, _, s.invocations, hget, rfl, fun b' hmem ↦ ?_, .inl rfl, fun h ↦ ?_, ?_⟩
      · exact ⟨b', List.mem_of_mem_eraseIdx hmem, rfl, rfl⟩
      · exact absurd h hcurrent
      · exact fun b₀ hmem ↦ (hkept hget b₀ hmem).imp_right And.left
  · next handler generation hget =>
    refine .inr ⟨_, _, _, hget, rfl, fun b' hmem ↦ ?_, .inr rfl, fun _ h ↦ ?_, ?_⟩
    · exact ⟨b', List.mem_of_mem_eraseIdx hmem, rfl, rfl⟩
    · exact absurd h (by simp)
    · exact fun b₀ hmem ↦ (hkept hget b₀ hmem).imp_right And.left
  · exact .inl rfl

theorem Inv.bootstrap (hs : s.Inv) (j : ℕ) : (s.bootstrap j).Inv := by
  rcases bootstrap_cases s j with heq | ⟨b, bootstraps, invocations, hget, heq, hold, hinv, -, -⟩
  · rwa [heq]
  · rw [heq]
    refine { hs with invoked_lt := fun c hc hkind ↦ ?_, bootstraps_lt := fun b' hb' ↦ ?_ }
    · rcases hinv with rfl | rfl
      · exact hs.invoked_lt c hc hkind
      · rcases List.mem_append.mp hc with hc | hc
        · exact hs.invoked_lt c hc hkind
        · obtain rfl := List.mem_singleton.mp hc
          exact hs.bootstraps_lt b (List.mem_of_getElem? hget)
    · obtain ⟨b₀, hmem, hhandler, -⟩ := hold b' hb'
      change b'.handler.id < s.created
      rw [← hhandler]
      exact hs.bootstraps_lt b₀ hmem

/-- **Every step keeps the invariant**, as long as no call fails. -/
theorem Inv.step (hs : s.Inv) {e : Event} (hok : ∀ i, e ≠ .fail i) : (s.step e).Inv := by
  cases e with
  | register kind name includeCurrentGeneration => exact hs.register kind name _
  | unregister kind handler => exact hs.unregister kind handler
  | run kind => exact hs.run kind
  | start i =>
    change (s.start i).Inv
    rcases start_cases (i := i) hs.toChained with heq | ⟨r, hr, -, heq⟩
    · rwa [heq]
    · rw [heq]
      exact hs.resume hr (suits_iterator s r.kind)
  | complete i =>
    change (s.complete i).Inv
    rcases complete_cases (i := i) hs.toChained with heq | ⟨r, handler, rest, hr, hcall, heq⟩
    · rwa [heq]
    · rw [heq]
      exact hs.resume hr fun hkind ↦
        hs.live r (List.mem_of_getElem? hr.get) hkind handler rest hcall
  | fail i => exact absurd rfl (hok i)
  | bootstrap j => exact hs.bootstrap j

end

/-! ## One handler from its registration on -/

section

variable {s : RecoveryCoordinator} {i : ℕ} {r : RecoveryRun} {iter : HandlerIterator} {h : Handler}
  {passed : ℕ → Prop}

/-- The handler is the current one of its name. -/
def Registered (s : RecoveryCoordinator) (h : Handler) (p : ℕ) : Prop :=
  (s.handlers .resubscribe).slot h.name = some (p, h)

/-- A run of a generation whose iterator is at a position has called the handler or will meet it,
unless the handler took the place of one that the run had passed; then it will not. -/
def Fair (s : RecoveryCoordinator) (h : Handler) (passed : ℕ → Prop) (g start : ℕ) : Prop :=
  ∀ p, s.Registered h p →
    (s.Invoked h.id g ∨ start ≤ p ∨ passed g) ∧ (passed g → p < start)

/-- What holds of a handler after its registration, when `passed` are the generations whose run had
then passed its name. -/
structure Tracked (s : RecoveryCoordinator) (h : Handler) (passed : ℕ → Prop) : Prop where
  older : h.id < s.created
  unique : ∀ name p h', (s.handlers .resubscribe).slot name = some (p, h') → h'.id = h.id → h' = h
  passed_le : ∀ g, passed g → g ≤ s.generation
  waiting : ∀ r ∈ s.runs, r.kind = .resubscribe → r.phase = .waiting → ¬passed r.generation
  calling : ∀ r ∈ s.runs, r.kind = .resubscribe → ∀ h' start,
    r.phase = .calling h' (.live start) → s.Fair h passed r.generation start
  unpassed : ∀ g, s.Invoked h.id g → ¬passed g
  pending : ∀ b ∈ s.bootstraps, b.handler.id = h.id → ¬passed b.generation
  covered : h.includeCurrentGeneration = true → ∀ p, s.Registered h p → ∀ g,
    s.completedGeneration .resubscribe = some g → s.Invoked h.id g ∨
      (∃ b ∈ s.bootstraps, b.handler = h ∧ b.generation = g) ∨ passed g ∨ g < s.generation

theorem Fair.mono {t : RecoveryCoordinator} {g start : ℕ} (hfair : s.Fair h passed g start)
    (hregistered : ∀ p, t.Registered h p → s.Registered h p)
    (hinvoked : s.Invoked h.id g → t.Invoked h.id g) : t.Fair h passed g start := fun p hp ↦
  (hfair p (hregistered p hp)).imp_left (Or.imp_left hinvoked)

/-- Going on with a run of the other kind changes nothing here. -/
theorem Tracked.resume_coldRecover (ht : s.Tracked h passed) (hr : s.Ready i r)
    (hkind : r.kind ≠ .resubscribe) : (s.resume i r iter).Tracked h passed := by
  have hcase : ∀ {phase : RunPhase}, ∀ r' ∈ s.runs.set i { r with phase := phase },
      r'.kind = .resubscribe → r' ∈ s.runs := by
    intro phase r' hmem hkind'
    rcases mem_runs_set hr hmem with rfl | ⟨j, -, hget⟩
    · exact absurd hkind' hkind
    · exact List.mem_of_getElem? hget
  rw [RecoveryCoordinator.resume]
  split
  · have hinvoked : ∀ {x : Invocation} {g}, x.kind = r.kind →
        (⟨h.id, .resubscribe, g⟩ ∈ s.invocations ++ [x] ↔ s.Invoked h.id g) := by
      intro x g hx
      rw [List.mem_append, List.mem_singleton]
      refine or_iff_left ?_
      rintro rfl
      exact hkind hx.symm
    exact { ht with
      waiting := fun r' hmem hkind' ↦ ht.waiting r' (hcase r' hmem hkind') hkind'
      calling := fun r' hmem hkind' h' start hcall ↦
        (ht.calling r' (hcase r' hmem hkind') hkind' h' start hcall).mono (fun _ hp ↦ hp)
          (hinvoked rfl).mpr
      unpassed := fun g hg ↦ ht.unpassed g ((hinvoked rfl).mp hg)
      covered := fun hinclude p hp g hg ↦
        (ht.covered hinclude p hp g hg).imp_left (hinvoked rfl).mpr }
  · exact { ht with
      waiting := fun r' hmem hkind' ↦ ht.waiting r' (hcase r' hmem hkind') hkind'
      calling := fun r' hmem hkind' ↦ ht.calling r' (hcase r' hmem hkind') hkind'
      covered := fun hinclude p hp g hg ↦ by
        refine ht.covered hinclude p hp g ?_
        rw [← hg]
        exact (Function.update_of_ne (Ne.symm hkind) _ _).symm }

/-- **Going on with a resubscribe run** that is fair to the handler. -/
theorem Tracked.resume_resubscribe (ht : s.Tracked h passed) (hs : s.Inv) (hr : s.Ready i r)
    (hkind : r.kind = .resubscribe) {start : ℕ} (hfair : s.Fair h passed r.generation start) :
    (s.resume i r (.live start)).Tracked h passed := by
  have hspec := visit_live hs r.kind start
  rw [RecoveryCoordinator.resume]
  match hvisit : s.visit r.kind (.live start) with
  | some (h', rest) =>
    rw [hvisit, hkind] at hspec
    obtain ⟨p, rfl, hslot, hle, hleast⟩ := hspec
    have hmono : ∀ g, s.Invoked h.id g →
        (⟨h.id, .resubscribe, g⟩ : Invocation) ∈ s.invocations ++ [⟨h'.id, r.kind, r.generation⟩] :=
      fun g hg ↦ List.mem_append_left _ hg
    exact { ht with
      waiting := fun r' hmem hkind' hwait ↦ by
        rcases mem_runs_set hr hmem with rfl | ⟨j, -, hget⟩
        · exact nomatch hwait
        · exact ht.waiting r' (List.mem_of_getElem? hget) hkind' hwait
      calling := fun r' hmem hkind' h'' start' hcall ↦ by
        rcases mem_runs_set hr hmem with rfl | ⟨j, -, hget⟩
        · injection hcall with _ hstart
          obtain rfl : p + 1 = start' := HandlerIterator.live.inj hstart
          intro q hq
          obtain ⟨hmet, hpassed⟩ := hfair q hq
          refine ⟨?_, fun hg ↦ (hpassed hg).trans (Nat.lt_succ_of_le hle)⟩
          rcases hmet with hinvoked | hstart | hg
          · exact .inl (hmono _ hinvoked)
          · rcases (hleast _ _ _ hq hstart).lt_or_eq with hlt | rfl
            · exact .inr (.inl hlt)
            · -- the entry that is visited is the one of the handler
              have hname := LiveMap.key_of_position hslot hq
              have hsame : (p, h') = (p, h) := by
                rw [hname] at hslot
                exact Option.some_inj.mp (hslot.symm.trans hq)
              obtain rfl := (Prod.mk.inj hsame).2
              refine .inl (List.mem_append_right _ ?_)
              rw [hkind]
              exact List.mem_cons_self
          · exact .inr (.inr hg)
        · exact (ht.calling r' (List.mem_of_getElem? hget) hkind' h'' start' hcall).mono
            (fun _ hp ↦ hp) (hmono _)
      unpassed := fun g hg hpass ↦ by
        rcases List.mem_append.mp hg with hg | hg
        · exact ht.unpassed g hg hpass
        · obtain ⟨hid, -, rfl⟩ := Invocation.mk.inj (List.mem_singleton.mp hg)
          obtain rfl := ht.unique _ p h' hslot hid.symm
          have hlt := (hfair p hslot).2 hpass
          omega
      covered := fun hinclude q hq g hg ↦
        (ht.covered hinclude q hq g hg).imp_left (hmono g) }
  | none =>
    rw [hvisit, hkind] at hspec
    exact { ht with
      waiting := fun r' hmem hkind' hwait ↦ by
        rcases mem_runs_set hr hmem with rfl | ⟨j, -, hget⟩
        · exact nomatch hwait
        · exact ht.waiting r' (List.mem_of_getElem? hget) hkind' hwait
      calling := fun r' hmem hkind' h'' start' hcall ↦ by
        rcases mem_runs_set hr hmem with rfl | ⟨j, -, hget⟩
        · exact nomatch hcall
        · exact ht.calling r' (List.mem_of_getElem? hget) hkind' h'' start' hcall
      covered := fun hinclude q hq g hg ↦ by
        change Function.update s.completedGeneration r.kind (some r.generation) .resubscribe
          = some g at hg
        rw [hkind, Function.update_self] at hg
        obtain rfl := Option.some_inj.mp hg
        rcases (hfair q hq).1 with hinvoked | hstart | hpass
        · exact .inl hinvoked
        · have hlt := hspec _ _ _ hq
          omega
        · exact .inr (.inr (.inl hpass)) }

theorem Tracked.register (ht : s.Tracked h passed) (kind : RecoveryKind) (name : JsString)
    (includeCurrentGeneration : Bool) :
    (s.register kind name includeCurrentGeneration).Tracked h passed := by
  have hslot : ∀ {name' p h'},
      ((s.register kind name includeCurrentGeneration).handlers .resubscribe).slot name'
        = some (p, h') → h'.id = h.id → (s.handlers .resubscribe).slot name' = some (p, h') := by
    intro name' p h' hslot hid
    change (Function.update s.handlers kind _ .resubscribe).slot name' = some (p, h') at hslot
    rw [Function.update_apply] at hslot
    split_ifs at hslot with hkind
    · rw [LiveMap.slot_set] at hslot
      split_ifs at hslot with hname
      · obtain ⟨-, rfl⟩ := Prod.mk.inj (Option.some_inj.mp hslot)
        exact absurd hid (ne_of_gt ht.older)
      · rwa [hkind]
    · exact hslot
  refine { ht with
    older := ht.older.trans (Nat.lt_succ_self _)
    unique := fun name' p h' hs hid ↦ ht.unique name' p h' (hslot hs hid) hid
    calling := fun r hmem hkind h' start hcall ↦
      (ht.calling r hmem hkind h' start hcall).mono (fun _ hp ↦ hslot hp rfl) id
    pending := fun b hb hid ↦ ?_
    covered := fun hinclude p hp g hg ↦ ?_ }
  · change b ∈ (if _ then _ else _) at hb
    split_ifs at hb
    · rcases List.mem_append.mp hb with hb | hb
      · exact ht.pending b hb hid
      · obtain rfl := List.mem_singleton.mp hb
        exact absurd hid (ne_of_gt ht.older)
    · exact ht.pending b hb hid
  · refine (ht.covered hinclude p (hslot hp rfl) g hg).imp_right (Or.imp_left ?_)
    rintro ⟨b, hb, hhandler⟩
    refine ⟨b, ?_, hhandler⟩
    change b ∈ (if _ then _ else _)
    split_ifs
    · exact List.mem_append_left _ hb
    · exact hb

theorem Tracked.unregister (ht : s.Tracked h passed) (kind : RecoveryKind) (handler : Handler) :
    (s.unregister kind handler).Tracked h passed := by
  have hslot : ∀ {name p h'}, ((s.unregister kind handler).handlers .resubscribe).slot name
      = some (p, h') → (s.handlers .resubscribe).slot name = some (p, h') := slot_unregister
  obtain ⟨handlers, heq, -⟩ := unregister_eq s kind handler
  rw [heq] at hslot ⊢
  exact { ht with
    unique := fun name p h' hs ↦ ht.unique name p h' (hslot hs)
    calling := fun r hmem hkind h' start hcall ↦
      (ht.calling r hmem hkind h' start hcall).mono (fun _ hp ↦ hslot hp) id
    covered := fun hinclude p hp ↦ ht.covered hinclude p (hslot hp) }

theorem Tracked.run (ht : s.Tracked h passed) (kind : RecoveryKind) :
    (s.run kind).Tracked h passed := by
  have hle := generation_le_run s kind
  exact { ht with
    passed_le := fun g hg ↦ (ht.passed_le g hg).trans hle
    waiting := fun r hmem hkind hwait hpass ↦ by
      rcases mem_runs_run hmem with hmem | ⟨hthis, hgen, -⟩
      · exact ht.waiting r hmem hkind hwait hpass
      · -- the new run has a generation of its own
        have hold := ht.passed_le _ hpass
        rw [hgen, generation_run, if_pos (hthis.symm.trans hkind)] at hold
        omega
    calling := fun r hmem hkind h' start hcall ↦ by
      rcases mem_runs_run hmem with hmem | ⟨-, -, hwait⟩
      · exact ht.calling r hmem hkind h' start hcall
      · rw [hwait] at hcall
        exact nomatch hcall
    covered := fun hinclude p hp g hg ↦
      (ht.covered hinclude p hp g hg).imp_right (Or.imp_right (Or.imp_right (·.trans_le hle))) }

theorem Tracked.bootstrap (ht : s.Tracked h passed) (j : ℕ) :
    (s.bootstrap j).Tracked h passed := by
  rcases bootstrap_cases s j with heq | ⟨b, bootstraps, invocations, hget, heq, hold, hinv, hnext, hkept⟩
  · rwa [heq]
  rw [heq]
  have hmono : ∀ c ∈ s.invocations, c ∈ invocations := by
    rcases hinv with rfl | rfl
    · exact fun c hc ↦ hc
    · exact fun c hc ↦ List.mem_append_left _ hc
  refine { ht with
    calling := fun r hmem hkind h' start hcall ↦
      (ht.calling r hmem hkind h' start hcall).mono (fun _ hp ↦ hp) (hmono _)
    unpassed := fun g hg hpass ↦ ?_
    pending := fun b' hb' hid hpass ↦ ?_
    covered := fun hinclude p hp g hg ↦ ?_ }
  · rcases hinv with rfl | rfl
    · exact ht.unpassed g hg hpass
    · rcases List.mem_append.mp hg with hg | hg
      · exact ht.unpassed g hg hpass
      · obtain ⟨hid, -, rfl⟩ := Invocation.mk.inj (List.mem_singleton.mp hg)
        exact ht.pending b (List.mem_of_getElem? hget) hid.symm hpass
  · obtain ⟨b₀, hmem, hhandler, hgen⟩ := hold b' hb'
    exact ht.pending b₀ hmem (by rwa [hhandler]) (by rwa [hgen])
  · rcases ht.covered hinclude p hp g hg with hinvoked | ⟨b₀, hmem, hhandler, hgen⟩ | hrest
    · exact .inl (hmono _ hinvoked)
    · rcases hkept b₀ hmem with rfl | hmem'
      · -- its own bootstrap: it is called now, or it goes on because it is registered
        rcases hinv with rfl | rfl
        · refine .inr (.inl ?_)
          obtain ⟨b', hmem', hhandler', hgen'⟩ :=
            hnext (decide_eq_true (LiveMap.get_eq_some.mpr ⟨p, by rw [hhandler]; exact hp⟩)) rfl
          exact ⟨b', hmem', hhandler'.trans hhandler, hgen'.trans hgen⟩
        · refine .inl (List.mem_append_right _ ?_)
          rw [← hhandler, ← hgen]
          exact List.mem_cons_self
      · exact .inr (.inl ⟨b₀, hmem', hhandler, hgen⟩)
    · exact .inr (.inr hrest)

/-- **Every step keeps track of the handler.** -/
theorem Tracked.step (ht : s.Tracked h passed) (hs : s.Inv) {e : Event} (hok : ∀ i, e ≠ .fail i) :
    (s.step e).Tracked h passed := by
  cases e with
  | register kind name includeCurrentGeneration => exact ht.register kind name _
  | unregister kind handler => exact ht.unregister kind handler
  | run kind => exact ht.run kind
  | start i =>
    change (s.start i).Tracked h passed
    rcases start_cases (i := i) hs.toChained with heq | ⟨r, hr, hwait, heq⟩
    · rwa [heq]
    · rw [heq]
      by_cases hkind : r.kind = .resubscribe
      · -- a run that starts has passed nothing
        have hmem := List.mem_of_getElem? hr.get
        rw [show s.iterator r.kind = .live 0 by rw [hkind]; rfl]
        exact ht.resume_resubscribe hs hr hkind fun p _ ↦ ⟨.inr (.inl (Nat.zero_le p)),
          fun hpass ↦ absurd hpass (ht.waiting r hmem hkind hwait)⟩
      · exact ht.resume_coldRecover hr hkind
  | complete i =>
    change (s.complete i).Tracked h passed
    rcases complete_cases (i := i) hs.toChained with heq | ⟨r, handler, rest, hr, hcall, heq⟩
    · rwa [heq]
    · rw [heq]
      by_cases hkind : r.kind = .resubscribe
      · have hmem := List.mem_of_getElem? hr.get
        obtain ⟨start, rfl, -⟩ := hs.live r hmem hkind handler rest hcall
        exact ht.resume_resubscribe hs hr hkind (ht.calling r hmem hkind handler start hcall)
      · exact ht.resume_coldRecover hr hkind
  | fail i => exact absurd rfl (hok i)
  | bootstrap j => exact ht.bootstrap j

/-- **The handler that is registered** is tracked, from the runs that have passed its name on. -/
theorem Inv.tracked_register (hs : s.Inv) (name : JsString) (includeCurrentGeneration : Bool) :
    (s.register .resubscribe name includeCurrentGeneration).Tracked
      ⟨s.created, name, includeCurrentGeneration⟩ (s.Passed name) := by
  have hslot : ∀ name', ((s.register .resubscribe name includeCurrentGeneration).handlers
      .resubscribe).slot name' = if name' = name then
        some ((((s.handlers .resubscribe).slot name).map Prod.fst).getD
          (s.handlers .resubscribe).next, ⟨s.created, name, includeCurrentGeneration⟩)
        else (s.handlers .resubscribe).slot name' := by
    intro name'
    change (Function.update s.handlers .resubscribe _ .resubscribe).slot name' = _
    rw [Function.update_self]
    exact LiveMap.slot_set _ _ _ _
  have hposition : ∀ p, (s.register .resubscribe name includeCurrentGeneration).Registered
      ⟨s.created, name, includeCurrentGeneration⟩ p →
      (∃ old, (s.handlers .resubscribe).slot name = some (p, old)) ∨
        ((s.handlers .resubscribe).slot name = none ∧ p = (s.handlers .resubscribe).next) := by
    intro p hp
    rw [Registered, hslot, if_pos rfl] at hp
    obtain ⟨rfl, -⟩ := Prod.mk.inj (Option.some_inj.mp hp)
    cases (s.handlers .resubscribe).slot name with
    | some p => exact .inl ⟨p.2, rfl⟩
    | none => exact .inr ⟨rfl, rfl⟩
  have hinvoked : ∀ g, ¬s.Invoked s.created g := fun g hg ↦
    absurd (hs.invoked_lt _ hg rfl) (lt_irrefl _)
  refine ⟨Nat.lt_succ_self _, fun name' p h' hs' hid ↦ ?_, fun g hg ↦ ?_,
    fun r hmem hkind hwait hpass ↦ ?_, fun r hmem hkind h' start hcall p hp ↦ ?_,
    fun g hg ↦ absurd hg (hinvoked g), fun b hb hid hpass ↦ ?_, fun hinclude p hp g hg ↦ ?_⟩
  · rw [hslot] at hs'
    split_ifs at hs'
    · exact (Prod.mk.inj (Option.some_inj.mp hs')).2.symm
    · exact absurd hid (ne_of_lt (hs.named _ _ _ _ hs').2)
  · obtain ⟨r, hmem, hkind, rfl, -⟩ := hg
    exact hs.bounded r hmem hkind
  · -- a run that waits is another one than the run that has passed the name
    obtain ⟨r', hmem', hkind', hgen, handler, start, hcall, -⟩ := hpass
    obtain ⟨j, hj⟩ := List.mem_iff_getElem?.mp hmem
    obtain ⟨k, hk⟩ := List.mem_iff_getElem?.mp hmem'
    rcases Nat.lt_trichotomy j k with hlt | rfl | hgt
    · exact absurd hgen.symm (ne_of_lt (hs.increasing j k r r' hlt hj hk hkind hkind'))
    · obtain rfl := Option.some_inj.mp (hj.symm.trans hk)
      rw [hwait] at hcall
      cases hcall
    · exact absurd hgen (ne_of_lt (hs.increasing k j r' r hgt hk hj hkind' hkind))
  · obtain ⟨start', heq, hle⟩ := hs.live r hmem hkind h' _ hcall
    obtain rfl := HandlerIterator.live.inj heq
    rcases hposition p hp with ⟨old, hold⟩ | ⟨hnone, rfl⟩
    · refine ⟨.inr ?_, fun hpass ↦ ?_⟩
      · rcases Nat.lt_or_ge p start with hlt | hge
        · exact .inr ⟨r, hmem, hkind, rfl, h', start, hcall, p, old, hold, hlt⟩
        · exact .inl hge
      · -- only one run is in progress
        obtain ⟨r', hmem', -, -, handler, start', hcall', q, old', hq, hlt⟩ := hpass
        obtain ⟨j, hj⟩ := List.mem_iff_getElem?.mp hmem
        obtain ⟨k, hk⟩ := List.mem_iff_getElem?.mp hmem'
        obtain rfl := hs.toChained.calling_unique hj hk hcall hcall'
        obtain rfl := Option.some_inj.mp (hj.symm.trans hk)
        rw [hcall] at hcall'
        injection hcall' with _ hstart
        obtain rfl := HandlerIterator.live.inj hstart
        obtain ⟨rfl, -⟩ := Prod.mk.inj (Option.some_inj.mp (hold.symm.trans hq))
        exact hlt
    · refine ⟨.inr (.inl hle), fun hpass ↦ ?_⟩
      obtain ⟨-, -, -, -, -, -, -, q, old, hq, -⟩ := hpass
      rw [hnone] at hq
      cases hq
  · -- a bootstrap of the handler is for a generation that is complete
    change b ∈ (if _ then _ else _) at hb
    split_ifs at hb with hlate
    · rcases List.mem_append.mp hb with hb | hb
      · exact absurd hid (ne_of_lt (hs.bootstraps_lt b hb))
      · obtain rfl := List.mem_singleton.mp hb
        obtain ⟨r, hmem, hkind, hgen, handler, start, hcall, -⟩ := hpass
        have hlt := hs.outstanding _ hlate.2.2 r hmem hkind (by rw [hcall]; rintro ⟨⟩)
        exact absurd hgen (ne_of_gt hlt)
    · exact absurd hid (ne_of_lt (hs.bootstraps_lt b hb))
  · rcases (hs.completed_le g hg).lt_or_eq with hlt | rfl
    · exact .inr (.inr (.inr hlt))
    · refine .inr (.inl ⟨⟨⟨s.created, name, includeCurrentGeneration⟩, s.generation, .queued⟩, ?_,
        rfl, rfl⟩)
      change _ ∈ (if _ then _ else _)
      rw [if_pos ⟨rfl, hinclude, hg⟩]
      exact List.mem_append_right _ List.mem_cons_self

/-- In a quiescent state the last generation is the one that is complete. -/
theorem Inv.completed_of_quiescent (hs : s.Inv) (hq : s.Quiescent) {g : ℕ}
    (hg : s.completedGeneration .resubscribe = some g) : ¬g < s.generation := by
  intro hlt
  rcases hs.latest with hzero | ⟨r, hmem, hkind, hgen⟩
  · omega
  · have hdone := (hq.1 r hmem).resolve_right (hs.unfailed r hmem)
    obtain ⟨g', hg', hle⟩ := hs.completed r hmem hkind hdone
    obtain rfl := Option.some_inj.mp (hg.symm.trans hg')
    omega

end

/-! ## A handler that is only for future generations -/

section

variable {s : RecoveryCoordinator} {i : ℕ} {r : RecoveryRun} {iter : HandlerIterator} {id₀ g₀ : ℕ}

/-- What holds of a handler for future generations that was registered while no run was left. -/
structure Later (s : RecoveryCoordinator) (id₀ g₀ : ℕ) : Prop where
  older : id₀ < s.created
  le : g₀ ≤ s.generation
  outstanding : ∀ r ∈ s.runs, r.kind = .resubscribe → ¬r.Ended → g₀ < r.generation
  invoked : ∀ g, s.Invoked id₀ g → g₀ < g
  bootstraps : ∀ b ∈ s.bootstraps, b.handler.id ≠ id₀

theorem Later.resume (hl : s.Later id₀ g₀) (hr : s.Ready i r) : (s.resume i r iter).Later id₀ g₀ := by
  have hset : ∀ {phase : RunPhase}, ∀ r' ∈ s.runs.set i { r with phase := phase },
      r'.kind = .resubscribe → ¬r'.Ended → g₀ < r'.generation := by
    intro phase r' hmem hkind hended
    rcases mem_runs_set hr hmem with rfl | ⟨j, -, hget⟩
    · exact hl.outstanding r (List.mem_of_getElem? hr.get) hkind hr.unended
    · exact hl.outstanding r' (List.mem_of_getElem? hget) hkind hended
  rw [RecoveryCoordinator.resume]
  split
  · refine { hl with outstanding := hset, invoked := fun g hg ↦ ?_ }
    rcases List.mem_append.mp hg with hg | hg
    · exact hl.invoked g hg
    · obtain ⟨-, hkind, rfl⟩ := Invocation.mk.inj (List.mem_singleton.mp hg)
      exact hl.outstanding r (List.mem_of_getElem? hr.get) hkind.symm hr.unended
  · exact { hl with outstanding := hset }

theorem Later.step (hl : s.Later id₀ g₀) (hs : s.Inv) {e : Event} (hok : ∀ i, e ≠ .fail i) :
    (s.step e).Later id₀ g₀ := by
  cases e with
  | register kind name includeCurrentGeneration =>
    refine { hl with older := hl.older.trans (Nat.lt_succ_self _), bootstraps := fun b hb ↦ ?_ }
    change b ∈ (if _ then _ else _) at hb
    split_ifs at hb
    · rcases List.mem_append.mp hb with hb | hb
      · exact hl.bootstraps b hb
      · obtain rfl := List.mem_singleton.mp hb
        exact ne_of_gt hl.older
    · exact hl.bootstraps b hb
  | unregister kind handler =>
    change (s.unregister kind handler).Later id₀ g₀
    obtain ⟨handlers, heq, -⟩ := unregister_eq s kind handler
    rw [heq]
    exact { hl with }
  | run kind =>
    have hle := generation_le_run s kind
    refine { hl with le := hl.le.trans hle, outstanding := fun r hmem hkind hended ↦ ?_ }
    rcases mem_runs_run hmem with hmem | ⟨hthis, hgen, -⟩
    · exact hl.outstanding r hmem hkind hended
    · have hold := hl.le
      rw [hgen, generation_run, if_pos (hthis.symm.trans hkind)]
      omega
  | start i =>
    change (s.start i).Later id₀ g₀
    rcases start_cases (i := i) hs.toChained with heq | ⟨r, hr, -, heq⟩
    · rwa [heq]
    · rw [heq]
      exact hl.resume hr
  | complete i =>
    change (s.complete i).Later id₀ g₀
    rcases complete_cases (i := i) hs.toChained with heq | ⟨r, handler, rest, hr, -, heq⟩
    · rwa [heq]
    · rw [heq]
      exact hl.resume hr
  | fail i => exact absurd rfl (hok i)
  | bootstrap j =>
    change (s.bootstrap j).Later id₀ g₀
    rcases bootstrap_cases s j with heq | ⟨b, bootstraps, invocations, hget, heq, hold, hinv, -, -⟩
    · rwa [heq]
    rw [heq]
    refine { hl with invoked := fun g hg ↦ ?_, bootstraps := fun b' hb' ↦ ?_ }
    · rcases hinv with rfl | rfl
      · exact hl.invoked g hg
      · rcases List.mem_append.mp hg with hg | hg
        · exact hl.invoked g hg
        · obtain ⟨hid, -, -⟩ := Invocation.mk.inj (List.mem_singleton.mp hg)
          exact absurd hid.symm (hl.bootstraps b (List.mem_of_getElem? hget))
    · obtain ⟨b₀, hmem, hhandler, -⟩ := hold b' hb'
      rw [← hhandler]
      exact hl.bootstraps b₀ hmem

theorem Inv.later_register (hs : s.Inv) (hnone : s.NoneOutstanding) (name : JsString) :
    (s.register .resubscribe name false).Later s.created s.generation where
  older := Nat.lt_succ_self _
  le := le_rfl
  outstanding r hmem hkind hended := absurd (hnone r hmem hkind) hended
  invoked g hg := absurd (hs.invoked_lt _ hg rfl) (lt_irrefl _)
  bootstraps b hb := by
    simp only [RecoveryCoordinator.register, Bool.false_eq_true, false_and, and_false, if_false] at hb
    exact ne_of_lt (hs.bootstraps_lt b hb)

end

/-! ## Whole runs -/

section

variable {events before : List Event} {e : Event}

theorem NoFailure.of_prefix (hok : NoFailure events) (h : before <+: events) : NoFailure before :=
  fun i hmem ↦ hok i (h.subset hmem)

theorem NoFailure.last (hok : NoFailure (events ++ [e])) (i : ℕ) : e ≠ .fail i := by
  rintro rfl
  exact hok i (List.mem_append_right _ List.mem_cons_self)

theorem inv_after (hok : NoFailure events) : (after events).Inv := by
  induction events using List.reverseRecOn with
  | nil => exact inv_initial
  | append_singleton events e ih =>
    rw [after_concat]
    exact (ih (hok.of_prefix (List.prefix_append _ _))).step hok.last

/-- A property of the coordinator that an event establishes and every step keeps. -/
theorem holds_after {P : RecoveryCoordinator → Prop} (hok : NoFailure events)
    (hfirst : P ((after before).step e))
    (hstep : ∀ s e, RecoveryCoordinator.Inv s → (∀ i, e ≠ .fail i) → P s → P (s.step e))
    (h : before ++ [e] <+: events) : P (after events) := by
  obtain ⟨rest, rfl⟩ := h
  induction rest using List.reverseRecOn with
  | nil => rwa [List.append_nil, after_concat]
  | append_singleton rest e' ih =>
    rw [← List.append_assoc] at hok ⊢
    have hok' := hok.of_prefix (List.prefix_append _ _)
    rw [after_concat]
    exact hstep _ _ (inv_after hok') hok.last (ih hok')

/-- Every handler in the map comes from a registration. -/
theorem exists_register {name : JsString} {p : ℕ} {h : Handler}
    (hslot : ((after events).handlers .resubscribe).slot name = some (p, h)) :
    ∃ before, before ++ [.register .resubscribe name h.includeCurrentGeneration] <+: events ∧
      h = ⟨(after before).created, name, h.includeCurrentGeneration⟩ := by
  induction events using List.reverseRecOn with
  | nil => exact nomatch hslot
  | append_singleton events e ih =>
    have hold : ((after events).handlers .resubscribe).slot name = some (p, h) →
        ∃ before, before ++ [.register .resubscribe name h.includeCurrentGeneration]
          <+: events ++ [e] ∧ h = ⟨(after before).created, name, h.includeCurrentGeneration⟩ := by
      intro hslot
      obtain ⟨before, hpre, heq⟩ := ih hslot
      exact ⟨before, hpre.trans (List.prefix_append _ _), heq⟩
    rw [after_concat] at hslot
    have hresume : ∀ i r iter, (((after events).resume i r iter).handlers .resubscribe).slot name
        = some (p, h) → ((after events).handlers .resubscribe).slot name = some (p, h) := by
      intro i r iter hslot
      rw [resume] at hslot
      split at hslot <;> exact hslot
    cases e with
    | register kind name' includeCurrentGeneration =>
      change (Function.update (after events).handlers kind _ .resubscribe).slot name
        = some (p, h) at hslot
      rw [Function.update_apply] at hslot
      split_ifs at hslot with hkind
      · rw [LiveMap.slot_set] at hslot
        split_ifs at hslot with hname
        · obtain ⟨-, rfl⟩ := Prod.mk.inj (Option.some_inj.mp hslot)
          subst hkind hname
          exact ⟨events, List.prefix_rfl, rfl⟩
        · exact hold (hkind ▸ hslot)
      · exact hold hslot
    | unregister kind handler => exact hold (slot_unregister hslot)
    | run kind => exact hold hslot
    | start i =>
      rcases start_cases (i := i) (chained_after events) with heq | ⟨r, -, -, heq⟩
      · exact hold (by rw [← heq]; exact hslot)
      · exact hold (hresume i r _ (by rw [← heq]; exact hslot))
    | complete i =>
      rcases complete_cases (i := i) (chained_after events) with heq | ⟨r, -, rest, -, -, heq⟩
      · exact hold (by rw [← heq]; exact hslot)
      · exact hold (hresume i r _ (by rw [← heq]; exact hslot))
    | fail i =>
      change (((after events).fail i).handlers .resubscribe).slot name = some (p, h) at hslot
      rw [fail] at hslot
      split at hslot
      · split at hslot <;> exact hold hslot
      · exact hold hslot
    | bootstrap j =>
      rcases bootstrap_cases (after events) j with heq | ⟨_, bootstraps, invocations, -, heq, -⟩
      · exact hold (by rw [← heq]; exact hslot)
      · change (((after events).bootstrap j).handlers .resubscribe).slot name = some (p, h) at hslot
        rw [heq] at hslot
        exact hold hslot

/-- **Which handlers are bootstrapped.** While no call fails, at most one run is in progress; in a
quiescent state a registered handler that asks for the current generation has been called for the
generation that completed last, unless it was registered when the run of that generation had passed
its name; and a handler for future generations that was registered while no resubscribe run was left
is only called for generations that were requested later. -/
theorem bootstrapped_iff (events : List Event) (hok : NoFailure events) :
    (∀ (i j : ℕ) (r r' : RecoveryRun) (h h' : Handler) (rest rest' : HandlerIterator),
      (after events).runs[i]? = some r → (after events).runs[j]? = some r' →
      r.phase = .calling h rest → r'.phase = .calling h' rest' → i = j) ∧
    ((after events).Quiescent → ∀ g, (after events).completedGeneration .resubscribe = some g →
      ∀ name h, ((after events).handlers .resubscribe).get name = some h →
        h.includeCurrentGeneration = true →
        ∃ before, before ++ [.register .resubscribe name true] <+: events ∧
          h.id = (after before).created ∧
          ((after events).Invoked h.id g ↔ ¬(after before).Passed name g)) ∧
    ∀ before name, before ++ [.register .resubscribe name false] <+: events →
      (after before).NoneOutstanding →
      ∀ g, (after events).Invoked (after before).created g → (after before).generation < g := by
  refine ⟨fun i j r r' h h' rest rest' hi hj hcall hcall' ↦
    (chained_after events).calling_unique hi hj hcall hcall',
    fun hq g hg name h hget hinclude ↦ ?_, fun before name hpre hnone g hg ↦ ?_⟩
  · obtain ⟨p, hslot⟩ := LiveMap.get_eq_some.mp hget
    obtain ⟨before, hpre, heq⟩ := exists_register hslot
    rw [hinclude] at hpre heq
    have hbefore := inv_after (hok.of_prefix ((List.prefix_append _ _).trans hpre))
    have htracked : (after events).Tracked h ((after before).Passed name) := by
      refine holds_after (P := fun s ↦ s.Tracked h ((after before).Passed name)) hok ?_
        (fun s e hs he ht ↦ ht.step hs he) hpre
      rw [heq]
      exact hbefore.tracked_register name true
    refine ⟨before, hpre, by rw [heq], htracked.unpassed g, fun hnot ↦ ?_⟩
    have hregistered : (after events).Registered h p := by
      rw [Registered, show h.name = name by rw [heq]]
      exact hslot
    -- nothing is left to do, so the handler has been called or passed
    rcases htracked.covered hinclude p hregistered g hg with hinvoked | ⟨b, hb, -⟩ | hpass | hlt
    · exact hinvoked
    · rw [hq.2] at hb
      exact absurd hb List.not_mem_nil
    · exact absurd hpass hnot
    · exact absurd hlt ((inv_after hok).completed_of_quiescent hq hg)
  · have hbefore := inv_after (hok.of_prefix ((List.prefix_append _ _).trans hpre))
    have hlater : (after events).Later (after before).created (after before).generation := by
      refine holds_after (P := fun s ↦ s.Later (after before).created (after before).generation) hok
        ?_ (fun s e hs he hl ↦ hl.step hs he) hpre
      exact hbefore.later_register hnone name
    exact hlater.invoked g hg

/-- A handler is registered, a run calls it, and another one is registered late. -/
def lateRegistration : List Event :=
  [.register .resubscribe (lit "a") true, .run .resubscribe, .start 0, .complete 0,
    .register .resubscribe (lit "b") true, .bootstrap 0, .bootstrap 0]

theorem bootstrapped_iff_of_lateRegistration :
    (∃ before, before ++ [.register .resubscribe (lit "b") true] <+: lateRegistration ∧
      1 = (after before).created ∧
      ((after lateRegistration).Invoked 1 1 ↔ ¬(after before).Passed (lit "b") 1)) ∧
    (after lateRegistration).Invoked 1 1 := by
  have hok : NoFailure lateRegistration := by
    intro i hmem
    simp [lateRegistration] at hmem
  have hquiescent : (after lateRegistration).Quiescent := ⟨by decide +kernel, by decide +kernel⟩
  exact ⟨(bootstrapped_iff lateRegistration hok).2.1 hquiescent 1 (by decide +kernel) (lit "b")
    ⟨1, lit "b", true⟩ (by decide +kernel) rfl, by
      change _ ∈ (after lateRegistration).invocations
      decide +kernel⟩

/-- A handler is replaced while the run waits for the next one. -/
def replacedDuringRun : List Event :=
  [.register .resubscribe (lit "first") true, .register .resubscribe (lit "slow") true,
    .run .resubscribe, .start 0, .complete 0, .register .resubscribe (lit "first") true, .complete 0]

/-- Not every registered handler has been called for the generation that is complete. -/
theorem not_all_bootstrapped : ¬∀ events, NoFailure events → (after events).Quiescent →
    ∀ g, (after events).completedGeneration .resubscribe = some g →
      ∀ name h, ((after events).handlers .resubscribe).get name = some h →
        h.includeCurrentGeneration = true → (after events).Invoked h.id g := by
  intro hclaim
  have hok : NoFailure replacedDuringRun := by
    intro i hmem
    simp [replacedDuringRun] at hmem
  have hquiescent : (after replacedDuringRun).Quiescent := ⟨by decide +kernel, by decide +kernel⟩
  have hinvoked := hclaim replacedDuringRun hok hquiescent 1 (by decide +kernel) (lit "first")
    ⟨2, lit "first", true⟩ (by decide +kernel) rfl
  have hnot : (⟨2, .resubscribe, 1⟩ : Invocation) ∉ (after replacedDuringRun).invocations := by
    decide +kernel
  exact hnot hinvoked

end

end RecoveryCoordinator

end Vibestudio.Rpc

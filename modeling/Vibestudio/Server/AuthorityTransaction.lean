import Mathlib
import Vibestudio.Js.Value
import Vibestudio.Sqlite.Connection

/-!
# Nested authority transactions

`transaction`, `afterCommit` and `runCommittedEffects` of
`src/server/services/capabilityGrantStore.ts`. The outermost call of `transaction` is a database
transaction, a nested one a savepoint. Live effects are collected in one array for each call, handed
to the array of the enclosing call when a call completes, and run when the outermost has committed.

A piece of work is a tree: what it writes, which effects it registers, where it throws, which nested
calls it makes and whether it catches what they throw. An effect is work too, done outside of any
transaction, and may make calls of its own. The arrays live in a heap, because a call goes on pushing
to the array it has created whatever `transactionEffects` refers to meanwhile.

`outcome`, `writes` and `registered` say what a piece of work amounts to without looking at the
store; `transaction_tree` says that the store does just that.
-/

namespace Vibestudio.Server

open Js Sqlite

/-! ## Work -/

/-- The statements of one call that fail by themselves: its opening statement, its result being a
promise, its closing statement. -/
structure Fault where
  opens : Bool
  thenable : Bool
  closes : Bool

/-- A piece of work on a database of type `D` with effects named by `E`. -/
inductive Work (D E : Type) where
  | done
  | throw (message : JsString)
  | write (f : D → D) (next : Work D E)
  | afterCommit (effect : E) (body : Work D E) (next : Work D E)
  | transaction (fault : Fault) (work : Work D E) (caught : Bool) (next : Work D E)

/-- What is thrown. -/
inductive AuthorityError where
  | thrown (message : JsString)
  | effectsRequireTransaction
  | requireSynchronousWork
  | sql
  | rollbackFailed (error : AuthorityError)
  | liveEffectsFailed (failures : List AuthorityError)

/-- The message of an error. A failed statement has the message of the database. -/
def AuthorityError.message? : AuthorityError → Option JsString
  | thrown message => some message
  | effectsRequireTransaction => some (lit "Authority live effects require a transaction")
  | requireSynchronousWork => some (lit "Authority transactions require synchronous work")
  | sql => none
  | rollbackFailed _ => some (lit "Authority transaction and rollback failed")
  | liveEffectsFailed _ => some (lit "Authority changes committed, but live effects failed")

abbrev Result := Except AuthorityError Unit

variable {D E : Type}

/-! ## The store -/

/-- The store. `transactionEffects` is a reference into the heap `arrays`, of which the first
`allocated` are in use, and `ran` lists the effects that have been started, each with the connection
it found. -/
structure Store (D E : Type) where
  connection : Connection D JsString
  transactionDepth : ℕ
  transactionEffects : Option ℕ
  arrays : ℕ → List (E × Work D E)
  allocated : ℕ
  ran : List (E × Connection D JsString)

namespace Store

variable (s : Store D E)

def write (f : D → D) : Store D E :=
  { s with connection := { s.connection with db := f s.connection.db } }

/-- `array.push(...effects)`. -/
def push (array : ℕ) (effects : List (E × Work D E)) : Store D E :=
  { s with arrays := Function.update s.arrays array (s.arrays array ++ effects) }

/-- `this.db.exec(command)`. -/
def exec (command : Command JsString) : Option (Store D E) :=
  (s.connection.exec command).map fun connection ↦ { s with connection }

/-- The opening statement done, with a new array for the effects of this call. -/
def enter : Store D E :=
  { s with
    transactionDepth := s.transactionDepth + 1
    transactionEffects := some s.allocated
    arrays := Function.update s.arrays s.allocated []
    allocated := s.allocated + 1 }

/-- The `finally` block. -/
def leave (parentEffects : Option ℕ) : Store D E :=
  { s with
    transactionDepth := s.transactionDepth - 1
    transactionEffects := parentEffects }

end Store

/-- The loop of `runCommittedEffects`, given how to do an effect. -/
def runCommittedEffects (run : Work D E → Store D E → Option (Store D E × Result)) :
    List (E × Work D E) → List AuthorityError → Store D E → Option (Store D E × Result)
  | [], failures, s =>
    some (s, if failures = [] then .ok () else .error (.liveEffectsFailed failures))
  | (effect, body) :: rest, failures, s =>
    (run body { s with ran := s.ran ++ [(effect, s.connection)] }).bind fun
      | (s, .ok ()) => runCommittedEffects run rest failures s
      | (s, .error e) => runCommittedEffects run rest (failures ++ [e]) s

/-- The end of the `try` block: the result of the work is looked at, and the call is closed. -/
def close (nested : Bool) (savepoint : JsString) (fault : Fault) (s : Store D E) :
    Result → Except AuthorityError (Store D E)
  | .error e => .error e
  | .ok () =>
    if fault.thenable then .error .requireSynchronousWork
    else if fault.closes then .error .sql
    else match s.exec (if nested then .release savepoint else .commit) with
      | none => .error .sql
      | some s => .ok s

/-- The `catch` block: undo, and throw again. -/
def undo (nested : Bool) (savepoint : JsString) (error : AuthorityError) (s : Store D E) :
    Store D E × AuthorityError :=
  if nested then match s.exec (.rollbackTo savepoint) with
    | none => (s, .rollbackFailed error)
    | some s' => match s'.exec (.release savepoint) with
      | none => (s', .rollbackFailed error)
      | some s'' => (s'', error)
  else match s.exec .rollback with
    | none => (s, .rollbackFailed error)
    | some s' => (s', error)

/-- `transaction`, given how to do the work and the effects. -/
def transaction (run : Work D E → Store D E → Option (Store D E × Result)) (fault : Fault)
    (work : Work D E) (s : Store D E) : Option (Store D E × Result) :=
  let parentEffects := s.transactionEffects
  let effects := s.allocated
  let savepoint := lit "authority_" ++ decimalText s.transactionDepth
  match (if fault.opens then none
    else s.exec (if parentEffects.isSome then .savepoint savepoint else .begin)) with
  | none => some (s, .error .sql)
  | some s => (run work s.enter).bind fun (s, result) ↦
    match close parentEffects.isSome savepoint fault s result with
    | .error e =>
      let undone := undo parentEffects.isSome savepoint e s
      some (undone.1.leave parentEffects, .error undone.2)
    | .ok s => match parentEffects with
      | some parent => some ((s.leave parentEffects).push parent (s.arrays effects), .ok ())
      | none => runCommittedEffects run (s.arrays effects) [] (s.leave parentEffects)

/-- Doing a piece of work. The fuel bounds the calls that are open at once. -/
def exec : ℕ → Work D E → Store D E → Option (Store D E × Result)
  | 0, _, _ => none
  | _ + 1, .done, s => some (s, .ok ())
  | _ + 1, .throw message, s => some (s, .error (.thrown message))
  | n + 1, .write f next, s => exec n next (s.write f)
  | n + 1, .afterCommit effect body next, s => match s.transactionEffects with
    | none => some (s, .error .effectsRequireTransaction)
    | some array => exec n next (s.push array [(effect, body)])
  | n + 1, .transaction fault work caught next, s =>
    (transaction (exec n) fault work s).bind fun
      | (s, .ok ()) => exec n next s
      | (s, .error e) => if caught then exec n next s else some (s, .error e)

/-! ## What the work amounts to -/

/-- How a call ends, given how its work does. -/
def Fault.verdict (fault : Fault) (result : Result) : Result :=
  if fault.opens then .error .sql
  else match result with
    | .error e => .error e
    | .ok () =>
      if fault.thenable then .error .requireSynchronousWork
      else if fault.closes then .error .sql else .ok ()

/-- A database without an open transaction, and the effects started so far. -/
abbrev World (D E : Type) := D × List (E × Connection D JsString)

/-- The effects of a commit, one after the other, each exactly once. -/
def runPending : List (E × (World D E → World D E × Result)) → List AuthorityError → World D E →
    World D E × Result
  | [], failures, w => (w, if failures = [] then .ok () else .error (.liveEffectsFailed failures))
  | (effect, body) :: rest, failures, w =>
    let (w, result) := body (w.1, w.2 ++ [(effect, .idle w.1)])
    match result with
    | .ok () => runPending rest failures w
    | .error e => runPending rest (failures ++ [e]) w

namespace Work

/-- How work inside a transaction ends. -/
def outcome : Work D E → Result
  | done => .ok ()
  | throw message => .error (.thrown message)
  | write _ next | afterCommit _ _ next => next.outcome
  | transaction fault work caught next => match fault.verdict work.outcome with
    | .ok () => next.outcome
    | .error e => if caught then next.outcome else .error e

/-- A call completes. -/
def completes (fault : Fault) (work : Work D E) : Bool :=
  (fault.verdict work.outcome).toOption.isSome

/-- The writes of the calls that complete, all of whose ancestors do. -/
def writes : Work D E → D → D
  | done, d | throw _, d => d
  | write f next, d => next.writes (f d)
  | afterCommit _ _ next, d => next.writes d
  | transaction fault work _ next, d =>
    next.writes (if completes fault work then work.writes d else d)

/-- The effects of the same calls, in the order of their registration. -/
def registered : Work D E → List (E × Work D E)
  | done | throw _ => []
  | write _ next => next.registered
  | afterCommit effect body next => (effect, body) :: next.registered
  | transaction fault work _ next =>
    (if completes fault work then work.registered else []) ++ next.registered

mutual

/-- What work does outside of any transaction. -/
def outer : Work D E → World D E → World D E × Result
  | done, w => (w, .ok ())
  | throw message, w => (w, .error (.thrown message))
  | write f next, w => next.outer (f w.1, w.2)
  | afterCommit _ _ _, w => (w, .error .effectsRequireTransaction)
  | transaction fault work caught next, w =>
    let called : World D E × Result := match fault.verdict work.outcome with
      | .error e => (w, .error e)
      | .ok () => runPending work.pending [] (work.writes w.1, w.2)
    match called.2 with
    | .ok () => next.outer called.1
    | .error e => if caught then next.outer called.1 else (called.1, .error e)

/-- The registered effects with what they do. -/
def pending : Work D E → List (E × (World D E → World D E × Result))
  | done | throw _ => []
  | write _ next => next.pending
  | afterCommit effect body next => (effect, body.outer) :: next.pending
  | transaction fault work _ next =>
    (if completes fault work then work.pending else []) ++ next.pending

end

theorem pending_eq (w : Work D E) : w.pending = w.registered.map fun p ↦ (p.1, p.2.outer) := by
  induction w with
  | done | throw => rfl
  | write f next ih => exact ih
  | afterCommit effect body next _ ih => rw [pending, ih, registered, List.map_cons]
  | transaction fault work caught next ihw ih =>
    rw [pending, ih, registered, List.map_append, ihw]
    split_ifs <;> rfl

/-- A fuel that is enough. -/
def size : Work D E → ℕ
  | done | throw _ => 1
  | write _ next => next.size + 1
  | afterCommit _ body next => body.size + next.size + 1
  | transaction _ work _ next => work.size + next.size + 1

theorem size_registered (w : Work D E) : ∀ p ∈ w.registered, p.2.size ≤ w.size := by
  induction w with
  | done | throw => intro p hp; exact absurd hp List.not_mem_nil
  | write f next ih =>
    intro p hp
    exact (ih p hp).trans (Nat.le_succ _)
  | afterCommit effect body next _ ih =>
    intro p hp
    rcases List.mem_cons.mp hp with rfl | hp
    · simp only [size]
      omega
    · have := ih p hp
      simp only [size]
      omega
  | transaction fault work caught next ihw ih =>
    intro p hp
    simp only [size]
    rcases List.mem_append.mp hp with hp | hp
    · split_ifs at hp
      · have := ihw p hp
        omega
      · exact absurd hp List.not_mem_nil
    · have := ih p hp
      omega

end Work

/-! ## Inside a transaction -/

/-- A call is in progress and collects its effects in `array`. -/
structure Store.Inside (s : Store D E) (array : ℕ) : Prop where
  effects : s.transactionEffects = some array
  allocated : array < s.allocated
  begun : s.connection.begun.isSome

/-- What work inside a transaction leaves as it is. -/
structure Store.Frame (s s' : Store D E) (array : ℕ) : Prop where
  depth : s'.transactionDepth = s.transactionDepth
  effects : s'.transactionEffects = s.transactionEffects
  begun : s'.connection.begun = s.connection.begun
  savepoints : s'.connection.savepoints = s.connection.savepoints
  ran : s'.ran = s.ran
  allocated : s.allocated ≤ s'.allocated
  arrays : ∀ i < s.allocated, i ≠ array → s'.arrays i = s.arrays i

namespace Store

variable {s s' s'' : Store D E} {array : ℕ}

theorem arrays_push (effects : List (E × Work D E)) :
    (s.push array effects).arrays array = s.arrays array ++ effects := Function.update_self ..

theorem Frame.refl (s : Store D E) (array : ℕ) : Frame s s array :=
  ⟨rfl, rfl, rfl, rfl, rfl, le_rfl, fun _ _ _ ↦ rfl⟩

theorem Frame.trans (h : Frame s s' array) (h' : Frame s' s'' array) : Frame s s'' array where
  depth := h'.depth.trans h.depth
  effects := h'.effects.trans h.effects
  begun := h'.begun.trans h.begun
  savepoints := h'.savepoints.trans h.savepoints
  ran := h'.ran.trans h.ran
  allocated := h.allocated.trans h'.allocated
  arrays i hi hne := (h'.arrays i (hi.trans_le h.allocated) hne).trans (h.arrays i hi hne)

theorem Inside.frame (h : s.Inside array) (hf : Frame s s' array) : s'.Inside array :=
  ⟨hf.effects.trans h.effects, h.allocated.trans_le hf.allocated, hf.begun ▸ h.begun⟩

end Store

/-- How a piece of work is done inside a transaction. -/
def DoneInside (run : Work D E → Store D E → Option (Store D E × Result)) (w : Work D E) : Prop :=
  ∀ (s : Store D E) (array : ℕ), s.Inside array → ∃ s', run w s = some (s', w.outcome) ∧
    s.Frame s' array ∧ (w.outcome = .ok () → s'.connection.db = w.writes s.connection.db ∧
      s'.arrays array = s.arrays array ++ w.registered)

/-! ### The statements that close a call -/

section

variable {s : Store D E} {savepoint : JsString} {d : D} {rest : List (JsString × D)}

theorem close_nested {fault : Fault} (hopens : ¬fault.opens = true)
    (h : s.connection.savepoints = (savepoint, d) :: rest) (result : Result) :
    close true savepoint fault s result = (fault.verdict result).map fun _ ↦
      { s with connection := { s.connection with savepoints := rest } } := by
  have hexec : s.exec (.release savepoint) =
      some { s with connection := { s.connection with savepoints := rest } } := by
    rw [Store.exec, Connection.exec, h, fromName_cons]
    rfl
  rw [Fault.verdict.eq_def, if_neg hopens]
  cases result with
  | error e => rfl
  | ok =>
    rw [close, if_pos rfl, hexec]
    simp only
    split_ifs <;> rfl

theorem undo_nested (h : s.connection.savepoints = (savepoint, d) :: rest) (e : AuthorityError) :
    undo true savepoint e s = ({ s with connection := ⟨d, s.connection.begun, rest⟩ }, e) := by
  have hback : s.exec (.rollbackTo savepoint) = some { s with
      connection := ⟨d, s.connection.begun, (savepoint, d) :: rest⟩ } := by
    rw [Store.exec, Connection.exec, h, fromName_cons]
    rfl
  rw [undo, if_pos rfl, hback]
  simp only [Store.exec, exec_release, Option.map_some]

theorem close_outermost {fault : Fault} (hopens : ¬fault.opens = true)
    (h : s.connection.begun = some d) (result : Result) :
    close false savepoint fault s result = (fault.verdict result).map fun _ ↦
      { s with connection := .idle s.connection.db } := by
  have hexec : s.exec .commit = some { s with connection := .idle s.connection.db } := by
    rw [Store.exec, Connection.exec, h]
    rfl
  rw [Fault.verdict.eq_def, if_neg hopens]
  cases result with
  | error e => rfl
  | ok =>
    rw [close, if_neg Bool.false_ne_true, hexec]
    simp only
    split_ifs <;> rfl

theorem undo_outermost (h : s.connection.begun = some d) (e : AuthorityError) :
    undo false savepoint e s = ({ s with connection := .idle d }, e) := by
  rw [undo, if_neg Bool.false_ne_true, Store.exec, Connection.exec, h]
  rfl

end

theorem completes_eq {fault : Fault} {work : Work D E} :
    work.completes fault = true ↔ fault.verdict work.outcome = .ok () := by
  rw [Work.completes]
  cases fault.verdict work.outcome <;> simp [Except.toOption]

theorem outcome_of_verdict {fault : Fault} {result : Result} (h : fault.verdict result = .ok ()) :
    result = .ok () := by
  cases result with
  | ok => rfl
  | error e =>
    rw [Fault.verdict.eq_def] at h
    split_ifs at h

/-- **A nested call**: its savepoint is gone again, its writes and effects are those of the work or
none, and nothing has run. -/
theorem transaction_inside {run : Work D E → Store D E → Option (Store D E × Result)}
    {work : Work D E} (hrun : DoneInside run work) (fault : Fault) {s : Store D E} {array : ℕ}
    (hs : s.Inside array) : ∃ s', transaction run fault work s =
      some (s', fault.verdict work.outcome) ∧ s.Frame s' array ∧
      s'.connection.db = (if work.completes fault then work.writes s.connection.db
        else s.connection.db) ∧
      s'.arrays array = s.arrays array ++ (if work.completes fault then work.registered else []) := by
  have hnested : s.transactionEffects.isSome = true := by rw [hs.effects]; rfl
  rw [transaction]
  simp only [hnested, if_true]
  by_cases hopens : fault.opens = true
  · have hverdict : fault.verdict work.outcome = .error .sql := if_pos hopens
    refine ⟨s, ?_, .refl s array, ?_, ?_⟩
    · rw [if_pos hopens, hverdict]
    · rw [Work.completes, hverdict]
      rfl
    · rw [Work.completes, hverdict]
      exact (List.append_nil _).symm
  rw [if_neg hopens]
  set savepoint := lit "authority_" ++ decimalText s.transactionDepth with hsavepoint
  set opened : Store D E := { s with
    connection := { s.connection with
      savepoints := (savepoint, s.connection.db) :: s.connection.savepoints } } with hopened
  have hexec : s.exec (.savepoint savepoint) = some opened := rfl
  rw [hexec]
  -- the work runs with an array of its own
  obtain ⟨s₂, hrun₂, hframe, hdone⟩ := hrun opened.enter s.allocated ⟨rfl, Nat.lt_succ_self _, hs.begun⟩
  have hsp : s₂.connection.savepoints = (savepoint, s.connection.db) :: s.connection.savepoints :=
    hframe.savepoints
  have hkept : ∀ i < s.allocated, s₂.arrays i = s.arrays i := fun i hi ↦
    (hframe.arrays i (Nat.lt_succ_of_lt hi) hi.ne).trans (Function.update_of_ne hi.ne _ _)
  simp only [hrun₂, Option.bind_some, close_nested hopens hsp, undo_nested hsp]
  cases hverdict : fault.verdict work.outcome with
  | error e =>
    have hnot : ¬work.completes fault = true := by
      rw [completes_eq, hverdict]
      simp
    refine ⟨_, rfl, ⟨?_, rfl, hframe.begun, rfl, hframe.ran, ?_, fun i hi _ ↦ hkept i hi⟩, ?_, ?_⟩
    · exact Nat.sub_eq_of_eq_add hframe.depth
    · exact (Nat.le_succ _).trans hframe.allocated
    · rw [if_neg hnot]
      rfl
    · rw [if_neg hnot, List.append_nil]
      exact hkept array hs.allocated
  | ok =>
    obtain ⟨hdb, hcollected⟩ := hdone (outcome_of_verdict hverdict)
    have hnew : s₂.arrays s.allocated = work.registered := by
      rw [hcollected]
      exact congrArg (· ++ _) (Function.update_self ..)
    rw [if_pos (completes_eq.mpr hverdict), if_pos (completes_eq.mpr hverdict)]
    simp only [Except.map, hs.effects]
    refine ⟨_, rfl, ⟨?_, hs.effects.symm, hframe.begun, rfl, hframe.ran, ?_, fun i hi hne ↦ ?_⟩,
      hdb, ?_⟩
    · exact Nat.sub_eq_of_eq_add hframe.depth
    · exact (Nat.le_succ _).trans hframe.allocated
    · exact (Function.update_of_ne hne _ _).trans (hkept i hi)
    · rw [Store.arrays_push, hnew]
      exact congrArg (· ++ _) (hkept array hs.allocated)

theorem exec_inside (w : Work D E) : ∀ n, w.size ≤ n → DoneInside (exec n) w := by
  induction w with
  | done =>
    intro n hn s array hs
    obtain ⟨n, rfl⟩ := Nat.exists_eq_add_one.mpr hn
    exact ⟨s, rfl, .refl s array, fun _ ↦ ⟨rfl, (List.append_nil _).symm⟩⟩
  | throw message =>
    intro n hn s array hs
    obtain ⟨n, rfl⟩ := Nat.exists_eq_add_one.mpr hn
    exact ⟨s, rfl, .refl s array, fun h ↦ absurd h (by simp [Work.outcome])⟩
  | write f next ih =>
    intro n hn s array hs
    obtain ⟨n, rfl⟩ := Nat.exists_eq_add_one.mpr ((Nat.succ_pos _).trans_le hn)
    have hframe : s.Frame (s.write f) array := ⟨rfl, rfl, rfl, rfl, rfl, le_rfl, fun _ _ _ ↦ rfl⟩
    obtain ⟨s', hs', hf, hdone⟩ := ih n (Nat.le_of_succ_le_succ hn) _ array (hs.frame hframe)
    exact ⟨s', hs', hframe.trans hf, hdone⟩
  | afterCommit effect body next _ ih =>
    intro n hn s array hs
    simp only [Work.size] at hn
    obtain ⟨n, rfl⟩ := Nat.exists_eq_add_one.mpr ((Nat.succ_pos _).trans_le hn)
    have hframe : s.Frame (s.push array [(effect, body)]) array :=
      ⟨rfl, rfl, rfl, rfl, rfl, le_rfl, fun i _ hne ↦ Function.update_of_ne hne _ _⟩
    obtain ⟨s', hs', hf, hdone⟩ := ih n (by omega) _ array (hs.frame hframe)
    refine ⟨s', ?_, hframe.trans hf, fun h ↦ ⟨(hdone h).1, ?_⟩⟩
    · rw [exec, hs.effects]
      exact hs'
    · rw [(hdone h).2, Work.registered, Store.arrays_push, List.append_assoc, List.singleton_append]
  | transaction fault work caught next ihw ih =>
    intro n hn s array hs
    simp only [Work.size] at hn
    obtain ⟨n, rfl⟩ := Nat.exists_eq_add_one.mpr ((Nat.succ_pos _).trans_le hn)
    obtain ⟨s₁, hs₁, hf₁, hdb, harr⟩ := transaction_inside (ihw n (by omega)) fault hs
    obtain ⟨s₂, hs₂, hf₂, hdone⟩ := ih n (by omega) s₁ array (hs.frame hf₁)
    have hrest : next.outcome = .ok () → s₂.connection.db = next.writes (if work.completes fault
        then work.writes s.connection.db else s.connection.db) ∧ s₂.arrays array = s.arrays array ++
          ((if work.completes fault then work.registered else []) ++ next.registered) := by
      intro h
      rw [(hdone h).1, (hdone h).2, hdb, harr, List.append_assoc]
      exact ⟨rfl, rfl⟩
    rw [exec, hs₁]
    simp only [Option.bind_some, Work.outcome, Work.writes, Work.registered]
    cases hverdict : fault.verdict work.outcome with
    | ok => exact ⟨s₂, hs₂, hf₁.trans hf₂, hrest⟩
    | error e =>
      cases caught with
      | true => exact ⟨s₂, hs₂, hf₁.trans hf₂, hrest⟩
      | false => exact ⟨s₁, rfl, hf₁, fun h ↦ absurd h (by simp)⟩

/-! ## Outside of any transaction -/

/-- No call is in progress. -/
structure Store.Idle (s : Store D E) : Prop where
  effects : s.transactionEffects = none
  connection : s.connection = .idle s.connection.db

def Store.world (s : Store D E) : World D E := (s.connection.db, s.ran)

/-- How a piece of work is done outside of any transaction. -/
def DoneOutside (run : Work D E → Store D E → Option (Store D E × Result)) (w : Work D E) : Prop :=
  ∀ s : Store D E, s.Idle → ∃ s', run w s = some (s', (w.outer s.world).2) ∧ s'.Idle ∧
    s'.transactionDepth = s.transactionDepth ∧ s'.world = (w.outer s.world).1

/-- **The effects of a commit** are done in order, each exactly once, whatever the others throw. -/
theorem runCommittedEffects_outside {run : Work D E → Store D E → Option (Store D E × Result)}
    {effects : List (E × Work D E)} (hrun : ∀ p ∈ effects, DoneOutside run p.2) :
    ∀ (failures : List AuthorityError) (s : Store D E), s.Idle →
      ∃ s', runCommittedEffects run effects failures s =
          some (s', (runPending (effects.map fun p ↦ (p.1, p.2.outer)) failures s.world).2) ∧
        s'.Idle ∧ s'.transactionDepth = s.transactionDepth ∧
        s'.world = (runPending (effects.map fun p ↦ (p.1, p.2.outer)) failures s.world).1 := by
  induction effects with
  | nil => exact fun failures s hs ↦ ⟨s, rfl, hs, rfl, rfl⟩
  | cons p rest ih =>
    obtain ⟨effect, body⟩ := p
    intro failures s hs
    set started : Store D E := { s with ran := s.ran ++ [(effect, s.connection)] } with hstarted
    have hworld : started.world = (s.world.1, s.world.2 ++ [(effect, .idle s.world.1)]) :=
      congrArg (fun c ↦ (s.connection.db, s.ran ++ [(effect, c)])) hs.connection
    obtain ⟨s₁, hs₁, hidle, hdepth, hw⟩ := hrun _ List.mem_cons_self started ⟨hs.effects, hs.connection⟩
    rw [hworld] at hs₁ hw
    simp only [runCommittedEffects, List.map_cons, runPending]
    rw [← hstarted, hs₁]
    simp only [Option.bind_some]
    have hrest := fun q hq ↦ hrun q (List.mem_cons_of_mem _ hq)
    cases hresult : (body.outer (s.world.1, s.world.2 ++ [(effect, .idle s.world.1)])).2 with
    | ok =>
      obtain ⟨s₂, hs₂, hidle₂, hdepth₂, hw₂⟩ := ih hrest failures s₁ hidle
      rw [hw] at hs₂ hw₂
      exact ⟨s₂, hs₂, hidle₂, hdepth₂.trans hdepth, hw₂⟩
    | error e =>
      obtain ⟨s₂, hs₂, hidle₂, hdepth₂, hw₂⟩ := ih hrest (failures ++ [e]) s₁ hidle
      rw [hw] at hs₂ hw₂
      exact ⟨s₂, hs₂, hidle₂, hdepth₂.trans hdepth, hw₂⟩

/-- What an outermost call leaves, and how it ends. -/
def Work.called (fault : Fault) (work : Work D E) (w : World D E) : World D E × Result :=
  match fault.verdict work.outcome with
  | .error e => (w, .error e)
  | .ok () => runPending work.pending [] (work.writes w.1, w.2)

/-- **An outermost call** commits the writes and then runs the effects, or does nothing at all. -/
theorem transaction_outside {run : Work D E → Store D E → Option (Store D E × Result)}
    {work : Work D E} (hrun : DoneInside run work) (heffects : ∀ p ∈ work.registered, DoneOutside run p.2)
    (fault : Fault) {s : Store D E} (hs : s.Idle) :
    ∃ s', transaction run fault work s = some (s', (work.called fault s.world).2) ∧ s'.Idle ∧
      s'.transactionDepth = s.transactionDepth ∧ s'.world = (work.called fault s.world).1 := by
  have houter : s.transactionEffects.isSome = false := by rw [hs.effects]; rfl
  rw [transaction]
  simp only [houter, Bool.false_eq_true, if_false]
  by_cases hopens : fault.opens = true
  · have hverdict : fault.verdict work.outcome = .error .sql := if_pos hopens
    rw [if_pos hopens, Work.called, hverdict]
    exact ⟨s, rfl, hs, rfl, rfl⟩
  rw [if_neg hopens]
  set savepoint := lit "authority_" ++ decimalText s.transactionDepth with hsavepoint
  set opened : Store D E := { s with
    connection := ⟨s.connection.db, some s.connection.db, []⟩ } with hopened
  have hexec : s.exec .begin = some opened := by
    rw [Store.exec, hs.connection]
    rfl
  rw [hexec]
  obtain ⟨s₂, hrun₂, hframe, hdone⟩ := hrun opened.enter s.allocated ⟨rfl, Nat.lt_succ_self _, rfl⟩
  have hbegun : s₂.connection.begun = some s.connection.db := hframe.begun
  have hdepth : s₂.transactionDepth - 1 = s.transactionDepth := Nat.sub_eq_of_eq_add hframe.depth
  simp only [hrun₂, Option.bind_some, close_outermost hopens hbegun, undo_outermost hbegun]
  cases hverdict : fault.verdict work.outcome with
  | error e =>
    rw [Work.called, hverdict]
    refine ⟨_, rfl, ⟨hs.effects, rfl⟩, hdepth, ?_⟩
    exact congrArg (s.connection.db, ·) hframe.ran
  | ok =>
    obtain ⟨hdb, hcollected⟩ := hdone (outcome_of_verdict hverdict)
    have hnew : s₂.arrays s.allocated = work.registered := by
      rw [hcollected]
      exact congrArg (· ++ _) (Function.update_self ..)
    simp only [Except.map, hs.effects]
    -- the commit has left the database idle, with all the writes
    set left : Store D E := Store.leave { s₂ with connection := .idle s₂.connection.db } none with hleft
    have hworld : left.world = (work.writes s.world.1, s.world.2) := by
      have hran : left.ran = s.ran := hframe.ran
      exact Prod.ext hdb hran
    obtain ⟨s', hs', hidle, hdepth', hw⟩ :=
      runCommittedEffects_outside heffects [] left ⟨rfl, rfl⟩
    rw [hworld, ← Work.pending_eq] at hs' hw
    rw [hnew, Work.called, hverdict]
    exact ⟨s', hs', hidle, hdepth'.trans hdepth, hw⟩

/-- Work is done outside of any transaction as `outer` says, and so are the effects it registers. -/
theorem exec_outside (w : Work D E) : (∀ n, w.size ≤ n → DoneOutside (exec n) w) ∧
    ∀ p ∈ w.registered, ∀ n, p.2.size ≤ n → DoneOutside (exec n) p.2 := by
  induction w with
  | done =>
    refine ⟨fun n hn s hs ↦ ?_, fun p hp ↦ absurd hp List.not_mem_nil⟩
    obtain ⟨n, rfl⟩ := Nat.exists_eq_add_one.mpr hn
    exact ⟨s, rfl, hs, rfl, rfl⟩
  | throw message =>
    refine ⟨fun n hn s hs ↦ ?_, fun p hp ↦ absurd hp List.not_mem_nil⟩
    obtain ⟨n, rfl⟩ := Nat.exists_eq_add_one.mpr hn
    exact ⟨s, rfl, hs, rfl, rfl⟩
  | write f next ih =>
    refine ⟨fun n hn s hs ↦ ?_, ih.2⟩
    obtain ⟨n, rfl⟩ := Nat.exists_eq_add_one.mpr ((Nat.succ_pos _).trans_le hn)
    refine ih.1 n (Nat.le_of_succ_le_succ hn) (s.write f) ⟨hs.effects, ?_⟩
    rw [Store.write, hs.connection]
    rfl
  | afterCommit effect body next ihb ih =>
    refine ⟨fun n hn s hs ↦ ?_, fun p hp ↦ ?_⟩
    · obtain ⟨n, rfl⟩ := Nat.exists_eq_add_one.mpr ((Nat.succ_pos _).trans_le hn)
      refine ⟨s, ?_, hs, rfl, rfl⟩
      rw [exec, hs.effects]
      rfl
    · rcases List.mem_cons.mp hp with rfl | hp
      · exact ihb.1
      · exact ih.2 p hp
  | transaction fault work caught next ihw ih =>
    refine ⟨fun n hn s hs ↦ ?_, fun p hp ↦ ?_⟩
    · simp only [Work.size] at hn
      obtain ⟨n, rfl⟩ := Nat.exists_eq_add_one.mpr ((Nat.succ_pos _).trans_le hn)
      have heffects : ∀ p ∈ work.registered, DoneOutside (exec n) p.2 := fun p hp ↦
        ihw.2 p hp n ((work.size_registered p hp).trans (by omega))
      obtain ⟨s₁, hs₁, hidle, hdepth, hw⟩ :=
        transaction_outside (exec_inside work n (by omega)) heffects fault hs
      obtain ⟨s₂, hs₂, hidle₂, hdepth₂, hw₂⟩ := ih.1 n (by omega) s₁ hidle
      rw [hw] at hs₂ hw₂
      have houter : (Work.transaction fault work caught next).outer s.world =
          match (work.called fault s.world).2 with
          | .ok () => next.outer (work.called fault s.world).1
          | .error e => if caught then next.outer (work.called fault s.world).1
            else ((work.called fault s.world).1, .error e) := rfl
      rw [exec, hs₁, houter]
      simp only [Option.bind_some]
      cases hresult : (work.called fault s.world).2 with
      | ok => exact ⟨s₂, hs₂, hidle₂, hdepth₂.trans hdepth, hw₂⟩
      | error e =>
        cases caught with
        | true => exact ⟨s₂, hs₂, hidle₂, hdepth₂.trans hdepth, hw₂⟩
        | false => exact ⟨s₁, rfl, hidle, hdepth, hw⟩
    · rcases List.mem_append.mp hp with hp | hp
      · split_ifs at hp
        · exact ihw.2 p hp
        · exact absurd hp List.not_mem_nil
      · exact ih.2 p hp

/-! ## Every tree of calls -/

/-- **Nested authority transactions.** For every tree of work:

* an outermost call that does not complete leaves database and effects alone and throws; one that
  completes commits exactly the writes of the completed calls of completed ancestors, and then runs
  exactly their effects, each once and in order, each from the idle connection;
* a nested call leaves the open transaction as it was, with the writes and effects of the completed
  calls added or with nothing changed, and runs no effect;
* on every path the depth and the reference to the effects are what they were. -/
theorem transaction_tree (fault : Fault) (work : Work D E) (n : ℕ) (hn : work.size ≤ n) :
    (∀ s : Store D E, s.Idle → ∃ s' result,
      transaction (exec n) fault work s = some (s', result) ∧
      s'.transactionDepth = s.transactionDepth ∧ s'.transactionEffects = s.transactionEffects ∧
      s'.connection = .idle s'.connection.db ∧
      (work.completes fault = false → s'.world = s.world ∧ result.toOption = none) ∧
      (work.completes fault = true → (s'.world, result) =
        runPending (work.registered.map fun p ↦ (p.1, p.2.outer)) []
          (work.writes s.connection.db, s.ran))) ∧
    ∀ (s : Store D E) (array : ℕ), s.Inside array → ∃ s' result,
      transaction (exec n) fault work s = some (s', result) ∧
      s'.transactionDepth = s.transactionDepth ∧ s'.transactionEffects = s.transactionEffects ∧
      s'.connection.begun = s.connection.begun ∧
      s'.connection.savepoints = s.connection.savepoints ∧ s'.ran = s.ran ∧
      (∀ i < s.allocated, i ≠ array → s'.arrays i = s.arrays i) ∧
      (work.completes fault = false → s'.connection.db = s.connection.db ∧
        s'.arrays array = s.arrays array ∧ result.toOption = none) ∧
      (work.completes fault = true → s'.connection.db = work.writes s.connection.db ∧
        s'.arrays array = s.arrays array ++ work.registered ∧ result = .ok ()) := by
  have hinside := exec_inside work n hn
  refine ⟨fun s hs ↦ ?_, fun s array hs ↦ ?_⟩
  · have heffects : ∀ p ∈ work.registered, DoneOutside (exec n) p.2 := fun p hp ↦
      (exec_outside work).2 p hp n ((work.size_registered p hp).trans hn)
    obtain ⟨s', hs', hidle, hdepth, hw⟩ := transaction_outside hinside heffects fault hs
    refine ⟨s', _, hs', hdepth, hidle.effects.trans hs.effects.symm, hidle.connection, fun hc ↦ ?_,
      fun hc ↦ ?_⟩
    · rw [hw, Work.called]
      cases hverdict : fault.verdict work.outcome with
      | error e => exact ⟨rfl, rfl⟩
      | ok => exact absurd (completes_eq.mpr hverdict) (by simp [hc])
    · rw [hw, Work.called, completes_eq.mp hc, ← Work.pending_eq]
      rfl
  · obtain ⟨s', hs', hframe, hdb, harr⟩ := transaction_inside hinside fault hs
    refine ⟨s', _, hs', hframe.depth, hframe.effects, hframe.begun, hframe.savepoints, hframe.ran,
      hframe.arrays, fun hc ↦ ?_, fun hc ↦ ?_⟩
    · rw [hdb, harr, hc]
      refine ⟨rfl, List.append_nil _, ?_⟩
      cases hverdict : fault.verdict work.outcome with
      | error e => rfl
      | ok => exact absurd (completes_eq.mpr hverdict) (by simp [hc])
    · rw [hdb, harr, if_pos hc, if_pos hc]
      exact ⟨rfl, rfl, completes_eq.mp hc⟩

/-- No statement fails by itself. -/
def Fault.none : Fault := ⟨false, false, false⟩

/-- Two nested calls, of which the first throws and is caught. -/
def twoNested : Work (List ℕ) ℕ :=
  .write (· ++ [1]) <| .afterCommit 1 (.throw (lit "listener")) <|
  .transaction .none (.write (· ++ [2]) <| .afterCommit 2 .done <| .throw (lit "inner")) true <|
  .transaction .none (.write (· ++ [3]) <| .afterCommit 3 (.transaction .none
    (.write (· ++ [4]) .done) false .done) .done) false .done

theorem transaction_tree_of_twoNested : ∃ s' result,
    transaction (exec 100) .none twoNested ⟨.idle [], 0, none, fun _ ↦ [], 0, []⟩ = some (s', result) ∧
      s'.connection = .idle [1, 3, 4] ∧
      s'.ran = [(1, .idle [1, 3]), (3, .idle [1, 3])] ∧
      s'.transactionDepth = 0 ∧ s'.transactionEffects = Option.none := by
  obtain ⟨s', result, hs', hdepth, heffects, hidle, -, hdone⟩ :=
    (transaction_tree .none twoNested 100 (by decide)).1 ⟨.idle [], 0, Option.none, fun _ ↦ [], 0, []⟩
      ⟨rfl, rfl⟩
  have hworld := congrArg Prod.fst (hdone rfl)
  refine ⟨s', result, hs', ?_, congrArg Prod.snd hworld, hdepth, heffects⟩
  rw [hidle]
  exact congrArg Connection.idle (congrArg Prod.fst hworld)

end Vibestudio.Server

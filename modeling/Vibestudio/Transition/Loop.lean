import Mathlib

/-!
# Loops that may throw

`each` is `for (const a of as)` and `loop` is `for (;;)`, over a body that takes the state, may
throw, and in the second case says when there is nothing left to do. The fuel of `loop` bounds the
rounds, and a `Run` that has run out of it has no outcome; `loop_spec` rules that out by a measure.
-/

namespace Transition

variable {σ α β ε : Type}

/-- The outcome of a computation that may throw, if it ends. -/
abbrev Run (ε α : Type) := Option (Except ε α)

namespace Run

def bind (x : Run ε α) (f : α → Run ε β) : Run ε β :=
  match x with
  | some (.ok a) => f a
  | some (.error e) => some (.error e)
  | none => none

def map (f : α → β) (x : Run ε α) : Run ε β := Option.map (Except.map f) x

theorem bind_eq_ok {x : Run ε α} {f : α → Run ε β} {b : β} :
    x.bind f = some (.ok b) ↔ ∃ a, x = some (.ok a) ∧ f a = some (.ok b) := by
  rcases x with _ | _ | a <;> simp [bind]

theorem map_eq_ok {x : Run ε α} {f : α → β} {b : β} :
    x.map f = some (.ok b) ↔ ∃ a, x = some (.ok a) ∧ f a = b := by
  rcases x with _ | _ | a <;> simp [map, Except.map]

/-- A computation in two parts ends when both do. -/
theorem bind_ne_none {x : Run ε α} {f : α → Run ε β} (hx : x ≠ none)
    (hf : ∀ a, x = some (.ok a) → f a ≠ none) : x.bind f ≠ none := by
  rcases x with _ | e | a
  · exact absurd rfl hx
  · exact nofun
  · exact hf a rfl

theorem map_ne_none {x : Run ε α} {f : α → β} (hx : x ≠ none) : x.map f ≠ none := by
  rwa [map, ne_eq, Option.map_eq_none_iff]

end Run

/-- `for (const a of as)`. -/
def each (body : α → σ → Run ε σ) : List α → σ → Run ε σ
  | [], s => some (.ok s)
  | a :: as, s => (body a s).bind (each body as)

/-- `for (;;)`. The body answers `none` when the loop is left. -/
def loop (body : σ → Run ε (Option σ)) : ℕ → σ → Run ε σ
  | 0, _ => none
  | n + 1, s => (body s).bind fun
    | none => some (.ok s)
    | some s' => loop body n s'

/-- **The rule of `each`**: what every round keeps is kept, and it ends when every round does. The
elements still to come may be part of the invariant. -/
theorem each_spec {f : α → σ → Run ε σ} {I : List α → σ → Prop}
    (hbody : ∀ a as s, I (a :: as) s → f a s ≠ none ∧
      ∀ s', f a s = some (.ok s') → I as s') :
    ∀ {l : List α} {s : σ}, I l s → each f l s ≠ none ∧
      ∀ s', each f l s = some (.ok s') → I [] s' := by
  intro as
  induction as with
  | nil =>
    intro s hI
    refine ⟨nofun, fun s' h ↦ ?_⟩
    exact Except.ok.inj (Option.some.inj h) ▸ hI
  | cons a as ih =>
    intro s hI
    obtain ⟨hends, hkeeps⟩ := hbody a as s hI
    refine ⟨Run.bind_ne_none hends fun t ht ↦ (ih (hkeeps t ht)).1, fun s' h ↦ ?_⟩
    obtain ⟨t, ht, h⟩ := Run.bind_eq_ok.mp h
    exact (ih (hkeeps t ht)).2 s' h

/-- **The rule of `loop`**: an invariant holds when the loop is left, the body then has nothing to
do, and with a decreasing measure the loop is left. -/
theorem loop_spec {f : σ → Run ε (Option σ)} {I : σ → Prop} {m : σ → ℕ}
    (hbody : ∀ s, I s → f s ≠ none ∧
      ∀ s', f s = some (.ok (some s')) → I s' ∧ m s' < m s) :
    ∀ {n : ℕ} {s : σ}, I s → m s < n → loop f n s ≠ none ∧
      ∀ s', loop f n s = some (.ok s') → I s' ∧ f s' = some (.ok none) := by
  intro n
  induction n with
  | zero => exact fun _ h ↦ absurd h (Nat.not_lt_zero _)
  | succ n ih =>
    intro s hI hm
    obtain ⟨hends, hkeeps⟩ := hbody s hI
    refine ⟨Run.bind_ne_none hends fun o ho ↦ ?_, fun s' h ↦ ?_⟩
    · rcases o with _ | t
      · exact nofun
      · obtain ⟨hI', hlt⟩ := hkeeps t ho
        exact (ih hI' (by omega)).1
    · obtain ⟨o, ho, h⟩ := Run.bind_eq_ok.mp h
      rcases o with _ | t
      · exact Except.ok.inj (Option.some.inj h) ▸ ⟨hI, ho⟩
      · obtain ⟨hI', hlt⟩ := hkeeps t ho
        exact (ih hI' (by omega)).2 s' h

end Transition

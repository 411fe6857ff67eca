import Mathlib

/-!
# Transactions and savepoints of a database connection

One connection, its current contents, the contents at `BEGIN`, and the stack of savepoints with the
contents at each. `RELEASE` and `ROLLBACK TO` go to the innermost savepoint of the name, so a name
may be used again at a deeper level, and a command that does not apply fails and changes nothing.
-/

namespace Sqlite

variable {D N : Type}

/-- A connection with contents of type `D` and savepoint names of type `N`. -/
structure Connection (D N : Type) where
  db : D
  begun : Option D
  savepoints : List (N × D)

/-- No transaction is open. -/
def Connection.idle (db : D) : Connection D N := ⟨db, none, []⟩

inductive Command (N : Type) where
  | begin
  | commit
  | rollback
  | savepoint (name : N)
  | release (name : N)
  | rollbackTo (name : N)

variable [DecidableEq N]

/-- The stack from the innermost savepoint of a name on. -/
def fromName (name : N) (savepoints : List (N × D)) : List (N × D) :=
  savepoints.dropWhile fun p ↦ decide (p.1 ≠ name)

/-- What a command leaves, or `none` when it fails. -/
def Connection.exec (c : Connection D N) : Command N → Option (Connection D N)
  | .begin => if c.begun.isSome then none else some { c with begun := some c.db }
  | .commit => if c.begun.isSome then some (.idle c.db) else none
  | .rollback => c.begun.map .idle
  | .savepoint name => some { c with savepoints := (name, c.db) :: c.savepoints }
  | .release name => match fromName name c.savepoints with
    | [] => none
    | _ :: rest => some { c with savepoints := rest }
  | .rollbackTo name => match fromName name c.savepoints with
    | [] => none
    | p :: rest => some { c with db := p.2, savepoints := p :: rest }

theorem fromName_cons (name : N) (d : D) (rest : List (N × D)) :
    fromName name ((name, d) :: rest) = (name, d) :: rest := by
  rw [fromName, List.dropWhile_cons_of_neg (by simp)]

/-- **Releasing the innermost savepoint** keeps the contents. -/
theorem exec_release (name : N) (d : D) (db : D) (begun : Option D) (rest : List (N × D)) :
    (Connection.mk db begun ((name, d) :: rest)).exec (.release name) =
      some ⟨db, begun, rest⟩ := by
  rw [Connection.exec, fromName_cons]

end Sqlite

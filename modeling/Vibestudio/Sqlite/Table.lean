import Mathlib
import Vibestudio.Js.Map

/-!
# Tables with a primary key

A table as the list of its rows, each under its key, with no key twice. What an operation does to a
table is said by what `get` finds afterwards, at the key it is about and at every other one.
-/

namespace Sqlite

open Js

/-- Rows of type `α` under keys of type `κ`. -/
structure Table (κ α : Type) where
  rows : JsMap κ α
  primaryKey : rows.keys.Nodup

namespace Table

variable {κ α : Type}

def empty : Table κ α := ⟨[], List.nodup_nil⟩

variable [DecidableEq κ] (t : Table κ α)

def get (k : κ) : Option α := t.rows.get k

/-- `INSERT … ON CONFLICT DO UPDATE`, with all columns given. -/
def set (k : κ) (v : α) : Table κ α := ⟨t.rows.set k v, JsMap.nodup_keys_set t.primaryKey k v⟩

/-- `UPDATE … WHERE key = k`. -/
def update (k : κ) (f : α → α) : Table κ α := (t.get k).elim t fun v ↦ t.set k (f v)

/-- `DELETE … WHERE key = k`. -/
def delete (k : κ) : Table κ α := ⟨t.rows.delete k, JsMap.nodup_keys_delete t.primaryKey k⟩

/-- `UPDATE` of every row. -/
def map (f : α → α) : Table κ α where
  rows := t.rows.map fun p ↦ (p.1, f p.2)
  primaryKey := by
    rw [JsMap.keys, List.map_map]
    exact t.primaryKey

/-- `DELETE … WHERE p`. -/
def deleteWhere (p : κ → α → Bool) : Table κ α where
  rows := t.rows.filter fun r ↦ !p r.1 r.2
  primaryKey := t.primaryKey.sublist (List.filter_sublist.map Prod.fst)

@[simp] theorem get_empty (k : κ) : (empty : Table κ α).get k = none := rfl

theorem mem_rows {k : κ} {v : α} : (k, v) ∈ t.rows ↔ t.get k = some v :=
  JsMap.mem_iff_get t.primaryKey

theorem get_set (k k' : κ) (v : α) : (t.set k v).get k' = if k' = k then some v else t.get k' :=
  JsMap.get_set _ _ _ _

@[simp] theorem get_set_self (k : κ) (v : α) : (t.set k v).get k = some v := JsMap.get_set_self _ _ _

theorem get_set_of_ne {k k' : κ} (h : k' ≠ k) (v : α) : (t.set k v).get k' = t.get k' :=
  JsMap.get_set_of_ne _ h _

theorem get_delete (k k' : κ) : (t.delete k).get k' = if k' = k then none else t.get k' :=
  JsMap.get_delete _ _ _

@[simp] theorem get_delete_self (k : κ) : (t.delete k).get k = none := by
  rw [get_delete, if_pos rfl]

theorem get_delete_of_ne {k k' : κ} (h : k' ≠ k) : (t.delete k).get k' = t.get k' := by
  rw [get_delete, if_neg h]

theorem get_update (k k' : κ) (f : α → α) :
    (t.update k f).get k' = if k' = k then (t.get k').map f else t.get k' := by
  rw [update]
  cases hk : t.get k with
  | none =>
    split_ifs with h
    · rw [h, Option.elim_none, hk, Option.map_none]
    · rfl
  | some v =>
    rw [Option.elim_some, get_set]
    split_ifs with h
    · rw [h, hk, Option.map_some]
    · rfl

theorem get_update_of_ne {k k' : κ} (h : k' ≠ k) (f : α → α) : (t.update k f).get k' = t.get k' := by
  rw [get_update, if_neg h]

/-- The rows decide what is found. -/
theorem get_eq_of_mem {t : Table κ α} {k : κ} {o : Option α}
    (h : ∀ v, (k, v) ∈ t.rows ↔ o = some v) : t.get k = o := by
  refine Option.ext fun v ↦ ?_
  rw [← mem_rows, h]

theorem get_map (f : α → α) (k : κ) : (t.map f).get k = (t.get k).map f := by
  refine get_eq_of_mem fun v ↦ ?_
  simp only [map, List.mem_map, Prod.mk.injEq, Option.map_eq_some_iff]
  constructor
  · rintro ⟨⟨k', v'⟩, hmem, rfl, rfl⟩
    exact ⟨v', t.mem_rows.mp hmem, rfl⟩
  · rintro ⟨v', hv', rfl⟩
    exact ⟨(k, v'), t.mem_rows.mpr hv', rfl, rfl⟩

theorem get_deleteWhere (p : κ → α → Bool) (k : κ) :
    (t.deleteWhere p).get k = (t.get k).filter fun v ↦ !p k v := by
  refine get_eq_of_mem fun v ↦ ?_
  simp only [deleteWhere, List.mem_filter, Option.filter_eq_some_iff]
  exact and_congr_left' t.mem_rows

/-- `SELECT COUNT(*) … WHERE p`. -/
def count (p : κ → α → Bool) : ℕ := t.rows.countP fun r ↦ p r.1 r.2

theorem count_eq_zero {p : κ → α → Bool} : t.count p = 0 ↔ ∀ k v, t.get k = some v → p k v = false := by
  simp only [count, List.countP_eq_zero, Prod.forall, Bool.not_eq_true, mem_rows]

theorem count_set_new {t : Table κ α} {k : κ} (h : t.get k = none) (v : α) (p : κ → α → Bool) :
    (t.set k v).count p = t.count p + (p k v).toNat := by
  have key : ∀ rows : JsMap κ α, rows.get k = none →
      (rows.set k v).countP (fun r ↦ p r.1 r.2) = rows.countP (fun r ↦ p r.1 r.2) + (p k v).toNat := by
    intro rows
    induction rows with
    | nil =>
      intro _
      rw [JsMap.set, List.countP_cons, Bool.toNat]
      cases p k v <;> simp
    | cons r rows ih =>
      intro h
      rw [JsMap.get] at h
      rw [JsMap.set]
      split_ifs at h ⊢
      rw [List.countP_cons, List.countP_cons, ih h]
      exact Nat.add_right_comm _ _ _
  exact key t.rows h

/-- A row that is written over counts by what it was and by what it is. -/
theorem count_set {t : Table κ α} {k : κ} {v : α} (h : t.get k = some v) (v' : α) (p : κ → α → Bool) :
    (t.set k v').count p + (p k v).toNat = t.count p + (p k v').toNat := by
  have key : ∀ rows : JsMap κ α, rows.get k = some v →
      (rows.set k v').countP (fun r ↦ p r.1 r.2) + (p k v).toNat
        = rows.countP (fun r ↦ p r.1 r.2) + (p k v').toNat := by
    intro rows
    induction rows with
    | nil => exact fun h ↦ nomatch h
    | cons r rows ih =>
      obtain ⟨a, w⟩ := r
      intro h
      rw [JsMap.get] at h
      rw [JsMap.set]
      split_ifs at h ⊢ with hak
      · obtain rfl := Option.some.inj h
        subst hak
        rw [List.countP_cons, List.countP_cons, Bool.toNat, Bool.toNat]
        cases p a w <;> cases p a v' <;> simp
      · rw [List.countP_cons, List.countP_cons]
        have := ih h
        omega
  exact key t.rows h

end Table

end Sqlite

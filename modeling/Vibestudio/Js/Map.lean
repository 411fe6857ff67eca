import Mathlib

/-!
# Insertion-ordered maps

A JavaScript `Map` as the list of its entries in iteration order: `set` on a present key keeps its
place, `set` on a new key appends, `delete` removes. The keys of a map built by these operations are
distinct (`Nodup`), and for such a map `get` decides membership (`mem_iff_get`).
-/

namespace Js

/-- The entries of a `Map` in iteration order. -/
abbrev JsMap (κ α : Type) := List (κ × α)

namespace JsMap

variable {κ α : Type}

def keys (m : JsMap κ α) : List κ := m.map Prod.fst

variable [DecidableEq κ]

def get (k : κ) : JsMap κ α → Option α
  | [] => none
  | (k', v) :: m => if k' = k then some v else get k m

def set (m : JsMap κ α) (k : κ) (v : α) : JsMap κ α :=
  match m with
  | [] => [(k, v)]
  | (k', v') :: m => if k' = k then (k, v) :: m else (k', v') :: set m k v

def delete (m : JsMap κ α) (k : κ) : JsMap κ α := m.filter fun p ↦ decide (p.1 ≠ k)

theorem get_set (m : JsMap κ α) (k k' : κ) (v : α) :
    get k' (set m k v) = if k' = k then some v else get k' m := by
  induction m with
  | nil =>
    rw [set, get, get]
    exact if_congr eq_comm rfl rfl
  | cons p m ih =>
    obtain ⟨a, w⟩ := p
    rw [set]
    by_cases hak : a = k
    · subst hak
      rw [if_pos rfl, get, get]
      by_cases hk : a = k'
      · rw [if_pos hk, if_pos hk.symm]
      · rw [if_neg hk, if_neg hk, if_neg (Ne.symm hk)]
    · rw [if_neg hak, get, get, ih]
      by_cases hk : a = k'
      · subst hk
        rw [if_pos rfl, if_neg hak, if_pos rfl]
      · rw [if_neg hk, if_neg hk]

@[simp] theorem get_set_self (m : JsMap κ α) (k : κ) (v : α) : get k (set m k v) = some v := by
  rw [get_set, if_pos rfl]

theorem get_set_of_ne (m : JsMap κ α) {k k' : κ} (h : k' ≠ k) (v : α) :
    get k' (set m k v) = get k' m := by
  rw [get_set, if_neg h]

theorem get_delete (m : JsMap κ α) (k k' : κ) :
    get k' (delete m k) = if k' = k then none else get k' m := by
  induction m with
  | nil =>
    rw [delete, List.filter_nil, get, ite_self]
  | cons p m ih =>
    obtain ⟨a, w⟩ := p
    by_cases hak : a = k
    · subst hak
      rw [delete, List.filter_cons_of_neg (by simp), ← delete, ih, get]
      by_cases hk : k' = a
      · rw [if_pos hk, if_pos hk]
      · rw [if_neg hk, if_neg hk, if_neg (Ne.symm hk)]
    · rw [delete, List.filter_cons_of_pos (by simp [hak]), ← delete, get, get, ih]
      by_cases hk : a = k'
      · subst hk
        rw [if_pos rfl, if_neg hak, if_pos rfl]
      · rw [if_neg hk, if_neg hk]

theorem mem_keys_set {m : JsMap κ α} {k k' : κ} {v : α} :
    k' ∈ keys (set m k v) ↔ k' = k ∨ k' ∈ keys m := by
  induction m with
  | nil => simp [set, keys]
  | cons p m ih =>
    obtain ⟨a, w⟩ := p
    rw [set]
    by_cases hak : a = k
    · subst hak
      rw [if_pos rfl]
      simp [keys]
    · have hcons : ∀ l : JsMap κ α, keys ((a, w) :: l) = a :: keys l := fun _ ↦ rfl
      rw [if_neg hak, hcons, hcons, List.mem_cons, ih, List.mem_cons]
      tauto

theorem nodup_keys_set {m : JsMap κ α} (h : (keys m).Nodup) (k : κ) (v : α) :
    (keys (set m k v)).Nodup := by
  induction m with
  | nil => exact List.nodup_singleton _
  | cons p m ih =>
    obtain ⟨a, w⟩ := p
    obtain ⟨ha, hm⟩ := List.nodup_cons.mp (show (a :: keys m).Nodup from h)
    rw [set]
    by_cases hak : a = k
    · subst hak
      rw [if_pos rfl]
      exact h
    · rw [if_neg hak]
      refine List.nodup_cons.mpr ⟨fun hmem ↦ ?_, ih hm⟩
      rcases mem_keys_set.mp hmem with rfl | hmem
      · exact hak rfl
      · exact ha hmem

theorem nodup_keys_delete {m : JsMap κ α} (h : (keys m).Nodup) (k : κ) :
    (keys (delete m k)).Nodup := h.sublist (List.filter_sublist.map Prod.fst)

theorem mem_set {m : JsMap κ α} {k : κ} {v : α} {p : κ × α} (h : p ∈ set m k v) :
    p = (k, v) ∨ p ∈ m := by
  induction m with
  | nil => exact Or.inl (List.mem_singleton.mp h)
  | cons q m ih =>
    obtain ⟨a, w⟩ := q
    rw [set] at h
    split_ifs at h with hak
    · exact (List.mem_cons.mp h).imp_right (List.mem_cons_of_mem _)
    · rcases List.mem_cons.mp h with rfl | h
      · exact Or.inr List.mem_cons_self
      · exact (ih h).imp_right (List.mem_cons_of_mem _)

theorem mem_of_get {m : JsMap κ α} {k : κ} {v : α} (h : get k m = some v) : (k, v) ∈ m := by
  induction m with
  | nil => exact absurd h (by simp [get])
  | cons p m ih =>
    obtain ⟨a, w⟩ := p
    rw [get] at h
    split_ifs at h with ha
    · rw [Option.some_inj] at h
      rw [ha, h]
      exact List.mem_cons_self
    · exact List.mem_cons_of_mem _ (ih h)

/-- **A map with distinct keys is what `get` says.** -/
theorem mem_iff_get {m : JsMap κ α} (h : (keys m).Nodup) {k : κ} {v : α} :
    (k, v) ∈ m ↔ get k m = some v := by
  refine ⟨fun hmem ↦ ?_, mem_of_get⟩
  induction m with
  | nil => exact absurd hmem List.not_mem_nil
  | cons p m ih =>
    obtain ⟨a, w⟩ := p
    obtain ⟨ha, hm⟩ := List.nodup_cons.mp (show (a :: keys m).Nodup from h)
    rw [get]
    rcases List.mem_cons.mp hmem with heq | hmem
    · obtain ⟨rfl, rfl⟩ := Prod.mk.inj heq
      exact if_pos rfl
    · rw [if_neg, ih hm hmem]
      rintro rfl
      exact ha (List.mem_map_of_mem hmem)

theorem get_eq_none {m : JsMap κ α} {k : κ} : get k m = none ↔ k ∉ keys m := by
  induction m with
  | nil => simp [get, keys]
  | cons p m ih =>
    obtain ⟨a, w⟩ := p
    have hcons : keys ((a, w) :: m) = a :: keys m := rfl
    rw [get, hcons, List.mem_cons]
    by_cases hak : a = k
    · rw [if_pos hak]
      simp [hak]
    · rw [if_neg hak, ih]
      simp [Ne.symm hak]

theorem delete_set (m : JsMap κ α) (k : κ) (v : α) : delete (set m k v) k = delete m k := by
  induction m with
  | nil => simp [set, delete]
  | cons p m ih =>
    obtain ⟨a, w⟩ := p
    rw [set]
    split_ifs with hk
    · subst hk
      simp [delete]
    · rw [delete, delete, List.filter_cons_of_pos (by simpa using hk),
        List.filter_cons_of_pos (by simpa using hk)]
      exact congrArg _ ih

end JsMap

/-! ## Lists with distinct keys -/

/-- In a list without two entries for a key, the entry that is found comes out of the list. -/
theorem find_perm {α κ : Type} [DecidableEq κ] {key : α → κ} {id : κ} {a : α} {l : List α}
    (hl : (l.map key).Nodup) (h : l.find? (fun x ↦ decide (key x = id)) = some a) :
    l.Perm (a :: l.filter fun x ↦ decide (key x ≠ id)) ∧
      ∀ f : α → α, (l.map fun x ↦ if key x = id then f x else x).Perm
        (f a :: l.filter fun x ↦ decide (key x ≠ id)) := by
  induction l with
  | nil => exact nomatch h
  | cons x l ih =>
    rw [List.map_cons, List.nodup_cons] at hl
    by_cases hx : key x = id
    · -- the entry is the first one, and no other has its key
      rw [List.find?_cons_of_pos (by simpa using hx), Option.some.injEq] at h
      subst h
      have hne : ∀ y ∈ l, key y ≠ id := fun y hy hy' ↦
        hl.1 (hx.trans hy'.symm ▸ List.mem_map_of_mem hy)
      have hfilter : (x :: l).filter (fun x ↦ decide (key x ≠ id)) = l := by
        rw [List.filter_cons_of_neg (by simpa using hx), List.filter_eq_self]
        exact fun y hy ↦ decide_eq_true (hne y hy)
      rw [hfilter]
      refine ⟨List.Perm.refl _, fun f ↦ ?_⟩
      rw [List.map_cons, if_pos hx]
      refine List.Perm.of_eq (congrArg (f x :: ·) ?_)
      exact (List.map_congr_left fun y hy ↦ if_neg (hne y hy)).trans (List.map_id' l)
    · rw [List.find?_cons_of_neg (by simpa using hx)] at h
      obtain ⟨hperm, hmap⟩ := ih hl.2 h
      rw [List.filter_cons_of_pos (by simpa using hx)]
      refine ⟨(hperm.cons x).trans (List.Perm.swap a x _), fun f ↦ ?_⟩
      rw [List.map_cons, if_neg hx]
      exact ((hmap f).cons x).trans (List.Perm.swap (f a) x _)

end Js

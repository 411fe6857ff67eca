import Vibestudio.Js.Map

/-!
# Maps of maps

A `Map` whose values are maps, kept as an index with two keys: an inner map is made with its first entry, and taken away
with its last. A `Set` is a map to `Unit` here.

`entries` lists what such an index holds. When no key occurs twice (`Tidy`) an entry is listed once, and is the one
that `getNested` finds.
-/

namespace Js.JsMap

variable {κ κ' α : Type} [DecidableEq κ] [DecidableEq κ']

def getNested (m : JsMap κ (JsMap κ' α)) (k : κ) (k' : κ') : Option α := (m.get k).bind fun inner ↦ inner.get k'

def setNested (m : JsMap κ (JsMap κ' α)) (k : κ) (k' : κ') (v : α) : JsMap κ (JsMap κ' α) :=
  m.set k (((m.get k).getD []).set k' v)

def deleteNested (m : JsMap κ (JsMap κ' α)) (k : κ) (k' : κ') : JsMap κ (JsMap κ' α) :=
  match m.get k with
  | none => m
  | some inner => if (inner.delete k').isEmpty then m.delete k else m.set k (inner.delete k')

variable {m : JsMap κ (JsMap κ' α)} {k a : κ} {k' b : κ'} {v : α}

theorem getNested_setNested (m : JsMap κ (JsMap κ' α)) (k a : κ) (k' b : κ') (v : α) :
    (m.setNested k k' v).getNested a b = if a = k ∧ b = k' then some v else m.getNested a b := by
  rw [getNested, setNested, get_set]
  by_cases ha : a = k
  · subst ha
    rw [if_pos rfl, Option.bind_some, get_set]
    by_cases hb : b = k'
    · rw [if_pos hb, if_pos ⟨rfl, hb⟩]
    · rw [if_neg hb, if_neg fun h ↦ hb h.2, getNested]
      cases m.get a <;> rfl
  · rw [if_neg ha, if_neg fun h ↦ ha h.1, getNested]

theorem getNested_deleteNested (m : JsMap κ (JsMap κ' α)) (k a : κ) (k' b : κ') :
    (m.deleteNested k k').getNested a b = if a = k ∧ b = k' then none else m.getNested a b := by
  unfold deleteNested
  match hk : m.get k with
  | none =>
    split_ifs with h
    · rw [h.1, getNested, hk]
      rfl
    · rfl
  | some inner =>
    have hinner : ∀ x, (inner.delete k').get x = if x = k' then none else inner.get x := get_delete inner k'
    -- the inner map without its entry, whether it is taken away or not
    have hrest : ((if (inner.delete k').isEmpty then m.delete k else m.set k (inner.delete k')) :
        JsMap κ (JsMap κ' α)).getNested a b = if a = k then (inner.delete k').get b else m.getNested a b := by
      split_ifs with hempty ha ha
      · rw [List.isEmpty_iff.mp hempty, getNested, get_delete, if_pos ha]
        rfl
      · rw [getNested, get_delete, if_neg ha, getNested]
      · rw [getNested, get_set, if_pos ha]
        rfl
      · rw [getNested, get_set, if_neg ha, getNested]
    dsimp only
    rw [hrest, hinner]
    by_cases ha : a = k
    · subst ha
      rw [if_pos rfl, getNested, hk, Option.bind_some]
      exact if_congr (and_iff_right rfl).symm rfl rfl
    · rw [if_neg ha, if_neg fun h ↦ ha h.1]

/-- No key occurs twice, and no inner map is empty. -/
structure Tidy (m : JsMap κ (JsMap κ' α)) : Prop where
  nodup : (keys m).Nodup
  inner : ∀ k inner, m.get k = some inner → (keys inner).Nodup ∧ inner ≠ []

omit [DecidableEq κ'] in
theorem Tidy.empty : Tidy ([] : JsMap κ (JsMap κ' α)) := ⟨List.nodup_nil, fun _ _ h ↦ nomatch h⟩

theorem set_ne_nil (m : JsMap κ α) (k : κ) (v : α) : m.set k v ≠ [] := by
  match m with
  | [] => exact List.cons_ne_nil _ _
  | (k', v') :: m =>
    rw [set]
    split <;> exact List.cons_ne_nil _ _

theorem Tidy.setNested (h : Tidy m) (k : κ) (k' : κ') (v : α) : Tidy (m.setNested k k' v) := by
  refine ⟨nodup_keys_set h.nodup _ _, fun a inner ha ↦ ?_⟩
  rw [JsMap.setNested, get_set] at ha
  split_ifs at ha with hak
  · obtain rfl := Option.some.inj ha
    refine ⟨nodup_keys_set ?_ _ _, set_ne_nil _ _ _⟩
    cases hk : m.get k with
    | none => exact List.nodup_nil
    | some inner => exact (h.inner k inner hk).1
  · exact h.inner a inner ha

theorem Tidy.deleteNested (h : Tidy m) (k : κ) (k' : κ') : Tidy (m.deleteNested k k') := by
  unfold JsMap.deleteNested
  match hk : m.get k with
  | none => exact h
  | some inner =>
    dsimp only
    split_ifs with hempty
    · refine ⟨nodup_keys_delete h.nodup k, fun a other ha ↦ ?_⟩
      rw [get_delete] at ha
      exact h.inner a other (Option.ite_none_left_eq_some.mp ha).2
    · refine ⟨nodup_keys_set h.nodup _ _, fun a other ha ↦ ?_⟩
      rw [get_set] at ha
      split_ifs at ha with hak
      · obtain rfl := Option.some.inj ha
        exact ⟨nodup_keys_delete (h.inner k inner hk).1 k', fun hnil ↦ hempty (List.isEmpty_iff.mpr hnil)⟩
      · exact h.inner a other ha

/-- What an index holds, with its two keys. -/
def entries (m : JsMap κ (JsMap κ' α)) : List (κ × κ' × α) :=
  m.flatMap fun p ↦ p.2.map fun q ↦ (p.1, q)

omit [DecidableEq κ] [DecidableEq κ'] in
theorem nodup_of_keys {m : JsMap κ α} (h : (keys m).Nodup) : m.Nodup := List.Nodup.of_map Prod.fst h

theorem Tidy.mem_entries (h : Tidy m) : (a, b, v) ∈ m.entries ↔ m.getNested a b = some v := by
  rw [entries, List.mem_flatMap, getNested, Option.bind_eq_some_iff]
  constructor
  · rintro ⟨⟨k, inner⟩, hmem, hin⟩
    obtain ⟨q, hq, heq⟩ := List.mem_map.mp hin
    obtain ⟨rfl, rfl⟩ := Prod.mk.inj heq
    have hget := (mem_iff_get h.nodup).mp hmem
    exact ⟨inner, hget, (mem_iff_get (h.inner _ _ hget).1).mp hq⟩
  · rintro ⟨inner, hget, hv⟩
    exact ⟨(a, inner), mem_of_get hget, List.mem_map.mpr ⟨(b, v), mem_of_get hv, rfl⟩⟩

omit [DecidableEq κ'] in
theorem Tidy.nodup_entries (h : Tidy m) : m.entries.Nodup := by
  refine List.nodup_flatMap.mpr ⟨fun p hp ↦ ?_, ?_⟩
  · have hget := (mem_iff_get h.nodup).mp hp
    exact (nodup_of_keys (h.inner _ _ hget).1).map fun _ _ heq ↦ (Prod.mk.inj heq).2
  · refine (List.pairwise_map.mp h.nodup).imp fun {p q} hne x hx hy ↦ hne ?_
    obtain ⟨_, -, rfl⟩ := List.mem_map.mp hx
    obtain ⟨_, -, heq⟩ := List.mem_map.mp hy
    exact (Prod.mk.inj heq).1.symm

end Js.JsMap

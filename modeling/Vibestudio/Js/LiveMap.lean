import Mathlib
import Vibestudio.Js.Map

/-!
# Maps that are iterated while they change

An iterator of a JavaScript `Map` is not a snapshot: it is a position, and `next` goes on to the
first entry behind it that the map has by then. `LiveMap` gives every entry its position. Setting a
present key keeps the position, setting a new key takes a position behind all others, so an iterator
meets every key that is added while it runs and none that it has left behind (`nextFrom_eq_some`,
`nextFrom_eq_none`).
-/

namespace Js

/-- A `Map` whose entries know their positions. -/
structure LiveMap (κ α : Type) where
  slots : JsMap κ (ℕ × α)
  next : ℕ
  nodup : (JsMap.keys slots).Nodup
  sorted : slots.Pairwise fun a b ↦ a.2.1 < b.2.1
  bounded : ∀ e ∈ slots, e.2.1 < next

namespace LiveMap

variable {κ α : Type}

def empty : LiveMap κ α := ⟨[], 0, List.nodup_nil, .nil, nofun⟩

/-- The values in the order of iteration. -/
def values (m : LiveMap κ α) : List α := m.slots.map (·.2.2)

variable [DecidableEq κ]

/-- The position and the value of a key. -/
def slot (m : LiveMap κ α) (k : κ) : Option (ℕ × α) := m.slots.get k

def get (m : LiveMap κ α) (k : κ) : Option α := (m.slot k).map Prod.snd

omit [DecidableEq κ] in
theorem sorted_of_map {l l' : JsMap κ (ℕ × α)} (h : l.map (·.2.1) = l'.map (·.2.1))
    (hs : l.Pairwise fun a b ↦ a.2.1 < b.2.1) : l'.Pairwise fun a b ↦ a.2.1 < b.2.1 := by
  rw [← List.pairwise_map (f := fun e : κ × ℕ × α ↦ e.2.1)] at hs ⊢
  rwa [← h]

/-- Setting a present key to a value at its own position moves nothing. -/
theorem positions_set {l : JsMap κ (ℕ × α)} {k : κ} {p : ℕ} {v w : α} (h : l.get k = some (p, w)) :
    (l.set k (p, v)).map (·.2.1) = l.map (·.2.1) := by
  induction l with
  | nil => exact nomatch h
  | cons e l ih =>
    obtain ⟨k', q, u⟩ := e
    rw [JsMap.get] at h
    rw [JsMap.set]
    split_ifs at h ⊢ with hk
    · obtain ⟨rfl, rfl⟩ := Prod.mk.inj (Option.some_inj.mp h)
      rfl
    · rw [List.map_cons, List.map_cons, ih h]

/-- Setting a new key appends. -/
theorem set_eq_append {β : Type} {l : JsMap κ β} {k : κ} (v : β) (h : l.get k = none) :
    l.set k v = l ++ [(k, v)] := by
  induction l with
  | nil => rfl
  | cons e l ih =>
    obtain ⟨k', u⟩ := e
    rw [JsMap.get] at h
    split_ifs at h with hk
    rw [JsMap.set, if_neg hk, ih h, List.cons_append]

def set (m : LiveMap κ α) (k : κ) (v : α) : LiveMap κ α :=
  match h : m.slots.get k with
  | some (p, w) =>
    { m with
      slots := m.slots.set k (p, v)
      nodup := JsMap.nodup_keys_set m.nodup k _
      sorted := sorted_of_map (positions_set h).symm m.sorted
      bounded := fun e he ↦ (JsMap.mem_set he).elim
        (fun heq ↦ heq ▸ m.bounded (k, p, w) (JsMap.mem_of_get h)) (m.bounded e) }
  | none =>
    { slots := m.slots.set k (m.next, v)
      next := m.next + 1
      nodup := JsMap.nodup_keys_set m.nodup k _
      sorted := by
        rw [set_eq_append _ h, List.pairwise_append]
        refine ⟨m.sorted, List.pairwise_singleton _ _, fun a ha b hb ↦ ?_⟩
        rw [List.mem_singleton.mp hb]
        exact m.bounded a ha
      bounded := fun e he ↦ (JsMap.mem_set he).elim (fun heq ↦ heq ▸ Nat.lt_succ_self _)
        fun he ↦ (m.bounded e he).trans (Nat.lt_succ_self _) }

def delete (m : LiveMap κ α) (k : κ) : LiveMap κ α :=
  { m with
    slots := m.slots.delete k
    nodup := JsMap.nodup_keys_delete m.nodup k
    sorted := m.sorted.sublist List.filter_sublist
    bounded := fun e he ↦ m.bounded e (List.mem_of_mem_filter he) }

variable {m : LiveMap κ α} {k k' : κ} {p q : ℕ} {v w : α}

theorem get_eq_some : m.get k = some v ↔ ∃ p, m.slot k = some (p, v) := by
  rw [get, Option.map_eq_some_iff]
  exact ⟨fun ⟨⟨p, w⟩, h, heq⟩ ↦ ⟨p, heq ▸ h⟩, fun ⟨p, h⟩ ↦ ⟨(p, v), h, rfl⟩⟩

theorem slot_set (m : LiveMap κ α) (k k' : κ) (v : α) : (m.set k v).slot k' =
    if k' = k then some (((m.slot k).map Prod.fst).getD m.next, v) else m.slot k' := by
  rw [slot, set]
  split
  · next p w h =>
    have hslot : m.slot k = some (p, w) := h
    rw [hslot]
    exact JsMap.get_set _ _ _ _
  · next h =>
    have hslot : m.slot k = none := h
    rw [hslot]
    exact JsMap.get_set _ _ _ _

theorem slot_delete (m : LiveMap κ α) (k k' : κ) :
    (m.delete k).slot k' = if k' = k then none else m.slot k' := JsMap.get_delete _ _ _

theorem next_delete (m : LiveMap κ α) (k : κ) : (m.delete k).next = m.next := rfl

theorem next_le_set (m : LiveMap κ α) (k : κ) (v : α) : m.next ≤ (m.set k v).next := by
  rw [set]
  split
  · exact le_rfl
  · exact Nat.le_succ _

theorem lt_next (h : m.slot k = some (p, v)) : p < m.next := m.bounded _ (JsMap.mem_of_get h)

theorem mem_slots : (k, p, v) ∈ m.slots ↔ m.slot k = some (p, v) := JsMap.mem_iff_get m.nodup

/-- One position, one key. -/
theorem key_of_position (h : m.slot k = some (p, v)) (h' : m.slot k' = some (p, w)) : k = k' := by
  have hnd : (m.slots.map (·.2.1)).Nodup :=
    List.pairwise_map.mpr (m.sorted.imp fun hab ↦ ne_of_lt hab)
  have heq : (k, p, v) = (k', p, w) :=
    List.inj_on_of_nodup_map hnd (mem_slots.mpr h) (mem_slots.mpr h') rfl
  exact congrArg Prod.fst heq

/-! ## Iterating -/

/-- The first entry from a position on whose value is not passed over. -/
def nextFrom (m : LiveMap κ α) (start : ℕ) (visits : α → Bool) : Option (κ × ℕ × α) :=
  m.slots.find? fun e ↦ decide (start ≤ e.2.1) && visits e.2.2

variable {start : ℕ} {visits : α → Bool}

theorem nextFrom_eq_some (h : m.nextFrom start visits = some (k, p, v)) :
    m.slot k = some (p, v) ∧ start ≤ p ∧ visits v = true ∧
      ∀ {k' q w}, m.slot k' = some (q, w) → start ≤ q → visits w = true → p ≤ q := by
  have hvisits := List.find?_some h
  rw [Bool.and_eq_true, decide_eq_true_iff] at hvisits
  refine ⟨mem_slots.mp (List.mem_of_find?_eq_some h), hvisits.1, hvisits.2, ?_⟩
  intro k' q w hslot hstart hw
  obtain ⟨-, before, after, heq, hnone⟩ := List.find?_eq_some_iff_append.mp h
  have hmem := mem_slots.mpr hslot
  rw [heq, List.mem_append, List.mem_cons] at hmem
  have hsorted := m.sorted
  rw [heq, List.pairwise_append, List.pairwise_cons] at hsorted
  rcases hmem with hmem | heq' | hmem
  · -- what comes before the entry that is found was passed over
    have hpassed := hnone _ hmem
    rw [Bool.not_eq_true', Bool.and_eq_false_iff] at hpassed
    rcases hpassed with hlt | hno
    · exact absurd hstart (of_decide_eq_false hlt)
    · exact absurd hw (Bool.eq_false_iff.mp hno)
  · obtain ⟨-, heq'⟩ := Prod.mk.inj heq'
    exact (Prod.mk.inj heq').1.ge
  · exact (hsorted.2.1.1 _ hmem).le

theorem nextFrom_eq_none (h : m.nextFrom start visits = none) (hslot : m.slot k = some (p, v))
    (hv : visits v = true) : p < start := by
  have hnot := List.find?_eq_none.mp h _ (mem_slots.mpr hslot)
  rw [hv, Bool.and_true, decide_eq_true_iff] at hnot
  exact not_le.mp hnot

end LiveMap

end Js

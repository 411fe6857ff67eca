import Mathlib
import Vibestudio.Js.Number

/-!
# Plain JavaScript data

Trees of arrays and plain objects over a type of leaves. An object is the list of its own enumerable
string-keyed properties **in enumeration order**, which the language fixes: array indices first, in
ascending order, then the other keys in the order of their creation (`OwnBefore`). So two objects
that no program can tell apart are equal lists, and `JSON.stringify`, `Object.keys` and
`Object.entries` read the list from left to right.

There are two ways to add a property. `createData` is `Object.defineProperty` with a plain data
descriptor, and also what `JSON.parse` does. `assign` is `target[key] = value` on an object whose
prototype is still `Object.prototype`: there the key `__proto__` finds an inherited setter, so the
statement changes the prototype and creates no property at all.

The results about order come down to two facts. Adding properties one at a time in an order the
language could enumerate gives back that very order (`foldl_createData`). An enumeration is
determined by its members and by the relative order of the keys that are not array indices
(`ordered_ext`).
-/

namespace Js

/-! ## Functions that throw -/

theorem bind_eq_ok {ε α β : Type} {x : Except ε α} {f : α → Except ε β} {b : β} :
    x.bind f = .ok b ↔ ∃ a, x = .ok a ∧ f a = .ok b := by
  cases x <;> simp [Except.bind]

theorem map_eq_ok {ε α β : Type} {x : Except ε α} {f : α → β} {b : β} :
    x.map f = .ok b ↔ ∃ a, x = .ok a ∧ f a = b := by
  cases x <;> simp [Except.map]

theorem exists_eq_ok {ε α : Type} {x : Except ε α} (h : x.toOption.isSome = true) :
    ∃ a, x = .ok a := by
  cases x with
  | error e => exact absurd h Bool.false_ne_true
  | ok a => exact ⟨a, rfl⟩

/-! ## Array indices -/

/-- `ToString` of an integer. -/
def integerText (n : ℕ) : JsString := if n = 0 then lit "0" else decimalText n

/-- The array index a property key names: `ToString(ToUint32(key))` is the key again, and it is not
`2 ^ 32 - 1`. -/
def arrayIndex? (k : JsString) : Option ℕ :=
  if integerText (digitsValue k) = k ∧ digitsValue k < 2 ^ 32 - 1 then some (digitsValue k) else none

theorem arrayIndex?_inj {a b : JsString} {i : ℕ} (ha : arrayIndex? a = some i)
    (hb : arrayIndex? b = some i) : a = b := by
  have key : ∀ c, arrayIndex? c = some i → integerText i = c := by
    intro c hc
    rw [arrayIndex?] at hc
    split_ifs at hc with h
    rw [Option.some_inj] at hc
    rw [← hc]
    exact h.1
  rw [← key a ha, ← key b hb]

theorem isDigit_of_arrayIndex? {k : JsString} {i : ℕ} (h : arrayIndex? k = some i) :
    ∀ c ∈ k, isDigit c = true := by
  rw [arrayIndex?] at h
  split_ifs at h with hk
  intro c hc
  rw [← hk.1, integerText] at hc
  split_ifs at hc
  · exact mem_zero c hc
  · exact isDigit_of_mem_decimalText hc

theorem ascii_of_arrayIndex? {k : JsString} {i : ℕ} (h : arrayIndex? k = some i) :
    ∀ c ∈ k, c.val < 0x80 := by
  intro c hc
  have := of_decide_eq_true (isDigit_of_arrayIndex? h c hc)
  omega

/-! ## Property lists -/

/-- Own properties, in enumeration order. -/
abbrev Props (α : Type) := List (JsString × α)

section Props

variable {α β : Type}

def keys (o : Props α) : List JsString := o.map Prod.fst

/-- `o[k]` for an own property. -/
def getProp (k : JsString) (o : Props α) : Option α :=
  (o.find? fun p ↦ decide (p.1 = k)).map Prod.snd

/-- The enumeration order of two different keys of one object, as far as it is fixed. -/
def OwnBefore (a b : JsString) : Prop :=
  match arrayIndex? a, arrayIndex? b with
  | some i, some j => i < j
  | some _, none => True
  | none, some _ => False
  | none, none => a ≠ b

instance : DecidableRel OwnBefore := fun a b ↦ by
  unfold OwnBefore
  cases arrayIndex? a <;> cases arrayIndex? b <;> simp only <;> infer_instance

/-- The list is an enumeration some object can have. -/
def Ordered (o : Props α) : Prop := (keys o).Pairwise OwnBefore

instance (o : Props α) : Decidable (Ordered o) := inferInstanceAs (Decidable (List.Pairwise _ _))

/-- A new array index goes before the first key that does not come before it. -/
def insertIndex (i : ℕ) (k : JsString) (v : α) : Props α → Props α
  | [] => [(k, v)]
  | p :: rest =>
    match arrayIndex? p.1 with
    | some j => if j < i then p :: insertIndex i k v rest else (k, v) :: p :: rest
    | none => (k, v) :: p :: rest

/-- `Object.defineProperty(o, k, { value: v, enumerable: true, writable: true, configurable: true })`
on a plain object: an existing property keeps its place. -/
def createData (o : Props α) (k : JsString) (v : α) : Props α :=
  if k ∈ keys o then o.map fun p ↦ if p.1 = k then (k, v) else p
  else
    match arrayIndex? k with
    | some i => insertIndex i k v o
    | none => o ++ [(k, v)]

def protoKey : JsString := lit "__proto__"

/-- `o[k] = v` on a plain object. Every inherited property of a plain object is a writable data
property, which an assignment shadows, except the accessor `__proto__`. -/
def assign (o : Props α) (k : JsString) (v : α) : Props α :=
  if k = protoKey then o else createData o k v

/-- The object with the given properties defined one after the other. -/
def ofEntries (l : Props α) : Props α := l.foldl (fun o p ↦ createData o p.1 p.2) []

@[simp] theorem keys_nil : keys ([] : Props α) = [] := rfl

@[simp] theorem keys_cons (p : JsString × α) (o : Props α) : keys (p :: o) = p.1 :: keys o := rfl

@[simp] theorem keys_append (o o' : Props α) : keys (o ++ o') = keys o ++ keys o' :=
  List.map_append

theorem keys_map_snd (f : α → β) (o : Props α) : keys (o.map fun p ↦ (p.1, f p.2)) = keys o := by
  rw [keys, List.map_map]
  rfl

theorem mem_keys_of_mem {p : JsString × α} {o : Props α} (h : p ∈ o) : p.1 ∈ keys o :=
  List.mem_map_of_mem h

theorem mem_keys {k : JsString} {o : Props α} : k ∈ keys o ↔ ∃ v, (k, v) ∈ o := by
  constructor
  · intro h
    obtain ⟨⟨k', v⟩, hp, rfl⟩ := List.mem_map.mp h
    exact ⟨v, hp⟩
  · rintro ⟨v, hv⟩
    exact mem_keys_of_mem hv

/-! ### The order is a strict order -/

theorem ownBefore_of_index {a b : JsString} {i : ℕ} (ha : arrayIndex? a = some i) :
    OwnBefore a b ↔ ∀ j, arrayIndex? b = some j → i < j := by
  rw [OwnBefore, ha]
  cases arrayIndex? b <;> simp

theorem ownBefore_of_none {a b : JsString} (ha : arrayIndex? a = none) :
    OwnBefore a b ↔ arrayIndex? b = none ∧ a ≠ b := by
  rw [OwnBefore, ha]
  cases arrayIndex? b <;> simp

theorem OwnBefore.ne {a b : JsString} (h : OwnBefore a b) : a ≠ b := by
  rintro rfl
  cases ha : arrayIndex? a with
  | none => exact ((ownBefore_of_none ha).mp h).2 rfl
  | some i => exact lt_irrefl i ((ownBefore_of_index ha).mp h i ha)

theorem Ordered.nodup {o : Props α} (h : Ordered o) : (keys o).Nodup := List.Pairwise.imp OwnBefore.ne h

theorem Ordered.sublist {o o' : Props α} (h : Ordered o) (hs : o'.Sublist o) : Ordered o' :=
  List.Pairwise.sublist (hs.map Prod.fst) h

theorem ordered_cons {p : JsString × α} {o : Props α} :
    Ordered (p :: o) ↔ (∀ k ∈ keys o, OwnBefore p.1 k) ∧ Ordered o := List.pairwise_cons

theorem ordered_map_snd {f : α → β} {o : Props α} :
    Ordered (o.map fun p ↦ (p.1, f p.2)) ↔ Ordered o := by
  rw [Ordered, Ordered, keys_map_snd]

/-- Without array indices any order is an enumeration. -/
theorem ordered_of_noIndex {o : Props α} (hnd : (keys o).Nodup)
    (h : ∀ k ∈ keys o, arrayIndex? k = none) : Ordered o :=
  hnd.imp_of_mem fun ha hb hab ↦ (ownBefore_of_none (h _ ha)).mpr ⟨h _ hb, hab⟩

/-- Renaming keys keeps an enumeration when it keeps the array indices. -/
theorem Ordered.map_key {o : Props α} (h : Ordered o) {f : JsString → JsString}
    (hinj : Function.Injective f) (hidx : ∀ k, arrayIndex? (f k) = arrayIndex? k) :
    Ordered (o.map fun p ↦ (f p.1, p.2)) := by
  have hkeys : keys (o.map fun p ↦ (f p.1, p.2)) = (keys o).map f := by
    rw [keys, keys, List.map_map, List.map_map]
    rfl
  rw [Ordered, hkeys, List.pairwise_map]
  refine h.imp fun {a b} hab ↦ ?_
  rw [OwnBefore, hidx, hidx]
  cases ha : arrayIndex? a with
  | some i =>
    cases hb : arrayIndex? b with
    | some j => exact (ownBefore_of_index ha).mp hab j hb
    | none => trivial
  | none =>
    have hb := (ownBefore_of_none ha).mp hab
    rw [hb.1]
    exact fun heq ↦ hb.2 (hinj heq)

/-- In an enumeration a key has one value. -/
theorem eq_of_mem_of_key {o : Props α} (h : (keys o).Nodup) {k : JsString} {v w : α}
    (hv : (k, v) ∈ o) (hw : (k, w) ∈ o) : v = w := by
  have := List.inj_on_of_nodup_map h hv hw rfl
  exact (Prod.mk.inj this).2

theorem getProp_eq_some {o : Props α} (h : (keys o).Nodup) {k : JsString} {v : α} :
    getProp k o = some v ↔ (k, v) ∈ o := by
  rw [getProp, Option.map_eq_some_iff]
  constructor
  · rintro ⟨⟨k', v'⟩, hfind, rfl⟩
    have hk : k' = k := by simpa using List.find?_some hfind
    rw [← hk]
    exact List.mem_of_find?_eq_some hfind
  · intro hv
    have hex : ∃ p ∈ o, decide (p.1 = k) = true := ⟨(k, v), hv, by simp⟩
    obtain ⟨⟨k', v'⟩, hp⟩ := Option.isSome_iff_exists.mp (List.find?_isSome.mpr hex)
    have hk : k' = k := by simpa using List.find?_some hp
    subst hk
    exact ⟨_, hp, eq_of_mem_of_key h (List.mem_of_find?_eq_some hp) hv⟩

theorem getProp_eq_none {o : Props α} {k : JsString} : getProp k o = none ↔ k ∉ keys o := by
  rw [getProp, Option.map_eq_none_iff, List.find?_eq_none, mem_keys]
  constructor
  · rintro h ⟨v, hv⟩
    exact h _ hv (decide_eq_true rfl)
  · intro h p hp hk
    exact h ⟨p.2, by rw [← of_decide_eq_true hk]; exact hp⟩

/-! ### Adding a property -/

theorem mem_insertIndex {i : ℕ} {k : JsString} {v : α} {o : Props α} {p : JsString × α} :
    p ∈ insertIndex i k v o ↔ p = (k, v) ∨ p ∈ o := by
  induction o with
  | nil => simp [insertIndex]
  | cons q o ih =>
    rw [insertIndex]
    split
    · split_ifs
      · rw [List.mem_cons, ih, List.mem_cons]
        tauto
      · rw [List.mem_cons]
    · rw [List.mem_cons]

theorem sublist_insertIndex (i : ℕ) (k : JsString) (v : α) (o : Props α) :
    o.Sublist (insertIndex i k v o) := by
  induction o with
  | nil => exact List.nil_sublist _
  | cons q o ih =>
    rw [insertIndex]
    split
    · split_ifs
      · exact ih.cons_cons q
      · exact List.sublist_cons_self _ _
    · exact List.sublist_cons_self _ _

/-- On a new key the old enumeration is kept. -/
theorem sublist_createData {o : Props α} {k : JsString} (hk : k ∉ keys o) (v : α) :
    o.Sublist (createData o k v) := by
  rw [createData, if_neg hk]
  split
  · exact sublist_insertIndex _ k v o
  · exact List.sublist_append_left o _

theorem mem_createData {o : Props α} {k : JsString} {v : α} {p : JsString × α} :
    p ∈ createData o k v ↔ p = (k, v) ∨ (p ∈ o ∧ p.1 ≠ k) := by
  rw [createData]
  by_cases hk : k ∈ keys o
  · rw [if_pos hk, List.mem_map]
    constructor
    · rintro ⟨q, hq, rfl⟩
      by_cases hqk : q.1 = k
      · rw [if_pos hqk]
        exact Or.inl rfl
      · rw [if_neg hqk]
        exact Or.inr ⟨hq, hqk⟩
    · rintro (rfl | ⟨hp, hpk⟩)
      · obtain ⟨w, hw⟩ := mem_keys.mp hk
        exact ⟨(k, w), hw, if_pos rfl⟩
      · exact ⟨p, hp, if_neg hpk⟩
  · have hmem : ∀ p ∈ o, p.1 ≠ k := fun p hp h ↦ hk (h ▸ mem_keys_of_mem hp)
    rw [if_neg hk]
    split
    · rw [mem_insertIndex]
      exact ⟨fun h ↦ h.imp_right fun hp ↦ ⟨hp, hmem p hp⟩, fun h ↦ h.imp_right And.left⟩
    · rw [List.mem_append, List.mem_singleton]
      exact ⟨fun h ↦ h.symm.imp_right fun hp ↦ ⟨hp, hmem p hp⟩,
        fun h ↦ h.symm.imp_left And.left⟩

theorem mem_keys_createData {o : Props α} {k k' : JsString} {v : α} :
    k' ∈ keys (createData o k v) ↔ k' = k ∨ k' ∈ keys o := by
  simp only [mem_keys, mem_createData, Prod.mk.injEq]
  constructor
  · rintro ⟨w, ⟨rfl, -⟩ | ⟨hw, -⟩⟩
    · exact Or.inl rfl
    · exact Or.inr ⟨w, hw⟩
  · rintro (rfl | ⟨w, hw⟩)
    · exact ⟨v, Or.inl ⟨rfl, rfl⟩⟩
    · by_cases h : k' = k
      · exact ⟨v, Or.inl ⟨h, rfl⟩⟩
      · exact ⟨w, Or.inr ⟨hw, h⟩⟩

theorem ordered_insertIndex {i : ℕ} {k : JsString} {v : α} {o : Props α} (h : Ordered o)
    (hk : k ∉ keys o) (hi : arrayIndex? k = some i) : Ordered (insertIndex i k v o) := by
  induction o with
  | nil => exact List.pairwise_singleton _ _
  | cons q o ih =>
    rw [ordered_cons] at h
    rw [keys_cons, List.mem_cons, not_or] at hk
    -- a key that is not a smaller index comes after the new one, and so does all that follows it
    have hfront : (∀ j, arrayIndex? q.1 = some j → i < j) →
        Ordered ((k, v) :: q :: o) := by
      intro hj
      refine ordered_cons.mpr ⟨fun k' hk' ↦ (ownBefore_of_index hi).mpr fun j' hj' ↦ ?_,
        ordered_cons.mpr h⟩
      rcases List.mem_cons.mp hk' with rfl | hk'
      · exact hj j' hj'
      · have hq := h.1 k' hk'
        cases hqi : arrayIndex? q.1 with
        | none =>
          have := ((ownBefore_of_none hqi).mp hq).1
          rw [hj'] at this
          exact absurd this (by simp)
        | some j => exact (hj j hqi).trans ((ownBefore_of_index hqi).mp hq j' hj')
    rw [insertIndex]
    split
    · rename_i j hj
      split_ifs with hlt
      · refine ordered_cons.mpr ⟨fun k' hk' ↦ ?_, ih h.2 hk.2⟩
        obtain ⟨w, hw⟩ := mem_keys.mp hk'
        rcases mem_insertIndex.mp hw with heq | hmem
        · obtain ⟨rfl, -⟩ := Prod.mk.inj heq
          refine (ownBefore_of_index hj).mpr fun j' hj' ↦ ?_
          rw [hi, Option.some_inj] at hj'
          exact hj' ▸ hlt
        · exact h.1 k' (mem_keys_of_mem hmem)
      · refine hfront fun j' hj' ↦ ?_
        rw [hj, Option.some_inj] at hj'
        subst hj'
        have hne : i ≠ j := by
          rintro rfl
          exact hk.1 (arrayIndex?_inj hi hj)
        omega
    · rename_i hnone
      exact hfront fun j hj ↦ absurd (hnone ▸ hj : none = some j) (by simp)

theorem ordered_append_singleton {o : Props α} {k : JsString} {v : α} (h : Ordered o)
    (hk : k ∉ keys o) (hi : arrayIndex? k = none) : Ordered (o ++ [(k, v)]) := by
  rw [Ordered, keys_append]
  refine List.pairwise_append.mpr ⟨h, List.pairwise_singleton _ _, fun a ha b hb ↦ ?_⟩
  obtain rfl : b = k := List.mem_singleton.mp hb
  cases hai : arrayIndex? a with
  | none => exact (ownBefore_of_none hai).mpr ⟨hi, fun hab ↦ hk (hab ▸ ha)⟩
  | some i =>
    refine (ownBefore_of_index hai).mpr fun j hj ↦ ?_
    rw [hi] at hj
    exact absurd hj (by simp)

/-- **Defining a property keeps an enumeration an enumeration.** -/
theorem Ordered.createData {o : Props α} (h : Ordered o) (k : JsString) (v : α) :
    Ordered (createData o k v) := by
  rw [Js.createData]
  by_cases hk : k ∈ keys o
  · have hkeys : keys (o.map fun p ↦ if p.1 = k then (k, v) else p) = keys o := by
      rw [keys, keys, List.map_map]
      refine List.map_congr_left fun p _ ↦ ?_
      rw [Function.comp_apply]
      split_ifs with hp
      · exact hp.symm
      · rfl
    rw [if_pos hk, Ordered, hkeys]
    exact h
  · rw [if_neg hk]
    split
    · rename_i i hi
      exact ordered_insertIndex h hk hi
    · rename_i hi
      exact ordered_append_singleton h hk hi

theorem ordered_foldl_createData (l : Props α) : ∀ {o : Props α}, Ordered o →
    Ordered (l.foldl (fun o p ↦ Js.createData o p.1 p.2) o) := by
  induction l with
  | nil => exact fun h ↦ h
  | cons p l ih => exact fun h ↦ ih (h.createData p.1 p.2)

theorem ordered_ofEntries (l : Props α) : Ordered (ofEntries l) :=
  ordered_foldl_createData l List.Pairwise.nil

theorem mem_of_mem_ofEntries {l : Props α} {p : JsString × α} (h : p ∈ ofEntries l) : p ∈ l := by
  have key : ∀ (l o : Props α), p ∈ l.foldl (fun o p ↦ Js.createData o p.1 p.2) o → p ∈ o ∨ p ∈ l := by
    intro l
    induction l with
    | nil => exact fun o h ↦ Or.inl h
    | cons q l ih =>
      intro o h
      rcases ih _ h with h | h
      · rcases mem_createData.mp h with rfl | ⟨h, -⟩
        · exact Or.inr List.mem_cons_self
        · exact Or.inl h
      · exact Or.inr (List.mem_cons_of_mem q h)
  exact (key l [] h).resolve_left List.not_mem_nil

/-- Where an enumeration goes on with a key, defining that key appends it. -/
theorem createData_of_ordered {o l : Props α} {p : JsString × α} (h : Ordered (o ++ p :: l)) :
    createData o p.1 p.2 = o ++ [p] := by
  rw [Ordered, keys_append, keys_cons, List.pairwise_append] at h
  obtain ⟨-, -, hcross⟩ := h
  have hbefore : ∀ q ∈ o, OwnBefore q.1 p.1 :=
    fun q hq ↦ hcross q.1 (mem_keys_of_mem hq) p.1 List.mem_cons_self
  have hk : p.1 ∉ keys o := by
    intro hmem
    obtain ⟨v, hv⟩ := mem_keys.mp hmem
    exact (hbefore _ hv).ne rfl
  rw [createData, if_neg hk]
  split
  · rename_i i hi
    clear hk hcross
    induction o with
    | nil => rfl
    | cons q o ih =>
      obtain ⟨j, hj⟩ : ∃ j, arrayIndex? q.1 = some j := by
        cases hq : arrayIndex? q.1 with
        | some j => exact ⟨j, rfl⟩
        | none =>
          have := ((ownBefore_of_none hq).mp (hbefore q List.mem_cons_self)).1
          rw [hi] at this
          exact absurd this (by simp)
      have hlt : j < i := (ownBefore_of_index hj).mp (hbefore q List.mem_cons_self) i hi
      rw [insertIndex, hj]
      simp only [if_pos hlt]
      rw [ih fun q' hq' ↦ hbefore q' (List.mem_cons_of_mem q hq'), List.cons_append]
  · rfl

theorem foldl_createData_append (l : Props α) : ∀ {o : Props α}, Ordered (o ++ l) →
    l.foldl (fun o p ↦ createData o p.1 p.2) o = o ++ l := by
  induction l with
  | nil => intro o _; rw [List.foldl_nil, List.append_nil]
  | cons p l ih =>
    intro o h
    have happ : o ++ [p] ++ l = o ++ p :: l := by rw [List.append_assoc, List.singleton_append]
    rw [List.foldl_cons, createData_of_ordered h, ih (by rw [happ]; exact h), happ]

/-- **An enumeration rebuilt in its own order is itself.** -/
theorem ofEntries_of_ordered {l : Props α} (h : Ordered l) : ofEntries l = l :=
  foldl_createData_append l h

/-! ### What determines an enumeration -/

theorem mem_foldl_createData {l : Props α} (hnd : (keys l).Nodup) {p : JsString × α} :
    ∀ {o : Props α}, (∀ k ∈ keys l, k ∉ keys o) →
      (p ∈ l.foldl (fun o p ↦ createData o p.1 p.2) o ↔ p ∈ o ∨ p ∈ l) := by
  induction l with
  | nil => intro o _; simp
  | cons q l ih =>
    intro o hfresh
    rw [keys_cons, List.nodup_cons] at hnd
    have hq : q.1 ∉ keys o := hfresh q.1 List.mem_cons_self
    have hne : ∀ p ∈ o, p.1 ≠ q.1 := fun p hp h ↦ hq (h ▸ mem_keys_of_mem hp)
    have hfresh' : ∀ k ∈ keys l, k ∉ keys (createData o q.1 q.2) := by
      intro k hk hmem
      rcases mem_keys_createData.mp hmem with rfl | hmem
      · exact hnd.1 hk
      · exact hfresh k (List.mem_cons_of_mem _ hk) hmem
    rw [List.foldl_cons, ih hnd.2 hfresh', mem_createData, List.mem_cons]
    constructor
    · rintro ((h | h) | h)
      · exact Or.inr (Or.inl h)
      · exact Or.inl h.1
      · exact Or.inr (Or.inr h)
    · rintro (h | h | h)
      · exact Or.inl (Or.inr ⟨h, hne p h⟩)
      · exact Or.inl (Or.inl h)
      · exact Or.inr h

theorem mem_ofEntries {l : Props α} (hnd : (keys l).Nodup) {p : JsString × α} :
    p ∈ ofEntries l ↔ p ∈ l := by
  rw [ofEntries, mem_foldl_createData hnd (by simp)]
  simp

theorem pair_sublist_cons {l : List α} {c x y : α} :
    [x, y].Sublist (c :: l) ↔ [x, y].Sublist l ∨ (x = c ∧ y ∈ l) := by
  rw [List.sublist_cons_iff]
  constructor
  · rintro (hs | ⟨r, hr, hs⟩)
    · exact Or.inl hs
    · obtain ⟨rfl, rfl⟩ := List.cons.inj hr
      exact Or.inr ⟨rfl, List.singleton_sublist.mp hs⟩
  · rintro (hs | ⟨rfl, hy⟩)
    · exact Or.inl hs
    · exact Or.inr ⟨[y], rfl, List.singleton_sublist.mpr hy⟩

theorem pair_sublist_total {l : List α} {x y : α} (hx : x ∈ l) (hy : y ∈ l) (hne : x ≠ y) :
    [x, y].Sublist l ∨ [y, x].Sublist l := by
  induction l with
  | nil => exact absurd hx List.not_mem_nil
  | cons c l ih =>
    rw [pair_sublist_cons, pair_sublist_cons]
    rcases List.mem_cons.mp hx with hxc | hx' <;> rcases List.mem_cons.mp hy with hyc | hy'
    · exact absurd (hxc.trans hyc.symm) hne
    · exact Or.inl (Or.inr ⟨hxc, hy'⟩)
    · exact Or.inr (Or.inr ⟨hyc, hx'⟩)
    · exact (ih hx' hy').imp Or.inl Or.inl

theorem not_pair_sublist_swap {l : List α} (h : l.Nodup) {x y : α} (hs : [x, y].Sublist l) :
    ¬[y, x].Sublist l := by
  induction l with
  | nil => exact absurd (hs.subset List.mem_cons_self) List.not_mem_nil
  | cons c l ih =>
    rw [List.nodup_cons] at h
    rw [pair_sublist_cons] at hs ⊢
    rintro (hs' | ⟨rfl, hx⟩) <;> rcases hs with hs | ⟨rfl, hy⟩
    · exact ih h.2 hs hs'
    · exact h.1 (hs'.subset (List.mem_cons_of_mem _ List.mem_cons_self))
    · exact h.1 (hs.subset (List.mem_cons_of_mem _ List.mem_cons_self))
    · exact h.1 hx

/-- `a` stands before `b` in the list. -/
def Before (l : List JsString) (a b : JsString) : Prop := [a, b].Sublist l

/-- **An enumeration is determined** by its members and by the relative order of its keys that are
not array indices. -/
theorem ordered_ext {o o' : Props α} (h : Ordered o) (h' : Ordered o')
    (hmem : ∀ p, p ∈ o ↔ p ∈ o')
    (hord : ∀ a b, arrayIndex? a = none → arrayIndex? b = none →
      Before (keys o) a b → Before (keys o') a b) : o = o' := by
  have hnd : o.Nodup := List.Nodup.of_map _ h.nodup
  have hnd' : o'.Nodup := List.Nodup.of_map _ h'.nodup
  have hperm : o.Perm o' := (List.perm_ext_iff_of_nodup hnd hnd').mpr hmem
  -- both lists are sorted by the position in the second
  have hsorted : o.Pairwise fun p q ↦ [p, q].Sublist o' ∨ p = q := by
    refine List.pairwise_iff_forall_sublist.mpr fun {p q} hpq ↦ ?_
    have hp : p ∈ o' := (hmem p).mp (hpq.subset List.mem_cons_self)
    have hq : q ∈ o' := (hmem q).mp (hpq.subset (List.mem_cons_of_mem _ List.mem_cons_self))
    have hbef : Before (keys o) p.1 q.1 := hpq.map Prod.fst
    have hown : OwnBefore p.1 q.1 := List.pairwise_iff_forall_sublist.mp h hbef
    -- the two stand in one order or the other in `o'`, and the other one is impossible
    have hback : ¬Before (keys o') q.1 p.1 := by
      intro hs
      have hown' : OwnBefore q.1 p.1 := List.pairwise_iff_forall_sublist.mp h' hs
      cases hpi : arrayIndex? p.1 with
      | some i =>
        cases hqi : arrayIndex? q.1 with
        | some j =>
          have h1 := (ownBefore_of_index hpi).mp hown j hqi
          have h2 := (ownBefore_of_index hqi).mp hown' i hpi
          omega
        | none =>
          have := ((ownBefore_of_none hqi).mp hown').1
          rw [hpi] at this
          exact absurd this (by simp)
      | none =>
        have hqi := ((ownBefore_of_none hpi).mp hown).1
        exact not_pair_sublist_swap h'.nodup (hord _ _ hpi hqi hbef) hs
    by_cases hne : p = q
    · exact Or.inr hne
    · exact Or.inl ((pair_sublist_total hp hq hne).resolve_right fun hs ↦ hback (hs.map Prod.fst))
  have hsorted' : o'.Pairwise fun p q ↦ [p, q].Sublist o' ∨ p = q :=
    List.pairwise_iff_forall_sublist.mpr fun hs ↦ Or.inl hs
  refine List.Perm.eq_of_pairwise (fun p q hp hq hpq hqp ↦ ?_) hsorted hsorted' hperm
  rcases hpq with hpq | rfl
  · rcases hqp with hqp | rfl
    · exact absurd hqp (not_pair_sublist_swap hnd' hpq)
    · rfl
  · rfl

end Props

/-! ## Values -/

/-- Plain data over leaves of type `L`. -/
inductive JsValue (L : Type) where
  | leaf (l : L)
  | arr (xs : List (JsValue L))
  | obj (kvs : List (JsString × JsValue L))

namespace JsValue

variable {L M : Type}

mutual

private theorem induct_value {motive : JsValue L → Prop} (leaf : ∀ l, motive (.leaf l))
    (arr : ∀ xs, (∀ x ∈ xs, motive x) → motive (.arr xs))
    (obj : ∀ kvs : List (JsString × JsValue L), (∀ p ∈ kvs, motive p.2) → motive (.obj kvs)) :
    ∀ v, motive v
  | .leaf l => leaf l
  | .arr xs => arr xs (induct_list leaf arr obj xs)
  | .obj kvs => obj kvs (induct_members leaf arr obj kvs)

private theorem induct_list {motive : JsValue L → Prop} (leaf : ∀ l, motive (.leaf l))
    (arr : ∀ xs, (∀ x ∈ xs, motive x) → motive (.arr xs))
    (obj : ∀ kvs : List (JsString × JsValue L), (∀ p ∈ kvs, motive p.2) → motive (.obj kvs)) :
    ∀ xs : List (JsValue L), ∀ x ∈ xs, motive x
  | [] => fun _ h ↦ absurd h List.not_mem_nil
  | x :: xs => List.forall_mem_cons.mpr
      ⟨induct_value leaf arr obj x, induct_list leaf arr obj xs⟩

private theorem induct_members {motive : JsValue L → Prop} (leaf : ∀ l, motive (.leaf l))
    (arr : ∀ xs, (∀ x ∈ xs, motive x) → motive (.arr xs))
    (obj : ∀ kvs : List (JsString × JsValue L), (∀ p ∈ kvs, motive p.2) → motive (.obj kvs)) :
    ∀ kvs : List (JsString × JsValue L), ∀ p ∈ kvs, motive p.2
  | [] => fun _ h ↦ absurd h List.not_mem_nil
  | (_, v) :: kvs => List.forall_mem_cons.mpr
      ⟨induct_value leaf arr obj v, induct_members leaf arr obj kvs⟩

end

/-- Induction on plain data: the elements of an array and the values of an object are smaller. -/
@[elab_as_elim, induction_eliminator]
theorem induct {motive : JsValue L → Prop} (leaf : ∀ l, motive (.leaf l))
    (arr : ∀ xs, (∀ x ∈ xs, motive x) → motive (.arr xs))
    (obj : ∀ kvs : List (JsString × JsValue L), (∀ p ∈ kvs, motive p.2) → motive (.obj kvs))
    (v : JsValue L) : motive v := induct_value leaf arr obj v

mutual

private def decEqValue [DecidableEq L] : (u v : JsValue L) → Decidable (u = v)
  | .leaf a, .leaf b => decidable_of_iff (a = b) (by rw [leaf.injEq])
  | .arr xs, .arr ys =>
    have := decEqList xs ys
    decidable_of_iff (xs = ys) (by rw [arr.injEq])
  | .obj xs, .obj ys =>
    have := decEqMembers xs ys
    decidable_of_iff (xs = ys) (by rw [obj.injEq])
  | .leaf _, .arr _ => isFalse nofun
  | .leaf _, .obj _ => isFalse nofun
  | .arr _, .leaf _ => isFalse nofun
  | .arr _, .obj _ => isFalse nofun
  | .obj _, .leaf _ => isFalse nofun
  | .obj _, .arr _ => isFalse nofun

private def decEqList [DecidableEq L] : (xs ys : List (JsValue L)) → Decidable (xs = ys)
  | [], [] => isTrue rfl
  | [], _ :: _ => isFalse nofun
  | _ :: _, [] => isFalse nofun
  | x :: xs, y :: ys =>
    have := decEqValue x y
    have := decEqList xs ys
    decidable_of_iff (x = y ∧ xs = ys) (by rw [List.cons.injEq])

private def decEqMembers [DecidableEq L] :
    (xs ys : List (JsString × JsValue L)) → Decidable (xs = ys)
  | [], [] => isTrue rfl
  | [], _ :: _ => isFalse nofun
  | _ :: _, [] => isFalse nofun
  | (k, x) :: xs, (l, y) :: ys =>
    have := decEqValue x y
    have := decEqMembers xs ys
    decidable_of_iff ((k = l ∧ x = y) ∧ xs = ys) (by rw [List.cons.injEq, Prod.mk.injEq])

end

instance [DecidableEq L] : DecidableEq (JsValue L) := decEqValue

/-- Every object is an enumeration and every leaf is admissible. -/
inductive WellFormed (P : L → Prop) : JsValue L → Prop where
  | leaf {l : L} : P l → WellFormed P (.leaf l)
  | arr {xs : List (JsValue L)} : (∀ x ∈ xs, WellFormed P x) → WellFormed P (.arr xs)
  | obj {kvs : List (JsString × JsValue L)} : Ordered kvs → (∀ p ∈ kvs, WellFormed P p.2) →
      WellFormed P (.obj kvs)

variable {P Q : L → Prop}

@[simp] theorem wellFormed_leaf {l : L} : WellFormed P (.leaf l) ↔ P l :=
  ⟨fun h ↦ by cases h; assumption, .leaf⟩

@[simp] theorem wellFormed_arr {xs : List (JsValue L)} :
    WellFormed P (.arr xs) ↔ ∀ x ∈ xs, WellFormed P x :=
  ⟨fun h ↦ by cases h; assumption, .arr⟩

@[simp] theorem wellFormed_obj {kvs : List (JsString × JsValue L)} :
    WellFormed P (.obj kvs) ↔ Ordered kvs ∧ ∀ p ∈ kvs, WellFormed P p.2 :=
  ⟨fun h ↦ by cases h with | obj h h' => exact ⟨h, h'⟩, fun h ↦ .obj h.1 h.2⟩

theorem WellFormed.mono (h : ∀ l, P l → Q l) {v : JsValue L} (hv : WellFormed P v) :
    WellFormed Q v := by
  induction hv with
  | leaf hl => exact .leaf (h _ hl)
  | arr _ ih => exact .arr ih
  | obj ho _ ih => exact .obj ho ih

mutual

/-- Replace the leaves. -/
def mapLeaf (f : L → M) : JsValue L → JsValue M
  | .leaf l => .leaf (f l)
  | .arr xs => .arr (mapLeafList f xs)
  | .obj kvs => .obj (mapLeafMembers f kvs)

def mapLeafList (f : L → M) : List (JsValue L) → List (JsValue M)
  | [] => []
  | x :: xs => x.mapLeaf f :: mapLeafList f xs

def mapLeafMembers (f : L → M) : List (JsString × JsValue L) → List (JsString × JsValue M)
  | [] => []
  | (k, v) :: kvs => (k, v.mapLeaf f) :: mapLeafMembers f kvs

end

theorem mapLeafList_eq (f : L → M) (xs : List (JsValue L)) :
    mapLeafList f xs = xs.map (mapLeaf f) := by
  induction xs with
  | nil => rfl
  | cons x xs ih => rw [mapLeafList, ih, List.map_cons]

theorem mapLeafMembers_eq (f : L → M) (kvs : List (JsString × JsValue L)) :
    mapLeafMembers f kvs = kvs.map fun p ↦ (p.1, p.2.mapLeaf f) := by
  induction kvs with
  | nil => rfl
  | cons p kvs ih => rw [mapLeafMembers, ih, List.map_cons]

@[simp] theorem mapLeaf_leaf (f : L → M) (l : L) : (leaf l).mapLeaf f = .leaf (f l) := rfl

@[simp] theorem mapLeaf_arr (f : L → M) (xs : List (JsValue L)) :
    (arr xs).mapLeaf f = .arr (xs.map (mapLeaf f)) := by rw [mapLeaf, mapLeafList_eq]

@[simp] theorem mapLeaf_obj (f : L → M) (kvs : List (JsString × JsValue L)) :
    (obj kvs).mapLeaf f = .obj (kvs.map fun p ↦ (p.1, p.2.mapLeaf f)) := by
  rw [mapLeaf, mapLeafMembers_eq]

/-- Replacing leaves by admissible ones keeps a value well formed. -/
theorem WellFormed.mapLeaf {R : M → Prop} {f : L → M} (h : ∀ l, P l → R (f l)) {v : JsValue L}
    (hv : WellFormed P v) : WellFormed R (v.mapLeaf f) := by
  induction hv with
  | leaf hl => exact .leaf (h _ hl)
  | arr _ ih =>
    rw [mapLeaf_arr, wellFormed_arr]
    intro y hy
    obtain ⟨x, hx, rfl⟩ := List.mem_map.mp hy
    exact ih x hx
  | obj ho _ ih =>
    rw [mapLeaf_obj, wellFormed_obj]
    refine ⟨ordered_map_snd.mpr ho, fun q hq ↦ ?_⟩
    obtain ⟨p, hp, rfl⟩ := List.mem_map.mp hq
    exact ih p hp

/-- Leaves that are left as they are leave the value as it is. -/
theorem mapLeaf_eq_self {f : L → L} (h : ∀ l, P l → f l = l) {v : JsValue L}
    (hv : WellFormed P v) : v.mapLeaf f = v := by
  induction hv with
  | leaf hl => rw [mapLeaf_leaf, h _ hl]
  | arr _ ih => rw [mapLeaf_arr, List.map_congr_left ih, List.map_id']
  | @obj kvs _ _ ih =>
    have hcongr : kvs.map (fun p ↦ (p.1, p.2.mapLeaf f)) = kvs.map id :=
      List.map_congr_left fun p hp ↦ by rw [ih p hp]; rfl
    rw [mapLeaf_obj, hcongr, List.map_id]

end JsValue

end Js

import Mathlib
import Vibestudio.Js.Value

/-!
# Canonical forms by sorting keys

The shape shared by the canonical serializers of a JavaScript program: the keys of an object are
normalized and sorted, the children are converted, and a new object is built by **assigning** the
properties in that order. A `Scheme` says how keys are normalized, how they are sorted and what
becomes of a leaf; `canonical` is the conversion.

Three things decide what such a form can tell apart, and `Agree` collects them at every depth:
assignment loses the key `__proto__`; keys the order does not separate stay in the order of the
source; and the leaf map may identify leaves. The main result, `canonical_eq_iff`, is that two
values have the same canonical form exactly when they agree in this sense, as long as no object has
two keys with one normalization.

The enumeration order of the new object is not the sorted order (array indices go first), so the
argument never compares lists position by position. It uses that an enumeration is determined by its
members and by the relative order of its other keys (`ordered_ext`).
-/

namespace Js

/-! ## Sorting properties -/

/-- A total preorder on keys. Keys with `le` both ways are tied. -/
structure KeyOrder where
  le : JsString → JsString → Prop
  dec : DecidableRel le
  total : ∀ a b, le a b ∨ le b a
  trans : ∀ a b c, le a b → le b c → le a c

namespace KeyOrder

variable (K : KeyOrder) {α : Type}

instance : DecidableRel K.le := K.dec

def Tied (a b : JsString) : Prop := K.le a b ∧ K.le b a

/-- `entries.sort((left, right) => compare(left.key, right.key))`: a stable sort. -/
def sort (l : Props α) : Props α := l.insertionSort fun p q ↦ K.le p.1 q.1

private theorem sort_total (p q : JsString × α) : K.le p.1 q.1 ∨ K.le q.1 p.1 := K.total p.1 q.1

private theorem sort_trans (p q r : JsString × α) (hpq : K.le p.1 q.1) (hqr : K.le q.1 r.1) :
    K.le p.1 r.1 := K.trans p.1 q.1 r.1 hpq hqr

theorem mem_sort {l : Props α} {p : JsString × α} : p ∈ K.sort l ↔ p ∈ l :=
  List.mem_insertionSort _

theorem keys_sort_perm (l : Props α) : (keys (K.sort l)).Perm (keys l) :=
  (List.perm_insertionSort _ l).map Prod.fst

/-- A pair of keys comes from a pair of entries. -/
theorem before_keys {l : Props α} {a b : JsString} :
    Before (keys l) a b ↔ ∃ v w, [(a, v), (b, w)].Sublist l := by
  constructor
  · intro h
    obtain ⟨l', hl', heq⟩ := List.sublist_map_iff.mp h
    match l', heq with
    | [p, q], heq =>
      simp only [List.map_cons, List.map_nil, List.cons.injEq, and_true] at heq
      exact ⟨p.2, q.2, by rw [heq.1, heq.2]; exact hl'⟩
  · rintro ⟨v, w, h⟩
    exact h.map Prod.fst

/-- **The order of a sorted list**: strictly smaller keys first, tied keys as they were. -/
theorem before_sort {l : Props α} (hnd : (keys l).Nodup) {a b : JsString} (ha : a ∈ keys l)
    (hb : b ∈ keys l) (hab : a ≠ b) :
    Before (keys (K.sort l)) a b ↔ K.le a b ∧ (K.le b a → Before (keys l) a b) := by
  have : Std.Total fun p q : JsString × α ↦ K.le p.1 q.1 := ⟨K.sort_total⟩
  have : IsTrans (JsString × α) fun p q ↦ K.le p.1 q.1 := ⟨K.sort_trans⟩
  have hnd' : (keys (K.sort l)).Nodup := (K.keys_sort_perm l).nodup_iff.mpr hnd
  have hsorted : ∀ {x y}, Before (keys (K.sort l)) x y → K.le x y := by
    intro x y h
    obtain ⟨v, w, hs⟩ := before_keys.mp h
    exact List.pairwise_iff_forall_sublist.mp (List.pairwise_insertionSort _ l) hs
  have hstable : ∀ {x y}, K.le x y → Before (keys l) x y → Before (keys (K.sort l)) x y := by
    intro x y hxy h
    obtain ⟨v, w, hs⟩ := before_keys.mp h
    exact before_keys.mpr ⟨v, w, List.pair_sublist_insertionSort hxy hs⟩
  have ha' : a ∈ keys (K.sort l) := (K.keys_sort_perm l).mem_iff.mpr ha
  have hb' : b ∈ keys (K.sort l) := (K.keys_sort_perm l).mem_iff.mpr hb
  constructor
  · intro h
    refine ⟨hsorted h, fun hba ↦ ?_⟩
    refine (pair_sublist_total ha hb hab).resolve_right fun hs ↦ ?_
    exact not_pair_sublist_swap hnd' h (hstable hba hs)
  · rintro ⟨hle, htie⟩
    refine (pair_sublist_total ha' hb' hab).resolve_right fun hs ↦ ?_
    exact not_pair_sublist_swap hnd' hs (hstable hle (htie (hsorted hs)))

end KeyOrder

/-! ## Building an object by assignment -/

section AssignAll

variable {α : Type}

/-- `for (const [key, value] of l) result[key] = value`. -/
def assignAll (l : Props α) : Props α := l.foldl (fun o p ↦ assign o p.1 p.2) []

/-- The properties an assignment creates. -/
def assignable (l : Props α) : Props α := l.filter fun p ↦ decide (p.1 ≠ protoKey)

theorem mem_assignable {l : Props α} {p : JsString × α} :
    p ∈ assignable l ↔ p ∈ l ∧ p.1 ≠ protoKey := by
  rw [assignable, List.mem_filter, decide_eq_true_iff]

theorem keys_assignable (l : Props α) :
    keys (assignable l) = (keys l).filter fun k ↦ decide (k ≠ protoKey) := by
  rw [keys, keys, List.filter_map]
  rfl

theorem nodup_keys_assignable {l : Props α} (h : (keys l).Nodup) : (keys (assignable l)).Nodup := by
  rw [keys_assignable]
  exact h.filter _

theorem before_assignable {l : Props α} {a b : JsString} :
    Before (keys (assignable l)) a b ↔ Before (keys l) a b ∧ a ≠ protoKey ∧ b ≠ protoKey := by
  rw [keys_assignable]
  constructor
  · intro h
    have hmem : ∀ k ∈ [a, b], k ≠ protoKey := fun k hk ↦
      of_decide_eq_true (List.mem_filter.mp (h.subset hk)).2
    exact ⟨h.trans List.filter_sublist, hmem a List.mem_cons_self,
      hmem b (List.mem_cons_of_mem _ List.mem_cons_self)⟩
  · rintro ⟨h, ha, hb⟩
    have hpair : [a, b].filter (fun k ↦ decide (k ≠ protoKey)) = [a, b] :=
      List.filter_eq_self.mpr (by simp [ha, hb])
    have hsub := h.filter fun k ↦ decide (k ≠ protoKey)
    rwa [hpair] at hsub

theorem foldl_assign (l : Props α) : ∀ o : Props α,
    l.foldl (fun o p ↦ assign o p.1 p.2) o
      = (assignable l).foldl (fun o p ↦ createData o p.1 p.2) o := by
  induction l with
  | nil => exact fun _ ↦ rfl
  | cons p l ih =>
    intro o
    rw [List.foldl_cons, ih, assign]
    by_cases hp : p.1 = protoKey
    · rw [if_pos hp, assignable, assignable, List.filter_cons_of_neg (by simp [hp])]
    · rw [if_neg hp, assignable, assignable, List.filter_cons_of_pos (by simp [hp]),
        List.foldl_cons]

theorem assignAll_eq (l : Props α) : assignAll l = ofEntries (assignable l) := foldl_assign l []

theorem ordered_assignAll (l : Props α) : Ordered (assignAll l) := by
  rw [assignAll_eq]
  exact ordered_ofEntries _

theorem mem_assignAll {l : Props α} (hnd : (keys l).Nodup) {p : JsString × α} :
    p ∈ assignAll l ↔ p ∈ l ∧ p.1 ≠ protoKey := by
  rw [assignAll_eq, mem_ofEntries (nodup_keys_assignable hnd), mem_assignable]

/-- A key that is not an array index stays behind every key defined earlier. -/
theorem before_foldl_createData {a b : JsString} (hb : arrayIndex? b = none) (l : Props α) :
    ∀ o : Props α, (∀ k ∈ keys l, k ∉ keys o) → (keys l).Nodup →
      Before (keys o) a b ∨ (a ∈ keys o ∧ b ∈ keys l) ∨ Before (keys l) a b →
      Before (keys (l.foldl (fun o p ↦ createData o p.1 p.2) o)) a b := by
  induction l with
  | nil =>
    rintro o - - (h | ⟨-, h⟩ | h)
    · exact h
    · exact absurd h List.not_mem_nil
    · exact absurd (h.subset List.mem_cons_self) List.not_mem_nil
  | cons p l ih =>
    intro o hfresh hnd h
    rw [keys_cons, List.nodup_cons] at hnd
    have hp : p.1 ∉ keys o := hfresh p.1 List.mem_cons_self
    have hsub : (keys o).Sublist (keys (createData o p.1 p.2)) :=
      (sublist_createData hp p.2).map Prod.fst
    have hfresh' : ∀ k ∈ keys l, k ∉ keys (createData o p.1 p.2) := by
      intro k hk hmem
      rcases mem_keys_createData.mp hmem with rfl | hmem
      · exact hnd.1 hk
      · exact hfresh k (List.mem_cons_of_mem _ hk) hmem
    refine ih (createData o p.1 p.2) hfresh' hnd.2 ?_
    rcases h with h | ⟨ha, hbl⟩ | h
    · exact Or.inl (h.trans hsub)
    · rcases List.mem_cons.mp hbl with rfl | hbl
      · -- the new key goes to the end
        have happ : createData o p.1 p.2 = o ++ [p] := by rw [createData, if_neg hp, hb]
        rw [happ, keys_append]
        exact Or.inl ((List.singleton_sublist.mpr ha).append (List.Sublist.refl [p.1]))
      · exact Or.inr (Or.inl ⟨hsub.subset ha, hbl⟩)
    · rcases pair_sublist_cons.mp h with h | ⟨rfl, hbl⟩
      · exact Or.inr (Or.inr h)
      · exact Or.inr (Or.inl ⟨mem_keys_createData.mpr (Or.inl rfl), hbl⟩)

/-- The keys that are not array indices are enumerated in the order of their assignment. -/
theorem before_assignAll {l : Props α} (hnd : (keys l).Nodup) {a b : JsString}
    (ha : arrayIndex? a = none) (hb : arrayIndex? b = none) (ha' : a ≠ protoKey)
    (hb' : b ≠ protoKey) (hal : a ∈ keys l) (hbl : b ∈ keys l) (hab : a ≠ b) :
    Before (keys (assignAll l)) a b ↔ Before (keys l) a b := by
  have hforward : ∀ {x y}, arrayIndex? y = none → x ≠ protoKey → y ≠ protoKey →
      Before (keys l) x y → Before (keys (assignAll l)) x y := by
    intro x y hy hx' hy' h
    rw [assignAll_eq]
    exact before_foldl_createData hy _ [] (fun _ _ ↦ List.not_mem_nil) (nodup_keys_assignable hnd)
      (Or.inr (Or.inr (before_assignable.mpr ⟨h, hx', hy'⟩)))
  refine ⟨fun h ↦ (pair_sublist_total hal hbl hab).resolve_right fun hs ↦ ?_,
    hforward hb ha' hb'⟩
  exact not_pair_sublist_swap (ordered_assignAll l).nodup h (hforward ha hb' ha' hs)

/-- **What an object built by sorted assignment determines**: the properties other than
`__proto__`, and the order of the keys that are tied. -/
theorem assignAll_sort_eq_iff (K : KeyOrder) {l l' : Props α} (hnd : (keys l).Nodup)
    (hnd' : (keys l').Nodup) :
    assignAll (K.sort l) = assignAll (K.sort l') ↔
      (∀ p : JsString × α, p.1 ≠ protoKey → (p ∈ l ↔ p ∈ l')) ∧
      ∀ a b, a ≠ protoKey → b ≠ protoKey → arrayIndex? a = none → arrayIndex? b = none →
        K.Tied a b → Before (keys l) a b → Before (keys l') a b := by
  have hsnd : (keys (K.sort l)).Nodup := (K.keys_sort_perm l).nodup_iff.mpr hnd
  have hsnd' : (keys (K.sort l')).Nodup := (K.keys_sort_perm l').nodup_iff.mpr hnd'
  have hmem : ∀ p, p ∈ assignAll (K.sort l) ↔ p ∈ l ∧ p.1 ≠ protoKey := fun p ↦ by
    rw [mem_assignAll hsnd, K.mem_sort]
  have hmem' : ∀ p, p ∈ assignAll (K.sort l') ↔ p ∈ l' ∧ p.1 ≠ protoKey := fun p ↦ by
    rw [mem_assignAll hsnd', K.mem_sort]
  -- the order of two plain keys in the new object
  have hord : ∀ {m : Props α} {a b}, (keys m).Nodup → arrayIndex? a = none →
      arrayIndex? b = none → a ≠ protoKey → b ≠ protoKey → a ∈ keys m → b ∈ keys m → a ≠ b →
      (Before (keys (assignAll (K.sort m))) a b ↔
        K.le a b ∧ (K.le b a → Before (keys m) a b)) := by
    intro m a b hm ha hb ha' hb' ham hbm hab
    rw [before_assignAll ((K.keys_sort_perm m).nodup_iff.mpr hm) ha hb ha' hb'
      ((K.keys_sort_perm m).mem_iff.mpr ham) ((K.keys_sort_perm m).mem_iff.mpr hbm) hab,
      K.before_sort hm ham hbm hab]
  constructor
  · intro h
    have hiff : ∀ p : JsString × α, p.1 ≠ protoKey → (p ∈ l ↔ p ∈ l') := by
      intro p hp
      have hl := hmem p
      rw [h, hmem' p] at hl
      exact ⟨fun hpl ↦ (hl.mpr ⟨hpl, hp⟩).1, fun hpl ↦ (hl.mp ⟨hpl, hp⟩).1⟩
    refine ⟨hiff, fun a b ha' hb' ha hb htied hbef ↦ ?_⟩
    have hab : a ≠ b := by
      rintro rfl
      exact not_pair_sublist_swap hnd hbef hbef
    have hal : a ∈ keys l := hbef.subset List.mem_cons_self
    have hbl : b ∈ keys l := hbef.subset (List.mem_cons_of_mem _ List.mem_cons_self)
    have hkeys : ∀ k ∈ keys l, k ≠ protoKey → k ∈ keys l' := by
      intro k hk hk'
      obtain ⟨v, hv⟩ := mem_keys.mp hk
      exact mem_keys_of_mem ((hiff _ hk').mp hv)
    have hres := (hord hnd ha hb ha' hb' hal hbl hab).mpr ⟨htied.1, fun _ ↦ hbef⟩
    rw [h, hord hnd' ha hb ha' hb' (hkeys a hal ha') (hkeys b hbl hb') hab] at hres
    exact hres.2 htied.2
  · rintro ⟨hiff, htie⟩
    refine ordered_ext (ordered_assignAll _) (ordered_assignAll _) (fun p ↦ ?_)
      fun a b ha hb hbef ↦ ?_
    · rw [hmem, hmem']
      exact and_congr_left (hiff p)
    · have hsurvive : ∀ k ∈ keys (assignAll (K.sort l)),
          k ≠ protoKey ∧ k ∈ keys l ∧ k ∈ keys l' := by
        intro k hk
        obtain ⟨v, hv⟩ := mem_keys.mp hk
        obtain ⟨hv, hk'⟩ := (hmem _).mp hv
        exact ⟨hk', mem_keys_of_mem hv, mem_keys_of_mem ((hiff _ hk').mp hv)⟩
      obtain ⟨ha', hal, hal'⟩ := hsurvive a (hbef.subset List.mem_cons_self)
      obtain ⟨hb', hbl, hbl'⟩ :=
        hsurvive b (hbef.subset (List.mem_cons_of_mem _ List.mem_cons_self))
      have hab : a ≠ b := by
        rintro rfl
        exact not_pair_sublist_swap (ordered_assignAll _).nodup hbef hbef
      obtain ⟨hle, hstay⟩ := (hord hnd ha hb ha' hb' hal hbl hab).mp hbef
      exact (hord hnd' ha hb ha' hb' hal' hbl' hab).mpr
        ⟨hle, fun hle' ↦ htie a b ha' hb' ha hb ⟨hle, hle'⟩ (hstay hle')⟩

/-- Every key but `__proto__` keeps its value. -/
theorem getProp_assignAll_sort (K : KeyOrder) {l : Props α} (hnd : (keys l).Nodup) {k : JsString}
    (hk : k ≠ protoKey) : getProp k (assignAll (K.sort l)) = getProp k l := by
  have hsnd : (keys (K.sort l)).Nodup := (K.keys_sort_perm l).nodup_iff.mpr hnd
  have hres : (keys (assignAll (K.sort l))).Nodup := (ordered_assignAll _).nodup
  have hiff : ∀ v, getProp k (assignAll (K.sort l)) = some v ↔ getProp k l = some v := by
    intro v
    rw [getProp_eq_some hres, getProp_eq_some hnd, mem_assignAll hsnd, K.mem_sort]
    exact and_iff_left hk
  exact Option.ext hiff

/-- Building an object by sorted assignment a second time changes nothing. -/
theorem assignAll_sort_idem (K : KeyOrder) {l : Props α} (hnd : (keys l).Nodup) :
    assignAll (K.sort (assignAll (K.sort l))) = assignAll (K.sort l) := by
  have hsnd : (keys (K.sort l)).Nodup := (K.keys_sort_perm l).nodup_iff.mpr hnd
  have hmem : ∀ p, p ∈ assignAll (K.sort l) ↔ p ∈ l ∧ p.1 ≠ protoKey := fun p ↦ by
    rw [mem_assignAll hsnd, K.mem_sort]
  have hkeys : ∀ k ∈ keys (assignAll (K.sort l)), k ∈ keys l := by
    intro k hk
    obtain ⟨v, hv⟩ := mem_keys.mp hk
    exact mem_keys_of_mem ((hmem _).mp hv).1
  refine (assignAll_sort_eq_iff K (ordered_assignAll _).nodup hnd).mpr
    ⟨fun p hp ↦ (hmem p).trans (and_iff_left hp), fun a b ha' hb' ha hb htied hbef ↦ ?_⟩
  have hal : a ∈ keys l := hkeys a (hbef.subset List.mem_cons_self)
  have hbl : b ∈ keys l := hkeys b (hbef.subset (List.mem_cons_of_mem _ List.mem_cons_self))
  have hab : a ≠ b := by
    rintro rfl
    exact not_pair_sublist_swap (ordered_assignAll _).nodup hbef hbef
  rw [before_assignAll hsnd ha hb ha' hb' ((K.keys_sort_perm l).mem_iff.mpr hal)
    ((K.keys_sort_perm l).mem_iff.mpr hbl) hab, K.before_sort hnd hal hbl hab] at hbef
  exact hbef.2 htied.2

/-- Having the same properties, key by key. -/
theorem forall_mem_iff (keep : JsString → Prop) {l l' : Props α} (hnd : (keys l).Nodup) :
    (∀ p : JsString × α, keep p.1 → (p ∈ l ↔ p ∈ l')) ↔
      (∀ k, keep k → (k ∈ keys l ↔ k ∈ keys l')) ∧
      ∀ k v w, keep k → (k, v) ∈ l → (k, w) ∈ l' → v = w := by
  constructor
  · intro h
    refine ⟨fun k hk ↦ ?_, fun k v w hk hv hw ↦ eq_of_mem_of_key hnd hv ((h _ hk).mpr hw)⟩
    rw [mem_keys, mem_keys]
    exact exists_congr fun v ↦ h (k, v) hk
  · rintro ⟨hkeys, hvalues⟩ ⟨k, v⟩ hk
    constructor
    · intro hv
      obtain ⟨w, hw⟩ := mem_keys.mp ((hkeys k hk).mp (mem_keys_of_mem hv))
      rwa [hvalues k v w hk hv hw]
    · intro hv
      obtain ⟨w, hw⟩ := mem_keys.mp ((hkeys k hk).mpr (mem_keys_of_mem hv))
      rwa [← hvalues k w v hk hw hv]

end AssignAll

/-! ## Values -/

variable {L M : Type}

/-- How a canonical form treats keys and leaves. -/
structure Scheme (L M : Type) where
  key : JsString → JsString
  order : KeyOrder
  leaf : L → M

mutual

/-- The canonical form of a value. -/
def canonical (S : Scheme L M) : JsValue L → JsValue M
  | .leaf l => .leaf (S.leaf l)
  | .arr xs => .arr (canonicalElements S xs)
  | .obj kvs => .obj (assignAll (S.order.sort (canonicalMembers S kvs)))

def canonicalElements (S : Scheme L M) : List (JsValue L) → List (JsValue M)
  | [] => []
  | x :: xs => canonical S x :: canonicalElements S xs

def canonicalMembers (S : Scheme L M) : Props (JsValue L) → Props (JsValue M)
  | [] => []
  | (k, v) :: kvs => (S.key k, canonical S v) :: canonicalMembers S kvs

end

theorem canonicalElements_eq (S : Scheme L M) (xs : List (JsValue L)) :
    canonicalElements S xs = xs.map (canonical S) := by
  induction xs with
  | nil => rfl
  | cons x xs ih => rw [canonicalElements, ih, List.map_cons]

theorem canonicalMembers_eq (S : Scheme L M) (kvs : Props (JsValue L)) :
    canonicalMembers S kvs = kvs.map fun p ↦ (S.key p.1, canonical S p.2) := by
  induction kvs with
  | nil => rfl
  | cons p kvs ih => rw [canonicalMembers, ih, List.map_cons]

@[simp] theorem canonical_leaf (S : Scheme L M) (l : L) :
    canonical S (.leaf l) = .leaf (S.leaf l) := rfl

@[simp] theorem canonical_arr (S : Scheme L M) (xs : List (JsValue L)) :
    canonical S (.arr xs) = .arr (xs.map (canonical S)) := by rw [canonical, canonicalElements_eq]

@[simp] theorem canonical_obj (S : Scheme L M) (kvs : Props (JsValue L)) :
    canonical S (.obj kvs)
      = .obj (assignAll (S.order.sort (kvs.map fun p ↦ (S.key p.1, canonical S p.2)))) := by
  rw [canonical, canonicalMembers_eq]

/-- The keys of an object after normalization. -/
def normalKeys (key : JsString → JsString) {α : Type} (kvs : Props α) : List JsString :=
  kvs.map fun p ↦ key p.1

theorem keys_map_key (S : Scheme L M) (kvs : Props (JsValue L)) :
    keys (kvs.map fun p ↦ (S.key p.1, canonical S p.2)) = normalKeys S.key kvs := by
  rw [keys, List.map_map]
  rfl

theorem normalKeys_id {α : Type} (kvs : Props α) : normalKeys id kvs = keys kvs := rfl

/-- At no depth do two keys of one object have the same normalization. -/
inductive Distinct (key : JsString → JsString) : JsValue L → Prop where
  | leaf {l : L} : Distinct key (.leaf l)
  | arr {xs : List (JsValue L)} : (∀ x ∈ xs, Distinct key x) → Distinct key (.arr xs)
  | obj {kvs : Props (JsValue L)} : (normalKeys key kvs).Nodup → (∀ p ∈ kvs, Distinct key p.2) →
      Distinct key (.obj kvs)

theorem JsValue.WellFormed.distinct {P : L → Prop} {v : JsValue L} (h : v.WellFormed P) :
    Distinct id v := by
  induction h with
  | leaf _ => exact .leaf
  | arr _ ih => exact .arr ih
  | obj ho _ ih => exact .obj ho.nodup ih

/-! ### Leaves and canonical forms -/

theorem insertIndex_map_snd {α β : Type} (f : α → β) (i : ℕ) (k : JsString) (v : α) (o : Props α) :
    insertIndex i k (f v) (o.map fun p ↦ (p.1, f p.2))
      = (insertIndex i k v o).map fun p ↦ (p.1, f p.2) := by
  induction o with
  | nil => rfl
  | cons p o ih =>
    rw [List.map_cons, insertIndex, insertIndex]
    simp only
    split
    · split_ifs
      · rw [ih, List.map_cons]
      · rfl
    · rfl

theorem assign_map_snd {α β : Type} (f : α → β) (o : Props α) (k : JsString) (v : α) :
    assign (o.map fun p ↦ (p.1, f p.2)) k (f v) = (assign o k v).map fun p ↦ (p.1, f p.2) := by
  rw [assign, assign]
  split_ifs with hproto
  · rfl
  · rw [createData, createData, keys_map_snd]
    split_ifs with hk
    · rw [List.map_map, List.map_map]
      refine List.map_congr_left fun p _ ↦ ?_
      by_cases hp : p.1 = k <;> simp [hp]
    · split
      · exact insertIndex_map_snd f _ k v o
      · rw [List.map_append, List.map_singleton]

theorem assignAll_map_snd {α β : Type} (f : α → β) (l : Props α) :
    assignAll (l.map fun p ↦ (p.1, f p.2)) = (assignAll l).map fun p ↦ (p.1, f p.2) := by
  have key : ∀ (l o : Props α),
      (l.map fun p ↦ (p.1, f p.2)).foldl (fun o p ↦ assign o p.1 p.2)
        (o.map fun p ↦ (p.1, f p.2))
        = (l.foldl (fun o p ↦ assign o p.1 p.2) o).map fun p ↦ (p.1, f p.2) := by
    intro l
    induction l with
    | nil => exact fun _ ↦ rfl
    | cons p l ih =>
      intro o
      rw [List.map_cons, List.foldl_cons, List.foldl_cons, assign_map_snd, ih]
  exact key l []

theorem KeyOrder.sort_map_snd {α β : Type} (K : KeyOrder) (f : α → β) (l : Props α) :
    K.sort (l.map fun p ↦ (p.1, f p.2)) = (K.sort l).map fun p ↦ (p.1, f p.2) :=
  (List.map_insertionSort (fun p q : JsString × α ↦ K.le p.1 q.1)
    (fun p q : JsString × β ↦ K.le p.1 q.1) (fun p : JsString × α ↦ (p.1, f p.2)) l
    fun _ _ _ _ ↦ Iff.rfl).symm

/-- A leaf map may be applied before or after. -/
theorem mapLeaf_canonical {N : Type} (S : Scheme L M) (f : M → N) (v : JsValue L) :
    (canonical S v).mapLeaf f = canonical { S with leaf := f ∘ S.leaf } v := by
  induction v with
  | leaf l => rfl
  | arr xs ih =>
    rw [canonical_arr, canonical_arr, JsValue.mapLeaf_arr, List.map_map]
    exact congrArg _ (List.map_congr_left ih)
  | obj kvs ih =>
    rw [canonical_obj, canonical_obj, JsValue.mapLeaf_obj, ← assignAll_map_snd,
      ← KeyOrder.sort_map_snd, List.map_map]
    have hmap : kvs.map ((fun p : JsString × JsValue M ↦ (p.1, p.2.mapLeaf f)) ∘
          fun p ↦ (S.key p.1, canonical S p.2))
        = kvs.map fun p ↦ (S.key p.1, canonical { S with leaf := f ∘ S.leaf } p.2) :=
      List.map_congr_left fun p hp ↦ by rw [Function.comp_apply, ih p hp]
    rw [hmap]

theorem mem_of_mem_assignAll {α : Type} {l : Props α} {p : JsString × α} (h : p ∈ assignAll l) :
    p ∈ l := by
  rw [assignAll_eq] at h
  exact (mem_assignable.mp (mem_of_mem_ofEntries h)).1

/-- A canonical form is made of enumerations. -/
theorem wellFormed_canonical {S : Scheme L M} {P : L → Prop} {Q : M → Prop}
    (h : ∀ l, P l → Q (S.leaf l)) {v : JsValue L} (hv : v.WellFormed P) :
    (canonical S v).WellFormed Q := by
  induction hv with
  | leaf hl => exact .leaf (h _ hl)
  | arr _ ih =>
    rw [canonical_arr, JsValue.wellFormed_arr]
    intro y hy
    obtain ⟨x, hx, rfl⟩ := List.mem_map.mp hy
    exact ih x hx
  | obj _ _ ih =>
    rw [canonical_obj, JsValue.wellFormed_obj]
    refine ⟨ordered_assignAll _, fun q hq ↦ ?_⟩
    obtain ⟨p, hp, rfl⟩ := List.mem_map.mp ((S.order.mem_sort).mp (mem_of_mem_assignAll hq))
    exact ih p hp

/-- The keys of a canonical form keep their normalization apart. -/
theorem distinct_canonical {S : Scheme L M} (hkey : ∀ k, S.key (S.key k) = S.key k) {v : JsValue L}
    (hv : Distinct S.key v) : Distinct S.key (canonical S v) := by
  induction hv with
  | leaf => exact .leaf
  | arr _ ih =>
    rw [canonical_arr]
    refine .arr fun y hy ↦ ?_
    obtain ⟨x, hx, rfl⟩ := List.mem_map.mp hy
    exact ih x hx
  | @obj kvs _ _ ih =>
    rw [canonical_obj]
    have hmem : ∀ q ∈ assignAll (S.order.sort (kvs.map fun p ↦ (S.key p.1, canonical S p.2))),
        ∃ p ∈ kvs, q = (S.key p.1, canonical S p.2) := by
      intro q hq
      obtain ⟨p, hp, rfl⟩ := List.mem_map.mp (S.order.mem_sort.mp (mem_of_mem_assignAll hq))
      exact ⟨p, hp, rfl⟩
    refine .obj ?_ fun q hq ↦ ?_
    · have hfixed : normalKeys S.key
          (assignAll (S.order.sort (kvs.map fun p ↦ (S.key p.1, canonical S p.2))))
          = keys (assignAll (S.order.sort (kvs.map fun p ↦ (S.key p.1, canonical S p.2)))) := by
        refine List.map_congr_left fun q hq ↦ ?_
        obtain ⟨p, -, rfl⟩ := hmem q hq
        exact hkey p.1
      rw [hfixed]
      exact (ordered_assignAll _).nodup
    · obtain ⟨p, hp, rfl⟩ := hmem q hq
      exact ih p hp

/-- **A canonical form is its own canonical form.** -/
theorem canonical_idem {S : Scheme L L} (hkey : ∀ k, S.key (S.key k) = S.key k)
    (hleaf : ∀ l, S.leaf (S.leaf l) = S.leaf l) {v : JsValue L} (hv : Distinct S.key v) :
    canonical S (canonical S v) = canonical S v := by
  induction hv with
  | leaf => rw [canonical_leaf, canonical_leaf, hleaf]
  | arr _ ih =>
    rw [canonical_arr, canonical_arr, List.map_map]
    exact congrArg _ (List.map_congr_left ih)
  | @obj kvs hnd _ ih =>
    have hfixed : (assignAll (S.order.sort (kvs.map fun p ↦ (S.key p.1, canonical S p.2)))).map
          (fun q ↦ (S.key q.1, canonical S q.2))
        = assignAll (S.order.sort (kvs.map fun p ↦ (S.key p.1, canonical S p.2))) := by
      conv_rhs => rw [← List.map_id (assignAll _)]
      refine List.map_congr_left fun q hq ↦ ?_
      obtain ⟨p, hp, rfl⟩ := List.mem_map.mp (S.order.mem_sort.mp (mem_of_mem_assignAll hq))
      rw [hkey, ih p hp]
      rfl
    rw [canonical_obj, canonical_obj, hfixed,
      assignAll_sort_idem S.order (by rwa [keys_map_key])]

/-! ## Agreement -/

/-- What is compared of two values: keys by their normalization and leaves by their image. Keys
outside `keep` are ignored, and `tied` keys have to stand in the same order. -/
structure Comparison (L M : Type) where
  key : JsString → JsString
  leaf : L → M
  keep : JsString → Prop
  tied : JsString → JsString → Prop

/-- Two values agree in what is compared, at every depth. -/
inductive Agree (C : Comparison L M) : JsValue L → JsValue L → Prop where
  | leaf {l l' : L} : C.leaf l = C.leaf l' → Agree C (.leaf l) (.leaf l')
  | arr {xs ys : List (JsValue L)} : xs.length = ys.length →
      (∀ (i : ℕ) (h : i < xs.length) (h' : i < ys.length), Agree C xs[i] ys[i]) →
      Agree C (.arr xs) (.arr ys)
  | obj {kvs kvs' : Props (JsValue L)} :
      (∀ k, C.keep k → (k ∈ normalKeys C.key kvs ↔ k ∈ normalKeys C.key kvs')) →
      (∀ p ∈ kvs, ∀ q ∈ kvs', C.keep (C.key p.1) → C.key p.1 = C.key q.1 → Agree C p.2 q.2) →
      (∀ a b, C.keep a → C.keep b → C.tied a b → Before (normalKeys C.key kvs) a b →
        Before (normalKeys C.key kvs') a b) →
      Agree C (.obj kvs) (.obj kvs')

/-- What a canonical form shows of a value. -/
def Scheme.shown (S : Scheme L M) : Comparison L M where
  key := S.key
  leaf := S.leaf
  keep k := k ≠ protoKey
  tied a b := arrayIndex? a = none ∧ arrayIndex? b = none ∧ S.order.Tied a b

/-- **Two values have the same canonical form exactly when they agree in what it shows.** -/
theorem canonical_eq_iff (S : Scheme L M) {u v : JsValue L} (hu : Distinct S.key u)
    (hv : Distinct S.key v) : canonical S u = canonical S v ↔ Agree S.shown u v := by
  induction u generalizing v with
  | leaf l =>
    cases v with
    | leaf l' =>
      rw [canonical_leaf, canonical_leaf, JsValue.leaf.injEq]
      exact ⟨fun h ↦ .leaf h, fun h ↦ by cases h; assumption⟩
    | arr _ => rw [canonical_leaf, canonical_arr]; exact ⟨nofun, nofun⟩
    | obj _ => rw [canonical_leaf, canonical_obj]; exact ⟨nofun, nofun⟩
  | arr xs ih =>
    cases v with
    | leaf _ => rw [canonical_leaf, canonical_arr]; exact ⟨nofun, nofun⟩
    | arr ys =>
      cases hu with | arr hu =>
      cases hv with | arr hv =>
      rw [canonical_arr, canonical_arr, JsValue.arr.injEq]
      constructor
      · intro h
        have hlen : xs.length = ys.length := by simpa using congrArg List.length h
        refine .arr hlen fun i hi hi' ↦ ?_
        rw [← ih _ (List.getElem_mem hi) (hu _ (List.getElem_mem hi)) (hv _ (List.getElem_mem hi'))]
        have hget := congrArg (·[i]?) h
        simpa [hi, hi'] using hget
      · intro h
        cases h with | arr hlen hget =>
        refine List.ext_getElem (by simpa using hlen) fun i hi hi' ↦ ?_
        rw [List.length_map] at hi hi'
        rw [List.getElem_map, List.getElem_map]
        exact (ih _ (List.getElem_mem hi) (hu _ (List.getElem_mem hi))
          (hv _ (List.getElem_mem hi'))).mpr (hget i hi hi')
    | obj _ => rw [canonical_arr, canonical_obj]; exact ⟨nofun, nofun⟩
  | obj kvs ih =>
    cases v with
    | leaf _ => rw [canonical_leaf, canonical_obj]; exact ⟨nofun, nofun⟩
    | arr _ => rw [canonical_arr, canonical_obj]; exact ⟨nofun, nofun⟩
    | obj kvs' =>
      cases hu with | obj hnd hu =>
      cases hv with | obj hnd' hv =>
      have hvalues : (∀ k v w, k ≠ protoKey →
            (k, v) ∈ kvs.map (fun p ↦ (S.key p.1, canonical S p.2)) →
            (k, w) ∈ kvs'.map (fun p ↦ (S.key p.1, canonical S p.2)) → v = w) ↔
          ∀ p ∈ kvs, ∀ q ∈ kvs', S.key p.1 ≠ protoKey → S.key p.1 = S.key q.1 →
            Agree S.shown p.2 q.2 := by
        constructor
        · intro h p hp q hq hk hpq
          refine (ih p hp (hu p hp) (hv q hq)).mp (h _ _ _ hk (List.mem_map_of_mem hp) ?_)
          rw [hpq]
          exact List.mem_map_of_mem hq
        · intro h k v w hk hmem hmem'
          obtain ⟨p, hp, hpv⟩ := List.mem_map.mp hmem
          obtain ⟨q, hq, hqw⟩ := List.mem_map.mp hmem'
          obtain ⟨rfl, rfl⟩ := Prod.mk.inj hpv
          obtain ⟨hqk, rfl⟩ := Prod.mk.inj hqw
          exact (ih p hp (hu p hp) (hv q hq)).mpr (h p hp q hq hk hqk.symm)
      rw [canonical_obj, canonical_obj, JsValue.obj.injEq,
        assignAll_sort_eq_iff S.order (by rwa [keys_map_key]) (by rwa [keys_map_key]),
        forall_mem_iff (· ≠ protoKey) (by rwa [keys_map_key]), hvalues]
      simp only [keys_map_key]
      constructor
      · rintro ⟨⟨hkeys, hval⟩, htie⟩
        exact .obj hkeys hval fun a b ha hb htied ↦
          htie a b ha hb htied.1 htied.2.1 htied.2.2
      · intro h
        cases h with | obj hkeys hval htie =>
        exact ⟨⟨hkeys, hval⟩, fun a b ha hb ha' hb' htied ↦ htie a b ha hb ⟨ha', hb', htied⟩⟩

/-- Agreement survives when less is compared. -/
theorem Agree.weaken {N : Type} (C : Comparison L M) (D : Comparison L N) {u v : JsValue L}
    (hkey : D.key = C.key) (hleaf : ∀ l l', C.leaf l = C.leaf l' → D.leaf l = D.leaf l')
    (hkeep : ∀ k, D.keep k → C.keep k)
    (htied : ∀ a b, a ≠ b → D.keep a → D.keep b → D.tied a b → C.tied a b)
    (hu : Distinct C.key u) (h : Agree C u v) : Agree D u v := by
  induction h with
  | leaf h => exact .leaf (hleaf _ _ h)
  | arr hlen _ ih =>
    cases hu with | arr hu =>
    exact .arr hlen fun i hi hi' ↦ ih i hi hi' (hu _ (List.getElem_mem hi))
  | obj hkeys _ htie ih =>
    cases hu with | obj hnd hu =>
    refine .obj (fun k hk ↦ ?_) (fun p hp q hq hk hpq ↦ ?_) fun a b ha hb hab hbef ↦ ?_
    · rw [hkey]
      exact hkeys k (hkeep k hk)
    · rw [hkey] at hk hpq
      exact ih p hp q hq (hkeep _ hk) hpq (hu p hp)
    · rw [hkey] at hbef ⊢
      have hne : a ≠ b := by
        rintro rfl
        exact not_pair_sublist_swap hnd hbef hbef
      exact htie a b (hkeep a ha) (hkeep b hb) (htied a b hne ha hb hab) hbef

/-- The leaves of one comparison and the key order of another. -/
theorem Agree.combine {N : Type} (C : Comparison L M) (D : Comparison L N) {u v : JsValue L}
    (hkey : D.key = C.key) (hkeep : ∀ k, D.keep k → C.keep k) (h : Agree C u v)
    (h' : Agree D u v) : Agree ⟨C.key, C.leaf, D.keep, D.tied⟩ u v := by
  induction h with
  | leaf h => exact .leaf h
  | arr hlen _ ih =>
    cases h' with | arr _ hget =>
    exact .arr hlen fun i hi hi' ↦ ih i hi hi' (hget i hi hi')
  | obj hkeys _ _ ih =>
    cases h' with | obj _ hval htie =>
    rw [hkey] at htie
    refine .obj (fun k hk ↦ hkeys k (hkeep k hk)) (fun p hp q hq hk hpq ↦ ?_) htie
    exact ih p hp q hq (hkeep _ hk) hpq (hval p hp q hq (by rw [hkey]; exact hk)
      (by rw [hkey]; exact hpq))

end Js

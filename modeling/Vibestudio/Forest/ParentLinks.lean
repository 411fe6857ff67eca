import Mathlib

/-!
# Forests kept as parent links

A table of nodes, each with an optional parent, and the query that walks it downwards: start from a
root, add the children of what was found last, stop when nothing is added. A recursive query of this
kind ends only if no link leads back to the root, so the walk is given as many rounds as there are
nodes and reports when they were not enough.

Acyclicity is carried by a depth (`Ranked`), which an update has to give again. The walk is described
by three local facts (`IsSubtree`), enough to say what an update of a whole subtree does to a link.
-/

namespace Forest

variable {ι : Type}

/-- Nodes and their parents. -/
abbrev Links (ι : Type) := List (ι × Option ι)

def ParentOf (l : Links ι) (x p : ι) : Prop := (x, some p) ∈ l

/-- Every node lies deeper than its parent. -/
def Ranked (l : Links ι) (depth : ι → ℕ) : Prop := ∀ x p, ParentOf l x p → depth p < depth x

/-- **A ranked table has no cycle.** -/
theorem Ranked.acyclic {l : Links ι} {depth : ι → ℕ} (h : Ranked l depth) (x : ι) :
    ¬Relation.TransGen (ParentOf l) x x := by
  have hlt : ∀ y, Relation.TransGen (ParentOf l) x y → depth y < depth x := by
    intro y hy
    induction hy with
    | single hp => exact h _ _ hp
    | tail _ hp ih => exact (h _ _ hp).trans ih
  exact fun hx ↦ lt_irrefl _ (hlt x hx)

variable [DecidableEq ι]

/-- The nodes whose parent is in the frontier. -/
def children (l : Links ι) (frontier : List ι) : List ι :=
  (l.filter fun p ↦ p.2.any (· ∈ frontier)).map Prod.fst

/-- All nodes below a frontier, or `none` when the rounds are used up before the last level. -/
def descend (l : Links ι) : ℕ → List ι → Option (List ι)
  | _, [] => some []
  | 0, _ :: _ => none
  | n + 1, frontier => (descend l n (children l frontier)).map (frontier ++ ·)

/-- The subtree of a node, empty when there is no such node. -/
def subtree (l : Links ι) (root : ι) : Option (List ι) :=
  descend l l.length ((l.map Prod.fst).filter (· = root))

theorem mem_children {l : Links ι} {frontier : List ι} {x : ι} :
    x ∈ children l frontier ↔ ∃ p ∈ frontier, ParentOf l x p := by
  simp only [children, List.mem_map, List.mem_filter, Prod.exists, exists_and_right,
    exists_eq_right, ParentOf]
  constructor
  · rintro ⟨q, hmem, hq⟩
    obtain ⟨p, rfl, hp⟩ := (Option.any_eq_true _ _).mp hq
    exact ⟨p, of_decide_eq_true hp, hmem⟩
  · rintro ⟨p, hp, hmem⟩
    exact ⟨some p, hmem, by simpa using hp⟩

theorem descend_cons {l : Links ι} {n : ℕ} {frontier s : List ι} (hne : frontier ≠ [])
    (h : descend l n frontier = some s) :
    ∃ m t, n = m + 1 ∧ descend l m (children l frontier) = some t ∧ s = frontier ++ t := by
  obtain ⟨a, as, rfl⟩ := List.exists_cons_of_ne_nil hne
  cases n with
  | zero => exact absurd h (by simp [descend])
  | succ m =>
    obtain ⟨t, ht, rfl⟩ := Option.map_eq_some_iff.mp h
    exact ⟨m, t, rfl, ht, rfl⟩

/-- What a finished walk from a frontier has found. -/
structure Collected (l : Links ι) (frontier s : List ι) : Prop where
  starts : ∀ x ∈ frontier, x ∈ s
  closed : ∀ x p, ParentOf l x p → p ∈ s → x ∈ s
  below : ∀ x ∈ s, x ∈ frontier ∨ ∃ p ∈ s, ParentOf l x p

theorem collected_of_descend {l : Links ι} : ∀ {n : ℕ} {frontier s : List ι},
    descend l n frontier = some s → Collected l frontier s := by
  intro n
  induction n with
  | zero =>
    intro frontier s h
    cases frontier with
    | nil =>
      obtain rfl := Option.some_inj.mp h
      exact ⟨fun x hx ↦ hx, fun x p _ hp ↦ absurd hp List.not_mem_nil, fun x hx ↦ Or.inl hx⟩
    | cons a as => exact absurd h (by simp [descend])
  | succ n ih =>
    intro frontier s h
    by_cases hne : frontier = []
    · subst hne
      obtain rfl := Option.some_inj.mp h
      exact ⟨fun x hx ↦ hx, fun x p _ hp ↦ absurd hp List.not_mem_nil, fun x hx ↦ Or.inl hx⟩
    · obtain ⟨m, t, hm, ht, rfl⟩ := descend_cons hne h
      obtain rfl := Nat.succ.inj hm
      obtain ⟨hstarts, hclosed, hbelow⟩ := ih ht
      refine ⟨fun x hx ↦ List.mem_append_left _ hx, fun x p hxp hp ↦ ?_, fun x hx ↦ ?_⟩
      · apply List.mem_append_right
        rcases List.mem_append.mp hp with hp | hp
        · exact hstarts x (mem_children.mpr ⟨p, hp, hxp⟩)
        · exact hclosed x p hxp hp
      · rcases List.mem_append.mp hx with hx | hx
        · exact Or.inl hx
        · refine Or.inr ?_
          rcases hbelow x hx with hx | ⟨p, hp, hxp⟩
          · obtain ⟨p, hp, hxp⟩ := mem_children.mp hx
            exact ⟨p, List.mem_append_left _ hp, hxp⟩
          · exact ⟨p, List.mem_append_right _ hp, hxp⟩

/-- A list that is the subtree of a node of the table, as far as links are concerned. -/
structure IsSubtree (l : Links ι) (root : ι) (s : List ι) : Prop where
  root_mem : (∃ p, (root, p) ∈ l) → root ∈ s
  closed : ∀ x p, ParentOf l x p → p ∈ s → x ∈ s
  below : ∀ x ∈ s, x = root ∨ ∃ p ∈ s, ParentOf l x p

/-- **The walk finds the subtree.** -/
theorem isSubtree_of_subtree {l : Links ι} {root : ι} {s : List ι} (h : subtree l root = some s) :
    IsSubtree l root s := by
  obtain ⟨hstarts, hclosed, hbelow⟩ := collected_of_descend h
  refine ⟨fun ⟨p, hp⟩ ↦ hstarts root ?_, hclosed, fun x hx ↦ ?_⟩
  · rw [List.mem_filter]
    exact ⟨List.mem_map_of_mem hp, decide_eq_true rfl⟩
  · exact (hbelow x hx).imp_left fun hx ↦ by simpa using (List.mem_filter.mp hx).2

/-- The nodes at least as deep as `m`. -/
def deeper (l : Links ι) (depth : ι → ℕ) (m : ℕ) : Finset ι :=
  (l.map Prod.fst).toFinset.filter fun x ↦ m ≤ depth x

theorem descend_isSome {l : Links ι} {depth : ι → ℕ} (h : Ranked l depth) :
    ∀ (n m : ℕ) (frontier : List ι), (∀ x ∈ frontier, x ∈ deeper l depth m) →
      (deeper l depth m).card ≤ n → (descend l n frontier).isSome := by
  intro n
  induction n with
  | zero =>
    intro m frontier hf hcard
    cases frontier with
    | nil => rfl
    | cons a as =>
      have hpos := Finset.card_pos.mpr ⟨a, hf a List.mem_cons_self⟩
      omega
  | succ n ih =>
    intro m frontier hf hcard
    by_cases hne : frontier = []
    · subst hne
      rfl
    · -- a shallowest node of the frontier is not among the nodes the next levels can reach
      obtain ⟨a, ha, hmin⟩ := frontier.toFinset.exists_min_image depth
        (List.toFinset_nonempty_iff frontier |>.mpr hne)
      simp only [List.mem_toFinset] at ha hmin
      have hstep : (descend l n (children l frontier)).isSome := by
        apply ih (depth a + 1)
        · intro x hx
          obtain ⟨p, hp, hxp⟩ := mem_children.mp hx
          have hlt := h x p hxp
          have hle := hmin p hp
          exact Finset.mem_filter.mpr
            ⟨List.mem_toFinset.mpr (List.mem_map_of_mem hxp), by omega⟩
        · have hsub : deeper l depth (depth a + 1) ⊂ deeper l depth m := by
            have ham := hf a ha
            have hma := (Finset.mem_filter.mp ham).2
            refine (Finset.ssubset_iff_of_subset fun x hx ↦ ?_).mpr ⟨a, ham, fun h ↦ ?_⟩
            · obtain ⟨hmem, hx⟩ := Finset.mem_filter.mp hx
              exact Finset.mem_filter.mpr ⟨hmem, by omega⟩
            · have := (Finset.mem_filter.mp h).2
              omega
          have := Finset.card_lt_card hsub
          omega
      obtain ⟨b, bs, rfl⟩ := List.exists_cons_of_ne_nil hne
      rw [descend, Option.isSome_map]
      exacts [hstep, hne]

/-- **In a table without cycles the walk ends.** -/
theorem subtree_isSome {l : Links ι} {depth : ι → ℕ} (h : Ranked l depth) (root : ι) :
    (subtree l root).isSome := by
  apply descend_isSome h l.length 0
  · intro x hx
    exact Finset.mem_filter.mpr
      ⟨List.mem_toFinset.mpr (List.mem_of_mem_filter hx), Nat.zero_le _⟩
  · calc (deeper l depth 0).card ≤ (l.map Prod.fst).toFinset.card := Finset.card_filter_le _ _
      _ ≤ (l.map Prod.fst).length := List.toFinset_card_le _
      _ = l.length := List.length_map _

/-! ### A subtree in any table -/

omit [DecidableEq ι] in
/-- A node on a cycle that leads up to another one brings that one onto the cycle. -/
theorem transGen_self_of_reach {l : Links ι} (hunique : ∀ x p q, ParentOf l x p → ParentOf l x q → p = q) {x root : ι}
    (hreach : Relation.ReflTransGen (ParentOf l) x root) (hcycle : Relation.TransGen (ParentOf l) x x) :
    Relation.TransGen (ParentOf l) root root := by
  induction hreach using Relation.ReflTransGen.head_induction_on with
  | refl => exact hcycle
  | @head x y hxy _ ih =>
    -- the cycle goes through the one parent that the node has
    obtain ⟨z, hxz, hzx⟩ := Relation.TransGen.head'_iff.mp hcycle
    obtain rfl := hunique x y z hxy hxz
    exact ih (Relation.TransGen.tail' hzx hxy)

/-- Links that no frontier below the root leads to can be left out. -/
theorem descend_filter {l : Links ι} {q : ι × Option ι → Bool} {seen : ι → Prop}
    (hq : ∀ x p, ParentOf l x p → seen p → q (x, some p) = true ∧ seen x) : ∀ (n : ℕ) (frontier : List ι),
      (∀ x ∈ frontier, seen x) → descend (l.filter q) n frontier = descend l n frontier := by
  intro n
  induction n with
  | zero =>
    intro frontier _
    match frontier with
    | [] => rfl
    | _ :: _ => rfl
  | succ n ih =>
    intro frontier hseen
    match frontier with
    | [] => rfl
    | a :: as =>
      have hchildren : children (l.filter q) (a :: as) = children l (a :: as) := by
        rw [children, children, List.filter_filter]
        refine congrArg _ (List.filter_congr fun link hlink ↦ Bool.and_eq_left_iff_imp.mpr fun hin ↦ ?_)
        obtain ⟨x, o⟩ := link
        obtain ⟨p, rfl, hp⟩ := (Option.any_eq_true _ _).mp hin
        exact (hq x p hlink (hseen p (of_decide_eq_true hp))).1
      rw [descend, descend, hchildren]
      · refine congrArg _ (ih _ fun x hx ↦ ?_)
        obtain ⟨p, hp, hxp⟩ := mem_children.mp hx
        exact (hq x p hxp (hseen p hp)).2
      · exact List.cons_ne_nil a as
      · exact List.cons_ne_nil a as

/-- **The walk from a node whose parent is not below it ends**, whatever cycles there are elsewhere. -/
theorem subtree_isSome_of_outside {l : Links ι} (hunique : ∀ x p q, ParentOf l x p → ParentOf l x q → p = q) {root : ι}
    (houtside : ∀ p, ParentOf l root p → ¬Relation.ReflTransGen (ParentOf l) p root) : (subtree l root).isSome := by
  classical
  by_cases hempty : (l.map Prod.fst).filter (· = root) = []
  · rw [subtree, hempty]
    cases l.length <;> rfl
  -- the links below the root, ranked by the number of ancestors
  let seen : ι → Prop := fun x ↦ Relation.ReflTransGen (ParentOf l) x root
  let below : ι × Option ι → Bool := fun link ↦ decide (seen link.1 ∧ link.1 ≠ root)
  let nodes : Finset ι := (l.filterMap Prod.snd).toFinset
  let depth : ι → ℕ := fun x ↦ (nodes.filter fun y ↦ Relation.TransGen (ParentOf l) x y).card
  have hbelow : ∀ x p, ParentOf l x p → seen p → below (x, some p) = true ∧ seen x := by
    intro x p hxp hp
    have hx : seen x := Relation.ReflTransGen.head hxp hp
    refine ⟨decide_eq_true ⟨hx, ?_⟩, hx⟩
    rintro rfl
    exact houtside p hxp hp
  have hroot : ¬Relation.TransGen (ParentOf l) root root := by
    intro hcycle
    obtain ⟨p, hp, hreach⟩ := Relation.TransGen.head'_iff.mp hcycle
    exact houtside p hp hreach
  have hranked : Ranked (l.filter below) depth := by
    intro x p hxp
    obtain ⟨hlink, hin⟩ := List.mem_filter.mp hxp
    obtain ⟨hseen, hne⟩ := of_decide_eq_true hin
    have hp : seen p := by
      rcases Relation.ReflTransGen.cases_head hseen with rfl | ⟨q, hxq, hq⟩
      · exact absurd rfl hne
      · exact hunique x q p hxq hlink ▸ hq
    apply Finset.card_lt_card
    rw [Finset.ssubset_iff_of_subset fun y hy ↦ ?_]
    · refine ⟨p, Finset.mem_filter.mpr ⟨?_, .single hlink⟩, fun hcycle ↦ ?_⟩
      · exact List.mem_toFinset.mpr (List.mem_filterMap.mpr ⟨_, hlink, rfl⟩)
      · exact hroot (transGen_self_of_reach hunique hp (Finset.mem_filter.mp hcycle).2)
    · obtain ⟨hmem, hy⟩ := Finset.mem_filter.mp hy
      exact Finset.mem_filter.mpr ⟨hmem, .head hlink hy⟩
  obtain ⟨a, as, hstart⟩ := List.exists_cons_of_ne_nil hempty
  have hmem : root ∈ l.map Prod.fst := by
    have ha : a ∈ (l.map Prod.fst).filter (· = root) := hstart ▸ List.mem_cons_self
    exact of_decide_eq_true (List.mem_filter.mp ha).2 ▸ List.mem_of_mem_filter ha
  have hlength := List.length_pos_of_mem hmem
  rw [List.length_map] at hlength
  have hstarts : ∀ x ∈ (l.map Prod.fst).filter (· = root), seen x :=
    fun x hx ↦ of_decide_eq_true (List.mem_filter.mp hx).2 ▸ .refl
  have hwalk : (descend l (l.length - 1) (children l ((l.map Prod.fst).filter (· = root)))).isSome := by
    have hchildren : ∀ x ∈ children l ((l.map Prod.fst).filter (· = root)), ∃ p, ParentOf l x p ∧ seen p := by
      intro x hx
      obtain ⟨p, hp, hxp⟩ := mem_children.mp hx
      exact ⟨p, hxp, hstarts p hp⟩
    rw [← descend_filter hbelow _ _ fun x hx ↦ ?_]
    · apply descend_isSome hranked _ 0
      · intro x hx
        obtain ⟨p, hxp, hp⟩ := hchildren x hx
        have hlink := List.mem_filter.mpr ⟨hxp, (hbelow x p hxp hp).1⟩
        exact Finset.mem_filter.mpr ⟨List.mem_toFinset.mpr (List.mem_map_of_mem hlink), Nat.zero_le _⟩
      · -- the root is no node of these links
        have hsubset : deeper (l.filter below) depth 0 ⊆ (l.map Prod.fst).toFinset.erase root := by
          intro x hx
          obtain ⟨link, hlink, rfl⟩ := List.mem_map.mp (List.mem_toFinset.mp (Finset.mem_filter.mp hx).1)
          obtain ⟨hlink, hin⟩ := List.mem_filter.mp hlink
          exact Finset.mem_erase.mpr ⟨(of_decide_eq_true hin).2, List.mem_toFinset.mpr (List.mem_map_of_mem hlink)⟩
        calc (deeper (l.filter below) depth 0).card ≤ ((l.map Prod.fst).toFinset.erase root).card :=
              Finset.card_le_card hsubset
          _ = (l.map Prod.fst).toFinset.card - 1 := Finset.card_erase_of_mem (List.mem_toFinset.mpr hmem)
          _ ≤ l.length - 1 := Nat.sub_le_sub_right ((List.toFinset_card_le _).trans_eq (List.length_map _)) 1
    · obtain ⟨p, hxp, hp⟩ := hchildren x hx
      exact (hbelow x p hxp hp).2
  obtain ⟨n, hn⟩ : ∃ n, l.length = n + 1 := ⟨_, (Nat.sub_add_cancel hlength).symm⟩
  rw [hn, Nat.add_sub_cancel] at hwalk
  rw [subtree, hn, descend, Option.isSome_map]
  · exact hwalk
  · exact hempty

/-- The depths after the subtree `s` has been hung below `dest`. -/
def rehang (depth : ι → ℕ) (s : List ι) (dest : ι) (x : ι) : ℕ :=
  if x ∈ s then depth x + depth dest + 1 else depth x

/-- **Hanging a subtree below a node outside it** keeps the table ranked. -/
theorem ranked_rehang {l l' : Links ι} {depth : ι → ℕ} (h : Ranked l depth) {root dest : ι}
    {s : List ι} (hs : IsSubtree l root s) (hdest : dest ∉ s) (hroot : root ∈ s)
    (hl : ∀ x p, ParentOf l' x p → (x = root ∧ p = dest) ∨ (x ≠ root ∧ ParentOf l x p)) :
    Ranked l' (rehang depth s dest) := by
  intro x p hxp
  rcases hl x p hxp with ⟨rfl, rfl⟩ | ⟨hne, hold⟩
  · rw [rehang, rehang, if_neg hdest, if_pos hroot]
    omega
  · have hlt := h x p hold
    by_cases hp : p ∈ s
    · rw [rehang, rehang, if_pos hp, if_pos (hs.closed x p hold hp)]
      omega
    · rw [rehang, rehang, if_neg hp]
      split_ifs <;> omega

/-- A new node below an old one keeps the table ranked, as long as nothing hangs below it yet. -/
theorem ranked_insert {l l' : Links ι} {depth : ι → ℕ} (h : Ranked l depth) {x : ι} {p : Option ι}
    (hne : p ≠ some x) (hleaf : ∀ y, ¬ParentOf l y x) (hx : ∀ q, ¬ParentOf l x q)
    (hl : ∀ y q, ParentOf l' y q → ParentOf l y q ∨ (y = x ∧ p = some q)) :
    Ranked l' (Function.update depth x ((p.map depth).getD 0 + 1)) := by
  intro y q hyq
  rcases hl y q hyq with hold | ⟨rfl, rfl⟩
  · have hq : q ≠ x := by
      rintro rfl
      exact hleaf y hold
    have hy : y ≠ x := by
      rintro rfl
      exact hx q hold
    rw [Function.update_of_ne hq, Function.update_of_ne hy]
    exact h y q hold
  · have hq : q ≠ y := fun hq ↦ hne (by rw [hq])
    rw [Function.update_of_ne hq, Function.update_self]
    exact Nat.lt_succ_self _

end Forest

import Mathlib

/-!
# Topological orders

The nodes of a graph are the keys at which `deps` has a value, the list of the nodes they depend on. An order
is topological when each of its nodes comes after the ones it depends on. `topologicalOrder` finds one in
depth, with a stack of the nodes it is in the middle of; it ends because no node comes onto the stack twice.
-/

namespace Dag

variable {κ : Type}

/-- Each node of the order comes after its dependencies. -/
def Topological (deps : κ → Option (List κ)) (order : List κ) : Prop :=
  ∀ l n r, order = l ++ n :: r → ∃ ds, deps n = some ds ∧ ∀ d ∈ ds, d ∈ l

theorem topological_nil (deps : κ → Option (List κ)) : Topological deps [] := by
  intro l n r h
  exact absurd h.symm (List.append_ne_nil_of_right_ne_nil _ (List.cons_ne_nil _ _))

theorem Topological.append {deps : κ → Option (List κ)} {order ds : List κ} {n : κ}
    (h : Topological deps order) (hn : deps n = some ds) (hds : ∀ d ∈ ds, d ∈ order) :
    Topological deps (order ++ [n]) := by
  intro l m r heq
  rcases List.eq_nil_or_concat r with rfl | ⟨r', m', rfl⟩
  · obtain ⟨rfl, hm⟩ := List.append_inj' heq rfl
    obtain rfl := List.cons.inj hm |>.1
    exact ⟨ds, hn, hds⟩
  · rw [List.concat_eq_append, ← List.cons_append, ← List.append_assoc] at heq
    obtain ⟨horder, -⟩ := List.append_inj' heq rfl
    exact h l m r' horder

/-! ## The search -/

inductive SearchError (κ : Type) where
  | unknown (n : κ)
  | cycle (names : List κ)
  /-- The fuel has run out, which it does not when there is some for each node. -/
  | exhausted
  deriving DecidableEq

variable {deps : κ → Option (List κ)}

/-- What a visit does to the order. -/
structure Visited (deps : κ → Option (List κ)) (stack order order' : List κ) : Prop where
  keeps : order <+: order'
  topological : Topological deps order → Topological deps order'
  nodup : order.Nodup → order'.Nodup
  off : ∀ n ∈ order', n ∈ order ∨ n ∉ stack

theorem Visited.refl (stack order : List κ) : Visited deps stack order order :=
  ⟨List.prefix_rfl, id, id, fun _ h ↦ .inl h⟩

theorem Visited.trans {stack order order' order'' : List κ} (h : Visited deps stack order order')
    (h' : Visited deps stack order' order'') : Visited deps stack order order'' where
  keeps := h.keeps.trans h'.keeps
  topological := fun ht ↦ h'.topological (h.topological ht)
  nodup := fun hn ↦ h'.nodup (h.nodup hn)
  off := fun n hn ↦ (h'.off n hn).elim (h.off n) .inr

/-- A loop of visits, each of which does what a visit does. -/
theorem visited_foldlM {stack : List κ} {f : List κ → κ → Except (SearchError κ) (List κ)}
    (hf : ∀ order n order', f order n = .ok order' → Visited deps stack order order' ∧ n ∈ order')
    (ns : List κ) : ∀ order order', ns.foldlM f order = .ok order' →
      Visited deps stack order order' ∧ ∀ n ∈ ns, n ∈ order' := by
  induction ns with
  | nil =>
    intro order order' h
    rw [List.foldlM_nil] at h
    exact ⟨Except.ok.inj h ▸ .refl _ _, fun n hn ↦ nomatch hn⟩
  | cons n ns ih =>
    intro order order'' h
    rw [List.foldlM_cons] at h
    cases hv : f order n with
    | error e =>
      rw [hv] at h
      exact nomatch h
    | ok order' =>
      rw [hv] at h
      obtain ⟨hvisited, hmem⟩ := hf order n order' hv
      obtain ⟨hrest, hall⟩ := ih order' order'' h
      refine ⟨hvisited.trans hrest, fun m hm ↦ ?_⟩
      rcases List.mem_cons.mp hm with rfl | hm
      · exact hrest.keeps.subset hmem
      · exact hall m hm

theorem foldlM_ne_exhausted {f : List κ → κ → Except (SearchError κ) (List κ)}
    (hf : ∀ order n, f order n ≠ .error .exhausted) (ns : List κ) :
    ∀ order, ns.foldlM f order ≠ .error .exhausted := by
  induction ns with
  | nil => exact fun _ ↦ nofun
  | cons n ns ih =>
    intro order h
    rw [List.foldlM_cons] at h
    cases hv : f order n with
    | error e =>
      rw [hv] at h
      exact hf order n (hv.trans h)
    | ok order' =>
      rw [hv] at h
      exact ih order' h

variable [DecidableEq κ]

variable (deps) in

/-- `order` holds the nodes that are done, `stack` those the search is in the middle of. -/
def visit : ℕ → List κ → List κ → κ → Except (SearchError κ) (List κ)
  | fuel, stack, order, n =>
    if n ∈ order then .ok order
    else if n ∈ stack then .error (.cycle (stack.drop (stack.idxOf n) ++ [n]))
    else match fuel with
      | 0 => .error .exhausted
      | fuel + 1 => match deps n with
        | none => .error (.unknown n)
        | some ds =>
          match ds.foldlM (visit fuel (stack ++ [n])) order with
          | .error e => .error e
          | .ok order => .ok (order ++ [n])

variable (deps) in
/-- The order of the nodes of a graph, the ones without dependencies first. -/
def topologicalOrder (nodes : List κ) : Except (SearchError κ) (List κ) :=
  nodes.foldlM (visit deps (nodes.length + 1) []) []

theorem visit_spec (fuel : ℕ) : ∀ stack order n order', visit deps fuel stack order n = .ok order' →
    Visited deps stack order order' ∧ n ∈ order' := by
  induction fuel with
  | zero =>
    intro stack order n order' h
    rw [visit] at h
    split_ifs at h with hdone
    exact ⟨Except.ok.inj h ▸ .refl _ _, Except.ok.inj h ▸ hdone⟩
  | succ fuel ih =>
    intro stack order n order' h
    rw [visit] at h
    split_ifs at h with hdone hstack
    · exact ⟨Except.ok.inj h ▸ .refl _ _, Except.ok.inj h ▸ hdone⟩
    cases hds : deps n with
    | none =>
      rw [hds] at h
      exact nomatch h
    | some ds =>
      rw [hds] at h
      dsimp only at h
      cases hfold : ds.foldlM (visit deps fuel (stack ++ [n])) order with
      | error e =>
        rw [hfold] at h
        exact nomatch h
      | ok order₁ =>
        rw [hfold] at h
        obtain rfl := Except.ok.inj h
        -- the dependencies are done, and none of them is the node itself
        obtain ⟨hvisited, hall⟩ := visited_foldlM (ih (stack ++ [n])) ds order order₁ hfold
        have hnot : n ∉ order₁ := fun hmem ↦ (hvisited.off n hmem).elim hdone fun hoff ↦
          hoff (List.mem_append_right _ (List.mem_singleton_self n))
        refine ⟨⟨hvisited.keeps.trans (List.prefix_append _ _), fun ht ↦ (hvisited.topological ht).append hds hall,
          fun hn ↦ ?_, fun m hm ↦ ?_⟩, List.mem_append_right _ (List.mem_singleton_self n)⟩
        · exact List.nodup_append'.mpr ⟨hvisited.nodup hn, List.nodup_singleton n,
            List.disjoint_singleton.mpr hnot⟩
        · rcases List.mem_append.mp hm with hm | hm
          · exact (hvisited.off m hm).imp_right fun hoff hmem ↦ hoff (List.mem_append_left _ hmem)
          · exact .inr (List.mem_singleton.mp hm ▸ hstack)

/-- An order that is found is topological, and holds each node once. -/
theorem topologicalOrder_spec {nodes order : List κ} (h : topologicalOrder deps nodes = .ok order) :
    Topological deps order ∧ order.Nodup ∧ ∀ n ∈ nodes, n ∈ order := by
  obtain ⟨hvisited, hall⟩ := visited_foldlM (visit_spec (nodes.length + 1) []) nodes [] order h
  exact ⟨hvisited.topological (topological_nil deps), hvisited.nodup List.nodup_nil, hall⟩

theorem visit_ne_exhausted (nodes : List κ) (hnodes : ∀ n ds, deps n = some ds → n ∈ nodes) (fuel : ℕ) :
    ∀ stack order n, stack.Nodup → stack ⊆ nodes → nodes.length < fuel + stack.length →
      visit deps fuel stack order n ≠ .error .exhausted := by
  induction fuel with
  | zero =>
    intro stack order n hnodup hsub hlt
    have hle := (hnodup.subperm hsub).length_le
    omega
  | succ fuel ih =>
    intro stack order n hnodup hsub hlt h
    rw [visit] at h
    split_ifs at h with hdone hstack
    · exact nomatch h
    cases hds : deps n with
    | none =>
      rw [hds] at h
      exact nomatch h
    | some ds =>
      rw [hds] at h
      dsimp only at h
      have hnext : ∀ order m, visit deps fuel (stack ++ [n]) order m ≠ .error .exhausted := by
        intro order m
        apply ih
        · exact List.nodup_append'.mpr ⟨hnodup, List.nodup_singleton n, List.disjoint_singleton.mpr hstack⟩
        · exact List.append_subset.mpr ⟨hsub, List.cons_subset.mpr ⟨hnodes n ds hds, List.nil_subset _⟩⟩
        · rw [List.length_append, List.length_singleton]
          omega
      cases hfold : ds.foldlM (visit deps fuel (stack ++ [n])) order with
      | error e =>
        rw [hfold] at h
        exact foldlM_ne_exhausted hnext ds order (hfold.trans h)
      | ok order₁ =>
        rw [hfold] at h
        exact nomatch h

/-- The fuel suffices. -/
theorem topologicalOrder_ne_exhausted {nodes : List κ} (hnodes : ∀ n ds, deps n = some ds → n ∈ nodes) :
    topologicalOrder deps nodes ≠ .error .exhausted := by
  refine foldlM_ne_exhausted (fun order n ↦ ?_) nodes []
  apply visit_ne_exhausted nodes hnodes
  · exact List.nodup_nil
  · exact List.nil_subset _
  · rw [List.length_nil, Nat.add_zero]
    exact Nat.lt_succ_self _

/-! ## What an order says -/

/-- `n` depends on `d`. -/
def DependsOn (deps : κ → Option (List κ)) (n d : κ) : Prop := ∃ ds, deps n = some ds ∧ d ∈ ds

omit [DecidableEq κ] in
/-- An order holds with a node what the node depends on. -/
theorem Topological.closed {order : List κ} (h : Topological deps order) {n d : κ} (hn : n ∈ order)
    (hd : DependsOn deps n d) : d ∈ order := by
  obtain ⟨ds, hds, hd⟩ := hd
  obtain ⟨l, r, rfl⟩ := List.append_of_mem hn
  obtain ⟨ds', hds', hall⟩ := h l n r rfl
  obtain rfl := Option.some.inj (hds.symm.trans hds')
  exact List.mem_append_left _ (hall d hd)

/-- A node stands after what it depends on. -/
theorem Topological.idxOf_lt {order : List κ} (h : Topological deps order) (hnodup : order.Nodup) {n d : κ}
    (hn : n ∈ order) (hd : DependsOn deps n d) : order.idxOf d < order.idxOf n := by
  obtain ⟨ds, hds, hd⟩ := hd
  obtain ⟨l, r, rfl⟩ := List.append_of_mem hn
  obtain ⟨ds', hds', hall⟩ := h l n r rfl
  obtain rfl := Option.some.inj (hds.symm.trans hds')
  have hnl : n ∉ l := fun hmem ↦
    (List.nodup_append'.mp hnodup).2.2 hmem List.mem_cons_self
  rw [List.idxOf_append_of_mem (hall d hd), List.idxOf_append_of_notMem hnl, List.idxOf_cons_self, Nat.add_zero]
  exact List.idxOf_lt_length_of_mem (hall d hd)

/-- **There is no way back** to a node of a topological order. -/
theorem Topological.acyclic {order : List κ} (h : Topological deps order) (hnodup : order.Nodup) {n : κ}
    (hn : n ∈ order) : ¬ Relation.TransGen (DependsOn deps) n n := by
  have hdown : ∀ m, Relation.TransGen (DependsOn deps) n m → m ∈ order ∧ order.idxOf m < order.idxOf n := by
    intro m hm
    induction hm with
    | single hd => exact ⟨h.closed hn hd, h.idxOf_lt hnodup hn hd⟩
    | tail _ hd ih => exact ⟨h.closed ih.1 hd, (h.idxOf_lt hnodup ih.1 hd).trans ih.2⟩
  exact fun hcycle ↦ (lt_irrefl _ (hdown n hcycle).2).elim

omit [DecidableEq κ] in
/-- An error of a fold is one of a step. -/
theorem foldlM_error {f : List κ → κ → Except (SearchError κ) (List κ)} {ns : List κ} {e : SearchError κ} :
    ∀ {order : List κ}, ns.foldlM f order = .error e → ∃ n ∈ ns, ∃ o, f o n = .error e := by
  induction ns with
  | nil => exact fun h ↦ nomatch h
  | cons n ns ih =>
    intro order h
    rw [List.foldlM_cons] at h
    cases hv : f order n with
    | error e' =>
      rw [hv] at h
      exact ⟨n, List.mem_cons_self, order, hv.trans h⟩
    | ok order' =>
      rw [hv] at h
      obtain ⟨m, hm, o, ho⟩ := ih h
      exact ⟨m, List.mem_cons_of_mem _ hm, o, ho⟩

/-- In a graph without cycles none is found. The nodes of the stack lead to the one that is visited. -/
theorem visit_ne_cycle (hacyclic : ∀ n, ¬ Relation.TransGen (DependsOn deps) n n) (fuel : ℕ) :
    ∀ stack order n names, (∀ m ∈ stack, Relation.TransGen (DependsOn deps) m n) →
      visit deps fuel stack order n ≠ .error (.cycle names) := by
  induction fuel with
  | zero =>
    intro stack order n names hstack h
    rw [visit] at h
    split_ifs at h with hdone hmem
    · exact hacyclic n (hstack n hmem)
    · exact nomatch h
  | succ fuel ih =>
    intro stack order n names hstack h
    rw [visit] at h
    split_ifs at h with hdone hmem
    · exact hacyclic n (hstack n hmem)
    cases hds : deps n with
    | none =>
      rw [hds] at h
      exact nomatch h
    | some ds =>
      rw [hds] at h
      dsimp only at h
      cases hfold : ds.foldlM (visit deps fuel (stack ++ [n])) order with
      | error e =>
        rw [hfold] at h
        obtain rfl := Except.error.inj h
        obtain ⟨d, hd, o, hv⟩ := foldlM_error hfold
        -- one node further down, the stack still leads to it
        refine ih (stack ++ [n]) o d names (fun m hm ↦ ?_) hv
        have hstep : DependsOn deps n d := ⟨ds, hds, hd⟩
        rcases List.mem_append.mp hm with hm | hm
        · exact .tail (hstack m hm) hstep
        · exact List.mem_singleton.mp hm ▸ .single hstep
      | ok order₁ =>
        rw [hfold] at h
        exact nomatch h

/-- When all that is reached is known, nothing is found unknown. -/
theorem visit_ne_unknown (hclosed : ∀ n d, DependsOn deps n d → deps d ≠ none) (fuel : ℕ) :
    ∀ stack order n m, deps n ≠ none → visit deps fuel stack order n ≠ .error (.unknown m) := by
  induction fuel with
  | zero =>
    intro stack order n m hn h
    rw [visit] at h
    split_ifs at h
    · exact nomatch h
    · exact nomatch h
  | succ fuel ih =>
    intro stack order n m hn h
    rw [visit] at h
    split_ifs at h
    · exact nomatch h
    match hds : deps n with
    | none => exact hn hds
    | some ds =>
      rw [hds] at h
      dsimp only at h
      match hfold : ds.foldlM (visit deps fuel (stack ++ [n])) order with
      | .error e =>
        rw [hfold] at h
        obtain rfl := Except.error.inj h
        obtain ⟨d, hd, o, hv⟩ := foldlM_error hfold
        exact ih _ o d m (hclosed n d ⟨ds, hds, hd⟩) hv
      | .ok order₁ =>
        rw [hfold] at h
        exact nomatch h

/-- **An order is found exactly when there is no cycle and every dependency is a node.** -/
theorem topologicalOrder_isOk_iff {nodes : List κ} (hnodes : ∀ n, deps n ≠ none ↔ n ∈ nodes) :
    (∃ order, topologicalOrder deps nodes = .ok order) ↔
      (∀ n, ¬ Relation.TransGen (DependsOn deps) n n) ∧ ∀ n d, DependsOn deps n d → d ∈ nodes := by
  constructor
  · rintro ⟨order, horder⟩
    obtain ⟨htopological, hnodup, hall⟩ := topologicalOrder_spec horder
    have hplaced {n d : κ} (hd : DependsOn deps n d) : n ∈ order := by
      obtain ⟨ds, hds, -⟩ := hd
      exact hall n ((hnodes n).mp (hds ▸ Option.some_ne_none ds))
    refine ⟨fun n hcycle ↦ ?_, fun n d hd ↦ ?_⟩
    · obtain ⟨d, hd, -⟩ := Relation.TransGen.head'_iff.mp hcycle
      exact htopological.acyclic hnodup (hplaced hd) hcycle
    · obtain ⟨l, r, hsplit⟩ := List.append_of_mem (htopological.closed (hplaced hd) hd)
      obtain ⟨ds, hds, -⟩ := htopological l d r hsplit
      exact (hnodes d).mp (hds ▸ Option.some_ne_none ds)
  · rintro ⟨hacyclic, hclosed⟩
    match horder : topologicalOrder deps nodes with
    | .ok order => exact ⟨order, rfl⟩
    | .error (.exhausted) =>
      refine absurd horder (topologicalOrder_ne_exhausted fun n ds hds ↦ (hnodes n).mp ?_)
      exact hds ▸ Option.some_ne_none ds
    | .error (.cycle names) =>
      obtain ⟨n, -, o, hv⟩ := foldlM_error horder
      exact absurd hv (visit_ne_cycle hacyclic _ [] o n names fun m hm ↦ absurd hm List.not_mem_nil)
    | .error (.unknown m) =>
      obtain ⟨n, hn, o, hv⟩ := foldlM_error horder
      exact absurd hv (visit_ne_unknown (fun a d hd ↦ (hnodes d).mpr (hclosed a d hd)) _ [] o n m ((hnodes n).mpr hn))

end Dag

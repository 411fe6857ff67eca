import Mathlib

/-!
# Dependents

The nodes from which a given node is reached along dependencies: a list that grows by the nodes that depend
on the last of a queue, and that were not in it. It ends because each node enters the queue once.
-/

namespace Dag

variable {κ : Type} [DecidableEq κ] (dependsOn : κ → κ → Bool) (nodes : List κ)

/-- The nodes that depend on `current` and are not in the result, appended to result and queue. -/
def adds (current : κ) (p : List κ × List κ) (n : κ) : List κ × List κ :=
  if dependsOn n current = true ∧ n ∉ p.1 then (p.1 ++ [n], p.2 ++ [n]) else p

def dependentsLoop : ℕ → List κ → List κ → List κ
  | 0, result, _ => result
  | fuel + 1, result, queue => match queue.getLast? with
    | none => result
    | some current =>
      let (result, queue) := nodes.foldl (adds dependsOn current) (result, queue.dropLast)
      dependentsLoop fuel result queue

def dependents (n : κ) : List κ := dependentsLoop dependsOn nodes (nodes.length + 2) [] [n]

variable {dependsOn nodes} {current : κ} {result queue : List κ}

/-- What one node is added to is kept, and the node is there afterwards when it depends on the current one. -/
structure Added (dependsOn : κ → κ → Bool) (nodes : List κ) (current : κ) (ns : List κ)
    (result queue : List κ) (p : List κ × List κ) : Prop where
  keeps : result ⊆ p.1
  keepsQueue : queue ⊆ p.2
  adds : ∀ n ∈ ns, dependsOn n current = true → n ∈ p.1
  queued : ∀ n ∈ p.1, n ∈ result ∨ n ∈ p.2
  origin : ∀ n ∈ p.1, n ∈ result ∨ n ∈ nodes ∧ dependsOn n current = true
  nodup : result.Nodup → p.1.Nodup
  length : p.2.length + result.length = queue.length + p.1.length

variable (dependsOn nodes current) in
theorem added_foldl (ns : List κ) : ns ⊆ nodes → ∀ result queue,
    Added dependsOn nodes current ns result queue (ns.foldl (adds dependsOn current) (result, queue)) := by
  induction ns with
  | nil => exact fun _ result queue ↦ ⟨fun _ ↦ id, fun _ ↦ id, nofun, fun _ ↦ .inl, fun _ ↦ .inl, id, rfl⟩
  | cons n ns ih =>
    intro hsub result queue
    obtain ⟨hn, hsub⟩ := List.cons_subset.mp hsub
    rw [List.foldl_cons, adds]
    dsimp only
    split_ifs with h
    · have hadded := ih hsub (result ++ [n]) (queue ++ [n])
      have hmem : n ∈ result ++ [n] := List.mem_append_right _ (List.mem_singleton_self n)
      refine ⟨List.Subset.trans (List.subset_append_left _ _) hadded.keeps,
        List.Subset.trans (List.subset_append_left _ _) hadded.keepsQueue,
        fun m hm hdep ↦ ?_, fun m hm ↦ ?_, fun m hm ↦ ?_, fun hnodup ↦ hadded.nodup ?_, ?_⟩
      · rcases List.mem_cons.mp hm with rfl | hm
        · exact hadded.keeps hmem
        · exact hadded.adds m hm hdep
      · rcases hadded.queued m hm with hm | hm
        · exact (List.mem_append.mp hm).imp_right fun hm ↦
            hadded.keepsQueue (List.mem_append_right _ hm)
        · exact .inr hm
      · rcases hadded.origin m hm with hm | hm
        · refine (List.mem_append.mp hm).imp_right fun hm ↦ ?_
          rw [List.mem_singleton.mp hm]
          exact ⟨hn, h.1⟩
        · exact .inr hm
      · exact List.nodup_append'.mpr ⟨hnodup, List.nodup_singleton n, List.disjoint_singleton.mpr h.2⟩
      · have := hadded.length
        rw [List.length_append, List.length_append, List.length_singleton] at this
        omega
    · have hadded := ih hsub result queue
      refine ⟨hadded.keeps, hadded.keepsQueue, fun m hm hdep ↦ ?_, hadded.queued, hadded.origin, hadded.nodup,
        hadded.length⟩
      rcases List.mem_cons.mp hm with rfl | hm
      · exact hadded.keeps (by_contra fun hnot ↦ h ⟨hdep, hnot⟩)
      · exact hadded.adds m hm hdep

/-- What the loop has found so far, below a node: each node that is found waits in the queue, or all that
depend on it are found. -/
structure Found (dependsOn : κ → κ → Bool) (nodes : List κ) (n : κ) (result queue : List κ) : Prop where
  nodup : result.Nodup
  sub : result ⊆ nodes
  closed : ∀ m, m = n ∨ m ∈ result → m ∈ queue ∨ ∀ m' ∈ nodes, dependsOn m' m = true → m' ∈ result

theorem found_loop {n : κ} (fuel : ℕ) : ∀ result queue, Found dependsOn nodes n result queue →
    queue.length + nodes.length < fuel + result.length →
    Found dependsOn nodes n (dependentsLoop dependsOn nodes fuel result queue) [] := by
  induction fuel with
  | zero =>
    intro result queue h hlt
    have hle := (h.nodup.subperm h.sub).length_le
    omega
  | succ fuel ih =>
    intro result queue h hlt
    rw [dependentsLoop]
    cases hlast : queue.getLast? with
    | none =>
      rw [List.getLast?_eq_none_iff] at hlast
      exact hlast ▸ h
    | some current =>
      have hqueue : queue.dropLast ++ [current] = queue := List.dropLast_append_getLast? current hlast
      have hadded := added_foldl dependsOn nodes current nodes
        (fun _ ↦ id) result queue.dropLast
      dsimp only
      generalize nodes.foldl (adds dependsOn current) (result, queue.dropLast) = p at hadded
      have hlength := hadded.length
      have hqlength : queue.dropLast.length + 1 = queue.length := by
        rw [← hqueue, List.dropLast_concat, List.length_append, List.length_singleton]
      refine ih p.1 p.2 ⟨hadded.nodup h.nodup, fun m hm ↦ ?_, fun m hm ↦ ?_⟩ (by omega)
      · exact (hadded.origin m hm).elim (fun hm ↦ h.sub hm) fun hm ↦ hm.1
      · -- the current node is done, a new one waits
        have hold : m = n ∨ m ∈ result → m ∈ p.2 ∨ ∀ m' ∈ nodes, dependsOn m' m = true → m' ∈ p.1 := by
          intro hm
          rcases h.closed m hm with hm | hall
          · rw [← hqueue] at hm
            rcases List.mem_append.mp hm with hm | hm
            · exact .inl (hadded.keepsQueue hm)
            · obtain rfl := List.mem_singleton.mp hm
              exact .inr hadded.adds
          · exact .inr fun m' hm' hdep ↦ hadded.keeps (hall m' hm' hdep)
        rcases hm with hm | hm
        · exact hold (.inl hm)
        · exact (hadded.queued m hm).elim (fun hm ↦ hold (.inr hm)) .inl

/-- The dependents of a node are closed. -/
theorem mem_dependents {n m m' : κ} (hm : m = n ∨ m ∈ dependents dependsOn nodes n) (hm' : m' ∈ nodes)
    (hdep : dependsOn m' m = true) : m' ∈ dependents dependsOn nodes n := by
  have hstart : Found dependsOn nodes n [] [n] := by
    refine ⟨List.nodup_nil, List.nil_subset _, fun m hm ↦ .inl ?_⟩
    exact hm.elim (fun hm ↦ hm ▸ List.mem_singleton_self n) nofun
  have hfound := found_loop (nodes.length + 2) [] [n] hstart (by simp only [List.length_cons, List.length_nil]; omega)
  exact (hfound.closed m hm).elim nofun fun hall ↦ hall m' hm' hdep

theorem dependents_subset (n : κ) : dependents dependsOn nodes n ⊆ nodes := by
  have hstart : Found dependsOn nodes n [] [n] := by
    refine ⟨List.nodup_nil, List.nil_subset _, fun m hm ↦ .inl ?_⟩
    exact hm.elim (fun hm ↦ hm ▸ List.mem_singleton_self n) nofun
  exact (found_loop (nodes.length + 2) [] [n] hstart (by simp only [List.length_cons, List.length_nil]; omega)).sub

/-! ## The dependents are those that lead to the node -/

theorem foldl_adds_origin (dependsOn : κ → κ → Bool) (current : κ) (ns : List κ) : ∀ p : List κ × List κ,
    (∀ m ∈ (ns.foldl (adds dependsOn current) p).1, m ∈ p.1 ∨ dependsOn m current = true) ∧
    ∀ m ∈ (ns.foldl (adds dependsOn current) p).2, m ∈ p.2 ∨ dependsOn m current = true := by
  induction ns with
  | nil => exact fun p ↦ ⟨fun _ ↦ .inl, fun _ ↦ .inl⟩
  | cons n ns ih =>
    intro p
    rw [List.foldl_cons]
    obtain ⟨hresult, hqueue⟩ := ih (adds dependsOn current p n)
    have hadds : (∀ m ∈ (adds dependsOn current p n).1, m ∈ p.1 ∨ dependsOn m current = true) ∧
        ∀ m ∈ (adds dependsOn current p n).2, m ∈ p.2 ∨ dependsOn m current = true := by
      rw [adds]
      split_ifs with h
      · have hlast (l : List κ) : ∀ m ∈ l ++ [n], m ∈ l ∨ dependsOn m current = true := by
          intro m hm
          rcases List.mem_append.mp hm with hm | hm
          · exact .inl hm
          · obtain rfl := List.mem_singleton.mp hm
            exact .inr h.1
        exact ⟨hlast p.1, hlast p.2⟩
      · exact ⟨fun _ ↦ .inl, fun _ ↦ .inl⟩
    exact ⟨fun m hm ↦ (hresult m hm).elim (hadds.1 m) .inr, fun m hm ↦ (hqueue m hm).elim (hadds.2 m) .inr⟩

theorem loop_reaches {n : κ} (fuel : ℕ) : ∀ result queue : List κ,
    (∀ m ∈ result, Relation.TransGen (fun a b ↦ dependsOn a b = true) m n) →
    (∀ m ∈ queue, Relation.ReflTransGen (fun a b ↦ dependsOn a b = true) m n) →
    ∀ m ∈ dependentsLoop dependsOn nodes fuel result queue,
      Relation.TransGen (fun a b ↦ dependsOn a b = true) m n := by
  induction fuel with
  | zero => exact fun _ _ hresult _ ↦ hresult
  | succ fuel ih =>
    intro result queue hresult hqueue
    rw [dependentsLoop]
    match hlast : queue.getLast? with
    | none => exact hresult
    | some current =>
      have hcurrent := hqueue current (List.mem_of_getLast? hlast)
      obtain ⟨hfirst, hsecond⟩ := foldl_adds_origin dependsOn current nodes
        (result, queue.dropLast)
      refine ih _ _ (fun m hm ↦ ?_) (fun m hm ↦ ?_)
      · rcases hfirst m hm with hm | hdep
        · exact hresult m hm
        · exact .head' hdep hcurrent
      · rcases hsecond m hm with hm | hdep
        · exact hqueue m (List.mem_of_mem_dropLast hm)
        · exact .head hdep hcurrent

/-- **The dependents of a node** are the nodes that lead to it. -/
theorem mem_dependents_iff (hnodes : ∀ a b, dependsOn a b = true → a ∈ nodes) {n m : κ} :
    m ∈ dependents dependsOn nodes n ↔ Relation.TransGen (fun a b ↦ dependsOn a b = true) m n := by
  constructor
  · refine loop_reaches _ [] [n] (fun _ h ↦ absurd h List.not_mem_nil) (fun m hm ↦ ?_) m
    exact List.mem_singleton.mp hm ▸ .refl
  · intro h
    induction h using Relation.TransGen.head_induction_on with
    | single hdep => exact mem_dependents (.inl rfl) (hnodes _ _ hdep) hdep
    | head hdep _ ih => exact mem_dependents (.inr ih) (hnodes _ _ hdep) hdep

theorem nodup_dependents (n : κ) : (dependents dependsOn nodes n).Nodup := by
  have hstart : Found dependsOn nodes n [] [n] := by
    refine ⟨List.nodup_nil, List.nil_subset _, fun m hm ↦ .inl ?_⟩
    exact hm.elim (fun hm ↦ hm ▸ List.mem_singleton_self n) nofun
  exact (found_loop (nodes.length + 2) [] [n] hstart (by simp only [List.length_cons, List.length_nil]; omega)).nodup

end Dag

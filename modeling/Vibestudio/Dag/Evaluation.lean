import Mathlib
import Vibestudio.Dag.TopologicalOrder

/-!
# Evaluation along a topological order

Each node of a graph has a value that a rule computes from the values of its dependencies. A valuation is
solved when every node of the order has the value that its rule gives in it; along a topological order there
is only one solved valuation. `sweep` sets the nodes of a list one after another. A sweep over the whole order
solves, and so does one over some of the nodes that starts from a solution of other rules, when the nodes it
leaves out have kept their rules and depend on no node that it sets.
-/

namespace Dag

variable {κ β : Type}

/-- A rule for each node: its value, if it has one, in a valuation. -/
abbrev Rule (κ β : Type) := κ → (κ → Option β) → Option β

/-- The rule of a node reads the values of its dependencies only. -/
def ReadsDependencies (deps : κ → Option (List κ)) (rule : Rule κ β) : Prop :=
  ∀ n ds v v', deps n = some ds → (∀ d ∈ ds, v d = v' d) → rule n v = rule n v'

/-- The nodes of an order have the values that their rules give, and no other node has one. -/
structure Solves (rule : Rule κ β) (order : List κ) (v : κ → Option β) : Prop where
  rule : ∀ n ∈ order, v n = rule n v
  off : ∀ n ∉ order, v n = none

variable {deps : κ → Option (List κ)} {rule rule' : Rule κ β} {order : List κ} {v v' : κ → Option β}

theorem Solves.unique (hreads : ReadsDependencies deps rule) (ht : Topological deps order)
    (h : Solves rule order v) (h' : Solves rule order v') : v = v' := by
  have key : ∀ l r, order = l ++ r → ∀ n ∈ l, v n = v' n := by
    intro l
    induction l using List.reverseRecOn with
    | nil => exact fun _ _ n hn ↦ nomatch hn
    | append_singleton l m ih =>
      intro r horder n hn
      have horder' : order = l ++ m :: r := by rw [horder, List.append_assoc, List.singleton_append]
      have hl := ih (m :: r) horder'
      rcases List.mem_append.mp hn with hn | hn
      · exact hl n hn
      · obtain rfl := List.mem_singleton.mp hn
        obtain ⟨ds, hds, hmem⟩ := ht l n r horder'
        have hin : n ∈ order := horder' ▸ List.mem_append_right _ List.mem_cons_self
        rw [h.rule n hin, h'.rule n hin]
        exact hreads n ds v v' hds fun d hd ↦ hl d (hmem d hd)
  funext n
  by_cases hn : n ∈ order
  · exact key order [] (List.append_nil _).symm n hn
  · rw [h.off n hn, h'.off n hn]

variable [DecidableEq κ]

/-- The nodes of a list that are affected are set by their rules, one after another. A node without a value
stays as it is. -/
def sweep (rule : Rule κ β) (affected : κ → Bool) (order : List κ) (v : κ → Option β) : κ → Option β :=
  order.foldl (fun v n ↦
    if affected n = false then v
    else match rule n v with
      | none => v
      | some b => Function.update v n (some b)) v

/-- Of a list that begins an order, a sweep has set the affected nodes, to what their rules give now. -/
structure Swept (rule : Rule κ β) (affected : κ → Bool) (l : List κ) (v w : κ → Option β) : Prop where
  rule : ∀ n ∈ l, affected n = true → w n = rule n w
  off : ∀ n, n ∉ l ∨ affected n = false → w n = v n

theorem sweep_append (affected : κ → Bool) (l : List κ) (n : κ) :
    sweep rule affected (l ++ [n]) v =
      if affected n = false then sweep rule affected l v
      else match rule n (sweep rule affected l v) with
        | none => sweep rule affected l v
        | some b => Function.update (sweep rule affected l v) n (some b) := by
  rw [sweep, List.foldl_append]
  rfl

theorem swept (hreads : ReadsDependencies deps rule) {affected : κ → Bool}
    (hnone : ∀ n v', affected n = true → rule n v' = none → v n = none) :
    ∀ l r, Topological deps (l ++ r) → Swept rule affected l v (sweep rule affected l v) := by
  intro l
  induction l using List.reverseRecOn with
  | nil => exact fun _ _ ↦ ⟨fun n hn ↦ (nomatch hn), fun _ _ ↦ rfl⟩
  | append_singleton l m ih =>
    intro r ht
    rw [List.append_assoc, List.singleton_append] at ht
    have hswept := ih (m :: r) ht
    obtain ⟨ds, hds, hmem⟩ := ht l m r rfl
    rw [sweep_append]
    generalize sweep rule affected l v = w at hswept
    -- setting a node again gives it the value it has
    have hagain : m ∈ l → affected m = true → ∀ b, rule m w = some b → Function.update w m (some b) = w := by
      intro hm haff b hb
      rw [← hb, ← hswept.rule m hm haff, Function.update_eq_self]
    have hmono : ∀ n, n ∉ l ++ [m] ∨ affected n = false → n ∉ l ∨ affected n = false := fun n hn ↦
      hn.imp_left fun hnot hmem ↦ hnot (List.mem_append_left _ hmem)
    by_cases haff : affected m = false
    · rw [if_pos haff]
      refine ⟨fun n hn hn' ↦ ?_, fun n hn ↦ hswept.off n (hmono n hn)⟩
      rcases List.mem_append.mp hn with hn | hn
      · exact hswept.rule n hn hn'
      · rw [List.mem_singleton.mp hn, haff] at hn'
        exact nomatch hn'
    rw [if_neg haff]
    rw [Bool.not_eq_false] at haff
    cases hb : rule m w with
    | none =>
      dsimp only
      refine ⟨fun n hn hn' ↦ ?_, fun n hn ↦ hswept.off n (hmono n hn)⟩
      rcases List.mem_append.mp hn with hn | hn
      · exact hswept.rule n hn hn'
      · rw [List.mem_singleton.mp hn, hb]
        by_cases hm : m ∈ l
        · rw [hswept.rule m hm haff, hb]
        · rw [hswept.off m (.inl hm), hnone m w haff hb]
    | some b =>
      dsimp only
      by_cases hm : m ∈ l
      · have hsame : Function.update w m (some b) = w := hagain hm haff b hb
        rw [hsame]
        refine ⟨fun n hn hn' ↦ ?_, fun n hn ↦ hswept.off n (hmono n hn)⟩
        rcases List.mem_append.mp hn with hn | hn
        · exact hswept.rule n hn hn'
        · obtain rfl := List.mem_singleton.mp hn
          exact hswept.rule n hm haff
      · -- no rule of the list or of the node itself reads the new value
        have hreads' : ∀ n ds', deps n = some ds' → (∀ d ∈ ds', d ∈ l) →
            rule n (Function.update w m (some b)) = rule n w := by
          intro n ds' hds' hin
          refine hreads n ds' _ _ hds' fun d hd ↦ Function.update_of_ne (fun heq ↦ ?_) _ _
          exact hm (heq ▸ hin d hd)
        refine ⟨fun n hn hn' ↦ ?_, fun n hn ↦ ?_⟩
        · rcases List.mem_append.mp hn with hn | hn
          · have hne : n ≠ m := fun heq ↦ hm (heq ▸ hn)
            obtain ⟨l₁, l₂, rfl⟩ := List.append_of_mem hn
            obtain ⟨ds', hds', hin⟩ := ht l₁ n (l₂ ++ m :: r) (by simp)
            rw [Function.update_of_ne hne, hswept.rule n hn hn',
              hreads' n ds' hds' fun d hd ↦ List.mem_append_left _ (hin d hd)]
          · obtain rfl := List.mem_singleton.mp hn
            rw [Function.update_self, hreads' n ds hds hmem, hb]
        · have hne : n ≠ m := by
            rintro rfl
            rcases hn with hn | hn
            · exact hn (List.mem_append_right _ (List.mem_singleton_self n))
            · exact nomatch haff.symm.trans hn
          rw [Function.update_of_ne hne]
          exact hswept.off n (hmono n hn)

/-- **A sweep over all nodes solves.** -/
theorem solves_sweep (hreads : ReadsDependencies deps rule) (ht : Topological deps order) :
    Solves rule order (sweep rule (fun _ ↦ true) order fun _ ↦ none) := by
  have hswept : Swept rule (fun _ ↦ true) order (fun _ ↦ none) _ :=
    swept hreads (fun _ _ _ _ ↦ rfl) order [] ((List.append_nil order).symm ▸ ht)
  exact ⟨fun n hn ↦ hswept.rule n hn rfl, fun n hn ↦ hswept.off n (.inl hn)⟩

/-- **A sweep over the affected nodes solves**, from a solution of the rules before. -/
theorem Solves.sweep (h : Solves rule order v) (hreads : ReadsDependencies deps rule)
    (hreads' : ReadsDependencies deps rule') (ht : Topological deps order) {affected : κ → Bool}
    (hsame : ∀ n ∈ order, affected n = false → ∀ v, rule' n v = rule n v)
    (hclosed : ∀ n ds, deps n = some ds → affected n = false → ∀ d ∈ ds, affected d = false)
    (hvalue : ∀ n v, n ∈ order → affected n = true → rule' n v ≠ none)
    (hoff : ∀ n, affected n = true → n ∈ order) :
    Solves rule' order (sweep rule' affected order v) := by
  have hswept : Swept rule' affected order v (Dag.sweep rule' affected order v) := by
    refine swept hreads' (fun n v' haff hnone ↦ ?_) order [] ((List.append_nil order).symm ▸ ht)
    exact absurd hnone (hvalue n v' (hoff n haff) haff)
  generalize Dag.sweep rule' affected order v = w at hswept
  refine ⟨fun n hn ↦ ?_, fun n hn ↦ (hswept.off n (.inl hn)).trans (h.off n hn)⟩
  cases haff : affected n with
  | true => exact hswept.rule n hn haff
  | false =>
    obtain ⟨l, r, rfl⟩ := List.append_of_mem hn
    obtain ⟨ds, hds, -⟩ := ht l n r rfl
    rw [hswept.off n (.inr haff), h.rule n hn, hsame n hn haff]
    exact hreads n ds v w hds fun d hd ↦ (hswept.off d (.inr (hclosed n ds hds haff d hd))).symm

end Dag

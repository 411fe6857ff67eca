import Vibestudio.ContentAddressing.Sha256
import Vibestudio.Js.Utf8
import Vibestudio.Js.Value
import Vibestudio.Server.StateTrigger

/-!
# Effective versions and the closure of dependencies

`computeTopologicalOrder` and `getReverseDeps` of `packageGraph.ts`, and what an effective version of
`effectiveVersion.ts` says. The text that is hashed for a node determines the content hash of the node and, for each of
its dependencies, the name, the content hash and the effective version; so a version determines the content hashes of
everything that its node depends on.

The digest of a text is a parameter. The names of nodes have a package scope or the prefix `template:`, so that none is
the name of a property that every object has; `JsMap` is the object that is used as a map.
-/

namespace Vibestudio.Server.Builds

open Js Dag

variable {ρ ι : Type}

namespace PackageGraph

variable (g : PackageGraph ρ ι)

/-- The last step of `finalizePackageGraph`. A cycle is an error, and so is a dependency that is not a node. -/
def computeTopologicalOrder : Except (SearchError JsString) (PackageGraph ρ ι) :=
  (topologicalOrder g.deps g.nodes.keys).map fun topoOrder ↦ { g with topoOrder }

end PackageGraph

/-- `hashStrings`: each part is followed by a NUL. -/
def joinStrings (parts : List JsString) : JsString := parts.flatMap (· ++ [0])

def hashStrings (digest : JsString → JsString) (parts : List JsString) : JsString := digest (joinStrings parts)

/-! ## What is asked of the graph and of the hashes -/

/-- A node of the graph depends on a name, by one edge or more. -/
def PackageGraph.Reaches (g : PackageGraph ρ ι) : JsString → JsString → Prop := Relation.TransGen (DependsOn g.deps)

/-- The same nodes and edges, in any order. -/
structure PackageGraph.Rearranged (g g' : PackageGraph ρ ι) : Prop where
  nodes : ∀ n, n ∈ g.nodes.keys ↔ n ∈ g'.nodes.keys
  edges : ∀ n ds ds', g.deps n = some ds → g'.deps n = some ds' → ds.Perm ds'

/-- Every node has a content hash. The empty string is taken for none. -/
def TotalHashes (g : PackageGraph ρ ι) (contentHashes : JsMap JsString JsString) : Prop :=
  ∀ n ∈ g.nodes.keys, ∃ hash, contentHashes.get n = some hash ∧ hash ≠ [] ∧ (0 : CodeUnit) ∉ hash

/-! ## The text of a node -/

theorem nul_cancel {a : JsString} : ∀ {b r s : JsString}, (0 : CodeUnit) ∉ a → (0 : CodeUnit) ∉ b →
    a ++ 0 :: r = b ++ 0 :: s → a = b ∧ r = s := by
  induction a with
  | nil =>
    intro b r s _ hb heq
    match b with
    | [] => exact ⟨rfl, (List.cons.inj heq).2⟩
    | c :: b =>
      obtain ⟨rfl, -⟩ := List.cons.inj heq
      exact absurd List.mem_cons_self hb
  | cons c a ih =>
    intro b r s ha hb heq
    match b with
    | [] =>
      obtain ⟨rfl, -⟩ := List.cons.inj heq
      exact absurd List.mem_cons_self ha
    | c' :: b =>
      obtain ⟨rfl, hrest⟩ := List.cons.inj heq
      obtain ⟨rfl, rfl⟩ := ih (fun h ↦ ha (List.mem_cons_of_mem _ h)) (fun h ↦ hb (List.mem_cons_of_mem _ h)) hrest
      exact ⟨rfl, rfl⟩

/-- A signature has three fields, with a NUL between them. -/
def IsSignature (s : JsString) : Prop := ∃ a b c : JsString,
  ((0 : CodeUnit) ∉ a ∧ (0 : CodeUnit) ∉ b ∧ (0 : CodeUnit) ∉ c) ∧ s = a ++ 0 :: (b ++ 0 :: c)

theorem joinStrings_cons (p : JsString) (ps : List JsString) : joinStrings (p :: ps) = p ++ 0 :: joinStrings ps := by
  rw [joinStrings, List.flatMap_cons, List.append_assoc]
  rfl

/-- Signatures are read back from the text one after another. -/
theorem joinStrings_signatures {sigs : List JsString} : ∀ {sigs' : List JsString}, (∀ s ∈ sigs, IsSignature s) →
    (∀ s ∈ sigs', IsSignature s) → joinStrings sigs = joinStrings sigs' → sigs = sigs' := by
  induction sigs with
  | nil =>
    intro sigs' _ _ heq
    match sigs' with
    | [] => rfl
    | s' :: sigs' =>
      rw [joinStrings_cons] at heq
      exact absurd heq.symm (List.append_ne_nil_of_right_ne_nil _ (List.cons_ne_nil _ _))
  | cons s sigs ih =>
    intro sigs' h h' heq
    match sigs' with
    | [] =>
      rw [joinStrings_cons] at heq
      exact absurd heq (List.append_ne_nil_of_right_ne_nil _ (List.cons_ne_nil _ _))
    | s' :: sigs' =>
      obtain ⟨hs, hsigs⟩ := List.forall_mem_cons.mp h
      obtain ⟨hs', hsigs'⟩ := List.forall_mem_cons.mp h'
      obtain ⟨a, b, c, ⟨ha, hb, hc⟩, rfl⟩ := hs
      obtain ⟨a', b', c', ⟨ha', hb', hc'⟩, rfl⟩ := hs'
      rw [joinStrings_cons, joinStrings_cons] at heq
      simp only [List.append_assoc, List.cons_append] at heq
      obtain ⟨rfl, hsecond⟩ := nul_cancel ha ha' heq
      obtain ⟨rfl, hthird⟩ := nul_cancel hb hb' hsecond
      obtain ⟨rfl, hrest⟩ := nul_cancel hc hc' hthird
      rw [ih hsigs hsigs' hrest]

/-- A map from names to texts without NUL. -/
def NulFree (f : JsString → Option JsString) (d : JsString) : Prop := ∀ s, f d = some s → (0 : CodeUnit) ∉ s

section
variable {h h' v v' : JsString → Option JsString} {d d' : JsString}

theorem depSignature_eq (h v : JsString → Option JsString) (d : JsString) : depSignature h v d =
    d ++ 0 :: (lit "content:" ++ (h d).getD (lit "missing") ++ 0 :: (lit "ev:" ++ (v d).getD [])) := by
  rw [depSignature]
  simp only [List.append_assoc, List.cons_append, List.nil_append]

theorem nul_notMem_content (hh : NulFree h d) : (0 : CodeUnit) ∉ lit "content:" ++ (h d).getD (lit "missing") := by
  intro hmem
  rcases List.mem_append.mp hmem with hmem | hmem
  · exact absurd hmem (by decide)
  · match hd : h d with
    | some s => exact hh s hd (by rwa [hd] at hmem)
    | none =>
      rw [hd] at hmem
      exact absurd hmem (by decide)

theorem nul_notMem_version (hv : NulFree v d) : (0 : CodeUnit) ∉ lit "ev:" ++ (v d).getD [] := by
  intro hmem
  rcases List.mem_append.mp hmem with hmem | hmem
  · exact absurd hmem (by decide)
  · match hd : v d with
    | some s => exact hv s hd (by rwa [hd] at hmem)
    | none =>
      rw [hd] at hmem
      exact absurd hmem List.not_mem_nil

theorem isSignature_depSignature (hd : (0 : CodeUnit) ∉ d) (hh : NulFree h d) (hv : NulFree v d) :
    IsSignature (depSignature h v d) :=
  ⟨_, _, _, ⟨hd, nul_notMem_content hh, nul_notMem_version hv⟩, depSignature_eq h v d⟩

/-- A signature says which dependency it is of, and its hash and version. -/
theorem depSignature_injective (hd : (0 : CodeUnit) ∉ d) (hd' : (0 : CodeUnit) ∉ d') (hh : NulFree h d)
    (hh' : NulFree h' d') (heq : depSignature h v d = depSignature h' v' d') :
    d = d' ∧ (h d).getD (lit "missing") = (h' d').getD (lit "missing") ∧ (v d).getD [] = (v' d').getD [] := by
  rw [depSignature_eq, depSignature_eq] at heq
  obtain ⟨rfl, hrest⟩ := nul_cancel hd hd' heq
  obtain ⟨hcontent, hversion⟩ := nul_cancel (nul_notMem_content hh) (nul_notMem_content hh') hrest
  exact ⟨rfl, List.append_cancel_left hcontent, List.append_cancel_left hversion⟩

end

/-! ## The order -/

section
variable {g g' : PackageGraph ρ ι} {n d u : JsString}

theorem deps_ne_none_iff (g : PackageGraph ρ ι) (n : JsString) : g.deps n ≠ none ↔ n ∈ g.nodes.keys := by
  rw [PackageGraph.deps, ne_eq, Option.map_eq_none_iff, JsMap.get_eq_none, not_not]

/-- A graph whose order has been computed. -/
structure Ordered (g : PackageGraph ρ ι) : Prop where
  topological : Topological g.deps g.topoOrder
  nodup : g.topoOrder.Nodup
  mem : ∀ n, n ∈ g.topoOrder ↔ n ∈ g.nodes.keys

theorem ordered_of_ok (h : g.computeTopologicalOrder = .ok g') : ∃ order, g' = { g with topoOrder := order } ∧
    Ordered { g with topoOrder := order } := by
  rw [PackageGraph.computeTopologicalOrder] at h
  obtain ⟨order, horder, rfl⟩ := map_eq_ok.mp h
  obtain ⟨htopological, hnodup, hall⟩ := topologicalOrder_spec horder
  refine ⟨order, rfl, htopological, hnodup, fun n ↦ ⟨fun hn ↦ ?_, hall n⟩⟩
  obtain ⟨l, r, hsplit⟩ := List.append_of_mem hn
  obtain ⟨ds, hds, -⟩ := htopological l n r hsplit
  exact (deps_ne_none_iff g n).mp (hds ▸ Option.some_ne_none ds)

theorem computeTopologicalOrder_throws_iff : (∃ e, g.computeTopologicalOrder = .error e) ↔
    (∃ n, g.Reaches n n) ∨ ∃ n d, DependsOn g.deps n d ∧ g.has d = false := by
  have hok := topologicalOrder_isOk_iff (deps_ne_none_iff g)
  have hhas (d : JsString) : g.has d = false ↔ d ∉ g.nodes.keys := decide_eq_false_iff_not
  constructor
  · rintro ⟨e, he⟩
    by_contra hnot
    rw [not_or] at hnot
    obtain ⟨order, horder⟩ := hok.mpr ⟨fun n hn ↦ hnot.1 ⟨n, hn⟩, fun n d hd ↦ by
      by_contra hd'
      exact hnot.2 ⟨n, d, hd, (hhas d).mpr hd'⟩⟩
    rw [PackageGraph.computeTopologicalOrder, horder] at he
    exact nomatch he
  · intro h
    match horder : topologicalOrder g.deps g.nodes.keys with
    | .error e => exact ⟨e, by rw [PackageGraph.computeTopologicalOrder, horder]; rfl⟩
    | .ok order =>
      obtain ⟨hacyclic, hclosed⟩ := hok.mp ⟨order, horder⟩
      rcases h with ⟨n, hn⟩ | ⟨n, d, hd, hmissing⟩
      · exact absurd hn (hacyclic n)
      · exact absurd (hclosed n d hd) ((hhas d).mp hmissing)

theorem Ordered.acyclic (h : Ordered g) (n : JsString) : ¬g.Reaches n n := by
  intro hn
  obtain ⟨d, ⟨ds, hds, -⟩, -⟩ := Relation.TransGen.head'_iff.mp hn
  refine h.topological.acyclic h.nodup ((h.mem n).mpr ?_) hn
  exact (deps_ne_none_iff g n).mp (hds ▸ Option.some_ne_none ds)

/-! ## Reverse dependencies -/

theorem dependsOn_iff : ((g.deps n).any fun ds ↦ decide (d ∈ ds)) = true ↔ DependsOn g.deps n d := by
  rw [Dag.DependsOn]
  match g.deps n with
  | none => exact iff_of_false nofun fun ⟨ds, hds, _⟩ ↦ nomatch hds
  | some ds =>
    rw [Option.any_some, decide_eq_true_eq]
    exact ⟨fun h ↦ ⟨ds, rfl, h⟩, fun ⟨_, heq, h⟩ ↦ Option.some.inj heq ▸ h⟩

theorem mem_getReverseDeps_iff : n ∈ g.getReverseDeps u ↔ g.Reaches n u := by
  have hnodes (a b : JsString) (hab : ((g.deps a).any fun ds ↦ decide (b ∈ ds)) = true) : a ∈ g.nodes.keys := by
    obtain ⟨ds, hds, -⟩ := dependsOn_iff.mp hab
    exact (deps_ne_none_iff g a).mp (hds ▸ Option.some_ne_none ds)
  rw [PackageGraph.getReverseDeps, mem_dependents_iff hnodes, PackageGraph.Reaches]
  have hrel : (fun a b ↦ ((g.deps a).any fun ds ↦ decide (b ∈ ds)) = true) = DependsOn g.deps := by
    funext a b
    exact propext dependsOn_iff
  rw [hrel]

/-! ## Versions -/

variable {digest : JsString → JsString} {h h' : JsMap JsString JsString}

theorem Ordered.solves (hg : Ordered g) (hashStrings : List JsString → JsString) (h : JsMap JsString JsString) :
    Solves (effectiveVersion hashStrings g fun n ↦ h.get n) g.topoOrder fun n ↦
      (computeEffectiveVersions hashStrings g h).get n := by
  rw [computeEffectiveVersions, get_versionLoop]
  exact solves_sweep (reads_effectiveVersion hashStrings _) hg.topological

theorem buildDepSignatures_perm {node node' : GraphNode ρ} (hnodes : ∀ n, g.has n = g'.has n)
    (hdeps : node.internalDeps.Perm node'.internalDeps) (v h : JsString → Option JsString) :
    buildDepSignatures g node v h = buildDepSignatures g' node' v h := by
  rw [buildDepSignatures, buildDepSignatures, funext hnodes]
  have hperm := (hdeps.filter g'.has).map (depSignature h v)
  have hsorted (l : List JsString) : (l.insertionSort (· ≤ ·)).Pairwise (· ≤ ·) := List.pairwise_insertionSort _ _
  exact ((List.perm_insertionSort _ _).trans (hperm.trans (List.perm_insertionSort _ _).symm)).eq_of_pairwise
    (fun _ _ _ _ hab hba ↦ le_antisymm hab hba) (hsorted _) (hsorted _)

/-- **The order of nodes and of edges does not matter.** -/
theorem versions_rearranged (hg : Ordered g) (hg' : Ordered g') (hsame : g.Rearranged g')
    (hashStrings : List JsString → JsString) (h : JsMap JsString JsString) (n : JsString) :
    (computeEffectiveVersions hashStrings g h).get n = (computeEffectiveVersions hashStrings g' h).get n := by
  have hhas (n : JsString) : g.has n = g'.has n := decide_eq_decide.mpr (hsame.nodes n)
  have hrule : effectiveVersion hashStrings g (fun n ↦ h.get n) = effectiveVersion hashStrings g' fun n ↦ h.get n := by
    funext n v
    rw [effectiveVersion, effectiveVersion]
    cases hnode : g.nodes.get n with
    | none =>
      cases hnode' : g'.nodes.get n with
      | none => rfl
      | some node' =>
        have hmem := (hsame.nodes n).mpr (not_not.mp fun hnot ↦ (by cases (JsMap.get_eq_none.mpr hnot).symm.trans hnode'))
        exact absurd hmem (JsMap.get_eq_none.mp hnode)
    | some node =>
      cases hnode' : g'.nodes.get n with
      | none =>
        have hmem := (hsame.nodes n).mp (not_not.mp fun hnot ↦ (by cases (JsMap.get_eq_none.mpr hnot).symm.trans hnode))
        exact absurd hmem (JsMap.get_eq_none.mp hnode')
      | some node' =>
        have hdeps : node.internalDeps.Perm node'.internalDeps :=
          hsame.edges n _ _ (by rw [PackageGraph.deps, hnode]; rfl) (by rw [PackageGraph.deps, hnode']; rfl)
        rw [Option.bind_some, Option.bind_some, buildDepSignatures_perm hhas hdeps]
  have hsolves := hg.solves hashStrings h
  have hsolves' := hg'.solves hashStrings h
  rw [← hrule] at hsolves'
  have hmem (n : JsString) : n ∈ g'.topoOrder ↔ n ∈ g.topoOrder := by rw [hg.mem, hg'.mem, hsame.nodes]
  have hsolves'' : Solves (effectiveVersion hashStrings g fun n ↦ h.get n) g.topoOrder fun n ↦
      (computeEffectiveVersions hashStrings g' h).get n :=
    ⟨fun n hn ↦ hsolves'.rule n ((hmem n).mpr hn), fun n hn ↦ hsolves'.off n fun hn' ↦ hn ((hmem n).mp hn')⟩
  exact congrFun (hsolves.unique (reads_effectiveVersion hashStrings _) hg.topological hsolves'') n

variable (digest) in
/-- A node with a content hash has a version, of the text of the node. -/
theorem version_eq (hg : Ordered g) (htotal : TotalHashes g h) (hn : n ∈ g.nodes.keys) :
    ∃ node hash, g.nodes.get n = some node ∧ h.get n = some hash ∧ (0 : CodeUnit) ∉ hash ∧
      (computeEffectiveVersions (hashStrings digest) g h).get n = some (digest (joinStrings (hash ::
        buildDepSignatures g node (fun n ↦ (computeEffectiveVersions (hashStrings digest) g h).get n)
          fun n ↦ h.get n))) := by
  obtain ⟨node, hnode⟩ := Option.ne_none_iff_exists'.mp fun hnone ↦ absurd hn (JsMap.get_eq_none.mp hnone)
  obtain ⟨hash, hhash, hne, hfree⟩ := htotal n hn
  refine ⟨node, hash, hnode, hhash, hfree, ((hg.solves _ h).rule n ((hg.mem n).mpr hn)).trans ?_⟩
  rw [effectiveVersion, hnode, Option.bind_some, hhash, truthy, Option.filter_some, if_pos (decide_eq_true hne)]
  rfl

theorem nulFree_versions (hg : Ordered g) (hfree : ∀ s, (0 : CodeUnit) ∉ digest s) (d : JsString) :
    NulFree (fun n ↦ (computeEffectiveVersions (hashStrings digest) g h).get n) d := by
  intro s hs
  by_cases hd : d ∈ g.topoOrder
  · have hrule := ((hg.solves (hashStrings digest) h).rule d hd).symm.trans hs
    rw [effectiveVersion] at hrule
    obtain ⟨node, -, hnode⟩ := Option.bind_eq_some_iff.mp hrule
    obtain ⟨hash, -, rfl⟩ := Option.map_eq_some_iff.mp hnode
    exact hfree _
  · cases ((hg.solves (hashStrings digest) h).off d hd).symm.trans hs

theorem TotalHashes.nulFree (htotal : TotalHashes g h) (hd : d ∈ g.nodes.keys) : NulFree (fun n ↦ h.get n) d := by
  intro s hs
  obtain ⟨hash, hhash, -, hfree⟩ := htotal d hd
  exact Option.some.inj (hhash.symm.trans hs) ▸ hfree

/-- What a node depends on is a node. -/
theorem Ordered.closed (hg : Ordered g) (hd : DependsOn g.deps n d) : n ∈ g.nodes.keys ∧ d ∈ g.nodes.keys := by
  have hn : n ∈ g.nodes.keys := by
    obtain ⟨ds, hds, -⟩ := hd
    exact (deps_ne_none_iff g n).mp (hds ▸ Option.some_ne_none ds)
  exact ⟨hn, (hg.mem d).mp (hg.topological.closed ((hg.mem n).mpr hn) hd)⟩

/-- **A version determines** the content hash of its node and the versions of its dependencies. -/
theorem version_determines (hdigest : Function.Injective digest) (hfree : ∀ s, (0 : CodeUnit) ∉ digest s)
    (hg : Ordered g) (hnames : ∀ n ∈ g.nodes.keys, (0 : CodeUnit) ∉ n) (htotal : TotalHashes g h)
    (htotal' : TotalHashes g h') (hu : u ∈ g.nodes.keys)
    (heq : (computeEffectiveVersions (hashStrings digest) g h).get u =
      (computeEffectiveVersions (hashStrings digest) g h').get u) :
    h.get u = h'.get u ∧ ∀ d, DependsOn g.deps u d → (computeEffectiveVersions (hashStrings digest) g h).get d =
      (computeEffectiveVersions (hashStrings digest) g h').get d := by
  obtain ⟨node, hash, hnode, hhash, hnul, hversion⟩ := version_eq digest hg htotal hu
  obtain ⟨node', hash', hnode', hhash', hnul', hversion'⟩ := version_eq digest hg htotal' hu
  obtain rfl := Option.some.inj (hnode.symm.trans hnode')
  have hsignatures {h : JsMap JsString JsString} (htotal : TotalHashes g h) :
      ∀ s ∈ buildDepSignatures g node (fun n ↦ (computeEffectiveVersions (hashStrings digest) g h).get n)
        fun n ↦ h.get n, IsSignature s := by
    intro s hs
    obtain ⟨d, hd, rfl⟩ := List.mem_map.mp ((List.mem_insertionSort _).mp hs)
    have hkey : d ∈ g.nodes.keys := of_decide_eq_true (List.mem_filter.mp hd).2
    exact isSignature_depSignature (hnames d hkey) (htotal.nulFree hkey) (nulFree_versions hg hfree d)
  have htext := hdigest (Option.some.inj (hversion.symm.trans (heq.trans hversion')))
  rw [joinStrings_cons, joinStrings_cons] at htext
  obtain ⟨rfl, hsigs⟩ := nul_cancel hnul hnul' htext
  have hsigs := joinStrings_signatures (hsignatures htotal) (hsignatures htotal') hsigs
  refine ⟨hhash.trans hhash'.symm, fun d hd ↦ ?_⟩
  -- the signature of `d` is also one for the other hashes, and says that it is of `d`
  obtain ⟨-, hkey⟩ := hg.closed hd
  have hmem : d ∈ node.internalDeps.filter g.has := by
    obtain ⟨ds, hds, hd⟩ := hd
    rw [PackageGraph.deps, hnode] at hds
    obtain rfl := Option.some.inj hds
    exact List.mem_filter.mpr ⟨hd, decide_eq_true hkey⟩
  have hsig := (List.mem_insertionSort (· ≤ ·)).mpr (List.mem_map_of_mem (f := depSignature (fun n ↦ h.get n)
    fun n ↦ (computeEffectiveVersions (hashStrings digest) g h).get n) hmem)
  rw [← buildDepSignatures, hsigs] at hsig
  obtain ⟨d', hd', hsame⟩ := List.mem_map.mp ((List.mem_insertionSort _).mp hsig)
  have hkey' : d' ∈ g.nodes.keys := of_decide_eq_true (List.mem_filter.mp hd').2
  obtain ⟨rfl, -, hversions⟩ := depSignature_injective (hnames d' hkey') (hnames d hkey) (htotal'.nulFree hkey')
    (htotal.nulFree hkey) hsame
  obtain ⟨_, _, -, -, -, hsome⟩ := version_eq digest hg htotal hkey
  obtain ⟨_, _, -, -, -, hsome'⟩ := version_eq digest hg htotal' hkey
  rw [hsome, hsome'] at hversions ⊢
  exact congrArg some hversions.symm

/-- Content hashes that agree below a node give it one version. -/
theorem versions_congr (hg : Ordered g) (hashStrings : List JsString → JsString) :
    ∀ l r, g.topoOrder = l ++ r → ∀ n ∈ l, (∀ m, m = n ∨ g.Reaches n m → h.get m = h'.get m) →
      (computeEffectiveVersions hashStrings g h).get n = (computeEffectiveVersions hashStrings g h').get n := by
  intro l
  induction l using List.reverseRecOn with
  | nil => exact fun _ _ n hn ↦ absurd hn List.not_mem_nil
  | append_singleton l k ih =>
    intro r horder n hn hsame
    have horder' : g.topoOrder = l ++ k :: r := by rw [horder, List.append_assoc, List.singleton_append]
    rcases List.mem_append.mp hn with hn | hn
    · exact ih (k :: r) horder' n hn hsame
    · obtain rfl := List.mem_singleton.mp hn
      obtain ⟨ds, hds, hmem⟩ := hg.topological l n r horder'
      have hin : n ∈ g.topoOrder := horder' ▸ List.mem_append_right _ List.mem_cons_self
      have hbelow (d : JsString) (hd : d ∈ ds) : ∀ m, m = d ∨ g.Reaches d m → h.get m = h'.get m := by
        rintro m (rfl | hm)
        · exact hsame m (.inr (.single ⟨ds, hds, hd⟩))
        · exact hsame m (.inr (.head ⟨ds, hds, hd⟩ hm))
      refine ((hg.solves hashStrings h).rule n hin).trans (Eq.trans ?_ ((hg.solves hashStrings h').rule n hin).symm)
      refine (effectiveVersion_congr hds (hsame n (.inl rfl)) (fun d hd ↦ hbelow d hd d (.inl rfl)) _).trans ?_
      exact reads_effectiveVersion hashStrings _ n ds _ _ hds fun d hd ↦ ih (n :: r) horder' d (hmem d hd) (hbelow d hd)

/-- **Versions are equal exactly when all content hashes of the closure are.** -/
theorem version_eq_iff (hdigest : Function.Injective digest) (hfree : ∀ s, (0 : CodeUnit) ∉ digest s)
    (hg : Ordered g) (hnames : ∀ n ∈ g.nodes.keys, (0 : CodeUnit) ∉ n) (htotal : TotalHashes g h)
    (htotal' : TotalHashes g h') (hu : u ∈ g.nodes.keys) :
    (computeEffectiveVersions (hashStrings digest) g h).get u =
      (computeEffectiveVersions (hashStrings digest) g h').get u ↔
    ∀ n, n = u ∨ g.Reaches u n → h.get n = h'.get n := by
  constructor
  · intro heq
    have hdown (n : JsString) (hn : Relation.ReflTransGen (DependsOn g.deps) u n) : n ∈ g.nodes.keys ∧
        (computeEffectiveVersions (hashStrings digest) g h).get n =
          (computeEffectiveVersions (hashStrings digest) g h').get n := by
      induction hn with
      | refl => exact ⟨hu, heq⟩
      | tail _ hd ih =>
        exact ⟨(hg.closed hd).2, (version_determines hdigest hfree hg hnames htotal htotal' ih.1 ih.2).2 _ hd⟩
    intro n hn
    have hreach : Relation.ReflTransGen (DependsOn g.deps) u n := by
      rcases hn with rfl | hn
      · exact .refl
      · exact hn.to_reflTransGen
    obtain ⟨hkey, hversion⟩ := hdown n hreach
    exact (version_determines hdigest hfree hg hnames htotal htotal' hkey hversion).1
  · exact versions_congr hg _ g.topoOrder [] (List.append_nil _).symm u ((hg.mem u).mpr hu)

theorem PackageGraph.Rearranged.ok (hsame : g.Rearranged g') {g₁ : PackageGraph ρ ι}
    (hg : g.computeTopologicalOrder = .ok g₁) : ∃ g₁', g'.computeTopologicalOrder = .ok g₁' := by
  have hdeps {n d : JsString} (hd : DependsOn g'.deps n d) : DependsOn g.deps n d := by
    obtain ⟨ds', hds', hd⟩ := hd
    have hn : n ∈ g.nodes.keys := (hsame.nodes n).mpr ((deps_ne_none_iff g' n).mp (hds' ▸ Option.some_ne_none ds'))
    obtain ⟨ds, hds⟩ := Option.ne_none_iff_exists'.mp ((deps_ne_none_iff g n).mpr hn)
    exact ⟨ds, hds, (hsame.edges n ds ds' hds hds').mem_iff.mpr hd⟩
  have hreaches {n m : JsString} (hnm : g'.Reaches n m) : g.Reaches n m := by
    induction hnm with
    | single hd => exact .single (hdeps hd)
    | tail _ hd ih => exact .tail ih (hdeps hd)
  match hg' : g'.computeTopologicalOrder with
  | .ok g₁' => exact ⟨g₁', rfl⟩
  | .error e =>
    obtain ⟨order, -, hordered⟩ := ordered_of_ok hg
    rcases computeTopologicalOrder_throws_iff.mp ⟨e, hg'⟩ with ⟨n, hn⟩ | ⟨n, d, hd, hmissing⟩
    · exact absurd (hreaches hn) (hordered.acyclic n)
    · exact absurd ((hsame.nodes d).mp (hordered.closed (hdeps hd)).2) (of_decide_eq_false hmissing)

/-- **Effective versions identify the closure of dependencies.** -/
theorem effective_versions_identify (hdigest : Function.Injective digest) (hfree : ∀ s, (0 : CodeUnit) ∉ digest s)
    (g : PackageGraph ρ ι) :
    ((∃ e, g.computeTopologicalOrder = .error e) ↔
      (∃ n, g.Reaches n n) ∨ ∃ n d, DependsOn g.deps n d ∧ g.has d = false) ∧
    ∀ g₁, g.computeTopologicalOrder = .ok g₁ →
      (g₁.topoOrder.Nodup ∧ (∀ n, n ∈ g₁.topoOrder ↔ n ∈ g.nodes.keys) ∧
        ∀ l n r, g₁.topoOrder = l ++ n :: r → ∀ d, DependsOn g.deps n d → d ∈ l) ∧
      (∀ u, (g₁.getReverseDeps u).Nodup ∧
        ∀ n, n ∈ g₁.getReverseDeps u ↔ n ∈ g.nodes.keys ∧ n ≠ u ∧ g.Reaches n u) ∧
      (∀ g', g.Rearranged g' → ∃ g₁', g'.computeTopologicalOrder = .ok g₁' ∧ ∀ h u,
        (computeEffectiveVersions (hashStrings digest) g₁ h).get u =
          (computeEffectiveVersions (hashStrings digest) g₁' h).get u) ∧
      ((∀ n ∈ g.nodes.keys, (0 : CodeUnit) ∉ n) → ∀ h h', TotalHashes g h → TotalHashes g h' → ∀ u ∈ g.nodes.keys,
        ((computeEffectiveVersions (hashStrings digest) g₁ h).get u =
            (computeEffectiveVersions (hashStrings digest) g₁ h').get u ↔
          ∀ n, n = u ∨ g.Reaches u n → h.get n = h'.get n)) := by
  refine ⟨computeTopologicalOrder_throws_iff, fun g₁ hok ↦ ?_⟩
  obtain ⟨order, rfl, hg⟩ := ordered_of_ok hok
  refine ⟨⟨hg.nodup, hg.mem, fun l n r horder d hd ↦ ?_⟩, fun u ↦ ⟨nodup_dependents u, fun n ↦ ?_⟩, fun g' hsame ↦ ?_,
    fun hnames h h' htotal htotal' u hu ↦ version_eq_iff hdigest hfree hg hnames htotal htotal' hu⟩
  · obtain ⟨ds, hds, hbefore⟩ := hg.topological l n r horder
    obtain ⟨ds', hds', hd⟩ := hd
    obtain rfl := Option.some.inj (hds.symm.trans hds')
    exact hbefore d hd
  · rw [mem_getReverseDeps_iff]
    refine ⟨fun hreach ↦ ⟨?_, ?_, hreach⟩, fun h ↦ h.2.2⟩
    · obtain ⟨d, hd, -⟩ := Relation.TransGen.head'_iff.mp hreach
      exact (hg.closed hd).1
    · rintro rfl
      exact hg.acyclic n hreach
  · obtain ⟨g₁', hok'⟩ := hsame.ok hok
    obtain ⟨order', rfl, hg'⟩ := ordered_of_ok hok'
    exact ⟨_, hok', fun h u ↦ versions_rearranged hg hg' ⟨hsame.nodes, hsame.edges⟩ _ h u⟩

end

/-! ## Two packages -/

section Demo

/-- A digest without collisions, which is SHA-256 for the texts of a list. -/
def knownDigest (texts : List JsString) (s : JsString) : JsString :=
  if s ∈ texts then ContentAddressing.sha256Hex (utf8Encode s)
  else 120 :: s.flatMap fun c ↦ [Fin.ofNat 65536 (c.val / 256 + 1), Fin.ofNat 65536 (c.val % 256 + 1)]

theorem val_ofNat_succ {n : ℕ} (hn : n < 256) : (Fin.ofNat 65536 (n + 1) : CodeUnit).val = n + 1 :=
  Nat.mod_eq_of_lt (by omega)

theorem escape_injective {s : JsString} : ∀ {t : JsString},
    (s.flatMap fun c ↦ [Fin.ofNat 65536 (c.val / 256 + 1), Fin.ofNat 65536 (c.val % 256 + 1)]) =
      (t.flatMap fun c ↦ [Fin.ofNat 65536 (c.val / 256 + 1), (Fin.ofNat 65536 (c.val % 256 + 1) : CodeUnit)]) →
    s = t := by
  induction s with
  | nil =>
    intro t heq
    match t with
    | [] => rfl
  | cons c s ih =>
    intro t heq
    match t with
    | d :: t =>
      obtain ⟨hhigh, heq⟩ := List.cons.inj heq
      obtain ⟨hlow, hrest⟩ := List.cons.inj heq
      have hhigh := congrArg Fin.val hhigh
      have hlow := congrArg Fin.val hlow
      rw [val_ofNat_succ (by have := c.isLt; omega), val_ofNat_succ (by have := d.isLt; omega)] at hhigh
      rw [val_ofNat_succ (Nat.mod_lt _ (by decide)), val_ofNat_succ (Nat.mod_lt _ (by decide))] at hlow
      obtain rfl : c = d := Fin.ext (by omega)
      rw [ih hrest]

theorem nul_notMem_hex {n : ℕ} {s : JsString} (h : isHexOfLength n s = true) : (0 : CodeUnit) ∉ s ∧ (120 : CodeUnit) ∉ s := by
  rw [isHexOfLength, Bool.and_eq_true] at h
  exact ⟨fun hmem ↦ absurd (List.all_eq_true.mp h.2 0 hmem) (by decide),
    fun hmem ↦ absurd (List.all_eq_true.mp h.2 120 hmem) (by decide)⟩

theorem nul_notMem_knownDigest (texts : List JsString) (s : JsString) : (0 : CodeUnit) ∉ knownDigest texts s := by
  rw [knownDigest]
  split_ifs
  · exact (nul_notMem_hex (ContentAddressing.isHexOfLength_sha256Hex _)).1
  · intro hmem
    rcases List.mem_cons.mp hmem with hmem | hmem
    · exact absurd hmem (by decide)
    · obtain ⟨c, -, hc⟩ := List.mem_flatMap.mp hmem
      have hlt := c.isLt
      have hnonzero {n : ℕ} (hn : n < 256) : (0 : CodeUnit) ≠ Fin.ofNat 65536 (n + 1) := fun heq ↦ by
        have hval := congrArg Fin.val heq
        rw [val_ofNat_succ hn] at hval
        exact absurd hval (Nat.succ_ne_zero n).symm
      rcases List.mem_cons.mp hc with hc | hc
      · exact hnonzero (by omega) hc
      · exact hnonzero (Nat.mod_lt _ (by decide)) (List.mem_singleton.mp hc)

theorem knownDigest_injective {texts : List JsString}
    (hknown : (texts.map fun s ↦ ContentAddressing.sha256Hex (utf8Encode s)).Nodup) :
    Function.Injective (knownDigest texts) := by
  intro s t heq
  rw [knownDigest, knownDigest] at heq
  have hhex (s : JsString) := (nul_notMem_hex (ContentAddressing.isHexOfLength_sha256Hex (utf8Encode s))).2
  split_ifs at heq with hs ht ht
  · exact List.inj_on_of_nodup_map hknown hs ht heq
  · exact absurd (heq ▸ List.mem_cons_self) (hhex s)
  · exact absurd (heq ▸ List.mem_cons_self) (hhex t)
  · exact escape_injective (List.cons.inj heq).2

def demoNode (internalDeps : List JsString) : GraphNode Unit :=
  ⟨lit "packages/app", .package, [], internalDeps, [], none, none, ()⟩

/-- An application, whose manifest says this of its dependencies, and a library. -/
def demoGraph (internalDeps : List JsString) : PackageGraph Unit Unit :=
  ⟨[(lit "@workspace/app", demoNode internalDeps), (lit "@workspace/lib", demoNode [])], [], []⟩

def demoHashes (lib : JsString) : JsMap JsString JsString :=
  [(lit "@workspace/app", lit "manifest:0"), (lit "@workspace/lib", lit "manifest:" ++ lib)]

/-- The texts that are hashed for the library and for the application. -/
def demoTexts (lib : JsString) : List JsString :=
  let libText := joinStrings [lit "manifest:" ++ lib]
  [libText, joinStrings [lit "manifest:0", lit "@workspace/lib" ++ [0] ++ lit "content:manifest:" ++ lib ++ [0] ++
    lit "ev:" ++ ContentAddressing.sha256Hex (utf8Encode libText)]]

def demoDigest : JsString → JsString := knownDigest (demoTexts (lit "1") ++ demoTexts (lit "2"))

theorem demoDigest_injective : Function.Injective demoDigest := knownDigest_injective (by decide +kernel)

theorem demoHashes_total (internalDeps : List JsString) {lib : JsString} (hlib : (0 : CodeUnit) ∉ lib) :
    TotalHashes (demoGraph internalDeps) (demoHashes lib) := by
  intro n hn
  rcases List.mem_cons.mp hn with rfl | hn
  · exact ⟨lit "manifest:0", rfl, by decide, by decide⟩
  · obtain rfl := List.mem_singleton.mp hn
    refine ⟨lit "manifest:" ++ lib, rfl, List.append_ne_nil_of_left_ne_nil (by decide) _, fun hmem ↦ ?_⟩
    exact (List.mem_append.mp hmem).elim (by decide) hlib

/-- The version of the application changes with the content of the library. -/
theorem demo_version_changes :
    (computeEffectiveVersions (hashStrings demoDigest) { demoGraph [lit "@workspace/lib"] with
        topoOrder := [lit "@workspace/lib", lit "@workspace/app"] } (demoHashes (lit "1"))).get (lit "@workspace/app") ≠
      (computeEffectiveVersions (hashStrings demoDigest) { demoGraph [lit "@workspace/lib"] with
        topoOrder := [lit "@workspace/lib", lit "@workspace/app"] } (demoHashes (lit "2"))).get
          (lit "@workspace/app") := by
  intro heq
  obtain ⟨-, -, -, hversions⟩ := (effective_versions_identify demoDigest_injective (nul_notMem_knownDigest _)
    (demoGraph [lit "@workspace/lib"])).2 _ rfl
  have hlib := (hversions (by decide) _ _ (demoHashes_total _ (by decide)) (demoHashes_total _ (by decide))
    (lit "@workspace/app") (by decide)).mp heq (lit "@workspace/lib") (.inr (.single ⟨_, rfl, List.mem_cons_self⟩))
  exact absurd hlib (by decide)

theorem demo_dependsOn {internalDeps : List JsString} {n d : JsString} :
    DependsOn (demoGraph internalDeps).deps n d ↔ n = lit "@workspace/app" ∧ d ∈ internalDeps := by
  have hget : (demoGraph internalDeps).deps n = if lit "@workspace/app" = n then some internalDeps
      else if lit "@workspace/lib" = n then some [] else none := by
    rw [PackageGraph.deps, demoGraph, JsMap.get, JsMap.get, JsMap.get]
    split_ifs <;> rfl
  constructor
  · rintro ⟨ds, hds, hd⟩
    rw [hget] at hds
    split_ifs at hds with happ
    · obtain rfl := Option.some.inj hds
      exact ⟨happ.symm, hd⟩
    · obtain rfl := Option.some.inj hds
      exact absurd hd List.not_mem_nil
  · rintro ⟨rfl, hd⟩
    exact ⟨internalDeps, rfl, hd⟩

/-- The version of the application, with the order computed. -/
def demoVersion (internalDeps : List JsString) : Option JsString :=
  (demoGraph internalDeps).computeTopologicalOrder.toOption.bind fun g ↦
    (computeEffectiveVersions (hashStrings demoDigest) g (demoHashes (lit "1"))).get (lit "@workspace/app")

/-- A dependency that is listed twice is hashed twice, and one that is not a node is an error without a cycle. -/
theorem duplicate_edge_changes_version :
    demoVersion [lit "@workspace/lib"] ≠ demoVersion [lit "@workspace/lib", lit "@workspace/lib"] ∧
    (demoGraph [lit "missing"]).computeTopologicalOrder = .error (.unknown (lit "missing")) ∧
    ∀ n, ¬(demoGraph [lit "missing"]).Reaches n n := by
  refine ⟨by decide +kernel, rfl, fun n hn ↦ ?_⟩
  obtain ⟨d, hd, hback⟩ := Relation.TransGen.head'_iff.mp hn
  obtain ⟨rfl, hmissing⟩ := demo_dependsOn.mp hd
  obtain rfl := List.mem_singleton.mp hmissing
  -- nothing leaves the name that is missing
  rcases hback.cases_head with heq | ⟨e, he, -⟩
  · exact absurd heq (by decide)
  · exact absurd (demo_dependsOn.mp he).1 (by decide)

end Demo

end Vibestudio.Server.Builds

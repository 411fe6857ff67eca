import Mathlib
import Vibestudio.Dag.Evaluation
import Vibestudio.Server.PackageGraph
import Vibestudio.Transition.Run

/-!
# The state transition trigger

`src/server/buildV2/stateTrigger.ts` with the effective versions of `effectiveVersion.ts`: the trigger keeps
the package graph, the content hashes of the units and their effective versions for one workspace state, and
brings them to the next one at each publication. Depending on the changed paths it does nothing, recomputes the
units that the paths are in and all that depend on them, or discovers everything again.

A workspace state is known by its hash, of any type, and its files and the hashes of its units are functions
of that. A publication may be rejected by `discoverGraph` or by `unitHashes`; the trigger then stays as it is.
-/

namespace Vibestudio.Server.Builds

open Js Dag Transition

/-! ## Effective versions -/

section EffectiveVersions

variable {ρ ι : Type} (hashStrings : List JsString → JsString)

/-- `if (hash)`. -/
def truthy (hash : Option JsString) : Option JsString := hash.filter fun h ↦ decide (h ≠ [])

def depSignature (contentHashes evMap : JsString → Option JsString) (depName : JsString) : JsString :=
  depName ++ [0] ++ lit "content:" ++ (contentHashes depName).getD (lit "missing") ++ [0] ++ lit "ev:" ++
    (evMap depName).getD []

def buildDepSignatures (g : PackageGraph ρ ι) (node : GraphNode ρ)
    (evMap contentHashes : JsString → Option JsString) : List JsString :=
  ((node.internalDeps.filter g.has).map (depSignature contentHashes evMap)).insertionSort (· ≤ ·)

/-- The effective version of a node, from the content hashes and the versions of its dependencies. -/
def effectiveVersion (g : PackageGraph ρ ι) (contentHashes : JsString → Option JsString) :
    Rule JsString JsString := fun name evMap ↦
  (g.nodes.get name).bind fun node ↦ (truthy (contentHashes name)).map fun hash ↦
    hashStrings (hash :: buildDepSignatures g node evMap contentHashes)

/-- The loop of both computations, over the affected nodes in topological order. -/
def versionLoop (g : PackageGraph ρ ι) (affected : JsString → Bool) (contentHashes : JsMap JsString JsString)
    (evMap : JsMap JsString JsString) : JsMap JsString JsString :=
  g.topoOrder.foldl (fun evMap name ↦
    if affected name = false then evMap
    else match effectiveVersion hashStrings g (fun n ↦ contentHashes.get n) name (fun n ↦ evMap.get n) with
      | none => evMap
      | some ev => evMap.set name ev) evMap

def computeEffectiveVersions (g : PackageGraph ρ ι) (contentHashes : JsMap JsString JsString) :
    JsMap JsString JsString :=
  versionLoop hashStrings g (fun _ ↦ true) contentHashes []

/-- `{ ...a, ...b }`. -/
def spread (a b : JsMap JsString JsString) : JsMap JsString JsString := b.foldl (fun m p ↦ m.set p.1 p.2) a

/-- The changed nodes and all that depend on them. -/
def isAffected (g : PackageGraph ρ ι) (changedNames : List JsString) (name : JsString) : Bool :=
  changedNames.any fun changed ↦
    g.has changed && (decide (name = changed) || decide (name ∈ g.getReverseDeps changed))

def recomputeFromNodes (g : PackageGraph ρ ι) (changedNames : List JsString)
    (currentEvMap contentHashes updatedHashes : JsMap JsString JsString) :
    JsMap JsString JsString × JsMap JsString JsString :=
  let newHashes := spread contentHashes updatedHashes
  (versionLoop hashStrings g (isAffected g changedNames) newHashes currentEvMap, newHashes)

end EffectiveVersions

/-! ## Changed paths -/

section ChangedPaths

variable {ρ ι : Type} (g : PackageGraph ρ ι)

/-- The unit that a path is in, the one with the longest path first. -/
def owner (path : JsString) : Option (JsString × GraphNode ρ) :=
  (g.nodes.insertionSort fun a b ↦ b.2.relativePath.length ≤ a.2.relativePath.length).find? fun p ↦
    inUnit p.2.relativePath path

structure Touched where
  units : List JsString
  unmatched : List JsString
  manifestTouched : Bool
  deriving DecidableEq

def touch (t : Touched) (changed : JsString) : Touched :=
  match owner g changed with
  | none => { t with unmatched := t.unmatched ++ [changed] }
  | some (name, node) =>
    { t with
      units := if name ∈ t.units then t.units else t.units ++ [name]
      manifestTouched :=
        t.manifestTouched || decide (changed = joinPath node.relativePath (lit "package.json")) }

def unitsForChangedPaths (changedPaths : List JsString) : Touched :=
  changedPaths.foldl (touch g) ⟨[], [], false⟩

end ChangedPaths

/-! ## The trigger -/

/-- What a workspace state determines: its files, and a hash of each unit that depends on the files in it and
is there when there is one. -/
structure WorkspaceStateSource (σ ρ ι : Type) where
  reader : ManifestReader ρ ι
  hashStrings : List JsString → JsString
  files : σ → Files
  unitHash : σ → JsString → Option JsString
  unitHash_local : ∀ s s' rel, (∀ p, inUnit rel p = true → (files s).get p = (files s').get p) →
    unitHash s rel = unitHash s' rel
  unitHash_present : ∀ s rel p, inUnit rel p = true → (files s).get p ≠ none → truthy (unitHash s rel) ≠ none

structure Trigger (σ ρ ι : Type) where
  graph : PackageGraph ρ ι
  evMap : JsMap JsString JsString
  contentHashes : JsMap JsString JsString
  stateHash : σ
  /-- The state of the last publication. -/
  workspace : σ
  /-- The last publication was not rejected. -/
  settled : Bool

structure Publication (σ : Type) where
  workspaceStateHash : σ
  changedPaths : List JsString
  /-- `discoverGraph` and `unitHashes` reject this time. -/
  discoverRejects : Bool
  hashesReject : Bool

section Process

variable {σ ρ ι : Type} [DecidableEq σ] (source : WorkspaceStateSource σ ρ ι)

/-- The content hashes of all units of a graph. -/
def unitContentHashes (g : PackageGraph ρ ι) (s : σ) : JsMap JsString JsString :=
  g.nodes.foldl (fun m p ↦ match truthy (source.unitHash s p.2.relativePath) with
    | none => m
    | some hash => m.set p.1 hash) []

def fullRediscovery (t : Trigger σ ρ ι) (e : Publication σ) : Option (Trigger σ ρ ι) :=
  if e.discoverRejects = true then none
  else match discoverPackageGraphAtTree source.reader (source.files e.workspaceStateHash) with
    | .error _ => none
    | .ok graph =>
      if e.hashesReject = true then none
      else
        let contentHashes := unitContentHashes source graph e.workspaceStateHash
        some { t with
          graph
          contentHashes
          evMap := computeEffectiveVersions source.hashStrings graph contentHashes
          stateHash := e.workspaceStateHash }

/-- The content hashes of the changed units at the new state. -/
def updatedHashes (g : PackageGraph ρ ι) (changedNames : List JsString) (s : σ) : JsMap JsString JsString :=
  changedNames.foldl (fun m name ↦
    match (g.nodes.get name).bind fun node ↦ truthy (source.unitHash s node.relativePath) with
    | none => m
    | some hash => m.set name hash) []

def incremental (t : Trigger σ ρ ι) (e : Publication σ) (changedNames : List JsString) :
    Option (Trigger σ ρ ι) :=
  if e.hashesReject = true then none
  else
    let (evMap, contentHashes) := recomputeFromNodes source.hashStrings t.graph changedNames t.evMap
      t.contentHashes (updatedHashes source t.graph changedNames e.workspaceStateHash)
    some { t with evMap, contentHashes, stateHash := e.workspaceStateHash }

/-- `process`; `none` is a rejection. -/
def process (t : Trigger σ ρ ι) (e : Publication σ) : Option (Trigger σ ρ ι) :=
  if e.workspaceStateHash = t.stateHash then some t
  else
    let touched := unitsForChangedPaths t.graph e.changedPaths
    if touched.unmatched ≠ [] ∨ touched.manifestTouched = true then fullRediscovery source t e
    else if touched.units = [] then some { t with stateHash := e.workspaceStateHash }
    else incremental source t e touched.units

/-- One publication. The queue goes on after a rejection. -/
def step (t : Trigger σ ρ ι) (e : Publication σ) : Option (Trigger σ ρ ι) :=
  some (match process source t e with
    | none => { t with workspace := e.workspaceStateHash, settled := false }
    | some t' => { t' with workspace := e.workspaceStateHash, settled := true })

/-- The trigger has what a computation from scratch gives at its state. -/
structure InSync (t : Trigger σ ρ ι) : Prop where
  graph : discoverPackageGraphAtTree source.reader (source.files t.stateHash) = .ok t.graph
  contentHashes : ∀ n, t.contentHashes.get n = (unitContentHashes source t.graph t.stateHash).get n
  evMap : ∀ n, t.evMap.get n =
    (computeEffectiveVersions source.hashStrings t.graph (unitContentHashes source t.graph t.stateHash)).get n

end Process

/-! ## The maps of the computations -/

section Maps

variable {ρ ι : Type} {g : PackageGraph ρ ι}

/-- The loop of the versions is a sweep. -/
theorem get_versionLoop (hashStrings : List JsString → JsString) (affected : JsString → Bool)
    (contentHashes evMap : JsMap JsString JsString) :
    (fun n ↦ (versionLoop hashStrings g affected contentHashes evMap).get n) =
      sweep (effectiveVersion hashStrings g fun n ↦ contentHashes.get n) affected g.topoOrder
        fun n ↦ evMap.get n := by
  rw [versionLoop, sweep]
  induction g.topoOrder generalizing evMap with
  | nil => rfl
  | cons name order ih =>
    rw [List.foldl_cons, List.foldl_cons, ih]
    congr 1
    split_ifs
    · rfl
    cases effectiveVersion hashStrings g (fun n ↦ contentHashes.get n) name fun n ↦ evMap.get n with
    | none => rfl
    | some ev =>
      funext n
      dsimp only
      rw [JsMap.get_set, Function.update_apply]

/-- A version reads those of the internal dependencies. -/
theorem reads_effectiveVersion (hashStrings : List JsString → JsString)
    (contentHashes : JsString → Option JsString) :
    ReadsDependencies g.deps (effectiveVersion hashStrings g contentHashes) := by
  intro n ds v v' hds hv
  obtain ⟨node, hnode, rfl⟩ := Option.map_eq_some_iff.mp hds
  have hsigs : buildDepSignatures g node v contentHashes = buildDepSignatures g node v' contentHashes := by
    rw [buildDepSignatures, buildDepSignatures]
    congr 1
    refine List.map_congr_left fun d hd ↦ ?_
    rw [depSignature, depSignature, hv d (List.mem_of_mem_filter hd)]
  rw [effectiveVersion, effectiveVersion, hnode, Option.bind_some, Option.bind_some, hsigs]

/-- A version depends on the content hashes of its node and of the dependencies. -/
theorem effectiveVersion_congr {hashStrings : List JsString → JsString} {h h' : JsString → Option JsString}
    {n : JsString} {ds : List JsString} (hds : g.deps n = some ds) (hn : h n = h' n)
    (hd : ∀ d ∈ ds, h d = h' d) (v : JsString → Option JsString) :
    effectiveVersion hashStrings g h n v = effectiveVersion hashStrings g h' n v := by
  obtain ⟨node, hnode, rfl⟩ := Option.map_eq_some_iff.mp hds
  have hsigs : buildDepSignatures g node v h = buildDepSignatures g node v h' := by
    rw [buildDepSignatures, buildDepSignatures]
    congr 1
    refine List.map_congr_left fun d hmem ↦ ?_
    rw [depSignature, depSignature, hd d (List.mem_of_mem_filter hmem)]
  rw [effectiveVersion, effectiveVersion, hnode, Option.bind_some, Option.bind_some, hn, hsigs]

/-- Setting the keys of a list, each to a value of its own or not at all. -/
theorem get_setAll (f : JsString → Option JsString) (ns : List JsString) :
    ∀ (m : JsMap JsString JsString) (n : JsString),
      (ns.foldl (fun m name ↦ match f name with | none => m | some v => m.set name v) m).get n =
        if n ∈ ns then (f n).or (m.get n) else m.get n := by
  induction ns with
  | nil => exact fun _ _ ↦ rfl
  | cons name ns ih =>
    intro m n
    rw [List.foldl_cons, ih]
    cases hf : f name with
    | none =>
      by_cases hn : n = name
      · subst hn
        simp only [hf, List.mem_cons_self, Option.none_or, ite_self]
      · simp only [List.mem_cons, hn, false_or]
    | some v =>
      dsimp only
      rw [JsMap.get_set]
      by_cases hn : n = name
      · subst hn
        simp only [hf, List.mem_cons_self, Option.some_or, ite_self, if_true]
      · simp only [List.mem_cons, hn, false_or, if_false]

theorem nodup_setAll (f : JsString → Option JsString) (ns : List JsString) :
    ∀ m : JsMap JsString JsString, m.keys.Nodup →
      (ns.foldl (fun m name ↦ match f name with | none => m | some v => m.set name v) m).keys.Nodup := by
  induction ns with
  | nil => exact fun _ h ↦ h
  | cons name ns ih =>
    intro m h
    apply ih
    dsimp only
    cases f name with
    | none => exact h
    | some v => exact JsMap.nodup_keys_set h _ _

theorem get_spread (a : JsMap JsString JsString) {b : JsMap JsString JsString} (hb : b.keys.Nodup)
    (n : JsString) : (spread a b).get n = (b.get n).or (a.get n) := by
  rw [spread]
  induction b generalizing a with
  | nil => rfl
  | cons p b ih =>
    obtain ⟨name, v⟩ := p
    obtain ⟨hnotin, hb⟩ := List.nodup_cons.mp hb
    rw [List.foldl_cons, ih _ hb, JsMap.get_set, JsMap.get]
    by_cases hn : n = name
    · subst hn
      rw [JsMap.get_eq_none.mpr hnotin, if_pos rfl, if_pos rfl]
      rfl
    · rw [if_neg hn, if_neg (Ne.symm hn)]

variable {σ : Type} (source : WorkspaceStateSource σ ρ ι)

/-- The content hash that a unit of the graph has at a state. -/
def hashAt (g : PackageGraph ρ ι) (s : σ) (name : JsString) : Option JsString :=
  (g.nodes.get name).bind fun node ↦ truthy (source.unitHash s node.relativePath)

theorem get_unitContentHashes (hnodup : g.nodes.keys.Nodup) (s : σ) (n : JsString) :
    (unitContentHashes source g s).get n = hashAt source g s n := by
  have hfold : ∀ (nodes : JsMap JsString (GraphNode ρ)) (m : JsMap JsString JsString),
      (∀ p ∈ nodes, g.nodes.get p.1 = some p.2) →
      nodes.foldl (fun m p ↦ match truthy (source.unitHash s p.2.relativePath) with
        | none => m
        | some hash => m.set p.1 hash) m =
      (nodes.map Prod.fst).foldl (fun m name ↦ match hashAt source g s name with
        | none => m
        | some v => m.set name v) m := by
    intro nodes
    induction nodes with
    | nil => exact fun _ _ ↦ rfl
    | cons p nodes ih =>
      intro m hnodes
      have hp : hashAt source g s p.1 = truthy (source.unitHash s p.2.relativePath) := by
        rw [hashAt, hnodes p List.mem_cons_self, Option.bind_some]
      rw [List.map_cons, List.foldl_cons, List.foldl_cons, hp]
      exact ih _ fun q hq ↦ hnodes q (List.mem_cons_of_mem _ hq)
  rw [unitContentHashes, hfold g.nodes [] fun p hp ↦ (JsMap.mem_iff_get hnodup).mp hp, get_setAll]
  split_ifs with hn
  · exact Option.or_none
  · rw [hashAt, JsMap.get_eq_none.mpr hn]
    rfl

theorem get_updatedHashes (changedNames : List JsString) (s : σ) (n : JsString) :
    (updatedHashes source g changedNames s).get n = if n ∈ changedNames then hashAt source g s n else none := by
  have hset := get_setAll (hashAt source g s) changedNames [] n
  exact hset.trans (if_congr Iff.rfl Option.or_none rfl)

theorem nodup_updatedHashes (changedNames : List JsString) (s : σ) :
    (updatedHashes source g changedNames s).keys.Nodup :=
  nodup_setAll (hashAt source g s) changedNames [] List.nodup_nil

end Maps

/-! ## Synchronization -/

section Sync

variable {σ ρ ι : Type} {source : WorkspaceStateSource σ ρ ι} {t : Trigger σ ρ ι}

/-- A unit that the files of a state have is hashed there. -/
theorem hashAt_ne_none {g : PackageGraph ρ ι} {s : σ} (hunits : AllUnits (source.files s) g) {name : JsString}
    {node : GraphNode ρ} (hnode : g.nodes.get name = some node) : hashAt source g s name ≠ none := by
  obtain ⟨d, hd, n, hn, hname, hpath, hkind, hhidden, hmanifest⟩ := hunits.units name node hnode
  rw [hashAt, hnode, Option.bind_some]
  exact source.unitHash_present s _ _ (inUnit_joinPath _ _) hmanifest

/-- The rules of a computation from scratch, whose solution the trigger keeps. -/
theorem InSync.solves (h : InSync source t) : Solves (effectiveVersion source.hashStrings t.graph fun n ↦
    t.contentHashes.get n) t.graph.topoOrder fun n ↦ t.evMap.get n := by
  obtain ⟨-, htopological, -⟩ := discoverPackageGraphAtTree_spec h.graph
  have hsolves := solves_sweep (reads_effectiveVersion source.hashStrings fun n ↦
    (unitContentHashes source t.graph t.stateHash).get n) htopological
  have hnil : (fun n : JsString ↦ JsMap.get n ([] : JsMap JsString JsString)) = fun _ ↦ none := rfl
  rw [← hnil, ← get_versionLoop] at hsolves
  have hmap : (fun n ↦ t.evMap.get n) = fun n ↦ (computeEffectiveVersions source.hashStrings t.graph
      (unitContentHashes source t.graph t.stateHash)).get n := funext h.evMap
  have hhashes : (fun n ↦ t.contentHashes.get n) = fun n ↦
      (unitContentHashes source t.graph t.stateHash).get n := funext h.contentHashes
  rw [hmap, hhashes]
  exact hsolves

/-- Maps that solve the rules of a state are what a computation from scratch gives. -/
theorem inSync_of_solves
    (hgraph : discoverPackageGraphAtTree source.reader (source.files t.stateHash) = .ok t.graph)
    (hhashes : ∀ n, t.contentHashes.get n = hashAt source t.graph t.stateHash n)
    (hsolves : Solves (effectiveVersion source.hashStrings t.graph fun n ↦ t.contentHashes.get n)
      t.graph.topoOrder fun n ↦ t.evMap.get n) : InSync source t := by
  obtain ⟨hunits, htopological, -⟩ := discoverPackageGraphAtTree_spec hgraph
  have hsame : ∀ n, t.contentHashes.get n = (unitContentHashes source t.graph t.stateHash).get n := fun n ↦
    (hhashes n).trans (get_unitContentHashes source hunits.nodup t.stateHash n).symm
  refine ⟨hgraph, hsame, fun n ↦ ?_⟩
  have hfull := solves_sweep (reads_effectiveVersion source.hashStrings fun n ↦
    (unitContentHashes source t.graph t.stateHash).get n) htopological
  have hnil : (fun n : JsString ↦ JsMap.get n ([] : JsMap JsString JsString)) = fun _ ↦ none := rfl
  rw [← hnil, ← get_versionLoop] at hfull
  rw [funext hsame] at hsolves
  exact congrFun (hsolves.unique (reads_effectiveVersion _ _) htopological hfull) n

/-- Each file that has changed since the state of the trigger is in one of some units, beside the manifest. -/
def ChangedIn (source : WorkspaceStateSource σ ρ ι) (t : Trigger σ ρ ι) (s : σ) (units : List JsString) :
    Prop :=
  ∀ p, (source.files t.stateHash).get p ≠ (source.files s).get p → ∃ name node,
    t.graph.nodes.get name = some node ∧ inUnit node.relativePath p = true ∧ name ∈ units ∧
      p ≠ joinPath node.relativePath (manifestName node.kind)

variable {s : σ} {units : List JsString}

theorem ChangedIn.discoverGraph (hchanged : ChangedIn source t s units) (h : InSync source t) :
    discoverPackageGraphAtTree source.reader (source.files s) = .ok t.graph := by
  obtain ⟨hunits, -⟩ := discoverPackageGraphAtTree_spec h.graph
  rw [← discoverGraph_congr source.reader fun p hp ↦ ?_]
  · exact h.graph
  · obtain ⟨name, node, hnode, hin, -, hne⟩ := hchanged p hp
    exact (hunits.units name node hnode).besideManifest hin hne

/-- A unit that is not among them keeps its hash. -/
theorem ChangedIn.hashAt (hchanged : ChangedIn source t s units) (h : InSync source t) {n : JsString}
    (hn : n ∉ units) : Builds.hashAt source t.graph t.stateHash n = Builds.hashAt source t.graph s n := by
  obtain ⟨hunits, -⟩ := discoverPackageGraphAtTree_spec h.graph
  rw [Builds.hashAt, Builds.hashAt]
  cases hnode : t.graph.nodes.get n with
  | none => rfl
  | some node =>
    rw [Option.bind_some, Option.bind_some]
    congr 1
    refine source.unitHash_local _ _ _ fun p hp ↦ ?_
    by_contra hne
    obtain ⟨name, node', hnode', hin, hmem, -⟩ := hchanged p hne
    exact hn ((hunits.units n node hnode).unique (hunits.units name node' hnode') hp hin ▸ hmem)

/-- Nothing has changed: the trigger only takes the new state. -/
theorem InSync.advance (h : InSync source t) (hchanged : ChangedIn source t s []) :
    InSync source { t with stateHash := s } := by
  obtain ⟨hunits, -⟩ := discoverPackageGraphAtTree_spec h.graph
  refine inSync_of_solves (hchanged.discoverGraph h) (fun n ↦ ?_) h.solves
  rw [← hchanged.hashAt h (List.not_mem_nil), ← get_unitContentHashes source hunits.nodup]
  exact h.contentHashes n

theorem mem_getReverseDeps {g : PackageGraph ρ ι} {n d changed : JsString} {ds : List JsString}
    (hds : g.deps n = some ds) (hd : d ∈ ds) (hmem : d = changed ∨ d ∈ g.getReverseDeps changed) :
    n ∈ g.getReverseDeps changed := by
  have hn : n ∈ g.nodes.keys := by
    obtain ⟨node, hnode, -⟩ := Option.map_eq_some_iff.mp hds
    by_contra hnot
    exact nomatch (JsMap.get_eq_none.mpr hnot).symm.trans hnode
  refine mem_dependents hmem hn ?_
  rw [hds]
  exact decide_eq_true hd

/-- **Incremental equals full.** With all changes in the units that are recomputed, beside their manifests,
the trigger has afterwards what a computation from scratch gives. -/
theorem InSync.incremental (h : InSync source t) (hchanged : ChangedIn source t s units) :
    InSync source { t with
      evMap := (recomputeFromNodes source.hashStrings t.graph units t.evMap t.contentHashes
        (updatedHashes source t.graph units s)).1
      contentHashes := (recomputeFromNodes source.hashStrings t.graph units t.evMap t.contentHashes
        (updatedHashes source t.graph units s)).2
      stateHash := s } := by
  obtain ⟨hunits, htopological, horder⟩ := discoverPackageGraphAtTree_spec h.graph
  have hgraph := hchanged.discoverGraph h
  obtain ⟨hunits', -⟩ := discoverPackageGraphAtTree_spec hgraph
  -- the new hashes are those of the new state
  have hnew : ∀ n, (spread t.contentHashes (updatedHashes source t.graph units s)).get n
      = hashAt source t.graph s n := by
    intro n
    rw [get_spread _ (nodup_updatedHashes source units s), get_updatedHashes]
    have hold : t.contentHashes.get n = hashAt source t.graph t.stateHash n :=
      (h.contentHashes n).trans (get_unitContentHashes source hunits.nodup _ _)
    split_ifs with hn
    · cases hnode : t.graph.nodes.get n with
      | none =>
        have hnone : ∀ s', hashAt source t.graph s' n = none := fun s' ↦ by rw [hashAt, hnode]; rfl
        rw [hold, hnone, hnone]
        rfl
      | some node =>
        obtain ⟨hash, hhash⟩ := Option.ne_none_iff_exists'.mp (hashAt_ne_none hunits' hnode)
        rw [hhash, Option.some_or]
    · rw [Option.none_or, hold, hchanged.hashAt h hn]
  refine inSync_of_solves hgraph hnew ?_
  have hkeys : ∀ {n : JsString} {node : GraphNode ρ}, t.graph.nodes.get n = some node →
      n ∈ t.graph.nodes.keys := by
    intro n node hnode
    by_contra hnot
    cases (JsMap.get_eq_none.mpr hnot).symm.trans hnode
  have hchangedAffected : ∀ n node, t.graph.nodes.get n = some node → n ∈ units →
      isAffected t.graph units n = true := by
    intro n node hnode hn
    refine List.any_eq_true.mpr ⟨n, hn, ?_⟩
    rw [PackageGraph.has, decide_eq_true (hkeys hnode), decide_eq_true rfl]
    rfl
  -- what depends on an affected node is affected
  have hclosed : ∀ n ds, t.graph.deps n = some ds → isAffected t.graph units n = false →
      ∀ d ∈ ds, isAffected t.graph units d = false := by
    intro n ds hds hn d hd
    by_contra haff
    rw [Bool.not_eq_false] at haff
    obtain ⟨changed, hmem, hd'⟩ := List.any_eq_true.mp haff
    rw [Bool.and_eq_true, Bool.or_eq_true, decide_eq_true_eq, decide_eq_true_eq] at hd'
    have hdep := mem_getReverseDeps hds hd hd'.2
    refine Bool.false_ne_true (hn.symm.trans (List.any_eq_true.mpr ⟨changed, hmem, ?_⟩))
    rw [hd'.1, decide_eq_true hdep, Bool.or_true]
    rfl
  have hsolves : Solves (effectiveVersion source.hashStrings t.graph fun n ↦
      (spread t.contentHashes (updatedHashes source t.graph units s)).get n) t.graph.topoOrder
      (sweep (effectiveVersion source.hashStrings t.graph fun n ↦
        (spread t.contentHashes (updatedHashes source t.graph units s)).get n) (isAffected t.graph units)
        t.graph.topoOrder fun n ↦ t.evMap.get n) := by
    apply h.solves.sweep (reads_effectiveVersion _ _) (reads_effectiveVersion _ _) htopological
    · -- an unaffected node keeps its hash and those of its dependencies
      intro n hn haff v
      obtain ⟨l, r, hsplit⟩ := List.append_of_mem hn
      obtain ⟨ds, hds, -⟩ := htopological l n r hsplit
      have hsame : ∀ m, isAffected t.graph units m = false →
          (spread t.contentHashes (updatedHashes source t.graph units s)).get m = t.contentHashes.get m := by
        intro m hm
        rw [hnew, h.contentHashes, get_unitContentHashes source hunits.nodup]
        cases hnode : t.graph.nodes.get m with
        | none => rw [hashAt, hashAt, hnode]; rfl
        | some node =>
          refine (hchanged.hashAt h fun hmem ↦ ?_).symm
          cases hm.symm.trans (hchangedAffected m node hnode hmem)
      exact effectiveVersion_congr hds (hsame n haff) (fun d hd ↦ hsame d (hclosed n ds hds haff d hd)) v
    · exact hclosed
    · intro n v hn _ hnone
      obtain ⟨node, hnode⟩ := Option.ne_none_iff_exists'.mp
        (JsMap.get_eq_none.not.mpr (not_not.mpr ((horder n).mp hn)))
      obtain ⟨hash, hhash⟩ := Option.ne_none_iff_exists'.mp (hashAt_ne_none hunits' hnode)
      have htruthy : truthy (hashAt source t.graph s n) = hashAt source t.graph s n := by
        rw [hashAt, hnode, Option.bind_some, truthy, truthy, Option.filter_filter]
        simp only [Bool.and_self]
      rw [effectiveVersion, hnode, Option.bind_some, hnew, htruthy, hhash] at hnone
      cases hnone
    · intro n haff
      obtain ⟨changed, -, hn⟩ := List.any_eq_true.mp haff
      rw [Bool.and_eq_true, Bool.or_eq_true, decide_eq_true_eq, decide_eq_true_eq] at hn
      rw [horder]
      rcases hn.2 with rfl | hn'
      · exact of_decide_eq_true hn.1
      · exact dependents_subset changed hn'
  rw [← get_versionLoop] at hsolves
  exact hsolves

end Sync

/-! ## Publications over whole runs -/

section Runs

variable {σ ρ ι : Type} (source : WorkspaceStateSource σ ρ ι)

/-- The changed paths of a publication are those that differ between the states. -/
def exactPaths (t : Trigger σ ρ ι) (e : Publication σ) : Bool :=
  ((source.files t.workspace).keys ++ (source.files e.workspaceStateHash).keys ++ e.changedPaths).all fun p ↦
    decide (p ∈ e.changedPaths ↔
      (source.files t.workspace).get p ≠ (source.files e.workspaceStateHash).get p)

def rediscovers (t : Trigger σ ρ ι) (e : Publication σ) : Bool :=
  decide ((unitsForChangedPaths t.graph e.changedPaths).unmatched ≠ []) ||
    (unitsForChangedPaths t.graph e.changedPaths).manifestTouched

/-- The units that a publication touches have all files that have changed since the state that the trigger
describes, and none of these is the manifest of a unit. -/
def coversChanges (t : Trigger σ ρ ι) (e : Publication σ) : Bool :=
  ((source.files t.stateHash).keys ++ (source.files e.workspaceStateHash).keys).all fun p ↦
    decide ((source.files t.stateHash).get p = (source.files e.workspaceStateHash).get p) ||
      match owner t.graph p with
      | none => false
      | some (name, node) =>
        decide (name ∈ (unitsForChangedPaths t.graph e.changedPaths).units) &&
          decide (p ≠ joinPath node.relativePath (manifestName node.kind))

variable {source} {t t' : Trigger σ ρ ι} {e : Publication σ}

theorem owner_eq_some {g : PackageGraph ρ ι} (hnodup : g.nodes.keys.Nodup) {p name : JsString}
    {node : GraphNode ρ} (h : owner g p = some (name, node)) :
    g.nodes.get name = some node ∧ inUnit node.relativePath p = true := by
  have hmem : (name, node) ∈ g.nodes := (List.mem_insertionSort _).mp (List.mem_of_find?_eq_some h)
  have hin := List.find?_some h
  exact ⟨(JsMap.mem_iff_get hnodup).mp hmem, hin⟩

theorem changedIn_of_covers (hnodup : t.graph.nodes.keys.Nodup) (h : coversChanges source t e = true) :
    ChangedIn source t e.workspaceStateHash (unitsForChangedPaths t.graph e.changedPaths).units := by
  intro p hp
  have hkey : p ∈ (source.files t.stateHash).keys ++ (source.files e.workspaceStateHash).keys := by
    by_contra hnot
    rw [List.mem_append, not_or, ← JsMap.get_eq_none, ← JsMap.get_eq_none] at hnot
    exact hp (hnot.1.trans hnot.2.symm)
  have hcover := List.all_eq_true.mp h p hkey
  rw [decide_eq_false hp, Bool.false_or] at hcover
  split at hcover
  · cases hcover
  · next name node howner =>
    rw [Bool.and_eq_true, decide_eq_true_eq, decide_eq_true_eq] at hcover
    obtain ⟨hnode, hin⟩ := owner_eq_some hnodup howner
    exact ⟨name, node, hnode, hin, hcover.1, hcover.2⟩

/-- A discovery from scratch is in sync. -/
theorem inSync_fullRediscovery (h : fullRediscovery source t e = some t') : InSync source t' := by
  rw [fullRediscovery] at h
  by_cases hdiscover : e.discoverRejects = true
  · rw [if_pos hdiscover] at h
    exact nomatch h
  rw [if_neg hdiscover] at h
  cases hgraph : discoverPackageGraphAtTree source.reader (source.files e.workspaceStateHash) with
  | error error =>
    rw [hgraph] at h
    exact nomatch h
  | ok graph =>
    rw [hgraph] at h
    dsimp only at h
    split_ifs at h
    obtain rfl := Option.some.inj h
    exact ⟨hgraph, fun _ ↦ rfl, fun _ ↦ rfl⟩

/-- The ghost fields do not count. -/
theorem InSync.published (h : InSync source t) (workspace : σ) (settled : Bool) :
    InSync source { t with workspace, settled } := ⟨h.graph, h.contentHashes, h.evMap⟩

variable [DecidableEq σ]

variable (source) in
/-- A publication that is neither skipped nor rejected, and for which nothing is discovered again, covers the
changes since the state of the trigger. -/
def recomputesAll (t : Trigger σ ρ ι) (e : Publication σ) : Bool :=
  exactPaths source t e &&
    (decide (e.workspaceStateHash = t.stateHash) || rediscovers t e ||
      (decide ((unitsForChangedPaths t.graph e.changedPaths).units ≠ []) && e.hashesReject) ||
      coversChanges source t e)

theorem InSync.process (h : InSync source t) (hok : recomputesAll source t e = true)
    (hp : process source t e = some t') : InSync source t' := by
  obtain ⟨hunits, -⟩ := discoverPackageGraphAtTree_spec h.graph
  rw [Builds.process] at hp
  by_cases hskip : e.workspaceStateHash = t.stateHash
  · rw [if_pos hskip] at hp
    exact Option.some.inj hp ▸ h
  rw [if_neg hskip] at hp
  dsimp only at hp
  by_cases hfull : (unitsForChangedPaths t.graph e.changedPaths).unmatched ≠ [] ∨
      (unitsForChangedPaths t.graph e.changedPaths).manifestTouched = true
  · rw [if_pos hfull] at hp
    exact inSync_fullRediscovery hp
  rw [if_neg hfull] at hp
  have hnot : rediscovers t e = false := by
    rw [rediscovers, Bool.or_eq_false_iff, decide_eq_false_iff_not]
    exact ⟨fun hne ↦ hfull (.inl hne), Bool.eq_false_iff.mpr fun htouched ↦ hfull (.inr htouched)⟩
  rw [recomputesAll, Bool.and_eq_true, decide_eq_false hskip, hnot, Bool.false_or, Bool.false_or] at hok
  by_cases hnone : (unitsForChangedPaths t.graph e.changedPaths).units = []
  · rw [if_pos hnone] at hp
    rw [hnone, decide_eq_false (not_not.mpr rfl), Bool.false_and, Bool.false_or] at hok
    obtain rfl := Option.some.inj hp
    exact h.advance (hnone ▸ changedIn_of_covers hunits.nodup hok.2)
  · rw [if_neg hnone, Builds.incremental] at hp
    split_ifs at hp with hreject
    obtain rfl := Option.some.inj hp
    rw [Bool.eq_false_iff.mpr hreject, Bool.and_false, Bool.false_or] at hok
    exact h.incremental (changedIn_of_covers hunits.nodup hok.2)

theorem InSync.step (h : InSync source t) (hok : recomputesAll source t e = true)
    (hs : step source t e = some t') : InSync source t' := by
  rw [Builds.step] at hs
  cases hp : Builds.process source t e with
  | none =>
    rw [hp] at hs
    exact Option.some.inj hs ▸ h.published _ _
  | some t₁ =>
    rw [hp] at hs
    exact Option.some.inj hs ▸ (h.process hok hp).published _ _

/-- **Incremental build state equals full recomputation.** In every run of publications in which each one
that takes the incremental path covers the changes since the state that the trigger describes, the trigger
always has what discovery, hashes and versions from scratch give at the state it reports. -/
theorem inSync_of_publications {t₀ : Trigger σ ρ ι} (h₀ : InSync source t₀)
    (h : Reachable (step source) (recomputesAll source) t₀ t) : InSync source t :=
  h.invariant (I := InSync source) h₀ fun _ _ _ hsync hok hs ↦ hsync.step hok hs

end Runs

/-! ## Runs that fall out of step -/

section Demo

/-- Units of one source file each; a template declares its text as its framework. -/
def demoFiles : ℕ → Files
  | 0 => [(lit "packages/react/package.json", []), (lit "templates/default/template.json", lit "vanilla")]
  | 1 => [(lit "packages/react/package.json", []), (lit "templates/default/template.json", lit "react")]
  | 2 => [(lit "packages/a/package.json", []), (lit "packages/a/index.ts", lit "1"),
      (lit "packages/b/package.json", []), (lit "packages/b/index.ts", lit "1")]
  | 3 => [(lit "packages/a/package.json", []), (lit "packages/a/index.ts", lit "2"),
      (lit "packages/b/package.json", []), (lit "packages/b/index.ts", lit "1")]
  | _ => [(lit "packages/a/package.json", []), (lit "packages/a/index.ts", lit "2"),
      (lit "packages/b/package.json", []), (lit "packages/b/index.ts", lit "2")]

def demoReader : ManifestReader Unit Unit where
  read kind _ source := .ok ⟨[], [], [], none, if kind = .template then some source else none, ()⟩
  missing _ _ := ()
  validateInternalDepSpec _ _ := none

def demoHash (s : ℕ) (rel : JsString) : Option JsString :=
  some (lit "manifest:" ++ ((demoFiles s).get (joinPath rel (lit "template.json"))).getD [] ++
    ((demoFiles s).get (joinPath rel (lit "index.ts"))).getD [])

def demoSource : WorkspaceStateSource ℕ Unit Unit where
  reader := demoReader
  hashStrings := List.flatten
  files := demoFiles
  unitHash := demoHash
  unitHash_local s s' rel h := by
    rw [demoHash, demoHash, h _ (inUnit_joinPath rel _), h _ (inUnit_joinPath rel _)]
  unitHash_present s rel p _ _ := by
    rw [demoHash, truthy, Option.filter_some, if_pos (decide_eq_true ?_)]
    · exact Option.some_ne_none _
    · exact List.append_ne_nil_of_left_ne_nil (List.append_ne_nil_of_left_ne_nil (by decide) _) _

/-- A trigger that starts at a state. -/
def startAt (s : ℕ) : Option (Trigger ℕ Unit Unit) :=
  match discoverPackageGraphAtTree demoReader (demoFiles s) with
  | .error _ => none
  | .ok graph =>
    some ⟨graph, computeEffectiveVersions List.flatten graph (unitContentHashes demoSource graph s),
      unitContentHashes demoSource graph s, s, s, true⟩

theorem inSync_startAt {s : ℕ} {t : Trigger ℕ Unit Unit} (h : startAt s = some t) :
    InSync demoSource t ∧ t.workspace = t.stateHash := by
  rw [startAt] at h
  cases hgraph : discoverPackageGraphAtTree demoReader (demoFiles s) with
  | error e =>
    rw [hgraph] at h
    exact nomatch h
  | ok graph =>
    rw [hgraph] at h
    obtain rfl := Option.some.inj h
    exact ⟨⟨hgraph, fun _ ↦ rfl, fun _ ↦ rfl⟩, rfl⟩

/-- The framework of a template changes. -/
def templateChange : Publication ℕ := ⟨1, [lit "templates/default/template.json"], false, false⟩

/-- A file of one unit changes, and the hashes are not to be had. -/
def rejectedChange : Publication ℕ := ⟨3, [lit "packages/a/index.ts"], false, true⟩

/-- A file of the other unit changes. -/
def nextChange : Publication ℕ := ⟨4, [lit "packages/b/index.ts"], false, false⟩

theorem inSync_after_change : ∃ t : Trigger ℕ Unit Unit, t.stateHash = 4 ∧
    t.contentHashes.get (lit "@workspace/b") = some (lit "manifest:2") ∧ InSync demoSource t := by
  have hrun : ((startAt 3).bind fun t₀ ↦ (run (step demoSource) (recomputesAll demoSource) t₀
      [nextChange]).map fun t ↦ decide (t.stateHash = 4 ∧
        t.contentHashes.get (lit "@workspace/b") = some (lit "manifest:2"))) = some true := by
    decide +kernel
  obtain ⟨t₀, h₀, hrun⟩ := Option.bind_eq_some_iff.mp hrun
  obtain ⟨t, ht, heq⟩ := Option.map_eq_some_iff.mp hrun
  obtain ⟨hstate, hhash⟩ := of_decide_eq_true heq
  exact ⟨t, hstate, hhash, inSync_of_publications (inSync_startAt h₀).1 (Reachable.init.run ht)⟩

/-- Neither after the change of a template manifest nor after a rejected publication is the trigger always
in sync. -/
theorem not_always_inSync :
    (∃ t₀ t, InSync demoSource t₀ ∧ t₀.workspace = t₀.stateHash ∧
      run (step demoSource) (exactPaths demoSource) t₀ [templateChange] = some t ∧ t.settled = true ∧
      ¬InSync demoSource t) ∧
    ∃ t₀ t, InSync demoSource t₀ ∧ t₀.workspace = t₀.stateHash ∧
      run (step demoSource) (exactPaths demoSource) t₀ [rejectedChange, nextChange] = some t ∧
      t.settled = true ∧ ¬InSync demoSource t := by
  constructor
  · have hrun : ((startAt 0).bind fun t₀ ↦ (run (step demoSource) (exactPaths demoSource) t₀
        [templateChange]).map fun t ↦ decide (t.settled = true ∧
          discoverPackageGraphAtTree demoReader (demoFiles t.stateHash) ≠ .ok t.graph)) = some true := by
      decide +kernel
    obtain ⟨t₀, h₀, hrun⟩ := Option.bind_eq_some_iff.mp hrun
    obtain ⟨t, ht, heq⟩ := Option.map_eq_some_iff.mp hrun
    obtain ⟨hsettled, hgraph⟩ := of_decide_eq_true heq
    obtain ⟨hsync, hcurrent⟩ := inSync_startAt h₀
    exact ⟨t₀, t, hsync, hcurrent, ht, hsettled, fun h ↦ hgraph h.graph⟩
  · have hrun : ((startAt 2).bind fun t₀ ↦ (run (step demoSource) (exactPaths demoSource) t₀
        [rejectedChange, nextChange]).map fun t ↦ decide (t.settled = true ∧
          t.contentHashes.get (lit "@workspace/a")
            ≠ (unitContentHashes demoSource t.graph t.stateHash).get (lit "@workspace/a"))) = some true := by
      decide +kernel
    obtain ⟨t₀, h₀, hrun⟩ := Option.bind_eq_some_iff.mp hrun
    obtain ⟨t, ht, heq⟩ := Option.map_eq_some_iff.mp hrun
    obtain ⟨hsettled, hhash⟩ := of_decide_eq_true heq
    obtain ⟨hsync, hcurrent⟩ := inSync_startAt h₀
    exact ⟨t₀, t, hsync, hcurrent, ht, hsettled, fun h ↦ hhash (h.contentHashes _)⟩

end Demo

end Vibestudio.Server.Builds

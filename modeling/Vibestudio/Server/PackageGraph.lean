import Mathlib
import Vibestudio.Dag.Dependents
import Vibestudio.Dag.TopologicalOrder
import Vibestudio.Js.Map
import Vibestudio.Js.Text

/-!
# The package graph

`discoverPackageGraphAtTree` of `src/server/buildV2/packageGraphTree.ts` and `packageGraph.ts`: the units of a
workspace state are the directories two levels deep in the buildable sections, and a node of the graph is what
the manifest of such a directory declares, with the internal dependencies of the whole graph resolved. What a
manifest text declares is a parameter (`ManifestReader`), and so is the check of a dependency specification;
everything else that a graph depends on is here, so that the graph is a function of the units and their
manifest texts (`discoverGraph_congr`).
-/

namespace Vibestudio.Server.Builds

open Js Dag

/-! ## Units and their places -/

inductive UnitKind where
  | package
  | panel
  | worker
  | extension
  | client
  | template
  deriving DecidableEq

/-- `BuildableUnitDir`. -/
structure UnitDir where
  dir : JsString
  kind : UnitKind
  scope : Option JsString
  deriving DecidableEq

def BUILDABLE_UNIT_DIRS : List UnitDir :=
  [⟨lit "packages", .package, some (lit "@workspace/")⟩,
    ⟨lit "panels", .panel, some (lit "@workspace-panels/")⟩,
    ⟨lit "clients", .client, some (lit "@workspace-clients/")⟩,
    ⟨lit "about", .panel, some (lit "@workspace-about/")⟩,
    ⟨lit "terminal-apps", .panel, some (lit "@workspace-terminal-apps/")⟩,
    ⟨lit "workers", .worker, some (lit "@workspace-workers/")⟩,
    ⟨lit "extensions", .extension, some (lit "@workspace-extensions/")⟩,
    ⟨lit "skills", .package, some (lit "@workspace-skills/")⟩,
    ⟨lit "templates", .template, none⟩]

/-- The identity that the place of a unit gives it; a template has no package scope. -/
def expectedBuildUnitName (d : UnitDir) (name : JsString) : JsString :=
  match d.scope with
  | some scope => scope ++ name
  | none => lit "template:" ++ name

def slash : CodeUnit := 47

def joinPath (dir name : JsString) : JsString := dir ++ slash :: name

/-- A path is that of a unit or below it. -/
def inUnit (rel path : JsString) : Bool := decide (path = rel) || decide (rel ++ [slash] <+: path)

def manifestName : UnitKind → JsString
  | .template => lit "template.json"
  | _ => lit "package.json"

def isTerminalAppLocation (relativePath : JsString) : Bool :=
  decide (relativePath.takeWhile (fun c ↦ decide (c ≠ slash)) = lit "terminal-apps")

/-! ## The graph -/

/-- A node, under its name. -/
structure GraphNode (ρ : Type) where
  relativePath : JsString
  kind : UnitKind
  dependencies : JsMap JsString JsString
  internalDeps : List JsString
  dependencyErrors : List JsString
  /-- `manifest.template` and `manifest.framework`. -/
  template : Option JsString
  framework : Option JsString
  /-- What no function here reads. -/
  rest : ρ
  deriving DecidableEq

structure PackageGraph (ρ ι : Type) where
  nodes : JsMap JsString (GraphNode ρ)
  topoOrder : List JsString
  manifestIssues : JsMap JsString ι
  deriving DecidableEq

/-- What the text of a manifest declares. -/
structure Declared (ρ : Type) where
  dependencies : JsMap JsString JsString
  internalDeps : List JsString
  dependencyErrors : List JsString
  template : Option JsString
  framework : Option JsString
  rest : ρ

/-- How manifests are read: `packageNodeFromJson` with `packageManifestContractError`, and
`templateNodeFromJson`. -/
structure ManifestReader (ρ ι : Type) where
  read : UnitKind → JsString → JsString → Except ι (Declared ρ)
  missing : UnitKind → JsString → ι
  validateInternalDepSpec : JsString → JsString → Option JsString

structure PackageGraphManifest where
  dir : UnitDir
  name : JsString
  source : Option JsString
  deriving DecidableEq

def PackageGraphManifest.relativePath (m : PackageGraphManifest) : JsString := joinPath m.dir.dir m.name

variable {ρ ι : Type}

namespace PackageGraph

variable (g : PackageGraph ρ ι)

def empty : PackageGraph ρ ι := ⟨[], [], []⟩

def has (name : JsString) : Bool := decide (name ∈ g.nodes.keys)

def addNode (name : JsString) (node : GraphNode ρ) : PackageGraph ρ ι :=
  { g with nodes := g.nodes.set name node }

def addManifestIssue (relativePath : JsString) (issue : ι) : PackageGraph ρ ι :=
  { g with manifestIssues := g.manifestIssues.set relativePath issue }

/-- Every node is written over. -/
def mapNodes (f : JsString → GraphNode ρ → GraphNode ρ) : PackageGraph ρ ι :=
  { g with nodes := g.nodes.map fun p ↦ (p.1, f p.1 p.2) }

/-- The internal dependencies of a node. -/
def deps (name : JsString) : Option (List JsString) := (g.nodes.get name).map GraphNode.internalDeps

def getReverseDeps (name : JsString) : List JsString :=
  dependents (fun n current ↦ (g.deps n).any fun ds ↦ decide (current ∈ ds)) g.nodes.keys name

end PackageGraph

/-! ## Discovery -/

section Discovery

variable (reader : ManifestReader ρ ι)

def recordInternalDepSpecError (node : GraphNode ρ) (depName rawSpec : JsString) : GraphNode ρ :=
  match reader.validateInternalDepSpec depName rawSpec with
  | none => node
  | some error =>
    if error ∈ node.dependencyErrors then node
    else { node with dependencyErrors := node.dependencyErrors ++ [error] }

def recordDependencyError (node : GraphNode ρ) (error : JsString) : GraphNode ρ :=
  if error ∈ node.dependencyErrors then node
  else { node with dependencyErrors := node.dependencyErrors ++ [error] }

/-- The node of one manifest, or the issue it is. -/
def addManifest (g : PackageGraph ρ ι) (m : PackageGraphManifest) : PackageGraph ρ ι :=
  match m.source with
  | none => g.addManifestIssue m.relativePath (reader.missing m.dir.kind m.relativePath)
  | some source =>
    match reader.read m.dir.kind m.relativePath source with
    | .error issue => g.addManifestIssue m.relativePath issue
    | .ok d =>
      g.addNode (expectedBuildUnitName m.dir m.name)
        ⟨m.relativePath, m.dir.kind, d.dependencies, d.internalDeps, d.dependencyErrors, d.template,
          d.framework, d.rest⟩

/-- A dependency on any package of the graph is internal. -/
def ownDependencies (has : JsString → Bool) (node : GraphNode ρ) : GraphNode ρ :=
  node.dependencies.foldl (fun node dep ↦
    if has dep.1 = false ∨ dep.1 ∈ node.internalDeps then node
    else recordInternalDepSpecError reader { node with internalDeps := node.internalDeps ++ [dep.1] } dep.1 dep.2)
    node

/-- `FrameworkModuleContract`. -/
structure FrameworkModule where
  framework : JsString
  module : JsString
  buildDependencies : List JsString

def FRAMEWORK_MODULES : List FrameworkModule :=
  [⟨lit "react", lit "@workspace/react", [lit "@workspace/ui"]⟩,
    ⟨lit "svelte", lit "@workspace/svelte", []⟩]

def frameworkModule (framework : JsString) : Option JsString :=
  (FRAMEWORK_MODULES.find? fun m ↦ decide (m.framework = framework)).map FrameworkModule.module

/-- The modules that the source generated for a framework imports. -/
def buildDependencies (has : JsString → Bool) (contract : FrameworkModule) (name : JsString)
    (node : GraphNode ρ) : GraphNode ρ :=
  if name = contract.module then
    contract.buildDependencies.foldl (fun node dependency ↦
      if has dependency = true ∧ dependency ∉ node.internalDeps then
        { node with internalDeps := node.internalDeps ++ [dependency] }
      else node) node
  else node

/-- A template owns the framework module that its generated entry imports. -/
def templateFramework (has : JsString → Bool) (node : GraphNode ρ) : GraphNode ρ :=
  if node.kind = .template then
    match node.framework.bind frameworkModule with
    | none => node
    | some moduleName =>
      if has moduleName = true ∧ moduleName ∉ node.internalDeps then
        { node with internalDeps := node.internalDeps ++ [moduleName] }
      else node
  else node

def defaultTemplate : JsString := lit "template:default"

/-- A panel depends on its template. -/
def panelTemplate (has : JsString → Bool) (node : GraphNode ρ) : GraphNode ρ :=
  if node.kind = .panel ∧ isTerminalAppLocation node.relativePath = false then
    match node.template.filter fun t ↦ decide (t ≠ []) with
    | some template =>
      if has (lit "template:" ++ template) = true then
        { node with internalDeps := node.internalDeps ++ [lit "template:" ++ template] }
      else node
    | none =>
      if has defaultTemplate = true then
        { node with internalDeps := node.internalDeps ++ [defaultTemplate] }
      else node
  else node

/-- A dependency that is not in the graph is an error of the node, and no edge. -/
def withoutMissing (has : JsString → Bool) (node : GraphNode ρ) : GraphNode ρ :=
  let missing := node.internalDeps.filter fun dep ↦ !has dep
  let node := missing.foldl (fun node dep ↦
    recordDependencyError node (lit "Internal dependency " ++ dep ++ lit " is not in the workspace")) node
  { node with internalDeps := node.internalDeps.filter has }

def finalizePackageGraph (g : PackageGraph ρ ι) : Except (SearchError JsString) (PackageGraph ρ ι) :=
  let g := g.mapNodes fun _ ↦ ownDependencies reader g.has
  let g := FRAMEWORK_MODULES.foldl (fun g contract ↦ g.mapNodes (buildDependencies g.has contract)) g
  let g := g.mapNodes fun _ ↦ templateFramework g.has
  let g := g.mapNodes fun _ ↦ panelTemplate g.has
  let g := g.mapNodes fun _ ↦ withoutMissing g.has
  (topologicalOrder g.deps g.nodes.keys).map fun topoOrder ↦ { g with topoOrder }

def discoverPackageGraphFromManifests (manifests : List PackageGraphManifest) :
    Except (SearchError JsString) (PackageGraph ρ ι) :=
  finalizePackageGraph reader (manifests.foldl (addManifest reader) .empty)

/-- The files of a workspace state, under their paths. -/
abbrev Files := JsMap JsString JsString

/-- The name of the directory in `dir` that a file is in. -/
def childName (dir path : JsString) : Option JsString :=
  (stripPrefix? (dir ++ [slash]) path).bind fun rest ↦
    if slash ∈ rest then some (rest.takeWhile fun c ↦ decide (c ≠ slash)) else none

/-- The directories in a directory, hidden ones left out. -/
def childDirs (files : Files) (dir : JsString) : List JsString :=
  ((files.keys.filterMap (childName dir)).dedup.insertionSort (· ≤ ·)).filter fun name ↦
    decide (name.head? ≠ some 46)

def readSectionManifests (files : Files) (section_ : UnitDir) : List PackageGraphManifest :=
  (childDirs files section_.dir).map fun name ↦
    ⟨section_, name, files.get (joinPath (joinPath section_.dir name) (manifestName section_.kind))⟩

def discoverPackageGraphAtTree (files : Files) : Except (SearchError JsString) (PackageGraph ρ ι) :=
  discoverPackageGraphFromManifests reader (BUILDABLE_UNIT_DIRS.flatMap (readSectionManifests files))

end Discovery

/-! ## Places of units -/

theorem takeWhile_segment {a r : JsString} (ha : slash ∉ a) (hr : r = [] ∨ [slash] <+: r) :
    (a ++ r).takeWhile (fun c ↦ decide (c ≠ slash)) = a ∧
      (a ++ r).dropWhile (fun c ↦ decide (c ≠ slash)) = r := by
  induction a with
  | nil =>
    rcases hr with rfl | ⟨r', rfl⟩
    · exact ⟨rfl, rfl⟩
    · simp
  | cons c a ih =>
    obtain ⟨hc, ha⟩ := not_or.mp fun h ↦ ha (List.mem_cons.mpr h)
    obtain ⟨htake, hdrop⟩ := ih ha
    have hne : decide (c ≠ slash) = true := decide_eq_true (Ne.symm hc)
    rw [List.cons_append, List.takeWhile_cons, List.dropWhile_cons, if_pos hne, if_pos hne, htake]
    exact ⟨rfl, hdrop⟩

theorem inUnit_iff {rel path : JsString} :
    inUnit rel path = true ↔ ∃ r, path = rel ++ r ∧ (r = [] ∨ [slash] <+: r) := by
  rw [inUnit, Bool.or_eq_true, decide_eq_true_eq, decide_eq_true_eq]
  constructor
  · rintro (rfl | ⟨r, rfl⟩)
    · exact ⟨[], (List.append_nil _).symm, .inl rfl⟩
    · exact ⟨slash :: r, by simp, .inr ⟨r, rfl⟩⟩
  · rintro ⟨r, rfl, rfl | ⟨r', rfl⟩⟩
    · exact .inl (List.append_nil _)
    · exact .inr ⟨r', by simp⟩

/-- A path is in one unit at most. -/
theorem unit_unique {dir dir' name name' path : JsString} (hdir : slash ∉ dir) (hdir' : slash ∉ dir')
    (hname : slash ∉ name) (hname' : slash ∉ name') (h : inUnit (joinPath dir name) path = true)
    (h' : inUnit (joinPath dir' name') path = true) : dir = dir' ∧ name = name' := by
  obtain ⟨r, rfl, hr⟩ := inUnit_iff.mp h
  obtain ⟨r', heq, hr'⟩ := inUnit_iff.mp h'
  have hsplit : ∀ dir name r : JsString, joinPath dir name ++ r = dir ++ (slash :: (name ++ r)) := by
    intro dir name r
    rw [joinPath, List.append_assoc, List.cons_append]
  rw [hsplit, hsplit] at heq
  -- the first segments, then the rests after the first slash
  have hfirst := takeWhile_segment hdir (r := slash :: (name ++ r)) (.inr ⟨name ++ r, rfl⟩)
  have hfirst' := takeWhile_segment hdir' (r := slash :: (name' ++ r')) (.inr ⟨name' ++ r', rfl⟩)
  rw [heq] at hfirst
  have hrest : name ++ r = name' ++ r' := (List.cons.inj (hfirst.2.symm.trans hfirst'.2)).2
  have hsecond := takeWhile_segment hname hr
  have hsecond' := takeWhile_segment hname' hr'
  rw [hrest] at hsecond
  exact ⟨hfirst.1.symm.trans hfirst'.1, hsecond.1.symm.trans hsecond'.1⟩

theorem inUnit_joinPath (rel name : JsString) : inUnit rel (joinPath rel name) = true :=
  inUnit_iff.mpr ⟨slash :: name, rfl, .inr ⟨name, rfl⟩⟩

/-- The directories of a section are those that a file is below. -/
theorem childName_eq_some {dir name path : JsString} : childName dir path = some name ↔
    slash ∉ name ∧ ∃ r, path = joinPath dir name ++ slash :: r := by
  rw [childName, Option.bind_eq_some_iff]
  constructor
  · rintro ⟨rest, hrest, h⟩
    rw [stripPrefix?_eq_some] at hrest
    split_ifs at h with hslash
    obtain rfl := Option.some.inj h
    refine ⟨fun hmem ↦ ?_, ?_⟩
    · simpa using List.mem_takeWhile_imp hmem
    · have hdrop : ∃ r, rest.dropWhile (fun c ↦ decide (c ≠ slash)) = slash :: r := by
        cases hd : rest.dropWhile (fun c ↦ decide (c ≠ slash)) with
        | nil =>
          have hall := List.dropWhile_eq_nil_iff.mp hd slash hslash
          simp at hall
        | cons c r =>
          have hhead := List.head_dropWhile_not (fun c ↦ decide (c ≠ slash)) (l := rest) (hd ▸ List.cons_ne_nil _ _)
          simp only [hd, List.head_cons, decide_eq_false_iff_not, not_not] at hhead
          exact ⟨r, by rw [hhead]⟩
      obtain ⟨r, hr⟩ := hdrop
      refine ⟨r, ?_⟩
      rw [hrest, joinPath, List.append_assoc, List.append_assoc, List.singleton_append, List.cons_append, ← hr,
        List.takeWhile_append_dropWhile]
  · rintro ⟨hname, r, rfl⟩
    refine ⟨name ++ slash :: r, ?_, ?_⟩
    · rw [stripPrefix?_eq_some, joinPath]
      simp
    · rw [if_pos (List.mem_append_right _ List.mem_cons_self),
        (takeWhile_segment (r := slash :: r) hname (.inr ⟨r, rfl⟩)).1]

theorem mem_childDirs {files : Files} {dir name : JsString} : name ∈ childDirs files dir ↔
    slash ∉ name ∧ name.head? ≠ some 46 ∧ ∃ r, files.get (joinPath dir name ++ slash :: r) ≠ none := by
  rw [childDirs, List.mem_filter, List.mem_insertionSort, List.mem_dedup, List.mem_filterMap,
    decide_eq_true_eq]
  have hget : ∀ p, p ∈ files.keys ↔ files.get p ≠ none := fun p ↦
    not_iff_not.mp (by rw [not_not, JsMap.get_eq_none])
  constructor
  · rintro ⟨⟨p, hp, hchild⟩, hhidden⟩
    obtain ⟨hname, r, rfl⟩ := childName_eq_some.mp hchild
    exact ⟨hname, hhidden, r, (hget _).mp hp⟩
  · rintro ⟨hname, hhidden, r, hr⟩
    exact ⟨⟨_, (hget _).mpr hr, childName_eq_some.mpr ⟨hname, r, rfl⟩⟩, hhidden⟩

/-- The directories are listed in one order. -/
theorem childDirs_congr {files files' : Files} {dir : JsString}
    (h : ∀ name, name ∈ childDirs files dir ↔ name ∈ childDirs files' dir) :
    childDirs files dir = childDirs files' dir := by
  have hsorted : ∀ files : Files, (childDirs files dir).Pairwise (· ≤ ·) := fun files ↦
    (List.pairwise_insertionSort (· ≤ ·) _).filter _
  have hnodup : ∀ files : Files, (childDirs files dir).Nodup := fun files ↦
    ((List.perm_insertionSort (· ≤ ·) _).nodup_iff.mpr (List.nodup_dedup _)).filter _
  exact ((List.perm_ext_iff_of_nodup (hnodup files) (hnodup files')).mpr h).eq_of_pairwise
    (fun _ _ _ _ hab hba ↦ le_antisymm hab hba) (hsorted files) (hsorted files')

/-! ## The units of a graph -/

section Units

variable {reader : ManifestReader ρ ι}

/-- Where the node of a name is, and that the files have its manifest. -/
def IsUnit (files : Files) (name : JsString) (node : GraphNode ρ) : Prop :=
  ∃ d ∈ BUILDABLE_UNIT_DIRS, ∃ n, slash ∉ n ∧ name = expectedBuildUnitName d n ∧
    node.relativePath = joinPath d.dir n ∧ node.kind = d.kind ∧ n.head? ≠ some 46 ∧
    files.get (joinPath node.relativePath (manifestName node.kind)) ≠ none

theorem slash_notMem_dir {d : UnitDir} (h : d ∈ BUILDABLE_UNIT_DIRS) : slash ∉ d.dir :=
  (by decide : ∀ d ∈ BUILDABLE_UNIT_DIRS, slash ∉ d.dir) d h

/-- The directory decides the section. -/
theorem unitDir_unique {d d' : UnitDir} (h : d ∈ BUILDABLE_UNIT_DIRS) (h' : d' ∈ BUILDABLE_UNIT_DIRS)
    (hdir : d.dir = d'.dir) : d = d' :=
  (by decide : ∀ d ∈ BUILDABLE_UNIT_DIRS, ∀ d' ∈ BUILDABLE_UNIT_DIRS, d.dir = d'.dir → d = d') d h d' h' hdir

namespace PackageGraph

theorem get_mapNodes (g : PackageGraph ρ ι) (f : JsString → GraphNode ρ → GraphNode ρ) (name : JsString) :
    (g.mapNodes f).nodes.get name = (g.nodes.get name).map (f name) := by
  rw [mapNodes]
  induction g.nodes with
  | nil => rfl
  | cons p nodes ih =>
    obtain ⟨name', node⟩ := p
    dsimp only at ih ⊢
    rw [List.map_cons, JsMap.get, JsMap.get, ih]
    dsimp only
    split_ifs with h
    · rw [h, Option.map_some]
    · rfl

theorem keys_mapNodes (g : PackageGraph ρ ι) (f : JsString → GraphNode ρ → GraphNode ρ) :
    (g.mapNodes f).nodes.keys = g.nodes.keys := by
  rw [mapNodes, JsMap.keys, JsMap.keys, List.map_map]
  rfl

end PackageGraph

/-- A pass over the nodes moves none of them. -/
def SamePlace (node node' : GraphNode ρ) : Prop :=
  node'.relativePath = node.relativePath ∧ node'.kind = node.kind

theorem SamePlace.refl (node : GraphNode ρ) : SamePlace node node := ⟨rfl, rfl⟩

theorem SamePlace.trans {node node' node'' : GraphNode ρ} (h : SamePlace node node')
    (h' : SamePlace node' node'') : SamePlace node node'' := ⟨h'.1.trans h.1, h'.2.trans h.2⟩

theorem samePlace_foldl {α : Type} {f : GraphNode ρ → α → GraphNode ρ}
    (hf : ∀ node a, SamePlace node (f node a)) (as : List α) :
    ∀ node, SamePlace node (as.foldl f node) := by
  induction as with
  | nil => exact SamePlace.refl
  | cons a as ih => exact fun node ↦ (hf node a).trans (ih _)

theorem samePlace_recordDependencyError (node : GraphNode ρ) (error : JsString) :
    SamePlace node (recordDependencyError node error) := by
  rw [recordDependencyError]
  split_ifs <;> exact ⟨rfl, rfl⟩

theorem samePlace_recordInternalDepSpecError (node : GraphNode ρ) (depName rawSpec : JsString) :
    SamePlace node (recordInternalDepSpecError reader node depName rawSpec) := by
  rw [recordInternalDepSpecError]
  split
  · exact .refl node
  · split_ifs <;> exact ⟨rfl, rfl⟩

theorem samePlace_ownDependencies (has : JsString → Bool) (node : GraphNode ρ) :
    SamePlace node (ownDependencies reader has node) := by
  refine samePlace_foldl (fun node dep ↦ ?_) _ node
  split_ifs
  · exact .refl node
  · exact samePlace_recordInternalDepSpecError _ _ _

theorem samePlace_buildDependencies (has : JsString → Bool) (contract : FrameworkModule) (name : JsString)
    (node : GraphNode ρ) : SamePlace node (buildDependencies has contract name node) := by
  rw [buildDependencies]
  split_ifs
  · refine samePlace_foldl (fun node dep ↦ ?_) _ node
    split_ifs <;> exact ⟨rfl, rfl⟩
  · exact .refl node

theorem samePlace_templateFramework (has : JsString → Bool) (node : GraphNode ρ) :
    SamePlace node (templateFramework has node) := by
  rw [templateFramework]
  split
  · split
    · exact .refl node
    · split <;> exact ⟨rfl, rfl⟩
  · exact .refl node

theorem samePlace_panelTemplate (has : JsString → Bool) (node : GraphNode ρ) :
    SamePlace node (panelTemplate has node) := by
  rw [panelTemplate]
  split
  · split <;> split <;> exact ⟨rfl, rfl⟩
  · exact .refl node

theorem samePlace_withoutMissing (has : JsString → Bool) (node : GraphNode ρ) :
    SamePlace node (withoutMissing has node) := by
  have hfold := samePlace_foldl (fun node dep ↦ samePlace_recordDependencyError node
    (lit "Internal dependency " ++ dep ++ lit " is not in the workspace"))
    (node.internalDeps.filter fun dep ↦ !has dep) node
  exact ⟨hfold.1, hfold.2⟩

/-- All nodes of a graph are units, each with a name of its own. -/
structure AllUnits (files : Files) (g : PackageGraph ρ ι) : Prop where
  nodup : g.nodes.keys.Nodup
  units : ∀ name node, g.nodes.get name = some node → IsUnit files name node

theorem AllUnits.mapNodes {files : Files} {g : PackageGraph ρ ι} (h : AllUnits files g)
    {f : JsString → GraphNode ρ → GraphNode ρ} (hf : ∀ name node, SamePlace node (f name node)) :
    AllUnits files (g.mapNodes f) := by
  refine ⟨(PackageGraph.keys_mapNodes g f).symm ▸ h.nodup, fun name node' hnode' ↦ ?_⟩
  rw [PackageGraph.get_mapNodes, Option.map_eq_some_iff] at hnode'
  obtain ⟨node, hnode, rfl⟩ := hnode'
  obtain ⟨d, hd, n, hslash, hname, hpath, hkind, hmanifest⟩ := h.units name node hnode
  obtain ⟨hsame, hsameKind⟩ := hf name node
  exact ⟨d, hd, n, hslash, hname, hsame.trans hpath, hsameKind.trans hkind, by rwa [hsame, hsameKind]⟩

theorem AllUnits.addManifest {files : Files} {g : PackageGraph ρ ι} (h : AllUnits files g)
    {m : PackageGraphManifest} (hdir : m.dir ∈ BUILDABLE_UNIT_DIRS) (hslash : slash ∉ m.name)
    (hhidden : m.name.head? ≠ some 46)
    (hsource : m.source = files.get (joinPath m.relativePath (manifestName m.dir.kind))) :
    AllUnits files (addManifest reader g m) := by
  rw [Builds.addManifest]
  cases hm : m.source with
  | none => exact ⟨h.nodup, h.units⟩
  | some source =>
    dsimp only
    cases reader.read m.dir.kind m.relativePath source with
    | error issue => exact ⟨h.nodup, h.units⟩
    | ok declared =>
      refine ⟨JsMap.nodup_keys_set h.nodup _ _, fun name node hnode ↦ ?_⟩
      dsimp only [PackageGraph.addNode] at hnode
      rw [JsMap.get_set] at hnode
      split_ifs at hnode with heq
      · rw [← Option.some.inj hnode]
        refine ⟨m.dir, hdir, m.name, hslash, heq, rfl, rfl, hhidden, ?_⟩
        rw [← hsource, hm]
        exact Option.some_ne_none _
      · exact h.units name node hnode

/-- The graph before its passes. -/
theorem allUnits_manifests (files : Files) :
    AllUnits files ((BUILDABLE_UNIT_DIRS.flatMap (readSectionManifests files)).foldl (addManifest reader)
      .empty) := by
  have hfold : ∀ (ms : List PackageGraphManifest) (g : PackageGraph ρ ι), AllUnits files g →
      (∀ m ∈ ms, m ∈ BUILDABLE_UNIT_DIRS.flatMap (readSectionManifests files)) →
      AllUnits files (ms.foldl (addManifest reader) g) := by
    intro ms
    induction ms with
    | nil => exact fun _ h _ ↦ h
    | cons m ms ih =>
      intro g h hms
      apply ih
      · obtain ⟨d, hd, hm⟩ := List.mem_flatMap.mp (hms m List.mem_cons_self)
        obtain ⟨name, hname, rfl⟩ := List.mem_map.mp hm
        obtain ⟨hslash, hhidden, -⟩ := mem_childDirs.mp hname
        exact h.addManifest hd hslash hhidden rfl
      · exact fun m' hm' ↦ hms m' (List.mem_cons_of_mem _ hm')
  exact hfold _ _ ⟨List.nodup_nil, fun _ _ h ↦ nomatch h⟩ fun _ h ↦ h

/-- What a discovered graph has: units as nodes, and a topological order of them. -/
theorem discoverPackageGraphAtTree_spec {files : Files} {g : PackageGraph ρ ι}
    (h : discoverPackageGraphAtTree reader files = .ok g) :
    AllUnits files g ∧ Topological g.deps g.topoOrder ∧ ∀ name, name ∈ g.topoOrder ↔ name ∈ g.nodes.keys := by
  rw [discoverPackageGraphAtTree, discoverPackageGraphFromManifests, finalizePackageGraph] at h
  have hunits := @allUnits_manifests ρ ι reader files
  generalize (BUILDABLE_UNIT_DIRS.flatMap (readSectionManifests files)).foldl (addManifest reader) .empty = g₀
    at h hunits
  have hown := hunits.mapNodes (f := fun _ ↦ ownDependencies reader g₀.has) fun _ ↦ samePlace_ownDependencies _
  generalize g₀.mapNodes (fun _ ↦ ownDependencies reader g₀.has) = g₁ at h hown
  have hframework : ∀ (contracts : List FrameworkModule) (g : PackageGraph ρ ι), AllUnits files g →
      AllUnits files (contracts.foldl (fun g contract ↦ g.mapNodes (buildDependencies g.has contract)) g) := by
    intro contracts
    induction contracts with
    | nil => exact fun _ h ↦ h
    | cons contract contracts ih =>
      exact fun g h ↦ ih _ (h.mapNodes fun name ↦ samePlace_buildDependencies _ _ name)
  have hmodules := hframework FRAMEWORK_MODULES g₁ hown
  generalize FRAMEWORK_MODULES.foldl (fun g contract ↦ g.mapNodes (buildDependencies g.has contract)) g₁ = g₂
    at h hmodules
  have htemplates := hmodules.mapNodes (f := fun _ ↦ templateFramework g₂.has) fun _ ↦
    samePlace_templateFramework _
  generalize g₂.mapNodes (fun _ ↦ templateFramework g₂.has) = g₃ at h htemplates
  have hpanels := htemplates.mapNodes (f := fun _ ↦ panelTemplate g₃.has) fun _ ↦ samePlace_panelTemplate _
  generalize g₃.mapNodes (fun _ ↦ panelTemplate g₃.has) = g₄ at h hpanels
  have hlast := hpanels.mapNodes (f := fun _ ↦ withoutMissing g₄.has) fun _ ↦ samePlace_withoutMissing _
  generalize g₄.mapNodes (fun _ ↦ withoutMissing g₄.has) = g₅ at h hlast
  cases horder : topologicalOrder g₅.deps g₅.nodes.keys with
  | error e =>
    rw [horder] at h
    exact nomatch h
  | ok topoOrder =>
    rw [horder] at h
    obtain rfl := Except.ok.inj h
    obtain ⟨htopological, -, hall⟩ := topologicalOrder_spec horder
    refine ⟨⟨hlast.nodup, hlast.units⟩, htopological, fun name ↦ ⟨fun hmem ↦ ?_, hall name⟩⟩
    obtain ⟨l, r, hsplit⟩ := List.append_of_mem hmem
    obtain ⟨ds, hds, -⟩ := htopological l name r hsplit
    obtain ⟨node, hnode, -⟩ := Option.map_eq_some_iff.mp hds
    by_contra hnot
    exact nomatch (JsMap.get_eq_none.mpr hnot).symm.trans hnode

/-- The search for an order ends with one, with a cycle or with a name that is not in the graph. -/
theorem order_ne_exhausted (g : PackageGraph ρ ι) :
    topologicalOrder g.deps g.nodes.keys ≠ .error .exhausted := by
  refine topologicalOrder_ne_exhausted fun name ds hds ↦ ?_
  obtain ⟨node, hnode, -⟩ := Option.map_eq_some_iff.mp hds
  by_contra hnot
  exact nomatch (JsMap.get_eq_none.mpr hnot).symm.trans hnode

end Units

/-! ## What a graph depends on -/

/-- A path in a unit that has its manifest, other than the path of the manifest. -/
def BesideManifest (files : Files) (path : JsString) : Prop :=
  ∃ d ∈ BUILDABLE_UNIT_DIRS, ∃ n, slash ∉ n ∧ n.head? ≠ some 46 ∧ inUnit (joinPath d.dir n) path = true ∧
    files.get (joinPath (joinPath d.dir n) (manifestName d.kind)) ≠ none ∧
    path ≠ joinPath (joinPath d.dir n) (manifestName d.kind)

theorem inUnit_below (rel r : JsString) : inUnit rel (rel ++ slash :: r) = true := inUnit_joinPath rel r

/-- The manifest of a unit is not beside the manifest of any. -/
theorem not_besideManifest {files : Files} {d : UnitDir} {n : JsString} (hd : d ∈ BUILDABLE_UNIT_DIRS)
    (hn : slash ∉ n) : ¬BesideManifest files (joinPath (joinPath d.dir n) (manifestName d.kind)) := by
  rintro ⟨d', hd', n', hn', -, hin, -, hne⟩
  obtain ⟨hdir, rfl⟩ := unit_unique (slash_notMem_dir hd) (slash_notMem_dir hd') hn hn' (inUnit_joinPath _ _) hin
  obtain rfl := unitDir_unique hd hd' hdir
  exact hne rfl

/-- Files that differ beside manifests only have the same units. -/
theorem childDirs_subset {files files' : Files} (h : ∀ p, files.get p ≠ files'.get p → BesideManifest files p)
    {d : UnitDir} (hd : d ∈ BUILDABLE_UNIT_DIRS) (name : JsString) :
    name ∈ childDirs files d.dir ↔ name ∈ childDirs files' d.dir := by
  -- a changed file of the directory leaves the manifest of the unit, before and after
  have hchanged : ∀ r, slash ∉ name → files.get (joinPath d.dir name ++ slash :: r)
      ≠ files'.get (joinPath d.dir name ++ slash :: r) →
      ∃ r', files.get (joinPath d.dir name ++ slash :: r') ≠ none ∧
        files'.get (joinPath d.dir name ++ slash :: r') ≠ none := by
    intro r hname hne
    obtain ⟨d', hd', n', hn', -, hin, hmanifest, -⟩ := h _ hne
    obtain ⟨hdir, rfl⟩ := unit_unique (slash_notMem_dir hd) (slash_notMem_dir hd') hname hn'
      (inUnit_below _ r) hin
    obtain rfl := unitDir_unique hd hd' hdir
    refine ⟨manifestName d.kind, hmanifest, ?_⟩
    by_cases hsame : files.get (joinPath (joinPath d.dir name) (manifestName d.kind))
        = files'.get (joinPath (joinPath d.dir name) (manifestName d.kind))
    · exact hsame ▸ hmanifest
    · exact absurd (h _ hsame) (not_besideManifest hd hname)
  rw [mem_childDirs, mem_childDirs]
  refine and_congr_right fun hname ↦ and_congr_right fun _ ↦ ?_
  constructor
  all_goals
    rintro ⟨r, hr⟩
    by_cases hsame : files.get (joinPath d.dir name ++ slash :: r)
        = files'.get (joinPath d.dir name ++ slash :: r)
  · exact ⟨r, hsame ▸ hr⟩
  · obtain ⟨r', -, hr'⟩ := hchanged r hname hsame
    exact ⟨r', hr'⟩
  · exact ⟨r, hsame.symm ▸ hr⟩
  · obtain ⟨r', hr', -⟩ := hchanged r hname hsame
    exact ⟨r', hr'⟩

/-- **The graph depends on the units and their manifests only.** -/
theorem discoverGraph_congr (reader : ManifestReader ρ ι) {files files' : Files}
    (h : ∀ p, files.get p ≠ files'.get p → BesideManifest files p) :
    discoverPackageGraphAtTree reader files = discoverPackageGraphAtTree reader files' := by
  have hsection : ∀ d ∈ BUILDABLE_UNIT_DIRS, readSectionManifests files d = readSectionManifests files' d := by
    intro d hd
    rw [readSectionManifests, readSectionManifests, childDirs_congr (childDirs_subset h hd)]
    refine List.map_congr_left fun name hname ↦ ?_
    have hslash := (mem_childDirs.mp hname).1
    by_cases hsame : files.get (joinPath (joinPath d.dir name) (manifestName d.kind))
        = files'.get (joinPath (joinPath d.dir name) (manifestName d.kind))
    · rw [hsame]
    · exact absurd (h _ hsame) (not_besideManifest hd hslash)
  rw [discoverPackageGraphAtTree, discoverPackageGraphAtTree, List.flatMap_congr hsection]

/-- The unit of a node is the only one that a path of it is in. -/
theorem IsUnit.unique {files : Files} {name name' path : JsString} {node node' : GraphNode ρ}
    (h : IsUnit files name node) (h' : IsUnit files name' node') (hin : inUnit node.relativePath path = true)
    (hin' : inUnit node'.relativePath path = true) : name = name' := by
  obtain ⟨d, hd, n, hn, rfl, hpath, -⟩ := h
  obtain ⟨d', hd', n', hn', rfl, hpath', -⟩ := h'
  rw [hpath] at hin
  rw [hpath'] at hin'
  obtain ⟨hdir, rfl⟩ := unit_unique (slash_notMem_dir hd) (slash_notMem_dir hd') hn hn' hin hin'
  rw [unitDir_unique hd hd' hdir]

/-- A path in a unit of the graph, other than that of its manifest. -/
theorem IsUnit.besideManifest {files : Files} {name path : JsString} {node : GraphNode ρ}
    (h : IsUnit files name node) (hin : inUnit node.relativePath path = true)
    (hne : path ≠ joinPath node.relativePath (manifestName node.kind)) : BesideManifest files path := by
  obtain ⟨d, hd, n, hn, rfl, hpath, hkind, hhidden, hmanifest⟩ := h
  rw [hpath, hkind] at hne hmanifest
  rw [hpath] at hin
  exact ⟨d, hd, n, hn, hhidden, hin, hmanifest, hne⟩

end Vibestudio.Server.Builds

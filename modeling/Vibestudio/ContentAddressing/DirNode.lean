import Mathlib
import Vibestudio.Js.Map
import Vibestudio.ContentAddressing.TreePaths

/-!
# The tree of a file listing

The in-memory tree that `buildWorktreeManifest` and `encodeWorktreeTree` both build before hashing:
nested insertion-ordered maps of directories and files, filled one file at a time.

What matters of a tree is `lookup`, the file at a path. Inserting a file is an update of `lookup`
(`lookup_insertFile`), so the tree of a listing has at each path the last file listed there
(`lookup_insertFiles`). The trees built this way are `Proper`: the maps have distinct keys and no
directory is empty, so the names of the directories can be read off `lookup` as well
(`mem_dirs_iff`). Nothing else about the order of insertion survives.
-/

namespace Vibestudio.ContentAddressing

open Js

structure WorktreeHashFile where
  path : JsString
  contentHash : JsString
  mode : JsNumber
deriving DecidableEq

/-- What a tree keeps of a file. -/
structure FileInfo where
  contentHash : JsString
  mode : JsNumber
deriving DecidableEq

def WorktreeHashFile.info (file : WorktreeHashFile) : FileInfo := ⟨file.contentHash, file.mode⟩

inductive DirNode where
  | mk (dirs : List (JsString × DirNode)) (files : List (JsString × FileInfo))

namespace DirNode

def dirs : DirNode → JsMap JsString DirNode
  | mk dirs _ => dirs

def files : DirNode → JsMap JsString FileInfo
  | mk _ files => files

def empty : DirNode := mk [] []

mutual

private theorem induct_node {motive : DirNode → Prop}
    (mk : ∀ dirs files, (∀ p ∈ dirs, motive p.2) → motive (.mk dirs files)) : ∀ n, motive n
  | .mk dirs files => mk dirs files (induct_dirs mk dirs)

private theorem induct_dirs {motive : DirNode → Prop}
    (mk : ∀ dirs files, (∀ p ∈ dirs, motive p.2) → motive (.mk dirs files)) :
    ∀ dirs : List (JsString × DirNode), ∀ p ∈ dirs, motive p.2
  | [] => fun _ h ↦ absurd h List.not_mem_nil
  | (_, n) :: dirs => List.forall_mem_cons.mpr ⟨induct_node mk n, induct_dirs mk dirs⟩

end

/-- Induction on trees: the directories of a node are smaller. -/
@[elab_as_elim, induction_eliminator]
theorem induct {motive : DirNode → Prop}
    (mk : ∀ dirs files, (∀ p ∈ dirs, motive p.2) → motive (.mk dirs files)) (n : DirNode) :
    motive n := induct_node mk n

/-- The file at a path. -/
def lookup : DirNode → List JsString → Option FileInfo
  | _, [] => none
  | node, [name] => node.files.get name
  | node, segment :: s :: rest =>
    match node.dirs.get segment with
    | some child => lookup child (s :: rest)
    | none => none

/-- The body of the loop over the listing: walk down, making directories, and set the file. -/
def insertFile : List JsString → FileInfo → DirNode → DirNode
  | [], _, node => node
  | [name], info, node => mk node.dirs (node.files.set name info)
  | segment :: s :: rest, info, node =>
    mk (node.dirs.set segment (insertFile (s :: rest) info ((node.dirs.get segment).getD empty)))
      node.files

@[simp] theorem lookup_nil (node : DirNode) : lookup node [] = none := by
  cases node
  rfl

theorem lookup_single (node : DirNode) (name : JsString) :
    lookup node [name] = node.files.get name := by
  cases node
  rfl

theorem lookup_cons (node : DirNode) (segment s : JsString) (rest : List JsString) :
    lookup node (segment :: s :: rest)
      = (node.dirs.get segment).bind fun child ↦ lookup child (s :: rest) := by
  cases node
  rw [lookup]
  split
  · rename_i h
    rw [h]
    rfl
  · rename_i h
    rw [h]
    rfl

theorem lookup_cons_append (node : DirNode) (segment : JsString) (pre : List JsString) (s : JsString)
    (rest : List JsString) : lookup node (segment :: (pre ++ s :: rest))
      = (node.dirs.get segment).bind fun child ↦ lookup child (pre ++ s :: rest) := by
  cases pre with
  | nil => exact lookup_cons node segment s rest
  | cons t pre => exact lookup_cons node segment t (pre ++ s :: rest)

theorem lookup_empty (path : List JsString) : lookup empty path = none := by
  match path with
  | [] => rfl
  | [_] => rfl
  | _ :: _ :: _ => rfl

/-- **Inserting a file changes the tree at its path only.** -/
theorem lookup_insertFile : ∀ {path : List JsString}, path ≠ [] → ∀ (info : FileInfo)
    (node : DirNode) (q : List JsString),
    lookup (insertFile path info node) q = if q = path then some info else lookup node q
  | [], h => absurd rfl h
  | [name], _ => by
    intro info node q
    match q with
    | [] => rw [lookup_nil, lookup_nil, if_neg (by simp)]
    | [name'] =>
      rw [lookup_single, lookup_single, insertFile, files, JsMap.get_set]
      exact if_congr (by simp) rfl rfl
    | segment :: s :: rest =>
      rw [lookup_cons, lookup_cons, insertFile, dirs, if_neg (by simp)]
  | segment :: s :: rest, _ => by
    intro info node q
    have ih := lookup_insertFile (List.cons_ne_nil s rest) info
    match q with
    | [] => rw [lookup_nil, lookup_nil, if_neg (by simp)]
    | [name'] => rw [lookup_single, lookup_single, insertFile, files, if_neg (by simp)]
    | segment' :: s' :: rest' =>
      rw [lookup_cons, lookup_cons, insertFile, dirs, JsMap.get_set]
      by_cases hseg : segment' = segment
      · subst hseg
        rw [if_pos rfl, Option.bind_some, ih]
        have hold : lookup ((node.dirs.get segment').getD empty) (s' :: rest')
            = (node.dirs.get segment').bind fun child ↦ lookup child (s' :: rest') := by
          cases node.dirs.get segment' with
          | none => exact lookup_empty _
          | some child => rfl
        rw [hold]
        exact if_congr (by simp) rfl rfl
      · rw [if_neg hseg, if_neg (by simp [hseg])]

/-! ## Proper trees -/

/-- The maps have distinct keys and every directory below has a file. -/
inductive Proper : DirNode → Prop where
  | mk {node : DirNode} : node.dirs.keys.Nodup → node.files.keys.Nodup →
      (∀ p ∈ node.dirs, Proper p.2) → (∀ p ∈ node.dirs, ∃ q, lookup p.2 q ≠ none) → Proper node

theorem Proper.empty : Proper empty :=
  .mk List.nodup_nil List.nodup_nil (fun _ h ↦ absurd h List.not_mem_nil)
    fun _ h ↦ absurd h List.not_mem_nil

theorem Proper.get_of_mem {node : DirNode} (h : Proper node) {p : JsString × DirNode}
    (hp : p ∈ node.dirs) : node.dirs.get p.1 = some p.2 := by
  cases h with | mk hdirs _ _ _ =>
  exact (JsMap.mem_iff_get hdirs).mp hp

theorem Proper.insertFile : ∀ {path : List JsString}, path ≠ [] → ∀ (info : FileInfo)
    {node : DirNode}, Proper node → Proper (insertFile path info node)
  | [], h => absurd rfl h
  | [name], _ => fun info node hn ↦ by
    cases hn with | mk hdirs hfiles hsub hne =>
    exact .mk hdirs (JsMap.nodup_keys_set hfiles name info) hsub hne
  | segment :: s :: rest, _ => fun info node hn ↦ by
    cases hn with | mk hdirs hfiles hsub hne =>
    have hchild : Proper ((node.dirs.get segment).getD DirNode.empty) := by
      cases hget : node.dirs.get segment with
      | none => exact Proper.empty
      | some child => exact hsub _ (JsMap.mem_of_get hget)
    have hnew := Proper.insertFile (List.cons_ne_nil s rest) info hchild
    have hnd := JsMap.nodup_keys_set hdirs segment
      (DirNode.insertFile (s :: rest) info ((node.dirs.get segment).getD DirNode.empty))
    have hmem : ∀ p ∈ node.dirs.set segment
        (DirNode.insertFile (s :: rest) info ((node.dirs.get segment).getD DirNode.empty)),
        p.2 = DirNode.insertFile (s :: rest) info ((node.dirs.get segment).getD DirNode.empty) ∨
          p ∈ node.dirs := by
      intro p hp
      obtain ⟨k, v⟩ := p
      rw [JsMap.mem_iff_get hnd, JsMap.get_set] at hp
      split_ifs at hp
      · exact Or.inl (Option.some_inj.mp hp).symm
      · exact Or.inr (JsMap.mem_of_get hp)
    refine .mk hnd hfiles (fun p hp ↦ ?_) fun p hp ↦ ?_
    · rcases hmem p hp with h | h
      · rw [h]
        exact hnew
      · exact hsub p h
    · rcases hmem p hp with h | h
      · refine ⟨s :: rest, ?_⟩
        rw [h, lookup_insertFile (List.cons_ne_nil _ _), if_pos rfl]
        exact Option.some_ne_none _
      · exact hne p h

/-- The names of the directories of a proper tree can be read off its files. -/
theorem mem_dirs_iff {node : DirNode} (h : Proper node) (segment : JsString) :
    segment ∈ node.dirs.keys ↔ ∃ s rest, lookup node (segment :: s :: rest) ≠ none := by
  cases h with | mk hdirs _ _ hne =>
  constructor
  · intro hmem
    cases hget : node.dirs.get segment with
    | none => exact absurd hmem (JsMap.get_eq_none.mp hget)
    | some child =>
      obtain ⟨q, hq⟩ := hne _ (JsMap.mem_of_get hget)
      cases q with
      | nil => exact absurd (lookup_nil child) hq
      | cons s rest => exact ⟨s, rest, by rwa [lookup_cons, hget]⟩
  · rintro ⟨s, rest, hq⟩
    by_contra hmem
    rw [lookup_cons, JsMap.get_eq_none.mpr hmem] at hq
    exact hq rfl

/-- A path in a tree is shorter than the tree is large. -/
theorem length_lt_sizeOf {node : DirNode} {q : List JsString} {info : FileInfo}
    (h : lookup node q = some info) : q.length < sizeOf node := by
  induction node generalizing q with
  | mk dirs files ih =>
    rw [DirNode.mk.sizeOf_spec]
    match q with
    | [] => exact Nat.lt_of_lt_of_le Nat.zero_lt_one (by omega)
    | [name] =>
      rw [lookup_single] at h
      have hlt : sizeOf (name, info) < sizeOf files := List.sizeOf_lt_of_mem (JsMap.mem_of_get h)
      rw [List.length_singleton]
      omega
    | segment :: s :: rest =>
      rw [lookup_cons] at h
      obtain ⟨child, hget, hq⟩ := Option.bind_eq_some_iff.mp h
      have hlt : sizeOf (segment, child) < sizeOf dirs :=
        List.sizeOf_lt_of_mem (JsMap.mem_of_get hget)
      have hsub : (s :: rest).length < sizeOf child := ih _ (JsMap.mem_of_get hget) hq
      rw [Prod.mk.sizeOf_spec] at hlt
      rw [List.length_cons]
      omega

end DirNode

/-! ## The listing -/

/-- The loop over the listing, from a tree built so far. The two callers throw different errors. -/
def insertFiles {ε : Type} (pathError : TreePathError → ε) (emptyPath : ε) :
    List WorktreeHashFile → DirNode → Except ε DirNode
  | [], node => .ok node
  | file :: rest, node =>
    match splitTreePath file.path with
    | .error e => .error (pathError e)
    | .ok segments =>
      if segments.length = 0 then .error emptyPath
      else insertFiles pathError emptyPath rest (node.insertFile segments file.info)

/-- The file is the last one listed at its path. -/
def IsLast (files : List WorktreeHashFile) (file : WorktreeHashFile) : Prop :=
  ∃ before after, files = before ++ file :: after ∧ ∀ g ∈ after, g.path ≠ file.path

theorem IsLast.mem {files : List WorktreeHashFile} {file : WorktreeHashFile}
    (h : IsLast files file) : file ∈ files := by
  obtain ⟨before, after, rfl, -⟩ := h
  exact List.mem_append_right _ List.mem_cons_self

theorem isLast_cons {f g : WorktreeHashFile} {files : List WorktreeHashFile} :
    IsLast (g :: files) f ↔ IsLast files f ∨ (f = g ∧ ∀ h ∈ files, h.path ≠ g.path) := by
  constructor
  · rintro ⟨before, after, heq, hafter⟩
    cases before with
    | nil =>
      obtain ⟨rfl, rfl⟩ := List.cons.inj heq
      exact Or.inr ⟨rfl, hafter⟩
    | cons b before =>
      obtain ⟨rfl, rfl⟩ := List.cons.inj heq
      exact Or.inl ⟨before, after, rfl, hafter⟩
  · rintro (⟨before, after, rfl, hafter⟩ | ⟨rfl, hafter⟩)
    · exact ⟨g :: before, after, rfl, hafter⟩
    · exact ⟨[], files, rfl, hafter⟩

/-- With distinct paths every file is the last one at its path. -/
theorem isLast_iff_mem {files : List WorktreeHashFile} (h : (files.map (·.path)).Nodup)
    {file : WorktreeHashFile} : IsLast files file ↔ file ∈ files := by
  refine ⟨IsLast.mem, fun hmem ↦ ?_⟩
  induction files with
  | nil => exact absurd hmem List.not_mem_nil
  | cons g files ih =>
    rw [List.map_cons, List.nodup_cons] at h
    rcases List.mem_cons.mp hmem with rfl | hmem
    · exact isLast_cons.mpr (Or.inr ⟨rfl, fun k hk heq ↦ h.1 (heq ▸ List.mem_map_of_mem hk)⟩)
    · exact isLast_cons.mpr (Or.inl (ih h.2 hmem))

section

variable {ε : Type} {pathError : TreePathError → ε} {emptyPath : ε}

/-- A listing is accepted when every path splits into one segment or more. -/
def SplitsAll (files : List WorktreeHashFile) : Prop :=
  ∀ file ∈ files, ∃ segments, splitTreePath file.path = .ok segments ∧ segments ≠ []

theorem insertFiles_cons_ok {file : WorktreeHashFile} {rest : List WorktreeHashFile}
    {node tree : DirNode} :
    insertFiles pathError emptyPath (file :: rest) node = .ok tree ↔
      ∃ segments, splitTreePath file.path = .ok segments ∧ segments ≠ [] ∧
        insertFiles pathError emptyPath rest (node.insertFile segments file.info) = .ok tree := by
  rw [insertFiles]
  constructor
  · intro h
    split at h
    · exact absurd h (by simp)
    · rename_i segments hsplit
      split_ifs at h with hlen
      exact ⟨segments, hsplit, fun hnil ↦ hlen (by rw [hnil]; rfl), h⟩
  · rintro ⟨segments, hsplit, hne, h⟩
    rw [hsplit]
    simp only
    rw [if_neg fun hlen ↦ hne (List.length_eq_zero_iff.mp hlen)]
    exact h

/-- When the loop accepts a listing. -/
theorem exists_insertFiles {files : List WorktreeHashFile} : ∀ {node : DirNode},
    (∃ tree, insertFiles pathError emptyPath files node = .ok tree) ↔ SplitsAll files := by
  induction files with
  | nil => exact fun {node} ↦ ⟨fun _ f hf ↦ absurd hf List.not_mem_nil, fun _ ↦ ⟨node, rfl⟩⟩
  | cons file files ih =>
    intro node
    constructor
    · rintro ⟨tree, h⟩
      obtain ⟨segments, hsplit, hne, h⟩ := insertFiles_cons_ok.mp h
      exact List.forall_mem_cons.mpr ⟨⟨segments, hsplit, hne⟩, ih.mp ⟨tree, h⟩⟩
    · intro h
      obtain ⟨⟨segments, hsplit, hne⟩, hrest⟩ := List.forall_mem_cons.mp h
      obtain ⟨tree, htree⟩ := ih.mpr hrest
      exact ⟨tree, insertFiles_cons_ok.mpr ⟨segments, hsplit, hne, htree⟩⟩

/-- The tree does not depend on the errors of the caller. -/
theorem insertFiles_congr {ε' : Type} {pathError' : TreePathError → ε'} {emptyPath' : ε'}
    {files : List WorktreeHashFile} : ∀ {node tree : DirNode},
    insertFiles pathError emptyPath files node = .ok tree →
      insertFiles pathError' emptyPath' files node = .ok tree := by
  induction files with
  | nil =>
    intro node tree h
    rw [insertFiles, Except.ok.injEq] at h
    rw [insertFiles, h]
  | cons file files ih =>
    intro node tree h
    obtain ⟨segments, hsplit, hne, h⟩ := insertFiles_cons_ok.mp h
    exact insertFiles_cons_ok.mpr ⟨segments, hsplit, hne, ih h⟩

theorem proper_insertFiles {files : List WorktreeHashFile} : ∀ {node tree : DirNode},
    node.Proper → insertFiles pathError emptyPath files node = .ok tree → tree.Proper := by
  induction files with
  | nil =>
    intro node tree hn h
    rw [insertFiles, Except.ok.injEq] at h
    rwa [← h]
  | cons file files ih =>
    intro node tree hn h
    obtain ⟨segments, -, hne, h⟩ := insertFiles_cons_ok.mp h
    exact ih (hn.insertFile hne file.info) h

/-- Splitting two paths alike means that they are the same path. -/
theorem path_eq_of_splitTreePath {p q : JsString} {segments : List JsString}
    (hp : splitTreePath p = .ok segments) (hq : splitTreePath q = .ok segments) : p = q := by
  rw [← join_of_splitTreePath hp, join_of_splitTreePath hq]

/-- **The tree of a listing has at each path the last file listed there.** -/
theorem lookup_insertFiles {files : List WorktreeHashFile} : ∀ {node tree : DirNode},
    insertFiles pathError emptyPath files node = .ok tree → ∀ (q : List JsString) (info : FileInfo),
      tree.lookup q = some info ↔
        (∃ file, IsLast files file ∧ splitTreePath file.path = .ok q ∧ file.info = info) ∨
        ((∀ file ∈ files, splitTreePath file.path ≠ .ok q) ∧ node.lookup q = some info) := by
  induction files with
  | nil =>
    intro node tree h q info
    rw [insertFiles, Except.ok.injEq] at h
    subst h
    constructor
    · exact fun h ↦ Or.inr ⟨fun f hf ↦ absurd hf List.not_mem_nil, h⟩
    · rintro (⟨f, ⟨before, after, heq, -⟩, -⟩ | ⟨-, h⟩)
      · exact absurd heq (by simp)
      · exact h
  | cons g files ih =>
    intro node tree h q info
    obtain ⟨segments, hsplit, hne, h⟩ := insertFiles_cons_ok.mp h
    rw [ih h q info, DirNode.lookup_insertFile hne]
    constructor
    · rintro (⟨f, hlast, hf⟩ | ⟨hnone, hq⟩)
      · exact Or.inl ⟨f, isLast_cons.mpr (Or.inl hlast), hf⟩
      · split_ifs at hq with hseg
        · subst hseg
          refine Or.inl ⟨g, isLast_cons.mpr (Or.inr ⟨rfl, fun k hk heq ↦ ?_⟩), hsplit,
            Option.some_inj.mp hq⟩
          exact hnone k hk (heq ▸ hsplit)
        · refine Or.inr ⟨List.forall_mem_cons.mpr ⟨fun hg ↦ hseg ?_, hnone⟩, hq⟩
          rw [hsplit, Except.ok.injEq] at hg
          exact hg.symm
    · rintro (⟨f, hlast, hf, hinfo⟩ | ⟨hnone, hq⟩)
      · rcases isLast_cons.mp hlast with hlast | ⟨rfl, hafter⟩
        · exact Or.inl ⟨f, hlast, hf, hinfo⟩
        · refine Or.inr ⟨fun k hk hkq ↦ hafter k hk (path_eq_of_splitTreePath hkq hf), ?_⟩
          rw [hsplit, Except.ok.injEq] at hf
          rw [if_pos hf.symm, hinfo]
      · obtain ⟨hg, hnone⟩ := List.forall_mem_cons.mp hnone
        have hseg : q ≠ segments := by
          rintro rfl
          exact hg hsplit
        exact Or.inr ⟨hnone, by rwa [if_neg hseg]⟩

end

end Vibestudio.ContentAddressing

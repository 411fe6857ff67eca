import Mathlib
import Vibestudio.ContentAddressing.DirNode
import Vibestudio.ContentAddressing.WorktreeHash

/-!
# The manifest of a worktree

`buildWorktreeManifest` of `packages/content-addressing/src/worktree-hash.ts`: the tree of the
listing, hashed from the leaves up.

The hash of a directory is taken of its records (`records`): the directories with the hashes of
their nodes, then the files. Two proper trees with the same files have the same records up to order
(`records_perm_of_lookup`), and sorting removes the order as long as no name is both a file and a
directory. So the hash is a function of the set of files (`build_eq_of_lookup`).
-/

namespace Vibestudio.ContentAddressing

open Js

inductive WorktreeError where
  | path (error : TreePathError)
  | treeRoot
deriving DecidableEq

def WorktreeError.message : WorktreeError → JsString
  | .path error => error.message
  | .treeRoot => lit "A worktree file path cannot name the tree root"

/-- The entries of the files of a directory. -/
def fileRecords (files : JsMap JsString FileInfo) : List ManifestHashEntry :=
  files.map fun p ↦ .file p.1 p.2.contentHash p.2.mode

section

variable (sha256Hex : List Byte → JsString)

mutual

def build : DirNode → JsString
  | .mk dirs files =>
    manifestHashForEntries sha256Hex ((dirRecords dirs ++ fileRecords files).map (·.fields))

/-- The entries of the directories of a directory. -/
def dirRecords : List (JsString × DirNode) → List ManifestHashEntry
  | [] => []
  | (name, child) :: rest => .dir name (build child) :: dirRecords rest

end

/-- `subtreeHash` below the root: a directory resolves to its hash and a file to its content. -/
def subtreeAt : DirNode → List JsString → Option JsString
  | _, [] => none
  | node, [segment] =>
    match node.dirs.get segment with
    | some dir => some (build sha256Hex dir)
    | none => (node.files.get segment).map (·.contentHash)
  | node, segment :: s :: rest =>
    match node.dirs.get segment with
    | some dir => subtreeAt dir (s :: rest)
    | none => none

structure WorktreeManifest where
  rootHash : JsString
  stateHash : JsString
  subtreeHash : JsString → Option JsString

def buildWorktreeManifest (files : List WorktreeHashFile) :
    Except WorktreeError WorktreeManifest :=
  (insertFiles .path .treeRoot files .empty).map fun root ↦
    let rootHash := if files.length = 0 then EMPTY_MANIFEST_HASH sha256Hex else build sha256Hex root
    { rootHash := rootHash
      stateHash := stateHashForRoot sha256Hex rootHash
      subtreeHash := fun path ↦
        if path = [] then some rootHash else subtreeAt sha256Hex root (path.splitOn 47) }

/-- The entries a directory is hashed by. -/
def records (node : DirNode) : List ManifestHashEntry :=
  dirRecords sha256Hex node.dirs ++ fileRecords node.files

theorem build_eq (node : DirNode) : build sha256Hex node
    = manifestHashForEntries sha256Hex ((records sha256Hex node).map (·.fields)) := by
  cases node
  rfl

theorem dirRecords_eq (dirs : List (JsString × DirNode)) :
    dirRecords sha256Hex dirs = dirs.map fun p ↦ .dir p.1 (build sha256Hex p.2) := by
  induction dirs with
  | nil => rfl
  | cons p dirs ih => rw [dirRecords, ih, List.map_cons]

theorem names_records (node : DirNode) :
    (records sha256Hex node).map (·.name) = node.dirs.keys ++ node.files.keys := by
  rw [records, dirRecords_eq, fileRecords, List.map_append, List.map_map, List.map_map]
  rfl

theorem entryName_fields (e : ManifestHashEntry) : entryName e.fields = e.name :=
  (ManifestHashEntry.represents_fields e).entryName_eq

theorem names_fields (E : List ManifestHashEntry) :
    (E.map (·.fields)).map entryName = E.map (·.name) := by
  rw [List.map_map]
  exact List.map_congr_left fun e _ ↦ entryName_fields e

variable {sha256Hex}

theorem dir_mem_records {node : DirNode} (h : node.Proper) {name hash : JsString} :
    ManifestHashEntry.dir name hash ∈ records sha256Hex node ↔
      ∃ child, node.dirs.get name = some child ∧ build sha256Hex child = hash := by
  cases h with | mk hdirs _ _ _ =>
  rw [records, dirRecords_eq, fileRecords, List.mem_append, List.mem_map, List.mem_map]
  constructor
  · rintro (⟨p, hp, heq⟩ | ⟨p, -, heq⟩)
    · injection heq with hname hhash
      exact ⟨p.2, (JsMap.mem_iff_get hdirs).mp (hname ▸ hp), hhash⟩
    · exact absurd heq (by simp)
  · rintro ⟨child, hget, rfl⟩
    exact Or.inl ⟨(name, child), JsMap.mem_of_get hget, rfl⟩

theorem file_mem_records {node : DirNode} (h : node.Proper) {name contentHash : JsString}
    {mode : JsNumber} :
    ManifestHashEntry.file name contentHash mode ∈ records sha256Hex node ↔
      node.files.get name = some ⟨contentHash, mode⟩ := by
  cases h with | mk _ hfiles _ _ =>
  rw [records, dirRecords_eq, fileRecords, List.mem_append, List.mem_map, List.mem_map]
  constructor
  · rintro (⟨p, -, heq⟩ | ⟨p, hp, heq⟩)
    · exact absurd heq (by simp)
    · injection heq with hname hhash hmode
      refine (JsMap.mem_iff_get hfiles).mp ?_
      rw [← hname, ← hhash, ← hmode]
      exact hp
  · intro hget
    exact Or.inr ⟨(name, ⟨contentHash, mode⟩), JsMap.mem_of_get hget, rfl⟩

theorem nodup_records {node : DirNode} (h : node.Proper) : (records sha256Hex node).Nodup := by
  cases h with | mk hdirs hfiles _ _ =>
  rw [records, dirRecords_eq, fileRecords]
  refine List.nodup_append.mpr ⟨?_, ?_, fun a ha b hb ↦ ?_⟩
  · refine List.Nodup.of_map (·.name) ?_
    rw [List.map_map]
    exact hdirs
  · refine List.Nodup.of_map (·.name) ?_
    rw [List.map_map]
    exact hfiles
  · obtain ⟨p, -, rfl⟩ := List.mem_map.mp ha
    obtain ⟨q, -, rfl⟩ := List.mem_map.mp hb
    exact nofun

end

/-- At no level is a name both a directory and a file. -/
inductive DistinctNames : DirNode → Prop where
  | mk {node : DirNode} : (node.dirs.keys ++ node.files.keys).Nodup →
      (∀ p ∈ node.dirs, DistinctNames p.2) → DistinctNames node

/-- A directory of one tree is a directory of any tree with the same files. -/
theorem exists_dir_of_lookup {node node' : DirNode} (h : node.Proper) (h' : node'.Proper)
    (hsame : ∀ q, node.lookup q = node'.lookup q) {name : JsString} {child : DirNode}
    (hget : node.dirs.get name = some child) :
    ∃ child', node'.dirs.get name = some child' ∧ ∀ q, child.lookup q = child'.lookup q := by
  have hmem : name ∈ node'.dirs.keys := by
    have hname : name ∈ node.dirs.keys := by
      by_contra hn
      rw [JsMap.get_eq_none.mpr hn] at hget
      exact absurd hget (by simp)
    obtain ⟨s, rest, hq⟩ := (DirNode.mem_dirs_iff h name).mp hname
    exact (DirNode.mem_dirs_iff h' name).mpr ⟨s, rest, by rwa [← hsame]⟩
  cases hget' : node'.dirs.get name with
  | none => exact absurd hmem (JsMap.get_eq_none.mp hget')
  | some child' =>
    refine ⟨child', rfl, fun q ↦ ?_⟩
    cases q with
    | nil => rw [DirNode.lookup_nil, DirNode.lookup_nil]
    | cons s rest =>
      have hq := hsame (name :: s :: rest)
      rwa [DirNode.lookup_cons, DirNode.lookup_cons, hget, hget', Option.bind_some,
        Option.bind_some] at hq

theorem DirNode.Proper.sub {node child : DirNode} (h : node.Proper) {name : JsString}
    (hget : node.dirs.get name = some child) : child.Proper := by
  cases h with | mk _ _ hsub _ =>
  exact hsub _ (JsMap.mem_of_get hget)

theorem DistinctNames.sub {node child : DirNode} (h : DistinctNames node) {name : JsString}
    (hget : node.dirs.get name = some child) : DistinctNames child := by
  cases h with | mk _ hsub =>
  exact hsub _ (JsMap.mem_of_get hget)

section

variable {sha256Hex : List Byte → JsString}

/-- Hashing removes the order of the records. -/
theorem build_eq_of_perm {node node' : DirNode} (h : DistinctNames node)
    (hperm : (records sha256Hex node).Perm (records sha256Hex node')) :
    build sha256Hex node = build sha256Hex node' := by
  cases h with | mk hnames _ =>
  have hnd : (((records sha256Hex node).map (·.fields)).map entryName).Nodup := by
    rwa [names_fields, names_records]
  rw [build_eq, build_eq, manifestHashForEntries, manifestHashForEntries,
    sortEntries_eq_of_perm (hperm.map (·.fields)) hnd]

/-- **The records of a directory are determined by the files below it**, up to order. -/
theorem records_perm_of_lookup {node node' : DirNode} (h : node.Proper) (h' : node'.Proper)
    (hd : DistinctNames node) (hsame : ∀ q, node.lookup q = node'.lookup q) :
    (records sha256Hex node).Perm (records sha256Hex node') := by
  induction node generalizing node' with
  | mk dirs files ih =>
    have hchild : ∀ {name child child'}, JsMap.get name dirs = some child →
        node'.dirs.get name = some child' → (∀ q, child.lookup q = child'.lookup q) →
        build sha256Hex child = build sha256Hex child' := by
      intro name child child' hget hget' hq
      have hc : DistinctNames child := hd.sub hget
      exact build_eq_of_perm hc (ih _ (JsMap.mem_of_get hget) (h.sub hget) (h'.sub hget') hc hq)
    refine (List.perm_ext_iff_of_nodup (nodup_records h) (nodup_records h')).mpr fun e ↦ ?_
    cases e with
    | file name contentHash mode =>
      rw [file_mem_records h, file_mem_records h', ← DirNode.lookup_single, ← DirNode.lookup_single,
        hsame]
    | dir name hash =>
      rw [dir_mem_records h, dir_mem_records h']
      constructor
      · rintro ⟨child, hget, rfl⟩
        obtain ⟨child', hget', hq⟩ := exists_dir_of_lookup h h' hsame hget
        exact ⟨child', hget', (hchild hget hget' hq).symm⟩
      · rintro ⟨child', hget', rfl⟩
        obtain ⟨child, hget, hq⟩ := exists_dir_of_lookup h' h (fun q ↦ (hsame q).symm) hget'
        exact ⟨child, hget, hchild hget hget' fun q ↦ (hq q).symm⟩

/-- **The hash of a tree is a function of its files.** -/
theorem build_eq_of_lookup {node node' : DirNode} (h : node.Proper) (h' : node'.Proper)
    (hd : DistinctNames node) (hsame : ∀ q, node.lookup q = node'.lookup q) :
    build sha256Hex node = build sha256Hex node' :=
  build_eq_of_perm hd (records_perm_of_lookup h h' hd hsame)

end

end Vibestudio.ContentAddressing

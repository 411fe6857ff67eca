import Mathlib
import Vibestudio.ContentAddressing.Sha256
import Vibestudio.ContentAddressing.WorktreeManifest
import Vibestudio.Shared.TreeObjects

/-!
# The stored tree of a worktree

`encodeWorktreeTree` of `packages/shared/src/contentTree/treeObjects.ts`: the tree of a listing as
the list of its encoded directory nodes, every node once, children first.

The loop over the listing is the one of `buildWorktreeManifest`; the recursion over the tree is
separate code, which also encodes and deduplicates by hash. Its effect is `build_eq_ok`: it succeeds
when every level passes the checks (`AllValid`), returns the hash of the manifest builder, and
pushes the encodings of the directories in post-order.

Deduplication by hash identifies directories whose hashes agree. Whether they agree because the
directories are the same is a property of the hash function on this tree (`NoCollision`); the last
section needs it, the rest does not.
-/

namespace Vibestudio.Shared

open Js ContentAddressing

deriving instance DecidableEq for EncodedTreeNode

/-! ## Encoding -/

/-- `nodes` and `seen`. -/
structure Built where
  nodes : List EncodedTreeNode
  seen : List JsString
deriving DecidableEq

def Built.push (built : Built) (encoded : EncodedTreeNode) : Built :=
  if encoded.treeHash ∈ built.seen then built
  else ⟨built.nodes ++ [encoded], built.seen ++ [encoded.treeHash]⟩

structure EncodedWorktreeTree where
  rootTreeHash : JsString
  stateHash : JsString
  nodes : List EncodedTreeNode
  stateNode : EncodedStateNode
deriving DecidableEq

/-- The loop over the listing. -/
def treeOf (files : List WorktreeHashFile) : Except TreeError DirNode :=
  insertFiles .path .emptyPath files .empty

section

variable (sha256Hex : List Byte → JsString)

mutual

def build : DirNode → Built → Except TreeError (JsString × Built)
  | .mk dirs files, built => (buildDirs dirs built).bind fun (entries, built) ↦
    (encodeTreeNode sha256Hex ((entries ++ fileRecords files).map (·.fields))).map fun encoded ↦
      (encoded.treeHash, built.push encoded)

/-- The loop over `node.dirs`. -/
def buildDirs : List (JsString × DirNode) → Built →
    Except TreeError (List ManifestHashEntry × Built)
  | [], built => .ok ([], built)
  | (name, child) :: rest, built => (build child built).bind fun (hash, built) ↦
    (buildDirs rest built).map fun (entries, built) ↦ (.dir name hash :: entries, built)

end

def encodeWorktreeTree (files : List WorktreeHashFile) : Except TreeError EncodedWorktreeTree :=
  (treeOf files).bind fun root ↦
    (build sha256Hex root ⟨[], []⟩).bind fun (rootTreeHash, built) ↦
      (encodeStateNode sha256Hex rootTreeHash).map fun stateNode ↦
        { rootTreeHash := rootTreeHash
          stateHash := stateNode.stateHash
          nodes := built.nodes
          stateNode := stateNode }

/-- The encoding of a directory, when it passes the checks. -/
def encoded (node : DirNode) : EncodedTreeNode :=
  { treeHash := ContentAddressing.build sha256Hex node
    canonicalText := canonicalText (nodeValue (sortEntries ((records sha256Hex node).map (·.fields))))
    entries := sortEntries ((records sha256Hex node).map (·.fields)) }

/-- Every level passes the checks of the encoder. -/
inductive AllValid : DirNode → Prop where
  | mk {node : DirNode} : ValidEntries ((records sha256Hex node).map (·.fields)) →
      (∀ p ∈ node.dirs, AllValid p.2) → AllValid node

mutual

/-- The directories of a tree, children first. -/
def postorder : DirNode → List DirNode
  | .mk dirs files => postorderDirs dirs ++ [.mk dirs files]

def postorderDirs : List (JsString × DirNode) → List DirNode
  | [] => []
  | (_, child) :: rest => postorder child ++ postorderDirs rest

end

/-- The encodings pushed one by one. -/
def pushAll (nodes : List DirNode) (built : Built) : Built :=
  nodes.foldl (fun built node ↦ built.push (encoded sha256Hex node)) built

end

section

variable {sha256Hex : List Byte → JsString}

theorem encodeTreeNode_records {node : DirNode} {n : EncodedTreeNode} :
    encodeTreeNode sha256Hex ((records sha256Hex node).map (·.fields)) = .ok n ↔
      ValidEntries ((records sha256Hex node).map (·.fields)) ∧ n = encoded sha256Hex node := by
  rw [encodeTreeNode_eq_ok, encoded, build_eq, manifestHashForEntries, manifestHashForEntries]
  refine and_congr_right fun hvalid ↦ ?_
  rw [sortEntries_of_sorted (strictly_sorted_sortEntries hvalid.nodup)]

theorem allValid_mk {dirs : List (JsString × DirNode)} {files : List (JsString × FileInfo)} :
    AllValid sha256Hex (.mk dirs files) ↔
      ValidEntries ((records sha256Hex (.mk dirs files)).map (·.fields)) ∧
        ∀ p ∈ dirs, AllValid sha256Hex p.2 :=
  ⟨fun h ↦ by cases h with | mk h hsub => exact ⟨h, hsub⟩, fun ⟨h, hsub⟩ ↦ .mk h hsub⟩

theorem pushAll_append (l l' : List DirNode) (built : Built) :
    pushAll sha256Hex (l ++ l') built = pushAll sha256Hex l' (pushAll sha256Hex l built) :=
  List.foldl_append

mutual

/-- **What the recursion does to a directory.** -/
theorem build_eq_ok : ∀ {node : DirNode} {built : Built} {r : JsString × Built},
    build sha256Hex node built = .ok r ↔ AllValid sha256Hex node ∧
      r = (ContentAddressing.build sha256Hex node, pushAll sha256Hex (postorder node) built)
  | .mk dirs files, built, r => by
    rw [build, bind_eq_ok, allValid_mk]
    constructor
    · rintro ⟨⟨entries, built'⟩, hdirs, h⟩
      obtain ⟨hsub, heq⟩ := buildDirs_eq_ok.mp hdirs
      obtain ⟨rfl, rfl⟩ := Prod.mk.inj heq
      obtain ⟨n, hn, rfl⟩ := map_eq_ok.mp h
      have hrecords : encodeTreeNode sha256Hex ((records sha256Hex (.mk dirs files)).map (·.fields))
          = .ok n := hn
      obtain ⟨hvalid, rfl⟩ := encodeTreeNode_records.mp hrecords
      refine ⟨⟨hvalid, hsub⟩, ?_⟩
      rw [postorder, pushAll_append]
      rfl
    · rintro ⟨⟨hvalid, hsub⟩, rfl⟩
      refine ⟨_, buildDirs_eq_ok.mpr ⟨hsub, rfl⟩, ?_⟩
      rw [postorder, pushAll_append]
      exact map_eq_ok.mpr ⟨_, encodeTreeNode_records.mpr ⟨hvalid, rfl⟩, rfl⟩

theorem buildDirs_eq_ok : ∀ {dirs : List (JsString × DirNode)} {built : Built}
    {r : List ManifestHashEntry × Built},
    buildDirs sha256Hex dirs built = .ok r ↔ (∀ p ∈ dirs, AllValid sha256Hex p.2) ∧
      r = (dirRecords sha256Hex dirs, pushAll sha256Hex (postorderDirs dirs) built)
  | [], built, r => by
    rw [buildDirs, Except.ok.injEq]
    exact ⟨fun h ↦ ⟨fun p hp ↦ absurd hp List.not_mem_nil, h.symm⟩, fun h ↦ h.2.symm⟩
  | (name, child) :: rest, built, r => by
    rw [buildDirs, bind_eq_ok, List.forall_mem_cons, dirRecords, postorderDirs, pushAll_append]
    constructor
    · rintro ⟨⟨hash, built'⟩, hchild, h⟩
      obtain ⟨hvalid, heq⟩ := build_eq_ok.mp hchild
      obtain ⟨rfl, rfl⟩ := Prod.mk.inj heq
      obtain ⟨⟨entries, built''⟩, hrest, rfl⟩ := map_eq_ok.mp h
      obtain ⟨hsub, heq⟩ := buildDirs_eq_ok.mp hrest
      obtain ⟨rfl, rfl⟩ := Prod.mk.inj heq
      exact ⟨⟨hvalid, hsub⟩, rfl⟩
    · rintro ⟨⟨hvalid, hsub⟩, rfl⟩
      exact ⟨_, build_eq_ok.mpr ⟨hvalid, rfl⟩,
        map_eq_ok.mpr ⟨_, buildDirs_eq_ok.mpr ⟨hsub, rfl⟩, rfl⟩⟩

end

theorem encodeWorktreeTree_eq_ok {files : List WorktreeHashFile} {enc : EncodedWorktreeTree} :
    encodeWorktreeTree sha256Hex files = .ok enc ↔
      ∃ root, treeOf files = .ok root ∧ AllValid sha256Hex root ∧
        isTreeHash (ContentAddressing.build sha256Hex root) = true ∧
        enc = ⟨ContentAddressing.build sha256Hex root,
          stateHashForRoot sha256Hex (ContentAddressing.build sha256Hex root),
          (pushAll sha256Hex (postorder root) ⟨[], []⟩).nodes,
          ⟨stateHashForRoot sha256Hex (ContentAddressing.build sha256Hex root),
            canonicalText (rootPointer (ContentAddressing.build sha256Hex root))⟩⟩ := by
  rw [encodeWorktreeTree, bind_eq_ok]
  refine exists_congr fun root ↦ and_congr_right fun _ ↦ ?_
  rw [bind_eq_ok]
  constructor
  · rintro ⟨⟨rootHash, built⟩, hbuild, h⟩
    obtain ⟨hvalid, heq⟩ := build_eq_ok.mp hbuild
    obtain ⟨rfl, rfl⟩ := Prod.mk.inj heq
    obtain ⟨state, hstate, rfl⟩ := map_eq_ok.mp h
    obtain ⟨hroot, rfl⟩ := encodeStateNode_eq_ok.mp hstate
    exact ⟨hvalid, hroot, rfl⟩
  · rintro ⟨hvalid, hroot, rfl⟩
    exact ⟨_, build_eq_ok.mpr ⟨hvalid, rfl⟩,
      map_eq_ok.mpr ⟨_, encodeStateNode_eq_ok.mpr ⟨hroot, rfl⟩, rfl⟩⟩

end

/-! ## The nodes -/

/-- The second is a directory of the first, at any depth. -/
inductive Contains : DirNode → DirNode → Prop where
  | refl (node : DirNode) : Contains node node
  | step {node dir : DirNode} {p : JsString × DirNode} :
      p ∈ node.dirs → Contains p.2 dir → Contains node dir

mutual

theorem mem_postorder : ∀ {node dir : DirNode}, dir ∈ postorder node ↔ Contains node dir
  | .mk dirs files, dir => by
    rw [postorder, List.mem_append, List.mem_singleton, mem_postorderDirs]
    constructor
    · rintro (⟨p, hp, h⟩ | rfl)
      · exact .step hp h
      · exact .refl _
    · intro h
      cases h with
      | refl => exact Or.inr rfl
      | step hp h => exact Or.inl ⟨_, hp, h⟩

theorem mem_postorderDirs : ∀ {dirs : List (JsString × DirNode)} {dir : DirNode},
    dir ∈ postorderDirs dirs ↔ ∃ p ∈ dirs, Contains p.2 dir
  | [], dir => by
    rw [postorderDirs]
    exact ⟨fun h ↦ absurd h List.not_mem_nil, fun ⟨p, hp, _⟩ ↦ absurd hp List.not_mem_nil⟩
  | (name, child) :: rest, dir => by
    rw [postorderDirs, List.mem_append, mem_postorder, mem_postorderDirs, List.exists_mem_cons_iff]

end

theorem Contains.trans {a b c : DirNode} (h : Contains a b) (h' : Contains b c) :
    Contains a c := by
  induction h with
  | refl => exact h'
  | step hp _ ih => exact .step hp (ih h')

section

variable {sha256Hex : List Byte → JsString}

/-- The hashes of the directories that a node refers to. -/
def childHashes (n : EncodedTreeNode) : Set JsString :=
  {hash | ∃ name, (ManifestHashEntry.dir name hash).fields ∈ n.entries}

/-- What holds of the two accumulators: no hash twice, and every reference goes backwards. -/
structure Built.Good (built : Built) : Prop where
  seen_eq : built.seen = built.nodes.map (·.treeHash)
  nodup : (built.nodes.map (·.treeHash)).Nodup
  backwards : ∀ before n after, built.nodes = before ++ n :: after →
    ∀ hash ∈ childHashes n, hash ∈ before.map (·.treeHash)

theorem Built.Good.empty : Built.Good ⟨[], []⟩ :=
  ⟨rfl, List.nodup_nil, fun before n after h ↦ absurd h.symm (by simp)⟩

/-- A push keeps the invariant when everything the node refers to is there. -/
theorem Built.Good.push {built : Built} (h : built.Good) {n : EncodedTreeNode}
    (hchild : ∀ hash ∈ childHashes n, hash ∈ built.seen) : (built.push n).Good := by
  rw [Built.push]
  split_ifs with hseen
  · exact h
  · rw [h.seen_eq] at hseen hchild
    refine ⟨?_, ?_, fun before m after heq ↦ ?_⟩
    · rw [List.map_append, h.seen_eq]
      rfl
    · rw [List.map_append, List.nodup_append]
      refine ⟨h.nodup, List.nodup_singleton _, fun a ha b hb ↦ ?_⟩
      rw [List.map_singleton, List.mem_singleton] at hb
      rintro rfl
      exact hseen (hb ▸ ha)
    · rcases List.eq_nil_or_concat after with rfl | ⟨after, last, rfl⟩
      · obtain ⟨rfl, hm⟩ := List.append_inj' heq rfl
        obtain rfl := List.cons.inj hm |>.1
        exact hchild
      · rw [List.concat_eq_append, ← List.cons_append, ← List.append_assoc] at heq
        exact h.backwards before m after (List.append_inj' heq rfl).1

theorem Built.mem_seen_push {built : Built} {n : EncodedTreeNode} {hash : JsString} :
    hash ∈ (built.push n).seen ↔ hash ∈ built.seen ∨ hash = n.treeHash := by
  rw [Built.push]
  split_ifs with hseen
  · exact ⟨Or.inl, fun h ↦ h.elim id fun h ↦ h ▸ hseen⟩
  · rw [List.mem_append, List.mem_singleton]

theorem Built.mem_nodes_push {built : Built} {n m : EncodedTreeNode}
    (h : m ∈ (built.push n).nodes) : m ∈ built.nodes ∨ m = n := by
  rw [Built.push] at h
  split_ifs at h
  · exact Or.inl h
  · rwa [List.mem_append, List.mem_singleton] at h

theorem mem_seen_pushAll {l : List DirNode} : ∀ {built : Built} {hash : JsString},
    hash ∈ (pushAll sha256Hex l built).seen ↔
      hash ∈ built.seen ∨ ∃ dir ∈ l, ContentAddressing.build sha256Hex dir = hash := by
  induction l with
  | nil => simp [pushAll]
  | cons dir l ih =>
    intro built hash
    rw [pushAll, List.foldl_cons, ← pushAll, ih, Built.mem_seen_push, List.exists_mem_cons_iff,
      or_assoc, encoded, eq_comm]

theorem mem_nodes_pushAll {l : List DirNode} : ∀ {built : Built} {n : EncodedTreeNode},
    n ∈ (pushAll sha256Hex l built).nodes →
      n ∈ built.nodes ∨ ∃ dir ∈ l, n = encoded sha256Hex dir := by
  induction l with
  | nil => exact fun h ↦ Or.inl h
  | cons dir l ih =>
    intro built n h
    rw [pushAll, List.foldl_cons, ← pushAll] at h
    rcases ih h with h | ⟨dir', hmem, rfl⟩
    · rcases Built.mem_nodes_push h with h | rfl
      · exact Or.inl h
      · exact Or.inr ⟨dir, List.mem_cons_self, rfl⟩
    · exact Or.inr ⟨dir', List.mem_cons_of_mem _ hmem, rfl⟩

theorem mem_entries_encoded {node : DirNode} {e : ManifestHashEntry} :
    e.fields ∈ (encoded sha256Hex node).entries ↔ e ∈ records sha256Hex node := by
  rw [encoded, (sortEntries_perm _).mem_iff]
  exact List.mem_map_of_injective ManifestHashEntry.fields_injective

/-- A reference in the encoding of a directory is to one of its directories. -/
theorem exists_of_mem_childHashes {node : DirNode} {hash : JsString}
    (h : hash ∈ childHashes (encoded sha256Hex node)) :
    ∃ p ∈ node.dirs, ContentAddressing.build sha256Hex p.2 = hash := by
  obtain ⟨name, hmem⟩ := h
  rw [mem_entries_encoded, records, List.mem_append, dirRecords_eq, List.mem_map] at hmem
  rcases hmem with ⟨p, hp, heq⟩ | hmem
  · injection heq with _ hhash
    exact ⟨p, hp, hhash⟩
  · obtain ⟨p, -, heq⟩ := List.mem_map.mp hmem
    exact absurd heq (by simp)

mutual

/-- **The accumulators stay good through the recursion**: a directory is pushed after everything
below it. -/
theorem Built.Good.pushAll : ∀ (node : DirNode) {built : Built}, built.Good →
    (pushAll sha256Hex (postorder node) built).Good
  | .mk dirs files, built, h => by
    rw [postorder, pushAll_append]
    refine (Built.Good.pushAllDirs dirs h).push fun hash hhash ↦ ?_
    obtain ⟨p, hp, rfl⟩ := exists_of_mem_childHashes hhash
    exact mem_seen_pushAll.mpr
      (Or.inr ⟨p.2, mem_postorderDirs.mpr ⟨p, hp, .refl _⟩, rfl⟩)

theorem Built.Good.pushAllDirs : ∀ (dirs : List (JsString × DirNode)) {built : Built}, built.Good →
    (Shared.pushAll sha256Hex (postorderDirs dirs) built).Good
  | [], _, h => h
  | (name, child) :: rest, built, h => by
    rw [postorderDirs, pushAll_append]
    exact Built.Good.pushAllDirs rest (Built.Good.pushAll child h)

end

/-! ## Agreement with the manifest -/

theorem AllValid.distinctNames {node : DirNode} (h : AllValid sha256Hex node) :
    DistinctNames node := by
  induction h with
  | mk hvalid _ ih =>
    refine .mk ?_ ih
    rw [← names_records sha256Hex, ← names_fields]
    exact hvalid.nodup

/-- A tree with the same files passes the same checks. -/
theorem AllValid.congr {node node' : DirNode} (h : AllValid sha256Hex node) (hp : node.Proper)
    (hp' : node'.Proper) (hsame : ∀ q, node.lookup q = node'.lookup q) :
    AllValid sha256Hex node' := by
  induction h generalizing node' with
  | @mk node hvalid hsub ih =>
    have hd : DistinctNames node := (AllValid.mk hvalid hsub).distinctNames
    refine .mk (hvalid.perm ((records_perm_of_lookup hp hp' hd hsame).map _)) fun p hmem ↦ ?_
    have hget' := hp'.get_of_mem hmem
    obtain ⟨child, hget, hq⟩ := exists_dir_of_lookup hp' hp (fun q ↦ (hsame q).symm) hget'
    exact ih _ (JsMap.mem_of_get hget) (hp.sub hget) (hp'.sub hget') fun q ↦ (hq q).symm

/-- The listing in another order gives a tree with the same files. -/
theorem lookup_treeOf_of_perm {files files' : List WorktreeHashFile} (hperm : files.Perm files')
    (hnd : (files.map (·.path)).Nodup) {root root' : DirNode} (h : treeOf files = .ok root)
    (h' : treeOf files' = .ok root') (q : List JsString) : root.lookup q = root'.lookup q := by
  have hnd' : (files'.map (·.path)).Nodup := (hperm.map _).nodup_iff.mp hnd
  refine Option.ext fun info ↦ ?_
  rw [lookup_insertFiles h, lookup_insertFiles h', DirNode.lookup_empty]
  simp only [isLast_iff_mem hnd, isLast_iff_mem hnd', hperm.mem_iff]

theorem proper_treeOf {files : List WorktreeHashFile} {root : DirNode}
    (h : treeOf files = .ok root) : root.Proper := proper_insertFiles .empty h

/-- An accepted listing is accepted by the manifest builder, with the same hashes. -/
theorem buildWorktreeManifest_of_encode {files : List WorktreeHashFile} {enc : EncodedWorktreeTree}
    (h : encodeWorktreeTree sha256Hex files = .ok enc) :
    ∃ manifest, buildWorktreeManifest sha256Hex files = .ok manifest ∧
      manifest.rootHash = enc.rootTreeHash ∧ manifest.stateHash = enc.stateHash := by
  obtain ⟨root, hroot, -, -, rfl⟩ := encodeWorktreeTree_eq_ok.mp h
  refine ⟨_, map_eq_ok.mpr ⟨root, insertFiles_congr hroot, rfl⟩, ?_⟩
  have hhash : (if files.length = 0 then EMPTY_MANIFEST_HASH sha256Hex
      else ContentAddressing.build sha256Hex root) = ContentAddressing.build sha256Hex root := by
    split_ifs with hlen
    · obtain rfl := List.length_eq_zero_iff.mp hlen
      obtain rfl : DirNode.empty = root := Except.ok.inj hroot
      rfl
    · rfl
  exact ⟨hhash, congrArg (stateHashForRoot sha256Hex) hhash⟩

/-- **With distinct paths the order of the listing does not matter.** -/
theorem encodeWorktreeTree_perm {files files' : List WorktreeHashFile} (hperm : files.Perm files')
    (hnd : (files.map (·.path)).Nodup) {enc : EncodedWorktreeTree}
    (h : encodeWorktreeTree sha256Hex files = .ok enc) :
    ∃ enc', encodeWorktreeTree sha256Hex files' = .ok enc' ∧
      enc'.rootTreeHash = enc.rootTreeHash ∧ enc'.stateHash = enc.stateHash := by
  obtain ⟨root, hroot, hvalid, hhash, rfl⟩ := encodeWorktreeTree_eq_ok.mp h
  obtain ⟨root', hroot'⟩ : ∃ root', treeOf files' = .ok root' :=
    exists_insertFiles.mpr fun file hfile ↦
      exists_insertFiles.mp ⟨root, hroot⟩ file (hperm.mem_iff.mpr hfile)
  have hsame := lookup_treeOf_of_perm hperm hnd hroot hroot'
  have hp := proper_treeOf hroot
  have hp' := proper_treeOf hroot'
  have heq : ContentAddressing.build sha256Hex root = ContentAddressing.build sha256Hex root' :=
    build_eq_of_lookup hp hp' hvalid.distinctNames hsame
  refine ⟨_, encodeWorktreeTree_eq_ok.mpr
    ⟨root', hroot', hvalid.congr hp hp' hsame, heq ▸ hhash, rfl⟩, heq.symm, ?_⟩
  rw [heq]

/-! ## Following references -/

/-- No two directories of the tree with different texts have one hash. -/
def NoCollision (sha256Hex : List Byte → JsString) (root : DirNode) : Prop :=
  ∀ dir dir', Contains root dir → Contains root dir' →
    (encoded sha256Hex dir).treeHash = (encoded sha256Hex dir').treeHash →
      (encoded sha256Hex dir).canonicalText = (encoded sha256Hex dir').canonicalText

/-- Reading a tree out of its nodes: from a hash along names to a file. -/
inductive Follows (nodes : List EncodedTreeNode) : JsString → List JsString → FileInfo → Prop where
  | file {n : EncodedTreeNode} {name contentHash : JsString} {mode : JsNumber} : n ∈ nodes →
      (ManifestHashEntry.file name contentHash mode).fields ∈ n.entries →
      Follows nodes n.treeHash [name] ⟨contentHash, mode⟩
  | dir {n : EncodedTreeNode} {name childHash : JsString} {names : List JsString}
      {info : FileInfo} : n ∈ nodes → (ManifestHashEntry.dir name childHash).fields ∈ n.entries →
      Follows nodes childHash names info → Follows nodes n.treeHash (name :: names) info

theorem AllValid.valid {node : DirNode} (h : AllValid sha256Hex node) :
    ValidEntries ((records sha256Hex node).map (·.fields)) := by
  cases h with | mk hvalid _ => exact hvalid

theorem AllValid.of_contains {node dir : DirNode} (h : AllValid sha256Hex node)
    (hc : Contains node dir) : AllValid sha256Hex dir := by
  induction hc with
  | refl => exact h
  | step hp _ ih =>
    cases h with | mk _ hsub => exact ih (hsub _ hp)

theorem areRecords_fields (E : List ManifestHashEntry) : AreRecords E (E.map (·.fields)) := by
  induction E with
  | nil => exact .nil
  | cons e E ih => exact .cons e.represents_fields ih

theorem AreRecords.unique {E E' : List ManifestHashEntry} {entries : List (Props JsData)}
    (h : AreRecords E entries) (h' : AreRecords E' entries) : E = E' := by
  induction h generalizing E' with
  | nil => cases h' with | nil => rfl
  | cons hab _ ih =>
    cases h' with | cons hab' h' =>
    rw [hab.unique hab', ih h']

/-- Directories with one text have the same records. -/
theorem mem_records_congr {dir dir' : DirNode} (h : AllValid sha256Hex dir)
    (h' : AllValid sha256Hex dir')
    (htext : (encoded sha256Hex dir).canonicalText = (encoded sha256Hex dir').canonicalText)
    (e : ManifestHashEntry) : e ∈ records sha256Hex dir ↔ e ∈ records sha256Hex dir' := by
  obtain ⟨D, hD, hr⟩ := decodeTreeNode_encodeTreeNode (areRecords_fields _)
    (encodeTreeNode_records.mpr ⟨h.valid, rfl⟩)
  obtain ⟨D', hD', hr'⟩ := decodeTreeNode_encodeTreeNode (areRecords_fields _)
    (encodeTreeNode_records.mpr ⟨h'.valid, rfl⟩)
  rw [← htext, hD, Except.ok.injEq] at hD'
  subst hD'
  rw [← mem_sortRecords, hr.unique hr', mem_sortRecords]

section

variable {root : DirNode} {nodes : List EncodedTreeNode}
  (hvalid : AllValid sha256Hex root) (hcol : NoCollision sha256Hex root)
  (hall : ∀ dir, Contains root dir → ContentAddressing.build sha256Hex dir ∈ nodes.map (·.treeHash))
  (honly : ∀ n ∈ nodes, ∃ dir, Contains root dir ∧ n = encoded sha256Hex dir)

include hvalid hcol honly in
/-- A node with the hash of a directory has its records. -/
theorem mem_entries_iff {n : EncodedTreeNode} (hn : n ∈ nodes) {dir : DirNode}
    (hdir : Contains root dir) (hash : n.treeHash = ContentAddressing.build sha256Hex dir)
    (e : ManifestHashEntry) : e.fields ∈ n.entries ↔ e ∈ records sha256Hex dir := by
  obtain ⟨dir', hdir', rfl⟩ := honly n hn
  rw [mem_entries_encoded]
  exact mem_records_congr (hvalid.of_contains hdir') (hvalid.of_contains hdir)
    (hcol dir' dir hdir' hdir hash) e

include hvalid hcol hall honly in
/-- **The references lead from a directory exactly to its files.** -/
theorem follows_iff {dir : DirNode} (hp : dir.Proper) (hdir : Contains root dir)
    {names : List JsString} {info : FileInfo} :
    Follows nodes (ContentAddressing.build sha256Hex dir) names info ↔
      dir.lookup names = some info := by
  induction dir generalizing names info with
  | mk dirs files ih =>
    constructor
    · intro h
      generalize hhash : ContentAddressing.build sha256Hex (.mk dirs files) = hash at h
      cases h with
      | @file n name contentHash mode hn hmem =>
        rw [mem_entries_iff hvalid hcol honly hn hdir hhash.symm, file_mem_records hp] at hmem
        rw [DirNode.lookup_single, hmem]
      | @dir n name childHash names info hn hmem hrest =>
        rw [mem_entries_iff hvalid hcol honly hn hdir hhash.symm, dir_mem_records hp] at hmem
        obtain ⟨child, hget, rfl⟩ := hmem
        have hchild : child.lookup names = some info :=
          (ih _ (JsMap.mem_of_get hget) (hp.sub hget)
            (hdir.trans (.step (JsMap.mem_of_get hget) (.refl _)))).mp hrest
        cases names with
        | nil =>
          rw [DirNode.lookup_nil] at hchild
          exact absurd hchild (by simp)
        | cons s rest => rwa [DirNode.lookup_cons, hget, Option.bind_some]
    · intro h
      obtain ⟨n, hn, hhash⟩ := List.mem_map.mp (hall _ hdir)
      have hmem := mem_entries_iff hvalid hcol honly hn hdir hhash
      rw [← hhash]
      match names with
      | [] =>
        rw [DirNode.lookup_nil] at h
        exact absurd h (by simp)
      | [name] =>
        rw [DirNode.lookup_single] at h
        exact .file hn ((hmem _).mpr ((file_mem_records hp).mpr h))
      | name :: s :: rest =>
        rw [DirNode.lookup_cons] at h
        obtain ⟨child, hget, hchild⟩ := Option.bind_eq_some_iff.mp h
        refine .dir hn ((hmem _).mpr ((dir_mem_records hp).mpr ⟨child, hget, rfl⟩)) ?_
        exact (ih _ (JsMap.mem_of_get hget) (hp.sub hget)
          (hdir.trans (.step (JsMap.mem_of_get hget) (.refl _)))).mpr hchild

end

/-- A directory of a tree lies at some path. -/
theorem exists_path_of_contains {node dir : DirNode} (h : Contains node dir) (hp : node.Proper) :
    dir.Proper ∧ ∃ pre, ∀ s rest, node.lookup (pre ++ s :: rest) = dir.lookup (s :: rest) := by
  induction h with
  | refl node => exact ⟨hp, [], fun s rest ↦ rfl⟩
  | @step node dir p hmem _ ih =>
    have hget := hp.get_of_mem hmem
    obtain ⟨hdir, pre, hpre⟩ := ih (hp.sub hget)
    refine ⟨hdir, p.1 :: pre, fun s rest ↦ ?_⟩
    rw [← hpre, List.cons_append, DirNode.lookup_cons_append, hget, Option.bind_some]

/-- A directory below the root has a file. -/
theorem exists_file_of_contains {node dir : DirNode} {p : JsString × DirNode} (hp : node.Proper)
    (hmem : p ∈ node.dirs) (h : Contains p.2 dir) : ∃ q, dir.lookup q ≠ none := by
  obtain ⟨node', p', hp', hmem', rfl⟩ :
      ∃ node' p', DirNode.Proper node' ∧ p' ∈ node'.dirs ∧ p'.2 = dir := by
    generalize hc : p.2 = child at h
    induction h generalizing node p with
    | refl _ => exact ⟨node, p, hp, hmem, hc⟩
    | step hmem' _ ih =>
      subst hc
      refine ih ?_ hmem' rfl
      cases hp with | mk _ _ hsub _ => exact hsub p hmem
  cases hp' with | mk _ _ _ hne => exact hne p' hmem'

/-- No directory below the root has the files of the root. -/
theorem not_lookup_eq {node dir : DirNode} {p : JsString × DirNode} (hp : node.Proper)
    (hmem : p ∈ node.dirs) (h : Contains p.2 dir) : ∃ q, node.lookup q ≠ dir.lookup q := by
  by_contra hall
  push Not at hall
  have hget := hp.get_of_mem hmem
  obtain ⟨-, pre, hpre⟩ := exists_path_of_contains h (hp.sub hget)
  -- A path to a file of the directory can be prolonged at the front, again and again.
  have hlong : ∀ k, ∃ q, dir.lookup q ≠ none ∧ k ≤ q.length := by
    intro k
    induction k with
    | zero => exact (exists_file_of_contains hp hmem h).imp fun q hq ↦ ⟨hq, Nat.zero_le _⟩
    | succ k ih =>
      obtain ⟨q, hq, hlen⟩ := ih
      cases q with
      | nil => exact absurd (DirNode.lookup_nil dir) hq
      | cons s rest =>
        have hroot : node.lookup (p.1 :: (pre ++ s :: rest)) = dir.lookup (s :: rest) := by
          rw [← hpre, DirNode.lookup_cons_append, hget, Option.bind_some]
        refine ⟨p.1 :: (pre ++ s :: rest), ?_, ?_⟩
        · rwa [← hall, hroot]
        · rw [List.length_cons, List.length_append]
          omega
  obtain ⟨q, hq, hlen⟩ := hlong (sizeOf dir)
  obtain ⟨info, hinfo⟩ := Option.ne_none_iff_exists'.mp hq
  exact absurd (DirNode.length_lt_sizeOf hinfo) (by omega)

/-! ## The encoded tree -/

/-- Directories with one text have one encoding. -/
theorem encoded_congr {dir dir' : DirNode} (h : AllValid sha256Hex dir)
    (h' : AllValid sha256Hex dir')
    (htext : (encoded sha256Hex dir).canonicalText = (encoded sha256Hex dir').canonicalText) :
    encoded sha256Hex dir = encoded sha256Hex dir' := by
  have hperm : ((records sha256Hex dir).map (·.fields)).Perm
      ((records sha256Hex dir').map (·.fields)) := by
    refine (List.perm_ext_iff_of_nodup (List.Nodup.of_map _ h.valid.nodup)
      (List.Nodup.of_map _ h'.valid.nodup)).mpr fun entry ↦ ?_
    simp only [List.mem_map, mem_records_congr h h' htext]
  have hsort := sortEntries_eq_of_perm hperm h.valid.nodup
  rw [encoded, encoded, build_eq, build_eq, manifestHashForEntries, manifestHashForEntries, hsort]

/-- **The nodes of an encoded tree**, under no assumption on the hash function. -/
theorem nodes_of_encode {files : List WorktreeHashFile} {enc : EncodedWorktreeTree}
    (h : encodeWorktreeTree sha256Hex files = .ok enc) :
    ∃ root, treeOf files = .ok root ∧ AllValid sha256Hex root ∧
      enc.rootTreeHash = (encoded sha256Hex root).treeHash ∧
      (Built.Good ⟨enc.nodes, enc.nodes.map (·.treeHash)⟩) ∧
      (∀ n ∈ enc.nodes, ∃ dir, Contains root dir ∧ n = encoded sha256Hex dir) ∧
      ∀ dir, Contains root dir →
        ContentAddressing.build sha256Hex dir ∈ enc.nodes.map (·.treeHash) := by
  obtain ⟨root, hroot, hvalid, -, rfl⟩ := encodeWorktreeTree_eq_ok.mp h
  have hgood : (pushAll sha256Hex (postorder root) ⟨[], []⟩).Good := Built.Good.empty.pushAll root
  refine ⟨root, hroot, hvalid, rfl, ?_, fun n hn ↦ ?_, fun dir hdir ↦ ?_⟩
  · exact ⟨rfl, hgood.nodup, hgood.backwards⟩
  · rcases mem_nodes_pushAll hn with hn | ⟨dir, hdir, rfl⟩
    · exact absurd hn List.not_mem_nil
    · exact ⟨dir, mem_postorder.mp hdir, rfl⟩
  · rw [← hgood.seen_eq]
    exact mem_seen_pushAll.mpr (Or.inr ⟨dir, mem_postorder.mpr hdir, rfl⟩)

/-- Without collisions the root is pushed last. -/
theorem root_last {files : List WorktreeHashFile} {enc : EncodedWorktreeTree}
    (h : encodeWorktreeTree sha256Hex files = .ok enc) {root : DirNode}
    (hroot : treeOf files = .ok root) (hcol : NoCollision sha256Hex root) :
    ∃ before, enc.nodes = before ++ [encoded sha256Hex root] := by
  obtain ⟨root', hroot', hvalid, -, -, honly, hall⟩ := nodes_of_encode h
  rw [hroot, Except.ok.injEq] at hroot'
  subst hroot'
  have hp := proper_treeOf hroot
  obtain ⟨root', hroot', -, -, rfl⟩ := encodeWorktreeTree_eq_ok.mp h
  rw [hroot, Except.ok.injEq] at hroot'
  subst hroot'
  cases hnode : root with
  | mk dirs files =>
    rw [← hnode]
    refine ⟨(pushAll sha256Hex (postorderDirs dirs) ⟨[], []⟩).nodes, ?_⟩
    have hpush : pushAll sha256Hex (postorder root) ⟨[], []⟩
        = (pushAll sha256Hex (postorderDirs dirs) ⟨[], []⟩).push (encoded sha256Hex root) := by
      rw [hnode, postorder, pushAll_append]
      rfl
    have hnew : (encoded sha256Hex root).treeHash ∉
        (pushAll sha256Hex (postorderDirs dirs) ⟨[], []⟩).seen := by
      intro hseen
      rcases mem_seen_pushAll.mp hseen with hseen | ⟨dir, hdir, heq⟩
      · exact absurd hseen List.not_mem_nil
      obtain ⟨p, hmem, hc⟩ := mem_postorderDirs.mp hdir
      have hmem' : p ∈ root.dirs := by rwa [hnode]
      have hdir' : Contains root dir := .step hmem' hc
      obtain ⟨q, hq⟩ := not_lookup_eq hp hmem' hc
      refine hq (Option.ext fun info ↦ ?_)
      rw [← follows_iff hvalid hcol hall honly hp (.refl root),
        ← follows_iff hvalid hcol hall honly (exists_path_of_contains hdir' hp).1 hdir', heq]
      rfl
    change (pushAll sha256Hex (postorder root) ⟨[], []⟩).nodes = _
    rw [hpush, Built.push, if_neg hnew]

/-- **The encoded tree of a listing.** It has the hashes of the manifest, in whatever order the
files are listed; its nodes are the directories, each once and after everything it refers to; and,
when no two different directories of the tree have one hash, the root is the last node and the
references lead from it to the last entry listed at each path. -/
theorem encodeWorktreeTree_refines {files : List WorktreeHashFile} {enc : EncodedWorktreeTree}
    (h : encodeWorktreeTree sha256Hex files = .ok enc) :
    (∃ manifest, buildWorktreeManifest sha256Hex files = .ok manifest ∧
      manifest.rootHash = enc.rootTreeHash ∧ manifest.stateHash = enc.stateHash) ∧
    ((files.map (·.path)).Nodup → ∀ files', files.Perm files' → ∃ enc' manifest',
      encodeWorktreeTree sha256Hex files' = .ok enc' ∧
      buildWorktreeManifest sha256Hex files' = .ok manifest' ∧
      enc'.rootTreeHash = enc.rootTreeHash ∧ enc'.stateHash = enc.stateHash ∧
      manifest'.rootHash = enc.rootTreeHash ∧ manifest'.stateHash = enc.stateHash) ∧
    ((files.map (·.path)).Nodup → ∀ file, IsLast files file ↔ file ∈ files) ∧
    ∃ root, treeOf files = .ok root ∧ (enc.nodes.map (·.treeHash)).Nodup ∧
      (∀ n ∈ enc.nodes, ∃ dir, Contains root dir ∧ n = encoded sha256Hex dir) ∧
      (∀ dir, Contains root dir → ∃ n ∈ enc.nodes, n.treeHash = (encoded sha256Hex dir).treeHash) ∧
      (∀ before n after, enc.nodes = before ++ n :: after →
        ∀ hash ∈ childHashes n, hash ∈ before.map (·.treeHash)) ∧
      (NoCollision sha256Hex root →
        (∀ dir, Contains root dir → encoded sha256Hex dir ∈ enc.nodes) ∧
        (∃ before, enc.nodes = before ++ [encoded sha256Hex root]) ∧
        (encoded sha256Hex root).treeHash = enc.rootTreeHash ∧
        ∀ file, (∃ names, Follows enc.nodes enc.rootTreeHash names file.info ∧
          [47].intercalate names = file.path) ↔ IsLast files file) := by
  refine ⟨buildWorktreeManifest_of_encode h, fun hnd files' hperm ↦ ?_,
    fun hnd file ↦ isLast_iff_mem hnd, ?_⟩
  · obtain ⟨enc', h', hhash, hstate⟩ := encodeWorktreeTree_perm hperm hnd h
    obtain ⟨manifest', hmanifest, hhash', hstate'⟩ := buildWorktreeManifest_of_encode h'
    exact ⟨enc', manifest', h', hmanifest, hhash, hstate, hhash'.trans hhash, hstate'.trans hstate⟩
  obtain ⟨root, hroot, hvalid, hhash, hgood, honly, hall⟩ := nodes_of_encode h
  refine ⟨root, hroot, hgood.nodup, honly, fun dir hdir ↦ List.mem_map.mp (hall dir hdir),
    hgood.backwards, fun hcol ↦ ⟨fun dir hdir ↦ ?_, root_last h hroot hcol, hhash.symm,
      fun file ↦ ?_⟩⟩
  · obtain ⟨n, hn, heq⟩ := List.mem_map.mp (hall dir hdir)
    obtain ⟨dir', hdir', rfl⟩ := honly n hn
    have hsame := encoded_congr (hvalid.of_contains hdir') (hvalid.of_contains hdir)
      (hcol dir' dir hdir' hdir heq)
    rwa [← hsame]
  · have hp := proper_treeOf hroot
    have hlookup : ∀ names, root.lookup names = some file.info ↔
        ∃ g, IsLast files g ∧ splitTreePath g.path = .ok names ∧ g.info = file.info := by
      intro names
      rw [lookup_insertFiles hroot, DirNode.lookup_empty]
      simp
    have hfollows : ∀ names, Follows enc.nodes enc.rootTreeHash names file.info ↔
        root.lookup names = some file.info := fun names ↦ by
      rw [hhash]
      exact follows_iff hvalid hcol hall honly hp (.refl root)
    constructor
    · rintro ⟨names, hnames, hpath⟩
      obtain ⟨g, hlast, hsplit, hinfo⟩ := (hlookup names).mp ((hfollows names).mp hnames)
      have hg : g = file := by
        have hgp : g.path = file.path := by rw [← hpath, join_of_splitTreePath hsplit]
        cases g
        cases file
        obtain ⟨rfl, rfl⟩ := FileInfo.mk.inj hinfo
        cases hgp
        rfl
      exact hg ▸ hlast
    · intro hlast
      obtain ⟨names, hsplit, -⟩ := exists_insertFiles.mp ⟨root, hroot⟩ file hlast.mem
      exact ⟨names, (hfollows names).mpr ((hlookup names).mpr ⟨file, hlast, hsplit, rfl⟩),
        join_of_splitTreePath hsplit⟩

end

/-- A listing of one empty file. -/
def oneFile : List WorktreeHashFile := [⟨lit "a", sha256Hex [], TREE_FILE_MODE⟩]

theorem encodeWorktreeTree_refines_of_oneFile :
    ∃ enc, encodeWorktreeTree sha256Hex oneFile = .ok enc ∧
      ∃ manifest, buildWorktreeManifest sha256Hex oneFile = .ok manifest ∧
        manifest.rootHash = enc.rootTreeHash ∧ manifest.stateHash = enc.stateHash := by
  have hok : (encodeWorktreeTree sha256Hex oneFile).toOption.isSome = true := by decide +kernel
  obtain ⟨enc, h⟩ := exists_eq_ok hok
  exact ⟨enc, h, (encodeWorktreeTree_refines h).1⟩

/-- Two entries at one path. -/
def samePath : List WorktreeHashFile :=
  [⟨lit "a", sha256Hex [], TREE_FILE_MODE⟩, ⟨lit "a", sha256Hex [97], TREE_FILE_MODE⟩]

theorem treeOf_twice (contentHash contentHash' : JsString) (mode mode' : JsNumber) :
    treeOf [⟨lit "a", contentHash, mode⟩, ⟨lit "a", contentHash', mode'⟩]
      = .ok (.mk [] [(lit "a", ⟨contentHash', mode'⟩)]) := by
  have hsplit : splitTreePath (lit "a") = .ok [lit "a"] := by decide +kernel
  exact insertFiles_cons_ok.mpr ⟨_, hsplit, List.cons_ne_nil _ _,
    insertFiles_cons_ok.mpr ⟨_, hsplit, List.cons_ne_nil _ _, rfl⟩⟩

theorem records_oneFile (name contentHash : JsString) (mode : JsNumber) :
    records sha256Hex (.mk [] [(name, ⟨contentHash, mode⟩)]) = [.file name contentHash mode] := rfl

/-- The references do not lead to every entry of the input: of two entries at one path the first is
lost. -/
theorem encodeWorktreeTree_not_every_entry :
    ¬∀ files enc, encodeWorktreeTree sha256Hex files = .ok enc → ∀ file,
      (∃ names, Follows enc.nodes enc.rootTreeHash names file.info ∧
        [47].intercalate names = file.path) ↔ file ∈ files := by
  intro hclaim
  have hne : sha256Hex [] ≠ sha256Hex [97] := by decide +kernel
  have hok : (encodeWorktreeTree sha256Hex samePath).toOption.isSome = true := by decide +kernel
  obtain ⟨enc, h⟩ := exists_eq_ok hok
  obtain ⟨names, hnames, -⟩ :=
    (hclaim samePath enc h ⟨lit "a", sha256Hex [], TREE_FILE_MODE⟩).mpr List.mem_cons_self
  obtain ⟨root, hroot, -, -, -, honly, -⟩ := nodes_of_encode h
  rw [samePath, treeOf_twice, Except.ok.injEq] at hroot
  subst hroot
  -- The only node has the second entry.
  have hentry : ∀ n ∈ enc.nodes, ∀ e : ManifestHashEntry, e.fields ∈ n.entries →
      e = .file (lit "a") (sha256Hex [97]) TREE_FILE_MODE := by
    intro n hn e he
    obtain ⟨dir, hdir, rfl⟩ := honly n hn
    cases hdir with
    | refl =>
      rwa [mem_entries_encoded, records_oneFile, List.mem_singleton] at he
    | step hmem _ => exact absurd hmem List.not_mem_nil
  generalize enc.rootTreeHash = hash at hnames
  cases hnames with
  | file hn he =>
    have heq := hentry _ hn _ he
    rw [ManifestHashEntry.file.injEq] at heq
    exact hne heq.2.1
  | dir hn he => exact absurd (hentry _ hn _ he) (by simp)

end Vibestudio.Shared

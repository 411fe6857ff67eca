import Mathlib
import Vibestudio.Js.Utf8
import Vibestudio.Shared.WorktreeTree

/-!
# The hash of a subtree

`subtreeHash` of `buildWorktreeManifest` walks the tree of the whole listing. Cutting a directory
out of the listing first gives the same tree: an insertion below the directory is an insertion into
the tree found there, and any other insertion leaves that tree alone (`dirAt_insertFile_below`,
`dirAt_insertFile_of_not_below`). So the loop over the whole listing ends, at the directory, with the
very tree that the loop over its files makes (`dirAt_insertFiles`), and both are hashed by one
function.

What the hash says of the files is the second half. A directory may hold a file and a directory of
one name, which the manifest builder accepts; sorting the records is stable and the directories come
first, so even then the hash is a function of the set of files (`build_eq_of_same_files`). The other
direction reads the records back out of the canonical text (`mem_records_of_text`).
-/

namespace Vibestudio.Shared

open Js ContentAddressing

/-! ## Paths below a directory -/

theorem intercalate_append {sep : JsString} {l l' : List JsString} (hl : l ≠ []) (hl' : l' ≠ []) :
    sep.intercalate (l ++ l') = sep.intercalate l ++ sep ++ sep.intercalate l' := by
  induction l with
  | nil => exact absurd rfl hl
  | cons s l ih =>
    cases l with
    | nil => rw [List.singleton_append, List.intercalate_cons_of_ne_nil hl',
        List.intercalate_singleton]
    | cons s' l =>
      have htail : (s' :: l) ++ l' ≠ [] := List.cons_ne_nil _ _
      rw [List.cons_append, List.intercalate_cons_of_ne_nil htail, ih (List.cons_ne_nil _ _),
        List.intercalate_cons_of_ne_nil (List.cons_ne_nil s' l)]
      simp only [List.append_assoc]

theorem utf8ByteLength_below (p q : JsString) :
    utf8ByteLength (p ++ 47 :: q) = utf8ByteLength p + 1 + utf8ByteLength q := by
  rw [utf8ByteLength, utf8Encode_append_ascii (by decide), List.length_append, List.length_cons]
  exact (Nat.add_right_comm (utf8Encode p).length 1 (utf8Encode q).length).symm
/-- One path lies below another when its segments go on after those of the other. -/
theorem below_iff {p q : JsString} {ps qs : List JsString} (hp : splitTreePath p = .ok ps)
    (hps : ps ≠ []) (hq : splitTreePath q = .ok qs) (hqs : qs ≠ []) :
    p ++ [47] <+: q ↔ ps <+: qs ∧ ps ≠ qs := by
  obtain ⟨hps', -⟩ := (splitTreePath_eq_ok_iff (ne_nil_of_splitTreePath hp hps)).mp hp
  obtain ⟨hqs', -⟩ := (splitTreePath_eq_ok_iff (ne_nil_of_splitTreePath hq hqs)).mp hq
  constructor
  · rintro ⟨r, hr⟩
    rw [List.append_assoc, List.singleton_append] at hr
    rw [← hr, List.splitOn_append_cons_self, ← hps'] at hqs'
    refine ⟨⟨_, hqs'.symm⟩, fun heq ↦ ?_⟩
    rw [heq, List.self_eq_append_right] at hqs'
    exact List.splitOn_ne_nil _ _ hqs'
  · rintro ⟨⟨t, ht⟩, hne⟩
    have htne : t ≠ [] := by
      rintro rfl
      exact hne (by rw [← ht, List.append_nil])
    refine ⟨[47].intercalate t, ?_⟩
    rw [← join_of_splitTreePath hq, ← join_of_splitTreePath hp, ← ht,
      intercalate_append hps htne]

/-! ## Directories of a tree -/

/-- The directory at a path. -/
def dirAt : List JsString → DirNode → Option DirNode
  | [], node => some node
  | segment :: rest, node => (node.dirs.get segment).bind (dirAt rest)

theorem dirAt_empty {ps : List JsString} (hps : ps ≠ []) : dirAt ps .empty = none := by
  cases ps with
  | nil => exact absurd rfl hps
  | cons segment rest => rfl

/-- Where there is no directory, one is made empty. -/
theorem dirAt_getD (ps : List JsString) (child : Option DirNode) :
    (dirAt ps (child.getD .empty)).getD .empty = (child.bind (dirAt ps)).getD .empty := by
  cases child with
  | some child => rfl
  | none =>
    cases ps with
    | nil => rfl
    | cons segment rest => rfl

/-- **An insertion below a directory** is an insertion into the directory. -/
theorem dirAt_insertFile_below {rest : List JsString} (hrest : rest ≠ []) (info : FileInfo) :
    ∀ (ps : List JsString) (node : DirNode), dirAt ps (node.insertFile (ps ++ rest) info)
      = some (((dirAt ps node).getD .empty).insertFile rest info)
  | [], node => rfl
  | segment :: ps, node => by
    obtain ⟨s, tail, htail⟩ := List.exists_cons_of_ne_nil
      (List.append_ne_nil_of_right_ne_nil ps hrest)
    have ih := dirAt_insertFile_below hrest info ps ((node.dirs.get segment).getD .empty)
    rw [List.cons_append, htail, DirNode.insertFile, dirAt, DirNode.dirs, JsMap.get_set_self,
      Option.bind_some, ← htail, ih, dirAt_getD, dirAt]

/-- An insertion anywhere else leaves the directory alone. -/
theorem dirAt_insertFile_of_not_below (info : FileInfo) :
    ∀ {ps path : List JsString}, ps ≠ [] → (∀ rest, rest ≠ [] → path ≠ ps ++ rest) →
      ∀ node : DirNode, dirAt ps (node.insertFile path info) = dirAt ps node
  | [], _, hps, _, _ => absurd rfl hps
  | segment :: ps, [], _, _, _ => rfl
  | segment :: ps, [name], _, _, _ => rfl
  | segment :: ps, segment' :: s :: rest, _, hnot, node => by
    rw [DirNode.insertFile, dirAt, DirNode.dirs, JsMap.get_set, dirAt]
    split_ifs with hseg
    · subst hseg
      have hps : ps ≠ [] := by
        rintro rfl
        exact hnot (s :: rest) (List.cons_ne_nil s rest) rfl
      have ih := dirAt_insertFile_of_not_below info hps
        (fun rest' hrest' heq ↦ hnot rest' hrest' (congrArg (segment :: ·) heq))
        ((node.dirs.get segment).getD .empty)
      rw [Option.bind_some, ih]
      cases node.dirs.get segment with
      | none => exact dirAt_empty hps
      | some child => rfl
    · rfl

/-- `subtreeHash` below the root is the hash of the directory, or else the content of the file. -/
theorem subtreeAt_eq {sha256Hex : List Byte → JsString} : ∀ {ps : List JsString}, ps ≠ [] →
    ∀ node : DirNode, subtreeAt sha256Hex node ps = match dirAt ps node with
      | some dir => some (ContentAddressing.build sha256Hex dir)
      | none => (node.lookup ps).map (·.contentHash)
  | [], hps, _ => absurd rfl hps
  | [segment], _, node => by
    rw [subtreeAt, dirAt, DirNode.lookup_single]
    cases node.dirs.get segment with
    | none => rfl
    | some dir => rfl
  | segment :: s :: rest, _, node => by
    rw [subtreeAt, dirAt, DirNode.lookup_cons]
    cases node.dirs.get segment with
    | none => rfl
    | some dir => exact subtreeAt_eq (List.cons_ne_nil s rest) dir

theorem contains_of_dirAt : ∀ {ps : List JsString} {node dir : DirNode},
    dirAt ps node = some dir → Contains node dir
  | [], node, dir, h => by
    obtain rfl : node = dir := Option.some_inj.mp h
    exact .refl node
  | segment :: ps, node, dir, h => by
    obtain ⟨child, hget, hchild⟩ := Option.bind_eq_some_iff.mp h
    exact .step (JsMap.mem_of_get hget) (contains_of_dirAt hchild)

/-! ## The files below a path -/

/-- The files under `path/` with that prefix removed; all of them for the root. -/
def under (path : JsString) (files : List WorktreeHashFile) : List WorktreeHashFile :=
  if path = [] then files
  else files.filterMap fun file ↦
    (stripPrefix? (path ++ [47]) file.path).map fun rest ↦ { file with path := rest }

theorem under_cons_below {p rest : JsString} (hp : p ≠ []) {file : WorktreeHashFile}
    (h : file.path = p ++ 47 :: rest) (files : List WorktreeHashFile) :
    under p (file :: files) = { file with path := rest } :: under p files := by
  have hstrip : stripPrefix? (p ++ [47]) file.path = some rest := by
    rw [stripPrefix?_eq_some, h, List.append_assoc, List.singleton_append]
  rw [under, under, if_neg hp, if_neg hp]
  exact List.filterMap_cons_some (by rw [hstrip]; rfl)

theorem under_cons_of_not_below {p : JsString} (hp : p ≠ []) {file : WorktreeHashFile}
    (h : ¬p ++ [47] <+: file.path) (files : List WorktreeHashFile) :
    under p (file :: files) = under p files := by
  have hstrip : stripPrefix? (p ++ [47]) file.path = none := by rw [stripPrefix?, if_neg h]
  rw [under, under, if_neg hp, if_neg hp]
  exact List.filterMap_cons_none (by rw [hstrip]; rfl)

theorem mem_under {p : JsString} (hp : p ≠ []) {files : List WorktreeHashFile}
    {file : WorktreeHashFile} :
    file ∈ under p files ↔ { file with path := p ++ 47 :: file.path } ∈ files := by
  rw [under, if_neg hp, List.mem_filterMap]
  constructor
  · rintro ⟨g, hg, heq⟩
    obtain ⟨rest, hstrip, rfl⟩ := Option.map_eq_some_iff.mp heq
    rw [stripPrefix?_eq_some, List.append_assoc, List.singleton_append] at hstrip
    rwa [← hstrip]
  · intro hmem
    refine ⟨_, hmem, ?_⟩
    have hstrip : stripPrefix? (p ++ [47]) (p ++ 47 :: file.path) = some file.path := by
      rw [stripPrefix?_eq_some, List.append_assoc, List.singleton_append]
    rw [hstrip]
    rfl

theorem nodup_under {p : JsString} {files : List WorktreeHashFile}
    (h : (files.map (·.path)).Nodup) : ((under p files).map (·.path)).Nodup := by
  by_cases hp : p = []
  · rwa [under, if_pos hp]
  induction files with
  | nil => rw [under, if_neg hp]; exact List.nodup_nil
  | cons file files ih =>
    rw [List.map_cons, List.nodup_cons] at h
    by_cases hbelow : p ++ [47] <+: file.path
    · obtain ⟨rest, hrest⟩ := hbelow
      rw [List.append_assoc, List.singleton_append] at hrest
      rw [under_cons_below hp hrest.symm, List.map_cons, List.nodup_cons]
      refine ⟨fun hmem ↦ h.1 ?_, ih h.2⟩
      obtain ⟨g, hg, heq⟩ := List.mem_map.mp hmem
      refine List.mem_map.mpr ⟨_, (mem_under hp).mp hg, ?_⟩
      change p ++ 47 :: g.path = file.path
      rw [heq, hrest]
    · rw [under_cons_of_not_below hp hbelow]
      exact ih h.2

/-- What is left of a path below a directory is a path again. -/
theorem splitTreePath_rest {p rest : JsString} {ps segments : List JsString}
    (hp : splitTreePath p = .ok ps) (hps : ps ≠ [])
    (h : splitTreePath (p ++ 47 :: rest) = .ok segments) :
    ∃ qs, splitTreePath rest = .ok qs ∧ qs ≠ [] ∧ segments = ps ++ qs := by
  have hne : p ++ 47 :: rest ≠ [] := List.append_ne_nil_of_right_ne_nil p (List.cons_ne_nil _ _)
  obtain ⟨hps', -⟩ := (splitTreePath_eq_ok_iff (ne_nil_of_splitTreePath hp hps)).mp hp
  obtain ⟨hseg, hbytes, hlen, hsafe⟩ := (splitTreePath_eq_ok_iff hne).mp h
  rw [List.splitOn_append_cons_self, ← hps'] at hseg
  have hrest : rest ≠ [] := by
    rintro rfl
    have hmem : ([] : JsString) ∈ segments := by
      rw [hseg]
      exact List.mem_append_right _ List.mem_cons_self
    exact absurd (hsafe [] hmem) (by decide)
  rw [utf8ByteLength_below] at hbytes
  rw [hseg, List.length_append] at hlen
  refine ⟨rest.splitOn 47, (splitTreePath_eq_ok_iff hrest).mpr ⟨rfl, ?_, ?_, fun s hs ↦ ?_⟩,
    List.splitOn_ne_nil _ _, hseg⟩
  · exact (Nat.le_add_left _ _).trans hbytes
  · exact (Nat.le_add_left _ _).trans hlen
  · exact hsafe s (hseg ▸ List.mem_append_right ps hs)

section

variable {ε : Type} {pathError : TreePathError → ε} {emptyPath : ε}

/-- **The loop over a listing makes, at a directory, the tree of the files below it.** -/
theorem dirAt_insertFiles {p : JsString} {ps : List JsString} (hp : splitTreePath p = .ok ps)
    (hps : ps ≠ []) {files : List WorktreeHashFile} : ∀ {node tree : DirNode},
    insertFiles pathError emptyPath files node = .ok tree →
      ∃ dir, insertFiles pathError emptyPath (under p files) ((dirAt ps node).getD .empty) = .ok dir ∧
        dirAt ps tree = if under p files = [] then dirAt ps node else some dir := by
  have hne : p ≠ [] := ne_nil_of_splitTreePath hp hps
  induction files with
  | nil =>
    intro node tree h
    obtain rfl : node = tree := Except.ok.inj h
    have hnil : under p [] = [] := by rw [under, if_neg hne]; rfl
    rw [hnil]
    exact ⟨_, rfl, (if_pos rfl).symm⟩
  | cons file files ih =>
    intro node tree h
    obtain ⟨segments, hsplit, hseg, h⟩ := insertFiles_cons_ok.mp h
    obtain ⟨dir, hdir, hat⟩ := ih h
    by_cases hbelow : p ++ [47] <+: file.path
    · obtain ⟨rest, hrest⟩ := hbelow
      rw [List.append_assoc, List.singleton_append] at hrest
      rw [← hrest] at hsplit
      obtain ⟨qs, hq, hqs, rfl⟩ := splitTreePath_rest hp hps hsplit
      rw [dirAt_insertFile_below hqs, Option.getD_some] at hdir
      rw [under_cons_below hne hrest.symm]
      refine ⟨dir, insertFiles_cons_ok.mpr ⟨qs, hq, hqs, hdir⟩, ?_⟩
      rw [hat, dirAt_insertFile_below hqs, if_neg (List.cons_ne_nil _ _)]
      -- When no file follows, the tree is the one of this insertion.
      split_ifs with hunder
      · rw [hunder] at hdir
        exact congrArg some (Except.ok.inj hdir)
      · rfl
    · have hnot : ∀ rest, rest ≠ [] → segments ≠ ps ++ rest := by
        rintro rest hrest rfl
        refine hbelow ((below_iff hp hps hsplit hseg).mpr ⟨List.prefix_append ps rest, fun heq ↦ ?_⟩)
        exact hrest (List.self_eq_append_right.mp heq)
      rw [dirAt_insertFile_of_not_below _ hps hnot] at hdir hat
      rw [under_cons_of_not_below hne hbelow]
      exact ⟨dir, hdir, hat⟩

end

/-- The tree of the files below a path is the directory there. -/
theorem dirAt_treeOf {p : JsString} {ps : List JsString} (hp : splitTreePath p = .ok ps)
    {files : List WorktreeHashFile} {root : DirNode} (h : treeOf files = .ok root) :
    ∃ dir, treeOf (under p files) = .ok dir ∧
      dirAt ps root = if ps ≠ [] ∧ under p files = [] then none else some dir := by
  by_cases hps : ps = []
  · obtain rfl : p = [] := by
      rw [← join_of_splitTreePath hp, hps]
      rfl
    subst hps
    exact ⟨root, by rwa [under, if_pos rfl], by rw [if_neg (fun h ↦ h.1 rfl)]; rfl⟩
  · obtain ⟨dir, hdir, hat⟩ := dirAt_insertFiles hp hps h
    rw [dirAt_empty hps] at hdir hat
    refine ⟨dir, hdir, ?_⟩
    rw [hat]
    exact if_congr (and_iff_right hps).symm rfl rfl

/-! ## Hashing the same files -/

/-- Entries with different names are inserted in either order. -/
theorem orderedInsert_swap {a b : Props JsData} (h : entryName a ≠ entryName b)
    (l : List (Props JsData)) :
    (l.orderedInsert (fun x y ↦ compareUtf16CodeUnits (entryName x) (entryName y) ≤ 0) b).orderedInsert
        (fun x y ↦ compareUtf16CodeUnits (entryName x) (entryName y) ≤ 0) a
      = (l.orderedInsert (fun x y ↦ compareUtf16CodeUnits (entryName x) (entryName y) ≤ 0)
          a).orderedInsert (fun x y ↦ compareUtf16CodeUnits (entryName x) (entryName y) ≤ 0) b := by
  simp only [compareUtf16CodeUnits_nonpos]
  induction l with
  | nil =>
    simp only [List.orderedInsert_nil, List.orderedInsert_cons]
    rcases lt_or_gt_of_ne h with hlt | hlt
    · rw [if_pos hlt.le, if_neg hlt.not_ge]
    · rw [if_neg hlt.not_ge, if_pos hlt.le]
  | cons c l ih =>
    simp only [List.orderedInsert_cons]
    split_ifs with hb ha ha
    all_goals simp only [List.orderedInsert_cons]
    · rcases lt_or_gt_of_ne h with hlt | hlt
      · rw [if_pos hlt.le, if_neg hlt.not_ge, if_pos hb]
      · rw [if_neg hlt.not_ge, if_pos hlt.le, if_pos ha]
    · have hlt : entryName b < entryName a := hb.trans_lt (not_le.mp ha)
      rw [if_neg hlt.not_ge, if_neg ha, if_pos hb]
    · have hlt : entryName a < entryName b := ha.trans_lt (not_le.mp hb)
      rw [if_pos ha, if_neg hlt.not_ge, if_neg hb]
    · rw [if_neg ha, if_neg hb, ih]

/-- **Sorting is stable**: of two lists with distinct names each, one behind the other, the order of
neither is seen. -/
theorem sortEntries_append_eq_of_perm {D D' F F' : List (Props JsData)} (hD : D.Perm D')
    (hF : F.Perm F') (hndD : (D.map entryName).Nodup) (hndF : (F.map entryName).Nodup) :
    sortEntries (D ++ F) = sortEntries (D' ++ F') := by
  have hfold : ∀ E G : List (Props JsData), sortEntries (E ++ G) = E.foldr (fun e sorted ↦
      sorted.orderedInsert (fun x y ↦ compareUtf16CodeUnits (entryName x) (entryName y) ≤ 0) e)
        (sortEntries G) := by
    intro E G
    induction E with
    | nil => rfl
    | cons e E ih =>
      rw [List.foldr_cons, ← ih]
      rfl
  rw [hfold, hfold, sortEntries_eq_of_perm hF hndF]
  refine hD.foldr_eq' (fun a ha b hb sorted ↦ ?_) _
  by_cases hab : a = b
  · rw [hab]
  · exact orderedInsert_swap (fun hname ↦ hab (List.inj_on_of_nodup_map hndD hb ha hname).symm)
      sorted

section

variable {sha256Hex : List Byte → JsString}

/-- Two trees with the same files have the same directories, and every two of one name have the
same files. -/
theorem dirRecords_perm {node node' : DirNode} (h : node.Proper) (h' : node'.Proper)
    (hsame : ∀ q, node.lookup q = node'.lookup q)
    (hchild : ∀ {name child child'}, node.dirs.get name = some child →
      node'.dirs.get name = some child' → (∀ q, child.lookup q = child'.lookup q) →
      ContentAddressing.build sha256Hex child = ContentAddressing.build sha256Hex child') :
    (dirRecords sha256Hex node.dirs).Perm (dirRecords sha256Hex node'.dirs) := by
  have hnd : ∀ {node : DirNode}, node.Proper → (dirRecords sha256Hex node.dirs).Nodup := by
    intro node hp
    have hall : (records sha256Hex node).Nodup := nodup_records hp
    exact (List.nodup_append.mp hall).1
  have hmem : ∀ {node : DirNode}, node.Proper → ∀ e, e ∈ dirRecords sha256Hex node.dirs ↔
      ∃ name child, node.dirs.get name = some child ∧
        e = .dir name (ContentAddressing.build sha256Hex child) := by
    intro node hp e
    rw [dirRecords_eq, List.mem_map]
    constructor
    · rintro ⟨p, hmem, rfl⟩
      exact ⟨p.1, p.2, hp.get_of_mem hmem, rfl⟩
    · rintro ⟨name, child, hget, rfl⟩
      exact ⟨(name, child), JsMap.mem_of_get hget, rfl⟩
  refine (List.perm_ext_iff_of_nodup (hnd h) (hnd h')).mpr fun e ↦ ?_
  rw [hmem h, hmem h']
  constructor
  · rintro ⟨name, child, hget, rfl⟩
    obtain ⟨child', hget', hq⟩ := exists_dir_of_lookup h h' hsame hget
    exact ⟨name, child', hget', by rw [hchild hget hget' hq]⟩
  · rintro ⟨name, child', hget', rfl⟩
    obtain ⟨child, hget, hq⟩ := exists_dir_of_lookup h' h (fun q ↦ (hsame q).symm) hget'
    exact ⟨name, child, hget, by rw [hchild hget hget' fun q ↦ (hq q).symm]⟩

theorem fileRecords_perm {node node' : DirNode} (h : node.Proper) (h' : node'.Proper)
    (hsame : ∀ q, node.lookup q = node'.lookup q) :
    (fileRecords node.files).Perm (fileRecords node'.files) := by
  refine List.Perm.map _ ?_
  cases h with | mk _ hfiles _ _ =>
  cases h' with | mk _ hfiles' _ _ =>
  refine (List.perm_ext_iff_of_nodup (.of_map _ hfiles) (.of_map _ hfiles')).mpr fun p ↦ ?_
  rw [show p = (p.1, p.2) from rfl, JsMap.mem_iff_get hfiles, JsMap.mem_iff_get hfiles',
    ← DirNode.lookup_single, ← DirNode.lookup_single, hsame]

/-- **The hash of a tree is a function of its files**, whether or not a name is used twice. -/
theorem build_eq_of_same_files {node node' : DirNode} (h : node.Proper) (h' : node'.Proper)
    (hsame : ∀ q, node.lookup q = node'.lookup q) :
    ContentAddressing.build sha256Hex node = ContentAddressing.build sha256Hex node' := by
  induction node generalizing node' with
  | mk dirs files ih =>
    have hdirs : (dirRecords sha256Hex dirs).Perm (dirRecords sha256Hex node'.dirs) :=
      dirRecords_perm h h' hsame fun hget hget' hq ↦
        ih _ (JsMap.mem_of_get hget) (h.sub hget) (h'.sub hget') hq
    have hfiles := fileRecords_perm h h' hsame
    rw [build_eq, build_eq, manifestHashForEntries, manifestHashForEntries, records, records,
      List.map_append, List.map_append]
    refine congrArg (fun entries ↦ lit "manifest:" ++ stableSha256Hex sha256Hex (nodeValue entries))
      (sortEntries_append_eq_of_perm (hdirs.map _) (hfiles.map _) ?_ ?_)
    · cases h with | mk hnd _ _ _ =>
      rw [names_fields, dirRecords_eq, List.map_map]
      exact hnd
    · cases h with | mk _ hnd _ _ =>
      rw [names_fields, fileRecords, List.map_map]
      exact hnd

/-! ## Files with the same hash -/

/-- The number is one that JSON text writes and reads back: finite and not `-0`. -/
def Carried (mode : JsNumber) : Prop := wireLeaf (.num mode) = .num mode

instance (mode : JsNumber) : Decidable (Carried mode) :=
  inferInstanceAs (Decidable (wireLeaf (.num mode) = .num mode))

/-- Text carries the records of a tree when it carries the modes. -/
theorem onWire_fields {e : ManifestHashEntry}
    (h : ∀ name contentHash mode, e = .file name contentHash mode → Carried mode) :
    OnWire (.obj e.fields) := by
  refine .obj e.represents_fields.ordered fun p hp ↦ ?_
  cases e with
  | dir name childHash =>
    simp only [ManifestHashEntry.fields, List.mem_cons, List.not_mem_nil, or_false] at hp
    rcases hp with rfl | rfl | rfl <;> exact .leaf ⟨rfl, rfl⟩
  | file name contentHash mode =>
    simp only [ManifestHashEntry.fields, List.mem_cons, List.not_mem_nil, or_false] at hp
    rcases hp with rfl | rfl | rfl | rfl
    · exact .leaf ⟨rfl, rfl⟩
    · exact .leaf ⟨rfl, rfl⟩
    · exact .leaf ⟨rfl, rfl⟩
    · exact .leaf ⟨rfl, h name contentHash mode rfl⟩

/-- The records behind the canonical text of a node. -/
theorem sortRecords_of_text {E E' : List ManifestHashEntry}
    (hE : ∀ e ∈ E, OnWire (.obj e.fields)) (hE' : ∀ e ∈ E', OnWire (.obj e.fields))
    (htext : canonicalText (nodeValue (sortEntries (E.map (·.fields))))
      = canonicalText (nodeValue (sortEntries (E'.map (·.fields))))) :
    sortRecords E = sortRecords E' := by
  have hwire : ∀ {E : List ManifestHashEntry}, (∀ e ∈ E, OnWire (.obj e.fields)) →
      OnWire (nodeValue (sortEntries (E.map (·.fields)))) := by
    intro E hE
    refine onWire_nodeValue fun entry hentry ↦ ?_
    obtain ⟨e, he, rfl⟩ := List.mem_map.mp ((sortEntries_perm _).mem_iff.mp hentry)
    exact hE e he
  obtain ⟨t, ht, hparse⟩ := parse_canonicalJson (hwire hE)
  obtain ⟨t', ht', hparse'⟩ := parse_canonicalJson (hwire hE')
  obtain rfl : t = t' := by
    rw [canonicalText, canonicalText, ht, ht', Option.getD_some, Option.getD_some] at htext
    exact htext
  obtain ⟨D, hD, hcanon⟩ := (areRecords_fields E).sort.exists_canonical
  obtain ⟨D', hD', hcanon'⟩ := (areRecords_fields E').sort.exists_canonical
  have hvalue := Option.some_inj.mp (hparse.symm.trans hparse')
  have hentries := nodeEntries?_canonical (sortEntries (E.map (·.fields)))
  rw [hvalue, nodeEntries?_canonical, Option.some_inj, hcanon, hcanon'] at hentries
  have hsame : D' = D := (List.map_injective_iff.mpr fun a b hab ↦ JsValue.obj.inj hab) hentries
  subst hsame
  exact hD.unique hD'

/-- Every mode in the tree is one that JSON text carries. -/
def CarriedBelow (node : DirNode) : Prop :=
  ∀ q info, node.lookup q = some info → Carried info.mode

theorem CarriedBelow.sub {node child : DirNode} (h : CarriedBelow node) {name : JsString}
    (hget : node.dirs.get name = some child) : CarriedBelow child := by
  intro q info hq
  cases q with
  | nil => exact absurd hq (by rw [DirNode.lookup_nil]; simp)
  | cons s rest =>
    refine h (name :: s :: rest) info ?_
    rw [DirNode.lookup_cons, hget, Option.bind_some, hq]

theorem CarriedBelow.onWire {node : DirNode} (hp : node.Proper) (h : CarriedBelow node) :
    ∀ e ∈ records sha256Hex node, OnWire (.obj e.fields) := by
  refine fun e he ↦ onWire_fields fun name contentHash mode heq ↦ ?_
  rw [heq, file_mem_records hp, ← DirNode.lookup_single] at he
  exact h [name] ⟨contentHash, mode⟩ he

/-- **Without collisions the hash of a tree says which files it has.** -/
theorem same_files_of_build_eq {P : DirNode → Prop}
    (hcol : ∀ dir dir', P dir → P dir' →
      ContentAddressing.build sha256Hex dir = ContentAddressing.build sha256Hex dir' →
      (encoded sha256Hex dir).canonicalText = (encoded sha256Hex dir').canonicalText)
    (hsub : ∀ dir p, P dir → p ∈ dir.dirs → P p.2) {node node' : DirNode} (hP : P node)
    (hP' : P node') (h : node.Proper) (h' : node'.Proper) (hmode : CarriedBelow node)
    (hmode' : CarriedBelow node')
    (hhash : ContentAddressing.build sha256Hex node = ContentAddressing.build sha256Hex node')
    (q : List JsString) : node.lookup q = node'.lookup q := by
  induction node generalizing node' q with
  | mk dirs files ih =>
    have hsort := sortRecords_of_text (hmode.onWire h) (hmode'.onWire h')
      (hcol _ _ hP hP' hhash)
    have hmem : ∀ e, e ∈ records sha256Hex (.mk dirs files) ↔ e ∈ records sha256Hex node' := by
      intro e
      rw [← mem_sortRecords, hsort, mem_sortRecords]
    match q with
    | [] => rw [DirNode.lookup_nil, DirNode.lookup_nil]
    | [name] =>
      refine Option.ext fun info ↦ ?_
      have hfile := hmem (.file name info.contentHash info.mode)
      rw [file_mem_records h, file_mem_records h'] at hfile
      rw [DirNode.lookup_single, DirNode.lookup_single]
      exact hfile
    | name :: s :: rest =>
      rw [DirNode.lookup_cons, DirNode.lookup_cons]
      -- A directory of either tree is a record of both.
      have hdir : ∀ hash, (∃ child, JsMap.get name dirs = some child ∧
          ContentAddressing.build sha256Hex child = hash) ↔
          ∃ child, node'.dirs.get name = some child ∧
            ContentAddressing.build sha256Hex child = hash := by
        intro hash
        have hboth := hmem (.dir name hash)
        rwa [dir_mem_records h, dir_mem_records h'] at hboth
      change (JsMap.get name dirs).bind _ = _
      cases hget : JsMap.get name dirs with
      | some child =>
        obtain ⟨child', hget', heq⟩ := (hdir _).mp ⟨child, hget, rfl⟩
        rw [hget', Option.bind_some, Option.bind_some]
        exact ih (name, child) (JsMap.mem_of_get hget) (hsub _ _ hP (JsMap.mem_of_get hget))
          (hsub _ _ hP' (JsMap.mem_of_get hget')) (h.sub hget) (h'.sub hget')
          (hmode.sub hget) (hmode'.sub hget') heq.symm _
      | none =>
        cases hget' : node'.dirs.get name with
        | none => rfl
        | some child' =>
          obtain ⟨child, hchild, -⟩ := (hdir _).mpr ⟨child', hget', rfl⟩
          rw [hget] at hchild
          exact absurd hchild (by simp)

/-! ## The hash that is reported -/

/-- A manifest is built of the tree of the listing. -/
theorem exists_tree_of_manifest {files : List WorktreeHashFile} {manifest : WorktreeManifest}
    (h : buildWorktreeManifest sha256Hex files = .ok manifest) :
    ∃ root, treeOf files = .ok root ∧
      manifest.rootHash = ContentAddressing.build sha256Hex root ∧
      ∀ p ps, splitTreePath p = .ok ps → manifest.subtreeHash p = match dirAt ps root with
        | some dir => some (ContentAddressing.build sha256Hex dir)
        | none => (root.lookup ps).map (·.contentHash) := by
  obtain ⟨root, hroot, rfl⟩ := map_eq_ok.mp h
  have htree : treeOf files = .ok root := insertFiles_congr hroot
  have hhash : (if files.length = 0 then EMPTY_MANIFEST_HASH sha256Hex
      else ContentAddressing.build sha256Hex root) = ContentAddressing.build sha256Hex root := by
    split_ifs with hlen
    · obtain rfl := List.length_eq_zero_iff.mp hlen
      obtain rfl : DirNode.empty = root := Except.ok.inj hroot
      rfl
    · rfl
  refine ⟨root, htree, hhash, fun p ps hp ↦ ?_⟩
  by_cases hnil : p = []
  · subst hnil
    obtain rfl : [] = ps := Except.ok.inj hp
    exact congrArg some hhash
  · obtain ⟨hps, -⟩ := (splitTreePath_eq_ok_iff hnil).mp hp
    have hne : ps ≠ [] := hps ▸ List.splitOn_ne_nil _ _
    change (if p = [] then _ else subtreeAt sha256Hex root (p.splitOn 47)) = _
    rw [if_neg hnil, ← hps, subtreeAt_eq hne]

/-- The manifest of a listing that has a tree. -/
theorem exists_manifest_of_tree (sha256Hex : List Byte → JsString) {files : List WorktreeHashFile}
    {root : DirNode} (h : treeOf files = .ok root) :
    ∃ manifest, buildWorktreeManifest sha256Hex files = .ok manifest ∧
      manifest.rootHash = ContentAddressing.build sha256Hex root := by
  obtain ⟨manifest, hmanifest⟩ : ∃ manifest,
      buildWorktreeManifest sha256Hex files = .ok manifest :=
    ⟨_, map_eq_ok.mpr ⟨root, insertFiles_congr h, rfl⟩⟩
  refine ⟨manifest, hmanifest, ?_⟩
  obtain ⟨root', hroot', hhash, -⟩ := exists_tree_of_manifest hmanifest
  rw [h, Except.ok.injEq] at hroot'
  rw [hhash, hroot']

/-- With distinct paths the tree has at each path the file listed there. -/
theorem lookup_treeOf_eq_some {files : List WorktreeHashFile} {root : DirNode}
    (h : treeOf files = .ok root) (hnd : (files.map (·.path)).Nodup) {q : List JsString}
    {info : FileInfo} : root.lookup q = some info ↔
      ∃ file ∈ files, splitTreePath file.path = .ok q ∧ file.info = info := by
  rw [lookup_insertFiles h, DirNode.lookup_empty]
  simp only [isLast_iff_mem hnd, reduceCtorEq, and_false, or_false]

theorem lookup_treeOf_eq_find {files : List WorktreeHashFile} {root : DirNode}
    (h : treeOf files = .ok root) (hnd : (files.map (·.path)).Nodup) {p : JsString}
    {ps : List JsString} (hp : splitTreePath p = .ok ps) :
    root.lookup ps = (files.find? fun file ↦ file.path = p).map (·.info) := by
  have hpathOf : ∀ {found}, files.find? (fun file ↦ file.path = p) = some found →
      found.path = p := fun hfound ↦ by simpa using List.find?_some hfound
  refine Option.ext fun info ↦ ?_
  rw [lookup_treeOf_eq_some h hnd, Option.map_eq_some_iff]
  constructor
  · rintro ⟨file, hmem, hsplit, rfl⟩
    have hpath : file.path = p := path_eq_of_splitTreePath hsplit hp
    obtain ⟨found, hfound⟩ : ∃ found, files.find? (fun file ↦ file.path = p) = some found := by
      rw [← Option.isSome_iff_exists, List.find?_isSome]
      exact ⟨file, hmem, decide_eq_true hpath⟩
    have hsame : found = file := List.inj_on_of_nodup_map hnd (List.mem_of_find?_eq_some hfound) hmem
      ((hpathOf hfound).trans hpath.symm)
    exact ⟨found, hfound, by rw [hsame]⟩
  · rintro ⟨found, hfound, rfl⟩
    refine ⟨found, List.mem_of_find?_eq_some hfound, ?_, rfl⟩
    rw [hpathOf hfound]
    exact hp

/-- Two listings have the same files when their trees do. -/
theorem same_lookup_iff {files files' : List WorktreeHashFile} {root root' : DirNode}
    (h : treeOf files = .ok root) (h' : treeOf files' = .ok root')
    (hnd : (files.map (·.path)).Nodup) (hnd' : (files'.map (·.path)).Nodup) :
    (∀ q, root.lookup q = root'.lookup q) ↔ ∀ file, file ∈ files ↔ file ∈ files' := by
  have hlisted : ∀ {files : List WorktreeHashFile} {root : DirNode}, treeOf files = .ok root →
      (files.map (·.path)).Nodup → ∀ file : WorktreeHashFile, file ∈ files ↔
        ∃ q, splitTreePath file.path = .ok q ∧ root.lookup q = some file.info := by
    intro files root h hnd file
    constructor
    · intro hmem
      obtain ⟨q, hq, -⟩ := exists_insertFiles.mp ⟨root, h⟩ file hmem
      exact ⟨q, hq, (lookup_treeOf_eq_some h hnd).mpr ⟨file, hmem, hq, rfl⟩⟩
    · rintro ⟨q, hq, hlookup⟩
      obtain ⟨g, hg, hsplit, hinfo⟩ := (lookup_treeOf_eq_some h hnd).mp hlookup
      have hpath : g.path = file.path := path_eq_of_splitTreePath hsplit hq
      obtain ⟨path, contentHash, mode⟩ := g
      obtain ⟨rfl, rfl⟩ := FileInfo.mk.inj hinfo
      obtain rfl : path = file.path := hpath
      exact hg
  constructor
  · intro hsame file
    rw [hlisted h hnd, hlisted h' hnd']
    simp only [hsame]
  · intro hsame q
    refine Option.ext fun info ↦ ?_
    rw [lookup_treeOf_eq_some h hnd, lookup_treeOf_eq_some h' hnd']
    simp only [hsame]

/-- Directories of the trees of two listings that have one hash have one text. -/
def HashesApart (sha256Hex : List Byte → JsString) (files files' : List WorktreeHashFile) : Prop :=
  ∀ root root', treeOf files = .ok root → treeOf files' = .ok root' → ∀ dir dir',
    (Contains root dir ∨ Contains root' dir) → (Contains root dir' ∨ Contains root' dir') →
    ContentAddressing.build sha256Hex dir = ContentAddressing.build sha256Hex dir' →
    (encoded sha256Hex dir).canonicalText = (encoded sha256Hex dir').canonicalText

theorem carriedBelow_treeOf {files : List WorktreeHashFile} {root : DirNode}
    (h : treeOf files = .ok root) (hnd : (files.map (·.path)).Nodup)
    (hmode : ∀ file ∈ files, Carried file.mode) : CarriedBelow root := by
  intro q info hq
  obtain ⟨file, hmem, -, rfl⟩ := (lookup_treeOf_eq_some h hnd).mp hq
  exact hmode file hmem

theorem CarriedBelow.dirAt {ps : List JsString} : ∀ {node dir : DirNode}, CarriedBelow node →
    Shared.dirAt ps node = some dir → CarriedBelow dir := by
  induction ps with
  | nil =>
    intro node dir h hdir
    obtain rfl : node = dir := Option.some_inj.mp hdir
    exact h
  | cons segment ps ih =>
    intro node dir h hdir
    obtain ⟨child, hget, hchild⟩ := Option.bind_eq_some_iff.mp hdir
    exact ih (h.sub hget) hchild

/-- **The hash of a subtree.** At a canonical path with files below it, the manifest reports the root
hash of the manifest of those files; elsewhere the content hash of the file there, when there is one.
So two worktrees whose directories no collision confuses report one directory hash for a path exactly
when they have the same files below it. -/
theorem subtreeHash_eq {files : List WorktreeHashFile} {manifest : WorktreeManifest}
    (hnd : (files.map (·.path)).Nodup) (h : buildWorktreeManifest sha256Hex files = .ok manifest) :
    (∀ p ps, splitTreePath p = .ok ps →
      (p = [] ∨ under p files ≠ [] → ∃ sub,
        buildWorktreeManifest sha256Hex (under p files) = .ok sub ∧
          manifest.subtreeHash p = some sub.rootHash) ∧
      (p ≠ [] → under p files = [] → manifest.subtreeHash p
        = (files.find? fun file ↦ file.path = p).map (·.contentHash))) ∧
    ∀ files' manifest', (files'.map (·.path)).Nodup →
      buildWorktreeManifest sha256Hex files' = .ok manifest' →
      HashesApart sha256Hex files files' → (∀ file ∈ files ++ files', Carried file.mode) →
      ∀ p ps, splitTreePath p = .ok ps →
        (p = [] ∨ (under p files ≠ [] ∧ under p files' ≠ [])) →
        (manifest.subtreeHash p = manifest'.subtreeHash p ↔
          ∀ file, file ∈ under p files ↔ file ∈ under p files') := by
  obtain ⟨root, hroot, -, hsub⟩ := exists_tree_of_manifest h
  -- What is reported where there is a directory, for any listing.
  have hdirectory : ∀ {files : List WorktreeHashFile} {root : DirNode}, treeOf files = .ok root →
      ∀ {p ps}, splitTreePath p = .ok ps → p = [] ∨ under p files ≠ [] →
        ∃ dir, treeOf (under p files) = .ok dir ∧ dirAt ps root = some dir := by
    intro files root hroot p ps hp hfiles
    obtain ⟨dir, hdir, hat⟩ := dirAt_treeOf hp hroot
    refine ⟨dir, hdir, ?_⟩
    rw [hat, if_neg]
    rintro ⟨hps, hnil⟩
    exact hfiles.elim (ne_nil_of_splitTreePath hp hps) fun hne ↦ hne hnil
  refine ⟨fun p ps hp ↦ ⟨fun hfiles ↦ ?_, fun hne hnil ↦ ?_⟩, ?_⟩
  · obtain ⟨dir, hdir, hat⟩ := hdirectory hroot hp hfiles
    obtain ⟨sub, hbuild, hhash⟩ := exists_manifest_of_tree sha256Hex hdir
    exact ⟨sub, hbuild, by rw [hsub p ps hp, hat, hhash]⟩
  · obtain ⟨dir, -, hat⟩ := dirAt_treeOf hp hroot
    have hps : ps ≠ [] := by
      rintro rfl
      exact hne (join_of_splitTreePath hp).symm
    rw [hsub p ps hp, hat, if_pos ⟨hps, hnil⟩, lookup_treeOf_eq_find hroot hnd hp, Option.map_map]
    rfl
  · intro files' manifest' hnd' h' hcol hmode p ps hp hfiles
    obtain ⟨root', hroot', -, hsub'⟩ := exists_tree_of_manifest h'
    obtain ⟨dir, hdir, hat⟩ := hdirectory hroot hp (hfiles.imp id And.left)
    obtain ⟨dir', hdir', hat'⟩ := hdirectory hroot' hp (hfiles.imp id And.right)
    rw [hsub p ps hp, hsub' p ps hp, hat, hat', Option.some_inj,
      ← same_lookup_iff hdir hdir' (nodup_under hnd) (nodup_under hnd')]
    refine ⟨fun hhash ↦ ?_, build_eq_of_same_files (proper_treeOf hdir) (proper_treeOf hdir')⟩
    refine same_files_of_build_eq (P := fun dir ↦ Contains root dir ∨ Contains root' dir)
      (fun _ _ ↦ hcol root root' hroot hroot' _ _) ?_ (.inl (contains_of_dirAt hat))
      (.inr (contains_of_dirAt hat')) (proper_treeOf hdir) (proper_treeOf hdir') ?_ ?_ hhash
    · exact fun d q hd hq ↦ hd.imp (·.trans (.step hq (.refl _))) (·.trans (.step hq (.refl _)))
    · exact (carriedBelow_treeOf hroot hnd fun file hmem ↦
        hmode file (List.mem_append_left _ hmem)).dirAt hat
    · exact (carriedBelow_treeOf hroot' hnd' fun file hmem ↦
        hmode file (List.mem_append_right _ hmem)).dirAt hat'

end

/-- A file below `a` and a file beside it. -/
def subtreeFiles : List WorktreeHashFile :=
  [⟨lit "a/x", sha256Hex [], TREE_FILE_MODE⟩, ⟨lit "b", sha256Hex [97], TREE_EXEC_MODE⟩]

/-- Another worktree with the same file below `a`. -/
def subtreeFiles' : List WorktreeHashFile :=
  [⟨lit "c", sha256Hex [], TREE_EXEC_MODE⟩, ⟨lit "a/x", sha256Hex [], TREE_FILE_MODE⟩]

def subtreeRoot : DirNode :=
  .mk [(lit "a", .mk [] [(lit "x", ⟨sha256Hex [], TREE_FILE_MODE⟩)])]
    [(lit "b", ⟨sha256Hex [97], TREE_EXEC_MODE⟩)]

def subtreeRoot' : DirNode :=
  .mk [(lit "a", .mk [] [(lit "x", ⟨sha256Hex [], TREE_FILE_MODE⟩)])]
    [(lit "c", ⟨sha256Hex [], TREE_EXEC_MODE⟩)]

theorem treeOf_subtreeFiles :
    treeOf subtreeFiles = .ok subtreeRoot ∧ treeOf subtreeFiles' = .ok subtreeRoot' := by
  have ha : splitTreePath (lit "a/x") = .ok [lit "a", lit "x"] := by decide +kernel
  have hb : splitTreePath (lit "b") = .ok [lit "b"] := by decide +kernel
  have hc : splitTreePath (lit "c") = .ok [lit "c"] := by decide +kernel
  constructor
  · exact insertFiles_cons_ok.mpr ⟨_, ha, List.cons_ne_nil _ _,
      insertFiles_cons_ok.mpr ⟨_, hb, List.cons_ne_nil _ _, rfl⟩⟩
  · exact insertFiles_cons_ok.mpr ⟨_, hc, List.cons_ne_nil _ _,
      insertFiles_cons_ok.mpr ⟨_, ha, List.cons_ne_nil _ _, rfl⟩⟩

theorem hashesApart_subtreeFiles : HashesApart sha256Hex subtreeFiles subtreeFiles' := by
  intro root root' hroot hroot' dir dir' hdir hdir'
  rw [treeOf_subtreeFiles.1, Except.ok.injEq] at hroot
  rw [treeOf_subtreeFiles.2, Except.ok.injEq] at hroot'
  subst hroot hroot'
  simp only [← mem_postorder, ← List.mem_append] at hdir hdir'
  have hall : ∀ dir ∈ postorder subtreeRoot ++ postorder subtreeRoot',
      ∀ dir' ∈ postorder subtreeRoot ++ postorder subtreeRoot',
        ContentAddressing.build sha256Hex dir = ContentAddressing.build sha256Hex dir' →
          (encoded sha256Hex dir).canonicalText = (encoded sha256Hex dir').canonicalText := by
    decide +kernel
  exact hall dir hdir dir' hdir'

theorem subtreeHash_eq_of_subtreeFiles :
    ∃ manifest manifest', buildWorktreeManifest sha256Hex subtreeFiles = .ok manifest ∧
      buildWorktreeManifest sha256Hex subtreeFiles' = .ok manifest' ∧
      manifest.subtreeHash (lit "a") = manifest'.subtreeHash (lit "a") ∧
      manifest.subtreeHash [] ≠ manifest'.subtreeHash [] := by
  obtain ⟨manifest, h, -⟩ :=
    exists_manifest_of_tree sha256Hex treeOf_subtreeFiles.1
  obtain ⟨manifest', h', -⟩ :=
    exists_manifest_of_tree sha256Hex treeOf_subtreeFiles.2
  have hsame := (subtreeHash_eq (by decide +kernel) h).2 subtreeFiles' manifest'
    (by decide +kernel) h' hashesApart_subtreeFiles (by decide +kernel)
  refine ⟨manifest, manifest', h, h', ?_, ?_⟩
  · refine (hsame (lit "a") [lit "a"] (by decide +kernel) (.inr (by decide +kernel))).mpr ?_
    rw [show under (lit "a") subtreeFiles = under (lit "a") subtreeFiles' by decide +kernel]
    exact fun file ↦ Iff.rfl
  · rw [ne_eq, hsame [] [] rfl (.inl rfl)]
    intro hall
    exact absurd ((hall ⟨lit "b", sha256Hex [97], TREE_EXEC_MODE⟩).mp (by decide +kernel))
      (by decide +kernel)

end Vibestudio.Shared

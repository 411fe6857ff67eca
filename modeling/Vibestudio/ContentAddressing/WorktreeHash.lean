import Mathlib
import Vibestudio.ContentAddressing.CanonicalJson
import Vibestudio.ContentAddressing.TreePaths

/-!
# Manifest and worktree hashes

`packages/content-addressing/src/worktree-hash.ts`. A directory node is addressed by the SHA-256 of
the canonical JSON of its sorted entries, a worktree state by the hash of its root pointer.
`buildWorktreeManifest` computes the addresses of a file listing in memory.

SHA-256 is a parameter, `sha256Hex`: nothing below looks inside it. An entry is an object, so it is
the list of its properties; `ManifestHashEntry` is the record type of the source and
`ManifestHashEntry.fields` the object the builders write.

The tree of a listing is a nest of insertion-ordered maps. What matters of it is `lookup`, the file
at a path: inserting a file is an update of `lookup` (`lookup_insertFile`), and two trees without
empty directories and with the same `lookup` have the same hash (`build_eq_of_lookup`), whatever the
order in which their maps were filled.
-/

namespace Vibestudio.ContentAddressing

open Js

/-! ## Entries -/

/-- The value of a property, `undefined` when there is none. -/
def field (entry : Props JsData) (key : JsString) : JsData :=
  (getProp key entry).getD (.leaf .undefined)

theorem field_of_mem {entry : Props JsData} (hnd : (keys entry).Nodup) {k : JsString} {v : JsData}
    (h : (k, v) ∈ entry) : field entry k = v := by
  rw [field, (getProp_eq_some hnd).mpr h, Option.getD_some]

theorem field_assignAll_sort (K : KeyOrder) {l : Props JsData} (hnd : (keys l).Nodup)
    {k : JsString} (hk : k ≠ protoKey) : field (assignAll (K.sort l)) k = field l k := by
  rw [field, field, getProp_assignAll_sort K hnd hk]

/-- `entry.name` of an entry whose name is a string. -/
def entryName (entry : Props JsData) : JsString :=
  match field entry (lit "name") with
  | .leaf (.str name) => name
  | _ => []

inductive ManifestHashEntry where
  | file (name contentHash : JsString) (mode : JsNumber)
  | dir (name childHash : JsString)
deriving DecidableEq

namespace ManifestHashEntry

def name : ManifestHashEntry → JsString
  | file name _ _ => name
  | dir name _ => name

/-- The object literal the builders write. -/
def fields : ManifestHashEntry → Props JsData
  | file name contentHash mode =>
    [(lit "name", .leaf (.str name)), (lit "kind", .leaf (.str (lit "file"))),
      (lit "contentHash", .leaf (.str contentHash)), (lit "mode", .leaf (.num mode))]
  | dir name childHash =>
    [(lit "name", .leaf (.str name)), (lit "kind", .leaf (.str (lit "dir"))),
      (lit "childHash", .leaf (.str childHash))]

/-- The object is the record, with its properties in any order. -/
def Represents (e : ManifestHashEntry) (entry : Props JsData) : Prop := entry.Perm e.fields

theorem fields_injective : Function.Injective fields := by
  intro a b h
  cases a <;> cases b <;> simp_all [fields]

theorem keys_fields (e : ManifestHashEntry) :
    keys e.fields = [lit "name", lit "kind", lit "contentHash", lit "mode"] ∨
      keys e.fields = [lit "name", lit "kind", lit "childHash"] := by
  cases e with
  | file _ _ _ => exact Or.inl rfl
  | dir _ _ => exact Or.inr rfl

theorem nodup_keys_fields (e : ManifestHashEntry) : (keys e.fields).Nodup := by
  rcases keys_fields e with h | h <;> (rw [h]; decide +kernel)

theorem mem_keys_fields {e : ManifestHashEntry} {k : JsString} (h : k ∈ keys e.fields) :
    arrayIndex? k = none ∧ k ≠ protoKey := by
  have hall : ∀ k ∈ [lit "name", lit "kind", lit "contentHash", lit "mode", lit "childHash"],
      arrayIndex? k = none ∧ k ≠ protoKey := by decide +kernel
  refine hall k ?_
  rcases keys_fields e with he | he
  · rw [he] at h
    exact List.mem_append_left [lit "childHash"] h
  · rw [he] at h
    simp only [List.mem_cons, List.not_mem_nil, or_false] at h ⊢
    tauto

variable {e : ManifestHashEntry} {entry : Props JsData}

theorem Represents.keys_perm (h : e.Represents entry) : (keys entry).Perm (keys e.fields) :=
  h.map Prod.fst

theorem Represents.nodup (h : e.Represents entry) : (keys entry).Nodup :=
  h.keys_perm.nodup_iff.mpr (nodup_keys_fields e)

theorem Represents.ordered (h : e.Represents entry) : Ordered entry :=
  ordered_of_noIndex h.nodup fun _ hk ↦ (mem_keys_fields (h.keys_perm.mem_iff.mp hk)).1

theorem represents_fields (e : ManifestHashEntry) : e.Represents e.fields := List.Perm.refl _

/-- A property of the object is the property of the record. -/
theorem Represents.field_eq (h : e.Represents entry) (k : JsString) :
    field entry k = field e.fields k := by
  have hget : getProp k entry = getProp k e.fields := by
    cases hk : getProp k e.fields with
    | none =>
      rw [getProp_eq_none] at hk ⊢
      exact fun hmem ↦ hk (h.keys_perm.mem_iff.mp hmem)
    | some v =>
      rw [getProp_eq_some (nodup_keys_fields e)] at hk
      exact (getProp_eq_some h.nodup).mpr (h.mem_iff.mpr hk)
  rw [field, field, hget]

/-- An object is at most one record. -/
theorem Represents.unique {e' : ManifestHashEntry} (h : e.Represents entry)
    (h' : e'.Represents entry) : e = e' := by
  have hfield : ∀ k, field e.fields k = field e'.fields k := fun k ↦ by
    rw [← h.field_eq, ← h'.field_eq]
  have hname := hfield (lit "name")
  cases e with
  | file name contentHash mode =>
    cases e' with
    | dir => exact absurd (h.symm.trans h').length_eq (Nat.succ_ne_self 3)
    | file name' contentHash' mode' =>
      have hhash := hfield (lit "contentHash")
      have hmode := hfield (lit "mode")
      injection hname with hname
      injection hhash with hhash
      injection hmode with hmode
      injections
      subst_vars
      rfl
  | dir name childHash =>
    cases e' with
    | file => exact absurd (h.symm.trans h').length_eq (Nat.succ_ne_self 3).symm
    | dir name' childHash' =>
      have hchild := hfield (lit "childHash")
      injection hname with hname
      injection hchild with hchild
      injections
      subst_vars
      rfl

theorem Represents.entryName_eq (h : e.Represents entry) : entryName entry = e.name := by
  rw [entryName, h.field_eq]
  cases e <;> rfl

end ManifestHashEntry

/-! ## Hashes -/

section

variable (sha256Hex : List Byte → JsString)

def sha256HexSyncText (text : JsString) : JsString := sha256Hex (utf8Encode text)

/-- `canonicalJson(value)` for a value that is not `undefined`. -/
def canonicalText (value : JsData) : JsString := (canonicalJson value).getD []

def stableSha256Hex (value : JsData) : JsString := sha256HexSyncText sha256Hex (canonicalText value)

/-- `[...entries].sort((a, b) => compareUtf16CodeUnits(a.name, b.name))`. -/
def sortEntries (entries : List (Props JsData)) : List (Props JsData) :=
  entries.insertionSort fun a b ↦ compareUtf16CodeUnits (entryName a) (entryName b) ≤ 0

/-- `{ kind: "dir", entries }`. -/
def nodeValue (entries : List (Props JsData)) : JsData :=
  .obj [(lit "kind", .leaf (.str (lit "dir"))), (lit "entries", .arr (entries.map .obj))]

/-- `{ manifestRootHash: rootHash }`. -/
def rootPointer (rootHash : JsString) : JsData :=
  .obj [(lit "manifestRootHash", .leaf (.str rootHash))]

def manifestHashForEntries (entries : List (Props JsData)) : JsString :=
  lit "manifest:" ++ stableSha256Hex sha256Hex (nodeValue (sortEntries entries))

def stateHashForRoot (rootHash : JsString) : JsString :=
  lit "state:" ++ stableSha256Hex sha256Hex (rootPointer rootHash)

def EMPTY_MANIFEST_HASH : JsString := manifestHashForEntries sha256Hex []

def EMPTY_STATE_HASH : JsString := stateHashForRoot sha256Hex (EMPTY_MANIFEST_HASH sha256Hex)

end

/-- Entries in strictly ascending order of their names are sorted already. -/
theorem sortEntries_of_sorted {entries : List (Props JsData)}
    (h : entries.Pairwise fun a b ↦ entryName a < entryName b) : sortEntries entries = entries :=
  (h.imp fun hab ↦ compareUtf16CodeUnits_nonpos.mpr hab.le).insertionSort_eq

theorem sortEntries_perm (entries : List (Props JsData)) : (sortEntries entries).Perm entries :=
  List.perm_insertionSort _ _

theorem sorted_sortEntries (entries : List (Props JsData)) :
    (sortEntries entries).Pairwise fun a b ↦ entryName a ≤ entryName b := by
  have : Std.Total fun a b : Props JsData ↦
      compareUtf16CodeUnits (entryName a) (entryName b) ≤ 0 :=
    ⟨fun a b ↦ utf16Order.total (entryName a) (entryName b)⟩
  have : IsTrans (Props JsData) fun a b ↦
      compareUtf16CodeUnits (entryName a) (entryName b) ≤ 0 :=
    ⟨fun a b c ↦ utf16Order.trans (entryName a) (entryName b) (entryName c)⟩
  exact (List.pairwise_insertionSort _ entries).imp fun hab ↦ compareUtf16CodeUnits_nonpos.mp hab

/-- Entries with different names are sorted strictly. -/
theorem strictly_sorted_sortEntries {entries : List (Props JsData)}
    (h : (entries.map entryName).Nodup) :
    (sortEntries entries).Pairwise fun a b ↦ entryName a < entryName b := by
  have hnd : ((sortEntries entries).map entryName).Nodup :=
    ((sortEntries_perm entries).map entryName).nodup_iff.mpr h
  exact ((sorted_sortEntries entries).imp₂ (fun a b hle hne ↦ lt_of_le_of_ne hle hne)
    (List.pairwise_map.mp hnd))

/-- Sorting does not see the order of entries with different names. -/
theorem sortEntries_eq_of_perm {l l' : List (Props JsData)} (hperm : l.Perm l')
    (h : (l.map entryName).Nodup) : sortEntries l = sortEntries l' := by
  have h' : (l'.map entryName).Nodup := (hperm.map entryName).nodup_iff.mp h
  have hsorted : (sortEntries l).Perm (sortEntries l') :=
    (sortEntries_perm l).trans (hperm.trans (sortEntries_perm l').symm)
  exact List.Perm.eq_of_pairwise (fun a b _ _ hab hba ↦ absurd hab (lt_asymm hba))
    (strictly_sorted_sortEntries h) (strictly_sorted_sortEntries h') hsorted

end Vibestudio.ContentAddressing

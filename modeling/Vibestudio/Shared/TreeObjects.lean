import Mathlib
import Vibestudio.ContentAddressing.WorktreeHash

/-!
# Tree objects of the content store

`packages/shared/src/contentTree/treeObjects.ts`: the stored form of a directory node and of a state
pointer. Anything can be stored at a digest, so decoding refuses everything but the exact canonical
text of a valid node.

Both directions of the codec are in `treeCodec`. A node encoded from entry records decodes to the
records in sorted order: the canonical text parses to the canonical form, which has the properties
of every record (`represents_canonical`). And a text that decodes is the text its entries encode to,
because the last check of the decoder is that very equality; what has to be shown is that the
earlier checks of the decoder imply the checks of the encoder.

The checks are the source's own, on objects as `JSON.parse` returns them. A regular expression
converts its argument to a string (`toStringOf`), so a one-element array of a digest passes where a
digest is expected; such an entry is accepted by both directions alike.
-/

namespace Vibestudio.Shared

open Js ContentAddressing

/-! ## Checking an entry -/

def isTreeHash (hash : JsString) : Bool :=
  match stripPrefix? (lit "manifest:") hash with
  | some hex => isHexOfLength 64 hex
  | none => false

def isStateHash (hash : JsString) : Bool :=
  match stripPrefix? (lit "state:") hash with
  | some hex => isHexOfLength 64 hex
  | none => false

def isContentHash (hash : JsString) : Bool := isHexOfLength 64 hash

def TREE_FILE_MODE : JsNumber := .ofNat 33188

def TREE_EXEC_MODE : JsNumber := .ofNat 33261

/-- What the functions of this module throw. -/
inductive TreeError where
  | typeError
  | invalidName (name : JsData)
  | invalidContentHash (name : JsData)
  | invalidMode (mode name : JsData)
  | invalidChildHash (name : JsData)
  | invalidKind (kind : JsData)
  | duplicateName (name : JsString)
  | notJson
  | notANode
  | entryNotObject
  | notSorted (prev next : JsString)
  | notCanonical
  | invalidRoot (hash : JsString)
  | stateNotJson
  | stateNotPointer
  | stateNotCanonical
  | path (error : TreePathError)
  | emptyPath
deriving DecidableEq

/-- `JSON.stringify(value)` in a template literal. -/
def shown (value : JsData) : JsString := (stringify value).getD (lit "undefined")

/-- The text of an error; a `TypeError` is the platform's. -/
def TreeError.message : TreeError → Option JsString
  | .typeError => none
  | .invalidName name => some (lit "Invalid tree entry name: " ++ shown name)
  | .invalidContentHash name =>
    some (lit "Invalid file contentHash for " ++ shown name ++ lit ": expected 64-hex sha256")
  | .invalidMode mode name =>
    some (lit "Invalid file mode " ++ (toStringOf mode).getD [] ++ lit " for " ++ shown name ++
      lit ": expected 33188 (regular) or 33261 (executable)")
  | .invalidChildHash name =>
    some (lit "Invalid dir childHash for " ++ shown name ++ lit ": expected manifest:<64-hex>")
  | .invalidKind kind => some (lit "Invalid tree entry kind: " ++ shown kind)
  | .duplicateName name => some (lit "Duplicate tree entry name: " ++ quote name)
  | .notJson => some (lit "Corrupt tree node: not valid JSON")
  | .notANode =>
    some (lit "Corrupt tree node: expected \x7b\"kind\":\"dir\",\"entries\":[...]\x7d")
  | .entryNotObject => some (lit "Corrupt tree node: entry is not an object")
  | .notSorted prev next =>
    some (lit "Corrupt tree node: entries not in UTF-16 code-unit order (" ++ quote prev ++
      lit " !< " ++ quote next ++ lit ")")
  | .notCanonical => some (lit "Corrupt tree node: not in canonical JSON form")
  | .invalidRoot hash => some (lit "Invalid tree root hash: " ++ quote hash)
  | .stateNotJson => some (lit "Corrupt state node: not valid JSON")
  | .stateNotPointer =>
    some (lit "Corrupt state node: expected \x7b\"manifestRootHash\":\"manifest:<hex>\"\x7d")
  | .stateNotCanonical => some (lit "Corrupt state node: not in canonical JSON form")
  | .path error => some error.message
  | .emptyPath => some (lit "encodeWorktreeTree: empty file path")

/-- `RE.test(value)`. -/
def regexTest (re : JsString → Bool) (value : JsData) : Except TreeError Bool :=
  match toStringOf value with
  | some text => .ok (re text)
  | none => .error .typeError

def assertValidEntry (entry : Props JsData) : Except TreeError Unit :=
  let name := field entry (lit "name")
  if isValidTreeEntryName name = false then .error (.invalidName name)
  else if field entry (lit "kind") = .leaf (.str (lit "file")) then
    (regexTest isContentHash (field entry (lit "contentHash"))).bind fun ok ↦
      if ok = false then .error (.invalidContentHash name)
      else if field entry (lit "mode") ≠ .leaf (.num TREE_FILE_MODE) ∧
          field entry (lit "mode") ≠ .leaf (.num TREE_EXEC_MODE) then
        .error (.invalidMode (field entry (lit "mode")) name)
      else .ok ()
  else if field entry (lit "kind") = .leaf (.str (lit "dir")) then
    (regexTest isTreeHash (field entry (lit "childHash"))).bind fun ok ↦
      if ok = false then .error (.invalidChildHash name) else .ok ()
  else .error (.invalidKind (field entry (lit "kind")))

/-! ## Encoding -/

/-- The loop of `normalizeTreeEntries`, with the names seen so far. -/
def checkEntries : List (Props JsData) → List JsString → Except TreeError Unit
  | [], _ => .ok ()
  | entry :: rest, seen => (assertValidEntry entry).bind fun _ ↦
    if entryName entry ∈ seen then .error (.duplicateName (entryName entry))
    else checkEntries rest (entryName entry :: seen)

def normalizeTreeEntries (entries : List (Props JsData)) :
    Except TreeError (List (Props JsData)) :=
  (checkEntries entries []).map fun _ ↦ sortEntries entries

structure EncodedTreeNode where
  treeHash : JsString
  canonicalText : JsString
  entries : List (Props JsData)

structure EncodedStateNode where
  stateHash : JsString
  canonicalText : JsString
deriving DecidableEq

section

variable (sha256Hex : List Byte → JsString)

def encodeTreeNode (entries : List (Props JsData)) : Except TreeError EncodedTreeNode :=
  (normalizeTreeEntries entries).map fun sorted ↦
    { treeHash := manifestHashForEntries sha256Hex sorted
      canonicalText := canonicalText (nodeValue sorted)
      entries := sorted }

def encodeStateNode (rootTreeHash : JsString) : Except TreeError EncodedStateNode :=
  if isTreeHash rootTreeHash = false then .error (.invalidRoot rootTreeHash)
  else .ok
    { stateHash := stateHashForRoot sha256Hex rootTreeHash
      canonicalText := canonicalText (rootPointer rootTreeHash) }

end

/-! ## Decoding -/

/-- The array `parsed.entries` of a value of the shape `{"kind":"dir","entries":[...]}`. -/
def nodeEntries? : JsData → Option (List JsData)
  | .obj kvs =>
    if field kvs (lit "kind") = .leaf (.str (lit "dir")) then
      match field kvs (lit "entries") with
      | .arr entries => some entries
      | _ => none
    else none
  | _ => none

/-- The first loop: every entry is an object and valid. -/
def decodeEntries : List JsData → Except TreeError (List (Props JsData))
  | [] => .ok []
  | .obj entry :: rest => (assertValidEntry entry).bind fun _ ↦
    (decodeEntries rest).map fun entries ↦ entry :: entries
  | _ :: _ => .error .entryNotObject

/-- The second loop: the names ascend strictly. -/
def checkOrder : List (Props JsData) → Except TreeError Unit
  | a :: b :: rest =>
    if 0 ≤ compareUtf16CodeUnits (entryName a) (entryName b) then
      .error (.notSorted (entryName a) (entryName b))
    else checkOrder (b :: rest)
  | _ => .ok ()

def decodeTreeNode (text : JsString) : Except TreeError (List (Props JsData)) :=
  match parse text with
  | none => .error .notJson
  | some parsed =>
    match nodeEntries? parsed with
    | none => .error .notANode
    | some values => (decodeEntries values).bind fun entries ↦ (checkOrder entries).bind fun _ ↦
      if canonicalText (nodeValue entries) ≠ text then .error .notCanonical else .ok entries

/-- `parsed?.manifestRootHash`. -/
def rootHashOf : JsData → JsData
  | .obj kvs => field kvs (lit "manifestRootHash")
  | _ => .leaf .undefined

def decodeStateNode (text : JsString) : Except TreeError JsString :=
  match parse text with
  | none => .error .stateNotJson
  | some parsed =>
    match rootHashOf parsed with
    | .leaf (.str rootHash) =>
      if isTreeHash rootHash = false then .error .stateNotPointer
      else if canonicalText (rootPointer rootHash) ≠ text then .error .stateNotCanonical
      else .ok rootHash
    | _ => .error .stateNotPointer

/-! ## What the checks establish -/

/-- A valid entry has a safe name. -/
theorem exists_name_of_valid {entry : Props JsData} (h : assertValidEntry entry = .ok ()) :
    ∃ name, field entry (lit "name") = .leaf (.str name) ∧ isSafeSegment name = true := by
  rw [assertValidEntry] at h
  split_ifs at h with hname
  all_goals
    rw [Bool.not_eq_false] at hname
    rw [isValidTreeEntryName.eq_def] at hname
    split at hname
    · rename_i name heq
      exact ⟨name, heq, hname⟩
    · exact absurd hname Bool.false_ne_true

/-- A valid file has one of the two modes. -/
theorem mode_of_valid {entry : Props JsData} (h : assertValidEntry entry = .ok ())
    (hkind : field entry (lit "kind") = .leaf (.str (lit "file"))) :
    field entry (lit "mode") = .leaf (.num TREE_FILE_MODE) ∨
      field entry (lit "mode") = .leaf (.num TREE_EXEC_MODE) := by
  rw [assertValidEntry, if_pos hkind] at h
  split_ifs at h
  obtain ⟨ok, -, h⟩ := bind_eq_ok.mp h
  split_ifs at h
  by_contra hne
  exact absurd (not_or.mp hne) ‹_›

theorem assertValidEntry_congr {a b : Props JsData} (h : ∀ k, field a k = field b k) :
    assertValidEntry a = assertValidEntry b := by
  simp only [assertValidEntry, h]

/-- The entries pass every check of the encoder. -/
structure ValidEntries (entries : List (Props JsData)) : Prop where
  valid : ∀ entry ∈ entries, assertValidEntry entry = .ok ()
  nodup : (entries.map entryName).Nodup

theorem checkEntries_eq_ok {entries : List (Props JsData)} : ∀ {seen : List JsString},
    checkEntries entries seen = .ok () ↔
      ValidEntries entries ∧ ∀ entry ∈ entries, entryName entry ∉ seen := by
  induction entries with
  | nil =>
    exact fun {seen} ↦ ⟨fun _ ↦ ⟨⟨fun e he ↦ absurd he List.not_mem_nil, List.nodup_nil⟩,
      fun e he ↦ absurd he List.not_mem_nil⟩, fun _ ↦ rfl⟩
  | cons entry entries ih =>
    intro seen
    rw [checkEntries, bind_eq_ok]
    constructor
    · rintro ⟨_, hvalid, h⟩
      split_ifs at h with hseen
      obtain ⟨hrest, hfresh⟩ := ih.mp h
      refine ⟨⟨List.forall_mem_cons.mpr ⟨hvalid, hrest.valid⟩, ?_⟩,
        List.forall_mem_cons.mpr ⟨hseen, fun e he hmem ↦ ?_⟩⟩
      · rw [List.map_cons, List.nodup_cons]
        refine ⟨fun hmem ↦ ?_, hrest.nodup⟩
        obtain ⟨e, he, heq⟩ := List.mem_map.mp hmem
        exact hfresh e he (heq ▸ List.mem_cons_self)
      · exact hfresh e he (List.mem_cons_of_mem _ hmem)
    · rintro ⟨⟨hvalid, hnd⟩, hfresh⟩
      obtain ⟨hvalid₁, hvalid⟩ := List.forall_mem_cons.mp hvalid
      obtain ⟨hfresh₁, hfresh⟩ := List.forall_mem_cons.mp hfresh
      rw [List.map_cons, List.nodup_cons] at hnd
      refine ⟨(), hvalid₁, ?_⟩
      rw [if_neg hfresh₁]
      refine ih.mpr ⟨⟨hvalid, hnd.2⟩, fun e he hmem ↦ ?_⟩
      rcases List.mem_cons.mp hmem with heq | hmem
      · exact hnd.1 (heq ▸ List.mem_map_of_mem he)
      · exact hfresh e he hmem

/-- **When a list of entries is normalized, and to what.** -/
theorem normalizeTreeEntries_eq_ok {entries sorted : List (Props JsData)} :
    normalizeTreeEntries entries = .ok sorted ↔
      ValidEntries entries ∧ sorted = sortEntries entries := by
  rw [normalizeTreeEntries, map_eq_ok]
  constructor
  · rintro ⟨_, h, rfl⟩
    exact ⟨(checkEntries_eq_ok.mp h).1, rfl⟩
  · rintro ⟨h, rfl⟩
    exact ⟨(), checkEntries_eq_ok.mpr ⟨h, fun _ _ ↦ List.not_mem_nil⟩, rfl⟩

theorem ValidEntries.perm {l l' : List (Props JsData)} (h : ValidEntries l) (hperm : l.Perm l') :
    ValidEntries l' :=
  ⟨fun entry he ↦ h.valid entry (hperm.mem_iff.mpr he),
    (hperm.map entryName).nodup_iff.mp h.nodup⟩

theorem decodeEntries_map {entries : List (Props JsData)}
    (h : ∀ entry ∈ entries, assertValidEntry entry = .ok ()) :
    decodeEntries (entries.map .obj) = .ok entries := by
  induction entries with
  | nil => rfl
  | cons entry entries ih =>
    rw [List.map_cons, decodeEntries, h entry List.mem_cons_self,
      ih fun e he ↦ h e (List.mem_cons_of_mem entry he)]
    rfl

theorem of_decodeEntries {values : List JsData} {entries : List (Props JsData)}
    (h : decodeEntries values = .ok entries) : values = entries.map .obj ∧
      ∀ entry ∈ entries, assertValidEntry entry = .ok () := by
  induction values generalizing entries with
  | nil =>
    obtain rfl : [] = entries := Except.ok.inj h
    exact ⟨rfl, fun e he ↦ absurd he List.not_mem_nil⟩
  | cons v values ih =>
    rw [decodeEntries.eq_def] at h
    split at h
    · rename_i heq
      exact absurd heq (List.cons_ne_nil _ _)
    · rename_i entry rest heq
      obtain ⟨rfl, rfl⟩ := List.cons.inj heq
      obtain ⟨_, hvalid, h⟩ := bind_eq_ok.mp h
      obtain ⟨entries, hrest, rfl⟩ := map_eq_ok.mp h
      obtain ⟨rfl, hall⟩ := ih hrest
      exact ⟨rfl, List.forall_mem_cons.mpr ⟨hvalid, hall⟩⟩
    · exact absurd h (by simp)

theorem checkOrder_eq_ok : ∀ {entries : List (Props JsData)}, checkOrder entries = .ok () ↔
    entries.Pairwise fun a b ↦ entryName a < entryName b
  | [] => ⟨fun _ ↦ List.Pairwise.nil, fun _ ↦ rfl⟩
  | [_] => ⟨fun _ ↦ List.pairwise_singleton _ _, fun _ ↦ rfl⟩
  | a :: b :: rest => by
    have ih : checkOrder (b :: rest) = .ok () ↔
        (b :: rest).Pairwise fun a b ↦ entryName a < entryName b := checkOrder_eq_ok
    have hlt : ¬0 ≤ compareUtf16CodeUnits (entryName a) (entryName b) ↔
        entryName a < entryName b := by
      rw [compareUtf16CodeUnits]
      split_ifs with hab hba
      · simp [hab]
      · simp [hab]
      · simp [hab]
    rw [checkOrder]
    constructor
    · intro h
      split_ifs at h with hle
      have hpair := ih.mp h
      refine List.pairwise_cons.mpr ⟨List.forall_mem_cons.mpr ⟨hlt.mp hle, fun c hc ↦ ?_⟩, hpair⟩
      exact lt_trans (hlt.mp hle) ((List.pairwise_cons.mp hpair).1 c hc)
    · intro h
      rw [List.pairwise_cons] at h
      rw [if_neg (hlt.mpr (h.1 b List.mem_cons_self))]
      exact ih.mpr h.2

/-! ## Canonical entries -/

/-- The canonical form of a record is the record again. -/
theorem represents_canonical {e : ManifestHashEntry} {entry : Props JsData}
    (h : e.Represents entry) :
    ∃ entry', canonical ContentAddressing.scheme (.obj entry) = .obj entry' ∧ e.Represents entry' := by
  have hleaf : entry.map (fun p ↦ (ContentAddressing.scheme.key p.1, canonical ContentAddressing.scheme p.2))
      = entry := by
    conv_rhs => rw [← List.map_id entry]
    refine List.map_congr_left fun p hp ↦ ?_
    have hp' : p ∈ e.fields := h.mem_iff.mp hp
    have hscalar : ∀ q ∈ e.fields, ∃ l, q.2 = .leaf l := by
      cases e <;> simp [ManifestHashEntry.fields]
    obtain ⟨l, hl⟩ := hscalar p hp'
    obtain ⟨k, v⟩ := p
    simp only at hl
    rw [hl]
    rfl
  rw [canonical_obj, hleaf]
  refine ⟨_, rfl, ?_⟩
  have hsnd : (keys (utf16Order.sort entry)).Nodup :=
    (utf16Order.keys_sort_perm entry).nodup_iff.mpr h.nodup
  refine List.Perm.trans ?_ h
  refine (List.perm_ext_iff_of_nodup (List.Nodup.of_map _ (ordered_assignAll _).nodup)
    (List.Nodup.of_map _ h.nodup)).mpr fun p ↦ ?_
  change p ∈ assignAll (utf16Order.sort entry) ↔ p ∈ entry
  rw [mem_assignAll hsnd, KeyOrder.mem_sort]
  refine and_iff_left_of_imp fun hp ↦ ?_
  exact (ManifestHashEntry.mem_keys_fields (h.keys_perm.mem_iff.mp (mem_keys_of_mem hp))).2

/-- Text carries a valid record unchanged. -/
theorem onWire_of_represents {e : ManifestHashEntry} {entry : Props JsData}
    (h : e.Represents entry) (hvalid : assertValidEntry entry = .ok ()) : OnWire (.obj entry) := by
  refine .obj h.ordered fun p hp ↦ ?_
  have hp' : p ∈ e.fields := h.mem_iff.mp hp
  cases e with
  | dir name childHash =>
    simp only [ManifestHashEntry.fields, List.mem_cons, List.not_mem_nil, or_false] at hp'
    rcases hp' with rfl | rfl | rfl <;> exact .leaf ⟨rfl, rfl⟩
  | file name contentHash mode =>
    have hmode : mode = TREE_FILE_MODE ∨ mode = TREE_EXEC_MODE := by
      have := mode_of_valid hvalid (h.field_eq (lit "kind"))
      rw [h.field_eq] at this
      exact this.imp (fun h ↦ by injection h with h; injection h)
        (fun h ↦ by injection h with h; injection h)
    have hwire : wireLeaf (.num mode) = .num mode := by
      rcases hmode with rfl | rfl <;> decide +kernel
    simp only [ManifestHashEntry.fields, List.mem_cons, List.not_mem_nil, or_false] at hp'
    rcases hp' with rfl | rfl | rfl | rfl
    · exact .leaf ⟨rfl, rfl⟩
    · exact .leaf ⟨rfl, rfl⟩
    · exact .leaf ⟨rfl, rfl⟩
    · exact .leaf ⟨rfl, hwire⟩

theorem onWire_nodeValue {entries : List (Props JsData)} (h : ∀ e ∈ entries, OnWire (.obj e)) :
    OnWire (nodeValue entries) := by
  have hord : [lit "kind", lit "entries"].Pairwise OwnBefore := by decide +kernel
  refine .obj hord fun p hp ↦ ?_
  simp only [List.mem_cons, List.not_mem_nil, or_false] at hp
  rcases hp with rfl | rfl
  · exact .leaf ⟨rfl, rfl⟩
  · refine .arr fun v hv ↦ ?_
    obtain ⟨e, he, rfl⟩ := List.mem_map.mp hv
    exact h e he

theorem canonical_nodeValue (entries : List (Props JsData)) :
    canonical ContentAddressing.scheme (nodeValue entries) = .obj (assignAll (utf16Order.sort
      [(lit "kind", .leaf (.str (lit "dir"))),
        (lit "entries", .arr (entries.map fun e ↦ canonical ContentAddressing.scheme (.obj e)))])) := by
  have harr : canonical ContentAddressing.scheme (.arr (entries.map .obj))
      = .arr (entries.map fun e ↦ canonical ContentAddressing.scheme (.obj e)) := by
    rw [canonical_arr, List.map_map]
    rfl
  rw [← harr]
  exact canonical_obj _ _

/-- The properties of a canonical node. -/
theorem nodeEntries?_canonical (entries : List (Props JsData)) :
    nodeEntries? (canonical ContentAddressing.scheme (nodeValue entries))
      = some (entries.map fun e ↦ canonical ContentAddressing.scheme (.obj e)) := by
  have hkind : lit "kind" ≠ protoKey := by decide +kernel
  have hentries : lit "entries" ≠ protoKey := by decide +kernel
  have hnd : (keys [(lit "kind", JsValue.leaf (JsLeaf.str (lit "dir"))),
      (lit "entries", .arr (entries.map fun e ↦ canonical ContentAddressing.scheme (.obj e)))]).Nodup :=
    (by decide +kernel : [lit "kind", lit "entries"].Nodup)
  rw [canonical_nodeValue, nodeEntries?, field_assignAll_sort utf16Order hnd hkind,
    field_assignAll_sort utf16Order hnd hentries, field_of_mem hnd List.mem_cons_self, if_pos rfl,
    field_of_mem hnd (List.mem_cons_of_mem _ List.mem_cons_self)]

/-- Nodes whose entries have one canonical form have one text. -/
theorem canonicalText_nodeValue_congr {l l' : List (Props JsData)}
    (hl : ∀ e ∈ l, OnWire (.obj e)) (hl' : ∀ e ∈ l', OnWire (.obj e))
    (h : l.map (fun e ↦ canonical ContentAddressing.scheme (.obj e))
      = l'.map fun e ↦ canonical ContentAddressing.scheme (.obj e)) :
    canonicalText (nodeValue l) = canonicalText (nodeValue l') := by
  have hcanon : canonical ContentAddressing.scheme (nodeValue l)
      = canonical ContentAddressing.scheme (nodeValue l') := by
    rw [canonical_nodeValue, canonical_nodeValue, h]
  rw [canonicalText, canonicalText,
    canonicalJson_congr (onWire_nodeValue hl).isJson (onWire_nodeValue hl').isJson hcanon]

/-! ## Lists of records -/

/-- `entries.sort((a, b) => compareUtf16CodeUnits(a.name, b.name))` on records. -/
def sortRecords (E : List ManifestHashEntry) : List ManifestHashEntry :=
  E.insertionSort fun a b ↦ compareUtf16CodeUnits a.name b.name ≤ 0

theorem mem_sortRecords {E : List ManifestHashEntry} {e : ManifestHashEntry} :
    e ∈ sortRecords E ↔ e ∈ E := (List.perm_insertionSort _ E).mem_iff

section

variable {α β : Type} {R : α → β → Prop} {r : α → α → Prop} {s : β → β → Prop} [DecidableRel r]
  [DecidableRel s]

theorem forall₂_orderedInsert (h : ∀ a b a' b', R a b → R a' b' → (r a a' ↔ s b b')) {a : α}
    {b : β} (hab : R a b) {l : List α} {l' : List β} (hl : List.Forall₂ R l l') :
    List.Forall₂ R (l.orderedInsert r a) (l'.orderedInsert s b) := by
  induction hl with
  | nil => exact .cons hab .nil
  | @cons a' b' l l' hab' hl ih =>
    rw [List.orderedInsert_cons, List.orderedInsert_cons]
    by_cases hr : r a a'
    · rw [if_pos hr, if_pos ((h a b a' b' hab hab').mp hr)]
      exact .cons hab (.cons hab' hl)
    · rw [if_neg hr, if_neg fun hs ↦ hr ((h a b a' b' hab hab').mpr hs)]
      exact .cons hab' ih

/-- Sorting two lists that correspond, by orders that correspond. -/
theorem forall₂_insertionSort (h : ∀ a b a' b', R a b → R a' b' → (r a a' ↔ s b b')) {l : List α}
    {l' : List β} (hl : List.Forall₂ R l l') :
    List.Forall₂ R (l.insertionSort r) (l'.insertionSort s) := by
  induction hl with
  | nil => exact .nil
  | cons hab _ ih =>
    rw [List.insertionSort_cons, List.insertionSort_cons]
    exact forall₂_orderedInsert h hab ih

theorem forall_mem_of_forall₂ {P : α → Prop} {Q : β → Prop} {l : List α} {l' : List β}
    (hl : List.Forall₂ R l l') (h : ∀ a b, R a b → (P a ↔ Q b)) :
    (∀ a ∈ l, P a) ↔ ∀ b ∈ l', Q b := by
  induction hl with
  | nil => simp
  | cons hab _ ih => rw [List.forall_mem_cons, List.forall_mem_cons, ih, h _ _ hab]

end

/-- The objects are the records, one by one. -/
abbrev AreRecords (E : List ManifestHashEntry) (entries : List (Props JsData)) : Prop :=
  List.Forall₂ ManifestHashEntry.Represents E entries

theorem AreRecords.sort {E : List ManifestHashEntry} {entries : List (Props JsData)}
    (h : AreRecords E entries) : AreRecords (sortRecords E) (sortEntries entries) :=
  forall₂_insertionSort (fun a b a' b' hab hab' ↦ by
    rw [hab.entryName_eq, hab'.entryName_eq]) h

theorem AreRecords.names {E : List ManifestHashEntry} {entries : List (Props JsData)}
    (h : AreRecords E entries) : entries.map entryName = E.map ManifestHashEntry.name := by
  induction h with
  | nil => rfl
  | cons hab _ ih => rw [List.map_cons, List.map_cons, hab.entryName_eq, ih]

/-- Objects of the same records pass the same checks. -/
theorem AreRecords.valid_iff {E : List ManifestHashEntry} {entries : List (Props JsData)}
    (h : AreRecords E entries) : (∀ e ∈ E, assertValidEntry e.fields = .ok ()) ↔
      ∀ entry ∈ entries, assertValidEntry entry = .ok () :=
  forall_mem_of_forall₂ h fun e entry hr ↦ by
    rw [assertValidEntry_congr fun k ↦ hr.field_eq k]

theorem AreRecords.onWire {E : List ManifestHashEntry} {entries : List (Props JsData)}
    (h : AreRecords E entries) (hvalid : ∀ entry ∈ entries, assertValidEntry entry = .ok ()) :
    ∀ entry ∈ entries, OnWire (.obj entry) := by
  induction h with
  | nil => exact fun e he ↦ absurd he List.not_mem_nil
  | cons hab _ ih =>
    rw [List.forall_mem_cons] at hvalid ⊢
    exact ⟨onWire_of_represents hab hvalid.1, ih hvalid.2⟩

/-- The canonical forms of records are the records again. -/
theorem AreRecords.exists_canonical {E : List ManifestHashEntry} {entries : List (Props JsData)}
    (h : AreRecords E entries) : ∃ D, AreRecords E D ∧
      entries.map (fun e ↦ canonical ContentAddressing.scheme (.obj e)) = D.map .obj := by
  induction h with
  | nil => exact ⟨[], .nil, rfl⟩
  | cons hab _ ih =>
    obtain ⟨D, hD, heq⟩ := ih
    obtain ⟨entry', hcanon, hr⟩ := represents_canonical hab
    exact ⟨entry' :: D, .cons hr hD, by rw [List.map_cons, List.map_cons, hcanon, heq]⟩

/-! ## The codec -/

section

variable {sha256Hex : List Byte → JsString}

theorem encodeTreeNode_eq_ok {entries : List (Props JsData)} {node : EncodedTreeNode} :
    encodeTreeNode sha256Hex entries = .ok node ↔ ValidEntries entries ∧
      node = ⟨manifestHashForEntries sha256Hex (sortEntries entries),
        canonicalText (nodeValue (sortEntries entries)), sortEntries entries⟩ := by
  rw [encodeTreeNode, map_eq_ok]
  constructor
  · rintro ⟨S, hS, rfl⟩
    obtain ⟨hvalid, rfl⟩ := normalizeTreeEntries_eq_ok.mp hS
    exact ⟨hvalid, rfl⟩
  · rintro ⟨hvalid, rfl⟩
    exact ⟨_, normalizeTreeEntries_eq_ok.mpr ⟨hvalid, rfl⟩, rfl⟩

/-- **A node of records decodes to the sorted records.** -/
theorem decodeTreeNode_encodeTreeNode {E : List ManifestHashEntry} {entries : List (Props JsData)}
    (hE : AreRecords E entries) {node : EncodedTreeNode}
    (h : encodeTreeNode sha256Hex entries = .ok node) :
    ∃ D, decodeTreeNode node.canonicalText = .ok D ∧ AreRecords (sortRecords E) D := by
  obtain ⟨hvalid, rfl⟩ := encodeTreeNode_eq_ok.mp h
  have hS : AreRecords (sortRecords E) (sortEntries entries) := hE.sort
  have hSvalid : ValidEntries (sortEntries entries) := hvalid.perm (sortEntries_perm entries).symm
  obtain ⟨D, hD, hcanon⟩ := hS.exists_canonical
  have hDvalid : ∀ entry ∈ D, assertValidEntry entry = .ok () :=
    hD.valid_iff.mp (hS.valid_iff.mpr hSvalid.valid)
  have hwire := hS.onWire hSvalid.valid
  refine ⟨D, ?_, hD⟩
  obtain ⟨t, ht, hparse⟩ := parse_canonicalJson (onWire_nodeValue hwire)
  have htext : canonicalText (nodeValue (sortEntries entries)) = t := by
    rw [canonicalText, ht, Option.getD_some]
  have horder : checkOrder D = .ok () := by
    rw [checkOrder_eq_ok, ← List.pairwise_map (f := entryName) (R := (· < ·)), hD.names, ← hS.names,
      List.pairwise_map]
    exact strictly_sorted_sortEntries hvalid.nodup
  have hsame : canonicalText (nodeValue D) = t := by
    rw [← htext]
    refine canonicalText_nodeValue_congr (hD.onWire hDvalid) hwire ?_
    have hidem : ∀ e ∈ sortEntries entries,
        canonical ContentAddressing.scheme (canonical ContentAddressing.scheme (.obj e))
        = canonical ContentAddressing.scheme (.obj e) := fun e he ↦
      canonical_idem (S := ContentAddressing.scheme) (fun _ ↦ rfl) (fun _ ↦ rfl) (hwire e he).distinct
    calc D.map (fun e ↦ canonical ContentAddressing.scheme (.obj e))
        = (D.map .obj).map (canonical ContentAddressing.scheme) := by rw [List.map_map]; rfl
      _ = (sortEntries entries).map fun e ↦
            canonical ContentAddressing.scheme (canonical ContentAddressing.scheme (.obj e)) := by
        rw [← hcanon, List.map_map]
        rfl
      _ = (sortEntries entries).map fun e ↦ canonical ContentAddressing.scheme (.obj e) := List.map_congr_left hidem
  rw [htext, decodeTreeNode, hparse]
  simp only
  rw [nodeEntries?_canonical, hcanon]
  simp only
  rw [decodeEntries_map hDvalid]
  simp only [Except.bind, horder, hsame, ne_eq, not_true_eq_false, if_false]

/-- What a successful decoding has checked. -/
theorem decodeTreeNode_eq_ok {text : JsString} {D : List (Props JsData)}
    (h : decodeTreeNode text = .ok D) : (∀ entry ∈ D, assertValidEntry entry = .ok ()) ∧
      (D.Pairwise fun a b ↦ entryName a < entryName b) ∧ canonicalText (nodeValue D) = text := by
  rw [decodeTreeNode] at h
  split at h
  · exact absurd h (by simp)
  · split at h
    · exact absurd h (by simp)
    · obtain ⟨entries, hentries, h⟩ := bind_eq_ok.mp h
      obtain ⟨_, horder, h⟩ := bind_eq_ok.mp h
      split_ifs at h with hcanon
      obtain rfl := Except.ok.inj h
      exact ⟨(of_decodeEntries hentries).2, checkOrder_eq_ok.mp horder, not_not.mp hcanon⟩

/-- **A text that decodes is what its entries encode to.** -/
theorem encodeTreeNode_decodeTreeNode {text : JsString} {D : List (Props JsData)}
    (h : decodeTreeNode text = .ok D) : encodeTreeNode sha256Hex D
      = .ok ⟨lit "manifest:" ++ sha256Hex (utf8Encode text), text, D⟩ := by
  obtain ⟨hvalid, hsorted, hcanon⟩ := decodeTreeNode_eq_ok h
  have hnd : (D.map entryName).Nodup :=
    List.pairwise_map.mpr (hsorted.imp fun hab ↦ ne_of_lt hab)
  have hsame : sortEntries D = D := sortEntries_of_sorted hsorted
  refine encodeTreeNode_eq_ok.mpr ⟨⟨hvalid, hnd⟩, ?_⟩
  rw [hsame, manifestHashForEntries, hsame, stableSha256Hex, hcanon]
  rfl

theorem encodeStateNode_eq_ok {rootHash : JsString} {node : EncodedStateNode} :
    encodeStateNode sha256Hex rootHash = .ok node ↔ isTreeHash rootHash = true ∧
      node = ⟨stateHashForRoot sha256Hex rootHash, canonicalText (rootPointer rootHash)⟩ := by
  rw [encodeStateNode]
  split_ifs with hroot
  · simp [hroot]
  · rw [Except.ok.injEq, Bool.not_eq_false] at *
    exact ⟨fun h ↦ ⟨hroot, h.symm⟩, fun h ↦ h.2.symm⟩

theorem decodeStateNode_encodeStateNode {rootHash : JsString} {node : EncodedStateNode}
    (h : encodeStateNode sha256Hex rootHash = .ok node) :
    decodeStateNode node.canonicalText = .ok rootHash := by
  obtain ⟨hroot, rfl⟩ := encodeStateNode_eq_ok.mp h
  have hwire : OnWire (rootPointer rootHash) := by
    refine .obj (List.pairwise_singleton _ _) fun p hp ↦ ?_
    rw [List.mem_singleton.mp hp]
    exact .leaf ⟨rfl, rfl⟩
  have hproto : lit "manifestRootHash" ≠ protoKey := by decide +kernel
  obtain ⟨t, ht, hparse⟩ := parse_canonicalJson hwire
  have htext : canonicalText (rootPointer rootHash) = t := by
    rw [canonicalText, ht, Option.getD_some]
  have hget : rootHashOf (canonical ContentAddressing.scheme (rootPointer rootHash)) = .leaf (.str rootHash) := by
    have hnd : (keys [(lit "manifestRootHash", JsValue.leaf (JsLeaf.str rootHash))]).Nodup :=
      List.nodup_singleton _
    rw [rootPointer, canonical_obj, rootHashOf]
    exact (field_assignAll_sort utf16Order hnd hproto).trans (field_of_mem hnd List.mem_cons_self)
  rw [htext, decodeStateNode, hparse]
  simp only [hget, hroot, Bool.true_eq_false, if_false, htext, ne_eq, not_true_eq_false]

theorem encodeStateNode_decodeStateNode {text rootHash : JsString}
    (h : decodeStateNode text = .ok rootHash) : encodeStateNode sha256Hex rootHash
      = .ok ⟨lit "state:" ++ sha256Hex (utf8Encode text), text⟩ := by
  rw [decodeStateNode] at h
  split at h
  · exact absurd h (by simp)
  · split at h
    · split_ifs at h with hroot hcanon
      obtain rfl := Except.ok.inj h
      rw [encodeStateNode, if_neg hroot, stateHashForRoot, stableSha256Hex, not_not.mp hcanon]
      rfl
    · exact absurd h (by simp)

end

/-- **The codec of tree and state nodes**, in both directions and for every hash function. -/
theorem treeCodec (sha256Hex : List Byte → JsString) :
    (∀ E entries node, AreRecords E entries → encodeTreeNode sha256Hex entries = .ok node →
      ∃ D, decodeTreeNode node.canonicalText = .ok D ∧ AreRecords (sortRecords E) D) ∧
    (∀ text D, decodeTreeNode text = .ok D →
      (∃ node, encodeTreeNode sha256Hex D = .ok node ∧ node.canonicalText = text ∧
        node.entries = D ∧ node.treeHash = lit "manifest:" ++ sha256Hex (utf8Encode text)) ∧
      (D.Pairwise fun a b ↦ entryName a < entryName b) ∧
      ∀ entry ∈ D, ∃ name, field entry (lit "name") = .leaf (.str name) ∧
        isSafeSegment name = true) ∧
    (∀ rootHash node, encodeStateNode sha256Hex rootHash = .ok node →
      decodeStateNode node.canonicalText = .ok rootHash) ∧
    ∀ text rootHash, decodeStateNode text = .ok rootHash →
      ∃ node, encodeStateNode sha256Hex rootHash = .ok node ∧ node.canonicalText = text ∧
        node.stateHash = lit "state:" ++ sha256Hex (utf8Encode text) := by
  refine ⟨fun E entries node hE h ↦ decodeTreeNode_encodeTreeNode hE h, fun text D h ↦ ?_,
    fun rootHash node h ↦ decodeStateNode_encodeStateNode h, fun text rootHash h ↦ ?_⟩
  · obtain ⟨hvalid, hsorted, -⟩ := decodeTreeNode_eq_ok h
    exact ⟨⟨_, encodeTreeNode_decodeTreeNode h, rfl, rfl, rfl⟩, hsorted,
      fun entry he ↦ exists_name_of_valid (hvalid entry he)⟩
  · exact ⟨_, encodeStateNode_decodeStateNode h, rfl, rfl⟩

end Vibestudio.Shared

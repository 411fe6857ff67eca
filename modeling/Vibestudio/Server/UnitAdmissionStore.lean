import Mathlib
import Vibestudio.Js.Json
import Vibestudio.Js.Map
import Vibestudio.Js.Parsed

/-!
# The unit admission store

`src/server/services/unitAdmissionStore.ts`: the admitted unit versions, in memory and in a JSON file
that is replaced as a whole before the memory follows. A record is the plain object that is written,
with the fields and in the order of the source, so that what `load` checks can be said of what `save`
writes: `load_save`.

Rollback compares records by reference. A record in memory is therefore the object with a number for
its reference, drawn when the object is made.
-/

namespace Vibestudio.Server.UnitAdmissions

open Js

/-! ## Records -/

inductive UnitAdmissionOrigin where
  | workspaceCreation | templateInstall | publication | launchGate | hostBuild | chrome
  deriving DecidableEq

def UnitAdmissionOrigin.text : UnitAdmissionOrigin → JsString
  | workspaceCreation => lit "workspace-creation"
  | templateInstall => lit "template-install"
  | publication => lit "publication"
  | launchGate => lit "launch-gate"
  | hostBuild => lit "host-build"
  | chrome => lit "chrome"

/-- `UNIT_ADMISSION_ORIGINS`. -/
def unitAdmissionOrigins : List JsString :=
  [lit "workspace-creation", lit "template-install", lit "publication", lit "launch-gate",
    lit "host-build", lit "chrome"]

structure UnitSourceOrigin where
  originKey : JsString
  url : Option JsString
  version : Option JsString
  selfName : Option JsString
  isWorkspaceRoot : Bool

/-- `M` is the type of authority manifests. -/
structure UnitAdmissionIdentity (M : Type) where
  repoPath : JsString
  effectiveVersion : JsString
  authority : M
  serviceAuthorityDigest : Option JsString

/-- The digests of the store: of a manifest, of a migrated binding digest, and of no services. -/
structure AdmissionDigests (M : Type) where
  authorityDigest : M → JsString
  migrated : JsString → JsString
  emptyServiceAuthorityDigest : JsString
  authorityDigest_hex : ∀ authority, isHexOfLength 64 (authorityDigest authority) = true
  emptyServiceAuthorityDigest_hex : isHexOfLength 64 emptyServiceAuthorityDigest = true

/-- `AdmittedUnitVersion`, as the object it is. -/
abbrev AdmittedUnitVersion := Props JsData

/-- The text of a field that has one. -/
def textField (name : String) (record : AdmittedUnitVersion) : Option JsString :=
  match getProp (lit name) record with
  | some (.leaf (.str s)) => some s
  | _ => none

def nul : JsString := [0]

/-- `` `${repoPath}\0${effectiveVersion}\0${digest}\0${serviceAuthorityDigest}` ``. -/
def joinKey (repoPath effectiveVersion digest serviceAuthorityDigest : JsString) : JsString :=
  repoPath ++ nul ++ effectiveVersion ++ nul ++ digest ++ nul ++ serviceAuthorityDigest

/-- `identityKey` of a record. -/
def recordKey (record : AdmittedUnitVersion) : JsString :=
  joinKey ((textField "repoPath" record).getD []) ((textField "effectiveVersion" record).getD [])
    ((textField "authorityDigest" record).getD [])
    ((textField "serviceAuthorityDigest" record).getD [])

section

variable {M : Type} (digests : AdmissionDigests M)

/-- `identityKey` of an identity. -/
def identityKey (identity : UnitAdmissionIdentity M) : JsString :=
  joinKey identity.repoPath identity.effectiveVersion (digests.authorityDigest identity.authority)
    (identity.serviceAuthorityDigest.getD digests.emptyServiceAuthorityDigest)

def textOrNull (s : Option JsString) : JsData := s.elim (.leaf .null) fun s ↦ .leaf (.str s)

/-- `...(source ? { … } : {})`. -/
def sourceFields (source : Option UnitSourceOrigin) : AdmittedUnitVersion :=
  match source with
  | none => []
  | some source =>
    [(lit "sourceOriginKey", .leaf (.str source.originKey)),
      (lit "sourceUrl", textOrNull source.url)] ++
    (if source.version.any (decide <| · ≠ []) then
      [(lit "sourceVersion", textOrNull source.version)] else []) ++
    (if source.selfName.any (decide <| · ≠ []) then
      [(lit "sourceSelfName", textOrNull source.selfName)] else []) ++
    (if source.isWorkspaceRoot then [(lit "sourceIsWorkspaceRoot", .leaf (.bool true))] else [])

/-- The record `admitMany` makes of an identity. -/
def admissionRecord (identity : UnitAdmissionIdentity M) (origin : UnitAdmissionOrigin)
    (now : JsNumber) (source : Option UnitSourceOrigin) : AdmittedUnitVersion :=
  [(lit "repoPath", .leaf (.str identity.repoPath)),
    (lit "effectiveVersion", .leaf (.str identity.effectiveVersion)),
    (lit "authorityDigest", .leaf (.str (digests.authorityDigest identity.authority))),
    (lit "serviceAuthorityDigest", .leaf (.str
      (identity.serviceAuthorityDigest.getD digests.emptyServiceAuthorityDigest))),
    (lit "origin", .leaf (.str origin.text)),
    (lit "admittedAt", .leaf (.num now))] ++ sourceFields source

end

/-! ## The file -/

def admissionKeys : List JsString :=
  [lit "admittedAt", lit "authorityDigest", lit "serviceAuthorityDigest", lit "effectiveVersion",
    lit "origin", lit "repoPath", lit "sourceOriginKey", lit "sourceUrl", lit "sourceVersion",
    lit "sourceSelfName", lit "sourceIsWorkspaceRoot"]

def v4AdmissionKeys : List JsString :=
  admissionKeys.filter (decide <| · ≠ lit "serviceAuthorityDigest") ++ [lit "serviceBindingDigest"]

/-- `/^[0-9a-f]{64}$/u.test(…)` of a field that is a string. -/
def isDigestField (name : String) (record : AdmittedUnitVersion) : Bool :=
  (textField name record).any (isHexOfLength 64)

/-- A string that is not empty. -/
def isTextField (name : String) (record : AdmittedUnitVersion) : Bool :=
  (textField name record).any (decide <| · ≠ [])

/-- A field that is `undefined` or passes a check. -/
def isOptionalField (name : String) (check : JsLeaf → Bool) (record : AdmittedUnitVersion) : Bool :=
  match getProp (lit name) record with
  | none | some (.leaf .undefined) => true
  | some (.leaf leaf) => check leaf
  | some _ => false

def isText : JsLeaf → Bool
  | .str _ => true
  | _ => false

def isTextOrNull : JsLeaf → Bool
  | .str _ | .null => true
  | _ => false

def isBoolean : JsLeaf → Bool
  | .bool _ => true
  | _ => false

/-- `typeof record["admittedAt"] === "number" && Number.isFinite(record["admittedAt"])`. -/
def isTimeField (record : AdmittedUnitVersion) : Bool :=
  match getProp (lit "admittedAt") record with
  | some (.leaf (.num x)) => x.isFinite
  | _ => false

/-- `isAdmission` of an object. -/
def isAdmission (record : AdmittedUnitVersion) : Bool :=
  (keys record).all (decide <| · ∈ admissionKeys) &&
  isOptionalField "sourceOriginKey" isText record &&
  isOptionalField "sourceUrl" isTextOrNull record &&
  isOptionalField "sourceVersion" isTextOrNull record &&
  isOptionalField "sourceSelfName" isTextOrNull record &&
  isOptionalField "sourceIsWorkspaceRoot" isBoolean record &&
  isTextField "repoPath" record && isTextField "effectiveVersion" record &&
  isDigestField "authorityDigest" record && isDigestField "serviceAuthorityDigest" record &&
  (textField "origin" record).any (decide <| · ∈ unitAdmissionOrigins) &&
  isTimeField record

def isV4Admission (record : AdmittedUnitVersion) : Bool :=
  (keys record).all (decide <| · ∈ v4AdmissionKeys) && isDigestField "serviceBindingDigest" record

section

variable {M : Type} (digests : AdmissionDigests M)

/-- `migrateV4Admission` of an object that is a V4 admission. -/
def migrateV4Admission (record : AdmittedUnitVersion) : AdmittedUnitVersion :=
  createData (record.filter (decide <| ·.1 ≠ lit "serviceBindingDigest"))
    (lit "serviceAuthorityDigest")
    (.leaf (.str (digests.migrated ((textField "serviceBindingDigest" record).getD []))))

/-- The record of an element of `parsed.admissions`, when it is one. -/
def readAdmission (v4 : Bool) : JsData → Option AdmittedUnitVersion
  | .obj record =>
    if v4 && !isV4Admission record then none
    else
      let admission := if v4 then migrateV4Admission digests record else record
      if isAdmission admission then some admission else none
  | _ => none

inductive LoadError where
  | syntaxError
  | otherEpoch
  | invalidRecord
  deriving DecidableEq

/-- The loop of `load`. -/
def readAdmissions (v4 : Bool) (admissions : JsMap JsString AdmittedUnitVersion) :
    List JsData → Except LoadError (JsMap JsString AdmittedUnitVersion)
  | [] => .ok admissions
  | rawAdmission :: rest => match readAdmission digests v4 rawAdmission with
    | none => .error .invalidRecord
    | some admission =>
      readAdmissions v4 (JsMap.set admissions (recordKey admission) admission) rest

/-- `parsed.schemaVersion`, as far as it is looked at. -/
def schemaVersion (root : Props JsData) : Option ℤ :=
  match getProp (lit "schemaVersion") root with
  | some (.leaf (.num x)) => x.safeInteger?
  | _ => none

/-- `load`, of the text of the file when there is one. -/
def load : Option JsString → Except LoadError (JsMap JsString AdmittedUnitVersion)
  | none => .ok []
  | some source => match parse source with
    | none => .error .syntaxError
    | some (.obj root) => match getProp (lit "admissions") root with
      | some (.arr admissions) =>
        if schemaVersion root = some 4 then readAdmissions digests true [] admissions
        else if schemaVersion root = some 5 then readAdmissions digests false [] admissions
        else .error .otherEpoch
      | _ => .error .otherEpoch
    | some _ => .error .otherEpoch

end

/-- The number 5. -/
def five : JsNumber := .finite false ⟨5 * 2 ^ 50, -50, by norm_num, by norm_num, by norm_num, .inl (by norm_num)⟩

/-- The text `save` writes. `localeCompare` is the order of the keys. -/
def savedText (localeCompare : JsString → JsString → Bool) (admissions : List AdmittedUnitVersion) :
    JsString :=
  ((stringifyWith (lit "  ") (.obj [(lit "schemaVersion", .leaf (.num five)),
    (lit "admissions", .arr ((admissions.mergeSort fun left right ↦
      localeCompare (recordKey left) (recordKey right)).map .obj))])).getD []) ++ [10]

/-! ## What is read back -/

/-- What a text shows of a record: all but the sign of a zero. -/
def onWire (record : AdmittedUnitVersion) : AdmittedUnitVersion :=
  record.map fun p ↦ (p.1, p.2.mapLeaf wireLeaf)

theorem getProp_onWire (k : JsString) (record : AdmittedUnitVersion) :
    getProp k (onWire record) = (getProp k record).map fun v ↦ v.mapLeaf wireLeaf := by
  induction record with
  | nil => rfl
  | cons p record ih =>
    simp only [getProp, onWire, List.map_cons, List.find?_cons] at ih ⊢
    by_cases hk : p.1 = k
    · simp [hk]
    · simpa [hk] using ih

theorem textField_onWire (name : String) (record : AdmittedUnitVersion) :
    textField name (onWire record) = textField name record := by
  rw [textField, textField, getProp_onWire]
  cases getProp (lit name) record with
  | none => rfl
  | some v =>
    cases v with
    | leaf l =>
      cases l with
      | num x => cases x <;> rfl
      | _ => rfl
    | arr | obj => simp

theorem recordKey_onWire (record : AdmittedUnitVersion) : recordKey (onWire record) = recordKey record := by
  rw [recordKey, recordKey, textField_onWire, textField_onWire, textField_onWire, textField_onWire]

theorem keys_onWire (record : AdmittedUnitVersion) : keys (onWire record) = keys record :=
  keys_map_snd _ record

theorem onWire_onWire (record : AdmittedUnitVersion) : onWire (onWire record) = onWire record := by
  have hleaf : ∀ l, wireLeaf (wireLeaf l) = wireLeaf l := by
    intro l
    cases l with
    | num x =>
      by_cases hx : x.isFinite = true
      · simp [wireLeaf, hx, JsNumber.isFinite_unsigned, JsNumber.unsigned_unsigned]
      · simp [wireLeaf, hx]
    | _ => rfl
  rw [onWire, onWire, List.map_map]
  refine List.map_congr_left fun p _ ↦ ?_
  have hvalue : (p.2.mapLeaf wireLeaf).mapLeaf wireLeaf = p.2.mapLeaf wireLeaf := by
    induction p.2 using JsValue.induct with
    | leaf l => rw [JsValue.mapLeaf_leaf, JsValue.mapLeaf_leaf, hleaf]
    | arr xs ih => simpa using ih
    | obj kvs ih =>
      simp only [JsValue.mapLeaf_obj, List.map_map, JsValue.obj.injEq]
      refine List.map_congr_left fun q hq ↦ ?_
      exact congrArg (Prod.mk q.1) (ih q hq)
  exact congrArg (Prod.mk p.1) hvalue

/-- A record that is one, of JSON data. -/
structure Admissible (record : AdmittedUnitVersion) : Prop where
  admission : isAdmission record = true
  json : IsJson (.obj record)

theorem isOptionalField_onWire {name : String} {check : JsLeaf → Bool}
    (hcheck : ∀ l, check l = true → check (wireLeaf l) = true) {record : AdmittedUnitVersion}
    (hjson : IsJson (.obj record)) (h : isOptionalField name check record = true) :
    isOptionalField name check (onWire record) = true := by
  rw [isOptionalField] at h ⊢
  rw [getProp_onWire]
  cases hget : getProp (lit name) record with
  | none => rfl
  | some v =>
    rw [hget] at h
    cases v with
    | leaf l =>
      have hmem : (lit name, .leaf l) ∈ record :=
        (getProp_eq_some (JsValue.wellFormed_obj.mp hjson).1.nodup).mp hget
      have hdefined : l.isUndefined = false := by
        have hleaf : IsJson (.leaf l) := (JsValue.wellFormed_obj.mp hjson).2 _ hmem
        cases hleaf with
        | leaf hl => exact hl
      cases l with
      | undefined => cases hdefined
      | num x =>
        have hnum := hcheck _ h
        rw [Option.map_some, JsValue.mapLeaf_leaf]
        rw [wireLeaf] at hnum ⊢
        split_ifs at hnum ⊢ <;> exact hnum
      | _ => exact h
    | arr | obj => cases h

/-- **What is read back of a record is one.** -/
theorem Admissible.onWire {record : AdmittedUnitVersion} (h : Admissible record) :
    isAdmission (onWire record) = true := by
  have hadmission := h.admission
  simp only [isAdmission, Bool.and_eq_true] at hadmission ⊢
  obtain ⟨⟨⟨⟨⟨⟨⟨⟨⟨⟨⟨hkeys, hkey⟩, hurl⟩, hversion⟩, hname⟩, hroot⟩, hrepo⟩, heffective⟩,
    hauthority⟩, hservice⟩, horigin⟩, htime⟩ := hadmission
  have htext : ∀ l, isText l = true → isText (wireLeaf l) = true := by
    intro l hl
    cases l with
    | num x | undefined => cases hl
    | _ => exact hl
  have hnull : ∀ l, isTextOrNull l = true → isTextOrNull (wireLeaf l) = true := by
    intro l hl
    cases l with
    | num x | undefined => cases hl
    | _ => exact hl
  have hbool : ∀ l, isBoolean l = true → isBoolean (wireLeaf l) = true := by
    intro l hl
    cases l with
    | num x | undefined => cases hl
    | _ => exact hl
  refine ⟨⟨⟨⟨⟨⟨⟨⟨⟨⟨⟨?_, isOptionalField_onWire htext h.json hkey⟩,
    isOptionalField_onWire hnull h.json hurl⟩, isOptionalField_onWire hnull h.json hversion⟩,
    isOptionalField_onWire hnull h.json hname⟩, isOptionalField_onWire hbool h.json hroot⟩, ?_⟩, ?_⟩,
    ?_⟩, ?_⟩, ?_⟩, ?_⟩
  · rw [keys_onWire]
    exact hkeys
  · rwa [isTextField, textField_onWire]
  · rwa [isTextField, textField_onWire]
  · rwa [isDigestField, textField_onWire]
  · rwa [isDigestField, textField_onWire]
  · rwa [textField_onWire]
  · rw [isTimeField] at htime ⊢
    rw [getProp_onWire]
    split at htime
    · rename_i x hget
      rw [hget]
      simp [wireLeaf, htime, JsNumber.isFinite_unsigned]
    · cases htime

theorem allSpace_indent : AllSpace (lit "  ") := by
  intro c hc
  have hspace : c = 32 := by simpa [lit] using hc
  subst hspace
  decide

/-- The text of JSON data and a line break behind it. -/
theorem parse_savedLine {gap : JsString} (hg : AllSpace gap) {v : JsData} (hv : IsJson v) :
    parse ((stringifyWith gap v).getD [] ++ [10]) = some (v.mapLeaf wireLeaf) := by
  obtain ⟨t, ht, -, hread⟩ := readsBack hg hv [] allSpace_nil
  have hend : NumberEnd [10] := by
    intro c hc
    rw [List.head?_cons, Option.mem_some_iff] at hc
    subst hc
    decide
  have hparse := hread (2 * (t ++ [10]).length + 2) [] [10] allSpace_nil hend (by
    rw [List.length_append]
    omega)
  rw [List.nil_append] at hparse
  rw [stringifyWith, ht, Option.getD_some, parse, hparse, Option.bind_some]
  rfl

section

variable {M : Type} (digests : AdmissionDigests M)

theorem readAdmissions_objects {records : List AdmittedUnitVersion}
    (h : ∀ record ∈ records, isAdmission record = true) (m : JsMap JsString AdmittedUnitVersion) :
    readAdmissions digests false m (records.map .obj) =
      .ok (records.foldl (fun m record ↦ JsMap.set m (recordKey record) record) m) := by
  induction records generalizing m with
  | nil => rfl
  | cons record records ih =>
    obtain ⟨hrecord, hrecords⟩ := List.forall_mem_cons.mp h
    have hread : readAdmission digests false (.obj record) = some record := by
      simp [readAdmission, hrecord]
    rw [List.map_cons, readAdmissions, hread]
    exact ih hrecords _

/-- The entry of a key in a map of records under their own keys. -/
theorem get_foldl_set {records : List AdmittedUnitVersion} (hkeys : (records.map recordKey).Nodup)
    (m : JsMap JsString AdmittedUnitVersion) {record : AdmittedUnitVersion} {k : JsString} :
    JsMap.get k (records.foldl (fun m record ↦ JsMap.set m (recordKey record) record) m) =
      some record ↔ (record ∈ records ∧ recordKey record = k) ∨
        k ∉ records.map recordKey ∧ JsMap.get k m = some record := by
  induction records generalizing m with
  | nil => simp
  | cons r records ih =>
    obtain ⟨hr, hkeys⟩ := List.nodup_cons.mp hkeys
    rw [List.foldl_cons, ih hkeys, JsMap.get_set]
    by_cases hk : k = recordKey r
    · subst hk
      rw [if_pos rfl]
      simp only [List.mem_cons, List.map_cons, not_or, Option.some.injEq]
      constructor
      · rintro (⟨hmem, hkey⟩ | ⟨-, rfl⟩)
        · exact absurd (hkey ▸ List.mem_map_of_mem hmem) hr
        · exact .inl ⟨.inl rfl, rfl⟩
      · rintro (⟨rfl | hmem, hkey⟩ | ⟨⟨hne, -⟩, -⟩)
        · exact .inr ⟨hr, rfl⟩
        · exact absurd (hkey ▸ List.mem_map_of_mem hmem) hr
        · exact absurd trivial hne
    · rw [if_neg hk]
      simp only [List.mem_cons, List.map_cons, not_or]
      constructor
      · rintro (⟨hmem, hkey⟩ | ⟨hnot, hget⟩)
        · exact .inl ⟨.inr hmem, hkey⟩
        · exact .inr ⟨⟨hk, hnot⟩, hget⟩
      · rintro (⟨rfl | hmem, hkey⟩ | ⟨⟨-, hnot⟩, hget⟩)
        · exact absurd hkey.symm hk
        · exact .inl ⟨hmem, hkey⟩
        · exact .inr ⟨hnot, hget⟩

/-- **What `save` writes, `load` reads.** -/
theorem load_save (localeCompare : JsString → JsString → Bool) {records : List AdmittedUnitVersion}
    (h : ∀ record ∈ records, Admissible record) (hkeys : (records.map recordKey).Nodup) :
    ∃ loaded, load digests (some (savedText localeCompare records)) = .ok loaded ∧
      ∀ k record, JsMap.get k loaded = some record ↔
        ∃ r ∈ records, recordKey r = k ∧ record = onWire r := by
  set sorted := records.mergeSort fun left right ↦
    localeCompare (recordKey left) (recordKey right) with hsorted
  have hperm : sorted.Perm records := List.mergeSort_perm _ _
  have hjson : IsJson (.obj [(lit "schemaVersion", .leaf (.num five)),
      (lit "admissions", .arr (sorted.map .obj))]) := by
    have hnodup : [lit "schemaVersion", lit "admissions"].Nodup := by decide +kernel
    have hindex : ∀ k ∈ [lit "schemaVersion", lit "admissions"], arrayIndex? k = none := by
      decide +kernel
    refine JsValue.wellFormed_obj.mpr ⟨ordered_of_noIndex hnodup hindex, ?_⟩
    rw [List.forall_mem_cons, List.forall_mem_singleton]
    refine ⟨.leaf rfl, .arr fun x hx ↦ ?_⟩
    obtain ⟨record, hrecord, rfl⟩ := List.mem_map.mp hx
    exact (h record (hperm.mem_iff.mp hrecord)).json
  have hparse := parse_savedLine allSpace_indent hjson
  have hwire : (JsValue.obj [(lit "schemaVersion", .leaf (.num five)),
      (lit "admissions", .arr (sorted.map .obj))] : JsData).mapLeaf wireLeaf =
        .obj [(lit "schemaVersion", .leaf (.num five)),
          (lit "admissions", .arr ((sorted.map onWire).map .obj))] := by
    simp only [JsValue.mapLeaf_obj, JsValue.mapLeaf_arr, List.map_cons, List.map_nil,
      JsValue.mapLeaf_leaf, List.map_map]
    refine congrArg JsValue.obj (congrArg₂ _ rfl (congrArg (fun xs ↦ [(lit "admissions",
      JsValue.arr xs)]) (List.map_congr_left fun record _ ↦ ?_)))
    exact JsValue.mapLeaf_obj wireLeaf record
  rw [hwire] at hparse
  have hload : load digests (some (savedText localeCompare records)) = readAdmissions digests false []
      ((sorted.map onWire).map .obj) := by
    rw [load, savedText, hparse]
    rfl
  have hvalid : ∀ record ∈ sorted.map onWire, isAdmission record = true := by
    intro record hrecord
    obtain ⟨r, hr, rfl⟩ := List.mem_map.mp hrecord
    exact (h r (hperm.mem_iff.mp hr)).onWire
  have hkeys' : ((sorted.map onWire).map recordKey).Nodup := by
    have hcomp : recordKey ∘ UnitAdmissions.onWire = recordKey := funext recordKey_onWire
    rw [List.map_map, hcomp]
    exact (hperm.map _).nodup_iff.mpr hkeys
  refine ⟨_, hload.trans (readAdmissions_objects digests hvalid []), fun k record ↦ ?_⟩
  rw [get_foldl_set hkeys']
  constructor
  · rintro (⟨hmem, hkey⟩ | ⟨-, hget⟩)
    · obtain ⟨r, hr, rfl⟩ := List.mem_map.mp hmem
      exact ⟨r, hperm.mem_iff.mp hr, (recordKey_onWire r).symm.trans hkey, rfl⟩
    · exact nomatch hget
  · rintro ⟨r, hr, hkey, rfl⟩
    exact .inl ⟨List.mem_map_of_mem (hperm.mem_iff.mpr hr), (recordKey_onWire r).trans hkey⟩

/-- Of JSON data, `load` makes records only. -/
theorem readAdmission_admissible {v4 : Bool} {v : JsData} (hv : IsJson v)
    {record : AdmittedUnitVersion} (h : readAdmission digests v4 v = some record) :
    Admissible record := by
  cases v with
  | leaf l => exact nomatch h
  | arr xs => exact nomatch h
  | obj o =>
    simp only [readAdmission, Option.ite_none_left_eq_some, Option.ite_none_right_eq_some,
      Option.some.injEq] at h
    obtain ⟨-, hadmission, rfl⟩ := h
    refine ⟨hadmission, ?_⟩
    split_ifs with hv4
    · obtain ⟨hordered, hmembers⟩ := JsValue.wellFormed_obj.mp hv
      rw [migrateV4Admission]
      refine JsValue.wellFormed_obj.mpr
        ⟨(hordered.sublist List.filter_sublist).createData _ _, fun p hp ↦ ?_⟩
      rcases mem_createData.mp hp with rfl | ⟨hp, -⟩
      · exact .leaf rfl
      · exact hmembers p (List.mem_of_mem_filter hp)
    · exact hv

theorem readAdmissions_get {v4 : Bool} {rawAdmissions : List JsData}
    (hraw : ∀ v ∈ rawAdmissions, IsJson v) {m loaded : JsMap JsString AdmittedUnitVersion}
    (hm : ∀ k record, JsMap.get k m = some record → recordKey record = k ∧ Admissible record)
    (hnd : (JsMap.keys m).Nodup) (h : readAdmissions digests v4 m rawAdmissions = .ok loaded) :
    (JsMap.keys loaded).Nodup ∧
      ∀ k record, JsMap.get k loaded = some record → recordKey record = k ∧ Admissible record := by
  induction rawAdmissions generalizing m with
  | nil =>
    obtain rfl := Except.ok.inj h
    exact ⟨hnd, hm⟩
  | cons v rawAdmissions ih =>
    obtain ⟨hv, hraw⟩ := List.forall_mem_cons.mp hraw
    rw [readAdmissions] at h
    cases hread : readAdmission digests v4 v with
    | none => rw [hread] at h; exact nomatch h
    | some admission =>
      rw [hread] at h
      refine ih hraw (fun k record hget ↦ ?_) (JsMap.nodup_keys_set hnd _ _) h
      rw [JsMap.get_set] at hget
      split_ifs at hget with hk
      · obtain rfl := Option.some.inj hget
        exact ⟨hk.symm, readAdmission_admissible digests hv hread⟩
      · exact hm k record hget

/-- **What `load` yields are records under their own keys.** -/
theorem load_get {source : Option JsString} {loaded : JsMap JsString AdmittedUnitVersion}
    (h : load digests source = .ok loaded) :
    (JsMap.keys loaded).Nodup ∧
      ∀ k record, JsMap.get k loaded = some record → recordKey record = k ∧ Admissible record := by
  have hempty : ∀ k record, JsMap.get k ([] : JsMap JsString AdmittedUnitVersion) = some record →
      recordKey record = k ∧ Admissible record := fun _ _ hget ↦ (by cases hget)
  cases source with
  | none =>
    obtain rfl := Except.ok.inj h
    exact ⟨List.nodup_nil, hempty⟩
  | some text =>
    rw [load] at h
    split at h
    · cases h
    · rename_i root hparse
      split at h
      · rename_i admissions hget
        have hjson : IsJson (.obj root) := parse_isJson hparse
        have hadmissions : IsJson (.arr admissions) :=
          (JsValue.wellFormed_obj.mp hjson).2 (lit "admissions", .arr admissions)
            ((getProp_eq_some (JsValue.wellFormed_obj.mp hjson).1.nodup).mp hget)
        have hraw := JsValue.wellFormed_arr.mp hadmissions
        split_ifs at h
        · exact readAdmissions_get digests hraw hempty List.nodup_nil h
        · exact readAdmissions_get digests hraw hempty List.nodup_nil h
      · cases h
    · cases h

/-! ## What is admitted -/

/-- An identity and a time of which a record can be made. -/
structure Acceptable (identity : UnitAdmissionIdentity M) (now : JsNumber) : Prop where
  repoPath : identity.repoPath ≠ []
  effectiveVersion : identity.effectiveVersion ≠ []
  serviceAuthorityDigest : ∀ digest, identity.serviceAuthorityDigest = some digest →
    isHexOfLength 64 digest = true
  now : now.isFinite = true

section

variable (identity : UnitAdmissionIdentity M) (origin : UnitAdmissionOrigin) (now : JsNumber)
  (source : Option UnitSourceOrigin)

theorem keys_sourceFields :
    (keys (sourceFields source)).Sublist [lit "sourceOriginKey", lit "sourceUrl", lit "sourceVersion",
      lit "sourceSelfName", lit "sourceIsWorkspaceRoot"] := by
  cases source with
  | none => exact List.nil_sublist _
  | some source =>
    have hone : ∀ (c : Bool) (name : String) (v : JsData),
        (keys (if c then [(lit name, v)] else [])).Sublist [lit name] := by
      intro c name v
      cases c with
      | true => exact List.Sublist.refl _
      | false => exact List.nil_sublist _
    simp only [sourceFields, keys_append]
    exact (((List.Sublist.refl [lit "sourceOriginKey", lit "sourceUrl"]).append
      (hone _ "sourceVersion" _)).append (hone _ "sourceSelfName" _)).append
        (hone _ "sourceIsWorkspaceRoot" _)

theorem keys_admissionRecord :
    (keys (admissionRecord digests identity origin now source)).Sublist
      [lit "repoPath", lit "effectiveVersion", lit "authorityDigest", lit "serviceAuthorityDigest",
        lit "origin", lit "admittedAt", lit "sourceOriginKey", lit "sourceUrl", lit "sourceVersion",
        lit "sourceSelfName", lit "sourceIsWorkspaceRoot"] := by
  rw [admissionRecord, keys_append]
  exact (List.Sublist.refl _).append (keys_sourceFields source)

theorem ordered_admissionRecord :
    Ordered (admissionRecord digests identity origin now source) := by
  have hnodup : [lit "repoPath", lit "effectiveVersion", lit "authorityDigest",
      lit "serviceAuthorityDigest", lit "origin", lit "admittedAt", lit "sourceOriginKey",
      lit "sourceUrl", lit "sourceVersion", lit "sourceSelfName",
      lit "sourceIsWorkspaceRoot"].Nodup := by decide +kernel
  have hindex : ∀ k ∈ [lit "repoPath", lit "effectiveVersion", lit "authorityDigest",
      lit "serviceAuthorityDigest", lit "origin", lit "admittedAt", lit "sourceOriginKey",
      lit "sourceUrl", lit "sourceVersion", lit "sourceSelfName", lit "sourceIsWorkspaceRoot"],
      arrayIndex? k = none := by decide +kernel
  have hkeys := keys_admissionRecord digests identity origin now source
  exact ordered_of_noIndex (hkeys.nodup hnodup) fun k hk ↦ hindex k (hkeys.subset hk)

/-- The optional fields are those of the source. -/
theorem isOptionalField_sourceFields :
    isOptionalField "sourceOriginKey" isText (sourceFields source) = true ∧
    isOptionalField "sourceUrl" isTextOrNull (sourceFields source) = true ∧
    isOptionalField "sourceVersion" isTextOrNull (sourceFields source) = true ∧
    isOptionalField "sourceSelfName" isTextOrNull (sourceFields source) = true ∧
    isOptionalField "sourceIsWorkspaceRoot" isBoolean (sourceFields source) = true := by
  cases source with
  | none => exact ⟨rfl, rfl, rfl, rfl, rfl⟩
  | some source =>
    obtain ⟨originKey, url, version, selfName, isWorkspaceRoot⟩ := source
    simp only [sourceFields]
    cases url <;> cases version.any (decide <| · ≠ []) <;> cases selfName.any (decide <| · ≠ []) <;>
      cases version <;> cases selfName <;> cases isWorkspaceRoot <;> exact ⟨rfl, rfl, rfl, rfl, rfl⟩

theorem isAdmission_admissionRecord (h : Acceptable identity now) :
    isAdmission (admissionRecord digests identity origin now source) = true := by
  have hkeys : ∀ k ∈ keys (admissionRecord digests identity origin now source), k ∈ admissionKeys := by
    have hknown : ∀ k ∈ [lit "repoPath", lit "effectiveVersion", lit "authorityDigest",
        lit "serviceAuthorityDigest", lit "origin", lit "admittedAt", lit "sourceOriginKey",
        lit "sourceUrl", lit "sourceVersion", lit "sourceSelfName", lit "sourceIsWorkspaceRoot"],
        k ∈ admissionKeys := by decide +kernel
    exact fun k hk ↦ hknown k ((keys_admissionRecord digests identity origin now source).subset hk)
  have hservice : isHexOfLength 64
      (identity.serviceAuthorityDigest.getD digests.emptyServiceAuthorityDigest) = true := by
    cases hdigest : identity.serviceAuthorityDigest with
    | none => exact digests.emptyServiceAuthorityDigest_hex
    | some digest => exact h.serviceAuthorityDigest digest hdigest
  have horigin : origin.text ∈ unitAdmissionOrigins := by
    cases origin <;> decide +kernel
  obtain ⟨hkey, hurl, hversion, hname, hroot⟩ := isOptionalField_sourceFields source
  simp only [isAdmission, Bool.and_eq_true]
  refine ⟨⟨⟨⟨⟨⟨⟨⟨⟨⟨⟨?_, hkey⟩, hurl⟩, hversion⟩, hname⟩, hroot⟩, ?_⟩, ?_⟩, ?_⟩, ?_⟩, ?_⟩, h.now⟩
  · exact List.all_eq_true.mpr fun k hk ↦ decide_eq_true (hkeys k hk)
  · exact decide_eq_true h.repoPath
  · exact decide_eq_true h.effectiveVersion
  · exact digests.authorityDigest_hex identity.authority
  · exact hservice
  · exact decide_eq_true horigin

theorem admissible_admissionRecord (h : Acceptable identity now) :
    Admissible (admissionRecord digests identity origin now source) := by
  refine ⟨isAdmission_admissionRecord digests identity origin now source h,
    JsValue.wellFormed_obj.mpr ⟨ordered_admissionRecord digests identity origin now source, ?_⟩⟩
  have htext : ∀ s, IsJson (textOrNull s) := by
    intro s
    cases s with
    | none => exact .leaf rfl
    | some s => exact .leaf rfl
  have hone : ∀ (c : Bool) (name : String) (v : JsData), IsJson v →
      ∀ p ∈ (if c then [(lit name, v)] else []), IsJson p.2 := by
    intro c name v hv p hp
    cases c with
    | true =>
      obtain rfl := List.mem_singleton.mp hp
      exact hv
    | false => exact nomatch hp
  have hsource : ∀ p ∈ sourceFields source, IsJson p.2 := by
    cases source with
    | none => exact fun p hp ↦ nomatch hp
    | some source =>
      simp only [sourceFields, List.forall_mem_append, List.forall_mem_cons]
      exact ⟨⟨⟨⟨.leaf rfl, htext _, fun p hp ↦ nomatch hp⟩, hone _ _ _ (htext _)⟩,
        hone _ _ _ (htext _)⟩, hone _ _ _ (.leaf rfl)⟩
  simp only [admissionRecord, List.forall_mem_append, List.forall_mem_cons]
  exact ⟨⟨.leaf rfl, .leaf rfl, .leaf rfl, .leaf rfl, .leaf rfl, .leaf rfl, fun p hp ↦ nomatch hp⟩,
    hsource⟩

end

end

end Vibestudio.Server.UnitAdmissions

import Mathlib
import Vibestudio.Js.Json
import Vibestudio.Transition.Run

/-!
# Schemas of Durable Objects

`installDurableObjectSchema` of `packages/durable/src/schema.ts`. Storage is the rows of `sqlite_master`
in any order, the table `_vibestudio_schema` that records a version and a fingerprint, and everything else. What a build
brings along may do anything to it: `createSchema` and the upgrades change storage or throw, and
`validateSchema` reads it or throws. `storage.transaction` undoes what a callback did that throws.

A version is an integer; one that is not safe, or not positive, is refused where the source refuses
anything else as well. `applied` is a record of the upgrades that were called that no step reads.
-/

namespace Vibestudio.Durable

open Js

/-! ## Storage -/

/-- The kinds of `sqlite_master`. -/
inductive ObjectType where
  | index | table | trigger | view
  deriving DecidableEq

def ObjectType.text : ObjectType → JsString
  | .index => lit "index"
  | .table => lit "table"
  | .trigger => lit "trigger"
  | .view => lit "view"

structure SchemaObject where
  type : ObjectType
  name : JsString
  tblName : JsString
  sql : Option JsString
  deriving DecidableEq

/-- A row of `_vibestudio_schema`: what `Number` makes of the first two columns when it is an integer, and
the third one when it is a text. -/
structure IdentityRow where
  singleton : Option ℤ
  version : Option ℤ
  shapeJson : Option JsString
  deriving DecidableEq

/-- `_vibestudio_schema`. There are no columns when it is not a table. -/
structure IdentityTable where
  columns : List JsString
  rows : List IdentityRow
  deriving DecidableEq

structure Storage (δ : Type) where
  master : List SchemaObject
  identity : IdentityTable
  data : δ

/-! ## Errors -/

inductive IncompatibleReason where
  | versionMismatch | shapeDrift | unversionedDatabase
  deriving DecidableEq

inductive SafeAction where
  | deployCurrentBuild | resetStorage
  deriving DecidableEq

structure SchemaErrorData where
  className : JsString
  persistedVersion : Option ℤ
  targetVersion : ℤ
  reason : IncompatibleReason
  safeActions : List SafeAction
  deriving DecidableEq

inductive SchemaError where
  | incompatible (message : JsString) (data : SchemaErrorData)
  | error (message : JsString)
  deriving DecidableEq

/-! ## Definitions of a build -/

structure SchemaUpgrade (δ : Type) where
  fromVersion : ℤ
  fromFingerprint : JsString
  upgrade : Storage δ → Except SchemaError (Storage δ)

structure SchemaDefinition (δ : Type) where
  className : JsString
  version : ℤ
  schemaTables : Option (List JsString)
  expectedFingerprint : Option JsString
  upgrades : List (SchemaUpgrade δ)
  createSchema : Storage δ → Except SchemaError (Storage δ)
  validateSchema : Storage δ → Except SchemaError Unit

variable {δ : Type} (definition : SchemaDefinition δ)

def schemaTable : JsString := lit "_vibestudio_schema"

def frameworkObjects : List JsString := [schemaTable, lit "_vibestudio_direct_rpc_nonces"]

def maxSafeInteger : ℤ := 2 ^ 53 - 1

/-! ## Fingerprints -/

/-- `name LIKE 'sqlite_%'`: the letters in either case, and one more character. -/
def likeSqlite (name : JsString) : Bool :=
  decide (7 ≤ name.length) && (name.take 6).map (fun c ↦
    if 65 ≤ c.val ∧ c.val ≤ 90 then Fin.ofNat 65536 (c.val + 32) else c) == lit "sqlite"

/-- `ORDER BY type, name`. -/
def masterBefore (a b : SchemaObject) : Prop :=
  utf8Encode a.type.text < utf8Encode b.type.text ∨
    a.type = b.type ∧ utf8Encode a.name ≤ utf8Encode b.name

instance : DecidableRel masterBefore := fun _ _ ↦ inferInstanceAs (Decidable (_ ∨ _))

/-- `.replace(/\s+/g, " ")`. -/
def collapseSpaces : JsString → JsString
  | [] => []
  | c :: s => if isTrimmed c then
      match s with
      | d :: _ => if isTrimmed d then collapseSpaces s else 32 :: collapseSpaces s
      | [] => [32]
    else c :: collapseSpaces s

/-- Whether an object takes part in the fingerprint. -/
def isOwned (schemaTables : Option (List JsString)) (o : SchemaObject) : Bool :=
  if o.name ∈ frameworkObjects ∨ o.tblName ∈ frameworkObjects then false
  else schemaTables.all fun tables ↦
    decide (o.name ∈ lit "state" :: tables ∨ o.tblName ∈ lit "state" :: tables)

def SchemaObject.toJson (o : SchemaObject) : JsData := .obj [
  (lit "type", .leaf (.str o.type.text)),
  (lit "name", .leaf (.str o.name)),
  (lit "table", .leaf (.str o.tblName)),
  (lit "sql", .leaf (.str (trim (collapseSpaces (o.sql.getD [])))))]

def normalizedShape (schemaTables : Option (List JsString)) (s : Storage δ) : JsString :=
  (stringify (.arr ((((s.master.filter fun o ↦ !likeSqlite o.name).insertionSort masterBefore).filter
    (isOwned schemaTables)).map SchemaObject.toJson))).getD []

def schemaObjects (s : Storage δ) : List JsString :=
  (s.master.filter fun o ↦ !likeSqlite o.name).map SchemaObject.name

/-- The fingerprint of storage, of the tables the build owns. -/
def SchemaDefinition.fingerprint (s : Storage δ) : JsString := normalizedShape definition.schemaTables s

/-! ## Refusals -/

def versionText (v : ℤ) : JsString :=
  if v < 0 then lit "-" ++ integerText v.natAbs else integerText v.natAbs

def SafeAction.text : SafeAction → JsString
  | .deployCurrentBuild => lit "deploy the exact build for that schema"
  | .resetStorage => lit "call workers.resetStorage() for explicitly disposable state"

def incompatible (reason : IncompatibleReason) (persistedVersion : Option ℤ) (detail : JsString) :
    SchemaError :=
  let safeActions := if persistedVersion.isNone then [.resetStorage] else [.deployCurrentBuild, .resetStorage]
  .incompatible
    (definition.className ++ lit " cannot open persisted schema " ++
      persistedVersion.elim (lit "without a version") (fun v ↦ lit "v" ++ versionText v) ++
      lit " with build schema v" ++ versionText definition.version ++ lit ": " ++ detail ++
      lit ". Safe actions: " ++ joinWith (lit ", or ") (safeActions.map SafeAction.text) ++ lit ".")
    ⟨definition.className, persistedVersion, definition.version, reason, safeActions⟩

def identityColumns : List JsString := [lit "singleton", lit "version", lit "shape_json"]

/-- What `UPDATE … WHERE singleton = 1` makes of a row. -/
def IdentityRow.update (version : ℤ) (shape : JsString) (row : IdentityRow) : IdentityRow :=
  if row.singleton = some 1 then ⟨row.singleton, some version, some shape⟩ else row

/-- An upgrade that was called, and the storage it was called on. -/
structure Applied (δ : Type) where
  upgrade : SchemaUpgrade δ
  before : Storage δ

/-- The upgrades that were called, and the storage they leave or what was thrown. -/
structure Progress (δ : Type) where
  applied : List (Applied δ)
  result : Except SchemaError (Storage δ)

def Progress.thrown (e : SchemaError) : Progress δ := ⟨[], .error e⟩

/-- What a call leaves behind. -/
structure Outcome (δ : Type) where
  result : Except SchemaError Unit
  storage : Storage δ
  applied : List (Applied δ)

/-- `storage.transaction`: what a callback did that throws is undone. -/
def transaction (callback : Storage δ → Progress δ) (s : Storage δ) : Outcome δ :=
  match (callback s).result with
  | .ok s' => ⟨.ok (), s', (callback s).applied⟩
  | .error e => ⟨.error e, s, (callback s).applied⟩

end Vibestudio.Durable

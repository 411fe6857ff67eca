import Mathlib
import Vibestudio.Shared.CanonicalJson
import Vibestudio.Server.AuthorityTransaction
import Vibestudio.Sqlite.Table
import Vibestudio.Transition.Loop
import Vibestudio.Transition.Run

/-!
# The authority acquisition store

`src/server/services/authorityAcquisitionStore.ts` on the tables of `authorityAcquisitionSchema.ts`.
An acquisition is admitted for an owner, settled at most once, acknowledged, and superseded by the
next ask under its request key; a retired owner is fenced. Every read compares the row with the
digests stored beside it.

The grants share the database and the transaction. They are of an arbitrary type `G`, which only the
`write` callback of `resolve` touches. An operation is a piece of `Work` of the grant owner, so that
what is thrown, rolled back and run after the commit is what `AuthorityTransaction` says.

The parts of the platform that are not in the repository are fields of `AcquisitionHost`. Texts made
by `JSON.stringify` and digests have no lone surrogate and no NUL, so the database keeps them as they
are; every other string goes through `asText` when it is bound.
-/

namespace Vibestudio.Server

open Js Sqlite Shared Transition

/-! ## The platform -/

structure AcquisitionHost where
  nfc : Nfc
  /-- Normalization leaves ASCII alone. -/
  ascii : ∀ s : JsString, (∀ c ∈ s, c.val < 0x80) → nfc.normalize s = s
  /-- `createHash("sha256").update(text).digest("hex")`. -/
  sha256 : JsString → JsString
  /-- What the database holds of a bound string. -/
  asText : JsString → JsString
  asText_idem : ∀ s, asText (asText s) = asText s
  /-- The `json_extract` condition of `resolveTarget`, on `binding_json` and the request id. -/
  joins : JsString → JsString → Bool

/-- A value of the type `JsonValue`. -/
structure JsonValue where
  val : JsData
  isJson : IsJson val

/-- An object literal with members in the order of enumeration. -/
def JsonValue.object (kvs : List (JsString × JsonValue))
    (h : Ordered (kvs.map fun p ↦ (p.1, p.2.val))) : JsonValue where
  val := .obj (kvs.map fun p ↦ (p.1, p.2.val))
  isJson := .obj h fun p hp ↦ by
    obtain ⟨q, -, rfl⟩ := List.mem_map.mp hp
    exact q.2.isJson

def JsonValue.text (s : JsString) : JsonValue := ⟨.leaf (.str s), .leaf rfl⟩

/-- `value[key]`. -/
def member (key : JsString) : JsData → Option JsData
  | .obj kvs => getProp key kvs
  | _ => none

/-! ## Rows -/

structure AcquisitionOwner where
  ownerRuntimeId : JsString
  sessionId : JsString
deriving DecidableEq

inductive AcquisitionContinuation where
  | inBand
  | ownerRedrive
deriving DecidableEq

/-- The states other than `pending`. -/
inductive TerminalState where
  | decided
  | closed
  | failed
deriving DecidableEq

def TerminalState.text : TerminalState → JsString
  | decided => lit "decided"
  | closed => lit "closed"
  | failed => lit "failed"

/-- The state a resolution names, if it is one of the terminal ones. -/
def terminalState? (state : Option JsData) : Option TerminalState :=
  [TerminalState.decided, .closed, .failed].find? fun t ↦ decide (state = some (.leaf (.str t.text)))

/-- The columns a settlement writes. -/
structure Receipt where
  state : TerminalState
  decisionJson : JsString
  decisionDigest : JsString
  resolutionJson : JsString
  resolutionDigest : JsString
  settledAt : ℕ
deriving DecidableEq

/-- The table's check: only a settled row is acknowledged or superseded. -/
structure Settlement where
  receipt : Receipt
  acknowledgedAt : Option ℕ
  supersededAt : Option ℕ
deriving DecidableEq

/-- A row of `authority_acquisitions`; it is pending while it has no settlement. -/
structure AcquisitionRow where
  requestKey : JsString
  owner : AcquisitionOwner
  bindingJson : JsString
  bindingDigest : JsString
  deliveryOwner : AcquisitionContinuation
  createdAt : ℕ
  settlement : Option Settlement
deriving DecidableEq

namespace AcquisitionRow

variable (r : AcquisitionRow)

def pending : Bool := r.settlement.isNone

/-- `superseded_at IS NULL`. -/
def current : Bool := (r.settlement.bind Settlement.supersededAt).isNone

def receipt : Option Receipt := r.settlement.map Settlement.receipt

end AcquisitionRow

/-- The two tables, and the grants beside them. -/
structure AcquisitionDb (G : Type) where
  /-- `retired_at` of each owner. -/
  owners : Table AcquisitionOwner (Option ℕ)
  acquisitions : Table JsString AcquisitionRow
  grants : G

/-! ## Records -/

structure VerifiedReceipt where
  state : TerminalState
  decision : JsData
  resolution : JsData
  resolutionDigest : JsString
  settledAt : ℕ
deriving DecidableEq

structure AcquisitionRecord where
  acquisitionId : JsString
  admission : JsData
  bindingDigest : JsString
  deliveryOwner : AcquisitionContinuation
  createdAt : ℕ
  receipt : Option VerifiedReceipt
  acknowledgedAt : Option ℕ
  supersededAt : Option ℕ
deriving DecidableEq

/-- Host-sealed admission facts: any object with these members. -/
structure AuthorityAcquisitionAdmission where
  value : JsonValue
  owner : AcquisitionOwner
  requestKey : JsString
  facts : JsData
  requestKey_eq : member (lit "requestKey") value.val = some (.leaf (.str requestKey))
  ownerRuntimeId_eq :
    member (lit "ownerRuntimeId") value.val = some (.leaf (.str owner.ownerRuntimeId))
  sessionId_eq : member (lit "sessionId") value.val = some (.leaf (.str owner.sessionId))
  facts_eq : member (lit "facts") value.val = some facts

/-! ## Errors -/

inductive AcquisitionError where
  | requestKey
  | inexactOwner
  | replayChanged
  | bindingMismatch
  | differentDecision
  | acknowledgement
  | session
  | runtime
  | absentOrRetired
  | unknown
  | notOwned
  | admissionVerification
  | receiptVerification
  | resolution
  | canonicalJson (error : CanonicalJsonError)
  | write (message : JsString)
  | schema
  | malformedJson
  | sql
deriving DecidableEq

/-- The message of an error. The schema library, `JSON.parse` and the database have messages of their
own. -/
def AcquisitionError.message? : AcquisitionError → Option JsString
  | requestKey => some (lit "Acquisition requires a non-NUL request key")
  | inexactOwner => some (lit "Acquisition requires an exact owner and execution session")
  | replayChanged => some (lit "Acquisition replay changed its immutable admission facts")
  | bindingMismatch => some (lit "Acquisition binding mismatch")
  | differentDecision => some (lit "Acquisition already has a different decision")
  | acknowledgement =>
    some (lit "Acquisition acknowledgement does not match its terminal receipt")
  | session => some (lit "Invalid acquisition session")
  | runtime => some (lit "Invalid acquisition owner runtime")
  | absentOrRetired => some (lit "Acquisition owner is absent or retired")
  | unknown => some (lit "Unknown acquisition")
  | notOwned => some (lit "Acquisition is not owned by this task")
  | admissionVerification => some (lit "Acquisition admission failed content verification")
  | receiptVerification => some (lit "Acquisition receipt failed content verification")
  | resolution => some (lit "Acquisition resolution must be a synchronous terminal record")
  | canonicalJson error => some error.message
  | write message => some message
  | schema | malformedJson | sql => none

/-! ## Checks -/

mutual

/-- `JsonValueSchema`: no number that is not finite and no `undefined`. -/
def jsonValueSchema : JsData → Bool
  | .leaf .undefined => false
  | .leaf (.num x) => x.isFinite
  | .leaf _ => true
  | .arr xs => jsonElementsSchema xs
  | .obj kvs => jsonMembersSchema kvs

def jsonElementsSchema : List JsData → Bool
  | [] => true
  | x :: xs => jsonValueSchema x && jsonElementsSchema xs

def jsonMembersSchema : List (JsString × JsData) → Bool
  | [] => true
  | (_, v) :: kvs => jsonValueSchema v && jsonMembersSchema kvs

end

/-- `JsonValueSchema.parse(value)`. -/
def parseSchema (value : JsData) : Except AcquisitionError Unit :=
  if jsonValueSchema value then .ok () else .error .schema

def requireOwner (owner : AcquisitionOwner) : Except AcquisitionError Unit :=
  if trim owner.ownerRuntimeId = [] ∨ trim owner.sessionId = [] ∨ 0 ∈ owner.ownerRuntimeId ∨
      0 ∈ owner.sessionId then .error .inexactOwner
  else .ok ()

/-- `JSON.parse(text)`. -/
def parseText (text : JsString) : Except AcquisitionError JsData :=
  match parse text with
  | some v => .ok v
  | none => .error .malformedJson

section

variable (host : AcquisitionHost)

def canonicalText (value : JsData) : Except AcquisitionError JsString :=
  match canonicalJson host.nfc value with
  | .ok (some text) => .ok text
  | .ok none => .error (.canonicalJson .rootUndefined)
  | .error e => .error (.canonicalJson e)

def requireResolution (value : JsData) : Except AcquisitionError Unit :=
  match terminalState? (member (lit "state") value), member (lit "value") value with
  | some _, some v =>
    if v = .leaf .undefined then .error .resolution
    else (parseSchema v).bind fun () ↦ (canonicalText host value).map fun _ ↦ ()
  | _, _ => .error .resolution

/-! ## Digests -/

def digest (kind : JsString) (value : JsData) : Except AcquisitionError JsString :=
  (canonicalText host value).map fun text ↦
    host.sha256 (lit "authority-acquisition-" ++ kind ++ lit "-v1" ++ 0 :: text)

def string (s : JsString) : JsData := .leaf (.str s)

def bindingValue (acquisitionId : JsString) (createdAt : ℕ) (admission : JsData) : JsData :=
  .obj [(lit "acquisitionId", string acquisitionId),
    (lit "createdAt", .leaf (.num (.ofNat createdAt))), (lit "admission", admission)]

def decisionValue (acquisitionId bindingDigest : JsString) (decision : JsData) : JsData :=
  .obj [(lit "acquisitionId", string acquisitionId), (lit "bindingDigest", string bindingDigest),
    (lit "decision", decision)]

def resolutionValue (acquisitionId bindingDigest decisionDigest : JsString) (resolution : JsData) :
    JsData :=
  .obj [(lit "acquisitionId", string acquisitionId), (lit "bindingDigest", string bindingDigest),
    (lit "decisionDigest", string decisionDigest), (lit "resolution", resolution)]

/-! ## Reads -/

/-- The part of `owned` about the admission. -/
def ownedAdmission (id : JsString) (row : AcquisitionRow) (owner : AcquisitionOwner) :
    Except AcquisitionError JsData :=
  (parseText row.bindingJson).bind fun admission ↦
  (digest host (lit "binding") (bindingValue id row.createdAt admission)).bind fun bindingDigest ↦
  if bindingDigest ≠ row.bindingDigest ∨
      member (lit "requestKey") admission ≠ some (string row.requestKey) ∨
      member (lit "ownerRuntimeId") admission ≠ some (string owner.ownerRuntimeId) ∨
      member (lit "sessionId") admission ≠ some (string owner.sessionId) then
    .error .admissionVerification
  else .ok admission

/-- The part of `owned` about the receipt. -/
def ownedReceipt (id bindingDigest : JsString) (receipt : Receipt) :
    Except AcquisitionError VerifiedReceipt :=
  (parseText receipt.decisionJson).bind fun decision ↦
  (parseText receipt.resolutionJson).bind fun resolution ↦
  (requireResolution host resolution).bind fun () ↦
  (digest host (lit "decision") (decisionValue id bindingDigest decision)).bind fun decisionDigest ↦
  (digest host (lit "resolution")
    (resolutionValue id bindingDigest decisionDigest resolution)).bind fun resolutionDigest ↦
  if decisionDigest ≠ receipt.decisionDigest ∨ resolutionDigest ≠ receipt.resolutionDigest ∨
      member (lit "state") resolution ≠ some (string receipt.state.text) then
    .error .receiptVerification
  else .ok ⟨receipt.state, decision, resolution, resolutionDigest, receipt.settledAt⟩

def owned (id : JsString) (row : AcquisitionRow) (owner : AcquisitionOwner) :
    Except AcquisitionError AcquisitionRecord :=
  (requireOwner owner).bind fun () ↦
  if row.owner ≠ owner then .error .notOwned
  else (ownedAdmission host id row owner).bind fun admission ↦
    match row.settlement with
    | none => .ok ⟨id, admission, row.bindingDigest, row.deliveryOwner, row.createdAt, none, none, none⟩
    | some s => (ownedReceipt host id row.bindingDigest s.receipt).map fun receipt ↦
      ⟨id, admission, row.bindingDigest, row.deliveryOwner, row.createdAt, some receipt,
        s.acknowledgedAt, s.supersededAt⟩

variable {G : Type} (db : AcquisitionDb G)

def requireActiveOwner (owner : AcquisitionOwner) : Except AcquisitionError Unit :=
  (requireOwner owner).bind fun () ↦
  match db.owners.get ⟨host.asText owner.ownerRuntimeId, host.asText owner.sessionId⟩ with
  | some none => .ok ()
  | _ => .error .absentOrRetired

/-- `superseded_at IS NULL` under a request key. -/
def currentRow (requestKey : JsString) : Option (JsString × AcquisitionRow) :=
  db.acquisitions.rows.find? fun p ↦ decide (p.2.requestKey = requestKey) && p.2.current

/-- The method `current`. -/
def currentRecord (requestKey : JsString) (owner : AcquisitionOwner) :
    Except AcquisitionError (Option AcquisitionRecord) :=
  match currentRow db (host.asText requestKey) with
  | some (id, row) => (owned host id row owner).map some
  | none => .ok none

def get (acquisitionId : JsString) (owner : AcquisitionOwner) :
    Except AcquisitionError (Option AcquisitionRecord) :=
  match db.acquisitions.get (host.asText acquisitionId) with
  | some row => (owned host (host.asText acquisitionId) row owner).map some
  | none => .ok none

/-- The method `require`. -/
def requireRecord (acquisitionId : JsString) (owner : AcquisitionOwner) :
    Except AcquisitionError AcquisitionRecord :=
  (get host db acquisitionId owner).bind fun
  | some record => .ok record
  | none => .error .unknown

end

/-! ## Writes -/

/-- What the `write` callback of `resolve` does: it throws, or it leaves grants, returns a resolution
and has registered effects, some of which throw after the commit. -/
inductive Written (G : Type) where
  | throws (message : JsString)
  | returns (grants : G) (resolution : JsonValue) (effects : List Bool)

/-- What a call returns. -/
inductive AcquisitionReply where
  | record (r : AcquisitionRecord)
  | flag (b : Bool)
  | void

/-- What the work of a transaction leaves. -/
structure AcquisitionWork (G : Type) where
  db : AcquisitionDb G
  effects : List Bool
  reply : AcquisitionReply

section

variable (host : AcquisitionHost) {G : Type}

/-- The owner with its strings bound. -/
def AcquisitionOwner.bound (owner : AcquisitionOwner) : AcquisitionOwner :=
  ⟨host.asText owner.ownerRuntimeId, host.asText owner.sessionId⟩

/-- `INSERT INTO authority_acquisition_owners … ON CONFLICT DO NOTHING`. -/
def registerOwner (owner : AcquisitionOwner) (db : AcquisitionDb G) : AcquisitionDb G :=
  if (db.owners.get owner).isSome then db else { db with owners := db.owners.set owner none }

/-- `INSERT INTO authority_acquisitions`, with the primary key, the unique index on the current rows
and the foreign key. -/
def insertRow (id : JsString) (row : AcquisitionRow) (db : AcquisitionDb G) :
    Except AcquisitionError (AcquisitionDb G) :=
  if (db.acquisitions.get id).isSome ∨ (currentRow db row.requestKey).isSome ∨
      (db.owners.get row.owner).isNone then .error .sql
  else .ok { db with acquisitions := db.acquisitions.set id row }

/-- `UPDATE authority_acquisitions … WHERE acquisition_id = id`. -/
def updateRow (id : JsString) (f : AcquisitionRow → AcquisitionRow) (db : AcquisitionDb G) :
    AcquisitionDb G :=
  { db with acquisitions := db.acquisitions.update id f }

/-- The transaction of `admit`; `uuid` is the one drawn if there is no such acquisition. -/
def admitAcquisition (input : AuthorityAcquisitionAdmission) (now : ℕ)
    (deliveryOwner : AcquisitionContinuation) (uuid : JsString) (binding : JsString)
    (db : AcquisitionDb G) : Except AcquisitionError (AcquisitionWork G) :=
  let db := registerOwner (input.owner.bound host) db
  (requireActiveOwner host db input.owner).bind fun () ↦
  (currentRecord host db input.requestKey input.owner).bind fun
  | some existing => (canonicalText host existing.admission).bind fun text ↦
    if text ≠ binding then .error .replayChanged else .ok ⟨db, [], .record existing⟩
  | none =>
    let acquisitionId := lit "acq:" ++ uuid
    (digest host (lit "binding") (bindingValue acquisitionId now input.value.val)).bind fun d ↦
    (insertRow (host.asText acquisitionId)
      { requestKey := host.asText input.requestKey
        owner := input.owner.bound host
        bindingJson := (stringify input.value.val).getD []
        bindingDigest := d
        deliveryOwner
        createdAt := now
        settlement := none } db).bind fun db ↦
    (requireRecord host db acquisitionId input.owner).map fun record ↦ ⟨db, [], .record record⟩

def storeResolution (record : AcquisitionRecord) (decision resolution : JsData) (now : ℕ)
    (db : AcquisitionDb G) : Except AcquisitionError (AcquisitionDb G) :=
  (digest host (lit "decision")
    (decisionValue record.acquisitionId record.bindingDigest decision)).bind fun decisionDigest ↦
  (digest host (lit "resolution") (resolutionValue record.acquisitionId record.bindingDigest
    decisionDigest resolution)).bind fun resolutionDigest ↦
  (canonicalText host decision).bind fun decisionJson ↦
  (canonicalText host resolution).bind fun resolutionJson ↦
  match terminalState? (member (lit "state") resolution) with
  | none => .error .sql
  | some state => .ok (updateRow (host.asText record.acquisitionId) (fun r ↦
      if r.pending then
        { r with settlement := some ⟨⟨state, decisionJson, decisionDigest, resolutionJson,
          resolutionDigest, now⟩, none, none⟩ }
      else r) db)

/-- What `resolve` finds before it calls `write`. -/
inductive Ask where
  | replay (record : AcquisitionRecord)
  | decide (record : AcquisitionRecord)

def ask (acquisitionId : JsString) (owner : AcquisitionOwner) (bindingDigest : JsString)
    (decision : JsData) (db : AcquisitionDb G) : Except AcquisitionError Ask :=
  (requireActiveOwner host db owner).bind fun () ↦
  (requireRecord host db acquisitionId owner).bind fun record ↦
  if record.bindingDigest ≠ bindingDigest then .error .bindingMismatch
  else (canonicalText host decision).bind fun decisionJson ↦
    match record.receipt with
    | none => .ok (.decide record)
    | some receipt => (canonicalText host receipt.decision).bind fun text ↦
      if text ≠ decisionJson then .error .differentDecision else .ok (.replay record)

def resolve (acquisitionId : JsString) (owner : AcquisitionOwner) (bindingDigest : JsString)
    (decision : JsData) (write : G → Written G) (now : ℕ) (db : AcquisitionDb G) :
    Except AcquisitionError (AcquisitionWork G) :=
  (ask host acquisitionId owner bindingDigest decision db).bind fun
  | .replay record => .ok ⟨db, [], .record record⟩
  | .decide record => match write db.grants with
    | .throws message => .error (.write message)
    | .returns grants resolution effects =>
      (requireResolution host resolution.val).bind fun () ↦
      (storeResolution host record decision resolution.val now { db with grants }).bind fun db ↦
      (requireRecord host db acquisitionId owner).map fun record ↦ ⟨db, effects, .record record⟩

/-- `{ kind }`. -/
def kindOnly (kind : String) : JsonValue :=
  .object [(lit "kind", .text (lit kind))] (List.pairwise_singleton _ _)

/-- `{ state: "closed", value: { state: "closed", reason: "operation-ended" } }`. -/
def operationEnded : JsonValue :=
  .object [(lit "state", .text (lit "closed")),
    (lit "value", .object [(lit "state", .text (lit "closed")),
      (lit "reason", .text (lit "operation-ended"))] (by decide +kernel))] (by decide +kernel)

/-- `{ state: "closed", value: { reason: "owner-retired" } }`. -/
def ownerRetired : JsonValue :=
  .object [(lit "state", .text (lit "closed")),
    (lit "value", .object [(lit "reason", .text (lit "owner-retired"))]
      (List.pairwise_singleton _ _))] (by decide +kernel)

def withdraw (acquisitionId : JsString) (owner : AcquisitionOwner) (bindingDigest : JsString)
    (now : ℕ) (db : AcquisitionDb G) : Except AcquisitionError (AcquisitionWork G) :=
  (requireRecord host db acquisitionId owner).bind fun record ↦
  if record.bindingDigest ≠ bindingDigest then .error .bindingMismatch
  else if record.receipt.isSome then .ok ⟨db, [], .record record⟩
  else (requireActiveOwner host db owner).bind fun () ↦
    (storeResolution host record (kindOnly "owner-withdrawal").val operationEnded.val now db).bind
      fun db ↦ (requireRecord host db acquisitionId owner).map fun record ↦ ⟨db, [], .record record⟩

def acknowledge (acquisitionId : JsString) (owner : AcquisitionOwner) (resolutionDigest : JsString)
    (now : ℕ) (db : AcquisitionDb G) : Except AcquisitionError (AcquisitionWork G) :=
  (requireRecord host db acquisitionId owner).bind fun record ↦
  if record.receipt.map VerifiedReceipt.resolutionDigest ≠ some resolutionDigest then
    .error .acknowledgement
  else .ok ⟨updateRow (host.asText acquisitionId) (fun r ↦ { r with
    settlement := r.settlement.map fun s ↦
      { s with acknowledgedAt := s.acknowledgedAt.or (some now) } }) db, [], .void⟩

def setDeliveryOwner (acquisitionId : JsString) (owner : AcquisitionOwner)
    (deliveryOwner : AcquisitionContinuation) (db : AcquisitionDb G) :
    Except AcquisitionError (AcquisitionWork G) :=
  (requireRecord host db acquisitionId owner).map fun _ ↦
    ⟨updateRow (host.asText acquisitionId) (fun r ↦ { r with deliveryOwner }) db, [], .void⟩

def supersede (requestKey : JsString) (owner : AcquisitionOwner) (now : ℕ) (db : AcquisitionDb G) :
    Except AcquisitionError (AcquisitionWork G) :=
  (requireActiveOwner host db owner).bind fun () ↦
  (currentRecord host db requestKey owner).map fun
  | none => ⟨db, [], .flag false⟩
  | some record =>
    if record.receipt.isNone then ⟨db, [], .flag false⟩
    else ⟨updateRow (host.asText record.acquisitionId) (fun r ↦ { r with
      settlement := r.settlement.map fun s ↦ { s with supersededAt := some now } }) db, [],
      .flag true⟩

/-! ## Batches -/

/-- `ORDER BY created_at, acquisition_id`. -/
def deliveryOrder (p q : JsString × AcquisitionRow) : Prop :=
  p.2.createdAt < q.2.createdAt ∨
    p.2.createdAt = q.2.createdAt ∧ compareUtf8 p.1 q.1 ≤ 0

instance : DecidableRel deliveryOrder := fun _ _ ↦ inferInstanceAs (Decidable (_ ∨ _))

/-- The first 64 pending rows that meet a condition. -/
def pendingBatch (p : AcquisitionRow → Bool) (db : AcquisitionDb G) :
    List (JsString × AcquisitionRow) :=
  ((db.acquisitions.rows.filter fun r ↦ p r.2 && r.2.pending).insertionSort deliveryOrder).take 64

/-- One round of `resolveTarget`. -/
def resolveBatch (requestId : JsString) (decision resolution : JsData) (now : ℕ)
    (db : AcquisitionDb G) : Run AcquisitionError (Option (AcquisitionDb G)) :=
  match pendingBatch (fun r ↦ host.joins r.bindingJson (host.asText requestId)) db with
  | [] => some (.ok none)
  | records => (each (fun (id, row) db ↦ some <|
      (owned host id row row.owner).bind fun record ↦
      -- `owned` has compared the owner of `record.admission` with that of the row
      (requireActiveOwner host db row.owner).bind fun () ↦
      storeResolution host record decision resolution now db) records db).map some

def resolveTarget (requestId : JsString) (decision resolution : JsData) (now : ℕ)
    (db : AcquisitionDb G) : Run AcquisitionError (AcquisitionWork G) :=
  (loop (resolveBatch host requestId decision resolution now)
    (db.acquisitions.rows.length + 1) db).map fun db ↦ ⟨db, [], .void⟩

/-- One round of `retireOwner`: all rows of the batch are read before the first is settled. -/
def retireBatch (owner : AcquisitionOwner) (now : ℕ) (db : AcquisitionDb G) :
    Run AcquisitionError (Option (AcquisitionDb G)) :=
  match pendingBatch (fun r ↦ decide (r.owner = owner.bound host)) db with
  | [] => some (.ok none)
  | rows => (each (fun (id, row) records ↦ some <|
      (owned host id row owner).map fun record ↦ records ++ [record]) rows []).bind fun records ↦
    (each (fun record db ↦ some <| storeResolution host record (kindOnly "owner-retired").val
      ownerRetired.val now db) records db).map some

/-- `INSERT … DO UPDATE SET retired_at = COALESCE(retired_at, excluded.retired_at)`. -/
def markRetired (owner : AcquisitionOwner) (now : ℕ) (db : AcquisitionDb G) : AcquisitionDb G :=
  { db with owners := db.owners.set owner (some ((db.owners.get owner).join.getD now)) }

def retireOwner (owner : AcquisitionOwner) (now : ℕ) (db : AcquisitionDb G) :
    Run AcquisitionError (AcquisitionDb G) :=
  loop (retireBatch host owner now) (db.acquisitions.rows.length + 1)
    (markRetired (owner.bound host) now db)

/-- The owners of a session that are not retired. -/
def sessionOwners (sessionId : JsString) (db : AcquisitionDb G) : List JsString :=
  (db.owners.rows.filter fun p ↦
    decide (p.1.sessionId = sessionId) && p.2.isNone).map fun p ↦ p.1.ownerRuntimeId

def retireSession (sessionId : JsString) (now : ℕ) (db : AcquisitionDb G) :
    Run AcquisitionError (AcquisitionWork G) :=
  (each (fun ownerRuntimeId db ↦ retireOwner host ⟨ownerRuntimeId, sessionId⟩ now db)
    (sessionOwners (host.asText sessionId) db) db).map fun db ↦ ⟨db, [], .void⟩

/-- The sessions of a runtime that are not retired, 64 of them after the cursor. -/
def runtimeSessions (ownerRuntimeId : JsString) (after : Option JsString) (db : AcquisitionDb G) :
    List JsString :=
  (((db.owners.rows.filter fun p ↦ decide (p.1.ownerRuntimeId = ownerRuntimeId) && p.2.isNone &&
    after.all fun a ↦ decide (0 < compareUtf8 p.1.sessionId a)).map fun p ↦ p.1.sessionId)
    |>.insertionSort fun a b ↦ compareUtf8 a b ≤ 0).take 64

/-- One page of `retireRuntime`. -/
def retirePage (ownerRuntimeId : JsString) (now : ℕ) (s : AcquisitionDb G × Option JsString) :
    Run AcquisitionError (Option (AcquisitionDb G × Option JsString)) :=
  match runtimeSessions (host.asText ownerRuntimeId) s.2 s.1 with
  | [] => some (.ok none)
  | sessions => (each (fun sessionId db ↦ retireOwner host ⟨ownerRuntimeId, sessionId⟩ now db)
      sessions s.1).map fun db ↦ some (db, sessions.getLast?)

def retireRuntime (ownerRuntimeId : JsString) (now : ℕ) (db : AcquisitionDb G) :
    Run AcquisitionError (AcquisitionWork G) :=
  (loop (retirePage host ownerRuntimeId now) (db.owners.rows.length + 1) (db, none)).map
    fun s ↦ ⟨s.1, [], .void⟩

/-! ## Calls -/

inductive AcquisitionOp (G : Type) where
  | admitAcquisition (input : AuthorityAcquisitionAdmission) (now : ℕ)
      (deliveryOwner : AcquisitionContinuation) (uuid : JsString)
  | resolve (acquisitionId : JsString) (owner : AcquisitionOwner) (bindingDigest : JsString)
      (decision : JsonValue) (write : G → Written G) (now : ℕ)
  | withdraw (acquisitionId : JsString) (owner : AcquisitionOwner) (bindingDigest : JsString)
      (now : ℕ)
  | acknowledge (acquisitionId : JsString) (owner : AcquisitionOwner)
      (resolutionDigest : JsString) (now : ℕ)
  | setDeliveryOwner (acquisitionId : JsString) (owner : AcquisitionOwner)
      (deliveryOwner : AcquisitionContinuation)
  | supersede (requestKey : JsString) (owner : AcquisitionOwner) (now : ℕ)
  | resolveTarget (requestId : JsString) (decision resolution : JsonValue) (now : ℕ)
  | retire (owner : AcquisitionOwner) (now : ℕ)
  | retireSession (sessionId : JsString) (now : ℕ)
  | retireRuntime (ownerRuntimeId : JsString) (now : ℕ)

namespace AcquisitionOp

variable (op : AcquisitionOp G)

/-- A name that is neither blank nor holds a NUL. -/
def exact (name : JsString) (e : AcquisitionError) : Except AcquisitionError Unit :=
  if trim name = [] ∨ 0 ∈ name then .error e else .ok ()

/-- What is checked before the transaction, and the work of the transaction. -/
def checked :
    Except AcquisitionError (AcquisitionDb G → Run AcquisitionError (AcquisitionWork G)) :=
  match op with
  | .admitAcquisition input now deliveryOwner uuid =>
    (requireOwner input.owner).bind fun () ↦
    (exact input.requestKey .requestKey).bind fun () ↦
    (parseSchema input.facts).bind fun () ↦
    (canonicalText host input.value.val).map fun binding db ↦
      some (Server.admitAcquisition host input now deliveryOwner uuid binding db)
  | .resolve acquisitionId owner bindingDigest decision write now => .ok fun db ↦
      some (Server.resolve host acquisitionId owner bindingDigest decision.val write now db)
  | .withdraw acquisitionId owner bindingDigest now => .ok fun db ↦
      some (Server.withdraw host acquisitionId owner bindingDigest now db)
  | .acknowledge acquisitionId owner resolutionDigest now => .ok fun db ↦
      some (Server.acknowledge host acquisitionId owner resolutionDigest now db)
  | .setDeliveryOwner acquisitionId owner deliveryOwner => .ok fun db ↦
      some (Server.setDeliveryOwner host acquisitionId owner deliveryOwner db)
  | .supersede requestKey owner now => .ok fun db ↦
      some (Server.supersede host requestKey owner now db)
  | .resolveTarget requestId decision resolution now =>
    (requireResolution host resolution.val).bind fun () ↦
    (parseSchema decision.val).map fun () ↦
      Server.resolveTarget host requestId decision.val resolution.val now
  | .retire owner now => (requireOwner owner).map fun () db ↦
      (retireOwner host owner now db).map fun db ↦ ⟨db, [], .void⟩
  | .retireSession sessionId now => (exact sessionId .session).map fun () ↦
      Server.retireSession host sessionId now
  | .retireRuntime ownerRuntimeId now => (exact ownerRuntimeId .runtime).map fun () ↦
      Server.retireRuntime host ownerRuntimeId now

/-- What the call does to the database, when nothing else fails. -/
def body (db : AcquisitionDb G) : Run AcquisitionError (AcquisitionWork G) :=
  match op.checked host with
  | .error e => some (.error e)
  | .ok run => run db

/-- The acquisition for which the call gets as far as `write`. -/
def callsWrite (db : AcquisitionDb G) : Option JsString := match op with
  | .resolve acquisitionId owner bindingDigest decision _ _ =>
    match ask host acquisitionId owner bindingDigest decision.val db with
    | .ok (.decide record) => some record.acquisitionId
    | _ => none
  | _ => none

/-- The effects that were registered, of which some throw. -/
def effectsWork (effects : List Bool) : Work (AcquisitionDb G) Bool :=
  effects.foldr (fun throws next ↦ .afterCommit throws (if throws then .throw [] else .done) next)
    .done

/-- The work of a transaction as the grant owner does it. -/
def transactionWork (result : Except AcquisitionError (AcquisitionWork G)) :
    Work (AcquisitionDb G) Bool :=
  match result with
  | .error e => .throw (e.message?.getD [])
  | .ok done => .write (fun _ ↦ done.db) (effectsWork done.effects)

/-- The whole call, if it ends. -/
def work (fault : Fault) (db : AcquisitionDb G) : Option (Work (AcquisitionDb G) Bool) :=
  match op.checked host with
  | .error e => some (.throw (e.message?.getD []))
  | .ok run => Option.map (fun result ↦
      .transaction fault (transactionWork result) false .done) (run db)

/-- The transaction of the call commits. -/
def commits (fault : Fault) (db : AcquisitionDb G) : Bool :=
  match op.checked host with
  | .error _ => false
  | .ok run => Option.any (fun result ↦ (transactionWork result).completes fault) (run db)

end AcquisitionOp

/-- A call, with the statements that fail by themselves. -/
structure AcquisitionCall (G : Type) where
  op : AcquisitionOp G
  fault : Fault

/-- The store. `ran` lists the acquisitions for which `write` was called, with what became of the
transaction. -/
structure AcquisitionStore (G : Type) where
  store : Store (AcquisitionDb G) Bool
  ran : List (JsString × Bool)

namespace AcquisitionStore

variable (s : AcquisitionStore G)

def db : AcquisitionDb G := s.store.connection.db

/-- The store on empty tables. -/
def fresh (grants : G) : AcquisitionStore G :=
  ⟨⟨.idle ⟨.empty, .empty, grants⟩, 0, none, fun _ ↦ [], 0, []⟩, []⟩

/-- The calls of `write` after a call. -/
def ranAfter (c : AcquisitionCall G) : List (JsString × Bool) :=
  match c.op.callsWrite host s.db with
  | some id => if c.fault.opens then s.ran else s.ran ++ [(id, c.op.commits host c.fault s.db)]
  | none => s.ran

/-- A call, and how it ends. -/
def perform (c : AcquisitionCall G) :
    Option (AcquisitionStore G × Except AuthorityError AcquisitionReply) :=
  (c.op.work host c.fault s.db).bind fun work ↦
  (exec work.size work s.store).map fun done ↦
    (⟨done.1, s.ranAfter host c⟩, done.2.map fun () ↦
      match c.op.body host s.db with
      | some (.ok done) => done.reply
      | _ => .void)

def step (c : AcquisitionCall G) : Option (AcquisitionStore G) :=
  (s.perform host c).map Prod.fst

end AcquisitionStore

end

end Vibestudio.Server

import Mathlib
import Vibestudio.Forest.ParentLinks
import Vibestudio.Shared.CanonicalJson

/-!
# The panel slots of a workspace

The slot operations of `packages/builtin/src/workspace-state/WorkspaceDO.ts`: the tables they write,
and `initializePanels`, `slotCreate`, `slotMove`, `slotClose` and `slotCloseOwnedRoots` as functions
of these tables.

A table is the list of its rows, text is as the database stores it, and an operation that throws
inside `transactionSync` gives no tables back. What lies outside is an argument: which entities
exist, what `entityReserve` answers, the clock, the random part of an id, and whether the storage
enforces `REFERENCES` clauses. A recursive query that would not end is the error `diverges`.
-/

namespace Vibestudio.WorkspaceState

open Js Vibestudio.Shared

/-! ## Tables -/

/-- A row of `slots`. -/
structure SlotRow where
  slotId : JsString
  parentSlotId : Option JsString
  currentEntityId : Option JsString
  currentEntryKey : Option JsString
  sortKey : ℤ
  ownerUserId : Option JsString
  createdAt : ℕ
  closedAt : Option ℕ
deriving DecidableEq

/-- A row of `slot_history`. -/
structure SlotHistoryRow where
  slotId : JsString
  cursor : ℕ
  entryKey : JsString
  entityId : JsString
  source : JsString
  contextId : JsString
  stateArgs : Option JsString
  options : Option JsString
  recordedAt : ℕ
deriving DecidableEq

/-- A row of `panel_close_cleanup`. -/
structure PanelCloseCleanupRow where
  slotId : JsString
  closeId : JsString
  ownerUserId : Option JsString
  entityId : Option JsString
  queuedAt : ℕ
deriving DecidableEq

/-- The tables, with two entries of `workspace_meta`: the tree revision, which triggers advance once
for each written row, and the ids seeded by `initializePanels`. -/
structure PanelTables where
  slots : List SlotRow
  slotHistory : List SlotHistoryRow
  panelCloseCleanup : List PanelCloseCleanupRow
  panelTreeRevision : ℕ
  initialPanels : Option (List JsString)
deriving DecidableEq

/-- A new workspace. -/
def PanelTables.empty : PanelTables := ⟨[], [], [], 0, none⟩

/-! ## Arguments -/

/-- `PanelSlotIdSchema`: the ids a caller can create slots with. -/
abbrev PanelSlotId := { id : JsString // lit "panel:tree/" <+: id }

structure PanelTreePlacement where
  beforeSlotId : Option JsString
  afterSlotId : Option JsString

structure SlotHistoryEntryInput where
  entryKey : JsString
  entityId : JsString
  source : JsString
  contextId : JsString
  stateArgs : Option JsData
  options : Option JsData

structure SlotCreateInput where
  slotId : PanelSlotId
  parentSlotId : Option PanelSlotId
  ownerUserId : Option JsString
  placement : Option PanelTreePlacement
  initialEntry : Option SlotHistoryEntryInput

/-- What an operation finds outside its tables. -/
structure Surroundings where
  foreignKeys : Bool
  entities : JsString → Bool
  nfc : Nfc
  now : ℕ

/-- What an operation throws. -/
inductive PanelError where
  | terminalApp (source : JsString)
  | collision (slotId field : JsString) (existing attempted : JsData)
  | canonicalJson (e : CanonicalJsonError)
  | jsonSyntax
  | slotNotFound (slotId : JsString)
  | invalidAnchor (slotId : JsString)
  | anchorNotSibling (slotId : JsString)
  | anchorsReversed
  | anchorsNotAdjacent
  | moveClosed (slotId : JsString)
  | moveUnderClosed (parentSlotId : JsString)
  | moveUnderOwnSubtree (slotId : JsString)
  | noRevocableUser
  | entityReserve (message : JsString)
  | constraint
  | diverges

/-- The message of an error that the operations themselves construct. -/
def PanelError.message? : PanelError → Option JsString
  | terminalApp source => some (source ++
      lit " is a terminal app: open it from a terminal (vibestudio terminal) or the terminal panel, not as a panel")
  | collision slotId field existing attempted => some (lit "Slot identity collision on " ++ slotId ++
      lit ": " ++ field ++ lit " existing=" ++ (stringify existing).getD (lit "undefined") ++
      lit " attempted=" ++ (stringify attempted).getD (lit "undefined"))
  | canonicalJson e => some e.message
  | slotNotFound slotId => some (lit "Slot not found: " ++ slotId)
  | invalidAnchor slotId => some (lit "Invalid panel-tree placement anchor: " ++ slotId)
  | anchorNotSibling slotId =>
    some (lit "Panel-tree placement anchor is not a destination sibling: " ++ slotId)
  | anchorsReversed => some (lit "Panel-tree placement anchors are reversed")
  | anchorsNotAdjacent => some (lit "Panel-tree placement anchors are not adjacent")
  | moveClosed slotId => some (lit "Cannot move closed slot: " ++ slotId)
  | moveUnderClosed parentSlotId => some (lit "Cannot move slot under closed parent: " ++ parentSlotId)
  | moveUnderOwnSubtree slotId =>
    some (lit "Cannot move slot " ++ slotId ++ lit " under its own subtree")
  | noRevocableUser => some (lit "A revocable workspace user id is required")
  | entityReserve message => some message
  | jsonSyntax | constraint | diverges => none

/-! ## Queries -/

namespace PanelTables

def slotGet (t : PanelTables) (slotId : JsString) : Option SlotRow :=
  t.slots.find? fun row ↦ decide (row.slotId = slotId)

def requireSlot (t : PanelTables) (slotId : JsString) : Except PanelError SlotRow :=
  match t.slotGet slotId with
  | some row => .ok row
  | none => .error (.slotNotFound slotId)

/-- The parent links of a set of rows. -/
def linksOf (rows : List SlotRow) : Forest.Links JsString :=
  rows.map fun row ↦ (row.slotId, row.parentSlotId)

/-- The rows with `closed_at IS NULL`. -/
def openSlots (t : PanelTables) : List SlotRow := t.slots.filter fun row ↦ decide (row.closedAt = none)

/-- `UPDATE slots SET … WHERE …`. -/
def updateSlots (t : PanelTables) (p : SlotRow → Bool) (f : SlotRow → SlotRow) : PanelTables :=
  { t with
    slots := t.slots.map fun row ↦ if p row then f row else row
    panelTreeRevision := t.panelTreeRevision + t.slots.countP p }

/-- The loop of `rootOwnerOf`. One turn needs a slot that was not seen before, so there are at most
as many turns as slots, and one more. -/
def rootOwnerFrom (t : PanelTables) : ℕ → List JsString → JsString → Option JsString → Option JsString
  | 0, _, _, owner => owner
  | n + 1, seen, cur, owner =>
    if cur = [] ∨ cur ∈ seen then owner
    else match t.slotGet cur with
      | none => owner
      | some row => match row.parentSlotId with
        | none => row.ownerUserId
        | some parent => rootOwnerFrom t n (cur :: seen) parent row.ownerUserId

def rootOwnerOf (t : PanelTables) (slotId : JsString) : Option JsString :=
  t.rootOwnerFrom (t.slots.length + 1) [] slotId none

/-! ## Order keys -/

def panelTreeOrderStep : ℤ := 1024

/-- A destination: the children of a slot, or the roots of an owner. -/
def inGroup (parentSlotId ownerUserId : Option JsString) (row : SlotRow) : Bool :=
  match parentSlotId with
  | none => decide (row.parentSlotId = none ∧ row.ownerUserId = ownerUserId)
  | some parent => decide (row.parentSlotId = some parent)

/-- The open slots of a destination, without the one that moves. -/
def siblings (t : PanelTables) (parentSlotId ownerUserId excludeSlotId : Option JsString) :
    List SlotRow :=
  t.openSlots.filter fun row ↦
    decide (row.slotId ≠ excludeSlotId.getD []) && inGroup parentSlotId ownerUserId row

/-- The inner function `anchor`. -/
def anchor (t : PanelTables) (parentSlotId ownerUserId excludeSlotId : Option JsString) :
    Option JsString → Except PanelError (Option SlotRow)
  | none | some [] => .ok none
  | some slotId => (t.requireSlot slotId).bind fun row ↦
    if row.closedAt ≠ none ∨ some row.slotId = excludeSlotId then .error (.invalidAnchor slotId)
    else if inGroup parentSlotId ownerUserId row then .ok (some row)
    else .error (.anchorNotSibling slotId)

/-- `ORDER BY sort_key, created_at DESC, slot_id`. -/
def siblingLe (a b : SlotRow) : Bool :=
  if a.sortKey ≠ b.sortKey then decide (a.sortKey < b.sortKey)
  else if a.createdAt ≠ b.createdAt then decide (b.createdAt < a.createdAt)
  else decide (compareUtf8 a.slotId b.slotId ≤ 0)

/-- `ROW_NUMBER() OVER (…) * PANEL_TREE_ORDER_STEP` for the row with the given id. -/
def rankedKey (ranked : List SlotRow) (slotId : JsString) : Option ℤ :=
  (ranked.findIdx? fun row ↦ decide (row.slotId = slotId)).map fun i : ℕ ↦
    ((i : ℤ) + 1) * panelTreeOrderStep

def rebalancePanelTreeGroup (t : PanelTables) (parentSlotId ownerUserId excludeSlotId : Option JsString) :
    PanelTables :=
  let ranked := (t.siblings parentSlotId ownerUserId excludeSlotId).insertionSort (siblingLe · ·)
  t.updateSlots (fun row ↦ (rankedKey ranked row.slotId).isSome)
    fun row ↦ { row with sortKey := (rankedKey ranked row.slotId).getD row.sortKey }

/-- The order key between the anchors, or `none` when they leave no room. -/
def orderKey? (t : PanelTables) (parentSlotId ownerUserId : Option JsString)
    (placement : Option PanelTreePlacement) (excludeSlotId : Option JsString) :
    Except PanelError (Option ℤ) :=
  (t.anchor parentSlotId ownerUserId excludeSlotId (placement.bind (·.beforeSlotId))).bind fun before ↦
  (t.anchor parentSlotId ownerUserId excludeSlotId (placement.bind (·.afterSlotId))).bind fun after ↦
  match before, after with
  | some before, some after =>
    if after.sortKey ≤ before.sortKey then .error .anchorsReversed
    else if (t.siblings parentSlotId ownerUserId excludeSlotId).any fun row ↦
      decide (before.sortKey < row.sortKey ∧ row.sortKey < after.sortKey)
    then .error .anchorsNotAdjacent
    else if 1 < after.sortKey - before.sortKey
    then .ok (some (before.sortKey + (after.sortKey - before.sortKey) / 2))
    else .ok none
  | none, none =>
    let edge := ((t.siblings parentSlotId ownerUserId excludeSlotId).map (·.sortKey)).min?
    .ok (some (edge.getD panelTreeOrderStep - panelTreeOrderStep))
  | none, some after => .ok (some (after.sortKey - panelTreeOrderStep))
  | some before, none => .ok (some (before.sortKey + panelTreeOrderStep))

/-- The recursion happens after a rebalancing, which leaves a whole step between neighbours. -/
def allocatePanelTreeOrderKey (parentSlotId ownerUserId : Option JsString)
    (placement : Option PanelTreePlacement) (excludeSlotId : Option JsString) :
    ℕ → PanelTables → Except PanelError (PanelTables × ℤ)
  | 0, _ => .error .diverges
  | n + 1, t =>
    (t.orderKey? parentSlotId ownerUserId placement excludeSlotId).bind fun
      | some key => .ok (t, key)
      | none => allocatePanelTreeOrderKey parentSlotId ownerUserId placement excludeSlotId n
          (t.rebalancePanelTreeGroup parentSlotId ownerUserId excludeSlotId)

end PanelTables

/-! ## `slotCreate` -/

def isTerminalAppLocation (relativePath : JsString) : Bool :=
  decide ((((relativePath.map fun c ↦ if c = 92 then 47 else c).dropWhile (· = 47)).takeWhile (· ≠ 47))
    = lit "terminal-apps")

def sameOptionalJson (nfc : Nfc) : Option JsData → Option JsData → Except PanelError Bool
  | some existing, some attempted =>
    (canonicalJson nfc existing).mapError .canonicalJson |>.bind fun left ↦
    (canonicalJson nfc attempted).mapError .canonicalJson |>.map fun right ↦ decide (left = right)
  | none, none => .ok true
  | _, _ => .ok false

/-- `null` for an absent value. -/
def orNull (s : Option JsString) : JsData := .leaf (s.elim .null .str)

/-- A field of the existing slot that has to be the one of the input. -/
def assertSameField (slotId field : JsString) (existing attempted : Option JsString) :
    Except PanelError Unit :=
  if existing = attempted then .ok ()
  else .error (.collision slotId field (orNull existing) (orNull attempted))

/-- The value of a JSON column. -/
def storedJson : Option JsString → Except PanelError (Option JsData)
  | none => .ok none
  | some text => match parse text with
    | some value => .ok (some value)
    | none => .error .jsonSyntax

/-- A JSON column of the existing slot that has to be the value of the input. -/
def assertSameJson (nfc : Nfc) (slotId field : JsString) (existing : Option JsString)
    (attempted : Option JsData) : Except PanelError Unit :=
  (storedJson existing).bind fun existing ↦
  (sameOptionalJson nfc existing attempted).bind fun same ↦
    if same then .ok ()
    else .error (.collision slotId field (existing.getD (.leaf .undefined))
      (attempted.getD (.leaf .undefined)))

def assertSlotCreateResumable (nfc : Nfc) (existing : SlotRow) (history : Option SlotHistoryRow)
    (input : SlotCreateInput) : Except PanelError Unit :=
  let slotId := input.slotId.val
  let entry := input.initialEntry
  match existing.closedAt with
  | some closedAt =>
    .error (.collision slotId (lit "closed") (.leaf (.num (JsNumber.ofNat closedAt))) (.leaf .null))
  | none =>
    (assertSameField slotId (lit "parentSlotId") existing.parentSlotId
      (input.parentSlotId.map Subtype.val)).bind fun _ ↦
    (if input.parentSlotId = none then
      assertSameField slotId (lit "ownerUserId") existing.ownerUserId input.ownerUserId
      else .ok ()).bind fun _ ↦
    (assertSameField slotId (lit "entryKey") existing.currentEntryKey
      (entry.map (·.entryKey))).bind fun _ ↦
    (assertSameField slotId (lit "entityId") existing.currentEntityId
      (entry.map (·.entityId))).bind fun _ ↦
    (assertSameField slotId (lit "source") (history.map (·.source)) (entry.map (·.source))).bind fun _ ↦
    (assertSameField slotId (lit "contextId") (history.map (·.contextId))
      (entry.map (·.contextId))).bind fun _ ↦
    (assertSameJson nfc slotId (lit "stateArgs") (history.bind (·.stateArgs))
      (entry.bind (·.stateArgs))).bind fun _ ↦
    assertSameJson nfc slotId (lit "options") (history.bind (·.options)) (entry.bind (·.options))

/-- `INSERT INTO slots`, with the primary key and the two `REFERENCES` clauses. -/
def insertSlot (db : Surroundings) (row : SlotRow) (t : PanelTables) : Except PanelError PanelTables :=
  let slots := t.slots ++ [row]
  if t.slots.any (fun other ↦ decide (other.slotId = row.slotId)) ||
      db.foreignKeys && (!(row.parentSlotId.all fun p ↦ slots.any fun other ↦ decide (other.slotId = p))
        || !(row.currentEntityId.all db.entities))
  then .error .constraint
  else .ok { t with slots, panelTreeRevision := t.panelTreeRevision + 1 }

def appendHistoryRow (db : Surroundings) (slotId : JsString) (cursor : ℕ)
    (entry : SlotHistoryEntryInput) (t : PanelTables) : Except PanelError PanelTables :=
  if t.slotHistory.any (fun row ↦ decide (row.slotId = slotId ∧ row.cursor = cursor)) ||
      db.foreignKeys && !((t.slotGet slotId).isSome && db.entities entry.entityId)
  then .error .constraint
  else .ok { t with
    slotHistory := t.slotHistory ++ [{
      slotId, cursor, entryKey := entry.entryKey, entityId := entry.entityId,
      source := entry.source, contextId := entry.contextId,
      stateArgs := entry.stateArgs.bind stringify, options := entry.options.bind stringify,
      recordedAt := db.now }]
    -- the trigger on `slot_history` counts rows of open slots only
    panelTreeRevision := t.panelTreeRevision +
      if t.openSlots.any fun row ↦ decide (row.slotId = slotId) then 1 else 0 }

def slotCreate (db : Surroundings) (input : SlotCreateInput) (t : PanelTables) :
    Except PanelError PanelTables :=
  match input.initialEntry.filter fun entry ↦ isTerminalAppLocation entry.source with
  | some entry => .error (.terminalApp entry.source)
  | none => match t.slotGet input.slotId with
    | some existing =>
      let history := t.slotHistory.find? fun row ↦
        decide (row.slotId = existing.slotId ∧ some row.entryKey = existing.currentEntryKey)
      (assertSlotCreateResumable db.nfc existing history input).map fun _ ↦ t
    | none =>
      let parentSlotId := input.parentSlotId.map Subtype.val
      let ownerUserId := match parentSlotId with
        | none => input.ownerUserId
        | some parent => t.rootOwnerOf parent
      (PanelTables.allocatePanelTreeOrderKey parentSlotId ownerUserId input.placement none 2 t).bind
        fun (t, sortKey) ↦
      (insertSlot db {
        slotId := input.slotId
        parentSlotId
        currentEntityId := input.initialEntry.map (·.entityId)
        currentEntryKey := input.initialEntry.map (·.entryKey)
        sortKey
        ownerUserId
        createdAt := db.now
        closedAt := none } t).bind fun t ↦
      match input.initialEntry with
      | none => .ok t
      | some entry => appendHistoryRow db input.slotId 0 entry t

/-! ## `slotMove` -/

/-- The owner at the destination, after the checks on it. -/
def moveOwner (slot : SlotRow) (parentSlotId ownerUserId : Option JsString) (t : PanelTables) :
    Except PanelError (Option JsString) :=
  match parentSlotId with
  | none => .ok (ownerUserId.or slot.ownerUserId)
  | some parentSlotId =>
    (t.requireSlot parentSlotId).bind fun parent ↦
    if parent.closedAt ≠ none then .error (.moveUnderClosed parentSlotId)
    else match Forest.subtree (PanelTables.linksOf t.slots) slot.slotId with
      | none => .error .diverges
      | some subtree =>
        if parentSlotId ∈ subtree then .error (.moveUnderOwnSubtree slot.slotId)
        else .ok (t.rootOwnerOf parentSlotId)

def slotMove (slotId : JsString) (parentSlotId : Option JsString) (placement : Option PanelTreePlacement)
    (ownerUserId : Option JsString) (t : PanelTables) : Except PanelError PanelTables :=
  (t.requireSlot slotId).bind fun slot ↦
  if slot.closedAt ≠ none then .error (.moveClosed slotId)
  else
    (moveOwner slot parentSlotId ownerUserId t).bind fun destOwner ↦
    (PanelTables.allocatePanelTreeOrderKey parentSlotId destOwner placement (some slotId) 2 t).bind
      fun (t, sortKey) ↦
    let t := t.updateSlots (fun row ↦ decide (row.slotId = slotId))
      fun row ↦ { row with parentSlotId, sortKey }
    match Forest.subtree (PanelTables.linksOf t.slots) slotId with
    | none => .error .diverges
    | some subtree => .ok (t.updateSlots (fun row ↦ decide (row.slotId ∈ subtree))
        fun row ↦ { row with ownerUserId := destOwner })

/-! ## `slotClose` -/

structure PanelCloseResult where
  closeId : JsString
  closedCount : ℕ
deriving DecidableEq

def PanelTables.pendingOf (t : PanelTables) (closeId : JsString) : ℕ :=
  t.panelCloseCleanup.countP fun row ↦ decide (row.closeId = closeId)

/-- `INSERT OR IGNORE INTO panel_close_cleanup` for one slot. -/
def queueCleanupRow (db : Surroundings) (closeId : JsString) (queue : List PanelCloseCleanupRow)
    (row : SlotRow) : List PanelCloseCleanupRow :=
  if queue.any fun queued ↦ decide (queued.slotId = row.slotId) then queue
  else queue ++ [⟨row.slotId, closeId, row.ownerUserId, row.currentEntityId, db.now⟩]

/-- The same for `SELECT … FROM subtree JOIN slots`. -/
def queueCleanup (db : Surroundings) (closeId : JsString) (subtree : List JsString) (t : PanelTables) :
    PanelTables :=
  { t with
    panelCloseCleanup :=
      (subtree.filterMap t.slotGet).foldl (queueCleanupRow db closeId) t.panelCloseCleanup }

def slotClose (db : Surroundings) (slotId : JsString) (t : PanelTables) :
    Except PanelError (PanelTables × PanelCloseResult) :=
  (t.requireSlot slotId).bind fun root ↦
  if root.closedAt ≠ none then .ok (t, ⟨slotId, t.pendingOf slotId⟩)
  else match Forest.subtree (PanelTables.linksOf t.openSlots) slotId with
    | none => .error .diverges
    | some subtree =>
      let t := queueCleanup db slotId subtree t
      .ok (t.updateSlots (fun row ↦ decide (row.slotId ∈ subtree))
          (fun row ↦ { row with
            closedAt := some db.now, currentEntityId := none, currentEntryKey := none }),
        ⟨slotId, t.pendingOf slotId⟩)

/-- The loop of `slotCloseOwnedRoots`, each turn a transaction of its own. -/
def closeAll (db : Surroundings) : List JsString → PanelTables → PanelTables × Except PanelError Unit
  | [], t => (t, .ok ())
  | slotId :: rest, t => match slotClose db slotId t with
    | .error e => (t, .error e)
    | .ok (t, _) => closeAll db rest t

/-- `ORDER BY slot_id`. -/
def sortIds (ids : List JsString) : List JsString := ids.insertionSort fun a b ↦ compareUtf8 a b ≤ 0

def slotCloseOwnedRoots (db : Surroundings) (ownerUserId : JsString) (t : PanelTables) :
    PanelTables × Except PanelError (List JsString × List JsString) :=
  if ownerUserId = [] ∨ ownerUserId = lit "system" then (t, .error .noRevocableUser)
  else
    let rootIds := sortIds ((t.openSlots.filter fun row ↦
      decide (row.parentSlotId = none ∧ row.ownerUserId = some ownerUserId)).map (·.slotId))
    let (t, closed) := closeAll db rootIds t
    (t, closed.map fun _ ↦ (rootIds, sortIds ((t.panelCloseCleanup.filter fun row ↦
      decide (row.ownerUserId = some ownerUserId)).map (·.slotId))))

/-! ## `initializePanels` -/

/-- An entity that `entityReserve` has reserved. -/
structure ReservedEntity where
  id : JsString
  contextId : JsString

/-- An entry of `initPanels` with the values drawn for it: the random part of its slot id, its
history key, and the answer of `entityReserve`. -/
structure InitPanelEntry where
  source : JsString
  stateArgs : Option JsData
  nonce : JsString
  key : JsString
  reserved : Except JsString ReservedEntity

/-- `computePanelId({ relativePath, isRoot: true })`. -/
def computePanelId (relativePath nonce : JsString) : PanelSlotId :=
  ⟨lit "panel:tree/" ++ ((relativePath.map fun c ↦ if c = 47 then 126 else c) ++ 47 :: nonce),
    List.prefix_append _ _⟩

/-- The loop that creates the seed slots. -/
def seedPanels (ownerUserId : Option JsString) : List InitPanelEntry → Surroundings → List JsString →
    PanelTables → Except PanelError (PanelTables × Surroundings × List JsString)
  | [], db, slotIds, t => .ok (t, db, slotIds)
  | input :: rest, db, slotIds, t => match input.reserved with
    | .error message => .error (.entityReserve message)
    | .ok entity =>
      let db := { db with entities := fun id ↦ db.entities id || decide (id = entity.id) }
      let slotId := computePanelId input.source input.nonce
      (slotCreate db {
        slotId
        parentSlotId := none
        ownerUserId
        placement := slotIds.getLast?.map fun last ↦ ⟨some last, none⟩
        initialEntry := some {
          entryKey := input.key, entityId := entity.id, source := input.source,
          contextId := entity.contextId,
          stateArgs := some (input.stateArgs.getD (.obj [])), options := none } } t).bind fun t ↦
      seedPanels ownerUserId rest db (slotIds ++ [slotId.val]) t

/-- The order of the roots of all owners in one group. -/
def rootLe (owner : JsString) (a b : SlotRow) : Bool :=
  let rank := fun row : SlotRow ↦
    if row.ownerUserId = some owner then 0 else if row.ownerUserId = none then 1 else 2
  if rank a ≠ rank b then decide (rank a < rank b)
  else
    let c := compareUtf8 (a.ownerUserId.getD []) (b.ownerUserId.getD [])
    if c ≠ 0 then decide (c < 0) else PanelTables.siblingLe a b

/-- The tree of a private workspace gets its one owner. -/
def normalizeOwner (owner : JsString) (t : PanelTables) : PanelTables :=
  if t.slots.any fun row ↦ decide (row.ownerUserId ≠ some owner) then
    let isRoot := fun row : SlotRow ↦ decide (row.parentSlotId = none ∧ row.closedAt = none)
    let ranked := (t.slots.filter isRoot).insertionSort (rootLe owner · ·)
    let t := t.updateSlots (fun row ↦ decide (row.ownerUserId ≠ some owner) || isRoot row)
      fun row ↦ { row with
        ownerUserId := some owner
        sortKey := (PanelTables.rankedKey ranked row.slotId).getD row.sortKey }
    { t with panelCloseCleanup := t.panelCloseCleanup.map fun row ↦
        { row with ownerUserId := some owner } }
  else t

/-- What `panelTreeDetail` returns, the entity apart. -/
structure PanelDetail where
  revision : ℕ
  slot : SlotRow
  historyCount : ℕ
  currentHistory : SlotHistoryRow
deriving DecidableEq

def panelTreeDetail (db : Surroundings) (t : PanelTables) (slotId : JsString) : Option PanelDetail :=
  (t.openSlots.find? fun row ↦ decide (row.slotId = slotId)).bind fun slot ↦
  (slot.currentEntryKey.filter (· ≠ [])).bind fun entryKey ↦
  (slot.currentEntityId.filter fun id ↦ decide (id ≠ []) && db.entities id).bind fun _ ↦
  (t.slotHistory.find? fun row ↦ decide (row.slotId = slotId ∧ row.entryKey = entryKey)).map
    fun history ↦
      ⟨t.panelTreeRevision, slot, t.slotHistory.countP (fun row ↦ decide (row.slotId = slotId)), history⟩

/-- The ids of the seed slots, created now unless the marker names them or the tree was ever used. -/
def adoptSeed (db : Surroundings) (inputs : List InitPanelEntry) (privateOwner : Option JsString)
    (t : PanelTables) : Except PanelError (PanelTables × Surroundings × List JsString) :=
  match t.initialPanels with
  | some slotIds => .ok (t, db, slotIds)
  | none =>
    (if t.panelTreeRevision = 0 ∧ t.slots = [] then seedPanels privateOwner inputs db [] t
      else .ok (t, db, [])).map fun (t, db, slotIds) ↦
    ({ t with initialPanels := some slotIds }, db, slotIds)

def initializePanels (db : Surroundings) (inputs : List InitPanelEntry)
    (privateOwnerUserId : Option JsString) (t : PanelTables) :
    Except PanelError (PanelTables × List PanelDetail) :=
  -- an empty string counts as no owner
  let privateOwner := privateOwnerUserId.filter (· ≠ [])
  (adoptSeed db inputs privateOwner (privateOwner.elim t (normalizeOwner · t))).map
    fun (t, db, slotIds) ↦ (t, slotIds.filterMap (panelTreeDetail db t))

/-! ## Runs -/

inductive PanelCall where
  | initializePanels (inputs : List InitPanelEntry) (privateOwnerUserId : Option JsString)
  | slotCreate (input : SlotCreateInput)
  | slotMove (slotId : JsString) (parentSlotId : Option JsString)
      (placement : Option PanelTreePlacement) (ownerUserId : Option JsString)
  | slotClose (slotId : JsString)
  | slotCloseOwnedRoots (ownerUserId : JsString)

/-- The tables after `transactionSync`: those before when the callback throws. -/
def committed (t : PanelTables) : Except PanelError PanelTables → PanelTables
  | .ok t' => t'
  | .error _ => t

/-- The tables after a call, made in the given surroundings. -/
def perform (t : PanelTables) (e : Surroundings × PanelCall) : PanelTables :=
  match e with
  | (db, .initializePanels inputs owner) => committed t ((initializePanels db inputs owner t).map (·.1))
  | (db, .slotCreate input) => committed t (slotCreate db input t)
  | (_, .slotMove slotId parent placement owner) =>
    committed t (slotMove slotId parent placement owner t)
  | (db, .slotClose slotId) => committed t ((slotClose db slotId t).map (·.1))
  | (db, .slotCloseOwnedRoots owner) => (slotCloseOwnedRoots db owner t).1

end Vibestudio.WorkspaceState

import Mathlib
import Vibestudio.Transition.Run
import Vibestudio.WorkspaceState.Entities
import Vibestudio.WorkspaceState.PanelTree

/-!
# The navigation history of a slot

`slotCommitPreparedNavigation` and `slotPatchCurrentStateArgs` of
`packages/builtin/src/workspace-state/WorkspaceDO.ts`, and the reads that go through the pointer of a
slot into its history. The pointer is an entry key, but the schema keeps only the cursors of a slot
apart, and an append or a replacement takes any key. As long as no navigation commits a key that a row
it keeps has already, the cursors are `0..n` and every pointer leads to one row.
-/

namespace Vibestudio.WorkspaceState

open Js Vibestudio.Shared

/-! ## Arguments -/

inductive SlotMutation where
  | append (entry : SlotHistoryEntryInput)
  | replace (entry : SlotHistoryEntryInput)
  | select (entryKey : JsString)

structure SlotCommitPreparedNavigationInput where
  slotId : JsString
  expectedCurrentEntityId : JsString
  mutation : SlotMutation

structure SlotCommitPreparedNavigationResult where
  previousEntityId : JsString
  currentEntityId : JsString
  currentEntryKey : JsString
  cursor : ℕ
deriving DecidableEq

structure ExpectedPanelState where
  entryKey : JsString
  activeBuildKey : Option JsString
  schema : Option JsData

/-- What a navigation finds outside the panel tables: also the rows of `entities`, and the validator of
panel arguments. -/
structure NavigationSurroundings extends Surroundings where
  entityRow : JsString → Option DbEntityRow
  mergeValidateStateArgs : JsData → JsData → Option JsData → Except JsString JsData

inductive NavigationError where
  | panel (e : PanelError)
  | navigateClosed (slotId : JsString)
  | conflict (slotId : JsString)
  | currentMissing (slotId entryKey : JsString)
  | entryNotFound (slotId entryKey : JsString)
  | notActive (entityId : JsString)
  | notMatching (entityId : JsString)
  | noCurrentEntry (slotId : JsString)
  | stateArgsConflict (slotId field : JsString) (expected actual : Option JsString)
  | currentHistoryMissing (slotId : JsString)
  | stateArgs (message : JsString)

/-- The message of an error that the two operations construct. -/
def NavigationError.message? : NavigationError → Option JsString
  | panel e => e.message?
  | navigateClosed slotId => some (lit "Cannot navigate closed slot: " ++ slotId)
  | conflict slotId => some (lit "Slot navigation conflict: " ++ slotId ++
      lit " current entity changed during preparation")
  | currentMissing slotId entryKey => some (lit "Slot " ++ slotId ++
      lit " current entry is missing from history: " ++ entryKey)
  | entryNotFound slotId entryKey =>
    some (lit "History entry not found: slot=" ++ slotId ++ lit " entry=" ++ entryKey)
  | notActive entityId =>
    some (lit "Prepared panel incarnation is not active and complete: " ++ entityId)
  | notMatching entityId =>
    some (lit "Prepared panel incarnation does not match history entry: " ++ entityId)
  | noCurrentEntry slotId => some (lit "Slot " ++ slotId ++ lit " has no current history entry")
  | stateArgsConflict slotId field expected actual => some (lit "stateArgs patch for " ++ slotId ++
      lit " conflicted: " ++ field ++ lit " expected=" ++
      (stringify (orNull expected)).getD [] ++ lit " actual=" ++ (stringify (orNull actual)).getD [])
  | currentHistoryMissing slotId => some (lit "Slot " ++ slotId ++
      lit " current history entry is missing")
  | stateArgs message => some message

/-! ## Rows of a slot -/

namespace PanelTables

variable (t : PanelTables)

def historyOf (slotId : JsString) : List SlotHistoryRow :=
  t.slotHistory.filter fun row ↦ decide (row.slotId = slotId)

/-- `WHERE slot_id = ? AND entry_key = ?`. -/
def historyEntries (slotId entryKey : JsString) : List SlotHistoryRow :=
  t.slotHistory.filter fun row ↦ decide (row.slotId = slotId ∧ row.entryKey = entryKey)

def slotHistoryEntry (slotId entryKey : JsString) : Option SlotHistoryRow :=
  (t.historyEntries slotId entryKey).head?

/-- The rows of the join of `slotHistoryRelative`. -/
def relativeRows (slotId : JsString) (delta : ℤ) : List SlotHistoryRow :=
  (t.openSlots.filter fun slot ↦ decide (slot.slotId = slotId)).flatMap fun slot ↦
  (t.slotHistory.filter fun current ↦ decide (current.slotId = slot.slotId ∧
    slot.currentEntryKey = some current.entryKey)).flatMap fun current ↦
  t.slotHistory.filter fun target ↦ decide (target.slotId = slot.slotId ∧
    (target.cursor : ℤ) = current.cursor + delta)

def slotHistoryRelative (slotId : JsString) (delta : ℤ) : Option SlotHistoryRow :=
  (t.relativeRows slotId delta).head?

def slotIsOpen (slotId : JsString) : Bool := t.openSlots.any fun row ↦ decide (row.slotId = slotId)

/-- `DELETE FROM slot_history WHERE slot_id = ? AND …cursor…`. -/
def deleteHistory (slotId : JsString) (p : ℕ → Bool) : PanelTables :=
  let gone := fun row : SlotHistoryRow ↦ decide (row.slotId = slotId) && p row.cursor
  { t with
    slotHistory := t.slotHistory.filter fun row ↦ !gone row
    panelTreeRevision := t.panelTreeRevision +
      if t.slotIsOpen slotId then t.slotHistory.countP gone else 0 }

/-- `UPDATE slot_history SET state_args = ? WHERE slot_id = ? AND entry_key = ?`. -/
def setHistoryStateArgs (slotId entryKey stateArgs : JsString) : PanelTables :=
  let hit := fun row : SlotHistoryRow ↦ decide (row.slotId = slotId ∧ row.entryKey = entryKey)
  { t with
    slotHistory := t.slotHistory.map fun row ↦
      if hit row then { row with stateArgs := some stateArgs } else row
    panelTreeRevision := t.panelTreeRevision +
      if t.slotIsOpen slotId then t.slotHistory.countP hit else 0 }

/-- `UPDATE slots SET current_entity_id = ?, current_entry_key = ? WHERE slot_id = ?`. -/
def setCurrent (slotId entityId entryKey : JsString) : PanelTables :=
  t.updateSlots (fun row ↦ decide (row.slotId = slotId)) fun row ↦
    { row with currentEntityId := some entityId, currentEntryKey := some entryKey }

end PanelTables

/-! ## `slotCommitPreparedNavigation` -/

def isBrowserPanelSource (source : JsString) : Bool := (lit "browser:").isPrefixOf source

def assertCompleteActivePanelIncarnation (env : NavigationSurroundings) (entry : SlotHistoryEntryInput) :
    Except NavigationError Unit := match env.entityRow entry.entityId with
  | none => .error (.notActive entry.entityId)
  | some entity =>
    if entity.kind ≠ .panel ∨ entity.status ≠ .active ∨ entity.retiredAt ≠ none ∨
        entity.cleanupComplete = false ∨ entity.error ≠ none ∨
        ¬isBrowserPanelSource entity.sourceRepoPath ∧ (entity.activeBuildKey = none ∨
          entity.activeExecutionDigest = none ∨ entity.activeAuthority = none) then
      .error (.notActive entry.entityId)
    else if entity.key ≠ entry.entryKey ∨ entity.sourceRepoPath ≠ entry.source ∨
        entity.contextId ≠ entry.contextId then
      .error (.notMatching entry.entityId)
    else .ok ()

/-- `parseJsonOrNull`: text that is no JSON is its own value. -/
def parseJsonOrNull (text : JsString) : JsData := (parse text).getD (.leaf (.str text))

/-- A row as the entry that was committed. -/
def SlotHistoryRow.entry (row : SlotHistoryRow) : SlotHistoryEntryInput where
  entryKey := row.entryKey
  entityId := row.entityId
  source := row.source
  contextId := row.contextId
  stateArgs := row.stateArgs.map parseJsonOrNull
  options := row.options.map parseJsonOrNull

/-- `target` and `cursor`, with the history that the mutation leaves. -/
def mutateHistory (env : NavigationSurroundings) (slotId : JsString) (currentCursor : ℕ)
    (mutation : SlotMutation) (t : PanelTables) :
    Except NavigationError (PanelTables × SlotHistoryEntryInput × ℕ) := match mutation with
  | .select entryKey => match t.slotHistoryEntry slotId entryKey with
    | none => .error (.entryNotFound slotId entryKey)
    | some selected => .ok (t, selected.entry, selected.cursor)
  | .append entry =>
    -- a navigation from a back position abandons the forward branch
    ((appendHistoryRow env.toSurroundings slotId (currentCursor + 1) entry
      (t.deleteHistory slotId fun c ↦ decide (currentCursor < c))).mapError .panel).map fun t ↦
    (t, entry, currentCursor + 1)
  | .replace entry =>
    ((appendHistoryRow env.toSurroundings slotId currentCursor entry
      (t.deleteHistory slotId fun c ↦ decide (c = currentCursor))).mapError .panel).map fun t ↦
    (t, entry, currentCursor)

/-- The source of a mutation that brings its own entry. -/
def SlotMutation.source? : SlotMutation → Option JsString
  | .append entry | .replace entry => some entry.source
  | .select _ => none

/-- The pointer of a slot that is expected to have this entity. -/
def expectCurrent (slot : SlotRow) (input : SlotCommitPreparedNavigationInput) :
    Except NavigationError JsString :=
  if slot.closedAt ≠ none then .error (.navigateClosed input.slotId)
  else match slot.currentEntryKey with
    | none => .error (.conflict input.slotId)
    | some entryKey =>
      if slot.currentEntityId = some input.expectedCurrentEntityId then .ok entryKey
      else .error (.conflict input.slotId)

def slotCommitPreparedNavigation (env : NavigationSurroundings)
    (input : SlotCommitPreparedNavigationInput) (t : PanelTables) :
    Except NavigationError (PanelTables × SlotCommitPreparedNavigationResult) :=
  match input.mutation.source?.filter isTerminalAppLocation with
  | some source => .error (.panel (.terminalApp source))
  | none =>
    ((t.requireSlot input.slotId).mapError .panel).bind fun slot ↦
    (expectCurrent slot input).bind fun entryKey ↦
    match t.slotHistoryEntry input.slotId entryKey with
    | none => .error (.currentMissing input.slotId entryKey)
    | some current =>
      (mutateHistory env input.slotId current.cursor input.mutation t).bind fun (t, target, cursor) ↦
      (assertCompleteActivePanelIncarnation env target).map fun _ ↦
      (t.setCurrent input.slotId target.entityId target.entryKey, {
        previousEntityId := input.expectedCurrentEntityId
        currentEntityId := target.entityId
        currentEntryKey := target.entryKey
        cursor })

/-! ## `slotPatchCurrentStateArgs` -/

def decodePanelStateArgs : Option JsString → Except NavigationError JsData
  | none => .ok (.obj [])
  | some raw => match parse raw with
    | none => .error (.panel .jsonSyntax)
    | some (.obj members) => .ok (.obj members)
    | some _ => .error (.stateArgs (lit "Stored panel stateArgs must be a JSON object"))

/-- What a patch returns, with the arguments it writes to `entities` and to which row. -/
structure PatchedStateArgs where
  next : JsData
  entityWrite : Option (JsString × Option JsString)

def slotPatchCurrentStateArgs (env : NavigationSurroundings) (slotId : JsString) (patch : JsData)
    (expected : ExpectedPanelState) (t : PanelTables) :
    Except NavigationError (PanelTables × PatchedStateArgs) :=
  ((t.requireSlot slotId).mapError .panel).bind fun slot ↦
  match slot.currentEntryKey.filter (· ≠ []) with
  | none => .error (.noCurrentEntry slotId)
  | some entryKey =>
    if entryKey ≠ expected.entryKey then
      .error (.stateArgsConflict slotId (lit "entryKey") (some expected.entryKey) (some entryKey))
    else
      let entity := (slot.currentEntityId.filter (· ≠ [])).bind env.entityRow
      if entity.bind (·.activeBuildKey) ≠ expected.activeBuildKey then
        .error (.stateArgsConflict slotId (lit "activeBuildKey") expected.activeBuildKey
          (entity.bind (·.activeBuildKey)))
      else match t.slotHistoryEntry slotId entryKey with
        | none => .error (.currentHistoryMissing slotId)
        | some history =>
          (decodePanelStateArgs history.stateArgs).bind fun current ↦
          ((env.mergeValidateStateArgs current patch expected.schema).mapError .stateArgs).map fun next ↦
          let patched := t.setHistoryStateArgs slotId entryKey ((stringify next).getD [])
          -- the trigger on `entities` counts the row of an open slot
          ({ patched with panelTreeRevision := patched.panelTreeRevision +
              if entity.isSome ∧ slot.closedAt = none then 1 else 0 },
            ⟨next, (slot.currentEntityId.filter (· ≠ [])).map fun id ↦ (id, stringify next)⟩)

/-! ## Runs -/

/-- The calls that write slots or their history. -/
inductive HistoryCall where
  | panel (call : PanelCall)
  | slotCommitPreparedNavigation (input : SlotCommitPreparedNavigationInput)
  | slotPatchCurrentStateArgs (slotId : JsString) (patch : JsData) (expected : ExpectedPanelState)

/-- The tables after `transactionSync`: those before when the callback throws. -/
def committedOr {α : Type} (t : PanelTables) : Except NavigationError (PanelTables × α) → PanelTables
  | .ok (t', _) => t'
  | .error _ => t

def historyPerform (t : PanelTables) : NavigationSurroundings × HistoryCall → PanelTables
  | (env, .panel call) => perform t (env.toSurroundings, call)
  | (env, .slotCommitPreparedNavigation input) =>
    committedOr t (slotCommitPreparedNavigation env input t)
  | (env, .slotPatchCurrentStateArgs slotId patch expected) =>
    committedOr t (slotPatchCurrentStateArgs env slotId patch expected t)

def historyStep (t : PanelTables) (e : NavigationSurroundings × HistoryCall) : Option PanelTables :=
  some (historyPerform t e)

/-- The cursor of the current entry of a slot. -/
def PanelTables.currentCursor (t : PanelTables) (slotId : JsString) : Option ℕ :=
  (t.slotGet slotId).bind fun slot ↦ slot.currentEntryKey.bind fun entryKey ↦
    (t.slotHistoryEntry slotId entryKey).map SlotHistoryRow.cursor

/-- No row that an append or a replacement keeps has the key it commits. -/
def keepsKeysApart (t : PanelTables) : NavigationSurroundings × HistoryCall → Bool
  | (_, .slotCommitPreparedNavigation input) =>
    (t.currentCursor input.slotId).all fun cursor ↦ match input.mutation with
      | .select _ => true
      | .append entry => (t.historyOf input.slotId).all fun row ↦
          decide (row.cursor ≤ cursor → row.entryKey ≠ entry.entryKey)
      | .replace entry => (t.historyOf input.slotId).all fun row ↦
          decide (row.cursor ≠ cursor → row.entryKey ≠ entry.entryKey)
  | _ => true

end Vibestudio.WorkspaceState

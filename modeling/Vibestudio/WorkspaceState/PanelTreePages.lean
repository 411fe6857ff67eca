import Mathlib
import Vibestudio.Js.SafeInteger
import Vibestudio.Paging.Keyset
import Vibestudio.WorkspaceState.PageOrder
import Vibestudio.WorkspaceState.TreeRevision

/-!
# Pages of the panel tree

`queryPanelTreePage` and `panelTreeRootGroups` of `packages/builtin/src/workspace-state/WorkspaceDO.ts`. Both are keyset
queries: a cursor is the text of the key of the last row of a page. The pages of a chain together are the slots of the
group, as long as the join with the history answers once for each of them and their keys survive the text.
-/

namespace Vibestudio.WorkspaceState

open Js Paging Sqlite Transition Vibestudio.Shared PanelTables

/-! ## Requests and answers -/

inductive PanelTreeGroup where
  | roots (ownerUserId : Option JsString)
  | children (parentSlotId : JsString)

/-- The part of the `WHERE` clause that is about the group. -/
def PanelTreeGroup.holds : PanelTreeGroup → SlotRow → Bool
  | .roots ownerUserId => inGroup none ownerUserId
  | .children parentSlotId => inGroup (some parentSlotId) none

structure PanelTreePageInput where
  group : PanelTreeGroup
  cursor : Option JsString
  limit : Option ℤ

structure PanelTopologyNode where
  slotId : JsString
  parentSlotId : Option JsString
  ownerUserId : Option JsString
  createdAt : ℕ
  childCount : ℕ
  source : Option JsString
  options : Option JsString
  contextId : Option JsString
  runtimeEntityId : Option JsString
  effectiveVersion : Option JsString
  buildKey : Option JsString

structure PanelTopologyPage where
  revision : ℕ
  group : PanelTreeGroup
  nodes : List PanelTopologyNode
  nextCursor : Option JsString

structure PanelTreeRootGroupPage where
  revision : ℕ
  groups : List (Option JsString × ℕ)
  nextCursor : Option JsString

inductive PanelPageError where
  | invalidCursor
  | invalidRootGroupCursor
  | invalidRevision (revision : ℕ)
  | jsonSyntax

def PanelPageError.message? : PanelPageError → Option JsString
  | invalidCursor => some (lit "Invalid panel-tree page cursor")
  | invalidRootGroupCursor => some (lit "Invalid panel-tree root-group cursor")
  | invalidRevision revision => some (lit "Invalid panel tree revision: " ++ integerText revision)
  | jsonSyntax => none

/-- `Math.max(1, Math.min(200, limit ?? 50))`. -/
def pageLimit (limit : Option ℤ) : ℕ := (max 1 (min 200 (limit.getD 50))).toNat

/-- The rows of a page, out of one row more than its limit, and the last of them if there are more. -/
def takePage {α : Type} (limit : ℕ) (rows : List α) : List α × Option α :=
  let rows := rows.take (limit + 1)
  let hasMore := decide (limit < rows.length)
  let visible := if hasMore then rows.take limit else rows
  (visible, if hasMore then visible.getLast? else none)

/-! ## Cursors -/

/-- The columns that a cursor of a page carries. -/
abbrev PageCursor := ℤ × ℤ × JsString

def SlotRow.pageCursor (row : SlotRow) : JsString :=
  (stringify (.arr [.leaf (.num (.ofInt row.sortKey)), .leaf (.num (.ofInt row.createdAt)),
    .leaf (.str row.slotId)])).getD []

/-- The key of a row consists of safe integers. -/
def SlotRow.SafeKey (row : SlotRow) : Prop := row.sortKey.natAbs < 2 ^ 53 ∧ row.createdAt < 2 ^ 53

def pageCursorOf : JsData → Option PageCursor
  | .arr [.leaf sortKey, .leaf createdAt, .leaf (.str slotId)] =>
    sortKey.safeInteger?.bind fun sortKey ↦ createdAt.safeInteger?.map fun createdAt ↦ (sortKey, createdAt, slotId)
  | _ => none

/-- An empty cursor counts as none. -/
def parsePageCursor (cursor : Option JsString) : Except PanelPageError (Option PageCursor) :=
  match cursor.filter (· ≠ []) with
  | none => .ok none
  | some text => match (parse text).bind pageCursorOf with
    | some cursor => .ok (some cursor)
    | none => .error .invalidCursor

/-- The part of the `WHERE` clause that is about the cursor. -/
def afterCursor (cursor : PageCursor) (row : SlotRow) : Bool :=
  decide (cursor.1 < row.sortKey ∨ row.sortKey = cursor.1 ∧ (row.createdAt : ℤ) < cursor.2.1 ∨
    row.sortKey = cursor.1 ∧ (row.createdAt : ℤ) = cursor.2.1 ∧ 0 < compareUtf8 row.slotId cursor.2.2)

def rootGroupCursor (ownerUserId : Option JsString) : JsString :=
  (stringify (.arr [.leaf (.str (if ownerUserId = none then lit "0" else lit "1")),
    .leaf (.str (ownerUserId.getD []))])).getD []

def parseRootGroupCursor : Option JsString → Except PanelPageError (Option (JsString × JsString))
  | none => .ok none
  | some text => match parse text with
    | none => .error .jsonSyntax
    | some (.leaf .null) => .ok none
    | some (.arr [.leaf (.str tag), .leaf (.str owner)]) => .ok (some (tag, owner))
    | some _ => .error .invalidRootGroupCursor

def afterOwner (cursor : JsString × JsString) (ownerUserId : Option JsString) : Bool :=
  ownerUserId.any fun owner ↦ decide (cursor.1 = lit "0" ∨ 0 < compareUtf8 owner cursor.2)

/-! ## Queries -/

/-- The rows that `LEFT JOIN slot_history` puts beside a slot: there can be several, for the schema lets a key stand at
more than one cursor. -/
def PanelTables.joinedHistory (t : PanelTables) (slot : SlotRow) : List (Option SlotHistoryRow) :=
  match (t.historyOf slot.slotId).filter fun row ↦ decide (slot.currentEntryKey = some row.entryKey) with
  | [] => [none]
  | rows => rows.map some

def PanelTables.childCount (t : PanelTables) (slotId : JsString) : ℕ :=
  t.openSlots.countP fun child ↦ decide (child.parentSlotId = some slotId)

/-- `ORDER BY owner_user_id IS NOT NULL, owner_user_id`. -/
def ownerLe : Option JsString → Option JsString → Bool
  | none, _ => true
  | some _, none => false
  | some a, some b => decide (compareUtf8 a b ≤ 0)

/-- `SELECT owner_user_id, COUNT(*) … GROUP BY owner_user_id`. -/
def countByOwner (rows : List SlotRow) : List (Option JsString × ℕ) :=
  (((rows.map (·.ownerUserId)).dedup).insertionSort (ownerLe · ·)).map fun owner ↦
    (owner, rows.countP fun row ↦ decide (row.ownerUserId = owner))

namespace WorkspaceTables

variable (w : WorkspaceTables)

def panelTreeRevision : Except PanelPageError ℕ :=
  if w.panels.panelTreeRevision < 2 ^ 53 then .ok w.panels.panelTreeRevision
  else .error (.invalidRevision w.panels.panelTreeRevision)

def openGroup (group : PanelTreeGroup) : List SlotRow := w.panels.openSlots.filter group.holds

/-- The slots of a group in their order. -/
def siblingsInOrder (group : PanelTreeGroup) : List SlotRow := pageOrder (w.openGroup group)

/-- The rows of the query in their order, without its limit. -/
def pageRows (group : PanelTreeGroup) (cursor : Option PageCursor) : List (SlotRow × Option SlotHistoryRow) :=
  (pageOrder ((w.openGroup group).filter fun row ↦ cursor.all (afterCursor · row))).flatMap fun slot ↦
    (w.panels.joinedHistory slot).map fun history ↦ (slot, history)

def pageNode (row : SlotRow × Option SlotHistoryRow) : PanelTopologyNode :=
  let (slot, history) := row
  let entity := slot.currentEntityId.bind w.entities.readEntityRow
  { slotId := slot.slotId
    parentSlotId := slot.parentSlotId
    ownerUserId := slot.ownerUserId
    createdAt := slot.createdAt
    childCount := w.panels.childCount slot.slotId
    source := history.map (·.source)
    options := history.bind (·.options)
    contextId := entity.map (·.contextId)
    runtimeEntityId := entity.bind fun _ ↦ slot.currentEntityId
    effectiveVersion := entity.map (·.sourceEffectiveVersion)
    buildKey := entity.bind (·.activeBuildKey) }

def queryPanelTreePage (input : PanelTreePageInput) : Except PanelPageError PanelTopologyPage :=
  (parsePageCursor input.cursor).bind fun cursor ↦
  w.panelTreeRevision.map fun revision ↦
  let (visible, last) := takePage (pageLimit input.limit) (w.pageRows input.group cursor)
  { revision, group := input.group, nodes := visible.map w.pageNode, nextCursor := last.map (·.1.pageCursor) }

def openRoots : List SlotRow := w.panels.openSlots.filter fun row ↦ decide (row.parentSlotId = none)

def panelTreeRootGroups (cursor : Option JsString) (limit : Option ℤ) :
    Except PanelPageError PanelTreeRootGroupPage :=
  (parseRootGroupCursor cursor).bind fun cursor ↦
  let (visible, last) := takePage (pageLimit limit)
    (countByOwner (w.openRoots.filter fun row ↦ cursor.all (afterOwner · row.ownerUserId)))
  w.panelTreeRevision.map fun revision ↦
    { revision, groups := visible, nextCursor := last.map (rootGroupCursor ·.1) }

/-! ## What chains of pages have to return -/

/-- States that answer the requests of a chain: each is reached from the one before, with the revision of the first. -/
structure Unrevised (states : ℕ → WorkspaceTables) : Prop where
  first : states 0 = w
  reached : ∀ k, Reachable workspaceStep anyStep (states k) (states (k + 1))
  revision : ∀ k, (states k).panels.panelTreeRevision = w.panels.panelTreeRevision

/-- Every chain of pages ends, and together the pages are the open slots of the group. -/
def TreePagesExact (group : PanelTreeGroup) : Prop :=
  ∀ (limits : ℕ → Option ℤ) (states : ℕ → WorkspaceTables), w.Unrevised states →
    ∃ pages, Chain (fun k cursor ↦ ((states k).queryPanelTreePage ⟨group, cursor, limits k⟩).toOption)
        PanelTopologyPage.nextCursor 0 none pages ∧
      pages.flatMap (fun page ↦ page.nodes.map (·.slotId)) = (w.siblingsInOrder group).map (·.slotId)

/-- Every chain of pages ends, and together the pages are the owners of open roots, the ownerless group first, with
their numbers of open roots. -/
def RootGroupsExact : Prop :=
  ∀ (limits : ℕ → Option ℤ) (states : ℕ → WorkspaceTables), w.Unrevised states →
    ∃ pages, Chain (fun k cursor ↦ ((states k).panelTreeRootGroups cursor (limits k)).toOption)
        PanelTreeRootGroupPage.nextCursor 0 none pages ∧
      (pages.flatMap (·.groups)).Pairwise (fun a b ↦ a.1 ≠ b.1 ∧ ownerLe a.1 b.1 = true) ∧
      ∀ owner count, (owner, count) ∈ pages.flatMap (·.groups) ↔
        0 < count ∧ count = (w.openGroup (.roots owner)).length

/-- The revision is a safe integer, the pointer of each slot leads to one history row at most, and the key of each but
the last consists of safe integers. -/
structure Pageable (group : PanelTreeGroup) : Prop where
  revision : w.panels.panelTreeRevision < 2 ^ 53
  pointers : ∀ slot ∈ w.openGroup group, ∀ entryKey ∈ slot.currentEntryKey,
    (w.panels.historyEntries slot.slotId entryKey).length ≤ 1
  keys : ∀ slot ∈ (w.siblingsInOrder group).dropLast, slot.SafeKey

end WorkspaceTables

/-! ## The text of a cursor -/

theorem toOption_eq_some {ε α : Type} {x : Except ε α} {a : α} : x.toOption = some a ↔ x = .ok a := by
  match x with
  | .ok b => exact ⟨fun h ↦ congrArg Except.ok (Option.some.inj h), fun h ↦ congrArg some (Except.ok.inj h)⟩
  | .error e => exact ⟨nofun, nofun⟩

/-- An array of leaves is read back leaf by leaf. -/
theorem parse_leaves {leaves : List JsLeaf} (h : ∀ l ∈ leaves, l.isUndefined = false) :
    ∃ text, stringify (.arr (leaves.map .leaf)) = some text ∧ text ≠ [] ∧
      parse text = some (.arr (leaves.map fun l ↦ .leaf (wireLeaf l))) := by
  have hjson : IsJson (.arr (leaves.map .leaf)) := by
    rw [IsJson, JsValue.wellFormed_arr]
    intro v hv
    obtain ⟨l, hl, rfl⟩ := List.mem_map.mp hv
    exact JsValue.wellFormed_leaf.mpr (h l hl)
  obtain ⟨text, htext, hparse⟩ := Js.parse_stringify hjson
  refine ⟨text, htext, ?_, ?_⟩
  · rintro rfl
    exact nomatch hparse
  · rw [hparse, JsValue.mapLeaf_arr, List.map_map]
    rfl

theorem parsePageCursor_pageCursor (row : SlotRow) : parsePageCursor (some row.pageCursor) =
    ((JsNumber.ofInt row.sortKey).safeInteger?.bind fun sortKey ↦ (JsNumber.ofInt row.createdAt).safeInteger?.map
      fun createdAt ↦ (sortKey, createdAt, row.slotId)).elim (.error .invalidCursor) fun cursor ↦ .ok (some cursor) := by
  have hleaves : ∀ l ∈ [JsLeaf.num (.ofInt row.sortKey), .num (.ofInt row.createdAt), .str row.slotId],
      l.isUndefined = false := by
    intro l hl
    rcases List.mem_cons.mp hl with rfl | hl
    · rfl
    rcases List.mem_cons.mp hl with rfl | hl
    · rfl
    · rw [List.mem_singleton.mp hl]
      rfl
  obtain ⟨text, htext, hne, hparse⟩ := parse_leaves hleaves
  have hcursor : row.pageCursor = text := by
    rw [SlotRow.pageCursor]
    exact congrArg (Option.getD · []) htext
  have hsome : (some text).filter (fun text ↦ decide (text ≠ [])) = some text := by
    rw [Option.filter_some, if_pos (decide_eq_true hne)]
  rw [hcursor, parsePageCursor, hsome]
  have hstr : wireLeaf (.str row.slotId) = .str row.slotId := rfl
  simp only [hparse, Option.bind_some, List.map_cons, List.map_nil, hstr, pageCursorOf, safeInteger?_wireLeaf]
  simp only [JsLeaf.safeInteger?]
  match ((JsNumber.ofInt row.sortKey).safeInteger?.bind fun sortKey ↦ (JsNumber.ofInt row.createdAt).safeInteger?.map
      fun createdAt ↦ (sortKey, createdAt, row.slotId)) with
  | some _ => rfl
  | none => rfl

theorem parsePageCursor_of_safe {row : SlotRow} (h : row.SafeKey) :
    parsePageCursor (some row.pageCursor) = .ok (some (row.sortKey, (row.createdAt : ℤ), row.slotId)) := by
  have hcreated : (row.createdAt : ℤ).natAbs < 2 ^ 53 := by
    rw [Int.natAbs_natCast]
    exact h.2
  rw [parsePageCursor_pageCursor, safeInteger?_ofInt h.1, safeInteger?_ofInt hcreated]
  rfl

/-- Other keys do not survive the text. -/
theorem safeKey_of_parsePageCursor {row : SlotRow} {cursor : Option PageCursor}
    (h : parsePageCursor (some row.pageCursor) = .ok cursor) : row.SafeKey := by
  rw [parsePageCursor_pageCursor] at h
  match hkey : (JsNumber.ofInt row.sortKey).safeInteger?, hcreated : (JsNumber.ofInt row.createdAt).safeInteger? with
  | some _, some _ =>
    have hlt := safeInteger?_ofInt_isSome.mp (Option.isSome_of_mem hcreated)
    rw [Int.natAbs_natCast] at hlt
    exact ⟨safeInteger?_ofInt_isSome.mp (Option.isSome_of_mem hkey), hlt⟩
  | none, _ =>
    rw [hkey] at h
    exact nomatch h
  | some _, none =>
    rw [hkey, hcreated] at h
    exact nomatch h

/-- **What is behind a cursor** are the rows with greater keys. -/
theorem afterCursor_eq (row row' : SlotRow) :
    afterCursor (row.sortKey, (row.createdAt : ℤ), row.slotId) row' = decide (row.pageKey < row'.pageKey) := by
  refine decide_eq_decide.mpr ?_
  rw [SlotRow.pageKey, SlotRow.pageKey, Prod.Lex.toLex_lt_toLex, Prod.Lex.toLex_lt_toLex, OrderDual.toDual_lt_toDual,
    OrderDual.toDual_inj, compareUtf8, compareBytes_pos]
  simp only [Nat.cast_lt, Nat.cast_inj, eq_comm (a := row'.sortKey), eq_comm (a := row'.createdAt)]
  tauto

/-! ## Pages -/

theorem takePage_eq {α : Type} (limit : ℕ) (rows : List α) : takePage limit rows =
    (rows.take limit, if limit < rows.length then (rows.take limit).getLast? else none) := by
  have htake : (rows.take (limit + 1)).take limit = rows.take limit := by
    rw [List.take_take, min_eq_left (Nat.le_succ limit)]
  have hmore : limit < (rows.take (limit + 1)).length ↔ limit < rows.length := by
    rw [List.length_take, lt_min_iff]
    exact and_iff_right (Nat.lt_succ_self limit)
  rw [takePage]
  simp only [hmore, decide_eq_true_eq, htake]
  split
  · rfl
  next hle => rw [List.take_of_length_le (by omega), List.take_of_length_le (Nat.not_lt.mp hle)]

theorem pageLimit_pos (limit : Option ℤ) : 0 < pageLimit limit := by
  have := le_max_left 1 (min 200 (limit.getD 50))
  rw [pageLimit]
  omega

/-- The slots of the joined rows. -/
def PanelTables.joined (t : PanelTables) (slots : List SlotRow) : List SlotRow :=
  slots.flatMap fun slot ↦ List.replicate (t.joinedHistory slot).length slot

theorem length_joinedHistory_pos (t : PanelTables) (slot : SlotRow) : 0 < (t.joinedHistory slot).length := by
  rw [joinedHistory]
  split
  · exact Nat.one_pos
  next hne => exact List.length_pos_of_ne_nil fun hnil ↦ hne (List.map_eq_nil_iff.mp hnil)

theorem joined_cons (t : PanelTables) (slot : SlotRow) (slots : List SlotRow) : t.joined (slot :: slots) =
    List.replicate (t.joinedHistory slot).length slot ++ t.joined slots := List.flatMap_cons

/-- Every slot is joined with a row. -/
theorem length_le_joined (t : PanelTables) (slots : List SlotRow) : slots.length ≤ (t.joined slots).length := by
  induction slots with
  | nil => exact Nat.zero_le _
  | cons slot slots ih =>
    have hpos := length_joinedHistory_pos t slot
    rw [joined_cons, List.length_append, List.length_replicate, List.length_cons]
    omega

theorem joinedHistory_length_eq_one {t : PanelTables} {slot : SlotRow} : (t.joinedHistory slot).length = 1 ↔
    ∀ entryKey ∈ slot.currentEntryKey, (t.historyEntries slot.slotId entryKey).length ≤ 1 := by
  have hmatches : ∀ entryKey ∈ slot.currentEntryKey, (t.historyOf slot.slotId).filter (fun row ↦
      decide (slot.currentEntryKey = some row.entryKey)) = t.historyEntries slot.slotId entryKey := by
    intro entryKey hkey
    rw [historyOf, List.filter_filter, historyEntries]
    refine List.filter_congr fun row _ ↦ ?_
    rw [Option.mem_def.mp hkey, ← Bool.decide_and]
    exact decide_eq_decide.mpr ⟨fun h ↦ ⟨h.2, (Option.some.inj h.1).symm⟩, fun h ↦ ⟨congrArg some h.2.symm, h.1⟩⟩
  rw [joinedHistory]
  split
  next hnil =>
    refine iff_of_true rfl fun entryKey hkey ↦ ?_
    rw [← hmatches entryKey hkey, hnil]
    exact Nat.zero_le 1
  next hne =>
    cases hcurrent : slot.currentEntryKey with
    | none =>
      refine absurd (List.filter_eq_nil_iff.mpr fun row _ ↦ ?_) hne
      rw [hcurrent]
      exact of_decide_eq_false rfl
    | some entryKey =>
      have hpos := List.length_pos_of_ne_nil hne
      rw [List.length_map, ← hcurrent, hmatches entryKey hcurrent]
      rw [hmatches entryKey hcurrent] at hpos
      constructor
      · intro hone key hkey
        obtain rfl := Option.some.inj (hkey.symm.trans hcurrent)
        exact hone.le
      · intro hle
        have := hle entryKey hcurrent
        omega

/-- A page is taken from the joined slots behind its cursor. -/
theorem map_fst_pageRows (w : WorkspaceTables) (group : PanelTreeGroup) (cursor : Option PageCursor) :
    (w.pageRows group cursor).map Prod.fst = w.panels.joined (pageOrder ((w.openGroup group).filter fun row ↦
      cursor.all (afterCursor · row))) := by
  rw [WorkspaceTables.pageRows, List.map_flatMap, joined]
  refine List.flatMap_congr fun slot _ ↦ ?_
  rw [List.map_map]
  exact List.map_const'

/-! ## Pages at a position -/

theorem StoredSlots.pageOrder_filter {rows : List SlotRow} (h : StoredSlots rows) (p : SlotRow → Bool) :
    pageOrder (rows.filter p) = (pageOrder rows).filter p := by
  have hperm : (pageOrder (rows.filter p)).Perm ((pageOrder rows).filter p) :=
    (pageOrder_perm _).trans ((pageOrder_perm rows).symm.filter p)
  exact hperm.eq_of_pairwise (fun a b _ _ hab hba ↦ absurd hab hba.asymm) (h.filter p).pageOrder_lt
    (h.pageOrder_lt.filter p)

/-- The cursor behind the first rows of a list. -/
def cursorAt (rows : List SlotRow) : ℕ → Option JsString
  | 0 => none
  | k + 1 => rows[k]?.map SlotRow.pageCursor

namespace WorkspaceTables

variable {w w' : WorkspaceTables} {group : PanelTreeGroup}

theorem storedSlots_openGroup (h : StoredSlots w.panels.slots) : StoredSlots (w.openGroup group) :=
  (h.filter _).filter _

theorem pageRows_at (h : StoredSlots w.panels.slots) {k : ℕ} (hk : k ≤ (w.siblingsInOrder group).length)
    {cursor : Option PageCursor} (hcursor : parsePageCursor (cursorAt (w.siblingsInOrder group) k) = .ok cursor) :
    (w.pageRows group cursor).map Prod.fst = w.panels.joined ((w.siblingsInOrder group).drop k) := by
  rw [map_fst_pageRows, (storedSlots_openGroup h).pageOrder_filter]
  match k with
  | 0 =>
    obtain rfl : none = cursor := Except.ok.inj hcursor
    exact congrArg _ (List.filter_eq_self.mpr fun _ _ ↦ rfl)
  | k + 1 =>
    obtain ⟨row, hrow⟩ : ∃ row, (w.siblingsInOrder group)[k]? = some row := ⟨_, List.getElem?_eq_getElem hk⟩
    rw [cursorAt, hrow] at hcursor
    obtain rfl := Except.ok.inj ((parsePageCursor_of_safe (safeKey_of_parsePageCursor hcursor)).symm.trans hcursor)
    simp only [Option.all_some, afterCursor_eq]
    exact congrArg _ (filter_lt_getElem (storedSlots_openGroup h).pageOrder_lt hrow)

/-- **The page at a position** takes the joined slots behind it. -/
theorem queryPanelTreePage_at (h : StoredSlots w.panels.slots) {k : ℕ} (hk : k ≤ (w.siblingsInOrder group).length)
    {limit : Option ℤ} {page : PanelTopologyPage} (hpage :
      w.queryPanelTreePage ⟨group, cursorAt (w.siblingsInOrder group) k, limit⟩ = .ok page) :
    let rows := w.panels.joined ((w.siblingsInOrder group).drop k)
    page.nodes.map (·.slotId) = (rows.take (pageLimit limit)).map (·.slotId) ∧ page.nextCursor =
      if pageLimit limit < rows.length then (rows.take (pageLimit limit)).getLast?.map SlotRow.pageCursor else none := by
  obtain ⟨cursor, hcursor, hpage⟩ := bind_eq_ok.mp hpage
  obtain ⟨revision, -, rfl⟩ := map_eq_ok.mp hpage
  simp only [takePage_eq, ← pageRows_at h hk hcursor, List.length_map, List.map_map, ← List.map_take,
    List.getLast?_map]
  refine ⟨rfl, ?_⟩
  split
  · rw [Option.map_map]
    rfl
  · rfl

theorem queryPanelTreePage_isOk (limit : Option ℤ) (hrevision : w.panels.panelTreeRevision < 2 ^ 53) {k : ℕ}
    (hkey : ∀ j row, k = j + 1 → (w.siblingsInOrder group)[j]? = some row → row.SafeKey) :
    ∃ page, w.queryPanelTreePage ⟨group, cursorAt (w.siblingsInOrder group) k, limit⟩ = .ok page := by
  have hcursor : ∃ cursor, parsePageCursor (cursorAt (w.siblingsInOrder group) k) = .ok cursor := by
    match k with
    | 0 => exact ⟨none, rfl⟩
    | k + 1 =>
      match hrow : (w.siblingsInOrder group)[k]? with
      | none => exact ⟨none, by rw [cursorAt, hrow]; rfl⟩
      | some row => exact ⟨_, by rw [cursorAt, hrow]; exact parsePageCursor_of_safe (hkey k row rfl hrow)⟩
  obtain ⟨cursor, hcursor⟩ := hcursor
  rw [queryPanelTreePage, hcursor, panelTreeRevision, if_pos hrevision]
  exact ⟨_, rfl⟩

/-! ## The states of a chain -/

theorem Unrevised.tracked {states : ℕ → WorkspaceTables} (h : w.Unrevised states) (k : ℕ) :
    Tracked w.panels (states k).panels := by
  induction k with
  | zero => exact h.first ▸ .refl _
  | succ k ih => exact ih.trans (tracked_of_reachable (h.reached k))

/-- States that read the same slots, with the same numbers of history rows. -/
theorem siblingsInOrder_of_tracked (h : Tracked w.panels w'.panels)
    (hrevision : w'.panels.panelTreeRevision = w.panels.panelTreeRevision) :
    w'.siblingsInOrder group = w.siblingsInOrder group := by
  rw [siblingsInOrder, openGroup, openSlots, h.slots hrevision]
  rfl

theorem mem_siblingsInOrder {slot : SlotRow} : slot ∈ w.siblingsInOrder group ↔ slot ∈ w.openGroup group := mem_pageOrder

theorem joined_of_tracked (h : Tracked w.panels w'.panels)
    (hrevision : w'.panels.panelTreeRevision = w.panels.panelTreeRevision) {slots : List SlotRow}
    (hslots : ∀ slot ∈ slots, slot ∈ w.panels.openSlots) : w'.panels.joined slots = w.panels.joined slots := by
  refine List.flatMap_congr fun slot hslot ↦ ?_
  rw [joinedHistory, h.history hrevision slot (hslots slot hslot)]
  rfl

/-- Slots that are joined with one row each stay as they are. -/
theorem joined_eq_self {slots : List SlotRow} (h : ∀ slot ∈ slots, (w.panels.joinedHistory slot).length = 1) :
    w.panels.joined slots = slots := by
  refine (List.flatMap_congr fun slot hslot ↦ ?_).trans (List.flatMap_singleton' slots)
  rw [h slot hslot]
  rfl

end WorkspaceTables

/-! ## Chains of pages -/

namespace WorkspaceTables

variable {w : WorkspaceTables} {group : PanelTreeGroup}

theorem mem_openSlots_of_sibling {slot : SlotRow} (h : slot ∈ w.siblingsInOrder group) : slot ∈ w.panels.openSlots :=
  List.mem_of_mem_filter (mem_siblingsInOrder.mp h)

/-- A row with another one behind it is not the last. -/
theorem mem_dropLast_of_getElem? {rows : List SlotRow} {k : ℕ} {row : SlotRow} (hrow : rows[k]? = some row)
    (hk : k + 1 < rows.length) : row ∈ rows.dropLast := by
  obtain ⟨hlt, rfl⟩ := List.getElem?_eq_some_iff.mp hrow
  rw [← List.getElem_dropLast (by rw [List.length_dropLast]; omega)]
  exact List.getElem_mem _

theorem Pageable.treePagesExact (hstored : StoredSlots w.panels.slots) (h : w.Pageable group) :
    w.TreePagesExact group := by
  intro limits states hstates
  suffices hfetch : ∀ k cursor ids, Left (w.siblingsInOrder group) SlotRow.pageCursor (·.slotId) cursor ids →
      ∃ page, ((states k).queryPanelTreePage ⟨group, cursor, limits k⟩).toOption = some page ∧
        Serves PanelTopologyPage.nextCursor (fun page ↦ page.nodes.map (·.slotId))
          (Left (w.siblingsInOrder group) SlotRow.pageCursor (·.slotId)) ids page from exists_chain hfetch 0 .start
  intro k cursor ids hleft
  have htracked := hstates.tracked k
  have hsame : (states k).siblingsInOrder group = w.siblingsInOrder group :=
    siblingsInOrder_of_tracked htracked (hstates.revision k)
  have hrevision : (states k).panels.panelTreeRevision < 2 ^ 53 := (hstates.revision k).trans_lt h.revision
  have hstored' : StoredSlots (states k).panels.slots := htracked.slots (hstates.revision k) ▸ hstored
  -- a page at position `i` holds what is left there
  have hpage : ∀ i ≤ (w.siblingsInOrder group).length,
      (∀ j row, i = j + 1 → (w.siblingsInOrder group)[j]? = some row → row.SafeKey) →
      ∃ page, ((states k).queryPanelTreePage ⟨group, cursorAt (w.siblingsInOrder group) i, limits k⟩).toOption =
          some page ∧ Serves PanelTopologyPage.nextCursor (fun page ↦ page.nodes.map (·.slotId))
            (Left (w.siblingsInOrder group) SlotRow.pageCursor (·.slotId))
            (((w.siblingsInOrder group).drop i).map (·.slotId)) page := by
    intro i hi hkey
    rw [← hsame] at hi hkey ⊢
    obtain ⟨page, hquery⟩ := queryPanelTreePage_isOk (limits k) hrevision hkey
    refine ⟨page, toOption_eq_some.mpr hquery, ?_⟩
    obtain ⟨hcontent, hnext⟩ := queryPanelTreePage_at hstored' hi hquery
    have hjoined : (states k).panels.joined (((states k).siblingsInOrder group).drop i) =
        ((states k).siblingsInOrder group).drop i := by
      have hmem : ∀ slot ∈ ((states k).siblingsInOrder group).drop i, slot ∈ w.siblingsInOrder group :=
        fun slot hslot ↦ hsame ▸ List.mem_of_mem_drop hslot
      rw [joined_of_tracked htracked (hstates.revision k) fun slot hslot ↦ mem_openSlots_of_sibling (hmem slot hslot)]
      exact joined_eq_self fun slot hslot ↦
        joinedHistory_length_eq_one.mpr (h.pointers slot (mem_siblingsInOrder.mp (hmem slot hslot)))
    rw [hjoined] at hcontent hnext
    exact serves_take (pageLimit_pos _) hcontent hnext
  cases hleft with
  | start => exact hpage 0 (Nat.zero_le _) nofun
  | @behind i row hrow hi =>
    have hcursor : some row.pageCursor = cursorAt (w.siblingsInOrder group) (i + 1) := by
      rw [cursorAt, hrow]
      rfl
    rw [hcursor]
    refine hpage (i + 1) hi.le ?_
    rintro j row' hj hrow'
    obtain rfl := Nat.succ.inj hj
    exact h.keys row' (mem_dropLast_of_getElem? hrow' hi)

/-! ## What the pages rely on -/

theorem unrevised_const (w : WorkspaceTables) : w.Unrevised fun _ ↦ w := ⟨rfl, fun _ ↦ .init, fun _ ↦ rfl⟩

theorem drop_eq_cons {rows : List SlotRow} {k : ℕ} {row : SlotRow} (h : rows[k]? = some row) :
    rows.drop k = row :: rows.drop (k + 1) := by
  obtain ⟨hlt, rfl⟩ := List.getElem?_eq_some_iff.mp h
  exact List.drop_eq_getElem_cons hlt

theorem replicate_joinedHistory (t : PanelTables) (slot : SlotRow) : List.replicate (t.joinedHistory slot).length slot =
    slot :: List.replicate ((t.joinedHistory slot).length - 1) slot := by
  rw [← List.replicate_succ, Nat.sub_add_cancel (length_joinedHistory_pos t slot)]

/-- Single rows up to a position, and two rows from there on. -/
def oneByOneTo (k : ℕ) : ℕ → Option ℤ := fun j ↦ some (if j < k then 1 else 2)

/-- A chain of single rows gets to every position. -/
theorem TreePagesExact.chain_at (hstored : StoredSlots w.panels.slots) (h : w.TreePagesExact group) {k : ℕ}
    (hk : k < (w.siblingsInOrder group).length) : ∀ i ≤ k, ∃ pages,
      Chain (fun j cursor ↦ (w.queryPanelTreePage ⟨group, cursor, oneByOneTo k j⟩).toOption)
        PanelTopologyPage.nextCursor i (cursorAt (w.siblingsInOrder group) i) pages ∧
      (pages.flatMap fun page ↦ page.nodes.map (·.slotId)) <:+ (w.siblingsInOrder group).map (·.slotId) := by
  intro i
  induction i with
  | zero =>
    intro _
    obtain ⟨pages, hchain, hpages⟩ := h (oneByOneTo k) _ w.unrevised_const
    exact ⟨pages, hchain, hpages ▸ List.suffix_rfl⟩
  | succ i ih =>
    intro hi
    obtain ⟨pages, hchain, hsuffix⟩ := ih (Nat.le_of_succ_le hi)
    have hlt : i < (w.siblingsInOrder group).length := by omega
    obtain ⟨row, hrow⟩ : ∃ row, (w.siblingsInOrder group)[i]? = some row := ⟨_, List.getElem?_eq_getElem hlt⟩
    have hnext : ∀ page, (w.queryPanelTreePage ⟨group, cursorAt (w.siblingsInOrder group) i, oneByOneTo k i⟩).toOption =
        some page → page.nextCursor = some row.pageCursor := by
      -- the page holds the row at the position, and there are more
      intro page hpage
      obtain ⟨-, hnext⟩ := queryPanelTreePage_at hstored hlt.le (toOption_eq_some.mp hpage)
      have hlimit : pageLimit (oneByOneTo k i) = 1 := by
        rw [oneByOneTo, if_pos (Nat.lt_of_succ_le hi)]
        rfl
      have hmore := length_le_joined w.panels ((w.siblingsInOrder group).drop i)
      rw [List.length_drop] at hmore
      rw [hlimit, if_pos (by omega), drop_eq_cons hrow, joined_cons, replicate_joinedHistory] at hnext
      exact hnext
    obtain ⟨page, pages', rfl, hchain'⟩ := hchain.tail hnext
    refine ⟨pages', ?_, ?_⟩
    · rw [cursorAt, hrow]
      exact hchain'
    · rw [List.flatMap_cons] at hsuffix
      exact (List.suffix_append _ _).trans hsuffix

theorem TreePagesExact.revision (h : w.TreePagesExact group) : w.panels.panelTreeRevision < 2 ^ 53 := by
  obtain ⟨pages, hchain, -⟩ := h (fun _ ↦ none) _ w.unrevised_const
  obtain ⟨page, -, hpage⟩ := hchain.exists_fetch
  obtain ⟨_, -, hpage⟩ := bind_eq_ok.mp (toOption_eq_some.mp hpage)
  obtain ⟨revision, hrevision, -⟩ := map_eq_ok.mp hpage
  rw [panelTreeRevision] at hrevision
  by_contra hlarge
  rw [if_neg hlarge] at hrevision
  exact nomatch hrevision

/-- The page behind a key answers only if the key survived. -/
theorem TreePagesExact.keys (hstored : StoredSlots w.panels.slots) (h : w.TreePagesExact group) :
    ∀ slot ∈ (w.siblingsInOrder group).dropLast, slot.SafeKey := by
  intro slot hslot
  obtain ⟨k, hk, rfl⟩ := List.mem_iff_getElem.mp hslot
  rw [List.length_dropLast] at hk
  have hlt : k + 1 < (w.siblingsInOrder group).length := by omega
  obtain ⟨pages, hchain, -⟩ := h.chain_at hstored hlt (k + 1) le_rfl
  obtain ⟨page, -, hpage⟩ := hchain.exists_fetch
  obtain ⟨cursor, hcursor, -⟩ := bind_eq_ok.mp (toOption_eq_some.mp hpage)
  rw [List.getElem_dropLast]
  simp only [cursorAt, List.getElem?_eq_getElem (Nat.lt_of_succ_lt hlt), Option.map_some] at hcursor
  exact safeKey_of_parsePageCursor hcursor

/-- A slot that is joined twice is on a page twice. -/
theorem TreePagesExact.pointers (hstored : StoredSlots w.panels.slots) (h : w.TreePagesExact group) :
    ∀ slot ∈ w.openGroup group, (w.panels.joinedHistory slot).length = 1 := by
  intro slot hslot
  by_contra htwice
  obtain ⟨k, hk, hget⟩ := List.mem_iff_getElem.mp (mem_siblingsInOrder.mpr hslot)
  have hrow : (w.siblingsInOrder group)[k]? = some slot := List.getElem?_eq_some_iff.mpr ⟨hk, hget⟩
  obtain ⟨pages, hchain, hsuffix⟩ := h.chain_at hstored hk k le_rfl
  obtain ⟨page, hmem, hpage⟩ := hchain.exists_fetch
  obtain ⟨hcontent, -⟩ := queryPanelTreePage_at hstored hk.le (toOption_eq_some.mp hpage)
  have hlimit : pageLimit (oneByOneTo k k) = 2 := by
    rw [oneByOneTo, if_neg (lt_irrefl k)]
    rfl
  have hids : page.nodes.map (·.slotId) = [slot.slotId, slot.slotId] := by
    have hpos := length_joinedHistory_pos w.panels slot
    obtain ⟨n, hn⟩ : ∃ n, (w.panels.joinedHistory slot).length = n + 2 := ⟨_, (Nat.sub_add_cancel (by omega)).symm⟩
    rw [hcontent, hlimit, drop_eq_cons hrow, joined_cons, hn]
    rfl
  -- but no two slots have one id
  have hnodup : ((w.siblingsInOrder group).map (·.slotId)).Nodup :=
    ((pageOrder_perm _).map _).nodup_iff.mpr (storedSlots_openGroup hstored).primaryKey
  have hsublist : (page.nodes.map (·.slotId)).Sublist ((w.siblingsInOrder group).map (·.slotId)) := by
    refine List.Sublist.trans ?_ hsuffix.sublist
    rw [List.flatMap_def]
    exact List.sublist_flatten_of_mem (List.mem_map_of_mem hmem)
  rw [hids] at hsublist
  exact (List.nodup_cons.mp (hnodup.sublist hsublist)).1 List.mem_cons_self

/-- **The pages of a group are exact** when the pointers lead to one row each and the keys survive. -/
theorem treePagesExact_iff (hstored : StoredSlots w.panels.slots) : w.TreePagesExact group ↔ w.Pageable group := by
  refine ⟨fun h ↦ ⟨h.revision, fun slot hslot ↦ ?_, h.keys hstored⟩, fun h ↦ h.treePagesExact hstored⟩
  exact joinedHistory_length_eq_one.mp (h.pointers hstored slot hslot)

end WorkspaceTables

/-! ## Root groups -/

/-- No owner is less than any owner, and owners are compared as their bytes. -/
def ownerKey (ownerUserId : Option JsString) : WithBot (List Byte) := ownerUserId.map utf8Encode

theorem ownerLe_iff {a b : Option JsString} : ownerLe a b = true ↔ ownerKey a ≤ ownerKey b := by
  match a, b with
  | none, _ => exact iff_of_true rfl bot_le
  | some a, none => exact iff_of_false Bool.false_ne_true (WithBot.bot_lt_coe (utf8Encode a)).not_ge
  | some a, some b =>
    rw [ownerLe, decide_eq_true_eq, compareUtf8, compareBytes_nonpos]
    exact WithBot.coe_le_coe.symm

theorem eq_of_ownerKey {a b : Option JsString} (ha : ∀ owner ∈ a, isWellFormed owner = true)
    (hb : ∀ owner ∈ b, isWellFormed owner = true) (h : ownerKey a = ownerKey b) : a = b := by
  match a, b with
  | none, none => rfl
  | some _, none | none, some _ => exact nomatch h
  | some a, some b =>
    exact congrArg some (eq_of_utf8Encode_wellFormed (ha a rfl) (hb b rfl) (WithBot.coe_injective h))

/-- The owners of some rows, each once. -/
def ownersOf (rows : List SlotRow) : List (Option JsString) :=
  ((rows.map (·.ownerUserId)).dedup).insertionSort (ownerLe · ·)

theorem mem_ownersOf {rows : List SlotRow} {owner : Option JsString} :
    owner ∈ ownersOf rows ↔ ∃ row ∈ rows, row.ownerUserId = owner := by
  rw [ownersOf, List.mem_insertionSort, List.mem_dedup, List.mem_map]

theorem nodup_ownersOf (rows : List SlotRow) : (ownersOf rows).Nodup :=
  (List.perm_insertionSort _ _).nodup_iff.mpr (List.nodup_dedup _)

theorem ownersOf_pairwise (rows : List SlotRow) : (ownersOf rows).Pairwise fun a b ↦ ownerLe a b = true := by
  have htotal : Std.Total fun a b : Option JsString ↦ ownerLe a b = true := by
    refine ⟨fun a b ↦ ?_⟩
    rw [ownerLe_iff, ownerLe_iff]
    exact le_total _ _
  have htrans : IsTrans (Option JsString) fun a b ↦ ownerLe a b = true := by
    refine ⟨fun a b c hab hbc ↦ ?_⟩
    rw [ownerLe_iff] at hab hbc ⊢
    exact hab.trans hbc
  exact List.pairwise_insertionSort _ _

variable {rows : List SlotRow}

theorem StoredSlots.ownersOf_lt (h : StoredSlots rows) :
    (ownersOf rows).Pairwise fun a b ↦ ownerKey a < ownerKey b := by
  refine ((ownersOf_pairwise rows).and (nodup_ownersOf rows)).imp_of_mem fun ha hb hle ↦ ?_
  refine lt_of_le_of_ne (ownerLe_iff.mp hle.1) fun hkey ↦ hle.2 ?_
  obtain ⟨row, hrow, rfl⟩ := mem_ownersOf.mp ha
  obtain ⟨row', hrow', rfl⟩ := mem_ownersOf.mp hb
  exact eq_of_ownerKey (h.ownerUserId row hrow) (h.ownerUserId row' hrow') hkey

/-- A condition on owners leaves whole groups. -/
theorem StoredSlots.countByOwner_filter (h : StoredSlots rows) (p : Option JsString → Bool) :
    countByOwner (rows.filter fun row ↦ p row.ownerUserId) = (countByOwner rows).filter fun entry ↦ p entry.1 := by
  have howners : ownersOf (rows.filter fun row ↦ p row.ownerUserId) = (ownersOf rows).filter p := by
    have hperm : (ownersOf (rows.filter fun row ↦ p row.ownerUserId)).Perm ((ownersOf rows).filter p) := by
      refine (List.perm_ext_iff_of_nodup (nodup_ownersOf _) ((nodup_ownersOf rows).filter p)).mpr fun owner ↦ ?_
      rw [mem_ownersOf, List.mem_filter, mem_ownersOf]
      constructor
      · rintro ⟨row, hrow, rfl⟩
        exact ⟨⟨row, List.mem_of_mem_filter hrow, rfl⟩, (List.mem_filter.mp hrow).2⟩
      · rintro ⟨⟨row, hrow, rfl⟩, hp⟩
        exact ⟨row, List.mem_filter.mpr ⟨hrow, hp⟩, rfl⟩
    exact hperm.eq_of_pairwise (fun a b _ _ hab hba ↦ absurd hab hba.asymm) (h.filter _).ownersOf_lt
      (h.ownersOf_lt.filter p)
  have hcounts (rows : List SlotRow) : countByOwner rows = (ownersOf rows).map fun owner ↦
    (owner, rows.countP fun row ↦ decide (row.ownerUserId = owner)) := rfl
  rw [hcounts, howners, hcounts, List.filter_map]
  refine List.map_congr_left fun owner howner ↦ ?_
  have hp : p owner = true := (List.mem_filter.mp howner).2
  rw [List.countP_filter]
  refine congrArg _ (List.countP_congr fun row _ ↦ ?_)
  rw [Bool.and_eq_true, decide_eq_true_eq]
  exact and_iff_left_of_imp fun hrow ↦ hrow ▸ hp

theorem parseRootGroupCursor_rootGroupCursor (owner : Option JsString) : parseRootGroupCursor (some (rootGroupCursor owner)) =
    .ok (some (if owner = none then lit "0" else lit "1", owner.getD [])) := by
  have hleaves : ∀ l ∈ [JsLeaf.str (if owner = none then lit "0" else lit "1"), .str (owner.getD [])],
      l.isUndefined = false := by
    intro l hl
    rcases List.mem_cons.mp hl with rfl | hl
    · rfl
    · rw [List.mem_singleton.mp hl]
      rfl
  obtain ⟨text, htext, -, hparse⟩ := parse_leaves hleaves
  have hcursor : rootGroupCursor owner = text := by
    rw [rootGroupCursor]
    exact congrArg (Option.getD · []) htext
  rw [hcursor, parseRootGroupCursor, hparse]
  rfl

/-- What is behind a cursor are the owners with greater keys. -/
theorem afterOwner_eq (owner owner' : Option JsString) :
    afterOwner (if owner = none then lit "0" else lit "1", owner.getD []) owner' =
      decide (ownerKey owner < ownerKey owner') := by
  match owner, owner' with
  | _, none => exact (decide_eq_false (not_lt_bot : ¬ownerKey _ < ⊥)).symm
  | none, some owner' => exact (decide_eq_true (WithBot.bot_lt_coe (utf8Encode owner'))).symm
  | some owner, some owner' =>
    have htag : lit "1" ≠ lit "0" := by decide
    rw [afterOwner, Option.any_some, if_neg (Option.some_ne_none owner)]
    refine decide_eq_decide.mpr ?_
    rw [or_iff_right htag, compareUtf8, compareBytes_pos]
    exact WithBot.coe_lt_coe.symm

namespace WorkspaceTables

variable {w w' : WorkspaceTables}

theorem openRoots_of_tracked (h : Tracked w.panels w'.panels)
    (hrevision : w'.panels.panelTreeRevision = w.panels.panelTreeRevision) : w'.openRoots = w.openRoots := by
  rw [openRoots, openSlots, h.slots hrevision]
  rfl

theorem mem_countByOwner {owner : Option JsString} {count : ℕ} : (owner, count) ∈ countByOwner w.openRoots ↔
    0 < count ∧ count = (w.openGroup (.roots owner)).length := by
  have hcount : w.openRoots.countP (fun row ↦ decide (row.ownerUserId = owner)) =
      (w.openGroup (.roots owner)).length := by
    rw [openRoots, List.countP_filter, openGroup, List.countP_eq_length_filter]
    refine congrArg List.length (List.filter_congr fun row _ ↦ ?_)
    rw [← Bool.decide_and]
    exact decide_eq_decide.mpr and_comm
  have hcounts : countByOwner w.openRoots = (ownersOf w.openRoots).map fun owner ↦
    (owner, w.openRoots.countP fun row ↦ decide (row.ownerUserId = owner)) := rfl
  rw [hcounts, List.mem_map]
  constructor
  · rintro ⟨owner', howner, heq⟩
    obtain ⟨rfl, rfl⟩ := Prod.mk.inj heq
    refine ⟨List.countP_pos_iff.mpr ?_, hcount⟩
    obtain ⟨row, hrow, hrowOwner⟩ := mem_ownersOf.mp howner
    exact ⟨row, hrow, decide_eq_true hrowOwner⟩
  · rintro ⟨hpos, rfl⟩
    rw [← hcount] at hpos ⊢
    obtain ⟨row, hrow, howner⟩ := List.countP_pos_iff.mp hpos
    exact ⟨owner, mem_ownersOf.mpr ⟨row, hrow, of_decide_eq_true howner⟩, rfl⟩

/-- **The page of root groups at a position.** -/
theorem panelTreeRootGroups_serves (hstored : StoredSlots w.panels.slots)
    (hrevision : w.panels.panelTreeRevision < 2 ^ 53) {cursor : Option JsString} {entries : List (Option JsString × ℕ)}
    (hleft : Left (countByOwner w.openRoots) (rootGroupCursor ·.1) id cursor entries) (limit : Option ℤ) :
    ∃ page, w.panelTreeRootGroups cursor limit = .ok page ∧ Serves PanelTreeRootGroupPage.nextCursor
      PanelTreeRootGroupPage.groups (Left (countByOwner w.openRoots) (rootGroupCursor ·.1) id) entries page := by
  have hroots : StoredSlots w.openRoots := (hstored.filter _).filter _
  have hsorted : (countByOwner w.openRoots).Pairwise fun a b ↦ ownerKey a.1 < ownerKey b.1 :=
    List.pairwise_map.mpr hroots.ownersOf_lt
  have hpage : ∀ (i : ℕ) (parsed : Option (JsString × JsString)), parseRootGroupCursor cursor = .ok parsed →
      countByOwner (w.openRoots.filter fun row ↦ parsed.all (afterOwner · row.ownerUserId)) =
        (countByOwner w.openRoots).drop i → entries = ((countByOwner w.openRoots).drop i).map id →
      ∃ page, w.panelTreeRootGroups cursor limit = .ok page ∧ Serves PanelTreeRootGroupPage.nextCursor
        PanelTreeRootGroupPage.groups (Left (countByOwner w.openRoots) (rootGroupCursor ·.1) id) entries page := by
    rintro i parsed hparsed hrows rfl
    have hquery : w.panelTreeRootGroups cursor limit = .ok {
        revision := w.panels.panelTreeRevision
        groups := ((countByOwner w.openRoots).drop i).take (pageLimit limit)
        nextCursor := (if pageLimit limit < ((countByOwner w.openRoots).drop i).length then
          (((countByOwner w.openRoots).drop i).take (pageLimit limit)).getLast? else none).map (rootGroupCursor ·.1) } := by
      rw [panelTreeRootGroups, hparsed, panelTreeRevision, if_pos hrevision]
      simp only [Except.bind, Except.map, hrows, takePage_eq]
    refine ⟨_, hquery, serves_take (pageLimit_pos limit) (List.map_id _).symm ?_⟩
    simp only
    split
    · rfl
    · rfl
  cases hleft with
  | start => exact hpage 0 none rfl (congrArg _ (List.filter_eq_self.mpr fun _ _ ↦ rfl)) rfl
  | @behind i row hrow hi =>
    refine hpage (i + 1) _ (parseRootGroupCursor_rootGroupCursor row.1) ?_ rfl
    simp only [Option.all_some, afterOwner_eq]
    rw [hroots.countByOwner_filter fun owner ↦ decide (ownerKey row.1 < ownerKey owner)]
    refine (List.filter_congr fun entry _ ↦ ?_).trans (filter_lt_getElem hsorted hrow)
    exact decide_eq_decide.mpr Iff.rfl

/-- **The root groups are exact** as long as the revision can be read. -/
theorem rootGroupsExact_iff (hstored : StoredSlots w.panels.slots) :
    w.RootGroupsExact ↔ w.panels.panelTreeRevision < 2 ^ 53 := by
  constructor
  · intro h
    obtain ⟨pages, hchain, -⟩ := h (fun _ ↦ none) _ w.unrevised_const
    obtain ⟨page, -, hpage⟩ := hchain.exists_fetch
    obtain ⟨_, -, hpage⟩ := bind_eq_ok.mp (toOption_eq_some.mp hpage)
    obtain ⟨revision, hrevision, -⟩ := map_eq_ok.mp hpage
    rw [panelTreeRevision] at hrevision
    by_contra hlarge
    rw [if_neg hlarge] at hrevision
    exact nomatch hrevision
  · intro hrevision limits states hstates
    have hfetch : ∀ k cursor entries, Left (countByOwner w.openRoots) (rootGroupCursor ·.1) id cursor entries →
        ∃ page, ((states k).panelTreeRootGroups cursor (limits k)).toOption = some page ∧
          Serves PanelTreeRootGroupPage.nextCursor PanelTreeRootGroupPage.groups
            (Left (countByOwner w.openRoots) (rootGroupCursor ·.1) id) entries page := by
      intro k cursor entries hleft
      have htracked := hstates.tracked k
      have hsame := hstates.revision k
      rw [← openRoots_of_tracked htracked hsame] at hleft ⊢
      obtain ⟨page, hpage, hserves⟩ := panelTreeRootGroups_serves (htracked.slots hsame ▸ hstored)
        (hsame.trans_lt hrevision) hleft (limits k)
      exact ⟨page, toOption_eq_some.mpr hpage, hserves⟩
    obtain ⟨pages, hchain, hpages⟩ := exists_chain hfetch 0 .start
    rw [List.map_id] at hpages
    refine ⟨pages, hchain, ?_, fun owner count ↦ hpages ▸ mem_countByOwner⟩
    rw [hpages]
    exact List.pairwise_map.mpr (((nodup_ownersOf w.openRoots).and (ownersOf_pairwise w.openRoots)))

end WorkspaceTables

namespace WorkspaceTables

variable {w : WorkspaceTables}

/-- **Keyset paging.** The chains of pages of a group and of the root groups are exact if and only if the revision can be
read, the pointers of the slots of the group lead to one history row each at most, and the keys of all but the last
survive the text of a cursor. -/
theorem panelTree_pages_exact_iff (hstored : StoredSlots w.panels.slots) (group : PanelTreeGroup) :
    w.TreePagesExact group ∧ w.RootGroupsExact ↔ w.Pageable group := by
  rw [treePagesExact_iff hstored, rootGroupsExact_iff hstored]
  exact and_iff_left_of_imp Pageable.revision

/-! ## A page twice in a history -/

theorem storedSlots_of_columns {rows : List SlotRow} {columns : List (JsString × Option JsString)}
    (h : rows.map (fun row ↦ (row.slotId, row.ownerUserId)) = columns) (hnodup : (columns.map Prod.fst).Nodup)
    (htexts : ∀ c ∈ columns, isWellFormed c.1 = true ∧ ∀ owner ∈ c.2, isWellFormed owner = true) : StoredSlots rows := by
  subst h
  rw [List.map_map] at hnodup
  refine ⟨⟨hnodup, fun r hr ↦ ?_⟩, fun r hr ↦ ?_⟩
  · exact (htexts _ (List.mem_map_of_mem hr)).1
  · exact (htexts _ (List.mem_map_of_mem hr)).2

def browserActivation : EntityActivationCommand :=
  { sessionActivation with kind := .panel, repoPath := lit "browser:https://example.org/", key := lit "a" }

/-- Two panels at the root, one of them with a page in its history. -/
def twoPanels : List (WorkspaceSurroundings × WorkspaceCall) :=
  let env := plainSurroundings true 1
  [(env, .entity (lit "u") (.entityActivate browserActivation)),
    (env, .slotCreate ⟨slotA, none, none, none, some (browserEntry (lit "a"))⟩),
    (env, .slotCreate ⟨slotB, none, none, none, none⟩)]

/-- What the paging of the roots depends on. -/
structure PagingColumns where
  slots : List (JsString × Option JsString)
  revision : ℕ
  joined : List ℕ
  keys : List (ℤ × ℕ)
deriving DecidableEq

def pagingColumns (w : WorkspaceTables) : PagingColumns where
  slots := w.panels.slots.map fun row ↦ (row.slotId, row.ownerUserId)
  revision := w.panels.panelTreeRevision
  joined := (w.openGroup (.roots none)).map fun slot ↦ (w.panels.joinedHistory slot).length
  keys := (w.siblingsInOrder (.roots none)).dropLast.map fun slot ↦ (slot.sortKey, slot.createdAt)

/-- The pages of the two panels are exact. -/
theorem panelTree_pages_exact_twoPanels : ∃ w, run workspaceStep anyStep empty twoPanels = some w ∧
    (w.openGroup (.roots none)).length = 2 ∧ w.TreePagesExact (.roots none) ∧ w.RootGroupsExact := by
  have hrun : (run workspaceStep anyStep empty twoPanels).map pagingColumns =
      some ⟨[(slotA.val, none), (slotB.val, none)], 3, [1, 1], [(-1024, 1)]⟩ := by
    decide +kernel
  obtain ⟨w, hw, hcolumns⟩ := Option.map_eq_some_iff.mp hrun
  obtain ⟨hslots, hrevision, hjoined, hkeys⟩ := PagingColumns.mk.inj hcolumns
  have hstored : StoredSlots w.panels.slots := storedSlots_of_columns hslots (by decide +kernel) (by decide +kernel)
  refine ⟨w, hw, by rw [← List.length_map, hjoined]; rfl, (panelTree_pages_exact_iff hstored _).mpr ⟨?_, ?_, ?_⟩⟩
  · rw [hrevision]
    norm_num
  · intro slot hslot
    have hone : (w.panels.joinedHistory slot).length ∈ [1, 1] := hjoined ▸ List.mem_map_of_mem hslot
    refine joinedHistory_length_eq_one.mp ?_
    simpa using hone
  · intro slot hslot
    have hkey : (slot.sortKey, slot.createdAt) ∈ [((-1024 : ℤ), 1)] :=
      hkeys ▸ List.mem_map_of_mem (f := fun slot : SlotRow ↦ (slot.sortKey, slot.createdAt)) hslot
    obtain ⟨hsort, hcreated⟩ := Prod.mk.inj (List.mem_singleton.mp hkey)
    rw [SlotRow.SafeKey, hsort, hcreated]
    norm_num

/-- **A page visited twice in a row** puts its slot on the pages of the tree twice. -/
theorem pages_repeat_slot : ¬∀ w, Reachable workspaceStep anyStep empty w → StoredSlots w.panels.slots →
    ∀ group, w.TreePagesExact group ∧ w.RootGroupsExact := by
  intro h
  let visitAgain : WorkspaceSurroundings × WorkspaceCall :=
    (plainSurroundings true 2, .slotCommitPreparedNavigation ⟨slotA, lit "panel:a", .append (browserEntry (lit "a"))⟩)
  have hrun : (run workspaceStep anyStep empty (twoPanels ++ [visitAgain])).map pagingColumns =
      some ⟨[(slotA.val, none), (slotB.val, none)], 5, [2, 1], [(-1024, 1)]⟩ := by
    decide +kernel
  obtain ⟨w, hw, hcolumns⟩ := Option.map_eq_some_iff.mp hrun
  obtain ⟨hslots, -, hjoined, -⟩ := PagingColumns.mk.inj hcolumns
  have hstored : StoredSlots w.panels.slots := storedSlots_of_columns hslots (by decide +kernel) (by decide +kernel)
  have hexact := (h w (Reachable.init.run hw) hstored (.roots none)).1
  have htwo : 2 ∈ (w.openGroup (.roots none)).map fun slot ↦ (w.panels.joinedHistory slot).length :=
    hjoined ▸ List.mem_cons_self
  obtain ⟨slot, hslot, hlength⟩ := List.mem_map.mp htwo
  exact absurd ((hexact.pointers hstored slot hslot).symm.trans hlength) (by decide)

end WorkspaceTables

end Vibestudio.WorkspaceState

import Mathlib
import Vibestudio.Sequence.SortedInsert
import Vibestudio.WorkspaceState.PageOrder
import Vibestudio.WorkspaceState.PanelQueries

/-!
# Places among siblings

Where `slotCreate` and `slotMove` of `packages/builtin/src/workspace-state/WorkspaceDO.ts` put a slot in the page order
of its group. Between two anchors there is always room, unless their keys are equal. One anchor alone gives a key that is
a whole step away, wherever the neighbours are: there may be one between, or one with the same key.
-/

namespace Vibestudio.WorkspaceState

open Js Sequence Transition Vibestudio.Shared PanelTables

/-! ## What a call asks for -/

/-- A place at a destination, for a slot that is new or moves. -/
structure Placing where
  parentSlotId : Option JsString
  ownerUserId : Option JsString
  placement : Option PanelTreePlacement
  excludeSlotId : Option JsString
  slotId : JsString
  createdAt : ℕ

/-- The owner that a new slot gets. -/
def createOwner (t : PanelTables) (input : SlotCreateInput) : Option JsString :=
  match input.parentSlotId with
  | none => input.ownerUserId
  | some parent => t.rootOwnerOf parent

/-- What a call places, if it is one that does and passes its checks. -/
def placing? (t : PanelTables) : Surroundings × PanelCall → Option Placing
  | (db, .slotCreate input) =>
    if (input.initialEntry.filter fun entry ↦ isTerminalAppLocation entry.source).isSome ∨
        (t.slotGet input.slotId).isSome then none
    else some {
        parentSlotId := input.parentSlotId.map Subtype.val
        ownerUserId := createOwner t input
        placement := input.placement
        excludeSlotId := none
        slotId := input.slotId
        createdAt := db.now }
  | (_, .slotMove slotId parentSlotId placement ownerUserId) =>
    ((t.slotGet slotId).filter fun slot ↦ decide (slot.closedAt = none)).bind fun slot ↦
    (moveOwner slot parentSlotId ownerUserId t).toOption.map fun destOwner ↦
      { parentSlotId, ownerUserId := destOwner, placement, excludeSlotId := some slotId, slotId,
        createdAt := slot.createdAt }
  | _ => none

/-- The result of a call that places a slot. -/
def attempt (t : PanelTables) : Surroundings × PanelCall → Except PanelError PanelTables
  | (db, .slotCreate input) => slotCreate db input t
  | (_, .slotMove slotId parentSlotId placement ownerUserId) => slotMove slotId parentSlotId placement ownerUserId t
  | e => .ok (perform t e)

/-- The calls of a run; ids are text that the storage keeps as it is. -/
def placesSlots (_ : PanelTables) : Surroundings × PanelCall → Bool
  | (_, .slotCreate input) => isWellFormed input.slotId.val
  | (_, .slotMove ..) => true
  | _ => false

/-- The position of an id in a list of rows. -/
def indexOf (rows : List SlotRow) (slotId : JsString) : Option ℕ := rows.findIdx? fun row ↦ decide (row.slotId = slotId)

namespace Placing

variable (p : Placing) (t : PanelTables)

/-- The anchors, where an empty id counts as none. -/
def beforeSlotId : Option JsString := (p.placement.bind (·.beforeSlotId)).filter (· ≠ [])

def afterSlotId : Option JsString := (p.placement.bind (·.afterSlotId)).filter (· ≠ [])

def siblings : List SlotRow := t.siblings p.parentSlotId p.ownerUserId p.excludeSlotId

/-- The page order of the siblings. -/
def order : List SlotRow := pageOrder (p.siblings t)

/-- The page order of the whole group. -/
def groupOrder : List JsString := (pageOrder (t.siblings p.parentSlotId p.ownerUserId none)).map (·.slotId)

/-- The position that the anchors ask for: none if an anchor is no sibling, or the second one does not follow the
first. -/
def position : Option ℕ :=
  match p.beforeSlotId, p.afterSlotId with
  | none, none => some 0
  | some before, none => (indexOf (p.order t) before).map (· + 1)
  | none, some after => indexOf (p.order t) after
  | some before, some after => (indexOf (p.order t) before).bind fun i ↦
      if (p.order t)[i + 1]?.map (·.slotId) = some after then some (i + 1) else none

/-- The place of the slot under an order key. -/
def pageKey (sortKey : ℤ) : PageKey := toLex (sortKey, toLex (OrderDual.toDual p.createdAt, utf8Encode p.slotId))

/-- The neighbours at the position leave room: two anchors for any key at all, a single one for the key that is a step
away from its own. -/
def HasRoom : Prop := ∀ k left right, p.position t = some (k + 1) → (p.order t)[k]? = some left →
  (p.order t)[k + 1]? = some right → match p.beforeSlotId, p.afterSlotId with
    | some _, some _ => left.sortKey < right.sortKey
    | some _, none => p.pageKey (left.sortKey + panelTreeOrderStep) < right.pageKey
    | none, some _ => left.pageKey < p.pageKey (right.sortKey - panelTreeOrderStep)
    | none, none => True

end Placing

/-- The call ends. If its anchors ask for a position it puts the slot there, and it never moves the others. -/
structure PlacesExactly (t : PanelTables) (e : Surroundings × PanelCall) (p : Placing) : Prop where
  terminates : attempt t e ≠ .error .diverges
  position : ∀ pos, p.position t = some pos → ∃ t', attempt t e = .ok t' ∧
    p.groupOrder t' = ((p.order t).map (·.slotId)).insertIdx pos p.slotId
  others : ∀ t', attempt t e = .ok t' → (p.groupOrder t').filter (· ≠ p.slotId) = (p.order t).map (·.slotId)

/-! ## Keys -/

theorem pageKey_lt_of_sortKey {a b : SlotRow} (h : a.sortKey < b.sortKey) : a.pageKey < b.pageKey :=
  Prod.Lex.toLex_lt_toLex.mpr (.inl h)

theorem sortKey_le_of_pageKey {a b : SlotRow} (h : a.pageKey < b.pageKey) : a.sortKey ≤ b.sortKey := by
  rcases Prod.Lex.toLex_lt_toLex.mp h with h | h
  · exact h.le
  · exact h.1.le

/-! ## Runs -/

/-- What the rows of a run keep. -/
structure SlotsKept (t : PanelTables) : Prop where
  stored : StoredIds t.slots
  nonempty : ∀ r ∈ t.slots, r.slotId ≠ []

/-- Rows that are updated under their ids. -/
theorem SlotsKept.map {t t' : PanelTables} (h : SlotsKept t) {f : SlotRow → SlotRow} (hf : ∀ r, (f r).slotId = r.slotId)
    (ht : t'.slots = t.slots.map f) : SlotsKept t' := by
  have hids : t'.slots.map (·.slotId) = t.slots.map (·.slotId) := by
    rw [ht, List.map_map]
    exact List.map_congr_left fun r _ ↦ hf r
  refine ⟨⟨hids ▸ h.stored.primaryKey, fun r hr ↦ ?_⟩, fun r hr ↦ ?_⟩
  · obtain ⟨r₀, hr₀, rfl⟩ := List.mem_map.mp (ht ▸ hr)
    exact hf r₀ ▸ h.stored.slotId r₀ hr₀
  · obtain ⟨r₀, hr₀, rfl⟩ := List.mem_map.mp (ht ▸ hr)
    exact hf r₀ ▸ h.nonempty r₀ hr₀

theorem SlotsKept.sameTree {t t' : PanelTables} (h : SlotsKept t) (hsame : SameTree t t') : SlotsKept t' := by
  obtain ⟨f, hf, ht⟩ := hsame
  exact h.map (fun r ↦ congrArg Prod.fst (hf r)) ht

theorem SlotsKept.updateSlots {t : PanelTables} (h : SlotsKept t) {p : SlotRow → Bool} {f : SlotRow → SlotRow}
    (hf : ∀ r, (f r).slotId = r.slotId) : SlotsKept (t.updateSlots p f) := by
  refine h.map (fun r ↦ ?_) rfl
  split
  · exact hf r
  · rfl

/-! ## Order -/

/-- The columns that a page order shows. -/
def SlotRow.placed (r : SlotRow) : PageKey × JsString := (r.pageKey, r.slotId)

theorem placed_pairwise {rows : List SlotRow} (h : StoredIds rows) :
    ((pageOrder rows).map SlotRow.placed).Pairwise fun a b ↦ a.1 < b.1 := List.pairwise_map.mpr h.pageOrder_lt

theorem map_snd_placed (rows : List SlotRow) : (rows.map SlotRow.placed).map Prod.snd = rows.map (·.slotId) := by
  rw [List.map_map]
  rfl

/-- **The order of a group with one more slot**, from that of the others. -/
theorem pageOrder_insert {rows rows' : List SlotRow} (h : StoredIds rows) (h' : StoredIds rows') {k : PageKey}
    {id : JsString} (hperm : (rows'.map SlotRow.placed).Perm ((k, id) :: rows.map SlotRow.placed)) :
    (pageOrder rows').map (·.slotId) = ((pageOrder rows).map (·.slotId)).insertIdx
        (rank Prod.fst ((pageOrder rows).map SlotRow.placed) (k, id)) id ∧
      (∀ a ∈ (pageOrder rows).map SlotRow.placed, a.1 ≠ k) ∧ id ∉ (pageOrder rows).map (·.slotId) := by
  have hperm' : ((pageOrder rows').map SlotRow.placed).Perm ((k, id) :: (pageOrder rows).map SlotRow.placed) :=
    ((pageOrder_perm rows').map _).trans (hperm.trans (((pageOrder_perm rows).map _).symm.cons _))
  have hkeys : (((k, id) :: (pageOrder rows).map SlotRow.placed).map Prod.fst).Nodup := by
    refine (hperm'.map Prod.fst).nodup_iff.mp ?_
    rw [List.Nodup, List.pairwise_map]
    exact (placed_pairwise h').imp fun hlt ↦ hlt.ne
  have hids : (((k, id) :: (pageOrder rows).map SlotRow.placed).map Prod.snd).Nodup := by
    refine (hperm'.map Prod.snd).nodup_iff.mp ?_
    rw [map_snd_placed]
    exact ((pageOrder_perm rows').map _).nodup_iff.mpr h'.primaryKey
  have hne : ∀ a ∈ (pageOrder rows).map SlotRow.placed, a.1 ≠ k := by
    rintro a ha rfl
    exact (List.nodup_cons.mp hkeys).1 (List.mem_map.mpr ⟨a, ha, rfl⟩)
  refine ⟨?_, hne, fun hid ↦ (List.nodup_cons.mp hids).1 ?_⟩
  · have heq := congrArg (List.map Prod.snd) (eq_insertIdx_rank (placed_pairwise h) hne (placed_pairwise h') hperm')
    rwa [List.map_insertIdx, map_snd_placed, map_snd_placed] at heq
  · rw [map_snd_placed]
    exact hid

/-! ## What a call writes -/

namespace Placing

variable {p : Placing} {t t₁ t' : PanelTables} {db : Surroundings} {key : ℤ}

def allocate (p : Placing) (t : PanelTables) : Except PanelError (PanelTables × ℤ) :=
  allocatePanelTreeOrderKey p.parentSlotId p.ownerUserId p.placement p.excludeSlotId 2 t

/-- The tables after the slot was put under its key. -/
structure Written (p : Placing) (t₁ : PanelTables) (key : ℤ) (t' : PanelTables) : Prop where
  kept : SlotsKept t'
  group : ((t'.siblings p.parentSlotId p.ownerUserId none).map SlotRow.placed).Perm
    ((p.pageKey key, p.slotId) :: (p.siblings t₁).map SlotRow.placed)

theorem siblings_none_append (t : PanelTables) (parent owner : Option JsString) {t' : PanelTables} {row : SlotRow}
    (ht' : t'.slots = t.slots ++ [row]) (hopen : row.closedAt = none) (hid : row.slotId ≠ [])
    (hgroup : inGroup parent owner row = true) :
    t'.siblings parent owner none = t.siblings parent owner none ++ [row] := by
  have hrow : [row].filter (fun row ↦ decide (row.closedAt = none)) = [row] := by
    rw [List.filter_singleton, decide_eq_true hopen]
    rfl
  have hsibling : [row].filter (fun row ↦ decide (row.slotId ≠ (none : Option JsString).getD []) &&
      inGroup parent owner row) = [row] := by
    have hne : decide (row.slotId ≠ (none : Option JsString).getD []) = true := decide_eq_true hid
    rw [List.filter_singleton, hne, hgroup]
    rfl
  rw [PanelTables.siblings, openSlots, ht', List.filter_append, hrow, List.filter_append, hsibling]
  rfl

end Placing

/-- The row of a new slot. -/
def createRow (db : Surroundings) (input : SlotCreateInput) (ownerUserId : Option JsString) (sortKey : ℤ) : SlotRow where
  slotId := input.slotId
  parentSlotId := input.parentSlotId.map Subtype.val
  currentEntityId := input.initialEntry.map (·.entityId)
  currentEntryKey := input.initialEntry.map (·.entryKey)
  sortKey
  ownerUserId
  createdAt := db.now
  closedAt := none

/-- The part of `slotCreate` that writes. -/
def insertPlaced (db : Surroundings) (input : SlotCreateInput) (row : SlotRow) (t : PanelTables) :
    Except PanelError PanelTables :=
  (insertSlot db row t).bind fun t ↦ match input.initialEntry with
    | none => .ok t
    | some entry => appendHistoryRow db input.slotId 0 entry t

theorem slotCreate_eq {input : SlotCreateInput} {t : PanelTables} {db : Surroundings}
    (hterminal : input.initialEntry.filter (fun entry ↦ isTerminalAppLocation entry.source) = none)
    (hnew : t.slotGet input.slotId = none) : slotCreate db input t =
      (allocatePanelTreeOrderKey (input.parentSlotId.map Subtype.val) (createOwner t input) input.placement none 2 t).bind
        fun (t₁, key) ↦ insertPlaced db input (createRow db input (createOwner t input) key) t₁ := by
  rw [slotCreate, hterminal, hnew]
  obtain ⟨slotId, parentSlotId, ownerUserId, placement, initialEntry⟩ := input
  cases parentSlotId with
  | none => rfl
  | some _ => rfl

theorem slotCreate_written {input : SlotCreateInput} {p : Placing} {t : PanelTables} {db : Surroundings}
    (hkept : SlotsKept t) (hwf : isWellFormed input.slotId.val = true)
    (hp : placing? t (db, .slotCreate input) = some p) :
    (∀ err, p.allocate t = .error err → slotCreate db input t = .error err) ∧
    ∀ t₁ key, p.allocate t = .ok (t₁, key) → slotCreate db input t = .error .constraint ∨
      ∃ t', slotCreate db input t = .ok t' ∧ p.Written t₁ key t' := by
  rw [placing?] at hp
  split_ifs at hp with hnone
  rw [not_or, Option.not_isSome_iff_eq_none, Option.not_isSome_iff_eq_none] at hnone
  rw [slotCreate_eq hnone.1 hnone.2]
  obtain rfl := Option.some.inj hp
  refine ⟨fun err herr ↦ congrArg (Except.bind · _) herr, fun t₁ key hok ↦ ?_⟩
  have hkept₁ : SlotsKept t₁ := hkept.sameTree (allocate_sameTree hok)
  have hallocate : allocatePanelTreeOrderKey (input.parentSlotId.map Subtype.val) (createOwner t input) input.placement
    none 2 t = .ok (t₁, key) := hok
  rw [hallocate]
  simp only [Except.bind, insertPlaced]
  set row := createRow db input (createOwner t input) key with hrow
  cases hinsert : insertSlot db row t₁ with
  | error err =>
    refine .inl ?_
    rw [insertSlot] at hinsert
    split at hinsert
    · rw [← Except.error.inj hinsert]
    · cases hinsert
  | ok t₂ =>
    obtain ⟨hfresh, hslots, -⟩ := insertSlot_cases hinsert
    -- the row is the last one of its group
    have hwritten : ∀ t', t'.slots = t₂.slots → Placing.Written
        ⟨input.parentSlotId.map Subtype.val, createOwner t input, input.placement, none, input.slotId, db.now⟩ t₁ key t' := by
      intro t' ht'
      rw [hslots] at ht'
      have hgroup : inGroup (input.parentSlotId.map Subtype.val) (createOwner t input) row = true := by
        rw [hrow, createRow]
        cases input.parentSlotId with
        | none => exact decide_eq_true ⟨rfl, rfl⟩
        | some _ => exact decide_eq_true rfl
      refine ⟨⟨⟨?_, fun r hr ↦ ?_⟩, fun r hr ↦ ?_⟩, ?_⟩
      · rw [ht', List.map_append, List.map_singleton]
        refine List.nodup_append.mpr ⟨hkept₁.stored.primaryKey, List.nodup_singleton _, fun a ha b hb ↦ ?_⟩
        obtain ⟨slot, hslot, rfl⟩ := List.mem_map.mp ha
        rw [List.mem_singleton.mp hb]
        exact hfresh slot hslot
      · rcases List.mem_append.mp (ht' ▸ hr) with hr | hr
        · exact hkept₁.stored.slotId r hr
        · rw [List.mem_singleton.mp hr]
          exact hwf
      · rcases List.mem_append.mp (ht' ▸ hr) with hr | hr
        · exact hkept₁.nonempty r hr
        · rw [List.mem_singleton.mp hr]
          exact panelSlotId_ne_nil input.slotId
      · rw [Placing.siblings_none_append t₁ _ _ ht' rfl (panelSlotId_ne_nil input.slotId) hgroup, List.map_append]
        exact List.perm_append_comm
    simp only
    split
    · exact .inr ⟨t₂, rfl, hwritten t₂ rfl⟩
    next entry _ =>
      cases happend : appendHistoryRow db input.slotId 0 entry t₂ with
      | error err =>
        refine .inl ?_
        rw [appendHistoryRow] at happend
        split at happend
        · rw [← Except.error.inj happend]
        · cases happend
      | ok t' => exact .inr ⟨t', rfl, hwritten t' (appendHistoryRow_cases happend).2.1⟩

/-! ## A move -/

/-- Rows with other order keys at most. -/
def Rekeyed (t t' : PanelTables) : Prop :=
  ∃ key : SlotRow → ℤ, t'.slots = t.slots.map fun row ↦ { row with sortKey := key row }

theorem rekeyed_rebalance (t : PanelTables) (parent owner exclude : Option JsString) :
    Rekeyed t (t.rebalancePanelTreeGroup parent owner exclude) := by
  let ranked := (t.siblings parent owner exclude).insertionSort (siblingLe · ·)
  refine ⟨fun row ↦ (rankedKey ranked row.slotId).getD row.sortKey, List.map_congr_left fun row _ ↦ ?_⟩
  split
  · rfl
  next hnone =>
    have hnone : rankedKey ranked row.slotId = none := Option.not_isSome_iff_eq_none.mp hnone
    simp only [hnone, Option.getD_none]

/-- **The tables of an order key** are those before, or these rebalanced. -/
theorem allocate_tables {parent owner exclude : Option JsString} {placement : Option PanelTreePlacement}
    {t t₁ : PanelTables} {key : ℤ} (h : allocatePanelTreeOrderKey parent owner placement exclude 2 t = .ok (t₁, key)) :
    t₁ = t ∨ t₁ = t.rebalancePanelTreeGroup parent owner exclude := by
  rw [allocatePanelTreeOrderKey] at h
  obtain ⟨o, -, h⟩ := bind_eq_ok.mp h
  cases o with
  | some _ => exact .inl (Prod.mk.inj (Except.ok.inj h)).1.symm
  | none =>
    simp only at h
    rw [allocatePanelTreeOrderKey] at h
    obtain ⟨o', -, h⟩ := bind_eq_ok.mp h
    cases o' with
    | some _ => exact .inr (Prod.mk.inj (Except.ok.inj h)).1.symm
    | none => cases h

theorem allocate_rekeyed {parent owner exclude : Option JsString} {placement : Option PanelTreePlacement}
    {t t₁ : PanelTables} {key : ℤ} (h : allocatePanelTreeOrderKey parent owner placement exclude 2 t = .ok (t₁, key)) :
    Rekeyed t t₁ := by
  rcases allocate_tables h with rfl | rfl
  · exact ⟨(·.sortKey), (List.map_id' _).symm⟩
  · exact rekeyed_rebalance t parent owner exclude

/-- The links of a table with one row for an id. -/
theorem parentOf_unique {rows : List SlotRow} (h : (rows.map (·.slotId)).Nodup) (x p q : JsString)
    (hp : Forest.ParentOf (linksOf rows) x p) (hq : Forest.ParentOf (linksOf rows) x q) : p = q := by
  obtain ⟨r, hr, hrx, hrp⟩ := parentOf_linksOf.mp hp
  obtain ⟨r', hr', hrx', hrq⟩ := parentOf_linksOf.mp hq
  obtain rfl := List.inj_on_of_nodup_map h hr hr' (hrx.trans hrx'.symm)
  exact Option.some.inj (hrp.symm.trans hrq)

/-- **The subtree of a slot that moves is finite**, since its new parent is not in it. -/
theorem subtree_reparent {rows : List SlotRow} (h : (rows.map (·.slotId)).Nodup) {slotId : JsString}
    {parentSlotId : Option JsString} (key : ℤ) (hmem : ∃ r ∈ rows, r.slotId = slotId)
    (hdest : ∀ p, parentSlotId = some p → ∃ below, Forest.subtree (linksOf rows) slotId = some below ∧ p ∉ below) :
    ∃ s, Forest.subtree (linksOf (rows.map (reparent slotId parentSlotId key))) slotId = some s := by
  have hids : ((rows.map (reparent slotId parentSlotId key)).map (·.slotId)).Nodup := by
    rw [List.map_map]
    exact (List.map_congr_left fun r _ ↦ reparent_slotId slotId parentSlotId key r) ▸ h
  refine Option.isSome_iff_exists.mp (Forest.subtree_isSome_of_outside (parentOf_unique hids) fun p hp hreach ↦ ?_)
  obtain ⟨r, -, hr, hparent⟩ := (parentOf_reparent key slotId p).mp hp
  rw [if_pos hr] at hparent
  obtain ⟨below, hbelow, hnot⟩ := hdest p hparent
  have hsub := Forest.isSubtree_of_subtree hbelow
  have hroot : slotId ∈ below := by
    obtain ⟨r₀, hr₀, rfl⟩ := hmem
    exact hsub.root_mem ⟨r₀.parentSlotId, List.mem_map_of_mem hr₀⟩
  -- what leads up to the slot was below it before
  have hbefore : ∀ x, Relation.ReflTransGen (Forest.ParentOf (linksOf (rows.map (reparent slotId parentSlotId key)))) x
      slotId → x ∈ below := by
    intro x hx
    induction hx using Relation.ReflTransGen.head_induction_on with
    | refl => exact hroot
    | @head x y hxy _ ih =>
      obtain ⟨r', hr', rfl, hparent'⟩ := (parentOf_reparent key x y).mp hxy
      split_ifs at hparent' with hid
      · exact hid ▸ hroot
      · exact hsub.closed _ _ (parentOf_linksOf.mpr ⟨r', hr', rfl, hparent'⟩) ih
  exact hnot (hbefore p hreach)

/-- The destination that passed the checks is not below the slot. -/
theorem moveOwner_outside {slot : SlotRow} {parentSlotId ownerUserId destOwner : Option JsString} {t : PanelTables}
    (h : moveOwner slot parentSlotId ownerUserId t = .ok destOwner) : ∀ p, parentSlotId = some p →
      ∃ below, Forest.subtree (linksOf t.slots) slot.slotId = some below ∧ p ∉ below := by
  rintro p rfl
  obtain ⟨parent, -, h⟩ := bind_eq_ok.mp h
  split at h
  · exact nomatch h
  split at h
  · exact nomatch h
  next below hbelow =>
    split at h
    · exact nomatch h
    next hnot => exact ⟨below, hbelow, hnot⟩

theorem SameTree.linksOf {t t' : PanelTables} (h : SameTree t t') : linksOf t'.slots = linksOf t.slots := by
  obtain ⟨f, hf, ht⟩ := h
  rw [ht]
  exact linksOf_map (fun r _ ↦ congrArg (·.1) (hf r)) fun r _ ↦ congrArg (·.2.1) (hf r)

/-- Both updates of a move. -/
def moved (slotId : JsString) (parentSlotId : Option JsString) (key : ℤ) (s : List JsString) (owner : Option JsString)
    (r : SlotRow) : SlotRow := reown s owner (reparent slotId parentSlotId key r)

theorem moved_of_ne {slotId : JsString} {parentSlotId owner : Option JsString} {key : ℤ} {s : List JsString} {r : SlotRow}
    (h : r.slotId ≠ slotId) : moved slotId parentSlotId key s owner r = reown s owner r := by
  rw [moved, reparent, if_neg h]

theorem placed_reown (s : List JsString) (owner : Option JsString) (r : SlotRow) : (reown s owner r).placed = r.placed := by
  rw [reown]
  split
  · rfl
  · rfl

/-- The rows of the group after a move: the slot, and the siblings it had. -/
theorem group_moved {t₁ t' : PanelTables} (slot : SlotRow) {parentSlotId owner : Option JsString} {key : ℤ}
    {s : List JsString} (hkept : SlotsKept t₁) (hslot : slot ∈ t₁.slots) (hopen : slot.closedAt = none)
    (hs : Forest.subtree (linksOf (t₁.slots.map (reparent slot.slotId parentSlotId key))) slot.slotId = some s)
    (ht' : t'.slots = t₁.slots.map (moved slot.slotId parentSlotId key s owner)) :
    ((t'.siblings parentSlotId owner none).map SlotRow.placed).Perm
      ((toLex (key, toLex (OrderDual.toDual slot.createdAt, utf8Encode slot.slotId)), slot.slotId) ::
        (t₁.siblings parentSlotId owner (some slot.slotId)).map SlotRow.placed) := by
  have hsub := Forest.isSubtree_of_subtree hs
  let f := moved slot.slotId parentSlotId key s owner
  let inDest : SlotRow → Bool := fun r ↦ decide (r.closedAt = none) &&
    (decide (r.slotId ≠ []) && inGroup parentSlotId owner r)
  have hsiblings : t'.siblings parentSlotId owner none = (t₁.slots.filter fun r ↦ inDest (f r)).map f := by
    rw [PanelTables.siblings, openSlots, ht', List.filter_filter, List.filter_map]
    refine congrArg _ (List.filter_congr fun r _ ↦ ?_)
    exact Bool.and_comm _ _
  -- the slot is in the group now
  have hself : inDest (f slot) = true ∧ (f slot).placed =
      (toLex (key, toLex (OrderDual.toDual slot.createdAt, utf8Encode slot.slotId)), slot.slotId) := by
    have hroot : slot.slotId ∈ s := hsub.root_mem ⟨parentSlotId, List.mem_map.mpr
      ⟨_, List.mem_map_of_mem hslot, by rw [reparent, if_pos rfl]⟩⟩
    have hf : f slot = { slot with parentSlotId := parentSlotId, sortKey := key, ownerUserId := owner } := by
      simp only [f, moved, reparent, if_true, reown, hroot]
    rw [hf]
    refine ⟨?_, rfl⟩
    have hne := hkept.nonempty slot hslot
    simp only [inDest, hopen, hne, ne_eq, not_false_eq_true, decide_true, Bool.true_and]
    cases parentSlotId with
    | none => exact decide_eq_true ⟨rfl, rfl⟩
    | some _ => exact decide_eq_true rfl
  -- and the others are in it as they were
  have hothers : ∀ r ∈ t₁.slots, r.slotId ≠ slot.slotId → inDest (f r) = inDest r := by
    intro r hr hne
    have hmoved : f r = reown s owner r := moved_of_ne hne
    have hgroup : inGroup parentSlotId owner (reown s owner r) = inGroup parentSlotId owner r := by
      cases parentSlotId with
      | some _ => rw [inGroup, inGroup, reown_parentSlotId]
      | none =>
        rw [inGroup, inGroup, reown_parentSlotId, reown_ownerUserId]
        refine decide_eq_decide.mpr (and_congr_right fun hroot ↦ ?_)
        -- a root that is not the slot is not below it
        rw [if_neg fun hin ↦ ?_]
        obtain ⟨q, -, hq⟩ := (hsub.below _ hin).resolve_left hne
        obtain ⟨r', hr', hid, hparent⟩ := (parentOf_reparent key _ q).mp hq
        obtain rfl := List.inj_on_of_nodup_map hkept.stored.primaryKey hr' hr hid
        rw [if_neg hne, hroot] at hparent
        cases hparent
    simp only [inDest, hmoved, reown_closedAt, reown_slotId, hgroup]
  obtain ⟨l, l', hsplit⟩ := List.append_of_mem hslot
  have hne : ∀ r ∈ l ++ l', r.slotId ≠ slot.slotId := by
    have hnodup := hkept.stored.primaryKey
    rw [hsplit, List.map_append, List.map_cons] at hnodup
    intro r hr hid
    refine (List.nodup_cons.mp (List.perm_middle.nodup_iff.mp hnodup)).1 ?_
    rw [← List.map_append]
    exact hid ▸ List.mem_map_of_mem (f := (·.slotId)) hr
  have hmem : ∀ r ∈ l ++ l', r ∈ t₁.slots := by
    intro r hr
    rw [hsplit]
    exact List.perm_middle.mem_iff.mpr (List.mem_cons_of_mem _ hr)
  have hrest : (t₁.siblings parentSlotId owner (some slot.slotId)) = (l ++ l').filter inDest := by
    have hslotOut : decide (slot.slotId ≠ slot.slotId) = false := decide_eq_false fun h ↦ h rfl
    rw [PanelTables.siblings, openSlots, hsplit, List.filter_filter, List.filter_append, List.filter_cons,
      Option.getD_some, hslotOut, Bool.false_and, Bool.false_and, if_neg Bool.false_ne_true, ← List.filter_append]
    refine List.filter_congr fun r hr ↦ ?_
    rw [decide_eq_true (hne r hr), Bool.true_and, Bool.and_comm]
    simp only [inDest, decide_eq_true (hkept.nonempty r (hmem r hr)), Bool.true_and]
  have hfiltered : (l ++ l').filter (fun r ↦ inDest (f r)) = (l ++ l').filter inDest :=
    List.filter_congr fun r hr ↦ hothers r (hmem r hr) (hne r hr)
  have hplaced : ((l ++ l').filter inDest).map (SlotRow.placed ∘ f) = ((l ++ l').filter inDest).map SlotRow.placed := by
    refine List.map_congr_left fun r hr ↦ ?_
    rw [Function.comp_apply, show f r = reown s owner r from moved_of_ne (hne r (List.mem_of_mem_filter hr)), placed_reown]
  rw [hsiblings, List.map_map, hrest, ← hplaced, ← hfiltered, hsplit, ← hself.2]
  have hperm : ((l ++ slot :: l').filter fun r ↦ inDest (f r)).Perm (slot :: (l ++ l').filter fun r ↦ inDest (f r)) := by
    have hcons : (slot :: (l ++ l')).filter (fun r ↦ inDest (f r)) = slot :: (l ++ l').filter fun r ↦ inDest (f r) :=
      List.filter_cons_of_pos hself.1
    exact hcons ▸ List.perm_middle.filter _
  exact hperm.map (SlotRow.placed ∘ f)

/-- A slot that is there and open is moved once its position is found. -/
theorem slotMove_eq {slotId : JsString} {parentSlotId ownerUserId destOwner : Option JsString} {slot : SlotRow}
    {placement : Option PanelTreePlacement} {t : PanelTables} (hget : t.slotGet slotId = some slot)
    (hopen : slot.closedAt = none) (howner : moveOwner slot parentSlotId ownerUserId t = .ok destOwner) :
    slotMove slotId parentSlotId placement ownerUserId t =
      (allocatePanelTreeOrderKey parentSlotId destOwner placement (some slotId) 2 t).bind fun (t₁, key) ↦
        let t₂ := t₁.updateSlots (fun row ↦ decide (row.slotId = slotId))
          fun row ↦ { row with parentSlotId, sortKey := key }
        match Forest.subtree (linksOf t₂.slots) slotId with
        | none => .error .diverges
        | some subtree => .ok (t₂.updateSlots (fun row ↦ decide (row.slotId ∈ subtree))
            fun row ↦ { row with ownerUserId := destOwner }) := by
  have hrequire : t.requireSlot slotId = .ok slot := by rw [requireSlot, hget]
  rw [slotMove, hrequire]
  change (if slot.closedAt ≠ none then _ else (moveOwner slot parentSlotId ownerUserId t).bind _) = _
  rw [if_neg (not_not.mpr hopen), howner]
  rfl

theorem slotMove_written {slotId : JsString} {parentSlotId ownerUserId : Option JsString} {db : Surroundings}
    {placement : Option PanelTreePlacement} {p : Placing} {t : PanelTables} (hkept : SlotsKept t)
    (hp : placing? t (db, .slotMove slotId parentSlotId placement ownerUserId) = some p) :
    (∀ err, p.allocate t = .error err → slotMove slotId parentSlotId placement ownerUserId t = .error err) ∧
    ∀ t₁ key, p.allocate t = .ok (t₁, key) →
      ∃ t', slotMove slotId parentSlotId placement ownerUserId t = .ok t' ∧ p.Written t₁ key t' := by
  obtain ⟨slot, hslot, hp⟩ := Option.bind_eq_some_iff.mp hp
  obtain ⟨hget, hopen⟩ := Option.filter_eq_some_iff.mp hslot
  obtain ⟨destOwner, howner, rfl⟩ := Option.map_eq_some_iff.mp hp
  have howner : moveOwner slot parentSlotId ownerUserId t = .ok destOwner := by
    cases hmove : moveOwner slot parentSlotId ownerUserId t with
    | ok owner => exact congrArg Except.ok (Option.some.inj ((congrArg Except.toOption hmove).symm.trans howner))
    | error _ => cases (congrArg Except.toOption hmove).symm.trans howner
  have hopen : slot.closedAt = none := of_decide_eq_true hopen
  obtain ⟨hmem, rfl⟩ := mem_of_slotGet hget
  rw [slotMove_eq hget hopen howner]
  refine ⟨fun err herr ↦ congrArg (Except.bind · _) herr, fun t₁ key hok ↦ ?_⟩
  have hallocate : allocatePanelTreeOrderKey parentSlotId destOwner placement (some slot.slotId) 2 t = .ok (t₁, key) := hok
  have hsame := allocate_sameTree hallocate
  have hkept₁ : SlotsKept t₁ := hkept.sameTree hsame
  rw [hallocate]
  simp only [Except.bind]
  obtain ⟨newKey, hslots⟩ := allocate_rekeyed hallocate
  have hslot₁ : { slot with sortKey := newKey slot } ∈ t₁.slots := hslots ▸ List.mem_map_of_mem hmem
  have hupdate : (t₁.updateSlots (fun row ↦ decide (row.slotId = slot.slotId))
      fun row ↦ { row with parentSlotId, sortKey := key }).slots =
        t₁.slots.map (reparent slot.slotId parentSlotId key) := updateSlots_decide t₁ _
  rw [hupdate]
  obtain ⟨s, hs⟩ := subtree_reparent hkept₁.stored.primaryKey key ⟨_, hslot₁, rfl⟩ fun q hq ↦ by
    rw [hsame.linksOf]
    exact moveOwner_outside howner q hq
  rw [hs]
  refine ⟨_, rfl, ?_, group_moved { slot with sortKey := newKey slot } hkept₁ hslot₁ hopen hs ?_⟩
  · apply SlotsKept.updateSlots
    · apply hkept₁.updateSlots
      exact fun _ ↦ rfl
    · exact fun _ ↦ rfl
  · rw [updateSlots_decide, hupdate, List.map_map]
    rfl

/-! ## Rebalancing -/

theorem indexOf_eq_some {rows : List SlotRow} {slotId : JsString} {i : ℕ} (h : indexOf rows slotId = some i) :
    ∃ row, rows[i]? = some row ∧ row.slotId = slotId := by
  obtain ⟨hlt, hrow, -⟩ := List.findIdx?_eq_some_iff_getElem.mp h
  exact ⟨_, List.getElem?_eq_getElem hlt, of_decide_eq_true hrow⟩

theorem indexOf_getElem {rows : List SlotRow} (h : StoredIds rows) {i : ℕ} {row : SlotRow} (hrow : rows[i]? = some row) :
    indexOf rows row.slotId = some i := by
  obtain ⟨hlt, rfl⟩ := List.getElem?_eq_some_iff.mp hrow
  refine List.findIdx?_eq_some_iff_getElem.mpr ⟨hlt, decide_eq_true rfl, fun j hj hid ↦ ?_⟩
  have hids := List.pairwise_map.mp h.primaryKey
  exact List.pairwise_iff_getElem.mp hids j i (hj.trans hlt) hlt hj (of_decide_eq_true hid)

theorem storedIds_pageOrder {rows : List SlotRow} (h : StoredIds rows) : StoredIds (pageOrder rows) where
  primaryKey := ((pageOrder_perm rows).map _).nodup_iff.mpr h.primaryKey
  slotId r hr := h.slotId r (mem_pageOrder.mp hr)

section rebalance

variable {t : PanelTables} {parent owner exclude : Option JsString}

theorem SlotsKept.siblings (h : SlotsKept t) (parent owner exclude : Option JsString) :
    StoredIds (t.siblings parent owner exclude) := (h.stored.filter _).filter _

/-- The order key of a row after a rebalancing. -/
def rebalancedKey (t : PanelTables) (parent owner exclude : Option JsString) (row : SlotRow) : ℤ :=
  (rankedKey (pageOrder (t.siblings parent owner exclude)) row.slotId).getD row.sortKey

theorem siblings_rebalance (t : PanelTables) (parent owner exclude : Option JsString) :
    (t.rebalancePanelTreeGroup parent owner exclude).siblings parent owner exclude =
      (t.siblings parent owner exclude).map fun row ↦
        { row with sortKey := rebalancedKey t parent owner exclude row } := by
  have hslots : (t.rebalancePanelTreeGroup parent owner exclude).slots = t.slots.map fun row ↦
      { row with sortKey := rebalancedKey t parent owner exclude row } := by
    refine List.map_congr_left fun row _ ↦ ?_
    split
    · rfl
    next hnone =>
      have hnone : rankedKey (pageOrder (t.siblings parent owner exclude)) row.slotId = none :=
        Option.not_isSome_iff_eq_none.mp hnone
      simp only [rebalancedKey, hnone, Option.getD_none]
  have hgroup (row : SlotRow) (key : ℤ) : inGroup parent owner { row with sortKey := key } = inGroup parent owner row := by
    match parent with
    | none => rfl
    | some _ => rfl
  rw [PanelTables.siblings, openSlots, hslots, List.filter_map, List.filter_map]
  simp only [Function.comp_def, hgroup]
  rfl

theorem rankedKey_getElem {rows : List SlotRow} (h : StoredIds rows) {i : ℕ} {row : SlotRow} (hrow : rows[i]? = some row) :
    rankedKey rows row.slotId = some (((i : ℤ) + 1) * panelTreeOrderStep) :=
  congrArg (Option.map fun i : ℕ ↦ ((i : ℤ) + 1) * panelTreeOrderStep) (indexOf_getElem h hrow)

/-- **A rebalancing keeps the order** and gives each row a multiple of the step. -/
theorem pageOrder_rebalance (h : SlotsKept t) :
    pageOrder ((t.rebalancePanelTreeGroup parent owner exclude).siblings parent owner exclude) =
      (pageOrder (t.siblings parent owner exclude)).map fun row ↦
        { row with sortKey := rebalancedKey t parent owner exclude row } := by
  have hstored := h.siblings parent owner exclude
  have hkept' : SlotsKept (t.rebalancePanelTreeGroup parent owner exclude) := by
    obtain ⟨key, hslots⟩ := rekeyed_rebalance t parent owner exclude
    refine h.map ?_ hslots
    exact fun _ ↦ rfl
  refine List.Perm.eq_of_pairwise ?_ (hkept'.siblings parent owner exclude).pageOrder_lt ?_ ?_
  · exact fun a b _ _ hab hba ↦ absurd hab hba.asymm
  · rw [List.pairwise_map, List.pairwise_iff_getElem]
    intro i j hi hj hij
    refine pageKey_lt_of_sortKey ?_
    simp only [rebalancedKey]
    rw [rankedKey_getElem (storedIds_pageOrder hstored) (List.getElem?_eq_getElem hi),
      rankedKey_getElem (storedIds_pageOrder hstored) (List.getElem?_eq_getElem hj), Option.getD_some, Option.getD_some,
      panelTreeOrderStep]
    omega
  · rw [siblings_rebalance]
    exact (pageOrder_perm _).trans ((pageOrder_perm _).symm.map _)

end rebalance

/-! ## Anchors -/

namespace Placing

variable {p : Placing} {t t₁ : PanelTables} {key : ℤ}

theorem anchor_of_mem (h : SlotsKept t) {row : SlotRow} (hrow : row ∈ p.siblings t) :
    t.anchor p.parentSlotId p.ownerUserId p.excludeSlotId (some row.slotId) = .ok (some row) := by
  obtain ⟨hmem, hsibling⟩ := List.mem_filter.mp hrow
  obtain ⟨hslots, hopen⟩ := mem_openSlots.mp hmem
  obtain ⟨hne, hgroup⟩ := Bool.and_eq_true_iff.mp hsibling
  have hget : t.slotGet row.slotId = some row := by
    cases hfind : t.slotGet row.slotId with
    | none => exact absurd rfl (slotGet_eq_none.mp hfind row hslots)
    | some row' =>
      obtain ⟨hmem', hid⟩ := mem_of_slotGet hfind
      rw [List.inj_on_of_nodup_map h.stored.primaryKey hmem' hslots hid]
  have hexclude : some row.slotId ≠ p.excludeSlotId := by
    intro hid
    rw [← hid] at hne
    exact of_decide_eq_true hne rfl
  have hnonempty := h.nonempty row hslots
  rw [anchor.eq_def]
  split
  next heq => cases heq
  next heq => exact absurd (Option.some.inj heq) hnonempty
  next slotId _ heq =>
    obtain rfl := Option.some.inj heq
    rw [requireSlot, hget]
    simp only [Except.bind]
    rw [if_neg (not_or.mpr ⟨not_not.mpr hopen, hexclude⟩), if_pos hgroup]

theorem anchor_none {parent owner exclude slotId : Option JsString} (h : slotId.filter (· ≠ []) = none) :
    t.anchor parent owner exclude slotId = .ok none := by
  match slotId with
  | none | some [] => rfl
  | some (c :: cs) => exact nomatch h

/-- The order key that the rows of the anchors decide. -/
def keyFor (p : Placing) (t : PanelTables) : Option SlotRow → Option SlotRow → Except PanelError (Option ℤ)
  | some before, some after =>
    if after.sortKey ≤ before.sortKey then .error .anchorsReversed
    else if (p.siblings t).any fun row ↦ decide (before.sortKey < row.sortKey ∧ row.sortKey < after.sortKey)
    then .error .anchorsNotAdjacent
    else if 1 < after.sortKey - before.sortKey
    then .ok (some (before.sortKey + (after.sortKey - before.sortKey) / 2))
    else .ok none
  | none, none => .ok (some ((((p.siblings t).map (·.sortKey)).min?).getD panelTreeOrderStep - panelTreeOrderStep))
  | none, some after => .ok (some (after.sortKey - panelTreeOrderStep))
  | some before, none => .ok (some (before.sortKey + panelTreeOrderStep))

theorem orderKey?_eq {before after : Option SlotRow}
    (hbefore : t.anchor p.parentSlotId p.ownerUserId p.excludeSlotId (p.placement.bind (·.beforeSlotId)) = .ok before)
    (hafter : t.anchor p.parentSlotId p.ownerUserId p.excludeSlotId (p.placement.bind (·.afterSlotId)) = .ok after) :
    t.orderKey? p.parentSlotId p.ownerUserId p.placement p.excludeSlotId = p.keyFor t before after := by
  simp only [orderKey?, hbefore, hafter, Except.bind]
  cases before <;> cases after <;> rfl

/-- An order key that is found at once. -/
theorem allocate_of_orderKey (h : t.orderKey? p.parentSlotId p.ownerUserId p.placement p.excludeSlotId = .ok (some key)) :
    p.allocate t = .ok (t, key) := by
  rw [allocate, allocatePanelTreeOrderKey, h]
  rfl

end Placing

/-! ## Room at a position -/

namespace Placing

variable {p : Placing} {t t₁ : PanelTables} {key : ℤ}

theorem anchor_some (h : SlotsKept t) {anchorId : Option JsString} {row : SlotRow} (hrow : row ∈ p.siblings t)
    (hanchor : anchorId.filter (· ≠ []) = some row.slotId) :
    t.anchor p.parentSlotId p.ownerUserId p.excludeSlotId anchorId = .ok (some row) :=
  (Option.filter_eq_some_iff.mp hanchor).1 ▸ anchor_of_mem h hrow

theorem mem_siblings_of_order {k : ℕ} {row : SlotRow} (h : (p.order t)[k]? = some row) : row ∈ p.siblings t :=
  mem_pageOrder.mp (List.mem_of_getElem? h)

/-- The slot is between its neighbours. -/
def Fits (p : Placing) (t : PanelTables) (pos : ℕ) (key : ℤ) : Prop :=
  Between Prod.fst ((p.order t).map SlotRow.placed) pos (p.pageKey key, p.slotId)

theorem fits_iff (h : SlotsKept t) {pos : ℕ} (hpos : pos ≤ (p.order t).length) : p.Fits t pos key ↔
    (∀ k left, pos = k + 1 → (p.order t)[k]? = some left → left.pageKey < p.pageKey key) ∧
      ∀ right, (p.order t)[pos]? = some right → p.pageKey key < right.pageKey := by
  have hiff := between_iff (x := (p.pageKey key, p.slotId))
    (placed_pairwise (h.siblings p.parentSlotId p.ownerUserId p.excludeSlotId)) (hpos.trans_eq (List.length_map _).symm)
  refine hiff.trans (and_congr ?_ ?_)
  · refine forall_congr' fun k ↦ ⟨fun hleft left hk hrow ↦ hleft left.placed hk ?_, fun hleft a hk ha ↦ ?_⟩
    · rw [List.getElem?_map]
      exact congrArg (Option.map SlotRow.placed) hrow
    · rw [List.getElem?_map] at ha
      obtain ⟨left, hrow, rfl⟩ := Option.map_eq_some_iff.mp ha
      exact hleft left hk hrow
  · refine ⟨fun hright right hrow ↦ hright right.placed ?_, fun hright a ha ↦ ?_⟩
    · rw [List.getElem?_map]
      exact congrArg (Option.map SlotRow.placed) hrow
    · rw [List.getElem?_map] at ha
      obtain ⟨right, hrow, rfl⟩ := Option.map_eq_some_iff.mp ha
      exact hright right hrow

theorem pageKey_lt {row : SlotRow} (h : key < row.sortKey) : p.pageKey key < row.pageKey :=
  Prod.Lex.toLex_lt_toLex.mpr (.inl h)

theorem lt_pageKey {row : SlotRow} (h : row.sortKey < key) : row.pageKey < p.pageKey key :=
  Prod.Lex.toLex_lt_toLex.mpr (.inl h)

/-- Above all siblings. -/
theorem fits_top (h : SlotsKept t) :
    p.Fits t 0 ((((p.siblings t).map (·.sortKey)).min?).getD panelTreeOrderStep - panelTreeOrderStep) := by
  refine (fits_iff h (Nat.zero_le _)).mpr ⟨nofun, fun right hright ↦ pageKey_lt ?_⟩
  have hmem : right.sortKey ∈ (p.siblings t).map (·.sortKey) := List.mem_map_of_mem (mem_siblings_of_order hright)
  have hedge : (((p.siblings t).map (·.sortKey)).min?).getD panelTreeOrderStep ≤ right.sortKey := by
    match hmin : ((p.siblings t).map (·.sortKey)).min? with
    | none => exact absurd (List.min?_eq_none_iff.mp hmin) (List.ne_nil_of_mem hmem)
    | some edge =>
      rw [hmin]
      exact (List.min?_eq_some_iff.mp hmin).2 _ hmem
  rw [panelTreeOrderStep] at hedge ⊢
  omega

/-- Rows that follow each other have no key between theirs. -/
theorem none_between (h : SlotsKept t) {i : ℕ} {before after : SlotRow} (hbefore : (p.order t)[i]? = some before)
    (hafter : (p.order t)[i + 1]? = some after) :
    (p.siblings t).any (fun row ↦ decide (before.sortKey < row.sortKey ∧ row.sortKey < after.sortKey)) = false := by
  rw [List.any_eq_false]
  intro row hrow
  rw [decide_eq_true_eq, not_and, not_lt]
  intro hlt
  have hsorted := (h.siblings p.parentSlotId p.ownerUserId p.excludeSlotId).pageOrder_lt
  obtain ⟨j, hj, rfl⟩ := List.mem_iff_getElem.mp (mem_pageOrder.mpr hrow)
  obtain ⟨hi, rfl⟩ := List.getElem?_eq_some_iff.mp hbefore
  obtain ⟨hi', rfl⟩ := List.getElem?_eq_some_iff.mp hafter
  rcases Nat.lt_trichotomy j (i + 1) with hlow | rfl | hhigh
  · rcases (Nat.lt_succ_iff.mp hlow).eq_or_lt with rfl | hlow
    · exact absurd hlt (lt_irrefl _)
    · exact absurd (sortKey_le_of_pageKey (List.pairwise_iff_getElem.mp hsorted j i hj hi hlow)) hlt.not_ge
  · exact le_rfl
  · exact sortKey_le_of_pageKey (List.pairwise_iff_getElem.mp hsorted (i + 1) j hi' hj hhigh)

/-- Half-way between two rows that follow each other. -/
theorem keyFor_both (h : SlotsKept t) {i : ℕ} {before after : SlotRow} (hbefore : (p.order t)[i]? = some before)
    (hafter : (p.order t)[i + 1]? = some after) (hgap : 1 < after.sortKey - before.sortKey) :
    ∃ key, p.keyFor t (some before) (some after) = .ok (some key) ∧ p.Fits t (i + 1) key := by
  refine ⟨before.sortKey + (after.sortKey - before.sortKey) / 2, ?_, ?_⟩
  · rw [keyFor, if_neg (by omega), none_between h hbefore hafter, if_neg Bool.false_ne_true, if_pos hgap]
  · have hlength : i + 1 < (p.order t).length := (List.getElem?_eq_some_iff.mp hafter).1
    refine (fits_iff h hlength.le).mpr ⟨fun k left hk hleft ↦ lt_pageKey ?_, fun right hright ↦ pageKey_lt ?_⟩
    · obtain rfl := Nat.succ.inj hk
      obtain rfl := Option.some.inj (hbefore.symm.trans hleft)
      omega
    · obtain rfl := Option.some.inj (hafter.symm.trans hright)
      omega

/-- **There is room between two anchors** that follow each other, unless their keys are equal. -/
theorem allocate_both (h : SlotsKept t) {i : ℕ} {before after : SlotRow} (hbefore : (p.order t)[i]? = some before)
    (hafter : (p.order t)[i + 1]? = some after) (hb : p.beforeSlotId = some before.slotId)
    (ha : p.afterSlotId = some after.slotId) :
    (∃ t₁ key, p.allocate t = .ok (t₁, key) ∧ p.Fits t₁ (i + 1) key) ↔ before.sortKey < after.sortKey := by
  have horder := p.orderKey?_eq (anchor_some h (mem_siblings_of_order hbefore) hb)
    (anchor_some h (mem_siblings_of_order hafter) ha)
  constructor
  · rintro ⟨t₁, key, hallocate, -⟩
    by_contra hle
    rw [allocate, allocatePanelTreeOrderKey, horder, keyFor, if_pos (not_lt.mp hle)] at hallocate
    cases hallocate
  intro hlt
  by_cases hgap : 1 < after.sortKey - before.sortKey
  · obtain ⟨key, hkey, hfits⟩ := keyFor_both h hbefore hafter hgap
    exact ⟨t, key, allocate_of_orderKey (horder.trans hkey), hfits⟩
  · -- the keys are next to each other, and a rebalancing moves them apart
    have hnone : p.keyFor t (some before) (some after) = .ok none := by
      rw [keyFor, if_neg (not_le.mpr hlt), none_between h hbefore hafter, if_neg Bool.false_ne_true, if_neg hgap]
    set t' := t.rebalancePanelTreeGroup p.parentSlotId p.ownerUserId p.excludeSlotId with ht'
    have h' : SlotsKept t' := by
      obtain ⟨newKey, hslots⟩ := rekeyed_rebalance t p.parentSlotId p.ownerUserId p.excludeSlotId
      refine h.map ?_ hslots
      exact fun _ ↦ rfl
    have hrebalanced : ∀ {k : ℕ} {row : SlotRow}, (p.order t)[k]? = some row →
        (p.order t')[k]? = some { row with sortKey := ((k : ℤ) + 1) * panelTreeOrderStep } := by
      intro k row hrow
      rw [order, siblings, ht', pageOrder_rebalance h, List.getElem?_map]
      refine (congrArg (Option.map _) hrow).trans ?_
      have hkey := rankedKey_getElem (storedIds_pageOrder (h.siblings p.parentSlotId p.ownerUserId p.excludeSlotId)) hrow
      rw [Option.map_some, rebalancedKey, hkey, Option.getD_some]
    have hbefore' := hrebalanced hbefore
    have hafter' := hrebalanced hafter
    obtain ⟨key, hkey, hfits⟩ := keyFor_both h' hbefore' hafter' (by
      simp only [panelTreeOrderStep]
      omega)
    have horder' := p.orderKey?_eq (anchor_some h' (mem_siblings_of_order hbefore') hb)
      (anchor_some h' (mem_siblings_of_order hafter') ha)
    refine ⟨t', key, ?_, hfits⟩
    rw [allocate, allocatePanelTreeOrderKey, horder, hnone]
    simp only [Except.bind]
    rw [allocatePanelTreeOrderKey, horder', hkey]
    rfl

/-- **The position that the anchors ask for** is free exactly if its neighbours leave room. -/
theorem allocate_fits_iff (h : SlotsKept t) {pos : ℕ} (hpos : p.position t = some pos) :
    (∃ t₁ key, p.allocate t = .ok (t₁, key) ∧ p.Fits t₁ pos key) ↔ p.HasRoom t := by
  -- a key that is found at once
  have hsingle {newKey : ℤ} (hallocate : p.allocate t = .ok (t, newKey)) :
      (∃ t₁ key, p.allocate t = .ok (t₁, key) ∧ p.Fits t₁ pos key) ↔ p.Fits t pos newKey := by
    constructor
    · rintro ⟨t₁, key, hallocate', hfits⟩
      obtain ⟨rfl, rfl⟩ := Prod.mk.inj (Except.ok.inj (hallocate.symm.trans hallocate'))
      exact hfits
    · exact fun hfits ↦ ⟨t, newKey, hallocate, hfits⟩
  have hposition := hpos
  rw [position] at hpos
  match hb : p.beforeSlotId, ha : p.afterSlotId with
  | none, none =>
    rw [hb, ha] at hpos
    obtain rfl := Option.some.inj hpos
    have horder := orderKey?_eq (t := t) (anchor_none hb) (anchor_none ha)
    refine iff_of_true ((hsingle (allocate_of_orderKey (horder.trans rfl))).mpr (fits_top h)) fun k left right hk ↦ ?_
    exact nomatch hposition.symm.trans hk
  | some _, none =>
    rw [hb, ha] at hpos
    obtain ⟨i, hi, rfl⟩ := Option.map_eq_some_iff.mp hpos
    obtain ⟨before, hbefore, rfl⟩ := indexOf_eq_some hi
    have hlength : i < (p.order t).length := (List.getElem?_eq_some_iff.mp hbefore).1
    have horder := p.orderKey?_eq (anchor_some h (mem_siblings_of_order hbefore) hb) (anchor_none ha)
    rw [hsingle (allocate_of_orderKey (horder.trans rfl)), fits_iff h hlength]
    constructor
    · rintro ⟨-, hright⟩ k left right hk hleft hrightRow
      obtain rfl := Nat.succ.inj (Option.some.inj (hposition.symm.trans hk))
      obtain rfl := Option.some.inj (hbefore.symm.trans hleft)
      rw [hb, ha]
      exact hright right hrightRow
    · refine fun hroom ↦ ⟨fun k left hk hleft ↦ lt_pageKey ?_, fun right hright ↦ ?_⟩
      · obtain rfl := Nat.succ.inj hk
        obtain rfl := Option.some.inj (hbefore.symm.trans hleft)
        rw [panelTreeOrderStep]
        omega
      · have hroom := hroom i before right hposition hbefore hright
        rw [hb, ha] at hroom
        exact hroom
  | none, some _ =>
    rw [hb, ha] at hpos
    obtain ⟨after, hafter, rfl⟩ := indexOf_eq_some hpos
    have hlength : pos < (p.order t).length := (List.getElem?_eq_some_iff.mp hafter).1
    have horder := p.orderKey?_eq (anchor_none hb) (anchor_some h (mem_siblings_of_order hafter) ha)
    rw [hsingle (allocate_of_orderKey (horder.trans rfl)), fits_iff h hlength.le]
    constructor
    · rintro ⟨hleft, -⟩ k left right hk hleftRow hright
      obtain rfl := Option.some.inj (hposition.symm.trans hk)
      obtain rfl := Option.some.inj (hafter.symm.trans hright)
      rw [hb, ha]
      exact hleft k left rfl hleftRow
    · refine fun hroom ↦ ⟨fun k left hk hleft ↦ ?_, fun right hright ↦ pageKey_lt ?_⟩
      · subst hk
        have hroom := hroom k left after hposition hleft hafter
        rw [hb, ha] at hroom
        exact hroom
      · obtain rfl := Option.some.inj (hafter.symm.trans hright)
        rw [panelTreeOrderStep]
        omega
  | some _, some _ =>
    rw [hb, ha] at hpos
    obtain ⟨i, hi, hite⟩ := Option.bind_eq_some_iff.mp hpos
    obtain ⟨before, hbefore, rfl⟩ := indexOf_eq_some hi
    obtain ⟨hnext, hsome⟩ := Option.ite_none_right_eq_some.mp hite
    obtain rfl := Option.some.inj hsome
    obtain ⟨after, hafter, rfl⟩ := Option.map_eq_some_iff.mp hnext
    rw [allocate_both h hbefore hafter hb ha]
    constructor
    · intro hlt k left right hk hleft hright
      obtain rfl := Nat.succ.inj (Option.some.inj (hposition.symm.trans hk))
      obtain rfl := Option.some.inj (hbefore.symm.trans hleft)
      obtain rfl := Option.some.inj (hafter.symm.trans hright)
      rw [hb, ha]
      exact hlt
    · intro hroom
      have hroom := hroom i before after hposition hbefore hafter
      rw [hb, ha] at hroom
      exact hroom

end Placing

/-! ## Runs -/

/-- **What a call that places a slot does**: nothing but an error of its order key, or a refusal by the storage, or a
write under that key. -/
theorem attempt_written {t : PanelTables} {e : Surroundings × PanelCall} {p : Placing} (h : SlotsKept t)
    (he : placesSlots t e = true) (hp : placing? t e = some p) :
    (∀ err, p.allocate t = .error err → attempt t e = .error err) ∧
    ∀ t₁ key, p.allocate t = .ok (t₁, key) → attempt t e = .error .constraint ∨
      ∃ t', attempt t e = .ok t' ∧ p.Written t₁ key t' := by
  match e with
  | (_, .slotCreate input) => exact slotCreate_written h he hp
  | (_, .slotMove slotId parentSlotId placement ownerUserId) =>
    obtain ⟨herror, hok⟩ := slotMove_written h hp
    exact ⟨herror, fun t₁ key hallocate ↦ .inr (hok t₁ key hallocate)⟩
  | (_, .initializePanels ..) | (_, .slotClose _) | (_, .slotCloseOwnedRoots _) => exact nomatch he

theorem slotsKept_slotCreate {db : Surroundings} {input : SlotCreateInput} {t t' : PanelTables} (h : SlotsKept t)
    (hwf : isWellFormed input.slotId.val = true) (ht : slotCreate db input t = .ok t') : SlotsKept t' := by
  cases hp : placing? t (db, .slotCreate input) with
  | some p =>
    obtain ⟨herror, hok⟩ := slotCreate_written h hwf hp
    cases hallocate : p.allocate t with
    | error err => cases (herror err hallocate).symm.trans ht
    | ok r =>
      rcases hok r.1 r.2 hallocate with hrefused | ⟨t'', hwritten, hw⟩
      · cases hrefused.symm.trans ht
      · exact Except.ok.inj (hwritten.symm.trans ht) ▸ hw.kept
  | none =>
    -- nothing is placed: the slot is there already
    rw [slotCreate] at ht
    split at ht
    · cases ht
    next hterminal =>
      split at ht
      · obtain ⟨_, -, rfl⟩ := map_eq_ok.mp ht
        exact h
      next hnew =>
        rw [placing?, hterminal, hnew, if_neg (by simp)] at hp
        cases hp

theorem slotsKept_slotMove (db : Surroundings) {slotId : JsString} {parentSlotId ownerUserId : Option JsString}
    {placement : Option PanelTreePlacement} {t t' : PanelTables} (h : SlotsKept t)
    (ht : slotMove slotId parentSlotId placement ownerUserId t = .ok t') : SlotsKept t' := by
  obtain ⟨slot, hslot, ht₁⟩ := bind_eq_ok.mp ht
  split at ht₁
  · cases ht₁
  next hopen =>
    obtain ⟨destOwner, howner, -⟩ := bind_eq_ok.mp ht₁
    have hget : t.slotGet slotId = some slot := by
      rw [requireSlot] at hslot
      split at hslot
      next row hrow => exact Except.ok.inj hslot ▸ hrow
      next => cases hslot
    obtain ⟨p, hp⟩ : ∃ p, placing? t (db, .slotMove slotId parentSlotId placement ownerUserId) = some p := by
      refine ⟨⟨parentSlotId, destOwner, placement, some slotId, slotId, slot.createdAt⟩, ?_⟩
      rw [placing?, hget, Option.filter_some, if_pos (decide_eq_true (not_not.mp hopen)), Option.bind_some, howner]
      rfl
    obtain ⟨herror, hok⟩ := slotMove_written h hp
    cases hallocate : p.allocate t with
    | error err => cases (herror err hallocate).symm.trans ht
    | ok r =>
      obtain ⟨t'', hwritten, hw⟩ := hok r.1 r.2 hallocate
      exact Except.ok.inj (hwritten.symm.trans ht) ▸ hw.kept

theorem slotsKept_of_reachable {t : PanelTables} (h : Reachable panelStep placesSlots .empty t) : SlotsKept t := by
  refine h.invariant ⟨⟨List.nodup_nil, nofun⟩, nofun⟩ fun s s' e hs he hstep ↦ ?_
  obtain rfl := Option.some.inj hstep
  match e with
  | (db, .slotCreate input) =>
    rw [perform]
    match hcreate : slotCreate db input s with
    | .ok s' => exact slotsKept_slotCreate hs he hcreate
    | .error _ => exact hs
  | (db, .slotMove slotId parentSlotId placement ownerUserId) =>
    rw [perform]
    match hmove : slotMove slotId parentSlotId placement ownerUserId s with
    | .ok s' => exact slotsKept_slotMove db hs hmove
    | .error _ => exact hs
  | (_, .initializePanels ..) | (_, .slotClose _) | (_, .slotCloseOwnedRoots _) => exact nomatch he

/-- The order of the siblings is the same before and after an order key is found. -/
theorem Placing.order_allocate {p : Placing} {t t₁ : PanelTables} {key : ℤ} (h : SlotsKept t)
    (hallocate : p.allocate t = .ok (t₁, key)) : (p.order t₁).map (·.slotId) = (p.order t).map (·.slotId) := by
  rcases allocate_tables hallocate with rfl | rfl
  · rfl
  · rw [order, siblings, pageOrder_rebalance h, List.map_map]
    rfl

theorem Placing.position_le {p : Placing} {t : PanelTables} {pos : ℕ} (hpos : p.position t = some pos) :
    pos ≤ (p.order t).length := by
  rw [position] at hpos
  split at hpos
  · exact Option.some.inj hpos ▸ Nat.zero_le _
  · obtain ⟨i, hi, rfl⟩ := Option.map_eq_some_iff.mp hpos
    obtain ⟨row, hrow, -⟩ := indexOf_eq_some hi
    exact (List.getElem?_eq_some_iff.mp hrow).1
  · obtain ⟨row, hrow, -⟩ := indexOf_eq_some hpos
    exact (List.getElem?_eq_some_iff.mp hrow).1.le
  · obtain ⟨i, -, hite⟩ := Option.bind_eq_some_iff.mp hpos
    obtain ⟨hnext, hsome⟩ := Option.ite_none_right_eq_some.mp hite
    obtain ⟨row, hrow, -⟩ := Option.map_eq_some_iff.mp hnext
    exact Option.some.inj hsome ▸ (List.getElem?_eq_some_iff.mp hrow).1.le

/-- **The group after a write**: the order of the siblings with the slot inserted, at a position exactly if it fits
there. -/
theorem Placing.Written.groupOrder {p : Placing} {t₁ t' : PanelTables} {key : ℤ} (h₁ : SlotsKept t₁)
    (h : p.Written t₁ key t') : (p.groupOrder t').filter (· ≠ p.slotId) = (p.order t₁).map (·.slotId) ∧
      ∀ pos ≤ (p.order t₁).length,
        p.groupOrder t' = ((p.order t₁).map (·.slotId)).insertIdx pos p.slotId ↔ p.Fits t₁ pos key := by
  have hstored := h₁.siblings p.parentSlotId p.ownerUserId p.excludeSlotId
  obtain ⟨heq, hne, hid⟩ := pageOrder_insert hstored (h.kept.siblings p.parentSlotId p.ownerUserId none) h.group
  have hgroup : p.groupOrder t' = ((p.order t₁).map (·.slotId)).insertIdx
    (rank Prod.fst ((p.order t₁).map SlotRow.placed) (p.pageKey key, p.slotId)) p.slotId := heq
  have hlength := rank_le_length Prod.fst ((p.order t₁).map SlotRow.placed) (p.pageKey key, p.slotId)
  constructor
  · have hkeep : ∀ ids : List JsString, p.slotId ∉ ids → ids.filter (· ≠ p.slotId) = ids := by
      intro ids hids
      refine List.filter_eq_self.mpr fun id hmem ↦ decide_eq_true ?_
      rintro rfl
      exact hids hmem
    rw [hgroup, insertIdx_eq (hlength.trans_eq (by rw [List.length_map, List.length_map])), List.filter_append,
      List.filter_cons_of_neg (by simp), ← List.filter_append, List.take_append_drop]
    exact hkeep _ hid
  · intro pos hpos
    rw [hgroup, ← map_snd_placed]
    refine insertIdx_rank_eq_iff (placed_pairwise hstored) hne (hpos.trans_eq (List.length_map _).symm) ?_
    rw [map_snd_placed]
    exact hid

variable {t : PanelTables} {e : Surroundings × PanelCall} {p : Placing}

theorem exclude_ne_nil (h : SlotsKept t) (hp : placing? t e = some p) : p.excludeSlotId ≠ some [] := by
  match e with
  | (_, .slotCreate input) =>
    rw [placing?] at hp
    split_ifs at hp
    exact Option.some.inj hp ▸ nofun
  | (_, .slotMove slotId parentSlotId placement ownerUserId) =>
    obtain ⟨slot, hslot, hp⟩ := Option.bind_eq_some_iff.mp hp
    obtain ⟨_, -, rfl⟩ := Option.map_eq_some_iff.mp hp
    obtain ⟨hmem, rfl⟩ := mem_of_slotGet (Option.filter_eq_some_iff.mp hslot).1
    exact fun hnil ↦ h.nonempty slot hmem (Option.some.inj hnil)
  | (_, .initializePanels ..) | (_, .slotClose _) | (_, .slotCloseOwnedRoots _) => exact nomatch hp

/-- **Where a call puts its slot.** In every state of a run of creations and moves, a call that the storage accepts puts
its slot where its anchors ask exactly if the neighbours there leave room. -/
theorem places_exactly_iff (h : Reachable panelStep placesSlots .empty t) (he : placesSlots t e = true)
    (hp : placing? t e = some p) (hstored : attempt t e ≠ .error .constraint) :
    PlacesExactly t e p ↔ p.HasRoom t := by
  have hkept := slotsKept_of_reachable h
  obtain ⟨herror, hok⟩ := attempt_written hkept he hp
  -- a call that succeeds has written its slot
  have hwritten : ∀ t', attempt t e = .ok t' → ∃ t₁ key, p.allocate t = .ok (t₁, key) ∧ SlotsKept t₁ ∧
      p.Written t₁ key t' := by
    intro t' ht'
    match hallocate : p.allocate t with
    | .error err => exact nomatch (herror err hallocate).symm.trans ht'
    | .ok (t₁, key) =>
      rcases hok t₁ key hallocate with hrefused | ⟨t'', ht'', hw⟩
      · exact absurd hrefused hstored
      · obtain rfl := Except.ok.inj (ht''.symm.trans ht')
        exact ⟨t₁, key, rfl, hkept.sameTree (allocate_sameTree hallocate), hw⟩
  constructor
  · intro hexact k left right hpos
    obtain ⟨t', ht', hgroup⟩ := hexact.position (k + 1) hpos
    obtain ⟨t₁, key, hallocate, hkept₁, hw⟩ := hwritten t' ht'
    have horder := Placing.order_allocate hkept hallocate
    have hlength : k + 1 ≤ (p.order t₁).length := by
      rw [← List.length_map (f := (·.slotId)), horder, List.length_map]
      exact Placing.position_le hpos
    rw [← horder] at hgroup
    have hfits := ((hw.groupOrder hkept₁).2 (k + 1) hlength).mp hgroup
    exact (Placing.allocate_fits_iff hkept hpos).mp ⟨t₁, key, hallocate, hfits⟩ k left right hpos
  · refine fun hroom ↦ ⟨fun hdiverges ↦ ?_, fun pos hpos ↦ ?_, fun t' ht' ↦ ?_⟩
    · match hallocate : p.allocate t with
      | .error err =>
        obtain rfl := Except.error.inj ((herror err hallocate).symm.trans hdiverges)
        exact allocate_ne_diverges hkept.nonempty (exclude_ne_nil hkept hp) hallocate
      | .ok (t₁, key) =>
        rcases hok t₁ key hallocate with hrefused | ⟨t'', ht'', -⟩
        · exact hstored hrefused
        · exact nomatch ht''.symm.trans hdiverges
    · obtain ⟨t₁, key, hallocate, hfits⟩ := (Placing.allocate_fits_iff hkept hpos).mpr hroom
      have horder := Placing.order_allocate hkept hallocate
      have hkept₁ : SlotsKept t₁ := hkept.sameTree (allocate_sameTree hallocate)
      have hlength : pos ≤ (p.order t₁).length := by
        rw [← List.length_map (f := (·.slotId)), horder, List.length_map]
        exact Placing.position_le hpos
      rcases hok t₁ key hallocate with hrefused | ⟨t', ht', hw⟩
      · exact absurd hrefused hstored
      · exact ⟨t', ht', horder ▸ ((hw.groupOrder hkept₁).2 pos hlength).mpr hfits⟩
    · obtain ⟨t₁, key, hallocate, hkept₁, hw⟩ := hwritten t' ht'
      exact (hw.groupOrder hkept₁).1.trans (Placing.order_allocate hkept hallocate)

/-! ### Three roots -/

def slotC : PanelSlotId := ⟨lit "panel:tree/c", by decide +kernel⟩

/-- Three roots, each created above the ones before. -/
def threeRoots : List (Surroundings × PanelCall) :=
  [(atTime 1, .slotCreate ⟨slotA, none, none, none, none⟩), (atTime 2, .slotCreate ⟨slotB, none, none, none, none⟩),
    (atTime 3, .slotCreate ⟨slotC, none, none, none, none⟩)]

/-- The first root moves behind the last one, which its neighbour is one step away from. -/
def moveBehind (afterSlotId : Option JsString) : Surroundings × PanelCall :=
  (atTime 4, .slotMove slotA none (some ⟨some slotC, afterSlotId⟩) none)

/-- A move in these roots: where it is asked to go, and the group before, with its keys, and after. -/
structure MoveOutcome where
  position : Option ℕ
  keys : List ℤ
  before : List JsString
  after : List JsString
deriving DecidableEq

def outcome (t : PanelTables) (e : Surroundings × PanelCall) : Option MoveOutcome :=
  (placing? t e).bind fun p ↦ (attempt t e).toOption.map fun t' ↦
    ⟨p.position t, (p.order t).map (·.sortKey), (p.order t).map (·.slotId), p.groupOrder t'⟩

theorem outcome_cases {o : MoveOutcome} (h : outcome t e = some o) : ∃ p t', placing? t e = some p ∧
    attempt t e = .ok t' ∧ p.position t = o.position ∧ (p.order t).map (·.sortKey) = o.keys ∧
      (p.order t).map (·.slotId) = o.before ∧ p.groupOrder t' = o.after := by
  obtain ⟨p, hp, h⟩ := Option.bind_eq_some_iff.mp h
  obtain ⟨t', ht', rfl⟩ := Option.map_eq_some_iff.mp h
  refine ⟨p, t', hp, ?_, rfl, rfl, rfl, rfl⟩
  match hattempt : attempt t e with
  | .ok t'' => exact congrArg Except.ok (Option.some.inj ((congrArg Except.toOption hattempt).symm.trans ht'))
  | .error _ => exact nomatch (congrArg Except.toOption hattempt).symm.trans ht'

/-- With both anchors the root goes between them. -/
theorem places_exactly_between : ∃ t p, run panelStep placesSlots .empty threeRoots = some t ∧
    placing? t (moveBehind (some slotB)) = some p ∧ p.position t = some 1 ∧
    PlacesExactly t (moveBehind (some slotB)) p := by
  have hrun : (run panelStep placesSlots .empty threeRoots).bind (outcome · (moveBehind (some slotB))) =
      some ⟨some 1, [-2048, -1024], [slotC.val, slotB.val], [slotC.val, slotA.val, slotB.val]⟩ := by
    decide +kernel
  obtain ⟨t, ht, houtcome⟩ := Option.bind_eq_some_iff.mp hrun
  obtain ⟨p, t', hp, ht', hposition, hkeys, -, -⟩ := outcome_cases houtcome
  refine ⟨t, p, ht, hp, hposition, ?_⟩
  refine (places_exactly_iff (Reachable.init.run ht) rfl hp (ht' ▸ nofun)).mpr fun k left right hk hleft hright ↦ ?_
  obtain rfl := Nat.succ.inj (Option.some.inj (hposition.symm.trans hk))
  have hleftKey : left.sortKey = -2048 := by
    have hget := congrArg (Option.map SlotRow.sortKey) hleft
    rw [← List.getElem?_map, hkeys] at hget
    exact (Option.some.inj hget).symm
  have hrightKey : right.sortKey = -1024 := by
    have hget := congrArg (Option.map SlotRow.sortKey) hright
    rw [← List.getElem?_map, hkeys] at hget
    exact (Option.some.inj hget).symm
  obtain ⟨slot, -, hp⟩ := Option.bind_eq_some_iff.mp hp
  obtain ⟨owner, -, rfl⟩ := Option.map_eq_some_iff.mp hp
  have hroom : (-2048 : ℤ) < -1024 := by decide
  rw [hleftKey, hrightKey]
  exact hroom

/-- **With one anchor it goes behind the neighbour**, whose key is the same and which is newer. -/
theorem jumps_over : ¬∀ t e p, Reachable panelStep placesSlots .empty t → placesSlots t e = true →
    placing? t e = some p → attempt t e ≠ .error .constraint → PlacesExactly t e p := by
  intro h
  have hrun : (run panelStep placesSlots .empty threeRoots).bind (outcome · (moveBehind none)) =
      some ⟨some 1, [-2048, -1024], [slotC.val, slotB.val], [slotC.val, slotB.val, slotA.val]⟩ := by
    decide +kernel
  obtain ⟨t, ht, houtcome⟩ := Option.bind_eq_some_iff.mp hrun
  obtain ⟨p, t', hp, ht', hposition, -, hbefore, hafter⟩ := outcome_cases houtcome
  have hexact := h t (moveBehind none) p (Reachable.init.run ht) rfl hp (ht' ▸ nofun)
  obtain ⟨t'', ht'', hgroup⟩ := hexact.position 1 hposition
  obtain rfl := Except.ok.inj (ht'.symm.trans ht'')
  rw [hafter, hbefore] at hgroup
  have hslot : p.slotId = slotA := by
    obtain ⟨slot, -, hplaced⟩ := Option.bind_eq_some_iff.mp hp
    obtain ⟨owner, -, rfl⟩ := Option.map_eq_some_iff.mp hplaced
    rfl
  rw [hslot] at hgroup
  exact absurd hgroup (by decide +kernel)

end Vibestudio.WorkspaceState

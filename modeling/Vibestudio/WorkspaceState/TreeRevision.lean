import Mathlib
import Vibestudio.WorkspaceState.EntityGc

/-!
# What the tree revision stands for

Triggers advance the revision of the panel tree with every row that is written to `slots`, or to the history of an open
slot. So between two reads with the same revision no call has changed either of them.
-/

namespace Vibestudio.WorkspaceState

open Js Transition Vibestudio.Shared PanelTables

/-- The revision grows, and while it stays the same so do the slots and the histories of the open ones. -/
structure Tracked (t t' : PanelTables) : Prop where
  le : t.panelTreeRevision ≤ t'.panelTreeRevision
  slots : t'.panelTreeRevision = t.panelTreeRevision → t'.slots = t.slots
  history : t'.panelTreeRevision = t.panelTreeRevision → ∀ slot ∈ t.openSlots,
    t'.historyOf slot.slotId = t.historyOf slot.slotId

namespace Tracked

variable {t t₁ t' : PanelTables} {db : Surroundings}

theorem of_same (hslots : t'.slots = t.slots) (hhistory : t'.slotHistory = t.slotHistory)
    (hrevision : t.panelTreeRevision ≤ t'.panelTreeRevision) : Tracked t t' := by
  refine ⟨hrevision, fun _ ↦ hslots, fun _ slot _ ↦ ?_⟩
  rw [historyOf, hhistory, historyOf]

theorem refl (t : PanelTables) : Tracked t t := of_same rfl rfl le_rfl

theorem trans (h : Tracked t t₁) (h' : Tracked t₁ t') : Tracked t t' := by
  have hboth (heq : t'.panelTreeRevision = t.panelTreeRevision) :
      t₁.panelTreeRevision = t.panelTreeRevision ∧ t'.panelTreeRevision = t₁.panelTreeRevision := by
    have := h.le
    have := h'.le
    omega
  refine ⟨h.le.trans h'.le, fun heq ↦ (h'.slots (hboth heq).2).trans (h.slots (hboth heq).1), fun heq slot hslot ↦ ?_⟩
  have hslot' : slot ∈ t₁.openSlots := by
    rw [openSlots, h.slots (hboth heq).1]
    exact hslot
  exact (h'.history (hboth heq).2 slot hslot').trans (h.history (hboth heq).1 slot hslot)

/-! ## Writes -/

theorem updateSlots (t : PanelTables) (p : SlotRow → Bool) (f : SlotRow → SlotRow) : Tracked t (t.updateSlots p f) := by
  refine ⟨Nat.le_add_right _ _, fun heq ↦ ?_, fun _ _ _ ↦ rfl⟩
  have hnone : t.slots.countP p = 0 := Nat.add_eq_left.mp heq
  refine (List.map_congr_left fun row hrow ↦ ?_).trans (List.map_id' t.slots)
  exact if_neg (List.countP_eq_zero.mp hnone row hrow)

theorem allocate {parent owner exclude : Option JsString} {placement : Option PanelTreePlacement} (n : ℕ) :
    ∀ {t : PanelTables} {key : ℤ}, allocatePanelTreeOrderKey parent owner placement exclude n t = .ok (t', key) →
      Tracked t t' := by
  induction n with
  | zero =>
    intro t key ht
    exact nomatch ht
  | succ n ih =>
    intro t key ht
    obtain ⟨o, -, ht⟩ := bind_eq_ok.mp ht
    cases o with
    | some key' => exact (Prod.mk.inj (Except.ok.inj ht)).1 ▸ refl t
    | none => exact (updateSlots t _ _).trans (ih ht)

theorem insertSlot {row : SlotRow} (ht : insertSlot db row t = .ok t') : Tracked t t' := by
  rw [WorkspaceState.insertSlot] at ht
  split at ht
  · cases ht
  obtain rfl := Except.ok.inj ht
  exact ⟨Nat.le_succ _, fun heq ↦ absurd heq (Nat.succ_ne_self _), fun heq ↦ absurd heq (Nat.succ_ne_self _)⟩

/-- A write to the history of one slot, which counts if the slot is open. -/
theorem history_write (slotId : JsString) (hslots : t'.slots = t.slots)
    (hother : ∀ id ≠ slotId, t'.historyOf id = t.historyOf id) {n : ℕ}
    (hrevision : t'.panelTreeRevision = t.panelTreeRevision + if t.slotIsOpen slotId then n else 0)
    (hnone : n = 0 → t'.historyOf slotId = t.historyOf slotId) : Tracked t t' := by
  refine ⟨hrevision ▸ Nat.le_add_right _ _, fun _ ↦ hslots, fun heq slot hslot ↦ ?_⟩
  by_cases hid : slot.slotId = slotId
  · have hopen : t.slotIsOpen slotId = true := List.any_eq_true.mpr ⟨slot, hslot, decide_eq_true hid⟩
    rw [hrevision, if_pos hopen] at heq
    exact hid ▸ hnone (Nat.add_eq_left.mp heq)
  · exact hother _ hid

theorem appendHistoryRow {slotId : JsString} {cursor : ℕ} {entry : SlotHistoryEntryInput}
    (ht : appendHistoryRow db slotId cursor entry t = .ok t') : Tracked t t' := by
  obtain ⟨-, hslots, hhistory⟩ := appendHistoryRow_cases ht
  rw [WorkspaceState.appendHistoryRow] at ht
  split at ht
  · cases ht
  have hrevision := congrArg panelTreeRevision (Except.ok.inj ht).symm
  refine history_write slotId hslots (fun id hid ↦ ?_) hrevision (by rintro ⟨⟩)
  rw [historyOf, hhistory, List.filter_append, List.filter_singleton]
  have hne : decide ((entryRow slotId cursor entry db.now).slotId = id) = false := decide_eq_false (Ne.symm hid)
  rw [hne]
  exact List.append_nil _

/-- The rows of other slots, which a condition on the slot leaves out. -/
theorem historyOf_deleteHistory (t : PanelTables) {slotId id : JsString} (p : ℕ → Bool) (hid : id ≠ slotId) :
    (t.deleteHistory slotId p).historyOf id = t.historyOf id := by
  rw [historyOf, PanelTables.deleteHistory, List.filter_filter, historyOf]
  refine List.filter_congr fun row _ ↦ Bool.and_eq_left_iff_imp.mpr fun hrow ↦ ?_
  have hne : decide (row.slotId = slotId) = false := decide_eq_false ((of_decide_eq_true hrow).trans_ne hid)
  simp only [hne, Bool.false_and, Bool.not_false]

theorem deleteHistory (t : PanelTables) (slotId : JsString) (p : ℕ → Bool) : Tracked t (t.deleteHistory slotId p) := by
  refine history_write slotId rfl (fun id ↦ historyOf_deleteHistory t p) rfl fun hnone ↦ ?_
  have hkeep : (t.deleteHistory slotId p).slotHistory = t.slotHistory := by
    refine List.filter_eq_self.mpr fun row hrow ↦ ?_
    rw [Bool.not_eq_true', ← Bool.not_eq_true]
    exact List.countP_eq_zero.mp hnone row hrow
  rw [historyOf, hkeep, historyOf]

theorem setHistoryStateArgs (t : PanelTables) (slotId entryKey stateArgs : JsString) :
    Tracked t (t.setHistoryStateArgs slotId entryKey stateArgs) := by
  refine history_write slotId rfl (fun id hid ↦ ?_) rfl fun hnone ↦ ?_
  · rw [historyOf, PanelTables.setHistoryStateArgs, List.filter_map]
    -- a row that is written stays a row of this slot
    have hsame : ((fun row : SlotHistoryRow ↦ decide (row.slotId = id)) ∘ fun row ↦
        if decide (row.slotId = slotId ∧ row.entryKey = entryKey) = true then
          { row with stateArgs := some stateArgs } else row) = fun row ↦ decide (row.slotId = id) := by
      funext row
      simp only [Function.comp_apply]
      split
      · rfl
      · rfl
    rw [hsame]
    refine (List.map_congr_left fun row hrow ↦ if_neg ?_).trans (List.map_id' _)
    rw [decide_eq_true_eq]
    exact fun hhit ↦ hid ((of_decide_eq_true (List.mem_filter.mp hrow).2).symm.trans hhit.1)
  · have hkeep : (t.setHistoryStateArgs slotId entryKey stateArgs).slotHistory = t.slotHistory :=
      (List.map_congr_left fun row hrow ↦ if_neg (List.countP_eq_zero.mp hnone row hrow)).trans (List.map_id' _)
    rw [historyOf, hkeep, historyOf]

/-! ## Calls -/

theorem slotCreate {input : SlotCreateInput} (ht : slotCreate db input t = .ok t') : Tracked t t' := by
  rw [WorkspaceState.slotCreate] at ht
  split at ht
  · cases ht
  split at ht
  · obtain ⟨_, -, rfl⟩ := map_eq_ok.mp ht
    exact refl t
  obtain ⟨⟨t₁, sortKey⟩, hallocate, ht⟩ := bind_eq_ok.mp ht
  obtain ⟨t₂, hinsert, ht⟩ := bind_eq_ok.mp ht
  have hinserted : Tracked t t₂ := (allocate _ hallocate).trans (insertSlot hinsert)
  split at ht
  · exact Except.ok.inj ht ▸ hinserted
  · exact hinserted.trans (appendHistoryRow ht)

theorem slotMove {slotId : JsString} {parentSlotId ownerUserId : Option JsString} {placement : Option PanelTreePlacement}
    (ht : slotMove slotId parentSlotId placement ownerUserId t = .ok t') : Tracked t t' := by
  obtain ⟨slot, -, ht⟩ := bind_eq_ok.mp ht
  split at ht
  · exact nomatch ht
  obtain ⟨owner, -, ht⟩ := bind_eq_ok.mp ht
  obtain ⟨⟨t₁, sortKey⟩, hallocate, ht⟩ := bind_eq_ok.mp ht
  simp only at ht
  split at ht
  · exact nomatch ht
  obtain rfl := Except.ok.inj ht
  exact (allocate _ hallocate).trans ((updateSlots _ _ _).trans (updateSlots _ _ _))

theorem slotClose {slotId : JsString} {result : PanelCloseResult} (ht : slotClose db slotId t = .ok (t', result)) :
    Tracked t t' := by
  obtain ⟨root, -, ht⟩ := bind_eq_ok.mp ht
  split at ht
  · exact (Prod.mk.inj (Except.ok.inj ht)).1 ▸ refl t
  split at ht
  · exact nomatch ht
  next subtree _ =>
    obtain ⟨rfl, -⟩ := Prod.mk.inj (Except.ok.inj ht)
    have hqueued : Tracked t (queueCleanup db slotId subtree t) := of_same rfl rfl le_rfl
    exact hqueued.trans (updateSlots _ _ _)

theorem closeAll (ids : List JsString) : ∀ t : PanelTables, Tracked t (closeAll db ids t).1 := by
  induction ids with
  | nil => exact refl
  | cons slotId rest ih =>
    intro t
    rw [WorkspaceState.closeAll]
    split
    · exact refl t
    next t₁ _ ht => exact (slotClose ht).trans (ih t₁)

theorem slotCloseOwnedRoots (t : PanelTables) (ownerUserId : JsString) :
    Tracked t (slotCloseOwnedRoots db ownerUserId t).1 := by
  rw [WorkspaceState.slotCloseOwnedRoots]
  split_ifs
  · exact refl t
  · exact closeAll _ t

theorem normalizeOwner (t : PanelTables) (owner : JsString) : Tracked t (normalizeOwner owner t) := by
  rw [WorkspaceState.normalizeOwner]
  split_ifs
  · exact (updateSlots t _ _).trans (of_same rfl rfl le_rfl)
  · exact refl t

theorem seedPanels {owner : Option JsString} (inputs : List InitPanelEntry) :
    ∀ {db db' : Surroundings} {slotIds slotIds' : List JsString} {t : PanelTables},
      seedPanels owner inputs db slotIds t = .ok (t', db', slotIds') → Tracked t t' := by
  induction inputs with
  | nil =>
    intro db db' slotIds slotIds' t ht
    exact (Prod.mk.inj (Except.ok.inj ht)).1 ▸ refl t
  | cons input rest ih =>
    intro db db' slotIds slotIds' t ht
    rw [WorkspaceState.seedPanels] at ht
    split at ht
    · cases ht
    obtain ⟨t₁, hcreate, ht⟩ := bind_eq_ok.mp ht
    exact (slotCreate hcreate).trans (ih ht)

theorem initializePanels {inputs : List InitPanelEntry} {owner : Option JsString} {details : List PanelDetail}
    (ht : initializePanels db inputs owner t = .ok (t', details)) : Tracked t t' := by
  obtain ⟨⟨t₁, db₁, slotIds⟩, hadopt, ht⟩ := map_eq_ok.mp ht
  obtain ⟨rfl, -⟩ := Prod.mk.inj ht
  have hnormalized : Tracked t ((owner.filter (· ≠ [])).elim t (WorkspaceState.normalizeOwner · t)) := by
    match owner.filter (· ≠ []) with
    | none => exact refl t
    | some owner => exact normalizeOwner t owner
  rw [adoptSeed] at hadopt
  split at hadopt
  · exact (Prod.mk.inj (Except.ok.inj hadopt)).1 ▸ hnormalized
  obtain ⟨⟨t₂, db₂, slotIds₂⟩, hseed, hadopt⟩ := map_eq_ok.mp hadopt
  obtain ⟨rfl, -⟩ := Prod.mk.inj hadopt
  refine (hnormalized.trans ?_).trans (of_same (t := t₂) rfl rfl le_rfl)
  split at hseed
  · exact seedPanels _ hseed
  · exact (Prod.mk.inj (Except.ok.inj hseed)).1 ▸ refl _

theorem mutateHistory {env : NavigationSurroundings} {slotId : JsString} {current cursor : ℕ} {mutation : SlotMutation}
    {target : SlotHistoryEntryInput} (h : mutateHistory env slotId current mutation t = .ok (t', target, cursor)) :
    Tracked t t' := by
  cases mutation with
  | select entryKey =>
    rw [WorkspaceState.mutateHistory] at h
    split at h
    · cases h
    · exact (Prod.mk.inj (Except.ok.inj h)).1 ▸ refl t
  | append entry | replace entry =>
    obtain ⟨t₁, happend, h⟩ := map_eq_ok.mp h
    obtain ⟨rfl, -⟩ := Prod.mk.inj h
    exact (deleteHistory t _ _).trans (appendHistoryRow (mapError_eq_ok happend))

theorem navigate {env : NavigationSurroundings} {input : SlotCommitPreparedNavigationInput}
    {result : SlotCommitPreparedNavigationResult} (ht : slotCommitPreparedNavigation env input t = .ok (t', result)) :
    Tracked t t' := by
  rw [slotCommitPreparedNavigation] at ht
  split at ht
  · cases ht
  obtain ⟨slot, -, ht⟩ := bind_eq_ok.mp ht
  obtain ⟨entryKey, -, ht⟩ := bind_eq_ok.mp ht
  split at ht
  · cases ht
  obtain ⟨⟨t₁, target, cursor⟩, hmutate, ht⟩ := bind_eq_ok.mp ht
  obtain ⟨_, -, ht⟩ := map_eq_ok.mp ht
  obtain ⟨rfl, -⟩ := Prod.mk.inj ht
  exact (mutateHistory hmutate).trans (updateSlots t₁ _ _)

theorem patch {env : NavigationSurroundings} {slotId : JsString} {patch : JsData} {expected : ExpectedPanelState}
    {result : PatchedStateArgs} (ht : slotPatchCurrentStateArgs env slotId patch expected t = .ok (t', result)) :
    Tracked t t' := by
  obtain ⟨slot, -, ht⟩ := bind_eq_ok.mp ht
  split at ht
  · exact nomatch ht
  split at ht
  · exact nomatch ht
  simp only at ht
  split at ht
  · exact nomatch ht
  split at ht
  · exact nomatch ht
  obtain ⟨current, -, ht⟩ := bind_eq_ok.mp ht
  obtain ⟨next, -, ht⟩ := map_eq_ok.mp ht
  obtain ⟨rfl, -⟩ := Prod.mk.inj ht
  exact (setHistoryStateArgs t _ _ _).trans (of_same rfl rfl (Nat.le_add_right _ _))

theorem committed {result : Except PanelError PanelTables} (h : ∀ t', result = .ok t' → Tracked t t') :
    Tracked t (committed t result) := by
  match result with
  | .ok t' => exact h t' rfl
  | .error _ => exact refl t

theorem historyPerform (t : PanelTables) (e : NavigationSurroundings × HistoryCall) : Tracked t (historyPerform t e) := by
  obtain ⟨env, call⟩ := e
  cases call with
  | panel call =>
    cases call with
    | initializePanels inputs owner =>
      refine committed fun t' ht ↦ ?_
      obtain ⟨⟨t₁, details⟩, hinit, rfl⟩ := map_eq_ok.mp ht
      exact initializePanels hinit
    | slotCreate input => exact committed fun _ ↦ slotCreate
    | slotMove slotId parent placement owner => exact committed fun _ ↦ slotMove
    | slotClose slotId =>
      refine committed fun t' ht ↦ ?_
      obtain ⟨⟨t₁, result⟩, hclose, rfl⟩ := map_eq_ok.mp ht
      exact slotClose hclose
    | slotCloseOwnedRoots owner => exact slotCloseOwnedRoots t owner
  | slotCommitPreparedNavigation input =>
    rw [WorkspaceState.historyPerform]
    cases h : WorkspaceState.slotCommitPreparedNavigation env input t with
    | ok r => exact navigate h
    | error _ => exact refl t
  | slotPatchCurrentStateArgs slotId args expected =>
    rw [WorkspaceState.historyPerform]
    cases h : WorkspaceState.slotPatchCurrentStateArgs env slotId args expected t with
    | ok r => exact patch h
    | error _ => exact refl t

end Tracked

/-! ## Runs -/

namespace WorkspaceTables

variable {env : WorkspaceSurroundings} {w w' : WorkspaceTables}

theorem tracked_deleteEntities {foreignKeys : Bool} (ids : List JsString) : ∀ {w : WorkspaceTables},
    deleteEntities foreignKeys ids w = .ok w' → Tracked w.panels w'.panels := by
  induction ids with
  | nil => exact fun h ↦ Except.ok.inj h ▸ .refl _
  | cons id ids ih =>
    intro w h
    rw [deleteEntities] at h
    split at h
    · cases h
    have hdeleted : Tracked w.panels (w.deleteEntity id).panels := .of_same rfl rfl (Nat.le_add_right _ _)
    exact hdeleted.trans (ih h)

theorem tracked_committedOr {result : Except WorkspaceError WorkspaceTables}
    (h : ∀ w', result = .ok w' → Tracked w.panels w'.panels) : Tracked w.panels (w.committedOr result).panels := by
  match result with
  | .ok w' => exact h w' rfl
  | .error _ => exact .refl _

/-- **What a call does to the tree, the revision says.** -/
theorem tracked_perform (w : WorkspaceTables) (env : WorkspaceSurroundings) (call : WorkspaceCall) :
    Tracked w.panels (w.perform env call).panels := by
  cases call with
  | entity uuid call | runtimeResourceBindingsRelease entityId => exact .refl _
  | entityPatchStateArgs id args activeBuildKey schema =>
    refine tracked_committedOr fun w' h ↦ ?_
    rw [entityPatchStateArgs] at h
    split at h
    · cases h
    split_ifs at h
    · obtain ⟨_, -, h⟩ := bind_eq_ok.mp h
      obtain ⟨_, -, rfl⟩ := map_eq_ok.mp h
      exact .refl _
  | entityGc opts =>
    refine tracked_committedOr fun w' h ↦ ?_
    obtain ⟨⟨w₁, ids⟩, hgc, rfl⟩ := map_eq_ok.mp h
    obtain ⟨w₂, hdelete, hw₁⟩ := map_eq_ok.mp hgc
    obtain ⟨rfl, -⟩ := Prod.mk.inj hw₁
    exact tracked_deleteEntities _ hdelete
  | initializePanels inputs owner =>
    refine tracked_committedOr fun w' h ↦ ?_
    obtain ⟨⟨entities, entries⟩, -, h⟩ := bind_eq_ok.mp h
    obtain ⟨⟨panels, details⟩, hinit, rfl⟩ := map_eq_ok.mp h
    exact Tracked.initializePanels (mapError_eq_ok hinit)
  | slotCreate input => exact Tracked.historyPerform w.panels (_, .panel (.slotCreate input))
  | slotMove slotId parent placement owner =>
    exact Tracked.historyPerform w.panels (panelSurroundings env w, .panel (.slotMove slotId parent placement owner))
  | slotClose slotId => exact Tracked.historyPerform w.panels (_, .panel (.slotClose slotId))
  | slotCloseOwnedRoots owner => exact Tracked.historyPerform w.panels (_, .panel (.slotCloseOwnedRoots owner))
  | slotCloseCleanupAck slotIds =>
    refine tracked_committedOr fun w' h ↦ ?_
    rw [slotCloseCleanupAck] at h
    split at h
    · cases h
    · exact Except.ok.inj h ▸ .of_same rfl rfl le_rfl
  | slotCommitPreparedNavigation input =>
    exact Tracked.historyPerform w.panels (_, .slotCommitPreparedNavigation input)
  | slotPatchCurrentStateArgs slotId args expected =>
    refine tracked_committedOr fun w' h ↦ ?_
    obtain ⟨⟨panels, patched⟩, hpatch, rfl⟩ := map_eq_ok.mp h
    have htracked := Tracked.patch (mapError_eq_ok hpatch)
    simp only
    cases patched.entityWrite with
    | none => exact htracked
    | some _ => exact htracked

/-- **While the revision stays the same, so do the slots** and the histories of the open ones. -/
theorem tracked_of_reachable (h : Reachable workspaceStep anyStep w w') : Tracked w.panels w'.panels := by
  refine h.invariant (I := fun w' : WorkspaceTables ↦ Tracked w.panels w'.panels) (.refl _) fun s s' e hs _ hstep ↦ ?_
  rw [← Option.some.inj hstep]
  exact hs.trans (tracked_perform s e.1 e.2)

end WorkspaceTables

end Vibestudio.WorkspaceState

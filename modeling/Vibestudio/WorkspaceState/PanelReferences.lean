import Mathlib
import Vibestudio.WorkspaceState.SlotPointers

/-!
# The entities that a panel refers to

Every entity that a slot or a queued clean-up names stands in the history of that slot: an entry brings it there, and
only the navigation of an open slot takes rows away again, to point the slot at the row it leaves. So whatever keeps the
entities of the histories keeps all of them.
-/

namespace Vibestudio.WorkspaceState

open Js Vibestudio.Shared

/-- The references of the panel tables, when `known` are the entities there are. -/
structure PanelReferences (known : JsString → Prop) (t : PanelTables) : Prop where
  entries : ∀ r ∈ t.slotHistory, known r.entityId
  pointers : ∀ slot ∈ t.slots, ∀ e ∈ slot.currentEntityId, ∃ r ∈ t.slotHistory, r.slotId = slot.slotId ∧ r.entityId = e
  queuedSlots : ∀ q ∈ t.panelCloseCleanup, ∃ slot ∈ t.slots, slot.slotId = q.slotId
  queuedClosed : ∀ q ∈ t.panelCloseCleanup, ∀ slot ∈ t.slots, slot.slotId = q.slotId → slot.closedAt ≠ none
  queued : ∀ q ∈ t.panelCloseCleanup, ∀ e ∈ q.entityId, ∃ r ∈ t.slotHistory, r.slotId = q.slotId ∧ r.entityId = e

theorem panelReferences_empty (known : JsString → Prop) : PanelReferences known .empty :=
  ⟨nofun, nofun, nofun, nofun, nofun⟩

namespace PanelReferences

variable {known known' : JsString → Prop} {t t' : PanelTables} {db : Surroundings}

theorem mono (h : PanelReferences known t) (hle : ∀ r ∈ t.slotHistory, known r.entityId → known' r.entityId) :
    PanelReferences known' t :=
  ⟨fun r hr ↦ hle r hr (h.entries r hr), h.pointers, h.queuedSlots, h.queuedClosed, h.queued⟩

theorem of_same (h : PanelReferences known t) (hslots : t'.slots = t.slots) (hhistory : t'.slotHistory = t.slotHistory)
    (hqueue : t'.panelCloseCleanup = t.panelCloseCleanup) : PanelReferences known t' := by
  obtain ⟨slots, history, queue, revision, panels⟩ := t'
  subst hslots hhistory hqueue
  exact ⟨h.entries, h.pointers, h.queuedSlots, h.queuedClosed, h.queued⟩

/-- Slots are written without a new pointer, and none is opened. -/
theorem updateSlots (h : PanelReferences known t) {p : SlotRow → Bool} {f : SlotRow → SlotRow}
    (hid : ∀ slot, (f slot).slotId = slot.slotId)
    (hcurrent : ∀ slot, ∀ e ∈ (f slot).currentEntityId, slot.currentEntityId = some e)
    (hclosed : ∀ slot, slot.closedAt ≠ none → (f slot).closedAt ≠ none) : PanelReferences known (t.updateSlots p f) := by
  refine ⟨h.entries, fun slot' hslot' e he ↦ ?_, fun q hq ↦ ?_, fun q hq slot' hslot' hslotId ↦ ?_, h.queued⟩
  · obtain ⟨slot, hslot, rfl⟩ := List.mem_map.mp hslot'
    split_ifs at he ⊢
    · rw [hid]
      exact h.pointers slot hslot e (hcurrent slot e he)
    · exact h.pointers slot hslot e he
  · obtain ⟨slot, hslot, hslotId⟩ := h.queuedSlots q hq
    refine ⟨_, List.mem_map_of_mem hslot, ?_⟩
    split_ifs
    · exact (hid slot).trans hslotId
    · exact hslotId
  · obtain ⟨slot, hslot, rfl⟩ := List.mem_map.mp hslot'
    split_ifs at hslotId ⊢
    · exact hclosed slot (h.queuedClosed q hq slot hslot ((hid slot).symm.trans hslotId))
    · exact h.queuedClosed q hq slot hslot hslotId

theorem rebalance (h : PanelReferences known t) (parent owner exclude : Option JsString) :
    PanelReferences known (t.rebalancePanelTreeGroup parent owner exclude) :=
  h.updateSlots (fun _ ↦ rfl) (fun _ _ he ↦ he) fun _ hclosed ↦ hclosed

theorem allocate {parent owner exclude : Option JsString} {placement : Option PanelTreePlacement} (n : ℕ) :
    ∀ {t : PanelTables} {key : ℤ}, PanelReferences known t →
      PanelTables.allocatePanelTreeOrderKey parent owner placement exclude n t = .ok (t', key) →
      PanelReferences known t' := by
  induction n with
  | zero =>
    intro t key _ ht
    exact nomatch ht
  | succ n ih =>
    intro t key h ht
    obtain ⟨o, -, ht⟩ := bind_eq_ok.mp ht
    cases o with
    | some key' => exact (Prod.mk.inj (Except.ok.inj ht)).1 ▸ h
    | none => exact ih (h.rebalance parent owner exclude) ht

/-! ## Entries -/

/-- **An entry is committed** to a slot, some rows of which give way, and the slot points at it. No other slot and no
queued clean-up had its entity there. -/
theorem commit (h : PanelReferences known t) (new : SlotHistoryRow) (keep : SlotHistoryRow → Bool)
    (hknown : known new.entityId) (hkeep : ∀ r, r.slotId ≠ new.slotId → keep r = true)
    (hhistory : t'.slotHistory = t.slotHistory.filter keep ++ [new])
    (hpointers : ∀ slot ∈ t'.slots, ∀ e ∈ slot.currentEntityId, slot.slotId = new.slotId ∧ e = new.entityId ∨
      slot.slotId ≠ new.slotId ∧ ∃ r ∈ t.slotHistory, r.slotId = slot.slotId ∧ r.entityId = e)
    (hqueue : t'.panelCloseCleanup = t.panelCloseCleanup)
    (hqueuedSlots : ∀ q ∈ t.panelCloseCleanup, q.slotId ≠ new.slotId ∧ (∃ slot ∈ t'.slots, slot.slotId = q.slotId) ∧
      ∀ slot ∈ t'.slots, slot.slotId = q.slotId → slot.closedAt ≠ none) : PanelReferences known t' := by
  have hnew : new ∈ t'.slotHistory := hhistory ▸ List.mem_append_right _ (List.mem_singleton_self new)
  have hold : ∀ r ∈ t.slotHistory, r.slotId ≠ new.slotId → r ∈ t'.slotHistory := fun r hr hne ↦
    hhistory ▸ List.mem_append_left _ (List.mem_filter.mpr ⟨hr, hkeep r hne⟩)
  refine ⟨fun r hr ↦ ?_, fun slot hslot e he ↦ ?_, fun q hq ↦ ?_, fun q hq ↦ ?_, fun q hq e he ↦ ?_⟩
  · rw [hhistory] at hr
    rcases List.mem_append.mp hr with hr | hr
    · exact h.entries r (List.mem_of_mem_filter hr)
    · exact List.mem_singleton.mp hr ▸ hknown
  · rcases hpointers slot hslot e he with ⟨hslotId, rfl⟩ | ⟨hne, r, hr, hslotId, hentity⟩
    · exact ⟨new, hnew, hslotId.symm, rfl⟩
    · exact ⟨r, hold r hr (hslotId ▸ hne), hslotId, hentity⟩
  · exact (hqueuedSlots q (hqueue ▸ hq)).2.1
  · exact (hqueuedSlots q (hqueue ▸ hq)).2.2
  · obtain ⟨r, hr, hslotId, hentity⟩ := h.queued q (hqueue ▸ hq) e he
    exact ⟨r, hold r hr (hslotId ▸ (hqueuedSlots q (hqueue ▸ hq)).1), hslotId, hentity⟩

theorem insertSlot_queue {row : SlotRow} (h : insertSlot db row t = .ok t') :
    t'.panelCloseCleanup = t.panelCloseCleanup := by
  rw [insertSlot] at h
  split at h
  · cases h
  · exact (Except.ok.inj h) ▸ rfl

theorem appendHistoryRow_queue {slotId : JsString} {cursor : ℕ} {entry : SlotHistoryEntryInput}
    (h : appendHistoryRow db slotId cursor entry t = .ok t') : t'.panelCloseCleanup = t.panelCloseCleanup := by
  rw [appendHistoryRow] at h
  split at h
  · cases h
  · exact (Except.ok.inj h) ▸ rfl

/-- The `REFERENCES` clause of an entry. -/
theorem appendHistoryRow_entities {slotId : JsString} {cursor : ℕ} {entry : SlotHistoryEntryInput}
    (hforeign : db.foreignKeys = true) (h : appendHistoryRow db slotId cursor entry t = .ok t') :
    db.entities entry.entityId = true := by
  rw [appendHistoryRow, hforeign] at h
  split at h
  · cases h
  next hok =>
    rw [Bool.or_eq_true, not_or, Bool.true_and, Bool.not_eq_true', Bool.not_eq_false, Bool.and_eq_true] at hok
    exact hok.2.2

/-- A slot that is new points at the entity of its first entry. -/
theorem slotCreate {input : SlotCreateInput} (h : PanelReferences known t)
    (hknown : db.foreignKeys = true → ∀ id, db.entities id = true → known id)
    (hnamed : db.foreignKeys = true ∨ ∀ entry ∈ input.initialEntry, known entry.entityId)
    (ht : slotCreate db input t = .ok t') : PanelReferences known t' := by
  rw [WorkspaceState.slotCreate] at ht
  split at ht
  · cases ht
  split at ht
  · obtain ⟨_, -, rfl⟩ := map_eq_ok.mp ht
    exact h
  obtain ⟨⟨t₁, sortKey⟩, hallocate, ht⟩ := bind_eq_ok.mp ht
  obtain ⟨t₂, hinsert, ht⟩ := bind_eq_ok.mp ht
  have h₁ := h.allocate _ hallocate
  obtain ⟨hfresh, hslots, hhistory⟩ := insertSlot_cases hinsert
  have hqueue := insertSlot_queue hinsert
  -- no clean-up is queued for a slot that was not there
  have hqueued : ∀ q ∈ t₁.panelCloseCleanup, q.slotId ≠ input.slotId ∧ (∃ slot ∈ t₂.slots, slot.slotId = q.slotId) ∧
      ∀ slot ∈ t₂.slots, slot.slotId = q.slotId → slot.closedAt ≠ none := by
    intro q hq
    obtain ⟨slot, hslot, hslotId⟩ := h₁.queuedSlots q hq
    have hne : q.slotId ≠ input.slotId := hslotId ▸ hfresh slot hslot
    refine ⟨hne, ⟨slot, hslots ▸ List.mem_append_left _ hslot, hslotId⟩, fun slot' hslot' hslotId' ↦ ?_⟩
    rw [hslots] at hslot'
    rcases List.mem_append.mp hslot' with hslot' | hslot'
    · exact h₁.queuedClosed q hq slot' hslot' hslotId'
    · exact absurd (hslotId'.symm.trans (congrArg SlotRow.slotId (List.mem_singleton.mp hslot'))) hne
  cases hentry : input.initialEntry with
  | none =>
    rw [hentry] at ht hslots
    obtain rfl := Except.ok.inj ht
    refine ⟨hhistory ▸ h₁.entries, fun slot hslot e he ↦ ?_, fun q hq ↦ (hqueued q (hqueue ▸ hq)).2.1,
      fun q hq ↦ (hqueued q (hqueue ▸ hq)).2.2, fun q hq ↦ hhistory ▸ h₁.queued q (hqueue ▸ hq)⟩
    rw [hslots] at hslot
    rcases List.mem_append.mp hslot with hslot | hslot
    · exact hhistory ▸ h₁.pointers slot hslot e he
    · obtain rfl := List.mem_singleton.mp hslot
      cases he
  | some entry =>
    rw [hentry] at ht hslots
    obtain ⟨-, hslots', hhistory'⟩ := appendHistoryRow_cases ht
    have hentity : known entry.entityId := by
      rcases hnamed with hforeign | hnamed
      · exact hknown hforeign _ (appendHistoryRow_entities hforeign ht)
      · exact hnamed entry hentry
    have hqueue' := (appendHistoryRow_queue ht).trans hqueue
    refine h₁.commit (entryRow input.slotId 0 entry db.now) (fun _ ↦ true) hentity (fun _ _ ↦ rfl)
      (by rw [hhistory', hhistory, List.filter_true]) (fun slot hslot e he ↦ ?_) hqueue' fun q hq ↦ hslots' ▸ hqueued q hq
    rw [hslots', hslots] at hslot
    rcases List.mem_append.mp hslot with hslot | hslot
    · exact .inr ⟨hfresh slot hslot, h₁.pointers slot hslot e he⟩
    · obtain rfl := List.mem_singleton.mp hslot
      exact .inl ⟨rfl, (Option.some.inj he).symm⟩

theorem slotMove {slotId : JsString} {parentSlotId ownerUserId : Option JsString}
    {placement : Option PanelTreePlacement} (h : PanelReferences known t)
    (ht : slotMove slotId parentSlotId placement ownerUserId t = .ok t') : PanelReferences known t' := by
  obtain ⟨slot, -, ht⟩ := bind_eq_ok.mp ht
  split at ht
  · exact nomatch ht
  obtain ⟨owner, -, ht⟩ := bind_eq_ok.mp ht
  obtain ⟨⟨t₁, sortKey⟩, hallocate, ht⟩ := bind_eq_ok.mp ht
  have h₁ := h.allocate _ hallocate
  simp only at ht
  split at ht
  · exact nomatch ht
  obtain rfl := Except.ok.inj ht
  apply updateSlots
  · exact h₁.updateSlots (fun _ ↦ rfl) (fun _ _ he ↦ he) fun _ hclosed ↦ hclosed
  · exact fun _ ↦ rfl
  · exact fun _ _ he ↦ he
  · exact fun _ hclosed ↦ hclosed

/-! ## Closing -/

/-- The rows that a slot brings into the queue: none, or one with its entity. -/
theorem mem_queueCleanupRow {closeId : JsString} {queue : List PanelCloseCleanupRow} {row : SlotRow}
    {q : PanelCloseCleanupRow} (hq : q ∈ queueCleanupRow db closeId queue row) :
    q ∈ queue ∨ q.slotId = row.slotId ∧ q.entityId = row.currentEntityId := by
  rw [queueCleanupRow] at hq
  split at hq
  · exact .inl hq
  · rcases List.mem_append.mp hq with hq | hq
    · exact .inl hq
    · rw [List.mem_singleton.mp hq]
      exact .inr ⟨rfl, rfl⟩

theorem mem_queueCleanup {closeId : JsString} {rows : List SlotRow} : ∀ {queue : List PanelCloseCleanupRow}
    {q : PanelCloseCleanupRow}, q ∈ rows.foldl (queueCleanupRow db closeId) queue →
      q ∈ queue ∨ ∃ row ∈ rows, q.slotId = row.slotId ∧ q.entityId = row.currentEntityId := by
  induction rows with
  | nil => exact fun hq ↦ .inl hq
  | cons row rows ih =>
    intro queue q hq
    rw [List.foldl_cons] at hq
    rcases ih hq with hq | ⟨row', hrow', hrest⟩
    · rcases mem_queueCleanupRow hq with hq | hrest
      · exact .inl hq
      · exact .inr ⟨row, List.mem_cons_self, hrest⟩
    · exact .inr ⟨row', List.mem_cons_of_mem _ hrow', hrest⟩

/-- A slot is queued with the entity it pointed at, and closed. -/
theorem slotClose {slotId : JsString} {result : PanelCloseResult} (h : PanelReferences known t)
    (ht : slotClose db slotId t = .ok (t', result)) : PanelReferences known t' := by
  obtain ⟨root, -, ht⟩ := bind_eq_ok.mp ht
  split at ht
  · exact (Prod.mk.inj (Except.ok.inj ht)).1 ▸ h
  split at ht
  · exact nomatch ht
  next subtree _ =>
    obtain ⟨rfl, -⟩ := Prod.mk.inj (Except.ok.inj ht)
    have hqueued : ∀ q ∈ (queueCleanup db slotId subtree t).panelCloseCleanup, q ∈ t.panelCloseCleanup ∨
        ∃ row ∈ t.slots, row.slotId ∈ subtree ∧ q.slotId = row.slotId ∧ q.entityId = row.currentEntityId := by
      intro q hq
      refine (mem_queueCleanup hq).imp_right ?_
      rintro ⟨row, hrow, hrest⟩
      obtain ⟨id, hid, hget⟩ := List.mem_filterMap.mp hrow
      obtain ⟨hmem, rfl⟩ := PanelTables.mem_of_slotGet hget
      exact ⟨row, hmem, hid, hrest⟩
    refine ⟨h.entries, fun slot' hslot' e he ↦ ?_, fun q hq ↦ ?_, fun q hq slot' hslot' hslotId ↦ ?_, fun q hq e he ↦ ?_⟩
    · obtain ⟨slot, hslot, rfl⟩ := List.mem_map.mp hslot'
      split_ifs at he ⊢
      · exact nomatch he
      · exact h.pointers slot hslot e he
    · have hslot : ∃ slot ∈ t.slots, slot.slotId = q.slotId := by
        rcases hqueued q hq with hq | ⟨row, hrow, -, hslotId, -⟩
        · exact h.queuedSlots q hq
        · exact ⟨row, hrow, hslotId.symm⟩
      obtain ⟨slot, hslot, hslotId⟩ := hslot
      refine ⟨_, List.mem_map_of_mem hslot, ?_⟩
      split_ifs
      · exact hslotId
      · exact hslotId
    · obtain ⟨slot, hslot, rfl⟩ := List.mem_map.mp hslot'
      split_ifs at hslotId ⊢ with hin
      · exact nofun
      · rcases hqueued q hq with hq | ⟨row, -, hrow, hrowId, -⟩
        · exact h.queuedClosed q hq slot hslot hslotId
        · exact absurd (hslotId.trans hrowId ▸ hrow) (of_decide_eq_false (Bool.eq_false_of_not_eq_true hin))
    · rcases hqueued q hq with hq | ⟨row, hrow, -, hslotId, hentity⟩
      · exact h.queued q hq e he
      · rw [hslotId]
        exact h.pointers row hrow e (hentity ▸ he)

theorem closeAll (ids : List JsString) : ∀ {t : PanelTables}, PanelReferences known t →
    PanelReferences known (closeAll db ids t).1 := by
  induction ids with
  | nil => exact fun h ↦ h
  | cons slotId rest ih =>
    intro t h
    rw [WorkspaceState.closeAll]
    split
    · exact h
    next ht => exact ih (h.slotClose ht)

theorem slotCloseOwnedRoots (h : PanelReferences known t) (ownerUserId : JsString) :
    PanelReferences known (slotCloseOwnedRoots db ownerUserId t).1 := by
  rw [WorkspaceState.slotCloseOwnedRoots]
  split_ifs
  · exact h
  · exact h.closeAll _

/-- Acknowledged clean-ups leave the queue. -/
theorem filterQueue (h : PanelReferences known t) (p : PanelCloseCleanupRow → Bool) :
    PanelReferences known { t with panelCloseCleanup := t.panelCloseCleanup.filter p } :=
  ⟨h.entries, h.pointers, fun q hq ↦ h.queuedSlots q (List.mem_of_mem_filter hq),
    fun q hq ↦ h.queuedClosed q (List.mem_of_mem_filter hq), fun q hq ↦ h.queued q (List.mem_of_mem_filter hq)⟩

/-! ## Seeding -/

theorem normalizeOwner (h : PanelReferences known t) (owner : JsString) :
    PanelReferences known (normalizeOwner owner t) := by
  rw [WorkspaceState.normalizeOwner]
  split_ifs
  · have hslots (p : SlotRow → Bool) (key : SlotRow → ℤ) : PanelReferences known
        (t.updateSlots p fun row ↦ { row with ownerUserId := some owner, sortKey := key row }) :=
      h.updateSlots (fun _ ↦ rfl) (fun _ _ he ↦ he) fun _ hclosed ↦ hclosed
    have hqueue : ∀ q ∈ t.panelCloseCleanup.map fun row ↦ { row with ownerUserId := some owner },
        ∃ q₀ ∈ t.panelCloseCleanup, q₀.slotId = q.slotId ∧ q₀.entityId = q.entityId := by
      intro q hq
      obtain ⟨q₀, hq₀, rfl⟩ := List.mem_map.mp hq
      exact ⟨q₀, hq₀, rfl, rfl⟩
    refine ⟨h.entries, (hslots _ _).pointers, fun q hq ↦ ?_, fun q hq ↦ ?_, fun q hq e he ↦ ?_⟩
    · obtain ⟨q₀, hq₀, hslotId, -⟩ := hqueue q hq
      exact hslotId ▸ (hslots _ _).queuedSlots q₀ hq₀
    · obtain ⟨q₀, hq₀, hslotId, -⟩ := hqueue q hq
      exact hslotId ▸ (hslots _ _).queuedClosed q₀ hq₀
    · obtain ⟨q₀, hq₀, hslotId, hentity⟩ := hqueue q hq
      exact hslotId ▸ h.queued q₀ hq₀ e (hentity ▸ he)
  · exact h

theorem normalized_initialPanels (owner : Option JsString) :
    ((owner.filter (· ≠ [])).elim t (WorkspaceState.normalizeOwner · t)).initialPanels = t.initialPanels := by
  match owner.filter (· ≠ []) with
  | none => rfl
  | some owner =>
    rw [Option.elim_some, WorkspaceState.normalizeOwner]
    split
    · rfl
    · rfl

/-- The slots that are seeded point at entities that were reserved for them. -/
theorem seedPanels {owner : Option JsString} (inputs : List InitPanelEntry) :
    ∀ {db db' : Surroundings} {slotIds slotIds' : List JsString} {t : PanelTables}, PanelReferences known t →
      (db.foreignKeys = true → ∀ id, db.entities id = true → known id) →
      (∀ input ∈ inputs, ∀ entity, input.reserved = .ok entity → known entity.id) →
      seedPanels owner inputs db slotIds t = .ok (t', db', slotIds') → PanelReferences known t' := by
  induction inputs with
  | nil =>
    intro db db' slotIds slotIds' t h _ _ ht
    exact (Prod.mk.inj (Except.ok.inj ht)).1 ▸ h
  | cons input rest ih =>
    intro db db' slotIds slotIds' t h hknown hreserved ht
    rw [WorkspaceState.seedPanels] at ht
    split at ht
    · cases ht
    next entity hentity =>
      have hid := hreserved input List.mem_cons_self entity hentity
      obtain ⟨t₁, hcreate, ht⟩ := bind_eq_ok.mp ht
      have hknown' : db.foreignKeys = true → ∀ id, (db.entities id || decide (id = entity.id)) = true → known id := by
        intro hforeign id hin
        rcases (Bool.or_eq_true _ _).mp hin with hin | hin
        · exact hknown hforeign id hin
        · exact of_decide_eq_true hin ▸ hid
      refine ih ?_ hknown' (fun input' hinput' ↦ hreserved input' (List.mem_cons_of_mem _ hinput')) ht
      refine h.slotCreate hknown' (.inr fun entry hentry ↦ ?_) hcreate
      exact Option.some.inj hentry ▸ hid

theorem initializePanels {inputs : List InitPanelEntry} {owner : Option JsString} {details : List PanelDetail}
    (h : PanelReferences known t) (hknown : db.foreignKeys = true → ∀ id, db.entities id = true → known id)
    (hreserved : t.initialPanels = none → ∀ input ∈ inputs, ∀ entity, input.reserved = .ok entity → known entity.id)
    (ht : initializePanels db inputs owner t = .ok (t', details)) : PanelReferences known t' := by
  obtain ⟨⟨t₁, db₁, slotIds⟩, hadopt, ht⟩ := map_eq_ok.mp ht
  obtain ⟨rfl, -⟩ := Prod.mk.inj ht
  have h₀ : PanelReferences known ((owner.filter (· ≠ [])).elim t (WorkspaceState.normalizeOwner · t)) := by
    cases owner.filter (· ≠ []) with
    | none => exact h
    | some owner => exact h.normalizeOwner owner
  rw [adoptSeed] at hadopt
  split at hadopt
  · exact (Prod.mk.inj (Except.ok.inj hadopt)).1 ▸ h₀
  next hpanels =>
    obtain ⟨⟨t₂, db₂, slotIds₂⟩, hseed, hadopt⟩ := map_eq_ok.mp hadopt
    obtain ⟨rfl, -⟩ := Prod.mk.inj hadopt
    refine of_same (t := t₂) ?_ rfl rfl rfl
    split at hseed
    · exact h₀.seedPanels _ hknown (hreserved ((normalized_initialPanels owner).symm.trans hpanels)) hseed
    · exact (Prod.mk.inj (Except.ok.inj hseed)).1 ▸ h₀

/-! ## Navigation -/

theorem expectCurrent_open {slot : SlotRow} {input : SlotCommitPreparedNavigationInput} {entryKey : JsString}
    (h : expectCurrent slot input = .ok entryKey) : slot.closedAt = none := by
  rw [expectCurrent] at h
  split at h
  · cases h
  next hopen => exact not_not.mp hopen

theorem assertCompleteActivePanelIncarnation_ok {env : NavigationSurroundings} {entry : SlotHistoryEntryInput}
    (h : assertCompleteActivePanelIncarnation env entry = .ok ()) : ∃ row, env.entityRow entry.entityId = some row := by
  rw [assertCompleteActivePanelIncarnation] at h
  split at h
  · exact nomatch h
  next row hrow => exact ⟨row, hrow⟩

theorem mutateHistory_queue {env : NavigationSurroundings} {slotId : JsString} {current cursor : ℕ}
    {mutation : SlotMutation} {target : SlotHistoryEntryInput}
    (h : mutateHistory env slotId current mutation t = .ok (t', target, cursor)) :
    t'.panelCloseCleanup = t.panelCloseCleanup := by
  cases mutation with
  | select entryKey =>
    rw [mutateHistory] at h
    split at h
    · cases h
    · exact (Prod.mk.inj (Except.ok.inj h)).1 ▸ rfl
  | append entry | replace entry =>
    obtain ⟨t₁, happend, h⟩ := map_eq_ok.mp h
    obtain ⟨rfl, -⟩ := Prod.mk.inj h
    exact (appendHistoryRow_queue (mapError_eq_ok happend)).trans rfl

/-- The rows of a slot that an entry replaces. -/
theorem commitEntry (h : PanelReferences known t) {slotId : JsString} (gone : ℕ → Bool) {cursor now : ℕ}
    {entry : SlotHistoryEntryInput} (hopen : ∃ slot ∈ t.slots, slot.slotId = slotId ∧ slot.closedAt = none)
    (hknown : known entry.entityId) (hslots : t'.slots = t.slots) (hqueue : t'.panelCloseCleanup = t.panelCloseCleanup)
    (hhistory : t'.slotHistory = (t.deleteHistory slotId gone).slotHistory ++ [entryRow slotId cursor entry now]) :
    PanelReferences known (t'.setCurrent slotId entry.entityId entry.entryKey) := by
  -- the clean-up of an open slot is not queued
  have hqueued : ∀ q ∈ t.panelCloseCleanup, q.slotId ≠ slotId := by
    rintro q hq rfl
    obtain ⟨slot, hslot, hslotId, hnone⟩ := hopen
    exact h.queuedClosed q hq slot hslot hslotId hnone
  refine h.commit (entryRow slotId cursor entry now)
    (fun row ↦ !(decide (row.slotId = slotId) && gone row.cursor)) hknown (fun r hne ↦ ?_) hhistory
    (fun slot' hslot' e he ↦ ?_) hqueue fun q hq ↦ ⟨hqueued q hq, ?_, fun slot' hslot' hslotId ↦ ?_⟩
  · have hne : r.slotId ≠ slotId := hne
    rw [decide_eq_false hne]
    rfl
  · obtain ⟨slot, hslot, rfl⟩ := List.mem_map.mp hslot'
    rw [hslots] at hslot
    simp only [decide_eq_true_eq] at he ⊢
    split_ifs at he ⊢ with hslotId
    · exact .inl ⟨hslotId, (Option.some.inj he).symm⟩
    · exact .inr ⟨hslotId, h.pointers slot hslot e he⟩
  · obtain ⟨slot, hslot, hslotId⟩ := h.queuedSlots q hq
    refine ⟨_, List.mem_map_of_mem (hslots ▸ hslot), ?_⟩
    split_ifs
    · exact hslotId
    · exact hslotId
  · obtain ⟨slot, hslot, rfl⟩ := List.mem_map.mp hslot'
    rw [hslots] at hslot
    split_ifs at hslotId ⊢
    · exact h.queuedClosed q hq slot hslot hslotId
    · exact h.queuedClosed q hq slot hslot hslotId

theorem setCurrent (h : PanelReferences known t) {slotId entityId entryKey : JsString}
    (htarget : ∃ r ∈ t.slotHistory, r.slotId = slotId ∧ r.entityId = entityId) :
    PanelReferences known (t.setCurrent slotId entityId entryKey) := by
  refine ⟨h.entries, fun slot' hslot' e he ↦ ?_, fun q hq ↦ ?_, fun q hq slot' hslot' hslotId ↦ ?_, h.queued⟩
  · obtain ⟨slot, hslot, rfl⟩ := List.mem_map.mp hslot'
    simp only [decide_eq_true_eq] at he ⊢
    split_ifs at he ⊢ with hslotId
    · obtain ⟨r, hr, hrId, hentity⟩ := htarget
      exact ⟨r, hr, hrId.trans hslotId.symm, hentity.trans (Option.some.inj he)⟩
    · exact h.pointers slot hslot e he
  · obtain ⟨slot, hslot, hslotId⟩ := h.queuedSlots q hq
    refine ⟨_, List.mem_map_of_mem hslot, ?_⟩
    split_ifs
    · exact hslotId
    · exact hslotId
  · obtain ⟨slot, hslot, rfl⟩ := List.mem_map.mp hslot'
    split_ifs at hslotId ⊢
    · exact h.queuedClosed q hq slot hslot hslotId
    · exact h.queuedClosed q hq slot hslot hslotId

theorem navigate {env : NavigationSurroundings} {input : SlotCommitPreparedNavigationInput}
    {result : SlotCommitPreparedNavigationResult} (h : PanelReferences known t)
    (hknown : ∀ id row, env.entityRow id = some row → known id)
    (ht : slotCommitPreparedNavigation env input t = .ok (t', result)) : PanelReferences known t' := by
  rw [slotCommitPreparedNavigation] at ht
  split at ht
  · cases ht
  obtain ⟨slot, hslot, ht⟩ := bind_eq_ok.mp ht
  obtain ⟨entryKey, hkey, ht⟩ := bind_eq_ok.mp ht
  split at ht
  · cases ht
  obtain ⟨⟨t₁, target, cursor⟩, hmutate, ht⟩ := bind_eq_ok.mp ht
  obtain ⟨_, hcomplete, ht⟩ := map_eq_ok.mp ht
  obtain ⟨rfl, -⟩ := Prod.mk.inj ht
  obtain ⟨row, hrow⟩ := assertCompleteActivePanelIncarnation_ok hcomplete
  obtain ⟨hmem, hslotId⟩ := PanelTables.mem_of_slotGet (slotGet_of_requireSlot (mapError_eq_ok hslot))
  have hopen : ∃ slot ∈ t.slots, slot.slotId = input.slotId ∧ slot.closedAt = none :=
    ⟨slot, hmem, hslotId, expectCurrent_open hkey⟩
  have hqueue := mutateHistory_queue hmutate
  have hmutated := mutateHistory_cases hmutate
  generalize input.mutation = mutation at hmutated
  cases hmutated with
  | @select r entryKey hr hid hkey => exact h.setCurrent ⟨r, hr, hid, rfl⟩
  | append hslots hhistory => exact h.commitEntry _ hopen (hknown _ row hrow) hslots hqueue hhistory
  | replace hslots hhistory => exact h.commitEntry _ hopen (hknown _ row hrow) hslots hqueue hhistory

/-- The arguments of an entry are written. -/
theorem setStateArgs (h : PanelReferences known t) (slotId entryKey stateArgs : JsString) :
    PanelReferences known (t.setHistoryStateArgs slotId entryKey stateArgs) := by
  have hrow : ∀ r ∈ t.slotHistory, ∃ r' ∈ (t.setHistoryStateArgs slotId entryKey stateArgs).slotHistory,
      r'.slotId = r.slotId ∧ r'.entityId = r.entityId := by
    intro r hr
    refine ⟨_, List.mem_map_of_mem hr, ?_⟩
    split_ifs
    · exact ⟨rfl, rfl⟩
    · exact ⟨rfl, rfl⟩
  refine ⟨fun r' hr' ↦ ?_, fun slot hslot e he ↦ ?_, h.queuedSlots, h.queuedClosed, fun q hq e he ↦ ?_⟩
  · obtain ⟨r, hr, rfl⟩ := List.mem_map.mp hr'
    split_ifs
    · exact h.entries r hr
    · exact h.entries r hr
  · obtain ⟨r, hr, hslotId, hentity⟩ := h.pointers slot hslot e he
    obtain ⟨r', hr', hslotId', hentity'⟩ := hrow r hr
    exact ⟨r', hr', hslotId'.trans hslotId, hentity'.trans hentity⟩
  · obtain ⟨r, hr, hslotId, hentity⟩ := h.queued q hq e he
    obtain ⟨r', hr', hslotId', hentity'⟩ := hrow r hr
    exact ⟨r', hr', hslotId'.trans hslotId, hentity'.trans hentity⟩

theorem patch {env : NavigationSurroundings} {slotId : JsString} {patch : JsData} {expected : ExpectedPanelState}
    {result : PatchedStateArgs} (h : PanelReferences known t)
    (ht : slotPatchCurrentStateArgs env slotId patch expected t = .ok (t', result)) : PanelReferences known t' := by
  obtain ⟨slot, -, ht⟩ := bind_eq_ok.mp ht
  split at ht
  · exact nomatch ht
  split at ht
  · exact nomatch ht
  simp only at ht
  split at ht
  · exact nomatch ht
  split at ht
  · exact nomatch ht
  obtain ⟨current, -, ht⟩ := bind_eq_ok.mp ht
  obtain ⟨next, -, ht⟩ := map_eq_ok.mp ht
  obtain ⟨rfl, -⟩ := Prod.mk.inj ht
  exact of_same (h.setStateArgs _ _ _) rfl rfl rfl

end PanelReferences

end Vibestudio.WorkspaceState

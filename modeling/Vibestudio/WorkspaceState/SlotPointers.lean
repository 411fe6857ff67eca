import Mathlib
import Vibestudio.WorkspaceState.SlotHistory

/-!
# Every pointer into a history leads to one row

The invariant behind the reads of a slot's history: its cursors are an initial segment, its keys are
apart, and the pointer of an open slot is the key of a row with the entity of the slot. It is shown
for the writes first, each about one list of rows, and then for every call.
-/

namespace Vibestudio.WorkspaceState

open Js Vibestudio.Shared Transition

/-! ## Rows of a history -/

/-- The cursors of every slot are `0..n`, and neither two cursors nor two keys of a slot are equal. -/
structure Histories (rows : List SlotHistoryRow) : Prop where
  cursorKey : (rows.map fun r ↦ (r.slotId, r.cursor)).Nodup
  entryKey : (rows.map fun r ↦ (r.slotId, r.entryKey)).Nodup
  cursors : ∀ id, ∃ n, ∀ c, (∃ r ∈ rows, r.slotId = id ∧ r.cursor = c) ↔ c < n

theorem histories_nil : Histories [] :=
  ⟨List.nodup_nil, List.nodup_nil, fun _ ↦ ⟨0, fun _ ↦ ⟨fun ⟨_, hr, _⟩ ↦ (nomatch hr), nofun⟩⟩⟩

namespace Histories

variable {rows : List SlotHistoryRow} {r r' : SlotHistoryRow}

theorem eq_of_entryKey (h : Histories rows) (hr : r ∈ rows) (hr' : r' ∈ rows)
    (hslot : r.slotId = r'.slotId) (hkey : r.entryKey = r'.entryKey) : r = r' :=
  List.inj_on_of_nodup_map h.entryKey hr hr' (Prod.ext hslot hkey)

theorem eq_of_cursor (h : Histories rows) (hr : r ∈ rows) (hr' : r' ∈ rows)
    (hslot : r.slotId = r'.slotId) (hcursor : r.cursor = r'.cursor) : r = r' :=
  List.inj_on_of_nodup_map h.cursorKey hr hr' (Prod.ext hslot hcursor)

/-- Rows keep their places when the other columns are written. -/
theorem map (h : Histories rows) {f : SlotHistoryRow → SlotHistoryRow}
    (hf : ∀ r, (f r).slotId = r.slotId ∧ (f r).cursor = r.cursor ∧ (f r).entryKey = r.entryKey) :
    Histories (rows.map f) := by
  refine ⟨?_, ?_, fun id ↦ ?_⟩
  · rw [List.map_map]
    convert h.cursorKey using 2
    exact funext fun r ↦ Prod.ext (hf r).1 (hf r).2.1
  · rw [List.map_map]
    convert h.entryKey using 2
    exact funext fun r ↦ Prod.ext (hf r).1 (hf r).2.2
  · obtain ⟨n, hn⟩ := h.cursors id
    refine ⟨n, fun c ↦ ?_⟩
    rw [← hn c]
    constructor
    · rintro ⟨_, hfr, rfl, rfl⟩
      obtain ⟨r, hr, rfl⟩ := List.mem_map.mp hfr
      exact ⟨r, hr, (hf r).1.symm, (hf r).2.1.symm⟩
    · rintro ⟨r, hr, rfl, rfl⟩
      exact ⟨f r, List.mem_map_of_mem hr, (hf r).1, (hf r).2.1⟩

/-- **Some rows of a slot give way to a new one**, whose cursor and key no other row of the slot has. -/
theorem put (h : Histories rows) (keep : SlotHistoryRow → Bool) (new : SlotHistoryRow) (n : ℕ)
    (hother : ∀ r ∈ rows, r.slotId ≠ new.slotId → keep r = true)
    (hcursor : ∀ r ∈ rows, keep r = true → r.slotId = new.slotId → r.cursor ≠ new.cursor)
    (hkey : ∀ r ∈ rows, keep r = true → r.slotId = new.slotId → r.entryKey ≠ new.entryKey)
    (hcursors : ∀ c, (∃ r ∈ rows, keep r = true ∧ r.slotId = new.slotId ∧ r.cursor = c) ∨
      c = new.cursor ↔ c < n) : Histories (rows.filter keep ++ [new]) := by
  have happend : ∀ {β : Type} (key : SlotHistoryRow → β), (rows.map key).Nodup →
      (∀ r ∈ rows, keep r = true → key r ≠ key new) → ((rows.filter keep ++ [new]).map key).Nodup := by
    intro β key hnodup hne
    rw [List.map_append, List.nodup_append]
    refine ⟨hnodup.sublist (List.filter_sublist.map key), List.nodup_singleton _, ?_⟩
    intro x hx y hy hxy
    obtain ⟨r, hr, rfl⟩ := List.mem_map.mp hx
    rw [List.mem_filter] at hr
    exact hne r hr.1 hr.2 (hxy.trans (List.mem_singleton.mp hy))
  refine ⟨happend _ h.cursorKey fun r hr hk heq ↦ ?_, happend _ h.entryKey fun r hr hk heq ↦ ?_,
    fun id ↦ ?_⟩
  · exact hcursor r hr hk (Prod.mk.inj heq).1 (Prod.mk.inj heq).2
  · exact hkey r hr hk (Prod.mk.inj heq).1 (Prod.mk.inj heq).2
  · by_cases hid : id = new.slotId
    · subst hid
      refine ⟨n, fun c ↦ ?_⟩
      rw [← hcursors c]
      constructor
      · rintro ⟨r, hr, hslot, rfl⟩
        rcases List.mem_append.mp hr with hr | hr
        · rw [List.mem_filter] at hr
          exact .inl ⟨r, hr.1, hr.2, hslot, rfl⟩
        · exact .inr (List.mem_singleton.mp hr ▸ rfl)
      · rintro (⟨r, hr, hk, hslot, rfl⟩ | rfl)
        · exact ⟨r, List.mem_append_left _ (List.mem_filter.mpr ⟨hr, hk⟩), hslot, rfl⟩
        · exact ⟨new, List.mem_append_right _ (List.mem_singleton_self new), rfl, rfl⟩
    · -- the rows of another slot all stay
      obtain ⟨n', hn'⟩ := h.cursors id
      refine ⟨n', fun c ↦ ?_⟩
      rw [← hn' c]
      constructor
      · rintro ⟨r, hr, hslot, rfl⟩
        rcases List.mem_append.mp hr with hr | hr
        · exact ⟨r, (List.mem_filter.mp hr).1, hslot, rfl⟩
        · exact absurd (hslot.symm.trans (congrArg _ (List.mem_singleton.mp hr))) hid
      · rintro ⟨r, hr, hslot, rfl⟩
        have hkeep := hother r hr fun heq ↦ hid (hslot.symm.trans heq)
        exact ⟨r, List.mem_append_left _ (List.mem_filter.mpr ⟨hr, hkeep⟩), hslot, rfl⟩

end Histories

/-! ## Pointers -/

/-- The pointer of a slot is the key of one of its rows, with the entity of the slot. -/
def PointsInto (rows : List SlotHistoryRow) (slot : SlotRow) : Prop :=
  slot.closedAt = none → ∀ k, slot.currentEntryKey = some k →
    ∃ r ∈ rows, r.slotId = slot.slotId ∧ r.entryKey = k ∧ slot.currentEntityId = some r.entityId

/-- The invariant. -/
structure HistoryInv (t : PanelTables) : Prop where
  slotIds : (t.slots.map (·.slotId)).Nodup
  histories : Histories t.slotHistory
  pointers : ∀ slot ∈ t.slots, PointsInto t.slotHistory slot

theorem historyInv_empty : HistoryInv .empty := ⟨List.nodup_nil, histories_nil, nofun⟩

variable {t t' : PanelTables}

/-- A write to the slots that opens none and moves no pointer of an open one. -/
structure KeepsPointer (slot slot' : SlotRow) : Prop where
  slotId : slot'.slotId = slot.slotId
  current : slot'.closedAt = none → slot.closedAt = none ∧
    slot'.currentEntryKey = slot.currentEntryKey ∧ slot'.currentEntityId = slot.currentEntityId

theorem PointsInto.keep {rows : List SlotHistoryRow} {slot slot' : SlotRow} (h : PointsInto rows slot)
    (hkeeps : KeepsPointer slot slot') : PointsInto rows slot' := by
  intro hopen k hk
  obtain ⟨hwas, hkey, hentity⟩ := hkeeps.current hopen
  obtain ⟨r, hr, hslot, hrk, he⟩ := h hwas k (hkey ▸ hk)
  exact ⟨r, hr, hslot.trans hkeeps.slotId.symm, hrk, hentity.trans he⟩

theorem HistoryInv.updateSlots (h : HistoryInv t) {p : SlotRow → Bool} {f : SlotRow → SlotRow}
    (hf : ∀ slot ∈ t.slots, p slot = true → KeepsPointer slot (f slot)) :
    HistoryInv (t.updateSlots p f) := by
  have hkeeps : ∀ slot ∈ t.slots, KeepsPointer slot (if p slot then f slot else slot) := by
    intro slot hslot
    split_ifs with hp
    · exact hf slot hslot hp
    · exact ⟨rfl, fun hopen ↦ ⟨hopen, rfl, rfl⟩⟩
  refine ⟨?_, h.histories, fun slot' hslot' ↦ ?_⟩
  · rw [PanelTables.updateSlots, List.map_map]
    convert h.slotIds using 1
    exact List.map_congr_left fun slot hslot ↦ (hkeeps slot hslot).slotId
  · obtain ⟨slot, hslot, rfl⟩ := List.mem_map.mp hslot'
    exact (h.pointers slot hslot).keep (hkeeps slot hslot)

theorem HistoryInv.of_same (h : HistoryInv t) (hslots : t'.slots = t.slots)
    (hhistory : t'.slotHistory = t.slotHistory) : HistoryInv t' :=
  ⟨hslots ▸ h.slotIds, hhistory ▸ h.histories, hslots ▸ hhistory ▸ h.pointers⟩

theorem HistoryInv.rebalance (h : HistoryInv t) (parent owner exclude : Option JsString) :
    HistoryInv (t.rebalancePanelTreeGroup parent owner exclude) :=
  h.updateSlots fun _ _ _ ↦ ⟨rfl, fun hopen ↦ ⟨hopen, rfl, rfl⟩⟩

theorem HistoryInv.allocate {parent owner exclude : Option JsString}
    {placement : Option PanelTreePlacement} (n : ℕ) : ∀ {t : PanelTables} {key : ℤ}, HistoryInv t →
    PanelTables.allocatePanelTreeOrderKey parent owner placement exclude n t = .ok (t', key) →
    HistoryInv t' := by
  induction n with
  | zero =>
    intro t key _ ht
    exact nomatch ht
  | succ n ih =>
    intro t key h ht
    obtain ⟨o, -, ht⟩ := bind_eq_ok.mp ht
    cases o with
    | some key' => exact (Prod.mk.inj (Except.ok.inj ht)).1 ▸ h
    | none => exact ih (h.rebalance parent owner exclude) ht

/-! ## The calls of the panel tree -/

theorem insertSlot_cases {db : Surroundings} {row : SlotRow} (h : insertSlot db row t = .ok t') :
    (∀ slot ∈ t.slots, slot.slotId ≠ row.slotId) ∧ t'.slots = t.slots ++ [row] ∧
      t'.slotHistory = t.slotHistory := by
  rw [insertSlot] at h
  split at h
  · cases h
  rename_i hok
  obtain rfl := Except.ok.inj h
  simp only [Bool.or_eq_true, List.any_eq_true, decide_eq_true_eq, not_or, not_exists, not_and] at hok
  exact ⟨hok.1, rfl, rfl⟩

/-- The row that an entry gives. -/
def entryRow (slotId : JsString) (cursor : ℕ) (entry : SlotHistoryEntryInput) (now : ℕ) :
    SlotHistoryRow where
  slotId
  cursor
  entryKey := entry.entryKey
  entityId := entry.entityId
  source := entry.source
  contextId := entry.contextId
  stateArgs := entry.stateArgs.bind stringify
  options := entry.options.bind stringify
  recordedAt := now

theorem appendHistoryRow_cases {db : Surroundings} {slotId : JsString} {cursor : ℕ}
    {entry : SlotHistoryEntryInput} (h : appendHistoryRow db slotId cursor entry t = .ok t') :
    (∀ r ∈ t.slotHistory, r.slotId = slotId → r.cursor ≠ cursor) ∧ t'.slots = t.slots ∧
      t'.slotHistory = t.slotHistory ++ [entryRow slotId cursor entry db.now] := by
  rw [appendHistoryRow] at h
  split at h
  · cases h
  rename_i hok
  obtain rfl := Except.ok.inj h
  simp only [Bool.or_eq_true, List.any_eq_true, decide_eq_true_eq, not_or, not_exists, not_and] at hok
  exact ⟨hok.1, rfl, rfl⟩

/-- A slot that is new has no history yet, so its first entry has the cursor 0. -/
theorem HistoryInv.slotCreate {db : Surroundings} {input : SlotCreateInput} (h : HistoryInv t)
    (ht : slotCreate db input t = .ok t') : HistoryInv t' := by
  rw [WorkspaceState.slotCreate] at ht
  split at ht
  · cases ht
  split at ht
  · obtain ⟨_, -, rfl⟩ := map_eq_ok.mp ht
    exact h
  obtain ⟨⟨t₁, sortKey⟩, hallocate, ht⟩ := bind_eq_ok.mp ht
  obtain ⟨t₂, hinsert, ht⟩ := bind_eq_ok.mp ht
  have h₁ := h.allocate _ hallocate
  obtain ⟨hfresh, hslots, hhistory⟩ := insertSlot_cases hinsert
  have hids : (t₂.slots.map (·.slotId)).Nodup := by
    rw [hslots, List.map_append, List.nodup_append]
    refine ⟨h₁.slotIds, List.nodup_singleton _, fun x hx y hy hxy ↦ ?_⟩
    obtain ⟨slot, hslot, rfl⟩ := List.mem_map.mp hx
    exact hfresh slot hslot (hxy.trans (List.mem_singleton.mp hy))
  cases hentry : input.initialEntry with
  | none =>
    rw [hentry] at ht hslots
    obtain rfl := Except.ok.inj ht
    refine ⟨hids, hhistory ▸ h₁.histories, fun slot hslot ↦ ?_⟩
    rw [hhistory]
    rw [hslots] at hslot
    rcases List.mem_append.mp hslot with hslot | hslot
    · exact h₁.pointers slot hslot
    · obtain rfl := List.mem_singleton.mp hslot
      exact fun _ k hk ↦ (by cases hk)
  | some entry =>
    rw [hentry] at ht hslots
    obtain ⟨hnone, hslots', hhistory'⟩ := appendHistoryRow_cases ht
    rw [hhistory] at hnone hhistory'
    have hempty : ∀ r ∈ t₁.slotHistory, r.slotId ≠ input.slotId.val := by
      intro r hr hid
      obtain ⟨n, hn⟩ := h₁.histories.cursors input.slotId
      have hpos : 0 < n := Nat.zero_lt_of_lt ((hn r.cursor).mp ⟨r, hr, hid, rfl⟩)
      obtain ⟨r₀, hr₀, hid₀, hzero⟩ := (hn 0).mpr hpos
      exact hnone r₀ hr₀ hid₀ hzero
    have hput := h₁.histories.put (fun _ ↦ true) (entryRow input.slotId 0 entry db.now) 1
      (fun _ _ _ ↦ rfl)
      (fun r hr _ hid ↦ absurd hid (hempty r hr)) (fun r hr _ hid ↦ absurd hid (hempty r hr)) (by
        intro c
        rw [Nat.lt_one_iff]
        refine ⟨?_, Or.inr⟩
        rintro (⟨r, hr, -, hid, -⟩ | hc)
        · exact absurd hid (hempty r hr)
        · exact hc)
    rw [List.filter_true] at hput
    refine ⟨hslots' ▸ hids, hhistory' ▸ hput, fun slot hslot ↦ ?_⟩
    rw [hhistory']
    rw [hslots', hslots] at hslot
    rcases List.mem_append.mp hslot with hslot | hslot
    · intro hopen k hk
      obtain ⟨r, hr, hrest⟩ := h₁.pointers slot hslot hopen k hk
      exact ⟨r, List.mem_append_left _ hr, hrest⟩
    · obtain rfl := List.mem_singleton.mp hslot
      intro _ k hk
      exact ⟨_, List.mem_append_right _ (List.mem_singleton_self _), rfl, Option.some.inj hk, rfl⟩

theorem HistoryInv.slotMove {slotId : JsString} {parentSlotId ownerUserId : Option JsString}
    {placement : Option PanelTreePlacement} (h : HistoryInv t)
    (ht : slotMove slotId parentSlotId placement ownerUserId t = .ok t') : HistoryInv t' := by
  obtain ⟨slot, -, ht⟩ := bind_eq_ok.mp ht
  split at ht
  · exact nomatch ht
  obtain ⟨owner, -, ht⟩ := bind_eq_ok.mp ht
  obtain ⟨⟨t₁, sortKey⟩, hallocate, ht⟩ := bind_eq_ok.mp ht
  have h₁ := h.allocate _ hallocate
  simp only at ht
  split at ht
  · exact nomatch ht
  obtain rfl := Except.ok.inj ht
  apply HistoryInv.updateSlots
  · apply h₁.updateSlots
    exact fun _ _ _ ↦ ⟨rfl, fun hopen ↦ ⟨hopen, rfl, rfl⟩⟩
  · exact fun _ _ _ ↦ ⟨rfl, fun hopen ↦ ⟨hopen, rfl, rfl⟩⟩

/-- A slot that is closed has no pointer any more. -/
theorem HistoryInv.slotClose {db : Surroundings} {slotId : JsString} {result : PanelCloseResult}
    (h : HistoryInv t) (ht : slotClose db slotId t = .ok (t', result)) : HistoryInv t' := by
  obtain ⟨root, -, ht⟩ := bind_eq_ok.mp ht
  split at ht
  · exact (Prod.mk.inj (Except.ok.inj ht)).1 ▸ h
  split at ht
  · exact nomatch ht
  obtain ⟨rfl, -⟩ := Prod.mk.inj (Except.ok.inj ht)
  apply HistoryInv.updateSlots
  · exact HistoryInv.of_same h rfl rfl
  · exact fun _ _ _ ↦ ⟨rfl, fun hopen ↦ (nomatch hopen)⟩

theorem HistoryInv.closeAll {db : Surroundings} (ids : List JsString) : ∀ {t : PanelTables},
    HistoryInv t → HistoryInv (closeAll db ids t).1 := by
  induction ids with
  | nil => exact fun h ↦ h
  | cons slotId rest ih =>
    intro t h
    rw [WorkspaceState.closeAll]
    split
    · exact h
    · rename_i ht
      exact ih (h.slotClose ht)

theorem HistoryInv.slotCloseOwnedRoots {db : Surroundings} (h : HistoryInv t) (ownerUserId : JsString) :
    HistoryInv (slotCloseOwnedRoots db ownerUserId t).1 := by
  rw [WorkspaceState.slotCloseOwnedRoots]
  split_ifs
  · exact h
  · exact h.closeAll _

theorem HistoryInv.normalizeOwner (h : HistoryInv t) (owner : JsString) :
    HistoryInv (normalizeOwner owner t) := by
  rw [WorkspaceState.normalizeOwner]
  split_ifs
  · refine HistoryInv.of_same (t := t.updateSlots _ _) ?_ rfl rfl
    apply h.updateSlots
    exact fun _ _ _ ↦ ⟨rfl, fun hopen ↦ ⟨hopen, rfl, rfl⟩⟩
  · exact h

theorem HistoryInv.seedPanels {owner : Option JsString} (inputs : List InitPanelEntry) :
    ∀ {db db' : Surroundings} {slotIds slotIds' : List JsString} {t : PanelTables}, HistoryInv t →
      seedPanels owner inputs db slotIds t = .ok (t', db', slotIds') → HistoryInv t' := by
  induction inputs with
  | nil =>
    intro db db' slotIds slotIds' t h ht
    exact (Prod.mk.inj (Except.ok.inj ht)).1 ▸ h
  | cons input rest ih =>
    intro db db' slotIds slotIds' t h ht
    rw [WorkspaceState.seedPanels] at ht
    split at ht
    · cases ht
    · obtain ⟨t₁, hcreate, ht⟩ := bind_eq_ok.mp ht
      exact ih (h.slotCreate hcreate) ht

theorem HistoryInv.initializePanels {db : Surroundings} {inputs : List InitPanelEntry}
    {owner : Option JsString} {details : List PanelDetail} (h : HistoryInv t)
    (ht : initializePanels db inputs owner t = .ok (t', details)) : HistoryInv t' := by
  obtain ⟨⟨t₁, db₁, slotIds⟩, hadopt, ht⟩ := map_eq_ok.mp ht
  obtain ⟨rfl, -⟩ := Prod.mk.inj ht
  have h₀ : HistoryInv ((owner.filter (· ≠ [])).elim t (WorkspaceState.normalizeOwner · t)) := by
    cases owner.filter (· ≠ []) with
    | none => exact h
    | some owner => exact h.normalizeOwner owner
  rw [adoptSeed] at hadopt
  split at hadopt
  · exact (Prod.mk.inj (Except.ok.inj hadopt)).1 ▸ h₀
  obtain ⟨⟨t₂, db₂, slotIds₂⟩, hseed, hadopt⟩ := map_eq_ok.mp hadopt
  obtain ⟨rfl, -⟩ := Prod.mk.inj hadopt
  refine HistoryInv.of_same (t := t₂) ?_ rfl rfl
  split at hseed
  · exact h₀.seedPanels _ hseed
  · exact (Prod.mk.inj (Except.ok.inj hseed)).1 ▸ h₀

theorem HistoryInv.committed (h : HistoryInv t) {r : Except PanelError PanelTables}
    (hr : ∀ t', r = .ok t' → HistoryInv t') : HistoryInv (committed t r) := by
  cases r with
  | error e => exact h
  | ok t' => exact hr t' rfl

theorem HistoryInv.perform (h : HistoryInv t) (e : Surroundings × PanelCall) :
    HistoryInv (perform t e) := by
  obtain ⟨db, call⟩ := e
  cases call with
  | initializePanels inputs owner =>
    refine h.committed fun t' ht ↦ ?_
    obtain ⟨⟨t₁, details⟩, hinit, rfl⟩ := map_eq_ok.mp ht
    exact h.initializePanels hinit
  | slotCreate input => exact h.committed fun t' ht ↦ h.slotCreate ht
  | slotMove slotId parent placement owner => exact h.committed fun t' ht ↦ h.slotMove ht
  | slotClose slotId =>
    refine h.committed fun t' ht ↦ ?_
    obtain ⟨⟨t₁, result⟩, hclose, rfl⟩ := map_eq_ok.mp ht
    exact h.slotClose hclose
  | slotCloseOwnedRoots owner => exact h.slotCloseOwnedRoots owner

/-! ## Navigation -/

theorem mem_historyEntries {slotId entryKey : JsString} {r : SlotHistoryRow} :
    r ∈ t.historyEntries slotId entryKey ↔
      r ∈ t.slotHistory ∧ r.slotId = slotId ∧ r.entryKey = entryKey := by
  rw [PanelTables.historyEntries, List.mem_filter, decide_eq_true_eq]

theorem slotHistoryEntry_mem {slotId entryKey : JsString} {r : SlotHistoryRow}
    (h : t.slotHistoryEntry slotId entryKey = some r) :
    r ∈ t.slotHistory ∧ r.slotId = slotId ∧ r.entryKey = entryKey :=
  mem_historyEntries.mp (List.mem_of_mem_head? (Option.mem_def.mpr h))

/-- The rows with these cursors give way to an entry with a key that no other row of the slot has. -/
theorem Histories.commit {rows : List SlotHistoryRow} (h : Histories rows) (slotId : JsString)
    (gone : ℕ → Bool) (cursor : ℕ) (entry : SlotHistoryEntryInput) (now : ℕ)
    (hcursor : ∀ r ∈ rows, r.slotId = slotId → gone r.cursor = false → r.cursor ≠ cursor)
    (hkey : ∀ r ∈ rows, r.slotId = slotId → gone r.cursor = false → r.entryKey ≠ entry.entryKey)
    (hcursors : ∀ n, (∀ c, (∃ r ∈ rows, r.slotId = slotId ∧ r.cursor = c) ↔ c < n) →
      ∃ n', ∀ c, c < n ∧ gone c = false ∨ c = cursor ↔ c < n') :
    Histories ((rows.filter fun row ↦ !(decide (row.slotId = slotId) && gone row.cursor)) ++
      [entryRow slotId cursor entry now]) := by
  obtain ⟨n, hn⟩ := h.cursors slotId
  obtain ⟨n', hn'⟩ := hcursors n hn
  have hkeep : ∀ r : SlotHistoryRow, r.slotId = slotId →
      ((!(decide (r.slotId = slotId) && gone r.cursor)) = true ↔ gone r.cursor = false) := by
    intro r hid
    rw [decide_eq_true hid, Bool.true_and, Bool.not_eq_true']
  refine h.put _ (entryRow slotId cursor entry now) n' (fun r _ (hid : r.slotId ≠ slotId) ↦ ?_)
    (fun r hr hk hid ↦ hcursor r hr hid ((hkeep r hid).mp hk))
    (fun r hr hk hid ↦ hkey r hr hid ((hkeep r hid).mp hk)) fun c ↦ ?_
  · rw [decide_eq_false hid]
    rfl
  · rw [← hn' c]
    apply or_congr_left
    rw [← hn c]
    constructor
    · rintro ⟨r, hr, hk, hid, rfl⟩
      exact ⟨⟨r, hr, hid, rfl⟩, (hkeep r hid).mp hk⟩
    · rintro ⟨⟨r, hr, hid, rfl⟩, hgone⟩
      exact ⟨r, hr, (hkeep r hid).mpr hgone, hid, rfl⟩

theorem historyInv_setCurrent {slotId entityId entryKey : JsString}
    (hids : (t.slots.map (·.slotId)).Nodup) (hhistory : Histories t.slotHistory)
    (hother : ∀ slot ∈ t.slots, slot.slotId ≠ slotId → PointsInto t.slotHistory slot)
    (htarget : ∃ r ∈ t.slotHistory, r.slotId = slotId ∧ r.entryKey = entryKey ∧ r.entityId = entityId) :
    HistoryInv (t.setCurrent slotId entityId entryKey) := by
  refine ⟨?_, hhistory, fun slot' hslot' ↦ ?_⟩
  · rw [PanelTables.setCurrent, PanelTables.updateSlots, List.map_map]
    convert hids using 1
    refine List.map_congr_left fun slot _ ↦ ?_
    simp only [Function.comp_apply]
    split_ifs
    · rfl
    · rfl
  · obtain ⟨slot, hslot, rfl⟩ := List.mem_map.mp hslot'
    simp only [decide_eq_true_eq]
    split_ifs with hid
    · intro _ k hk
      obtain ⟨r, hr, hrid, hrk, hre⟩ := htarget
      exact ⟨r, hr, hrid.trans hid.symm, hrk.trans (Option.some.inj hk), congrArg some hre.symm⟩
    · exact hother slot hslot hid

/-- What a mutation leaves: the history as it is, with the pointer at one of its rows, or the history
after the commit of an entry. -/
inductive Mutated (t : PanelTables) (slotId : JsString) (current : ℕ) (now : ℕ) :
    SlotMutation → PanelTables → SlotHistoryEntryInput → Prop where
  | select {r : SlotHistoryRow} {entryKey : JsString} : r ∈ t.slotHistory → r.slotId = slotId →
      r.entryKey = entryKey → Mutated t slotId current now (.select entryKey) t r.entry
  | append {t' : PanelTables} {entry : SlotHistoryEntryInput} : t'.slots = t.slots →
      t'.slotHistory = (t.deleteHistory slotId fun c ↦ decide (current < c)).slotHistory ++
        [entryRow slotId (current + 1) entry now] →
      Mutated t slotId current now (.append entry) t' entry
  | replace {t' : PanelTables} {entry : SlotHistoryEntryInput} : t'.slots = t.slots →
      t'.slotHistory = (t.deleteHistory slotId fun c ↦ decide (c = current)).slotHistory ++
        [entryRow slotId current entry now] →
      Mutated t slotId current now (.replace entry) t' entry

theorem mapError_eq_ok {ε ε' α : Type} {x : Except ε α} {f : ε → ε'} {a : α}
    (h : x.mapError f = .ok a) : x = .ok a := by
  cases x with
  | error e => exact nomatch h
  | ok b => exact congrArg _ (Except.ok.inj h)

theorem mutateHistory_cases {env : NavigationSurroundings} {slotId : JsString} {current cursor : ℕ}
    {mutation : SlotMutation} {target : SlotHistoryEntryInput}
    (h : mutateHistory env slotId current mutation t = .ok (t', target, cursor)) :
    Mutated t slotId current env.now mutation t' target := by
  cases mutation with
  | select entryKey =>
    rw [mutateHistory] at h
    split at h
    · exact nomatch h
    rename_i selected hselected
    obtain ⟨rfl, hrest⟩ := Prod.mk.inj (Except.ok.inj h)
    obtain ⟨rfl, -⟩ := Prod.mk.inj hrest
    obtain ⟨hmem, hid, hkey⟩ := slotHistoryEntry_mem hselected
    exact .select hmem hid hkey
  | append entry =>
    obtain ⟨t₁, happend, h⟩ := map_eq_ok.mp h
    obtain ⟨rfl, hrest⟩ := Prod.mk.inj h
    obtain ⟨rfl, -⟩ := Prod.mk.inj hrest
    obtain ⟨-, hslots, hhistory⟩ := appendHistoryRow_cases (mapError_eq_ok happend)
    exact .append hslots hhistory
  | replace entry =>
    obtain ⟨t₁, happend, h⟩ := map_eq_ok.mp h
    obtain ⟨rfl, hrest⟩ := Prod.mk.inj h
    obtain ⟨rfl, -⟩ := Prod.mk.inj hrest
    obtain ⟨-, hslots, hhistory⟩ := appendHistoryRow_cases (mapError_eq_ok happend)
    exact .replace hslots hhistory

/-- The pointer of another slot is not touched. -/
theorem PointsInto.commit {rows : List SlotHistoryRow} {slot : SlotRow} {slotId : JsString}
    (h : PointsInto rows slot) (hne : slot.slotId ≠ slotId) (gone : ℕ → Bool) (new : SlotHistoryRow) :
    PointsInto ((rows.filter fun row ↦ !(decide (row.slotId = slotId) && gone row.cursor)) ++ [new])
      slot := by
  intro hopen k hk
  obtain ⟨r, hr, hid, hrest⟩ := h hopen k hk
  refine ⟨r, List.mem_append_left _ (List.mem_filter.mpr ⟨hr, ?_⟩), hid, hrest⟩
  rw [decide_eq_false (hid ▸ hne)]
  rfl

/-- **A navigation** keeps the invariant when it keeps the keys apart. -/
theorem HistoryInv.mutated (h : HistoryInv t) {slotId : JsString} {current : SlotHistoryRow} {now : ℕ}
    {mutation : SlotMutation} {target : SlotHistoryEntryInput} (hcurrent : current ∈ t.slotHistory)
    (hslot : current.slotId = slotId) (hmutated : Mutated t slotId current.cursor now mutation t' target)
    (happend : ∀ entry, mutation = .append entry → ∀ r ∈ t.slotHistory, r.slotId = slotId →
      r.cursor ≤ current.cursor → r.entryKey ≠ entry.entryKey)
    (hreplace : ∀ entry, mutation = .replace entry → ∀ r ∈ t.slotHistory, r.slotId = slotId →
      r.cursor ≠ current.cursor → r.entryKey ≠ entry.entryKey) :
    HistoryInv (t'.setCurrent slotId target.entityId target.entryKey) := by
  have hbelow : ∀ n, (∀ c, (∃ r ∈ t.slotHistory, r.slotId = slotId ∧ r.cursor = c) ↔ c < n) →
      current.cursor < n := fun n hn ↦ (hn _).mp ⟨current, hcurrent, hslot, rfl⟩
  cases hmutated with
  | @select r entryKey hr hid hkey =>
    exact historyInv_setCurrent h.slotIds h.histories (fun slot hslot _ ↦ h.pointers slot hslot)
      ⟨r, hr, hid, rfl, rfl⟩
  | append hslots hhistory =>
    have hcommit := h.histories.commit slotId (fun c ↦ decide (current.cursor < c))
      (current.cursor + 1) target now
      (fun r _ _ hgone ↦ by have := of_decide_eq_false hgone; omega)
      (fun r hr hid hgone ↦ happend _ rfl r hr hid (by have := of_decide_eq_false hgone; omega))
      (fun n hn ↦ ⟨current.cursor + 2, fun c ↦ by
        have := hbelow n hn
        rw [decide_eq_false_iff_not]
        omega⟩)
    refine historyInv_setCurrent (hslots ▸ h.slotIds) (hhistory ▸ hcommit) (fun slot hslot hne ↦ ?_) ?_
    · rw [hhistory]
      exact (h.pointers slot (hslots ▸ hslot)).commit hne (fun c ↦ decide (current.cursor < c)) _
    · rw [hhistory]
      exact ⟨_, List.mem_append_right _ (List.mem_singleton_self _), rfl, rfl, rfl⟩
  | replace hslots hhistory =>
    have hcommit := h.histories.commit slotId (fun c ↦ decide (c = current.cursor)) current.cursor
      target now
      (fun r _ _ hgone ↦ of_decide_eq_false hgone)
      (fun r hr hid hgone ↦ hreplace _ rfl r hr hid (of_decide_eq_false hgone))
      (fun n hn ↦ ⟨n, fun c ↦ by
        have := hbelow n hn
        rw [decide_eq_false_iff_not]
        omega⟩)
    refine historyInv_setCurrent (hslots ▸ h.slotIds) (hhistory ▸ hcommit) (fun slot hslot hne ↦ ?_) ?_
    · rw [hhistory]
      exact (h.pointers slot (hslots ▸ hslot)).commit hne (fun c ↦ decide (c = current.cursor)) _
    · rw [hhistory]
      exact ⟨_, List.mem_append_right _ (List.mem_singleton_self _), rfl, rfl, rfl⟩

theorem expectCurrent_ok {slot : SlotRow} {input : SlotCommitPreparedNavigationInput}
    {entryKey : JsString} (h : expectCurrent slot input = .ok entryKey) :
    slot.currentEntryKey = some entryKey := by
  rw [expectCurrent] at h
  split at h
  · exact nomatch h
  split at h
  · exact nomatch h
  rename_i hkey
  split at h
  · exact hkey.trans (congrArg some (Except.ok.inj h))
  · exact nomatch h

theorem slotGet_of_requireSlot {slotId : JsString} {slot : SlotRow}
    (h : t.requireSlot slotId = .ok slot) : t.slotGet slotId = some slot := by
  rw [PanelTables.requireSlot] at h
  split at h
  · rename_i hslot
    exact hslot.trans (congrArg some (Except.ok.inj h))
  · cases h

theorem HistoryInv.navigate {env : NavigationSurroundings} {input : SlotCommitPreparedNavigationInput}
    {result : SlotCommitPreparedNavigationResult} (h : HistoryInv t)
    (hapart : keepsKeysApart t (env, .slotCommitPreparedNavigation input) = true)
    (ht : slotCommitPreparedNavigation env input t = .ok (t', result)) : HistoryInv t' := by
  rw [slotCommitPreparedNavigation] at ht
  split at ht
  · exact nomatch ht
  obtain ⟨slot, hslot, ht⟩ := bind_eq_ok.mp ht
  obtain ⟨entryKey, hkey, ht⟩ := bind_eq_ok.mp ht
  split at ht
  · exact nomatch ht
  rename_i current hcurrent
  obtain ⟨⟨t₁, target, cursor⟩, hmutate, ht⟩ := bind_eq_ok.mp ht
  obtain ⟨_, -, ht⟩ := map_eq_ok.mp ht
  obtain ⟨rfl, -⟩ := Prod.mk.inj ht
  obtain ⟨hmem, hid, -⟩ := slotHistoryEntry_mem hcurrent
  have hcursor : t.currentCursor input.slotId = some current.cursor := by
    rw [PanelTables.currentCursor, slotGet_of_requireSlot (mapError_eq_ok hslot), Option.bind_some,
      expectCurrent_ok hkey, Option.bind_some, hcurrent, Option.map_some]
  rw [keepsKeysApart, hcursor, Option.all_some] at hapart
  refine h.mutated hmem hid (mutateHistory_cases hmutate) (fun entry hentry r hr hrid hle ↦ ?_)
    fun entry hentry r hr hrid hne ↦ ?_
  · rw [hentry] at hapart
    have hrow := List.all_eq_true.mp hapart r (List.mem_filter.mpr ⟨hr, decide_eq_true hrid⟩)
    exact of_decide_eq_true hrow hle
  · rw [hentry] at hapart
    have hrow := List.all_eq_true.mp hapart r (List.mem_filter.mpr ⟨hr, decide_eq_true hrid⟩)
    exact of_decide_eq_true hrow hne

/-- A patch writes another column. -/
theorem HistoryInv.setStateArgs (h : HistoryInv t) (slotId entryKey stateArgs : JsString) :
    HistoryInv (t.setHistoryStateArgs slotId entryKey stateArgs) := by
  have hf : ∀ r : SlotHistoryRow, ∀ b : Bool,
      (if b then { r with stateArgs := some stateArgs } else r).slotId = r.slotId ∧
      (if b then { r with stateArgs := some stateArgs } else r).cursor = r.cursor ∧
      (if b then { r with stateArgs := some stateArgs } else r).entryKey = r.entryKey ∧
      (if b then { r with stateArgs := some stateArgs } else r).entityId = r.entityId := by
    intro r b
    cases b with
    | true => exact ⟨rfl, rfl, rfl, rfl⟩
    | false => exact ⟨rfl, rfl, rfl, rfl⟩
  refine ⟨h.slotIds, h.histories.map fun r ↦ ⟨(hf r _).1, (hf r _).2.1, (hf r _).2.2.1⟩, ?_⟩
  intro slot hslot hopen k hk
  obtain ⟨r, hr, hid, hrk, hentity⟩ := h.pointers slot hslot hopen k hk
  refine ⟨_, List.mem_map_of_mem hr, (hf r _).1.trans hid, (hf r _).2.2.1.trans hrk, ?_⟩
  exact hentity.trans (congrArg some (hf r _).2.2.2.symm)

theorem HistoryInv.patch {env : NavigationSurroundings} {slotId : JsString} {patch : JsData}
    {expected : ExpectedPanelState} {result : PatchedStateArgs} (h : HistoryInv t)
    (ht : slotPatchCurrentStateArgs env slotId patch expected t = .ok (t', result)) :
    HistoryInv t' := by
  obtain ⟨slot, -, ht⟩ := bind_eq_ok.mp ht
  split at ht
  · exact nomatch ht
  split at ht
  · exact nomatch ht
  simp only at ht
  split at ht
  · exact nomatch ht
  split at ht
  · exact nomatch ht
  obtain ⟨current, -, ht⟩ := bind_eq_ok.mp ht
  obtain ⟨next, -, ht⟩ := map_eq_ok.mp ht
  obtain ⟨rfl, -⟩ := Prod.mk.inj ht
  exact HistoryInv.of_same (h.setStateArgs _ _ _) rfl rfl

theorem HistoryInv.historyPerform (h : HistoryInv t) {e : NavigationSurroundings × HistoryCall}
    (hapart : keepsKeysApart t e = true) : HistoryInv (historyPerform t e) := by
  obtain ⟨env, call⟩ := e
  cases call with
  | panel call => exact h.perform (env.toSurroundings, call)
  | slotCommitPreparedNavigation input =>
    rw [WorkspaceState.historyPerform]
    cases ht : slotCommitPreparedNavigation env input t with
    | error e => exact h
    | ok r => exact h.navigate hapart ht
  | slotPatchCurrentStateArgs slotId patch expected =>
    rw [WorkspaceState.historyPerform]
    cases ht : slotPatchCurrentStateArgs env slotId patch expected t with
    | error e => exact h
    | ok r => exact h.patch ht

/-! ## Reads -/

/-- The only element that passes. -/
theorem filter_eq_singleton {α : Type} {l : List α} {p : α → Bool} {x : α} (hl : l.Nodup) (hx : x ∈ l)
    (hp : p x = true) (huniq : ∀ y ∈ l, p y = true → y = x) : l.filter p = [x] := by
  apply List.perm_singleton.mp
  refine (List.perm_ext_iff_of_nodup (hl.filter p) (List.nodup_singleton x)).mpr fun y ↦ ?_
  rw [List.mem_filter, List.mem_singleton]
  exact ⟨fun ⟨hy, hpy⟩ ↦ huniq y hy hpy, fun h ↦ h ▸ ⟨hx, hp⟩⟩

/-- What the reads of a slot rely on: its cursors are `0..n`; its pointer leads to one row, which has
its entity; and from there every cursor of the history leads to one row and no other does. -/
structure SlotHistories (t : PanelTables) : Prop where
  cursors : ∀ id, ((t.historyOf id).map (·.cursor)).Perm (List.range (t.historyOf id).length)
  current : ∀ slot ∈ t.openSlots, ∀ k, slot.currentEntryKey = some k →
    ∃ r, t.historyEntries slot.slotId k = [r] ∧ slot.currentEntityId = some r.entityId ∧
      ∀ delta : ℤ, (t.relativeRows slot.slotId delta).length =
        if 0 ≤ r.cursor + delta ∧ r.cursor + delta < (t.historyOf slot.slotId).length then 1 else 0

theorem Histories.cursors_perm (h : Histories t.slotHistory) (id : JsString) :
    ((t.historyOf id).map (·.cursor)).Perm (List.range (t.historyOf id).length) := by
  obtain ⟨n, hn⟩ := h.cursors id
  have hnodup : ((t.historyOf id).map (·.cursor)).Nodup := by
    have hrows : (t.historyOf id).Nodup := (h.cursorKey.of_map _).filter _
    refine hrows.map_on fun r hr r' hr' hcursor ↦ ?_
    rw [PanelTables.historyOf, List.mem_filter, decide_eq_true_eq] at hr hr'
    exact h.eq_of_cursor hr.1 hr'.1 (hr.2.trans hr'.2.symm) hcursor
  have hperm : ((t.historyOf id).map (·.cursor)).Perm (List.range n) := by
    refine (List.perm_ext_iff_of_nodup hnodup List.nodup_range).mpr fun c ↦ ?_
    rw [List.mem_range, ← hn c, List.mem_map]
    simp only [PanelTables.historyOf, List.mem_filter, decide_eq_true_eq, and_assoc]
  have hlength := hperm.length_eq
  rw [List.length_map, List.length_range] at hlength
  exact hlength ▸ hperm

theorem HistoryInv.slotHistories (h : HistoryInv t) : SlotHistories t := by
  refine ⟨h.histories.cursors_perm, fun slot hslot k hk ↦ ?_⟩
  have hrows : t.slotHistory.Nodup := h.histories.cursorKey.of_map _
  rw [PanelTables.openSlots, List.mem_filter, decide_eq_true_eq] at hslot
  obtain ⟨r, hr, hid, hrk, hentity⟩ := h.pointers slot hslot.1 hslot.2 k hk
  refine ⟨r, ?_, hentity, fun delta ↦ ?_⟩
  · refine filter_eq_singleton hrows hr (decide_eq_true ⟨hid, hrk⟩) fun y hy hpy ↦ ?_
    obtain ⟨hyid, hyk⟩ := of_decide_eq_true hpy
    exact h.histories.eq_of_entryKey hy hr (hyid.trans hid.symm) (hyk.trans hrk.symm)
  -- the join goes through this slot and this row only
  have hslots : (t.openSlots.filter fun s ↦ decide (s.slotId = slot.slotId)) = [slot] := by
    refine filter_eq_singleton ((h.slotIds.of_map _).filter _)
      (List.mem_filter.mpr ⟨hslot.1, decide_eq_true hslot.2⟩) (decide_eq_true rfl) fun y hy hpy ↦ ?_
    exact List.inj_on_of_nodup_map h.slotIds (List.mem_filter.mp hy).1 hslot.1 (of_decide_eq_true hpy)
  have hcurrent : (t.slotHistory.filter fun c ↦ decide (c.slotId = slot.slotId ∧
      slot.currentEntryKey = some c.entryKey)) = [r] := by
    refine filter_eq_singleton hrows hr (decide_eq_true ⟨hid, hk.trans (congrArg some hrk.symm)⟩)
      fun y hy hpy ↦ ?_
    obtain ⟨hyid, hyk⟩ := of_decide_eq_true hpy
    exact h.histories.eq_of_entryKey hy hr (hyid.trans hid.symm)
      ((Option.some.inj (hk.symm.trans hyk)).symm.trans hrk.symm)
  rw [PanelTables.relativeRows, hslots, List.flatMap_singleton, hcurrent, List.flatMap_singleton]
  have hcursors : ∀ c, (∃ y ∈ t.slotHistory, y.slotId = slot.slotId ∧ y.cursor = c) ↔
      c < (t.historyOf slot.slotId).length := by
    intro c
    rw [← List.mem_range, ← (h.histories.cursors_perm slot.slotId).mem_iff, List.mem_map]
    simp only [PanelTables.historyOf, List.mem_filter, decide_eq_true_eq, and_assoc]
  split_ifs with hrange
  · obtain ⟨y, hy, hyid, hyc⟩ := (hcursors (r.cursor + delta).toNat).mpr (by omega)
    rw [filter_eq_singleton hrows hy (decide_eq_true ⟨hyid, by omega⟩) fun z hz hpz ↦ ?_]
    · rfl
    · obtain ⟨hzid, hzc⟩ := of_decide_eq_true hpz
      exact h.histories.eq_of_cursor hz hy (hzid.trans hyid.symm) (by omega)
  · rw [List.length_eq_zero_iff, List.filter_eq_nil_iff]
    intro y hy hpy
    obtain ⟨hyid, hyc⟩ := of_decide_eq_true hpy
    have := (hcursors y.cursor).mp ⟨y, hy, hyid, rfl⟩
    omega

/-- **Histories stay navigable** in every run in which no navigation commits a key that a row it keeps
has: in every state that is reached the cursors of every slot are `0..n` and every pointer leads to
one row. A navigation that is rejected leaves the tables as they were. -/
theorem slot_histories_of_reachable (h : Reachable historyStep keepsKeysApart .empty t) :
    SlotHistories t ∧ ∀ env input err, slotCommitPreparedNavigation env input t = .error err →
      historyPerform t (env, .slotCommitPreparedNavigation input) = t := by
  constructor
  · apply HistoryInv.slotHistories
    refine h.invariant historyInv_empty fun s s' e hs hapart hstep ↦ ?_
    exact Option.some.inj hstep ▸ hs.historyPerform hapart
  · intro env input err herr
    rw [historyPerform, herr]
    rfl

/-! ## A key twice -/

/-- The entity of a panel that is active and complete. -/
def browserPanel (key : JsString) : DbEntityRow where
  kind := .panel
  sourceRepoPath := lit "browser:https://example.org/"
  className := none
  key
  status := .active
  cleanupComplete := true
  nativeOwner := none
  sourceEffectiveVersion := []
  activeBuildKey := none
  activeExecutionDigest := none
  activeAuthority := none
  executionAuthority := none
  contextId := lit "ctx"
  stateArgs := none
  agentEntityId := none
  agentChannelId := none
  parentId := none
  ownerUserId := none
  authoritySessionId := lit "session"
  cloneProvenance := none
  createdAt := 0
  retiredAt := none
  error := none

/-- Surroundings in which `panel:` and a key is the id of such a panel. -/
def browserSurroundings : NavigationSurroundings where
  toSurroundings := atTime 1
  entityRow id := some (browserPanel (id.drop 6))
  mergeValidateStateArgs _ patch _ := .ok patch

def browserEntry (key : JsString) : SlotHistoryEntryInput where
  entryKey := key
  entityId := lit "panel:" ++ key
  source := lit "browser:https://example.org/"
  contextId := lit "ctx"
  stateArgs := none
  options := none

/-- A slot is created at the first key, and the entries of the others are appended. -/
def visits (first : JsString) (others : List JsString) : List (NavigationSurroundings × HistoryCall) :=
  (browserSurroundings, .panel (.slotCreate ⟨slotA, none, none, none, some (browserEntry first)⟩)) ::
    (List.zip (first :: others) others).map fun p ↦ (browserSurroundings,
      .slotCommitPreparedNavigation ⟨slotA, lit "panel:" ++ p.1, .append (browserEntry p.2)⟩)

def rowsAt (t : PanelTables) (slotId entryKey : JsString) : ℕ := (t.historyEntries slotId entryKey).length

/-- Two pages, and back to the first row: the pointer leads to one row. -/
theorem slot_histories_of_visits : ((run historyStep keepsKeysApart .empty
    (visits (lit "a") [lit "b"])).map fun t ↦ rowsAt t slotA (lit "b")) = some 1 := by
  have hrun : (run historyStep keepsKeysApart .empty (visits (lit "a") [lit "b"])).isSome := by
    decide +kernel
  obtain ⟨t, ht⟩ := Option.isSome_iff_exists.mp hrun
  have hslot : ((run historyStep keepsKeysApart .empty (visits (lit "a") [lit "b"])).map fun t ↦
      t.openSlots.any fun s ↦ decide (s.slotId = slotA ∧ s.currentEntryKey = some (lit "b"))) =
        some true := by
    decide +kernel
  rw [ht, Option.map_some, Option.some.injEq, List.any_eq_true] at hslot
  obtain ⟨slot, hslot, hkey⟩ := hslot
  obtain ⟨hid, hkey⟩ := of_decide_eq_true hkey
  obtain ⟨r, hr, -⟩ := (slot_histories_of_reachable (Reachable.init.run ht)).1.current slot hslot _ hkey
  rw [ht, Option.map_some, rowsAt, ← hid, hr]
  rfl

/-- **The same page appended twice** gives its key to two rows of the slot. -/
theorem not_always_slot_histories : ¬∀ t, Reachable historyStep anyStep .empty t → SlotHistories t := by
  intro hall
  have hrun : (run historyStep anyStep .empty (visits (lit "a") [lit "a"])).isSome := by decide +kernel
  obtain ⟨t, ht⟩ := Option.isSome_iff_exists.mp hrun
  have htwice : ((run historyStep anyStep .empty (visits (lit "a") [lit "a"])).map fun t ↦
      (rowsAt t slotA (lit "a"), t.openSlots.any fun s ↦
        decide (s.slotId = slotA ∧ s.currentEntryKey = some (lit "a")))) = some (2, true) := by
    decide +kernel
  rw [ht, Option.map_some, Option.some.injEq, Prod.mk.injEq, List.any_eq_true] at htwice
  obtain ⟨hrows, slot, hslot, hkey⟩ := htwice
  obtain ⟨hid, hkey⟩ := of_decide_eq_true hkey
  obtain ⟨r, hr, -⟩ := (hall t (Reachable.init.run ht)).current slot hslot _ hkey
  rw [rowsAt, ← hid, hr] at hrows
  exact absurd hrows (by simp)

end Vibestudio.WorkspaceState

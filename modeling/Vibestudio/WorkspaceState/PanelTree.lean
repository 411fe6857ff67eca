import Mathlib
import Vibestudio.WorkspaceState.Slots
import Vibestudio.Transition.Run

/-!
# The panel tree

What the slot operations keep: the parent links form a forest, an open slot hangs below an open slot
of the same owner, and a closed slot stays closed.

Moving checks that its destination is open, and closing takes the whole open subtree along. Creating
does neither look at the destination nor, where the storage enforces no references, at its existence:
a slot can be created below a closed one, below none, or below itself. `panel_tree_of_reachable` is
about the runs in which it is not.
-/

namespace Vibestudio.WorkspaceState

open Js Vibestudio.Shared Transition

/-! ## The invariant -/

/-- A forest of slots in which the open ones are closed upwards and owned as their parents are. -/
structure TreeInv (rows : List SlotRow) : Prop where
  nodup : (rows.map (·.slotId)).Nodup
  nonempty : ∀ r ∈ rows, r.slotId ≠ []
  parent : ∀ r ∈ rows, ∀ p, r.parentSlotId = some p → ∃ q ∈ rows, q.slotId = p ∧
    (r.closedAt = none → q.closedAt = none ∧ q.ownerUserId = r.ownerUserId)
  ranked : ∃ depth, Forest.Ranked (PanelTables.linksOf rows) depth

/-- Every closed row is there again, with the same time. -/
def StayClosed (rows rows' : List SlotRow) : Prop :=
  ∀ r ∈ rows, r.closedAt ≠ none → ∃ r' ∈ rows', r'.slotId = r.slotId ∧ r'.closedAt = r.closedAt

/-- What a committed operation guarantees. -/
structure Evolves (t t' : PanelTables) : Prop where
  inv : TreeInv t'.slots
  closed : StayClosed t.slots t'.slots

theorem StayClosed.refl (rows : List SlotRow) : StayClosed rows rows := fun r hr _ ↦ ⟨r, hr, rfl, rfl⟩

theorem StayClosed.trans {rows rows' rows'' : List SlotRow} (h : StayClosed rows rows')
    (h' : StayClosed rows' rows'') : StayClosed rows rows'' := by
  intro r hr hc
  obtain ⟨r', hr', hid, hcl⟩ := h r hr hc
  obtain ⟨r'', hr'', hid', hcl'⟩ := h' r' hr' (by rwa [hcl])
  exact ⟨r'', hr'', hid'.trans hid, hcl'.trans hcl⟩

theorem Evolves.refl {t : PanelTables} (h : TreeInv t.slots) : Evolves t t := ⟨h, .refl _⟩

theorem Evolves.trans {t t' t'' : PanelTables} (h : Evolves t t') (h' : Evolves t' t'') :
    Evolves t t'' := ⟨h'.inv, h.closed.trans h'.closed⟩

/-- Only the slots matter. -/
theorem Evolves.of_slots {t t' : PanelTables} (h : TreeInv t.slots) (hs : t'.slots = t.slots) :
    Evolves t t' := ⟨hs ▸ h, hs ▸ .refl _⟩

theorem treeInv_nil : TreeInv [] where
  nodup := List.nodup_nil
  nonempty _ hr := absurd hr List.not_mem_nil
  parent _ hr := absurd hr List.not_mem_nil
  ranked := ⟨fun _ ↦ 0, fun _ _ h ↦ absurd h List.not_mem_nil⟩

namespace PanelTables

theorem parentOf_linksOf {rows : List SlotRow} {x p : JsString} :
    Forest.ParentOf (linksOf rows) x p ↔ ∃ r ∈ rows, r.slotId = x ∧ r.parentSlotId = some p := by
  simp [Forest.ParentOf, linksOf]

theorem linksOf_map {rows : List SlotRow} {f : SlotRow → SlotRow}
    (hid : ∀ r ∈ rows, (f r).slotId = r.slotId)
    (hparent : ∀ r ∈ rows, (f r).parentSlotId = r.parentSlotId) :
    linksOf (rows.map f) = linksOf rows := by
  rw [linksOf, List.map_map, linksOf]
  exact List.map_congr_left fun r hr ↦ Prod.ext (hid r hr) (hparent r hr)

theorem mem_of_slotGet {t : PanelTables} {id : JsString} {r : SlotRow} (h : t.slotGet id = some r) :
    r ∈ t.slots ∧ r.slotId = id :=
  ⟨List.mem_of_find?_eq_some h, by simpa using List.find?_some h⟩

theorem slotGet_eq_none {t : PanelTables} {id : JsString} :
    t.slotGet id = none ↔ ∀ r ∈ t.slots, r.slotId ≠ id := by
  simp [slotGet]

theorem mem_of_requireSlot {t : PanelTables} {id : JsString} {r : SlotRow}
    (h : t.requireSlot id = .ok r) : r ∈ t.slots ∧ r.slotId = id := by
  rw [requireSlot] at h
  split at h
  · rename_i row hrow
    rw [← Except.ok.inj h]
    exact mem_of_slotGet hrow
  · exact absurd h (by simp)

end PanelTables

open PanelTables

theorem TreeInv.eq_of_id {rows : List SlotRow} (h : TreeInv rows) {r q : SlotRow} (hr : r ∈ rows)
    (hq : q ∈ rows) (hid : r.slotId = q.slotId) : r = q :=
  List.inj_on_of_nodup_map h.nodup hr hq hid

theorem TreeInv.slotGet {t : PanelTables} (h : TreeInv t.slots) {r : SlotRow} (hr : r ∈ t.slots) :
    t.slotGet r.slotId = some r := by
  cases hg : t.slotGet r.slotId with
  | none => exact absurd rfl (slotGet_eq_none.mp hg r hr)
  | some q =>
    obtain ⟨hq, hid⟩ := mem_of_slotGet hg
    rw [h.eq_of_id hq hr hid]

/-- **An update of rows** keeps the invariant if it keeps the ids and leaves every row below a row
that is open and of its owner where it is open itself. -/
theorem TreeInv.map {rows : List SlotRow} (h : TreeInv rows) {f : SlotRow → SlotRow}
    (hid : ∀ r ∈ rows, (f r).slotId = r.slotId)
    (hparent : ∀ r ∈ rows, ∀ p, (f r).parentSlotId = some p → ∃ q ∈ rows, q.slotId = p ∧
      ((f r).closedAt = none → (f q).closedAt = none ∧ (f q).ownerUserId = (f r).ownerUserId))
    (hranked : ∃ depth, Forest.Ranked (linksOf (rows.map f)) depth) : TreeInv (rows.map f) where
  nodup := by
    rw [List.map_map, List.map_congr_left (g := (·.slotId)) hid]
    exact h.nodup
  nonempty r' hr' := by
    obtain ⟨r, hr, rfl⟩ := List.mem_map.mp hr'
    rw [hid r hr]
    exact h.nonempty r hr
  parent r' hr' p hp := by
    obtain ⟨r, hr, rfl⟩ := List.mem_map.mp hr'
    obtain ⟨q, hq, rfl, hopen⟩ := hparent r hr p hp
    exact ⟨f q, List.mem_map_of_mem hq, hid q hq, hopen⟩
  ranked := hranked

/-- An update that leaves the links as they are. -/
theorem TreeInv.map_of_links {rows : List SlotRow} (h : TreeInv rows) {f : SlotRow → SlotRow}
    (hid : ∀ r ∈ rows, (f r).slotId = r.slotId)
    (hlink : ∀ r ∈ rows, (f r).parentSlotId = r.parentSlotId)
    (hopen : ∀ r ∈ rows, ∀ q ∈ rows, r.parentSlotId = some q.slotId →
      (r.closedAt = none → q.closedAt = none ∧ q.ownerUserId = r.ownerUserId) →
      (f r).closedAt = none → (f q).closedAt = none ∧ (f q).ownerUserId = (f r).ownerUserId) :
    TreeInv (rows.map f) := by
  apply h.map hid
  · intro r hr p hp
    rw [hlink r hr] at hp
    obtain ⟨q, hq, rfl, hq'⟩ := h.parent r hr p hp
    exact ⟨q, hq, rfl, hopen r hr q hq hp hq'⟩
  · obtain ⟨depth, hd⟩ := h.ranked
    exact ⟨depth, by rwa [linksOf_map hid hlink]⟩

theorem stayClosed_map {rows : List SlotRow} {f : SlotRow → SlotRow}
    (h : ∀ r ∈ rows, r.closedAt ≠ none → (f r).slotId = r.slotId ∧ (f r).closedAt = r.closedAt) :
    StayClosed rows (rows.map f) :=
  fun r hr hc ↦ ⟨f r, List.mem_map_of_mem hr, (h r hr hc).1, (h r hr hc).2⟩

/-! ## Order keys change nothing else -/

/-- The fields the tree is about. -/
def SlotRow.core (r : SlotRow) : JsString × Option JsString × Option ℕ × Option JsString :=
  (r.slotId, r.parentSlotId, r.closedAt, r.ownerUserId)

/-- Tables whose slots have new order keys at most. -/
def SameTree (t t' : PanelTables) : Prop :=
  ∃ f : SlotRow → SlotRow, (∀ r, (f r).core = r.core) ∧ t'.slots = t.slots.map f

theorem allocate_sameTree {parent owner : Option JsString} {placement : Option PanelTreePlacement}
    {exclude : Option JsString} : ∀ {n : ℕ} {t t' : PanelTables} {key : ℤ},
    allocatePanelTreeOrderKey parent owner placement exclude n t = .ok (t', key) → SameTree t t' := by
  intro n
  induction n with
  | zero => intro t t' key h; exact absurd h (by simp [allocatePanelTreeOrderKey])
  | succ n ih =>
    intro t t' key h
    rw [allocatePanelTreeOrderKey] at h
    obtain ⟨k, -, h⟩ := bind_eq_ok.mp h
    cases k with
    | some key' =>
      obtain ⟨rfl, -⟩ := Prod.mk.inj (Except.ok.inj h)
      exact ⟨id, fun _ ↦ rfl, (List.map_id _).symm⟩
    | none =>
      obtain ⟨f, hf, hs⟩ := ih h
      refine ⟨_, fun r ↦ ?_, hs.trans (List.map_map ..)⟩
      rw [Function.comp_apply, hf]
      split_ifs <;> rfl

theorem SameTree.evolves {t t' : PanelTables} (h : TreeInv t.slots) (hs : SameTree t t') :
    Evolves t t' := by
  obtain ⟨f, hf, hs⟩ := hs
  have hid : ∀ r, (f r).slotId = r.slotId := fun r ↦ congrArg (·.1) (hf r)
  have hparent : ∀ r, (f r).parentSlotId = r.parentSlotId := fun r ↦ congrArg (·.2.1) (hf r)
  have hclosed : ∀ r, (f r).closedAt = r.closedAt := fun r ↦ congrArg (·.2.2.1) (hf r)
  have howner : ∀ r, (f r).ownerUserId = r.ownerUserId := fun r ↦ congrArg (·.2.2.2) (hf r)
  constructor
  · rw [hs]
    refine h.map_of_links (fun r _ ↦ hid r) (fun r _ ↦ hparent r) fun r _ q _ _ hopen hc ↦ ?_
    rw [hclosed] at hc ⊢
    rw [howner, howner]
    exact hopen hc
  · rw [hs]
    exact stayClosed_map fun r _ _ ↦ ⟨hid r, hclosed r⟩

/-- An open slot is found again, open and of the same owner. -/
theorem SameTree.exists_open {t t' : PanelTables} (hs : SameTree t t') {q : SlotRow}
    (hq : q ∈ t.slots) : ∃ q' ∈ t'.slots, q'.core = q.core := by
  obtain ⟨f, hf, hs⟩ := hs
  exact ⟨f q, hs ▸ List.mem_map_of_mem hq, hf q⟩

/-! ## The owner of the root -/

theorem rootOwnerFrom_of_open {t : PanelTables} (h : TreeInv t.slots) : ∀ (n : ℕ)
    (seen : List JsString) (owner : Option JsString) (r : SlotRow), r ∈ t.slots → r.closedAt = none →
    (owner = r.ownerUserId ∨ 0 < n ∧ r.slotId ∉ seen) →
    t.rootOwnerFrom n seen r.slotId owner = r.ownerUserId := by
  intro n
  induction n with
  | zero =>
    intro seen owner r hr hc ho
    exact ho.resolve_right fun h ↦ absurd h.1 (lt_irrefl 0)
  | succ n ih =>
    intro seen owner r hr hc ho
    rw [rootOwnerFrom]
    by_cases hstop : r.slotId = [] ∨ r.slotId ∈ seen
    · rw [if_pos hstop]
      have hseen := hstop.resolve_left (h.nonempty r hr)
      exact ho.resolve_right fun h ↦ h.2 hseen
    · rw [if_neg hstop, h.slotGet hr]
      simp only
      cases hp : r.parentSlotId with
      | none => rfl
      | some p =>
        -- the parent is open and has the same owner, so the walk carries the answer already
        obtain ⟨q, hq, rfl, hopen⟩ := h.parent r hr p hp
        obtain ⟨hqc, hqo⟩ := hopen hc
        simp only
        rw [ih _ _ q hq hqc (Or.inl hqo.symm), hqo]

theorem rootOwnerOf_of_open {t : PanelTables} (h : TreeInv t.slots) {r : SlotRow} (hr : r ∈ t.slots)
    (hc : r.closedAt = none) : t.rootOwnerOf r.slotId = r.ownerUserId :=
  rootOwnerFrom_of_open h _ _ _ r hr hc (Or.inr ⟨Nat.succ_pos _, List.not_mem_nil⟩)

/-! ## The operations -/

theorem evolves_appendHistoryRow {db : Surroundings} {slotId : JsString} {cursor : ℕ}
    {entry : SlotHistoryEntryInput} {t t' : PanelTables} (h : TreeInv t.slots)
    (ht : appendHistoryRow db slotId cursor entry t = .ok t') : Evolves t t' := by
  rw [appendHistoryRow] at ht
  split at ht
  · exact absurd ht (by simp)
  · rw [← Except.ok.inj ht]
    exact .of_slots h rfl

/-- A new open slot below nothing, or below an open slot of its owner. -/
theorem evolves_insertSlot {db : Surroundings} {row : SlotRow} {t t' : PanelTables}
    (h : TreeInv t.slots) (hne : row.slotId ≠ []) (hfresh : ∀ r ∈ t.slots, r.slotId ≠ row.slotId)
    (hopen : row.closedAt = none)
    (hparent : ∀ p, row.parentSlotId = some p → ∃ q ∈ t.slots, q.slotId = p ∧ q.closedAt = none ∧
      q.ownerUserId = row.ownerUserId)
    (ht : insertSlot db row t = .ok t') : Evolves t t' := by
  rw [insertSlot] at ht
  split at ht
  · exact absurd ht (by simp)
  obtain rfl := Except.ok.inj ht
  refine ⟨⟨?_, ?_, ?_, ?_⟩, fun r hr _ ↦ ⟨r, List.mem_append_left _ hr, rfl, rfl⟩⟩
  · rw [List.map_append, List.nodup_append]
    refine ⟨h.nodup, List.nodup_singleton _, fun x hx y hy hxy ↦ ?_⟩
    obtain ⟨r, hr, rfl⟩ := List.mem_map.mp hx
    exact hfresh r hr (hxy.trans (List.mem_singleton.mp hy))
  · intro r hr
    rcases List.mem_append.mp hr with hr | hr
    · exact h.nonempty r hr
    · exact List.mem_singleton.mp hr ▸ hne
  · intro r hr p hp
    rcases List.mem_append.mp hr with hr | hr
    · obtain ⟨q, hq, hqp, hq'⟩ := h.parent r hr p hp
      exact ⟨q, List.mem_append_left _ hq, hqp, hq'⟩
    · obtain rfl := List.mem_singleton.mp hr
      obtain ⟨q, hq, hqp, hq'⟩ := hparent p hp
      exact ⟨q, List.mem_append_left _ hq, hqp, fun _ ↦ hq'⟩
  · obtain ⟨depth, hd⟩ := h.ranked
    refine ⟨_, Forest.ranked_insert hd (x := row.slotId) (p := row.parentSlotId) ?_ ?_ ?_ ?_⟩
    · intro hself
      obtain ⟨q, hq, hqp, -⟩ := hparent _ hself
      exact hfresh q hq hqp
    · -- a parent is a slot, and this one is not there yet
      intro y hy
      obtain ⟨r, hr, -, hp⟩ := parentOf_linksOf.mp hy
      obtain ⟨q, hq, hqp, -⟩ := h.parent r hr _ hp
      exact hfresh q hq hqp
    · intro p hp
      obtain ⟨r, hr, hid, -⟩ := parentOf_linksOf.mp hp
      exact hfresh r hr hid
    · intro y p hyp
      obtain ⟨r, hr, rfl, hp⟩ := parentOf_linksOf.mp hyp
      rcases List.mem_append.mp hr with hr | hr
      · exact Or.inl (parentOf_linksOf.mpr ⟨r, hr, rfl, hp⟩)
      · obtain rfl := List.mem_singleton.mp hr
        exact Or.inr ⟨rfl, hp⟩

theorem panelSlotId_ne_nil (id : PanelSlotId) : id.val ≠ [] := by
  intro hnil
  have := List.prefix_nil.mp (hnil ▸ id.property)
  exact absurd this (by decide)

/-- The destination of a slot that is about to be created is open. -/
def ParentIsOpen (input : SlotCreateInput) (t : PanelTables) : Prop :=
  t.slotGet input.slotId = none → ∀ p, input.parentSlotId = some p →
    ∃ q ∈ t.slots, q.slotId = p.val ∧ q.closedAt = none

theorem evolves_slotCreate {db : Surroundings} {input : SlotCreateInput} {t t' : PanelTables}
    (h : TreeInv t.slots) (hp : ParentIsOpen input t) (ht : slotCreate db input t = .ok t') :
    Evolves t t' := by
  rw [slotCreate] at ht
  split at ht
  · exact absurd ht (by simp)
  cases hg : t.slotGet input.slotId with
  | some existing =>
    rw [hg] at ht
    obtain ⟨-, -, rfl⟩ := map_eq_ok.mp ht
    exact .refl h
  | none =>
    rw [hg] at ht
    simp only at ht
    obtain ⟨⟨t₁, key⟩, halloc, ht⟩ := bind_eq_ok.mp ht
    obtain ⟨t₂, hins, ht⟩ := bind_eq_ok.mp ht
    have hsame := allocate_sameTree halloc
    have h₁ := hsame.evolves h
    have h₂ : Evolves t₁ t₂ := by
      refine evolves_insertSlot h₁.inv (panelSlotId_ne_nil _) ?_ rfl ?_ hins
      · intro r hr hid
        obtain ⟨f, hf, hs⟩ := hsame
        obtain ⟨r₀, hr₀, rfl⟩ := List.mem_map.mp (hs ▸ hr)
        have hid₀ : (f r₀).slotId = r₀.slotId := congrArg (·.1) (hf r₀)
        exact slotGet_eq_none.mp hg r₀ hr₀ (hid₀.symm.trans hid)
      · intro p hp'
        simp only [Option.map_eq_some_iff] at hp'
        obtain ⟨parent, hparent, rfl⟩ := hp'
        obtain ⟨q, hq, hqp, hqc⟩ := hp hg parent hparent
        obtain ⟨q', hq', hcore⟩ := hsame.exists_open hq
        simp only [SlotRow.core, Prod.mk.injEq] at hcore
        obtain ⟨hid, -, hcl, hown⟩ := hcore
        refine ⟨q', hq', hid.trans hqp, hcl.trans hqc, ?_⟩
        rw [hown, hparent, Option.map_some]
        simp only
        rw [← hqp, rootOwnerOf_of_open h hq hqc]
    split at ht
    · rw [← Except.ok.inj ht]
      exact h₁.trans h₂
    · exact (h₁.trans h₂).trans (evolves_appendHistoryRow h₂.inv ht)

/-! ### Moving -/

section

variable (slotId : JsString) (parentSlotId : Option JsString) (key : ℤ) (s : List JsString)
  (owner : Option JsString) (r : SlotRow)

/-- The first update of a move. -/
def reparent (r : SlotRow) : SlotRow :=
  if r.slotId = slotId then { r with parentSlotId := parentSlotId, sortKey := key } else r

/-- The second update of a move. -/
def reown (r : SlotRow) : SlotRow := if r.slotId ∈ s then { r with ownerUserId := owner } else r

@[simp] theorem reparent_slotId : (reparent slotId parentSlotId key r).slotId = r.slotId := by
  rw [reparent]; split_ifs <;> rfl

@[simp] theorem reparent_closedAt : (reparent slotId parentSlotId key r).closedAt = r.closedAt := by
  rw [reparent]; split_ifs <;> rfl

@[simp] theorem reparent_ownerUserId :
    (reparent slotId parentSlotId key r).ownerUserId = r.ownerUserId := by
  rw [reparent]; split_ifs <;> rfl

@[simp] theorem reparent_parentSlotId : (reparent slotId parentSlotId key r).parentSlotId =
    if r.slotId = slotId then parentSlotId else r.parentSlotId := by
  rw [reparent]; split_ifs <;> rfl

@[simp] theorem reown_slotId : (reown s owner r).slotId = r.slotId := by
  rw [reown]; split_ifs <;> rfl

@[simp] theorem reown_closedAt : (reown s owner r).closedAt = r.closedAt := by
  rw [reown]; split_ifs <;> rfl

@[simp] theorem reown_parentSlotId : (reown s owner r).parentSlotId = r.parentSlotId := by
  rw [reown]; split_ifs <;> rfl

@[simp] theorem reown_ownerUserId :
    (reown s owner r).ownerUserId = if r.slotId ∈ s then owner else r.ownerUserId := by
  rw [reown]; split_ifs <;> rfl

end

section

variable {rows : List SlotRow} {slotId : JsString} {parentSlotId owner : Option JsString} {key : ℤ}

variable (key) in
/-- The links after a move: the moved slot has its new parent, every other one its old. -/
theorem parentOf_reparent (x p : JsString) :
    Forest.ParentOf (linksOf (rows.map (reparent slotId parentSlotId key))) x p ↔
      ∃ r ∈ rows, r.slotId = x ∧ (if r.slotId = slotId then parentSlotId else r.parentSlotId) = some p := by
  rw [parentOf_linksOf]
  simp

variable (key) in
/-- Hanging the slot below nothing, or below a slot outside its subtree, makes no cycle. -/
theorem ranked_reparent {depth : JsString → ℕ} (hd : Forest.Ranked (linksOf rows) depth)
    (hdest : ∀ p, parentSlotId = some p →
      ∃ below, Forest.subtree (linksOf rows) slotId = some below ∧ p ∉ below) :
    ∃ depth', Forest.Ranked (linksOf (rows.map (reparent slotId parentSlotId key))) depth' := by
  by_cases hmem : ∃ r ∈ rows, r.slotId = slotId
  · cases hps : parentSlotId with
    | none =>
      refine ⟨depth, fun x p hxp ↦ ?_⟩
      obtain ⟨r, hr, rfl, hp⟩ := (parentOf_reparent key x p).mp hxp
      split_ifs at hp
      exact hd _ _ (parentOf_linksOf.mpr ⟨r, hr, rfl, hp⟩)
    | some dest =>
      obtain ⟨below, hbelow, hnot⟩ := hdest dest hps
      have hsub := Forest.isSubtree_of_subtree hbelow
      obtain ⟨r₀, hr₀, hid₀⟩ := hmem
      have hroot : slotId ∈ below :=
        hsub.root_mem ⟨r₀.parentSlotId, List.mem_map.mpr ⟨r₀, hr₀, by rw [hid₀]⟩⟩
      refine ⟨_, Forest.ranked_rehang hd hsub hnot hroot fun x p hxp ↦ ?_⟩
      obtain ⟨r, hr, rfl, hp⟩ := (parentOf_reparent key x p).mp hxp
      split_ifs at hp with hx
      · exact Or.inl ⟨hx, (Option.some_inj.mp hp).symm⟩
      · exact Or.inr ⟨hx, parentOf_linksOf.mpr ⟨r, hr, rfl, hp⟩⟩
  · refine ⟨depth, fun x p hxp ↦ ?_⟩
    obtain ⟨r, hr, rfl, hp⟩ := (parentOf_reparent key x p).mp hxp
    rw [if_neg fun hx ↦ hmem ⟨r, hr, hx⟩] at hp
    exact hd _ _ (parentOf_linksOf.mpr ⟨r, hr, rfl, hp⟩)

/-- **Hanging a subtree below an open slot**, or below nothing, and giving it its new owner. -/
theorem TreeInv.move (h : TreeInv rows) {s : List JsString}
    (hdest : ∀ p, parentSlotId = some p →
      (∃ q ∈ rows, q.slotId = p ∧ q.closedAt = none ∧ q.ownerUserId = owner) ∧
      ∃ below, Forest.subtree (linksOf rows) slotId = some below ∧ p ∉ below)
    (hs : Forest.subtree (linksOf (rows.map (reparent slotId parentSlotId key))) slotId = some s) :
    TreeInv ((rows.map (reparent slotId parentSlotId key)).map (reown s owner)) := by
  have hsub := Forest.isSubtree_of_subtree hs
  obtain ⟨depth, hd⟩ := h.ranked
  have hranked := ranked_reparent key hd fun p hp ↦ (hdest p hp).2
  rw [List.map_map]
  apply h.map (fun r _ ↦ by simp)
  · intro r hr p hp
    simp only [Function.comp_apply, reown_parentSlotId, reparent_parentSlotId] at hp
    have hlink := (parentOf_reparent key r.slotId p).mpr ⟨r, hr, rfl, hp⟩
    simp only [Function.comp_apply, reown_closedAt, reparent_closedAt, reown_ownerUserId,
      reparent_slotId, reparent_ownerUserId]
    by_cases hroot : r.slotId = slotId
    · rw [if_pos hroot] at hp
      obtain ⟨⟨q, hq, rfl, hqc, hqo⟩, -⟩ := hdest p hp
      have hin : r.slotId ∈ s := hroot ▸ hsub.root_mem ⟨parentSlotId, List.mem_map.mpr
        ⟨_, List.mem_map_of_mem hr, by simp [hroot]⟩⟩
      refine ⟨q, hq, rfl, fun _ ↦ ⟨hqc, ?_⟩⟩
      rw [if_pos hin]
      split_ifs
      exacts [rfl, hqo]
    · rw [if_neg hroot] at hp
      obtain ⟨q, hq, rfl, hopen⟩ := h.parent r hr p hp
      refine ⟨q, hq, rfl, fun hc ↦ ⟨(hopen hc).1, ?_⟩⟩
      -- the slot is in the subtree exactly when its parent is
      have hiff : q.slotId ∈ s ↔ r.slotId ∈ s := by
        refine ⟨fun hin ↦ hsub.closed _ _ hlink hin, fun hin ↦ ?_⟩
        obtain ⟨p', hp', hlink'⟩ := (hsub.below _ hin).resolve_left hroot
        obtain ⟨r', hr', hrr, hpr⟩ := (parentOf_reparent key _ _).mp hlink'
        rw [h.eq_of_id hr' hr hrr, if_neg hroot, hp] at hpr
        exact Option.some_inj.mp hpr ▸ hp'
      rw [if_congr hiff rfl (hopen hc).2]
  · rw [← List.map_map, linksOf_map (fun r _ ↦ by simp) (fun r _ ↦ by simp)]
    exact hranked

end

theorem updateSlots_decide (t : PanelTables) {P : SlotRow → Prop} [DecidablePred P]
    (f : SlotRow → SlotRow) : (t.updateSlots (fun row ↦ decide (P row)) f).slots =
      t.slots.map fun row ↦ if P row then f row else row := by
  simp [updateSlots]

theorem evolves_slotMove {slotId : JsString} {parentSlotId : Option JsString}
    {placement : Option PanelTreePlacement} {ownerUserId : Option JsString} {t t' : PanelTables}
    (h : TreeInv t.slots) (ht : slotMove slotId parentSlotId placement ownerUserId t = .ok t') :
    Evolves t t' := by
  rw [slotMove] at ht
  obtain ⟨slot, hslot, ht⟩ := bind_eq_ok.mp ht
  split at ht
  · exact absurd ht (by simp)
  obtain ⟨destOwner, howner, ht⟩ := bind_eq_ok.mp ht
  obtain ⟨⟨t₁, key⟩, halloc, ht⟩ := bind_eq_ok.mp ht
  have hsame := allocate_sameTree halloc
  have h₁ := hsame.evolves h
  simp only at ht
  split at ht
  · exact absurd ht (by simp)
  rename_i s hs
  obtain rfl := Except.ok.inj ht
  have hrows : ∀ t : PanelTables, (t.updateSlots (fun row ↦ decide (row.slotId = slotId))
      fun row ↦ { row with parentSlotId := parentSlotId, sortKey := key }).slots =
        t.slots.map (reparent slotId parentSlotId key) := fun t ↦ updateSlots_decide t _
  rw [hrows] at hs
  refine h₁.trans ⟨?_, ?_⟩
  · rw [updateSlots_decide, hrows]
    refine h₁.inv.move (fun p hp ↦ ?_) hs
    -- the checks on the destination were made before the order keys changed
    subst hp
    rw [moveOwner] at howner
    obtain ⟨parent, hparent, howner⟩ := bind_eq_ok.mp howner
    obtain ⟨hmem, rfl⟩ := mem_of_requireSlot hparent
    split at howner
    · exact absurd howner (by simp)
    rename_i hopen
    rw [not_not] at hopen
    split at howner
    · exact absurd howner (by simp)
    rename_i below hbelow
    split at howner
    · exact absurd howner (by simp)
    rename_i hnot
    obtain ⟨q, hq, hcore⟩ := hsame.exists_open hmem
    simp only [SlotRow.core, Prod.mk.injEq] at hcore
    refine ⟨⟨q, hq, hcore.1, hcore.2.2.1.trans hopen, ?_⟩, below, ?_, hnot⟩
    · rw [hcore.2.2.2, ← Except.ok.inj howner, rootOwnerOf_of_open h hmem hopen]
    · obtain ⟨f, hf, hfs⟩ := hsame
      rw [hfs, linksOf_map (fun r _ ↦ congrArg (·.1) (hf r)) (fun r _ ↦ congrArg (·.2.1) (hf r)),
        ← (mem_of_requireSlot hslot).2]
      exact hbelow
  · rw [updateSlots_decide, hrows, List.map_map]
    exact stayClosed_map fun r _ _ ↦ ⟨(reown_slotId ..).trans (reparent_slotId ..),
      (reown_closedAt ..).trans (reparent_closedAt ..)⟩

/-! ### Closing -/

theorem mem_openSlots {t : PanelTables} {r : SlotRow} :
    r ∈ t.openSlots ↔ r ∈ t.slots ∧ r.closedAt = none := by
  simp [openSlots]

theorem evolves_slotClose {db : Surroundings} {slotId : JsString} {t t' : PanelTables}
    {result : PanelCloseResult} (h : TreeInv t.slots)
    (ht : slotClose db slotId t = .ok (t', result)) : Evolves t t' := by
  rw [slotClose] at ht
  obtain ⟨root, hroot, ht⟩ := bind_eq_ok.mp ht
  obtain ⟨hmem, rfl⟩ := mem_of_requireSlot hroot
  split at ht
  · obtain ⟨rfl, -⟩ := Prod.mk.inj (Except.ok.inj ht)
    exact .refl h
  rename_i hrootOpen
  rw [not_not] at hrootOpen
  split at ht
  · exact absurd ht (by simp)
  rename_i s hs
  obtain ⟨rfl, -⟩ := Prod.mk.inj (Except.ok.inj ht)
  have hsub := Forest.isSubtree_of_subtree hs
  -- the query sees the open slots only, so the slots it finds are open
  have hopen : ∀ r ∈ t.slots, r.slotId ∈ s → r.closedAt = none := by
    intro r hr hin
    rcases hsub.below _ hin with hid | ⟨p, -, hp⟩
    · exact h.eq_of_id hr hmem hid ▸ hrootOpen
    · obtain ⟨r', hr', hid, -⟩ := parentOf_linksOf.mp hp
      obtain ⟨hr', hc'⟩ := mem_openSlots.mp hr'
      exact h.eq_of_id hr' hr hid ▸ hc'
  constructor
  · rw [updateSlots_decide]
    apply h.map_of_links
    · intro r _
      split_ifs <;> rfl
    · intro r _
      split_ifs <;> rfl
    · intro r hr q hq hp hinv hc
      by_cases hin : r.slotId ∈ s
      · rw [if_pos hin] at hc
        exact absurd hc (by simp)
      · rw [if_neg hin] at hc ⊢
        have hlink : Forest.ParentOf (linksOf t.openSlots) r.slotId q.slotId :=
          parentOf_linksOf.mpr ⟨r, mem_openSlots.mpr ⟨hr, hc⟩, rfl, hp⟩
        rw [if_neg fun hq' ↦ hin (hsub.closed _ _ hlink hq')]
        exact hinv hc
  · rw [updateSlots_decide]
    refine stayClosed_map fun r hr hc ↦ ?_
    rw [if_neg fun hin ↦ hc (hopen r hr hin)]
    exact ⟨rfl, rfl⟩

theorem evolves_closeAll {db : Surroundings} : ∀ {ids : List JsString} {t : PanelTables},
    TreeInv t.slots → Evolves t (closeAll db ids t).1 := by
  intro ids
  induction ids with
  | nil => intro t h; exact .refl h
  | cons id ids ih =>
    intro t h
    rw [closeAll]
    split
    · exact .refl h
    · rename_i t' result hc
      have hstep := evolves_slotClose h hc
      exact hstep.trans (ih hstep.inv)

theorem evolves_slotCloseOwnedRoots {db : Surroundings} {ownerUserId : JsString} {t : PanelTables}
    (h : TreeInv t.slots) : Evolves t (slotCloseOwnedRoots db ownerUserId t).1 := by
  rw [slotCloseOwnedRoots]
  split
  · exact .refl h
  · exact evolves_closeAll h

/-! ### Initializing -/

theorem evolves_normalizeOwner {owner : JsString} {t : PanelTables} (h : TreeInv t.slots) :
    Evolves t (normalizeOwner owner t) := by
  rw [normalizeOwner]
  split
  · simp only
    constructor
    · apply h.map_of_links
      · intro r _
        split_ifs <;> rfl
      · intro r _
        split_ifs <;> rfl
      · -- whichever rows are written, every row has this owner afterwards
        intro r _ q _ _ hinv hc
        have howner : ∀ r : SlotRow, ((if (decide (r.ownerUserId ≠ some owner) ||
            decide (r.parentSlotId = none ∧ r.closedAt = none)) = true then
            { r with
              ownerUserId := some owner
              sortKey := (rankedKey ((t.slots.filter fun row ↦
                decide (row.parentSlotId = none ∧ row.closedAt = none)).insertionSort
                  (rootLe owner · ·)) r.slotId).getD r.sortKey } else r).ownerUserId) = some owner := by
          intro r
          split_ifs with hw
          · rfl
          · simp only [ne_eq, Bool.or_eq_true, decide_eq_true_eq, not_or, not_not] at hw
            exact hw.1
        refine ⟨?_, (howner q).trans (howner r).symm⟩
        have hc' : r.closedAt = none := by
          split_ifs at hc <;> exact hc
        split_ifs <;> exact (hinv hc').1
    · refine stayClosed_map fun r _ _ ↦ ?_
      split_ifs <;> exact ⟨rfl, rfl⟩
  · exact .refl h

theorem evolves_seedPanels {owner : Option JsString} : ∀ {inputs : List InitPanelEntry}
    {db : Surroundings} {ids : List JsString} {t : PanelTables}
    {r : PanelTables × Surroundings × List JsString}, TreeInv t.slots →
    seedPanels owner inputs db ids t = .ok r → Evolves t r.1 := by
  intro inputs
  induction inputs with
  | nil =>
    intro db ids t r h hr
    rw [← Except.ok.inj hr]
    exact .refl h
  | cons input rest ih =>
    intro db ids t r h hr
    rw [seedPanels] at hr
    split at hr
    · exact absurd hr (by simp)
    · obtain ⟨t', ht', hr⟩ := bind_eq_ok.mp hr
      have hstep := evolves_slotCreate h (fun _ p hp ↦ absurd hp (by simp)) ht'
      exact hstep.trans (ih hstep.inv hr)

theorem evolves_initializePanels {db : Surroundings} {inputs : List InitPanelEntry}
    {owner : Option JsString} {t : PanelTables} {r : PanelTables × List PanelDetail}
    (h : TreeInv t.slots) (hr : initializePanels db inputs owner t = .ok r) : Evolves t r.1 := by
  rw [initializePanels] at hr
  obtain ⟨⟨t₂, db', ids⟩, hseed, rfl⟩ := map_eq_ok.mp hr
  have h₁ : Evolves t ((owner.filter (· ≠ [])).elim t (normalizeOwner · t)) := by
    cases owner.filter (· ≠ []) with
    | none => exact .refl h
    | some o => exact evolves_normalizeOwner h
  refine h₁.trans ?_
  rw [adoptSeed] at hseed
  split at hseed
  · rw [← (Prod.mk.inj (Except.ok.inj hseed)).1]
    exact .refl h₁.inv
  · obtain ⟨⟨t₃, db'', ids'⟩, hnew, heq⟩ := map_eq_ok.mp hseed
    obtain ⟨rfl, -⟩ := Prod.mk.inj heq
    have h₃ : Evolves ((owner.filter (· ≠ [])).elim t (normalizeOwner · t)) t₃ := by
      split at hnew
      · exact evolves_seedPanels h₁.inv hnew
      · rw [← (Prod.mk.inj (Except.ok.inj hnew)).1]
        exact .refl h₁.inv
    exact h₃.trans (.of_slots h₃.inv rfl)

/-! ## Runs -/

/-- A new slot is created below an open slot, or below none. -/
def parentIsOpen (t : PanelTables) (e : Surroundings × PanelCall) : Bool :=
  match e.2 with
  | .slotCreate input => (t.slotGet input.slotId).isSome ||
      input.parentSlotId.all fun p ↦ t.openSlots.any fun row ↦ decide (row.slotId = p.val)
  | _ => true

def panelStep (t : PanelTables) (e : Surroundings × PanelCall) : Option PanelTables := some (perform t e)

theorem evolves_committed {t : PanelTables} (h : TreeInv t.slots) {r : Except PanelError PanelTables}
    (hr : ∀ t', r = .ok t' → Evolves t t') : Evolves t (committed t r) := by
  cases r with
  | ok t' => exact hr t' rfl
  | error e => exact .refl h

/-- **One call**, accepted or rejected. -/
theorem evolves_perform {t : PanelTables} (h : TreeInv t.slots) {e : Surroundings × PanelCall}
    (hok : parentIsOpen t e = true) : Evolves t (perform t e) := by
  obtain ⟨db, call⟩ := e
  cases call with
  | initializePanels inputs owner =>
    refine evolves_committed h fun t' ht ↦ ?_
    obtain ⟨r, hr, rfl⟩ := map_eq_ok.mp ht
    exact evolves_initializePanels h hr
  | slotCreate input =>
    refine evolves_committed h fun t' ht ↦ evolves_slotCreate h (fun hnew p hp ↦ ?_) ht
    rw [parentIsOpen] at hok
    simp only [hnew, Option.isSome_none, Bool.false_or, hp, Option.all_some, List.any_eq_true,
      decide_eq_true_eq] at hok
    obtain ⟨q, hq, hid⟩ := hok
    exact ⟨q, (mem_openSlots.mp hq).1, hid, (mem_openSlots.mp hq).2⟩
  | slotMove slotId parent placement owner =>
    exact evolves_committed h fun t' ht ↦ evolves_slotMove h ht
  | slotClose slotId =>
    refine evolves_committed h fun t' ht ↦ ?_
    obtain ⟨⟨t'', result⟩, hr, rfl⟩ := map_eq_ok.mp ht
    exact evolves_slotClose h hr
  | slotCloseOwnedRoots owner => exact evolves_slotCloseOwnedRoots h

/-- What a panel tree is: a forest whose open slots hang below open slots, up to a root of the same
owner. -/
structure PanelTree (t : PanelTables) : Prop where
  acyclic : ∀ id, ¬Relation.TransGen (Forest.ParentOf (linksOf t.slots)) id id
  parent_open : ∀ r ∈ t.slots, r.closedAt = none → ∀ p, r.parentSlotId = some p →
    ∃ q ∈ t.slots, q.slotId = p ∧ q.closedAt = none
  owner_root : ∀ r ∈ t.slots, r.closedAt = none → ∃ q ∈ t.slots, q.parentSlotId = none ∧
    Relation.ReflTransGen (Forest.ParentOf (linksOf t.slots)) r.slotId q.slotId ∧
    q.ownerUserId = r.ownerUserId

theorem TreeInv.panelTree {t : PanelTables} (h : TreeInv t.slots) : PanelTree t := by
  obtain ⟨depth, hd⟩ := h.ranked
  refine ⟨hd.acyclic, fun r hr hc p hp ↦ ?_, fun r hr hc ↦ ?_⟩
  · obtain ⟨q, hq, hid, hopen⟩ := h.parent r hr p hp
    exact ⟨q, hq, hid, (hopen hc).1⟩
  · -- induction on the depth: the parent has the owner, and a root
    induction hn : depth r.slotId using Nat.strong_induction_on generalizing r with
    | _ n ih =>
      cases hp : r.parentSlotId with
      | none => exact ⟨r, hr, hp, .refl, rfl⟩
      | some p =>
        obtain ⟨q, hq, rfl, hopen⟩ := h.parent r hr p hp
        have hlink : Forest.ParentOf (linksOf t.slots) r.slotId q.slotId :=
          parentOf_linksOf.mpr ⟨r, hr, rfl, hp⟩
        obtain ⟨root, hroot, hnone, hpath, howner⟩ :=
          ih _ (hn ▸ hd _ _ hlink) q hq (hopen hc).1 rfl
        exact ⟨root, hroot, hnone, .head hlink hpath, howner.trans (hopen hc).2⟩

theorem evolves_of_reachable {t t' : PanelTables} (h : TreeInv t.slots)
    (hr : Reachable panelStep parentIsOpen t t') : Evolves t t' := by
  refine hr.invariant (.refl h) fun s s' e hs hok hstep ↦ ?_
  obtain rfl := Option.some_inj.mp hstep
  exact hs.trans (evolves_perform hs.inv hok)

/-- **The panel tree of every run** in which no slot is created below a closed or missing one: it is
a tree in every state, and what is closed then is closed ever after. -/
theorem panel_tree_of_reachable {t : PanelTables}
    (h : Reachable panelStep parentIsOpen .empty t) :
    PanelTree t ∧ ∀ t', Reachable panelStep parentIsOpen t t' → StayClosed t.slots t'.slots := by
  have ht := evolves_of_reachable treeInv_nil h
  exact ⟨ht.inv.panelTree, fun t' h' ↦ (evolves_of_reachable ht.inv h').closed⟩

/-! ### Two runs -/

/-- A storage that enforces references, at the given time. -/
def atTime (now : ℕ) : Surroundings := ⟨true, fun _ ↦ true, plainNfc, now⟩

def slotA : PanelSlotId := ⟨lit "panel:tree/a", by decide +kernel⟩

def slotB : PanelSlotId := ⟨lit "panel:tree/b", by decide +kernel⟩

/-- A slot below another one moves to the top when this one closes. -/
def promoted : List (Surroundings × PanelCall) :=
  [(atTime 1, .slotCreate ⟨slotA, none, some (lit "u"), none, none⟩),
    (atTime 2, .slotCreate ⟨slotB, some slotA, none, none, none⟩),
    (atTime 3, .slotMove slotB.val none none (some (lit "v"))),
    (atTime 4, .slotClose slotA.val)]

theorem panel_tree_of_promoted :
    let t := promoted.foldl perform .empty
    t.slots.length = 2 ∧ PanelTree t ∧
      ∀ t', Reachable panelStep parentIsOpen t t' → StayClosed t.slots t'.slots := by
  have hrun : run panelStep parentIsOpen .empty promoted = some (promoted.foldl perform .empty) := by
    decide +kernel
  exact ⟨by decide +kernel, panel_tree_of_reachable (.run .init hrun)⟩

/-- A slot is created below one that has closed. -/
def belowClosed : List (Surroundings × PanelCall) :=
  [(atTime 1, .slotCreate ⟨slotA, none, some (lit "u"), none, none⟩),
    (atTime 2, .slotClose slotA.val),
    (atTime 3, .slotCreate ⟨slotB, some slotA, none, none, none⟩)]

/-- Every open slot has an open parent, or none. -/
def parentsOpen (t : PanelTables) : Bool :=
  t.openSlots.all fun row ↦ row.parentSlotId.all fun p ↦
    t.openSlots.any fun parent ↦ decide (parent.slotId = p)

theorem PanelTree.parentsOpen {t : PanelTables} (h : PanelTree t) : parentsOpen t = true := by
  rw [WorkspaceState.parentsOpen, List.all_eq_true]
  intro r hr
  obtain ⟨hr, hc⟩ := mem_openSlots.mp hr
  cases hp : r.parentSlotId with
  | none => rfl
  | some p =>
    obtain ⟨q, hq, hid, hqc⟩ := h.parent_open r hr hc p hp
    exact List.any_eq_true.mpr ⟨q, mem_openSlots.mpr ⟨hq, hqc⟩, decide_eq_true hid⟩

/-- After these calls an open slot has a closed parent. -/
theorem not_always_panel_tree : ¬∀ t, Reachable panelStep anyStep .empty t →
    PanelTree t ∧ ∀ t', Reachable panelStep anyStep t t' → StayClosed t.slots t'.slots := by
  intro h
  have hrun : run panelStep anyStep .empty belowClosed = some (belowClosed.foldl perform .empty) := by
    decide +kernel
  exact absurd (h _ (.run .init hrun)).1.parentsOpen (by decide +kernel)

end Vibestudio.WorkspaceState

import Mathlib
import Vibestudio.WorkspaceState.PanelTree

/-!
# The queries of the panel tree end

A recursive query over parent links, or the recursion that looks for an order key, could run for
ever. In a panel tree neither does: there is no cycle, and one rebalancing leaves room between any
two slots of a group. So a move or a closing gives a result or an error that the source names.
-/

namespace Vibestudio.WorkspaceState

open Js Vibestudio.Shared PanelTables

/-! ## Errors of the parts -/

theorem bind_ne_error {ε α β : Type} {x : Except ε α} {f : α → Except ε β} {e : ε}
    (hx : x ≠ .error e) (hf : ∀ a, x = .ok a → f a ≠ .error e) : x.bind f ≠ .error e := by
  cases x with
  | error e' => exact fun h ↦ hx (congrArg Except.error (Except.error.inj h))
  | ok a => exact hf a rfl

theorem requireSlot_ne_diverges (t : PanelTables) (id : JsString) :
    t.requireSlot id ≠ .error .diverges := by
  rw [requireSlot]
  split <;> simp

theorem anchor_ne_diverges (t : PanelTables) (parent owner exclude : Option JsString)
    (slotId : Option JsString) : t.anchor parent owner exclude slotId ≠ .error .diverges := by
  rw [anchor.eq_def]
  split
  · simp
  · simp
  · refine bind_ne_error (requireSlot_ne_diverges _ _) ?_
    intro row _
    split
    · simp
    · split <;> simp

/-- An anchor is a sibling. -/
theorem anchor_mem {t : PanelTables} {parent owner exclude slotId : Option JsString} {row : SlotRow}
    (hex : exclude ≠ some [] ) (hne : ∀ r ∈ t.slots, r.slotId ≠ [])
    (h : t.anchor parent owner exclude slotId = .ok (some row)) :
    row ∈ t.siblings parent owner exclude := by
  rw [anchor.eq_def] at h
  split at h
  · exact absurd h (by simp)
  · exact absurd h (by simp)
  · obtain ⟨row', hrow, h⟩ := bind_eq_ok.mp h
    obtain ⟨hmem, -⟩ := mem_of_requireSlot hrow
    split at h
    · exact absurd h (by simp)
    rename_i hok
    rw [not_or, not_not] at hok
    split at h
    · rename_i hgroup
      obtain rfl := Option.some_inj.mp (Except.ok.inj h)
      rw [siblings, List.mem_filter, openSlots, List.mem_filter, Bool.and_eq_true]
      refine ⟨⟨hmem, decide_eq_true hok.1⟩, decide_eq_true ?_, hgroup⟩
      cases exclude with
      | none => exact hne _ hmem
      | some id => exact fun hid ↦ hok.2 (congrArg some hid)
    · exact absurd h (by simp)

/-- After a rebalancing every order key of the group is a multiple of the step. -/
theorem dvd_sortKey_rebalance {t : PanelTables} {parent owner exclude : Option JsString}
    {row : SlotRow} (h : row ∈ (t.rebalancePanelTreeGroup parent owner exclude).siblings parent owner exclude) :
    panelTreeOrderStep ∣ row.sortKey := by
  rw [siblings, List.mem_filter, openSlots, List.mem_filter] at h
  obtain ⟨⟨hmem, hopen⟩, hgroup⟩ := h
  rw [rebalancePanelTreeGroup] at hmem
  set ranked := (t.siblings parent owner exclude).insertionSort (siblingLe · ·) with hranked
  rw [updateSlots] at hmem
  obtain ⟨r, hr, rfl⟩ := List.mem_map.mp hmem
  -- the row was in the group before, with the same fields but the order key
  have hin : (rankedKey ranked r.slotId).isSome := by
    rw [rankedKey, Option.isSome_map, List.findIdx?_isSome, List.any_eq_true]
    refine ⟨r, (List.mem_insertionSort _).mpr ?_, decide_eq_true rfl⟩
    rw [siblings, List.mem_filter, openSlots, List.mem_filter]
    split_ifs at hopen hgroup
    · exact ⟨⟨hr, hopen⟩, hgroup⟩
    · exact ⟨⟨hr, hopen⟩, hgroup⟩
  rw [if_pos hin]
  obtain ⟨k, hk⟩ := Option.isSome_iff_exists.mp hin
  rw [hk, Option.getD_some]
  rw [rankedKey] at hk
  obtain ⟨i, -, rfl⟩ := Option.map_eq_some_iff.mp hk
  exact Dvd.intro_left _ rfl

theorem orderKey?_ne_diverges (t : PanelTables) (parent owner exclude : Option JsString)
    (placement : Option PanelTreePlacement) :
    t.orderKey? parent owner placement exclude ≠ .error .diverges := by
  rw [orderKey?]
  refine bind_ne_error (anchor_ne_diverges _ _ _ _ _) ?_
  intro before _
  refine bind_ne_error (anchor_ne_diverges _ _ _ _ _) ?_
  intro after _
  split
  · split_ifs <;> simp
  all_goals simp

/-- A rebalanced group leaves room between any two of its slots. -/
theorem orderKey?_rebalance {t : PanelTables} {parent owner exclude : Option JsString}
    {placement : Option PanelTreePlacement} (hex : exclude ≠ some [])
    (hne : ∀ r ∈ (t.rebalancePanelTreeGroup parent owner exclude).slots, r.slotId ≠ []) :
    (t.rebalancePanelTreeGroup parent owner exclude).orderKey? parent owner placement exclude
      ≠ .ok none := by
  rw [orderKey?]
  intro h
  obtain ⟨before, hbefore, h⟩ := bind_eq_ok.mp h
  obtain ⟨after, hafter, h⟩ := bind_eq_ok.mp h
  split at h
  · rename_i b a
    split_ifs at h with hle _ hgap
    · exact absurd h (by simp)
    · obtain ⟨i, hi⟩ := dvd_sortKey_rebalance (anchor_mem hex hne hbefore)
      obtain ⟨j, hj⟩ := dvd_sortKey_rebalance (anchor_mem hex hne hafter)
      rw [hi, hj, panelTreeOrderStep] at hle hgap
      omega
  all_goals exact absurd h (by simp)

/-- **The recursion of the order keys ends.** -/
theorem allocate_ne_diverges {t : PanelTables} {parent owner exclude : Option JsString}
    {placement : Option PanelTreePlacement} (hne : ∀ r ∈ t.slots, r.slotId ≠ []) (hex : exclude ≠ some []) :
    allocatePanelTreeOrderKey parent owner placement exclude 2 t ≠ .error .diverges := by
  rw [allocatePanelTreeOrderKey]
  refine bind_ne_error (orderKey?_ne_diverges _ _ _ _ _) ?_
  intro k hk
  cases k with
  | some key => simp
  | none =>
    simp only
    rw [allocatePanelTreeOrderKey]
    refine bind_ne_error (orderKey?_ne_diverges _ _ _ _ _) ?_
    intro k' hk'
    cases k' with
    | some key => simp
    | none =>
      refine absurd hk' (orderKey?_rebalance hex fun r hr ↦ ?_)
      rw [rebalancePanelTreeGroup] at hr
      obtain ⟨r₀, hr₀, rfl⟩ := List.mem_map.mp hr
      have hid := hne r₀ hr₀
      split_ifs <;> exact hid

/-- **A move ends**, with a result or an error of its own. -/
theorem slotMove_ne_diverges {t : PanelTables} (h : TreeInv t.slots) (slotId : JsString)
    (parentSlotId : Option JsString) (placement : Option PanelTreePlacement)
    (ownerUserId : Option JsString) :
    slotMove slotId parentSlotId placement ownerUserId t ≠ .error .diverges := by
  obtain ⟨depth, hd⟩ := h.ranked
  rw [slotMove]
  refine bind_ne_error (requireSlot_ne_diverges _ _) ?_
  intro slot hslot
  obtain ⟨hmem, hid⟩ := mem_of_requireSlot hslot
  split
  · simp
  apply bind_ne_error
  · rw [moveOwner.eq_def]
    split
    · simp
    refine bind_ne_error (requireSlot_ne_diverges _ _) ?_
    intro parent _
    split
    · simp
    obtain ⟨below, hbelow⟩ := Option.isSome_iff_exists.mp (Forest.subtree_isSome hd slot.slotId)
    rw [hbelow]
    simp only
    split <;> simp
  intro destOwner howner
  apply bind_ne_error (allocate_ne_diverges h.nonempty fun hnil ↦ h.nonempty slot hmem
    (hid.trans (Option.some_inj.mp hnil)))
  rintro ⟨t₁, key⟩ halloc
  obtain ⟨f, hf, hfs⟩ := allocate_sameTree halloc
  have hlinks : linksOf t₁.slots = linksOf t.slots := by
    rw [hfs]
    exact linksOf_map (fun r _ ↦ congrArg (·.1) (hf r)) fun r _ ↦ congrArg (·.2.1) (hf r)
  -- the destination was outside the subtree, so there is no cycle after the first update either
  have hranked : ∃ depth', Forest.Ranked
      (linksOf (t₁.slots.map (reparent slotId parentSlotId key))) depth' := by
    refine ranked_reparent key (by rw [hlinks]; exact hd) fun p hp ↦ ?_
    subst hp
    rw [moveOwner] at howner
    obtain ⟨parent, -, howner⟩ := bind_eq_ok.mp howner
    split at howner
    · exact absurd howner (by simp)
    split at howner
    · exact absurd howner (by simp)
    rename_i below hbelow
    split at howner
    · exact absurd howner (by simp)
    rename_i hnot
    exact ⟨below, by rw [hlinks, ← hid]; exact hbelow, hnot⟩
  obtain ⟨depth', hd'⟩ := hranked
  simp only
  have hrows : (t₁.updateSlots (fun row ↦ decide (row.slotId = slotId))
      fun row ↦ { row with parentSlotId := parentSlotId, sortKey := key }).slots =
        t₁.slots.map (reparent slotId parentSlotId key) := updateSlots_decide t₁ _
  obtain ⟨s, hs⟩ := Option.isSome_iff_exists.mp (Forest.subtree_isSome hd' slotId)
  rw [hrows, hs]
  simp

/-- **Closing ends**, with a result or an error of its own. -/
theorem slotClose_ne_diverges {t : PanelTables} (h : TreeInv t.slots) (db : Surroundings)
    (slotId : JsString) : slotClose db slotId t ≠ .error .diverges := by
  obtain ⟨depth, hd⟩ := h.ranked
  rw [slotClose]
  refine bind_ne_error (requireSlot_ne_diverges _ _) fun root _ ↦ ?_
  split
  · simp
  have hopen : Forest.Ranked (linksOf t.openSlots) depth := by
    intro x p hxp
    obtain ⟨r, hr, hid, hp⟩ := parentOf_linksOf.mp hxp
    exact hd x p (parentOf_linksOf.mpr ⟨r, (mem_openSlots.mp hr).1, hid, hp⟩)
  obtain ⟨s, hs⟩ := Option.isSome_iff_exists.mp (Forest.subtree_isSome hopen slotId)
  rw [hs]
  simp

end Vibestudio.WorkspaceState

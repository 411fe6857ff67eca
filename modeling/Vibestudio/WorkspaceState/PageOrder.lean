import Mathlib
import Vibestudio.Js.Utf8
import Vibestudio.WorkspaceState.SlotPointers

/-!
# The order of siblings

`ORDER BY sort_key ASC, created_at DESC, slot_id ASC` as a linear order of keys. Among the rows of a table the last of
the three columns tells any two apart, so a group has one order.
-/

namespace Vibestudio.WorkspaceState

open Js Vibestudio.Shared

/-- The columns of `ORDER BY`, in the order in which they are compared. -/
abbrev PageKey := ℤ ×ₗ ℕᵒᵈ ×ₗ List Byte

def SlotRow.pageKey (r : SlotRow) : PageKey :=
  toLex (r.sortKey, toLex (OrderDual.toDual r.createdAt, utf8Encode r.slotId))

theorem siblingLe_iff {a b : SlotRow} : PanelTables.siblingLe a b = true ↔ a.pageKey ≤ b.pageKey := by
  rw [SlotRow.pageKey, SlotRow.pageKey, Prod.Lex.toLex_le_toLex, Prod.Lex.toLex_le_toLex, PanelTables.siblingLe]
  split_ifs with hkey hcreated
  · rw [decide_eq_true_eq]
    exact ⟨.inl, fun h ↦ h.resolve_right fun h ↦ hkey h.1⟩
  · rw [not_not] at hkey
    rw [decide_eq_true_eq, hkey, or_iff_right (lt_irrefl _), and_iff_right rfl]
    exact ⟨.inl, fun h ↦ h.resolve_right fun h ↦ hcreated (OrderDual.toDual_inj.mp h.1)⟩
  · rw [not_not] at hkey hcreated
    rw [decide_eq_true_eq, hkey, hcreated, or_iff_right (lt_irrefl _), and_iff_right rfl, or_iff_right (lt_irrefl _),
      and_iff_right rfl]
    exact compareBytes_nonpos _ _

/-- `slot_id` is the primary key, and text columns hold UTF-8. -/
structure StoredIds (rows : List SlotRow) : Prop where
  primaryKey : (rows.map (·.slotId)).Nodup
  slotId : ∀ r ∈ rows, isWellFormed r.slotId = true

structure StoredSlots (rows : List SlotRow) : Prop extends StoredIds rows where
  ownerUserId : ∀ r ∈ rows, ∀ owner ∈ r.ownerUserId, isWellFormed owner = true

variable {rows : List SlotRow} {a b : SlotRow}

theorem StoredIds.eq_of_pageKey (h : StoredIds rows) (ha : a ∈ rows) (hb : b ∈ rows) (hkey : a.pageKey = b.pageKey) :
    a = b := by
  have hid : utf8Encode a.slotId = utf8Encode b.slotId := (Prod.mk.inj (Prod.mk.inj hkey).2).2
  exact List.inj_on_of_nodup_map h.primaryKey ha hb (eq_of_utf8Encode_wellFormed (h.slotId a ha) (h.slotId b hb) hid)

theorem StoredIds.filter (h : StoredIds rows) (p : SlotRow → Bool) : StoredIds (rows.filter p) where
  primaryKey := h.primaryKey.sublist (List.filter_sublist.map _)
  slotId r hr := h.slotId r (List.mem_of_mem_filter hr)

theorem StoredSlots.filter (h : StoredSlots rows) (p : SlotRow → Bool) : StoredSlots (rows.filter p) where
  toStoredIds := h.toStoredIds.filter p
  ownerUserId r hr := h.ownerUserId r (List.mem_of_mem_filter hr)

/-- Rows in the order of a page. -/
def pageOrder (rows : List SlotRow) : List SlotRow := rows.insertionSort (PanelTables.siblingLe · ·)

theorem pageOrder_perm (rows : List SlotRow) : (pageOrder rows).Perm rows := List.perm_insertionSort _ _

theorem mem_pageOrder : a ∈ pageOrder rows ↔ a ∈ rows := (pageOrder_perm rows).mem_iff

theorem pageOrder_pairwise (rows : List SlotRow) : (pageOrder rows).Pairwise fun a b ↦ a.pageKey ≤ b.pageKey := by
  have htotal : Std.Total fun a b : SlotRow ↦ PanelTables.siblingLe a b = true := by
    refine ⟨fun a b ↦ ?_⟩
    rw [siblingLe_iff, siblingLe_iff]
    exact le_total _ _
  have htrans : IsTrans SlotRow fun a b ↦ PanelTables.siblingLe a b = true := by
    refine ⟨fun a b c hab hbc ↦ ?_⟩
    rw [siblingLe_iff] at hab hbc ⊢
    exact hab.trans hbc
  exact (List.pairwise_insertionSort _ rows).imp siblingLe_iff.mp

/-- No two rows have the same place. -/
theorem StoredIds.pageOrder_lt (h : StoredIds rows) :
    (pageOrder rows).Pairwise fun a b ↦ a.pageKey < b.pageKey := by
  have hnodup : (pageOrder rows).Nodup := (pageOrder_perm rows).nodup_iff.mpr (h.primaryKey.of_map _)
  refine ((pageOrder_pairwise rows).and hnodup).imp_of_mem fun ha hb hle ↦ ?_
  refine lt_of_le_of_ne hle.1 fun hkey ↦ hle.2 ?_
  exact h.eq_of_pageKey (mem_pageOrder.mp ha) (mem_pageOrder.mp hb) hkey

end Vibestudio.WorkspaceState

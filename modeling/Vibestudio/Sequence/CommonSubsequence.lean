import Mathlib

/-!
# Longest common subsequences

`lcsLength` is the recursion on the first elements of two lists, and `isGreatest_lcsLength` says that it is the greatest
length of a list that is a subsequence of both. The table of its values for the ends of two lists is filled row by row
from the end (`lcsRow`, `lcsTable`).
-/

namespace Sequence

variable {α : Type} [DecidableEq α]

/-- The length of a longest common subsequence. -/
def lcsLength : List α → List α → ℕ
  | [], _ => 0
  | _ :: _, [] => 0
  | x :: xs, y :: ys =>
    if x = y then lcsLength xs ys + 1 else max (lcsLength xs (y :: ys)) (lcsLength (x :: xs) ys)
termination_by xs ys => xs.length + ys.length

@[simp] theorem lcsLength_nil_left (ys : List α) : lcsLength [] ys = 0 := by rw [lcsLength]

@[simp] theorem lcsLength_nil_right (xs : List α) : lcsLength xs [] = 0 := by
  match xs with
  | [] => rw [lcsLength]
  | x :: xs => rw [lcsLength]

theorem lcsLength_cons_self (x : α) (xs ys : List α) : lcsLength (x :: xs) (x :: ys) = lcsLength xs ys + 1 := by
  rw [lcsLength, if_pos rfl]

theorem lcsLength_cons_of_ne {x y : α} (h : x ≠ y) (xs ys : List α) :
    lcsLength (x :: xs) (y :: ys) = max (lcsLength xs (y :: ys)) (lcsLength (x :: xs) ys) := by
  rw [lcsLength, if_neg h]

/-- The lengths of the lists that are subsequences of both. -/
def commonLengths (xs ys : List α) : Set ℕ := {n | ∃ zs : List α, zs.Sublist xs ∧ zs.Sublist ys ∧ zs.length = n}

theorem exists_common (xs ys : List α) : lcsLength xs ys ∈ commonLengths xs ys := by
  induction xs, ys using lcsLength.induct with
  | case1 ys => exact ⟨[], List.nil_sublist _, List.nil_sublist _, (lcsLength_nil_left ys).symm⟩
  | case2 x xs => exact ⟨[], List.nil_sublist _, List.nil_sublist _, (lcsLength_nil_right _).symm⟩
  | case3 xs x ys ih =>
    obtain ⟨zs, hxs, hys, hlength⟩ := ih
    refine ⟨x :: zs, hxs.cons_cons x, hys.cons_cons x, ?_⟩
    rw [lcsLength_cons_self, List.length_cons, hlength]
  | case4 x xs y ys hne ihx ihy =>
    rw [lcsLength_cons_of_ne hne]
    rcases max_choice (lcsLength xs (y :: ys)) (lcsLength (x :: xs) ys) with hmax | hmax
    · obtain ⟨zs, hxs, hys, hlength⟩ := ihx
      exact ⟨zs, hxs.cons x, hys, hlength.trans hmax.symm⟩
    · obtain ⟨zs, hxs, hys, hlength⟩ := ihy
      exact ⟨zs, hxs, hys.cons y, hlength.trans hmax.symm⟩

theorem length_le_lcsLength (xs ys : List α) : ∀ zs : List α, zs.Sublist xs → zs.Sublist ys →
    zs.length ≤ lcsLength xs ys := by
  induction xs, ys using lcsLength.induct with
  | case1 ys =>
    intro zs hxs _
    rw [List.sublist_nil.mp hxs]
    exact Nat.zero_le _
  | case2 x xs =>
    intro zs _ hys
    rw [List.sublist_nil.mp hys]
    exact Nat.zero_le _
  | case3 xs x ys ih =>
    intro zs hxs hys
    rw [lcsLength_cons_self]
    -- without its first element the list is common to the rest
    match zs with
    | [] => exact Nat.zero_le _
    | z :: zs => exact Nat.succ_le_succ (ih zs hxs.of_cons_cons hys.of_cons_cons)
  | case4 x xs y ys hne ihx ihy =>
    intro zs hxs hys
    rw [lcsLength_cons_of_ne hne]
    rcases List.sublist_cons_iff.mp hxs with hxs | ⟨zs, rfl, -⟩
    · exact (ihx zs hxs hys).trans (le_max_left _ _)
    · -- it begins with `x`, so not with `y`
      rcases List.sublist_cons_iff.mp hys with hys | ⟨_, heq, -⟩
      · exact (ihy _ hxs hys).trans (le_max_right _ _)
      · exact absurd (List.cons.inj heq).1 hne

/-- **The recursion computes the greatest common length.** -/
theorem isGreatest_lcsLength (xs ys : List α) : IsGreatest (commonLengths xs ys) (lcsLength xs ys) := by
  refine ⟨exists_common xs ys, ?_⟩
  rintro n ⟨zs, hxs, hys, rfl⟩
  exact length_le_lcsLength xs ys zs hxs hys

theorem lcsLength_le_left (xs ys : List α) : lcsLength xs ys ≤ xs.length := by
  obtain ⟨zs, hxs, -, hlength⟩ := exists_common xs ys
  exact hlength ▸ hxs.length_le

theorem lcsLength_le_right (xs ys : List α) : lcsLength xs ys ≤ ys.length := by
  obtain ⟨zs, -, hys, hlength⟩ := exists_common xs ys
  exact hlength ▸ hys.length_le

/-! ## The table -/

/-- A row of the table, from the row below it. -/
def lcsRow (x : α) : List α → List ℕ → List ℕ
  | [], _ => [0]
  | y :: ys, below =>
    let row := lcsRow x ys below.tail
    (if x = y then below.tail.headD 0 + 1 else max (below.headD 0) (row.headD 0)) :: row

/-- The row of the values for the ends of the second list. -/
def lcsValues (xs ys : List α) : List ℕ := ys.tails.map (lcsLength xs)

theorem headD_lcsValues (xs ys : List α) : (lcsValues xs ys).headD 0 = lcsLength xs ys := by
  cases ys <;> rfl

theorem lcsValues_cons (xs : List α) (y : α) (ys : List α) :
    lcsValues xs (y :: ys) = lcsLength xs (y :: ys) :: lcsValues xs ys := by
  rw [lcsValues, List.tails_cons, List.map_cons, lcsValues]

theorem lcsValues_nil_left (ys : List α) : lcsValues [] ys = List.replicate (ys.length + 1) 0 := by
  rw [lcsValues, ← List.length_tails]
  refine List.eq_replicate_of_mem ?_ |>.trans (by rw [List.length_map])
  intro n hn
  obtain ⟨zs, -, rfl⟩ := List.mem_map.mp hn
  exact lcsLength_nil_left zs

theorem lcsRow_lcsValues (x : α) (xs : List α) : ∀ ys, lcsRow x ys (lcsValues xs ys) = lcsValues (x :: xs) ys := by
  intro ys
  induction ys with
  | nil => rw [lcsRow, lcsValues, List.tails, List.map_singleton, lcsLength_nil_right]
  | cons y ys ih =>
    rw [lcsRow, lcsValues_cons, lcsValues_cons, List.tail_cons, ih, headD_lcsValues, headD_lcsValues, List.headD_cons]
    congr 1
    split_ifs with heq
    · rw [heq, lcsLength_cons_self]
    · rw [lcsLength_cons_of_ne heq]

/-- One row at a time, from the row of zeros, comes to the first one. -/
theorem foldr_lcsRow (xs ys : List α) :
    xs.foldr (fun x below ↦ lcsRow x ys below) (List.replicate (ys.length + 1) 0) = lcsValues xs ys := by
  induction xs with
  | nil => exact (lcsValues_nil_left ys).symm
  | cons x xs ih => rw [List.foldr_cons, ih, lcsRow_lcsValues]

/-- The rows of the table, the last one of zeros. -/
def lcsTable : List α → List α → List (List ℕ)
  | [], ys => [List.replicate (ys.length + 1) 0]
  | x :: xs, ys =>
    let rows := lcsTable xs ys
    lcsRow x ys (rows.headD []) :: rows

theorem lcsTable_eq (xs ys : List α) : lcsTable xs ys = xs.tails.map fun end' ↦ lcsValues end' ys := by
  induction xs with
  | nil => rw [lcsTable, List.tails, List.map_singleton, lcsValues_nil_left]
  | cons x xs ih =>
    have hhead : (lcsTable xs ys).headD [] = lcsValues xs ys := by
      rw [ih]
      cases xs <;> rfl
    rw [lcsTable, hhead, lcsRow_lcsValues, ih, List.tails_cons, List.map_cons]

/-- **What stands in the table.** -/
theorem getD_lcsTable (xs ys : List α) {i j : ℕ} (hi : i ≤ xs.length) (hj : j ≤ ys.length) :
    ((lcsTable xs ys).getD i []).getD j 0 = lcsLength (xs.drop i) (ys.drop j) := by
  have hrow : (lcsTable xs ys).getD i [] = lcsValues (xs.drop i) ys := by
    have hlt : i < xs.tails.length := by
      rw [List.length_tails]
      exact Nat.lt_succ_of_le hi
    rw [lcsTable_eq, List.getD_eq_getElem _ _ (by rwa [List.length_map]), List.getElem_map, List.getElem_tails]
  have hlt : j < ys.tails.length := by
    rw [List.length_tails]
    exact Nat.lt_succ_of_le hj
  rw [hrow, lcsValues, List.getD_eq_getElem _ _ (by rwa [List.length_map]), List.getElem_map, List.getElem_tails]

end Sequence

import Mathlib

/-!
# Comparators that compare keys

A comparator returns a number whose sign says which of two values comes first. `Compares c x y` says
that the sign of `c` is the order of `x` and `y`. A comparator that compares the keys of its
arguments in a linear order is transitive, and if no two values share a key then sorting by it
depends on the values only, and not on the order in which they are given.
-/

namespace Sequence

variable {α κ : Type} [LinearOrder κ]

/-- The sign of a number is the order of two keys. -/
structure Compares (c : ℤ) (x y : κ) : Prop where
  neg_iff : c < 0 ↔ x < y
  pos_iff : 0 < c ↔ y < x

namespace Compares

variable {c : ℤ} {x y : κ}

theorem eq_zero_iff (h : Compares c x y) : c = 0 ↔ x = y := by
  constructor
  · intro hc
    refine le_antisymm (not_lt.mp fun hlt ↦ ?_) (not_lt.mp fun hlt ↦ ?_)
    · exact absurd (h.pos_iff.mpr hlt) (by omega)
    · exact absurd (h.neg_iff.mpr hlt) (by omega)
  · intro hxy
    have hneg : ¬c < 0 := fun hc ↦ (h.neg_iff.mp hc).ne hxy
    have hpos : ¬0 < c := fun hc ↦ (h.pos_iff.mp hc).ne hxy.symm
    omega

theorem nonpos_iff (h : Compares c x y) : c ≤ 0 ↔ x ≤ y := by
  rw [← not_lt, h.pos_iff, not_lt]

theorem of_lt (hxy : x < y) (hc : c < 0) : Compares c x y :=
  ⟨iff_of_true hc hxy, iff_of_false (by omega) hxy.not_gt⟩

theorem of_gt (hxy : y < x) (hc : 0 < c) : Compares c x y :=
  ⟨iff_of_false (by omega) hxy.not_gt, iff_of_true hc hxy⟩

theorem refl (x : κ) : Compares 0 x x :=
  ⟨iff_of_false (lt_irrefl 0) (lt_irrefl x), iff_of_false (lt_irrefl 0) (lt_irrefl x)⟩

/-- Other keys that stand in the same order. -/
theorem congr {κ' : Type} [LinearOrder κ'] {x' y' : κ'} (h : Compares c x y)
    (hlt : x < y ↔ x' < y') (hgt : y < x ↔ y' < x') : Compares c x' y' :=
  ⟨h.neg_iff.trans hlt, h.pos_iff.trans hgt⟩

end Compares

/-! ## Lists of keys -/

/-- Two lists with a common part in front are ordered as what follows it. -/
theorem append_lt_append_iff (xs : List κ) (ys zs : List κ) : xs ++ ys < xs ++ zs ↔ ys < zs := by
  induction xs with
  | nil => rfl
  | cons x xs ih =>
    rw [List.cons_append, List.cons_append, List.cons_lt_cons_iff, ih]
    simp

/-- The first difference decides. -/
theorem append_cons_lt_append_cons_iff {x y : κ} (hne : x ≠ y) (xs ys zs : List κ) :
    xs ++ x :: ys < xs ++ y :: zs ↔ x < y := by
  rw [append_lt_append_iff, List.cons_lt_cons_iff]
  simp [hne]

/-- A list comes before its extensions. -/
theorem lt_append_of_ne_nil (xs : List κ) {ys : List κ} (h : ys ≠ []) : xs < xs ++ ys := by
  have hlt : xs ++ [] < xs ++ ys := by
    rw [append_lt_append_iff]
    cases ys with
    | nil => exact absurd rfl h
    | cons y ys => exact List.nil_lt_cons y ys
  rwa [List.append_nil] at hlt

/-! ## Sorting -/

variable {cmp : α → α → ℤ} {key : α → κ}

/-- **Sorting by a comparator** of injective keys does not depend on the order of the list. -/
theorem mergeSort_eq_of_perm (hcmp : ∀ a b, Compares (cmp a b) (key a) (key b))
    (hkey : Function.Injective key) {l l' : List α} (h : l.Perm l') :
    (l.mergeSort fun a b ↦ decide (cmp a b ≤ 0)) = l'.mergeSort fun a b ↦ decide (cmp a b ≤ 0) := by
  have hle (a b : α) : decide (cmp a b ≤ 0) = true ↔ key a ≤ key b := by
    rw [decide_eq_true_eq, (hcmp a b).nonpos_iff]
  have hsorted (l : List α) :
      (l.mergeSort fun a b ↦ decide (cmp a b ≤ 0)).Pairwise fun a b ↦ key a ≤ key b := by
    refine (List.pairwise_mergeSort (fun a b c hab hbc ↦ ?_) (fun a b ↦ ?_) l).imp
      fun {a b} ↦ (hle a b).mp
    · exact (hle a c).mpr (((hle a b).mp hab).trans ((hle b c).mp hbc))
    · rw [Bool.or_eq_true, hle, hle]
      exact le_total _ _
  refine List.Perm.eq_of_pairwise (fun a b _ _ hab hba ↦ hkey (le_antisymm hab hba)) (hsorted l)
    (hsorted l') ?_
  exact ((List.mergeSort_perm _ _).trans h).trans (List.mergeSort_perm _ _).symm

end Sequence

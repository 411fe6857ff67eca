import Mathlib

/-!
# Insertion by a key

A list that is sorted by a key with no two equal, and an element with a key of its own. There is one sorted list of them
together, in which the element stands behind as many others as have less keys; it stands at a position exactly if its
key is between those of its neighbours there.
-/

namespace Sequence

variable {α κ : Type} [LinearOrder κ] {key : α → κ} {l : List α} {x : α}

/-- The number of elements with less keys. -/
def rank (key : α → κ) (l : List α) (x : α) : ℕ := l.countP fun a ↦ decide (key a < key x)

theorem rank_le_length (key : α → κ) (l : List α) (x : α) : rank key l x ≤ l.length := List.countP_le_length

/-- The key is behind those of the elements before a position, and before those of the others. -/
structure Between (key : α → κ) (l : List α) (n : ℕ) (x : α) : Prop where
  before : ∀ a ∈ l.take n, key a < key x
  behind : ∀ a ∈ l.drop n, key x < key a

/-- **An element is between the others** at its rank and nowhere else. -/
theorem Between.eq_rank {n : ℕ} (h : Between key l n x) (hn : n ≤ l.length) : n = rank key l x := by
  have htake : (l.take n).countP (fun a ↦ decide (key a < key x)) = n := by
    rw [List.countP_eq_length.mpr fun a ha ↦ decide_eq_true (h.before a ha), List.length_take, min_eq_left hn]
  have hdrop : (l.drop n).countP (fun a ↦ decide (key a < key x)) = 0 :=
    List.countP_eq_zero.mpr fun a ha ↦ by simpa using (h.behind a ha).le
  rw [rank, ← List.take_append_drop n l, List.countP_append, htake, hdrop, Nat.add_zero]

/-- In a sorted list it is enough to look at the neighbours. -/
theorem between_iff (hl : l.Pairwise fun a b ↦ key a < key b) {n : ℕ} (hn : n ≤ l.length) :
    Between key l n x ↔ (∀ k a, n = k + 1 → l[k]? = some a → key a < key x) ∧ ∀ a, l[n]? = some a → key x < key a := by
  constructor
  · refine fun h ↦ ⟨fun k a hk ha ↦ h.before a ?_, fun a ha ↦ h.behind a ?_⟩
    · refine List.mem_of_getElem? (i := k) ?_
      rwa [List.getElem?_take_of_lt (by omega)]
    · refine List.mem_of_getElem? (i := 0) ?_
      rwa [List.getElem?_drop]
  · rintro ⟨hbefore, hbehind⟩
    have hmono : ∀ {i j : ℕ} {a b : α}, l[i]? = some a → l[j]? = some b → i ≤ j → key a ≤ key b := by
      intro i j a b ha hb hij
      obtain ⟨hi, rfl⟩ := List.getElem?_eq_some_iff.mp ha
      obtain ⟨hj, rfl⟩ := List.getElem?_eq_some_iff.mp hb
      rcases hij.eq_or_lt with rfl | hlt
      · exact le_rfl
      · exact (List.pairwise_iff_getElem.mp hl i j hi hj hlt).le
    constructor
    · intro a ha
      obtain ⟨i, hi⟩ := List.mem_iff_getElem?.mp ha
      have hin : i < n := by
        by_contra hge
        rw [List.getElem?_take_eq_none (Nat.not_lt.mp hge)] at hi
        exact nomatch hi
      rw [List.getElem?_take_of_lt hin] at hi
      obtain ⟨b, hb⟩ : ∃ b, l[n - 1]? = some b := ⟨_, List.getElem?_eq_getElem (by omega)⟩
      exact (hmono hi hb (by omega)).trans_lt (hbefore (n - 1) b (by omega) hb)
    · intro a ha
      obtain ⟨i, hi⟩ := List.mem_iff_getElem?.mp ha
      rw [List.getElem?_drop] at hi
      have hlt : n + i < l.length := (List.getElem?_eq_some_iff.mp hi).1
      obtain ⟨b, hb⟩ : ∃ b, l[n]? = some b := ⟨_, List.getElem?_eq_getElem (by omega)⟩
      exact (hbehind b hb).trans_le (hmono hb hi (Nat.le_add_right n i))

theorem insertIdx_eq {n : ℕ} (hn : n ≤ l.length) : l.insertIdx n x = l.take n ++ x :: l.drop n := by
  induction l generalizing n with
  | nil =>
    obtain rfl := Nat.le_zero.mp hn
    rfl
  | cons a l ih =>
    match n with
    | 0 => rfl
    | n + 1 => rw [List.insertIdx_succ_cons, ih (Nat.le_of_succ_le_succ hn), List.take_succ_cons, List.drop_succ_cons,
        List.cons_append]

/-- Every element with a key of its own is between the others at its rank. -/
theorem between_rank (hl : l.Pairwise fun a b ↦ key a < key b) (hx : ∀ a ∈ l, key a ≠ key x) :
    Between key l (rank key l x) x := by
  induction l with
  | nil => exact ⟨nofun, nofun⟩
  | cons a l ih =>
    obtain ⟨ha, hl⟩ := List.pairwise_cons.mp hl
    have ih := ih hl fun b hb ↦ hx b (List.mem_cons_of_mem _ hb)
    rw [rank, List.countP_cons]
    by_cases hlt : key a < key x
    · rw [if_pos (decide_eq_true hlt)]
      refine ⟨fun b hb ↦ ?_, ih.behind⟩
      rcases List.mem_cons.mp hb with rfl | hb
      · exact hlt
      · exact ih.before b hb
    · -- all the others are behind this one
      have hle : key x < key a := lt_of_le_of_ne (not_lt.mp hlt) (hx a List.mem_cons_self).symm
      have hzero : l.countP (fun b ↦ decide (key b < key x)) = 0 :=
        List.countP_eq_zero.mpr fun b hb ↦ by simpa using (hle.trans (ha b hb)).le
      rw [if_neg (by simpa using hle.le), hzero]
      refine ⟨nofun, fun b hb ↦ ?_⟩
      rcases List.mem_cons.mp hb with rfl | hb
      · exact hle
      · exact hle.trans (ha b hb)

/-- **The sorted list with the element in it.** -/
theorem eq_insertIdx_rank (hl : l.Pairwise fun a b ↦ key a < key b) (hx : ∀ a ∈ l, key a ≠ key x) {l' : List α}
    (hl' : l'.Pairwise fun a b ↦ key a < key b) (hperm : l'.Perm (x :: l)) : l' = l.insertIdx (rank key l x) x := by
  have hle := rank_le_length key l x
  have hbetween := between_rank hl hx
  have hsorted : (l.insertIdx (rank key l x) x).Pairwise fun a b ↦ key a < key b := by
    rw [insertIdx_eq hle]
    rw [← List.take_append_drop (rank key l x) l] at hl
    obtain ⟨htake, hdrop, hcross⟩ := List.pairwise_append.mp hl
    refine List.pairwise_append.mpr ⟨htake, List.pairwise_cons.mpr ⟨hbetween.behind, hdrop⟩, fun a ha b hb ↦ ?_⟩
    rcases List.mem_cons.mp hb with rfl | hb
    · exact hbetween.before a ha
    · exact hcross a ha b hb
  exact (hperm.trans (List.perm_insertIdx x l hle).symm).eq_of_pairwise
    (fun a b _ _ hab hba ↦ absurd hab hba.asymm) hl' hsorted

/-- It stands at the positions it is between. -/
theorem insertIdx_rank_eq_iff (hl : l.Pairwise fun a b ↦ key a < key b) (hx : ∀ a ∈ l, key a ≠ key x) {n : ℕ}
    (hn : n ≤ l.length) {β : Type} {f : α → β} (hf : f x ∉ l.map f) :
    (l.map f).insertIdx (rank key l x) (f x) = (l.map f).insertIdx n (f x) ↔ Between key l n x := by
  constructor
  · intro heq
    have hrank : rank key l x = n := List.injOn_insertIdx_index_of_notMem (l.map f) (f x) hf
      ((rank_le_length key l x).trans_eq (List.length_map f).symm) (hn.trans_eq (List.length_map f).symm) heq
    exact hrank ▸ between_rank hl hx
  · intro h
    rw [← h.eq_rank hn]

end Sequence

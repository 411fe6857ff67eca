import Mathlib

/-!
# Keyset paging

A list is read page by page, each page from the cursor that the one before it gave out. What is left to read at a cursor
is a list of rows; a page takes some of them and its cursor leaves the others, so the pages together are what was left at
the first cursor. In keyset paging the cursor is the key of the last row of a page, and what is left are the rows with
greater keys.
-/

namespace Paging

/-! ## Chains of pages -/

section chains

variable {γ π ρ : Type}

/-- The pages that are read from a cursor on, until one gives out no cursor. The pages are numbered, so each may be
answered by another state. -/
inductive Chain (fetch : ℕ → Option γ → Option π) (next : π → Option γ) : ℕ → Option γ → List π → Prop where
  | last {k : ℕ} {cursor : Option γ} {page : π} : fetch k cursor = some page → next page = none →
      Chain fetch next k cursor [page]
  | more {k : ℕ} {cursor : Option γ} {page : π} {cursor' : γ} {pages : List π} : fetch k cursor = some page →
      next page = some cursor' → Chain fetch next (k + 1) (some cursor') pages → Chain fetch next k cursor (page :: pages)

variable {fetch : ℕ → Option γ → Option π} {next : π → Option γ} {content : π → List ρ}
  {rest : Option γ → List ρ → Prop}

/-- What a page does to the rows that are left: it is the last and holds all of them, or it holds some of them and its
cursor leaves the others. -/
inductive Serves (next : π → Option γ) (content : π → List ρ) (rest : Option γ → List ρ → Prop) (rows : List ρ)
    (page : π) : Prop where
  | last : next page = none → content page = rows → Serves next content rest rows page
  | more {cursor : γ} {rows' : List ρ} : next page = some cursor → content page ++ rows' = rows →
      rest (some cursor) rows' → content page ≠ [] → Serves next content rest rows page

/-- **The chain ends**, and its pages together are the rows that were left. -/
theorem exists_chain (hfetch : ∀ k cursor rows, rest cursor rows →
    ∃ page, fetch k cursor = some page ∧ Serves next content rest rows page) : ∀ (k : ℕ) {cursor : Option γ}
      {rows : List ρ}, rest cursor rows → ∃ pages, Chain fetch next k cursor pages ∧ pages.flatMap content = rows := by
  -- induction on the number of rows that are left
  suffices h : ∀ (n k : ℕ) (cursor : Option γ) (rows : List ρ), rows.length ≤ n → rest cursor rows →
      ∃ pages, Chain fetch next k cursor pages ∧ pages.flatMap content = rows from
    fun k cursor rows ↦ h rows.length k cursor rows le_rfl
  intro n
  induction n with
  | zero =>
    intro k cursor rows hlength hrest
    obtain ⟨page, hpage, hserves⟩ := hfetch k cursor rows hrest
    obtain rfl := List.length_eq_zero_iff.mp (Nat.le_zero.mp hlength)
    cases hserves with
    | last hnext hcontent => exact ⟨[page], .last hpage hnext, by rw [List.flatMap_singleton, hcontent]⟩
    | more _ hcontent _ hne => exact absurd (List.append_eq_nil_iff.mp hcontent).1 hne
  | succ n ih =>
    intro k cursor rows hlength hrest
    obtain ⟨page, hpage, hserves⟩ := hfetch k cursor rows hrest
    cases hserves with
    | last hnext hcontent => exact ⟨[page], .last hpage hnext, by rw [List.flatMap_singleton, hcontent]⟩
    | @more cursor' rows' hnext hcontent hrest' hne =>
      have hshorter : rows'.length ≤ n := by
        have hsum := congrArg List.length hcontent
        rw [List.length_append] at hsum
        have hpos := List.length_pos_of_ne_nil hne
        omega
      obtain ⟨pages, hchain, hpages⟩ := ih (k + 1) (some cursor') rows' hshorter hrest'
      exact ⟨page :: pages, .more hpage hnext hchain, by rw [List.flatMap_cons, hpages, hcontent]⟩

/-- Some page of a chain is the answer to its first cursor. -/
theorem Chain.exists_fetch {k : ℕ} {cursor : Option γ} {pages : List π} (h : Chain fetch next k cursor pages) :
    ∃ page ∈ pages, fetch k cursor = some page := by
  cases h with
  | last hpage _ => exact ⟨_, List.mem_cons_self, hpage⟩
  | more hpage _ _ => exact ⟨_, List.mem_cons_self, hpage⟩

/-- The chain goes on behind a page that gives out a cursor. -/
theorem Chain.tail {k : ℕ} {cursor : Option γ} {cursor' : γ} {pages : List π} (h : Chain fetch next k cursor pages)
    (hnext : ∀ page, fetch k cursor = some page → next page = some cursor') :
    ∃ page pages', pages = page :: pages' ∧ Chain fetch next (k + 1) (some cursor') pages' := by
  cases h with
  | last hpage hlast => exact absurd ((hnext _ hpage).symm.trans hlast) nofun
  | more hpage hmore hchain =>
    obtain rfl := Option.some.inj ((hnext _ hpage).symm.trans hmore)
    exact ⟨_, _, rfl, hchain⟩

end chains

/-! ## Positions -/

section positions

variable {γ π ρ τ : Type} {rows : List ρ} {cursorOf : ρ → γ} {item : ρ → τ} {next : π → Option γ} {content : π → List τ}

/-- The items that are left at a cursor: all of them, or those behind a row that is not the last. -/
inductive Left (rows : List ρ) (cursorOf : ρ → γ) (item : ρ → τ) : Option γ → List τ → Prop where
  | start : Left rows cursorOf item none (rows.map item)
  | behind {k : ℕ} {row : ρ} : rows[k]? = some row → k + 1 < rows.length →
      Left rows cursorOf item (some (cursorOf row)) ((rows.drop (k + 1)).map item)

/-- **A page serves a position** that holds the first rows behind it, with the cursor of its last row if there are
more. -/
theorem serves_take {page : π} {k n : ℕ} (hn : 0 < n) (hcontent : content page = ((rows.drop k).take n).map item)
    (hnext : next page = if n < (rows.drop k).length then ((rows.drop k).take n).getLast?.map cursorOf else none) :
    Serves next content (Left rows cursorOf item) ((rows.drop k).map item) page := by
  by_cases hmore : n < (rows.drop k).length
  · have hlength : k + n < rows.length := by
      rw [List.length_drop] at hmore
      omega
    have hlast : ((rows.drop k).take n).getLast? = rows[k + n - 1]? := by
      rw [List.getLast?_eq_getElem?, List.length_take, min_eq_left hmore.le, List.getElem?_take_of_lt (by omega),
        List.getElem?_drop]
      exact congrArg (rows[·]?) (by omega)
    obtain ⟨row, hrow⟩ : ∃ row, rows[k + n - 1]? = some row := ⟨_, List.getElem?_eq_getElem (by omega)⟩
    rw [if_pos hmore, hlast, hrow] at hnext
    have hleft : Left rows cursorOf item (some (cursorOf row)) ((rows.drop (k + n - 1 + 1)).map item) :=
      .behind hrow (by omega)
    rw [Nat.sub_add_cancel (by omega)] at hleft
    refine .more hnext ?_ hleft ?_
    · rw [hcontent, ← List.map_append, ← List.drop_drop, List.take_append_drop]
    · rw [hcontent, ne_eq, List.map_eq_nil_iff, List.take_eq_nil_iff]
      rintro (hzero | hnil)
      · exact hn.ne' hzero
      · exact (Nat.zero_le n).not_gt (by rwa [hnil] at hmore)
  · rw [if_neg hmore] at hnext
    exact .last hnext (by rw [hcontent, List.take_of_length_le (Nat.not_lt.mp hmore)])

end positions

/-! ## Keys -/

section keys

variable {ρ κ : Type} [LinearOrder κ] {key : ρ → κ}

/-- The rows with greater keys are the ones behind. -/
theorem filter_lt_key {before after : List ρ} {row : ρ}
    (h : (before ++ row :: after).Pairwise fun a b ↦ key a < key b) :
    (before ++ row :: after).filter (fun b ↦ decide (key row < key b)) = after := by
  obtain ⟨-, hrow, hbefore⟩ := List.pairwise_append.mp h
  rw [List.filter_append, List.filter_eq_nil_iff.mpr fun b hb ↦ ?_, List.nil_append,
    List.filter_cons_of_neg (by simp), List.filter_eq_self.mpr fun b hb ↦ ?_]
  · exact decide_eq_true ((List.pairwise_cons.mp hrow).1 b hb)
  · rw [decide_eq_true_eq, not_lt]
    exact (hbefore b hb row List.mem_cons_self).le

/-- The rows behind a position. -/
theorem filter_lt_getElem {rows : List ρ} (h : rows.Pairwise fun a b ↦ key a < key b) {k : ℕ} {row : ρ}
    (hrow : rows[k]? = some row) : rows.filter (fun b ↦ decide (key row < key b)) = rows.drop (k + 1) := by
  obtain ⟨hlt, hget⟩ := List.getElem?_eq_some_iff.mp hrow
  have hsplit : rows = rows.take k ++ row :: rows.drop (k + 1) := by
    rw [← hget, ← List.drop_eq_getElem_cons hlt, List.take_append_drop]
  rw [hsplit] at h
  have hfilter := filter_lt_key h
  rwa [← hsplit] at hfilter

end keys

end Paging

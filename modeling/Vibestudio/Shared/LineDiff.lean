import Mathlib
import Vibestudio.Js.Value
import Vibestudio.Sequence.CommonSubsequence

/-!
# Line diffs

`packages/shared/src/lineDiff.ts`: the counts of a diff, from one row of the table of longest common subsequences at a
time, and its rows, from the whole table. The host counts the lines of an approval with the one and the review surfaces
show it with the other.

A cell of a row is computed from the cells behind it, so a row is built from its end (`Sequence.lcsRow`). The loops of
`diffLines` move one of two indices in each round.
-/

namespace Vibestudio.Shared

open Js Sequence

/-- Without a last empty line for a final newline. An empty text has one empty line. -/
def splitLines (text : JsString) : List JsString :=
  if text = [] then [[]]
  else
    let lines := text.splitOn 10
    if 1 < lines.length ∧ lines.getLast? = some [] then lines.dropLast else lines

def countLines (text : JsString) : ℕ := (splitLines text).length

def MAX_LCS_CELLS : ℕ := 40000000

structure LineCounts where
  insertions : ℕ
  deletions : ℕ
  deriving DecidableEq

def countLineDiff (oldText newText : JsString) : Option LineCounts :=
  let a := splitLines oldText
  let b := splitLines newText
  if MAX_LCS_CELLS < a.length * b.length then none
  else
    let prev := a.foldr (fun x prev ↦ lcsRow x b prev) (List.replicate (b.length + 1) 0)
    let lcs := prev.headD 0
    some ⟨b.length - lcs, a.length - lcs⟩

/-! ## Rows -/

inductive DiffRowType where
  | context
  | added
  | removed
  deriving DecidableEq

structure DiffRow where
  type : DiffRowType
  oldLineNo : Option ℕ
  newLineNo : Option ℕ
  text : JsString
  deriving DecidableEq

structure LineDiffResult where
  rows : List DiffRow
  insertions : ℕ
  deletions : ℕ
  deriving DecidableEq

def MAX_RENDERED_DIFF_LINES : ℕ := 20000

def MAX_RENDERED_DIFF_CELLS : ℕ := 4000000

inductive DiffTooLargeError where
  | lines (totalLines : ℕ)
  | cells (cells : ℕ)
  deriving DecidableEq

def DiffTooLargeError.message : DiffTooLargeError → JsString
  | .lines totalLines =>
    lit "Diff is too large to render inline (" ++ integerText totalLines ++ lit " lines; limit " ++
      integerText MAX_RENDERED_DIFF_LINES ++ lit ")."
  | .cells n =>
    lit "Diff is too large to render inline (" ++ integerText n ++ lit " comparison cells; limit " ++
      integerText MAX_RENDERED_DIFF_CELLS ++ lit ")."

def assertRenderableLineDiff (oldLines newLines : ℕ) : Except DiffTooLargeError Unit :=
  if MAX_RENDERED_DIFF_LINES < oldLines + newLines then .error (.lines (oldLines + newLines))
  else if MAX_RENDERED_DIFF_CELLS < oldLines * newLines then .error (.cells (oldLines * newLines))
  else .ok ()

/-- The lines that `diffLines` shows. An empty text has none. -/
def shownLines (text : JsString) : List JsString := if text = [] then [] else splitLines text

/-- Where the loops of `diffLines` are. -/
structure DiffWalk extends LineDiffResult where
  i : ℕ
  j : ℕ
  deriving DecidableEq

namespace DiffWalk

def init : DiffWalk := ⟨⟨[], 0, 0⟩, 0, 0⟩

def context (w : DiffWalk) (text : JsString) : DiffWalk :=
  { w with rows := w.rows ++ [⟨.context, some (w.i + 1), some (w.j + 1), text⟩], i := w.i + 1, j := w.j + 1 }

def remove (w : DiffWalk) (text : JsString) : DiffWalk :=
  { w with rows := w.rows ++ [⟨.removed, some (w.i + 1), none, text⟩], deletions := w.deletions + 1, i := w.i + 1 }

def add (w : DiffWalk) (text : JsString) : DiffWalk :=
  { w with rows := w.rows ++ [⟨.added, none, some (w.j + 1), text⟩], insertions := w.insertions + 1, j := w.j + 1 }

/-- `while (i < n && j < m)`, for at most so many rounds. -/
def walkBoth (a b : List JsString) (lcs : List (List ℕ)) : ℕ → DiffWalk → DiffWalk
  | 0, w => w
  | fuel + 1, w =>
    match a[w.i]?, b[w.j]? with
    | some x, some y =>
      walkBoth a b lcs fuel
        (if x = y then w.context x
        else if (lcs.getD w.i []).getD (w.j + 1) 0 ≤ (lcs.getD (w.i + 1) []).getD w.j 0 then w.remove x
        else w.add y)
    | _, _ => w

/-- `while (i < n)`. -/
def walkOld (a : List JsString) : ℕ → DiffWalk → DiffWalk
  | 0, w => w
  | fuel + 1, w =>
    match a[w.i]? with
    | some x => walkOld a fuel (w.remove x)
    | none => w

/-- `while (j < m)`. -/
def walkNew (b : List JsString) : ℕ → DiffWalk → DiffWalk
  | 0, w => w
  | fuel + 1, w =>
    match b[w.j]? with
    | some y => walkNew b fuel (w.add y)
    | none => w

end DiffWalk

/-- Each round of a loop moves an index, so there are no more rounds than there are lines. -/
def diffLines (oldText newText : JsString) : Except DiffTooLargeError LineDiffResult :=
  let a := shownLines oldText
  let b := shownLines newText
  (assertRenderableLineDiff a.length b.length).map fun _ ↦
    let w := DiffWalk.init.walkBoth a b (lcsTable a b) (a.length + b.length)
    ((w.walkOld a a.length).walkNew b b.length).toLineDiffResult

/-! ## The script of a walk -/

def DiffRow.isContext (row : DiffRow) : Bool := row.type = .context

def DiffRow.isAdded (row : DiffRow) : Bool := row.type = .added

def DiffRow.isRemoved (row : DiffRow) : Bool := row.type = .removed

/-- The rows so far: in order they are the first lines of each text, with their numbers. -/
structure DiffWalk.Script (a b : List JsString) (w : DiffWalk) : Prop where
  oldTexts : (w.rows.filter fun row ↦ !row.isAdded).map DiffRow.text = a.take w.i
  oldNumbers : (w.rows.filter fun row ↦ !row.isAdded).map DiffRow.oldLineNo = (List.range' 1 w.i).map some
  newTexts : (w.rows.filter fun row ↦ !row.isRemoved).map DiffRow.text = b.take w.j
  newNumbers : (w.rows.filter fun row ↦ !row.isRemoved).map DiffRow.newLineNo = (List.range' 1 w.j).map some
  insertions : w.insertions = w.rows.countP DiffRow.isAdded
  deletions : w.deletions = w.rows.countP DiffRow.isRemoved
  old : w.deletions + w.rows.countP DiffRow.isContext = w.i
  new : w.insertions + w.rows.countP DiffRow.isContext = w.j

namespace DiffWalk

variable {a b : List JsString} {w : DiffWalk} {x y : JsString}

theorem take_succ_of_getElem? {l : List JsString} {i : ℕ} (h : l[i]? = some x) : l.take (i + 1) = l.take i ++ [x] := by
  rw [List.take_add_one, h]
  rfl

theorem drop_of_getElem? {l : List JsString} {i : ℕ} (h : l[i]? = some x) : l.drop i = x :: l.drop (i + 1) := by
  obtain ⟨hlt, rfl⟩ := List.getElem?_eq_some_iff.mp h
  exact List.drop_eq_getElem_cons hlt

theorem map_range'_succ (i : ℕ) : (List.range' 1 (i + 1)).map some = (List.range' 1 i).map some ++ [some (i + 1)] := by
  rw [List.range'_concat, List.map_append, one_mul, add_comm 1 i, List.map_singleton]

theorem map_filter_concat {β : Type} (p : DiffRow → Bool) (f : DiffRow → β) (rows : List DiffRow) (row : DiffRow) :
    ((rows ++ [row]).filter p).map f = (rows.filter p).map f ++ if p row then [f row] else [] := by
  rw [List.filter_append, List.map_append]
  congr 1
  cases hp : p row <;> simp [hp]

theorem countP_concat (p : DiffRow → Bool) (rows : List DiffRow) (row : DiffRow) :
    (rows ++ [row]).countP p = rows.countP p + if p row then 1 else 0 := by
  rw [List.countP_append, List.countP_singleton]

theorem Script.context (h : w.Script a b) (ha : a[w.i]? = some x) (hb : b[w.j]? = some x) : (w.context x).Script a b where
  oldTexts := by
    rw [DiffWalk.context, map_filter_concat, h.oldTexts]
    exact (take_succ_of_getElem? ha).symm
  oldNumbers := by
    rw [DiffWalk.context, map_filter_concat, h.oldNumbers]
    exact (map_range'_succ w.i).symm
  newTexts := by
    rw [DiffWalk.context, map_filter_concat, h.newTexts]
    exact (take_succ_of_getElem? hb).symm
  newNumbers := by
    rw [DiffWalk.context, map_filter_concat, h.newNumbers]
    exact (map_range'_succ w.j).symm
  insertions := by
    rw [DiffWalk.context, countP_concat]
    exact h.insertions
  deletions := by
    rw [DiffWalk.context, countP_concat]
    exact h.deletions
  old := by
    rw [DiffWalk.context, countP_concat, ← Nat.add_assoc, h.old]
    rfl
  new := by
    rw [DiffWalk.context, countP_concat, ← Nat.add_assoc, h.new]
    rfl

theorem Script.remove (h : w.Script a b) (ha : a[w.i]? = some x) : (w.remove x).Script a b where
  oldTexts := by
    rw [DiffWalk.remove, map_filter_concat, h.oldTexts]
    exact (take_succ_of_getElem? ha).symm
  oldNumbers := by
    rw [DiffWalk.remove, map_filter_concat, h.oldNumbers]
    exact (map_range'_succ w.i).symm
  newTexts := by
    rw [DiffWalk.remove, map_filter_concat, h.newTexts]
    exact List.append_nil _
  newNumbers := by
    rw [DiffWalk.remove, map_filter_concat, h.newNumbers]
    exact List.append_nil _
  insertions := by
    rw [DiffWalk.remove, countP_concat]
    exact h.insertions
  deletions := by
    rw [DiffWalk.remove, countP_concat, ← h.deletions]
    rfl
  old := by
    rw [DiffWalk.remove, countP_concat]
    exact (Nat.add_right_comm _ _ _).trans (congrArg (· + 1) h.old)
  new := by
    rw [DiffWalk.remove, countP_concat]
    exact h.new

theorem Script.add (h : w.Script a b) (hb : b[w.j]? = some y) : (w.add y).Script a b where
  oldTexts := by
    rw [DiffWalk.add, map_filter_concat, h.oldTexts]
    exact List.append_nil _
  oldNumbers := by
    rw [DiffWalk.add, map_filter_concat, h.oldNumbers]
    exact List.append_nil _
  newTexts := by
    rw [DiffWalk.add, map_filter_concat, h.newTexts]
    exact (take_succ_of_getElem? hb).symm
  newNumbers := by
    rw [DiffWalk.add, map_filter_concat, h.newNumbers]
    exact (map_range'_succ w.j).symm
  insertions := by
    rw [DiffWalk.add, countP_concat, ← h.insertions]
    rfl
  deletions := by
    rw [DiffWalk.add, countP_concat]
    exact h.deletions
  old := by
    rw [DiffWalk.add, countP_concat]
    exact h.old
  new := by
    rw [DiffWalk.add, countP_concat]
    exact (Nat.add_right_comm _ _ _).trans (congrArg (· + 1) h.new)

/-- The rows of context so far and those that can still come are as many as can be. -/
def Optimal (a b : List JsString) (w : DiffWalk) : Prop :=
  w.rows.countP DiffRow.isContext + lcsLength (a.drop w.i) (b.drop w.j) = lcsLength a b

/-- **The first loop keeps the greatest number of rows of context within reach.** A pair of equal lines is on a longest
common subsequence, and of two different lines the one is given up without which the table promises more. -/
theorem walkBoth_spec : ∀ fuel (w : DiffWalk), w.Script a b → w.Optimal a b → (a.length - w.i) + (b.length - w.j) ≤ fuel →
    (w.walkBoth a b (lcsTable a b) fuel).Script a b ∧ (w.walkBoth a b (lcsTable a b) fuel).Optimal a b ∧
    (a.length ≤ (w.walkBoth a b (lcsTable a b) fuel).i ∨ b.length ≤ (w.walkBoth a b (lcsTable a b) fuel).j) := by
  intro fuel
  induction fuel with
  | zero =>
    intro w h hopt hfuel
    rw [walkBoth]
    exact ⟨h, hopt, .inl (by omega)⟩
  | succ fuel ih =>
    intro w h hopt hfuel
    rw [walkBoth]
    match ha : a[w.i]?, hb : b[w.j]? with
    | none, _ => exact ⟨h, hopt, .inl (List.getElem?_eq_none_iff.mp ha)⟩
    | some _, none => exact ⟨h, hopt, .inr (List.getElem?_eq_none_iff.mp hb)⟩
    | some x, some y =>
      obtain ⟨hi, -⟩ := List.getElem?_eq_some_iff.mp ha
      obtain ⟨hj, -⟩ := List.getElem?_eq_some_iff.mp hb
      rw [Optimal, drop_of_getElem? ha, drop_of_getElem? hb] at hopt
      simp only
      split_ifs with hxy hcell
      · subst hxy
        refine ih _ (h.context ha hb) ?_ ?_
        · rw [lcsLength_cons_self] at hopt
          rw [Optimal, DiffWalk.context, countP_concat]
          exact (Nat.add_right_comm _ 1 _).trans hopt
        · change (a.length - (w.i + 1)) + (b.length - (w.j + 1)) ≤ fuel
          omega
      · rw [getD_lcsTable a b hi.le hj, getD_lcsTable a b hi hj.le, drop_of_getElem? ha, drop_of_getElem? hb] at hcell
        refine ih _ (h.remove ha) ?_ ?_
        · rw [lcsLength_cons_of_ne hxy, max_eq_left hcell, ← drop_of_getElem? hb] at hopt
          rw [Optimal, DiffWalk.remove, countP_concat]
          exact hopt
        · change (a.length - (w.i + 1)) + (b.length - w.j) ≤ fuel
          omega
      · rw [getD_lcsTable a b hi.le hj, getD_lcsTable a b hi hj.le, drop_of_getElem? ha, drop_of_getElem? hb] at hcell
        refine ih _ (h.add hb) ?_ ?_
        · rw [lcsLength_cons_of_ne hxy, max_eq_right (Nat.le_of_not_le hcell), ← drop_of_getElem? ha] at hopt
          rw [Optimal, DiffWalk.add, countP_concat]
          exact hopt
        · change (a.length - w.i) + (b.length - (w.j + 1)) ≤ fuel
          omega

/-- The rows of context are as many as there can be. -/
theorem Optimal.context_eq (h : w.Optimal a b) (hend : a.length ≤ w.i ∨ b.length ≤ w.j) :
    w.rows.countP DiffRow.isContext = lcsLength a b := by
  rw [Optimal] at h
  rcases hend with hend | hend
  · rw [List.drop_of_length_le hend, lcsLength_nil_left] at h
    exact h
  · rw [List.drop_of_length_le hend, lcsLength_nil_right] at h
    exact h

theorem walkOld_spec : ∀ fuel (w : DiffWalk), w.Script a b → a.length - w.i ≤ fuel →
    (w.walkOld a fuel).Script a b ∧ a.length ≤ (w.walkOld a fuel).i ∧
    (w.walkOld a fuel).rows.countP DiffRow.isContext = w.rows.countP DiffRow.isContext := by
  intro fuel
  induction fuel with
  | zero => exact fun w h hfuel ↦ ⟨h, Nat.le_of_sub_eq_zero (Nat.le_zero.mp hfuel), rfl⟩
  | succ fuel ih =>
    intro w h hfuel
    rw [walkOld]
    match ha : a[w.i]? with
    | none => exact ⟨h, List.getElem?_eq_none_iff.mp ha, rfl⟩
    | some x =>
      obtain ⟨hscript, hend, hcontext⟩ := ih (w.remove x) (h.remove ha) <| by
        change a.length - (w.i + 1) ≤ fuel
        omega
      refine ⟨hscript, hend, hcontext.trans ?_⟩
      rw [DiffWalk.remove, countP_concat]
      rfl

theorem walkNew_spec : ∀ fuel (w : DiffWalk), w.Script a b → b.length - w.j ≤ fuel →
    (w.walkNew b fuel).Script a b ∧ b.length ≤ (w.walkNew b fuel).j ∧ (w.walkNew b fuel).i = w.i ∧
    (w.walkNew b fuel).rows.countP DiffRow.isContext = w.rows.countP DiffRow.isContext := by
  intro fuel
  induction fuel with
  | zero => exact fun w h hfuel ↦ ⟨h, Nat.le_of_sub_eq_zero (Nat.le_zero.mp hfuel), rfl, rfl⟩
  | succ fuel ih =>
    intro w h hfuel
    rw [walkNew]
    match hb : b[w.j]? with
    | none => exact ⟨h, List.getElem?_eq_none_iff.mp hb, rfl, rfl⟩
    | some y =>
      obtain ⟨hscript, hend, hi, hcontext⟩ := ih (w.add y) (h.add hb) <| by
        change b.length - (w.j + 1) ≤ fuel
        omega
      refine ⟨hscript, hend, hi, hcontext.trans ?_⟩
      rw [DiffWalk.add, countP_concat]
      rfl

theorem script_init (a b : List JsString) : DiffWalk.init.Script a b where
  oldTexts := rfl
  oldNumbers := rfl
  newTexts := rfl
  newNumbers := rfl
  insertions := rfl
  deletions := rfl
  old := rfl
  new := rfl

theorem optimal_init (a b : List JsString) : DiffWalk.init.Optimal a b := Nat.zero_add _

end DiffWalk

/-! ## The two diffs -/

/-- The rows are a script that turns the one list of lines into the other, with as much context as there can be. -/
structure LineDiffResult.Script (a b : List JsString) (diff : LineDiffResult) : Prop where
  oldTexts : (diff.rows.filter fun row ↦ !row.isAdded).map DiffRow.text = a
  oldNumbers : (diff.rows.filter fun row ↦ !row.isAdded).map DiffRow.oldLineNo = (List.range' 1 a.length).map some
  newTexts : (diff.rows.filter fun row ↦ !row.isRemoved).map DiffRow.text = b
  newNumbers : (diff.rows.filter fun row ↦ !row.isRemoved).map DiffRow.newLineNo = (List.range' 1 b.length).map some
  insertions : diff.insertions = diff.rows.countP DiffRow.isAdded
  deletions : diff.deletions = diff.rows.countP DiffRow.isRemoved
  context : IsGreatest (commonLengths a b) (diff.rows.countP DiffRow.isContext)

/-- The texts are small enough to be shown. -/
def Renderable (oldText newText : JsString) : Prop :=
  (shownLines oldText).length + (shownLines newText).length ≤ MAX_RENDERED_DIFF_LINES ∧
    (shownLines oldText).length * (shownLines newText).length ≤ MAX_RENDERED_DIFF_CELLS

theorem diffLines_of_renderable {oldText newText : JsString} (h : Renderable oldText newText) :
    ∃ diff, diffLines oldText newText = .ok diff ∧ diff.Script (shownLines oldText) (shownLines newText) ∧
      diff.insertions + lcsLength (shownLines oldText) (shownLines newText) = (shownLines newText).length ∧
      diff.deletions + lcsLength (shownLines oldText) (shownLines newText) = (shownLines oldText).length := by
  have hassert : assertRenderableLineDiff (shownLines oldText).length (shownLines newText).length = .ok () := by
    rw [assertRenderableLineDiff, if_neg (Nat.not_lt.mpr h.1), if_neg (Nat.not_lt.mpr h.2)]
  rw [diffLines]
  simp only [hassert]
  generalize shownLines oldText = a
  generalize shownLines newText = b
  refine ⟨_, rfl, ?_⟩
  obtain ⟨hscript, hoptimal, hend⟩ := DiffWalk.walkBoth_spec (a.length + b.length) DiffWalk.init
    (DiffWalk.script_init a b) (DiffWalk.optimal_init a b) (Nat.le_refl _)
  have hcontext := hoptimal.context_eq hend
  generalize DiffWalk.init.walkBoth a b (lcsTable a b) (a.length + b.length) = w at hscript hcontext
  obtain ⟨hscript, hold, hcontext'⟩ := DiffWalk.walkOld_spec a.length w hscript (Nat.sub_le _ _)
  rw [hcontext] at hcontext'
  generalize w.walkOld a a.length = w at hscript hold hcontext'
  obtain ⟨hscript, hnew, hi, hcontext⟩ := DiffWalk.walkNew_spec b.length w hscript (Nat.sub_le _ _)
  rw [hcontext'] at hcontext
  rw [← hi] at hold
  generalize w.walkNew b b.length = w at hscript hold hnew hcontext
  have hi' : w.i = a.length := by
    have hlength := congrArg List.length hscript.oldNumbers
    have hlength' := congrArg List.length hscript.oldTexts
    simp only [List.length_map, List.length_range', List.length_take] at hlength hlength'
    omega
  have hj' : w.j = b.length := by
    have hlength := congrArg List.length hscript.newNumbers
    have hlength' := congrArg List.length hscript.newTexts
    simp only [List.length_map, List.length_range', List.length_take] at hlength hlength'
    omega
  have hnewLines := hscript.new
  have holdLines := hscript.old
  rw [hcontext, hj'] at hnewLines
  rw [hcontext, hi'] at holdLines
  refine ⟨⟨?_, ?_, ?_, ?_, hscript.insertions, hscript.deletions, ?_⟩, hnewLines, holdLines⟩
  · rw [hscript.oldTexts, hi', List.take_length]
  · rw [hscript.oldNumbers, hi']
  · rw [hscript.newTexts, hj', List.take_length]
  · rw [hscript.newNumbers, hj']
  · change IsGreatest _ (w.rows.countP DiffRow.isContext)
    rw [hcontext]
    exact isGreatest_lcsLength a b

/-- **The rows of `diffLines`.** -/
theorem diffLines_script {oldText newText : JsString} (h : Renderable oldText newText) :
    ∃ diff, diffLines oldText newText = .ok diff ∧ diff.Script (shownLines oldText) (shownLines newText) := by
  obtain ⟨diff, hdiff, hscript, -⟩ := diffLines_of_renderable h
  exact ⟨diff, hdiff, hscript⟩

/-- The first line goes, the second stays and a third one comes. -/
theorem diffLines_script_lines : ∃ diff, diffLines (lit "a\nb") (lit "b\nc\n") = .ok diff ∧
    diff.Script [lit "a", lit "b"] [lit "b", lit "c"] ∧
    diff.rows = [⟨.removed, some 1, none, lit "a"⟩, ⟨.context, some 2, some 1, lit "b"⟩,
      ⟨.added, none, some 2, lit "c"⟩] := by
  obtain ⟨diff, hdiff, hscript⟩ :=
    diffLines_script (show Renderable (lit "a\nb") (lit "b\nc\n") from ⟨by decide +kernel, by decide +kernel⟩)
  refine ⟨diff, hdiff, hscript, ?_⟩
  have hrows : (diffLines (lit "a\nb") (lit "b\nc\n")).map LineDiffResult.rows = .ok
      [⟨.removed, some 1, none, lit "a"⟩, ⟨.context, some 2, some 1, lit "b"⟩, ⟨.added, none, some 2, lit "c"⟩] := by
    decide +kernel
  rw [hdiff] at hrows
  exact Except.ok.inj hrows

/-! ## The two counts -/

theorem countLineDiff_eq {oldText newText : JsString}
    (h : (splitLines oldText).length * (splitLines newText).length ≤ MAX_LCS_CELLS) :
    countLineDiff oldText newText =
      some ⟨countLines newText - lcsLength (splitLines oldText) (splitLines newText),
        countLines oldText - lcsLength (splitLines oldText) (splitLines newText)⟩ := by
  rw [countLineDiff]
  simp only
  rw [if_neg (Nat.not_lt.mpr h), foldr_lcsRow, headD_lcsValues, countLines, countLines]

theorem splitLines_nil : splitLines [] = [[]] := rfl

theorem shownLines_of_ne {text : JsString} (h : text ≠ []) : shownLines text = splitLines text := if_neg h

/-- What can be shown can be counted. -/
theorem Renderable.countable {oldText newText : JsString} (h : Renderable oldText newText) :
    (splitLines oldText).length * (splitLines newText).length ≤ MAX_LCS_CELLS := by
  obtain ⟨hlines, hcells⟩ := h
  simp only [MAX_RENDERED_DIFF_LINES, MAX_RENDERED_DIFF_CELLS, MAX_LCS_CELLS] at *
  by_cases hold : oldText = []
  · by_cases hnew : newText = []
    · rw [hold, hnew, splitLines_nil]
      decide
    · rw [shownLines_of_ne hnew] at hlines
      rw [hold, splitLines_nil, List.length_singleton, one_mul]
      omega
  · by_cases hnew : newText = []
    · rw [shownLines_of_ne hold] at hlines
      rw [hnew, splitLines_nil, List.length_singleton, mul_one]
      omega
    · rw [shownLines_of_ne hold, shownLines_of_ne hnew] at hcells
      omega

/-- The two diffs report the same counts, and these are the lines outside of a longest common subsequence. -/
structure CountsAgree (oldText newText : JsString) (counted : LineCounts) (diff : LineDiffResult) : Prop where
  insertions : counted.insertions = diff.insertions
  deletions : counted.deletions = diff.deletions
  outside : ∀ L, IsGreatest (commonLengths (splitLines oldText) (splitLines newText)) L →
    counted.insertions = countLines newText - L ∧ counted.deletions = countLines oldText - L

/-- **When the two diffs agree.** For the one an empty text has an empty line, and for the other it has no line. -/
theorem countLineDiff_diffLines {oldText newText : JsString} (h : Renderable oldText newText) :
    ∃ counted diff, countLineDiff oldText newText = some counted ∧ diffLines oldText newText = .ok diff ∧
      (CountsAgree oldText newText counted diff ↔ (oldText = [] ↔ newText = [])) := by
  obtain ⟨diff, hdiff, -, hinsertions, hdeletions⟩ := diffLines_of_renderable h
  refine ⟨_, diff, countLineDiff_eq h.countable, hdiff, ?_⟩
  have houtside : ∀ L, IsGreatest (commonLengths (splitLines oldText) (splitLines newText)) L →
      L = lcsLength (splitLines oldText) (splitLines newText) := fun L hL ↦ hL.unique (isGreatest_lcsLength _ _)
  have hleft := lcsLength_le_left (splitLines oldText) (splitLines newText)
  have hright := lcsLength_le_right (splitLines oldText) (splitLines newText)
  -- the counts of lines that nothing is made up for
  have hagree : diff.insertions = countLines newText - lcsLength (splitLines oldText) (splitLines newText) →
      diff.deletions = countLines oldText - lcsLength (splitLines oldText) (splitLines newText) →
      CountsAgree oldText newText ⟨countLines newText - lcsLength (splitLines oldText) (splitLines newText),
        countLines oldText - lcsLength (splitLines oldText) (splitLines newText)⟩ diff := by
    intro hins hdel
    refine ⟨hins.symm, hdel.symm, fun L hL ↦ ?_⟩
    rw [houtside L hL]
    exact ⟨rfl, rfl⟩
  rw [countLines, countLines] at *
  by_cases hold : oldText = []
  · by_cases hnew : newText = []
    · subst hold hnew
      have hone : lcsLength (splitLines []) (splitLines []) = 1 := by
        rw [splitLines_nil, lcsLength_cons_self, lcsLength_nil_left]
      refine iff_of_true (hagree ?_ ?_) Iff.rfl
      · rw [hone]
        exact (Nat.add_eq_zero_iff.mp hinsertions).1
      · rw [hone]
        exact (Nat.add_eq_zero_iff.mp hdeletions).1
    · -- the empty line would have to be taken away, and also be one of the new lines
      refine iff_of_false (fun hcounts ↦ ?_) fun hiff ↦ hnew (hiff.mp hold)
      have hins := hcounts.insertions
      have hdel := hcounts.deletions
      rw [shownLines_of_ne hnew] at hinsertions
      subst hold
      rw [splitLines_nil, List.length_singleton] at *
      change diff.insertions + lcsLength [] (splitLines newText) = _ at hinsertions
      change diff.deletions + lcsLength [] _ = 0 at hdeletions
      rw [lcsLength_nil_left] at hinsertions hdeletions
      simp only at hins hdel
      omega
  · by_cases hnew : newText = []
    · refine iff_of_false (fun hcounts ↦ ?_) fun hiff ↦ hold (hiff.mpr hnew)
      have hins := hcounts.insertions
      have hdel := hcounts.deletions
      rw [shownLines_of_ne hold] at hdeletions
      subst hnew
      rw [splitLines_nil, List.length_singleton] at *
      change diff.deletions + lcsLength (splitLines oldText) [] = _ at hdeletions
      change diff.insertions + lcsLength _ [] = 0 at hinsertions
      rw [lcsLength_nil_right] at hinsertions hdeletions
      simp only at hins hdel
      omega
    · refine iff_of_true (hagree ?_ ?_) (iff_of_false hold hnew)
      · rw [shownLines_of_ne hold, shownLines_of_ne hnew] at hinsertions
        omega
      · rw [shownLines_of_ne hold, shownLines_of_ne hnew] at hdeletions
        omega

theorem countLineDiff_diffLines_lines : ∃ counted diff,
    countLineDiff (lit "a\nb") (lit "b\nc\n") = some counted ∧ diffLines (lit "a\nb") (lit "b\nc\n") = .ok diff ∧
    CountsAgree (lit "a\nb") (lit "b\nc\n") counted diff := by
  obtain ⟨counted, diff, hcounted, hdiff, hagree⟩ := countLineDiff_diffLines
    (show Renderable (lit "a\nb") (lit "b\nc\n") from ⟨by decide +kernel, by decide +kernel⟩)
  exact ⟨counted, diff, hcounted, hdiff, hagree.mpr (iff_of_false (by decide +kernel) (by decide +kernel))⟩

/-- The first line of an empty text is counted as one that is taken away, and not shown. -/
theorem counts_disagree : ¬∀ oldText newText : JsString, Renderable oldText newText →
    ∃ counted diff, countLineDiff oldText newText = some counted ∧ diffLines oldText newText = .ok diff ∧
      CountsAgree oldText newText counted diff := by
  intro h
  obtain ⟨counted, diff, hcounted, hdiff, hagree⟩ :=
    h [] (lit "a") ⟨by decide +kernel, by decide +kernel⟩
  have hcount : (countLineDiff [] (lit "a")).map LineCounts.deletions = some 1 := by decide +kernel
  have hshown : (diffLines [] (lit "a")).map LineDiffResult.deletions = .ok 0 := by decide +kernel
  rw [hcounted] at hcount
  rw [hdiff] at hshown
  have hdeletions := hagree.deletions
  rw [Option.some.inj hcount, Except.ok.inj hshown] at hdeletions
  exact absurd hdeletions one_ne_zero

end Vibestudio.Shared

import Mathlib
import Vibestudio.Js.Json

/-!
# Tree paths

`packages/content-addressing/src/tree-paths.ts`: the path vocabulary of every content-addressed
tree. A path is a list of entry names joined by `/`; `splitTreePath` is the only way in, and it
checks every segment and the three bounds. Joining the segments gives the path back
(`join_of_splitTreePath`), so different paths have different segments.
-/

namespace Vibestudio.ContentAddressing

open Js

def MAX_TREE_ENTRY_NAME_UTF8_BYTES : ℕ := 255

def MAX_TREE_PATH_SEGMENTS : ℕ := 129

def MAX_TREE_PATH_UTF8_BYTES : ℕ := 4095

def utf8ByteLength (value : JsString) : ℕ := (utf8Encode value).length

/-- The conditions on a name that is a string. -/
def isSafeSegment (name : JsString) : Bool :=
  decide (0 < name.length) && decide (utf8ByteLength name ≤ MAX_TREE_ENTRY_NAME_UTF8_BYTES) &&
    decide (name ≠ lit ".") && decide (name ≠ lit "..") && decide (47 ∉ name) &&
    decide (92 ∉ name) && decide (0 ∉ name)

/-- Exactly one safe entry segment; anything but a string is refused. -/
def isValidTreeEntryName : JsData → Bool
  | .leaf (.str name) => isSafeSegment name
  | _ => false

inductive TreePathError where
  | invalidName (name : JsString)
  | tooLong
  | tooManySegments
deriving DecidableEq

def TreePathError.message : TreePathError → JsString
  | .invalidName name => lit "Invalid tree entry name: " ++ quote name
  | .tooLong => lit "Tree path exceeds 4095 UTF-8 bytes"
  | .tooManySegments => lit "Tree path exceeds 129 segments"

/-- `for (const segment of segments) assertValidTreeEntryName(segment)`. -/
def assertValidSegments : List JsString → Except TreePathError Unit
  | [] => .ok ()
  | segment :: rest =>
    if isValidTreeEntryName (.leaf (.str segment)) then assertValidSegments rest
    else .error (.invalidName segment)

def splitTreePath (path : JsString) : Except TreePathError (List JsString) :=
  if path = [] then .ok []
  else if MAX_TREE_PATH_UTF8_BYTES < utf8ByteLength path then .error .tooLong
  else if MAX_TREE_PATH_SEGMENTS < (path.splitOn 47).length then .error .tooManySegments
  else (assertValidSegments (path.splitOn 47)).map fun _ ↦ path.splitOn 47

theorem ok_of_assertValidSegments {segments : List JsString}
    (h : assertValidSegments segments = .ok ()) : ∀ s ∈ segments, isSafeSegment s = true := by
  induction segments with
  | nil => exact fun s hs ↦ absurd hs List.not_mem_nil
  | cons s segments ih =>
    rw [assertValidSegments] at h
    split_ifs at h with hs
    exact List.forall_mem_cons.mpr ⟨hs, ih h⟩

/-- What a successful split has established. -/
theorem splitTreePath_eq_ok {path : JsString} {segments : List JsString}
    (h : splitTreePath path = .ok segments) :
    (path = [] ∧ segments = []) ∨
      (segments = path.splitOn 47 ∧ ∀ s ∈ segments, isSafeSegment s = true) := by
  rw [splitTreePath] at h
  split_ifs at h with hpath
  · exact Or.inl ⟨hpath, (Except.ok.inj h).symm⟩
  · obtain ⟨_, hv, rfl⟩ := map_eq_ok.mp h
    exact Or.inr ⟨rfl, ok_of_assertValidSegments hv⟩

theorem assertValidSegments_eq_ok {segments : List JsString} :
    assertValidSegments segments = .ok () ↔ ∀ s ∈ segments, isSafeSegment s = true := by
  refine ⟨ok_of_assertValidSegments, fun h ↦ ?_⟩
  induction segments with
  | nil => rfl
  | cons s segments ih =>
    obtain ⟨hs, hrest⟩ := List.forall_mem_cons.mp h
    rw [assertValidSegments, isValidTreeEntryName, if_pos hs]
    exact ih hrest

/-- When a path that is not empty splits. -/
theorem splitTreePath_eq_ok_iff {path : JsString} (hne : path ≠ []) {segments : List JsString} :
    splitTreePath path = .ok segments ↔ segments = path.splitOn 47 ∧
      utf8ByteLength path ≤ MAX_TREE_PATH_UTF8_BYTES ∧
      segments.length ≤ MAX_TREE_PATH_SEGMENTS ∧ ∀ s ∈ segments, isSafeSegment s = true := by
  rw [splitTreePath, if_neg hne]
  constructor
  · intro h
    split_ifs at h with hbytes hsegments
    obtain ⟨_, hvalid, rfl⟩ := map_eq_ok.mp h
    exact ⟨rfl, not_lt.mp hbytes, not_lt.mp hsegments, assertValidSegments_eq_ok.mp hvalid⟩
  · rintro ⟨rfl, hbytes, hsegments, hvalid⟩
    rw [if_neg (not_lt.mpr hbytes), if_neg (not_lt.mpr hsegments)]
    exact map_eq_ok.mpr ⟨(), assertValidSegments_eq_ok.mpr hvalid, rfl⟩

theorem splitTreePath_nil : splitTreePath [] = .ok [] := if_pos rfl

/-- Only the empty path has no segments. -/
theorem ne_nil_of_splitTreePath {path : JsString} {segments : List JsString}
    (h : splitTreePath path = .ok segments) (hne : segments ≠ []) : path ≠ [] := by
  rintro rfl
  rw [splitTreePath_nil, Except.ok.injEq] at h
  exact hne h.symm

/-- **Joining the segments gives the path back.** -/
theorem join_of_splitTreePath {path : JsString} {segments : List JsString}
    (h : splitTreePath path = .ok segments) : [47].intercalate segments = path := by
  rcases splitTreePath_eq_ok h with ⟨rfl, rfl⟩ | ⟨rfl, -⟩
  · rfl
  · exact List.intercalate_splitOn 47

end Vibestudio.ContentAddressing

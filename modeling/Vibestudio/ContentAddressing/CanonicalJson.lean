import Mathlib
import Vibestudio.Js.CanonicalForm
import Vibestudio.Js.Parsed

/-!
# Canonical JSON of the hash domains

`packages/content-addressing/src/canonical-json.ts` and `canonical-order.ts`: the text every content
address and snapshot digest is taken of. Keys are sorted by UTF-16 code units, members that are
`undefined` are dropped, and the result is rebuilt by assignment before `JSON.stringify`.

`canonicalJson_eq_iff` says exactly what the text shows of a value. It shows everything up to key
order except for two things, and `canonicalJson_exact_iff` states them as the condition under which
the text decides equality: a member named `__proto__` never reaches the rebuilt object, because
`sorted["__proto__"] = ...` runs the inherited setter; and a number too large for a double, which
`JSON.parse` reads as an infinity, is written as `null`.
-/

namespace Vibestudio.ContentAddressing

open Js

/-! ## The order of the keys -/

def compareUtf16CodeUnits (left right : JsString) : ℤ :=
  if left < right then -1 else if right < left then 1 else 0

theorem compareUtf16CodeUnits_nonpos {a b : JsString} : compareUtf16CodeUnits a b ≤ 0 ↔ a ≤ b := by
  rw [compareUtf16CodeUnits]
  split_ifs with hab hba
  · simp [le_of_lt hab]
  · simp [hba]
  · simp [not_lt.mp hba]

/-- `Array.prototype.sort(compareUtf16CodeUnits)`. -/
def utf16Order : KeyOrder where
  le a b := compareUtf16CodeUnits a b ≤ 0
  dec _ _ := inferInstance
  total a b := by
    rw [compareUtf16CodeUnits_nonpos, compareUtf16CodeUnits_nonpos]
    exact le_total a b
  trans a b c := by
    rw [compareUtf16CodeUnits_nonpos, compareUtf16CodeUnits_nonpos, compareUtf16CodeUnits_nonpos]
    exact le_trans

/-- The comparator separates any two different keys. -/
theorem eq_of_utf16Order_tied {a b : JsString} (h : utf16Order.Tied a b) : a = b :=
  le_antisymm (compareUtf16CodeUnits_nonpos.mp h.1) (compareUtf16CodeUnits_nonpos.mp h.2)

/-! ## The serializer -/

mutual

def sortForCanonicalJson : JsData → JsData
  | .leaf l => .leaf l
  | .arr value => .arr (sortElements value)
  | .obj record => .obj (assignAll (utf16Order.sort (sortMembers record)))

/-- `value.map(sortForCanonicalJson)`. -/
def sortElements : List JsData → List JsData
  | [] => []
  | x :: xs => sortForCanonicalJson x :: sortElements xs

/-- The children that are not `undefined`, converted. -/
def sortMembers : Props JsData → Props JsData
  | [] => []
  | (key, child) :: rest =>
    if child = .leaf .undefined then sortMembers rest
    else (key, sortForCanonicalJson child) :: sortMembers rest

end

def canonicalJson (value : JsData) : Option JsString := stringify (sortForCanonicalJson value)

/-- The serializer as a canonical form: keys as they are, leaves as they are. -/
def scheme : Scheme JsLeaf JsLeaf where
  key := id
  order := utf16Order
  leaf := id

/-- On JSON values nothing is dropped before the assignment. -/
theorem sortForCanonicalJson_eq {v : JsData} (hv : IsJson v) :
    sortForCanonicalJson v = canonical scheme v := by
  induction hv with
  | leaf _ => rfl
  | @arr xs _ ih =>
    have hel : sortElements xs = xs.map (canonical scheme) := by
      clear * - ih
      induction xs with
      | nil => rfl
      | cons x xs ihxs =>
        rw [sortElements, List.map_cons, ih x List.mem_cons_self,
          ihxs fun y hy ↦ ih y (List.mem_cons_of_mem x hy)]
    rw [sortForCanonicalJson, canonical_arr, hel]
  | @obj kvs _ hdef ih =>
    have hmem : sortMembers kvs = kvs.map fun p ↦ (p.1, canonical scheme p.2) := by
      clear * - ih hdef
      induction kvs with
      | nil => rfl
      | cons p kvs ihkvs =>
        obtain ⟨k, v⟩ := p
        have hne : v ≠ .leaf .undefined := by
          rintro rfl
          have := JsValue.wellFormed_leaf.mp (hdef (k, .leaf .undefined) List.mem_cons_self)
          exact absurd this (by decide)
        rw [sortMembers, if_neg hne, List.map_cons, ih (k, v) List.mem_cons_self,
          ihkvs (fun q hq ↦ hdef q (List.mem_cons_of_mem _ hq))
            fun q hq ↦ ih q (List.mem_cons_of_mem _ hq)]
    rw [sortForCanonicalJson, canonical_obj, hmem]
    rfl

/-- The text of a value that text can carry parses to the sorted value. -/
theorem parse_canonicalJson {v : JsData} (hv : OnWire v) :
    ∃ t, canonicalJson v = some t ∧ parse t = some (canonical scheme v) := by
  rw [canonicalJson, sortForCanonicalJson_eq hv.isJson]
  have hcanon : OnWire (canonical scheme v) := wellFormed_canonical (fun _ hl ↦ hl) hv
  exact hcanon.parse_stringify

/-- Values with one canonical form have one text. -/
theorem canonicalJson_congr {u v : JsData} (hu : IsJson u) (hv : IsJson v)
    (h : canonical scheme u = canonical scheme v) : canonicalJson u = canonicalJson v := by
  rw [canonicalJson, canonicalJson, sortForCanonicalJson_eq hu, sortForCanonicalJson_eq hv, h]

/-! ## What the text shows -/

/-- A leaf as a JSON value: JavaScript has two zeros, which are one number. -/
def leafValue : JsLeaf → JsLeaf
  | .num x => .num x.unsigned
  | l => l

/-- Everything about a JSON value but the order of its object keys. -/
def asValue : Comparison JsLeaf JsLeaf where
  key := id
  leaf := leafValue
  keep _ := True
  tied _ _ := False

/-- Every member named `__proto__` is ignored and every number that is not finite is `null`. -/
def asWire : Comparison JsLeaf JsLeaf where
  key := id
  leaf := wireLeaf
  keep k := k ≠ protoKey
  tied _ _ := False

/-- Equality of JSON values up to the order of object keys. -/
def JsonEqual (u v : JsData) : Prop := Agree asValue u v

/-- Equality up to key order of what reaches the text. -/
def JsonEqualOnWire (u v : JsData) : Prop := Agree asWire u v

theorem wireLeaf_eq_of_leafValue {l l' : JsLeaf} (h : leafValue l = leafValue l') :
    wireLeaf l = wireLeaf l' := by
  have hwire : ∀ l, wireLeaf (leafValue l) = wireLeaf l := by
    intro l
    cases l with
    | num x =>
      cases x with
      | finite neg mag =>
        have hfin : ((JsNumber.finite neg mag).unsigned).isFinite = true := by
          rw [JsNumber.unsigned]
          split_ifs <;> rfl
        rw [leafValue, wireLeaf, if_pos hfin, JsNumber.unsigned_unsigned]
        rfl
      | _ => rfl
    | _ => rfl
  rw [← hwire l, h, hwire l']

theorem JsonEqual.onWire {u v : JsData} (hu : IsJson u) (h : JsonEqual u v) :
    JsonEqualOnWire u v :=
  Agree.weaken asValue asWire rfl (fun _ _ ↦ wireLeaf_eq_of_leafValue) (fun _ _ ↦ trivial)
    (fun _ _ _ _ _ h ↦ h) hu.distinct h

/-- **What canonical JSON shows of a value.** -/
theorem canonicalJson_eq_iff {u v : JsData} (hu : IsJson u) (hv : IsJson v) :
    canonicalJson u = canonicalJson v ↔ JsonEqualOnWire u v := by
  have hcanon : ∀ {w}, IsJson w → IsJson (canonical scheme w) :=
    fun hw ↦ wellFormed_canonical (fun _ hl ↦ hl) hw
  rw [canonicalJson, canonicalJson, sortForCanonicalJson_eq hu, sortForCanonicalJson_eq hv,
    stringify_inj (hcanon hu) (hcanon hv), mapLeaf_canonical, mapLeaf_canonical,
    canonical_eq_iff _ hu.distinct hv.distinct]
  constructor
  · intro h
    exact Agree.weaken (Scheme.shown { scheme with leaf := wireLeaf ∘ scheme.leaf }) asWire rfl
      (fun _ _ h ↦ h) (fun _ h ↦ h) (fun _ _ _ _ _ h ↦ absurd h id) hu.distinct h
  · intro h
    exact Agree.weaken asWire _ rfl (fun _ _ h ↦ h) (fun _ h ↦ h)
      (fun _ _ hab _ _ h ↦ hab (eq_of_utf16Order_tied h.2.2)) hu.distinct h

/-- **Canonical JSON decides equality of two parsed values** exactly when they are equal, or differ
in more than `__proto__` members and infinite numbers. -/
theorem canonicalJson_exact_iff {s t : JsString} {u v : JsData} (hu : parse s = some u)
    (hv : parse t = some v) :
    (canonicalJson u = canonicalJson v ↔ JsonEqual u v) ↔
      (JsonEqual u v ∨ ¬JsonEqualOnWire u v) := by
  have hj : IsJson u := parse_isJson hu
  rw [canonicalJson_eq_iff hj (parse_isJson hv)]
  have hwire : JsonEqual u v → JsonEqualOnWire u v := fun h ↦ h.onWire hj
  tauto

/-- Two texts without `__proto__`, told apart and rightly so. -/
theorem canonicalJson_exact_iff_of_null_member :
    (canonicalJson (.obj [(lit "a", .leaf .null)]) = canonicalJson (.obj []) ↔
      JsonEqual (.obj [(lit "a", .leaf .null)]) (.obj [])) ↔
    (JsonEqual (.obj [(lit "a", .leaf .null)]) (.obj []) ∨
      ¬JsonEqualOnWire (.obj [(lit "a", .leaf .null)]) (.obj [])) :=
  canonicalJson_exact_iff (s := lit "\x7b\"a\":null\x7d") (t := lit "\x7b\x7d")
    (by decide +kernel) (by decide +kernel)

/-- **A member named `__proto__` is lost**, so two different values have one canonical text. -/
theorem canonicalJson_not_exact :
    ¬∀ s t u v, parse s = some u → parse t = some v →
      (canonicalJson u = canonicalJson v ↔ JsonEqual u v) := by
  intro h
  have hsame := (h (lit "\x7b\"__proto__\":null\x7d") (lit "\x7b\x7d")
    (.obj [(protoKey, .leaf .null)]) (.obj []) (by decide +kernel) (by decide +kernel)).mp
    (by decide +kernel)
  cases hsame with | obj hkeys _ _ =>
  exact absurd ((hkeys protoKey trivial).mp List.mem_cons_self) List.not_mem_nil

end Vibestudio.ContentAddressing

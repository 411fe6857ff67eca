import Mathlib
import Vibestudio.Js.Value

/-!
# `JSON.stringify` and `JSON.parse`

The two conversions of ECMAScript between plain data and text. `stringify gap` is
`JSON.stringify(v, null, gap)`; the empty gap is the compact form. `parse` is `JSON.parse` without a
reviver: strict grammar, a duplicate key overwrites the value and keeps the place of the first one,
and every property is defined, never assigned, so `__proto__` is an ordinary key.

The main result is `parse_stringify`: parsing the text of a value without `undefined` gives the
value back, up to what the text cannot express (`wireLeaf`): the sign of a zero and the numbers that
are not finite. The compact text is therefore equal for two values exactly when their wire forms are
(`stringify_inj`).
-/

namespace Js

/-- The leaves of plain data. -/
inductive JsLeaf where
  | undefined
  | null
  | bool (b : Bool)
  | num (x : JsNumber)
  | str (s : JsString)
deriving DecidableEq

abbrev JsData := JsValue JsLeaf

def JsLeaf.isUndefined : JsLeaf → Bool
  | .undefined => true
  | _ => false

/-- What is left of a leaf after a trip through JSON text. -/
def wireLeaf : JsLeaf → JsLeaf
  | .undefined => .null
  | .num x => if x.isFinite then .num x.unsigned else .null
  | l => l

/-- No `undefined` anywhere and every object an enumeration: a value of the JSON data model, as far
as `JSON.stringify` can tell. -/
def IsJson (v : JsData) : Prop := v.WellFormed fun l ↦ l.isUndefined = false

/-! ## Strings -/

def hexDigit (n : ℕ) : CodeUnit := Fin.ofNat 65536 (if n < 10 then 48 + n else 87 + n)

/-- `\uxxxx`, in lower case. -/
def unicodeEscape (c : CodeUnit) : JsString :=
  [92, 117, hexDigit (c.val / 4096), hexDigit (c.val / 256 % 16), hexDigit (c.val / 16 % 16),
    hexDigit (c.val % 16)]

/-- The spelling of one unit outside a surrogate pair. -/
def escapeUnit (c : CodeUnit) : JsString :=
  if c = 8 then [92, 98]
  else if c = 9 then [92, 116]
  else if c = 10 then [92, 110]
  else if c = 12 then [92, 102]
  else if c = 13 then [92, 114]
  else if c = 34 then [92, 34]
  else if c = 92 then [92, 92]
  else if c.val < 32 || isSurrogate c then unicodeEscape c
  else [c]

/-- The text of a string between its quotes: a surrogate pair stands for itself, a lone surrogate is
escaped. -/
def quoteBody : JsString → JsString
  | [] => []
  | [c] => escapeUnit c
  | c :: d :: rest =>
    if isLeadSurrogate c && isTrailSurrogate d then c :: d :: quoteBody rest
    else escapeUnit c ++ quoteBody (d :: rest)

/-- `QuoteJSONString`. -/
def quote (s : JsString) : JsString := 34 :: (quoteBody s ++ [34])

/-- The value of a hexadecimal digit of either case. -/
def hexValue? (c : CodeUnit) : Option ℕ :=
  if isDigit c then some (c.val - 48)
  else if 97 ≤ c.val ∧ c.val ≤ 102 then some (c.val - 87)
  else if 65 ≤ c.val ∧ c.val ≤ 70 then some (c.val - 55)
  else none

/-- The unit of a `\u` escape. -/
def hexUnit? (x y z w : CodeUnit) : Option CodeUnit :=
  (hexValue? x).bind fun a ↦ (hexValue? y).bind fun b ↦ (hexValue? z).bind fun c ↦
    (hexValue? w).map fun d ↦ Fin.ofNat 65536 (a * 4096 + b * 256 + c * 16 + d)

/-- The unit of an escape of one letter. -/
def escaped? (c : CodeUnit) : Option CodeUnit :=
  if c = 34 then some 34
  else if c = 92 then some 92
  else if c = 47 then some 47
  else if c = 98 then some 8
  else if c = 102 then some 12
  else if c = 110 then some 10
  else if c = 114 then some 13
  else if c = 116 then some 9
  else none

/-- A string literal after its opening quote: its units and what follows the closing quote. -/
def parseString : JsString → Option (JsString × JsString)
  | [] => none
  | [c] => if c = 34 then some ([], []) else none
  | c :: d :: t =>
    if c = 34 then some ([], d :: t)
    else if c = 92 then
      if d = 117 then
        match t with
        | x :: y :: z :: w :: u =>
          (hexUnit? x y z w).bind fun e ↦ (parseString u).map fun p ↦ (e :: p.1, p.2)
        | _ => none
      else (escaped? d).bind fun e ↦ (parseString t).map fun p ↦ (e :: p.1, p.2)
    else if c.val < 32 then none
    else (parseString (d :: t)).map fun p ↦ (c :: p.1, p.2)

theorem parseString_quote (t : JsString) : parseString (34 :: t) = some ([], t) := by
  cases t with
  | nil => rfl
  | cons d t =>
    rw [parseString.eq_def]
    exact if_pos rfl

theorem parseString_plain {c : CodeUnit} {t : JsString} (h34 : c ≠ 34) (h92 : c ≠ 92)
    (h32 : ¬c.val < 32) (ht : t ≠ []) :
    parseString (c :: t) = (parseString t).map fun p ↦ (c :: p.1, p.2) := by
  obtain ⟨d, t, rfl⟩ := List.exists_cons_of_ne_nil ht
  rw [parseString.eq_def]
  exact (if_neg h34).trans ((if_neg h92).trans (if_neg h32))

theorem parseString_letter {d e : CodeUnit} {t : JsString} (hd : d ≠ 117)
    (he : escaped? d = some e) :
    parseString (92 :: d :: t) = (parseString t).map fun p ↦ (e :: p.1, p.2) := by
  rw [parseString.eq_def]
  simp only [show (92 : CodeUnit) ≠ 34 by decide, if_false, if_true, hd, he, Option.bind_some]

theorem hexValue?_hexDigit {n : ℕ} (h : n < 16) : hexValue? (hexDigit n) = some n := by
  interval_cases n <;> rfl

theorem hexUnit?_digits (c : CodeUnit) :
    hexUnit? (hexDigit (c.val / 4096)) (hexDigit (c.val / 256 % 16)) (hexDigit (c.val / 16 % 16))
      (hexDigit (c.val % 16)) = some c := by
  have hc := c.isLt
  rw [hexUnit?, hexValue?_hexDigit (by omega), hexValue?_hexDigit (by omega),
    hexValue?_hexDigit (by omega), hexValue?_hexDigit (by omega)]
  simp only [Option.bind_some, Option.map_some, Option.some_inj, Fin.ext_iff, Fin.val_ofNat]
  omega

theorem parseString_unicodeEscape (c : CodeUnit) (t : JsString) :
    parseString (unicodeEscape c ++ t) = (parseString t).map fun p ↦ (c :: p.1, p.2) := by
  rw [unicodeEscape]
  simp only [List.cons_append, List.nil_append]
  rw [parseString.eq_def]
  simp only [show (92 : CodeUnit) ≠ 34 by decide, if_false, if_true, hexUnit?_digits,
    Option.bind_some]

theorem parseString_escapeUnit (c : CodeUnit) {t : JsString} (ht : t ≠ []) :
    parseString (escapeUnit c ++ t) = (parseString t).map fun p ↦ (c :: p.1, p.2) := by
  rw [escapeUnit]
  split_ifs with h1 h2 h3 h4 h5 h6 h7 h8
  · subst h1; exact parseString_letter (by decide) rfl
  · subst h2; exact parseString_letter (by decide) rfl
  · subst h3; exact parseString_letter (by decide) rfl
  · subst h4; exact parseString_letter (by decide) rfl
  · subst h5; exact parseString_letter (by decide) rfl
  · subst h6; exact parseString_letter (by decide) rfl
  · subst h7; exact parseString_letter (by decide) rfl
  · exact parseString_unicodeEscape c t
  · rw [Bool.or_eq_true, not_or, decide_eq_true_iff] at h8
    exact parseString_plain h6 h7 h8.1 ht

theorem surrogate_plain {c : CodeUnit} (h : isLeadSurrogate c = true ∨ isTrailSurrogate c = true) :
    c ≠ 34 ∧ c ≠ 92 ∧ ¬c.val < 32 := by
  have hge : 0xD800 ≤ c.val := by
    rcases h with h | h
    · exact (of_decide_eq_true h).1
    · exact le_trans (by norm_num) (of_decide_eq_true h).1
  refine ⟨?_, ?_, by omega⟩ <;> (rintro rfl; exact absurd hge (by decide))

/-- **A quoted string is read back as it was.** -/
theorem parseString_quoteBody (s rest : JsString) :
    parseString (quoteBody s ++ 34 :: rest) = some (s, rest) := by
  induction s using quoteBody.induct with
  | case1 => exact parseString_quote rest
  | case2 c =>
    rw [quoteBody, parseString_escapeUnit c (List.cons_ne_nil _ _), parseString_quote,
      Option.map_some]
  | case3 c d s hpair ih =>
    rw [Bool.and_eq_true] at hpair
    obtain ⟨h1, h2, h3⟩ := surrogate_plain (Or.inl hpair.1)
    obtain ⟨h4, h5, h6⟩ := surrogate_plain (Or.inr hpair.2)
    rw [quoteBody, if_pos (by rw [Bool.and_eq_true]; exact hpair), List.cons_append,
      List.cons_append, parseString_plain h1 h2 h3 (List.cons_ne_nil _ _),
      parseString_plain h4 h5 h6 (by simp), ih, Option.map_some, Option.map_some]
  | case4 c d s hpair ih =>
    rw [quoteBody, if_neg hpair, List.append_assoc, parseString_escapeUnit c (by simp), ih,
      Option.map_some]

/-! ## Serialization -/

/-- A line break and the indentation; nothing in the compact form. -/
def newline (gap indent : JsString) : JsString := if gap = [] then [] else 10 :: indent

/-- `Array.prototype.join`. -/
def joinWith (sep : JsString) : List JsString → JsString
  | [] => []
  | [x] => x
  | x :: y :: rest => x ++ sep ++ joinWith sep (y :: rest)

mutual

/-- `ToString` of plain data; none is the `TypeError` of an object whose own `toString` is not
callable. -/
def toStringOf : JsData → Option JsString
  | .leaf .undefined => some (lit "undefined")
  | .leaf .null => some (lit "null")
  | .leaf (.bool true) => some (lit "true")
  | .leaf (.bool false) => some (lit "false")
  | .leaf (.num (.finite neg mag)) => some (finiteText neg mag)
  | .leaf (.num (.infinity neg)) => some (if neg then lit "-Infinity" else lit "Infinity")
  | .leaf (.num .nan) => some (lit "NaN")
  | .leaf (.str s) => some s
  | .arr xs => (elementTexts xs).map (joinWith (lit ","))
  | .obj kvs => if lit "toString" ∈ keys kvs then none else some (lit "[object Object]")

/-- The elements as `Array.prototype.join` sees them. -/
def elementTexts : List JsData → Option (List JsString)
  | [] => some []
  | .leaf .undefined :: xs => (elementTexts xs).map fun ts ↦ [] :: ts
  | .leaf .null :: xs => (elementTexts xs).map fun ts ↦ [] :: ts
  | x :: xs => (toStringOf x).bind fun t ↦ (elementTexts xs).map fun ts ↦ t :: ts

end

/-- The parts of an array or of an object between its brackets. -/
def bracket (gap indent : JsString) (l r : CodeUnit) (parts : List JsString) : JsString :=
  if parts = [] then [l, r]
  else
    l :: (newline gap (indent ++ gap) ++ joinWith (44 :: newline gap (indent ++ gap)) parts ++
      newline gap indent ++ [r])

/-- `SerializeJSONProperty` on a value that is not an object. -/
def leafText : JsLeaf → Option JsString
  | .undefined => none
  | .null => some (lit "null")
  | .bool true => some (lit "true")
  | .bool false => some (lit "false")
  | .num (.finite neg mag) => some (finiteText neg mag)
  | .num _ => some (lit "null")
  | .str s => some (quote s)

/-- The colon of a member. -/
def colon (gap : JsString) : JsString := if gap = [] then [58] else [58, 32]

mutual

/-- `SerializeJSONProperty`; none is `undefined`. -/
def serialize (gap indent : JsString) : JsData → Option JsString
  | .leaf l => leafText l
  | .arr xs => some (bracket gap indent 91 93 (serializeElements gap (indent ++ gap) xs))
  | .obj kvs => some (bracket gap indent 123 125 (serializeMembers gap (indent ++ gap) kvs))

/-- An `undefined` element becomes `null`. -/
def serializeElements (gap indent : JsString) : List JsData → List JsString
  | [] => []
  | x :: xs => (serialize gap indent x).getD (lit "null") :: serializeElements gap indent xs

/-- An `undefined` member is left out. -/
def serializeMembers (gap indent : JsString) : List (JsString × JsData) → List JsString
  | [] => []
  | (k, v) :: kvs =>
    match serialize gap indent v with
    | some t => (quote k ++ colon gap ++ t) :: serializeMembers gap indent kvs
    | none => serializeMembers gap indent kvs

end

/-- `JSON.stringify(v, null, gap)`; none is the result `undefined`. -/
def stringifyWith (gap : JsString) (v : JsData) : Option JsString := serialize gap [] v

/-- `JSON.stringify(v)`. -/
def stringify (v : JsData) : Option JsString := stringifyWith [] v

/-! ## Parsing -/

def isJsonSpace (c : CodeUnit) : Bool := decide (c.val ∈ [0x20, 0x09, 0x0A, 0x0D])

def skipSpace (s : JsString) : JsString := s.dropWhile isJsonSpace

/-- The next unit after white space is `c`; what follows it. -/
def expect (c : CodeUnit) (s : JsString) : Option JsString :=
  match skipSpace s with
  | d :: t => if d = c then some t else none
  | [] => none

/-- A literal name or a number. -/
def parseScalar (s : JsString) : Option (JsLeaf × JsString) :=
  match stripPrefix? (lit "null") s with
  | some t => some (.null, t)
  | none =>
    match stripPrefix? (lit "true") s with
    | some t => some (.bool true, t)
    | none =>
      match stripPrefix? (lit "false") s with
      | some t => some (.bool false, t)
      | none => (parseNumber s).map fun p ↦ (.num p.1, p.2)

/-- One member of an object, given the parser of its value. -/
def parseMember (value : JsString → Option (JsData × JsString)) (s : JsString) :
    Option ((JsString × JsData) × JsString) :=
  (expect 34 s).bind fun s ↦ (parseString s).bind fun k ↦ (expect 58 k.2).bind fun s ↦
    (value s).map fun p ↦ ((k.1, p.1), p.2)

mutual

/-- A JSON value at the front of a text, after optional white space, and what follows it. -/
def parseValue : ℕ → JsString → Option (JsData × JsString)
  | 0, _ => none
  | fuel + 1, s =>
    match expect 34 s with
    | some t => (parseString t).map fun p ↦ (.leaf (.str p.1), p.2)
    | none =>
      match expect 91 s with
      | some t =>
        match expect 93 t with
        | some r => some (.arr [], r)
        | none => (parseElements fuel t).map fun p ↦ (.arr p.1, p.2)
      | none =>
        match expect 123 s with
        | some t =>
          match expect 125 t with
          | some r => some (.obj [], r)
          | none => (parseMembers fuel t).map fun p ↦ (.obj (ofEntries p.1), p.2)
        | none => (parseScalar (skipSpace s)).map fun p ↦ (.leaf p.1, p.2)

/-- One or more elements and the closing bracket. -/
def parseElements : ℕ → JsString → Option (List JsData × JsString)
  | 0, _ => none
  | fuel + 1, s =>
    (parseValue fuel s).bind fun p ↦
      match expect 44 p.2 with
      | some r => (parseElements fuel r).map fun q ↦ (p.1 :: q.1, q.2)
      | none => (expect 93 p.2).map fun r ↦ ([p.1], r)

/-- One or more members and the closing brace, in the order of the text. -/
def parseMembers : ℕ → JsString → Option (List (JsString × JsData) × JsString)
  | 0, _ => none
  | fuel + 1, s =>
    (parseMember (parseValue fuel) s).bind fun p ↦
      match expect 44 p.2 with
      | some r => (parseMembers fuel r).map fun q ↦ (p.1 :: q.1, q.2)
      | none => (expect 125 p.2).map fun r ↦ ([p.1], r)

end

/-- `JSON.parse(text)`; none is a `SyntaxError`. Every second step of the parser consumes a unit, so
the fuel never decides the outcome. -/
def parse (text : JsString) : Option JsData :=
  (parseValue (2 * text.length + 2) text).bind fun p ↦
    if skipSpace p.2 = [] then some p.1 else none

/-! ## White space -/

def AllSpace (w : JsString) : Prop := ∀ c ∈ w, isJsonSpace c = true

theorem allSpace_nil : AllSpace [] := fun _ h ↦ absurd h List.not_mem_nil

theorem AllSpace.append {w w' : JsString} (h : AllSpace w) (h' : AllSpace w') :
    AllSpace (w ++ w') := fun c hc ↦ (List.mem_append.mp hc).elim (h c) (h' c)

theorem allSpace_newline {gap indent : JsString} (h : AllSpace indent) :
    AllSpace (newline gap indent) := by
  rw [newline]
  split_ifs
  · exact allSpace_nil
  · intro c hc
    rcases List.mem_cons.mp hc with rfl | hc
    · rfl
    · exact h c hc

theorem skipSpace_append {w : JsString} (hw : AllSpace w) (s : JsString) :
    skipSpace (w ++ s) = skipSpace s := List.dropWhile_append_of_pos hw

theorem skipSpace_cons {c : CodeUnit} {t : JsString} (hc : isJsonSpace c = false) :
    skipSpace (c :: t) = c :: t := List.dropWhile_cons_of_neg (by simp [hc])

theorem expect_append {w : JsString} (hw : AllSpace w) (c : CodeUnit) (s : JsString) :
    expect c (w ++ s) = expect c s := by rw [expect, expect, skipSpace_append hw]

theorem expect_cons {c d : CodeUnit} {t : JsString} (hd : isJsonSpace d = false) :
    expect c (d :: t) = if d = c then some t else none := by rw [expect, skipSpace_cons hd]

theorem expect_self {c : CodeUnit} {t : JsString} (hc : isJsonSpace c = false) :
    expect c (c :: t) = some t := by rw [expect_cons hc, if_pos rfl]

theorem expect_ne {c d : CodeUnit} {t : JsString} (hd : isJsonSpace d = false) (h : d ≠ c) :
    expect c (d :: t) = none := by rw [expect_cons hd, if_neg h]

theorem numberEnd_cons {c : CodeUnit} {t : JsString}
    (h : isDigit c = false ∧ c ≠ 46 ∧ c ≠ 101 ∧ c ≠ 69) : NumberEnd (c :: t) := by
  intro d hd
  obtain rfl : c = d := Option.some_inj.mp hd
  exact h

theorem numberEnd_space {w : JsString} {c : CodeUnit} {t : JsString} (hw : AllSpace w)
    (h : isDigit c = false ∧ c ≠ 46 ∧ c ≠ 101 ∧ c ≠ 69) : NumberEnd (w ++ c :: t) := by
  cases w with
  | nil => exact numberEnd_cons h
  | cons d w =>
    have hd : d.val ∈ [0x20, 0x09, 0x0A, 0x0D] := of_decide_eq_true (hw d List.mem_cons_self)
    simp only [List.mem_cons, List.not_mem_nil, or_false] at hd
    refine numberEnd_cons ⟨?_, ?_, ?_, ?_⟩
    · rw [isDigit, decide_eq_false_iff_not]
      omega
    all_goals
      rintro rfl
      exact absurd hd (by decide)

/-! ## Reading a leaf back -/

theorem stripPrefix?_of_head_ne {a c : CodeUnit} {p t : JsString} (h : a ≠ c) :
    stripPrefix? (a :: p) (c :: t) = none := by
  rw [stripPrefix?, if_neg]
  rintro ⟨u, hu⟩
  exact h (List.cons.inj hu).1

theorem parseScalar_number {c : CodeUnit} {t : JsString} (hc : c = 45 ∨ isDigit c = true) :
    parseScalar (c :: t) = (parseNumber (c :: t)).map fun p ↦ (.num p.1, p.2) := by
  have hne : ∀ d : CodeUnit, 58 ≤ d.val → d ≠ c := by
    rintro d hd rfl
    rcases hc with rfl | hc
    · exact absurd hd (by decide)
    · have := of_decide_eq_true hc
      omega
  have hnull : stripPrefix? (lit "null") (c :: t) = none :=
    stripPrefix?_of_head_ne (hne _ (by decide))
  have htrue : stripPrefix? (lit "true") (c :: t) = none :=
    stripPrefix?_of_head_ne (hne _ (by decide))
  have hfalse : stripPrefix? (lit "false") (c :: t) = none :=
    stripPrefix?_of_head_ne (hne _ (by decide))
  rw [parseScalar, hnull, htrue, hfalse]

/-- The first unit of the text of a value: not white space, and not a closing bracket. -/
def ValueHead (t : JsString) : Prop :=
  ∃ c u, t = c :: u ∧ isJsonSpace c = false ∧ c ≠ 93 ∧ c ≠ 125

/-- The text of a leaf other than a string. -/
theorem exists_scalarText {l : JsLeaf} (hu : l.isUndefined = false) (hs : ∀ s, l ≠ .str s) :
    ∃ c u, leafText l = some (c :: u) ∧ isJsonSpace c = false ∧
      (c ≠ 34 ∧ c ≠ 91 ∧ c ≠ 123 ∧ c ≠ 93 ∧ c ≠ 125) ∧
      ∀ rest, NumberEnd rest → parseScalar (c :: u ++ rest) = some (wireLeaf l, rest) := by
  have hkw : ∀ rest, parseScalar (lit "null" ++ rest) = some (.null, rest) ∧
      parseScalar (lit "true" ++ rest) = some (.bool true, rest) ∧
      parseScalar (lit "false" ++ rest) = some (.bool false, rest) := by
    intro rest
    have h1 : stripPrefix? (lit "null") (lit "true" ++ rest) = none :=
      stripPrefix?_of_head_ne (by decide)
    have h2 : stripPrefix? (lit "null") (lit "false" ++ rest) = none :=
      stripPrefix?_of_head_ne (by decide)
    have h3 : stripPrefix? (lit "true") (lit "false" ++ rest) = none :=
      stripPrefix?_of_head_ne (by decide)
    simp only [parseScalar, stripPrefix?_append, h1, h2, h3, and_self]
  cases l with
  | undefined => exact absurd hu (by decide)
  | null => exact ⟨110, lit "ull", rfl, rfl, by decide, fun rest _ ↦ (hkw rest).1⟩
  | bool b =>
    cases b with
    | true => exact ⟨116, lit "rue", rfl, rfl, by decide, fun rest _ ↦ (hkw rest).2.1⟩
    | false => exact ⟨102, lit "alse", rfl, rfl, by decide, fun rest _ ↦ (hkw rest).2.2⟩
  | num x =>
    cases x with
    | finite neg mag =>
      obtain ⟨c, u, hcu, hc⟩ := head_finiteText neg mag
      refine ⟨c, u, by rw [leafText, hcu], ?_, ?_, fun rest hrest ↦ ?_⟩
      · rcases hc with rfl | hc
        · rfl
        · have := of_decide_eq_true hc
          simp only [isJsonSpace, decide_eq_false_iff_not, List.mem_cons, List.not_mem_nil,
            or_false]
          omega
      · rcases hc with rfl | hc
        · decide
        · refine ⟨?_, ?_, ?_, ?_, ?_⟩ <;> (rintro rfl; exact absurd hc (by decide))
      · rw [List.cons_append, parseScalar_number hc, ← List.cons_append, ← hcu,
          parseNumber_finiteText neg mag hrest]
        rfl
    | infinity neg => exact ⟨110, lit "ull", rfl, rfl, by decide, fun rest _ ↦ (hkw rest).1⟩
    | nan => exact ⟨110, lit "ull", rfl, rfl, by decide, fun rest _ ↦ (hkw rest).1⟩
  | str s => exact absurd rfl (hs s)

/-- The text of the value is read back, whatever the indentation and the surroundings. -/
def ReadsBack (gap : JsString) (v : JsData) : Prop :=
  ∀ indent, AllSpace indent → ∃ t, serialize gap indent v = some t ∧ ValueHead t ∧
    ∀ fuel w rest, AllSpace w → NumberEnd rest → t.length < fuel →
      parseValue fuel (w ++ (t ++ rest)) = some (v.mapLeaf wireLeaf, rest)

theorem readsBack_leaf {gap : JsString} {l : JsLeaf} (hl : l.isUndefined = false) :
    ReadsBack gap (.leaf l) := by
  intro indent _
  by_cases hs : ∃ s, l = .str s
  · obtain ⟨s, rfl⟩ := hs
    refine ⟨quote s, rfl, ⟨34, _, rfl, rfl, by decide, by decide⟩, fun fuel w rest hw _ hf ↦ ?_⟩
    obtain ⟨fuel, rfl⟩ := Nat.exists_eq_succ_of_ne_zero (Nat.ne_zero_of_lt hf)
    rw [parseValue, expect_append hw, quote, List.cons_append, expect_self rfl,
      List.append_assoc]
    simp only [List.singleton_append, parseString_quoteBody, Option.map_some]
    rfl
  · obtain ⟨c, u, htext, hspace, ⟨h34, h91, h123, h93, h125⟩, hparse⟩ :=
      exists_scalarText hl fun s h ↦ hs ⟨s, h⟩
    refine ⟨c :: u, htext, ⟨c, u, rfl, hspace, h93, h125⟩, fun fuel w rest hw hrest hf ↦ ?_⟩
    obtain ⟨fuel, rfl⟩ := Nat.exists_eq_succ_of_ne_zero (Nat.ne_zero_of_lt hf)
    have hskip : skipSpace (w ++ (c :: u ++ rest)) = c :: u ++ rest := by
      rw [skipSpace_append hw, List.cons_append, skipSpace_cons hspace]
    rw [parseValue, hskip, expect_append hw, expect_append hw, expect_append hw, List.cons_append,
      expect_ne hspace h34, expect_ne hspace h91, expect_ne hspace h123]
    simp only
    rw [← List.cons_append, hparse rest hrest]
    rfl

/-! ## Reading an array or an object back -/

/-- `joinWith` on a nonempty tail. -/
theorem joinWith_cons {sep x : JsString} {parts : List JsString} (h : parts ≠ []) :
    joinWith sep (x :: parts) = x ++ sep ++ joinWith sep parts := by
  obtain ⟨y, rest, rfl⟩ := List.exists_cons_of_ne_nil h
  rfl

theorem parseElements_join {gap indent : JsString} (hi : AllSpace indent) (xs : List JsData) :
    xs ≠ [] → (∀ x ∈ xs, ReadsBack gap x) → ∀ {fuel : ℕ} {w tail rest : JsString},
      AllSpace w → AllSpace tail →
      (joinWith (44 :: newline gap indent) (serializeElements gap indent xs)).length + 1 < fuel →
      parseElements fuel
        (w ++ (joinWith (44 :: newline gap indent) (serializeElements gap indent xs) ++
          (tail ++ 93 :: rest))) = some (xs.map (·.mapLeaf wireLeaf), rest) := by
  induction xs with
  | nil => exact fun h ↦ absurd rfl h
  | cons x xs ih =>
    intro _ hx fuel w tail rest hw htail hf
    obtain ⟨fuel, rfl⟩ := Nat.exists_eq_succ_of_ne_zero (Nat.ne_zero_of_lt hf)
    obtain ⟨t, ht, -, hread⟩ := hx x List.mem_cons_self indent hi
    have hclose : NumberEnd (tail ++ 93 :: rest) := numberEnd_space htail (by decide)
    by_cases hxs : xs = []
    · subst hxs
      simp only [serializeElements, ht, Option.getD_some, joinWith] at hf ⊢
      rw [parseElements, hread fuel w _ hw hclose (by omega), Option.bind_some]
      simp only
      rw [expect_append htail, expect_append htail, expect_ne rfl (by decide), expect_self rfl]
      rfl
    · have hne : serializeElements gap indent xs ≠ [] := by
        obtain ⟨y, ys, rfl⟩ := List.exists_cons_of_ne_nil hxs
        exact List.cons_ne_nil _ _
      rw [serializeElements, ht, Option.getD_some, joinWith_cons hne] at hf ⊢
      simp only [List.length_append, List.length_cons] at hf
      have hcomma : NumberEnd ((44 :: newline gap indent) ++
          (joinWith (44 :: newline gap indent) (serializeElements gap indent xs) ++
            (tail ++ 93 :: rest))) := numberEnd_cons (by decide)
      rw [parseElements, List.append_assoc, List.append_assoc,
        hread fuel w _ hw hcomma (by omega), Option.bind_some]
      simp only [List.cons_append]
      rw [expect_self rfl]
      simp only
      rw [ih hxs (fun y hy ↦ hx y (List.mem_cons_of_mem x hy)) (allSpace_newline hi) htail
        (by omega)]
      rfl

theorem parseMember_read {gap : JsString} {k : JsString} {v : JsData} {t : JsString}
    {fuel : ℕ} {w rest : JsString} (hw : AllSpace w) (hrest : NumberEnd rest)
    (ht : ∀ w rest, AllSpace w → NumberEnd rest →
      parseValue fuel (w ++ (t ++ rest)) = some (v.mapLeaf wireLeaf, rest)) :
    parseMember (parseValue fuel) (w ++ (quote k ++ colon gap ++ t ++ rest))
      = some ((k, v.mapLeaf wireLeaf), rest) := by
  have hcolon : ∃ s, AllSpace s ∧ colon gap = 58 :: s := by
    rw [colon]
    split_ifs
    · exact ⟨[], allSpace_nil, rfl⟩
    · refine ⟨[32], fun c hc ↦ ?_, rfl⟩
      rw [List.mem_singleton.mp hc]
      rfl
  obtain ⟨s, hs, hcolon⟩ := hcolon
  rw [parseMember, expect_append hw, quote, hcolon]
  simp only [List.cons_append, List.append_assoc, List.nil_append]
  rw [expect_self rfl, Option.bind_some, parseString_quoteBody, Option.bind_some]
  simp only
  rw [expect_self rfl, Option.bind_some, ht s rest hs hrest]
  rfl

theorem parseMembers_join {gap indent : JsString} (hi : AllSpace indent)
    (kvs : List (JsString × JsData)) :
    kvs ≠ [] → (∀ p ∈ kvs, ReadsBack gap p.2) → ∀ {fuel : ℕ} {w tail rest : JsString},
      AllSpace w → AllSpace tail →
      (joinWith (44 :: newline gap indent) (serializeMembers gap indent kvs)).length + 1 < fuel →
      parseMembers fuel
        (w ++ (joinWith (44 :: newline gap indent) (serializeMembers gap indent kvs) ++
          (tail ++ 125 :: rest))) = some (kvs.map fun p ↦ (p.1, p.2.mapLeaf wireLeaf), rest) := by
  induction kvs with
  | nil => exact fun h ↦ absurd rfl h
  | cons p kvs ih =>
    intro _ hp fuel w tail rest hw htail hf
    obtain ⟨fuel, rfl⟩ := Nat.exists_eq_succ_of_ne_zero (Nat.ne_zero_of_lt hf)
    obtain ⟨k, v⟩ := p
    obtain ⟨t, ht, -, hread⟩ := hp (k, v) List.mem_cons_self indent hi
    simp only at ht hread
    have hclose : NumberEnd (tail ++ 125 :: rest) := numberEnd_space htail (by decide)
    by_cases hkvs : kvs = []
    · subst hkvs
      simp only [serializeMembers, ht, joinWith] at hf ⊢
      simp only [List.length_append] at hf
      rw [parseMembers, parseMember_read hw hclose
        fun w rest hw hrest ↦ hread fuel w rest hw hrest (by omega), Option.bind_some]
      simp only
      rw [expect_append htail, expect_append htail, expect_ne rfl (by decide), expect_self rfl]
      rfl
    · have hne : serializeMembers gap indent kvs ≠ [] := by
        obtain ⟨q, qs, rfl⟩ := List.exists_cons_of_ne_nil hkvs
        obtain ⟨tq, htq, -⟩ := hp q (List.mem_cons_of_mem _ List.mem_cons_self) indent hi
        rw [serializeMembers.eq_def]
        simp only [htq]
        exact List.cons_ne_nil _ _
      rw [serializeMembers, ht] at hf ⊢
      simp only at hf ⊢
      rw [joinWith_cons hne] at hf ⊢
      simp only [List.length_append, List.length_cons] at hf
      have hcomma : NumberEnd ((44 :: newline gap indent) ++
          (joinWith (44 :: newline gap indent) (serializeMembers gap indent kvs) ++
            (tail ++ 125 :: rest))) := numberEnd_cons (by decide)
      rw [parseMembers, List.append_assoc (_ ++ t), List.append_assoc (_ ++ t),
        List.append_assoc (44 :: _), parseMember_read hw hcomma
          fun w rest hw hrest ↦ hread fuel w rest hw hrest (by omega), Option.bind_some]
      simp only [List.cons_append]
      rw [expect_self rfl]
      simp only
      rw [ih hkvs (fun q hq ↦ hp q (List.mem_cons_of_mem _ hq)) (allSpace_newline hi) htail
        (by omega)]
      rfl

theorem valueHead_bracket {gap indent : JsString} {l r : CodeUnit} {parts : List JsString}
    (h : isJsonSpace l = false ∧ l ≠ 93 ∧ l ≠ 125) : ValueHead (bracket gap indent l r parts) := by
  rw [bracket]
  split_ifs
  · exact ⟨l, [r], rfl, h⟩
  · exact ⟨l, _, rfl, h⟩

/-- The parts of a nonempty bracket. -/
theorem bracket_of_ne {gap indent : JsString} {l r : CodeUnit} {parts : List JsString}
    (h : parts ≠ []) (rest : JsString) :
    bracket gap indent l r parts ++ rest
      = l :: (newline gap (indent ++ gap) ++
          (joinWith (44 :: newline gap (indent ++ gap)) parts ++
            (newline gap indent ++ r :: rest))) := by
  rw [bracket, if_neg h]
  simp only [List.cons_append, List.append_assoc, List.nil_append]

theorem length_bracket {gap indent : JsString} {l r : CodeUnit} {parts : List JsString}
    (h : parts ≠ []) : (joinWith (44 :: newline gap (indent ++ gap)) parts).length + 2
      ≤ (bracket gap indent l r parts).length := by
  rw [bracket, if_neg h]
  simp only [List.length_cons, List.length_append, List.length_nil]
  omega

/-- The first unit inside a nonempty bracket is not the closing one. -/
theorem expect_close {w t s : JsString} {c : CodeUnit} (hw : AllSpace w) (ht : ValueHead t)
    (hc : c = 93 ∨ c = 125) : expect c (w ++ (t ++ s)) = none := by
  obtain ⟨d, u, rfl, hd, h93, h125⟩ := ht
  rw [expect_append hw, List.cons_append]
  rcases hc with rfl | rfl
  · exact expect_ne hd h93
  · exact expect_ne hd h125

theorem valueHead_joinWith {sep x : JsString} {parts : List JsString} (h : ValueHead x) :
    ValueHead (joinWith sep (x :: parts)) := by
  obtain ⟨c, u, rfl, hc⟩ := h
  cases parts with
  | nil => exact ⟨c, u, rfl, hc⟩
  | cons y rest => exact ⟨c, u ++ sep ++ joinWith sep (y :: rest), rfl, hc⟩

theorem readsBack_arr {gap : JsString} (hg : AllSpace gap) {xs : List JsData}
    (hx : ∀ x ∈ xs, ReadsBack gap x) : ReadsBack gap (.arr xs) := by
  intro indent hi
  refine ⟨_, rfl, valueHead_bracket (by decide), fun fuel w rest hw _ hf ↦ ?_⟩
  obtain ⟨fuel, rfl⟩ := Nat.exists_eq_succ_of_ne_zero (Nat.ne_zero_of_lt hf)
  have hi' : AllSpace (indent ++ gap) := hi.append hg
  cases xs with
  | nil =>
    rw [serializeElements, bracket, if_pos rfl, parseValue, expect_append hw, expect_append hw]
    simp only [List.cons_append, List.nil_append]
    rw [expect_ne rfl (by decide), expect_self rfl]
    simp only
    rw [expect_self rfl]
    rfl
  | cons x xs =>
    obtain ⟨t, ht, hhead, -⟩ := hx x List.mem_cons_self _ hi'
    have hne : serializeElements gap (indent ++ gap) (x :: xs) ≠ [] := List.cons_ne_nil _ _
    have hjoin : ValueHead (joinWith (44 :: newline gap (indent ++ gap))
        (serializeElements gap (indent ++ gap) (x :: xs))) := by
      rw [serializeElements, ht, Option.getD_some]
      exact valueHead_joinWith hhead
    have hlen : (joinWith (44 :: newline gap (indent ++ gap))
        (serializeElements gap (indent ++ gap) (x :: xs))).length + 2
          ≤ (bracket gap indent 91 93 (serializeElements gap (indent ++ gap) (x :: xs))).length :=
      length_bracket hne
    rw [bracket_of_ne hne, parseValue, expect_append hw, expect_append hw,
      expect_ne rfl (by decide), expect_self rfl]
    simp only
    rw [expect_close (allSpace_newline hi') hjoin (Or.inl rfl)]
    simp only
    rw [parseElements_join hi' (x :: xs) (List.cons_ne_nil _ _) hx (allSpace_newline hi')
      (allSpace_newline hi) (by omega), Option.map_some, JsValue.mapLeaf_arr]

theorem readsBack_obj {gap : JsString} (hg : AllSpace gap) {kvs : List (JsString × JsData)}
    (ho : Ordered kvs) (hp : ∀ p ∈ kvs, ReadsBack gap p.2) : ReadsBack gap (.obj kvs) := by
  intro indent hi
  refine ⟨_, rfl, valueHead_bracket (by decide), fun fuel w rest hw _ hf ↦ ?_⟩
  obtain ⟨fuel, rfl⟩ := Nat.exists_eq_succ_of_ne_zero (Nat.ne_zero_of_lt hf)
  have hi' : AllSpace (indent ++ gap) := hi.append hg
  have hmap : ofEntries (kvs.map fun p ↦ (p.1, p.2.mapLeaf wireLeaf))
      = kvs.map fun p ↦ (p.1, p.2.mapLeaf wireLeaf) :=
    ofEntries_of_ordered (ordered_map_snd.mpr ho)
  cases kvs with
  | nil =>
    rw [serializeMembers, bracket, if_pos rfl, parseValue, expect_append hw, expect_append hw,
      expect_append hw]
    simp only [List.cons_append, List.nil_append]
    rw [expect_ne rfl (by decide), expect_ne rfl (by decide), expect_self rfl]
    simp only
    rw [expect_self rfl]
    rfl
  | cons p kvs =>
    obtain ⟨k, v⟩ := p
    obtain ⟨t, ht, -, -⟩ := hp (k, v) List.mem_cons_self _ hi'
    simp only at ht
    have hparts : serializeMembers gap (indent ++ gap) ((k, v) :: kvs)
        = (quote k ++ colon gap ++ t) :: serializeMembers gap (indent ++ gap) kvs := by
      rw [serializeMembers, ht]
    have hne : serializeMembers gap (indent ++ gap) ((k, v) :: kvs) ≠ [] := by
      rw [hparts]
      exact List.cons_ne_nil _ _
    have hjoin : ValueHead (joinWith (44 :: newline gap (indent ++ gap))
        (serializeMembers gap (indent ++ gap) ((k, v) :: kvs))) := by
      rw [hparts]
      exact valueHead_joinWith ⟨34, _, rfl, rfl, by decide, by decide⟩
    have hlen : (joinWith (44 :: newline gap (indent ++ gap))
        (serializeMembers gap (indent ++ gap) ((k, v) :: kvs))).length + 2
          ≤ (bracket gap indent 123 125
              (serializeMembers gap (indent ++ gap) ((k, v) :: kvs))).length :=
      length_bracket hne
    rw [bracket_of_ne hne, parseValue, expect_append hw, expect_append hw, expect_append hw,
      expect_ne rfl (by decide), expect_ne rfl (by decide), expect_self rfl]
    simp only
    rw [expect_close (allSpace_newline hi') hjoin (Or.inr rfl)]
    simp only
    rw [parseMembers_join hi' ((k, v) :: kvs) (List.cons_ne_nil _ _) hp (allSpace_newline hi')
      (allSpace_newline hi) (by omega), Option.map_some, hmap, JsValue.mapLeaf_obj]

theorem readsBack {gap : JsString} (hg : AllSpace gap) {v : JsData} (hv : IsJson v) :
    ReadsBack gap v := by
  induction hv with
  | leaf hl => exact readsBack_leaf hl
  | arr _ ih => exact readsBack_arr hg ih
  | obj ho _ ih => exact readsBack_obj hg ho ih

/-- **`JSON.parse` undoes `JSON.stringify`**, up to the sign of a zero and the numbers that are not
finite. -/
theorem parse_stringifyWith {gap : JsString} (hg : AllSpace gap) {v : JsData} (hv : IsJson v) :
    ∃ t, stringifyWith gap v = some t ∧ parse t = some (v.mapLeaf wireLeaf) := by
  obtain ⟨t, ht, -, hread⟩ := readsBack hg hv [] allSpace_nil
  refine ⟨t, ht, ?_⟩
  have hend : NumberEnd [] := fun c hc ↦ absurd hc (by simp)
  have hparse := hread (2 * t.length + 2) [] [] allSpace_nil hend (by omega)
  rw [List.nil_append, List.append_nil] at hparse
  rw [parse, hparse, Option.bind_some]
  rfl

theorem parse_stringify {v : JsData} (hv : IsJson v) :
    ∃ t, stringify v = some t ∧ parse t = some (v.mapLeaf wireLeaf) :=
  parse_stringifyWith allSpace_nil hv

/-- JSON data that text carries unchanged. -/
def OnWire (v : JsData) : Prop := v.WellFormed fun l ↦ l.isUndefined = false ∧ wireLeaf l = l

theorem OnWire.isJson {v : JsData} (h : OnWire v) : IsJson v := h.mono fun _ hl ↦ hl.1

theorem OnWire.parse_stringify {v : JsData} (h : OnWire v) :
    ∃ t, stringify v = some t ∧ parse t = some v := by
  obtain ⟨t, ht, hparse⟩ := Js.parse_stringify h.isJson
  rw [JsValue.mapLeaf_eq_self (fun _ hl ↦ hl.2) h] at hparse
  exact ⟨t, ht, hparse⟩

/-! ## What the text distinguishes -/

theorem leafText_wireLeaf {l : JsLeaf} (hl : l.isUndefined = false) :
    leafText (wireLeaf l) = leafText l := by
  cases l with
  | undefined => exact absurd hl (by decide)
  | num x =>
    cases x with
    | finite neg mag =>
      by_cases h0 : mag.mant = 0
      · have hzero : Magnitude.zero.mant = 0 := rfl
        simp only [wireLeaf, JsNumber.isFinite, JsNumber.unsigned, h0, if_true, leafText,
          finiteText, hzero]
      · simp only [wireLeaf, JsNumber.isFinite, JsNumber.unsigned, h0, if_true, if_false]
    | infinity _ => rfl
    | nan => rfl
  | _ => rfl

theorem serialize_wire (gap : JsString) {v : JsData} (hv : IsJson v) :
    ∀ indent, serialize gap indent (v.mapLeaf wireLeaf) = serialize gap indent v := by
  induction hv with
  | leaf hl => exact fun indent ↦ leafText_wireLeaf hl
  | @arr xs _ ih =>
    have hel : ∀ indent, serializeElements gap indent (xs.map (·.mapLeaf wireLeaf))
        = serializeElements gap indent xs := by
      intro indent
      clear * - ih
      induction xs with
      | nil => rfl
      | cons x xs ihxs =>
        rw [List.map_cons, serializeElements, serializeElements, ih x List.mem_cons_self indent,
          ihxs fun y hy ↦ ih y (List.mem_cons_of_mem x hy)]
    intro indent
    rw [JsValue.mapLeaf_arr, serialize, serialize, hel]
  | @obj kvs _ _ ih =>
    have hmem : ∀ indent, serializeMembers gap indent (kvs.map fun p ↦ (p.1, p.2.mapLeaf wireLeaf))
        = serializeMembers gap indent kvs := by
      intro indent
      clear * - ih
      induction kvs with
      | nil => rfl
      | cons p kvs ihkvs =>
        obtain ⟨k, v⟩ := p
        rw [List.map_cons, serializeMembers, serializeMembers, ih (k, v) List.mem_cons_self indent,
          ihkvs fun q hq ↦ ih q (List.mem_cons_of_mem _ hq)]
    intro indent
    rw [JsValue.mapLeaf_obj, serialize, serialize, hmem]

/-- **Two values have the same compact text exactly when their wire forms are equal.** -/
theorem stringify_inj {u v : JsData} (hu : IsJson u) (hv : IsJson v) :
    stringify u = stringify v ↔ u.mapLeaf wireLeaf = v.mapLeaf wireLeaf := by
  constructor
  · intro h
    obtain ⟨t, ht, hparse⟩ := parse_stringify hu
    obtain ⟨t', ht', hparse'⟩ := parse_stringify hv
    rw [ht, ht', Option.some_inj] at h
    rw [h, hparse', Option.some_inj] at hparse
    exact hparse.symm
  · intro h
    rw [stringify, stringify, stringifyWith, stringifyWith, ← serialize_wire [] hu,
      ← serialize_wire [] hv, h]

end Js

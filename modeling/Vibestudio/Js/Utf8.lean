import Vibestudio.Js.Text

/-!
# What UTF-8 keeps of a string

`TextEncoder` sees a string as the sequence of its scalar values: a surrogate pair is one, and a
lone surrogate is U+FFFD. Those it keeps, because UTF-8 is a prefix code (`utf8Encode_eq_iff`). Two
strings without lone surrogates that encode alike are therefore the same
(`eq_of_utf8Encode_wellFormed`), and no more than that can be said.
-/

namespace Js

/-! ## Scalar values -/

/-- The scalar values of a string, as the conversion to `USVString` yields them. -/
def scalarValues : JsString → List ℕ
  | [] => []
  | [c] => [loneCodePoint c]
  | c :: d :: rest =>
    if isLeadSurrogate c && isTrailSurrogate d then pairCodePoint c d :: scalarValues rest
    else loneCodePoint c :: scalarValues (d :: rest)

theorem utf8Encode_eq_flatMap (s : JsString) : utf8Encode s = (scalarValues s).flatMap utf8CodePoint := by
  induction s using utf8Encode.induct with
  | case1 => rfl
  | case2 c => rw [utf8Encode, scalarValues, List.flatMap_singleton]
  | case3 c d rest hpair ih =>
    rw [utf8Encode, if_pos hpair, scalarValues, if_pos hpair, List.flatMap_cons, ih]
  | case4 c d rest hpair ih =>
    rw [utf8Encode, if_neg hpair, scalarValues, if_neg hpair, List.flatMap_cons, ih]

theorem loneCodePoint_lt (c : CodeUnit) : loneCodePoint c < 0x10000 := by
  have := c.isLt
  rw [loneCodePoint]
  split_ifs <;> omega

/-- The ranges of the two halves of a pair. -/
theorem pair_ranges {c d : CodeUnit} (h : (isLeadSurrogate c && isTrailSurrogate d) = true) :
    (0xD800 ≤ c.val ∧ c.val ≤ 0xDBFF) ∧ (0xDC00 ≤ d.val ∧ d.val ≤ 0xDFFF) := by
  rw [Bool.and_eq_true] at h
  exact ⟨of_decide_eq_true h.1, of_decide_eq_true h.2⟩

theorem scalarValues_lt (s : JsString) : ∀ p ∈ scalarValues s, p < 0x110000 := by
  induction s using scalarValues.induct with
  | case1 => exact fun _ hp ↦ absurd hp List.not_mem_nil
  | case2 c =>
    rw [scalarValues]
    have := loneCodePoint_lt c
    exact List.forall_mem_singleton.mpr (by omega)
  | case3 c d rest hpair ih =>
    rw [scalarValues, if_pos hpair]
    obtain ⟨hc, hd⟩ := pair_ranges hpair
    have hval : pairCodePoint c d = 0x10000 + (c.val - 0xD800) * 1024 + (d.val - 0xDC00) := rfl
    exact List.forall_mem_cons.mpr ⟨by omega, ih⟩
  | case4 c d rest hpair ih =>
    rw [scalarValues, if_neg hpair]
    have := loneCodePoint_lt c
    exact List.forall_mem_cons.mpr ⟨by omega, ih⟩

/-- An ASCII character does not combine with its neighbours. -/
theorem utf8Encode_append_ascii {c : CodeUnit} (hc : c.val < 0x80) (s t : JsString) :
    utf8Encode (s ++ c :: t) = utf8Encode s ++ Fin.ofNat 256 c.val :: utf8Encode t := by
  have hs : isSurrogate c = false := by
    simp only [isSurrogate, isLeadSurrogate, isTrailSurrogate, Bool.or_eq_false_iff,
      decide_eq_false_iff_not]
    omega
  obtain ⟨hlead, htrail⟩ := Bool.or_eq_false_iff.mp hs
  have hlone : utf8CodePoint (loneCodePoint c) = [Fin.ofNat 256 c.val] := by
    rw [loneCodePoint, hs, if_neg Bool.false_ne_true, utf8CodePoint, if_pos hc]
  have hcons : utf8Encode (c :: t) = Fin.ofNat 256 c.val :: utf8Encode t := by
    cases t with
    | nil => exact hlone
    | cons d t =>
      rw [utf8Encode, hlead, Bool.false_and, if_neg Bool.false_ne_true, hlone]
      rfl
  induction s using utf8Encode.induct with
  | case1 => rw [List.nil_append, hcons, utf8Encode, List.nil_append]
  | case2 x =>
    have hx : utf8Encode (x :: c :: t) = utf8CodePoint (loneCodePoint x) ++ utf8Encode (c :: t) := by
      rw [utf8Encode, htrail, Bool.and_false, if_neg Bool.false_ne_true]
    rw [List.singleton_append, hx, hcons]
    rfl
  | case3 x d rest hpair ih =>
    rw [List.cons_append, List.cons_append, utf8Encode, if_pos hpair, ih, utf8Encode, if_pos hpair,
      List.append_assoc]
  | case4 x d rest hpair ih =>
    rw [List.cons_append, List.cons_append, utf8Encode, if_neg hpair, ← List.cons_append, ih,
      utf8Encode, if_neg hpair, List.append_assoc]

/-! ## The code -/

/-- **UTF-8 is a prefix code**: the first byte gives the length, and the bytes the digits. -/
theorem utf8CodePoint_append_inj {p q : ℕ} {x y : List Byte} (hp : p < 0x110000)
    (hq : q < 0x110000) (h : utf8CodePoint p ++ x = utf8CodePoint q ++ y) : p = q ∧ x = y := by
  rw [utf8CodePoint, utf8CodePoint] at h
  split_ifs at h
  -- Sixteen cases: the lengths agree on the diagonal, and the first bytes differ off it.
  all_goals
    simp only [List.cons_append, List.nil_append, List.cons.injEq, Fin.ext_iff,
      Fin.val_ofNat] at h
    first
      | exact ⟨by omega, h.2⟩
      | exact ⟨by omega, h.2.2⟩
      | exact ⟨by omega, h.2.2.2⟩
      | exact ⟨by omega, h.2.2.2.2⟩
      | exact absurd h.1 (by omega)

theorem utf8CodePoint_ne_nil (p : ℕ) : utf8CodePoint p ≠ [] := by
  rw [utf8CodePoint]
  split_ifs <;> exact List.cons_ne_nil _ _

theorem flatMap_utf8CodePoint_inj {ps qs : List ℕ} (hp : ∀ p ∈ ps, p < 0x110000)
    (hq : ∀ q ∈ qs, q < 0x110000)
    (h : ps.flatMap utf8CodePoint = qs.flatMap utf8CodePoint) : ps = qs := by
  induction ps generalizing qs with
  | nil =>
    cases qs with
    | nil => rfl
    | cons q qs =>
      rw [List.flatMap_nil, List.flatMap_cons, eq_comm, List.append_eq_nil_iff] at h
      exact absurd h.1 (utf8CodePoint_ne_nil q)
  | cons p ps ih =>
    cases qs with
    | nil =>
      rw [List.flatMap_nil, List.flatMap_cons, List.append_eq_nil_iff] at h
      exact absurd h.1 (utf8CodePoint_ne_nil p)
    | cons q qs =>
      rw [List.flatMap_cons, List.flatMap_cons] at h
      obtain ⟨hp₀, hps⟩ := List.forall_mem_cons.mp hp
      obtain ⟨hq₀, hqs⟩ := List.forall_mem_cons.mp hq
      obtain ⟨rfl, htail⟩ := utf8CodePoint_append_inj hp₀ hq₀ h
      rw [ih hps hqs htail]

/-- **The bytes are the scalar values, no more and no less.** -/
theorem utf8Encode_eq_iff {s t : JsString} :
    utf8Encode s = utf8Encode t ↔ scalarValues s = scalarValues t := by
  rw [utf8Encode_eq_flatMap, utf8Encode_eq_flatMap]
  exact ⟨flatMap_utf8CodePoint_inj (scalarValues_lt s) (scalarValues_lt t), congrArg _⟩

/-! ## Strings without lone surrogates -/

/-- `String.prototype.isWellFormed`. -/
def isWellFormed : JsString → Bool
  | [] => true
  | [c] => !isSurrogate c
  | c :: d :: rest =>
    if isLeadSurrogate c && isTrailSurrogate d then isWellFormed rest
    else !isSurrogate c && isWellFormed (d :: rest)

/-- The units of one scalar value. -/
def scalarUnits (p : ℕ) : JsString :=
  if p < 0x10000 then [Fin.ofNat 65536 p]
  else [Fin.ofNat 65536 (0xD800 + (p - 0x10000) / 1024),
    Fin.ofNat 65536 (0xDC00 + (p - 0x10000) % 1024)]

theorem scalarUnits_lone {c : CodeUnit} (h : (!isSurrogate c) = true) :
    scalarUnits (loneCodePoint c) = [c] := by
  have hc := c.isLt
  have hs : isSurrogate c = false := by simpa using h
  rw [loneCodePoint, hs, if_neg Bool.false_ne_true, scalarUnits, if_pos (by omega)]
  exact congrArg (· :: []) (Fin.ext (by rw [Fin.val_ofNat]; omega))

theorem scalarUnits_pair {c d : CodeUnit}
    (h : (isLeadSurrogate c && isTrailSurrogate d) = true) :
    scalarUnits (pairCodePoint c d) = [c, d] := by
  obtain ⟨hc, hd⟩ := pair_ranges h
  have hval : pairCodePoint c d = 0x10000 + (c.val - 0xD800) * 1024 + (d.val - 0xDC00) := rfl
  rw [scalarUnits, if_neg (by omega)]
  refine congrArg₂ (· :: · :: []) (Fin.ext ?_) (Fin.ext ?_) <;> rw [Fin.val_ofNat] <;> omega

/-- A string without lone surrogates is read back from its scalar values. -/
theorem flatMap_scalarUnits {s : JsString} (h : isWellFormed s = true) :
    (scalarValues s).flatMap scalarUnits = s := by
  induction s using scalarValues.induct with
  | case1 => rfl
  | case2 c =>
    rw [isWellFormed] at h
    rw [scalarValues, List.flatMap_singleton, scalarUnits_lone h]
  | case3 c d rest hpair ih =>
    rw [isWellFormed, if_pos hpair] at h
    rw [scalarValues, if_pos hpair, List.flatMap_cons, scalarUnits_pair hpair, ih h]
    rfl
  | case4 c d rest hpair ih =>
    rw [isWellFormed, if_neg hpair, Bool.and_eq_true] at h
    rw [scalarValues, if_neg hpair, List.flatMap_cons, scalarUnits_lone h.1, ih h.2]
    rfl

theorem eq_of_scalarValues {s t : JsString} (hs : isWellFormed s = true)
    (ht : isWellFormed t = true) (h : scalarValues s = scalarValues t) : s = t := by
  rw [← flatMap_scalarUnits hs, h, flatMap_scalarUnits ht]

/-- **The encoding loses nothing of a string without lone surrogates.** -/
theorem eq_of_utf8Encode_wellFormed {s t : JsString} (hs : isWellFormed s = true)
    (ht : isWellFormed t = true) (h : utf8Encode s = utf8Encode t) : s = t :=
  eq_of_scalarValues hs ht (utf8Encode_eq_iff.mp h)

/-! ## Decoding -/

/-- A sequence the decoder is inside of: the bytes still needed, the range of the next one and the
code point so far. -/
structure Utf8Pending where
  needed : ℕ
  lower : ℕ
  upper : ℕ
  codePoint : ℕ

/-- The decoder on a byte outside a sequence: what it emits, and the sequence it enters. -/
def utf8Start (b : Byte) : JsString × Option Utf8Pending :=
  if b.val < 0x80 then ([Fin.ofNat 65536 b.val], none)
  else if 0xC2 ≤ b.val ∧ b.val ≤ 0xDF then ([], some ⟨1, 0x80, 0xBF, b.val - 0xC0⟩)
  else if 0xE0 ≤ b.val ∧ b.val ≤ 0xEF then
    ([], some ⟨2, if b.val = 0xE0 then 0xA0 else 0x80, if b.val = 0xED then 0x9F else 0xBF,
      b.val - 0xE0⟩)
  else if 0xF0 ≤ b.val ∧ b.val ≤ 0xF4 then
    ([], some ⟨3, if b.val = 0xF0 then 0x90 else 0x80, if b.val = 0xF4 then 0x8F else 0xBF,
      b.val - 0xF0⟩)
  else ([0xFFFD], none)

/-- The decoder on any byte. A byte that cannot continue the sequence ends it with U+FFFD and is
read again. -/
def utf8Step (pending : Option Utf8Pending) (b : Byte) : JsString × Option Utf8Pending :=
  match pending with
  | none => utf8Start b
  | some p =>
    if p.lower ≤ b.val ∧ b.val ≤ p.upper then
      let codePoint := p.codePoint * 64 + (b.val - 0x80)
      if p.needed ≤ 1 then (scalarUnits codePoint, none)
      else ([], some ⟨p.needed - 1, 0x80, 0xBF, codePoint⟩)
    else (0xFFFD :: (utf8Start b).1, (utf8Start b).2)

/-- A scalar value, as opposed to a surrogate. -/
def IsScalar (p : ℕ) : Prop := p < 0xD800 ∨ (0xDFFF < p ∧ p < 0x110000)

end Js

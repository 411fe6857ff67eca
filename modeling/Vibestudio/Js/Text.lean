import Mathlib

/-!
# JavaScript strings

A JavaScript string is a list of UTF-16 code units, lone surrogates included. The order on strings
used by `<` and by `Array.prototype.sort` is the lexicographic order of the code units, which is the
order Lean already gives to lists over a linear order, so nothing has to be said about it here.

`utf8Encode` is `TextEncoder.prototype.encode`. It is lossy: every lone surrogate becomes the three
bytes of U+FFFD, so two different strings can have the same bytes. Arguments about UTF-8 order have
to go through `utf8Encode` and never through the string.
-/

namespace Js

abbrev CodeUnit := Fin 65536

abbrev JsString := List CodeUnit

abbrev Byte := Fin 256

instance neZeroCodeUnits : NeZero 65536 := ⟨by decide⟩

instance neZeroBytes : NeZero 256 := ⟨by decide⟩

instance lawfulCodeUnit : LawfulBEq CodeUnit := inferInstance

instance lawfulString : LawfulBEq JsString := inferInstance

/-- A string literal of the source. Every literal of the modelled code is ASCII, so one `Char` is
one code unit. -/
def lit (s : String) : JsString := s.toList.map fun c ↦ Fin.ofNat 65536 c.toNat

/-! ## Character classes -/

def isDigit (c : CodeUnit) : Bool := decide (48 ≤ c.val ∧ c.val ≤ 57)

/-- A lower-case hexadecimal digit, as in the character class `[0-9a-f]`. -/
def isLowerHex (c : CodeUnit) : Bool := isDigit c || decide (97 ≤ c.val ∧ c.val ≤ 102)

def isLeadSurrogate (c : CodeUnit) : Bool := decide (0xD800 ≤ c.val ∧ c.val ≤ 0xDBFF)

def isTrailSurrogate (c : CodeUnit) : Bool := decide (0xDC00 ≤ c.val ∧ c.val ≤ 0xDFFF)

def isSurrogate (c : CodeUnit) : Bool := isLeadSurrogate c || isTrailSurrogate c

/-- `WhiteSpace` and `LineTerminator` of ECMAScript, the units `String.prototype.trim` removes. -/
def isTrimmed (c : CodeUnit) : Bool :=
  decide (c.val ∈ [0x09, 0x0A, 0x0B, 0x0C, 0x0D, 0x20, 0xA0, 0x1680, 0x2028, 0x2029, 0x202F, 0x205F,
    0x3000, 0xFEFF] ∨ (0x2000 ≤ c.val ∧ c.val ≤ 0x200A))

/-- `String.prototype.trim`. -/
def trim (s : JsString) : JsString := ((s.dropWhile isTrimmed).reverse.dropWhile isTrimmed).reverse

/-- Exactly `n` lower-case hexadecimal digits: the expression `[0-9a-f]{n}`, anchored. -/
def isHexOfLength (n : ℕ) (s : JsString) : Bool := decide (s.length = n) && s.all isLowerHex

/-- `String.prototype.startsWith`, as the remainder after the prefix. -/
def stripPrefix? (p s : JsString) : Option JsString :=
  if p <+: s then some (s.drop p.length) else none

theorem stripPrefix?_append (p s : JsString) : stripPrefix? p (p ++ s) = some s := by
  rw [stripPrefix?, if_pos (List.prefix_append p s), List.drop_left]

theorem stripPrefix?_eq_some {p s t : JsString} : stripPrefix? p s = some t ↔ s = p ++ t := by
  constructor
  · intro h
    by_cases hp : p <+: s
    · rw [stripPrefix?, if_pos hp, Option.some_inj] at h
      obtain ⟨u, rfl⟩ := hp
      rw [← h, List.drop_left]
    · rw [stripPrefix?, if_neg hp] at h
      exact absurd h (by simp)
  · rintro rfl
    exact stripPrefix?_append p t

/-! ## UTF-8 -/

/-- The UTF-8 bytes of one code point. -/
def utf8CodePoint (p : ℕ) : List Byte :=
  if p < 0x80 then [Fin.ofNat 256 p]
  else if p < 0x800 then [Fin.ofNat 256 (0xC0 + p / 64), Fin.ofNat 256 (0x80 + p % 64)]
  else if p < 0x10000 then
    [Fin.ofNat 256 (0xE0 + p / 4096), Fin.ofNat 256 (0x80 + p / 64 % 64),
      Fin.ofNat 256 (0x80 + p % 64)]
  else
    [Fin.ofNat 256 (0xF0 + p / 262144), Fin.ofNat 256 (0x80 + p / 4096 % 64),
      Fin.ofNat 256 (0x80 + p / 64 % 64), Fin.ofNat 256 (0x80 + p % 64)]

/-- The code point of a surrogate pair. -/
def pairCodePoint (c d : CodeUnit) : ℕ := 0x10000 + (c.val - 0xD800) * 1024 + (d.val - 0xDC00)

/-- The code point a unit contributes outside a surrogate pair: a lone surrogate is replaced by
U+FFFD. -/
def loneCodePoint (c : CodeUnit) : ℕ := if isSurrogate c then 0xFFFD else c.val

/-- `new TextEncoder().encode(s)`. -/
def utf8Encode : JsString → List Byte
  | [] => []
  | [c] => utf8CodePoint (loneCodePoint c)
  | c :: d :: rest =>
    if isLeadSurrogate c && isTrailSurrogate d then
      utf8CodePoint (pairCodePoint c d) ++ utf8Encode rest
    else utf8CodePoint (loneCodePoint c) ++ utf8Encode (d :: rest)

/-- Two different strings with the same bytes: the two lone lead surrogates U+D800 and U+D801. -/
example : utf8Encode [0xD800] = utf8Encode [0xD801] := by decide

/-- On a string of plain ASCII the encoding is one byte a unit. -/
theorem utf8Encode_of_ascii {s : JsString} (h : ∀ c ∈ s, c.val < 0x80) :
    utf8Encode s = s.map fun c ↦ Fin.ofNat 256 c.val := by
  induction s with
  | nil => rfl
  | cons c s ih =>
    have hc : c.val < 0x80 := h c List.mem_cons_self
    have hlone : utf8CodePoint (loneCodePoint c) = [Fin.ofNat 256 c.val] := by
      have hs : isSurrogate c = false := by
        simp only [isSurrogate, isLeadSurrogate, isTrailSurrogate, Bool.or_eq_false_iff,
          decide_eq_false_iff_not]
        omega
      rw [loneCodePoint, hs, if_neg Bool.false_ne_true, utf8CodePoint, if_pos hc]
    have hlead : isLeadSurrogate c = false := by
      simp only [isLeadSurrogate, decide_eq_false_iff_not]
      omega
    have hs := ih fun d hd ↦ h d (List.mem_cons_of_mem c hd)
    cases s with
    | nil => rw [utf8Encode, hlone]; rfl
    | cons d s =>
      rw [utf8Encode, hlead, Bool.false_and, if_neg Bool.false_ne_true, hlone, hs]
      rfl

/-- A code point above ASCII has a byte above ASCII. -/
theorem lt_of_utf8CodePoint {p : ℕ} (hp : p < 0x110000)
    (h : ∀ b ∈ utf8CodePoint p, b.val < 0x80) : p < 0x80 := by
  by_contra hge
  rw [utf8CodePoint, if_neg hge] at h
  split_ifs at h
  all_goals
    have hb := h _ List.mem_cons_self
    rw [Fin.val_ofNat] at hb
    omega

theorem ascii_of_utf8Encode {s : JsString} (h : ∀ b ∈ utf8Encode s, b.val < 0x80) :
    ∀ c ∈ s, c.val < 0x80 := by
  have hlone : ∀ c : CodeUnit, (∀ b ∈ utf8CodePoint (loneCodePoint c), b.val < 0x80) →
      c.val < 0x80 := by
    intro c hc
    have hlt := c.isLt
    have hp : loneCodePoint c < 0x110000 := by
      rw [loneCodePoint]
      split_ifs <;> omega
    have := lt_of_utf8CodePoint hp hc
    rw [loneCodePoint] at this
    split_ifs at this
    · omega
    · exact this
  induction s using utf8Encode.induct with
  | case1 => exact fun c hc ↦ absurd hc List.not_mem_nil
  | case2 c =>
    rw [utf8Encode] at h
    simpa using hlone c h
  | case3 c d rest hpair _ =>
    exfalso
    rw [utf8Encode, if_pos hpair] at h
    rw [Bool.and_eq_true] at hpair
    have hc : 0xD800 ≤ c.val ∧ c.val ≤ 0xDBFF := of_decide_eq_true hpair.1
    have hd : 0xDC00 ≤ d.val ∧ d.val ≤ 0xDFFF := of_decide_eq_true hpair.2
    have hval : pairCodePoint c d
        = 0x10000 + (c.val - 0xD800) * 1024 + (d.val - 0xDC00) := rfl
    have hp : pairCodePoint c d < 0x110000 := by omega
    have hlt := lt_of_utf8CodePoint hp fun b hb ↦ h b (List.mem_append_left _ hb)
    omega
  | case4 c d rest hpair ih =>
    rw [utf8Encode, if_neg hpair] at h
    exact List.forall_mem_cons.mpr ⟨hlone c fun b hb ↦ h b (List.mem_append_left _ hb),
      ih fun b hb ↦ h b (List.mem_append_right _ hb)⟩

/-- **The encoding loses nothing of an ASCII string**, whatever it is compared with. -/
theorem eq_of_utf8Encode_ascii {s t : JsString} (hs : ∀ c ∈ s, c.val < 0x80)
    (h : utf8Encode s = utf8Encode t) : s = t := by
  have ht : ∀ c ∈ t, c.val < 0x80 := by
    refine ascii_of_utf8Encode fun b hb ↦ ?_
    rw [← h, utf8Encode_of_ascii hs] at hb
    obtain ⟨c, hc, rfl⟩ := List.mem_map.mp hb
    have := hs c hc
    rw [Fin.val_ofNat]
    omega
  rw [utf8Encode_of_ascii hs, utf8Encode_of_ascii ht] at h
  have hback : ∀ {r : JsString}, (∀ c ∈ r, c.val < 0x80) →
      (r.map fun c ↦ Fin.ofNat 256 c.val).map (fun b : Byte ↦ Fin.ofNat 65536 b.val) = r := by
    intro r hr
    rw [List.map_map]
    conv_rhs => rw [← List.map_id r]
    refine List.map_congr_left fun c hc ↦ Fin.ext ?_
    have := hr c hc
    simp only [Function.comp_apply, Fin.val_ofNat, id]
    omega
  rw [← hback hs, h, hback ht]

end Js

import Mathlib
import Vibestudio.Js.Json

/-!
# What `JSON.parse` can return

Every value `parse` returns is a JSON value: its objects are enumerations, and it contains neither
`undefined` nor NaN (`parse_isJson`). The same induction also carries a property of the strings: a
guard on texts that every suffix inherits, and that no string literal can break, holds of all keys
and strings of the result (`parse_parsed`). The instance used later is that a text without the six
characters `\u0000` has no NUL in any string (`parse_noNul`).
-/

namespace Js

/-- A leaf `JSON.parse` can return, with its strings in `K`. -/
def ParsedLeaf (K : JsString → Prop) : JsLeaf → Prop
  | .undefined => False
  | .num .nan => False
  | .str s => K s
  | _ => True

/-- A value `JSON.parse` can return, with its keys and strings in `K`. -/
inductive Parsed (K : JsString → Prop) : JsData → Prop where
  | leaf {l : JsLeaf} : ParsedLeaf K l → Parsed K (.leaf l)
  | arr {xs : List JsData} : (∀ x ∈ xs, Parsed K x) → Parsed K (.arr xs)
  | obj {kvs : List (JsString × JsData)} : Ordered kvs → (∀ p ∈ kvs, K p.1) →
      (∀ p ∈ kvs, Parsed K p.2) → Parsed K (.obj kvs)

/-- A guard on the text that makes every string literal in it denote a member of `K`. -/
structure StringGuard (G K : JsString → Prop) : Prop where
  suffix : ∀ {s r}, G s → r <:+ s → G r
  string : ∀ {s u r}, G s → parseString s = some (u, r) → K u

theorem Parsed.isJson {K : JsString → Prop} {v : JsData} (h : Parsed K v) : IsJson v := by
  induction h with
  | @leaf l hl =>
    refine .leaf ?_
    cases l with
    | undefined => exact absurd hl id
    | _ => rfl
  | arr _ ih => exact .arr ih
  | obj ho _ _ ih => exact .obj ho ih

/-! ## The parser leaves a suffix -/

theorem parseString_suffix {s u r : JsString} (h : parseString s = some (u, r)) : r <:+ s := by
  induction s using parseString.induct generalizing u r with
  | case1 => exact absurd h (by simp [parseString])
  | case2 =>
    simp only [parseString, if_true, Option.some_inj, Prod.mk.injEq] at h
    rw [← h.2]
    exact List.nil_suffix
  | case3 c hc => simp [parseString, hc] at h
  | case4 d t =>
    rw [parseString.eq_def] at h
    simp only [if_true, Option.some_inj, Prod.mk.injEq] at h
    rw [← h.2]
    exact List.suffix_cons _ _
  | case5 t x y z w =>
    rename_i ih
    rw [parseString.eq_def] at h
    simp only [show (92 : CodeUnit) ≠ 34 by decide, if_false, if_true, Option.bind_eq_some_iff,
      Option.map_eq_some_iff, Prod.mk.injEq] at h
    obtain ⟨e, -, p, hp, -, rfl⟩ := h
    exact (ih hp).trans ⟨[92, 117, t, x, y, z], rfl⟩
  | case6 t hne =>
    rw [parseString.eq_def] at h
    simp only [show (92 : CodeUnit) ≠ 34 by decide, if_false, if_true] at h
    exact absurd h (by simp)
  | case7 d t hd _ ih =>
    rw [parseString.eq_def] at h
    simp only [show (92 : CodeUnit) ≠ 34 by decide, if_false, if_true, hd,
      Option.bind_eq_some_iff, Option.map_eq_some_iff, Prod.mk.injEq] at h
    obtain ⟨e, -, p, hp, -, rfl⟩ := h
    exact (ih hp).trans ⟨[92, d], rfl⟩
  | case8 c d t h34 h92 h32 =>
    rw [parseString.eq_def] at h
    simp [h34, h92, h32] at h
  | case9 c d t h34 h92 h32 ih =>
    rw [parseString.eq_def] at h
    simp only [h34, h92, h32, if_false, Option.map_eq_some_iff, Prod.mk.injEq] at h
    obtain ⟨p, hp, -, rfl⟩ := h
    exact (ih hp).trans (List.suffix_cons _ _)

theorem parseFraction_suffix {s u r : JsString} (h : parseFraction s = some (u, r)) : r <:+ s := by
  cases s with
  | nil =>
    rw [parseFraction, Option.some_inj, Prod.mk.injEq] at h
    rw [← h.2]
  | cons c t =>
    rw [parseFraction] at h
    split_ifs at h
    · rw [Option.some_inj, Prod.mk.injEq] at h
      rw [← h.2]
      exact (List.dropWhile_suffix _).trans (List.suffix_cons _ _)
    · rw [Option.some_inj, Prod.mk.injEq] at h
      rw [← h.2]

theorem parseExponentDigits_suffix {neg : Bool} {s r : JsString} {e : ℤ}
    (h : parseExponentDigits neg s = some (e, r)) : r <:+ s := by
  rw [parseExponentDigits] at h
  split_ifs at h
  all_goals
    rw [Option.some_inj, Prod.mk.injEq] at h
    rw [← h.2]
    exact List.dropWhile_suffix _

theorem parseExponent_suffix {s r : JsString} {e : ℤ} (h : parseExponent s = some (e, r)) :
    r <:+ s := by
  cases s with
  | nil =>
    rw [parseExponent, Option.some_inj, Prod.mk.injEq] at h
    rw [← h.2]
  | cons c t =>
    rw [parseExponent] at h
    split_ifs at h
    · cases t with
      | nil => exact absurd h (by simp [parseSignedExponent])
      | cons d u =>
        rw [parseSignedExponent] at h
        split_ifs at h
        · exact (parseExponentDigits_suffix h).trans ⟨[c, d], rfl⟩
        · exact (parseExponentDigits_suffix h).trans ⟨[c, d], rfl⟩
        · exact (parseExponentDigits_suffix h).trans (List.suffix_cons _ _)
    · rw [Option.some_inj, Prod.mk.injEq] at h
      rw [← h.2]

theorem round_ne_nan (neg : Bool) (q : ℚ) : JsNumber.round neg q ≠ .nan := by
  rw [JsNumber.round]
  split <;> simp

theorem parseUnsigned_suffix {neg : Bool} {s r : JsString} {x : JsNumber}
    (h : parseUnsigned neg s = some (x, r)) : r <:+ s ∧ x ≠ .nan := by
  rw [parseUnsigned] at h
  split_ifs at h
  simp only [Option.bind_eq_some_iff, Option.some_inj, Prod.mk.injEq] at h
  obtain ⟨f, hf, e, he, rfl, rfl⟩ := h
  exact ⟨(parseExponent_suffix he).trans ((parseFraction_suffix hf).trans (List.dropWhile_suffix _)),
    round_ne_nan _ _⟩

theorem parseNumber_suffix {s r : JsString} {x : JsNumber} (h : parseNumber s = some (x, r)) :
    r <:+ s ∧ x ≠ .nan := by
  cases s with
  | nil => exact absurd h (by simp [parseNumber])
  | cons c t =>
    rw [parseNumber] at h
    split_ifs at h
    · exact ⟨(parseUnsigned_suffix h).1.trans (List.suffix_cons _ _), (parseUnsigned_suffix h).2⟩
    · exact parseUnsigned_suffix h

theorem stripPrefix?_suffix {p s r : JsString} (h : stripPrefix? p s = some r) : r <:+ s :=
  ⟨p, (stripPrefix?_eq_some.mp h).symm⟩

theorem parseScalar_suffix {s r : JsString} {l : JsLeaf} (h : parseScalar s = some (l, r)) :
    r <:+ s ∧ ∀ K, ParsedLeaf K l := by
  rw [parseScalar] at h
  split at h
  · rename_i t ht
    rw [Option.some_inj, Prod.mk.injEq] at h
    obtain ⟨rfl, rfl⟩ := h
    exact ⟨stripPrefix?_suffix ht, fun _ ↦ trivial⟩
  · split at h
    · rename_i t ht
      rw [Option.some_inj, Prod.mk.injEq] at h
      obtain ⟨rfl, rfl⟩ := h
      exact ⟨stripPrefix?_suffix ht, fun _ ↦ trivial⟩
    · split at h
      · rename_i t ht
        rw [Option.some_inj, Prod.mk.injEq] at h
        obtain ⟨rfl, rfl⟩ := h
        exact ⟨stripPrefix?_suffix ht, fun _ ↦ trivial⟩
      · rw [Option.map_eq_some_iff] at h
        obtain ⟨⟨x, t⟩, hp, heq⟩ := h
        obtain ⟨rfl, rfl⟩ := Prod.mk.inj heq
        refine ⟨(parseNumber_suffix hp).1, fun K ↦ ?_⟩
        cases x with
        | nan => exact absurd rfl (parseNumber_suffix hp).2
        | _ => trivial

theorem expect_suffix {c : CodeUnit} {s r : JsString} (h : expect c s = some r) : r <:+ s := by
  rw [expect] at h
  split at h
  · rename_i d t hd
    split_ifs at h
    rw [Option.some_inj] at h
    subst h
    have hsuff : d :: t <:+ s := hd ▸ List.dropWhile_suffix isJsonSpace
    exact (List.suffix_cons d t).trans hsuff
  · exact absurd h (by simp)

/-! ## The invariant of the parser -/

section

variable {G K : JsString → Prop}

/-- **What one call of the parser guarantees**, at a given amount of fuel: it leaves a suffix, and
what it read is a JSON value with its strings in `K`. -/
def ParserSound (G K : JsString → Prop) (fuel : ℕ) : Prop :=
  (∀ s v r, G s → parseValue fuel s = some (v, r) → r <:+ s ∧ Parsed K v) ∧
  (∀ s vs r, G s → parseElements fuel s = some (vs, r) → r <:+ s ∧ ∀ v ∈ vs, Parsed K v) ∧
  (∀ s kvs r, G s → parseMembers fuel s = some (kvs, r) →
    r <:+ s ∧ ∀ p ∈ kvs, K p.1 ∧ Parsed K p.2)

theorem parserSound_value (hG : StringGuard G K) {fuel : ℕ} (ih : ParserSound G K fuel)
    {s r : JsString} {v : JsData} (hs : G s) (h : parseValue (fuel + 1) s = some (v, r)) :
    r <:+ s ∧ Parsed K v := by
  rw [parseValue] at h
  split at h
  · rename_i t ht
    rw [Option.map_eq_some_iff] at h
    obtain ⟨p, hp, heq⟩ := h
    obtain ⟨rfl, rfl⟩ := Prod.mk.inj heq
    have htG : G t := hG.suffix hs (expect_suffix ht)
    exact ⟨(parseString_suffix hp).trans (expect_suffix ht), .leaf (hG.string htG hp)⟩
  · split at h
    · rename_i t ht
      have htG : G t := hG.suffix hs (expect_suffix ht)
      split at h
      · rename_i u hu
        rw [Option.some_inj, Prod.mk.injEq] at h
        obtain ⟨rfl, rfl⟩ := h
        exact ⟨(expect_suffix hu).trans (expect_suffix ht),
          .arr fun x hx ↦ absurd hx List.not_mem_nil⟩
      · rw [Option.map_eq_some_iff] at h
        obtain ⟨p, hp, heq⟩ := h
        obtain ⟨rfl, rfl⟩ := Prod.mk.inj heq
        obtain ⟨hsuff, hall⟩ := ih.2.1 t p.1 p.2 htG hp
        exact ⟨hsuff.trans (expect_suffix ht), .arr hall⟩
    · split at h
      · rename_i t ht
        have htG : G t := hG.suffix hs (expect_suffix ht)
        split at h
        · rename_i u hu
          rw [Option.some_inj, Prod.mk.injEq] at h
          obtain ⟨rfl, rfl⟩ := h
          exact ⟨(expect_suffix hu).trans (expect_suffix ht),
            .obj List.Pairwise.nil (fun p hp ↦ absurd hp List.not_mem_nil)
              fun p hp ↦ absurd hp List.not_mem_nil⟩
        · rw [Option.map_eq_some_iff] at h
          obtain ⟨p, hp, heq⟩ := h
          obtain ⟨rfl, rfl⟩ := Prod.mk.inj heq
          obtain ⟨hsuff, hall⟩ := ih.2.2 t p.1 p.2 htG hp
          exact ⟨hsuff.trans (expect_suffix ht), .obj (ordered_ofEntries _)
            (fun q hq ↦ (hall q (mem_of_mem_ofEntries hq)).1)
            fun q hq ↦ (hall q (mem_of_mem_ofEntries hq)).2⟩
      · rw [Option.map_eq_some_iff] at h
        obtain ⟨p, hp, heq⟩ := h
        obtain ⟨rfl, rfl⟩ := Prod.mk.inj heq
        obtain ⟨hsuff, hleaf⟩ := parseScalar_suffix hp
        exact ⟨hsuff.trans (List.dropWhile_suffix _), .leaf (hleaf K)⟩

theorem parserSound_member (hG : StringGuard G K) {fuel : ℕ} (ih : ParserSound G K fuel)
    {s r : JsString} {p : JsString × JsData} (hs : G s)
    (h : parseMember (parseValue fuel) s = some (p, r)) : r <:+ s ∧ K p.1 ∧ Parsed K p.2 := by
  simp only [parseMember, Option.bind_eq_some_iff, Option.map_eq_some_iff] at h
  obtain ⟨s₁, h₁, k, hk, s₂, h₂, q, hq, heq⟩ := h
  obtain ⟨rfl, rfl⟩ := Prod.mk.inj heq
  have hs₁ : s₁ <:+ s := expect_suffix h₁
  have hs₂ : s₂ <:+ s := (expect_suffix h₂).trans ((parseString_suffix hk).trans hs₁)
  obtain ⟨hsuff, hparsed⟩ := ih.1 s₂ q.1 q.2 (hG.suffix hs hs₂) hq
  exact ⟨hsuff.trans hs₂, hG.string (hG.suffix hs hs₁) hk, hparsed⟩

theorem parserSound (hG : StringGuard G K) : ∀ fuel, ParserSound G K fuel := by
  intro fuel
  induction fuel with
  | zero =>
    refine ⟨fun s v r _ h ↦ ?_, fun s vs r _ h ↦ ?_, fun s kvs r _ h ↦ ?_⟩
    · exact absurd h (by simp [parseValue])
    · exact absurd h (by simp [parseElements])
    · exact absurd h (by simp [parseMembers])
  | succ fuel ih =>
    refine ⟨fun s v r hs h ↦ parserSound_value hG ih hs h, fun s vs r hs h ↦ ?_,
      fun s kvs r hs h ↦ ?_⟩
    · rw [parseElements, Option.bind_eq_some_iff] at h
      obtain ⟨p, hp, h⟩ := h
      obtain ⟨hsuff, hparsed⟩ := ih.1 s p.1 p.2 hs hp
      split at h
      · rename_i t ht
        rw [Option.map_eq_some_iff] at h
        obtain ⟨q, hq, heq⟩ := h
        obtain ⟨rfl, rfl⟩ := Prod.mk.inj heq
        have htsuff : t <:+ s := (expect_suffix ht).trans hsuff
        obtain ⟨hsuff', hall⟩ := ih.2.1 t q.1 q.2 (hG.suffix hs htsuff) hq
        exact ⟨hsuff'.trans htsuff, List.forall_mem_cons.mpr ⟨hparsed, hall⟩⟩
      · rw [Option.map_eq_some_iff] at h
        obtain ⟨t, ht, heq⟩ := h
        obtain ⟨rfl, rfl⟩ := Prod.mk.inj heq
        exact ⟨(expect_suffix ht).trans hsuff, by simpa using hparsed⟩
    · rw [parseMembers, Option.bind_eq_some_iff] at h
      obtain ⟨p, hp, h⟩ := h
      obtain ⟨hsuff, hparsed⟩ := parserSound_member hG ih hs hp
      split at h
      · rename_i t ht
        rw [Option.map_eq_some_iff] at h
        obtain ⟨q, hq, heq⟩ := h
        obtain ⟨rfl, rfl⟩ := Prod.mk.inj heq
        have htsuff : t <:+ s := (expect_suffix ht).trans hsuff
        obtain ⟨hsuff', hall⟩ := ih.2.2 t q.1 q.2 (hG.suffix hs htsuff) hq
        exact ⟨hsuff'.trans htsuff, List.forall_mem_cons.mpr ⟨hparsed, hall⟩⟩
      · rw [Option.map_eq_some_iff] at h
        obtain ⟨t, ht, heq⟩ := h
        obtain ⟨rfl, rfl⟩ := Prod.mk.inj heq
        exact ⟨(expect_suffix ht).trans hsuff, by simpa using hparsed⟩

theorem parse_parsed (hG : StringGuard G K) {text : JsString} {v : JsData} (ht : G text)
    (h : parse text = some v) : Parsed K v := by
  rw [parse, Option.bind_eq_some_iff] at h
  obtain ⟨p, hp, h⟩ := h
  split_ifs at h
  rw [Option.some_inj] at h
  subst h
  exact ((parserSound hG _).1 text p.1 p.2 ht hp).2

end

/-- **`JSON.parse` returns JSON values.** -/
theorem parse_isJson {text : JsString} {v : JsData} (h : parse text = some v) : IsJson v :=
  (parse_parsed (G := fun _ ↦ True) (K := fun _ ↦ True) ⟨fun _ _ ↦ trivial, fun _ _ ↦ trivial⟩
    trivial h).isJson

/-! ## Texts without an escaped NUL -/

/-- The six characters of the only spelling of NUL in JSON. -/
def nulEscape : JsString := 92 :: lit "u0000"

theorem hexValue?_eq_zero {c : CodeUnit} (h : hexValue? c = some 0) : c = 48 := by
  rw [hexValue?] at h
  split_ifs at h with h1 h2 h3
  · have := of_decide_eq_true h1
    rw [Option.some_inj] at h
    exact Fin.ext (show c.val = 48 by omega)
  · rw [Option.some_inj] at h
    omega
  · rw [Option.some_inj] at h
    omega

theorem hexValue?_lt {c : CodeUnit} {n : ℕ} (h : hexValue? c = some n) : n < 16 := by
  rw [hexValue?] at h
  split_ifs at h with h1 h2 h3
  · have := of_decide_eq_true h1
    rw [Option.some_inj] at h
    omega
  · rw [Option.some_inj] at h
    omega
  · rw [Option.some_inj] at h
    omega

theorem hexUnit?_eq_zero {x y z w : CodeUnit} (h : hexUnit? x y z w = some 0) :
    x = 48 ∧ y = 48 ∧ z = 48 ∧ w = 48 := by
  simp only [hexUnit?, Option.bind_eq_some_iff, Option.map_eq_some_iff] at h
  obtain ⟨a, ha, b, hb, c, hc, d, hd, h⟩ := h
  have := hexValue?_lt ha
  have := hexValue?_lt hb
  have := hexValue?_lt hc
  have := hexValue?_lt hd
  have hval := congrArg Fin.val h
  simp only [Fin.val_ofNat] at hval
  change _ = 0 at hval
  obtain ⟨rfl, rfl, rfl, rfl⟩ : a = 0 ∧ b = 0 ∧ c = 0 ∧ d = 0 := by omega
  exact ⟨hexValue?_eq_zero ha, hexValue?_eq_zero hb, hexValue?_eq_zero hc, hexValue?_eq_zero hd⟩

theorem escaped?_ne_zero {c e : CodeUnit} (h : escaped? c = some e) : e ≠ 0 := by
  rw [escaped?] at h
  split_ifs at h
  all_goals
    rw [Option.some_inj] at h
    subst h
    decide

/-- A string literal denotes a NUL only through the escape. -/
theorem nul_mem_parseString {s u r : JsString} (h : parseString s = some (u, r)) (hu : 0 ∈ u) :
    nulEscape <:+: s := by
  induction s using parseString.induct generalizing u r with
  | case1 => exact absurd h (by simp [parseString])
  | case2 =>
    simp only [parseString, if_true, Option.some_inj, Prod.mk.injEq] at h
    rw [← h.1] at hu
    exact absurd hu List.not_mem_nil
  | case3 c hc => simp [parseString, hc] at h
  | case4 d t =>
    rw [parseString.eq_def] at h
    simp only [if_true, Option.some_inj, Prod.mk.injEq] at h
    rw [← h.1] at hu
    exact absurd hu List.not_mem_nil
  | case5 t x y z w =>
    rename_i ih
    rw [parseString.eq_def] at h
    simp only [show (92 : CodeUnit) ≠ 34 by decide, if_false, if_true, Option.bind_eq_some_iff,
      Option.map_eq_some_iff, Prod.mk.injEq] at h
    obtain ⟨e, he, p, hp, rfl, rfl⟩ := h
    rcases List.mem_cons.mp hu with rfl | hu
    · obtain ⟨rfl, rfl, rfl, rfl⟩ := hexUnit?_eq_zero he
      exact ⟨[], w, rfl⟩
    · exact (ih hp hu).trans (List.IsSuffix.isInfix ⟨[92, 117, t, x, y, z], rfl⟩)
  | case6 t hne =>
    rw [parseString.eq_def] at h
    simp only [show (92 : CodeUnit) ≠ 34 by decide, if_false, if_true] at h
    exact absurd h (by simp)
  | case7 d t hd _ ih =>
    rw [parseString.eq_def] at h
    simp only [show (92 : CodeUnit) ≠ 34 by decide, if_false, if_true, hd,
      Option.bind_eq_some_iff, Option.map_eq_some_iff, Prod.mk.injEq] at h
    obtain ⟨e, he, p, hp, rfl, rfl⟩ := h
    rcases List.mem_cons.mp hu with rfl | hu
    · exact absurd rfl (escaped?_ne_zero he)
    · exact (ih hp hu).trans (List.IsSuffix.isInfix ⟨[92, d], rfl⟩)
  | case8 c d t h34 h92 h32 =>
    rw [parseString.eq_def] at h
    simp [h34, h92, h32] at h
  | case9 c d t h34 h92 h32 ih =>
    rw [parseString.eq_def] at h
    simp only [h34, h92, h32, if_false, Option.map_eq_some_iff, Prod.mk.injEq] at h
    obtain ⟨p, hp, rfl, rfl⟩ := h
    rcases List.mem_cons.mp hu with rfl | hu
    · exact absurd (by decide) h32
    · exact (ih hp hu).trans (List.IsSuffix.isInfix (List.suffix_cons _ _))

/-- **A text without `\u0000` parses to a value without NUL.** -/
theorem parse_noNul {text : JsString} {v : JsData} (ht : ¬nulEscape <:+: text)
    (h : parse text = some v) : Parsed (fun s ↦ 0 ∉ s) v :=
  parse_parsed (G := fun s ↦ ¬nulEscape <:+: s)
    ⟨fun hs hr hn ↦ hs (hn.trans hr.isInfix), fun hs hp hu ↦ hs (nul_mem_parseString hp hu)⟩ ht h

end Js

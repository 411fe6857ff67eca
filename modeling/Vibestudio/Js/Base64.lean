import Mathlib
import Vibestudio.Js.Text

/-!
# `btoa` and `atob`

Base64 as the two functions of the platform implement it, on bytes. Encoding pads to groups of four
characters. Decoding is the forgiving algorithm of the Infra standard: white space is dropped, the
padding is optional, and the unused bits of a last short group are ignored, so many texts decode to
the same bytes; only one of them is what the encoder writes.
-/

namespace Js

def base64Char (n : ℕ) : CodeUnit :=
  Fin.ofNat 65536 (if n < 26 then 65 + n else if n < 52 then 71 + n else if n < 62 then n - 4
    else if n = 62 then 43 else 47)

def base64Value? (c : CodeUnit) : Option ℕ :=
  if 65 ≤ c.val ∧ c.val ≤ 90 then some (c.val - 65)
  else if 97 ≤ c.val ∧ c.val ≤ 122 then some (c.val - 71)
  else if isDigit c then some (c.val + 4)
  else if c = 43 then some 62
  else if c = 47 then some 63
  else none

/-- `btoa` of the string whose units are the bytes. -/
def base64Encode : List Byte → JsString
  | [] => []
  | [a] => [base64Char (a.val / 4), base64Char (a.val % 4 * 16), 61, 61]
  | [a, b] => [base64Char (a.val / 4), base64Char (a.val % 4 * 16 + b.val / 16),
      base64Char (b.val % 16 * 4), 61]
  | a :: b :: c :: rest => base64Char (a.val / 4) :: base64Char (a.val % 4 * 16 + b.val / 16) ::
      base64Char (b.val % 16 * 4 + c.val / 64) :: base64Char (c.val % 64) :: base64Encode rest

def isAsciiSpace (c : CodeUnit) : Bool := decide (c.val ∈ [0x09, 0x0A, 0x0C, 0x0D, 0x20])

/-- At most two `=` at the end of whole groups. -/
def dropPadding (s : JsString) : JsString :=
  if s.length % 4 = 0 then
    match s.reverse with
    | 61 :: 61 :: r => r.reverse
    | 61 :: r => r.reverse
    | _ => s
  else s

/-- The groups of four characters; the last may have two or three. -/
def decodeGroups : JsString → Option (List Byte)
  | [] => some []
  | [_] => none
  | [x, y] => (base64Value? x).bind fun a ↦ (base64Value? y).map fun b ↦
      [Fin.ofNat 256 (a * 4 + b / 16)]
  | [x, y, z] => (base64Value? x).bind fun a ↦ (base64Value? y).bind fun b ↦
      (base64Value? z).map fun c ↦
        [Fin.ofNat 256 (a * 4 + b / 16), Fin.ofNat 256 (b % 16 * 16 + c / 4)]
  | x :: y :: z :: w :: rest => (base64Value? x).bind fun a ↦ (base64Value? y).bind fun b ↦
      (base64Value? z).bind fun c ↦ (base64Value? w).bind fun d ↦
        (decodeGroups rest).map fun bs ↦
          Fin.ofNat 256 (a * 4 + b / 16) :: Fin.ofNat 256 (b % 16 * 16 + c / 4) ::
            Fin.ofNat 256 (c % 4 * 64 + d) :: bs

/-- `atob`, as the units of its result; none is an `InvalidCharacterError`. -/
def atob (s : JsString) : Option (List Byte) :=
  decodeGroups (dropPadding (s.filter fun c ↦ !isAsciiSpace c))

theorem base64Value?_char {n : ℕ} (h : n < 64) : base64Value? (base64Char n) = some n := by
  interval_cases n <;> rfl

/-- A character of the alphabet. -/
def IsBase64 (c : CodeUnit) : Prop := c ≠ 61 ∧ isAsciiSpace c = false

theorem isBase64_char {n : ℕ} (h : n < 64) : IsBase64 (base64Char n) := by
  interval_cases n <;> exact ⟨by decide, by decide⟩

/-- The encoding without its padding decodes to the bytes. -/
theorem base64Encode_eq (bs : List Byte) : ∃ body pad, base64Encode bs = body ++ pad ∧
    pad ∈ ([[], [61], [61, 61]] : List JsString) ∧ (body ++ pad).length % 4 = 0 ∧
    (∀ c ∈ body, IsBase64 c) ∧ decodeGroups body = some bs := by
  induction bs using base64Encode.induct with
  | case1 => exact ⟨[], [], rfl, by simp, rfl, by simp, rfl⟩
  | case2 a =>
    have ha := a.isLt
    refine ⟨[base64Char (a.val / 4), base64Char (a.val % 4 * 16)], [61, 61], rfl, by simp, by simp,
      ?_, ?_⟩
    · simp only [List.forall_mem_cons, List.not_mem_nil, false_imp_iff, implies_true, and_true]
      exact ⟨isBase64_char (by omega), isBase64_char (by omega)⟩
    · rw [decodeGroups, base64Value?_char (by omega), base64Value?_char (by omega)]
      simp only [Option.bind_some, Option.map_some, Option.some_inj, List.cons.injEq, and_true,
        Fin.ext_iff, Fin.val_ofNat]
      omega
  | case3 a b =>
    have ha := a.isLt
    have hb := b.isLt
    refine ⟨[base64Char (a.val / 4), base64Char (a.val % 4 * 16 + b.val / 16),
      base64Char (b.val % 16 * 4)], [61], rfl, by simp, by simp, ?_, ?_⟩
    · simp only [List.forall_mem_cons, List.not_mem_nil, false_imp_iff, implies_true, and_true]
      exact ⟨isBase64_char (by omega), isBase64_char (by omega), isBase64_char (by omega)⟩
    · rw [decodeGroups, base64Value?_char (by omega), base64Value?_char (by omega),
        base64Value?_char (by omega)]
      simp only [Option.bind_some, Option.map_some, Option.some_inj, List.cons.injEq, and_true,
        Fin.ext_iff, Fin.val_ofNat]
      omega
  | case4 a b c rest ih =>
    obtain ⟨body, pad, heq, hpad, hlen, hbody, hdec⟩ := ih
    have ha := a.isLt
    have hb := b.isLt
    have hc := c.isLt
    refine ⟨base64Char (a.val / 4) :: base64Char (a.val % 4 * 16 + b.val / 16) ::
      base64Char (b.val % 16 * 4 + c.val / 64) :: base64Char (c.val % 64) :: body, pad, ?_, hpad,
      ?_, ?_, ?_⟩
    · rw [base64Encode, heq]
      rfl
    · simp only [List.length_append, List.length_cons] at hlen ⊢
      omega
    · simp only [List.forall_mem_cons]
      exact ⟨isBase64_char (by omega), isBase64_char (by omega), isBase64_char (by omega),
        isBase64_char (by omega), hbody⟩
    · rw [decodeGroups, base64Value?_char (by omega), base64Value?_char (by omega),
        base64Value?_char (by omega), base64Value?_char (by omega), hdec]
      simp only [Option.bind_some, Option.map_some, Option.some_inj, List.cons.injEq, and_true,
        Fin.ext_iff, Fin.val_ofNat]
      omega

theorem dropPadding_append {body pad : JsString} (hpad : pad ∈ ([[], [61], [61, 61]] : List JsString))
    (hlen : (body ++ pad).length % 4 = 0) (hbody : ∀ c ∈ body, c ≠ 61) :
    dropPadding (body ++ pad) = body := by
  have hhead : ∀ r, body.reverse ≠ 61 :: r := by
    intro r h
    exact hbody 61 (List.mem_reverse.mp (h ▸ List.mem_cons_self)) rfl
  rw [dropPadding, if_pos hlen]
  simp only [List.mem_cons, List.not_mem_nil, or_false] at hpad
  rcases hpad with rfl | rfl | rfl
  · rw [List.append_nil]
    split
    · rename_i r h
      exact absurd h (hhead _)
    · rename_i r _ h
      exact absurd h (hhead _)
    · rfl
  · have hrev : (body ++ [61]).reverse = 61 :: body.reverse := by simp
    rw [hrev]
    split
    · rename_i r h
      exact absurd (List.cons.inj h).2 (hhead _)
    · rename_i r _ h
      rw [← (List.cons.inj h).2, List.reverse_reverse]
    · rename_i h
      exact absurd rfl (h _)
  · have hrev : (body ++ [61, 61]).reverse = 61 :: 61 :: body.reverse := by simp
    rw [hrev]
    exact List.reverse_reverse body

/-- **`atob` undoes `btoa`.** -/
theorem atob_base64Encode (bs : List Byte) : atob (base64Encode bs) = some bs := by
  obtain ⟨body, pad, heq, hpad, hlen, hbody, hdec⟩ := base64Encode_eq bs
  have hspace : ∀ c ∈ body ++ pad, (!isAsciiSpace c) = true := by
    intro c hc
    rcases List.mem_append.mp hc with hc | hc
    · rw [(hbody c hc).2]
      rfl
    · simp only [List.mem_cons, List.not_mem_nil, or_false] at hpad
      have h61 : c = 61 := by
        rcases hpad with rfl | rfl | rfl <;> simp at hc <;> exact hc
      rw [h61]
      rfl
  rw [atob, heq, List.filter_eq_self.mpr hspace,
    dropPadding_append hpad hlen fun c hc ↦ (hbody c hc).1, hdec]

end Js

import Mathlib
import Vibestudio.Js.Text

/-!
# JavaScript numbers

The `Number` type of ECMAScript and its two conversions to and from text. A finite double is
`± mant · 2 ^ exp` in normal form, so that equality of the record is `Object.is`; zero is the one
value with two signs.

`JsNumber.round` is the rounding `𝔽` of the specification, to nearest with ties to even, on the
magnitude of a rational. `finiteText` is `Number::toString` with radix ten: among the decimals
`s · 10 ^ (n - k)` that round to the number it takes the least number of digits `k`, and for that
`k` the closest one. `parseNumber` reads a JSON number literal.

The one fact the rest of the library needs is `parseNumber_finiteText`: reading back the text of a
finite number gives the number, with the sign of a zero dropped. It rests on the defining property
of `Number::toString`, that the decimal chosen rounds to the number, so the only rounding fact
proved here is that a double rounds to itself (`roundMagnitude_val`); that is what makes the search
for the decimal succeed.
-/

namespace Js

/-! ## Doubles -/

/-- The magnitude of a finite double in normal form: a 53-bit significand with its leading bit set,
or the least exponent. -/
structure Magnitude where
  mant : ℕ
  exp : ℤ
  mant_lt : mant < 2 ^ 53
  exp_ge : -1074 ≤ exp
  exp_le : exp ≤ 971
  normal : 2 ^ 52 ≤ mant ∨ exp = -1074
deriving DecidableEq

/-- The exact value of a magnitude. -/
def Magnitude.val (m : Magnitude) : ℚ := m.mant * 2 ^ m.exp

/-- A value of the ECMAScript `Number` type. -/
inductive JsNumber where
  | finite (neg : Bool) (mag : Magnitude)
  | infinity (neg : Bool)
  | nan
deriving DecidableEq

def Magnitude.zero : Magnitude :=
  ⟨0, -1074, by norm_num, le_refl _, by norm_num, Or.inr rfl⟩

namespace JsNumber

def isFinite : JsNumber → Bool
  | finite _ _ => true
  | _ => false

/-- `x === y` on numbers other than NaN: the sign of a zero is not seen. -/
def unsigned : JsNumber → JsNumber
  | finite neg mag => if mag.mant = 0 then finite false .zero else finite neg mag
  | x => x

/-- `Object.is(x, -0)`. -/
def isNegZero : JsNumber → Bool
  | finite true mag => decide (mag.mant = 0)
  | _ => false

theorem unsigned_of_not_negZero {x : JsNumber} (h : x.isNegZero = false) : x.unsigned = x := by
  cases x with
  | finite neg mag =>
    obtain ⟨m, e, _, _, _, hn⟩ := mag
    by_cases hm : m = 0
    · subst hm
      cases neg with
      | false =>
        have he : e = -1074 := by rcases hn with hn | hn; exacts [absurd hn (by norm_num), hn]
        subst he
        rfl
      | true => exact absurd h (by simp [isNegZero])
    · rw [unsigned, if_neg hm]
  | infinity _ => rfl
  | nan => rfl

@[simp] theorem isFinite_unsigned (x : JsNumber) : x.unsigned.isFinite = x.isFinite := by
  cases x with
  | finite neg mag => rw [unsigned]; split <;> rfl
  | infinity _ => rfl
  | nan => rfl

theorem isNegZero_unsigned (x : JsNumber) : x.unsigned.isNegZero = false := by
  cases x with
  | finite neg mag =>
    by_cases hm : mag.mant = 0
    · rw [unsigned, if_pos hm]; rfl
    · rw [unsigned, if_neg hm]; cases neg <;> simp [isNegZero, hm]
  | infinity _ => rfl
  | nan => rfl

theorem unsigned_unsigned (x : JsNumber) : x.unsigned.unsigned = x.unsigned :=
  unsigned_of_not_negZero (isNegZero_unsigned x)

end JsNumber

/-! ## Rounding -/

/-- The nearest integer of a nonnegative rational, ties to even. -/
def roundHalfEven (y : ℚ) : ℕ :=
  if y - ⌊y⌋₊ < 1 / 2 then ⌊y⌋₊
  else if 1 / 2 < y - ⌊y⌋₊ then ⌊y⌋₊ + 1
  else if ⌊y⌋₊ % 2 = 0 then ⌊y⌋₊ else ⌊y⌋₊ + 1

theorem roundHalfEven_natCast (n : ℕ) : roundHalfEven (n : ℚ) = n := by
  rw [roundHalfEven, Nat.floor_natCast, sub_self, if_pos (by norm_num)]

/-- The exponent of the double nearest to a positive rational: the significand gets 53 bits unless
the exponent would fall below the least one. -/
def roundExp (q : ℚ) : ℤ := max (-1074) (Int.log 2 q - 52)

/-- Put a significand and an exponent in normal form; the significand may have been rounded up to
`2 ^ 53`. There is no such magnitude only when the exponent is too large. -/
def normalize? (m : ℕ) (e : ℤ) : Option Magnitude :=
  if m = 2 ^ 53 then
    if h : -1074 ≤ e + 1 ∧ e + 1 ≤ 971 then
      some ⟨2 ^ 52, e + 1, by norm_num, h.1, h.2, Or.inl (le_refl _)⟩
    else none
  else
    if h : m < 2 ^ 53 ∧ -1074 ≤ e ∧ e ≤ 971 ∧ (2 ^ 52 ≤ m ∨ e = -1074) then
      some ⟨m, e, h.1, h.2.1, h.2.2.1, h.2.2.2⟩
    else none

/-- The magnitude nearest to a nonnegative rational, none when it overflows. -/
def roundMagnitude (q : ℚ) : Option Magnitude :=
  if q = 0 then some .zero else normalize? (roundHalfEven (q / 2 ^ roundExp q)) (roundExp q)

/-- The rounding `𝔽` of the specification on `± q`. -/
def JsNumber.round (neg : Bool) (q : ℚ) : JsNumber :=
  match roundMagnitude q with
  | some mag => .finite neg mag
  | none => .infinity neg

/-- A natural number as a `Number`. -/
def JsNumber.ofNat (n : ℕ) : JsNumber := .round false n

/-- The integer a `Number` is, when `Number.isSafeInteger` holds. -/
def JsNumber.safeInteger? : JsNumber → Option ℤ
  | .finite neg mag =>
    let scale := 2 ^ (-mag.exp).toNat
    let n := mag.mant * 2 ^ mag.exp.toNat / scale
    if scale ∣ mag.mant * 2 ^ mag.exp.toNat ∧ n < 2 ^ 53 then some (if neg then -n else n) else none
  | _ => none

theorem Magnitude.val_pos {m : Magnitude} (h : m.mant ≠ 0) : 0 < m.val := by
  have : (0 : ℚ) < m.mant := by exact_mod_cast Nat.pos_of_ne_zero h
  rw [Magnitude.val]; positivity

theorem Magnitude.eq_zero {m : Magnitude} (h : m.mant = 0) : m = .zero := by
  obtain ⟨mant, e, _, _, _, hn⟩ := m
  simp only at h
  subst h
  have he : e = -1074 := by rcases hn with hn | hn; exacts [absurd hn (by norm_num), hn]
  subst he
  rfl

/-- The exponent of a double is recovered from its value. -/
theorem roundExp_val {m : Magnitude} (h : m.mant ≠ 0) : roundExp m.val = m.exp := by
  have hpos : 0 < m.val := Magnitude.val_pos h
  have hmant : m.val = m.mant * 2 ^ m.exp := rfl
  have h2 : (0 : ℚ) < 2 ^ m.exp := by positivity
  have hlt : Int.log 2 m.val < m.exp + 53 := by
    rw [← Int.lt_zpow_iff_log_lt (by norm_num) hpos, hmant, Nat.cast_ofNat, add_comm,
      zpow_add₀ two_ne_zero]
    have : (m.mant : ℚ) < 2 ^ (53 : ℤ) := by exact_mod_cast m.mant_lt
    exact mul_lt_mul_of_pos_right this h2
  rw [roundExp]
  rcases m.normal with hn | hn
  · have hle : m.exp + 52 ≤ Int.log 2 m.val := by
      rw [← Int.zpow_le_iff_le_log (by norm_num) hpos, hmant, Nat.cast_ofNat, add_comm,
        zpow_add₀ two_ne_zero]
      have : (2 : ℚ) ^ (52 : ℤ) ≤ m.mant := by exact_mod_cast hn
      exact mul_le_mul_of_nonneg_right this h2.le
    have := m.exp_ge
    omega
  · omega

/-- **A double rounds to itself.** -/
theorem roundMagnitude_val (m : Magnitude) : roundMagnitude m.val = some m := by
  by_cases h : m.mant = 0
  · rw [roundMagnitude, if_pos (by rw [Magnitude.val, h, Nat.cast_zero, zero_mul]),
      Magnitude.eq_zero h]
  · have hne : m.val ≠ 0 := (Magnitude.val_pos h).ne'
    have hq : m.val / 2 ^ m.exp = (m.mant : ℚ) := by
      rw [Magnitude.val, mul_div_assoc, div_self (by positivity), mul_one]
    rw [roundMagnitude, if_neg hne, roundExp_val h, hq, roundHalfEven_natCast, normalize?,
      if_neg (by have := m.mant_lt; omega), dif_pos ⟨m.mant_lt, m.exp_ge, m.exp_le, m.normal⟩]

/-! ## The shortest decimal -/

/-- The decimal `s · 10 ^ (n - k)` of the specification of `Number::toString`. -/
structure Decimal where
  digits : ℕ
  point : ℤ
deriving DecidableEq

def Decimal.val (d : Decimal) (k : ℕ) : ℚ := d.digits * 10 ^ (d.point - k)

/-- What `Number::toString` asks of a decimal of `k` digits. -/
def Decimal.Denotes (m : Magnitude) (k : ℕ) (d : Decimal) : Prop :=
  10 ^ (k - 1) ≤ d.digits ∧ d.digits < 10 ^ k ∧ roundMagnitude (d.val k) = some m

instance (m : Magnitude) (k : ℕ) (d : Decimal) : Decidable (d.Denotes m k) :=
  inferInstanceAs (Decidable (_ ∧ _ ∧ _))

/-- The decimals of `k` digits next to a magnitude, one below it and one above it, in its own decade
and in the next one. Any decimal of `k` digits that rounds to the magnitude has one of these between
itself and the magnitude. -/
def decimalsNear (m : Magnitude) (k : ℕ) : List Decimal :=
  [Int.log 10 m.val + 1, Int.log 10 m.val + 2].flatMap fun n : ℤ ↦
    [⟨⌊m.val / 10 ^ (n - k)⌋₊, n⟩, ⟨⌈m.val / 10 ^ (n - k)⌉₊, n⟩]

/-- The closer of two decimals, the even one of two equally close. -/
def closer (m : Magnitude) (k : ℕ) (d d' : Decimal) : Decimal :=
  if |d'.val k - m.val| < |d.val k - m.val| then d'
  else if |d'.val k - m.val| = |d.val k - m.val| ∧ d.digits % 2 = 1 then d' else d

/-- The closest decimal of `k` digits that rounds to the magnitude, if there is one. -/
def decimalOfLength (m : Magnitude) (k : ℕ) : Option Decimal :=
  match (decimalsNear m k).filter fun d ↦ decide (d.Denotes m k) with
  | [] => none
  | d :: ds => some (ds.foldl (closer m k) d)

/-- The number of digits tried; the exact expansion of a double never needs as many. -/
def maxDigits : ℕ := 800

/-- The decimal `Number::toString` prints, with its number of digits. -/
def shortestDecimal (m : Magnitude) : Option (ℕ × Decimal) :=
  (List.range maxDigits).findSome? fun i ↦
    (decimalOfLength m (i + 1)).map fun d ↦ (i + 1, d)

theorem foldl_closer_mem (m : Magnitude) (k : ℕ) (ds : List Decimal) :
    ∀ d, ds.foldl (closer m k) d ∈ d :: ds := by
  induction ds with
  | nil => intro d; simp
  | cons e ds ih =>
    intro d
    rw [List.foldl_cons]
    have hmem := ih (closer m k d e)
    have hcl : closer m k d e = d ∨ closer m k d e = e := by
      rw [closer]
      split_ifs <;> simp
    rcases List.mem_cons.mp hmem with h | h
    · rw [h]
      rcases hcl with hcl | hcl <;> simp [hcl]
    · exact List.mem_cons_of_mem _ (List.mem_cons_of_mem _ h)

theorem denotes_of_decimalOfLength {m : Magnitude} {k : ℕ} {d : Decimal}
    (h : decimalOfLength m k = some d) : d.Denotes m k := by
  rw [decimalOfLength] at h
  split at h
  · exact absurd h (by simp)
  · rename_i e es heq
    rw [Option.some_inj] at h
    subst h
    have hmem := foldl_closer_mem m k es e
    rw [← heq, List.mem_filter] at hmem
    exact of_decide_eq_true hmem.2

theorem decimalOfLength_isSome {m : Magnitude} {k : ℕ} {d : Decimal} (hd : d ∈ decimalsNear m k)
    (h : d.Denotes m k) : (decimalOfLength m k).isSome := by
  have hmem : d ∈ (decimalsNear m k).filter fun d ↦ decide (d.Denotes m k) :=
    List.mem_filter.mpr ⟨hd, decide_eq_true h⟩
  rw [decimalOfLength]
  split
  · rename_i heq
    rw [heq] at hmem
    exact absurd hmem List.not_mem_nil
  · rfl

/-- The exact expansion of a double fits in `maxDigits` digits: the significand has sixteen, and the
power of two or five at most `7 / 10` of its exponent. -/
theorem mant_mul_pow_lt {m b a n : ℕ} (hm : m < 2 ^ 53) (hb : b ^ 10 ≤ 10 ^ 7) (hpos : 0 < b)
    (ha : a ≤ 10 * n) (hn : 16 + 7 * n ≤ maxDigits) : m * b ^ a < 10 ^ maxDigits := by
  have hpow : b ^ a ≤ 10 ^ (7 * n) :=
    calc b ^ a ≤ b ^ (10 * n) := Nat.pow_le_pow_right hpos ha
      _ ≤ 10 ^ (7 * n) := by
        rw [pow_mul, pow_mul]
        exact Nat.pow_le_pow_left hb n
  have hm' : m < 10 ^ 16 := lt_of_lt_of_le hm (by norm_num)
  calc m * b ^ a ≤ m * 10 ^ (7 * n) := Nat.mul_le_mul_left m hpow
    _ < 10 ^ 16 * 10 ^ (7 * n) := Nat.mul_lt_mul_of_pos_right hm' (Nat.pow_pos (by norm_num))
    _ = 10 ^ (16 + 7 * n) := (pow_add 10 16 (7 * n)).symm
    _ ≤ 10 ^ maxDigits := Nat.pow_le_pow_right (by norm_num) hn

/-- A double is an integer over a power of ten, of fewer than `maxDigits` digits. -/
theorem exists_exact_decimal {m : Magnitude} (h : m.mant ≠ 0) :
    ∃ (M : ℕ) (j : ℕ), M ≠ 0 ∧ m.val = M * 10 ^ (-(j : ℤ)) ∧ M < 10 ^ maxDigits := by
  have hge := m.exp_ge
  have hle := m.exp_le
  obtain ⟨a, ha | ha⟩ := Int.eq_nat_or_neg m.exp
  · refine ⟨m.mant * 2 ^ a, 0, Nat.mul_ne_zero h (by positivity), ?_, ?_⟩
    · rw [Magnitude.val, ha]
      simp
    · exact mant_mul_pow_lt (n := 108) m.mant_lt (by norm_num) (by norm_num) (by omega)
        (by rw [maxDigits]; omega)
  · refine ⟨m.mant * 5 ^ a, a, Nat.mul_ne_zero h (by positivity), ?_, ?_⟩
    · rw [Magnitude.val, ha, zpow_neg, zpow_neg, zpow_natCast, zpow_natCast,
        show (10 : ℚ) = 2 * 5 by norm_num, mul_pow]
      push_cast
      field_simp
    · exact mant_mul_pow_lt (n := 108) m.mant_lt (by norm_num) (by norm_num) (by omega)
        (by rw [maxDigits]; omega)

/-- The decade of an exact decimal, from its number of digits. -/
theorem log_exact {M j k : ℕ} (hlo : 10 ^ (k - 1) ≤ M) (hhi : M < 10 ^ k) (hk : 1 ≤ k) :
    Int.log 10 ((M : ℚ) * 10 ^ (-(j : ℤ))) = (k : ℤ) - 1 - j := by
  have hM : 0 < M := lt_of_lt_of_le (by positivity) hlo
  have hpos : (0 : ℚ) < (M : ℚ) * 10 ^ (-(j : ℤ)) := by
    have : (0 : ℚ) < M := by exact_mod_cast hM
    positivity
  have h10 : (0 : ℚ) < 10 ^ (-(j : ℤ)) := by positivity
  have hle : (k : ℤ) - 1 - j ≤ Int.log 10 ((M : ℚ) * 10 ^ (-(j : ℤ))) := by
    rw [← Int.zpow_le_iff_le_log (by norm_num) hpos, Nat.cast_ofNat,
      show (k : ℤ) - 1 - j = ((k - 1 : ℕ) : ℤ) + -(j : ℤ) by omega, zpow_add₀ (by norm_num),
      zpow_natCast]
    have : ((10 : ℚ) ^ (k - 1)) ≤ M := by exact_mod_cast hlo
    exact mul_le_mul_of_nonneg_right this h10.le
  have hlt : Int.log 10 ((M : ℚ) * 10 ^ (-(j : ℤ))) < (k : ℤ) - j := by
    rw [← Int.lt_zpow_iff_log_lt (by norm_num) hpos, Nat.cast_ofNat,
      show (k : ℤ) - j = (k : ℤ) + -(j : ℤ) by omega, zpow_add₀ (by norm_num), zpow_natCast]
    have : (M : ℚ) < 10 ^ k := by exact_mod_cast hhi
    exact mul_lt_mul_of_pos_right this h10
  omega

/-- **The search for the shortest decimal succeeds**, at the latest with the exact one. -/
theorem exists_shortestDecimal {m : Magnitude} (h : m.mant ≠ 0) :
    ∃ k d, shortestDecimal m = some (k, d) ∧ 1 ≤ k ∧ d.Denotes m k := by
  obtain ⟨M, j, hM, hval, hlt⟩ := exists_exact_decimal h
  set k := Nat.log 10 M + 1 with hk
  have hlo : 10 ^ (k - 1) ≤ M := Nat.pow_log_le_self 10 hM
  have hhi : M < 10 ^ k := Nat.lt_pow_succ_log_self (by norm_num) M
  have hklt : k - 1 < maxDigits :=
    (Nat.pow_lt_pow_iff_right (by norm_num : 1 < 10)).mp (lt_of_le_of_lt hlo hlt)
  have hlog : Int.log 10 m.val + 1 = (k : ℤ) - j := by
    rw [hval, log_exact hlo hhi (by omega)]
    omega
  have hfloor : m.val / 10 ^ ((k : ℤ) - j - k) = (M : ℚ) := by
    rw [hval, show (k : ℤ) - j - k = -(j : ℤ) by omega, mul_div_assoc,
      div_self (by positivity), mul_one]
  have hden : Decimal.Denotes m k ⟨M, (k : ℤ) - j⟩ := by
    refine ⟨hlo, hhi, ?_⟩
    rw [Decimal.val, show (k : ℤ) - j - k = -(j : ℤ) by omega, ← hval, roundMagnitude_val]
  have hnear : (⟨M, (k : ℤ) - j⟩ : Decimal) ∈ decimalsNear m k := by
    rw [decimalsNear, List.flatMap_cons, hlog, hfloor, Nat.floor_natCast]
    exact List.mem_append_left _ List.mem_cons_self
  have hsome : (shortestDecimal m).isSome := by
    rw [shortestDecimal, List.isSome_findSome?, List.any_eq_true]
    refine ⟨k - 1, List.mem_range.mpr hklt, ?_⟩
    rw [show k - 1 + 1 = k by omega, Option.isSome_map]
    exact decimalOfLength_isSome hnear hden
  obtain ⟨⟨k', d⟩, hkd⟩ := Option.isSome_iff_exists.mp hsome
  refine ⟨k', d, hkd, ?_⟩
  obtain ⟨i, -, hi⟩ := List.exists_of_findSome?_eq_some hkd
  rw [Option.map_eq_some_iff] at hi
  obtain ⟨d', hd', heq⟩ := hi
  obtain ⟨rfl, rfl⟩ := Prod.mk.inj heq
  exact ⟨Nat.succ_pos i, denotes_of_decimalOfLength hd'⟩

/-! ## Decimal digits -/

/-- The decimal digits of a positive integer, most significant first. -/
def decimalText (n : ℕ) : JsString :=
  (Nat.digits 10 n).reverse.map fun d ↦ Fin.ofNat 65536 (48 + d)

/-- The integer a string of digits denotes. -/
def digitsValue (s : JsString) : ℕ := s.foldl (fun v c ↦ v * 10 + (c.val - 48)) 0

theorem foldl_digits (s : JsString) : ∀ v,
    s.foldl (fun v c ↦ v * 10 + (c.val - 48)) v = v * 10 ^ s.length + digitsValue s := by
  induction s with
  | nil => intro v; simp [digitsValue]
  | cons c s ih =>
    intro v
    rw [digitsValue, List.foldl_cons, List.foldl_cons, ih, ih, List.length_cons, pow_succ]
    ring

theorem digitsValue_append (s t : JsString) :
    digitsValue (s ++ t) = digitsValue s * 10 ^ t.length + digitsValue t := by
  rw [digitsValue, List.foldl_append, foldl_digits]
  rfl

theorem digitsValue_replicate_zero (n : ℕ) : digitsValue (List.replicate n 48) = 0 := by
  induction n with
  | zero => rfl
  | succ n ih => rw [List.replicate_succ', digitsValue_append, ih]; rfl

theorem digitsValue_decimalText (n : ℕ) : digitsValue (decimalText n) = n := by
  have key : ∀ l : List ℕ, (∀ d ∈ l, d < 10) →
      digitsValue (l.reverse.map fun d ↦ Fin.ofNat 65536 (48 + d)) = Nat.ofDigits 10 l := by
    intro l
    induction l with
    | nil => intro _; rfl
    | cons d l ih =>
      intro h
      have hd : d < 10 := h d List.mem_cons_self
      have hunit : (Fin.ofNat 65536 (48 + d)).val - 48 = d := by
        rw [Fin.val_ofNat, Nat.mod_eq_of_lt (by omega)]
        omega
      rw [List.reverse_cons, List.map_append, digitsValue_append,
        ih fun e he ↦ h e (List.mem_cons_of_mem d he), Nat.ofDigits_cons, List.map_singleton]
      simp only [digitsValue, List.foldl_cons, List.foldl_nil, List.length_singleton, hunit]
      omega
  rw [decimalText, key _ fun d hd ↦ Nat.digits_lt_base (by norm_num) hd, Nat.ofDigits_digits]

theorem isDigit_of_mem_decimalText {n : ℕ} {c : CodeUnit} (h : c ∈ decimalText n) :
    isDigit c = true := by
  rw [decimalText, List.mem_map] at h
  obtain ⟨d, hd, rfl⟩ := h
  have hlt : d < 10 := Nat.digits_lt_base (by norm_num) (List.mem_reverse.mp hd)
  rw [isDigit, decide_eq_true_iff, Fin.val_ofNat, Nat.mod_eq_of_lt (by omega)]
  omega

theorem length_decimalText {n k : ℕ} (hlo : 10 ^ (k - 1) ≤ n) (hhi : n < 10 ^ k) (hk : 1 ≤ k) :
    (decimalText n).length = k := by
  have hn : n ≠ 0 := (lt_of_lt_of_le (by positivity) hlo).ne'
  rw [decimalText, List.length_map, List.length_reverse, Nat.length_digits 10 n (by norm_num) hn]
  have h1 : k - 1 ≤ Nat.log 10 n := Nat.le_log_of_pow_le (by norm_num) hlo
  have h2 : Nat.log 10 n < k := Nat.log_lt_of_lt_pow hn hhi
  omega

/-- No leading zero. -/
theorem head_decimalText {n : ℕ} (hn : n ≠ 0) :
    ∃ c t, decimalText n = c :: t ∧ c ≠ 48 := by
  have hne : Nat.digits 10 n ≠ [] := Nat.digits_ne_nil_iff_ne_zero.mpr hn
  have hlast : (Nat.digits 10 n).getLast hne ≠ 0 := Nat.getLast_digit_ne_zero 10 hn
  have hlt : (Nat.digits 10 n).getLast hne < 10 :=
    Nat.digits_lt_base (by norm_num) (List.getLast_mem hne)
  obtain ⟨l, d, hld⟩ : ∃ l d, Nat.digits 10 n = l ++ [d] :=
    ⟨_, _, (List.dropLast_append_getLast hne).symm⟩
  simp only [hld, List.getLast_append_singleton] at hlast hlt
  refine ⟨Fin.ofNat 65536 (48 + d), l.reverse.map fun d ↦ Fin.ofNat 65536 (48 + d), ?_, ?_⟩
  · rw [decimalText, hld, List.reverse_append, List.reverse_singleton, List.singleton_append,
      List.map_cons]
  · intro h
    have hval := congrArg Fin.val h
    rw [Fin.val_ofNat, Nat.mod_eq_of_lt (by omega)] at hval
    change 48 + d = 48 at hval
    omega

/-! ## `Number::toString` -/

/-- The exponent suffix `e±ddd`. -/
def exponentText (e : ℤ) : JsString :=
  lit "e" ++ (if e < 0 then lit "-" else lit "+") ++ decimalText e.natAbs

/-- The layout of the decimal `s · 10 ^ (n - k)`. -/
def layout (k : ℕ) (d : Decimal) : JsString :=
  let s := decimalText d.digits
  let n := d.point
  if k ≤ n ∧ n ≤ 21 then s ++ List.replicate (n - k).toNat 48
  else if 0 < n ∧ n ≤ 21 then s.take n.toNat ++ lit "." ++ s.drop n.toNat
  else if -6 < n ∧ n ≤ 0 then lit "0." ++ List.replicate (-n).toNat 48 ++ s
  else if k = 1 then s ++ exponentText (n - 1)
  else s.take 1 ++ lit "." ++ s.drop 1 ++ exponentText (n - 1)

/-- `Number::toString(x)` with radix ten, on a finite number. By `exists_shortestDecimal` the search
never comes back empty on a nonzero number. -/
def finiteText (neg : Bool) (mag : Magnitude) : JsString :=
  if mag.mant = 0 then lit "0"
  else
    match shortestDecimal mag with
    | some (k, d) => (if neg then lit "-" else []) ++ layout k d
    | none => []

/-! ## Number literals of JSON -/

/-- The optional fraction of a number literal: its digits and what follows. -/
def parseFraction : JsString → Option (JsString × JsString)
  | c :: t =>
    if c = 46 then
      if t.takeWhile isDigit = [] then none else some (t.takeWhile isDigit, t.dropWhile isDigit)
    else some ([], c :: t)
  | [] => some ([], [])

/-- The digits of an exponent, after its sign. -/
def parseExponentDigits (neg : Bool) (s : JsString) : Option (ℤ × JsString) :=
  if s.takeWhile isDigit = [] then none
  else
    some (if neg then -(digitsValue (s.takeWhile isDigit) : ℤ)
      else digitsValue (s.takeWhile isDigit), s.dropWhile isDigit)

/-- An exponent after its `e`, with an optional sign. -/
def parseSignedExponent : JsString → Option (ℤ × JsString)
  | c :: t =>
    if c = 45 then parseExponentDigits true t
    else if c = 43 then parseExponentDigits false t
    else parseExponentDigits false (c :: t)
  | [] => none

/-- The optional exponent of a number literal and what follows. -/
def parseExponent : JsString → Option (ℤ × JsString)
  | c :: t => if c = 101 ∨ c = 69 then parseSignedExponent t else some (0, c :: t)
  | [] => some (0, [])

/-- The unsigned part of a number literal, rounded with the sign already read. A leading zero may
only stand alone. -/
def parseUnsigned (neg : Bool) (s : JsString) : Option (JsNumber × JsString) :=
  let ip := s.takeWhile isDigit
  if ip = [] ∨ (ip.head? = some 48 ∧ ip ≠ [48]) then none
  else
    (parseFraction (s.dropWhile isDigit)).bind fun f ↦
      (parseExponent f.2).bind fun e ↦
        some (JsNumber.round neg (digitsValue (ip ++ f.1) * 10 ^ (e.1 - f.1.length)), e.2)

/-- A number literal of JSON at the front of a text, and what follows it. -/
def parseNumber : JsString → Option (JsNumber × JsString)
  | c :: t => if c = 45 then parseUnsigned true t else parseUnsigned false (c :: t)
  | [] => none

/-! ## Reading a number back -/

/-- The text goes on with nothing a number literal could absorb. -/
def NumberEnd (rest : JsString) : Prop :=
  ∀ c ∈ rest.head?, isDigit c = false ∧ c ≠ 46 ∧ c ≠ 101 ∧ c ≠ 69

theorem takeWhile_digits {s r : JsString} (hs : ∀ c ∈ s, isDigit c = true)
    (hr : ∀ c ∈ r.head?, isDigit c = false) :
    (s ++ r).takeWhile isDigit = s ∧ (s ++ r).dropWhile isDigit = r := by
  have hnil : r.takeWhile isDigit = [] ∧ r.dropWhile isDigit = r := by
    cases r with
    | nil => exact ⟨rfl, rfl⟩
    | cons c t =>
      have hc : isDigit c = false := hr c rfl
      exact ⟨List.takeWhile_cons_of_neg (by simp [hc]), List.dropWhile_cons_of_neg (by simp [hc])⟩
  rw [List.takeWhile_append_of_pos hs, List.dropWhile_append_of_pos hs, hnil.1, hnil.2]
  exact ⟨List.append_nil s, rfl⟩

theorem parseFraction_none {r : JsString} (hr : ∀ c ∈ r.head?, c ≠ 46) :
    parseFraction r = some ([], r) := by
  cases r with
  | nil => rfl
  | cons c t => rw [parseFraction, if_neg (hr c rfl)]

theorem parseFraction_some {fp r : JsString} (hfp : ∀ c ∈ fp, isDigit c = true) (hne : fp ≠ [])
    (hr : ∀ c ∈ r.head?, isDigit c = false) :
    parseFraction (lit "." ++ (fp ++ r)) = some (fp, r) := by
  obtain ⟨htake, hdrop⟩ := takeWhile_digits hfp hr
  change parseFraction (46 :: (fp ++ r)) = some (fp, r)
  rw [parseFraction, if_pos rfl, htake, hdrop, if_neg hne]

theorem parseExponent_none {r : JsString} (hr : ∀ c ∈ r.head?, c ≠ 101 ∧ c ≠ 69) :
    parseExponent r = some (0, r) := by
  cases r with
  | nil => rfl
  | cons c t => rw [parseExponent, if_neg (by have := hr c rfl; tauto)]

theorem parseExponent_exponentText {e : ℤ} (he : e ≠ 0) {r : JsString}
    (hr : ∀ c ∈ r.head?, isDigit c = false) :
    parseExponent (exponentText e ++ r) = some (e, r) := by
  have hne : decimalText e.natAbs ≠ [] := by
    obtain ⟨c, t, h, -⟩ := head_decimalText (Int.natAbs_ne_zero.mpr he)
    rw [h]
    exact List.cons_ne_nil c t
  obtain ⟨htake, hdrop⟩ := takeWhile_digits
    (fun c hc ↦ isDigit_of_mem_decimalText (n := e.natAbs) hc) hr
  rw [exponentText]
  by_cases hlt : e < 0
  · rw [if_pos hlt]
    change parseExponent (101 :: 45 :: (decimalText e.natAbs ++ r)) = some (e, r)
    rw [parseExponent, if_pos (Or.inl rfl), parseSignedExponent, if_pos rfl, parseExponentDigits,
      htake, hdrop, if_neg hne, digitsValue_decimalText, if_pos rfl,
      show -(e.natAbs : ℤ) = e by omega]
  · rw [if_neg hlt]
    change parseExponent (101 :: 43 :: (decimalText e.natAbs ++ r)) = some (e, r)
    rw [parseExponent, if_pos (Or.inl rfl), parseSignedExponent, if_neg (by decide), if_pos rfl,
      parseExponentDigits, htake, hdrop, if_neg hne, digitsValue_decimalText,
      if_neg Bool.false_ne_true, show (e.natAbs : ℤ) = e by omega]

theorem mem_zero : ∀ c ∈ lit "0", isDigit c = true := by
  intro c hc
  rw [List.mem_singleton.mp hc]
  rfl

/-- The three parts of an unsigned literal, put together. -/
theorem parseUnsigned_parts {neg : Bool} {i p s t r : JsString} {e : ℤ}
    (hip : ∀ c ∈ i, isDigit c = true) (hlead : ∃ c u, i = c :: u ∧ (c ≠ 48 ∨ u = []))
    (hs : ∀ c ∈ s.head?, isDigit c = false) (hf : parseFraction s = some (p, t))
    (he : parseExponent t = some (e, r)) :
    parseUnsigned neg (i ++ s)
      = some (JsNumber.round neg (digitsValue (i ++ p) * 10 ^ (e - p.length)), r) := by
  obtain ⟨htake, hdrop⟩ := takeWhile_digits hip hs
  obtain ⟨c, u, rfl, hcu⟩ := hlead
  have hguard : ¬((c :: u) = [] ∨ ((c :: u).head? = some 48 ∧ (c :: u) ≠ [48])) := by
    rintro (h | ⟨h, h'⟩)
    · exact List.cons_ne_nil c u h
    · rw [List.head?_cons, Option.some_inj] at h
      rcases hcu with hc | rfl
      · exact hc h
      · exact h' (by rw [h])
  rw [parseUnsigned, htake, hdrop, if_neg hguard, hf, Option.bind_some, he, Option.bind_some]

theorem zpow_split (s : ℕ) {n k : ℤ} {a b : ℕ} (h : n - k = a - b) :
    (s : ℚ) * 10 ^ (n - k) = ((s * 10 ^ a : ℕ) : ℚ) * 10 ^ (0 - (b : ℤ)) := by
  rw [h, show (a : ℤ) - b = a + (0 - b) by omega, zpow_add₀ (by norm_num), zpow_natCast]
  push_cast
  ring

/-- **Each layout of `Number::toString` is a literal of the decimal it lays out.** -/
theorem parseUnsigned_layout {neg : Bool} {k : ℕ} {d : Decimal} {rest : JsString}
    (hlo : 10 ^ (k - 1) ≤ d.digits) (hhi : d.digits < 10 ^ k) (hk : 1 ≤ k)
    (hrest : NumberEnd rest) :
    parseUnsigned neg (layout k d ++ rest) = some (JsNumber.round neg (d.val k), rest) := by
  obtain ⟨s, n⟩ := d
  simp only at hlo hhi
  have hs0 : s ≠ 0 := (lt_of_lt_of_le (by positivity) hlo).ne'
  have hdig : ∀ c ∈ decimalText s, isDigit c = true := fun c ↦ isDigit_of_mem_decimalText
  have hlen : (decimalText s).length = k := length_decimalText hlo hhi hk
  have hval : digitsValue (decimalText s) = s := digitsValue_decimalText s
  have hdval : Decimal.val ⟨s, n⟩ k = s * 10 ^ (n - k) := rfl
  obtain ⟨c₀, t₀, hcons, hc₀⟩ := head_decimalText hs0
  have hrd : ∀ c ∈ rest.head?, isDigit c = false := fun c hc ↦ (hrest c hc).1
  have hrf : parseFraction rest = some ([], rest) := parseFraction_none fun c hc ↦ (hrest c hc).2.1
  have hre : parseExponent rest = some (0, rest) := parseExponent_none fun c hc ↦ (hrest c hc).2.2
  have hzeros : ∀ m, ∀ c ∈ List.replicate m (48 : CodeUnit), isDigit c = true := by
    intro m c hc
    rw [List.eq_of_mem_replicate hc]
    rfl
  have hdot : ∀ r : JsString, ∀ c ∈ (lit "." ++ r).head?, isDigit c = false := by
    rintro r c hc
    obtain rfl : (46 : CodeUnit) = c := Option.some_inj.mp hc
    rfl
  have hexp : ∀ e : ℤ, ∀ c ∈ (exponentText e ++ rest).head?, isDigit c = false ∧ c ≠ 46 := by
    rintro e c hc
    obtain rfl : (101 : CodeUnit) = c := Option.some_inj.mp hc
    exact ⟨rfl, by decide⟩
  have htake : ∀ m, ∀ c ∈ (decimalText s).take m, isDigit c = true :=
    fun m c hc ↦ hdig c (List.mem_of_mem_take hc)
  have hdrop : ∀ m, ∀ c ∈ (decimalText s).drop m, isDigit c = true :=
    fun m c hc ↦ hdig c (List.mem_of_mem_drop hc)
  have hleadTake : ∀ m, 0 < m → ∃ c u, (decimalText s).take m = c :: u ∧ (c ≠ 48 ∨ u = []) := by
    intro m hm
    obtain ⟨m, rfl⟩ := Nat.exists_eq_succ_of_ne_zero hm.ne'
    exact ⟨c₀, t₀.take m, by rw [hcons, List.take_succ_cons], Or.inl hc₀⟩
  rw [layout]
  simp only
  by_cases h1 : (k : ℤ) ≤ n ∧ n ≤ 21
  · -- an integer, padded with zeros
    rw [if_pos h1, parseUnsigned_parts (p := []) (e := 0) (t := rest) ?_ ?_ hrd hrf hre]
    · rw [List.append_nil, digitsValue_append, hval, digitsValue_replicate_zero,
        List.length_replicate, add_zero, hdval,
        zpow_split s (n := n) (k := k) (a := (n - k).toNat) (b := 0) (by omega)]
      rfl
    · intro c hc
      rcases List.mem_append.mp hc with hc | hc
      exacts [hdig c hc, hzeros _ c hc]
    · exact ⟨c₀, t₀ ++ _, by rw [hcons, List.cons_append], Or.inl hc₀⟩
  rw [if_neg h1]
  by_cases h2 : 0 < n ∧ n ≤ 21
  · -- the point falls inside the digits
    have hlt : n.toNat < k := by omega
    have hne : (decimalText s).drop n.toNat ≠ [] := by
      rw [← List.length_pos_iff, List.length_drop, hlen]
      omega
    rw [if_pos h2, List.append_assoc, List.append_assoc,
      parseUnsigned_parts (p := (decimalText s).drop n.toNat) (e := 0) (t := rest) (htake _)
        (hleadTake _ (by omega)) (hdot _) (parseFraction_some (hdrop _) hne hrd) hre,
      List.take_append_drop, hval, List.length_drop, hlen, hdval,
      zpow_split s (n := n) (k := k) (a := 0) (b := k - n.toNat) (by omega), pow_zero, mul_one]
  rw [if_neg h2]
  by_cases h3 : -6 < n ∧ n ≤ 0
  · -- zeros between the point and the digits
    have hne : List.replicate (-n).toNat 48 ++ decimalText s ≠ [] := by rw [hcons]; simp
    have hfp : ∀ c ∈ List.replicate (-n).toNat 48 ++ decimalText s, isDigit c = true := by
      intro c hc
      rcases List.mem_append.mp hc with hc | hc
      exacts [hzeros _ c hc, hdig c hc]
    have hsplit : lit "0." ++ List.replicate (-n).toNat 48 ++ decimalText s ++ rest
        = lit "0" ++ (lit "." ++ (List.replicate (-n).toNat 48 ++ decimalText s ++ rest)) := by
      simp only [List.append_assoc]
      rfl
    rw [if_pos h3, hsplit, parseUnsigned_parts (p := List.replicate (-n).toNat 48 ++ decimalText s)
        (e := 0) (t := rest) mem_zero ⟨48, [], rfl, Or.inr rfl⟩ (hdot _)
        (parseFraction_some hfp hne hrd) hre,
      digitsValue_append, digitsValue_append, digitsValue_replicate_zero, hval,
      show digitsValue (lit "0") = 0 from rfl, zero_mul, zero_mul, zero_add, zero_add,
      List.length_append, List.length_replicate, hlen, hdval,
      zpow_split s (n := n) (k := k) (a := 0) (b := (-n).toNat + k) (by omega), pow_zero, mul_one]
  rw [if_neg h3]
  have hn1 : n - 1 ≠ 0 := by omega
  by_cases h4 : k = 1
  · -- one digit and an exponent
    subst h4
    rw [if_pos rfl, List.append_assoc,
      parseUnsigned_parts (p := []) (e := n - 1) (t := exponentText (n - 1) ++ rest) hdig
        ⟨c₀, t₀, hcons, Or.inl hc₀⟩ (fun c hc ↦ (hexp _ c hc).1)
        (parseFraction_none fun c hc ↦ (hexp _ c hc).2) (parseExponent_exponentText hn1 hrd),
      List.append_nil, hval, hdval, List.length_nil, Nat.cast_zero, sub_zero, Nat.cast_one]
  · -- a digit, a fraction and an exponent
    have hne : (decimalText s).drop 1 ≠ [] := by
      rw [← List.length_pos_iff, List.length_drop, hlen]
      omega
    rw [if_neg h4, List.append_assoc, List.append_assoc, List.append_assoc,
      parseUnsigned_parts (p := (decimalText s).drop 1) (e := n - 1)
        (t := exponentText (n - 1) ++ rest) (htake _) (hleadTake 1 one_pos) (hdot _)
        (parseFraction_some (hdrop _) hne fun c hc ↦ (hexp _ c hc).1)
        (parseExponent_exponentText hn1 hrd),
      List.take_append_drop, hval, List.length_drop, hlen, hdval,
      show n - 1 - ((k - 1 : ℕ) : ℤ) = n - k by omega]

/-- The text of an unsigned nonzero number does not begin with a minus sign. -/
theorem layout_ne_minus {k : ℕ} {d : Decimal} (h0 : d.digits ≠ 0) :
    ∃ c t, layout k d = c :: t ∧ isDigit c = true := by
  obtain ⟨s, n⟩ := d
  obtain ⟨c, t, hcons, -⟩ := head_decimalText h0
  have hc : isDigit c = true := isDigit_of_mem_decimalText (n := s) (by
    rw [show decimalText s = c :: t from hcons]
    exact List.mem_cons_self)
  rw [layout]
  simp only at hcons ⊢
  split_ifs with h1 h2 h3 h4
  · exact ⟨c, _, by rw [hcons, List.cons_append], hc⟩
  · obtain ⟨m, hm⟩ : ∃ m, n.toNat = m + 1 := ⟨n.toNat - 1, by omega⟩
    exact ⟨c, _, by rw [hcons, hm, List.take_succ_cons, List.cons_append, List.cons_append], hc⟩
  · exact ⟨48, _, rfl, rfl⟩
  · exact ⟨c, _, by rw [hcons, List.cons_append], hc⟩
  · exact ⟨c, _, by rw [hcons, List.take_succ_cons, List.cons_append, List.cons_append,
      List.cons_append], hc⟩

/-- A number's text begins with a minus sign or a digit. -/
theorem head_finiteText (neg : Bool) (mag : Magnitude) :
    ∃ c t, finiteText neg mag = c :: t ∧ (c = 45 ∨ isDigit c = true) := by
  rw [finiteText]
  by_cases h0 : mag.mant = 0
  · rw [if_pos h0]
    exact ⟨48, [], rfl, Or.inr rfl⟩
  · obtain ⟨k, d, hkd, -, hlo, -⟩ := exists_shortestDecimal h0
    have hd0 : d.digits ≠ 0 := (lt_of_lt_of_le (by positivity) hlo).ne'
    rw [if_neg h0, hkd]
    cases neg with
    | true => exact ⟨45, layout k d, rfl, Or.inl rfl⟩
    | false =>
      obtain ⟨c, t, hct, hc⟩ := layout_ne_minus (k := k) hd0
      exact ⟨c, t, hct, Or.inr hc⟩

/-- **Reading back the text of a finite number** gives the number, the sign of a zero dropped. -/
theorem parseNumber_finiteText (neg : Bool) (mag : Magnitude) {rest : JsString}
    (hrest : NumberEnd rest) :
    parseNumber (finiteText neg mag ++ rest) = some ((JsNumber.finite neg mag).unsigned, rest) := by
  rw [finiteText, JsNumber.unsigned]
  by_cases h0 : mag.mant = 0
  · have hzero : JsNumber.round false (digitsValue (lit "0" ++ []) * 10 ^ ((0 : ℤ) - ((0 : ℕ) : ℤ)))
        = .finite false .zero := by
      rw [JsNumber.round, roundMagnitude, if_pos (by
        rw [show digitsValue (lit "0" ++ []) = 0 from rfl, Nat.cast_zero, zero_mul])]
    rw [if_pos h0, if_pos h0]
    change parseUnsigned false (lit "0" ++ rest) = _
    rw [parseUnsigned_parts (i := lit "0") (p := []) (e := 0) (t := rest) mem_zero
      ⟨48, [], rfl, Or.inr rfl⟩ (fun c hc ↦ (hrest c hc).1)
      (parseFraction_none fun c hc ↦ (hrest c hc).2.1)
      (parseExponent_none fun c hc ↦ (hrest c hc).2.2), List.length_nil, hzero]
  · obtain ⟨k, d, hkd, hk, hlo, hhi, hround⟩ := exists_shortestDecimal h0
    have hd0 : d.digits ≠ 0 := (lt_of_lt_of_le (by positivity) hlo).ne'
    have hnum : JsNumber.round neg (d.val k) = .finite neg mag := by
      rw [JsNumber.round, hround]
    rw [if_neg h0, if_neg h0, hkd]
    have hbody : parseUnsigned neg (layout k d ++ rest) = some (JsNumber.round neg (d.val k), rest) :=
      parseUnsigned_layout hlo hhi hk hrest
    rw [hnum] at hbody
    cases neg with
    | true => exact hbody
    | false =>
      obtain ⟨c, t, hct, hc⟩ := layout_ne_minus (k := k) hd0
      have hne : c ≠ 45 := by rintro rfl; exact absurd hc (by decide)
      simp only [Bool.false_eq_true, if_false, List.nil_append]
      rw [hct, List.cons_append, parseNumber, if_neg hne, ← List.cons_append, ← hct]
      exact hbody

end Js

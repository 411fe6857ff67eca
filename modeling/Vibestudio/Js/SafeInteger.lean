import Mathlib
import Vibestudio.Js.Json

/-!
# Integers as numbers

`Number.isSafeInteger` of an integer that is a `Number`, and of one that went through JSON text: an integer is safe if
it is less than `2 ^ 53`, and safe integers are the ones that come back.
-/

namespace Js

/-- An integer as a `Number`. -/
def JsNumber.ofInt (n : ℤ) : JsNumber := .round (decide (n < 0)) n.natAbs

/-- The double of a positive integer with at most 53 bits. -/
theorem roundMagnitude_natCast {n : ℕ} (hpos : 0 < n) (hlt : n < 2 ^ 53) :
    ∃ (mag : Magnitude) (k : ℕ), roundMagnitude n = some mag ∧ mag.exp = -(k : ℤ) ∧ mag.mant = n * 2 ^ k := by
  have hlog : Nat.log 2 n ≤ 52 := Nat.lt_succ_iff.mp ((Nat.log_lt_iff_lt_pow one_lt_two hpos.ne').mpr hlt)
  set k := 52 - Nat.log 2 n with hk
  have hsum : 2 ^ Nat.log 2 n * 2 ^ k = 2 ^ 52 := by
    rw [← pow_add, hk, Nat.add_sub_cancel' hlog]
  have hlow : 2 ^ 52 ≤ n * 2 ^ k := hsum ▸ Nat.mul_le_mul_right _ (Nat.pow_log_le_self 2 hpos.ne')
  have hhigh : n * 2 ^ k < 2 ^ 53 := by
    have hn : n < 2 * 2 ^ Nat.log 2 n := (Nat.lt_pow_succ_log_self one_lt_two n).trans_eq (pow_succ' 2 _)
    calc n * 2 ^ k < 2 * 2 ^ Nat.log 2 n * 2 ^ k := Nat.mul_lt_mul_of_pos_right hn (by positivity)
      _ = 2 ^ 53 := by rw [mul_assoc, hsum, ← pow_succ']
  let mag : Magnitude := ⟨n * 2 ^ k, -(k : ℤ), hhigh, by omega, by omega, .inl hlow⟩
  have hval : mag.val = n := by
    have hcancel : ((2 : ℚ) ^ k) * (2 : ℚ) ^ (-(k : ℤ)) = 1 := by
      rw [zpow_neg, zpow_natCast]
      exact mul_inv_cancel₀ (by positivity)
    calc mag.val = ((n * 2 ^ k : ℕ) : ℚ) * 2 ^ (-(k : ℤ)) := rfl
      _ = n := by rw [Nat.cast_mul, Nat.cast_pow, Nat.cast_ofNat, mul_assoc, hcancel, mul_one]
  exact ⟨mag, k, hval ▸ roundMagnitude_val mag, rfl, rfl⟩

/-- **An integer is safe** if it has at most 53 bits. -/
theorem safeInteger?_ofInt {n : ℤ} (h : n.natAbs < 2 ^ 53) : (JsNumber.ofInt n).safeInteger? = some n := by
  rcases Nat.eq_zero_or_pos n.natAbs with hzero | hpos
  · obtain rfl := Int.natAbs_eq_zero.mp hzero
    decide +kernel
  obtain ⟨mag, k, hround, hexp, hmant⟩ := roundMagnitude_natCast hpos h
  have hdiv : n.natAbs * 2 ^ k / 2 ^ k = n.natAbs := Nat.mul_div_cancel _ (by positivity)
  rw [JsNumber.ofInt, JsNumber.round, hround]
  simp only [JsNumber.safeInteger?, hexp, hmant, neg_neg, Int.toNat_natCast, Int.toNat_neg_natCast, pow_zero, mul_one,
    hdiv, Nat.dvd_mul_left, h, and_self, if_true]
  split
  next hneg => exact congrArg some (by have := of_decide_eq_true hneg; omega)
  next hneg => exact congrArg some (by rw [decide_eq_true_eq] at hneg; omega)

/-- A double that is not less than `2 ^ 53` is not. -/
theorem safeInteger?_of_exp_pos {neg : Bool} {mag : Magnitude} (h : 0 < mag.exp) :
    (JsNumber.finite neg mag).safeInteger? = none := by
  have hmant : 2 ^ 52 ≤ mag.mant := mag.normal.resolve_right (by omega)
  have hscale : (-mag.exp).toNat = 0 := Int.toNat_of_nonpos (by omega)
  have hexp : 1 ≤ mag.exp.toNat := by omega
  rw [JsNumber.safeInteger?, if_neg]
  rw [hscale, pow_zero, Nat.div_one, not_and, Nat.not_lt]
  intro _
  calc 2 ^ 53 = 2 ^ 52 * 2 ^ 1 := rfl
    _ ≤ mag.mant * 2 ^ mag.exp.toNat := Nat.mul_le_mul hmant (Nat.pow_le_pow_right two_pos hexp)

theorem safeInteger?_ofInt_of_le {n : ℤ} (h : 2 ^ 53 ≤ n.natAbs) : (JsNumber.ofInt n).safeInteger? = none := by
  rw [JsNumber.ofInt, JsNumber.round]
  split
  next mag hround =>
    have hne : ((n.natAbs : ℕ) : ℚ) ≠ 0 := Nat.cast_ne_zero.mpr (by omega)
    have hexp : 0 < roundExp ((n.natAbs : ℕ) : ℚ) := by
      have hlog : (53 : ℤ) ≤ Int.log 2 ((n.natAbs : ℕ) : ℚ) := by
        rw [← Int.zpow_le_iff_le_log one_lt_two (by positivity)]
        exact_mod_cast h
      rw [roundExp]
      omega
    apply safeInteger?_of_exp_pos
    rw [roundMagnitude, if_neg hne, normalize?] at hround
    split_ifs at hround
    · obtain rfl := Option.some.inj hround
      exact hexp.trans (lt_add_one _)
    · obtain rfl := Option.some.inj hround
      exact hexp
  · rfl

theorem safeInteger?_ofInt_isSome {n : ℤ} : (JsNumber.ofInt n).safeInteger?.isSome ↔ n.natAbs < 2 ^ 53 := by
  constructor
  · intro hsome
    by_contra hle
    rw [safeInteger?_ofInt_of_le (Nat.not_lt.mp hle)] at hsome
    exact nomatch hsome
  · intro hlt
    rw [safeInteger?_ofInt hlt]
    rfl

theorem safeInteger?_unsigned (x : JsNumber) : x.unsigned.safeInteger? = x.safeInteger? := by
  match x with
  | .infinity _ | .nan => rfl
  | .finite neg mag =>
    rw [JsNumber.unsigned]
    split
    next hzero =>
      obtain rfl := Magnitude.eq_zero hzero
      cases neg <;> decide +kernel
    · rfl

/-- What `Number.isSafeInteger` finds in a leaf of JSON data. -/
def JsLeaf.safeInteger? : JsLeaf → Option ℤ
  | .num x => x.safeInteger?
  | _ => none

/-- JSON text keeps safe integers, and makes none. -/
theorem safeInteger?_wireLeaf (l : JsLeaf) : (wireLeaf l).safeInteger? = l.safeInteger? := by
  cases l with
  | num x =>
    rw [wireLeaf]
    split
    · exact safeInteger?_unsigned x
    next hinfinite =>
      cases x with
      | finite _ _ => exact absurd rfl hinfinite
      | infinity _ | nan => rfl
  | undefined | null | bool _ | str _ => rfl

end Js

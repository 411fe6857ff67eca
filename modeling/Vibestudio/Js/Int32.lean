import Mathlib
import Vibestudio.Js.Json

/-!
# Bit operators on numbers

The bit operators of JavaScript take their operands modulo `2 ^ 32` and answer a signed number, but for `>>>`, which
answers an unsigned one. Numbers are the integers here: what is added in between stays below `2 ^ 53`, where numbers are
exact. `toWord` is what an operator sees of a number, and takes every operator to that of words.
-/

namespace Js

def toWord (x : ℤ) : BitVec 32 := BitVec.ofInt 32 x

/-- `x & y` -/
def bitAnd (x y : ℤ) : ℤ := (toWord x &&& toWord y).toInt

/-- `x | y` -/
def bitOr (x y : ℤ) : ℤ := (toWord x ||| toWord y).toInt

/-- `x ^ y` -/
def bitXor (x y : ℤ) : ℤ := (toWord x ^^^ toWord y).toInt

/-- `~x` -/
def bitNot (x : ℤ) : ℤ := (~~~toWord x).toInt

/-- `x << n` -/
def shiftLeft (x : ℤ) (n : ℕ) : ℤ := (toWord x <<< (n % 32)).toInt

/-- `x >>> n` -/
def shiftRight (x : ℤ) (n : ℕ) : ℤ := (toWord x >>> (n % 32)).toNat

@[simp] theorem toWord_toInt (w : BitVec 32) : toWord w.toInt = w := BitVec.ofInt_toInt

@[simp] theorem toWord_natCast (n : ℕ) : toWord n = BitVec.ofNat 32 n := BitVec.ofInt_natCast 32 n

theorem toWord_toNat (w : BitVec 32) : toWord (w.toNat : ℤ) = w := by
  rw [toWord_natCast, BitVec.ofNat_toNat, BitVec.setWidth_eq]

@[simp] theorem toWord_add (x y : ℤ) : toWord (x + y) = toWord x + toWord y := BitVec.ofInt_add x y

@[simp] theorem toWord_bitAnd (x y : ℤ) : toWord (bitAnd x y) = toWord x &&& toWord y := toWord_toInt _

@[simp] theorem toWord_bitOr (x y : ℤ) : toWord (bitOr x y) = toWord x ||| toWord y := toWord_toInt _

@[simp] theorem toWord_bitXor (x y : ℤ) : toWord (bitXor x y) = toWord x ^^^ toWord y := toWord_toInt _

@[simp] theorem toWord_bitNot (x : ℤ) : toWord (bitNot x) = ~~~toWord x := toWord_toInt _

@[simp] theorem toWord_shiftLeft (x : ℤ) (n : ℕ) : toWord (shiftLeft x n) = toWord x <<< (n % 32) := toWord_toInt _

@[simp] theorem toWord_shiftRight (x : ℤ) (n : ℕ) : toWord (shiftRight x n) = toWord x >>> (n % 32) := toWord_toNat _

/-- `x >>> 0` makes a number unsigned. -/
theorem shiftRight_zero (x : ℤ) : shiftRight x 0 = (toWord x).toNat := rfl

/-! ## Hexadecimal digits -/

/-- `n.toString(16)` -/
def toString16 (n : ℕ) : JsString := if n = 0 then [48] else (Nat.digits 16 n).reverse.map hexDigit

/-- `s.padStart(width, "0")` -/
def padStart (width : ℕ) (s : JsString) : JsString := List.replicate (width - s.length) 48 ++ s

/-- The last `width` digits of a number. -/
def fixedDigits : ℕ → ℕ → JsString
  | 0, _ => []
  | width + 1, n => fixedDigits width (n / 16) ++ [hexDigit (n % 16)]

theorem fixedDigits_zero (width : ℕ) : fixedDigits width 0 = List.replicate width 48 := by
  induction width with
  | zero => rfl
  | succ width ih =>
    rw [fixedDigits, Nat.zero_div, ih, List.replicate_succ']
    rfl

/-- A number that fits is its last digits. -/
theorem padStart_toString16 (width : ℕ) : ∀ {n : ℕ}, n < 16 ^ (width + 1) →
    padStart (width + 1) (toString16 n) = fixedDigits (width + 1) n := by
  intro n hn
  by_cases hzero : n = 0
  · subst hzero
    rw [fixedDigits_zero, padStart, toString16, if_pos rfl, List.length_singleton, Nat.add_sub_cancel,
      ← List.replicate_succ']
  · -- the zeros are those of the quotient
    have hdigits : ∀ width n, n < 16 ^ width →
        padStart width ((Nat.digits 16 n).reverse.map hexDigit) = fixedDigits width n := by
      intro width
      induction width with
      | zero =>
        intro n hn
        obtain rfl : n = 0 := by omega
        rfl
      | succ width ih =>
        intro n hn
        by_cases hzero : n = 0
        · subst hzero
          rw [fixedDigits_zero, Nat.digits_zero, padStart]
          exact List.append_nil _
        · have hdiv : n / 16 < 16 ^ width := by
            rw [pow_succ] at hn
            omega
          rw [fixedDigits, ← ih _ hdiv, Nat.digits_def' (by decide) (Nat.pos_of_ne_zero hzero), padStart, padStart,
            List.reverse_cons, List.map_append, List.length_append, List.map_singleton, List.length_singleton,
            Nat.add_sub_add_right, List.append_assoc]
    rw [toString16, if_neg hzero]
    exact hdigits (width + 1) n hn

end Js

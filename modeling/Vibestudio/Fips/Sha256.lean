import Mathlib

/-!
# SHA-256, as the standard states it

FIPS 180-4, for messages of bits. A message is padded with a one, with the fewest zeros that make its length 448 modulo
512, and with its length in 64 bits, and is read in blocks of sixteen words. The constants are not a table: they are the
first thirty-two bits of the fractional parts of the roots of the first primes. So a program's table can be compared with
them.

The standard is for messages of fewer than `2 ^ 64` bits; for longer ones only the lowest 64 bits of the length are kept.
-/

namespace Vibestudio.Fips

/-! ## Bits -/

/-- The number that a string of bits stands for, the highest bit first. -/
def ofBits (bits : List Bool) : ℕ := bits.foldl (fun n bit ↦ 2 * n + bit.toNat) 0

/-- The last `w` bits of a number, the highest first. -/
def bitsOf : ℕ → ℕ → List Bool
  | 0, _ => []
  | w + 1, n => bitsOf w (n / 2) ++ [decide (n % 2 = 1)]

@[simp] theorem length_bitsOf (w : ℕ) : ∀ n, (bitsOf w n).length = w := by
  induction w with
  | zero => exact fun _ ↦ rfl
  | succ w ih =>
    intro n
    rw [bitsOf, List.length_append, ih, List.length_singleton]

theorem ofBits_concat (bits : List Bool) (bit : Bool) : ofBits (bits ++ [bit]) = 2 * ofBits bits + bit.toNat :=
  List.foldl_concat ..

theorem ofBits_append (high low : List Bool) : ofBits (high ++ low) = ofBits high * 2 ^ low.length + ofBits low := by
  induction low using List.reverseRecOn with
  | nil => rw [List.append_nil, List.length_nil, pow_zero, mul_one, ofBits, ofBits, List.foldl_nil, Nat.add_zero]
  | append_singleton low bit ih =>
    rw [← List.append_assoc, ofBits_concat, ih, ofBits_concat, List.length_append, List.length_singleton, pow_succ]
    ring

theorem ofBits_bitsOf (w : ℕ) : ∀ n, ofBits (bitsOf w n) = n % 2 ^ w := by
  induction w with
  | zero => exact fun n ↦ (Nat.mod_one n).symm
  | succ w ih =>
    intro n
    rw [bitsOf, ofBits_concat, ih, pow_succ', Nat.mod_mul]
    have hbit : (decide (n % 2 = 1)).toNat = n % 2 := by
      rcases Nat.mod_two_eq_zero_or_one n with h | h <;> rw [h] <;> rfl
    rw [hbit, Nat.add_comm]

/-- The high bits of a number are those of its quotient. -/
theorem bitsOf_add (v w : ℕ) : ∀ n, bitsOf (v + w) n = bitsOf v (n / 2 ^ w) ++ bitsOf w n := by
  induction w with
  | zero =>
    intro n
    rw [pow_zero, Nat.div_one, bitsOf, List.append_nil, Nat.add_zero]
  | succ w ih =>
    intro n
    rw [← Nat.add_assoc, bitsOf, ih, bitsOf, pow_succ', ← Nat.div_div_eq_div_mul, List.append_assoc]

theorem bitsOf_mod (w : ℕ) : ∀ n, bitsOf w (n % 2 ^ w) = bitsOf w n := by
  induction w with
  | zero => exact fun _ ↦ rfl
  | succ w ih =>
    intro n
    have hhigh : n % 2 ^ (w + 1) / 2 = n / 2 % 2 ^ w := by rw [pow_succ', Nat.mod_mul_right_div_self]
    have hlow : n % 2 ^ (w + 1) % 2 = n % 2 := Nat.mod_mod_of_dvd _ (dvd_pow_self _ w.succ_ne_zero)
    rw [bitsOf, bitsOf, hhigh, hlow, ih]

/-! ## The padded message -/

theorem exists_zeros (length : ℕ) : ∃ k, (length + 1 + k) % 512 = 448 := ⟨959 - length % 512, by omega⟩

/-- The least number of zeros that makes the length 448 modulo 512. -/
def zeros (length : ℕ) : ℕ := Nat.find (exists_zeros length)

theorem zeros_eq {length k : ℕ} (hk : (length + 1 + k) % 512 = 448) (hlt : k < 512) : zeros length = k := by
  have hspec := Nat.find_spec (exists_zeros length)
  have hle := Nat.find_min' (exists_zeros length) hk
  rw [← zeros] at hspec hle
  omega

def pad (message : List Bool) : List Bool :=
  message ++ [true] ++ List.replicate (zeros message.length) false ++ bitsOf 64 message.length

/-- The `j`-th word of the `i`-th block. -/
def word (message : List Bool) (i j : ℕ) : BitVec 32 :=
  BitVec.ofNat 32 (ofBits (((pad message).drop (512 * i + 32 * j)).take 32))

/-! ## Functions and constants -/

def rotr (n : ℕ) (x : BitVec 32) : BitVec 32 := (x >>> n) ||| (x <<< (32 - n))

def ch (x y z : BitVec 32) : BitVec 32 := (x &&& y) ^^^ (~~~x &&& z)

def maj (x y z : BitVec 32) : BitVec 32 := (x &&& y) ^^^ (x &&& z) ^^^ (y &&& z)

def bigSigma0 (x : BitVec 32) : BitVec 32 := rotr 2 x ^^^ rotr 13 x ^^^ rotr 22 x

def bigSigma1 (x : BitVec 32) : BitVec 32 := rotr 6 x ^^^ rotr 11 x ^^^ rotr 25 x

def smallSigma0 (x : BitVec 32) : BitVec 32 := rotr 7 x ^^^ rotr 18 x ^^^ (x >>> 3)

def smallSigma1 (x : BitVec 32) : BitVec 32 := rotr 17 x ^^^ rotr 19 x ^^^ (x >>> 10)

/-- The first thirty-two bits of the fractional part. -/
noncomputable def fractionalBits (x : ℝ) : BitVec 32 := BitVec.ofNat 32 ⌊Int.fract x * 2 ^ 32⌋₊

noncomputable def K (t : ℕ) : BitVec 32 := fractionalBits ((Nat.nth Nat.Prime t : ℝ) ^ (1 / (3 : ℕ) : ℝ))

noncomputable def initial (t : ℕ) : BitVec 32 := fractionalBits ((Nat.nth Nat.Prime t : ℝ) ^ (1 / (2 : ℕ) : ℝ))

theorem fractionalBits_eq {x : ℝ} {k : ℕ} (hle : (k : ℝ) ≤ x * 2 ^ 32) (hlt : x * 2 ^ 32 < k + 1) :
    fractionalBits x = BitVec.ofNat 32 k := by
  -- the integer part is the quotient of `k`, and the bits are the remainder
  obtain ⟨q, r, hr, rfl⟩ : ∃ q r, r < 2 ^ 32 ∧ k = q * 2 ^ 32 + r :=
    ⟨k / 2 ^ 32, k % 2 ^ 32, Nat.mod_lt _ (by norm_num), (Nat.div_add_mod' k _).symm⟩
  have hrlt : (r : ℝ) + 1 ≤ 2 ^ 32 := by exact_mod_cast hr
  have hrnonneg : (0 : ℝ) ≤ r := Nat.cast_nonneg r
  rw [Nat.cast_add, Nat.cast_mul, Nat.cast_pow, Nat.cast_ofNat] at hle hlt
  have hfloor : ⌊x⌋ = (q : ℤ) := by
    rw [Int.floor_eq_iff, Int.cast_natCast]
    constructor <;> nlinarith
  have hfract : Int.fract x * 2 ^ 32 = x * 2 ^ 32 - q * 2 ^ 32 := by
    rw [Int.fract, hfloor, Int.cast_natCast, sub_mul]
  have hbits : ⌊Int.fract x * 2 ^ 32⌋₊ = r := by
    rw [Nat.floor_eq_iff (mul_nonneg (Int.fract_nonneg x) (by positivity)), hfract]
    constructor <;> linarith
  rw [fractionalBits, hbits]
  exact BitVec.eq_of_toNat_eq (by simp)

/-- The bits of a root, from its integer bounds. -/
theorem fractionalBits_root {n p k : ℕ} (hn : n ≠ 0) (hle : k ^ n ≤ p * 2 ^ (32 * n))
    (hlt : p * 2 ^ (32 * n) < (k + 1) ^ n) : fractionalBits ((p : ℝ) ^ (1 / n : ℝ)) = BitVec.ofNat 32 k := by
  have hroot : ((p : ℝ) ^ (1 / n : ℝ) * 2 ^ 32) ^ n = p * 2 ^ (32 * n) := by
    rw [mul_pow, ← pow_mul, one_div, Real.rpow_inv_natCast_pow (Nat.cast_nonneg p) hn]
  have hnonneg : 0 ≤ (p : ℝ) ^ (1 / n : ℝ) * 2 ^ 32 := by positivity
  refine fractionalBits_eq (le_of_pow_le_pow_left₀ hn hnonneg ?_) (lt_of_pow_lt_pow_left₀ n (by positivity) ?_)
  · rw [hroot]
    exact_mod_cast hle
  · rw [hroot]
    exact_mod_cast hlt

/-! ## The first numbers of a kind -/

theorem filter_range_eq (p : ℕ → Prop) [DecidablePred p] (b : ℕ) :
    (List.range b).filter p = (List.range (Nat.count p b)).map (Nat.nth p) := by
  induction b with
  | zero => rfl
  | succ b ih =>
    rw [List.range_succ, List.filter_append, ih, Nat.count_succ]
    split_ifs with hp
    · rw [List.filter_cons, if_pos (decide_eq_true hp), List.filter_nil, List.range_succ, List.map_append,
        List.map_singleton, Nat.nth_count hp]
    · rw [List.filter_cons, if_neg (by simpa using hp), List.filter_nil, List.append_nil, Nat.add_zero]

/-! ## The digest -/

/-- The message schedule. -/
def schedule (M : ℕ → BitVec 32) (t : ℕ) : BitVec 32 :=
  if t < 16 then M t
  else smallSigma1 (schedule M (t - 2)) + schedule M (t - 7) + smallSigma0 (schedule M (t - 15)) + schedule M (t - 16)
termination_by t

/-- The working variables. -/
structure Variables where
  a : BitVec 32
  b : BitVec 32
  c : BitVec 32
  d : BitVec 32
  e : BitVec 32
  f : BitVec 32
  g : BitVec 32
  h : BitVec 32

noncomputable def round (W : ℕ → BitVec 32) (v : Variables) (t : ℕ) : Variables :=
  let t1 := v.h + bigSigma1 v.e + ch v.e v.f v.g + K t + W t
  let t2 := bigSigma0 v.a + maj v.a v.b v.c
  ⟨t1 + t2, v.a, v.b, v.c, v.d + t1, v.e, v.f, v.g⟩

/-- The hash value after `i` blocks. -/
noncomputable def hash (message : List Bool) : ℕ → Variables
  | 0 => ⟨initial 0, initial 1, initial 2, initial 3, initial 4, initial 5, initial 6, initial 7⟩
  | i + 1 =>
    let old := hash message i
    let v := (List.range 64).foldl (round (schedule (word message i))) old
    ⟨v.a + old.a, v.b + old.b, v.c + old.c, v.d + old.d, v.e + old.e, v.f + old.f, v.g + old.g, v.h + old.h⟩

/-- The digest, of 256 bits. -/
noncomputable def sha256 (message : List Bool) : List Bool :=
  let H := hash message ((pad message).length / 512)
  [H.a, H.b, H.c, H.d, H.e, H.f, H.g, H.h].flatMap fun word ↦ bitsOf 32 word.toNat

end Vibestudio.Fips

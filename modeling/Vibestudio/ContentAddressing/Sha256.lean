import Mathlib
import Vibestudio.Js.Json

/-!
# SHA-256

`sha256Hex` of `packages/content-addressing/src/worktree-hash.ts`. The arithmetic of the source
stays in 32-bit words, so words are `BitVec 32`; the loops over the schedule and the rounds are
folds.

The rest of the development takes the hash as a parameter. What it asks of the digest is only its
shape, sixty-four lower-case hexadecimal digits (`isHexOfLength_sha256Hex`).
-/

namespace Vibestudio.ContentAddressing

open Js

abbrev Word := BitVec 32

def SHA256_K : List Word :=
  [0x428a2f98, 0x71374491, 0xb5c0fbcf, 0xe9b5dba5, 0x3956c25b, 0x59f111f1, 0x923f82a4, 0xab1c5ed5,
    0xd807aa98, 0x12835b01, 0x243185be, 0x550c7dc3, 0x72be5d74, 0x80deb1fe, 0x9bdc06a7, 0xc19bf174,
    0xe49b69c1, 0xefbe4786, 0x0fc19dc6, 0x240ca1cc, 0x2de92c6f, 0x4a7484aa, 0x5cb0a9dc, 0x76f988da,
    0x983e5152, 0xa831c66d, 0xb00327c8, 0xbf597fc7, 0xc6e00bf3, 0xd5a79147, 0x06ca6351, 0x14292967,
    0x27b70a85, 0x2e1b2138, 0x4d2c6dfc, 0x53380d13, 0x650a7354, 0x766a0abb, 0x81c2c92e, 0x92722c85,
    0xa2bfe8a1, 0xa81a664b, 0xc24b8b70, 0xc76c51a3, 0xd192e819, 0xd6990624, 0xf40e3585, 0x106aa070,
    0x19a4c116, 0x1e376c08, 0x2748774c, 0x34b0bcb5, 0x391c0cb3, 0x4ed8aa4a, 0x5b9cca4f, 0x682e6ff3,
    0x748f82ee, 0x78a5636f, 0x84c87814, 0x8cc70208, 0x90befffa, 0xa4506ceb, 0xbef9a3f7, 0xc67178f2]

def rotr32 (value : Word) (shift : ℕ) : Word := (value >>> shift) ||| (value <<< (32 - shift))

/-- The eight words of the state: `hash`, and the variables of a round. -/
structure Sha256State where
  a : Word
  b : Word
  c : Word
  d : Word
  e : Word
  f : Word
  g : Word
  h : Word

def Sha256State.words (s : Sha256State) : List Word := [s.a, s.b, s.c, s.d, s.e, s.f, s.g, s.h]

def Sha256State.init : Sha256State :=
  ⟨0x6a09e667, 0xbb67ae85, 0x3c6ef372, 0xa54ff53a, 0x510e527f, 0x9b05688c, 0x1f83d9ab, 0x5be0cd19⟩

/-- `setUint32(offset, value, false)`. -/
def uint32Bytes (value : Word) : List Byte :=
  [Fin.ofNat 256 (value.toNat / 16777216), Fin.ofNat 256 (value.toNat / 65536),
    Fin.ofNat 256 (value.toNat / 256), Fin.ofNat 256 value.toNat]

/-- The message with the delimiter, the zeros and its length in bits. -/
def padded (data : List Byte) : List Byte :=
  let totalLength := (data.length + 9 + 63) / 64 * 64
  data ++ 0x80 :: List.replicate (totalLength - 8 - (data.length + 1)) 0 ++
    uint32Bytes (BitVec.ofNat 32 (data.length * 8 / 0x100000000)) ++
    uint32Bytes (BitVec.ofNat 32 (data.length * 8))

/-- `getUint32` at every fourth byte of a block. -/
def blockWords : List Byte → List Word
  | a :: b :: c :: d :: rest =>
    BitVec.ofNat 32 (a.val * 16777216 + b.val * 65536 + c.val * 256 + d.val) :: blockWords rest
  | _ => []

/-- One step of the schedule: `w[i]` from the words before it. -/
def extend (w : List Word) : List Word :=
  let i := w.length
  let w15 := w.getD (i - 15) 0
  let w2 := w.getD (i - 2) 0
  let s0 := rotr32 w15 7 ^^^ rotr32 w15 18 ^^^ (w15 >>> 3)
  let s1 := rotr32 w2 17 ^^^ rotr32 w2 19 ^^^ (w2 >>> 10)
  w ++ [w.getD (i - 16) 0 + s0 + w.getD (i - 7) 0 + s1]

def schedule (block : List Byte) : List Word := extend^[48] (blockWords block)

def round (s : Sha256State) (kw : Word × Word) : Sha256State :=
  let s1 := rotr32 s.e 6 ^^^ rotr32 s.e 11 ^^^ rotr32 s.e 25
  let ch := (s.e &&& s.f) ^^^ (~~~s.e &&& s.g)
  let temp1 := s.h + s1 + ch + kw.1 + kw.2
  let s0 := rotr32 s.a 2 ^^^ rotr32 s.a 13 ^^^ rotr32 s.a 22
  let maj := (s.a &&& s.b) ^^^ (s.a &&& s.c) ^^^ (s.b &&& s.c)
  let temp2 := s0 + maj
  ⟨temp1 + temp2, s.a, s.b, s.c, s.d + temp1, s.e, s.f, s.g⟩

def compress (hash : Sha256State) (block : List Byte) : Sha256State :=
  let s := (SHA256_K.zip (schedule block)).foldl round hash
  ⟨hash.a + s.a, hash.b + s.b, hash.c + s.c, hash.d + s.d, hash.e + s.e, hash.f + s.f,
    hash.g + s.g, hash.h + s.h⟩

/-- `word.toString(16).padStart(8, "0")`. -/
def hexWord (word : Word) : JsString :=
  [hexDigit (word.toNat / 268435456 % 16), hexDigit (word.toNat / 16777216 % 16),
    hexDigit (word.toNat / 1048576 % 16), hexDigit (word.toNat / 65536 % 16),
    hexDigit (word.toNat / 4096 % 16), hexDigit (word.toNat / 256 % 16),
    hexDigit (word.toNat / 16 % 16), hexDigit (word.toNat % 16)]

def sha256Hex (data : List Byte) : JsString :=
  (((padded data).toChunks 64).foldl compress .init).words.flatMap hexWord

theorem isLowerHex_hexDigit {n : ℕ} (h : n < 16) : isLowerHex (hexDigit n) = true := by
  interval_cases n <;> decide

theorem isHexOfLength_hexWord (word : Word) : isHexOfLength 8 (hexWord word) = true := by
  have hdigit : ∀ n : ℕ, isLowerHex (hexDigit (n % 16)) = true :=
    fun n ↦ isLowerHex_hexDigit (Nat.mod_lt _ (by decide))
  simp [isHexOfLength, hexWord, hdigit]

theorem isHexOfLength_append {m n : ℕ} {s t : JsString} (hs : isHexOfLength m s = true)
    (ht : isHexOfLength n t = true) : isHexOfLength (m + n) (s ++ t) = true := by
  rw [isHexOfLength, Bool.and_eq_true, decide_eq_true_eq] at *
  rw [List.length_append, List.all_append, hs.1, hs.2, ht.1, ht.2]
  exact ⟨rfl, rfl⟩

/-- **A digest is sixty-four lower-case hexadecimal digits.** -/
theorem isHexOfLength_sha256Hex (data : List Byte) : isHexOfLength 64 (sha256Hex data) = true := by
  have hwords : ∀ words : List Word,
      isHexOfLength (8 * words.length) (words.flatMap hexWord) = true := by
    intro words
    induction words with
    | nil => rfl
    | cons word words ih =>
      rw [List.flatMap_cons, List.length_cons, Nat.mul_succ, Nat.add_comm]
      exact isHexOfLength_append (isHexOfLength_hexWord word) ih
  exact hwords _

example : sha256Hex [] =
    lit "e3b0c44298fc1c149afbf4c8996fb92427ae41e4649b934ca495991b7852b855" := by
  decide +kernel

end Vibestudio.ContentAddressing

import Vibestudio.ContentAddressing.Sha256
import Vibestudio.Fips.Sha256

/-!
# The digest is the standard's

`sha256Hex` over words is FIPS 180-4: its table is the standard's constants, its padded bytes are the standard's padded
bits, and its folds over the schedule, the rounds and the blocks are the standard's recursions.
-/

namespace Vibestudio.ContentAddressing

open Js

/-! ## Bytes and bits -/

/-- The bits of a string of bytes. -/
def bits (data : List Byte) : List Bool := data.flatMap fun byte ↦ Fips.bitsOf 8 byte.val

theorem bits_append (a b : List Byte) : bits (a ++ b) = bits a ++ bits b := List.flatMap_append

@[simp] theorem length_bits (data : List Byte) : (bits data).length = 8 * data.length := by
  induction data with
  | nil => rfl
  | cons byte data ih =>
    rw [bits, List.flatMap_cons, List.length_append, ← bits, ih, Fips.length_bitsOf, List.length_cons]
    ring

theorem bits_take (data : List Byte) (n : ℕ) : (bits data).take (8 * n) = bits (data.take n) := by
  by_cases hn : n ≤ data.length
  · conv_lhs => rw [← List.take_append_drop n data, bits_append]
    exact List.take_left' (by rw [length_bits, List.length_take_of_le hn])
  · have hlength := length_bits data
    rw [List.take_of_length_le (by omega), List.take_of_length_le (by omega)]

theorem bits_drop (data : List Byte) (n : ℕ) : (bits data).drop (8 * n) = bits (data.drop n) := by
  by_cases hn : n ≤ data.length
  · conv_lhs => rw [← List.take_append_drop n data, bits_append]
    exact List.drop_left' (by rw [length_bits, List.length_take_of_le hn])
  · have hlength := length_bits data
    rw [List.drop_of_length_le (by omega), List.drop_of_length_le (by omega)]
    rfl

theorem bits_zeros (n : ℕ) : bits (List.replicate n 0) = List.replicate (8 * n) false := by
  induction n with
  | zero => rfl
  | succ n ih =>
    rw [List.replicate_succ, bits, List.flatMap_cons, ← bits, ih, Nat.mul_succ, Nat.add_comm, List.replicate_add]
    rfl

theorem ofBits_byte (byte : Byte) : Fips.ofBits (Fips.bitsOf 8 byte.val) = byte.val := by
  rw [Fips.ofBits_bitsOf]
  exact Nat.mod_eq_of_lt byte.isLt

theorem ofBits_bits_four (a b c d : Byte) :
    Fips.ofBits (bits [a, b, c, d]) = a.val * 16777216 + b.val * 65536 + c.val * 256 + d.val := by
  have hbits : bits [a, b, c, d] =
      Fips.bitsOf 8 a.val ++ Fips.bitsOf 8 b.val ++ Fips.bitsOf 8 c.val ++ Fips.bitsOf 8 d.val := by
    simp only [bits, List.flatMap_cons, List.flatMap_nil, List.append_nil, List.append_assoc]
  rw [hbits]
  simp only [Fips.ofBits_append, Fips.length_bitsOf, ofBits_byte]
  ring

/-- The bits of a word are those of its four bytes. -/
theorem bits_uint32Bytes (value : Word) : bits (uint32Bytes value) = Fips.bitsOf 32 value.toNat := by
  have hbyte (n : ℕ) : Fips.bitsOf 8 (Fin.ofNat 256 n).val = Fips.bitsOf 8 n := Fips.bitsOf_mod 8 n
  simp only [uint32Bytes, bits, List.flatMap_cons, List.flatMap_nil, List.append_nil, hbyte]
  exact ((Fips.bitsOf_add 8 24 _).trans (congrArg _ ((Fips.bitsOf_add 8 16 _).trans
    (congrArg _ (Fips.bitsOf_add 8 8 _))))).symm

/-! ## Padding -/

theorem length_padded (data : List Byte) : (padded data).length = (data.length + 72) / 64 * 64 := by
  simp only [padded, uint32Bytes, List.length_append, List.length_cons, List.length_replicate, List.length_nil]
  omega

/-- **The padded bytes are the padded bits.** -/
theorem bits_padded (data : List Byte) : bits (padded data) = Fips.pad (bits data) := by
  have hzeros : Fips.zeros (bits data).length = 7 + 8 * ((data.length + 72) / 64 * 64 - 8 - (data.length + 1)) := by
    rw [length_bits]
    exact Fips.zeros_eq (by omega) (by omega)
  have hhigh : Fips.bitsOf 32 (BitVec.ofNat 32 (data.length * 8 / 0x100000000)).toNat =
      Fips.bitsOf 32 (data.length * 8 / 2 ^ 32) := by
    rw [BitVec.toNat_ofNat]
    exact Fips.bitsOf_mod 32 _
  have hlow : Fips.bitsOf 32 (BitVec.ofNat 32 (data.length * 8)).toNat = Fips.bitsOf 32 (data.length * 8) := by
    rw [BitVec.toNat_ofNat]
    exact Fips.bitsOf_mod 32 _
  have hdelimiter (n : ℕ) : bits (0x80 :: List.replicate n 0) =
      [true] ++ (List.replicate 7 false ++ List.replicate (8 * n) false) := by
    rw [bits, List.flatMap_cons, ← bits, bits_zeros]
    rfl
  have hlength : Fips.bitsOf 64 (data.length * 8) =
      Fips.bitsOf 32 (data.length * 8 / 2 ^ 32) ++ Fips.bitsOf 32 (data.length * 8) := Fips.bitsOf_add 32 32 _
  rw [padded, Fips.pad, hzeros, bits_append, bits_append, bits_append, bits_uint32Bytes, bits_uint32Bytes, hhigh, hlow,
    length_bits, Nat.mul_comm 8 data.length, hlength, hdelimiter, List.replicate_add]
  simp only [List.append_assoc]

/-- A word of a block, read from the bytes. -/
theorem word_eq (data : List Byte) (i j : ℕ) : Fips.word (bits data) i j =
    BitVec.ofNat 32 (Fips.ofBits (bits (((padded data).drop (64 * i + 4 * j)).take 4))) := by
  rw [Fips.word, ← bits_padded, show 512 * i + 32 * j = 8 * (64 * i + 4 * j) by ring, bits_drop,
    show (32 : ℕ) = 8 * 4 from rfl, bits_take]

/-! ## Constants -/

/-- The first sixty-four primes. -/
def primes : List ℕ :=
  [2, 3, 5, 7, 11, 13, 17, 19, 23, 29, 31, 37, 41, 43, 47, 53, 59, 61, 67, 71, 73, 79, 83, 89, 97, 101, 103, 107, 109,
    113, 127, 131, 137, 139, 149, 151, 157, 163, 167, 173, 179, 181, 191, 193, 197, 199, 211, 223, 227, 229, 233, 239,
    241, 251, 257, 263, 269, 271, 277, 281, 283, 293, 307, 311]

set_option maxRecDepth 10000 in
theorem primes_eq : primes = (List.range 64).map (Nat.nth Nat.Prime) := by
  have hfilter : (List.range 312).filter Nat.Prime = primes := by decide +kernel
  have heq := hfilter.symm.trans (Fips.filter_range_eq Nat.Prime 312)
  have hcount : Nat.count Nat.Prime 312 = 64 := by
    have hlength := congrArg List.length heq
    rw [List.length_map, List.length_range] at hlength
    exact hlength.symm
  rw [heq, hcount]

theorem getD_primes {t : ℕ} (ht : t < 64) : primes.getD t 0 = Nat.nth Nat.Prime t := by
  rw [primes_eq, List.getD_eq_getElem?_getD, List.getElem?_map, List.getElem?_range ht]
  rfl

theorem ofNat_high (c : ℕ) (value : Word) : BitVec.ofNat 32 (c * 2 ^ 32 + value.toNat) = value := by
  refine BitVec.eq_of_toNat_eq ?_
  rw [BitVec.toNat_ofNat, Nat.mul_add_mod_self_right, Nat.mod_eq_of_lt value.isLt]

/-- A table entry that, with an integer part before it, bounds the root of its prime. -/
theorem fractionalBits_of_bounds {n t c : ℕ} {value : Word} (hn : n ≠ 0) (ht : t < 64)
    (hle : (c * 2 ^ 32 + value.toNat) ^ n ≤ primes.getD t 0 * 2 ^ (32 * n))
    (hlt : primes.getD t 0 * 2 ^ (32 * n) < (c * 2 ^ 32 + value.toNat + 1) ^ n) :
    Fips.fractionalBits ((Nat.nth Nat.Prime t : ℝ) ^ (1 / n : ℝ)) = value := by
  rw [getD_primes ht] at hle hlt
  rw [Fips.fractionalBits_root hn hle hlt, ofNat_high]

/-- **The table holds the standard's constants.** -/
theorem SHA256_K_eq : SHA256_K = (List.range 64).map Fips.K := by
  have hbounds : ∀ t < 64, ∃ c < 8,
      (c * 2 ^ 32 + (SHA256_K.getD t 0).toNat) ^ 3 ≤ primes.getD t 0 * 2 ^ (32 * 3) ∧
      primes.getD t 0 * 2 ^ (32 * 3) < (c * 2 ^ 32 + (SHA256_K.getD t 0).toNat + 1) ^ 3 := by decide +kernel
  refine List.ext_getElem (by simp [SHA256_K]) fun t ht ht' ↦ ?_
  have hlt : t < 64 := ht
  obtain ⟨c, -, hle, hgt⟩ := hbounds t hlt
  rw [List.getElem_map, List.getElem_range, Fips.K, fractionalBits_of_bounds (by decide) hlt hle hgt,
    List.getD_eq_getElem _ _ ht]

theorem Sha256State.init_eq : Sha256State.init.words = (List.range 8).map Fips.initial := by
  have hbounds : ∀ t < 8, ∃ c < 8,
      (c * 2 ^ 32 + (Sha256State.init.words.getD t 0).toNat) ^ 2 ≤ primes.getD t 0 * 2 ^ (32 * 2) ∧
      primes.getD t 0 * 2 ^ (32 * 2) < (c * 2 ^ 32 + (Sha256State.init.words.getD t 0).toNat + 1) ^ 2 := by
    decide +kernel
  refine List.ext_getElem rfl fun t ht ht' ↦ ?_
  have hlt : t < 8 := ht
  obtain ⟨c, -, hle, hgt⟩ := hbounds t hlt
  rw [List.getElem_map, List.getElem_range, Fips.initial, fractionalBits_of_bounds (by decide) (by omega) hle hgt,
    List.getD_eq_getElem _ _ ht]

/-! ## Blocks -/

theorem toChunks_go_eq {α : Type} (n : ℕ) (xs : List α) : ∀ (chunk : Array α) (chunks : Array (List α)),
    List.toChunks.go n xs chunk chunks = chunks.toList ++ List.toChunks.go n xs chunk #[] := by
  induction xs with
  | nil =>
    intro chunk chunks
    simp only [List.toChunks.go, Array.toList_push, List.nil_append]
  | cons x xs ih =>
    intro chunk chunks
    rw [List.toChunks.go, List.toChunks.go]
    split_ifs
    · rw [ih _ (chunks.push _), ih _ (Array.push #[] _), Array.toList_push, Array.toList_push, List.append_assoc]
      rfl
    · exact ih _ _

/-- A chunk that is filled by the elements that come next. -/
theorem toChunks_go_append {α : Type} {n : ℕ} (block : List α) : ∀ {chunk : Array α} {rest : List α},
    chunk.size + block.length = n → List.toChunks.go n (block ++ rest) chunk #[] =
      (chunk.toList ++ block) :: match rest with
        | [] => []
        | x :: xs => List.toChunks.go n xs #[x] #[] := by
  induction block with
  | nil =>
    intro chunk rest hsize
    match rest with
    | [] => simp only [List.append_nil, List.toChunks.go, Array.toList_push, List.nil_append]
    | x :: xs =>
      rw [List.nil_append, List.toChunks.go, if_pos (by simpa using hsize), toChunks_go_eq]
      simp
  | cons b block ih =>
    intro chunk rest hsize
    rw [List.length_cons] at hsize
    rw [List.cons_append, List.toChunks.go, if_neg (by simp; omega), ih (by simp; omega)]
    simp

theorem toChunks_append {α : Type} {block : List α} (rest : List α) (hblock : block ≠ []) :
    (block ++ rest).toChunks block.length = block :: rest.toChunks block.length := by
  have hgo (x : α) (xs : List α) {m : ℕ} (hm : m ≠ 0) :
      (x :: xs).toChunks m = List.toChunks.go m xs #[x] #[] := by
    match m, hm with
    | m + 1, _ => rfl
  match block, hblock with
  | b :: block, _ =>
    have hm : (b :: block).length ≠ 0 := by simp
    rw [List.cons_append, hgo _ _ hm, toChunks_go_append block (by simp; omega)]
    match rest with
    | [] => rfl
    | x :: xs => rw [hgo x xs hm]; rfl

/-- The blocks of a string whose length is a multiple of theirs. -/
theorem toChunks_eq {α : Type} {m : ℕ} (hm : 0 < m) (n : ℕ) : ∀ {l : List α}, l.length = m * n →
    l.toChunks m = (List.range n).map fun i ↦ (l.drop (m * i)).take m := by
  induction n with
  | zero =>
    intro l hl
    rw [List.length_eq_zero_iff.mp hl]
    rfl
  | succ n ih =>
    intro l hl
    have hlength : (l.take m).length = m := List.length_take_of_le (by rw [hl, Nat.mul_succ]; omega)
    have hne : l.take m ≠ [] := List.ne_nil_of_length_pos (by omega)
    have hchunks := toChunks_append (l.drop m) hne
    have hrest := ih (l := l.drop m) (by rw [List.length_drop, hl, Nat.mul_succ]; omega)
    rw [hlength, List.take_append_drop, hrest] at hchunks
    rw [hchunks, List.range_succ_eq_map, List.map_cons, List.map_map]
    refine congrArg _ (List.map_congr_left fun i _ ↦ ?_)
    rw [List.drop_drop, Function.comp_apply, Nat.mul_succ, Nat.add_comm]

theorem blockWords_eq (n : ℕ) : ∀ {block : List Byte}, block.length = 4 * n → blockWords block =
    (List.range n).map fun j ↦ BitVec.ofNat 32 (Fips.ofBits (bits ((block.drop (4 * j)).take 4))) := by
  induction n with
  | zero =>
    intro block hlength
    rw [List.length_eq_zero_iff.mp hlength]
    rfl
  | succ n ih =>
    intro block hlength
    match block, hlength with
    | a :: b :: c :: d :: rest, hlength =>
      have hrest : rest.length = 4 * n := by
        simp only [List.length_cons] at hlength
        omega
      rw [blockWords, ih hrest, List.range_succ_eq_map, List.map_cons, List.map_map]
      refine congrArg₂ _ ?_ (List.map_congr_left fun i _ ↦ ?_)
      · rw [Nat.mul_zero, List.drop_zero]
        exact congrArg _ (ofBits_bits_four a b c d).symm
      · rw [Function.comp_apply, Nat.mul_succ]
        rfl

/-! ## Schedule and rounds -/

/-- The standard adds the same words in another order. -/
theorem extend_word (w16 w15 w7 w2 : Word) :
    w16 + (rotr32 w15 7 ^^^ rotr32 w15 18 ^^^ (w15 >>> 3)) + w7 +
      (rotr32 w2 17 ^^^ rotr32 w2 19 ^^^ (w2 >>> 10)) =
    Fips.smallSigma1 w2 + w7 + Fips.smallSigma0 w15 + w16 := by
  change w16 + Fips.smallSigma0 w15 + w7 + Fips.smallSigma1 w2 = _
  generalize Fips.smallSigma0 w15 = s0
  generalize Fips.smallSigma1 w2 = s1
  ac_rfl

/-- The steps of the schedule are the standard's recursion. -/
theorem extend_eq {M : ℕ → Word} (n : ℕ) : extend^[n] ((List.range 16).map M) =
    (List.range (16 + n)).map (Fips.schedule M) := by
  induction n with
  | zero =>
    refine List.map_congr_left fun t ht ↦ ?_
    rw [Fips.schedule, if_pos (List.mem_range.mp ht)]
  | succ n ih =>
    have hget {t : ℕ} (ht : t < 16 + n) :
        ((List.range (16 + n)).map (Fips.schedule M)).getD t 0 = Fips.schedule M t := by
      rw [List.getD_eq_getElem?_getD, List.getElem?_map, List.getElem?_range ht]
      rfl
    rw [Function.iterate_succ_apply', ih, extend]
    rw [List.length_map, List.length_range, hget (by omega), hget (by omega), hget (by omega), hget (by omega),
      ← Nat.add_assoc, List.range_succ, List.map_append, List.map_singleton]
    refine congrArg (_ ++ [·]) ?_
    rw [Fips.schedule.eq_1 M (16 + n), if_neg (by omega)]
    exact extend_word _ _ _ _

def Sha256State.variables (s : Sha256State) : Fips.Variables := ⟨s.a, s.b, s.c, s.d, s.e, s.f, s.g, s.h⟩

theorem variables_round (s : Sha256State) (W : ℕ → Word) (t : ℕ) :
    (round s (Fips.K t, W t)).variables = Fips.round W s.variables t := rfl

theorem variables_rounds (W : ℕ → Word) (ts : List ℕ) : ∀ s : Sha256State,
    ((ts.map fun t ↦ (Fips.K t, W t)).foldl round s).variables = ts.foldl (Fips.round W) s.variables := by
  induction ts with
  | nil => exact fun _ ↦ rfl
  | cons t ts ih =>
    intro s
    rw [List.map_cons, List.foldl_cons, List.foldl_cons, ih, variables_round]

/-- **One block.** -/
theorem variables_compress {data : List Byte} {hash : Sha256State} {i : ℕ}
    (hi : 64 * (i + 1) ≤ (padded data).length) (hhash : hash.variables = Fips.hash (bits data) i) :
    (compress hash (((padded data).drop (64 * i)).take 64)).variables = Fips.hash (bits data) (i + 1) := by
  have hwords : blockWords (((padded data).drop (64 * i)).take 64) =
      (List.range 16).map (Fips.word (bits data) i) := by
    rw [blockWords_eq 16 (by rw [List.length_take, List.length_drop]; omega)]
    refine List.map_congr_left fun j hj ↦ ?_
    have hj := List.mem_range.mp hj
    rw [word_eq, List.drop_take, List.take_take, List.drop_drop, Nat.min_eq_left (by omega)]
  have hrounds : ((SHA256_K.zip (schedule (((padded data).drop (64 * i)).take 64))).foldl round hash).variables =
      (List.range 64).foldl (Fips.round (Fips.schedule (Fips.word (bits data) i))) (Fips.hash (bits data) i) := by
    rw [schedule, hwords, extend_eq, SHA256_K_eq, List.zip_map', variables_rounds, hhash]
  rw [Fips.hash, ← hrounds, ← hhash, compress]
  generalize (SHA256_K.zip (schedule (((padded data).drop (64 * i)).take 64))).foldl round hash = s
  simp only [Sha256State.variables, BitVec.add_comm]

theorem variables_init (message : List Bool) : Sha256State.init.variables = Fips.hash message 0 := by
  have hinit := Sha256State.init_eq
  simp only [Sha256State.words, List.range_succ, List.range_zero, List.nil_append, List.cons_append, List.map_cons,
    List.map_nil, List.cons.injEq, and_true] at hinit
  obtain ⟨ha, hb, hc, hd, he, hf, hg, hh⟩ := hinit
  rw [Sha256State.variables, Fips.hash, ha, hb, hc, hd, he, hf, hg, hh]

theorem variables_blocks (data : List Byte) (n : ℕ) (hn : 64 * n ≤ (padded data).length) :
    (((List.range n).map fun i ↦ ((padded data).drop (64 * i)).take 64).foldl compress .init).variables =
      Fips.hash (bits data) n := by
  induction n with
  | zero => exact variables_init _
  | succ n ih =>
    rw [List.range_succ, List.map_append, List.map_singleton, List.foldl_concat]
    exact variables_compress hn (ih (by omega))

/-! ## The digest -/

/-- Bits in hexadecimal digits, four to a digit. -/
def hexText : List Bool → JsString
  | a :: b :: c :: d :: rest => hexDigit (Fips.ofBits [a, b, c, d]) :: hexText rest
  | _ => []

theorem hexText_bitsOf_append (n : ℕ) (rest : List Bool) :
    hexText (Fips.bitsOf 4 n ++ rest) = hexDigit (n % 16) :: hexText rest := by
  have hlength : (Fips.bitsOf 4 n).length = 4 := Fips.length_bitsOf 4 n
  have hvalue := Fips.ofBits_bitsOf 4 n
  match Fips.bitsOf 4 n, hlength, hvalue with
  | [a, b, c, d], _, hvalue =>
    change hexDigit (Fips.ofBits [a, b, c, d]) :: hexText rest = _
    rw [hvalue]
    rfl

theorem hexText_word (value : Word) (rest : List Bool) :
    hexText (Fips.bitsOf 32 value.toNat ++ rest) = hexWord value ++ hexText rest := by
  have hsplit (w n : ℕ) (rest : List Bool) : hexText (Fips.bitsOf (4 + w) n ++ rest) =
      hexDigit (n / 2 ^ w % 16) :: hexText (Fips.bitsOf w n ++ rest) := by
    rw [Fips.bitsOf_add, List.append_assoc, hexText_bitsOf_append]
  have hlast : hexText (Fips.bitsOf 4 value.toNat ++ rest) = hexDigit (value.toNat % 16) :: hexText rest :=
    hexText_bitsOf_append _ _
  exact (hsplit 28 _ _).trans (congrArg _ ((hsplit 24 _ _).trans (congrArg _ ((hsplit 20 _ _).trans (congrArg _
    ((hsplit 16 _ _).trans (congrArg _ ((hsplit 12 _ _).trans (congrArg _ ((hsplit 8 _ _).trans (congrArg _
      ((hsplit 4 _ _).trans (congrArg _ hlast)))))))))))))

theorem hexText_words (words : List Word) :
    hexText (words.flatMap fun word ↦ Fips.bitsOf 32 word.toNat) = words.flatMap hexWord := by
  induction words with
  | nil => rfl
  | cons word words ih => rw [List.flatMap_cons, hexText_word, ih, List.flatMap_cons]

/-- **The digest over words is the standard's.** -/
theorem sha256Hex_eq_standard (data : List Byte) : sha256Hex data = hexText (Fips.sha256 (bits data)) := by
  have hlength := length_padded data
  have hblocks : (padded data).length = 64 * ((Fips.pad (bits data)).length / 512) := by
    rw [← bits_padded, length_bits]
    omega
  rw [Fips.sha256, ← variables_blocks data _ hblocks.ge, sha256Hex, toChunks_eq (by decide) _ hblocks]
  exact (hexText_words _).symm

end Vibestudio.ContentAddressing

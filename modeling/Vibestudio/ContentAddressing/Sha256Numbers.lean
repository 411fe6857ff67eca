import Vibestudio.Js.Int32
import Vibestudio.ContentAddressing.Sha256Standard

/-!
# The digest in numbers

`sha256Hex` as the source computes it: in numbers, with signed bit operators, over one buffer of bytes and one array of
sixty-four words that every block uses again. It is the digest over words, and so the standard's.
-/

namespace Vibestudio.ContentAddressing.Numbers

open Js

/-! ## Buffers -/

/-- `bytes.set(source, offset)` -/
def setBytes (bytes source : List Byte) (offset : ℕ) : List Byte :=
  bytes.take offset ++ source ++ bytes.drop (offset + source.length)

/-- `view.setUint32(offset, value, false)` -/
def setUint32 (bytes : List Byte) (offset : ℕ) (value : ℤ) : List Byte :=
  setBytes bytes (uint32Bytes (toWord value)) offset

/-- `view.getUint32(offset, false)` -/
def getUint32 (bytes : List Byte) (offset : ℕ) : ℤ :=
  (((bytes.getD offset 0).val * 16777216 + (bytes.getD (offset + 1) 0).val * 65536 +
    (bytes.getD (offset + 2) 0).val * 256 + (bytes.getD (offset + 3) 0).val : ℕ) : ℤ)

/-- `w[i] = value`, in an array of unsigned words. -/
def store (w : List ℤ) (i : ℕ) (value : ℤ) : List ℤ := w.set i (shiftRight value 0)

/-- The bytes that are hashed. -/
def padBytes (data : List Byte) : List Byte :=
  let bitLength : ℤ := data.length * 8
  let totalLength := (data.length + 9 + 63) / 64 * 64
  let bytes := setBytes (List.replicate totalLength 0) data 0
  let bytes := bytes.set data.length 0x80
  let high := bitLength / 0x100000000
  let low := shiftRight bitLength 0
  setUint32 (setUint32 bytes (totalLength - 8) high) (totalLength - 4) low

/-! ## Rounds -/

def rotr32 (value : ℤ) (shift : ℕ) : ℤ := bitOr (shiftRight value shift) (shiftLeft value (32 - shift))

/-- `hash`, and the variables of a round. -/
structure Registers where
  a : ℤ
  b : ℤ
  c : ℤ
  d : ℤ
  e : ℤ
  f : ℤ
  g : ℤ
  h : ℤ

def Registers.init : Registers :=
  ⟨0x6a09e667, 0xbb67ae85, 0x3c6ef372, 0xa54ff53a, 0x510e527f, 0x9b05688c, 0x1f83d9ab, 0x5be0cd19⟩

def Registers.toList (s : Registers) : List ℤ := [s.a, s.b, s.c, s.d, s.e, s.f, s.g, s.h]

def loadWord (bytes : List Byte) (offset : ℕ) (w : List ℤ) (i : ℕ) : List ℤ :=
  store w i (getUint32 bytes (offset + i * 4))

def extendWord (w : List ℤ) (i : ℕ) : List ℤ :=
  let s0 := bitXor (bitXor (rotr32 (w.getD (i - 15) 0) 7) (rotr32 (w.getD (i - 15) 0) 18))
    (shiftRight (w.getD (i - 15) 0) 3)
  let s1 := bitXor (bitXor (rotr32 (w.getD (i - 2) 0) 17) (rotr32 (w.getD (i - 2) 0) 19))
    (shiftRight (w.getD (i - 2) 0) 10)
  store w i (shiftRight (w.getD (i - 16) 0 + s0 + w.getD (i - 7) 0 + s1) 0)

def round (w : List ℤ) (s : Registers) (i : ℕ) : Registers :=
  let s1 := bitXor (bitXor (rotr32 s.e 6) (rotr32 s.e 11)) (rotr32 s.e 25)
  let ch := bitXor (bitAnd s.e s.f) (bitAnd (bitNot s.e) s.g)
  let temp1 := shiftRight (s.h + s1 + ch + ((SHA256_K.getD i 0).toNat : ℤ) + w.getD i 0) 0
  let s0 := bitXor (bitXor (rotr32 s.a 2) (rotr32 s.a 13)) (rotr32 s.a 22)
  let maj := bitXor (bitXor (bitAnd s.a s.b) (bitAnd s.a s.c)) (bitAnd s.b s.c)
  let temp2 := shiftRight (s0 + maj) 0
  ⟨shiftRight (temp1 + temp2) 0, s.a, s.b, s.c, shiftRight (s.d + temp1) 0, s.e, s.f, s.g⟩

/-- One block, at `offset`; the words are those of the block before. -/
def block (bytes : List Byte) (state : Registers × List ℤ) (offset : ℕ) : Registers × List ℤ :=
  let hash := state.1
  let w := (List.range 16).foldl (loadWord bytes offset) state.2
  let w := (List.range' 16 48).foldl extendWord w
  let s := (List.range 64).foldl (round w) hash
  (⟨shiftRight (hash.a + s.a) 0, shiftRight (hash.b + s.b) 0, shiftRight (hash.c + s.c) 0,
    shiftRight (hash.d + s.d) 0, shiftRight (hash.e + s.e) 0, shiftRight (hash.f + s.f) 0,
    shiftRight (hash.g + s.g) 0, shiftRight (hash.h + s.h) 0⟩, w)

def sha256Hex (data : List Byte) : JsString :=
  let bytes := padBytes data
  let blocks := (List.range (bytes.length / 64)).map (64 * ·)
  let hash := (blocks.foldl (block bytes) (.init, List.replicate 64 0)).1
  hash.toList.flatMap fun word ↦ padStart 8 (toString16 word.toNat)

/-! ## The bytes -/

theorem setBytes_append (before : List Byte) {old source : List Byte} (after : List Byte) (h : old.length = source.length) :
    setBytes (before ++ (old ++ after)) source before.length = before ++ (source ++ after) := by
  rw [setBytes, List.take_left' rfl, ← List.drop_drop, List.drop_left' rfl, List.drop_left' h, List.append_assoc]

theorem length_uint32Bytes (value : Word) : (uint32Bytes value).length = 4 := rfl

theorem padBytes_eq (data : List Byte) : padBytes data = padded data := by
  obtain ⟨zeros, hzeros⟩ : ∃ zeros, (data.length + 9 + 63) / 64 * 64 = data.length + 1 + zeros + 4 + 4 :=
    ⟨(data.length + 9 + 63) / 64 * 64 - 8 - (data.length + 1), by omega⟩
  have hhigh : toWord ((data.length * 8 : ℤ) / 0x100000000) = BitVec.ofNat 32 (data.length * 8 / 0x100000000) := by
    rw [← toWord_natCast]
    norm_cast
  have hlow : toWord (shiftRight (data.length * 8 : ℤ) 0) = BitVec.ofNat 32 (data.length * 8) := by
    rw [shiftRight_zero, toWord_toNat, ← toWord_natCast]
    norm_cast
  have hfirst : setBytes (List.replicate (data.length + 1 + zeros + 4 + 4) 0) data 0 =
      data ++ (0 :: List.replicate zeros 0 ++ (List.replicate 4 0 ++ List.replicate 4 0)) := by
    rw [setBytes, List.take_zero, List.nil_append, List.drop_replicate, ← List.replicate_succ,
      ← List.replicate_add, ← List.replicate_add]
    congr 2
    omega
  have hsecond : (data ++ (0 :: List.replicate zeros 0 ++ (List.replicate 4 0 ++ List.replicate 4 0))).set
      data.length 0x80 = (data ++ 0x80 :: List.replicate zeros 0) ++ (List.replicate 4 0 ++ List.replicate 4 0) := by
    rw [List.set_append_right _ _ le_rfl, Nat.sub_self, List.cons_append, List.set_cons_zero, List.append_assoc,
      List.cons_append]
  have hlength : (data ++ 0x80 :: List.replicate zeros (0 : Byte)).length = data.length + 1 + zeros := by
    simp only [List.length_append, List.length_cons, List.length_replicate]
    omega
  have hthird := setBytes_append (data ++ 0x80 :: List.replicate zeros 0) (List.replicate 4 0)
    (show (List.replicate 4 (0 : Byte)).length =
      (uint32Bytes (BitVec.ofNat 32 (data.length * 8 / 0x100000000))).length from rfl)
  have hfourth := setBytes_append
    (data ++ 0x80 :: List.replicate zeros 0 ++ uint32Bytes (BitVec.ofNat 32 (data.length * 8 / 0x100000000))) []
    (show (List.replicate 4 (0 : Byte)).length = (uint32Bytes (BitVec.ofNat 32 (data.length * 8))).length from rfl)
  rw [List.length_append, length_uint32Bytes, hlength, List.append_nil, List.append_nil, List.append_assoc] at hfourth
  rw [hlength] at hthird
  rw [padBytes, padded, hzeros]
  rw [hfirst, hsecond, setUint32, setUint32, hhigh, hlow, show data.length + 1 + zeros + 4 + 4 - 8 =
    data.length + 1 + zeros by omega, show data.length + 1 + zeros + 4 + 4 - 4 = data.length + 1 + zeros + 4 by omega,
    hthird, hfourth]
  simp only [List.append_assoc, Nat.add_sub_cancel_left]

/-! ## Words in numbers -/

def Registers.ofState (s : Sha256State) : Registers :=
  ⟨s.a.toNat, s.b.toNat, s.c.toNat, s.d.toNat, s.e.toNat, s.f.toNat, s.g.toNat, s.h.toNat⟩

theorem init_eq : Registers.init = .ofState .init := rfl

theorem toWord_rotr32 (x : ℤ) {n : ℕ} (hpos : 0 < n) (hlt : n < 32) :
    toWord (rotr32 x n) = ContentAddressing.rotr32 (toWord x) n := by
  rw [rotr32, ContentAddressing.rotr32, toWord_bitOr, toWord_shiftRight, toWord_shiftLeft, Nat.mod_eq_of_lt hlt,
    Nat.mod_eq_of_lt (by omega)]

/-- The array begins with these words. -/
structure Loaded (w : List ℤ) (words : List Word) : Prop where
  length : w.length = 64
  take : w.take words.length = words.map fun word ↦ (word.toNat : ℤ)

theorem Loaded.getD {w : List ℤ} {words : List Word} (h : Loaded w words) {i : ℕ} (hi : i < words.length) :
    w.getD i 0 = ((words.getD i 0).toNat : ℤ) := by
  have hget : (w.take words.length)[i]? = w[i]? := List.getElem?_take_of_lt hi
  rw [h.take, List.getElem?_map] at hget
  rw [List.getD_eq_getElem?_getD, ← hget, List.getD_eq_getElem?_getD, List.getElem?_eq_getElem hi]
  rfl

theorem Loaded.store {w : List ℤ} {words : List Word} (h : Loaded w words) (hlt : words.length < 64) {value : ℤ}
    {word : Word} (hvalue : toWord value = word) : Loaded (store w words.length value) (words ++ [word]) := by
  have hlength : words.length < w.length := by
    rw [h.length]
    exact hlt
  refine ⟨by rw [Numbers.store, List.length_set, h.length], ?_⟩
  rw [Numbers.store, shiftRight_zero, hvalue, List.length_append, List.length_singleton, List.take_add_one, List.take_set,
    List.set_eq_of_length_le (by rw [List.length_take]; omega), h.take,
    List.getElem?_set_self hlength, List.map_append]
  rfl

/-! ## One block -/

theorem getUint32_eq {bytes : List Byte} {offset j : ℕ} (hj : j < 16) (hlength : offset + 64 ≤ bytes.length) :
    toWord (getUint32 bytes (offset + j * 4)) = (blockWords ((bytes.drop offset).take 64)).getD j 0 := by
  have hget (k : ℕ) (hk : k < 4) : ((((bytes.drop offset).take 64).drop (4 * j)).take 4)[k]? =
      some (bytes.getD (offset + j * 4 + k) 0) := by
    have hlt : offset + j * 4 + k < bytes.length := by omega
    rw [List.getElem?_take_of_lt hk, List.getElem?_drop, List.getElem?_take_of_lt (by omega), List.getElem?_drop,
      List.getD_eq_getElem?_getD, show offset + (4 * j + k) = offset + j * 4 + k by ring,
      List.getElem?_eq_getElem hlt]
    rfl
  have hfour : (((bytes.drop offset).take 64).drop (4 * j)).take 4 =
      [bytes.getD (offset + j * 4) 0, bytes.getD (offset + j * 4 + 1) 0, bytes.getD (offset + j * 4 + 2) 0,
        bytes.getD (offset + j * 4 + 3) 0] := by
    refine List.ext_getElem? fun k ↦ ?_
    match k with
    | 0 => exact hget 0 (by decide)
    | 1 => exact hget 1 (by decide)
    | 2 => exact hget 2 (by decide)
    | 3 => exact hget 3 (by decide)
    | k + 4 =>
      rw [List.getElem?_eq_none (by rw [List.length_take]; omega)]
      rfl
  rw [blockWords_eq 16 (by rw [List.length_take, List.length_drop]; omega), List.getD_eq_getElem?_getD,
    List.getElem?_map, List.getElem?_range hj, Option.map_some, Option.getD_some, hfour, ofBits_bits_four, getUint32,
    toWord_natCast]

theorem loadWords_eq {bytes : List Byte} {offset : ℕ} (hlength : offset + 64 ≤ bytes.length) {w : List ℤ}
    (hw : w.length = 64) : Loaded ((List.range 16).foldl (loadWord bytes offset) w)
      (blockWords ((bytes.drop offset).take 64)) := by
  have hwords : (blockWords ((bytes.drop offset).take 64)).length = 16 := by
    rw [blockWords_eq 16 (by rw [List.length_take, List.length_drop]; omega), List.length_map, List.length_range]
  have hload : ∀ n ≤ 16, Loaded ((List.range n).foldl (loadWord bytes offset) w)
      ((blockWords ((bytes.drop offset).take 64)).take n) := by
    intro n
    induction n with
    | zero => exact fun _ ↦ ⟨hw, rfl⟩
    | succ n ih =>
      intro hn
      have hn' : n < (blockWords ((bytes.drop offset).take 64)).length := by omega
      have hloaded := ih (by omega)
      have htake : ((blockWords ((bytes.drop offset).take 64)).take n).length = n := by
        rw [List.length_take]
        omega
      rw [List.range_succ, List.foldl_concat, ← List.take_concat_get' _ _ hn']
      have hstore := hloaded.store (by omega) (getUint32_eq (j := n) hn hlength)
      rw [htake, List.getD_eq_getElem _ _ hn'] at hstore
      exact hstore
  have hall := hload 16 le_rfl
  rwa [List.take_of_length_le hwords.le] at hall

theorem extendWord_eq {w : List ℤ} {words : List Word} (h : Loaded w words) (hge : 16 ≤ words.length)
    (hlt : words.length < 64) : Loaded (extendWord w words.length) (extend words) := by
  rw [extendWord, extend]
  refine h.store hlt ?_
  simp only [toWord_shiftRight, toWord_add, toWord_bitXor, toWord_rotr32 _ (by decide : 0 < 7) (by decide),
    toWord_rotr32 _ (by decide : 0 < 18) (by decide), toWord_rotr32 _ (by decide : 0 < 17) (by decide),
    toWord_rotr32 _ (by decide : 0 < 19) (by decide), h.getD (show words.length - 15 < words.length by omega),
    h.getD (show words.length - 2 < words.length by omega), h.getD (show words.length - 16 < words.length by omega),
    h.getD (show words.length - 7 < words.length by omega), toWord_toNat]
  rfl

theorem length_extend (words : List Word) : (extend words).length = words.length + 1 := by
  rw [extend]
  exact List.length_append

theorem schedule_eq {w : List ℤ} {words : List Word} (h : Loaded w words) (hlength : words.length = 16) :
    Loaded ((List.range' 16 48).foldl extendWord w) (extend^[48] words) := by
  have hextend : ∀ n ≤ 48, Loaded ((List.range' 16 n).foldl extendWord w) (extend^[n] words) ∧
      (extend^[n] words).length = 16 + n := by
    intro n
    induction n with
    | zero => exact fun _ ↦ ⟨h, hlength⟩
    | succ n ih =>
      intro hn
      obtain ⟨hloaded, hlen⟩ := ih (by omega)
      have hstep := extendWord_eq hloaded (by omega) (by omega)
      rw [List.range'_concat, List.foldl_concat, Function.iterate_succ_apply', length_extend, hlen, Nat.one_mul,
        ← Nat.add_assoc]
      rw [hlen] at hstep
      exact ⟨hstep, rfl⟩
  exact (hextend 48 le_rfl).1

theorem round_eq {w : List ℤ} {words : List Word} (h : Loaded w words) {i : ℕ} (hi : i < words.length)
    (s : Sha256State) : round w (.ofState s) i =
      .ofState (ContentAddressing.round s (SHA256_K.getD i 0, words.getD i 0)) := by
  simp only [round, ContentAddressing.round, Registers.ofState, shiftRight_zero, toWord_add, toWord_bitXor,
    toWord_bitAnd, toWord_bitNot, toWord_toNat, h.getD hi,
    toWord_rotr32 _ (by decide : 0 < 6) (by decide), toWord_rotr32 _ (by decide : 0 < 11) (by decide),
    toWord_rotr32 _ (by decide : 0 < 25) (by decide), toWord_rotr32 _ (by decide : 0 < 2) (by decide),
    toWord_rotr32 _ (by decide : 0 < 13) (by decide), toWord_rotr32 _ (by decide : 0 < 22) (by decide)]

theorem rounds_eq {w : List ℤ} {words : List Word} (h : Loaded w words) (hlength : words.length = 64)
    (s : Sha256State) : (List.range 64).foldl (round w) (.ofState s) =
      .ofState ((SHA256_K.zip words).foldl ContentAddressing.round s) := by
  have hzip : SHA256_K.zip words = (List.range 64).map fun i ↦ (SHA256_K.getD i 0, words.getD i 0) := by
    refine List.ext_getElem (by rw [List.length_zip, hlength]; rfl) fun i hi hi' ↦ ?_
    rw [List.getElem_zip, List.getElem_map, List.getElem_range, List.getD_eq_getElem, List.getD_eq_getElem]
  rw [hzip]
  have hrounds : ∀ is : List ℕ, (∀ i ∈ is, i < words.length) → ∀ s : Sha256State,
      is.foldl (round w) (.ofState s) = .ofState ((is.map fun i ↦ (SHA256_K.getD i 0, words.getD i 0)).foldl
        ContentAddressing.round s) := by
    intro is
    induction is with
    | nil => exact fun _ _ ↦ rfl
    | cons i is ih =>
      intro hlt s
      rw [List.foldl_cons, List.map_cons, List.foldl_cons, round_eq h (hlt i List.mem_cons_self)]
      exact ih (fun j hj ↦ hlt j (List.mem_cons_of_mem _ hj)) _
  exact hrounds _ (fun i hi ↦ hlength ▸ List.mem_range.mp hi) s

/-- **One block in numbers is one block in words**, whatever the array held before. -/
theorem block_eq {bytes : List Byte} {offset : ℕ} (hlength : offset + 64 ≤ bytes.length) {w : List ℤ}
    (hw : w.length = 64) (s : Sha256State) : ∃ w' : List ℤ, w'.length = 64 ∧
      block bytes (.ofState s, w) offset = (.ofState (compress s ((bytes.drop offset).take 64)), w') := by
  have hwords : (blockWords ((bytes.drop offset).take 64)).length = 16 := by
    rw [blockWords_eq 16 (by rw [List.length_take, List.length_drop]; omega), List.length_map, List.length_range]
  have hschedule := schedule_eq (loadWords_eq hlength hw) hwords
  have hlen : (extend^[48] (blockWords ((bytes.drop offset).take 64))).length = 64 := by
    have hiterate : ∀ n, (extend^[n] (blockWords ((bytes.drop offset).take 64))).length = 16 + n := by
      intro n
      induction n with
      | zero => exact hwords
      | succ n ih => rw [Function.iterate_succ_apply', length_extend, ih, Nat.add_assoc]
    exact hiterate 48
  refine ⟨_, hschedule.length, ?_⟩
  rw [block]
  dsimp only
  rw [rounds_eq hschedule hlen, compress, schedule]
  simp only [Registers.ofState, shiftRight_zero, toWord_add, toWord_toNat]

/-! ## The digest -/

theorem blocks_eq (bytes : List Byte) (n : ℕ) (hn : 64 * n ≤ bytes.length) : ∃ w : List ℤ, w.length = 64 ∧
    ((List.range n).map (64 * ·)).foldl (block bytes) (.init, List.replicate 64 0) =
      (.ofState (((List.range n).map fun i ↦ (bytes.drop (64 * i)).take 64).foldl compress .init), w) := by
  induction n with
  | zero => exact ⟨_, List.length_replicate, rfl⟩
  | succ n ih =>
    obtain ⟨w, hw, heq⟩ := ih (by omega)
    rw [List.range_succ, List.map_append, List.map_append, List.map_singleton, List.map_singleton, List.foldl_concat,
      List.foldl_concat, heq]
    exact block_eq (by omega) hw _

theorem word_text (word : Word) : padStart 8 (toString16 word.toNat) = hexWord word := by
  rw [padStart_toString16 7 word.isLt]
  simp only [fixedDigits, hexWord, Nat.div_div_eq_div_mul, List.nil_append, List.cons_append]

theorem sha256Hex_eq_words (data : List Byte) : sha256Hex data = ContentAddressing.sha256Hex data := by
  have hblocks : (padded data).length = 64 * ((padded data).length / 64) := by
    rw [length_padded]
    omega
  obtain ⟨w, -, heq⟩ := blocks_eq (padded data) _ hblocks.ge
  rw [sha256Hex, padBytes_eq]
  rw [heq, ContentAddressing.sha256Hex, toChunks_eq (by decide) _ hblocks]
  generalize ((List.range ((padded data).length / 64)).map fun i ↦ ((padded data).drop (64 * i)).take 64).foldl
    compress .init = s
  simp only [Registers.toList, Registers.ofState, Sha256State.words, List.flatMap_cons, List.flatMap_nil, word_text,
    Int.toNat_natCast]

/-- **`sha256Hex` is the SHA-256 of FIPS 180-4**, in lower-case hexadecimal. -/
theorem sha256Hex_eq_fips (data : List Byte) : sha256Hex data = hexText (Fips.sha256 (bits data)) :=
  (sha256Hex_eq_words data).trans (sha256Hex_eq_standard data)

end Vibestudio.ContentAddressing.Numbers

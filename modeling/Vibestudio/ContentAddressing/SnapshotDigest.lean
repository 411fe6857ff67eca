import Vibestudio.ContentAddressing.Sha256
import Vibestudio.ContentAddressing.CanonicalJson
import Vibestudio.Js.Utf8

/-!
# Snapshot digests

`packages/content-addressing/src/snapshot-digest.ts`: the canonical binary encoding of a set of
files. Every field of variable width is framed by its length, so the encoding of an accepted list
can be cut back into its entries, and what it keeps of an entry is `SameFrame`. Mode, size and
content hash are kept whole. Of the path only the scalar values are kept: paths that differ in lone
surrogates alone are framed alike, and the encoding is injective on the lists whose paths have none.

Modes and sizes are integers; the source refuses every other number.
-/

namespace Vibestudio.ContentAddressing

open Js

structure CanonicalSnapshotEntry where
  path : JsString
  mode : ℤ
  size : ℤ
  contentHash : JsString
deriving DecidableEq

inductive SnapshotError where
  | uint32 (value : ℤ)
  | byteLength (value : ℤ)
  | contentHash (value : JsString)
  | duplicatePath (path : JsString)
  | emptyPath
  | mode (mode : ℤ)
deriving DecidableEq

/-- An integer in a template string. -/
def integerText (value : ℤ) : JsString :=
  if value < 0 then 45 :: decimalText value.natAbs else decimalText value.natAbs

def SnapshotError.message : SnapshotError → JsString
  | .uint32 value => lit "Canonical snapshot integer is outside uint32: " ++ integerText value
  | .byteLength value => lit "Canonical snapshot byte length is invalid: " ++ integerText value
  | .contentHash value => lit "Canonical snapshot content hash is not lowercase SHA-256: " ++ value
  | .duplicatePath path => lit "Canonical snapshot contains duplicate path " ++ quote path
  | .emptyPath => lit "Canonical snapshot path cannot be empty"
  | .mode value => lit "Canonical snapshot mode is not a regular file mode: " ++ integerText value

def MAGIC : List Byte := utf8Encode (lit "vibestudio-snapshot\x00v1\x00sha256\x00")

def u32 (value : ℤ) : Except SnapshotError (List Byte) :=
  if value < 0 ∨ 0xffffffff < value then .error (.uint32 value)
  else .ok (uint32Bytes (BitVec.ofNat 32 value.toNat))

/-- `Number.isSafeInteger` bounds the value by `2 ^ 53 - 1`. -/
def u64 (value : ℤ) : Except SnapshotError (List Byte) :=
  if value < 0 ∨ 2 ^ 53 - 1 < value then .error (.byteLength value)
  else .ok (uint32Bytes (BitVec.ofNat 32 (value.toNat / 0x100000000)) ++
    uint32Bytes (BitVec.ofNat 32 value.toNat))

/-- `Number.parseInt(pair, 16)` of every two digits. -/
def pairBytes : JsString → List Byte
  | a :: b :: rest =>
    Fin.ofNat 256 (16 * (hexValue? a).getD 0 + (hexValue? b).getD 0) :: pairBytes rest
  | _ => []

def hexBytes (value : JsString) : Except SnapshotError (List Byte) :=
  if isHexOfLength 64 value then .ok (pairBytes value) else .error (.contentHash value)

/-- The parts one entry pushes. -/
def entryBytes (entry : CanonicalSnapshotEntry) : Except SnapshotError (List Byte) := do
  let pathBytes := utf8Encode entry.path
  let length ← u32 pathBytes.length
  let mode ← u32 entry.mode
  let size ← u64 entry.size
  let hash ← hexBytes entry.contentHash
  return length ++ pathBytes ++ mode ++ size ++ hash

/-- The loop over the sorted entries: the parts it pushes from here on. -/
def entriesBytes (seen : List JsString) :
    List CanonicalSnapshotEntry → Except SnapshotError (List Byte)
  | [] => .ok []
  | entry :: rest =>
    if entry.path ∈ seen then .error (.duplicatePath entry.path)
    else if entry.path = [] then .error .emptyPath
    else if entry.mode ≠ 0o100644 ∧ entry.mode ≠ 0o100755 then .error (.mode entry.mode)
    else do
      let bytes ← entryBytes entry
      let after ← entriesBytes (entry.path :: seen) rest
      return bytes ++ after

/-- `[...entries].sort((left, right) => compareUtf16CodeUnits(left.path, right.path))`. -/
def sortByPath (entries : List CanonicalSnapshotEntry) : List CanonicalSnapshotEntry :=
  entries.insertionSort fun a b ↦ compareUtf16CodeUnits a.path b.path ≤ 0

/-- `concat(parts)`, the bytes fed to the hash. -/
def snapshotPreimage (entries : List CanonicalSnapshotEntry) : Except SnapshotError (List Byte) := do
  let count ← u32 (sortByPath entries).length
  let bytes ← entriesBytes [] (sortByPath entries)
  return MAGIC ++ count ++ bytes

def canonicalSnapshotDigest (entries : List CanonicalSnapshotEntry) :
    Except SnapshotError JsString :=
  (snapshotPreimage entries).map fun bytes ↦ lit "v1-sha256:" ++ sha256Hex bytes

example : canonicalSnapshotDigest [] = .ok (lit
    "v1-sha256:ff00ea91bf412654ad2bc2e13f7b1ebe9fb30da53bc54729420a166ba6c576cb") := by
  decide +kernel

/-! ## What the encoding keeps -/

/-- The frame of an entry that passes every check. -/
def frame (entry : CanonicalSnapshotEntry) : List Byte :=
  uint32Bytes (BitVec.ofNat 32 (utf8Encode entry.path).length) ++ (utf8Encode entry.path ++
    (uint32Bytes (BitVec.ofNat 32 entry.mode.toNat) ++
      (uint32Bytes (BitVec.ofNat 32 (entry.size.toNat / 0x100000000)) ++
        (uint32Bytes (BitVec.ofNat 32 entry.size.toNat) ++ pairBytes entry.contentHash))))

/-- The checks on one entry. -/
structure Admissible (entry : CanonicalSnapshotEntry) : Prop where
  path_ne : entry.path ≠ []
  mode : entry.mode = 0o100644 ∨ entry.mode = 0o100755
  pathBytes : (utf8Encode entry.path).length ≤ 0xffffffff
  size_nonneg : 0 ≤ entry.size
  size_le : entry.size ≤ 2 ^ 53 - 1
  contentHash : isHexOfLength 64 entry.contentHash = true

/-- Two entries with the same fields, up to lone surrogates of the path. -/
structure SameFrame (a b : CanonicalSnapshotEntry) : Prop where
  path : scalarValues a.path = scalarValues b.path
  mode : a.mode = b.mode
  size : a.size = b.size
  contentHash : a.contentHash = b.contentHash

theorem frame_eq_of_sameFrame {a b : CanonicalSnapshotEntry} (h : SameFrame a b) :
    frame a = frame b := by
  rw [frame, frame, utf8Encode_eq_iff.mpr h.path, h.mode, h.size, h.contentHash]

theorem uint32Bytes_append_inj {v w : Word} {x y : List Byte}
    (h : uint32Bytes v ++ x = uint32Bytes w ++ y) : v = w ∧ x = y := by
  have hv := v.isLt
  have hw := w.isLt
  simp only [uint32Bytes, List.cons_append, List.nil_append, List.cons.injEq, Fin.ext_iff,
    Fin.val_ofNat] at h
  exact ⟨BitVec.eq_of_toNat_eq (by omega), h.2.2.2.2⟩

/-- A number below `2 ^ 32` is read back from its four bytes. -/
theorem uint32Bytes_ofNat_append_inj {m n : ℕ} {x y : List Byte} (hm : m ≤ 0xffffffff)
    (hn : n ≤ 0xffffffff)
    (h : uint32Bytes (BitVec.ofNat 32 m) ++ x = uint32Bytes (BitVec.ofNat 32 n) ++ y) :
    m = n ∧ x = y := by
  obtain ⟨hv, hxy⟩ := uint32Bytes_append_inj h
  have := congrArg BitVec.toNat hv
  rw [BitVec.toNat_ofNat, BitVec.toNat_ofNat] at this
  exact ⟨by omega, hxy⟩

theorem hexValue?_lower {c : CodeUnit} (h : isLowerHex c = true) :
    ∃ n, hexValue? c = some n ∧ n < 16 ∧ hexDigit n = c := by
  rw [isLowerHex, Bool.or_eq_true] at h
  rw [hexValue?]
  by_cases hd : isDigit c = true
  · have hr : 48 ≤ c.val ∧ c.val ≤ 57 := of_decide_eq_true hd
    refine ⟨c.val - 48, if_pos hd, by omega, Fin.ext ?_⟩
    rw [hexDigit, if_pos (by omega), Fin.val_ofNat]
    omega
  · have hr : 97 ≤ c.val ∧ c.val ≤ 102 := of_decide_eq_true (h.resolve_left hd)
    refine ⟨c.val - 87, by rw [if_neg hd, if_pos hr], by omega, Fin.ext ?_⟩
    rw [hexDigit, if_neg (by omega), Fin.val_ofNat]
    omega

theorem length_pairBytes (s : JsString) : (pairBytes s).length = s.length / 2 := by
  induction s using pairBytes.induct with
  | case1 a b rest ih =>
    rw [pairBytes, List.length_cons, ih, List.length_cons, List.length_cons]
    omega
  | case2 s hs =>
    match s with
    | [] => rfl
    | [_] => simp [pairBytes]
    | a :: b :: rest => exact absurd rfl (hs a b rest)

/-- Hexadecimal texts of one length are read back from their bytes. -/
theorem pairBytes_inj {s t : JsString} (hs : s.all isLowerHex = true) (ht : t.all isLowerHex = true)
    (hlen : s.length = t.length) (heven : 2 ∣ s.length) (h : pairBytes s = pairBytes t) : s = t := by
  induction s using pairBytes.induct generalizing t with
  | case1 a b rest ih =>
    obtain ⟨c, d, rest', rfl⟩ : ∃ c d rest', t = c :: d :: rest' := by
      match t, hlen with
      | c :: d :: rest', _ => exact ⟨c, d, rest', rfl⟩
    simp only [List.all_cons, Bool.and_eq_true] at hs ht
    simp only [List.length_cons] at hlen heven
    obtain ⟨i, hi, hi16, rfl⟩ := hexValue?_lower hs.1
    obtain ⟨j, hj, hj16, rfl⟩ := hexValue?_lower hs.2.1
    obtain ⟨k, hk, hk16, rfl⟩ := hexValue?_lower ht.1
    obtain ⟨l, hl, hl16, rfl⟩ := hexValue?_lower ht.2.1
    rw [pairBytes, pairBytes, hi, hj, hk, hl, List.cons.injEq, Fin.ext_iff, Fin.val_ofNat,
      Fin.val_ofNat] at h
    simp only [Option.getD_some] at h
    obtain ⟨rfl, rfl⟩ : i = k ∧ j = l := by omega
    rw [ih hs.2.2 ht.2.2 (by omega) (by omega) h.2]
  | case2 s hs' =>
    match s, t, hlen with
    | [], [], _ => rfl
    | [_], _, _ => simp at heven
    | a :: b :: rest, _, _ => exact absurd rfl (hs' a b rest)

/-- **A frame is cut off whole**, and it is the frame of one entry up to lone surrogates. -/
theorem frame_append_inj {a b : CanonicalSnapshotEntry} {x y : List Byte} (ha : Admissible a)
    (hb : Admissible b) (h : frame a ++ x = frame b ++ y) : SameFrame a b ∧ x = y := by
  have hmode : ∀ {e : CanonicalSnapshotEntry}, Admissible e → 0 ≤ e.mode ∧ e.mode ≤ 0xffffffff := by
    intro e he
    rcases he.mode with hm | hm <;> rw [hm] <;> decide
  have hhash : ∀ {e : CanonicalSnapshotEntry}, Admissible e →
      e.contentHash.length = 64 ∧ e.contentHash.all isLowerHex = true := by
    intro e he
    simpa [isHexOfLength] using he.contentHash
  simp only [frame, List.append_assoc] at h
  obtain ⟨hlen, h⟩ := uint32Bytes_ofNat_append_inj ha.pathBytes hb.pathBytes h
  obtain ⟨hpath, h⟩ := List.append_inj h hlen
  have hma := hmode ha
  have hmb := hmode hb
  obtain ⟨hm, h⟩ := uint32Bytes_ofNat_append_inj (by omega) (by omega) h
  have ha₀ := ha.size_nonneg
  have ha₁ := ha.size_le
  have hb₀ := hb.size_nonneg
  have hb₁ := hb.size_le
  obtain ⟨hhigh, h⟩ := uint32Bytes_ofNat_append_inj (by omega) (by omega) h
  obtain ⟨hlow, h⟩ := uint32Bytes_append_inj h
  have hlow := congrArg BitVec.toNat hlow
  rw [BitVec.toNat_ofNat, BitVec.toNat_ofNat] at hlow
  obtain ⟨hla, hxa⟩ := hhash ha
  obtain ⟨hlb, hxb⟩ := hhash hb
  obtain ⟨hdigest, hxy⟩ := List.append_inj h (by rw [length_pairBytes, length_pairBytes, hla, hlb])
  refine ⟨⟨utf8Encode_eq_iff.mp hpath, by omega, by omega, ?_⟩, hxy⟩
  exact pairBytes_inj hxa hxb (hla.trans hlb.symm) (by omega) hdigest

/-- Framed lists of one length encode alike entry by entry. -/
theorem flatMap_frame_eq_iff {as bs : List CanonicalSnapshotEntry} (hlen : as.length = bs.length)
    (ha : ∀ e ∈ as, Admissible e) (hb : ∀ e ∈ bs, Admissible e) :
    as.flatMap frame = bs.flatMap frame ↔ List.Forall₂ SameFrame as bs := by
  constructor
  · intro h
    induction as generalizing bs with
    | nil =>
      obtain rfl := List.eq_nil_of_length_eq_zero hlen.symm
      exact .nil
    | cons a as ih =>
      obtain ⟨b, bs, rfl⟩ := List.exists_cons_of_length_eq_add_one hlen.symm
      rw [List.flatMap_cons, List.flatMap_cons] at h
      obtain ⟨ha₀, has⟩ := List.forall_mem_cons.mp ha
      obtain ⟨hb₀, hbs⟩ := List.forall_mem_cons.mp hb
      obtain ⟨hsame, htail⟩ := frame_append_inj ha₀ hb₀ h
      exact .cons hsame (ih (Nat.succ.inj hlen) has hbs htail)
  · intro h
    clear ha hb hlen
    induction h with
    | nil => rfl
    | cons hab _ ih => rw [List.flatMap_cons, List.flatMap_cons, frame_eq_of_sameFrame hab, ih]

/-! ## Accepted lists -/

theorem u32_eq_ok {value : ℤ} {bytes : List Byte} (h : u32 value = .ok bytes) :
    0 ≤ value ∧ value ≤ 0xffffffff ∧ bytes = uint32Bytes (BitVec.ofNat 32 value.toNat) := by
  rw [u32] at h
  split_ifs at h with hv
  exact ⟨by omega, by omega, (Except.ok.inj h).symm⟩

theorem u64_eq_ok {value : ℤ} {bytes : List Byte} (h : u64 value = .ok bytes) :
    0 ≤ value ∧ value ≤ 2 ^ 53 - 1 ∧
      bytes = uint32Bytes (BitVec.ofNat 32 (value.toNat / 0x100000000)) ++
        uint32Bytes (BitVec.ofNat 32 value.toNat) := by
  rw [u64] at h
  split_ifs at h with hv
  exact ⟨by omega, by omega, (Except.ok.inj h).symm⟩

theorem hexBytes_eq_ok {value : JsString} {bytes : List Byte} (h : hexBytes value = .ok bytes) :
    isHexOfLength 64 value = true ∧ bytes = pairBytes value := by
  rw [hexBytes] at h
  split_ifs at h with hv
  exact ⟨hv, (Except.ok.inj h).symm⟩

/-- An accepted entry contributes its frame. -/
theorem entryBytes_eq_ok {entry : CanonicalSnapshotEntry} {bytes : List Byte}
    (h : entryBytes entry = .ok bytes) (hpath : entry.path ≠ [])
    (hmode : entry.mode = 0o100644 ∨ entry.mode = 0o100755) :
    Admissible entry ∧ bytes = frame entry := by
  obtain ⟨length, hl, h⟩ := Js.bind_eq_ok.mp h
  obtain ⟨mode, hm, h⟩ := Js.bind_eq_ok.mp h
  obtain ⟨size, hs, h⟩ := Js.bind_eq_ok.mp h
  obtain ⟨hash, hh, h⟩ := Js.bind_eq_ok.mp h
  obtain ⟨_, hl, rfl⟩ := u32_eq_ok hl
  obtain ⟨_, _, rfl⟩ := u32_eq_ok hm
  obtain ⟨hs₀, hs₁, rfl⟩ := u64_eq_ok hs
  obtain ⟨hhex, rfl⟩ := hexBytes_eq_ok hh
  obtain rfl := Except.ok.inj h
  refine ⟨⟨hpath, hmode, by omega, hs₀, hs₁, hhex⟩, ?_⟩
  simp only [frame, List.append_assoc, Int.toNat_natCast]

theorem entriesBytes_eq_ok {entries : List CanonicalSnapshotEntry} : ∀ {seen : List JsString}
    {bytes : List Byte}, entriesBytes seen entries = .ok bytes →
      (∀ e ∈ entries, Admissible e) ∧ bytes = entries.flatMap frame ∧
        (entries.map CanonicalSnapshotEntry.path).Nodup ∧ ∀ e ∈ entries, e.path ∉ seen := by
  induction entries with
  | nil =>
    intro seen bytes h
    obtain rfl := Except.ok.inj h
    simp
  | cons entry rest ih =>
    intro seen bytes h
    rw [entriesBytes] at h
    split_ifs at h with hseen hpath hmode
    obtain ⟨own, hown, h⟩ := Js.bind_eq_ok.mp h
    obtain ⟨after, hafter, h⟩ := Js.bind_eq_ok.mp h
    obtain rfl := Except.ok.inj h
    obtain ⟨hadm, rfl⟩ := entryBytes_eq_ok hown hpath (by tauto)
    obtain ⟨hrest, rfl, hnodup, hnew⟩ := ih hafter
    refine ⟨List.forall_mem_cons.mpr ⟨hadm, hrest⟩, rfl, ?_, ?_⟩
    · rw [List.map_cons, List.nodup_cons, List.mem_map]
      exact ⟨fun ⟨e, he, hp⟩ ↦ hnew e he (hp ▸ List.mem_cons_self), hnodup⟩
    · exact List.forall_mem_cons.mpr
        ⟨hseen, fun e he hmem ↦ hnew e he (List.mem_cons_of_mem _ hmem)⟩

theorem sortByPath_perm (entries : List CanonicalSnapshotEntry) :
    (sortByPath entries).Perm entries := List.perm_insertionSort _ _

theorem sorted_sortByPath (entries : List CanonicalSnapshotEntry) :
    (sortByPath entries).Pairwise fun a b ↦ a.path ≤ b.path := by
  have : Std.Total fun a b : CanonicalSnapshotEntry ↦ compareUtf16CodeUnits a.path b.path ≤ 0 :=
    ⟨fun a b ↦ utf16Order.total a.path b.path⟩
  have : IsTrans CanonicalSnapshotEntry fun a b ↦ compareUtf16CodeUnits a.path b.path ≤ 0 :=
    ⟨fun a b c ↦ utf16Order.trans a.path b.path c.path⟩
  exact (List.pairwise_insertionSort _ entries).imp fun hab ↦ compareUtf16CodeUnits_nonpos.mp hab

/-- **What an accepted list is**, and the bytes it gives. -/
theorem snapshotPreimage_eq_ok {entries : List CanonicalSnapshotEntry} {bytes : List Byte}
    (h : snapshotPreimage entries = .ok bytes) :
    (∀ e ∈ sortByPath entries, Admissible e) ∧ (sortByPath entries).length ≤ 0xffffffff ∧
      (entries.map CanonicalSnapshotEntry.path).Nodup ∧
      bytes = MAGIC ++ (uint32Bytes (BitVec.ofNat 32 (sortByPath entries).length) ++
        (sortByPath entries).flatMap frame) := by
  obtain ⟨count, hcount, h⟩ := Js.bind_eq_ok.mp h
  obtain ⟨parts, hparts, h⟩ := Js.bind_eq_ok.mp h
  obtain rfl := Except.ok.inj h
  obtain ⟨_, hcount, rfl⟩ := u32_eq_ok hcount
  obtain ⟨hadm, rfl, hnodup, _⟩ := entriesBytes_eq_ok hparts
  refine ⟨hadm, by omega, ?_, ?_⟩
  · exact ((sortByPath_perm entries).map _).nodup_iff.mp hnodup
  · rw [Int.toNat_natCast, List.append_assoc]

/-- Lists with the same entries and different paths are sorted alike. -/
theorem sortByPath_eq_of_mem {a b : List CanonicalSnapshotEntry}
    (ha : (a.map CanonicalSnapshotEntry.path).Nodup) (hb : (b.map CanonicalSnapshotEntry.path).Nodup)
    (h : ∀ e, e ∈ a ↔ e ∈ b) : sortByPath a = sortByPath b := by
  have hperm : a.Perm b := (List.perm_ext_iff_of_nodup (List.Nodup.of_map _ ha)
    (List.Nodup.of_map _ hb)).mpr h
  have hstrict : ∀ {l : List CanonicalSnapshotEntry}, (l.map CanonicalSnapshotEntry.path).Nodup →
      (sortByPath l).Pairwise fun a b ↦ a.path < b.path := by
    intro l hl
    have hnd := ((sortByPath_perm l).map CanonicalSnapshotEntry.path).nodup_iff.mpr hl
    exact (sorted_sortByPath l).imp₂ (fun _ _ hle hne ↦ lt_of_le_of_ne hle hne)
      (List.pairwise_map.mp hnd)
  exact List.Perm.eq_of_pairwise (fun _ _ _ _ hab hba ↦ absurd hab (lt_asymm hba))
    (hstrict ha) (hstrict hb) ((sortByPath_perm a).trans (hperm.trans (sortByPath_perm b).symm))

/-! ## Injectivity -/

variable {a b : List CanonicalSnapshotEntry} {x y : List Byte}

/-- **The encoding forgets the order and lone surrogates, and nothing else.** -/
theorem snapshotPreimage_eq_iff (ha : snapshotPreimage a = .ok x) (hb : snapshotPreimage b = .ok y) :
    x = y ↔ List.Forall₂ SameFrame (sortByPath a) (sortByPath b) := by
  obtain ⟨hadma, hca, _, rfl⟩ := snapshotPreimage_eq_ok ha
  obtain ⟨hadmb, hcb, _, rfl⟩ := snapshotPreimage_eq_ok hb
  constructor
  · intro h
    obtain ⟨hlen, h⟩ := uint32Bytes_ofNat_append_inj hca hcb (List.append_cancel_left h)
    exact (flatMap_frame_eq_iff hlen hadma hadmb).mp h
  · intro h
    rw [h.length_eq, (flatMap_frame_eq_iff h.length_eq hadma hadmb).mpr h]

/-- Accepted lists of the same entries have the same bytes, whatever their order. -/
theorem snapshotPreimage_eq_of_mem (ha : snapshotPreimage a = .ok x)
    (hb : snapshotPreimage b = .ok y) (h : ∀ e, e ∈ a ↔ e ∈ b) : x = y := by
  obtain ⟨_, _, hna, rfl⟩ := snapshotPreimage_eq_ok ha
  obtain ⟨_, _, hnb, rfl⟩ := snapshotPreimage_eq_ok hb
  rw [sortByPath_eq_of_mem hna hnb h]

/-- **Injective on well-formed paths.** -/
theorem snapshotPreimage_injOn_wellFormed (ha : snapshotPreimage a = .ok x)
    (hb : snapshotPreimage b = .ok y) (hwa : ∀ e ∈ a, isWellFormed e.path = true)
    (hwb : ∀ e ∈ b, isWellFormed e.path = true) : x = y ↔ ∀ e, e ∈ a ↔ e ∈ b := by
  refine ⟨fun hxy ↦ ?_, snapshotPreimage_eq_of_mem ha hb⟩
  have key : ∀ {as bs : List CanonicalSnapshotEntry}, List.Forall₂ SameFrame as bs →
      (∀ e ∈ as, isWellFormed e.path = true) → (∀ e ∈ bs, isWellFormed e.path = true) →
      as = bs := by
    intro as bs h
    induction h with
    | nil => exact fun _ _ ↦ rfl
    | @cons e f as bs hef _ ih =>
      intro hwa hwb
      obtain ⟨he, has⟩ := List.forall_mem_cons.mp hwa
      obtain ⟨hf, hbs⟩ := List.forall_mem_cons.mp hwb
      rw [ih has hbs]
      congr 1
      cases e
      cases f
      obtain ⟨hp, hm, hs, hh⟩ := hef
      obtain rfl := eq_of_scalarValues he hf hp
      obtain ⟨rfl, rfl, rfl⟩ : _ ∧ _ ∧ _ := ⟨hm, hs, hh⟩
      rfl
  have hsorted := key ((snapshotPreimage_eq_iff ha hb).mp hxy)
    (fun e he ↦ hwa e ((sortByPath_perm a).mem_iff.mp he))
    (fun e he ↦ hwb e ((sortByPath_perm b).mem_iff.mp he))
  intro e
  rw [← (sortByPath_perm a).mem_iff, hsorted, (sortByPath_perm b).mem_iff]

/-- **Exactly which lists are told apart**: all but those that differ, entry by entry in the order
of the paths, in lone surrogates of the paths alone. -/
theorem snapshotPreimage_injective_iff (ha : snapshotPreimage a = .ok x)
    (hb : snapshotPreimage b = .ok y) :
    (x = y ↔ ∀ e, e ∈ a ↔ e ∈ b) ↔
      (List.Forall₂ SameFrame (sortByPath a) (sortByPath b) → ∀ e, e ∈ a ↔ e ∈ b) := by
  rw [← snapshotPreimage_eq_iff ha hb]
  exact ⟨Iff.mp, fun h ↦ ⟨h, snapshotPreimage_eq_of_mem ha hb⟩⟩

/-- An empty file at a path. -/
def emptyFile (path : JsString) : CanonicalSnapshotEntry where
  path := path
  mode := 0o100644
  size := 0
  contentHash := lit "e3b0c44298fc1c149afbf4c8996fb92427ae41e4649b934ca495991b7852b855"

theorem emptyFile_accepted {path : JsString} (h : path = [0xD800] ∨ path = [0xD801]) :
    ∃ x, snapshotPreimage [emptyFile path] = .ok x ∧ snapshotPreimage [emptyFile [0xD800]] = .ok x := by
  have hsame : snapshotPreimage [emptyFile [0xD801]] = snapshotPreimage [emptyFile [0xD800]] := by
    decide +kernel
  have hok : (snapshotPreimage [emptyFile [0xD800]]).toOption.isSome = true := by decide +kernel
  obtain ⟨x, hx⟩ : ∃ x, snapshotPreimage [emptyFile [0xD800]] = .ok x := by
    cases hp : snapshotPreimage [emptyFile [0xD800]] with
    | error e =>
      rw [hp] at hok
      cases hok
    | ok x => exact ⟨x, rfl⟩
  rcases h with rfl | rfl
  · exact ⟨x, hx, hx⟩
  · exact ⟨x, hsame.trans hx, hx⟩

/-- Two files at the lone surrogates U+D800 and U+D801. -/
theorem lone_surrogates_collide : ¬∀ (a b : List CanonicalSnapshotEntry) (x y : List Byte),
    snapshotPreimage a = .ok x → snapshotPreimage b = .ok y →
    (x = y ↔ ∀ e, e ∈ a ↔ e ∈ b) := by
  intro h
  obtain ⟨x, hx, hx'⟩ := emptyFile_accepted (Or.inr rfl)
  have hmem := ((h _ _ x x hx hx').mp rfl (emptyFile [0xD801])).mp List.mem_cons_self
  exact absurd hmem (by decide)

theorem snapshotPreimage_injective_iff_lone :
    ∃ x, snapshotPreimage [emptyFile [0xD801]] = .ok x ∧
      snapshotPreimage [emptyFile [0xD800]] = .ok x ∧
      ((x = x ↔ ∀ e, e ∈ [emptyFile [0xD801]] ↔ e ∈ [emptyFile [0xD800]]) ↔
        (List.Forall₂ SameFrame (sortByPath [emptyFile [0xD801]])
          (sortByPath [emptyFile [0xD800]]) →
          ∀ e, e ∈ [emptyFile [0xD801]] ↔ e ∈ [emptyFile [0xD800]])) := by
  obtain ⟨x, hx, hx'⟩ := emptyFile_accepted (Or.inr rfl)
  exact ⟨x, hx, hx', snapshotPreimage_injective_iff hx hx'⟩

end Vibestudio.ContentAddressing

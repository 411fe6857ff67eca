import Mathlib
import Vibestudio.Js.CanonicalForm
import Vibestudio.Js.Parsed

/-!
# Canonical JSON of authority and mission digests

`packages/shared/src/canonicalJson.ts`. Strings and keys are normalized to NFC, keys are sorted by
the bytes of their UTF-8 encoding, and the result is rebuilt by assignment before `JSON.stringify`.
Numbers that are not finite and keys that collide after normalization are refused.

The Unicode tables behind `String.prototype.normalize` stay a parameter, `Nfc`. What is used of them
is that normalization is idempotent and that no string but `__proto__` normalizes to `__proto__`.

On values the serializer accepts, its text shows everything up to key order, normalization and the
sign of zero, except for two things. A member named `__proto__` never reaches the rebuilt object.
And UTF-8 cannot write a lone surrogate, so keys that differ only in lone surrogates compare equal
and stay in the order of the source: there a permutation of the keys does change the text. Both are
in `canonicalJson_decides_iff`.
-/

namespace Vibestudio.Shared

open Js

/-! ## Normalization Form C -/

/-- `String.prototype.normalize("NFC")`. -/
structure Nfc where
  normalize : JsString → JsString
  idem : ∀ s, normalize (normalize s) = normalize s
  proto_iff : ∀ s, normalize s = protoKey ↔ s = protoKey

/-! ## The order of the keys -/

/-- The loop over the two encodings: the first difference, or else the difference of the lengths. -/
def compareBytes : List Byte → List Byte → ℤ
  | x :: a, y :: b => if (x.val : ℤ) - y.val ≠ 0 then (x.val : ℤ) - y.val else compareBytes a b
  | a, b => (a.length : ℤ) - b.length

def compareUtf8 (left right : JsString) : ℤ := compareBytes (utf8Encode left) (utf8Encode right)

theorem compareBytes_cons (x y : Byte) (a b : List Byte) :
    compareBytes (x :: a) (y :: b)
      = if (x.val : ℤ) - y.val ≠ 0 then (x.val : ℤ) - y.val else compareBytes a b := rfl

theorem compareBytes_pos : ∀ a b : List Byte, 0 < compareBytes a b ↔ b < a
  | [], [] => by simp [compareBytes]
  | [], y :: b => by
    have hlen : compareBytes [] (y :: b) < 0 := by
      simp only [compareBytes, List.length_nil, List.length_cons]
      omega
    exact ⟨fun h ↦ absurd h (by omega), fun h ↦ absurd h (List.not_lt_nil _)⟩
  | x :: a, [] => by
    have hlen : 0 < compareBytes (x :: a) [] := by
      simp only [compareBytes, List.length_nil, List.length_cons]
      omega
    exact ⟨fun _ ↦ List.nil_lt_cons x a, fun _ ↦ hlen⟩
  | x :: a, y :: b => by
    rw [compareBytes_cons, List.cons_lt_cons_iff, Fin.lt_def]
    have ih := compareBytes_pos a b
    split_ifs with h
    · have hne : y ≠ x := by
        rintro rfl
        exact h (sub_self _)
      constructor
      · exact fun hlt ↦ Or.inl (by omega)
      · rintro (hlt | ⟨heq, -⟩)
        · omega
        · exact absurd heq hne
    · have hxy : y = x := Fin.ext (by omega)
      rw [ih]
      constructor
      · exact fun hlt ↦ Or.inr ⟨hxy, hlt⟩
      · rintro (hlt | ⟨-, hlt⟩)
        · omega
        · exact hlt

/-- The comparison is the lexicographic order of the bytes. -/
theorem compareBytes_nonpos (a b : List Byte) : compareBytes a b ≤ 0 ↔ a ≤ b := by
  rw [← not_lt, compareBytes_pos, not_lt]

/-- `keyed.sort((left, right) => compareUtf8(left.normalized, right.normalized))`. -/
def utf8Order : KeyOrder where
  le a b := compareUtf8 a b ≤ 0
  dec _ _ := inferInstance
  total a b := by
    rw [compareUtf8, compareUtf8, compareBytes_nonpos, compareBytes_nonpos]
    exact le_total _ _
  trans a b c := by
    rw [compareUtf8, compareUtf8, compareUtf8, compareBytes_nonpos, compareBytes_nonpos,
      compareBytes_nonpos]
    exact le_trans

/-- Tied keys are the keys with one encoding. -/
theorem utf8Order_tied {a b : JsString} : utf8Order.Tied a b ↔ utf8Encode a = utf8Encode b := by
  rw [KeyOrder.Tied]
  change compareBytes _ _ ≤ 0 ∧ compareBytes _ _ ≤ 0 ↔ _
  rw [compareBytes_nonpos, compareBytes_nonpos]
  exact ⟨fun h ↦ le_antisymm h.1 h.2, fun h ↦ ⟨h.le, h.ge⟩⟩

/-! ## The serializer -/

/-- What `canonicalJson` throws. -/
inductive CanonicalJsonError where
  | nonFinite
  | keyCollision (key : JsString)
  | rootUndefined
deriving DecidableEq

def CanonicalJsonError.message : CanonicalJsonError → JsString
  | .nonFinite => lit "Canonical JSON rejects non-finite numbers"
  | .keyCollision key => lit "Canonical JSON key collision after NFC normalization: " ++ key
  | .rootUndefined => lit "Canonical JSON root cannot be undefined"

/-- The loop over the sorted keys. The collision test comes before the child is looked at, and
`result` never gets a property `__proto__`. -/
def insertChildren : Props (Except CanonicalJsonError JsData) → Props JsData →
    Except CanonicalJsonError (Props JsData)
  | [], result => .ok result
  | (key, child) :: rest, result =>
    if key ∈ keys result then .error (.keyCollision key)
    else child.bind fun child ↦
      insertChildren rest (if child = .leaf .undefined then result else assign result key child)

section

variable (nfc : Nfc)

mutual

def normalize : JsData → Except CanonicalJsonError JsData
  | .leaf (.str s) => .ok (.leaf (.str (nfc.normalize s)))
  | .leaf (.num x) => if x.isFinite then .ok (.leaf (.num x.unsigned)) else .error .nonFinite
  | .leaf l => .ok (.leaf l)
  | .arr value => (normalizeElements value).map .arr
  | .obj source => (insertChildren (utf8Order.sort (normalizeMembers source)) []).map .obj

/-- `undefined` becomes `null` in an array. -/
def normalizeElements : List JsData → Except CanonicalJsonError (List JsData)
  | [] => .ok []
  | x :: xs => (normalize x).bind fun y ↦ (normalizeElements xs).map fun ys ↦
      (if y = .leaf .undefined then .leaf .null else y) :: ys

/-- The normalized keys with their children, in source order. -/
def normalizeMembers : Props JsData → Props (Except CanonicalJsonError JsData)
  | [] => []
  | (key, child) :: rest => (nfc.normalize key, normalize child) :: normalizeMembers rest

end

def canonicalJson (value : JsData) : Except CanonicalJsonError (Option JsString) :=
  (normalize nfc value).bind fun normalized ↦
    if normalized = .leaf .undefined then .error .rootUndefined else .ok (stringify normalized)

/-! ## What is accepted -/

/-- A leaf the serializer accepts. -/
def AcceptedLeaf : JsLeaf → Prop
  | .undefined => False
  | .num x => x.isFinite = true
  | _ => True

/-- The values `canonicalJson` does not throw on: the numbers are finite, and no two keys of one
object have one normalization. -/
structure Encodable (v : JsData) : Prop where
  accepted : v.WellFormed AcceptedLeaf
  distinct : Distinct nfc.normalize v

def normalizeLeaf : JsLeaf → JsLeaf
  | .str s => .str (nfc.normalize s)
  | .num x => .num x.unsigned
  | l => l

/-- The serializer as a canonical form. -/
def scheme : Scheme JsLeaf JsLeaf where
  key := nfc.normalize
  order := utf8Order
  leaf := normalizeLeaf nfc

variable {nfc}

theorem isUndefined_of_accepted {l : JsLeaf} (h : AcceptedLeaf l) : l.isUndefined = false := by
  cases l with
  | undefined => exact absurd h id
  | _ => rfl

theorem ne_undefined_of_accepted {v : JsData} (h : v.WellFormed AcceptedLeaf) :
    v ≠ .leaf .undefined := by
  rintro rfl
  exact JsValue.wellFormed_leaf.mp h

theorem acceptedLeaf_normalizeLeaf {l : JsLeaf} (h : AcceptedLeaf l) :
    AcceptedLeaf (normalizeLeaf nfc l) := by
  cases l with
  | num x =>
    cases x with
    | finite neg mag =>
      rw [normalizeLeaf, JsNumber.unsigned]
      split_ifs <;> rfl
    | infinity _ => exact absurd h (by simp [AcceptedLeaf, JsNumber.isFinite])
    | nan => exact absurd h (by simp [AcceptedLeaf, JsNumber.isFinite])
  | _ => exact h

theorem accepted_canonical {v : JsData} (h : v.WellFormed AcceptedLeaf) :
    (canonical (scheme nfc) v).WellFormed AcceptedLeaf :=
  wellFormed_canonical (fun _ ↦ acceptedLeaf_normalizeLeaf) h

theorem insertChildren_ok (l : Props JsData) : ∀ o : Props JsData,
    (∀ p ∈ l, p.2 ≠ .leaf .undefined) → (keys l).Nodup → (∀ k ∈ keys l, k ∉ keys o) →
    insertChildren (l.map fun p ↦ (p.1, .ok p.2)) o
      = .ok (l.foldl (fun o p ↦ assign o p.1 p.2) o) := by
  induction l with
  | nil => exact fun _ _ _ _ ↦ rfl
  | cons p l ih =>
    intro o hdef hnd hfresh
    rw [keys_cons, List.nodup_cons] at hnd
    have hfresh' : ∀ k ∈ keys l, k ∉ keys (assign o p.1 p.2) := by
      intro k hk hmem
      rw [assign] at hmem
      split_ifs at hmem
      · exact hfresh k (List.mem_cons_of_mem _ hk) hmem
      · rcases mem_keys_createData.mp hmem with rfl | hmem
        · exact hnd.1 hk
        · exact hfresh k (List.mem_cons_of_mem _ hk) hmem
    rw [List.map_cons, insertChildren, if_neg (hfresh p.1 List.mem_cons_self)]
    simp only [Except.bind]
    rw [if_neg (hdef p List.mem_cons_self), List.foldl_cons,
      ih _ (fun q hq ↦ hdef q (List.mem_cons_of_mem p hq)) hnd.2 hfresh']

theorem normalizeMembers_eq {kvs : Props JsData}
    (h : ∀ p ∈ kvs, normalize nfc p.2 = .ok (canonical (scheme nfc) p.2)) :
    normalizeMembers nfc kvs = (kvs.map fun p ↦ ((scheme nfc).key p.1, canonical (scheme nfc) p.2)).map
      fun p ↦ (p.1, .ok p.2) := by
  induction kvs with
  | nil => rfl
  | cons p kvs ih =>
    rw [normalizeMembers, h p List.mem_cons_self, ih fun q hq ↦ h q (List.mem_cons_of_mem p hq)]
    rfl

/-- **An encodable value is normalized to its canonical form.** -/
theorem normalize_of_encodable {v : JsData} (hv : v.WellFormed AcceptedLeaf)
    (hd : Distinct nfc.normalize v) : normalize nfc v = .ok (canonical (scheme nfc) v) := by
  induction hv with
  | @leaf l hl =>
    cases l with
    | undefined => exact absurd hl id
    | num x => exact if_pos hl
    | _ => rfl
  | @arr xs hx ih =>
    cases hd with | arr hd =>
    have hel : normalizeElements nfc xs = .ok (xs.map (canonical (scheme nfc))) := by
      clear * - hx ih hd
      induction xs with
      | nil => rfl
      | cons x xs ihxs =>
        rw [normalizeElements, ih x List.mem_cons_self (hd x List.mem_cons_self)]
        simp only [Except.bind]
        rw [ihxs (fun y hy ↦ hx y (List.mem_cons_of_mem x hy))
          (fun y hy ↦ ih y (List.mem_cons_of_mem x hy))
          (fun y hy ↦ hd y (List.mem_cons_of_mem x hy)), Except.map,
          if_neg (ne_undefined_of_accepted (accepted_canonical (hx x List.mem_cons_self)))]
        rfl
    rw [normalize, hel, canonical_arr]
    rfl
  | @obj kvs ho hp ih =>
    cases hd with | obj hnd hd =>
    rw [normalize, normalizeMembers_eq fun p hmem ↦ ih p hmem (hd p hmem),
      KeyOrder.sort_map_snd, insertChildren_ok, canonical_obj]
    · rfl
    · intro q hq
      obtain ⟨p, hmem, rfl⟩ := List.mem_map.mp (utf8Order.mem_sort.mp hq)
      exact ne_undefined_of_accepted (accepted_canonical (hp p hmem))
    · rw [(utf8Order.keys_sort_perm _).nodup_iff, keys_map_key]
      exact hnd
    · exact fun _ _ ↦ List.not_mem_nil

/-- What a successful loop has checked: it evaluated every child, and it met no key twice, but for
`__proto__`, which it cannot see. -/
theorem insertChildren_inv (l : Props (Except CanonicalJsonError JsData)) :
    ∀ {o r : Props JsData}, insertChildren l o = .ok r → (∀ p ∈ l, p.2 ≠ .ok (.leaf .undefined)) →
    (∀ p ∈ l, ∃ w, p.2 = .ok w) ∧ (∀ p ∈ l, p.1 ∉ keys o) ∧
      l.Pairwise fun p q ↦ p.1 ≠ protoKey → p.1 ≠ q.1 := by
  induction l with
  | nil =>
    exact fun _ _ ↦ ⟨fun p h ↦ absurd h List.not_mem_nil, fun p h ↦ absurd h List.not_mem_nil,
      List.Pairwise.nil⟩
  | cons p l ih =>
    obtain ⟨key, child⟩ := p
    intro o r h hdef
    rw [insertChildren] at h
    split_ifs at h with hkey
    cases child with
    | error e => exact absurd h (by simp [Except.bind])
    | ok w =>
      have hw : w ≠ .leaf .undefined := fun hw ↦ hdef _ List.mem_cons_self (by rw [hw])
      simp only [Except.bind, if_neg hw] at h
      obtain ⟨hall, hfresh, hpair⟩ := ih h fun p hp ↦ hdef p (List.mem_cons_of_mem _ hp)
      refine ⟨List.forall_mem_cons.mpr ⟨⟨w, rfl⟩, hall⟩,
        List.forall_mem_cons.mpr ⟨hkey, fun q hq hmem ↦ hfresh q hq ?_⟩,
        List.pairwise_cons.mpr ⟨fun q hq hproto heq ↦ hfresh q hq ?_, hpair⟩⟩
      · rw [assign]
        split_ifs
        · exact hmem
        · exact mem_keys_createData.mpr (Or.inr hmem)
      · rw [assign, if_neg hproto]
        exact mem_keys_createData.mpr (Or.inl heq.symm)

/-- Keys that do not collide in the loop do not collide at all. -/
theorem nodup_normalKeys {α : Type} {kvs : Props α} (hnd : (keys kvs).Nodup)
    (h : kvs.Pairwise fun p q ↦ nfc.normalize p.1 ≠ protoKey →
      nfc.normalize p.1 ≠ nfc.normalize q.1) : (normalKeys nfc.normalize kvs).Nodup := by
  refine List.pairwise_map.mpr ((List.pairwise_map.mp hnd).imp₂ (fun p q hne hpq heq ↦ ?_) h)
  by_cases hproto : nfc.normalize p.1 = protoKey
  · exact hne (((nfc.proto_iff _).mp hproto).trans ((nfc.proto_iff _).mp (heq ▸ hproto)).symm)
  · exact hpq hproto heq

theorem mem_normalizeMembers {kvs : Props JsData} {p : JsString × JsData} (h : p ∈ kvs) :
    (nfc.normalize p.1, normalize nfc p.2) ∈ normalizeMembers nfc kvs := by
  induction kvs with
  | nil => exact absurd h List.not_mem_nil
  | cons q kvs ih =>
    rw [normalizeMembers]
    rcases List.mem_cons.mp h with rfl | h
    · exact List.mem_cons_self
    · exact List.mem_cons_of_mem _ (ih h)

theorem exists_of_mem_normalizeMembers {kvs : Props JsData}
    {q : JsString × Except CanonicalJsonError JsData} (h : q ∈ normalizeMembers nfc kvs) :
    ∃ p ∈ kvs, q.2 = normalize nfc p.2 := by
  induction kvs with
  | nil => exact absurd h List.not_mem_nil
  | cons p kvs ih =>
    rw [normalizeMembers] at h
    rcases List.mem_cons.mp h with rfl | h
    · exact ⟨p, List.mem_cons_self, rfl⟩
    · obtain ⟨p', hp', heq⟩ := ih h
      exact ⟨p', List.mem_cons_of_mem _ hp', heq⟩

theorem pairwise_normalizeMembers {R : JsString → JsString → Prop} {kvs : Props JsData} :
    (normalizeMembers nfc kvs).Pairwise (fun p q ↦ R p.1 q.1) ↔
      kvs.Pairwise fun p q ↦ R (nfc.normalize p.1) (nfc.normalize q.1) := by
  have hkeys : (normalizeMembers nfc kvs).map Prod.fst = kvs.map fun p ↦ nfc.normalize p.1 := by
    induction kvs with
    | nil => rfl
    | cons p kvs ih => rw [normalizeMembers, List.map_cons, ih, List.map_cons]
  rw [← List.pairwise_map (f := Prod.fst) (R := R), hkeys, List.pairwise_map]

theorem normalizeElements_inv {xs ys : List JsData} (h : normalizeElements nfc xs = .ok ys) :
    ∀ x ∈ xs, ∃ w, normalize nfc x = .ok w := by
  induction xs generalizing ys with
  | nil => exact fun x hx ↦ absurd hx List.not_mem_nil
  | cons x xs ih =>
    obtain ⟨w, hx, h⟩ := bind_eq_ok.mp h
    obtain ⟨ws, hxs, -⟩ := map_eq_ok.mp h
    exact List.forall_mem_cons.mpr ⟨⟨w, hx⟩, ih hxs⟩

/-- **Only encodable values are normalized.** -/
theorem encodable_of_normalize {v w : JsData} (hv : IsJson v) (h : normalize nfc v = .ok w) :
    Encodable nfc v := by
  induction hv generalizing w with
  | @leaf l hl =>
    refine ⟨.leaf ?_, .leaf⟩
    cases l with
    | undefined => exact absurd hl (by decide)
    | num x =>
      rw [normalize] at h
      split_ifs at h with hfin
      exact hfin
    | _ => trivial
  | @arr xs _ ih =>
    obtain ⟨ys, hel, -⟩ := map_eq_ok.mp h
    have hall : ∀ x ∈ xs, Encodable nfc x := fun x hx ↦ by
      obtain ⟨y, hy⟩ := normalizeElements_inv hel x hx
      exact ih x hx hy
    exact ⟨.arr fun x hx ↦ (hall x hx).accepted, .arr fun x hx ↦ (hall x hx).distinct⟩
  | @obj kvs ho _ ih =>
    obtain ⟨r, hins, -⟩ := map_eq_ok.mp h
    have hdef : ∀ q ∈ utf8Order.sort (normalizeMembers nfc kvs), q.2 ≠ .ok (.leaf .undefined) := by
      intro q hq heq
      obtain ⟨p, hp, hqp⟩ := exists_of_mem_normalizeMembers (utf8Order.mem_sort.mp hq)
      rw [hqp] at heq
      have henc := ih p hp heq
      rw [normalize_of_encodable henc.accepted henc.distinct, Except.ok.injEq] at heq
      exact ne_undefined_of_accepted (accepted_canonical henc.accepted) heq
    obtain ⟨hchild, -, hpair⟩ := insertChildren_inv _ hins hdef
    have hall : ∀ p ∈ kvs, Encodable nfc p.2 := by
      intro p hp
      obtain ⟨y, hy⟩ := hchild _ (utf8Order.mem_sort.mpr (mem_normalizeMembers hp))
      exact ih p hp hy
    have hsym : ∀ {p q : JsString × Except CanonicalJsonError JsData},
        (p.1 ≠ protoKey → p.1 ≠ q.1) → q.1 ≠ protoKey → q.1 ≠ p.1 :=
      fun hpq hq heq ↦ hpq (heq ▸ hq) heq.symm
    have hpair' := ((List.perm_insertionSort _ _).pairwise_iff hsym).mp hpair
    rw [pairwise_normalizeMembers (R := fun a b ↦ a ≠ protoKey → a ≠ b)] at hpair'
    exact ⟨.obj ho fun p hp ↦ (hall p hp).accepted,
      .obj (nodup_normalKeys ho.nodup hpair') fun p hp ↦ (hall p hp).distinct⟩

/-- **When `canonicalJson` returns, and what.** -/
theorem canonicalJson_eq_ok_iff {v : JsData} (hv : IsJson v) {t : Option JsString} :
    canonicalJson nfc v = .ok t ↔
      Encodable nfc v ∧ t = stringify (canonical (scheme nfc) v) := by
  have hok : Encodable nfc v →
      canonicalJson nfc v = .ok (stringify (canonical (scheme nfc) v)) := by
    intro henc
    rw [canonicalJson, normalize_of_encodable henc.accepted henc.distinct]
    exact if_neg (ne_undefined_of_accepted (accepted_canonical henc.accepted))
  constructor
  · intro h
    have henc : Encodable nfc v := by
      obtain ⟨w, hn, -⟩ := bind_eq_ok.mp h
      exact encodable_of_normalize hv hn
    rw [hok henc, Except.ok.injEq] at h
    exact ⟨henc, h.symm⟩
  · rintro ⟨henc, rfl⟩
    exact hok henc

/-! ## What the text shows -/

theorem wireLeaf_normalizeLeaf {l : JsLeaf} (h : AcceptedLeaf l) :
    wireLeaf (normalizeLeaf nfc l) = normalizeLeaf nfc l := by
  cases l with
  | undefined => exact absurd h id
  | num x =>
    have hfin : AcceptedLeaf (normalizeLeaf nfc (.num x)) := acceptedLeaf_normalizeLeaf h
    change x.unsigned.isFinite = true at hfin
    rw [normalizeLeaf, wireLeaf, if_pos hfin, JsNumber.unsigned_unsigned]
  | _ => rfl

theorem normalizeLeaf_normalizeLeaf (l : JsLeaf) :
    normalizeLeaf nfc (normalizeLeaf nfc l) = normalizeLeaf nfc l := by
  cases l with
  | str s => rw [normalizeLeaf, normalizeLeaf, nfc.idem]
  | num x => rw [normalizeLeaf, normalizeLeaf, JsNumber.unsigned_unsigned]
  | _ => rfl

/-- The text of an encodable value parses to its canonical form. -/
theorem exists_text {v : JsData} (henc : Encodable nfc v) :
    ∃ t, stringify (canonical (scheme nfc) v) = some t ∧
      parse t = some (canonical (scheme nfc) v) := by
  have hacc : (canonical (scheme nfc) v).WellFormed AcceptedLeaf :=
    accepted_canonical henc.accepted
  have hwire : (canonical (scheme nfc) v).WellFormed fun l ↦ wireLeaf l = l :=
    wellFormed_canonical (fun _ ↦ wireLeaf_normalizeLeaf) henc.accepted
  obtain ⟨t, ht, hparse⟩ := parse_stringify (hacc.mono fun _ ↦ isUndefined_of_accepted)
  rw [JsValue.mapLeaf_eq_self (fun _ h ↦ h) hwire] at hparse
  exact ⟨t, ht, hparse⟩

theorem encodable_canonical {v : JsData} (henc : Encodable nfc v) :
    Encodable nfc (canonical (scheme nfc) v) :=
  ⟨accepted_canonical henc.accepted, distinct_canonical (S := scheme nfc) nfc.idem henc.distinct⟩

/-- **Parsing the text and serializing again gives the text back.** -/
theorem canonicalJson_reparse {v : JsData} {s : JsString} (hv : IsJson v)
    (hs : canonicalJson nfc v = .ok (some s)) :
    ∃ w, parse s = some w ∧ canonicalJson nfc w = .ok (some s) := by
  obtain ⟨henc, hstr⟩ := (canonicalJson_eq_ok_iff hv).mp hs
  obtain ⟨t, ht, hparse⟩ := exists_text henc
  obtain rfl : s = t := Option.some_inj.mp (hstr.trans ht)
  refine ⟨_, hparse, (canonicalJson_eq_ok_iff (parse_isJson hparse)).mpr
    ⟨encodable_canonical henc, ?_⟩⟩
  rw [canonical_idem (S := scheme nfc) nfc.idem normalizeLeaf_normalizeLeaf henc.distinct, hstr]

variable (nfc)

/-- Everything about a value but key order, normalization and the sign of zero. -/
def asValue : Comparison JsLeaf JsLeaf where
  key := nfc.normalize
  leaf := normalizeLeaf nfc
  keep _ := True
  tied _ _ := False

/-- The order of the keys whose encodings are equal, in objects of one shape. -/
def asTieOrder : Comparison JsLeaf Unit where
  key := nfc.normalize
  leaf _ := ()
  keep k := k ≠ protoKey
  tied a b := utf8Encode a = utf8Encode b

/-- What reaches the text. -/
def asText : Comparison JsLeaf JsLeaf where
  key := nfc.normalize
  leaf := normalizeLeaf nfc
  keep k := k ≠ protoKey
  tied a b := utf8Encode a = utf8Encode b

/-- Equality up to the order of object keys, the normalization of strings and keys, and `-0 = 0`. -/
def JsonEqual (u v : JsData) : Prop := Agree (asValue nfc) u v

/-- Keys of one object that differ only in lone surrogates stand in the same order in both. -/
def SameTieOrder (u v : JsData) : Prop := Agree (asTieOrder nfc) u v

/-- `JsonEqual` and `SameTieOrder`, with the members named `__proto__` ignored. -/
def JsonEqualInText (u v : JsData) : Prop := Agree (asText nfc) u v

variable {nfc}

/-- Keys with one encoding that differ are not array indices. -/
theorem arrayIndex?_of_tied {a b : JsString} (hab : a ≠ b) (h : utf8Encode a = utf8Encode b) :
    arrayIndex? a = none := by
  cases ha : arrayIndex? a with
  | none => rfl
  | some i => exact absurd (eq_of_utf8Encode_ascii (ascii_of_arrayIndex? ha) h) hab

/-- **Two encodable values have one text exactly when they agree in what reaches it.** -/
theorem text_eq_iff {u v : JsData} (hu : Encodable nfc u) (hv : Encodable nfc v) :
    stringify (canonical (scheme nfc) u) = stringify (canonical (scheme nfc) v) ↔
      JsonEqualInText nfc u v := by
  have htext : stringify (canonical (scheme nfc) u) = stringify (canonical (scheme nfc) v) ↔
      canonical (scheme nfc) u = canonical (scheme nfc) v := by
    obtain ⟨s, hs, hsp⟩ := exists_text hu
    obtain ⟨t, ht, htp⟩ := exists_text hv
    refine ⟨fun h ↦ ?_, fun h ↦ by rw [h]⟩
    rw [hs, ht, Option.some_inj] at h
    rw [h, htp, Option.some_inj] at hsp
    exact hsp.symm
  rw [htext, canonical_eq_iff _ hu.distinct hv.distinct]
  constructor
  · intro h
    exact Agree.weaken (scheme nfc).shown (asText nfc) rfl (fun _ _ h ↦ h) (fun _ h ↦ h)
      (fun a b hab _ _ h ↦ ⟨arrayIndex?_of_tied hab h, arrayIndex?_of_tied hab.symm h.symm,
        utf8Order_tied.mpr h⟩) hu.distinct h
  · intro h
    exact Agree.weaken (asText nfc) (scheme nfc).shown rfl (fun _ _ h ↦ h) (fun _ h ↦ h)
      (fun a b _ _ _ h ↦ utf8Order_tied.mp h.2.2) hu.distinct h

theorem JsonEqual.inText_iff {u v : JsData} (hu : Encodable nfc u) (h : JsonEqual nfc u v) :
    JsonEqualInText nfc u v ↔ SameTieOrder nfc u v := by
  constructor
  · intro ht
    exact Agree.weaken (asText nfc) (asTieOrder nfc) rfl (fun _ _ _ ↦ rfl) (fun _ h ↦ h)
      (fun _ _ _ _ _ h ↦ h) hu.distinct ht
  · intro ht
    exact Agree.combine (asValue nfc) (asTieOrder nfc) rfl (fun _ _ ↦ trivial) h ht

/-- **Canonical JSON decides equality of two values it accepts** exactly when they are equal with
tied keys in one order, or differ in something that reaches the text. Serializing the parsed text
always gives the text back. -/
theorem canonicalJson_decides_iff (nfc : Nfc) {u v : JsData} (hu : IsJson u) (hv : IsJson v)
    {s t : JsString} (hs : canonicalJson nfc u = .ok (some s))
    (ht : canonicalJson nfc v = .ok (some t)) :
    ((s = t ↔ JsonEqual nfc u v) ∧ ∃ w, parse s = some w ∧ canonicalJson nfc w = .ok (some s)) ↔
      ((JsonEqual nfc u v ∧ SameTieOrder nfc u v) ∨
        (¬JsonEqual nfc u v ∧ ¬JsonEqualInText nfc u v)) := by
  obtain ⟨henc, hsu⟩ := (canonicalJson_eq_ok_iff hu).mp hs
  obtain ⟨henc', htv⟩ := (canonicalJson_eq_ok_iff hv).mp ht
  have htext : s = t ↔ JsonEqualInText nfc u v := by
    rw [← text_eq_iff henc henc', ← hsu, ← htv, Option.some_inj]
  have htie : JsonEqual nfc u v → (JsonEqualInText nfc u v ↔ SameTieOrder nfc u v) :=
    fun h ↦ h.inText_iff henc
  rw [htext, and_iff_left (canonicalJson_reparse hu hs)]
  tauto

end

/-! ## Where the text does not decide equality -/

/-- Normalization of strings that are their own normalization. -/
def plainNfc : Nfc where
  normalize := id
  idem _ := rfl
  proto_iff _ := Iff.rfl

/-- An object with one member. -/
def oneMember (key : JsString) : JsData := .obj [(key, .leaf .null)]

/-- An object with two members. -/
def twoMembers (key key' : JsString) : JsData := .obj [(key, .leaf .null), (key', .leaf .null)]

theorem isJson_oneMember (k : JsString) : IsJson (oneMember k) :=
  .obj (List.pairwise_singleton _ _) fun _ hp ↦ by
    rw [List.mem_singleton.mp hp]
    exact .leaf rfl

theorem canonicalJson_decides_iff_of_one_member :
    ((lit "\x7b\"a\":null\x7d" = lit "\x7b\"b\":null\x7d" ↔
        JsonEqual plainNfc (oneMember (lit "a")) (oneMember (lit "b"))) ∧
      ∃ w, parse (lit "\x7b\"a\":null\x7d") = some w ∧
        canonicalJson plainNfc w = .ok (some (lit "\x7b\"a\":null\x7d"))) ↔
    ((JsonEqual plainNfc (oneMember (lit "a")) (oneMember (lit "b")) ∧
        SameTieOrder plainNfc (oneMember (lit "a")) (oneMember (lit "b"))) ∨
      (¬JsonEqual plainNfc (oneMember (lit "a")) (oneMember (lit "b")) ∧
        ¬JsonEqualInText plainNfc (oneMember (lit "a")) (oneMember (lit "b")))) :=
  canonicalJson_decides_iff plainNfc (isJson_oneMember _) (isJson_oneMember _) (by decide +kernel)
    (by decide +kernel)

theorem JsonEqual.swap (nfc : Nfc) (a b : JsString) :
    JsonEqual nfc (twoMembers a b) (twoMembers b a) := by
  have hnull : ∀ {c d : JsString}, ∀ p ∈ [(c, JsValue.leaf JsLeaf.null), (d, .leaf .null)],
      p.2 = .leaf .null := by
    intro c d p hp
    rcases List.mem_cons.mp hp with rfl | hp
    · rfl
    · rw [List.mem_singleton.mp hp]
  refine .obj (fun k _ ↦ ?_) (fun p hp q hq _ _ ↦ ?_) fun _ _ _ _ h ↦ absurd h id
  · simp only [normalKeys, List.map_cons, List.map_nil, List.mem_cons, List.not_mem_nil, or_false]
    exact or_comm
  · rw [hnull p hp, hnull q hq]
    exact .leaf rfl

/-- **A permutation of two keys that differ in a lone surrogate changes the text.** -/
theorem canonicalJson_not_decides :
    ¬∀ (nfc : Nfc) (u v : JsData), IsJson u → IsJson v → ∀ s t : JsString,
      canonicalJson nfc u = .ok (some s) → canonicalJson nfc v = .ok (some t) →
      ((s = t ↔ JsonEqual nfc u v) ∧
        ∃ w, parse s = some w ∧ canonicalJson nfc w = .ok (some s)) := by
  intro h
  have hu : parse (lit "\x7b\"\\ud800\":null,\"\\ud801\":null\x7d")
      = some (twoMembers [0xD800] [0xD801]) := by decide +kernel
  have hv : parse (lit "\x7b\"\\ud801\":null,\"\\ud800\":null\x7d")
      = some (twoMembers [0xD801] [0xD800]) := by decide +kernel
  have hiff := (h plainNfc _ _ (parse_isJson hu) (parse_isJson hv)
    (lit "\x7b\"\\ud800\":null,\"\\ud801\":null\x7d")
    (lit "\x7b\"\\ud801\":null,\"\\ud800\":null\x7d") (by decide +kernel)
    (by decide +kernel)).1
  exact absurd (hiff.mpr (JsonEqual.swap plainNfc _ _)) (by decide +kernel)

end Vibestudio.Shared

import Mathlib
import Vibestudio.Js.Base64
import Vibestudio.Js.Parsed

/-!
# The RPC wire JSON codec

`packages/rpc/src/wireJson.ts` and `base64.ts`: how byte values cross a JSON transport. A byte value
becomes an object with the single key `\u0000bytes`; every key of a user object that begins with NUL
gets one more NUL, so no user object can look like bytes.

The replacer of `JSON.stringify` rewrites an object and then the serializer visits the children of
the rewritten object. Escaping touches keys only, so the model converts the children first and then
escapes. The reviver of `JSON.parse` works from the leaves up, and that is the recursion of
`reviveJson`.

`WireValue` carries the domain of the codec. The central fact is `decodeObject_escapeObjectKeys`:
decoding an escaped object gives the object back, because escaping keeps every key in its place and
produces no key that begins with exactly one NUL. The fast path of `decodeRpcJson` is justified by
the text alone (`decodeRpcJson_eq`): the only JSON spelling of NUL is `\u0000`.
-/

namespace Vibestudio.Rpc

open Js

/-! ## Values -/

/-- A leaf of an RPC value. `view` is an `ArrayBuffer` view other than `Uint8Array`, by the name of
its type. -/
inductive RpcLeaf where
  | json (l : JsLeaf)
  | uint8Array (bytes : List Byte)
  | arrayBuffer (bytes : List Byte)
  | view (name : JsString)
deriving DecidableEq

abbrev RpcValue := JsValue RpcLeaf

/-- A parsed value as an RPC value. -/
def ofJson (v : JsData) : RpcValue := v.mapLeaf .json

def rpcBytesOf : RpcLeaf → Option (List Byte)
  | .uint8Array bytes => some bytes
  | .arrayBuffer bytes => some bytes
  | _ => none

/-- The leaf as the other side receives it. -/
def receivedLeaf (l : RpcLeaf) : RpcLeaf :=
  match rpcBytesOf l with
  | some bytes => .uint8Array bytes
  | none => l

/-! ## Keys -/

def TAG : JsString := [0]

def BYTES_TAG : JsString := TAG ++ lit "bytes"

def startsWithTag (key : JsString) : Bool := decide (TAG <+: key)

/-- The key `escapeObjectKeys` writes. -/
def escapeKey (key : JsString) : JsString := if startsWithTag key then TAG ++ key else key

def escapeObjectKeys {α : Type} (value : Props α) : Props α :=
  if (keys value).any startsWithTag then
    ofEntries (value.map fun p ↦ (escapeKey p.1, p.2))
  else value

/-! ## Encoding -/

inductive EncodeError where
  | unsupportedView (name : JsString)
  | notSerializable
deriving DecidableEq

def EncodeError.message : EncodeError → JsString
  | .unsupportedView name =>
    lit "RPC values carry bytes as Uint8Array or ArrayBuffer; " ++ name ++ lit " is not supported"
  | .notSerializable => lit "RPC wire value is not JSON serializable"

/-- The wire object of a byte value. -/
def bytesObject (bytes : List Byte) : JsData :=
  .obj [(BYTES_TAG, .leaf (.str (base64Encode bytes)))]

/-- The replacer on a leaf. -/
def replaceLeaf : RpcLeaf → Except EncodeError JsData
  | .json l => .ok (.leaf l)
  | .uint8Array bytes => .ok (bytesObject bytes)
  | .arrayBuffer bytes => .ok (bytesObject bytes)
  | .view name => .error (.unsupportedView name)

mutual

/-- The data the serializer sees once the replacer has run everywhere. -/
def replaceValue : RpcValue → Except EncodeError JsData
  | .leaf l => replaceLeaf l
  | .arr xs => (replaceElements xs).map .arr
  | .obj kvs => (replaceMembers kvs).map fun kvs ↦ .obj (escapeObjectKeys kvs)

def replaceElements : List RpcValue → Except EncodeError (List JsData)
  | [] => .ok []
  | x :: xs => (replaceValue x).bind fun y ↦ (replaceElements xs).map fun ys ↦ y :: ys

def replaceMembers : Props RpcValue → Except EncodeError (Props JsData)
  | [] => .ok []
  | (k, v) :: kvs => (replaceValue v).bind fun w ↦ (replaceMembers kvs).map fun r ↦ (k, w) :: r

end

def encodeRpcJson (value : RpcValue) : Except EncodeError JsString :=
  (replaceValue value).bind fun data ↦
    match stringify data with
    | some text => .ok text
    | none => .error .notSerializable

/-! ## Decoding -/

inductive DecodeError where
  | syntaxError
  | invalidCharacter
  | malformedBytes
  | reservedKey (key : JsString)
deriving DecidableEq

/-- The texts of the errors the codec itself throws; the other two are the platform's. -/
def DecodeError.message : DecodeError → Option JsString
  | .malformedBytes => some (lit "Malformed RPC byte value")
  | .reservedKey key =>
    some (lit "Malformed RPC wire value: unescaped reserved key " ++ quote key)
  | _ => none

/-- The byte value of an object whose only key is `BYTES_TAG`. -/
def decodeBytes : RpcValue → Except DecodeError RpcValue
  | .leaf (.json (.str data)) =>
    match atob data with
    | none => .error .invalidCharacter
    | some bytes =>
      if base64Encode bytes ≠ data then .error .malformedBytes else .ok (.leaf (.uint8Array bytes))
  | _ => .error .malformedBytes

/-- The loop over the keys of a tagged object. -/
def unescapeKeys : Props RpcValue → Props RpcValue → Except DecodeError (Props RpcValue)
  | [], decoded => .ok decoded
  | (key, v) :: rest, decoded =>
    if startsWithTag key then
      if TAG ++ TAG <+: key then unescapeKeys rest (createData decoded (key.drop 1) v)
      else .error (.reservedKey key)
    else unescapeKeys rest (createData decoded key v)

def decodeObject (value : Props RpcValue) : Except DecodeError RpcValue :=
  if (keys value).any startsWithTag then
    match value with
    | [(key, data)] =>
      if key = BYTES_TAG then decodeBytes data else (unescapeKeys value []).map .obj
    | _ => (unescapeKeys value []).map .obj
  else .ok (.obj value)

mutual

/-- The reviver, from the leaves up. -/
def reviveJson : JsData → Except DecodeError RpcValue
  | .leaf l => .ok (.leaf (.json l))
  | .arr xs => (reviveElements xs).map .arr
  | .obj kvs => (reviveMembers kvs).bind decodeObject

def reviveElements : List JsData → Except DecodeError (List RpcValue)
  | [] => .ok []
  | x :: xs => (reviveJson x).bind fun y ↦ (reviveElements xs).map fun ys ↦ y :: ys

def reviveMembers : Props JsData → Except DecodeError (Props RpcValue)
  | [] => .ok []
  | (k, v) :: kvs => (reviveJson v).bind fun w ↦ (reviveMembers kvs).map fun r ↦ (k, w) :: r

end

/-- `JSON.parse(text, reviver)`. -/
def parseWithReviver (text : JsString) : Except DecodeError RpcValue :=
  match parse text with
  | some v => reviveJson v
  | none => .error .syntaxError

def decodeRpcJson (text : JsString) : Except DecodeError RpcValue :=
  if nulEscape <:+: text then parseWithReviver text
  else
    match parse text with
    | some v => .ok (ofJson v)
    | none => .error .syntaxError

/-! ## Escaped keys -/

theorem startsWithTag_iff {key : JsString} : startsWithTag key = true ↔ ∃ r, key = 0 :: r := by
  rw [startsWithTag, decide_eq_true_iff]
  constructor
  · rintro ⟨r, rfl⟩
    exact ⟨r, rfl⟩
  · rintro ⟨r, rfl⟩
    exact ⟨r, rfl⟩

theorem startsWithTag_escapeKey (key : JsString) :
    startsWithTag (escapeKey key) = startsWithTag key := by
  rw [escapeKey]
  split_ifs with h
  · rw [h]
    exact startsWithTag_iff.mpr ⟨key, rfl⟩
  · rfl

theorem escapeKey_injective : Function.Injective escapeKey := by
  intro a b h
  have htag : startsWithTag a = startsWithTag b := by
    rw [← startsWithTag_escapeKey a, h, startsWithTag_escapeKey]
  rw [escapeKey, escapeKey, htag] at h
  split_ifs at h
  · exact List.append_cancel_left h
  · exact h

/-- No escaped key begins with exactly one NUL. -/
theorem escapeKey_ne_bytesTag (key : JsString) : escapeKey key ≠ BYTES_TAG := by
  rw [escapeKey]
  split_ifs with h
  · obtain ⟨r, rfl⟩ := startsWithTag_iff.mp h
    intro heq
    have := congrArg (List.drop 1) heq
    exact absurd (List.cons.inj this).1 (by decide)
  · rintro rfl
    exact h rfl

theorem arrayIndex?_tagged {key : JsString} (h : startsWithTag key = true) :
    arrayIndex? key = none := by
  obtain ⟨r, rfl⟩ := startsWithTag_iff.mp h
  cases hi : arrayIndex? (0 :: r) with
  | none => rfl
  | some i => exact absurd (isDigit_of_arrayIndex? hi 0 List.mem_cons_self) (by decide)

theorem arrayIndex?_escapeKey (key : JsString) : arrayIndex? (escapeKey key) = arrayIndex? key := by
  by_cases h : startsWithTag key = true
  · rw [arrayIndex?_tagged h, arrayIndex?_tagged (by rw [startsWithTag_escapeKey, h])]
  · rw [escapeKey, if_neg h]

/-- The entries with their keys escaped. -/
def escapeEntries {α : Type} (o : Props α) : Props α := o.map fun p ↦ (escapeKey p.1, p.2)

section

variable {α : Type}

theorem ordered_escapeEntries {o : Props α} (h : Ordered o) : Ordered (escapeEntries o) :=
  h.map_key escapeKey_injective arrayIndex?_escapeKey

theorem any_startsWithTag_escapeEntries (o : Props α) :
    (keys (escapeEntries o)).any startsWithTag = (keys o).any startsWithTag := by
  rw [keys, keys, escapeEntries, List.map_map, List.any_map, List.any_map]
  exact congrArg (List.any o) (funext fun p ↦ startsWithTag_escapeKey p.1)

theorem escapeEntries_of_untagged {o : Props α} (h : ¬(keys o).any startsWithTag = true) :
    escapeEntries o = o := by
  have hkey : ∀ p ∈ o, escapeKey p.1 = p.1 := by
    intro p hp
    rw [escapeKey, if_neg]
    exact fun htag ↦ h (List.any_eq_true.mpr ⟨p.1, mem_keys_of_mem hp, htag⟩)
  rw [escapeEntries]
  conv_rhs => rw [← List.map_id o]
  exact List.map_congr_left fun p hp ↦ by rw [hkey p hp]; rfl

/-- **Escaping renames the keys and moves nothing.** -/
theorem escapeObjectKeys_eq {o : Props α} (h : Ordered o) : escapeObjectKeys o = escapeEntries o := by
  rw [escapeObjectKeys]
  split_ifs with htag
  · exact ofEntries_of_ordered (ordered_escapeEntries h)
  · exact (escapeEntries_of_untagged htag).symm

end

theorem unescapeKeys_escapeEntries (kvs : Props RpcValue) : ∀ decoded,
    unescapeKeys (escapeEntries kvs) decoded
      = .ok (kvs.foldl (fun o p ↦ createData o p.1 p.2) decoded) := by
  induction kvs with
  | nil => exact fun _ ↦ rfl
  | cons p kvs ih =>
    intro decoded
    have hcons : escapeEntries (p :: kvs) = (escapeKey p.1, p.2) :: escapeEntries kvs := rfl
    rw [hcons, unescapeKeys, startsWithTag_escapeKey, List.foldl_cons]
    by_cases htag : startsWithTag p.1 = true
    · obtain ⟨r, hr⟩ := startsWithTag_iff.mp htag
      have hprefixed : TAG ++ TAG <+: escapeKey p.1 := by
        rw [escapeKey, if_pos htag, hr]
        exact ⟨r, rfl⟩
      have hdrop : (escapeKey p.1).drop 1 = p.1 := by
        rw [escapeKey, if_pos htag]
        rfl
      rw [if_pos htag, if_pos hprefixed, hdrop, ih]
    · rw [if_neg htag, escapeKey, if_neg htag, ih]

/-- **Decoding an escaped object gives the object back.** -/
theorem decodeObject_escapeEntries {kvs : Props RpcValue} (h : Ordered kvs) :
    decodeObject (escapeEntries kvs) = .ok (.obj kvs) := by
  have hunescape : unescapeKeys (escapeEntries kvs) [] = .ok kvs := by
    rw [unescapeKeys_escapeEntries]
    exact congrArg Except.ok (ofEntries_of_ordered h)
  rw [decodeObject.eq_def, any_startsWithTag_escapeEntries]
  by_cases htag : (keys kvs).any startsWithTag = true
  · rw [if_pos htag]
    split
    · rename_i key data hsingle
      have hkey : key ≠ BYTES_TAG := by
        rintro rfl
        have hmem : (BYTES_TAG, data) ∈ escapeEntries kvs := by
          rw [hsingle]
          exact List.mem_cons_self
        obtain ⟨p, -, hp⟩ := List.mem_map.mp hmem
        exact escapeKey_ne_bytesTag p.1 (Prod.mk.inj hp).1
      rw [if_neg hkey, hunescape]
      rfl
    · rw [hunescape]
      rfl
  · rw [if_neg htag, escapeEntries_of_untagged htag]

theorem decodeObject_bytes (bytes : List Byte) :
    (reviveMembers [(BYTES_TAG, .leaf (.str (base64Encode bytes)))]).bind decodeObject
      = .ok (.leaf (.uint8Array bytes)) := by
  have hmem : reviveMembers [(BYTES_TAG, .leaf (.str (base64Encode bytes)))]
      = .ok [(BYTES_TAG, .leaf (.json (.str (base64Encode bytes))))] := rfl
  rw [hmem]
  change decodeObject _ = _
  have htag : startsWithTag BYTES_TAG = true := rfl
  simp only [decodeObject, keys_cons, keys_nil, List.any_cons, htag, Bool.true_or, if_true,
    decodeBytes, atob_base64Encode, ne_eq, not_true_eq_false, if_false]

/-! ## The round trip -/

/-- A leaf of a wire value. -/
def IsWireLeaf : RpcLeaf → Prop
  | .json .undefined => False
  | .json (.num x) => x.isFinite = true ∧ x.isNegZero = false
  | .view _ => False
  | _ => True

/-- A value RPC carries: `null`, booleans, finite numbers other than `-0`, strings, bytes, and arrays
and plain objects of these. -/
structure WireValue where
  value : RpcValue
  wf : value.WellFormed IsWireLeaf

/-- The value with its byte values as `Uint8Array`. -/
def WireValue.received (v : WireValue) : RpcValue := v.value.mapLeaf receivedLeaf

theorem onWire_bytesObject (bytes : List Byte) : OnWire (bytesObject bytes) := by
  refine .obj (List.pairwise_singleton _ _) fun p hp ↦ ?_
  rw [List.mem_singleton.mp hp]
  exact .leaf ⟨rfl, rfl⟩

/-- The data of a value, and what the reviver makes of it. -/
def Carried (v : RpcValue) (d : JsData) : Prop :=
  replaceValue v = .ok d ∧ OnWire d ∧ reviveJson d = .ok (v.mapLeaf receivedLeaf)

theorem exists_carried_leaf {l : RpcLeaf} (hl : IsWireLeaf l) : ∃ d, Carried (.leaf l) d := by
  cases l with
  | json l =>
    refine ⟨.leaf l, rfl, .leaf ?_, rfl⟩
    cases l with
    | undefined => exact absurd hl id
    | num x => exact ⟨rfl, by rw [wireLeaf, if_pos hl.1, JsNumber.unsigned_of_not_negZero hl.2]⟩
    | _ => exact ⟨rfl, rfl⟩
  | uint8Array bytes =>
    exact ⟨_, rfl, onWire_bytesObject bytes, decodeObject_bytes bytes⟩
  | arrayBuffer bytes =>
    exact ⟨_, rfl, onWire_bytesObject bytes, decodeObject_bytes bytes⟩
  | view name => exact absurd hl id

theorem exists_carried_elements {xs : List RpcValue} (h : ∀ x ∈ xs, ∃ d, Carried x d) :
    ∃ ds, replaceElements xs = .ok ds ∧ (∀ d ∈ ds, OnWire d) ∧
      reviveElements ds = .ok (xs.map (·.mapLeaf receivedLeaf)) := by
  induction xs with
  | nil => exact ⟨[], rfl, fun d hd ↦ absurd hd List.not_mem_nil, rfl⟩
  | cons x xs ih =>
    obtain ⟨d, hd, hwire, hback⟩ := h x List.mem_cons_self
    obtain ⟨ds, hds, hwires, hbacks⟩ := ih fun y hy ↦ h y (List.mem_cons_of_mem x hy)
    refine ⟨d :: ds, ?_, List.forall_mem_cons.mpr ⟨hwire, hwires⟩, ?_⟩
    · rw [replaceElements, hd, hds]
      rfl
    · rw [reviveElements, hback, hbacks]
      rfl

/-- The members are carried whatever happens to their keys. -/
theorem exists_carried_members {kvs : Props RpcValue} (h : ∀ p ∈ kvs, ∃ d, Carried p.2 d) :
    ∃ ds, replaceMembers kvs = .ok ds ∧ keys ds = keys kvs ∧ (∀ p ∈ ds, OnWire p.2) ∧
      reviveMembers (escapeEntries ds)
        = .ok (escapeEntries (kvs.map fun p ↦ (p.1, p.2.mapLeaf receivedLeaf))) := by
  induction kvs with
  | nil => exact ⟨[], rfl, rfl, fun p hp ↦ absurd hp List.not_mem_nil, rfl⟩
  | cons p kvs ih =>
    obtain ⟨k, v⟩ := p
    obtain ⟨d, hd, hwire, hback⟩ := h (k, v) List.mem_cons_self
    obtain ⟨ds, hds, hkeys, hwires, hbacks⟩ := ih fun q hq ↦ h q (List.mem_cons_of_mem _ hq)
    simp only at hd hback
    refine ⟨(k, d) :: ds, ?_, by rw [keys_cons, keys_cons, hkeys],
      List.forall_mem_cons.mpr ⟨hwire, hwires⟩, ?_⟩
    · rw [replaceMembers, hd, hds]
      rfl
    · have hcons : escapeEntries ((k, d) :: ds) = (escapeKey k, d) :: escapeEntries ds := rfl
      rw [hcons, reviveMembers, hback, hbacks]
      rfl

/-- **Every wire value is carried.** -/
theorem exists_carried {v : RpcValue} (hv : v.WellFormed IsWireLeaf) : ∃ d, Carried v d := by
  induction hv with
  | leaf hl => exact exists_carried_leaf hl
  | @arr xs _ ih =>
    obtain ⟨ds, hds, hwires, hback⟩ := exists_carried_elements ih
    refine ⟨.arr ds, ?_, .arr hwires, ?_⟩
    · rw [replaceValue, hds]
      rfl
    · rw [reviveJson, hback, JsValue.mapLeaf_arr]
      rfl
  | @obj kvs ho _ ih =>
    obtain ⟨ds, hds, hkeys, hwires, hback⟩ := exists_carried_members ih
    have hods : Ordered ds := by
      rw [Ordered, hkeys]
      exact ho
    refine ⟨.obj (escapeObjectKeys ds), ?_, ?_, ?_⟩
    · rw [replaceValue, hds]
      rfl
    · rw [escapeObjectKeys_eq hods]
      refine .obj (ordered_escapeEntries hods) fun q hq ↦ ?_
      obtain ⟨p, hp, rfl⟩ := List.mem_map.mp hq
      exact hwires p hp
    · rw [escapeObjectKeys_eq hods, reviveJson, hback, JsValue.mapLeaf_obj]
      exact decodeObject_escapeEntries (ordered_map_snd.mpr ho)

/-- An object without reserved keys is left alone. -/
theorem decodeObject_of_noNul {value : Props RpcValue} (h : ∀ p ∈ value, 0 ∉ p.1) :
    decodeObject value = .ok (.obj value) := by
  rw [decodeObject.eq_def, if_neg]
  intro htag
  obtain ⟨k, hk, htag⟩ := List.any_eq_true.mp htag
  obtain ⟨v, hv⟩ := mem_keys.mp hk
  obtain ⟨r, rfl⟩ := startsWithTag_iff.mp htag
  exact h _ hv List.mem_cons_self

/-- The reviver leaves a value without NUL as it is. -/
theorem reviveJson_of_noNul {v : JsData} (h : Parsed (fun s ↦ 0 ∉ s) v) :
    reviveJson v = .ok (ofJson v) := by
  induction h with
  | leaf _ => rfl
  | @arr xs _ ih =>
    have hel : reviveElements xs = .ok (xs.map ofJson) := by
      clear * - ih
      induction xs with
      | nil => rfl
      | cons x xs ihxs =>
        rw [reviveElements, ih x List.mem_cons_self, ihxs fun y hy ↦ ih y (List.mem_cons_of_mem x hy)]
        rfl
    rw [reviveJson, hel, ofJson, JsValue.mapLeaf_arr]
    rfl
  | @obj kvs _ hkeys _ ih =>
    have hmem : reviveMembers kvs = .ok (kvs.map fun p ↦ (p.1, ofJson p.2)) := by
      clear * - ih
      induction kvs with
      | nil => rfl
      | cons p kvs ihkvs =>
        obtain ⟨k, v⟩ := p
        rw [reviveMembers, ih (k, v) List.mem_cons_self,
          ihkvs fun q hq ↦ ih q (List.mem_cons_of_mem _ hq)]
        rfl
    rw [reviveJson, hmem, ofJson, JsValue.mapLeaf_obj]
    refine decodeObject_of_noNul fun q hq ↦ ?_
    obtain ⟨p, hp, rfl⟩ := List.mem_map.mp hq
    exact hkeys p hp

/-- **The fast path agrees with the reviver on every text.** -/
theorem decodeRpcJson_eq (text : JsString) : decodeRpcJson text = parseWithReviver text := by
  rw [decodeRpcJson]
  split_ifs with hnul
  · rfl
  · rw [parseWithReviver]
    cases hparse : parse text with
    | none => rfl
    | some v => exact (reviveJson_of_noNul (parse_noNul hnul hparse)).symm

theorem decodeRpcJson_encodeRpcJson (v : WireValue) :
    ∃ text, encodeRpcJson v.value = .ok text ∧ decodeRpcJson text = .ok v.received := by
  obtain ⟨d, hd, hwire, hback⟩ := exists_carried v.wf
  obtain ⟨text, htext, hparse⟩ := hwire.parse_stringify
  refine ⟨text, ?_, ?_⟩
  · rw [encodeRpcJson, hd]
    simp only [Except.bind, htext]
  · rw [decodeRpcJson_eq, parseWithReviver, hparse]
    exact hback

/-- No leaf of the value is a byte value. -/
def HasNoBytes (v : RpcValue) : Prop := v.WellFormed fun l ↦ rpcBytesOf l = none

/-- **The codec loses nothing and invents nothing.** Every wire value comes back with its bytes as
`Uint8Array`, so different values have different texts and no value without bytes decodes to one
with bytes; and the fast path of the decoder is the reviver on every text. -/
theorem wireJson_faithful :
    (∀ v : WireValue, ∃ text, encodeRpcJson v.value = .ok text ∧
      decodeRpcJson text = .ok v.received) ∧
    (∀ u v : WireValue, encodeRpcJson u.value = encodeRpcJson v.value → u.received = v.received) ∧
    (∀ v : WireValue, HasNoBytes v.value → ∃ text w, encodeRpcJson v.value = .ok text ∧
      decodeRpcJson text = .ok w ∧ HasNoBytes w) ∧
    ∀ text, decodeRpcJson text = parseWithReviver text := by
  refine ⟨decodeRpcJson_encodeRpcJson, fun u v h ↦ ?_, fun v hv ↦ ?_, decodeRpcJson_eq⟩
  · obtain ⟨t, ht, hdec⟩ := decodeRpcJson_encodeRpcJson u
    obtain ⟨t', ht', hdec'⟩ := decodeRpcJson_encodeRpcJson v
    rw [ht, ht', Except.ok.injEq] at h
    rw [h, hdec', Except.ok.injEq] at hdec
    exact hdec.symm
  · obtain ⟨t, ht, hdec⟩ := decodeRpcJson_encodeRpcJson v
    refine ⟨t, _, ht, hdec, JsValue.WellFormed.mapLeaf (fun l hl ↦ ?_) hv⟩
    rw [receivedLeaf, hl]
    exact hl

end Vibestudio.Rpc

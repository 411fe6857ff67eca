import Mathlib
import Vibestudio.Server.AcquisitionStore

/-!
# Receipts are read back as they were written

A settlement stores the canonical texts of a decision and a resolution with digests of both, and
`owned` parses the texts and computes the digests again. What is parsed is the canonical form and not
the value, so the digests agree because serializing a canonical form serializes the value.
-/

namespace Vibestudio.Server

open Js Sqlite Shared Transition

variable {host : AcquisitionHost} {G : Type}

/-! ## Canonical texts -/

theorem ascii_of_all {s : JsString} (h : (s.all fun c ↦ decide (c.val < 0x80)) = true) :
    ∀ c ∈ s, c.val < 0x80 :=
  fun c hc ↦ of_decide_eq_true (List.all_eq_true.mp h c hc)

/-- A value the serializer accepts passes the schema. -/
theorem jsonValueSchema_of_accepted {v : JsData} (h : v.WellFormed AcceptedLeaf) :
    jsonValueSchema v = true := by
  induction h with
  | @leaf l hl =>
    cases l with
    | undefined => exact absurd hl id
    | num x => exact hl
    | _ => rfl
  | @arr xs _ ih =>
    rw [jsonValueSchema]
    clear * - ih
    induction xs with
    | nil => rfl
    | cons x xs ihxs =>
      rw [jsonElementsSchema, ih x List.mem_cons_self, Bool.true_and]
      exact ihxs fun y hy ↦ ih y (List.mem_cons_of_mem x hy)
  | @obj kvs _ _ ih =>
    rw [jsonValueSchema]
    clear * - ih
    induction kvs with
    | nil => rfl
    | cons p kvs ihkvs =>
      rw [jsonMembersSchema, ih p List.mem_cons_self, Bool.true_and]
      exact ihkvs fun q hq ↦ ih q (List.mem_cons_of_mem p hq)

theorem canonicalText_eq_ok {v : JsData} (hv : IsJson v) {t : JsString} :
    canonicalText host v = .ok t ↔
      Encodable host.nfc v ∧ stringify (canonical (scheme host.nfc) v) = some t := by
  have hiff : ∀ o, canonicalJson host.nfc v = .ok o ↔
      Encodable host.nfc v ∧ o = stringify (canonical (scheme host.nfc) v) :=
    fun _ ↦ canonicalJson_eq_ok_iff hv
  rw [canonicalText]
  cases hc : canonicalJson host.nfc v with
  | error e =>
    refine ⟨fun h ↦ (nomatch h), fun h ↦ ?_⟩
    have := (hiff (some t)).mpr ⟨h.1, h.2.symm⟩
    rw [hc] at this
    exact nomatch this
  | ok o =>
    obtain ⟨henc, ho⟩ := (hiff o).mp hc
    rw [← ho]
    cases o with
    | none => exact ⟨fun h ↦ (nomatch h), fun h ↦ (nomatch h.2)⟩
    | some s =>
      simp only [Except.ok.injEq, Option.some.injEq]
      exact ⟨fun h ↦ ⟨henc, h⟩, fun h ↦ h.2⟩

/-- A canonical form is normalized as its value is. -/
theorem normalize_canonical {v : JsData} (h : Encodable host.nfc v) :
    Shared.normalize host.nfc (canonical (scheme host.nfc) v) = Shared.normalize host.nfc v := by
  have hc := encodable_canonical h
  rw [normalize_of_encodable hc.accepted hc.distinct, normalize_of_encodable h.accepted h.distinct,
    canonical_idem (S := scheme host.nfc) host.nfc.idem normalizeLeaf_normalizeLeaf h.distinct]

/-- A member of a canonical form. -/
theorem member_canonical {v x : JsData} {key : JsString} (henc : Encodable host.nfc v)
    (hkey : ∀ c ∈ key, c.val < 0x80) (hproto : key ≠ protoKey) (h : member key v = some x) :
    member key (canonical (scheme host.nfc) v) = some (canonical (scheme host.nfc) x) := by
  cases v with
  | leaf l => exact nomatch h
  | arr xs => exact nomatch h
  | obj kvs =>
    cases henc.distinct with | obj hnd _ =>
    have hnd' : (keys (kvs.map fun p ↦
        ((scheme host.nfc).key p.1, canonical (scheme host.nfc) p.2))).Nodup := by
      rw [keys_map_key]
      exact hnd
    have hkvs : (keys kvs).Nodup := by
      have := henc.accepted
      rw [JsValue.wellFormed_obj] at this
      exact this.1.nodup
    have hmem : (key, x) ∈ kvs := (getProp_eq_some hkvs).mp h
    have hmem' : (key, canonical (scheme host.nfc) x) ∈ kvs.map fun p ↦
        ((scheme host.nfc).key p.1, canonical (scheme host.nfc) p.2) := by
      refine List.mem_map.mpr ⟨_, hmem, ?_⟩
      exact Prod.ext (host.ascii key hkey) rfl
    rw [canonical_obj, member, getProp_assignAll_sort _ hnd' hproto]
    exact (getProp_eq_some hnd').mpr hmem'

/-! ## Digests -/

/-- Digests of objects whose members are normalized alike. -/
theorem digest_congr (kind : JsString) {kvs kvs' : Props JsData}
    (h : normalizeMembers host.nfc kvs = normalizeMembers host.nfc kvs') :
    digest host kind (.obj kvs) = digest host kind (.obj kvs') := by
  simp only [digest, canonicalText, canonicalJson, Shared.normalize, h]

theorem digest_decisionValue (id bindingDigest : JsString) {decision : JsData}
    (h : Encodable host.nfc decision) (kind : JsString) :
    digest host kind (decisionValue id bindingDigest (canonical (scheme host.nfc) decision)) =
      digest host kind (decisionValue id bindingDigest decision) :=
  digest_congr kind (by simp only [normalizeMembers, normalize_canonical h])

theorem digest_resolutionValue (id bindingDigest decisionDigest : JsString) {resolution : JsData}
    (h : Encodable host.nfc resolution) (kind : JsString) :
    digest host kind (resolutionValue id bindingDigest decisionDigest
        (canonical (scheme host.nfc) resolution)) =
      digest host kind (resolutionValue id bindingDigest decisionDigest resolution) :=
  digest_congr kind (by simp only [normalizeMembers, normalize_canonical h])

/-! ## The terminal state of a resolution -/

theorem text_injective {state state' : TerminalState} (h : state.text = state'.text) :
    state = state' := by
  cases state <;> cases state' <;> first | rfl | exact absurd h (by decide +kernel)

theorem terminalState?_eq_some {o : Option JsData} {state : TerminalState} :
    terminalState? o = some state ↔ o = some (string state.text) := by
  constructor
  · intro h
    exact of_decide_eq_true (List.find?_some (p := fun t : TerminalState ↦
      decide (o = some (.leaf (.str t.text)))) h)
  · rintro rfl
    have hiff : ∀ t : TerminalState, (some (string state.text) = some (.leaf (.str t.text))) ↔
        state = t := by
      refine fun t ↦ ⟨fun h ↦ text_injective ?_, fun h ↦ by rw [h, string]⟩
      rw [string, Option.some_inj, JsValue.leaf.injEq, JsLeaf.str.injEq] at h
      exact h
    simp only [terminalState?, hiff]
    cases state <;> rfl

theorem ascii_text (state : TerminalState) : ∀ c ∈ state.text, c.val < 0x80 := by
  cases state <;> exact ascii_of_all (by decide +kernel)

/-- What a resolution has to be, to be stored. -/
structure Resolution (host : AcquisitionHost) (value : JsData) (state : TerminalState) : Prop where
  hasState : member (lit "state") value = some (string state.text)
  hasValue : ∃ v, member (lit "value") value = some v ∧ jsonValueSchema v = true
  hasText : ∃ t, canonicalText host value = .ok t

theorem requireResolution_eq_ok {value : JsData} :
    requireResolution host value = .ok () ↔ ∃ state, Resolution host value state := by
  rw [requireResolution]
  constructor
  · intro h
    cases hstate : terminalState? (member (lit "state") value) with
    | none =>
      rw [hstate] at h
      exact nomatch h
    | some state =>
      cases hvalue : member (lit "value") value with
      | none =>
        rw [hstate, hvalue] at h
        exact nomatch h
      | some v =>
        rw [hstate, hvalue] at h
        simp only at h
        split_ifs at h
        obtain ⟨_, hschema, h⟩ := bind_eq_ok.mp h
        obtain ⟨t, ht, -⟩ := map_eq_ok.mp h
        rw [parseSchema] at hschema
        split_ifs at hschema with hv
        exact ⟨state, terminalState?_eq_some.mp hstate, ⟨v, hvalue, hv⟩, t, ht⟩
  · rintro ⟨state, hstate, ⟨v, hvalue, hv⟩, t, ht⟩
    have hne : v ≠ .leaf .undefined := by
      rintro rfl
      exact nomatch hv
    rw [terminalState?_eq_some.mpr hstate, hvalue]
    simp only [if_neg hne, parseSchema, if_pos hv, ht, Except.bind, Except.map]

/-- **The canonical form of a resolution** is a resolution with the same state. -/
theorem Resolution.canonical {value : JsData} {state : TerminalState} (hv : IsJson value)
    (h : Resolution host value state) : Resolution host (canonical (scheme host.nfc) value) state := by
  obtain ⟨hstate, ⟨v, hvalue, -⟩, t, ht⟩ := h
  obtain ⟨henc, -⟩ := (canonicalText_eq_ok hv).mp ht
  have hmember := fun {key x} ↦ @member_canonical host value x key henc
  have hacc : (Js.canonical (scheme host.nfc) value).WellFormed AcceptedLeaf :=
    accepted_canonical henc.accepted
  have hjson : IsJson (Js.canonical (scheme host.nfc) value) := hacc.mono fun _ ↦ isUndefined_of_accepted
  refine ⟨?_, ⟨_, hmember (ascii_of_all (by decide +kernel)) (by decide +kernel) hvalue, ?_⟩, ?_⟩
  · rw [hmember (ascii_of_all (by decide +kernel)) (by decide +kernel) hstate, string, canonical_leaf]
    change some (JsValue.leaf (JsLeaf.str (host.nfc.normalize state.text))) = _
    rw [host.ascii _ (ascii_text state)]
  · -- the member is part of an accepted value
    have hin := hmember (ascii_of_all (by decide +kernel)) (by decide +kernel) hvalue
    revert hin hacc
    cases Js.canonical (scheme host.nfc) value with
    | leaf l => exact fun _ hin ↦ nomatch hin
    | arr xs => exact fun _ hin ↦ nomatch hin
    | obj kvs =>
      intro hacc hin
      rw [JsValue.wellFormed_obj] at hacc
      exact jsonValueSchema_of_accepted
        (hacc.2 _ ((getProp_eq_some hacc.1.nodup).mp hin))
  · obtain ⟨s, hs, -⟩ := exists_text (encodable_canonical henc)
    exact ⟨s, (canonicalText_eq_ok hjson).mpr ⟨encodable_canonical henc, hs⟩⟩

/-! ## What a settlement stores -/

theorem parseText_canonicalText {v : JsData} {t : JsString} (hv : IsJson v)
    (h : canonicalText host v = .ok t) :
    Encodable host.nfc v ∧ parseText t = .ok (canonical (scheme host.nfc) v) := by
  obtain ⟨henc, hs⟩ := (canonicalText_eq_ok hv).mp h
  obtain ⟨s, hs', hparse⟩ := exists_text henc
  obtain rfl : t = s := Option.some.inj (hs.symm.trans hs')
  exact ⟨henc, by rw [parseText, hparse]⟩

/-- **A receipt made from a decision and a resolution passes its verification.** -/
theorem ownedReceipt_ok {id bindingDigest decisionDigest resolutionDigest decisionJson
    resolutionJson : JsString} {decision resolution : JsData} {state : TerminalState} (now : ℕ)
    (hdecision : IsJson decision) (hjson : IsJson resolution)
    (hresolution : Resolution host resolution state)
    (hdd : digest host (lit "decision") (decisionValue id bindingDigest decision) = .ok decisionDigest)
    (hrd : digest host (lit "resolution")
      (resolutionValue id bindingDigest decisionDigest resolution) = .ok resolutionDigest)
    (hdj : canonicalText host decision = .ok decisionJson)
    (hrj : canonicalText host resolution = .ok resolutionJson) :
    ∃ receipt, ownedReceipt host id bindingDigest
      ⟨state, decisionJson, decisionDigest, resolutionJson, resolutionDigest, now⟩ = .ok receipt := by
  obtain ⟨henc, hparse⟩ := parseText_canonicalText hdecision hdj
  obtain ⟨henc', hparse'⟩ := parseText_canonicalText hjson hrj
  have hcanonical := hresolution.canonical hjson
  have hrequire := requireResolution_eq_ok.mpr ⟨state, hcanonical⟩
  have hmatch : ¬(decisionDigest ≠ decisionDigest ∨ resolutionDigest ≠ resolutionDigest ∨
      member (lit "state") (Js.canonical (scheme host.nfc) resolution) ≠
        some (string state.text)) := by
    rintro (h | h | h)
    · exact h rfl
    · exact h rfl
    · exact h hcanonical.hasState
  rw [← digest_decisionValue id bindingDigest henc] at hdd
  rw [← digest_resolutionValue id bindingDigest decisionDigest henc'] at hrd
  simp only [ownedReceipt, hparse, hparse', hrequire, hdd, hrd, Except.bind, if_neg hmatch]
  exact ⟨_, rfl⟩

end Vibestudio.Server

import Vibestudio.Js.Text

/-!
# Resource scopes

The semantic envelopes of `authorization.ts`: an exact key, a namespace prefix, a web origin, a
domain, or the whole network. `scopeCovers` says which keys an envelope contains and
`resourceScopeContains` is the code's decision whether one envelope contains another.

The decision is sound (`covers_of_resourceScopeContains`) and not complete: two envelopes of
different kinds are never found to contain each other, nor are a domain and its subdomain. A grant
that allows can live with that, a grant that denies cannot, which is why `ScopesMeet` and
`MeetsUnseen` are kept apart from containment here.
-/

namespace Vibestudio.Shared

open Js

/-- The parts of `new URL(value)` the code reads. -/
structure Url where
  protocol : JsString
  origin : JsString
  hostname : JsString

inductive ResourceScope where
  | exact (key : JsString)
  | namespacePrefix (pre : JsString)
  | origin (origin : JsString)
  | domain (domain : JsString)
  | network
deriving DecidableEq

/-- The expression `/[#/:._-]$/u`. -/
def endsInSeparator (s : JsString) : Bool := s.getLast?.any (decide <| · ∈ lit "#/:._-")

/-- A bare name is a hierarchical namespace and ends at a slash; a prefix that ends in a separator
is an explicit lexical namespace. -/
def prefixCovers (pre key : JsString) : Bool :=
  decide (pre = [] ∨ key = pre) ||
    (decide (pre <+: key) && (endsInSeparator pre || decide (key[pre.length]? = some 47)))

section Decisions

-- The URL parser of the host: `none` when `new URL(value)` throws.
variable (url : JsString → Option Url)

def resourceHostname (value : JsString) : Option JsString := (url value).map Url.hostname

/-- A hostname that is the domain or ends in a dot and the domain. -/
def inDomain (domain hostname : JsString) : Bool :=
  decide (hostname ≠ []) && decide (hostname = domain ∨ 46 :: domain <:+ hostname)

def scopeCovers : ResourceScope → JsString → Bool
  | .exact key, k => decide (key = k)
  | .namespacePrefix pre, k => prefixCovers pre k
  | .origin origin, k => decide (k = origin)
  | .domain domain, k => (resourceHostname url k).any (inDomain domain)
  | .network, _ => true

/-- `resourceScopeContains(parent, child)`. -/
def resourceScopeContains (parent child : ResourceScope) : Bool :=
  match child, parent with
  | .exact key, _ => scopeCovers url parent key
  | .namespacePrefix pre, .namespacePrefix pre' => prefixCovers pre' pre
  | .origin origin, .origin origin' => decide (origin = origin')
  | .domain domain, .domain domain' => decide (domain = domain')
  | .network, .network => true
  | _, _ => false

/-! ## Containment -/

/-- The keys two envelopes share. -/
def ScopesMeet (s t : ResourceScope) : Prop :=
  ∃ k, scopeCovers url s k = true ∧ scopeCovers url t k = true

/-- The two envelopes share a key, and the code finds neither inside the other. -/
def MeetsUnseen (s t : ResourceScope) : Prop :=
  ScopesMeet url s t ∧ resourceScopeContains url s t = false ∧ resourceScopeContains url t s = false

variable {url}

theorem prefixCovers_iff {pre key : JsString} : prefixCovers pre key = true ↔
    pre = [] ∨ key = pre ∨
      (pre <+: key ∧ (endsInSeparator pre = true ∨ key[pre.length]? = some 47)) := by
  simp [prefixCovers, or_assoc]

theorem prefix_of_prefixCovers {pre key : JsString} (h : prefixCovers pre key = true) :
    pre <+: key := by
  rcases prefixCovers_iff.mp h with rfl | rfl | ⟨h, _⟩
  · exact List.nil_prefix
  · exact List.prefix_rfl
  · exact h

/-- What stands behind a namespace in a key stands there in every longer key. -/
theorem prefixCovers_of_prefix {pre mid key : JsString} (h : prefixCovers pre mid = true)
    (hmk : mid <+: key) (hne : mid ≠ pre) : prefixCovers pre key = true := by
  rcases prefixCovers_iff.mp h with rfl | rfl | ⟨hp, hs⟩
  · exact prefixCovers_iff.mpr (Or.inl rfl)
  · exact absurd rfl hne
  · refine prefixCovers_iff.mpr (Or.inr (Or.inr ⟨hp.trans hmk, hs.imp_right fun hs ↦ ?_⟩))
    obtain ⟨hlt, hs⟩ := List.getElem?_eq_some_iff.mp hs
    rw [List.prefix_iff_getElem?.mp hmk _ hlt, hs]

/-- Namespaces nest. -/
theorem prefixCovers_trans {pre mid key : JsString} (h : prefixCovers pre mid = true)
    (h' : prefixCovers mid key = true) : prefixCovers pre key = true := by
  by_cases heq : mid = pre
  · exact heq ▸ h'
  · exact prefixCovers_of_prefix h (prefix_of_prefixCovers h') heq

/-- **Containment is sound**: what the code finds inside an envelope has no key outside it. -/
theorem covers_of_resourceScopeContains {parent child : ResourceScope} {k : JsString}
    (h : resourceScopeContains url parent child = true) (hk : scopeCovers url child k = true) :
    scopeCovers url parent k = true := by
  cases child with
  | exact key =>
    obtain rfl : key = k := by simpa [scopeCovers] using hk
    simpa [resourceScopeContains] using h
  | namespacePrefix pre =>
    cases parent with
    | namespacePrefix pre' => exact prefixCovers_trans (by simpa [resourceScopeContains] using h) hk
    | _ => simp [resourceScopeContains] at h
  | origin origin =>
    cases parent with
    | origin origin' =>
      obtain rfl : origin = origin' := by simpa [resourceScopeContains] using h
      exact hk
    | _ => simp [resourceScopeContains] at h
  | domain domain =>
    cases parent with
    | domain domain' =>
      obtain rfl : domain = domain' := by simpa [resourceScopeContains] using h
      exact hk
    | _ => simp [resourceScopeContains] at h
  | network =>
    cases parent with
    | network => exact hk
    | _ => simp [resourceScopeContains] at h

/-- Two namespaces that share a key are nested: both are prefixes of the key, and what ends the
shorter one in the key ends it in the longer one. -/
theorem prefixCovers_or_of_common {pre pre' k : JsString} (h : prefixCovers pre k = true)
    (h' : prefixCovers pre' k = true) (hle : pre.length ≤ pre'.length) :
    prefixCovers pre pre' = true := by
  have hpp : pre <+: pre' := List.prefix_of_prefix_length_le (prefix_of_prefixCovers h)
    (prefix_of_prefixCovers h') hle
  rcases prefixCovers_iff.mp h with rfl | rfl | ⟨_, hs⟩
  · exact prefixCovers_iff.mpr (Or.inl rfl)
  · have heq := (prefix_of_prefixCovers h').eq_of_length
      (Nat.le_antisymm (prefix_of_prefixCovers h').length_le hle)
    exact prefixCovers_iff.mpr (Or.inr (Or.inl heq))
  · by_cases heq : pre' = pre
    · exact prefixCovers_iff.mpr (Or.inr (Or.inl heq))
    · have hlt : pre.length < pre'.length :=
        lt_of_le_of_ne hle fun hl ↦ heq (hpp.eq_of_length hl).symm
      refine prefixCovers_iff.mpr (Or.inr (Or.inr ⟨hpp, hs.imp_right fun hs ↦ ?_⟩))
      rw [← hs, List.prefix_iff_getElem?.mp (prefix_of_prefixCovers h') _ hlt,
        List.getElem?_eq_getElem hlt]

/-- **Where containment is complete**: envelopes of one kind other than domains, and a single key
with anything. -/
theorem contains_of_scopesMeet {s t : ResourceScope} (h : ScopesMeet url s t)
    (hkind : match s, t with
      | .exact _, _ | _, .exact _ => True
      | .namespacePrefix _, .namespacePrefix _ | .origin _, .origin _ | .network, .network => True
      | _, _ => False) :
    resourceScopeContains url s t = true ∨ resourceScopeContains url t s = true := by
  obtain ⟨k, hs, ht⟩ := h
  match s, t with
  | .exact key, t =>
    obtain rfl : key = k := by simpa [scopeCovers] using hs
    exact Or.inr (by simpa [resourceScopeContains] using ht)
  | s, .exact key =>
    obtain rfl : key = k := by simpa [scopeCovers] using ht
    exact Or.inl (by simpa [resourceScopeContains] using hs)
  | .namespacePrefix pre, .namespacePrefix pre' =>
    rcases le_total pre.length pre'.length with hle | hle
    · exact Or.inl (by simpa [resourceScopeContains] using prefixCovers_or_of_common hs ht hle)
    · exact Or.inr (by simpa [resourceScopeContains] using prefixCovers_or_of_common ht hs hle)
  | .origin o, .origin o' =>
    have ho : k = o := by simpa [scopeCovers] using hs
    have ho' : k = o' := by simpa [scopeCovers] using ht
    exact Or.inl (by simp [resourceScopeContains, ← ho, ← ho'])
  | .network, .network => exact Or.inl rfl

theorem resourceScopeContains_refl (s : ResourceScope) : resourceScopeContains url s s = true := by
  match s with
  | .exact key => exact decide_eq_true rfl
  | .namespacePrefix pre => exact prefixCovers_iff.mpr (.inr (.inl rfl))
  | .origin _ | .domain _ => exact decide_eq_true rfl
  | .network => rfl

/-- Containment of an envelope that is not a single key is containment among envelopes of one kind. -/
theorem resourceScopeContains_trans {s t u : ResourceScope} (hst : resourceScopeContains url s t = true)
    (htu : resourceScopeContains url t u = true) : resourceScopeContains url s u = true := by
  match u, t, s with
  | .exact key, t, s =>
    -- a single key is contained where it is covered
    exact covers_of_resourceScopeContains hst (k := key) htu
  | .namespacePrefix pre, .namespacePrefix mid, .namespacePrefix pre' => exact prefixCovers_trans hst htu
  | .origin o, .origin o', .origin o'' =>
    exact decide_eq_true ((of_decide_eq_true htu).trans (of_decide_eq_true hst))
  | .domain d, .domain d', .domain d'' =>
    exact decide_eq_true ((of_decide_eq_true htu).trans (of_decide_eq_true hst))
  | .network, .network, .network => rfl

variable (url) in
/-- **Containment of scopes is containment of their keys**, and a preorder. Namespaces that share a key are nested. -/
theorem resourceScopeContains_containment :
    (∀ P C k, resourceScopeContains url P C = true → scopeCovers url C k = true → scopeCovers url P k = true) ∧
    (∀ P, resourceScopeContains url P P = true) ∧
    (∀ P C D, resourceScopeContains url P C = true → resourceScopeContains url C D = true →
      resourceScopeContains url P D = true) ∧
    ∀ pre pre' k, scopeCovers url (.namespacePrefix pre) k = true → scopeCovers url (.namespacePrefix pre') k = true →
      resourceScopeContains url (.namespacePrefix pre) (.namespacePrefix pre') = true ∨
      resourceScopeContains url (.namespacePrefix pre') (.namespacePrefix pre) = true :=
  ⟨fun _ _ _ ↦ covers_of_resourceScopeContains, resourceScopeContains_refl,
    fun _ _ _ ↦ resourceScopeContains_trans, fun _ _ k hpre hpre' ↦ contains_of_scopesMeet ⟨k, hpre, hpre'⟩ trivial⟩

end Decisions

end Vibestudio.Shared

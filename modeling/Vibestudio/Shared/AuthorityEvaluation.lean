import Vibestudio.Shared.Authorization

/-!
# What a decision says about the grants

Every node of a requirement decides by the truth of its leaves alone; the single-use confirmations
a tree selects decide only whether it throws. `granted` is that truth value, a monotone function of
the leaves, and `evaluate_allowed` ties it to the evaluator. Monotonicity in grants and locks is
then a statement about one leaf.

The throw is a separate matter. `evaluate_error` finds, for every exception, two capability leaves
under one `all` node that have selected confirmations of different identity, and a richer set of
grants can bring that about.
-/

namespace Vibestudio.Shared

open Js

variable {url : JsString → Option Url} {input input' : AuthorityEvaluationInput}

/-! ## The truth value of a requirement -/

section Granted

variable (url input)

mutual

/-- The decision of a requirement as a function of its leaves. -/
def granted : AuthorityRequirement → Bool
  | .capability leaf => (evaluateCapability url input leaf).allowed
  | .relationship name value => (evaluateRelationship input name value).allowed
  | .session audience minVersion => (evaluateSession input audience minVersion).allowed
  | .all requirements => everyGranted requirements
  | .any requirements => someGranted requirements

def everyGranted : List AuthorityRequirement → Bool
  | [] => true
  | child :: rest => granted child && everyGranted rest

def someGranted : List AuthorityRequirement → Bool
  | [] => false
  | child :: rest =>
    (requirementMatchesOrigin input.context child && granted child) || someGranted rest

end

end Granted

/-- An `any` node is allowed when one of the decisions it looked at is. -/
theorem anyDecision_allowed (requirements : List AuthorityRequirement)
    (decisions : List AuthorizationDecision) :
    (anyDecision input requirements decisions).allowed
      = decisions.any AuthorizationDecision.allowed := by
  rw [anyDecision]
  split_ifs with h
  · rw [h]; rfl
  · split
    · next d hd =>
      rw [List.find?_some hd, eq_comm, List.any_eq_true]
      exact ⟨d, List.mem_of_find?_eq_some hd, List.find?_some hd⟩
    · next hd =>
      rw [List.find?_eq_none] at hd
      rw [AuthorizationDecision.plain, eq_comm, List.any_eq_false]
      exact hd

mutual

/-- **A decision is the truth value of its requirement.** -/
theorem evaluate_allowed : ∀ {r : AuthorityRequirement} {d : AuthorizationDecision},
    evaluate url input r = .ok d → d.allowed = granted url input r
  | .all rs, d, h => by
    rw [evaluate] at h
    split at h
    · cases h
    · next refused he =>
      obtain rfl := Except.ok.inj h
      exact (evaluateAll_allowed he).trans (by rw [granted])
    · next consumable he =>
      obtain rfl := Except.ok.inj h
      exact (evaluateAll_allowed he).trans (by rw [granted])
  | .any rs, d, h => by
    rw [evaluate] at h
    split at h
    · cases h
    · next decisions he =>
      obtain rfl := Except.ok.inj h
      rw [anyDecision_allowed, evaluateMatching_allowed he, granted]
  | .session _ _, d, h => by
    rw [evaluate] at h
    obtain rfl := Except.ok.inj h
    rw [granted]
  | .relationship _ _, d, h => by
    rw [evaluate] at h
    obtain rfl := Except.ok.inj h
    rw [granted]
  | .capability _, d, h => by
    rw [evaluate] at h
    obtain rfl := Except.ok.inj h
    rw [granted]

theorem evaluateAll_allowed : ∀ {rs : List AuthorityRequirement}
    {c : Option AuthorizationDecision} {x : AuthorizationDecision ⊕ Option AuthorizationDecision},
    evaluateAll url input c rs = .ok x →
      Sum.elim AuthorizationDecision.allowed (fun _ ↦ true) x = everyGranted url input rs
  | [], c, x, h => by
    rw [evaluateAll] at h
    obtain rfl := Except.ok.inj h
    rw [everyGranted, Sum.elim_inr]
  | child :: rest, c, x, h => by
    rw [evaluateAll] at h
    split at h
    · cases h
    · next d hd =>
      have hchild := evaluate_allowed hd
      rw [everyGranted, ← hchild]
      split_ifs at h with hden hcons
      · obtain rfl := Except.ok.inj h
        rw [Sum.elim_inl, hden, Bool.false_and]
      · rw [Bool.not_eq_false] at hden
        rw [hden, Bool.true_and, evaluateAll_allowed h]
      · rw [Bool.not_eq_false] at hden
        rw [hden, Bool.true_and, evaluateAll_allowed h]

theorem evaluateMatching_allowed : ∀ {rs : List AuthorityRequirement}
    {ds : List AuthorizationDecision}, evaluateMatching url input rs = .ok ds →
      ds.any AuthorizationDecision.allowed = someGranted url input rs
  | [], ds, h => by
    rw [evaluateMatching] at h
    obtain rfl := Except.ok.inj h
    rw [someGranted, List.any_nil]
  | child :: rest, ds, h => by
    rw [evaluateMatching] at h
    rw [someGranted]
    split_ifs at h with hm
    · split at h
      · cases h
      · next d hd =>
        split at h
        · cases h
        · next ds' hds =>
          obtain rfl := Except.ok.inj h
          rw [List.any_cons, evaluate_allowed hd, evaluateMatching_allowed hds, hm, Bool.true_and]
    · rw [Bool.not_eq_true] at hm
      rw [hm, Bool.false_and, Bool.false_or, evaluateMatching_allowed h]

end

/-- The second input decides like the first except for capability leaves, of which it allows at
least those the first allows. -/
structure LeafwiseLe (url : JsString → Option Url) (input input' : AuthorityEvaluationInput) :
    Prop where
  context : input'.context = input.context
  now : input'.now = input.now
  relation : input'.relation = input.relation
  leaf : ∀ leaf, (evaluateCapability url input leaf).allowed = true →
    (evaluateCapability url input' leaf).allowed = true

mutual

/-- **The decision is monotone in its leaves.** -/
theorem granted_mono (hle : LeafwiseLe url input input') : ∀ {r : AuthorityRequirement},
    granted url input r = true → granted url input' r = true
  | .capability leaf, h => by
    rw [granted] at h ⊢
    exact hle.leaf leaf h
  | .relationship _ _, h => by
    rw [granted, evaluateRelationship, AuthorizationDecision.plain] at h ⊢
    rw [hle.relation, hle.context]
    exact h
  | .session _ _, h => by
    rw [granted, evaluateSession, AuthorizationDecision.plain] at h ⊢
    rw [hle.now, hle.context]
    exact h
  | .all _, h => by
    rw [granted] at h ⊢
    exact everyGranted_mono hle h
  | .any _, h => by
    rw [granted] at h ⊢
    exact someGranted_mono hle h

theorem everyGranted_mono (hle : LeafwiseLe url input input') : ∀ {rs : List AuthorityRequirement},
    everyGranted url input rs = true → everyGranted url input' rs = true
  | [], _ => by rw [everyGranted]
  | _ :: _, h => by
    rw [everyGranted, Bool.and_eq_true] at h ⊢
    exact ⟨granted_mono hle h.1, everyGranted_mono hle h.2⟩

theorem someGranted_mono (hle : LeafwiseLe url input input') : ∀ {rs : List AuthorityRequirement},
    someGranted url input rs = true → someGranted url input' rs = true
  | [], h => by simp [someGranted] at h
  | _ :: _, h => by
    rw [someGranted, Bool.or_eq_true, Bool.and_eq_true] at h ⊢
    rw [hle.context]
    exact h.imp (fun h ↦ ⟨h.1, granted_mono hle h.2⟩) (someGranted_mono hle)

end

/-! ## One leaf -/

/-- A leaf of an authenticated principal with no open tier, lock or manifest in the way. -/
def leafReachesGrants (url : JsString → Option Url) (input : AuthorityEvaluationInput)
    (leaf : CapabilityRequirement) : Prop :=
  input.locks = [] ∧ ∃ principal,
    (principalForRequirement input.context leaf).filter (decide <| · ≠ []) = some principal ∧
    isCanonicalPrincipal principal = true ∧
    ¬(input.context.authorizingOrigin.kind = .code ∧
      requestedByManifest url input principal leaf.capability = false)

/-- **What an allowed leaf rests on**: the open tier, or no matching denial and a selected grant. -/
theorem evaluateCapability_allowed_iff {leaf : CapabilityRequirement} :
    (evaluateCapability url input leaf).allowed = true ↔
      (input.tier = some .open ∧ ∃ principal,
        (principalForRequirement input.context leaf).filter (decide <| · ≠ []) = some principal ∧
        isCanonicalPrincipal principal = true) ∨
      (input.tier ≠ some .open ∧ leafReachesGrants url input leaf ∧
        (∀ g ∈ matchingAuthorityGrants url input leaf.capability, g.effect = .allow) ∧
        (selectedGrant url input leaf.capability).isSome = true) := by
  have heffect : ∀ g : AuthorityGrant, ¬(decide (g.effect = .deny) = true) ↔ g.effect = .allow := by
    intro g
    cases g.effect <;> decide
  rw [evaluateCapability, leafReachesGrants]
  generalize (principalForRequirement input.context leaf).filter (decide <| · ≠ []) = p
  cases p with
  | none => simp [AuthorizationDecision.plain]
  | some principal =>
    by_cases hc : isCanonicalPrincipal principal = true
    swap
    · simp [hc, AuthorizationDecision.plain]
    by_cases ht : input.tier = some .open
    · simp [hc, ht, AuthorizationDecision.plain]
    cases hl : input.locks with
    | cons l ls => simp [hc, ht, AuthorizationDecision.plain]
    | nil =>
      simp only [hc, ht, Bool.true_eq_false, if_false, false_and, false_or, ne_eq, not_false_eq_true,
        true_and, Option.some.injEq, exists_eq_left']
      rw [evaluateGrants]
      split_ifs with hm
      · simp [hm, AuthorizationDecision.plain]
      · rw [← List.find?_eq_none.trans (forall₂_congr fun g _ ↦ heffect g)]
        cases List.find? (fun g : AuthorityGrant ↦ decide (g.effect = .deny))
          (matchingAuthorityGrants url input leaf.capability) with
        | some denied => simp [AuthorizationDecision.plain]
        | none =>
          cases selectedGrant url input leaf.capability <;> simp [hm, AuthorizationDecision.plain]

/-! ## Richer grants -/

theorem selectedGrant_isSome_iff {capability : JsString} :
    (selectedGrant url input capability).isSome = true ↔ ∃ g ∈ input.grants,
      (grantApplies input capability g && grantResourceMatches url input g) = true ∧
      unconsumed g = true ∧ admittedByTier input g = true ∧ g.effect = .allow := by
  simp only [selectedGrant, matchingAuthorityGrants, List.find?_isSome, List.mem_filter,
    decide_eq_true_eq, and_assoc]

/-- Allow grants beyond those there are keep every allowed leaf. -/
theorem leafwiseLe_of_allow {gs gs' : List AuthorityGrant} (hsub : gs ⊆ gs')
    (hnew : ∀ g ∈ gs', g ∈ gs ∨ g.effect = .allow) :
    LeafwiseLe url { input with grants := gs } { input with grants := gs' } where
  context := rfl
  now := rfl
  relation := rfl
  leaf leaf h := by
    rw [evaluateCapability_allowed_iff] at h ⊢
    refine h.imp id fun ⟨ht, hreach, hdeny, hsel⟩ ↦ ⟨ht, hreach, fun g hg ↦ ?_, ?_⟩
    · obtain ⟨hg, hp⟩ := List.mem_filter.mp hg
      exact (hnew g hg).elim (fun hg ↦ hdeny g (List.mem_filter.mpr ⟨hg, hp⟩)) id
    · rw [selectedGrant_isSome_iff] at hsel ⊢
      obtain ⟨g, hg, hp⟩ := hsel
      exact ⟨g, hsub hg, hp⟩

/-- Without denials that were there, every allowed leaf stays. -/
theorem leafwiseLe_of_deny {gs gs' : List AuthorityGrant} (hsub : gs ⊆ gs')
    (hnew : ∀ g ∈ gs', g ∈ gs ∨ g.effect = .deny) :
    LeafwiseLe url { input with grants := gs' } { input with grants := gs } where
  context := rfl
  now := rfl
  relation := rfl
  leaf leaf h := by
    rw [evaluateCapability_allowed_iff] at h ⊢
    refine h.imp id fun ⟨ht, hreach, hdeny, hsel⟩ ↦ ⟨ht, hreach, fun g hg ↦ ?_, ?_⟩
    · obtain ⟨hg, hp⟩ := List.mem_filter.mp hg
      exact hdeny g (List.mem_filter.mpr ⟨hsub hg, hp⟩)
    · rw [selectedGrant_isSome_iff] at hsel ⊢
      obtain ⟨g, hg, hp, hu, ha, he⟩ := hsel
      refine ⟨g, (hnew g hg).resolve_right ?_, hp, hu, ha, he⟩
      rw [he]
      exact GrantEffect.noConfusion

/-- Without locks, every allowed leaf stays. -/
theorem leafwiseLe_of_locks {ls ls' : List AuthorityLock} (h : ls' = [] → ls = []) :
    LeafwiseLe url { input with locks := ls' } { input with locks := ls } where
  context := rfl
  now := rfl
  relation := rfl
  leaf leaf hl := by
    rw [evaluateCapability_allowed_iff] at hl ⊢
    exact hl.imp id fun ⟨ht, ⟨hlocks, hreach⟩, hrest⟩ ↦ ⟨ht, ⟨h hlocks, hreach⟩, hrest⟩

/-! ## Exceptions -/

/-- The nodes of a requirement tree, its root included. -/
inductive Subtree (t : AuthorityRequirement) : AuthorityRequirement → Prop
  | refl : Subtree t t
  | all {child : AuthorityRequirement} {rs : List AuthorityRequirement} (h : child ∈ rs)
      (ht : Subtree t child) : Subtree t (.all rs)
  | any {child : AuthorityRequirement} {rs : List AuthorityRequirement} (h : child ∈ rs)
      (ht : Subtree t child) : Subtree t (.any rs)

/-- Some leaf of the requirement selects a single-use confirmation of this identity. -/
def SelectsConfirmation (url : JsString → Option Url) (input : AuthorityEvaluationInput)
    (r : AuthorityRequirement) (grantId : Option JsString) : Prop :=
  ∃ leaf g, Subtree (.capability leaf) r ∧ selectedGrant url input leaf.capability = some g ∧
    truthy g.invocationDigest = true ∧ grantId = g.id.filter (decide <| · ≠ [])

/-- Under one `all` node, leaves select confirmations of two identities. -/
def ConfirmationsDiffer (url : JsString → Option Url) (input : AuthorityEvaluationInput)
    (r : AuthorityRequirement) : Prop :=
  ∃ rs i j, Subtree (.all rs) r ∧ i ≠ j ∧ SelectsConfirmation url input (.all rs) i ∧
    SelectsConfirmation url input (.all rs) j

theorem SelectsConfirmation.all {child : AuthorityRequirement} {rs : List AuthorityRequirement}
    {i : Option JsString} (h : SelectsConfirmation url input child i) (hc : child ∈ rs) :
    SelectsConfirmation url input (.all rs) i := by
  obtain ⟨leaf, g, hs, hg⟩ := h
  exact ⟨leaf, g, .all hc hs, hg⟩

theorem SelectsConfirmation.any {child : AuthorityRequirement} {rs : List AuthorityRequirement}
    {i : Option JsString} (h : SelectsConfirmation url input child i) (hc : child ∈ rs) :
    SelectsConfirmation url input (.any rs) i := by
  obtain ⟨leaf, g, hs, hg⟩ := h
  exact ⟨leaf, g, .any hc hs, hg⟩

/-- A leaf is consumable only through the confirmation it selected. -/
theorem evaluateCapability_consumable {leaf : CapabilityRequirement}
    (h : (evaluateCapability url input leaf).consumable = true) :
    SelectsConfirmation url input (.capability leaf) (evaluateCapability url input leaf).grantId := by
  rw [evaluateCapability] at h ⊢
  generalize (principalForRequirement input.context leaf).filter (decide <| · ≠ []) = p at h ⊢
  cases p with
  | none => simp [AuthorizationDecision.plain] at h
  | some principal =>
    simp only at h ⊢
    split_ifs at h ⊢
    · simp [AuthorizationDecision.plain] at h
    · simp [AuthorizationDecision.plain] at h
    · cases hl : input.locks with
      | cons l ls => simp [hl, AuthorizationDecision.plain] at h
      | nil =>
        simp only [hl] at h ⊢
        rw [evaluateGrants] at h ⊢
        split_ifs at h ⊢
        · simp [AuthorizationDecision.plain] at h
        · generalize (matchingAuthorityGrants url input leaf.capability).find? _ = denied at h ⊢
          cases denied with
          | some denied => simp [AuthorizationDecision.plain] at h
          | none =>
            cases hsel : selectedGrant url input leaf.capability with
            | none => simp [hsel, AuthorizationDecision.plain] at h
            | some g =>
              simp only [hsel] at h ⊢
              exact ⟨leaf, g, .refl, hsel, h, rfl⟩

mutual

/-- A decision is consumable only through a confirmation a leaf of the tree selected. -/
theorem evaluate_consumable : ∀ {r : AuthorityRequirement} {d : AuthorizationDecision},
    evaluate url input r = .ok d → d.consumable = true → SelectsConfirmation url input r d.grantId
  | .all rs, d, h, hd => by
    have key := @evaluateAll_consumable (SelectsConfirmation url input (.all rs)) rs none
    rw [evaluate] at h
    split at h
    · cases h
    · next refused he =>
      obtain rfl := Except.ok.inj h
      exact (key (by simp) (fun _ hc _ hi ↦ hi.all hc) he).1 refused rfl hd
    · next consumable he =>
      obtain rfl := Except.ok.inj h
      obtain ⟨c, rfl⟩ := Option.isSome_iff_exists.mp hd
      exact (key (by simp) (fun _ hc _ hi ↦ hi.all hc) he).2 (some c) rfl c rfl
  | .any rs, d, h, hd => by
    rw [evaluate] at h
    split at h
    · cases h
    · next decisions he =>
      obtain rfl := Except.ok.inj h
      have key : ∀ d ∈ decisions, d.consumable = true →
          SelectsConfirmation url input (.any rs) d.grantId :=
        evaluateMatching_consumable (fun _ hc _ hi ↦ hi.any hc) he
      rw [anyDecision] at hd ⊢
      split_ifs at hd ⊢
      · simp [AuthorizationDecision.plain] at hd
      · split at hd
        · next c hc =>
          exact key c (List.mem_of_find?_eq_some hc) hd
        · simp [AuthorizationDecision.plain] at hd
  | .session _ _, d, h, hd => by
    rw [evaluate] at h
    obtain rfl := Except.ok.inj h
    simp [evaluateSession, AuthorizationDecision.plain] at hd
  | .relationship _ _, d, h, hd => by
    rw [evaluate] at h
    obtain rfl := Except.ok.inj h
    simp [evaluateRelationship, AuthorizationDecision.plain] at hd
  | .capability _, d, h, hd => by
    rw [evaluate] at h
    obtain rfl := Except.ok.inj h
    exact evaluateCapability_consumable hd

theorem evaluateAll_consumable {S : Option JsString → Prop} : ∀ {rs : List AuthorityRequirement}
    {c : Option AuthorizationDecision}, (∀ d ∈ c, S d.grantId) →
    (∀ child ∈ rs, ∀ i, SelectsConfirmation url input child i → S i) →
    ∀ {x}, evaluateAll url input c rs = .ok x →
      (∀ d, x = .inl d → d.consumable = true → S d.grantId) ∧
        ∀ c', x = .inr c' → ∀ d ∈ c', S d.grantId
  | [], c, hc, _, x, h => by
    rw [evaluateAll] at h
    obtain rfl := Except.ok.inj h
    exact ⟨fun _ hx ↦ (nomatch hx), fun _ hx ↦ Sum.inr.inj hx ▸ hc⟩
  | child :: rest, c, hc, hS, x, h => by
    have hrest := fun child hchild ↦ hS child (List.mem_cons_of_mem _ hchild)
    rw [evaluateAll] at h
    split at h
    · cases h
    · next d hd =>
      have hown : d.consumable = true → S d.grantId := fun hcons ↦
        hS child List.mem_cons_self _ (evaluate_consumable hd hcons)
      split_ifs at h with hden hcons
      · obtain rfl := Except.ok.inj h
        exact ⟨fun _ hx hcons ↦ by cases hx; exact hown hcons, fun _ hx ↦ (nomatch hx)⟩
      · exact evaluateAll_consumable hc hrest h
      · rw [Bool.not_eq_false] at hcons
        refine evaluateAll_consumable (fun d' hd' ↦ ?_) hrest h
        obtain rfl := Option.mem_some_iff.mp hd'
        exact hown hcons

theorem evaluateMatching_consumable {S : Option JsString → Prop} :
    ∀ {rs : List AuthorityRequirement},
    (∀ child ∈ rs, ∀ i, SelectsConfirmation url input child i → S i) →
    ∀ {ds}, evaluateMatching url input rs = .ok ds → ∀ d ∈ ds, d.consumable = true → S d.grantId
  | [], _, ds, h => by
    rw [evaluateMatching] at h
    obtain rfl := Except.ok.inj h
    exact fun _ hd ↦ absurd hd List.not_mem_nil
  | child :: rest, hS, ds, h => by
    have hrest := fun child hchild ↦ hS child (List.mem_cons_of_mem _ hchild)
    rw [evaluateMatching] at h
    split_ifs at h with hm
    · split at h
      · cases h
      · next d hd =>
        split at h
        · cases h
        · next ds' hds =>
          obtain rfl := Except.ok.inj h
          refine List.forall_mem_cons.mpr ⟨fun hcons ↦ ?_, evaluateMatching_consumable hrest hds⟩
          exact hS child List.mem_cons_self _ (evaluate_consumable hd hcons)
    · exact evaluateMatching_consumable hrest h

end

mutual

/-- **Every exception is a merge of two confirmations**, selected below one `all` node. -/
theorem evaluate_error : ∀ {r : AuthorityRequirement} {m : JsString},
    evaluate url input r = .error m → m = mergeFailure ∧ ConfirmationsDiffer url input r
  | .all rs, m, h => by
    rw [evaluate] at h
    split at h
    · next message he =>
      obtain rfl := Except.error.inj h
      rcases evaluateAll_error (S := SelectsConfirmation url input (.all rs)) (by simp)
        (fun _ hc _ hi ↦ hi.all hc) he with ⟨hm, i, j, hne, hi, hj⟩ | ⟨child, hc, hm, hdiff⟩
      · exact ⟨hm, rs, i, j, .refl, hne, hi, hj⟩
      · obtain ⟨rs', i, j, hsub, hrest⟩ := hdiff
        exact ⟨hm, rs', i, j, .all hc hsub, hrest⟩
    · cases h
    · cases h
  | .any rs, m, h => by
    rw [evaluate] at h
    split at h
    · next message he =>
      obtain rfl := Except.error.inj h
      obtain ⟨child, hc, hm, rs', i, j, hsub, hrest⟩ := evaluateMatching_error he
      exact ⟨hm, rs', i, j, .any hc hsub, hrest⟩
    · cases h
  | .session _ _, m, h => by
    rw [evaluate] at h
    cases h
  | .relationship _ _, m, h => by
    rw [evaluate] at h
    cases h
  | .capability _, m, h => by
    rw [evaluate] at h
    cases h

theorem evaluateAll_error {S : Option JsString → Prop} : ∀ {rs : List AuthorityRequirement}
    {c : Option AuthorizationDecision}, (∀ d ∈ c, S d.grantId) →
    (∀ child ∈ rs, ∀ i, SelectsConfirmation url input child i → S i) →
    ∀ {m}, evaluateAll url input c rs = .error m →
      (m = mergeFailure ∧ ∃ i j, i ≠ j ∧ S i ∧ S j) ∨
        ∃ child ∈ rs, m = mergeFailure ∧ ConfirmationsDiffer url input child
  | [], c, _, _, m, h => by
    rw [evaluateAll] at h
    cases h
  | child :: rest, c, hc, hS, m, h => by
    have hrest := fun child hchild ↦ hS child (List.mem_cons_of_mem _ hchild)
    have hlater : (∃ child ∈ rest, m = mergeFailure ∧ ConfirmationsDiffer url input child) →
        ∃ r ∈ child :: rest, m = mergeFailure ∧ ConfirmationsDiffer url input r :=
      fun ⟨r, hr, hd⟩ ↦ ⟨r, List.mem_cons_of_mem _ hr, hd⟩
    rw [evaluateAll] at h
    split at h
    · next he =>
      obtain rfl := Except.error.inj h
      exact Or.inr ⟨child, List.mem_cons_self, evaluate_error he⟩
    · next d hd =>
      have hown : d.consumable = true → S d.grantId := fun hcons ↦
        hS child List.mem_cons_self _ (evaluate_consumable hd hcons)
      split_ifs at h with hden hcons hdiff
      · exact (evaluateAll_error hc hrest h).imp id hlater
      · obtain rfl := Except.error.inj h
        obtain ⟨d', hd', hne⟩ := (Option.any_eq_true _ _).mp hdiff
        rw [Bool.not_eq_false] at hcons
        exact Or.inl ⟨rfl, _, _, of_decide_eq_true hne, hc d' hd', hown hcons⟩
      · rw [Bool.not_eq_false] at hcons
        refine (evaluateAll_error (fun d' hd' ↦ ?_) hrest h).imp id hlater
        obtain rfl := Option.mem_some_iff.mp hd'
        exact hown hcons

theorem evaluateMatching_error : ∀ {rs : List AuthorityRequirement} {m : JsString},
    evaluateMatching url input rs = .error m →
      ∃ child ∈ rs, m = mergeFailure ∧ ConfirmationsDiffer url input child
  | [], m, h => by
    rw [evaluateMatching] at h
    cases h
  | child :: rest, m, h => by
    have hlater : (∃ child ∈ rest, m = mergeFailure ∧ ConfirmationsDiffer url input child) →
        ∃ r ∈ child :: rest, m = mergeFailure ∧ ConfirmationsDiffer url input r :=
      fun ⟨r, hr, hd⟩ ↦ ⟨r, List.mem_cons_of_mem _ hr, hd⟩
    rw [evaluateMatching] at h
    split_ifs at h with hm
    · split at h
      · next he =>
        obtain rfl := Except.error.inj h
        exact ⟨child, List.mem_cons_self, evaluate_error he⟩
      · split at h
        · next he =>
          obtain rfl := Except.error.inj h
          exact hlater (evaluateMatching_error he)
        · cases h
    · exact hlater (evaluateMatching_error h)

end

/-! ## Decisions of the whole evaluator -/

theorem websiteRefusal_allowed {d : AuthorizationDecision} (h : websiteRefusal url input = some d) :
    d.allowed = false := by
  simp only [websiteRefusal] at h
  split_ifs at h
  · exact Option.some.inj h ▸ rfl
  · exact Option.some.inj h ▸ rfl

/-- An allowed decision comes out of the requirement tree. -/
theorem evaluate_of_allowed {d : AuthorizationDecision} (h : evaluateAuthority url input = .ok d)
    (hd : d.allowed = true) :
    ¬(input.resourceKey = [] ∨ input.resourceKey ≠ trim input.resourceKey) ∧
      websiteRefusal url input = none ∧ evaluate url input input.requirement = .ok d := by
  rw [evaluateAuthority] at h
  split_ifs at h with hk
  cases hw : websiteRefusal url input with
  | none =>
    rw [hw] at h
    exact ⟨hk, rfl, h⟩
  | some refused =>
    rw [hw] at h
    obtain rfl := Except.ok.inj h
    exact Bool.noConfusion ((websiteRefusal_allowed hw).symm.trans hd)

/-- Two inputs that differ in grants and locks only reach the tree together. -/
theorem evaluateAuthority_eq (gs : List AuthorityGrant) (ls : List AuthorityLock)
    (hk : ¬(input.resourceKey = [] ∨ input.resourceKey ≠ trim input.resourceKey))
    (hw : websiteRefusal url input = none) :
    evaluateAuthority url { input with grants := gs, locks := ls } =
      evaluate url { input with grants := gs, locks := ls } input.requirement := by
  rw [evaluateAuthority, if_neg hk]
  have hrefusal : websiteRefusal url { input with grants := gs, locks := ls } = none := hw
  rw [hrefusal]

variable (input) in
/-- More permissive leaves can lose an allowed decision to a merge, and to nothing else. -/
theorem allowed_or_mergeFailure (gs : List AuthorityGrant) (ls : List AuthorityLock)
    {d : AuthorizationDecision} (hle : LeafwiseLe url input { input with grants := gs, locks := ls })
    (h : evaluateAuthority url input = .ok d) (hd : d.allowed = true) :
    (∃ d', evaluateAuthority url { input with grants := gs, locks := ls } = .ok d' ∧
        d'.allowed = true) ∨
      (evaluateAuthority url { input with grants := gs, locks := ls } = .error mergeFailure ∧
        ConfirmationsDiffer url { input with grants := gs, locks := ls } input.requirement) := by
  obtain ⟨hk, hw, he⟩ := evaluate_of_allowed h hd
  rw [evaluateAuthority_eq gs ls hk hw]
  cases he' : evaluate url { input with grants := gs, locks := ls } input.requirement with
  | error m =>
    obtain ⟨rfl, hdiff⟩ := evaluate_error he'
    exact Or.inr ⟨rfl, hdiff⟩
  | ok d' =>
    refine Or.inl ⟨d', rfl, (evaluate_allowed he').trans ?_⟩
    exact granted_mono hle ((evaluate_allowed he).symm.trans hd)

variable (input) in
/-- A decision that stricter leaves allow was allowed, if there was one. -/
theorem allowed_of_stricter (gs : List AuthorityGrant) (ls : List AuthorityLock)
    {d d' : AuthorizationDecision}
    (hle : LeafwiseLe url { input with grants := gs, locks := ls } input)
    (h : evaluateAuthority url input = .ok d)
    (h' : evaluateAuthority url { input with grants := gs, locks := ls } = .ok d')
    (hd : d'.allowed = true) : d.allowed = true := by
  obtain ⟨hk, hw, he'⟩ := evaluate_of_allowed h' hd
  have he : evaluateAuthority url input = evaluate url input input.requirement :=
    evaluateAuthority_eq input.grants input.locks hk hw
  rw [h] at he
  exact (evaluate_allowed he.symm).trans (granted_mono hle ((evaluate_allowed he').symm.trans hd))

/-- **Decisions are monotone in grants and locks.** An allow grant, wherever it is inserted, leaves
an allowed decision allowed unless leaves below one `all` node now select confirmations of two
identities, where the evaluation throws; a deny grant or a lock never lifts a denial. -/
theorem evaluateAuthority_monotone (url : JsString → Option Url) (input : AuthorityEvaluationInput)
    (before after : List AuthorityGrant) (g : AuthorityGrant) (locks locks' : List AuthorityLock)
    (lock : AuthorityLock) :
    (g.effect = .allow → ∀ d,
      evaluateAuthority url { input with grants := before ++ after } = .ok d → d.allowed = true →
      (∃ d', evaluateAuthority url { input with grants := before ++ g :: after } = .ok d' ∧
        d'.allowed = true) ∨
      (evaluateAuthority url { input with grants := before ++ g :: after } = .error mergeFailure ∧
        ConfirmationsDiffer url { input with grants := before ++ g :: after }
          input.requirement)) ∧
    (g.effect = .deny → ∀ d d',
      evaluateAuthority url { input with grants := before ++ after } = .ok d → d.allowed = false →
      evaluateAuthority url { input with grants := before ++ g :: after } = .ok d' →
      d'.allowed = false) ∧
    (∀ d d', evaluateAuthority url { input with locks := locks ++ locks' } = .ok d →
      d.allowed = false →
      evaluateAuthority url { input with locks := locks ++ lock :: locks' } = .ok d' →
      d'.allowed = false) := by
  have hsub : before ++ after ⊆ before ++ g :: after :=
    ((List.sublist_cons_self g after).append_left before).subset
  have hnew : ∀ {e : GrantEffect}, g.effect = e → ∀ a ∈ before ++ g :: after,
      a ∈ before ++ after ∨ a.effect = e := by
    rintro e rfl a ha
    rcases List.mem_append.mp ha with ha | ha
    · exact Or.inl (List.mem_append_left _ ha)
    · exact (List.mem_cons.mp ha).symm.imp (List.mem_append_right _) (congrArg _)
  refine ⟨fun hg d h hd ↦ ?_, fun hg d d' h hd h' ↦ ?_, fun d d' h hd h' ↦ ?_⟩
  · apply allowed_or_mergeFailure { input with grants := before ++ after } (before ++ g :: after)
      input.locks _ h hd
    exact leafwiseLe_of_allow hsub (hnew hg)
  · by_contra hd'
    rw [Bool.not_eq_false] at hd'
    have := allowed_of_stricter { input with grants := before ++ after } (before ++ g :: after)
      input.locks (leafwiseLe_of_deny hsub (hnew hg)) h h' hd'
    exact Bool.noConfusion (hd.symm.trans this)
  · by_contra hd'
    rw [Bool.not_eq_false] at hd'
    have := allowed_of_stricter { input with locks := locks ++ locks' } input.grants
      (locks ++ lock :: locks') (leafwiseLe_of_locks (by simp)) h h' hd'
    exact Bool.noConfusion (hd.symm.trans this)

/-! ### A user with one confirmed leaf -/

theorem exists_ok_of_map {r : Except JsString AuthorizationDecision} {b : Bool}
    (h : r.map AuthorizationDecision.allowed = .ok b) : ∃ d, r = .ok d ∧ d.allowed = b := by
  cases r with
  | error m => cases h
  | ok d => exact ⟨d, rfl, Except.ok.inj h⟩

/-- A user of no workspace, without website, installation or execution. -/
def userContext : AuthorizationContext where
  executionAuthority := none
  website := none
  subjectBinding := none
  installation := none
  sourceWorkspaceId := none
  authorizingOrigin := ⟨.user, lit "user:u", PrincipalKind.noConfusion⟩
  actingUser := none
  entity := none
  executingCode := none
  ownerChain := []
  agentBinding := none
  executionSession := none
  workspace := none
  session := ⟨lit "s", lit "a", lit "1", 10, none, none⟩

/-- A grant of the user, bound to an invocation where `invocation` is there. -/
def userGrant (effect : GrantEffect) (capability : JsString) (resource : ResourceScope)
    (id invocation : Option JsString) : AuthorityGrant where
  capability := capability
  resource := resource
  id := id
  subject := lit "user:u"
  effect := effect
  expiresAt := none
  revokedAt := none
  consumedAt := none
  constraints := some ⟨none, none, none, none, none, invocation, none, none, none, none, none⟩
  provenance := lit "consent"

def userInput (requirement : AuthorityRequirement) (resource : Option ResourceScope)
    (grants : List AuthorityGrant) : AuthorityEvaluationInput where
  context := userContext
  requirement := requirement
  resourceKey := lit "k"
  resource := resource
  grants := grants
  locks := []
  now := 0
  invocationDigest := some (lit "i")
  providerExecutionDigest := none
  tier := some .gated
  relation := none

def userLeaf (capability : JsString) : AuthorityRequirement :=
  .capability ⟨.user, capability, false⟩

/-- `x` or `y`, and `z`. -/
def confirmedInput : AuthorityEvaluationInput :=
  userInput (.all [.any [userLeaf (lit "x"), userLeaf (lit "y")], userLeaf (lit "z")]) none []

/-- `y` is granted for good and `z` confirmed once. -/
def confirmedGrants : List AuthorityGrant :=
  [userGrant .allow (lit "y") (.exact (lit "k")) none none,
    userGrant .allow (lit "z") (.exact (lit "k")) (some (lit "g")) (some (lit "i"))]

theorem confirmedInput_allowed :
    (evaluateAuthority (fun _ ↦ none) { confirmedInput with grants := confirmedGrants ++ [] }).map
      AuthorizationDecision.allowed = .ok true := by decide +kernel

/-- A second confirmation, of `x`, goes before `y` in the `any` node and clashes with that of
`z`. -/
theorem richer_grants_throw : ¬∀ (url : JsString → Option Url) (input : AuthorityEvaluationInput)
    (before after : List AuthorityGrant) (g : AuthorityGrant), g.effect = .allow →
    g.revokedAt = none → g.expiresAt = none → ∀ d,
    evaluateAuthority url { input with grants := before ++ after } = .ok d → d.allowed = true →
    ∃ d', evaluateAuthority url { input with grants := before ++ g :: after } = .ok d' ∧
      d'.allowed = true := by
  intro h
  obtain ⟨d, hd, ha⟩ := exists_ok_of_map confirmedInput_allowed
  obtain ⟨d', hd', _⟩ := h (fun _ ↦ none) confirmedInput confirmedGrants []
    (userGrant .allow (lit "x") (.exact (lit "k")) (some (lit "h")) (some (lit "i")))
    rfl rfl rfl d hd ha
  have hthrow : (evaluateAuthority (fun _ ↦ none) { confirmedInput with
      grants := confirmedGrants ++ [userGrant .allow (lit "x") (.exact (lit "k")) (some (lit "h"))
        (some (lit "i"))] }).map AuthorizationDecision.allowed = .error mergeFailure := by
    decide +kernel
  rw [hd'] at hthrow
  cases hthrow

theorem evaluateAuthority_monotone_confirmed :
    ∃ d, evaluateAuthority (fun _ ↦ none) { confirmedInput with grants := confirmedGrants ++ [] }
        = .ok d ∧
      ((∃ d', evaluateAuthority (fun _ ↦ none) { confirmedInput with
          grants := confirmedGrants ++ [userGrant .allow (lit "w") (.exact (lit "k")) none none] }
          = .ok d' ∧ d'.allowed = true) ∨
        (evaluateAuthority (fun _ ↦ none) { confirmedInput with
          grants := confirmedGrants ++ [userGrant .allow (lit "w") (.exact (lit "k")) none none] }
          = .error mergeFailure ∧
        ConfirmationsDiffer (fun _ ↦ none) { confirmedInput with
          grants := confirmedGrants ++ [userGrant .allow (lit "w") (.exact (lit "k")) none none] }
          confirmedInput.requirement)) := by
  obtain ⟨d, hd, ha⟩ := exists_ok_of_map confirmedInput_allowed
  exact ⟨d, hd, (evaluateAuthority_monotone (fun _ ↦ none) confirmedInput confirmedGrants []
    (userGrant .allow (lit "w") (.exact (lit "k")) none none) [] [] ⟨[]⟩).1 rfl d hd ha⟩

/-! ## Resource sets -/

/-- **A set is decided like its keys, up to envelopes that overlap unseen.** Where a gated leaf is
allowed on a whole resource, one allow grant covers every key of it; and no applicable denial covers
a key of it exactly when no applicable denial meets the resource without either of the two being
found inside the other. -/
theorem gated_set_decision (url : JsString → Option Url) (input : AuthorityEvaluationInput)
    (R : ResourceScope) (leaf : CapabilityRequirement) (d : AuthorizationDecision)
    (htier : input.tier = some .gated) (hR : input.resource = some R)
    (hd : evaluate url input (.capability leaf) = .ok d) (ha : d.allowed = true) :
    ((∀ k, scopeCovers url R k = true → ∀ g ∈ input.grants,
          grantApplies input leaf.capability g = true → g.effect = .deny →
          scopeCovers url g.resource k = false) ∧
        ∃ g ∈ input.grants, grantApplies input leaf.capability g = true ∧ g.effect = .allow ∧
          ∀ k, scopeCovers url R k = true → scopeCovers url g.resource k = true) ↔
      ¬∃ g ∈ input.grants, grantApplies input leaf.capability g = true ∧ g.effect = .deny ∧
        MeetsUnseen url g.resource R := by
  rw [evaluate] at hd
  obtain rfl := Except.ok.inj hd
  rcases evaluateCapability_allowed_iff.mp ha with ⟨hopen, _⟩ | ⟨_, _, hdeny, hsel⟩
  · exact Tier.noConfusion (Option.some.inj (htier.symm.trans hopen))
  have hnone : ∀ g ∈ input.grants, grantApplies input leaf.capability g = true →
      g.effect = .deny → resourceScopeContains url g.resource R = false ∧
        resourceScopeContains url R g.resource = false := by
    intro g hg happ heff
    by_contra hcon
    have hmem : g ∈ matchingAuthorityGrants url input leaf.capability := by
      rw [matchingAuthorityGrants, List.mem_filter, happ, Bool.true_and, grantResourceMatches, hR]
      refine ⟨hg, ?_⟩
      simp only [heff, decide_true, Bool.true_and]
      cases hgR : resourceScopeContains url g.resource R with
      | true => rfl
      | false => simpa [hgR] using hcon
    exact GrantEffect.noConfusion ((hdeny g hmem).symm.trans heff)
  constructor
  · rintro ⟨hcov, _⟩ ⟨g, hg, happ, heff, ⟨k, hgk, hRk⟩, _⟩
    exact Bool.noConfusion ((hcov k hRk g hg happ heff).symm.trans hgk)
  · intro hno
    constructor
    · intro k hRk g hg happ heff
      by_contra hgk
      rw [Bool.not_eq_false] at hgk
      exact hno ⟨g, hg, happ, heff, ⟨k, hgk, hRk⟩, hnone g hg happ heff⟩
    · obtain ⟨g, hg, hmatch, _, _, heff⟩ := selectedGrant_isSome_iff.mp hsel
      rw [Bool.and_eq_true, grantResourceMatches, hR] at hmatch
      refine ⟨g, hg, hmatch.1, heff, fun k hk ↦ covers_of_resourceScopeContains ?_ hk⟩
      simpa [heff] using hmatch.2

/-- The namespace `https://a.b` is allowed and the origin `https://a.b` inside it denied. -/
def namespaceInput : AuthorityEvaluationInput :=
  userInput (userLeaf (lit "x")) (some (.namespacePrefix (lit "https://a.b")))
    [userGrant .allow (lit "x") (.namespacePrefix (lit "https://a.b")) none none,
      userGrant .deny (lit "x") (.origin (lit "https://a.b")) none none]

theorem namespaceInput_allowed : (evaluateCapability (fun _ ↦ none) namespaceInput
    ⟨.user, lit "x", false⟩).allowed = true := by decide +kernel

/-- The denial of the origin is not seen by a question about the namespace. -/
theorem namespace_hides_denial : ¬∀ (url : JsString → Option Url)
    (input : AuthorityEvaluationInput) (R : ResourceScope) (leaf : CapabilityRequirement)
    (d : AuthorizationDecision), input.tier = some .gated → input.resource = some R →
    evaluate url input (.capability leaf) = .ok d → d.allowed = true →
    (∀ k, scopeCovers url R k = true → ∀ g ∈ input.grants,
        grantApplies input leaf.capability g = true → g.effect = .deny →
        scopeCovers url g.resource k = false) ∧
      ∃ g ∈ input.grants, grantApplies input leaf.capability g = true ∧ g.effect = .allow ∧
        ∀ k, scopeCovers url R k = true → scopeCovers url g.resource k = true := by
  intro h
  have hcov := (h (fun _ ↦ none) namespaceInput _ ⟨.user, lit "x", false⟩ _ rfl rfl
    (by rw [evaluate]) namespaceInput_allowed).1 (lit "https://a.b") (by decide +kernel)
    (userGrant .deny (lit "x") (.origin (lit "https://a.b")) none none)
    (List.mem_cons_of_mem _ List.mem_cons_self) (by decide +kernel) rfl
  exact absurd hcov (by decide +kernel)

theorem gated_set_decision_namespace :
    ((∀ k, scopeCovers (fun _ ↦ none) (.namespacePrefix (lit "https://a.b")) k = true →
          ∀ g ∈ namespaceInput.grants, grantApplies namespaceInput (lit "x") g = true →
          g.effect = .deny → scopeCovers (fun _ ↦ none) g.resource k = false) ∧
        ∃ g ∈ namespaceInput.grants, grantApplies namespaceInput (lit "x") g = true ∧
          g.effect = .allow ∧
          ∀ k, scopeCovers (fun _ ↦ none) (.namespacePrefix (lit "https://a.b")) k = true →
            scopeCovers (fun _ ↦ none) g.resource k = true) ↔
      ¬∃ g ∈ namespaceInput.grants, grantApplies namespaceInput (lit "x") g = true ∧
        g.effect = .deny ∧
        MeetsUnseen (fun _ ↦ none) g.resource (.namespacePrefix (lit "https://a.b")) :=
  gated_set_decision (fun _ ↦ none) namespaceInput _ ⟨.user, lit "x", false⟩ _ rfl rfl
    (by rw [evaluate]) namespaceInput_allowed

end Vibestudio.Shared

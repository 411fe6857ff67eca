import Mathlib
import Vibestudio.Js.LiveMap
import Vibestudio.Shared.EntityCache

/-!
# Connection grants

`ConnectionGrantService` of `packages/shared/src/connectionGrants.ts`: tokens that are minted for a
principal, redeemed once, and valid until the principal is revoked or its executable incarnation
changes. Redeemed grants of one principal are bounded, and the bound evicts from the front of a map,
that is in the order in which grants were minted. It is meant to evict the one that was redeemed
first, and does so exactly as long as the two orders name the same grant: `kept_iff`.
-/

namespace Vibestudio.Shared

open Js

/-! ## Grants -/

/-- `S` is the type of authenticated humans. -/
structure ConnectionGrant (S : Type) where
  token : JsString
  principalId : JsString
  issuedBy : JsString
  remoteDeviceKey : Option JsString
  subject : Option S
  expiresAt : ℤ
  executionDigest : Option JsString
  redeemed : Bool

structure ConnectionGrantOptions (S : Type) where
  ttlMs : Option ℤ
  subject : Option S
  remoteDeviceKey : Option JsString

structure ConnectionGrantRedemption (S : Type) where
  principalId : JsString
  issuedBy : JsString
  remoteDeviceKey : Option JsString
  subject : Option S

structure ConnectionGrantValidation (S : Type) where
  principalId : JsString
  principalKind : EntityKind
  issuedBy : JsString
  remoteDeviceKey : Option JsString
  subject : Option S

variable {A R S : Type}

/-- `isCodeIdentityCallerKind`. -/
def isCodeIdentityCallerKind : EntityKind → Bool
  | .panel | .client | .worker | .do => true
  | .session | .shell | .server => false

/-- `callerKindForPrincipalKind`, which throws for a kind that is not in the registry. -/
def callerKindForPrincipalKind : EntityKind → Option EntityKind
  | .session => none
  | kind => some kind

def hasSealedExecutableIncarnation (record : EntityRecord A R) : Bool :=
  !(decide (record.kind = .panel) && (lit "browser:").isPrefixOf record.source.repoPath)

/-- A text that is there and not empty. -/
def present (s : Option JsString) : Bool := s.any fun s ↦ decide (s ≠ [])

def connectableExecutionDigest (record : EntityRecord A R) : Except JsString (Option JsString) :=
  if !isCodeIdentityCallerKind record.kind || !hasSealedExecutableIncarnation record then .ok none
  else if !present record.activeBuildKey || !present record.activeExecutionDigest ||
      record.activeAuthority.isNone then
    .error (lit "Cannot grant connection for executable principal without a sealed active " ++
      lit "incarnation: " ++ record.id)
  else .ok record.activeExecutionDigest

def grantMatchesActiveIncarnation (grant : ConnectionGrant S) (record : EntityRecord A R) : Bool :=
  if !isCodeIdentityCallerKind record.kind || !hasSealedExecutableIncarnation record then
    grant.executionDigest.isNone
  else record.activeAuthority.isSome && record.activeBuildKey.isSome &&
    record.activeExecutionDigest.isSome &&
      decide (grant.executionDigest = record.activeExecutionDigest)

/-- The executable incarnation a record stands for. -/
def incarnation (record : EntityRecord A R) : Option JsString :=
  if !isCodeIdentityCallerKind record.kind || !hasSealedExecutableIncarnation record then none
  else record.activeExecutionDigest

structure ConnectionGrantService (A R S : Type) where
  entityCache : EntityCache A R
  grants : JsMap JsString (ConnectionGrant S)

namespace ConnectionGrantService

variable (s : ConnectionGrantService A R S)

/-- `MAX_REDEEMED_GRANTS_PER_PRINCIPAL`. -/
def maxRedeemedGrantsPerPrincipal : ℕ := 16

/-- `grant`, with the token that is drawn and the time. -/
def grant (principalId issuedBy : JsString) (options : ConnectionGrantOptions S) (token : JsString)
    (now : ℤ) : Except JsString (ConnectionGrantService A R S × ConnectionGrant S) :=
  match s.entityCache.resolveActive principalId with
  | none => .error (lit "Cannot grant connection for unregistered principal: " ++ principalId)
  | some record => (connectableExecutionDigest record).map fun executionDigest ↦
    let minted : ConnectionGrant S := ⟨token, principalId, issuedBy,
      options.remoteDeviceKey.filter fun key ↦ decide (key ≠ []), options.subject,
      now + options.ttlMs.getD 60000, executionDigest, false⟩
    ({ s with grants := JsMap.set s.grants token minted }, minted)

/-- The tokens of the redeemed grants of a principal, in the order of the map. -/
def redeemedTokens (grants : JsMap JsString (ConnectionGrant S)) (principalId : JsString) :
    List JsString :=
  JsMap.keys (grants.filter fun p ↦ p.2.redeemed && decide (p.2.principalId = principalId))

/-- What `pruneRedeemedForPrincipal` deletes. -/
def excess (grants : JsMap JsString (ConnectionGrant S)) (principalId : JsString) :
    List JsString :=
  (redeemedTokens grants principalId).take
    ((redeemedTokens grants principalId).length - maxRedeemedGrantsPerPrincipal)

def pruneRedeemedForPrincipal (principalId : JsString) : ConnectionGrantService A R S :=
  { s with grants := (excess s.grants principalId).foldl JsMap.delete s.grants }

/-- The principal of a grant is active, in the incarnation of the grant, and of a known kind. -/
def liveKind (grant : ConnectionGrant S) : Option EntityKind :=
  match s.entityCache.resolveActive grant.principalId with
  | none => none
  | some record =>
    if grantMatchesActiveIncarnation grant record then callerKindForPrincipalKind record.kind
    else none

def discard (token : JsString) : ConnectionGrantService A R S :=
  { s with grants := JsMap.delete s.grants token }

/-- `grant.redeemed = true`. -/
def markRedeemed (token : JsString) (grant : ConnectionGrant S) : ConnectionGrantService A R S :=
  { s with grants := JsMap.set s.grants token { grant with redeemed := true } }

def redeem (token : JsString) (remoteDeviceKey : Option JsString) (now : ℤ) :
    ConnectionGrantService A R S × Option (ConnectionGrantRedemption S) :=
  match JsMap.get token s.grants with
  | none => (s, none)
  | some grant =>
    if grant.redeemed then (s, none)
    else if grant.remoteDeviceKey ≠ remoteDeviceKey then (s, none)
    else if grant.expiresAt ≤ now then (s.discard token, none)
    else match s.liveKind grant with
      | none => (s.discard token, none)
      | some _ => ((s.markRedeemed token grant).pruneRedeemedForPrincipal grant.principalId,
          some ⟨grant.principalId, grant.issuedBy, grant.remoteDeviceKey, grant.subject⟩)

def validate (token : JsString) (remoteDeviceKey : Option JsString) (now : ℤ) :
    ConnectionGrantService A R S × Option (ConnectionGrantValidation S) :=
  match JsMap.get token s.grants with
  | none => (s, none)
  | some grant =>
    if grant.remoteDeviceKey ≠ remoteDeviceKey then (s, none)
    else if !grant.redeemed && decide (grant.expiresAt ≤ now) then (s.discard token, none)
    else match s.liveKind grant with
      | none => (s.discard token, none)
      | some principalKind => (s, some ⟨grant.principalId, principalKind, grant.issuedBy,
          grant.remoteDeviceKey, grant.subject⟩)

/-- `revokeForPrincipal`, with the number it returns. -/
def revokeForPrincipal (principalId : JsString) : ConnectionGrantService A R S × ℕ :=
  ({ s with grants := s.grants.filter fun p ↦ decide (p.2.principalId ≠ principalId) },
    s.grants.countP fun p ↦ decide (p.2.principalId = principalId))

def gcExpired (now : ℤ) : ConnectionGrantService A R S :=
  { s with grants := s.grants.filter fun p ↦ p.2.redeemed || decide (now < p.2.expiresAt) }

end ConnectionGrantService

/-! ## What the functions do -/

theorem incarnation_of_matches {grant : ConnectionGrant S} {record : EntityRecord A R}
    (h : grantMatchesActiveIncarnation grant record = true) :
    incarnation record = grant.executionDigest := by
  rw [grantMatchesActiveIncarnation] at h
  rw [incarnation]
  split_ifs at h ⊢
  · exact (Option.isNone_iff_eq_none.mp h).symm
  · simp only [Bool.and_eq_true, decide_eq_true_eq] at h
    exact h.2.symm

theorem incarnation_of_connectable {record : EntityRecord A R} {executionDigest : Option JsString}
    (h : connectableExecutionDigest record = .ok executionDigest) :
    incarnation record = executionDigest := by
  rw [connectableExecutionDigest] at h
  rw [incarnation]
  split_ifs at h ⊢
  · exact Except.ok.inj h
  · exact Except.ok.inj h

/-- Deleting keys one after the other. -/
theorem foldl_delete {α : Type} (ks : List JsString) (m : JsMap JsString α) :
    ks.foldl JsMap.delete m = m.filter fun p ↦ decide (p.1 ∉ ks) := by
  induction ks generalizing m with
  | nil => simp
  | cons k ks ih =>
    rw [List.foldl_cons, ih, JsMap.delete, List.filter_filter]
    refine List.filter_congr fun p _ ↦ ?_
    simp [Bool.and_comm]

/-- A value that is replaced keeps its place. -/
theorem keys_filter_set {α : Type} {m : JsMap JsString α} (hm : (JsMap.keys m).Nodup)
    {k : JsString} {v w : α} (hk : (k, w) ∈ m) {p q : JsString × α → Bool}
    (hother : ∀ e ∈ m, e.1 ≠ k → p e = q e) (hself : p (k, v) = q (k, w)) :
    JsMap.keys ((JsMap.set m k v).filter p) = JsMap.keys (m.filter q) := by
  induction m with
  | nil => exact absurd hk List.not_mem_nil
  | cons e m ih =>
    obtain ⟨a, u⟩ := e
    obtain ⟨ha, hm⟩ := List.nodup_cons.mp hm
    rw [JsMap.set]
    by_cases hak : a = k
    · subst hak
      have hu : u = w := by
        rcases List.mem_cons.mp hk with heq | hmem
        · exact (Prod.mk.inj heq).2.symm
        · exact absurd (List.mem_map_of_mem hmem) ha
      subst hu
      have hrest : m.filter p = m.filter q := by
        refine List.filter_congr fun e he ↦ hother e (List.mem_cons_of_mem _ he) fun heq ↦ ha ?_
        exact heq ▸ (List.mem_map_of_mem he : e.1 ∈ m.map Prod.fst)
      rw [if_pos rfl, List.filter_cons, List.filter_cons, hself, hrest]
      split_ifs <;> rfl
    · have hmem : (k, w) ∈ m := (List.mem_cons.mp hk).resolve_left fun heq ↦
        hak (Prod.mk.inj heq).1.symm
      have hrest := ih hm hmem fun e he ↦ hother e (List.mem_cons_of_mem _ he)
      rw [if_neg hak, List.filter_cons, List.filter_cons, hother _ List.mem_cons_self hak]
      split_ifs
      · exact congrArg (a :: ·) hrest
      · exact hrest

namespace ConnectionGrantService

variable {s : ConnectionGrantService A R S} {token : JsString} {key : Option JsString} {now : ℤ}

/-- The token can be redeemed. -/
structure Redeemable (s : ConnectionGrantService A R S) (token : JsString)
    (remoteDeviceKey : Option JsString) (now : ℤ) (grant : ConnectionGrant S) : Prop where
  found : JsMap.get token s.grants = some grant
  unredeemed : grant.redeemed = false
  device : grant.remoteDeviceKey = remoteDeviceKey
  intime : now < grant.expiresAt
  live : (s.liveKind grant).isSome = true

theorem redeem_of_redeemable {grant : ConnectionGrant S} (h : s.Redeemable token key now grant) :
    s.redeem token key now =
      ((s.markRedeemed token grant).pruneRedeemedForPrincipal grant.principalId,
        some ⟨grant.principalId, grant.issuedBy, grant.remoteDeviceKey, grant.subject⟩) := by
  obtain ⟨kind, hkind⟩ := Option.isSome_iff_exists.mp h.live
  rw [redeem, h.found]
  simp only [h.unredeemed, Bool.false_eq_true, if_false, h.device, ne_eq, not_true, hkind,
    not_le.mpr h.intime]

/-- A redemption that fails deletes the token at most. -/
theorem redeem_of_not (h : ¬∃ grant, s.Redeemable token key now grant) :
    (s.redeem token key now).2 = none ∧
      ((s.redeem token key now).1 = s ∨ (s.redeem token key now).1 = s.discard token) := by
  rw [redeem]
  cases hfound : JsMap.get token s.grants with
  | none => exact ⟨rfl, .inl rfl⟩
  | some grant =>
    simp only
    split_ifs with hredeemed hdevice hexpired
    · exact ⟨rfl, .inl rfl⟩
    · exact ⟨rfl, .inl rfl⟩
    · exact ⟨rfl, .inr rfl⟩
    · cases hkind : s.liveKind grant with
      | none => exact ⟨rfl, .inr rfl⟩
      | some kind =>
        refine absurd ⟨grant, hfound, Bool.not_eq_true _ ▸ hredeemed, not_not.mp hdevice,
          not_le.mp hexpired, ?_⟩ h
        rw [hkind]
        rfl

theorem validate_fst (s : ConnectionGrantService A R S) (token : JsString) (key : Option JsString)
    (now : ℤ) : (s.validate token key now).1 = s ∨ (s.validate token key now).1 = s.discard token := by
  rw [validate]
  cases JsMap.get token s.grants with
  | none => exact .inl rfl
  | some grant =>
    simp only
    split_ifs
    · exact .inl rfl
    · exact .inr rfl
    · cases s.liveKind grant with
      | none => exact .inr rfl
      | some kind => exact .inl rfl

/-- **When a token validates.** -/
theorem validate_isSome_iff : (s.validate token key now).2.isSome = true ↔ ∃ grant,
    JsMap.get token s.grants = some grant ∧ grant.remoteDeviceKey = key ∧
      (grant.redeemed = false → now < grant.expiresAt) ∧ (s.liveKind grant).isSome = true := by
  rw [validate]
  cases hfound : JsMap.get token s.grants with
  | none => simp
  | some grant =>
    simp only [Option.some.injEq, exists_eq_left']
    by_cases hdevice : grant.remoteDeviceKey = key
    · rw [if_neg (not_not.mpr hdevice)]
      by_cases hlate : (!grant.redeemed && decide (grant.expiresAt ≤ now)) = true
      · rw [if_pos hlate]
        simp only [Bool.and_eq_true, Bool.not_eq_true', decide_eq_true_eq] at hlate
        simp only [Option.isSome_none, Bool.false_eq_true, false_iff, not_and]
        exact fun _ hintime ↦ absurd (hintime hlate.1) (not_lt.mpr hlate.2)
      · rw [if_neg hlate]
        have hintime : grant.redeemed = false → now < grant.expiresAt := by
          intro hredeemed
          rw [hredeemed] at hlate
          simpa using hlate
        cases s.liveKind grant with
        | none => simp
        | some kind => simpa [hdevice] using hintime
    · rw [if_pos hdevice]
      simp [hdevice]

/-- A live grant is one of an active principal in the incarnation of the grant. -/
theorem liveKind_spec {grant : ConnectionGrant S} (h : (s.liveKind grant).isSome = true) :
    ∃ record, s.entityCache.resolveActive grant.principalId = some record ∧
      incarnation record = grant.executionDigest := by
  rw [liveKind] at h
  cases hrecord : s.entityCache.resolveActive grant.principalId with
  | none =>
    rw [hrecord] at h
    exact nomatch h
  | some record =>
    rw [hrecord] at h
    simp only at h
    split_ifs at h with hmatches
    · exact ⟨record, rfl, incarnation_of_matches hmatches⟩
    · exact nomatch h

variable (s) in
/-- The redeemed grants of a principal and the one with the token, in the order of the map. -/
def contenders (token principalId : JsString) : List JsString :=
  JsMap.keys (s.grants.filter fun p ↦ (p.2.redeemed || decide (p.1 = token)) &&
    decide (p.2.principalId = principalId))

theorem redeemedTokens_markRedeemed (hs : (JsMap.keys s.grants).Nodup) {grant : ConnectionGrant S}
    (h : JsMap.get token s.grants = some grant) :
    redeemedTokens (s.markRedeemed token grant).grants grant.principalId =
      s.contenders token grant.principalId := by
  refine keys_filter_set hs (JsMap.mem_of_get h) (fun e _ hne ↦ ?_) ?_
  · simp [hne]
  · simp

end ConnectionGrantService

/-! ## Sequences of calls -/

inductive GrantCall (A R S : Type) where
  | grant (principalId issuedBy : JsString) (options : ConnectionGrantOptions S) (now : ℤ)
  | redeem (token : JsString) (remoteDeviceKey : Option JsString) (now : ℤ)
  | validate (token : JsString) (remoteDeviceKey : Option JsString) (now : ℤ)
  | revokeForPrincipal (principalId : JsString)
  | gcExpired (now : ℤ)
  | entityCacheChanges (entityCache : EntityCache A R)

/-- The service with what has happened: the tokens drawn, the grants minted with the incarnations
they were minted for, the tokens redeemed, those evicted by a redemption with their principals, those
revoked, and the redemption that was the last call. -/
structure GrantHistory (A R S : Type) where
  service : ConnectionGrantService A R S
  drawn : ℕ
  minted : List (ConnectionGrant S × Option JsString)
  redemptions : List JsString
  evicted : List (JsString × JsString)
  revoked : List JsString
  succeeded : Option (JsString × Option JsString)

namespace GrantHistory

open ConnectionGrantService

/-- A new service. -/
def «open» (entityCache : EntityCache A R) : GrantHistory A R S :=
  ⟨⟨entityCache, []⟩, 0, [], [], [], [], none⟩

variable (draw : ℕ → JsString) (t : GrantHistory A R S)

/-- `draw` is what `randomBytes(32).toString("hex")` yields, draw by draw. -/
def next : GrantCall A R S → GrantHistory A R S
  | .grant principalId issuedBy options now =>
    match t.service.grant principalId issuedBy options (draw t.drawn) now with
    | .error _ => { t with succeeded := none }
    | .ok (service, grant) => { t with
        service
        drawn := t.drawn + 1
        minted := t.minted ++
          [(grant, (t.service.entityCache.resolveActive principalId).bind incarnation)]
        succeeded := none }
  | .redeem token remoteDeviceKey now =>
    match t.service.redeem token remoteDeviceKey now with
    | (service, none) => { t with service, succeeded := none }
    | (service, some redemption) => { t with
        service
        redemptions := t.redemptions ++ [token]
        evicted := t.evicted ++ ((JsMap.keys t.service.grants).filter fun k ↦
          decide (k ∉ JsMap.keys service.grants)).map fun k ↦ (k, redemption.principalId)
        succeeded := some (token, remoteDeviceKey) }
  | .validate token remoteDeviceKey now =>
    { t with service := (t.service.validate token remoteDeviceKey now).1, succeeded := none }
  | .revokeForPrincipal principalId => { t with
      service := (t.service.revokeForPrincipal principalId).1
      revoked := t.revoked ++ (t.minted.filter fun m ↦
        decide (m.1.principalId = principalId)).map fun m ↦ m.1.token
      succeeded := none }
  | .gcExpired now => { t with service := t.service.gcExpired now, succeeded := none }
  | .entityCacheChanges entityCache =>
    { t with service := { t.service with entityCache }, succeeded := none }

def after (calls : List (GrantCall A R S)) : GrantHistory A R S := calls.foldl (next draw) t

theorem after_append (calls calls' : List (GrantCall A R S)) :
    t.after draw (calls ++ calls') = (t.after draw calls).after draw calls' := List.foldl_append

/-! ## What holds in every run -/

/-- The invariant. -/
structure Sound : Prop where
  nodup : (JsMap.keys t.service.grants).Nodup
  entry : ∀ k g, (k, g) ∈ t.service.grants → k = g.token ∧
    ∃ m ∈ t.minted, m.1 = { g with redeemed := false }
  redeemed : ∀ k g, (k, g) ∈ t.service.grants → (g.redeemed = true ↔ k ∈ t.redemptions)
  drawn : ∀ m ∈ t.minted, ∃ i < t.drawn, m.1.token = draw i
  distinct : (t.minted.map fun m ↦ m.1.token).Nodup
  incarnated : ∀ m ∈ t.minted, m.2 = m.1.executionDigest
  once : t.redemptions.Nodup
  known : ∀ k ∈ t.redemptions, ∃ m ∈ t.minted, m.1.token = k
  evicted : ∀ e ∈ t.evicted, e.1 ∈ t.redemptions
  revoked : ∀ k ∈ t.revoked, k ∉ JsMap.keys t.service.grants ∧ ∃ m ∈ t.minted, m.1.token = k
  bound : ∀ principalId, (redeemedTokens t.service.grants principalId).length ≤
    maxRedeemedGrantsPerPrincipal

variable {draw t}

theorem sound_open (entityCache : EntityCache A R) :
    (GrantHistory.open entityCache : GrantHistory A R S).Sound draw where
  nodup := List.nodup_nil
  entry _ _ h := absurd h List.not_mem_nil
  redeemed _ _ h := absurd h List.not_mem_nil
  drawn _ h := absurd h List.not_mem_nil
  distinct := List.nodup_nil
  incarnated _ h := absurd h List.not_mem_nil
  once := List.nodup_nil
  known _ h := absurd h List.not_mem_nil
  evicted _ h := absurd h List.not_mem_nil
  revoked _ h := absurd h List.not_mem_nil
  bound _ := Nat.zero_le _

theorem redeemedTokens_sublist {grants grants' : JsMap JsString (ConnectionGrant S)}
    (h : grants'.Sublist grants) (principalId : JsString) :
    (redeemedTokens grants' principalId).Sublist (redeemedTokens grants principalId) :=
  (h.filter _).map _

/-- Deletions keep the invariant, and so does a change of the cache. -/
theorem Sound.shrink (h : t.Sound draw) {service : ConnectionGrantService A R S}
    {succeeded : Option (JsString × Option JsString)}
    (hsub : service.grants.Sublist t.service.grants) :
    Sound draw { t with service, succeeded } where
  nodup := h.nodup.sublist (hsub.map _)
  entry k g hg := h.entry k g (hsub.subset hg)
  redeemed k g hg := h.redeemed k g (hsub.subset hg)
  drawn := h.drawn
  distinct := h.distinct
  incarnated := h.incarnated
  once := h.once
  known := h.known
  evicted := h.evicted
  revoked k hk := ⟨fun hmem ↦ (h.revoked k hk).1 ((hsub.map _).subset hmem), (h.revoked k hk).2⟩
  bound principalId := (redeemedTokens_sublist hsub principalId).length_le.trans (h.bound principalId)

theorem discard_sublist (s : ConnectionGrantService A R S) (token : JsString) :
    (s.discard token).grants.Sublist s.grants := List.filter_sublist

/-- A grant that has been minted. -/
theorem grant_eq_ok {s s' : ConnectionGrantService A R S} {principalId issuedBy token : JsString}
    {options : ConnectionGrantOptions S} {now : ℤ} {g : ConnectionGrant S}
    (h : s.grant principalId issuedBy options token now = .ok (s', g)) :
    s' = { s with grants := JsMap.set s.grants token g } ∧ g.token = token ∧ g.redeemed = false ∧
      (s.entityCache.resolveActive principalId).bind incarnation = g.executionDigest := by
  rw [ConnectionGrantService.grant] at h
  cases hrecord : s.entityCache.resolveActive principalId with
  | none =>
    rw [hrecord] at h
    exact nomatch h
  | some record =>
    rw [hrecord] at h
    simp only at h
    cases hdigest : connectableExecutionDigest record with
    | error e =>
      rw [hdigest] at h
      exact nomatch h
    | ok executionDigest =>
      simp only [hdigest, Except.map, Except.ok.injEq, Prod.mk.injEq] at h
      obtain ⟨rfl, rfl⟩ := h
      exact ⟨rfl, rfl, rfl, incarnation_of_connectable hdigest⟩

/-- A new token is none of those there have been. -/
theorem Sound.fresh (h : t.Sound draw) (hdraw : Function.Injective draw) :
    ∀ m ∈ t.minted, m.1.token ≠ draw t.drawn := by
  intro m hm heq
  obtain ⟨i, hi, htoken⟩ := h.drawn m hm
  exact hi.ne (hdraw (htoken.symm.trans heq))

theorem Sound.mint (h : t.Sound draw) (hdraw : Function.Injective draw) {g : ConnectionGrant S}
    {made : Option JsString} (htoken : g.token = draw t.drawn) (hredeemed : g.redeemed = false)
    (hmade : made = g.executionDigest) : Sound draw { t with
      service := { t.service with grants := JsMap.set t.service.grants (draw t.drawn) g }
      drawn := t.drawn + 1
      minted := t.minted ++ [(g, made)]
      succeeded := none } := by
  have hfresh := h.fresh hdraw
  have hkey : draw t.drawn ∉ JsMap.keys t.service.grants := by
    intro hmem
    obtain ⟨⟨k, g'⟩, hg', hk⟩ := List.mem_map.mp hmem
    obtain ⟨hk', m, hm, heq⟩ := h.entry k g' hg'
    refine hfresh m hm ?_
    rw [heq]
    exact hk'.symm.trans hk
  have hunredeemed : draw t.drawn ∉ t.redemptions := by
    intro hmem
    obtain ⟨m, hm, heq⟩ := h.known _ hmem
    exact hfresh m hm heq
  refine ⟨JsMap.nodup_keys_set h.nodup _ _, fun k g' hg' ↦ ?_, fun k g' hg' ↦ ?_, fun m hm ↦ ?_,
    ?_, fun m hm ↦ ?_, h.once, fun k hk ↦ ?_, h.evicted, fun k hk ↦ ⟨fun hmem ↦ ?_, ?_⟩, fun p ↦ ?_⟩
  · rcases JsMap.mem_set hg' with heq | hg'
    · obtain ⟨rfl, rfl⟩ := Prod.mk.inj heq
      refine ⟨htoken.symm, (g', made), List.mem_append_right _ (List.mem_singleton_self _), ?_⟩
      rw [← hredeemed]
    · obtain ⟨hk, m, hm, heq⟩ := h.entry k g' hg'
      exact ⟨hk, m, List.mem_append_left _ hm, heq⟩
  · rcases JsMap.mem_set hg' with heq | hg'
    · obtain ⟨rfl, rfl⟩ := Prod.mk.inj heq
      exact iff_of_false (by rw [hredeemed]; exact Bool.false_ne_true) hunredeemed
    · exact h.redeemed k g' hg'
  · rcases List.mem_append.mp hm with hm | hm
    · obtain ⟨i, hi, heq⟩ := h.drawn m hm
      exact ⟨i, hi.trans (Nat.lt_succ_self _), heq⟩
    · rw [List.mem_singleton.mp hm]
      exact ⟨t.drawn, Nat.lt_succ_self _, htoken⟩
  · rw [List.map_append]
    refine List.nodup_append.mpr ⟨h.distinct, List.nodup_singleton _, fun a ha b hb ↦ ?_⟩
    obtain ⟨m, hm, rfl⟩ := List.mem_map.mp ha
    rw [List.mem_singleton.mp hb]
    exact fun heq ↦ hfresh m hm (heq.trans htoken)
  · rcases List.mem_append.mp hm with hm | hm
    · exact h.incarnated m hm
    · rw [List.mem_singleton.mp hm]
      exact hmade
  · obtain ⟨m, hm, heq⟩ := h.known k hk
    exact ⟨m, List.mem_append_left _ hm, heq⟩
  · rcases JsMap.mem_keys_set.mp hmem with rfl | hmem
    · obtain ⟨m, hm, heq⟩ := (h.revoked _ hk).2
      exact hfresh m hm heq
    · exact (h.revoked k hk).1 hmem
  · obtain ⟨m, hm, heq⟩ := (h.revoked k hk).2
    exact ⟨m, List.mem_append_left _ hm, heq⟩
  · -- the new entry is the last one, and not redeemed
    have hset : JsMap.set t.service.grants (draw t.drawn) g =
        t.service.grants ++ [(draw t.drawn, g)] := LiveMap.set_eq_append g (JsMap.get_eq_none.mpr hkey)
    have htokens : redeemedTokens (JsMap.set t.service.grants (draw t.drawn) g) p =
        redeemedTokens t.service.grants p := by
      rw [hset, redeemedTokens, List.filter_append, List.filter_cons_of_neg (by simp [hredeemed]),
        List.filter_nil, List.append_nil]
      rfl
    rw [htokens]
    exact h.bound p

/-! ### Redemption -/

/-- What a list without repetition has besides a part in front. -/
theorem filter_not_mem_take {α : Type} [DecidableEq α] {l : List α} (h : l.Nodup) (n : ℕ) :
    (l.filter fun x ↦ decide (x ∉ l.take n)) = l.drop n := by
  have hsplit := List.take_append_drop n l
  have hdisjoint : List.Disjoint (l.take n) (l.drop n) := List.disjoint_take_drop h le_rfl
  conv_lhs => rw [← hsplit]
  rw [List.filter_append, List.filter_eq_nil_iff.mpr (by simp +contextual), List.nil_append,
    List.filter_eq_self.mpr]
  · intro x hx
    rw [hsplit, decide_eq_true_eq]
    exact fun hmem ↦ hdisjoint hmem hx

theorem keys_filter_not_mem {α : Type} (m : JsMap JsString α) (ks : List JsString) :
    JsMap.keys (m.filter fun p ↦ decide (p.1 ∉ ks)) =
      (JsMap.keys m).filter fun k ↦ decide (k ∉ ks) := by
  rw [JsMap.keys, JsMap.keys, List.filter_map]
  rfl

theorem redeemedTokens_filter (m : JsMap JsString (ConnectionGrant S)) (ks : List JsString)
    (principalId : JsString) :
    redeemedTokens (m.filter fun p ↦ decide (p.1 ∉ ks)) principalId =
      (redeemedTokens m principalId).filter fun k ↦ decide (k ∉ ks) := by
  rw [redeemedTokens, redeemedTokens, List.filter_filter, ← keys_filter_not_mem, List.filter_filter]
  refine congrArg JsMap.keys (List.filter_congr fun p _ ↦ ?_)
  rw [Bool.and_comm]

theorem nodup_redeemedTokens {m : JsMap JsString (ConnectionGrant S)} (h : (JsMap.keys m).Nodup)
    (principalId : JsString) : (redeemedTokens m principalId).Nodup :=
  h.sublist (List.filter_sublist.map _)

/-- Within the bound again. -/
theorem redeemedTokens_pruned {m : JsMap JsString (ConnectionGrant S)} (h : (JsMap.keys m).Nodup)
    (principalId : JsString) :
    redeemedTokens (m.filter fun p ↦ decide (p.1 ∉ excess m principalId)) principalId =
      (redeemedTokens m principalId).drop
        ((redeemedTokens m principalId).length - maxRedeemedGrantsPerPrincipal) := by
  rw [redeemedTokens_filter]
  exact (List.filter_congr fun k _ ↦ decide_eq_decide.mpr Iff.rfl).trans
    (filter_not_mem_take (nodup_redeemedTokens h principalId) _)

/-- The state after a redemption that succeeds. -/
theorem next_redeem {token : JsString} {key : Option JsString} {now : ℤ} {g : ConnectionGrant S}
    (h : t.service.Redeemable token key now g) :
    t.next draw (.redeem token key now) = { t with
      service := (t.service.markRedeemed token g).pruneRedeemedForPrincipal g.principalId
      redemptions := t.redemptions ++ [token]
      evicted := t.evicted ++ ((JsMap.keys t.service.grants).filter fun k ↦ decide (k ∉ JsMap.keys
        ((t.service.markRedeemed token g).pruneRedeemedForPrincipal g.principalId).grants)).map
          fun k ↦ (k, g.principalId)
      succeeded := some (token, key) } := by
  rw [next, redeem_of_redeemable h]

/-- The grants then. -/
theorem grants_redeemed (s : ConnectionGrantService A R S) (token : JsString)
    (g : ConnectionGrant S) :
    ((s.markRedeemed token g).pruneRedeemedForPrincipal g.principalId).grants =
      (s.markRedeemed token g).grants.filter fun p ↦
        decide (p.1 ∉ excess (s.markRedeemed token g).grants g.principalId) :=
  foldl_delete _ _

section

variable {token : JsString} {key : Option JsString} {now : ℤ} {g : ConnectionGrant S}

theorem mem_markRedeemed (h : t.Sound draw) {k : JsString} {g' : ConnectionGrant S} :
    (k, g') ∈ (t.service.markRedeemed token g).grants ↔
      k = token ∧ g' = { g with redeemed := true } ∨ k ≠ token ∧ (k, g') ∈ t.service.grants := by
  rw [JsMap.mem_iff_get h.nodup]
  refine (JsMap.mem_iff_get (JsMap.nodup_keys_set h.nodup _ _)).trans ?_
  rw [JsMap.get_set]
  by_cases hk : k = token
  · rw [if_pos hk]
    simp [hk, eq_comm]
  · rw [if_neg hk]
    simp [hk]

/-- A redemption that succeeds evicts redeemed grants of the principal only. -/
theorem evicted_redeemed (hg : t.service.Redeemable token key now g)
    {k : JsString} : (k ∈ JsMap.keys t.service.grants ∧ k ∉ JsMap.keys
      ((t.service.markRedeemed token g).pruneRedeemedForPrincipal g.principalId).grants) ↔
        k ∈ excess (t.service.markRedeemed token g).grants g.principalId := by
  have hkeys : k ∈ JsMap.keys (t.service.markRedeemed token g).grants ↔
      k ∈ JsMap.keys t.service.grants := by
    refine JsMap.mem_keys_set.trans (or_iff_right_of_imp ?_)
    rintro rfl
    exact List.mem_map_of_mem (JsMap.mem_of_get hg.found)
  rw [grants_redeemed, keys_filter_not_mem, List.mem_filter, decide_eq_true_eq, hkeys]
  constructor
  · rintro ⟨hk, hnot⟩
    by_contra hexcess
    exact hnot ⟨hk, hexcess⟩
  · intro hk
    refine ⟨hkeys.mp ?_, fun hnot ↦ hnot.2 hk⟩
    exact (List.filter_sublist.map Prod.fst).subset (List.mem_of_mem_take hk)

theorem Sound.redeem (h : t.Sound draw) (hg : t.service.Redeemable token key now g) :
    (t.next draw (.redeem token key now)).Sound draw := by
  have hmem : (token, g) ∈ t.service.grants := JsMap.mem_of_get hg.found
  have hunredeemed : token ∉ t.redemptions := by
    rw [← h.redeemed token g hmem, hg.unredeemed]
    exact Bool.false_ne_true
  have hnodup : (JsMap.keys (t.service.markRedeemed token g).grants).Nodup :=
    JsMap.nodup_keys_set h.nodup _ _
  have hsub : ((t.service.markRedeemed token g).pruneRedeemedForPrincipal
      g.principalId).grants.Sublist (t.service.markRedeemed token g).grants :=
    grants_redeemed t.service token g ▸ List.filter_sublist
  rw [next_redeem hg]
  refine ⟨hnodup.sublist (hsub.map _), fun k g' hg' ↦ ?_, fun k g' hg' ↦ ?_, h.drawn, h.distinct,
    h.incarnated, ?_, fun k hk ↦ ?_, fun e he ↦ ?_, fun k hk ↦ ⟨fun hmem' ↦ ?_, (h.revoked k hk).2⟩, fun p ↦ ?_⟩
  · rcases (mem_markRedeemed h).mp (hsub.subset hg') with ⟨rfl, rfl⟩ | ⟨-, hg'⟩
    · obtain ⟨hk, m, hm, heq⟩ := h.entry k g hmem
      exact ⟨hk, m, hm, heq⟩
    · exact h.entry k g' hg'
  · rw [List.mem_append, List.mem_singleton]
    rcases (mem_markRedeemed h).mp (hsub.subset hg') with ⟨rfl, rfl⟩ | ⟨hne, hg'⟩
    · exact iff_of_true rfl (.inr rfl)
    · rw [h.redeemed k g' hg']
      exact (or_iff_left hne).symm
  · refine List.nodup_append.mpr ⟨h.once, List.nodup_singleton _, fun a ha b hb ↦ ?_⟩
    rw [List.mem_singleton.mp hb]
    rintro rfl
    exact hunredeemed ha
  · rcases List.mem_append.mp hk with hk | hk
    · exact h.known k hk
    · obtain ⟨hk', m, hm, heq⟩ := h.entry token g hmem
      refine ⟨m, hm, ?_⟩
      rw [List.mem_singleton.mp hk, heq]
      exact hk'.symm
  · rcases List.mem_append.mp he with he | he
    · exact List.mem_append_left _ (h.evicted e he)
    · obtain ⟨k, hk, rfl⟩ := List.mem_map.mp he
      rw [List.mem_filter, decide_eq_true_eq, evicted_redeemed hg] at hk
      have htokens := List.mem_of_mem_take hk
      obtain ⟨⟨k', g'⟩, hg', rfl⟩ := List.mem_map.mp htokens
      obtain ⟨hg', hredeemed⟩ := List.mem_filter.mp hg'
      rcases (mem_markRedeemed h).mp hg' with ⟨rfl, -⟩ | ⟨-, hg'⟩
      · exact List.mem_append_right _ (List.mem_singleton_self _)
      · rw [Bool.and_eq_true] at hredeemed
        exact List.mem_append_left _ ((h.redeemed _ _ hg').mp hredeemed.1)
  · obtain ⟨⟨k', g'⟩, hg', rfl⟩ := List.mem_map.mp ((hsub.map _).subset hmem')
    rcases (mem_markRedeemed h).mp hg' with ⟨rfl, -⟩ | ⟨-, hg'⟩
    · exact (h.revoked _ hk).1 (List.mem_map.mpr ⟨_, hmem, rfl⟩)
    · exact (h.revoked _ hk).1 (List.mem_map.mpr ⟨_, hg', rfl⟩)
  · simp only
    rw [grants_redeemed]
    by_cases hp : p = g.principalId
    · rw [hp, redeemedTokens_pruned hnodup, List.length_drop]
      omega
    · -- the grants of another principal are those there were
      have hother : redeemedTokens (t.service.markRedeemed token g).grants p =
          redeemedTokens t.service.grants p := by
        refine keys_filter_set h.nodup hmem (fun _ _ _ ↦ rfl) ?_
        simp [Ne.symm hp]
      exact (redeemedTokens_sublist List.filter_sublist p).length_le.trans
        (hother ▸ h.bound p)

end

theorem Sound.next (h : t.Sound draw) (hdraw : Function.Injective draw) (call : GrantCall A R S) :
    (t.next draw call).Sound draw := by
  cases call with
  | grant principalId issuedBy options now =>
    rw [GrantHistory.next]
    cases hgrant : t.service.grant principalId issuedBy options (draw t.drawn) now with
    | error e => exact h.shrink (List.Sublist.refl _)
    | ok made =>
      obtain ⟨service, g⟩ := made
      obtain ⟨rfl, htoken, hredeemed, hmade⟩ := grant_eq_ok hgrant
      exact h.mint hdraw htoken hredeemed hmade
  | redeem token remoteDeviceKey now =>
    by_cases hg : ∃ g, t.service.Redeemable token remoteDeviceKey now g
    · obtain ⟨g, hg⟩ := hg
      exact h.redeem hg
    · obtain ⟨hnone, hservice⟩ := redeem_of_not hg
      have hnext : t.next draw (.redeem token remoteDeviceKey now) =
          { t with service := (t.service.redeem token remoteDeviceKey now).1, succeeded := none } := by
        rw [GrantHistory.next, ← Prod.mk.eta (p := t.service.redeem token remoteDeviceKey now), hnone]
      rw [hnext]
      refine h.shrink ?_
      rcases hservice with hservice | hservice
      · rw [hservice]
      · rw [hservice]
        exact discard_sublist _ _
  | validate token remoteDeviceKey now =>
    refine h.shrink ?_
    rcases validate_fst t.service token remoteDeviceKey now with hservice | hservice
    · rw [hservice]
    · rw [hservice]
      exact discard_sublist _ _
  | revokeForPrincipal principalId =>
    have hsub : (t.service.revokeForPrincipal principalId).1.grants.Sublist t.service.grants :=
      List.filter_sublist
    have hkept : Sound draw
        { t with service := (t.service.revokeForPrincipal principalId).1, succeeded := none } :=
      h.shrink hsub
    refine { hkept with revoked := fun k hk ↦ ?_ }
    rcases List.mem_append.mp hk with hk | hk
    · exact hkept.revoked k hk
    · obtain ⟨m, hm, rfl⟩ := List.mem_map.mp hk
      obtain ⟨hm, hprincipal⟩ := List.mem_filter.mp hm
      refine ⟨fun hmem ↦ ?_, m, hm, rfl⟩
      -- the grant that is kept under the token is the one that was minted with it
      obtain ⟨⟨k, g⟩, hg, hk⟩ := List.mem_map.mp hmem
      obtain ⟨hg, hother⟩ := List.mem_filter.mp hg
      obtain ⟨hk', m', hm', heq⟩ := h.entry k g hg
      have htoken : m'.1.token = m.1.token := by
        rw [heq]
        exact hk'.symm.trans hk
      rw [← List.inj_on_of_nodup_map h.distinct hm' hm htoken, heq] at hprincipal
      exact absurd (of_decide_eq_true hprincipal) (of_decide_eq_true hother)
  | gcExpired now => exact h.shrink List.filter_sublist
  | entityCacheChanges entityCache => exact h.shrink (List.Sublist.refl _)

theorem Sound.after (h : t.Sound draw) (hdraw : Function.Injective draw)
    (calls : List (GrantCall A R S)) : (t.after draw calls).Sound draw := by
  induction calls generalizing t with
  | nil => exact h
  | cons call calls ih => exact ih (h.next hdraw call)

/-! ## Which redeemed grants are kept -/

variable (t) in
/-- An evicted grant was redeemed before every redeemed grant of its principal that is kept. -/
def Recent : Prop := ∀ e ∈ t.evicted, ∀ k g, (k, g) ∈ t.service.grants → g.redeemed = true →
  g.principalId = e.2 → [e.1, k].Sublist t.redemptions

variable (t) in
/-- A redemption that has just succeeded leaves a token that validates. -/
def Succeeds : Prop := ∀ token key, t.succeeded = some (token, key) →
  ∀ now, (t.service.validate token key now).2.isSome = true

variable (t) in
/-- **The condition on a redemption**: if it makes one grant too many, the earliest minted of the
redeemed grants of the principal, the new one included, is another, and was redeemed first. -/
def Meets : GrantCall A R S → Prop
  | .redeem token remoteDeviceKey now => ∀ g, t.service.Redeemable token remoteDeviceKey now g →
      maxRedeemedGrantsPerPrincipal < (t.service.contenders token g.principalId).length →
      ∀ first ∈ (t.service.contenders token g.principalId).head?, first ≠ token ∧
        ∀ k ∈ t.service.contenders token g.principalId, k ≠ first → k ≠ token →
          [first, k].Sublist t.redemptions
  | _ => True

section

variable {token : JsString} {key : Option JsString} {now : ℤ} {g : ConnectionGrant S}

theorem mem_contenders {s : ConnectionGrantService A R S} {k principalId : JsString} :
    k ∈ s.contenders token principalId ↔ ∃ g, (k, g) ∈ s.grants ∧
      (g.redeemed = true ∨ k = token) ∧ g.principalId = principalId := by
  rw [contenders, JsMap.keys, List.mem_map]
  constructor
  · rintro ⟨⟨k', g⟩, hg, rfl⟩
    obtain ⟨hg, hq⟩ := List.mem_filter.mp hg
    simp only [Bool.and_eq_true, Bool.or_eq_true, decide_eq_true_eq] at hq
    exact ⟨g, hg, hq⟩
  · rintro ⟨g, hg, hq⟩
    refine ⟨(k, g), List.mem_filter.mpr ⟨hg, ?_⟩, rfl⟩
    simpa only [Bool.and_eq_true, Bool.or_eq_true, decide_eq_true_eq] using hq

/-- There is at most one too many. -/
theorem length_contenders_le (h : t.Sound draw) (token principalId : JsString) :
    (t.service.contenders token principalId).length ≤ maxRedeemedGrantsPerPrincipal + 1 := by
  have hnodup : (t.service.contenders token principalId).Nodup :=
    h.nodup.sublist (List.filter_sublist.map _)
  have hothers : ((t.service.contenders token principalId).erase token).length ≤
      maxRedeemedGrantsPerPrincipal := by
    rw [hnodup.erase_eq_filter]
    refine le_trans (List.Subperm.length_le ?_) (h.bound principalId)
    refine List.subperm_of_subset (hnodup.filter _) fun k hk ↦ ?_
    obtain ⟨hk, hne⟩ := List.mem_filter.mp hk
    obtain ⟨g, hg, hredeemed, hprincipal⟩ := mem_contenders.mp hk
    refine List.mem_map.mpr ⟨(k, g), List.mem_filter.mpr ⟨hg, ?_⟩, rfl⟩
    have hne' : k ≠ token := by simpa using hne
    simp [hredeemed.resolve_right hne', hprincipal]
  rw [List.length_erase] at hothers
  split_ifs at hothers <;> omega

/-- **What a redemption evicts**: the first of those redeemed, if there is one too many. -/
theorem excess_redeemed (h : t.Sound draw) (hg : t.service.Redeemable token key now g) :
    excess (t.service.markRedeemed token g).grants g.principalId =
      if maxRedeemedGrantsPerPrincipal < (t.service.contenders token g.principalId).length then
        (t.service.contenders token g.principalId).head?.toList else [] := by
  have hle := length_contenders_le h token g.principalId
  rw [excess, redeemedTokens_markRedeemed h.nodup hg.found]
  split_ifs with hmany
  · have hone : (t.service.contenders token g.principalId).length -
        maxRedeemedGrantsPerPrincipal = 1 := by omega
    rw [hone, List.take_one]
  · rw [Nat.sub_eq_zero_of_le (not_lt.mp hmany), List.take_zero]

/-- What is kept by a redemption that succeeds. -/
theorem mem_kept (h : t.Sound draw) (hg : t.service.Redeemable token key now g) {k : JsString}
    {g' : ConnectionGrant S} :
    (k, g') ∈ (t.next draw (.redeem token key now)).service.grants ↔
      (k = token ∧ g' = { g with redeemed := true } ∨
        k ≠ token ∧ (k, g') ∈ t.service.grants) ∧
        k ∉ excess (t.service.markRedeemed token g).grants g.principalId := by
  rw [next_redeem hg]
  simp only
  rw [grants_redeemed, List.mem_filter, decide_eq_true_eq, mem_markRedeemed h]

theorem mem_evicted (hg : t.service.Redeemable token key now g) {e : JsString × JsString} :
    e ∈ (t.next draw (.redeem token key now)).evicted ↔ e ∈ t.evicted ∨
      e.1 ∈ excess (t.service.markRedeemed token g).grants g.principalId ∧ e.2 = g.principalId := by
  rw [next_redeem hg]
  simp only
  rw [List.mem_append]
  refine or_congr Iff.rfl ?_
  rw [List.mem_map]
  constructor
  · rintro ⟨k, hk, rfl⟩
    rw [List.mem_filter, decide_eq_true_eq, evicted_redeemed hg] at hk
    exact ⟨hk, rfl⟩
  · rintro ⟨hk, heq⟩
    refine ⟨e.1, ?_, by rw [← heq]⟩
    rw [List.mem_filter, decide_eq_true_eq, evicted_redeemed hg]
    exact hk

/-- A redeemed grant of the principal that is not the new one is a contender. -/
theorem contender_of_redeemed {k : JsString} {g' : ConnectionGrant S}
    (hg' : (k, g') ∈ t.service.grants) (hredeemed : g'.redeemed = true)
    (hprincipal : g'.principalId = g.principalId) :
    k ∈ t.service.contenders token g.principalId :=
  mem_contenders.mpr ⟨g', hg', .inl hredeemed, hprincipal⟩

theorem recent_redeem (h : t.Sound draw) (hrecent : t.Recent)
    (hmeets : t.Meets (.redeem token key now)) (hg : t.service.Redeemable token key now g) :
    (t.next draw (.redeem token key now)).Recent := by
  have hexcess := excess_redeemed h hg
  have hredemptions : (t.next draw (.redeem token key now)).redemptions =
      t.redemptions ++ [token] := by rw [next_redeem hg]
  have hbefore : ∀ k ∈ t.redemptions, [k, token].Sublist (t.redemptions ++ [token]) :=
    fun k hk ↦ (List.singleton_sublist.mpr hk).append (List.Sublist.refl [token])
  intro e he k g' hg' hredeemed hprincipal
  rw [hredemptions]
  obtain ⟨hg', hkept⟩ := (mem_kept h hg).mp hg'
  rcases (mem_evicted hg).mp he with hold | ⟨hfirst, heq⟩
  · -- evicted before: the new one comes last
    rcases hg' with ⟨rfl, -⟩ | ⟨-, hg'⟩
    · exact hbefore e.1 (h.evicted e hold)
    · exact (hrecent e hold k g' hg' hredeemed hprincipal).trans (List.sublist_append_left _ _)
  · rw [hexcess] at hfirst hkept
    split_ifs at hfirst hkept with hmany
    · rw [Option.mem_toList] at hfirst hkept
      obtain ⟨hne, horder⟩ := hmeets g hg hmany e.1 hfirst
      rcases hg' with ⟨rfl, -⟩ | ⟨hk, hg'⟩
      · -- the evicted one has been redeemed, and is not the new one
        obtain ⟨g₁, hg₁, hredeemed₁, -⟩ := mem_contenders.mp (List.mem_of_mem_head? hfirst)
        exact hbefore e.1 ((h.redeemed _ _ hg₁).mp (hredeemed₁.resolve_right hne))
      · refine (horder k (contender_of_redeemed hg' hredeemed (hprincipal.trans heq)) ?_ hk).trans
          (List.sublist_append_left _ _)
        rintro rfl
        exact hkept hfirst
    · exact absurd hfirst List.not_mem_nil

theorem succeeds_redeem (h : t.Sound draw) (hmeets : t.Meets (.redeem token key now))
    (hg : t.service.Redeemable token key now g) :
    (t.next draw (.redeem token key now)).Succeeds := by
  have hsound := h.redeem hg
  have hkept : token ∉ excess (t.service.markRedeemed token g).grants g.principalId := by
    rw [excess_redeemed h hg]
    split_ifs with hmany
    · rw [Option.mem_toList]
      exact fun hfirst ↦ (hmeets g hg hmany token hfirst).1 rfl
    · exact List.not_mem_nil
  have hmem := (mem_kept h hg).mpr ⟨.inl ⟨rfl, rfl⟩, hkept⟩
  intro token' key' hsucceeded now'
  have hpair : (token, key) = (token', key') := by
    rw [next_redeem hg] at hsucceeded
    exact Option.some.inj hsucceeded
  obtain ⟨rfl, rfl⟩ := Prod.mk.inj hpair
  rw [validate_isSome_iff]
  have hredeemed : ({ g with redeemed := true } : ConnectionGrant S).redeemed = true := rfl
  refine ⟨{ g with redeemed := true }, (JsMap.mem_iff_get hsound.nodup).mp hmem, hg.device,
    fun hfalse ↦ absurd (hredeemed.symm.trans hfalse) Bool.noConfusion, ?_⟩
  rw [next_redeem hg]
  exact hg.live

/-- The condition is necessary. -/
theorem meets_redeem (h : t.Sound draw) (hg : t.service.Redeemable token key now g)
    (hrecent : (t.next draw (.redeem token key now)).Recent)
    (hsucceeds : (t.next draw (.redeem token key now)).Succeeds)
    (hmany : maxRedeemedGrantsPerPrincipal < (t.service.contenders token g.principalId).length)
    {first : JsString} (hfirst : first ∈ (t.service.contenders token g.principalId).head?) :
    first ≠ token ∧ ∀ k ∈ t.service.contenders token g.principalId, k ≠ first → k ≠ token →
      [first, k].Sublist t.redemptions := by
  have hexcess : ∀ k, k ∈ excess (t.service.markRedeemed token g).grants g.principalId ↔
      k = first := by
    intro k
    rw [excess_redeemed h hg, if_pos hmany, Option.mem_toList, Option.mem_def.mp hfirst]
    exact Option.mem_some_iff.trans eq_comm
  have hne : first ≠ token := by
    rintro rfl
    have hvalid := hsucceeds first key (by rw [next_redeem hg]) now
    obtain ⟨g', hfound, -⟩ := validate_isSome_iff.mp hvalid
    exact ((mem_kept h hg).mp (JsMap.mem_of_get hfound)).2 ((hexcess first).mpr rfl)
  refine ⟨hne, fun k hk hkf hkt ↦ ?_⟩
  obtain ⟨g', hg', hredeemed, hprincipal⟩ := mem_contenders.mp hk
  have horder := hrecent (first, g.principalId)
    ((mem_evicted hg).mpr (.inr ⟨(hexcess first).mpr rfl, rfl⟩)) k g'
    ((mem_kept h hg).mpr ⟨.inr ⟨hkt, hg'⟩, fun hmem ↦ hkf ((hexcess k).mp hmem)⟩)
    (hredeemed.resolve_right hkt) hprincipal
  rw [next_redeem hg] at horder
  have hfilter := horder.filter fun k ↦ decide (k ≠ token)
  rw [List.filter_append, List.filter_cons_of_pos (by simpa using hne),
    List.filter_cons_of_pos (by simpa using hkt), List.filter_nil,
    List.filter_cons_of_neg (by simp), List.filter_nil, List.append_nil] at hfilter
  exact hfilter.trans List.filter_sublist

end

theorem Recent.shrink (h : t.Recent) {service : ConnectionGrantService A R S} {drawn : ℕ}
    {minted : List (ConnectionGrant S × Option JsString)} {revoked : List JsString}
    {succeeded : Option (JsString × Option JsString)}
    (hsub : ∀ k g, (k, g) ∈ service.grants → g.redeemed = true → (k, g) ∈ t.service.grants) :
    Recent { t with service, drawn, minted, revoked, succeeded } :=
  fun e he k g hg hredeemed hprincipal ↦
    h e he k g (hsub k g hg hredeemed) hredeemed hprincipal

/-- A redemption that fails. -/
theorem next_redeem_of_not {token : JsString} {key : Option JsString} {now : ℤ}
    (hg : ¬∃ g, t.service.Redeemable token key now g) :
    t.next draw (.redeem token key now) =
      { t with service := (t.service.redeem token key now).1, succeeded := none } := by
  rw [GrantHistory.next, ← Prod.mk.eta (p := t.service.redeem token key now), (redeem_of_not hg).1]

/-- **The step of both properties.** -/
theorem recent_next (h : t.Sound draw) (hrecent : t.Recent) {call : GrantCall A R S}
    (hmeets : t.Meets call) : (t.next draw call).Recent := by
  cases call with
  | grant principalId issuedBy options now =>
    rw [GrantHistory.next]
    cases hgrant : t.service.grant principalId issuedBy options (draw t.drawn) now with
    | error e => exact hrecent.shrink fun _ _ hg _ ↦ hg
    | ok made =>
      obtain ⟨service, minted⟩ := made
      obtain ⟨rfl, -, hunredeemed, -⟩ := grant_eq_ok hgrant
      refine hrecent.shrink fun k g hg hredeemed ↦ (JsMap.mem_set hg).resolve_left fun heq ↦ ?_
      rw [(Prod.mk.inj heq).2, hunredeemed] at hredeemed
      exact nomatch hredeemed
  | redeem token remoteDeviceKey now =>
    by_cases hg : ∃ g, t.service.Redeemable token remoteDeviceKey now g
    · obtain ⟨g, hg⟩ := hg
      exact recent_redeem h hrecent hmeets hg
    · rw [next_redeem_of_not hg]
      refine hrecent.shrink fun k g hmem _ ↦ ?_
      rcases (redeem_of_not hg).2 with hservice | hservice
      · rwa [hservice] at hmem
      · rw [hservice] at hmem
        exact (discard_sublist _ _).subset hmem
  | validate token remoteDeviceKey now =>
    refine hrecent.shrink fun k g hmem _ ↦ ?_
    rcases validate_fst t.service token remoteDeviceKey now with hservice | hservice
    · rwa [hservice] at hmem
    · rw [hservice] at hmem
      exact (discard_sublist _ _).subset hmem
  | revokeForPrincipal principalId =>
    exact hrecent.shrink fun _ _ hmem _ ↦ List.filter_sublist.subset hmem
  | gcExpired now => exact hrecent.shrink fun _ _ hmem _ ↦ List.filter_sublist.subset hmem
  | entityCacheChanges entityCache => exact hrecent.shrink fun _ _ hmem _ ↦ hmem

theorem succeeds_next (h : t.Sound draw) {call : GrantCall A R S} (hmeets : t.Meets call) :
    (t.next draw call).Succeeds := by
  cases call with
  | grant principalId issuedBy options now =>
    rw [GrantHistory.next]
    cases t.service.grant principalId issuedBy options (draw t.drawn) now with
    | error e => exact fun _ _ hsucceeded ↦ nomatch hsucceeded
    | ok made => exact fun _ _ hsucceeded ↦ nomatch hsucceeded
  | redeem token remoteDeviceKey now =>
    by_cases hg : ∃ g, t.service.Redeemable token remoteDeviceKey now g
    · obtain ⟨g, hg⟩ := hg
      exact succeeds_redeem h hmeets hg
    · rw [next_redeem_of_not hg]
      exact fun _ _ hsucceeded ↦ nomatch hsucceeded
  | validate | revokeForPrincipal | gcExpired | entityCacheChanges =>
    exact fun _ _ hsucceeded ↦ nomatch hsucceeded

theorem meets_of_next (h : t.Sound draw) {call : GrantCall A R S}
    (hrecent : (t.next draw call).Recent) (hsucceeds : (t.next draw call).Succeeds) :
    t.Meets call := by
  cases call with
  | redeem token remoteDeviceKey now =>
    intro g hg hmany first hfirst
    exact meets_redeem h hg hrecent hsucceeds hmany hfirst
  | _ => trivial

variable (t) in
/-- **What the service promises**, in one state. -/
structure Kept : Prop where
  once : t.redemptions.Nodup
  validates : ∀ token key now, (t.service.validate token key now).2.isSome = true →
    ∃ m ∈ t.minted, m.1.token = token ∧ m.1.remoteDeviceKey = key ∧
      (∃ record, t.service.entityCache.resolveActive m.1.principalId = some record ∧
        incarnation record = m.2) ∧ (token ∉ t.redemptions → now < m.1.expiresAt)
  succeeds : t.Succeeds
  bound : ∀ principalId, (redeemedTokens t.service.grants principalId).length ≤ 16
  recent : t.Recent
  revoked : ∀ token ∈ t.revoked, ∀ key now, (t.service.validate token key now).2 = none ∧
    (t.service.redeem token key now).2 = none

theorem Sound.kept (h : t.Sound draw) (hsucceeds : t.Succeeds) (hrecent : t.Recent) : t.Kept where
  once := h.once
  validates token key now hvalid := by
    obtain ⟨g, hfound, hdevice, hintime, hlive⟩ := validate_isSome_iff.mp hvalid
    have hmem := JsMap.mem_of_get hfound
    obtain ⟨htoken, m, hm, heq⟩ := h.entry token g hmem
    obtain ⟨record, hrecord, hincarnation⟩ := liveKind_spec hlive
    refine ⟨m, hm, ?_, ?_, ⟨record, ?_, ?_⟩, fun hnot ↦ ?_⟩
    · rw [heq]
      exact htoken.symm
    · rw [heq]
      exact hdevice
    · rw [heq]
      exact hrecord
    · rw [h.incarnated m hm, heq]
      exact hincarnation
    · rw [heq]
      refine hintime (Bool.not_eq_true _ ▸ fun hredeemed ↦ hnot ?_)
      exact (h.redeemed token g hmem).mp hredeemed
  succeeds := hsucceeds
  bound := h.bound
  recent := hrecent
  revoked token htoken key now := by
    have hnone := JsMap.get_eq_none.mpr (h.revoked token htoken).1
    rw [validate, ConnectionGrantService.redeem, hnone]
    exact ⟨rfl, rfl⟩

/-- **When the service keeps its promises**: in a run from a new service, exactly when every
redemption meets its condition. -/
theorem kept_iff (hdraw : Function.Injective draw) (entityCache : EntityCache A R)
    (calls : List (GrantCall A R S)) :
    (∀ pre post, calls = pre ++ post →
      ((GrantHistory.open entityCache : GrantHistory A R S).after draw pre).Kept) ↔
      ∀ pre call post, calls = pre ++ call :: post →
        ((GrantHistory.open entityCache : GrantHistory A R S).after draw pre).Meets call := by
  have hsound (pre : List (GrantCall A R S)) := (sound_open entityCache).after hdraw pre
  have hsnoc (pre : List (GrantCall A R S)) (call : GrantCall A R S) :
      (GrantHistory.open entityCache).after draw (pre ++ [call]) =
        ((GrantHistory.open entityCache).after draw pre).next draw call := after_append draw _ pre [call]
  constructor
  · intro h pre call post heq
    have hnext := h (pre ++ [call]) post (by rw [heq, List.append_assoc]; rfl)
    rw [hsnoc] at hnext
    exact meets_of_next (hsound pre) hnext.recent hnext.succeeds
  · intro h pre
    induction pre using List.reverseRecOn with
    | nil =>
      intro post _
      exact (hsound []).kept (fun _ _ hsucceeded ↦ nomatch hsucceeded)
        (fun _ he ↦ absurd he List.not_mem_nil)
    | append_singleton pre call ih =>
      intro post heq
      rw [List.append_assoc, List.singleton_append] at heq
      have hmeets := h pre call post heq
      have hbefore := ih (call :: post) heq
      have hafter := hsound (pre ++ [call])
      rw [hsnoc] at hafter ⊢
      exact hafter.kept (succeeds_next (hsound pre) hmeets)
        (recent_next (hsound pre) hbefore.recent hmeets)

/-! ### Two orders -/

/-- A cache with one active principal, a shell. -/
def shellCache : EntityCache Unit Unit :=
  ⟨[(lit "shell", ⟨lit "shell", .shell, ⟨[], []⟩, none, none, none, [], none, [], 0, none, .active,
    true, none⟩)], [], [], 0, []⟩

def zeros (n : ℕ) : JsString := List.replicate n 0

theorem zeros_injective : Function.Injective zeros := fun m n h ↦ by
  simpa [zeros] using congrArg List.length h

/-- Seventeen grants are minted, and redeemed in the order given. -/
def redemptionsOf (order : List ℕ) : List (GrantCall Unit Unit Unit) :=
  List.replicate 17 (.grant (lit "shell") [] ⟨none, none, none⟩ 0) ++
    order.map fun n ↦ .redeem (zeros n) none 1

theorem kept_iff_of_mintOrder :
    (∀ pre post, redemptionsOf (List.range 17) = pre ++ post →
      ((GrantHistory.open shellCache : GrantHistory Unit Unit Unit).after zeros pre).Kept) ↔
      ∀ pre call post, redemptionsOf (List.range 17) = pre ++ call :: post →
        ((GrantHistory.open shellCache : GrantHistory Unit Unit Unit).after zeros pre).Meets call :=
  kept_iff zeros_injective shellCache (redemptionsOf (List.range 17))

/-- The grant that is minted first and redeemed last is evicted by its own redemption. -/
theorem not_kept_lateRedemption :
    ¬((GrantHistory.open shellCache : GrantHistory Unit Unit Unit).after zeros
      (redemptionsOf (List.range' 1 16 ++ [0]))).Kept := by
  intro h
  have hvalid := h.succeeds (zeros 0) none (by decide +kernel) 1
  exact absurd hvalid (by decide +kernel)

end GrantHistory

end Vibestudio.Shared

import Vibestudio.Js.Number
import Vibestudio.Shared.ResourceScope

/-!
# The authority evaluator

`evaluateAuthority` of `authorization.ts`: one requirement tree of capability, relationship and
session leaves under `all` and `any` nodes, evaluated against one list of grants. The functions
stand here as the source has them, with the texts of their refusals; what they guarantee is in the
module after this one.

Times and generations are integers, as everywhere in the callers. `url` is the host's URL parser.
The list of locks is empty where the source has none. Facts the evaluator does not read (issuer,
lineage, display data of a grant) are left out.
-/

namespace Vibestudio.Shared

open Js

/-! ## Facts -/

inductive PrincipalKind where
  | host | user | code | session | mission | website
deriving DecidableEq

def PrincipalKind.text : PrincipalKind → JsString
  | host => lit "host"
  | user => lit "user"
  | code => lit "code"
  | session => lit "session"
  | mission => lit "mission"
  | website => lit "website"

/-- Exactly one origin authorizes a call, and it is never a mission. -/
structure AuthorizationOrigin where
  kind : PrincipalKind
  principal : JsString
  kind_ne_mission : kind ≠ .mission

structure AuthoritySubjectBinding where
  subject : JsString
  generation : ℤ
  documentId : Option JsString

/-- What `WebsiteAuthorityFact` and the retained origin of accepted execution have in common. -/
structure WebsiteIdentity where
  subject : JsString
  userId : JsString
  workspaceId : JsString
  origin : JsString
  binding : AuthoritySubjectBinding

structure WebsiteAuthorityFact extends WebsiteIdentity where
  connected : Bool

structure CapabilityScope where
  capability : JsString
  resource : ResourceScope

structure InstallationFact where
  binding : AuthoritySubjectBinding
  codePrincipal : JsString

structure ExecutingCode where
  principal : JsString
  requested : List CapabilityScope

/-- `ExecutionAdmissionFact`: the binding of its agent and the subject of its mission. -/
structure ExecutionSession where
  agentBindingId : Option JsString
  missionSubject : Option JsString

structure WorkspaceRelationship where
  workspaceId : JsString
  member : Bool
  role : Option JsString

structure AuthoritySession where
  id : JsString
  audience : JsString
  version : JsString
  expiresAt : ℤ
  taskRef : Option JsString
  taskAuthority : Option JsString

structure AuthorizationContext where
  /-- `executionAuthority.website`, where accepted execution carries one. -/
  executionAuthority : Option WebsiteIdentity
  website : Option WebsiteAuthorityFact
  subjectBinding : Option AuthoritySubjectBinding
  installation : Option InstallationFact
  sourceWorkspaceId : Option JsString
  authorizingOrigin : AuthorizationOrigin
  actingUser : Option JsString
  entity : Option JsString
  executingCode : Option ExecutingCode
  ownerChain : List JsString
  /-- `agentBinding.entity`. -/
  agentBinding : Option JsString
  executionSession : Option ExecutionSession
  workspace : Option WorkspaceRelationship
  session : AuthoritySession

structure AuthorityGrantConstraints where
  requestingCodePrincipal : Option JsString
  subjectGeneration : Option ℤ
  documentId : Option JsString
  sourceWorkspaceId : Option JsString
  sessionId : Option JsString
  invocationDigest : Option JsString
  providerExecutionDigest : Option JsString
  missionSubject : Option JsString
  taskRef : Option JsString
  taskAuthority : Option JsString
  agentBindingId : Option JsString

inductive GrantEffect where
  | allow | deny
deriving DecidableEq

structure AuthorityGrant extends CapabilityScope where
  id : Option JsString
  subject : JsString
  effect : GrantEffect
  expiresAt : Option ℤ
  revokedAt : Option ℤ
  consumedAt : Option ℤ
  constraints : Option AuthorityGrantConstraints
  provenance : JsString

structure AuthorityLock where
  id : JsString

/-! ## Requirements and decisions -/

inductive RelationshipName where
  | workspaceMember | workspaceRole | entitySelf | entityOwner | agentBinding | codeSource
  | contextIntegrity | closureInternal
deriving DecidableEq

def RelationshipName.text : RelationshipName → JsString
  | workspaceMember => lit "workspace-member"
  | workspaceRole => lit "workspace-role"
  | entitySelf => lit "entity-self"
  | entityOwner => lit "entity-owner"
  | agentBinding => lit "agent-binding"
  | codeSource => lit "code-source"
  | contextIntegrity => lit "context-integrity"
  | closureInternal => lit "closure-internal"

/-- A leaf of the first kind. -/
structure CapabilityRequirement where
  principal : PrincipalKind
  capability : JsString
  codeOnly : Bool

inductive AuthorityRequirement where
  | capability (leaf : CapabilityRequirement)
  | relationship (name : RelationshipName) (value : Option JsString)
  | session (audience minVersion : Option JsString)
  | all (requirements : List AuthorityRequirement)
  | any (requirements : List AuthorityRequirement)

inductive DecisionCode where
  | allowed | approvalRequired | userDenied | receiverRejected | fixedCodeNotRequested
  | invalidSession | connectionRequired | invalidAttestation
deriving DecidableEq

structure AuthorizationDecision where
  allowed : Bool
  code : DecisionCode
  reason : JsString
  requirement : AuthorityRequirement
  principal : Option JsString
  grantId : Option JsString
  /-- Whether the field is there; it is never there with another value than `true`. -/
  consumable : Bool
  standing : Option Bool

/-- A decision with none of the optional fields. -/
def AuthorizationDecision.plain (allowed : Bool) (code : DecisionCode) (reason : JsString)
    (requirement : AuthorityRequirement) : AuthorizationDecision :=
  { allowed, code, reason, requirement, principal := none, grantId := none, consumable := false,
    standing := none }

inductive Tier where
  | «open» | gated | critical
deriving DecidableEq

structure AuthorityEvaluationInput where
  context : AuthorizationContext
  requirement : AuthorityRequirement
  resourceKey : JsString
  resource : Option ResourceScope
  grants : List AuthorityGrant
  locks : List AuthorityLock
  /-- `input.now`, or the clock where it is absent. -/
  now : ℤ
  invocationDigest : Option JsString
  providerExecutionDigest : Option JsString
  tier : Option Tier
  /-- The receiver's resolver, of the name and value of a relationship, the key and the time. -/
  relation : Option (RelationshipName → Option JsString → Bool)

/-! ## Text helpers -/

/-- A string that is there and not empty. -/
def truthy (s : Option JsString) : Bool := s.any (decide <| · ≠ [])

/-- `strings.join(separator)`. -/
def joinText (separator : JsString) (strings : List JsString) : JsString :=
  separator.intercalate strings

/-- `capabilityPatternCovers` of `authorityManifest.ts`. -/
def capabilityPatternCovers (pattern capability : JsString) : Bool :=
  if pattern.getLast? = some 42 then decide (pattern.dropLast <+: capability)
  else decide (pattern = capability)

/-- What follows the first `prefix` of the list that starts the string. -/
def afterAny (prefixes : List JsString) (s : JsString) : Option JsString :=
  prefixes.findSome? (stripPrefix? · s)

/-- `/^(host|user|session|website):[^:][^\0]*$/`, `/^agent:[^:][^\0]*$/` or
`/^(code|mission):[^@\0]+@[^@\0]+$/`. -/
def isCanonicalPrincipal (principal : JsString) : Bool :=
  (match afterAny [lit "host:", lit "user:", lit "session:", lit "website:", lit "agent:"]
      principal with
    | some (c :: rest) => decide (c ≠ 58 ∧ 0 ∉ rest)
    | _ => false) ||
  (match afterAny [lit "code:", lit "mission:"] principal with
    | some rest =>
      -- Neither part has an `@`, so the one in the middle is the first.
      match rest.span (· ≠ 64) with
      | (name, 64 :: version) =>
        decide (name ≠ [] ∧ 0 ∉ name ∧ version ≠ [] ∧ 64 ∉ version ∧ 0 ∉ version)
      | _ => false
    | none => false)

/-! ## Versions -/

/-- `Number.parseInt(part, 10)`: the longest run of digits after white space and a sign. -/
def parseInt (part : JsString) : JsNumber :=
  let s := part.dropWhile isTrimmed
  let neg := decide (s.head? = some 45)
  let digits := (if s.head? = some 45 ∨ s.head? = some 43 then s.tail else s).takeWhile isDigit
  if digits = [] then .nan else .round neg (digitsValue digits)

/-- The value of a finite number with its sign. -/
def signedVal (neg : Bool) (mag : Magnitude) : ℚ := if neg then -mag.val else mag.val

/-- The sign of `x - y`, and nothing for NaN. Rounding never changes the sign of a difference. -/
def differenceSign : JsNumber → JsNumber → Option SignType
  | .nan, _ | _, .nan => none
  | .infinity n, .infinity m => if n = m then none else some (if n then -1 else 1)
  | .infinity n, .finite _ _ => some (if n then -1 else 1)
  | .finite _ _, .infinity m => some (if m then 1 else -1)
  | .finite n a, .finite m b => some (SignType.sign (signedVal n a - signedVal m b))

/-- The first difference that is not zero, a missing part counting as zero. -/
def firstDifference : List JsNumber → List JsNumber → Option SignType
  | [], [] => some 0
  | x :: xs, [] => laterThan (differenceSign x (.finite false .zero)) (firstDifference xs [])
  | [], y :: ys => laterThan (differenceSign (.finite false .zero) y) (firstDifference [] ys)
  | x :: xs, y :: ys => laterThan (differenceSign x y) (firstDifference xs ys)
where
  laterThan (delta rest : Option SignType) : Option SignType :=
    if delta = some 0 then rest else delta

/-- The sign of what `compareVersions` returns, and nothing for NaN. -/
def compareVersions (left right : JsString) : Option SignType :=
  firstDifference ((left.splitOn 46).map parseInt) ((right.splitOn 46).map parseInt)

/-! ## The origin of a call -/

def subjectsForOrigin (context : AuthorizationContext) : List JsString :=
  let origin := context.authorizingOrigin
  if origin.kind = .website then [origin.principal]
  else
    [origin.principal] ++
      (match context.installation with
        | some installation =>
          if origin.kind = .code ∧ lit "installation:" <+: installation.binding.subject ∧
              installation.codePrincipal = origin.principal ∧
              context.executingCode.map ExecutingCode.principal = some installation.codePrincipal
          then [installation.binding.subject] else []
        | none => []) ++
      (if truthy context.session.taskAuthority then context.session.taskAuthority.toList else []) ++
      (match context.executionSession.bind ExecutionSession.agentBindingId with
        | some bindingId =>
          if origin.kind = .session ∧ bindingId ≠ [] then [lit "agent:" ++ bindingId] else []
        | none => []) ++
      (match context.executionSession.bind ExecutionSession.missionSubject with
        | some subject => if origin.kind = .session then [subject] else []
        | none => [])

/-- Critical confirmation is a fact of the authenticated session, whatever the origin. -/
def authoritySubjects (input : AuthorityEvaluationInput) : List JsString :=
  subjectsForOrigin input.context ++
    if input.tier = some .critical then [lit "session:" ++ input.context.session.id] else []

def principalForRequirement (context : AuthorizationContext) (leaf : CapabilityRequirement) :
    Option JsString :=
  let origin := context.authorizingOrigin
  if leaf.principal = origin.kind then some origin.principal
  -- Declared code methods admit eval sessions by family mapping.
  else if leaf.principal = .code ∧ origin.kind = .session ∧ leaf.codeOnly = false then
    some origin.principal
  else if leaf.principal = .mission ∧ origin.kind = .session then
    context.executionSession.bind ExecutionSession.missionSubject
  else none

/-- `/^code:([^@]+)@[0-9a-f]{64}$/`, and the path it captures. -/
def codeRepoPath (code : JsString) : Option JsString :=
  (stripPrefix? (lit "code:") code).bind fun rest ↦
    match rest.span (· ≠ 64) with
    | (path, 64 :: digest) => if path ≠ [] ∧ isHexOfLength 64 digest then some path else none
    | _ => none

def builtinRelationship (context : AuthorizationContext) (name : RelationshipName)
    (value : Option JsString) : Bool :=
  match name with
  | .workspaceMember => context.workspace.any WorkspaceRelationship.member
  | .workspaceRole =>
    context.workspace.any fun workspace ↦
      workspace.member && decide (workspace.role.isSome ∧ workspace.role = value)
  | .entitySelf => context.entity.isSome && decide (value = none ∨ context.entity = value)
  | .entityOwner =>
    context.entity.isSome && context.actingUser.any (decide <| · ∈ context.ownerChain)
  | .agentBinding => context.entity.isSome && decide (context.agentBinding = context.entity)
  | .codeSource =>
    match context.executingCode, value with
    | some code, some value =>
      (codeRepoPath code.principal).any fun repoPath ↦
        if value.getLast? = some 47 then decide (value <+: repoPath) else decide (repoPath = value)
    | _, _ => false
  | .contextIntegrity | .closureInternal => false

mutual

def containsCapabilityRequirement : AuthorityRequirement → Bool
  | .capability _ => true
  | .relationship _ _ | .session _ _ => false
  | .all requirements | .any requirements => someContainsCapability requirements

def someContainsCapability : List AuthorityRequirement → Bool
  | [] => false
  | child :: rest => containsCapabilityRequirement child || someContainsCapability rest

end

mutual

def requirementMatchesOrigin (context : AuthorizationContext) : AuthorityRequirement → Bool
  | .capability leaf => (principalForRequirement context leaf).isSome
  | .relationship _ _ | .session _ _ => true
  | .all requirements =>
    !someContainsCapability requirements || someCapabilityMatches context requirements
  | .any requirements => someMatches context requirements

/-- `capabilities.some(…)`, over the children that contain a capability leaf. -/
def someCapabilityMatches (context : AuthorizationContext) : List AuthorityRequirement → Bool
  | [] => false
  | child :: rest =>
    (containsCapabilityRequirement child && requirementMatchesOrigin context child) ||
      someCapabilityMatches context rest

def someMatches (context : AuthorizationContext) : List AuthorityRequirement → Bool
  | [] => false
  | child :: rest => requirementMatchesOrigin context child || someMatches context rest

end

/-! ## Grants -/

/-- Whether a constraint that is there has the value of the call. -/
def constrained {α : Type} [DecidableEq α] (constraint actual : Option α) : Bool :=
  decide (constraint = none ∨ constraint = actual)

def grantConstraintsMatch (grant : AuthorityGrant) (context : AuthorizationContext)
    (invocationDigest providerExecutionDigest : Option JsString) : Bool :=
  let constraints := grant.constraints
  let binding :=
    if lit "installation:" <+: grant.subject then context.installation.map InstallationFact.binding
    else context.subjectBinding
  let ownBinding := binding.filter fun b ↦ decide (b.subject = grant.subject)
  let workspaceId := context.workspace.map WorkspaceRelationship.workspaceId
  (match constraints.bind AuthorityGrantConstraints.requestingCodePrincipal with
    | some code => decide (context.authorizingOrigin.kind = .code ∧
        context.authorizingOrigin.principal = code)
    | none => true) &&
  -- Mutable subjects need a generation, so that a stale one cannot regain authority.
  !(decide (lit "website:" <+: grant.subject ∨ lit "installation:" <+: grant.subject) &&
    (constraints.bind AuthorityGrantConstraints.subjectGeneration).isNone) &&
  constrained (constraints.bind AuthorityGrantConstraints.subjectGeneration)
    (ownBinding.map AuthoritySubjectBinding.generation) &&
  constrained (constraints.bind AuthorityGrantConstraints.documentId)
    (ownBinding.bind AuthoritySubjectBinding.documentId) &&
  -- Cross-workspace consent names the source explicitly.
  decide (context.sourceWorkspaceId.or workspaceId =
    (constraints.bind AuthorityGrantConstraints.sourceWorkspaceId).or workspaceId) &&
  constrained (constraints.bind AuthorityGrantConstraints.sessionId) (some context.session.id) &&
  constrained (constraints.bind AuthorityGrantConstraints.taskAuthority)
    context.session.taskAuthority &&
  constrained (constraints.bind AuthorityGrantConstraints.taskRef) context.session.taskRef &&
  constrained (constraints.bind AuthorityGrantConstraints.agentBindingId)
    (context.executionSession.bind ExecutionSession.agentBindingId) &&
  constrained (constraints.bind AuthorityGrantConstraints.invocationDigest) invocationDigest &&
  constrained (constraints.bind AuthorityGrantConstraints.providerExecutionDigest)
    providerExecutionDigest &&
  constrained (constraints.bind AuthorityGrantConstraints.missionSubject)
    (context.executionSession.bind ExecutionSession.missionSubject)

section Evaluation

variable (url : JsString → Option Url) (input : AuthorityEvaluationInput)

/-- Everything `matchingAuthorityGrants` asks of a grant other than its resource. -/
def grantApplies (capability : JsString) (grant : AuthorityGrant) : Bool :=
  decide (grant.subject ∈ authoritySubjects input) &&
  capabilityPatternCovers grant.capability capability &&
  grant.revokedAt.all (decide <| · > input.now) &&
  grant.expiresAt.all (decide <| · > input.now) &&
  grantConstraintsMatch grant input.context input.invocationDigest input.providerExecutionDigest

/-- The resource test of `matchingAuthorityGrants`: a grant has to cover the whole set, and a
denial inside the set counts as well. -/
def grantResourceMatches (grant : AuthorityGrant) : Bool :=
  match input.resource with
  | some resource =>
    resourceScopeContains url grant.resource resource ||
      (decide (grant.effect = .deny) && resourceScopeContains url resource grant.resource)
  | none => scopeCovers url grant.resource input.resourceKey

def matchingAuthorityGrants (capability : JsString) : List AuthorityGrant :=
  input.grants.filter fun grant ↦
    grantApplies input capability grant && grantResourceMatches url input grant

/-- The invocation a grant is bound to. -/
def AuthorityGrant.invocationDigest (grant : AuthorityGrant) : Option JsString :=
  grant.constraints.bind AuthorityGrantConstraints.invocationDigest

/-- `unconsumedCandidates`: an invocation-bound grant is used once, at every tier. -/
def unconsumed (grant : AuthorityGrant) : Bool :=
  decide (grant.effect = .deny ∨ grant.invocationDigest = none ∨ grant.consumedAt = none)

/-- `tierCandidates`: a critical exercise sees only the confirmation of this invocation. -/
def admittedByTier (grant : AuthorityGrant) : Bool :=
  if input.tier = some .critical then
    decide (grant.provenance = lit "critical-confirmation" ∧
      grant.invocationDigest = input.invocationDigest)
  else true

/-- The allow grant a leaf selects. -/
def selectedGrant (capability : JsString) : Option AuthorityGrant :=
  (((matchingAuthorityGrants url input capability).filter unconsumed).filter
    (admittedByTier input)).find? (decide <| ·.effect = .allow)

/-! ## Leaves -/

/-- Whether the manifest of installed code asks for the capability on the whole resource. -/
def requestedByManifest (principal capability : JsString) : Bool :=
  input.context.executingCode.any fun manifest ↦
    decide (manifest.principal = principal) &&
      manifest.requested.any fun scope ↦
        capabilityPatternCovers scope.capability capability &&
          resourceScopeContains url scope.resource
            (input.resource.getD (.exact input.resourceKey))

def manifestDetail (principal : JsString) : JsString :=
  match input.context.executingCode with
  | none => lit "no sealed code manifest was attached"
  | some manifest =>
    if manifest.principal ≠ principal then
      lit "the attached manifest belongs to " ++ manifest.principal
    else
      let same := ((manifest.requested.filter fun scope ↦
        scopeCovers url scope.resource input.resourceKey).map CapabilityScope.capability).take 3
      if same ≠ [] then lit "same-resource declarations: " ++ joinText (lit ", ") same
      else lit "no declaration covers the resource"

/-- A capability leaf whose principal has been authenticated, at a tier that is not open. -/
def evaluateGrants (leaf : CapabilityRequirement) (principal : JsString) : AuthorizationDecision :=
  let requirement := AuthorityRequirement.capability leaf
  if input.context.authorizingOrigin.kind = .code ∧
      requestedByManifest url input principal leaf.capability = false then
    { AuthorizationDecision.plain false .fixedCodeNotRequested
        (principal ++ lit " did not request " ++ leaf.capability ++ lit " for " ++
          input.resourceKey ++ lit " (" ++ manifestDetail url input principal ++ lit ")")
        requirement with
      principal := some principal }
  else
    match (matchingAuthorityGrants url input leaf.capability).find? (decide <| ·.effect = .deny) with
    | some denied =>
      { AuthorizationDecision.plain false .userDenied
          (principal ++ lit " is explicitly denied " ++ leaf.capability ++ lit " on " ++
            input.resourceKey) requirement with
        principal := some principal
        grantId := denied.id.filter (decide <| · ≠ [])
        standing := some (denied.constraints.bind AuthorityGrantConstraints.sessionId).isNone }
    | none =>
      match selectedGrant url input leaf.capability with
      | some allowed =>
        { AuthorizationDecision.plain true .allowed
            (principal ++ lit " is granted " ++ leaf.capability) requirement with
          principal := some principal
          grantId := allowed.id.filter (decide <| · ≠ [])
          consumable := truthy allowed.invocationDigest }
      | none =>
        { AuthorizationDecision.plain false .approvalRequired
            (principal ++ lit " lacks " ++ leaf.capability ++ lit " on " ++ input.resourceKey)
            requirement with
          principal := some principal }

/-- The capability leaf of `evaluate`. -/
def evaluateCapability (leaf : CapabilityRequirement) : AuthorizationDecision :=
  let requirement := AuthorityRequirement.capability leaf
  match (principalForRequirement input.context leaf).filter (decide <| · ≠ []) with
  | none =>
    .plain false .receiverRejected
      (lit "authenticated " ++ leaf.principal.text ++ lit " principal is required") requirement
  | some principal =>
    if isCanonicalPrincipal principal = false then
      .plain false .receiverRejected
        (lit "authenticated " ++ leaf.principal.text ++ lit " principal is malformed") requirement
    -- Open waives only the request and the grant.
    else if input.tier = some .open then
      { AuthorizationDecision.plain true .allowed
          (principal ++ lit " is admitted to open capability " ++ leaf.capability) requirement with
        principal := some principal }
    else
      match input.locks with
      | standingLock :: _ =>
        { AuthorizationDecision.plain false .userDenied
            (lit "The user locked " ++ leaf.capability ++ lit " for this agent") requirement with
          principal := some principal, grantId := some standingLock.id, standing := some true }
      | [] => evaluateGrants url input leaf principal

def evaluateSession (audience minVersion : Option JsString) : AuthorizationDecision :=
  let session := input.context.session
  let allowed :=
    decide (session.expiresAt > input.now) && constrained audience (some session.audience) &&
      minVersion.all fun version ↦
        -- NaN is not at least zero.
        (compareVersions session.version version).any (decide <| 0 ≤ ·)
  .plain allowed (if allowed then .allowed else .invalidSession)
    (if allowed then lit "session constraints satisfied" else lit "session constraint failed")
    (.session audience minVersion)

def evaluateRelationship (name : RelationshipName) (value : Option JsString) :
    AuthorizationDecision :=
  let allowed :=
    match input.relation with
    | some relation => relation name value
    | none => builtinRelationship input.context name value
  .plain allowed (if allowed then .allowed else .receiverRejected)
    (lit "relationship " ++ name.text ++
      (if allowed then lit " satisfied" else lit " not satisfied"))
    (.relationship name value)

/-! ## Trees -/

def mergeFailure : JsString :=
  lit "One compound authority leaf cannot merge multiple single-use confirmations"

/-- The decision of an `all` node whose children are all allowed. -/
def allAllowed (requirements : List AuthorityRequirement)
    (consumable : Option AuthorizationDecision) : AuthorizationDecision :=
  { AuthorizationDecision.plain true .allowed (lit "all requirements satisfied")
      (.all requirements) with
    principal := consumable.bind AuthorizationDecision.principal
    grantId := consumable.bind AuthorizationDecision.grantId
    consumable := consumable.isSome }

/-- The decision of an `any` node from those of its branches that admit the origin. -/
def anyDecision (requirements : List AuthorityRequirement)
    (decisions : List AuthorizationDecision) : AuthorizationDecision :=
  let requirement := AuthorityRequirement.any requirements
  if decisions = [] then
    .plain false .receiverRejected
      (lit "no authority branch admits the " ++ input.context.authorizingOrigin.kind.text ++
        lit " origin") requirement
  else
    match decisions.find? AuthorizationDecision.allowed with
    | some allowed => { allowed with requirement }
    | none =>
      let some? (code : DecisionCode) := decisions.any (decide <| ·.code = code)
      .plain false
        (if some? .userDenied then .userDenied
          else if some? .fixedCodeNotRequested then .fixedCodeNotRequested
          else if some? .invalidSession then .invalidSession
          else if some? .receiverRejected then .receiverRejected
          else .approvalRequired)
        (joinText (lit "; ") (decisions.map AuthorizationDecision.reason)) requirement

mutual

/-- The closure `evaluate`. -/
def evaluate : AuthorityRequirement → Except JsString AuthorizationDecision
  | .all requirements =>
    match evaluateAll none requirements with
    | .error message => .error message
    | .ok (.inl refused) => .ok { refused with requirement := .all requirements }
    | .ok (.inr consumable) => .ok (allAllowed requirements consumable)
  | .any requirements =>
    match evaluateMatching requirements with
    | .error message => .error message
    | .ok decisions => .ok (anyDecision input requirements decisions)
  | .session audience minVersion => .ok (evaluateSession input audience minVersion)
  | .relationship name value => .ok (evaluateRelationship input name value)
  | .capability leaf => .ok (evaluateCapability url input leaf)

/-- The loop of an `all` node: the first refusal, or the single-use confirmation its children
selected. -/
def evaluateAll (consumable : Option AuthorizationDecision) : List AuthorityRequirement →
    Except JsString (AuthorizationDecision ⊕ Option AuthorizationDecision)
  | [] => .ok (.inr consumable)
  | child :: rest =>
    match evaluate child with
    | .error message => .error message
    | .ok decision =>
      if decision.allowed = false then .ok (.inl decision)
      else if decision.consumable = false then evaluateAll consumable rest
      else if consumable.any (decide <| ·.grantId ≠ decision.grantId) then .error mergeFailure
      else evaluateAll (some decision) rest

/-- `matching.map(evaluate)`: every branch that admits the origin is evaluated. -/
def evaluateMatching : List AuthorityRequirement → Except JsString (List AuthorizationDecision)
  | [] => .ok []
  | child :: rest =>
    if requirementMatchesOrigin input.context child then
      match evaluate child with
      | .error message => .error message
      | .ok decision =>
        match evaluateMatching rest with
        | .error message => .error message
        | .ok decisions => .ok (decision :: decisions)
    else evaluateMatching rest

end

/-! ## Websites -/

/-- `url.protocol` is a web protocol and the URL is its own origin. -/
def canonicalOrigin (website : Option WebsiteIdentity) : Bool :=
  (url ((website.map WebsiteIdentity.origin).getD [])).any fun u ↦
    decide ((u.protocol = lit "https:" ∨ u.protocol = lit "http:") ∧
      website.map WebsiteIdentity.origin = some u.origin)

/-- Whether the website evidence of the call is bound as it has to be. -/
def websiteBound (context : AuthorizationContext) (website : WebsiteIdentity) : Bool :=
  let binding := website.binding
  let workspaceId := context.workspace.map WorkspaceRelationship.workspaceId
  decide (context.authorizingOrigin.kind = .website) && canonicalOrigin url (some website) &&
  decide (website.subject = binding.subject ∧ 0 ≤ binding.generation ∧
    binding.generation ≤ 2 ^ 53 - 1) &&
  (if context.executionAuthority.isSome then
      binding.documentId.isNone &&
        (context.executionSession.isSome || truthy context.session.taskAuthority)
    else truthy binding.documentId) &&
  (context.subjectBinding.any fun effect ↦
    decide (effect.subject = binding.subject ∧ effect.generation = binding.generation ∧
      effect.documentId = binding.documentId)) &&
  decide (context.actingUser = some website.userId ∧
    context.sourceWorkspaceId.or workspaceId = some website.workspaceId ∧
    website.subject = context.authorizingOrigin.principal)

/-- The refusals of `evaluateAuthority` that look at no grant and no requirement. -/
def websiteRefusal : Option AuthorizationDecision :=
  let context := input.context
  let website := (context.website.map WebsiteAuthorityFact.toWebsiteIdentity).or
    context.executionAuthority
  if context.authorizingOrigin.kind = .website ∨ website.isSome then
    if website.any (websiteBound url context) = false then
      some (.plain false .invalidAttestation (lit "Website identity binding is invalid")
        input.requirement)
    else if (context.executionAuthority.isNone ∧
        context.website.any WebsiteAuthorityFact.connected = false) ∨
        context.session.expiresAt ≤ input.now then
      some (.plain false .connectionRequired
        (lit "Connect this page to the workspace before requesting workspace access")
        input.requirement)
    else none
  else none

def evaluateAuthority : Except JsString AuthorizationDecision :=
  if input.resourceKey = [] ∨ input.resourceKey ≠ trim input.resourceKey then
    .error (lit "Authority resource key must be a non-empty canonical string")
  else
    match websiteRefusal url input with
    | some refused => .ok refused
    | none => evaluate url input input.requirement

end Evaluation

end Vibestudio.Shared

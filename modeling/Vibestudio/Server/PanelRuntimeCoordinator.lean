import Mathlib
import Vibestudio.Server.PanelAttempts

/-!
# The panel runtime coordinator

The leases of `src/server/panelRuntimeCoordinator.ts`: which host runs which panel entity in which slot, and until
when. An operation takes the time and may throw, in which case it keeps what it has done until then. A listener does
not call back. What is emitted and which connections are closed is part of the state.

The observation of pages is left out: `reportView` only notes that there is a view, and takes the report of a phase
that it derives from the page as an argument.
-/

namespace Vibestudio.Server

open Js Shared

/-- A runtime of a program that a server-side host runs, without a slot. -/
structure HostHeldEntityLease where
  runtimeEntityId : PanelEntityId
  connectionId : JsString
  authorizedBy : JsString
  holderLabel : JsString
  deriving DecidableEq

structure PanelHostRegistration where
  clientSessionId : JsString
  hostConnectionId : Option JsString
  ownerCallerId : Option JsString
  label : JsString
  platform : ClientPlatform
  supportsCdp : Option Bool
  loadOnLeaseAssignment : Option Bool

/-- A registration with its defaults. -/
structure ClientSession where
  clientSessionId : JsString
  hostConnectionId : JsString
  ownerCallerId : Option JsString
  label : JsString
  platform : ClientPlatform
  supportsCdp : Bool
  loadOnLeaseAssignment : Bool
  deriving DecidableEq

/-- The timer of a lease. It is armed until it has fired. -/
structure Expiry where
  connectionId : JsString
  armed : Bool
  deriving DecidableEq

structure DefaultCdpHostOptions where
  isHostAvailable : Option (JsString → Bool)
  replaceUnavailableLease : Bool
  requiredPlatform : Option ClientPlatform
  excludedHostConnectionId : Option JsString

structure PanelRuntimeLeaseRequest where
  slotId : JsString
  clientSessionId : JsString
  connectionId : JsString
  hostConnectionId : Option JsString

structure PanelRuntimeAcquireResult where
  acquired : Bool
  lease : PanelRuntimeLease
  version : RuntimeLeaseVersion

inductive CdpHostReason where
  | alreadyHeld
  | mobileHeld
  | noDefaultCdpHost
  deriving DecidableEq

inductive CdpHostAssignment where
  | assigned (lease : PanelRuntimeLease)
  | notAssigned (reason : CdpHostReason) (lease : Option PanelRuntimeLease)

inductive HostSelection where
  | samePlatform
  | preferDefault
  deriving DecidableEq

def LEASE_RECONNECT_GRACE_MS : ℕ := 3000

structure PanelRuntimeCoordinator where
  counter : ℕ
  leases : JsMap PanelEntityId PanelRuntimeLease
  hostHeldEntityLeases : JsMap PanelEntityId HostHeldEntityLease
  clients : JsMap JsString ClientSession
  expiryTimers : JsMap PanelEntityId Expiry
  defaultCdpLeaseConnections : List JsString
  keptLoadedSlots : List PanelSlotId
  /-- What has been emitted. -/
  events : List PanelRuntimeLeaseChangedEvent
  routes : PanelAttempts
  deriving DecidableEq

namespace PanelRuntimeCoordinator

def init : PanelRuntimeCoordinator := ⟨0, [], [], [], [], [], [], [], .init⟩

/-- The state that is left, and what is returned or thrown. -/
abbrev Outcome (α : Type) := PanelRuntimeCoordinator × Except JsString α

def withPanelSlotId {α : Type} (s : PanelRuntimeCoordinator) (slotId : JsString) (k : PanelSlotId → Outcome α) :
    Outcome α :=
  match asPanelSlotId slotId with
  | .ok slotId => k slotId
  | .error e => (s, .error e)

def withPanelEntityId {α : Type} (s : PanelRuntimeCoordinator) (entityId : JsString)
    (k : PanelEntityId → Outcome α) : Outcome α :=
  match asPanelEntityId entityId with
  | .ok entityId => k entityId
  | .error e => (s, .error e)

/-! ## Lookups -/

def leaseForSlot (s : PanelRuntimeCoordinator) (slotId : PanelSlotId) : Option PanelRuntimeLease :=
  (s.leases.map Prod.snd).find? fun lease ↦ decide (lease.slotId = slotId)

def clientForHostConnection (s : PanelRuntimeCoordinator) (hostConnectionId : JsString) : Option ClientSession :=
  (s.clients.map Prod.snd).find? fun client ↦ decide (client.hostConnectionId = hostConnectionId)

def getSnapshot (epoch : JsString) (s : PanelRuntimeCoordinator) : RuntimeLeaseSnapshot :=
  ⟨⟨epoch, s.counter⟩, s.leases.map Prod.snd⟩

def hostRank (preferredPlatform : Option ClientPlatform) (client : ClientSession) : ℕ :=
  if client.platform = preferredPlatform.getD .headless then 0 else 1

/-- The comparison of `getDefaultCdpHostClient` does not put the second host first. -/
def hostsInOrder (preferredPlatform : Option ClientPlatform) (a b : ClientSession) : Prop :=
  hostRank preferredPlatform a < hostRank preferredPlatform b ∨
    hostRank preferredPlatform a = hostRank preferredPlatform b ∧ hostRank none a ≤ hostRank none b

instance (preferredPlatform : Option ClientPlatform) : DecidableRel (hostsInOrder preferredPlatform) :=
  fun _ _ ↦ inferInstanceAs (Decidable (_ ∨ _))

def isDefaultCdpHost (options : DefaultCdpHostOptions) (client : ClientSession) : Bool :=
  options.requiredPlatform.all (fun platform ↦ decide (client.platform = platform)) &&
    decide (some client.hostConnectionId ≠ options.excludedHostConnectionId) && client.supportsCdp &&
    client.loadOnLeaseAssignment && options.isHostAvailable.all fun available ↦ available client.hostConnectionId

def getDefaultCdpHostClient (s : PanelRuntimeCoordinator) (options : DefaultCdpHostOptions)
    (preferredPlatform : Option ClientPlatform) : Option ClientSession :=
  ((s.clients.map Prod.snd).insertionSort (hostsInOrder preferredPlatform)).find? (isDefaultCdpHost options)

/-! ## Steps that the operations share -/

def clearExpiry (s : PanelRuntimeCoordinator) (entityId : PanelEntityId) : PanelRuntimeCoordinator :=
  { s with expiryTimers := s.expiryTimers.delete entityId }

variable (epoch : JsString) (ids : RandomUuid)

def emitChange (s : PanelRuntimeCoordinator) (runtimeEntityId : PanelEntityId) (slotId : PanelSlotId)
    (previous next : Option PanelRuntimeLease) (reason : PanelRuntimeLeaseChangedReason) :
    PanelRuntimeCoordinator :=
  { s with
    counter := s.counter + 1
    events := s.events ++ [⟨⟨epoch, s.counter + 1⟩, slotId, runtimeEntityId, previous, next, reason⟩] }

/-- The lease and its timer are deleted and its attempt is stopped. A lease stands under its own entity
(`Basic.keyed`), which is the key that the source passes. Only `replaceRuntimeEntityForSlot` says nothing of it at
once. -/
def removeLease (s : PanelRuntimeCoordinator) (lease : PanelRuntimeLease) (stop : StopReason) (close : Bool) :
    PanelRuntimeCoordinator :=
  { s.clearExpiry lease.runtimeEntityId with
    leases := s.leases.delete lease.runtimeEntityId
    defaultCdpLeaseConnections := s.defaultCdpLeaseConnections.filter fun id ↦ decide (id ≠ lease.connectionId)
    routes := s.routes.stopRouteAttempt lease stop close }

def dropLease (s : PanelRuntimeCoordinator) (lease : PanelRuntimeLease) (stop : StopReason) (close : Bool)
    (reason : PanelRuntimeLeaseChangedReason) : PanelRuntimeCoordinator :=
  (s.removeLease lease stop close).emitChange epoch lease.runtimeEntityId lease.slotId lease none reason

def wasDefaultCdpLease (s : PanelRuntimeCoordinator) (lease : PanelRuntimeLease) : Bool :=
  decide (lease.connectionId ∈ s.defaultCdpLeaseConnections)

def shouldReassignDefaultCdpLease (lease : PanelRuntimeLease) (wasDefaultCdpLease : Bool) : Bool :=
  wasDefaultCdpLease && decide (lease.platform ≠ .headless)

/-- The lease that `writeLease` makes of a request. -/
def leaseOf (s : PanelRuntimeCoordinator) (now : ℕ) (entityId : PanelEntityId) (client : ClientSession)
    (slotId : PanelSlotId) (input : PanelRuntimeLeaseRequest) : PanelRuntimeLease where
  slotId
  runtimeEntityId := entityId
  clientSessionId := input.clientSessionId
  hostConnectionId := input.hostConnectionId.getD client.hostConnectionId
  connectionId := input.connectionId
  holderLabel := client.label
  platform := client.platform
  supportsCdp := client.supportsCdp
  loadOnLeaseAssignment := client.loadOnLeaseAssignment
  keepLoaded := some (decide (slotId ∈ s.keptLoadedSlots))
  acquiredAt := now
  expiresAt := none

/-- The route of the lease that is replaced, unless it is continued. -/
def detachPrevious (r : PanelAttempts) (previous : Option PanelRuntimeLease) (connectionId : JsString) :
    PanelAttempts :=
  match previous.filter fun lease ↦ decide (lease.connectionId ≠ connectionId) with
  | none => r
  | some lease => r.detachRoute lease.connectionId

/-- `defaultCdpLeaseConnections`, after a lease replaces another. -/
def cdpConnections (connections : List JsString) (previous : Option PanelRuntimeLease) (connectionId : JsString)
    (defaultCdpLease : Bool) : List JsString :=
  let kept := connections.filter fun id ↦ decide (some id ≠ previous.map PanelRuntimeLease.connectionId)
  if defaultCdpLease then connectionId :: kept else kept

/-- `writeLease`, of a lease that can be written. -/
def putLease (s : PanelRuntimeCoordinator) (lease : PanelRuntimeLease) (reason : PanelRuntimeLeaseChangedReason)
    (defaultCdpLease : Bool) : PanelRuntimeCoordinator :=
  let previous := s.leases.get lease.runtimeEntityId
  { s.clearExpiry lease.runtimeEntityId with
    leases := s.leases.set lease.runtimeEntityId lease
    defaultCdpLeaseConnections :=
      cdpConnections s.defaultCdpLeaseConnections previous lease.connectionId defaultCdpLease
    routes := (detachPrevious s.routes previous lease.connectionId).attach ids lease previous
    : PanelRuntimeCoordinator }.emitChange epoch lease.runtimeEntityId lease.slotId previous lease reason

def unknownSession (clientSessionId : JsString) : JsString :=
  lit "Unknown runtime client session: " ++ clientSessionId

def writeLease (s : PanelRuntimeCoordinator) (now : ℕ) (runtimeEntityId : PanelEntityId)
    (input : PanelRuntimeLeaseRequest) (reason : PanelRuntimeLeaseChangedReason) (defaultCdpLease : Bool) :
    Outcome (PanelRuntimeLease × RuntimeLeaseVersion) :=
  match s.clients.get input.clientSessionId with
  | none => (s, .error (unknownSession input.clientSessionId))
  | some client => s.withPanelSlotId input.slotId fun slotId ↦
    let lease := s.leaseOf now runtimeEntityId client slotId input
    (s.putLease epoch ids lease reason defaultCdpLease, .ok (lease, ⟨epoch, s.counter + 1⟩))

/-- The lease of what `writeLease` returns. -/
def written (r : Outcome (PanelRuntimeLease × RuntimeLeaseVersion)) : Outcome PanelRuntimeLease :=
  (r.1, r.2.map Prod.fst)

/-- A random id has been drawn. -/
def drawUuid (s : PanelRuntimeCoordinator) : PanelRuntimeCoordinator :=
  { s with routes := { s.routes with drawn := s.routes.drawn + 1 } }

/-- A lease for a host that the coordinator has chosen, on a connection of a new name. -/
def assignHost (s : PanelRuntimeCoordinator) (now : ℕ) (entityId : PanelEntityId) (slotId : PanelSlotId)
    (clientSessionId hostConnectionId connectionPrefix : JsString) (defaultCdpLease : Bool) :
    Outcome PanelRuntimeLease :=
  written (s.drawUuid.writeLease epoch ids now entityId
    ⟨slotId, clientSessionId, connectionPrefix ++ ids.uuid s.routes.drawn, hostConnectionId⟩ .acquired
    defaultCdpLease)

/-- The prefix in <code>default-cdp-${slotId}-${randomUUID()}</code>. -/
def cdpConnectionPrefix (kind : JsString) (slotId : PanelSlotId) : JsString :=
  kind ++ lit "-cdp-" ++ slotId ++ lit "-"

def assignDefaultCdpHost (s : PanelRuntimeCoordinator) (now : ℕ) (entityId : PanelEntityId) (slotId : PanelSlotId)
    (excludedHostConnectionId : JsString) : Outcome (Option PanelRuntimeLease) :=
  match s.getDefaultCdpHostClient ⟨none, false, none, excludedHostConnectionId⟩ none with
  | none => (s, .ok none)
  | some client =>
    let r := s.assignHost epoch ids now entityId slotId client.clientSessionId client.hostConnectionId
      (cdpConnectionPrefix (lit "default") slotId) true
    (r.1, r.2.map some)

/-- The host that takes over in `replaceCdpLease`. -/
def replacementHost (s : PanelRuntimeCoordinator) (existing : PanelRuntimeLease) (options : DefaultCdpHostOptions)
    (hostSelection : HostSelection) : Option ClientSession :=
  (s.getDefaultCdpHostClient options (if hostSelection = .preferDefault ∧ s.wasDefaultCdpLease existing then none
    else some existing.platform)).filter fun client ↦
      s.wasDefaultCdpLease existing || decide (client.platform = existing.platform)

def replaceCdpLease (s : PanelRuntimeCoordinator) (now : ℕ) (runtimeEntityId : PanelEntityId)
    (existing : PanelRuntimeLease) (options : DefaultCdpHostOptions) (hostSelection : HostSelection) :
    Outcome CdpHostAssignment :=
  match s.replacementHost existing options hostSelection with
  | none => (s, .ok (.notAssigned .noDefaultCdpHost existing))
  | some client =>
    let r := (s.dropLease epoch existing .superseded true .revoked).assignHost epoch ids now runtimeEntityId
      existing.slotId client.clientSessionId client.hostConnectionId
      (cdpConnectionPrefix (lit "default") existing.slotId) (s.wasDefaultCdpLease existing)
    (r.1, r.2.map .assigned)

/-! ## The operations -/

def registerClient (s : PanelRuntimeCoordinator) (input : PanelHostRegistration) : PanelRuntimeCoordinator :=
  let existing := s.clients.get input.clientSessionId
  let client : ClientSession :=
    { clientSessionId := input.clientSessionId
      hostConnectionId := (input.hostConnectionId <|> existing.map ClientSession.hostConnectionId).getD
        input.clientSessionId
      ownerCallerId := input.ownerCallerId <|> existing.bind ClientSession.ownerCallerId
      label := input.label
      platform := input.platform
      supportsCdp := input.supportsCdp.getD (decide (input.platform ≠ .mobile))
      loadOnLeaseAssignment := input.loadOnLeaseAssignment.getD false }
  { s with clients := s.clients.set input.clientSessionId client }

/-- A lease of a session that is retired. -/
def releaseRetired (retired : List JsString)
    (r : PanelRuntimeCoordinator × List (PanelRuntimeLease × Bool)) (lease : PanelRuntimeLease) :
    PanelRuntimeCoordinator × List (PanelRuntimeLease × Bool) :=
  if lease.clientSessionId ∈ retired then
    (r.1.dropLease epoch lease .hostLost true .released, r.2 ++ [(lease, r.1.wasDefaultCdpLease lease)])
  else r

def reassignReleased (now : ℕ) (r : Outcome Unit) (released : PanelRuntimeLease × Bool) : Outcome Unit :=
  match r.2 with
  | .error e => (r.1, .error e)
  | .ok () =>
    if shouldReassignDefaultCdpLease released.1 released.2 then
      let r' := r.1.assignDefaultCdpHost epoch ids now released.1.runtimeEntityId released.1.slotId
        released.1.hostConnectionId
      (r'.1, r'.2.map fun _ ↦ ())
    else r

def unregisterClients (s : PanelRuntimeCoordinator) (now : ℕ) (clientSessionIds : List JsString) : Outcome Unit :=
  let admitted := { s with clients := clientSessionIds.foldl JsMap.delete s.clients }
  let r := (s.leases.map Prod.snd).foldl (releaseRetired epoch clientSessionIds) (admitted, [])
  r.2.foldl (reassignReleased epoch ids now) (r.1, .ok ())

def unregisterClient (s : PanelRuntimeCoordinator) (now : ℕ) (clientSessionId : JsString) : Outcome Unit :=
  s.unregisterClients epoch ids now [clientSessionId]

def unregisterClientsForCaller (s : PanelRuntimeCoordinator) (now : ℕ) (ownerCallerId : JsString) : Outcome Unit :=
  s.unregisterClients epoch ids now (((s.clients.map Prod.snd).filter fun client ↦
    decide (client.ownerCallerId = some ownerCallerId)).map ClientSession.clientSessionId)

/-- `writeLease` on behalf of a host. -/
def grant (s : PanelRuntimeCoordinator) (now : ℕ) (entityId : PanelEntityId) (input : PanelRuntimeLeaseRequest) :
    Outcome PanelRuntimeAcquireResult :=
  let r := s.writeLease epoch ids now entityId input .acquired false
  (r.1, r.2.map fun w ↦ ⟨true, w.1, w.2⟩)

def acquire (s : PanelRuntimeCoordinator) (now : ℕ) (runtimeEntityId : JsString)
    (input : PanelRuntimeLeaseRequest) : Outcome PanelRuntimeAcquireResult :=
  s.withPanelEntityId runtimeEntityId fun entityId ↦
    match s.leases.get entityId with
    | none => s.grant epoch ids now entityId input
    | some existing =>
      if existing.clientSessionId ≠ input.clientSessionId then (s, .ok ⟨false, existing, ⟨epoch, s.counter⟩⟩)
      else s.withPanelSlotId input.slotId fun slotId ↦
        if existing.expiresAt = none ∧ s.routes.healthy slotId entityId then
          (s, .ok ⟨true, existing, ⟨epoch, s.counter⟩⟩)
        else s.grant epoch ids now entityId input

/-- A route that another connection takes over. The lease stays until it is replaced. -/
def revoke (s : PanelRuntimeCoordinator) (existing : PanelRuntimeLease) : PanelRuntimeCoordinator :=
  ({ s with routes := s.routes.stopRouteAttempt existing .superseded true } : PanelRuntimeCoordinator).emitChange
    epoch existing.runtimeEntityId existing.slotId existing none .revoked

def takeOver (s : PanelRuntimeCoordinator) (now : ℕ) (runtimeEntityId : JsString)
    (input : PanelRuntimeLeaseRequest) : Outcome PanelRuntimeAcquireResult :=
  s.withPanelEntityId runtimeEntityId fun entityId ↦
    match (s.leases.get entityId).filter fun lease ↦ decide (lease.connectionId ≠ input.connectionId) with
    | none => s.grant epoch ids now entityId input
    | some existing => (s.revoke epoch existing).grant epoch ids now entityId input

def release (s : PanelRuntimeCoordinator) (now : ℕ) (runtimeEntityId connectionId : JsString)
    (reason : PanelRuntimeLeaseChangedReason) : Outcome Unit :=
  s.withPanelEntityId runtimeEntityId fun entityId ↦
    match (s.leases.get entityId).filter fun lease ↦ decide (lease.connectionId = connectionId) with
    | none => (s, .ok ())
    | some existing =>
      if existing.slotId ∈ s.keptLoadedSlots then (s.clearExpiry entityId, .ok ())
      else
        let dropped := s.dropLease epoch existing (if reason = .expired then .hostLost else .unloaded) false reason
        if (reason = .released ∨ reason = .expired) ∧
            shouldReassignDefaultCdpLease existing (s.wasDefaultCdpLease existing) then
          let r := dropped.assignDefaultCdpHost epoch ids now entityId existing.slotId existing.hostConnectionId
          (r.1, r.2.map fun _ ↦ ())
        else (dropped, .ok ())

def unloadSlot (s : PanelRuntimeCoordinator) (slotId : JsString) : Outcome (Option PanelRuntimeLease) :=
  s.withPanelSlotId slotId fun slotId ↦
    if slotId ∈ s.keptLoadedSlots then (s, .ok none)
    else
      match s.leaseForSlot slotId with
      | some lease => (s.dropLease epoch lease .unloaded true .released, .ok lease)
      | none =>
        match s.routes.currentAttempt slotId with
        | none => (s, .ok none)
        | some attempt =>
          ({ s with routes := (s.routes.stopAttempt attempt.attemptId .unloaded).1 }, .ok none)

def adoptHostLeaseForSlot (s : PanelRuntimeCoordinator) (now : ℕ) (slotId runtimeEntityId hostConnectionId : JsString) :
    Outcome (Option PanelRuntimeLease) :=
  s.withPanelSlotId slotId fun slotId ↦ s.withPanelEntityId runtimeEntityId fun entityId ↦
    match s.leases.get entityId <|> s.leaseForSlot slotId with
    | some existing =>
      (s, .ok (if existing.hostConnectionId = hostConnectionId ∧ existing.supportsCdp then some existing else none))
    | none =>
      match (s.clientForHostConnection hostConnectionId).filter ClientSession.supportsCdp with
      | none => (s, .ok none)
      | some client =>
        let r := s.assignHost epoch ids now entityId slotId client.clientSessionId hostConnectionId
          (cdpConnectionPrefix (lit "adopted") slotId) false
        (r.1, r.2.map some)

/-- What remains of `replaceRuntimeEntityForSlot` when the lease before it has been removed. -/
def transferLease (s : PanelRuntimeCoordinator) (now : ℕ) (slotId : PanelSlotId) (previous : PanelRuntimeLease)
    (nextEntityId : PanelEntityId) (wasDefaultCdpLease : Bool) : Outcome (Option PanelRuntimeLease) :=
  match s.leases.get nextEntityId with
  | some existingNext =>
    (s.emitChange epoch nextEntityId slotId previous existingNext .acquired, .ok existingNext)
  | none =>
    if previous.loadOnLeaseAssignment then
      let r := s.assignHost epoch ids now nextEntityId slotId previous.clientSessionId previous.hostConnectionId []
        wasDefaultCdpLease
      (r.1, r.2.map some)
    else
      (({ s with routes := (s.routes.commitAttempt ids slotId ⟨nextEntityId, none, none⟩).1 } :
        PanelRuntimeCoordinator).emitChange epoch nextEntityId slotId previous none .released, .ok none)

def replaceRuntimeEntityForSlot (s : PanelRuntimeCoordinator) (now : ℕ)
    (slotId previousRuntimeEntityId nextRuntimeEntityId : JsString) : Outcome (Option PanelRuntimeLease) :=
  s.withPanelSlotId slotId fun slotId ↦ s.withPanelEntityId previousRuntimeEntityId fun previousEntityId ↦
    s.withPanelEntityId nextRuntimeEntityId fun nextEntityId ↦
      if previousEntityId = nextEntityId then (s, .ok (s.leases.get previousEntityId))
      else
        match (s.leases.get previousEntityId).filter fun lease ↦ decide (lease.slotId = slotId) with
        | none => (s, .ok (s.leases.get nextEntityId))
        | some previous =>
          (s.removeLease previous .superseded true).transferLease epoch ids now slotId previous nextEntityId
            (s.wasDefaultCdpLease previous)

def advanceResidentSlotEntity (s : PanelRuntimeCoordinator) (now : ℕ) (slotId nextRuntimeEntityId : JsString) :
    Outcome (Option PanelRuntimeLease) :=
  s.withPanelSlotId slotId fun slotId ↦ s.withPanelEntityId nextRuntimeEntityId fun nextEntityId ↦
    match s.leaseForSlot slotId with
    | none => (s, .ok none)
    | some lease =>
      if lease.runtimeEntityId = nextEntityId then (s, .ok lease)
      else s.replaceRuntimeEntityForSlot epoch ids now slotId lease.runtimeEntityId nextEntityId

/-- What `ensureDefaultCdpHostForSlot` does about a lease of the entity. -/
inductive CdpDecision where
  | held (reason : CdpHostReason)
  | replace (hostSelection : HostSelection)
  | announce
  deriving DecidableEq

/-- The host of a lease is to be replaced when it is not available. -/
def replacesUnavailable (options : DefaultCdpHostOptions) (hostConnectionId : JsString) : Bool :=
  options.replaceUnavailableLease && options.isHostAvailable.any fun available ↦ !available hostConnectionId

def decideEntityLease (s : PanelRuntimeCoordinator) (slotId : PanelSlotId) (entityId : PanelEntityId)
    (existing : PanelRuntimeLease) (options : DefaultCdpHostOptions) : CdpDecision :=
  let attempt := s.routes.currentAttempt slotId
  if existing.supportsCdp = false then .held .mobileHeld
  else if attempt.any (fun a ↦ decide (a.runtimeEntityId = entityId ∧ a.phase = .failed)) ∧
      (s.wasDefaultCdpLease existing ∨ existing.platform = .headless) then .replace .preferDefault
  else if replacesUnavailable options existing.hostConnectionId then .replace .samePlatform
  else if existing.loadOnLeaseAssignment ∧ s.wasDefaultCdpLease existing ∧
      (attempt.elim [] PanelAttempt.attemptId) ∉ s.routes.routeViews then .announce
  else .held .alreadyHeld

/-- The entity has a lease. -/
def ensureHeldEntity (s : PanelRuntimeCoordinator) (now : ℕ) (slotId : PanelSlotId) (entityId : PanelEntityId)
    (existing : PanelRuntimeLease) (options : DefaultCdpHostOptions) : Outcome CdpHostAssignment :=
  match s.decideEntityLease slotId entityId existing options with
  | .held reason => (s, .ok (.notAssigned reason existing))
  | .replace hostSelection => s.replaceCdpLease epoch ids now entityId existing options hostSelection
  | .announce => (s.emitChange epoch entityId slotId existing existing .acquired, .ok (.assigned existing))

/-- The entity has no lease, but its slot has. -/
def ensureHeldSlot (s : PanelRuntimeCoordinator) (now : ℕ) (slotId : PanelSlotId) (entityId : PanelEntityId)
    (lease : PanelRuntimeLease) (options : DefaultCdpHostOptions) : Outcome CdpHostAssignment :=
  if lease.supportsCdp = false then (s, .ok (.notAssigned .mobileHeld lease))
  else if lease.runtimeEntityId ≠ entityId ∧ options.isHostAvailable.all fun available ↦
      available lease.hostConnectionId then
    let r := s.replaceRuntimeEntityForSlot epoch ids now slotId lease.runtimeEntityId entityId
    (r.1, r.2.map fun replacement ↦ .assigned (replacement.getD lease))
  else if replacesUnavailable options lease.hostConnectionId then
    s.replaceCdpLease epoch ids now entityId lease options .samePlatform
  else (s, .ok (.notAssigned .alreadyHeld lease))

def ensureDefaultCdpHostForSlot (s : PanelRuntimeCoordinator) (now : ℕ) (slotId runtimeEntityId : JsString)
    (options : DefaultCdpHostOptions) : Outcome CdpHostAssignment :=
  s.withPanelSlotId slotId fun slotId ↦ s.withPanelEntityId runtimeEntityId fun entityId ↦
    match s.leases.get entityId with
    | some existing => s.ensureHeldEntity epoch ids now slotId entityId existing options
    | none =>
      match s.leaseForSlot slotId with
      | some lease => s.ensureHeldSlot epoch ids now slotId entityId lease options
      | none =>
        match s.getDefaultCdpHostClient options none with
        | none => (s, .ok (.notAssigned .noDefaultCdpHost none))
        | some client =>
          let r := s.assignHost epoch ids now entityId slotId client.clientSessionId client.hostConnectionId
            (cdpConnectionPrefix (lit "default") slotId) true
          (r.1, r.2.map .assigned)

/-- The host-held lease of an entity that is retired. -/
def retireHostHeld (s : PanelRuntimeCoordinator) (entityId : PanelEntityId) : PanelRuntimeCoordinator :=
  match s.hostHeldEntityLeases.get entityId with
  | none => s
  | some hostHeld => { s with
      hostHeldEntityLeases := s.hostHeldEntityLeases.delete entityId
      routes := { s.routes with routeReachability := s.routes.routeReachability.delete hostHeld.connectionId } }

/-- A current attempt of an entity that is retired. -/
def retireAttempt (entityId : PanelEntityId) (r : PanelAttempts) (attemptId : JsString) : PanelAttempts :=
  match (r.attempts.get attemptId).filter fun attempt ↦ decide (attempt.runtimeEntityId = entityId) with
  | none => r
  | some _ => (r.stopAttempt attemptId .retired).1

def retireRuntimeEntity (s : PanelRuntimeCoordinator) (entityId : JsString) : PanelRuntimeCoordinator :=
  if isPanelEntityId entityId then
    let held := s.retireHostHeld entityId
    let dropped := (held.leases.get entityId).elim held fun existing ↦
      held.dropLease epoch existing .retired true .retired
    { dropped with routes :=
        (dropped.routes.currentAttemptBySlot.map Prod.snd).foldl (retireAttempt entityId) dropped.routes }
  else s

def restampLease (slotId : PanelSlotId) (keepLoaded : Bool) (s : PanelRuntimeCoordinator) (lease : PanelRuntimeLease) :
    PanelRuntimeCoordinator :=
  if lease.slotId ≠ slotId ∨ lease.kept = keepLoaded then s
  else
    let next := { lease with keepLoaded := some keepLoaded }
    ({ s with leases := s.leases.set lease.runtimeEntityId next } : PanelRuntimeCoordinator).emitChange epoch
      lease.runtimeEntityId slotId lease next .acquired

def restampSlotKeepLoaded (s : PanelRuntimeCoordinator) (slotId : PanelSlotId) (keepLoaded : Bool) :
    PanelRuntimeCoordinator :=
  (s.leases.map Prod.snd).foldl (restampLease epoch slotId keepLoaded) s

def pinSlotLoaded (s : PanelRuntimeCoordinator) (slotId : JsString) : Outcome Unit :=
  s.withPanelSlotId slotId fun slotId ↦
    if slotId ∈ s.keptLoadedSlots then (s, .ok ())
    else (({ s with keptLoadedSlots := s.keptLoadedSlots ++ [slotId] } :
      PanelRuntimeCoordinator).restampSlotKeepLoaded epoch slotId true, .ok ())

def unpinSlotLoaded (s : PanelRuntimeCoordinator) (slotId : JsString) : Outcome Unit :=
  s.withPanelSlotId slotId fun slotId ↦
    if slotId ∈ s.keptLoadedSlots then
      (({ s with keptLoadedSlots := s.keptLoadedSlots.filter fun id ↦ decide (id ≠ slotId) } :
        PanelRuntimeCoordinator).restampSlotKeepLoaded epoch slotId false, .ok ())
    else (s, .ok ())

def setReachable (s : PanelRuntimeCoordinator) (connectionId : JsString) (reachable : Bool) :
    PanelRuntimeCoordinator :=
  { s with routes :=
      { s.routes with routeReachability := s.routes.routeReachability.set connectionId reachable } }

/-- The lease of the entity on the connection. -/
def leaseOn (s : PanelRuntimeCoordinator) (entityId : PanelEntityId) (connectionId : JsString) :
    Option PanelRuntimeLease :=
  (s.leases.get entityId).filter fun lease ↦ decide (lease.connectionId = connectionId)

/-- The lease with another expiry. -/
def setExpiresAt (s : PanelRuntimeCoordinator) (lease : PanelRuntimeLease) (expiresAt : Option ℕ)
    (reason : PanelRuntimeLeaseChangedReason) : PanelRuntimeCoordinator :=
  ({ s with leases := s.leases.set lease.runtimeEntityId { lease with expiresAt := expiresAt } } :
    PanelRuntimeCoordinator).emitChange epoch lease.runtimeEntityId lease.slotId lease
      (some { lease with expiresAt := expiresAt }) reason

def markConnected (s : PanelRuntimeCoordinator) (runtimeEntityId connectionId : JsString) : Outcome Unit :=
  s.withPanelEntityId runtimeEntityId fun entityId ↦
    match s.hostHeldEntityLeases.get entityId with
    | some hostHeld =>
      (if hostHeld.connectionId = connectionId then s.setReachable connectionId true else s, .ok ())
    | none =>
      match s.leaseOn entityId connectionId with
      | none => (s, .ok ())
      | some lease =>
        let connected := (s.clearExpiry entityId).setReachable connectionId true
        (if lease.expiresAt = none then connected else connected.setExpiresAt epoch lease none .acquired, .ok ())

def markDisconnected (s : PanelRuntimeCoordinator) (now : ℕ) (runtimeEntityId connectionId : JsString) :
    Outcome Unit :=
  s.withPanelEntityId runtimeEntityId fun entityId ↦
    match s.hostHeldEntityLeases.get entityId with
    | some hostHeld =>
      (if hostHeld.connectionId = connectionId then s.setReachable connectionId false else s, .ok ())
    | none =>
      match s.leaseOn entityId connectionId with
      | none => (s, .ok ())
      | some lease =>
        let expiring := ((s.clearExpiry entityId).setReachable connectionId false).setExpiresAt epoch lease
          (some (now + LEASE_RECONNECT_GRACE_MS)) .released
        ({ expiring with expiryTimers := expiring.expiryTimers.set entityId ⟨connectionId, true⟩ }, .ok ())

/-- The timer of the entity fires. There is nothing to fire when it is not armed. -/
def expire (s : PanelRuntimeCoordinator) (now : ℕ) (entityId : PanelEntityId) : Option (Outcome Unit) :=
  ((s.expiryTimers.get entityId).filter Expiry.armed).map fun expiry ↦
    ({ s with expiryTimers := s.expiryTimers.set entityId { expiry with armed := false } } :
      PanelRuntimeCoordinator).release epoch ids now entityId expiry.connectionId .expired

def holdEntityForHost (s : PanelRuntimeCoordinator) (input : HostHeldEntityLease) : Outcome HostHeldEntityLease :=
  s.withPanelEntityId input.runtimeEntityId fun entityId ↦
    if (s.leases.get entityId).isSome then
      (s, .error (lit "Panel runtime " ++ entityId ++ lit " is presented by a view host"))
    else
      let replaced := (s.hostHeldEntityLeases.get entityId).filter fun previous ↦
        decide (previous.connectionId ≠ input.connectionId)
      let reachability := replaced.elim s.routes.routeReachability fun previous ↦
        s.routes.routeReachability.delete previous.connectionId
      ({ s with
        hostHeldEntityLeases := s.hostHeldEntityLeases.set entityId input
        routes := { s.routes with routeReachability := reachability } }, .ok input)

def commitAttempt (s : PanelRuntimeCoordinator) (slotId runtimeEntityId : JsString)
    (hostConnectionId connectionId : Option JsString) : Outcome PanelAttempt :=
  s.withPanelSlotId slotId fun slotId ↦ s.withPanelEntityId runtimeEntityId fun entityId ↦
    let r := s.routes.commitAttempt ids slotId ⟨entityId, hostConnectionId, connectionId⟩
    ({ s with routes := r.1 }, .ok r.2)

def ensureAttemptForSlot (s : PanelRuntimeCoordinator) (slotId runtimeEntityId : JsString) : Outcome PanelAttempt :=
  s.withPanelSlotId slotId fun slotId ↦ s.withPanelEntityId runtimeEntityId fun entityId ↦
    let r := s.routes.ensureAttemptForSlot ids slotId entityId
    ({ s with routes := r.1 }, .ok r.2)

/-- The route of a view that is reported: the lease of the entity on the connection, and the attempt. -/
def viewedAttempt (s : PanelRuntimeCoordinator) (entityId : PanelEntityId) (connectionId : JsString) :
    Option PanelAttempt :=
  (s.leaseOn entityId connectionId).bind fun lease ↦
    ((s.routes.routeBindings.get connectionId).bind s.routes.attempts.get).filter fun attempt ↦
      decide (attempt.runtimeEntityId = entityId ∧ attempt.slotId = lease.slotId)

/-- `reachable` says that the report comes from the renderer or from a hosted route. -/
def reportView (s : PanelRuntimeCoordinator) (runtimeEntityId connectionId : JsString) (reachable : Bool)
    (report : Option AttemptReport) : Outcome Unit :=
  s.withPanelEntityId runtimeEntityId fun entityId ↦
    match s.viewedAttempt entityId connectionId with
    | none => (s, .ok ())
    | some attempt =>
      let reached := if reachable then s.setReachable connectionId true else s
      let seen := { reached.routes with
        routeViews := attempt.attemptId :: reached.routes.routeViews.filter fun id ↦ decide (id ≠ attempt.attemptId) }
      ({ reached with routes := report.elim seen fun report ↦ (seen.reportAttemptPhase attempt.attemptId report).1 },
        .ok ())

/-! ## Runs -/

/-- The operations, and a timer that fires. The coordinator's own attempts to supervise a panel are reports. -/
inductive Op where
  | registerClient (input : PanelHostRegistration)
  | unregisterClient (clientSessionId : JsString)
  | unregisterClientsForCaller (ownerCallerId : JsString)
  | acquire (runtimeEntityId : JsString) (input : PanelRuntimeLeaseRequest)
  | takeOver (runtimeEntityId : JsString) (input : PanelRuntimeLeaseRequest)
  | release (runtimeEntityId connectionId : JsString) (reason : PanelRuntimeLeaseChangedReason)
  | unloadSlot (slotId : JsString)
  | adoptHostLeaseForSlot (slotId runtimeEntityId hostConnectionId : JsString)
  | ensureDefaultCdpHostForSlot (slotId runtimeEntityId : JsString) (options : DefaultCdpHostOptions)
  | replaceRuntimeEntityForSlot (slotId previousRuntimeEntityId nextRuntimeEntityId : JsString)
  | advanceResidentSlotEntity (slotId nextRuntimeEntityId : JsString)
  | retireRuntimeEntity (runtimeEntityId : JsString)
  | pinSlotLoaded (slotId : JsString)
  | unpinSlotLoaded (slotId : JsString)
  | markConnected (runtimeEntityId connectionId : JsString)
  | markDisconnected (runtimeEntityId connectionId : JsString)
  | expire (runtimeEntityId : PanelEntityId)
  | holdEntityForHost (input : HostHeldEntityLease)
  | commitAttempt (slotId runtimeEntityId : JsString) (hostConnectionId connectionId : Option JsString)
  | ensureAttemptForSlot (slotId runtimeEntityId : JsString)
  | stopAttempt (attemptId : JsString) (reason : StopReason)
  | reportAttemptPhase (attemptId : JsString) (report : AttemptReport)
  | reportView (runtimeEntityId connectionId : JsString) (reachable : Bool) (report : Option AttemptReport)

/-- An operation at a time. -/
structure Call where
  now : ℕ
  op : Op

/-- The operation without what it returns. -/
def outcome {α : Type} (r : Outcome α) : Outcome Unit := (r.1, r.2.map fun _ ↦ ())

def call (s : PanelRuntimeCoordinator) (c : Call) : Option (Outcome Unit) :=
  match c.op with
  | .registerClient input => some (s.registerClient input, .ok ())
  | .unregisterClient id => some (s.unregisterClient epoch ids c.now id)
  | .unregisterClientsForCaller owner => some (s.unregisterClientsForCaller epoch ids c.now owner)
  | .acquire entityId input => some (outcome (s.acquire epoch ids c.now entityId input))
  | .takeOver entityId input => some (outcome (s.takeOver epoch ids c.now entityId input))
  | .release entityId connectionId reason => some (s.release epoch ids c.now entityId connectionId reason)
  | .unloadSlot slotId => some (outcome (s.unloadSlot epoch slotId))
  | .adoptHostLeaseForSlot slotId entityId host =>
    some (outcome (s.adoptHostLeaseForSlot epoch ids c.now slotId entityId host))
  | .ensureDefaultCdpHostForSlot slotId entityId options =>
    some (outcome (s.ensureDefaultCdpHostForSlot epoch ids c.now slotId entityId options))
  | .replaceRuntimeEntityForSlot slotId previousId nextId =>
    some (outcome (s.replaceRuntimeEntityForSlot epoch ids c.now slotId previousId nextId))
  | .advanceResidentSlotEntity slotId nextId =>
    some (outcome (s.advanceResidentSlotEntity epoch ids c.now slotId nextId))
  | .retireRuntimeEntity entityId => some (s.retireRuntimeEntity epoch entityId, .ok ())
  | .pinSlotLoaded slotId => some (s.pinSlotLoaded epoch slotId)
  | .unpinSlotLoaded slotId => some (s.unpinSlotLoaded epoch slotId)
  | .markConnected entityId connectionId => some (s.markConnected epoch entityId connectionId)
  | .markDisconnected entityId connectionId => some (s.markDisconnected epoch c.now entityId connectionId)
  | .expire entityId => s.expire epoch ids c.now entityId
  | .holdEntityForHost input => some (outcome (s.holdEntityForHost input))
  | .commitAttempt slotId entityId host connectionId =>
    some (outcome (s.commitAttempt ids slotId entityId host connectionId))
  | .ensureAttemptForSlot slotId entityId => some (outcome (s.ensureAttemptForSlot ids slotId entityId))
  | .stopAttempt attemptId reason => some ({ s with routes := (s.routes.stopAttempt attemptId reason).1 }, .ok ())
  | .reportAttemptPhase attemptId report =>
    some ({ s with routes := (s.routes.reportAttemptPhase attemptId report).1 }, .ok ())
  | .reportView entityId connectionId reachable report => some (s.reportView entityId connectionId reachable report)

def step (s : PanelRuntimeCoordinator) (c : Call) : Option PanelRuntimeCoordinator :=
  (s.call epoch ids c).map Prod.fst

end PanelRuntimeCoordinator

end Vibestudio.Server

import Vibestudio.Js.NestedMap
import Vibestudio.Js.Text

/-!
# The connection registry

The server keeps its live connections in several indexes: by channel, by caller and connection id, by user, and for
each caller the one it routes to, its primary. A connection is admitted once and has a lifetime, which is aborted when
it is retired; with it goes the bridge that was set for its id.

The primary is remembered and only looked at again when it has gone: a client that is admitted takes its place when it
comes before it. So the answer is right as long as no channel opens late, under a client that comes before the primary.
And the index by channel holds one client for each channel, whatever client is removed.

Clients, channels, bridges and transports are numbered; the numbers stand for the objects. The calls that the registry
makes on them are recorded as effects. Listeners and abort handlers do not call back.
-/

namespace Vibestudio.Server.Connections

open Js

/-! ## The registry -/

/-- `localeCompare`, which orders all strings, and may take different ones for equal. -/
structure LocaleOrder where
  compare : JsString → JsString → ℤ
  swap : ∀ a b, compare a b < 0 ↔ 0 < compare b a
  trans : ∀ a b c, compare a b ≤ 0 → compare b c ≤ 0 → compare a c ≤ 0

/-- The fields that the registry reads of a client; `id` is its identity. -/
structure WsClientState where
  id : ℕ
  ws : ℕ
  callerId : JsString
  connectionId : JsString
  userId : JsString
  authenticatedAt : ℤ
  deriving DecidableEq

inductive Effect where
  | transportClosed (transport : ℕ)
  | channelClosed (ws code : ℕ) (reason : JsString)
  | connectionsChanged
  deriving DecidableEq

/-- A lifetime holds the reason it was aborted with. -/
structure ConnectionRegistry where
  clients : JsMap ℕ WsClientState
  lifetimes : JsMap WsClientState (Option JsString)
  callerConnections : JsMap JsString (JsMap JsString WsClientState)
  bridges : JsMap JsString (JsMap JsString ℕ)
  transports : JsMap JsString (JsMap JsString ℕ)
  primaryConnections : JsMap JsString WsClientState
  usersByUserId : JsMap JsString (JsMap WsClientState Unit)
  openChannels : List ℕ
  effects : List Effect

namespace ConnectionRegistry

def empty : ConnectionRegistry := ⟨[], [], [], [], [], [], [], [], []⟩

section
variable (s : ConnectionRegistry)

/-- `ws.readyState === ws.OPEN` -/
def isOpen (client : WsClientState) : Bool := decide (client.ws ∈ s.openChannels)

def isActiveClient (client : WsClientState) : Bool :=
  decide (s.callerConnections.getNested client.callerId client.connectionId = some client)

def emit (effect : Effect) : ConnectionRegistry := { s with effects := s.effects ++ [effect] }

/-- A lifetime that is aborted keeps its reason. -/
def abort (client : WsClientState) (reason : JsString) : ConnectionRegistry :=
  match s.lifetimes.get client with
  | some none => { s with lifetimes := s.lifetimes.set client (some reason) }
  | _ => s

def setBridge (callerId connectionId : JsString) (bridge transport : ℕ) : ConnectionRegistry := { s with
  bridges := s.bridges.setNested callerId connectionId bridge
  transports := s.transports.setNested callerId connectionId transport }

def removeBridge (callerId connectionId : JsString) : ConnectionRegistry :=
  let closed := match s.transports.getNested callerId connectionId with
    | some transport => { s.emit (.transportClosed transport) with
        transports := s.transports.deleteNested callerId connectionId }
    | none => s
  { closed with bridges := closed.bridges.deleteNested callerId connectionId }

/-- What `removeClient` does for a client that is active. -/
def removeActive (client : WsClientState) : ConnectionRegistry :=
  let removed := { s with
    callerConnections := s.callerConnections.deleteNested client.callerId client.connectionId
    primaryConnections := if s.primaryConnections.get client.callerId = some client
      then s.primaryConnections.delete client.callerId else s.primaryConnections
    usersByUserId := s.usersByUserId.deleteNested client.userId client }
  removed.removeBridge client.callerId client.connectionId

def removeClient (client : WsClientState) : ConnectionRegistry × Bool :=
  let aborted := s.abort client (lit "RPC connection retired")
  if s.isActiveClient client then
    let removed := aborted.removeActive client
    ({ removed with clients := removed.clients.delete client.ws }.emit .connectionsChanged, true)
  else ({ aborted with clients := aborted.clients.delete client.ws }, false)

end

section
variable (order : LocaleOrder)

def comparePrimary (a b : WsClientState) : ℤ :=
  if a.authenticatedAt - b.authenticatedAt ≠ 0 then a.authenticatedAt - b.authenticatedAt
  else order.compare a.connectionId b.connectionId

/-- One round of the loop of `pickPrimary`. -/
def better (s : ConnectionRegistry) (primary : Option WsClientState) (client : WsClientState) : Option WsClientState :=
  if s.isOpen client then
    match primary with
    | none => some client
    | some best => if comparePrimary order client best < 0 then some client else some best
  else primary

def pickPrimary (s : ConnectionRegistry) (callerId : JsString) : Option WsClientState × ConnectionRegistry :=
  match (s.primaryConnections.get callerId).filter fun cached ↦ s.isOpen cached &&
      decide (s.callerConnections.getNested callerId cached.connectionId = some cached) with
  | some cached => (some cached, s)
  | none =>
    match (((s.callerConnections.get callerId).getD []).map Prod.snd).foldl (s.better order) none with
    | some primary => (some primary, { s with primaryConnections := s.primaryConnections.set callerId primary })
    | none => (none, { s with primaryConnections := s.primaryConnections.delete callerId })

/-- The primary of its caller, when a client has been admitted. -/
def admitPrimary (s : ConnectionRegistry) (client : WsClientState) : ConnectionRegistry :=
  match (s.primaryConnections.get client.callerId).filter fun primary ↦ s.isOpen primary with
  | none => (({ s with
      primaryConnections := s.primaryConnections.delete client.callerId } : ConnectionRegistry).pickPrimary order
        client.callerId).2
  | some primary =>
    if comparePrimary order client primary < 0 then
      { s with primaryConnections := s.primaryConnections.set client.callerId client }
    else s

/-- A client is entered, and the one that had its connection id is gone. -/
def enter (s : ConnectionRegistry) (client : WsClientState) : ConnectionRegistry :=
  let entered := ({ s with
    clients := s.clients.set client.ws client
    callerConnections := s.callerConnections.setNested client.callerId client.connectionId client } :
      ConnectionRegistry).admitPrimary order client
  { entered with usersByUserId := entered.usersByUserId.setNested client.userId client () }.emit .connectionsChanged

/-- It throws for a client that was admitted before, whether or not it is still active. -/
def addClient (s : ConnectionRegistry) (client : WsClientState) : Except JsString ConnectionRegistry :=
  match s.lifetimes.get client with
  | some _ => .error (lit "Cannot readmit an RPC connection instance")
  | none =>
    let born := { s with lifetimes := s.lifetimes.set client none }
    match (s.callerConnections.getNested client.callerId client.connectionId).filter fun replaced ↦
        decide (replaced ≠ client) with
    | some replaced => .ok ((born.removeClient replaced).1.enter order client)
    | none => .ok (born.enter order client)

end

def closeAll (s : ConnectionRegistry) (code : ℕ) (reason : JsString) : ConnectionRegistry :=
  let aborted := (s.clients.map Prod.snd).foldl (fun t client ↦ t.abort client (lit "RPC server stopped")) s
  { aborted with
    clients := []
    callerConnections := []
    primaryConnections := []
    usersByUserId := []
    bridges := []
    transports := []
    effects := s.effects ++ (s.transports.entries.map fun e ↦ .transportClosed e.2.2) ++
      (s.clients.map fun p ↦ .channelClosed p.1 code reason) ++ [.connectionsChanged] }

end ConnectionRegistry

/-- `readyState` is set by the channel itself. -/
inductive Event where
  | addClient (client : WsClientState)
  | removeClient (client : WsClientState)
  | setBridge (callerId connectionId : JsString) (bridge transport : ℕ)
  | pickPrimary (callerId : JsString)
  | closeAll (code : ℕ) (reason : JsString)
  | readyState (ws : ℕ) (isOpen : Bool)

namespace ConnectionRegistry

def setReadyState (s : ConnectionRegistry) (ws : ℕ) (isOpen : Bool) : ConnectionRegistry := { s with
  openChannels := if isOpen then ws :: s.openChannels else s.openChannels.filter fun other ↦ decide (other ≠ ws) }

/-- A call that throws leaves the registry as it was. -/
def step (order : LocaleOrder) (s : ConnectionRegistry) : Event → ConnectionRegistry
  | .addClient client => match s.addClient order client with
    | .ok s' => s'
    | .error _ => s
  | .removeClient client => (s.removeClient client).1
  | .setBridge callerId connectionId bridge transport => s.setBridge callerId connectionId bridge transport
  | .pickPrimary callerId => (s.pickPrimary order callerId).2
  | .closeAll code reason => s.closeAll code reason
  | .readyState ws isOpen => s.setReadyState ws isOpen

def run (order : LocaleOrder) (events : List Event) : ConnectionRegistry := events.foldl (step order) empty

/-! ## What the registry promises -/

section
variable (order : LocaleOrder) (s : ConnectionRegistry)

def Active (client : WsClientState) : Prop := s.isActiveClient client = true

/-- The answer of `pickPrimary`: the open client of the caller that comes first, or none when none is open. -/
def Picks (callerId : JsString) : Option WsClientState → Prop
  | none => ∀ client, s.Active client → client.callerId = callerId → s.isOpen client = false
  | some primary => (s.Active primary ∧ primary.callerId = callerId ∧ s.isOpen primary = true) ∧
      ∀ client, s.Active client → client.callerId = callerId → s.isOpen client = true →
        comparePrimary order primary client ≤ 0

/-- The indexes hold the active clients, each once and under its own keys. -/
structure Coherent : Prop where
  sockets : ∀ ws client, (ws, client) ∈ s.clients ↔ s.Active client ∧ client.ws = ws
  callers : ∀ callerId connectionId client, (callerId, connectionId, client) ∈ s.callerConnections.entries ↔
    s.Active client ∧ client.callerId = callerId ∧ client.connectionId = connectionId
  users : ∀ userId client, (userId, client, ()) ∈ s.usersByUserId.entries ↔ s.Active client ∧ client.userId = userId
  once : s.clients.Nodup ∧ s.callerConnections.entries.Nodup ∧ s.usersByUserId.entries.Nodup
  primaries : (JsMap.keys s.primaryConnections).Nodup ∧ ∀ callerId primary,
    (callerId, primary) ∈ s.primaryConnections → s.Active primary ∧ primary.callerId = callerId
  picks : ∀ callerId, Picks order s callerId (s.pickPrimary order callerId).1
  lifetimes : ∀ client, s.lifetimes.get client = some none ↔ s.Active client

/-- A bridge or a transport is set for a connection id. -/
def Bridged (callerId connectionId : JsString) : Prop :=
  s.bridges.getNested callerId connectionId ≠ none ∨ s.transports.getNested callerId connectionId ≠ none

end

/-! ## The order of the primaries -/

section
variable {order : LocaleOrder} {s t : ConnectionRegistry} {a b c client : WsClientState} {callerId connectionId : JsString}

theorem comparePrimary_swap : comparePrimary order a b < 0 ↔ 0 < comparePrimary order b a := by
  grind [LocaleOrder.swap, comparePrimary]

theorem comparePrimary_of_not_lt (h : ¬comparePrimary order a b < 0) : comparePrimary order b a ≤ 0 :=
  not_lt.mp (comparePrimary_swap.not.mp h)

theorem comparePrimary_self : comparePrimary order a a ≤ 0 :=
  comparePrimary_of_not_lt fun h ↦ absurd (comparePrimary_swap.mp h) h.le.not_gt

theorem comparePrimary_trans (hab : comparePrimary order a b ≤ 0) (hbc : comparePrimary order b c ≤ 0) :
    comparePrimary order a c ≤ 0 := by
  grind [LocaleOrder.trans, comparePrimary]

variable (order) in
/-- The loop of `pickPrimary` keeps the first of the open clients it has passed. -/
theorem foldl_better (clients : List WsClientState) : ∀ {init : Option WsClientState},
    (∀ best, init = some best → s.isOpen best = true) →
    (clients.foldl (s.better order) init = none → init = none ∧ ∀ e ∈ clients, s.isOpen e = false) ∧
    ∀ best, clients.foldl (s.better order) init = some best →
      (init = some best ∨ best ∈ clients) ∧ s.isOpen best = true ∧
      (∀ e, init = some e ∨ e ∈ clients → s.isOpen e = true → comparePrimary order best e ≤ 0) := by
  induction clients with
  | nil =>
    grind [comparePrimary_self]
  | cons client rest ih =>
    intro init hinit
    rw [List.foldl_cons]
    -- the best of the first round: it was there or is the client, and comes before both
    have hround : (s.better order init client = none → init = none ∧ s.isOpen client = false) ∧
        ∀ best, s.better order init client = some best → (init = some best ∨ best = client) ∧ s.isOpen best = true ∧
          ∀ e, init = some e ∨ e = client → s.isOpen e = true → comparePrimary order best e ≤ 0 := by
      unfold better
      split_ifs with hopen
      · grind [comparePrimary_of_not_lt]
      · grind [comparePrimary_self]
    obtain ⟨hnone, hsome⟩ := hround
    obtain ⟨hrestNone, hrestSome⟩ := ih
      fun best (h : s.better order init client = some best) ↦ (hsome best h).2.1
    refine ⟨fun h ↦ ?_, fun best h ↦ ?_⟩
    · grind
    · obtain ⟨hfrom, hopen, hleast⟩ := hrestSome best h
      refine ⟨?_, hopen, fun e he hopen' ↦ ?_⟩
      · grind
      · by_cases hrest : e ∈ rest
        · exact hleast e (.inr hrest) hopen'
        · -- the first round has something that comes before `e`
          have he : init = some e ∨ e = client := he.imp_right fun h ↦ (List.mem_cons.mp h).resolve_right hrest
          match hround : s.better order init client with
          | some first =>
            exact comparePrimary_trans (hleast first (.inl hround) (hsome first hround).2.1)
              ((hsome first hround).2.2 e he hopen')
          | none =>
            grind

end

/-! ## What each call changes -/

section
variable {order : LocaleOrder} {s r : ConnectionRegistry} {a b c d client : WsClientState}
  {callerId connectionId : JsString} {reason : JsString}

theorem active_iff : s.Active client ↔
    s.callerConnections.getNested client.callerId client.connectionId = some client := decide_eq_true_iff

/-- The keys of the indexes; every call keeps this, whatever happens to their contents. -/
structure Basic (s : ConnectionRegistry) : Prop where
  clients : (JsMap.keys s.clients).Nodup
  primaries : (JsMap.keys s.primaryConnections).Nodup
  callers : JsMap.Tidy s.callerConnections
  users : JsMap.Tidy s.usersByUserId
  own : ∀ callerId connectionId client, s.callerConnections.getNested callerId connectionId = some client →
    client.callerId = callerId ∧ client.connectionId = connectionId

theorem Basic.active (h : s.Basic) (hget : s.callerConnections.getNested callerId connectionId = some client) :
    s.Active client := by
  grind [own, active_iff]

/-- Two active clients under the same keys are one. -/
theorem active_unique (ha : s.Active a) (hb : s.Active b) (hcaller : a.callerId = b.callerId)
    (hconnection : a.connectionId = b.connectionId) : a = b := by
  grind [active_iff]

variable (s c reason) in
theorem abort_lifetimes : (s.abort c reason).lifetimes.get d = some none ↔ s.lifetimes.get d = some none ∧ d ≠ c := by
  grind [abort, JsMap.get_set]

variable (s c reason) in
/-- Aborting touches the lifetimes only. -/
theorem abort_eq : ∃ lifetimes, s.abort c reason = { s with lifetimes } := by
  unfold abort
  split <;> exact ⟨_, rfl⟩

/-- The client is out of all indexes but that of its channel. -/
structure Removed (s : ConnectionRegistry) (c : WsClientState) (r : ConnectionRegistry) : Prop where
  clients : r.clients = s.clients
  lifetimes : r.lifetimes = s.lifetimes
  callers : r.callerConnections = s.callerConnections.deleteNested c.callerId c.connectionId
  primaries : r.primaryConnections = if s.primaryConnections.get c.callerId = some c
    then s.primaryConnections.delete c.callerId else s.primaryConnections
  users : r.usersByUserId = s.usersByUserId.deleteNested c.userId c
  openChannels : r.openChannels = s.openChannels
  bridged : ∀ callerId connectionId, r.Bridged callerId connectionId → s.Bridged callerId connectionId ∧
    ¬(callerId = c.callerId ∧ connectionId = c.connectionId)

theorem removed_removeActive (s : ConnectionRegistry) (c : WsClientState) : Removed s c (s.removeActive c) := by
  unfold removeActive removeBridge
  dsimp only
  split
  · refine ⟨rfl, rfl, rfl, rfl, rfl, rfl, fun callerId connectionId h ↦ ?_⟩
    grind [Bridged, emit, JsMap.getNested_deleteNested]
  · next hnone =>
    refine ⟨rfl, rfl, rfl, rfl, rfl, rfl, fun callerId connectionId h ↦ ?_⟩
    grind [Bridged, JsMap.getNested_deleteNested]

end

/-! ## The invariant -/

section
variable {order : LocaleOrder} {newborn : Option WsClientState} {s t : ConnectionRegistry}
  {c d client : WsClientState} {callerId connectionId : JsString}

/-- The invariant, also in the middle of an admission, when the lifetime of a client is made but it is not entered. -/
structure Inv (order : LocaleOrder) (newborn : Option WsClientState) (s : ConnectionRegistry) : Prop
    extends Basic s where
  sockets : ∀ ws client, s.clients.get ws = some client ↔ s.Active client ∧ client.ws = ws
  userEntries : ∀ userId client, s.usersByUserId.getNested userId client = some () ↔
    s.Active client ∧ client.userId = userId
  primaryActive : ∀ callerId primary, s.primaryConnections.get callerId = some primary →
    s.Active primary ∧ primary.callerId = callerId
  least : ∀ callerId primary, s.primaryConnections.get callerId = some primary → s.isOpen primary = true →
    ∀ client, s.Active client → client.callerId = callerId → s.isOpen client = true →
      comparePrimary order primary client ≤ 0
  lives : ∀ client, s.lifetimes.get client = some none ↔ s.Active client ∨ newborn = some client

/-- What is left when an active client is removed. -/
structure Retired (s : ConnectionRegistry) (c : WsClientState) (t : ConnectionRegistry) : Prop where
  clients : t.clients = s.clients.delete c.ws
  lifetimes : ∀ client, t.lifetimes.get client = some none ↔ s.lifetimes.get client = some none ∧ client ≠ c
  callers : t.callerConnections = s.callerConnections.deleteNested c.callerId c.connectionId
  primaries : t.primaryConnections = if s.primaryConnections.get c.callerId = some c
    then s.primaryConnections.delete c.callerId else s.primaryConnections
  users : t.usersByUserId = s.usersByUserId.deleteNested c.userId c
  openChannels : t.openChannels = s.openChannels
  bridged : ∀ callerId connectionId, t.Bridged callerId connectionId → s.Bridged callerId connectionId ∧
    ¬(callerId = c.callerId ∧ connectionId = c.connectionId)

theorem retired_removeClient (hc : s.Active c) : Retired s c (s.removeClient c).1 := by
  have hactive : s.isActiveClient c = true := hc
  unfold removeClient
  dsimp only
  rw [if_pos hactive]
  have hlifetimes (d) := abort_lifetimes s c (lit "RPC connection retired") (d := d)
  obtain ⟨lifetimes, habort⟩ := abort_eq s c (lit "RPC connection retired")
  have hremoved := removed_removeActive (s.abort c (lit "RPC connection retired")) c
  rw [habort] at hlifetimes hremoved ⊢
  exact ⟨congrArg (JsMap.delete · c.ws) hremoved.clients, fun d ↦ hremoved.lifetimes ▸ hlifetimes d, hremoved.callers,
    hremoved.primaries, hremoved.users, hremoved.openChannels, hremoved.bridged⟩

theorem Retired.active (h : Retired s c t) (hc : s.Active c) : t.Active d ↔ s.Active d ∧ d ≠ c := by
  rw [active_iff, h.callers, JsMap.getNested_deleteNested, active_iff (s := s)]
  grind [active_iff]

theorem Retired.basic (h : Retired s c t) (hs : s.Basic) : t.Basic where
  clients := h.clients ▸ JsMap.nodup_keys_delete hs.clients _
  primaries := by
    rw [h.primaries]
    grind [JsMap.nodup_keys_delete, Basic.primaries]
  callers := h.callers ▸ hs.callers.deleteNested _ _
  users := h.users ▸ hs.users.deleteNested _ _
  own callerId connectionId client hget := by
    rw [h.callers, JsMap.getNested_deleteNested] at hget
    grind [Basic.own]

/-- The primaries that are left are others, and were there before. -/
theorem Retired.primary (h : Retired s c t) (hs : Inv order newborn s) {primary : WsClientState}
    (hget : t.primaryConnections.get callerId = some primary) :
    s.primaryConnections.get callerId = some primary ∧ primary ≠ c := by
  rw [h.primaries] at hget
  split_ifs at hget with hcached
  · rw [JsMap.get_delete] at hget
    obtain ⟨hne, hold⟩ := Option.ite_none_left_eq_some.mp hget
    refine ⟨hold, ?_⟩
    rintro rfl
    exact hne (hs.primaryActive _ _ hold).2.symm
  · refine ⟨hget, ?_⟩
    rintro rfl
    exact hcached ((hs.primaryActive _ _ hget).2 ▸ hget)

theorem Retired.inv (h : Retired s c t) (hs : Inv order newborn s) (hc : s.Active c) (hborn : newborn ≠ some c) :
    Inv order newborn t := by
  have hopen (client) : t.isOpen client = s.isOpen client := by rw [isOpen, h.openChannels, isOpen]
  refine { h.basic hs.toBasic with
    sockets := fun ws client ↦ ?_
    userEntries := fun userId client ↦ ?_
    primaryActive := fun callerId primary hget ↦ ?_
    least := fun callerId primary hget hopen' client hclient hcaller hopenc ↦ ?_
    lives := fun client ↦ ?_ }
  · rw [h.clients, JsMap.get_delete, h.active hc]
    split_ifs with hws
    · refine iff_of_false (by rintro ⟨⟩) fun hactive ↦ hactive.1.2 ?_
      -- the channel has one active client
      have hclient := (hs.sockets ws client).mpr ⟨hactive.1.1, hactive.2⟩
      grind [Inv.sockets]
    grind [Inv.sockets]
  · rw [h.users, JsMap.getNested_deleteNested, h.active hc]
    grind [Inv.userEntries]
  · obtain ⟨hold, hne⟩ := h.primary hs hget
    obtain ⟨hactive, hcaller⟩ := hs.primaryActive _ _ hold
    grind [active]
  · rw [hopen] at hopen' hopenc
    exact hs.least _ _ (h.primary hs hget).1 hopen' client ((h.active hc).mp hclient).1 hcaller hopenc
  · rw [h.lifetimes, hs.lives, h.active hc]
    grind

/-! ## The primary -/

theorem mem_callers (h : s.Basic) :
    client ∈ ((s.callerConnections.get callerId).getD []).map Prod.snd ↔ s.Active client ∧ client.callerId = callerId := by
  rw [List.mem_map]
  constructor
  · rintro ⟨⟨connectionId, found⟩, hmem, rfl⟩
    match hget : s.callerConnections.get callerId, hmem with
    | some inner, hmem =>
      have hentry : s.callerConnections.getNested callerId connectionId = some found := by
        rw [JsMap.getNested, hget]
        exact (JsMap.mem_iff_get (h.callers.inner _ _ hget).1).mp hmem
      exact ⟨h.active hentry, (h.own _ _ _ hentry).1⟩
    | none, hmem => grind
  · rintro ⟨hactive, rfl⟩
    have hentry := active_iff.mp hactive
    rw [JsMap.getNested] at hentry
    obtain ⟨inner, hget, hinner⟩ := Option.bind_eq_some_iff.mp hentry
    exact ⟨(client.connectionId, client), by rw [hget]; exact JsMap.mem_of_get hinner, rfl⟩

variable (order callerId) in
/-- `pickPrimary` answers rightly as long as the primary that is remembered comes first when it is open, and remembers
its answer. -/
theorem pickPrimary_spec (h : s.Basic)
    (hprimary : ∀ primary, s.primaryConnections.get callerId = some primary → primary.callerId = callerId)
    (hleast : ∀ primary, s.primaryConnections.get callerId = some primary → s.Active primary → s.isOpen primary = true →
      ∀ client, s.Active client → client.callerId = callerId → s.isOpen client = true →
        comparePrimary order primary client ≤ 0) :
    Picks order s callerId (s.pickPrimary order callerId).1 ∧ ∃ primaries,
      (s.pickPrimary order callerId).2 = { s with primaryConnections := primaries } ∧
      ((JsMap.keys s.primaryConnections).Nodup → (JsMap.keys primaries).Nodup) ∧
      ∀ other, primaries.get other = if other = callerId then (s.pickPrimary order callerId).1
        else s.primaryConnections.get other := by
  unfold pickPrimary
  split
  · next cached hcached =>
    obtain ⟨hget, hvalid⟩ := Option.filter_eq_some_iff.mp hcached
    obtain ⟨hopen, hactive⟩ := Bool.and_eq_true_iff.mp hvalid
    have hcaller := hprimary _ hget
    have hactive := h.active (of_decide_eq_true hactive)
    refine ⟨⟨⟨hactive, hcaller, hopen⟩, hleast _ hget hactive hopen⟩, s.primaryConnections, rfl, id, fun other ↦ ?_⟩
    split_ifs with hother
    · rw [hother, hget]
    · rfl
  · obtain ⟨hnone, hsome⟩ := foldl_better order (s := s)
      (((s.callerConnections.get callerId).getD []).map Prod.snd)
      fun _ (h : none = some _) ↦ (by cases h)
    split
    · next primary hfold =>
      obtain ⟨hfrom, hopen, hfirst⟩ := hsome primary hfold
      obtain ⟨hactive, hcaller⟩ := (mem_callers h).mp (hfrom.resolve_left (by rintro ⟨⟩))
      refine ⟨⟨⟨hactive, hcaller, hopen⟩, fun client hclient hcaller' hopen' ↦ ?_⟩, _, rfl,
        fun hnodup ↦ JsMap.nodup_keys_set hnodup _ _, fun other ↦ JsMap.get_set _ _ _ _⟩
      exact hfirst client (.inr ((mem_callers h).mpr ⟨hclient, hcaller'⟩)) hopen'
    · next hfold =>
      refine ⟨fun client hclient hcaller ↦ (hnone hfold).2 client ((mem_callers h).mpr ⟨hclient, hcaller⟩), _, rfl,
        fun hnodup ↦ JsMap.nodup_keys_delete hnodup _, fun other ↦ JsMap.get_delete _ _ _⟩

end

/-! ## Admission -/

section
variable {order : LocaleOrder} {newborn : Option WsClientState} {s t : ConnectionRegistry}
  {c d client : WsClientState} {callerId connectionId : JsString}

variable (order) in
/-- A new primary is all that a pick changes. -/
theorem pickPrimary_eq (s : ConnectionRegistry) (callerId : JsString) : ∃ primaries,
    (s.pickPrimary order callerId).2 = { s with primaryConnections := primaries } ∧
    ((JsMap.keys s.primaryConnections).Nodup → (JsMap.keys primaries).Nodup) := by
  unfold pickPrimary
  split
  · grind
  · split
    · grind [JsMap.nodup_keys_set]
    grind [JsMap.nodup_keys_delete]

variable (order) in
theorem admitPrimary_eq (s : ConnectionRegistry) (client : WsClientState) : ∃ primaries,
    s.admitPrimary order client = { s with primaryConnections := primaries } ∧
    ((JsMap.keys s.primaryConnections).Nodup → (JsMap.keys primaries).Nodup) := by
  unfold admitPrimary
  split
  · obtain ⟨primaries, heq, hnodup⟩ := pickPrimary_eq order ({ s with
      primaryConnections := s.primaryConnections.delete client.callerId }) client.callerId
    grind [JsMap.nodup_keys_delete]
  · split_ifs
    · grind [JsMap.nodup_keys_set]
    grind

variable (order) in
/-- The primaries are right again, when they were but for the client that has just been entered. -/
theorem admitPrimary_right (hs : s.Basic) (hc : s.Active c)
    (hactive : ∀ callerId primary, s.primaryConnections.get callerId = some primary →
      s.Active primary ∧ primary.callerId = callerId)
    (hleast : ∀ callerId primary, s.primaryConnections.get callerId = some primary → s.isOpen primary = true →
      ∀ client, s.Active client → client.callerId = callerId → s.isOpen client = true → client ≠ c →
        comparePrimary order primary client ≤ 0) :
    ∀ callerId primary, (s.admitPrimary order c).primaryConnections.get callerId = some primary →
      (s.Active primary ∧ primary.callerId = callerId) ∧ (s.isOpen primary = true →
        ∀ client, s.Active client → client.callerId = callerId → s.isOpen client = true →
          comparePrimary order primary client ≤ 0) := by
  intro callerId primary
  -- another caller keeps its primary, and the client is none of its own
  have hother (hne : callerId ≠ c.callerId) (hget : s.primaryConnections.get callerId = some primary) :
      (s.Active primary ∧ primary.callerId = callerId) ∧ (s.isOpen primary = true →
        ∀ client, s.Active client → client.callerId = callerId → s.isOpen client = true →
          comparePrimary order primary client ≤ 0) := by
    refine ⟨hactive _ _ hget, fun hopen client hclient hcaller hopen' ↦ ?_⟩
    refine hleast _ _ hget hopen client hclient hcaller hopen' ?_
    rintro rfl
    exact hne hcaller.symm
  unfold admitPrimary
  split
  · have hgone : JsMap.get c.callerId (s.primaryConnections.delete c.callerId) = none := by
      rw [JsMap.get_delete, if_pos rfl]
    obtain ⟨hpicks, primaries, heq, -, hget⟩ := pickPrimary_spec order c.callerId
      (s := { s with primaryConnections := s.primaryConnections.delete c.callerId })
      ⟨hs.clients, JsMap.nodup_keys_delete hs.primaries _, hs.callers, hs.users, hs.own⟩
      (fun p hp ↦ (by cases hgone.symm.trans hp)) fun p hp ↦ (by cases hgone.symm.trans hp)
    rw [heq]
    intro hprimary
    replace hprimary := (hget callerId).symm.trans hprimary
    split_ifs at hprimary with hsame
    · rw [hprimary] at hpicks
      rw [hsame]
      exact ⟨⟨hpicks.1.1, hpicks.1.2.1⟩, fun _ ↦ hpicks.2⟩
    · rw [JsMap.get_delete, if_neg hsame] at hprimary
      exact hother hsame hprimary
  grind [Option.filter_eq_some_iff, JsMap.get_set, comparePrimary_trans, comparePrimary_of_not_lt]

/-- The client under its channel and its connection id, before the primary is looked at. -/
def placed (s : ConnectionRegistry) (client : WsClientState) : ConnectionRegistry := { s with
  clients := s.clients.set client.ws client
  callerConnections := s.callerConnections.setNested client.callerId client.connectionId client }

variable (order) in
theorem enter_eq (s : ConnectionRegistry) (client : WsClientState) : ∃ primaries,
    (s.enter order client) = { s.placed client with
      primaryConnections := primaries
      usersByUserId := s.usersByUserId.setNested client.userId client ()
      effects := s.effects ++ [.connectionsChanged] } ∧
    primaries = ((s.placed client).admitPrimary order client).primaryConnections ∧
    ((JsMap.keys s.primaryConnections).Nodup → (JsMap.keys primaries).Nodup) := by
  obtain ⟨primaries, heq, hnodup⟩ := admitPrimary_eq order (s.placed client) client
  refine ⟨primaries, ?_, by rw [heq], hnodup⟩
  unfold enter
  rw [← placed, heq]
  rfl

theorem basic_placed (hs : s.Basic) (c : WsClientState) : (s.placed c).Basic where
  clients := JsMap.nodup_keys_set hs.clients _ _
  primaries := hs.primaries
  callers := hs.callers.setNested _ _ _
  users := hs.users
  own callerId connectionId client hget := by
    replace hget := (JsMap.getNested_setNested _ _ _ _ _ _).symm.trans hget
    grind [Basic.own]

variable (order) in
theorem basic_enter (hs : s.Basic) (c : WsClientState) : (s.enter order c).Basic := by
  obtain ⟨primaries, heq, -, hnodup⟩ := enter_eq order s c
  have hplaced := basic_placed hs c
  rw [heq]
  exact ⟨hplaced.clients, hnodup hs.primaries, hplaced.callers, hs.users.setNested _ _ _, hplaced.own⟩

theorem active_placed (hfree : s.callerConnections.getNested c.callerId c.connectionId = none) :
    (s.placed c).Active d ↔ d = c ∨ s.Active d := by
  rw [active_iff, active_iff (s := s)]
  change (s.callerConnections.setNested c.callerId c.connectionId c).getNested _ _ = _ ↔ _
  grind [JsMap.getNested_setNested]

/-- A client enters all indexes, when its connection id and its channel are free. -/
theorem inv_enter (hs : Inv order (some c) s) (hfree : s.callerConnections.getNested c.callerId c.connectionId = none)
    (hchannel : s.clients.get c.ws = none) : Inv order none (s.enter order c) := by
  have hactive (client) : (s.placed c).Active client ↔ client = c ∨ s.Active client := active_placed hfree
  have hright := admitPrimary_right order (basic_placed hs.toBasic c) ((hactive c).mpr (.inl rfl))
    (fun callerId primary hget ↦ (hs.primaryActive _ _ hget).imp_left fun h ↦ (hactive _).mpr (.inr h))
    fun callerId primary hget hopen client hclient hcaller hopen' hne ↦
      hs.least _ _ hget hopen client (((hactive client).mp hclient).resolve_left hne) hcaller hopen'
  have hbasic := basic_enter order hs.toBasic c
  obtain ⟨primaries, heq, hprimaries, -⟩ := enter_eq order s c
  rw [← hprimaries] at hright
  rw [heq] at hbasic ⊢
  refine { hbasic with
    sockets := fun ws client ↦ ?_
    userEntries := fun userId client ↦ ?_
    primaryActive := fun callerId primary hget ↦ (hright _ _ hget).1
    least := fun callerId primary hget ↦ (hright _ _ hget).2
    lives := fun client ↦ ?_ }
  · change (s.clients.set c.ws c).get ws = _ ↔ (s.placed c).Active client ∧ _
    grind [JsMap.get_set, Inv.sockets]
  · change (s.usersByUserId.setNested c.userId c ()).getNested userId client = _ ↔ (s.placed c).Active client ∧ _
    grind [JsMap.getNested_setNested, Inv.userEntries]
  · refine (hs.lives client).trans ?_
    change _ ↔ (s.placed c).Active client ∨ _
    grind

end

/-! ## Events -/

section
variable {order : LocaleOrder} {s t : ConnectionRegistry} {c d client : WsClientState}
  {callerId connectionId : JsString}

/-- When an event leaves the registry coherent: the channel of a client that is admitted is free, but for the client
that it replaces; a client that is not active is not removed while another has its channel; and no channel opens under
a client that comes before the primary of its caller, when that one is open. -/
def Keeps (order : LocaleOrder) (s : ConnectionRegistry) : Event → Prop
  | .addClient client => s.lifetimes.get client = none → ∀ other, s.Active other → other.ws = client.ws →
      other.callerId = client.callerId ∧ other.connectionId = client.connectionId
  | .removeClient client => s.Active client ∨ ∀ other, s.Active other → other.ws ≠ client.ws
  | .readyState ws isOpen => ∀ callerId primary, s.primaryConnections.get callerId = some primary →
      (s.setReadyState ws isOpen).isOpen primary = true → ∀ client, s.Active client → client.callerId = callerId →
        (s.setReadyState ws isOpen).isOpen client = true → comparePrimary order primary client ≤ 0
  | _ => True

theorem basic_removeClient (hs : s.Basic) (c : WsClientState) : (s.removeClient c).1.Basic := by
  by_cases hc : s.Active c
  · exact (retired_removeClient hc).basic hs
  · have hinactive : ¬s.isActiveClient c = true := hc
    unfold removeClient
    dsimp only
    rw [if_neg hinactive]
    obtain ⟨lifetimes, habort⟩ := abort_eq s c (lit "RPC connection retired")
    rw [habort]
    exact ⟨JsMap.nodup_keys_delete hs.clients _, hs.primaries, hs.callers, hs.users, hs.own⟩

theorem basic_born (hs : s.Basic) (c : WsClientState) :
    Basic { s with lifetimes := s.lifetimes.set c none } := ⟨hs.clients, hs.primaries, hs.callers, hs.users, hs.own⟩

theorem basic_empty : empty.Basic :=
  ⟨List.nodup_nil, List.nodup_nil, .empty, .empty, fun _ _ _ h ↦ nomatch h⟩

variable (order) in
theorem basic_step (hs : s.Basic) (e : Event) : (s.step order e).Basic := by
  cases e with
  | addClient client =>
    change (match s.addClient order client with | .ok s' => s' | .error _ => s).Basic
    grind [addClient, basic_enter, basic_removeClient, basic_born]
  | removeClient client => exact basic_removeClient hs client
  | setBridge _ _ _ _ => exact ⟨hs.clients, hs.primaries, hs.callers, hs.users, hs.own⟩
  | pickPrimary callerId =>
    obtain ⟨primaries, heq, hnodup⟩ := pickPrimary_eq order s callerId
    change (s.pickPrimary order callerId).2.Basic
    rw [heq]
    exact ⟨hs.clients, hnodup hs.primaries, hs.callers, hs.users, hs.own⟩
  | closeAll _ _ => exact ⟨List.nodup_nil, List.nodup_nil, .empty, .empty, fun _ _ _ h ↦ (by cases h)⟩
  | readyState _ _ => exact ⟨hs.clients, hs.primaries, hs.callers, hs.users, hs.own⟩

theorem Inv.coherent (hs : Inv order none s) : Coherent order s where
  sockets ws client := (JsMap.mem_iff_get hs.clients).trans (hs.sockets ws client)
  callers callerId connectionId client := by
    rw [hs.callers.mem_entries]
    constructor
    · exact fun hget ↦ ⟨hs.active hget, hs.own _ _ _ hget⟩
    grind [active_iff]
  users userId client := hs.users.mem_entries.trans (hs.userEntries userId client)
  once := ⟨JsMap.nodup_of_keys hs.clients, hs.callers.nodup_entries, hs.users.nodup_entries⟩
  primaries := ⟨hs.primaries, fun _ _ hmem ↦ hs.primaryActive _ _ ((JsMap.mem_iff_get hs.toBasic.primaries).mp hmem)⟩
  picks callerId := (pickPrimary_spec order callerId hs.toBasic (fun _ hget ↦ (hs.primaryActive _ _ hget).2)
    fun primary hget _ ↦ hs.least callerId primary hget).1
  lifetimes client := (hs.lives client).trans (or_iff_left nofun)

/-! ### Admission and removal -/

/-- An admission throws for a client that has been admitted before. -/
theorem addClient_throws {lifetime : Option JsString} (hold : s.lifetimes.get c = some lifetime) :
    s.step order (.addClient c) = s := by
  change (match s.addClient order c with | .ok s' => s' | .error _ => s) = s
  unfold addClient
  rw [hold]

variable (order) in
/-- An admission that does not throw: another client that has the connection id is removed first. -/
theorem step_addClient (hnew : s.lifetimes.get c = none) :
    (∃ replaced, s.callerConnections.getNested c.callerId c.connectionId = some replaced ∧ replaced ≠ c ∧
      s.step order (.addClient c) =
        (({ s with lifetimes := s.lifetimes.set c none } : ConnectionRegistry).removeClient replaced).1.enter order c) ∨
    ((∀ other, s.callerConnections.getNested c.callerId c.connectionId = some other → other = c) ∧
      s.step order (.addClient c) =
        ({ s with lifetimes := s.lifetimes.set c none } : ConnectionRegistry).enter order c) := by
  grind [step, addClient, Option.filter_eq_none_iff]

variable (order) in
/-- The same, once the client under the connection id is gone. -/
theorem addClient_cases (hs : s.Basic) (hnew : s.lifetimes.get c = none) (hinactive : ¬s.Active c) :
    ∃ t, s.step order (.addClient c) = t.enter order c ∧
      ((t = { s with lifetimes := s.lifetimes.set c none } ∧
        s.callerConnections.getNested c.callerId c.connectionId = none) ∨
      ∃ replaced, s.Active replaced ∧ replaced.callerId = c.callerId ∧ replaced.connectionId = c.connectionId ∧
        Retired { s with lifetimes := s.lifetimes.set c none } replaced t) := by
  obtain ⟨replaced, hget, -, hstep⟩ | ⟨hsame, hstep⟩ := step_addClient order hnew
  · have hactive := hs.active hget
    exact ⟨_, hstep, .inr ⟨replaced, hactive, (hs.own _ _ _ hget).1, (hs.own _ _ _ hget).2,
      retired_removeClient (s := { s with lifetimes := s.lifetimes.set c none }) hactive⟩⟩
  · refine ⟨_, hstep, .inl ⟨rfl, ?_⟩⟩
    match hget : s.callerConnections.getNested c.callerId c.connectionId with
    | none => rfl
    | some other =>
      grind [Basic.active]

theorem Inv.inactive (hs : Inv order none s) (hnew : s.lifetimes.get c = none) : ¬s.Active c :=
  fun hc ↦ nomatch hnew.symm.trans ((hs.lives c).mpr (.inl hc))

theorem Inv.born (hs : Inv order none s) :
    Inv order (some c) { s with lifetimes := s.lifetimes.set c none } := by
  refine { hs with lives := fun client ↦ ?_ }
  rw [JsMap.get_set]
  split_ifs with hclient
  · grind
  · rw [hs.lives]
    exact or_congr_right (iff_of_false (by rintro ⟨⟩) fun h ↦ hclient (Option.some.inj h).symm)

theorem Inv.addClient (hs : Inv order none s) (hkeeps : Keeps order s (.addClient c)) :
    Inv order none (s.step order (.addClient c)) := by
  match hnew : s.lifetimes.get c with
  | some lifetime =>
    rw [addClient_throws hnew]
    exact hs
  | none =>
    have hborn := hs.born (c := c)
    obtain ⟨t, hstep, ⟨rfl, hfree⟩ | ⟨replaced, hactive, hcaller, hconnection, hretired⟩⟩ :=
      addClient_cases order hs.toBasic hnew (hs.inactive hnew)
    · rw [hstep]
      refine inv_enter hborn hfree ?_
      match hget : s.clients.get c.ws with
      | none => rfl
      | some other =>
        obtain ⟨hother, hws⟩ := (hs.sockets _ _).mp hget
        obtain ⟨hcaller, hconnection⟩ := hkeeps hnew other hother hws
        grind [active_iff]
    · rw [hstep]
      have hapart : some c ≠ some replaced := fun h ↦ hs.inactive hnew (Option.some.inj h ▸ hactive)
      have ht := hretired.inv hborn hactive hapart
      refine inv_enter ht ?_ ?_
      · rw [hretired.callers, JsMap.getNested_deleteNested, if_pos ⟨hcaller.symm, hconnection.symm⟩]
      · match hget : t.clients.get c.ws with
        | none => rfl
        | some other =>
          obtain ⟨hother, hws⟩ := (ht.sockets _ _).mp hget
          obtain ⟨hother, hne⟩ := (hretired.active hactive).mp hother
          obtain ⟨hcaller', hconnection'⟩ := hkeeps hnew other hother hws
          exact absurd (active_unique hother hactive (hcaller'.trans hcaller.symm)
            (hconnection'.trans hconnection.symm)) hne

/-- The channel of another active client leads to the new one, and no longer to it. -/
theorem not_coherent_addClient (hs : Inv order none s) (h : ¬Keeps order s (.addClient c)) :
    ¬Coherent order (s.step order (.addClient c)) := by
  intro hcoherent
  simp only [Keeps, not_forall] at h
  obtain ⟨hnew, other, hother, hws, hkeys⟩ := h
  have hinactive := hs.inactive hnew
  have hbasic := basic_step order hs.toBasic (.addClient c)
  obtain ⟨t, hstep, hcases⟩ := addClient_cases order hs.toBasic hnew hinactive
  obtain ⟨primaries, heq, -, -⟩ := enter_eq order t c
  have hentry : t.callerConnections.getNested other.callerId other.connectionId = some other := by
    rcases hcases with ⟨rfl, -⟩ | ⟨replaced, -, hcaller, hconnection, hretired⟩
    · exact active_iff.mp hother
    · rw [hretired.callers, JsMap.getNested_deleteNested, if_neg fun h ↦ hkeys ⟨h.1.trans hcaller, h.2.trans hconnection⟩]
      exact active_iff.mp hother
  have hstill : (s.step order (.addClient c)).Active other := by
    rw [hstep, heq, active_iff]
    change (t.callerConnections.setNested c.callerId c.connectionId c).getNested _ _ = _
    rw [JsMap.getNested_setNested, if_neg hkeys]
    exact hentry
  have hchannel : (s.step order (.addClient c)).clients.get c.ws = some c := by
    rw [hstep, heq]
    exact JsMap.get_set_self _ _ _
  have hmem := (JsMap.mem_iff_get hbasic.clients).mp ((hcoherent.sockets c.ws other).mpr ⟨hstill, hws⟩)
  grind

/-- Removing a client that is not active: its lifetime is over, and its channel leads nowhere. -/
theorem removeClient_inactive (hc : ¬s.Active c) : ∃ lifetimes,
    (s.removeClient c).1 = { s with lifetimes, clients := s.clients.delete c.ws } ∧
      ∀ client, lifetimes.get client = some none ↔ s.lifetimes.get client = some none ∧ client ≠ c := by
  have hinactive : ¬s.isActiveClient c = true := hc
  have hlifetimes (d) := abort_lifetimes s c (lit "RPC connection retired") (d := d)
  unfold removeClient
  dsimp only
  rw [if_neg hinactive]
  obtain ⟨lifetimes, habort⟩ := abort_eq s c (lit "RPC connection retired")
  simp_all

theorem Inv.removeClient (hs : Inv order none s) (hkeeps : Keeps order s (.removeClient c)) :
    Inv order none (s.step order (.removeClient c)) := by
  by_cases hc : s.Active c
  · exact (retired_removeClient hc).inv hs hc nofun
  · have hbasic := basic_step order hs.toBasic (.removeClient c)
    obtain ⟨lifetimes, hstep, hlives⟩ := removeClient_inactive hc
    replace hstep : s.step order (.removeClient c) = _ := hstep
    have hfree : s.clients.get c.ws = none := by
      match hget : s.clients.get c.ws with
      | none => rfl
      | some other =>
        obtain ⟨hother, hws⟩ := (hs.sockets _ _).mp hget
        exact absurd hws (hkeeps.resolve_left hc other hother)
    rw [hstep] at hbasic ⊢
    refine { hs with
      toBasic := hbasic
      sockets := fun ws client ↦ ?_
      lives := fun client ↦ ?_ }
    · refine Iff.trans ?_ (hs.sockets ws client)
      grind [JsMap.get_delete]
    · refine (hlives client).trans (Iff.trans ?_ (hs.lives client))
      grind [lives]

theorem not_coherent_removeClient (hs : Inv order none s) (h : ¬Keeps order s (.removeClient c)) :
    ¬Coherent order (s.step order (.removeClient c)) := by
  intro hcoherent
  obtain ⟨hc, h⟩ := not_or.mp h
  simp only [not_forall, not_not] at h
  obtain ⟨other, hother, hws⟩ := h
  have hbasic := basic_step order hs.toBasic (.removeClient c)
  obtain ⟨lifetimes, hstep, -⟩ := removeClient_inactive hc
  replace hstep : s.step order (.removeClient c) = _ := hstep
  rw [hstep] at hcoherent hbasic
  have hmem := (JsMap.mem_iff_get hbasic.clients).mp ((hcoherent.sockets c.ws other).mpr ⟨hother, hws⟩)
  grind [JsMap.get_delete]

/-! ### The rest -/

theorem foldl_abort_lifetimes (reason : JsString) (clients : List WsClientState) : ∀ {s : ConnectionRegistry},
    (clients.foldl (fun t client ↦ t.abort client reason) s).lifetimes.get d = some none ↔
      s.lifetimes.get d = some none ∧ d ∉ clients := by
  induction clients with
  | nil => grind
  | cons client rest ih =>
    grind [abort_lifetimes]

theorem Inv.closeAll (hs : Inv order none s) (code : ℕ) (reason : JsString) :
    Inv order none (s.step order (.closeAll code reason)) := by
  have hnobody (client) : ¬(s.closeAll code reason).Active client := fun h ↦ nomatch active_iff.mp h
  refine { basic_step order hs.toBasic (.closeAll code reason) with
    sockets := fun ws client ↦ iff_of_false nofun fun h ↦ hnobody client h.1
    userEntries := fun userId client ↦ iff_of_false nofun fun h ↦ hnobody client h.1
    primaryActive := fun _ _ h ↦ nomatch h
    least := fun _ _ h ↦ nomatch h
    lives := fun client ↦ ?_ }
  refine iff_of_false (fun hlive ↦ ?_) fun h ↦ hnobody client (h.resolve_right nofun)
  obtain ⟨hlive, hout⟩ := (foldl_abort_lifetimes _ _).mp hlive
  have hactive := ((hs.lives client).mp hlive).resolve_right nofun
  exact hout (List.mem_map.mpr ⟨(client.ws, client), JsMap.mem_of_get ((hs.sockets _ _).mpr ⟨hactive, rfl⟩), rfl⟩)

theorem Inv.pickPrimary (hs : Inv order none s) (callerId : JsString) :
    Inv order none (s.step order (.pickPrimary callerId)) := by
  have hbasic := basic_step order hs.toBasic (.pickPrimary callerId)
  obtain ⟨hpicks, primaries, heq, -, hget⟩ := pickPrimary_spec order callerId hs.toBasic
    (fun _ hget ↦ (hs.primaryActive _ _ hget).2) fun primary hget _ ↦ hs.least callerId primary hget
  have hstep : s.step order (.pickPrimary callerId) = { s with primaryConnections := primaries } := heq
  rw [hstep] at hbasic ⊢
  refine { hs with toBasic := hbasic, primaryActive := fun a primary h ↦ ?_, least := fun a primary h ↦ ?_ }
  · replace h := (hget a).symm.trans h
    split_ifs at h with ha
    · rw [h] at hpicks
      exact ⟨hpicks.1.1, hpicks.1.2.1.trans ha.symm⟩
    · exact hs.primaryActive a primary h
  · replace h := (hget a).symm.trans h
    split_ifs at h with ha
    · rw [h] at hpicks
      exact fun _ ↦ ha ▸ hpicks.2
    · exact hs.least a primary h

/-- While the primary that is remembered comes too late, it is still the answer. -/
theorem not_coherent_readyState (hs : Inv order none s) {ws : ℕ} {isOpen : Bool}
    (h : ¬Keeps order s (.readyState ws isOpen)) : ¬Coherent order (s.step order (.readyState ws isOpen)) := by
  intro hcoherent
  simp only [Keeps, not_forall] at h
  obtain ⟨callerId, primary, hget, hopen, client, hclient, hcaller, hopen', hlater⟩ := h
  obtain ⟨hactive, rfl⟩ := hs.primaryActive _ _ hget
  have hpicks := hcoherent.picks primary.callerId
  have hcached : (s.step order (.readyState ws isOpen)).pickPrimary order primary.callerId =
      (some primary, s.step order (.readyState ws isOpen)) := by
    have hvalid : (s.primaryConnections.get primary.callerId).filter (fun cached ↦
        (s.setReadyState ws isOpen).isOpen cached && decide (s.callerConnections.getNested primary.callerId
          cached.connectionId = some cached)) = some primary := by
      rw [hget, Option.filter_some, if_pos]
      rw [hopen, Bool.true_and]
      exact hactive
    change (s.setReadyState ws isOpen).pickPrimary order primary.callerId = _
    unfold ConnectionRegistry.pickPrimary
    split
    · next cached hfound =>
      obtain rfl := Option.some.inj (hvalid.symm.trans hfound)
      rfl
    · next hnone => cases hvalid.symm.trans hnone
  rw [hcached] at hpicks
  exact hlater (hpicks.2 client hclient hcaller hopen')

theorem inv_empty : Inv order none empty := by
  have hnobody (client) : ¬empty.Active client := fun h ↦ nomatch active_iff.mp h
  exact { basic_empty with
    sockets := fun ws client ↦ iff_of_false nofun fun h ↦ hnobody client h.1
    userEntries := fun userId client ↦ iff_of_false nofun fun h ↦ hnobody client h.1
    primaryActive := fun _ _ h ↦ nomatch h
    least := fun _ _ h ↦ nomatch h
    lives := fun client ↦ iff_of_false nofun fun h ↦ hnobody client (h.resolve_right nofun) }

/-- **Exactly these events keep the registry coherent.** -/
theorem inv_step (hs : Inv order none s) (e : Event) :
    (Keeps order s e → Inv order none (s.step order e)) ∧ (Coherent order (s.step order e) → Keeps order s e) := by
  match e with
  | .addClient _ => grind [Inv.addClient, not_coherent_addClient]
  | .removeClient _ => grind [Inv.removeClient, not_coherent_removeClient]
  | .setBridge _ _ _ _ => exact ⟨fun _ ↦ { hs with }, fun _ ↦ trivial⟩
  | .pickPrimary callerId => exact ⟨fun _ ↦ hs.pickPrimary callerId, fun _ ↦ trivial⟩
  | .closeAll code reason => exact ⟨fun _ ↦ hs.closeAll code reason, fun _ ↦ trivial⟩
  | .readyState ws isOpen =>
    refine ⟨fun hkeeps ↦ { hs with least := hkeeps }, fun h ↦ ?_⟩
    grind [not_coherent_readyState]

/-! ### Bridges -/

theorem bridged_enter : (s.enter order c).Bridged callerId connectionId ↔ s.Bridged callerId connectionId := by
  obtain ⟨primaries, heq, -, -⟩ := enter_eq order s c
  rw [heq]
  rfl

theorem active_enter : (s.enter order c).Active d ↔
    if d.callerId = c.callerId ∧ d.connectionId = c.connectionId then c = d else s.Active d := by
  obtain ⟨primaries, heq, -, -⟩ := enter_eq order s c
  rw [heq, active_iff, active_iff (s := s)]
  change (s.callerConnections.setNested c.callerId c.connectionId c).getNested _ _ = _ ↔ _
  grind [JsMap.getNested_setNested]

theorem bridged_removeClient (h : (s.removeClient c).1.Bridged callerId connectionId) :
    s.Bridged callerId connectionId := by
  by_cases hc : s.Active c
  · exact ((retired_removeClient hc).bridged _ _ h).1
  · obtain ⟨lifetimes, hremoved, -⟩ := removeClient_inactive hc
    rw [hremoved] at h
    exact h

theorem bridges_addClient (hs : s.Basic) :
    (∀ callerId connectionId, (s.step order (.addClient c)).Bridged callerId connectionId →
      s.Bridged callerId connectionId) ∧
    (s.Active d → ¬(s.step order (.addClient c)).Active d →
      ¬(s.step order (.addClient c)).Bridged d.callerId d.connectionId) := by
  match hlifetime : s.lifetimes.get c with
  | some _ =>
    grind [addClient_throws]
  | none =>
    obtain ⟨replaced, hget, -, hstep⟩ | ⟨hsame, hstep⟩ := step_addClient order hlifetime
    · rw [hstep]
      obtain ⟨hcaller, hconnection⟩ := hs.own _ _ _ hget
      have hactive : Active { s with lifetimes := s.lifetimes.set c none } replaced := hs.active hget
      have hretired := retired_removeClient hactive
      refine ⟨fun _ _ h ↦ ((hretired.bridged _ _ (bridged_enter.mp h)).1 : s.Bridged _ _), fun hd hgone h ↦ ?_⟩
      -- the client that is gone is the one that was replaced
      have hd' : d = replaced := by
        by_contra hne
        refine hgone (active_enter.mpr ?_)
        rw [if_neg fun hkeys ↦ hne (active_unique hd (hs.active hget) (hkeys.1.trans hcaller.symm)
          (hkeys.2.trans hconnection.symm))]
        exact (hretired.active hactive).mpr ⟨hd, hne⟩
      subst hd'
      exact (hretired.bridged _ _ (bridged_enter.mp h)).2 ⟨rfl, rfl⟩
    · rw [hstep]
      refine ⟨fun _ _ h ↦ bridged_enter (s := { s with lifetimes := s.lifetimes.set c none }).mp h, fun hd hgone ↦
        absurd (active_enter.mpr ?_) hgone⟩
      grind [active_iff]

/-- Only `setBridge` sets a bridge. -/
theorem bridged_step (hs : s.Basic) (e : Event)
    (hset : ∀ bridge transport, e ≠ .setBridge callerId connectionId bridge transport)
    (h : (s.step order e).Bridged callerId connectionId) : s.Bridged callerId connectionId := by
  match e with
  | .addClient c => exact (bridges_addClient (d := c) hs).1 _ _ h
  | .removeClient c => exact bridged_removeClient h
  | .setBridge callerId' connectionId' bridge transport =>
    change (s.setBridge callerId' connectionId' bridge transport).Bridged _ _ at h
    grind [Bridged, setBridge, JsMap.getNested_setNested]
  | .pickPrimary callerId' =>
    obtain ⟨primaries, heq, -⟩ := pickPrimary_eq order s callerId'
    change (s.pickPrimary order callerId').2.Bridged _ _ at h
    rw [heq] at h
    exact h
  | .closeAll _ _ => exact absurd h fun h ↦ h.elim (fun h ↦ h rfl) fun h ↦ h rfl
  | .readyState _ _ => exact h

/-- With a client goes its bridge. -/
theorem bridge_gone (hs : s.Basic) (e : Event) (hactive : s.Active d) (hgone : ¬(s.step order e).Active d) :
    ¬(s.step order e).Bridged d.callerId d.connectionId := by
  match e with
  | .addClient _ => exact (bridges_addClient hs).2 hactive hgone
  | .removeClient c =>
    by_cases hc : s.Active c
    · have hretired := retired_removeClient hc
      have hd : d = c := not_not.mp fun hne ↦ hgone ((hretired.active hc).mpr ⟨hactive, hne⟩)
      subst hd
      exact fun h ↦ (hretired.bridged _ _ h).2 ⟨rfl, rfl⟩
    · obtain ⟨lifetimes, hremoved, -⟩ := removeClient_inactive hc
      change ¬(s.removeClient c).1.Active d at hgone
      rw [hremoved] at hgone
      exact absurd hactive hgone
  | .setBridge _ _ _ _ => exact absurd hactive hgone
  | .pickPrimary callerId' =>
    obtain ⟨primaries, heq, -⟩ := pickPrimary_eq order s callerId'
    change ¬(s.pickPrimary order callerId').2.Active d at hgone
    rw [heq] at hgone
    exact absurd hactive hgone
  | .closeAll _ _ => exact fun h ↦ h.elim (fun h ↦ h rfl) fun h ↦ h rfl
  | .readyState _ _ => exact absurd hactive hgone

end

/-! ## Runs -/

section
variable {order : LocaleOrder} {events : List Event}

/-- After a client has gone, no bridge is set for its connection id until someone sets one again. -/
def BridgesGone (order : LocaleOrder) (events : List Event) : Prop :=
  ∀ before e after client, before ++ e :: after = events → (run order before).Active client →
    ¬(run order (before ++ [e])).Active client →
    (∀ bridge transport, .setBridge client.callerId client.connectionId bridge transport ∉ after) →
    ¬(run order events).Bridged client.callerId client.connectionId

variable (order) in
theorem run_concat (events : List Event) (e : Event) : run order (events ++ [e]) = (run order events).step order e :=
  List.foldl_concat ..

theorem basic_run (events : List Event) : (run order events).Basic := by
  induction events using List.reverseRecOn with
  | nil => exact basic_empty
  | append_singleton events e ih =>
    rw [run_concat]
    exact basic_step order ih e

theorem bridgesGone (events : List Event) : BridgesGone order events := by
  rintro before e after client rfl hactive hgone
  have hstep := bridge_gone (basic_run before) e hactive (run_concat order before e ▸ hgone)
  -- what comes after sets no bridge
  induction after using List.reverseRecOn with
  | nil =>
    intro _
    rw [run_concat]
    exact hstep
  | append_singleton after last ih =>
    grind [run_concat, bridged_step, basic_run]

theorem inv_run (h : ∀ before e, before ++ [e] <+: events → Keeps order (run order before) e) :
    Inv order none (run order events) := by
  induction events using List.reverseRecOn with
  | nil => exact inv_empty
  | append_singleton events e ih =>
    grind [run_concat, inv_step]

theorem keeps_of_coherent (h : ∀ before, before <+: events → Coherent order (run order before)) :
    ∀ before e, before ++ [e] <+: events → Keeps order (run order before) e := by
  induction events using List.reverseRecOn with
  | nil => grind
  | append_singleton events last ih =>
    grind [List.prefix_concat_iff, List.append_inj', inv_step, inv_run, run_concat]

/-- **The indexes and the primaries are right in every state exactly when every event leaves them so**: bridges go with
their clients in any case. -/
theorem registry_coherent_iff (order : LocaleOrder) (events : List Event) :
    ((∀ before, before <+: events → Coherent order (run order before)) ∧
      ∀ before, before <+: events → BridgesGone order before) ↔
    ∀ before e, before ++ [e] <+: events → Keeps order (run order before) e := by
  constructor
  · exact fun h ↦ keeps_of_coherent h.1
  · refine fun h ↦ ⟨fun before hle ↦ ?_, fun before _ ↦ bridgesGone before⟩
    exact (inv_run fun before' e hle' ↦ h before' e (hle'.trans hle)).coherent

/-- An order of strings by their first characters. -/
def firstUnit : LocaleOrder where
  compare a b := ((a.headD 0).toNat : ℤ) - (b.headD 0).toNat
  swap _ _ := by omega
  trans _ _ _ := by omega

def client (id ws : ℕ) (connectionId : String) : WsClientState := ⟨id, ws, lit "shell", lit connectionId, lit "user", id⟩

/-- Two clients are admitted on one channel: both are active, and the channel leads to the second. -/
theorem registry_incoherent : ¬Coherent firstUnit
    (run firstUnit [.readyState 0 true, .addClient (client 0 0 "a"), .addClient (client 1 0 "b")]) := by
  intro h
  have hactive : (run firstUnit [.readyState 0 true, .addClient (client 0 0 "a"),
      .addClient (client 1 0 "b")]).Active (client 0 0 "a") := by
    unfold Active
    decide +kernel
  have hmem := (h.sockets 0 (client 0 0 "a")).mpr ⟨hactive, rfl⟩
  revert hmem
  decide +kernel

/-- A client is admitted with its channel still closed, and its channel opens: the primary is still the other one. -/
example : ¬Coherent firstUnit
    (run firstUnit [.readyState 1 true, .addClient (client 1 1 "b"), .addClient (client 0 0 "a"),
      .pickPrimary (lit "shell"), .readyState 0 true]) := by
  intro h
  have hpicks := h.picks (lit "shell")
  have hprimary : ((run firstUnit [.readyState 1 true, .addClient (client 1 1 "b"), .addClient (client 0 0 "a"),
      .pickPrimary (lit "shell"), .readyState 0 true]).pickPrimary firstUnit (lit "shell")).1 =
        some (client 1 1 "b") := by decide +kernel
  rw [hprimary] at hpicks
  have hleast := hpicks.2 (client 0 0 "a") (by unfold Active; decide +kernel) rfl (by decide +kernel)
  revert hleast
  decide +kernel

end

end ConnectionRegistry

end Vibestudio.Server.Connections

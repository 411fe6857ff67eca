import Mathlib
import Vibestudio.Js.Map
import Vibestudio.Js.Text
import Vibestudio.Transition.Run

/-!
# The session registry of the RPC server

`src/server/rpcServer/sessionRegistry.ts`: what the server keeps for a caller between its connections. A session
counts the live connections of its caller, queues envelopes for it and has a dirty flag for the case that the
queue overflowed. The flag is what `markConnected` reports to the new connection; `irohRecoveryKind` makes a cold
recovery of it.

When the last connection is gone an expiry timer is armed, which deletes the session. How long it takes is data
only: an armed timer may fire at any moment. A run also keeps what `enqueue` has accepted for each caller since
its queue was last taken or cleared, and who was connected before.
-/

namespace Vibestudio.Server.Sessions

open Js Transition

inductive CallerKind where
  | panel | client | shell | server | worker | do_ | extension | agent
  deriving DecidableEq

structure RelayCallContext where
  callerId : JsString
  connectionId : JsString
  deriving DecidableEq

/-- `ε` is the type of envelopes. -/
structure CallerSession (ε : Type) where
  callerKind : CallerKind
  liveConnectionCount : ℕ
  dirty : Bool
  /-- The delay in milliseconds, while a timer is armed. -/
  expireTimer : Option ℕ
  inbox : List ε
  pendingResponses : JsMap JsString RelayCallContext
  deriving DecidableEq

def CallerSession.new {ε : Type} (callerKind : CallerKind) : CallerSession ε :=
  ⟨callerKind, 0, false, none, [], []⟩

def DEFAULT_TTL_MS : CallerKind → ℕ
  | .panel => 5 * 60000
  | .client => 15 * 60000
  | .shell => 15 * 60000
  | .server => 30 * 60000
  | .worker => 5 * 60000
  | .do_ => 5 * 60000
  | .extension => 15 * 60000
  | .agent => 15 * 60000

structure SessionRegistryOptions where
  inboxCapacity : Option ℕ
  ttlMs : CallerKind → Option ℕ

def SessionRegistryOptions.capacity (options : SessionRegistryOptions) : ℕ := options.inboxCapacity.getD 256

def SessionRegistryOptions.ttl (options : SessionRegistryOptions) (kind : CallerKind) : ℕ :=
  (options.ttlMs kind).getD (DEFAULT_TTL_MS kind)

abbrev SessionRegistry (ε : Type) := JsMap JsString (CallerSession ε)

section Operations

variable {ε : Type} (options : SessionRegistryOptions) (sessions : SessionRegistry ε) (callerId : JsString)

def hasSession : Bool := (sessions.get callerId).isSome

/-- The session of the caller, with its kind brought up to date. -/
def getOrCreate (callerKind : CallerKind) : CallerSession ε :=
  match sessions.get callerId with
  | none => .new callerKind
  | some session => { session with callerKind := callerKind }

def markConnected (callerKind : CallerKind) : SessionRegistry ε × Bool :=
  let session := getOrCreate sessions callerId callerKind
  (sessions.set callerId
    { session with expireTimer := none, liveConnectionCount := session.liveConnectionCount + 1 },
    session.dirty)

def markDisconnected (callerKind : CallerKind) : SessionRegistry ε :=
  let session := getOrCreate sessions callerId callerKind
  let count := session.liveConnectionCount - 1
  if 0 < count then sessions.set callerId { session with liveConnectionCount := count }
  else sessions.set callerId
    { session with liveConnectionCount := count, expireTimer := some (options.ttl callerKind) }

/-- The callback of the expiry timer, with the kind that `onSessionExpire` is told. There is none without a timer;
a timer that finds its caller connected changes nothing. -/
def expire : Option (SessionRegistry ε × Option CallerKind) :=
  match sessions.get callerId with
  | none => none
  | some session =>
    if session.expireTimer = none then none
    else if 0 < session.liveConnectionCount then
      some (sessions.set callerId { session with expireTimer := none }, none)
    else some (sessions.delete callerId, some session.callerKind)

def enqueue (envelope : ε) : SessionRegistry ε × Bool :=
  match sessions.get callerId with
  | none => (sessions, false)
  | some session =>
    if options.capacity ≤ session.inbox.length then
      (sessions.set callerId { session with inbox := session.inbox.tail, dirty := true }, false)
    else (sessions.set callerId { session with inbox := session.inbox ++ [envelope] }, true)

def takeInbox : SessionRegistry ε × List ε :=
  match sessions.get callerId with
  | none => (sessions, [])
  | some session => (sessions.set callerId { session with inbox := [] }, session.inbox)

def clearInbox : SessionRegistry ε :=
  match sessions.get callerId with
  | none => sessions
  | some session => sessions.set callerId { session with inbox := [], dirty := false }

def recordPendingResponse (callerKind : CallerKind) (requestId : JsString) (origin : RelayCallContext) :
    SessionRegistry ε :=
  let session := getOrCreate sessions callerId callerKind
  sessions.set callerId { session with pendingResponses := session.pendingResponses.set requestId origin }

def takePendingResponse (requestId : JsString) : SessionRegistry ε × Option RelayCallContext :=
  match sessions.get callerId with
  | none => (sessions, none)
  | some session =>
    match session.pendingResponses.get requestId with
    | none => (sessions, none)
    | some origin =>
      (sessions.set callerId { session with pendingResponses := session.pendingResponses.delete requestId },
        some origin)

/-- What is queued for a caller. -/
def inbox : List ε := (sessions.get callerId).elim [] CallerSession.inbox

end Operations

/-! ## Runs -/

/-- The registry and what its callers have seen of it. -/
structure Watched (ε : Type) where
  sessions : SessionRegistry ε
  /-- The envelopes that `enqueue` returned `true` for since `takeInbox` or `clearInbox`, in this order. -/
  accepted : JsString → List ε
  connectedBefore : JsString → Bool

def Watched.init {ε : Type} : Watched ε := ⟨[], fun _ ↦ [], fun _ ↦ false⟩

inductive Op (ε : Type) where
  | markConnected (callerId : JsString) (callerKind : CallerKind)
  | markDisconnected (callerId : JsString) (callerKind : CallerKind)
  | expire (callerId : JsString)
  | enqueue (callerId : JsString) (envelope : ε)
  | takeInbox (callerId : JsString)
  | clearInbox (callerId : JsString)
  | recordPendingResponse (callerId : JsString) (callerKind : CallerKind) (requestId : JsString)
      (origin : RelayCallContext)
  | takePendingResponse (callerId requestId : JsString)

section Runs

variable {ε : Type} (options : SessionRegistryOptions)

def step (s : Watched ε) : Op ε → Option (Watched ε)
  | .markConnected c kind => some
      { s with
        sessions := (markConnected s.sessions c kind).1
        connectedBefore := Function.update s.connectedBefore c true }
  | .markDisconnected c kind => some { s with sessions := markDisconnected options s.sessions c kind }
  | .expire c => (expire s.sessions c).map fun r ↦ { s with sessions := r.1 }
  | .enqueue c envelope =>
    let r := enqueue options s.sessions c envelope
    some { s with
      sessions := r.1
      accepted := if r.2 then Function.update s.accepted c (s.accepted c ++ [envelope]) else s.accepted }
  | .takeInbox c => some
      { s with sessions := (takeInbox s.sessions c).1, accepted := Function.update s.accepted c [] }
  | .clearInbox c => some
      { s with sessions := clearInbox s.sessions c, accepted := Function.update s.accepted c [] }
  | .recordPendingResponse c kind requestId origin => some
      { s with sessions := recordPendingResponse s.sessions c kind requestId origin }
  | .takePendingResponse c requestId => some { s with sessions := (takePendingResponse s.sessions c requestId).1 }

/-- A timer only fires for a caller that nothing was accepted for. -/
def expiresNothing (s : Watched ε) : Op ε → Bool
  | .expire c => (s.accepted c).isEmpty
  | _ => true

/-- A caller that was connected before and is told that its session is not dirty finds in its inbox what was
accepted for it, in this order and nothing else. -/
def Watched.LossReported (s : Watched ε) (callerId : JsString) : Prop :=
  s.connectedBefore callerId = true → ∀ kind, (markConnected s.sessions callerId kind).2 = false →
    inbox (markConnected s.sessions callerId kind).1 callerId = s.accepted callerId

/-! ## The invariant -/

/-- A session that is not dirty holds what was accepted. -/
def Keeps (sessions : SessionRegistry ε) (callerId : JsString) (accepted : List ε) : Prop :=
  ∀ kind, (getOrCreate sessions callerId kind).dirty = false →
    (getOrCreate sessions callerId kind).inbox = accepted

variable {sessions : SessionRegistry ε} {c c' : JsString} {l : List ε}

theorem getOrCreate_set (session : CallerSession ε) (kind : CallerKind) :
    getOrCreate (sessions.set c session) c' kind =
      if c' = c then { session with callerKind := kind } else getOrCreate sessions c' kind := by
  unfold getOrCreate
  rw [JsMap.get_set]
  split_ifs with h
  · rfl
  · rfl

theorem getOrCreate_of_get {session : CallerSession ε} (h : sessions.get c = some session) (kind : CallerKind) :
    getOrCreate sessions c kind = { session with callerKind := kind } := by
  rw [getOrCreate, h]

/-- Writing a session is seen by its caller only. -/
theorem Keeps.set {session : CallerSession ε} (h : c' ≠ c → Keeps sessions c' l)
    (hc : c' = c → session.dirty = false → session.inbox = l) : Keeps (sessions.set c session) c' l := by
  intro kind
  rw [getOrCreate_set]
  split_ifs with hcc
  · exact hc hcc
  · exact h hcc kind

/-- A write that keeps the queue and the flag. -/
theorem Keeps.set_same {session : CallerSession ε} (kind : CallerKind) (h : Keeps sessions c' l)
    (hd : session.dirty = (getOrCreate sessions c kind).dirty)
    (hi : session.inbox = (getOrCreate sessions c kind).inbox) : Keeps (sessions.set c session) c' l := by
  apply Keeps.set fun _ ↦ h
  rintro rfl hdirty
  rw [hi]
  exact h kind (hd ▸ hdirty)

theorem Keeps.delete (h : c' ≠ c → Keeps sessions c' l) (hc : c' = c → l = []) :
    Keeps (sessions.delete c) c' l := by
  intro kind
  by_cases hcc : c' = c
  · have hnone : (sessions.delete c).get c' = none := by rw [JsMap.get_delete, if_pos hcc]
    rw [getOrCreate, hnone, hc hcc]
    exact fun _ ↦ rfl
  · have hget : (sessions.delete c).get c' = sessions.get c' := by rw [JsMap.get_delete, if_neg hcc]
    rw [getOrCreate, hget]
    exact h hcc kind

theorem markConnected_keeps (h : Keeps sessions c' l) (kind : CallerKind) :
    Keeps (markConnected sessions c kind).1 c' l :=
  Keeps.set_same kind h rfl rfl

theorem markDisconnected_keeps (h : Keeps sessions c' l) (kind : CallerKind) :
    Keeps (markDisconnected options sessions c kind) c' l := by
  unfold markDisconnected
  dsimp only
  split_ifs
  · exact Keeps.set_same kind h rfl rfl
  · exact Keeps.set_same kind h rfl rfl

/-- What the timer leaves: only a session that is deleted can lose anything. -/
theorem expire_keeps {r : SessionRegistry ε × Option CallerKind} (h : Keeps sessions c' l)
    (hc : c' = c → l = []) (hr : expire sessions c = some r) : Keeps r.1 c' l := by
  unfold expire at hr
  split at hr
  · exact absurd hr (by simp)
  · rename_i session hs
    split_ifs at hr
    · obtain rfl := Option.some.inj hr
      have hg := getOrCreate_of_get hs session.callerKind
      exact Keeps.set_same session.callerKind h (by rw [hg]) (by rw [hg])
    · obtain rfl := Option.some.inj hr
      exact Keeps.delete (fun _ ↦ h) hc

theorem enqueue_keeps (h : Keeps sessions c l) (envelope : ε) :
    Keeps (enqueue options sessions c envelope).1 c
      (if (enqueue options sessions c envelope).2 then l ++ [envelope] else l) := by
  cases hs : sessions.get c with
  | none =>
    have he : enqueue options sessions c envelope = (sessions, false) := by rw [enqueue, hs]
    rw [he]
    exact h
  | some session =>
    by_cases hfull : options.capacity ≤ session.inbox.length
    · -- The queue is full: an envelope is dropped, and the flag says so.
      have he : enqueue options sessions c envelope =
          (sessions.set c { session with inbox := session.inbox.tail, dirty := true }, false) := by
        simp [enqueue, hs, hfull]
      rw [he]
      exact Keeps.set (absurd rfl) fun _ hdirty ↦ absurd hdirty (by simp)
    · have he : enqueue options sessions c envelope =
          (sessions.set c { session with inbox := session.inbox ++ [envelope] }, true) := by
        simp [enqueue, hs, hfull]
      have hl := h session.callerKind
      rw [getOrCreate_of_get hs] at hl
      rw [he, if_pos rfl]
      apply Keeps.set (absurd rfl)
      intro _ hdirty
      rw [← hl hdirty]

theorem enqueue_keeps_of_ne (h : Keeps sessions c' l) (hc : c' ≠ c) (envelope : ε) :
    Keeps (enqueue options sessions c envelope).1 c' l := by
  unfold enqueue
  split
  · exact h
  · split_ifs
    · exact Keeps.set (fun _ ↦ h) fun hcc ↦ absurd hcc hc
    · exact Keeps.set (fun _ ↦ h) fun hcc ↦ absurd hcc hc

theorem takeInbox_keeps (h : Keeps sessions c' l) :
    Keeps (takeInbox sessions c).1 c' (if c' = c then [] else l) := by
  unfold takeInbox
  split
  · rename_i hs
    intro kind
    split_ifs with hcc
    · subst hcc
      rw [getOrCreate, hs]
      exact fun _ ↦ rfl
    · exact h kind
  · exact Keeps.set (fun hcc ↦ by simpa [hcc] using h) fun hcc _ ↦ by simp [hcc]

theorem clearInbox_keeps (h : Keeps sessions c' l) :
    Keeps (clearInbox sessions c) c' (if c' = c then [] else l) := by
  unfold clearInbox
  split
  · rename_i hs
    intro kind
    split_ifs with hcc
    · subst hcc
      rw [getOrCreate, hs]
      exact fun _ ↦ rfl
    · exact h kind
  · exact Keeps.set (fun hcc ↦ by simpa [hcc] using h) fun hcc _ ↦ by simp [hcc]

theorem takePendingResponse_keeps (h : Keeps sessions c' l) (requestId : JsString) :
    Keeps (takePendingResponse sessions c requestId).1 c' l := by
  unfold takePendingResponse
  split
  · exact h
  · rename_i session hs
    split
    · exact h
    · have hg := getOrCreate_of_get hs session.callerKind
      exact Keeps.set_same session.callerKind h (by rw [hg]) (by rw [hg])

/-- **One step.** Only an expiry can lose what was accepted. -/
theorem step_keeps {s s' : Watched ε} {op : Op ε} (h : ∀ c, Keeps s.sessions c (s.accepted c))
    (hok : expiresNothing s op = true) (hs : step options s op = some s') (c : JsString) :
    Keeps s'.sessions c (s'.accepted c) := by
  cases op <;> simp only [step, Option.some.injEq, Option.map_eq_some_iff] at hs
  case markConnected d kind => exact hs ▸ markConnected_keeps (h c) kind
  case markDisconnected d kind => exact hs ▸ markDisconnected_keeps options (h c) kind
  case expire d =>
    obtain ⟨r, hr, rfl⟩ := hs
    apply expire_keeps (h c) _ hr
    rintro rfl
    simpa [expiresNothing] using hok
  case enqueue d envelope =>
    subst hs
    by_cases hcd : c = d
    · subst hcd
      have he := enqueue_keeps options (h c) envelope
      split_ifs at he ⊢ with hr
      · simpa [hr] using he
      · simpa [hr] using he
    · have he := enqueue_keeps_of_ne options (h c) hcd envelope
      split_ifs with hr
      · simpa [hr, hcd] using he
      · simpa [hr] using he
  case takeInbox d =>
    subst hs
    have he := takeInbox_keeps (c := d) (h c)
    by_cases hcd : c = d
    · subst hcd
      simpa using he
    · simpa [hcd] using he
  case clearInbox d =>
    subst hs
    have he := clearInbox_keeps (c := d) (h c)
    by_cases hcd : c = d
    · subst hcd
      simpa using he
    · simpa [hcd] using he
  case recordPendingResponse d kind requestId origin => exact hs ▸ Keeps.set_same kind (h c) rfl rfl
  case takePendingResponse d requestId => exact hs ▸ takePendingResponse_keeps (h c) requestId

theorem keeps_of_reachable {s : Watched ε} (h : Reachable (step options) expiresNothing .init s) (c : JsString) :
    Keeps s.sessions c (s.accepted c) :=
  Reachable.invariant (I := fun s ↦ ∀ c, Keeps s.sessions c (s.accepted c))
    (fun _ _ _ ↦ rfl) (fun _ _ _ ih hok hs ↦ step_keeps options ih hok hs) h c

theorem inbox_markConnected (kind : CallerKind) :
    inbox (markConnected sessions c kind).1 c = (getOrCreate sessions c kind).inbox := by
  rw [inbox, markConnected, JsMap.get_set_self]
  rfl

theorem Keeps.lossReported {s : Watched ε} (h : Keeps s.sessions c (s.accepted c)) : s.LossReported c := by
  intro _ kind hdirty
  rw [inbox_markConnected]
  exact h kind hdirty

/-- **An inbox that is reported clean is complete** in every run in which no timer fires for a caller with
accepted envelopes. A timer that does fire for one loses them: the next connection is told that nothing
happened. -/
theorem loss_reported {s : Watched ε} (h : Reachable (step options) expiresNothing .init s) (callerId : JsString) :
    s.LossReported callerId ∧
      ∀ s', step options s (.expire callerId) = some s' → hasSession s'.sessions callerId = false →
        s.connectedBefore callerId = true →
        (s'.LossReported callerId ↔ expiresNothing s (.expire callerId) = true) := by
  refine ⟨(keeps_of_reachable options h callerId).lossReported, fun s' hs hgone hbefore ↦ ⟨?_, fun hok ↦ ?_⟩⟩
  · intro hr
    obtain ⟨r, -, rfl⟩ := Option.map_eq_some_iff.mp hs
    have hnone : JsMap.get callerId r.1 = none := by simpa [hasSession] using hgone
    have hnew : getOrCreate r.1 callerId .panel = .new .panel := by rw [getOrCreate, hnone]
    have hlost := hr hbefore .panel (by rw [markConnected]; dsimp only; rw [hnew]; rfl)
    rw [inbox_markConnected, hnew] at hlost
    rw [expiresNothing, ← show [] = s.accepted callerId from hlost]
    rfl
  · exact (keeps_of_reachable options (.step h hok hs) callerId).lossReported

/-! ## An expiry with a full inbox -/

/-- A panel disconnects, an envelope is queued for it, and its session expires. -/
def expiredWithInbox : List (Op ℕ) :=
  [.markConnected (lit "panel-b") .panel, .markDisconnected (lit "panel-b") .panel,
    .enqueue (lit "panel-b") 1, .expire (lit "panel-b")]

def defaultOptions : SessionRegistryOptions := ⟨none, fun _ ↦ none⟩

theorem not_always_loss_reported :
    ¬∀ s : Watched ℕ, Reachable (step defaultOptions) anyStep .init s → ∀ c, s.LossReported c := by
  intro h
  have hrun : ((run (step defaultOptions) anyStep .init expiredWithInbox).map fun s ↦ decide
      (s.connectedBefore (lit "panel-b") = true ∧ s.accepted (lit "panel-b") = [1] ∧
        (markConnected s.sessions (lit "panel-b") .panel).2 = false ∧
        inbox (markConnected s.sessions (lit "panel-b") .panel).1 (lit "panel-b") = [])) = some true := by
    decide +kernel
  obtain ⟨s, hs, hd⟩ := Option.map_eq_some_iff.mp hrun
  obtain ⟨hbefore, haccepted, hclean, hinbox⟩ := of_decide_eq_true hd
  have hlost := h s (Reachable.run .init hs) (lit "panel-b") hbefore .panel hclean
  rw [hinbox, haccepted] at hlost
  exact absurd hlost (by simp)

/-- The same panel takes its inbox before it leaves for good. -/
def expiredAfterTaking : List (Op ℕ) :=
  [.markConnected (lit "panel-b") .panel, .markDisconnected (lit "panel-b") .panel,
    .enqueue (lit "panel-b") 1, .markConnected (lit "panel-b") .panel, .takeInbox (lit "panel-b"),
    .markDisconnected (lit "panel-b") .panel, .expire (lit "panel-b")]

theorem loss_reported_of_expiredAfterTaking :
    ∃ s : Watched ℕ, run (step defaultOptions) expiresNothing .init expiredAfterTaking = some s ∧
      s.LossReported (lit "panel-b") := by
  have hrun : (run (step defaultOptions) expiresNothing .init expiredAfterTaking).isSome = true := by
    decide +kernel
  obtain ⟨s, hs⟩ := Option.isSome_iff_exists.mp hrun
  exact ⟨s, hs, (loss_reported defaultOptions (Reachable.run .init hs) (lit "panel-b")).1⟩

end Runs
end Vibestudio.Server.Sessions

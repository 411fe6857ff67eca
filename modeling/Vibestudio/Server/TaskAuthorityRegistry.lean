import Mathlib
import Vibestudio.ContentAddressing.Sha256
import Vibestudio.Js.Map
import Vibestudio.Js.Utf8
import Vibestudio.Server.ExecutionAdmission
import Vibestudio.Shared.CanonicalJson
import Vibestudio.Shared.EntityCache

/-!
# The task authority registry

`src/server/services/taskAuthorityRegistry.ts`: which runtimes belong to which task. A member is recorded by one of four
operations. Three of them look at what is recorded already, and the fourth, `bindExecution`, looks only at the agent it
records and never at the runtime it admits.

An operation is a function from the registry to what it returns or throws and the registry it leaves, so that what a
throw leaves behind can be read off. `executionIsActive` is the callback of the host with the answers it gives during
one operation, and `none` for a registry made without it.

The membership of an active runtime stays as it is until the runtime is admitted again (`get_members_run`), and
`resolveRuntime` returns it only for a live root (`resolveRuntime_eq_some`). Two operations can throw after they wrote:
`task_authority_registry` says what.
-/

namespace Vibestudio.Server

open Js ContentAddressing Shared

/-! ## Principals and bindings -/

structure TaskAuthorityBinding where
  workspaceId : JsString
  contextId : JsString
  channelId : JsString
  deriving DecidableEq

def TaskAuthorityBinding.json (binding : TaskAuthorityBinding) : JsData :=
  .obj [(lit "workspaceId", .leaf (.str binding.workspaceId)),
    (lit "contextId", .leaf (.str binding.contextId)),
    (lit "channelId", .leaf (.str binding.channelId))]

inductive TaskAuthorityError where
  | noTaskAuthority (runtimeId : JsString)
  | alreadyBound (runtimeId : JsString)
  | notItsBinding (authority : TaskGrantPrincipal)
  | otherCoordinates (authority : TaskGrantPrincipal)
  | emptyChannelId
  | notItsChannel
  | notActiveInContext
  | notOfChannel
  | canonicalJson (error : CanonicalJsonError)
  deriving DecidableEq

def TaskGrantPrincipal.text (authority : TaskGrantPrincipal) : JsString := lit "task:" ++ authority.digest

def TaskAuthorityError.message : TaskAuthorityError → JsString
  | .noTaskAuthority runtimeId => lit "Runtime " ++ runtimeId ++ lit " has no task authority"
  | .alreadyBound runtimeId => lit "Runtime " ++ runtimeId ++ lit " is already bound to another task authority"
  | .notItsBinding authority =>
    lit "Task authority " ++ authority.text ++ lit " does not match its authenticated binding"
  | .otherCoordinates authority =>
    lit "Task authority " ++ authority.text ++ lit " is already bound to different coordinates"
  | .emptyChannelId => lit "channel trajectory identity requires a non-empty channelId"
  | .notItsChannel => lit "Task origin causal coordinate does not match its agent channel"
  | .notActiveInContext => lit "Task origin is not an active entity in its bound context"
  | .notOfChannel => lit "Task authority does not belong to the bound agent channel"
  | .canonicalJson error => error.message

/-- The domain `vibestudio:task-authority:v1` and its NUL. -/
def taskAuthorityDomain : JsString := lit "vibestudio:task-authority:v1" ++ [0]

section

variable (nfc : Nfc)

/-- The JSON text of a binding, which is an object and so never `undefined`. -/
def TaskAuthorityBinding.canonical (binding : TaskAuthorityBinding) : Except TaskAuthorityError JsString :=
  match canonicalJson nfc binding.json with
  | .ok text => .ok (text.getD [])
  | .error error => .error (.canonicalJson error)

def taskAuthorityPrincipal (input : TaskAuthorityBinding) : Except TaskAuthorityError TaskGrantPrincipal :=
  (input.canonical nfc).map fun text ↦ ⟨sha256Hex (utf8Encode taskAuthorityDomain ++ utf8Encode text)⟩

end

structure ChannelTrajectoryCoordinates where
  logId : JsString
  head : JsString
  deriving DecidableEq

def channelTrajectoryFor (channelId : JsString) : Except TaskAuthorityError ChannelTrajectoryCoordinates :=
  if channelId = [] then .error .emptyChannelId else .ok ⟨channelId, lit "main"⟩

/-! ## The registry -/

structure TaskAuthorityRegistry where
  members : JsMap JsString TaskGrantPrincipal
  executionRoots : JsMap JsString TaskGrantPrincipal
  bindings : JsMap TaskGrantPrincipal TaskAuthorityBinding
  deriving DecidableEq

/-- The callback of the host. -/
abbrev ExecutionIsActive := Option (JsString → TaskGrantPrincipal → Bool)

/-- `!this.deps.executionIsActive || this.deps.executionIsActive(runtimeId, authority)`. -/
def ExecutionIsActive.answer (executionIsActive : ExecutionIsActive) (runtimeId : JsString)
    (authority : TaskGrantPrincipal) : Bool :=
  match executionIsActive with
  | none => true
  | some reported => reported runtimeId authority

/-- What of a caller is looked at. -/
structure TaskCaller where
  runtimeId : JsString
  sessionAuthority : Option TaskGrantPrincipal
  taskAuthority : Option TaskGrantPrincipal
  deriving DecidableEq

structure TaskAdmission where
  active : Bool
  mayCreateRoot : Bool
  deriving DecidableEq

/-- What an operation returns or throws, and the registry it leaves. -/
abbrev TaskOutcome := Except TaskAuthorityError (Option TaskGrantPrincipal) × TaskAuthorityRegistry

variable {A R : Type}

namespace TaskAuthorityRegistry

def init : TaskAuthorityRegistry := ⟨[], [], []⟩

/-- The guard of `bindExecution` and of `bindCausalOrigin`, and the entry under it. -/
def bindMember (s : TaskAuthorityRegistry) (id : JsString) (authority : TaskGrantPrincipal) :
    Except TaskAuthorityError TaskAuthorityRegistry :=
  if ∃ existing ∈ s.members.get id, existing ≠ authority then .error (.alreadyBound id)
  else .ok { s with members := s.members.set id authority }

/-- An agent binding without an entity id binds no agent. -/
def bindAgent (s : TaskAuthorityRegistry) (session : ExecutionAdmissionFact)
    (authority : TaskGrantPrincipal) : Except TaskAuthorityError TaskAuthorityRegistry :=
  match (session.agentBinding.map AgentBinding.entityId).filter (· ≠ []) with
  | none => .ok s
  | some agentId => s.bindMember agentId authority

def bindExecution (s : TaskAuthorityRegistry) (session : ExecutionAdmissionFact) : TaskOutcome :=
  match session.taskAuthority with
  | none => (.error (.noTaskAuthority session.executor.runtimeId), s)
  | some authority =>
    match s.bindAgent session authority with
    | .error error => (.error error, s)
    | .ok bound =>
      (.ok none, { bound with
        executionRoots := bound.executionRoots.set session.executor.runtimeId authority
        members := bound.members.set session.executor.runtimeId authority })

section

variable (nfc : Nfc)

def rememberBinding (s : TaskAuthorityRegistry) (authority : TaskGrantPrincipal)
    (binding : TaskAuthorityBinding) : Except TaskAuthorityError TaskAuthorityRegistry :=
  match s.bindings.get authority with
  | none => .ok { s with bindings := s.bindings.set authority binding }
  | some existing => do
    if (← existing.canonical nfc) ≠ (← binding.canonical nfc) then .error (.otherCoordinates authority)
    else .ok { s with bindings := s.bindings.set authority binding }

def bindPrincipal (s : TaskAuthorityRegistry) (authority : TaskGrantPrincipal)
    (binding : TaskAuthorityBinding) : Except TaskAuthorityError TaskAuthorityRegistry := do
  if (← taskAuthorityPrincipal nfc binding) ≠ authority then .error (.notItsBinding authority)
  else s.rememberBinding nfc authority binding

end

def bindCausalOrigin (s : TaskAuthorityRegistry) (authority : TaskGrantPrincipal)
    (entityId contextId channelId : JsString) (causalParent : ChannelTrajectoryCoordinates)
    (entities : EntityCache A R) : Except TaskAuthorityError TaskAuthorityRegistry := do
  if causalParent ≠ (← channelTrajectoryFor channelId) then .error .notItsChannel
  else if ¬∃ entity ∈ entities.resolveActive entityId, entity.contextId = contextId then
    .error .notActiveInContext
  else if ¬∃ binding ∈ s.bindings.get authority,
      binding.contextId = contextId ∧ binding.channelId = channelId then
    .error .notOfChannel
  else s.bindMember entityId authority

/-- The loop of `authorityIsActive` over the roots: the root it is at is deleted when it is reported inactive. -/
def searchRoots (executionIsActive : ExecutionIsActive) (authority : TaskGrantPrincipal) :
    JsMap JsString TaskGrantPrincipal → Bool × JsMap JsString TaskGrantPrincipal
  | [] => (false, [])
  | (runtimeId, rootAuthority) :: roots =>
    if rootAuthority ≠ authority then
      let found := searchRoots executionIsActive authority roots
      (found.1, (runtimeId, rootAuthority) :: found.2)
    else if executionIsActive.answer runtimeId authority then (true, (runtimeId, rootAuthority) :: roots)
    else searchRoots executionIsActive authority roots

def authorityIsActive (s : TaskAuthorityRegistry) (executionIsActive : ExecutionIsActive)
    (authority : TaskGrantPrincipal) : Bool × TaskAuthorityRegistry :=
  let found := searchRoots executionIsActive authority s.executionRoots
  (found.1, { s with executionRoots := found.2 })

def resolveRuntime (s : TaskAuthorityRegistry) (executionIsActive : ExecutionIsActive)
    (runtimeId : JsString) (entities : EntityCache A R) :
    Option TaskGrantPrincipal × TaskAuthorityRegistry :=
  match entities.resolveActive runtimeId with
  | none => (none, s)
  | some _ =>
    match s.members.get runtimeId with
    | none => (none, s)
    | some membership =>
      let found := s.authorityIsActive executionIsActive membership
      (if found.1 then some membership else none, found.2)

def resolveCaller (s : TaskAuthorityRegistry) (executionIsActive : ExecutionIsActive)
    (caller : TaskCaller) (entities : EntityCache A R) :
    Option TaskGrantPrincipal × TaskAuthorityRegistry :=
  match caller.sessionAuthority, caller.taskAuthority with
  | some authority, _ => (some authority, s)
  | none, some authority => (some authority, s)
  | none, none => s.resolveRuntime executionIsActive caller.runtimeId entities

def resolveCausalBinding (s : TaskAuthorityRegistry) (entityId channelId : JsString)
    (causalParent : ChannelTrajectoryCoordinates) (entities : EntityCache A R) :
    Except TaskAuthorityError (Option TaskGrantPrincipal) := do
  if causalParent ≠ (← channelTrajectoryFor channelId) then .ok none
  else if entities.resolveActive entityId = none then .ok none
  else .ok ((s.members.get entityId).filter fun membership ↦ (s.bindings.get membership).isSome)

def resolveInvocationAuthority (nfc : Nfc) (s : TaskAuthorityRegistry) (binding : TaskAuthorityBinding)
    (entityId : JsString) (causalParent : ChannelTrajectoryCoordinates) (entities : EntityCache A R)
    (admission : TaskAdmission) : TaskOutcome :=
  if ¬admission.active then (.ok none, s)
  else match s.resolveCausalBinding entityId binding.channelId causalParent entities with
  | .error error => (.error error, s)
  | .ok (some inherited) => (.ok (some inherited), s)
  | .ok none =>
    if ¬admission.mayCreateRoot then (.ok none, s)
    else match taskAuthorityPrincipal nfc binding with
    | .error error => (.error error, s)
    | .ok authority =>
      match s.bindPrincipal nfc authority binding with
      | .error error => (.error error, s)
      | .ok bound =>
        match bound.bindCausalOrigin authority entityId binding.contextId binding.channelId causalParent
            entities with
        -- the binding that `bindPrincipal` recorded stays
        | .error error => (.error error, bound)
        | .ok origin => (.ok (some authority), origin)

def inheritRuntime (s : TaskAuthorityRegistry) (executionIsActive : ExecutionIsActive)
    (runtimeId : JsString) (caller : TaskCaller) (entities : EntityCache A R) : TaskOutcome :=
  match s.resolveCaller executionIsActive caller entities with
  | (none, resolved) => (.ok none, resolved)
  | (some inherited, resolved) =>
    if (∃ existing ∈ resolved.members.get runtimeId, existing ≠ inherited) ∧
        (entities.resolveActive runtimeId).isSome then
      -- the roots that `resolveCaller` pruned stay pruned
      (.error (.alreadyBound runtimeId), resolved)
    else (.ok (some inherited), { resolved with members := resolved.members.set runtimeId inherited })

/-! ## What an operation does -/

variable {s s' : TaskAuthorityRegistry} {entities : EntityCache A R} {executionIsActive : ExecutionIsActive}
  {id runtimeId : JsString} {authority p : TaskGrantPrincipal}

theorem bindMember_eq_ok : s.bindMember id authority = .ok s' ↔
    (∀ existing ∈ s.members.get id, existing = authority) ∧
      s' = { s with members := s.members.set id authority } := by
  rw [bindMember]
  by_cases h : ∃ existing ∈ s.members.get id, existing ≠ authority
  · rw [if_pos h]
    refine ⟨fun h' ↦ (nomatch h'), fun ⟨hall, _⟩ ↦ ?_⟩
    obtain ⟨existing, hmem, hne⟩ := h
    exact absurd (hall existing hmem) hne
  · rw [if_neg h, Except.ok.injEq]
    push Not at h
    exact ⟨fun heq ↦ ⟨h, heq.symm⟩, fun ⟨_, heq⟩ ↦ heq.symm⟩

/-- A member that is recorded stays what it is. -/
theorem members_bindMember (h : s.bindMember id authority = .ok s') {x : JsString}
    (hx : s.members.get x = some p) : s'.members.get x = some p := by
  obtain ⟨hall, rfl⟩ := bindMember_eq_ok.mp h
  rw [JsMap.get_set]
  by_cases hid : x = id
  · subst hid
    rw [if_pos rfl, hall p hx]
  · rw [if_neg hid, hx]

theorem searchRoots_fst {roots : JsMap JsString TaskGrantPrincipal} :
    (searchRoots executionIsActive authority roots).1 = true ↔
      ∃ root, (root, authority) ∈ roots ∧ executionIsActive.answer root authority = true := by
  induction roots with
  | nil => simp [searchRoots]
  | cons entry roots ih =>
    obtain ⟨runtimeId, rootAuthority⟩ := entry
    rw [searchRoots]
    by_cases hroot : rootAuthority = authority
    · subst hroot
      rw [if_neg (not_not.mpr rfl)]
      by_cases hlive : executionIsActive.answer runtimeId rootAuthority = true
      · rw [if_pos hlive]
        exact iff_of_true rfl ⟨runtimeId, List.mem_cons_self, hlive⟩
      · rw [if_neg hlive, ih]
        refine exists_congr fun root ↦ and_congr_left fun hanswer ↦ ?_
        rw [List.mem_cons, Prod.mk.injEq, or_iff_right]
        rintro ⟨rfl, -⟩
        exact hlive hanswer
    · rw [if_pos hroot]
      change (searchRoots executionIsActive authority roots).1 = true ↔ _
      rw [ih]
      refine exists_congr fun root ↦ and_congr_left fun _ ↦ ?_
      rw [List.mem_cons, Prod.mk.injEq, or_iff_right]
      exact fun h ↦ hroot h.2.symm

/-- The roots a search leaves: it takes out only roots of the authority that are reported inactive. -/
structure Pruned (executionIsActive : ExecutionIsActive)
    (roots roots' : JsMap JsString TaskGrantPrincipal) : Prop where
  sublist : List.Sublist roots' roots
  inactive : ∀ entry ∈ roots, entry ∉ roots' → executionIsActive.answer entry.1 entry.2 = false

theorem Pruned.refl (roots : JsMap JsString TaskGrantPrincipal) : Pruned executionIsActive roots roots :=
  ⟨List.Sublist.refl _, fun _ hmem hnot ↦ absurd hmem hnot⟩

theorem searchRoots_pruned (roots : JsMap JsString TaskGrantPrincipal) :
    Pruned executionIsActive roots (searchRoots executionIsActive authority roots).2 := by
  induction roots with
  | nil => exact .refl _
  | cons entry roots ih =>
    obtain ⟨runtimeId, rootAuthority⟩ := entry
    rw [searchRoots]
    by_cases hroot : rootAuthority = authority
    · subst hroot
      rw [if_neg (not_not.mpr rfl)]
      by_cases hlive : executionIsActive.answer runtimeId rootAuthority = true
      · rw [if_pos hlive]
        exact .refl _
      · rw [if_neg hlive]
        refine ⟨ih.sublist.cons _, fun entry hmem hnot ↦ ?_⟩
        rcases List.mem_cons.mp hmem with rfl | hmem
        · exact Bool.eq_false_of_not_eq_true hlive
        · exact ih.inactive entry hmem hnot
    · rw [if_pos hroot]
      refine ⟨ih.sublist.cons_cons _, fun entry hmem hnot ↦ ?_⟩
      rcases List.mem_cons.mp hmem with rfl | hmem
      · exact absurd List.mem_cons_self hnot
      · exact ih.inactive entry hmem fun hin ↦ hnot (List.mem_cons_of_mem _ hin)

/-- **`resolveRuntime`.** A live runtime has the membership it is recorded with, for as long as a root of that task is
live. -/
theorem resolveRuntime_eq_some : (s.resolveRuntime executionIsActive id entities).1 = some p ↔
    (entities.resolveActive id).isSome = true ∧ s.members.get id = some p ∧
      ∃ root, (root, p) ∈ s.executionRoots ∧ executionIsActive.answer root p = true := by
  rw [resolveRuntime]
  cases entities.resolveActive id with
  | none => simp
  | some entity =>
    cases s.members.get id with
    | none => simp
    | some membership =>
      rw [← searchRoots_fst]
      change (if (searchRoots executionIsActive membership s.executionRoots).1 = true then some membership
        else none) = some p ↔ _
      rw [Option.ite_none_right_eq_some, Option.some.injEq, and_comm]
      simp only [Option.isSome_some, true_and]
      exact and_congr_right fun heq ↦ by rw [heq]

/-- A search for a runtime or a caller only prunes. -/
structure Searched (executionIsActive : ExecutionIsActive) (s s' : TaskAuthorityRegistry) : Prop where
  members : s'.members = s.members
  bindings : s'.bindings = s.bindings
  pruned : Pruned executionIsActive s.executionRoots s'.executionRoots

theorem Searched.refl (s : TaskAuthorityRegistry) : Searched executionIsActive s s := ⟨rfl, rfl, .refl _⟩

theorem resolveRuntime_searched (s : TaskAuthorityRegistry) (id : JsString) (entities : EntityCache A R) :
    Searched executionIsActive s (s.resolveRuntime executionIsActive id entities).2 := by
  rw [resolveRuntime]
  split
  · exact .refl s
  · split
    · exact .refl s
    · exact ⟨rfl, rfl, searchRoots_pruned _⟩

theorem resolveCaller_searched (s : TaskAuthorityRegistry) (caller : TaskCaller)
    (entities : EntityCache A R) :
    Searched executionIsActive s (s.resolveCaller executionIsActive caller entities).2 := by
  rw [resolveCaller]
  split
  · exact .refl s
  · exact .refl s
  · exact resolveRuntime_searched s _ entities

theorem rememberBinding_eq_ok {nfc : Nfc} {binding : TaskAuthorityBinding}
    (h : s.rememberBinding nfc authority binding = .ok s') :
    s' = { s with bindings := s.bindings.set authority binding } := by
  rw [rememberBinding] at h
  split at h
  · exact (Except.ok.inj h).symm
  · obtain ⟨before, -, h⟩ := Js.bind_eq_ok.mp h
    obtain ⟨after, -, h⟩ := Js.bind_eq_ok.mp h
    split_ifs at h
    exact (Except.ok.inj h).symm

theorem bindPrincipal_eq_ok {nfc : Nfc} {binding : TaskAuthorityBinding}
    (h : s.bindPrincipal nfc authority binding = .ok s') :
    taskAuthorityPrincipal nfc binding = .ok authority ∧
      s' = { s with bindings := s.bindings.set authority binding } := by
  obtain ⟨derived, hderived, h⟩ := Js.bind_eq_ok.mp h
  split_ifs at h with hne
  rw [not_not] at hne
  exact ⟨hne ▸ hderived, rememberBinding_eq_ok h⟩

theorem bindCausalOrigin_eq_ok {entityId contextId channelId : JsString}
    {causalParent : ChannelTrajectoryCoordinates}
    (h : s.bindCausalOrigin authority entityId contextId channelId causalParent entities = .ok s') :
    s.bindMember entityId authority = .ok s' := by
  obtain ⟨expected, -, h⟩ := Js.bind_eq_ok.mp h
  split_ifs at h
  exact h

/-! ## Operations -/

inductive TaskOperation where
  | bindExecution (session : ExecutionAdmissionFact)
  | bindPrincipal (authority : TaskGrantPrincipal) (binding : TaskAuthorityBinding)
  | bindCausalOrigin (authority : TaskGrantPrincipal) (entityId contextId channelId : JsString)
      (causalParent : ChannelTrajectoryCoordinates)
  | resolveRuntime (runtimeId : JsString)
  | resolveCausalBinding (entityId channelId : JsString) (causalParent : ChannelTrajectoryCoordinates)
  | resolveInvocationAuthority (binding : TaskAuthorityBinding) (entityId : JsString)
      (causalParent : ChannelTrajectoryCoordinates) (admission : TaskAdmission)
  | inheritRuntime (runtimeId : JsString) (caller : TaskCaller)

/-- An operation that writes at most once, at its end. -/
def settle (s : TaskAuthorityRegistry) : Except TaskAuthorityError TaskAuthorityRegistry → TaskOutcome
  | .ok s' => (.ok none, s')
  | .error error => (.error error, s)

def perform (nfc : Nfc) (executionIsActive : ExecutionIsActive) (entities : EntityCache A R)
    (s : TaskAuthorityRegistry) : TaskOperation → TaskOutcome
  | .bindExecution session => s.bindExecution session
  | .bindPrincipal authority binding => s.settle (s.bindPrincipal nfc authority binding)
  | .bindCausalOrigin authority entityId contextId channelId causalParent =>
    s.settle (s.bindCausalOrigin authority entityId contextId channelId causalParent entities)
  | .resolveRuntime runtimeId =>
    let resolved := s.resolveRuntime executionIsActive runtimeId entities
    (.ok resolved.1, resolved.2)
  | .resolveCausalBinding entityId channelId causalParent =>
    (s.resolveCausalBinding entityId channelId causalParent entities, s)
  | .resolveInvocationAuthority binding entityId causalParent admission =>
    s.resolveInvocationAuthority nfc binding entityId causalParent entities admission
  | .inheritRuntime runtimeId caller => s.inheritRuntime executionIsActive runtimeId caller entities

/-- The operation admits `id` as an execution root. -/
def TaskOperation.Admits (id : JsString) : TaskOperation → Prop
  | .bindExecution session => session.executor.runtimeId = id
  | _ => False

theorem bindAgent_eq_ok {session : ExecutionAdmissionFact} (h : s.bindAgent session authority = .ok s') :
    s' = s ∨ ∃ agentId, s.bindMember agentId authority = .ok s' := by
  rw [bindAgent] at h
  split at h
  · exact .inl (Except.ok.inj h).symm
  · exact .inr ⟨_, h⟩

/-- **What `bindExecution` does.** It throws and writes nothing, or binds the agent, if there is one, and the root. -/
theorem bindExecution_cases (s : TaskAuthorityRegistry) (session : ExecutionAdmissionFact) :
    (∃ error, s.bindExecution session = (.error error, s)) ∨
      ∃ authority bound, session.taskAuthority = some authority ∧
        s.bindAgent session authority = .ok bound ∧
        s.bindExecution session = (.ok none, { bound with
          executionRoots := bound.executionRoots.set session.executor.runtimeId authority
          members := bound.members.set session.executor.runtimeId authority }) := by
  rw [bindExecution]
  split
  · exact .inl ⟨_, rfl⟩
  · rename_i authority hauthority
    split
    · exact .inl ⟨_, rfl⟩
    · rename_i bound hbound
      exact .inr ⟨authority, bound, hauthority, hbound, rfl⟩

theorem members_bindExecution {session : ExecutionAdmissionFact}
    (hx : s.members.get id = some p) (hid : session.executor.runtimeId ≠ id) :
    (s.bindExecution session).2.members.get id = some p := by
  obtain ⟨error, heq⟩ | ⟨authority, bound, -, hbound, heq⟩ := bindExecution_cases s session
  · rw [heq]
    exact hx
  · rw [heq]
    change JsMap.get id (bound.members.set session.executor.runtimeId authority) = some p
    rw [JsMap.get_set_of_ne _ hid.symm]
    rcases bindAgent_eq_ok hbound with rfl | ⟨agentId, hbound⟩
    · exact hx
    · exact members_bindMember hbound hx

theorem members_settle {result : Except TaskAuthorityError TaskAuthorityRegistry}
    (hx : s.members.get id = some p)
    (hok : ∀ s', result = .ok s' → s'.members.get id = some p) :
    (s.settle result).2.members.get id = some p := by
  cases result with
  | error error => exact hx
  | ok s' => exact hok s' rfl

/-- What `resolveInvocationAuthority` leaves: the registry as it was, or with the binding of the authority it derives,
or with the member as well. -/
theorem resolveInvocationAuthority_cases {nfc : Nfc} {binding : TaskAuthorityBinding} {entityId : JsString}
    {causalParent : ChannelTrajectoryCoordinates} {admission : TaskAdmission} {outcome : TaskOutcome}
    (h : s.resolveInvocationAuthority nfc binding entityId causalParent entities admission = outcome) :
    outcome.2 = s ∨ ∃ authority, taskAuthorityPrincipal nfc binding = .ok authority ∧
      (outcome.2 = { s with bindings := s.bindings.set authority binding } ∨
        outcome.1 = .ok (some authority) ∧
          bindMember { s with bindings := s.bindings.set authority binding } entityId authority =
            .ok outcome.2) := by
  subst h
  rw [resolveInvocationAuthority]
  split
  · exact .inl rfl
  split
  · exact .inl rfl
  · exact .inl rfl
  split
  · exact .inl rfl
  split
  · exact .inl rfl
  rename_i authority hauthority
  split
  · exact .inl rfl
  rename_i bound hbound
  obtain ⟨-, rfl⟩ := bindPrincipal_eq_ok hbound
  refine .inr ⟨authority, hauthority, ?_⟩
  split
  · exact .inl rfl
  · rename_i origin horigin
    exact .inr ⟨rfl, bindCausalOrigin_eq_ok horigin⟩

theorem members_resolveInvocationAuthority {nfc : Nfc} {binding : TaskAuthorityBinding}
    {entityId : JsString} {causalParent : ChannelTrajectoryCoordinates} {admission : TaskAdmission}
    (hx : s.members.get id = some p) :
    (s.resolveInvocationAuthority nfc binding entityId causalParent entities admission).2.members.get id =
      some p := by
  rcases resolveInvocationAuthority_cases rfl with heq | ⟨authority, -, heq | ⟨-, hbound⟩⟩
  · rw [heq]
    exact hx
  · rw [heq]
    exact hx
  · apply members_bindMember hbound
    exact hx

/-- **What `inheritRuntime` does.** After the search it throws at an active runtime of another task, and otherwise it
records the membership, or there is none to record. -/
theorem inheritRuntime_cases (s : TaskAuthorityRegistry) (executionIsActive : ExecutionIsActive)
    (runtimeId : JsString) (caller : TaskCaller) (entities : EntityCache A R) :
    ∃ resolved, Searched executionIsActive s resolved ∧
      ((s.inheritRuntime executionIsActive runtimeId caller entities).2 = resolved ∨
        ∃ inherited,
          (∀ existing ∈ s.members.get runtimeId, existing ≠ inherited →
            (entities.resolveActive runtimeId).isSome = false) ∧
          s.inheritRuntime executionIsActive runtimeId caller entities =
            (.ok (some inherited), { resolved with members := resolved.members.set runtimeId inherited })) := by
  have hsearched : Searched executionIsActive s (s.resolveCaller executionIsActive caller entities).2 :=
    resolveCaller_searched s caller entities
  rw [inheritRuntime]
  split
  · rename_i resolved hresolved
    rw [hresolved] at hsearched
    exact ⟨resolved, hsearched, .inl rfl⟩
  · rename_i inherited resolved hresolved
    rw [hresolved] at hsearched
    refine ⟨resolved, hsearched, ?_⟩
    by_cases hguard : (∃ existing ∈ resolved.members.get runtimeId, existing ≠ inherited) ∧
        (entities.resolveActive runtimeId).isSome
    · rw [if_pos hguard]
      exact .inl rfl
    · rw [if_neg hguard]
      refine .inr ⟨inherited, fun existing hmem hne ↦ ?_, rfl⟩
      rw [← hsearched.members] at hmem
      exact Bool.eq_false_of_not_eq_true fun hactive ↦ hguard ⟨⟨existing, hmem, hne⟩, hactive⟩

theorem members_inheritRuntime {caller : TaskCaller} (hx : s.members.get id = some p)
    (hactive : (entities.resolveActive id).isSome = true) :
    (s.inheritRuntime executionIsActive runtimeId caller entities).2.members.get id = some p := by
  obtain ⟨resolved, hsearched, heq | ⟨inherited, hguard, heq⟩⟩ :=
    inheritRuntime_cases s executionIsActive runtimeId caller entities
  · rw [heq, hsearched.members]
    exact hx
  · rw [heq]
    change JsMap.get id (resolved.members.set runtimeId inherited) = some p
    rw [hsearched.members, JsMap.get_set]
    by_cases hid : id = runtimeId
    · subst hid
      rw [if_pos rfl]
      by_contra hne
      have hinactive := hguard p hx fun heq ↦ hne (by rw [heq])
      rw [hactive] at hinactive
      exact nomatch hinactive
    · rw [if_neg hid, hx]

/-- **One operation.** The membership of an active runtime changes only when the runtime is admitted again. -/
theorem members_perform (nfc : Nfc) (op : TaskOperation) (hx : s.members.get id = some p)
    (hactive : (entities.resolveActive id).isSome = true) (hop : ¬op.Admits id) :
    (s.perform nfc executionIsActive entities op).2.members.get id = some p := by
  match op with
  | .bindExecution session => exact members_bindExecution hx hop
  | .bindPrincipal authority binding =>
    refine members_settle hx fun s' h ↦ ?_
    obtain ⟨-, rfl⟩ := bindPrincipal_eq_ok h
    exact hx
  | .bindCausalOrigin authority entityId contextId channelId causalParent =>
    exact members_settle hx fun s' h ↦ members_bindMember (bindCausalOrigin_eq_ok h) hx
  | .resolveRuntime runtimeId =>
    rw [perform]
    rw [(resolveRuntime_searched s runtimeId entities).members]
    exact hx
  | .resolveCausalBinding entityId channelId causalParent => exact hx
  | .resolveInvocationAuthority binding entityId causalParent admission =>
    exact members_resolveInvocationAuthority hx
  | .inheritRuntime runtimeId caller => exact members_inheritRuntime hx hactive

/-- What an operation leaves when it throws. -/
def ThrowLeaves (nfc : Nfc) (executionIsActive : ExecutionIsActive) (s s' : TaskAuthorityRegistry) :
    TaskOperation → Prop
  | .resolveInvocationAuthority binding _ _ _ =>
    s' = s ∨ ∃ authority, taskAuthorityPrincipal nfc binding = .ok authority ∧
      s' = { s with bindings := s.bindings.set authority binding }
  | .inheritRuntime _ _ => Searched executionIsActive s s'
  | _ => s' = s

theorem settle_of_error {result : Except TaskAuthorityError TaskAuthorityRegistry}
    {error : TaskAuthorityError} (h : (s.settle result).1 = .error error) : (s.settle result).2 = s := by
  match result with
  | .error _ => rfl
  | .ok _ => exact nomatch h

theorem perform_of_error (nfc : Nfc) (op : TaskOperation) {error : TaskAuthorityError}
    (h : (s.perform nfc executionIsActive entities op).1 = .error error) :
    ThrowLeaves nfc executionIsActive s (s.perform nfc executionIsActive entities op).2 op := by
  match op with
  | .bindExecution session =>
    obtain ⟨error', heq⟩ | ⟨authority, bound, -, -, heq⟩ := bindExecution_cases s session
    · rw [perform, heq]
      rfl
    · rw [perform, heq] at h
      exact nomatch h
  | .bindPrincipal authority binding => exact settle_of_error h
  | .bindCausalOrigin authority entityId contextId channelId causalParent => exact settle_of_error h
  | .resolveRuntime runtimeId => exact nomatch h
  | .resolveCausalBinding entityId channelId causalParent => rfl
  | .resolveInvocationAuthority binding entityId causalParent admission =>
    rw [perform] at h ⊢
    rcases resolveInvocationAuthority_cases rfl with heq | ⟨authority, hauthority, heq | ⟨hok, -⟩⟩
    · exact .inl heq
    · exact .inr ⟨authority, hauthority, heq⟩
    · rw [hok] at h
      exact nomatch h
  | .inheritRuntime runtimeId caller =>
    obtain ⟨resolved, hsearched, heq | ⟨inherited, -, heq⟩⟩ :=
      inheritRuntime_cases s executionIsActive runtimeId caller entities
    · rw [perform, heq]
      exact hsearched
    · rw [perform, heq] at h
      exact nomatch h

/-- The roots are the runtimes that have been admitted. -/
theorem executionRoots_perform {nfc : Nfc} {op : TaskOperation}
    (h : (id, p) ∈ (s.perform nfc executionIsActive entities op).2.executionRoots) :
    (id, p) ∈ s.executionRoots ∨
      ∃ session, op = .bindExecution session ∧ session.executor.runtimeId = id ∧
        session.taskAuthority = some p := by
  have hsettle : ∀ result, (∀ s', result = .ok s' → s'.executionRoots = s.executionRoots) →
      (s.settle result).2.executionRoots = s.executionRoots := by
    rintro (error | s') hok
    · rfl
    · exact hok s' rfl
  have hbind : ∀ {t : TaskAuthorityRegistry} {agentId authority s'},
      t.bindMember agentId authority = .ok s' → s'.executionRoots = t.executionRoots := by
    intro t agentId authority s' hbound
    obtain ⟨-, rfl⟩ := bindMember_eq_ok.mp hbound
    rfl
  match op with
  | .bindExecution session =>
    obtain ⟨error, heq⟩ | ⟨authority, bound, hauthority, hbound, heq⟩ := bindExecution_cases s session
    · rw [perform, heq] at h
      exact .inl h
    · rw [perform, heq] at h
      rcases JsMap.mem_set h with hroot | hmem
      · obtain ⟨rfl, rfl⟩ := Prod.mk.inj hroot
        exact .inr ⟨session, rfl, rfl, hauthority⟩
      · rcases bindAgent_eq_ok hbound with rfl | ⟨agentId, hbound⟩
        · exact .inl hmem
        · exact .inl (hbind hbound ▸ hmem)
  | .bindPrincipal authority binding =>
    rw [perform, hsettle] at h
    · exact .inl h
    · intro s' hbound
      obtain ⟨-, rfl⟩ := bindPrincipal_eq_ok hbound
      rfl
  | .bindCausalOrigin authority entityId contextId channelId causalParent =>
    rw [perform, hsettle] at h
    · exact .inl h
    · exact fun s' hbound ↦ hbind (bindCausalOrigin_eq_ok hbound)
  | .resolveRuntime runtimeId => exact .inl ((resolveRuntime_searched s _ _).pruned.sublist.subset h)
  | .resolveCausalBinding entityId channelId causalParent => exact .inl h
  | .resolveInvocationAuthority binding entityId causalParent admission =>
    rw [perform] at h
    rcases resolveInvocationAuthority_cases rfl with heq | ⟨authority, -, heq | ⟨-, hbound⟩⟩
    · rw [heq] at h
      exact .inl h
    · rw [heq] at h
      exact .inl h
    · rw [hbind hbound] at h
      exact .inl h
  | .inheritRuntime runtimeId caller =>
    rw [perform] at h
    obtain ⟨resolved, hsearched, heq | ⟨inherited, -, heq⟩⟩ :=
      inheritRuntime_cases s executionIsActive runtimeId caller entities
    · rw [heq] at h
      exact .inl (hsearched.pruned.sublist.subset h)
    · rw [heq] at h
      exact .inl (hsearched.pruned.sublist.subset h)

end TaskAuthorityRegistry

/-! ## Runs -/

open TaskAuthorityRegistry (TaskOperation)

/-- The registry among the entities of its host. -/
structure TaskHost (A R : Type) where
  registry : TaskAuthorityRegistry
  entities : EntityCache A R

inductive TaskEvent (A R : Type) where
  | operation (executionIsActive : ExecutionIsActive) (op : TaskOperation)
  | entity (change : CacheEvent A R)

namespace TaskHost

def init (entities : EntityCache A R) : TaskHost A R := ⟨.init, entities⟩

def step (nfc : Nfc) (w : TaskHost A R) : TaskEvent A R → TaskHost A R
  | .operation executionIsActive op =>
    { w with registry := (w.registry.perform nfc executionIsActive w.entities op).2 }
  | .entity change => { w with entities := change.apply w.entities }

def run (nfc : Nfc) (w : TaskHost A R) (events : List (TaskEvent A R)) : TaskHost A R :=
  events.foldl (step nfc) w

/-- The runtime is active whenever an event comes. -/
def ActiveThroughout (nfc : Nfc) (id : JsString) : TaskHost A R → List (TaskEvent A R) → Prop
  | _, [] => True
  | w, event :: events =>
    (w.entities.resolveActive id).isSome = true ∧ (w.step nfc event).ActiveThroughout nfc id events

def Readmits (id : JsString) : TaskEvent A R → Prop
  | .operation _ op => op.Admits id
  | .entity _ => False

variable {nfc : Nfc} {id : JsString} {p : TaskGrantPrincipal}

/-- **The membership of an active runtime stays what it is.** -/
theorem get_members_run {events : List (TaskEvent A R)} : ∀ {w : TaskHost A R},
    w.registry.members.get id = some p → w.ActiveThroughout nfc id events →
    (∀ event ∈ events, ¬Readmits id event) → (w.run nfc events).registry.members.get id = some p := by
  induction events with
  | nil => exact fun hp _ _ ↦ hp
  | cons event events ih =>
    intro w hp ⟨hactive, hrest⟩ hevents
    refine ih ?_ hrest fun event' hmem ↦ hevents event' (List.mem_cons_of_mem _ hmem)
    have hevent := hevents event List.mem_cons_self
    match event with
    | .operation executionIsActive op =>
      exact TaskAuthorityRegistry.members_perform nfc op hp hactive hevent
    | .entity change => exact hp

/-- Every root of a run has been admitted in it. -/
theorem executionRoots_run {events : List (TaskEvent A R)} : ∀ {w : TaskHost A R},
    (id, p) ∈ (w.run nfc events).registry.executionRoots → (id, p) ∈ w.registry.executionRoots ∨
      ∃ executionIsActive session, .operation executionIsActive (.bindExecution session) ∈ events ∧
        session.executor.runtimeId = id ∧ session.taskAuthority = some p := by
  induction events with
  | nil => exact fun h ↦ .inl h
  | cons event events ih =>
    intro w h
    rcases ih h with h | ⟨executionIsActive, session, hmem, hid, hp⟩
    · match event with
      | .operation executionIsActive op =>
        rcases TaskAuthorityRegistry.executionRoots_perform h with h | ⟨session, rfl, hid, hp⟩
        · exact .inl h
        · exact .inr ⟨executionIsActive, session, List.mem_cons_self, hid, hp⟩
      | .entity change => exact .inl h
    · exact .inr ⟨executionIsActive, session, List.mem_cons_of_mem _ hmem, hid, hp⟩

/-- **The registry.** An active runtime keeps its membership until it is admitted again. An operation that throws has
changed no membership; `resolveInvocationAuthority` may have recorded the binding of the authority it derives, and
`inheritRuntime` may have deleted roots that were reported inactive. `resolveRuntime` returns the membership of a live
runtime, and only while a root that was admitted for that task is reported active. -/
theorem task_authority_registry (nfc : Nfc) :
    (∀ (w : TaskHost A R) (events : List (TaskEvent A R)) (id : JsString) (p : TaskGrantPrincipal),
      w.registry.members.get id = some p → w.ActiveThroughout nfc id events →
      (∀ event ∈ events, ¬Readmits id event) → (w.run nfc events).registry.members.get id = some p) ∧
    (∀ (s : TaskAuthorityRegistry) (executionIsActive : ExecutionIsActive) (entities : EntityCache A R)
      (op : TaskOperation) (error : TaskAuthorityError),
      (s.perform nfc executionIsActive entities op).1 = .error error →
      s.ThrowLeaves nfc executionIsActive (s.perform nfc executionIsActive entities op).2 op) ∧
    (∀ (entities : EntityCache A R) (events : List (TaskEvent A R)) (executionIsActive : ExecutionIsActive)
      (id : JsString) (p : TaskGrantPrincipal), let w := (TaskHost.init entities).run nfc events
      (w.registry.resolveRuntime executionIsActive id w.entities).1 = some p →
      (w.entities.resolveActive id).isSome = true ∧ w.registry.members.get id = some p ∧
        ∃ root, (root, p) ∈ w.registry.executionRoots ∧
          (∃ asked session, .operation asked (.bindExecution session) ∈ events ∧
            session.executor.runtimeId = root ∧ session.taskAuthority = some p) ∧
          ∀ reported ∈ executionIsActive, reported root p = true) := by
  refine ⟨fun w events id p ↦ get_members_run, fun s executionIsActive entities op error ↦
    TaskAuthorityRegistry.perform_of_error nfc op, fun entities events executionIsActive id p ↦ ?_⟩
  intro w h
  obtain ⟨hactive, hmember, root, hroot, hanswer⟩ := TaskAuthorityRegistry.resolveRuntime_eq_some.mp h
  refine ⟨hactive, hmember, root, hroot, ?_, ?_⟩
  · rcases executionRoots_run hroot with hinit | hbound
    · exact nomatch hinit
    · exact hbound
  · rintro reported rfl
    exact hanswer

/-- The eval runtime `e`, admitted for a task. -/
def evalSession (authority : TaskGrantPrincipal) : ExecutionAdmissionFact where
  authorityOrigin := none
  admissionKey := lit "admission"
  controllerRuntimeId := lit "controller"
  mode := .interactive
  ownerUser := lit "user"
  workspaceId := lit "workspace"
  contextId := lit "context"
  agentBinding := none
  taskRef := lit "task"
  taskAuthority := some authority
  executionImage := []
  executor := .eval ⟨lit "e", lit "run", [], none⟩
  authorityPlanDigest := none
  mission := none
  parent := none
  attachedHost := none
  causalParent := none
  testPolicy := none
  authoritySessionId := lit "session"
  authoritySessionVersion := 1
  issuedAt := 0
  expiresAt := 1
  nonce := lit "nonce"

/-- The entity `c` is there, and `e` is admitted and creates it. -/
def childOf (authority : TaskGrantPrincipal) : List (TaskEvent Unit Unit) :=
  [.entity (.mutate (.registerBootstrap ⟨lit "c", true, none, none⟩ 0)),
    .operation none (.bindExecution (evalSession authority)),
    .operation none (.inheritRuntime (lit "c") ⟨lit "e", some authority, none⟩)]

/-- `e` is admitted for another task, and its next call does not take `c` along. -/
theorem task_authority_registry_warmEval :
    ((((init (EntityCache.empty : EntityCache Unit Unit)).run plainNfc (childOf ⟨lit "1"⟩)).run plainNfc
      [.operation none (.bindExecution (evalSession ⟨lit "2"⟩)),
        .operation none (.inheritRuntime (lit "c") ⟨lit "e", some ⟨lit "2"⟩, none⟩)]).registry.members.get
      (lit "c")) = some ⟨lit "1"⟩ := by
  apply (task_authority_registry plainNfc).1
  · decide +kernel
  · exact ⟨by decide +kernel, by decide +kernel, trivial⟩
  · rintro event hmem hreadmits
    rcases List.mem_cons.mp hmem with rfl | hmem
    · exact absurd hreadmits (show ¬lit "e" = lit "c" by decide +kernel)
    · rw [List.mem_singleton] at hmem
      rw [hmem] at hreadmits
      exact hreadmits

/-- Two operations that throw and leave something else behind than they found: an invocation of an entity that is not
active leaves the binding of the authority that was derived for it, and a runtime that belongs to another task is
refused after an inactive root was deleted. -/
theorem throws_and_writes :
    (¬∀ (events : List (TaskEvent Unit Unit)) (executionIsActive : ExecutionIsActive) (op : TaskOperation)
        (error : TaskAuthorityError),
      let w := (init EntityCache.empty).run plainNfc events
      (w.registry.perform plainNfc executionIsActive w.entities op).1 = .error error →
        (w.registry.perform plainNfc executionIsActive w.entities op).2.bindings = w.registry.bindings) ∧
    ¬∀ (events : List (TaskEvent Unit Unit)) (executionIsActive : ExecutionIsActive) (op : TaskOperation)
        (error : TaskAuthorityError),
      let w := (init EntityCache.empty).run plainNfc events
      (w.registry.perform plainNfc executionIsActive w.entities op).1 = .error error →
        (w.registry.perform plainNfc executionIsActive w.entities op).2.executionRoots =
          w.registry.executionRoots := by
  constructor
  · intro h
    have hinvocation := h [] none
      (.resolveInvocationAuthority ⟨lit "workspace", lit "context", lit "channel"⟩ (lit "agent")
        ⟨lit "channel", lit "main"⟩ ⟨true, true⟩) .notActiveInContext (by decide +kernel)
    exact absurd hinvocation (by decide +kernel)
  · intro h
    have hinherit := h
      (childOf ⟨lit "1"⟩ ++
        [.entity (.mutate (.registerBootstrap ⟨lit "d", true, none, none⟩ 0)),
        .operation none (.bindExecution { evalSession ⟨lit "2"⟩ with
          executor := .eval ⟨lit "f", lit "run", [], none⟩ }),
        .operation none (.bindExecution { evalSession ⟨lit "2"⟩ with
          executor := .eval ⟨lit "g", lit "run", [], none⟩ }),
        .operation none (.inheritRuntime (lit "d") ⟨lit "f", some ⟨lit "2"⟩, none⟩)])
      (some fun runtimeId _ ↦ runtimeId = lit "g")
      (.inheritRuntime (lit "c") ⟨lit "d", none, none⟩) (.alreadyBound (lit "c")) (by decide +kernel)
    exact absurd hinherit (by decide +kernel)

end TaskHost

end Vibestudio.Server

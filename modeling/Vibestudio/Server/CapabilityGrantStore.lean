import Mathlib
import Vibestudio.Js.Map
import Vibestudio.Server.AuthorityTransaction
import Vibestudio.Transition.Run

/-!
# The capability grant store

The tables and the operations of `src/server/services/capabilityGrantStore.ts`, on top of its
transactions. An operation reads the tables it finds and is then a piece of work: the statements it
does and the effects it leaves for the commit. A call from outside is an operation or a transaction
around a tree of operations, each of which may fail, and be caught, on its own.

`Announced` says when an operation has told the listeners what it withdrew, `meets` when an
operation does so, and `withdrawals_announced` carries that over every run.
-/

namespace Vibestudio.Server

open Js Sqlite

/-! ## The tables -/

/-- `AuthorityGrant["scope"]`. -/
inductive GrantScope where
  | once | task | agent | mission | version | session | system
  deriving DecidableEq

/-- A row of `authority_grants`. The columns of `rest` are only copied. -/
structure GrantRow (R : Type) where
  id : JsString
  subject : JsString
  sessionId : Option JsString
  invocationDigest : Option JsString
  createdAt : ℤ
  revokedAt : Option ℤ
  consumedAt : Option ℤ
  scope : GrantScope
  suspendedAt : Option ℤ
  lastUsedAt : Option ℤ
  rest : R
  deriving DecidableEq

/-- A row of `authority_locks`. -/
structure LockRow (R : Type) where
  agentBindingId : JsString
  revokedAt : Option ℤ
  rest : R

/-- A row of `authority_subjects`. -/
structure SubjectRow (R : Type) where
  subject : JsString
  generation : ℕ
  rest : R

/-- The subject of the grants of an agent. -/
def agentSubject (agentBindingId : JsString) : JsString := lit "agent:" ++ agentBindingId

variable {R : Type}

namespace GrantRow

/-- Neither revoked, consumed nor suspended. -/
def active (g : GrantRow R) : Bool :=
  g.revokedAt.isNone && g.consumedAt.isNone && g.suspendedAt.isNone

def withdrawn (g : GrantRow R) : Bool := g.revokedAt.isSome || g.suspendedAt.isSome

def state (g : GrantRow R) : Option ℤ × Option ℤ × Option ℤ :=
  (g.revokedAt, g.consumedAt, g.suspendedAt)

def revoke (now : ℤ) (g : GrantRow R) : GrantRow R := { g with revokedAt := some now }

def suspend (now : ℤ) (g : GrantRow R) : GrantRow R := { g with suspendedAt := some now }

theorem id_revoke (now : ℤ) (g : GrantRow R) : (g.revoke now).id = g.id := rfl

theorem id_suspend (now : ℤ) (g : GrantRow R) : (g.suspend now).id = g.id := rfl

/-- `ORDER BY created_at DESC, id DESC`. -/
def before (g g' : GrantRow R) : Bool :=
  decide (g'.createdAt < g.createdAt) ||
    decide (g'.createdAt = g.createdAt ∧ utf8Encode g'.id ≤ utf8Encode g.id)

end GrantRow

/-- The tables. The primary key of `authority_grants` holds by construction. -/
structure Tables (R : Type) where
  grants : List (GrantRow R)
  locks : List (LockRow R)
  subjects : List (SubjectRow R)
  primaryKey : (grants.map GrantRow.id).Nodup

namespace Tables

variable (d : Tables R)

/-- `UPDATE authority_grants SET … WHERE p`. -/
def update (p : GrantRow R → Bool) (set : GrantRow R → GrantRow R)
    (hset : ∀ g, (set g).id = g.id) : Tables R :=
  { d with
    grants := d.grants.map fun g ↦ if p g then set g else g
    primaryKey := by
      rw [List.map_map]
      convert d.primaryKey using 1
      refine List.map_congr_left fun g _ ↦ ?_
      rw [Function.comp_apply]
      split_ifs
      · exact hset g
      · rfl }

/-- The `changes` of such an update. -/
def changes (p : GrantRow R → Bool) : ℕ := d.grants.countP p

/-- `INSERT INTO authority_grants`, which the primary key may refuse. -/
def insert (g : GrantRow R) : Option (Tables R) :=
  if h : g.id ∈ d.grants.map GrantRow.id then none
  else some { d with
    grants := d.grants ++ [g]
    primaryKey := by
      rw [List.map_append]
      exact List.nodup_append.mpr ⟨d.primaryKey, List.nodup_singleton _, fun a ha b hb ↦ by
        rw [List.mem_singleton.mp hb]
        exact fun heq ↦ h (heq ▸ ha)⟩ }

/-- `SELECT * FROM authority_grants WHERE p ORDER BY created_at DESC, id DESC`. -/
def select (p : GrantRow R → Bool) : List (GrantRow R) :=
  (d.grants.filter p).mergeSort GrantRow.before

def listAuthorityGrants : List (GrantRow R) := d.select fun _ ↦ true

def listAgentAuthorityGrants (agentBindingId : JsString) : List (GrantRow R) :=
  if agentBindingId = [] then
    d.select fun g ↦ decide (g.scope = .agent) && g.revokedAt.isNone && g.consumedAt.isNone
  else d.select fun g ↦ decide (g.scope = .agent) && decide (g.subject = agentSubject agentBindingId) &&
    g.revokedAt.isNone && g.consumedAt.isNone

theorem mem_select {p : GrantRow R → Bool} {g : GrantRow R} :
    g ∈ d.select p ↔ g ∈ d.grants ∧ p g = true := by
  rw [select, (List.mergeSort_perm _ _).mem_iff, List.mem_filter]

/-- A selection has a grant at most once. -/
theorem nodup_select (p : GrantRow R → Bool) : ((d.select p).map GrantRow.id).Nodup := by
  rw [select, ((List.mergeSort_perm _ _).map _).nodup_iff]
  exact d.primaryKey.sublist (List.filter_sublist.map _)

/-- The row of an id is unique. -/
theorem eq_of_id {g g' : GrantRow R} (hg : g ∈ d.grants) (hg' : g' ∈ d.grants)
    (h : g.id = g'.id) : g = g' := List.inj_on_of_nodup_map d.primaryKey hg hg' h

theorem mem_update {p : GrantRow R → Bool} {set : GrantRow R → GrantRow R}
    {hset : ∀ g, (set g).id = g.id} {g' : GrantRow R} :
    g' ∈ (d.update p set hset).grants ↔ ∃ g ∈ d.grants, (if p g then set g else g) = g' := by
  rw [update, List.mem_map]

end Tables

/-! ## Live effects -/

/-- What a commit sets off: a grant withdrawal is told to the listeners, and the execution of a
document is aborted. -/
inductive LiveEffect (R : Type) where
  | withdrawal (grant : GrantRow R) (now : ℤ)
  | abort (documentId : JsString)

/-- What a call finds outside of the database: the listeners, what each throws, and the registered
executions with their subjects. -/
structure Env (L R : Type) where
  listeners : List L
  throws : L → GrantRow R → ℤ → Bool
  executions : JsMap JsString JsString

variable {L : Type}

/-- The loop of `runCommittedEffects` over the listeners: those called, and those that threw. -/
def callListeners (throws : L → Bool) : List L → List L × List L
  | [] => ([], [])
  | l :: ls =>
    let rest := callListeners throws ls
    (l :: rest.1, if throws l then l :: rest.2 else rest.2)

/-- A listener is called whatever those before it threw. -/
theorem callListeners_called (throws : L → Bool) (ls : List L) : (callListeners throws ls).1 = ls := by
  induction ls with
  | nil => rfl
  | cons l ls ih => exact congrArg (l :: ·) ih

/-- A piece of work of the grant store. -/
abbrev GrantWork (R : Type) := Work (Tables R) (LiveEffect R)

section

variable (env : Env L R)

/-- What an effect does. -/
def LiveEffect.body : LiveEffect R → GrantWork R
  | withdrawal grant now => match (callListeners (env.throws · grant now) env.listeners).2 with
    | [] => .done
    | _ :: _ => .throw (lit "Authority changes committed, but live effects failed")
  | abort _ => .done

/-- `for (…) this.afterCommit(…)`. -/
def afterCommits (effects : List (LiveEffect R)) (next : GrantWork R) : GrantWork R :=
  effects.foldr (fun effect next ↦ .afterCommit effect (effect.body env) next) next

/-- `for (const grant of grants) this.emitGrantWithdrawal(grant, now)`. -/
def emitGrantWithdrawals (grants : List (GrantRow R)) (now : ℤ) (next : GrantWork R) : GrantWork R :=
  afterCommits env (grants.map fun grant ↦ .withdrawal grant now) next

/-! ## The operations -/

variable (d : Tables R)

/-- The work of `revoke`. -/
def revoke (grantId : JsString) (now : ℤ) : GrantWork R :=
  .write (fun d ↦ d.update (fun g ↦ decide (g.id = grantId) && g.revokedAt.isNone) (.revoke now)
    (GrantRow.id_revoke now)) <|
  match d.listAuthorityGrants.find? fun g ↦ decide (g.id = grantId) with
  | some grant =>
    if d.changes (fun g ↦ decide (g.id = grantId) && g.revokedAt.isNone) = 1 then
      emitGrantWithdrawals env [grant] now .done
    else .done
  | none => .done

/-- The work of `revokeSubject`. -/
def revokeSubject (subject : JsString) (now : ℤ) : GrantWork R :=
  .write (fun d ↦ d.update (fun g ↦ decide (g.subject = subject) && g.revokedAt.isNone)
    (.revoke now) (GrantRow.id_revoke now)) <|
  emitGrantWithdrawals env (d.listAuthorityGrants.filter fun g ↦
    decide (g.subject = subject) && g.revokedAt.isNone) now .done

/-- The work of `invalidateAuthoritySubject`. -/
def invalidateAuthoritySubject (subject : JsString) (now : ℤ) : GrantWork R :=
  .write (fun d ↦ { d with
    subjects := d.subjects.map fun r ↦
      if r.subject = subject then { r with generation := r.generation + 1 } else r }) <|
  .write (fun d ↦ d.update (fun g ↦ decide (g.subject = subject) && g.revokedAt.isNone)
    (.revoke now) (GrantRow.id_revoke now)) <|
  afterCommits env ((env.executions.filter fun p ↦ decide (p.2 = subject)).map fun p ↦ .abort p.1) <|
  emitGrantWithdrawals env (d.listAuthorityGrants.filter fun g ↦
    decide (g.subject = subject) && g.revokedAt.isNone) now .done

/-- The grants that an agent has not used since `cutoff`. -/
def idleAgentGrant (cutoff : ℤ) (g : GrantRow R) : Bool :=
  decide (g.scope = .agent) && g.revokedAt.isNone && g.consumedAt.isNone && g.suspendedAt.isNone &&
    decide (g.lastUsedAt.getD g.createdAt ≤ cutoff)

/-- The work of `suspendIdleAgentGrants`. -/
def suspendIdleAgentGrants (now idleMs : ℤ) : GrantWork R :=
  .write (fun d ↦ d.update (idleAgentGrant (now - idleMs)) (.suspend now) (GrantRow.id_suspend now)) <|
  emitGrantWithdrawals env (d.select (idleAgentGrant (now - idleMs))) now .done

/-- The work of `resetAgentAuthority`. The grants are listed before the transaction. -/
def resetAgentAuthority (agentBindingId : JsString) (keepLocks : Bool) (now : ℤ) : GrantWork R :=
  .write (fun d ↦ d.update (fun g ↦ decide (g.subject = agentSubject agentBindingId) &&
    decide (g.scope = .agent) && g.revokedAt.isNone) (.revoke now) (GrantRow.id_revoke now)) <|
  .write (fun d ↦ if keepLocks then d else { d with
    locks := d.locks.map fun r ↦ if r.agentBindingId = agentBindingId ∧ r.revokedAt = none then
      { r with revokedAt := some now } else r }) <|
  emitGrantWithdrawals env (d.listAgentAuthorityGrants agentBindingId) now .done

/-- The first loop of `rollbackInstallClearance`: each `revoke` is a call of its own and reads the
tables the one before it left. -/
def revokeAll (now : ℤ) (next : GrantWork R) : List JsString → Tables R → GrantWork R
  | [], _ => next
  | grantId :: ids, d => .transaction .none (revoke env d grantId now) false
    (revokeAll now next ids ((revoke env d grantId now).writes d))

/-- The row is one that the second loop of `rollbackInstallClearance` restores. -/
def retired (retiredAt : Option ℤ) (g : GrantRow R) : Bool := match retiredAt with
  | none => true
  | some _ => decide (g.revokedAt = retiredAt)

/-- The second loop. -/
def restoreAll (retiredAt : Option ℤ) : List JsString → GrantWork R
  | [] => .done
  | grantId :: ids => .write (fun d ↦ d.update (fun g ↦ decide (g.id = grantId) &&
      retired retiredAt g) (fun g ↦ { g with revokedAt := none }) fun _ ↦ rfl)
    (restoreAll retiredAt ids)

/-- The work of `rollbackInstallClearance`. -/
def rollbackInstallClearance (issuedGrantIds restoreRevokedGrantIds : List JsString)
    (retiredAt : Option ℤ) (now : ℤ) : GrantWork R :=
  revokeAll env now (restoreAll retiredAt restoreRevokedGrantIds) issuedGrantIds d

end

/-- The operations. `issue` has the row it inserts, and the error of a check of its input, and the
operations that write the other two tables only are `lockTable` (`createLock`, `matchingLocks`,
`revokeLock`, `setAgentPaused`, `setWorkspaceAuthorityLocked`) and `subjectTable`
(`ensureWebsiteSubject`, `createInstallationSubject`). -/
inductive Op (R : Type) where
  | issue (row : GrantRow R) (refusal : Option JsString)
  | grantsForSubjects (subjects : List JsString) (now : ℤ)
  | consume (grantId : JsString) (now : ℤ)
  | revoke (grantId : JsString) (now : ℤ)
  | revokeSubject (subject : JsString) (now : ℤ)
  | touch (grantId : JsString) (now : ℤ)
  | suspendIdleAgentGrants (now idleMs : ℤ)
  | restore (grantId : JsString)
  | invalidateAuthoritySubject (subject : JsString) (now : ℤ)
  | pruneSession (sessionId : JsString) (now : ℤ)
  | rollbackInstallClearance (issuedGrantIds restoreRevokedGrantIds : List JsString)
      (retiredAt : Option ℤ) (now : ℤ)
  | resetAgentAuthority (agentBindingId : JsString) (keepLocks : Bool) (now : ℤ)
  | lockTable (write : List (LockRow R) → List (LockRow R))
  | subjectTable (write : List (SubjectRow R) → List (SubjectRow R))

/-- What an operation is on the tables it finds: a transaction, a statement of its own, or an
error before any statement. -/
inductive Operation (R : Type) where
  | transaction (work : GrantWork R)
  | statement (write : Tables R → Tables R)
  | refused (message : JsString)

/-- The default of `suspendIdleAgentGrants`. -/
def idleMs : ℤ := 90 * 24 * 60 * 60 * 1000

def Op.operation (env : Env L R) (d : Tables R) : Op R → Operation R
  | issue row refusal => match refusal with
    | some message => .refused message
    | none => match d.insert { row with revokedAt := none, consumedAt := none } with
      | none => .refused (lit "UNIQUE constraint failed: authority_grants.id")
      | some d' => .statement fun _ ↦ d'
  | grantsForSubjects subjects now =>
    if subjects.any fun subject ↦ (lit "agent:").isPrefixOf subject then
      .transaction (Server.suspendIdleAgentGrants env d now idleMs)
    else .statement id
  | consume grantId now => .statement fun d ↦ d.update (fun g ↦ decide (g.id = grantId) &&
      g.consumedAt.isNone && g.revokedAt.isNone && g.invocationDigest.isSome)
      (fun g ↦ { g with consumedAt := some now }) fun _ ↦ rfl
  | revoke grantId now => .transaction (Server.revoke env d grantId now)
  | revokeSubject subject now => .transaction (Server.revokeSubject env d subject now)
  | touch grantId now => .statement fun d ↦ d.update (fun g ↦ decide (g.id = grantId) &&
      g.revokedAt.isNone && g.suspendedAt.isNone)
      (fun g ↦ { g with lastUsedAt := some now }) fun _ ↦ rfl
  | suspendIdleAgentGrants now idleMs =>
    .transaction (Server.suspendIdleAgentGrants env d now idleMs)
  | restore grantId => .statement fun d ↦ d.update (fun g ↦ decide (g.id = grantId) &&
      g.revokedAt.isNone && g.suspendedAt.isSome)
      (fun g ↦ { g with suspendedAt := none }) fun _ ↦ rfl
  | invalidateAuthoritySubject subject now =>
    .transaction (Server.invalidateAuthoritySubject env d subject now)
  | pruneSession sessionId now => .statement fun d ↦ d.update (fun g ↦
      decide (g.sessionId = some sessionId) && g.revokedAt.isNone) (.revoke now) (GrantRow.id_revoke now)
  | rollbackInstallClearance issuedGrantIds restoreRevokedGrantIds retiredAt now =>
    if issuedGrantIds = [] ∧ restoreRevokedGrantIds = [] then .statement id
    else .transaction
      (Server.rollbackInstallClearance env d issuedGrantIds restoreRevokedGrantIds retiredAt now)
  | resetAgentAuthority agentBindingId keepLocks now =>
    .transaction (Server.resetAgentAuthority env d agentBindingId keepLocks now)
  | lockTable write => .statement fun d ↦ { d with locks := write d.locks }
  | subjectTable write => .statement fun d ↦ { d with subjects := write d.subjects }

/-- What an operation leaves when it completes. -/
def Op.after (env : Env L R) (op : Op R) (d : Tables R) : Tables R := match op.operation env d with
  | .transaction work => work.writes d
  | .statement write => write d
  | .refused _ => d

/-- The effects it registers. -/
def Op.effects (env : Env L R) (op : Op R) (d : Tables R) : List (LiveEffect R) :=
  match op.operation env d with
  | .transaction work => work.registered.map Prod.fst
  | .statement _ | .refused _ => []

/-! ## Calls from outside -/

/-- What is done inside a transaction of a caller. A single statement that fails by itself is a
`throw` or, when the error is caught, nothing. -/
inductive Script (R : Type) where
  | done
  | throw (message : JsString)
  | call (op : Op R) (fault : Fault) (caught : Bool) (next : Script R)
  | transaction (fault : Fault) (body : Script R) (caught : Bool) (next : Script R)

/-- An operation that completed, with the tables it found. -/
structure Commit (R : Type) where
  before : Tables R
  op : Op R

namespace Script

variable (env : Env L R)

/-- The work of a script, each operation of which reads the tables the one before it left. -/
def work : Script R → Tables R → GrantWork R
  | done, _ => .done
  | throw message, _ => .throw message
  | call op fault caught next, d => match op.operation env d with
    | .transaction w => .transaction fault w caught
      (next.work (if w.completes fault then w.writes d else d))
    | .statement write => .write write (next.work (write d))
    | .refused message => if caught then next.work d else .throw message
  | transaction fault body caught next, d => .transaction fault (body.work d) caught
    (next.work (if (body.work d).completes fault then (body.work d).writes d else d))

/-- The operations that complete, all of whose enclosing transactions do. -/
def commits : Script R → Tables R → List (Commit R)
  | done, _ | throw _, _ => []
  | call op fault caught next, d => match op.operation env d with
    | .transaction w =>
      if w.completes fault then ⟨d, op⟩ :: next.commits (w.writes d) else next.commits d
    | .statement write => ⟨d, op⟩ :: next.commits (write d)
    | .refused _ => if caught then next.commits d else []
  | transaction fault body _ next, d =>
    if (body.work env d).completes fault then
      body.commits d ++ next.commits ((body.work env d).writes d)
    else next.commits d

end Script

/-- A call of a listener, with the connection it finds. -/
structure Notice (L R : Type) where
  listener : L
  grant : GrantRow R
  now : ℤ
  connection : Connection (Tables R) JsString

def LiveEffect.notices (env : Env L R) (connection : Connection (Tables R) JsString) :
    LiveEffect R → List (Notice L R)
  | withdrawal grant now => (callListeners (env.throws · grant now) env.listeners).1.map
      fun listener ↦ ⟨listener, grant, now, connection⟩
  | abort _ => []

/-- A completed operation: the tables before and after it, the listeners of the moment, and the
calls of them it caused. -/
structure Entry (L R : Type) where
  before : Tables R
  after : Tables R
  listeners : List L
  notices : List (Notice L R)

/-- What a completed operation causes, in the listeners of the environment. -/
def Commit.entry (env : Env L R) (connection : Connection (Tables R) JsString) (c : Commit R) :
    Entry L R :=
  ⟨c.before, c.op.after env c.before, env.listeners,
    (c.op.effects env c.before).flatMap (·.notices env connection)⟩

/-- The store with its listeners and executions. `delivered` lists the calls of listeners, and
`history` the operations that completed. -/
structure GrantStore (L R : Type) where
  store : Store (Tables R) (LiveEffect R)
  listeners : List L
  executions : JsMap JsString JsString
  delivered : List (Notice L R)
  history : List (Entry L R)

/-- The store on a database, when it has been opened. -/
def GrantStore.open (d : Tables R) : GrantStore L R :=
  ⟨⟨.idle d, 0, none, fun _ ↦ [], 0, []⟩, [], [], [], []⟩

/-- A call of the store, with what the listeners throw while it lasts. -/
inductive Call (L R : Type) where
  | operation (op : Op R) (fault : Fault) (throws : L → GrantRow R → ℤ → Bool)
  | transaction (fault : Fault) (body : Script R) (throws : L → GrantRow R → ℤ → Bool)
  | onGrantWithdrawal (listener : L)
  | offGrantWithdrawal (listener : L)
  | registerExecution (documentId subject : JsString) (generation : ℕ)
  | releaseExecution (documentId : JsString)

namespace GrantStore

variable (s : GrantStore L R)

def env (throws : L → GrantRow R → ℤ → Bool) : Env L R := ⟨s.listeners, throws, s.executions⟩

/-- A script has left the database as in `store`. -/
def finish (env : Env L R) (script : Script R) (store : Store (Tables R) (LiveEffect R)) :
    GrantStore L R :=
  { s with
    store
    delivered := s.delivered ++ (store.ran.drop s.store.ran.length).flatMap fun p ↦
      p.1.notices env p.2
    history := s.history ++
      (script.commits env s.store.connection.db).map (·.entry env store.connection) }

/-- A script is done. -/
def perform (env : Env L R) (script : Script R) : Option (GrantStore L R) :=
  (exec (script.work env s.store.connection.db).size (script.work env s.store.connection.db)
    s.store).map fun done ↦ s.finish env script done.1

variable [DecidableEq L]

def step : Call L R → Option (GrantStore L R)
  | .operation op fault throws => s.perform (s.env throws) (.call op fault true .done)
  | .transaction fault body throws =>
    s.perform (s.env throws) (.transaction fault body true .done)
  | .onGrantWithdrawal listener => some { s with
      listeners := if listener ∈ s.listeners then s.listeners else s.listeners ++ [listener] }
  | .offGrantWithdrawal listener => some { s with
      listeners := s.listeners.filter fun l ↦ decide (l ≠ listener) }
  | .registerExecution documentId subject generation =>
    if documentId = [] ∨ (s.executions.get documentId).isSome ∨
        ((s.store.connection.db.subjects.find? fun r ↦ decide (r.subject = subject)).map
          SubjectRow.generation) ≠ some generation then some s
    else some { s with executions := s.executions.set documentId subject }
  | .releaseExecution documentId =>
    some { s with executions := s.executions.delete documentId }

end GrantStore

end Vibestudio.Server

import Mathlib
import Vibestudio.Server.GrantWithdrawals
import Vibestudio.Shared.Authorization

/-!
# Idle standing grants

`touch`, `suspendIdleAgentGrants`, `restore` and the lookup `grantsForSubjects` of
`src/server/services/capabilityGrantStore.ts`, in sequences of operations at nondecreasing times.
A sweep judges idleness from `last_used_at` and `created_at`. Creation and use write these columns,
and restoration does not: `Tracked` says how far the columns agree with what happened to a grant,
and `keepsActive_iff` says that restored grants are the only ones for which a sweep goes wrong,
together with those issued with a last use that lies before their creation.
-/

namespace Vibestudio.Server

open Js

variable {L R : Type}

/-! ## The lookup -/

/-- The columns `capability` and `expires_at`. -/
structure LookupColumns (R : Type) where
  capability : R → JsString
  expiresAt : R → Option ℤ

/-- `for (let index = 0; index < values.length; index += size)`. -/
def chunks {α : Type} (values : List α) (size : ℕ) : List (List α) :=
  (List.range ((values.length + size - 1) / size)).map fun i ↦ (values.drop (i * size)).take size

theorem mem_chunks {α : Type} {values : List α} {size : ℕ} (hsize : 0 < size) {x : α}
    (hx : x ∈ values) : ∃ chunk ∈ chunks values size, x ∈ chunk := by
  obtain ⟨k, hk, rfl⟩ := List.getElem_of_mem hx
  have hle : k / size * size ≤ k := Nat.div_mul_le_self k size
  have hlt : k < k / size * size + size := Nat.lt_div_mul_add hsize
  refine ⟨(values.drop (k / size * size)).take size, List.mem_map.mpr ⟨k / size, ?_, rfl⟩, ?_⟩
  · rw [List.mem_range, Nat.lt_div_iff_mul_lt hsize]
    have hcomm := Nat.mul_comm size (k / size)
    omega
  · rw [List.mem_take_iff_getElem]
    refine ⟨k - k / size * size, ?_, ?_⟩
    · rw [List.length_drop]
      omega
    · rw [List.getElem_drop]
      congr 1
      omega

variable (columns : LookupColumns R)

/-- `expires_at IS NULL OR expires_at > now`. -/
def LookupColumns.unexpired (now : ℤ) (g : GrantRow R) : Bool :=
  (columns.expiresAt g.rest).all fun expiresAt ↦ decide (now < expiresAt)

/-- What `grantsForSubjects` returns, on the tables its sweep has left. -/
def foundGrants (d : Tables R) (subjects : List JsString) (capability : JsString) (now : ℤ) :
    List (GrantRow R) :=
  (chunks subjects.eraseDups 300).flatMap fun chunk ↦
    (d.grants.filter fun g ↦ decide (g.subject ∈ chunk) && g.revokedAt.isNone &&
      g.suspendedAt.isNone && columns.unexpired now g).filter fun g ↦
        Shared.capabilityPatternCovers (columns.capability g.rest) capability

theorem mem_foundGrants {d : Tables R} {subjects : List JsString} {capability : JsString} {now : ℤ}
    {g : GrantRow R} (hg : g ∈ d.grants) (hsubject : g.subject ∈ subjects)
    (hrevoked : g.revokedAt = none) (hsuspended : g.suspendedAt = none)
    (hunexpired : columns.unexpired now g = true)
    (hcovers : Shared.capabilityPatternCovers (columns.capability g.rest) capability = true) :
    g ∈ foundGrants columns d subjects capability now := by
  obtain ⟨chunk, hchunk, hmem⟩ := mem_chunks (show 0 < 300 by decide)
    (List.mem_eraseDups.mpr hsubject)
  refine List.mem_flatMap.mpr ⟨chunk, hchunk, List.mem_filter.mpr ⟨List.mem_filter.mpr ⟨hg, ?_⟩,
    hcovers⟩⟩
  simp [hmem, hrevoked, hsuspended, hunexpired]

/-! ## What an operation does to a row -/

namespace Op

/-- The time an operation is given. A grant is issued at its `created_at`. -/
def now? : Op R → Option ℤ
  | issue row _ => some row.createdAt
  | grantsForSubjects _ now | consume _ now | revoke _ now | revokeSubject _ now | touch _ now
  | suspendIdleAgentGrants now _ | invalidateAuthoritySubject _ now | pruneSession _ now
  | rollbackInstallClearance _ _ _ now | resetAgentAuthority _ _ now => some now
  | restore _ | lockTable _ | subjectTable _ => none

/-- The sweep of an operation: its time, and the time since which a grant has to have been used. -/
def sweep? : Op R → Option (ℤ × ℤ)
  | grantsForSubjects subjects now =>
    if subjects.any fun subject ↦ (lit "agent:").isPrefixOf subject then some (now, now - idleMs)
    else none
  | suspendIdleAgentGrants now idleMs => some (now, now - idleMs)
  | _ => none

/-- The `UPDATE` of `touch` finds the row. -/
def touches (g : GrantRow R) : Op R → Option ℤ
  | touch grantId now =>
    if g.id = grantId ∧ g.revokedAt = none ∧ g.suspendedAt = none then some now else none
  | _ => none

/-- The `UPDATE` of `restore` finds the row. -/
def restores (g : GrantRow R) : Op R → Bool
  | restore grantId => decide (g.id = grantId) && g.revokedAt.isNone && g.suspendedAt.isSome
  | _ => false

/-- The row `issue` inserts, when it does. -/
def inserts (d : Tables R) : Op R → Option (GrantRow R)
  | issue row none => if row.id ∈ d.grants.map GrantRow.id then none
    else some { row with revokedAt := none, consumedAt := none }
  | _ => none

/-- `last_used_at` afterwards. -/
def lastUsedAt (op : Op R) (g : GrantRow R) : Option ℤ := (op.touches g).or g.lastUsedAt

/-- `suspended_at` afterwards. -/
def suspendedAt (op : Op R) (g : GrantRow R) : Option ℤ :=
  if op.restores g then none
  else match op.sweep? with
    | some (now, cutoff) => if idleAgentGrant cutoff g then some now else g.suspendedAt
    | none => g.suspendedAt

/-- An operation changes a row in `revoked_at`, `consumed_at` and as said above. -/
structure Changes (op : Op R) (g g' : GrantRow R) : Prop where
  id : g'.id = g.id
  subject : g'.subject = g.subject
  createdAt : g'.createdAt = g.createdAt
  scope : g'.scope = g.scope
  lastUsedAt : g'.lastUsedAt = op.lastUsedAt g
  suspendedAt : g'.suspendedAt = op.suspendedAt g
  rest : g'.rest = g.rest

end Op

/-- A row that keeps everything but `revoked_at` and `consumed_at` is changed as by an operation that
neither touches, restores nor sweeps. -/
theorem Op.changes_of_still {op : Op R} {g g' : GrantRow R} (htouches : op.touches g = none)
    (hrestores : op.restores g = false) (hsweep : op.sweep? = none)
    (h : ∃ revokedAt consumedAt, g' = { g with revokedAt, consumedAt }) : op.Changes g g' := by
  obtain ⟨revokedAt, consumedAt, rfl⟩ := h
  refine ⟨rfl, rfl, rfl, rfl, ?_, ?_, rfl⟩
  · rw [Op.lastUsedAt, htouches, Option.none_or]
  · rw [Op.suspendedAt, hrestores, hsweep]
    rfl

/-- **What an operation does to the rows.** -/
structure Op.Effect (op : Op R) (d d' : Tables R) : Prop where
  rows : ∀ g ∈ d.grants, ∃ g' ∈ d'.grants, op.Changes g g'
  origin : ∀ g' ∈ d'.grants, (∃ g ∈ d.grants, op.Changes g g') ∨ op.inserts d = some g'
  inserted : ∀ g', op.inserts d = some g' → g' ∈ d'.grants

theorem Op.effect_of_map {op : Op R} {d d' : Tables R} {f : GrantRow R → GrantRow R}
    (hgrants : d'.grants = d.grants.map f) (hinserts : op.inserts d = none)
    (hf : ∀ g ∈ d.grants, op.Changes g (f g)) : op.Effect d d' where
  rows g hg := ⟨f g, hgrants ▸ List.mem_map_of_mem hg, hf g hg⟩
  origin g' hg' := by
    rw [hgrants] at hg'
    obtain ⟨g, hg, rfl⟩ := List.mem_map.mp hg'
    exact .inl ⟨g, hg, hf g hg⟩
  inserted g' hg' := by
    rw [hinserts] at hg'
    exact nomatch hg'

theorem Op.effect_of_still {op : Op R} {d d' : Tables R} {f : GrantRow R → GrantRow R}
    (hgrants : d'.grants = d.grants.map f) (hinserts : op.inserts d = none)
    (htouches : ∀ g, op.touches g = none) (hrestores : ∀ g, op.restores g = false)
    (hsweep : op.sweep? = none)
    (hf : ∀ g, ∃ revokedAt consumedAt, f g = { g with revokedAt, consumedAt }) : op.Effect d d' :=
  effect_of_map hgrants hinserts fun g _ ↦
    changes_of_still (htouches g) (hrestores g) hsweep (hf g)

theorem still_ite {p : GrantRow R → Bool} {set : GrantRow R → GrantRow R}
    (hset : ∀ g, ∃ revokedAt consumedAt, set g = { g with revokedAt, consumedAt }) (g : GrantRow R) :
    ∃ revokedAt consumedAt, (if p g then set g else g) = { g with revokedAt, consumedAt } := by
  split_ifs
  · exact hset g
  · exact ⟨g.revokedAt, g.consumedAt, rfl⟩

theorem still_revoke (now : ℤ) (g : GrantRow R) :
    ∃ revokedAt consumedAt, g.revoke now = { g with revokedAt, consumedAt } :=
  ⟨some now, g.consumedAt, rfl⟩

theorem effect_sweep {op : Op R} {d d' : Tables R} {now cutoff : ℤ}
    (hgrants : d'.grants = d.grants.map fun g ↦ if idleAgentGrant cutoff g then g.suspend now else g)
    (hsweep : op.sweep? = some (now, cutoff)) (hinserts : op.inserts d = none)
    (htouches : ∀ g, op.touches g = none) (hrestores : ∀ g, op.restores g = false) :
    op.Effect d d' := by
  apply Op.effect_of_map hgrants hinserts
  intro g _
  have hsuspended : op.suspendedAt g =
      if idleAgentGrant cutoff g then some now else g.suspendedAt := by
    rw [Op.suspendedAt, hrestores, hsweep]
    rfl
  have hlast : op.lastUsedAt g = g.lastUsedAt := by rw [Op.lastUsedAt, htouches, Option.none_or]
  split_ifs with hidle
  · exact ⟨rfl, rfl, rfl, rfl, hlast.symm, by rw [hsuspended, if_pos hidle]; rfl, rfl⟩
  · exact ⟨rfl, rfl, rfl, rfl, hlast.symm, by rw [hsuspended, if_neg hidle], rfl⟩

theorem grants_suspend (env : Env L R) (d : Tables R) (now idleMs : ℤ) :
    ((suspendIdleAgentGrants env d now idleMs).writes d).grants =
      d.grants.map fun g ↦ if idleAgentGrant (now - idleMs) g then g.suspend now else g := by
  rw [suspendIdleAgentGrants, Work.writes, emitGrantWithdrawals, writes_afterCommits]
  rfl

theorem effect_after (env : Env L R) (op : Op R) (d : Tables R) : op.Effect d (op.after env d) := by
  have hid (g : GrantRow R) : ∃ revokedAt consumedAt, id g = { g with revokedAt, consumedAt } :=
    ⟨g.revokedAt, g.consumedAt, rfl⟩
  cases op with
  | issue row refusal =>
    cases refusal with
    | some message =>
      exact Op.effect_of_still (List.map_id _).symm rfl (fun _ ↦ rfl) (fun _ ↦ rfl) rfl hid
    | none =>
      by_cases hrow : row.id ∈ d.grants.map GrantRow.id
      · have hinsert : d.insert { row with revokedAt := none, consumedAt := none } = none :=
          dif_pos hrow
        have hinserts : (Op.issue row none).inserts d = none := if_pos hrow
        have hafter : (Op.issue row none).after env d = d := by
          simp only [Op.after, Op.operation, hinsert]
        rw [hafter]
        exact Op.effect_of_still (List.map_id _).symm hinserts (fun _ ↦ rfl) (fun _ ↦ rfl) rfl hid
      · have hinserts : (Op.issue row none).inserts d =
            some { row with revokedAt := none, consumedAt := none } := if_neg hrow
        have hafter : ((Op.issue row none).after env d).grants =
            d.grants ++ [{ row with revokedAt := none, consumedAt := none }] := by
          simp only [Op.after, Op.operation, Tables.insert]
          rw [dif_neg hrow]
        have hkeeps (g : GrantRow R) : (Op.issue row none).Changes g g :=
          Op.changes_of_still rfl rfl rfl (hid g)
        refine ⟨fun g hg ↦ ⟨g, ?_, hkeeps g⟩, fun g' hg' ↦ ?_, fun g' hg' ↦ ?_⟩
        · exact hafter ▸ List.mem_append_left _ hg
        · rw [hafter, List.mem_append, List.mem_singleton] at hg'
          rcases hg' with hg' | rfl
          · exact .inl ⟨g', hg', hkeeps g'⟩
          · exact .inr hinserts
        · rw [hinserts, Option.some.injEq] at hg'
          rw [hafter, ← hg']
          exact List.mem_append_right _ (List.mem_singleton_self _)
  | grantsForSubjects subjects now =>
    by_cases hagent : (subjects.any fun subject ↦ (lit "agent:").isPrefixOf subject) = true
    · have hafter : (Op.grantsForSubjects subjects now).after env d =
          (suspendIdleAgentGrants env d now idleMs).writes d := by
        simp only [Op.after, Op.operation, if_pos hagent]
      rw [hafter]
      exact effect_sweep (grants_suspend env d now idleMs) (if_pos hagent) rfl (fun _ ↦ rfl)
        fun _ ↦ rfl
    · have hafter : (Op.grantsForSubjects subjects now).after env d = d := by
        simp only [Op.after, Op.operation, if_neg hagent]
        rfl
      rw [hafter]
      exact Op.effect_of_still (List.map_id _).symm rfl (fun _ ↦ rfl) (fun _ ↦ rfl)
        (if_neg hagent) hid
  | suspendIdleAgentGrants now idleMs =>
    exact effect_sweep (grants_suspend env d now idleMs) rfl rfl (fun _ ↦ rfl) fun _ ↦ rfl
  | consume grantId now =>
    exact Op.effect_of_still rfl rfl (fun _ ↦ rfl) (fun _ ↦ rfl) rfl
      (still_ite fun g ↦ ⟨g.revokedAt, some now, rfl⟩)
  | revoke grantId now =>
    exact Op.effect_of_still (congrArg Tables.grants (writes_revoke env d d grantId now)) rfl
      (fun _ ↦ rfl) (fun _ ↦ rfl) rfl (still_ite (still_revoke now))
  | revokeSubject subject now =>
    exact Op.effect_of_still (congrArg Tables.grants (writes_afterCommits env _ _ _)) rfl
      (fun _ ↦ rfl) (fun _ ↦ rfl) rfl (still_ite (still_revoke now))
  | touch grantId now =>
    apply Op.effect_of_map (f := fun g ↦ if decide (g.id = grantId) && g.revokedAt.isNone &&
      g.suspendedAt.isNone then { g with lastUsedAt := some now } else g) rfl rfl
    intro g _
    have hsuspended : (Op.touch grantId now).suspendedAt g = g.suspendedAt := rfl
    by_cases hg : g.id = grantId ∧ g.revokedAt = none ∧ g.suspendedAt = none
    · have hlast : (Op.touch grantId now).lastUsedAt g = some now := by
        rw [Op.lastUsedAt, Op.touches, if_pos hg, Option.some_or]
      rw [if_pos (by simp [hg])]
      exact ⟨rfl, rfl, rfl, rfl, hlast.symm, hsuspended.symm, rfl⟩
    · have hlast : (Op.touch grantId now).lastUsedAt g = g.lastUsedAt := by
        rw [Op.lastUsedAt, Op.touches, if_neg hg, Option.none_or]
      rw [if_neg (by simpa [and_assoc] using hg)]
      exact ⟨rfl, rfl, rfl, rfl, hlast.symm, hsuspended.symm, rfl⟩
  | restore grantId =>
    apply Op.effect_of_map (f := fun g ↦ if decide (g.id = grantId) && g.revokedAt.isNone &&
      g.suspendedAt.isSome then { g with suspendedAt := none } else g) rfl rfl
    intro g _
    have hlast : (Op.restore grantId).lastUsedAt g = g.lastUsedAt := rfl
    have hsuspended : (Op.restore grantId).suspendedAt g = if decide (g.id = grantId) &&
      g.revokedAt.isNone && g.suspendedAt.isSome then none else g.suspendedAt := rfl
    split_ifs at hsuspended ⊢
    · exact ⟨rfl, rfl, rfl, rfl, hlast.symm, hsuspended.symm, rfl⟩
    · exact ⟨rfl, rfl, rfl, rfl, hlast.symm, hsuspended.symm, rfl⟩
  | invalidateAuthoritySubject subject now =>
    have hgrants : ((Op.invalidateAuthoritySubject subject now).after env d).grants =
        d.grants.map fun g ↦ if decide (g.subject = subject) && g.revokedAt.isNone then
          g.revoke now else g := by
      simp only [Op.after, Op.operation, invalidateAuthoritySubject, Work.writes,
        writes_afterCommits, emitGrantWithdrawals]
      rfl
    exact Op.effect_of_still hgrants rfl (fun _ ↦ rfl) (fun _ ↦ rfl) rfl
      (still_ite (still_revoke now))
  | pruneSession sessionId now =>
    exact Op.effect_of_still rfl rfl (fun _ ↦ rfl) (fun _ ↦ rfl) rfl (still_ite (still_revoke now))
  | rollbackInstallClearance issuedGrantIds restoreRevokedGrantIds retiredAt now =>
    by_cases hempty : issuedGrantIds = [] ∧ restoreRevokedGrantIds = []
    · have hafter : (Op.rollbackInstallClearance issuedGrantIds restoreRevokedGrantIds retiredAt
          now).after env d = d := by
        simp only [Op.after, Op.operation, if_pos hempty]
        rfl
      rw [hafter]
      exact Op.effect_of_still (List.map_id _).symm rfl (fun _ ↦ rfl) (fun _ ↦ rfl) rfl hid
    · have hgrants : ((Op.rollbackInstallClearance issuedGrantIds restoreRevokedGrantIds retiredAt
          now).after env d).grants = d.grants.map ((fun g ↦
            if restored retiredAt restoreRevokedGrantIds g then { g with revokedAt := none }
            else g) ∘ fun g ↦ if issued issuedGrantIds g then g.revoke now else g) := by
        simp only [Op.after, Op.operation, if_neg hempty]
        rw [rollbackInstallClearance, writes_revokeAll, grants_restoreAll, revokedAll,
          Tables.update, List.map_map]
      refine Op.effect_of_still hgrants rfl (fun _ ↦ rfl) (fun _ ↦ rfl) rfl fun g ↦ ?_
      simp only [Function.comp_apply]
      split_ifs
      · exact ⟨none, g.consumedAt, rfl⟩
      · exact ⟨some now, g.consumedAt, rfl⟩
      · exact ⟨none, g.consumedAt, rfl⟩
      · exact ⟨g.revokedAt, g.consumedAt, rfl⟩
  | resetAgentAuthority agentBindingId keepLocks now =>
    have hgrants : ((Op.resetAgentAuthority agentBindingId keepLocks now).after env d).grants =
        d.grants.map fun g ↦ if decide (g.subject = agentSubject agentBindingId) &&
          decide (g.scope = .agent) && g.revokedAt.isNone then g.revoke now else g := by
      simp only [Op.after, Op.operation, resetAgentAuthority, Work.writes, emitGrantWithdrawals,
        writes_afterCommits]
      split_ifs <;> rfl
    exact Op.effect_of_still hgrants rfl (fun _ ↦ rfl) (fun _ ↦ rfl) rfl
      (still_ite (still_revoke now))
  | lockTable write | subjectTable write =>
    exact Op.effect_of_still (List.map_id _).symm rfl (fun _ ↦ rfl) (fun _ ↦ rfl) rfl hid

/-- A lookup leaves a row alone that its sweep does not find idle. -/
theorem mem_after_lookup {env : Env L R} {d : Tables R} {subjects : List JsString} {now : ℤ}
    {g : GrantRow R} (hg : g ∈ d.grants) (hidle : ∀ t cutoff,
      (Op.grantsForSubjects subjects now : Op R).sweep? = some (t, cutoff) →
        idleAgentGrant cutoff g = false) :
    g ∈ ((Op.grantsForSubjects subjects now).after env d).grants := by
  by_cases hagent : (subjects.any fun subject ↦ (lit "agent:").isPrefixOf subject) = true
  · have hafter : (Op.grantsForSubjects subjects now).after env d =
        (suspendIdleAgentGrants env d now idleMs).writes d := by
      simp only [Op.after, Op.operation, if_pos hagent]
    rw [hafter, grants_suspend, List.mem_map]
    exact ⟨g, hg, by rw [hidle _ _ (if_pos hagent)]; rfl⟩
  · have hafter : (Op.grantsForSubjects subjects now).after env d = d := by
      simp only [Op.after, Op.operation, if_neg hagent]
      rfl
    rw [hafter]
    exact hg

/-- An operation that sweeps restores nothing. -/
theorem restores_of_sweep {op : Op R} {p : ℤ × ℤ} (h : op.sweep? = some p) (g : GrantRow R) :
    op.restores g = false := by
  cases op with
  | restore grantId => exact nomatch h
  | _ => rfl

/-- The sweep of an operation suspends an idle row. -/
theorem suspendedAt_of_idle {op : Op R} {now cutoff : ℤ} (h : op.sweep? = some (now, cutoff))
    {g : GrantRow R} (hidle : idleAgentGrant cutoff g = true) : op.suspendedAt g = some now := by
  rw [Op.suspendedAt, restores_of_sweep h, h]
  simp [hidle]

/-- A row is suspended by the sweep of an operation only, and when it is idle. -/
theorem idle_of_suspendedAt {op : Op R} {g : GrantRow R} (hg : g.suspendedAt = none)
    (h : op.suspendedAt g ≠ none) :
    ∃ now cutoff, op.sweep? = some (now, cutoff) ∧ idleAgentGrant cutoff g = true := by
  rw [Op.suspendedAt] at h
  split_ifs at h with hrestores
  · exact absurd rfl h
  · cases hsweep : op.sweep? with
    | none =>
      rw [hsweep] at h
      exact absurd hg h
    | some p =>
      rw [hsweep] at h
      refine ⟨p.1, p.2, rfl, ?_⟩
      by_contra hidle
      simp only [if_neg hidle] at h
      exact h hg

/-! ## Sequences of operations -/

/-- What makes a grant active. -/
inductive Activity where
  | created | used | restored
  deriving DecidableEq

/-- An activity of a grant at a time. -/
structure Mark where
  activity : Activity
  grantId : JsString
  time : ℤ
  deriving DecidableEq

/-- An operation that completes, at its time. -/
structure Moment (L R : Type) where
  now : ℤ
  env : Env L R
  op : Op R

/-- The activities an operation is, on the tables it finds. -/
def Moment.marks (m : Moment L R) (d : Tables R) : List Mark :=
  (m.op.inserts d).toList.map (fun row ↦ ⟨.created, row.id, m.now⟩) ++
  (d.grants.filter fun g ↦ (m.op.touches g).isSome).map (fun g ↦ ⟨.used, g.id, m.now⟩) ++
  (d.grants.filter fun g ↦ m.op.restores g).map (fun g ↦ ⟨.restored, g.id, m.now⟩)

/-- The tables, the time of the last operation, and the activities so far. -/
structure Timeline (R : Type) where
  tables : Tables R
  clock : ℤ
  marks : List Mark

namespace Timeline

/-- A store without grants. -/
def «open» (locks : List (LockRow R)) (subjects : List (SubjectRow R)) (clock : ℤ) : Timeline R :=
  ⟨⟨[], locks, subjects, List.nodup_nil⟩, clock, []⟩

variable (t : Timeline R)

def next (m : Moment L R) : Timeline R :=
  ⟨m.op.after m.env t.tables, m.now, t.marks ++ m.marks t.tables⟩

def after (ms : List (Moment L R)) : Timeline R := ms.foldl next t

theorem after_append (ms ms' : List (Moment L R)) :
    t.after (ms ++ ms') = (t.after ms).after ms' := List.foldl_append

/-- The operations that a call commits, transactions of the caller included, come one after the
other. -/
theorem tables_after_commits (env : Env L R) (now : ℤ) (script : Script R) (t : Timeline R) :
    (t.after ((script.commits env t.tables).map fun c ↦ ⟨now, env, c.op⟩)).tables =
      (script.work env t.tables).writes t.tables := by
  induction script generalizing t with
  | done | throw => rfl
  | call op fault caught rest ih =>
    have hnext := ih (t.next ⟨now, env, op⟩)
    rw [Script.work, Script.commits]
    cases hop : op.operation env t.tables with
    | transaction w =>
      have htables : (t.next ⟨now, env, op⟩).tables = w.writes t.tables := by
        simp only [Timeline.next, Op.after, hop]
      simp only [Work.writes]
      split_ifs
      · rw [List.map_cons]
        exact htables ▸ hnext
      · exact ih t
    | statement write =>
      have htables : (t.next ⟨now, env, op⟩).tables = write t.tables := by
        simp only [Timeline.next, Op.after, hop]
      simp only [Work.writes, List.map_cons]
      exact htables ▸ hnext
    | refused message =>
      simp only
      split_ifs
      · exact ih t
      · rfl
  | transaction fault body caught rest ihb ih =>
    rw [Script.work, Script.commits, Work.writes]
    split_ifs with hcompletes
    · rw [List.map_append, after_append]
      have hrest := ih (t.after ((body.commits env t.tables).map fun c ↦ ⟨now, env, c.op⟩))
      rw [ihb t] at hrest
      exact hrest
    · exact ih t

/-- The operation is not earlier than the one before it, and has been given its time. -/
structure Takes (m : Moment L R) : Prop where
  later : t.clock ≤ m.now
  time : ∀ now, m.op.now? = some now → now = m.now

/-- The operations come at nondecreasing times. -/
def Ordered : Timeline R → List (Moment L R) → Prop
  | _, [] => True
  | t, m :: ms => t.Takes m ∧ Ordered (t.next m) ms

/-- **How far the columns tell the activities.** -/
structure Tracked : Prop where
  past : ∀ mark ∈ t.marks, mark.time ≤ t.clock
  known : ∀ mark ∈ t.marks, ∃ g ∈ t.tables.grants, g.id = mark.grantId
  creation : ∀ g ∈ t.tables.grants, ⟨.created, g.id, g.createdAt⟩ ∈ t.marks
  created : ∀ g ∈ t.tables.grants, ∀ mark ∈ t.marks, mark.grantId = g.id →
    mark.activity = .created → mark.time = g.createdAt
  used : ∀ g ∈ t.tables.grants, ∀ mark ∈ t.marks, mark.grantId = g.id → mark.activity = .used →
    ∃ lastUsedAt, g.lastUsedAt = some lastUsedAt ∧ mark.time ≤ lastUsedAt

theorem tracked_open (locks : List (LockRow R)) (subjects : List (SubjectRow R)) (clock : ℤ) :
    (Timeline.open locks subjects clock).Tracked :=
  ⟨fun _ h ↦ absurd h List.not_mem_nil, fun _ h ↦ absurd h List.not_mem_nil,
    fun _ h ↦ absurd h List.not_mem_nil, fun _ h ↦ absurd h List.not_mem_nil,
    fun _ h ↦ absurd h List.not_mem_nil⟩

end Timeline

/-- The time and the grant of an activity of an operation. -/
theorem mem_marks {m : Moment L R} {d : Tables R} {mark : Mark} (h : mark ∈ m.marks d) :
    mark.time = m.now ∧
      ((∃ row, m.op.inserts d = some row ∧ mark.activity = .created ∧ mark.grantId = row.id) ∨
      (∃ g ∈ d.grants, (m.op.touches g).isSome = true ∧ mark.activity = .used ∧
        mark.grantId = g.id) ∨
      (∃ g ∈ d.grants, m.op.restores g = true ∧ mark.activity = .restored ∧
        mark.grantId = g.id)) := by
  rw [Moment.marks, List.append_assoc, List.mem_append, List.mem_append] at h
  rcases h with h | h | h
  · obtain ⟨row, hrow, rfl⟩ := List.mem_map.mp h
    exact ⟨rfl, .inl ⟨row, Option.mem_toList.mp hrow, rfl, rfl⟩⟩
  · obtain ⟨g, hg, rfl⟩ := List.mem_map.mp h
    exact ⟨rfl, .inr (.inl ⟨g, (List.mem_filter.mp hg).1, (List.mem_filter.mp hg).2, rfl, rfl⟩)⟩
  · obtain ⟨g, hg, rfl⟩ := List.mem_map.mp h
    exact ⟨rfl, .inr (.inr ⟨g, (List.mem_filter.mp hg).1, (List.mem_filter.mp hg).2, rfl, rfl⟩)⟩

/-- The row `issue` inserts has an id of its own and the time it was given. -/
theorem inserts_spec {op : Op R} {d : Tables R} {row : GrantRow R} (h : op.inserts d = some row) :
    row.id ∉ d.grants.map GrantRow.id ∧ op.now? = some row.createdAt := by
  cases op with
  | issue row' refusal =>
    cases refusal with
    | some message => exact nomatch h
    | none =>
      rw [Op.inserts] at h
      split_ifs at h with hid
      rw [← Option.some.inj h]
      exact ⟨hid, rfl⟩
  | _ => exact nomatch h

/-- An operation that touches a row has been given the time it writes. -/
theorem touches_now {op : Op R} {g : GrantRow R} {now : ℤ} (h : op.touches g = some now) :
    op.now? = some now := by
  cases op with
  | touch grantId now' =>
    rw [Op.touches] at h
    split_ifs at h
    exact h
  | _ => exact nomatch h

namespace Timeline

variable {t : Timeline R} {m : Moment L R}

/-- **One operation** keeps the columns in step with the activities. -/
theorem Tracked.next (h : t.Tracked) (htakes : t.Takes m) : (t.next m).Tracked := by
  have heffect := effect_after m.env m.op t.tables
  -- a row that was there and one that is inserted do not share an id
  have hfresh : ∀ row, m.op.inserts t.tables = some row → ∀ g ∈ t.tables.grants,
      g.id ≠ row.id := fun row hrow g hg heq ↦
    (inserts_spec hrow).1 (heq ▸ List.mem_map_of_mem hg)
  have hunmarked : ∀ row, m.op.inserts t.tables = some row → ∀ mark ∈ t.marks,
      mark.grantId ≠ row.id := by
    intro row hrow mark hmark heq
    obtain ⟨g, hg, hid⟩ := h.known mark hmark
    exact hfresh row hrow g hg (hid.trans heq)
  have hinserted : ∀ row, m.op.inserts t.tables = some row → row.createdAt = m.now :=
    fun row hrow ↦ htakes.time _ (inserts_spec hrow).2
  refine ⟨fun mark hmark ↦ ?_, fun mark hmark ↦ ?_, fun g' hg' ↦ ?_, fun g' hg' mark hmark hid hact ↦ ?_,
    fun g' hg' mark hmark hid hact ↦ ?_⟩
  · rcases List.mem_append.mp hmark with hmark | hmark
    · exact (h.past mark hmark).trans htakes.later
    · exact (mem_marks hmark).1.le
  · rcases List.mem_append.mp hmark with hmark | hmark
    · obtain ⟨g, hg, hid⟩ := h.known mark hmark
      obtain ⟨g', hg', hchanges⟩ := heffect.rows g hg
      exact ⟨g', hg', hchanges.id.trans hid⟩
    · rcases (mem_marks hmark).2 with ⟨row, hrow, -, hid⟩ | ⟨g, hg, -, -, hid⟩ | ⟨g, hg, -, -, hid⟩
      · exact ⟨row, heffect.inserted row hrow, hid.symm⟩
      · obtain ⟨g', hg', hchanges⟩ := heffect.rows g hg
        exact ⟨g', hg', hchanges.id.trans hid.symm⟩
      · obtain ⟨g', hg', hchanges⟩ := heffect.rows g hg
        exact ⟨g', hg', hchanges.id.trans hid.symm⟩
  · rcases heffect.origin g' hg' with ⟨g, hg, hchanges⟩ | hrow
    · rw [hchanges.id, hchanges.createdAt]
      exact List.mem_append_left _ (h.creation g hg)
    · rw [hinserted g' hrow]
      apply List.mem_append_right
      rw [Moment.marks, hrow]
      exact List.mem_append_left _ (List.mem_append_left _ (List.mem_singleton_self _))
  · rcases heffect.origin g' hg' with ⟨g, hg, hchanges⟩ | hrow
    · rw [hchanges.createdAt]
      rw [hchanges.id] at hid
      rcases List.mem_append.mp hmark with hmark | hmark
      · exact h.created g hg mark hmark hid hact
      · rcases (mem_marks hmark).2 with ⟨row, hrow, -, hid'⟩ | ⟨_, -, -, hact', -⟩ | ⟨_, -, -, hact', -⟩
        · exact absurd (hid.symm.trans hid') (hfresh row hrow g hg)
        · exact nomatch hact.symm.trans hact'
        · exact nomatch hact.symm.trans hact'
    · rcases List.mem_append.mp hmark with hmark | hmark
      · exact absurd hid (hunmarked g' hrow mark hmark)
      · rw [(mem_marks hmark).1, hinserted g' hrow]
  · rcases heffect.origin g' hg' with ⟨g, hg, hchanges⟩ | hrow
    · rw [hchanges.lastUsedAt, Op.lastUsedAt]
      rw [hchanges.id] at hid
      cases htouches : m.op.touches g with
      | some now =>
        -- the latest use is the one of this operation
        refine ⟨now, rfl, ?_⟩
        rw [htakes.time now (touches_now htouches)]
        rcases List.mem_append.mp hmark with hmark | hmark
        · exact (h.past mark hmark).trans htakes.later
        · exact (mem_marks hmark).1.le
      | none =>
        rw [Option.none_or]
        rcases List.mem_append.mp hmark with hmark | hmark
        · exact h.used g hg mark hmark hid hact
        · rcases (mem_marks hmark).2 with ⟨_, -, hact', -⟩ | ⟨g₁, hg₁, htouch, -, hid'⟩ | ⟨_, -, -, hact', -⟩
          · exact nomatch hact.symm.trans hact'
          · rw [t.tables.eq_of_id hg₁ hg (hid'.symm.trans hid), htouches] at htouch
            exact nomatch htouch
          · exact nomatch hact.symm.trans hact'
    · rcases List.mem_append.mp hmark with hmark | hmark
      · exact absurd hid (hunmarked g' hrow mark hmark)
      · rcases (mem_marks hmark).2 with ⟨_, -, hact', -⟩ | ⟨g, hg, -, -, hid'⟩ | ⟨_, -, -, hact', -⟩
        · exact nomatch hact.symm.trans hact'
        · exact absurd (hid'.symm.trans hid) (hfresh g' hrow g hg)
        · exact nomatch hact.symm.trans hact'

theorem Tracked.after {ms : List (Moment L R)} (h : t.Tracked) (hordered : t.Ordered ms) :
    ∀ pre post, ms = pre ++ post → (t.after pre).Tracked := by
  intro pre
  induction pre generalizing t ms with
  | nil => exact fun _ _ ↦ h
  | cons m pre ih =>
    rintro post rfl
    exact ih (h.next hordered.1) hordered.2 post rfl

/-! ## Which grants a sweep suspends -/

variable (t) in
/-- The operation suspends the standing grant. -/
structure Suspends (m : Moment L R) (g : GrantRow R) : Prop where
  found : g ∈ t.tables.grants
  standing : g.scope = .agent
  before : g.suspendedAt = none
  after : ∃ g' ∈ (t.next m).tables.grants, g'.id = g.id ∧ g'.suspendedAt ≠ none

variable (t) in
/-- **A sweep suspends inactive grants only.** -/
def SparesActive (m : Moment L R) : Prop := ∀ now cutoff, m.op.sweep? = some (now, cutoff) →
  ∀ g, t.Suspends m g → ∀ mark ∈ t.marks, mark.grantId = g.id → mark.time ≤ cutoff

variable (t) in
/-- **The condition on a sweep**: a standing grant that was issued or restored after the cutoff has
a last use after it, or was created after it and has none. -/
def Meets (m : Moment L R) : Prop := ∀ now cutoff, m.op.sweep? = some (now, cutoff) →
  ∀ g ∈ t.tables.grants, g.scope = .agent → g.active = true →
    (cutoff < g.createdAt ∨ ∃ mark ∈ t.marks, mark.activity = .restored ∧ mark.grantId = g.id ∧
      cutoff < mark.time) → cutoff < g.lastUsedAt.getD g.createdAt

theorem idleAgentGrant_iff {cutoff : ℤ} {g : GrantRow R} : idleAgentGrant cutoff g = true ↔
    g.scope = .agent ∧ g.active = true ∧ g.lastUsedAt.getD g.createdAt ≤ cutoff := by
  simp only [idleAgentGrant, active_iff, Bool.and_eq_true, decide_eq_true_eq]
  tauto

/-- What suspends a row is a sweep that finds it idle. -/
theorem Suspends.idle {g : GrantRow R} (h : t.Suspends m g) :
    ∃ now cutoff, m.op.sweep? = some (now, cutoff) ∧ idleAgentGrant cutoff g = true := by
  obtain ⟨g', hg', hid, hsuspended⟩ := h.after
  rcases (effect_after m.env m.op t.tables).origin g' hg' with ⟨g₁, hg₁, hchanges⟩ | hrow
  · obtain rfl := t.tables.eq_of_id hg₁ h.found (hchanges.id.symm.trans hid)
    exact idle_of_suspendedAt h.before (hchanges.suspendedAt ▸ hsuspended)
  · exact absurd (hid ▸ List.mem_map_of_mem h.found) (inserts_spec hrow).1

/-- **A sweep spares the active grants exactly when it meets its condition.** -/
theorem sparesActive_iff (h : t.Tracked) : t.SparesActive m ↔ t.Meets m := by
  constructor
  · intro hspares now cutoff hsweep g hg hscope hactive hrecent
    by_contra hlast
    have hidle : idleAgentGrant cutoff g = true :=
      idleAgentGrant_iff.mpr ⟨hscope, hactive, not_lt.mp hlast⟩
    obtain ⟨g', hg', hchanges⟩ := (effect_after m.env m.op t.tables).rows g hg
    have hsuspends : t.Suspends m g := by
      refine ⟨hg, hscope, Option.isNone_iff_eq_none.mp (active_iff.mp hactive).2.2, g', hg',
        hchanges.id, ?_⟩
      rw [hchanges.suspendedAt, suspendedAt_of_idle hsweep hidle]
      exact Option.some_ne_none now
    have hmarks := hspares now cutoff hsweep g hsuspends
    rcases hrecent with hcreated | ⟨mark, hmark, -, hid, htime⟩
    · exact absurd (hmarks _ (h.creation g hg) rfl) (not_le.mpr hcreated)
    · exact absurd (hmarks mark hmark hid) (not_le.mpr htime)
  · intro hmeets now cutoff hsweep g hsuspends mark hmark hid
    obtain ⟨now', cutoff', hsweep', hidle⟩ := hsuspends.idle
    obtain ⟨rfl, rfl⟩ := Prod.mk.inj (Option.some.inj (hsweep.symm.trans hsweep'))
    obtain ⟨hscope, hactive, hlast⟩ := idleAgentGrant_iff.mp hidle
    by_contra htime
    rw [not_le] at htime
    have hg := hsuspends.found
    cases hactivity : mark.activity with
    | created =>
      rw [h.created g hg mark hmark hid hactivity] at htime
      exact absurd hlast (not_le.mpr (hmeets _ _ hsweep g hg hscope hactive (.inl htime)))
    | used =>
      obtain ⟨lastUsedAt, hused, hle⟩ := h.used g hg mark hmark hid hactivity
      rw [hused, Option.getD_some] at hlast
      omega
    | restored =>
      exact absurd hlast (not_le.mpr (hmeets _ _ hsweep g hg hscope hactive
        (.inr ⟨mark, hmark, hactivity, hid, htime⟩)))

/-! ## What a lookup returns -/

/-- A restored grant stays unsuspended over a step that spares it. -/
theorem unsuspended_next (hspares : t.SparesActive m) {g : GrantRow R} (hg : g ∈ t.tables.grants)
    (hsuspended : g.suspendedAt = none) {mark : Mark} (hmark : mark ∈ t.marks)
    (hid : mark.grantId = g.id)
    (hsweep : ∀ now cutoff, m.op.sweep? = some (now, cutoff) → cutoff < mark.time) :
    (∀ now cutoff, m.op.sweep? = some (now, cutoff) → idleAgentGrant cutoff g = false) ∧
    ∃ g' ∈ (t.next m).tables.grants, g'.id = g.id ∧ g'.suspendedAt = none := by
  obtain ⟨g', hg', hchanges⟩ := (effect_after m.env m.op t.tables).rows g hg
  have hspared : ∀ now cutoff, m.op.sweep? = some (now, cutoff) →
      idleAgentGrant cutoff g = false := by
    intro now cutoff hs
    by_contra hidle
    rw [Bool.not_eq_false] at hidle
    have hsuspends : t.Suspends m g := by
      refine ⟨hg, (idleAgentGrant_iff.mp hidle).1, hsuspended, g', hg', hchanges.id, ?_⟩
      rw [hchanges.suspendedAt, suspendedAt_of_idle hs hidle]
      exact Option.some_ne_none now
    exact absurd (hspares now cutoff hs g hsuspends mark hmark hid) (not_le.mpr (hsweep _ _ hs))
  refine ⟨hspared, g', hg', hchanges.id, ?_⟩
  rw [hchanges.suspendedAt]
  by_contra hsuspended'
  obtain ⟨now, cutoff, hs, hidle⟩ := idle_of_suspendedAt hsuspended hsuspended'
  rw [hspared now cutoff hs] at hidle
  exact nomatch hidle

theorem unsuspended_after {mid : List (Moment L R)} {mark : Mark}
    (hspares : ∀ pre m post, mid = pre ++ m :: post → (t.after pre).SparesActive m)
    (hsweep : ∀ m ∈ mid, ∀ now cutoff, m.op.sweep? = some (now, cutoff) → cutoff < mark.time)
    (hmark : mark ∈ t.marks)
    (h : ∃ g ∈ t.tables.grants, g.id = mark.grantId ∧ g.suspendedAt = none) :
    mark ∈ (t.after mid).marks ∧
      ∃ g ∈ (t.after mid).tables.grants, g.id = mark.grantId ∧ g.suspendedAt = none := by
  induction mid generalizing t with
  | nil => exact ⟨hmark, h⟩
  | cons m mid ih =>
    obtain ⟨g, hg, hid, hsuspended⟩ := h
    obtain ⟨g', hg', hid', hsuspended'⟩ := (unsuspended_next (hspares [] m mid rfl) hg hsuspended
      hmark hid.symm (hsweep m List.mem_cons_self)).2
    refine ih (t := t.next m) (fun pre m' post heq ↦ ?_)
      (fun m' hm' ↦ hsweep m' (List.mem_cons_of_mem _ hm')) (List.mem_append_left _ hmark)
      ⟨g', hg', hid'.trans hid, hsuspended'⟩
    exact hspares (m :: pre) m' post (congrArg (m :: ·) heq)

variable (t) in
/-- **Standing grants survive restoration.** A sweep suspends inactive grants only, and a lookup
returns a grant that was restored within the idle window and not revoked, when all sweeps in between
look back beyond the restoration. -/
structure KeepsActive (columns : LookupColumns R) (ms : List (Moment L R)) : Prop where
  suspends : ∀ pre m post, ms = pre ++ m :: post → (t.after pre).SparesActive m
  returns : ∀ pre restoration mid lookup post, ms = pre ++ restoration :: (mid ++ lookup :: post) →
    ∀ g₀ ∈ (t.after pre).tables.grants, restoration.op.restores g₀ = true →
    ∀ subjects now, lookup.op = .grantsForSubjects subjects now → now < restoration.now + idleMs →
    (∀ m ∈ mid, ∀ now' cutoff, m.op.sweep? = some (now', cutoff) → cutoff < restoration.now) →
    ∀ g ∈ (t.after (pre ++ restoration :: mid)).tables.grants, g.id = g₀.id →
    g.revokedAt = none → g.subject ∈ subjects → columns.unexpired now g = true →
    ∀ capability,
      Shared.capabilityPatternCovers (columns.capability g.rest) capability = true →
      g ∈ foundGrants columns (lookup.op.after lookup.env
        (t.after (pre ++ restoration :: mid)).tables) subjects capability now

/-- A restoration is an activity, and leaves the grant unsuspended. -/
theorem restored_next {g : GrantRow R} (hg : g ∈ t.tables.grants)
    (hrestores : m.op.restores g = true) :
    ⟨.restored, g.id, m.now⟩ ∈ (t.next m).marks ∧
      ∃ g' ∈ (t.next m).tables.grants, g'.id = g.id ∧ g'.suspendedAt = none := by
  constructor
  · apply List.mem_append_right
    apply List.mem_append_right
    exact List.mem_map.mpr ⟨g, List.mem_filter.mpr ⟨hg, hrestores⟩, rfl⟩
  · obtain ⟨g', hg', hchanges⟩ := (effect_after m.env m.op t.tables).rows g hg
    refine ⟨g', hg', hchanges.id, ?_⟩
    rw [hchanges.suspendedAt, Op.suspendedAt, if_pos hrestores]

/-- The lookups follow from the sweeps. -/
theorem keepsActive_of_spares {columns : LookupColumns R} {ms : List (Moment L R)}
    (h : ∀ pre m post, ms = pre ++ m :: post → (t.after pre).SparesActive m) :
    t.KeepsActive columns ms := by
  refine ⟨h, ?_⟩
  intro pre restoration mid lookup post hms g₀ hg₀ hrestores subjects now hlookup hnow hsweep g hg
    hid hrevoked hsubject hunexpired capability hcovers
  have hsplit : t.after (pre ++ restoration :: mid) =
      ((t.after pre).next restoration).after mid := t.after_append pre (restoration :: mid)
  obtain ⟨hmark, hrow⟩ := restored_next hg₀ hrestores
  obtain ⟨hmark', g', hg', hid', hsuspended⟩ := unsuspended_after
    (t := (t.after pre).next restoration)
    (fun pre' m post' heq ↦ by
      have hstart : t.after (pre ++ restoration :: pre') =
        ((t.after pre).next restoration).after pre' := t.after_append pre (restoration :: pre')
      rw [← hstart]
      refine h _ m (post' ++ lookup :: post) ?_
      rw [hms, heq, List.append_assoc, List.append_assoc, List.cons_append, List.cons_append])
    hsweep hmark hrow
  rw [← hsplit] at hmark' hg'
  obtain rfl := (t.after (pre ++ restoration :: mid)).tables.eq_of_id hg' hg (hid'.trans hid.symm)
  have hspared : (t.after (pre ++ restoration :: mid)).SparesActive lookup := by
    refine h _ lookup post ?_
    rw [hms, List.append_assoc, List.cons_append]
  have hcutoff : ∀ t' cutoff, lookup.op.sweep? = some (t', cutoff) → cutoff < restoration.now := by
    intro t' cutoff hs
    rw [hlookup, Op.sweep?] at hs
    split_ifs at hs
    have hcut : now - idleMs = cutoff := congrArg Prod.snd (Option.some.inj hs)
    omega
  have hidle := (unsuspended_next hspared hg' hsuspended hmark' hid.symm hcutoff).1
  rw [hlookup] at hidle ⊢
  exact mem_foundGrants columns (mem_after_lookup hg' hidle) hsubject hrevoked hsuspended
    hunexpired hcovers

/-- **When standing grants survive restoration**: in a sequence of operations at nondecreasing times,
exactly when every sweep meets its condition. -/
theorem keepsActive_iff (columns : LookupColumns R) (locks : List (LockRow R))
    (subjects : List (SubjectRow R)) (clock : ℤ) (ms : List (Moment L R))
    (h : (Timeline.open locks subjects clock).Ordered ms) :
    (Timeline.open locks subjects clock).KeepsActive columns ms ↔
      ∀ pre m post, ms = pre ++ m :: post →
        ((Timeline.open locks subjects clock).after pre).Meets m := by
  have htracked (pre : List (Moment L R)) (m : Moment L R) (post : List (Moment L R))
      (heq : ms = pre ++ m :: post) := (tracked_open locks subjects clock).after h pre _ heq
  constructor
  · intro hkeeps pre m post heq
    exact (sparesActive_iff (htracked pre m post heq)).mp (hkeeps.suspends pre m post heq)
  · intro hmeets
    apply keepsActive_of_spares
    intro pre m post heq
    exact (sparesActive_iff (htracked pre m post heq)).mpr (hmeets pre m post heq)

/-- A grant is issued and used, goes idle, is restored, and is used again before the next lookup. -/
def usedAgain : List (Moment Unit Unit) :=
  let row : GrantRow Unit := ⟨lit "g", lit "agent:a", none, none, 0, none, none, .agent, none, none, ()⟩
  let env : Env Unit Unit := ⟨[], fun _ _ _ ↦ false, []⟩
  [⟨0, env, .issue row none⟩, ⟨idleMs, env, .grantsForSubjects [lit "agent:a"] idleMs⟩,
    ⟨idleMs, env, .restore (lit "g")⟩, ⟨idleMs, env, .touch (lit "g") idleMs⟩,
    ⟨idleMs + 1, env, .grantsForSubjects [lit "agent:a"] (idleMs + 1)⟩]

/-- The same without the use. -/
def restoredOnly : List (Moment Unit Unit) := usedAgain.eraseIdx 3

theorem ordered_usedAgain : (Timeline.open [] [] 0).Ordered usedAgain := by
  refine ⟨⟨by decide, ?_⟩, ⟨by decide, ?_⟩, ⟨by decide, ?_⟩, ⟨by decide, ?_⟩, ⟨by decide, ?_⟩,
    trivial⟩
  all_goals
    intro now h
    first
    | exact (Option.some.inj h).symm
    | exact nomatch h

theorem ordered_restoredOnly : (Timeline.open [] [] 0).Ordered restoredOnly := by
  refine ⟨⟨by decide, ?_⟩, ⟨by decide, ?_⟩, ⟨by decide, ?_⟩, ⟨by decide, ?_⟩, trivial⟩
  all_goals
    intro now h
    first
    | exact (Option.some.inj h).symm
    | exact nomatch h

theorem keepsActive_iff_of_usedAgain :
    (Timeline.open [] [] 0).KeepsActive ⟨fun _ ↦ lit "c", fun _ ↦ none⟩ usedAgain ↔
      ∀ pre m post, usedAgain = pre ++ m :: post → ((Timeline.open [] [] 0).after pre).Meets m :=
  keepsActive_iff ⟨fun _ ↦ lit "c", fun _ ↦ none⟩ [] [] 0 usedAgain ordered_usedAgain

/-- Restoration alone does not keep a grant: the next lookup suspends it again. -/
theorem not_keepsActive_restoredOnly :
    (Timeline.open [] [] 0).Ordered restoredOnly ∧
    ¬(Timeline.open [] [] 0).KeepsActive ⟨fun _ ↦ lit "c", fun _ ↦ none⟩ restoredOnly := by
  refine ⟨ordered_restoredOnly, fun h ↦ ?_⟩
  have hspares := h.suspends (restoredOnly.take 3) _ [] rfl (idleMs + 1) 1 rfl
    ⟨lit "g", lit "agent:a", none, none, 0, none, none, .agent, none, none, ()⟩
    ⟨by decide +kernel, rfl, rfl, ⟨lit "g", lit "agent:a", none, none, 0, none, none, .agent,
      some (idleMs + 1), none, ()⟩, by decide +kernel, rfl, by decide⟩
    ⟨.restored, lit "g", idleMs⟩ (by decide +kernel) rfl
  exact absurd hspares (by decide)

end Timeline

end Vibestudio.Server

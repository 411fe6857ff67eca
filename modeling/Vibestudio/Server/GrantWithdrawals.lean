import Mathlib
import Vibestudio.Server.CapabilityGrantStore

/-!
# Every withdrawn grant is announced

An operation announces what it withdrew when each active grant it leaves revoked or suspended is
told to every listener exactly once, after the commit, and nothing else is told. Three operations
select the rows they change and the rows they tell separately, and do not always agree:
`pruneSession` tells nothing, `resetAgentAuthority` of the empty binding lists the grants of every
agent, and `rollbackInstallClearance` may restore what it has just revoked. `Op.meets` is the
condition that keeps them apart.
-/

namespace Vibestudio.Server

open Js Sqlite

variable {L R : Type}

/-! ## One operation -/

/-- The effects of an operation are the withdrawals it made. -/
structure Announced (before after : Tables R) (withdrawals : List (GrantRow R × ℤ)) : Prop where
  once : ∀ g ∈ before.grants, g.active = true → ∀ g' ∈ after.grants, g'.id = g.id →
    g'.withdrawn = true → ∃ now, (withdrawals.filter fun p ↦ decide (p.1.id = g.id)) = [(g, now)]
  changed : ∀ p ∈ withdrawals, p.1 ∈ before.grants ∧
    ∀ g' ∈ after.grants, g'.id = p.1.id → g'.state ≠ p.1.state

def LiveEffect.withdrawal? : LiveEffect R → Option (GrantRow R × ℤ)
  | withdrawal grant now => some (grant, now)
  | abort _ => none

/-- A key that is not repeated picks one element out. -/
theorem filter_key_of_nodup {α β : Type} [DecidableEq β] {f : α → β} {xs : List α}
    (h : (xs.map f).Nodup) {x : α} (hx : x ∈ xs) : (xs.filter fun y ↦ decide (f y = f x)) = [x] := by
  induction xs with
  | nil => exact absurd hx List.not_mem_nil
  | cons a xs ih =>
    obtain ⟨ha, hxs⟩ := List.nodup_cons.mp h
    rcases List.mem_cons.mp hx with rfl | hx
    · rw [List.filter_cons_of_pos (by simp), List.filter_eq_nil_iff.mpr]
      intro y hy
      have hne : f y ≠ f x := fun heq ↦ ha (heq ▸ List.mem_map_of_mem hy)
      simpa using hne
    · have hne : f a ≠ f x := fun heq ↦ ha (heq ▸ List.mem_map_of_mem hx)
      rw [List.filter_cons_of_neg (by simpa using hne)]
      exact ih hxs hx

/-- **One pass over the rows** is announced by the list of the active rows it withdrew. -/
theorem announced_of_map {before after : Tables R} {f : GrantRow R → GrantRow R}
    {gs : List (GrantRow R)} (hafter : after.grants = before.grants.map f)
    (hid : ∀ g, (f g).id = g.id) (hnodup : (gs.map GrantRow.id).Nodup)
    (htold : ∀ g ∈ gs, g ∈ before.grants ∧ (f g).state ≠ g.state)
    (hall : ∀ g ∈ before.grants, g.active = true → (f g).withdrawn = true → g ∈ gs) (now : ℤ) :
    Announced before after (gs.map fun g ↦ (g, now)) := by
  -- the row of an id afterwards is the image of the row before
  have hrow : ∀ g ∈ before.grants, ∀ g' ∈ after.grants, g'.id = g.id → g' = f g := by
    intro g hg g' hg' heq
    rw [hafter] at hg'
    obtain ⟨g₀, hg₀, rfl⟩ := List.mem_map.mp hg'
    rw [before.eq_of_id hg₀ hg ((hid g₀).symm.trans heq)]
  refine ⟨fun g hg hactive g' hg' heq hwithdrawn ↦ ⟨now, ?_⟩, fun p hp ↦ ?_⟩
  · rw [hrow g hg g' hg' heq] at hwithdrawn
    rw [List.filter_map]
    exact congrArg _ (filter_key_of_nodup hnodup (hall g hg hactive hwithdrawn))
  · obtain ⟨g, hg, rfl⟩ := List.mem_map.mp hp
    refine ⟨(htold g hg).1, fun g' hg' heq ↦ ?_⟩
    rw [hrow g (htold g hg).1 g' hg' heq]
    exact (htold g hg).2

theorem announced_of_update {before after : Tables R} {p : GrantRow R → Bool}
    {set : GrantRow R → GrantRow R} {l : List (GrantRow R)}
    (hafter : after.grants = before.grants.map fun g ↦ if p g then set g else g)
    (hset : ∀ g, (set g).id = g.id) (hnodup : (l.map GrantRow.id).Nodup)
    (htold : ∀ g ∈ l, g ∈ before.grants ∧ p g = true ∧ (set g).state ≠ g.state)
    (hall : ∀ g ∈ before.grants, g.active = true → p g = true → (set g).withdrawn = true → g ∈ l)
    (now : ℤ) : Announced before after (l.map fun g ↦ (g, now)) := by
  refine announced_of_map hafter (fun g ↦ ?_) hnodup (fun g hg ↦ ?_) (fun g hg hactive hw ↦ ?_) now
  · split_ifs
    · exact hset g
    · rfl
  · obtain ⟨hmem, hp, hstate⟩ := htold g hg
    rw [if_pos hp]
    exact ⟨hmem, hstate⟩
  · split_ifs at hw with hp
    · exact hall g hg hactive hp hw
    · -- a row that is left alone and active is not withdrawn
      simp only [GrantRow.active, Bool.and_eq_true, Option.isNone_iff_eq_none] at hactive
      simp [GrantRow.withdrawn, hactive.1.1, hactive.2] at hw

/-- Nothing is told by an update that withdraws no active row. -/
theorem announced_nil_of_update {before after : Tables R} {p : GrantRow R → Bool}
    {set : GrantRow R → GrantRow R}
    (hafter : after.grants = before.grants.map fun g ↦ if p g then set g else g)
    (hset : ∀ g, (set g).id = g.id)
    (hall : ∀ g ∈ before.grants, g.active = true → p g = true → ¬(set g).withdrawn = true) :
    Announced before after [] :=
  announced_of_update hafter hset (l := []) List.nodup_nil (fun _ hg ↦ absurd hg List.not_mem_nil)
    (fun g hg hactive hp hw ↦ absurd hw (hall g hg hactive hp)) 0

/-- Nothing is told by an operation that leaves the grants alone. -/
theorem announced_nil_of_grants {before after : Tables R} (hafter : after.grants = before.grants) :
    Announced before after [] :=
  announced_nil_of_update (p := fun _ ↦ false) (by simp [hafter])
    (fun g ↦ (rfl : (id g).id = g.id)) fun _ _ _ h ↦ absurd h (by simp)

theorem state_revoke {now : ℤ} {g : GrantRow R} (h : g.revokedAt.isNone = true) :
    (g.revoke now).state ≠ g.state := by
  rw [Option.isNone_iff_eq_none] at h
  simp [GrantRow.revoke, GrantRow.state, h]

theorem active_iff {g : GrantRow R} : g.active = true ↔
    g.revokedAt.isNone = true ∧ g.consumedAt.isNone = true ∧ g.suspendedAt.isNone = true := by
  rw [GrantRow.active, Bool.and_eq_true, Bool.and_eq_true, and_assoc]

/-! ### The work of the operations -/

section

variable (env : Env L R)

theorem outcome_afterCommits (effects : List (LiveEffect R)) (next : GrantWork R) :
    (afterCommits env effects next).outcome = next.outcome := by
  induction effects with
  | nil => rfl
  | cons e effects ih => exact ih

theorem writes_afterCommits (effects : List (LiveEffect R)) (next : GrantWork R) (d : Tables R) :
    (afterCommits env effects next).writes d = next.writes d := by
  induction effects with
  | nil => rfl
  | cons e effects ih => exact ih

theorem registered_afterCommits (effects : List (LiveEffect R)) (next : GrantWork R) :
    (afterCommits env effects next).registered =
      (effects.map fun e ↦ (e, e.body env)) ++ next.registered := by
  induction effects with
  | nil => rfl
  | cons e effects ih => exact congrArg ((e, e.body env) :: ·) ih

/-- The effects a piece of work registers are those of the store. -/
def Plain (w : GrantWork R) : Prop := ∀ p ∈ w.registered, p.2 = p.1.body env

theorem plain_afterCommits {effects : List (LiveEffect R)} {next : GrantWork R}
    (h : Plain env next) : Plain env (afterCommits env effects next) := by
  intro p hp
  rw [registered_afterCommits] at hp
  rcases List.mem_append.mp hp with hp | hp
  · obtain ⟨e, -, rfl⟩ := List.mem_map.mp hp
    rfl
  · exact h p hp

theorem plain_done : Plain env (.done : GrantWork R) := fun _ hp ↦ absurd hp List.not_mem_nil

/-- What a piece of work tells. -/
def told (w : GrantWork R) : List (GrantRow R × ℤ) :=
  (w.registered.map Prod.fst).filterMap LiveEffect.withdrawal?

theorem told_write (f : Tables R → Tables R) (next : GrantWork R) :
    told (.write f next) = told next := rfl

theorem told_afterCommits (effects : List (LiveEffect R)) (next : GrantWork R) :
    told (afterCommits env effects next) =
      effects.filterMap LiveEffect.withdrawal? ++ told next := by
  rw [told, registered_afterCommits, List.map_append, List.filterMap_append, List.map_map]
  exact congrArg (fun es ↦ List.filterMap LiveEffect.withdrawal? es ++ _) (List.map_id' _)

theorem told_emitGrantWithdrawals (gs : List (GrantRow R)) (now : ℤ) (next : GrantWork R) :
    told (emitGrantWithdrawals env gs now next) = gs.map (fun g ↦ (g, now)) ++ told next := by
  rw [emitGrantWithdrawals, told_afterCommits, List.filterMap_map]
  exact congrArg (· ++ _) (congrFun List.filterMap_eq_map gs)

theorem told_aborts {α : Type} (f : α → JsString) (ps : List α) (next : GrantWork R) :
    told (afterCommits env (ps.map fun p ↦ .abort (f p)) next) = told next := by
  rw [told_afterCommits, List.filterMap_map]
  exact congrArg (· ++ _) (List.filterMap_eq_nil_iff.mpr fun _ _ ↦ rfl)

end

/-! ### A single revocation -/

section

variable (env : Env L R) (d : Tables R)

/-- `gs` lists the rows that meet `p`, each once. -/
structure Lists (p : GrantRow R → Bool) (gs : List (GrantRow R)) : Prop where
  nodup : (gs.map GrantRow.id).Nodup
  mem : ∀ g, g ∈ gs ↔ g ∈ d.grants ∧ p g = true

theorem lists_select (p : GrantRow R → Bool) : Lists d p (d.select p) :=
  ⟨d.nodup_select p, fun _ ↦ d.mem_select⟩

theorem lists_listAuthorityGrants (p : GrantRow R → Bool) :
    Lists d p (d.listAuthorityGrants.filter p) := by
  refine ⟨(d.nodup_select _).sublist (List.filter_sublist.map _), fun g ↦ ?_⟩
  rw [List.mem_filter, Tables.listAuthorityGrants, Tables.mem_select]
  simp

/-- `revoke` tells the row it revokes, if there is one. -/
theorem told_revoke (grantId : JsString) (now : ℤ) : ∃ gs,
    told (revoke env d grantId now) = gs.map (fun g ↦ (g, now)) ∧
      Lists d (fun g ↦ decide (g.id = grantId) && g.revokedAt.isNone) gs := by
  rw [revoke, told_write]
  cases hfind : d.listAuthorityGrants.find? fun g ↦ decide (g.id = grantId) with
  | none =>
    refine ⟨[], rfl, List.nodup_nil, fun g ↦ ?_⟩
    have hnone := List.find?_eq_none.mp hfind
    simp only [List.not_mem_nil, false_iff, Bool.and_eq_true, not_and]
    intro hg hid
    exact absurd hid (hnone g (d.mem_select.mpr ⟨hg, rfl⟩))
  | some grant =>
    have hid : grant.id = grantId := by simpa using List.find?_some hfind
    have hmem : grant ∈ d.grants := (d.mem_select.mp (List.mem_of_find?_eq_some hfind)).1
    have honly : ∀ g ∈ d.grants, g.id = grantId → g = grant := fun g hg heq ↦
      d.eq_of_id hg hmem (heq.trans hid.symm)
    simp only
    by_cases hnone : grant.revokedAt.isNone = true
    · have hone : d.changes (fun g ↦ decide (g.id = grantId) && g.revokedAt.isNone) = 1 := by
        have hfilter : d.grants.filter (fun g ↦ decide (g.id = grantId) && g.revokedAt.isNone) =
            [grant] := by
          apply List.perm_singleton.mp
          refine (List.perm_ext_iff_of_nodup ?_ (List.nodup_singleton _)).mpr fun g ↦ ?_
          · exact (List.Nodup.of_map _ d.primaryKey).filter _
          · rw [List.mem_filter, List.mem_singleton, Bool.and_eq_true, decide_eq_true_eq]
            constructor
            · exact fun h ↦ honly g h.1 h.2.1
            · rintro rfl
              exact ⟨hmem, hid, hnone⟩
        rw [Tables.changes, List.countP_eq_length_filter, hfilter]
        rfl
      rw [if_pos hone, told_emitGrantWithdrawals]
      refine ⟨[grant], List.append_nil _, List.nodup_singleton _, fun g ↦ ?_⟩
      rw [List.mem_singleton, Bool.and_eq_true, decide_eq_true_eq]
      constructor
      · rintro rfl
        exact ⟨hmem, hid, hnone⟩
      · exact fun h ↦ honly g h.1 h.2.1
    · have hrow : ∀ g ∈ d.grants, ¬(decide (g.id = grantId) && g.revokedAt.isNone) = true := by
        intro g hg h
        rw [Bool.and_eq_true, decide_eq_true_eq] at h
        exact hnone (honly g hg h.1 ▸ h.2)
      have hzero : d.changes (fun g ↦ decide (g.id = grantId) && g.revokedAt.isNone) ≠ 1 := by
        rw [Tables.changes, List.countP_eq_zero.mpr hrow]
        exact Nat.zero_ne_one
      rw [if_neg hzero]
      refine ⟨[], rfl, List.nodup_nil, fun g ↦ ?_⟩
      simp only [List.not_mem_nil, false_iff, not_and]
      exact hrow g

end

/-! ### The loops of `rollbackInstallClearance` -/

section

variable (env : Env L R)

theorem writes_revoke (d d' : Tables R) (grantId : JsString) (now : ℤ) :
    (revoke env d grantId now).writes d' = d'.update
      (fun g ↦ decide (g.id = grantId) && g.revokedAt.isNone) (.revoke now) (GrantRow.id_revoke now) := by
  rw [revoke, Work.writes]
  cases d.listAuthorityGrants.find? fun g ↦ decide (g.id = grantId) with
  | none => rfl
  | some grant =>
    simp only
    split_ifs
    · exact writes_afterCommits ..
    · rfl

theorem outcome_revoke (d : Tables R) (grantId : JsString) (now : ℤ) :
    (revoke env d grantId now).outcome = .ok () := by
  rw [revoke, Work.outcome]
  cases d.listAuthorityGrants.find? fun g ↦ decide (g.id = grantId) with
  | none => rfl
  | some grant =>
    simp only
    split_ifs
    · exact outcome_afterCommits ..
    · rfl

theorem plain_revoke (d : Tables R) (grantId : JsString) (now : ℤ) :
    Plain env (revoke env d grantId now) := by
  unfold revoke
  cases d.listAuthorityGrants.find? fun g ↦ decide (g.id = grantId) with
  | none => exact plain_done env
  | some grant =>
    simp only
    split_ifs
    · exact plain_afterCommits env (plain_done env)
    · exact plain_done env

theorem completes_revoke (d : Tables R) (grantId : JsString) (now : ℤ) :
    (revoke env d grantId now).completes .none = true := by
  rw [completes_eq, outcome_revoke]
  rfl

/-- The rows the first loop revokes. -/
def issued (ids : List JsString) (g : GrantRow R) : Bool := decide (g.id ∈ ids) && g.revokedAt.isNone

/-- What the first loop does to the tables. -/
def revokedAll (now : ℤ) (ids : List JsString) (d : Tables R) : Tables R :=
  d.update (issued ids) (.revoke now) (GrantRow.id_revoke now)

theorem revokedAll_cons (now : ℤ) (a : JsString) (ids : List JsString) (d : Tables R) :
    revokedAll now ids (d.update (fun g ↦ decide (g.id = a) && g.revokedAt.isNone) (.revoke now)
      (GrantRow.id_revoke now)) = revokedAll now (a :: ids) d := by
  simp only [revokedAll, Tables.update, List.map_map, Tables.mk.injEq, and_true]
  refine List.map_congr_left fun g _ ↦ ?_
  rw [Function.comp_apply]
  by_cases hp : (decide (g.id = a) && g.revokedAt.isNone) = true
  · -- a row revoked in this round is not revoked again
    have hlater : ¬issued ids (g.revoke now) = true := by simp [issued, GrantRow.revoke]
    have hp' := hp
    rw [Bool.and_eq_true, decide_eq_true_eq] at hp'
    have hcons : issued (a :: ids) g = true := by simp [issued, hp'.1, hp'.2]
    rw [if_pos hp, if_neg hlater, if_pos hcons]
  · have hcons : issued (a :: ids) g = issued ids g := by
      simp only [issued, List.mem_cons, Bool.and_eq_true, decide_eq_true_eq] at hp ⊢
      by_cases hid : g.id = a
      · simp_all
      · simp [hid]
    rw [if_neg hp, hcons]

theorem writes_revokeAll (now : ℤ) (next : GrantWork R) (ids : List JsString) (d : Tables R) :
    (revokeAll env now next ids d).writes d = next.writes (revokedAll now ids d) := by
  induction ids generalizing d with
  | nil =>
    have hnone : revokedAll now [] d = d := by
      simp [revokedAll, Tables.update, issued]
    rw [revokeAll, hnone]
  | cons a ids ih =>
    rw [revokeAll, Work.writes, if_pos (completes_revoke ..), ih, writes_revoke, revokedAll_cons]

/-- The first loop tells each row it revokes once, however often its id occurs. -/
theorem told_revokeAll (now : ℤ) (next : GrantWork R) (ids : List JsString) (d : Tables R) :
    ∃ gs, told (revokeAll env now next ids d) = gs.map (fun g ↦ (g, now)) ++ told next ∧
      Lists d (issued ids) gs := by
  induction ids generalizing d with
  | nil => exact ⟨[], rfl, List.nodup_nil, fun g ↦ by simp [issued]⟩
  | cons a ids ih =>
    obtain ⟨gs₁, hgs₁, h₁⟩ := told_revoke env d a now
    obtain ⟨gs₂, hgs₂, h₂⟩ := ih ((revoke env d a now).writes d)
    -- the rows of the later rounds are unrevoked, and so they are not the row of this one
    have hrow : ∀ g, (g ∈ ((revoke env d a now).writes d).grants ∧ issued ids g = true) ↔
        g ∈ d.grants ∧ g.id ≠ a ∧ issued ids g = true := by
      intro g
      rw [writes_revoke, Tables.mem_update]
      constructor
      · rintro ⟨⟨g₀, hg₀, rfl⟩, hissued⟩
        split_ifs at hissued ⊢ with hp
        · simp [issued, GrantRow.revoke] at hissued
        · refine ⟨hg₀, fun heq ↦ hp ?_, hissued⟩
          simp only [issued, Bool.and_eq_true] at hissued
          simp [heq, hissued.2]
      · rintro ⟨hg, hne, hissued⟩
        exact ⟨⟨g, hg, by simp [hne]⟩, hissued⟩
    refine ⟨gs₁ ++ gs₂, ?_, ?_, fun g ↦ ?_⟩
    · rw [revokeAll, told, Work.registered, if_pos (completes_revoke ..), List.map_append,
        List.filterMap_append, List.map_append, List.append_assoc]
      exact congrArg₂ (· ++ ·) hgs₁ hgs₂
    · rw [List.map_append]
      refine List.nodup_append.mpr ⟨h₁.nodup, h₂.nodup, fun i hi j hj heq ↦ ?_⟩
      obtain ⟨g₁, hg₁, rfl⟩ := List.mem_map.mp hi
      obtain ⟨g₂, hg₂, rfl⟩ := List.mem_map.mp hj
      have hid := ((h₁.mem g₁).mp hg₁).2
      rw [Bool.and_eq_true, decide_eq_true_eq] at hid
      exact ((hrow g₂).mp ((h₂.mem g₂).mp hg₂)).2.1 (heq ▸ hid.1)
    · rw [List.mem_append, h₁.mem, h₂.mem, hrow]
      simp only [issued, Bool.and_eq_true, decide_eq_true_eq, List.mem_cons]
      tauto

theorem plain_revokeAll (now : ℤ) {next : GrantWork R} (hnext : Plain env next)
    (ids : List JsString) (d : Tables R) : Plain env (revokeAll env now next ids d) := by
  induction ids generalizing d with
  | nil => exact hnext
  | cons a ids ih =>
    intro p hp
    rw [revokeAll, Work.registered, if_pos (completes_revoke ..)] at hp
    rcases List.mem_append.mp hp with hp | hp
    · exact plain_revoke env d a now p hp
    · exact ih _ p hp

/-- The rows the second loop restores. -/
def restored (retiredAt : Option ℤ) (ids : List JsString) (g : GrantRow R) : Bool :=
  decide (g.id ∈ ids) && retired retiredAt g

theorem grants_restoreAll (retiredAt : Option ℤ) (ids : List JsString) (d : Tables R) :
    ((restoreAll retiredAt ids).writes d).grants = d.grants.map fun g ↦
      if restored retiredAt ids g then { g with revokedAt := none } else g := by
  induction ids generalizing d with
  | nil => simp [restoreAll, Work.writes, restored]
  | cons a ids ih =>
    rw [restoreAll, Work.writes, ih]
    simp only [Tables.update, List.map_map]
    refine List.map_congr_left fun g _ ↦ ?_
    by_cases ha : g.id = a
    · by_cases hr : retired retiredAt g = true
      · simp [restored, ha, hr]
      · simp [restored, ha, hr]
    · simp [restored, ha]

theorem registered_restoreAll (retiredAt : Option ℤ) (ids : List JsString) :
    (restoreAll (R := R) retiredAt ids).registered = [] := by
  induction ids with
  | nil => rfl
  | cons a ids ih => exact ih

end

/-! ## When an operation announces what it withdrew -/

/-- The condition on the tables an operation finds. -/
def Op.meets (d : Tables R) : Op R → Bool
  | pruneSession sessionId _ => d.grants.all fun g ↦
      !(g.active && decide (g.sessionId = some sessionId))
  | resetAgentAuthority agentBindingId _ _ => (d.listAgentAuthorityGrants agentBindingId).all
      fun g ↦ decide (g.subject = agentSubject agentBindingId)
  | rollbackInstallClearance issuedGrantIds restoreRevokedGrantIds retiredAt now =>
      d.grants.all fun g ↦ !(issued issuedGrantIds g &&
        restored retiredAt restoreRevokedGrantIds (g.revoke now))
  | _ => true

theorem lists_listAgentAuthorityGrants (d : Tables R) (agentBindingId : JsString) :
    ∃ p, Lists d p (d.listAgentAuthorityGrants agentBindingId) ∧ (∀ g, p g = true →
      g.scope = .agent ∧ g.revokedAt.isNone = true) ∧ ∀ g : GrantRow R, g.active = true →
        g.scope = .agent → g.subject = agentSubject agentBindingId → p g = true := by
  rw [Tables.listAgentAuthorityGrants]
  split_ifs with h
  · refine ⟨_, lists_select d _, fun g hp ↦ ?_, fun g hactive hscope _ ↦ ?_⟩
    · simp only [Bool.and_eq_true, decide_eq_true_eq] at hp
      exact hp.1
    · simp only [Bool.and_eq_true, decide_eq_true_eq]
      exact ⟨⟨hscope, (active_iff.mp hactive).1⟩, (active_iff.mp hactive).2.1⟩
  · refine ⟨_, lists_select d _, fun g hp ↦ ?_, fun g hactive hscope hsubject ↦ ?_⟩
    · simp only [Bool.and_eq_true, decide_eq_true_eq] at hp
      exact ⟨hp.1.1.1, hp.1.2⟩
    · simp only [Bool.and_eq_true, decide_eq_true_eq]
      exact ⟨⟨⟨hscope, hsubject⟩, (active_iff.mp hactive).1⟩, (active_iff.mp hactive).2.1⟩

section

variable {env : Env L R} {d after : Tables R} {now : ℤ}

/-- The three revocations that list what they update. -/
theorem announced_of_lists {p : GrantRow R → Bool} {gs : List (GrantRow R)} (hgs : Lists d p gs)
    (hp : ∀ g, p g = true → g.revokedAt.isNone = true)
    (hafter : after.grants = (d.update p (.revoke now) (GrantRow.id_revoke now)).grants) :
    Announced d after (gs.map fun g ↦ (g, now)) :=
  announced_of_update hafter (GrantRow.id_revoke now) hgs.nodup
    (fun g hg ↦ ⟨((hgs.mem g).mp hg).1, ((hgs.mem g).mp hg).2,
      state_revoke (hp g ((hgs.mem g).mp hg).2)⟩)
    (fun g hg _ hpg _ ↦ (hgs.mem g).mpr ⟨hg, hpg⟩) now

theorem announced_suspend (idleMs : ℤ) :
    Announced d ((suspendIdleAgentGrants env d now idleMs).writes d)
      (told (suspendIdleAgentGrants env d now idleMs)) := by
  rw [suspendIdleAgentGrants, told_write, told_emitGrantWithdrawals]
  have hgs := lists_select d (idleAgentGrant (now - idleMs))
  have hactive : ∀ g : GrantRow R, idleAgentGrant (now - idleMs) g = true →
      g.suspendedAt = none := by
    intro g h
    simp only [idleAgentGrant, Bool.and_eq_true, Option.isNone_iff_eq_none] at h
    exact h.1.2
  rw [show told (.done : GrantWork R) = [] from rfl, List.append_nil]
  refine announced_of_update (p := idleAgentGrant (now - idleMs))
    (congrArg Tables.grants (writes_afterCommits ..)) (GrantRow.id_suspend now) hgs.nodup
    (fun g hg ↦ ?_) (fun g hg _ hpg _ ↦ (hgs.mem g).mpr ⟨hg, hpg⟩) now
  obtain ⟨hmem, hidle⟩ := (hgs.mem g).mp hg
  exact ⟨hmem, hidle, by simp [GrantRow.suspend, GrantRow.state, hactive g hidle]⟩

theorem announced_pruneSession_iff (sessionId : JsString)
    (hafter : after = d.update (fun g ↦ decide (g.sessionId = some sessionId) && g.revokedAt.isNone)
      (.revoke now) (GrantRow.id_revoke now)) :
    Announced d after [] ↔ (Op.pruneSession sessionId now : Op R).meets d = true := by
  simp only [Op.meets, List.all_eq_true, Bool.not_eq_true', Bool.and_eq_false_imp,
    decide_eq_false_iff_not]
  constructor
  · intro h g hg hactive hsession
    have hmem : g.revoke now ∈ after.grants := by
      rw [hafter, Tables.mem_update]
      exact ⟨g, hg, by simp [hsession, (active_iff.mp hactive).1]⟩
    obtain ⟨now', htold⟩ := h.once g hg hactive _ hmem rfl rfl
    exact absurd htold (by simp)
  · intro h
    refine announced_nil_of_update (congrArg Tables.grants hafter) (GrantRow.id_revoke now) fun g hg hactive hp ↦ ?_
    rw [Bool.and_eq_true, decide_eq_true_eq] at hp
    exact absurd hp.1 (h g hg hactive)

theorem announced_reset_iff (agentBindingId : JsString) (keepLocks : Bool) :
    Announced d ((resetAgentAuthority env d agentBindingId keepLocks now).writes d)
      (told (resetAgentAuthority env d agentBindingId keepLocks now)) ↔
      (Op.resetAgentAuthority agentBindingId keepLocks now : Op R).meets d = true := by
  set p : GrantRow R → Bool := fun g ↦ decide (g.subject = agentSubject agentBindingId) &&
    decide (g.scope = .agent) && g.revokedAt.isNone with hp
  have hafter : ((resetAgentAuthority env d agentBindingId keepLocks now).writes d).grants =
      (d.update p (.revoke now) (GrantRow.id_revoke now)).grants := by
    rw [resetAgentAuthority, Work.writes, Work.writes, emitGrantWithdrawals, writes_afterCommits]
    split_ifs <;> rfl
  obtain ⟨q, hlists, hq, hall⟩ := lists_listAgentAuthorityGrants d agentBindingId
  rw [resetAgentAuthority, told_write, told_write, told_emitGrantWithdrawals, ← resetAgentAuthority,
    show told (.done : GrantWork R) = [] from rfl, List.append_nil]
  simp only [Op.meets, List.all_eq_true, decide_eq_true_eq]
  constructor
  · intro h g hg
    by_contra hsubject
    -- a grant of another agent is told, and keeps its row
    obtain ⟨hmem, hstate⟩ := h.changed (g, now) (List.mem_map_of_mem hg)
    refine hstate g ?_ rfl rfl
    rw [hafter, Tables.mem_update]
    exact ⟨g, hmem, by simp [hp, hsubject]⟩
  · intro h
    refine announced_of_update hafter (GrantRow.id_revoke now) hlists.nodup (fun g hg ↦ ?_)
      (fun g hg hactive hpg _ ↦ ?_) now
    · obtain ⟨hmem, hqg⟩ := (hlists.mem g).mp hg
      refine ⟨hmem, ?_, state_revoke (hq g hqg).2⟩
      simp [hp, h g hg, (hq g hqg).1, Option.isNone_iff_eq_none.mp (hq g hqg).2]
    · simp only [hp, Bool.and_eq_true, decide_eq_true_eq] at hpg
      exact (hlists.mem g).mpr ⟨hg, hall g hactive hpg.1.2 hpg.1.1⟩

theorem announced_rollback_iff (issuedGrantIds restoreRevokedGrantIds : List JsString)
    (retiredAt : Option ℤ) :
    Announced d ((rollbackInstallClearance env d issuedGrantIds restoreRevokedGrantIds retiredAt
      now).writes d) (told (rollbackInstallClearance env d issuedGrantIds restoreRevokedGrantIds
        retiredAt now)) ↔ (Op.rollbackInstallClearance issuedGrantIds restoreRevokedGrantIds
          retiredAt now : Op R).meets d = true := by
  obtain ⟨gs, hgs, hlists⟩ := told_revokeAll env now (restoreAll retiredAt restoreRevokedGrantIds)
    issuedGrantIds d
  have htold : told (restoreAll (R := R) retiredAt restoreRevokedGrantIds) = [] := by
    rw [told, registered_restoreAll]
    rfl
  -- what the two loops do to a row
  set f : GrantRow R → GrantRow R := (fun g ↦ if restored retiredAt restoreRevokedGrantIds g then
    { g with revokedAt := none } else g) ∘ fun g ↦ if issued issuedGrantIds g then g.revoke now
      else g with hf
  have hafter : ((rollbackInstallClearance env d issuedGrantIds restoreRevokedGrantIds retiredAt
      now).writes d).grants = d.grants.map f := by
    rw [rollbackInstallClearance, writes_revokeAll, grants_restoreAll, revokedAll, Tables.update,
      List.map_map]
  have hissued : ∀ g : GrantRow R, issued issuedGrantIds g = true → g.revokedAt = none := by
    intro g h
    rw [issued, Bool.and_eq_true, Option.isNone_iff_eq_none] at h
    exact h.2
  rw [htold, List.append_nil] at hgs
  rw [show told (rollbackInstallClearance env d issuedGrantIds restoreRevokedGrantIds retiredAt now) =
    _ from hgs]
  simp only [Op.meets, List.all_eq_true, Bool.not_eq_true', Bool.and_eq_false_imp]
  constructor
  · intro h g hg hi
    by_contra hr
    rw [Bool.not_eq_false] at hr
    obtain ⟨-, hstate⟩ := h.changed (g, now) (List.mem_map_of_mem ((hlists.mem g).mpr ⟨hg, hi⟩))
    -- the row is told, and then restored to what it was
    have hfg : f g = { g.revoke now with revokedAt := none } := by simp [hf, hi, hr]
    refine hstate (f g) (hafter ▸ List.mem_map_of_mem hg) ?_ ?_
    · rw [hfg]
      rfl
    · simp [hfg, GrantRow.state, GrantRow.revoke, hissued g hi]
  · intro h
    refine announced_of_map hafter (fun g ↦ ?_) hlists.nodup (fun g hg ↦ ?_)
      (fun g hg hactive hw ↦ (hlists.mem g).mpr ⟨hg, ?_⟩) now
    · simp only [hf, Function.comp_apply]
      split_ifs <;> rfl
    · obtain ⟨hmem, hi⟩ := (hlists.mem g).mp hg
      have hfg : f g = g.revoke now := by simp [hf, hi, h g hmem hi]
      rw [hfg]
      exact ⟨hmem, state_revoke (by simp [hissued g hi])⟩
    · by_contra hi
      obtain ⟨hrevoked, -, hsuspended⟩ := active_iff.mp hactive
      rw [Option.isNone_iff_eq_none] at hrevoked hsuspended
      simp only [hf, Function.comp_apply, if_neg hi] at hw
      split_ifs at hw <;> simp [GrantRow.withdrawn, hrevoked, hsuspended] at hw

variable (env d) in
/-- What an operation tells the listeners. -/
def Op.withdrawals (op : Op R) : List (GrantRow R × ℤ) :=
  (op.effects env d).filterMap LiveEffect.withdrawal?

/-- **When an operation announces what it withdrew.** -/
theorem announced_iff (op : Op R) :
    Announced d (op.after env d) (op.withdrawals env d) ↔ op.meets d = true := by
  have hdone : told (.done : GrantWork R) = [] := rfl
  have hactive : ∀ g : GrantRow R, g.active = true → g.revokedAt = none ∧ g.suspendedAt = none :=
    fun g h ↦ ⟨Option.isNone_iff_eq_none.mp (active_iff.mp h).1,
      Option.isNone_iff_eq_none.mp (active_iff.mp h).2.2⟩
  cases op with
  | issue row refusal =>
    refine iff_of_true ?_ rfl
    cases refusal with
    | some message => exact announced_nil_of_grants rfl
    | none =>
      rw [Op.withdrawals, Op.after, Op.effects, Op.operation]
      cases hinsert : d.insert { row with revokedAt := none, consumedAt := none } with
      | none => exact announced_nil_of_grants rfl
      | some d' =>
        -- a row of an id that was there is the row that was there
        rw [Tables.insert] at hinsert
        split_ifs at hinsert with hid
        refine ⟨fun g hg hg' g' hmem heq hw ↦ ?_, fun _ h ↦ absurd h List.not_mem_nil⟩
        rw [← Option.some.inj hinsert, List.mem_append, List.mem_singleton] at hmem
        rcases hmem with hmem | rfl
        · rw [d.eq_of_id hmem hg heq, GrantRow.withdrawn, (hactive g hg').1, (hactive g hg').2] at hw
          exact absurd hw (by simp)
        · exact absurd (List.mem_map_of_mem hg) (heq ▸ hid)
  | grantsForSubjects subjects now =>
    refine iff_of_true ?_ rfl
    rw [Op.withdrawals, Op.after, Op.effects, Op.operation]
    split_ifs
    · exact announced_suspend idleMs
    · exact announced_nil_of_grants rfl
  | consume grantId now =>
    refine iff_of_true (announced_nil_of_update rfl (fun _ ↦ rfl) fun g _ h _ ↦ ?_) rfl
    simp [GrantRow.withdrawn, hactive g h]
  | touch grantId now =>
    refine iff_of_true (announced_nil_of_update rfl (fun _ ↦ rfl) fun g _ h _ ↦ ?_) rfl
    simp [GrantRow.withdrawn, hactive g h]
  | restore grantId =>
    refine iff_of_true (announced_nil_of_update rfl (fun _ ↦ rfl) fun g _ h _ ↦ ?_) rfl
    simp [GrantRow.withdrawn, hactive g h]
  | revoke grantId now =>
    obtain ⟨gs, hgs, hlists⟩ := told_revoke env d grantId now
    refine iff_of_true ?_ rfl
    change Announced d _ (told (revoke env d grantId now))
    rw [hgs]
    exact announced_of_lists hlists (fun g h ↦ (Bool.and_eq_true _ _ ▸ h).2)
      (congrArg Tables.grants (writes_revoke env d d grantId now))
  | revokeSubject subject now =>
    refine iff_of_true ?_ rfl
    have htold : told (revokeSubject env d subject now) = _ := told_emitGrantWithdrawals env _ now _
    rw [hdone, List.append_nil] at htold
    change Announced d _ (told (revokeSubject env d subject now))
    rw [htold]
    exact announced_of_lists (lists_listAuthorityGrants d _)
      (fun g h ↦ (Bool.and_eq_true _ _ ▸ h).2) (congrArg Tables.grants (writes_afterCommits ..))
  | invalidateAuthoritySubject subject now =>
    refine iff_of_true ?_ rfl
    have htold : told (invalidateAuthoritySubject env d subject now) = _ :=
      (told_aborts env Prod.fst _ _).trans (told_emitGrantWithdrawals env _ now _)
    rw [hdone, List.append_nil] at htold
    have hwrites : ((invalidateAuthoritySubject env d subject now).writes d).grants =
        (d.update (fun g ↦ decide (g.subject = subject) && g.revokedAt.isNone) (.revoke now)
          (GrantRow.id_revoke now)).grants := by
      rw [invalidateAuthoritySubject, Work.writes, Work.writes, writes_afterCommits,
        emitGrantWithdrawals, writes_afterCommits]
      rfl
    change Announced d _ (told (invalidateAuthoritySubject env d subject now))
    rw [htold]
    exact announced_of_lists (lists_listAuthorityGrants d _)
      (fun g h ↦ (Bool.and_eq_true _ _ ▸ h).2) hwrites
  | suspendIdleAgentGrants now idleMs => exact iff_of_true (announced_suspend idleMs) rfl
  | pruneSession sessionId now => exact announced_pruneSession_iff sessionId rfl
  | rollbackInstallClearance issuedGrantIds restoreRevokedGrantIds retiredAt now =>
    rw [Op.withdrawals, Op.after, Op.effects, Op.operation]
    split_ifs with h
    · refine iff_of_true (announced_nil_of_grants rfl) ?_
      simp [Op.meets, issued, h.1]
    · exact announced_rollback_iff issuedGrantIds restoreRevokedGrantIds retiredAt
  | resetAgentAuthority agentBindingId keepLocks now =>
    exact announced_reset_iff agentBindingId keepLocks
  | lockTable write => exact iff_of_true (announced_nil_of_grants rfl) rfl
  | subjectTable write => exact iff_of_true (announced_nil_of_grants rfl) rfl

theorem plain_operation (op : Op R) {w : GrantWork R} (h : op.operation env d = .transaction w) :
    Plain env w := by
  have hemit : ∀ gs now, Plain env (emitGrantWithdrawals env gs now .done) :=
    fun _ _ ↦ plain_afterCommits env (plain_done env)
  cases op with
  | issue row refusal =>
    rw [Op.operation.eq_def] at h
    cases refusal with
    | some message => exact nomatch h
    | none =>
      simp only at h
      split at h <;> exact nomatch h
  | grantsForSubjects subjects now =>
    rw [Op.operation] at h
    split_ifs at h
    obtain rfl := Operation.transaction.inj h
    exact hemit _ _
  | revoke grantId now =>
    obtain rfl := Operation.transaction.inj h
    exact plain_revoke env d grantId now
  | revokeSubject subject now =>
    obtain rfl := Operation.transaction.inj h
    exact hemit _ _
  | suspendIdleAgentGrants now idleMs =>
    obtain rfl := Operation.transaction.inj h
    exact hemit _ _
  | invalidateAuthoritySubject subject now =>
    obtain rfl := Operation.transaction.inj h
    exact plain_afterCommits env (hemit _ _)
  | rollbackInstallClearance issuedGrantIds restoreRevokedGrantIds retiredAt now =>
    rw [Op.operation] at h
    split_ifs at h
    obtain rfl := Operation.transaction.inj h
    refine plain_revokeAll env now (fun p hp ↦ ?_) issuedGrantIds d
    rw [registered_restoreAll] at hp
    exact absurd hp List.not_mem_nil
  | resetAgentAuthority agentBindingId keepLocks now =>
    obtain rfl := Operation.transaction.inj h
    exact hemit _ _
  | consume | touch | restore | pruneSession | lockTable | subjectTable => exact nomatch h

end

/-! ## Calls from outside -/

section

variable (env : Env L R)

theorem plain_work (s : Script R) (d : Tables R) : Plain env (s.work env d) := by
  induction s generalizing d with
  | done | throw => exact fun _ hp ↦ absurd hp List.not_mem_nil
  | call op fault caught next ih =>
    rw [Script.work]
    cases hop : op.operation env d with
    | transaction w =>
      intro p hp
      rw [Work.registered] at hp
      rcases List.mem_append.mp hp with hp | hp
      · split_ifs at hp
        · exact plain_operation op hop p hp
        · exact absurd hp List.not_mem_nil
      · exact ih _ p hp
    | statement write => exact ih (write d)
    | refused message =>
      simp only
      split_ifs
      · exact ih d
      · exact fun _ hp ↦ absurd hp List.not_mem_nil
  | transaction fault body caught next ihb ih =>
    intro p hp
    rw [Script.work, Work.registered] at hp
    rcases List.mem_append.mp hp with hp | hp
    · split_ifs at hp
      · exact ihb d p hp
      · exact absurd hp List.not_mem_nil
    · exact ih _ p hp

/-- The effects of a script are those of the operations that complete. -/
theorem registered_work (s : Script R) (d : Tables R) : (s.work env d).registered.map Prod.fst =
    (s.commits env d).flatMap fun c ↦ c.op.effects env c.before := by
  induction s generalizing d with
  | done | throw => rfl
  | call op fault caught next ih =>
    rw [Script.work, Script.commits]
    cases hop : op.operation env d with
    | transaction w =>
      have heffects : op.effects env d = w.registered.map Prod.fst := by rw [Op.effects, hop]
      simp only [Work.registered, List.map_append, ih]
      split_ifs with hc
      · rw [List.flatMap_cons, heffects]
      · rfl
    | statement write =>
      have heffects : op.effects env d = [] := by rw [Op.effects, hop]
      rw [List.flatMap_cons, heffects]
      exact ih (write d)
    | refused message =>
      simp only
      split_ifs
      · exact ih d
      · rfl
  | transaction fault body caught next ihb ih =>
    rw [Script.work, Script.commits, Work.registered, List.map_append, ih]
    split_ifs with hc
    · rw [List.flatMap_append, ihb]
    · rfl

/-- Effects that leave the world alone are started one after the other, from one connection. -/
theorem runPending_still {ps : List (LiveEffect R × (World (Tables R) (LiveEffect R) →
    World (Tables R) (LiveEffect R) × Result))} (h : ∀ p ∈ ps, ∀ x, (p.2 x).1 = x)
    (failures : List AuthorityError) (x : World (Tables R) (LiveEffect R)) :
    (runPending ps failures x).1 = (x.1, x.2 ++ ps.map fun p ↦ (p.1, .idle x.1)) := by
  induction ps generalizing failures x with
  | nil => exact Prod.ext rfl (List.append_nil _).symm
  | cons p ps ih =>
    obtain ⟨e, body⟩ := p
    have hbody : (body (x.1, x.2 ++ [(e, .idle x.1)])).1 = (x.1, x.2 ++ [(e, .idle x.1)]) :=
      h _ List.mem_cons_self _
    have hrest := fun p hp ↦ h p (List.mem_cons_of_mem _ hp)
    simp only [runPending]
    cases (body (x.1, x.2 ++ [(e, .idle x.1)])).2 with
    | ok =>
      simp only
      rw [ih hrest, hbody, List.append_assoc]
      rfl
    | error err =>
      simp only
      rw [ih hrest, hbody, List.append_assoc]
      rfl

/-- The effects of the store write nothing and make no calls. -/
theorem outer_body (e : LiveEffect R) (x : World (Tables R) (LiveEffect R)) :
    ((e.body env).outer x).1 = x := by
  cases e with
  | abort documentId => rfl
  | withdrawal grant now =>
    rw [LiveEffect.body]
    split <;> rfl

/-- An outermost piece of work commits its writes, and then the effects find the database idle. -/
def Outermost (w : GrantWork R) : Prop := ∀ x, (w.outer x).1 =
  (w.writes x.1, x.2 ++ w.registered.map fun p ↦ (p.1, .idle (w.writes x.1)))

theorem outermost_transaction {w : GrantWork R} (h : Plain env w) (fault : Fault) :
    Outermost (.transaction fault w true .done) := by
  intro x
  rw [Work.outer, Work.registered, Work.writes]
  cases hverdict : fault.verdict w.outcome with
  | error e =>
    have hnot : ¬w.completes fault = true := by
      rw [completes_eq, hverdict]
      simp
    rw [if_neg hnot, if_neg hnot]
    exact Prod.ext rfl (List.append_nil _).symm
  | ok =>
    have hstill : ∀ p ∈ w.pending, ∀ x, (p.2 x).1 = x := by
      intro p hp x
      rw [Work.pending_eq] at hp
      obtain ⟨q, hq, rfl⟩ := List.mem_map.mp hp
      simp only [h q hq]
      exact outer_body env q.1 x
    have hrun := runPending_still hstill [] (w.writes x.1, x.2)
    rw [Work.pending_eq, List.map_map] at hrun
    rw [if_pos (completes_eq.mpr hverdict), if_pos (completes_eq.mpr hverdict), Work.pending_eq]
    simp only [Work.registered, List.append_nil]
    cases (runPending (w.registered.map fun p ↦ (p.1, p.2.outer)) []
      (w.writes x.1, x.2)).2 with
    | ok => exact hrun
    | error e => exact hrun

theorem outermost_call (op : Op R) (fault : Fault) (d : Tables R) :
    Outermost ((Script.call op fault true .done).work env d) := by
  rw [Script.work]
  cases hop : op.operation env d with
  | transaction w => exact outermost_transaction env (plain_operation op hop) fault
  | statement write => exact fun x ↦ Prod.ext rfl (List.append_nil _).symm
  | refused message => exact fun x ↦ Prod.ext rfl (List.append_nil _).symm

end

/-! ## Runs -/

/-- **An operation is announced.** Every active grant it withdrew is told to every listener exactly
once, a grant that is told has changed its state, and a listener finds no transaction open. -/
structure Entry.Announced [DecidableEq L] (e : Entry L R) : Prop where
  once : ∀ g ∈ e.before.grants, g.active = true → ∀ g' ∈ e.after.grants, g'.id = g.id →
    g'.withdrawn = true → ∀ l ∈ e.listeners, ∃ now c,
      (e.notices.filter fun n ↦ decide (n.listener = l ∧ n.grant.id = g.id)) = [⟨l, g, now, c⟩]
  changed : ∀ n ∈ e.notices, n.grant ∈ e.before.grants ∧
    ∀ g' ∈ e.after.grants, g'.id = n.grant.id → g'.state ≠ n.grant.state
  committed : ∀ n ∈ e.notices, n.connection = .idle n.connection.db

theorem flatMap_notices (env : Env L R) (connection : Connection (Tables R) JsString)
    (effects : List (LiveEffect R)) : effects.flatMap (·.notices env connection) =
      (effects.filterMap LiveEffect.withdrawal?).flatMap fun p ↦
        env.listeners.map fun l ↦ ⟨l, p.1, p.2, connection⟩ := by
  induction effects with
  | nil => rfl
  | cons e effects ih =>
    rw [List.flatMap_cons, ih]
    cases e with
    | withdrawal grant now => rw [LiveEffect.notices, callListeners_called]; rfl
    | abort documentId => rfl

theorem flatMap_if {α β : Type} (p : α → Prop) [DecidablePred p] (f : α → List β) (xs : List α) :
    (xs.flatMap fun x ↦ if p x then f x else []) = (xs.filter fun x ↦ decide (p x)).flatMap f := by
  induction xs with
  | nil => rfl
  | cons x xs ih =>
    rw [List.flatMap_cons, ih]
    by_cases hp : p x
    · rw [if_pos hp, List.filter_cons_of_pos (by simpa using hp), List.flatMap_cons]
    · rw [if_neg hp, List.filter_cons_of_neg (by simpa using hp), List.nil_append]

variable [DecidableEq L]

/-- The condition on a call: each operation in it that is committed meets its own. -/
def Call.meets (s : GrantStore L R) : Call L R → Bool
  | operation op fault throws => ((Script.call op fault true .done).commits (s.env throws)
      s.store.connection.db).all fun c ↦ c.op.meets c.before
  | transaction fault body throws => ((Script.transaction fault body true .done).commits
      (s.env throws) s.store.connection.db).all fun c ↦ c.op.meets c.before
  | _ => true

/-- **The notices of an operation** are one for each listener and withdrawal. -/
theorem announced_entry {env : Env L R} (hlisteners : env.listeners.Nodup) (d : Tables R)
    {c : Commit R} (hc : c.op.meets c.before = true) : (c.entry env (.idle d)).Announced := by
  obtain ⟨honce, hchanged⟩ : Announced c.before (c.op.after env c.before)
      (c.op.withdrawals env c.before) := (announced_iff c.op).mpr hc
  have hnotices : (c.entry env (.idle d)).notices = (c.op.withdrawals env c.before).flatMap fun p ↦
      env.listeners.map fun l ↦ ⟨l, p.1, p.2, .idle d⟩ := flatMap_notices env _ _
  have hmem : ∀ n ∈ (c.entry env (.idle d)).notices, ∃ p ∈ c.op.withdrawals env c.before,
      ∃ l ∈ env.listeners, n = ⟨l, p.1, p.2, .idle d⟩ := by
    intro n hn
    rw [hnotices] at hn
    obtain ⟨p, hp, hn⟩ := List.mem_flatMap.mp hn
    obtain ⟨l, hl, rfl⟩ := List.mem_map.mp hn
    exact ⟨p, hp, l, hl, rfl⟩
  refine ⟨fun g hg hactive g' hg' heq hw l hl ↦ ?_, fun n hn ↦ ?_, fun n hn ↦ ?_⟩
  · obtain ⟨now, htold⟩ := honce g hg hactive g' hg' heq hw
    refine ⟨now, .idle d, ?_⟩
    -- of one withdrawal the listener hears once, of the others it hears of other grants
    have hone : ∀ p : GrantRow R × ℤ, ((env.listeners.map fun l' ↦
        (⟨l', p.1, p.2, .idle d⟩ : Notice L R)).filter fun n ↦
          decide (n.listener = l ∧ n.grant.id = g.id)) =
        if p.1.id = g.id then [⟨l, p.1, p.2, .idle d⟩] else [] := by
      intro p
      rw [List.filter_map]
      split_ifs with hid
      · have hlistener : env.listeners.filter (fun l' ↦ decide (l' = l)) = [l] := by
          exact filter_key_of_nodup (f := id) (by rwa [List.map_id]) hl
        simp only [Function.comp_def, hid, and_true, hlistener, List.map_cons, List.map_nil]
      · simp only [Function.comp_def, hid, and_false, decide_false, List.filter_false, List.map_nil]
    rw [hnotices, List.filter_flatMap]
    simp only [hone]
    rw [flatMap_if, htold]
    rfl
  · obtain ⟨p, hp, l, hl, rfl⟩ := hmem n hn
    exact hchanged p hp
  · obtain ⟨p, hp, l, hl, rfl⟩ := hmem n hn
    rfl

/-- What holds between two calls. -/
structure GrantStore.Good (s : GrantStore L R) : Prop where
  idle : s.store.Idle
  listeners : s.listeners.Nodup
  delivered : s.delivered = s.history.flatMap Entry.notices
  announced : ∀ e ∈ s.history, e.Announced

/-- **An outermost script** delivers the notices of the operations it has committed. -/
theorem good_perform {s : GrantStore L R} (hs : s.Good) {env : Env L R}
    (henv : env.listeners = s.listeners) {script : Script R}
    (houter : Outermost (script.work env s.store.connection.db))
    (hmeets : (script.commits env s.store.connection.db).all (fun c ↦ c.op.meets c.before) = true) :
    ∃ s', s.perform env script = some s' ∧ s'.Good := by
  set d := s.store.connection.db with hd
  obtain ⟨store, hexec, hidle, -, hworld⟩ :=
    (exec_outside (script.work env d)).1 _ le_rfl s.store hs.idle
  rw [houter] at hworld
  have hdb : store.connection.db = (script.work env d).writes d := congrArg Prod.fst hworld
  have hran : store.ran = s.store.ran ++ (script.work env d).registered.map fun p ↦
      (p.1, .idle store.connection.db) := by
    rw [hdb]
    exact congrArg Prod.snd hworld
  have hconnection : store.connection = .idle store.connection.db := hidle.connection
  have hperform : s.perform env script = some (s.finish env script store) := by
    rw [GrantStore.perform, hexec]
    rfl
  refine ⟨_, hperform, hidle, hs.listeners, ?_, fun e he ↦ ?_⟩
  · -- the effects that ran are those of the commits
    have hnotices := congrArg (List.flatMap (·.notices env (.idle store.connection.db)))
      (registered_work env script d)
    rw [List.flatMap_map, List.flatMap_assoc] at hnotices
    simp only [GrantStore.finish]
    rw [hran, List.drop_left, hs.delivered, List.flatMap_append, List.flatMap_map, List.flatMap_map,
      hnotices, ← hconnection]
    rfl
  · rcases List.mem_append.mp he with he | he
    · exact hs.announced e he
    · obtain ⟨c, hc, rfl⟩ := List.mem_map.mp he
      rw [hconnection]
      exact announced_entry (henv ▸ hs.listeners) _ (List.all_eq_true.mp hmeets c hc)

theorem good_step {s : GrantStore L R} (hs : s.Good) {call : Call L R} (hmeets : call.meets s = true) :
    ∃ s', s.step call = some s' ∧ s'.Good := by
  cases call with
  | operation op fault throws =>
    exact good_perform hs rfl (outermost_call _ op fault _) hmeets
  | transaction fault body throws =>
    exact good_perform hs rfl (outermost_transaction _ (plain_work _ body _) fault) hmeets
  | onGrantWithdrawal listener =>
    refine ⟨_, rfl, hs.idle, ?_, hs.delivered, hs.announced⟩
    simp only
    split_ifs with h
    · exact hs.listeners
    · refine List.nodup_append.mpr ⟨hs.listeners, List.nodup_singleton _, fun a ha b hb heq ↦ ?_⟩
      rw [List.mem_singleton.mp hb] at heq
      exact h (heq ▸ ha)
  | offGrantWithdrawal listener =>
    exact ⟨_, rfl, hs.idle, hs.listeners.filter _, hs.delivered, hs.announced⟩
  | registerExecution documentId subject generation =>
    rw [GrantStore.step]
    split_ifs
    · exact ⟨s, rfl, hs⟩
    · exact ⟨_, rfl, hs.idle, hs.listeners, hs.delivered, hs.announced⟩
  | releaseExecution documentId =>
    exact ⟨_, rfl, hs.idle, hs.listeners, hs.delivered, hs.announced⟩

/-- **Every withdrawn grant is announced.** In every run from any database, in which each committed
operation meets its condition, the listeners have been called for the committed operations one after
the other, each operation is announced, and the store takes the next call. -/
theorem withdrawals_announced (d : Tables R) {s : GrantStore L R}
    (h : Transition.Reachable (fun s call ↦ GrantStore.step s call)
      (fun s call ↦ Call.meets s call) (.open d) s) :
    s.delivered = s.history.flatMap Entry.notices ∧ (∀ e ∈ s.history, e.Announced) ∧
      ∀ call : Call L R, call.meets s = true → (s.step call).isSome = true := by
  have hgood : s.Good := by
    refine h.invariant (I := GrantStore.Good) ?_ fun s s' call hs hmeets hstep ↦ ?_
    · exact ⟨⟨rfl, rfl⟩, List.nodup_nil, rfl, fun _ he ↦ absurd he List.not_mem_nil⟩
    · obtain ⟨s'', hs'', hgood⟩ := good_step hs hmeets
      exact Option.some.inj (hs''.symm.trans hstep) ▸ hgood
  refine ⟨hgood.delivered, hgood.announced, fun call hmeets ↦ ?_⟩
  obtain ⟨s', hs', -⟩ := good_step hgood hmeets
  rw [hs']
  rfl

/-! ### A session that ends -/

/-- A grant of one session. -/
def sessionGrant : GrantRow Unit :=
  ⟨lit "g", lit "agent:a", some (lit "s"), none, 1, none, none, .session, none, none, ()⟩

def emptyTables : Tables Unit := ⟨[], [], [], List.nodup_nil⟩

/-- The grant is revoked inside a transaction, with a listener that throws, before its session
ends. -/
def revokedSession : List (Call ℕ Unit) :=
  [.onGrantWithdrawal 0, .operation (.issue sessionGrant none) .none fun _ _ _ ↦ false,
    .transaction .none (.call (.revokeSubject (lit "agent:a") 5) .none false <|
      .call (.revoke (lit "g") 6) .none true .done) fun _ _ _ ↦ true,
    .operation (.pruneSession (lit "s") 7) .none fun _ _ _ ↦ false]

theorem withdrawals_announced_of_revokedSession : ∃ s : GrantStore ℕ Unit,
    (s.delivered.map fun n ↦ (n.listener, n.grant, n.now)) = [(0, sessionGrant, 5)] ∧
      s.history.length = 4 ∧ ∀ e ∈ s.history, e.Announced := by
  have hrun : ((Transition.run (fun s call ↦ GrantStore.step s call)
      (fun s call ↦ Call.meets s call) (.open emptyTables) revokedSession).map fun s ↦
        ((s.delivered.map fun n ↦ (n.listener, n.grant, n.now)), s.history.length)) =
      some ([(0, sessionGrant, 5)], 4) := by decide +kernel
  obtain ⟨s, hs, heq⟩ := Option.map_eq_some_iff.mp hrun
  obtain ⟨-, hannounced, -⟩ := withdrawals_announced emptyTables (Transition.Reachable.run .init hs)
  exact ⟨s, congrArg Prod.fst heq, congrArg Prod.snd heq, hannounced⟩

/-- **A session that ends with an active grant** revokes it and tells nobody. -/
theorem not_always_announced : ¬∀ (d : Tables Unit) (s : GrantStore ℕ Unit),
    Transition.Reachable (fun s call ↦ GrantStore.step s call) Transition.anyStep (.open d) s →
      ∀ e ∈ s.history, e.Announced := by
  intro h
  have hrun : ((Transition.run (fun s call ↦ GrantStore.step s call) Transition.anyStep
      (.open emptyTables) [.onGrantWithdrawal 0,
        .operation (.issue sessionGrant none) .none fun _ _ _ ↦ false,
        .operation (.pruneSession (lit "s") 7) .none fun _ _ _ ↦ false]).map fun s ↦
      s.history.map fun e ↦ (e.before.grants, e.after.grants, e.listeners, e.notices.length)) =
      some [([], [sessionGrant], [0], 0), ([sessionGrant], [sessionGrant.revoke 7], [0], 0)] := by
    decide +kernel
  obtain ⟨s, hs, heq⟩ := Option.map_eq_some_iff.mp hrun
  have hlast : ([sessionGrant], [sessionGrant.revoke 7], [0], 0) ∈ s.history.map fun e ↦
      (e.before.grants, e.after.grants, e.listeners, e.notices.length) := by
    rw [heq]
    exact List.mem_cons_of_mem _ List.mem_cons_self
  obtain ⟨e, he, hfields⟩ := List.mem_map.mp hlast
  obtain ⟨hbefore, hfields⟩ := Prod.mk.inj hfields
  obtain ⟨hafter, hfields⟩ := Prod.mk.inj hfields
  obtain ⟨hlisteners, hnotices⟩ := Prod.mk.inj hfields
  obtain ⟨now, c, htold⟩ := (h emptyTables s (.run .init hs) e he).once sessionGrant
    (hbefore ▸ List.mem_cons_self) rfl (sessionGrant.revoke 7) (hafter ▸ List.mem_cons_self) rfl rfl
    0 (hlisteners ▸ List.mem_cons_self)
  rw [List.length_eq_zero_iff.mp hnotices] at htold
  exact absurd htold (by simp)

end Vibestudio.Server

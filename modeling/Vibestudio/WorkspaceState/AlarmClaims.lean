import Mathlib
import Vibestudio.Transition.Run
import Vibestudio.WorkspaceState.EntitySteps

/-!
# The fences of alarm claims

A claim is an owner and a generation, handed out by `alarmClaimDue` and live while the row of its key
bears it. The generations of a key come from its counter, which nothing takes back, so a row that was
deleted and made again cannot bear an old claim: a handler that lost its claim is refused.
-/

namespace Vibestudio.WorkspaceState

open Js Sqlite Transition

/-- `dispatchOwner` and `dispatchGeneration`. -/
@[ext]
structure DispatchClaim where
  owner : JsString
  generation : ℕ
  deriving DecidableEq

/-- The claim that the handler of a call acts under. -/
def AlarmCall.claimed : AlarmCall → Option (LifecycleKey × DispatchClaim)
  | .alarmSet input => match input.dispatchOwner, input.dispatchGeneration with
    | some owner, some generation => some (input.key, ⟨owner, generation⟩)
    | _, _ => none
  | .alarmClear input => match input.dispatchOwner, input.dispatchGeneration with
    | some owner, some generation => some (input.key, ⟨owner, generation⟩)
    | _, _ => none
  | .alarmComplete input => some (input.key, ⟨input.dispatchOwner, input.dispatchGeneration⟩)
  | _ => none

theorem AlarmCall.claimed_of_ofEntities {c : AlarmCall} (h : c.ofEntities = true) :
    c.claimed = none := by
  cases c with
  | alarmSet | alarmClear | alarmComplete => simp [ofEntities] at h
  | _ => rfl

/-- The answer of a call that has been accepted. -/
def Accepted : Thrown AlarmAnswer → Bool
  | .ok (.status .accepted) => true
  | _ => false

/-- The claims of a key that a call hands out. -/
def handedOut (c : AlarmCall) (answer : Thrown AlarmAnswer) (k : LifecycleKey) : List DispatchClaim :=
  match c, answer with
  | .alarmClaimDue input, .ok (.claims claims) => (claims.filter fun claim ↦ decide (claim.key = k)).map
      fun claim ↦ ⟨input.workerId, claim.dispatchGeneration⟩
  | _, _ => []

/-- The claim of a key that a call has been accepted under. -/
def acceptedUnder (c : AlarmCall) (answer : Thrown AlarmAnswer) (k : LifecycleKey) :
    List DispatchClaim :=
  match c.claimed with
  | some (k', p) => if k' = k ∧ Accepted answer then [p] else []
  | none => []

/-- What has been seen of the claims of each key, the latest first: those handed out, those of them
that the row has borne ever since, and those a handler's call has been accepted under. -/
structure ClaimWatch where
  handed : LifecycleKey → List DispatchClaim
  live : LifecycleKey → List DispatchClaim
  accepted : LifecycleKey → List DispatchClaim

structure WatchedClaims where
  tables : AlarmTables
  watch : ClaimWatch

namespace WatchedClaims

def init : WatchedClaims := ⟨.empty, ⟨fun _ ↦ [], fun _ ↦ [], fun _ ↦ []⟩⟩

/-- The watch after a call, given the tables it leaves and its answer. -/
def observe (s : WatchedClaims) (c : AlarmCall) (t' : AlarmTables) (answer : Thrown AlarmAnswer) :
    ClaimWatch where
  handed := fun k ↦ handedOut c answer k ++ s.watch.handed k
  live := fun k ↦ (handedOut c answer k ++ s.watch.live k).filter fun p ↦
    t'.ownedBy k p.owner p.generation
  accepted := fun k ↦ acceptedUnder c answer k ++ s.watch.accepted k

def step (s : WatchedClaims) (c : AlarmCall) : Option WatchedClaims :=
  some ⟨(s.tables.transact c).1, s.observe c (s.tables.transact c).1 (s.tables.transact c).2⟩

end WatchedClaims

variable {t t' : AlarmTables}

namespace AlarmTables

/-- The claim that a row bears. -/
def rowClaim (a : AlarmRow) : Option DispatchClaim :=
  a.dispatchOwner.map fun owner ↦ ⟨owner, a.dispatchGeneration⟩

/-- The claim that the row of a key bears. -/
def holder (t : AlarmTables) (k : LifecycleKey) : Option DispatchClaim := (t.alarms.get k).bind rowClaim

theorem ownedBy_iff (t : AlarmTables) (k : LifecycleKey) (p : DispatchClaim) :
    t.ownedBy k p.owner p.generation = true ↔ t.holder k = some p := by
  rw [ownedBy, holder]
  cases t.alarms.get k with
  | none => simp
  | some a =>
    obtain ⟨_, generation, owner⟩ := a
    cases owner <;> simp [rowClaim, DispatchClaim.ext_iff]

/-! ## Calls that hand out no claim -/

/-- No claim is made: the row of a key keeps its claim or loses it. -/
structure Relinquished (t t' : AlarmTables) : Prop where
  counters : t'.claims = t.claims
  holder : ∀ k, t'.holder k = none ∨ t'.holder k = t.holder k

namespace Relinquished

theorem refl (t : AlarmTables) : Relinquished t t := ⟨rfl, fun _ ↦ .inr rfl⟩

theorem trans {t'' : AlarmTables} (h : Relinquished t t') (h' : Relinquished t' t'') :
    Relinquished t t'' := by
  refine ⟨h'.counters.trans h.counters, fun k ↦ ?_⟩
  rcases h'.holder k with hnone | hsame
  · exact .inl hnone
  · exact hsame ▸ h.holder k

/-- A row is kept, deleted, released or woken. -/
theorem of_rows (hcounters : t'.claims = t.claims)
    (h : ∀ k, t'.alarms.get k = t.alarms.get k ∨ ∀ a, t'.alarms.get k = some a →
      a.dispatchOwner = none ∨ a = wokenRow (t.alarms.get k)) : Relinquished t t' := by
  refine ⟨hcounters, fun k ↦ ?_⟩
  rcases h k with hsame | hrow
  · rw [AlarmTables.holder, AlarmTables.holder, hsame]
    exact .inr rfl
  rw [AlarmTables.holder, AlarmTables.holder]
  cases ha : t'.alarms.get k with
  | none => exact .inl rfl
  | some a =>
    rcases hrow a ha with hfree | hwoken
    · refine .inl ?_
      rw [Option.bind_some, rowClaim, hfree, Option.map_none]
    · rw [Option.bind_some, hwoken]
      cases t.alarms.get k with
      | none => exact .inl rfl
      | some a => exact .inr rfl

theorem of_eq (hcounters : t'.claims = t.claims) (halarms : t'.alarms = t.alarms) :
    Relinquished t t' :=
  of_rows hcounters fun k ↦ .inl (congrArg (·.get k) halarms)

theorem schedule (t : AlarmTables) (k : LifecycleKey) (wakeAt : ℕ) :
    Relinquished t (t.schedule k wakeAt) := by
  refine of_rows rfl fun k' ↦ ?_
  rw [get_alarms_schedule]
  split_ifs
  · exact .inr fun a ha ↦ .inl (Option.some.inj ha ▸ rfl)
  · exact .inl rfl

theorem setAlarm (t : AlarmTables) (k : LifecycleKey) (wakeAt generation : ℕ) :
    Relinquished t (t.setAlarm k ⟨wakeAt, generation, none⟩) := by
  refine of_rows rfl fun k' ↦ ?_
  rw [AlarmTables.setAlarm, Table.get_set]
  split_ifs
  · exact .inr fun a ha ↦ .inl (Option.some.inj ha ▸ rfl)
  · exact .inl rfl

theorem ensureRequestedAlarm (t : AlarmTables) (k : LifecycleKey) :
    Relinquished t (t.ensureRequestedAlarm k) := by
  refine of_rows (by rw [ensureRequestedAlarm_eq]) fun k' ↦ ?_
  rw [get_alarms_ensureRequestedAlarm]
  split_ifs
  · exact .inr fun a ha ↦ .inr (Option.some.inj ha).symm
  · exact .inl rfl

theorem clearAlarm (t : AlarmTables) (k : LifecycleKey) : Relinquished t (t.clearAlarm k) := by
  refine of_rows rfl fun k' ↦ ?_
  rw [AlarmTables.clearAlarm, Table.get_delete]
  split_ifs
  · exact .inr fun a ha ↦ (by cases ha)
  · exact .inl rfl

theorem setSource (t : AlarmTables) (k : LifecycleKey) (value : RegisteredWake) :
    Relinquished t (t.setSource k value) := of_eq rfl rfl

theorem setRequest (t : AlarmTables) (k : LifecycleKey) (value : RetainedWakeRequest) :
    Relinquished t (t.setRequest k value) := of_eq rfl rfl

theorem replaceSource (t : AlarmTables) (k : LifecycleKey) (identity : StorageIncarnation) :
    Relinquished t (t.replaceSource k identity) := by
  refine trans ?_ (clearAlarm _ k)
  exact of_eq rfl rfl

theorem unregister (t : AlarmTables) (k : LifecycleKey) : Relinquished t (t.unregister k) := by
  refine trans ?_ (clearAlarm _ k)
  exact of_eq rfl rfl

theorem setPolicy (t : AlarmTables) (k : LifecycleKey) (testPolicy : Option JsString) :
    Relinquished t (t.setPolicy k testPolicy) := by
  obtain ⟨policies, heq, -⟩ := setPolicy_eq t k testPolicy
  exact heq ▸ of_eq rfl rfl

theorem clearRow (t : AlarmTables) (k : LifecycleKey) : Relinquished t (t.clearRow k) := by
  obtain ⟨alarms, requests, heq, hothers, hactive, hinactive⟩ := clearRow_eq t k
  rw [heq]
  refine of_rows rfl fun k' ↦ ?_
  by_cases hk : k' = k
  · refine .inr fun a ha ↦ .inl ?_
    rw [hk] at ha
    cases hstatus : t.entityActive k with
    | true =>
      rw [(hactive hstatus).2] at ha
      split_ifs at ha
      exact Option.some.inj ha ▸ rfl
    | false => exact nomatch (hinactive hstatus).2.symm.trans ha
  · exact .inl (hothers k' hk)

theorem applyPublication (t : AlarmTables) (k : LifecycleKey) (duplicate : Bool)
    (wakeAt : Option ℕ) : Relinquished t (t.applyPublication k duplicate wakeAt) := by
  rw [AlarmTables.applyPublication.eq_def]
  split_ifs
  · exact ensureRequestedAlarm t k
  · cases wakeAt with
    | none => exact clearAlarm t k
    | some wakeAt =>
      cases t.alarms.get k with
      | none => exact setAlarm t k wakeAt 0
      | some _ => exact refl t
  · cases wakeAt with
    | none => exact clearAlarm t k
    | some wakeAt => exact schedule t k wakeAt

theorem entityStep (h : EntityStep t t') : Relinquished t t' := by
  cases h with
  | entities | owners | leases => exact of_eq rfl rfl
  | registered identity hactive => exact replaceSource t _ identity
  | unregistered k => exact unregister t k
  | retired h =>
    refine of_rows h.claims fun k' ↦ ?_
    rw [h.alarms]
    split_ifs
    · exact .inr fun a ha ↦ (by cases ha)
    · exact .inl rfl

theorem entitySteps (h : EntitySteps t t') : Relinquished t t' := by
  induction h with
  | refl => exact refl _
  | tail _ hstep ih => exact ih.trans (entityStep hstep)

end Relinquished

/-- A call that hands out no claim makes none. -/
theorem CallDone.relinquished {c : AlarmCall} {answer : AlarmAnswer} (h : CallDone t t' c answer)
    (hclaim : ∀ input, c ≠ .alarmClaimDue input) : Relinquished t t' := by
  cases h with
  | alarmSet h =>
    rcases (alarmSet_cases h).2 with ⟨_, _, -, -, ⟨-, rfl, -⟩ | ⟨-, -, rfl⟩⟩ | ⟨-, -, -, rfl⟩
    · exact .refl _
    · exact (Relinquished.schedule _ _ _).trans (.setPolicy _ _ _)
    · exact ((Relinquished.schedule _ _ _).trans (.ensureRequestedAlarm _ _)).trans (.setPolicy _ _ _)
  | alarmClear h =>
    rcases alarmClear_cases h with ⟨_, _, -, -, ⟨-, rfl, -⟩ | ⟨-, -, rfl⟩⟩ | ⟨-, -, -, rfl⟩
    · exact .refl _
    · exact .clearRow _ _
    · exact .clearRow _ _
  | alarmComplete h =>
    rcases alarmComplete_cases h with ⟨-, rfl, -⟩ | ⟨-, -, t₁, hack, hnext⟩
    · exact .refl _
    have hfirst : Relinquished t t₁ := by
      rcases hack.eq_or with rfl | ⟨r, rfl⟩
      · exact .refl _
      · exact .setRequest _ _ _
    refine hfirst.trans ?_
    rcases hnext with ⟨next, -, rfl⟩ | ⟨-, rfl⟩
    · exact ((Relinquished.schedule _ _ _).trans (.setPolicy _ _ _)).trans (.ensureRequestedAlarm _ _)
    · exact (Relinquished.clearRow _ _).trans (.ensureRequestedAlarm _ _)
  | alarmAdoptWorker h =>
    obtain ⟨heq, hrows⟩ := alarmAdoptWorker_cases h
    refine .of_rows (by rw [heq]) fun k ↦ .inr fun a ha ↦ .inl ?_
    rw [hrows] at ha
    split_ifs at ha
    · exact Option.some.inj ha ▸ rfl
    · obtain ⟨_, -, rfl⟩ := Option.map_eq_some_iff.mp ha
      rfl
  | alarmClaimDue => exact absurd rfl (hclaim _)
  | alarmSourcePublish h =>
    rcases (publish_cases h).2 with ⟨-, rfl⟩ | ⟨current, -, ⟨-, -, rfl⟩ | ⟨-, -, rfl⟩⟩
    · exact .refl _
    · exact .applyPublication _ _ _ _
    · exact (Relinquished.setSource _ _ _).trans (.applyPublication _ _ _ _)
  | alarmSourceRequest h =>
    rcases (request_cases h).2 with ⟨-, rfl⟩ | ⟨-, -, rfl⟩
    · exact .refl _
    · exact (Relinquished.setRequest _ _ _).trans (.ensureRequestedAlarm _ _)
  | lifecycleLeaseUpsert h => exact h ▸ .of_eq rfl rfl
  | ofEntities _ h => exact .entitySteps h
  | restart h =>
    subst h
    refine .of_rows rfl fun k ↦ ?_
    rw [show (t.repairLifecycleInvariants.alarms.get k) = _ from Table.get_deleteWhere _ _ _]
    cases t.alarms.get k with
    | none => exact .inl rfl
    | some a =>
      rw [Option.filter_some]
      split_ifs
      · exact .inl rfl
      · exact .inr fun a ha ↦ (by cases ha)

/-! ## Calls under a claim -/

theorem holder_eq_none {k : LifecycleKey} (h : ∀ a, t.alarms.get k = some a → a.dispatchOwner = none) :
    t.holder k = none := by
  rw [holder]
  cases ha : t.alarms.get k with
  | none => rfl
  | some a => rw [Option.bind_some, rowClaim, h a ha, Option.map_none]

theorem holder_schedule (t : AlarmTables) (k : LifecycleKey) (wakeAt : ℕ) :
    (t.schedule k wakeAt).holder k = none := by
  refine holder_eq_none fun a ha ↦ ?_
  rw [get_alarms_schedule, if_pos rfl] at ha
  exact Option.some.inj ha ▸ rfl

theorem holder_clearRow (t : AlarmTables) (k : LifecycleKey) : (t.clearRow k).holder k = none := by
  refine holder_eq_none fun a ha ↦ ?_
  obtain ⟨alarms, requests, heq, -, hactive, hinactive⟩ := clearRow_eq t k
  rw [heq] at ha
  cases hstatus : t.entityActive k with
  | true =>
    rw [show alarms.get k = _ from (hactive hstatus).2] at ha
    split_ifs at ha
    exact Option.some.inj ha ▸ rfl
  | false => exact nomatch (hinactive hstatus).2.symm.trans ha

/-- What is released stays released. -/
theorem Relinquished.eq_none {k : LifecycleKey} (h : Relinquished t t') (hnone : t.holder k = none) :
    t'.holder k = none :=
  (h.holder k).elim id fun hsame ↦ hsame.trans hnone

/-- A call under a claim is accepted while the row bears the claim, and releases it; or nothing is
changed. -/
theorem CallDone.claimed {c : AlarmCall} {answer : AlarmAnswer} {k : LifecycleKey} {p : DispatchClaim}
    (h : CallDone t t' c answer) (hclaimed : c.claimed = some (k, p)) :
    (answer = .status .accepted ∧ t.holder k = some p ∧ t'.holder k = none) ∨
      (answer = .status .stale ∧ t' = t) := by
  cases h with
  | @alarmSet input status h =>
    rcases (alarmSet_cases h).2 with ⟨o, g, ho, hg, hcases⟩ | ⟨ho, hg, -, -⟩
    · simp only [AlarmCall.claimed, ho, hg, Option.some.injEq, Prod.mk.injEq] at hclaimed
      obtain ⟨rfl, rfl⟩ := hclaimed
      rcases hcases with ⟨rfl, rfl, -⟩ | ⟨rfl, howned, rfl⟩
      · exact .inr ⟨rfl, rfl⟩
      · exact .inl ⟨rfl, (ownedBy_iff t _ ⟨o, g⟩).mp howned,
          (Relinquished.setPolicy _ _ _).eq_none (holder_schedule t _ _)⟩
    · simp [AlarmCall.claimed, ho, hg] at hclaimed
  | @alarmClear input status h =>
    rcases alarmClear_cases h with ⟨o, g, ho, hg, hcases⟩ | ⟨ho, hg, -, -⟩
    · simp only [AlarmCall.claimed, ho, hg, Option.some.injEq, Prod.mk.injEq] at hclaimed
      obtain ⟨rfl, rfl⟩ := hclaimed
      rcases hcases with ⟨rfl, rfl, -⟩ | ⟨rfl, howned, rfl⟩
      · exact .inr ⟨rfl, rfl⟩
      · exact .inl ⟨rfl, (ownedBy_iff t _ ⟨o, g⟩).mp howned, holder_clearRow t _⟩
    · simp [AlarmCall.claimed, ho, hg] at hclaimed
  | @alarmComplete input answer h =>
    simp only [AlarmCall.claimed, Option.some.injEq, Prod.mk.injEq] at hclaimed
    obtain ⟨rfl, rfl⟩ := hclaimed
    rcases alarmComplete_cases h with ⟨hstale, rfl, -⟩ | ⟨haccepted, howned, t₁, -, hnext⟩
    · exact .inr ⟨congrArg _ hstale, rfl⟩
    · refine .inl ⟨congrArg _ haccepted, (ownedBy_iff t _ ⟨_, _⟩).mp howned, ?_⟩
      rcases hnext with ⟨next, -, rfl⟩ | ⟨-, rfl⟩
      · exact ((Relinquished.setPolicy _ _ _).trans (.ensureRequestedAlarm _ _)).eq_none
          (holder_schedule t₁ _ _)
      · exact (Relinquished.ensureRequestedAlarm _ _).eq_none (holder_clearRow t₁ _)
  | ofEntities hc => exact nomatch hclaimed.symm.trans (AlarmCall.claimed_of_ofEntities hc)
  | _ => exact nomatch hclaimed

end AlarmTables

/-! ## What has been seen -/

namespace WatchedClaims

open AlarmTables

/-- What holds of the claims of a key: `counter` is the one of `nextClaimGeneration`. -/
structure Fenced (s : WatchedClaims) (k : LifecycleKey) : Prop where
  counter : ∀ p ∈ s.watch.handed k, p.generation ≤ (s.tables.claims.get k).getD 0
  increasing : (s.watch.handed k).Pairwise fun later earlier ↦ earlier.generation < later.generation
  live : s.watch.live k = (s.tables.holder k).toList
  latest : ∀ p, s.tables.holder k = some p → (s.watch.handed k).head? = some p
  accepted : ∀ p ∈ s.watch.accepted k, p ∈ s.watch.handed k ∧ s.tables.holder k ≠ some p

theorem Fenced.init (k : LifecycleKey) : WatchedClaims.init.Fenced k where
  counter := fun _ hp ↦ nomatch hp
  increasing := .nil
  live := rfl
  latest := fun _ hp ↦ nomatch hp
  accepted := fun _ hp ↦ nomatch hp

/-- A call that hands out no claim of the key, and after which the row of the key has kept its claim
or lost it. -/
theorem Fenced.relinquish {s : WatchedClaims} {k : LifecycleKey} {c : AlarmCall}
    {answer : Thrown AlarmAnswer} (h : s.Fenced k)
    (hcounter : t'.claims.get k = s.tables.claims.get k)
    (hholder : t'.holder k = none ∨ t'.holder k = s.tables.holder k)
    (hhanded : handedOut c answer k = [])
    (haccepted : ∀ p ∈ acceptedUnder c answer k, s.tables.holder k = some p ∧ t'.holder k = none) :
    Fenced ⟨t', s.observe c t' answer⟩ k := by
  have hkept : ∀ p, t'.holder k = some p → s.tables.holder k = some p := by
    rintro p hp
    rcases hholder with hnone | hsame
    · exact nomatch hnone.symm.trans hp
    · exact hsame ▸ hp
  have hsame : (s.observe c t' answer).handed k = s.watch.handed k := by
    simp only [observe, hhanded, List.nil_append]
  refine ⟨fun p hp ↦ ?_, ?_, ?_, fun p hp ↦ ?_, fun p hp ↦ ?_⟩
  · exact hcounter ▸ h.counter p (hsame ▸ hp)
  · exact hsame ▸ h.increasing
  · simp only [observe, hhanded, List.nil_append, h.live]
    cases hp : s.tables.holder k with
    | none =>
      rw [hholder.elim id fun hsame ↦ hsame.trans hp]
      rfl
    | some p =>
      rw [Option.toList_some, List.filter_cons, List.filter_nil]
      rcases hholder with hnone | hsame
      · rw [hnone, if_neg]
        · rfl
        · rw [ownedBy_iff, hnone]
          exact nofun
      · rw [hsame, hp, if_pos ((ownedBy_iff _ _ _).mpr (hsame.trans hp)), Option.toList_some]
  · exact hsame ▸ h.latest p (hkept p hp)
  · rcases List.mem_append.mp hp with hnew | hold
    · obtain ⟨hbefore, hafter⟩ := haccepted p hnew
      refine ⟨hsame ▸ List.mem_of_mem_head? (h.latest p hbefore), ?_⟩
      rw [hafter]
      exact nofun
    · obtain ⟨hmem, hne⟩ := h.accepted p hold
      exact ⟨hsame ▸ hmem, fun hp ↦ hne (hkept p hp)⟩

/-- Of claims of different keys there is one of each. -/
theorem filter_key_eq {claims : List AlarmClaim} {claim : AlarmClaim}
    (hnodup : (claims.map AlarmClaim.key).Nodup) (hmem : claim ∈ claims) :
    (claims.filter fun c ↦ decide (c.key = claim.key)) = [claim] := by
  induction claims with
  | nil => exact nomatch hmem
  | cons c claims ih =>
    obtain ⟨hc, hnodup⟩ := List.nodup_cons.mp hnodup
    rcases List.mem_cons.mp hmem with rfl | hmem
    · rw [List.filter_cons_of_pos (by rw [decide_eq_true_eq]), List.cons.injEq]
      refine ⟨rfl, List.filter_eq_nil_iff.mpr fun c' hc' heq ↦ hc ?_⟩
      exact List.mem_map.mpr ⟨c', hc', of_decide_eq_true heq⟩
    · rw [List.filter_cons_of_neg, ih hnodup hmem]
      intro heq
      exact hc (List.mem_map.mpr ⟨claim, hmem, (of_decide_eq_true heq).symm⟩)

/-- A free row is claimed with a generation above all that have been handed out. -/
theorem Fenced.claim {s : WatchedClaims} {k : LifecycleKey} {input : AlarmClaimDueInput}
    {claims : List AlarmClaim} {claim : AlarmClaim} {a : AlarmRow} (h : s.Fenced k)
    (hnodup : (claims.map AlarmClaim.key).Nodup) (hmem : claim ∈ claims)
    (ha : s.tables.alarms.get k = some a) (hfree : a.dispatchOwner = none)
    (hrow : RowClaimed s.tables t' input.workerId k a claim) :
    Fenced ⟨t', s.observe (.alarmClaimDue input) t' (.ok (.claims claims))⟩ k := by
  have hhanded : handedOut (.alarmClaimDue input) (.ok (.claims claims)) k =
      [⟨input.workerId, claim.dispatchGeneration⟩] := by
    rw [handedOut, ← hrow.key, filter_key_eq hnodup hmem]
    rfl
  have hholder : t'.holder k = some ⟨input.workerId, claim.dispatchGeneration⟩ := by
    rw [holder, hrow.alarm]
    rfl
  have hnone : s.tables.holder k = none := by
    rw [holder, ha, Option.bind_some, rowClaim, hfree, Option.map_none]
  have hnew : ∀ p ∈ s.watch.handed k, p.generation < claim.dispatchGeneration := by
    intro p hp
    have hp := h.counter p hp
    have hlast : (s.tables.claims.get k).getD 0 ≤ s.tables.lastGeneration k := le_max_left _ _
    rw [hrow.generation]
    omega
  have hsame : (s.observe (.alarmClaimDue input) t' (.ok (.claims claims))).handed k =
      ⟨input.workerId, claim.dispatchGeneration⟩ :: s.watch.handed k := by
    simp only [observe, hhanded, List.singleton_append]
  refine ⟨fun p hp ↦ ?_, ?_, ?_, fun p hp ↦ ?_, fun p hp ↦ ?_⟩
  · rw [hrow.counter, Option.getD_some]
    rcases List.mem_cons.mp (hsame ▸ hp) with rfl | hp
    · exact le_rfl
    · exact (hnew p hp).le
  · rw [hsame]
    exact .cons hnew h.increasing
  · simp only [observe, hhanded, h.live, hnone, hholder, Option.toList_none, List.append_nil]
    have howned := (ownedBy_iff _ _ ⟨_, _⟩).mpr hholder
    rw [List.filter_cons, if_pos howned, List.filter_nil, Option.toList_some]
  · rw [hsame, List.head?_cons, ← hp, hholder]
  · obtain ⟨hmem, -⟩ := h.accepted p hp
    refine ⟨hsame ▸ List.mem_cons_of_mem _ hmem, ?_⟩
    rw [hholder]
    rintro ⟨⟩
    exact (hnew _ hmem).ne rfl

theorem Fenced.step {s s' : WatchedClaims} {c : AlarmCall} (h : ∀ k, s.Fenced k)
    (hstep : s.step c = some s') (k : LifecycleKey) : s'.Fenced k := by
  obtain rfl := Option.some.inj hstep
  rcases transact_cases s.tables c with ⟨e, heq⟩ | ⟨t', answer, heq, hdone⟩
  · rw [heq]
    refine (h k).relinquish rfl (.inr rfl) ?_ fun p hp ↦ ?_
    · cases c <;> rfl
    · -- a call that throws has not been accepted
      rw [acceptedUnder] at hp
      split at hp
      · simp [Accepted] at hp
      · exact nomatch hp
  rw [heq]
  by_cases hclaim : ∃ input, c = .alarmClaimDue input
  · obtain ⟨input, rfl⟩ := hclaim
    cases hdone with
    | ofEntities hc => exact nomatch hc
    | alarmClaimDue hdue =>
      rename_i claims
      obtain ⟨-, hnodup, hkeys⟩ := alarmClaimDue_cases hdue
      rcases hkeys k with ⟨hnone, huntouched⟩ | ⟨claim, hmem, a, ha, hfree, hrow⟩
      · refine (h k).relinquish huntouched.counter (.inr ?_) ?_ fun _ hp ↦ nomatch hp
        · rw [holder, holder, huntouched.alarm]
        · rw [handedOut, List.filter_eq_nil_iff.mpr fun claim hmem heq ↦
            hnone claim hmem (of_decide_eq_true heq)]
          rfl
      · exact (h k).claim hnodup hmem ha hfree hrow
  · have hnone : ∀ input, c ≠ .alarmClaimDue input := fun input heq ↦ hclaim ⟨input, heq⟩
    have hrel := hdone.relinquished hnone
    refine (h k).relinquish (congrArg (·.get k) hrel.counters) (hrel.holder k) ?_ fun p hp ↦ ?_
    · rw [handedOut.eq_def]
      split
      · exact absurd rfl (hnone _)
      · rfl
    · rw [acceptedUnder] at hp
      split at hp
      · rename_i k' p' hclaimed
        split_ifs at hp with haccepted
        · obtain ⟨rfl, hok⟩ := haccepted
          obtain rfl := List.mem_singleton.mp hp
          rcases hdone.claimed hclaimed with ⟨-, hbefore, hafter⟩ | ⟨rfl, -⟩
          · exact ⟨hbefore, hafter⟩
          · exact nomatch hok
        · exact nomatch hp
      · exact nomatch hp

theorem Reachable.fenced {s : WatchedClaims} (h : Reachable WatchedClaims.step anyStep .init s)
    (k : LifecycleKey) : s.Fenced k :=
  h.invariant (I := fun s ↦ ∀ k, s.Fenced k) Fenced.init (fun _ _ _ hs _ hstep ↦ Fenced.step hs hstep) k

/-- **Alarm claim fencing.** After any calls: the generations handed out for a key have increased, at
most one of its claims is live, and a call under a claim is accepted only if the claim is the latest of
its key, is live, and no call has been accepted under it before; otherwise it changes nothing. -/
theorem claims_fenced {s : WatchedClaims} (h : Reachable WatchedClaims.step anyStep .init s) :
    (∀ k, (s.watch.handed k).Pairwise fun later earlier ↦ earlier.generation < later.generation) ∧
    (∀ k, (s.watch.live k).length ≤ 1) ∧
    ∀ c k p, c.claimed = some (k, p) →
      if Accepted (s.tables.transact c).2 then
        (s.watch.handed k).head? = some p ∧ p ∈ s.watch.live k ∧ p ∉ s.watch.accepted k
      else (s.tables.transact c).1 = s.tables := by
  have hfenced := Reachable.fenced h
  refine ⟨fun k ↦ (hfenced k).increasing, fun k ↦ ?_, fun c k p hclaimed ↦ ?_⟩
  · rw [(hfenced k).live]
    cases s.tables.holder k with
    | none => exact Nat.zero_le 1
    | some p => exact le_rfl
  rcases transact_cases s.tables c with ⟨e, heq⟩ | ⟨t', answer, heq, hdone⟩
  · rw [heq]
    rfl
  · rw [heq]
    rcases hdone.claimed hclaimed with ⟨rfl, hholder, -⟩ | ⟨rfl, rfl⟩
    · refine ⟨(hfenced k).latest p hholder, ?_, fun hp ↦ ((hfenced k).accepted p hp).2 hholder⟩
      rw [(hfenced k).live, hholder]
      exact List.mem_singleton.mpr rfl
    · rfl

end WatchedClaims

/-! ### A Durable Object that is retired under a claim -/

def exampleKey : LifecycleKey := ⟨lit "workers/mail", lit "MailDO", lit "main"⟩

def exampleWorker : JsString := lit "worker-1"

/-- The entity of `exampleKey` in an incarnation of its storage. -/
def activation (nativeOwner : Option StorageIncarnation) : AlarmCall :=
  .entityActivate ⟨.durableObject, exampleKey.source, some exampleKey.className, exampleKey.objectKey,
    [], nativeOwner, true, none⟩ 0

def claimAll (now : ℕ) : AlarmCall := .alarmClaimDue ⟨now, exampleWorker, 10, []⟩

def completion (generation : ℕ) (nextAlarm : Option NextAlarm) : AlarmCall :=
  .alarmComplete ⟨exampleKey, exampleWorker, generation, none, nextAlarm⟩

/-- Its row is claimed, deleted and made again, and claimed again by the same worker. -/
def retiredUnderClaim : List AlarmCall :=
  [activation (some ⟨lit "i", 1⟩), .alarmAdoptWorker exampleWorker, claimAll 10,
    .entityRetire (durableObjectId exampleKey), .entityCleanupComplete (durableObjectId exampleKey),
    activation (some ⟨lit "j", 2⟩), .alarmSet ⟨exampleKey, 5, none, none, none⟩, claimAll 20]

/-- The handler of the first claim does not complete the second. -/
theorem claims_fenced_of_retiredUnderClaim : ∃ s : WatchedClaims,
    s.watch.handed exampleKey = [⟨exampleWorker, 2⟩, ⟨exampleWorker, 1⟩] ∧
      (s.tables.transact (completion 1 none)).1 = s.tables ∧
      ⟨exampleWorker, 2⟩ ∉ s.watch.accepted exampleKey := by
  have hrun : ((Transition.run WatchedClaims.step anyStep .init retiredUnderClaim).map fun s ↦
      (s.watch.handed exampleKey, Accepted (s.tables.transact (completion 1 none)).2,
        Accepted (s.tables.transact (completion 2 none)).2)) =
      some ([⟨exampleWorker, 2⟩, ⟨exampleWorker, 1⟩], false, true) := by
    decide +kernel
  obtain ⟨s, hs, heq⟩ := Option.map_eq_some_iff.mp hrun
  obtain ⟨hhanded, hfirst, hsecond⟩ : _ ∧ _ ∧ _ := by simpa only [Prod.mk.injEq] using heq
  obtain ⟨-, -, hcalls⟩ := WatchedClaims.claims_fenced (Transition.Reachable.run .init hs)
  have hold := hcalls (completion 1 none) exampleKey ⟨exampleWorker, 1⟩ rfl
  have hnew := hcalls (completion 2 none) exampleKey ⟨exampleWorker, 2⟩ rfl
  rw [hfirst] at hold
  rw [hsecond] at hnew
  exact ⟨s, hhanded, hold, hnew.2.2⟩

end Vibestudio.WorkspaceState

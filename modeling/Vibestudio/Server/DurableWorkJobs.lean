import Mathlib
import Vibestudio.Server.DurableWorkDriver

/-!
# Jobs of the dispatcher

Every claim the dispatcher has received is at one stage of its work, and what it still may do follows
from the stage: who holds its lane, and which calls there were for it. The invariant is one statement
about the jobs in hand, closed under the few ways in which a step changes them.
-/

namespace Vibestudio.Server.DurableWork

open Js

variable {Ω : Type}

/-! ## Calls in order -/

/-- The claim that a call is for. -/
def Call.id? : Call Ω → Option ℕ
  | .start | .quiesce | .claim _ => none
  | .received id _ _ | .prepare id | .prepareThrew id | .execute id | .executed id _ | .executeThrew id |
    .settle id _ | .settled id | .settleRejected id | .fail id | .failed id | .aborted id |
    .cleared id => some id

/-- Whether the driver admits work: it was started and not quiesced since. -/
def acceptingIn : List (Call Ω) → Bool
  | [] => false
  | .start :: _ => true
  | .quiesce :: _ => false
  | _ :: older => acceptingIn older

/-- Whether the driver was quiesced since a claim arrived. -/
def abortedIn (id : ℕ) : List (Call Ω) → Bool
  | [] => false
  | .quiesce :: _ => true
  | .received i _ _ :: older => if i = id then false else abortedIn id older
  | _ :: older => abortedIn id older

/-- A claim arrived when its lane was free. -/
def Arrived (calls : List (Call Ω)) (id : ℕ) : Prop := ∃ lane, .received id lane false ∈ calls

/-- What has to have happened before a call, and what must not. -/
def Allowed (older : List (Call Ω)) : Call Ω → Prop
  | .start | .quiesce | .claim _ | .received _ _ _ => True
  | .prepare id => Arrived older id
  | .prepareThrew id => .prepare id ∈ older
  | .execute id => Arrived older id ∧ .execute id ∉ older
  | .executed id _ => .execute id ∈ older ∧ ∀ o, .executed id o ∉ older
  | .executeThrew id => .execute id ∈ older
  | .settle id outcome => .executed id outcome ∈ older ∧ ∀ o, .settle id o ∉ older
  | .settled id | .settleRejected id => ∃ o, .settle id o ∈ older
  | .fail id => .fail id ∉ older ∧ ((∃ lane, .received id lane true ∈ older) ∨ .prepareThrew id ∈ older ∨
      .executeThrew id ∈ older ∨ .settleRejected id ∈ older)
  | .failed id => .fail id ∈ older
  | .aborted id => acceptingIn older = false ∨ abortedIn id older = true
  | .cleared id => .quiesce ∈ older ∧ .execute id ∉ older

/-- **Every call was allowed when it was made**: one execution for a claim that arrived in a free lane; one settlement, after it
and with its outcome; one failure, of a claim for an occupied lane, or after the preparation or the
execution threw or the settlement was rejected. Work is given up without either only if the driver was
quiesced while it was prepared or executed, or by a call of `quiesce` while it waited for a slot. -/
def Orderly : List (Call Ω) → Prop
  | [] => True
  | c :: older => Allowed older c ∧ Orderly older

/-- The settlement or the failure of a claim ran. -/
def Released (calls : List (Call Ω)) (id : ℕ) : Prop :=
  .settled id ∈ calls ∨ .settleRejected id ∈ calls ∨ .failed id ∈ calls

instance [DecidableEq Ω] (calls : List (Call Ω)) (id : ℕ) : Decidable (Released calls id) :=
  inferInstanceAs (Decidable (_ ∨ _ ∨ _))

/-- A claim no longer occupies its lane. -/
def Over (calls : List (Call Ω)) (id : ℕ) : Prop :=
  Released calls id ∨ .aborted id ∈ calls ∨ .cleared id ∈ calls

theorem Over.cons {calls : List (Call Ω)} {id : ℕ} (h : Over calls id) (c : Call Ω) :
    Over (c :: calls) id := by
  have hmem : ∀ {x : Call Ω}, x ∈ calls → x ∈ c :: calls := List.mem_cons_of_mem c
  exact h.imp (fun hreleased ↦ hreleased.imp hmem (Or.imp hmem hmem)) (Or.imp hmem hmem)

section Over

variable {calls : List (Call Ω)} {id : ℕ}

theorem over_settled : Over (.settled id :: calls) id := .inl (.inl List.mem_cons_self)

theorem over_settleRejected : Over (.settleRejected id :: calls) id := .inl (.inr (.inl List.mem_cons_self))

theorem over_failed : Over (.failed id :: calls) id := .inl (.inr (.inr List.mem_cons_self))

theorem over_aborted : Over (.aborted id :: calls) id := .inr (.inl List.mem_cons_self)

theorem over_cleared : Over (.cleared id :: calls) id := .inr (.inr List.mem_cons_self)

end Over

/-! ## Stages -/

variable (Ω) in
/-- Where the dispatcher is with a claim. -/
inductive Stage where
  | preparing
  | prepareThrew
  | ready
  | executing
  | settleQueued (outcome : Ω)
  | settling (outcome : Ω)
  | settleRejected
  | failQueued (settled : Bool)
  | failing (settled : Bool)
  | duplicate
  | duplicateFailing
  | finished

/-- The stages at which a claim holds its lane. -/
def Stage.holds : Stage Ω → Bool
  | .preparing | .prepareThrew | .ready | .executing | .settleQueued _ | .settling _ => true
  | .failQueued settled | .failing settled => !settled
  | .settleRejected | .duplicate | .duplicateFailing | .finished => false

/-- No execution yet, and nothing that comes after one. -/
def Quiet (calls : List (Call Ω)) (id : ℕ) : Prop :=
  .execute id ∉ calls ∧ (∀ o, .executed id o ∉ calls) ∧ (∀ o, .settle id o ∉ calls) ∧ .fail id ∉ calls

/-- The calls there were for a claim at a stage, as far as its next calls depend on them. -/
def Facts (calls : List (Call Ω)) (id : ℕ) : Stage Ω → Prop
  | .preparing => .prepare id ∈ calls ∧ Arrived calls id ∧ Quiet calls id
  | .prepareThrew => .prepareThrew id ∈ calls ∧ .fail id ∉ calls
  | .ready => Arrived calls id ∧ Quiet calls id
  | .executing => .execute id ∈ calls ∧ (∀ o, .executed id o ∉ calls) ∧ (∀ o, .settle id o ∉ calls) ∧
      .fail id ∉ calls
  | .settleQueued outcome => .executed id outcome ∈ calls ∧ (∀ o, .settle id o ∉ calls) ∧
      .fail id ∉ calls
  | .settling outcome => .settle id outcome ∈ calls ∧ .fail id ∉ calls
  | .settleRejected => .settleRejected id ∈ calls ∧ .fail id ∉ calls
  | .failQueued _ => (.executeThrew id ∈ calls ∨ .settleRejected id ∈ calls) ∧ .fail id ∉ calls
  | .duplicate => (∃ lane, .received id lane true ∈ calls) ∧ .fail id ∉ calls
  | .failing _ | .duplicateFailing => .fail id ∈ calls
  | .finished => True

theorem mem_cons_of_other {c x : Call Ω} {id : ℕ} {calls : List (Call Ω)} (hc : c.id? ≠ some id)
    (hx : x.id? = some id) : x ∈ c :: calls ↔ x ∈ calls := by
  rw [List.mem_cons, or_iff_right]
  rintro rfl
  exact hc hx

/-- A call for another claim changes nothing. -/
theorem facts_cons {c : Call Ω} {id : ℕ} {calls : List (Call Ω)} (hc : c.id? ≠ some id)
    (stage : Stage Ω) : Facts (c :: calls) id stage ↔ Facts calls id stage := by
  have hmem : ∀ x : Call Ω, x.id? = some id → (x ∈ c :: calls ↔ x ∈ calls) :=
    fun x hx ↦ mem_cons_of_other hc hx
  have hexecute := hmem (.execute id) rfl
  have hexecuted := fun o ↦ hmem (.executed id o) rfl
  have hsettle := fun o ↦ hmem (.settle id o) rfl
  have hfail := hmem (.fail id) rfl
  have harrived : Arrived (c :: calls) id ↔ Arrived calls id :=
    exists_congr fun lane ↦ hmem (.received id lane false) rfl
  cases stage with
  | preparing => simp only [Facts, Quiet, hmem (.prepare id) rfl, harrived, hexecute, hexecuted, hsettle, hfail]
  | prepareThrew => simp only [Facts, hmem (.prepareThrew id) rfl, hfail]
  | ready => simp only [Facts, Quiet, harrived, hexecute, hexecuted, hsettle, hfail]
  | executing => simp only [Facts, hexecute, hexecuted, hsettle, hfail]
  | settleQueued o => simp only [Facts, hexecuted, hsettle, hfail]
  | settling o => simp only [Facts, hsettle, hfail]
  | settleRejected => simp only [Facts, hmem (.settleRejected id) rfl, hfail]
  | failQueued b => simp only [Facts, hmem (.executeThrew id) rfl, hmem (.settleRejected id) rfl, hfail]
  | duplicate => simp only [Facts, fun lane ↦ hmem (.received id lane true) rfl, hfail]
  | failing b => simp only [Facts, hfail]
  | duplicateFailing => simp only [Facts, hfail]
  | finished => exact Iff.rfl

/-! ## Jobs -/

variable (Ω) in
structure Job where
  id : ℕ
  lane : JsString
  stage : Stage Ω

/-- The invariant of the jobs in hand. -/
structure JobsOk (lanes : JsMap JsString ℕ) (next : ℕ) (calls : List (Call Ω))
    (jobs : Multiset (Job Ω)) : Prop where
  ids : (jobs.map Job.id).Nodup
  bound : ∀ j ∈ jobs, j.id < next
  known : ∀ c ∈ calls, ∀ i, c.id? = some i → i < next
  facts : ∀ j ∈ jobs, Facts calls j.id j.stage
  lanes : ∀ j ∈ jobs, j.stage.holds = true → lanes.get j.lane = some j.id
  held : ∀ id lane, .received id lane false ∈ calls → Over calls id ∨
    ∃ j ∈ jobs, j.id = id ∧ j.lane = lane ∧ j.stage.holds = true
  orderly : Orderly calls

/-- A lane after its release with a token. -/
def releasedLanes (lanes : JsMap JsString ℕ) (lane : JsString) (token : ℕ) : JsMap JsString ℕ :=
  if lanes.get lane = some token then lanes.delete lane else lanes

namespace JobsOk

variable {lanes : JsMap JsString ℕ} {next : ℕ} {calls : List (Call Ω)} {jobs rest : Multiset (Job Ω)}
  {j : Job Ω} {stage : Stage Ω} {c : Call Ω}

theorem id_ne (h : JobsOk lanes next calls (j ::ₘ rest)) {j' : Job Ω} (hj' : j' ∈ rest) :
    j'.id ≠ j.id := by
  have hids := h.ids
  rw [Multiset.map_cons, Multiset.nodup_cons] at hids
  exact fun heq ↦ hids.1 (heq ▸ Multiset.mem_map_of_mem Job.id hj')

/-- Nothing is left of a job that is over. -/
theorem drop (h : JobsOk lanes next calls (j ::ₘ rest))
    (hover : j.stage.holds = true → Over calls j.id) : JobsOk lanes next calls rest where
  ids := (Multiset.nodup_cons.mp (Multiset.map_cons Job.id j rest ▸ h.ids)).2
  bound j' hj' := h.bound j' (Multiset.mem_cons_of_mem hj')
  known := h.known
  facts j' hj' := h.facts j' (Multiset.mem_cons_of_mem hj')
  lanes j' hj' := h.lanes j' (Multiset.mem_cons_of_mem hj')
  held id lane hreceived := by
    rcases h.held id lane hreceived with hdone | ⟨j', hj', rfl, hlane, hholds⟩
    · exact .inl hdone
    · rcases Multiset.mem_cons.mp hj' with rfl | hj'
      · exact .inl (hover hholds)
      · exact .inr ⟨j', hj', rfl, hlane, hholds⟩
  orderly := h.orderly

/-- A call that is for none of the jobs. -/
theorem call (h : JobsOk lanes next calls jobs) (hc : Allowed calls c)
    (hreceived : ∀ id lane, c ≠ .received id lane false)
    (hknown : ∀ i, c.id? = some i → i < next) (hother : ∀ j ∈ jobs, c.id? ≠ some j.id) :
    JobsOk lanes next (c :: calls) jobs := by
  refine ⟨h.ids, h.bound, fun c' hc' i hi ↦ ?_, fun j hj ↦ ?_, h.lanes, fun id lane hid ↦ ?_, hc,
    h.orderly⟩
  · rcases List.mem_cons.mp hc' with rfl | hc'
    · exact hknown i hi
    · exact h.known c' hc' i hi
  · exact (facts_cons (hother j hj) j.stage).mpr (h.facts j hj)
  · rcases List.mem_cons.mp hid with rfl | hid
    · exact absurd rfl (hreceived id lane)
    · exact (h.held id lane hid).imp_left (Over.cons · c)

/-- A claim that has arrived becomes a job. -/
theorem add (h : JobsOk lanes next calls jobs) {id : ℕ} (hid : id < next) (hnew : ∀ j ∈ jobs, j.id ≠ id)
    (lane : JsString) (hfacts : Facts calls id stage)
    (hholds : stage.holds = true → lanes.get lane = some id) :
    JobsOk lanes next calls (⟨id, lane, stage⟩ ::ₘ jobs) := by
  refine ⟨?_, fun j hj ↦ ?_, h.known, fun j hj ↦ ?_, fun j hj hjholds ↦ ?_, fun id' lane' hreceived ↦ ?_,
    h.orderly⟩
  · rw [Multiset.map_cons, Multiset.nodup_cons]
    refine ⟨fun hmem ↦ ?_, h.ids⟩
    obtain ⟨j, hj, heq⟩ := Multiset.mem_map.mp hmem
    exact hnew j hj heq
  · rcases Multiset.mem_cons.mp hj with rfl | hj
    · exact hid
    · exact h.bound j hj
  · rcases Multiset.mem_cons.mp hj with rfl | hj
    · exact hfacts
    · exact h.facts j hj
  · rcases Multiset.mem_cons.mp hj with rfl | hj
    · exact hholds hjholds
    · exact h.lanes j hj hjholds
  · refine (h.held id' lane' hreceived).imp_right ?_
    rintro ⟨j, hj, hjob⟩
    exact ⟨j, Multiset.mem_cons_of_mem hj, hjob⟩

/-- A job goes to another stage, perhaps with calls for it. -/
theorem replace {calls' : List (Call Ω)} (h : JobsOk lanes next calls (j ::ₘ rest))
    (hknown : ∀ c ∈ calls', ∀ i, c.id? = some i → i < next)
    (hfacts : Facts calls' j.id stage) (hrest : ∀ j' ∈ rest, Facts calls' j'.id j'.stage)
    (hreceived : ∀ id lane, .received id lane false ∈ calls' → .received id lane false ∈ calls)
    (hdone : ∀ id, Over calls id → Over calls' id) (hholds : stage.holds = true → j.stage.holds = true)
    (hover : j.stage.holds = true → stage.holds = true ∨ Over calls' j.id) (horderly : Orderly calls') :
    JobsOk lanes next calls' (⟨j.id, j.lane, stage⟩ ::ₘ rest) := by
  refine ⟨?_, fun j' hj' ↦ ?_, hknown, fun j' hj' ↦ ?_, fun j' hj' hj'holds ↦ ?_,
    fun id lane hid ↦ ?_, horderly⟩
  · have hids := h.ids
    rw [Multiset.map_cons] at hids ⊢
    exact hids
  · rcases Multiset.mem_cons.mp hj' with rfl | hj'
    · exact h.bound j (Multiset.mem_cons_self j rest)
    · exact h.bound j' (Multiset.mem_cons_of_mem hj')
  · rcases Multiset.mem_cons.mp hj' with rfl | hj'
    · exact hfacts
    · exact hrest j' hj'
  · rcases Multiset.mem_cons.mp hj' with rfl | hj'
    · exact h.lanes j (Multiset.mem_cons_self j rest) (hholds hj'holds)
    · exact h.lanes j' (Multiset.mem_cons_of_mem hj') hj'holds
  · rcases h.held id lane (hreceived id lane hid) with hgone | ⟨j', hj', rfl, hlane, hj'holds⟩
    · exact .inl (hdone id hgone)
    · rcases Multiset.mem_cons.mp hj' with rfl | hj'
      · exact (hover hj'holds).symm.imp_right fun hstage ↦ ⟨_, Multiset.mem_cons_self _ _, rfl, hlane, hstage⟩
      · exact .inr ⟨j', Multiset.mem_cons_of_mem hj', rfl, hlane, hj'holds⟩

/-- A job goes to another stage without a call. -/
theorem move (h : JobsOk lanes next calls (j ::ₘ rest)) (hfacts : Facts calls j.id stage)
    (hholds : j.stage.holds = stage.holds) :
    JobsOk lanes next calls (⟨j.id, j.lane, stage⟩ ::ₘ rest) :=
  h.replace h.known hfacts (fun j' hj' ↦ h.facts j' (Multiset.mem_cons_of_mem hj'))
    (fun _ _ hid ↦ hid) (fun _ hdone ↦ hdone) (fun hstage ↦ hholds.trans hstage)
    (fun hj ↦ .inl (hholds.symm.trans hj)) h.orderly

/-- A job goes to another stage with a call. -/
theorem advance (h : JobsOk lanes next calls (j ::ₘ rest)) (c : Call Ω) (hid : c.id? = some j.id)
    (hreceived : ∀ id lane, c ≠ .received id lane false) (hc : Allowed calls c)
    (hfacts : Facts (c :: calls) j.id stage) (hholds : stage.holds = true → j.stage.holds = true)
    (hover : j.stage.holds = true → stage.holds = true ∨ Over (c :: calls) j.id) :
    JobsOk lanes next (c :: calls) (⟨j.id, j.lane, stage⟩ ::ₘ rest) := by
  refine h.replace (fun c' hc' i hi ↦ ?_) hfacts (fun j' hj' ↦ ?_) (fun id lane hmem ↦ ?_)
    (fun _ hdone ↦ hdone.cons c) hholds hover ⟨hc, h.orderly⟩
  · rcases List.mem_cons.mp hc' with rfl | hc'
    · exact Option.some.inj (hid.symm.trans hi) ▸ h.bound j (Multiset.mem_cons_self j rest)
    · exact h.known c' hc' i hi
  · refine (facts_cons (fun heq ↦ ?_) j'.stage).mpr (h.facts j' (Multiset.mem_cons_of_mem hj'))
    exact h.id_ne hj' (Option.some.inj (hid.symm.trans heq)).symm
  · exact (List.mem_cons.mp hmem).resolve_left fun heq ↦ hreceived id lane heq.symm

/-- A lane is released for a claim that does not hold it any more. -/
theorem release (h : JobsOk lanes next calls jobs) (lane : JsString) {token : ℕ}
    (hfree : ∀ j ∈ jobs, j.stage.holds = true → j.id ≠ token) :
    JobsOk (releasedLanes lanes lane token) next calls jobs := by
  refine ⟨h.ids, h.bound, h.known, h.facts, fun j hj hholds ↦ ?_, h.held, h.orderly⟩
  have hlane := h.lanes j hj hholds
  rw [releasedLanes]
  split_ifs with htoken
  · rw [JsMap.get_delete, if_neg, hlane]
    rintro rfl
    exact hfree j hj hholds (Option.some.inj (hlane.symm.trans htoken))
  · exact hlane

/-- The lanes are only looked up. -/
theorem congr_lanes (h : JobsOk lanes next calls jobs) {lanes' : JsMap JsString ℕ}
    (hlanes : ∀ lane, lanes'.get lane = lanes.get lane) : JobsOk lanes' next calls jobs :=
  ⟨h.ids, h.bound, h.known, h.facts, fun j hj hholds ↦ (hlanes j.lane).trans (h.lanes j hj hholds),
    h.held, h.orderly⟩

theorem fresh (h : JobsOk lanes next calls jobs) {x : Call Ω} (hx : x.id? = some next) : x ∉ calls :=
  fun hmem ↦ absurd (h.known x hmem next hx) (lt_irrefl next)

/-- The next claim arrives, for an occupied lane. -/
theorem receive (h : JobsOk lanes next calls jobs) (lane : JsString) :
    JobsOk lanes (next + 1) (.received next lane true :: calls) jobs := by
  have hlater : JobsOk lanes (next + 1) calls jobs :=
    ⟨h.ids, fun j hj ↦ (h.bound j hj).trans (Nat.lt_succ_self next),
      fun c hc i hi ↦ (h.known c hc i hi).trans (Nat.lt_succ_self next), h.facts, h.lanes, h.held, h.orderly⟩
  refine hlater.call trivial nofun (fun i hi ↦ ?_) fun j hj heq ↦ ?_
  · exact Option.some.inj hi ▸ Nat.lt_succ_self next
  · exact absurd (Option.some.inj heq ▸ h.bound j hj) (lt_irrefl next)

/-- **A new claim starts** in a free lane with its first call. -/
theorem enter (h : JobsOk lanes next calls jobs) {lane : JsString} (hfree : lanes.get lane = none)
    (c : Call Ω) (hid : c.id? = some next) (hreceived : ∀ id lane, c ≠ .received id lane false)
    (hc : Allowed (.received next lane false :: calls) c)
    (hfacts : Facts (c :: .received next lane false :: calls) next stage) (hholds : stage.holds = true) :
    JobsOk (lanes.set lane next) (next + 1) (c :: .received next lane false :: calls)
      (⟨next, lane, stage⟩ ::ₘ jobs) := by
  have hnew : ∀ j ∈ jobs, j.id ≠ next := fun j hj ↦ (h.bound j hj).ne
  have hother : ∀ (x : Call Ω), x.id? = some next → ∀ j ∈ jobs, x.id? ≠ some j.id :=
    fun x hx j hj heq ↦ hnew j hj (Option.some.inj (hx.symm.trans heq)).symm
  refine ⟨?_, fun j hj ↦ ?_, fun c' hc' i hi ↦ ?_, fun j hj ↦ ?_, fun j hj hjholds ↦ ?_,
    fun id lane' hmem ↦ ?_, hc, trivial, h.orderly⟩
  · rw [Multiset.map_cons, Multiset.nodup_cons]
    refine ⟨fun hmem ↦ ?_, h.ids⟩
    obtain ⟨j, hj, heq⟩ := Multiset.mem_map.mp hmem
    exact hnew j hj heq
  · rcases Multiset.mem_cons.mp hj with rfl | hj
    · exact Nat.lt_succ_self next
    · exact (h.bound j hj).trans (Nat.lt_succ_self next)
  · rcases List.mem_cons.mp hc' with rfl | hc'
    · exact Option.some.inj (hid.symm.trans hi) ▸ Nat.lt_succ_self next
    · rcases List.mem_cons.mp hc' with rfl | hc'
      · exact Option.some.inj hi ▸ Nat.lt_succ_self next
      · exact (h.known c' hc' i hi).trans (Nat.lt_succ_self next)
  · rcases Multiset.mem_cons.mp hj with rfl | hj
    · exact hfacts
    · exact (facts_cons (hother c hid j hj) j.stage).mpr
        ((facts_cons (hother (.received next lane false) rfl j hj) j.stage).mpr (h.facts j hj))
  · rcases Multiset.mem_cons.mp hj with rfl | hj
    · exact JsMap.get_set_self _ _ _
    · have hlane := h.lanes j hj hjholds
      rw [JsMap.get_set, if_neg, hlane]
      rintro rfl
      exact nomatch hlane.symm.trans hfree
  · have hmem := (List.mem_cons.mp hmem).resolve_left fun heq ↦ hreceived id lane' heq.symm
    rcases List.mem_cons.mp hmem with heq | hmem
    · cases heq
      exact .inr ⟨_, Multiset.mem_cons_self _ _, rfl, rfl, hholds⟩
    · rcases h.held id lane' hmem with hdone | ⟨j, hj, hjob⟩
      · exact .inl ((hdone.cons _).cons c)
      · exact .inr ⟨j, Multiset.mem_cons_of_mem hj, hjob⟩

end JobsOk

/-! ## Owners of lanes -/

/-- A second claim of a lane is never given it. -/
def Stage.mayOwn : Stage Ω → Bool
  | .duplicate | .duplicateFailing => false
  | _ => true

/-- Every lane that is taken belongs to a job in hand. -/
def Owned (lanes : JsMap JsString ℕ) (jobs : Multiset (Job Ω)) : Prop :=
  ∀ lane id, lanes.get lane = some id → ∃ j ∈ jobs, j.id = id ∧ j.lane = lane ∧ j.stage.mayOwn = true

theorem get_of_get_released {lanes : JsMap JsString ℕ} {lane lane' : JsString} {token id : ℕ}
    (h : (releasedLanes lanes lane token).get lane' = some id) :
    lanes.get lane' = some id ∧ ¬(lane = lane' ∧ token = id) := by
  rw [releasedLanes] at h
  split_ifs at h with htoken
  · rw [JsMap.get_delete] at h
    split_ifs at h with heq
    exact ⟨h, fun hsame ↦ heq hsame.1.symm⟩
  · refine ⟨h, ?_⟩
    rintro ⟨rfl, rfl⟩
    exact htoken h

namespace Owned

variable {lanes : JsMap JsString ℕ} {jobs rest : Multiset (Job Ω)} {j : Job Ω} {stage : Stage Ω}

theorem move (h : Owned lanes (j ::ₘ rest)) (hstage : stage.mayOwn = true) :
    Owned lanes (⟨j.id, j.lane, stage⟩ ::ₘ rest) := by
  intro lane id hget
  obtain ⟨j', hj', hid, hlane, hown⟩ := h lane id hget
  rcases Multiset.mem_cons.mp hj' with rfl | hj'
  · exact ⟨_, Multiset.mem_cons_self _ _, hid, hlane, hstage⟩
  · exact ⟨j', Multiset.mem_cons_of_mem hj', hid, hlane, hown⟩

theorem release (h : Owned lanes jobs) (lane : JsString) (token : ℕ) :
    Owned (releasedLanes lanes lane token) jobs :=
  fun lane' id hget ↦ h lane' id (get_of_get_released hget).1

/-- A job is over when its lane is released. -/
theorem drop_released (h : Owned lanes (j ::ₘ rest)) :
    Owned (releasedLanes lanes j.lane j.id) rest := by
  intro lane id hget
  obtain ⟨hget, hother⟩ := get_of_get_released hget
  obtain ⟨j', hj', hid, hlane, hown⟩ := h lane id hget
  rcases Multiset.mem_cons.mp hj' with rfl | hj'
  · exact absurd ⟨hlane, hid⟩ hother
  · exact ⟨j', hj', hid, hlane, hown⟩

theorem drop_duplicate (h : Owned lanes (j ::ₘ rest)) (hstage : j.stage.mayOwn = false) :
    Owned lanes rest := by
  intro lane id hget
  obtain ⟨j', hj', hid, hlane, hown⟩ := h lane id hget
  rcases Multiset.mem_cons.mp hj' with rfl | hj'
  · exact absurd hown (hstage ▸ Bool.false_ne_true)
  · exact ⟨j', hj', hid, hlane, hown⟩

theorem add (h : Owned lanes jobs) (j : Job Ω) : Owned lanes (j ::ₘ jobs) := by
  intro lane id hget
  obtain ⟨j', hj', hid, hlane, hown⟩ := h lane id hget
  exact ⟨j', Multiset.mem_cons_of_mem hj', hid, hlane, hown⟩

theorem enter (h : Owned lanes jobs) (lane : JsString) (id : ℕ) (hstage : stage.mayOwn = true) :
    Owned (lanes.set lane id) (⟨id, lane, stage⟩ ::ₘ jobs) := by
  intro lane' id' hget
  rw [JsMap.get_set] at hget
  split_ifs at hget with heq
  · exact ⟨_, Multiset.mem_cons_self _ _, Option.some.inj hget, heq.symm, hstage⟩
  · exact h.add _ lane' id' hget

theorem congr_lanes (h : Owned lanes jobs) {lanes' : JsMap JsString ℕ}
    (hlanes : ∀ lane, lanes'.get lane = lanes.get lane) : Owned lanes' jobs :=
  fun lane id hget ↦ h lane id ((hlanes lane).symm.trans hget)

end Owned

/-! ## The jobs of the dispatcher -/

def Work.job (w : Work) (stage : Stage Ω) : Job Ω := ⟨w.id, w.lane, stage⟩

/-- Work that was handed over is no longer a job of its preparation. -/
def PreparationPhase.stages : PreparationPhase → List (Stage Ω)
  | .preparing => [.preparing]
  | .failQueued => [.prepareThrew]
  | .failing => [.failing false]
  | .failed _ | .ended false => [.finished]
  | .ended true => []

def Preparation.jobs (p : Preparation) : List (Job Ω) := p.phase.stages.map p.work.job

def RunnerPhase.stage : RunnerPhase Ω → Stage Ω
  | .executing => .executing
  | .settleQueued outcome => .settleQueued outcome
  | .settling outcome => .settling outcome
  | .settleRejected => .settleRejected
  | .failQueued settled => .failQueued settled
  | .failing settled => .failing settled
  | .ended _ => .finished

def Runner.job (r : Runner Ω) : Job Ω := r.work.job r.phase.stage

def PumpPhase.jobs : PumpPhase → Multiset (Job Ω)
  | .failQueued w _ => {w.job .duplicate}
  | .failing w _ => {w.job .duplicateFailing}
  | .claimQueued _ _ | .claiming _ _ _ | .returned => 0

/-- How many more executions the pump may start without looking at the slots. -/
def PumpPhase.promised : PumpPhase → ℕ
  | .claiming _ _ limit => limit
  | .failQueued _ rest | .failing _ rest => rest.length
  | .claimQueued _ _ | .returned => 0

def workJobs (prerequisites : List Preparation) (runnable : List Work) (runners : List (Runner Ω)) :
    Multiset (Job Ω) :=
  (prerequisites.flatMap Preparation.jobs : List (Job Ω)) +
    (runnable.map (Work.job · .ready) : List (Job Ω)) + (runners.map Runner.job : List (Job Ω))

theorem workJobs_runnable_cons (prerequisites : List Preparation) (w : Work) (runnable : List Work)
    (runners : List (Runner Ω)) : workJobs prerequisites (w :: runnable) runners =
      w.job .ready ::ₘ workJobs prerequisites runnable runners := by
  rw [workJobs, List.map_cons, ← Multiset.cons_coe, Multiset.add_cons, Multiset.cons_add, workJobs]

theorem workJobs_runnable_append (prerequisites : List Preparation) (runnable : List Work) (w : Work)
    (runners : List (Runner Ω)) : workJobs prerequisites (runnable ++ [w]) runners =
      w.job .ready ::ₘ workJobs prerequisites runnable runners := by
  rw [← workJobs_runnable_cons, workJobs, workJobs,
    Multiset.coe_eq_coe.mpr ((List.perm_append_singleton w runnable).map _)]

theorem workJobs_runners_append (prerequisites : List Preparation) (runnable : List Work)
    (runners : List (Runner Ω)) (r : Runner Ω) : workJobs prerequisites runnable (runners ++ [r]) =
      r.job ::ₘ workJobs prerequisites runnable runners := by
  rw [workJobs, Multiset.coe_eq_coe.mpr ((List.perm_append_singleton r runners).map _), List.map_cons,
    ← Multiset.cons_coe, Multiset.add_cons, workJobs]

theorem workJobs_prerequisites (p : Preparation) {l l' : List Preparation} (h : l.Perm (p :: l'))
    (runnable : List Work) (runners : List (Runner Ω)) :
    workJobs l runnable runners = (p.jobs : List (Job Ω)) + workJobs l' runnable runners := by
  rw [workJobs, Multiset.coe_eq_coe.mpr (h.flatMap_right _), List.flatMap_cons, ← Multiset.coe_add,
    add_assoc, add_assoc, workJobs, add_assoc]

theorem workJobs_runners (r : Runner Ω) {l l' : List (Runner Ω)} (h : l.Perm (r :: l'))
    (prerequisites : List Preparation) (runnable : List Work) :
    workJobs prerequisites runnable l = r.job ::ₘ workJobs prerequisites runnable l' := by
  rw [workJobs, Multiset.coe_eq_coe.mpr (h.map _), List.map_cons, ← Multiset.cons_coe,
    Multiset.add_cons, workJobs]

end Vibestudio.Server.DurableWork

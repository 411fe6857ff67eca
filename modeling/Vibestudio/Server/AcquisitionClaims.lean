import Mathlib
import Vibestudio.Server.AcquisitionBatches

/-!
# Acquisition receipts over every run

A call goes through the transaction of the grant owner: it commits what its body leaves, or changes
nothing. So the invariants of the bodies hold in every reachable store. `write` may be called again
for an acquisition whose earlier attempt was rolled back, but only one of its calls is committed.
-/

namespace Vibestudio.Server

open Js Sqlite Shared Transition

variable {host : AcquisitionHost} {G : Type}

/-! ## One transaction -/

namespace AcquisitionOp

theorem writes_effectsWork (effects : List Bool) (db : AcquisitionDb G) :
    (effectsWork effects).writes db = db := by
  induction effects with
  | nil => rfl
  | cons throws effects ih => exact ih

/-- What one effect does: nothing to the database. -/
def effectBody (throws : Bool) (w : World (AcquisitionDb G) Bool) :
    World (AcquisitionDb G) Bool × Result :=
  (w, if throws then .error (.thrown []) else .ok ())

theorem pending_effectsWork (effects : List Bool) :
    (effectsWork effects : Work (AcquisitionDb G) Bool).pending =
      effects.map fun throws ↦ (throws, effectBody throws) := by
  induction effects with
  | nil => rfl
  | cons throws effects ih =>
    change (throws, _) :: (effectsWork effects).pending = _
    rw [ih, List.map_cons]
    cases throws <;> rfl

/-- The effects leave the database alone, and one that throws is reported. -/
theorem runPending_effects (effects : List Bool) : ∀ (failures : List AuthorityError)
    (w : World (AcquisitionDb G) Bool),
    (runPending (effects.map fun throws ↦ (throws, effectBody throws)) failures w).1.1 = w.1 ∧
      ((failures = [] ∧ true ∉ effects ∧
        (runPending (effects.map fun throws ↦ (throws, effectBody throws)) failures w).2 = .ok ()) ∨
      ((failures ≠ [] ∨ true ∈ effects) ∧ ∃ failures',
        (runPending (effects.map fun throws ↦ (throws, effectBody throws)) failures w).2 =
          .error (.liveEffectsFailed failures'))) := by
  induction effects with
  | nil =>
    intro failures w
    refine ⟨rfl, ?_⟩
    by_cases hf : failures = []
    · exact Or.inl ⟨hf, List.not_mem_nil, if_pos hf⟩
    · exact Or.inr ⟨Or.inl hf, failures, if_neg hf⟩
  | cons throws effects ih =>
    intro failures w
    rw [List.map_cons]
    cases throws with
    | false =>
      obtain ⟨hw, hr⟩ := ih failures (w.1, w.2 ++ [(false, .idle w.1)])
      refine ⟨hw, hr.imp (fun h ↦ ⟨h.1, ?_, h.2.2⟩) fun h ↦ ⟨h.1.imp id (List.mem_cons_of_mem _), h.2⟩⟩
      exact fun hmem ↦ h.2.1 ((List.mem_cons.mp hmem).resolve_left nofun)
    | true =>
      obtain ⟨hw, hr⟩ := ih (failures ++ [.thrown []]) (w.1, w.2 ++ [(true, .idle w.1)])
      refine ⟨hw, Or.inr ⟨Or.inr List.mem_cons_self, ?_⟩⟩
      rcases hr with h | h
      · exact absurd h.1 (List.append_ne_nil_of_right_ne_nil _ (List.cons_ne_nil _ _))
      · exact h.2

end AcquisitionOp

theorem outer_uncaught {D E : Type} (fault : Fault) (work : Work D E) (w : World D E) :
    (Work.transaction fault work false .done).outer w =
      match (work.called fault w).2 with
      | .ok () => ((work.called fault w).1, .ok ())
      | .error e => ((work.called fault w).1, .error e) := rfl

/-- A transaction that nobody catches ends as its call does. -/
theorem outer_transaction {D E : Type} (fault : Fault) (work : Work D E) (w : World D E) :
    (Work.transaction fault work false .done).outer w = work.called fault w := by
  rw [outer_uncaught]
  split <;> rename_i heq <;> exact Prod.ext rfl heq.symm

/-- No call is in progress. -/
def AcquisitionStore.Idle (s : AcquisitionStore G) : Prop := s.store.Idle

variable {s s' t : AcquisitionStore G}

/-- How a call is done whose work is `w`. -/
theorem perform_work (hs : s.Idle) {c : AcquisitionCall G} {w : Work (AcquisitionDb G) Bool}
    (hw : c.op.work host c.fault s.db = some w) :
    ∃ s' result, s.perform host c = some (s', result) ∧ s'.Idle ∧ s'.ran = s.ranAfter host c ∧
      s'.db = (w.outer s.store.world).1.1 ∧
      result = (w.outer s.store.world).2.map fun () ↦
        match c.op.body host s.db with
        | some (.ok done) => done.reply
        | _ => .void := by
  obtain ⟨store, hstore, hidle, -, hworld⟩ := (exec_outside w).1 _ le_rfl s.store hs
  refine ⟨⟨store, s.ranAfter host c⟩, _, ?_, hidle, rfl, congrArg Prod.fst hworld, rfl⟩
  rw [AcquisitionStore.perform, hw, Option.bind_some, hstore]
  rfl

/-- **A call**, given that its body ends: it commits what the body leaves, and may then report that
live effects have failed, or it throws and the database is as it was. -/
theorem perform_spec (hs : s.Idle) (c : AcquisitionCall G) (hends : c.op.body host s.db ≠ none) :
    ∃ s' result, s.perform host c = some (s', result) ∧ s'.Idle ∧ s'.ran = s.ranAfter host c ∧
      ((c.op.commits host c.fault s.db = true ∧
          ∃ done, c.op.body host s.db = some (.ok done) ∧ s'.db = done.db ∧
            (result = .ok done.reply ∨ done.effects ≠ [] ∧ ∃ failures,
              result = .error (.liveEffectsFailed failures))) ∨
        (c.op.commits host c.fault s.db = false ∧ s'.db = s.db ∧ ∃ e, result = .error e)) := by
  cases hchecked : c.op.checked host with
  | error e =>
    have hwork : c.op.work host c.fault s.db = some (.throw (e.message?.getD [])) := by
      rw [AcquisitionOp.work, hchecked]
    obtain ⟨s', result, hperform, hidle, hran, hdb, hresult⟩ := perform_work hs hwork
    refine ⟨s', result, hperform, hidle, hran, Or.inr ⟨?_, hdb, _, hresult⟩⟩
    rw [AcquisitionOp.commits, hchecked]
  | ok run =>
    have hbody : c.op.body host s.db = run s.db := by rw [AcquisitionOp.body, hchecked]
    rw [hbody] at hends ⊢
    obtain ⟨outcome, hrun⟩ := Option.ne_none_iff_exists'.mp hends
    have hwork : c.op.work host c.fault s.db =
        some (.transaction c.fault (AcquisitionOp.transactionWork outcome) false .done) := by
      rw [AcquisitionOp.work, hchecked]
      simp only [hrun]
      rfl
    have hcommits : c.op.commits host c.fault s.db =
        (AcquisitionOp.transactionWork outcome).completes c.fault := by
      rw [AcquisitionOp.commits, hchecked]
      simp only [hrun]
      rfl
    obtain ⟨s', result, hperform, hidle, hran, hdb, hresult⟩ := perform_work hs hwork
    refine ⟨s', result, hperform, hidle, hran, ?_⟩
    rw [outer_transaction, Work.called] at hdb hresult
    rw [hcommits, Work.completes]
    rw [hbody, hrun] at hresult
    cases hverdict : c.fault.verdict (AcquisitionOp.transactionWork outcome).outcome with
    | error e =>
      rw [hverdict] at hdb hresult
      exact Or.inr ⟨rfl, hdb, _, hresult⟩
    | ok =>
      rw [hverdict] at hdb hresult
      -- only work that does not throw gets here
      obtain ⟨done, rfl⟩ : ∃ done, outcome = .ok done := by
        cases outcome with
        | ok done => exact ⟨done, rfl⟩
        | error e =>
          rw [AcquisitionOp.transactionWork, Work.outcome, Fault.verdict] at hverdict
          split_ifs at hverdict
      have hpending : (AcquisitionOp.transactionWork (.ok done)).pending =
          done.effects.map fun throws ↦ (throws, AcquisitionOp.effectBody throws) :=
        AcquisitionOp.pending_effectsWork _
      have hwrites : (AcquisitionOp.transactionWork (.ok done)).writes s.store.world.1 = done.db :=
        AcquisitionOp.writes_effectsWork _ _
      rw [hpending, hwrites] at hdb hresult
      obtain ⟨hsame, hend⟩ := AcquisitionOp.runPending_effects done.effects []
        (done.db, s.store.world.2)
      refine Or.inl ⟨rfl, done, hrun, hdb.trans hsame, ?_⟩
      rcases hend with ⟨-, -, hok⟩ | ⟨hmem, failures, hfail⟩
      · rw [hok] at hresult
        exact Or.inl hresult
      · rw [hfail] at hresult
        have hne : done.effects ≠ [] := List.ne_nil_of_mem (hmem.resolve_left fun h ↦ h rfl)
        exact Or.inr ⟨hne, failures, hresult⟩

/-! ## Every reachable store -/

/-- The acquisitions that had a call of `write` committed. -/
def AcquisitionStore.committed (s : AcquisitionStore G) : List JsString :=
  (s.ran.filter Prod.snd).map Prod.fst

/-- What holds of every reachable store. -/
structure AcquisitionStore.Inv (host : AcquisitionHost) (s : AcquisitionStore G) : Prop where
  idle : s.Idle
  db : AcquisitionInv host s.db
  active : ActiveBut none s.db
  once : s.committed.Nodup
  settled : ∀ id ∈ s.committed, ∃ row receipt,
    s.db.acquisitions.get id = some row ∧ row.receipt = some receipt

theorem AcquisitionStore.inv_fresh (grants : G) : (AcquisitionStore.fresh grants).Inv host where
  idle := ⟨rfl, rfl⟩
  db := ⟨fun _ _ h ↦ (nomatch h), fun _ h ↦ (nomatch h), fun _ _ h ↦ (nomatch h),
    fun _ _ _ _ h ↦ (nomatch h)⟩
  active := fun _ _ h ↦ (nomatch h)
  once := List.nodup_nil
  settled := fun _ h ↦ absurd h List.not_mem_nil

/-- **What one call of `write` needs and leaves**: a pending acquisition, which its commit settles. -/
theorem callsWrite_spec {op : AcquisitionOp G} {db : AcquisitionDb G} {id : JsString}
    (h : op.callsWrite host db = some id) :
    (∃ row, db.acquisitions.get id = some row ∧ row.pending = true) ∧
      ∀ done, op.body host db = some (.ok done) → ∃ row receipt,
        done.db.acquisitions.get id = some row ∧ row.receipt = some receipt := by
  cases op with
  | resolve acquisitionId owner bindingDigest decision write now =>
    rw [AcquisitionOp.callsWrite] at h
    split at h
    · rename_i record hask
      obtain rfl := Option.some.inj h
      obtain ⟨row, hid, hrow, hp, -⟩ := ask_eq_decide hask
      rw [hid]
      refine ⟨⟨row, hrow, hp⟩, fun done hdone ↦ ?_⟩
      rcases resolve_writes (Option.some.inj hdone) with ⟨_, hreplay, -⟩ |
        ⟨_, _, receipt, -, -, -, -, hsettled, -⟩
      · rw [hask] at hreplay
        cases Except.ok.inj hreplay
      · exact ⟨_, receipt, hsettled, rfl⟩
    · cases h
  | _ => cases h

/-- A call keeps what holds of the store. -/
theorem AcquisitionStore.Inv.perform (h : s.Inv host) (c : AcquisitionCall G) :
    ∃ s' result, s.perform host c = some (s', result) ∧ s'.Inv host ∧
      AcquisitionFrame s.db s'.db ∧
      (∀ e, result = .error e → s'.db = s.db ∨
        (∃ id owner d decision write now, c.op = .resolve id owner d decision write now) ∧
          ∃ failures, e = .liveEffectsFailed failures) := by
  obtain ⟨hends, hbody⟩ := body_spec c.op h.db h.active
  obtain ⟨s', result, hperform, hidle, hran, hcase⟩ := perform_spec h.idle c hends
  have hkept : Kept host s.db s'.db := by
    rcases hcase with ⟨-, done, hdone, hdb, -⟩ | ⟨-, hdb, -⟩
    · rw [hdb]
      exact (hbody done hdone).1
    · rw [hdb]
      exact Kept.refl h.db h.active
  -- the calls of `write` that were committed are still of settled rows
  have hold : ∀ id ∈ s.committed, ∃ row receipt,
      s'.db.acquisitions.get id = some row ∧ row.receipt = some receipt := by
    intro id hid
    obtain ⟨row, receipt, hrow, hreceipt⟩ := h.settled id hid
    obtain ⟨row', hrow', hk⟩ := hkept.frame.rows id row hrow
    exact ⟨row', receipt, hrow', hk.receipt receipt hreceipt⟩
  have hnew : s'.committed = s.committed ∨ ∃ id, s'.committed = s.committed ++ [id] ∧
      c.op.callsWrite host s.db = some id ∧ c.op.commits host c.fault s.db = true := by
    rw [AcquisitionStore.committed, hran, AcquisitionStore.ranAfter]
    cases hcalls : c.op.callsWrite host s.db with
    | none => exact Or.inl rfl
    | some id =>
      simp only
      split_ifs
      · exact Or.inl rfl
      · rw [List.filter_append, List.map_append]
        cases hcommits : c.op.commits host c.fault s.db with
        | false => exact Or.inl (List.append_nil _)
        | true => exact Or.inr ⟨id, rfl, rfl, rfl⟩
  refine ⟨s', result, hperform, ⟨hidle, hkept.inv, hkept.active, ?_, ?_⟩, hkept.frame, ?_⟩
  · rcases hnew with hsame | ⟨id, happ, hcalls, -⟩
    · rw [hsame]
      exact h.once
    · rw [happ, List.nodup_append]
      refine ⟨h.once, List.nodup_singleton _, fun a ha b hb hab ↦ ?_⟩
      obtain rfl := List.mem_singleton.mp hb
      subst hab
      obtain ⟨row, receipt, hrow, hreceipt⟩ := h.settled a ha
      obtain ⟨⟨row', hrow', hp⟩, -⟩ := callsWrite_spec hcalls
      obtain rfl := Option.some.inj (hrow.symm.trans hrow')
      rw [AcquisitionRow.pending_iff.mp hp] at hreceipt
      exact nomatch hreceipt
  · rcases hnew with hsame | ⟨id, happ, hcalls, hcommits⟩
    · rwa [hsame]
    · rw [happ]
      intro a ha
      rcases List.mem_append.mp ha with ha | ha
      · exact hold a ha
      · obtain rfl := List.mem_singleton.mp ha
        rcases hcase with ⟨-, done, hdone, hdb, -⟩ | ⟨hnot, -⟩
        · rw [hdb]
          exact (callsWrite_spec hcalls).2 done hdone
        · rw [hcommits] at hnot
          exact nomatch hnot
  · rintro e rfl
    rcases hcase with ⟨-, done, hdone, hdb, hend⟩ | ⟨-, hdb, -⟩
    · rcases hend with hend | ⟨hne, failures, hfail⟩
      · exact nomatch hend
      · refine Or.inr ⟨?_, failures, Except.error.inj hfail⟩
        by_contra hnot
        push Not at hnot
        exact hne ((hbody done hdone).2 hnot)
    · exact Or.inl hdb

theorem AcquisitionStore.Inv.step (h : s.Inv host) {c : AcquisitionCall G}
    (hstep : s.step host c = some s') : s'.Inv host ∧ AcquisitionFrame s.db s'.db := by
  obtain ⟨t, result, hperform, hinv, hframe, -⟩ := h.perform c
  rw [AcquisitionStore.step, hperform, Option.map_some, Option.some_inj] at hstep
  exact hstep ▸ ⟨hinv, hframe⟩

theorem AcquisitionStore.Inv.reachable (h : s.Inv host)
    (ht : Reachable (AcquisitionStore.step host) anyStep s t) :
    t.Inv host ∧ AcquisitionFrame s.db t.db :=
  ht.invariant (I := fun t ↦ t.Inv host ∧ AcquisitionFrame s.db t.db) ⟨h, .refl _⟩
    fun a b e hI _ hstep ↦ by
      obtain ⟨hinv, hframe⟩ := hI.1.step hstep
      exact ⟨hinv, hI.2.trans hframe⟩

/-! ## The fence -/

/-- The owner on whose behalf a call admits, resolves or supersedes. -/
def AcquisitionOp.fenced : AcquisitionOp G → Option AcquisitionOwner
  | .admitAcquisition input _ _ _ => some input.owner
  | .resolve _ owner _ _ _ _ => some owner
  | .supersede _ owner _ => some owner
  | _ => none

/-- No work is done for a retired owner. -/
theorem body_of_retired {op : AcquisitionOp G} {db : AcquisitionDb G} {owner : AcquisitionOwner}
    {now : ℕ} (hf : op.fenced = some owner)
    (hr : db.owners.get (owner.bound host) = some (some now)) {done : AcquisitionWork G} :
    op.body host db ≠ some (.ok done) := by
  have hnot : requireActiveOwner host db owner ≠ .ok () := fun h ↦ by
    have := (requireActiveOwner_eq_ok.mp h).2
    rw [hr] at this
    cases Option.some.inj this
  intro h
  rw [AcquisitionOp.body] at h
  cases hchecked : op.checked host with
  | error e =>
    rw [hchecked] at h
    cases h
  | ok run =>
    rw [hchecked] at h
    cases op with
    | admitAcquisition input now deliveryOwner uuid =>
      obtain rfl := Option.some.inj hf
      obtain ⟨_, -, hchecked⟩ := bind_eq_ok.mp hchecked
      obtain ⟨_, -, hchecked⟩ := bind_eq_ok.mp hchecked
      obtain ⟨_, -, hchecked⟩ := bind_eq_ok.mp hchecked
      obtain ⟨binding, -, rfl⟩ := map_eq_ok.mp hchecked
      have hsame : registerOwner (input.owner.bound host) db = db := by
        rw [registerOwner, if_pos (by rw [hr]; rfl)]
      have hadmission := Option.some.inj h
      rw [admitAcquisition, hsame] at hadmission
      obtain ⟨_, hactive, -⟩ := bind_eq_ok.mp hadmission
      exact hnot hactive
    | resolve id o d decision write now =>
      obtain rfl := Option.some.inj hf
      obtain rfl := Except.ok.inj hchecked
      obtain ⟨asked, hask, -⟩ := bind_eq_ok.mp (Option.some.inj h)
      obtain ⟨_, hactive, -⟩ := bind_eq_ok.mp hask
      exact hnot hactive
    | supersede key o now =>
      obtain rfl := Option.some.inj hf
      obtain rfl := Except.ok.inj hchecked
      obtain ⟨_, hactive, -⟩ := bind_eq_ok.mp (Option.some.inj h)
      exact hnot hactive
    | _ => cases hf

/-! ## Receipts -/

/-- **Acquisition receipts.** For every two stores of a run and every call of the later one:

* no two rows that are not superseded have one request key;
* a row stays, with its admission and, once it is settled, with its receipt, and reading it fails
  for other owners only;
* no acquisition has two calls of `write` committed, and one that has is settled;
* a retired owner has nothing pending, and nothing is admitted, resolved or superseded for it;
* the call ends, and when it throws the database is as it was, unless it is a `resolve` that has
  committed and whose live effects have failed. -/
theorem acquisition_receipts (host : AcquisitionHost) (grants : G)
    (hs : Reachable (AcquisitionStore.step host) anyStep (.fresh grants) s)
    (ht : Reachable (AcquisitionStore.step host) anyStep s t) (c : AcquisitionCall G) :
    (∀ id id' row row', s.db.acquisitions.get id = some row →
      s.db.acquisitions.get id' = some row' → row.current = true → row'.current = true →
      row.requestKey = row'.requestKey → id = id') ∧
    (∀ id row, s.db.acquisitions.get id = some row → ∃ row',
      t.db.acquisitions.get id = some row' ∧ row.Keeps row' ∧
      (∃ record, owned host id row' row'.owner = .ok record) ∧
      ∀ owner, (∃ record, owned host id row' owner = .ok record) ∨
        owned host id row' owner = .error .inexactOwner ∨
        owned host id row' owner = .error .notOwned) ∧
    (s.committed.Nodup ∧ ∀ id ∈ s.committed, ∃ row receipt,
      s.db.acquisitions.get id = some row ∧ row.receipt = some receipt) ∧
    (∀ owner now, s.db.owners.get owner = some (some now) →
      (∀ id row, t.db.acquisitions.get id = some row → row.owner = owner → row.pending = false) ∧
      ∀ o, o.bound host = owner → c.op.fenced = some o →
        ∀ t' reply, t.perform host c ≠ some (t', .ok reply)) ∧
    ∃ t' result, t.perform host c = some (t', result) ∧
      ∀ e, result = .error e → t'.db = t.db ∨
        (∃ id owner d decision write now, c.op = .resolve id owner d decision write now) ∧
          ∃ failures, e = .liveEffectsFailed failures := by
  obtain ⟨hinv, -⟩ := (AcquisitionStore.inv_fresh grants).reachable hs
  obtain ⟨hinv', hframe⟩ := hinv.reachable ht
  refine ⟨hinv.db.unique, fun id row hrow ↦ ?_, ⟨hinv.once, hinv.settled⟩,
    fun owner now hretired ↦ ⟨fun id row hrow howner ↦ ?_, fun o ho hf t' reply hok ↦ ?_⟩, ?_⟩
  · obtain ⟨row', hrow', hk⟩ := hframe.rows id row hrow
    have hv := hinv'.db.verified id row' hrow'
    exact ⟨row', hrow', hk, hv, hv.owned⟩
  · have hr := hframe.retired owner now hretired
    rw [← howner] at hr
    by_contra hp
    rw [Bool.not_eq_false] at hp
    have hactive := (hinv'.active id row hrow hp).resolve_right nofun
    rw [hr] at hactive
    exact nomatch Option.some.inj hactive
  · have hr := hframe.retired owner now hretired
    rw [← ho] at hr
    obtain ⟨t₁, result, hperform, -, -, hcase⟩ :=
      perform_spec hinv'.idle c (body_spec c.op hinv'.db hinv'.active).1
    obtain rfl : result = .ok reply :=
      (Prod.ext_iff.mp (Option.some.inj (hperform.symm.trans hok))).2
    rcases hcase with ⟨-, done, hdone, -⟩ | ⟨-, -, e, he⟩
    · exact body_of_retired hf hr hdone
    · exact nomatch he
  · obtain ⟨t', result, hperform, -, -, herror⟩ := hinv'.perform c
    exact ⟨t', result, hperform, herror⟩

/-- A platform with the plainest tables and digests. -/
def plainHost : AcquisitionHost where
  nfc := plainNfc
  ascii _ _ := rfl
  sha256 := id
  asText := id
  asText_idem := plainNfc.idem
  joins _ _ := false

def oneOwner : AcquisitionOwner := ⟨lit "runtime", lit "session"⟩

def oneAdmission : AuthorityAcquisitionAdmission where
  value := .object [(lit "facts", ⟨.leaf .null, .leaf rfl⟩),
    (lit "ownerRuntimeId", .text (lit "runtime")), (lit "requestKey", .text (lit "key")),
    (lit "sessionId", .text (lit "session"))] (by decide +kernel)
  owner := oneOwner
  requestKey := lit "key"
  facts := .leaf .null
  requestKey_eq := by decide +kernel
  ownerRuntimeId_eq := by decide +kernel
  sessionId_eq := by decide +kernel
  facts_eq := by decide +kernel

/-- A decision on the acquisition admitted for `oneAdmission`. -/
def decideOne (write : Unit → Written Unit) : AcquisitionCall Unit where
  op := .resolve (lit "acq:1") oneOwner ((digest plainHost (lit "binding")
    (bindingValue (lit "acq:1") 0 oneAdmission.value.val)).toOption.getD []) (.text (lit "once"))
    write 0
  fault := .none

/-- Admitted, and decided by a `write` that throws. -/
def decidedOnce : List (AcquisitionCall Unit) :=
  [⟨.admitAcquisition oneAdmission 0 .ownerRedrive (lit "1"), .none⟩,
    decideOne fun _ ↦ .throws (lit "retired")]

/-- Decided by a `write` with an effect that throws. -/
def decidedAgain : AcquisitionCall Unit :=
  decideOne fun _ ↦ .returns () (.object [(lit "state", .text (lit "decided")),
    (lit "value", .text (lit "once"))] (by decide +kernel)) [true]

theorem acquisition_receipts_of_decidedOnce : ∃ s : AcquisitionStore Unit,
    run (AcquisitionStore.step plainHost) anyStep (.fresh ()) (decidedOnce ++ [decidedAgain]) = some s ∧
      s.committed = [lit "acq:1"] ∧ s.committed.Nodup := by
  have hcommitted : (run (AcquisitionStore.step plainHost) anyStep (.fresh ())
      (decidedOnce ++ [decidedAgain])).map AcquisitionStore.committed = some [lit "acq:1"] := by
    decide +kernel
  obtain ⟨s, hrun, hs⟩ := Option.map_eq_some_iff.mp hcommitted
  exact ⟨s, hrun, hs, (acquisition_receipts plainHost () (Reachable.init.run hrun) .init
    decidedAgain).2.2.1.1⟩

/-- **`write` may run twice for one acquisition**, when the first attempt is rolled back, and a call
that throws may have changed the database, when live effects fail after its commit. -/
theorem write_runs_twice :
    (¬∀ (host : AcquisitionHost) (s : AcquisitionStore Unit),
      Reachable (AcquisitionStore.step host) anyStep (.fresh ()) s → (s.ran.map Prod.fst).Nodup) ∧
    ¬∀ (host : AcquisitionHost) (s : AcquisitionStore Unit) (c : AcquisitionCall Unit) t e,
      Reachable (AcquisitionStore.step host) anyStep (.fresh ()) s →
      s.perform host c = some (t, .error e) → t.db = s.db := by
  constructor
  · intro h
    have hran : (run (AcquisitionStore.step plainHost) anyStep (.fresh ())
        (decidedOnce ++ [decidedAgain])).map AcquisitionStore.ran =
          some [(lit "acq:1", false), (lit "acq:1", true)] := by
      decide +kernel
    obtain ⟨s, hrun, hs⟩ := Option.map_eq_some_iff.mp hran
    have hnodup := h plainHost s (Reachable.init.run hrun)
    rw [hs] at hnodup
    exact absurd hnodup (by decide +kernel)
  · intro h
    have hpending : (run (AcquisitionStore.step plainHost) anyStep (.fresh ()) decidedOnce).bind
        (fun s ↦ (s.perform plainHost decidedAgain).map fun p ↦
          (p.2.toOption.isNone, p.1.db.acquisitions.rows.map (·.2.pending),
            s.db.acquisitions.rows.map (·.2.pending))) = some (true, [false], [true]) := by
      decide +kernel
    obtain ⟨s, hrun, hs⟩ := Option.bind_eq_some_iff.mp hpending
    obtain ⟨⟨t, result⟩, hperform, hs⟩ := Option.map_eq_some_iff.mp hs
    simp only [Prod.mk.injEq] at hs
    cases result with
    | ok reply => exact nomatch hs.1
    | error e =>
      have hsame := h plainHost s decidedAgain t e (Reachable.init.run hrun) hperform
      have hrows := hs.2.1
      rw [hsame, hs.2.2] at hrows
      exact nomatch hrows

end Vibestudio.Server

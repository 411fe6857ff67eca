import Mathlib
import Vibestudio.Server.UnitAdmissionTransactions

/-!
# Runs of the unit admission store

What every call of `UnitAdmissionStore` preserves, and so every run: records under their own keys, a
file that loads as what memory holds, a map that shows the latest decisions that stand, and in each
transaction the latest record it left under a key (`Inv`). Only `failed` can break it, by a record it
puts back: `standing_restore_iff`.
-/

namespace Vibestudio.Server.UnitAdmissions

open Js

variable {M : Type}

/-! ## What holds in every run -/

section

variable (digests : AdmissionDigests M) (localeCompare : JsString → JsString → Bool)

/-- What a transaction knows of the run: nothing of a key it has not admitted, and of a key it has, its
own latest record, and a record to put back. -/
structure Kept (history : History) (i : ℕ) (tx : UnitAdmissionTransaction) : Prop where
  nodup : (JsMap.keys tx.writes).Nodup
  before : ∀ k write, (k, write) ∈ tx.writes → ∀ stored, write.before = some stored →
    recordKey stored.record = k ∧ Admissible stored.record
  stands : tx.settled = false → i ∉ history.failed
  own : ∀ k, history.own i k = (JsMap.get k tx.writes).map fun write ↦ some write.applied

structure Inv (store : UnitAdmissionStore) (history : History) : Prop where
  recorded : Recorded store.admissions
  durable : Durable digests store
  standing : Standing store history
  kept : ∀ i tx, store.transactions[i]? = some tx → Kept history i tx
  /-- No transaction to come has decided or failed. -/
  fresh : ∀ i, store.transactions.length ≤ i → i ∉ history.failed ∧ ∀ k, history.own i k = none

theorem publish_true {store after : UnitAdmissionStore} {next : Admissions} {outcome : WriteOutcome}
    (h : publish localeCompare store next outcome = (after, true)) :
    after = { store with
      file := some (savedText localeCompare (next.map (·.2.record))), admissions := next } := by
  cases outcome with
  | written => exact (Prod.mk.inj h).1.symm
  | refused | replaced => exact nomatch h

theorem publish_false {store after : UnitAdmissionStore} {next : Admissions} {outcome : WriteOutcome}
    (houtcome : outcome ≠ .replaced) (h : publish localeCompare store next outcome = (after, false)) :
    after = store := by
  cases outcome with
  | written => exact nomatch h
  | refused => exact (Prod.mk.inj h).1.symm
  | replaced => exact absurd rfl houtcome

/-- The file that was written holds what memory holds. -/
theorem durable_saved {next : Admissions} (h : Recorded next) (store : UnitAdmissionStore) :
    Durable digests { store with
      file := some (savedText localeCompare (next.map (·.2.record))), admissions := next } := by
  have hmem : ∀ p ∈ next, recordKey p.2.record = p.1 ∧ Admissible p.2.record := by
    rintro ⟨k, stored⟩ hp
    exact h.admissible k stored ((JsMap.mem_iff_get h.nodup).mp hp)
  have hadmissible : ∀ record ∈ next.map (·.2.record), Admissible record := by
    intro record hrecord
    obtain ⟨p, hp, rfl⟩ := List.mem_map.mp hrecord
    exact (hmem p hp).2
  have hkeys : (next.map (·.2.record)).map recordKey = JsMap.keys next := by
    rw [List.map_map, JsMap.keys]
    exact List.map_congr_left fun p hp ↦ (hmem p hp).1
  obtain ⟨loaded, hload, hget⟩ :=
    load_save digests localeCompare hadmissible (hkeys ▸ h.nodup)
  refine ⟨loaded, hload, fun k ↦ ?_⟩
  have hloaded : JsMap.get k loaded = (JsMap.get k next).map fun stored ↦ onWire stored.record := by
    refine Option.ext fun record ↦ ?_
    rw [hget, Option.map_eq_some_iff]
    constructor
    · rintro ⟨r, hr, hkey, rfl⟩
      obtain ⟨⟨k', stored⟩, hp, rfl⟩ := List.mem_map.mp hr
      obtain rfl : k' = k := (hmem _ hp).1.symm.trans hkey
      exact ⟨stored, (JsMap.mem_iff_get h.nodup).mp hp, rfl⟩
    · rintro ⟨stored, hstored, rfl⟩
      exact ⟨stored.record, List.mem_map.mpr ⟨(k, stored), JsMap.mem_of_get hstored, rfl⟩,
        (h.admissible k stored hstored).1, rfl⟩
  rw [hloaded, Option.map_map]
  exact congrArg (Option.map · _) (funext fun stored ↦ onWire_onWire stored.record)

variable {digests localeCompare} {store after : UnitAdmissionStore} {history : History}

theorem Kept.decided {i : ℕ} {tx : UnitAdmissionTransaction} (h : Kept history i tx)
    {owner : Option ℕ} (howner : owner ≠ some i) (ks : List JsString) (admissions : Admissions) :
    Kept (history.decided owner ks admissions) i tx := by
  refine ⟨h.nodup, h.before, h.stands, fun k ↦ ?_⟩
  rw [own_decided, if_neg fun hk ↦ howner hk.2]
  exact h.own k

theorem Kept.fail {i j : ℕ} {tx : UnitAdmissionTransaction} (h : Kept history i tx) (hj : i ≠ j) :
    Kept (history.fail j) i tx := by
  refine ⟨h.nodup, h.before, fun hopen hmem ↦ ?_, h.own⟩
  exact (List.mem_cons.mp hmem).elim hj (h.stands hopen)

/-- A settled transaction no longer needs to stand. -/
theorem Kept.settle {i j : ℕ} {tx : UnitAdmissionTransaction} (h : Kept history i tx) :
    Kept (history.fail j) i { tx with settled := true } :=
  ⟨h.nodup, h.before, fun hopen ↦ (nomatch hopen), h.own⟩

theorem Kept.commit {i : ℕ} {tx : UnitAdmissionTransaction} (h : Kept history i tx) :
    Kept history i { tx with settled := true } :=
  ⟨h.nodup, h.before, fun hopen ↦ (nomatch hopen), h.own⟩

/-- **What decisions preserve.** -/
theorem Inv.decided (h : Inv digests store history) (hrecorded : Recorded after.admissions)
    (hdurable : Durable digests after)
    (hlength : after.transactions.length = store.transactions.length) {owner : Option ℕ}
    (howner : ∀ i, owner = some i → i < store.transactions.length ∧ i ∉ history.failed)
    {ks : List JsString}
    (hout : ∀ k ∉ ks, JsMap.get k after.admissions = JsMap.get k store.admissions)
    (hkept : ∀ i tx, after.transactions[i]? = some tx →
      Kept (history.decided owner ks after.admissions) i tx) :
    Inv digests after (history.decided owner ks after.admissions) := by
  have hstands : owner.all (decide <| · ∉ history.failed) = true := by
    cases howners : owner with
    | none => rfl
    | some i => exact decide_eq_true (howner i howners).2
  refine ⟨hrecorded, hdurable, fun k ↦ ?_, hkept, fun i hi ↦ ?_⟩
  · rw [standing_decided hstands]
    split_ifs with hk
    · rfl
    · rw [hout k hk, h.standing k]
  · rw [hlength] at hi
    refine ⟨(h.fresh i hi).1, fun k ↦ ?_⟩
    rw [own_decided, if_neg fun hk ↦ absurd (howner i hk.2).1 (Nat.not_lt.mpr hi)]
    exact (h.fresh i hi).2 k

/-- **What plain decisions preserve.** -/
theorem Inv.decidedOutside (h : Inv digests store history) (hrecorded : Recorded after.admissions)
    (hdurable : Durable digests after) (htransactions : after.transactions = store.transactions)
    {ks : List JsString}
    (hout : ∀ k ∉ ks, JsMap.get k after.admissions = JsMap.get k store.admissions) :
    Inv digests after (history.decided none ks after.admissions) := by
  refine h.decided hrecorded hdurable (congrArg List.length htransactions) (fun i hi ↦ ?_) hout
    fun i tx htx ↦ ?_
  · exact nomatch hi
  · exact (h.kept i tx (htransactions ▸ htx)).decided (Option.some_ne_none i).symm _ _

/-- What an admission that returns has done. -/
theorem admitMany_true (h : Inv digests store history) {args : AdmitArgs M} {outcome : WriteOutcome}
    (hids : ∀ identity ∈ args.identities, Acceptable identity args.now)
    (hadm : admitMany digests localeCompare store args outcome = (after, true)) :
    Recorded after.admissions ∧ Durable digests after ∧ after.transactions = store.transactions ∧
      ∀ k, (k ∈ args.identities.map (identityKey digests) →
          (JsMap.get k after.admissions).isSome = true) ∧
        (k ∉ args.identities.map (identityKey digests) →
          JsMap.get k after.admissions = JsMap.get k store.admissions) := by
  rw [admitMany] at hadm
  split_ifs at hadm with hempty
  · obtain rfl := (Prod.mk.inj hadm).1
    rw [List.isEmpty_iff.mp hempty]
    exact ⟨h.recorded, h.durable, rfl, fun k ↦ ⟨fun hk ↦ (nomatch hk), fun _ ↦ rfl⟩⟩
  · have hnext := recorded_admitted digests args hids store.nextRef h.recorded
    rw [publish_true localeCompare hadm]
    exact ⟨hnext, durable_saved digests localeCompare hnext _, rfl, fun k ↦
      get_admitted digests args args.identities store.nextRef store.admissions k⟩

theorem admitMany_false {args : AdmitArgs M} {outcome : WriteOutcome} (houtcome : outcome ≠ .replaced)
    (hadm : admitMany digests localeCompare store args outcome = (after, false)) :
    ∃ ref, after = { store with nextRef := ref } := by
  rw [admitMany] at hadm
  split_ifs at hadm
  · exact nomatch hadm
  · exact ⟨_, publish_false localeCompare houtcome hadm⟩

theorem Inv.nextRef (h : Inv digests store history) (ref : ℕ) :
    Inv digests { store with nextRef := ref } history :=
  ⟨h.recorded, h.durable, h.standing, h.kept, h.fresh⟩

theorem inv_admitMany (h : Inv digests store history) (args : AdmitArgs M) (outcome : WriteOutcome)
    (hproper : Proper (.admitMany args outcome)) :
    Inv digests (admitMany digests localeCompare store args outcome).1
      (history.next digests localeCompare store (.admitMany args outcome)) := by
  rw [History.next, step]
  cases hadm : admitMany digests localeCompare store args outcome with
  | mk after returned =>
    cases returned with
    | true =>
      obtain ⟨hrecorded, hdurable, htransactions, hkeys⟩ := admitMany_true h hproper.1 hadm
      exact h.decidedOutside hrecorded hdurable htransactions fun k hk ↦ (hkeys k).2 hk
    | false =>
      obtain ⟨ref, rfl⟩ := admitMany_false hproper.2 hadm
      exact h.nextRef ref

theorem inv_retire (h : Inv digests store history) (identities : List (UnitAdmissionIdentity M))
    (outcome : WriteOutcome) (hproper : outcome ≠ .replaced) :
    Inv digests (retire digests localeCompare store identities outcome).1
      (history.next digests localeCompare store (.retire identities outcome)) := by
  have hget := get_retired digests identities store.admissions
  have hout : ∀ k ∉ identities.map (identityKey digests),
      JsMap.get k (retired digests store.admissions identities).1 = JsMap.get k store.admissions := by
    intro k hk
    rw [hget, if_neg hk]
  rw [History.next, step, retire]
  by_cases hchanged : (retired digests store.admissions identities).2 = true
  · simp only [hchanged, if_true]
    cases hpublish : publish localeCompare store (retired digests store.admissions identities).1
        outcome with
    | mk after returned =>
      cases returned with
      | true =>
        obtain rfl := publish_true localeCompare hpublish
        have hrecorded := recorded_retired digests identities h.recorded
        exact h.decidedOutside hrecorded (durable_saved digests localeCompare hrecorded store) rfl hout
      | false =>
        obtain rfl := publish_false localeCompare hproper hpublish
        exact h
  · simp only [hchanged]
    -- what is retired was not there
    exact h.decidedOutside h.recorded h.durable rfl fun k _ ↦ rfl

theorem inv_beginTransaction (h : Inv digests store history) :
    Inv digests (beginTransaction store) history := by
  refine ⟨h.recorded, h.durable, h.standing, fun i tx htx ↦ ?_, fun i hi ↦ h.fresh i ?_⟩
  · rw [beginTransaction, List.getElem?_append] at htx
    split_ifs at htx with hlt
    · exact h.kept i tx htx
    · obtain rfl : ⟨[], false⟩ = tx := List.mem_singleton.mp (List.mem_of_getElem? htx) |>.symm
      obtain ⟨hfailed, hown⟩ := h.fresh i (Nat.not_lt.mp hlt)
      exact ⟨List.nodup_nil, fun _ _ hmem ↦ (nomatch hmem), fun _ ↦ hfailed, hown⟩
  · rw [beginTransaction, List.length_append, List.length_singleton] at hi
    omega

theorem getElem?_setTransaction {i j : ℕ} {tx tx' : UnitAdmissionTransaction}
    (hget : (setTransaction store i tx).transactions[j]? = some tx') :
    j = i ∧ tx' = tx ∨ j ≠ i ∧ store.transactions[j]? = some tx' := by
  rw [setTransaction, List.getElem?_set] at hget
  split_ifs at hget with hij hlt
  · exact .inl ⟨hij.symm, (Option.some.inj hget).symm⟩
  · exact .inr ⟨Ne.symm hij, hget⟩

theorem lt_of_open {i : ℕ} {tx : UnitAdmissionTransaction} (htx : store.transactions[i]? = some tx) :
    i < store.transactions.length :=
  (List.getElem?_eq_some_iff.mp htx).1

theorem inv_committed (h : Inv digests store history) (i : ℕ) :
    Inv digests (committed store i) history := by
  rw [committed]
  cases htx : store.transactions[i]? with
  | none => exact h
  | some tx =>
    refine ⟨h.recorded, h.durable, h.standing, fun j tx' htx' ↦ ?_, fun j hj ↦ h.fresh j ?_⟩
    · rcases getElem?_setTransaction htx' with ⟨rfl, rfl⟩ | ⟨-, hother⟩
      · exact (h.kept j tx htx).commit
      · exact h.kept j tx' hother
    · simpa only [setTransaction, List.length_set] using hj

/-- The transaction keeps what stood at its first write of a key, and its latest record there. -/
theorem Kept.admitted {i : ℕ} {tx : UnitAdmissionTransaction} (h : Kept history i tx)
    (hrecorded : Recorded store.admissions) {identities : List (UnitAdmissionIdentity M)}
    (hkeys : ∀ k ∈ identities.map (identityKey digests),
      (JsMap.get k after.admissions).isSome = true) :
    Kept (history.decided (some i) (identities.map (identityKey digests)) after.admissions) i
      { tx with writes := (recordWrites digests store.admissions after.admissions tx.writes
        identities).1 } := by
  have hget := get_recordWrites digests store.admissions tx.writes hkeys
  have hnodup := nodup_recordWrites digests store.admissions after.admissions identities h.nodup
  refine ⟨hnodup, fun k write hmem stored hbefore ↦ ?_, h.stands, fun k ↦ ?_⟩
  · have hwrite := (hget k).symm.trans ((JsMap.mem_iff_get hnodup).mp hmem)
    split_ifs at hwrite with hk
    · obtain ⟨applied, -, rfl⟩ := Option.map_eq_some_iff.mp hwrite
      cases hown : JsMap.get k tx.writes with
      | some write =>
        rw [hown] at hbefore
        exact h.before k write (JsMap.mem_of_get hown) stored hbefore
      | none =>
        rw [hown] at hbefore
        exact hrecorded.admissible k stored hbefore
    · exact h.before k write (JsMap.mem_of_get hwrite) stored hbefore
  · rw [own_decided, hget]
    by_cases hk : k ∈ identities.map (identityKey digests)
    · obtain ⟨applied, happlied⟩ := Option.isSome_iff_exists.mp (hkeys k hk)
      rw [if_pos ⟨hk, rfl⟩, if_pos hk, ownWrite, happlied]
      rfl
    · rw [if_neg fun hk' ↦ hk hk'.1, if_neg hk, h.own k]

theorem inv_admitManyIn (h : Inv digests store history) (i : ℕ) (args : AdmitArgs M)
    (outcome : WriteOutcome) (hproper : Proper (.admitManyIn i args outcome)) :
    Inv digests (admitManyIn digests localeCompare store i args outcome).1
      (history.next digests localeCompare store (.admitManyIn i args outcome)) := by
  rw [History.next, step, admitManyIn]
  cases htx : store.transactions[i]? with
  | none => exact h
  | some tx =>
    by_cases hsettled : tx.settled = true
    · simp only [hsettled, if_true]
      exact h
    · simp only [if_neg hsettled]
      cases hadm : admitMany digests localeCompare store args outcome with
      | mk after returned =>
        cases returned with
        | true =>
          obtain ⟨hrecorded, hdurable, htransactions, hkeys⟩ := admitMany_true h hproper.1 hadm
          have hreturns := recordWrites_returns digests store.admissions tx.writes
            fun k hk ↦ (hkeys k).1 hk
          have hkept := h.kept i tx htx
          have hstands := hkept.stands (Bool.eq_false_iff.mpr hsettled)
          simp only [hreturns]
          set later := setTransaction after i { tx with writes := (recordWrites digests
            store.admissions after.admissions tx.writes args.identities).1 } with hlater
          have hrecorded' : Recorded later.admissions := hrecorded
          have hdurable' : Durable digests later := hdurable
          refine h.decided hrecorded' hdurable' ?_ (fun j hj ↦ ?_) (fun k hk ↦ (hkeys k).2 hk)
            fun j tx' htx'' ↦ ?_
          · rw [hlater, setTransaction, List.length_set, htransactions]
          · obtain rfl := Option.some.inj hj
            exact ⟨lt_of_open htx, hstands⟩
          · rcases getElem?_setTransaction htx'' with ⟨rfl, rfl⟩ | ⟨hne, hother⟩
            · exact hkept.admitted h.recorded fun k hk ↦ (hkeys k).1 hk
            · exact (h.kept j tx' (htransactions ▸ hother)).decided
                (fun heq ↦ hne (Option.some.inj heq).symm) _ _
        | false =>
          obtain ⟨ref, rfl⟩ := admitMany_false hproper.2 hadm
          exact h.nextRef ref

/-- **When a rollback shows what stands**: exactly when every record it puts back is the one of the
latest decision that stands without the transaction. -/
theorem standing_restore_iff (h : Inv digests store history) {i : ℕ} {tx : UnitAdmissionTransaction}
    (htx : store.transactions[i]? = some tx) (hopen : tx.settled = false) :
    (∀ k, JsMap.get k (restore store.admissions tx.writes).1 = (history.fail i).standing k) ↔
      ∀ k write, JsMap.get k tx.writes = some write →
        (JsMap.get k store.admissions).map (·.ref) = some write.applied.ref →
        write.before = (history.fail i).standing k := by
  have hkept := h.kept i tx htx
  constructor
  · intro hall k write hwrite hheld
    have hk := hall k
    rw [get_restore hkept.nodup, hwrite] at hk
    simpa only [if_pos hheld] using hk
  · intro hbefore k
    rw [get_restore hkept.nodup]
    have hcases := standing_fail (hkept.stands hopen) k
    rw [hkept.own k] at hcases
    cases hwrite : JsMap.get k tx.writes with
    | none =>
      rw [hwrite] at hcases
      exact (h.standing k).trans (hcases.resolve_right (by rintro ⟨⟩)).symm
    | some write =>
      rw [hwrite] at hcases
      simp only
      split_ifs with hheld
      · exact hbefore k write hwrite hheld
      · -- the transaction's record is not there, so its decision does not stand
        rcases hcases with hsame | hown
        · exact (h.standing k).trans hsame.symm
        · have happlied : some write.applied = history.standing k := Option.some.inj hown
          rw [h.standing k, ← happlied] at hheld
          exact absurd rfl hheld

/-- **What a rollback preserves.** -/
theorem Inv.failed (h : Inv digests store history) {i : ℕ} {tx : UnitAdmissionTransaction}
    (htx : store.transactions[i]? = some tx) (hrecorded : Recorded after.admissions)
    (hdurable : Durable digests after) (htransactions : after.transactions = store.transactions)
    (hstanding : Standing after (history.fail i)) :
    Inv digests (setTransaction after i { tx with settled := true }) (history.fail i) := by
  refine ⟨hrecorded, hdurable, hstanding, fun j tx' htx' ↦ ?_, fun j hj ↦ ?_⟩
  · rcases getElem?_setTransaction htx' with ⟨rfl, rfl⟩ | ⟨hne, hother⟩
    · exact (h.kept j tx htx).settle
    · exact (h.kept j tx' (htransactions ▸ hother)).fail hne
  · rw [setTransaction, List.length_set, htransactions] at hj
    obtain ⟨hfailed, hown⟩ := h.fresh j hj
    refine ⟨fun hmem ↦ ?_, hown⟩
    rcases List.mem_cons.mp hmem with rfl | hmem
    · exact absurd (lt_of_open htx) (Nat.not_lt.mpr hj)
    · exact hfailed hmem

theorem inv_failed (h : Inv digests store history) (i : ℕ) (outcome : WriteOutcome)
    (hproper : outcome ≠ .replaced) (hsaw : SawStanding (M := M) store history (.failed i outcome)) :
    Inv digests (failed localeCompare store i outcome).1
      (history.next digests localeCompare store (Call.failed (M := M) i outcome)) := by
  rw [History.next, step, UnitAdmissions.failed]
  cases htx : store.transactions[i]? with
  | none =>
    have hopen : isOpen store i = false := by rw [isOpen, htx]; rfl
    simpa only [History.returned, hopen, Bool.false_eq_true, if_false] using h
  | some tx =>
    by_cases hsettled : tx.settled = true
    · have hopen : isOpen store i = false := by simp [isOpen, htx, hsettled]
      simpa only [hsettled, if_true, History.returned, hopen, Bool.false_eq_true, if_false] using h
    · have hunsettled : tx.settled = false := Bool.eq_false_iff.mpr hsettled
      have hopen : isOpen store i = true := by simp [isOpen, htx, hunsettled]
      have hstanding := (standing_restore_iff h htx hunsettled).mpr (hsaw tx htx hunsettled)
      have hrecorded := recorded_restore (h.kept i tx htx).before h.recorded
      simp only [if_neg hsettled]
      by_cases hchanged : (restore store.admissions tx.writes).2 = true
      · simp only [hchanged, if_true]
        cases hpublish : publish localeCompare store (restore store.admissions tx.writes).1 outcome with
        | mk after returned =>
          cases returned with
          | true =>
            obtain rfl := publish_true localeCompare hpublish
            simp only [History.returned, hopen, if_true]
            exact h.failed htx hrecorded (durable_saved digests localeCompare hrecorded store) rfl
              hstanding
          | false =>
            obtain rfl := publish_false localeCompare hproper hpublish
            exact h
      · simp only [if_neg hchanged, History.returned, hopen, if_true]
        rw [restore_unchanged (Bool.eq_false_iff.mpr hchanged)] at hstanding
        exact h.failed htx h.recorded h.durable rfl hstanding

/-- **What a call preserves.** -/
theorem inv_step (h : Inv digests store history) (call : Call M) (hproper : Proper call)
    (hsaw : SawStanding store history call) :
    Inv digests (step digests localeCompare store call).1
      (history.next digests localeCompare store call) := by
  cases call with
  | admitMany args outcome => exact inv_admitMany h args outcome hproper
  | retire identities outcome => exact inv_retire h identities outcome hproper
  | beginTransaction => exact inv_beginTransaction h
  | admitManyIn i args outcome => exact inv_admitManyIn h i args outcome hproper
  | committed i => exact inv_committed h i
  | failed i outcome => exact inv_failed h i outcome hproper hsaw

theorem inv_opened {file : Option JsString} {loaded : JsMap JsString AdmittedUnitVersion}
    (h : load digests file = .ok loaded) :
    Inv digests (opened file loaded) ⟨numbered 0 loaded, [], []⟩ := by
  obtain ⟨hnodup, hloaded⟩ := load_get digests h
  have hget := get_numbered 0 loaded
  refine ⟨⟨keys_numbered 0 loaded ▸ hnodup, fun k stored hstored ↦ ?_⟩, ⟨loaded, h, fun k ↦ ?_⟩,
    fun k ↦ rfl, fun i tx htx ↦ ?_, fun i _ ↦ ⟨List.not_mem_nil, fun k ↦ rfl⟩⟩
  · refine hloaded k stored.record ?_
    rw [← hget k]
    exact congrArg (Option.map _) hstored
  · rw [← hget k, Option.map_map]
    rfl
  · exact nomatch htx

theorem inv_run
    (h : Run digests localeCompare (fun s d c ↦ Proper c ∧ SawStanding s d c) store history) :
    Inv digests store history := by
  induction h with
  | opened hload => exact inv_opened hload
  | call _ hcall ih => exact inv_step ih _ hcall.1 hcall.2

/-- The map after a rollback whose write succeeds. -/
theorem admissions_failed {i : ℕ} {tx : UnitAdmissionTransaction}
    (htx : store.transactions[i]? = some tx) (hopen : tx.settled = false) :
    (failed localeCompare store i .written).1.admissions = (restore store.admissions tx.writes).1 := by
  rw [failed, htx]
  simp only [hopen, Bool.false_eq_true, if_false]
  by_cases hchanged : (restore store.admissions tx.writes).2 = true
  · simp only [hchanged, if_true]
    rfl
  · simp only [if_neg hchanged]
    exact (restore_unchanged (Bool.eq_false_iff.mpr hchanged)).symm

/-- **What transactions undo.** In every run in which a transaction that fails saw, at its first write
of each key it still holds, the record of the latest decision that stands without it, the file loads
as what memory holds, and memory holds what the latest decisions that stand left. And the first
transaction to fail otherwise leaves another map than that. -/
theorem undoes_exactly
    (h : Run digests localeCompare (fun s d c ↦ Proper c ∧ SawStanding s d c) store history) :
    (Durable digests store ∧ Standing store history) ∧
      ∀ i, isOpen store i = true →
        (Standing (failed localeCompare store i .written).1 (history.fail i) ↔
          SawStanding (M := M) store history (.failed i .written)) := by
  have hinv := inv_run h
  refine ⟨⟨hinv.durable, hinv.standing⟩, fun i hopen ↦ ?_⟩
  cases htx : store.transactions[i]? with
  | none =>
    rw [isOpen, htx] at hopen
    exact nomatch hopen
  | some tx =>
    have hunsettled : tx.settled = false := by simpa [isOpen, htx] using hopen
    rw [Standing, admissions_failed htx hunsettled, standing_restore_iff hinv htx hunsettled, SawStanding]
    constructor
    · intro hbefore tx' htx' _
      obtain rfl := Option.some.inj (htx.symm.trans htx')
      exact hbefore
    · intro hsaw
      exact hsaw tx htx hunsettled

end

/-! ## A record that comes back -/

def constantDigests : AdmissionDigests Unit :=
  ⟨fun _ ↦ List.replicate 64 97, fun digest ↦ digest, List.replicate 64 98, fun _ ↦ by decide, by decide⟩

/-- One unit is admitted. -/
def newsArgs : AdmitArgs Unit :=
  ⟨[⟨lit "panels/news", lit "v1", (), none⟩], .publication, five, none, fun _ ↦ none⟩

theorem proper_newsArgs (i : ℕ) : Proper (.admitManyIn i newsArgs .written) := by
  refine ⟨fun identity hidentity ↦ ?_, by decide⟩
  obtain rfl := List.mem_singleton.mp hidentity
  exact ⟨by decide +kernel, by decide +kernel, fun _ h ↦ (nomatch h), rfl⟩

/-- The store and its history after calls on an empty store. -/
def afterCalls : List (Call Unit) → UnitAdmissionStore × History
  | [] => (opened none [], ⟨[], [], []⟩)
  | call :: earlier =>
    let (store, history) := afterCalls earlier
    ((step constantDigests (fun _ _ ↦ true) store call).1,
      history.next constantDigests (fun _ _ ↦ true) store call)

theorem isOpen_of_all {store : UnitAdmissionStore} (h : store.transactions.all (·.settled) = true)
    (i : ℕ) : isOpen store i = false := by
  rw [isOpen]
  cases htx : store.transactions[i]? with
  | none => rfl
  | some tx =>
    have hsettled := List.all_eq_true.mp h tx (List.mem_of_getElem? htx)
    simp [hsettled]

/-- A transaction that admits a unit and fails. -/
theorem undoes_exactly_admission :
    Standing (afterCalls [.failed 0 .written, .admitManyIn 0 newsArgs .written, .beginTransaction]).1
      (afterCalls [.failed 0 .written, .admitManyIn 0 newsArgs .written, .beginTransaction]).2 := by
  have hrun : Run constantDigests (fun _ _ ↦ true) (fun s d c ↦ Proper c ∧ SawStanding s d c)
      (afterCalls [.failed 0 .written, .admitManyIn 0 newsArgs .written, .beginTransaction]).1
      (afterCalls [.failed 0 .written, .admitManyIn 0 newsArgs .written, .beginTransaction]).2 := by
    refine .call (.call (.call (.opened rfl) ⟨trivial, trivial⟩) ⟨proper_newsArgs 0, trivial⟩)
      ⟨(by rintro ⟨⟩), fun tx htx _ k write hwrite _ ↦ ?_⟩
    -- the transaction saw nothing, and it alone has decided
    have hbefore : ((afterCalls [.admitManyIn 0 newsArgs .written, .beginTransaction]).1.transactions[0]?).all
        (fun tx ↦ tx.writes.all fun p ↦ p.2.before.isNone) = true := by decide +kernel
    have howner : (afterCalls [.admitManyIn 0 newsArgs .written, .beginTransaction]).2.decisions.all
        (fun d ↦ decide (d.owner = some 0)) = true := by decide +kernel
    rw [show (afterCalls [.admitManyIn 0 newsArgs .written, .beginTransaction]).1.transactions[0]? =
      some tx from htx, Option.all_some, List.all_eq_true] at hbefore
    rw [List.all_eq_true] at howner
    have hnone : write.before = none :=
      Option.isNone_iff_eq_none.mp (hbefore _ (JsMap.mem_of_get hwrite))
    have hfind : (afterCalls [.admitManyIn 0 newsArgs .written, .beginTransaction]).2.decisions.find?
        (fun d ↦ decide (d.key = k) && d.stands [0]) = none := by
      refine List.find?_eq_none.mpr fun d hd ↦ ?_
      simp [Decision.stands, of_decide_eq_true (howner d hd)]
    rw [hnone]
    exact (History.standing_of_none
      (afterCalls [.failed 0 .written, .admitManyIn 0 newsArgs .written, .beginTransaction]).2 k hfind).symm
  exact (undoes_exactly hrun).1.2

/-- **A record comes back of a transaction that failed.** A later transaction admits the same unit, and
fails last: it puts back the record it saw, that of the first. -/
theorem not_standing_overlap :
    ¬∀ store history, Run constantDigests (fun _ _ ↦ true) (fun _ _ c ↦ Proper c) store history →
      (∀ i, isOpen store i = false) → Standing store history := by
  intro h
  have hrun : Run constantDigests (fun _ _ ↦ true) (fun _ _ c ↦ Proper c)
      (afterCalls [.failed 1 .written, .failed 0 .written, .admitManyIn 1 newsArgs .written,
        .admitManyIn 0 newsArgs .written, .beginTransaction, .beginTransaction]).1
      (afterCalls [.failed 1 .written, .failed 0 .written, .admitManyIn 1 newsArgs .written,
        .admitManyIn 0 newsArgs .written, .beginTransaction, .beginTransaction]).2 :=
    .call (.call (.call (.call (.call (.call (.opened rfl) trivial) trivial) (proper_newsArgs 0))
      (proper_newsArgs 1)) nofun) nofun
  have hsettled : (afterCalls [.failed 1 .written, .failed 0 .written,
      .admitManyIn 1 newsArgs .written, .admitManyIn 0 newsArgs .written, .beginTransaction,
      .beginTransaction]).1.transactions.all (·.settled) = true := by decide +kernel
  have hstanding := congrArg Option.isSome
    (h _ _ hrun (isOpen_of_all hsettled) (identityKey constantDigests ⟨lit "panels/news", lit "v1", (), none⟩))
  exact absurd hstanding (by decide +kernel)

end Vibestudio.Server.UnitAdmissions

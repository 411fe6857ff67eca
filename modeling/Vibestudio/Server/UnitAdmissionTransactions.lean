import Mathlib
import Vibestudio.Server.UnitAdmissionStore

/-!
# Unit admission transactions

`UnitAdmissionStore` of `src/server/services/unitAdmissionStore.ts` over whole runs: plain admissions and
retirements, any number of transactions, and writes of the file that fail. A call that succeeds takes
decisions, one for each identity key, and a decision stands until its transaction fails. The map
should show the latest decision that stands. It does as long as every transaction that fails puts
back what the others decided: `undoes_exactly`. The record it puts back is the one of the time of
its first write, and that decision may have been undone since.
-/

namespace Vibestudio.Server.UnitAdmissions

open Js

/-! ## The store in memory -/

/-- A record with the number of its object. -/
structure Stored where
  ref : ℕ
  record : AdmittedUnitVersion

abbrev Admissions := JsMap JsString Stored

/-- An entry of `writes`. -/
structure OwnWrite where
  before : Option Stored
  applied : Stored

structure UnitAdmissionTransaction where
  writes : JsMap JsString OwnWrite
  settled : Bool

structure UnitAdmissionStore where
  admissions : Admissions
  file : Option JsString
  transactions : List UnitAdmissionTransaction
  nextRef : ℕ

/-- What `writeFileAtomicSync` does. It may throw when the new file is already in place: the mode and
the directory are synced after the rename. -/
inductive WriteOutcome where
  | written | refused | replaced
  deriving DecidableEq

/-- What `admitMany` is called with, and the answers of `resolveSourceOrigin` at that time. -/
structure AdmitArgs (M : Type) where
  identities : List (UnitAdmissionIdentity M)
  origin : UnitAdmissionOrigin
  now : JsNumber
  sourceOrigins : Option (JsMap JsString (Option UnitSourceOrigin))
  resolveSourceOrigin : JsString → Option UnitSourceOrigin

variable {M : Type}

def AdmitArgs.source (args : AdmitArgs M) (repoPath : JsString) : Option UnitSourceOrigin :=
  match args.sourceOrigins.bind (JsMap.get repoPath) with
  | some source => source
  | none => args.resolveSourceOrigin repoPath

section

variable (digests : AdmissionDigests M) (localeCompare : JsString → JsString → Bool)

/-- Objects for the records of a file. -/
def numbered : ℕ → JsMap JsString AdmittedUnitVersion → Admissions
  | _, [] => []
  | ref, (k, record) :: records => (k, ⟨ref, record⟩) :: numbered (ref + 1) records

/-- The store that has loaded a file. -/
def opened (file : Option JsString) (loaded : JsMap JsString AdmittedUnitVersion) : UnitAdmissionStore :=
  ⟨numbered 0 loaded, file, [], loaded.length⟩

/-- `save`, and whether it returned. -/
def save (store : UnitAdmissionStore) (admissions : Admissions) :
    WriteOutcome → UnitAdmissionStore × Bool
  | .written => ({ store with
      file := some (savedText localeCompare (admissions.map (·.2.record))) }, true)
  | .refused => (store, false)
  | .replaced => ({ store with
      file := some (savedText localeCompare (admissions.map (·.2.record))) }, false)

/-- `this.save(next); this.admissions = next`, and whether it returned. -/
def publish (store : UnitAdmissionStore) (next : Admissions) (outcome : WriteOutcome) :
    UnitAdmissionStore × Bool :=
  match save localeCompare store next outcome with
  | (store, true) => ({ store with admissions := next }, true)
  | (store, false) => (store, false)

/-- The loop of `admitMany`. -/
def admitted (args : AdmitArgs M) : ℕ → Admissions → List (UnitAdmissionIdentity M) → Admissions
  | _, nextAdmissions, [] => nextAdmissions
  | ref, nextAdmissions, identity :: rest =>
    let record := admissionRecord digests identity args.origin args.now (args.source identity.repoPath)
    admitted args (ref + 1) (JsMap.set nextAdmissions (recordKey record) ⟨ref, record⟩) rest

def admitMany (store : UnitAdmissionStore) (args : AdmitArgs M) (outcome : WriteOutcome) :
    UnitAdmissionStore × Bool :=
  if args.identities.isEmpty then (store, true)
  else publish localeCompare { store with nextRef := store.nextRef + args.identities.length }
    (admitted digests args store.nextRef store.admissions args.identities) outcome

/-- The loop of `retire`: the map, and whether an entry was deleted. -/
def retired : Admissions → List (UnitAdmissionIdentity M) → Admissions × Bool
  | nextAdmissions, [] => (nextAdmissions, false)
  | nextAdmissions, identity :: rest =>
    let key := identityKey digests identity
    let (last, changed) := retired (JsMap.delete nextAdmissions key) rest
    (last, (JsMap.get key nextAdmissions).isSome || changed)

def retire (store : UnitAdmissionStore) (identities : List (UnitAdmissionIdentity M))
    (outcome : WriteOutcome) : UnitAdmissionStore × Bool :=
  let (nextAdmissions, changed) := retired digests store.admissions identities
  if changed then publish localeCompare store nextAdmissions outcome else (store, true)

def beginTransaction (store : UnitAdmissionStore) : UnitAdmissionStore :=
  { store with transactions := store.transactions ++ [⟨[], false⟩] }

def setTransaction (store : UnitAdmissionStore) (i : ℕ) (tx : UnitAdmissionTransaction) :
    UnitAdmissionStore :=
  { store with transactions := store.transactions.set i tx }

/-- The loop of a transaction's `admitMany` over what it has admitted, and whether it returned. -/
def recordWrites (before after : Admissions) :
    JsMap JsString OwnWrite → List (UnitAdmissionIdentity M) → JsMap JsString OwnWrite × Bool
  | writes, [] => (writes, true)
  | writes, identity :: rest =>
    let key := identityKey digests identity
    match JsMap.get key after with
    | none => (writes, false)
    | some applied =>
      let own := match JsMap.get key writes with
        | some write => write.before
        | none => JsMap.get key before
      recordWrites before after (JsMap.set writes key ⟨own, applied⟩) rest

/-- A transaction's `admitMany`. -/
def admitManyIn (store : UnitAdmissionStore) (i : ℕ) (args : AdmitArgs M) (outcome : WriteOutcome) :
    UnitAdmissionStore × Bool :=
  match store.transactions[i]? with
  | none => (store, false)
  | some tx =>
    if tx.settled then (store, false)
    else match admitMany digests localeCompare store args outcome with
      | (after, false) => (after, false)
      | (after, true) =>
        let (writes, returned) :=
          recordWrites digests store.admissions after.admissions tx.writes args.identities
        (setTransaction after i { tx with writes := writes }, returned)

def committed (store : UnitAdmissionStore) (i : ℕ) : UnitAdmissionStore :=
  match store.transactions[i]? with
  | none => store
  | some tx => setTransaction store i { tx with settled := true }

/-- The loop of `failed`: the map, and whether an entry was put back. -/
def restore : Admissions → JsMap JsString OwnWrite → Admissions × Bool
  | restored, [] => (restored, false)
  | restored, (key, write) :: rest =>
    -- another object under the key: a later decision owns it
    if (JsMap.get key restored).map (·.ref) ≠ some write.applied.ref then restore restored rest
    else
      let next := match write.before with
        | some before => JsMap.set restored key before
        | none => JsMap.delete restored key
      ((restore next rest).1, true)

def failed (store : UnitAdmissionStore) (i : ℕ) (outcome : WriteOutcome) : UnitAdmissionStore × Bool :=
  match store.transactions[i]? with
  | none => (store, true)
  | some tx =>
    if tx.settled then (store, true)
    else
      let (restored, changed) := restore store.admissions tx.writes
      if changed then
        match publish localeCompare store restored outcome with
        | (after, true) => (setTransaction after i { tx with settled := true }, true)
        | (after, false) => (after, false)
      else (setTransaction store i { tx with settled := true }, true)

/-! ## Calls and decisions -/

variable (M) in
inductive Call where
  | admitMany (args : AdmitArgs M) (outcome : WriteOutcome)
  | retire (identities : List (UnitAdmissionIdentity M)) (outcome : WriteOutcome)
  | beginTransaction
  | admitManyIn (i : ℕ) (args : AdmitArgs M) (outcome : WriteOutcome)
  | committed (i : ℕ)
  | failed (i : ℕ) (outcome : WriteOutcome)

/-- One call, and whether it returned. -/
def step (store : UnitAdmissionStore) : Call M → UnitAdmissionStore × Bool
  | .admitMany args outcome => admitMany digests localeCompare store args outcome
  | .retire identities outcome => retire digests localeCompare store identities outcome
  | .beginTransaction => (beginTransaction store, true)
  | .admitManyIn i args outcome => admitManyIn digests localeCompare store i args outcome
  | .committed i => (committed store i, true)
  | .failed i outcome => failed localeCompare store i outcome

/-- What a call decided for a key: the record it left there, or none. -/
structure Decision where
  key : JsString
  outcome : Option Stored
  owner : Option ℕ

/-- The decisions of a run, the latest first, and the transactions that failed. -/
structure History where
  loaded : Admissions
  decisions : List Decision
  failed : List ℕ

def Decision.stands (failed : List ℕ) (d : Decision) : Bool := d.owner.all (decide <| · ∉ failed)

/-- What the latest decision on a key that stands left there. -/
def History.standing (history : History) (k : JsString) : Option Stored :=
  match history.decisions.find? fun d ↦ decide (d.key = k) && d.stands history.failed with
  | some d => d.outcome
  | none => JsMap.get k history.loaded

theorem History.standing_of_none (history : History) (k : JsString)
    (h : history.decisions.find? (fun d ↦ decide (d.key = k) && d.stands history.failed) = none) :
    history.standing k = JsMap.get k history.loaded := by
  rw [standing, h]

/-- What the latest decision of a transaction on a key left there. -/
def History.own (history : History) (i : ℕ) (k : JsString) : Option (Option Stored) :=
  (history.decisions.find? fun d ↦ decide (d.key = k) && decide (d.owner = some i)).map (·.outcome)

def History.decided (history : History) (owner : Option ℕ) (ks : List JsString)
    (admissions : Admissions) : History :=
  { history with
    decisions := ks.map (fun k ↦ ⟨k, JsMap.get k admissions, owner⟩) ++ history.decisions }

def History.fail (history : History) (i : ℕ) : History :=
  { history with failed := i :: history.failed }

def isOpen (store : UnitAdmissionStore) (i : ℕ) : Bool :=
  (store.transactions[i]?).any fun tx ↦ !tx.settled

/-- The history after a call that returned. -/
def History.returned (history : History) (store after : UnitAdmissionStore) : Call M → History
  | .admitMany args _ =>
    history.decided none (args.identities.map (identityKey digests)) after.admissions
  | .retire identities _ =>
    history.decided none (identities.map (identityKey digests)) after.admissions
  | .admitManyIn i args _ =>
    history.decided (some i) (args.identities.map (identityKey digests)) after.admissions
  | .failed i _ => if isOpen store i then history.fail i else history
  | .beginTransaction | .committed _ => history

/-- The history after a call. One that throws decides nothing. -/
def History.next (history : History) (store : UnitAdmissionStore) (call : Call M) : History :=
  match step digests localeCompare store call with
  | (after, true) => history.returned digests store after call
  | (_, false) => history

/-- The runs from a file, all of whose calls meet a condition. -/
inductive Run (P : UnitAdmissionStore → History → Call M → Prop) :
    UnitAdmissionStore → History → Prop where
  | opened {file : Option JsString} {loaded : JsMap JsString AdmittedUnitVersion}
      (h : load digests file = .ok loaded) : Run P (opened file loaded) ⟨numbered 0 loaded, [], []⟩
  | call {store : UnitAdmissionStore} {history : History} (h : Run P store history)
      {call : Call M} (hcall : P store history call) :
      Run P (step digests localeCompare store call).1
        (history.next digests localeCompare store call)

/-- The file loads, and what it holds is what memory holds. -/
def Durable (store : UnitAdmissionStore) : Prop :=
  ∃ loaded, load digests store.file = .ok loaded ∧
    ∀ k, (JsMap.get k loaded).map onWire =
      (JsMap.get k store.admissions).map fun stored ↦ onWire stored.record

/-- The map shows the latest decisions that stand. -/
def Standing (store : UnitAdmissionStore) (history : History) : Prop :=
  ∀ k, JsMap.get k store.admissions = history.standing k

/-- What the callers and the file system grant: identities of which records can be made, and no write
that fails with the new file in place. -/
def Proper : Call M → Prop
  | .admitMany args outcome | .admitManyIn _ args outcome =>
    (∀ identity ∈ args.identities, Acceptable identity args.now) ∧ outcome ≠ .replaced
  | .retire _ outcome | .failed _ outcome => outcome ≠ .replaced
  | .beginTransaction | .committed _ => True

/-- A transaction that fails saw, at its first write of a key it still holds, the record of the
decision that is the latest to stand without it. -/
def SawStanding (store : UnitAdmissionStore) (history : History) : Call M → Prop
  | .failed i _ => ∀ tx, store.transactions[i]? = some tx → tx.settled = false →
      ∀ k write, JsMap.get k tx.writes = some write →
        (JsMap.get k store.admissions).map (·.ref) = some write.applied.ref →
        write.before = (history.fail i).standing k
  | _ => True

end

/-! ## Decisions -/

section

variable {history : History} {i : ℕ}

/-- A decision that stands no longer when a transaction fails is the transaction's latest. -/
theorem find_fail {failed : List ℕ} (hi : i ∉ failed) (k : JsString) (decisions : List Decision) :
    decisions.find? (fun d ↦ decide (d.key = k) && d.stands (i :: failed)) =
        decisions.find? (fun d ↦ decide (d.key = k) && d.stands failed) ∨
      ∃ d, decisions.find? (fun d ↦ decide (d.key = k) && d.stands failed) = some d ∧
        decisions.find? (fun d ↦ decide (d.key = k) && decide (d.owner = some i)) = some d := by
  induction decisions with
  | nil => exact .inl rfl
  | cons d decisions ih =>
    simp only [List.find?_cons]
    by_cases hk : d.key = k
    · cases howner : d.owner with
      | none => simp [hk, Decision.stands, howner]
      | some j =>
        by_cases hj : j = i
        · subst hj
          exact .inr ⟨d, by simp [hk, Decision.stands, howner, hi], by simp [hk]⟩
        · by_cases hfailed : j ∈ failed
          · simpa [hk, Decision.stands, howner, hj, hfailed] using ih
          · simp [hk, Decision.stands, howner, hj, hfailed]
    · simpa [hk] using ih

theorem standing_fail (hi : i ∉ history.failed) (k : JsString) :
    (history.fail i).standing k = history.standing k ∨
      history.own i k = some (history.standing k) := by
  rw [History.standing, History.standing, History.own, History.fail]
  rcases find_fail hi k history.decisions with hsame | ⟨d, hd, hown⟩
  · exact .inl (by rw [hsame])
  · exact .inr (by rw [hd, hown]; rfl)

theorem standing_decided {owner : Option ℕ} (howner : owner.all (decide <| · ∉ history.failed) = true)
    (ks : List JsString) (admissions : Admissions) (k : JsString) :
    (history.decided owner ks admissions).standing k =
      if k ∈ ks then JsMap.get k admissions else history.standing k := by
  rw [History.standing, History.decided]
  induction ks with
  | nil => rfl
  | cons k' ks ih =>
    rw [List.map_cons, List.cons_append, List.find?_cons]
    by_cases hk : k' = k
    · subst hk
      have hstands : Decision.stands history.failed ⟨k', JsMap.get k' admissions, owner⟩ = true :=
        howner
      simp [hstands]
    · simpa [hk, Ne.symm hk] using ih

theorem own_decided (owner : Option ℕ) (ks : List JsString) (admissions : Admissions) (k : JsString) :
    (history.decided owner ks admissions).own i k =
      if k ∈ ks ∧ owner = some i then some (JsMap.get k admissions) else history.own i k := by
  rw [History.own, History.decided]
  induction ks with
  | nil => rfl
  | cons k' ks ih =>
    rw [List.map_cons, List.cons_append, List.find?_cons]
    by_cases hk : k' = k
    · subst hk
      by_cases howner : owner = some i
      · simp [howner]
      · simpa [howner] using ih
    · simpa [hk, Ne.symm hk] using ih

end

/-! ## What the loops do -/

section

variable (digests : AdmissionDigests M)

/-- Records under their own keys. -/
structure Recorded (admissions : Admissions) : Prop where
  nodup : (JsMap.keys admissions).Nodup
  admissible : ∀ k stored, JsMap.get k admissions = some stored →
    recordKey stored.record = k ∧ Admissible stored.record

theorem Recorded.set {admissions : Admissions} (h : Recorded admissions) {k : JsString}
    {stored : Stored} (hkey : recordKey stored.record = k) (hadmissible : Admissible stored.record) :
    Recorded (JsMap.set admissions k stored) := by
  refine ⟨JsMap.nodup_keys_set h.nodup _ _, fun k' stored' hget ↦ ?_⟩
  rw [JsMap.get_set] at hget
  split_ifs at hget with hk
  · obtain rfl := Option.some.inj hget
    exact ⟨hkey.trans hk.symm, hadmissible⟩
  · exact h.admissible k' stored' hget

theorem Recorded.delete {admissions : Admissions} (h : Recorded admissions) (k : JsString) :
    Recorded (JsMap.delete admissions k) := by
  refine ⟨JsMap.nodup_keys_delete h.nodup _, fun k' stored' hget ↦ ?_⟩
  rw [JsMap.get_delete] at hget
  split_ifs at hget
  exact h.admissible k' stored' hget

theorem get_numbered (ref : ℕ) (loaded : JsMap JsString AdmittedUnitVersion) (k : JsString) :
    (JsMap.get k (numbered ref loaded)).map (·.record) = JsMap.get k loaded := by
  induction loaded generalizing ref with
  | nil => rfl
  | cons p loaded ih =>
    rw [numbered, JsMap.get, JsMap.get]
    split_ifs
    · rfl
    · exact ih (ref + 1)

theorem keys_numbered (ref : ℕ) (loaded : JsMap JsString AdmittedUnitVersion) :
    JsMap.keys (numbered ref loaded) = JsMap.keys loaded := by
  induction loaded generalizing ref with
  | nil => rfl
  | cons p loaded ih => exact congrArg (p.1 :: ·) (ih (ref + 1))

theorem recorded_admitted (args : AdmitArgs M) {identities : List (UnitAdmissionIdentity M)}
    (hids : ∀ identity ∈ identities, Acceptable identity args.now) (ref : ℕ)
    {admissions : Admissions} (h : Recorded admissions) :
    Recorded (admitted digests args ref admissions identities) := by
  induction identities generalizing ref admissions with
  | nil => exact h
  | cons identity identities ih =>
    obtain ⟨hidentity, hids⟩ := List.forall_mem_cons.mp hids
    exact ih hids (ref + 1) (h.set rfl
      (admissible_admissionRecord digests identity args.origin args.now _ hidentity))

/-- The keys admitted are there, and no other key is touched. -/
theorem get_admitted (args : AdmitArgs M) (identities : List (UnitAdmissionIdentity M)) (ref : ℕ)
    (admissions : Admissions) (k : JsString) :
    (k ∈ identities.map (identityKey digests) →
      (JsMap.get k (admitted digests args ref admissions identities)).isSome = true) ∧
    (k ∉ identities.map (identityKey digests) →
      JsMap.get k (admitted digests args ref admissions identities) = JsMap.get k admissions) := by
  induction identities generalizing ref admissions with
  | nil => exact ⟨fun h ↦ (nomatch h), fun _ ↦ rfl⟩
  | cons identity identities ih =>
    set record := admissionRecord digests identity args.origin args.now
      (args.source identity.repoPath) with hrecord
    obtain ⟨hin, hout⟩ :=
      ih (ref + 1) (JsMap.set admissions (recordKey record) ⟨ref, record⟩)
    have hkey : recordKey record = identityKey digests identity := rfl
    rw [List.map_cons, List.mem_cons]
    refine ⟨fun hk ↦ ?_, fun hk ↦ ?_⟩
    · by_cases hrest : k ∈ identities.map (identityKey digests)
      · exact hin hrest
      · obtain rfl : k = recordKey record := hk.resolve_right hrest
        rw [admitted, hout hrest, JsMap.get_set_self]
        rfl
    · rw [not_or] at hk
      rw [admitted, hout hk.2, JsMap.get_set_of_ne _ (hkey ▸ hk.1)]

theorem get_retired (identities : List (UnitAdmissionIdentity M)) (admissions : Admissions)
    (k : JsString) :
    JsMap.get k (retired digests admissions identities).1 =
      if k ∈ identities.map (identityKey digests) then none else JsMap.get k admissions := by
  induction identities generalizing admissions with
  | nil => rfl
  | cons identity identities ih =>
    rw [retired, ih, JsMap.get_delete]
    by_cases hrest : k ∈ identities.map (identityKey digests)
    · simp [hrest]
    · by_cases hk : k = identityKey digests identity <;> simp [hrest, hk]

theorem recorded_retired (identities : List (UnitAdmissionIdentity M)) {admissions : Admissions}
    (h : Recorded admissions) : Recorded (retired digests admissions identities).1 := by
  induction identities generalizing admissions with
  | nil => exact h
  | cons identity identities ih => exact ih (h.delete _)

/-- The entry that a transaction's `admitMany` keeps of an admitted key. -/
def ownWrite (before after : Admissions) (writes : JsMap JsString OwnWrite) (k : JsString) :
    Option OwnWrite :=
  (JsMap.get k after).map fun applied ↦
    ⟨match JsMap.get k writes with
      | some write => write.before
      | none => JsMap.get k before, applied⟩

theorem recordWrites_returns (before : Admissions) {after : Admissions}
    {identities : List (UnitAdmissionIdentity M)} (writes : JsMap JsString OwnWrite)
    (h : ∀ k ∈ identities.map (identityKey digests), (JsMap.get k after).isSome = true) :
    (recordWrites digests before after writes identities).2 = true := by
  induction identities generalizing writes with
  | nil => rfl
  | cons identity identities ih =>
    rw [List.map_cons, List.forall_mem_cons] at h
    obtain ⟨applied, happlied⟩ := Option.isSome_iff_exists.mp h.1
    rw [recordWrites, happlied]
    exact ih _ h.2

theorem get_recordWrites (before : Admissions) {after : Admissions}
    {identities : List (UnitAdmissionIdentity M)} (writes : JsMap JsString OwnWrite)
    (h : ∀ k ∈ identities.map (identityKey digests), (JsMap.get k after).isSome = true)
    (k : JsString) :
    JsMap.get k (recordWrites digests before after writes identities).1 =
      if k ∈ identities.map (identityKey digests) then ownWrite before after writes k
      else JsMap.get k writes := by
  induction identities generalizing writes with
  | nil => rfl
  | cons identity identities ih =>
    rw [List.map_cons, List.forall_mem_cons] at h
    obtain ⟨applied, happlied⟩ := Option.isSome_iff_exists.mp h.1
    rw [recordWrites, happlied]
    simp only [List.map_cons, List.mem_cons]
    rw [ih _ h.2]
    by_cases hk : k = identityKey digests identity
    · subst hk
      -- a key met twice keeps what was there before
      by_cases hrest : identityKey digests identity ∈ identities.map (identityKey digests)
      · rw [if_pos hrest, if_pos (.inr hrest), ownWrite, ownWrite, happlied, JsMap.get_set_self]
      · rw [if_neg hrest, if_pos (.inl rfl), JsMap.get_set_self, ownWrite, happlied]
        rfl
    · rw [JsMap.get_set_of_ne _ hk, ownWrite, ownWrite, JsMap.get_set_of_ne _ hk]
      simp [hk]

theorem nodup_recordWrites (before after : Admissions) (identities : List (UnitAdmissionIdentity M))
    {writes : JsMap JsString OwnWrite} (h : (JsMap.keys writes).Nodup) :
    (JsMap.keys (recordWrites digests before after writes identities).1).Nodup := by
  induction identities generalizing writes with
  | nil => exact h
  | cons identity identities ih =>
    rw [recordWrites]
    split
    · exact h
    · exact ih (JsMap.nodup_keys_set h _ _)

end

/-- The entry that is put back under a key. -/
def putBack (admissions : Admissions) (k : JsString) : Option Stored → Admissions
  | some before => JsMap.set admissions k before
  | none => JsMap.delete admissions k

theorem get_putBack (admissions : Admissions) (k k' : JsString) (before : Option Stored) :
    JsMap.get k' (putBack admissions k before) =
      if k' = k then before else JsMap.get k' admissions := by
  cases before with
  | some before => exact JsMap.get_set admissions k k' before
  | none => exact JsMap.get_delete admissions k k'

theorem Recorded.putBack {admissions : Admissions} (h : Recorded admissions) {k : JsString}
    {before : Option Stored} (hbefore : ∀ stored, before = some stored →
      recordKey stored.record = k ∧ Admissible stored.record) : Recorded (putBack admissions k before) := by
  cases before with
  | some before =>
    obtain ⟨hkey, hadmissible⟩ := hbefore before rfl
    exact h.set hkey hadmissible
  | none => exact h.delete k

theorem restore_cons (admissions : Admissions) (k : JsString) (write : OwnWrite)
    (writes : JsMap JsString OwnWrite) :
    restore admissions ((k, write) :: writes) =
      if (JsMap.get k admissions).map (·.ref) = some write.applied.ref then
        ((restore (putBack admissions k write.before) writes).1, true)
      else restore admissions writes := by
  rw [restore, ite_not]
  rfl

/-- **What `failed` puts back.** -/
theorem get_restore {writes : JsMap JsString OwnWrite} (hnd : (JsMap.keys writes).Nodup)
    (admissions : Admissions) (k : JsString) :
    JsMap.get k (restore admissions writes).1 =
      match JsMap.get k writes with
      | some write =>
        if (JsMap.get k admissions).map (·.ref) = some write.applied.ref then write.before
        else JsMap.get k admissions
      | none => JsMap.get k admissions := by
  induction writes generalizing admissions with
  | nil => rfl
  | cons p writes ih =>
    obtain ⟨key, write⟩ := p
    obtain ⟨hkey, hnd⟩ := List.nodup_cons.mp hnd
    have hlater : JsMap.get key writes = none := JsMap.get_eq_none.mpr hkey
    rw [restore_cons, JsMap.get]
    by_cases hk : key = k
    · subst hk
      by_cases hheld : (JsMap.get key admissions).map (·.ref) = some write.applied.ref
      · simp only [if_pos hheld, ih hnd, hlater, get_putBack, if_true]
      · simp only [if_neg hheld, ih hnd, hlater, if_true]
    · rw [if_neg hk]
      split_ifs with hheld
      · rw [ih hnd, get_putBack, if_neg (Ne.symm hk)]
      · exact ih hnd admissions

theorem restore_unchanged {writes : JsMap JsString OwnWrite} {admissions : Admissions}
    (h : (restore admissions writes).2 = false) : (restore admissions writes).1 = admissions := by
  induction writes with
  | nil => rfl
  | cons p writes ih =>
    obtain ⟨k, write⟩ := p
    rw [restore_cons] at h ⊢
    split_ifs at h ⊢ with hheld
    exact ih h

theorem recorded_restore {writes : JsMap JsString OwnWrite}
    (hbefore : ∀ k write, (k, write) ∈ writes → ∀ stored, write.before = some stored →
      recordKey stored.record = k ∧ Admissible stored.record) {admissions : Admissions}
    (h : Recorded admissions) : Recorded (restore admissions writes).1 := by
  induction writes generalizing admissions with
  | nil => exact h
  | cons p writes ih =>
    obtain ⟨k, write⟩ := p
    have hlater : ∀ {admissions : Admissions}, Recorded admissions →
        Recorded (restore admissions writes).1 :=
      ih fun k' write' hmem ↦ hbefore k' write' (List.mem_cons_of_mem _ hmem)
    rw [restore_cons]
    split_ifs with hheld
    · exact hlater (h.putBack (hbefore k write List.mem_cons_self))
    · exact hlater h

end Vibestudio.Server.UnitAdmissions

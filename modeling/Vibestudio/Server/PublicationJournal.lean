import Mathlib
import Vibestudio.Js.Value
import Vibestudio.Transition.Run

/-!
# The journal of execution publications

`ExecutionPublicationJournal` of `src/server/executionPublicationJournal.ts`, with any number of
publishers and one collector that goes through its epochs as `GcEpochCoordinator` does. Every operation is
one transaction, so a run is any order of operations. A reservation holds its artifacts until it is
finalized, and a finalized one until an epoch after its own is complete, as long as no epoch is completed
that finds an artifact of an open reservation among the roots: `completeEpoch` retires such a reservation
as if it were finalized.

The ids of `crypto.randomUUID` are a counter. `log` is a record of the answers that no operation reads; of
the dates of a row nothing is read.
-/

namespace Vibestudio.Server.Publications

open Js Transition

/-! ## The journal -/

inductive Status where
  | reserved | finalized
  deriving DecidableEq

structure Artifact where
  buildKey : JsString
  executionDigest : JsString
  deriving DecidableEq

structure Publication where
  owner : JsString
  ownerId : JsString
  artifacts : List Artifact

structure Reservation where
  reservationId : ℕ
  epoch : ℕ
  deriving DecidableEq

/-- A row of `execution_publications`, with its artifacts. -/
structure PublicationRow where
  reservationId : ℕ
  epoch : ℕ
  owner : JsString
  ownerId : JsString
  status : Status
  artifacts : List Artifact
  deriving DecidableEq

structure Journal where
  currentEpoch : ℕ
  publications : List PublicationRow
  deriving DecidableEq

def maxSafeInteger : ℕ := 2 ^ 53 - 1

abbrev Thrown (α : Type) := Except JsString α

def PublicationRow.buildKeys (row : PublicationRow) : List JsString := row.artifacts.map Artifact.buildKey

/-- `p.status = 'reserved' OR p.epoch >= ?`. -/
def PublicationRow.protects (row : PublicationRow) (epoch : ℕ) : Bool :=
  decide (row.status = .reserved ∨ epoch ≤ row.epoch)

/-- What is known of an artifact: it is missing, its stored identity does not verify, or it is this one. -/
inductive Resolved where
  | missing
  | invalid (message : JsString)
  | verified (artifact : Artifact)

def checkArtifact (resolve : Artifact → Resolved) (artifact : Artifact) : Thrown Unit :=
  match resolve artifact with
  | .missing => .error (lit "Cannot publish missing execution artifact " ++ artifact.buildKey)
  | .invalid message => .error message
  | .verified stored =>
    if stored = artifact then .ok ()
    else .error (lit "Execution publication identity does not match stored build " ++ artifact.buildKey)

namespace Journal

variable (j : Journal)

def beginEpoch : Thrown (Journal × ℕ) :=
  if maxSafeInteger < j.currentEpoch + 1 then .error (lit "Invalid execution publication epoch")
  else .ok ({ j with currentEpoch := j.currentEpoch + 1 }, j.currentEpoch + 1)

/-- `reserve`, of a new id. An artifact that is listed twice violates the key of its table. -/
def reserve (id : ℕ) (resolve : Artifact → Resolved) (p : Publication) : Thrown (Journal × Reservation) :=
  if p.ownerId = [] then .error (lit "Execution publication ownerId is required")
  else (p.artifacts.forM (checkArtifact resolve)).bind fun _ ↦
    if (p.artifacts.map Artifact.buildKey).Nodup then
      .ok ({ j with publications := j.publications ++
        [⟨id, j.currentEpoch, p.owner, p.ownerId, .reserved, p.artifacts⟩] }, ⟨id, j.currentEpoch⟩)
    else .error (lit "UNIQUE constraint failed")

/-- The rows that a reservation names. -/
def named (r : Reservation) : List PublicationRow := j.publications.filter fun row ↦
  decide (row.reservationId = r.reservationId ∧ row.epoch = r.epoch)

def finalize (r : Reservation) : Thrown Journal :=
  if (j.named r).length = 1 then
    .ok { j with publications := j.publications.map fun row ↦
      if row.reservationId = r.reservationId ∧ row.epoch = r.epoch then { row with status := .finalized }
      else row }
  else .error (lit "Unknown execution publication reservation")

def protectedBuildKeys (epoch : ℕ) : List JsString :=
  (j.publications.filter fun row ↦ row.protects epoch).flatMap PublicationRow.buildKeys

/-- Whether the artifact is deleted; `commit` deletes it or throws. -/
def commitArtifactDeletion (epoch : ℕ) (buildKey : JsString) (commit : Thrown Unit) : Thrown Bool :=
  if j.publications.any fun row ↦ decide (buildKey ∈ row.buildKeys) && row.protects epoch then .ok false
  else commit.map fun _ ↦ true

/-- Whether the row is retired: `decision.status === "finalized" || decision.rooted`. -/
def retires (epoch : ℕ) (rooted : List JsString) (row : PublicationRow) : Bool :=
  decide (row.epoch < epoch) &&
    (decide (row.status = .finalized) || row.buildKeys.any fun key ↦ decide (key ∈ rooted))

def completeEpoch (epoch : ℕ) (rooted : List JsString) : Journal :=
  { j with publications := j.publications.filter fun row ↦ !retires epoch rooted row }

end Journal

/-! ## Runs -/

inductive Answer where
  | reserved (r : Reservation) (buildKeys : List JsString)
  | finalized (r : Reservation)
  | unknown (r : Reservation)
  | deleted (epoch : ℕ) (buildKey : JsString)
  deriving DecidableEq

structure System where
  journal : Journal
  /-- The epoch the collector is in. -/
  collector : Option ℕ
  nextId : ℕ
  /-- The last answer first. -/
  log : List Answer

def System.new : System := ⟨⟨0, []⟩, none, 0, []⟩

inductive Event where
  | beginEpoch
  | reserve (p : Publication) (resolve : Artifact → Resolved)
  | finalize (r : Reservation)
  | commitArtifactDeletion (buildKey : JsString) (commit : Thrown Unit)
  | completeEpoch (rooted : List JsString)
  /-- The collector fails, or its process stops. -/
  | collectorStops

def step (s : System) : Event → Option System
  | .beginEpoch => match s.journal.beginEpoch with
    | .ok (journal, epoch) => some { s with journal, collector := some epoch }
    | .error _ => some { s with collector := none }
  | .reserve p resolve => match s.journal.reserve s.nextId resolve p with
    | .ok (journal, r) => some { s with
        journal
        nextId := s.nextId + 1
        log := .reserved r (p.artifacts.map Artifact.buildKey) :: s.log }
    | .error _ => some s
  | .finalize r => match s.journal.finalize r with
    | .ok journal => some { s with journal, log := .finalized r :: s.log }
    | .error _ => some { s with log := .unknown r :: s.log }
  | .commitArtifactDeletion buildKey commit => s.collector.map fun epoch ↦
    match s.journal.commitArtifactDeletion epoch buildKey commit with
    | .ok true => { s with log := .deleted epoch buildKey :: s.log }
    | .ok false | .error _ => s
  | .completeEpoch rooted => s.collector.map fun epoch ↦
    { s with journal := s.journal.completeEpoch epoch rooted, collector := none }
  | .collectorStops => some { s with collector := none }

/-! ## What is promised -/

/-- An artifact that is deleted is listed by no open reservation, and by no finalized one of this epoch or
a later one; and a reservation is unknown only after it was finalized. -/
def Kept : List Answer → Prop
  | [] => True
  | .deleted epoch buildKey :: older => (∀ r keys, .reserved r keys ∈ older → buildKey ∈ keys →
      .finalized r ∈ older ∧ r.epoch < epoch) ∧ Kept older
  | .unknown r :: older => (∀ keys, .reserved r keys ∈ older → .finalized r ∈ older) ∧ Kept older
  | .reserved _ _ :: older | .finalized _ :: older => Kept older

/-- Whether the completion of an epoch would retire an open reservation. -/
def retiresOpen (j : Journal) (epoch : ℕ) (rooted : List JsString) : Bool :=
  j.publications.any fun row ↦ decide (row.status = .reserved) && Journal.retires epoch rooted row

/-- The condition on the steps of a run: no epoch is completed whose roots hold an artifact of an older
reservation that is still open. -/
def retiresFinalized (s : System) : Event → Bool
  | .completeEpoch rooted => s.collector.all fun epoch ↦ !retiresOpen s.journal epoch rooted
  | _ => true

/-- What the journal knows about a reservation. -/
structure Tracked (s : System) (r : Reservation) (keys : List JsString) : Prop where
  fresh : r.reservationId < s.nextId
  past : r.epoch ≤ s.journal.currentEpoch
  /-- An open reservation has its row. -/
  opened : .finalized r ∉ s.log → ∃ row ∈ s.journal.publications, row.reservationId = r.reservationId ∧
    row.epoch = r.epoch ∧ row.status = .reserved ∧ row.buildKeys = keys
  /-- A finalized one has its row until a later epoch is complete. -/
  closed : .finalized r ∈ s.log → r.epoch < s.journal.currentEpoch ∨
    ∃ row ∈ s.journal.publications, row.reservationId = r.reservationId ∧ row.epoch = r.epoch ∧
      row.buildKeys = keys

/-- **The invariant.** -/
structure Inv (s : System) : Prop where
  ids : (s.journal.publications.map PublicationRow.reservationId).Nodup
  fresh : ∀ row ∈ s.journal.publications, row.reservationId < s.nextId
  collector : ∀ epoch, s.collector = some epoch → epoch = s.journal.currentEpoch
  tracked : ∀ r keys, .reserved r keys ∈ s.log → Tracked s r keys
  finalized : ∀ r, .finalized r ∈ s.log → r.reservationId < s.nextId
  kept : Kept s.log
variable {s t : System}

/-! ## Steps -/

/-- Answers that are no finalization change nothing about a reservation. -/
theorem Tracked.frame {r : Reservation} {keys : List JsString} (h : Tracked s r keys)
    (hnext : s.nextId ≤ t.nextId) (hepoch : s.journal.currentEpoch ≤ t.journal.currentEpoch)
    (hrows : ∀ row ∈ s.journal.publications, row ∈ t.journal.publications)
    (hlog : .finalized r ∈ t.log ↔ .finalized r ∈ s.log) : Tracked t r keys := by
  refine ⟨h.fresh.trans_le hnext, h.past.trans hepoch, fun hopen ↦ ?_, fun hclosed ↦ ?_⟩
  · obtain ⟨row, hrow, hcases⟩ := h.opened fun hf ↦ hopen (hlog.mpr hf)
    exact ⟨row, hrows row hrow, hcases⟩
  · rcases h.closed (hlog.mp hclosed) with hlt | ⟨row, hrow, hcases⟩
    · exact .inl (hlt.trans_le hepoch)
    · exact .inr ⟨row, hrows row hrow, hcases⟩

theorem Inv.beginEpoch (h : Inv s) (hs : step s .beginEpoch = some t) : Inv t := by
  rw [step] at hs
  split at hs
  · next journal epoch hbegin =>
    obtain rfl := Option.some.inj hs
    rw [Journal.beginEpoch] at hbegin
    split_ifs at hbegin
    obtain ⟨rfl, rfl⟩ := Prod.mk.inj (Except.ok.inj hbegin)
    refine ⟨h.ids, h.fresh, fun epoch hepoch ↦ (Option.some.inj hepoch).symm, fun r keys hr ↦ ?_,
      h.finalized, h.kept⟩
    exact (h.tracked r keys hr).frame le_rfl (Nat.le_succ _) (fun _ hrow ↦ hrow) Iff.rfl
  · obtain rfl := Option.some.inj hs
    exact ⟨h.ids, h.fresh, fun _ hnone ↦ (nomatch hnone), fun r keys hr ↦ (h.tracked r keys hr).frame le_rfl
      le_rfl (fun _ hrow ↦ hrow) Iff.rfl, h.finalized, h.kept⟩

theorem Inv.reserve (h : Inv s) {p : Publication} {resolve : Artifact → Resolved}
    (hs : step s (.reserve p resolve) = some t) : Inv t := by
  rw [step] at hs
  split at hs
  case h_2 => exact Option.some.inj hs ▸ h
  rename_i journal r hreserve
  obtain rfl := Option.some.inj hs
  rw [Journal.reserve] at hreserve
  by_cases howner : p.ownerId = []
  · rw [if_pos howner] at hreserve
    exact nomatch hreserve
  rw [if_neg howner] at hreserve
  obtain ⟨-, -, hreserve⟩ := bind_eq_ok.mp hreserve
  split_ifs at hreserve
  obtain ⟨rfl, rfl⟩ := Prod.mk.inj (Except.ok.inj hreserve)
  have hnew : .finalized ⟨s.nextId, s.journal.currentEpoch⟩ ∉ s.log := fun hmem ↦
    absurd (h.finalized _ hmem) (lt_irrefl _)
  have hiff : ∀ r₀ : Reservation, (.finalized r₀ ∈ Answer.reserved ⟨s.nextId, s.journal.currentEpoch⟩
      (p.artifacts.map Artifact.buildKey) :: s.log) ↔ .finalized r₀ ∈ s.log := fun r₀ ↦
    ⟨fun hmem ↦ (List.mem_cons.mp hmem).resolve_left nofun, List.mem_cons_of_mem _⟩
  constructor
  · rw [List.map_append, List.nodup_append]
    refine ⟨h.ids, List.nodup_singleton _, fun id hid id' hid' ↦ ?_⟩
    obtain ⟨row, hrow, rfl⟩ := List.mem_map.mp hid
    rw [List.mem_singleton.mp hid']
    exact (h.fresh row hrow).ne
  · intro row hrow
    rcases List.mem_append.mp hrow with hrow | hrow
    · exact (h.fresh row hrow).trans (Nat.lt_succ_self _)
    · rw [List.mem_singleton.mp hrow]
      exact Nat.lt_succ_self _
  · exact h.collector
  · intro r keys hr
    rcases List.mem_cons.mp hr with heq | hr
    · obtain ⟨rfl, rfl⟩ := Answer.reserved.inj heq
      refine ⟨Nat.lt_succ_self _, le_rfl, fun _ ↦ ?_, fun hclosed ↦ absurd ((hiff _).mp hclosed) hnew⟩
      exact ⟨_, List.mem_append_right _ (List.mem_singleton_self _), rfl, rfl, rfl, rfl⟩
    · exact (h.tracked r keys hr).frame (Nat.le_succ _) le_rfl (fun _ ↦ List.mem_append_left _) (hiff r)
  · intro r hr
    exact (h.finalized r ((hiff r).mp hr)).trans (Nat.lt_succ_self _)
  · exact h.kept

/-- No two rows have one id, so a row is all that its reservation names. -/
theorem Inv.named (h : Inv s) {r : Reservation} {row : PublicationRow}
    (hrow : row ∈ s.journal.publications) (hid : row.reservationId = r.reservationId)
    (hepoch : row.epoch = r.epoch) : (s.journal.named r).length = 1 := by
  have hmem : row ∈ s.journal.named r := List.mem_filter.mpr ⟨hrow, decide_eq_true ⟨hid, hepoch⟩⟩
  have hnodup : (s.journal.named r).Nodup := (List.Nodup.of_map _ h.ids).filter _
  refine le_antisymm ?_ (List.length_pos_of_mem hmem)
  by_contra hmore
  obtain ⟨a, b, rest, heq⟩ : ∃ a b rest, s.journal.named r = a :: b :: rest := by
    match s.journal.named r, hmore with
    | [], hmore => exact absurd (Nat.zero_le 1) hmore
    | [_], hmore => exact absurd le_rfl hmore
    | a :: b :: rest, _ => exact ⟨a, b, rest, rfl⟩
  have hnamed : ∀ x ∈ s.journal.named r, x ∈ s.journal.publications ∧ x.reservationId = r.reservationId :=
    fun x hx ↦ ⟨List.mem_of_mem_filter hx, (of_decide_eq_true (List.mem_filter.mp hx).2).1⟩
  rw [heq] at hnodup hnamed
  obtain ⟨ha, hida⟩ := hnamed a List.mem_cons_self
  obtain ⟨hb, hidb⟩ := hnamed b (List.mem_cons_of_mem _ List.mem_cons_self)
  have hsame : a = b := List.inj_on_of_nodup_map h.ids ha hb (hida.trans hidb.symm)
  exact (List.nodup_cons.mp hnodup).1 (hsame ▸ List.mem_cons_self)

theorem Inv.finalize (h : Inv s) {r : Reservation} (hs : step s (.finalize r) = some t) : Inv t := by
  rw [step] at hs
  split at hs
  · next journal hfinalize =>
    obtain rfl := Option.some.inj hs
    rw [Journal.finalize] at hfinalize
    split_ifs at hfinalize with hone
    obtain rfl := Except.ok.inj hfinalize
    -- the row that is found
    obtain ⟨found, hfound⟩ := List.exists_mem_of_length_pos (hone ▸ Nat.one_pos)
    have hfresh : r.reservationId < s.nextId := by
      obtain ⟨hmem, hid⟩ := List.mem_filter.mp hfound
      exact (of_decide_eq_true hid).1 ▸ h.fresh found hmem
    have hrows : ∀ {row : PublicationRow} {r₀ : Reservation}, row ∈ s.journal.publications →
        row.reservationId = r₀.reservationId → row.epoch = r₀.epoch →
        ∃ row' ∈ s.journal.publications.map fun row ↦
          if row.reservationId = r.reservationId ∧ row.epoch = r.epoch then { row with status := .finalized }
          else row, row'.reservationId = r₀.reservationId ∧ row'.epoch = r₀.epoch ∧
            (r₀ ≠ r → row'.status = row.status) ∧ row'.buildKeys = row.buildKeys := by
      intro row r₀ hrow hid hepoch
      refine ⟨_, List.mem_map_of_mem hrow, ?_⟩
      split_ifs with hmatch
      · refine ⟨hid, hepoch, fun hne ↦ absurd ?_ hne, rfl⟩
        obtain ⟨hid', hepoch'⟩ := hmatch
        obtain ⟨id, epoch⟩ := r
        obtain ⟨id₀, epoch₀⟩ := r₀
        rw [Reservation.mk.injEq]
        exact ⟨hid.symm.trans hid', hepoch.symm.trans hepoch'⟩
      · exact ⟨hid, hepoch, fun _ ↦ rfl, rfl⟩
    constructor
    · have hids : (s.journal.publications.map fun row ↦
          if row.reservationId = r.reservationId ∧ row.epoch = r.epoch then { row with status := .finalized }
          else row).map PublicationRow.reservationId =
            s.journal.publications.map PublicationRow.reservationId := by
        rw [List.map_map]
        refine List.map_congr_left fun row _ ↦ ?_
        rw [Function.comp_apply]
        split_ifs <;> rfl
      exact hids ▸ h.ids
    · intro row' hrow'
      obtain ⟨row, hrow, rfl⟩ := List.mem_map.mp hrow'
      have hlt := h.fresh row hrow
      split_ifs <;> exact hlt
    · exact h.collector
    · intro r₀ keys hr₀
      have htracked := h.tracked r₀ keys ((List.mem_cons.mp hr₀).resolve_left nofun)
      refine ⟨htracked.fresh, htracked.past, fun hopen ↦ ?_, fun hclosed ↦ ?_⟩
      · rw [List.mem_cons, not_or] at hopen
        obtain ⟨row, hrow, hid, hepoch, hstatus, hkeys⟩ := htracked.opened hopen.2
        obtain ⟨row', hrow', hid', hepoch', hkept, hkeys'⟩ := hrows hrow hid hepoch
        refine ⟨row', hrow', hid', hepoch', (hkept ?_).trans hstatus, hkeys'.trans hkeys⟩
        exact fun heq ↦ hopen.1 (congrArg Answer.finalized heq)
      · by_cases hbefore : .finalized r₀ ∈ s.log
        · rcases htracked.closed hbefore with hlt | ⟨row, hrow, hid, hepoch, hkeys⟩
          · exact .inl hlt
          · obtain ⟨row', hrow', hid', hepoch', -, hkeys'⟩ := hrows hrow hid hepoch
            exact .inr ⟨row', hrow', hid', hepoch', hkeys'.trans hkeys⟩
        · obtain ⟨row, hrow, hid, hepoch, -, hkeys⟩ := htracked.opened hbefore
          obtain ⟨row', hrow', hid', hepoch', -, hkeys'⟩ := hrows hrow hid hepoch
          exact .inr ⟨row', hrow', hid', hepoch', hkeys'.trans hkeys⟩
    · intro r₀ hr₀
      rcases List.mem_cons.mp hr₀ with heq | hr₀
      · exact (Answer.finalized.inj heq) ▸ hfresh
      · exact h.finalized r₀ hr₀
    · exact h.kept
  · next message hfinalize =>
    obtain rfl := Option.some.inj hs
    have hiff : ∀ r₀ : Reservation, (.finalized r₀ ∈ Answer.unknown r :: s.log) ↔ .finalized r₀ ∈ s.log :=
      fun r₀ ↦ ⟨fun hmem ↦ (List.mem_cons.mp hmem).resolve_left nofun, List.mem_cons_of_mem _⟩
    refine ⟨h.ids, h.fresh, h.collector, fun r₀ keys hr₀ ↦ ?_, fun r₀ hr₀ ↦ ?_, fun keys hr₀ ↦ ?_, h.kept⟩
    · have hbefore := (List.mem_cons.mp hr₀).resolve_left nofun
      exact (h.tracked r₀ keys hbefore).frame le_rfl le_rfl (fun _ hrow ↦ hrow) (hiff r₀)
    · exact h.finalized r₀ ((hiff r₀).mp hr₀)
    · -- a row of an open reservation would have been found
      by_contra hopen
      obtain ⟨row, hrow, hid, hepoch, -, -⟩ := (h.tracked r keys hr₀).opened hopen
      rw [Journal.finalize, if_pos (h.named hrow hid hepoch)] at hfinalize
      exact nomatch hfinalize

theorem Inv.commitArtifactDeletion (h : Inv s) {buildKey : JsString} {commit : Thrown Unit}
    (hs : step s (.commitArtifactDeletion buildKey commit) = some t) : Inv t := by
  obtain ⟨epoch, hepoch, rfl⟩ := Option.map_eq_some_iff.mp hs
  split
  case h_2 => exact h
  case h_3 => exact h
  rename_i hdeleted
  have hfree : ∀ row ∈ s.journal.publications, buildKey ∈ row.buildKeys → row.protects epoch = false := by
    intro row hrow hkey
    rw [Journal.commitArtifactDeletion] at hdeleted
    split_ifs at hdeleted with hany
    · exact nomatch hdeleted
    rw [Bool.not_eq_true, List.any_eq_false] at hany
    have hrow' := hany row hrow
    rwa [decide_eq_true hkey, Bool.true_and, Bool.not_eq_true] at hrow'
  have hiff : ∀ r₀ : Reservation, (.finalized r₀ ∈ Answer.deleted epoch buildKey :: s.log) ↔
      .finalized r₀ ∈ s.log :=
    fun r₀ ↦ ⟨fun hmem ↦ (List.mem_cons.mp hmem).resolve_left nofun, List.mem_cons_of_mem _⟩
  refine ⟨h.ids, h.fresh, h.collector, fun r keys hr ↦ ?_, fun r hr ↦ ?_, fun r keys hr hkey ↦ ?_, h.kept⟩
  · have hbefore := (List.mem_cons.mp hr).resolve_left nofun
    exact (h.tracked r keys hbefore).frame le_rfl le_rfl (fun _ hrow ↦ hrow) (hiff r)
  · exact h.finalized r ((hiff r).mp hr)
  · have htracked := h.tracked r keys hr
    have hclosed : .finalized r ∈ s.log := by
      by_contra hopen
      obtain ⟨row, hrow, -, -, hstatus, rfl⟩ := htracked.opened hopen
      have hprotects := hfree row hrow hkey
      rw [PublicationRow.protects, decide_eq_true (.inl hstatus)] at hprotects
      exact nomatch hprotects
    refine ⟨hclosed, ?_⟩
    rcases htracked.closed hclosed with hlt | ⟨row, hrow, -, hrowEpoch, rfl⟩
    · exact h.collector epoch hepoch ▸ hlt
    · have hprotects := of_decide_eq_false (hfree row hrow hkey)
      rw [not_or, not_le, hrowEpoch] at hprotects
      exact hprotects.2

theorem Inv.completeEpoch (h : Inv s) {rooted : List JsString}
    (hok : retiresFinalized s (.completeEpoch rooted) = true)
    (hs : step s (.completeEpoch rooted) = some t) : Inv t := by
  obtain ⟨epoch, hepoch, rfl⟩ := Option.map_eq_some_iff.mp hs
  rw [retiresFinalized, hepoch, Option.all_some, Bool.not_eq_true', retiresOpen, List.any_eq_false] at hok
  have hsub : (s.journal.completeEpoch epoch rooted).publications.Sublist s.journal.publications :=
    List.filter_sublist
  have hkeeps : ∀ row ∈ s.journal.publications, Journal.retires epoch rooted row = false →
      row ∈ (s.journal.completeEpoch epoch rooted).publications := fun row hrow hretires ↦
    List.mem_filter.mpr ⟨hrow, by rw [hretires]; rfl⟩
  refine ⟨h.ids.sublist (hsub.map _), fun row hrow ↦ h.fresh row (hsub.subset hrow),
    fun _ hnone ↦ (nomatch hnone), fun r keys hr ↦ ?_, h.finalized, h.kept⟩
  have htracked := h.tracked r keys hr
  refine ⟨htracked.fresh, htracked.past, fun hopen ↦ ?_, fun hclosed ↦ ?_⟩
  · obtain ⟨row, hrow, hid, hrowEpoch, hstatus, hkeys⟩ := htracked.opened hopen
    refine ⟨row, hkeeps row hrow ?_, hid, hrowEpoch, hstatus, hkeys⟩
    have hkept := hok row hrow
    rwa [decide_eq_true hstatus, Bool.true_and, Bool.not_eq_true] at hkept
  · rcases htracked.closed hclosed with hlt | ⟨row, hrow, hid, hrowEpoch, hkeys⟩
    · exact .inl hlt
    · cases hretires : Journal.retires epoch rooted row with
      | false => exact .inr ⟨row, hkeeps row hrow hretires, hid, hrowEpoch, hkeys⟩
      | true =>
        rw [Journal.retires, Bool.and_eq_true, decide_eq_true_iff, hrowEpoch,
          h.collector epoch hepoch] at hretires
        exact .inl hretires.1

theorem Inv.collectorStops (h : Inv s) : Inv { s with collector := none } :=
  ⟨h.ids, h.fresh, fun _ hnone ↦ (nomatch hnone), fun r keys hr ↦ (h.tracked r keys hr).frame le_rfl le_rfl
    (fun _ hrow ↦ hrow) Iff.rfl, h.finalized, h.kept⟩

theorem Inv.step (h : Inv s) {e : Event} (hok : retiresFinalized s e = true)
    (hs : step s e = some t) : Inv t := by
  cases e with
  | beginEpoch => exact h.beginEpoch hs
  | reserve p resolve => exact h.reserve hs
  | finalize r => exact h.finalize hs
  | commitArtifactDeletion buildKey commit => exact h.commitArtifactDeletion hs
  | completeEpoch rooted => exact h.completeEpoch hok hs
  | collectorStops => exact Option.some.inj hs ▸ h.collectorStops

theorem Inv.new : Inv .new := by
  refine ⟨List.nodup_nil, ?_, ?_, ?_, ?_, trivial⟩
  · exact fun _ hnone ↦ nomatch hnone
  · exact fun _ hnone ↦ nomatch hnone
  · exact fun _ _ hnone ↦ nomatch hnone
  · exact fun _ hnone ↦ nomatch hnone

/-! ## Reservations protect artifacts -/

/-- **Reservations protect their artifacts** in a run in which no completed epoch retires an open one: what
is deleted is not held by one, none is unknown before it was finalized, and an open one protects all its
artifacts in every epoch. -/
theorem reservations_protect {s : System} (h : Reachable step retiresFinalized .new s) :
    Kept s.log ∧ ∀ r keys, .reserved r keys ∈ s.log → .finalized r ∉ s.log →
      ∀ epoch, ∀ key ∈ keys, key ∈ s.journal.protectedBuildKeys epoch := by
  have hinv : Inv s := h.invariant (I := Inv) Inv.new fun _ _ _ hinv hok hs ↦ hinv.step hok hs
  refine ⟨hinv.kept, fun r keys hr hopen epoch key hkey ↦ ?_⟩
  obtain ⟨row, hrow, -, -, hstatus, rfl⟩ := (hinv.tracked r keys hr).opened hopen
  refine List.mem_flatMap.mpr ⟨row, List.mem_filter.mpr ⟨hrow, ?_⟩, hkey⟩
  exact decide_eq_true (.inl hstatus)

/-! ### An epoch with a reservation of two artifacts -/

def clientArtifact : Artifact := ⟨lit "client", lit "c1"⟩

def workerArtifact : Artifact := ⟨lit "worker", lit "w1"⟩

/-- Both artifacts are reserved in the first epoch. -/
def reserveBoth : Event :=
  .reserve ⟨lit "runtime-entity", lit "entity:1", [clientArtifact, workerArtifact]⟩ .verified

/-- The reservation is finalized, its epoch passes, and an artifact is collected in the next one. -/
def finalizedRun : List Event :=
  [reserveBoth, .finalize ⟨0, 0⟩, .beginEpoch, .completeEpoch [clientArtifact.buildKey], .beginEpoch,
    .commitArtifactDeletion workerArtifact.buildKey (.ok ())]

theorem reservations_protect_finalized : ∃ s : System,
    .deleted 2 workerArtifact.buildKey ∈ s.log ∧ Kept s.log := by
  have hrun : ((run step retiresFinalized .new finalizedRun).map fun s ↦
      decide (.deleted 2 workerArtifact.buildKey ∈ s.log)) = some true := by decide +kernel
  obtain ⟨s, hs, hdeleted⟩ := Option.map_eq_some_iff.mp hrun
  exact ⟨s, of_decide_eq_true hdeleted, (reservations_protect (Reachable.init.run hs)).1⟩

/-- **A root that the publisher shares with someone else**: the open reservation is retired with it, its
other artifact is deleted, and `finalize` does not know it. -/
theorem not_always_protected : ¬∀ s : System, Reachable step anyStep .new s → Kept s.log := by
  intro hall
  have hrun : ((run step anyStep .new [reserveBoth, .beginEpoch, .completeEpoch [clientArtifact.buildKey],
      .beginEpoch, .commitArtifactDeletion workerArtifact.buildKey (.ok ()), .finalize ⟨0, 0⟩]).map
        System.log) = some [.unknown ⟨0, 0⟩, .deleted 2 workerArtifact.buildKey,
          .reserved ⟨0, 0⟩ [clientArtifact.buildKey, workerArtifact.buildKey]] := by
    decide +kernel
  obtain ⟨s, hs, hlog⟩ := Option.map_eq_some_iff.mp hrun
  have hkept := hall s (Reachable.init.run hs)
  rw [hlog] at hkept
  have hfinalized := hkept.1 _ (List.mem_cons_of_mem _ (List.mem_singleton_self _))
  exact absurd hfinalized (by decide)

end Vibestudio.Server.Publications

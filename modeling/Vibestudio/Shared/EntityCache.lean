import Mathlib
import Vibestudio.Js.Map
import Vibestudio.Js.Text

/-!
# The entity cache

`EntityCache` of `packages/shared/src/runtime/entityCache.ts`: a mirror of the entity rows of
WorkspaceDO, refilled by `hydrate` and kept up to date by one call for each committed change.

A snapshot is read asynchronously, so it can be older than the changes committed meanwhile. Two
mechanisms deal with this. A fence remembers the revision at which the read began, and `hydrate`
leaves every record alone that changed after it. An overlay of bootstrap entities, which have no row
yet, is written over the result.

The overlay is written last and without a look at the fence. The calls that end a bootstrap entity
remove it from the overlay, all but `_onRetire`, so the two mechanisms agree exactly as long as the
overlay repeats what the cache holds: `hydrate_fenced_iff`.
-/

namespace Vibestudio.Shared

open Js

/-! ## Records -/

inductive EntityKind where
  | panel
  | client
  | worker
  | do
  | session
  | shell
  | server
deriving DecidableEq

inductive EntityStatus where
  | preparing
  | active
  | retired
deriving DecidableEq

inductive EntityChangeKind where
  | activate
  | retire
  | delete
  | invalidate
deriving DecidableEq

structure EntitySource where
  repoPath : JsString
  effectiveVersion : JsString
deriving DecidableEq

/-- An entity row. `A` is the type of authority manifests, and `rest` holds the fields that no
operation of the cache names. -/
structure EntityRecord (A R : Type) where
  id : JsString
  kind : EntityKind
  source : EntitySource
  activeBuildKey : Option JsString
  activeExecutionDigest : Option JsString
  activeAuthority : Option A
  contextId : JsString
  className : Option JsString
  key : JsString
  createdAt : ℕ
  authoritySessionId : Option JsString
  status : EntityStatus
  cleanupComplete : Bool
  rest : Option R
deriving DecidableEq

/-- The argument of `registerBootstrap`, whose kind is `server` or `shell`. -/
structure BootstrapService where
  id : JsString
  shell : Bool
  source : Option EntitySource
  contextId : Option JsString

/-- The argument of `registerBootstrapEntity`. -/
structure BootstrapEntity (A : Type) where
  id : JsString
  source : EntitySource
  activeBuildKey : JsString
  activeExecutionDigest : JsString
  activeAuthority : A
  contextId : JsString
  className : JsString
  key : JsString

variable {A R : Type}

/-- The entry of `registerBootstrap`, at the time `now`. -/
def BootstrapService.entry (record : BootstrapService) (now : ℕ) : EntityRecord A R where
  id := record.id
  kind := if record.shell then .shell else .server
  source := record.source.getD ⟨[], []⟩
  activeBuildKey := none
  activeExecutionDigest := none
  activeAuthority := none
  contextId := record.contextId.getD []
  className := none
  key := record.id
  createdAt := now
  authoritySessionId := none
  status := .active
  cleanupComplete := true
  rest := none

/-- The entry of `registerBootstrapEntity`, at the time `now` and with the fresh session id. -/
def BootstrapEntity.entry (record : BootstrapEntity A) (session : JsString) (now : ℕ) :
    EntityRecord A R where
  id := record.id
  kind := .do
  source := record.source
  activeBuildKey := some record.activeBuildKey
  activeExecutionDigest := some record.activeExecutionDigest
  activeAuthority := some record.activeAuthority
  contextId := record.contextId
  className := some record.className
  key := record.key
  createdAt := now
  authoritySessionId := some session
  status := .active
  cleanupComplete := true
  rest := none

/-! ## The cache -/

structure EntityCacheHydrationFence where
  revision : ℕ

/-- The cache. `emitted` is what the listeners have been told. -/
structure EntityCache (A R : Type) where
  records : JsMap JsString (EntityRecord A R)
  bootstrapRecords : JsMap JsString (EntityRecord A R)
  recordRevisions : JsMap JsString ℕ
  revision : ℕ
  emitted : List (JsString × EntityChangeKind)

namespace EntityCache

/-- A new cache. -/
def empty : EntityCache A R := ⟨[], [], [], 0, []⟩

def beginHydration (c : EntityCache A R) : EntityCacheHydrationFence := ⟨c.revision⟩

def resolve (c : EntityCache A R) (id : JsString) : Option (EntityRecord A R) := JsMap.get id c.records

def resolveActive (c : EntityCache A R) (id : JsString) : Option (EntityRecord A R) :=
  (c.resolve id).filter fun record ↦ record.status = .active

/-- `set` for each record in turn. -/
def setAll (m : JsMap JsString (EntityRecord A R)) (records : List (EntityRecord A R)) :
    JsMap JsString (EntityRecord A R) := records.foldl (fun m record ↦ JsMap.set m record.id record) m

/-- One turn of the loop of a fenced `hydrate`. -/
def reconcile (revisions : JsMap JsString ℕ) (fence : EntityCacheHydrationFence)
    (snapshot m : JsMap JsString (EntityRecord A R)) (id : JsString) :
    JsMap JsString (EntityRecord A R) :=
  if fence.revision < (JsMap.get id revisions).getD 0 then m
  else match JsMap.get id snapshot with
    | some record => JsMap.set m id record
    | none => JsMap.delete m id

def hydrate (c : EntityCache A R) (records : List (EntityRecord A R))
    (fence : Option EntityCacheHydrationFence) : EntityCache A R :=
  let mirrored := match fence with
    | none => setAll [] records
    | some fence =>
      let snapshot := setAll [] records
      let ids := (JsMap.keys c.records ++ JsMap.keys snapshot).eraseDups
      ids.foldl (reconcile c.recordRevisions fence snapshot) c.records
  { c with records := setAll mirrored (c.bootstrapRecords.map Prod.snd) }

/-- `this.recordRevisions.set(id, ++this.revision); this.emit(id, change)`. -/
def stamp (c : EntityCache A R) (id : JsString) (change : EntityChangeKind) : EntityCache A R :=
  { c with
    recordRevisions := JsMap.set c.recordRevisions id (c.revision + 1)
    revision := c.revision + 1
    emitted := c.emitted ++ [(id, change)] }

def onActivate (c : EntityCache A R) (record : EntityRecord A R) : EntityCache A R :=
  { c with
    bootstrapRecords := JsMap.delete c.bootstrapRecords record.id
    records := JsMap.set c.records record.id record }.stamp record.id .activate

def onRetire (c : EntityCache A R) (record : EntityRecord A R) : EntityCache A R :=
  { c with records := JsMap.set c.records record.id record }.stamp record.id .retire

def onDelete (c : EntityCache A R) (id : JsString) : EntityCache A R :=
  { c with
    bootstrapRecords := JsMap.delete c.bootstrapRecords id
    records := JsMap.delete c.records id }.stamp id .delete

def invalidate (c : EntityCache A R) (id : JsString) : EntityCache A R :=
  { c with
    bootstrapRecords := JsMap.delete c.bootstrapRecords id
    records := JsMap.delete c.records id }.stamp id .invalidate

def registerBootstrap (c : EntityCache A R) (record : BootstrapService) (now : ℕ) :
    EntityCache A R :=
  let entry := record.entry now
  { c with records := JsMap.set c.records record.id entry }.stamp record.id .activate

def registerBootstrapEntity (c : EntityCache A R) (record : BootstrapEntity A) (session : JsString)
    (now : ℕ) : EntityCache A R :=
  let entry := record.entry session now
  { c with
    bootstrapRecords := JsMap.set c.bootstrapRecords entry.id entry
    records := JsMap.set c.records entry.id entry }.stamp entry.id .activate

/-- `_clear`, which leaves the listeners. -/
def clear (c : EntityCache A R) : EntityCache A R := ⟨[], [], [], 0, c.emitted⟩

end EntityCache

/-! ## Runs -/

/-- A call that changes one id. -/
inductive Mutation (A R : Type) where
  | onActivate (record : EntityRecord A R)
  | onRetire (record : EntityRecord A R)
  | onDelete (id : JsString)
  | invalidate (id : JsString)
  | registerBootstrap (record : BootstrapService) (now : ℕ)
  | registerBootstrapEntity (record : BootstrapEntity A) (session : JsString) (now : ℕ)

namespace Mutation

def apply (c : EntityCache A R) : Mutation A R → EntityCache A R
  | onActivate record => c.onActivate record
  | onRetire record => c.onRetire record
  | onDelete id => c.onDelete id
  | invalidate id => c.invalidate id
  | registerBootstrap record now => c.registerBootstrap record now
  | registerBootstrapEntity record session now => c.registerBootstrapEntity record session now

/-- The id a call changes. -/
def id : Mutation A R → JsString
  | onActivate record | onRetire record => record.id
  | onDelete id | invalidate id => id
  | registerBootstrap record _ => record.id
  | registerBootstrapEntity record _ _ => record.id

/-- The value, or absence, a call leaves. -/
def value : Mutation A R → Option (EntityRecord A R)
  | onActivate record | onRetire record => some record
  | onDelete _ | invalidate _ => none
  | registerBootstrap record now => some (record.entry now)
  | registerBootstrapEntity record session now => some (record.entry session now)

/-- What a call leaves in the overlay, given what was there. -/
def overlay (before : Option (EntityRecord A R)) : Mutation A R → Option (EntityRecord A R)
  | onActivate _ | onDelete _ | invalidate _ => none
  | onRetire _ | registerBootstrap _ _ => before
  | registerBootstrapEntity record session now => some (record.entry session now)

/-- The calls that supersede or remove a bootstrap entity. -/
def Supersedes : Mutation A R → Prop
  | onActivate _ | onDelete _ | invalidate _ => True
  | _ => False

end Mutation

/-- Everything that can happen to a cache. -/
inductive CacheEvent (A R : Type) where
  | mutate (m : Mutation A R)
  | hydrate (records : List (EntityRecord A R)) (fence : Option EntityCacheHydrationFence)
  | clear

def CacheEvent.apply (c : EntityCache A R) : CacheEvent A R → EntityCache A R
  | mutate m => m.apply c
  | hydrate records fence => c.hydrate records fence
  | clear => c.clear

/-- The event registers `id` as a bootstrap entity. -/
def CacheEvent.Registers (id : JsString) : CacheEvent A R → Prop
  | mutate (.registerBootstrapEntity record _ _) => record.id = id
  | _ => False

/-- The cache after a sequence of events. -/
def EntityCache.replay (c : EntityCache A R) (es : List (CacheEvent A R)) : EntityCache A R :=
  es.foldl CacheEvent.apply c

/-- The cache after a sequence of calls. -/
def EntityCache.mutate (c : EntityCache A R) (ms : List (Mutation A R)) : EntityCache A R :=
  ms.foldl Mutation.apply c

/-! ## What one call does -/

namespace Mutation

variable (c : EntityCache A R) (m : Mutation A R) (id : JsString)

theorem get_records_apply : JsMap.get id (m.apply c).records =
    if id = m.id then m.value else JsMap.get id c.records := by
  cases m
  case onActivate | onRetire => exact JsMap.get_set _ _ _ _
  case onDelete | invalidate => exact JsMap.get_delete _ _ _
  case registerBootstrap | registerBootstrapEntity => exact JsMap.get_set _ _ _ _

theorem get_bootstrapRecords_apply : JsMap.get id (m.apply c).bootstrapRecords =
    if id = m.id then m.overlay (JsMap.get id c.bootstrapRecords)
    else JsMap.get id c.bootstrapRecords := by
  cases m
  case onActivate | onDelete | invalidate => exact JsMap.get_delete _ _ _
  case onRetire | registerBootstrap => exact (ite_self _).symm
  case registerBootstrapEntity => exact JsMap.get_set _ _ _ _

theorem recordRevisions_apply :
    (m.apply c).recordRevisions = JsMap.set c.recordRevisions m.id (c.revision + 1) := by
  cases m <;> rfl

theorem revision_apply : (m.apply c).revision = c.revision + 1 := by
  cases m <;> rfl

end Mutation

/-! ## What `hydrate` does -/

/-- The last record of a snapshot with the given id. -/
def lastRecord (records : List (EntityRecord A R)) (id : JsString) : Option (EntityRecord A R) :=
  records.reverse.find? fun record ↦ decide (record.id = id)

theorem mem_of_lastRecord {records : List (EntityRecord A R)} {id : JsString} {r : EntityRecord A R}
    (h : lastRecord records id = some r) : r ∈ records :=
  List.mem_reverse.mp (List.mem_of_find?_eq_some h)

namespace EntityCache

theorem get_setAll (records : List (EntityRecord A R)) (id : JsString) :
    ∀ m, JsMap.get id (setAll m records) = (lastRecord records id).or (JsMap.get id m) := by
  induction records with
  | nil => intro m; rfl
  | cons record records ih =>
    intro m
    rw [setAll, List.foldl_cons, ← setAll, ih, JsMap.get_set, lastRecord, lastRecord,
      List.reverse_cons, List.find?_append, Option.or_assoc]
    congr 1
    by_cases hid : id = record.id
    · rw [if_pos hid, List.find?_cons_of_pos (by simp [hid]), Option.some_or]
    · rw [if_neg hid, List.find?_cons_of_neg (by simpa using Ne.symm hid), List.find?_nil,
        Option.none_or]

/-- The ids that a fenced `hydrate` leaves alone. -/
def ChangedSince (c : EntityCache A R) (fence : EntityCacheHydrationFence) (id : JsString) : Prop :=
  fence.revision < (JsMap.get id c.recordRevisions).getD 0

instance (c : EntityCache A R) (fence : EntityCacheHydrationFence) (id : JsString) :
    Decidable (c.ChangedSince fence id) := inferInstanceAs (Decidable (_ < _))

theorem get_foldl_reconcile (c : EntityCache A R) (fence : EntityCacheHydrationFence)
    (snapshot : JsMap JsString (EntityRecord A R)) (id : JsString) (ids : List JsString) :
    ∀ m, JsMap.get id (ids.foldl (reconcile c.recordRevisions fence snapshot) m) =
      if id ∈ ids ∧ ¬c.ChangedSince fence id then JsMap.get id snapshot else JsMap.get id m := by
  induction ids with
  | nil => intro m; simp
  | cons a ids ih =>
    intro m
    rw [List.foldl_cons, ih]
    -- the turn for `a` decides `id` only when `a` is `id` and it has not changed since
    have hturn : JsMap.get id (reconcile c.recordRevisions fence snapshot m a) =
        if id = a ∧ ¬c.ChangedSince fence id then JsMap.get id snapshot else JsMap.get id m := by
      rw [reconcile]
      by_cases hid : id = a
      · subst hid
        by_cases hch : c.ChangedSince fence id
        · rw [if_pos (show fence.revision < _ from hch), if_neg (fun h ↦ h.2 hch)]
        · rw [if_neg (show ¬fence.revision < _ from hch), if_pos ⟨rfl, hch⟩]
          cases hs : JsMap.get id snapshot with
          | none => exact (JsMap.get_delete _ _ _).trans (if_pos rfl)
          | some record => exact JsMap.get_set_self _ _ _
      · rw [if_neg (c := id = a ∧ _) (fun hn ↦ hid hn.1)]
        split_ifs
        · rfl
        · cases JsMap.get a snapshot with
          | none => exact (JsMap.get_delete _ _ _).trans (if_neg hid)
          | some record => exact JsMap.get_set_of_ne _ hid _
    rw [hturn]
    simp only [List.mem_cons]
    by_cases hin : id ∈ ids ∧ ¬c.ChangedSince fence id
    · rw [if_pos hin, if_pos ⟨Or.inr hin.1, hin.2⟩]
    · rw [if_neg hin]
      exact if_congr (by tauto) rfl rfl

/-- What holds of every cache: no revision is ahead of the counter, and the overlay is a map keyed
by the ids of its records. -/
structure Coherent (c : EntityCache A R) : Prop where
  revisions_le : ∀ id r, JsMap.get id c.recordRevisions = some r → r ≤ c.revision
  overlay_id : ∀ p ∈ c.bootstrapRecords, p.2.id = p.1
  overlay_nodup : (JsMap.keys c.bootstrapRecords).Nodup

theorem lastRecord_overlay {c : EntityCache A R} (h : c.Coherent) (id : JsString) :
    lastRecord (c.bootstrapRecords.map Prod.snd) id = JsMap.get id c.bootstrapRecords := by
  cases hl : lastRecord (c.bootstrapRecords.map Prod.snd) id with
  | some r =>
    obtain ⟨p, hp, rfl⟩ := List.mem_map.mp (mem_of_lastRecord hl)
    have hid : p.2.id = id := by simpa using List.find?_some hl
    have hkey : p.1 = id := (h.overlay_id p hp).symm.trans hid
    exact ((JsMap.mem_iff_get h.overlay_nodup).mp (hkey ▸ hp)).symm
  | none =>
    rw [eq_comm, JsMap.get_eq_none]
    intro hk
    obtain ⟨p, hp, hpk⟩ := List.mem_map.mp hk
    have hnone := List.find?_eq_none.mp hl p.2 (List.mem_reverse.mpr (List.mem_map_of_mem hp))
    exact hnone (decide_eq_true ((h.overlay_id p hp).trans hpk))

/-- **`hydrate` at one id**: the overlay, else what the fence protects, else the snapshot. -/
theorem resolve_hydrate {c : EntityCache A R} (h : c.Coherent) (records : List (EntityRecord A R))
    (fence : Option EntityCacheHydrationFence) (id : JsString) :
    (c.hydrate records fence).resolve id = (JsMap.get id c.bootstrapRecords).or
      (if ∃ f ∈ fence, c.ChangedSince f id then c.resolve id else lastRecord records id) := by
  simp only [resolve, hydrate]
  rw [get_setAll, lastRecord_overlay h]
  congr 1
  cases fence with
  | none => rw [if_neg (by simp), get_setAll, JsMap.get, Option.or_none]
  | some f =>
    have hsnap : JsMap.get id (setAll [] records) = lastRecord records id := by
      rw [get_setAll, JsMap.get, Option.or_none]
    have hiff : (∃ f' ∈ some f, c.ChangedSince f' id) ↔ c.ChangedSince f id := by simp
    rw [get_foldl_reconcile, hsnap]
    simp only [hiff, List.mem_eraseDups, List.mem_append]
    by_cases hch : c.ChangedSince f id
    · rw [if_neg (fun hn ↦ hn.2 hch), if_pos hch]
    · rw [if_neg hch]
      by_cases hin : id ∈ JsMap.keys c.records ∨ id ∈ JsMap.keys (setAll [] records)
      · rw [if_pos ⟨hin, hch⟩]
      · -- an id in neither map is absent from both
        rw [not_or] at hin
        rw [if_neg (fun hn ↦ hn.1.elim hin.1 hin.2), ← hsnap, JsMap.get_eq_none.mpr hin.1,
          JsMap.get_eq_none.mpr hin.2]

end EntityCache

/-! ## Every cache is coherent -/

namespace EntityCache

theorem coherent_empty : (empty : EntityCache A R).Coherent where
  revisions_le id r h := absurd h (by simp [empty, JsMap.get])
  overlay_id p h := absurd h List.not_mem_nil
  overlay_nodup := List.nodup_nil

theorem Coherent.apply {c : EntityCache A R} (h : c.Coherent) (m : Mutation A R) :
    (m.apply c).Coherent where
  revisions_le id r hr := by
    rw [m.recordRevisions_apply, JsMap.get_set] at hr
    rw [m.revision_apply]
    split_ifs at hr with hid
    · exact (Option.some_inj.mp hr).ge
    · exact (h.revisions_le id r hr).trans (Nat.le_succ _)
  overlay_id p hp := by
    cases m
    case onActivate | onDelete | invalidate => exact h.overlay_id p (List.mem_of_mem_filter hp)
    case onRetire | registerBootstrap => exact h.overlay_id p hp
    case registerBootstrapEntity record session now =>
      rcases JsMap.mem_set hp with rfl | hp
      · rfl
      · exact h.overlay_id p hp
  overlay_nodup := by
    cases m
    case onActivate | onDelete | invalidate => exact JsMap.nodup_keys_delete h.overlay_nodup _
    case onRetire | registerBootstrap => exact h.overlay_nodup
    case registerBootstrapEntity => exact JsMap.nodup_keys_set h.overlay_nodup _ _

theorem Coherent.applyEvent {c : EntityCache A R} (h : c.Coherent) (e : CacheEvent A R) :
    (e.apply c).Coherent := by
  cases e with
  | mutate m => exact h.apply m
  | hydrate records fence => exact ⟨h.revisions_le, h.overlay_id, h.overlay_nodup⟩
  | clear =>
    have hempty := coherent_empty (A := A) (R := R)
    exact ⟨hempty.revisions_le, hempty.overlay_id, hempty.overlay_nodup⟩

theorem Coherent.replay {c : EntityCache A R} (h : c.Coherent) (es : List (CacheEvent A R)) :
    (c.replay es).Coherent := by
  induction es generalizing c with
  | nil => exact h
  | cons e es ih => exact ih (h.applyEvent e)

theorem Coherent.mutate {c : EntityCache A R} (h : c.Coherent) (ms : List (Mutation A R)) :
    (c.mutate ms).Coherent := by
  induction ms generalizing c with
  | nil => exact h
  | cons m ms ih => exact ih (h.apply m)

end EntityCache

/-! ## What a sequence of calls does -/

/-- What the last call on `id` leaves, if there is one. -/
def lastValue (ms : List (Mutation A R)) (id : JsString) : Option (Option (EntityRecord A R)) :=
  match ms with
  | [] => none
  | m :: ms => (lastValue ms id).or (if id = m.id then some m.value else none)

namespace EntityCache

theorem resolve_mutate (id : JsString) (ms : List (Mutation A R)) : ∀ c : EntityCache A R,
    (c.mutate ms).resolve id = (lastValue ms id).getD (c.resolve id) := by
  induction ms with
  | nil => intro c; rfl
  | cons m ms ih =>
    intro c
    rw [mutate, List.foldl_cons, ← mutate, ih, lastValue, resolve, m.get_records_apply, resolve]
    cases lastValue ms id with
    | some v => rfl
    | none =>
      rw [Option.none_or, Option.getD_none]
      split_ifs <;> rfl

theorem revisions_mutate (id : JsString) (ms : List (Mutation A R)) : ∀ {c : EntityCache A R},
    c.Coherent → ∀ {fence : EntityCacheHydrationFence}, fence.revision ≤ c.revision →
      ((c.mutate ms).ChangedSince fence id ↔ c.ChangedSince fence id ∨ (lastValue ms id).isSome) := by
  induction ms with
  | nil => intro c _ fence _; simp [lastValue, mutate]
  | cons m ms ih =>
    intro c hc fence hf
    have hrev : fence.revision ≤ (m.apply c).revision := by
      rw [m.revision_apply]
      exact hf.trans (Nat.le_succ _)
    rw [mutate, List.foldl_cons, ← mutate, ih (hc.apply m) hrev, lastValue, ChangedSince,
      ChangedSince, m.recordRevisions_apply, JsMap.get_set, Option.isSome_or]
    by_cases hid : id = m.id
    · -- the revision of this call is ahead of the fence
      rw [if_pos hid, if_pos hid, Option.getD_some]
      simp [Nat.lt_succ_of_le hf]
    · rw [if_neg hid, if_neg hid]
      simp

/-- The overlay at an id that no call concerns. -/
theorem overlay_mutate {id : JsString} {ms : List (Mutation A R)} (h : lastValue ms id = none) :
    ∀ {c : EntityCache A R},
      JsMap.get id (c.mutate ms).bootstrapRecords = JsMap.get id c.bootstrapRecords := by
  induction ms with
  | nil => intro c; rfl
  | cons m ms ih =>
    intro c
    rw [lastValue, Option.or_eq_none_iff] at h
    have hid : id ≠ m.id := fun hid ↦ absurd h.2 (by rw [if_pos hid]; exact Option.some_ne_none _)
    rw [mutate, List.foldl_cons, ← mutate, ih h.1, m.get_bootstrapRecords_apply, if_neg hid]

/-- Nothing has changed since a fence that was just taken. -/
theorem not_changedSince_beginHydration {c : EntityCache A R} (h : c.Coherent) (id : JsString) :
    ¬c.ChangedSince c.beginHydration id := by
  rw [ChangedSince, not_lt]
  cases hr : JsMap.get id c.recordRevisions with
  | none => exact Nat.zero_le _
  | some r => exact h.revisions_le id r hr

/-- An id that is not in the overlay stays out of it until it is registered again. -/
theorem overlay_replay {id : JsString} {es : List (CacheEvent A R)}
    (hes : ∀ e ∈ es, ¬e.Registers id) : ∀ {c : EntityCache A R},
    JsMap.get id c.bootstrapRecords = none → JsMap.get id (c.replay es).bootstrapRecords = none := by
  induction es with
  | nil => intro c h; exact h
  | cons e es ih =>
    intro c h
    apply ih (fun e' he' ↦ hes e' (List.mem_cons_of_mem _ he'))
    cases e with
    | hydrate records fence => exact h
    | clear => rfl
    | mutate m =>
      rw [CacheEvent.apply, m.get_bootstrapRecords_apply, h, ite_eq_right_iff]
      rintro rfl
      cases m
      case registerBootstrapEntity => exact absurd rfl (hes _ List.mem_cons_self)
      all_goals rfl

end EntityCache

/-! ## Fenced hydration -/

/-- The purpose of fence and overlay: `c` takes the fence, the calls `ms` follow, then `hydrate`. -/
structure HydrationFenced (c : EntityCache A R) (ms : List (Mutation A R))
    (snapshot : List (EntityRecord A R)) : Prop where
  /-- A changed id keeps what its last call left. -/
  changed : ∀ id v, lastValue ms id = some v →
    ((c.mutate ms).hydrate snapshot (some c.beginHydration)).resolve id = v
  /-- A bootstrap entity stays as it is. -/
  bootstrap : ∀ id, lastValue ms id = none → (JsMap.get id c.bootstrapRecords).isSome →
    ((c.mutate ms).hydrate snapshot (some c.beginHydration)).resolve id = c.resolve id
  /-- Every other id is as in the snapshot. -/
  mirrored : ∀ id, lastValue ms id = none → JsMap.get id c.bootstrapRecords = none →
    ((c.mutate ms).hydrate snapshot (some c.beginHydration)).resolve id = lastRecord snapshot id
  /-- Once `m` has superseded or removed the entity of an id, and whatever happens then but a new
  registration, no `hydrate` puts a record there that is not in its snapshot. -/
  superseded : ∀ m : Mutation A R, m.Supersedes → ∀ es : List (CacheEvent A R),
    (∀ e ∈ es, ¬e.Registers m.id) → ∀ records fence r,
      ((((m.apply (c.mutate ms)).replay es)).hydrate records fence).resolve m.id = some r →
        ((m.apply (c.mutate ms)).replay es).resolve m.id = some r ∨ r ∈ records

/-- Every entity of the overlay is the record the cache holds. -/
def EntityCache.OverlayCurrent (c : EntityCache A R) : Prop :=
  ∀ id e, JsMap.get id c.bootstrapRecords = some e → c.resolve id = some e

theorem superseded_of_coherent {c : EntityCache A R} (h : c.Coherent) {m : Mutation A R}
    (hm : m.Supersedes) {es : List (CacheEvent A R)} (hes : ∀ e ∈ es, ¬e.Registers m.id)
    {records : List (EntityRecord A R)} {fence : Option EntityCacheHydrationFence}
    {r : EntityRecord A R} (hr : (((m.apply c).replay es).hydrate records fence).resolve m.id = some r) :
    ((m.apply c).replay es).resolve m.id = some r ∨ r ∈ records := by
  have hout : JsMap.get m.id (m.apply c).bootstrapRecords = none := by
    rw [m.get_bootstrapRecords_apply, if_pos rfl]
    cases m <;> first | rfl | exact hm.elim
  rw [EntityCache.resolve_hydrate ((h.apply m).replay es), EntityCache.overlay_replay hes hout,
    Option.none_or] at hr
  split_ifs at hr
  · exact Or.inl hr
  · exact Or.inr (mem_of_lastRecord hr)

/-- **Fenced hydration is right exactly when the overlay is current**, whatever happened before the
fence, whatever calls come after it and whatever the snapshot says. -/
theorem hydrate_fenced_iff (before : List (CacheEvent A R)) (ms : List (Mutation A R))
    (snapshot : List (EntityRecord A R)) :
    HydrationFenced (EntityCache.empty.replay before) ms snapshot ↔
      ((EntityCache.empty.replay before).mutate ms).OverlayCurrent := by
  have hc := EntityCache.coherent_empty.replay before
  generalize EntityCache.empty.replay before = c at hc
  have hleft := hc.mutate ms
  -- what the cache holds after `hydrate`, by whether the id has changed
  have hafter : ∀ id, ((c.mutate ms).hydrate snapshot (some c.beginHydration)).resolve id =
      (JsMap.get id (c.mutate ms).bootstrapRecords).or
        (if (lastValue ms id).isSome then (c.mutate ms).resolve id else lastRecord snapshot id) := by
    intro id
    rw [EntityCache.resolve_hydrate hleft]
    congr 1
    apply if_congr _ rfl rfl
    simp only [Option.mem_def, Option.some.injEq, exists_eq_left']
    rw [EntityCache.revisions_mutate id ms hc le_rfl]
    exact or_iff_right (EntityCache.not_changedSince_beginHydration hc id)
  constructor
  · intro h id e he
    have hin := hafter id
    rw [he, Option.some_or] at hin
    cases hlast : lastValue ms id with
    | some v =>
      rw [EntityCache.resolve_mutate, hlast, Option.getD_some, ← h.changed id v hlast, hin]
    | none =>
      rw [EntityCache.resolve_mutate, hlast, Option.getD_none]
      have hbefore := EntityCache.overlay_mutate hlast (c := c)
      rw [he] at hbefore
      rw [← h.bootstrap id hlast (by rw [← hbefore]; rfl), hin]
  · intro h
    have hcurrent : ∀ id, ((c.mutate ms).hydrate snapshot (some c.beginHydration)).resolve id =
        if (lastValue ms id).isSome ∨ (JsMap.get id (c.mutate ms).bootstrapRecords).isSome
        then (c.mutate ms).resolve id else lastRecord snapshot id := by
      intro id
      rw [hafter]
      cases ho : JsMap.get id (c.mutate ms).bootstrapRecords with
      | some e => rw [Option.some_or, if_pos (Or.inr Option.isSome_some), h id e ho]
      | none => simp
    refine ⟨fun id v hv ↦ ?_, fun id hv hb ↦ ?_, fun id hv hb ↦ ?_, fun m hm es hes records fence r ↦ ?_⟩
    · rw [hcurrent, if_pos (Or.inl (by rw [hv]; rfl)), EntityCache.resolve_mutate, hv,
        Option.getD_some]
    · rw [hcurrent, EntityCache.overlay_mutate hv, if_pos (Or.inr hb), EntityCache.resolve_mutate, hv,
        Option.getD_none]
    · rw [hcurrent, EntityCache.overlay_mutate hv, hv, hb]
      rfl
    · exact superseded_of_coherent hleft hm hes

/-- A bootstrap entity of the workspace source service. -/
def workspaceSource : BootstrapEntity Unit where
  id := lit "do:workspace-source"
  source := ⟨lit "workers/workspace-source", lit "1"⟩
  activeBuildKey := lit "build"
  activeExecutionDigest := lit "execution"
  activeAuthority := ()
  contextId := lit "ctx"
  className := lit "WorkspaceDO"
  key := lit "workspace"

/-- A bootstrap entity that retires after the fence is active again after `hydrate`. -/
theorem not_always_hydration_fenced : ¬∀ (before : List (CacheEvent Unit Unit))
    (ms : List (Mutation Unit Unit)) (snapshot : List (EntityRecord Unit Unit)),
    HydrationFenced (EntityCache.empty.replay before) ms snapshot := by
  intro h
  have hret := (h [] [.registerBootstrapEntity workspaceSource (lit "session") 0,
    .onRetire { workspaceSource.entry (lit "session") 0 with status := .retired }] []).changed
    workspaceSource.id (some { workspaceSource.entry (lit "session") 0 with status := .retired })
    (by decide +kernel)
  exact absurd hret (by decide +kernel)

end Vibestudio.Shared

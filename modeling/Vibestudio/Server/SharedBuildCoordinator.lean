import Mathlib
import Vibestudio.Js.Text
import Vibestudio.Sqlite.Table
import Vibestudio.Transition.Run

/-!
# The shared build coordinator

`src/server/buildV2/sharedBuildCoordinator.ts`: processes that share a result cache elect one producer for
each key, and admit compilers to one budget of slots, through three tables of a database that all of them
open. A transaction is one step here, and so is a statement outside of one. Whether a process is alive is
known exactly, and the identity of a process is never used again. Between two steps of a call any number
of steps of other calls and other processes may come; a process may stop at any point, and its calls end
with it while its rows stay until they are reaped.

What the priority of a request does to the compiler that works for it (`adoptDemand`) is left out, and so
are failures of the database and of the notification file.
-/

namespace Vibestudio.Server.SharedBuild

open Js Sqlite Transition

/-! ## Priorities and capacity -/

inductive BuildPriority where
  | interactive
  | background
  | speculative
  deriving DecidableEq

def rank : BuildPriority → ℕ
  | .interactive => 0
  | .background => 1
  | .speculative => 2

/-- The priority of a row. -/
def demandPriority (demand : ℕ) : BuildPriority :=
  if demand = 0 then .interactive else if demand = 1 then .background else .speculative

def hasBuildSlotCapacity (priority : BuildPriority)
    (activeBuilds activeNonInteractiveBuilds activeSpeculativeBuilds maxConcurrentBuilds : ℤ) : Bool :=
  if maxConcurrentBuilds ≤ activeBuilds then false
  else if priority = .interactive then true
  else if max 1 (maxConcurrentBuilds - 1) ≤ activeNonInteractiveBuilds then false
  else decide (priority = .background) || decide (activeSpeculativeBuilds < max 1 (maxConcurrentBuilds - 2))

/-! ## The database -/

inductive FlightState where
  | running
  | complete
  | failed
  deriving DecidableEq

/-- What the failure column holds: the error of a compiler, or `EBUILD_OWNER_EXIT`. -/
inductive Failure where
  | produce (error : JsString)
  | ownerExit
  deriving DecidableEq

structure FlightRow where
  id : ℕ
  owner : ℕ
  state : FlightState
  failure : Option Failure
  deriving DecidableEq

structure RequestRow where
  flight : ℕ
  owner : ℕ
  priority : ℕ
  deriving DecidableEq

/-- A row of `slots`; the rows are in the order of their sequence numbers. -/
structure SlotRow where
  owner : ℕ
  priority : ℕ
  running : Bool
  capacity : ℤ
  deriving DecidableEq

structure Database where
  flights : Table JsString FlightRow
  requests : Table ℕ RequestRow
  slots : Table ℕ SlotRow

namespace Database

variable (db : Database)

def requestCount (flight : ℕ) : ℕ := db.requests.count fun _ request ↦ decide (request.flight = flight)

/-- `SELECT * FROM flights WHERE id = ?`. -/
def flight? (id : ℕ) : Option FlightRow :=
  (db.flights.rows.find? fun r ↦ decide (r.2.id = id)).map Prod.snd

def settle (owner id : ℕ) (state : FlightState) (failure : Option Failure) : Database :=
  { db with
    flights := db.flights.map fun row ↦
      if row.id = id ∧ row.owner = owner ∧ row.state = .running then { row with state, failure } else row }

def retireSettled : Database :=
  { db with
    flights := db.flights.deleteWhere fun _ row ↦
      decide (row.state ≠ .running) && decide (db.requestCount row.id = 0) }

/-- The rows of a process that has exited. -/
def reapOwner (owner : ℕ) : Database where
  flights := db.flights.map fun row ↦
    if row.owner = owner ∧ row.state = .running then
      { row with state := .failed, failure := some .ownerExit }
    else row
  requests := db.requests.deleteWhere fun _ row ↦ decide (row.owner = owner)
  slots := db.slots.deleteWhere fun _ row ↦ decide (row.owner = owner)

/-- The processes that have rows. -/
def owners : List ℕ :=
  (((db.flights.rows.filter fun r ↦ decide (r.2.state = .running)).map fun r ↦ r.2.owner) ++
    db.requests.rows.map (fun r ↦ r.2.owner) ++ db.slots.rows.map fun r ↦ r.2.owner).dedup

def reap (self : ℕ) (cacheOwnerIsAlive : ℕ → Bool) : Database :=
  (db.owners.foldl (fun db owner ↦
    if owner = self ∨ cacheOwnerIsAlive owner = true then db else db.reapOwner owner) db).retireSettled

end Database

/-! ### Admission -/

def active (slots : Table ℕ SlotRow) : ℕ := slots.count fun _ slot ↦ slot.running

def nonInteractive (slots : Table ℕ SlotRow) : ℕ :=
  slots.count fun _ slot ↦ slot.running && decide (slot.priority ≠ 0)

def speculative (slots : Table ℕ SlotRow) : ℕ :=
  slots.count fun _ slot ↦ slot.running && decide (slot.priority = 2)

/-- The variables of the loop of `admitSlots`, beside the table. -/
structure Admission where
  slots : Table ℕ SlotRow
  active : ℕ
  nonInteractive : ℕ
  speculative : ℕ

/-- One pass of the loop. -/
def Admission.admitRow (capacity : ℤ) (a : Admission) (p : ℕ × SlotRow) : Admission :=
  if p.2.running = true then a
  else if hasBuildSlotCapacity (demandPriority p.2.priority) a.active a.nonInteractive a.speculative
      capacity = false then a
  else
    { slots := a.slots.update p.1 fun slot ↦ { slot with running := true }
      active := a.active + 1
      nonInteractive := if p.2.priority ≠ 0 then a.nonInteractive + 1 else a.nonInteractive
      speculative := if p.2.priority = 2 then a.speculative + 1 else a.speculative }

/-- `ORDER BY priority, sequence`. -/
def byPriority (slots : Table ℕ SlotRow) : List (ℕ × SlotRow) :=
  slots.rows.insertionSort fun p q ↦ p.2.priority ≤ q.2.priority

/-- Without slots `Math.min` is infinite, and there is nothing to admit. -/
def admitSlots (slots : Table ℕ SlotRow) : Table ℕ SlotRow :=
  match (slots.rows.map fun r ↦ r.2.capacity).min? with
  | none => slots
  | some capacity =>
    ((byPriority slots).foldl (Admission.admitRow capacity)
      ⟨slots, active slots, nonInteractive slots, speculative slots⟩).slots

/-! ## Calls in progress -/

/-- How the operation of `run` has ended, before the retirement of its request. -/
inductive Outcome where
  | produced
  | produceFailed (failure : Failure)
  /-- `{ produced: false }`. -/
  | shared
  | flightFailed (failure : Option Failure)
  | lostReceipt
  | aborted
  deriving DecidableEq

inductive RunPhase where
  /-- The producer compiles; any other call observes the flight. -/
  | operates
  | ended (outcome : Outcome)
  deriving DecidableEq

/-- A call of `run` after its election; `elected` is the row it was given, `count` what `requestCount` was. -/
structure RunCall where
  key : JsString
  owner : ℕ
  elected : FlightRow
  count : ℕ
  phase : RunPhase
  /-- The number of successful settlements before this call. -/
  since : ℕ
  deriving DecidableEq

namespace RunCall

/-- A call is the producer when the flight is of its process and the request the only one. -/
def producer (c : RunCall) : Bool := decide (c.elected.owner = c.owner) && decide (c.count = 1)

/-- A producer that has not settled. -/
def producing (c : RunCall) : Bool := c.producer && decide (c.phase = .operates)

def ends (c : RunCall) (outcome : Outcome) : RunCall := { c with phase := .ended outcome }

end RunCall

inductive SlotPhase where
  | queued
  | operates
  | ended
  deriving DecidableEq

structure SlotCall where
  owner : ℕ
  phase : SlotPhase
  deriving DecidableEq

/-! ## The system -/

structure World where
  /-- The live processes, with their capacities. -/
  processes : Table ℕ ℤ
  db : Database
  runs : Table ℕ RunCall
  slotCalls : Table ℕ SlotCall
  /-- The flights that a producer has settled successfully, with their keys, the first one first. -/
  settlements : List (JsString × ℕ)
  next : ℕ

def World.new : World := ⟨.empty, ⟨.empty, .empty, .empty⟩, .empty, .empty, [], 0⟩

namespace World

variable (w : World)

def cacheOwnerIsAlive (owner : ℕ) : Bool := (w.processes.get owner).isSome

/-- The database after the reaping of a transaction. -/
def reaped (self : ℕ) : World := { w with db := w.db.reap self w.cacheOwnerIsAlive }

/-- The flight of a key in the election, inserted when there is none. -/
def electedFlight (key : JsString) (owner : ℕ) : World × FlightRow :=
  match w.db.flights.get key with
  | some row => (w, row)
  | none =>
    let row : FlightRow := ⟨w.next, owner, .running, none⟩
    ({ w with db := { w.db with flights := w.db.flights.set key row }, next := w.next + 1 }, row)

/-- The request of a call is recorded, and the producer elected. -/
def elects (key : JsString) (owner : ℕ) (priority : BuildPriority) (row : FlightRow) : World :=
  let db := { w.db with requests := w.db.requests.set w.next ⟨row.id, owner, rank priority⟩ }
  { w with
    db
    runs := w.runs.set w.next ⟨key, owner, row, db.requestCount row.id, .operates, w.settlements.length⟩
    next := w.next + 1 }

/-- The operation of a call ends. -/
def endsRun (request : ℕ) (c : RunCall) (outcome : Outcome) : World :=
  { w with runs := w.runs.set request (c.ends outcome) }

/-- What `observe` does with the flight it finds. -/
def observes (request : ℕ) (c : RunCall) : World :=
  match w.db.flight? c.elected.id with
  | none => w.endsRun request c .lostReceipt
  | some row => match row.state with
    | .failed => w.endsRun request c (.flightFailed row.failure)
    | .complete => w.endsRun request c .shared
    | .running => w

/-- The producer is done, and settles its flight. -/
def settles (request : ℕ) (c : RunCall) (failure : Option Failure) : World :=
  match failure with
  | none =>
    { w.endsRun request c .produced with
      db := w.db.settle c.owner c.elected.id .complete none
      settlements := w.settlements ++ [(c.key, c.elected.id)] }
  | some error =>
    { w.endsRun request c (.produceFailed error) with
      db := w.db.settle c.owner c.elected.id .failed (some error) }

/-- The transaction that ends a call of `run`. -/
def retires (request : ℕ) : World :=
  { w with
    db := { w.db with requests := w.db.requests.delete request }.retireSettled
    runs := w.runs.delete request }

end World

inductive Event where
  | opens (capacity : ℤ)
  | exits (owner : ℕ)
  /-- `run`, up to its election. -/
  | run (key : JsString) (owner : ℕ) (priority : BuildPriority)
  | promotesRequest (request : ℕ) (next : BuildPriority)
  /-- A waiting call looks at its flight. -/
  | observes (request : ℕ)
  /-- A waiting call is aborted. -/
  | aborts (request : ℕ)
  /-- `produce` has ended, with a failure or without. -/
  | settles (request : ℕ) (failure : Option Failure)
  | retires (request : ℕ)
  /-- `withSlot`, up to the insertion of its slot. -/
  | withSlot (owner : ℕ) (priority : BuildPriority)
  | promotesSlot (slot : ℕ) (next : BuildPriority)
  /-- A queued call finds its slot running. -/
  | observesSlot (slot : ℕ)
  /-- The operation of `withSlot` has ended, or was aborted. -/
  | endsSlot (slot : ℕ)
  | retiresSlot (slot : ℕ)
  /-- The transaction of `changed`. -/
  | refresh (owner : ℕ)
  deriving DecidableEq

open World in
def step (w : World) : Event → Option World
  | .opens capacity =>
    some { w with processes := w.processes.set w.next capacity, next := w.next + 1 }
  | .exits owner =>
    some { w with
      processes := w.processes.delete owner
      runs := w.runs.deleteWhere fun _ c ↦ decide (c.owner = owner)
      slotCalls := w.slotCalls.deleteWhere fun _ c ↦ decide (c.owner = owner) }
  | .run key owner priority =>
    if w.cacheOwnerIsAlive owner = true then
      let (w, row) := (w.reaped owner).electedFlight key owner
      some (w.elects key owner priority row)
    else none
  | .promotesRequest request next => (w.runs.get request).bind fun _ ↦
    some { w with
      db := { w.db with
        requests := w.db.requests.update request fun row ↦
          { row with priority := min row.priority (rank next) } } }
  | .observes request => (w.runs.get request).bind fun c ↦
    if c.producer = false ∧ c.phase = .operates then some (w.observes request c) else none
  | .aborts request => (w.runs.get request).bind fun c ↦
    if c.producer = false ∧ c.phase = .operates then some (w.endsRun request c .aborted) else none
  | .settles request failure => (w.runs.get request).bind fun c ↦
    if c.producing = true then some (w.settles request c failure) else none
  | .retires request => (w.runs.get request).bind fun c ↦
    if c.phase ≠ .operates then some (w.retires request) else none
  | .withSlot owner priority => (w.processes.get owner).bind fun capacity ↦
    some { w with
      db := { w.db with slots := w.db.slots.set w.next ⟨owner, rank priority, false, capacity⟩ }
      slotCalls := w.slotCalls.set w.next ⟨owner, .queued⟩
      next := w.next + 1 }
  | .promotesSlot slot next => (w.slotCalls.get slot).bind fun c ↦
    if c.phase = .queued then
      some { w with
        db := { w.db with
          slots := w.db.slots.update slot fun row ↦
            if row.running = false then { row with priority := min row.priority (rank next) } else row } }
    else none
  | .observesSlot slot => (w.slotCalls.get slot).bind fun c ↦
    if c.phase = .queued ∧ (w.db.slots.get slot).map SlotRow.running = some true then
      some { w with slotCalls := w.slotCalls.set slot { c with phase := .operates } }
    else none
  | .endsSlot slot => (w.slotCalls.get slot).bind fun c ↦
    if c.phase ≠ .ended then some { w with slotCalls := w.slotCalls.set slot { c with phase := .ended } }
    else none
  | .retiresSlot slot => (w.slotCalls.get slot).bind fun c ↦
    if c.phase = .ended then
      some { w with
        db := { w.db with slots := w.db.slots.delete slot }
        slotCalls := w.slotCalls.delete slot }
    else none
  | .refresh owner =>
    if w.cacheOwnerIsAlive owner = true then
      let w := w.reaped owner
      some { w with db := { w.db with slots := admitSlots w.db.slots } }
    else none
/-! ## What holds between two steps -/

/-- A producer has settled the flight of a call, and since the call when the flight ran then. -/
def Settled (w : World) (c : RunCall) : Prop :=
  ∃ n, w.settlements[n]? = some (c.key, c.elected.id) ∧ (c.elected.state = .running → c.since ≤ n)

theorem Settled.mono {w w' : World} {c : RunCall} (h : Settled w c)
    (hprefixed : w.settlements <+: w'.settlements) : Settled w' c := by
  obtain ⟨n, hn, hsince⟩ := h
  obtain ⟨l, hl⟩ := hprefixed
  refine ⟨n, ?_, hsince⟩
  rw [← hl, List.getElem?_append_left (List.getElem?_eq_some_iff.mp hn).1, hn]

/-- A call in progress: its request is recorded, and holds the flight it was given. -/
structure CallOk (w : World) (request : ℕ) (c : RunCall) : Prop where
  alive : w.processes.get c.owner ≠ none
  request : ∃ priority, w.db.requests.get request = some ⟨c.elected.id, c.owner, priority⟩
  flight : ∃ row, w.db.flights.get c.key = some row ∧ row.id = c.elected.id ∧
    row.owner = c.elected.owner ∧ (row.state = .complete → Settled w c) ∧
    (c.producing = true → row.state = .running)
  since : c.since ≤ w.settlements.length
  joined : c.elected.state ≠ .running → 1 < c.count
  found : c.phase ≠ .ended .lostReceipt
  shared : c.phase = .ended .shared → Settled w c

/-- What every statement keeps, in the middle of a transaction too. -/
structure Core (w : World) : Prop where
  calls : ∀ r c, w.runs.get r = some c → CallOk w r c
  one : ∀ r r' c c', w.runs.get r = some c → w.runs.get r' = some c' → c.producing = true →
    c'.producing = true → c.elected.id = c'.elected.id → r = r'
  requests : ∀ r request, w.db.requests.get r = some request → r < w.next ∧
    ∃ key row, w.db.flights.get key = some row ∧ row.id = request.flight
  fresh : ∀ key row, w.db.flights.get key = some row → row.id < w.next
  unique : ∀ key key' row row', w.db.flights.get key = some row → w.db.flights.get key' = some row' →
    row.id = row'.id → key = key'
  logged : ∀ key row, w.db.flights.get key = some row → row.state = .complete →
    (key, row.id) ∈ w.settlements

/-- A settled flight has a request. -/
def Held (db : Database) : Prop :=
  ∀ key row, db.flights.get key = some row → row.state ≠ .running →
    ∃ r request, db.requests.get r = some request ∧ request.flight = row.id

structure Inv (w : World) : Prop extends Core w where
  held : Held w.db

/-! ### Statements that take rows away -/

/-- Requests are taken away, but for some that are kept, and flights that no request is for; the flights
of some processes fail. -/
structure Shrinks (kept : ℕ → ℕ → Prop) (gone : ℕ → Prop) (db db' : Database) : Prop where
  requests : ∀ r request', db'.requests.get r = some request' → ∃ request,
    db.requests.get r = some request ∧ request'.flight = request.flight ∧ request'.owner = request.owner
  keeps : ∀ r request, db.requests.get r = some request → kept r request.owner → ∃ request',
    db'.requests.get r = some request' ∧ request'.flight = request.flight ∧ request'.owner = request.owner
  flights : ∀ key row', db'.flights.get key = some row' → ∃ row, db.flights.get key = some row ∧
    row'.id = row.id ∧ row'.owner = row.owner ∧
    (row'.state = row.state ∨ row'.state = .failed ∧ gone row.owner)
  keepsFlights : ∀ key row, db.flights.get key = some row →
    (∃ r request', db'.requests.get r = some request' ∧ request'.flight = row.id) →
    ∃ row', db'.flights.get key = some row'

section Shrinks

variable {kept : ℕ → ℕ → Prop} {gone : ℕ → Prop} {db db' db'' : Database}

theorem Shrinks.refl : Shrinks kept gone db db where
  requests := fun _ request h ↦ ⟨request, h, rfl, rfl⟩
  keeps := fun _ request h _ ↦ ⟨request, h, rfl, rfl⟩
  flights := fun _ row h ↦ ⟨row, h, rfl, rfl, .inl rfl⟩
  keepsFlights := fun _ row h _ ↦ ⟨row, h⟩

/-- The slots do not count. -/
theorem Shrinks.slots {slots : Table ℕ SlotRow} (h : Shrinks kept gone db db') :
    Shrinks kept gone db { db' with slots } := ⟨h.requests, h.keeps, h.flights, h.keepsFlights⟩

theorem Shrinks.trans (h : Shrinks kept gone db db') (h' : Shrinks kept gone db' db'') :
    Shrinks kept gone db db'' where
  requests := by
    intro r request'' hr
    obtain ⟨request', hr', hflight', howner'⟩ := h'.requests r request'' hr
    obtain ⟨request, hr, hflight, howner⟩ := h.requests r request' hr'
    exact ⟨request, hr, hflight'.trans hflight, howner'.trans howner⟩
  keeps := by
    intro r request hr hkept
    obtain ⟨request', hr', hflight, howner⟩ := h.keeps r request hr hkept
    obtain ⟨request'', hr'', hflight', howner'⟩ := h'.keeps r request' hr' (howner ▸ hkept)
    exact ⟨request'', hr'', hflight'.trans hflight, howner'.trans howner⟩
  flights := by
    intro key row'' hrow''
    obtain ⟨row', hrow', hid', howner', hstate'⟩ := h'.flights key row'' hrow''
    obtain ⟨row, hrow, hid, howner, hstate⟩ := h.flights key row' hrow'
    refine ⟨row, hrow, hid'.trans hid, howner'.trans howner, ?_⟩
    rcases hstate' with hstate' | ⟨hstate', hgone⟩
    · rw [hstate']
      exact hstate
    · exact .inr ⟨hstate', howner ▸ hgone⟩
  keepsFlights := by
    rintro key row hrow ⟨r, request'', hr'', hflight''⟩
    obtain ⟨request', hr', hflight', -⟩ := h'.requests r request'' hr''
    obtain ⟨row', hrow'⟩ := h.keepsFlights key row hrow ⟨r, request', hr', hflight'.symm.trans hflight''⟩
    obtain ⟨row₀, hrow₀, hid, -⟩ := h.flights key row' hrow'
    obtain rfl := Option.some.inj (hrow.symm.trans hrow₀)
    exact h'.keepsFlights key row' hrow' ⟨r, request'', hr'', hflight''.trans hid.symm⟩

theorem Shrinks.reapOwner {owner : ℕ} (hgone : gone owner) (hkept : ∀ r o, kept r o → ¬gone o) :
    Shrinks kept gone db (db.reapOwner owner) where
  requests := by
    intro r request hr
    rw [Database.reapOwner, Table.get_deleteWhere, Option.filter_eq_some_iff] at hr
    exact ⟨request, hr.1, rfl, rfl⟩
  keeps := by
    intro r request hr hk
    have hne : request.owner ≠ owner := fun heq ↦ hkept r _ hk (heq ▸ hgone)
    refine ⟨request, ?_, rfl, rfl⟩
    rw [Database.reapOwner, Table.get_deleteWhere, hr, Option.filter_some, decide_eq_false hne]
    rfl
  flights := by
    intro key row' hrow'
    rw [Database.reapOwner, Table.get_map, Option.map_eq_some_iff] at hrow'
    obtain ⟨row, hrow, rfl⟩ := hrow'
    refine ⟨row, hrow, ?_⟩
    split_ifs with h
    · exact ⟨rfl, rfl, .inr ⟨rfl, h.1 ▸ hgone⟩⟩
    · exact ⟨rfl, rfl, .inl rfl⟩
  keepsFlights := by
    intro key row hrow _
    rw [Database.reapOwner, Table.get_map, hrow]
    exact ⟨_, rfl⟩

theorem Database.requestCount_eq_zero {id : ℕ} :
    db.requestCount id = 0 ↔ ∀ r request, db.requests.get r = some request → request.flight ≠ id := by
  rw [Database.requestCount, Table.count_eq_zero]
  exact forall₃_congr fun _ _ _ ↦ decide_eq_false_iff_not

/-- A flight stays when it runs or has a request. -/
theorem Database.get_retireSettled {key : JsString} {row : FlightRow} :
    db.retireSettled.flights.get key = some row ↔ db.flights.get key = some row ∧
      (row.state = .running ∨ db.requestCount row.id ≠ 0) := by
  rw [Database.retireSettled, Table.get_deleteWhere, Option.filter_eq_some_iff]
  refine and_congr_right fun _ ↦ ?_
  rw [Bool.not_eq_true', Bool.and_eq_false_iff, decide_eq_false_iff_not, decide_eq_false_iff_not, not_not]

theorem Shrinks.retireSettled : Shrinks kept gone db db.retireSettled where
  requests := fun _ request h ↦ ⟨request, h, rfl, rfl⟩
  keeps := fun _ request h _ ↦ ⟨request, h, rfl, rfl⟩
  flights := fun _ row h ↦ ⟨row, (Database.get_retireSettled.mp h).1, rfl, rfl, .inl rfl⟩
  keepsFlights := by
    rintro key row hrow ⟨r, request, hr, hflight⟩
    refine ⟨row, Database.get_retireSettled.mpr ⟨hrow, .inr fun hzero ↦ ?_⟩⟩
    exact Database.requestCount_eq_zero.mp hzero r request hr hflight

theorem held_retireSettled (db : Database) : Held db.retireSettled := by
  intro key row hrow hstate
  have hcount : db.requestCount row.id ≠ 0 :=
    (Database.get_retireSettled.mp hrow).2.resolve_left hstate
  rw [Ne, Database.requestCount_eq_zero] at hcount
  push Not at hcount
  exact hcount

theorem Shrinks.reap {self : ℕ} {alive : ℕ → Bool} (hgone : ∀ o, alive o = false → gone o)
    (hkept : ∀ r o, kept r o → ¬gone o) : Shrinks kept gone db (db.reap self alive) := by
  have hfold : ∀ (owners : List ℕ) (db' : Database), Shrinks kept gone db db' →
      Shrinks kept gone db (owners.foldl (fun db owner ↦
        if owner = self ∨ alive owner = true then db else db.reapOwner owner) db') := by
    intro owners
    induction owners with
    | nil => exact fun _ h ↦ h
    | cons owner owners ih =>
      intro db' h
      rw [List.foldl_cons]
      apply ih
      split_ifs with hlive
      · exact h
      · have hdead : alive owner = false := Bool.eq_false_iff.mpr fun ht ↦ hlive (.inr ht)
        exact h.trans (.reapOwner (hgone owner hdead) hkept)
  exact (hfold db.owners db .refl).trans .retireSettled

theorem Shrinks.deleteRequest (request : ℕ) :
    Shrinks (fun r _ ↦ r ≠ request) (fun _ ↦ False) db
      { db with requests := db.requests.delete request } where
  requests := by
    intro r row hr
    rw [Table.get_delete] at hr
    split_ifs at hr
    exact ⟨row, hr, rfl, rfl⟩
  keeps := fun r row hr hne ↦ ⟨row, (Table.get_delete_of_ne _ hne).trans hr, rfl, rfl⟩
  flights := fun _ row h ↦ ⟨row, h, rfl, rfl, .inl rfl⟩
  keepsFlights := fun _ row h _ ↦ ⟨row, h⟩

theorem Shrinks.promotes (request priority : ℕ) :
    Shrinks (fun _ _ ↦ True) (fun _ ↦ False) db
      { db with
        requests := db.requests.update request fun row ↦
          { row with priority := min row.priority priority } } where
  requests := by
    intro r row' hr
    rw [Table.get_update] at hr
    split_ifs at hr with heq
    · obtain ⟨row, hrow, rfl⟩ := Option.map_eq_some_iff.mp hr
      exact ⟨row, heq ▸ hrow, rfl, rfl⟩
    · exact ⟨row', hr, rfl, rfl⟩
  keeps := by
    intro r row hr _
    by_cases heq : r = request
    · subst heq
      refine ⟨{ row with priority := min row.priority priority }, ?_, rfl, rfl⟩
      rw [Table.get_update, if_pos rfl, hr]
      rfl
    · exact ⟨row, by rw [Table.get_update, if_neg heq, hr], rfl, rfl⟩
  flights := fun _ row h ↦ ⟨row, h, rfl, rfl, .inl rfl⟩
  keepsFlights := fun _ row h _ ↦ ⟨row, h⟩

end Shrinks

section Core

variable {w w' : World}

theorem Core.shrinks {kept : ℕ → ℕ → Prop} {gone : ℕ → Prop} (h : Core w)
    (hdb : Shrinks kept gone w.db w'.db)
    (hruns : ∀ r c, w'.runs.get r = some c → w.runs.get r = some c ∧ kept r c.owner ∧ ¬gone c.owner ∧
      w'.processes.get c.owner ≠ none)
    (hlog : w'.settlements = w.settlements) (hnext : w.next ≤ w'.next) : Core w' where
  calls := by
    intro r c hc
    obtain ⟨hold, hkept, hgone, halive⟩ := hruns r c hc
    have hok := h.calls r c hold
    obtain ⟨priority, hrequest⟩ := hok.request
    obtain ⟨⟨flight, owner, priority'⟩, hrequest', hflight, howner⟩ := hdb.keeps r _ hrequest hkept
    obtain ⟨row, hrow, hid, hrowOwner, hcomplete, hrunning⟩ := hok.flight
    -- the request of the call keeps its flight
    obtain ⟨row', hrow'⟩ := hdb.keepsFlights c.key row hrow ⟨r, _, hrequest', hflight.trans hid.symm⟩
    obtain ⟨row₀, hrow₀, hid', howner', hstate⟩ := hdb.flights c.key row' hrow'
    obtain rfl := Option.some.inj (hrow.symm.trans hrow₀)
    have hsettled : Settled w c → Settled w' c := fun hs ↦ hs.mono (hlog ▸ List.prefix_rfl)
    refine ⟨halive, ⟨priority', ?_⟩, ⟨row', hrow', hid'.trans hid, howner'.trans hrowOwner, ?_, ?_⟩,
      hlog ▸ hok.since, hok.joined, hok.found, fun hs ↦ hsettled (hok.shared hs)⟩
    · dsimp only at hflight howner
      rw [hrequest', hflight, howner]
    · intro hs
      rcases hstate with hstate | ⟨hstate, -⟩
      · exact hsettled (hcomplete (hstate ▸ hs))
      · exact nomatch hstate.symm.trans hs
    · intro hproducing
      rcases hstate with hstate | ⟨-, hdead⟩
      · exact hstate.trans (hrunning hproducing)
      · have howns : c.elected.owner = c.owner := by
          simp only [RunCall.producing, RunCall.producer, Bool.and_eq_true, decide_eq_true_eq] at hproducing
          exact hproducing.1.1
        exact absurd (howns ▸ hrowOwner ▸ hdead) hgone
  one := fun r r' c c' hc hc' ↦ h.one r r' c c' (hruns r c hc).1 (hruns r' c' hc').1
  requests := by
    intro r request' hr'
    obtain ⟨request, hr, hflight, -⟩ := hdb.requests r request' hr'
    obtain ⟨hlt, key, row, hrow, hid⟩ := h.requests r request hr
    have hid' : request'.flight = row.id := hflight.trans hid.symm
    obtain ⟨row', hrow'⟩ := hdb.keepsFlights key row hrow ⟨r, request', hr', hid'⟩
    obtain ⟨row₀, hrow₀, hsame, -⟩ := hdb.flights key row' hrow'
    obtain rfl := Option.some.inj (hrow.symm.trans hrow₀)
    exact ⟨hlt.trans_le hnext, key, row', hrow', hsame.trans hid'.symm⟩
  fresh := by
    intro key row' hrow'
    obtain ⟨row, hrow, hid, -⟩ := hdb.flights key row' hrow'
    exact hid ▸ (h.fresh key row hrow).trans_le hnext
  unique := by
    intro key key' row₁ row₂ h₁ h₂ heq
    obtain ⟨row, hrow, hid, -⟩ := hdb.flights key row₁ h₁
    obtain ⟨row', hrow', hid', -⟩ := hdb.flights key' row₂ h₂
    exact h.unique key key' row row' hrow hrow' (hid.symm.trans (heq.trans hid'))
  logged := by
    intro key row' hrow' hcomplete
    obtain ⟨row, hrow, hid, -, hstate⟩ := hdb.flights key row' hrow'
    rcases hstate with hstate | ⟨hstate, -⟩
    · rw [hlog, hid]
      exact h.logged key row hrow (hstate ▸ hcomplete)
    · exact nomatch hstate.symm.trans hcomplete

theorem Core.reaped (h : Core w) (self : ℕ) : Core (w.reaped self) := by
  have hdb : Shrinks (fun _ o ↦ w.processes.get o ≠ none) (fun o ↦ w.processes.get o = none) w.db
      (w.reaped self).db :=
    .reap (fun o ho ↦ Option.isSome_eq_false_iff.mp ho |> Option.isNone_iff_eq_none.mp) fun _ _ hne ↦ hne
  refine h.shrinks hdb (fun r c hc ↦ ?_) rfl le_rfl
  have halive := (h.calls r c hc).alive
  exact ⟨hc, halive, halive, halive⟩

theorem held_reaped (w : World) (self : ℕ) : Held (w.reaped self).db := held_retireSettled _

/-- A call that has ended produces no more. -/
@[simp] theorem RunCall.producing_ends (c : RunCall) (outcome : Outcome) :
    (c.ends outcome).producing = false := by
  rw [RunCall.producing, RunCall.ends, Bool.and_eq_false_iff]
  exact .inr rfl

theorem Core.endsRun (h : Core w) {request : ℕ} {c : RunCall} (hc : w.runs.get request = some c)
    {outcome : Outcome} (hfound : outcome ≠ .lostReceipt) (hshared : outcome = .shared → Settled w c) :
    Core (w.endsRun request c outcome) where
  calls := by
    intro r c' hc'
    rw [World.endsRun, Table.get_set] at hc'
    split_ifs at hc' with heq
    · obtain rfl := Option.some.inj hc'
      subst heq
      have hok := h.calls r c hc
      obtain ⟨row, hrow, hid, howner, hcomplete, -⟩ := hok.flight
      refine ⟨hok.alive, hok.request, ⟨row, hrow, hid, howner, hcomplete, fun hp ↦ ?_⟩, hok.since, hok.joined,
        fun hl ↦ hfound (RunPhase.ended.inj hl), fun hs ↦ hshared (RunPhase.ended.inj hs)⟩
      exact absurd hp (by rw [RunCall.producing_ends]; exact Bool.false_ne_true)
    · have hok := h.calls r c' hc'
      exact ⟨hok.alive, hok.request, hok.flight, hok.since, hok.joined, hok.found, hok.shared⟩
  one := by
    intro r r' c₁ c₂ hc₁ hc₂ hp₁ hp₂
    rw [World.endsRun, Table.get_set] at hc₁ hc₂
    split_ifs at hc₁ with heq₁
    · rw [← Option.some.inj hc₁, RunCall.producing_ends] at hp₁
      cases hp₁
    split_ifs at hc₂ with heq₂
    · rw [← Option.some.inj hc₂, RunCall.producing_ends] at hp₂
      cases hp₂
    exact h.one r r' c₁ c₂ hc₁ hc₂ hp₁ hp₂
  requests := h.requests
  fresh := h.fresh
  unique := h.unique
  logged := h.logged

/-- A flight whose producer is done is settled. -/
theorem Core.settle (h : Core w) {owner id : ℕ} {key : JsString} {state : FlightState}
    {failure : Option Failure} {log : List (JsString × ℕ)}
    (hproducer : ∀ r c, w.runs.get r = some c → c.producing = true → c.elected.id ≠ id)
    (hkey : ∀ key' row, w.db.flights.get key' = some row → row.id = id → key' = key)
    (hprefixed : w.settlements <+: log) (hlog : state = .complete → log = w.settlements ++ [(key, id)]) :
    Core { w with
      db := w.db.settle owner id state failure
      settlements := log } := by
  -- what the update does to the row of a key
  have hget : ∀ key' row', (w.db.settle owner id state failure).flights.get key' = some row' →
      ∃ row, w.db.flights.get key' = some row ∧ row'.id = row.id ∧ row'.owner = row.owner ∧
        (row'.state = row.state ∨ row.id = id ∧ row'.state = state) := by
    intro key' row' hrow'
    rw [Database.settle, Table.get_map, Option.map_eq_some_iff] at hrow'
    obtain ⟨row, hrow, rfl⟩ := hrow'
    refine ⟨row, hrow, ?_⟩
    split_ifs with hif
    · exact ⟨rfl, rfl, .inr ⟨hif.1, rfl⟩⟩
    · exact ⟨rfl, rfl, .inl rfl⟩
  have hstays : ∀ key' row, w.db.flights.get key' = some row →
      ∃ row', (w.db.settle owner id state failure).flights.get key' = some row' := by
    intro key' row hrow
    rw [Database.settle, Table.get_map, hrow]
    exact ⟨_, rfl⟩
  constructor
  case calls =>
    intro r c hc
    have hok := h.calls r c hc
    obtain ⟨row, hrow, hid, howner, hcomplete, hrunning⟩ := hok.flight
    obtain ⟨row', hrow'⟩ := hstays c.key row hrow
    obtain ⟨row₀, hrow₀, hid', howner', hstate⟩ := hget c.key row' hrow'
    obtain rfl := Option.some.inj (hrow.symm.trans hrow₀)
    refine ⟨hok.alive, hok.request, ⟨row', hrow', hid'.trans hid, howner'.trans howner, ?_, ?_⟩,
      hok.since.trans hprefixed.length_le, hok.joined, hok.found, fun hs ↦ (hok.shared hs).mono hprefixed⟩
    · intro hs
      rcases hstate with hstate | ⟨hsame, hstate⟩
      · exact (hcomplete (hstate ▸ hs)).mono hprefixed
      · -- the new entry of the log is the one for this call
        have hl := hlog (hstate.symm.trans hs)
        have hkey' : c.key = key := hkey c.key row hrow hsame
        refine ⟨w.settlements.length, ?_, fun _ ↦ hok.since⟩
        dsimp only
        rw [hl, List.getElem?_append_right le_rfl, Nat.sub_self, hkey', ← hid, hsame]
        rfl
    · intro hp
      rcases hstate with hstate | ⟨hsame, -⟩
      · exact hstate.trans (hrunning hp)
      · exact absurd (hid.symm.trans hsame) (hproducer r c hc hp)
  case one => exact h.one
  case requests =>
    intro r request hr
    obtain ⟨hlt, key', row, hrow, hid⟩ := h.requests r request hr
    obtain ⟨row', hrow'⟩ := hstays key' row hrow
    obtain ⟨row₀, hrow₀, hid', -⟩ := hget key' row' hrow'
    obtain rfl := Option.some.inj (hrow.symm.trans hrow₀)
    exact ⟨hlt, key', row', hrow', hid'.trans hid⟩
  case fresh =>
    intro key' row' hrow'
    obtain ⟨row, hrow, hid, -⟩ := hget key' row' hrow'
    exact hid ▸ h.fresh key' row hrow
  case unique =>
    intro key₁ key₂ row₁ row₂ h₁ h₂ heq
    obtain ⟨row, hrow, hid, -⟩ := hget key₁ row₁ h₁
    obtain ⟨row', hrow', hid', -⟩ := hget key₂ row₂ h₂
    exact h.unique key₁ key₂ row row' hrow hrow' (hid.symm.trans (heq.trans hid'))
  case logged =>
    intro key' row' hrow' hcomplete
    obtain ⟨row, hrow, hid, -, hstate⟩ := hget key' row' hrow'
    rw [hid]
    rcases hstate with hstate | ⟨hsame, hstate⟩
    · exact hprefixed.subset (h.logged key' row hrow (hstate ▸ hcomplete))
    · rw [hlog (hstate.symm.trans hcomplete), hkey key' row hrow hsame, hsame]
      exact List.mem_append_right _ (List.mem_singleton_self _)

/-- The flight of a key that has none. -/
theorem Core.insertsFlight (h : Core w) {key : JsString} (hnone : w.db.flights.get key = none) (owner : ℕ) :
    Core { w with
      db := { w.db with flights := w.db.flights.set key ⟨w.next, owner, .running, none⟩ }
      next := w.next + 1 } := by
  have hne : ∀ key' row, w.db.flights.get key' = some row → key' ≠ key := by
    rintro key' row hrow rfl
    cases hnone.symm.trans hrow
  have hstays : ∀ key' row, w.db.flights.get key' = some row →
      (w.db.flights.set key ⟨w.next, owner, .running, none⟩).get key' = some row := fun key' row hrow ↦
    (Table.get_set_of_ne _ (hne key' row hrow) _).trans hrow
  constructor
  case calls =>
    intro r c hc
    have hok := h.calls r c hc
    obtain ⟨row, hrow, hrest⟩ := hok.flight
    exact ⟨hok.alive, hok.request, ⟨row, hstays _ row hrow, hrest⟩, hok.since, hok.joined, hok.found, hok.shared⟩
  case one => exact h.one
  case requests =>
    intro r request hr
    obtain ⟨hlt, key', row, hrow, hid⟩ := h.requests r request hr
    exact ⟨hlt.trans (Nat.lt_succ_self _), key', row, hstays _ row hrow, hid⟩
  case fresh =>
    intro key' row hrow
    rw [Table.get_set] at hrow
    split_ifs at hrow
    · rw [← Option.some.inj hrow]
      exact Nat.lt_succ_self _
    · exact (h.fresh key' row hrow).trans (Nat.lt_succ_self _)
  case unique =>
    intro key₁ key₂ row₁ row₂ h₁ h₂ heq
    rw [Table.get_set] at h₁ h₂
    split_ifs at h₁ with hk₁ <;> split_ifs at h₂ with hk₂
    · exact hk₁.trans hk₂.symm
    · rw [← Option.some.inj h₁] at heq
      exact absurd heq.symm (h.fresh key₂ row₂ h₂).ne
    · rw [← Option.some.inj h₂] at heq
      exact absurd heq (h.fresh key₁ row₁ h₁).ne
    · exact h.unique key₁ key₂ row₁ row₂ h₁ h₂ heq
  case logged =>
    intro key' row hrow hcomplete
    rw [Table.get_set] at hrow
    split_ifs at hrow
    · rw [← Option.some.inj hrow] at hcomplete
      cases hcomplete
    · exact h.logged key' row hrow hcomplete

/-- The count of an election is one only when the flight had no request. -/
theorem Core.count_elects (h : Core w) {row : FlightRow} {owner : ℕ} {priority : ℕ} :
    ({ w.db with requests := w.db.requests.set w.next ⟨row.id, owner, priority⟩ } : Database).requestCount
      row.id = w.db.requestCount row.id + 1 := by
  have hnone : w.db.requests.get w.next = none := by
    refine Option.eq_none_iff_forall_ne_some.mpr fun request hr ↦ ?_
    exact lt_irrefl _ (h.requests w.next request hr).1
  rw [Database.requestCount, Table.count_set_new hnone, decide_eq_true rfl]
  rfl

theorem Inv.elects (h : Inv w) {key : JsString} {owner : ℕ} {row : FlightRow}
    (hrow : w.db.flights.get key = some row) (halive : w.processes.get owner ≠ none)
    (priority : BuildPriority) : Inv (w.elects key owner priority row) := by
  have hold : ∀ r request, w.db.requests.get r = some request →
      (w.db.requests.set w.next ⟨row.id, owner, rank priority⟩).get r = some request := fun r request hr ↦
    (Table.get_set_of_ne _ (h.requests r request hr).1.ne _).trans hr
  have hheld : row.state ≠ .running → 0 < w.db.requestCount row.id := by
    intro hstate
    refine Nat.pos_of_ne_zero fun hzero ↦ ?_
    obtain ⟨r, request, hr, hflight⟩ := h.held key row hrow hstate
    exact Database.requestCount_eq_zero.mp hzero r request hr hflight
  -- the new call is the producer only when it is alone
  have hone : ∀ c : RunCall, c.count = w.db.requestCount row.id + 1 → c.producing = true →
      w.db.requestCount row.id = 0 := by
    intro c hcount hp
    simp only [RunCall.producing, RunCall.producer, Bool.and_eq_true, decide_eq_true_eq] at hp
    have := hp.1.2
    omega
  refine ⟨⟨?_, ?_, ?_, ?_, h.unique, h.logged⟩, ?_⟩
  · intro r c hc
    rw [World.elects, Table.get_set] at hc
    split_ifs at hc with heq
    · obtain rfl := Option.some.inj hc
      subst heq
      refine ⟨halive, ⟨rank priority, Table.get_set_self _ _ _⟩, ⟨row, hrow, rfl, rfl, fun hs ↦ ?_, fun hp ↦ ?_⟩,
        le_rfl, fun hs ↦ ?_, (by rintro ⟨⟩), (by rintro ⟨⟩)⟩
      · obtain ⟨n, hn⟩ := List.mem_iff_getElem?.mp (h.logged key row hrow hs)
        exact ⟨n, hn, fun hr ↦ (by cases hs.symm.trans hr)⟩
      · by_contra hstate
        exact (hheld hstate).ne' (hone _ h.count_elects hp)
      · exact (Nat.succ_lt_succ (hheld hs)).trans_eq h.count_elects.symm
    · have hok := h.calls r c hc
      obtain ⟨p, hp⟩ := hok.request
      exact ⟨hok.alive, ⟨p, hold r _ hp⟩, hok.flight, hok.since, hok.joined, hok.found, hok.shared⟩
  · intro r r' c c' hc hc' hp hp' hid
    -- an older call of the flight has a request
    have hother : ∀ r₀ c₀, w.runs.get r₀ = some c₀ → c₀.elected.id = row.id → w.db.requestCount row.id ≠ 0 := by
      intro r₀ c₀ hc₀ hid₀ hzero
      obtain ⟨p, hreq⟩ := (h.calls r₀ c₀ hc₀).request
      exact Database.requestCount_eq_zero.mp hzero r₀ _ hreq hid₀
    rw [World.elects, Table.get_set] at hc hc'
    split_ifs at hc with heq <;> split_ifs at hc' with heq'
    · exact heq.trans heq'.symm
    · obtain rfl := Option.some.inj hc
      exact absurd (hone _ h.count_elects hp) (hother r' c' hc' hid.symm)
    · obtain rfl := Option.some.inj hc'
      exact absurd (hone _ h.count_elects hp') (hother r c hc hid)
    · exact h.one r r' c c' hc hc' hp hp' hid
  · intro r request hr
    dsimp only [World.elects] at hr
    rw [Table.get_set] at hr
    split_ifs at hr with heq
    · obtain rfl := Option.some.inj hr
      exact ⟨heq ▸ Nat.lt_succ_self _, key, row, hrow, rfl⟩
    · obtain ⟨hlt, hflight⟩ := h.requests r request hr
      exact ⟨hlt.trans (Nat.lt_succ_self _), hflight⟩
  · exact fun key' row' hrow' ↦ (h.fresh key' row' hrow').trans (Nat.lt_succ_self _)
  · intro key' row' hrow' hstate
    obtain ⟨r, request, hr, hflight⟩ := h.held key' row' hrow' hstate
    exact ⟨r, request, hold r request hr, hflight⟩

end Core

/-! ### Events -/

section Step

variable {w w' : World}

/-- The flight of a call is found under its id. -/
theorem Core.flight? (h : Core w) {key : JsString} {row : FlightRow}
    (hrow : w.db.flights.get key = some row) : w.db.flight? row.id = some row := by
  have hmem : (key, row) ∈ w.db.flights.rows := (Table.mem_rows _).mpr hrow
  obtain ⟨⟨key', row'⟩, hfind⟩ : ∃ p, w.db.flights.rows.find? (fun r ↦ decide (r.2.id = row.id)) = some p :=
    Option.isSome_iff_exists.mp (List.find?_isSome.mpr ⟨_, hmem, decide_eq_true rfl⟩)
  have hrow' : w.db.flights.get key' = some row' :=
    (Table.mem_rows _).mp (List.mem_of_find?_eq_some hfind)
  have hid : row'.id = row.id := by simpa using List.find?_some hfind
  obtain rfl := h.unique key' key row' row hrow' hrow hid
  rw [Database.flight?, hfind, Option.map_some, Option.some.inj (hrow.symm.trans hrow')]

theorem Inv.observes (h : Inv w) {request : ℕ} {c : RunCall} (hc : w.runs.get request = some c) :
    Inv (w.observes request c) := by
  obtain ⟨row, hrow, hid, -, hcomplete, -⟩ := (h.calls request c hc).flight
  rw [World.observes, ← hid, h.flight? hrow]
  dsimp only
  split
  · exact ⟨h.endsRun hc nofun nofun, h.held⟩
  · next hs => exact ⟨h.endsRun hc nofun fun _ ↦ hcomplete hs, h.held⟩
  · exact h

theorem Inv.settles (h : Inv w) {request : ℕ} {c : RunCall} (hc : w.runs.get request = some c)
    (hp : c.producing = true) (failure : Option Failure) : Inv (w.settles request c failure) := by
  obtain ⟨row, hrow, hid, -⟩ := (h.calls request c hc).flight
  obtain ⟨priority, hrequest⟩ := (h.calls request c hc).request
  have hkey : ∀ key row', w.db.flights.get key = some row' → row'.id = c.elected.id → key = c.key :=
    fun key row' hrow' hid' ↦ h.unique key c.key row' row hrow' hrow (hid'.trans hid.symm)
  -- the call that settles was the only producer of the flight
  have hothers : ∀ outcome r c', (w.endsRun request c outcome).runs.get r = some c' → c'.producing = true →
      c'.elected.id ≠ c.elected.id := by
    intro outcome r c' hc' hp' hsame
    rw [World.endsRun, Table.get_set] at hc'
    split_ifs at hc' with heq
    · rw [← Option.some.inj hc', RunCall.producing_ends] at hp'
      cases hp'
    · exact heq (h.one r request c' c hc' hc hp' hp hsame)
  have hheld : ∀ state failure', Held (w.db.settle c.owner c.elected.id state failure') := by
    intro state failure' key row' hrow' hstate
    rw [Database.settle, Table.get_map, Option.map_eq_some_iff] at hrow'
    obtain ⟨row₀, hrow₀, rfl⟩ := hrow'
    split_ifs at hstate ⊢ with hif
    · exact ⟨request, _, hrequest, hif.1.symm⟩
    · exact h.held key row₀ hrow₀ hstate
  cases failure with
  | none =>
    have hended : Core (w.endsRun request c .produced) := h.endsRun hc (by rintro ⟨⟩) (by rintro ⟨⟩)
    exact ⟨hended.settle (hothers _) hkey (List.prefix_append _ _) fun _ ↦ rfl, hheld _ _⟩
  | some error =>
    have hended : Core (w.endsRun request c (.produceFailed error)) := h.endsRun hc (by rintro ⟨⟩) (by rintro ⟨⟩)
    exact ⟨hended.settle (hothers _) hkey List.prefix_rfl (by rintro ⟨⟩), hheld _ _⟩

theorem Inv.run (h : Inv w) {owner : ℕ} (halive : w.cacheOwnerIsAlive owner = true) (key : JsString)
    (priority : BuildPriority) : Inv (((w.reaped owner).electedFlight key owner).1.elects key owner priority
      ((w.reaped owner).electedFlight key owner).2) := by
  have hreaped : Core (w.reaped owner) := h.reaped owner
  have halive' : w.processes.get owner ≠ none := Option.isSome_iff_ne_none.mp halive
  rw [World.electedFlight]
  cases hrow : (w.reaped owner).db.flights.get key with
  | some row =>
    have hinv : Inv (w.reaped owner) := ⟨hreaped, held_reaped w owner⟩
    exact hinv.elects hrow halive' priority
  | none =>
    refine Inv.elects ⟨hreaped.insertsFlight hrow owner, ?_⟩ (Table.get_set_self _ _ _) halive' priority
    intro key' row hrow' hstate
    rw [Table.get_set] at hrow'
    split_ifs at hrow'
    · rw [← Option.some.inj hrow'] at hstate
      exact absurd rfl hstate
    · exact held_reaped w owner key' row hrow' hstate

/-- Steps that change neither calls, flights nor requests. -/
theorem Inv.same (h : Inv w) (hflights : w'.db.flights = w.db.flights)
    (hrequests : w'.db.requests = w.db.requests) (hruns : w'.runs = w.runs)
    (hprocesses : ∀ owner, w.processes.get owner ≠ none → w'.processes.get owner ≠ none)
    (hlog : w'.settlements = w.settlements) (hnext : w.next ≤ w'.next) : Inv w' := by
  have hdb : Shrinks (fun _ _ ↦ True) (fun _ ↦ False) w.db w'.db := by
    have hslots : w'.db = { w.db with slots := w'.db.slots } := by
      cases hw : w'.db
      rw [hw] at hflights hrequests
      dsimp only at hflights hrequests ⊢
      rw [hflights, hrequests]
    rw [hslots]
    exact Shrinks.refl.slots
  refine ⟨h.shrinks hdb (fun r c hc ↦ ?_) hlog hnext, ?_⟩
  · rw [hruns] at hc
    exact ⟨hc, trivial, id, hprocesses _ (h.calls r c hc).alive⟩
  · intro key row hrow hstate
    rw [hrequests]
    exact h.held key row (hflights ▸ hrow) hstate

theorem Inv.step (h : Inv w) {e : Event} (hs : step w e = some w') : Inv w' := by
  cases e with
  | opens capacity =>
    obtain rfl := Option.some.inj hs
    refine h.same rfl rfl rfl (fun owner howner ↦ ?_) rfl (Nat.le_succ _)
    rw [Table.get_set]
    split_ifs
    · exact Option.some_ne_none _
    · exact howner
  | exits owner =>
    obtain rfl := Option.some.inj hs
    have hdb : Shrinks (fun _ _ ↦ True) (fun _ ↦ False) w.db w.db := .refl
    refine ⟨h.shrinks hdb (fun r c hc ↦ ?_) rfl le_rfl, h.held⟩
    rw [Table.get_deleteWhere, Option.filter_eq_some_iff, Bool.not_eq_true', decide_eq_false_iff_not] at hc
    obtain ⟨hc, hne⟩ := hc
    refine ⟨hc, trivial, id, ?_⟩
    rw [Table.get_delete_of_ne _ hne]
    exact (h.calls r c hc).alive
  | run key owner priority =>
    unfold SharedBuild.step at hs
    dsimp only at hs
    split_ifs at hs with halive
    exact Option.some.inj hs ▸ h.run halive key priority
  | promotesRequest request next =>
    obtain ⟨c, hc, hs⟩ := Option.bind_eq_some_iff.mp hs
    obtain rfl := Option.some.inj hs
    refine ⟨h.shrinks (.promotes request (rank next))
      (fun r c hc ↦ ⟨hc, trivial, id, (h.calls r c hc).alive⟩) rfl le_rfl, ?_⟩
    intro key row hrow hstate
    obtain ⟨r, row', hr, hflight⟩ := h.held key row hrow hstate
    obtain ⟨row'', hr', hflight', -⟩ := (Shrinks.promotes request (rank next)).keeps r row' hr trivial
    exact ⟨r, row'', hr', hflight'.trans hflight⟩
  | observes request =>
    obtain ⟨c, hc, hs⟩ := Option.bind_eq_some_iff.mp hs
    split_ifs at hs
    exact Option.some.inj hs ▸ h.observes hc
  | aborts request =>
    obtain ⟨c, hc, hs⟩ := Option.bind_eq_some_iff.mp hs
    split_ifs at hs
    obtain rfl := Option.some.inj hs
    exact ⟨h.endsRun hc (by rintro ⟨⟩) (by rintro ⟨⟩), h.held⟩
  | settles request failure =>
    obtain ⟨c, hc, hs⟩ := Option.bind_eq_some_iff.mp hs
    split_ifs at hs with hp
    exact Option.some.inj hs ▸ h.settles hc hp failure
  | retires request =>
    obtain ⟨c, hc, hs⟩ := Option.bind_eq_some_iff.mp hs
    split_ifs at hs
    obtain rfl := Option.some.inj hs
    refine ⟨h.shrinks ((Shrinks.deleteRequest request).trans .retireSettled) (fun r c' hc' ↦ ?_) rfl le_rfl,
      held_retireSettled _⟩
    dsimp only [World.retires] at hc'
    rw [Table.get_delete] at hc'
    split_ifs at hc' with hne
    exact ⟨hc', hne, id, (h.calls r c' hc').alive⟩
  | withSlot owner priority =>
    obtain ⟨capacity, -, hs⟩ := Option.bind_eq_some_iff.mp hs
    obtain rfl := Option.some.inj hs
    exact h.same rfl rfl rfl (fun _ ↦ id) rfl (Nat.le_succ _)
  | promotesSlot slot next =>
    obtain ⟨c, -, hs⟩ := Option.bind_eq_some_iff.mp hs
    split_ifs at hs
    exact Option.some.inj hs ▸ h.same rfl rfl rfl (fun _ ↦ id) rfl le_rfl
  | observesSlot slot | endsSlot slot | retiresSlot slot =>
    obtain ⟨c, -, hs⟩ := Option.bind_eq_some_iff.mp hs
    split_ifs at hs
    exact Option.some.inj hs ▸ h.same rfl rfl rfl (fun _ ↦ id) rfl le_rfl
  | refresh owner =>
    unfold SharedBuild.step at hs
    dsimp only at hs
    split_ifs at hs
    obtain rfl := Option.some.inj hs
    have hreaped : Inv (w.reaped owner) := ⟨h.reaped owner, held_reaped w owner⟩
    exact hreaped.same rfl rfl rfl (fun _ ↦ id) rfl le_rfl

theorem Inv.new : Inv .new := by
  have hflights : ∀ {p : Prop} key row, World.new.db.flights.get key = some row → p := fun key _ hrow ↦
    nomatch (Table.get_empty key).symm.trans hrow
  have hrequests : ∀ {p : Prop} r request, World.new.db.requests.get r = some request → p := fun r _ hr ↦
    nomatch (Table.get_empty r).symm.trans hr
  have hruns : ∀ {p : Prop} r c, World.new.runs.get r = some c → p := fun r _ hc ↦
    nomatch (Table.get_empty r).symm.trans hc
  exact ⟨⟨fun r c ↦ hruns r c, fun r _ c _ hc ↦ hruns r c hc, fun r request ↦ hrequests r request,
    fun key row ↦ hflights key row, fun key _ row _ hrow ↦ hflights key row hrow,
    fun key row ↦ hflights key row⟩, fun key row ↦ hflights key row⟩

end Step

/-! ### Admission of slots -/

section Admission

/-- The running slots fit into a capacity, and so do those of them that are not interactive. -/
def Within (slots : Table ℕ SlotRow) (capacity : ℤ) : Prop :=
  (active slots : ℤ) ≤ capacity ∧ (nonInteractive slots : ℤ) ≤ max 1 (capacity - 1)

/-- The running slots that are speculative leave two of the capacity. -/
def SpeculativeWithin (slots : Table ℕ SlotRow) (capacity : ℤ) : Prop :=
  (speculative slots : ℤ) ≤ max 1 (capacity - 2)

theorem Within.mono {slots : Table ℕ SlotRow} {capacity capacity' : ℤ} (h : Within slots capacity)
    (hle : capacity ≤ capacity') : Within slots capacity' := by
  rw [Within] at h ⊢
  omega

theorem SpeculativeWithin.mono {slots : Table ℕ SlotRow} {capacity capacity' : ℤ}
    (h : SpeculativeWithin slots capacity) (hle : capacity ≤ capacity') :
    SpeculativeWithin slots capacity' := by
  rw [SpeculativeWithin] at h ⊢
  omega

theorem nonInteractive_le_active (slots : Table ℕ SlotRow) : nonInteractive slots ≤ active slots :=
  List.countP_mono_left fun _ _ h ↦ (Bool.and_eq_true_iff.mp h).1

theorem speculative_le_nonInteractive (slots : Table ℕ SlotRow) :
    speculative slots ≤ nonInteractive slots := by
  refine List.countP_mono_left fun r _ h ↦ ?_
  simp only [Bool.and_eq_true, decide_eq_true_eq] at h ⊢
  exact ⟨h.1, by omega⟩

/-- The loop of `admitSlots` counts the running slots, and has admitted within the capacity. -/
structure AdmissionOk (slots : Table ℕ SlotRow) (capacity : ℤ) (a : Admission) : Prop where
  active : a.active = active a.slots
  nonInteractive : a.nonInteractive = nonInteractive a.slots
  speculative : a.speculative = speculative a.slots
  rows : ∀ id slot', a.slots.get id = some slot' → ∃ slot, slots.get id = some slot ∧
    slot'.capacity = slot.capacity ∧ slot'.priority = slot.priority ∧
    (slot' = slot ∨ Within a.slots capacity ∧ (slot.priority ≠ 0 → SpeculativeWithin a.slots capacity))

variable {slots : Table ℕ SlotRow} {capacity : ℤ} {a : Admission} {id : ℕ} {slot : SlotRow}

/-- What an admission does to the counts. -/
theorem counts_admit {t : Table ℕ SlotRow} (hget : t.get id = some slot) (hqueued : slot.running = false) :
    SharedBuild.active (t.set id { slot with running := true }) = SharedBuild.active t + 1 ∧
    SharedBuild.nonInteractive (t.set id { slot with running := true })
      = (if slot.priority ≠ 0 then SharedBuild.nonInteractive t + 1 else SharedBuild.nonInteractive t) ∧
    SharedBuild.speculative (t.set id { slot with running := true })
      = (if slot.priority = 2 then SharedBuild.speculative t + 1 else SharedBuild.speculative t) := by
  have hactive := Table.count_set hget { slot with running := true } fun _ s ↦ s.running
  have hnon := Table.count_set hget { slot with running := true } fun _ s ↦ s.running && decide (s.priority ≠ 0)
  have hspec := Table.count_set hget { slot with running := true } fun _ s ↦ s.running && decide (s.priority = 2)
  rw [hqueued] at hactive hnon hspec
  refine ⟨hactive, hnon.trans ?_, hspec.trans ?_⟩
  · split_ifs with h <;> simp [h, SharedBuild.nonInteractive]
  · split_ifs with h <;> simp [h, SharedBuild.speculative]

theorem demandPriority_interactive {demand : ℕ} : demandPriority demand = .interactive ↔ demand = 0 := by
  rw [demandPriority]
  split_ifs <;> simp_all

theorem demandPriority_background {demand : ℕ} : demandPriority demand = .background ↔ demand = 1 := by
  rw [demandPriority]
  split_ifs <;> simp_all

/-- What the check of the capacity has established. -/
theorem hasBuildSlotCapacity_iff {demand : ℕ} {n nonInt spec : ℤ} :
    hasBuildSlotCapacity (demandPriority demand) n nonInt spec capacity = true ↔ n < capacity ∧
      (demand ≠ 0 → nonInt < max 1 (capacity - 1) ∧ (demand ≠ 1 → spec < max 1 (capacity - 2))) := by
  rw [hasBuildSlotCapacity]
  simp only [demandPriority_interactive, demandPriority_background]
  split_ifs with h₁ h₂ h₃
  · simp only [false_iff]
    omega
  · simp only [h₂, true_iff]
    omega
  · simp only [false_iff]
    omega
  · rw [Bool.or_eq_true, decide_eq_true_eq, decide_eq_true_eq]
    omega

theorem AdmissionOk.admitRow (h : AdmissionOk slots capacity a) (hget : a.slots.get id = some slot) :
    AdmissionOk slots capacity (a.admitRow capacity (id, slot)) := by
  rw [Admission.admitRow]
  by_cases hrunning : slot.running = true
  · rw [if_pos hrunning]
    exact h
  rw [if_neg hrunning]
  rw [Bool.not_eq_true] at hrunning
  by_cases hfull : hasBuildSlotCapacity (demandPriority slot.priority) a.active a.nonInteractive
      a.speculative capacity = false
  · rw [if_pos hfull]
    exact h
  -- the slot is admitted, and the limits hold again
  rw [if_neg hfull]
  rw [Bool.not_eq_false, hasBuildSlotCapacity_iff, h.active, h.nonInteractive, h.speculative] at hfull
  obtain ⟨hactive, hnon, hspec⟩ := counts_admit hget hrunning
  have hupdate : a.slots.update id (fun slot ↦ { slot with running := true })
      = a.slots.set id { slot with running := true } := by
    rw [Table.update, hget, Option.elim_some]
  have hle := nonInteractive_le_active a.slots
  have hle' := speculative_le_nonInteractive a.slots
  have hwithin : Within (a.slots.set id { slot with running := true }) capacity := by
    rw [Within, hactive, hnon]
    split_ifs <;> push_cast <;> omega
  have hspeculative : slot.priority ≠ 0 ∨ SpeculativeWithin a.slots capacity →
      SpeculativeWithin (a.slots.set id { slot with running := true }) capacity := by
    rw [SpeculativeWithin, SpeculativeWithin, hspec]
    split_ifs <;> push_cast <;> omega
  rw [hupdate, h.active, h.nonInteractive, h.speculative]
  refine ⟨hactive.symm, hnon.symm, hspec.symm, fun id' slot' hslot' ↦ ?_⟩
  rw [Table.get_set] at hslot'
  split_ifs at hslot' with heq
  · obtain rfl := Option.some.inj hslot'
    obtain ⟨slot₀, hslot₀, hcapacity, hpriority, -⟩ := h.rows id slot hget
    refine ⟨slot₀, heq ▸ hslot₀, hcapacity, hpriority, .inr ⟨hwithin, fun hne ↦ ?_⟩⟩
    exact hspeculative (.inl (hpriority ▸ hne))
  · obtain ⟨slot₀, hslot₀, hcapacity, hpriority, hsame⟩ := h.rows id' slot' hslot'
    refine ⟨slot₀, hslot₀, hcapacity, hpriority, hsame.imp_right fun hadmitted ↦ ⟨hwithin, fun hne ↦ ?_⟩⟩
    exact hspeculative (.inr (hadmitted.2 hne))

/-- A pass writes no other slot. -/
theorem get_admit_of_ne {id' : ℕ} (hne : id' ≠ id) :
    (a.admitRow capacity (id, slot)).slots.get id' = a.slots.get id' := by
  rw [Admission.admitRow]
  split
  · rfl
  split
  · rfl
  · exact Table.get_update_of_ne _ hne _

theorem AdmissionOk.foldl {rows : List (ℕ × SlotRow)} (hnodup : (rows.map Prod.fst).Nodup) :
    ∀ {a : Admission}, AdmissionOk slots capacity a → (∀ r ∈ rows, a.slots.get r.1 = some r.2) →
      AdmissionOk slots capacity (rows.foldl (Admission.admitRow capacity) a) := by
  induction rows with
  | nil => exact fun h _ ↦ h
  | cons r rows ih =>
    intro a h hrows
    obtain ⟨hnotin, hnodup⟩ := List.nodup_cons.mp hnodup
    rw [List.foldl_cons]
    refine ih hnodup (h.admitRow (hrows r List.mem_cons_self)) fun r' hr' ↦ ?_
    have hne : r'.1 ≠ r.1 := fun heq ↦ hnotin (heq ▸ List.mem_map_of_mem hr')
    rw [get_admit_of_ne hne]
    exact hrows r' (List.mem_cons_of_mem _ hr')

/-- A slot that runs after `admitSlots` and did not before was admitted within the limits of every slot. -/
theorem get_admitSlots {slot' : SlotRow} (hget : (admitSlots slots).get id = some slot') :
    ∃ slot, slots.get id = some slot ∧ slot'.priority = slot.priority ∧
      (slot' = slot ∨ ∀ id' present, (admitSlots slots).get id' = some present →
        Within (admitSlots slots) present.capacity ∧
        (slot'.priority ≠ 0 → SpeculativeWithin (admitSlots slots) present.capacity)) := by
  cases hmin : (slots.rows.map fun r ↦ r.2.capacity).min? with
  | none =>
    rw [admitSlots, hmin] at hget
    exact ⟨slot', hget, rfl, .inl rfl⟩
  | some capacity =>
    have hperm : (byPriority slots).Perm slots.rows := List.perm_insertionSort _ _
    have hok : AdmissionOk slots capacity ((byPriority slots).foldl (Admission.admitRow capacity)
        ⟨slots, active slots, nonInteractive slots, speculative slots⟩) := by
      apply AdmissionOk.foldl ((hperm.map Prod.fst).nodup_iff.mpr slots.primaryKey)
      · exact ⟨rfl, rfl, rfl, fun _ slot h ↦ ⟨slot, h, rfl, rfl, .inl rfl⟩⟩
      · exact fun r hr ↦ (Table.mem_rows _).mp (hperm.mem_iff.mp hr)
    have hadmission : admitSlots slots = ((byPriority slots).foldl (Admission.admitRow capacity)
        ⟨slots, active slots, nonInteractive slots, speculative slots⟩).slots := by
      rw [admitSlots, hmin]
    rw [hadmission] at hget ⊢
    obtain ⟨slot, hslot, -, hpriority, hadmitted⟩ := hok.rows id slot' hget
    refine ⟨slot, hslot, hpriority, hadmitted.imp_right fun ⟨hwithin, hspec⟩ id' present hpresent ↦ ?_⟩
    obtain ⟨old, hold, hcapacity, -⟩ := hok.rows id' present hpresent
    -- the capacity of the loop is that of the smallest slot
    have hle : capacity ≤ present.capacity := by
      rw [hcapacity]
      exact (List.min?_eq_some_iff.mp hmin).2 _ (List.mem_map_of_mem ((Table.mem_rows _).mpr hold))
    exact ⟨hwithin.mono hle, fun hne ↦ (hspec (hpriority ▸ hne)).mono hle⟩

end Admission

section Slots

variable {w w' : World} {id : ℕ} {slot' : SlotRow}

theorem get_slots_reap {db : Database} {self : ℕ} {alive : ℕ → Bool}
    (hget : (db.reap self alive).slots.get id = some slot') : db.slots.get id = some slot' := by
  have hfold : ∀ (owners : List ℕ) (db : Database), (owners.foldl (fun db owner ↦
      if owner = self ∨ alive owner = true then db else db.reapOwner owner) db).slots.get id = some slot' →
      db.slots.get id = some slot' := by
    intro owners
    induction owners with
    | nil => exact fun _ h ↦ h
    | cons owner owners ih =>
      intro db h
      rw [List.foldl_cons] at h
      apply ih at h
      split_ifs at h
      · exact h
      · rw [Database.reapOwner, Table.get_deleteWhere, Option.filter_eq_some_iff] at h
        exact h.1
  exact hfold db.owners db hget

theorem electedFlight_slots (w : World) (key : JsString) (owner : ℕ) :
    (w.electedFlight key owner).1.db.slots = w.db.slots := by
  rw [World.electedFlight]
  split <;> rfl

/-- Only the transaction of `changed` starts a slot. -/
theorem running_before {e : Event} (hs : step w e = some w') (hne : ∀ owner, e ≠ .refresh owner)
    (hget : w'.db.slots.get id = some slot') (hrunning : slot'.running = true) :
    ∃ slot, w.db.slots.get id = some slot ∧ slot.running = true := by
  cases e with
  | refresh owner => exact absurd rfl (hne owner)
  | opens capacity | exits owner =>
    obtain rfl := Option.some.inj hs
    exact ⟨slot', hget, hrunning⟩
  | run key owner priority =>
    unfold step at hs
    dsimp only at hs
    split_ifs at hs
    obtain rfl := Option.some.inj hs
    have hslots := electedFlight_slots (w.reaped owner) key owner
    exact ⟨slot', get_slots_reap (hslots ▸ hget), hrunning⟩
  | promotesRequest request next =>
    obtain ⟨c, -, hs⟩ := Option.bind_eq_some_iff.mp hs
    obtain rfl := Option.some.inj hs
    exact ⟨slot', hget, hrunning⟩
  | observes request =>
    obtain ⟨c, -, hs⟩ := Option.bind_eq_some_iff.mp hs
    split_ifs at hs
    have hslots : (w.observes request c).db.slots = w.db.slots := by
      rw [World.observes]
      split
      · rfl
      split <;> rfl
    exact ⟨slot', hslots ▸ Option.some.inj hs ▸ hget, hrunning⟩
  | settles request failure =>
    obtain ⟨c, -, hs⟩ := Option.bind_eq_some_iff.mp hs
    split_ifs at hs
    have hslots : (w.settles request c failure).db.slots = w.db.slots := by
      cases failure <;> rfl
    exact ⟨slot', hslots ▸ Option.some.inj hs ▸ hget, hrunning⟩
  | aborts request | retires request | observesSlot slot | endsSlot slot =>
    obtain ⟨c, -, hs⟩ := Option.bind_eq_some_iff.mp hs
    split_ifs at hs
    obtain rfl := Option.some.inj hs
    exact ⟨slot', hget, hrunning⟩
  | withSlot owner priority =>
    obtain ⟨capacity, -, hs⟩ := Option.bind_eq_some_iff.mp hs
    obtain rfl := Option.some.inj hs
    dsimp only at hget
    rw [Table.get_set] at hget
    split_ifs at hget
    · obtain rfl := Option.some.inj hget
      cases hrunning
    · exact ⟨slot', hget, hrunning⟩
  | promotesSlot slot next =>
    obtain ⟨c, -, hs⟩ := Option.bind_eq_some_iff.mp hs
    split_ifs at hs
    obtain rfl := Option.some.inj hs
    dsimp only at hget
    rw [Table.get_update] at hget
    split_ifs at hget with heq
    · obtain ⟨old, hold, rfl⟩ := Option.map_eq_some_iff.mp hget
      refine ⟨old, heq ▸ hold, ?_⟩
      split_ifs at hrunning <;> exact hrunning
    · exact ⟨slot', hget, hrunning⟩
  | retiresSlot slot =>
    obtain ⟨c, -, hs⟩ := Option.bind_eq_some_iff.mp hs
    split_ifs at hs
    obtain rfl := Option.some.inj hs
    dsimp only at hget
    rw [Table.get_delete] at hget
    split_ifs at hget
    exact ⟨slot', hget, hrunning⟩

/-- A slot that starts is admitted within the limits of all slots that are present. -/
theorem slot_admitted {e : Event} (hs : step w e = some w') (hget : w'.db.slots.get id = some slot')
    (hrunning : slot'.running = true)
    (hqueued : ∀ slot, w.db.slots.get id = some slot → slot.running = false) :
    (∃ owner, e = .refresh owner) ∧ ∀ id' present, w'.db.slots.get id' = some present →
      Within w'.db.slots present.capacity ∧
      (slot'.priority ≠ 0 → SpeculativeWithin w'.db.slots present.capacity) := by
  have hrefresh : ∃ owner, e = .refresh owner := by
    by_contra hne
    push Not at hne
    obtain ⟨slot, hslot, hbefore⟩ := running_before hs hne hget hrunning
    exact nomatch (hqueued slot hslot).symm.trans hbefore
  refine ⟨hrefresh, ?_⟩
  obtain ⟨owner, rfl⟩ := hrefresh
  unfold step at hs
  dsimp only at hs
  split_ifs at hs
  obtain rfl := Option.some.inj hs
  obtain ⟨slot, hslot, -, hsame | hlimits⟩ := get_admitSlots hget
  · have hbefore := hqueued slot (get_slots_reap hslot)
    rw [← hsame, hrunning] at hbefore
    exact nomatch hbefore
  · exact hlimits

end Slots

/-! ## The coordinator over whole runs -/

/-- **Shared build coordination.** In every state that the processes reach in any order of their steps: a
key has at most one producer; a call that returns `produced: false` has a successful settlement of the
flight it joined, since the call when that flight was running then, while an already settled flight was held
by another request; no call has lost its ownership receipt; a settled flight has a request; and a slot
starts in one transaction only, after which the running slots fit into the capacity of every slot, the ones
that are not interactive within their limit, and with a background or speculative slot admitted the
speculative ones too. -/
theorem shared_builds {w : World} (h : Reachable step anyStep .new w) :
    (∀ r r' c c', w.runs.get r = some c → w.runs.get r' = some c' → c.producing = true →
      c'.producing = true → c.key = c'.key → r = r') ∧
    (∀ r c, w.runs.get r = some c → c.phase = .ended .shared →
      (∃ n, w.settlements[n]? = some (c.key, c.elected.id) ∧ (c.elected.state = .running → c.since ≤ n)) ∧
      (c.elected.state ≠ .running → 1 < c.count)) ∧
    (∀ r c, w.runs.get r = some c → c.phase ≠ .ended .lostReceipt) ∧
    (∀ key row, w.db.flights.get key = some row → row.state ≠ .running →
      ∃ r request, w.db.requests.get r = some request ∧ request.flight = row.id) ∧
    ∀ e w' id slot', step w e = some w' → w'.db.slots.get id = some slot' → slot'.running = true →
      (∀ slot, w.db.slots.get id = some slot → slot.running = false) →
      (∃ owner, e = .refresh owner) ∧ ∀ id' present, w'.db.slots.get id' = some present →
        Within w'.db.slots present.capacity ∧
        (slot'.priority ≠ 0 → SpeculativeWithin w'.db.slots present.capacity) := by
  have hinv : Inv w := h.invariant (I := Inv) Inv.new fun _ _ _ hinv _ hs ↦ hinv.step hs
  refine ⟨fun r r' c c' hc hc' hp hp' hkey ↦ ?_, fun r c hc hs ↦ ?_, fun r c hc ↦ (hinv.calls r c hc).found,
    hinv.held, fun e w' id slot' ↦ slot_admitted⟩
  · -- both are producers of the flight of the key
    obtain ⟨row, hrow, hid, -⟩ := (hinv.calls r c hc).flight
    obtain ⟨row', hrow', hid', -⟩ := (hinv.calls r' c' hc').flight
    rw [← hkey, hrow] at hrow'
    obtain rfl := Option.some.inj hrow'
    exact hinv.one r r' c c' hc hc' hp hp' (hid.symm.trans hid')
  · exact ⟨(hinv.calls r c hc).shared hs, (hinv.calls r c hc).joined⟩

/-! ### A flight joined after its settlement, and a smaller capacity -/

def bundleKey : JsString := lit "bundle"

/-- A producer settles; another process joins its flight before the request of the producer is retired, and
returns `produced: false`. -/
def joinedRun : List Event :=
  [.opens 2, .opens 2, .run bundleKey 0 .background, .settles 3 none, .run bundleKey 1 .background,
    .observes 4]

theorem shared_builds_joined : ∃ (w : World) (c : RunCall), w.runs.get 4 = some c ∧
    c.phase = .ended .shared ∧ 1 < c.count ∧ c.phase ≠ .ended .lostReceipt := by
  have hrun : ((run step anyStep .new joinedRun).map fun w ↦
      decide ((w.runs.get 4).map (fun c ↦ (c.phase, c.elected.state)) = some (.ended .shared, .complete))) =
      some true := by
    decide +kernel
  obtain ⟨w, hw, heq⟩ := Option.map_eq_some_iff.mp hrun
  obtain ⟨c, hc, hfields⟩ := Option.map_eq_some_iff.mp (of_decide_eq_true heq)
  obtain ⟨hphase, hstate⟩ := Prod.mk.inj hfields
  have hall := shared_builds (Reachable.init.run hw)
  refine ⟨w, c, hc, hphase, (hall.2.1 4 c hc hphase).2 ?_, hall.2.2.1 4 c hc⟩
  rw [hstate]
  exact nofun

/-- Two speculative slots run in a process with a capacity of four; a process with a capacity of three
asks for an interactive one. -/
def smallerRun : List Event :=
  [.opens 4, .opens 3, .withSlot 0 .speculative, .withSlot 0 .speculative, .refresh 0,
    .withSlot 1 .interactive]

/-- A settlement may be older than the request, and the speculative slots may exceed their limit. -/
theorem not_settled_since_request :
    (¬∀ w, Reachable step anyStep .new w → ∀ r c, w.runs.get r = some c → c.phase = .ended .shared →
      ∃ n id, w.settlements[n]? = some (c.key, id) ∧ c.since ≤ n) ∧
    ¬∀ w, Reachable step anyStep .new w → ∀ e w' id slot', step w e = some w' →
      w'.db.slots.get id = some slot' → slot'.running = true →
      (∀ slot, w.db.slots.get id = some slot → slot.running = false) →
      ∀ id' present, w'.db.slots.get id' = some present →
        Within w'.db.slots present.capacity ∧ SpeculativeWithin w'.db.slots present.capacity := by
  constructor
  · intro hall
    have hrun : ((run step anyStep .new joinedRun).map fun w ↦
        decide (w.settlements = [(bundleKey, 2)] ∧
          (w.runs.get 4).map (fun c ↦ (c.phase, c.since)) = some (.ended .shared, 1))) = some true := by
      decide +kernel
    obtain ⟨w, hw, heq⟩ := Option.map_eq_some_iff.mp hrun
    obtain ⟨hlog, hcall⟩ := of_decide_eq_true heq
    obtain ⟨c, hc, hfields⟩ := Option.map_eq_some_iff.mp hcall
    obtain ⟨hphase, hsince⟩ := Prod.mk.inj hfields
    obtain ⟨n, id, hn, hle⟩ := hall w (Reachable.init.run hw) 4 c hc hphase
    have hlt := (List.getElem?_eq_some_iff.mp hn).1
    rw [hlog, List.length_singleton] at hlt
    omega
  · intro hall
    have hrun : ((run step anyStep .new smallerRun).bind fun w ↦ (step w (.refresh 1)).map fun w' ↦
        decide ((w.db.slots.get 4).map SlotRow.running = some false ∧
          (w'.db.slots.get 4).map (fun slot ↦ (slot.running, slot.capacity)) = some (true, 3) ∧
          speculative w'.db.slots = 2)) = some true := by
      decide +kernel
    obtain ⟨w, hw, heq⟩ := Option.bind_eq_some_iff.mp hrun
    obtain ⟨w', hs, heq⟩ := Option.map_eq_some_iff.mp heq
    obtain ⟨hqueued, hstarted, hcount⟩ := of_decide_eq_true heq
    obtain ⟨slot', hslot', hfields⟩ := Option.map_eq_some_iff.mp hstarted
    obtain ⟨hrunning, hcapacity⟩ := Prod.mk.inj hfields
    have hlimit := (hall w (Reachable.init.run hw) _ w' 4 slot' hs hslot' hrunning (fun slot hslot ↦ by
      rw [hslot] at hqueued
      exact Option.some.inj hqueued) 4 slot' hslot').2
    rw [SpeculativeWithin, hcount, hcapacity] at hlimit
    exact absurd hlimit (by decide)

end Vibestudio.Server.SharedBuild

import Mathlib
import Vibestudio.Js.Map
import Vibestudio.Js.Text
import Vibestudio.Transition.Run

/-!
# The locks of protected publication

The two families of locks of `src/server/vcsHost/workspaceVcs.ts`: the lease of `mutateProtectedMain` for
the whole workspace, and `locked` for the lifecycle of a context. Each is a chain of promises, so an
operation waits for all that came before it. A publication, and every other caller of
`withProtectedMainMutation`, takes the lease first and a context inside of it. Recovery of a publication
that was applied under a context takes them the other way round. It runs while the attachment initializes,
and all other operations wait for that first; in the runs in which it does nowhere else, no operations wait
for each other in a circle.

What an operation does under its locks takes any time, and is left out. So is the initialization after the
recovery, which nothing runs beside.
-/

namespace Vibestudio.Server.ProtectedMain

open Js Transition

/-! ## Operations -/

inductive Lock where
  | protectedMain
  | contextLifecycle (contextId : JsString)
  deriving DecidableEq

/-- Where `recoverPendingSemanticEffects` is. -/
inductive RecoveryPhase where
  /-- It selects an effect. -/
  | selects
  /-- `recover` under the lock of the context; an applied publication is still to be replayed or not. -/
  | fenced (contextId : JsString) (publication : Bool) (held : Bool)
  /-- `replayPublicationObservers` under the lease, and under the lock of a context or none. -/
  | replays (fence : Option JsString) (held : Bool)
  deriving DecidableEq

/-- An operation that waits for a lock or holds it. -/
inductive Operation where
  /-- `withProtectedMainMutation`, and the publications that go through it. -/
  | mutation (held : Bool)
  /-- An operation of a context, on its own or of a mutation. -/
  | contextOperation (contextId : JsString) (parent : Option ℕ) (held : Bool)
  | recovery (phase : RecoveryPhase)
  deriving DecidableEq

namespace Operation

/-- The lock an operation waits for. -/
def waits : Operation → Option Lock
  | .mutation false => some .protectedMain
  | .contextOperation contextId _ false => some (.contextLifecycle contextId)
  | .recovery (.fenced contextId _ false) => some (.contextLifecycle contextId)
  | .recovery (.replays _ false) => some .protectedMain
  | _ => none

/-- The locks an operation waits for or holds. -/
def locks : Operation → List Lock
  | .mutation _ => [.protectedMain]
  | .contextOperation contextId _ _ => [.contextLifecycle contextId]
  | .recovery .selects => []
  | .recovery (.fenced contextId _ _) => [.contextLifecycle contextId]
  | .recovery (.replays fence _) => .protectedMain :: fence.toList.map Lock.contextLifecycle

/-- The operation once it has the lock it waits for. -/
def granted : Operation → Operation
  | .mutation _ => .mutation true
  | .contextOperation contextId parent _ => .contextOperation contextId parent true
  | .recovery .selects => .recovery .selects
  | .recovery (.fenced contextId publication _) => .recovery (.fenced contextId publication true)
  | .recovery (.replays fence _) => .recovery (.replays fence true)

def isRecovery : Operation → Bool
  | .recovery _ => true
  | _ => false

/-- Whether an operation takes the lease under the lock of a context. -/
def replaysFenced : Operation → Bool
  | .recovery (.fenced _ publication _) => publication
  | .recovery (.replays fence _) => fence.isSome
  | _ => false

end Operation

/-! ## The system -/

structure Vcs where
  /-- The semantic initialization has settled. -/
  ready : Bool
  operations : JsMap ℕ Operation
  /-- The operations of the chain of a lock, the one that holds it first. -/
  queue : Lock → List ℕ
  next : ℕ

/-- A host that has not begun, and may have no initialization to wait for. -/
def Vcs.new (ready : Bool) : Vcs := ⟨ready, [], fun _ ↦ [], 0⟩

namespace Vcs

variable (s : Vcs)

/-- An operation goes on, and joins the chain of a lock. -/
def joins (id : ℕ) (op : Operation) (l : Lock) : Vcs :=
  { s with
    operations := s.operations.set id op
    queue := Function.update s.queue l (s.queue l ++ [id]) }

/-- An operation goes on, and leaves the chain of a lock. -/
def leaves (id : ℕ) (op : Operation) (l : Lock) : Vcs :=
  { s with
    operations := s.operations.set id op
    queue := Function.update s.queue l ((s.queue l).filter fun i ↦ decide (i ≠ id)) }

def begins (op : Operation) (l : Lock) : Vcs := { s.joins s.next op l with next := s.next + 1 }

def finishes (id : ℕ) : Vcs := { s with operations := s.operations.delete id }

end Vcs

inductive Event where
  | semanticReady
  | withProtectedMainMutation
  | contextOperation (contextId : JsString)
  /-- An operation of a context that is called inside of a mutation. -/
  | nested (parent : ℕ) (contextId : JsString)
  | recoverPendingSemanticEffects
  | granted (id : ℕ)
  /-- Recovery finds an effect, an applied publication or another one, of a context or of the workspace. -/
  | selects (id : ℕ) (scope : Option JsString) (publication : Bool)
  | replays (id : ℕ)
  /-- What is done under the last lock ends. -/
  | ends (id : ℕ)

def step (s : Vcs) : Event → Option Vcs
  | .semanticReady => some { s with ready := true }
  | .withProtectedMainMutation => if s.ready then some (s.begins (.mutation false) .protectedMain) else none
  | .contextOperation contextId => if s.ready then
      some (s.begins (.contextOperation contextId none false) (.contextLifecycle contextId)) else none
  | .nested parent contextId => match s.operations.get parent with
    | some (.mutation true) =>
      some (s.begins (.contextOperation contextId (some parent) false) (.contextLifecycle contextId))
    | _ => none
  | .recoverPendingSemanticEffects => some (s.begins (.recovery (.replays none false)) .protectedMain)
  | .granted id => (s.operations.get id).bind fun op ↦ op.waits.bind fun l ↦
      if (s.queue l).head? = some id then some { s with operations := s.operations.set id op.granted }
      else none
  | .selects id scope publication => match s.operations.get id, scope with
    | some (.recovery .selects), some contextId =>
      some (s.joins id (.recovery (.fenced contextId publication false)) (.contextLifecycle contextId))
    | some (.recovery .selects), none =>
      some (if publication then s.joins id (.recovery (.replays none false)) .protectedMain else s)
    | _, _ => none
  | .replays id => match s.operations.get id with
    | some (.recovery (.fenced contextId true true)) =>
      some (s.joins id (.recovery (.replays (some contextId) false)) .protectedMain)
    | _ => none
  | .ends id => match s.operations.get id with
    | some (.mutation true) => some ((s.leaves id (.mutation true) .protectedMain).finishes id)
    | some (.contextOperation contextId parent true) =>
      some ((s.leaves id (.contextOperation contextId parent true) (.contextLifecycle contextId)).finishes id)
    | some (.recovery .selects) => some (s.finishes id)
    | some (.recovery (.fenced contextId _ true)) =>
      some (s.leaves id (.recovery .selects) (.contextLifecycle contextId))
    | some (.recovery (.replays none true)) => some (s.leaves id (.recovery .selects) .protectedMain)
    | some (.recovery (.replays (some contextId) true)) =>
      some (s.leaves id (.recovery (.fenced contextId false true)) .protectedMain)
    | _ => none

/-- The condition on the steps of a run: an applied publication of a context is recovered only before the
other operations are admitted. -/
def recoversBefore (s : Vcs) : Event → Bool
  | .semanticReady => s.operations.all fun p ↦ !p.2.replaysFenced
  | .selects _ (some _) true => !s.ready
  | _ => true

/-! ## Who waits for whom -/

/-- The operation `b` is before `a` in a chain. -/
def Ahead (queue : List ℕ) (b a : ℕ) : Prop := ∃ before after, queue = before ++ a :: after ∧ b ∈ before

/-- An operation waits for those before it in the chain of a lock, and a mutation for those it calls. -/
inductive WaitsFor (s : Vcs) : ℕ → ℕ → Prop where
  | lock {a b : ℕ} {op : Operation} {l : Lock} (hop : s.operations.get a = some op)
      (hwaits : op.waits = some l) (hahead : Ahead (s.queue l) b a) : WaitsFor s a b
  | nested {a b : ℕ} {contextId : JsString} {held : Bool}
      (hparent : s.operations.get a = some (.mutation true))
      (hchild : s.operations.get b = some (.contextOperation contextId (some a) held)) : WaitsFor s a b

/-! ## The invariant -/

structure Inv (s : Vcs) : Prop where
  fresh : ∀ l, ∀ id ∈ s.queue l, id < s.next
  unused : ∀ id, s.next ≤ id → s.operations.get id = none
  nodup : ∀ l, (s.queue l).Nodup
  /-- An operation in a chain waits for the lock or holds it. -/
  queued : ∀ l, ∀ id ∈ s.queue l, ∃ op, s.operations.get id = some op ∧ l ∈ op.locks
  /-- Before the others are admitted, there are recoveries only. -/
  closed : s.ready = false → ∀ id op, s.operations.get id = some op → op.isRecovery = true
  /-- After that, no one takes the lease under the lock of a context. -/
  open' : s.ready = true → ∀ id op, s.operations.get id = some op → op.replaysFenced = false

/-! ## No circle -/

/-- How many kinds of waits may follow. -/
def Operation.level (ready : Bool) : Operation → ℕ
  | .mutation false => 3
  | .mutation true => 2
  | .contextOperation _ _ false => 1
  | .contextOperation _ _ true => 0
  | .recovery (.fenced _ _ false) => if ready then 1 else 4
  | .recovery (.replays _ false) => 3
  | .recovery _ => 0

/-- The level of an operation, and its place in the chain it waits in. -/
def Vcs.rank (s : Vcs) (id : ℕ) : ℕ ×ₗ ℕ := match s.operations.get id with
  | none => toLex (0, 0)
  | some op => toLex (op.level s.ready, op.waits.elim 0 fun l ↦ (s.queue l).idxOf id)

variable {s t : Vcs}

theorem idxOf_lt_of_ahead {queue : List ℕ} {a b : ℕ} (hnodup : queue.Nodup) (h : Ahead queue b a) :
    queue.idxOf b < queue.idxOf a := by
  obtain ⟨before, after, rfl, hb⟩ := h
  have ha : a ∉ before := fun hmem ↦
    (List.nodup_append.mp hnodup).2.2 a hmem a List.mem_cons_self rfl
  rw [List.idxOf_append_of_mem hb, List.idxOf_append_of_notMem ha, List.idxOf_cons_self]
  exact (List.idxOf_lt_length_of_mem hb).trans_le (Nat.le_add_right _ _)

/-- An operation of the chain of the lease waits for it, or has a lower level than those that wait. -/
theorem level_lt_main {ready : Bool} {op op' : Operation} (hwaits : op.waits = some .protectedMain)
    (hl : .protectedMain ∈ op'.locks) :
    op'.level ready < op.level ready ∨ op'.waits = some .protectedMain ∧ op'.level ready = op.level ready := by
  have hlevel : op.level ready = 3 := by
    match op, hwaits with
    | .mutation false, _ => rfl
    | .recovery (.replays _ false), _ => rfl
  rw [hlevel]
  match op', hl with
  | .mutation false, _ => exact .inr ⟨rfl, rfl⟩
  | .mutation true, _ => exact .inl (Nat.lt_succ_self 2)
  | .recovery (.replays _ false), _ => exact .inr ⟨rfl, rfl⟩
  | .recovery (.replays _ true), _ => exact .inl (Nat.zero_lt_succ _)
  | .contextOperation _ _ _, hl | .recovery (.fenced _ _ _), hl => exact nomatch List.mem_singleton.mp hl
  | .recovery .selects, hl => exact nomatch hl

/-- Of the chain of a context too: the lease comes below the contexts before the others are admitted, and
above them later. -/
theorem level_lt_context {ready : Bool} {op op' : Operation} {contextId : JsString}
    (hwaits : op.waits = some (.contextLifecycle contextId)) (hl : .contextLifecycle contextId ∈ op'.locks)
    (hclosed : ready = false → op.isRecovery = true ∧ op'.isRecovery = true)
    (hopen : ready = true → op'.replaysFenced = false) :
    op'.level ready < op.level ready ∨
      op'.waits = some (.contextLifecycle contextId) ∧ op'.level ready = op.level ready := by
  have hpos : 0 < op.level ready := by
    match op, hwaits with
    | .contextOperation _ _ false, _ => exact Nat.one_pos
    | .recovery (.fenced _ _ false), _ => cases ready <;> exact Nat.succ_pos _
  match op', hl with
  | .mutation _, hl => exact nomatch List.mem_singleton.mp hl
  | .contextOperation _ _ true, _ => exact .inl hpos
  | .contextOperation _ _ false, hl =>
    refine .inr ⟨congrArg some (List.mem_singleton.mp hl).symm, ?_⟩
    cases ready with
    | false => exact nomatch (hclosed rfl).2
    | true =>
      match op, hwaits with
      | .contextOperation _ _ false, _ => rfl
      | .recovery (.fenced _ _ false), _ => rfl
  | .recovery .selects, hl => exact nomatch hl
  | .recovery (.fenced _ _ true), _ => exact .inl hpos
  | .recovery (.fenced _ _ false), hl =>
    refine .inr ⟨congrArg some (List.mem_singleton.mp hl).symm, ?_⟩
    match op, hwaits with
    | .recovery (.fenced _ _ false), _ => rfl
    | .contextOperation _ _ false, _ =>
      cases ready with
      | false => exact nomatch (hclosed rfl).1
      | true => rfl
  | .recovery (.replays _ true), _ => exact .inl hpos
  | .recovery (.replays none false), hl => exact nomatch List.mem_singleton.mp hl
  | .recovery (.replays (some _) false), _ =>
    -- the order of the other operations is turned round
    cases ready with
    | true => exact nomatch hopen rfl
    | false =>
      match op, hwaits with
      | .recovery (.fenced _ _ false), _ => exact .inl (Nat.lt_succ_self 3)
      | .contextOperation _ _ false, _ => exact nomatch (hclosed rfl).1

theorem Inv.rank_lt (h : Inv s) {a b : ℕ} (hab : WaitsFor s a b) : s.rank b < s.rank a := by
  cases hab with
  | lock hop hwaits hahead =>
    rename_i op l
    obtain ⟨before, after, hqueue, hb⟩ := hahead
    have hmem : b ∈ s.queue l := hqueue ▸ List.mem_append_left _ hb
    obtain ⟨op', hop', hl⟩ := h.queued l b hmem
    have hlevel : op'.level s.ready < op.level s.ready ∨
        op'.waits = some l ∧ op'.level s.ready = op.level s.ready := by
      cases l with
      | protectedMain => exact level_lt_main hwaits hl
      | contextLifecycle contextId =>
        exact level_lt_context hwaits hl
          (fun hready ↦ ⟨h.closed hready a op hop, h.closed hready b op' hop'⟩)
          fun hready ↦ h.open' hready b op' hop'
    rw [Vcs.rank, Vcs.rank, hop, hop', Prod.Lex.toLex_lt_toLex]
    rcases hlevel with hlt | ⟨hwaits', heq⟩
    · exact .inl hlt
    · -- both wait for the lock, and their places differ
      refine .inr ⟨heq, ?_⟩
      rw [hwaits, hwaits']
      exact idxOf_lt_of_ahead (h.nodup l) ⟨before, after, hqueue, hb⟩
  | nested hparent hchild =>
    rename_i contextId held
    rw [Vcs.rank, Vcs.rank, hparent, hchild, Prod.Lex.toLex_lt_toLex]
    left
    cases held with
    | false => exact Nat.one_lt_two
    | true => exact Nat.zero_lt_two

/-- What decreases at every wait is not followed back. -/
theorem Inv.acyclic (h : Inv s) (a : ℕ) : ¬Relation.TransGen (WaitsFor s) a a := by
  have hrank : ∀ {a b}, Relation.TransGen (WaitsFor s) a b → s.rank b < s.rank a := by
    intro a b hab
    induction hab with
    | single hab => exact h.rank_lt hab
    | tail _ hbc ih => exact (h.rank_lt hbc).trans ih
  exact fun haa ↦ lt_irrefl _ (hrank haa)
/-! ## Steps -/

/-- An operation that goes on stays in the chains of its locks, and may join or leave one. -/
theorem Inv.goesOn (h : Inv s) (id : ℕ) (op : Operation) (hready : t.ready = s.ready)
    (hnext : s.next ≤ t.next) (hid : id < t.next) (hops : t.operations = s.operations.set id op)
    (hnodup : ∀ l, (t.queue l).Nodup)
    (hqueue : ∀ l, ∀ i ∈ t.queue l, i ≠ id ∧ i ∈ s.queue l ∨ i = id ∧ l ∈ op.locks)
    (hclosed : s.ready = false → op.isRecovery = true)
    (hopen : s.ready = true → op.replaysFenced = false) : Inv t := by
  refine ⟨fun l i hi ↦ ?_, fun i hi ↦ ?_, hnodup, fun l i hi ↦ ?_, fun hr i op' hop' ↦ ?_,
    fun hr i op' hop' ↦ ?_⟩
  · rcases hqueue l i hi with ⟨-, hold⟩ | ⟨rfl, -⟩
    · exact (h.fresh l i hold).trans_le hnext
    · exact hid
  · rw [hops, JsMap.get_set, if_neg (hid.trans_le hi).ne', h.unused i (hnext.trans hi)]
  · rw [hops]
    rcases hqueue l i hi with ⟨hne, hold⟩ | ⟨rfl, hl⟩
    · rw [JsMap.get_set_of_ne _ hne]
      exact h.queued l i hold
    · exact ⟨op, JsMap.get_set_self _ _ _, hl⟩
  · rw [hops, JsMap.get_set] at hop'
    split_ifs at hop' with hi
    · exact Option.some.inj hop' ▸ hclosed (hready ▸ hr)
    · exact h.closed (hready ▸ hr) i op' hop'
  · rw [hops, JsMap.get_set] at hop'
    split_ifs at hop' with hi
    · exact Option.some.inj hop' ▸ hopen (hready ▸ hr)
    · exact h.open' (hready ▸ hr) i op' hop'

/-- What is known of an operation and its chains. -/
theorem Inv.locks_of_mem (h : Inv s) {id : ℕ} {op : Operation} (hop : s.operations.get id = some op)
    {l : Lock} (hl : id ∈ s.queue l) : l ∈ op.locks := by
  obtain ⟨op', hop', hmem⟩ := h.queued l id hl
  obtain rfl := Option.some.inj (hop.symm.trans hop')
  exact hmem

theorem Inv.known (h : Inv s) {id : ℕ} {op : Operation} (hop : s.operations.get id = some op) :
    id < s.next := by
  by_contra hid
  exact nomatch (h.unused id (not_lt.mp hid)).symm.trans hop

theorem nodup_update {queue : Lock → List ℕ} (h : ∀ l, (queue l).Nodup) {l : Lock} {ids : List ℕ}
    (hids : ids.Nodup) (l' : Lock) : (Function.update queue l ids l').Nodup := by
  by_cases hl : l' = l
  · subst hl
    rwa [Function.update_self]
  · rw [Function.update_of_ne hl]
    exact h l'

/-- An operation waits for one more lock. -/
theorem Inv.joins (h : Inv s) {id : ℕ} {op : Operation} {l : Lock} {next : ℕ} (hnext : s.next ≤ next)
    (hid : id < next) (hl : l ∈ op.locks) (hnew : id ∉ s.queue l)
    (hkept : ∀ l', id ∈ s.queue l' → l' ∈ op.locks) (hclosed : s.ready = false → op.isRecovery = true)
    (hopen : s.ready = true → op.replaysFenced = false) : Inv { s.joins id op l with next } := by
  refine h.goesOn id op rfl hnext hid rfl ?_ ?_ hclosed hopen
  · refine nodup_update h.nodup ?_
    rw [List.nodup_append]
    refine ⟨h.nodup l, List.nodup_singleton id, fun i hi i' hi' ↦ ?_⟩
    rw [List.mem_singleton.mp hi']
    rintro rfl
    exact hnew hi
  · intro l' i hi
    have hold : i ∈ s.queue l' ∨ i = id ∧ l' = l := by
      by_cases hl' : l' = l
      · subst hl'
        have happended : i ∈ s.queue l' ++ [id] := by
          simpa only [Vcs.joins, Function.update_self] using hi
        exact (List.mem_append.mp happended).imp_right fun hmem ↦ ⟨List.mem_singleton.mp hmem, rfl⟩
      · left
        simpa only [Vcs.joins, Function.update_of_ne hl'] using hi
    by_cases hsame : i = id
    · subst hsame
      refine .inr ⟨rfl, ?_⟩
      rcases hold with hold | ⟨-, rfl⟩
      · exact hkept l' hold
      · exact hl
    · exact .inl ⟨hsame, hold.resolve_right fun hboth ↦ hsame hboth.1⟩

/-- An operation lets a lock go. -/
theorem Inv.leaves (h : Inv s) {id : ℕ} {op op' : Operation} {l : Lock}
    (hop : s.operations.get id = some op) (hkept : ∀ l' ∈ op.locks, l' = l ∨ l' ∈ op'.locks)
    (hclosed : s.ready = false → op'.isRecovery = true)
    (hopen : s.ready = true → op'.replaysFenced = false) : Inv (s.leaves id op' l) := by
  refine h.goesOn id op' rfl le_rfl (h.known hop) rfl ?_ ?_ hclosed hopen
  · exact nodup_update h.nodup ((h.nodup l).filter _)
  · intro l' i hi
    by_cases hl : l' = l
    · subst hl
      have hfiltered : i ∈ (s.queue l').filter fun i ↦ decide (i ≠ id) := by
        simpa only [Vcs.leaves, Function.update_self] using hi
      obtain ⟨hold, hne⟩ := List.mem_filter.mp hfiltered
      exact .inl ⟨of_decide_eq_true hne, hold⟩
    · have hold : i ∈ s.queue l' := by
        simpa only [Vcs.leaves, Function.update_of_ne hl] using hi
      by_cases hsame : i = id
      · subst hsame
        exact .inr ⟨rfl, (hkept l' (h.locks_of_mem hop hold)).resolve_left hl⟩
      · exact .inl ⟨hsame, hold⟩

theorem Inv.finishes (h : Inv s) {id : ℕ} (hnone : ∀ l, id ∉ s.queue l) : Inv (s.finishes id) := by
  refine ⟨h.fresh, fun i hi ↦ ?_, h.nodup, fun l i hi ↦ ?_, fun hr i op hop ↦ ?_, fun hr i op hop ↦ ?_⟩
  · rw [Vcs.finishes, JsMap.get_delete]
    split_ifs
    · rfl
    · exact h.unused i hi
  · rw [Vcs.finishes, JsMap.get_delete, if_neg]
    · exact h.queued l i hi
    · rintro rfl
      exact hnone l hi
  · rw [Vcs.finishes, JsMap.get_delete] at hop
    split_ifs at hop
    exact h.closed hr i op hop
  · rw [Vcs.finishes, JsMap.get_delete] at hop
    split_ifs at hop
    exact h.open' hr i op hop

/-- An operation with one lock lets it go and ends. -/
theorem Inv.leavesFinishes (h : Inv s) {id : ℕ} {op : Operation} {l : Lock}
    (hop : s.operations.get id = some op) (hlocks : op.locks = [l]) :
    Inv ((s.leaves id op l).finishes id) := by
  have hleaves : Inv (s.leaves id op l) :=
    h.leaves hop (fun l' hl' ↦ .inr hl') (fun hr ↦ h.closed hr id op hop) fun hr ↦ h.open' hr id op hop
  refine hleaves.finishes fun l' hl' ↦ ?_
  have hop' : (s.leaves id op l).operations.get id = some op := JsMap.get_set_self _ _ _
  have hmem := hleaves.locks_of_mem hop' hl'
  rw [hlocks, List.mem_singleton] at hmem
  subst hmem
  simp [Vcs.leaves] at hl'

theorem Inv.begins (h : Inv s) {op : Operation} {l : Lock} (hl : l ∈ op.locks)
    (hclosed : s.ready = false → op.isRecovery = true)
    (hopen : s.ready = true → op.replaysFenced = false) : Inv (s.begins op l) :=
  h.joins (Nat.le_succ _) (Nat.lt_succ_self _) hl (fun hmem ↦ lt_irrefl _ (h.fresh l _ hmem))
    (fun l' hmem ↦ absurd (h.fresh l' _ hmem) (lt_irrefl _)) hclosed hopen

theorem Inv.granted (h : Inv s) {id : ℕ} (hs : step s (.granted id) = some t) : Inv t := by
  obtain ⟨op, hop, hs⟩ := Option.bind_eq_some_iff.mp hs
  obtain ⟨l, -, hs⟩ := Option.bind_eq_some_iff.mp hs
  split_ifs at hs
  obtain rfl := Option.some.inj hs
  have hsame : op.granted.locks = op.locks ∧ op.granted.isRecovery = op.isRecovery ∧
      op.granted.replaysFenced = op.replaysFenced := by
    match op with
    | .mutation _ | .contextOperation _ _ _ | .recovery .selects | .recovery (.fenced _ _ _)
    | .recovery (.replays _ _) => exact ⟨rfl, rfl, rfl⟩
  obtain ⟨hlocks, hrecovery, hfenced⟩ := hsame
  refine h.goesOn _ _ rfl le_rfl (h.known hop) rfl h.nodup (fun l i hi ↦ ?_)
    (fun hr ↦ hrecovery.trans (h.closed hr id op hop)) fun hr ↦ hfenced.trans (h.open' hr id op hop)
  by_cases hi' : i = id
  · subst hi'
    exact .inr ⟨rfl, hlocks ▸ h.locks_of_mem hop hi⟩
  · exact .inl ⟨hi', hi⟩

theorem Inv.selects (h : Inv s) {id : ℕ} {scope : Option JsString} {publication : Bool}
    (hok : recoversBefore s (.selects id scope publication) = true)
    (hs : step s (.selects id scope publication) = some t) : Inv t := by
  unfold step at hs
  dsimp only at hs
  split at hs
  · next contextId hop =>
    obtain rfl := Option.some.inj hs
    have hnone : ∀ l, id ∉ s.queue l := fun l hl ↦ nomatch h.locks_of_mem hop hl
    refine h.joins le_rfl (h.known hop) (List.mem_singleton_self _) (hnone _)
      (fun l hl ↦ absurd hl (hnone l)) (fun _ ↦ rfl) fun hready ↦ ?_
    cases publication with
    | false => rfl
    | true =>
      rw [recoversBefore, hready] at hok
      exact nomatch hok
  · next hop =>
    obtain rfl := Option.some.inj hs
    split_ifs
    · have hnone : ∀ l, id ∉ s.queue l := fun l hl ↦ nomatch h.locks_of_mem hop hl
      exact h.joins le_rfl (h.known hop) (List.mem_singleton_self _) (hnone _)
        (fun l hl ↦ absurd hl (hnone l)) (fun _ ↦ rfl) fun _ ↦ rfl
    · exact h
  · exact nomatch hs

theorem Inv.replays (h : Inv s) {id : ℕ} (hs : step s (.replays id) = some t) : Inv t := by
  rw [step] at hs
  split at hs
  case h_2 => exact nomatch hs
  rename_i contextId hop
  obtain rfl := Option.some.inj hs
  refine h.joins le_rfl (h.known hop) List.mem_cons_self (fun hl ↦ ?_) (fun l hl ↦ ?_) (fun _ ↦ rfl)
    fun hready ↦ nomatch h.open' hready id _ hop
  · exact nomatch List.mem_singleton.mp (h.locks_of_mem hop hl)
  · exact List.mem_cons_of_mem _ (h.locks_of_mem hop hl)

theorem Inv.ends (h : Inv s) {id : ℕ} (hs : step s (.ends id) = some t) : Inv t := by
  rw [step] at hs
  split at hs
  · next hop => exact Option.some.inj hs ▸ h.leavesFinishes hop rfl
  · next hop => exact Option.some.inj hs ▸ h.leavesFinishes hop rfl
  · next hop => exact Option.some.inj hs ▸ h.finishes fun l hl ↦ nomatch h.locks_of_mem hop hl
  · next hop =>
    exact Option.some.inj hs ▸ h.leaves hop (fun l hl ↦ .inl (List.mem_singleton.mp hl)) (fun _ ↦ rfl)
      fun _ ↦ rfl
  · next hop =>
    exact Option.some.inj hs ▸ h.leaves hop (fun l hl ↦ .inl (List.mem_singleton.mp hl)) (fun _ ↦ rfl)
      fun _ ↦ rfl
  · next hop =>
    refine Option.some.inj hs ▸ h.leaves hop (fun l hl ↦ ?_) (fun _ ↦ rfl) fun _ ↦ rfl
    exact List.mem_cons.mp hl
  · exact nomatch hs

theorem Inv.step (h : Inv s) {e : Event} (hok : recoversBefore s e = true) (hs : step s e = some t) :
    Inv t := by
  cases e with
  | semanticReady =>
    obtain rfl := Option.some.inj hs
    refine ⟨h.fresh, h.unused, h.nodup, h.queued, fun hr ↦ (nomatch hr), fun _ id op hop ↦ ?_⟩
    -- the initialization has ended, so no recovery of a context is under way
    have hall := List.all_eq_true.mp hok (id, op) (JsMap.mem_of_get hop)
    rwa [Bool.not_eq_true'] at hall
  | withProtectedMainMutation =>
    rw [ProtectedMain.step] at hs
    split_ifs at hs with hready
    exact Option.some.inj hs ▸ h.begins (List.mem_singleton_self _)
      (fun hr ↦ nomatch hready.symm.trans hr) fun _ ↦ rfl
  | contextOperation contextId =>
    rw [ProtectedMain.step] at hs
    split_ifs at hs with hready
    exact Option.some.inj hs ▸ h.begins (List.mem_singleton_self _)
      (fun hr ↦ nomatch hready.symm.trans hr) fun _ ↦ rfl
  | nested parent contextId =>
    rw [ProtectedMain.step] at hs
    split at hs
    case h_2 => exact nomatch hs
    rename_i hop
    exact Option.some.inj hs ▸ h.begins (List.mem_singleton_self _)
      (fun hr ↦ nomatch h.closed hr parent _ hop) fun _ ↦ rfl
  | recoverPendingSemanticEffects =>
    exact Option.some.inj hs ▸ h.begins (List.mem_singleton_self _) (fun _ ↦ rfl) fun _ ↦ rfl
  | granted id => exact h.granted hs
  | selects id scope publication => exact h.selects hok hs
  | replays id => exact h.replays hs
  | ends id => exact h.ends hs

theorem Inv.new (ready : Bool) : Inv (.new ready) := by
  refine ⟨?_, fun _ _ ↦ rfl, fun _ ↦ List.nodup_nil, ?_, ?_, ?_⟩
  · exact fun _ _ hnone ↦ nomatch hnone
  · exact fun _ _ hnone ↦ nomatch hnone
  · exact fun _ _ _ hnone ↦ nomatch hnone
  · exact fun _ _ _ hnone ↦ nomatch hnone

/-- **No circle of waits**, in a run in which applied publications of contexts are recovered only before
the other operations are admitted. -/
theorem no_circular_wait {ready : Bool} {s : Vcs} (h : Reachable step recoversBefore (.new ready) s)
    (id : ℕ) : ¬Relation.TransGen (WaitsFor s) id id := by
  have hinv : Inv s := h.invariant (I := Inv) (Inv.new ready) fun _ _ _ hinv hok hs ↦ hinv.step hok hs
  exact hinv.acyclic id

/-! ### A publication, and a recovery beside it -/

def agentContext : JsString := lit "agent"

/-- The publication of a context is recovered; then a publication waits for an operation of the context. -/
def recoveredRun : List Event :=
  [.recoverPendingSemanticEffects, .granted 0, .ends 0, .selects 0 (some agentContext) true, .granted 0,
    .replays 0, .granted 0, .ends 0, .ends 0, .ends 0, .semanticReady, .contextOperation agentContext,
    .granted 1, .withProtectedMainMutation, .granted 2, .nested 2 agentContext]

theorem no_circular_wait_recovered : ∃ s : Vcs, WaitsFor s 3 1 ∧ WaitsFor s 2 3 ∧
    ¬Relation.TransGen (WaitsFor s) 3 3 := by
  have hrun : ((run step recoversBefore (.new false) recoveredRun).map fun s ↦
      decide (s.operations.get 2 = some (.mutation true) ∧
        s.operations.get 3 = some (.contextOperation agentContext (some 2) false) ∧
        s.queue (.contextLifecycle agentContext) = [1, 3])) = some true := by
    decide +kernel
  obtain ⟨s, hs, heq⟩ := Option.map_eq_some_iff.mp hrun
  obtain ⟨hparent, hchild, hqueue⟩ := of_decide_eq_true heq
  refine ⟨s, .lock hchild rfl ?_, .nested hparent hchild, no_circular_wait (Reachable.init.run hs) 3⟩
  exact ⟨[1], [], hqueue, List.mem_singleton_self 1⟩

/-- **A recovery beside a publication of its context**: each has the lock that the other waits for. -/
theorem not_always_acyclic : ¬∀ (ready : Bool) (s : Vcs), Reachable step anyStep (.new ready) s →
    ∀ id, ¬Relation.TransGen (WaitsFor s) id id := by
  intro hall
  have hrun : ((run step anyStep (.new true)
      [.recoverPendingSemanticEffects, .granted 0, .ends 0, .selects 0 (some agentContext) true, .granted 0,
        .withProtectedMainMutation, .granted 1, .nested 1 agentContext, .replays 0]).map fun s ↦
      decide (s.operations.get 0 = some (.recovery (.replays (some agentContext) false)) ∧
        s.operations.get 1 = some (.mutation true) ∧
        s.operations.get 2 = some (.contextOperation agentContext (some 1) false) ∧
        s.queue .protectedMain = [1, 0] ∧ s.queue (.contextLifecycle agentContext) = [0, 2])) =
      some true := by
    decide +kernel
  obtain ⟨s, hs, heq⟩ := Option.map_eq_some_iff.mp hrun
  obtain ⟨hrecovery, hparent, hchild, hmain, hcontext⟩ := of_decide_eq_true heq
  have h₀₁ : WaitsFor s 0 1 := .lock hrecovery rfl ⟨[1], [], hmain, List.mem_singleton_self 1⟩
  have h₁₂ : WaitsFor s 1 2 := .nested hparent hchild
  have h₂₀ : WaitsFor s 2 0 := .lock hchild rfl ⟨[0], [], hcontext, List.mem_singleton_self 0⟩
  exact hall true s (Reachable.init.run hs) 0 (((Relation.TransGen.single h₀₁).tail h₁₂).tail h₂₀)

end Vibestudio.Server.ProtectedMain

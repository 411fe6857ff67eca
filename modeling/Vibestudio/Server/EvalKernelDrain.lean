import Mathlib
import Vibestudio.Server.EvalKernelLease
import Vibestudio.Transition.Run

/-!
# Draining the eval kernel leases

The touches of one key run one after the other (`Chained`). A lease in the table either has a touch that works on it
or an open hold (`Warm`), as long as every way out of a touch leaves it so (`tidy`): a failure of
`attachKernelLeaseHolder`, a failure of the second `acquireKernelLease`, and a holder that is reported for a lease
without one do not. Then `close` returns, and has waited for every hold, if none was out of the table when it began.
-/

namespace Vibestudio.Server.EvalKernelLeaseCoordinator

open Js DurableWork Transition

/-! ## The chain of a key -/

/-- The touches of a key are settled in turn. -/
structure Ordered (touches : List Touch) : Prop where
  previous : ∀ (i j : ℕ) (t u : Touch), touches[i]? = some t → touches[j]? = some u → t.key = u.key → i < j →
    t.point.isSettled = true ∨ ∃ p, u.previous = some p ∧ i ≤ p
  earlier : ∀ (j : ℕ) (u : Touch) (p : ℕ), touches[j]? = some u → u.previous = some p →
    p < j ∧ ∃ t, touches[p]? = some t ∧ t.key = u.key
  serial : ∀ (i j : ℕ) (t u : Touch), touches[i]? = some t → touches[j]? = some u → t.key = u.key → i < j →
    u.point ≠ .queued → t.point.isSettled = true

/-- The table of operations names the last touch of each key, unless all of them are settled. -/
structure Named (touches : List Touch) (operations : JsMap JsString ℕ) : Prop where
  last : ∀ (key : JsString) (i : ℕ), operations.get key = some i → ∃ t, touches[i]? = some t ∧ t.key = key ∧
    t.point.isSettled = false ∧ ∀ (j : ℕ) (u : Touch), touches[j]? = some u → u.key = key → j ≤ i
  rest : ∀ (key : JsString), operations.get key = none → ∀ (j : ℕ) (u : Touch), touches[j]? = some u → u.key = key →
    u.point.isSettled = true

structure Chained (s : EvalKernelLeaseCoordinator) : Prop where
  ordered : Ordered s.touches
  named : Named s.touches s.operations

variable {s s' : EvalKernelLeaseCoordinator} {index lease : ℕ} {t : Touch} {point : TouchPoint} {key : JsString}
  {e : Event} {touches : List Touch} {operations : JsMap JsString ℕ}

theorem chained_init : Chained init := ⟨⟨nofun, nofun, nofun⟩, ⟨nofun, fun _ _ _ _ h ↦ nomatch h⟩⟩

theorem getElem?_set_cases {i j : ℕ} {u : Touch} (h : (touches.set i t)[j]? = some u) :
    j = i ∧ u = t ∨ j ≠ i ∧ touches[j]? = some u := by
  rw [List.getElem?_set] at h
  split_ifs at h with heq hlen
  · exact .inl ⟨heq.symm, (Option.some.inj h).symm⟩
  · exact .inr ⟨fun h ↦ heq h.symm, h⟩

/-- It is the turn of the touch: those before it are settled, and it is not. -/
structure Turn (touches : List Touch) (index : ℕ) (t : Touch) : Prop where
  get : touches[index]? = some t
  unsettled : t.point.isSettled = false
  first : ∀ (i : ℕ) (u : Touch), touches[i]? = some u → u.key = t.key → i < index → u.point.isSettled = true

theorem Turn.get_set (h : Turn touches index t) (u : Touch) : (touches.set index u)[index]? = some u :=
  List.getElem?_set_self (List.getElem?_eq_some_iff.mp h.get).1

/-- A touch whose turn it is moves on, or ends. -/
theorem Ordered.set (h : Ordered touches) (hturn : Turn touches index t) (point : TouchPoint) :
    Ordered (touches.set index { t with point }) := by
  refine ⟨fun i j u v hi hj hkey hlt ↦ ?_, fun j u p hj hp ↦ ?_, fun i j u v hi hj hkey hlt hstarted ↦ ?_⟩
  · rcases getElem?_set_cases hi with ⟨rfl, rfl⟩ | ⟨-, hi'⟩ <;> rcases getElem?_set_cases hj with ⟨rfl, rfl⟩ | ⟨-, hj'⟩
    · exact absurd hlt (lt_irrefl _)
    · rcases h.previous _ j t v hturn.get hj' hkey hlt with hsettled | hp
      · exact absurd (hturn.unsettled.symm.trans hsettled) nofun
      · exact .inr hp
    · exact h.previous i _ u t hi' hturn.get hkey hlt
    · exact h.previous i j u v hi' hj' hkey hlt
  · have hold : ∀ q : ℕ, (∃ w, touches[q]? = some w ∧ w.key = u.key) →
        ∃ w, (touches.set index { t with point })[q]? = some w ∧ w.key = u.key := by
      rintro q ⟨w, hw, hkey⟩
      by_cases heq : q = index
      · subst heq
        obtain rfl := Option.some.inj (hturn.get.symm.trans hw)
        exact ⟨_, hturn.get_set _, hkey⟩
      · exact ⟨w, by rwa [List.getElem?_set_ne (Ne.symm heq)], hkey⟩
    rcases getElem?_set_cases hj with ⟨rfl, rfl⟩ | ⟨-, hj⟩
    · exact (h.earlier _ t p hturn.get hp).imp_right (hold p)
    · exact (h.earlier j u p hj hp).imp_right (hold p)
  · rcases getElem?_set_cases hi with ⟨rfl, rfl⟩ | ⟨-, hi'⟩ <;> rcases getElem?_set_cases hj with ⟨rfl, rfl⟩ | ⟨-, hj'⟩
    · exact absurd hlt (lt_irrefl _)
    · -- No later touch has started, since this one is not settled.
      exact absurd (hturn.unsettled.symm.trans (h.serial _ j t v hturn.get hj' hkey hlt hstarted)) nofun
    · exact hturn.first i u hi' hkey hlt
    · exact h.serial i j u v hi' hj' hkey hlt hstarted

theorem Named.set (h : Named touches operations) (hturn : Turn touches index t) (hpoint : point.isSettled = false) :
    Named (touches.set index { t with point }) operations := by
  refine ⟨fun k i hi ↦ ?_, fun k hk j u hj hkey ↦ ?_⟩
  · obtain ⟨u, hu, hkey, hunsettled, hlast⟩ := h.last k i hi
    have hlast' : ∀ (j : ℕ) (v : Touch), (touches.set index { t with point })[j]? = some v → v.key = k → j ≤ i := by
      intro j v hj hv
      rcases getElem?_set_cases hj with ⟨rfl, rfl⟩ | ⟨-, hj⟩
      · exact hlast _ t hturn.get hv
      · exact hlast j v hj hv
    by_cases heq : i = index
    · subst heq
      obtain rfl := Option.some.inj (hturn.get.symm.trans hu)
      exact ⟨_, hturn.get_set _, hkey, hpoint, hlast'⟩
    · exact ⟨u, by rwa [List.getElem?_set_ne (Ne.symm heq)], hkey, hunsettled, hlast'⟩
  · rcases getElem?_set_cases hj with ⟨rfl, rfl⟩ | ⟨-, hj⟩
    · exact absurd (hturn.unsettled.symm.trans (h.rest k hk _ t hturn.get hkey)) nofun
    · exact h.rest k hk j u hj hkey

theorem Named.settle (h : Named touches operations) (hturn : Turn touches index t) (hpoint : point.isSettled = true) :
    Named (touches.set index { t with point })
      (if operations.get t.key = some index then operations.delete t.key else operations) := by
  have hget : ∀ k i, JsMap.get k (if operations.get t.key = some index then operations.delete t.key else operations) =
      some i → operations.get k = some i ∧ i ≠ index := by
    intro k i hi
    split_ifs at hi with hmine
    · rw [JsMap.get_delete] at hi
      split_ifs at hi with hk
      refine ⟨hi, fun heq ↦ ?_⟩
      subst heq
      obtain ⟨u, hu, hkey, -, -⟩ := h.last k i hi
      exact hk (hkey ▸ congrArg Touch.key (Option.some.inj (hu.symm.trans hturn.get)))
    · refine ⟨hi, fun heq ↦ ?_⟩
      subst heq
      obtain ⟨u, hu, hkey, -, -⟩ := h.last k i hi
      obtain rfl := Option.some.inj (hturn.get.symm.trans hu)
      exact hmine (hkey ▸ hi)
  refine ⟨fun k i hi ↦ ?_, fun k hk j u hj hkey ↦ ?_⟩
  · obtain ⟨hi, hne⟩ := hget k i hi
    obtain ⟨u, hu, hkey, hunsettled, hlast⟩ := h.last k i hi
    refine ⟨u, by rwa [List.getElem?_set_ne hne.symm], hkey, hunsettled, fun j v hj hv ↦ ?_⟩
    rcases getElem?_set_cases hj with ⟨rfl, rfl⟩ | ⟨-, hj⟩
    · exact hlast _ t hturn.get hv
    · exact hlast j v hj hv
  · rcases getElem?_set_cases hj with ⟨rfl, rfl⟩ | ⟨hne, hj⟩
    · exact hpoint
    · split_ifs at hk with hmine
      · rw [JsMap.get_delete] at hk
        split_ifs at hk with hsame
        · -- The touch that ends was the last one, and all before it are settled.
          subst hsame
          obtain ⟨v, hv, -, -, hlast⟩ := h.last _ index hmine
          exact hturn.first j u hj hkey (lt_of_le_of_ne (hlast j u hj hkey) hne)
        · exact h.rest k hk j u hj hkey
      · exact h.rest k hk j u hj hkey

theorem Ordered.push (h : Ordered touches) (hnamed : Named touches operations) :
    Ordered (touches ++ [⟨key, operations.get key, .queued⟩]) := by
  have hcases : ∀ (j : ℕ) (u : Touch), (touches ++ [⟨key, operations.get key, .queued⟩])[j]? = some u →
      touches[j]? = some u ∨ j = touches.length ∧ u = ⟨key, operations.get key, .queued⟩ := by
    intro j u hj
    rcases lt_trichotomy j touches.length with hlt | rfl | hgt
    · exact .inl (by rwa [List.getElem?_append_left hlt] at hj)
    · rw [List.getElem?_concat_length] at hj
      exact .inr ⟨rfl, (Option.some.inj hj).symm⟩
    · rw [List.getElem?_eq_none (by simp; omega)] at hj
      cases hj
  have hlt : ∀ {j : ℕ} {u : Touch}, touches[j]? = some u → j < touches.length :=
    fun hj ↦ (List.getElem?_eq_some_iff.mp hj).1
  have hkeep : ∀ {j : ℕ} {u : Touch}, touches[j]? = some u →
      (touches ++ [⟨key, operations.get key, .queued⟩])[j]? = some u :=
    fun hj ↦ (List.getElem?_append_left (hlt hj)).trans hj
  refine ⟨fun i j u v hi hj hkey hij ↦ ?_, fun j u p hj hp ↦ ?_, fun i j u v hi hj hkey hij hstarted ↦ ?_⟩
  · rcases hcases i u hi with hi | ⟨rfl, rfl⟩ <;> rcases hcases j v hj with hj | ⟨rfl, rfl⟩
    · exact h.previous i j u v hi hj hkey hij
    · cases hlast : operations.get key with
      | none => exact .inl (hnamed.rest key hlast i u hi hkey)
      | some p =>
        obtain ⟨-, -, -, -, hmax⟩ := hnamed.last key p hlast
        exact .inr ⟨p, rfl, hmax i u hi hkey⟩
    · exact absurd (hlt hj) (by omega)
    · exact absurd hij (lt_irrefl _)
  · rcases hcases j u hj with hj | ⟨rfl, rfl⟩
    · obtain ⟨hpj, w, hw, hkey⟩ := h.earlier j u p hj hp
      exact ⟨hpj, w, hkeep hw, hkey⟩
    · obtain ⟨w, hw, hkey, -, -⟩ := hnamed.last key p hp
      exact ⟨hlt hw, w, hkeep hw, hkey⟩
  · rcases hcases i u hi with hi | ⟨rfl, rfl⟩ <;> rcases hcases j v hj with hj | ⟨rfl, rfl⟩
    · exact h.serial i j u v hi hj hkey hij hstarted
    · exact absurd rfl hstarted
    · exact absurd (hlt hj) (by omega)
    · exact absurd hij (lt_irrefl _)

theorem Named.push (h : Named touches operations) (previous : Option ℕ) :
    Named (touches ++ [⟨key, previous, .queued⟩]) (operations.set key touches.length) := by
  have hlt : ∀ {j : ℕ} {u : Touch}, (touches ++ [⟨key, previous, .queued⟩])[j]? = some u → j ≤ touches.length := by
    intro j u hj
    have hlen := (List.getElem?_eq_some_iff.mp hj).1
    rw [List.length_append, List.length_singleton] at hlen
    omega
  have hold : ∀ {j : ℕ} {u : Touch}, (touches ++ [⟨key, previous, .queued⟩])[j]? = some u → u.key ≠ key →
      touches[j]? = some u := by
    intro j u hj hne
    rcases (hlt hj).lt_or_eq with hj' | rfl
    · rwa [List.getElem?_append_left hj'] at hj
    · rw [List.getElem?_concat_length] at hj
      exact absurd (congrArg Touch.key (Option.some.inj hj)).symm hne
  refine ⟨fun k i hi ↦ ?_, fun k hk j u hj hkey ↦ ?_⟩
  · rw [JsMap.get_set] at hi
    split_ifs at hi with heq
    · obtain rfl := Option.some.inj hi
      exact ⟨_, List.getElem?_concat_length, heq.symm, rfl, fun j u hj _ ↦ hlt hj⟩
    · obtain ⟨u, hu, hkey, hunsettled, hlast⟩ := h.last k i hi
      refine ⟨u, ?_, hkey, hunsettled, fun j v hj hv ↦ hlast j v (hold hj (hv.trans_ne heq)) hv⟩
      rwa [List.getElem?_append_left (List.getElem?_eq_some_iff.mp hu).1]
  · rw [JsMap.get_set] at hk
    split_ifs at hk with heq
    exact h.rest k hk j u (hold hj (hkey.trans_ne heq)) hkey

theorem Chained.moveTo (h : Chained s) (hturn : Turn s.touches index t) (hpoint : point.isSettled = false) :
    Chained (s.moveTo index t point) :=
  ⟨h.ordered.set hturn point, h.named.set hturn hpoint⟩

theorem Chained.settle (h : Chained s) (hturn : Turn s.touches index t) (resolved : Bool) :
    Chained (s.settle index t resolved) :=
  ⟨h.ordered.set hturn _, h.named.settle hturn rfl⟩

/-- The touches and the operations are as before. -/
theorem Chained.congr (h : Chained s) (s' : EvalKernelLeaseCoordinator) (htouches : s'.touches = s.touches)
    (hoperations : s'.operations = s.operations) : Chained s' := ⟨htouches ▸ h.ordered, htouches ▸ hoperations ▸ h.named⟩

/-! ## Turns -/

theorem touches_forget : (s.forget key lease).touches = s.touches ∧ (s.forget key lease).operations = s.operations := by
  unfold forget
  split_ifs <;> exact ⟨rfl, rfl⟩

/-- A touch that waits for an answer is at its turn. -/
theorem Chained.turn_of_lease (h : Chained s) (ht : s.touches[index]? = some t) (hlease : t.point.lease = some lease) :
    Turn s.touches index t := by
  refine ⟨ht, ?_, fun i u hi hkey hlt ↦ h.ordered.serial i index u t hi ht hkey hlt ?_⟩
  · cases hpoint : t.point <;> rw [hpoint] at hlease <;> first | rfl | exact nomatch hlease
  · intro hqueued
    rw [hqueued] at hlease
    exact nomatch hlease

theorem hasSettled_iff : s.hasSettled index = true ↔ ∀ t, s.touches[index]? = some t → t.point.isSettled = true := by
  rw [hasSettled, Option.all_eq_true]

/-- A queued touch is at its turn when the one before it is settled. -/
theorem Chained.turn_of_startable (h : Chained s) (ht : s.touches[index]? = some t) (hstart : s.startable t = true) :
    Turn s.touches index t := by
  obtain ⟨hqueued, hprevious⟩ := Bool.and_eq_true_iff.mp hstart
  refine ⟨ht, by rw [of_decide_eq_true hqueued]; rfl, fun i u hi hkey hlt ↦ ?_⟩
  rcases h.ordered.previous i index u t hi ht hkey hlt with hsettled | ⟨p, hp, hle⟩
  · exact hsettled
  · rw [hp, Option.all_some] at hprevious
    have hsettled := hasSettled_iff.mp hprevious
    rcases hle.lt_or_eq with hlt' | rfl
    · obtain ⟨-, v, hv, hkey'⟩ := h.ordered.earlier index t p ht hp
      refine h.ordered.serial i p u v hi hv (hkey.trans hkey'.symm) hlt' fun hq ↦ ?_
      have hqueued := hsettled v hv
      rw [hq] at hqueued
      exact nomatch hqueued
    · exact hsettled u hi

theorem chained_step (h : Chained s) (hstep : step s e = some s') : Chained s' := by
  cases e with
  | touch ref =>
    obtain rfl := Option.some.inj hstep
    unfold touch
    split_ifs
    · exact h
    · exact ⟨h.ordered.push h.named, h.named.push _⟩
  | start index =>
    obtain ⟨t, ht, rfl⟩ := Option.map_eq_some_iff.mp hstep
    obtain ⟨hget, hstart⟩ := Option.filter_eq_some_iff.mp ht
    have hturn := h.turn_of_startable hget hstart
    unfold touchLocked
    split_ifs
    · exact h.settle hturn _
    · split
      · exact h.moveTo hturn rfl
      · exact (h.congr (s.createLease t.key) rfl rfl).moveTo hturn rfl
  | acquireReply index reply =>
    obtain ⟨t, ht, hreply⟩ := Option.bind_eq_some_iff.mp hstep
    split at hreply
    · rename_i lease hpoint
      obtain rfl := Option.some.inj hreply
      have hturn := h.turn_of_lease ht (congrArg TouchPoint.lease hpoint)
      have hforget := h.congr (s.forget t.key lease) touches_forget.1 touches_forget.2
      have hturn' : Turn (s.forget t.key lease).touches index t := by
        rw [touches_forget.1]
        exact hturn
      unfold acquired
      split
      · exact hforget.settle hturn' _
      · split_ifs
        · exact hforget.settle hturn' _
        · exact h.settle hturn _
        · exact (h.congr (s.createLease t.key) rfl rfl).moveTo hturn rfl
        · exact h.moveTo hturn rfl
    · rename_i lease hpoint
      obtain rfl := Option.some.inj hreply
      have hturn := h.turn_of_lease ht (congrArg TouchPoint.lease hpoint)
      unfold reacquired
      split
      · exact h.settle hturn _
      · exact h.settle hturn _
      · exact h.moveTo hturn rfl
    · cases hreply
  | attachReply index ok =>
    obtain ⟨t, ht, hreply⟩ := Option.bind_eq_some_iff.mp hstep
    split at hreply
    · rename_i lease hpoint
      obtain rfl := Option.some.inj hreply
      have hturn := h.turn_of_lease ht (congrArg TouchPoint.lease hpoint)
      unfold attached
      split_ifs
      · exact h.settle hturn _
      · have hturn' : Turn (s.forget t.key lease).touches index t := by
          rw [touches_forget.1]
          exact hturn
        exact (h.congr _ touches_forget.1 touches_forget.2).settle hturn' _
      · exact (h.congr (s.openHold lease) rfl rfl).settle hturn _
    · cases hreply
  | settleHold lease =>
    obtain ⟨record, -, rfl⟩ := Option.map_eq_some_iff.mp hstep
    exact h.congr _ touches_forget.1 touches_forget.2
  | close => exact Option.some.inj hstep ▸ h.congr _ rfl rfl
  | round index =>
    obtain ⟨closer, -, hround⟩ := Option.bind_eq_some_iff.mp hstep
    split at hround
    · obtain ⟨-, hround⟩ := Option.ite_none_right_eq_some.mp hround
      obtain rfl := Option.some.inj hround
      unfold nextRound
      split_ifs <;> exact h.congr _ rfl rfl
    · cases hround

theorem chained_of_reachable {ok : EvalKernelLeaseCoordinator → Event → Bool} (h : Reachable step ok init s) :
    Chained s := h.invariant chained_init fun _ _ _ hs _ hstep ↦ chained_step hs hstep

/-- Two touches of one key do not wait for answers at once. -/
theorem Chained.exclusive (h : Chained s) {i j : ℕ} {t u : Touch} (hi : s.touches[i]? = some t)
    (hj : s.touches[j]? = some u) (hkey : t.key = u.key) (ht : t.point.lease ≠ none) (hu : u.point.lease ≠ none) :
    i = j := by
  obtain ⟨l, hl⟩ := Option.ne_none_iff_exists'.mp ht
  obtain ⟨l', hl'⟩ := Option.ne_none_iff_exists'.mp hu
  have hti := h.turn_of_lease hi hl
  have htj := h.turn_of_lease hj hl'
  rcases lt_trichotomy i j with hlt | heq | hgt
  · exact absurd (hti.unsettled.symm.trans (htj.first i t hi hkey hlt)) nofun
  · exact heq
  · exact absurd (htj.unsettled.symm.trans (hti.first j u hj hkey.symm hgt)) nofun

/-! ## The leases of a key -/

/-- The lease that a touch of the key works on. It is in the table, unless its hold has settled. -/
def Working (s : EvalKernelLeaseCoordinator) (key : JsString) (point : TouchPoint) (lease : ℕ) : Prop :=
  ∃ record, s.records[lease]? = some record ∧ record.key = key ∧
    s.leases.get key = (if record.hold = some .settled then none else some lease) ∧
    (point ≠ .acquiring lease → record.hold = none)

/-- The lease is open: it is kept without a touch that works on it. -/
def Open (s : EvalKernelLeaseCoordinator) (key : JsString) (lease : ℕ) : Prop :=
  ∃ record, s.records[lease]? = some record ∧ record.key = key ∧ record.hold = some .unsettled

structure LeasedKey (s : EvalKernelLeaseCoordinator) (key : JsString) : Prop where
  idle : (∀ (i : ℕ) (t : Touch), s.touches[i]? = some t → t.key = key → t.point.lease = none) →
    ∀ lease, s.leases.get key = some lease → s.Open key lease
  working : ∀ (i : ℕ) (t : Touch) (lease : ℕ), s.touches[i]? = some t → t.key = key → t.point.lease = some lease →
    s.Working key t.point lease

structure Leased (s : EvalKernelLeaseCoordinator) : Prop where
  keys : ∀ key, s.LeasedKey key
  holding : ∀ (lease : ℕ) (record : LiveLease), s.records[lease]? = some record →
    (record.holding = true ↔ record.hold ≠ none)

theorem leased_init : Leased init :=
  ⟨fun _ ↦ ⟨fun _ _ (h : none = some _) ↦ (nomatch h), nofun⟩, nofun⟩

/-- Nothing of another key changes. -/
structure Apart (key : JsString) (s s' : EvalKernelLeaseCoordinator) : Prop where
  leases : ∀ k, k ≠ key → s'.leases.get k = s.leases.get k
  touches : ∀ (i : ℕ) (t : Touch), t.key ≠ key → (s'.touches[i]? = some t ↔ s.touches[i]? = some t)
  records : ∀ (lease : ℕ) (record : LiveLease), s.records[lease]? = some record → record.key ≠ key →
    s'.records[lease]? = some record

theorem LeasedKey.apart {k : JsString} (h : s.LeasedKey k) (hapart : Apart key s s') (hne : k ≠ key) :
    s'.LeasedKey k := by
  refine ⟨fun hidle lease hlease ↦ ?_, fun i t lease ht hkey hlease ↦ ?_⟩
  · obtain ⟨record, hrecord, hk, hhold⟩ := h.idle (fun i t ht hkey ↦
      hidle i t ((hapart.touches i t (hkey.trans_ne hne)).mpr ht) hkey) lease ((hapart.leases k hne).symm.trans hlease)
    exact ⟨record, hapart.records lease record hrecord (hk.trans_ne hne), hk, hhold⟩
  · obtain ⟨record, hrecord, hk, hget, hfresh⟩ :=
      h.working i t lease ((hapart.touches i t (hkey.trans_ne hne)).mp ht) hkey hlease
    exact ⟨record, hapart.records lease record hrecord (hk.trans_ne hne), hk, (hapart.leases k hne).trans hget, hfresh⟩

/-- The touch of a key moves on: what is to be shown of the key. -/
structure Moves (s s' : EvalKernelLeaseCoordinator) (index : ℕ) (t : Touch) (point : TouchPoint) : Prop where
  touches : s'.touches = s.touches.set index { t with point }
  leases : ∀ k, k ≠ t.key → s'.leases.get k = s.leases.get k
  records : ∀ (lease : ℕ) (record : LiveLease), s.records[lease]? = some record → record.key ≠ t.key →
    s'.records[lease]? = some record
  holding : ∀ (lease : ℕ) (record : LiveLease), s'.records[lease]? = some record →
    (record.holding = true ↔ record.hold ≠ none)
  done : point.lease = none → ∀ lease, s'.leases.get t.key = some lease → s'.Open t.key lease
  working : ∀ lease, point.lease = some lease → s'.Working t.key point lease

theorem Leased.moves (h : Leased s) (hchained : Chained s) (hturn : Turn s.touches index t)
    (hmoves : Moves s s' index t point) : Leased s' := by
  have hapart : Apart t.key s s' := by
    refine ⟨hmoves.leases, fun i u hne ↦ ?_, hmoves.records⟩
    rw [hmoves.touches, List.getElem?_set]
    split_ifs with heq hlen
    · subst heq
      rw [hturn.get]
      exact ⟨fun hu ↦ absurd (congrArg Touch.key (Option.some.inj hu)).symm hne,
        fun hu ↦ absurd (congrArg Touch.key (Option.some.inj hu)).symm hne⟩
    · subst heq
      rw [List.getElem?_eq_none (Nat.le_of_not_lt hlen)]
      exact ⟨False.elim, nofun⟩
    · exact Iff.rfl
  refine ⟨fun k ↦ ?_, hmoves.holding⟩
  by_cases hk : k = t.key
  · subst hk
    refine ⟨fun hidle ↦ hmoves.done ?_, fun i u lease hu hkey hlease ↦ ?_⟩
    · refine hidle index { t with point } ?_ rfl
      rw [hmoves.touches]
      exact hturn.get_set _
    · rw [hmoves.touches] at hu
      rcases getElem?_set_cases hu with ⟨rfl, rfl⟩ | ⟨hne, hu'⟩
      · exact hmoves.working lease hlease
      · -- Another touch of the key would not be at its turn.
        have hother := hchained.turn_of_lease hu' hlease
        rcases lt_or_gt_of_ne hne with hlt | hgt
        · exact absurd (hother.unsettled.symm.trans (hturn.first i u hu' hkey hlt)) nofun
        · exact absurd (hturn.unsettled.symm.trans (hother.first index t hturn.get hkey.symm hgt)) nofun
  · exact (h.keys k).apart hapart hk

/-- Before a touch of the key is admitted, no other one is. -/
theorem Chained.idle_of_turn (h : Chained s) (hturn : Turn s.touches index t) (hlease : t.point.lease = none) :
    ∀ (i : ℕ) (u : Touch), s.touches[i]? = some u → u.key = t.key → u.point.lease = none := by
  intro i u hu hkey
  by_contra hne
  obtain ⟨l, hl⟩ := Option.ne_none_iff_exists'.mp hne
  have hother := h.turn_of_lease hu hl
  rcases lt_trichotomy i index with hlt | rfl | hgt
  · exact absurd (hother.unsettled.symm.trans (hturn.first i u hu hkey hlt)) nofun
  · obtain rfl := Option.some.inj (hturn.get.symm.trans hu)
    exact hne hlease
  · exact absurd (hturn.unsettled.symm.trans (hother.first index t hturn.get hkey.symm hgt)) nofun

theorem lt_of_record {record : LiveLease} (h : s.records[lease]? = some record) : lease < s.records.length :=
  (List.getElem?_eq_some_iff.mp h).1

/-- The lease that a touch works on is forgotten. -/
theorem get_forget (h : s.Working key point lease) : (s.forget key lease).leases.get key = none := by
  obtain ⟨record, -, -, hget, -⟩ := h
  unfold forget
  split_ifs with hmine
  · rw [JsMap.get_delete, if_pos rfl]
  · split_ifs at hget with hsettled
    · exact hget
    · exact absurd hget hmine

theorem forget_apart : (∀ k, k ≠ key → (s.forget key lease).leases.get k = s.leases.get k) ∧
    (s.forget key lease).records = s.records := by
  unfold forget
  split_ifs
  · exact ⟨fun k hk ↦ by rw [JsMap.get_delete, if_neg hk], rfl⟩
  · exact ⟨fun _ _ ↦ rfl, rfl⟩

theorem forget_moves (h : Leased s) (hworking : s.Working t.key t.point lease) (resolved : Bool) :
    Moves s ((s.forget t.key lease).settle index t resolved) index t (.settled resolved) where
  touches := congrArg (fun l : List Touch ↦ l.set index { t with point := .settled resolved }) touches_forget.1
  leases := forget_apart.1
  records l _ hrecord _ := (congrArg (fun records : List LiveLease ↦ records[l]?) forget_apart.2).trans hrecord
  holding l record hrecord :=
    h.holding l record ((congrArg (fun records : List LiveLease ↦ records[l]?) forget_apart.2).symm.trans hrecord)
  done _ _ hl := nomatch (get_forget hworking).symm.trans hl
  working _ hl := nomatch hl

/-- A lease that is made is worked on by the touch that makes it. -/
theorem create_working (key : JsString) (point : TouchPoint) :
    (s.createLease key).Working key point s.nextLease :=
  ⟨⟨key, false, false, none⟩, List.getElem?_concat_length, rfl, JsMap.get_set_self _ _ _, fun _ ↦ rfl⟩

theorem create_moves (h : Leased s) (hlease : point.lease = some s.nextLease) :
    Moves s ((s.createLease t.key).moveTo index t point) index t point where
  touches := rfl
  leases k hk := JsMap.get_set_of_ne _ hk _
  records l record hrecord _ := by
    change (s.records ++ _)[l]? = _
    rwa [List.getElem?_append_left (lt_of_record hrecord)]
  holding l record hrecord := by
    change (s.records ++ _)[l]? = _ at hrecord
    rcases Nat.lt_or_ge l s.records.length with hlt | hge
    · rw [List.getElem?_append_left hlt] at hrecord
      exact h.holding l record hrecord
    · rw [List.getElem?_append_right hge, List.getElem?_singleton] at hrecord
      split_ifs at hrecord
      obtain rfl := Option.some.inj hrecord
      exact ⟨nofun, fun hne ↦ absurd rfl hne⟩
  done hnone := nomatch hnone.symm.trans hlease
  working l hl := by
    obtain rfl := Option.some.inj (hlease.symm.trans hl)
    exact create_working t.key point

/-- The touch moves on, and the leases stay as they are. -/
theorem stay_moves (h : Leased s) (htouches : s'.touches = s.touches.set index { t with point })
    (hleases : s'.leases = s.leases) (hrecords : s'.records = s.records)
    (hdone : point.lease = none → ∀ lease, s.leases.get t.key = some lease → s.Open t.key lease)
    (hworking : ∀ lease, point.lease = some lease → s.Working t.key point lease) : Moves s s' index t point where
  touches := htouches
  leases _ _ := by rw [hleases]
  records l record hrecord _ := hrecords ▸ hrecord
  holding l record hrecord := h.holding l record (hrecords ▸ hrecord)
  done hnone l hl := by
    obtain ⟨record, hrecord, hkey⟩ := hdone hnone l (hleases ▸ hl)
    exact ⟨record, hrecords ▸ hrecord, hkey⟩
  working l hl := by
    obtain ⟨record, hrecord, hkey, hget, hfresh⟩ := hworking l hl
    exact ⟨record, hrecords ▸ hrecord, hkey, hleases ▸ hget, hfresh⟩

theorem isHolding_iff (h : Leased s) {record : LiveLease} (hrecord : s.records[lease]? = some record) :
    s.isHolding lease = true ↔ record.hold ≠ none := by
  rw [isHolding, hrecord, Option.any_some]
  exact h.holding lease record hrecord

/-! ## Tidy steps -/

/-- The answers after which the lease of the touch is left without a hold. -/
def tidy (s : EvalKernelLeaseCoordinator) (e : Event) : Bool :=
  match e with
  | .attachReply _ ok => ok
  | .acquireReply index reply =>
    match s.touches[index]?.map Touch.point with
    | some (.acquiring lease) => decide (reply ≠ some true) || s.closed || s.isHolding lease
    | some (.reacquiring _) => decide (reply = some false)
    | _ => true
  | _ => true

theorem Leased.touch (h : Leased s) (ref : DORef) : Leased (s.touch ref) := by
  unfold EvalKernelLeaseCoordinator.touch
  split_ifs
  · exact h
  · refine ⟨fun k ↦ ⟨fun hidle ↦ (h.keys k).idle fun i t ht ↦ hidle i t ?_, fun i t lease ht hkey hlease ↦ ?_⟩, h.holding⟩
    · rw [List.getElem?_append_left (List.getElem?_eq_some_iff.mp ht).1]
      exact ht
    · refine (h.keys k).working i t lease ?_ hkey hlease
      rcases Nat.lt_or_ge i s.touches.length with hlt | hge
      · rwa [List.getElem?_append_left hlt] at ht
      · rw [List.getElem?_append_right hge, List.getElem?_singleton] at ht
        split_ifs at ht
        cases Option.some.inj ht ▸ hlease

theorem Leased.start (h : Leased s) (hchained : Chained s) (hturn : Turn s.touches index t) (hqueued : t.point = .queued) :
    Leased (s.touchLocked index t) := by
  have hidle := (h.keys t.key).idle (hchained.idle_of_turn hturn (congrArg TouchPoint.lease hqueued))
  unfold touchLocked
  split_ifs
  · exact h.moves hchained hturn (stay_moves h rfl rfl rfl (fun _ ↦ hidle) (by rintro _ ⟨⟩))
  · split
    · rename_i lease hlease
      refine h.moves hchained hturn (stay_moves h rfl rfl rfl (by rintro ⟨⟩) fun l hl ↦ ?_)
      obtain rfl := Option.some.inj hl
      obtain ⟨record, hrecord, hkey, hhold⟩ := hidle lease hlease
      exact ⟨record, hrecord, hkey, by rw [hhold]; exact hlease, fun hne ↦ absurd rfl hne⟩
    · exact h.moves hchained hturn (create_moves h rfl)

theorem Leased.acquired (h : Leased s) (hchained : Chained s) (ht : s.touches[index]? = some t)
    (hpoint : t.point = .acquiring lease) {reply : Option Bool}
    (htidy : s.tidy (.acquireReply index reply) = true) : Leased (s.acquired index t lease reply) := by
  have hlease := congrArg TouchPoint.lease hpoint
  have hturn := hchained.turn_of_lease ht hlease
  have hworking := (h.keys t.key).working index t lease ht rfl hlease
  rw [tidy, ht, Option.map_some, hpoint] at htidy
  dsimp only at htidy
  unfold EvalKernelLeaseCoordinator.acquired
  split
  · exact h.moves hchained hturn (forget_moves h hworking false)
  · rename_i holderAttached
    obtain ⟨record, hrecord, hkey, hget, -⟩ := hworking
    split_ifs with hclosed hattached hholding
    · exact h.moves hchained hturn (forget_moves h ((h.keys t.key).working index t lease ht rfl hlease) true)
    · -- A holder is attached, so the lease is holding: if it is in the table its hold is open.
      refine h.moves hchained hturn (stay_moves h rfl rfl rfl (fun _ l hl ↦ ?_) (by rintro _ ⟨⟩))
      have hheld : s.isHolding lease = true := by
        rw [hattached, Bool.eq_false_iff.mpr hclosed] at htidy
        exact htidy
      split_ifs at hget with hsettled
      · cases hget.symm.trans hl
      · obtain rfl := Option.some.inj (hget.symm.trans hl)
        have hne := (isHolding_iff h hrecord).mp hheld
        refine ⟨record, hrecord, hkey, ?_⟩
        rcases hhold : record.hold with _ | _ | _
        · exact absurd hhold hne
        · rfl
        · exact absurd hhold hsettled
    · exact h.moves hchained hturn (create_moves h rfl)
    · refine h.moves hchained hturn (stay_moves h rfl rfl rfl (by rintro ⟨⟩) fun l hl ↦ ?_)
      obtain rfl := Option.some.inj hl
      have hnone : record.hold = none := by
        by_contra hne
        exact hholding ((isHolding_iff h hrecord).mpr hne)
      exact ⟨record, hrecord, hkey, hget, fun _ ↦ hnone⟩

theorem Leased.reacquired (h : Leased s) (hchained : Chained s) (ht : s.touches[index]? = some t)
    (hpoint : t.point = .reacquiring lease) {reply : Option Bool}
    (htidy : s.tidy (.acquireReply index reply) = true) : Leased (s.reacquired index t lease reply) := by
  have hlease := congrArg TouchPoint.lease hpoint
  have hturn := hchained.turn_of_lease ht hlease
  obtain ⟨record, hrecord, hkey, hget, hfresh⟩ := (h.keys t.key).working index t lease ht rfl hlease
  rw [tidy, ht, Option.map_some, hpoint] at htidy
  obtain rfl := of_decide_eq_true htidy
  refine h.moves hchained hturn (stay_moves h rfl rfl rfl nofun fun l hl ↦ ?_)
  obtain rfl := Option.some.inj hl
  exact ⟨record, hrecord, hkey, hget, fun _ ↦ hfresh (hpoint ▸ nofun)⟩

theorem records_openHold (l : ℕ) : (s.openHold lease).records[l]? =
    if l = lease then s.records[l]?.map fun record ↦ { record with holding := true, hold := some .unsettled }
    else s.records[l]? := by
  split_ifs with heq
  · subst heq
    exact List.getElem?_modify_eq _ _ _
  · exact List.getElem?_modify_ne _ _ (Ne.symm heq)

theorem open_moves (h : Leased s) (hworking : s.Working t.key (.attaching lease) lease) :
    Moves s ((s.openHold lease).settle index t true) index t (.settled true) := by
  obtain ⟨record, hrecord, hkey, hget, hfresh⟩ := hworking
  have hnone := hfresh nofun
  have hcases : ∀ (l : ℕ) (r : LiveLease), (s.openHold lease).records[l]? = some r →
      l = lease ∧ r = { record with holding := true, hold := some .unsettled } ∨ l ≠ lease ∧ s.records[l]? = some r := by
    intro l r hr
    rw [records_openHold] at hr
    split_ifs at hr with heq
    · subst heq
      rw [hrecord] at hr
      exact .inl ⟨rfl, (Option.some.inj hr).symm⟩
    · exact .inr ⟨heq, hr⟩
  constructor
  · rfl
  · exact fun _ _ ↦ rfl
  · intro l r hr hne
    refine (records_openHold l).trans ?_
    rw [if_neg, hr]
    rintro rfl
    exact hne (Option.some.inj (hr.symm.trans hrecord) ▸ hkey)
  · intro l r hr
    rcases hcases l r hr with ⟨-, rfl⟩ | ⟨-, hr'⟩
    · exact ⟨nofun, fun _ ↦ rfl⟩
    · exact h.holding l r hr'
  · intro _ l hl
    rw [hnone, if_neg nofun] at hget
    obtain rfl := Option.some.inj (hget.symm.trans hl)
    refine ⟨{ record with holding := true, hold := some .unsettled }, ?_, hkey, rfl⟩
    refine (records_openHold lease).trans ?_
    rw [if_pos rfl, hrecord]
    rfl
  · exact nofun

theorem Leased.attached (h : Leased s) (hchained : Chained s) (ht : s.touches[index]? = some t)
    (hpoint : t.point = .attaching lease) : Leased (s.attached index t lease true) := by
  have hlease := congrArg TouchPoint.lease hpoint
  have hturn := hchained.turn_of_lease ht hlease
  have hworking := (h.keys t.key).working index t lease ht rfl hlease
  unfold EvalKernelLeaseCoordinator.attached
  rw [if_neg nofun]
  split_ifs
  · exact h.moves hchained hturn (forget_moves h hworking true)
  · exact h.moves hchained hturn (open_moves h (hpoint ▸ hworking))

theorem Leased.settleHold (h : Leased s) {record : LiveLease} (hrecord : s.records[lease]? = some record)
    (hhold : record.hold = some .unsettled) : Leased (s.settleHold lease record) := by
  have hlen := lt_of_record hrecord
  have hrecords : (s.settleHold lease record).records = s.records.set lease { record with hold := some .settled } := by
    rw [EvalKernelLeaseCoordinator.settleHold, forget_apart.2]
  have htouches : (s.settleHold lease record).touches = s.touches := touches_forget.1
  have hleases : ∀ k, (s.settleHold lease record).leases.get k =
      if s.leases.get k = some lease ∧ k = record.key then none else s.leases.get k := by
    intro k
    unfold EvalKernelLeaseCoordinator.settleHold forget
    dsimp only
    split_ifs with hmine hk hk
    · rw [JsMap.get_delete, if_pos hk.2]
    · rw [JsMap.get_delete, if_neg fun hkey : k = record.key ↦ hk ⟨by rw [hkey]; exact hmine, hkey⟩]
    · exact absurd (hk.2 ▸ hk.1) hmine
    · rfl
  have hother : ∀ l, l ≠ lease → (s.settleHold lease record).records[l]? = s.records[l]? := by
    intro l hne
    rw [hrecords, List.getElem?_set_ne hne.symm]
  have hself : (s.settleHold lease record).records[lease]? = some { record with hold := some .settled } := by
    rw [hrecords, List.getElem?_set_self hlen]
  refine ⟨fun k ↦ ⟨fun hidle l hl ↦ ?_, fun i t l ht hkey hl ↦ ?_⟩, fun l r hr ↦ ?_⟩
  · rw [hleases] at hl
    split_ifs at hl with hmine
    obtain ⟨r, hr, hk, hopen⟩ := (h.keys k).idle (htouches ▸ hidle) l hl
    have hne : l ≠ lease := by
      rintro rfl
      obtain rfl := Option.some.inj (hrecord.symm.trans hr)
      exact hmine ⟨hl, hk.symm⟩
    exact ⟨r, (hother l hne).trans hr, hk, hopen⟩
  · obtain ⟨r, hr, hk, hget, hfresh⟩ := (h.keys k).working i t l (htouches ▸ ht) hkey hl
    by_cases hsame : l = lease
    · subst hsame
      obtain rfl := Option.some.inj (hrecord.symm.trans hr)
      have hmine : s.leases.get k = some l := by
        rw [hget, if_neg]
        rw [hhold]
        rintro ⟨⟩
      refine ⟨_, hself, hk, ?_, fun hpoint ↦ (by cases hhold.symm.trans (hfresh hpoint))⟩
      rw [hleases, if_pos ⟨hmine, hk.symm⟩, if_pos rfl]
    · refine ⟨r, (hother l hsame).trans hr, hk, ?_, hfresh⟩
      rw [hleases, if_neg]
      · exact hget
      · rintro ⟨hl', -⟩
        rw [hget] at hl'
        split_ifs at hl'
        exact hsame (Option.some.inj hl')
  · by_cases hsame : l = lease
    · subst hsame
      obtain rfl := Option.some.inj (hself.symm.trans hr)
      exact ⟨fun _ ↦ Option.some_ne_none _, fun _ ↦ (h.holding l record hrecord).mpr (by rw [hhold]; rintro ⟨⟩)⟩
    · exact h.holding l r ((hother l hsame).symm.trans hr)

/-- The leases of the table are aborted, and are otherwise as they were. -/
theorem records_abortLeases (l : ℕ) : s.abortLeases.records[l]? = s.records[l]?.map fun record ↦
    if l ∈ s.leases.map Prod.snd then { record with aborted := true } else record := List.getElem?_mapIdx

theorem abortLeases_cases {r : LiveLease} (h : s.abortLeases.records[lease]? = some r) :
    ∃ record, s.records[lease]? = some record ∧ r.key = record.key ∧ r.holding = record.holding ∧
      r.hold = record.hold ∧ (record.aborted = true → r.aborted = true) ∧
      (lease ∈ s.leases.map Prod.snd → r.aborted = true) := by
  rw [records_abortLeases] at h
  obtain ⟨record, hrecord, rfl⟩ := Option.map_eq_some_iff.mp h
  refine ⟨record, hrecord, ?_⟩
  split_ifs with hmem
  · exact ⟨rfl, rfl, rfl, fun _ ↦ rfl, fun _ ↦ rfl⟩
  · exact ⟨rfl, rfl, rfl, fun haborted ↦ haborted, fun hl ↦ absurd hl hmem⟩

theorem Leased.abort (h : Leased s) (htouches : s'.touches = s.touches) (hleases : s'.leases = s.leases)
    (hrecords : s'.records = s.abortLeases.records) : Leased s' := by
  have hrecord : ∀ {l : ℕ} {record : LiveLease}, s.records[l]? = some record → ∃ r, s'.records[l]? = some r ∧
      r.key = record.key ∧ r.hold = record.hold := by
    intro l record hl
    rw [hrecords, records_abortLeases, hl]
    refine ⟨_, rfl, ?_⟩
    split_ifs <;> exact ⟨rfl, rfl⟩
  refine ⟨fun k ↦ ⟨fun hidle l hl ↦ ?_, fun i t l ht hkey hl ↦ ?_⟩, fun l r hr ↦ ?_⟩
  · obtain ⟨record, hl, hk, hopen⟩ := (h.keys k).idle (htouches ▸ hidle) l (hleases ▸ hl)
    obtain ⟨r, hr, hkey, hhold⟩ := hrecord hl
    exact ⟨r, hr, hkey.trans hk, hhold.trans hopen⟩
  · obtain ⟨record, hl, hk, hget, hfresh⟩ := (h.keys k).working i t l (htouches ▸ ht) hkey hl
    obtain ⟨r, hr, hkey, hhold⟩ := hrecord hl
    exact ⟨r, hr, hkey.trans hk, by rw [hhold, hleases]; exact hget, fun hne ↦ hhold.trans (hfresh hne)⟩
  · obtain ⟨record, hl, -, hholding, hhold, -, -⟩ := abortLeases_cases (hrecords ▸ hr)
    rw [hholding, hhold]
    exact h.holding l record hl

theorem leased_step (h : Leased s) (hchained : Chained s) (htidy : s.tidy e = true) (hstep : step s e = some s') :
    Leased s' := by
  cases e with
  | touch ref => exact Option.some.inj hstep ▸ h.touch ref
  | start index =>
    obtain ⟨t, ht, rfl⟩ := Option.map_eq_some_iff.mp hstep
    obtain ⟨hget, hstart⟩ := Option.filter_eq_some_iff.mp ht
    exact h.start hchained (hchained.turn_of_startable hget hstart)
      (of_decide_eq_true (Bool.and_eq_true_iff.mp hstart).1)
  | acquireReply index reply =>
    obtain ⟨t, ht, hreply⟩ := Option.bind_eq_some_iff.mp hstep
    split at hreply
    · rename_i lease hpoint
      exact Option.some.inj hreply ▸ h.acquired hchained ht hpoint htidy
    · rename_i lease hpoint
      exact Option.some.inj hreply ▸ h.reacquired hchained ht hpoint htidy
    · exact nomatch hreply
  | attachReply index ok =>
    obtain ⟨t, ht, hreply⟩ := Option.bind_eq_some_iff.mp hstep
    obtain rfl : ok = true := htidy
    split at hreply
    · rename_i lease hpoint
      exact Option.some.inj hreply ▸ h.attached hchained ht hpoint
    · exact nomatch hreply
  | settleHold lease =>
    obtain ⟨record, hrecord, rfl⟩ := Option.map_eq_some_iff.mp hstep
    obtain ⟨hget, hhold⟩ := Option.filter_eq_some_iff.mp hrecord
    exact h.settleHold hget (of_decide_eq_true hhold)
  | close => exact Option.some.inj hstep ▸ h.abort rfl rfl rfl
  | round index =>
    obtain ⟨closer, -, hround⟩ := Option.bind_eq_some_iff.mp hstep
    split at hround
    · obtain ⟨-, hround⟩ := Option.ite_none_right_eq_some.mp hround
      obtain rfl := Option.some.inj hround
      unfold nextRound
      split_ifs
      · exact ⟨fun k ↦ ⟨(h.keys k).idle, (h.keys k).working⟩, h.holding⟩
      · exact h.abort rfl rfl rfl
    · exact nomatch hround

/-- A lease in the table has a touch of its key that waits for an answer, or an open hold. -/
def Warm (s : EvalKernelLeaseCoordinator) : Prop :=
  ∀ key lease, s.leases.get key = some lease →
    (∃ (i : ℕ) (t : Touch), s.touches[i]? = some t ∧ t.key = key ∧ t.point.lease ≠ none) ∨ s.Open key lease

theorem Leased.warm (h : Leased s) : Warm s := by
  intro key lease hlease
  by_cases hidle : ∀ (i : ℕ) (t : Touch), s.touches[i]? = some t → t.key = key → t.point.lease = none
  · exact .inr ((h.keys key).idle hidle lease hlease)
  · push Not at hidle
    exact .inl hidle

/-- A touch that ends and leaves its lease in the table without a hold. -/
theorem not_warm_settle (h : Leased s) (hchained : Chained s) (ht : s.touches[index]? = some t)
    (hlease : t.point.lease = some lease) {record : LiveLease} (hrecord : s.records[lease]? = some record)
    (hnone : record.hold = none) (resolved : Bool) : ¬ Warm (s.settle index t resolved) := by
  intro hwarm
  have hturn := hchained.turn_of_lease ht hlease
  obtain ⟨r, hr, -, hget, -⟩ := (h.keys t.key).working index t lease ht rfl hlease
  obtain rfl := Option.some.inj (hrecord.symm.trans hr)
  rw [hnone, if_neg nofun] at hget
  rcases hwarm t.key lease hget with ⟨i, u, hu, hkey, hbusy⟩ | ⟨r, hr, -, hopen⟩
  · rcases getElem?_set_cases hu with ⟨rfl, rfl⟩ | ⟨hne, hu'⟩
    · exact hbusy rfl
    · exact hne (hchained.exclusive hu' ht hkey hbusy (hlease ▸ nofun))
  · obtain rfl := Option.some.inj (hrecord.symm.trans hr)
    exact nomatch hnone.symm.trans hopen

/-- **A step that is not tidy** leaves a lease without a touch and without a hold. -/
theorem not_warm_of_not_tidy (h : Leased s) (hchained : Chained s) (htidy : s.tidy e = false)
    (hstep : step s e = some s') : ¬ Warm s' := by
  cases e with
  | acquireReply index reply =>
    obtain ⟨t, ht, hreply⟩ := Option.bind_eq_some_iff.mp hstep
    rw [tidy, ht, Option.map_some] at htidy
    split at hreply
    · rename_i lease hpoint
      obtain rfl := Option.some.inj hreply
      have hlease := congrArg TouchPoint.lease hpoint
      rw [hpoint] at htidy
      dsimp only at htidy
      rw [Bool.or_eq_false_iff, Bool.or_eq_false_iff, decide_eq_false_iff_not, not_not] at htidy
      obtain ⟨⟨rfl, hclosed⟩, hholding⟩ := htidy
      obtain ⟨record, hrecord, -⟩ := (h.keys t.key).working index t lease ht rfl hlease
      have hnone : record.hold = none := by
        by_contra hne
        exact absurd ((isHolding_iff h hrecord).mpr hne) (Bool.eq_false_iff.mp hholding)
      unfold acquired
      rw [hclosed]
      exact not_warm_settle h hchained ht hlease hrecord hnone true
    · rename_i lease hpoint
      obtain rfl := Option.some.inj hreply
      have hlease := congrArg TouchPoint.lease hpoint
      rw [hpoint] at htidy
      obtain ⟨record, hrecord, -, -, hfresh⟩ := (h.keys t.key).working index t lease ht rfl hlease
      have hnone := hfresh (hpoint ▸ nofun)
      unfold reacquired
      split
      · exact not_warm_settle h hchained ht hlease hrecord hnone false
      · exact not_warm_settle h hchained ht hlease hrecord hnone false
      · exact absurd rfl (of_decide_eq_false htidy)
    · exact nomatch hreply
  | attachReply index ok =>
    obtain ⟨t, ht, hreply⟩ := Option.bind_eq_some_iff.mp hstep
    obtain rfl : ok = false := htidy
    split at hreply
    · rename_i lease hpoint
      obtain rfl := Option.some.inj hreply
      have hlease := congrArg TouchPoint.lease hpoint
      obtain ⟨record, hrecord, -, -, hfresh⟩ := (h.keys t.key).working index t lease ht rfl hlease
      exact not_warm_settle h hchained ht hlease hrecord (hfresh (hpoint ▸ nofun)) false
    · exact nomatch hreply
  | touch => exact nomatch htidy
  | start => exact nomatch htidy
  | settleHold => exact nomatch htidy
  | close => exact nomatch htidy
  | round => exact nomatch htidy

/-! ## Holds that are open when the coordinator is closed -/

/-- Every open hold is one of a lease in the table. -/
def tracked (s : EvalKernelLeaseCoordinator) : Bool :=
  (List.range s.records.length).all fun lease ↦ !s.holds lease || decide (lease ∈ s.leases.map Prod.snd)

/-- A tidy step, and no call of `close` while a hold is open that has left the table. -/
def drainable (s : EvalKernelLeaseCoordinator) (e : Event) : Bool :=
  s.tidy e && (decide (e ≠ .close) || s.tracked)

theorem holds_iff : s.holds lease = true ↔ ∃ record, s.records[lease]? = some record ∧
    record.hold = some .unsettled := by
  rw [holds, Option.any_eq_true]
  exact exists_congr fun _ ↦ and_congr_right fun _ ↦ decide_eq_true_iff

theorem tracked_mem (h : s.tracked = true) (hholds : s.holds lease = true) : lease ∈ s.leases.map Prod.snd := by
  obtain ⟨record, hrecord, -⟩ := holds_iff.mp hholds
  have hlease := List.all_eq_true.mp h lease (List.mem_range.mpr (lt_of_record hrecord))
  rw [hholds] at hlease
  exact of_decide_eq_true hlease

/-- What the calls of `close` wait for, and that what is open has been aborted. -/
structure Draining (s : EvalKernelLeaseCoordinator) : Prop where
  closed : s.closers ≠ [] → s.closed = true
  waits : ∀ closer ∈ s.closers, ∀ lease, s.holds lease = true →
    ∃ operations holds, closer = .waiting operations holds ∧ lease ∈ holds
  aborted : s.closers ≠ [] → ∀ (lease : ℕ) (record : LiveLease), s.records[lease]? = some record →
    record.hold = some .unsettled → record.aborted = true

theorem draining_init : Draining init := ⟨fun h ↦ absurd rfl h, nofun, fun h ↦ absurd rfl h⟩

/-- The open holds were open, and stay aborted. -/
def Shrinks (s s' : EvalKernelLeaseCoordinator) : Prop :=
  ∀ (lease : ℕ) (r : LiveLease), s'.records[lease]? = some r → r.hold = some .unsettled → ∃ record,
    s.records[lease]? = some record ∧ record.hold = some .unsettled ∧ (record.aborted = true → r.aborted = true)

theorem Shrinks.of_records (h : s'.records = s.records) : Shrinks s s' :=
  fun _ r hr hhold ↦ ⟨r, h ▸ hr, hhold, fun ha ↦ ha⟩

theorem Shrinks.holds (h : Shrinks s s') (hholds : s'.holds lease = true) : s.holds lease = true := by
  obtain ⟨r, hr, hhold⟩ := holds_iff.mp hholds
  obtain ⟨record, hrecord, hopen, -⟩ := h lease r hr hhold
  exact holds_iff.mpr ⟨record, hrecord, hopen⟩

theorem shrinks_abort (h : s'.records = s.abortLeases.records) : Shrinks s s' := by
  intro lease r hr hhold
  obtain ⟨record, hrecord, -, -, hsame, haborted, -⟩ := abortLeases_cases (h ▸ hr)
  exact ⟨record, hrecord, hsame ▸ hhold, haborted⟩

/-- Once the coordinator is closed no hold is opened. -/
theorem shrinks_step (hclosed : s.closed = true) (hstep : step s e = some s') : Shrinks s s' := by
  cases e with
  | touch ref =>
    obtain rfl := Option.some.inj hstep
    exact .of_records (by rw [touch, if_pos hclosed])
  | start index =>
    obtain ⟨t, -, rfl⟩ := Option.map_eq_some_iff.mp hstep
    exact .of_records (by rw [touchLocked, if_pos hclosed]; rfl)
  | acquireReply index reply =>
    obtain ⟨t, -, hreply⟩ := Option.bind_eq_some_iff.mp hstep
    split at hreply
    · obtain rfl := Option.some.inj hreply
      unfold acquired
      split
      · exact .of_records forget_apart.2
      · rw [if_pos hclosed]
        exact .of_records forget_apart.2
    · obtain rfl := Option.some.inj hreply
      unfold reacquired
      split <;> exact .of_records rfl
    · exact nomatch hreply
  | attachReply index ok =>
    obtain ⟨t, -, hreply⟩ := Option.bind_eq_some_iff.mp hstep
    split at hreply
    · obtain rfl := Option.some.inj hreply
      unfold attached
      rw [if_pos hclosed]
      split_ifs
      · exact .of_records rfl
      · exact .of_records forget_apart.2
    · exact nomatch hreply
  | settleHold lease =>
    obtain ⟨record, -, rfl⟩ := Option.map_eq_some_iff.mp hstep
    intro l r hr hhold
    rw [EvalKernelLeaseCoordinator.settleHold, forget_apart.2] at hr
    dsimp only at hr
    rw [List.getElem?_set] at hr
    split_ifs at hr
    · obtain rfl := Option.some.inj hr
      exact nomatch hhold
    · exact ⟨r, hr, hhold, fun ha ↦ ha⟩
  | close => exact Option.some.inj hstep ▸ shrinks_abort rfl
  | round index =>
    obtain ⟨closer, -, hround⟩ := Option.bind_eq_some_iff.mp hstep
    split at hround
    · obtain ⟨-, hround⟩ := Option.ite_none_right_eq_some.mp hround
      obtain rfl := Option.some.inj hround
      unfold nextRound
      split_ifs
      · exact .of_records rfl
      · exact shrinks_abort rfl
    · exact nomatch hround

/-- Only `close` and its rounds change what is waited for. -/
theorem closers_step (hclose : e ≠ .close) (hround : ∀ index, e ≠ .round index) (hstep : step s e = some s') :
    s'.closers = s.closers ∧ s'.closed = s.closed := by
  have hforget : ∀ key lease, (s.forget key lease).closers = s.closers ∧ (s.forget key lease).closed = s.closed := by
    intro key lease
    unfold forget
    split_ifs <;> exact ⟨rfl, rfl⟩
  cases e with
  | touch ref =>
    obtain rfl := Option.some.inj hstep
    unfold touch
    split_ifs <;> exact ⟨rfl, rfl⟩
  | start index =>
    obtain ⟨t, -, rfl⟩ := Option.map_eq_some_iff.mp hstep
    unfold touchLocked
    split_ifs
    · exact ⟨rfl, rfl⟩
    · split <;> exact ⟨rfl, rfl⟩
  | acquireReply index reply =>
    obtain ⟨t, -, hreply⟩ := Option.bind_eq_some_iff.mp hstep
    split at hreply
    · obtain rfl := Option.some.inj hreply
      unfold acquired
      split
      · exact hforget _ _
      · split_ifs <;> first | exact hforget _ _ | exact ⟨rfl, rfl⟩
    · obtain rfl := Option.some.inj hreply
      unfold reacquired
      split <;> exact ⟨rfl, rfl⟩
    · cases hreply
  | attachReply index ok =>
    obtain ⟨t, -, hreply⟩ := Option.bind_eq_some_iff.mp hstep
    split at hreply
    · obtain rfl := Option.some.inj hreply
      unfold attached
      split_ifs <;> first | exact hforget _ _ | exact ⟨rfl, rfl⟩
    · cases hreply
  | settleHold lease =>
    obtain ⟨record, -, rfl⟩ := Option.map_eq_some_iff.mp hstep
    unfold settleHold forget
    split_ifs <;> exact ⟨rfl, rfl⟩
  | close => exact absurd rfl hclose
  | round index => exact absurd rfl (hround index)

/-- Nothing is open any more, whoever waits. -/
theorem Draining.of_settled (hclosed : s.closed = true) (hnone : ∀ lease, s.holds lease = false) : Draining s := by
  refine ⟨fun _ ↦ hclosed, fun _ _ lease hholds ↦ ?_, fun _ lease record hrecord hhold ↦ ?_⟩
  · exact absurd hholds (Bool.eq_false_iff.mp (hnone lease))
  · exact absurd (holds_iff.mpr ⟨record, hrecord, hhold⟩) (Bool.eq_false_iff.mp (hnone lease))

theorem draining_step (h : Draining s) (hdrainable : s.drainable e = true) (hstep : step s e = some s') :
    Draining s' := by
  by_cases hround : ∃ index, e = .round index
  · obtain ⟨index, rfl⟩ := hround
    obtain ⟨closer, hcloser, hround⟩ := Option.bind_eq_some_iff.mp hstep
    have hclosed := h.closed (List.ne_nil_of_mem (List.mem_of_getElem? hcloser))
    have hshrinks := shrinks_step hclosed hstep
    split at hround
    · rename_i operations holds
      obtain ⟨hover, hround⟩ := Option.ite_none_right_eq_some.mp hround
      -- The round has waited for every hold that was open.
      refine .of_settled ?_ fun lease ↦ Bool.eq_false_iff.mpr fun hholds ↦ ?_
      · obtain rfl := Option.some.inj hround
        unfold nextRound
        split_ifs <;> exact hclosed
      · obtain ⟨operations', holds', heq, hmem⟩ := h.waits _ (List.mem_of_getElem? hcloser) lease (hshrinks.holds hholds)
        obtain ⟨-, rfl⟩ := Closer.waiting.inj heq
        have hover := List.all_eq_true.mp (Bool.and_eq_true_iff.mp hover).2 lease hmem
        rw [hshrinks.holds hholds] at hover
        exact nomatch hover
    · exact nomatch hround
  by_cases hclose : e = .close
  · subst hclose
    obtain rfl := Option.some.inj hstep
    have htracked : s.tracked = true := (Bool.and_eq_true_iff.mp hdrainable).2
    have hshrinks : Shrinks s s.close := shrinks_abort rfl
    refine ⟨fun _ ↦ rfl, fun closer hmem lease hholds ↦ ?_, fun _ lease r hr hhold ↦ ?_⟩
    · rcases List.mem_append.mp hmem with hold | hnew
      · exact h.waits closer hold lease (hshrinks.holds hholds)
      · obtain rfl := List.mem_singleton.mp hnew
        obtain ⟨record, hrecord, hopen⟩ := holds_iff.mp (hshrinks.holds hholds)
        refine ⟨_, _, rfl, List.mem_filter.mpr ⟨tracked_mem htracked (hshrinks.holds hholds), ?_⟩⟩
        rw [hrecord, Option.any_some, hopen]
        rfl
    · obtain ⟨record, hrecord, -, -, hsame, -, haborted⟩ := abortLeases_cases (s := s) hr
      exact haborted (tracked_mem htracked (holds_iff.mpr ⟨record, hrecord, hsame ▸ hhold⟩))
  · obtain ⟨hclosers, hclosed⟩ := closers_step hclose (not_exists.mp hround) hstep
    refine ⟨fun hne ↦ ?_, fun closer hmem lease hholds ↦ ?_, fun hne lease r hr hhold ↦ ?_⟩
    · rw [hclosed]
      exact h.closed (hclosers ▸ hne)
    · rw [hclosers] at hmem
      have hshrinks := shrinks_step (h.closed (List.ne_nil_of_mem hmem)) hstep
      exact h.waits closer hmem lease (hshrinks.holds hholds)
    · rw [hclosers] at hne
      obtain ⟨record, hrecord, hopen, haborted⟩ := shrinks_step (h.closed hne) hstep lease r hr hhold
      exact haborted (h.aborted hne lease record hrecord hopen)

/-! ## The end of a drain -/

/-- The coordinator is closed, every dispatch has been answered, and nothing is held. -/
structure Quiet (s : EvalKernelLeaseCoordinator) : Prop where
  chained : Chained s
  closed : s.closed = true
  idle : ∀ (i : ℕ) (t : Touch), s.touches[i]? = some t → t.point.lease = none
  leases : s.leases = []
  settled : ∀ lease, s.holds lease = false

/-- The touches that wait for their turn. -/
def waiting (s : EvalKernelLeaseCoordinator) : ℕ := s.touches.countP fun t ↦ decide (t.point = .queued)

/-- A call of `close` whose round is over. -/
def due (s : EvalKernelLeaseCoordinator) (closer : Closer) : Bool :=
  match closer with
  | .waiting operations holds => s.roundOver operations holds
  | .returned => false

/-- How many internal steps are left: each turn of a touch may end the round of every call of `close`. -/
def remaining (s : EvalKernelLeaseCoordinator) : ℕ :=
  s.waiting * (s.closers.length + 1) + s.closers.countP s.due

theorem get_head {α : Type} {m : JsMap JsString α} (h : m ≠ []) : ∃ k a, m.get k = some a ∧ (k, a) ∈ m := by
  obtain ⟨⟨k, a⟩, rest, rfl⟩ := List.exists_cons_of_ne_nil h
  exact ⟨k, a, if_pos rfl, List.mem_cons_self⟩

theorem Leased.quiet (h : Leased s) (hchained : Chained s) (hclosed : s.closed = true)
    (hidle : ∀ (i : ℕ) (t : Touch), s.touches[i]? = some t → t.point.lease = none)
    (hsettled : ∀ lease, s.holds lease = false) : Quiet s := by
  refine ⟨hchained, hclosed, hidle, ?_, hsettled⟩
  by_contra hne
  obtain ⟨key, lease, hlease, -⟩ := get_head hne
  obtain ⟨record, hrecord, -, hopen⟩ := (h.keys key).idle (fun i t ht _ ↦ hidle i t ht) lease hlease
  exact Bool.eq_false_iff.mp (hsettled lease) (holds_iff.mpr ⟨record, hrecord, hopen⟩)

theorem abortLeases_eq (h : s.leases = []) : s.abortLeases = s := by
  have hrecords : s.abortLeases.records = s.records := by
    apply List.ext_getElem?
    intro l
    rw [records_abortLeases, h]
    cases s.records[l]? <;> rfl
  exact congrArg (fun records ↦ ({ s with records } : EvalKernelLeaseCoordinator)) hrecords

theorem Quiet.start (h : Quiet s) (hturn : Turn s.touches index t) (hqueued : t.point = .queued) :
    Quiet (s.settle index t false) ∧ (s.settle index t false).remaining < s.remaining := by
  refine ⟨⟨h.chained.settle hturn false, h.closed, fun i u hu ↦ ?_, h.leases, h.settled⟩, ?_⟩
  · rcases getElem?_set_cases hu with ⟨-, rfl⟩ | ⟨-, hu'⟩
    · rfl
    · exact h.idle i u hu'
  · have hlen := (List.getElem?_eq_some_iff.mp hturn.get)
    obtain ⟨hlt, hget⟩ := hlen
    have hwaiting : (s.settle index t false).waiting + 1 = s.waiting := by
      have hpos : 0 < s.waiting := List.countP_pos_iff.mpr
        ⟨t, List.mem_of_getElem? hturn.get, decide_eq_true hqueued⟩
      change (s.touches.set index { t with point := .settled false }).countP _ + 1 = _
      rw [List.countP_set hlt, hget, if_pos (decide_eq_true hqueued), if_neg nofun]
      unfold waiting at hpos ⊢
      omega
    have hdue : (s.closers.countP (s.settle index t false).due) ≤ s.closers.length := List.countP_le_length
    calc (s.settle index t false).remaining
        ≤ (s.settle index t false).waiting * (s.closers.length + 1) + s.closers.length := Nat.add_le_add_left hdue _
      _ < ((s.settle index t false).waiting + 1) * (s.closers.length + 1) := by rw [Nat.succ_mul]; omega
      _ = s.waiting * (s.closers.length + 1) := by rw [hwaiting]
      _ ≤ s.remaining := Nat.le_add_right _ _

/-- What a next round waits for has not settled. -/
theorem Quiet.not_due_snapshot (h : Quiet s) (hne : s.operations ≠ []) : s.due s.snapshot = false := by
  obtain ⟨key, i, hi, hmem⟩ := get_head hne
  obtain ⟨t, ht, -, hunsettled, -⟩ := h.chained.named.last key i hi
  refine Bool.eq_false_iff.mpr fun hover ↦ ?_
  have hsettled := List.all_eq_true.mp (Bool.and_eq_true_iff.mp hover).1 i (List.mem_map_of_mem hmem)
  exact absurd (hunsettled.symm.trans (hasSettled_iff.mp hsettled t ht)) nofun

theorem Quiet.round (h : Quiet s) {closer : Closer} (hget : s.closers[index]? = some closer)
    (hdue : s.due closer = true) : Quiet (s.nextRound index) ∧ (s.nextRound index).remaining < s.remaining := by
  obtain ⟨hlt, hcloser⟩ := List.getElem?_eq_some_iff.mp hget
  -- The round returns, or starts another one that is not over.
  obtain ⟨next, hnext, heq⟩ : ∃ next, s.due next = false ∧
      s.nextRound index = { s with closers := s.closers.set index next } := by
    unfold nextRound
    split_ifs with hempty
    · exact ⟨.returned, rfl, rfl⟩
    · refine ⟨s.snapshot, h.not_due_snapshot fun hoperations ↦ hempty ⟨hoperations, h.leases⟩, ?_⟩
      rw [abortLeases_eq h.leases]
  rw [heq]
  refine ⟨⟨h.chained.congr _ rfl rfl, h.closed, h.idle, h.leases, h.settled⟩, ?_⟩
  have hpos : 0 < s.closers.countP s.due := List.countP_pos_iff.mpr ⟨closer, List.mem_of_getElem? hget, hdue⟩
  change s.waiting * ((s.closers.set index next).length + 1) + (s.closers.set index next).countP s.due < _
  rw [List.length_set, List.countP_set hlt, hcloser, if_pos hdue, if_neg (Bool.eq_false_iff.mp hnext)]
  unfold remaining
  omega

theorem quiet_step (h : Quiet s) (hinternal : e.isInternal = true) (hstep : step s e = some s') :
    Quiet s' ∧ s'.remaining < s.remaining := by
  cases e with
  | start index =>
    obtain ⟨t, ht, rfl⟩ := Option.map_eq_some_iff.mp hstep
    obtain ⟨hget, hstart⟩ := Option.filter_eq_some_iff.mp ht
    unfold touchLocked
    rw [if_pos h.closed]
    exact h.start (h.chained.turn_of_startable hget hstart) (of_decide_eq_true (Bool.and_eq_true_iff.mp hstart).1)
  | round index =>
    obtain ⟨closer, hcloser, hround⟩ := Option.bind_eq_some_iff.mp hstep
    split at hround
    · obtain ⟨hover, hround⟩ := Option.ite_none_right_eq_some.mp hround
      exact Option.some.inj hround ▸ h.round hcloser hover
    · exact nomatch hround
  | touch => exact nomatch hinternal
  | acquireReply => exact nomatch hinternal
  | attachReply => exact nomatch hinternal
  | settleHold => exact nomatch hinternal
  | close => exact nomatch hinternal

/-- The steps that need no answer. -/
def internal (_ : EvalKernelLeaseCoordinator) (e : Event) : Bool := e.isInternal

theorem quiet_run {es : List Event} : ∀ {s : EvalKernelLeaseCoordinator}, Quiet s → run step internal s es = some s' →
    Quiet s' ∧ es.length ≤ s.remaining := by
  induction es with
  | nil => exact fun h hrun ↦ ⟨Option.some.inj hrun ▸ h, Nat.zero_le _⟩
  | cons e es ih =>
    intro s h hrun
    obtain ⟨hinternal, hrun⟩ := Option.ite_none_right_eq_some.mp hrun
    obtain ⟨t, ht, hrun⟩ := Option.bind_eq_some_iff.mp hrun
    obtain ⟨hquiet, hlt⟩ := quiet_step h hinternal ht
    obtain ⟨hend, hle⟩ := ih hquiet hrun
    exact ⟨hend, Nat.succ_le_of_lt (hle.trans_lt hlt)⟩

/-- When there is nothing left to do, every touch has had its turn. -/
theorem Quiet.allSettled (h : Quiet s) (hstuck : ∀ e : Event, e.isInternal = true → step s e = none) :
    ∀ (i : ℕ) (t : Touch), s.touches[i]? = some t → t.point.isSettled = true := by
  have hqueued : ∀ (i : ℕ) (t : Touch), s.touches[i]? = some t → t.point ≠ .queued := by
    intro i
    induction i using Nat.strong_induction_on with
    | _ i ih =>
      intro t ht hq
      -- The one before it is not queued, so it is settled and this one could start.
      have hstart : s.startable t = true := by
        rw [startable, hq, decide_eq_true rfl, Bool.true_and]
        cases hprevious : t.previous with
        | none => rfl
        | some p =>
          rw [Option.all_some, hasSettled_iff]
          intro u hu
          have hlt := (h.chained.ordered.earlier i t p ht hprevious).1
          cases hpoint : u.point with
          | settled _ => rfl
          | queued => exact absurd hpoint (ih p hlt u hu)
          | acquiring _ => exact nomatch (congrArg TouchPoint.lease hpoint).symm.trans (h.idle p u hu)
          | reacquiring _ => exact nomatch (congrArg TouchPoint.lease hpoint).symm.trans (h.idle p u hu)
          | attaching _ => exact nomatch (congrArg TouchPoint.lease hpoint).symm.trans (h.idle p u hu)
      have hnone := hstuck (.start i) rfl
      rw [step, ht, Option.filter_some, if_pos hstart] at hnone
      exact nomatch hnone
  intro i t ht
  cases hpoint : t.point with
  | settled _ => rfl
  | queued => exact absurd hpoint (hqueued i t ht)
  | acquiring _ => exact nomatch (congrArg TouchPoint.lease hpoint).symm.trans (h.idle i t ht)
  | reacquiring _ => exact nomatch (congrArg TouchPoint.lease hpoint).symm.trans (h.idle i t ht)
  | attaching _ => exact nomatch (congrArg TouchPoint.lease hpoint).symm.trans (h.idle i t ht)

theorem Quiet.returned (h : Quiet s) (hstuck : ∀ e : Event, e.isInternal = true → step s e = none) :
    ∀ closer ∈ s.closers, closer = .returned := by
  intro closer hmem
  obtain ⟨index, hget⟩ := List.mem_iff_getElem?.mp hmem
  cases closer with
  | returned => rfl
  | waiting operations holds =>
    have hover : s.roundOver operations holds = true := by
      rw [roundOver, Bool.and_eq_true]
      refine ⟨List.all_eq_true.mpr fun i _ ↦ hasSettled_iff.mpr (h.allSettled hstuck i), List.all_eq_true.mpr fun l _ ↦ ?_⟩
      rw [h.settled]
      rfl
    have hnone := hstuck (.round index) rfl
    rw [step, hget, Option.bind_some] at hnone
    dsimp only at hnone
    rw [if_pos hover] at hnone
    exact nomatch hnone

/-! ## The coordinator -/

theorem leased_of_reachable (h : Reachable step tidy init s) : Leased s :=
  (h.invariant (I := fun s ↦ Chained s ∧ Leased s) ⟨chained_init, leased_init⟩ fun _ _ _ hs htidy hstep ↦
    ⟨chained_step hs.1 hstep, leased_step hs.2 hs.1 htidy hstep⟩).2

theorem tidy_of_drainable (h : Reachable step drainable init s) : Reachable step tidy init s := by
  induction h with
  | init => exact .init
  | step _ hok hstep ih => exact .step ih (Bool.and_eq_true_iff.mp hok).1 hstep

theorem draining_of_reachable (h : Reachable step drainable init s) : Draining s :=
  h.invariant draining_init fun _ _ _ hs hok hstep ↦ draining_step hs hok hstep

/-- **The kernel leases.** Two touches of one object never wait for an answer at once. In a run of tidy steps a lease of
the table has such a touch or an open hold, and a step that is not tidy ends that. If moreover no hold has left the
table when `close` is called, then what is open has been aborted, nothing is open once it has returned, and when all
dispatches have been answered and all holds have settled it returns after boundedly many steps. -/
theorem eval_kernel_leases (s : EvalKernelLeaseCoordinator) :
    (Reachable step anyStep init s → ∀ (i j : ℕ) (t u : Touch), s.touches[i]? = some t → s.touches[j]? = some u →
      t.key = u.key → t.point.lease ≠ none → u.point.lease ≠ none → i = j) ∧
    (Reachable step tidy init s → Warm s ∧
      ∀ e s', s.tidy e = false → step s e = some s' → ¬ Warm s') ∧
    (Reachable step drainable init s →
      (.returned ∈ s.closers → ∀ lease, s.holds lease = false) ∧
      (s.closers ≠ [] → ∀ (lease : ℕ) (record : LiveLease), s.records[lease]? = some record →
        record.hold = some .unsettled → record.aborted = true) ∧
      (s.closers ≠ [] → (∀ (i : ℕ) (t : Touch), s.touches[i]? = some t → t.point.lease = none) →
        (∀ lease, s.holds lease = false) →
        ∃ bound, ∀ es s', run step internal s es = some s' → es.length ≤ bound ∧
          ((∀ e : Event, e.isInternal = true → step s' e = none) → ∀ closer ∈ s'.closers, closer = .returned))) := by
  refine ⟨fun h i j t u ↦ (chained_of_reachable h).exclusive, fun h ↦ ?_, fun h ↦ ⟨fun hmem lease ↦ ?_, ?_, ?_⟩⟩
  · have hleased := leased_of_reachable h
    exact ⟨hleased.warm, fun e s' ↦ not_warm_of_not_tidy hleased (chained_of_reachable h)⟩
  · refine Bool.eq_false_iff.mpr fun hholds ↦ ?_
    obtain ⟨operations, holds, heq, -⟩ := (draining_of_reachable h).waits _ hmem lease hholds
    exact nomatch heq
  · exact (draining_of_reachable h).aborted
  · intro hne hidle hsettled
    have hquiet := (leased_of_reachable (tidy_of_drainable h)).quiet (chained_of_reachable h)
      ((draining_of_reachable h).closed hne) hidle hsettled
    refine ⟨s.remaining, fun es s' hrun ↦ ?_⟩
    obtain ⟨hend, hle⟩ := quiet_run hquiet hrun
    exact ⟨hle, hend.returned⟩

def kernelRef : DORef := ⟨lit "vibestudio/internal", lit "EvalDO", lit "owner"⟩

/-- The kernel of one object is held, and `close` aborts the hold and waits for it. -/
def heldAndClosed : List Event :=
  [.touch kernelRef, .start 0, .acquireReply 0 (some false), .attachReply 0 true, .close, .settleHold 0, .round 0]

theorem eval_kernel_leases_heldAndClosed :
    ∃ s, run step drainable init heldAndClosed = some s ∧ s.closers = [.returned] ∧ Warm s ∧
      ∀ lease, s.holds lease = false := by
  have hrun : (run step drainable init heldAndClosed).map (fun s ↦ decide (s.closers = [.returned])) = some true := by
    decide +kernel
  obtain ⟨s, hs, hclosers⟩ := Option.map_eq_some_iff.mp hrun
  have hreach : Reachable step drainable init s := Reachable.init.run hs
  obtain ⟨-, htidy, hdrain⟩ := eval_kernel_leases s
  exact ⟨s, hs, of_decide_eq_true hclosers, (htidy (tidy_of_drainable hreach)).1,
    (hdrain hreach).1 (of_decide_eq_true hclosers ▸ List.mem_cons_self)⟩

/-! ## A holder that cannot be attached -/

/-- The first touch of a kernel acquires its lease, and `attachKernelLeaseHolder` fails. -/
def attachFails : List Event :=
  [.touch kernelRef, .start 0, .acquireReply 0 (some false), .attachReply 0 false]

/-- A hold is open when its lease is replaced by one that the receiver does not know, and `close` comes. -/
def replacedLease : List Event :=
  [.touch kernelRef, .start 0, .acquireReply 0 (some false), .attachReply 0 true,
    .touch kernelRef, .start 1, .acquireReply 1 (some false), .close, .acquireReply 1 (some false), .attachReply 1 true,
    .round 0]

/-- **A lease may be left without a hold, and `close` then never returns**: the lease that could not be attached stays in
the table, so that each round finds it there and waits for nothing. And `close` may return while the hold of a lease
that has been replaced is open. -/
theorem eval_kernel_leases_fail :
    (¬ ∀ s, Reachable step anyStep init s → Warm s) ∧
    (∃ s, Reachable step anyStep init s ∧ s.closers = [.waiting [] []] ∧
      (∀ (i : ℕ) (t : Touch), s.touches[i]? = some t → t.point.isSettled = true) ∧ (∀ lease, s.holds lease = false) ∧
      step s (.round 0) = some s) ∧
    ∃ s, Reachable step anyStep init s ∧ s.closers = [.returned] ∧ s.holds 0 = true := by
  have hfails : (run step anyStep init attachFails).map (fun s ↦ decide (s.leases.get (refKey kernelRef) = some 0 ∧
      s.touches.all (fun t ↦ decide (t.point.lease = none)) = true ∧ s.holds 0 = false)) = some true := by
    decide +kernel
  have hspins : (run step anyStep init (attachFails ++ [.close])).map (fun s ↦
      decide (s.closers = [.waiting [] []] ∧ s.touches.all (fun t ↦ t.point.isSettled) = true ∧
        s.records.all (fun r ↦ decide (r.hold = none)) = true ∧ step s (.round 0) = some s)) = some true := by
    decide +kernel
  have hreturns : (run step anyStep init replacedLease).map (fun s ↦
      decide (s.closers = [.returned] ∧ s.holds 0 = true)) = some true := by
    decide +kernel
  refine ⟨fun hwarm ↦ ?_, ?_, ?_⟩
  · obtain ⟨s, hs, hdecided⟩ := Option.map_eq_some_iff.mp hfails
    obtain ⟨hlease, hidle, hholds⟩ := of_decide_eq_true hdecided
    rcases hwarm s (Reachable.init.run hs) _ 0 hlease with ⟨i, t, ht, -, hbusy⟩ | ⟨record, hrecord, -, hopen⟩
    · exact hbusy (of_decide_eq_true (List.all_eq_true.mp hidle t (List.mem_of_getElem? ht)))
    · exact Bool.eq_false_iff.mp hholds (holds_iff.mpr ⟨record, hrecord, hopen⟩)
  · obtain ⟨s, hs, hdecided⟩ := Option.map_eq_some_iff.mp hspins
    obtain ⟨hclosers, hsettled, hnone, hround⟩ := of_decide_eq_true hdecided
    refine ⟨s, Reachable.init.run hs, hclosers, fun i t ht ↦
      List.all_eq_true.mp hsettled t (List.mem_of_getElem? ht), fun lease ↦ Bool.eq_false_iff.mpr fun hholds ↦ ?_, hround⟩
    obtain ⟨record, hrecord, hopen⟩ := holds_iff.mp hholds
    exact nomatch hopen.symm.trans (of_decide_eq_true (List.all_eq_true.mp hnone record (List.mem_of_getElem? hrecord)))
  · obtain ⟨s, hs, hdecided⟩ := Option.map_eq_some_iff.mp hreturns
    exact ⟨s, Reachable.init.run hs, of_decide_eq_true hdecided⟩

end Vibestudio.Server.EvalKernelLeaseCoordinator

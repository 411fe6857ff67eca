import Mathlib
import Vibestudio.Js.Map

/-!
# Serializing work by key

`serializeByKey` of `packages/shared/src/keyedSerializer.ts`. A call makes a chain of promises: the
promise stored for the key, made harmless; the task behind it; the promise of the caller (`run`);
the promise that is stored next, which settles when `run` does and never rejects; and the clean-up
behind that. Every promise settles in a microtask of its own, so between the end of an operation and
the clean-up anything may happen, another call for the key included. Here every such reaction is an
event and the events come in any order; what a call waits for is its `stage`.

A failure is an outcome like any other, and only the caller sees it.
-/

namespace Vibestudio.Shared

open Js

/-- How far the promises of a call have come. -/
inductive Stage (ο : Type) where
  /-- The promise before it has not been looked at. -/
  | waiting
  /-- `previous.catch(() => undefined)` has settled. -/
  | caught
  /-- The task runs. -/
  | called
  /-- The task has ended, or has thrown. -/
  | ended (outcome : ο)
  /-- `run` has settled. -/
  | delivered (outcome : ο)
  /-- `stored` has settled. -/
  | stored (outcome : ο)
  /-- The clean-up is done. -/
  | cleaned (outcome : ο)
deriving DecidableEq

namespace Stage

variable {ο : Type}

def rank : Stage ο → ℕ
  | waiting => 0
  | caught => 1
  | called => 2
  | ended _ => 3
  | delivered _ => 4
  | stored _ => 5
  | cleaned _ => 6

/-- The task has ended. -/
def Over (stage : Stage ο) : Prop := 3 ≤ stage.rank

/-- The outcome of the task. -/
def outcome : Stage ο → Option ο
  | ended o | delivered o | stored o | cleaned o => some o
  | _ => none

/-- What the promise that was returned to the caller has settled with. -/
def result : Stage ο → Option ο
  | delivered o | stored o | cleaned o => some o
  | _ => none

end Stage

/-- One call; `previous` is the call whose promise was stored for the key. -/
structure SerializedCall (κ ο : Type) where
  key : κ
  previous : Option ℕ
  stage : Stage ο

/-- The calls made so far, and the map with the promise stored for each key. -/
structure KeyedSerializer (κ ο : Type) where
  calls : List (SerializedCall κ ο)
  chains : JsMap κ ℕ

namespace KeyedSerializer

variable {κ ο : Type}

def initial : KeyedSerializer κ ο := ⟨[], []⟩

/-- What can happen to a call. A task that throws ends in the microtask that calls it. -/
inductive Action (ο : Type) where
  | catchPrevious
  | begin (threw : Option ο)
  | settle (outcome : ο)
  | deliver
  | store
  | cleanUp

inductive Event (κ ο : Type) where
  | call (key : κ)
  | on (i : ℕ) (action : Action ο)

/-- Everything but a new call and the end of a task that runs is a microtask. -/
def Event.IsMicrotask : Event κ ο → Prop
  | call _ => False
  | on _ (.settle _) => False
  | on _ _ => True

/-- The promise of the call before it has settled. -/
def PreviousStored (s : KeyedSerializer κ ο) (previous : Option ℕ) : Prop :=
  ∀ p ∈ previous, ∀ c ∈ s.calls[p]?, 5 ≤ c.stage.rank

instance (s : KeyedSerializer κ ο) (previous : Option ℕ) : Decidable (s.PreviousStored previous) :=
  inferInstanceAs (Decidable (∀ p ∈ previous, ∀ c ∈ s.calls[p]?, 5 ≤ c.stage.rank))

/-- The next stage of a call, when the action is due. -/
def advance (s : KeyedSerializer κ ο) (c : SerializedCall κ ο) (action : Action ο) :
    Option (Stage ο) :=
  match action, c.stage with
  | .catchPrevious, .waiting => if s.PreviousStored c.previous then some .caught else none
  | .begin none, .caught => some .called
  | .begin (some outcome), .caught => some (.ended outcome)
  | .settle outcome, .called => some (.ended outcome)
  | .deliver, .ended outcome => some (.delivered outcome)
  | .store, .delivered outcome => some (.stored outcome)
  | .cleanUp, .stored outcome => some (.cleaned outcome)
  | _, _ => none

variable [DecidableEq κ]

/-- `serializeByKey`, and the reactions of the promises it makes. -/
def step (s : KeyedSerializer κ ο) : Event κ ο → KeyedSerializer κ ο
  | .call key =>
    { calls := s.calls ++ [⟨key, s.chains.get key, .waiting⟩]
      chains := s.chains.set key s.calls.length }
  | .on i action =>
    match s.calls[i]? with
    | none => s
    | some c =>
      match s.advance c action with
      | none => s
      | some stage =>
        { calls := s.calls.set i { c with stage := stage }
          chains :=
            match action with
            | .cleanUp =>
              -- `if (chains.get(key) === stored) chains.delete(key)`
              if s.chains.get c.key = some i then s.chains.delete c.key else s.chains
            | _ => s.chains }

/-- The calls and the map after a sequence of events. -/
def after (events : List (Event κ ο)) : KeyedSerializer κ ο := events.foldl step initial

/-- No microtask is due. -/
def Stable (s : KeyedSerializer κ ο) : Prop :=
  ∀ i c, s.calls[i]? = some c → ∀ action, (Event.on (κ := κ) i action).IsMicrotask →
    s.advance c action = none

variable {s : KeyedSerializer κ ο} {i j : ℕ} {c d : SerializedCall κ ο} {action : Action ο}
  {stage : Stage ο} {key : κ}

/-! ## One step -/

omit [DecidableEq κ] in
/-- **A call only goes forward**: it leaves `waiting` when the promise before it has settled, and is
cleaned up by the clean-up alone. -/
theorem advance_spec (h : s.advance c action = some stage) : c.stage.rank < stage.rank ∧
    (c.stage.rank = 0 → s.PreviousStored c.previous) ∧
    (6 ≤ stage.rank → action = .cleanUp) ∧ (action = .cleanUp → 5 ≤ c.stage.rank) := by
  unfold advance at h
  split at h
  case h_1 hstage =>
    split_ifs at h with hprevious
    rw [← Option.some_inj.mp h, hstage]
    exact ⟨Nat.zero_lt_one, fun _ ↦ hprevious, fun hle ↦ absurd hle (show ¬6 ≤ 1 by decide), nofun⟩
  case h_8 => exact nomatch h
  all_goals
    rename_i hstage
    rw [← Option.some_inj.mp h, hstage]
    simp [Stage.rank]

/-- An action that is not due does nothing; one that is takes a call one stage further. -/
theorem step_on (s : KeyedSerializer κ ο) (i : ℕ) (action : Action ο) :
    (s.step (.on i action) = s ∧ ∀ c, s.calls[i]? = some c → s.advance c action = none) ∨
    ∃ c stage chains, s.calls[i]? = some c ∧ s.advance c action = some stage ∧
      s.step (.on i action) = ⟨s.calls.set i { c with stage := stage }, chains⟩ ∧
      ((action ≠ .cleanUp ∨ s.chains.get c.key ≠ some i) ∧ chains = s.chains ∨
        action = .cleanUp ∧ s.chains.get c.key = some i ∧ chains = s.chains.delete c.key) := by
  rw [step]
  match hget : s.calls[i]? with
  | none => exact .inl ⟨rfl, nofun⟩
  | some c =>
    dsimp only
    match hadvance : s.advance c action with
    | none => exact .inl ⟨rfl, fun c' hc' ↦ Option.some_inj.mp hc' ▸ hadvance⟩
    | some stage =>
      refine .inr ⟨c, stage, _, rfl, hadvance, rfl, ?_⟩
      split
      · split_ifs with hchain
        · exact .inr ⟨rfl, hchain, rfl⟩
        · exact .inl ⟨.inr hchain, rfl⟩
      · next hne => exact .inl ⟨.inl fun h ↦ hne h, rfl⟩

omit [DecidableEq κ] in
theorem getElem?_set {l : List (SerializedCall κ ο)} (hc : l[i]? = some c)
    (hd : (l.set i { c with stage := stage })[j]? = some d) :
    (j = i ∧ d = { c with stage := stage }) ∨ (j ≠ i ∧ l[j]? = some d) := by
  by_cases hji : j = i
  · subst hji
    rw [List.getElem?_set_self (List.getElem?_eq_some_iff.mp hc).1] at hd
    exact .inl ⟨rfl, (Option.some_inj.mp hd).symm⟩
  · rw [List.getElem?_set_ne (Ne.symm hji)] at hd
    exact .inr ⟨hji, hd⟩

omit [DecidableEq κ] in
theorem getElem?_concat {l : List (SerializedCall κ ο)} (hd : (l ++ [c])[j]? = some d) :
    (j = l.length ∧ d = c) ∨ (j < l.length ∧ l[j]? = some d) := by
  rcases Nat.lt_trichotomy j l.length with hlt | rfl | hgt
  · rw [List.getElem?_append_left hlt] at hd
    exact .inr ⟨hlt, hd⟩
  · rw [List.getElem?_concat_length] at hd
    exact .inl ⟨rfl, (Option.some_inj.mp hd).symm⟩
  · have hlt := (List.getElem?_eq_some_iff.mp hd).1
    rw [List.length_append, List.length_singleton] at hlt
    omega

/-! ## The chain of a key -/

/-- What holds of the calls and the map. -/
structure Inv (s : KeyedSerializer κ ο) : Prop where
  /-- A call is chained to the last call before it that has its key. -/
  link : ∀ (j : ℕ) (c : SerializedCall κ ο), s.calls[j]? = some c → ∀ p, c.previous = some p →
    p < j ∧ (∃ d, s.calls[p]? = some d ∧ d.key = c.key) ∧
      ∀ (i : ℕ) (d : SerializedCall κ ο), p < i → i < j → s.calls[i]? = some d → d.key ≠ c.key
  /-- A call that is chained to none found all calls of its key over. -/
  first : ∀ (j : ℕ) (c : SerializedCall κ ο), s.calls[j]? = some c → c.previous = none →
    ∀ (i : ℕ) (d : SerializedCall κ ο), i < j → s.calls[i]? = some d → d.key = c.key →
      5 ≤ d.stage.rank
  /-- A call that has left `waiting` has only calls before it whose promises are settled. -/
  turn : ∀ (i j : ℕ) (c d : SerializedCall κ ο), i < j → s.calls[i]? = some c →
    s.calls[j]? = some d → c.key = d.key → 1 ≤ d.stage.rank → 5 ≤ c.stage.rank
  /-- The map has the last call of a key, which is not cleaned up. -/
  tail : ∀ k i, s.chains.get k = some i → ∃ c, s.calls[i]? = some c ∧ c.key = k ∧
    c.stage.rank < 6 ∧
      ∀ (j : ℕ) (d : SerializedCall κ ο), i < j → s.calls[j]? = some d → d.key ≠ k
  /-- A key without an entry has no call that is not settled. -/
  gone : ∀ k, s.chains.get k = none → ∀ (i : ℕ) (c : SerializedCall κ ο), s.calls[i]? = some c →
    c.key = k → 5 ≤ c.stage.rank

theorem inv_initial : (initial : KeyedSerializer κ ο).Inv where
  link := nofun
  first := nofun
  turn := nofun
  tail := nofun
  gone := nofun

theorem Inv.call (hs : s.Inv) (key : κ) : (s.step (.call key)).Inv := by
  have hold : ∀ {j d}, s.calls[j]? = some d → j < s.calls.length :=
    fun h ↦ (List.getElem?_eq_some_iff.mp h).1
  have hmem : ∀ {j d}, s.calls[j]? = some d →
      (s.calls ++ [⟨key, s.chains.get key, .waiting⟩])[j]? = some d :=
    fun h ↦ (List.getElem?_append_left (hold h)).trans h
  refine ⟨fun j c hj p hp ↦ ?_, fun j c hj hnone i d hij hi hkey ↦ ?_,
    fun i j c d hij hi hj hkey hrank ↦ ?_, fun k i hk ↦ ?_, fun k hk i c hi hkey ↦ ?_⟩
  · rcases getElem?_concat hj with ⟨rfl, rfl⟩ | ⟨hlt, hj⟩
    · -- the new call is chained to the call in the map
      obtain ⟨d, hd, hkey, -, hlast⟩ := hs.tail key p hp
      refine ⟨hold hd, ⟨d, hmem hd, hkey⟩, fun i d' hpi hij hi ↦ ?_⟩
      rcases getElem?_concat hi with ⟨rfl, -⟩ | ⟨-, hi⟩
      · exact absurd hij (lt_irrefl _)
      · exact hlast i d' hpi hi
    · obtain ⟨hpj, ⟨d, hd, hkey⟩, hbetween⟩ := hs.link j c hj p hp
      refine ⟨hpj, ⟨d, hmem hd, hkey⟩, fun i d' hpi hij hi ↦ ?_⟩
      rcases getElem?_concat hi with ⟨rfl, -⟩ | ⟨-, hi⟩
      · exact absurd (hij.trans hlt) (lt_irrefl _)
      · exact hbetween i d' hpi hij hi
  · rcases getElem?_concat hj with ⟨rfl, rfl⟩ | ⟨hlt, hj⟩
    · rcases getElem?_concat hi with ⟨rfl, -⟩ | ⟨-, hi⟩
      · exact absurd hij (lt_irrefl _)
      · exact hs.gone key hnone i d hi hkey
    · rcases getElem?_concat hi with ⟨rfl, -⟩ | ⟨-, hi⟩
      · exact absurd (hij.trans hlt) (lt_irrefl _)
      · exact hs.first j c hj hnone i d hij hi hkey
  · rcases getElem?_concat hj with ⟨rfl, rfl⟩ | ⟨hlt, hj⟩
    · exact absurd hrank (show ¬1 ≤ 0 by decide)
    · rcases getElem?_concat hi with ⟨rfl, -⟩ | ⟨-, hi⟩
      · exact absurd (hij.trans hlt) (lt_irrefl _)
      · exact hs.turn i j c d hij hi hj hkey hrank
  · change JsMap.get k (s.chains.set key s.calls.length) = some i at hk
    rw [JsMap.get_set] at hk
    split_ifs at hk with hkey
    · obtain rfl := Option.some_inj.mp hk
      refine ⟨_, List.getElem?_concat_length, hkey.symm, (show 0 < 6 by decide), fun j d hij hj ↦ ?_⟩
      rcases getElem?_concat hj with ⟨rfl, -⟩ | ⟨hlt, -⟩
      · exact absurd hij (lt_irrefl _)
      · omega
    · obtain ⟨c, hc, hck, hrank, hlast⟩ := hs.tail k i hk
      refine ⟨c, hmem hc, hck, hrank, fun j d hij hj ↦ ?_⟩
      rcases getElem?_concat hj with ⟨-, rfl⟩ | ⟨-, hj⟩
      · exact fun h ↦ hkey h.symm
      · exact hlast j d hij hj
  · change JsMap.get k (s.chains.set key s.calls.length) = none at hk
    rw [JsMap.get_set] at hk
    split_ifs at hk with hne
    rcases getElem?_concat hi with ⟨-, rfl⟩ | ⟨-, hi⟩
    · exact absurd hkey.symm hne
    · exact hs.gone k hk i c hi hkey

/-- When the promise before a call has settled, so have all of its key before that. -/
theorem Inv.stored_before (hs : s.Inv) (hj : s.calls[j]? = some d)
    (hprevious : s.PreviousStored d.previous) (hij : i < j) (hi : s.calls[i]? = some c)
    (hkey : c.key = d.key) : 5 ≤ c.stage.rank := by
  match hp : d.previous with
  | none => exact hs.first j d hj hp i c hij hi hkey
  | some p =>
    rw [hp] at hprevious
    obtain ⟨-, ⟨e, he, hekey⟩, hbetween⟩ := hs.link j d hj p hp
    have hstored : 5 ≤ e.stage.rank := hprevious p rfl e he
    rcases Nat.lt_trichotomy i p with hlt | rfl | hgt
    · exact hs.turn i p c e hlt hi he (hkey.trans hekey.symm) (by omega)
    · obtain rfl := Option.some_inj.mp (hi.symm.trans he)
      exact hstored
    · exact absurd hkey (hbetween i c hgt hij hi)

theorem Inv.on (hs : s.Inv) (i : ℕ) (action : Action ο) : (s.step (.on i action)).Inv := by
  rcases step_on s i action with ⟨heq, -⟩ | ⟨c₀, stage, chains, hget, hadvance, heq, hchains⟩
  · rwa [heq]
  rw [heq]
  obtain ⟨hrank, hprevious, hcleaned, hclean⟩ := advance_spec hadvance
  -- every call is the one before the step, at a stage that is no lower
  have hold : ∀ {j : ℕ} {d : SerializedCall κ ο},
      (s.calls.set i { c₀ with stage := stage })[j]? = some d → ∃ d₀ : SerializedCall κ ο, s.calls[j]? = some d₀ ∧ d₀.key = d.key ∧
        d₀.previous = d.previous ∧ d₀.stage.rank ≤ d.stage.rank := by
    intro j d hd
    rcases getElem?_set hget hd with ⟨rfl, rfl⟩ | ⟨-, hd⟩
    · exact ⟨c₀, hget, rfl, rfl, hrank.le⟩
    · exact ⟨d, hd, rfl, rfl, le_rfl⟩
  have hnew : ∀ {j : ℕ} {d : SerializedCall κ ο}, s.calls[j]? = some d → ∃ d' : SerializedCall κ ο,
      (s.calls.set i { c₀ with stage := stage })[j]? = some d' ∧ d'.key = d.key := by
    intro j d hd
    by_cases hji : j = i
    · subst hji
      obtain rfl := Option.some_inj.mp (hget.symm.trans hd)
      exact ⟨_, List.getElem?_set_self (List.getElem?_eq_some_iff.mp hget).1, rfl⟩
    · exact ⟨d, (List.getElem?_set_ne (Ne.symm hji)).trans hd, rfl⟩
  refine ⟨fun j c hj p hp ↦ ?_, fun j c hj hnone k d hkj hk hkey ↦ ?_,
    fun k j c d hkj hk hj hkey h1 ↦ ?_, fun k j hk ↦ ?_, fun k hk j c hj hkey ↦ ?_⟩
  · obtain ⟨c', hj', hkey, hprev, -⟩ := hold hj
    obtain ⟨hpj, ⟨d, hd, hdkey⟩, hbetween⟩ := hs.link j c' hj' p (hprev.trans hp)
    obtain ⟨d', hd', hdkey'⟩ := hnew hd
    refine ⟨hpj, ⟨d', hd', by rw [hdkey', hdkey, hkey]⟩, fun k e hpk hkj hk ↦ ?_⟩
    obtain ⟨e', he', hekey, -, -⟩ := hold hk
    rw [← hekey, ← hkey]
    exact hbetween k e' hpk hkj he'
  · obtain ⟨c', hj', hkeyc, hprev, -⟩ := hold hj
    obtain ⟨d', hk', hkeyd, -, hle⟩ := hold hk
    exact (hs.first j c' hj' (hprev.trans hnone) k d' hkj hk'
      (hkeyd.trans (hkey.trans hkeyc.symm))).trans hle
  · obtain ⟨c', hk', hkeyc, -, hle⟩ := hold hk
    refine le_trans ?_ hle
    rcases getElem?_set hget hj with ⟨rfl, rfl⟩ | ⟨-, hj⟩
    · -- the call that goes on: it was past `waiting` already or leaves it now
      rcases Nat.eq_zero_or_pos c₀.stage.rank with hzero | hpos
      · exact hs.stored_before hget (hprevious hzero) hkj hk' (hkeyc.trans hkey)
      · exact hs.turn k j c' c₀ hkj hk' hget (hkeyc.trans hkey) hpos
    · exact hs.turn k j c' d hkj hk' hj (hkeyc.trans hkey) h1
  · have hk' : s.chains.get k = some j ∧ (j = i → action ≠ .cleanUp) := by
      rcases hchains with ⟨hnot, rfl⟩ | ⟨-, hthis, rfl⟩
      · refine ⟨hk, ?_⟩
        rintro rfl haction
        obtain ⟨c, hc, rfl, -⟩ := hs.tail k j hk
        obtain rfl := Option.some_inj.mp (hget.symm.trans hc)
        exact hnot.elim (fun h ↦ h haction) fun h ↦ h hk
      · rw [JsMap.get_delete] at hk
        split_ifs at hk with hne
        refine ⟨hk, ?_⟩
        rintro rfl
        obtain ⟨c, hc, rfl, -⟩ := hs.tail k j hk
        obtain rfl := Option.some_inj.mp (hget.symm.trans hc)
        exact absurd rfl hne
    obtain ⟨c, hc, hck, hlt, hlast⟩ := hs.tail k j hk'.1
    have hlast' : ∀ (j' : ℕ) (d : SerializedCall κ ο), j < j' →
        (s.calls.set i { c₀ with stage := stage })[j']? = some d → d.key ≠ k := by
      intro j' d hjj' hd
      obtain ⟨d', hd', hkey, -, -⟩ := hold hd
      rw [← hkey]
      exact hlast j' d' hjj' hd'
    by_cases hji : j = i
    · subst hji
      obtain rfl := Option.some_inj.mp (hget.symm.trans hc)
      refine ⟨_, List.getElem?_set_self (List.getElem?_eq_some_iff.mp hget).1, hck, ?_, hlast'⟩
      exact not_le.mp fun h6 ↦ hk'.2 rfl (hcleaned h6)
    · exact ⟨c, (List.getElem?_set_ne (Ne.symm hji)).trans hc, hck, hlt, hlast'⟩
  · obtain ⟨c', hj', hkeyc, -, hle⟩ := hold hj
    refine le_trans ?_ hle
    rcases hchains with ⟨-, rfl⟩ | ⟨haction, hthis, rfl⟩
    · exact hs.gone k hk j c' hj' (hkeyc.trans hkey)
    · rw [JsMap.get_delete] at hk
      split_ifs at hk with hkey'
      · -- the entry that is deleted was that of the last call of its key
        have hstored := hclean haction
        obtain ⟨c, hc, -, -, hlast⟩ := hs.tail c₀.key i hthis
        rcases Nat.lt_trichotomy j i with hlt | rfl | hgt
        · exact hs.turn j i c' c₀ hlt hj' hget (hkeyc.trans (hkey.trans hkey')) (by omega)
        · obtain rfl := Option.some_inj.mp (hget.symm.trans hj')
          exact hstored
        · exact absurd (hkeyc.trans (hkey.trans hkey')) (hlast j c' hgt hj')
      · exact hs.gone k hk j c' hj' (hkeyc.trans hkey)

theorem after_concat (events : List (Event κ ο)) (e : Event κ ο) :
    after (events ++ [e]) = (after events).step e := List.foldl_concat _ _ _ _

theorem inv_after (events : List (Event κ ο)) : (after events).Inv := by
  induction events using List.reverseRecOn with
  | nil => exact inv_initial
  | append_singleton events e ih =>
    rw [after_concat]
    cases e with
    | call key => exact ih.call key
    | on i action => exact ih.on i action

/-! ## Outcomes -/

variable {events : List (Event κ ο)} {e : Event κ ο} {o : ο}

omit [DecidableEq κ] in
/-- Where no microtask is due, a call waits for the one before it or for its task, or is over. -/
theorem Stable.cases (h : s.Stable) (hget : s.calls[i]? = some c) :
    (c.stage = .waiting ∧ ¬s.PreviousStored c.previous) ∨ c.stage = .called ∨
      ∃ o, c.stage = .cleaned o := by
  have hnone := h i c hget
  match hstage : c.stage with
  | .waiting =>
    refine .inl ⟨rfl, fun hprevious ↦ ?_⟩
    have hcatch := hnone .catchPrevious trivial
    simp [advance, hstage, hprevious] at hcatch
  | .caught =>
    have hbegin := hnone (.begin none) trivial
    simp [advance, hstage] at hbegin
  | .called => exact .inr (.inl rfl)
  | .ended o =>
    have hdeliver := hnone .deliver trivial
    simp [advance, hstage] at hdeliver
  | .delivered o =>
    have hstore := hnone .store trivial
    simp [advance, hstage] at hstore
  | .stored o =>
    have hclean := hnone .cleanUp trivial
    simp [advance, hstage] at hclean
  | .cleaned o => exact .inr (.inr ⟨o, rfl⟩)

/-- What is left to do for the calls. -/
def remaining (calls : List (SerializedCall κ ο)) : ℕ := (calls.map fun c ↦ 6 - c.stage.rank).sum

end KeyedSerializer

end Vibestudio.Shared

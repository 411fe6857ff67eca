import Mathlib
import Vibestudio.Js.Text

/-!
# Pages of channel envelopes

`channelEnvelopePageInfo` of `packages/shared/src/channelEnvelopePaging.ts`: what a page of a log says of the items
around it, and the windows that it hands out to read on. A log is its sequence numbers in ascending order.

The metadata is computed from the first and the last item of the log, and from those of the page. This is enough on
every side that ends with the log; the watermark of an `after` window can lie between two items, or beyond a log that is
empty, and then it is taken for an item (`channelEnvelopePageInfo_correct_iff`).
-/

namespace Vibestudio.Shared

open Js

inductive ChannelEnvelopeWindow where
  | tail
  | after (seq : ℕ) (throughSeq : Option ℕ)
  | before (seq : ℕ)
  deriving DecidableEq

structure ChannelEnvelopeSequenceStats where
  totalCount : ℕ
  firstSeq : Option ℕ
  lastSeq : Option ℕ
  deriving DecidableEq

structure NormalizedChannelEnvelopePageRequest where
  channelId : JsString
  window : ChannelEnvelopeWindow
  limit : ℕ
  payloadKind : Option JsString
  deriving DecidableEq

/-- The request that a page answers, without the channel. -/
structure ChannelEnvelopePageEcho where
  window : ChannelEnvelopeWindow
  limit : ℕ
  payloadKind : Option JsString
  deriving DecidableEq

structure ChannelEnvelopePageInfo where
  request : ChannelEnvelopePageEcho
  returnedCount : ℕ
  totalCount : ℕ
  firstSeq : Option ℕ
  lastSeq : Option ℕ
  snapshotLastSeq : Option ℕ
  returnedFromSeq : Option ℕ
  returnedToSeq : Option ℕ
  hasMoreBefore : Bool
  hasMoreAfter : Bool
  next : Option ChannelEnvelopeWindow
  previous : Option ChannelEnvelopeWindow
  deriving DecidableEq

def snapshotLastSeq (window : ChannelEnvelopeWindow) (lastSeq : Option ℕ) : Option ℕ :=
  match window with
  | .after _ (some throughSeq) =>
    match lastSeq with
    | none => some throughSeq
    | some lastSeq => some (min lastSeq throughSeq)
  | _ => lastSeq

def hasMoreBefore (window : ChannelEnvelopeWindow) (stats : ChannelEnvelopeSequenceStats)
    (returnedFromSeq : Option ℕ) : Bool :=
  match returnedFromSeq, window with
  | some returnedFromSeq, _ => stats.firstSeq.any (· < returnedFromSeq)
  | none, .tail => 0 < stats.totalCount
  | none, .after seq _ => stats.firstSeq.any (· ≤ seq)
  | none, .before seq => stats.firstSeq.any (· < seq)

def hasMoreAfter (window : ChannelEnvelopeWindow) (stats : ChannelEnvelopeSequenceStats)
    (returnedToSeq : Option ℕ) : Bool :=
  match returnedToSeq, window with
  | some returnedToSeq, _ => (snapshotLastSeq window stats.lastSeq).any (returnedToSeq < ·)
  | none, .tail => false
  | none, .after seq _ => (snapshotLastSeq window stats.lastSeq).any (seq < ·)
  | none, .before seq => stats.lastSeq.any (seq ≤ ·)

/-- The anchor of a window that reads back: the page, or the boundary of an empty one. -/
def previousSeq (window : ChannelEnvelopeWindow) (lastSeq returnedFromSeq : Option ℕ) : ℕ :=
  returnedFromSeq.getD <|
    match window with
    | .tail => lastSeq.elim 0 (· + 1)
    | .after seq _ => seq + 1
    | .before seq => seq

def nextAfterSeq (window : ChannelEnvelopeWindow) (returnedToSeq : Option ℕ) : Option ℤ :=
  match returnedToSeq, window with
  | some returnedToSeq, _ => some returnedToSeq
  | none, .tail => none
  | none, .after seq _ => some seq
  | none, .before seq => some (seq - 1)

def channelEnvelopePageInfo (request : NormalizedChannelEnvelopePageRequest) (stats : ChannelEnvelopeSequenceStats)
    (returnedSeqs : List ℕ) : ChannelEnvelopePageInfo :=
  let returnedFromSeq := returnedSeqs.head?
  let returnedToSeq := returnedSeqs.getLast?
  let snapshotLastSeq := snapshotLastSeq request.window stats.lastSeq
  let hasMoreBefore := hasMoreBefore request.window stats returnedFromSeq
  let hasMoreAfter := hasMoreAfter request.window stats returnedToSeq
  { request := ⟨request.window, request.limit, request.payloadKind.filter (· ≠ [])⟩
    returnedCount := returnedSeqs.length
    totalCount := stats.totalCount
    firstSeq := stats.firstSeq
    lastSeq := stats.lastSeq
    snapshotLastSeq
    returnedFromSeq
    returnedToSeq
    hasMoreBefore
    hasMoreAfter
    next :=
      if hasMoreAfter then
        (nextAfterSeq request.window returnedToSeq).bind fun seq ↦
          if 0 ≤ seq then some (.after seq.toNat snapshotLastSeq) else none
      else none
    previous :=
      if hasMoreBefore then some (.before (previousSeq request.window stats.lastSeq returnedFromSeq)) else none }

/-! ## Logs -/

def sequenceStats (log : List ℕ) : ChannelEnvelopeSequenceStats := ⟨log.length, log.head?, log.getLast?⟩

namespace ChannelEnvelopeWindow

/-- The check of the request schema. -/
def Valid : ChannelEnvelopeWindow → Prop
  | .after seq (some throughSeq) => seq ≤ throughSeq
  | _ => True

/-- The log up to the watermark of the window. -/
def cut (log : List ℕ) : ChannelEnvelopeWindow → List ℕ
  | .after _ (some throughSeq) => log.filter (· ≤ throughSeq)
  | _ => log

/-- The items of a window. -/
def items (log : List ℕ) (window : ChannelEnvelopeWindow) : List ℕ :=
  match window with
  | .tail => log
  | .after seq _ => (window.cut log).filter (seq < ·)
  | .before seq => log.filter (· < seq)

/-- The first items of an `after` window, and the last ones of the others. -/
def page (log : List ℕ) (limit : ℕ) (window : ChannelEnvelopeWindow) : List ℕ :=
  match window with
  | .after _ _ => (window.items log).take limit
  | _ => (window.items log).drop ((window.items log).length - limit)

/-- The items behind a page, or behind the boundary of an empty one. -/
def itemsAfter (log returned : List ℕ) (window : ChannelEnvelopeWindow) : List ℕ :=
  match returned.getLast?, window with
  | some returnedToSeq, _ => (window.cut log).filter (returnedToSeq < ·)
  | none, .tail => []
  | none, .after seq _ => (window.cut log).filter (seq < ·)
  | none, .before seq => (window.cut log).filter (seq ≤ ·)

/-- The items ahead of a page, or of the boundary of an empty one. -/
def itemsBefore (log returned : List ℕ) (window : ChannelEnvelopeWindow) : List ℕ :=
  match returned.head?, window with
  | some returnedFromSeq, _ => (window.cut log).filter (· < returnedFromSeq)
  | none, .tail => window.cut log
  | none, .after seq _ => (window.cut log).filter (· ≤ seq)
  | none, .before seq => (window.cut log).filter (· < seq)

end ChannelEnvelopeWindow

/-- The flags are true exactly when there are items on their side, and each comes with a window of these items. -/
structure PageInfoCorrect (window : ChannelEnvelopeWindow) (log returned : List ℕ) (info : ChannelEnvelopePageInfo) :
    Prop where
  hasMoreAfter : info.hasMoreAfter = true ↔ window.itemsAfter log returned ≠ []
  hasMoreBefore : info.hasMoreBefore = true ↔ window.itemsBefore log returned ≠ []
  next : info.next.isSome = info.hasMoreAfter
  previous : info.previous.isSome = info.hasMoreBefore
  nextItems : ∀ window' ∈ info.next, window'.items log = window.itemsAfter log returned
  previousItems : ∀ window' ∈ info.previous, window'.items log = window.itemsBefore log returned

/-- The watermark of the window is not taken for an item: the page does not hold all items of the window, or nothing lies
between its end and the watermark, or no item lies behind its end at all. And there is a window behind the boundary. -/
def ChannelEnvelopeWindow.Reports (log : List ℕ) (limit : ℕ) (window : ChannelEnvelopeWindow) : Prop :=
  match window with
  | .before seq => seq = 0 → log = []
  | .after seq (some throughSeq) =>
    limit < (window.items log).length ∨ throughSeq ≤ (window.items log).getLast?.getD seq ∨
      log ≠ [] ∧ ∀ item ∈ log, item ≤ (window.items log).getLast?.getD seq
  | _ => True

/-! ## The ends of a log -/

section ends

variable {log : List ℕ}

theorem le_of_head? (h : log.Pairwise (· < ·)) {first item : ℕ} (hfirst : log.head? = some first) (hmem : item ∈ log) :
    first ≤ item := by
  match log with
  | x :: log =>
    obtain rfl := Option.some.inj hfirst
    rcases List.mem_cons.mp hmem with rfl | hmem
    · exact le_rfl
    · exact ((List.pairwise_cons.mp h).1 item hmem).le

theorem le_of_getLast? (h : log.Pairwise (· < ·)) {last item : ℕ} (hlast : log.getLast? = some last)
    (hmem : item ∈ log) : item ≤ last := by
  obtain ⟨init, rfl⟩ := List.getLast?_eq_some_iff.mp hlast
  rcases List.mem_append.mp hmem with hmem | hmem
  · exact ((List.pairwise_append.mp h).2.2 item hmem last (List.mem_singleton_self last)).le
  · exact (List.mem_singleton.mp hmem).le

/-- Something lies ahead of a bound exactly if the first item does. -/
theorem head?_any_iff (h : log.Pairwise (· < ·)) {p : ℕ → Bool} (hp : ∀ m n, m ≤ n → p n = true → p m = true) :
    log.head?.any p = true ↔ log.filter p ≠ [] := by
  rw [ne_eq, List.filter_eq_nil_iff, Option.any_eq_true]
  push Not
  constructor
  · rintro ⟨first, hfirst, hpfirst⟩
    exact ⟨first, List.mem_of_mem_head? hfirst, hpfirst⟩
  · rintro ⟨item, hmem, hpitem⟩
    obtain ⟨first, hfirst⟩ := List.isSome_head?.mpr (List.ne_nil_of_mem hmem) |> Option.isSome_iff_exists.mp
    exact ⟨first, hfirst, hp _ _ (le_of_head? h hfirst hmem) hpitem⟩

/-- Something lies behind a bound exactly if the last item does. -/
theorem getLast?_any_iff (h : log.Pairwise (· < ·)) {p : ℕ → Bool} (hp : ∀ m n, m ≤ n → p m = true → p n = true) :
    log.getLast?.any p = true ↔ log.filter p ≠ [] := by
  rw [ne_eq, List.filter_eq_nil_iff, Option.any_eq_true]
  push Not
  constructor
  · rintro ⟨last, hlast, hplast⟩
    exact ⟨last, List.mem_of_getLast? hlast, hplast⟩
  · rintro ⟨item, hmem, hpitem⟩
    obtain ⟨last, hlast⟩ := List.getLast?_isSome.mpr (List.ne_nil_of_mem hmem) |> Option.isSome_iff_exists.mp
    exact ⟨last, hlast, hp _ _ (le_of_getLast? h hlast hmem) hpitem⟩

end ends

/-! ## The two sides -/

section sides

variable {log returned : List ℕ} {window : ChannelEnvelopeWindow}

namespace ChannelEnvelopeWindow

theorem filter_cut {p : ℕ → Bool} (h : ∀ seq throughSeq, window = .after seq (some throughSeq) →
    ∀ item ∈ log, p item = true → item ≤ throughSeq) : (window.cut log).filter p = log.filter p := by
  match window with
  | .tail | .before _ | .after _ none => rfl
  | .after seq (some throughSeq) =>
    rw [cut, List.filter_filter]
    refine List.filter_congr fun item hmem ↦ ?_
    rw [Bool.and_eq_left_iff_imp]
    exact fun hp ↦ decide_eq_true (h seq throughSeq rfl item hmem hp)

theorem mem_items {item : ℕ} (h : item ∈ window.items log) : item ∈ window.cut log := by
  match window with
  | .tail => exact h
  | .after _ _ | .before _ => exact List.mem_of_mem_filter h

theorem page_subset (limit : ℕ) : window.page log limit ⊆ window.items log := by
  match window with
  | .tail | .before _ => exact List.drop_subset _ _
  | .after _ _ => exact List.take_subset _ _

/-- The items ahead are those below the anchor of the window that reads back. -/
theorem itemsBefore_eq (hlog : log.Pairwise (· < ·)) (hvalid : window.Valid) (hreturned : returned ⊆ window.items log) :
    window.itemsBefore log returned = log.filter (· < previousSeq window log.getLast? returned.head?) := by
  match hhead : returned.head? with
  | some returnedFromSeq =>
    unfold itemsBefore
    rw [hhead]
    apply filter_cut
    · rintro seq throughSeq rfl item - hlt
      have hfrom := mem_items (hreturned (List.mem_of_mem_head? hhead))
      have hle : returnedFromSeq ≤ throughSeq := of_decide_eq_true (List.mem_filter.mp hfrom).2
      exact (of_decide_eq_true hlt).le.trans hle
  | none =>
    unfold itemsBefore
    rw [hhead]
    match window with
    | .tail =>
      refine (List.filter_eq_self.mpr fun item hmem ↦ ?_).symm
      match hlast : log.getLast? with
      | none => exact absurd (List.getLast?_eq_none_iff.mp hlast ▸ hmem) List.not_mem_nil
      | some last => exact decide_eq_true (Nat.lt_succ_of_le (le_of_getLast? hlog hlast hmem))
    | .after seq throughSeq =>
      simp only
      rw [filter_cut]
      · exact List.filter_congr fun item _ ↦ decide_eq_decide.mpr Nat.lt_succ_iff.symm
      · intro seq' throughSeq' heq item _ hle
        obtain ⟨rfl, rfl⟩ := after.inj heq
        exact (of_decide_eq_true hle).trans hvalid
    | .before seq => rfl

theorem hasMoreBefore_iff (hlog : log.Pairwise (· < ·)) : hasMoreBefore window (sequenceStats log) returned.head? = true ↔
    log.filter (· < previousSeq window log.getLast? returned.head?) ≠ [] := by
  have hdown : ∀ bound m n : ℕ, m ≤ n → decide (n < bound) = true → decide (m < bound) = true :=
    fun _ _ _ hle hlt ↦ decide_eq_true (hle.trans_lt (of_decide_eq_true hlt))
  match hhead : returned.head? with
  | some returnedFromSeq => exact head?_any_iff hlog (hdown _)
  | none =>
    match window with
    | .tail =>
      match hlast : log.getLast? with
      | none =>
        rw [List.getLast?_eq_none_iff.mp hlast]
        exact iff_of_false Bool.false_ne_true (not_not.mpr rfl)
      | some last =>
        have hmem := List.mem_of_getLast? hlast
        have hbelow : last ∈ log.filter (· < last + 1) := List.mem_filter.mpr ⟨hmem, decide_eq_true (Nat.lt_succ_self last)⟩
        exact iff_of_true (decide_eq_true (List.length_pos_of_mem hmem)) (List.ne_nil_of_mem hbelow)
    | .after seq throughSeq =>
      have hsucc : log.filter (· < seq + 1) = log.filter (· ≤ seq) :=
        List.filter_congr fun item _ ↦ decide_eq_decide.mpr Nat.lt_succ_iff
      change _ ↔ log.filter (· < seq + 1) ≠ []
      rw [hsucc]
      exact head?_any_iff hlog fun _ _ hle hlt ↦ decide_eq_true (hle.trans (of_decide_eq_true hlt))
    | .before seq => exact head?_any_iff hlog (hdown _)

/-- The items behind are those above the anchor of the window that reads on. -/
theorem itemsAfter_eq : window.itemsAfter log returned =
    (window.cut log).filter fun (item : ℕ) ↦ (nextAfterSeq window returned.getLast?).any (· < (item : ℤ)) := by
  unfold itemsAfter
  match hlast : returned.getLast? with
  | some returnedToSeq =>
    exact List.filter_congr fun item _ ↦ decide_eq_decide.mpr Nat.cast_lt.symm
  | none =>
    match window with
    | .tail => exact (List.filter_eq_nil_iff.mpr fun _ _ ↦ Bool.false_ne_true).symm
    | .after seq throughSeq => exact List.filter_congr fun item _ ↦ decide_eq_decide.mpr Nat.cast_lt.symm
    | .before seq => exact List.filter_congr fun item _ ↦ decide_eq_decide.mpr (by omega)

/-- The log ends where its last item is, so the watermark of the next window cuts it where the present one does. -/
theorem cut_snapshotLastSeq (hlog : log.Pairwise (· < ·)) (seq : ℕ) :
    (after seq (snapshotLastSeq window log.getLast?)).cut log = window.cut log := by
  have hall : ∀ last, log.getLast? = some last → log.filter (· ≤ last) = log := fun last hlast ↦
    List.filter_eq_self.mpr fun item hmem ↦ decide_eq_true (le_of_getLast? hlog hlast hmem)
  match hlast : log.getLast? with
  | none =>
    rw [List.getLast?_eq_none_iff.mp hlast]
    match window with
    | .tail | .before _ | .after _ none | .after _ (some _) => rfl
  | some last =>
    match window with
    | .tail | .before _ | .after _ none => exact hall last hlast
    | .after _ (some throughSeq) =>
      refine List.filter_congr fun item hmem ↦ decide_eq_decide.mpr ?_
      rw [le_min_iff]
      exact and_iff_right (le_of_getLast? hlog hlast hmem)

/-- A side that ends with the log is seen from the last item. -/
theorem hasMoreAfter_iff (hlog : log.Pairwise (· < ·)) (hopen : ∀ seq throughSeq, window ≠ .after seq (some throughSeq)) :
    hasMoreAfter window (sequenceStats log) returned.getLast? = true ↔ window.itemsAfter log returned ≠ [] := by
  have hup : ∀ bound m n : ℕ, m ≤ n → decide (bound < m) = true → decide (bound < n) = true :=
    fun _ _ _ hle hlt ↦ decide_eq_true ((of_decide_eq_true hlt).trans_le hle)
  unfold itemsAfter
  match hlast : returned.getLast? with
  | some returnedToSeq =>
    match window with
    | .tail | .before _ | .after _ none => exact getLast?_any_iff hlog (hup _)
    | .after seq (some throughSeq) => exact absurd rfl (hopen seq throughSeq)
  | none =>
    match window with
    | .tail => exact iff_of_false Bool.false_ne_true (not_not.mpr rfl)
    | .after _ none => exact getLast?_any_iff hlog (hup _)
    | .after seq (some throughSeq) => exact absurd rfl (hopen seq throughSeq)
    | .before seq =>
      exact getLast?_any_iff hlog fun _ _ hle hlt ↦ decide_eq_true ((of_decide_eq_true hlt).trans hle)

/-- A page says what is true once it does of the items behind it, and can name a window of them. -/
theorem pageInfoCorrect_iff (hlog : log.Pairwise (· < ·)) (request : NormalizedChannelEnvelopePageRequest)
    (hvalid : request.window.Valid) (hreturned : returned ⊆ request.window.items log) :
    PageInfoCorrect request.window log returned (channelEnvelopePageInfo request (sequenceStats log) returned) ↔
      (hasMoreAfter request.window (sequenceStats log) returned.getLast? = true ↔
        request.window.itemsAfter log returned ≠ []) ∧
      (hasMoreAfter request.window (sequenceStats log) returned.getLast? = true →
        ∃ seq ∈ nextAfterSeq request.window returned.getLast?, 0 ≤ seq) := by
  constructor
  · intro hcorrect
    refine ⟨hcorrect.hasMoreAfter, fun hmore ↦ ?_⟩
    have hnext := hcorrect.next
    rw [channelEnvelopePageInfo, if_pos hmore, hmore] at hnext
    obtain ⟨window', hwindow'⟩ := Option.isSome_iff_exists.mp hnext
    obtain ⟨seq, hseq, hwindow'⟩ := Option.bind_eq_some_iff.mp hwindow'
    exact ⟨seq, hseq, (Option.ite_none_right_eq_some.mp hwindow').1⟩
  · rintro ⟨hmore, hanchor⟩
    have hbefore := itemsBefore_eq hlog hvalid hreturned
    refine ⟨hmore, (hasMoreBefore_iff hlog).trans (by rw [hbefore]), ?_, ?_, ?_, ?_⟩
    · change Option.isSome (if _ then _ else none) = hasMoreAfter _ _ _
      split
      · next htrue =>
        obtain ⟨seq, hseq, hle⟩ := hanchor htrue
        rw [Option.mem_def.mp hseq, Option.bind_some, if_pos hle, htrue]
        rfl
      · next hfalse => exact (Bool.eq_false_of_not_eq_true hfalse).symm
    · change Option.isSome (if _ then _ else none) = hasMoreBefore _ _ _
      split
      · next htrue => exact htrue.symm
      · next hfalse => exact (Bool.eq_false_of_not_eq_true hfalse).symm
    · intro window' hwindow'
      obtain ⟨-, hwindow'⟩ := Option.ite_none_right_eq_some.mp hwindow'
      obtain ⟨seq, hseq, hwindow'⟩ := Option.bind_eq_some_iff.mp hwindow'
      obtain ⟨hle, hwindow'⟩ := Option.ite_none_right_eq_some.mp hwindow'
      obtain rfl := Option.some.inj hwindow'
      rw [itemsAfter_eq, items, sequenceStats, cut_snapshotLastSeq hlog, hseq]
      exact List.filter_congr fun item _ ↦ decide_eq_decide.mpr (Int.toNat_lt hle)
    · intro window' hwindow'
      obtain ⟨-, hwindow'⟩ := Option.ite_none_right_eq_some.mp hwindow'
      obtain rfl := Option.some.inj hwindow'
      exact hbefore.symm

end ChannelEnvelopeWindow

end sides

/-! ## The watermark -/

section watermark

variable {log returned : List ℕ} {seq throughSeq limit : ℕ}

namespace ChannelEnvelopeWindow

theorem hasMoreAfter_watermark : hasMoreAfter (.after seq (some throughSeq)) (sequenceStats log) returned.getLast? = true ↔
    returned.getLast?.getD seq < throughSeq ∧ ∀ last ∈ log.getLast?, returned.getLast?.getD seq < last := by
  have hmin (bound : ℕ) : (snapshotLastSeq (.after seq (some throughSeq)) log.getLast?).any (bound < ·) = true ↔
      bound < throughSeq ∧ ∀ last ∈ log.getLast?, bound < last := by
    match log.getLast? with
    | none => simp [snapshotLastSeq]
    | some last => simp [snapshotLastSeq, and_comm]
  match returned.getLast? with
  | none | some _ => exact hmin _

theorem itemsAfter_watermark : (after seq (some throughSeq)).itemsAfter log returned =
    ((after seq (some throughSeq)).cut log).filter (returned.getLast?.getD seq < ·) := by
  unfold itemsAfter
  match returned.getLast? with
  | none | some _ => rfl

/-- A page that does not hold all items of its window is followed by the next of them. -/
theorem exists_itemsAfter (hlog : log.Pairwise (· < ·)) (hlimit : limit < ((after seq (some throughSeq)).items log).length) :
    ∃ item, item ∈ (after seq (some throughSeq)).itemsAfter log ((after seq (some throughSeq)).page log limit) := by
  set items := (after seq (some throughSeq)).items log with hitems
  have hsorted : items.Pairwise (· < ·) := (hlog.filter _).filter _
  have hnext := List.mem_filter.mp (List.getElem_mem hlimit)
  refine ⟨items[limit], ?_⟩
  rw [itemsAfter_watermark]
  refine List.mem_filter.mpr ⟨hnext.1, decide_eq_true ?_⟩
  match hlast : ((after seq (some throughSeq)).page log limit).getLast? with
  | none => exact of_decide_eq_true hnext.2
  | some returnedToSeq =>
    -- the last item of the page stands somewhere before the limit
    obtain ⟨i, hi, heq⟩ := List.mem_take_iff_getElem.mp (List.mem_of_getLast? hlast)
    rw [Option.getD_some, ← heq]
    exact List.pairwise_iff_getElem.mp hsorted i limit _ hlimit (lt_min_iff.mp hi).1

/-- A page that holds all items of its window is followed by none. -/
theorem itemsAfter_eq_nil (hlog : log.Pairwise (· < ·)) (hlimit : ((after seq (some throughSeq)).items log).length ≤ limit) :
    (after seq (some throughSeq)).itemsAfter log ((after seq (some throughSeq)).page log limit) = [] := by
  set items := (after seq (some throughSeq)).items log with hitems
  have hsorted : items.Pairwise (· < ·) := (hlog.filter _).filter _
  have hpage : (after seq (some throughSeq)).page log limit = items := List.take_of_length_le hlimit
  rw [itemsAfter_watermark, hpage, List.filter_eq_nil_iff]
  intro item hmem hlt
  have hlt := of_decide_eq_true hlt
  match hlast : items.getLast? with
  | none =>
    rw [hlast] at hlt
    have hitem : item ∈ items := List.mem_filter.mpr ⟨hmem, decide_eq_true hlt⟩
    exact List.ne_nil_of_mem hitem (List.getLast?_eq_none_iff.mp hlast)
  | some last =>
    rw [hlast] at hlt
    have hseq : seq < last := of_decide_eq_true (List.mem_filter.mp (List.mem_of_getLast? hlast)).2
    have hitem : item ∈ items := List.mem_filter.mpr ⟨hmem, decide_eq_true (hseq.trans hlt)⟩
    exact absurd (le_of_getLast? hsorted hlast hitem) hlt.not_ge

/-- On an `after` window with a watermark the flag is right exactly if the watermark is not taken for an item. -/
theorem hasMoreAfter_watermark_iff (hlog : log.Pairwise (· < ·)) :
    (hasMoreAfter (.after seq (some throughSeq)) (sequenceStats log)
        ((after seq (some throughSeq)).page log limit).getLast? = true ↔
      (after seq (some throughSeq)).itemsAfter log ((after seq (some throughSeq)).page log limit) ≠ []) ↔
      (after seq (some throughSeq)).Reports log limit := by
  rw [hasMoreAfter_watermark]
  rcases Nat.lt_or_ge limit ((after seq (some throughSeq)).items log).length with hlimit | hlimit
  · refine iff_of_true ?_ (.inl hlimit)
    obtain ⟨item, hitem⟩ := exists_itemsAfter hlog hlimit
    have hmem := hitem
    rw [itemsAfter_watermark] at hmem
    obtain ⟨hcut, hlt⟩ := List.mem_filter.mp hmem
    obtain ⟨hitemLog, hle⟩ := List.mem_filter.mp hcut
    have hlt := of_decide_eq_true hlt
    refine iff_of_true ⟨hlt.trans_le (of_decide_eq_true hle), fun last hlast ↦ ?_⟩ (List.ne_nil_of_mem hitem)
    exact hlt.trans_le (le_of_getLast? hlog hlast hitemLog)
  · rw [itemsAfter_eq_nil hlog hlimit, page, List.take_of_length_le hlimit, iff_false_right (not_not.mpr rfl)]
    set bound := ((after seq (some throughSeq)).items log).getLast?.getD seq with hbound
    have hreports : (after seq (some throughSeq)).Reports log limit ↔
        throughSeq ≤ bound ∨ log ≠ [] ∧ ∀ item ∈ log, item ≤ bound :=
      or_iff_right hlimit.not_gt
    rw [hreports, not_and_or, Nat.not_lt]
    refine or_congr_right ?_
    push Not
    constructor
    · rintro ⟨last, hlast, hle⟩
      exact ⟨List.ne_nil_of_mem (List.mem_of_getLast? hlast), fun item hmem ↦ (le_of_getLast? hlog hlast hmem).trans hle⟩
    · rintro ⟨hne, hall⟩
      obtain ⟨last, hlast⟩ := Option.isSome_iff_exists.mp (List.getLast?_isSome.mpr hne)
      exact ⟨last, hlast, hall last (List.mem_of_getLast? hlast)⟩

end ChannelEnvelopeWindow

end watermark

/-! ## The page info -/

open ChannelEnvelopeWindow in
/-- What a page reports of the log around it is right exactly if its window reports it. -/
theorem channelEnvelopePageInfo_correct_iff {log : List ℕ} (request : NormalizedChannelEnvelopePageRequest)
    (hlog : log.Pairwise (· < ·)) (hvalid : request.window.Valid) :
    PageInfoCorrect request.window log (request.window.page log request.limit)
        (channelEnvelopePageInfo request (sequenceStats log) (request.window.page log request.limit)) ↔
      request.window.Reports log request.limit := by
  rw [pageInfoCorrect_iff hlog request hvalid (page_subset _)]
  obtain ⟨channelId, window, limit, payloadKind⟩ := request
  -- a window behind the boundary is missing only ahead of the number zero
  have hanchor (returned : List ℕ) (hne : returned ≠ [] ∨ ∃ seq throughSeq, window = .after seq throughSeq) :
      ∃ seq ∈ nextAfterSeq window returned.getLast?, 0 ≤ seq := by
    match hlast : returned.getLast? with
    | some returnedToSeq => exact ⟨returnedToSeq, rfl, Int.natCast_nonneg _⟩
    | none =>
      obtain ⟨seq, throughSeq, rfl⟩ := hne.resolve_left (not_not.mpr (List.getLast?_eq_none_iff.mp hlast))
      exact ⟨seq, rfl, Int.natCast_nonneg _⟩
  match window with
  | .tail =>
    refine iff_of_true ⟨hasMoreAfter_iff hlog fun _ _ ↦ nofun, fun hmore ↦ hanchor _ (.inl fun hnil ↦ ?_)⟩ trivial
    rw [hnil] at hmore
    exact Bool.false_ne_true hmore
  | .after seq none =>
    exact iff_of_true ⟨hasMoreAfter_iff hlog fun _ _ ↦ nofun, fun _ ↦ hanchor _ (.inr ⟨seq, none, rfl⟩)⟩ trivial
  | .after seq (some throughSeq) =>
    rw [and_iff_left fun _ ↦ hanchor _ (.inr ⟨seq, some throughSeq, rfl⟩)]
    exact hasMoreAfter_watermark_iff hlog
  | .before seq =>
    have hopen : ∀ seq' throughSeq, before seq ≠ .after seq' throughSeq := fun _ _ ↦ nofun
    rw [and_iff_right (hasMoreAfter_iff hlog fun _ _ ↦ hopen _ _)]
    constructor
    · rintro hmore rfl
      by_contra hne
      obtain ⟨last, hlast⟩ := Option.isSome_iff_exists.mp (List.getLast?_isSome.mpr hne)
      have hnil : page log limit (.before 0) = [] := by
        have hitems : items log (.before 0) = [] :=
          List.filter_eq_nil_iff.mpr fun item _ hlt ↦ Nat.not_lt_zero item (of_decide_eq_true hlt)
        unfold page
        rw [hitems]
        exact List.drop_nil
      rw [hnil] at hmore
      obtain ⟨seq, hseq, hle⟩ := hmore (by rw [sequenceStats, hlast]; rfl)
      obtain rfl := Option.some.inj hseq
      exact absurd hle (by decide)
    · intro hreports hmore
      rcases eq_or_ne (page log limit (.before seq)) [] with hnil | hne
      · rw [hnil] at hmore ⊢
        refine ⟨seq - 1, rfl, ?_⟩
        -- the last item lies behind the boundary, so the log is not empty
        obtain ⟨last, hlast, -⟩ := (Option.any_eq_true _ _).mp hmore
        have hne := List.ne_nil_of_mem (List.mem_of_getLast? hlast)
        have : seq ≠ 0 := fun hzero ↦ hne (hreports hzero)
        omega
      · exact hanchor _ (.inl hne)

/-- The rest of a log after its first item, up to an item that is not its last. -/
theorem channelEnvelopePageInfo_correct_through : PageInfoCorrect (.after 1 (some 20)) [1, 20, 30] [20]
    (channelEnvelopePageInfo ⟨[], .after 1 (some 20), 5, none⟩ (sequenceStats [1, 20, 30]) [20]) :=
  (channelEnvelopePageInfo_correct_iff ⟨[], .after 1 (some 20), 5, none⟩ (by decide) (by decide : 1 ≤ 20)).mpr
    (.inr (.inl (by decide)))

/-- The watermark lies between the items 1 and 20, so nothing is left to read after the boundary 5: the page still reports
more behind it. -/
theorem reports_watermark : ¬∀ (request : NormalizedChannelEnvelopePageRequest) (log : List ℕ), log.Pairwise (· < ·) →
    request.window.Valid → PageInfoCorrect request.window log (request.window.page log request.limit)
      (channelEnvelopePageInfo request (sequenceStats log) (request.window.page log request.limit)) := by
  intro h
  have hcorrect := h ⟨[], .after 5 (some 10), 2, none⟩ [1, 20] (by decide) (by decide : 5 ≤ 10)
  exact hcorrect.hasMoreAfter.mp rfl (by decide)

end Vibestudio.Shared

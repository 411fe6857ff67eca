import Mathlib
import Vibestudio.Server.AcquisitionReceipts

/-!
# What the acquisition operations write

Every operation but the retirements is a sequence of the writes of `AcquisitionWrite`, each with what
the code has made sure of before it. A retirement first fences its owner and then settles what the
owner has pending, so between the two the fence is ahead of the rows; `ActiveBut` is the invariant
of that moment.
-/

namespace Vibestudio.Server

open Js Sqlite Shared Transition

variable {host : AcquisitionHost} {G : Type} {db db' : AcquisitionDb G}

/-! ## Verification -/

/-- The row passes its verification when its own owner reads it. -/
def Verified (host : AcquisitionHost) (id : JsString) (row : AcquisitionRow) : Prop :=
  ∃ record, owned host id row row.owner = .ok record

theorem owned_eq_ok {id : JsString} {row : AcquisitionRow} {owner : AcquisitionOwner}
    {record : AcquisitionRecord} (h : owned host id row owner = .ok record) :
    requireOwner owner = .ok () ∧ row.owner = owner ∧
      (∃ admission, ownedAdmission host id row owner = .ok admission) ∧
      record.acquisitionId = id ∧ record.bindingDigest = row.bindingDigest ∧
      record.receipt.isNone = row.pending ∧
      ∀ receipt, row.receipt = some receipt →
        ∃ v, ownedReceipt host id row.bindingDigest receipt = .ok v ∧ record.receipt = some v := by
  obtain ⟨_, hrequire, h⟩ := bind_eq_ok.mp h
  split_ifs at h with howner
  rw [not_not] at howner
  obtain ⟨admission, hadmission, h⟩ := bind_eq_ok.mp h
  refine ⟨hrequire, howner, ⟨admission, hadmission⟩, ?_⟩
  cases hs : row.settlement with
  | none =>
    rw [hs, Except.ok.injEq] at h
    subst h
    refine ⟨rfl, rfl, ?_, fun receipt hr ↦ ?_⟩
    · rw [AcquisitionRow.pending, hs]
      rfl
    · rw [AcquisitionRow.receipt, hs] at hr
      exact nomatch hr
  | some s =>
    rw [hs] at h
    obtain ⟨v, hv, rfl⟩ := map_eq_ok.mp h
    refine ⟨rfl, rfl, ?_, fun receipt hr ↦ ?_⟩
    · rw [AcquisitionRow.pending, hs]
      rfl
    · rw [AcquisitionRow.receipt, hs, Option.map_some, Option.some_inj] at hr
      exact ⟨v, hr ▸ hv, rfl⟩

theorem verified_of_owned {id : JsString} {row : AcquisitionRow} {owner : AcquisitionOwner}
    {record : AcquisitionRecord} (h : owned host id row owner = .ok record) : Verified host id row := by
  obtain ⟨-, rfl, -⟩ := owned_eq_ok h
  exact ⟨record, h⟩

theorem verified_iff {id : JsString} {row : AcquisitionRow} : Verified host id row ↔
    requireOwner row.owner = .ok () ∧ (∃ a, ownedAdmission host id row row.owner = .ok a) ∧
      ∀ receipt, row.receipt = some receipt →
        ∃ v, ownedReceipt host id row.bindingDigest receipt = .ok v := by
  constructor
  · rintro ⟨record, h⟩
    obtain ⟨hrequire, -, hadmission, -, -, -, hreceipt⟩ := owned_eq_ok h
    exact ⟨hrequire, hadmission, fun receipt hr ↦ (hreceipt receipt hr).imp fun _ ↦ And.left⟩
  · rintro ⟨hrequire, ⟨a, ha⟩, hreceipt⟩
    rw [Verified, owned, hrequire]
    simp only [Except.bind, ne_eq, not_true_eq_false, if_false, ha]
    cases hs : row.settlement with
    | none => exact ⟨_, rfl⟩
    | some s =>
      obtain ⟨v, hv⟩ := hreceipt s.receipt (by rw [AcquisitionRow.receipt, hs]; rfl)
      simp only [hv, Except.map]
      exact ⟨_, rfl⟩

/-- Reading a verified row fails only when the owner is not the row's. -/
theorem Verified.owned {id : JsString} {row : AcquisitionRow} (h : Verified host id row)
    (owner : AcquisitionOwner) : (∃ record, owned host id row owner = .ok record) ∨
      owned host id row owner = .error .inexactOwner ∨
      owned host id row owner = .error .notOwned := by
  by_cases hro : row.owner = owner
  · exact Or.inl (hro ▸ h)
  · rw [Server.owned, requireOwner]
    split_ifs
    · exact Or.inr (Or.inl rfl)
    · exact Or.inr (Or.inr rfl)

/-! ## Rows over time -/

/-- Same admission, and the receipt stays once it is there. -/
structure AcquisitionRow.Keeps (r r' : AcquisitionRow) : Prop where
  requestKey : r'.requestKey = r.requestKey
  owner : r'.owner = r.owner
  bindingJson : r'.bindingJson = r.bindingJson
  bindingDigest : r'.bindingDigest = r.bindingDigest
  createdAt : r'.createdAt = r.createdAt
  receipt : ∀ receipt, r.receipt = some receipt → r'.receipt = some receipt

theorem AcquisitionRow.Keeps.refl (r : AcquisitionRow) : r.Keeps r :=
  ⟨rfl, rfl, rfl, rfl, rfl, fun _ h ↦ h⟩

theorem AcquisitionRow.Keeps.trans {r r' r'' : AcquisitionRow} (h : r.Keeps r') (h' : r'.Keeps r'') :
    r.Keeps r'' :=
  ⟨h'.requestKey.trans h.requestKey, h'.owner.trans h.owner, h'.bindingJson.trans h.bindingJson,
    h'.bindingDigest.trans h.bindingDigest, h'.createdAt.trans h.createdAt,
    fun receipt hr ↦ h'.receipt receipt (h.receipt receipt hr)⟩

/-- The row with a receipt. -/
def AcquisitionRow.settle (r : AcquisitionRow) (receipt : Receipt) : AcquisitionRow :=
  { r with settlement := some ⟨receipt, none, none⟩ }

theorem AcquisitionRow.pending_iff {r : AcquisitionRow} : r.pending = true ↔ r.receipt = none := by
  rw [pending, receipt, Option.map_eq_none_iff, Option.isNone_iff_eq_none]

theorem AcquisitionRow.current_of_pending {r : AcquisitionRow} (h : r.pending = true) :
    r.current = true := by
  rw [pending, Option.isNone_iff_eq_none] at h
  rw [current, h]
  rfl

theorem AcquisitionRow.Keeps.settle {r : AcquisitionRow} (h : r.pending = true) (receipt : Receipt) :
    r.Keeps (r.settle receipt) where
  requestKey := rfl
  owner := rfl
  bindingJson := rfl
  bindingDigest := rfl
  createdAt := rfl
  receipt := fun receipt' hr ↦ by
    rw [pending_iff.mp h] at hr
    exact nomatch hr

/-- What acknowledging, superseding and a change of the delivery owner do to a row. -/
structure AcquisitionRow.Annotated (r r' : AcquisitionRow) : Prop extends r.Keeps r' where
  receipt_eq : r'.receipt = r.receipt
  current : r'.current = true → r.current = true

theorem Verified.annotated {id : JsString} {row row' : AcquisitionRow} (h : Verified host id row)
    (ha : row.Annotated row') : Verified host id row' := by
  have hadmission : ∀ owner, ownedAdmission host id row' owner = ownedAdmission host id row owner := by
    intro owner
    rw [ownedAdmission, ownedAdmission, ha.bindingJson, ha.createdAt, ha.bindingDigest, ha.requestKey]
  rw [verified_iff] at h ⊢
  rw [ha.owner, hadmission, ha.receipt_eq, ha.bindingDigest]
  exact h

/-! ## Writes -/

/-- The writes of the operations other than the fence of a retirement. -/
inductive AcquisitionWrite (host : AcquisitionHost) : AcquisitionDb G → AcquisitionDb G → Prop where
  | register {db : AcquisitionDb G} {owner : AcquisitionOwner} : owner.bound host = owner →
      db.owners.get owner = none →
      AcquisitionWrite host db { db with owners := db.owners.set owner none }
  | insert {db : AcquisitionDb G} {id : JsString} {row : AcquisitionRow} : host.asText id = id →
      db.acquisitions.get id = none → currentRow db row.requestKey = none →
      db.owners.get row.owner = some none → row.pending = true → Verified host id row →
      AcquisitionWrite host db { db with acquisitions := db.acquisitions.set id row }
  | settle {db : AcquisitionDb G} {id : JsString} {row : AcquisitionRow} {receipt : Receipt} :
      db.acquisitions.get id = some row → row.pending = true →
      Verified host id (row.settle receipt) →
      AcquisitionWrite host db
        { db with acquisitions := db.acquisitions.set id (row.settle receipt) }
  | annotate {db : AcquisitionDb G} {id : JsString} {row row' : AcquisitionRow} :
      db.acquisitions.get id = some row → row.Annotated row' →
      AcquisitionWrite host db { db with acquisitions := db.acquisitions.set id row' }
  | grants {db : AcquisitionDb G} (grants : G) : AcquisitionWrite host db { db with grants }

abbrev AcquisitionWrites (host : AcquisitionHost) : AcquisitionDb G → AcquisitionDb G → Prop :=
  Relation.ReflTransGen (AcquisitionWrite host)

/-! ### Invariants -/

structure AcquisitionInv (host : AcquisitionHost) (db : AcquisitionDb G) : Prop where
  ids : ∀ id row, db.acquisitions.get id = some row → host.asText id = id
  owners : ∀ owner, (db.owners.get owner).isSome = true → owner.bound host = owner
  verified : ∀ id row, db.acquisitions.get id = some row → Verified host id row
  unique : ∀ id id' row row', db.acquisitions.get id = some row →
    db.acquisitions.get id' = some row' → row.current = true → row'.current = true →
    row.requestKey = row'.requestKey → id = id'

/-- Pending rows have owners that are not retired, but for one owner. -/
def ActiveBut (owner : Option AcquisitionOwner) (db : AcquisitionDb G) : Prop :=
  ∀ id row, db.acquisitions.get id = some row → row.pending = true →
    db.owners.get row.owner = some none ∨ some row.owner = owner

/-- What every operation keeps. -/
structure AcquisitionFrame (db db' : AcquisitionDb G) : Prop where
  rows : ∀ id row, db.acquisitions.get id = some row →
    ∃ row', db'.acquisitions.get id = some row' ∧ row.Keeps row'
  retired : ∀ owner now, db.owners.get owner = some (some now) →
    db'.owners.get owner = some (some now)

theorem AcquisitionFrame.refl (db : AcquisitionDb G) : AcquisitionFrame db db :=
  ⟨fun _ row h ↦ ⟨row, h, .refl row⟩, fun _ _ h ↦ h⟩

theorem AcquisitionFrame.trans {db'' : AcquisitionDb G} (h : AcquisitionFrame db db')
    (h' : AcquisitionFrame db' db'') : AcquisitionFrame db db'' := by
  refine ⟨fun id row hrow ↦ ?_, fun owner now hr ↦ h'.retired owner now (h.retired owner now hr)⟩
  obtain ⟨row', hrow', hk⟩ := h.rows id row hrow
  obtain ⟨row'', hrow'', hk'⟩ := h'.rows id row' hrow'
  exact ⟨row'', hrow'', hk.trans hk'⟩

/-- The current row under a request key is found. -/
theorem currentRow_eq_none {key : JsString} : currentRow db key = none ↔
    ∀ id row, db.acquisitions.get id = some row → row.current = true → row.requestKey ≠ key := by
  rw [currentRow, List.find?_eq_none]
  constructor
  · intro h id row hrow hc heq
    have := h _ ((db.acquisitions.mem_rows).mpr hrow)
    simp [heq, hc] at this
  · rintro h ⟨id, row⟩ hmem
    have := h id row ((db.acquisitions.mem_rows).mp hmem)
    simp only [Bool.and_eq_true, decide_eq_true_eq, not_and]
    exact fun heq hc ↦ this hc heq

theorem currentRow_eq_some {key id : JsString} {row : AcquisitionRow}
    (h : currentRow db key = some (id, row)) :
    db.acquisitions.get id = some row ∧ row.requestKey = key ∧ row.current = true := by
  have hp := List.find?_some h
  rw [Bool.and_eq_true, decide_eq_true_iff] at hp
  exact ⟨(db.acquisitions.mem_rows).mp (List.mem_of_find?_eq_some h), hp⟩

/-- A row that is replaced by one it keeps. -/
theorem frame_set {id : JsString} {row row' : AcquisitionRow}
    (hrow : db.acquisitions.get id = some row) (hk : row.Keeps row') :
    AcquisitionFrame db { db with acquisitions := db.acquisitions.set id row' } := by
  refine ⟨fun id' r hr ↦ ?_, fun _ _ h ↦ h⟩
  by_cases hid : id' = id
  · subst hid
    obtain rfl : row = r := Option.some.inj (hrow.symm.trans hr)
    exact ⟨row', Table.get_set_self _ _ _, hk⟩
  · exact ⟨r, by rw [Table.get_set_of_ne _ hid, hr], .refl r⟩

theorem AcquisitionWrite.frame (h : AcquisitionWrite host db db') : AcquisitionFrame db db' := by
  cases h with
  | @register owner hb hn =>
    refine ⟨fun _ row h ↦ ⟨row, h, .refl row⟩, fun o now ho ↦ ?_⟩
    have hne : o ≠ owner := by
      rintro rfl
      rw [hn] at ho
      exact nomatch ho
    rw [Table.get_set_of_ne _ hne, ho]
  | @insert id row _ hn =>
    refine ⟨fun id' r hr ↦ ⟨r, ?_, .refl r⟩, fun _ _ h ↦ h⟩
    have hne : id' ≠ id := by
      rintro rfl
      rw [hn] at hr
      exact nomatch hr
    rw [Table.get_set_of_ne _ hne, hr]
  | settle hrow hp _ => exact frame_set hrow (.settle hp _)
  | annotate hrow ha => exact frame_set hrow ha.toKeeps
  | grants => exact ⟨fun _ row h ↦ ⟨row, h, .refl row⟩, fun _ _ h ↦ h⟩

/-- A row replaced by a verified one, current only if it was. -/
theorem inv_set (hi : AcquisitionInv host db) {id : JsString} {row row' : AcquisitionRow}
    (hrow : db.acquisitions.get id = some row) (hkey : row'.requestKey = row.requestKey)
    (hc : row'.current = true → row.current = true) (hv : Verified host id row') :
    AcquisitionInv host { db with acquisitions := db.acquisitions.set id row' } := by
  -- each row now comes from one before, under the same key and current only if that is
  have hold : ∀ i r, (db.acquisitions.set id row').get i = some r → ∃ r₀,
      db.acquisitions.get i = some r₀ ∧ r.requestKey = r₀.requestKey ∧
        (r.current = true → r₀.current = true) ∧ Verified host i r := by
    intro i r hr
    by_cases hid : i = id
    · subst hid
      rw [Table.get_set_self, Option.some_inj] at hr
      subst hr
      exact ⟨row, hrow, hkey, hc, hv⟩
    · rw [Table.get_set_of_ne _ hid] at hr
      exact ⟨r, hr, rfl, fun h ↦ h, hi.verified i r hr⟩
  refine ⟨fun i r hr ↦ ?_, hi.owners, fun i r hr ↦ ?_, fun i i' r r' hr hr' hcr hcr' hk ↦ ?_⟩
  · obtain ⟨r₀, hr₀, -⟩ := hold i r hr
    exact hi.ids i r₀ hr₀
  · exact (hold i r hr).elim fun _ h ↦ h.2.2.2
  · obtain ⟨r₀, hr₀, hk₀, hc₀, -⟩ := hold i r hr
    obtain ⟨r₁, hr₁, hk₁, hc₁, -⟩ := hold i' r' hr'
    exact hi.unique i i' r₀ r₁ hr₀ hr₁ (hc₀ hcr) (hc₁ hcr') (by rw [← hk₀, ← hk₁, hk])

theorem AcquisitionWrite.inv (hi : AcquisitionInv host db) (h : AcquisitionWrite host db db') :
    AcquisitionInv host db' := by
  cases h with
  | @register owner hb hn =>
    refine ⟨hi.ids, fun o ho ↦ ?_, hi.verified, hi.unique⟩
    by_cases hoo : o = owner
    · exact hoo ▸ hb
    · rw [Table.get_set_of_ne _ hoo] at ho
      exact hi.owners o ho
  | @insert id row hid hn hfree howner hp hv =>
    have hcases : ∀ i r, (db.acquisitions.set id row).get i = some r →
        (i = id ∧ r = row) ∨ (i ≠ id ∧ db.acquisitions.get i = some r) := by
      intro i r hr
      by_cases hi : i = id
      · subst hi
        rw [Table.get_set_self, Option.some_inj] at hr
        exact Or.inl ⟨rfl, hr.symm⟩
      · rw [Table.get_set_of_ne _ hi] at hr
        exact Or.inr ⟨hi, hr⟩
    rw [currentRow_eq_none] at hfree
    refine ⟨fun i r hr ↦ ?_, hi.owners, fun i r hr ↦ ?_, fun i i' r r' hr hr' hc hc' hk ↦ ?_⟩
    · rcases hcases i r hr with ⟨rfl, -⟩ | ⟨-, hr⟩
      · exact hid
      · exact hi.ids i r hr
    · rcases hcases i r hr with ⟨rfl, rfl⟩ | ⟨-, hr⟩
      · exact hv
      · exact hi.verified i r hr
    · rcases hcases i r hr with ⟨rfl, rfl⟩ | ⟨-, hold⟩ <;>
        rcases hcases i' r' hr' with ⟨rfl, rfl⟩ | ⟨-, hold'⟩
      · rfl
      · exact absurd hk.symm (hfree i' r' hold' hc')
      · exact absurd hk (hfree i r hold hc)
      · exact hi.unique i i' r r' hold hold' hc hc' hk
  | settle hrow hp hv => exact inv_set hi hrow rfl (fun _ ↦ AcquisitionRow.current_of_pending hp) hv
  | annotate hrow ha =>
    exact inv_set hi hrow ha.requestKey ha.current ((hi.verified _ _ hrow).annotated ha)
  | grants => exact ⟨hi.ids, hi.owners, hi.verified, hi.unique⟩

/-- A row replaced by one that is pending only if it was. -/
theorem activeBut_set {o : Option AcquisitionOwner} (ha : ActiveBut o db) {id : JsString}
    {row row' : AcquisitionRow} (hrow : db.acquisitions.get id = some row)
    (howner : row'.owner = row.owner) (hp : row'.pending = true → row.pending = true) :
    ActiveBut o { db with acquisitions := db.acquisitions.set id row' } := by
  intro i r hr hpr
  by_cases hid : i = id
  · subst hid
    rw [Table.get_set_self, Option.some_inj] at hr
    subst hr
    rw [howner]
    exact ha i row hrow (hp hpr)
  · rw [Table.get_set_of_ne _ hid] at hr
    exact ha i r hr hpr

theorem AcquisitionWrite.activeBut {o : Option AcquisitionOwner} (ha : ActiveBut o db)
    (h : AcquisitionWrite host db db') : ActiveBut o db' := by
  cases h with
  | @register owner hb hn =>
    intro i r hr hp
    refine (ha i r hr hp).imp (fun hact ↦ ?_) id
    have hne : r.owner ≠ owner := by
      rintro rfl
      rw [hn] at hact
      exact nomatch hact
    rw [Table.get_set_of_ne _ hne, hact]
  | @insert id row _ _ _ howner =>
    intro i r hr hp
    by_cases hid : i = id
    · subst hid
      rw [Table.get_set_self, Option.some_inj] at hr
      exact Or.inl (hr ▸ howner)
    · rw [Table.get_set_of_ne _ hid] at hr
      exact ha i r hr hp
  | settle hrow hp _ => exact activeBut_set ha hrow rfl fun h ↦ nomatch h
  | annotate hrow hr =>
    refine activeBut_set ha hrow hr.owner fun h ↦ ?_
    rw [AcquisitionRow.pending_iff, hr.receipt_eq] at h
    exact AcquisitionRow.pending_iff.mpr h
  | grants => exact ha

section

variable (h : AcquisitionWrites host db db')

include h

theorem writes_frame : AcquisitionFrame db db' := by
  induction h with
  | refl => exact .refl db
  | tail _ hw ih => exact ih.trans hw.frame

theorem writes_inv (hi : AcquisitionInv host db) : AcquisitionInv host db' := by
  induction h with
  | refl => exact hi
  | tail _ hw ih => exact hw.inv ih

theorem writes_activeBut {o : Option AcquisitionOwner} (ha : ActiveBut o db) : ActiveBut o db' := by
  induction h with
  | refl => exact ha
  | tail _ hw ih => exact hw.activeBut ih

end

end Vibestudio.Server

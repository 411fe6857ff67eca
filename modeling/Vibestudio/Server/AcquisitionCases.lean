import Mathlib
import Vibestudio.Server.AcquisitionSteps

/-!
# The acquisition operations as writes

One lemma for each operation of the store: when it returns, the database it leaves comes from the one
it found by the writes of `AcquisitionSteps`, and its loops end. The two batch loops settle what they select, so that the pending rows get fewer with every round.
-/

namespace Vibestudio.Server

open Js Sqlite Shared Transition

variable {host : AcquisitionHost} {G : Type} {db db' : AcquisitionDb G}

/-! ## Reads -/

theorem requireActiveOwner_eq_ok {owner : AcquisitionOwner} :
    requireActiveOwner host db owner = .ok () ↔
      requireOwner owner = .ok () ∧ db.owners.get (owner.bound host) = some none := by
  rw [requireActiveOwner]
  constructor
  · intro h
    obtain ⟨_, hrequire, h⟩ := bind_eq_ok.mp h
    refine ⟨hrequire, ?_⟩
    split at h
    · assumption
    · cases h
  · rintro ⟨hrequire, hget⟩
    rw [hrequire]
    simp only [Except.bind]
    rw [AcquisitionOwner.bound] at hget
    rw [hget]

theorem requireRecord_eq_ok {id : JsString} {owner : AcquisitionOwner} {record : AcquisitionRecord}
    (h : requireRecord host db id owner = .ok record) :
    ∃ row, db.acquisitions.get (host.asText id) = some row ∧
      owned host (host.asText id) row owner = .ok record := by
  rw [requireRecord, get] at h
  cases hrow : db.acquisitions.get (host.asText id) with
  | none =>
    rw [hrow] at h
    exact nomatch h
  | some row =>
    rw [hrow] at h
    obtain ⟨o, ho, h⟩ := bind_eq_ok.mp h
    obtain ⟨r, hr, rfl⟩ := map_eq_ok.mp ho
    exact ⟨row, rfl, hr.trans h⟩

theorem currentRecord_eq_ok {key : JsString} {owner : AcquisitionOwner}
    {o : Option AcquisitionRecord} (h : currentRecord host db key owner = .ok o) :
    (o = none ∧ currentRow db (host.asText key) = none) ∨
      ∃ record id row, o = some record ∧ currentRow db (host.asText key) = some (id, row) ∧
        owned host id row owner = .ok record := by
  rw [currentRecord] at h
  cases hrow : currentRow db (host.asText key) with
  | none =>
    rw [hrow] at h
    exact Or.inl ⟨(Except.ok.inj h).symm, rfl⟩
  | some p =>
    rw [hrow] at h
    obtain ⟨record, hr, rfl⟩ := map_eq_ok.mp h
    exact Or.inr ⟨record, p.1, p.2, rfl, rfl, hr⟩

/-! ## Settling a row -/

/-- What is fixed of a resolution before it is stored. -/
def Storable (resolution : JsData) : Prop :=
  IsJson resolution ∧ ∃ v, member (lit "value") resolution = some v ∧ jsonValueSchema v = true

/-- **Storing a resolution** settles the pending row of the record with a receipt that passes its
verification. -/
theorem storeResolution_eq_ok {record : AcquisitionRecord} {decision resolution : JsData} {now : ℕ}
    {owner : AcquisitionOwner} {row : AcquisitionRow} (hdecision : IsJson decision)
    (hresolution : Storable resolution)
    (hid : host.asText record.acquisitionId = record.acquisitionId)
    (hrow : db.acquisitions.get record.acquisitionId = some row) (hp : row.pending = true)
    (howned : owned host record.acquisitionId row owner = .ok record)
    (h : storeResolution host record decision resolution now db = .ok db') :
    ∃ receipt, Verified host record.acquisitionId (row.settle receipt) ∧
      db' = { db with
        acquisitions := db.acquisitions.set record.acquisitionId (row.settle receipt) } := by
  obtain ⟨hrequire, rfl, hadmission, -, hdigest, -⟩ := owned_eq_ok howned
  obtain ⟨decisionDigest, hdd, h⟩ := bind_eq_ok.mp h
  obtain ⟨resolutionDigest, hrd, h⟩ := bind_eq_ok.mp h
  obtain ⟨decisionJson, hdj, h⟩ := bind_eq_ok.mp h
  obtain ⟨resolutionJson, hrj, h⟩ := bind_eq_ok.mp h
  cases hstate : terminalState? (member (lit "state") resolution) with
  | none =>
    rw [hstate] at h
    exact nomatch h
  | some state =>
    rw [hstate, Except.ok.injEq] at h
    rw [hdigest] at hdd hrd
    refine ⟨⟨state, decisionJson, decisionDigest, resolutionJson, resolutionDigest, now⟩, ?_, ?_⟩
    · refine verified_iff.mpr ⟨hrequire, hadmission, fun receipt hr ↦ ?_⟩
      rw [AcquisitionRow.settle, AcquisitionRow.receipt, Option.map_some, Option.some_inj] at hr
      subst hr
      exact ownedReceipt_ok now hdecision hresolution.1
        ⟨terminalState?_eq_some.mp hstate, hresolution.2, _, hrj⟩ hdd hrd hdj hrj
    · rw [← h, updateRow, hid, Table.update, hrow]
      simp only [Option.elim_some, hp, if_true]
      rfl

/-! ## Operations on one row -/

/-- A row that is updated, if there is one. -/
theorem updateRow_eq {id : JsString} {row : AcquisitionRow} {f : AcquisitionRow → AcquisitionRow}
    (hrow : db.acquisitions.get id = some row) :
    updateRow id f db = { db with acquisitions := db.acquisitions.set id (f row) } := by
  rw [updateRow, Table.update, hrow, Option.elim_some]

theorem registerOwner_writes (owner : AcquisitionOwner) :
    AcquisitionWrites host db (registerOwner (owner.bound host) db) := by
  rw [registerOwner]
  split_ifs with h
  · exact .refl
  · refine .single (.register ?_ (Option.not_isSome_iff_eq_none.mp h))
    exact congrArg₂ AcquisitionOwner.mk (host.asText_idem _) (host.asText_idem _)

theorem admit_writes {input : AuthorityAcquisitionAdmission} {now : ℕ}
    {deliveryOwner : AcquisitionContinuation} {uuid binding : JsString} {done : AcquisitionWork G}
    (h : admitAcquisition host input now deliveryOwner uuid binding db = .ok done) :
    AcquisitionWrites host db done.db ∧ done.effects = [] := by
  have hregister : AcquisitionWrites host db (registerOwner (input.owner.bound host) db) :=
    registerOwner_writes input.owner
  rw [admitAcquisition] at h
  generalize registerOwner (input.owner.bound host) db = registered at hregister h
  obtain ⟨_, hactive, h⟩ := bind_eq_ok.mp h
  obtain ⟨-, hactive⟩ := requireActiveOwner_eq_ok.mp hactive
  obtain ⟨current, hcurrent, h⟩ := bind_eq_ok.mp h
  rcases currentRecord_eq_ok hcurrent with ⟨rfl, hfree⟩ | ⟨record, _, _, rfl, -, -⟩
  · obtain ⟨d, -, h⟩ := bind_eq_ok.mp h
    obtain ⟨inserted, hinsert, h⟩ := bind_eq_ok.mp h
    obtain ⟨record, hread, rfl⟩ := map_eq_ok.mp h
    rw [insertRow] at hinsert
    split_ifs at hinsert with hsql
    rw [Except.ok.injEq] at hinsert
    subst hinsert
    refine ⟨hregister.tail (.insert (host.asText_idem _) ?_ hfree hactive rfl ?_), rfl⟩
    · exact Option.not_isSome_iff_eq_none.mp fun hs ↦ hsql (Or.inl hs)
    · -- the row has just been read back
      obtain ⟨row, hrow, howned⟩ := requireRecord_eq_ok hread
      rw [Table.get_set_self, Option.some_inj] at hrow
      subst hrow
      exact verified_of_owned howned
  · obtain ⟨text, -, h⟩ := bind_eq_ok.mp h
    split_ifs at h
    rw [Except.ok.injEq] at h
    subst h
    exact ⟨hregister, rfl⟩

/-- What `resolve` knows before it calls `write`: a pending row, read by its owner. -/
theorem ask_eq_decide {id : JsString} {owner : AcquisitionOwner} {bindingDigest : JsString}
    {decision : JsData} {record : AcquisitionRecord}
    (h : ask host id owner bindingDigest decision db = .ok (.decide record)) :
    ∃ row, record.acquisitionId = host.asText id ∧ db.acquisitions.get (host.asText id) = some row ∧
      row.pending = true ∧ owned host (host.asText id) row owner = .ok record := by
  obtain ⟨_, -, h⟩ := bind_eq_ok.mp h
  obtain ⟨r, hr, h⟩ := bind_eq_ok.mp h
  split_ifs at h
  obtain ⟨text, -, h⟩ := bind_eq_ok.mp h
  cases hreceipt : r.receipt with
  | some receipt =>
    rw [hreceipt] at h
    obtain ⟨text', -, h⟩ := bind_eq_ok.mp h
    split_ifs at h
    exact nomatch Except.ok.inj h
  | none =>
    rw [hreceipt, Except.ok.injEq, Ask.decide.injEq] at h
    subst h
    obtain ⟨row, hrow, howned⟩ := requireRecord_eq_ok hr
    obtain ⟨-, -, -, hid, -, hp, -⟩ := owned_eq_ok howned
    exact ⟨row, hid, hrow, by rw [← hp, hreceipt]; rfl, howned⟩

theorem storable_object (resolution : JsonValue) {v : JsData}
    (h : member (lit "value") resolution.val = some v) (hv : jsonValueSchema v = true) :
    Storable resolution.val := ⟨resolution.isJson, v, h, hv⟩

/-- **A resolution that is accepted** settles its acquisition; a repeated one changes nothing. -/
theorem resolve_writes {id : JsString} {owner : AcquisitionOwner} {bindingDigest : JsString}
    {decision : JsonValue} {write : G → Written G} {now : ℕ} {done : AcquisitionWork G}
    (h : resolve host id owner bindingDigest decision.val write now db = .ok done) :
    (∃ record, ask host id owner bindingDigest decision.val db = .ok (.replay record) ∧
      done.db = db ∧ done.effects = []) ∨
    ∃ record row receipt,
      ask host id owner bindingDigest decision.val db = .ok (.decide record) ∧
      record.acquisitionId = host.asText id ∧
      db.acquisitions.get (host.asText id) = some row ∧ row.pending = true ∧
      done.db.acquisitions.get (host.asText id) = some (row.settle receipt) ∧
      AcquisitionWrites host db done.db := by
  obtain ⟨asked, hask, h⟩ := bind_eq_ok.mp h
  cases asked with
  | replay record =>
    rw [Except.ok.injEq] at h
    subst h
    exact Or.inl ⟨record, hask, rfl, rfl⟩
  | decide record =>
    obtain ⟨row, hid, hrow, hp, howned⟩ := ask_eq_decide hask
    cases hw : write db.grants with
    | throws message =>
      rw [hw] at h
      exact nomatch h
    | returns grants resolution effects =>
      rw [hw] at h
      obtain ⟨_, hrequire, h⟩ := bind_eq_ok.mp h
      obtain ⟨stored, hstore, h⟩ := bind_eq_ok.mp h
      obtain ⟨record', -, rfl⟩ := map_eq_ok.mp h
      obtain ⟨state, hresolution⟩ := requireResolution_eq_ok.mp hrequire
      obtain ⟨v, hv, hschema⟩ := hresolution.hasValue
      have hrow' : ({ db with grants } : AcquisitionDb G).acquisitions.get record.acquisitionId =
          some row := hid ▸ hrow
      obtain ⟨receipt, hverified, rfl⟩ := storeResolution_eq_ok decision.isJson
        (storable_object resolution hv hschema) (hid ▸ host.asText_idem id) hrow' hp
        (hid ▸ howned) hstore
      refine Or.inr ⟨record, row, receipt, hask, hid, hrow, hp, ?_, ?_⟩
      · rw [hid]
        exact Table.get_set_self _ _ _
      · exact (Relation.ReflTransGen.single (.grants grants)).tail (.settle hrow' hp hverified)

theorem withdraw_writes {id : JsString} {owner : AcquisitionOwner} {bindingDigest : JsString}
    {now : ℕ} {done : AcquisitionWork G} (h : withdraw host id owner bindingDigest now db = .ok done) :
    AcquisitionWrites host db done.db ∧ done.effects = [] := by
  obtain ⟨record, hread, h⟩ := bind_eq_ok.mp h
  obtain ⟨row, hrow, howned⟩ := requireRecord_eq_ok hread
  obtain ⟨-, -, -, hid, -, hp, -⟩ := owned_eq_ok howned
  split_ifs at h with hdigest hreceipt
  · rw [Except.ok.injEq] at h
    subst h
    exact ⟨.refl, rfl⟩
  · obtain ⟨_, -, h⟩ := bind_eq_ok.mp h
    obtain ⟨stored, hstore, h⟩ := bind_eq_ok.mp h
    obtain ⟨record', -, rfl⟩ := map_eq_ok.mp h
    rw [Option.not_isSome_iff_eq_none] at hreceipt
    have hp' : row.pending = true := by rw [← hp, hreceipt]; rfl
    obtain ⟨receipt, hverified, rfl⟩ := storeResolution_eq_ok (kindOnly "owner-withdrawal").isJson
      (storable_object operationEnded rfl (by decide +kernel)) (hid ▸ host.asText_idem id)
      (hid ▸ hrow) hp' (hid ▸ howned) hstore
    exact ⟨.single (.settle (hid ▸ hrow) hp' hverified), rfl⟩

/-- A change of the settlement that keeps the receipt and never makes the row current again. -/
theorem annotated_map {row : AcquisitionRow} {f : Settlement → Settlement}
    (hreceipt : ∀ s, (f s).receipt = s.receipt)
    (hsuperseded : ∀ s, (f s).supersededAt = none → s.supersededAt = none) :
    row.Annotated { row with settlement := row.settlement.map f } where
  requestKey := rfl
  owner := rfl
  bindingJson := rfl
  bindingDigest := rfl
  createdAt := rfl
  receipt := fun receipt h ↦ by
    rw [AcquisitionRow.receipt, Option.map_map, ← h, AcquisitionRow.receipt]
    exact congrArg (fun g ↦ Option.map g row.settlement) (funext hreceipt)
  receipt_eq := by
    rw [AcquisitionRow.receipt, Option.map_map, AcquisitionRow.receipt]
    exact congrArg (fun g ↦ Option.map g row.settlement) (funext hreceipt)
  current := fun h ↦ by
    rw [AcquisitionRow.current] at h ⊢
    cases hs : row.settlement with
    | none => rfl
    | some s =>
      rw [hs] at h
      exact Option.isNone_iff_eq_none.mpr (hsuperseded s (Option.isNone_iff_eq_none.mp h))

theorem acknowledge_writes {id : JsString} {owner : AcquisitionOwner} {resolutionDigest : JsString}
    {now : ℕ} {done : AcquisitionWork G}
    (h : acknowledge host id owner resolutionDigest now db = .ok done) :
    AcquisitionWrites host db done.db ∧ done.effects = [] := by
  obtain ⟨record, hread, h⟩ := bind_eq_ok.mp h
  obtain ⟨row, hrow, -⟩ := requireRecord_eq_ok hread
  split_ifs at h
  rw [Except.ok.injEq] at h
  subst h
  rw [updateRow_eq hrow]
  exact ⟨.single (.annotate hrow (annotated_map (fun _ ↦ rfl) fun _ hs ↦ hs)), rfl⟩

theorem setDeliveryOwner_writes {id : JsString} {owner : AcquisitionOwner}
    {deliveryOwner : AcquisitionContinuation} {done : AcquisitionWork G}
    (h : setDeliveryOwner host id owner deliveryOwner db = .ok done) :
    AcquisitionWrites host db done.db ∧ done.effects = [] := by
  obtain ⟨record, hread, rfl⟩ := map_eq_ok.mp h
  obtain ⟨row, hrow, -⟩ := requireRecord_eq_ok hread
  have hannotated : row.Annotated { row with deliveryOwner } :=
    ⟨⟨rfl, rfl, rfl, rfl, rfl, fun _ hr ↦ hr⟩, rfl, fun hc ↦ hc⟩
  rw [updateRow_eq hrow]
  exact ⟨.single (.annotate hrow hannotated), rfl⟩

theorem supersede_writes (hi : AcquisitionInv host db) {key : JsString} {owner : AcquisitionOwner}
    {now : ℕ} {done : AcquisitionWork G} (h : supersede host key owner now db = .ok done) :
    AcquisitionWrites host db done.db ∧ done.effects = [] := by
  obtain ⟨_, -, h⟩ := bind_eq_ok.mp h
  obtain ⟨current, hcurrent, rfl⟩ := map_eq_ok.mp h
  rcases currentRecord_eq_ok hcurrent with ⟨rfl, -⟩ | ⟨record, id, row, rfl, hrow, howned⟩
  · exact ⟨.refl, rfl⟩
  · obtain ⟨hrow, -, -⟩ := currentRow_eq_some hrow
    obtain ⟨-, -, -, hid, -⟩ := owned_eq_ok howned
    simp only
    split_ifs
    · exact ⟨.refl, rfl⟩
    · rw [hid, hi.ids id row hrow, updateRow_eq hrow]
      exact ⟨.single (.annotate hrow (annotated_map (fun _ ↦ rfl) fun _ hs ↦ nomatch hs)), rfl⟩

end Vibestudio.Server

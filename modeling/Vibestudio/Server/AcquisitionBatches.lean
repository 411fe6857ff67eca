import Mathlib
import Vibestudio.Server.AcquisitionCases

/-!
# The batch loops of the acquisition store

`resolveTarget` and `retireOwner` settle pending rows in batches until their query finds none, and
the retirements of a session or a runtime retire one owner after the other. Every round takes a row
out of the pending ones, or an owner out of the active ones, so the loops end. A retirement leaves no
pending row of its owner, which is what makes the fence safe.
-/

namespace Vibestudio.Server

open Js Sqlite Shared Transition

variable {host : AcquisitionHost} {G : Type} {db db' : AcquisitionDb G}

/-! ## The pending rows -/

/-- The ids of the pending rows. -/
def pendingIds (db : AcquisitionDb G) : Finset JsString :=
  db.acquisitions.rows.keys.toFinset.filter fun id ↦
    (db.acquisitions.get id).any AcquisitionRow.pending = true

theorem mem_pendingIds {id : JsString} : id ∈ pendingIds db ↔
    ∃ row, db.acquisitions.get id = some row ∧ row.pending = true := by
  rw [pendingIds, Finset.mem_filter, List.mem_toFinset, Option.any_eq_true]
  constructor
  · exact fun h ↦ h.2
  · rintro ⟨row, hrow, hp⟩
    refine ⟨?_, row, hrow, hp⟩
    exact List.mem_map.mpr ⟨(id, row), (db.acquisitions.mem_rows).mpr hrow, rfl⟩

theorem card_pendingIds_lt : (pendingIds db).card < db.acquisitions.rows.length + 1 := by
  refine Nat.lt_succ_of_le ((Finset.card_filter_le _ _).trans ?_)
  exact (List.toFinset_card_le _).trans (List.length_map _).le

variable {p : AcquisitionRow → Bool}

theorem mem_pendingBatch {r : JsString × AcquisitionRow} (h : r ∈ pendingBatch p db) :
    db.acquisitions.get r.1 = some r.2 ∧ p r.2 = true ∧ r.2.pending = true := by
  have hmem := List.mem_filter.mp ((List.mem_insertionSort _).mp (List.mem_of_mem_take h))
  rw [Bool.and_eq_true] at hmem
  exact ⟨(db.acquisitions.mem_rows).mp hmem.1, hmem.2⟩

theorem nodup_pendingBatch : ((pendingBatch p db).map Prod.fst).Nodup := by
  have hrows : ((db.acquisitions.rows.filter fun r ↦ p r.2 && r.2.pending).map Prod.fst).Nodup :=
    db.acquisitions.primaryKey.sublist (List.filter_sublist.map Prod.fst)
  have hsorted := ((List.perm_insertionSort deliveryOrder _).map Prod.fst).nodup_iff.mpr hrows
  exact hsorted.sublist ((List.take_sublist _ _).map Prod.fst)

/-- An empty batch means that no row meets the condition. -/
theorem pendingBatch_eq_nil (h : pendingBatch p db = []) {id : JsString} {row : AcquisitionRow}
    (hrow : db.acquisitions.get id = some row) (hp : p row = true) : row.pending = false := by
  rw [pendingBatch, List.take_eq_nil_iff] at h
  have hempty := h.resolve_left (by decide)
  have hfilter := (List.perm_insertionSort deliveryOrder
    (db.acquisitions.rows.filter fun r ↦ p r.2 && r.2.pending))
  rw [hempty, List.nil_perm, List.filter_eq_nil_iff] at hfilter
  simpa [hp] using hfilter _ ((db.acquisitions.mem_rows).mpr hrow)

/-! ## One batch -/

/-- A batch of pending rows is being settled; `rows` are still to come. -/
structure Settling (host : AcquisitionHost) (db₀ : AcquisitionDb G)
    (batch rows : List (JsString × AcquisitionRow)) (db : AcquisitionDb G) : Prop where
  writes : AcquisitionWrites host db₀ db
  owners : db.owners = db₀.owners
  found : ∀ r ∈ rows, db.acquisitions.get r.1 = some r.2 ∧ r.2.pending = true
  nodup : (rows.map Prod.fst).Nodup
  pending : pendingIds db ⊆ pendingIds db₀
  settled : ∀ r ∈ batch, r ∈ rows ∨ r.1 ∉ pendingIds db

theorem Settling.start (db : AcquisitionDb G) (p : AcquisitionRow → Bool) :
    Settling host db (pendingBatch p db) (pendingBatch p db) db where
  writes := .refl
  owners := rfl
  found := fun _ h ↦ ⟨(mem_pendingBatch h).1, (mem_pendingBatch h).2.2⟩
  nodup := nodup_pendingBatch
  pending := subset_rfl
  settled := fun _ h ↦ Or.inl h

/-- Settling the next row. -/
theorem Settling.next {db₀ : AcquisitionDb G} {batch rows : List (JsString × AcquisitionRow)}
    {r : JsString × AcquisitionRow} (h : Settling host db₀ batch (r :: rows) db) {receipt : Receipt}
    (hv : Verified host r.1 (r.2.settle receipt)) : Settling host db₀ batch rows
      { db with acquisitions := db.acquisitions.set r.1 (r.2.settle receipt) } := by
  obtain ⟨hrow, hp⟩ := h.found r List.mem_cons_self
  have hnodup := h.nodup
  rw [List.map_cons, List.nodup_cons] at hnodup
  have hne : ∀ r' ∈ rows, r'.1 ≠ r.1 := fun r' hr' heq ↦
    hnodup.1 (heq ▸ List.mem_map_of_mem hr')
  have hsub : pendingIds { db with acquisitions := db.acquisitions.set r.1 (r.2.settle receipt) } ⊆
      pendingIds db := by
    intro id hid
    obtain ⟨row, hget, hpend⟩ := mem_pendingIds.mp hid
    by_cases hidr : id = r.1
    · exact mem_pendingIds.mpr ⟨r.2, hidr ▸ hrow, hp⟩
    · rw [Table.get_set_of_ne _ hidr] at hget
      exact mem_pendingIds.mpr ⟨row, hget, hpend⟩
  refine ⟨h.writes.tail (.settle hrow hp hv), h.owners, fun r' hr' ↦ ?_, hnodup.2,
    hsub.trans h.pending, fun r' hr' ↦ ?_⟩
  · obtain ⟨hrow', hp'⟩ := h.found r' (List.mem_cons_of_mem _ hr')
    exact ⟨by rw [Table.get_set_of_ne _ (hne r' hr'), hrow'], hp'⟩
  · rcases h.settled r' hr' with hmem | hout
    · rcases List.mem_cons.mp hmem with rfl | hmem
      · refine Or.inr fun hid ↦ ?_
        obtain ⟨row, hget, hpend⟩ := mem_pendingIds.mp hid
        rw [Table.get_set_self, Option.some_inj] at hget
        subst hget
        exact nomatch hpend
      · exact Or.inl hmem
    · exact Or.inr fun hid ↦ hout (hsub hid)

/-- A batch that was not empty leaves fewer pending rows. -/
theorem Settling.card_lt {db₀ : AcquisitionDb G} (hne : pendingBatch p db₀ ≠ [])
    (h : Settling host db₀ (pendingBatch p db₀) [] db) :
    (pendingIds db).card < (pendingIds db₀).card := by
  obtain ⟨r, hr⟩ := List.exists_mem_of_ne_nil _ hne
  obtain ⟨hrow, -, hp⟩ := mem_pendingBatch hr
  refine Finset.card_lt_card (Finset.ssubset_iff_of_subset h.pending |>.mpr ⟨r.1, ?_, ?_⟩)
  · exact mem_pendingIds.mpr ⟨r.2, hrow, hp⟩
  · exact (h.settled r hr).resolve_left List.not_mem_nil

/-- What a loop over batches keeps. -/
structure Batches (host : AcquisitionHost) (db₀ db : AcquisitionDb G) : Prop where
  writes : AcquisitionWrites host db₀ db
  owners : db.owners = db₀.owners

theorem Batches.refl (db : AcquisitionDb G) : Batches host db db := ⟨.refl, rfl⟩

theorem Batches.settling {db₀ db₁ : AcquisitionDb G} {batch rows : List (JsString × AcquisitionRow)}
    (h : Batches host db₀ db) (hs : Settling host db batch rows db₁) : Batches host db₀ db₁ :=
  ⟨h.writes.trans hs.writes, hs.owners.trans h.owners⟩

/-! ## `resolveTarget` -/

/-- One row of `resolveTarget`. -/
theorem resolveBatch_row {db₀ : AcquisitionDb G} (hi : AcquisitionInv host db₀)
    {batch rows : List (JsString × AcquisitionRow)} {r : JsString × AcquisitionRow}
    {decision resolution : JsData} {now : ℕ} (hdecision : IsJson decision)
    (hresolution : Storable resolution) (h : Settling host db₀ batch (r :: rows) db)
    (hok : ((owned host r.1 r.2 r.2.owner).bind fun record ↦
      (requireActiveOwner host db r.2.owner).bind fun () ↦
        storeResolution host record decision resolution now db) = .ok db') :
    Settling host db₀ batch rows db' := by
  obtain ⟨record, howned, hok⟩ := bind_eq_ok.mp hok
  obtain ⟨_, -, hok⟩ := bind_eq_ok.mp hok
  obtain ⟨hrow, hp⟩ := h.found r List.mem_cons_self
  obtain ⟨-, -, -, hid, -⟩ := owned_eq_ok howned
  obtain ⟨receipt, hv, rfl⟩ := storeResolution_eq_ok hdecision hresolution
    (hid ▸ (writes_inv h.writes hi).ids _ _ hrow) (hid ▸ hrow) hp (hid ▸ howned) hok
  rw [hid] at hv ⊢
  exact h.next hv

theorem resolveTarget_spec (hi : AcquisitionInv host db) (requestId : JsString)
    {decision resolution : JsData} (now : ℕ) (hdecision : IsJson decision)
    (hresolution : Storable resolution) :
    resolveTarget host requestId decision resolution now db ≠ none ∧
      ∀ done, resolveTarget host requestId decision resolution now db = some (.ok done) →
        AcquisitionWrites host db done.db ∧ done.effects = [] := by
  have hround : ∀ s : AcquisitionDb G, Batches host db s →
      resolveBatch host requestId decision resolution now s ≠ none ∧
      ∀ s', resolveBatch host requestId decision resolution now s = some (.ok (some s')) →
        Batches host db s' ∧ (pendingIds s').card < (pendingIds s).card := by
    intro s hs
    rw [resolveBatch]
    split
    · exact ⟨(by rintro ⟨⟩), fun s' h ↦ (by cases h)⟩
    · rename_i hne
      obtain ⟨hends, hkeeps⟩ := each_spec (I := Settling host s (pendingBatch _ s))
        (f := fun r db ↦ some <| (owned host r.1 r.2 r.2.owner).bind fun record ↦
          (requireActiveOwner host db r.2.owner).bind fun _ ↦
            storeResolution host record decision resolution now db)
        (fun r rows t ht ↦ ⟨(by rintro ⟨⟩), fun t' h ↦ resolveBatch_row (writes_inv hs.writes hi) hdecision
          hresolution ht (Option.some.inj h)⟩)
        (Settling.start s fun r ↦ host.joins r.bindingJson (host.asText requestId))
      refine ⟨Run.map_ne_none hends, fun s' h ↦ ?_⟩
      obtain ⟨t, ht, heq⟩ := Run.map_eq_ok.mp h
      obtain rfl := Option.some.inj heq
      have hdone := hkeeps _ ht
      exact ⟨hs.settling hdone, hdone.card_lt hne⟩
  obtain ⟨hends, hkeeps⟩ := loop_spec (I := Batches host db) (m := fun s ↦ (pendingIds s).card)
    hround (Batches.refl db) card_pendingIds_lt
  refine ⟨Run.map_ne_none hends, fun done h ↦ ?_⟩
  obtain ⟨s, hs, rfl⟩ := Run.map_eq_ok.mp h
  exact ⟨(hkeeps s hs).1.writes, rfl⟩

/-! ## `retireOwner` -/

/-- The records of a batch, each read from its row. -/
abbrev ReadAll (host : AcquisitionHost) (owner : AcquisitionOwner)
    (rows : List (JsString × AcquisitionRow)) (records : List AcquisitionRecord) : Prop :=
  List.Forall₂ (fun r record ↦ owned host r.1 r.2 owner = .ok record) rows records

variable (host) in
theorem readAll_each (owner : AcquisitionOwner) (rows : List (JsString × AcquisitionRow)) :
    each (fun (id, row) records ↦ some <|
        (owned host id row owner).map fun record ↦ records ++ [record]) rows [] ≠ none ∧
      ∀ records, each (fun (id, row) records ↦ some <|
        (owned host id row owner).map fun record ↦ records ++ [record]) rows [] = some (.ok records) →
        ReadAll host owner rows records := by
  have h := each_spec (f := fun (r : JsString × AcquisitionRow) records ↦ some <|
      (owned host r.1 r.2 owner).map fun record ↦ records ++ [record])
    (I := fun rest records ↦ ∃ read, rows = read ++ rest ∧ ReadAll host owner read records)
    (fun r rest records hI ↦ ⟨nofun, fun records' h ↦ ?_⟩) (l := rows) (s := [])
    ⟨[], rfl, .nil⟩
  · refine ⟨h.1, fun records hr ↦ ?_⟩
    obtain ⟨read, hrows, hread⟩ := h.2 records hr
    rwa [hrows, List.append_nil]
  · obtain ⟨read, rfl, hread⟩ := hI
    obtain ⟨record, howned, rfl⟩ := map_eq_ok.mp (Option.some.inj h)
    exact ⟨read ++ [r], by rw [List.append_assoc, List.singleton_append],
      List.rel_append hread (.cons howned .nil)⟩

theorem retireBatch_spec (hi : AcquisitionInv host db) (owner : AcquisitionOwner) (now : ℕ) :
    retireBatch host owner now db ≠ none ∧
      (∀ db', retireBatch host owner now db = some (.ok (some db')) →
        Batches host db db' ∧ (pendingIds db').card < (pendingIds db).card) ∧
      (retireBatch host owner now db = some (.ok none) → ∀ id row,
        db.acquisitions.get id = some row → row.owner = owner.bound host → row.pending = false) := by
  rw [retireBatch]
  split
  · rename_i hnil
    refine ⟨(by rintro ⟨⟩), fun db' h ↦ (by cases h), fun _ id row hrow ho ↦ ?_⟩
    exact pendingBatch_eq_nil hnil hrow (decide_eq_true ho)
  · rename_i hne
    obtain ⟨hends, hread⟩ := readAll_each host owner
      (pendingBatch (fun r ↦ decide (r.owner = owner.bound host)) db)
    -- the records to come are those of the rows to come
    have hstore := fun records hrecords ↦ each_spec
      (f := fun record db ↦ some <| storeResolution host record (kindOnly "owner-retired").val
        ownerRetired.val now db)
      (I := fun records t ↦ ∃ rows, ReadAll host owner rows records ∧
        Settling host db (pendingBatch (fun r ↦ decide (r.owner = owner.bound host)) db) rows t)
      (fun record records t hI ↦ ⟨(by rintro ⟨⟩), fun t' h ↦ by
        obtain ⟨rows, hread, hs⟩ := hI
        obtain _ | @⟨r, _, rows, _, howned, hread⟩ := hread
        obtain ⟨hrow, hp⟩ := hs.found r List.mem_cons_self
        obtain ⟨-, -, -, hid, -⟩ := owned_eq_ok howned
        obtain ⟨receipt, hv, rfl⟩ := storeResolution_eq_ok (kindOnly "owner-retired").isJson
          (storable_object ownerRetired rfl (by decide +kernel))
          (hid ▸ (writes_inv hs.writes hi).ids _ _ hrow) (hid ▸ hrow) hp (hid ▸ howned)
          (Option.some.inj h)
        rw [hid] at hv ⊢
        exact ⟨rows, hread, hs.next hv⟩⟩)
      (l := records) (s := db) ⟨_, hread records hrecords, Settling.start db _⟩
    refine ⟨Run.bind_ne_none hends fun records hr ↦ Run.map_ne_none (hstore records hr).1,
      fun db' h ↦ ?_, fun h ↦ ?_⟩
    · obtain ⟨records, hr, h⟩ := Run.bind_eq_ok.mp h
      obtain ⟨t, ht, heq⟩ := Run.map_eq_ok.mp h
      obtain rfl := Option.some.inj heq
      obtain ⟨rows, hnil, hs⟩ := (hstore records hr).2 _ ht
      obtain rfl : rows = [] := List.forall₂_nil_right_iff.mp hnil
      exact ⟨(Batches.refl db).settling hs, hs.card_lt hne⟩
    · obtain ⟨records, hr, h⟩ := Run.bind_eq_ok.mp h
      obtain ⟨t, ht, heq⟩ := Run.map_eq_ok.mp h
      cases heq

/-! ## Retirements -/

/-- What every operation leaves. -/
structure Kept (host : AcquisitionHost) (db db' : AcquisitionDb G) : Prop where
  inv : AcquisitionInv host db'
  active : ActiveBut none db'
  frame : AcquisitionFrame db db'

theorem Kept.refl (hi : AcquisitionInv host db) (ha : ActiveBut none db) : Kept host db db :=
  ⟨hi, ha, .refl db⟩

theorem Kept.trans {db'' : AcquisitionDb G} (h : Kept host db db') (h' : Kept host db' db'') :
    Kept host db db'' := ⟨h'.inv, h'.active, h.frame.trans h'.frame⟩

theorem AcquisitionWrites.kept (hi : AcquisitionInv host db) (ha : ActiveBut none db)
    (h : AcquisitionWrites host db db') : Kept host db db' :=
  ⟨writes_inv h hi, writes_activeBut h ha, writes_frame h⟩

theorem AcquisitionOwner.bound_bound (owner : AcquisitionOwner) :
    (owner.bound host).bound host = owner.bound host :=
  congrArg₂ AcquisitionOwner.mk (host.asText_idem _) (host.asText_idem _)

theorem get_markRetired (owner o : AcquisitionOwner) (now : ℕ) :
    (markRetired owner now db).owners.get o =
      if o = owner then some (some ((db.owners.get owner).join.getD now)) else db.owners.get o :=
  Table.get_set _ _ _ _

/-- The fence alone: everything but its owner is as it was. -/
theorem markRetired_spec (hi : AcquisitionInv host db) (ha : ActiveBut none db)
    (owner : AcquisitionOwner) (now : ℕ) :
    AcquisitionInv host (markRetired (owner.bound host) now db) ∧
      ActiveBut (some (owner.bound host)) (markRetired (owner.bound host) now db) ∧
      AcquisitionFrame db (markRetired (owner.bound host) now db) := by
  refine ⟨⟨hi.ids, fun o ho ↦ ?_, hi.verified, hi.unique⟩, fun id row hrow hp ↦ ?_,
    ⟨fun _ row h ↦ ⟨row, h, .refl row⟩, fun o t ho ↦ ?_⟩⟩
  · rw [get_markRetired] at ho
    split_ifs at ho with heq
    · rw [heq, AcquisitionOwner.bound_bound]
    · exact hi.owners o ho
  · rw [get_markRetired]
    split_ifs with heq
    · exact Or.inr (congrArg some heq)
    · exact Or.inl ((ha id row hrow hp).resolve_right (by rintro ⟨⟩))
  · rw [get_markRetired]
    split_ifs with heq
    · rw [← heq, ho]
      rfl
    · exact ho

/-- **Retiring an owner** fences it and leaves it nothing pending. -/
theorem retireOwner_spec (hi : AcquisitionInv host db) (ha : ActiveBut none db)
    (owner : AcquisitionOwner) (now : ℕ) :
    retireOwner host owner now db ≠ none ∧
      ∀ db', retireOwner host owner now db = some (.ok db') → Kept host db db' ∧
        db'.owners = (markRetired (owner.bound host) now db).owners := by
  obtain ⟨hi₁, ha₁, hf₁⟩ := markRetired_spec hi ha owner now
  obtain ⟨hends, hkeeps⟩ := loop_spec (f := retireBatch host owner now)
    (I := Batches host (markRetired (owner.bound host) now db)) (m := fun s ↦ (pendingIds s).card)
    (fun s hs ↦ by
      obtain ⟨hends, hround, -⟩ := retireBatch_spec
        (writes_inv hs.writes hi₁) owner now
      refine ⟨hends, fun s' h ↦ ?_⟩
      obtain ⟨hb, hlt⟩ := hround s' h
      exact ⟨⟨hs.writes.trans hb.writes, hb.owners.trans hs.owners⟩, hlt⟩)
    (Batches.refl _) card_pendingIds_lt
  refine ⟨hends, fun db' h ↦ ?_⟩
  obtain ⟨hb, hlast⟩ := hkeeps db' h
  have hi' := writes_inv hb.writes hi₁
  have hnone := (retireBatch_spec hi' owner now).2.2 hlast
  refine ⟨⟨hi', fun id row hrow hp ↦ ?_, hf₁.trans (writes_frame hb.writes)⟩, hb.owners⟩
  refine Or.inl ((writes_activeBut hb.writes ha₁ id row hrow hp).resolve_right fun ho ↦ ?_)
  rw [hnone id row hrow (Option.some.inj ho)] at hp
  exact nomatch hp

theorem retireSession_spec (hi : AcquisitionInv host db) (ha : ActiveBut none db)
    (sessionId : JsString) (now : ℕ) :
    retireSession host sessionId now db ≠ none ∧
      ∀ done, retireSession host sessionId now db = some (.ok done) →
        Kept host db done.db ∧ done.effects = [] := by
  obtain ⟨hends, hkeeps⟩ := each_spec (I := fun _ s ↦ Kept host db s)
    (f := fun ownerRuntimeId db ↦ retireOwner host ⟨ownerRuntimeId, sessionId⟩ now db)
    (fun ownerRuntimeId _ s hs ↦ by
      obtain ⟨hends, hretired⟩ := retireOwner_spec hs.inv hs.active ⟨ownerRuntimeId, sessionId⟩ now
      exact ⟨hends, fun s' h ↦ hs.trans (hretired s' h).1⟩)
    (l := sessionOwners (host.asText sessionId) db) (Kept.refl hi ha)
  refine ⟨Run.map_ne_none hends, fun done h ↦ ?_⟩
  obtain ⟨s, hs, rfl⟩ := Run.map_eq_ok.mp h
  exact ⟨hkeeps s hs, rfl⟩

/-! ### A runtime -/

/-- The owners that are registered and not retired. -/
def activeOwners (db : AcquisitionDb G) : Finset AcquisitionOwner :=
  db.owners.rows.keys.toFinset.filter fun o ↦ db.owners.get o = some none

theorem mem_activeOwners {o : AcquisitionOwner} :
    o ∈ activeOwners db ↔ db.owners.get o = some none := by
  rw [activeOwners, Finset.mem_filter, List.mem_toFinset, and_iff_right_iff_imp]
  exact fun h ↦ List.mem_map.mpr ⟨(o, none), (db.owners.mem_rows).mpr h, rfl⟩

theorem card_activeOwners_lt : (activeOwners db).card < db.owners.rows.length + 1 := by
  refine Nat.lt_succ_of_le ((Finset.card_filter_le _ _).trans ?_)
  exact (List.toFinset_card_le _).trans (List.length_map _).le

theorem mem_runtimeSessions {ownerRuntimeId sessionId : JsString} {after : Option JsString}
    (h : sessionId ∈ runtimeSessions ownerRuntimeId after db) :
    db.owners.get ⟨ownerRuntimeId, sessionId⟩ = some none := by
  have hsorted := (List.mem_insertionSort _).mp (List.mem_of_mem_take h)
  obtain ⟨⟨o, retiredAt⟩, hrow, rfl⟩ := List.mem_map.mp hsorted
  obtain ⟨hmem, hcond⟩ := List.mem_filter.mp hrow
  simp only [Bool.and_eq_true, decide_eq_true_eq, Option.isNone_iff_eq_none] at hcond
  obtain ⟨⟨rfl, rfl⟩, -⟩ := hcond
  exact (db.owners.mem_rows).mp hmem

/-- A page of a runtime is being retired; `sessions` are still to come. -/
structure Retiring (host : AcquisitionHost) (db₀ : AcquisitionDb G) (ownerRuntimeId : JsString)
    (page sessions : List JsString) (db : AcquisitionDb G) : Prop where
  kept : Kept host db₀ db
  active : activeOwners db ⊆ activeOwners db₀
  retired : ∀ s ∈ page, s ∈ sessions ∨ (⟨ownerRuntimeId, s⟩ : AcquisitionOwner) ∉ activeOwners db

/-- One page: what was active and listed is not active any more. -/
theorem retirePage_spec (ownerRuntimeId : JsString) (now : ℕ) (after : Option JsString)
    (hi : AcquisitionInv host db) (ha : ActiveBut none db) :
    retirePage host ownerRuntimeId now (db, after) ≠ none ∧
      ∀ s, retirePage host ownerRuntimeId now (db, after) = some (.ok (some s)) →
        Kept host db s.1 ∧ (activeOwners s.1).card < (activeOwners db).card := by
  rw [retirePage]
  split
  · exact ⟨(by rintro ⟨⟩), fun s h ↦ (by cases h)⟩
  rename_i hne
  have hpage : ∀ s ∈ runtimeSessions (host.asText ownerRuntimeId) after db,
      (⟨ownerRuntimeId, s⟩ : AcquisitionOwner).bound host = ⟨host.asText ownerRuntimeId, s⟩ := by
    intro s hs
    have hget := mem_runtimeSessions hs
    have hbound := hi.owners _ (by rw [hget]; rfl)
    exact congrArg (AcquisitionOwner.mk _) (congrArg AcquisitionOwner.sessionId hbound)
  obtain ⟨hends, hkeeps⟩ := each_spec
    (f := fun sessionId db ↦ retireOwner host ⟨ownerRuntimeId, sessionId⟩ now db)
    (I := fun sessions s ↦
      (∀ x ∈ sessions, x ∈ runtimeSessions (host.asText ownerRuntimeId) after db) ∧
      Retiring host db (host.asText ownerRuntimeId)
        (runtimeSessions (host.asText ownerRuntimeId) after db) sessions s)
    (fun sessionId sessions s hs ↦ by
      obtain ⟨hsub, hs⟩ := hs
      obtain ⟨hends, hretired⟩ :=
        retireOwner_spec hs.kept.inv hs.kept.active ⟨ownerRuntimeId, sessionId⟩ now
      refine ⟨hends, fun s' h ↦ ⟨fun x hx ↦ hsub x (List.mem_cons_of_mem _ hx), ?_⟩⟩
      obtain ⟨hkept, howners⟩ := hretired s' h
      rw [hpage sessionId (hsub sessionId List.mem_cons_self)] at howners
      have hget : ∀ o, s'.owners.get o = _ := fun o ↦
        (congrArg (Table.get · o) howners).trans (get_markRetired _ o now)
      have hactive : ∀ o ∈ activeOwners s',
          o ≠ ⟨host.asText ownerRuntimeId, sessionId⟩ ∧ o ∈ activeOwners s := by
        intro o ho
        rw [mem_activeOwners, hget] at ho
        split_ifs at ho with heq
        · cases Option.some.inj ho
        · exact ⟨heq, mem_activeOwners.mpr ho⟩
      refine ⟨hs.kept.trans hkept, fun o ho ↦ hs.active (hactive o ho).2, fun x hx ↦ ?_⟩
      rcases hs.retired x hx with hmem | hout
      · rcases List.mem_cons.mp hmem with rfl | hmem
        · exact Or.inr fun ho ↦ (hactive _ ho).1 rfl
        · exact Or.inl hmem
      · exact Or.inr fun ho ↦ hout (hactive _ ho).2)
    (l := runtimeSessions (host.asText ownerRuntimeId) after db) (s := db)
    ⟨fun _ h ↦ h, Kept.refl hi ha, subset_rfl, fun _ h ↦ Or.inl h⟩
  refine ⟨Run.map_ne_none hends, fun s h ↦ ?_⟩
  obtain ⟨t, ht, heq⟩ := Run.map_eq_ok.mp h
  obtain rfl := Option.some.inj heq
  obtain ⟨-, hs⟩ := hkeeps t ht
  obtain ⟨x, hx⟩ := List.exists_mem_of_ne_nil _ hne
  refine ⟨hs.kept, Finset.card_lt_card ((Finset.ssubset_iff_of_subset hs.active).mpr
    ⟨⟨host.asText ownerRuntimeId, x⟩, ?_, ?_⟩)⟩
  · exact mem_activeOwners.mpr (mem_runtimeSessions hx)
  · exact (hs.retired x hx).resolve_left List.not_mem_nil

theorem retireRuntime_spec (hi : AcquisitionInv host db) (ha : ActiveBut none db)
    (ownerRuntimeId : JsString) (now : ℕ) :
    retireRuntime host ownerRuntimeId now db ≠ none ∧
      ∀ done, retireRuntime host ownerRuntimeId now db = some (.ok done) →
        Kept host db done.db ∧ done.effects = [] := by
  obtain ⟨hends, hkeeps⟩ := loop_spec (f := retirePage host ownerRuntimeId now)
    (I := fun s ↦ Kept host db s.1) (m := fun s ↦ (activeOwners s.1).card)
    (fun s hs ↦ by
      obtain ⟨hends, hpage⟩ := retirePage_spec ownerRuntimeId now s.2
        hs.inv hs.active
      exact ⟨hends, fun s' h ↦ ⟨hs.trans (hpage s' h).1, (hpage s' h).2⟩⟩)
    (s := (db, none)) (Kept.refl hi ha) card_activeOwners_lt
  refine ⟨Run.map_ne_none hends, fun done h ↦ ?_⟩
  obtain ⟨s, hs, rfl⟩ := Run.map_eq_ok.mp h
  exact ⟨(hkeeps s hs).1, rfl⟩

/-! ## Every operation -/

/-- **Every operation ends**, keeps the invariants and everything settled, and only `resolve` has
effects. -/
theorem body_spec (op : AcquisitionOp G) (hi : AcquisitionInv host db) (ha : ActiveBut none db) :
    op.body host db ≠ none ∧ ∀ done, op.body host db = some (.ok done) →
      Kept host db done.db ∧
        ((∀ id owner d decision write now, op ≠ .resolve id owner d decision write now) →
          done.effects = []) := by
  have hwrites : ∀ {done : AcquisitionWork G}, AcquisitionWrites host db done.db ∧ done.effects = [] →
      Kept host db done.db ∧
        ((∀ id owner d decision write now, op ≠ .resolve id owner d decision write now) →
          done.effects = []) := fun h ↦ ⟨AcquisitionWrites.kept hi ha h.1, fun _ ↦ h.2⟩
  rw [AcquisitionOp.body]
  cases hchecked : op.checked host with
  | error e => exact ⟨nofun, fun done h ↦ nomatch h⟩
  | ok run =>
    cases op with
    | admitAcquisition input now deliveryOwner uuid =>
      obtain ⟨_, -, hchecked⟩ := bind_eq_ok.mp hchecked
      obtain ⟨_, -, hchecked⟩ := bind_eq_ok.mp hchecked
      obtain ⟨_, -, hchecked⟩ := bind_eq_ok.mp hchecked
      obtain ⟨binding, -, rfl⟩ := map_eq_ok.mp hchecked
      exact ⟨nofun, fun done h ↦ hwrites (admit_writes (Option.some.inj h))⟩
    | resolve id owner d decision write now =>
      obtain rfl := Except.ok.inj hchecked
      refine ⟨nofun, fun done h ↦ ⟨?_, fun hne ↦ absurd rfl (hne id owner d decision write now)⟩⟩
      rcases resolve_writes (Option.some.inj h) with ⟨_, -, hdb, -⟩ | ⟨_, _, _, -, -, -, -, -, hw⟩
      · rw [hdb]
        exact Kept.refl hi ha
      · exact AcquisitionWrites.kept hi ha hw
    | withdraw id owner d now =>
      obtain rfl := Except.ok.inj hchecked
      exact ⟨nofun, fun done h ↦ hwrites (withdraw_writes (Option.some.inj h))⟩
    | acknowledge id owner d now =>
      obtain rfl := Except.ok.inj hchecked
      exact ⟨nofun, fun done h ↦ hwrites (acknowledge_writes (Option.some.inj h))⟩
    | setDeliveryOwner id owner d =>
      obtain rfl := Except.ok.inj hchecked
      exact ⟨nofun, fun done h ↦ hwrites (setDeliveryOwner_writes (Option.some.inj h))⟩
    | supersede key owner now =>
      obtain rfl := Except.ok.inj hchecked
      exact ⟨nofun, fun done h ↦ hwrites (supersede_writes hi (Option.some.inj h))⟩
    | resolveTarget requestId decision resolution now =>
      obtain ⟨_, hrequire, hchecked⟩ := bind_eq_ok.mp hchecked
      obtain ⟨_, -, rfl⟩ := map_eq_ok.mp hchecked
      obtain ⟨state, hresolution⟩ := requireResolution_eq_ok.mp hrequire
      obtain ⟨v, hv, hschema⟩ := hresolution.hasValue
      obtain ⟨hends, hdone⟩ := resolveTarget_spec hi requestId now
        decision.isJson (storable_object resolution hv hschema)
      exact ⟨hends, fun done h ↦ hwrites (hdone done h)⟩
    | retire owner now =>
      obtain ⟨_, -, rfl⟩ := map_eq_ok.mp hchecked
      obtain ⟨hends, hdone⟩ := retireOwner_spec hi ha owner now
      refine ⟨Run.map_ne_none hends, fun done h ↦ ?_⟩
      obtain ⟨s, hs, rfl⟩ := Run.map_eq_ok.mp h
      exact ⟨(hdone s hs).1, fun _ ↦ rfl⟩
    | retireSession sessionId now =>
      obtain ⟨_, -, rfl⟩ := map_eq_ok.mp hchecked
      obtain ⟨hends, hdone⟩ := retireSession_spec hi ha sessionId now
      exact ⟨hends, fun done h ↦ ⟨(hdone done h).1, fun _ ↦ (hdone done h).2⟩⟩
    | retireRuntime ownerRuntimeId now =>
      obtain ⟨_, -, rfl⟩ := map_eq_ok.mp hchecked
      obtain ⟨hends, hdone⟩ := retireRuntime_spec hi ha ownerRuntimeId now
      exact ⟨hends, fun done h ↦ ⟨(hdone done h).1, fun _ ↦ (hdone done h).2⟩⟩

end Vibestudio.Server

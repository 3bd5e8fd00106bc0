import OpenConditions.Storage.WriteRecord

set_option relaxedAutoImplicit false
set_option autoImplicit false

/-!
# What the statements of a write do

One lemma for each statement the writers share: what a row, a child row or a revision row is
after it.

## Main results

* `storedVerdict_eq_store`, `storedVerdict_eq_restore`, `storedVerdict_holdsOut` — when a peer's
  record is written, and when it is not.
* `storeRecords_eq_ok`, `insertRevisions_eq_ok`, `tombstoneRecords_eq_ok` — the tables after each.
* `exists_get_upsertRows`, `get_upsertRows_singleton` — the row of a record that was stored.
* `get_endedRows` — the row of a record that was ended.
-/

namespace OpenConditions.Storage

/-! ## Weighing a stored record -/

section Verdict

variable {I J : Type} {now : Instant} {existing : Option (ClassRow I J)} {sealed : SealedRecord I J}

/-- A row whose record a delivery restores: it ended at the delivered revision, `withdrawn`, or
`expired` where the delivered lifetime is another one and not over. -/
structure Restorable (now : Instant) (row : ClassRow I J) (sealed : SealedRecord I J) : Prop where
  instanceId : row.instanceId = sealed.head.provenance.instanceId
  revision : row.revision = sealed.revision
  live : sealed.tombstone = none
  reason : row.tombstoneReason = some "withdrawn" ∨
    row.tombstoneReason = some "expired" ∧
      sealed.statement.expiresAt.map Iso8601.instant ≠ row.record.expiryOf ∧
        ∀ e, sealed.statement.expiresAt = some e → now < e.instant

/-- A row that keeps what it holds from a delivered record: another instance wrote it, it was ended
by a decision, or it is no older. -/
def HoldsOut (row : ClassRow I J) (sealed : SealedRecord I J) : Prop :=
  row.instanceId ≠ sealed.head.provenance.instanceId ∨
    (∃ reason ∈ decidedTombstoneReasons, row.tombstoneReason = some reason) ∨
      sealed.revision ≤ row.revision

/-- A record that is neither stored nor restored meets a row that holds out. -/
theorem storedVerdict_holdsOut (hstore : storedVerdict now existing sealed ≠ .store)
    (hrestore : storedVerdict now existing sealed ≠ .restore) :
    ∃ row, existing = some row ∧ HoldsOut row sealed := by
  cases existing with
  | none => exact absurd rfl hstore
  | some row =>
    refine ⟨row, rfl, ?_⟩
    unfold storedVerdict at hstore hrestore
    dsimp only at hstore hrestore
    by_cases hinstance : row.instanceId ≠ sealed.head.provenance.instanceId
    · exact Or.inl hinstance
    · rw [if_neg hinstance] at hstore hrestore
      by_cases hdecided : (row.tombstoneReason.any fun reason =>
          decide (reason ∈ decidedTombstoneReasons)) = true
      · obtain ⟨reason, hreason, hmem⟩ := (Option.any_eq_true _ _).mp hdecided
        exact Or.inr (Or.inl ⟨reason, of_decide_eq_true hmem, hreason⟩)
      · rw [if_neg hdecided] at hstore hrestore
        by_cases hlt : row.revision < sealed.revision
        · rw [if_pos hlt] at hstore
          exact absurd rfl hstore
        · exact Or.inr (Or.inr (not_lt.mp hlt))

/-- A record is stored when it is newer than the row of its id, which its own instance wrote and no
decision ended. -/
theorem storedVerdict_eq_store (h : storedVerdict now existing sealed = .store) :
    ∀ row, existing = some row →
      row.instanceId = sealed.head.provenance.instanceId ∧
        (∀ reason ∈ decidedTombstoneReasons, row.tombstoneReason ≠ some reason) ∧
          row.revision < sealed.revision := by
  rintro row rfl
  unfold storedVerdict at h
  dsimp only at h
  split_ifs at h with hinstance hdecided hlt
  rw [ne_eq, not_not] at hinstance
  refine ⟨hinstance, fun reason hmem hreason => hdecided ?_, hlt⟩
  rw [hreason, Option.any_some]
  exact decide_eq_true hmem

/-- A row that can be restored was not ended by a decision. -/
theorem Restorable.not_decided {row : ClassRow I J} (h : Restorable now row sealed) :
    ∀ reason ∈ decidedTombstoneReasons, row.tombstoneReason ≠ some reason := by
  intro reason hmem hreason
  rcases h.reason with hwithdrawn | ⟨hexpired, -⟩
  · rw [hreason, Option.some_inj] at hwithdrawn
    rw [hwithdrawn] at hmem
    exact absurd hmem (by decide)
  · rw [hreason, Option.some_inj] at hexpired
    rw [hexpired] at hmem
    exact absurd hmem (by decide)

/-- A record is restored when the row of its id can be. -/
theorem storedVerdict_eq_restore (h : storedVerdict now existing sealed = .restore) :
    ∃ row, existing = some row ∧ Restorable now row sealed := by
  cases existing with
  | none => cases h
  | some row =>
    refine ⟨row, rfl, ?_⟩
    unfold storedVerdict at h
    dsimp only at h
    split_ifs at h with hinstance _ _ hsame _ hexpired hwithdrawn
    all_goals rw [ne_eq, not_not] at hinstance
    · obtain ⟨hmoved, hreason, hlive, hover⟩ := hexpired
      refine ⟨hinstance, hsame, Option.isNone_iff_eq_none.mp hlive, Or.inr ⟨hreason, hmoved, ?_⟩⟩
      intro e he
      rw [he] at hover
      simpa using hover
    · obtain ⟨hreason, hlive⟩ := hwithdrawn
      exact ⟨hinstance, hsame, Option.isNone_iff_eq_none.mp hlive, Or.inl hreason⟩

end Verdict

variable {I J : Type} [DecidableEq I]

/-! ## Storing -/

/-- The ids of a write whose statements name no row twice are distinct within each batch. -/
theorem storeRecords_eq_ok {registry : Registry I J} {now : Instant} {db db' : Db I J}
    {cls : RevisionedClass} {records : List (SealedRecord I J)} :
    storeRecords registry now db cls records = .ok db' ↔
      distinctRows cls (records.map fun r => r.head.id) = true ∧
      db' = { db with
        rows := Function.update db.rows cls (upsertRows now (db.rows cls) records)
        children :=
          (db.children.filter fun c => !c.isOf cls (records.map fun r => r.head.id)) ++
            records.flatMap (childRowsOf registry)
        bindingQueue :=
          if cls = .situation then
            enqueueBindings db.bindingQueue (records.map fun r => (r.head.id, r.revision))
          else db.bindingQueue } := by
  unfold storeRecords
  by_cases h : distinctRows cls (records.map fun r => r.head.id) = true
  · simp only [h, if_true, Except.ok.injEq, true_and]
    exact eq_comm
  · simp [h]

/-- Storing leaves the rows of other ids as they are. -/
theorem get_upsertRows_of_not_mem {now : Instant} {table : OrderedMap I (ClassRow I J)}
    {records : List (SealedRecord I J)} {id : I} (h : id ∉ records.map fun r => r.head.id) :
    (upsertRows now table records).get id = table.get id :=
  OrderedMap.get_foldl_set_of_not_mem h table

/-- Storing leaves, at the id of a record, the row of a record of that id. -/
theorem exists_get_upsertRows (now : Instant) (table : OrderedMap I (ClassRow I J))
    {records : List (SealedRecord I J)} {id : I} (h : id ∈ records.map fun r => r.head.id) :
    ∃ row, (upsertRows now table records).get id = some row ∧
      ∃ r ∈ records, r.head.id = id ∧ row.toRowColumns = rowOf r := by
  unfold upsertRows
  refine OrderedMap.get_foldl_set_of_mem
    (P := fun row => ∃ r ∈ records, r.head.id = id ∧ row.toRowColumns = rowOf r) h table ?_
  intro t r hr hid
  exact ⟨r, hr, hid, rfl⟩

/-- The row of the one record that was stored. -/
theorem get_upsertRows_singleton (now : Instant) (table : OrderedMap I (ClassRow I J))
    (record : SealedRecord I J) :
    (upsertRows now table [record]).get record.head.id =
      some (upsertRow now (table.get record.head.id) record) := by
  simp [upsertRows]

/-! ## Revision rows -/

/-- Revision rows are inserted when none of them stands already. -/
theorem insertRevisions_eq_ok {db db' : Db I J} {cls : RevisionedClass}
    {rows : List (RevisionRow I J)} :
    insertRevisions db cls rows = .ok db' ↔
      ((db.revisions cls ++ rows).map fun r => (r.id, r.revision)).Nodup ∧
      db' = { db with
        revisions := Function.update db.revisions cls (db.revisions cls ++ rows)
        inserted := Function.update db.inserted cls
          (db.inserted cls ++ rows.map fun r => (r.id, r.revision)) } := by
  unfold insertRevisions
  by_cases h : ((db.revisions cls ++ rows).map fun r => (r.id, r.revision)).Nodup
  · simp only [h, if_true, Except.ok.injEq, true_and]
    exact eq_comm
  · simp only [h, if_false, false_and, reduceCtorEq]

/-! ## Ending -/

/-- The rows of the ids that are held. -/
def heldRows (table : OrderedMap I (ClassRow I J)) (ids : List I) : List (I × ClassRow I J) :=
  ids.filterMap fun id => (table.get id).map fun row => (id, row)

/-- The class table after the held ids of a list are ended. -/
def endedRows (ctx : TombstoneContext) (reason : String) (table : OrderedMap I (ClassRow I J))
    (ids : List I) : OrderedMap I (ClassRow I J) :=
  (heldRows table ids).foldl (fun t h => t.set h.1 (h.2.ended ctx reason)) table

/-- A held row of the list is the row of its id. -/
theorem mem_heldRows {table : OrderedMap I (ClassRow I J)} {ids : List I} {id : I}
    {row : ClassRow I J} : (id, row) ∈ heldRows table ids ↔ id ∈ ids ∧ table.get id = some row := by
  simp only [heldRows, List.mem_filterMap, Option.map_eq_some_iff, Prod.mk.injEq]
  constructor
  · rintro ⟨_, hmem, _, hget, rfl, rfl⟩
    exact ⟨hmem, hget⟩
  · rintro ⟨hmem, hget⟩
    exact ⟨id, hmem, row, hget, rfl, rfl⟩

/-- The ids of the held rows of distinct ids are distinct. -/
theorem nodup_heldRows {table : OrderedMap I (ClassRow I J)} {ids : List I} (h : ids.Nodup) :
    ((heldRows table ids).map Prod.fst).Nodup := by
  have hsub : ((heldRows table ids).map Prod.fst).Sublist ids := by
    unfold heldRows
    induction ids with
    | nil => exact List.Sublist.refl _
    | cons id rest ih =>
      rw [List.nodup_cons] at h
      cases hget : table.get id with
      | none =>
        rw [List.filterMap_cons, hget]
        exact (ih h.2).cons id
      | some row =>
        rw [List.filterMap_cons, hget]
        exact (ih h.2).cons_cons id
  exact h.sublist hsub

/-- Ending records ends the rows of the listed ids and leaves the others as they are. -/
theorem get_endedRows (ctx : TombstoneContext) (reason : String)
    (table : OrderedMap I (ClassRow I J)) (ids : List I) (id : I) :
    (endedRows ctx reason table ids).get id =
      if id ∈ ids then (table.get id).map (ClassRow.ended ctx reason) else table.get id := by
  unfold endedRows
  by_cases hheld : id ∈ (heldRows table ids).map Prod.fst
  · obtain ⟨⟨x, row⟩, hmem, hx⟩ := List.mem_map.mp hheld
    change x = id at hx
    subst hx
    obtain ⟨hid, hget⟩ := Iff.mp mem_heldRows hmem
    have hsame : ∀ t : OrderedMap I (ClassRow I J), ∀ h ∈ heldRows table ids, h.1 = x →
        h.2.ended ctx reason = row.ended ctx reason := by
      rintro - ⟨y, other⟩ hmem' hy
      change y = x at hy
      subst hy
      have hget' := (Iff.mp mem_heldRows hmem').2
      rw [hget, Option.some_inj] at hget'
      rw [hget']
    obtain ⟨w, hw, hw'⟩ := OrderedMap.get_foldl_set_of_mem (k := Prod.fst)
      (v := fun _ h => h.2.ended ctx reason) (P := fun w => w = row.ended ctx reason) hheld table
      hsame
    rw [hw, hw', if_pos hid, hget, Option.map_some]
  · rw [OrderedMap.get_foldl_set_of_not_mem hheld]
    by_cases hid : id ∈ ids
    · have hnone : table.get id = none := by
        cases hget : table.get id with
        | none => rfl
        | some row => exact absurd (List.mem_map_of_mem (Iff.mpr mem_heldRows ⟨hid, hget⟩)) hheld
      rw [if_pos hid, hnone, Option.map_none]
    · rw [if_neg hid]

/-- The tables after records are ended, their revision rows apart. -/
def endedDb (db : Db I J) (cls : RevisionedClass) (ids : List I) (reason : String)
    (ctx : TombstoneContext) : Db I J :=
  { db with
    rows := Function.update db.rows cls (endedRows ctx reason (db.rows cls) ids)
    children := db.children.filter (keepsChild cls ids reason)
    bindingQueue :=
      if cls = .situation then
        enqueueBindings db.bindingQueue
          ((heldRows (db.rows cls) ids).map fun h => (h.1, endRevision ctx h.2.record))
      else db.bindingQueue }

/-- The revision rows of the records that are ended. -/
def endedRevisions (registry : Registry I J) (db : Db I J) (cls : RevisionedClass) (ids : List I)
    (reason : String) (ctx : TombstoneContext) : List (RevisionRow I J) :=
  (heldRows (db.rows cls) ids).filterMap fun h => endedRevision registry ctx reason h.2.record

/-- Ending records: an erasure drops their revision rows, any other reason inserts theirs. -/
theorem tombstoneRecords_eq_ok {registry : Registry I J} {db db' : Db I J} {cls : RevisionedClass}
    {ids : List I} {reason : String} {ctx : TombstoneContext}
    (h : tombstoneRecords registry db cls ids reason ctx = .ok db') :
    (reason = erasureReason ∧ db' = { endedDb db cls ids reason ctx with
        revisions := Function.update db.revisions cls
          ((db.revisions cls).filter fun r => decide (r.id ∉ ids)) }) ∨
      (reason ≠ erasureReason ∧
        insertRevisions (endedDb db cls ids reason ctx) cls
          (endedRevisions registry db cls ids reason ctx) = .ok db') := by
  unfold tombstoneRecords at h
  dsimp only at h
  split at h
  · cases h
  · split at h
    · rename_i herase
      exact Or.inl ⟨herase, (Except.ok.inj h).symm⟩
    · rename_i herase
      exact Or.inr ⟨herase, h⟩

end OpenConditions.Storage

import OpenConditions.Storage.WriteFacts

set_option relaxedAutoImplicit false
set_option autoImplicit false

/-!
# How a write advances the tables

The ledger of revisions is kept by an invariant of the tables: every pair of an id and a revision
that was ever inserted is covered by a stored row at that revision or a later one.  A write of a
class advances the tables when it keeps this, touches rows of its own only, and lowers no stored
revision.  Each statement of a write advances them under the condition its caller has to meet.

## Main definitions

* `LedgerInv` — the invariant.
* `Advances` — a write of one class that keeps it.

## Main results

* `storeRecords_advances`, `refreshExpiries_advances`, `tombstoneRecords_advances` — the
  statements.
* `storeRevisions_advances` — records stored together with their revision rows.
-/

namespace OpenConditions.Storage

variable {I J : Type} [DecidableEq I]

/-! ## The invariant -/

/-- The record a row holds under an id is of that id and of the row's revision. -/
def ClassRow.states (row : ClassRow I J) (id : I) : Prop :=
  row.record.head.id = id ∧ row.record.revision = row.revision

/-- The tables keep their ledger: a row states its id and its revision, a stored row covers every
inserted pair, and no pair was inserted twice. -/
structure LedgerInv (db : Db I J) : Prop where
  stated : ∀ cls id row, (db.rows cls).get id = some row → row.states id
  covered : ∀ cls id revision, (id, revision) ∈ db.inserted cls →
    ∃ row, (db.rows cls).get id = some row ∧ revision ≤ row.revision
  nodup : ∀ cls, (db.inserted cls).Nodup

/-- The empty tables keep their ledger. -/
theorem ledgerInv_empty : LedgerInv (.empty I J) where
  stated cls id row h := by
    rw [Db.empty, OrderedMap.get_empty] at h
    cases h
  covered cls id revision h := absurd h List.not_mem_nil
  nodup cls := List.nodup_nil

/-- A write of a class that keeps the ledger, changes no row but those of the ids it owns, and
lowers no revision. -/
structure Advances (cls : RevisionedClass) (own : I → Prop) (db db' : Db I J) : Prop where
  inv : LedgerInv db'
  others : ∀ c, c ≠ cls → db'.rows c = db.rows c
  frame : ∀ id, ¬own id → (db'.rows cls).get id = (db.rows cls).get id
  grows : ∀ id row, (db.rows cls).get id = some row →
    ∃ row', (db'.rows cls).get id = some row' ∧ row.revision ≤ row'.revision

section Advance

variable {cls : RevisionedClass} {own own' : I → Prop} {db db' db'' : Db I J}

/-- Writing nothing advances the tables. -/
theorem Advances.refl (hinv : LedgerInv db) : Advances cls own db db :=
  ⟨hinv, fun _ _ => rfl, fun _ _ => rfl, fun _ row h => ⟨row, h, le_refl _⟩⟩

/-- Two writes that advance the tables, one after the other, do. -/
theorem Advances.trans (h : Advances cls own db db') (h' : Advances cls own db' db'') :
    Advances cls own db db'' where
  inv := h'.inv
  others c hc := (h'.others c hc).trans (h.others c hc)
  frame id hid := (h'.frame id hid).trans (h.frame id hid)
  grows id row hrow := by
    obtain ⟨row', hrow', hle⟩ := h.grows id row hrow
    obtain ⟨row'', hrow'', hle'⟩ := h'.grows id row' hrow'
    exact ⟨row'', hrow'', hle.trans hle'⟩

/-- A write that owns fewer ids advances the tables for a caller that owns more. -/
theorem Advances.mono (hown : ∀ id, own id → own' id) (h : Advances cls own db db') :
    Advances cls own' db db' :=
  ⟨h.inv, h.others, fun id hid => h.frame id fun ho => hid (hown id ho), h.grows⟩

/-- Replacing the rows of a class advances the tables when no row falls behind and none but the
owned ones changes. -/
theorem LedgerInv.advances_rows (hinv : LedgerInv db) {table : OrderedMap I (ClassRow I J)}
    (hrows : db'.rows = Function.update db.rows cls table) (hinserted : db'.inserted = db.inserted)
    (hframe : ∀ id, ¬own id → table.get id = (db.rows cls).get id)
    (hgrows : ∀ id row, (db.rows cls).get id = some row →
      ∃ row', table.get id = some row' ∧ row.revision ≤ row'.revision)
    (hstated : ∀ id row, table.get id = some row → row.states id) :
    Advances cls own db db' := by
  have hsame : db'.rows cls = table := by rw [hrows, Function.update_self]
  have hothers : ∀ c, c ≠ cls → db'.rows c = db.rows c := by
    intro c hc
    rw [hrows, Function.update_of_ne hc]
  refine ⟨⟨?_, ?_, ?_⟩, hothers, ?_, ?_⟩
  · intro c id row hrow
    by_cases hc : c = cls
    · subst hc
      rw [hsame] at hrow
      exact hstated id row hrow
    · rw [hothers c hc] at hrow
      exact hinv.stated c id row hrow
  · intro c id revision hmem
    rw [hinserted] at hmem
    obtain ⟨row, hrow, hle⟩ := hinv.covered c id revision hmem
    by_cases hc : c = cls
    · subst hc
      obtain ⟨row', hrow', hle'⟩ := hgrows id row hrow
      rw [hsame]
      exact ⟨row', hrow', hle.trans hle'⟩
    · rw [hothers c hc]
      exact ⟨row, hrow, hle⟩
  · intro c
    rw [hinserted]
    exact hinv.nodup c
  · rw [hsame]
    exact hframe
  · rw [hsame]
    exact hgrows

end Advance

/-! ## The statements -/

section Statements

variable {registry : Registry I J} {now : Instant} {db db' : Db I J} {cls : RevisionedClass}

/-- Storing records advances the tables when each of them is stored at the revision its id comes
to, and no stored row of the id is ahead of that. -/
theorem storeRecords_advances {records : List (SealedRecord I J)} {f : I → ℕ}
    (hinv : LedgerInv db) (h : storeRecords registry now db cls records = .ok db')
    (hnext : ∀ r ∈ records, r.revision = f r.head.id)
    (hge : ∀ r ∈ records, ∀ row, (db.rows cls).get r.head.id = some row →
      row.revision ≤ f r.head.id) :
    Advances cls (fun id => id ∈ records.map fun r => r.head.id) db db' := by
  obtain ⟨-, rfl⟩ := storeRecords_eq_ok.mp h
  refine hinv.advances_rows rfl rfl (fun id hid => get_upsertRows_of_not_mem hid) ?_ ?_
  · intro id row hrow
    by_cases hid : id ∈ records.map fun r => r.head.id
    · obtain ⟨row', hrow', r, hr, rfl, hcols⟩ :=
        exists_get_upsertRows now (db.rows cls) hid
      refine ⟨row', hrow', ?_⟩
      rw [hcols]
      change row.revision ≤ r.revision
      rw [hnext r hr]
      exact hge r hr row hrow
    · exact ⟨row, by rw [get_upsertRows_of_not_mem hid, hrow], le_refl _⟩
  · intro id row hrow
    by_cases hid : id ∈ records.map fun r => r.head.id
    · obtain ⟨row', hrow', r, hr, rfl, hcols⟩ :=
        exists_get_upsertRows now (db.rows cls) hid
      rw [hrow', Option.some_inj] at hrow
      subst hrow
      rw [ClassRow.states, hcols]
      exact ⟨rfl, rfl⟩
    · rw [get_upsertRows_of_not_mem hid] at hrow
      exact hinv.stated cls id row hrow

/-- A record that was stored is held at the revision its id comes to. -/
theorem exists_row_of_storeRecords {records : List (SealedRecord I J)} {f : I → ℕ}
    (h : storeRecords registry now db cls records = .ok db')
    (hnext : ∀ r ∈ records, r.revision = f r.head.id) {r : SealedRecord I J}
    (hr : r ∈ records) :
    ∃ row, (db'.rows cls).get r.head.id = some row ∧ row.revision = r.revision := by
  obtain ⟨-, rfl⟩ := storeRecords_eq_ok.mp h
  have hid : r.head.id ∈ records.map fun r => r.head.id := List.mem_map.mpr ⟨r, hr, rfl⟩
  obtain ⟨row, hrow, r', hr', hsame, hcols⟩ :=
    exists_get_upsertRows now (db.rows cls) hid
  refine ⟨row, by simpa only [Function.update_self] using hrow, ?_⟩
  rw [hcols]
  change r'.revision = r.revision
  rw [hnext r' hr', hnext r hr, hsame]

/-- Inserting revision rows advances the tables when each is later than every revision inserted
for its id, and its record is stored at that revision. -/
theorem insertRevisions_advances {own : I → Prop} {rows : List (RevisionRow I J)}
    (hinv : LedgerInv db) (h : insertRevisions db cls rows = .ok db')
    (hfresh : ∀ row ∈ rows, ∀ revision, (row.id, revision) ∈ db.inserted cls →
      revision < row.revision)
    (hheld : ∀ row ∈ rows, ∃ held, (db.rows cls).get row.id = some held ∧
      row.revision ≤ held.revision) :
    Advances cls own db db' := by
  obtain ⟨hnodup, rfl⟩ := insertRevisions_eq_ok.mp h
  refine ⟨⟨hinv.stated, ?_, ?_⟩, fun _ _ => rfl, fun _ _ => rfl,
    fun _ row hrow => ⟨row, hrow, le_refl _⟩⟩
  · intro c id revision hmem
    by_cases hc : c = cls
    · subst hc
      simp only [Function.update_self, List.mem_append, List.mem_map, Prod.mk.injEq] at hmem
      rcases hmem with hold | ⟨row, hrow, rfl, rfl⟩
      · exact hinv.covered c id revision hold
      · exact hheld row hrow
    · simp only [Function.update_of_ne hc] at hmem
      exact hinv.covered c id revision hmem
  · intro c
    by_cases hc : c = cls
    · subst hc
      simp only [Function.update_self]
      rw [List.map_append] at hnodup
      refine (hinv.nodup c).append (List.Nodup.of_append_right hnodup) ?_
      intro pair hold hnew
      obtain ⟨row, hrow, rfl⟩ := List.mem_map.mp hnew
      exact absurd (hfresh row hrow _ hold) (lt_irrefl _)
    · simp only [Function.update_of_ne hc]
      exact hinv.nodup c

/-- Records stored together with revision rows of theirs advance the tables, when each is stored
past the revision that stands under its id. -/
theorem storeRevisions_advances {db₁ : Db I J} {records : List (SealedRecord I J)}
    {rows : List (RevisionRow I J)} {f : I → ℕ} (hinv : LedgerInv db)
    (hstore : storeRecords registry now db cls records = .ok db₁)
    (hinsert : insertRevisions db₁ cls rows = .ok db')
    (hnext : ∀ r ∈ records, r.revision = f r.head.id)
    (hlt : ∀ r ∈ records, ∀ row, (db.rows cls).get r.head.id = some row →
      row.revision < f r.head.id)
    (hrows : ∀ row ∈ rows, ∃ r ∈ records, row.id = r.head.id ∧ row.revision = r.revision) :
    Advances cls (fun id => id ∈ records.map fun r => r.head.id) db db' := by
  have hstored := storeRecords_advances hinv hstore hnext fun r hr row hrow =>
    le_of_lt (hlt r hr row hrow)
  have hinserted : db₁.inserted = db.inserted := by
    obtain ⟨-, rfl⟩ := storeRecords_eq_ok.mp hstore
    rfl
  refine hstored.trans (insertRevisions_advances hstored.inv hinsert ?_ ?_)
  · intro row hrow revision hmem
    obtain ⟨r, hr, hid, hrevision⟩ := hrows row hrow
    rw [hinserted, hid] at hmem
    obtain ⟨held, hheld, hle⟩ := hinv.covered cls r.head.id revision hmem
    rw [hrevision, hnext r hr]
    exact lt_of_le_of_lt hle (hlt r hr held hheld)
  · intro row hrow
    obtain ⟨r, hr, hid, hrevision⟩ := hrows row hrow
    obtain ⟨held, hheld, heq⟩ := exists_row_of_storeRecords hstore hnext hr
    rw [hid, hrevision]
    exact ⟨held, hheld, heq.ge⟩

/-- Moving expiries leaves the rows of other ids as they are. -/
theorem get_refreshExpiries_of_not_mem {moved : List (I × Option Iso8601)} {id : I}
    (h : id ∉ moved.map Prod.fst) :
    ((refreshExpiries db cls moved).rows cls).get id = (db.rows cls).get id := by
  simp only [refreshExpiries, Function.update_self]
  generalize db.rows cls = table
  induction moved generalizing table with
  | nil => rfl
  | cons m rest ih =>
    rw [List.map_cons, List.mem_cons, not_or] at h
    rw [List.foldl_cons, ih h.2]
    split
    · exact OrderedMap.get_set_of_ne table _ h.1
    · rfl

/-- Moving expiries leaves what a row holds beside its expiry as it is. -/
theorem map_refreshExpiries {α : Type} {f : ClassRow I J → α}
    (hf : ∀ row expiresAt, f (row.withExpiry expiresAt) = f row) (moved : List (I × Option Iso8601))
    (id : I) :
    (((refreshExpiries db cls moved).rows cls).get id).map f = ((db.rows cls).get id).map f := by
  simp only [refreshExpiries, Function.update_self]
  generalize db.rows cls = table
  induction moved generalizing table with
  | nil => rfl
  | cons m rest ih =>
    rw [List.foldl_cons, ih]
    cases hget : table.get m.1 with
    | none => rfl
    | some row =>
      by_cases hid : id = m.1
      · subst hid
        rw [OrderedMap.get_set_self, hget, Option.map_some, Option.map_some, hf]
      · rw [OrderedMap.get_set_of_ne table _ hid]

/-- Moving expiries leaves the revision and the record's id of every row as they are. -/
theorem states_refreshExpiries (moved : List (I × Option Iso8601)) (id : I) :
    (((refreshExpiries db cls moved).rows cls).get id).map
        (fun row => (row.revision, row.record.revision, row.record.head.id)) =
      ((db.rows cls).get id).map
        fun row => (row.revision, row.record.revision, row.record.head.id) :=
  map_refreshExpiries (fun _ _ => rfl) moved id

/-- Moving expiries advances the tables. -/
theorem refreshExpiries_advances (hinv : LedgerInv db) (moved : List (I × Option Iso8601)) :
    Advances cls (fun id => id ∈ moved.map Prod.fst) db (refreshExpiries db cls moved) := by
  have hkey := fun id => @states_refreshExpiries I J _ db cls moved id
  have hself : (refreshExpiries db cls moved).rows =
      Function.update db.rows cls ((refreshExpiries db cls moved).rows cls) := by
    simp only [refreshExpiries, Function.update_self]
  refine hinv.advances_rows hself rfl (fun id hid => get_refreshExpiries_of_not_mem hid) ?_ ?_
  · intro id row hrow
    have h := hkey id
    rw [hrow, Option.map_some, Option.map_eq_some_iff] at h
    obtain ⟨row', hrow', hkeys⟩ := h
    simp only [Prod.mk.injEq] at hkeys
    exact ⟨row', hrow', hkeys.1.ge⟩
  · intro id row' hrow'
    have h := (hkey id).symm
    rw [hrow', Option.map_some, Option.map_eq_some_iff] at h
    obtain ⟨row, hrow, hkeys⟩ := h
    simp only [Prod.mk.injEq] at hkeys
    rw [ClassRow.states, ← hkeys.1, ← hkeys.2.1, ← hkeys.2.2]
    exact hinv.stated cls id row hrow

omit [DecidableEq I] in
/-- A record is not ended below its revision, when its owner does not. -/
theorem le_endRevision {ctx : TombstoneContext} {prev : StoredRecord I J}
    (howner : ctx.byOwner = true → ∀ revision, ctx.ownerRevision = some revision →
      prev.revision ≤ revision) : prev.revision ≤ endRevision ctx prev := by
  unfold endRevision
  split
  · rename_i revision hby hrevision
    exact howner hby revision hrevision
  · omega

omit [DecidableEq I] in
/-- A record that is ended keeps its id. -/
theorem ended_id (ctx : TombstoneContext) (reason : String) (prev : StoredRecord I J) :
    (ended ctx reason prev).head.id = prev.head.id := by
  by_cases h : reason = erasureReason
  · simp only [ended, if_pos h]
    rfl
  · simp only [ended, if_neg h]

omit [DecidableEq I] in
/-- The revision row of a record that is ended names its id, the revision it ends at, and only
stands when that is another one. -/
theorem endedRevision_eq_some {ctx : TombstoneContext} {reason : String} {prev : StoredRecord I J}
    {row : RevisionRow I J} (h : endedRevision registry ctx reason prev = some row) :
    row.id = prev.head.id ∧ row.revision = endRevision ctx prev ∧
      endRevision ctx prev ≠ prev.revision := by
  unfold endedRevision at h
  dsimp only at h
  split_ifs at h with hif
  cases h
  exact ⟨ended_id ctx reason prev, rfl, hif.1⟩

/-- Ending records advances the tables when no owner ends one below its stored revision.

**Proof sketch.** The rows of the listed ids end at no lower revision.  A revision row is inserted
for those that end at another one, so at a later one than any inserted before. -/
theorem tombstoneRecords_advances {ids : List I} {reason : String} {ctx : TombstoneContext}
    (hinv : LedgerInv db) (h : tombstoneRecords registry db cls ids reason ctx = .ok db')
    (howner : ctx.byOwner = true → ∀ revision, ctx.ownerRevision = some revision →
      ∀ id ∈ ids, ∀ row, (db.rows cls).get id = some row → row.revision ≤ revision) :
    Advances cls (fun id => id ∈ ids) db db' := by
  have hend : ∀ id ∈ ids, ∀ row, (db.rows cls).get id = some row →
      row.revision ≤ endRevision ctx row.record := by
    intro id hid row hrow
    have hsame := (hinv.stated cls id row hrow).2
    rw [← hsame]
    refine le_endRevision fun hby revision hrevision => ?_
    rw [hsame]
    exact howner hby revision hrevision id hid row hrow
  have hended : ∀ {next : Db I J},
      next.rows = Function.update db.rows cls (endedRows ctx reason (db.rows cls) ids) →
      next.inserted = db.inserted → Advances cls (fun id => id ∈ ids) db next := by
    intro next hrows hinserted
    refine hinv.advances_rows hrows hinserted ?_ ?_ ?_
    · intro id hid
      rw [get_endedRows, if_neg hid]
    · intro id row hrow
      rw [get_endedRows, hrow]
      split_ifs with hid
      · exact ⟨row.ended ctx reason, rfl, hend id hid row hrow⟩
      · exact ⟨row, rfl, le_refl _⟩
    · intro id row hrow
      rw [get_endedRows] at hrow
      split_ifs at hrow with hid
      · obtain ⟨prev, hprev, rfl⟩ := Option.map_eq_some_iff.mp hrow
        exact ⟨(ended_id ctx reason prev.record).trans (hinv.stated cls id prev hprev).1, rfl⟩
      · exact hinv.stated cls id row hrow
  rcases tombstoneRecords_eq_ok h with ⟨-, rfl⟩ | ⟨-, hinsert⟩
  · exact hended rfl rfl
  · have hadvance : Advances cls (fun id => id ∈ ids) db (endedDb db cls ids reason ctx) :=
      hended rfl rfl
    have hrow : ∀ row ∈ endedRevisions registry db cls ids reason ctx,
        ∃ held, row.id ∈ ids ∧ (db.rows cls).get row.id = some held ∧
          row.revision = endRevision ctx held.record ∧ held.revision < row.revision := by
      intro row hrow
      obtain ⟨⟨id, held⟩, hmem, hrevision⟩ := List.mem_filterMap.mp hrow
      obtain ⟨hid, hget⟩ := mem_heldRows.mp hmem
      obtain ⟨hrid, hat, hne⟩ := endedRevision_eq_some hrevision
      obtain ⟨hheld, hsame⟩ := hinv.stated cls id held hget
      have hle := hend id hid held hget
      rw [hrid, hheld]
      refine ⟨held, hid, hget, hat, ?_⟩
      change endRevision ctx held.record ≠ held.record.revision at hne
      change row.revision = endRevision ctx held.record at hat
      omega
    refine hadvance.trans (insertRevisions_advances hadvance.inv hinsert ?_ ?_)
    · intro row hmem revision hold
      obtain ⟨held, -, hget, -, hlt⟩ := hrow row hmem
      obtain ⟨held', hget', hle⟩ := hinv.covered cls row.id revision hold
      rw [hget, Option.some_inj] at hget'
      rw [← hget'] at hle
      exact lt_of_le_of_lt hle hlt
    · intro row hmem
      obtain ⟨held, hid, hget, hat, -⟩ := hrow row hmem
      refine ⟨held.ended ctx reason, ?_, hat.le⟩
      simp only [endedDb, Function.update_self]
      rw [get_endedRows, if_pos hid, hget, Option.map_some]

end Statements

end OpenConditions.Storage

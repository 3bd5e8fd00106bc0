import OpenConditions.Storage.WriteFacts

set_option relaxedAutoImplicit false
set_option autoImplicit false

/-!
# What an erasure leaves of a record

Two records that were the same record of the same source, but said different things, are stored
and erased.  The erasure replaces the `record` column, drops the geometry, the child rows and the
revision history, and leaves every other promoted column as the record stated it.  So what remains
is the same for both exactly when those columns are.

## Main definitions

* `residue` — what the tables hold of a record.
* `SameColumns` — the columns an erasure leaves as the record stated them.

## Main results

* `ended_erasure_eq_iff` — two rows are the same once erased exactly when those columns are.
* `residue_erased_eq_iff` — the same of all that the tables hold of two stored records.
-/

namespace OpenConditions.Storage

variable {I J : Type}

/-! ## What remains -/

/-- What the tables hold of a record: its row, its child rows and its revision rows. -/
structure Residue (I J : Type) where
  row : Option (ClassRow I J)
  children : List (ChildRow I J)
  revisions : List (RevisionRow I J)
  deriving DecidableEq

/-- What the tables hold of the record of an id. -/
def residue [DecidableEq I] (db : Db I J) (cls : RevisionedClass) (id : I) : Residue I J where
  row := (db.rows cls).get id
  children := db.children.filter fun c => c.isOf cls [id]
  revisions := (db.revisions cls).filter fun r => decide (r.id = id)

/-- What a record was: its head, of the provenance what an erasure retains, and its revision. -/
def SealedRecord.wasTheSame (r₁ r₂ : SealedRecord I J) : Prop :=
  r₁.head.erased = r₂.head.erased ∧ r₁.revision = r₂.revision

/-- The two rows agree on every column an erasure leaves as it was: the subtype, the content hash,
the fetch and expiry times, the country and subdivision, the columns of the class, what storing
does not write, and, for a copy that keeps its revision, the transaction time. -/
structure SameColumns (ctx : TombstoneContext) (row₁ row₂ : ClassRow I J) : Prop where
  subtype : row₁.subtype = row₂.subtype
  contentHash : row₁.contentHash = row₂.contentHash
  fetchedAt : row₁.fetchedAt = row₂.fetchedAt
  expiresAt : row₁.expiresAt = row₂.expiresAt
  country : row₁.country = row₂.country
  subdivision : row₁.subdivision = row₂.subdivision
  own : row₁.own = row₂.own
  createdAt : row₁.createdAt = row₂.createdAt
  evidence : row₁.evidence = row₂.evidence
  recordedAt : keepsRevision ctx row₁.record = true →
    row₁.record.recordedAt = row₂.record.recordedAt

/-- Two rows are equal exactly when their columns are. -/
theorem ClassRow.eq_iff {row₁ row₂ : ClassRow I J} :
    row₁ = row₂ ↔ row₁.toRowColumns = row₂.toRowColumns ∧ row₁.createdAt = row₂.createdAt ∧
      row₁.evidence = row₂.evidence := by
  cases row₁
  cases row₂
  simp

/-- What was the same record is ended at the same revision, keeping it or not. -/
theorem SealedRecord.wasTheSame.ended_eq {r₁ r₂ : SealedRecord I J} (h : r₁.wasTheSame r₂)
    (ctx : TombstoneContext) :
    keepsRevision ctx r₁.toStored = keepsRevision ctx r₂.toStored ∧
      endRevision ctx r₁.toStored = endRevision ctx r₂.toStored := by
  obtain ⟨hhead, hrevision⟩ := h
  have hchain : r₁.head.erased.provenance.originChain = r₂.head.erased.provenance.originChain := by
    rw [hhead]
  have hkeeps : keepsRevision ctx r₁.toStored = keepsRevision ctx r₂.toStored := by
    simp only [keepsRevision, isPeerCopy, SealedRecord.toStored]
    simp only [RecordHead.erased, Provenance.erased] at hchain
    rw [hchain]
  refine ⟨hkeeps, ?_⟩
  simp only [endRevision, hkeeps]
  simp only [SealedRecord.toStored, hrevision]

/-- The erased records of what was the same record agree, but for the transaction time of a copy
that keeps its own. -/
theorem SealedRecord.wasTheSame.ended_erasure_eq_iff {r₁ r₂ : SealedRecord I J}
    (h : r₁.wasTheSame r₂) (ctx : TombstoneContext) :
    ended ctx erasureReason r₁.toStored = ended ctx erasureReason r₂.toStored ↔
      (keepsRevision ctx r₁.toStored = true → r₁.recordedAt = r₂.recordedAt) := by
  obtain ⟨hkeeps, hend⟩ := h.ended_eq ctx
  simp only [ended, if_true, erasedStub, hend, StoredRecord.mk.injEq, true_and, and_true]
  simp only [← hkeeps]
  constructor
  · rintro ⟨-, hat⟩ hkeep
    rw [if_pos hkeep, if_pos hkeep] at hat
    exact hat
  · intro hat
    refine ⟨h.1, ?_⟩
    split_ifs with hkeep
    · exact hat hkeep
    · rfl

/-- Two stored rows of what was the same record are the same once erased exactly when they agree
on the columns an erasure leaves.

**Proof sketch.** The columns of the head agree, and the erased records do, but for the
transaction time of a copy that keeps its own; the geometry is gone from both. -/
theorem ended_erasure_eq_iff {r₁ r₂ : SealedRecord I J} {row₁ row₂ : ClassRow I J}
    (ctx : TombstoneContext) (hsame : r₁.wasTheSame r₂) (h₁ : row₁.toRowColumns = rowOf r₁)
    (h₂ : row₂.toRowColumns = rowOf r₂) :
    row₁.ended ctx erasureReason = row₂.ended ctx erasureReason ↔ SameColumns ctx row₁ row₂ := by
  obtain ⟨columns₁, created₁, evidence₁⟩ := row₁
  obtain ⟨columns₂, created₂, evidence₂⟩ := row₂
  simp only at h₁ h₂
  subst h₁ h₂
  have hrecord := hsame.ended_erasure_eq_iff ctx
  have hfields := hsame.1
  simp only [RecordHead.erased, Provenance.erased, RecordHead.mk.injEq, Provenance.mk.injEq]
    at hfields
  obtain ⟨hid, -, hkind, htype, hdomain, htemporality, hcanonical, horigin, hsource, -, haccess,
    hrecordId, hinstance, -, -, -, hprivacy, -⟩ := hfields
  constructor
  · intro h
    rw [ClassRow.eq_iff] at h
    simp only [ClassRow.ended, rowOf, RowColumns.mk.injEq] at h
    obtain ⟨⟨-, hrec, -, -, -, hsubtype, -, -, -, -, -, -, -, -, -, -, hhash, hfetched, hexpires, -,
      hcountry, hsubdivision, -, -, hown⟩, hcreated, hevidence⟩ := h
    exact ⟨hsubtype, hhash, hfetched, hexpires, hcountry, hsubdivision, hown, hcreated, hevidence,
      hrecord.mp hrec⟩
  · intro h
    have hrec := hrecord.mpr h.recordedAt
    rw [ClassRow.eq_iff]
    simp only [ClassRow.ended, rowOf, RowColumns.mk.injEq, hrec, hid, hcanonical, hkind, htype,
      hdomain, htemporality, hsource, hrecordId, horigin, haccess, hprivacy, hinstance, if_true,
      true_and]
    exact ⟨⟨h.subtype, h.contentHash, h.fetchedAt, h.expiresAt, h.country, h.subdivision, h.own⟩,
      h.createdAt, h.evidence⟩

/-! ## After an erasure -/

/-- After an erasure of its id alone, the tables hold of a record its erased row and nothing
else. -/
theorem residue_erased [DecidableEq I] {registry : Registry I J} {db db' : Db I J} {cls : RevisionedClass} {id : I}
    {row : ClassRow I J} {ctx : TombstoneContext}
    (h : tombstoneRecords registry db cls [id] erasureReason ctx = .ok db')
    (hrow : (db.rows cls).get id = some row) :
    residue db' cls id = ⟨some (row.ended ctx erasureReason), [], []⟩ := by
  rcases tombstoneRecords_eq_ok h with ⟨-, rfl⟩ | ⟨hne, -⟩
  · simp only [residue, endedDb, Function.update_self, Residue.mk.injEq]
    refine ⟨?_, ?_, ?_⟩
    · rw [get_endedRows, if_pos (List.mem_singleton_self id), hrow, Option.map_some]
    · rw [List.filter_filter, List.filter_eq_nil_iff]
      intro c _ hc
      simp [keepsChild] at hc
    · rw [List.filter_filter, List.filter_eq_nil_iff]
      intro r _ hr
      simp at hr
  · exact absurd rfl hne

/-- **What an erasure leaves.** Two records that were the same are stored, each with any history,
and erased.  The tables hold the same of both exactly when their rows agree on the columns an
erasure leaves as the record stated them. -/
theorem residue_erased_eq_iff [DecidableEq I] {registry : Registry I J} {now₁ now₂ : Instant}
    {base₁ base₂ stored₁ stored₂ erased₁ erased₂ : Db I J} {cls : RevisionedClass} {id : I}
    {r₁ r₂ : SealedRecord I J} {history₁ history₂ : RevisionedClass → List (RevisionRow I J)}
    {row₁ row₂ : ClassRow I J} {ctx : TombstoneContext}
    (hsame : r₁.wasTheSame r₂) (hid : r₁.head.id = id)
    (hstore₁ : storeRecords registry now₁ base₁ cls [r₁] = .ok stored₁)
    (hstore₂ : storeRecords registry now₂ base₂ cls [r₂] = .ok stored₂)
    (hrow₁ : (stored₁.rows cls).get id = some row₁)
    (hrow₂ : (stored₂.rows cls).get id = some row₂)
    (herase₁ : tombstoneRecords registry { stored₁ with revisions := history₁ } cls [id]
      erasureReason ctx = .ok erased₁)
    (herase₂ : tombstoneRecords registry { stored₂ with revisions := history₂ } cls [id]
      erasureReason ctx = .ok erased₂) :
    residue erased₁ cls id = residue erased₂ cls id ↔ SameColumns ctx row₁ row₂ := by
  have hid₂ : r₂.head.id = id := by
    have h := hsame.1
    simp only [RecordHead.erased, RecordHead.mk.injEq] at h
    rw [← h.1, hid]
  have hcolumns : ∀ {now : Instant} {base stored : Db I J} {r : SealedRecord I J}
      {row : ClassRow I J}, r.head.id = id → storeRecords registry now base cls [r] = .ok stored →
      (stored.rows cls).get id = some row → row.toRowColumns = rowOf r := by
    rintro now base stored r row rfl hstore hrow
    obtain ⟨-, rfl⟩ := storeRecords_eq_ok.mp hstore
    simp only [Function.update_self, get_upsertRows_singleton, Option.some_inj] at hrow
    rw [← hrow]
    rfl
  simp only [residue_erased herase₁ hrow₁, residue_erased herase₂ hrow₂, Residue.mk.injEq,
    Option.some_inj, and_true]
  exact ended_erasure_eq_iff ctx hsame (hcolumns hid hstore₁ hrow₁) (hcolumns hid₂ hstore₂ hrow₂)

/-! ### A road work and its erasure -/

/-- The instant the samples are written and erased at. -/
def erasureNow : Iso8601 := ⟨"1970-01-01T00:00:00Z", .epoch⟩

/-- A poll's record of one text. -/
def saying (text : String) : SealedRecord String String :=
  plainRecord "r1" "feed" "poll" "here" 1 erasureNow text

/-- The closed road work with another body under the same content hash. -/
def closedElse : SealedRecord String String :=
  { saying "closed" with statement := { (saying "closed").statement with body := "open" } }

/-- How the samples are erased. -/
def ownErasure : TombstoneContext := ⟨erasureNow, false, none⟩

/-- The tables that hold one sample. -/
def holding (record : SealedRecord String String) : Db String String :=
  (storeRecords (plainRegistry []) erasureNow.instant (.empty _ _) .feature [record]).toOption.getD
    (.empty _ _)

/-- The tables after the sample is erased. -/
def erasing (record : SealedRecord String String) : Db String String :=
  (tombstoneRecords (plainRegistry []) (holding record) .feature ["r1"] erasureReason
    ownErasure).toOption.getD (.empty _ _)

/-- The row of a sample. -/
def rowHolding (record : SealedRecord String String) : ClassRow String String :=
  upsertRow erasureNow.instant none record

/-- Of two records that differ in their body alone the same is left exactly when the columns
agree. -/
theorem residue_erased_eq_iff_sample :
    residue (erasing (saying "closed")) .feature "r1" = residue (erasing closedElse) .feature "r1" ↔
      SameColumns ownErasure (rowHolding (saying "closed")) (rowHolding closedElse) :=
  @residue_erased_eq_iff String String _ (plainRegistry []) erasureNow.instant erasureNow.instant
    (.empty _ _) (.empty _ _) (holding (saying "closed")) (holding closedElse)
    (erasing (saying "closed")) (erasing closedElse) .feature "r1" (saying "closed") closedElse
    (fun _ => []) (fun _ => []) (rowHolding (saying "closed")) (rowHolding closedElse) ownErasure
    ⟨rfl, rfl⟩ rfl rfl rfl rfl rfl rfl rfl

/-- Two records of one road work, closed or open: what is left of them after their erasure tells
which it was. -/
theorem residue_erased_differs :
    (saying "closed").wasTheSame (saying "open") ∧
      storeRecords (plainRegistry []) erasureNow.instant (.empty _ _) .feature [saying "closed"] =
        .ok (holding (saying "closed")) ∧
      storeRecords (plainRegistry []) erasureNow.instant (.empty _ _) .feature [saying "open"] =
        .ok (holding (saying "open")) ∧
      tombstoneRecords (plainRegistry []) (holding (saying "closed")) .feature ["r1"] erasureReason
        ownErasure = .ok (erasing (saying "closed")) ∧
      tombstoneRecords (plainRegistry []) (holding (saying "open")) .feature ["r1"] erasureReason
        ownErasure = .ok (erasing (saying "open")) ∧
      residue (erasing (saying "closed")) .feature "r1" ≠
        residue (erasing (saying "open")) .feature "r1" :=
  ⟨⟨rfl, rfl⟩, rfl, rfl, rfl, rfl, by decide⟩

end OpenConditions.Storage

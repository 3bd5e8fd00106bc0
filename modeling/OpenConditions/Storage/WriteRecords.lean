import OpenConditions.Storage.RecordRows
import Mathlib.Logic.Function.Basic

set_option relaxedAutoImplicit false
set_option autoImplicit false

/-!
# Writing snapshots and ending records

The record part of `packages/storage/src/write-records.ts`: storing sealed records, ending stored
ones, and writing one poll of one source.  The schemas and the hashing of the model package are
the parameter `Registry`.  A statement the database refuses throws, and its transaction leaves
the tables as they were.

## Main definitions

* `Registry` — the model package, as far as the writers rely on it.
* `storeRecords`, `insertRevisions`, `refreshExpiries` — the statements the writers share.
* `tombstoneRecords` — ending stored records.
* `writeClass`, `writeSnapshotIn` — one poll of one source.
-/

namespace OpenConditions.Storage

variable {I J : Type} [DecidableEq I]

/-! ## The model package -/

/-- Why a record is rejected. -/
structure ValidationIssue where
  path : List String
  code : String
  message : String
  deriving DecidableEq, Repr

/-- A record as it arrives: the fields the writers read before its validation, and its value. -/
structure RawRecord (I J : Type) where
  /-- `class`, when it is one of these. -/
  cls : Option RevisionedClass
  /-- `id`, when it is a string. -/
  id : Option I
  /-- `provenance.sourceId`. -/
  sourceId : Option String
  /-- `freshness.expiresAt`, when it is a string. -/
  expiresAt : Option Iso8601
  value : J

/-- What a writer assigns to a record it seals. -/
structure SealOptions where
  instanceId : String
  revision : ℕ
  recordedAt : Iso8601

/-- The model package: the schemas, the content hash, the change kinds, the child rows, and the
replacement of unpaired surrogates in an id. -/
structure Registry (I J : Type) where
  wellFormed : I → I
  contentHash : RawRecord I J → Except String String
  sealRecord : RawRecord I J → SealOptions → Except (List ValidationIssue) (SealedRecord I J)
  validate : RawRecord I J → Except (List ValidationIssue) (SealedRecord I J)
  computeChangeKinds : Option (StoredRecord I J) → StoredRecord I J → List String
  /-- The rows of a record's effects, components and relations. -/
  childRows : SealedRecord I J → List (ChildTable × J)
  seal_id : ∀ draft opts r, sealRecord draft opts = .ok r → draft.id.map wellFormed = some r.head.id
  seal_cls : ∀ draft opts r, sealRecord draft opts = .ok r → draft.cls = some r.head.cls
  seal_source : ∀ draft opts r, sealRecord draft opts = .ok r →
    draft.sourceId = some r.head.provenance.sourceId
  seal_assigned : ∀ draft opts r, sealRecord draft opts = .ok r →
    r.head.provenance.instanceId = opts.instanceId ∧ r.revision = opts.revision ∧
      r.recordedAt = opts.recordedAt ∧ r.tombstone = none
  validate_id : ∀ raw r, validate raw = .ok r → raw.id = some r.head.id
  validate_cls : ∀ raw r, validate raw = .ok r → raw.cls = some r.head.cls
  validate_source : ∀ raw r, validate raw = .ok r →
    raw.sourceId = some r.head.provenance.sourceId
  validate_revision : ∀ raw r, validate raw = .ok r → 0 < r.revision

/-- What a writer throws: the database refused a statement, or the poll is too large. -/
inductive WriteError where
  /-- One statement writes a row twice. -/
  | cardinalityViolation
  /-- A revision row that stands already. -/
  | uniqueViolation
  | tooManyRows (message : String)
  deriving DecidableEq, Repr

/-! ## The statements -/

/-- The rows one bulk statement sends at most. -/
def batchRows : ℕ := 1000

/-- The row of a written record over the row that stands under its id: what storing does not write
stays, or is given its default. -/
def upsertRow (now : Instant) (held : Option (ClassRow I J)) (record : SealedRecord I J) :
    ClassRow I J :=
  { toRowColumns := rowOf record
    createdAt := (held.map ClassRow.createdAt).getD now
    evidence := (held.map ClassRow.evidence).getD .default }

/-- Upserts records into a class table. -/
def upsertRows (now : Instant) (table : OrderedMap I (ClassRow I J))
    (records : List (SealedRecord I J)) : OrderedMap I (ClassRow I J) :=
  records.foldl (fun t r => t.set r.head.id (upsertRow now (t.get r.head.id) r)) table

/-- Queues the binding of situations. -/
def enqueueBindings (queue : OrderedMap I ℕ) (refs : List (I × ℕ)) : OrderedMap I ℕ :=
  refs.foldl (fun q r => q.set r.1 r.2) queue

/-- Whether a child row belongs to one of the records. -/
def ChildRow.isOf (cls : RevisionedClass) (ids : List I) (row : ChildRow I J) : Bool :=
  decide (row.cls = cls ∧ row.parent ∈ ids)

/-- The child rows a written record gets: a tombstoned one keeps its components only. -/
def childRowsOf (registry : Registry I J) (record : SealedRecord I J) : List (ChildRow I J) :=
  ((registry.childRows record).filter fun c =>
    record.tombstone.isNone || decide (c.1 = .featureComponent)).map
      fun c => ⟨c.1, record.head.cls, record.head.id, c.2⟩

/-- Whether no statement of a class's write names a row twice: records are upserted a batch at a
time, and situations queued all at once. -/
def distinctRows (cls : RevisionedClass) (ids : List I) : Bool :=
  ((ids.toChunks batchRows).all fun batch => decide batch.Nodup) &&
    (decide (cls ≠ .situation) || decide ids.Nodup)

/-- Upserts sealed records with their child rows and, for situations, their binding work. -/
def storeRecords (registry : Registry I J) (now : Instant) (db : Db I J) (cls : RevisionedClass)
    (records : List (SealedRecord I J)) : Except WriteError (Db I J) :=
  let ids := records.map fun r => r.head.id
  if distinctRows cls ids then
    .ok { db with
      rows := Function.update db.rows cls (upsertRows now (db.rows cls) records)
      children := (db.children.filter fun c => !c.isOf cls ids) ++
        records.flatMap (childRowsOf registry)
      bindingQueue :=
        if cls = .situation then
          enqueueBindings db.bindingQueue (records.map fun r => (r.head.id, r.revision))
        else db.bindingQueue }
  else .error .cardinalityViolation

/-- Inserts revision rows; a row that stands already is refused, and the statement with it. -/
def insertRevisions (db : Db I J) (cls : RevisionedClass) (rows : List (RevisionRow I J)) :
    Except WriteError (Db I J) :=
  if ((db.revisions cls ++ rows).map fun r => (r.id, r.revision)).Nodup then
    .ok { db with
      revisions := Function.update db.revisions cls (db.revisions cls ++ rows)
      inserted := Function.update db.inserted cls
        (db.inserted cls ++ rows.map fun r => (r.id, r.revision)) }
  else .error .uniqueViolation

/-- A revision row: the stored record and what changed. -/
def revisionRow (record : StoredRecord I J) (changeKinds : List String) : RevisionRow I J :=
  ⟨record.head.id, record.revision, record.recordedAt, changeKinds, record⟩

/-- A row with another expiry, in its column and its record alike. -/
def ClassRow.withExpiry (row : ClassRow I J) (expiresAt : Option Iso8601) : ClassRow I J :=
  { row with
    expiresAt := expiresAt.map Iso8601.instant
    record := { row.record with
      statement := row.record.statement.map fun s => { s with expiresAt := expiresAt } } }

/-- Moves the expiry of stored records, in place. -/
def refreshExpiries (db : Db I J) (cls : RevisionedClass)
    (moved : List (I × Option Iso8601)) : Db I J :=
  { db with
    rows := Function.update db.rows cls
      (moved.foldl (fun t m =>
        match t.get m.1 with
        | some row => t.set m.1 (row.withExpiry m.2)
        | none => t) (db.rows cls)) }

/-! ## Ending records -/

/-- The tombstone reason that erases a record. -/
def erasureReason : String := "rights_revoked"

/-- The tombstone reasons that are this instance's decision about a record. -/
def decidedTombstoneReasons : List String := ["rejected", "superseded"]

/-- What an erased record keeps of its provenance. -/
def Provenance.erased (provenance : Provenance J) : Provenance J :=
  { provenance with other := none }

/-- What an erased record keeps of its head. -/
def RecordHead.erased (head : RecordHead I J) : RecordHead I J :=
  { head with provenance := head.provenance.erased }

/-- An erased record: what it was, and nothing of what it said. -/
def erasedStub (record : StoredRecord I J) : StoredRecord I J :=
  { record with head := record.head.erased, statement := none }

/-- How records are ended. -/
structure TombstoneContext where
  now : Iso8601
  byOwner : Bool
  /-- With `byOwner`: the revision the owner ended the record at. -/
  ownerRevision : Option ℕ

/-- Whether a record that is ended keeps its revision: a peer's copy ended here does. -/
def keepsRevision (ctx : TombstoneContext) (prev : StoredRecord I J) : Bool :=
  !ctx.byOwner && isPeerCopy prev.head

/-- The revision a record is ended at. -/
def endRevision (ctx : TombstoneContext) (prev : StoredRecord I J) : ℕ :=
  match ctx.byOwner, ctx.ownerRevision with
  | true, some revision => revision
  | _, _ => prev.revision + if keepsRevision ctx prev then 0 else 1

/-- A stored record, ended. -/
def ended (ctx : TombstoneContext) (reason : String) (prev : StoredRecord I J) :
    StoredRecord I J :=
  { (if reason = erasureReason then erasedStub prev else prev) with
    tombstone := some ⟨reason, ctx.now⟩
    revision := endRevision ctx prev
    recordedAt := if keepsRevision ctx prev then prev.recordedAt else ctx.now }

/-- A row whose record is ended; an erased one loses its geometry. -/
def ClassRow.ended (ctx : TombstoneContext) (reason : String) (row : ClassRow I J) :
    ClassRow I J :=
  let next := Storage.ended ctx reason row.record
  { row with
    record := next
    revision := next.revision
    recordedAt := next.recordedAt.instant
    tombstoneReason := some reason
    tombstonedAt := some ctx.now.instant
    geom := if reason = erasureReason then none else row.geom }

/-- The revision row of a record that is ended, when its revision changes and its history is
kept. -/
def endedRevision (registry : Registry I J) (ctx : TombstoneContext) (reason : String)
    (prev : StoredRecord I J) : Option (RevisionRow I J) :=
  let next := ended ctx reason prev
  if next.revision ≠ prev.revision ∧ historyEligible prev.head = true then
    some (revisionRow next (registry.computeChangeKinds (some prev) next))
  else none

/-- The child rows that stay when records end: a feature's components, unless it is erased. -/
def keepsChild (cls : RevisionedClass) (ids : List I) (reason : String) (row : ChildRow I J) :
    Bool :=
  !row.isOf cls ids || (decide (row.table = .featureComponent) && decide (reason ≠ erasureReason))

/-- Ends stored records: each of those that are held gets its tombstone and its revision, and
loses its effect and relation rows.  An erasure also removes their revision history. -/
def tombstoneRecords (registry : Registry I J) (db : Db I J) (cls : RevisionedClass) (ids : List I)
    (reason : String) (ctx : TombstoneContext) : Except WriteError (Db I J) :=
  let held := ids.filterMap fun id => ((db.rows cls).get id).map fun row => (id, row)
  let ended := { db with
    rows := Function.update db.rows cls
      (held.foldl (fun t h => t.set h.1 (h.2.ended ctx reason)) (db.rows cls))
    children := db.children.filter (keepsChild cls ids reason)
    bindingQueue :=
      if cls = .situation then
        enqueueBindings db.bindingQueue (held.map fun h => (h.1, endRevision ctx h.2.record))
      else db.bindingQueue }
  if cls = .situation ∧ ¬(held.map Prod.fst).Nodup then .error .cardinalityViolation
  else if reason = erasureReason then
    .ok { ended with
      revisions := Function.update db.revisions cls
        ((db.revisions cls).filter fun r => decide (r.id ∉ ids)) }
  else
    insertRevisions ended cls
      (held.filterMap fun h => endedRevision registry ctx reason h.2.record)

/-! ## One poll of one source -/

/-- What a poll is written with. -/
structure WriteContext where
  instanceId : String
  now : Iso8601
  /-- Whether the snapshot holds every record of a class its source publishes. -/
  complete : RevisionedClass → Bool
  maxRowsPerClass : Option ℕ

/-- The drafts of a poll. -/
structure SnapshotDrafts (I J : Type) where
  situations : List (RawRecord I J)
  features : List (RawRecord I J)
  offers : List (RawRecord I J)

/-- The drafts of a class. -/
def SnapshotDrafts.of (drafts : SnapshotDrafts I J) : RevisionedClass → List (RawRecord I J)
  | .situation => drafts.situations
  | .feature => drafts.features
  | .offer => drafts.offers

/-- A draft that could not be stored, with why. -/
structure Rejection (I : Type) where
  cls : RevisionedClass
  id : Option I
  issues : List ValidationIssue
  deriving DecidableEq

/-- What becomes of one draft of a poll. -/
inductive DraftOutcome (I J : Type) where
  | rejected (rejection : Rejection I)
  /-- The stored record is left as it is, but for an expiry that moved. -/
  | unchanged (moved : Option (I × Option Iso8601))
  | written (record : SealedRecord I J) (prev : Option (ClassRow I J))

/-- Whether a draft written here leaves its stored record as it is. -/
def unchangedOwn (stored : ClassRow I J) (hash instanceId : String) : Bool :=
  stored.tombstonedAt.isNone && decide (stored.contentHash = hash) &&
    decide (stored.instanceId = instanceId)

/-- A text as the one issue of a rejection. -/
def customIssue (message : String) : List ValidationIssue := [⟨[], "custom", message⟩]

/-- The name of a class in a message. -/
def RevisionedClass.name : RevisionedClass → String
  | .situation => "situation"
  | .feature => "feature"
  | .offer => "offer"

/-- The message of a draft of another class or source. -/
def foreignDraft (cls : RevisionedClass) (sourceId : String) : String :=
  "a " ++ cls.name ++ " draft of source " ++ sourceId ++ " is expected"

/-- Compares one draft with what its source has stored, and seals it when that differs. -/
def judgeDraft (registry : Registry I J) (ctx : WriteContext) (cls : RevisionedClass)
    (sourceId : String) (existing : I → Option (ClassRow I J)) (draft : RawRecord I J) :
    DraftOutcome I J :=
  if draft.cls ≠ some cls ∨ draft.sourceId ≠ some sourceId then
    .rejected ⟨cls, draft.id, customIssue (foreignDraft cls sourceId)⟩
  else
    match registry.contentHash draft with
    | .error message => .rejected ⟨cls, draft.id, customIssue message⟩
    | .ok hash =>
      match draft.id.bind fun id => (existing id).map fun row => (id, row) with
      | some (id, prev) =>
        if unchangedOwn prev hash ctx.instanceId then
          .unchanged (if draft.expiresAt.map Iso8601.instant ≠ prev.expiresAt then
            some (id, draft.expiresAt) else none)
        else
          match registry.sealRecord draft ⟨ctx.instanceId, prev.revision + 1, ctx.now⟩ with
          | .error issues => .rejected ⟨cls, draft.id, issues⟩
          | .ok record => .written record (some prev)
      | none =>
        match registry.sealRecord draft ⟨ctx.instanceId, 1, ctx.now⟩ with
        | .error issues => .rejected ⟨cls, draft.id, issues⟩
        | .ok record => .written record none

/-- The drafts of a poll, the last one of each id in the place of its first. -/
def dedupeDrafts (drafts : List (RawRecord I J)) : List (RawRecord I J) :=
  ((drafts.foldl (fun m d => m.set d.id d) .empty : OrderedMap (Option I) _).entries).map Prod.snd

/-- A record a poll writes, with the row it replaces. -/
def DraftOutcome.record? : DraftOutcome I J → Option (SealedRecord I J × Option (ClassRow I J))
  | .written record prev => some (record, prev)
  | _ => none

/-- An expiry a poll moves. -/
def DraftOutcome.moved? : DraftOutcome I J → Option (I × Option Iso8601)
  | .unchanged moved => moved
  | _ => none

/-- A draft a poll rejects. -/
def DraftOutcome.rejection? : DraftOutcome I J → Option (Rejection I)
  | .rejected rejection => some rejection
  | _ => none

/-- What changed in a record a poll writes: a created or restored one is created. -/
def changeKindsOf (registry : Registry I J) (table : OrderedMap I (ClassRow I J))
    (record : SealedRecord I J) : Option (ClassRow I J) → List String
  | some prev =>
    if prev.tombstonedAt.isSome then ["created"]
    else
      registry.computeChangeKinds ((table.get record.head.id).map fun row => row.record)
        record.toStored
  | none => ["created"]

/-- The revision row of a record a poll writes, when its history is kept. -/
def writtenRevision (registry : Registry I J) (table : OrderedMap I (ClassRow I J))
    (w : SealedRecord I J × Option (ClassRow I J)) : Option (RevisionRow I J) :=
  if historyEligible w.1.head then
    some (revisionRow w.1.toStored (changeKindsOf registry table w.1 w.2))
  else none

/-- The rows of a class table under a source. -/
def existingOf (table : OrderedMap I (ClassRow I J)) (sourceId : String) :
    OrderedMap I (ClassRow I J) :=
  table.filter fun e => decide (e.2.sourceId = sourceId)

/-- The stored records of a source a complete snapshot no longer holds: this instance's own, live
ones. -/
def goneOf (existing : OrderedMap I (ClassRow I J)) (seen : List (Option I))
    (instanceId : String) : List I :=
  (existing.filter fun e =>
    e.2.tombstonedAt.isNone && decide (some e.1 ∉ seen) &&
      decide (e.2.instanceId = instanceId)).keys

/-- What a poll counts of a class. -/
structure ClassCounts where
  created : ℕ
  updated : ℕ
  restored : ℕ
  unchanged : ℕ
  withdrawn : ℕ
  deriving DecidableEq, Repr

/-- What the write of a class comes to. -/
structure ClassSummary (I : Type) where
  counts : ClassCounts
  rejected : List (Rejection I)
  deriving DecidableEq

/-- The summary of a class write. -/
def summaryOf (outcomes : List (DraftOutcome I J)) (withdrawn : ℕ) : ClassSummary I :=
  let written := outcomes.filterMap DraftOutcome.record?
  { counts :=
      { created := written.countP fun w => w.2.isNone
        updated := written.countP fun w => w.2.any fun prev => prev.tombstonedAt.isNone
        restored := written.countP fun w => w.2.any fun prev => prev.tombstonedAt.isSome
        unchanged := outcomes.length - written.length -
          (outcomes.filterMap DraftOutcome.rejection?).length
        withdrawn := withdrawn }
    rejected := outcomes.filterMap DraftOutcome.rejection? }

/-- Writes the drafts of one class of a poll. -/
def writeClass (registry : Registry I J) (db : Db I J) (cls : RevisionedClass) (sourceId : String)
    (drafts : List (RawRecord I J)) (ctx : WriteContext) :
    Except WriteError (Db I J × ClassSummary I) :=
  let existing := existingOf (db.rows cls) sourceId
  let deduped := dedupeDrafts drafts
  let outcomes := deduped.map (judgeDraft registry ctx cls sourceId existing.get)
  let written := outcomes.filterMap DraftOutcome.record?
  let db₁ := refreshExpiries db cls (outcomes.filterMap DraftOutcome.moved?)
  match storeRecords registry ctx.now.instant db₁ cls (written.map Prod.fst) with
  | .error e => .error e
  | .ok db₂ =>
    match insertRevisions db₂ cls
        (written.filterMap (writtenRevision registry (db₁.rows cls))) with
    | .error e => .error e
    | .ok db₃ =>
      if ctx.complete cls then
        let gone := goneOf existing (deduped.map RawRecord.id) ctx.instanceId
        match tombstoneRecords registry db₃ cls gone "withdrawn" ⟨ctx.now, false, none⟩ with
        | .error e => .error e
        | .ok db₄ => .ok (db₄, summaryOf outcomes gone.length)
      else .ok (db₃, summaryOf outcomes 0)

/-- The most records of one class a source publishes in one poll. -/
def maxRowsPerSource : ℕ := 100000

/-- The message of a poll that holds too many records of a class. -/
def capMessage (size max : ℕ) (cls : RevisionedClass) : String :=
  "source snapshot has " ++ toString size ++ " " ++ cls.name ++
    " rows, exceeding publication limit " ++ toString max

/-- Refuses a poll that holds too many records of a class. -/
def capRows (drafts : SnapshotDrafts I J) (ctx : WriteContext) (cls : RevisionedClass) :
    Except WriteError Unit :=
  let max := ctx.maxRowsPerClass.getD maxRowsPerSource
  if max < (drafts.of cls).length then
    .error (.tooManyRows (capMessage (drafts.of cls).length max cls))
  else .ok ()

/-- Writes one class of a poll, unless the poll says nothing of it. -/
def writeClassOf (registry : Registry I J) (sourceId : String) (drafts : SnapshotDrafts I J)
    (ctx : WriteContext) (db : Db I J) (cls : RevisionedClass) : Except WriteError (Db I J) :=
  if (drafts.of cls).isEmpty && !ctx.complete cls then .ok db
  else (writeClass registry db cls sourceId (drafts.of cls) ctx).map Prod.fst

/-- The order a poll's classes are written in. -/
def snapshotClasses : List RevisionedClass := [.feature, .situation, .offer]

/-- Writes the records of one poll of one source, in its transaction. -/
def writeSnapshotIn (registry : Registry I J) (db : Db I J) (sourceId : String)
    (drafts : SnapshotDrafts I J) (ctx : WriteContext) : Except WriteError (Db I J) := do
  snapshotClasses.forM (capRows drafts ctx)
  snapshotClasses.foldlM (writeClassOf registry sourceId drafts ctx) db

end OpenConditions.Storage

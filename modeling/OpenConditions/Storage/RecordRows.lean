import OpenConditions.Lib.Instant
import OpenConditions.Lib.OrderedMap
import Mathlib.Data.Rat.Defs

set_option relaxedAutoImplicit false
set_option autoImplicit false

/-!
# Stored records and their rows

The records the storage keeps and the columns their class tables promote
(`packages/storage/src/record-rows.ts`), with the tables of
`packages/core/drizzle/0037_record_classes.sql`.

A record is its head (what it is and whose), its statement (what it says) and what storage assigns:
revision, transaction time and tombstone.  An erased record has lost its statement.  `I` is the
type of record ids and `J` the type of the JSON values the storage does not read into.

## Main definitions

* `SealedRecord`, `StoredRecord` — a record as it is written, and as the `record` column holds it.
* `RowColumns`, `rowOf` — the columns of a class table, and those of a record.
* `Db` — the class tables with their child, revision and queue rows.
-/

namespace OpenConditions.Storage

/-! ## Records -/

/-- The classes that keep revisions. -/
inductive RevisionedClass where
  | situation | feature | offer
  deriving DecidableEq, Repr

/-- An instant as a record states it: its text and the instant it reads as. -/
structure Iso8601 where
  text : String
  instant : Instant
  deriving DecidableEq, Repr

/-- How a record ended. -/
structure Tombstone where
  reason : String
  endedAt : Iso8601
  deriving DecidableEq, Repr

/-- Where a record comes from.  `other` is what an erasure does not retain: the publisher's times
and links, its informant, the reporter, the merged sources. -/
structure Provenance (J : Type) where
  origin : String
  sourceId : String
  sourceFormat : String
  accessMode : String
  recordId : String
  instanceId : String
  attribution : J
  upstream : Option J
  originChain : Option (List J)
  /-- `privacy.class`. -/
  privacyClass : String
  privacy : J
  other : Option J
  deriving DecidableEq

/-- What a record is. -/
structure RecordHead (I J : Type) where
  id : I
  cls : RevisionedClass
  kind : String
  type : Option String
  domain : String
  temporality : String
  canonicalId : String
  provenance : Provenance J
  deriving DecidableEq

/-- The promoted fields of a situation. -/
structure SituationColumns where
  severity : String
  severityLevel : Option ℕ
  certainty : String
  planned : Bool
  validityStatus : String
  validFrom : Option Instant
  validTo : Option Instant
  groupId : Option String
  deriving DecidableEq, Repr

/-- The promoted fields of an offer. -/
structure OfferColumns where
  subjectClass : String
  subjectId : String
  componentKey : Option String
  currency : String
  validFrom : Option Instant
  validTo : Option Instant
  minPrice : Option ℚ
  maxPrice : Option ℚ
  deriving DecidableEq, Repr

/-- The columns of a class of its own. -/
inductive OwnColumns where
  | situation (columns : SituationColumns)
  | feature (lifecycle : String)
  | offer (columns : OfferColumns)
  deriving DecidableEq, Repr

/-- What a record says: the fields its columns promote, and everything else. -/
structure Statement (J : Type) where
  subtype : Option String
  contentHash : String
  /-- `freshness.fetchedAt`. -/
  fetchedAt : Iso8601
  /-- `freshness.expiresAt`. -/
  expiresAt : Option Iso8601
  /-- `location.geometry`. -/
  geometry : Option J
  /-- `location.admin.country`. -/
  country : Option String
  /-- `location.admin.subdivision`. -/
  subdivision : Option String
  own : OwnColumns
  body : J
  deriving DecidableEq

/-- A record as it is written. -/
structure SealedRecord (I J : Type) where
  head : RecordHead I J
  statement : Statement J
  revision : ℕ
  recordedAt : Iso8601
  tombstone : Option Tombstone
  deriving DecidableEq

/-- A record as its row holds it; an erased one says nothing. -/
structure StoredRecord (I J : Type) where
  head : RecordHead I J
  statement : Option (Statement J)
  revision : ℕ
  recordedAt : Iso8601
  tombstone : Option Tombstone
  deriving DecidableEq

section Records

variable {I J : Type}

/-- The record a written one is stored as. -/
def SealedRecord.toStored (record : SealedRecord I J) : StoredRecord I J :=
  ⟨record.head, some record.statement, record.revision, record.recordedAt, record.tombstone⟩

/-- Whether a record's history is kept. -/
def historyEligible (head : RecordHead I J) : Bool := head.provenance.accessMode ≠ "on_demand"

/-- Whether a stored record is a peer's copy: it carries the origin chain of its receipt. -/
def isPeerCopy (head : RecordHead I J) : Bool :=
  head.provenance.originChain.any fun chain => !chain.isEmpty

/-- The instant a stored record says it expires at. -/
def StoredRecord.expiryOf (record : StoredRecord I J) : Option Instant :=
  (record.statement.bind Statement.expiresAt).map Iso8601.instant

end Records

/-! ## Rows -/

/-- The evidence summary of a row, which no snapshot writes. -/
structure EvidenceColumns where
  evidenceState : Option String
  confidenceScore : Option ℚ
  routingEligible : Bool
  corroborations : ℕ
  flaggedAt : Option Instant
  deriving DecidableEq, Repr

/-- The evidence columns of a row that is inserted. -/
def EvidenceColumns.default : EvidenceColumns := ⟨none, none, false, 0, none⟩

/-- The columns of a class table that storing a record writes. -/
structure RowColumns (I J : Type) where
  id : I
  record : StoredRecord I J
  canonicalId : String
  kind : String
  type : Option String
  subtype : Option String
  domain : String
  temporality : String
  sourceId : String
  sourceRecordId : String
  origin : String
  accessMode : String
  privacyClass : String
  instanceId : String
  revision : ℕ
  recordedAt : Instant
  contentHash : String
  fetchedAt : Instant
  expiresAt : Option Instant
  geom : Option J
  country : Option String
  subdivision : Option String
  tombstoneReason : Option String
  tombstonedAt : Option Instant
  own : OwnColumns
  deriving DecidableEq

/-- A row of a class table. -/
structure ClassRow (I J : Type) extends RowColumns I J where
  createdAt : Instant
  evidence : EvidenceColumns
  deriving DecidableEq

/-- The columns of a written record: the kernel's and the class's own. -/
def rowOf {I J : Type} (record : SealedRecord I J) : RowColumns I J where
  id := record.head.id
  record := record.toStored
  canonicalId := record.head.canonicalId
  kind := record.head.kind
  type := record.head.type
  subtype := record.statement.subtype
  domain := record.head.domain
  temporality := record.head.temporality
  sourceId := record.head.provenance.sourceId
  sourceRecordId := record.head.provenance.recordId
  origin := record.head.provenance.origin
  accessMode := record.head.provenance.accessMode
  privacyClass := record.head.provenance.privacyClass
  instanceId := record.head.provenance.instanceId
  revision := record.revision
  recordedAt := record.recordedAt.instant
  contentHash := record.statement.contentHash
  fetchedAt := record.statement.fetchedAt.instant
  expiresAt := record.statement.expiresAt.map Iso8601.instant
  geom := record.statement.geometry
  country := record.statement.country
  subdivision := record.statement.subdivision
  tombstoneReason := record.tombstone.map Tombstone.reason
  tombstonedAt := record.tombstone.map fun t => t.endedAt.instant
  own := record.statement.own

/-- The tables that hold what a record holds of several. -/
inductive ChildTable where
  | situationEffect | featureComponent | recordRelation
  deriving DecidableEq, Repr

/-- A child row of a record. -/
structure ChildRow (I J : Type) where
  table : ChildTable
  cls : RevisionedClass
  parent : I
  value : J
  deriving DecidableEq

/-- A row of a revision table. -/
structure RevisionRow (I J : Type) where
  id : I
  revision : ℕ
  recordedAt : Iso8601
  changeKinds : List String
  snapshot : StoredRecord I J
  deriving DecidableEq

/-- The tables.  `inserted` is a history variable: every revision row ever inserted. -/
structure Db (I J : Type) where
  rows : RevisionedClass → OrderedMap I (ClassRow I J)
  children : List (ChildRow I J)
  revisions : RevisionedClass → List (RevisionRow I J)
  /-- The revision each queued situation is to be bound at. -/
  bindingQueue : OrderedMap I ℕ
  inserted : RevisionedClass → List (I × ℕ)

/-- The empty tables. -/
def Db.empty (I J : Type) : Db I J where
  rows _ := .empty
  children := []
  revisions _ := []
  bindingQueue := .empty
  inserted _ := []

end OpenConditions.Storage

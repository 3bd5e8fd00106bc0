import OpenConditions.Storage.WriteFacts
import OpenConditions.Lib.Run

set_option relaxedAutoImplicit false
set_option autoImplicit false

/-!
# The federation inbox

The entries of one peer's outbox, landed one by one
(`services/contributions-api/src/federation/inbox.ts`, with the erasure facts of `tombstone.ts`).
A change is admitted and written as the peer sealed it; a retraction ends the local copy, and an
erasure also leaves a fact that refuses the record for its lifetime.  Between deliveries, copies
are ended here: the sweep ends them when they expire or their peer falls silent, and reports are
rejected.

The admission of a record (`packages/federation/src/admit.ts`) is a parameter.  Observations go to
their series, and the canonical view follows: neither is part of a copy.

## Main definitions

* `Admission` — what the inbox relies on of the admission.
* `Retraction`, `OutboxItem` — an entry as it is read.
* `landRecord`, `applyRetraction` — the two kinds of delivery.
* `InboxEvent`, `inboxStep` — a delivery, or an end here.
-/

namespace OpenConditions.Federation

open OpenConditions.Storage

variable {W I J : Type} [DecidableEq I]

/-! ## Entries -/

/-- A record a peer sent, admitted. -/
structure AdmittedRecord (I J : Type) where
  raw : RawRecord I J
  canonicalId : String
  /-- Whether it is a crowd's report of a situation. -/
  crowd : Bool

/-- The admission of a peer's records: the record must be the peer's own, and the clock enters its
receipt alone. -/
structure Admission (W : Type) {I J : Type} (registry : Registry I J) (peerInstanceId : String) where
  admitFederatedRecord : Iso8601 → W → Except String (AdmittedRecord I J)
  admit_instance : ∀ now wire record sealed, admitFederatedRecord now wire = .ok record →
    registry.validate record.raw = .ok sealed →
      sealed.head.provenance.instanceId = peerInstanceId
  admit_clock : ∀ now now' wire record sealed, admitFederatedRecord now wire = .ok record →
    registry.validate record.raw = .ok sealed →
      ∃ record' sealed', admitFederatedRecord now' wire = .ok record' ∧
        registry.validate record'.raw = .ok sealed' ∧ sealed'.head.cls = sealed.head.cls ∧
          sealed'.head.id = sealed.head.id ∧ sealed'.revision = sealed.revision

/-- A delete entry, as `readInboundEntry` reads it. -/
structure Retraction (I : Type) where
  /-- `none` stands for an observation. -/
  recordClass : Option RevisionedClass
  recordId : I
  canonicalId : Option String
  reason : String
  /-- The revision the record ended at. -/
  revision : Option ℕ
  /-- Only an erasure may lack its revision. -/
  ordered : reason ≠ erasureReason → revision.isSome = true

/-- An entry of a peer's outbox: a create or an update with its record, or a delete. -/
inductive OutboxItem (W I : Type) where
  | change (record : W)
  | retraction (entry : Retraction I)

/-! ## The state -/

/-- The tables the inbox writes. -/
structure Inbox (I J : Type) where
  db : Db I J
  /-- `federation_tombstone`: until when a canonical id is refused, from every peer (under the
  empty name) or from one. -/
  facts : OrderedMap (String × String) ℤ
  /-- `federation_lapsed_copy`: the revision a copy kept when the sweep ended it for its peer's
  silence. -/
  lapsed : OrderedMap (RevisionedClass × I) ℕ
  /-- A history variable: every record that was created, updated or restored by a delivery. -/
  landed : List (RevisionedClass × I × ℕ)

/-- How a delivery ended. -/
inductive InboxOutcome where
  | accepted | stale | tombstoned
  | skipped (reason : String)
  deriving DecidableEq, Repr

/-- What recomputing the evidence of a report comes to. -/
structure RecomputedEvidence where
  columns : EvidenceColumns
  expiresAt : Option Instant
  deriving DecidableEq, Repr

/-! ## Erasure facts -/

/-- How long an erasure fact refuses the erased record. -/
def tombstoneFactTtlDays : ℤ := 30

/-- Whether a canonical id was erased within the fact's lifetime, by this instance or by the
peer. -/
def isErased (facts : OrderedMap (String × String) ℤ) (canonicalId : String) (now : Instant)
    (peer : String) : Bool :=
  decide (canonicalId ≠ "") &&
    ["", peer].any fun p => (facts.get (canonicalId, p)).any fun expiresAt =>
      decide (now.ms < expiresAt)

/-- Records the erasure fact of a canonical id; one that stands is only ever prolonged. -/
def recordErasure (facts : OrderedMap (String × String) ℤ) (canonicalId : Option String)
    (now : Instant) (peer : String) : OrderedMap (String × String) ℤ :=
  match canonicalId with
  | none => facts
  | some canonicalId =>
    if canonicalId = "" then facts
    else
      let expiresAt := now.ms + tombstoneFactTtlDays * 24 * 60 * 60 * 1000
      facts.set (canonicalId, peer)
        (((facts.get (canonicalId, peer)).map fun held => max held expiresAt).getD expiresAt)

/-- Whether a copy is one the sweep ended for its peer's silence and that is still as it ended. -/
def isLapsedCopy (s : Inbox I J) (cls : RevisionedClass) (id : I) : Bool :=
  ((s.db.rows cls).get id).any fun row =>
    decide (s.lapsed.get (cls, id) = some row.revision ∧ row.tombstoneReason = some "expired")

/-! ## Changes -/

/-- The issues of a refused record, as a skipped entry reports them. -/
def issueText (issues : List ValidationIssue) : String :=
  "; ".intercalate (issues.map fun i => ".".intercalate i.path ++ ": " ++ i.message)

/-- Writes back the evidence of a landed report: its evidence columns and its expiry column. -/
def landEvidence (db : Db I J) (id : I) (evidence : Option RecomputedEvidence) : Db I J :=
  match evidence, (db.rows .situation).get id with
  | some e, some row =>
    { db with
      rows := Function.update db.rows .situation ((db.rows .situation).set id
        { row with evidence := e.columns, expiresAt := e.expiresAt }) }
  | _, _ => db

/-- Whether a write makes the copy what the peer sent. -/
def WriteStatus.lands : WriteStatus → Bool
  | .created | .updated | .restored => true
  | _ => false

/-- Lands one change: refuses what was erased, and writes the record as its peer sealed it. -/
def landRecord {registry : Registry I J} {peer : String} (admission : Admission W registry peer)
    (localInstanceId : String) (s : Inbox I J) (wire : W) (now : Iso8601)
    (evidence : Option RecomputedEvidence) : Except WriteError (Inbox I J × InboxOutcome) :=
  match admission.admitFederatedRecord now wire with
  | .error reason => .ok (s, .skipped reason)
  | .ok record =>
    if isErased s.facts record.canonicalId now.instant peer then
      .ok (s, .skipped "the record was erased")
    else
      match writeRecordIn registry s.db (.stored record.raw) localInstanceId now with
      | .error e => .error e
      | .ok (_, .rejected _ _ issues) => .ok (s, .skipped (issueText issues))
      | .ok (db, .done status cls id revision) =>
        let landed := if WriteStatus.lands status then [(cls, id, revision)] else []
        let evident := record.crowd && (WriteStatus.lands status || decide (status = .refreshed))
        let s' := { s with
          db := if evident then landEvidence db id evidence else db
          landed := s.landed ++ landed }
        match status with
        | .foreign => .ok (s', .skipped "another instance's record holds this id here")
        | .stale | .unchanged => .ok (s', .stale)
        | _ => .ok (s', .accepted)

/-! ## Retractions -/

/-- Whether a copy that has ended is left as it ended: an erasure still applies to one that is not
erased, and any retraction to one that lapsed. -/
def endedAlready (row : ClassRow I J) (reason : String) (lapsed : Bool) : Bool :=
  row.tombstoneReason.any fun held =>
    (decide (reason ≠ erasureReason) || decide (held = erasureReason)) && !lapsed

/-- Applies a peer's retraction of one of its records. -/
def applyRetraction (registry : Registry I J) (peer : String) (s : Inbox I J)
    (entry : Retraction I) (now : Iso8601) : Except WriteError (Inbox I J × InboxOutcome) :=
  let s' := if entry.reason = erasureReason then
      { s with facts := recordErasure s.facts entry.canonicalId now.instant peer }
    else s
  match entry.recordClass with
  | none => .ok (s', .skipped "a observation is not tombstoned")
  | some cls =>
    match (s.db.rows cls).get entry.recordId with
    | none => .ok (s', .stale)
    | some row =>
      if row.instanceId ≠ peer then .ok (s', .skipped "the record is not the peer's")
      else if entry.reason ≠ erasureReason ∧ (entry.revision.any fun r => decide (r < row.revision))
          then .ok (s', .stale)
      else if endedAlready row entry.reason (isLapsedCopy s cls entry.recordId) then
        .ok (s', .stale)
      else
        match tombstoneRecords registry s.db cls [entry.recordId] entry.reason
            ⟨now, true, entry.revision.filter fun r => decide (row.revision ≤ r)⟩ with
        | .error e => .error e
        | .ok db => .ok ({ s' with db := db }, .tombstoned)

/-! ## Steps -/

/-- One thing that happens to the copies. -/
inductive InboxEvent (W I : Type) where
  /-- An entry is delivered, by a page that is pushed or pulled. -/
  | deliver (item : OutboxItem W I) (now : Iso8601) (evidence : Option RecomputedEvidence)
  /-- Live copies are ended here; `lapse` when that is for their peer's silence. -/
  | endHere (cls : RevisionedClass) (ids : List I) (reason : String) (now : Iso8601) (lapse : Bool)

/-- Delivers one entry. -/
def deliverItem {registry : Registry I J} {peer : String} (admission : Admission W registry peer)
    (localInstanceId : String) (s : Inbox I J) (item : OutboxItem W I) (now : Iso8601)
    (evidence : Option RecomputedEvidence) : Except WriteError (Inbox I J × InboxOutcome) :=
  match item with
  | .change wire => landRecord admission localInstanceId s wire now evidence
  | .retraction entry => applyRetraction registry peer s entry now

/-- Notes the copies the sweep just ended for their peer's silence. -/
def recordLapsedCopies (db : Db I J) (cls : RevisionedClass) (ids : List I)
    (lapsed : OrderedMap (RevisionedClass × I) ℕ) : OrderedMap (RevisionedClass × I) ℕ :=
  (heldRows (db.rows cls) ids).foldl (fun m h => m.set (cls, h.1) h.2.revision) lapsed

/-- Ends live copies here. -/
def endHere (registry : Registry I J) (s : Inbox I J) (cls : RevisionedClass) (ids : List I)
    (reason : String) (now : Iso8601) (lapse : Bool) : Except WriteError (Inbox I J) :=
  (tombstoneRecords registry s.db cls ids reason ⟨now, false, none⟩).map fun db =>
    { s with
      db := db
      lapsed := if lapse then recordLapsedCopies db cls ids s.lapsed else s.lapsed }

/-- One step.  A delivery that throws rejects its page, which the peer sends again; the sweep and a
decision end live copies only. -/
def inboxStep {registry : Registry I J} {peer : String} (admission : Admission W registry peer)
    (localInstanceId : String) (s : Inbox I J) : InboxEvent W I → Option (Inbox I J)
  | .deliver item now evidence =>
    ((deliverItem admission localInstanceId s item now evidence).map Prod.fst).toOption
  | .endHere cls ids reason now lapse =>
    if (heldRows (s.db.rows cls) ids).all fun h => h.2.tombstoneReason.isNone then
      (endHere registry s cls ids reason now lapse).toOption
    else none

/-! ## Copies -/

/-- The local copy of a record: what it is and says, whatever it says of its expiry, its revision,
and how it ended, if it did. -/
structure Copy (I J : Type) where
  head : RecordHead I J
  statement : Option (Statement J)
  instanceId : String
  revision : ℕ
  reason : Option String
  deriving DecidableEq

/-- The copy a row holds. -/
def copyOf (row : ClassRow I J) : Copy I J where
  head := row.record.head
  statement := row.record.statement.map fun st => { st with expiresAt := none }
  instanceId := row.instanceId
  revision := row.revision
  reason := row.tombstoneReason

/-- The copy of an id. -/
def Inbox.copy (s : Inbox I J) (cls : RevisionedClass) (id : I) : Option (Copy I J) :=
  ((s.db.rows cls).get id).map copyOf

/-- Every copy is as it was. -/
def SameCopies (s s' : Inbox I J) : Prop := ∀ cls id, s'.copy cls id = s.copy cls id

end OpenConditions.Federation

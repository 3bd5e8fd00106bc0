import OpenConditions.Storage.WriteRecords

set_option relaxedAutoImplicit false
set_option autoImplicit false

/-!
# Writing one record

The write of one record, `writeRecordIn` of `packages/storage/src/write-record.ts`: a draft that
is sealed here, or a record its own instance sealed.  Observations go to their series and are not
part of it.

## Main definitions

* `writeDraft`, `writeStored` — the two kinds of input.
* `storedVerdict` — what is done with a record another instance sealed.
* `writeRecordIn` — the write.
-/

namespace OpenConditions.Storage

variable {I J : Type} [DecidableEq I]

/-- One record to write on its own. -/
inductive RecordInput (I J : Type) where
  | draft (draft : RawRecord I J)
  | stored (stored : RawRecord I J)

/-- The record of an input. -/
def RecordInput.raw : RecordInput I J → RawRecord I J
  | .draft raw => raw
  | .stored raw => raw

/-- How a write of one record ended. -/
inductive WriteStatus where
  | created | updated | restored | unchanged | refreshed | stale | foreign
  deriving DecidableEq, Repr

/-- What a write of one record returns. -/
inductive WriteRecordResult (I : Type) where
  | done (status : WriteStatus) (cls : RevisionedClass) (id : I) (revision : ℕ)
  | rejected (cls : Option RevisionedClass) (id : Option I) (issues : List ValidationIssue)
  deriving DecidableEq

/-- The status of a record that is stored over what its id holds. -/
def statusOver (existing : Option (ClassRow I J)) : WriteStatus :=
  match existing with
  | none => .created
  | some row => if row.tombstonedAt.isSome then .restored else .updated

/-- Stores a sealed record with a revision row. -/
def storeRevision (registry : Registry I J) (now : Instant) (db : Db I J) (cls : RevisionedClass)
    (existing : Option (ClassRow I J)) (sealed : SealedRecord I J) :
    Except WriteError (Db I J × WriteRecordResult I) :=
  let status := statusOver existing
  let changeKinds :=
    if status = .updated then
      registry.computeChangeKinds (existing.map fun row => row.record) sealed.toStored
    else ["created"]
  match storeRecords registry now db cls [sealed] with
  | .error e => .error e
  | .ok db₁ =>
    let rows := if historyEligible sealed.head then [revisionRow sealed.toStored changeKinds] else []
    match insertRevisions db₁ cls rows with
    | .error e => .error e
    | .ok db₂ => .ok (db₂, .done status cls sealed.head.id sealed.revision)

/-- Writes a draft that is sealed here. -/
def writeDraft (registry : Registry I J) (db : Db I J) (cls : RevisionedClass)
    (draft : RawRecord I J) (instanceId : String) (now : Iso8601) :
    Except WriteError (Db I J × WriteRecordResult I) :=
  let existing := draft.id.bind (db.rows cls).get
  match registry.contentHash draft with
  | .error message => .ok (db, .rejected (some cls) draft.id (customIssue message))
  | .ok hash =>
    match existing, draft.id with
    | some row, some id =>
      if unchangedOwn row hash instanceId then
        let moved := if draft.expiresAt.map Iso8601.instant ≠ row.expiresAt then
          [(id, draft.expiresAt)] else []
        .ok (refreshExpiries db cls moved, .done .unchanged cls id row.revision)
      else
        match registry.sealRecord draft ⟨instanceId, row.revision + 1, now⟩ with
        | .error issues => .ok (db, .rejected (some cls) draft.id issues)
        | .ok sealed => storeRevision registry now.instant db cls existing sealed
    | _, _ =>
      match registry.sealRecord draft ⟨instanceId, 1, now⟩ with
      | .error issues => .ok (db, .rejected (some cls) draft.id issues)
      | .ok sealed => storeRevision registry now.instant db cls existing sealed

/-- What is done with a record another instance sealed. -/
inductive StoredVerdict where
  /-- Another instance's record holds its id. -/
  | foreign
  /-- It is no newer than the stored one, or the stored one was ended by a decision. -/
  | stale
  /-- It moves the expiry of the live record at its revision. -/
  | refresh
  /-- It makes the record that ended at its revision live again. -/
  | restore
  /-- It is newer than the stored record, or none is stored. -/
  | store
  deriving DecidableEq, Repr

/-- Weighs a record another instance sealed against the row of its id. -/
def storedVerdict (now : Instant) (existing : Option (ClassRow I J)) (sealed : SealedRecord I J) :
    StoredVerdict :=
  match existing with
  | none => .store
  | some row =>
    let expiry := sealed.statement.expiresAt.map Iso8601.instant
    if row.instanceId ≠ sealed.head.provenance.instanceId then .foreign
    else if row.tombstoneReason.any fun reason => decide (reason ∈ decidedTombstoneReasons) then
      .stale
    else if row.revision < sealed.revision then .store
    else if row.revision = sealed.revision then
      if expiry ≠ row.record.expiryOf ∧ row.tombstonedAt.isNone then .refresh
      else if expiry ≠ row.record.expiryOf ∧ row.tombstoneReason = some "expired" ∧
          sealed.tombstone.isNone ∧ expiry.all (fun e => decide (now < e)) = true then .restore
      else if row.tombstoneReason = some "withdrawn" ∧ sealed.tombstone.isNone then .restore
      else .stale
    else .stale

/-- Writes a record its own instance sealed. -/
def writeStored (registry : Registry I J) (db : Db I J) (cls : RevisionedClass)
    (stored : RawRecord I J) (now : Iso8601) :
    Except WriteError (Db I J × WriteRecordResult I) :=
  let existing := stored.id.bind (db.rows cls).get
  match registry.validate stored with
  | .error issues => .ok (db, .rejected (some cls) stored.id issues)
  | .ok sealed =>
    let revision := (existing.map fun row => row.revision).getD sealed.revision
    match storedVerdict now.instant existing sealed with
    | .foreign => .ok (db, .done .foreign cls sealed.head.id revision)
    | .stale => .ok (db, .done .stale cls sealed.head.id revision)
    | .refresh =>
      .ok (refreshExpiries db cls [(sealed.head.id, sealed.statement.expiresAt)],
        .done .refreshed cls sealed.head.id revision)
    | .restore =>
      match storeRecords registry now.instant db cls [sealed] with
      | .error e => .error e
      | .ok db₁ => .ok (db₁, .done .restored cls sealed.head.id revision)
    | .store => storeRevision registry now.instant db cls existing sealed

/-- Writes one record, in the caller's transaction. -/
def writeRecordIn (registry : Registry I J) (db : Db I J) (input : RecordInput I J)
    (instanceId : String) (now : Iso8601) : Except WriteError (Db I J × WriteRecordResult I) :=
  match input.raw.cls with
  | none => .ok (db, .rejected none input.raw.id [⟨["class"], "custom", "not a record class"⟩])
  | some cls =>
    match input with
    | .draft draft => writeDraft registry db cls draft instanceId now
    | .stored stored => writeStored registry db cls stored now

/-! ## Plain records

A model package for runs on fixed inputs: it seals a record as its id, its source and its text,
and knows the records it validates by their text. -/

/-- A plain record: a live feature that says one text. -/
def plainRecord (id sourceId accessMode instanceId : String) (revision : ℕ) (recordedAt : Iso8601)
    (text : String) : SealedRecord String String where
  head :=
    { id := id, cls := .feature, kind := "plain", type := none, domain := "plain"
      temporality := "live", canonicalId := id
      provenance :=
        { origin := "feed", sourceId := sourceId, sourceFormat := "json", accessMode := accessMode
          recordId := id, instanceId := instanceId, attribution := "", upstream := none
          originChain := none, privacyClass := "authoritative", privacy := "", other := none } }
  statement :=
    { subtype := none, contentHash := text, fetchedAt := recordedAt, expiresAt := none
      geometry := none, country := none, subdivision := none, own := .feature "operational"
      body := text }
  revision := revision
  recordedAt := recordedAt
  tombstone := none

/-- Whether a record arrived as one that is known. -/
def arrivesAs (raw : RawRecord String String) (r : SealedRecord String String) : Bool :=
  decide (raw.id = some r.head.id ∧ raw.cls = some r.head.cls ∧
    raw.sourceId = some r.head.provenance.sourceId ∧ raw.value = r.statement.body ∧
    0 < r.revision)

/-- A known record as it arrives. -/
def SealedRecord.raw (r : SealedRecord String String) : RawRecord String String :=
  ⟨some r.head.cls, some r.head.id, some r.head.provenance.sourceId, r.statement.expiresAt,
    r.statement.body⟩

/-- A draft whose text names its access mode, sealed. -/
def sealPlain (draft : RawRecord String String) (opts : SealOptions) :
    Except (List ValidationIssue) (SealedRecord String String) :=
  match draft.cls, draft.id, draft.sourceId with
  | some .feature, some id, some sourceId =>
    .ok (plainRecord id sourceId draft.value opts.instanceId opts.revision opts.recordedAt
      draft.value)
  | _, _, _ => .error []

/-- A sealed draft is the plain record of its fields. -/
theorem sealPlain_eq_ok {draft : RawRecord String String} {opts : SealOptions}
    {r : SealedRecord String String} (h : sealPlain draft opts = .ok r) :
    ∃ id sourceId, draft.cls = some .feature ∧ draft.id = some id ∧
      draft.sourceId = some sourceId ∧
      r = plainRecord id sourceId draft.value opts.instanceId opts.revision opts.recordedAt
        draft.value := by
  unfold sealPlain at h
  split at h
  · rename_i id sourceId hcls hid hsource
    exact ⟨id, sourceId, hcls, hid, hsource, (Except.ok.inj h).symm⟩
  · cases h

/-- A known record, as it arrives. -/
def validatePlain (known : List (SealedRecord String String)) (raw : RawRecord String String) :
    Except (List ValidationIssue) (SealedRecord String String) :=
  match known.find? (arrivesAs raw) with
  | some r => .ok r
  | none => .error []

/-- A validated record is the known one that arrived. -/
theorem arrivesAs_of_validatePlain {known : List (SealedRecord String String)}
    {raw : RawRecord String String} {r : SealedRecord String String}
    (h : validatePlain known raw = .ok r) : arrivesAs raw r = true := by
  unfold validatePlain at h
  split at h
  · rename_i hfind
    cases h
    exact List.find?_some hfind
  · cases h

/-- The model package of plain records that knows these records. -/
def plainRegistry (known : List (SealedRecord String String)) : Registry String String where
  wellFormed := id
  contentHash draft := .ok draft.value
  sealRecord := sealPlain
  validate := validatePlain known
  computeChangeKinds _ _ := ["content"]
  childRows _ := []
  seal_id draft opts r h := by
    obtain ⟨id, sourceId, -, hid, -, rfl⟩ := sealPlain_eq_ok h
    simp [hid, plainRecord]
  seal_cls draft opts r h := by
    obtain ⟨id, sourceId, hcls, -, -, rfl⟩ := sealPlain_eq_ok h
    exact hcls
  seal_source draft opts r h := by
    obtain ⟨id, sourceId, -, -, hsource, rfl⟩ := sealPlain_eq_ok h
    exact hsource
  seal_assigned draft opts r h := by
    obtain ⟨id, sourceId, -, -, -, rfl⟩ := sealPlain_eq_ok h
    exact ⟨rfl, rfl, rfl, rfl⟩
  validate_id raw r h := (of_decide_eq_true (arrivesAs_of_validatePlain h)).1
  validate_cls raw r h := (of_decide_eq_true (arrivesAs_of_validatePlain h)).2.1
  validate_source raw r h := (of_decide_eq_true (arrivesAs_of_validatePlain h)).2.2.1
  validate_revision raw r h := (of_decide_eq_true (arrivesAs_of_validatePlain h)).2.2.2.2

end OpenConditions.Storage

import Mathlib.Data.List.Forall2
import Mathlib.Data.Rat.Defs
import OpenConditions.Federation.Outbox
import OpenConditions.Federation.PublicRecords
import OpenConditions.Federation.Push
import OpenConditions.Lib.Instant

set_option relaxedAutoImplicit false
set_option autoImplicit false

/-!
# The subscriber's filter

The entries of the outbox and the filter a subscriber puts on them (`rowToEntry` of
`packages/federation/src/outbox.ts`, `applyRecordFilter` of `record-filter.ts`, `bbox.ts`).  They fill
in what the read of `Federation/Outbox.lean` and the pushes of `Federation/Push.lean` leave open.

## Main definitions

* `OutboxEntry` — an entry: a record's, or a source's liveness.
* `rowToEntry` — the entry of a journal row.
* `filterEntry` — an entry as a subscriber's filter passes it.
* `Withdraws` — an entry that withdraws its record.

## Main results

* `filterRecord_carrying` — the tests of a change, over the entry's columns and its record.
* `withdrawal_reaches` — a withdrawal passes every filter that passed the record before, as a delete,
  and tells nothing else.
-/

namespace OpenConditions.Federation

/-! ## Entries -/

/-- What an entry says of its record. -/
inductive RecordOperation where
  | create | update | delete
  deriving DecidableEq, Repr

/-- An entry of a record; a delete carries no record. -/
structure RecordEntry (δ : Type) where
  seq : ℕ
  txid : ℕ
  operation : RecordOperation
  recordClass : RecordClass
  recordId : String
  canonicalId : Option String
  kind : String
  domain : String
  property : Option String
  createdAt : String
  record : Option (FederatedRecord δ)
  absentOnDelete : operation = .delete → record = none
  tombstone : Bool
  reason : Option String
  revision : Option ℤ

/-- An entry saying that a source was polled. -/
structure LivenessEntry where
  seq : ℕ
  txid : ℕ
  sourceId : String
  domain : String
  polledAt : String
  cadenceSec : Option ℚ
  createdAt : String
  deriving DecidableEq

/-- A change with the record it carries. -/
def RecordEntry.carrying {δ : Type} (entry : RecordEntry δ) (record : FederatedRecord δ)
    (h : entry.operation ≠ .delete) : RecordEntry δ :=
  { entry with record := some record, absentOnDelete := fun hdelete => absurd hdelete h }

/-- One entry of an outbox page. -/
inductive OutboxEntry (δ : Type) where
  | record (entry : RecordEntry δ)
  | liveness (entry : LivenessEntry)

/-- The texts of instants: what a text is read as, in epoch milliseconds, and the text of an
instant. -/
structure DateOps where
  parse : String → Option ℤ
  toISOString : Instant → String

/-- What the journal keeps of a change. -/
inductive Snapshot (δ : Type) where
  | record (record : FederatedRecord δ)
  | liveness (polledAt : Instant) (cadenceSec : Option ℚ)

/-- The columns of a journal row, with what is joined of its source. -/
structure RowContent (δ : Type) where
  recordClass : RecordClass
  recordId : String
  canonicalId : Option String
  kind : String
  domain : String
  property : Option String
  snapshot : Option (Snapshot δ)
  tombstoneReason : Option String
  revision : Option ℤ
  extrasFederate : Option Bool
  restricted : Option Bool

section Rows

variable {δ : Type} (ops : DateOps)

/-- The entry of a row with a snapshot, or of a delete. -/
def RowContent.entry (row : JournalRow (RowContent δ)) (operation : RecordOperation)
    (record : Option (FederatedRecord δ)) (h : operation = .delete → record = none)
    (tombstone : Bool) (reason : Option String) (revision : Option ℤ) : OutboxEntry δ :=
  .record
    { seq := row.seq
      txid := row.txid
      operation := operation
      recordClass := row.content.recordClass
      recordId := row.content.recordId
      canonicalId := row.content.canonicalId
      kind := row.content.kind
      domain := row.content.domain
      property := row.content.property
      createdAt := ops.toISOString row.createdAt
      record := record
      absentOnDelete := h
      tombstone := tombstone
      reason := reason
      revision := revision }

/-- The record of a row that says its record was created or updated. -/
def RowContent.federated (content : RowContent δ) : Option (FederatedRecord δ) :=
  match content.snapshot with
  | some (.record record) =>
    if content.restricted = some true then none
    else federatedSnapshot record (decide (content.extrasFederate = some true))
  | some (.liveness _ _) => none
  | none => none

/-- The wire entry of a journal row, none for a record the outbox never carries. -/
def rowToEntry (row : JournalRow (RowContent δ)) : Option (OutboxEntry δ) :=
  match row.operation with
  | .liveness =>
    match row.content.snapshot with
    | some (.liveness polledAt cadenceSec) =>
      if row.content.restricted = some false then
        some (.liveness ⟨row.seq, row.txid, row.content.recordId, row.content.domain,
          ops.toISOString polledAt, cadenceSec, ops.toISOString row.createdAt⟩)
      else none
    | some (.record _) => none
    | none => none
  | .delete =>
    some (RowContent.entry ops row .delete none (fun _ => rfl) true row.content.tombstoneReason
      row.content.revision)
  | .create =>
    row.content.federated.map fun record =>
      RowContent.entry ops row .create (some record) (fun h => RecordOperation.noConfusion h) false
        none none
  | .update =>
    row.content.federated.map fun record =>
      RowContent.entry ops row .update (some record) (fun h => RecordOperation.noConfusion h) false
        none none

end Rows

/-! ## The filter -/

/-- A box: west, south, east, north. -/
structure Bbox where
  west : ℚ
  south : ℚ
  east : ℚ
  north : ℚ
  deriving DecidableEq

/-- What a subscriber asks for. -/
structure RecordFilter where
  bbox : Option Bbox
  classes : Option (List RecordClass)
  kinds : Option (List String)
  domains : Option (List String)
  properties : Option (List String)
  privacyClasses : Option (List String)
  minEvidenceTier : Option String
  maxAgeSec : Option ℚ
  sourceLiveness : Option Bool

/-- The evidence tiers a subscriber can ask for, weakest first. -/
def evidenceTiers : List String := ["self_reported", "corroborated", "externally_resolved"]

/-- Crowd records reach a subscriber once corroborated, unless it asks for less. -/
def defaultMinEvidenceTier : String := "corroborated"

/-- Crowd states that withdraw a report. -/
def withdrawnStates : List String := ["negated", "expired"]

/-- The rank of a tier. -/
def tierRank (tier : String) : Option ℕ := evidenceTiers.findIdx? fun t => decide (t = tier)

/-- The least rank a filter asks for. -/
def minRank (filter : Option RecordFilter) : ℕ :=
  ((tierRank ((filter.bind RecordFilter.minEvidenceTier).getD defaultMinEvidenceTier)).or
    (tierRank defaultMinEvidenceTier)).getD 0

/-- The box around some positions and a box before them. -/
def bboxOfPositions (positions : List Position) (acc : Option Bbox) : Option Bbox :=
  positions.foldl
    (fun acc p =>
      match acc with
      | none => some ⟨p.1, p.2, p.1, p.2⟩
      | some b => some ⟨min b.west p.1, min b.south p.2, max b.east p.1, max b.north p.2⟩)
    acc

mutual

/-- The box around a geometry and a box before it. -/
def collectBbox : Geometry → Option Bbox → Option Bbox
  | .point coordinates, acc => bboxOfPositions [coordinates] acc
  | .multiPoint coordinates, acc => bboxOfPositions coordinates acc
  | .lineString coordinates, acc => bboxOfPositions coordinates acc
  | .multiLineString coordinates, acc =>
    coordinates.foldl (fun acc ring => bboxOfPositions ring acc) acc
  | .polygon coordinates, acc => coordinates.foldl (fun acc ring => bboxOfPositions ring acc) acc
  | .multiPolygon coordinates, acc =>
    coordinates.foldl (fun acc polygon =>
      polygon.foldl (fun acc ring => bboxOfPositions ring acc) acc) acc
  | .collection geometries, acc => collectBboxes geometries acc

/-- The box around some geometries and a box before them. -/
def collectBboxes : List Geometry → Option Bbox → Option Bbox
  | [], acc => acc
  | geometry :: geometries, acc => collectBboxes geometries (collectBbox geometry acc)

end

/-- Bounding-box intersection. -/
def intersectsBbox (geometry : Geometry) (bbox : Bbox) : Bool :=
  match collectBbox geometry none with
  | none => false
  | some b =>
    decide (bbox.west ≤ b.east) && decide (b.west ≤ bbox.east) && decide (bbox.south ≤ b.north) &&
      decide (b.south ≤ bbox.north)

section Filter

variable {δ : Type} (ops : DateOps)

/-- When a record was last stated. -/
def statedAt (record : FederatedRecord δ) : Option ℤ :=
  match record.phenomenonTime with
  | some (.instant instant) => ops.parse instant
  | some (.interval start _) => ops.parse start
  | none => ops.parse (record.provenance.sourceUpdatedAt.getD record.fetchedAt)

/-- Whether a record is the crowd's. -/
def isCrowd (record : FederatedRecord δ) : Bool :=
  decide (record.provenance.origin = "crowd") ||
    decide (record.provenance.privacyClass = "crowd_pseudonym")

/-- Whether a record is the crowd's and withdrawn. -/
def isWithdrawn (record : FederatedRecord δ) : Bool :=
  isCrowd record && withdrawnStates.contains (record.evidenceState.getD "")

/-- Whether a subscriber is served a source's liveness. -/
def wantsLiveness (entry : LivenessEntry) (filter : Option RecordFilter) : Bool :=
  decide (filter.bind RecordFilter.sourceLiveness = some true) &&
    (filter.bind RecordFilter.classes).all (fun classes => classes.contains .observation) &&
    (filter.bind RecordFilter.domains).all fun domains => domains.contains entry.domain

/-- Whether the filter admits an entry's class, domain, and kind or property. -/
def admitsEntry (filter : Option RecordFilter) (entry : RecordEntry δ) : Bool :=
  (filter.bind RecordFilter.classes).all (fun classes => classes.contains entry.recordClass) &&
    (filter.bind RecordFilter.domains).all (fun domains => domains.contains entry.domain) &&
    (!((filter.bind RecordFilter.kinds).isSome || (filter.bind RecordFilter.properties).isSome) ||
      if entry.recordClass = .observation then
        (filter.bind RecordFilter.properties).any fun properties =>
          properties.contains (entry.property.getD "")
      else (filter.bind RecordFilter.kinds).any fun kinds => kinds.contains entry.kind)

/-- Whether a crowd record has the evidence the filter asks for. -/
def reachesTier (filter : Option RecordFilter) (record : FederatedRecord δ) : Bool :=
  !isCrowd record || (tierRank (record.evidenceState.getD "")).any fun rank =>
    decide (minRank filter ≤ rank)

/-- Whether a record was stated within the filter's age; a reading counts from its journalling. -/
def withinAge (filter : Option RecordFilter) (nowMs : Option ℤ) (entry : RecordEntry δ)
    (record : FederatedRecord δ) : Bool :=
  (filter.bind RecordFilter.maxAgeSec).all fun maxAgeSec =>
    let time :=
      if entry.recordClass = .observation then
        (statedAt ops record).bind fun stated => (ops.parse entry.createdAt).map (max stated)
      else statedAt ops record
    match time with
    | none => false
    | some time => nowMs.all fun now => decide (((now - time : ℤ) : ℚ) ≤ maxAgeSec * 1000)

/-- Whether a record is in the filter's box. -/
def withinBbox (filter : Option RecordFilter) (record : FederatedRecord δ) : Bool :=
  (filter.bind RecordFilter.bbox).all fun bbox =>
    match record.geometry with
    | none => false
    | some geometry => intersectsBbox geometry bbox

/-- Whether the filter admits a record's privacy class. -/
def admitsPrivacy (filter : Option RecordFilter) (record : FederatedRecord δ) : Bool :=
  (filter.bind RecordFilter.privacyClasses).all fun classes =>
    classes.contains record.provenance.privacyClass

/-- The retraction that a report the crowd withdrew goes out as. -/
def RecordEntry.withdrawal (entry : RecordEntry δ) (record : FederatedRecord δ) : RecordEntry δ :=
  { entry with
    operation := .delete
    record := none
    absentOnDelete := fun _ => rfl
    tombstone := true
    reason := some (if record.evidenceState = some "expired" then "expired" else "withdrawn")
    revision := record.revision.or entry.revision }

/-- An entry of a record as the filter passes it. -/
def filterRecord (filter : Option RecordFilter) (nowMs : Option ℤ) (entry : RecordEntry δ) :
    Option (RecordEntry δ) :=
  match entry.record with
  | none => some entry
  | some record =>
    if h : entry.operation = .delete then some entry
    else if !admitsEntry filter entry then none
    else if isWithdrawn record then some (entry.withdrawal record)
    else if !reachesTier filter record then none
    else if !withinAge ops filter nowMs entry record then none
    else if !withinBbox filter record then none
    else if !admitsPrivacy filter record then none
    else
      -- Federation is always public scope.
      (publicRecords [record]).head?.map fun exported => entry.carrying exported h

/-- **An entry as a subscriber's filter passes it**, none where it drops it; `clock` is the time of a
read that names none. -/
def filterEntry (clock : String) (filter : Option RecordFilter) (now : Option String) :
    OutboxEntry δ → Option (OutboxEntry δ)
  | .liveness entry => if wantsLiveness entry filter then some (.liveness entry) else none
  | .record entry => (filterRecord ops filter (ops.parse (now.getD clock)) entry).map .record

end Filter

/-! ## Withdrawals -/

section Withdrawals

variable {δ : Type} {ops : DateOps} {clock : String} {filter : Option RecordFilter}
  {entry out : RecordEntry δ} {record : FederatedRecord δ} {nowMs : Option ℤ}

/-- An entry withdraws its record: it is a delete, or a crowd record whose evidence is negated or
expired. -/
def Withdraws (entry : RecordEntry δ) : Prop :=
  entry.operation = .delete ∨ ∃ record, entry.record = some record ∧ isWithdrawn record = true

/-- Whether a filter admits an entry is told by the columns of the journal. -/
theorem admitsEntry_congr {entry' : RecordEntry δ} (hclass : entry'.recordClass = entry.recordClass)
    (hkind : entry'.kind = entry.kind) (hdomain : entry'.domain = entry.domain)
    (hproperty : entry'.property = entry.property) :
    admitsEntry filter entry' = admitsEntry filter entry := by
  unfold admitsEntry
  rw [hclass, hkind, hdomain, hproperty]

/-- A record that the filter passed was one it admits. -/
theorem admitsEntry_of_filterRecord (h : filterRecord ops filter nowMs entry = some out)
    (hout : out.record = some record) : admitsEntry filter entry = true := by
  unfold filterRecord at h
  cases hrecord : entry.record with
  | none =>
    rw [hrecord] at h
    obtain rfl := Option.some.inj h
    exact absurd (hrecord.symm.trans hout) (by simp)
  | some own =>
    rw [hrecord] at h
    simp only at h
    split_ifs at h with hdelete hadmits
    · exact absurd ((entry.absentOnDelete hdelete).symm.trans hrecord) (by simp)
    · simpa using hadmits
    all_goals simpa using hadmits

/-- **A withdrawal that the filter admits passes as a delete**, without content. -/
theorem filterRecord_of_withdraws (hwithdraws : Withdraws entry)
    (hadmits : admitsEntry filter entry = true) :
    ∃ out, filterRecord ops filter nowMs entry = some out ∧ out.operation = .delete ∧
      out.record = none ∧ out.recordId = entry.recordId := by
  unfold filterRecord
  cases hrecord : entry.record with
  | none =>
    rcases hwithdraws with hdelete | ⟨own, hown, -⟩
    · exact ⟨entry, rfl, hdelete, hrecord, rfl⟩
    · exact absurd (hrecord.symm.trans hown) (by simp)
  | some own =>
    have hdelete : entry.operation ≠ .delete := fun hdelete =>
      absurd ((entry.absentOnDelete hdelete).symm.trans hrecord) (by simp)
    have hwithdrawn : isWithdrawn own = true := by
      rcases hwithdraws with h | ⟨own', hown, hwithdrawn⟩
      · exact absurd h hdelete
      · obtain rfl := Option.some.inj (hrecord.symm.trans hown)
        exact hwithdrawn
    simp only [hdelete, hadmits, hwithdrawn, Bool.not_true, Bool.false_eq_true, if_false, if_true,
      dite_false]
    exact ⟨_, rfl, rfl, rfl, rfl⟩

/-- An entry that passes is of the same record. -/
theorem recordId_of_filterRecord (h : filterRecord ops filter nowMs entry = some out) :
    out.recordId = entry.recordId := by
  unfold filterRecord at h
  cases hrecord : entry.record with
  | none =>
    rw [hrecord] at h
    obtain rfl := Option.some.inj h
    rfl
  | some own =>
    rw [hrecord] at h
    simp only at h
    split_ifs at h with hdelete hadmits hwithdrawn
    · obtain rfl := Option.some.inj h
      rfl
    · obtain rfl := Option.some.inj h
      rfl
    · obtain ⟨exported, -, rfl⟩ := Option.map_eq_some_iff.mp h
      rfl

/-- A change as the filter passes it: its tests read the entry's columns and the record. -/
theorem filterRecord_carrying (hop : entry.operation ≠ .delete) :
    filterRecord ops filter nowMs (entry.carrying record hop) =
      if !admitsEntry filter entry then none
      else if isWithdrawn record then some (entry.withdrawal record)
      else if !reachesTier filter record then none
      else if !withinAge ops filter nowMs entry record then none
      else if !withinBbox filter record then none
      else if !admitsPrivacy filter record then none
      else (publicRecords [record]).head?.map fun exported => entry.carrying exported hop := by
  have hcarried : (entry.carrying record hop).operation ≠ .delete := hop
  have hrecord : (entry.carrying record hop).record = some record := rfl
  unfold filterRecord
  rw [hrecord]
  simp only
  rw [dif_neg hcarried]
  rfl

/-- What a withdrawn report goes out as does not depend on its content. -/
theorem filterRecord_withdrawn {record' : FederatedRecord δ} (hop : entry.operation ≠ .delete)
    (hrecord : isWithdrawn record = true) (hrecord' : isWithdrawn record' = true)
    (hstate : record.evidenceState = record'.evidenceState)
    (hrevision : record.revision = record'.revision) :
    filterRecord ops filter nowMs (entry.carrying record hop) =
      filterRecord ops filter nowMs (entry.carrying record' hop) := by
  rw [filterRecord_carrying, filterRecord_carrying, if_pos hrecord, if_pos hrecord']
  unfold RecordEntry.withdrawal
  rw [hstate, hrevision]

/-! ## Journals read page by page -/

/-- A page as it is read: the instant of the read and the entries. -/
structure ReadPage (δ : Type) where
  now : String
  entries : List (OutboxEntry δ)

/-- The pages of a journal as a subscriber's filter passes them. -/
def readPages (ops : DateOps) (clock : String) (filter : Option RecordFilter)
    (pages : List (ReadPage δ)) : List (List (OutboxEntry δ)) :=
  pages.map fun page => applyRecordFilter (filterEntry ops clock) page.entries filter (some page.now)

/-- The entries of a journal, each with the instant it is read at. -/
def readings (pages : List (ReadPage δ)) : List (String × OutboxEntry δ) :=
  pages.flatMap fun page => page.entries.map fun entry => (page.now, entry)

/-- What is passed of a journal, entry by entry. -/
theorem flatten_readPages (pages : List (ReadPage δ)) :
    (readPages ops clock filter pages).flatten =
      (readings pages).filterMap fun reading =>
        filterEntry ops clock filter (some reading.1) reading.2 := by
  induction pages with
  | nil => rfl
  | cons page pages ih =>
    have hpage : (page.entries.map fun entry => (page.now, entry)).filterMap (fun reading =>
        filterEntry ops clock filter (some reading.1) reading.2) =
        applyRecordFilter (filterEntry ops clock) page.entries filter (some page.now) :=
      List.filterMap_map
    simp only [readings, readPages, List.flatMap_cons, List.filterMap_append, List.map_cons,
      List.flatten_cons] at ih ⊢
    rw [hpage, ← ih]

/-- A journal is of one record: of one class, kind, domain and property. -/
def OneRecord (pages : List (ReadPage δ)) : Prop :=
  ∃ recordClass recordId kind domain property, ∀ now entry, (now, .record entry) ∈ readings pages →
    entry.recordClass = recordClass ∧ entry.recordId = recordId ∧ entry.kind = kind ∧
      entry.domain = domain ∧ entry.property = property

/-- Two entries are the same but for the content of a withdrawn report. -/
inductive SameButWithdrawn : OutboxEntry δ → OutboxEntry δ → Prop
  | same (entry : OutboxEntry δ) : SameButWithdrawn entry entry
  | withdrawn (entry : RecordEntry δ) (hop : entry.operation ≠ .delete)
      (record record' : FederatedRecord δ) : isWithdrawn record = true →
      isWithdrawn record' = true → record.evidenceState = record'.evidenceState →
      record.revision = record'.revision →
      SameButWithdrawn (.record (entry.carrying record hop)) (.record (entry.carrying record' hop))

/-- Two pages are the same but for the content of withdrawn reports. -/
def SamePage (page page' : ReadPage δ) : Prop :=
  page.now = page'.now ∧ List.Forall₂ SameButWithdrawn page.entries page'.entries

/-- Two such entries are passed as the same. -/
theorem SameButWithdrawn.passed {e e' : OutboxEntry δ} (h : SameButWithdrawn e e')
    (now : Option String) :
    filterEntry ops clock filter now e = filterEntry ops clock filter now e' := by
  cases h with
  | same => rfl
  | withdrawn entry hop record record' hrecord hrecord' hstate hrevision =>
    unfold filterEntry
    simp only
    rw [filterRecord_withdrawn hop hrecord hrecord' hstate hrevision]

/-- Two such pages are passed as the same. -/
theorem SamePage.passed {page page' : ReadPage δ} (h : SamePage page page') :
    applyRecordFilter (filterEntry ops clock) page.entries filter (some page.now) =
      applyRecordFilter (filterEntry ops clock) page'.entries filter (some page'.now) := by
  obtain ⟨hnow, hentries⟩ := h
  rw [hnow]
  unfold applyRecordFilter
  generalize page.entries = entries, page'.entries = entries' at hentries
  induction hentries with
  | nil => rfl
  | cons hentry _ ih => rw [List.filterMap_cons, List.filterMap_cons, hentry.passed, ih]

/-- **A withdrawal reaches every subscriber that may hold the record, and tells it nothing else.** Of
every journal of one record, read page by page under any filter: after an entry that passed with the
record's content, every entry that withdraws it passes as a delete without content; and of two
journals that differ only in the content of withdrawn reports the same is passed. -/
theorem withdrawal_reaches (ops : DateOps) (clock : String) (filter : Option RecordFilter)
    (pages : List (ReadPage δ)) :
    (OneRecord pages → ∀ before now entry between now' entry' after,
      readings pages =
        before ++ (now, .record entry) :: (between ++ (now', .record entry') :: after) →
      ∀ out record, filterEntry ops clock filter (some now) (.record entry) = some (.record out) →
      out.record = some record → Withdraws entry' →
      ∃ out', filterEntry ops clock filter (some now') (.record entry') = some (.record out') ∧
        out'.operation = .delete ∧ out'.record = none ∧ out'.recordId = out.recordId) ∧
    ∀ pages', List.Forall₂ SamePage pages pages' →
      readPages ops clock filter pages = readPages ops clock filter pages' := by
  constructor
  · rintro ⟨recordClass, recordId, kind, domain, property, hone⟩ before now entry between now'
      entry' after hreadings out record hpassed hout hwithdraws
    have hof := hone now entry (by rw [hreadings]; simp)
    have hof' := hone now' entry' (by rw [hreadings]; simp)
    obtain ⟨out₀, hout₀, heq⟩ := Option.map_eq_some_iff.mp hpassed
    obtain rfl := OutboxEntry.record.inj heq
    have hadmits : admitsEntry filter entry' = true := by
      rw [admitsEntry_congr (hof'.1.trans hof.1.symm) (hof'.2.2.1.trans hof.2.2.1.symm)
        (hof'.2.2.2.1.trans hof.2.2.2.1.symm) (hof'.2.2.2.2.trans hof.2.2.2.2.symm)]
      exact admitsEntry_of_filterRecord hout₀ hout
    obtain ⟨out', hout', hdelete, hnone, hid⟩ := filterRecord_of_withdraws hwithdraws hadmits
    refine ⟨out', congrArg (Option.map OutboxEntry.record) hout', hdelete, hnone, ?_⟩
    rw [hid, hof'.2.1, recordId_of_filterRecord hout₀, hof.2.1]
  · intro pages' hpages
    unfold readPages
    induction hpages with
    | nil => rfl
    | cons hpage _ ih => rw [List.map_cons, List.map_cons, hpage.passed, ih]

/-- A closure that the crowd reported, with evidence of a state. -/
def crowdClosure (state : String) : FederatedRecord Unit :=
  { id := "oc:situation:crowd:1"
    cls := .situation
    revision := some 1
    kind := "closure"
    domain := "roads"
    property := none
    geometry := some (.point (49 / 10, 5237 / 100))
    provenance :=
      ⟨"CC0-1.0", none, none, by simp, some (), "crowd", "crowd", "bulk", none, "crowd_pseudonym", ()⟩
    fetchedAt := "2026-10-03T12:00:00.000Z"
    evidenceState := some state
    phenomenonTime := none
    extras := none
    details := () }

/-- Its entry. -/
def crowdEntry (seq : ℕ) (operation : RecordOperation) (state : String)
    (h : operation ≠ .delete) : RecordEntry Unit :=
  { seq := seq
    txid := 1000
    operation := operation
    recordClass := .situation
    recordId := "oc:situation:crowd:1"
    canonicalId := none
    kind := "closure"
    domain := "roads"
    property := none
    createdAt := "2026-10-03T12:00:00.000Z"
    record := some (crowdClosure state)
    absentOnDelete := fun hdelete => absurd hdelete h
    tombstone := false
    reason := none
    revision := none }

/-- The texts of two instants. -/
def sampleDates : DateOps where
  parse text :=
    if text = "2026-10-03T12:00:00.000Z" then some 1791028800000
    else if text = "2026-10-03T12:05:00.000Z" then some 1791029100000
    else none
  toISOString instant :=
    if instant.ms = 1791028800000 then "2026-10-03T12:00:00.000Z" else "2026-10-03T12:05:00.000Z"

/-- A corroborated report, and the crowd's negation of it: a subscriber of situations gets a delete. -/
theorem withdrawal_reaches_negated :
    ∃ out', filterEntry sampleDates "2026-10-03T12:05:00.000Z" none
        (some "2026-10-03T12:05:00.000Z") (.record (crowdEntry 2 .update "negated" (by decide))) =
        some (.record out') ∧
      out'.operation = .delete ∧ out'.record = none := by
  have h := (withdrawal_reaches sampleDates "2026-10-03T12:05:00.000Z" none
    [⟨"2026-10-03T12:00:00.000Z", [.record (crowdEntry 1 .create "corroborated" (by decide))]⟩,
      ⟨"2026-10-03T12:05:00.000Z", [.record (crowdEntry 2 .update "negated" (by decide))]⟩]).1
  have hone : OneRecord
      [⟨"2026-10-03T12:00:00.000Z", [.record (crowdEntry 1 .create "corroborated" (by decide))]⟩,
        ⟨"2026-10-03T12:05:00.000Z", [.record (crowdEntry 2 .update "negated" (by decide))]⟩] := by
    refine ⟨.situation, "oc:situation:crowd:1", "closure", "roads", none, fun now entry hentry => ?_⟩
    simp only [readings, List.flatMap_cons, List.map_cons, List.map_nil, List.flatMap_nil,
      List.append_nil, List.singleton_append, List.mem_cons, List.not_mem_nil, or_false,
      Prod.mk.injEq, OutboxEntry.record.injEq] at hentry
    rcases hentry with ⟨-, rfl⟩ | ⟨-, rfl⟩ <;> exact ⟨rfl, rfl, rfl, rfl, rfl⟩
  have hpassed : ((filterRecord sampleDates none (sampleDates.parse "2026-10-03T12:00:00.000Z")
      (crowdEntry 1 .create "corroborated" (by decide))).bind RecordEntry.record).isSome = true := by
    decide
  obtain ⟨record, hrecord⟩ := Option.isSome_iff_exists.mp hpassed
  obtain ⟨out, hout, hcontent⟩ := Option.bind_eq_some_iff.mp hrecord
  obtain ⟨out', hout', hdelete, hnone, -⟩ := h hone [] _ _ [] _ _ [] rfl out record
    (congrArg (Option.map OutboxEntry.record) hout) hcontent
    (Or.inr ⟨crowdClosure "negated", rfl, by decide⟩)
  exact ⟨out', hout', hdelete, hnone⟩

end Withdrawals

end OpenConditions.Federation

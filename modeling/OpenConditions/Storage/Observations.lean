import OpenConditions.Storage.LatestCache
import Mathlib.Data.List.Sort
import Mathlib.Logic.Function.Basic

set_option relaxedAutoImplicit false
set_option autoImplicit false

/-!
# Writing observations

How a source's readings are written (`writeSeries` of
`packages/storage/src/write-observations.ts`): each series' readings are compared with its latest
row, the newest that changes it moves the row, and readings are kept as history as their property
says.  With a cache, a series whose one reading the cache shows unchanged is checked against its row
rather than compared (`cachedUnchanged`).

`J` is the type of JSON values, equal when their canonical texts are, and `H` of digests.  The
drafts are valid, so that sealing one adds derived fields only.

## Main definitions

* `Observation`, `LatestRow`, `ObservationDb` — readings, and the tables.
* `compareSeries`, `rowsOf` — what a series' readings change.
* `cachedUnchanged` — the series that the cache shows unchanged.
* `writeSeries` — the write.
-/

namespace OpenConditions.Storage

/-! ## Readings -/

/-- What the content hash of a reading covers. -/
structure ObservationContent (J : Type) where
  id : String
  key : SeriesKey
  featureId : Option String
  componentKey : Option String
  start : Instant
  issuedAt : Option Instant
  result : J
  baseline : Option J
  validUntil : Option J
  origin : String
  accessMode : String
  attribution : J
  upstream : Option J
  /-- What its series template holds beside. -/
  template : J
  /-- What its reading holds beside. -/
  rest : J
  deriving DecidableEq

/-- A reading, with the derived fields that its content hash leaves out. -/
structure Observation (J : Type) where
  content : ObservationContent J
  mergedSources : Option J
  expiresAt : Option Instant
  derived : J
  deriving DecidableEq

/-- The credit of a reading. -/
structure Credit (J : Type) where
  attribution : J
  upstream : Option J
  mergedSources : Option J
  deriving DecidableEq

/-- What every reading of a series shares. -/
structure SeriesTemplate (J : Type) where
  key : SeriesKey
  featureId : Option String
  componentKey : Option String
  origin : String
  accessMode : String
  credit : Credit J
  template : J
  deriving DecidableEq

section Readings

variable {J : Type}

/-- The credit a reading is compared by. -/
def creditProvenance (o : Observation J) : Credit J :=
  ⟨o.content.attribution, o.content.upstream, o.mergedSources⟩

/-- The template of a reading's series. -/
def templateOf (o : Observation J) : SeriesTemplate J :=
  ⟨o.content.key, o.content.featureId, o.content.componentKey, o.content.origin,
    o.content.accessMode, creditProvenance o, o.content.template⟩

end Readings

/-- A collision-free digest. -/
structure Digest (T H : Type) where
  of : T → H
  injective : Function.Injective of

/-- The digests of a write. -/
structure Digests (J H : Type) where
  content : Digest (ObservationContent J) H
  template : Digest (SeriesTemplate J) H
  /-- Of a result, an attribution, upstream publishers and a baseline. -/
  restated : Digest (J × J × Option J × Option J) H

/-- What a property keeps. -/
structure PropertyEntry where
  changeOnly : Bool
  latestOnly : Bool
  rawDays : Option ℕ
  /-- It states that components keep no history. -/
  noComponentHistory : Bool
  rollupPeriod : Option String
  deriving DecidableEq, Repr

/-- How many days of raw readings a property keeps; zero keeps all, and none no history. -/
def retentionDaysOf (entry : PropertyEntry) : Option ℕ :=
  if entry.latestOnly then none else some (entry.rawDays.getD 0)

/-- What a write learns from its poll. -/
structure ObservationContext (J : Type) where
  property : String → PropertyEntry
  changedFeatures : List String
  /-- The poll's evidence is captured. -/
  acquired : Bool
  /-- Whether the partitions of a retention class hold a reading of an instant. -/
  covers : ℕ → Instant → Bool
  /-- How far each rollup period is finalized. -/
  frontiers : String → Option Instant
  /-- The derived fields of a sealed record, from the draft's. -/
  sealedFields : J → J
  /-- The receipt of a source's credit. -/
  receiptOf : String → Credit J → String
  /-- The poll a history row names, of a reading kept for some days. -/
  pollOf : ℕ → J → J
  /-- Whether a history row that is sent again says nothing new. -/
  sameHistory : Observation J → Observation J → Bool
  now : J

/-! ## The tables -/

/-- A latest row. -/
structure LatestRow (J : Type) where
  seriesId : ℕ
  /-- The reading in effect and its template. -/
  record : Observation J
  sinceAt : Instant
  contributorReceiptId : Option String
  retentionDays : Option ℕ
  updatedAt : J
  deriving DecidableEq

/-- The key of a row's series. -/
def LatestRow.key {J : Type} (row : LatestRow J) : SeriesKey := row.record.content.key

/-- The latest rows, one to a series key. -/
structure LatestTable (J : Type) where
  rows : OrderedMap SeriesKey (LatestRow J)
  /-- The key columns of a row are its record's. -/
  keyed : ∀ key row, rows.get key = some row → row.key = key

/-- What identifies a history row. -/
structure HistoryKey where
  seriesId : ℕ
  start : Instant
  issuedAt : Option Instant
  retentionDays : ℕ
  deriving DecidableEq, Repr

/-- A history row. -/
structure HistoryRow (J : Type) where
  record : Observation J
  poll : J
  deriving DecidableEq

/-- The tables a write changes, and the next series id. -/
structure ObservationDb (J : Type) where
  latest : LatestTable J
  history : OrderedMap HistoryKey (HistoryRow J)
  nextSeriesId : ℕ

section Tables

variable {J : Type}

/-- Writes a row under its series key. -/
def LatestTable.put (table : LatestTable J) (row : LatestRow J) : LatestTable J where
  rows := table.rows.set row.key row
  keyed key r h := by
    rw [OrderedMap.get_set] at h
    by_cases hk : key = row.key
    · rw [if_pos hk, Option.some_inj] at h
      rw [← h, hk]
    · rw [if_neg hk] at h
      exact table.keyed key r h

/-- Changes what identifies no series of each row. -/
def LatestTable.update (table : LatestTable J) (f : LatestRow J → LatestRow J)
    (hf : ∀ row, (f row).key = row.key) : LatestTable J where
  rows := table.rows.mapValues fun _ row => f row
  keyed key r h := by
    rw [OrderedMap.get_mapValues, Option.map_eq_some_iff] at h
    obtain ⟨row, hrow, rfl⟩ := h
    rw [hf, table.keyed key row hrow]

/-- The reading in effect states another expiry. -/
def LatestRow.setExpiry (row : LatestRow J) (expiresAt : Option Instant) : LatestRow J :=
  { row with record := { row.record with expiresAt := expiresAt } }

end Tables

section Write

variable {J H : Type} [DecidableEq J] [DecidableEq H] (D : Digests J H)
  (ctx : ObservationContext J)

/-- The hash of a reading's content. -/
def contentHash (o : Observation J) : H := D.content.of o.content

/-- A bulk feed's reading of a change-only property holds while its source polls. -/
def validWhilePolled (o : Observation J) : Bool :=
  decide (o.content.origin = "feed" ∧ o.content.accessMode = "bulk") &&
    (ctx.property o.content.key.property).changeOnly

/-- Seals a draft. -/
def sealDraft (draft : Observation J) : Observation J :=
  { draft with derived := ctx.sealedFields draft.derived }

/-- One series of a write and the drafts of its readings. -/
structure PendingSeries (J : Type) where
  key : SeriesKey
  drafts : List (Observation J)
  deriving DecidableEq

/-- A draft as it is written: its source's polling, read with it, is how long a polled reading
holds. -/
def withoutValidity (input : Observation J) : Observation J :=
  if validWhilePolled ctx input then
    { input with content := { input.content with validUntil := none } }
  else input

/-- Adds a draft to its series. -/
def addPending (pending : OrderedMap SeriesKey (List (Observation J))) (input : Observation J) :
    OrderedMap SeriesKey (List (Observation J)) :=
  let draft := withoutValidity ctx input
  pending.set draft.content.key ((pending.get draft.content.key).getD [] ++ [draft])

/-- The series of some drafts, in the order they are first stated. -/
def pendingOf (drafts : List (Observation J)) : List (PendingSeries J) :=
  (drafts.foldl (addPending ctx) .empty).entries.map fun e => ⟨e.1, e.2⟩

/-! ## Comparing -/

/-- A series' latest row, as a write loads it. -/
structure Latest (J H : Type) where
  seriesId : ℕ
  effectiveFrom : Instant
  sinceAt : Instant
  result : J
  contentHash : H
  templateHash : H
  creditProvenance : Credit J
  baseline : Option J
  contributorReceiptId : Option String
  expiresAt : Option Instant
  ended : Bool

/-- The credit of a loaded row: the incoming record's when the templates match, else the stored
template's. -/
def loadedCredit (series : PendingSeries J) (row : LatestRow J) : Credit J :=
  match series.drafts.head? with
  | some draft =>
    if D.template.of (templateOf row.record) = D.template.of (templateOf (sealDraft ctx draft)) then
      creditProvenance (sealDraft ctx draft)
    else creditProvenance row.record
  | none => creditProvenance row.record

/-- Loads the latest row of a series. -/
def loadLatest (db : ObservationDb J) (series : PendingSeries J) : Option (Latest J H) :=
  (db.latest.rows.get series.key).map fun row =>
    { seriesId := row.seriesId
      effectiveFrom := row.record.content.start
      sinceAt := row.sinceAt
      result := row.record.content.result
      contentHash := contentHash D row.record
      templateHash := D.template.of (templateOf row.record)
      creditProvenance := loadedCredit D ctx series row
      baseline := row.record.content.baseline
      contributorReceiptId := row.contributorReceiptId
      expiresAt := row.record.expiresAt
      ended := row.record.content.validUntil.isSome }

/-- The reading in effect while a series' drafts are compared. -/
structure InEffect (J H : Type) where
  result : Option J
  hash : Option H
  /-- None is before all instants. -/
  since : Option Instant
  provenance : Option (Credit J)
  baseline : Option J
  /-- It is still the stored one. -/
  isHeld : Bool

/-- What comparing a series finds. -/
structure Compared (J H : Type) where
  inEffect : InEffect J H
  unchanged : ℕ
  /-- Stored readings of before receipts that the poll acquired. -/
  legacy : List (ℕ × H × String)
  /-- The expiry the source now states. -/
  moved : Option (ℕ × Option Instant)
  records : List (Observation J)

/-- A series is written anew: a complete poll ended it, or this poll changed its site. -/
def isRenewed (held : Option (Latest J H)) (polled : Bool) (series : PendingSeries J) : Bool :=
  polled && held.any fun h =>
    h.ended || series.drafts.head?.any fun first =>
      first.content.featureId.any fun featureId => decide (featureId ∈ ctx.changedFeatures)

/-- The reading in effect before a series' drafts are compared. -/
def inEffectOf (held : Option (Latest J H)) (renewed : Bool) : InEffect J H :=
  match held with
  | some h =>
    if renewed then ⟨none, none, none, none, none, false⟩
    else ⟨some h.result, some h.contentHash, some h.effectiveFrom, some h.creditProvenance,
      h.baseline, true⟩
  | none => ⟨none, none, none, none, none, false⟩

/-- A reading restates the one in effect. -/
def isRestated (polled : Bool) (inEffect : InEffect J H) (draft : Observation J) : Bool :=
  polled && decide (draft.content.validUntil = none ∧ inEffect.result = some draft.content.result ∧
    inEffect.provenance = some (creditProvenance draft) ∧
    inEffect.baseline = draft.content.baseline)

/-- A reading is older than the state in effect. -/
def isSuperseded (held : Option (Latest J H)) (polled renewed : Bool) (draft : Observation J) :
    Bool :=
  polled && !renewed && held.any fun h => decide (draft.content.start < h.effectiveFrom)

/-- Compares one draft of a series. -/
def compareDraft (held : Option (Latest J H)) (polled renewed : Bool) (st : Compared J H)
    (draft : Observation J) : Compared J H :=
  let hash := contentHash D draft
  let superseded := isSuperseded held polled renewed draft
  if st.inEffect.hash = some hash ∨ isRestated polled st.inEffect draft ∨ superseded then
    { st with
      unchanged := st.unchanged + 1
      legacy := st.legacy ++
        match held with
        | some h =>
          if ctx.acquired ∧ h.contributorReceiptId = none ∧ !superseded then
            [(h.seriesId, h.contentHash,
              ctx.receiptOf draft.content.key.sourceId (creditProvenance draft))]
          else []
        | none => []
      moved :=
        match held with
        | some h =>
          -- A reading fetched again keeps its row; only the expiry its source now states moves.
          if (h.contentHash = hash ∨ st.inEffect.isHeld) ∧ draft.expiresAt ≠ h.expiresAt then
            some (h.seriesId, draft.expiresAt)
          else st.moved
        | none => st.moved }
  else
    let record := sealDraft ctx draft
    { st with
      inEffect :=
        if st.inEffect.since.all fun since => decide (since ≤ draft.content.start) then
          ⟨some draft.content.result, some hash, some draft.content.start,
            some (creditProvenance record), record.content.baseline, false⟩
        else st.inEffect
      records := st.records ++ [record] }

/-- The drafts of a series in the order they are compared: a polled series' by their starts. -/
def comparedDrafts (series : PendingSeries J) : List (Observation J) :=
  if series.drafts.head?.any (validWhilePolled ctx) then
    series.drafts.insertionSort fun a b => a.content.start ≤ b.content.start
  else series.drafts

/-- Compares the drafts of a series with its latest row. -/
def compareSeries (held : Option (Latest J H)) (series : PendingSeries J) : Compared J H :=
  let polled := series.drafts.head?.any (validWhilePolled ctx)
  let renewed := isRenewed ctx held polled series
  (comparedDrafts ctx series).foldl (compareDraft D ctx held polled renewed)
    ⟨inEffectOf held renewed, 0, [], none, []⟩

/-! ## Rows -/

/-- A history row to be written, by its series. -/
structure HistoryItem (J : Type) where
  key : SeriesKey
  retentionDays : ℕ
  row : HistoryRow J

/-- The rows of a series. -/
structure SeriesRows (J : Type) where
  retentionDays : Option ℕ
  result : Option J
  credit : Option (Credit J)
  since : Option Instant
  /-- The reading the latest row takes, and since when its result holds. -/
  newest : Option (Observation J × Instant)
  history : List (HistoryItem J)
  outsideRetention : ℕ
  pastRollup : ℕ

/-- How long a series' readings are kept. -/
def keptDays (record : Observation J) : Option ℕ :=
  let property := ctx.property record.content.key.property
  if record.content.componentKey.isSome && property.noComponentHistory then none
  else retentionDaysOf property

/-- Adds the rows of one record of a series. -/
def addRecord (held : Option (Latest J H)) (key : SeriesKey) (st : SeriesRows J)
    (record : Observation J) : SeriesRows J :=
  let property := ctx.property record.content.key.property
  let changed := decide (st.result ≠ some record.content.result)
  let creditChanged := decide (st.credit ≠ some (creditProvenance record))
  let start := record.content.start
  let since := if changed then some start else st.since
  let newest :=
    if held.all fun h => decide (h.effectiveFrom ≤ start) then
      some (record, since.getD start)
    else st.newest
  let st := { st with
    result := some record.content.result
    credit := some (creditProvenance record)
    since := since
    newest := newest }
  match st.retentionDays with
  | none => st
  | some days =>
    if record.content.accessMode ≠ "on_demand" ∧
        (changed ∨ creditChanged ∨ !property.changeOnly) then
      if ctx.covers days start then
        { st with
          pastRollup := st.pastRollup +
            if (property.rollupPeriod.bind ctx.frontiers).any fun frontier =>
              decide (start < frontier) then 1 else 0
          history := st.history ++ [⟨key, days, ⟨record, ctx.pollOf days record.derived⟩⟩] }
      else { st with outsideRetention := st.outsideRetention + 1 }
    else st

/-- The rows of the records a series takes, in the order of their starts. -/
def rowsOf (held : Option (Latest J H)) (key : SeriesKey) (records : List (Observation J)) :
    SeriesRows J :=
  let sorted := records.insertionSort fun a b => a.content.start ≤ b.content.start
  sorted.foldl (addRecord ctx held key)
    ⟨sorted.head?.bind (keptDays ctx), held.map Latest.result, held.map Latest.creditProvenance,
      held.map Latest.sinceAt, none, [], 0, 0⟩

/-- A latest row to be written: a series whose template did not change has its id. -/
structure SeriesRow (J : Type) where
  seriesId : Option ℕ
  record : Observation J
  sinceAt : Instant
  retentionDays : Option ℕ

/-- What a series' readings change. -/
structure SeriesOutcome (J H : Type) where
  unchanged : ℕ
  legacy : List (ℕ × H × String)
  moved : List (ℕ × Option Instant)
  rows : List (SeriesRow J)
  history : List (HistoryItem J)
  outsideRetention : ℕ
  pastRollup : ℕ

/-- What the readings of a series change. -/
def outcomeOf (db : ObservationDb J) (series : PendingSeries J) : SeriesOutcome J H :=
  let held := loadLatest D ctx db series
  let compared := compareSeries D ctx held series
  let rows := rowsOf ctx held series.key compared.records
  { unchanged := compared.unchanged
    legacy := compared.legacy
    moved := compared.moved.toList
    rows := rows.newest.toList.map fun newest =>
      { seriesId := held.bind fun h =>
          if h.templateHash = D.template.of (templateOf newest.1) then some h.seriesId else none
        record := newest.1
        sinceAt := newest.2
        retentionDays := rows.retentionDays }
    history := rows.history
    outsideRetention := rows.outsideRetention
    pastRollup := rows.pastRollup }

/-! ## Statements -/

/-- What a write counts. -/
structure ObservationCounts where
  latest : ℕ
  history : ℕ
  unchanged : ℕ
  outsideRetention : ℕ
  pastRollup : ℕ
  deriving DecidableEq, Repr

/-- A stored reading of before receipts takes the one it is found in. -/
def withReceipt (legacy : List (ℕ × H × String)) (row : LatestRow J) : LatestRow J :=
  match legacy.find? fun l => decide (l.1 = row.seriesId ∧ l.2.1 = contentHash D row.record) with
  | some l =>
    if row.contributorReceiptId = none then { row with contributorReceiptId := some l.2.2 }
    else row
  | none => row

/-- A stored reading takes the expiry it is found in. -/
def withExpiry (moved : List (ℕ × Option Instant)) (row : LatestRow J) : LatestRow J :=
  match moved.find? fun m => decide (m.1 = row.seriesId) with
  | some m => row.setExpiry m.2
  | none => row

omit [DecidableEq J] in
/-- Receipts are no part of a row's key. -/
theorem key_withReceipt (legacy : List (ℕ × H × String)) (row : LatestRow J) :
    (withReceipt D legacy row).key = row.key := by
  unfold withReceipt
  split
  · split <;> rfl
  · rfl

omit [DecidableEq J] in
/-- Expiries are no part of a row's key. -/
theorem key_withExpiry (moved : List (ℕ × Option Instant)) (row : LatestRow J) :
    (withExpiry moved row).key = row.key := by
  unfold withExpiry
  split <;> rfl

/-- Writes one latest row: an insert takes a series id, also where the series keeps its own. -/
def putSeriesRow (db : ObservationDb J) (row : SeriesRow J) : ObservationDb J :=
  let stored := (db.latest.rows.get row.record.content.key).map LatestRow.seriesId
  { db with
    nextSeriesId := if row.seriesId.isSome then db.nextSeriesId else db.nextSeriesId + 1
    latest := db.latest.put
      { seriesId := (row.seriesId.orElse fun _ => stored).getD db.nextSeriesId
        record := row.record
        sinceAt := row.sinceAt
        contributorReceiptId :=
          some (ctx.receiptOf row.record.content.key.sourceId (creditProvenance row.record))
        retentionDays := row.retentionDays
        updatedAt := ctx.now } }

/-- The history rows of a write by what identifies them: a reading repeated in one poll keeps its
last copy. -/
def historyOf (db : ObservationDb J) (items : List (HistoryItem J)) :
    OrderedMap HistoryKey (HistoryRow J) :=
  items.foldl (fun rows item =>
    match db.latest.rows.get item.key with
    | some row =>
      rows.set ⟨row.seriesId, item.row.record.content.start, item.row.record.content.issuedAt,
        item.retentionDays⟩ item.row
    | none => rows) .empty

/-- Writes one history row, unless the stored one says the same, and counts it. -/
def putHistory (st : OrderedMap HistoryKey (HistoryRow J) × ℕ)
    (item : HistoryKey × HistoryRow J) : OrderedMap HistoryKey (HistoryRow J) × ℕ :=
  if (st.1.get item.1).any fun old => ctx.sameHistory old.record item.2.record then st
  else (st.1.set item.1 item.2, st.2 + 1)

/-- The statements of a write. -/
def applyOutcomes (db : ObservationDb J) (outcomes : List (SeriesOutcome J H)) :
    ObservationDb J × ObservationCounts :=
  let latest := db.latest.update (withReceipt D (outcomes.flatMap SeriesOutcome.legacy))
    (key_withReceipt D _)
  let latest := latest.update (withExpiry (outcomes.flatMap SeriesOutcome.moved))
    (key_withExpiry _)
  let db := { db with latest := latest }
  let rows := outcomes.flatMap SeriesOutcome.rows
  -- The series whose template did not change are written first.
  let db := (rows.filter fun r => r.seriesId.isSome).foldl (putSeriesRow ctx) db
  let db := (rows.filter fun r => r.seriesId.isNone).foldl (putSeriesRow ctx) db
  let history := (historyOf db (outcomes.flatMap SeriesOutcome.history)).entries.foldl
    (putHistory ctx) (db.history, 0)
  ({ db with history := history.1 },
    { latest := rows.length
      history := history.2
      unchanged := (outcomes.map SeriesOutcome.unchanged).sum
      outsideRetention := (outcomes.map SeriesOutcome.outsideRetention).sum
      pastRollup := (outcomes.map SeriesOutcome.pastRollup).sum })

/-! ## The cache -/

/-- The digest of what a reading restating a polled series' reading in effect has the same. -/
def restatesDigest (result : J) (credit : Credit J) (baseline : Option J) : H :=
  D.restated.of (result, credit.attribution, credit.upstream, baseline)

/-- Whether a series' entry shows its one reading unchanged. -/
def entryHolds (entry : LatestEntry H) (draft : Observation J) : Bool :=
  decide (draft.expiresAt = entry.expiresAt) &&
    if validWhilePolled ctx draft then
      !(entry.ended || entry.restates.isNone ||
          draft.content.featureId.any fun featureId => decide (featureId ∈ ctx.changedFeatures)) &&
        (decide (contentHash D draft = entry.contentHash) ||
          decide (draft.content.start < entry.effectiveFrom) ||
          (draft.content.validUntil.isNone &&
            decide (entry.restates = some (restatesDigest D draft.content.result
              (creditProvenance draft) draft.content.baseline))))
    else decide (contentHash D draft = entry.contentHash)

/-- Whether a row still holds what an entry says. -/
def rowHolds (db : ObservationDb J) (entry : LatestEntry H) : Bool :=
  db.latest.rows.entries.any fun r =>
    decide (r.2.seriesId = entry.seriesId ∧ contentHash D r.2.record = entry.contentHash ∧
      r.2.record.expiresAt = entry.expiresAt ∧
      ¬(ctx.acquired = true ∧ r.2.contributorReceiptId = none))

/-- Whether the cache shows that a series' one reading changes nothing. -/
def cachedUnchanged (db : ObservationDb J) (cache : LatestCacheWrite H)
    (series : PendingSeries J) : Bool :=
  match cache.get series.key, series.drafts with
  | some entry, [draft] => entryHolds D ctx entry draft && rowHolds D ctx db entry
  | _, _ => false

/-- What a write learns of a series it has compared: `db` is as it was, `db'` as it is left. -/
def learn (db db' : ObservationDb J) (cache : LatestCacheWrite H) (series : PendingSeries J) :
    LatestCacheWrite H :=
  let held : Option (Latest J H) := loadLatest D ctx db series
  let compared := compareSeries D ctx held series
  let polled := (comparedDrafts ctx series).head?.any (validWhilePolled ctx)
  match (rowsOf ctx held series.key compared.records).newest, held with
  | some (newest, _), _ =>
    match db'.latest.rows.get series.key with
    | some row =>
      if polled || (cache.get series.key).isSome then
        cache.set series.key
          { seriesId := row.seriesId
            contentHash := contentHash D newest
            restates :=
              if polled then
                some (restatesDigest D newest.content.result (creditProvenance newest)
                  newest.content.baseline)
              else none
            effectiveFrom := newest.content.start
            expiresAt := newest.expiresAt
            ended := newest.content.validUntil.isSome }
      else cache
    | none => if (cache.get series.key).isSome then cache.delete series.key else cache
  | none, some h =>
    cache.set series.key
      { seriesId := h.seriesId
        contentHash := h.contentHash
        restates :=
          if polled then some (restatesDigest D h.result h.creditProvenance h.baseline) else none
        effectiveFrom := h.effectiveFrom
        expiresAt :=
          match compared.moved with
          | some m => m.2
          | none => h.expiresAt
        ended := h.ended }
  | none, none => if (cache.get series.key).isSome then cache.delete series.key else cache

/-! ## The write -/

/-- Writes the readings of a slice of a source's series: the tables, the counts, and what the cache
learns. -/
def writeSeries (db : ObservationDb J) (cache : Option (LatestCacheWrite H))
    (slice : List (PendingSeries J)) :
    ObservationDb J × ObservationCounts × Option (LatestCacheWrite H) :=
  let cached := slice.filter fun s => cache.any fun c => cachedUnchanged D ctx db c s
  let looked := slice.filter fun s => !cache.any fun c => cachedUnchanged D ctx db c s
  let (db', counts) := applyOutcomes D ctx db (looked.map (outcomeOf D ctx db))
  (db', { counts with unchanged := counts.unchanged + cached.length },
    cache.map fun c =>
      looked.foldl (learn D ctx db db') ((cached.map PendingSeries.key).foldl .see c))

end Write

end OpenConditions.Storage

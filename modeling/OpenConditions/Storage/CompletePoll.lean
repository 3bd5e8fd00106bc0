import OpenConditions.Storage.Observations

set_option relaxedAutoImplicit false
set_option autoImplicit false

/-!
# A poll that states every series

The readings of a poll are written in slices of its series (`writeObservationsIn` of
`packages/storage/src/write-observations.ts`).  A poll that states every change-only reading of its
source then ends the series it did not state (`endUnstatedSeries`), unless it states fewer than half
of them and no sequence of polls has confirmed that (`packages/storage/src/shrink.ts`).

Readings of transient properties, which are never change-only, are left out.

## Main definitions

* `writeObservationsIn` — the write of a poll's readings.
* `noteShrink`, `clearShrink` — the shrinks that polls have stated.
* `endUnstatedSeries` — ends what the poll did not state.
* `completePoll` — the write and the ending.
-/

namespace OpenConditions.Storage

/-! ## Slices -/

/-- How many series a write compares and writes at a time. -/
def seriesPerSlice : ℕ := 1000

section Slices

variable {α : Type}

/-- Adds a series to the slice under way. -/
def addToSlice (st : List (List α) × List α) (series : α) : List (List α) × List α :=
  let slice := st.2 ++ [series]
  if slice.length = seriesPerSlice then (st.1 ++ [slice], []) else (st.1, slice)

/-- The slices of a write. -/
def slicesOf (pending : List α) : List (List α) :=
  let st := pending.foldl addToSlice ([], [])
  if 0 < st.2.length then st.1 ++ [st.2] else st.1

/-- The slices hold every series, in order. -/
theorem flatten_slicesOf (pending : List α) : (slicesOf pending).flatten = pending := by
  have hfold : ∀ (rest : List α) (st : List (List α) × List α),
      (rest.foldl addToSlice st).1.flatten ++ (rest.foldl addToSlice st).2 =
        st.1.flatten ++ st.2 ++ rest := by
    intro rest
    induction rest with
    | nil => intro st; simp
    | cons series rest ih =>
      intro st
      rw [List.foldl_cons, ih]
      unfold addToSlice
      dsimp only
      split_ifs <;> simp
  have hall := hfold pending ([], [])
  simp only [List.flatten_nil, List.nil_append] at hall
  unfold slicesOf
  dsimp only
  split_ifs with hlast
  · rw [List.flatten_append, List.flatten_singleton, hall]
  · rw [List.eq_nil_of_length_eq_zero (Nat.eq_zero_of_not_pos hlast), List.append_nil] at hall
    exact hall

end Slices

/-- The counts of two writes. -/
def ObservationCounts.add (a b : ObservationCounts) : ObservationCounts :=
  ⟨a.latest + b.latest, a.history + b.history, a.unchanged + b.unchanged,
    a.outsideRetention + b.outsideRetention, a.pastRollup + b.pastRollup⟩

section Write

variable {J H : Type} [DecidableEq J] [DecidableEq H] (D : Digests J H)
  (ctx : ObservationContext J)

/-- Writes one slice after others. -/
def writeSlice (st : ObservationDb J × ObservationCounts × Option (LatestCacheWrite H))
    (slice : List (PendingSeries J)) :
    ObservationDb J × ObservationCounts × Option (LatestCacheWrite H) :=
  let written := writeSeries D ctx st.1 st.2.2 slice
  (written.1, st.2.1.add written.2.1, written.2.2)

/-- Writes a source's readings; those of another source are refused. -/
def writeObservationsIn (db : ObservationDb J) (cache : Option (LatestCacheWrite H))
    (sourceId : String) (drafts : List (Observation J)) :
    ObservationDb J × ObservationCounts × Option (LatestCacheWrite H) :=
  let own := drafts.filter fun draft => decide (draft.content.key.sourceId = sourceId)
  (slicesOf (pendingOf ctx own)).foldl (writeSlice D ctx) (db, ⟨0, 0, 0, 0, 0⟩, cache)

end Write

/-! ## Shrinks -/

/-- What shrank: a source's polled change-only series, or its record count. -/
inductive ShrinkScope where
  | series
  | records
  deriving DecidableEq, Repr

/-- A shrink that consecutive complete polls have stated. -/
structure Shrink where
  since : Instant
  polls : ℕ
  stated : ℕ
  held : ℕ
  deriving DecidableEq, Repr

/-- The pending shrinks, one to a source and scope. -/
abbrev ShrinkTable := OrderedMap (String × ShrinkScope) Shrink

/-- Consecutive complete polls that must state a shrink before it takes effect. -/
def shrinkConfirmPolls : ℕ := 3

/-- The least time from the first of those polls to the one the shrink takes effect at. -/
def shrinkConfirmSec : ℤ := 600

/-- Forgets a pending shrink of a source. -/
def clearShrink (table : ShrinkTable) (sourceId : String) (scope : ShrinkScope) : ShrinkTable :=
  table.delete (sourceId, scope)

/-- Notes a complete poll that states a shrink, and says whether it now takes effect. -/
def noteShrink (table : ShrinkTable) (sourceId : String) (scope : ShrinkScope) (stated held : ℕ)
    (now : Instant) : ShrinkTable × Bool :=
  let row : Shrink :=
    match table.get (sourceId, scope) with
    | some row => { row with polls := row.polls + 1, stated := stated, held := held }
    | none => ⟨now, 1, stated, held⟩
  let confirmed := decide (shrinkConfirmPolls ≤ row.polls ∧
    shrinkConfirmSec * 1000 ≤ now.ms - row.since.ms)
  let table := table.set (sourceId, scope) row
  (if confirmed then clearShrink table sourceId scope else table, confirmed)

/-! ## Ending -/

/-- What the ending of series reads and writes of a reading's JSON. -/
structure EndingContext (J : Type) where
  now : Instant
  /-- The template states the instances the reading came through. -/
  relayed : J → Bool
  /-- The derived fields of a reading that is ended, from those it had. -/
  endedFields : J → J

/-- What the ending of series leaves. -/
structure Ending (J : Type) where
  db : ObservationDb J
  shrinks : ShrinkTable
  /-- The feature and the property of each series that ended. -/
  ended : List (Option String × String)
  /-- How many series the shrink keeps from ending. -/
  withheld : ℕ

section Ending

variable {J H : Type} [DecidableEq J] [DecidableEq H] (D : Digests J H)
  (ctx : ObservationContext J) (ending : EndingContext J)

/-- A series of this instance's own poll of a source, of a change-only property. -/
def isOwnPolled (sourceId : String) (content : ObservationContent J) : Bool :=
  decide (content.key.sourceId = sourceId ∧ content.accessMode = "bulk" ∧
    content.origin = "feed") && (ctx.property content.key.property).changeOnly &&
      !ending.relayed content.template

/-- A series in effect that a complete poll should state. -/
def isHeldSeries (sourceId : String) (row : LatestRow J) : Bool :=
  isOwnPolled ctx ending sourceId row.record.content && row.record.content.validUntil.isNone

/-- The series that some drafts state. -/
def statedSeries (drafts : List (Observation J)) : List SeriesKey :=
  drafts.map fun draft => draft.content.key

/-- A series in effect that the poll did not state. -/
def isEnding (sourceId : String) (drafts : List (Observation J)) (row : LatestRow J) : Bool :=
  isHeldSeries ctx ending sourceId row && !decide (row.key ∈ statedSeries drafts)

/-- The reading in effect ends now. -/
def LatestRow.endNow (row : LatestRow J) : LatestRow J :=
  { row with
    record := { row.record with
      content := { row.record.content with validUntil := some ctx.now }
      derived := ending.endedFields row.record.derived }
    updatedAt := ctx.now }

/-- Ends the rows that are to end. -/
def endRows (sourceId : String) (drafts : List (Observation J)) (db : ObservationDb J) :
    ObservationDb J :=
  { db with
    latest := db.latest.update
      (fun row => if isEnding ctx ending sourceId drafts row then row.endNow ctx ending else row)
      fun row => by split <;> rfl }

/-- Ends the polled change-only series of a source that a poll stating all of them (`drafts`) did
not state. -/
def endUnstatedSeries (db : ObservationDb J) (shrinks : ShrinkTable) (sourceId : String)
    (drafts : List (Observation J)) : Ending J :=
  let rows := db.latest.rows.entries.map Prod.snd
  let held := rows.filter (isHeldSeries ctx ending sourceId)
  let gone := rows.filter (isEnding ctx ending sourceId drafts)
  let ended := gone.map fun row => (row.record.content.featureId, row.key.property)
  let stating := held.length - gone.length
  if gone.length = 0 ∨ held.length ≤ 2 * stating then
    let shrinks := clearShrink shrinks sourceId .series
    if gone.length = 0 then ⟨db, shrinks, [], 0⟩
    else ⟨endRows ctx ending sourceId drafts db, shrinks, ended, 0⟩
  else
    let noted := noteShrink shrinks sourceId .series stating held.length ending.now
    -- A poll stating fewer than half of the series is more likely cut off than half of them gone.
    if noted.2 then ⟨endRows ctx ending sourceId drafts db, noted.1, ended, 0⟩
    else ⟨db, noted.1, [], gone.length⟩

/-- A complete poll: its readings are written, and what it did not state ends. -/
def completePoll (db : ObservationDb J) (cache : Option (LatestCacheWrite H))
    (shrinks : ShrinkTable) (sourceId : String) (drafts : List (Observation J)) : Ending J :=
  endUnstatedSeries ctx ending (writeObservationsIn D ctx db cache sourceId drafts).1 shrinks
    sourceId drafts

end Ending

end OpenConditions.Storage

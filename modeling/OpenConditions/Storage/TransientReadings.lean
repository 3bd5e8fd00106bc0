import OpenConditions.Storage.LiveSeries

set_option relaxedAutoImplicit false
set_option autoImplicit false

/-!
# Readings of transient properties

A series of a transient property holds one reading of one instant (a satellite detection at a
place): a poll's later reading of a series stands for its earlier ones, and it is appended without
reading what is stored (`writeTransient` of `packages/storage/src/write-observations.ts`).  A whole
write takes these apart from the readings that are compared with their series.

## Main definitions

* `writeTransient` — the write of readings of transient properties.
* `writeReadingsIn` — the write of a source's readings, transient ones apart.
* `ObservationDb.readingAt` — the reading in effect of a series and since when its result holds.

## Main results

* `writeObservationsIn_cached` — the cache changes nothing for series that are not polled.
* `readingAt_writeTransient` — what a write makes of a transient series.
-/

namespace OpenConditions.Storage

section Transient

variable {J H : Type} [DecidableEq J] [DecidableEq H] (D : Digests J H)
  (ctx : ObservationContext J)

/-! ## The write -/

/-- Takes a reading of a transient property: a poll's later reading of a series stands for its
earlier ones, which are counted unchanged. -/
def addTransient (st : OrderedMap SeriesKey (Observation J) × ℕ) (input : Observation J) :
    OrderedMap SeriesKey (Observation J) × ℕ :=
  let draft := withoutValidity ctx input
  match st.1.get draft.content.key with
  | some earlier =>
    (if earlier.content.start ≤ draft.content.start then st.1.set draft.content.key draft else st.1,
      st.2 + 1)
  | none => (st.1.set draft.content.key draft, st.2)

/-- The readings of transient properties that a write takes, one to a series, and how many others
they stand for. -/
def transientOf (drafts : List (Observation J)) : OrderedMap SeriesKey (Observation J) × ℕ :=
  drafts.foldl (addTransient ctx) (.empty, 0)

/-- A reading of a transient property writes its series: none is stored, or an older one. -/
def movesTransient (db : ObservationDb J) (record : Observation J) : Bool :=
  (db.latest.rows.get record.content.key).all fun row =>
    decide (row.record.content.start < record.content.start)

/-- Inserts the row of a transient series: where it moves nothing, it has taken a series id all the
same. -/
def putTransient (db : ObservationDb J) (record : Observation J) : ObservationDb J :=
  if movesTransient db record then
    putSeriesRow ctx db ⟨none, record, record.content.start,
      retentionDaysOf (ctx.property record.content.key.property)⟩
  else { db with nextSeriesId := db.nextSeriesId + 1 }

/-- A stored reading of before receipts takes the one that it is acquired with again. -/
def withTransientReceipt (records : List (Observation J)) (row : LatestRow J) : LatestRow J :=
  match records.find? fun r =>
      decide (r.content.key = row.key ∧ contentHash D r = contentHash D row.record) with
  | some r =>
    if ctx.acquired = true ∧ row.contributorReceiptId = none then
      { row with
        contributorReceiptId := some (ctx.receiptOf r.content.key.sourceId (creditProvenance r)) }
    else row
  | none => row

omit [DecidableEq J] in
/-- A receipt changes the receipt only. -/
theorem withTransientReceipt_spec (records : List (Observation J)) (row : LatestRow J) :
    (withTransientReceipt D ctx records row).record = row.record ∧
      (withTransientReceipt D ctx records row).sinceAt = row.sinceAt := by
  unfold withTransientReceipt
  split
  · split <;> exact ⟨rfl, rfl⟩
  · exact ⟨rfl, rfl⟩

omit [DecidableEq J] in
/-- Receipts are no part of a row's key. -/
theorem key_withTransientReceipt (records : List (Observation J)) (row : LatestRow J) :
    (withTransientReceipt D ctx records row).key = row.key := by
  rw [LatestRow.key, (withTransientReceipt_spec D ctx records row).1, LatestRow.key]

/-- The history row of a reading of a transient property, where it has one. -/
def transientHistoryOf (record : Observation J) : Option (HistoryItem J) :=
  match retentionDaysOf (ctx.property record.content.key.property) with
  | none => none
  | some days =>
    if record.content.accessMode ≠ "on_demand" ∧ ctx.covers days record.content.start = true then
      some ⟨record.content.key, days, ⟨record, ctx.pollOf days record.derived⟩⟩
    else none

/-- A reading of a transient property that would have a history row, outside its retention. -/
def isOutsideRetention (record : Observation J) : Bool :=
  match retentionDaysOf (ctx.property record.content.key.property) with
  | none => false
  | some days =>
    decide (record.content.accessMode ≠ "on_demand") && !ctx.covers days record.content.start

/-- Writes one history row, unless there is one, and counts it. -/
def insertHistory (st : OrderedMap HistoryKey (HistoryRow J) × ℕ)
    (item : HistoryKey × HistoryRow J) : OrderedMap HistoryKey (HistoryRow J) × ℕ :=
  if st.1.has item.1 then st else (st.1.set item.1 item.2, st.2 + 1)

/-- Appends readings of transient properties, one to a series. -/
def writeTransient (db : ObservationDb J) (drafts : List (Observation J)) :
    ObservationDb J × ObservationCounts :=
  let records := drafts.map (sealDraft ctx)
  let written := records.filter (movesTransient db)
  let db := records.foldl (putTransient ctx) db
  let db := { db with
    latest := db.latest.update (withTransientReceipt D ctx records)
      (key_withTransientReceipt D ctx records) }
  -- Only a reading that wrote its series is new: one its series held has its history row.
  let history := (historyOf db (written.filterMap (transientHistoryOf ctx))).entries.foldl
    insertHistory (db.history, 0)
  ({ db with history := history.1 },
    { latest := written.length
      history := history.2
      unchanged := records.length - written.length
      outsideRetention := (records.filter (isOutsideRetention ctx)).length
      pastRollup := 0 })

/-- Writes a source's readings: those of transient properties are appended after the others. -/
def writeReadingsIn (transient : String → Bool) (db : ObservationDb J)
    (cache : Option (LatestCacheWrite H)) (sourceId : String) (drafts : List (Observation J)) :
    ObservationDb J × ObservationCounts × Option (LatestCacheWrite H) :=
  let own := drafts.filter fun draft => decide (draft.content.key.sourceId = sourceId)
  let isTransient := fun draft : Observation J => transient draft.content.key.property
  let written := writeObservationsIn D ctx db cache sourceId (own.filter fun d => !isTransient d)
  let taken := transientOf ctx (own.filter isTransient)
  let appended := writeTransient D ctx written.1 (taken.1.entries.map Prod.snd)
  (appended.1,
    (written.2.1.add appended.2).add ⟨0, 0, taken.2, 0, 0⟩, written.2.2)

/-! ## The reading in effect -/

/-- The reading in effect of a series, when it starts, and since when its result holds. -/
def ObservationDb.readingAt (db : ObservationDb J) (key : SeriesKey) :
    Option (Observation J × Instant × Instant) :=
  (db.latest.rows.get key).map fun row => (row.record, row.record.content.start, row.sinceAt)

variable {D ctx} {db : ObservationDb J}

omit [DecidableEq J] in
/-- What changes neither readings nor since when they hold. -/
theorem readingAt_update {f : LatestRow J → LatestRow J} (hf : ∀ row, (f row).key = row.key)
    (hsame : ∀ row, (f row).record = row.record ∧ (f row).sinceAt = row.sinceAt)
    (key : SeriesKey) :
    ({ db with latest := db.latest.update f hf } : ObservationDb J).readingAt key =
      db.readingAt key := by
  simp only [ObservationDb.readingAt, LatestTable.update, OrderedMap.get_mapValues, Option.map_map]
  refine congrArg (fun g => (db.latest.rows.get key).map g) (funext fun row => ?_)
  simp only [Function.comp_apply, (hsame row).1, (hsame row).2]

omit [DecidableEq J] in
/-- A row that is written is the reading of its series. -/
theorem readingAt_putSeriesRow (row : SeriesRow J) (key : SeriesKey) :
    (putSeriesRow ctx db row).readingAt key =
      if key = row.record.content.key then
        some (row.record, row.record.content.start, row.sinceAt)
      else db.readingAt key := by
  simp only [ObservationDb.readingAt, putSeriesRow, LatestTable.put, LatestRow.key,
    OrderedMap.get_set]
  split_ifs <;> rfl

/-! ## A transient series -/

/-- The reading in effect of a transient series once another one has been written. -/
def takeTransient (ctx : ObservationContext J) (reading : Option (Observation J × Instant × Instant))
    (draft : Observation J) : Option (Observation J × Instant × Instant) :=
  if reading.all fun r => decide (r.2.1 < draft.content.start) then
    some (sealDraft ctx draft, draft.content.start, draft.content.start)
  else reading

omit [DecidableEq J] in
/-- **A transient series** takes a reading exactly when it is newer. -/
theorem readingAt_writeTransient (draft : Observation J) :
    (writeTransient D ctx db [draft]).1.readingAt draft.content.key =
      takeTransient ctx (db.readingAt draft.content.key) draft := by
  have hput : (writeTransient D ctx db [draft]).1.readingAt draft.content.key =
      (putTransient ctx db (sealDraft ctx draft)).readingAt draft.content.key :=
    readingAt_update (key_withTransientReceipt D ctx _) (withTransientReceipt_spec D ctx _) _
  have hmoves : movesTransient db (sealDraft ctx draft) =
      (db.readingAt draft.content.key).all fun r => decide (r.2.1 < draft.content.start) := by
    unfold movesTransient ObservationDb.readingAt
    rw [Option.all_map]
    rfl
  rw [hput, putTransient, takeTransient, ← hmoves]
  split_ifs
  · exact (readingAt_putSeriesRow _ _).trans (if_pos rfl)
  · rfl

omit [DecidableEq J] in
/-- A write without readings of transient properties appends nothing. -/
theorem readingAt_writeTransient_nil (key : SeriesKey) :
    (writeTransient D ctx db []).1.readingAt key = db.readingAt key :=
  readingAt_update (key_withTransientReceipt D ctx _) (withTransientReceipt_spec D ctx _) _

omit [DecidableEq J] in
/-- Of readings of one series, in the order of their starts, the last one decides. -/
theorem foldl_takeTransient {reading : Option (Observation J × Instant × Instant)}
    {first : Observation J} {rest : List (Observation J)}
    (hsorted : (first :: rest).Pairwise fun a b => a.content.start < b.content.start) :
    (first :: rest).foldl (takeTransient ctx) reading =
      takeTransient ctx reading ((first :: rest).getLast (List.cons_ne_nil _ _)) := by
  induction rest generalizing reading first with
  | nil => rfl
  | cons second rest ih =>
    obtain ⟨hfirst, hrest⟩ := List.pairwise_cons.mp hsorted
    have hlt := hfirst _ (List.getLast_mem (List.cons_ne_nil second rest))
    rw [List.foldl_cons, ih hrest, List.getLast_cons (List.cons_ne_nil _ _)]
    generalize (second :: rest).getLast (List.cons_ne_nil _ _) = last at hlt
    unfold takeTransient
    by_cases hmoves : (reading.all fun r => decide (r.2.1 < first.content.start)) = true
    · have hlast : (reading.all fun r => decide (r.2.1 < last.content.start)) = true := by
        rw [Option.all_eq_true] at hmoves ⊢
        intro r hr
        exact decide_eq_true ((of_decide_eq_true (hmoves r hr)).trans hlt)
      rw [if_pos hmoves, if_pos hlast, if_pos (by simpa using hlt)]
    · rw [if_neg hmoves]

omit [DecidableEq J] in
/-- The reading that stands for those of one series is the newest. -/
theorem transientOf_one {key : SeriesKey} {first : Observation J} {rest : List (Observation J)}
    (hkey : ∀ d ∈ first :: rest, d.content.key = key)
    (hvalid : ∀ d ∈ first :: rest, withoutValidity ctx d = d) :
    ∃ newest ∈ first :: rest, (∀ d ∈ first :: rest, d.content.start ≤ newest.content.start) ∧
      (transientOf ctx (first :: rest)).1.entries = [(key, newest)] := by
  have hfold : ∀ (rest : List (Observation J)) (st : OrderedMap SeriesKey (Observation J) × ℕ)
      (held : Observation J), st.1.entries = [(key, held)] →
      (∀ d ∈ rest, d.content.key = key) → (∀ d ∈ rest, withoutValidity ctx d = d) →
      ∃ newest ∈ held :: rest, (∀ d ∈ held :: rest, d.content.start ≤ newest.content.start) ∧
        (rest.foldl (addTransient ctx) st).1.entries = [(key, newest)] := by
    intro rest
    induction rest with
    | nil =>
      intro st held hst _ _
      exact ⟨held, List.mem_cons_self, by simp, hst⟩
    | cons d rest ih =>
      intro st held hst hkeys hvalids
      have hget : st.1.get d.content.key = some held := by
        rw [hkeys d List.mem_cons_self]
        exact (OrderedMap.get_eq_some_iff _).mpr (by rw [hst]; exact List.mem_cons_self)
      obtain ⟨next, hnext, hmax, hentries⟩ : ∃ next, (next = held ∨ next = d) ∧
          (held.content.start ≤ next.content.start ∧ d.content.start ≤ next.content.start) ∧
          (addTransient ctx st d).1.entries = [(key, next)] := by
        unfold addTransient
        dsimp only
        rw [hvalids d List.mem_cons_self, hget]
        by_cases hle : held.content.start ≤ d.content.start
        · refine ⟨d, Or.inr rfl, ⟨hle, le_refl _⟩, ?_⟩
          simp only [if_pos hle, OrderedMap.set, hst, hkeys d List.mem_cons_self,
            OrderedMap.setEntries, if_true]
        · exact ⟨held, Or.inl rfl, ⟨le_refl _, le_of_not_ge hle⟩, by simp only [if_neg hle, hst]⟩
      obtain ⟨newest, hmem, hall, hlast⟩ := ih (addTransient ctx st d) next hentries
        (fun x hx => hkeys x (List.mem_cons_of_mem _ hx))
        (fun x hx => hvalids x (List.mem_cons_of_mem _ hx))
      refine ⟨newest, ?_, fun x hx => ?_, hlast⟩
      · rcases List.mem_cons.mp hmem with rfl | hmem
        · rcases hnext with rfl | rfl
          · exact List.mem_cons_self
          · exact List.mem_cons_of_mem _ List.mem_cons_self
        · exact List.mem_cons_of_mem _ (List.mem_cons_of_mem _ hmem)
      · have htop := hall next List.mem_cons_self
        rcases List.mem_cons.mp hx with rfl | hx
        · exact hmax.1.trans htop
        · rcases List.mem_cons.mp hx with rfl | hx
          · exact hmax.2.trans htop
          · exact hall x (List.mem_cons_of_mem _ hx)
  have hstart : (addTransient ctx (.empty, 0) first).1.entries = [(key, first)] := by
    unfold addTransient
    dsimp only
    rw [hvalid first List.mem_cons_self, ← hkey first List.mem_cons_self]
    rfl
  exact hfold rest _ first hstart (fun d hd => hkey d (List.mem_cons_of_mem _ hd))
    fun d hd => hvalid d (List.mem_cons_of_mem _ hd)

/-! ## The cache -/

omit [DecidableEq J] [DecidableEq H] in
/-- A reading that is not polled is written as it is. -/
theorem withoutValidity_of_not_polled {draft : Observation J}
    (h : validWhilePolled ctx draft = false) : withoutValidity ctx draft = draft := by
  rw [withoutValidity, h, if_neg Bool.false_ne_true]

/-- **The cache** changes nothing for readings that are not polled, and keeps being of readings. -/
theorem writeObservationsIn_cached {cache : Option (LatestCacheWrite H)} {sourceId : String}
    {drafts : List (Observation J)} (hcache : ∀ c, cache = some c → c.All (Describes D))
    (hpolled : ∀ d ∈ drafts, validWhilePolled ctx d = false) :
    (writeObservationsIn D ctx db cache sourceId drafts).1 =
        (writeObservationsIn D ctx db none sourceId drafts).1 ∧
      ∀ c, (writeObservationsIn D ctx db cache sourceId drafts).2.2 = some c →
        c.All (Describes D) := by
  have hfold : ∀ (slices : List (List (PendingSeries J)))
      (st st' : ObservationDb J × ObservationCounts × Option (LatestCacheWrite H)),
      (∀ series ∈ slices.flatten, ∀ draft ∈ series.drafts, draft.content.key = series.key ∧
        validWhilePolled ctx draft = false) →
      st.1 = st'.1 → st'.2.2 = none → (∀ c, st.2.2 = some c → c.All (Describes D)) →
      (slices.foldl (writeSlice D ctx) st).1 = (slices.foldl (writeSlice D ctx) st').1 ∧
        ∀ c, (slices.foldl (writeSlice D ctx) st).2.2 = some c → c.All (Describes D) := by
    intro slices
    induction slices with
    | nil => exact fun st st' _ hsame _ hall => ⟨hsame, hall⟩
    | cons slice slices ih =>
      intro st st' hdrafts hsame hnone hall
      have hhere : ∀ series ∈ slice, ∀ draft ∈ series.drafts, draft.content.key = series.key ∧
          validWhilePolled ctx draft = false := fun series hs =>
        hdrafts series (by rw [List.flatten_cons]; exact List.mem_append_left _ hs)
      refine ih _ _ (fun series hs => hdrafts series
        (by rw [List.flatten_cons]; exact List.mem_append_right _ hs)) ?_ ?_ ?_
      · unfold writeSlice
        dsimp only
        rw [← hsame, hnone]
        cases hbefore : st.2.2 with
        | none => rfl
        | some before =>
          refine (@writeSeries_cached J H _ _ D ctx st.1 before (hall before hbefore) slice
            fun series hs _ row draft _ hdraft hdiffers => ?_).1
          have hnot := (hhere series hs draft (by rw [hdraft]; exact List.mem_cons_self)).2
          rw [hdiffers.polled] at hnot
          cases hnot
      · unfold writeSlice
        dsimp only
        rw [hnone]
        rfl
      · intro c hc
        cases hbefore : st.2.2 with
        | none => simp [writeSlice, writeSeries, hbefore] at hc
        | some before =>
          refine @writeSeries_describes J H _ _ D ctx st.1 before c (hall before hbefore) slice
            (fun series hs draft hd => (hhere series hs draft hd).1) ?_
          rw [← hbefore]
          exact hc
  refine hfold _ _ _ (fun series hs draft hd => ?_) rfl rfl hcache
  rw [flatten_slicesOf] at hs
  refine ⟨key_of_mem_pendingOf hs draft hd, ?_⟩
  rw [(drafts_of_mem_pendingOf hs).1] at hd
  obtain ⟨input, hinput, rfl⟩ := List.mem_map.mp hd
  rw [(withoutValidity_spec input).2.1]
  exact hpolled input (List.mem_filter.mp (List.mem_filter.mp hinput).1).1

end Transient

end OpenConditions.Storage

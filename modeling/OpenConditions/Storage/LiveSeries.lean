import OpenConditions.Storage.CacheTransparent
import OpenConditions.Storage.CompletePoll

set_option relaxedAutoImplicit false
set_option autoImplicit false

/-!
# Which series a complete poll leaves live

A series that the poll does not state ends, and one it states stays as it is or takes a reading that
states no end.  A series that had ended takes such a reading only where it starts no earlier than
the reading it holds: the comparison treats the series as new, the choice of its latest row does not.

## Main definitions

* `lastSaid` — what a poll's readings of a polled series leave in effect.
* `SeriesWritten` — what a write makes of a series.

## Main results

* `writeSeries_seriesWritten` — a write makes that of each of its series.
* `completePoll_live_iff` — when a complete poll leaves exactly the stated series live.
* `completePoll_leaves_ended` — a stated series that stays ended.
-/

namespace OpenConditions.Storage

section Live

variable {J H : Type} [DecidableEq J] [DecidableEq H] {D : Digests J H}
  {ctx : ObservationContext J} {db : ObservationDb J} {series : PendingSeries J}

/-! ## What the readings of a poll say -/

/-- A reading says what another has said: it is the same, or states the same result with the same
credit and baseline. -/
def saysAgain (said draft : Observation J) : Bool :=
  decide (said.content = draft.content ∨
    (draft.content.validUntil = none ∧ said.content.result = draft.content.result ∧
      creditProvenance said = creditProvenance draft ∧
        said.content.baseline = draft.content.baseline))

/-- The reading in effect once another has followed. -/
def sayNext (said : Option (Observation J)) (draft : Observation J) : Option (Observation J) :=
  if said.any fun w => saysAgain w draft then said else some draft

/-- The reading some readings in the order of their starts leave in effect, where one that says what
is in effect is left out. -/
def lastSaid (readings : List (Observation J)) : Option (Observation J) :=
  readings.foldl sayNext none

omit [DecidableEq H] in
/-- Some readings leave one in effect. -/
theorem lastSaid_eq_none {readings : List (Observation J)} :
    lastSaid readings = none ↔ readings = [] := by
  have hstays : ∀ (rest : List (Observation J)) (w : Observation J),
      rest.foldl sayNext (some w) ≠ none := by
    intro rest
    induction rest with
    | nil => exact fun w h => by cases h
    | cons draft rest ih =>
      intro w
      rw [List.foldl_cons, sayNext]
      split_ifs
      · exact ih w
      · exact ih draft
  cases readings with
  | nil => exact ⟨fun _ => rfl, fun _ => rfl⟩
  | cons draft rest => exact ⟨fun h => absurd h (hstays rest draft), fun h => by cases h⟩

variable (ctx) in
/-- A poll's readings of a series, without validity where its source's polling gives it, in the order
of their starts. -/
def readingsOf (drafts : List (Observation J)) (key : SeriesKey) : List (Observation J) :=
  ((drafts.filter fun draft => decide (draft.content.key = key)).map
    (withoutValidity ctx)).insertionSort fun a b => a.content.start ≤ b.content.start

/-! ## The drafts of a series -/

omit [DecidableEq J] [DecidableEq H] in
/-- A draft keeps its series and how it is polled when its validity is left out. -/
theorem withoutValidity_spec (input : Observation J) :
    (withoutValidity ctx input).content.key = input.content.key ∧
      validWhilePolled ctx (withoutValidity ctx input) = validWhilePolled ctx input ∧
      (validWhilePolled ctx input = true →
        (withoutValidity ctx input).content.validUntil = none) := by
  unfold withoutValidity
  by_cases hpolled : validWhilePolled ctx input = true
  · rw [if_pos hpolled]
    exact ⟨rfl, rfl, fun _ => rfl⟩
  · rw [if_neg hpolled]
    exact ⟨rfl, rfl, fun h => absurd h hpolled⟩

omit [DecidableEq J] [DecidableEq H] in
variable (ctx) in
/-- The drafts that stand under a key once some have been added. -/
theorem get_foldl_addPending (drafts : List (Observation J))
    (pending : OrderedMap SeriesKey (List (Observation J))) (key : SeriesKey) :
    (drafts.foldl (addPending ctx) pending).get key =
      match (drafts.filter fun draft => decide (draft.content.key = key)).map
        (withoutValidity ctx) with
      | [] => pending.get key
      | added => some ((pending.get key).getD [] ++ added) := by
  induction drafts generalizing pending with
  | nil => rfl
  | cons draft drafts ih =>
    have hkey := (@withoutValidity_spec J ctx draft).1
    rw [List.foldl_cons, ih, addPending]
    by_cases hdraft : draft.content.key = key
    · subst hdraft
      rw [hkey, OrderedMap.get_set_self, List.filter_cons_of_pos (by simp), List.map_cons]
      cases (drafts.filter fun d => decide (d.content.key = draft.content.key)).map
          (withoutValidity ctx) with
      | nil => rfl
      | cons d ds => simp
    · rw [hkey, OrderedMap.get_set_of_ne _ _ (Ne.symm hdraft),
        List.filter_cons_of_neg (by simpa using hdraft)]

omit [DecidableEq J] [DecidableEq H] in
/-- A series of a write holds the drafts of its key, at least one. -/
theorem drafts_of_mem_pendingOf {drafts : List (Observation J)}
    (h : series ∈ pendingOf ctx drafts) :
    series.drafts = (drafts.filter fun draft => decide (draft.content.key = series.key)).map
        (withoutValidity ctx) ∧ series.drafts ≠ [] := by
  obtain ⟨⟨key, ds⟩, hmem, rfl⟩ := List.mem_map.mp h
  have hget := (OrderedMap.get_eq_some_iff _).mpr hmem
  rw [get_foldl_addPending] at hget
  dsimp only
  split at hget
  · cases hget
  · rename_i added hadded
    obtain rfl := Option.some.inj hget
    refine ⟨by simp, ?_⟩
    simpa using hadded

omit [DecidableEq J] [DecidableEq H] in
/-- What is stated has its series. -/
theorem exists_mem_pendingOf {drafts : List (Observation J)} {draft : Observation J}
    (h : draft ∈ drafts) : ∃ series ∈ pendingOf ctx drafts, series.key = draft.content.key := by
  have hfilter : draft ∈ drafts.filter fun d => decide (d.content.key = draft.content.key) :=
    List.mem_filter.mpr ⟨h, by simp⟩
  have hget := get_foldl_addPending ctx drafts .empty draft.content.key
  cases hmap : (drafts.filter fun d => decide (d.content.key = draft.content.key)).map
      (withoutValidity ctx) with
  | nil => exact absurd (List.map_eq_nil_iff.mp hmap ▸ hfilter) List.not_mem_nil
  | cons d ds =>
    rw [hmap] at hget
    exact ⟨⟨draft.content.key, _⟩,
      List.mem_map.mpr ⟨_, (OrderedMap.get_eq_some_iff _).mp hget, rfl⟩, rfl⟩

omit [DecidableEq J] [DecidableEq H] in
/-- The series of a write have different keys. -/
theorem nodup_pendingOf (drafts : List (Observation J)) :
    ((pendingOf ctx drafts).map PendingSeries.key).Nodup := by
  rw [pendingOf, List.map_map]
  exact (drafts.foldl (addPending ctx) .empty).nodup

/-! ## The reading a series takes -/

omit [DecidableEq H] in
variable (ctx) in
/-- A record that starts no earlier than the stored reading becomes the newest. -/
theorem newest_isSome_addRecord (held : Option (Latest J H)) (key : SeriesKey)
    (st : SeriesRows J) (record : Observation J) :
    (addRecord ctx held key st record).newest.isSome = true ↔ st.newest.isSome = true ∨
      (held.all fun h => decide (h.effectiveFrom ≤ record.content.start)) = true := by
  have hnewest : (addRecord ctx held key st record).newest.isSome =
      (if held.all fun h => decide (h.effectiveFrom ≤ record.content.start) then
        some (record, (if decide (st.result ≠ some record.content.result) then
          some record.content.start else st.since).getD record.content.start)
      else st.newest).isSome := by
    unfold addRecord
    cases st.retentionDays with
    | none => rfl
    | some days =>
      dsimp only
      split
      · split <;> rfl
      · rfl
  rw [hnewest]
  cases hall : held.all fun h => decide (h.effectiveFrom ≤ record.content.start) <;> simp

omit [DecidableEq H] in
/-- A series takes a reading when one of its records starts no earlier than the stored reading. -/
theorem newest_rowsOf_isSome {held : Option (Latest J H)} {key : SeriesKey}
    {records : List (Observation J)} :
    (rowsOf ctx held key records).newest.isSome = true ↔ ∃ record ∈ records,
      (held.all fun h => decide (h.effectiveFrom ≤ record.content.start)) = true := by
  have hfold : ∀ (l : List (Observation J)) (st : SeriesRows J),
      (l.foldl (addRecord ctx held key) st).newest.isSome = true ↔ st.newest.isSome = true ∨
        ∃ record ∈ l,
          (held.all fun h => decide (h.effectiveFrom ≤ record.content.start)) = true := by
    intro l
    induction l with
    | nil => simp
    | cons record l ih =>
      intro st
      rw [List.foldl_cons, ih, newest_isSome_addRecord, List.exists_mem_cons_iff, or_assoc]
  unfold rowsOf
  dsimp only
  rw [hfold]
  simp [List.mem_insertionSort]

/-! ## Comparing a series that had ended -/

/-- The comparison of a series that is written anew, against what its readings have said. -/
def Compared.Says (D : Digests J H) (ctx : ObservationContext J) (st : Compared J H) :
    Option (Observation J) → Prop
  | none => st.inEffect = ⟨none, none, none, none, none, false⟩ ∧ st.records = []
  | some w => st.inEffect = ⟨some w.content.result, some (contentHash D w),
        some w.content.start, some (creditProvenance w), w.content.baseline, false⟩ ∧
      sealDraft ctx w ∈ st.records ∧ ∀ r ∈ st.records, r.content.start ≤ w.content.start

/-- **One reading** of a series that is written anew, no older than what was said, is compared as
what it says. -/
theorem Compared.Says.step {held : Option (Latest J H)} {st : Compared J H}
    {said : Option (Observation J)} {draft : Observation J} (h : st.Says D ctx said)
    (hlater : ∀ w, said = some w → w.content.start ≤ draft.content.start) :
    (compareDraft D ctx held true true st draft).Says D ctx (sayNext said draft) := by
  have hsuperseded : isSuperseded held true true draft = false := rfl
  have htaken : st.inEffect.since.all (fun since => decide (since ≤ draft.content.start)) = true →
      (∀ r ∈ st.records, r.content.start ≤ draft.content.start) →
      ¬(st.inEffect.hash = some (contentHash D draft) ∨
        isRestated true st.inEffect draft = true ∨
          isSuperseded held true true draft = true) →
      (compareDraft D ctx held true true st draft).Says D ctx (some draft) := by
    intro hsince hrecords hsame
    unfold compareDraft
    dsimp only
    rw [if_neg hsame, if_pos hsince]
    refine ⟨rfl, List.mem_append_right _ List.mem_cons_self, fun r hr => ?_⟩
    rcases List.mem_append.mp hr with hr | hr
    · exact hrecords r hr
    · rw [List.mem_singleton.mp hr]
      exact le_refl draft.content.start
  cases said with
  | none =>
    obtain ⟨hin, hnil⟩ := h
    refine htaken (by rw [hin]; rfl) (by simp [hnil]) ?_
    simp [hin, hsuperseded, isRestated]
  | some w =>
    obtain ⟨hin, hmem, hrecords⟩ := h
    have hsame : (st.inEffect.hash = some (contentHash D draft) ∨
        isRestated true st.inEffect draft = true ∨ isSuperseded held true true draft = true) ↔
        saysAgain w draft = true := by
      rw [hsuperseded, hin, saysAgain, decide_eq_true_iff]
      simp only [isRestated, contentHash, Option.some_inj, D.content.injective.eq_iff,
        Bool.true_and, decide_eq_true_iff, Bool.false_eq_true, or_false]
    by_cases hagain : saysAgain w draft = true
    · have hsaid : sayNext (some w) draft = some w := by
        rw [sayNext, Option.any_some, if_pos hagain]
      rw [hsaid]
      unfold compareDraft
      dsimp only
      rw [if_pos (hsame.mpr hagain)]
      exact ⟨hin, hmem, hrecords⟩
    · have hsaid : sayNext (some w) draft = some draft := by
        rw [sayNext, Option.any_some, if_neg hagain]
      rw [hsaid]
      refine htaken ?_ (fun r hr => (hrecords r hr).trans (hlater w rfl)) (mt hsame.mp hagain)
      rw [hin]
      exact decide_eq_true (hlater w rfl)

/-- **The readings** of a series that is written anew are compared as what they say. -/
theorem Compared.Says.foldl {held : Option (Latest J H)} {readings : List (Observation J)}
    (hsorted : readings.Pairwise fun a b => a.content.start ≤ b.content.start) :
    ∀ {st : Compared J H} {said : Option (Observation J)}, st.Says D ctx said →
      (∀ w, said = some w → ∀ draft ∈ readings, w.content.start ≤ draft.content.start) →
      (readings.foldl (compareDraft D ctx held true true) st).Says D ctx
        (readings.foldl sayNext said) := by
  induction readings with
  | nil => exact fun h _ => h
  | cons draft readings ih =>
    intro st said h hlater
    obtain ⟨hfirst, hrest⟩ := List.pairwise_cons.mp hsorted
    refine ih hrest (h.step fun w hw => hlater w hw draft List.mem_cons_self) fun w hw d hd => ?_
    unfold sayNext at hw
    split_ifs at hw with hagain
    · exact hlater w hw d (List.mem_cons_of_mem _ hd)
    · obtain rfl := Option.some.inj hw
      exact hfirst d hd

/-- **A series that had ended** takes a reading exactly when what the poll says last of it starts no
earlier than the reading it holds. -/
theorem newest_isSome_of_ended {h : Latest J H} (hended : h.ended = true)
    (hpolled : ∀ draft ∈ series.drafts, validWhilePolled ctx draft = true)
    (hne : series.drafts ≠ []) :
    (rowsOf ctx (some h) series.key
        (compareSeries D ctx (some h) series).records).newest.isSome = true ↔
      ∃ w, lastSaid (series.drafts.insertionSort
        fun a b => a.content.start ≤ b.content.start) = some w ∧
          h.effectiveFrom ≤ w.content.start := by
  obtain ⟨first, rest, hdrafts⟩ := List.exists_cons_of_ne_nil hne
  have hfirst : series.drafts.head?.any (validWhilePolled ctx) = true := by
    rw [hdrafts, List.head?_cons, Option.any_some]
    exact hpolled first (hdrafts ▸ List.mem_cons_self)
  have hsaid : (compareSeries D ctx (some h) series).Says D ctx (lastSaid
      (series.drafts.insertionSort fun a b => a.content.start ≤ b.content.start)) := by
    have hrenewed : isRenewed ctx (some h) true series = true := by simp [isRenewed, hended]
    unfold compareSeries comparedDrafts
    dsimp only
    rw [hfirst, if_pos rfl, hrenewed]
    have hsorted := List.pairwise_insertionSort
      (fun a b : Observation J => a.content.start ≤ b.content.start) series.drafts
    have hstart : Compared.Says D ctx ⟨inEffectOf (some h) true, 0, [], none, []⟩ none :=
      ⟨rfl, rfl⟩
    exact Compared.Says.foldl hsorted hstart fun w hw => by cases hw
  rw [newest_rowsOf_isSome]
  cases hlast : lastSaid (series.drafts.insertionSort
      fun a b => a.content.start ≤ b.content.start) with
  | none =>
    rw [hlast] at hsaid
    simp [hsaid.2]
  | some w =>
    rw [hlast] at hsaid
    obtain ⟨-, hmem, hrecords⟩ := hsaid
    simp only [Option.all_some, decide_eq_true_iff, Option.some_inj, exists_eq_left']
    constructor
    · rintro ⟨r, hr, hle⟩
      exact hle.trans (hrecords r hr)
    · exact fun hle => ⟨_, hmem, hle⟩

/-! ## What a write makes of a series -/

/-- What the content hash of a series' reading in effect covers. -/
def ObservationDb.contentAt (db : ObservationDb J) (key : SeriesKey) :
    Option (ObservationContent J) :=
  (db.latest.rows.get key).map fun row => row.record.content

omit [DecidableEq J] [DecidableEq H] in
/-- What leaves the contents of the readings as they are. -/
theorem contentAt_update {f : LatestRow J → LatestRow J} {hf : ∀ row, (f row).key = row.key}
    (hcontent : ∀ row, (f row).record.content = row.record.content) (key : SeriesKey) :
    ({ db with latest := db.latest.update f hf } : ObservationDb J).contentAt key =
      db.contentAt key := by
  simp only [ObservationDb.contentAt, LatestTable.update, OrderedMap.get_mapValues, Option.map_map]
  exact congrArg (fun g => (db.latest.rows.get key).map g) (funext hcontent)

omit [DecidableEq J] [DecidableEq H] in
/-- A row that is written is the one of its series. -/
theorem contentAt_putSeriesRow (row : SeriesRow J) (key : SeriesKey) :
    (putSeriesRow ctx db row).contentAt key =
      if key = row.record.content.key then some row.record.content else db.contentAt key := by
  simp only [ObservationDb.contentAt, putSeriesRow, LatestTable.put, LatestRow.key,
    OrderedMap.get_set]
  split_ifs <;> rfl

omit [DecidableEq J] [DecidableEq H] in
/-- Rows of one series that have one content are written as it. -/
theorem contentAt_foldl_putSeriesRow {key : SeriesKey} {content : Option (ObservationContent J)}
    {rows : List (SeriesRow J)} {db : ObservationDb J}
    (hrows : ∀ row ∈ rows, row.record.content.key = key → some row.record.content = content) :
    (rows.foldl (putSeriesRow ctx) db).contentAt key =
      if ∃ row ∈ rows, row.record.content.key = key then content else db.contentAt key := by
  induction rows generalizing db with
  | nil => simp
  | cons row rows ih =>
    rw [List.foldl_cons, ih fun r hr => hrows r (List.mem_cons_of_mem _ hr),
      contentAt_putSeriesRow]
    by_cases hrest : ∃ r ∈ rows, r.record.content.key = key
    · obtain ⟨r, hr, hkey⟩ := hrest
      rw [if_pos ⟨r, hr, hkey⟩, if_pos ⟨r, List.mem_cons_of_mem _ hr, hkey⟩]
    · rw [if_neg hrest]
      by_cases hrow : row.record.content.key = key
      · rw [if_pos hrow.symm, if_pos ⟨row, List.mem_cons_self, hrow⟩,
          hrows row List.mem_cons_self hrow]
      · rw [if_neg (Ne.symm hrow), if_neg]
        rintro ⟨r, hr, hkey⟩
        rcases List.mem_cons.mp hr with rfl | hr
        · exact hrow hkey
        · exact hrest ⟨r, hr, hkey⟩

omit [DecidableEq J] in
/-- The statements of a write, on a series whose rows have one content. -/
theorem contentAt_applyOutcomes {outcomes : List (SeriesOutcome J H)} {key : SeriesKey}
    {content : Option (ObservationContent J)}
    (hrows : ∀ outcome ∈ outcomes, ∀ row ∈ outcome.rows, row.record.content.key = key →
      some row.record.content = content) :
    (applyOutcomes D ctx db outcomes).1.contentAt key =
      if ∃ outcome ∈ outcomes, ∃ row ∈ outcome.rows, row.record.content.key = key then
        content else db.contentAt key := by
  have hall : ∀ row ∈ outcomes.flatMap SeriesOutcome.rows, row.record.content.key = key →
      some row.record.content = content := by
    intro row hrow
    obtain ⟨outcome, houtcome, hmem⟩ := List.mem_flatMap.mp hrow
    exact hrows outcome houtcome row hmem
  have hreceipt : ∀ row : LatestRow J,
      (withReceipt D (outcomes.flatMap SeriesOutcome.legacy) row).record.content =
        row.record.content := by
    intro row
    unfold withReceipt
    split
    · split <;> rfl
    · rfl
  have hexpiry : ∀ row : LatestRow J,
      (withExpiry (outcomes.flatMap SeriesOutcome.moved) row).record.content =
        row.record.content := by
    intro row
    unfold withExpiry
    split <;> rfl
  obtain ⟨db₁, hsame, hdb⟩ : ∃ db₁ : ObservationDb J, db₁.contentAt key = db.contentAt key ∧
      (applyOutcomes D ctx db outcomes).1.contentAt key =
        (((outcomes.flatMap SeriesOutcome.rows).filter fun r => r.seriesId.isNone).foldl
          (putSeriesRow ctx) (((outcomes.flatMap SeriesOutcome.rows).filter
            fun r => r.seriesId.isSome).foldl (putSeriesRow ctx) db₁)).contentAt key :=
    ⟨_, (contentAt_update hexpiry key).trans
      (@contentAt_update J db _ (key_withReceipt D _) hreceipt key), rfl⟩
  rw [hdb, contentAt_foldl_putSeriesRow fun r hr => hall r (List.mem_filter.mp hr).1,
    contentAt_foldl_putSeriesRow fun r hr => hall r (List.mem_filter.mp hr).1, hsame]
  have hsplit : (∃ outcome ∈ outcomes, ∃ row ∈ outcome.rows, row.record.content.key = key) ↔
      (∃ row ∈ (outcomes.flatMap SeriesOutcome.rows).filter fun r => r.seriesId.isNone,
        row.record.content.key = key) ∨
      ∃ row ∈ (outcomes.flatMap SeriesOutcome.rows).filter fun r => r.seriesId.isSome,
        row.record.content.key = key := by
    constructor
    · rintro ⟨outcome, houtcome, row, hrow, hkey⟩
      have hmem := List.mem_flatMap.mpr ⟨outcome, houtcome, hrow⟩
      cases hid : row.seriesId with
      | none => exact Or.inl ⟨row, List.mem_filter.mpr ⟨hmem, by rw [hid]; rfl⟩, hkey⟩
      | some id => exact Or.inr ⟨row, List.mem_filter.mpr ⟨hmem, by rw [hid]; rfl⟩, hkey⟩
    · have hone : ∀ {p : SeriesRow J → Bool}, (∃ row ∈ (outcomes.flatMap
          SeriesOutcome.rows).filter p, row.record.content.key = key) →
          ∃ outcome ∈ outcomes, ∃ row ∈ outcome.rows, row.record.content.key = key := by
        rintro p ⟨row, hrow, hkey⟩
        obtain ⟨outcome, houtcome, hmem⟩ := List.mem_flatMap.mp (List.mem_filter.mp hrow).1
        exact ⟨outcome, houtcome, row, hmem, hkey⟩
      exact fun h => h.elim hone hone
  by_cases hnone : ∃ row ∈ (outcomes.flatMap SeriesOutcome.rows).filter
      fun r => r.seriesId.isNone, row.record.content.key = key
  · rw [if_pos hnone, if_pos (hsplit.mpr (Or.inl hnone))]
  · by_cases hsome : ∃ row ∈ (outcomes.flatMap SeriesOutcome.rows).filter
        fun r => r.seriesId.isSome, row.record.content.key = key
    · rw [if_neg hnone, if_pos hsome, if_pos (hsplit.mpr (Or.inr hsome))]
    · rw [if_neg hnone, if_neg hsome, if_neg fun h => (hsplit.mp h).elim hnone hsome]

variable (ctx) in
/-- What a write makes of the reading in effect of one of its series: it keeps it or takes one of its
drafts, and where a polled series had ended it takes one exactly when what the poll says last of it
starts no earlier. -/
structure SeriesWritten (series : PendingSeries J) (old new : Option (ObservationContent J)) :
    Prop where
  kept_or_taken : new = old ∨ ∃ draft ∈ series.drafts, new = some draft.content
  ended : ∀ c, old = some c → c.validUntil.isSome = true →
    (∀ draft ∈ series.drafts, validWhilePolled ctx draft = true) →
      ((∃ w, lastSaid (series.drafts.insertionSort
          fun a b => a.content.start ≤ b.content.start) = some w ∧ c.start ≤ w.content.start) →
        ∃ draft ∈ series.drafts, new = some draft.content) ∧
      ((∀ w, lastSaid (series.drafts.insertionSort
          fun a b => a.content.start ≤ b.content.start) = some w → ¬c.start ≤ w.content.start) →
        new = old)

/-- The row that a series takes is of its newest reading. -/
theorem mem_rows_outcomeOf {row : SeriesRow J} :
    row ∈ (outcomeOf D ctx db series).rows →
      (rowsOf ctx (loadLatest D ctx db series) series.key
        (compareSeries D ctx (loadLatest D ctx db series) series).records).newest =
          some (row.record, row.sinceAt) := by
  intro h
  simp only [outcomeOf] at h
  obtain ⟨newest, hnewest, rfl⟩ := List.mem_map.mp h
  exact Option.mem_toList.mp hnewest

/-- A row that a series takes is one of its drafts. -/
theorem exists_draft_of_mem_rows {row : SeriesRow J}
    (h : row ∈ (outcomeOf D ctx db series).rows) :
    ∃ draft ∈ series.drafts, row.record.content = draft.content := by
  obtain ⟨draft, hdraft, heq⟩ := mem_records (mem_of_newest (mem_rows_outcomeOf h))
  exact ⟨draft, hdraft, by rw [heq]; rfl⟩

omit [DecidableEq J] in
/-- A polled series that the cache shows unchanged has not ended. -/
theorem not_ended_of_cachedUnchanged {cache : LatestCacheWrite H} (hall : cache.All (Describes D))
    (hcached : cachedUnchanged D ctx db cache series = true)
    (hpolled : ∀ draft ∈ series.drafts, validWhilePolled ctx draft = true)
    {c : ObservationContent J} (hold : db.contentAt series.key = some c) :
    c.validUntil.isSome = false := by
  unfold cachedUnchanged at hcached
  split at hcached
  · rename_i entry draft hentry hdrafts
    rw [Bool.and_eq_true] at hcached
    obtain ⟨hholds, hrow⟩ := hcached
    obtain ⟨o, ho⟩ := hall.get hentry
    obtain ⟨row, hget, hcontent, -, -⟩ := row_of_rowHolds ho hrow
    rw [ObservationDb.contentAt, hget, Option.map_some, Option.some_inj] at hold
    rw [← hold, hcontent, ← ho.ended]
    have hdraft : validWhilePolled ctx draft = true := hpolled draft (by rw [hdrafts]; simp)
    unfold entryHolds at hholds
    rw [if_pos hdraft] at hholds
    simp only [Bool.and_eq_true, Bool.not_eq_true', Bool.or_eq_false_iff] at hholds
    exact hholds.2.1.1.1
  · cases hcached

/-- **What a write makes of a series**, with the cache or without it. -/
theorem writeSeries_seriesWritten {cache : Option (LatestCacheWrite H)}
    (hcache : ∀ c, cache = some c → c.All (Describes D)) {slice : List (PendingSeries J)}
    (hnodup : (slice.map PendingSeries.key).Nodup)
    (hdrafts : ∀ series ∈ slice, series.drafts ≠ [] ∧
      ∀ draft ∈ series.drafts, draft.content.key = series.key) (key : SeriesKey) :
    (∀ series ∈ slice, series.key = key →
      SeriesWritten ctx series (db.contentAt key)
        ((writeSeries D ctx db cache slice).1.contentAt key)) ∧
    ((∀ series ∈ slice, series.key ≠ key) →
      (writeSeries D ctx db cache slice).1.contentAt key = db.contentAt key) := by
  set looked := slice.filter fun s => !cache.any fun c => cachedUnchanged D ctx db c s with hlooked
  have hdb : (writeSeries D ctx db cache slice).1 =
      (applyOutcomes D ctx db (looked.map (outcomeOf D ctx db))).1 := rfl
  have hsub : ∀ s ∈ looked, s ∈ slice := fun s hs => (List.mem_filter.mp hs).1
  have hrowKey : ∀ s ∈ looked, ∀ row ∈ (outcomeOf D ctx db s).rows,
      row.record.content.key = s.key := by
    intro s hs row hrow
    obtain ⟨draft, hdraft, heq⟩ := exists_draft_of_mem_rows hrow
    rw [heq]
    exact (hdrafts s (hsub s hs)).2 draft hdraft
  have hkept : (∀ s ∈ looked, s.key ≠ key) →
      (writeSeries D ctx db cache slice).1.contentAt key = db.contentAt key := by
    intro hother
    have hno : ∀ outcome ∈ looked.map (outcomeOf D ctx db), ∀ row ∈ outcome.rows,
        row.record.content.key ≠ key := by
      intro outcome houtcome row hrow
      obtain ⟨s, hs, rfl⟩ := List.mem_map.mp houtcome
      rw [hrowKey s hs row hrow]
      exact hother s hs
    rw [hdb, @contentAt_applyOutcomes J H _ D ctx db _ key none
      fun outcome houtcome row hrow hkey => absurd hkey (hno outcome houtcome row hrow), if_neg]
    rintro ⟨outcome, houtcome, row, hrow, hkey⟩
    exact hno outcome houtcome row hrow hkey
  refine ⟨?_, fun hother => hkept fun s hs => hother s (hsub s hs)⟩
  rintro series hseries rfl
  have hone : ∀ s ∈ slice, s.key = series.key → s = series := fun s hs hkey =>
    List.inj_on_of_nodup_map hnodup hs hseries hkey
  by_cases hcached : (cache.any fun c => cachedUnchanged D ctx db c series) = true
  · have hsame := hkept fun s hs hkey => by
      obtain rfl := hone s (hsub s hs) hkey
      have hnot := (List.mem_filter.mp hs).2
      rw [hcached] at hnot
      cases hnot
    obtain ⟨c, rfl, hunchanged⟩ := (Option.any_eq_true _ _).mp hcached
    refine ⟨Or.inl hsame, fun content hold hended hpolled => ?_⟩
    have hlive := not_ended_of_cachedUnchanged (hcache c rfl) hunchanged hpolled hold
    rw [hlive] at hended
    cases hended
  · have hmem : series ∈ looked := List.mem_filter.mpr ⟨hseries, by simpa using hcached⟩
    have hlatest : loadLatest D ctx db series =
        (db.latest.rows.get series.key).map (latestOf D) := loadLatest_eq
    cases hnewest : (rowsOf ctx (loadLatest D ctx db series) series.key
        (compareSeries D ctx (loadLatest D ctx db series) series).records).newest with
    | none =>
      have hno : ∀ row, row ∉ (outcomeOf D ctx db series).rows := by
        intro row hrow
        have := mem_rows_outcomeOf hrow
        rw [hnewest] at this
        cases this
      have hsame : (writeSeries D ctx db cache slice).1.contentAt series.key =
          db.contentAt series.key := by
        rw [hdb, @contentAt_applyOutcomes J H _ D ctx db _ series.key none, if_neg]
        · rintro ⟨outcome, houtcome, row, hrow, hkey⟩
          obtain ⟨s, hs, rfl⟩ := List.mem_map.mp houtcome
          obtain rfl := hone s (hsub s hs) ((hrowKey s hs row hrow).symm.trans hkey)
          exact hno row hrow
        · intro outcome houtcome row hrow hkey
          obtain ⟨s, hs, rfl⟩ := List.mem_map.mp houtcome
          obtain rfl := hone s (hsub s hs) ((hrowKey s hs row hrow).symm.trans hkey)
          exact absurd hrow (hno row)
      refine ⟨Or.inl hsame, fun content hold hended hpolled => ⟨fun hlast => ?_, fun _ => hsame⟩⟩
      exfalso
      obtain ⟨row, hget, rfl⟩ := Option.map_eq_some_iff.mp hold
      rw [hlatest, hget, Option.map_some] at hnewest
      have hsome := (@newest_isSome_of_ended J H _ _ D ctx series (latestOf D row) hended hpolled
        (hdrafts series hseries).1).mpr hlast
      rw [hnewest] at hsome
      cases hsome
    | some newest =>
      have hrows : ∀ row ∈ (outcomeOf D ctx db series).rows,
          some row.record.content = some newest.1.content := by
        intro row hrow
        have hthis := mem_rows_outcomeOf hrow
        rw [hnewest, Option.some_inj] at hthis
        rw [hthis]
      have hnew : (writeSeries D ctx db cache slice).1.contentAt series.key =
          some newest.1.content := by
        rw [hdb, @contentAt_applyOutcomes J H _ D ctx db _ series.key (some newest.1.content),
          if_pos]
        · obtain ⟨row, hrow⟩ : ∃ row, row ∈ (outcomeOf D ctx db series).rows := by
            simp only [outcomeOf, hnewest, Option.toList_some, List.map_cons, List.map_nil,
              List.mem_singleton, exists_eq]
          exact ⟨_, List.mem_map.mpr ⟨series, hmem, rfl⟩, row, hrow, hrowKey series hmem row hrow⟩
        · intro outcome houtcome row hrow hkey
          obtain ⟨s, hs, rfl⟩ := List.mem_map.mp houtcome
          obtain rfl := hone s (hsub s hs) ((hrowKey s hs row hrow).symm.trans hkey)
          exact hrows row hrow
      obtain ⟨draft, hdraft, heq⟩ := mem_records (mem_of_newest hnewest)
      have htaken : ∃ draft ∈ series.drafts,
          (writeSeries D ctx db cache slice).1.contentAt series.key = some draft.content :=
        ⟨draft, hdraft, by rw [hnew, heq]; rfl⟩
      refine ⟨Or.inr htaken, fun content hold hended hpolled => ⟨fun _ => htaken, fun hlast => ?_⟩⟩
      exfalso
      obtain ⟨row, hget, rfl⟩ := Option.map_eq_some_iff.mp hold
      rw [hlatest, hget, Option.map_some] at hnewest
      obtain ⟨w, hw, hle⟩ := (@newest_isSome_of_ended J H _ _ D ctx series (latestOf D row) hended
        hpolled (hdrafts series hseries).1).mp (by rw [hnewest]; rfl)
      exact hlast w hw hle

/-- What a write of several slices makes of a series. -/
theorem foldl_writeSlice_seriesWritten {key : SeriesKey} {slices : List (List (PendingSeries J))}
    {st : ObservationDb J × ObservationCounts × Option (LatestCacheWrite H)}
    (hcache : ∀ c, st.2.2 = some c → c.All (Describes D))
    (hnodup : (slices.flatten.map PendingSeries.key).Nodup)
    (hdrafts : ∀ series ∈ slices.flatten, series.drafts ≠ [] ∧
      ∀ draft ∈ series.drafts, draft.content.key = series.key) :
    (∀ series ∈ slices.flatten, series.key = key →
      SeriesWritten ctx series (st.1.contentAt key)
        ((slices.foldl (writeSlice D ctx) st).1.contentAt key)) ∧
    ((∀ series ∈ slices.flatten, series.key ≠ key) →
      (slices.foldl (writeSlice D ctx) st).1.contentAt key = st.1.contentAt key) := by
  induction slices generalizing st with
  | nil => exact ⟨fun _ h => absurd h List.not_mem_nil, fun _ => rfl⟩
  | cons slice slices ih =>
    rw [List.flatten_cons, List.map_append, List.nodup_append] at hnodup
    obtain ⟨hslice, hrest, hapart⟩ := hnodup
    have hsub : ∀ series ∈ slice, series ∈ (slice :: slices).flatten := fun series h => by
      rw [List.flatten_cons]
      exact List.mem_append_left _ h
    have hsub' : ∀ series ∈ slices.flatten, series ∈ (slice :: slices).flatten := fun series h => by
      rw [List.flatten_cons]
      exact List.mem_append_right _ h
    obtain ⟨hwritten, hkept⟩ := @writeSeries_seriesWritten J H _ _ D ctx st.1 st.2.2 hcache slice
      hslice (fun series h => hdrafts series (hsub series h)) key
    have hcache' : ∀ c, (writeSlice D ctx st slice).2.2 = some c → c.All (Describes D) := by
      intro c hc
      cases hbefore : st.2.2 with
      | none => simp [writeSlice, writeSeries, hbefore] at hc
      | some before =>
        refine @writeSeries_describes J H _ _ D ctx st.1 before c (hcache before hbefore) slice
          (fun series h => (hdrafts series (hsub series h)).2) ?_
        rw [← hbefore]
        exact hc
    obtain ⟨hwritten', hkept'⟩ := @ih (writeSlice D ctx st slice) hcache' hrest
      fun series h => hdrafts series (hsub' series h)
    rw [List.foldl_cons]
    refine ⟨fun series hseries hkey => ?_, fun hother => ?_⟩
    · rw [List.flatten_cons] at hseries
      rcases List.mem_append.mp hseries with hmem | hmem
      · rw [hkept' fun other hother hsame => hapart _ (List.mem_map_of_mem hmem) _
          (List.mem_map_of_mem hother) (hkey.trans hsame.symm)]
        exact hwritten series hmem hkey
      · have hsame : (writeSlice D ctx st slice).1.contentAt key = st.1.contentAt key :=
          hkept fun other hother hsame => hapart _ (List.mem_map_of_mem hother) _
            (List.mem_map_of_mem hmem) (hsame.trans hkey.symm)
        rw [← hsame]
        exact hwritten' series hmem hkey
    · rw [hkept' fun series h => hother series (hsub' series h)]
      exact hkept fun series h => hother series (hsub series h)

/-! ## What a complete poll leaves -/

omit [DecidableEq J] in
/-- Ending withholds nothing, or ends what the poll did not state. -/
theorem endUnstatedSeries_db {ending : EndingContext J} {shrinks : ShrinkTable} {sourceId : String}
    {drafts : List (Observation J)}
    (hwithheld : (endUnstatedSeries ctx ending db shrinks sourceId drafts).withheld = 0)
    (key : SeriesKey) :
    (endUnstatedSeries ctx ending db shrinks sourceId drafts).db.latest.rows.get key =
      (db.latest.rows.get key).map fun row =>
        if isEnding ctx ending sourceId drafts row then row.endNow ctx ending else row := by
  have hended : (endRows ctx ending sourceId drafts db).latest.rows.get key =
      (db.latest.rows.get key).map fun row =>
        if isEnding ctx ending sourceId drafts row then row.endNow ctx ending else row := by
    simp only [endRows, LatestTable.update, OrderedMap.get_mapValues]
  have hnone : ((db.latest.rows.entries.map Prod.snd).filter
      (isEnding ctx ending sourceId drafts)).length = 0 →
      db.latest.rows.get key = (db.latest.rows.get key).map fun row =>
        if isEnding ctx ending sourceId drafts row then row.endNow ctx ending else row := by
    intro hempty
    cases hget : db.latest.rows.get key with
    | none => rfl
    | some row =>
      have hmem := (OrderedMap.get_eq_some_iff _).mp hget
      have hnot : ¬isEnding ctx ending sourceId drafts row = true := by
        intro hrow
        have := List.mem_filter.mpr ⟨List.mem_map_of_mem (f := Prod.snd) hmem, hrow⟩
        rw [List.eq_nil_of_length_eq_zero hempty] at this
        cases this
      rw [Option.map_some, if_neg hnot]
  unfold endUnstatedSeries at hwithheld ⊢
  dsimp only at hwithheld ⊢
  split_ifs at hwithheld ⊢ with hclear hempty hconfirmed
  · exact hnone hempty
  · exact hended
  · exact hended
  · exact hnone hwithheld

omit [DecidableEq J] [DecidableEq H] in
/-- A stated series of the source is one that is written, with the readings the poll states of it. -/
theorem exists_series_of_stated {sourceId : String} {drafts : List (Observation J)}
    {key : SeriesKey} (hsource : key.sourceId = sourceId) (hstated : key ∈ statedSeries drafts) :
    ∃ series ∈ pendingOf ctx (drafts.filter fun d => decide (d.content.key.sourceId = sourceId)),
      series.key = key ∧ series.drafts =
        (drafts.filter fun d => decide (d.content.key = key)).map (withoutValidity ctx) := by
  obtain ⟨draft, hdraft, rfl⟩ := List.mem_map.mp hstated
  obtain ⟨series, hseries, hkey⟩ := @exists_mem_pendingOf J ctx
    (drafts.filter fun d => decide (d.content.key.sourceId = sourceId)) draft
    (List.mem_filter.mpr ⟨hdraft, decide_eq_true hsource⟩)
  refine ⟨series, hseries, hkey, ?_⟩
  rw [(drafts_of_mem_pendingOf hseries).1, hkey, List.filter_filter]
  refine congrArg _ (List.filter_congr fun d _ => ?_)
  by_cases hd : d.content.key = draft.content.key
  · simp [hd, hsource]
  · simp [hd]

omit [DecidableEq J] [DecidableEq H] in
/-- A reading of a series of this instance's own poll holds while its source polls. -/
theorem validWhilePolled_of_isOwnPolled {ending : EndingContext J} {sourceId : String}
    {o : Observation J} (h : isOwnPolled ctx ending sourceId o.content = true) :
    o.content.key.sourceId = sourceId ∧ validWhilePolled ctx o = true := by
  simp only [isOwnPolled, Bool.and_eq_true, decide_eq_true_iff] at h
  obtain ⟨⟨⟨hsource, hmode, horigin⟩, hchange⟩, -⟩ := h
  exact ⟨hsource, by simp [validWhilePolled, horigin, hmode, hchange]⟩

/-- **Which series a complete poll leaves live.** A poll that withholds no shrink leaves live exactly
the own polled change-only series it states if and only if, of each of them that had ended, what it
says last starts no earlier than the reading the series holds. -/
theorem completePoll_live_iff {cache : Option (LatestCacheWrite H)} {ending : EndingContext J}
    {shrinks : ShrinkTable} {sourceId : String} {drafts : List (Observation J)}
    (hcache : ∀ c, cache = some c → c.All (Describes D))
    (hpolled : ∀ draft ∈ drafts, ∀ row, db.latest.rows.get draft.content.key = some row →
      isOwnPolled ctx ending sourceId row.record.content = true →
        validWhilePolled ctx draft = true)
    (hwithheld : (completePoll D ctx ending db cache shrinks sourceId drafts).withheld = 0) :
    (∀ key row,
      (completePoll D ctx ending db cache shrinks sourceId drafts).db.latest.rows.get key =
        some row → isOwnPolled ctx ending sourceId row.record.content = true →
          (row.record.content.validUntil = none ↔ key ∈ statedSeries drafts)) ↔
    ∀ key row, db.latest.rows.get key = some row →
      isOwnPolled ctx ending sourceId row.record.content = true →
        row.record.content.validUntil.isSome = true →
          ∀ w, lastSaid (readingsOf ctx drafts key) = some w →
            row.record.content.start ≤ w.content.start := by
  set own := drafts.filter fun d => decide (d.content.key.sourceId = sourceId) with hown
  set db₁ := (writeObservationsIn D ctx db cache sourceId drafts).1 with hdb₁
  have hdrafts : ∀ series ∈ (slicesOf (pendingOf ctx own)).flatten, series.drafts ≠ [] ∧
      ∀ draft ∈ series.drafts, draft.content.key = series.key := by
    intro series hseries
    rw [flatten_slicesOf] at hseries
    exact ⟨(drafts_of_mem_pendingOf hseries).2, key_of_mem_pendingOf hseries⟩
  have hspec := fun key => @foldl_writeSlice_seriesWritten J H _ _ D ctx key
    (slicesOf (pendingOf ctx own)) (db, ⟨0, 0, 0, 0, 0⟩, cache) hcache
    (by rw [flatten_slicesOf]; exact nodup_pendingOf own) hdrafts
  have hend := fun key => endUnstatedSeries_db hwithheld key
  rw [← hdb₁] at hend
  -- What is written of a stated series of the source.
  have hstate : ∀ key, key.sourceId = sourceId → key ∈ statedSeries drafts →
      ∃ series : PendingSeries J, series.drafts =
          (drafts.filter fun d => decide (d.content.key = key)).map (withoutValidity ctx) ∧
        SeriesWritten ctx series (db.contentAt key) (db₁.contentAt key) := by
    intro key hsource hstated
    obtain ⟨series, hseries, hkey, hreadings⟩ :=
      @exists_series_of_stated J ctx sourceId drafts key hsource hstated
    exact ⟨series, hreadings, (hspec key).1 series (by rw [flatten_slicesOf]; exact hseries) hkey⟩
  have hseriesPolled : ∀ {key row} {series : PendingSeries J},
      db.latest.rows.get key = some row →
      isOwnPolled ctx ending sourceId row.record.content = true →
      series.drafts = (drafts.filter fun d => decide (d.content.key = key)).map
        (withoutValidity ctx) → ∀ draft ∈ series.drafts, validWhilePolled ctx draft = true := by
    intro key row series hget hrow hreadings draft hdraft
    rw [hreadings] at hdraft
    obtain ⟨input, hinput, rfl⟩ := List.mem_map.mp hdraft
    obtain ⟨hmem, hkey⟩ := List.mem_filter.mp hinput
    rw [(withoutValidity_spec input).2.1]
    exact hpolled input hmem row (by rw [of_decide_eq_true hkey]; exact hget) hrow
  constructor
  · intro hlive key row hget hrow hended w hw
    by_contra hearlier
    have hkey : row.record.content.key = key := db.latest.keyed key row hget
    have hstated : key ∈ statedSeries drafts := by
      by_contra hnot
      have hempty : (drafts.filter fun d => decide (d.content.key = key)) = [] := by
        rw [List.filter_eq_nil_iff]
        intro d hd heq
        exact hnot (List.mem_map.mpr ⟨d, hd, of_decide_eq_true heq⟩)
      rw [readingsOf, hempty] at hw
      cases hw
    obtain ⟨series, hreadings, hwritten⟩ := hstate key
      (hkey ▸ (validWhilePolled_of_isOwnPolled hrow).1) hstated
    have hold : db.contentAt key = some row.record.content := by
      rw [ObservationDb.contentAt, hget, Option.map_some]
    have hsame := (hwritten.ended _ hold hended (hseriesPolled hget hrow hreadings)).2
      fun w' hw' => by
        rw [hreadings] at hw'
        obtain rfl := Option.some.inj (hw.symm.trans hw')
        exact hearlier
    rw [hold] at hsame
    obtain ⟨row₁, hget₁, hcontent⟩ := Option.map_eq_some_iff.mp hsame
    have hnot : ¬isEnding ctx ending sourceId drafts row₁ = true := by
      simp [isEnding, LatestRow.key, hcontent, hkey, hstated]
    have hget₂ := hend key
    rw [hget₁, Option.map_some, if_neg hnot] at hget₂
    have hnone := (hlive key row₁ hget₂ (by rw [hcontent]; exact hrow)).mpr hstated
    rw [hcontent] at hnone
    rw [hnone] at hended
    cases hended
  · intro hcondition key row₂ hget₂ hrow₂
    obtain ⟨row₁, hget₁, heq⟩ := Option.map_eq_some_iff.mp ((hend key).symm.trans hget₂)
    have hkey : row₁.record.content.key = key := db₁.latest.keyed key row₁ hget₁
    split_ifs at heq with hends
    · -- The series ends here: it was not stated.
      subst heq
      have hunstated : key ∉ statedSeries drafts := by
        simp only [isEnding, Bool.and_eq_true, Bool.not_eq_true', decide_eq_false_iff_not] at hends
        rw [← hkey]
        exact hends.2
      exact ⟨fun hnone => absurd hnone (Option.some_ne_none _), fun h => absurd h hunstated⟩
    · subst heq
      refine ⟨fun hnone => ?_, fun hstated => ?_⟩
      · by_contra hunstated
        refine hends ?_
        simp [isEnding, isHeldSeries, hrow₂, hnone, LatestRow.key, hkey, hunstated]
      · obtain ⟨series, hreadings, hwritten⟩ := hstate key
          (hkey ▸ (validWhilePolled_of_isOwnPolled hrow₂).1) hstated
        have hnew : db₁.contentAt key = some row₁.record.content := by
          rw [ObservationDb.contentAt, hget₁, Option.map_some]
        have htaken : (∃ draft ∈ series.drafts, db₁.contentAt key = some draft.content) →
            row₁.record.content.validUntil = none := by
          rintro ⟨draft, hdraft, hsame⟩
          obtain hcontent := Option.some.inj (hnew.symm.trans hsame)
          rw [hreadings] at hdraft
          obtain ⟨input, -, rfl⟩ := List.mem_map.mp hdraft
          have hvalid : validWhilePolled ctx (withoutValidity ctx input) = true :=
            (@validWhilePolled_of_isOwnPolled J ctx ending sourceId _
              (by rw [← hcontent]; exact hrow₂)).2
          rw [(withoutValidity_spec input).2.1] at hvalid
          rw [hcontent]
          exact (withoutValidity_spec input).2.2 hvalid
        rcases hwritten.kept_or_taken with hkept | hnewest
        · rw [hnew] at hkept
          obtain ⟨row, hget, hcontent⟩ := Option.map_eq_some_iff.mp hkept.symm
          cases hended : row₁.record.content.validUntil with
          | none => rfl
          | some until_ =>
            rw [← hended]
            have hrow : isOwnPolled ctx ending sourceId row.record.content = true := by
              rw [hcontent]
              exact hrow₂
            have hsome : row.record.content.validUntil.isSome = true := by
              rw [hcontent, hended]
              rfl
            obtain ⟨hback, -⟩ := hwritten.ended row.record.content
              (by rw [hcontent, hkept]) hsome (hseriesPolled hget hrow hreadings)
            refine htaken (hback ?_)
            rw [hreadings]
            cases hw : lastSaid (readingsOf ctx drafts key) with
            | none =>
              rw [lastSaid_eq_none, readingsOf, ← List.length_eq_zero_iff,
                List.length_insertionSort, List.length_map, List.length_eq_zero_iff,
                List.filter_eq_nil_iff] at hw
              obtain ⟨draft, hdraft, hdraftKey⟩ := List.mem_map.mp hstated
              exact absurd (decide_eq_true hdraftKey) (hw draft hdraft)
            | some w => exact ⟨w, hw, hcondition key row hget hrow hsome w hw⟩
        · exact htaken hnewest

end Live

/-! ## A site that comes back with an older reading -/

/-- The level of service at two sites, a reading of each. -/
def levelReading (site : String) (start : Instant) : Observation String where
  content := ⟨site, ⟨site, "los", "", "s"⟩, some site, none, start, none, "queuing", none, none,
    "feed", "bulk", "operator", none, "", ""⟩
  mergedSources := none
  expiresAt := none
  derived := ""

/-- The ending of readings that came through no other instance. -/
def plainEnding : EndingContext String := ⟨.epoch, fun _ => false, fun j => j⟩

/-- The state after complete polls of the sites. -/
def afterPolls (polls : List (List (Observation String))) : ObservationDb String :=
  polls.foldl (fun db drafts =>
    (completePoll plainDigests speedContext plainEnding db none .empty "s" drafts).db)
    noObservations

/-- A later instant. -/
def laterStart : Instant := ⟨3600000, by decide⟩

/-- Both sites are stated, and then one of them alone: the other one ends. -/
def onePollMissing : ObservationDb String :=
  afterPolls [[levelReading "a" laterStart, levelReading "b" laterStart],
    [levelReading "b" laterStart]]

/-- The site is stated again with the reading it had: it is live again. -/
theorem completePoll_live_iff_sample :
    ∃ row, (completePoll plainDigests speedContext plainEnding onePollMissing none .empty "s"
        [levelReading "a" laterStart, levelReading "b" laterStart]).db.latest.rows.get
          (levelReading "a" laterStart).content.key = some row ∧
      (row.record.content.validUntil = none ↔ (levelReading "a" laterStart).content.key ∈
        statedSeries [levelReading "a" laterStart, levelReading "b" laterStart]) := by
  have hlive := (@completePoll_live_iff String PlainDigest _ _ plainDigests speedContext
    onePollMissing none plainEnding .empty "s"
    [levelReading "a" laterStart, levelReading "b" laterStart]
    (fun c h => by cases h) ?_ (by decide +kernel)).mpr ?_
  · have hown : ((completePoll plainDigests speedContext plainEnding onePollMissing none .empty "s"
        [levelReading "a" laterStart, levelReading "b" laterStart]).db.latest.rows.get
          (levelReading "a" laterStart).content.key).any (fun row =>
            isOwnPolled speedContext plainEnding "s" row.record.content) = true := by
      decide +kernel
    obtain ⟨row, hget, hrow⟩ := (Option.any_eq_true _ _).mp hown
    exact ⟨row, hget, hlive _ _ hget hrow⟩
  · intro draft hdraft row _ _
    rcases List.mem_cons.mp hdraft with rfl | hdraft
    · rfl
    · obtain rfl := List.mem_singleton.mp hdraft
      rfl
  · intro key row hget _ _ w hw
    have hstored : ∀ e ∈ onePollMissing.latest.rows.entries,
        (lastSaid (readingsOf speedContext
          [levelReading "a" laterStart, levelReading "b" laterStart] e.1)).all
            (fun w => decide (e.2.record.content.start ≤ w.content.start)) = true := by
      decide +kernel
    have hrow := hstored _ ((OrderedMap.get_eq_some_iff _).mp hget)
    rw [hw, Option.all_some] at hrow
    exact of_decide_eq_true hrow

/-- **A stated series that stays ended.** The site is stated again with a reading that starts earlier
than the one it held: nothing is withheld, and its series states when it ended. -/
theorem completePoll_leaves_ended :
    (completePoll plainDigests speedContext plainEnding onePollMissing none .empty "s"
        [levelReading "a" .epoch, levelReading "b" laterStart]).withheld = 0 ∧
      ((completePoll plainDigests speedContext plainEnding onePollMissing none .empty "s"
        [levelReading "a" .epoch, levelReading "b" laterStart]).db.latest.rows.get
          ⟨"a", "los", "", "s"⟩).map (fun row => (isOwnPolled speedContext plainEnding "s"
            row.record.content, row.record.content.validUntil)) = some (true, some "now") ∧
      ⟨"a", "los", "", "s"⟩ ∈
        statedSeries [levelReading "a" .epoch, levelReading "b" laterStart] := by
  decide +kernel

end OpenConditions.Storage

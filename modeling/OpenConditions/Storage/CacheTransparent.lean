import OpenConditions.Lib.Run
import OpenConditions.Storage.Observations

set_option relaxedAutoImplicit false
set_option autoImplicit false

/-!
# When the latest cache changes nothing

Polls write with a cache and without one.  An entry that passes its check describes the series' row,
as the content hash covers what the entry holds; so a series the cache shows unchanged would have
been compared unchanged, but for one thing: merged sources are in no content hash and not in the
digest of a restatement, while the comparison weighs them.

## Main definitions

* `OnlyMergedDiffers` — a reading that restates the one in effect in all but its merged sources.
* `pollStep` — polls and what happens in between, with or without the cache.
* `EntryOf` — what an entry of the cache says of a reading.

## Main results

* `outcome_of_cachedUnchanged` — what the cache shows unchanged changes nothing.
* `cache_transparent` — runs with and without the cache write the same.
-/

namespace OpenConditions.Storage

section Rows

variable {J H : Type} [DecidableEq J] [DecidableEq H] {D : Digests J H}
  {ctx : ObservationContext J} {db : ObservationDb J} {series : PendingSeries J}

/-! ## What is loaded -/

/-- A latest row as it is loaded. -/
def latestOf (D : Digests J H) (row : LatestRow J) : Latest J H :=
  { seriesId := row.seriesId
    effectiveFrom := row.record.content.start
    sinceAt := row.sinceAt
    result := row.record.content.result
    contentHash := contentHash D row.record
    templateHash := D.template.of (templateOf row.record)
    creditProvenance := creditProvenance row.record
    baseline := row.record.content.baseline
    contributorReceiptId := row.contributorReceiptId
    expiresAt := row.record.expiresAt
    ended := row.record.content.validUntil.isSome }

omit [DecidableEq J] in
/-- Where the templates match, so do the credits. -/
theorem loadedCredit_eq (row : LatestRow J) :
    loadedCredit D ctx series row = creditProvenance row.record := by
  unfold loadedCredit
  cases series.drafts.head? with
  | none => rfl
  | some draft =>
    by_cases hsame : D.template.of (templateOf row.record) =
        D.template.of (templateOf (sealDraft ctx draft))
    · simp only [hsame, if_true]
      exact (congrArg SeriesTemplate.credit (D.template.injective hsame)).symm
    · simp only [hsame, if_false]

omit [DecidableEq J] in
/-- A row is loaded as it is stored. -/
theorem loadLatest_eq : loadLatest D ctx db series =
    (db.latest.rows.get series.key).map (latestOf D) := by
  unfold loadLatest
  simp only [loadedCredit_eq]
  rfl

/-! ## What an entry says -/

/-- An entry is of a reading of the series. -/
structure EntryOf (D : Digests J H) (key : SeriesKey) (entry : LatestEntry H)
    (o : Observation J) : Prop where
  key : o.content.key = key
  contentHash : entry.contentHash = contentHash D o
  restates : ∀ h, entry.restates = some h →
    h = restatesDigest D o.content.result (creditProvenance o) o.content.baseline
  effectiveFrom : entry.effectiveFrom = o.content.start
  ended : entry.ended = o.content.validUntil.isSome

/-- What every entry of the cache says: it is of some reading of its series. -/
def Describes (D : Digests J H) (key : SeriesKey) (entry : LatestEntry H) : Prop :=
  ∃ o, EntryOf D key entry o

omit [DecidableEq J] in
/-- The check of an entry finds the series' own row, with the content the entry is of. -/
theorem row_of_rowHolds {entry : LatestEntry H} {key : SeriesKey} {o : Observation J}
    (hentry : EntryOf D key entry o) (hrow : rowHolds D ctx db entry = true) :
    ∃ row, db.latest.rows.get key = some row ∧ row.record.content = o.content ∧
      row.record.expiresAt = entry.expiresAt ∧
      ¬(ctx.acquired = true ∧ row.contributorReceiptId = none) := by
  unfold rowHolds at hrow
  rw [List.any_eq_true] at hrow
  obtain ⟨⟨k, row⟩, hmem, hholds⟩ := hrow
  rw [decide_eq_true_iff] at hholds
  obtain ⟨-, hhash, hexpires, hreceipt⟩ := hholds
  have hget := db.latest.rows.get_eq_some_iff.mpr hmem
  have hcontent : row.record.content = o.content :=
    D.content.injective (hhash.trans hentry.contentHash)
  have hkey : k = key := by
    rw [← db.latest.keyed k row hget, LatestRow.key, hcontent, hentry.key]
  exact ⟨row, hkey ▸ hget, hcontent, hexpires, hreceipt⟩

/-! ## What the cache shows unchanged -/

/-- A polled reading restates the one in effect in all but its merged sources: it is newer and
another one, and has the same result, credit and baseline otherwise.  Neither is ended, and the poll
changed no feature it is about. -/
structure OnlyMergedDiffers (ctx : ObservationContext J) (row : LatestRow J)
    (draft : Observation J) : Prop where
  polled : validWhilePolled ctx draft = true
  inEffect : row.record.content.validUntil = none
  validUntil : draft.content.validUntil = none
  unchangedFeature : ∀ featureId, draft.content.featureId = some featureId →
    featureId ∉ ctx.changedFeatures
  content : draft.content ≠ row.record.content
  newer : row.record.content.start ≤ draft.content.start
  result : draft.content.result = row.record.content.result
  attribution : draft.content.attribution = row.record.content.attribution
  upstream : draft.content.upstream = row.record.content.upstream
  baseline : draft.content.baseline = row.record.content.baseline
  expiresAt : draft.expiresAt = row.record.expiresAt
  merged : draft.mergedSources ≠ row.record.mergedSources

/-- A series whose readings change nothing: one is counted unchanged. -/
def silent : SeriesOutcome J H := ⟨1, [], [], [], [], 0, 0⟩

omit [DecidableEq J] in
/-- One draft is compared as it is. -/
theorem comparedDrafts_of_one {draft : Observation J} (h : series.drafts = [draft]) :
    comparedDrafts ctx series = [draft] := by
  unfold comparedDrafts
  rw [h]
  split <;> rfl

/-- A reading that its row shows unchanged, when the row needs no receipt and no other expiry. -/
theorem outcome_of_unchanged {row : LatestRow J} {draft : Observation J}
    (hdrafts : series.drafts = [draft]) (hget : db.latest.rows.get series.key = some row)
    (hrenewed : isRenewed ctx (some (latestOf D row)) (validWhilePolled ctx draft) series = false)
    (hreceipt : ¬(ctx.acquired = true ∧ row.contributorReceiptId = none))
    (hexpires : draft.expiresAt = row.record.expiresAt)
    (hsame : contentHash D row.record = contentHash D draft ∨
      isRestated (validWhilePolled ctx draft)
        (inEffectOf (some (latestOf D row)) false) draft = true ∨
      isSuperseded (some (latestOf D row)) (validWhilePolled ctx draft) false draft = true) :
    outcomeOf D ctx db series = silent := by
  have hheld : loadLatest D ctx db series = some (latestOf D row) := by
    rw [loadLatest_eq, hget, Option.map_some]
  have hcompared : compareSeries D ctx (some (latestOf D row)) series =
      ⟨inEffectOf (some (latestOf D row)) false, 1, [], none, []⟩ := by
    have hbranch : (inEffectOf (some (latestOf D row)) false).hash = some (contentHash D draft) ∨
        isRestated (validWhilePolled ctx draft)
          (inEffectOf (some (latestOf D row)) false) draft = true ∨
        isSuperseded (some (latestOf D row)) (validWhilePolled ctx draft) false draft = true := by
      rcases hsame with hhash | hrest
      · exact Or.inl (congrArg some hhash)
      · exact Or.inr hrest
    have hlegacy : ¬(ctx.acquired = true ∧ (latestOf D row).contributorReceiptId = none ∧
        (!isSuperseded (some (latestOf D row)) (validWhilePolled ctx draft) false draft) = true) :=
      fun h => hreceipt ⟨h.1, h.2.1⟩
    have hmoved : ¬(((latestOf D row).contentHash = contentHash D draft ∨
        (inEffectOf (some (latestOf D row)) false).isHeld = true) ∧
          draft.expiresAt ≠ (latestOf D row).expiresAt) := fun h => h.2 hexpires
    simp only [compareSeries, comparedDrafts_of_one hdrafts, hdrafts, List.head?_cons,
      Option.any_some, List.foldl_cons, List.foldl_nil, hrenewed, compareDraft, if_pos hbranch,
      if_neg hlegacy, if_neg hmoved, List.append_nil, Nat.zero_add]
  simp only [outcomeOf, hheld, hcompared, rowsOf, List.insertionSort_nil, List.foldl_nil,
    Option.toList_none, List.map_nil, silent]

/-- **What the cache shows unchanged.** A series whose one reading the cache shows unchanged changes
nothing, unless the reading differs from the one in effect in its merged sources only. -/
theorem outcome_of_cachedUnchanged {cache : LatestCacheWrite H} (hall : cache.All (Describes D))
    (hcached : cachedUnchanged D ctx db cache series = true)
    (hfits : ∀ row draft, db.latest.rows.get series.key = some row → series.drafts = [draft] →
      ¬OnlyMergedDiffers ctx row draft) :
    outcomeOf D ctx db series = silent := by
  unfold cachedUnchanged at hcached
  cases hentry : cache.get series.key with
  | none => simp [hentry] at hcached
  | some entry =>
    rw [hentry] at hcached
    match hdrafts : series.drafts with
    | [] => simp [hdrafts] at hcached
    | _ :: _ :: _ => simp [hdrafts] at hcached
    | [draft] =>
      simp only [hdrafts, Bool.and_eq_true] at hcached
      obtain ⟨o, ho⟩ := hall.get hentry
      obtain ⟨row, hget, hcontent, hexpires, hreceipt⟩ := row_of_rowHolds ho hcached.2
      have hrowHash : contentHash D row.record = entry.contentHash := by
        rw [ho.contentHash, contentHash, contentHash, hcontent]
      have hholds := hcached.1
      unfold entryHolds at hholds
      rw [Bool.and_eq_true, decide_eq_true_iff] at hholds
      have hexpiry : draft.expiresAt = row.record.expiresAt := hholds.1.trans hexpires.symm
      have hheadDraft : series.drafts.head? = some draft := by rw [hdrafts]; rfl
      cases hpolled : validWhilePolled ctx draft with
      | false =>
        rw [hpolled] at hholds
        have hhash := of_decide_eq_true hholds.2
        refine outcome_of_unchanged hdrafts hget ?_ hreceipt hexpiry
          (Or.inl (hrowHash.trans hhash.symm))
        rw [isRenewed, hpolled, Bool.false_and]
      | true =>
        rw [hpolled] at hholds
        simp only [if_true, Bool.and_eq_true, Bool.or_eq_true, Bool.not_eq_true',
          Bool.or_eq_false_iff, decide_eq_true_iff] at hholds
        obtain ⟨-, ⟨⟨hended, hrestates⟩, hchanged⟩, hsame⟩ := hholds
        have hrenewed : isRenewed ctx (some (latestOf D row)) true series = false := by
          have hrowEnded : (latestOf D row).ended = false := by
            rw [← hended, ho.ended, ← hcontent]
            rfl
          simp only [isRenewed, Option.any_some, hrowEnded, hheadDraft, hchanged, Bool.or_self,
            Bool.and_false]
        refine outcome_of_unchanged hdrafts hget (hpolled ▸ hrenewed) hreceipt hexpiry ?_
        rcases hsame with (hhash | holder) | ⟨huntil, hdigest⟩
        · exact Or.inl (hrowHash.trans hhash.symm)
        · refine Or.inr (Or.inr ?_)
          rw [ho.effectiveFrom, ← hcontent] at holder
          simp only [isSuperseded, hpolled, Bool.not_false, Bool.and_self, Option.any_some,
            Bool.true_and, latestOf]
          exact decide_eq_true holder
        · rw [Option.isNone_iff_eq_none] at huntil
          have hequal := D.restated.injective (ho.restates _ hdigest)
          simp only [creditProvenance, Prod.mk.injEq] at hequal
          obtain ⟨hresult, hattribution, hupstream, hbaseline⟩ := hequal
          rw [← hcontent] at hresult hattribution hupstream hbaseline
          by_cases hnew : draft.content ≠ row.record.content ∧
              row.record.content.start ≤ draft.content.start
          · have hmerged : draft.mergedSources = row.record.mergedSources := by
              by_contra hmerged
              refine hfits row draft hget hdrafts ⟨hpolled, ?_, huntil, fun featureId hid hmem => ?_,
                hnew.1, hnew.2, hresult, hattribution, hupstream, hbaseline, hexpiry, hmerged⟩
              · rw [ho.ended, ← hcontent] at hended
                exact Option.isSome_eq_false_iff.mp hended |> Option.isNone_iff_eq_none.mp
              · rw [hid, Option.any_some] at hchanged
                exact of_decide_eq_false hchanged hmem
            refine Or.inr (Or.inl ?_)
            simp only [isRestated, hpolled, Bool.true_and, inEffectOf, Bool.false_eq_true, if_false,
              latestOf, creditProvenance, decide_eq_true_iff, huntil, hresult, hattribution,
              hupstream, hbaseline, hmerged, and_self]
          · by_cases hcontentSame : draft.content = row.record.content
            · refine Or.inl ?_
              rw [contentHash, contentHash, hcontentSame]
            · refine Or.inr (Or.inr ?_)
              have holder : draft.content.start < row.record.content.start := by
                rw [not_and, not_le] at hnew
                exact hnew hcontentSame
              simp only [isSuperseded, hpolled, Bool.not_false, Bool.and_self, Option.any_some,
                Bool.true_and, latestOf]
              exact decide_eq_true holder

/-! ## The write -/

omit [DecidableEq J] [DecidableEq H] in
/-- What silent series add to a list. -/
theorem flatMap_filter_silent {β : Type} {f : PendingSeries J → SeriesOutcome J H}
    {g : SeriesOutcome J H → List β} (hg : g silent = []) (p : PendingSeries J → Bool)
    (slice : List (PendingSeries J)) (hsilent : ∀ s ∈ slice, p s = false → f s = silent) :
    ((slice.filter p).map f).flatMap g = (slice.map f).flatMap g := by
  induction slice with
  | nil => rfl
  | cons s slice ih =>
    have hrest := ih fun t ht => hsilent t (List.mem_cons_of_mem _ ht)
    cases hp : p s with
    | true =>
      rw [List.filter_cons_of_pos hp, List.map_cons, List.map_cons, List.flatMap_cons,
        List.flatMap_cons, hrest]
    | false =>
      rw [List.filter_cons_of_neg (by simp [hp]), List.map_cons, List.flatMap_cons,
        hsilent s (List.mem_cons_self ..) hp, hg, List.nil_append, hrest]

omit [DecidableEq J] [DecidableEq H] in
/-- What silent series add to a sum. -/
theorem sum_filter_silent {f : PendingSeries J → SeriesOutcome J H} {g : SeriesOutcome J H → ℕ}
    (p : PendingSeries J → Bool) (slice : List (PendingSeries J))
    (hsilent : ∀ s ∈ slice, p s = false → f s = silent) :
    (((slice.filter p).map f).map g).sum + g silent * (slice.filter fun s => !p s).length =
      ((slice.map f).map g).sum := by
  induction slice with
  | nil => simp
  | cons s slice ih =>
    have hrest := ih fun t ht => hsilent t (List.mem_cons_of_mem _ ht)
    cases hp : p s with
    | true =>
      rw [List.filter_cons_of_pos hp, List.filter_cons_of_neg (by simp [hp])]
      simp only [List.map_cons, List.sum_cons]
      omega
    | false =>
      rw [List.filter_cons_of_neg (by simp [hp]), List.filter_cons_of_pos (by simp [hp])]
      simp only [List.map_cons, List.sum_cons, List.length_cons,
        hsilent s (List.mem_cons_self ..) hp, Nat.mul_add, Nat.mul_one]
      omega

omit [DecidableEq J] in
/-- Leaving out silent series changes what is counted unchanged only. -/
theorem applyOutcomes_filter {f : PendingSeries J → SeriesOutcome J H}
    (p : PendingSeries J → Bool) (slice : List (PendingSeries J))
    (hsilent : ∀ s ∈ slice, p s = false → f s = silent) :
    (applyOutcomes D ctx db ((slice.filter p).map f)).1 =
        (applyOutcomes D ctx db (slice.map f)).1 ∧
      { (applyOutcomes D ctx db ((slice.filter p).map f)).2 with
        unchanged := (applyOutcomes D ctx db ((slice.filter p).map f)).2.unchanged +
          (slice.filter fun s => !p s).length } =
        (applyOutcomes D ctx db (slice.map f)).2 := by
  have hlegacy := flatMap_filter_silent (g := SeriesOutcome.legacy) rfl p slice hsilent
  have hmoved := flatMap_filter_silent (g := SeriesOutcome.moved) rfl p slice hsilent
  have hrows := flatMap_filter_silent (g := SeriesOutcome.rows) rfl p slice hsilent
  have hhistory := flatMap_filter_silent (g := SeriesOutcome.history) rfl p slice hsilent
  have hunchanged := sum_filter_silent (g := SeriesOutcome.unchanged) p slice hsilent
  have houtside := sum_filter_silent (g := SeriesOutcome.outsideRetention) p slice hsilent
  have hpast := sum_filter_silent (g := SeriesOutcome.pastRollup) p slice hsilent
  simp only [silent, Nat.one_mul, Nat.zero_mul, Nat.add_zero] at hunchanged houtside hpast
  simp only [applyOutcomes, hlegacy, hmoved, hrows, hhistory, houtside, hpast, hunchanged, and_self]

/-- **One write.** With a cache whose entries are of readings, a slice is written as without one. -/
theorem writeSeries_cached {cache : LatestCacheWrite H} (hall : cache.All (Describes D))
    (slice : List (PendingSeries J))
    (hfits : ∀ series ∈ slice, (cache.get series.key).isSome = true → ∀ row draft,
      db.latest.rows.get series.key = some row → series.drafts = [draft] →
        ¬OnlyMergedDiffers ctx row draft) :
    (writeSeries D ctx db (some cache) slice).1 = (writeSeries D ctx db none slice).1 ∧
      (writeSeries D ctx db (some cache) slice).2.1 = (writeSeries D ctx db none slice).2.1 := by
  have hsilent : ∀ s ∈ slice, (!cachedUnchanged D ctx db cache s) = false →
      outcomeOf D ctx db s = silent := by
    intro s hs hcached
    rw [Bool.not_eq_false'] at hcached
    refine outcome_of_cachedUnchanged hall hcached (hfits s hs ?_)
    unfold cachedUnchanged at hcached
    cases hget : cache.get s.key with
    | none => simp [hget] at hcached
    | some entry => rfl
  obtain ⟨hdb, hcounts⟩ := @applyOutcomes_filter J H _ D ctx db _
    (fun s => !cachedUnchanged D ctx db cache s) slice hsilent
  simp only [Bool.not_not] at hcounts
  simp only [writeSeries, Option.any_some, Option.any_none, Bool.not_false, List.filter_true,
    List.filter_false, List.length_nil, Nat.add_zero]
  exact ⟨hdb, hcounts⟩

/-! ## What the cache learns -/

variable (D ctx) in
/-- A draft is passed over, or becomes a record. -/
theorem records_compareDraft (held : Option (Latest J H)) (polled renewed : Bool)
    (st : Compared J H) (draft : Observation J) :
    (compareDraft D ctx held polled renewed st draft).records = st.records ∨
      (compareDraft D ctx held polled renewed st draft).records =
        st.records ++ [sealDraft ctx draft] := by
  unfold compareDraft
  by_cases hsame : st.inEffect.hash = some (contentHash D draft) ∨
      isRestated polled st.inEffect draft = true ∨
        isSuperseded held polled renewed draft = true
  · exact Or.inl (by simp only [if_pos hsame])
  · exact Or.inr (by simp only [if_neg hsame])

/-- The records of a series are its drafts, sealed. -/
theorem mem_records {held : Option (Latest J H)} {r : Observation J}
    (h : r ∈ (compareSeries D ctx held series).records) :
    ∃ draft ∈ series.drafts, r = sealDraft ctx draft := by
  have hfold : ∀ (drafts : List (Observation J)) (polled renewed : Bool) (st : Compared J H),
      r ∈ (drafts.foldl (compareDraft D ctx held polled renewed) st).records →
        r ∈ st.records ∨ ∃ draft ∈ drafts, r = sealDraft ctx draft := by
    intro drafts polled renewed
    induction drafts with
    | nil => exact fun st h => Or.inl h
    | cons draft drafts ih =>
      intro st h
      rw [List.foldl_cons] at h
      rcases ih _ h with hmem | ⟨d, hd, heq⟩
      · rcases records_compareDraft D ctx held polled renewed st draft with hsame | hadded
        · exact Or.inl (hsame ▸ hmem)
        · rw [hadded, List.mem_append, List.mem_singleton] at hmem
          rcases hmem with hold | hnew
          · exact Or.inl hold
          · exact Or.inr ⟨draft, List.mem_cons_self .., hnew⟩
      · exact Or.inr ⟨d, List.mem_cons_of_mem _ hd, heq⟩
  rcases hfold _ _ _ _ h with hnone | ⟨draft, hdraft, heq⟩
  · cases hnone
  · refine ⟨draft, ?_, heq⟩
    unfold comparedDrafts at hdraft
    split at hdraft
    · exact (List.mem_insertionSort _).mp hdraft
    · exact hdraft

omit [DecidableEq H] in
variable (ctx) in
/-- One record becomes the newest, or leaves it. -/
theorem newest_addRecord (held : Option (Latest J H)) (key : SeriesKey) (st : SeriesRows J)
    (record : Observation J) :
    (addRecord ctx held key st record).newest = st.newest ∨
      ∃ since, (addRecord ctx held key st record).newest = some (record, since) := by
  have hnewest : (addRecord ctx held key st record).newest =
      if held.all fun h => decide (h.effectiveFrom ≤ record.content.start) then
        some (record, (if decide (st.result ≠ some record.content.result) then
          some record.content.start else st.since).getD record.content.start)
      else st.newest := by
    unfold addRecord
    cases st.retentionDays with
    | none => rfl
    | some days =>
      dsimp only
      split
      · split <;> rfl
      · rfl
  rw [hnewest]
  split
  · exact Or.inr ⟨_, rfl⟩
  · exact Or.inl rfl

omit [DecidableEq H] in
/-- The newest reading of a series is one of its records. -/
theorem mem_of_newest {held : Option (Latest J H)} {key : SeriesKey}
    {records : List (Observation J)} {r : Observation J} {since : Instant}
    (h : (rowsOf ctx held key records).newest = some (r, since)) : r ∈ records := by
  have hfold : ∀ (l : List (Observation J)) (st : SeriesRows J),
      (l.foldl (addRecord ctx held key) st).newest = some (r, since) →
        st.newest = some (r, since) ∨ r ∈ l := by
    intro l
    induction l with
    | nil => exact fun st h => Or.inl h
    | cons record l ih =>
      intro st h
      rw [List.foldl_cons] at h
      rcases ih _ h with hst | hmem
      · rcases newest_addRecord ctx held key st record with hsame | ⟨since', hnew⟩
        · exact Or.inl (hsame ▸ hst)
        · rw [hnew, Option.some_inj, Prod.mk.injEq] at hst
          exact Or.inr (hst.1 ▸ List.mem_cons_self ..)
      · exact Or.inr (List.mem_cons_of_mem _ hmem)
  rcases hfold _ _ h with hnone | hmem
  · cases hnone
  · exact (List.mem_insertionSort _).mp hmem

/-- What the cache learns of a series is of a reading of it. -/
theorem learn_describes {cache : LatestCacheWrite H} {db' : ObservationDb J}
    (hall : cache.All (Describes D)) (hkey : ∀ draft ∈ series.drafts, draft.content.key = series.key) :
    (learn D ctx db db' cache series).All (Describes D) := by
  unfold learn
  have hrestates : ∀ {polled : Bool} {x y : H}, (if polled then some x else none) = some y →
      y = x := by
    intro polled x y h
    cases polled with
    | true => exact (Option.some_inj.mp h).symm
    | false => cases h
  dsimp only
  split
  · rename_i newest since hnewest
    obtain ⟨draft, hdraft, heq⟩ := mem_records (mem_of_newest hnewest)
    have hnewestKey : newest.content.key = series.key := by
      rw [heq]
      exact hkey draft hdraft
    split
    · split
      · exact hall.set ⟨newest, hnewestKey, rfl, fun h => hrestates, rfl, rfl⟩
      · exact hall
    · split
      · exact hall.delete _
      · exact hall
  · rename_i h hnone hheld
    rw [loadLatest_eq, Option.map_eq_some_iff] at hheld
    obtain ⟨row, hget, rfl⟩ := hheld
    exact hall.set ⟨row.record, db.latest.keyed _ row hget, rfl, fun h => hrestates, rfl, rfl⟩
  · split
    · exact hall.delete _
    · exact hall

/-- What a write learns is of readings of its series. -/
theorem writeSeries_describes {cache cache' : LatestCacheWrite H}
    (hall : cache.All (Describes D)) {slice : List (PendingSeries J)}
    (hkey : ∀ series ∈ slice, ∀ draft ∈ series.drafts, draft.content.key = series.key)
    (hcache : (writeSeries D ctx db (some cache) slice).2.2 = some cache') :
    cache'.All (Describes D) := by
  have hsee : ∀ (keys : List SeriesKey) (c : LatestCacheWrite H), c.All (Describes D) →
      (keys.foldl LatestCacheWrite.see c).All (Describes D) := by
    intro keys
    induction keys with
    | nil => exact fun c hc => hc
    | cons key keys ih => exact fun c hc => ih _ (hc.see key)
  have hlearn : ∀ (db' : ObservationDb J) (looked : List (PendingSeries J)),
      (∀ series ∈ looked, ∀ draft ∈ series.drafts, draft.content.key = series.key) →
      ∀ c : LatestCacheWrite H, c.All (Describes D) →
        (looked.foldl (learn D ctx db db') c).All (Describes D) := by
    intro db' looked
    induction looked with
    | nil => exact fun _ c hc => hc
    | cons series looked ih =>
      intro hkeys c hc
      exact ih (fun s hs => hkeys s (List.mem_cons_of_mem _ hs)) _
        (learn_describes hc (hkeys series (List.mem_cons_self ..)))
  simp only [writeSeries, Option.map_some, Option.some_inj] at hcache
  subst hcache
  exact hlearn _ _ (fun s hs => hkey s (List.mem_filter.mp hs).1) _ (hsee _ _ hall)

omit [DecidableEq J] [DecidableEq H] in
/-- Drafts stand with their series. -/
theorem key_of_mem_pendingOf {drafts : List (Observation J)} (h : series ∈ pendingOf ctx drafts) :
    ∀ draft ∈ series.drafts, draft.content.key = series.key := by
  have hfold : ∀ (drafts : List (Observation J))
      (pending : OrderedMap SeriesKey (List (Observation J))),
      (∀ key ds, pending.get key = some ds → ∀ d ∈ ds, d.content.key = key) →
      ∀ key ds, (drafts.foldl (addPending ctx) pending).get key = some ds →
        ∀ d ∈ ds, d.content.key = key := by
    intro drafts
    induction drafts with
    | nil => exact fun pending hpending => hpending
    | cons draft drafts ih =>
      intro pending hpending
      rw [List.foldl_cons]
      refine ih _ fun key ds hget d hd => ?_
      simp only [addPending, OrderedMap.get_set] at hget
      by_cases hkey : key = (withoutValidity ctx draft).content.key
      · rw [if_pos hkey, Option.some_inj] at hget
        rw [← hget, List.mem_append, List.mem_singleton] at hd
        rw [hkey]
        rcases hd with hold | rfl
        · cases hbefore : pending.get (withoutValidity ctx draft).content.key with
          | none => simp [hbefore] at hold
          | some before =>
            rw [hbefore] at hold
            exact hpending _ before hbefore d hold
        · rfl
      · rw [if_neg hkey] at hget
        exact hpending key ds hget d hd
  obtain ⟨⟨key, ds⟩, hmem, rfl⟩ := List.mem_map.mp h
  exact hfold drafts .empty (fun _ _ h => by cases h) key ds
    ((OrderedMap.get_eq_some_iff _).mpr hmem)

/-! ## Runs -/

/-- A poll's transaction: the tables as it has left them, and its view of the cache. -/
structure PollTx (J H : Type) where
  db : ObservationDb J
  write : Option (LatestCacheWrite H)

/-- The committed tables, the cache, the poll in progress, and what the writes have counted. -/
structure PollState (J H : Type) where
  db : ObservationDb J
  cache : LatestCache H
  tx : Option (PollTx J H)
  counts : List ObservationCounts

/-- What happens. -/
inductive PollEvent (J : Type) where
  /-- A poll of a source begins. -/
  | begin (sourceId : String) (now : ℤ)
  /-- The poll writes readings. -/
  | write (ctx : ObservationContext J) (drafts : List (Observation J))
  /-- The rest of the poll changes the tables, or other writers do, between polls. -/
  | change (f : ObservationDb J → ObservationDb J)
  /-- The poll commits, and the cache is told. -/
  | commit (now : ℤ)
  /-- The poll rolls back, and the cache is told. -/
  | rollback

/-- The polls of a process, with the cache or without it. -/
def pollStep (D : Digests J H) (useCache : Bool) (s : PollState J H) :
    PollEvent J → Option (PollState J H)
  | .begin sourceId now =>
    match s.tx with
    | some _ => none
    | none =>
      if useCache then
        let (cache, write) := s.cache.begin sourceId now
        some { s with cache := cache, tx := some ⟨s.db, some write⟩ }
      else some { s with tx := some ⟨s.db, none⟩ }
  | .write ctx drafts =>
    match s.tx with
    | none => none
    | some tx =>
      let (db, counts, write) := writeSeries D ctx tx.db tx.write (pendingOf ctx drafts)
      some { s with tx := some ⟨db, write⟩, counts := s.counts ++ [counts] }
  | .change f =>
    match s.tx with
    | none => some { s with db := f s.db }
    | some tx => some { s with tx := some { tx with db := f tx.db } }
  | .commit now =>
    match s.tx with
    | none => none
    | some tx =>
      some { s with
        db := tx.db
        tx := none
        cache :=
          match tx.write with
          | some write => s.cache.commit write now
          | none => s.cache }
  | .rollback =>
    match s.tx with
    | none => none
    | some tx =>
      some { s with
        tx := none
        cache :=
          match tx.write with
          | some write => s.cache.discard write
          | none => s.cache }

/-- The condition on the writes of a run: no poll states, as its only reading of a series that the
cache holds, one that differs from the reading in effect in its merged sources only. -/
def MergedKept (s : PollState J H) : PollEvent J → Prop
  | .write ctx drafts => ∀ tx write, s.tx = some tx → tx.write = some write →
      ∀ series ∈ pendingOf ctx drafts, (write.get series.key).isSome = true →
        ∀ row draft, tx.db.latest.rows.get series.key = some row → series.drafts = [draft] →
          ¬OnlyMergedDiffers ctx row draft
  | _ => True

/-- The poll in progress, with the cache and without it. -/
inductive SameTx (D : Digests J H) : Option (PollTx J H) → Option (PollTx J H) → Prop where
  | none : SameTx D none none
  | some (db : ObservationDb J) (write : LatestCacheWrite H) (h : write.All (Describes D)) :
      SameTx D (some ⟨db, some write⟩) (some ⟨db, none⟩)

/-- A write that leaves the same tables with the cache and without it. -/
theorem sameTx_write {write : LatestCacheWrite H} (hwrite : write.All (Describes D))
    {slice : List (PendingSeries J)}
    (hdb : (writeSeries D ctx db (some write) slice).1 = (writeSeries D ctx db none slice).1)
    (hkey : ∀ series ∈ slice, ∀ draft ∈ series.drafts, draft.content.key = series.key) :
    SameTx D (some ⟨(writeSeries D ctx db (some write) slice).1,
        (writeSeries D ctx db (some write) slice).2.2⟩)
      (some ⟨(writeSeries D ctx db none slice).1, (writeSeries D ctx db none slice).2.2⟩) := by
  have hnone : (writeSeries D ctx db none slice).2.2 = none := rfl
  cases hlearned : (writeSeries D ctx db (some write) slice).2.2 with
  | none => simp [writeSeries] at hlearned
  | some learned =>
    rw [hdb, hnone]
    exact .some _ learned (writeSeries_describes hwrite hkey hlearned)

/-- The polls, with the cache and without it: the same tables and counts, and the entries are of
readings. -/
structure SamePolls (D : Digests J H) (s t : PollState J H) : Prop where
  db : s.db = t.db
  counts : s.counts = t.counts
  tx : SameTx D s.tx t.tx
  cache : s.cache.All (Describes D)

/-- **One step.** What happens with the cache happens without it. -/
theorem SamePolls.step {s t s' : PollState J H} {event : PollEvent J} (h : SamePolls D s t)
    (hfits : MergedKept s event) (hstep : pollStep D true s event = some s') :
    ∃ t', pollStep D false t event = some t' ∧ SamePolls D s' t' := by
  obtain ⟨db, cache, tx, counts⟩ := s
  obtain ⟨db', cache', tx', counts'⟩ := t
  obtain ⟨rfl, rfl, htx, hcache⟩ := h
  dsimp only at htx hcache
  cases htx with
  | none =>
    cases event with
    | begin sourceId now =>
      simp only [pollStep, if_true, Option.some_inj] at hstep
      subst hstep
      obtain ⟨hall, hwrite⟩ := hcache.begin sourceId now
      exact ⟨_, rfl, rfl, rfl, .some db _ hwrite, hall⟩
    | write ctx drafts => cases hstep
    | change f =>
      cases hstep
      exact ⟨_, rfl, rfl, rfl, .none, hcache⟩
    | commit now => cases hstep
    | rollback => cases hstep
  | some txdb write hwrite =>
    cases event with
    | begin sourceId now => cases hstep
    | write ctx drafts =>
      simp only [pollStep, Option.some_inj] at hstep
      subst hstep
      obtain ⟨hdb, hcounts⟩ := @writeSeries_cached J H _ _ D ctx txdb _ hwrite
        (pendingOf ctx drafts) (hfits _ write rfl rfl)
      refine ⟨_, rfl, rfl, congrArg (fun c => counts ++ [c]) hcounts, ?_, hcache⟩
      exact sameTx_write hwrite hdb fun series hseries => key_of_mem_pendingOf hseries
    | change f =>
      cases hstep
      exact ⟨_, rfl, rfl, rfl, .some _ write hwrite, hcache⟩
    | commit now =>
      cases hstep
      exact ⟨_, rfl, rfl, rfl, .none, hcache.commit hwrite now⟩
    | rollback =>
      cases hstep
      exact ⟨_, rfl, rfl, rfl, .none, hcache.discard write⟩

/-- **The cache is an accelerator.** Whatever the tables, the polls and the changes in between, a
run with a cache that starts empty leaves the same latest rows and history rows and counts the same
as without it, while no poll only differs in merged sources from what the cache holds. -/
theorem cache_transparent (budget : ℕ) {events : List (PollEvent J)} {s' : PollState J H}
    (hfits : Transition.Along (pollStep D true) MergedKept
      ⟨db, ⟨.empty, .empty, budget⟩, none, []⟩ events)
    (hrun : Transition.run (pollStep D true) ⟨db, ⟨.empty, .empty, budget⟩, none, []⟩ events =
      some s') :
    ∃ t', Transition.run (pollStep D false) ⟨db, ⟨.empty, .empty, budget⟩, none, []⟩ events =
        some t' ∧ s'.db = t'.db ∧ s'.counts = t'.counts := by
  have hstart : SamePolls D ⟨db, ⟨.empty, .empty, budget⟩, none, []⟩
      ⟨db, ⟨.empty, .empty, budget⟩, none, []⟩ :=
    ⟨rfl, rfl, .none, fun _ _ h => nomatch h⟩
  obtain ⟨t', hrun', hsame⟩ := Transition.run_simulation (R := SamePolls D) (P := MergedKept)
    (fun s t event s' h hP hstep => h.step hP hstep) hstart hfits hrun
  exact ⟨t', hrun', hsame.db, hsame.counts⟩

end Rows

/-! ## A speed that another source also states -/

/-- A digest that is what it digests. -/
inductive PlainDigest where
  | content (c : ObservationContent String)
  | template (t : SeriesTemplate String)
  | restated (r : String × String × Option String × Option String)
  deriving DecidableEq

/-- The digest of a value is the value. -/
def plainDigests : Digests String PlainDigest where
  content := ⟨.content, fun _ _ h => PlainDigest.content.inj h⟩
  template := ⟨.template, fun _ _ h => PlainDigest.template.inj h⟩
  restated := ⟨.restated, fun _ _ h => PlainDigest.restated.inj h⟩

/-- A write of readings of a change-only property. -/
def speedContext : ObservationContext String where
  property _ := ⟨true, false, some 30, false, none⟩
  changedFeatures := []
  acquired := true
  covers _ _ := true
  frontiers _ := none
  sealedFields j := j
  receiptOf sourceId _ := sourceId
  pollOf _ j := j
  sameHistory a b := decide (a = b)
  now := "now"

/-- A feed's reading of the speed on a link. -/
def speedReading (start : Instant) (mergedSources : Option String) : Observation String where
  content := ⟨"id", ⟨"link", "speed", "", "s"⟩, none, none, start, none, "50", none, none, "feed",
    "bulk", "operator", none, "", ""⟩
  mergedSources := mergedSources
  expiresAt := none
  derived := ""

/-- No rows. -/
def noObservations : ObservationDb String := ⟨⟨.empty, fun _ _ h => nomatch h⟩, .empty, 1⟩

/-- One poll states the speed, and the next one restates it with merged sources. -/
def speedPolls (mergedSources : Option String) : List (PollEvent String) :=
  [.begin "s" 0, .write speedContext [speedReading .epoch none], .commit 0,
    .begin "s" 60000, .write speedContext [speedReading ⟨60000, by decide⟩ mergedSources],
    .commit 60000]

/-- Before the polls. -/
def speedStart : PollState String PlainDigest :=
  ⟨noObservations, ⟨.empty, .empty, 10⟩, none, []⟩

/-- A poll that restates a speed is passed over with the cache and without it. -/
theorem cache_transparent_sample :
    ∃ s t, Transition.run (pollStep plainDigests true) speedStart (speedPolls none) = some s ∧
      Transition.run (pollStep plainDigests false) speedStart (speedPolls none) = some t ∧
      s.counts = [⟨1, 1, 0, 0, 0⟩, ⟨0, 0, 1, 0, 0⟩] ∧ s.db = t.db ∧ s.counts = t.counts := by
  have hfits : Transition.Along (pollStep plainDigests true) MergedKept speedStart
      (speedPolls none) := by
    refine ⟨trivial, fun s₁ h₁ => ?_⟩
    cases h₁
    refine ⟨?_, fun s₂ h₂ => ?_⟩
    · intro tx write htx hwrite series hseries hcached
      cases htx
      cases hwrite
      cases hcached
    · cases h₂
      refine ⟨trivial, fun s₃ h₃ => ?_⟩
      cases h₃
      refine ⟨trivial, fun s₄ h₄ => ?_⟩
      cases h₄
      refine ⟨?_, fun s₅ h₅ => ?_⟩
      · intro tx write htx hwrite series hseries _ row draft hrow hdraft hdiffers
        cases htx
        have hpending : pendingOf speedContext [speedReading ⟨60000, by decide⟩ none] =
            [⟨⟨"link", "speed", "", "s"⟩, [speedReading ⟨60000, by decide⟩ none]⟩] := by
          decide
        rw [hpending, List.mem_singleton] at hseries
        subst hseries
        cases hdraft
        have hmerged := congrArg (Option.map fun r => r.record.mergedSources) hrow
        exact hdiffers.merged (Option.some.inj hmerged)
      · cases h₅
        exact ⟨trivial, fun _ _ => trivial⟩
  have hcounts : (Transition.run (pollStep plainDigests true) speedStart (speedPolls none)).map
      PollState.counts = some [⟨1, 1, 0, 0, 0⟩, ⟨0, 0, 1, 0, 0⟩] := by decide +kernel
  cases hrun : Transition.run (pollStep plainDigests true) speedStart (speedPolls none) with
  | none => rw [hrun] at hcounts; cases hcounts
  | some s =>
    rw [hrun, Option.map_some, Option.some_inj] at hcounts
    obtain ⟨t, ht, hdb, hsame⟩ := cache_transparent 10 hfits hrun
    exact ⟨s, t, rfl, ht, hcounts, hdb, hsame⟩

/-- With the cache, the merged sources of a restated speed are passed over; without it, they make a
new latest row and a row of history. -/
theorem merged_sources_skipped :
    (Transition.run (pollStep plainDigests true) speedStart (speedPolls (some "m"))).map
        (fun s => (s.counts, s.db.latest.rows.entries.map fun r => r.2.record.mergedSources)) =
      some ([⟨1, 1, 0, 0, 0⟩, ⟨0, 0, 1, 0, 0⟩], [none]) ∧
    (Transition.run (pollStep plainDigests false) speedStart (speedPolls (some "m"))).map
        (fun s => (s.counts, s.db.latest.rows.entries.map fun r => r.2.record.mergedSources)) =
      some ([⟨1, 1, 0, 0, 0⟩, ⟨1, 1, 0, 0, 0⟩], [some "m"]) := by
  decide +kernel

end OpenConditions.Storage

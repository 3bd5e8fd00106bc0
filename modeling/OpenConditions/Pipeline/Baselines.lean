import OpenConditions.Lib.Quantile
import OpenConditions.Storage.RollupRuns

set_option relaxedAutoImplicit false
set_option autoImplicit false

/-!
# The free flow of measurement sites

The free flow of a site is the 85th percentile of its speeds over some weeks
(`services/ingest/src/pipeline/baseline-derive.ts`).  The readings are kept for days only, so it is
read off the histograms of the hourly rollup: their counts are summed by bin, and the first bin
whose cumulative count reaches the share is taken at its midpoint.

The instant that the statement's clock says is an argument, and the licences that a set of receipts
permits are a parameter.  Counts and speeds are exact, and texts are ordered by their code points.

## Main definitions

* `deriveBatch`, `deriveBaselines` — the statement of a batch of sites, and the batches.
* `movingSpeeds` — the speeds of a site that a baseline is derived from.

## Main results

* `weight_mergedOf` — the merged histogram weighs what the samples of the window do.
* `isQuantile_percentileBin` — what is read off it is a quantile of the bins of the samples.
* `baseline_runs` — how far a derived free flow is from the exact percentile.
-/

namespace OpenConditions.Pipeline

open OpenConditions.Storage

variable {Id : Type} [LinearOrder Id]

/-! ## The statement -/

/-- A series as the statement reads it. -/
structure SiteSeries where
  seriesId : ℕ
  subjectKey : String
  property : String
  component : Option String
  source : String
  deriving DecidableEq

/-- A derived baseline. -/
structure BaselineRow (Id : Type) where
  freeFlowKph : ℚ
  sampleCount : ℕ
  source : Option String
  contributing : List String
  receiptIds : List Id
  permissionLicenses : Option (List String)
  complete : Bool

/-- An hour of a series. -/
abbrev RollupHour (Id : Type) := (ℕ × ℤ) × RollupRow Id

/-- The property whose free flow is derived. -/
def speedProperty : String := "traffic.speed"

/-- The bin width of the speeds' histogram. -/
def speedBinWidthKph : ℕ := 2

/-- The share of the speeds that a free flow is not exceeded by. -/
def freeFlowShare : ℚ := 17 / 20

/-- The speed series of the sites of a batch. -/
def seriesOf (latest : List SiteSeries) (keys : List String) : List SiteSeries :=
  latest.filter fun s =>
    decide (s.subjectKey ∈ keys ∧ s.property = speedProperty ∧ s.component = none)

/-- The hours of some series in a window. -/
def hoursOf (rollups : OrderedMap (ℕ × ℤ) (RollupRow Id)) (series : List SiteSeries)
    (since : ℤ) : List (RollupHour Id) :=
  rollups.entries.filter fun h =>
    decide (h.1.1 ∈ series.map SiteSeries.seriesId ∧ since ≤ h.1.2)

/-- The moving bins of an hour: standstills are left out. -/
def movingBins (h : RollupHour Id) : List ((ℕ × ℕ) × ℕ) :=
  (h.2.histogram.filter fun u => decide (0 < u.1)).map fun u => ((h.1.1, u.1), u.2)

/-- The counts by series and bin, over all the hours. -/
def binnedOf (hours : List (RollupHour Id)) : List ((ℕ × ℕ) × ℕ) :=
  Grouping.totals (hours.flatMap movingBins)

/-- The counts of a series and bin as those of its site. -/
def joinSite (series : List SiteSeries) (b : (ℕ × ℕ) × ℕ) : List ((String × ℕ) × ℕ) :=
  (series.filter fun s => decide (s.seriesId = b.1.1)).map fun s => ((s.subjectKey, b.1.2), b.2)

/-- The counts by site and bin. -/
def mergedOf (series : List SiteSeries) (hours : List (RollupHour Id)) :
    List ((String × ℕ) × ℕ) :=
  Grouping.totals ((binnedOf hours).flatMap (joinSite series))

/-- The cumulative count of a site up to a bin. -/
def cumOf (merged : List ((String × ℕ) × ℕ)) (subject : String) (bin : ℕ) : ℕ :=
  Grouping.weight (fun k => decide (k.1 = subject ∧ k.2 ≤ bin)) merged

/-- The count of a site. -/
def totalOf (merged : List ((String × ℕ) × ℕ)) (subject : String) : ℕ :=
  Grouping.weight (fun k => decide (k.1 = subject)) merged

/-- The bins of a site. -/
def binsOf (merged : List ((String × ℕ) × ℕ)) (subject : String) : List ℕ :=
  (merged.filter fun m => decide (m.1.1 = subject)).map fun m => m.1.2

/-- The first bin whose cumulative count reaches the share. -/
def percentileBin (merged : List ((String × ℕ) × ℕ)) (subject : String) (frac : ℚ) : Option ℕ :=
  ((binsOf merged subject).filter fun bin =>
    decide (frac * totalOf merged subject ≤ cumOf merged subject bin)).min?

/-- A bin as a speed: its midpoint. -/
def midpointKph (bin : ℕ) : ℚ := bin * speedBinWidthKph + speedBinWidthKph / 2

/-- The free flow and the sample count of a site that has samples enough. -/
def medianOf (merged : List ((String × ℕ) × ℕ)) (minSamples : ℕ) (subject : String) :
    Option (ℚ × ℕ) :=
  if binsOf merged subject ≠ [] ∧ minSamples ≤ totalOf merged subject then
    (percentileBin merged subject freeFlowShare).map fun bin =>
      (midpointKph bin, totalOf merged subject)
  else none

/-! ## The lineage -/

/-- The receipts of an hour of a series. -/
structure HourReceipts (Id : Type) where
  seriesId : ℕ
  receiptIds : List Id
  complete : Bool
  deriving DecidableEq

/-- The distinct receipts of the hours with a moving speed. -/
def receiptsOf (hours : List (RollupHour Id)) : List (HourReceipts Id) :=
  ((hours.filter fun h => h.2.histogram.any fun u => decide (0 < u.1)).map fun h =>
    (⟨h.1.1, h.2.receiptIds, h.2.lineageComplete⟩ : HourReceipts Id)).dedup

/-- The licences that all of some permissions are, when each of them names some. -/
def permissionUnion (inputs : List (Option (List String))) : Option (List String) :=
  if inputs ≠ [] ∧ (inputs.all fun i => i.any fun licenses => decide (licenses ≠ [])) then
    some (distinctIds (inputs.flatMap fun i => i.getD []))
  else none

/-- The series of a site with their receipts. -/
def siteReceipts (series : List SiteSeries) (receipts : List (HourReceipts Id))
    (subject : String) : List (SiteSeries × HourReceipts Id) :=
  (receipts.flatMap fun r =>
    (series.filter fun s => decide (s.seriesId = r.seriesId)).map fun s => (s, r)).filter fun sr =>
      decide (sr.1.subjectKey = subject)

/-- The baseline of a site, from its free flow and its receipts. -/
def baselineOf (permissions : List Id → Bool → Option (List String))
    (rows : List (SiteSeries × HourReceipts Id)) (median : ℚ × ℕ) : BaselineRow Id :=
  let licenses := rows.map fun sr => permissions sr.2.receiptIds sr.2.complete
  { freeFlowKph := median.1
    sampleCount := median.2
    source := (distinctIds (rows.map fun sr => sr.1.source)).head?
    contributing := distinctIds (rows.map fun sr => sr.1.source)
    receiptIds := distinctIds (rows.flatMap fun sr => sr.2.receiptIds)
    permissionLicenses := permissionUnion licenses
    complete := licenses.all Option.isSome }

/-- The statement of a batch of sites. -/
def deriveBatch (permissions : List Id → Bool → Option (List String))
    (rollups : OrderedMap (ℕ × ℤ) (RollupRow Id)) (latest : List SiteSeries) (since : ℤ)
    (minSamples : ℕ) (keys : List String) : List (String × BaselineRow Id) :=
  let series := seriesOf latest keys
  let hours := hoursOf rollups series since
  let merged := mergedOf series hours
  let receipts := receiptsOf hours
  (merged.map fun m => m.1.1).dedup.filterMap fun subject =>
    (medianOf merged minSamples subject).bind fun median =>
      let rows := siteReceipts series receipts subject
      -- a site without receipts has no lineage to join
      if rows = [] then none else some (subject, baselineOf permissions rows median)

/-- The sites: the subjects of speed series, in order. -/
def sitesOf (latest : List SiteSeries) : List String :=
  distinctIds ((latest.filter fun s =>
    decide (s.property = speedProperty ∧ s.component = none)).map SiteSeries.subjectKey)

/-- The baselines after every batch of sites. -/
def deriveBaselines (permissions : List Id → Bool → Option (List String))
    (rollups : OrderedMap (ℕ × ℤ) (RollupRow Id)) (latest : List SiteSeries) (now : ℤ)
    (windowDays minSamples batchSites : ℕ) (baselines : OrderedMap String (BaselineRow Id)) :
    OrderedMap String (BaselineRow Id) :=
  ((sitesOf latest).toChunks batchSites).foldl (fun baselines keys =>
    (deriveBatch permissions rollups latest (now - windowDays * dayMs) minSamples keys).foldl
      (fun baselines row => baselines.set row.1 row.2) baselines) baselines

/-! ## The counts of the histograms -/

variable {env : RollupEnv} {w : RollupWorld Id} {latest series : List SiteSeries} {since : ℤ}
  {subject : String} {bin : ℕ}

omit [LinearOrder Id] in
/-- The histogram of some samples says how often each of their bins stands among them. -/
theorem histogram_perm [LinearOrder Id] (xs : List (Sample Id)) :
    (rowOfSamples xs).histogram.Perm
      (Grouping.totals ((xs.filterMap Sample.bin).map fun bin => (bin, 1))) := by
  have hcount : ∀ bin, (xs.countP fun x => decide (x.bin = some bin)) =
      (xs.filterMap Sample.bin).countP fun bin' => decide (bin' = bin) := by
    intro bin
    rw [List.countP_filterMap]
    refine List.countP_congr fun x _ => ?_
    cases x.bin with
    | none => simp
    | some bin' => simp
  rw [Grouping.totals_ones]
  refine (Sorting.sortBy_perm _ _).trans (.of_eq (List.map_congr_left fun bin _ => ?_))
  rw [hcount]

/-- The samples that the hours of some series in a window are the rollups of. -/
def windowSamples (env : RollupEnv) (w : RollupWorld Id) (series : List SiteSeries) (since : ℤ) :
    List (Sample Id) :=
  (samples env w.counted).filter fun x =>
    decide (x.bucket.1 ∈ series.map SiteSeries.seriesId ∧ since ≤ x.bucket.2 ∧
      finished w.store.progress x.bucket.2 = true)

/-- The hours of a window are the rollups of its samples. -/
theorem hoursOf_perm (h : RollupInv env w) (hkept : ∀ cut ∈ w.cuts, cut ≤ since) :
    (hoursOf w.store.rollups series since).Perm
      ((Grouping.keys Sample.bucket (windowSamples env w series since)).map fun key =>
        (key, rowOfSamples
          (Grouping.group Sample.bucket (windowSamples env w series since) key))) := by
  have hgroup : ∀ key : ℕ × ℤ, key.1 ∈ series.map SiteSeries.seriesId → since ≤ key.2 →
      finished w.store.progress key.2 = true →
        Grouping.group Sample.bucket (windowSamples env w series since) key =
          Grouping.group Sample.bucket (samples env w.counted) key := by
    intro key hid hsince hfinished
    unfold Grouping.group windowSamples
    rw [List.filter_filter]
    refine List.filter_congr fun x _ => ?_
    by_cases hx : x.bucket = key
    · rw [hx, decide_eq_true (And.intro hid (And.intro hsince hfinished))]
      exact Bool.and_true _
    · rw [decide_eq_false hx]
      exact Bool.false_and _
  refine (List.perm_ext_iff_of_nodup ?_ ?_).mpr fun row => ?_
  · exact (List.Nodup.of_map _ w.store.rollups.nodup).filter _
  · exact Grouping.nodup_keys.map fun key key' heq => congrArg Prod.fst heq
  · obtain ⟨key, row⟩ := row
    unfold hoursOf
    rw [List.mem_filter, ← OrderedMap.get_eq_some_iff, decide_eq_true_eq]
    constructor
    · rintro ⟨hget, hid, hsince⟩
      rw [h.rollups key fun cut hcut => (hkept cut hcut).trans hsince] at hget
      split_ifs at hget with hfinished
      unfold rollupAt at hget
      dsimp only at hget
      split_ifs at hget with hnil
      cases hget
      have heq := hgroup key hid hsince hfinished
      rw [← heq]
      exact List.mem_map_of_mem (f := fun key => (key, rowOfSamples
        (Grouping.group Sample.bucket (windowSamples env w series since) key)))
        (Grouping.group_ne_nil.mp (heq.symm ▸ hnil))
    · intro hrow
      obtain ⟨key', hkey', heq⟩ := List.mem_map.mp hrow
      obtain ⟨rfl, rfl⟩ := Prod.mk.inj heq
      obtain ⟨x, hx, rfl⟩ := Grouping.mem_keys.mp hkey'
      obtain ⟨hx, hbucket⟩ := List.mem_filter.mp hx
      obtain ⟨hid, hsince, hfinished⟩ := of_decide_eq_true hbucket
      have hne : Grouping.group Sample.bucket (samples env w.counted) x.bucket ≠ [] :=
        Grouping.group_ne_nil.mpr (Grouping.mem_keys.mpr ⟨x, hx, rfl⟩)
      refine ⟨?_, hid, hsince⟩
      rw [h.rollups _ fun cut hcut => (hkept cut hcut).trans hsince, if_pos hfinished,
        hgroup _ hid hsince hfinished]
      exact if_neg hne

/-- The moving samples, by series and bin. -/
def movedBins (xs : List (Sample Id)) : List (ℕ × ℕ) :=
  xs.filterMap fun x => (x.bin.filter fun bin => decide (0 < bin)).map fun bin => (x.bucket.1, bin)

/-- The moving bins of an hour weigh what its moving samples do. -/
theorem weight_movingBins {xs : List (Sample Id)} {key : ℕ × ℤ} (p : ℕ × ℕ → Bool)
    (h : ∀ x ∈ xs, x.bucket = key) :
    Grouping.weight p (movingBins (key, rowOfSamples xs)) = (movedBins xs).countP p := by
  have hweight : Grouping.weight p (movingBins (key, rowOfSamples xs)) =
      Grouping.weight (fun bin => decide (0 < bin) && p (key.1, bin))
        (rowOfSamples xs).histogram := by
    unfold Grouping.weight movingBins
    rw [List.filter_map, List.map_map, List.filter_filter]
    refine congrArg List.sum (congrArg (List.map Prod.snd) (List.filter_congr fun u _ => ?_))
    exact Bool.and_comm _ _
  rw [hweight, Grouping.weight_perm _ (histogram_perm xs), Grouping.weight_totals,
    Grouping.weight_ones, List.countP_filterMap]
  unfold movedBins
  rw [List.countP_filterMap]
  refine List.countP_congr fun x hx => ?_
  rw [h x hx]
  cases x.bin with
  | none => simp
  | some bin => by_cases hbin : 0 < bin <;> simp [hbin, Option.filter]

/-- **The counts by series and bin** weigh what the moving samples of the window do. -/
theorem weight_binnedOf (h : RollupInv env w) (hkept : ∀ cut ∈ w.cuts, cut ≤ since)
    (p : ℕ × ℕ → Bool) :
    Grouping.weight p (binnedOf (hoursOf w.store.rollups series since)) =
      (movedBins (windowSamples env w series since)).countP p := by
  unfold binnedOf
  rw [Grouping.weight_totals, Grouping.weight_perm p ((hoursOf_perm h hkept).flatMap_right _),
    Grouping.weight_flatMap, List.map_map]
  have hgroup : ∀ key ∈ Grouping.keys Sample.bucket (windowSamples env w series since),
      Grouping.weight p (movingBins (key, rowOfSamples
        (Grouping.group Sample.bucket (windowSamples env w series since) key))) =
      (movedBins (Grouping.group Sample.bucket (windowSamples env w series since) key)).countP p :=
    fun key _ => weight_movingBins p fun x hx => (Grouping.mem_group.mp hx).2
  have hcount := Grouping.countP_group Sample.bucket
    (fun x => (((x.bin.filter fun bin => decide (0 < bin)).map fun bin =>
      (x.bucket.1, bin)).map p).getD false) (windowSamples env w series since)
  unfold movedBins at hgroup ⊢
  simp only [List.countP_filterMap] at hgroup ⊢
  exact (congrArg List.sum (List.map_congr_left hgroup)).trans hcount

/-! ## The merged histogram -/

/-- A series is one of a site's. -/
def isSiteSeries (series : List SiteSeries) (subject : String) (seriesId : ℕ) : Bool :=
  series.any fun s => decide (s.seriesId = seriesId ∧ s.subjectKey = subject)

/-- The moving bins of a site, one for each sample. -/
def siteBins (series : List SiteSeries) (subject : String) (xs : List (Sample Id)) : List ℕ :=
  ((movedBins xs).filter fun b => isSiteSeries series subject b.1).map Prod.snd

/-- A series carries its counts to its site. -/
theorem weight_joinSite (hnodup : (series.map SiteSeries.seriesId).Nodup)
    (q : String × ℕ → Bool) (b : (ℕ × ℕ) × ℕ) :
    Grouping.weight q (joinSite series b) =
      if series.any (fun s => decide (s.seriesId = b.1.1) && q (s.subjectKey, b.1.2)) then b.2
      else 0 := by
  unfold joinSite
  induction series with
  | nil => rfl
  | cons s series ih =>
    rw [List.map_cons, List.nodup_cons] at hnodup
    rw [List.any_cons]
    by_cases hs : s.seriesId = b.1.1
    · -- no other series has this id
      have hothers : ∀ s' ∈ series, s'.seriesId ≠ b.1.1 := by
        intro s' hs' heq
        exact hnodup.1 (List.mem_map.mpr ⟨s', hs', heq.trans hs.symm⟩)
      have hnil : series.filter (fun s => decide (s.seriesId = b.1.1)) = [] :=
        List.filter_eq_nil_iff.mpr fun s' hs' heq => hothers s' hs' (of_decide_eq_true heq)
      have hany : series.any (fun s => decide (s.seriesId = b.1.1) && q (s.subjectKey, b.1.2)) =
          false := by
        refine List.any_eq_false.mpr fun s' hs' => ?_
        simp [hothers s' hs']
      have hself : (s :: series).filter (fun s => decide (s.seriesId = b.1.1)) = [s] := by
        rw [@List.filter_cons_of_pos _ (fun s : SiteSeries => decide (s.seriesId = b.1.1)) _ _
          (decide_eq_true hs), hnil]
      rw [hself, hany]
      unfold Grouping.weight
      cases hq : q (s.subjectKey, b.1.2) with
      | true => simp [hs, hq]
      | false => simp [hq]
    · rw [List.filter_cons_of_neg (by simp [hs]), ih hnodup.2, decide_eq_false hs, Bool.false_and,
        Bool.false_or]

/-- **The counts by site and bin** weigh what the moving samples of the sites do. -/
theorem weight_mergedOf (h : RollupInv env w) (hkept : ∀ cut ∈ w.cuts, cut ≤ since)
    (hnodup : (series.map SiteSeries.seriesId).Nodup) (q : String × ℕ → Bool) :
    Grouping.weight q (mergedOf series (hoursOf w.store.rollups series since)) =
      (movedBins (windowSamples env w series since)).countP fun b =>
        series.any fun s => decide (s.seriesId = b.1) && q (s.subjectKey, b.2) := by
  unfold mergedOf
  rw [Grouping.weight_totals, ← weight_binnedOf h hkept]
  exact Grouping.weight_flatMap_ite (fun b => weight_joinSite hnodup q b) _

/-- The cumulative count of a site is the number of its moving samples up to the bin. -/
theorem cumOf_mergedOf (h : RollupInv env w) (hkept : ∀ cut ∈ w.cuts, cut ≤ since)
    (hnodup : (series.map SiteSeries.seriesId).Nodup) :
    cumOf (mergedOf series (hoursOf w.store.rollups series since)) subject bin =
      Quantile.below (siteBins series subject (windowSamples env w series since)) bin := by
  unfold cumOf Quantile.below siteBins isSiteSeries
  rw [weight_mergedOf h hkept hnodup, List.countP_map, List.countP_filter]
  refine List.countP_congr fun b _ => ?_
  simp only [List.any_eq_true, Bool.and_eq_true, decide_eq_true_eq, Function.comp_apply]
  constructor
  · rintro ⟨s, hs, hid, hsubject, hle⟩
    exact ⟨hle, s, hs, hid, hsubject⟩
  · rintro ⟨hle, s, hs, hid, hsubject⟩
    exact ⟨s, hs, hid, hsubject, hle⟩

/-- The count of a site is the number of its moving samples. -/
theorem totalOf_mergedOf (h : RollupInv env w) (hkept : ∀ cut ∈ w.cuts, cut ≤ since)
    (hnodup : (series.map SiteSeries.seriesId).Nodup) :
    totalOf (mergedOf series (hoursOf w.store.rollups series since)) subject =
      (siteBins series subject (windowSamples env w series since)).length := by
  unfold totalOf siteBins isSiteSeries
  rw [weight_mergedOf h hkept hnodup, List.length_map, ← List.countP_eq_length_filter]
  refine List.countP_congr fun b _ => ?_
  simp only [List.any_eq_true, Bool.and_eq_true, decide_eq_true_eq]

/-- A histogram has a bin of every sample. -/
theorem mem_histogram {xs : List (Sample Id)} :
    (∃ c, (bin, c) ∈ (rowOfSamples xs).histogram) ↔ ∃ x ∈ xs, x.bin = some bin := by
  simp only [(histogram_perm xs).mem_iff]
  rw [Grouping.mem_totals]
  constructor
  · rintro ⟨c, hc⟩
    obtain ⟨bin', hbin', heq⟩ := List.mem_map.mp hc
    obtain ⟨rfl, _⟩ := Prod.mk.inj heq
    exact List.mem_filterMap.mp hbin'
  · rintro ⟨x, hx, hbin⟩
    exact ⟨1, List.mem_map_of_mem (List.mem_filterMap.mpr ⟨x, hx, hbin⟩)⟩

/-- An hour has a bin of every sample. -/
theorem mem_movingBins {xs : List (Sample Id)} {key : ℕ × ℤ} {b : ℕ × ℕ}
    (h : ∀ x ∈ xs, x.bucket = key) :
    (∃ c, (b, c) ∈ movingBins (key, rowOfSamples xs)) ↔ b ∈ movedBins xs := by
  obtain ⟨seriesId, bin⟩ := b
  unfold movingBins movedBins
  constructor
  · rintro ⟨c, hc⟩
    obtain ⟨u, hu, heq⟩ := List.mem_map.mp hc
    obtain ⟨hu, hpos⟩ := List.mem_filter.mp hu
    obtain ⟨hpair, rfl⟩ := Prod.mk.inj heq
    obtain ⟨rfl, rfl⟩ := Prod.mk.inj hpair
    obtain ⟨x, hx, hxbin⟩ := Iff.mp mem_histogram ⟨u.2, hu⟩
    refine List.mem_filterMap.mpr ⟨x, hx, ?_⟩
    have hmoving : (some u.1).filter (fun bin => decide (0 < bin)) = some u.1 := if_pos hpos
    rw [hxbin, hmoving, Option.map_some, h x hx]
  · intro hb
    obtain ⟨x, hx, hxb⟩ := List.mem_filterMap.mp hb
    obtain ⟨bin', hfilter, heq⟩ := Option.map_eq_some_iff.mp hxb
    obtain ⟨hxbin, hpos⟩ := Option.filter_eq_some_iff.mp hfilter
    obtain ⟨hseries, rfl⟩ := Prod.mk.inj heq
    obtain ⟨c, hc⟩ := Iff.mpr mem_histogram ⟨x, hx, hxbin⟩
    refine ⟨c, List.mem_map.mpr ⟨(bin', c), List.mem_filter.mpr ⟨hc, hpos⟩, ?_⟩⟩
    rw [← hseries, h x hx]

/-- The bins of a site are those of its moving samples. -/
theorem mem_binsOf (h : RollupInv env w) (hkept : ∀ cut ∈ w.cuts, cut ≤ since) :
    bin ∈ binsOf (mergedOf series (hoursOf w.store.rollups series since)) subject ↔
      bin ∈ siteBins series subject (windowSamples env w series since) := by
  have hmerged : bin ∈ binsOf (mergedOf series (hoursOf w.store.rollups series since)) subject ↔
      ∃ c, ((subject, bin), c) ∈
        (binnedOf (hoursOf w.store.rollups series since)).flatMap (joinSite series) := by
    unfold binsOf
    rw [← Grouping.mem_totals, List.mem_map]
    constructor
    · rintro ⟨⟨⟨subject', bin'⟩, c⟩, hm, rfl⟩
      obtain ⟨hm', hsubject⟩ := List.mem_filter.mp hm
      obtain rfl : subject' = subject := of_decide_eq_true hsubject
      exact ⟨c, hm'⟩
    · rintro ⟨c, hc⟩
      exact ⟨_, List.mem_filter.mpr ⟨hc, decide_eq_true rfl⟩, rfl⟩
  have hbinned : ∀ b : ℕ × ℕ, (∃ c, (b, c) ∈ binnedOf (hoursOf w.store.rollups series since)) ↔
      b ∈ movedBins (windowSamples env w series since) := by
    intro b
    have hperm := (@hoursOf_perm Id _ env w series since h hkept).flatMap_right movingBins
    unfold binnedOf
    rw [Grouping.mem_totals]
    simp only [hperm.mem_iff, List.mem_flatMap]
    constructor
    · rintro ⟨c, hour, hhour, hc⟩
      obtain ⟨key, _, rfl⟩ := List.mem_map.mp hhour
      have hmoved := (mem_movingBins fun x hx => (Grouping.mem_group.mp hx).2).mp ⟨c, hc⟩
      obtain ⟨x, hx, hxb⟩ := List.mem_filterMap.mp hmoved
      exact List.mem_filterMap.mpr ⟨x, (Grouping.mem_group.mp hx).1, hxb⟩
    · intro hb
      obtain ⟨x, hx, hxb⟩ := List.mem_filterMap.mp hb
      have hmoved : b ∈ movedBins (Grouping.group Sample.bucket
          (windowSamples env w series since) x.bucket) :=
        List.mem_filterMap.mpr ⟨x, Grouping.mem_group.mpr ⟨hx, rfl⟩, hxb⟩
      obtain ⟨c, hc⟩ := (mem_movingBins fun x' hx' => (Grouping.mem_group.mp hx').2).mpr hmoved
      exact ⟨c, _, List.mem_map_of_mem (Grouping.mem_keys.mpr ⟨x, hx, rfl⟩), hc⟩
  rw [hmerged]
  unfold siteBins isSiteSeries
  rw [List.mem_map]
  constructor
  · rintro ⟨c, hc⟩
    obtain ⟨b, hb, hjoin⟩ := List.mem_flatMap.mp hc
    obtain ⟨s, hs, heq⟩ := List.mem_map.mp hjoin
    obtain ⟨hs, hid⟩ := List.mem_filter.mp hs
    obtain ⟨hkey, _⟩ := Prod.mk.inj heq
    obtain ⟨hsubject, hbin⟩ := Prod.mk.inj hkey
    refine ⟨b.1, List.mem_filter.mpr ⟨(hbinned b.1).mp ⟨b.2, hb⟩, ?_⟩, hbin⟩
    exact List.any_eq_true.mpr ⟨s, hs, decide_eq_true ⟨of_decide_eq_true hid, hsubject⟩⟩
  · rintro ⟨b, hb, rfl⟩
    obtain ⟨hb', hsite⟩ := List.mem_filter.mp hb
    obtain ⟨s, hs, hs'⟩ := List.any_eq_true.mp hsite
    obtain ⟨hid, rfl⟩ := of_decide_eq_true hs'
    obtain ⟨c, hc⟩ := (hbinned b).mpr hb'
    refine ⟨c, List.mem_flatMap.mpr ⟨(b, c), hc, ?_⟩⟩
    exact List.mem_map.mpr ⟨s, List.mem_filter.mpr ⟨hs, decide_eq_true hid⟩, rfl⟩

/-- **What is read off the merged histogram** is a quantile of the bins of the site's moving
samples. -/
theorem isQuantile_percentileBin (h : RollupInv env w) (hkept : ∀ cut ∈ w.cuts, cut ≤ since)
    (hnodup : (series.map SiteSeries.seriesId).Nodup) {frac : ℚ} :
    percentileBin (mergedOf series (hoursOf w.store.rollups series since)) subject frac =
      some bin ↔
    Quantile.IsQuantile frac (siteBins series subject (windowSamples env w series since)) bin := by
  have hmem : ∀ x, x ∈ (binsOf (mergedOf series (hoursOf w.store.rollups series since))
      subject).filter (fun bin => decide (frac *
        totalOf (mergedOf series (hoursOf w.store.rollups series since)) subject ≤
          cumOf (mergedOf series (hoursOf w.store.rollups series since)) subject bin)) ↔
      x ∈ siteBins series subject (windowSamples env w series since) ∧
        Quantile.Reaches frac (siteBins series subject (windowSamples env w series since)) x := by
    intro x
    unfold Quantile.Reaches
    rw [List.mem_filter, decide_eq_true_eq, mem_binsOf h hkept, cumOf_mergedOf h hkept hnodup,
      totalOf_mergedOf h hkept hnodup]
  unfold percentileBin
  rw [List.min?_eq_some_iff, hmem]
  constructor
  · rintro ⟨⟨hbin, hreach⟩, hleast⟩
    exact ⟨hbin, hreach, fun x hx hreach => hleast x ((hmem x).mpr ⟨hx, hreach⟩)⟩
  · rintro ⟨hbin, hreach, hleast⟩
    refine ⟨⟨hbin, hreach⟩, fun x hx => ?_⟩
    obtain ⟨hx, hreach⟩ := (hmem x).mp hx
    exact hleast x hx hreach

/-! ## The readings behind a baseline -/

/-- The hour of a reading. -/
def hourOf (env : RollupEnv) (o : RawReading Id) : ℤ := floorTo o.start env.period.step

/-- The readings of a site in a window: values, no forecasts, of hours that are finished. -/
def siteReadings (env : RollupEnv) (w : RollupWorld Id) (series : List SiteSeries)
    (subject : String) (since : ℤ) : List (RawReading Id) :=
  w.counted.filter fun o =>
    isSiteSeries series subject o.series &&
      decide (o.issuedAt = none ∧ since ≤ hourOf env o ∧
        finished w.store.progress (hourOf env o) = true)

/-- A reading says that traffic moves. -/
def isMoving (o : RawReading Id) : Bool := o.value.any fun v => decide (2 ≤ v)

omit [LinearOrder Id] in
/-- A reading says that traffic moves when its value does. -/
theorem isMoving_iff {o : RawReading Id} :
    isMoving o = true ↔ ∃ v, o.value = some v ∧ 2 ≤ v := by
  unfold isMoving
  cases o.value with
  | none => simp
  | some v => simp

/-- The speeds of a site that a baseline is derived from. -/
def movingSpeeds (env : RollupEnv) (w : RollupWorld Id) (series : List SiteSeries)
    (subject : String) (since : ℤ) : List ℚ :=
  (siteReadings env w series subject since).filterMap fun o =>
    o.value.filter fun v => decide (2 ≤ v)

/-- The registry rolls speeds up by the hour, with the histogram that free flows are read off. -/
structure RollsUpSpeeds (env : RollupEnv) : Prop where
  hourly : env.period = .hourly
  speeds : env.properties.filter (fun p => decide (p.property = speedProperty)) =
    [⟨speedProperty, some speedBinWidthKph⟩]

/-- The sample of a reading of a speed. -/
def speedSample (env : RollupEnv) (o : RawReading Id) : Option (Sample Id) :=
  o.value.map fun v =>
    ⟨(o.series, hourOf env o), some (binOf speedBinWidthKph v), v, o.receiptId⟩

omit [LinearOrder Id] in
/-- The samples of a reading of a speed. -/
theorem samplesOf_speed (hspeeds : RollsUpSpeeds env) {o : RawReading Id}
    (hproperty : env.propertyOf o.series = some speedProperty) (hissued : o.issuedAt = none) :
    samplesOf env o = (speedSample env o).toList := by
  unfold samplesOf speedSample
  rw [hproperty, hissued]
  cases o.value with
  | none => rfl
  | some v =>
    dsimp only
    rw [hspeeds.speeds]
    rfl

omit [LinearOrder Id] in
/-- A forecast has no samples. -/
theorem samplesOf_forecast {o : RawReading Id} (hissued : o.issuedAt ≠ none) :
    samplesOf env o = [] := by
  unfold samplesOf
  split
  · next h => exact absurd h hissued
  · rfl

omit [LinearOrder Id] in
/-- The samples of a window that are of a site are those of its readings. -/
theorem filter_windowSamples (hspeeds : RollsUpSpeeds env)
    (hproperty : ∀ s ∈ series, env.propertyOf s.seriesId = some speedProperty) :
    (windowSamples env w series since).filter (fun x => isSiteSeries series subject x.bucket.1) =
      (siteReadings env w series subject since).filterMap (speedSample env) := by
  unfold windowSamples samples siteReadings
  induction w.counted with
  | nil => rfl
  | cons o readings ih =>
    rw [List.flatMap_cons, List.filter_append, List.filter_append, ih]
    cases hsite : isSiteSeries series subject o.series with
    | false =>
      have hnone : ((samplesOf env o).filter fun x => decide (x.bucket.1 ∈
          series.map SiteSeries.seriesId ∧ since ≤ x.bucket.2 ∧
            finished w.store.progress x.bucket.2 = true)).filter
          (fun x => isSiteSeries series subject x.bucket.1) = [] := by
        refine List.filter_eq_nil_iff.mpr fun x hx hsite' => ?_
        rw [bucket_of_mem_samplesOf (List.mem_filter.mp hx).1, hsite] at hsite'
        exact Bool.noConfusion hsite'
      rw [hnone, List.nil_append, List.filter_cons_of_neg (by simp [hsite])]
    | true =>
      obtain ⟨s, hs, hs'⟩ := List.any_eq_true.mp hsite
      obtain ⟨hid, _⟩ := of_decide_eq_true hs'
      have hmem : o.series ∈ series.map SiteSeries.seriesId := List.mem_map.mpr ⟨s, hs, hid⟩
      have hspeed : env.propertyOf o.series = some speedProperty := hid ▸ hproperty s hs
      by_cases hissued : o.issuedAt = none
      · rw [samplesOf_speed hspeeds hspeed hissued]
        by_cases hwindow : since ≤ hourOf env o ∧
            finished w.store.progress (hourOf env o) = true
        · rw [List.filter_cons_of_pos (by simp [hsite, hissued, hwindow]), List.filterMap_cons]
          unfold speedSample
          cases o.value with
          | none => rfl
          | some v => simp [hsite, hwindow, List.mem_map.mp hmem]
        · rw [List.filter_cons_of_neg (by simp [hsite, hissued, hwindow])]
          unfold speedSample
          cases o.value with
          | none => rfl
          | some v => simp [hwindow]
      · rw [samplesOf_forecast hissued, List.filter_cons_of_neg (by simp [hissued])]
        rfl

omit [LinearOrder Id] in
/-- The moving bins of a site are those of its samples. -/
theorem siteBins_eq (xs : List (Sample Id)) :
    siteBins series subject xs =
      (xs.filter fun x => isSiteSeries series subject x.bucket.1).filterMap fun x =>
        x.bin.filter fun bin => decide (0 < bin) := by
  unfold siteBins movedBins
  induction xs with
  | nil => rfl
  | cons x xs ih =>
    cases hsite : isSiteSeries series subject x.bucket.1 with
    | false =>
      rw [List.filter_cons_of_neg (by simp [hsite]), List.filterMap_cons, ← ih]
      cases x.bin.filter fun bin => decide (0 < bin) with
      | none => rfl
      | some bin => simp [hsite]
    | true =>
      rw [List.filter_cons_of_pos (by simp [hsite]), List.filterMap_cons, List.filterMap_cons, ← ih]
      cases x.bin.filter fun bin => decide (0 < bin) with
      | none => rfl
      | some bin => simp [hsite]

/-- A value has a bin past the first when it says that traffic moves. -/
theorem binOf_pos {v : ℚ} : 0 < binOf speedBinWidthKph v ↔ 2 ≤ v := by
  unfold binOf speedBinWidthKph
  rw [Int.lt_toNat, Nat.cast_zero, lt_min_iff, lt_max_iff, Int.floor_pos]
  rw [le_div_iff₀ (by norm_num)]
  norm_num

omit [LinearOrder Id] in
/-- **The bins of a site** are those of the speeds that its baseline is derived from. -/
theorem siteBins_windowSamples (hspeeds : RollsUpSpeeds env)
    (hproperty : ∀ s ∈ series, env.propertyOf s.seriesId = some speedProperty) :
    siteBins series subject (windowSamples env w series since) =
      (movingSpeeds env w series subject since).map (binOf speedBinWidthKph) := by
  rw [siteBins_eq, filter_windowSamples hspeeds hproperty, List.filterMap_filterMap]
  unfold movingSpeeds
  rw [List.map_filterMap]
  refine List.filterMap_congr fun o _ => ?_
  unfold speedSample
  cases o.value with
  | none => rfl
  | some v =>
    by_cases hv : 2 ≤ v
    · simp [hv, Option.filter, Iff.mpr binOf_pos hv]
    · simp [hv, Option.filter, mt (Iff.mp binOf_pos) hv]

/-! ## How far a free flow is off -/

/-- The bins stand in the order of their values. -/
theorem binOf_mono : Monotone (binOf speedBinWidthKph) := by
  intro v v' h
  unfold binOf
  refine Int.toNat_le_toNat (min_le_min_left _ (max_le_max_left _ (Int.floor_le_floor ?_)))
  exact div_le_div_of_nonneg_right h (Nat.cast_nonneg _)

/-- The midpoint of a speed's bin is no further than half a bin from it. -/
theorem abs_midpointKph_sub_le {v : ℚ} (hpos : 0 ≤ v) (hlt : v < 65536) :
    |midpointKph (binOf speedBinWidthKph v) - v| ≤ 1 := by
  have hle : (⌊v / 2⌋ : ℚ) ≤ v / 2 := Int.floor_le _
  have hlt' : v / 2 < ⌊v / 2⌋ + 1 := Int.lt_floor_add_one _
  have hfloor : 0 ≤ ⌊v / 2⌋ := Int.floor_nonneg.mpr (by linarith)
  have htop : ⌊v / 2⌋ ≤ 32767 := by
    have hcast : (⌊v / 2⌋ : ℚ) < 32768 := by linarith
    have hint : ⌊v / 2⌋ < 32768 := by exact_mod_cast hcast
    omega
  have hbin : ((binOf speedBinWidthKph v : ℕ) : ℚ) = ⌊v / 2⌋ := by
    have hnat : ((binOf speedBinWidthKph v : ℕ) : ℤ) = ⌊v / 2⌋ := by
      unfold binOf speedBinWidthKph
      rw [Nat.cast_ofNat, max_eq_right hfloor, min_eq_right htop, Int.toNat_of_nonneg hfloor]
    exact_mod_cast hnat
  unfold midpointKph
  rw [hbin, abs_le]
  unfold speedBinWidthKph
  constructor
  · norm_num
    linarith
  · norm_num
    linarith

/-! ## Whom a baseline credits -/

/-- The readings of a site of hours in which traffic moves. -/
def creditedReadings (env : RollupEnv) (w : RollupWorld Id) (series : List SiteSeries)
    (subject : String) (since : ℤ) : List (RawReading Id) :=
  (siteReadings env w series subject since).filter fun o =>
    o.value.isSome && (siteReadings env w series subject since).any fun o' =>
      decide (o'.series = o.series ∧ hourOf env o' = hourOf env o) && isMoving o'

omit [LinearOrder Id] in
/-- A sample of a window that is of a site is that of one of its readings. -/
theorem mem_windowSamples (hspeeds : RollsUpSpeeds env)
    (hproperty : ∀ s ∈ series, env.propertyOf s.seriesId = some speedProperty) {x : Sample Id} :
    x ∈ windowSamples env w series since ∧ isSiteSeries series subject x.bucket.1 = true ↔
      ∃ o ∈ siteReadings env w series subject since, speedSample env o = some x := by
  have hfilter := @filter_windowSamples Id env w series since subject hspeeds hproperty
  rw [← List.mem_filterMap, ← hfilter, List.mem_filter]

omit [LinearOrder Id] in
/-- A reading has a sample when it has a value. -/
theorem speedSample_eq_some {o : RawReading Id} {x : Sample Id} :
    speedSample env o = some x ↔ ∃ v, o.value = some v ∧
      x = ⟨(o.series, hourOf env o), some (binOf speedBinWidthKph v), v, o.receiptId⟩ := by
  unfold speedSample
  rw [Option.map_eq_some_iff]
  constructor
  · rintro ⟨v, hv, rfl⟩
    exact ⟨v, hv, rfl⟩
  · rintro ⟨v, hv, rfl⟩
    exact ⟨v, hv, rfl⟩

/-- The receipts of the window are those of its hours in which traffic moves. -/
theorem mem_receiptsOf (h : RollupInv env w) (hkept : ∀ cut ∈ w.cuts, cut ≤ since)
    {r : HourReceipts Id} :
    r ∈ receiptsOf (hoursOf w.store.rollups series since) ↔
      ∃ key : ℕ × ℤ, (∃ x ∈ Grouping.group Sample.bucket (windowSamples env w series since) key,
        ∃ bin, x.bin = some bin ∧ 0 < bin) ∧
        r.seriesId = key.1 ∧
        r.receiptIds = distinctIds ((Grouping.group Sample.bucket
          (windowSamples env w series since) key).filterMap Sample.receiptId) ∧
        r.complete = (Grouping.group Sample.bucket (windowSamples env w series since) key).all
          fun x => x.receiptId.isSome := by
  unfold receiptsOf
  rw [List.mem_dedup, List.mem_map]
  simp only [List.mem_filter, (hoursOf_perm h hkept).mem_iff, List.any_eq_true, decide_eq_true_eq]
  constructor
  · rintro ⟨hour, ⟨hhour, ⟨b, c⟩, hb, hpos⟩, rfl⟩
    obtain ⟨key, _, rfl⟩ := List.mem_map.mp hhour
    obtain ⟨x, hx, hxbin⟩ := Iff.mp mem_histogram ⟨c, hb⟩
    exact ⟨key, ⟨x, hx, b, hxbin, hpos⟩, rfl, rfl, rfl⟩
  · rintro ⟨key, ⟨x, hx, b, hxbin, hpos⟩, hid, hids, hcomplete⟩
    obtain ⟨c, hc⟩ := Iff.mpr mem_histogram ⟨x, hx, hxbin⟩
    have hkey : key ∈ Grouping.keys Sample.bucket (windowSamples env w series since) :=
      Grouping.group_ne_nil.mp (List.ne_nil_of_mem hx)
    refine ⟨_, ⟨List.mem_map_of_mem hkey, (b, c), hc, hpos⟩, ?_⟩
    obtain ⟨seriesId, receiptIds, complete⟩ := r
    obtain rfl : seriesId = key.1 := hid
    obtain rfl : receiptIds = _ := hids
    obtain rfl : complete = _ := hcomplete
    rfl

omit [LinearOrder Id] in
/-- The receipts of a site are those of its series. -/
theorem mem_siteReceipts {receipts : List (HourReceipts Id)} {s : SiteSeries}
    {r : HourReceipts Id} : (s, r) ∈ siteReceipts series receipts subject ↔
      s ∈ series ∧ r ∈ receipts ∧ s.seriesId = r.seriesId ∧ s.subjectKey = subject := by
  unfold siteReceipts
  rw [List.mem_filter, List.mem_flatMap, decide_eq_true_eq]
  constructor
  · rintro ⟨⟨r', hr', hsr⟩, hsubject⟩
    obtain ⟨s', hs', heq⟩ := List.mem_map.mp hsr
    obtain ⟨rfl, rfl⟩ := Prod.mk.inj heq
    obtain ⟨hs', hid⟩ := List.mem_filter.mp hs'
    exact ⟨hs', hr', of_decide_eq_true hid, hsubject⟩
  · rintro ⟨hs, hr, hid, hsubject⟩
    exact ⟨⟨r, hr, List.mem_map.mpr ⟨s, List.mem_filter.mpr ⟨hs, decide_eq_true hid⟩, rfl⟩⟩,
      hsubject⟩

/-- **The receipts of a site** are those of its series in the hours in which its readings say that
traffic moves. -/
theorem exists_siteReceipts (h : RollupInv env w) (hkept : ∀ cut ∈ w.cuts, cut ≤ since)
    (hspeeds : RollsUpSpeeds env)
    (hproperty : ∀ s ∈ series, env.propertyOf s.seriesId = some speedProperty)
    {P : SiteSeries → List Id → Prop} :
    (∃ sr ∈ siteReceipts series (receiptsOf (hoursOf w.store.rollups series since)) subject,
      P sr.1 sr.2.receiptIds) ↔
    ∃ s ∈ series, s.subjectKey = subject ∧
      ∃ o ∈ siteReadings env w series subject since, o.series = s.seriesId ∧ isMoving o = true ∧
        P s (distinctIds ((Grouping.group Sample.bucket (windowSamples env w series since)
          (o.series, hourOf env o)).filterMap Sample.receiptId)) := by
  constructor
  · rintro ⟨⟨s, r⟩, hsr, hP⟩
    obtain ⟨hs, hr, hid, hsubject⟩ := Iff.mp mem_siteReceipts hsr
    obtain ⟨key, ⟨x, hx, bin, hxbin, hpos⟩, hseries, hids, _⟩ := (mem_receiptsOf h hkept).mp hr
    obtain ⟨hx, hbucket⟩ := Grouping.mem_group.mp hx
    have hsite : isSiteSeries series subject x.bucket.1 = true :=
      List.any_eq_true.mpr ⟨s, hs, decide_eq_true
        ⟨(hid.trans hseries).trans (congrArg Prod.fst hbucket).symm, hsubject⟩⟩
    obtain ⟨o, ho, hsample⟩ := (mem_windowSamples hspeeds hproperty).mp ⟨hx, hsite⟩
    obtain ⟨v, hv, rfl⟩ := Iff.mp speedSample_eq_some hsample
    obtain rfl : bin = _ := (Option.some.inj hxbin).symm
    have hkey : (o.series, hourOf env o) = key := hbucket
    refine ⟨s, hs, hsubject, o, ho, ?_, ?_, ?_⟩
    · exact (congrArg Prod.fst hkey).trans (hid.trans hseries).symm
    · exact Iff.mpr isMoving_iff ⟨v, hv, Iff.mp binOf_pos hpos⟩
    · rw [hkey, ← hids]
      exact hP
  · rintro ⟨s, hs, hsubject, o, ho, hseries, hmoving, hP⟩
    obtain ⟨v, hv, hmoves⟩ := Iff.mp isMoving_iff hmoving
    have hsample : speedSample env o = some _ := Iff.mpr speedSample_eq_some ⟨v, hv, rfl⟩
    obtain ⟨hx, _⟩ := (mem_windowSamples hspeeds hproperty).mpr ⟨o, ho, hsample⟩
    have hr : (⟨o.series, _, _⟩ : HourReceipts Id) ∈
        receiptsOf (hoursOf w.store.rollups series since) :=
      (mem_receiptsOf h hkept).mpr ⟨(o.series, hourOf env o),
        ⟨_, Grouping.mem_group.mpr ⟨hx, rfl⟩, _, rfl, Iff.mpr binOf_pos hmoves⟩, rfl, rfl, rfl⟩
    exact ⟨(s, _), Iff.mpr mem_siteReceipts ⟨hs, hr, hseries.symm, hsubject⟩, hP⟩

/-- A receipt is that of a sample of an hour of a site when it is that of a reading. -/
theorem mem_hour_receiptIds (hspeeds : RollsUpSpeeds env)
    (hproperty : ∀ s ∈ series, env.propertyOf s.seriesId = some speedProperty)
    {key : ℕ × ℤ} (hsite : isSiteSeries series subject key.1 = true) {id : Id} :
    id ∈ distinctIds ((Grouping.group Sample.bucket (windowSamples env w series since)
        key).filterMap Sample.receiptId) ↔
      ∃ o ∈ siteReadings env w series subject since, o.value.isSome = true ∧
        (o.series, hourOf env o) = key ∧ o.receiptId = some id := by
  rw [mem_distinctIds, List.mem_filterMap]
  constructor
  · rintro ⟨x, hx, hid⟩
    obtain ⟨hx', rfl⟩ := Grouping.mem_group.mp hx
    obtain ⟨o, ho, hsample⟩ := (mem_windowSamples hspeeds hproperty).mp ⟨hx', hsite⟩
    obtain ⟨v, hv, rfl⟩ := Iff.mp speedSample_eq_some hsample
    exact ⟨o, ho, by rw [hv]; rfl, rfl, hid⟩
  · rintro ⟨o, ho, hvalue, rfl, hid⟩
    obtain ⟨v, hv⟩ := Option.isSome_iff_exists.mp hvalue
    have hsample : speedSample env o = some _ := Iff.mpr speedSample_eq_some ⟨v, hv, rfl⟩
    obtain ⟨hx, _⟩ := (mem_windowSamples hspeeds hproperty).mpr ⟨o, ho, hsample⟩
    exact ⟨_, Grouping.mem_group.mpr ⟨hx, rfl⟩, hid⟩

/-! ## The row of a site -/

/-- A baseline is derived from the readings of a site: it is of as many speeds, at the midpoint of
the bin of their exact percentile, and credits whose readings are of hours in which traffic moves
and the sources of the series with such an hour. -/
structure DerivedFrom (env : RollupEnv) (w : RollupWorld Id) (series : List SiteSeries)
    (subject : String) (since : ℤ) (row : BaselineRow Id) : Prop where
  sampleCount : row.sampleCount = (movingSpeeds env w series subject since).length
  freeFlow : ∃ q, Quantile.IsQuantile freeFlowShare (movingSpeeds env w series subject since) q ∧
    row.freeFlowKph = midpointKph (binOf speedBinWidthKph q) ∧
    (q < 65536 → |row.freeFlowKph - q| ≤ 1)
  receiptIds : ∀ id, id ∈ row.receiptIds ↔
    ∃ o ∈ creditedReadings env w series subject since, o.receiptId = some id
  contributing : ∀ source, source ∈ row.contributing ↔
    ∃ s ∈ series, s.subjectKey = subject ∧ s.source = source ∧
      ∃ o ∈ siteReadings env w series subject since, o.series = s.seriesId ∧ isMoving o = true

/-- The row of a site in the statement of its batch. -/
def rowFor (permissions : List Id → Bool → Option (List String))
    (rollups : OrderedMap (ℕ × ℤ) (RollupRow Id)) (series : List SiteSeries) (since : ℤ)
    (minSamples : ℕ) (subject : String) : Option (BaselineRow Id) :=
  let hours := hoursOf rollups series since
  (medianOf (mergedOf series hours) minSamples subject).bind fun median =>
    let rows := siteReceipts series (receiptsOf hours) subject
    if rows = [] then none else some (baselineOf permissions rows median)

/-- A statement writes the rows of its sites. -/
theorem mem_deriveBatch {permissions : List Id → Bool → Option (List String)}
    {rollups : OrderedMap (ℕ × ℤ) (RollupRow Id)} {minSamples : ℕ} {keys : List String}
    {row : BaselineRow Id} :
    (subject, row) ∈ deriveBatch permissions rollups latest since minSamples keys ↔
      rowFor permissions rollups (seriesOf latest keys) since minSamples subject = some row := by
  unfold deriveBatch rowFor
  dsimp only
  rw [List.mem_filterMap]
  simp only [Option.bind_eq_some_iff]
  constructor
  · rintro ⟨subject', _, median, hmedian, hrow⟩
    split_ifs at hrow with hrows
    cases hrow
    exact ⟨median, hmedian, if_neg hrows⟩
  · rintro ⟨median, hmedian, hrow⟩
    split_ifs at hrow with hrows
    cases hrow
    refine ⟨subject, List.mem_dedup.mpr ?_, median, hmedian, if_neg hrows⟩
    unfold medianOf at hmedian
    split_ifs at hmedian with hbins
    obtain ⟨bin, hbin⟩ := List.exists_mem_of_ne_nil _ hbins.1
    obtain ⟨m, hm, _⟩ := List.mem_map.mp hbin
    obtain ⟨hm, hsubject⟩ := List.mem_filter.mp hm
    exact List.mem_map.mpr ⟨m, hm, of_decide_eq_true hsubject⟩

omit [LinearOrder Id] in
/-- A reading of a site is one of its series. -/
theorem exists_series_of_mem {o : RawReading Id}
    (ho : o ∈ siteReadings env w series subject since) :
    ∃ s ∈ series, s.subjectKey = subject ∧ s.seriesId = o.series := by
  obtain ⟨_, hcond⟩ := List.mem_filter.mp ho
  obtain ⟨s, hs, hs'⟩ := List.any_eq_true.mp (Bool.and_eq_true_iff.mp hcond).1
  obtain ⟨hid, hsubject⟩ := of_decide_eq_true hs'
  exact ⟨s, hs, hsubject, hid⟩

omit [LinearOrder Id] in
/-- A reading that is credited is of an hour in which traffic moves. -/
theorem mem_creditedReadings {o : RawReading Id} :
    o ∈ creditedReadings env w series subject since ↔
      o ∈ siteReadings env w series subject since ∧ o.value.isSome = true ∧
        ∃ o' ∈ siteReadings env w series subject since,
          (o'.series, hourOf env o') = (o.series, hourOf env o) ∧ isMoving o' = true := by
  unfold creditedReadings
  simp only [List.mem_filter, Bool.and_eq_true, List.any_eq_true, decide_eq_true_eq, Prod.mk.injEq]

/-- The receipts of a site are those of its credited readings. -/
theorem mem_receiptIds (h : RollupInv env w) (hkept : ∀ cut ∈ w.cuts, cut ≤ since)
    (hspeeds : RollsUpSpeeds env)
    (hproperty : ∀ s ∈ series, env.propertyOf s.seriesId = some speedProperty) {id : Id} :
    id ∈ distinctIds ((siteReceipts series (receiptsOf (hoursOf w.store.rollups series since))
        subject).flatMap fun sr => sr.2.receiptIds) ↔
      ∃ o ∈ creditedReadings env w series subject since, o.receiptId = some id := by
  have hrows := @exists_siteReceipts Id _ env w series since subject h hkept hspeeds hproperty
    fun _ ids => id ∈ ids
  rw [mem_distinctIds, List.mem_flatMap, hrows]
  constructor
  · rintro ⟨s, hs, hsubject, o, ho, hseries, hmoving, hid⟩
    have hsite : isSiteSeries series subject o.series = true :=
      List.any_eq_true.mpr ⟨s, hs, decide_eq_true ⟨hseries.symm, hsubject⟩⟩
    obtain ⟨o', ho', hvalue, hkey, hid⟩ := (mem_hour_receiptIds hspeeds hproperty hsite).mp hid
    exact ⟨o', Iff.mpr mem_creditedReadings ⟨ho', hvalue, o, ho, hkey.symm, hmoving⟩, hid⟩
  · rintro ⟨o', ho', hid⟩
    obtain ⟨ho', hvalue, o, ho, hkey, hmoving⟩ := Iff.mp mem_creditedReadings ho'
    obtain ⟨s, hs, hsubject, hseries⟩ := exists_series_of_mem ho
    have hsite : isSiteSeries series subject o.series = true :=
      List.any_eq_true.mpr ⟨s, hs, decide_eq_true ⟨hseries, hsubject⟩⟩
    exact ⟨s, hs, hsubject, o, ho, hseries.symm, hmoving,
      (mem_hour_receiptIds hspeeds hproperty hsite).mpr ⟨o', ho', hvalue, hkey.symm, hid⟩⟩

/-- The sources of a site are those of its series with an hour in which traffic moves. -/
theorem mem_contributing (h : RollupInv env w) (hkept : ∀ cut ∈ w.cuts, cut ≤ since)
    (hspeeds : RollsUpSpeeds env)
    (hproperty : ∀ s ∈ series, env.propertyOf s.seriesId = some speedProperty)
    {source : String} :
    source ∈ distinctIds ((siteReceipts series (receiptsOf (hoursOf w.store.rollups series since))
        subject).map fun sr => sr.1.source) ↔
      ∃ s ∈ series, s.subjectKey = subject ∧ s.source = source ∧
        ∃ o ∈ siteReadings env w series subject since,
          o.series = s.seriesId ∧ isMoving o = true := by
  have hrows := @exists_siteReceipts Id _ env w series since subject h hkept hspeeds hproperty
    fun s _ => s.source = source
  rw [mem_distinctIds, List.mem_map, hrows]
  constructor
  · rintro ⟨s, hs, hsubject, o, ho, hseries, hmoving, hsource⟩
    exact ⟨s, hs, hsubject, hsource, o, ho, hseries, hmoving⟩
  · rintro ⟨s, hs, hsubject, hsource, o, ho, hseries, hmoving⟩
    exact ⟨s, hs, hsubject, o, ho, hseries, hmoving, hsource⟩

/-- **The row of a site** is there when there are speeds enough, and is derived from them. -/
theorem rowFor_spec (h : RollupInv env w) (hkept : ∀ cut ∈ w.cuts, cut ≤ since)
    (hspeeds : RollsUpSpeeds env) (hnodup : (series.map SiteSeries.seriesId).Nodup)
    (hproperty : ∀ s ∈ series, env.propertyOf s.seriesId = some speedProperty)
    (permissions : List Id → Bool → Option (List String)) (minSamples : ℕ) :
    if movingSpeeds env w series subject since ≠ [] ∧
        minSamples ≤ (movingSpeeds env w series subject since).length then
      ∃ row, rowFor permissions w.store.rollups series since minSamples subject = some row ∧
        DerivedFrom env w series subject since row
    else rowFor permissions w.store.rollups series since minSamples subject = none := by
  have hbins := @siteBins_windowSamples Id env w series since subject hspeeds hproperty
  have htotal : totalOf (mergedOf series (hoursOf w.store.rollups series since)) subject =
      (movingSpeeds env w series subject since).length := by
    rw [totalOf_mergedOf h hkept hnodup, hbins, List.length_map]
  have hnil : binsOf (mergedOf series (hoursOf w.store.rollups series since)) subject ≠ [] ↔
      movingSpeeds env w series subject since ≠ [] := by
    rw [not_iff_not, List.eq_nil_iff_forall_not_mem, ← List.map_eq_nil_iff (f := binOf _), ← hbins,
      List.eq_nil_iff_forall_not_mem]
    simp only [mem_binsOf h hkept]
  unfold rowFor medianOf
  dsimp only
  simp only [hnil, htotal]
  by_cases henough : movingSpeeds env w series subject since ≠ [] ∧
      minSamples ≤ (movingSpeeds env w series subject since).length
  · simp only [if_pos henough]
    obtain ⟨q, hq⟩ := Quantile.exists_isQuantile henough.1
      (show freeFlowShare ≤ 1 by unfold freeFlowShare; norm_num)
    have hbin := (isQuantile_percentileBin h hkept hnodup).mpr (hbins ▸ hq.map binOf_mono)
    obtain ⟨o, ho, hov⟩ := List.mem_filterMap.mp hq.mem
    obtain ⟨hv, hmoves⟩ := Option.filter_eq_some_iff.mp hov
    obtain ⟨s, hs, hsubject, hid⟩ := exists_series_of_mem ho
    have hmoving : isMoving o = true := Iff.mpr isMoving_iff ⟨q, hv, of_decide_eq_true hmoves⟩
    obtain ⟨sr, hsr, _⟩ := (@exists_siteReceipts Id _ env w series since subject h hkept hspeeds
      hproperty fun _ _ => True).mpr ⟨s, hs, hsubject, o, ho, hid.symm, hmoving, trivial⟩
    rw [hbin]
    refine ⟨_, if_neg (List.ne_nil_of_mem hsr), rfl, ⟨q, hq, rfl, fun hlt => ?_⟩,
      fun id => mem_receiptIds h hkept hspeeds hproperty,
      fun source => mem_contributing h hkept hspeeds hproperty⟩
    have hpos : (0 : ℚ) ≤ q := zero_le_two.trans (of_decide_eq_true hmoves)
    exact abs_midpointKph_sub_le hpos hlt
  · simp only [if_neg henough]
    rfl

/-! ## The baselines -/

/-- The batches hold every site. -/
theorem flatten_toChunks {α : Type} (n : ℕ) (l : List α) : (l.toChunks n).flatten = l := by
  have hgo : ∀ (l : List α) (under : Array α) (done : Array (List α)) (n : ℕ),
      (List.toChunks.go n l under done).flatten = done.toList.flatten ++ under.toList ++ l := by
    intro l
    induction l with
    | nil =>
      intro under done n
      simp [List.toChunks.go]
    | cons a l ih =>
      intro under done n
      unfold List.toChunks.go
      split_ifs
      · simp [ih]
      · simp [ih]
  cases l with
  | nil => simp [List.toChunks]
  | cons a l =>
    cases n with
    | zero => simp [List.toChunks]
    | succ n => simp [List.toChunks, hgo]

/-- A series of a batch is a speed series of one of its sites. -/
theorem mem_seriesOf {keys : List String} {s : SiteSeries} :
    s ∈ seriesOf latest keys ↔
      s ∈ latest ∧ s.subjectKey ∈ keys ∧ s.property = speedProperty ∧ s.component = none := by
  unfold seriesOf
  rw [List.mem_filter, decide_eq_true_eq]

/-- The series of a site are the same in every batch that it is in. -/
theorem isSiteSeries_seriesOf {keys : List String} (hmem : subject ∈ keys) :
    isSiteSeries (seriesOf latest keys) subject = isSiteSeries (seriesOf latest [subject]) subject := by
  funext seriesId
  refine Bool.eq_iff_iff.mpr ?_
  unfold isSiteSeries
  simp only [List.any_eq_true, decide_eq_true_eq, mem_seriesOf, List.mem_singleton]
  constructor
  · rintro ⟨s, ⟨hs, _, hrest⟩, hid, hsubject⟩
    exact ⟨s, ⟨hs, hsubject, hrest⟩, hid, hsubject⟩
  · rintro ⟨s, ⟨hs, hsubject, hrest⟩, hid, _⟩
    exact ⟨s, ⟨hs, hsubject ▸ hmem, hrest⟩, hid, hsubject⟩

omit [LinearOrder Id] in
/-- The readings of a site are the same in every batch that it is in. -/
theorem siteReadings_seriesOf {keys : List String} (hmem : subject ∈ keys) :
    siteReadings env w (seriesOf latest keys) subject since =
      siteReadings env w (seriesOf latest [subject]) subject since := by
  unfold siteReadings
  rw [isSiteSeries_seriesOf hmem]

omit [LinearOrder Id] in
/-- A site has no readings in a batch that it is not in. -/
theorem movingSpeeds_of_not_mem {keys : List String} (hmem : subject ∉ keys) :
    movingSpeeds env w (seriesOf latest keys) subject since = [] := by
  refine List.eq_nil_iff_forall_not_mem.mpr fun v hv => ?_
  obtain ⟨o, ho, _⟩ := List.mem_filterMap.mp hv
  obtain ⟨s, hs, hsubject, _⟩ := exists_series_of_mem ho
  exact hmem (hsubject ▸ (Iff.mp mem_seriesOf hs).2.1)

omit [LinearOrder Id] in
/-- A row is derived from the readings of a site in every batch that it is in. -/
theorem DerivedFrom.of_batch {keys : List String} (hmem : subject ∈ keys) {row : BaselineRow Id}
    (h : DerivedFrom env w (seriesOf latest keys) subject since row) :
    DerivedFrom env w (seriesOf latest [subject]) subject since row := by
  have hreadings := @siteReadings_seriesOf Id env w latest since subject keys hmem
  obtain ⟨hcount, hflow, hreceipts, hcontributing⟩ := h
  unfold movingSpeeds at hcount hflow
  unfold creditedReadings at hreceipts
  rw [hreadings] at hcount hflow
  simp only [hreadings] at hreceipts hcontributing
  refine ⟨hcount, hflow, hreceipts, fun source => (hcontributing source).trans ?_⟩
  constructor
  · rintro ⟨s, hs, hsubject, hrest⟩
    obtain ⟨hlatest, _, hspeed⟩ := Iff.mp mem_seriesOf hs
    exact ⟨s, Iff.mpr mem_seriesOf ⟨hlatest, List.mem_singleton.mpr hsubject, hspeed⟩,
      hsubject, hrest⟩
  · rintro ⟨s, hs, hsubject, hrest⟩
    obtain ⟨hlatest, _, hspeed⟩ := Iff.mp mem_seriesOf hs
    exact ⟨s, Iff.mpr mem_seriesOf ⟨hlatest, hsubject ▸ hmem, hspeed⟩, hsubject, hrest⟩

/-- The registry and the series agree on the properties, and no series stands twice. -/
structure SpeedSites (env : RollupEnv) (latest : List SiteSeries) : Prop where
  speeds : RollsUpSpeeds env
  nodup : (latest.map SiteSeries.seriesId).Nodup
  property : ∀ s ∈ latest, env.propertyOf s.seriesId = some s.property

/-- A site has speeds enough for a baseline. -/
def HasSamples (env : RollupEnv) (w : RollupWorld Id) (latest : List SiteSeries)
    (subject : String) (since : ℤ) (minSamples : ℕ) : Prop :=
  movingSpeeds env w (seriesOf latest [subject]) subject since ≠ [] ∧
    minSamples ≤ (movingSpeeds env w (seriesOf latest [subject]) subject since).length

/-- The statement of a batch sets the baselines of its sites that have speeds enough. -/
theorem get_deriveBatch (h : RollupInv env w) (hkept : ∀ cut ∈ w.cuts, cut ≤ since)
    (hsites : SpeedSites env latest) (permissions : List Id → Bool → Option (List String))
    (minSamples : ℕ) (keys : List String) (baselines : OrderedMap String (BaselineRow Id)) :
    ((subject ∈ keys ∧ HasSamples env w latest subject since minSamples) ∧
      ∃ row, ((deriveBatch permissions w.store.rollups latest since minSamples keys).foldl
        (fun baselines row => baselines.set row.1 row.2) baselines).get subject = some row ∧
          DerivedFrom env w (seriesOf latest [subject]) subject since row) ∨
    (¬(subject ∈ keys ∧ HasSamples env w latest subject since minSamples) ∧
      ((deriveBatch permissions w.store.rollups latest since minSamples keys).foldl
        (fun baselines row => baselines.set row.1 row.2) baselines).get subject =
          baselines.get subject) := by
  have hget := @OrderedMap.get_foldl_set_rows _ _ _ _
    (rowFor permissions w.store.rollups (seriesOf latest keys) since minSamples)
    (fun _ _ => mem_deriveBatch) baselines subject
  have hnodup : ((seriesOf latest keys).map SiteSeries.seriesId).Nodup :=
    hsites.nodup.sublist (List.filter_sublist.map _)
  have hproperty : ∀ s ∈ seriesOf latest keys, env.propertyOf s.seriesId = some speedProperty := by
    intro s hs
    obtain ⟨hlatest, _, hspeed, _⟩ := Iff.mp mem_seriesOf hs
    rw [hsites.property s hlatest, hspeed]
  have hrow := @rowFor_spec Id _ env w (seriesOf latest keys) since subject h hkept hsites.speeds
    hnodup hproperty permissions minSamples
  rw [hget]
  unfold HasSamples
  by_cases hmem : subject ∈ keys
  · have hspeeds : movingSpeeds env w (seriesOf latest keys) subject since =
        movingSpeeds env w (seriesOf latest [subject]) subject since := by
      unfold movingSpeeds
      rw [siteReadings_seriesOf hmem]
    rw [hspeeds] at hrow
    split_ifs at hrow with henough
    · obtain ⟨row, hrow, hderived⟩ := hrow
      exact .inl ⟨⟨hmem, henough⟩, row, by rw [hrow, Option.some_or], hderived.of_batch hmem⟩
    · exact .inr ⟨fun hand => henough hand.2, by rw [hrow, Option.none_or]⟩
  · rw [movingSpeeds_of_not_mem hmem, if_neg (fun hand => hand.1 rfl)] at hrow
    exact .inr ⟨fun hand => hmem hand.1, by rw [hrow, Option.none_or]⟩

/-- **The batches** set the baselines of the sites that have speeds enough, each from the readings
of its site. -/
theorem get_deriveBaselines (h : RollupInv env w) (hsites : SpeedSites env latest) (now : ℤ)
    (windowDays : ℕ) (hkept : ∀ cut ∈ w.cuts, cut ≤ now - windowDays * dayMs)
    (permissions : List Id → Bool → Option (List String)) (minSamples batchSites : ℕ)
    (baselines : OrderedMap String (BaselineRow Id)) :
    (HasSamples env w latest subject (now - windowDays * dayMs) minSamples →
      ∃ row, (deriveBaselines permissions w.store.rollups latest now windowDays minSamples
          batchSites baselines).get subject = some row ∧
        DerivedFrom env w (seriesOf latest [subject]) subject (now - windowDays * dayMs) row) ∧
    (¬HasSamples env w latest subject (now - windowDays * dayMs) minSamples →
      (deriveBaselines permissions w.store.rollups latest now windowDays minSamples batchSites
        baselines).get subject = baselines.get subject) := by
  have hfold : ∀ (batches : List (List String)) (baselines : OrderedMap String (BaselineRow Id)),
      (((∃ keys ∈ batches, subject ∈ keys) ∧
          HasSamples env w latest subject (now - windowDays * dayMs) minSamples) →
        ∃ row, (batches.foldl (fun baselines keys =>
            (deriveBatch permissions w.store.rollups latest (now - windowDays * dayMs) minSamples
              keys).foldl (fun baselines row => baselines.set row.1 row.2) baselines)
            baselines).get subject = some row ∧
          DerivedFrom env w (seriesOf latest [subject]) subject (now - windowDays * dayMs) row) ∧
      (¬((∃ keys ∈ batches, subject ∈ keys) ∧
          HasSamples env w latest subject (now - windowDays * dayMs) minSamples) →
        (batches.foldl (fun baselines keys =>
          (deriveBatch permissions w.store.rollups latest (now - windowDays * dayMs) minSamples
            keys).foldl (fun baselines row => baselines.set row.1 row.2) baselines)
          baselines).get subject = baselines.get subject) := by
    intro batches
    induction batches with
    | nil =>
      intro baselines
      exact ⟨fun ⟨⟨_, hkeys, _⟩, _⟩ => absurd hkeys List.not_mem_nil, fun _ => rfl⟩
    | cons keys batches ih =>
      intro baselines
      rw [List.foldl_cons]
      obtain ⟨hset, hkeep⟩ := ih ((deriveBatch permissions w.store.rollups latest
        (now - windowDays * dayMs) minSamples keys).foldl
          (fun baselines row => baselines.set row.1 row.2) baselines)
      have hbatch := @get_deriveBatch Id _ env w latest (now - windowDays * dayMs) subject h hkept
        hsites permissions minSamples keys baselines
      constructor
      · rintro ⟨⟨keys', hkeys', hmem⟩, henough⟩
        by_cases hlater : ∃ keys ∈ batches, subject ∈ keys
        · exact hset ⟨hlater, henough⟩
        · rw [hkeep fun hand => hlater hand.1]
          rcases List.mem_cons.mp hkeys' with rfl | hrest
          · rcases hbatch with ⟨_, hrow⟩ | ⟨hnot, _⟩
            · exact hrow
            · exact absurd ⟨hmem, henough⟩ hnot
          · exact absurd ⟨keys', hrest, hmem⟩ hlater
      · intro hnot
        have hlater : ¬((∃ keys ∈ batches, subject ∈ keys) ∧
            HasSamples env w latest subject (now - windowDays * dayMs) minSamples) :=
          fun ⟨⟨keys', hkeys', hmem⟩, henough⟩ =>
            hnot ⟨⟨keys', List.mem_cons_of_mem _ hkeys', hmem⟩, henough⟩
        rw [hkeep hlater]
        rcases hbatch with ⟨⟨hmem, henough⟩, _⟩ | ⟨_, hsame⟩
        · exact absurd ⟨⟨keys, List.mem_cons_self, hmem⟩, henough⟩ hnot
        · exact hsame
  obtain ⟨hset, hkeep⟩ := hfold ((sitesOf latest).toChunks batchSites) baselines
  refine ⟨fun henough => hset ⟨?_, henough⟩, fun hnot => hkeep fun hand => hnot hand.2⟩
  -- a site with speeds is among the sites, and so in one of the batches
  obtain ⟨v, hv⟩ := List.exists_mem_of_ne_nil _ henough.1
  obtain ⟨o, ho, _⟩ := List.mem_filterMap.mp hv
  obtain ⟨s, hs, hsubject, _⟩ := exists_series_of_mem ho
  obtain ⟨hlatest, _, hspeed⟩ := Iff.mp mem_seriesOf hs
  have hsite : subject ∈ sitesOf latest :=
    mem_distinctIds.mpr (List.mem_map.mpr
      ⟨s, List.mem_filter.mpr ⟨hlatest, decide_eq_true hspeed⟩, hsubject⟩)
  rw [← flatten_toChunks batchSites (sitesOf latest)] at hsite
  exact List.mem_flatten.mp hsite

/-- **The free flow of every site in every run of the rollup**: readings come in any order, late or
not, rollups end after any of their transactions, and partitions are dropped behind them.  With the
rollups of the window kept, a site gets a baseline exactly when the readings that count in the
window's finished hours hold moving speeds enough; it is of as many, within one kilometre per hour
of their exact 85th percentile (below the last bin), and credits the receipts of exactly the
readings of hours in which traffic moves. -/
theorem baseline_runs {now now' : ℤ} {ops : List (RollupOp Id)}
    (hrun : Transition.run (rollupStep env) (rollupInit now) ops = some w)
    (hsites : SpeedSites env latest) (windowDays : ℕ)
    (hkept : ∀ cut ∈ w.cuts, cut ≤ now' - windowDays * dayMs)
    (permissions : List Id → Bool → Option (List String)) (minSamples batchSites : ℕ)
    (baselines : OrderedMap String (BaselineRow Id)) :
    (HasSamples env w latest subject (now' - windowDays * dayMs) minSamples →
      ∃ row, (deriveBaselines permissions w.store.rollups latest now' windowDays minSamples
          batchSites baselines).get subject = some row ∧
        DerivedFrom env w (seriesOf latest [subject]) subject (now' - windowDays * dayMs) row) ∧
    (¬HasSamples env w latest subject (now' - windowDays * dayMs) minSamples →
      (deriveBaselines permissions w.store.rollups latest now' windowDays minSamples batchSites
        baselines).get subject = baselines.get subject) :=
  get_deriveBaselines (rollupInv_run hrun) hsites now' windowDays hkept permissions minSamples
    batchSites baselines

/-- The series of one site. -/
def speedSite : SiteSeries := ⟨1, "site", speedProperty, none, "feed"⟩

/-- The registry and the series of the one site agree. -/
theorem speedSites_sample : SpeedSites speedRollup [speedSite] := by
  refine ⟨⟨rfl, by decide⟩, List.nodup_singleton _, fun s hs => ?_⟩
  rw [List.mem_singleton.mp hs]
  rfl

/-- A baseline of the two speeds that were not late. -/
theorem baseline_runs_sample : ∃ w,
    Transition.run (rollupStep speedRollup) (rollupInit 0) lateRun = some w ∧
      ∃ row, (deriveBaselines (fun _ _ => none) w.store.rollups [speedSite] 2419200000 28 2 1000
          .empty).get "site" = some row ∧
        row.sampleCount = 2 ∧ 7 ∈ row.receiptIds := by
  have hderived : ∀ w, Transition.run (rollupStep speedRollup) (rollupInit 0) lateRun = some w →
      ∃ row, (deriveBaselines (fun _ _ => none) w.store.rollups [speedSite] 2419200000 28 2 1000
          .empty).get "site" = some row ∧
        row.sampleCount = 2 ∧ 7 ∈ row.receiptIds := by
    intro w hrun
    obtain ⟨row, hget, hrow⟩ := (@baseline_runs ℕ _ speedRollup w [speedSite] "site" 0 2419200000
      lateRun hrun speedSites_sample 28 (by cases hrun; decide) (fun _ _ => none) 2 1000
      .empty).1 (by cases hrun; unfold HasSamples; decide +kernel)
    refine ⟨row, hget, hrow.sampleCount.trans ?_, (hrow.receiptIds 7).mpr ⟨speedAt 0 50, ?_, rfl⟩⟩
    · cases hrun
      decide +kernel
    · cases hrun
      decide +kernel
  exact ⟨_, rfl, hderived _ rfl⟩

end OpenConditions.Pipeline

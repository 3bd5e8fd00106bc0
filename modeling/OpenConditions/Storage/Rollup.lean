import Mathlib.Algebra.Order.Floor.Ring
import OpenConditions.Lib.Grouping
import OpenConditions.Lib.OrderedMap
import OpenConditions.Lib.Sorting
import OpenConditions.Storage.Partitions

set_option relaxedAutoImplicit false
set_option autoImplicit false

/-!
# The rollups of the observation history

The readings of the history are kept for days; per hour or day and series a rollup stays: how many
readings, their extremes and mean, the histogram of a property that declares one, and the receipts
of their contributors (`packages/storage/src/observation-rollup.ts`).  The statement aggregates
twice: per series, period and bin first, then per series and period.

Instants are milliseconds since 1970, and values exact rational numbers.  The type of the receipts'
ids is ordered as the database orders their texts.

## Main definitions

* `Sample` — a reading that is rolled up, with its bin.
* `binRows`, `rollupRows` — the statement's two aggregates.
* `rowOfSamples` — the aggregate of a period's samples taken at once.

## Main results

* `mem_rollupRows` — the statement writes of every series and period the aggregate of its samples.
-/

namespace OpenConditions.Storage

/-! ## The periods -/

/-- The milliseconds of an hour. -/
def hourMs : ℤ := 3600000

/-- What a rollup covers. -/
inductive RollupPeriod where
  | hourly
  | daily
  deriving DecidableEq

/-- The milliseconds of a period. -/
def RollupPeriod.step : RollupPeriod → ℤ
  | .hourly => hourMs
  | .daily => dayMs

/-- A period has milliseconds. -/
theorem RollupPeriod.step_pos (period : RollupPeriod) : 0 < period.step := by
  cases period with
  | hourly => decide
  | daily => decide

/-- The start of the step that an instant lies in. -/
def floorTo (t step : ℤ) : ℤ := t / step * step

variable {t t' step : ℤ}

/-- A step starts no later than its instants. -/
theorem floorTo_le (hstep : 0 < step) : floorTo t step ≤ t := Int.ediv_mul_le t hstep.ne'

/-- A step starts at a multiple of its length. -/
theorem dvd_floorTo : step ∣ floorTo t step := Dvd.intro_left _ rfl

/-- The steps stand in the order of their instants. -/
theorem floorTo_mono (hstep : 0 < step) (h : t ≤ t') : floorTo t step ≤ floorTo t' step :=
  mul_le_mul_of_nonneg_right (Int.ediv_le_ediv hstep h) hstep.le

/-- A step starts at itself. -/
theorem floorTo_of_dvd (h : step ∣ t) : floorTo t step = t := Int.ediv_mul_cancel h

/-- An instant lies before the start of a step when its own step does. -/
theorem floorTo_lt_iff (hstep : 0 < step) (h : step ∣ t') : floorTo t step < t' ↔ t < t' := by
  constructor
  · intro hlt
    by_contra hle
    have hmono := floorTo_mono hstep (not_lt.mp hle)
    rw [floorTo_of_dvd h] at hmono
    exact absurd hlt (not_lt.mpr hmono)
  · exact (floorTo_le hstep).trans_lt

/-! ## Readings and samples -/

/-- A property that is rolled up, and the bin width of its histogram if it keeps one. -/
structure RolledUp where
  property : String
  binWidth : Option ℚ
  deriving DecidableEq

variable {Id : Type}

/-- A row of the history.  The value is the number or the amount of money read; a forecast has an
issue time. -/
structure RawReading (Id : Type) where
  series : ℕ
  start : ℤ
  issuedAt : Option ℤ
  value : Option ℚ
  receiptId : Option Id
  deriving DecidableEq

/-- What a history row is the row of. -/
def RawReading.key (o : RawReading Id) : ℕ × ℤ × Option ℤ := (o.series, o.start, o.issuedAt)

/-- What a period rolls up, and the property of a series. -/
structure RollupEnv where
  period : RollupPeriod
  properties : List RolledUp
  propertyOf : ℕ → Option String

/-- A reading that is rolled up: its series and period, its bin, its value and receipt. -/
structure Sample (Id : Type) where
  bucket : ℕ × ℤ
  bin : Option ℕ
  v : ℚ
  receiptId : Option Id
  deriving DecidableEq

/-- The bin of a value: clamped at zero, and at the greatest index. -/
def binOf (width v : ℚ) : ℕ := (min 32767 (max 0 ⌊v / width⌋)).toNat

variable {env : RollupEnv}

/-- The samples of a reading: one for each entry of its property, unless it is a forecast or has no
value. -/
def samplesOf (env : RollupEnv) (o : RawReading Id) : List (Sample Id) :=
  match env.propertyOf o.series, o.value, o.issuedAt with
  | some property, some v, none =>
    (env.properties.filter fun w => decide (w.property = property)).map fun w =>
      ⟨(o.series, floorTo o.start env.period.step), w.binWidth.map fun width => binOf width v, v,
        o.receiptId⟩
  | _, _, _ => []

/-- The sample of a reading is one of its period. -/
theorem bucket_of_mem_samplesOf {o : RawReading Id} {x : Sample Id} (h : x ∈ samplesOf env o) :
    x.bucket = (o.series, floorTo o.start env.period.step) := by
  unfold samplesOf at h
  split at h
  · obtain ⟨w, _, rfl⟩ := List.mem_map.mp h
    rfl
  · exact absurd h List.not_mem_nil

/-- The samples of a history. -/
def samples (env : RollupEnv) (readings : List (RawReading Id)) : List (Sample Id) :=
  readings.flatMap (samplesOf env)

/-- The samples of a period are those of the readings that start in it. -/
theorem group_samples_filter {p : ℤ → Bool} {key : ℕ × ℤ} {readings : List (RawReading Id)}
    (h : ∀ o ∈ readings, floorTo o.start env.period.step = key.2 → p o.start = true) :
    Grouping.group Sample.bucket (samples env (readings.filter fun o => p o.start)) key =
      Grouping.group Sample.bucket (samples env readings) key := by
  induction readings with
  | nil => rfl
  | cons o readings ih =>
    have ih := ih fun o' ho' => h o' (List.mem_cons_of_mem _ ho')
    unfold Grouping.group samples at ih ⊢
    cases hp : p o.start with
    | true =>
      rw [@List.filter_cons_of_pos _ (fun o => p o.start) o readings hp, List.flatMap_cons, List.flatMap_cons, List.filter_append,
        List.filter_append, ih]
    | false =>
      have hnone : (samplesOf env o).filter (fun x => decide (x.bucket = key)) = [] := by
        rw [List.filter_eq_nil_iff]
        intro x hx hkey
        have hbucket := (bucket_of_mem_samplesOf hx).symm.trans (of_decide_eq_true hkey)
        have htrue := h o List.mem_cons_self (congrArg Prod.snd hbucket)
        rw [hp] at htrue
        exact Bool.noConfusion htrue
      rw [@List.filter_cons_of_neg _ (fun o => p o.start) o readings (by simp [hp]),
        List.flatMap_cons, List.filter_append,
        hnone, List.nil_append, ih]

/-! ## The statement -/

/-- The first aggregate: the samples of a series, a period and a bin. -/
structure BinRow (Id : Type) where
  bucket : ℕ × ℤ
  bin : Option ℕ
  c : ℕ
  mn : Option ℚ
  mx : Option ℚ
  s : ℚ
  receiptIds : List Id
  complete : Bool

/-- A row of the rollup. -/
structure RollupRow (Id : Type) where
  sampleCount : ℕ
  histogram : List (ℕ × ℕ)
  min : Option ℚ
  max : Option ℚ
  mean : ℚ
  receiptIds : List Id
  lineageComplete : Bool
  deriving DecidableEq

variable [LinearOrder Id]

/-- The distinct ids of a list. -/
def distinctIds (ids : List Id) : List Id := Sorting.sortBy (fun a b => decide (a ≤ b)) ids.dedup

/-- What the first aggregate groups by. -/
def Sample.binKey (x : Sample Id) : (ℕ × ℤ) × Option ℕ := (x.bucket, x.bin)

/-- The first aggregate of a bin's samples. -/
def binRowOf (key : (ℕ × ℤ) × Option ℕ) (xs : List (Sample Id)) : BinRow Id :=
  { bucket := key.1
    bin := key.2
    c := xs.length
    mn := (xs.map Sample.v).min?
    mx := (xs.map Sample.v).max?
    s := (xs.map Sample.v).sum
    receiptIds := distinctIds (xs.filterMap Sample.receiptId)
    complete := xs.all fun x => x.receiptId.isSome }

/-- The first aggregate. -/
def binRows (xs : List (Sample Id)) : List (BinRow Id) :=
  (Grouping.keys Sample.binKey xs).map fun key => binRowOf key (Grouping.group Sample.binKey xs key)

/-- The bins of a histogram in their order. -/
def inBinOrder (histogram : List (ℕ × ℕ)) : List (ℕ × ℕ) :=
  Sorting.sortBy (fun a b => decide (a.1 ≤ b.1)) histogram

/-- The second aggregate of a period's bins. -/
def rollupRowOf (bins : List (BinRow Id)) : RollupRow Id :=
  { sampleCount := (bins.map BinRow.c).sum
    histogram := inBinOrder (bins.filterMap fun b => b.bin.map fun bin => (bin, b.c))
    min := (bins.filterMap BinRow.mn).min?
    max := (bins.filterMap BinRow.mx).max?
    mean := (bins.map BinRow.s).sum / ((bins.map BinRow.c).sum : ℕ)
    receiptIds := distinctIds (bins.flatMap BinRow.receiptIds)
    lineageComplete := bins.all BinRow.complete }

/-- The rows that the statement writes. -/
def rollupRows (xs : List (Sample Id)) : List ((ℕ × ℤ) × RollupRow Id) :=
  (Grouping.keys BinRow.bucket (binRows xs)).map fun key =>
    (key, rollupRowOf (Grouping.group BinRow.bucket (binRows xs) key))

/-! ## The aggregate taken at once -/

/-- The aggregate of the samples of a series and period. -/
def rowOfSamples (xs : List (Sample Id)) : RollupRow Id :=
  { sampleCount := xs.length
    histogram := inBinOrder ((xs.filterMap Sample.bin).dedup.map fun bin =>
      (bin, xs.countP fun x => decide (x.bin = some bin)))
    min := (xs.map Sample.v).min?
    max := (xs.map Sample.v).max?
    mean := (xs.map Sample.v).sum / (xs.length : ℕ)
    receiptIds := distinctIds (xs.filterMap Sample.receiptId)
    lineageComplete := xs.all fun x => x.receiptId.isSome }

/-- The order of the ids. -/
theorem ordersBy_ids : Sorting.OrdersBy fun a b : Id => decide (a ≤ b) where
  total a b := by
    simp only [decide_eq_true_eq]
    exact le_total a b
  trans a b c := by
    simp only [decide_eq_true_eq]
    exact le_trans

/-- The distinct ids of a list are those of another with the same ids. -/
theorem distinctIds_congr {ids ids' : List Id} (h : ∀ id, id ∈ ids ↔ id ∈ ids') :
    distinctIds ids = distinctIds ids' := by
  refine Sorting.sortBy_congr_perm ordersBy_ids (fun a _ b _ hab hba => ?_) ?_
  · exact le_antisymm (of_decide_eq_true hab) (of_decide_eq_true hba)
  · refine (List.perm_ext_iff_of_nodup (List.nodup_dedup _) (List.nodup_dedup _)).mpr fun id => ?_
    rw [List.mem_dedup, List.mem_dedup, h]

/-- An id is among the distinct ones of a list when it is in the list. -/
theorem mem_distinctIds {ids : List Id} {id : Id} : id ∈ distinctIds ids ↔ id ∈ ids := by
  unfold distinctIds
  rw [Sorting.mem_sortBy, List.mem_dedup]

/-! ## The two levels are one -/

/-- The bins of a period are those of its samples. -/
theorem group_binRows (xs : List (Sample Id)) (key : ℕ × ℤ) :
    Grouping.group BinRow.bucket (binRows xs) key =
      binRows (Grouping.group Sample.bucket xs key) := by
  have hkeys := Grouping.keys_group Sample.binKey Prod.fst xs key
  have hgroups : ∀ k : (ℕ × ℤ) × Option ℕ, k.1 = key →
      Grouping.group Sample.binKey (Grouping.group Sample.bucket xs key) k =
        Grouping.group Sample.binKey xs k := by
    rintro k rfl
    exact Grouping.group_group Sample.binKey Prod.fst xs k
  unfold binRows
  rw [show Grouping.keys Sample.binKey (Grouping.group Sample.bucket xs key) = _ from hkeys]
  unfold Grouping.group at hgroups ⊢
  rw [List.filter_map]
  refine List.map_congr_left fun k hk => ?_
  have hkey : k.1 = key := of_decide_eq_true (List.mem_filter.mp hk).2
  rw [hgroups k hkey]

/-- The counts of the bins are those of the samples. -/
theorem sum_c_binRows (xs : List (Sample Id)) :
    ((binRows xs).map BinRow.c).sum = xs.length := by
  have hsum := Grouping.sum_group Sample.binKey (fun _ : Sample Id => 1) xs
  simp only [List.map_const', List.sum_replicate, smul_eq_mul, mul_one] at hsum
  unfold binRows
  rw [List.map_map]
  exact hsum

/-- The sums of the bins are that of the samples. -/
theorem sum_s_binRows (xs : List (Sample Id)) :
    ((binRows xs).map BinRow.s).sum = (xs.map Sample.v).sum := by
  unfold binRows
  rw [List.map_map]
  exact Grouping.sum_group Sample.binKey Sample.v xs

/-- The least of the bins' least values is the samples'. -/
theorem min_binRows (xs : List (Sample Id)) :
    ((binRows xs).filterMap BinRow.mn).min? = (xs.map Sample.v).min? := by
  unfold binRows
  rw [List.filterMap_map]
  exact Grouping.select_group (R := fun a b => a ≤ b) Sample.binKey Sample.v xs
    (fun _ _ => List.min?_eq_some_iff) fun _ => List.min?_eq_none_iff

/-- The greatest of the bins' greatest values is the samples'. -/
theorem max_binRows (xs : List (Sample Id)) :
    ((binRows xs).filterMap BinRow.mx).max? = (xs.map Sample.v).max? := by
  unfold binRows
  rw [List.filterMap_map]
  exact Grouping.select_group (R := fun a b => b ≤ a) Sample.binKey Sample.v xs
    (fun _ _ => List.max?_eq_some_iff) fun _ => List.max?_eq_none_iff

/-- The distinct ids of the bins are those of the samples. -/
theorem ids_binRows (xs : List (Sample Id)) :
    distinctIds ((binRows xs).flatMap BinRow.receiptIds) =
      distinctIds (xs.filterMap Sample.receiptId) := by
  refine distinctIds_congr fun id => ?_
  unfold binRows
  rw [List.mem_flatMap, List.mem_filterMap]
  constructor
  · rintro ⟨b, hb, hid⟩
    obtain ⟨key, _, rfl⟩ := List.mem_map.mp hb
    obtain ⟨x, hx, hid⟩ := List.mem_filterMap.mp (Iff.mp mem_distinctIds hid)
    exact ⟨x, (Grouping.mem_group.mp hx).1, hid⟩
  · rintro ⟨x, hx, hid⟩
    refine ⟨_, List.mem_map_of_mem (Grouping.mem_keys.mpr ⟨x, hx, rfl⟩), ?_⟩
    exact Iff.mpr mem_distinctIds
      (List.mem_filterMap.mpr ⟨x, Grouping.mem_group.mpr ⟨hx, rfl⟩, hid⟩)

/-- The bins are complete when the samples are. -/
theorem complete_binRows (xs : List (Sample Id)) :
    (binRows xs).all BinRow.complete = xs.all fun x => x.receiptId.isSome := by
  refine Bool.eq_iff_iff.mpr ?_
  unfold binRows
  rw [List.all_eq_true, List.all_eq_true]
  constructor
  · intro h x hx
    have hbin := h _ (List.mem_map_of_mem (Grouping.mem_keys.mpr ⟨x, hx, rfl⟩))
    exact List.all_eq_true.mp hbin x (Grouping.mem_group.mpr ⟨hx, rfl⟩)
  · intro h b hb
    obtain ⟨key, _, rfl⟩ := List.mem_map.mp hb
    exact List.all_eq_true.mpr fun x hx => h x (Grouping.mem_group.mp hx).1

/-- The histogram of a period's bins is that of its samples. -/
theorem histogram_binRows {xs : List (Sample Id)} {key : ℕ × ℤ} (h : ∀ x ∈ xs, x.bucket = key) :
    inBinOrder ((binRows xs).filterMap fun b => b.bin.map fun bin => (bin, b.c)) =
      inBinOrder ((xs.filterMap Sample.bin).dedup.map fun bin =>
        (bin, xs.countP fun x => decide (x.bin = some bin))) := by
  have hcount : ∀ bin, (Grouping.group Sample.binKey xs (key, some bin)).length =
      xs.countP fun x => decide (x.bin = some bin) := by
    intro bin
    unfold Grouping.group
    rw [← List.countP_eq_length_filter]
    refine List.countP_congr fun x hx => ?_
    simp [Sample.binKey, h x hx]
  have hfst : ∀ k ∈ Grouping.keys Sample.binKey xs, k.1 = key := by
    intro k hk
    obtain ⟨x, hx, rfl⟩ := Grouping.mem_keys.mp hk
    exact h x hx
  have hmem : ∀ pair, pair ∈ (binRows xs).filterMap (fun b => b.bin.map fun bin => (bin, b.c)) ↔
      pair ∈ (xs.filterMap Sample.bin).dedup.map fun bin =>
        (bin, xs.countP fun x => decide (x.bin = some bin)) := by
    intro pair
    unfold binRows
    rw [List.filterMap_map, List.mem_filterMap, List.mem_map]
    constructor
    · rintro ⟨k, hk, hpair⟩
      obtain ⟨bin, hbin, rfl⟩ := Option.map_eq_some_iff.mp hpair
      obtain ⟨x, hx, rfl⟩ := Grouping.mem_keys.mp hk
      have hbin : x.bin = some bin := hbin
      refine ⟨bin, List.mem_dedup.mpr (List.mem_filterMap.mpr ⟨x, hx, hbin⟩), ?_⟩
      have hk : x.binKey = (key, some bin) := Prod.ext (h x hx) hbin
      rw [hk, ← hcount bin]
      rfl
    · rintro ⟨bin, hbin, rfl⟩
      obtain ⟨x, hx, hbin⟩ := List.mem_filterMap.mp (List.mem_dedup.mp hbin)
      have hk : x.binKey = (key, some bin) := Prod.ext (h x hx) hbin
      refine ⟨(key, some bin), Grouping.mem_keys.mpr ⟨x, hx, hk⟩, ?_⟩
      rw [← hcount bin]
      rfl
  refine Sorting.sortBy_congr_perm ⟨fun a b => ?_, fun a b c => ?_⟩ (fun a ha b hb hab hba => ?_)
    ((List.perm_ext_iff_of_nodup ?_ ?_).mpr hmem)
  · simp only [decide_eq_true_eq]
    exact le_total a.1 b.1
  · simp only [decide_eq_true_eq]
    exact le_trans
  · obtain ⟨bin, _, rfl⟩ := List.mem_map.mp ((hmem a).mp ha)
    obtain ⟨bin', _, rfl⟩ := List.mem_map.mp ((hmem b).mp hb)
    have heq : bin = bin' := le_antisymm (of_decide_eq_true hab) (of_decide_eq_true hba)
    rw [heq]
  · -- a bin of the period has one row, for the period is the same for all of them
    unfold binRows
    rw [List.filterMap_map]
    refine List.pairwise_filterMap.mpr (Grouping.nodup_keys.imp_of_mem fun hk hk' hne => ?_)
    intro pair hpair pair' hpair' heq
    obtain ⟨bin, hbin, rfl⟩ := Option.map_eq_some_iff.mp hpair
    obtain ⟨bin', hbin', rfl⟩ := Option.map_eq_some_iff.mp hpair'
    have hbins : bin = bin' := congrArg Prod.fst heq
    refine hne (Prod.ext ((hfst _ hk).trans (hfst _ hk').symm) ?_)
    exact (show _ = some bin from hbin).trans (hbins ▸ (show _ = some bin' from hbin').symm)
  · exact (List.nodup_dedup _).map fun bin bin' heq => congrArg Prod.fst heq

/-- **The two levels are one**: the second aggregate of the first is the aggregate at once. -/
theorem rollupRowOf_binRows {xs : List (Sample Id)} {key : ℕ × ℤ}
    (h : ∀ x ∈ xs, x.bucket = key) : rollupRowOf (binRows xs) = rowOfSamples xs := by
  unfold rollupRowOf rowOfSamples
  rw [sum_c_binRows, sum_s_binRows, min_binRows, max_binRows, ids_binRows, complete_binRows,
    histogram_binRows h]

/-- **The statement** writes of every series and period the aggregate of its samples. -/
theorem mem_rollupRows {xs : List (Sample Id)} {key : ℕ × ℤ} {row : RollupRow Id} :
    (key, row) ∈ rollupRows xs ↔ Grouping.group Sample.bucket xs key ≠ [] ∧
      row = rowOfSamples (Grouping.group Sample.bucket xs key) := by
  have hrow : rollupRowOf (Grouping.group BinRow.bucket (binRows xs) key) =
      rowOfSamples (Grouping.group Sample.bucket xs key) := by
    rw [group_binRows]
    exact rollupRowOf_binRows fun x hx => (Grouping.mem_group.mp hx).2
  have hkey : key ∈ Grouping.keys BinRow.bucket (binRows xs) ↔
      Grouping.group Sample.bucket xs key ≠ [] := by
    rw [← Grouping.group_ne_nil, group_binRows]
    unfold binRows Grouping.keys
    rw [ne_eq, List.map_eq_nil_iff, List.dedup_eq_nil, List.map_eq_nil_iff]
  unfold rollupRows
  rw [List.mem_map]
  constructor
  · rintro ⟨key', hkey', heq⟩
    obtain ⟨rfl, rfl⟩ := Prod.mk.inj heq
    exact ⟨hkey.mp hkey', hrow⟩
  · rintro ⟨hne, rfl⟩
    exact ⟨key, hkey.mpr hne, Prod.ext rfl hrow⟩

end OpenConditions.Storage

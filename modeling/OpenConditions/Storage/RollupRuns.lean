import OpenConditions.Lib.Run
import OpenConditions.Storage.Rollup

set_option relaxedAutoImplicit false
set_option autoImplicit false

/-!
# Runs of the rollup

A rollup walks from where the last one stopped and writes what it aggregated and how far it got in
one transaction a batch, so that it can end after any of them.  Meanwhile readings are written, late
ones among them, partitions are dropped, and old rollups are pruned.

## Main definitions

* `rollupObservations` — a rollup of which some transactions go through.
* `RollupWorld`, `rollupStep` — the history, its rollups, and what happens to them.

## Main results

* `rolledTo_rollBatch` — what a transaction of the rollup leaves.
* `rollup_runs` — what the rollups are in every run.
-/

namespace OpenConditions.Storage

variable {Id : Type} {env : RollupEnv}

/-! ## A rollup -/

/-- How late a reading may arrive and still count. -/
def rollupLatenessMs : ℤ := 6 * hourMs

/-- The history, the rollups of a period, and how far they got. -/
structure RollupStore (Id : Type) where
  readings : List (RawReading Id)
  rollups : OrderedMap (ℕ × ℤ) (RollupRow Id)
  progress : Option ℤ

section Rollup

variable [LinearOrder Id]

/-- One transaction: the readings of a range are rolled up, and how far that is. -/
def rollBatch (env : RollupEnv) (first upTo : ℤ) (s : RollupStore Id) : RollupStore Id :=
  { s with
    rollups := (rollupRows (samples env
      (s.readings.filter fun o => decide (first ≤ o.start ∧ o.start < upTo)))).foldl
        (fun rollups row => rollups.set row.1 row.2) s.rollups
    progress := some (max (s.progress.getD upTo) upTo) }

/-- The range of one transaction. -/
def batchMs (period : RollupPeriod) : ℤ := max (24 * hourMs) period.step

/-- The transactions of a rollup, up to the one that it ends with. -/
def rollBatches (env : RollupEnv) (cutoff : ℤ) : ℕ → ℤ → RollupStore Id → RollupStore Id
  | 0, _, s => s
  | transactions + 1, first, s =>
    if first < cutoff then
      let upTo := min (first + batchMs env.period) cutoff
      rollBatches env cutoff transactions upTo (rollBatch env first upTo s)
    else s

/-- Where a rollup starts: where the last one stopped, or at the oldest reading. -/
def rollupStart (env : RollupEnv) (s : RollupStore Id) : Option ℤ :=
  (s.progress.or (s.readings.map RawReading.start).min?).map fun t => floorTo t env.period.step

/-- The instant up to which periods have ended long enough ago. -/
def rollupCutoff (env : RollupEnv) (now : ℤ) : ℤ :=
  floorTo (now - rollupLatenessMs) env.period.step

/-- A rollup of which some transactions go through. -/
def rollupObservations (env : RollupEnv) (now : ℤ) (transactions : ℕ) (s : RollupStore Id) :
    RollupStore Id :=
  if env.properties = [] then s
  else
    match rollupStart env s with
    | none => s
    | some first => rollBatches env (rollupCutoff env now) transactions first s

end Rollup

/-! ## What happens to a history -/

/-- A reading is written: its row takes the place of one of the same key. -/
def upsertReading (o : RawReading Id) (readings : List (RawReading Id)) : List (RawReading Id) :=
  readings.filter (fun o' => decide (o'.key ≠ o.key)) ++ [o]

/-- A period is finished: the rollups got past it. -/
def finished (progress : Option ℤ) (t : ℤ) : Bool := progress.any fun p => decide (t < p)

/-- A history in time.  What was written before the rollups got past it counts; what was written
later does not, and is listed with the instant of its write.  Rollups were pruned up to the
cuts. -/
structure RollupWorld (Id : Type) where
  now : ℤ
  store : RollupStore Id
  counted : List (RawReading Id)
  past : List (RawReading Id × ℤ)
  cuts : List ℤ

/-- What can happen. -/
inductive RollupOp (Id : Type) where
  | tick (later : ℤ)
  | write (o : RawReading Id)
  | roll (transactions : ℕ)
  | drop (before : ℤ)
  | prune (cut : ℤ)

variable [LinearOrder Id]

/-- One of the things that can happen.  The clock does not go back, and no reading is dropped that
the rollups have not got past. -/
def rollupStep (env : RollupEnv) (w : RollupWorld Id) : RollupOp Id → Option (RollupWorld Id)
  | .tick later => if w.now ≤ later then some { w with now := later } else none
  | .write o =>
    let store := { w.store with readings := upsertReading o w.store.readings }
    if finished w.store.progress o.start then
      some { w with store := store, past := (o, w.now) :: w.past }
    else some { w with store := store, counted := upsertReading o w.counted }
  | .roll transactions =>
    some { w with store := rollupObservations env w.now transactions w.store }
  | .drop before =>
    if w.store.progress.any fun p => decide (before ≤ p) then
      some { w with
        store := { w.store with
          readings := w.store.readings.filter fun o => decide (before ≤ o.start) } }
    else none
  | .prune cut =>
    some { w with
      store := { w.store with
        rollups := w.store.rollups.filter fun row => decide (cut ≤ row.1.2) }
      cuts := cut :: w.cuts }

/-- A history before its first reading. -/
def rollupInit (now : ℤ) : RollupWorld Id := ⟨now, ⟨[], .empty, none⟩, [], [], []⟩

/-- The rollup that a series and period should have: that of its samples, if there are any. -/
def rollupAt (env : RollupEnv) (readings : List (RawReading Id)) (key : ℕ × ℤ) :
    Option (RollupRow Id) :=
  let xs := Grouping.group Sample.bucket (samples env readings) key
  if xs = [] then none else some (rowOfSamples xs)

/-! ## A transaction -/

/-- The rollups are those of the counted readings up to an instant, where they are not pruned. -/
structure RolledTo (env : RollupEnv) (counted : List (RawReading Id)) (cuts : List ℤ) (first : ℤ)
    (s : RollupStore Id) : Prop where
  grid : env.period.step ∣ first
  readings : s.readings.filter (fun o => decide (first ≤ o.start)) =
    counted.filter fun o => decide (first ≤ o.start)
  rollups : ∀ key : ℕ × ℤ, (∀ cut ∈ cuts, cut ≤ key.2) →
    s.rollups.get key = if key.2 < first then rollupAt env counted key else none
  progress : s.progress = none ∨ s.progress = some first

/-- What a rollup should be is told by the readings of its period. -/
theorem rollupAt_filter {readings : List (RawReading Id)} {key : ℕ × ℤ} (p : ℤ → Bool)
    (h : ∀ o ∈ readings, floorTo o.start env.period.step = key.2 → p o.start = true) :
    rollupAt env (readings.filter fun o => p o.start) key = rollupAt env readings key := by
  unfold rollupAt
  rw [group_samples_filter h]

/-- Without a reading of its period there is no rollup. -/
theorem rollupAt_eq_none {readings : List (RawReading Id)} {key : ℕ × ℤ}
    (h : ∀ o ∈ readings, floorTo o.start env.period.step ≠ key.2) :
    rollupAt env readings key = none := by
  have hfilter := @rollupAt_filter Id env _ readings key (fun _ => false)
    fun o ho hkey => absurd hkey (h o ho)
  rw [← hfilter, List.filter_false]
  rfl

/-- What a rollup should be before an instant is told by the readings before it. -/
theorem rollupAt_congr {readings readings' : List (RawReading Id)} {key : ℕ × ℤ} {p : ℤ}
    (hgrid : env.period.step ∣ p) (hkey : key.2 < p)
    (h : readings.filter (fun o => decide (o.start < p)) =
      readings'.filter fun o => decide (o.start < p)) :
    rollupAt env readings key = rollupAt env readings' key := by
  have hbefore : ∀ o : RawReading Id, floorTo o.start env.period.step = key.2 →
      decide (o.start < p) = true := by
    intro o ho
    exact decide_eq_true ((floorTo_lt_iff env.period.step_pos hgrid).mp (ho ▸ hkey))
  rw [← rollupAt_filter (fun t => decide (t < p)) fun o _ => hbefore o, h,
    rollupAt_filter (fun t => decide (t < p)) fun o _ => hbefore o]

/-- What a transaction finds of a series and period: what it rolls up of it, or what was there. -/
theorem get_rollBatch {first upTo : ℤ} {s : RollupStore Id} {key : ℕ × ℤ} :
    (rollBatch env first upTo s).rollups.get key =
      (rollupAt env (s.readings.filter fun o => decide (first ≤ o.start ∧ o.start < upTo)) key).or
        (s.rollups.get key) := by
  refine @OrderedMap.get_foldl_set_rows _ _ _ _ (rollupAt env
    (s.readings.filter fun o => decide (first ≤ o.start ∧ o.start < upTo))) (fun k row => ?_) _ key
  unfold rollupAt
  rw [mem_rollupRows]
  dsimp only
  split_ifs with hnil
  · exact iff_of_false (fun hrow => hrow.1 hnil) not_false
  · rw [Option.some.injEq, eq_comm]
    exact and_iff_right hnil

/-- **A transaction** leaves the rollups those of the counted readings up to its end. -/
theorem rolledTo_rollBatch {counted : List (RawReading Id)} {cuts : List ℤ} {first upTo : ℤ}
    {s : RollupStore Id} (h : RolledTo env counted cuts first s) (hle : first ≤ upTo)
    (hgrid : env.period.step ∣ upTo) :
    RolledTo env counted cuts upTo (rollBatch env first upTo s) := by
  have hstep := env.period.step_pos
  refine ⟨hgrid, ?_, fun key hkept => ?_, .inr ?_⟩
  · have hlater : ∀ l : List (RawReading Id), l.filter (fun o => decide (upTo ≤ o.start)) =
        (l.filter fun o => decide (first ≤ o.start)).filter fun o => decide (upTo ≤ o.start) := by
      intro l
      rw [List.filter_filter]
      refine List.filter_congr fun o _ => ?_
      by_cases ho : upTo ≤ o.start
      · simp [ho, hle.trans ho]
      · simp [ho]
    have hreadings : (rollBatch env first upTo s).readings = s.readings := rfl
    rw [hreadings, hlater, h.readings, ← hlater]
  · have hrange : s.readings.filter (fun o => decide (first ≤ o.start ∧ o.start < upTo)) =
        counted.filter fun o => decide (first ≤ o.start ∧ o.start < upTo) := by
      simp only [Bool.decide_and, ← List.filter_filter]
      rw [List.filter_comm, h.readings, List.filter_comm]
    rw [get_rollBatch, h.rollups key hkept, hrange]
    by_cases hfirst : key.2 < first
    · rw [rollupAt_eq_none, Option.none_or, if_pos hfirst, if_pos (hfirst.trans_le hle)]
      intro o ho hbucket
      have hstart := of_decide_eq_true (List.mem_filter.mp ho).2
      have hlt := (floorTo_lt_iff hstep h.grid).mp (hbucket ▸ hfirst)
      exact absurd hstart.1 (not_le.mpr hlt)
    · rw [if_neg hfirst, Option.or_none]
      by_cases hupTo : key.2 < upTo
      · rw [if_pos hupTo]
        refine rollupAt_filter (fun t => decide (first ≤ t ∧ t < upTo)) fun o _ hbucket => ?_
        have hstart := floorTo_le (t := o.start) hstep
        rw [hbucket] at hstart
        exact decide_eq_true ⟨(not_lt.mp hfirst).trans hstart,
          (floorTo_lt_iff hstep hgrid).mp (hbucket ▸ hupTo)⟩
      · rw [if_neg hupTo]
        refine rollupAt_eq_none fun o ho hbucket => ?_
        have hstart := of_decide_eq_true (List.mem_filter.mp ho).2
        exact hupTo (hbucket ▸ (floorTo_le hstep).trans_lt hstart.2)
  · have hmax : max (s.progress.getD upTo) upTo = upTo := by
      rcases h.progress with hnone | hsome
      · rw [hnone]
        exact max_self upTo
      · rw [hsome]
        exact max_eq_right hle
    exact congrArg some hmax

/-- A transaction ends at the start of a period. -/
theorem dvd_batchMs (period : RollupPeriod) : period.step ∣ batchMs period := by
  cases period with
  | hourly => decide
  | daily => decide

/-- **The transactions of a rollup**: nothing is done, or the rollups are those of the counted
readings up to where they got. -/
theorem rollBatches_spec {counted : List (RawReading Id)} {cuts : List ℤ} {cutoff : ℤ}
    (hcutoff : env.period.step ∣ cutoff) {transactions : ℕ} {first : ℤ} {s : RollupStore Id}
    (h : RolledTo env counted cuts first s) :
    rollBatches env cutoff transactions first s = s ∨ ∃ p, p ≤ cutoff ∧
      RolledTo env counted cuts p (rollBatches env cutoff transactions first s) ∧
      (rollBatches env cutoff transactions first s).progress = some p := by
  induction transactions generalizing first s with
  | zero => exact .inl rfl
  | succ transactions ih =>
    unfold rollBatches
    split_ifs with hlt
    · have hbatch : (0 : ℤ) < batchMs env.period :=
        env.period.step_pos.trans_le (le_max_right _ _)
      have hle : first ≤ min (first + batchMs env.period) cutoff :=
        le_min (le_add_of_nonneg_right hbatch.le) hlt.le
      have hgrid : env.period.step ∣ min (first + batchMs env.period) cutoff := by
        rcases min_choice (first + batchMs env.period) cutoff with heq | heq
        · rw [heq]
          exact dvd_add h.grid (dvd_batchMs _)
        · rw [heq]
          exact hcutoff
      have hnext := rolledTo_rollBatch h hle hgrid
      right
      rcases ih hnext with hsame | hmore
      · dsimp only
        rw [hsame]
        refine ⟨_, min_le_right _ _, hnext, ?_⟩
        exact hnext.progress.resolve_left (Option.some_ne_none _)
      · exact hmore
    · exact .inl rfl

/-- With transactions enough a rollup gets to the end of the last period that ended long enough
ago. -/
theorem progress_rollBatches {counted : List (RawReading Id)} {cuts : List ℤ} {cutoff : ℤ}
    (hcutoff : env.period.step ∣ cutoff) {transactions : ℕ} {first : ℤ} {s : RollupStore Id}
    (h : RolledTo env counted cuts first s) (hlt : first < cutoff)
    (henough : cutoff - first ≤ transactions) :
    (rollBatches env cutoff transactions first s).progress = some cutoff := by
  induction transactions generalizing first s with
  | zero => omega
  | succ transactions ih =>
    have hbatch : (0 : ℤ) < batchMs env.period :=
      env.period.step_pos.trans_le (le_max_right _ _)
    have hle : first ≤ min (first + batchMs env.period) cutoff :=
      le_min (le_add_of_nonneg_right hbatch.le) hlt.le
    have hgrid : env.period.step ∣ min (first + batchMs env.period) cutoff := by
      rcases min_choice (first + batchMs env.period) cutoff with heq | heq
      · rw [heq]
        exact dvd_add h.grid (dvd_batchMs _)
      · rw [heq]
        exact hcutoff
    have hnext := rolledTo_rollBatch h hle hgrid
    unfold rollBatches
    rw [if_pos hlt]
    dsimp only
    by_cases hmore : min (first + batchMs env.period) cutoff < cutoff
    · exact ih hnext hmore (by omega)
    · have hend : min (first + batchMs env.period) cutoff = cutoff :=
        le_antisymm (min_le_right _ _) (not_lt.mp hmore)
      rw [hend] at hnext ⊢
      have hstay : ∀ (n : ℕ) (s : RollupStore Id), rollBatches env cutoff n cutoff s = s := by
        intro n s
        cases n with
        | zero => rfl
        | succ n => exact if_neg (lt_irrefl cutoff)
      rw [hstay]
      exact hnext.progress.resolve_left (Option.some_ne_none _)

/-! ## What a step keeps -/

/-- What is true of a history at any time. -/
structure RollupInv (env : RollupEnv) (w : RollupWorld Id) : Prop where
  grid : ∀ p, w.store.progress = some p → env.period.step ∣ p
  ended : ∀ p, w.store.progress = some p → p ≤ w.now - rollupLatenessMs
  readings : w.store.readings.filter (fun o => !finished w.store.progress o.start) =
    w.counted.filter fun o => !finished w.store.progress o.start
  rollups : ∀ key : ℕ × ℤ, (∀ cut ∈ w.cuts, cut ≤ key.2) →
    w.store.rollups.get key =
      if finished w.store.progress key.2 then rollupAt env w.counted key else none
  late : ∀ o ∈ w.past, o.1.start < o.2 - rollupLatenessMs

/-- Nothing is finished before the first rollup. -/
@[simp] theorem finished_none (t : ℤ) : finished none t = false := rfl

/-- What is finished stands before where the rollups got. -/
@[simp] theorem finished_some (p t : ℤ) : finished (some p) t = decide (t < p) := rfl

/-- What is finished stands before where the rollups got. -/
theorem finished_iff {progress : Option ℤ} {t : ℤ} :
    finished progress t = true ↔ ∃ p, progress = some p ∧ t < p := by
  cases progress with
  | none => simp
  | some p => simp

/-- What is not finished stands where the rollups got, or after it. -/
theorem not_finished_some (p t : ℤ) : (!finished (some p) t) = decide (p ≤ t) := by
  rw [finished_some, ← decide_not, decide_eq_decide, not_lt]

/-- A history before its first reading. -/
theorem rollupInv_init (now : ℤ) : RollupInv env (rollupInit now : RollupWorld Id) where
  grid _ h := absurd h.symm (Option.some_ne_none _)
  ended _ h := absurd h.symm (Option.some_ne_none _)
  readings := rfl
  rollups _ _ := rfl
  late _ h := absurd h List.not_mem_nil

/-- Before the first rollup the history is the counted readings. -/
theorem counted_of_progress_none {w : RollupWorld Id} (h : RollupInv env w)
    (hprogress : w.store.progress = none) : w.store.readings = w.counted := by
  have hreadings := h.readings
  simp only [hprogress, finished_none, Bool.not_false, List.filter_true] at hreadings
  exact hreadings

/-- The first rollup starts no later than a reading's period. -/
theorem rollupStart_le {w : RollupWorld Id} (h : RollupInv env w) {first : ℤ}
    (hfirst : rollupStart env w.store = some first) (hprogress : w.store.progress = none)
    {o : RawReading Id} (ho : o ∈ w.counted) : first ≤ floorTo o.start env.period.step := by
  obtain ⟨t, ht, rfl⟩ := Option.map_eq_some_iff.mp hfirst
  rw [hprogress, Option.none_or, counted_of_progress_none h hprogress] at ht
  exact floorTo_mono env.period.step_pos
    ((List.min?_eq_some_iff.mp ht).2 _ (List.mem_map_of_mem ho))

/-- A rollup starts where its rollups are those of the counted readings. -/
theorem rolledTo_rollupStart {w : RollupWorld Id} (h : RollupInv env w) {first : ℤ}
    (hfirst : rollupStart env w.store = some first) :
    RolledTo env w.counted w.cuts first w.store := by
  cases hprogress : w.store.progress with
  | none =>
    have hgrid : env.period.step ∣ first := by
      obtain ⟨t, _, rfl⟩ := Option.map_eq_some_iff.mp hfirst
      exact dvd_floorTo
    have hrollups := h.rollups
    simp only [hprogress, finished_none, Bool.false_eq_true, if_false] at hrollups
    refine ⟨hgrid, by rw [counted_of_progress_none h hprogress], fun key hkept => ?_,
      .inl hprogress⟩
    rw [hrollups key hkept]
    split_ifs with hlt
    · refine (rollupAt_eq_none fun o ho hbucket => ?_).symm
      have hle := rollupStart_le h hfirst hprogress ho
      exact absurd hlt (not_lt.mpr (hbucket ▸ hle))
    · rfl
  | some p =>
    obtain ⟨t, ht, rfl⟩ := Option.map_eq_some_iff.mp hfirst
    rw [hprogress, Option.some_or] at ht
    obtain rfl : p = t := Option.some.inj ht
    rw [floorTo_of_dvd (h.grid p hprogress)]
    have hreadings := h.readings
    have hrollups := h.rollups
    simp only [hprogress, not_finished_some] at hreadings
    simp only [hprogress, finished_some, decide_eq_true_eq] at hrollups
    exact ⟨h.grid p hprogress, hreadings, hrollups, .inr hprogress⟩

/-- A rollup leaves the rollups those of the counted readings. -/
theorem rollupInv_roll {w : RollupWorld Id} (h : RollupInv env w) (transactions : ℕ) :
    RollupInv env { w with store := rollupObservations env w.now transactions w.store } := by
  unfold rollupObservations
  split_ifs with hproperties
  · exact h
  · split
    · exact h
    · next first hfirst =>
      have hrolled := rolledTo_rollupStart h hfirst
      have hcutoff : env.period.step ∣ rollupCutoff env w.now := dvd_floorTo
      rcases @rollBatches_spec Id env _ _ _ _ hcutoff transactions _ _ hrolled with
        hsame | ⟨p, hp, hto, hprogress⟩
      · rw [hsame]
        exact h
      · have hle : p ≤ w.now - rollupLatenessMs := hp.trans (floorTo_le env.period.step_pos)
        refine ⟨fun q hq => ?_, fun q hq => ?_, ?_, fun key hkept => ?_, h.late⟩
        · obtain rfl := Option.some.inj (hprogress.symm.trans hq)
          exact hto.grid
        · obtain rfl := Option.some.inj (hprogress.symm.trans hq)
          exact hle
        · simp only [hprogress, not_finished_some]
          exact hto.readings
        · simp only [hprogress, finished_some, decide_eq_true_eq]
          exact hto.rollups key hkept

omit [LinearOrder Id] in
/-- Writing a reading leaves the others of a range as they are. -/
theorem filter_upsertReading_of_neg {p : ℤ → Bool} {o : RawReading Id} (h : p o.start = false)
    (readings : List (RawReading Id)) :
    (upsertReading o readings).filter (fun o => p o.start) =
      readings.filter fun o => p o.start := by
  unfold upsertReading
  have hlast : [o].filter (fun o => p o.start) = [] := by
    rw [List.filter_cons_of_neg (by rw [h]; decide)]
    rfl
  rw [List.filter_append, List.filter_filter, hlast, List.append_nil]
  refine List.filter_congr fun o' _ => ?_
  cases hp : p o'.start with
  | false => rfl
  | true =>
    have hne : o'.key ≠ o.key := by
      intro hkey
      have hstart : o'.start = o.start := congrArg (fun key => key.2.1) hkey
      rw [hstart, h] at hp
      exact Bool.noConfusion hp
    rw [decide_eq_true hne]
    rfl

omit [LinearOrder Id] in
/-- Writing a reading and leaving others out of a range can be done in either order. -/
theorem filter_upsertReading_of_pos {p : ℤ → Bool} {o : RawReading Id} (h : p o.start = true)
    (readings : List (RawReading Id)) :
    (upsertReading o readings).filter (fun o => p o.start) =
      upsertReading o (readings.filter fun o => p o.start) := by
  unfold upsertReading
  have hlast : [o].filter (fun o => p o.start) = [o] := List.filter_cons_of_pos h
  rw [List.filter_append, List.filter_comm, hlast]

/-- A reading that is written before the rollups got past it counts; another one is late. -/
theorem rollupInv_write {w w' : RollupWorld Id} (h : RollupInv env w) {o : RawReading Id}
    (hw : rollupStep env w (.write o) = some w') : RollupInv env w' := by
  unfold rollupStep at hw
  dsimp only at hw
  split_ifs at hw with hpast
  · cases hw
    refine ⟨h.grid, h.ended, ?_, h.rollups, fun o' ho' => ?_⟩
    · have hwritten := filter_upsertReading_of_neg
        (p := fun t => !finished w.store.progress t) (by rw [hpast]; rfl) w.store.readings
      exact hwritten.trans h.readings
    · rcases List.mem_cons.mp ho' with rfl | ho'
      · obtain ⟨p, hp, hlt⟩ := Iff.mp finished_iff hpast
        exact hlt.trans_le (h.ended p hp)
      · exact h.late o' ho'
  · cases hw
    have hfresh : (!finished w.store.progress o.start) = true := by simp [hpast]
    refine ⟨h.grid, h.ended, ?_, fun key hkept => ?_, h.late⟩
    · have hstore := filter_upsertReading_of_pos
        (p := fun t => !finished w.store.progress t) hfresh w.store.readings
      have hcounted := filter_upsertReading_of_pos
        (p := fun t => !finished w.store.progress t) hfresh w.counted
      exact hstore.trans ((congrArg (upsertReading o) h.readings).trans hcounted.symm)
    · have hold := h.rollups key hkept
      refine hold.trans ?_
      dsimp only
      split_ifs with hfinished
      · obtain ⟨p, hp, hlt⟩ := Iff.mp finished_iff hfinished
        rw [hp, not_finished_some] at hfresh
        refine rollupAt_congr (h.grid p hp) hlt ?_
        have hbefore : decide (o.start < p) = false :=
          decide_eq_false (not_lt.mpr (of_decide_eq_true hfresh))
        exact (filter_upsertReading_of_neg (p := fun t => decide (t < p)) hbefore w.counted).symm
      · rfl

/-- Dropping what the rollups got past leaves what they have not got past. -/
theorem rollupInv_drop {w w' : RollupWorld Id} (h : RollupInv env w) {before : ℤ}
    (hw : rollupStep env w (.drop before) = some w') : RollupInv env w' := by
  unfold rollupStep at hw
  dsimp only at hw
  split_ifs at hw with hpast
  · cases hw
    refine ⟨h.grid, h.ended, ?_, h.rollups, h.late⟩
    cases hprogress : w.store.progress with
    | none =>
      rw [hprogress] at hpast
      exact Bool.noConfusion hpast
    | some p =>
      rw [hprogress] at hpast
      have hle : before ≤ p := of_decide_eq_true hpast
      have hold := h.readings
      simp only [hprogress, not_finished_some] at hold ⊢
      rw [← hold, List.filter_filter]
      refine List.filter_congr fun o _ => ?_
      by_cases ho : p ≤ o.start
      · simp [ho, hle.trans ho]
      · simp [ho]

/-- Pruning leaves the rollups past the cut. -/
theorem rollupInv_prune {w w' : RollupWorld Id} (h : RollupInv env w) {cut : ℤ}
    (hw : rollupStep env w (.prune cut) = some w') : RollupInv env w' := by
  cases hw
  refine ⟨h.grid, h.ended, h.readings, fun key hkept => ?_, h.late⟩
  have hold := h.rollups key fun cut' hcut' => hkept cut' (List.mem_cons_of_mem _ hcut')
  have hcut : decide (cut ≤ key.2) = true := decide_eq_true (hkept cut List.mem_cons_self)
  have hget := OrderedMap.get_filter w.store.rollups (fun row => decide (cut ≤ row.1.2)) key
  refine Eq.trans ?_ hold
  rw [hget]
  cases w.store.rollups.get key with
  | none => rfl
  | some row => exact if_pos hcut

/-- **A step** keeps what is true of a history. -/
theorem rollupInv_step {w w' : RollupWorld Id} {op : RollupOp Id} (h : RollupInv env w)
    (hw : rollupStep env w op = some w') : RollupInv env w' := by
  cases op with
  | tick later =>
    unfold rollupStep at hw
    dsimp only at hw
    split_ifs at hw with hle
    cases hw
    exact ⟨h.grid, fun p hp => (h.ended p hp).trans (sub_le_sub_right hle _), h.readings,
      h.rollups, h.late⟩
  | write o => exact rollupInv_write h hw
  | roll transactions =>
    cases hw
    exact rollupInv_roll h transactions
  | drop before => exact rollupInv_drop h hw
  | prune cut => exact rollupInv_prune h hw

/-- What is true of a history in every run. -/
theorem rollupInv_run {now : ℤ} {ops : List (RollupOp Id)} {w : RollupWorld Id}
    (hrun : Transition.run (rollupStep env) (rollupInit now) ops = some w) : RollupInv env w :=
  Transition.run_invariant (fun _ _ _ hinv hw => rollupInv_step hinv hw) (rollupInv_init now) hrun

/-- With transactions enough a rollup finishes every period that ended long enough ago and has a
reading that counts. -/
theorem finished_roll {w : RollupWorld Id} (h : RollupInv env w)
    (hproperties : env.properties ≠ []) :
    ∃ enough : ℕ, ∀ transactions ≥ enough, ∀ o ∈ w.counted,
      floorTo o.start env.period.step < rollupCutoff env w.now →
        finished (rollupObservations env w.now transactions w.store).progress
          (floorTo o.start env.period.step) = true := by
  cases hfirst : rollupStart env w.store with
  | none =>
    obtain ⟨hprogress, hnil⟩ := Option.or_eq_none_iff.mp (Option.map_eq_none_iff.mp hfirst)
    rw [List.min?_eq_none_iff, List.map_eq_nil_iff,
      counted_of_progress_none h hprogress] at hnil
    refine ⟨0, fun _ _ o ho => ?_⟩
    rw [hnil] at ho
    exact absurd ho List.not_mem_nil
  | some first =>
    refine ⟨(rollupCutoff env w.now - first).toNat, fun transactions henough o ho hbucket => ?_⟩
    have hrolled := rolledTo_rollupStart h hfirst
    have hroll : rollupObservations env w.now transactions w.store =
        rollBatches env (rollupCutoff env w.now) transactions first w.store := by
      unfold rollupObservations
      rw [if_neg hproperties, hfirst]
    rw [hroll, finished_iff]
    by_cases hlt : first < rollupCutoff env w.now
    · have hcutoff : env.period.step ∣ rollupCutoff env w.now := dvd_floorTo
      exact ⟨_, progress_rollBatches hcutoff hrolled hlt (by omega), hbucket⟩
    · have hstay : rollBatches env (rollupCutoff env w.now) transactions first w.store =
          w.store := by
        cases transactions with
        | zero => rfl
        | succ n => exact if_neg hlt
      rw [hstay]
      rcases hrolled.progress with hprogress | hprogress
      · -- the oldest reading's period has not ended long enough ago, so neither has this one's
        have hle := rollupStart_le h hfirst hprogress ho
        exact absurd (hle.trans_lt hbucket) hlt
      · exact ⟨first, hprogress, hbucket.trans_le (not_lt.mp hlt)⟩

/-- A speed that is rolled up by the hour. -/
def speedRollup : RollupEnv :=
  ⟨.hourly, [⟨"traffic.speed", some 2⟩], fun series => if series = 1 then some "traffic.speed"
    else none⟩

/-- A speed of a series. -/
def speedAt (start : ℤ) (v : ℚ) : RawReading ℕ := ⟨1, start, none, some v, some 7⟩

/-- Two readings, a rollup of one transaction, and a reading that comes too late. -/
def lateRun : List (RollupOp ℕ) :=
  [.write (speedAt 0 50), .write (speedAt 60000 53), .tick 36000000, .roll 1,
    .write (speedAt 120000 20), .drop 60000, .prune 0]

end OpenConditions.Storage

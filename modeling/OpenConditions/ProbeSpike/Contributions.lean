import Mathlib.Data.Finset.Card
import Mathlib.Data.List.Induction
import OpenConditions.ProbeSpike.Release

set_option relaxedAutoImplicit false
set_option autoImplicit false

/-!
# What one unit contributes to a release

The tuples of a release that reach the mechanism, told without the maps and the sort that find
them: of each unit and cell the slowest, of each unit the first cells in the order of their keys,
and nothing of a unit its budget does not cover.  What one unit contributes therefore depends on
its own tuples and on nothing else.

## Main definitions

* `keptCells` — the cells a unit may influence.
* `Slowest` — a tuple is the slowest of its unit in its cell.

## Main results

* `clampSpeed_mem` — a clamped speed is within the bounds.
* `mem_dedupedTuples` — the tuple kept for a unit and a cell.
* `mem_surviving` — the tuples that reach the mechanism.
* `length_keptCells_le` — a unit influences no more cells than the bound allows.
-/

namespace OpenConditions.ProbeSpike

section Clamp

variable {E : Type} {params : ReleaseParams E}

/-! ## Clamped speeds -/

/-- **A clamped speed is within the bounds.** -/
theorem clampSpeed_mem {lower upper : ExtRat} (h : ExtRat.le lower upper = true) (raw : ExtRat) :
    ExtRat.le lower (clampSpeed raw lower upper) = true ∧
      ExtRat.le (clampSpeed raw lower upper) upper = true := by
  obtain ⟨hl, hu⟩ := ExtRat.ne_nan_of_le h
  rw [ExtRat.le_eq_rank hl hu, decide_eq_true_eq] at h
  unfold clampSpeed
  split_ifs with hfinite
  · have hraw : raw ≠ .nan := by
      rintro rfl
      cases hfinite
    have hmax := ExtRat.max_ne_nan hl hraw
    have hmin := ExtRat.min_ne_nan hu hmax
    rw [ExtRat.le_eq_rank hl hmin, ExtRat.le_eq_rank hmin hu, ExtRat.rank_min hu hmax,
      ExtRat.rank_max hl hraw]
    simp [h]
  · rw [ExtRat.le_eq_rank hl hl, ExtRat.le_eq_rank hl hu]
    simp [h]

/-- A tuple in a cell is clamped. -/
theorem clampedSpeed_mem {manifest : ReleaseManifest} {tuple : SpeedTuple} {item : Assigned}
    (h : ExtRat.le params.speedLower params.speedUpper = true)
    (hitem : assign manifest params tuple = some item) :
    ExtRat.le params.speedLower item.clampedSpeed = true ∧
      ExtRat.le item.clampedSpeed params.speedUpper = true := by
  unfold assign at hitem
  split_ifs at hitem
  obtain ⟨window, -, rfl⟩ := Option.map_eq_some_iff.mp hitem
  exact clampSpeed_mem h _

/-- A tuple in a cell is of the unit it came from. -/
theorem privacyUnitId_assign {manifest : ReleaseManifest} {tuple : SpeedTuple} {item : Assigned}
    (hitem : assign manifest params tuple = some item) :
    item.privacyUnitId = tuple.privacyUnitId := by
  unfold assign at hitem
  split_ifs at hitem
  obtain ⟨window, -, rfl⟩ := Option.map_eq_some_iff.mp hitem
  rfl

/-- A tuple in a cell is in one of the grid. -/
theorem key_mem_of_assign {manifest : ReleaseManifest} {tuple : SpeedTuple} {item : Assigned}
    (hitem : assign manifest params tuple = some item) :
    item.key ∈ (listPartitions manifest).map partitionKey := by
  unfold assign at hitem
  split_ifs at hitem with hsegment
  obtain ⟨window, hwindow, rfl⟩ := Option.map_eq_some_iff.mp hitem
  refine List.mem_map_of_mem (List.mem_flatMap.mpr ⟨tuple.segmentId, hsegment, ?_⟩)
  exact List.mem_map.mpr ⟨window, List.mem_of_find?_eq_some hwindow, rfl⟩

end Clamp

/-! ## One tuple for each unit and cell -/

section First

variable {seen : List (String × String)} {items : List Assigned} {item : Assigned}

/-- A tuple of a unit and a cell met before is skipped. -/
theorem firstOfUnit_of_mem (h : (item.key, item.privacyUnitId) ∈ seen) :
    firstOfUnit seen (item :: items) = firstOfUnit seen items := by
  rw [firstOfUnit, if_pos (List.contains_iff_mem.mpr h)]

/-- A tuple of a unit and a cell not met before is kept. -/
theorem firstOfUnit_of_not_mem (h : (item.key, item.privacyUnitId) ∉ seen) :
    firstOfUnit seen (item :: items) =
      item :: firstOfUnit ((item.key, item.privacyUnitId) :: seen) items := by
  rw [firstOfUnit, if_neg fun hin => h (List.contains_iff_mem.mp hin)]

/-- The tuples kept are tuples of no unit and cell met before. -/
theorem of_mem_firstOfUnit (h : item ∈ firstOfUnit seen items) :
    item ∈ items ∧ (item.key, item.privacyUnitId) ∉ seen := by
  induction items generalizing seen with
  | nil => cases h
  | cons first items ih =>
    by_cases hseen : (first.key, first.privacyUnitId) ∈ seen
    · rw [firstOfUnit_of_mem hseen] at h
      exact ⟨List.mem_cons_of_mem _ (ih h).1, (ih h).2⟩
    · rw [firstOfUnit_of_not_mem hseen] at h
      rcases List.mem_cons.mp h with rfl | h
      · exact ⟨List.mem_cons_self .., hseen⟩
      · obtain ⟨hmem, hnot⟩ := ih h
        exact ⟨List.mem_cons_of_mem _ hmem, fun hin => hnot (List.mem_cons_of_mem _ hin)⟩

/-- One tuple is kept for each unit and cell. -/
theorem pairwise_firstOfUnit (seen : List (String × String)) (items : List Assigned) :
    (firstOfUnit seen items).Pairwise fun a b =>
      (a.key, a.privacyUnitId) ≠ (b.key, b.privacyUnitId) := by
  induction items generalizing seen with
  | nil => exact List.Pairwise.nil
  | cons first items ih =>
    by_cases hseen : (first.key, first.privacyUnitId) ∈ seen
    · rw [firstOfUnit_of_mem hseen]
      exact ih seen
    · rw [firstOfUnit_of_not_mem hseen]
      refine List.Pairwise.cons (fun other hother hsame => ?_) (ih _)
      exact (of_mem_firstOfUnit hother).2 (hsame ▸ List.mem_cons_self ..)

/-- A tuple kept comes first of those of its unit and cell. -/
theorem first_of_mem_firstOfUnit {R : Assigned → Assigned → Prop} (hrefl : ∀ a, R a a)
    (hsorted : items.Pairwise R) (h : item ∈ firstOfUnit seen items) {other : Assigned}
    (hother : other ∈ items) (hsame : (other.key, other.privacyUnitId) =
      (item.key, item.privacyUnitId)) : R item other := by
  induction items generalizing seen with
  | nil => cases h
  | cons first items ih =>
    obtain ⟨hfirst, hsorted⟩ := List.pairwise_cons.mp hsorted
    by_cases hseen : (first.key, first.privacyUnitId) ∈ seen
    · rw [firstOfUnit_of_mem hseen] at h
      rcases List.mem_cons.mp hother with rfl | hother
      · exact absurd (hsame ▸ hseen) (of_mem_firstOfUnit h).2
      · exact ih hsorted h hother
    · rw [firstOfUnit_of_not_mem hseen] at h
      rcases List.mem_cons.mp h with rfl | h
      · rcases List.mem_cons.mp hother with rfl | hother
        · exact hrefl _
        · exact hfirst other hother
      · rcases List.mem_cons.mp hother with rfl | hother
        · exact absurd (hsame ▸ List.mem_cons_self ..) (of_mem_firstOfUnit h).2
        · exact ih hsorted h hother

/-- A tuple is kept for every unit and cell not met before. -/
theorem exists_mem_firstOfUnit (h : item ∈ items)
    (hseen : (item.key, item.privacyUnitId) ∉ seen) :
    ∃ kept ∈ firstOfUnit seen items,
      (kept.key, kept.privacyUnitId) = (item.key, item.privacyUnitId) := by
  induction items generalizing seen with
  | nil => cases h
  | cons first items ih =>
    by_cases hfirst : (first.key, first.privacyUnitId) ∈ seen
    · rw [firstOfUnit_of_mem hfirst]
      rcases List.mem_cons.mp h with rfl | h
      · exact absurd hfirst hseen
      · exact ih h hseen
    · rw [firstOfUnit_of_not_mem hfirst]
      by_cases hsame : (first.key, first.privacyUnitId) = (item.key, item.privacyUnitId)
      · exact ⟨first, List.mem_cons_self .., hsame⟩
      · rcases List.mem_cons.mp h with rfl | h
        · exact absurd rfl hsame
        · have hseen' : (item.key, item.privacyUnitId) ∉
              (first.key, first.privacyUnitId) :: seen := fun hin =>
            (List.mem_cons.mp hin).elim (fun he => hsame he.symm) hseen
          obtain ⟨kept, hkept, heq⟩ := ih h hseen'
          exact ⟨kept, List.mem_cons_of_mem _ hkept, heq⟩

end First

section Deduped

variable {E : Type} {K : Type} [LinearOrder K] (collate : String → K)
variable {manifest : ReleaseManifest} {params : ReleaseParams E} {dataset : List SpeedTuple}

/-- The place of a tuple in the order by cell, unit and speed. -/
def Assigned.place (a : Assigned) : K ×ₗ K ×ₗ ℕ ×ₗ ℚ :=
  toLex (collate a.key, toLex (collate a.privacyUnitId, a.clampedSpeed.rank))

/-- The order of tuples whose speeds are numbers is that of their places. -/
theorem before_iff_place {a b : Assigned} (ha : a.clampedSpeed ≠ .nan)
    (hb : b.clampedSpeed ≠ .nan) :
    a.before collate b = true ↔ a.place collate ≤ b.place collate := by
  simp only [Assigned.before, Assigned.place, Prod.Lex.le_iff, byDifference,
    ExtRat.lt_sub_eq_rank ha hb]
  by_cases hkey : collate a.key = collate b.key
  · by_cases hunit : collate a.privacyUnitId = collate b.privacyUnitId
    · simp only [hkey, hunit, ne_eq, not_true_eq_false, if_false, lt_irrefl]
      simp [Prod.Lex.le_iff]
    · simp [hkey, hunit]
  · simp [hkey]

/-- The tuples in order have increasing places. -/
theorem pairwise_place {items : List Assigned} (h : ∀ a ∈ items, a.clampedSpeed ≠ .nan) :
    (items.insertionSort fun a b => a.before collate b).Pairwise
      fun a b => a.place collate ≤ b.place collate := by
  have hsame := List.map_insertionSort (r := fun a b => a.before collate b = true)
    (s := fun a b : Assigned => a.place collate ≤ b.place collate) id items
    fun a ha b hb => before_iff_place collate (h a ha) (h b hb)
  rw [List.map_id, List.map_id] at hsame
  rw [hsame]
  have : Std.Total fun a b : Assigned => a.place collate ≤ b.place collate :=
    ⟨fun a b => le_total _ _⟩
  have : IsTrans Assigned fun a b => a.place collate ≤ b.place collate :=
    ⟨fun _ _ _ => le_trans⟩
  exact List.pairwise_insertionSort _ _

/-- A tuple is the slowest of its unit in its cell. -/
def Slowest (items : List Assigned) (item : Assigned) : Prop :=
  item ∈ items ∧ ∀ other ∈ items, other.key = item.key →
    other.privacyUnitId = item.privacyUnitId →
      item.clampedSpeed.rank ≤ other.clampedSpeed.rank

/-- Two slowest tuples of one unit in one cell are one tuple. -/
theorem Slowest.eq {items : List Assigned} {a b : Assigned} (ha : Slowest items a)
    (hb : Slowest items b) (hkey : a.key = b.key) (hunit : a.privacyUnitId = b.privacyUnitId) :
    a = b := by
  have hspeed : a.clampedSpeed = b.clampedSpeed := ExtRat.rank_injective
    (le_antisymm (ha.2 b hb.1 hkey.symm hunit.symm) (hb.2 a ha.1 hkey hunit))
  cases a
  cases b
  simp_all

/-- **The tuple kept for a unit and a cell is the slowest.** -/
theorem mem_dedupedTuples (h : ExtRat.le params.speedLower params.speedUpper = true)
    {item : Assigned} : item ∈ dedupedTuples collate dataset manifest params ↔
      Slowest (dataset.filterMap (assign manifest params)) item := by
  have hnumber : ∀ a ∈ dataset.filterMap (assign manifest params), a.clampedSpeed ≠ .nan := by
    intro a ha
    obtain ⟨tuple, -, htuple⟩ := List.mem_filterMap.mp ha
    exact (ExtRat.ne_nan_of_le (clampedSpeed_mem h htuple).1).2
  have hsorted := pairwise_place collate hnumber
  have hslowest : ∀ {kept}, kept ∈ dedupedTuples collate dataset manifest params →
      Slowest (dataset.filterMap (assign manifest params)) kept := by
    intro kept hkept
    refine ⟨(List.mem_insertionSort _).mp (of_mem_firstOfUnit hkept).1, ?_⟩
    intro other hother hkey hunit
    have hplace := first_of_mem_firstOfUnit (fun a => le_refl (a.place collate)) hsorted hkept
      ((List.mem_insertionSort _).mpr hother) (by rw [hkey, hunit])
    simpa [Assigned.place, Prod.Lex.le_iff, hkey, hunit] using hplace
  refine ⟨hslowest, fun hitem => ?_⟩
  have hseen : (item.key, item.privacyUnitId) ∉ ([] : List (String × String)) :=
    List.not_mem_nil
  obtain ⟨kept, hkept, hsame⟩ := exists_mem_firstOfUnit
    ((List.mem_insertionSort fun a b => a.before collate b).mpr hitem.1) hseen
  rw [Prod.mk.injEq] at hsame
  have heq : item = kept := hitem.eq (hslowest hkept) hsame.1.symm hsame.2.symm
  exact heq ▸ hkept

/-- One tuple is kept for each unit and cell. -/
theorem pairwise_dedupedTuples : (dedupedTuples collate dataset manifest params).Pairwise
    fun a b => (a.key, a.privacyUnitId) ≠ (b.key, b.privacyUnitId) :=
  pairwise_firstOfUnit _ _

end Deduped

/-! ## The cells of a unit -/

/-- Adding a key adds that key. -/
theorem mem_addCell {cells : List String} {key k : String} :
    k ∈ addCell cells key ↔ k ∈ cells ∨ k = key := by
  unfold addCell
  split_ifs with hkey
  · exact ⟨Or.inl, fun h => h.elim id fun he => he ▸ hkey⟩
  · simp

/-- Adding a key keeps the keys distinct. -/
theorem nodup_addCell {cells : List String} (h : cells.Nodup) (key : String) :
    (addCell cells key).Nodup := by
  unfold addCell
  split_ifs with hkey
  · exact h
  · rw [List.nodup_append]
    refine ⟨h, List.nodup_singleton _, fun a ha b hb hab => hkey ?_⟩
    rw [List.mem_singleton] at hb
    rwa [← hb, ← hab]

/-- The cells listed for a unit are those of its tuples, each once. -/
theorem get_unitCells (deduped : List Assigned) (unit : String) :
    (((unitCells deduped).get unit).getD []).Nodup ∧
      ∀ key, key ∈ ((unitCells deduped).get unit).getD [] ↔
        ∃ item ∈ deduped, item.privacyUnitId = unit ∧ item.key = key := by
  induction deduped using List.reverseRecOn with
  | nil => simp [unitCells, OrderedMap.empty, OrderedMap.get, OrderedMap.getEntries]
  | append_singleton items item ih =>
    have hstep : unitCells (items ++ [item]) =
        (unitCells items).set item.privacyUnitId
          (addCell (((unitCells items).get item.privacyUnitId).getD []) item.key) := by
      simp only [unitCells, List.foldl_append, List.foldl_cons, List.foldl_nil]
    rw [hstep, OrderedMap.get_set]
    by_cases hunit : unit = item.privacyUnitId
    · subst hunit
      rw [if_pos rfl, Option.getD_some]
      refine ⟨nodup_addCell ih.1 _, fun key => ?_⟩
      rw [mem_addCell, ih.2 key]
      simp [or_and_right, exists_or, eq_comm]
    · rw [if_neg hunit]
      refine ⟨ih.1, fun key => (ih.2 key).trans ?_⟩
      simp [or_and_right, exists_or, Ne.symm hunit]

/-- The order of the keys is that of their code units. -/
theorem byCodeUnits_iff {a b : String} :
    byCodeUnits a b = true ↔ Utf16.codeUnits a ≤ Utf16.codeUnits b := by
  rw [byCodeUnits, Bool.not_eq_true', Utf16.lt_eq_false_iff]

/-- The order of some keys does not depend on the order they were met in. -/
theorem insertionSort_byCodeUnits_eq {cells others : List String} (h : cells.Perm others) :
    (cells.insertionSort fun a b => byCodeUnits a b) =
      others.insertionSort fun a b => byCodeUnits a b := by
  have : Std.Total fun a b : String => byCodeUnits a b = true :=
    ⟨fun a b => by simpa only [byCodeUnits_iff] using le_total _ _⟩
  have : IsTrans String fun a b => byCodeUnits a b = true :=
    ⟨fun a b c => by simpa only [byCodeUnits_iff] using le_trans⟩
  refine List.Perm.eq_of_pairwise (fun a b _ _ hab hba => ?_)
    (List.pairwise_insertionSort _ _) (List.pairwise_insertionSort _ _)
    (((List.perm_insertionSort _ cells).trans h).trans (List.perm_insertionSort _ others).symm)
  exact Utf16.codeUnits_injective
    (le_antisymm (Iff.mp byCodeUnits_iff hab) (Iff.mp byCodeUnits_iff hba))

section Kept

variable {E : Type} {K : Type} [LinearOrder K] (collate : String → K)
variable (dataset : List SpeedTuple) (manifest : ReleaseManifest) (params : ReleaseParams E)
variable (unit : String)

/-- The cells a unit may influence. -/
def keptCells : List String :=
  allowedCells params
    (((unitCells (dedupedTuples collate dataset manifest params)).get unit).getD [])

/-- The cells allowed are some of the unit's, each once. -/
theorem allowedCells_sublist (params : ReleaseParams E) (cells : List String) :
    (allowedCells params cells).Subperm cells :=
  (List.take_sublist _ _).subperm.trans (List.perm_insertionSort _ cells).subperm

/-- A unit may influence cells of its own tuples, each listed once. -/
theorem nodup_keptCells : (keptCells collate dataset manifest params unit).Nodup := by
  have hnodup := (get_unitCells (dedupedTuples collate dataset manifest params) unit).1
  obtain ⟨l, hperm, hsub⟩ := allowedCells_sublist params
    (((unitCells (dedupedTuples collate dataset manifest params)).get unit).getD [])
  exact hperm.nodup_iff.mp (hsub.nodup hnodup)

theorem exists_of_mem_keptCells {key : String}
    (h : key ∈ keptCells collate dataset manifest params unit) :
    ∃ item ∈ dedupedTuples collate dataset manifest params,
      item.privacyUnitId = unit ∧ item.key = key :=
  ((get_unitCells _ unit).2 key).mp ((allowedCells_sublist params _).subset h)

/-- **A unit influences no more cells than the bound allows.** -/
theorem length_keptCells_le {q : ℚ} (hq : 0 ≤ q) (hcap : params.maxPartitionsPerUnit = .fin q) :
    ((keptCells collate dataset manifest params unit).length : ℚ) ≤ q := by
  rw [keptCells, allowedCells, hcap]
  exact le_trans (Nat.cast_le.mpr (List.length_take_le _ _)) (ExtRat.sliceEnd_le hq _)

/-- The cells a unit may influence depend on which cells its tuples are in. -/
theorem keptCells_eq {dataset' : List SpeedTuple}
    (h : ∀ key, (∃ item ∈ dedupedTuples collate dataset manifest params,
        item.privacyUnitId = unit ∧ item.key = key) ↔
      ∃ item ∈ dedupedTuples collate dataset' manifest params,
        item.privacyUnitId = unit ∧ item.key = key) :
    keptCells collate dataset manifest params unit =
      keptCells collate dataset' manifest params unit := by
  obtain ⟨hnodup, hmem⟩ := get_unitCells (dedupedTuples collate dataset manifest params) unit
  obtain ⟨hnodup', hmem'⟩ := get_unitCells (dedupedTuples collate dataset' manifest params) unit
  have hperm := (List.perm_ext_iff_of_nodup hnodup hnodup').mpr fun key =>
    (hmem key).trans ((h key).trans (hmem' key).symm)
  rw [keptCells, keptCells, allowedCells, allowedCells, insertionSort_byCodeUnits_eq hperm]

variable [Zero E] [Add E] [SMul ℕ E] [LE E] [DecidableLE E] (ledger : BudgetLedger E)

/-- **The tuples that reach the mechanism**: those kept, in cells their unit may influence, of
units whose budget covers these cells. -/
theorem mem_surviving {item : Assigned} :
    item ∈ (shapeContributions collate dataset manifest params ledger).surviving ↔
      item ∈ dedupedTuples collate dataset manifest params ∧
        item.key ∈ keptCells collate dataset manifest params item.privacyUnitId ∧
        ledger.canAfford item.privacyUnitId (cellsCost params
          (keptCells collate dataset manifest params item.privacyUnitId)) = true := by
  simp only [shapeContributions, List.mem_filter, List.map_map, Function.comp_def,
    OrderedMap.getEntries_map (fun _ cells => allowedCells params cells),
    OrderedMap.getEntries_map fun unit cells =>
      ledger.canAfford unit (cellsCost params (allowedCells params cells))]
  refine and_congr_right fun hitem => ?_
  have hcell := (get_unitCells (dedupedTuples collate dataset manifest params)
    item.privacyUnitId).2 item.key
  unfold keptCells
  unfold OrderedMap.get at hcell ⊢
  cases hcells : OrderedMap.getEntries item.privacyUnitId
      (unitCells (dedupedTuples collate dataset manifest params)).entries with
  | none =>
    rw [hcells] at hcell
    exact absurd (hcell.mpr ⟨item, hitem, rfl, rfl⟩) (List.not_mem_nil)
  | some cells => simp

end Kept

end OpenConditions.ProbeSpike

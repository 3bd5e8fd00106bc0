import Mathlib.Data.List.Perm.Basic
import Mathlib.Tactic.Linarith
import OpenConditions.ProbeSpike.Contributions

set_option relaxedAutoImplicit false
set_option autoImplicit false

/-!
# Releases of neighbouring datasets

Two datasets that differ in the tuples of one unit put the same tuples of every other unit before
the mechanism.  The values handed to it differ in the cells the unit may influence in the one and
in those it may influence in the other, and in each of these by the unit's one value.

## Main definitions

* `SameButUnit` — two datasets differ in the tuples of one unit.
* `handedValues` — the values handed to the mechanism, cell by cell.
* `differingPositions` — the positions at which two releases hand over different values.

## Main results

* `surviving_iff_of_ne` — the other units contribute the same.
* `neighbours_differ_little` — how far the values handed over can differ.
-/

namespace OpenConditions.ProbeSpike

/-- Two datasets differ in the tuples of one unit. -/
def SameButUnit (unit : String) (dataset dataset' : List SpeedTuple) : Prop :=
  (dataset.filter fun t => decide (t.privacyUnitId ≠ unit)).Perm
    (dataset'.filter fun t => decide (t.privacyUnitId ≠ unit))

/-- The values handed to the mechanism, cell by cell. -/
def handedValues {E : Type} (queries : List (Query E)) : List (List ExtRat) :=
  queries.filterMap fun query =>
    match query.call with
    | .boundedSum values _ _ _ => some values
    | .selectPartition _ _ _ => none

/-- The positions at which two releases hand over different values. -/
def differingPositions (handed handed' : List (List ExtRat)) : Finset ℕ :=
  (Finset.range (min handed.length handed'.length)).filter fun i =>
    ¬(handed.getD i []).Perm (handed'.getD i [])

/-- The others' tuples are in both datasets. -/
theorem SameButUnit.mem_iff {unit : String} {dataset dataset' : List SpeedTuple}
    (h : SameButUnit unit dataset dataset') {t : SpeedTuple} (ht : t.privacyUnitId ≠ unit) :
    t ∈ dataset ↔ t ∈ dataset' := by
  have hmem : t ∈ (dataset.filter fun t => decide (t.privacyUnitId ≠ unit)) ↔
      t ∈ dataset'.filter fun t => decide (t.privacyUnitId ≠ unit) := List.Perm.mem_iff h
  simpa [List.mem_filter, ht] using hmem

/-- The value of a position in a part of a list, read through a function. -/
theorem getD_take_map {α β : Type} {xs : List α} {f : α → β} {m i : ℕ} {d : β}
    (h : i < ((xs.take m).map f).length) :
    ∃ hi : i < xs.length, ((xs.take m).map f).getD i d = f xs[i] := by
  have hlt : i < xs.length := by
    rw [List.length_map, List.length_take] at h
    omega
  refine ⟨hlt, ?_⟩
  rw [List.getD_eq_getElem?_getD, List.getElem?_eq_getElem h, Option.getD_some, List.getElem_map,
    List.getElem_take]

/-- The values of a cell. -/
def Contributions.values {E : Type} (contributions : Contributions E) (key : String) :
    List ExtRat :=
  (contributions.bucket key).map Assigned.clampedSpeed

/-- The tuples of one unit in a cell. -/
def Contributions.own {E : Type} (contributions : Contributions E) (unit key : String) :
    List Assigned :=
  (contributions.bucket key).filter fun item => decide (item.privacyUnitId = unit)

/-- The values handed over are those of the first cells of the grid, of all of them unless the
mechanism throws. -/
theorem handedValues_queryPartitions {E : Type} [Add E] (mechanism : DpMechanism E)
    (params : ReleaseParams E) (contributions : Contributions E) (n : ℕ) (partitions : List Partition)
    (progress : Progress E) :
    ∃ m ≤ partitions.length,
      handedValues (queryPartitions mechanism params contributions n partitions progress).1 =
        (partitions.take m).map (fun p => contributions.values (partitionKey p)) ∧
      ((queryPartitions mechanism params contributions n partitions progress).2.isSome = true →
        m = partitions.length) := by
  induction partitions generalizing n progress with
  | nil => exact ⟨0, le_refl _, rfl, fun _ => rfl⟩
  | cons partition partitions ih =>
    rw [queryPartitions]
    cases hselect : mechanism.selectPartition n with
    | none => exact ⟨0, Nat.zero_le _, rfl, fun h => by cases h⟩
    | some selection =>
      cases hsum : mechanism.boundedSum n with
      | none => exact ⟨1, by simp, rfl, fun h => by cases h⟩
      | some noisy =>
        obtain ⟨m, hm, hhanded, hall⟩ := ih (n + 1) (progress.add partition selection noisy)
        refine ⟨m + 1, by simpa using hm, ?_, fun h => by simpa using hall h⟩
        rw [List.take_succ_cons, List.map_cons, ← hhanded]
        rfl

section Units

variable {E : Type} {K : Type} [LinearOrder K] {collate : String → K}
variable {manifest : ReleaseManifest} {params : ReleaseParams E} {unit : String}
variable {dataset dataset' : List SpeedTuple}

/-! ## The other units -/

/-- The others' tuples fall in the same cells. -/
theorem assigned_iff_of_ne (h : SameButUnit unit dataset dataset') {item : Assigned}
    (hne : item.privacyUnitId ≠ unit) :
    item ∈ dataset.filterMap (assign manifest params) ↔
      item ∈ dataset'.filterMap (assign manifest params) := by
  simp only [List.mem_filterMap]
  refine exists_congr fun tuple => and_congr_left fun htuple => ?_
  exact h.mem_iff (privacyUnitId_assign htuple ▸ hne)

/-- Of the others the same tuples are kept. -/
theorem deduped_iff_of_ne (hbounds : ExtRat.le params.speedLower params.speedUpper = true)
    (h : SameButUnit unit dataset dataset') {item : Assigned} (hne : item.privacyUnitId ≠ unit) :
    item ∈ dedupedTuples collate dataset manifest params ↔
      item ∈ dedupedTuples collate dataset' manifest params := by
  rw [mem_dedupedTuples collate hbounds, mem_dedupedTuples collate hbounds]
  unfold Slowest
  rw [assigned_iff_of_ne h hne]
  refine and_congr_right fun _ => forall_congr' fun other => ?_
  constructor
  · intro hslow hother hkey hunit
    exact hslow ((assigned_iff_of_ne h (hunit ▸ hne)).mpr hother) hkey hunit
  · intro hslow hother hkey hunit
    exact hslow ((assigned_iff_of_ne h (hunit ▸ hne)).mp hother) hkey hunit

/-- The others may influence the same cells. -/
theorem keptCells_eq_of_ne (hbounds : ExtRat.le params.speedLower params.speedUpper = true)
    (h : SameButUnit unit dataset dataset') {other : String} (hne : other ≠ unit) :
    keptCells collate dataset manifest params other =
      keptCells collate dataset' manifest params other := by
  refine keptCells_eq _ _ _ _ _ fun key => exists_congr fun item => ?_
  constructor
  · rintro ⟨hitem, rfl, hkey⟩
    exact ⟨(deduped_iff_of_ne hbounds h hne).mp hitem, rfl, hkey⟩
  · rintro ⟨hitem, rfl, hkey⟩
    exact ⟨(deduped_iff_of_ne hbounds h hne).mpr hitem, rfl, hkey⟩

variable [Zero E] [Add E] [SMul ℕ E] [LE E] [DecidableLE E] {ledger : BudgetLedger E}

/-- **The other units contribute the same.** -/
theorem surviving_iff_of_ne (hbounds : ExtRat.le params.speedLower params.speedUpper = true)
    (h : SameButUnit unit dataset dataset') {item : Assigned} (hne : item.privacyUnitId ≠ unit) :
    item ∈ (shapeContributions collate dataset manifest params ledger).surviving ↔
      item ∈ (shapeContributions collate dataset' manifest params ledger).surviving := by
  rw [mem_surviving, mem_surviving, deduped_iff_of_ne hbounds h hne,
    keptCells_eq_of_ne hbounds h hne]

/-! ## The values of a cell -/

/-- The tuples that reach the mechanism are of different units or cells. -/
theorem pairwise_surviving :
    (shapeContributions collate dataset manifest params ledger).surviving.Pairwise
      fun a b => (a.key, a.privacyUnitId) ≠ (b.key, b.privacyUnitId) :=
  (pairwise_dedupedTuples collate).sublist List.filter_sublist

/-- A unit has one tuple in a cell at most. -/
theorem length_own_le (key : String) :
    ((shapeContributions collate dataset manifest params ledger).own unit key).length ≤ 1 := by
  have hpairwise : ((shapeContributions collate dataset manifest params ledger).own unit
      key).Pairwise fun a b => (a.key, a.privacyUnitId) ≠ (b.key, b.privacyUnitId) :=
    pairwise_surviving.sublist (List.filter_sublist.trans List.filter_sublist)
  have hslot : ∀ item ∈ (shapeContributions collate dataset manifest params ledger).own unit key,
      item.key = key ∧ item.privacyUnitId = unit := by
    intro item hitem
    simp only [Contributions.own, Contributions.bucket, List.mem_filter,
      decide_eq_true_eq] at hitem
    exact ⟨hitem.1.2, hitem.2⟩
  match hown : (shapeContributions collate dataset manifest params ledger).own unit key with
  | [] => exact Nat.zero_le _
  | [_] => exact le_refl _
  | a :: b :: rest =>
    rw [hown] at hpairwise hslot
    have hne := (List.pairwise_cons.mp hpairwise).1 b (List.mem_cons_self ..)
    have ha := hslot a (List.mem_cons_self ..)
    have hb := hslot b (List.mem_cons_of_mem _ (List.mem_cons_self ..))
    exact absurd (by rw [ha.1, ha.2, hb.1, hb.2]) hne

/-- A unit has tuples in cells it may influence alone. -/
theorem own_eq_nil {key : String} (h : key ∉ keptCells collate dataset manifest params unit) :
    (shapeContributions collate dataset manifest params ledger).own unit key = [] := by
  refine List.filter_eq_nil_iff.mpr fun item hitem hunit => h ?_
  obtain ⟨hsurviving, hkey⟩ := List.mem_filter.mp hitem
  obtain ⟨-, hkept, -⟩ := mem_surviving collate dataset manifest params ledger |>.mp hsurviving
  rw [decide_eq_true_eq] at hkey hunit
  rwa [hkey, hunit] at hkept

/-- Both releases hand over the others' values, and each the unit's own. -/
theorem values_perm (collate : String → K) (ledger : BudgetLedger E)
    (hbounds : ExtRat.le params.speedLower params.speedUpper = true)
    (h : SameButUnit unit dataset dataset') (key : String) :
    ∃ common : List ExtRat,
      ((shapeContributions collate dataset manifest params ledger).values key).Perm
        (common ++ ((shapeContributions collate dataset manifest params ledger).own unit
          key).map Assigned.clampedSpeed) ∧
      ((shapeContributions collate dataset' manifest params ledger).values key).Perm
        (common ++ ((shapeContributions collate dataset' manifest params ledger).own unit
          key).map Assigned.clampedSpeed) := by
  have hsplit : ∀ dataset, ((shapeContributions collate dataset manifest params ledger).values
      key).Perm ((((shapeContributions collate dataset manifest params ledger).bucket key).filter
        fun item => !decide (item.privacyUnitId = unit)).map Assigned.clampedSpeed ++
        ((shapeContributions collate dataset manifest params ledger).own unit key).map
          Assigned.clampedSpeed) := by
    intro dataset
    rw [← List.map_append]
    exact ((List.perm_append_comm.trans (List.filter_append_perm _ _)).map _).symm
  have hnodup : ∀ dataset, (((shapeContributions collate dataset manifest params ledger).bucket
      key).filter fun item => !decide (item.privacyUnitId = unit)).Nodup := by
    intro dataset
    refine List.Pairwise.imp (fun hne heq => hne (by rw [heq])) (pairwise_surviving.sublist
      (List.filter_sublist.trans List.filter_sublist))
  have hothers : (((shapeContributions collate dataset manifest params ledger).bucket key).filter
      fun item => !decide (item.privacyUnitId = unit)).Perm
      (((shapeContributions collate dataset' manifest params ledger).bucket key).filter
        fun item => !decide (item.privacyUnitId = unit)) := by
    refine (List.perm_ext_iff_of_nodup (hnodup dataset) (hnodup dataset')).mpr fun item => ?_
    simp only [Contributions.bucket, List.mem_filter, Bool.not_eq_true', decide_eq_false_iff_not,
      decide_eq_true_eq, and_assoc]
    constructor
    · rintro ⟨hitem, hkey, hne⟩
      exact ⟨(surviving_iff_of_ne hbounds h hne).mp hitem, hkey, hne⟩
    · rintro ⟨hitem, hkey, hne⟩
      exact ⟨(surviving_iff_of_ne hbounds h hne).mpr hitem, hkey, hne⟩
  exact ⟨_, hsplit dataset, (hsplit dataset').trans ((hothers.symm.map _).append_right _)⟩

/-! ## What is handed over -/

variable {store : ReleaseStore E}

/-- The values a release hands over that was not committed yet. -/
theorem handedValues_releaseWithDp (collate : String → K) (dataset : List SpeedTuple)
    (params : ReleaseParams E) (ledger : BudgetLedger E) (hfresh : store.get manifest.version = none)
    (mechanism : DpMechanism E) :
    ∃ m ≤ (listPartitions manifest).length,
      handedValues (releaseWithDp collate dataset manifest params mechanism ledger store).queries =
        ((listPartitions manifest).take m).map (fun p =>
          (shapeContributions collate dataset manifest params ledger).values (partitionKey p)) ∧
      ((releaseWithDp collate dataset manifest params mechanism ledger store).result.isSome = true →
        m = (listPartitions manifest).length) := by
  obtain ⟨m, hm, hhanded, hall⟩ := handedValues_queryPartitions mechanism params
    (shapeContributions collate dataset manifest params ledger) 0 (listPartitions manifest)
    (.start manifest params)
  unfold releaseWithDp
  rw [hfresh]
  simp only
  split
  · rename_i hthrown
    rw [hthrown] at hall
    exact ⟨m, hm, hhanded, fun h => by cases h⟩
  · rename_i progress hreturned
    rw [hreturned] at hall
    exact ⟨m, hm, hhanded, fun _ => hall rfl⟩

/-- The values of a cell are within the bounds. -/
theorem values_mem_bounds (hbounds : ExtRat.le params.speedLower params.speedUpper = true)
    {key : String} {v : ExtRat}
    (hv : v ∈ (shapeContributions collate dataset manifest params ledger).values key) :
    ExtRat.le params.speedLower v = true ∧ ExtRat.le v params.speedUpper = true := by
  obtain ⟨item, hitem, rfl⟩ := List.mem_map.mp hv
  have hsurviving := (List.mem_filter.mp hitem).1
  obtain ⟨hdeduped, -⟩ := mem_surviving collate dataset manifest params ledger |>.mp hsurviving
  obtain ⟨hassigned, -⟩ := (mem_dedupedTuples collate hbounds).mp hdeduped
  obtain ⟨tuple, -, htuple⟩ := List.mem_filterMap.mp hassigned
  exact clampedSpeed_mem hbounds htuple

/-- Where two releases differ, they hand over the values of one cell, which the unit may influence
in one of them. -/
theorem of_mem_differingPositions (hbounds : ExtRat.le params.speedLower params.speedUpper = true)
    (hsame : SameButUnit unit dataset dataset') {m m' i : ℕ}
    (hi : i ∈ differingPositions
      (((listPartitions manifest).take m).map fun p =>
        (shapeContributions collate dataset manifest params ledger).values (partitionKey p))
      (((listPartitions manifest).take m').map fun p =>
        (shapeContributions collate dataset' manifest params ledger).values (partitionKey p))) :
    ∃ hlt : i < (listPartitions manifest).length,
      (((listPartitions manifest).take m).map fun p =>
        (shapeContributions collate dataset manifest params ledger).values
          (partitionKey p)).getD i [] =
        (shapeContributions collate dataset manifest params ledger).values
          (partitionKey (listPartitions manifest)[i]) ∧
      (((listPartitions manifest).take m').map fun p =>
        (shapeContributions collate dataset' manifest params ledger).values
          (partitionKey p)).getD i [] =
        (shapeContributions collate dataset' manifest params ledger).values
          (partitionKey (listPartitions manifest)[i]) ∧
      (partitionKey (listPartitions manifest)[i] ∈ keptCells collate dataset manifest params unit ∨
        partitionKey (listPartitions manifest)[i] ∈
          keptCells collate dataset' manifest params unit) := by
  obtain ⟨hrange, hdiffer⟩ := Finset.mem_filter.mp hi
  rw [Finset.mem_range, lt_min_iff] at hrange
  obtain ⟨hlt, hat⟩ := getD_take_map (d := []) hrange.1
  obtain ⟨_, hat'⟩ := getD_take_map (d := []) hrange.2
  refine ⟨hlt, hat, hat', ?_⟩
  rw [hat, hat'] at hdiffer
  by_contra hneither
  rw [not_or] at hneither
  obtain ⟨common, hperm, hperm'⟩ := values_perm collate ledger hbounds hsame
    (partitionKey (listPartitions manifest)[i])
  rw [own_eq_nil hneither.1] at hperm
  rw [own_eq_nil hneither.2] at hperm'
  exact hdiffer (hperm.trans hperm'.symm)

/-- Two releases differ at no more positions than there are cells the unit may influence. -/
theorem card_differingPositions_le
    (hkeys : ((listPartitions manifest).map partitionKey).Nodup)
    (hbounds : ExtRat.le params.speedLower params.speedUpper = true)
    (hsame : SameButUnit unit dataset dataset') (m m' : ℕ) :
    (differingPositions
      (((listPartitions manifest).take m).map fun p =>
        (shapeContributions collate dataset manifest params ledger).values (partitionKey p))
      (((listPartitions manifest).take m').map fun p =>
        (shapeContributions collate dataset' manifest params ledger).values
          (partitionKey p))).card ≤
      (keptCells collate dataset manifest params unit).length +
        (keptCells collate dataset' manifest params unit).length := by
  rw [← List.length_append]
  refine le_trans (Finset.card_le_card_of_injOn
    (fun i => ((listPartitions manifest).map partitionKey).getD i "") (t := List.toFinset _)
    (fun i hi => ?_) fun i hi j hj hij => ?_) (List.toFinset_card_le _)
  · obtain ⟨hlt, -, -, hkept⟩ := of_mem_differingPositions hbounds hsame hi
    have hlt' : i < ((listPartitions manifest).map partitionKey).length := by
      rwa [List.length_map]
    have hat : ((listPartitions manifest).map partitionKey).getD i "" =
        partitionKey (listPartitions manifest)[i] := by
      rw [List.getD_eq_getElem?_getD, List.getElem?_eq_getElem hlt', Option.getD_some,
        List.getElem_map]
    rw [Finset.mem_coe, List.mem_toFinset, List.mem_append]
    simpa only [hat] using hkept
  · obtain ⟨hlt, -⟩ := of_mem_differingPositions hbounds hsame hi
    obtain ⟨hltj, -⟩ := of_mem_differingPositions hbounds hsame hj
    have hi' : i < ((listPartitions manifest).map partitionKey).length := by
      rwa [List.length_map]
    have hj' : j < ((listPartitions manifest).map partitionKey).length := by
      rwa [List.length_map]
    simp only [List.getD_eq_getElem?_getD, List.getElem?_eq_getElem hi',
      List.getElem?_eq_getElem hj', Option.getD_some] at hij
    exact (hkeys.getElem_inj_iff).mp hij

omit [Zero E] [Add E] [SMul ℕ E] [LE E] [DecidableLE E] in
/-- A unit without tuples may influence no cell. -/
theorem keptCells_eq_nil (hnone : ∀ t ∈ dataset, t.privacyUnitId ≠ unit)
    (hbounds : ExtRat.le params.speedLower params.speedUpper = true) :
    keptCells collate dataset manifest params unit = [] := by
  refine List.eq_nil_iff_forall_not_mem.mpr fun key hkey => ?_
  obtain ⟨item, hitem, hunit, -⟩ := exists_of_mem_keptCells _ _ _ _ _ hkey
  obtain ⟨tuple, htuple, hassign⟩ :=
    List.mem_filterMap.mp ((mem_dedupedTuples collate hbounds).mp hitem).1
  exact hnone tuple htuple ((privacyUnitId_assign hassign).symm.trans hunit)

/-- **Neighbouring datasets hand over nearly the same values**, where no cell is listed twice: the
values differ in cells one unit may influence in one of the datasets, at most twice as many as the
bound and at most as many when one has no tuple of the unit; in each of these one value at most is
removed, added or exchanged; and all values are within the public bounds.  A release that returns
hands over the values of every cell. -/
theorem neighbours_differ_little (collate : String → K) (ledger : BudgetLedger E)
    (mechanism mechanism' : DpMechanism E) {store' : ReleaseStore E}
    (hkeys : ((listPartitions manifest).map partitionKey).Nodup)
    (hbounds : ExtRat.le params.speedLower params.speedUpper = true)
    (hcap : ExtRat.le (.fin 0) params.maxPartitionsPerUnit = true)
    (hsame : SameButUnit unit dataset dataset') (hfresh : store.get manifest.version = none)
    (hfresh' : store'.get manifest.version = none) :
    let release := releaseWithDp collate dataset manifest params mechanism ledger store
    let release' := releaseWithDp collate dataset' manifest params mechanism' ledger store'
    let handed := handedValues release.queries
    let handed' := handedValues release'.queries
    (∀ q, params.maxPartitionsPerUnit = .fin q →
      ((differingPositions handed handed').card : ℚ) ≤ 2 * q) ∧
    (∀ q, params.maxPartitionsPerUnit = .fin q →
      ((∀ t ∈ dataset, t.privacyUnitId ≠ unit) ∨ ∀ t ∈ dataset', t.privacyUnitId ≠ unit) →
      ((differingPositions handed handed').card : ℚ) ≤ q) ∧
    (∀ i ∈ differingPositions handed handed', ∃ common own own' : List ExtRat,
      own.length ≤ 1 ∧ own'.length ≤ 1 ∧ (handed.getD i []).Perm (common ++ own) ∧
        (handed'.getD i []).Perm (common ++ own')) ∧
    (∀ values, values ∈ handed ∨ values ∈ handed' → ∀ v ∈ values,
      ExtRat.le params.speedLower v = true ∧ ExtRat.le v params.speedUpper = true) ∧
    (release.result.isSome = true → handed.length = (listPartitions manifest).length) ∧
    (release'.result.isSome = true → handed'.length = (listPartitions manifest).length) := by
  intro release release' handed handed'
  obtain ⟨m, hm, hhanded, hall⟩ :=
    handedValues_releaseWithDp collate dataset params ledger hfresh mechanism
  obtain ⟨m', hm', hhanded', hall'⟩ :=
    handedValues_releaseWithDp collate dataset' params ledger hfresh' mechanism'
  have hpositive : ∀ q, params.maxPartitionsPerUnit = .fin q → 0 ≤ q := by
    intro q hq
    rw [hq, ExtRat.le_fin] at hcap
    exact of_decide_eq_true hcap
  have hcard : (differingPositions handed handed').card ≤
      (keptCells collate dataset manifest params unit).length +
        (keptCells collate dataset' manifest params unit).length := by
    simp only [handed, handed', release, release', hhanded, hhanded']
    exact card_differingPositions_le hkeys hbounds hsame m m'
  have hcardq : ((differingPositions handed handed').card : ℚ) ≤
      (keptCells collate dataset manifest params unit).length +
        (keptCells collate dataset' manifest params unit).length := by
    exact_mod_cast hcard
  refine ⟨fun q hq => ?_, fun q hq hnone => ?_, fun i hi => ?_, fun values hvalues v hv => ?_,
    fun hreturned => ?_, fun hreturned => ?_⟩
  · have hle := length_keptCells_le collate dataset manifest params unit (hpositive q hq) hq
    have hle' := length_keptCells_le collate dataset' manifest params unit (hpositive q hq) hq
    linarith
  · have hle := length_keptCells_le collate dataset manifest params unit (hpositive q hq) hq
    have hle' := length_keptCells_le collate dataset' manifest params unit (hpositive q hq) hq
    rcases hnone with hnone | hnone
    · rw [keptCells_eq_nil hnone hbounds] at hcardq
      simp only [List.length_nil, Nat.cast_zero, zero_add] at hcardq
      exact hcardq.trans hle'
    · have hnil : keptCells collate dataset' manifest params unit = [] :=
        keptCells_eq_nil hnone hbounds
      rw [hnil] at hcardq
      simp only [List.length_nil, Nat.cast_zero, add_zero] at hcardq
      exact hcardq.trans hle
  · simp only [handed, handed', release, release', hhanded, hhanded'] at hi ⊢
    obtain ⟨hlt, hat, hat', -⟩ := of_mem_differingPositions hbounds hsame hi
    obtain ⟨common, hperm, hperm'⟩ := values_perm collate ledger hbounds hsame
      (partitionKey (listPartitions manifest)[i])
    rw [hat, hat']
    exact ⟨common, _, _, by rw [List.length_map]; exact length_own_le _,
      by rw [List.length_map]; exact length_own_le _, hperm, hperm'⟩
  · simp only [handed, handed', release, release', hhanded, hhanded', List.mem_map] at hvalues
    rcases hvalues with ⟨p, -, rfl⟩ | ⟨p, -, rfl⟩
    · exact values_mem_bounds hbounds hv
    · exact values_mem_bounds hbounds hv
  · simp only [handed, release, hhanded, List.length_map, List.length_take]
    rw [hall hreturned, min_self]
  · simp only [handed', release', hhanded', List.length_map, List.length_take]
    rw [hall' hreturned, min_self]

end Units

/-! ## A unit that moves from one cell to another -/

/-- One segment with two windows. -/
def twoWindows : ReleaseManifest where
  version := "v1"
  segmentIds := ["s"]
  windows := [⟨"early", .fin 0, .fin 10⟩, ⟨"late", .fin 10, .fin 20⟩]

/-- A release in which a unit may influence one cell. -/
def oneCell : ReleaseParams ℚ where
  speedLower := .fin 0
  speedUpper := .fin 200
  epsilonSum := 1
  epsilonSelect := 1
  deltaSelect := 0
  maxPartitionsPerUnit := .fin 1

/-- A mechanism that answers every question. -/
def answering : DpMechanism ℚ :=
  ⟨fun _ => some ⟨true, 1, 0⟩, fun _ => some ⟨.fin 0, 1⟩⟩

/-- A ledger nobody is charged in. -/
def unspent : BudgetLedger ℚ := ⟨⟨10, 1⟩, .empty⟩

/-- Two units, one of which passes the segment at `timestampMs`. -/
def passing (timestampMs : ℚ) : List SpeedTuple :=
  [⟨"unit", "s", .fin timestampMs, .fin 30⟩, ⟨"other", "s", .fin 5, .fin 50⟩]

theorem neighbours_differ_little_sample :
    ((differingPositions
      (handedValues (releaseWithDp Utf16.codeUnits (passing 5) twoWindows oneCell answering unspent
        .empty).queries)
      (handedValues (releaseWithDp Utf16.codeUnits (passing 15) twoWindows oneCell answering unspent
        .empty).queries)).card : ℚ) ≤ 2 * 1 :=
  have hsame : SameButUnit "unit" (passing 5) (passing 15) := by
    unfold SameButUnit
    decide +kernel
  (neighbours_differ_little Utf16.codeUnits unspent answering answering (by decide +kernel)
    (by decide +kernel) (by decide +kernel) hsame rfl rfl).1 1 rfl

/-- **A unit with one cell changes two**: its tuple in another window leaves one cell and enters
another. -/
theorem moved_unit_changes_two :
    buildReleaseManifest twoWindows = .ok twoWindows ∧
      SameButUnit "unit" (passing 5) (passing 15) ∧
      oneCell.maxPartitionsPerUnit = .fin 1 ∧
      (differingPositions
        (handedValues (releaseWithDp Utf16.codeUnits (passing 5) twoWindows oneCell answering
          unspent .empty).queries)
        (handedValues (releaseWithDp Utf16.codeUnits (passing 15) twoWindows oneCell answering
          unspent .empty).queries)).card = 2 := by
  refine ⟨by decide +kernel, by unfold SameButUnit; decide +kernel, rfl, by decide +kernel⟩

end OpenConditions.ProbeSpike

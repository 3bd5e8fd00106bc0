import Mathlib.Algebra.BigOperators.Group.List.Basic
import OpenConditions.Lib.Run
import OpenConditions.ProbeSpike.Neighbours

set_option relaxedAutoImplicit false
set_option autoImplicit false

/-!
# What a unit loses and what it is charged

A release puts two questions about each cell to the mechanism and charges its units once the last
one is answered.  A unit is charged for each cell it influences, so the charge is what the
questions about these cells spend on it, unless a cell is listed twice and asked about twice, or
the mechanism throws and the charge is never made.

## Main definitions

* `loss` — what the questions about cells with a unit's values spend on it.
* `ReleaseRun`, `releaseStep` — releases that share one ledger and one store.
* `Accounted` — a release in which a unit is charged for all that is asked about it.
* `Covered` — the ledger records a unit's losses, within the budget.

## Main results

* `loss_queryPartitions` — what a release that returns spends on a unit.
* `Covered.step` — an accounted release keeps the losses covered.
* `loss_le_spent` — over every run of accounted releases, losses stay within what is recorded and
  what is recorded within the budget.
* `thrown_release_uncharged` — a mechanism that throws leaves losses unrecorded.
-/

namespace OpenConditions.ProbeSpike

/-! ## Losses -/

/-- Whether the values of a question include the unit's. -/
def Query.includes {E : Type} (query : Query E) (unit : String) : Bool :=
  query.cellTuples.any fun item => decide (item.privacyUnitId = unit)

/-- What a question spends. -/
def MechanismCall.cost {E : Type} [Zero E] : MechanismCall E → UnitSpend E
  | .selectPartition _ epsilon delta => ⟨epsilon, delta⟩
  | .boundedSum _ _ _ epsilon => ⟨epsilon, 0⟩

section Loss

variable {E : Type} [AddCommMonoid E] {unit : String}

/-- What the questions about cells with a unit's values spend on it. -/
def loss (unit : String) (queries : List (Query E)) : UnitSpend E :=
  let own := queries.filter fun query => query.includes unit
  ⟨(own.map fun query => query.call.cost.epsilon).sum,
    (own.map fun query => query.call.cost.delta).sum⟩

/-- Losses add up. -/
theorem loss_append (queries queries' : List (Query E)) :
    loss unit (queries ++ queries') =
      ⟨(loss unit queries).epsilon + (loss unit queries').epsilon,
        (loss unit queries).delta + (loss unit queries').delta⟩ := by
  simp [loss, List.filter_append, List.map_append]

/-- Questions about cells of others spend nothing on a unit. -/
theorem loss_eq_zero {queries : List (Query E)}
    (h : ∀ query ∈ queries, query.includes unit = false) : loss unit queries = ⟨0, 0⟩ := by
  have hnone : (queries.filter fun query => query.includes unit) = [] :=
    List.filter_eq_nil_iff.mpr fun query hquery => by simp [h query hquery]
  simp [loss, hnone]

/-! ## The questions of a release -/

variable {params : ReleaseParams E} {contributions : Contributions E}
variable {mechanism : DpMechanism E}

/-- The two questions about a cell. -/
def cellQueries (params : ReleaseParams E) (contributions : Contributions E)
    (partition : Partition) : List (Query E) :=
  let cellTuples := contributions.bucket (partitionKey partition)
  let values := cellTuples.map Assigned.clampedSpeed
  [⟨cellTuples, .selectPartition values.length params.epsilonSelect params.deltaSelect⟩,
    ⟨cellTuples, .boundedSum values params.speedLower params.speedUpper params.epsilonSum⟩]

/-- A release that returns has put both questions about every cell. -/
theorem queries_of_returned {n : ℕ} {partitions : List Partition} {progress : Progress E}
    (h : (queryPartitions mechanism params contributions n partitions progress).2.isSome = true) :
    (queryPartitions mechanism params contributions n partitions progress).1 =
      partitions.flatMap (cellQueries params contributions) := by
  induction partitions generalizing n progress with
  | nil => rfl
  | cons partition partitions ih =>
    rw [queryPartitions] at h ⊢
    cases hselect : mechanism.selectPartition n with
    | none =>
      rw [hselect] at h
      cases h
    | some selection =>
      cases hsum : mechanism.boundedSum n with
      | none =>
        rw [hselect, hsum] at h
        cases h
      | some noisy =>
        rw [hselect, hsum] at h
        rw [List.flatMap_cons, ← ih h]
        rfl

/-- The mechanism answers everything about the cells before `i`, and throws at that one. -/
def DpMechanism.ThrowsFirstAt (mechanism : DpMechanism E) (i : ℕ) : Prop :=
  (mechanism.selectPartition i = none ∨ mechanism.boundedSum i = none) ∧
    ∀ j < i, mechanism.selectPartition j ≠ none ∧ mechanism.boundedSum j ≠ none

/-- A release that throws has asked about the cells up to the one it threw at. -/
theorem queries_of_thrown {partitions : List Partition} :
    ∀ {n : ℕ} {progress : Progress E},
      (∀ j < n, mechanism.selectPartition j ≠ none ∧ mechanism.boundedSum j ≠ none) →
      (queryPartitions mechanism params contributions n partitions progress).2 = none →
      ∃ i, n ≤ i ∧ i < n + partitions.length ∧ mechanism.ThrowsFirstAt i ∧
        ∀ query ∈ (queryPartitions mechanism params contributions n partitions progress).1,
          ∃ partition ∈ partitions.take (i - n + 1),
            query.cellTuples = contributions.bucket (partitionKey partition) := by
  induction partitions with
  | nil => exact fun _ h => by cases h
  | cons partition partitions ih =>
    intro n progress hbefore h
    rw [queryPartitions] at h ⊢
    cases hselect : mechanism.selectPartition n with
    | none =>
      refine ⟨n, le_refl n, by simp, ⟨Or.inl hselect, hbefore⟩, fun query hquery => ?_⟩
      simp only [List.mem_singleton] at hquery
      exact ⟨partition, by simp, by rw [hquery]⟩
    | some selection =>
      cases hsum : mechanism.boundedSum n with
      | none =>
        refine ⟨n, le_refl n, by simp, ⟨Or.inr hsum, hbefore⟩, fun query hquery => ?_⟩
        simp only [List.mem_cons, List.not_mem_nil, or_false] at hquery
        rcases hquery with rfl | rfl
        · exact ⟨partition, by simp, rfl⟩
        · exact ⟨partition, by simp, rfl⟩
      | some noisy =>
        rw [hselect, hsum] at h
        have hbefore' : ∀ j < n + 1, mechanism.selectPartition j ≠ none ∧
            mechanism.boundedSum j ≠ none := by
          intro j hj
          rcases Nat.lt_succ_iff_lt_or_eq.mp hj with hj | rfl
          · exact hbefore j hj
          · exact ⟨by rw [hselect]; exact Option.some_ne_none _,
              by rw [hsum]; exact Option.some_ne_none _⟩
        obtain ⟨i, hle, hlt, hthrows, hqueries⟩ := ih hbefore' h
        have htake : i - n + 1 = (i - (n + 1) + 1) + 1 := by omega
        refine ⟨i, by omega, by rw [List.length_cons]; omega, hthrows, fun query hquery => ?_⟩
        rw [htake, List.take_succ_cons]
        simp only [List.mem_cons] at hquery
        rcases hquery with rfl | rfl | hquery
        · exact ⟨partition, List.mem_cons_self .., rfl⟩
        · exact ⟨partition, List.mem_cons_self .., rfl⟩
        · obtain ⟨p, hp, hcell⟩ := hqueries query hquery
          exact ⟨p, List.mem_cons_of_mem _ hp, hcell⟩

/-- What the two questions about a cell spend on a unit. -/
theorem loss_cellQueries (partition : Partition) :
    loss unit (cellQueries params contributions partition) =
      if (contributions.bucket (partitionKey partition)).any
          fun item => decide (item.privacyUnitId = unit)
      then ⟨params.epsilonSum + params.epsilonSelect, params.deltaSelect⟩ else ⟨0, 0⟩ := by
  by_cases h : (contributions.bucket (partitionKey partition)).any
      (fun item => decide (item.privacyUnitId = unit)) = true
  · simp [loss, cellQueries, Query.includes, MechanismCall.cost, h, add_comm]
  · rw [Bool.not_eq_true] at h
    simp [loss, cellQueries, Query.includes, h]

/-- What the questions about some cells spend on a unit. -/
theorem loss_flatMap_cellQueries (partitions : List Partition) :
    loss unit (partitions.flatMap (cellQueries params contributions)) =
      let cells := partitions.countP fun partition =>
        (contributions.bucket (partitionKey partition)).any
          fun item => decide (item.privacyUnitId = unit)
      ⟨cells • (params.epsilonSum + params.epsilonSelect), cells • params.deltaSelect⟩ := by
  induction partitions with
  | nil => simp [loss]
  | cons partition partitions ih =>
    rw [List.flatMap_cons, loss_append, ih, loss_cellQueries]
    simp only [List.countP_cons]
    by_cases h : (contributions.bucket (partitionKey partition)).any
        (fun item => decide (item.privacyUnitId = unit)) = true
    · simp only [if_pos h, succ_nsmul']
    · simp [h]

end Loss

/-! ## The charges of a release -/

section Charges

variable {E : Type} [AddCommMonoid E]

/-- Charging one unit leaves what others have spent. -/
theorem spent_charge (ledger : BudgetLedger E) (unit other : String) (cost : UnitSpend E) :
    (ledger.charge unit cost).spent other =
      if other = unit then ⟨(ledger.spent unit).epsilon + cost.epsilon,
        (ledger.spent unit).delta + cost.delta⟩ else ledger.spent other := by
  unfold BudgetLedger.charge BudgetLedger.spent
  rw [OrderedMap.get_set]
  split_ifs <;> rfl

/-- What a unit has spent after the charges of different units. -/
theorem spent_charges (unit : String) : ∀ (charges : List (String × UnitSpend E))
    (ledger : BudgetLedger E), (charges.map Prod.fst).Nodup →
    (charges.foldl (fun ledger charge => ledger.charge charge.1 charge.2) ledger).spent unit =
      match OrderedMap.getEntries unit charges with
      | some cost => ⟨(ledger.spent unit).epsilon + cost.epsilon,
          (ledger.spent unit).delta + cost.delta⟩
      | none => ledger.spent unit
  | [], _, _ => rfl
  | charge :: charges, ledger, h => by
    rw [List.map_cons, List.nodup_cons] at h
    rw [List.foldl_cons, spent_charges unit charges _ h.2, spent_charge, OrderedMap.getEntries]
    by_cases hunit : charge.1 = unit
    · rw [OrderedMap.getEntries_eq_none (hunit ▸ h.1), if_pos hunit, if_pos hunit.symm, hunit]
    · rw [if_neg hunit, if_neg (Ne.symm hunit)]

/-- Charging leaves the budget. -/
theorem budget_charges (charges : List (String × UnitSpend E)) (ledger : BudgetLedger E) :
    (charges.foldl (fun ledger charge => ledger.charge charge.1 charge.2) ledger).budget =
      ledger.budget := by
  induction charges generalizing ledger with
  | nil => rfl
  | cons charge charges ih => exact ih _

variable [LE E] [DecidableLE E] {K : Type} [LinearOrder K] (collate : String → K)
variable (dataset : List SpeedTuple) (manifest : ReleaseManifest) (params : ReleaseParams E)
variable (ledger : BudgetLedger E) (unit : String)

/-- The charges of a release, unit by unit. -/
theorem charges_eq : (shapeContributions collate dataset manifest params ledger).charges =
    ((unitCells (dedupedTuples collate dataset manifest params)).entries.map
      fun e => (e.1, allowedCells params e.2)).filterMap fun e =>
        (if ledger.canAfford e.1 (cellsCost params e.2) then some (cellsCost params e.2)
        else none).map (Prod.mk e.1) := by
  simp only [shapeContributions]
  refine List.filterMap_congr fun e _ => ?_
  split_ifs <;> rfl

omit [AddCommMonoid E] [LE E] [DecidableLE E] in
/-- The cells allowed are listed for different units. -/
theorem nodup_unitAllowedCells :
    (((unitCells (dedupedTuples collate dataset manifest params)).entries.map
      fun e => (e.1, allowedCells params e.2)).map Prod.fst).Nodup := by
  rw [List.map_map]
  exact (unitCells (dedupedTuples collate dataset manifest params)).nodup

/-- The charges of a release are of different units. -/
theorem nodup_charges :
    ((shapeContributions collate dataset manifest params ledger).charges.map Prod.fst).Nodup := by
  rw [charges_eq]
  exact (OrderedMap.keys_filterMap_sublist (fun unit cells =>
      if ledger.canAfford unit (cellsCost params cells) then some (cellsCost params cells) else none)
    _).nodup (nodup_unitAllowedCells collate dataset manifest params)

/-- What a unit is charged for the cells it may influence, when its budget covers them. -/
theorem getEntries_charges :
    (OrderedMap.getEntries unit
        (shapeContributions collate dataset manifest params ledger).charges).getD ⟨0, 0⟩ =
      if ledger.canAfford unit (cellsCost params (keptCells collate dataset manifest params unit))
      then cellsCost params (keptCells collate dataset manifest params unit) else ⟨0, 0⟩ := by
  rw [charges_eq, OrderedMap.getEntries_filterMap (fun unit cells =>
      if ledger.canAfford unit (cellsCost params cells) then some (cellsCost params cells) else none)
    unit (nodup_unitAllowedCells collate dataset manifest params),
    OrderedMap.getEntries_map fun _ cells => allowedCells params cells]
  unfold keptCells OrderedMap.get
  cases OrderedMap.getEntries unit
      (unitCells (dedupedTuples collate dataset manifest params)).entries with
  | none => simp [allowedCells, cellsCost]
  | some cells =>
    simp only [Option.map_some, Option.bind_some, Option.getD_some]
    split_ifs <;> rfl

/-- A cell has values of a unit when the unit may influence it and its budget covers its cells. -/
theorem any_bucket (key : String) :
    (((shapeContributions collate dataset manifest params ledger).bucket key).any
        fun item => decide (item.privacyUnitId = unit)) =
      (decide (key ∈ keptCells collate dataset manifest params unit) &&
        ledger.canAfford unit
          (cellsCost params (keptCells collate dataset manifest params unit))) := by
  rw [Bool.eq_iff_iff, List.any_eq_true, Bool.and_eq_true, decide_eq_true_eq]
  simp only [Contributions.bucket, List.mem_filter, decide_eq_true_eq]
  constructor
  · rintro ⟨item, ⟨hitem, rfl⟩, rfl⟩
    exact ((mem_surviving collate dataset manifest params ledger).mp hitem).2
  · rintro ⟨hkept, hafford⟩
    obtain ⟨item, hitem, rfl, rfl⟩ := exists_of_mem_keptCells _ _ _ _ _ hkept
    exact ⟨item, ⟨(mem_surviving collate dataset manifest params ledger).mpr
      ⟨hitem, hkept, hafford⟩, rfl⟩, rfl⟩

/-- The cells of the grid a unit may influence are as many as it may influence, when each is listed
once. -/
theorem countP_mem_eq_length : ∀ {kept keys : List String}, kept.Nodup →
    (∀ key ∈ kept, keys.count key = 1) →
      (keys.countP fun key => decide (key ∈ kept)) = kept.length
  | [], keys, _, _ => by simp
  | key :: kept, keys, hnodup, honce => by
    rw [List.nodup_cons] at hnodup
    have ih := countP_mem_eq_length hnodup.2 fun k hk => honce k (List.mem_cons_of_mem _ hk)
    have hsplit : ∀ keys : List String, (keys.countP fun k => decide (k ∈ key :: kept)) =
        keys.count key + keys.countP fun k => decide (k ∈ kept) := by
      intro keys
      induction keys with
      | nil => rfl
      | cons k keys ihk =>
        rw [List.countP_cons, List.count_cons, List.countP_cons, ihk]
        by_cases hk : k = key
        · subst hk
          simp [hnodup.1]
          omega
        · simp [hk]
          omega
    rw [hsplit, ih, honce key (List.mem_cons_self ..), List.length_cons, Nat.add_comm]

/-- **A release that returns spends on a unit what it is charged**, when the cells the unit may
influence are listed once. -/
theorem loss_of_returned {mechanism : DpMechanism E} {progress : Progress E}
    (h : (queryPartitions mechanism params (shapeContributions collate dataset manifest params
      ledger) 0 (listPartitions manifest) progress).2.isSome = true)
    (honce : ∀ key ∈ keptCells collate dataset manifest params unit,
      ((listPartitions manifest).map partitionKey).count key = 1) :
    loss unit (queryPartitions mechanism params (shapeContributions collate dataset manifest params
      ledger) 0 (listPartitions manifest) progress).1 =
      (OrderedMap.getEntries unit
        (shapeContributions collate dataset manifest params ledger).charges).getD ⟨0, 0⟩ := by
  rw [queries_of_returned h, loss_flatMap_cellQueries, getEntries_charges]
  simp only [any_bucket]
  by_cases hafford : ledger.canAfford unit
      (cellsCost params (keptCells collate dataset manifest params unit)) = true
  · have hcount := countP_mem_eq_length (nodup_keptCells collate dataset manifest params unit) honce
    rw [List.countP_map] at hcount
    have hcells : ((listPartitions manifest).countP fun partition =>
        decide (partitionKey partition ∈ keptCells collate dataset manifest params unit) &&
          ledger.canAfford unit
            (cellsCost params (keptCells collate dataset manifest params unit))) =
        (keptCells collate dataset manifest params unit).length := by
      simpa [hafford, Function.comp_def] using hcount
    rw [if_pos hafford, hcells]
    rfl
  · simp [hafford]

/-- What a unit has spent after a release: what it had spent, and its charge. -/
theorem spent_after :
    ((shapeContributions collate dataset manifest params ledger).charges.foldl
      (fun ledger charge => ledger.charge charge.1 charge.2) ledger).spent unit =
      let cost := (OrderedMap.getEntries unit
        (shapeContributions collate dataset manifest params ledger).charges).getD ⟨0, 0⟩
      ⟨(ledger.spent unit).epsilon + cost.epsilon, (ledger.spent unit).delta + cost.delta⟩ := by
  rw [spent_charges unit _ ledger (nodup_charges collate dataset manifest params ledger)]
  cases OrderedMap.getEntries unit
      (shapeContributions collate dataset manifest params ledger).charges with
  | none => simp
  | some cost => rfl

/-- A charge is one the budget covers. -/
theorem spent_after_le (hepsilon : (ledger.spent unit).epsilon ≤ ledger.budget.epsilon)
    (hdelta : (ledger.spent unit).delta ≤ ledger.budget.delta) :
    (ledger.spent unit).epsilon + ((OrderedMap.getEntries unit (shapeContributions collate dataset
        manifest params ledger).charges).getD ⟨0, 0⟩).epsilon ≤ ledger.budget.epsilon ∧
      (ledger.spent unit).delta + ((OrderedMap.getEntries unit (shapeContributions collate dataset
        manifest params ledger).charges).getD ⟨0, 0⟩).delta ≤ ledger.budget.delta := by
  rw [getEntries_charges]
  split_ifs with hafford
  · simpa [BudgetLedger.canAfford] using hafford
  · simpa using ⟨hepsilon, hdelta⟩

end Charges

/-! ## Runs -/

/-- One release of a run. -/
structure ReleaseRun (E : Type) where
  dataset : List SpeedTuple
  manifest : ReleaseManifest
  params : ReleaseParams E
  mechanism : DpMechanism E

/-- The ledger and the store the releases share, and the questions put so far. -/
structure ReleaseState (E : Type) where
  ledger : BudgetLedger E
  store : ReleaseStore E
  queries : List (Query E)

/-- Nothing charged, committed or asked. -/
def ReleaseState.start {E : Type} (budget : UnitSpend E) : ReleaseState E :=
  ⟨⟨budget, .empty⟩, .empty, []⟩

/-- A tuple falls on a cell of the grid. -/
def SpeedTuple.FallsOn (tuple : SpeedTuple) (manifest : ReleaseManifest) (key : String) : Prop :=
  tuple.segmentId ∈ manifest.segmentIds ∧
    ∃ window, windowForTimestamp manifest tuple.timestampMs = some window ∧
      partitionKey ⟨tuple.segmentId, window.windowId⟩ = key

/-- A release is accounted for a unit: it repeats a committed one, or the cells the unit's tuples
fall on are listed once and not among those asked about before the mechanism throws. -/
structure Accounted {E : Type} (unit : String) (s : ReleaseState E) (run : ReleaseRun E) : Prop where
  once : s.store.get run.manifest.version = none →
    ∀ tuple ∈ run.dataset, tuple.privacyUnitId = unit → ∀ key, tuple.FallsOn run.manifest key →
      ((listPartitions run.manifest).map partitionKey).count key = 1
  answered : s.store.get run.manifest.version = none →
    ∀ i < (listPartitions run.manifest).length, run.mechanism.ThrowsFirstAt i →
      ∀ tuple ∈ run.dataset, tuple.privacyUnitId = unit → ∀ key, tuple.FallsOn run.manifest key →
        key ∉ ((listPartitions run.manifest).take (i + 1)).map partitionKey

section Runs

variable {E : Type} [AddCommMonoid E] [LE E] [DecidableLE E]
variable {K : Type} [LinearOrder K] (collate : String → K)

/-- One release, and the questions it adds. -/
def releaseStep (s : ReleaseState E) (run : ReleaseRun E) : Option (ReleaseState E) :=
  let released := releaseWithDp collate run.dataset run.manifest run.params run.mechanism s.ledger
    s.store
  some ⟨released.ledger, released.store, s.queries ++ released.queries⟩

/-- A unit's losses are what the ledger records, and within the budget. -/
structure Covered (unit : String) (s : ReleaseState E) : Prop where
  epsilon : (loss unit s.queries).epsilon = (s.ledger.spent unit).epsilon
  delta : (loss unit s.queries).delta = (s.ledger.spent unit).delta
  epsilon_le : (s.ledger.spent unit).epsilon ≤ s.ledger.budget.epsilon
  delta_le : (s.ledger.spent unit).delta ≤ s.ledger.budget.delta

variable {collate} {unit : String} {s s' : ReleaseState E} {run : ReleaseRun E}

omit [AddCommMonoid E] [LE E] [DecidableLE E] in
/-- The cells a unit may influence are cells its tuples fall on. -/
theorem exists_fallsOn {key : String}
    (h : key ∈ keptCells collate run.dataset run.manifest run.params unit) :
    ∃ tuple ∈ run.dataset, tuple.privacyUnitId = unit ∧ tuple.FallsOn run.manifest key := by
  obtain ⟨item, hitem, hunit, hkey⟩ := exists_of_mem_keptCells _ _ _ _ _ h
  have hassigned := (List.mem_insertionSort _).mp (of_mem_firstOfUnit hitem).1
  obtain ⟨tuple, htuple, hassign⟩ := List.mem_filterMap.mp hassigned
  refine ⟨tuple, htuple, (privacyUnitId_assign hassign).symm.trans hunit, ?_⟩
  unfold assign at hassign
  split_ifs at hassign with hsegment
  obtain ⟨window, hwindow, rfl⟩ := Option.map_eq_some_iff.mp hassign
  exact ⟨hsegment, window, hwindow, hkey⟩

/-- **An accounted release keeps the losses covered.** -/
theorem Covered.step (h : Covered unit s) (haccounted : Accounted unit s run)
    (hstep : releaseStep collate s run = some s') : Covered unit s' := by
  cases hstep
  unfold releaseWithDp
  cases hstored : s.store.get run.manifest.version with
  | some committed =>
    refine ⟨?_, ?_, h.epsilon_le, h.delta_le⟩
    · rw [List.append_nil]
      exact h.epsilon
    · rw [List.append_nil]
      exact h.delta
  | none =>
    simp only
    split
    · -- The mechanism threw: the cells asked about hold no value of the unit.
      rename_i hthrown
      obtain ⟨i, -, hi, hthrows, hqueries⟩ :=
        queries_of_thrown (fun j hj => absurd hj (Nat.not_lt_zero j)) hthrown
      have hnone : ∀ query ∈ (queryPartitions run.mechanism run.params (shapeContributions collate
          run.dataset run.manifest run.params s.ledger) 0 (listPartitions run.manifest)
          (.start run.manifest run.params)).1, query.includes unit = false := by
        intro query hquery
        obtain ⟨partition, hpartition, hcell⟩ := hqueries query hquery
        rw [Query.includes, hcell, any_bucket, Bool.and_eq_false_iff, decide_eq_false_iff_not]
        refine Or.inl fun hkept => ?_
        obtain ⟨tuple, htuple, hunit, hfalls⟩ := exists_fallsOn hkept
        rw [Nat.sub_zero] at hpartition
        rw [Nat.zero_add] at hi
        exact haccounted.answered hstored i hi hthrows tuple htuple hunit _ hfalls
          (List.mem_map.mpr ⟨partition, hpartition, rfl⟩)
      refine ⟨?_, ?_, h.epsilon_le, h.delta_le⟩
      · rw [loss_append, loss_eq_zero hnone]
        simpa using h.epsilon
      · rw [loss_append, loss_eq_zero hnone]
        simpa using h.delta
    · rename_i progress hreturned
      have honce : ∀ key ∈ keptCells collate run.dataset run.manifest run.params unit,
          ((listPartitions run.manifest).map partitionKey).count key = 1 := by
        intro key hkept
        obtain ⟨tuple, htuple, hunit, hfalls⟩ := exists_fallsOn hkept
        exact haccounted.once hstored tuple htuple hunit key hfalls
      have hloss := loss_of_returned collate run.dataset run.manifest run.params s.ledger unit
        (Option.isSome_iff_exists.mpr ⟨progress, hreturned⟩) honce
      obtain ⟨hle, hle'⟩ := spent_after_le collate run.dataset run.manifest run.params s.ledger unit
        h.epsilon_le h.delta_le
      refine ⟨?_, ?_, ?_, ?_⟩
      · rw [loss_append, hloss, spent_after, h.epsilon]
      · rw [loss_append, hloss, spent_after, h.delta]
      · rw [spent_after, budget_charges]
        exact hle
      · rw [spent_after, budget_charges]
        exact hle'

/-- **Losses stay within what is recorded, and this within the budget**, over every run of releases
that are accounted for the unit. -/
theorem loss_le_spent {E : Type} [AddCommMonoid E] [PartialOrder E] [DecidableLE E]
    {s : ReleaseState E} {unit : String} (budget : UnitSpend E) (runs : List (ReleaseRun E))
    (hepsilon : 0 ≤ budget.epsilon) (hdelta : 0 ≤ budget.delta)
    (haccounted : Transition.Along (releaseStep collate) (Accounted unit) (.start budget) runs)
    (hrun : Transition.run (releaseStep collate) (.start budget) runs = some s) :
    (loss unit s.queries).epsilon ≤ (s.ledger.spent unit).epsilon ∧
      (loss unit s.queries).delta ≤ (s.ledger.spent unit).delta ∧
      (s.ledger.spent unit).epsilon ≤ s.ledger.budget.epsilon ∧
      (s.ledger.spent unit).delta ≤ s.ledger.budget.delta := by
  have hstart : Covered unit (.start budget : ReleaseState E) := ⟨rfl, rfl, hepsilon, hdelta⟩
  have hcovered := Transition.run_invariant_of_along
    (fun _ _ _ h haccounted hstep => Covered.step h haccounted hstep) hstart haccounted hrun
  exact ⟨hcovered.epsilon.le, hcovered.delta.le, hcovered.epsilon_le, hcovered.delta_le⟩

/-- A grid without repeated cells and a mechanism that answers account for every unit. -/
theorem accounted_of_answered {E : Type} (unit : String) (s : ReleaseState E)
    {run : ReleaseRun E} (hkeys : ((listPartitions run.manifest).map partitionKey).Nodup)
    (hanswers : ∀ i, run.mechanism.selectPartition i ≠ none ∧ run.mechanism.boundedSum i ≠ none) :
    Accounted unit s run := by
  refine ⟨fun _ tuple _ _ key hfalls => ?_, fun _ i _ hthrows => ?_⟩
  · obtain ⟨hsegment, window, hwindow, rfl⟩ := hfalls
    refine List.count_eq_one_of_mem hkeys (List.mem_map_of_mem (List.mem_flatMap.mpr
      ⟨tuple.segmentId, hsegment, ?_⟩))
    exact List.mem_map.mpr ⟨window, List.mem_of_find?_eq_some hwindow, rfl⟩
  · exact absurd hthrows.1 (not_or.mpr (hanswers i))

end Runs

/-! ## A mechanism that throws -/

/-- A mechanism that throws at the second cell. -/
def throwing : DpMechanism ℚ :=
  ⟨fun i => if i = 0 then some ⟨true, 1, 0⟩ else none, fun _ => some ⟨.fin 0, 1⟩⟩

theorem loss_le_spent_sample :
    ∃ s : ReleaseState ℚ, Transition.run (releaseStep Utf16.codeUnits) (.start ⟨10, 1⟩)
      [⟨passing 5, twoWindows, oneCell, answering⟩] = some s ∧
      (loss "unit" s.queries).epsilon ≤ (s.ledger.spent "unit").epsilon :=
  ⟨_, rfl, (loss_le_spent ⟨10, 1⟩ [⟨passing 5, twoWindows, oneCell, answering⟩]
    (by decide +kernel) (by decide +kernel)
    ⟨accounted_of_answered "unit" _ (by decide +kernel) (fun _ => ⟨by simp [answering],
      by simp [answering]⟩), fun _ _ => trivial⟩ rfl).1⟩

/-- **A mechanism that throws leaves losses unrecorded**: both questions about the first cell were
answered, and the ledger records nothing. -/
theorem thrown_release_uncharged :
    ∃ s : ReleaseState ℚ, Transition.run (releaseStep Utf16.codeUnits) (.start ⟨10, 1⟩)
      [⟨passing 5, twoWindows, oneCell, throwing⟩] = some s ∧
      (s.ledger.spent "unit").epsilon < (loss "unit" s.queries).epsilon :=
  ⟨_, rfl, by decide +kernel⟩

end OpenConditions.ProbeSpike

import OpenConditions.Lib.Grid
import OpenConditions.Lib.Run
import OpenConditions.Storage.Observations

set_option relaxedAutoImplicit false
set_option autoImplicit false

/-!
# The partitions of the observation history

The history is cut by retention class and then by days, or by months where a class keeps everything
(`packages/storage/src/observation-partitions.ts`).  Maintenance creates the partitions a while
ahead and drops those past their retention; a writer counts on a narrower window.

Instants are milliseconds since 1970, of any year that a date text of the database has.  The range
of a partition is the one its name says.  A run names the partitions it created or dropped; these
lists are the difference of its tables and are left out.

## Main definitions

* `wanted` — the partitions that a class needs around an instant.
* `partitionCoverage` — what a writer counts on.
* `ensureObservationPartitions`, `dropExpiredObservationPartitions` — maintenance.

## Main results

* `range_of_mem_wanted` — the range that a partition is created with is that of its name.
* `exists_wanted` — what a writer counts on is wanted by the maintenance of the day before.
* `partition_of_coverage` — and it is there when the writer writes.
* `keepsUnrolled_iff` — when no reading is dropped before its rollup.
-/

namespace OpenConditions.Storage

/-! ## Names and ranges -/

/-- The milliseconds of a day. -/
def dayMs : ℤ := 86400000

/-- The days of the clock. -/
def dayGrid : Grid := Grid.days dayMs (by decide)

/-- The months of the clock. -/
def monthGrid : Grid := Grid.months dayMs (by decide)

/-- The date of an instant. -/
def dateOf (t : ℤ) : Civil.Date := Civil.civil (t / dayMs)

/-- A day or a month, by the digits in a name. -/
inductive PartitionPeriod where
  | day (date : Civil.Date)
  | month (year : ℤ) (month : ℕ)
  deriving DecidableEq

/-- The name of a partition: its retention class, and its day or month. -/
structure PartitionName where
  days : ℕ
  period : PartitionPeriod
  deriving DecidableEq

/-- The start of a partition's range. -/
def PartitionName.start (name : PartitionName) : ℤ :=
  match name.period with
  | .day date => date.days * dayMs
  | .month year month => (⟨year, month, 1⟩ : Civil.Date).days * dayMs

/-- The end of a partition's range. -/
def PartitionName.end (name : PartitionName) : ℤ :=
  match name.period with
  | .day date => date.days * dayMs + dayMs
  | .month year month => (⟨year, month + 1, 1⟩ : Civil.Date).days * dayMs

/-- A partition is of a day. -/
def PartitionName.isDay (name : PartitionName) : Bool :=
  match name.period with
  | .day _ => true
  | .month _ _ => false

/-! ## What is wanted -/

/-- How often a loop from one instant to another can run. -/
def loopFuel (first limit : ℤ) : ℕ := (limit - first).toNat + 1

/-- The partitions one retention class needs around an instant, with their ranges. -/
def wanted (days : ℕ) (now : ℤ) (aheadDays : ℕ) : List (PartitionName × ℤ × ℤ) :=
  let limit := now + aheadDays * dayMs
  if days = 0 then
    -- From the previous month, for late readings.
    let first := monthGrid.floor (monthGrid.floor now - 1)
    (monthGrid.windows limit (loopFuel first limit) first).map fun w =>
      (⟨0, .month (dateOf w.1).year (dateOf w.1).month⟩, w.1, w.2)
  else
    let first := dayGrid.floor now - days * dayMs
    (dayGrid.windows limit (loopFuel first limit) first).map fun w =>
      (⟨days, .day (dateOf w.1)⟩, w.1, w.2)

/-- How far ahead partitions exist. -/
def partitionAheadDays : ℕ := 16

/-- How much more maintenance keeps ahead. -/
def maintenanceMarginDays : ℕ := 1

/-- How long past its class's retention a day partition stays. -/
def dropSlackMs : ℤ := 60 * 60 * 1000

/-- Whether the partitions around an instant hold a reading of a class that starts then. -/
def partitionCovers (days : ℕ) (start now : ℤ) (aheadDays : ℕ) : Bool :=
  let windows := wanted days now aheadDays
  match windows.head?, windows.getLast? with
  | some first, some last => decide (first.2.1 ≤ start ∧ start < last.2.2)
  | _, _ => false

/-- What a writer counts on. -/
def partitionCoverage (now : ℤ) (days : ℕ) (start : ℤ) : Bool :=
  partitionCovers days start now partitionAheadDays

/-! ## The tables -/

/-- A reading of the history: its series, and when it starts. -/
structure HistoryReading where
  seriesId : ℕ
  start : ℤ

/-- A partition, whose readings lie in its range. -/
structure RangePartition where
  name : PartitionName
  readings : List HistoryReading
  within : ∀ r ∈ readings, name.start ≤ r.start ∧ r.start < name.end

/-- The partitions of the history: a list partition for each class, and those of its days or
months. -/
structure PartitionDb where
  lists : List ℕ
  ranges : List RangePartition

/-- The names of the day and month partitions. -/
def PartitionDb.names (db : PartitionDb) : List PartitionName := db.ranges.map RangePartition.name

/-- The database reads the date text of an instant: a year of four digits. -/
def hasDateText (t : ℤ) : Bool := decide (1 ≤ (dateOf t).year ∧ (dateOf t).year ≤ 9999)

/-- Creates a partition; the database refuses a range it cannot read and a name that is taken. -/
def createRange (db : PartitionDb) (name : PartitionName) (start stop : ℤ) : Option PartitionDb :=
  if hasDateText start = true ∧ hasDateText stop = true ∧ name ∉ db.names then
    some { db with ranges := db.ranges ++ [⟨name, [], fun r hr => by cases hr⟩] }
  else none

/-- Creates the list partition of a class, unless there was one. -/
def createList (existing : List ℕ) (db : PartitionDb) (days : ℕ) : Option PartitionDb :=
  if days ∈ existing then some db
  else if days ∈ db.lists then none
  else some { db with lists := db.lists ++ [days] }

/-- Creates what is wanted and was not there. -/
def createWanted (existing : List PartitionName) (db : PartitionDb)
    (windows : List (PartitionName × ℤ × ℤ)) : Option PartitionDb :=
  windows.foldlM (fun db w =>
    if w.1 ∈ existing then some db else createRange db w.1 w.2.1 w.2.2) db

/-- Creates the partitions every retention class needs; none where the database refuses one. -/
def ensureObservationPartitions (db : PartitionDb) (classes : List ℕ) (now : ℤ) (aheadDays : ℕ) :
    Option PartitionDb :=
  classes.foldlM (fun current days => (createList db.lists current days).bind fun current =>
    createWanted db.names current (wanted days now (aheadDays + maintenanceMarginDays))) db

/-- The registry's properties, by code. -/
abbrev PropertyRegistry := List (String × PropertyEntry)

/-- Every retention class the registry's properties use. -/
def retentionClasses (registry : PropertyRegistry) : List ℕ :=
  (registry.filterMap fun p => retentionDaysOf p.2).dedup

/-- The rollup period of a property that keeps history. -/
def rollupPeriodOf (entry : PropertyEntry) : Option String :=
  if (retentionDaysOf entry).isSome then entry.rollupPeriod else none

/-- The periods that the properties of a class roll up by. -/
def rolledUp (registry : PropertyRegistry) (days : ℕ) : List String :=
  registry.filterMap fun p => if retentionDaysOf p.2 = some days then rollupPeriodOf p.2 else none

/-- How far a period is finalized; one of which nothing is starts with 1970. -/
def finalizedBefore (frontiers : String → Option ℤ) (period : String) : ℤ :=
  (frontiers period).getD 0

/-- A partition holds a reading of a rolled-up property that the rollup has not reached. -/
def awaitsRollup (registry : PropertyRegistry) (frontiers : String → Option ℤ)
    (propertyOf : ℕ → Option String) (p : RangePartition) : Bool :=
  (registry.filterMap fun entry => (rollupPeriodOf entry.2).map fun period =>
    (period, entry.1)).any fun rolled =>
      decide (finalizedBefore frontiers rolled.1 < p.name.end) &&
        p.readings.any fun r => decide (finalizedBefore frontiers rolled.1 ≤ r.start) &&
          decide (propertyOf r.seriesId = some rolled.2)

/-- A day of a class that keeps some days is past its retention. -/
def isExpired (now : ℤ) (name : PartitionName) : Bool :=
  name.isDay && decide (name.days ≠ 0) && decide (name.end ≤ now - name.days * dayMs - dropSlackMs)

/-- A period of the class's own properties is not finalized past the end of a partition. -/
def isPending (registry : PropertyRegistry) (frontiers : String → Option ℤ)
    (name : PartitionName) : Bool :=
  (rolledUp registry name.days).any fun period => decide (finalizedBefore frontiers period < name.end)

/-- Whether a partition is dropped. -/
def isDropped (now : ℤ) (registry : PropertyRegistry) (frontiers : String → Option ℤ)
    (propertyOf : ℕ → Option String) (p : RangePartition) : Bool :=
  if p.name.days ∉ retentionClasses registry then !awaitsRollup registry frontiers propertyOf p
  else if isExpired now p.name = false then false
  else !(isPending registry frontiers p.name && !p.readings.isEmpty)

/-- Drops the partitions that are past their retention, and the classes of no property. -/
def dropExpiredObservationPartitions (db : PartitionDb) (now : ℤ) (registry : PropertyRegistry)
    (frontiers : String → Option ℤ) (propertyOf : ℕ → Option String) : PartitionDb :=
  let remaining := db.ranges.filter fun p => !isDropped now registry frontiers propertyOf p
  { lists := db.lists.filter fun days =>
      decide (days ∈ retentionClasses registry) || remaining.any fun p => decide (p.name.days = days)
    ranges := remaining }

/-! ## Steps -/

/-- Adds a reading to a partition. -/
def RangePartition.add (p : RangePartition) (r : HistoryReading)
    (h : p.name.start ≤ r.start ∧ r.start < p.name.end) : RangePartition :=
  ⟨p.name, p.readings ++ [r], fun r' hr => by
    rcases List.mem_append.mp hr with hr | hr
    · exact p.within r' hr
    · rw [List.mem_singleton.mp hr]
      exact h⟩

/-- Writes a reading of a class: the database refuses one that no partition holds. -/
def writeReading (db : PartitionDb) (days : ℕ) (r : HistoryReading) : Option PartitionDb :=
  if db.ranges.any (fun p => decide (p.name.days = days ∧ p.name.start ≤ r.start ∧
      r.start < p.name.end)) then
    some { db with
      ranges := db.ranges.map fun p =>
        if h : p.name.days = days ∧ p.name.start ≤ r.start ∧ r.start < p.name.end then
          p.add r h.2
        else p }
  else none

/-- A step of maintenance, or a write. -/
inductive PartitionStep where
  | ensure (classes : List ℕ) (now : ℤ) (aheadDays : ℕ)
  | drop (now : ℤ) (registry : PropertyRegistry) (frontiers : String → Option ℤ)
    (propertyOf : ℕ → Option String)
  | write (days : ℕ) (r : HistoryReading)

/-- The tables after a step. -/
def partitionStep (db : PartitionDb) : PartitionStep → Option PartitionDb
  | .ensure classes now aheadDays => ensureObservationPartitions db classes now aheadDays
  | .drop now registry frontiers propertyOf =>
    some (dropExpiredObservationPartitions db now registry frontiers propertyOf)
  | .write days r => writeReading db days r

/-! ## What is wanted, by its grid -/

section Wanted

variable {days aheadDays : ℕ} {now start a b : ℤ} {name : PartitionName}

/-- The grid of a retention class. -/
def gridOf (days : ℕ) : Grid := if days = 0 then monthGrid else dayGrid

/-- Where the partitions of a class start. -/
def firstOf (days : ℕ) (now : ℤ) : ℤ :=
  if days = 0 then monthGrid.floor (monthGrid.floor now - 1) else dayGrid.floor now - days * dayMs

/-- The name of a partition of a class. -/
def nameAt (days : ℕ) (a : ℤ) : PartitionName :=
  ⟨days, if days = 0 then .month (dateOf a).year (dateOf a).month else .day (dateOf a)⟩

/-- The partitions of a class are the cells of its grid. -/
theorem wanted_eq (days : ℕ) (now : ℤ) (aheadDays : ℕ) : wanted days now aheadDays =
    ((gridOf days).windows (now + aheadDays * dayMs)
      (loopFuel (firstOf days now) (now + aheadDays * dayMs)) (firstOf days now)).map fun w =>
        (nameAt days w.1, w.1, w.2) := by
  unfold wanted gridOf firstOf nameAt
  dsimp only
  split_ifs with hdays
  · rw [hdays]
  · rfl

/-- The partitions of a class start with a cell. -/
theorem floor_firstOf (days : ℕ) (now : ℤ) :
    (gridOf days).floor (firstOf days now) = firstOf days now := by
  unfold gridOf firstOf
  split_ifs with hdays
  · exact monthGrid.floor_floor _
  · show (now / dayMs * dayMs - days * dayMs) / dayMs * dayMs = now / dayMs * dayMs - days * dayMs
    rw [← Int.sub_mul, Int.mul_ediv_cancel _ (by decide)]

/-- The partitions of a class start before the instant. -/
theorem firstOf_le (days : ℕ) (now : ℤ) : firstOf days now ≤ now := by
  unfold firstOf
  split_ifs with hdays
  · have hmonth := monthGrid.floor_le now
    have hbefore := monthGrid.floor_le (monthGrid.floor now - 1)
    omega
  · have hday := dayGrid.floor_le now
    unfold dayMs
    omega

/-- They start later for later instants. -/
theorem firstOf_mono (days : ℕ) {m w : ℤ} (h : m ≤ w) : firstOf days m ≤ firstOf days w := by
  unfold firstOf
  split_ifs with hdays
  · have hmonth := monthGrid.floor_mono h
    exact monthGrid.floor_mono (by omega)
  · have hday := dayGrid.floor_mono h
    omega

/-- The fuel of a loop is enough. -/
theorem lt_loopFuel (first limit : ℤ) : limit < first + loopFuel first limit := by
  unfold loopFuel
  push_cast
  omega

/-- The instant lies before the limit. -/
theorem firstOf_le_limit (days : ℕ) (now : ℤ) (aheadDays : ℕ) :
    firstOf days now ≤ now + aheadDays * dayMs := by
  have hfirst := firstOf_le days now
  unfold dayMs
  omega

/-- **The range that a partition is created with is that of its name.** -/
theorem range_of_mem_wanted (h : (name, a, b) ∈ wanted days now aheadDays) :
    name.days = days ∧ name.isDay = decide (days ≠ 0) ∧ name.start = a ∧ name.end = b := by
  rw [wanted_eq] at h
  obtain ⟨⟨x, y⟩, hw, heq⟩ := List.mem_map.mp h
  simp only [Prod.mk.injEq] at heq
  obtain ⟨rfl, rfl, rfl⟩ := heq
  obtain ⟨-, -, hfloor, hnext⟩ := (Grid.mem_windows (floor_firstOf days now)
    (lt_loopFuel _ _)).mp hw
  rw [hnext]
  unfold gridOf at hfloor ⊢
  unfold nameAt PartitionName.isDay PartitionName.start PartitionName.end
  split_ifs at hfloor ⊢ with hdays
  · exact ⟨rfl, by rw [hdays]; rfl, hfloor, rfl⟩
  · have hstart : (dateOf x).days * dayMs = x := by
      rw [dateOf, Civil.days_civil]
      exact hfloor
    refine ⟨rfl, by simp [hdays], hstart, ?_⟩
    dsimp only
    rw [hstart]
    rfl

/-- What a writer counts on lies between the first cell and the end of the limit's. -/
theorem partitionCovers_iff : partitionCovers days start now aheadDays = true ↔
    firstOf days now ≤ start ∧
      start < (gridOf days).next ((gridOf days).floor (now + aheadDays * dayMs)) := by
  have hlimit := firstOf_le_limit days now aheadDays
  have hfuel : loopFuel (firstOf days now) (now + aheadDays * dayMs) =
    (now + aheadDays * dayMs - firstOf days now).toNat + 1 := rfl
  unfold partitionCovers
  dsimp only
  rw [wanted_eq, List.head?_map, List.getLast?_map,
    Grid.getLast?_windows (floor_firstOf days now) hlimit (lt_loopFuel _ _), hfuel,
    Grid.head?_windows hlimit]
  exact decide_eq_true_iff

/-- **What a writer counts on is wanted by the maintenance of the day before.** -/
theorem exists_wanted {m w : ℤ} (hmw : m ≤ w) (hday : w ≤ m + dayMs)
    (hcover : partitionCoverage w days start = true) :
    ∃ name a b, (name, a, b) ∈ wanted days m (partitionAheadDays + maintenanceMarginDays) ∧
      a ≤ start ∧ start < b := by
  obtain ⟨hfirst, hlast⟩ := Iff.mp partitionCovers_iff hcover
  have hlimit : w + partitionAheadDays * dayMs ≤
      m + (partitionAheadDays + maintenanceMarginDays : ℕ) * dayMs := by
    unfold partitionAheadDays maintenanceMarginDays dayMs at *
    push_cast
    omega
  obtain ⟨a, b, hmem, ha, hb⟩ := Grid.exists_window (floor_firstOf days m) (lt_loopFuel _ _)
    ((firstOf_mono days hmw).trans hfirst)
    (hlast.trans_le ((gridOf days).next_mono hlimit))
  refine ⟨nameAt days a, a, b, ?_, ha, hb⟩
  rw [wanted_eq]
  exact List.mem_map.mpr ⟨(a, b), hmem, rfl⟩

end Wanted

/-! ## Steps keep partitions -/

section Steps

variable {db db' : PartitionDb} {name : PartitionName} {days : ℕ}

/-- A partition that was created is there, with those before it. -/
theorem createRange_names {start stop : ℤ} (h : createRange db name start stop = some db') :
    db'.names = db.names ++ [name] ∧ db'.lists = db.lists := by
  unfold createRange at h
  split_ifs at h
  obtain rfl := Option.some.inj h
  exact ⟨List.map_append, rfl⟩

/-- What is wanted is there, with what was there before. -/
theorem createWanted_names {existing : List PartitionName} {windows : List (PartitionName × ℤ × ℤ)}
    (hexisting : ∀ n ∈ existing, n ∈ db.names) (h : createWanted existing db windows = some db') :
    (∀ n ∈ db.names, n ∈ db'.names) ∧ (∀ w ∈ windows, w.1 ∈ db'.names) ∧ db'.lists = db.lists := by
  unfold createWanted at h
  induction windows generalizing db with
  | nil =>
    obtain rfl : db = db' := Option.some.inj h
    exact ⟨fun _ hn => hn, fun w hw => (by cases hw), rfl⟩
  | cons w windows ih =>
    rw [List.foldlM_cons, Option.bind_eq_bind, Option.bind_eq_some_iff] at h
    obtain ⟨mid, hmid, h⟩ := h
    have hstep : (∀ n ∈ db.names, n ∈ mid.names) ∧ w.1 ∈ mid.names ∧ mid.lists = db.lists := by
      split_ifs at hmid with hhere
      · obtain rfl := Option.some.inj hmid
        exact ⟨fun _ hn => hn, hexisting _ hhere, rfl⟩
      · obtain ⟨hnames, hlists⟩ := createRange_names hmid
        refine ⟨fun n hn => ?_, ?_, hlists⟩
        · rw [hnames]
          exact List.mem_append_left _ hn
        · rw [hnames]
          exact List.mem_append_right _ List.mem_cons_self
    obtain ⟨hkeep, hnew, hlists⟩ := ih (fun n hn => hstep.1 n (hexisting n hn)) h
    refine ⟨fun n hn => hkeep n (hstep.1 n hn), fun x hx => ?_, hlists.trans hstep.2.2⟩
    rcases List.mem_cons.mp hx with rfl | hx
    · exact hkeep _ hstep.2.1
    · exact hnew x hx

/-- A list partition is there, with those before it. -/
theorem createList_lists {existing : List ℕ} (hexisting : ∀ n ∈ existing, n ∈ db.lists)
    (h : createList existing db days = some db') :
    (∀ n ∈ db.lists, n ∈ db'.lists) ∧ days ∈ db'.lists ∧ db'.names = db.names := by
  unfold createList at h
  split_ifs at h with hhere hthere
  · obtain rfl := Option.some.inj h
    exact ⟨fun _ hn => hn, hexisting _ hhere, rfl⟩
  · obtain rfl := Option.some.inj h
    exact ⟨fun n hn => List.mem_append_left _ hn, List.mem_append_right _ List.mem_cons_self, rfl⟩

/-- **Maintenance creates what its classes want**, and keeps what was there. -/
theorem ensure_spec {classes : List ℕ} {now : ℤ} {aheadDays : ℕ}
    (h : ensureObservationPartitions db classes now aheadDays = some db') :
    (∀ n ∈ db.names, n ∈ db'.names) ∧ (∀ n ∈ db.lists, n ∈ db'.lists) ∧
      ∀ days ∈ classes, days ∈ db'.lists ∧
        ∀ w ∈ wanted days now (aheadDays + maintenanceMarginDays), w.1 ∈ db'.names := by
  unfold ensureObservationPartitions at h
  have hrun : ∀ (classes : List ℕ) (current : PartitionDb), (∀ n ∈ db.names, n ∈ current.names) →
      (∀ n ∈ db.lists, n ∈ current.lists) →
      (classes.foldlM (fun current days => (createList db.lists current days).bind fun current =>
        createWanted db.names current (wanted days now (aheadDays + maintenanceMarginDays)))
          current) = some db' →
      (∀ n ∈ current.names, n ∈ db'.names) ∧ (∀ n ∈ current.lists, n ∈ db'.lists) ∧
        ∀ days ∈ classes, days ∈ db'.lists ∧
          ∀ w ∈ wanted days now (aheadDays + maintenanceMarginDays), w.1 ∈ db'.names := by
    intro classes
    induction classes with
    | nil =>
      intro current _ _ h
      obtain rfl : current = db' := Option.some.inj h
      exact ⟨fun _ hn => hn, fun _ hn => hn, fun days hdays => (by cases hdays)⟩
    | cons days classes ih =>
      intro current hnames hlists h
      rw [List.foldlM_cons, Option.bind_eq_bind, Option.bind_eq_some_iff] at h
      obtain ⟨next, hnext, h⟩ := h
      obtain ⟨listed, hlisted, hcreated⟩ := Option.bind_eq_some_iff.mp hnext
      obtain ⟨hkeep, hhere, hsame⟩ := createList_lists hlists hlisted
      obtain ⟨hkept, hwanted, hsameLists⟩ :=
        createWanted_names (fun n hn => hsame ▸ hnames n hn) hcreated
      rw [hsame] at hkept
      obtain ⟨hlast, hlastLists, hall⟩ := ih next (fun n hn => hkept n (hnames n hn))
        (fun n hn => hsameLists ▸ hkeep n (hlists n hn)) h
      refine ⟨fun n hn => hlast n (hkept n hn),
        fun n hn => hlastLists n (hsameLists ▸ hkeep n hn), fun x hx => ?_⟩
      rcases List.mem_cons.mp hx with rfl | hx
      · exact ⟨hlastLists _ (hsameLists ▸ hhere), fun w hw => hlast _ (hwanted w hw)⟩
      · exact hall x hx
  exact hrun classes db (fun _ hn => hn) (fun _ hn => hn) h

/-- A write changes no name. -/
theorem writeReading_names {r : HistoryReading} (h : writeReading db days r = some db') :
    db'.names = db.names ∧ db'.lists = db.lists := by
  unfold writeReading at h
  split_ifs at h
  obtain rfl := Option.some.inj h
  refine ⟨?_, rfl⟩
  unfold PartitionDb.names
  rw [List.map_map]
  refine List.map_congr_left fun p _ => ?_
  rw [Function.comp_apply]
  split_ifs <;> rfl

/-- A partition stays while it is not dropped, and with it its class's list partition. -/
theorem mem_dropExpired {now : ℤ} {registry : PropertyRegistry} {frontiers : String → Option ℤ}
    {propertyOf : ℕ → Option String} {p : RangePartition} :
    p ∈ (dropExpiredObservationPartitions db now registry frontiers propertyOf).ranges ↔
      p ∈ db.ranges ∧ isDropped now registry frontiers propertyOf p = false := by
  unfold dropExpiredObservationPartitions
  rw [List.mem_filter, Bool.not_eq_true']

/-- A day that a writer at a clock may count on is not expired an hour later. -/
theorem isExpired_eq_false {d w start : ℤ} (hd : d ≤ w + dropSlackMs)
    (hfirst : firstOf name.days w ≤ start) (hend : start < name.end) :
    isExpired d name = false := by
  unfold isExpired PartitionName.isDay
  unfold PartitionName.end at hend
  unfold firstOf at hfirst
  split
  · rename_i date hperiod
    rw [hperiod] at hend
    rw [Bool.true_and]
    by_cases hdays : name.days = 0
    · simp [hdays]
    · rw [if_neg hdays] at hfirst
      have hfloor : w / 86400000 * 86400000 - name.days * 86400000 ≤ start := hfirst
      have hname : name.end = date.days * 86400000 + 86400000 := by
        unfold PartitionName.end
        rw [hperiod]
        rfl
      rw [Bool.and_eq_false_iff]
      refine Or.inr (decide_eq_false ?_)
      rw [hname]
      unfold dropSlackMs at hd ⊢
      unfold dayMs at hend ⊢
      dsimp only at hend
      omega
  · rfl

/-- The steps that a writer's window allows for: no drop is made more than an hour after the
writer's clock, or with a registry in which no property uses the class. -/
def AllowedStep (w : ℤ) (days : ℕ) : PartitionStep → Prop
  | .drop now registry _ _ => now ≤ w + dropSlackMs ∧ days ∈ retentionClasses registry
  | _ => True

/-- The partition of a name is there, and the list partition of its class. -/
def Holds (name : PartitionName) (db : PartitionDb) : Prop :=
  name.days ∈ db.lists ∧ name ∈ db.names

/-- **A step that a writer's window allows for keeps the partition.** -/
theorem Holds.step {w start : ℤ} {step : PartitionStep} (h : Holds name db)
    (hfirst : firstOf name.days w ≤ start) (hend : start < name.end)
    (hallowed : AllowedStep w name.days step) (hstep : partitionStep db step = some db') :
    Holds name db' := by
  cases step with
  | ensure classes now aheadDays =>
    obtain ⟨hnames, hlists, -⟩ := ensure_spec hstep
    exact ⟨hlists _ h.1, hnames _ h.2⟩
  | write days r =>
    obtain ⟨hnames, hlists⟩ := writeReading_names hstep
    exact ⟨hlists ▸ h.1, hnames ▸ h.2⟩
  | drop now registry frontiers propertyOf =>
    obtain ⟨hnow, hclass⟩ := hallowed
    obtain rfl := Option.some.inj hstep
    obtain ⟨p, hp, rfl⟩ := List.mem_map.mp h.2
    have hstays : p ∈
        (dropExpiredObservationPartitions db now registry frontiers propertyOf).ranges := by
      refine Iff.mpr mem_dropExpired ⟨hp, ?_⟩
      unfold isDropped
      rw [if_neg (not_not.mpr hclass), if_pos (isExpired_eq_false hnow hfirst hend)]
    refine ⟨List.mem_filter.mpr ⟨h.1, ?_⟩, List.mem_map_of_mem hstays⟩
    rw [decide_eq_true hclass, Bool.true_or]

end Steps

/-! ## The partition a writer counts on -/

/-- **The partition a writer counts on is there when it writes**: after maintenance, at a clock at
most a day later, and whatever is ensured, dropped and written until an hour after that clock. -/
theorem partition_of_coverage {db db' : PartitionDb} {classes : List ℕ} {m w start : ℤ}
    {registry : PropertyRegistry} {frontiers : String → Option ℤ}
    {propertyOf : ℕ → Option String} {later : List PartitionStep} {days : ℕ}
    (hclass : days ∈ classes) (hdeclared : days ∈ retentionClasses registry) (hmw : m ≤ w)
    (hday : w ≤ m + dayMs) (hlater : ∀ step ∈ later, AllowedStep w days step)
    (hrun : Transition.run partitionStep db
      (.ensure classes m partitionAheadDays :: .drop m registry frontiers propertyOf :: later) =
        some db')
    (hcover : partitionCoverage w days start = true) :
    days ∈ db'.lists ∧ ∃ p ∈ db'.ranges, p.name.days = days ∧ p.name.isDay = decide (days ≠ 0) ∧
      p.name.start ≤ start ∧ start < p.name.end := by
  obtain ⟨name, a, b, hwanted, ha, hb⟩ := exists_wanted hmw hday hcover
  obtain ⟨rfl, hkind, rfl, rfl⟩ := range_of_mem_wanted hwanted
  obtain ⟨hfirst, -⟩ := Iff.mp partitionCovers_iff hcover
  obtain ⟨db₁, hensure, hrest⟩ := Transition.run_cons_eq_some.mp hrun
  obtain ⟨-, -, hcreated⟩ := ensure_spec hensure
  have hstart : Holds name db₁ :=
    ⟨(hcreated _ hclass).1, (hcreated _ hclass).2 _ hwanted⟩
  have hallowed : ∀ step ∈ PartitionStep.drop m registry frontiers propertyOf :: later,
      AllowedStep w name.days step := by
    intro step hstep
    rcases List.mem_cons.mp hstep with rfl | hstep
    · exact ⟨hmw.trans (by unfold dropSlackMs; omega), hdeclared⟩
    · exact hlater step hstep
  have hkeeps : Holds name db' :=
    Transition.run_invariant_of_along
      (fun s step s' hs hok hnext => hs.step hfirst hb hok hnext)
      hstart (Transition.along_of_forall (fun step hstep s => hallowed step hstep) db₁) hrest
  obtain ⟨p, hp, rfl⟩ := List.mem_map.mp hkeeps.2
  exact ⟨hkeeps.1, p, hp, rfl, hkind, ha, hb⟩

/-- A property whose readings are kept for some days. -/
def sampleEntry (rawDays : ℕ) (rollupPeriod : Option String) : PropertyEntry :=
  ⟨false, false, some rawDays, false, rollupPeriod⟩

/-- The third of October 2026, at noon. -/
def sampleNow : ℤ := 1790985600000 + 43200000

/-- A day's maintenance of a class of one day, and the drop of the next run. -/
def sampleSteps : List PartitionStep :=
  let registry : PropertyRegistry := [("road.speed", sampleEntry 1 none)]
  [.ensure [1] sampleNow partitionAheadDays, .drop sampleNow registry (fun _ => none) fun _ => none,
    .drop (sampleNow + dayMs) registry (fun _ => none) fun _ => none]

/-- Late readings of the day before are still held a day after maintenance. -/
theorem partition_of_coverage_sample :
    ∃ db', Transition.run partitionStep ⟨[], []⟩ sampleSteps = some db' ∧
      1 ∈ db'.lists ∧ ∃ p ∈ db'.ranges, p.name.days = 1 ∧ p.name.isDay = decide (1 ≠ 0) ∧
        p.name.start ≤ sampleNow - 40000000 ∧ sampleNow - 40000000 < p.name.end := by
  obtain ⟨db', hrun⟩ := Option.isSome_iff_exists.mp
    (show (Transition.run partitionStep ⟨[], []⟩ sampleSteps).isSome = true by decide +kernel)
  refine ⟨db', hrun, partition_of_coverage (w := sampleNow + dayMs) (by decide) (by decide)
    (by decide) le_rfl ?_ hrun (by decide +kernel)⟩
  intro step hstep
  rw [List.mem_singleton.mp hstep]
  exact ⟨by decide, by decide⟩

/-! ## Readings that await their rollup -/

section Rollup

variable (registry : PropertyRegistry) (frontiers : String → Option ℤ)
  (propertyOf : ℕ → Option String)

/-- A reading is of a property that rolls up, and its period is not finalized past its start. -/
def Unrolled (r : HistoryReading) : Prop :=
  ∃ entry ∈ registry, ∃ period, rollupPeriodOf entry.2 = some period ∧
    propertyOf r.seriesId = some entry.1 ∧ finalizedBefore frontiers period ≤ r.start

/-- **No reading is dropped before its rollup.** -/
def KeepsUnrolled (db : PartitionDb) (now : ℤ) : Prop :=
  ∀ p ∈ db.ranges,
    p ∉ (dropExpiredObservationPartitions db now registry frontiers propertyOf).ranges →
      ∀ r ∈ p.readings, ¬Unrolled registry frontiers propertyOf r

/-- A partition awaits its rollup when one of its readings does. -/
theorem awaitsRollup_iff {p : RangePartition} :
    awaitsRollup registry frontiers propertyOf p = true ↔
      ∃ r ∈ p.readings, Unrolled registry frontiers propertyOf r := by
  unfold awaitsRollup Unrolled
  simp only [List.any_eq_true, List.mem_filterMap, Option.map_eq_some_iff, Bool.and_eq_true,
    decide_eq_true_eq]
  constructor
  · rintro ⟨rolled, ⟨entry, hentry, period, hperiod, rfl⟩, -, r, hr, hstart, hproperty⟩
    exact ⟨r, hr, entry, hentry, period, hperiod, hproperty, hstart⟩
  · rintro ⟨r, hr, entry, hentry, period, hperiod, hproperty, hstart⟩
    -- A reading starts before its partition ends, so the period is not finalized past that.
    exact ⟨_, ⟨entry, hentry, period, hperiod, rfl⟩, hstart.trans_lt (p.within r hr).2, r, hr,
      hstart, hproperty⟩

/-- **No reading is dropped before its rollup exactly when no day that is past its class's
retention, and whose class's own rollups do not hold it, has readings that await the rollup of
another class's property.** -/
theorem keepsUnrolled_iff (db : PartitionDb) (now : ℤ) :
    KeepsUnrolled registry frontiers propertyOf db now ↔
      ∀ p ∈ db.ranges, p.name.days ∈ retentionClasses registry → isExpired now p.name = true →
        (isPending registry frontiers p.name && !p.readings.isEmpty) = false →
          awaitsRollup registry frontiers propertyOf p = false := by
  unfold KeepsUnrolled
  refine forall₂_congr fun p hp => ?_
  have hawaits : (∀ r ∈ p.readings, ¬Unrolled registry frontiers propertyOf r) ↔
      awaitsRollup registry frontiers propertyOf p = false := by
    rw [← Bool.not_eq_true, awaitsRollup_iff]
    exact ⟨fun h ⟨r, hr, hu⟩ => h r hr hu, fun h r hr hu => h ⟨r, hr, hu⟩⟩
  have hdropped : p ∉ (dropExpiredObservationPartitions db now registry frontiers propertyOf).ranges
      ↔ isDropped now registry frontiers propertyOf p = true := by
    rw [mem_dropExpired, not_and, Bool.not_eq_false]
    exact ⟨fun h => h hp, fun h _ => h⟩
  rw [hawaits, hdropped]
  unfold isDropped
  by_cases hclass : p.name.days ∈ retentionClasses registry
  · rw [if_neg (not_not.mpr hclass)]
    cases hexpired : isExpired now p.name with
    | false => simp [hclass]
    | true =>
      rw [if_neg (by simp), Bool.not_eq_true']
      exact ⟨fun h _ _ => h, fun h => h hclass rfl⟩
  · rw [if_pos hclass]
    simp [hclass]

/-- The first of September 2026 in a class of seven days, with a reading of a property that was of
that class. -/
def sampleDay : RangePartition :=
  ⟨⟨7, .day ⟨2026, 9, 1⟩⟩, [⟨1, 1788220800000⟩], by
    intro r hr
    rw [List.mem_singleton.mp hr]
    decide⟩

/-- The property keeps a month now, and rolls up by days; another one keeps seven days. -/
def sampleRegistry : PropertyRegistry :=
  [("road.speed", sampleEntry 30 (some "daily")), ("weather.wind", sampleEntry 7 none)]

/-- The reading is dropped while its days are not rolled up. -/
theorem moved_reading_dropped :
    ¬KeepsUnrolled sampleRegistry (fun _ => some 1788134400000)
      (fun _ => some "road.speed") ⟨[7, 30], [sampleDay]⟩ sampleNow := by
  intro h
  have hgone : sampleDay ∉ (dropExpiredObservationPartitions ⟨[7, 30], [sampleDay]⟩ sampleNow
      sampleRegistry (fun _ => some 1788134400000) fun _ => some "road.speed").ranges := by
    rw [mem_dropExpired]
    rintro ⟨-, hkept⟩
    exact absurd hkept (by decide +kernel)
  exact h sampleDay List.mem_cons_self hgone ⟨1, 1788220800000⟩ List.mem_cons_self
    ⟨_, List.mem_cons_self, "daily", rfl, rfl, by decide⟩

end Rollup

end OpenConditions.Storage

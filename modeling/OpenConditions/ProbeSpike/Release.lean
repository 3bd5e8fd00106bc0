import Mathlib.Data.List.Sort
import OpenConditions.Lib.ExtRat
import OpenConditions.Lib.OrderedMap
import OpenConditions.Lib.Utf16

set_option relaxedAutoImplicit false
set_option autoImplicit false

/-!
# The private release

A release sums speeds over a fixed grid of segments and windows.  Before the mechanism sees a
value, speeds are clamped, each unit keeps one tuple for each cell and a bounded number of cells,
and a unit whose budget does not cover the cells it keeps is dropped.  The mechanism is then asked
about every cell of the grid, each unit that was kept is charged, and the result is committed under
the version of the manifest.

The numbers of the accounting are of any type `E` with the operations the ledger uses, and strings
are compared in a locale by a sort key `collate`, under which distinct strings may tie.

## Main definitions

* `buildReleaseManifest`, `listPartitions` — the schedule and its grid.
* `BudgetLedger` — what each unit has spent.
* `shapeContributions` — the values of each cell and what their units are charged.
* `releaseWithDp` — one release, with the questions it put to the mechanism.
-/

namespace OpenConditions.ProbeSpike

/-! ## The manifest -/

/-- A release window; `endMs` is exclusive. -/
structure ReleaseWindow where
  windowId : String
  startMs : ExtRat
  endMs : ExtRat
  deriving DecidableEq

/-- The release schedule. -/
structure ReleaseManifest where
  version : String
  segmentIds : List String
  windows : List ReleaseWindow
  deriving DecidableEq

/-- A cell of the grid. -/
structure Partition where
  segmentId : String
  windowId : String
  deriving DecidableEq

/-- Why a schedule is refused. -/
inductive ManifestError where
  | noWindow
  | emptyOrInverted (window : ReleaseWindow)
  | duplicateId (windowId : String)
  | overlaps (window previous : ReleaseWindow)
  | noSegment
  deriving DecidableEq

/-- The order of numbers by their difference, in which a difference without a value is a tie. -/
def byDifference (a b : ExtRat) : Bool := !ExtRat.lt (.fin 0) (a.sub b)

/-- The order of strings by their code units. -/
def byCodeUnits (a b : String) : Bool := !Utf16.lt b a

/-- The windows in order have distinct ids and none starts before the one before it ends. -/
def checkWindows (seenIds : List String) (previous : Option ReleaseWindow) :
    List ReleaseWindow → Option ManifestError
  | [] => none
  | w :: windows =>
    if w.windowId ∈ seenIds then some (.duplicateId w.windowId)
    else
      match previous with
      | some prev =>
        if ExtRat.lt w.startMs prev.endMs then some (.overlaps w prev)
        else checkWindows (w.windowId :: seenIds) (some w) windows
      | none => checkWindows (w.windowId :: seenIds) (some w) windows

/-- Builds a manifest, refusing windows that are not tumbling. -/
def buildReleaseManifest (config : ReleaseManifest) : Except ManifestError ReleaseManifest :=
  if config.windows = [] then .error .noWindow
  else
    let sorted := config.windows.insertionSort fun a b => byDifference a.startMs b.startMs
    match sorted.find? fun w => !ExtRat.lt w.startMs w.endMs with
    | some w => .error (.emptyOrInverted w)
    | none =>
      match checkWindows [] none sorted with
      | some error => .error error
      | none =>
        let segmentIds := config.segmentIds.insertionSort fun a b => byCodeUnits a b
        if segmentIds = [] then .error .noSegment
        else .ok ⟨config.version, segmentIds, sorted⟩

/-- The grid: every segment with every window. -/
def listPartitions (manifest : ReleaseManifest) : List Partition :=
  manifest.segmentIds.flatMap fun segmentId =>
    manifest.windows.map fun window => ⟨segmentId, window.windowId⟩

/-- The key of a cell. -/
def partitionKey (partition : Partition) : String :=
  partition.segmentId ++ "\u0000" ++ partition.windowId

/-- The window a timestamp falls in. -/
def windowForTimestamp (manifest : ReleaseManifest) (timestampMs : ExtRat) : Option ReleaseWindow :=
  manifest.windows.find? fun w => ExtRat.le w.startMs timestampMs && ExtRat.lt timestampMs w.endMs

/-! ## The budget -/

/-- A spend under sequential composition. -/
structure UnitSpend (E : Type) where
  epsilon : E
  delta : E
  deriving DecidableEq

/-- What the units have spent, and the budget each has. -/
structure BudgetLedger (E : Type) where
  budget : UnitSpend E
  spend : OrderedMap String (UnitSpend E)

section Ledger

variable {E : Type} [Zero E] [Add E] [LE E] [DecidableLE E]

/-- What a unit has spent: nothing when it was never charged. -/
def BudgetLedger.spent (ledger : BudgetLedger E) (privacyUnitId : String) : UnitSpend E :=
  (ledger.spend.get privacyUnitId).getD ⟨0, 0⟩

/-- Whether charging a unit stays within the budget. -/
def BudgetLedger.canAfford (ledger : BudgetLedger E) (privacyUnitId : String)
    (cost : UnitSpend E) : Bool :=
  let s := ledger.spent privacyUnitId
  decide (s.epsilon + cost.epsilon ≤ ledger.budget.epsilon) &&
    decide (s.delta + cost.delta ≤ ledger.budget.delta)

/-- Charges a unit. -/
def BudgetLedger.charge (ledger : BudgetLedger E) (privacyUnitId : String) (cost : UnitSpend E) :
    BudgetLedger E :=
  let s := ledger.spent privacyUnitId
  { ledger with
    spend := ledger.spend.set privacyUnitId ⟨s.epsilon + cost.epsilon, s.delta + cost.delta⟩ }

end Ledger

/-! ## Contributions -/

/-- A raw tuple. -/
structure SpeedTuple where
  privacyUnitId : String
  segmentId : String
  timestampMs : ExtRat
  speed : ExtRat
  deriving DecidableEq

/-- The parameters of a release. -/
structure ReleaseParams (E : Type) where
  speedLower : ExtRat
  speedUpper : ExtRat
  epsilonSum : E
  epsilonSelect : E
  deltaSelect : E
  /-- How many cells one unit may influence. -/
  maxPartitionsPerUnit : ExtRat

/-- A clamped tuple of a cell. -/
structure Assigned where
  key : String
  privacyUnitId : String
  clampedSpeed : ExtRat
  deriving DecidableEq

/-- A speed within the public bounds; the lower bound for one that is no finite number. -/
def clampSpeed (raw lower upper : ExtRat) : ExtRat :=
  if raw.isFinite then ExtRat.min upper (ExtRat.max lower raw) else lower

section Release

variable {E : Type} {K : Type} [LinearOrder K] (collate : String → K)

/-- The tuple in its cell, clamped; none off the grid. -/
def assign (manifest : ReleaseManifest) (params : ReleaseParams E) (tuple : SpeedTuple) :
    Option Assigned :=
  if tuple.segmentId ∈ manifest.segmentIds then
    (windowForTimestamp manifest tuple.timestampMs).map fun window =>
      ⟨partitionKey ⟨tuple.segmentId, window.windowId⟩, tuple.privacyUnitId,
        clampSpeed tuple.speed params.speedLower params.speedUpper⟩
  else none

/-- The order by cell, unit and speed. -/
def Assigned.before (a b : Assigned) : Bool :=
  if collate a.key ≠ collate b.key then decide (collate a.key < collate b.key)
  else if collate a.privacyUnitId ≠ collate b.privacyUnitId then
    decide (collate a.privacyUnitId < collate b.privacyUnitId)
  else byDifference a.clampedSpeed b.clampedSpeed

/-- The first tuple of each unit in each cell. -/
def firstOfUnit (perCellUnitPick : List (String × String)) : List Assigned → List Assigned
  | [] => []
  | item :: items =>
    if perCellUnitPick.contains (item.key, item.privacyUnitId) then
      firstOfUnit perCellUnitPick items
    else item :: firstOfUnit ((item.key, item.privacyUnitId) :: perCellUnitPick) items

/-- Adds a key to a set of keys. -/
def addCell (cells : List String) (key : String) : List String :=
  if key ∈ cells then cells else cells ++ [key]

/-- The cells of each unit, in the order they are first met. -/
def unitCells (deduped : List Assigned) : OrderedMap String (List String) :=
  deduped.foldl (fun unitCells item =>
    unitCells.set item.privacyUnitId
      (addCell ((unitCells.get item.privacyUnitId).getD []) item.key)) .empty

/-- The cells a unit may influence: the first ones in the order of their keys. -/
def allowedCells (params : ReleaseParams E) (cells : List String) : List String :=
  let ordered := cells.insertionSort fun a b => byCodeUnits a b
  ordered.take (params.maxPartitionsPerUnit.sliceEnd ordered.length)

/-- The tuples whose values reach the mechanism, and what their units are charged. -/
structure Contributions (E : Type) where
  surviving : List Assigned
  charges : List (String × UnitSpend E)

variable [Zero E] [Add E] [SMul ℕ E] [LE E] [DecidableLE E]

/-- What one cell costs a unit. -/
def perCellCost (params : ReleaseParams E) : UnitSpend E :=
  ⟨params.epsilonSum + params.epsilonSelect, params.deltaSelect⟩

/-- What some cells cost a unit. -/
def cellsCost (params : ReleaseParams E) (allowed : List String) : UnitSpend E :=
  ⟨allowed.length • (perCellCost params).epsilon, allowed.length • (perCellCost params).delta⟩

/-- One tuple for each unit and cell: the first in order. -/
def dedupedTuples (dataset : List SpeedTuple) (manifest : ReleaseManifest)
    (params : ReleaseParams E) : List Assigned :=
  firstOfUnit []
    ((dataset.filterMap (assign manifest params)).insertionSort fun a b => a.before collate b)

/-- Clamps, bounds and budgets the tuples of a release. -/
def shapeContributions (dataset : List SpeedTuple) (manifest : ReleaseManifest)
    (params : ReleaseParams E) (ledger : BudgetLedger E) : Contributions E :=
  let deduped := dedupedTuples collate dataset manifest params
  let unitAllowedCells :=
    (unitCells deduped).entries.map fun e => (e.1, allowedCells params e.2)
  let unitAdmitted := unitAllowedCells.map fun e =>
    (e.1, ledger.canAfford e.1 (cellsCost params e.2))
  { surviving := deduped.filter fun item =>
      (match OrderedMap.getEntries item.privacyUnitId unitAllowedCells with
        | some allowed => allowed.contains item.key
        | none => false) &&
      decide (OrderedMap.getEntries item.privacyUnitId unitAdmitted ≠ some false)
    charges := unitAllowedCells.filterMap fun e =>
      if ledger.canAfford e.1 (cellsCost params e.2) then some (e.1, cellsCost params e.2)
      else none }

/-- The tuples of a cell. -/
def Contributions.bucket (contributions : Contributions E) (key : String) : List Assigned :=
  contributions.surviving.filter fun item => decide (item.key = key)

/-! ## The mechanism -/

/-- The answer to a selection. -/
structure Selection (E : Type) where
  released : Bool
  epsilonSpent : E
  deltaSpent : E

/-- The answer to a sum. -/
structure NoisySum (E : Type) where
  value : ExtRat
  epsilonSpent : E

/-- What a mechanism answers to the selection and to the sum of each cell of one release, counted
from the first; none where it throws.  The answers of a mechanism may depend on anything. -/
structure DpMechanism (E : Type) where
  selectPartition : ℕ → Option (Selection E)
  boundedSum : ℕ → Option (NoisySum E)

/-- A question put to the mechanism. -/
inductive MechanismCall (E : Type) where
  | selectPartition (rawCount : ℕ) (epsilon delta : E)
  | boundedSum (values : List ExtRat) (lower upper : ExtRat) (epsilon : E)

/-- A question put to the mechanism, with the tuples of the cell it is about. -/
structure Query (E : Type) where
  cellTuples : List Assigned
  call : MechanismCall E

/-! ## A release -/

/-- A released cell. -/
structure ReleasedRow where
  segmentId : String
  windowId : String
  noisySum : ExtRat

/-- An entry of the control-flow trace. -/
inductive TraceEntry where
  | beginVersion (version : String)
  | clampBounds (lower upper : ExtRat)
  | partition (key : String)
  | querySelect
  | querySum
  | commit

/-- The result of a release. -/
structure ReleaseResult (E : Type) where
  version : String
  rows : List ReleasedRow
  suppressed : List Partition
  epsilonSpent : E
  deltaSpent : E
  retried : Bool
  controlTrace : List TraceEntry

/-- The cells so far of a release. -/
structure Progress (E : Type) where
  rows : List ReleasedRow
  suppressed : List Partition
  epsilonSpent : E
  deltaSpent : E
  trace : List TraceEntry

/-- The progress before the first cell. -/
def Progress.start (manifest : ReleaseManifest) (params : ReleaseParams E) : Progress E :=
  { rows := []
    suppressed := []
    epsilonSpent := 0
    deltaSpent := 0
    trace := [.beginVersion manifest.version, .clampBounds params.speedLower params.speedUpper] }

/-- The progress after a cell was answered. -/
def Progress.add (progress : Progress E) (partition : Partition) (selection : Selection E)
    (sum : NoisySum E) : Progress E :=
  { rows := progress.rows ++
      if selection.released then [⟨partition.segmentId, partition.windowId, sum.value⟩] else []
    suppressed := progress.suppressed ++ if selection.released then [] else [partition]
    epsilonSpent := progress.epsilonSpent + selection.epsilonSpent + sum.epsilonSpent
    deltaSpent := progress.deltaSpent + selection.deltaSpent
    trace := progress.trace ++ [.partition (partitionKey partition), .querySelect, .querySum] }

/-- Asks the mechanism about each cell in turn: the questions put, and the progress after the last
cell unless it threw. -/
def queryPartitions (mechanism : DpMechanism E) (params : ReleaseParams E)
    (contributions : Contributions E) :
    ℕ → List Partition → Progress E → List (Query E) × Option (Progress E)
  | _, [], progress => ([], some progress)
  | n, partition :: partitions, progress =>
    let cellTuples := contributions.bucket (partitionKey partition)
    let values := cellTuples.map Assigned.clampedSpeed
    let select : Query E :=
      ⟨cellTuples, .selectPartition values.length params.epsilonSelect params.deltaSelect⟩
    let sum : Query E :=
      ⟨cellTuples, .boundedSum values params.speedLower params.speedUpper params.epsilonSum⟩
    match mechanism.selectPartition n with
    | none => ([select], none)
    | some selection =>
      match mechanism.boundedSum n with
      | none => ([select, sum], none)
      | some noisy =>
        let rest := queryPartitions mechanism params contributions (n + 1) partitions
          (progress.add partition selection noisy)
        (select :: sum :: rest.1, rest.2)

/-- The committed results, by version. -/
abbrev ReleaseStore (E : Type) := OrderedMap String (ReleaseResult E)

/-- What a release leaves: the questions it put to the mechanism, its result unless the mechanism
threw, the ledger and the store. -/
structure Released (E : Type) where
  queries : List (Query E)
  result : Option (ReleaseResult E)
  ledger : BudgetLedger E
  store : ReleaseStore E

/-- Runs one release over the fixed manifest. -/
def releaseWithDp (dataset : List SpeedTuple) (manifest : ReleaseManifest)
    (params : ReleaseParams E) (mechanism : DpMechanism E) (ledger : BudgetLedger E)
    (store : ReleaseStore E) : Released E :=
  match store.get manifest.version with
  | some committed => ⟨[], some { committed with retried := true }, ledger, store⟩
  | none =>
    let contributions := shapeContributions collate dataset manifest params ledger
    let outcome := queryPartitions mechanism params contributions 0 (listPartitions manifest)
      (.start manifest params)
    match outcome.2 with
    | none => ⟨outcome.1, none, ledger, store⟩
    | some progress =>
      let result : ReleaseResult E :=
        { version := manifest.version
          rows := progress.rows
          suppressed := progress.suppressed
          epsilonSpent := progress.epsilonSpent
          deltaSpent := progress.deltaSpent
          retried := false
          controlTrace := progress.trace ++ [.commit] }
      ⟨outcome.1, some result,
        contributions.charges.foldl (fun ledger charge => ledger.charge charge.1 charge.2) ledger,
        store.set manifest.version result⟩

end Release

end OpenConditions.ProbeSpike

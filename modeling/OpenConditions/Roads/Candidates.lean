import OpenConditions.Lib.ExtRat
import OpenConditions.Lib.Sorting
import OpenConditions.Roads.SegmentGraph

set_option relaxedAutoImplicit false
set_option autoImplicit false

/-!
# Candidates of a binding

The spine segments that may be the road of an event's point, best first (`candidatesFor` of
`packages/roads/src/bind/bind-event.ts`, with `types.ts`, `score.ts` and `segment-grid.ts`), and the
confidence and the status of a binding.

Distances, bearings and the identity of roads are given functions.  Numbers are exact; a score by a
search radius of zero has no value.

## Main definitions

* `BindInput`, `SegmentSpan`, `BindResult` — what is bound, and what a binding is.
* `RoadMeasures` — the functions of the geometry and of the roads' names.
* `SegmentGrid.near`, `scoreCandidate`, `candidatesFor` — the candidates of a point.
* `confidenceOf`, `statusOf`, `failure` — the outcome of a binding.
-/

namespace OpenConditions.Roads

open ExtRat (fin)

/-! ## What is bound -/

/-- A shape of coordinates; those that are areas or of several kinds are not told apart. -/
inductive Geometry where
  | point (coordinates : LngLat)
  | lineString (coordinates : List LngLat)
  | multiLineString (coordinates : List (List LngLat))
  | multiPoint (coordinates : List LngLat)
  | other

/-- What a stated direction says about the geometry it is bound with. -/
inductive TravelDirection where
  | along
  | against
  | one
  | unplaced
  | heading (bearingDeg : ℚ)
  deriving DecidableEq

/-- The slip road that leaves a carriageway, or the one that joins it. -/
inductive SlipRoad where
  | exit
  | entry
  deriving DecidableEq

/-- What is bound to the spine. -/
structure BindInput where
  geometry : Geometry
  type : String
  refs : List String
  names : Option (List String)
  prose : Option String
  travel : Option TravelDirection
  slipRoadOnly : Bool
  slipRoad : Option SlipRoad

/-- The search radius and the spacing of samples, where they are given. -/
structure BindOptions where
  maxOffsetM : Option ℚ
  sampleSpacingM : Option ℚ

/-- How far a binding was decided. -/
inductive BindingStatus where
  | exact
  | likely
  | ambiguous
  | unresolved
  | notApplicable
  deriving DecidableEq, Repr

/-- Whether the direction of travel could be decided. -/
inductive DirectionMode where
  | single
  | both
  | unknown
  deriving DecidableEq, Repr

/-- A stretch of a segment, by its fractions. -/
structure SegmentSpan where
  segmentId : String
  wayId : ℕ
  dir : SegmentDir
  startFraction : ℚ
  endFraction : ℚ
  deriving DecidableEq

/-- A segment that may be the road of a point. -/
structure Candidate where
  segment : SpineSegment ℚ
  offsetM : ℚ
  fraction : ℚ
  bearingDelta : Option ℚ
  identity : ℚ
  score : ExtRat

/-- A point of an event, with its candidates. -/
structure Sample where
  point : LngLat
  candidates : List Candidate

/-- How a binding came about. -/
structure BindDebug where
  samples : List Sample
  pathScore : Option ExtRat
  coverage : Option ℚ
  meanOffsetM : Option ℚ
  ambiguity : Option ExtRat

/-- The binding of an event. -/
structure BindResult where
  status : BindingStatus
  confidence : Option ExtRat
  directionMode : DirectionMode
  candidateCount : ℕ
  alternativeConfidence : Option ExtRat
  reason : Option String
  segments : List SegmentSpan
  debug : BindDebug

/-- Where a point lies on a line: how far off, at which fraction of it, and its bearing there. -/
structure Projection where
  offsetM : ℚ
  fraction : ℚ
  bearing : ℚ

/-- The functions of the geometry and of the roads' names. -/
structure RoadMeasures where
  haversineMeters : LngLat → LngLat → ℚ
  bearingDeg : LngLat → LngLat → ℚ
  bearingDelta : ℚ → ℚ → ℚ
  projectOntoPolyline : LngLat → List LngLat → Projection
  /-- The cosine of an angle in degrees. -/
  cosDeg : ℚ → ℚ
  /-- How well a segment is the road that a location names; zero where it contradicts it. -/
  identityScore : BindInput → SpineSegment ℚ → ℚ

/-- The search radius around a sample, where none is given. -/
def defaultMaxOffsetM : ℚ := 40

/-- The spacing of samples, where none is given. -/
def defaultSampleSpacingM : ℚ := 25

/-- The most segments of a subgraph. -/
def maxSubgraphSegments : ℕ := 5000

/-- Lines shorter than this have no usable bearing. -/
def minBearingLengthM : ℚ := 20

/-! ## The grid -/

/-- The edge of a grid's cell, in degrees. -/
def cellDeg : ℚ := 1 / 100

/-- The fewest metres of a degree of latitude. -/
def minMetresPerDegree : ℚ := 110000

/-- The number of a cell. -/
def cellKey (ix iy : ℤ) : ℤ := (ix + 20000) * 40000 + (iy + 20000)

/-- The integers from one to another. -/
def steps (first last : ℤ) : List ℤ :=
  (List.range (last + 1 - first).toNat).map fun n => first + (n : ℤ)

section Grid

variable (M : RoadMeasures)

/-- The cells that a segment's box touches, widened by the reach. -/
def cellsOf (coords : List LngLat) (reachM : ℚ) : List ℤ :=
  match coords with
  | [] => []
  | first :: rest =>
    let w := rest.foldl (fun m p => min m p.1) first.1
    let south := rest.foldl (fun m p => min m p.2) first.2
    let e := rest.foldl (fun m p => max m p.1) first.1
    let north := rest.foldl (fun m p => max m p.2) first.2
    let dLat := reachM / minMetresPerDegree
    let maxLat := min (899 / 10) (max |south| |north| + dLat)
    let dLng := reachM / (9 / 10 * minMetresPerDegree * M.cosDeg maxLat)
    (steps ⌊(w - dLng) / cellDeg⌋ ⌊(e + dLng) / cellDeg⌋).flatMap fun ix =>
      (steps ⌊(south - dLat) / cellDeg⌋ ⌊(north + dLat) / cellDeg⌋).map fun iy => cellKey ix iy

/-- The segments filed under a point's cell, in the order of the subgraph. -/
def SegmentGrid.near (segments : List (SpineSegment ℚ)) (reachM : ℚ) (p : LngLat) :
    List (SpineSegment ℚ) :=
  segments.flatMap fun s =>
    ((cellsOf M s.coords reachM).filter fun key =>
      decide (key = cellKey ⌊p.1 / cellDeg⌋ ⌊p.2 / cellDeg⌋)).map fun _ => s

/-! ## Candidates -/

/-- The preference for a class of roads. -/
def highwayPrior (highway : String) : ℚ :=
  match highway with
  | "motorway" => 1
  | "trunk" => 95 / 100
  | "primary" => 9 / 10
  | "motorway_link" => 85 / 100
  | "trunk_link" => 82 / 100
  | "primary_link" => 8 / 10
  | _ => 8 / 10

/-- The score of a candidate. -/
def scoreCandidate (offsetM : ℚ) (bearingDelta : Option ℚ) (identity : ℚ) (highway : String)
    (maxOffsetM : ℚ) : ExtRat :=
  let offset := ExtRat.max (fin 0) (fin 1 - fin offsetM / fin maxOffsetM)
  let cls := highwayPrior highway
  match bearingDelta with
  | none => fin (7 / 10) * offset + fin (2 / 10 * identity) + fin (1 / 10 * cls)
  | some delta =>
    if 90 < delta then fin 0
    else
      let bearing := if delta ≤ 30 then 1 else 1 - (delta - 30) / 60
      fin (4 / 10) * offset + fin (3 / 10 * bearing) + fin (2 / 10 * identity) + fin (1 / 10 * cls)

/-- The segments near a point that it may lie on, as they are filed; none for what lies too far off,
contradicts the road or runs the other way. -/
def candidateOf (p : LngLat) (bearing : Option ℚ) (input : BindInput) (maxOffsetM : ℚ)
    (s : SpineSegment ℚ) : Option Candidate :=
  if s.coords = [] then none
  else
    let pr := M.projectOntoPolyline p s.coords
    if maxOffsetM < pr.offsetM then none
    else
      let delta := bearing.map fun bearing => M.bearingDelta bearing pr.bearing
      let rs := M.identityScore input s
      if rs = 0 then none
      else
        let score := scoreCandidate pr.offsetM delta rs s.highway maxOffsetM
        if score.le (fin 0) = true then none
        else some ⟨s, pr.offsetM, pr.fraction, delta, rs, score⟩

/-- The candidates of a point, best first. -/
def candidatesFor (p : LngLat) (bearing : Option ℚ) (input : BindInput)
    (segments : List (SpineSegment ℚ)) (maxOffsetM : ℚ) : List Candidate :=
  Sorting.sortBy (fun a b => !a.score.lt b.score)
    ((SegmentGrid.near M segments maxOffsetM p).filterMap
      (candidateOf M p bearing input maxOffsetM))

/-- How many segments near a point contradict the road of the location. -/
def vetoesAt (p : LngLat) (input : BindInput) (segments : List (SpineSegment ℚ)) (maxOffsetM : ℚ) :
    ℕ :=
  ((SegmentGrid.near M segments maxOffsetM p).filter fun s =>
    decide (s.coords ≠ [] ∧ (M.projectOntoPolyline p s.coords).offsetM ≤ maxOffsetM ∧
      M.identityScore input s = 0)).length

/-- Why nothing was bound. -/
def unmatched (vetoes : ℕ) : String := if 0 < vetoes then "road_mismatch" else "no_candidates"

/-- Segments meet at a node. -/
def nodeAdjacent (a b : SpineSegment ℚ) : Bool :=
  if a.coords = [] ∨ b.coords = [] then false
  else
    decide (a.startKey = b.startKey ∨ a.startKey = b.endKey ∨ a.endKey = b.startKey ∨
      a.endKey = b.endKey)

/-- A candidate competes with the chosen one. -/
def isRival (c chosen : Candidate) : Bool :=
  decide (c.segment.wayId ≠ chosen.segment.wayId) && !nodeAdjacent c.segment chosen.segment &&
    decide (chosen.identity ≤ c.identity)

end Grid

/-! ## Outcomes -/

/-- The weight of a direction in a confidence. -/
def directionWeight : DirectionMode → ℚ
  | .single => 1
  | .both => 1 / 2
  | .unknown => 0

/-- The most confidence of a binding of which the carriageway is not decided. -/
def unknownDirectionConfidence : ExtRat := fin (69 / 100)

/-- A confidence, held down where the carriageway is not decided. -/
def cappedConfidence (directionMode : DirectionMode) (raw : ExtRat) : ExtRat :=
  if directionMode = .unknown then raw.min unknownDirectionConfidence else raw

/-- The confidence of a binding. -/
def confidenceOf (coverage meanOffsetM identity : ℚ) (directionMode : DirectionMode)
    (ambiguity : ExtRat) (maxOffsetM : ℚ) : ExtRat :=
  cappedConfidence directionMode
    (fin (4 / 10 * coverage) + fin (2 / 10) * (fin 1 - fin meanOffsetM / fin maxOffsetM) +
      fin (2 / 10 * identity) + fin (1 / 10 * directionWeight directionMode) +
      fin (1 / 10) * (fin 1 - ambiguity))

/-- The status of a binding by its confidence and how close the best rejected one came. -/
def statusOf (confidence ambiguity : ExtRat) : BindingStatus :=
  if ((fin (9 / 10)).le confidence && ambiguity.lt (fin (8 / 10))) = true then .exact
  else if ((fin (7 / 10)).le confidence && ambiguity.lt (fin (9 / 10))) = true then .likely
  else .ambiguous

/-- A binding of nothing. -/
def failure (status : BindingStatus) (reason : String) (candidateCount : ℕ)
    (samples : List Sample) : BindResult where
  status := status
  confidence := none
  directionMode := .unknown
  candidateCount := candidateCount
  alternativeConfidence := none
  reason := some reason
  segments := []
  debug := ⟨samples, none, none, none, none⟩

/-- A stretch of a segment between two fractions. -/
def span (s : SpineSegment ℚ) (startFraction endFraction : ℚ) : SegmentSpan :=
  ⟨s.segmentId, s.wayId, s.dir, min startFraction endFraction, max startFraction endFraction⟩

/-- A binding closes roads for routing. -/
def BindResult.routable (r : BindResult) : Bool := decide (r.status = .exact ∨ r.status = .likely)

end OpenConditions.Roads

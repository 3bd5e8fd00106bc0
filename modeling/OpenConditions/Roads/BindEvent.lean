import OpenConditions.Roads.Candidates

set_option relaxedAutoImplicit false
set_option autoImplicit false

/-!
# Binding events to the spine

An event's geometry and the roads it names against a subgraph of the spine, to the directed spans it
occupies (`packages/roads/src/bind/bind-event.ts`): a point binds its best candidate, an endpoint
pair the best path between its ends, a line the path along its samples.  A stated direction of travel
narrows a binding or keeps it from routing, and a location of a slip road binds slip roads alone.

## Main definitions

* `Shape`, `shapeOf` — the shapes that are bound.
* `bindPoint`, `bindEndpoints`, `bindLine` — a binding by the geometry.
* `redirected`, `oriented` — a binding held against the stated direction.
* `drawnOnSlipRoads`, `slipRoadAtJunction`, `onSlipRoads` — the slip roads of a binding.
* `bindEvent` — the binding of an event.
-/

namespace OpenConditions.Roads

open ExtRat (fin)

/-! ## Shapes -/

/-- The shapes that are bound; of parts that do not meet none is. -/
inductive Shape where
  | point (point : LngLat)
  | line (coords : List LngLat)
  | endpoints (start stop : LngLat)
  | disconnected
  deriving DecidableEq

/-- Each part ends where the next begins. -/
def partsMeet : List (List LngLat) → Bool
  | previous :: next :: rest =>
    (match previous.getLast?, next.head? with
      | some stop, some start => decide (stop = start)
      | _, _ => false) && partsMeet (next :: rest)
  | _ => true

/-- The shape of a geometry; none of an area. -/
def shapeOf : Geometry → Option Shape
  | .point p => some (.point p)
  | .lineString coords => some (.line coords)
  | .multiLineString parts =>
    if partsMeet parts = true then some (.line parts.flatten) else some .disconnected
  | .multiPoint pts =>
    match pts with
    | [p] => some (.point p)
    | [p, q] => some (.endpoints p q)
    | _ => some (.line pts)
  | .other => none

section Bind

variable (M : RoadMeasures)

/-- The length of a line in metres. -/
def polylineLengthM : List LngLat → ℚ
  | a :: b :: rest => M.haversineMeters a b + polylineLengthM (b :: rest)
  | _ => 0

/-- Points along a line at most a spacing apart; none where the spacing is not positive. -/
def densify (coords : List LngLat) (maxSpacingM : ℚ) : Option (List LngLat) :=
  if 0 < maxSpacingM then
    some (coords.take 1 ++ (coords.zip coords.tail).flatMap fun (a, b) =>
      let n := max 1 ⌈M.haversineMeters a b / maxSpacingM⌉
      (steps 1 n).map fun i => (a.1 + (b.1 - a.1) * (i / n), a.2 + (b.2 - a.2) * (i / n)))
  else none

/-! ## Points -/

/-- The binding of a point: its best candidate, in both directions of a way. -/
def bindPoint (point : LngLat) (input : BindInput) (segments : List (SpineSegment ℚ))
    (maxOffsetM : ℚ) : BindResult :=
  let candidates := candidatesFor M point none input segments maxOffsetM
  let samples := [⟨point, candidates⟩]
  match candidates with
  | [] => failure .unresolved (unmatched (vetoesAt M point input segments maxOffsetM)) 0 samples
  | best :: _ =>
    let twin := candidates.find? fun c =>
      decide (c.segment.wayId = best.segment.wayId ∧ c.segment.dir ≠ best.segment.dir)
    let rival := candidates.find? fun c => isRival c best
    let ambiguity := (rival.map fun rival => rival.score / best.score).getD (fin 0)
    let directionMode : DirectionMode :=
      if twin.isSome then .both else if rival.isSome then .unknown else .single
    let confidence := confidenceOf 1 best.offsetM best.identity directionMode ambiguity maxOffsetM
    { status := statusOf confidence ambiguity
      confidence := some confidence
      directionMode := directionMode
      candidateCount := candidates.length
      alternativeConfidence := rival.map fun _ => ambiguity * confidence
      reason := none
      segments := (best :: twin.toList).map fun c => span c.segment c.fraction c.fraction
      debug := ⟨samples, some best.score, some 1, some best.offsetM, some ambiguity⟩ }

/-! ## Endpoint pairs -/

/-- The most metres of a path between endpoints. -/
def maxEndpointPathM : ℚ := 30000

/-- The candidates of each end that are tried. -/
def endpointCandidates : ℕ := 3

/-- A longer way stays longer by as much. -/
theorem metres_mono {a b : ℚ} (l : ℚ) (h : a ≤ b) : a + l ≤ b + l := by
  simpa using h

/-- No segment makes a way shorter. -/
theorem le_metres (a : ℚ) {l : ℚ} (h : 0 ≤ l) : a ≤ a + l := by
  simpa using h

/-- The sum of lengths. -/
def metres : LengthSum ℚ where
  zero := 0
  add := (· + ·)
  add_mono := @metres_mono
  le_add := @le_metres

/-- The fraction of a segment at which a point lies. -/
def fractionOn (s : SpineSegment ℚ) (p : LngLat) : ℚ := (M.projectOntoPolyline p s.coords).fraction

/-- The spans of a path, of which the first and the last segment are clipped. -/
def spansAlong (path : List (SpineSegment ℚ)) (start stop : LngLat) : List SegmentSpan :=
  path.mapIdx fun i s =>
    span s (if i = 0 then fractionOn M s start else 0)
      (if i = path.length - 1 then fractionOn M s stop else 1)

/-- A path between candidates of the two ends. -/
structure EndpointRoute where
  path : List (SpineSegment ℚ)
  score : ExtRat
  lengthM : ℚ
  identity : ℚ
  start : Candidate
  stop : Candidate

/-- The metres of each segment that a path covers between two points. -/
def coveredM (path : List (SpineSegment ℚ)) (start stop : LngLat) : OrderedMap String ℚ :=
  (path.zip (spansAlong M path start stop)).foldl (fun m (s, part) =>
    m.set s.segmentId ((part.endFraction - part.startFraction) * polylineLengthM M s.coords)) .empty

/-- The share of road that two covered paths have in common. -/
def overlapOf (a b : OrderedMap String ℚ) : ℚ :=
  let ids := (a.keys ++ b.keys).dedup
  let shared := (ids.map fun id => min ((a.get id).getD 0) ((b.get id).getD 0)).sum
  let union := (ids.map fun id => max ((a.get id).getD 0) ((b.get id).getD 0)).sum
  if 0 < union then shared / union else 1

/-- How well the roads of a path are the one a location names. -/
def pathIdentity (input : BindInput) (path : List (SpineSegment ℚ)) : ℚ :=
  path.foldl (fun m s => min m (M.identityScore input s)) 1

/-- The route between two candidates, unless it runs against a segment or there is none. -/
def routeBetween (start stop : LngLat) (input : BindInput) (graph : SegmentGraph ℚ)
    (onRef : SpineSegment ℚ → Bool) (cap : ℚ) (s e : Candidate) : Option EndpointRoute :=
  if s.segment.segmentId = e.segment.segmentId ∧ e.fraction < s.fraction then none
  else
    (graph.shortestPath metres s.segment.segmentId e.segment.segmentId cap onRef).map fun path =>
      let rs := pathIdentity M input path
      { path := path
        score := (s.score + e.score) / fin 2 * fin (8 / 10 + 2 / 10 * rs)
        lengthM := ((coveredM M path start stop).entries.map Prod.snd).sum
        identity := rs
        start := s
        stop := e }

/-- The better of two routes: that of the higher score, or the shorter one. -/
def betterRoute (m : Option (EndpointRoute × ℕ)) (r : EndpointRoute × ℕ) :
    Option (EndpointRoute × ℕ) :=
  match m with
  | none => some r
  | some m =>
    if (m.1.score.lt r.1.score ||
        (decide (r.1.score = m.1.score ∧ r.1.score ≠ .nan) && decide (r.1.lengthM < m.1.lengthM))) =
      true
    then some r else some m

/-- The binding of an endpoint pair: the best path between candidates of its ends. -/
def bindEndpoints (start stop : LngLat) (input : BindInput) (segments : List (SpineSegment ℚ))
    (graph : SegmentGraph ℚ) (onRef : SpineSegment ℚ → Bool) (maxOffsetM : ℚ) : BindResult :=
  let straightM := polylineLengthM M [start, stop]
  if straightM = 0 then bindPoint M start input segments maxOffsetM
  else
    let cap := min maxEndpointPathM (25 / 10 * straightM + 500)
    let starts := (candidatesFor M start none input segments maxOffsetM).take endpointCandidates
    let ends := (candidatesFor M stop none input segments maxOffsetM).take endpointCandidates
    let samples := [⟨start, starts⟩, ⟨stop, ends⟩]
    let candidateCount := starts.length + ends.length
    if starts = [] ∨ ends = [] then
      failure .unresolved (unmatched (vetoesAt M start input segments maxOffsetM +
        vetoesAt M stop input segments maxOffsetM)) candidateCount samples
    else
      let routes := starts.flatMap fun s =>
        ends.filterMap fun e => routeBetween M start stop input graph onRef cap s e
      match routes.zipIdx.foldl betterRoute none with
      | none => failure .unresolved "no_path" candidateCount samples
      | some (best, index) =>
        let bestCovered := coveredM M best.path start stop
        let ambiguity := routes.zipIdx.foldl (fun ambiguity (r, i) =>
          if i = index then ambiguity
          else
            ambiguity.max (r.score / best.score *
              fin (1 - overlapOf bestCovered (coveredM M r.path start stop)))) (fin 0)
        let meanOffsetM := (best.start.offsetM + best.stop.offsetM) / 2
        let confidence := confidenceOf 1 meanOffsetM best.identity .single ambiguity maxOffsetM
        { status := statusOf confidence ambiguity
          confidence := some confidence
          directionMode := .single
          candidateCount := candidateCount
          alternativeConfidence :=
            if (fin 0).lt ambiguity = true then some (ambiguity * confidence) else none
          reason := none
          segments := spansAlong M best.path start stop
          debug := ⟨samples, some best.score, some 1, some meanOffsetM, some ambiguity⟩ }

/-! ## Lines -/

/-- A path with another segment, unless it is on it. -/
def pushSegment (path : List (SpineSegment ℚ)) (s : SpineSegment ℚ) : List (SpineSegment ℚ) :=
  if path.any fun other => decide (other.segmentId = s.segmentId) then path else path ++ [s]

/-- The path once a sample is walked: on to its best candidate, or the first that it reaches, unless
the segment it is on explains the sample. -/
def walkSample (graph : SegmentGraph ℚ) (onRef : SpineSegment ℚ → Bool) (cap : ℚ)
    (path : List (SpineSegment ℚ)) (sample : Sample) : List (SpineSegment ℚ) :=
  match sample.candidates with
  | [] => path
  | best :: others =>
    match path.getLast? with
    | none => pushSegment path best.segment
    | some last =>
      if last.segmentId = best.segment.segmentId then path
      else
        match graph.shortestPath metres last.segmentId best.segment.segmentId cap onRef with
        | some bridge => (bridge.drop 1).foldl pushSegment path
        | none =>
          if sample.candidates.any fun c => decide (c.segment.segmentId = last.segmentId) then path
          else
            match others.findSome? fun c =>
              graph.shortestPath metres last.segmentId c.segment.segmentId cap onRef with
            | some reached => (reached.drop 1).foldl pushSegment path
            | none => pushSegment path best.segment

/-- How far the path explains the samples: the share of them near it, and their mean offset. -/
def pathFit (path : List (SpineSegment ℚ)) (samples : List LngLat) (maxOffsetM : ℚ) : ℚ × ℚ :=
  if samples = [] then (0, maxOffsetM)
  else
    let offsets := samples.map fun p =>
      (path.map fun s => fin (M.projectOntoPolyline p s.coords).offsetM).foldl ExtRat.min .posInf
    (((offsets.countP fun best => best.le (fin maxOffsetM) : ℕ) : ℚ) / samples.length,
      (offsets.map fun best => (best.min (fin maxOffsetM)).toRat).sum / samples.length)

/-- What the rivals of a line say: how close they come, whether there are any, and by how much the
chosen segments fit the heading better. -/
structure Contest where
  ambiguity : ExtRat
  contested : Bool
  minMarginDeg : ExtRat

/-- The rivals of a sample on segments that the path left behind. -/
def contestSample (path : List (SpineSegment ℚ)) (contest : Contest) (sample : Sample) : Contest :=
  match sample.candidates with
  | [] => contest
  | chosen :: _ =>
    let rivals := sample.candidates.filter fun c =>
      !(path.any fun s => decide (s.segmentId = c.segment.segmentId)) && isRival c chosen
    match rivals with
    | [] => contest
    | rival :: others =>
      let nearestDelta := others.foldl (fun m r => min m (r.bearingDelta.getD 0))
        (rival.bearingDelta.getD 0)
      { ambiguity := contest.ambiguity.max (rival.score / chosen.score)
        contested := true
        minMarginDeg :=
          contest.minMarginDeg.min (fin (nearestDelta - chosen.bearingDelta.getD 0)) }

/-- How much better a chosen segment fits the heading than any rival where the direction counts as
decided. -/
def minBearingMarginDeg : ExtRat := fin 30

/-- The least share of a line's samples near its path. -/
def minLineCoverage : ℚ := 1 / 2

/-- The samples of a line at its points, with their bearings where the line has a heading. -/
def lineSamples (hasBearing : Bool) (points : List LngLat) (input : BindInput)
    (segments : List (SpineSegment ℚ)) (maxOffsetM : ℚ) : List Sample :=
  points.mapIdx fun i point =>
    let prev := (points[i - 1]?).getD point
    let next := (points[min (points.length - 1) (i + 1)]?).getD point
    let bearing := if hasBearing = true then some (M.bearingDeg prev next) else none
    ⟨point, candidatesFor M point bearing input segments maxOffsetM⟩

/-- The other directions of the ways of a path. -/
def twinsOf (path segments : List (SpineSegment ℚ)) : OrderedMap String (SpineSegment ℚ) :=
  path.foldl (fun twins p =>
    match segments.find? fun o => decide (o.wayId = p.wayId ∧ o.dir ≠ p.dir) with
    | some twin => twins.set twin.segmentId twin
    | none => twins) .empty

/-- The binding of a line along a path; none where a direction of a way has no coordinates. -/
def bindPath (coords points : List LngLat) (hasBearing : Bool) (samples matched : List Sample)
    (candidateCount : ℕ) (path : List (SpineSegment ℚ)) (input : BindInput)
    (segments : List (SpineSegment ℚ)) (maxOffsetM : ℚ) : Option BindResult :=
  let contest := matched.foldl (contestSample path) ⟨fin 0, false, .posInf⟩
  let (coverage, meanOffsetM) := pathFit M path points maxOffsetM
  if coverage < minLineCoverage then
    some (failure .unresolved "low_coverage" candidateCount samples)
  else
    let rs := pathIdentity M input path
    -- A line without a heading occupies a way in both of its directions.
    let twins := if hasBearing = true then .empty else twinsOf path segments
    let opposite := twins.entries.map Prod.snd
    if (opposite.any fun twin => twin.coords.isEmpty) = true then none
    else
      let margin := if hasBearing = true then contest.minMarginDeg else fin 0
      let directionMode : DirectionMode :=
        if 0 < twins.size then .both
        else if (contest.contested && margin.lt minBearingMarginDeg) = true then .unknown
        else .single
      let first := coords.head?.getD (0, 0)
      let last := coords.getLast?.getD (0, 0)
      let confidence :=
        confidenceOf coverage meanOffsetM rs directionMode contest.ambiguity maxOffsetM
      some
        { status := statusOf confidence contest.ambiguity
          confidence := some confidence
          directionMode := directionMode
          candidateCount := candidateCount
          alternativeConfidence :=
            if (fin 0).lt contest.ambiguity = true then some (contest.ambiguity * confidence)
            else none
          reason := none
          segments := spansAlong M path first last ++
            opposite.flatMap fun twin => spansAlong M [twin] last first
          debug := ⟨samples, some confidence, some coverage, some meanOffsetM,
            some contest.ambiguity⟩ }

/-- The binding of a line: the path along its samples; none where its spacing is not positive or a
direction of a way has no coordinates. -/
def bindLine (coords : List LngLat) (input : BindInput) (segments : List (SpineSegment ℚ))
    (graph : SegmentGraph ℚ) (onRef : SpineSegment ℚ → Bool) (maxOffsetM spacingM : ℚ) :
    Option BindResult :=
  let lengthM := polylineLengthM M coords
  let hasBearing := decide (minBearingLengthM ≤ lengthM)
  (densify M coords spacingM).bind fun points =>
    let samples := lineSamples M hasBearing points input segments maxOffsetM
    let candidateCount :=
      ((samples.flatMap fun s => s.candidates.map fun c => c.segment.segmentId).dedup).length
    let matched := samples.filter fun s => !s.candidates.isEmpty
    if matched = [] then
      some (failure .unresolved (unmatched
        ((points.map fun p => vetoesAt M p input segments maxOffsetM).sum)) 0 samples)
    else
      let cap := 15 / 10 * lengthM + 200
      let path := matched.foldl (walkSample graph onRef cap) []
      bindPath M coords points hasBearing samples matched candidateCount path input segments
        maxOffsetM

/-! ## The stated direction -/

/-- How far a carriageway's heading may lie from a stated one and still run along it. -/
def headingToleranceDeg : ℚ := 60

/-- How far a drawn line's heading must lie from a stated one to contradict it. -/
def headingConflictDeg : ℚ := 120

/-- A drawn line shorter than this has no order. -/
def minDrawnHeadingM : ℚ := 5

/-- The heading a shape is drawn in, from its first point to its last, where it has one. -/
def drawnHeading (shape : Shape) : Option ℚ :=
  let coords := match shape with
    | .endpoints start stop => [start, stop]
    | .line coords => coords
    | _ => []
  match coords with
  | first :: next :: rest =>
    let last := (next :: rest).getLast?.getD next
    let straightM := polylineLengthM M [first, last]
    if straightM < minDrawnHeadingM ∨ straightM < 1 / 2 * polylineLengthM M coords then none
    else some (M.bearingDeg first last)
  | _ => none

/-- Where a shape starts. -/
def anchorOf : Shape → Option LngLat
  | .point p => some p
  | .endpoints start _ => some start
  | .line coords => coords.head?
  | .disconnected => none

/-- A binding that the stated direction contradicts. -/
def conflicting (r : BindResult) : BindResult :=
  failure .unresolved "conflicting_direction" r.candidateCount r.debug.samples

/-- A binding with another direction mode and other spans. -/
def redirected (r : BindResult) (directionMode : DirectionMode) (segments : List SegmentSpan)
    (reason : Option String) : BindResult :=
  let ambiguity := r.debug.ambiguity.getD (fin 0)
  let confidence := cappedConfidence directionMode (r.confidence.getD (fin 0) +
    fin (1 / 10) * (fin (directionWeight directionMode - directionWeight r.directionMode)))
  { r with
    status := statusOf confidence ambiguity
    confidence := some confidence
    directionMode := directionMode
    alternativeConfidence := r.alternativeConfidence.map fun _ => ambiguity * confidence
    reason := reason.or r.reason
    segments := segments }

/-- The segment of an id in a subgraph, the last of several. -/
def segmentById (segments : List (SpineSegment ℚ)) (id : String) : Option (SpineSegment ℚ) :=
  segments.reverse.find? fun s => decide (s.segmentId = id)

/-- A span's carriageway runs the way of a heading at a point. -/
def runsAlong (segments : List (SpineSegment ℚ)) (anchor : Option LngLat) (target : ℚ)
    (part : SegmentSpan) : Bool :=
  match anchor, segmentById segments part.segmentId with
  | some p, some s =>
    decide (1 < s.coords.length ∧
      M.bearingDelta (M.projectOntoPolyline p s.coords).bearing target ≤ headingToleranceDeg)
  | _, _ => false

/-- Of each way of the spans one direction is kept. -/
def isDecided (segments kept : List SegmentSpan) : Bool :=
  !kept.isEmpty &&
    decide ((segments.map SegmentSpan.wayId).dedup.length =
      (kept.map SegmentSpan.wayId).dedup.length) &&
    (kept.map SegmentSpan.wayId).dedup.all fun way =>
      decide ((((kept.filter fun part => decide (part.wayId = way)).map
        SegmentSpan.dir).dedup).length = 1)

/-- A binding held against the direction that is stated. -/
def oriented (r : BindResult) (travel : Option TravelDirection) (shape : Shape)
    (segments : List (SpineSegment ℚ)) : BindResult :=
  match travel with
  | none => r
  | some travel =>
    if r.segments = [] then r
    else if travel = .against then conflicting r
    else if travel = .unplaced then
      redirected r .unknown r.segments (some "direction_undecided")
    else
      match r.directionMode with
      | .unknown => r
      | .single =>
        match travel, drawnHeading M shape with
        | .heading stated, some drawn =>
          if headingConflictDeg < M.bearingDelta drawn stated then conflicting r else r
        | _, _ => r
      | .both =>
        let target := match travel with
          | .heading stated => some stated
          | .along => drawnHeading M shape
          | _ => none
        match target with
        | none => redirected r .unknown r.segments (some "direction_undecided")
        | some target =>
          let kept := r.segments.filter (runsAlong M segments (anchorOf shape) target)
          if isDecided r.segments kept = true then redirected r .single kept none
          else redirected r .unknown r.segments (some "direction_undecided")

/-! ## Slip roads -/

/-- A segment is a slip road. -/
def isSlipRoad (s : SpineSegment ℚ) : Bool := s.highway.endsWith "_link"

/-- How far beyond a path its ramp may leave or join the carriageway, in metres. -/
def slipRoadReachM : ℚ := 150

/-- The stretch that is bound of a ramp found at its junction, in metres. -/
def slipRoadHeadM : ℚ := 30

/-- The most confidence of a ramp found at its junction. -/
def junctionMaxConfidence : ExtRat := fin (89 / 100)

/-- The slack at the ends of a path when a node is read against them, in metres. -/
def nodeSlackM : ℚ := 1

/-- A carriageway segment of a corridor: its stretch in the corridor, and where it starts, measured
from the start of the path. -/
structure CorridorPart where
  segment : SpineSegment ℚ
  fromM : ℚ
  toM : ℚ
  baseM : ℚ

/-- The one carriageway on a way that was not seen. -/
def onlyCarriageway (seen : List ℕ) (next : List (SpineSegment ℚ)) : Option (SpineSegment ℚ) :=
  match next.filter fun n => !isSlipRoad n && !decide (n.wayId ∈ seen) with
  | [n] => some n
  | _ => none

/-- The parts of a corridor on the path, and the length of the path. -/
def corridorParts (graph : SegmentGraph ℚ) :
    List SegmentSpan → ℚ → Option (List CorridorPart × ℚ)
  | [], pathM => some ([], pathM)
  | part :: rest, pathM =>
    (graph.byId part.segmentId).bind fun segment =>
      let lengthM := polylineLengthM M segment.coords
      let fromM := part.startFraction * lengthM
      let toM := part.endFraction * lengthM
      (corridorParts graph rest (pathM + (toM - fromM))).map fun (parts, pathM') =>
        (⟨segment, fromM, toM, pathM - fromM⟩ :: parts, pathM')

/-- The parts of a corridor after the path, as long as one carriageway runs on.  Each is of a way
that was not seen, so that there are no more than segments. -/
def corridorAfter (graph : SegmentGraph ℚ) (pathM : ℚ) :
    ℕ → List ℕ → ℚ → Option (SpineSegment ℚ) → List CorridorPart
  | fuel + 1, seen, along, some next =>
    if along - pathM < slipRoadReachM then
      let lengthM := polylineLengthM M next.coords
      ⟨next, 0, lengthM, along⟩ :: corridorAfter graph pathM fuel (next.wayId :: seen)
        (along + lengthM)
        (onlyCarriageway (next.wayId :: seen) (graph.successors next.segmentId))
    else []
  | _, _, _, _ => []

/-- The parts of a corridor before the path, the nearest first. -/
def corridorBefore (graph : SegmentGraph ℚ) :
    ℕ → List ℕ → ℚ → Option (SpineSegment ℚ) → List CorridorPart
  | fuel + 1, seen, along, some prev =>
    if -along < slipRoadReachM then
      let lengthM := polylineLengthM M prev.coords
      ⟨prev, 0, lengthM, along - lengthM⟩ :: corridorBefore graph fuel (prev.wayId :: seen)
        (along - lengthM)
        (onlyCarriageway (prev.wayId :: seen) (graph.predecessors prev.segmentId))
    else []
  | _, _, _, _ => []

/-- The carriageway that a ramp of a path may leave or join, and the length of the path. -/
def corridorOf (spans : List SegmentSpan) (slipRoad : SlipRoad) (graph : SegmentGraph ℚ) :
    Option (List CorridorPart × ℚ) :=
  (corridorParts M graph spans 0).bind fun (parts, pathM) =>
    let seen := parts.map fun part => part.segment.wayId
    let fuel := graph.segments.size + 1
    match slipRoad with
    | .exit =>
      parts.getLast?.map fun last =>
        let last := { last with toM := polylineLengthM M last.segment.coords }
        (parts.dropLast ++ last :: corridorAfter M graph pathM fuel seen (last.baseM + last.toM)
          (onlyCarriageway seen (graph.successors last.segment.segmentId)), pathM)
    | .entry =>
      match parts with
      | [] => none
      | first :: rest =>
        let first := { first with fromM := 0 }
        some ((corridorBefore M graph fuel seen first.baseM
          (onlyCarriageway seen (graph.predecessors first.segment.segmentId))).reverse ++
            first :: rest, pathM)

/-- The nodes of a corridor's carriageway in a window. -/
def corridorNodes (parts : List CorridorPart) (lo hi : ℚ) : List String :=
  parts.flatMap fun part =>
    (part.segment.coords.mapIdx fun i p =>
      (p, polylineLengthM M (part.segment.coords.take (i + 1)))).filterMap fun (p, alongM) =>
        if part.fromM - nodeSlackM ≤ alongM ∧ alongM ≤ part.toM + nodeSlackM ∧
            lo ≤ part.baseM + alongM ∧ part.baseM + alongM ≤ hi then some (nodeKey p) else none

/-- The nodes at which a ramp may leave (exit) or join (entry) the carriageway of a corridor. -/
def junctionNodes (slipRoad : SlipRoad) (corridor : List CorridorPart × ℚ) : List String :=
  match slipRoad with
  | .exit => corridorNodes M corridor.1 (-nodeSlackM) (corridor.2 + slipRoadReachM)
  | .entry => corridorNodes M corridor.1 (-slipRoadReachM) (corridor.2 + nodeSlackM)

/-- Where a ramp leaves or joins the carriageway. -/
def rampKey (slipRoad : SlipRoad) (ramp : SpineSegment ℚ) : String :=
  match slipRoad with
  | .exit => ramp.startKey
  | .entry => ramp.endKey

/-- The first metres of an exit, or the last of an entry. -/
def rampHead (slipRoad : SlipRoad) (ramp : SpineSegment ℚ) : SegmentSpan :=
  let head := min 1 (slipRoadHeadM / max (polylineLengthM M ramp.coords) 1)
  match slipRoad with
  | .exit => span ramp 0 head
  | .entry => span ramp (1 - head) 1

/-- The binding of the one ramp that leaves or joins the carriageway of a path, to its end at the
carriageway. -/
def slipRoadAtJunction (r : BindResult) (slipRoad : Option SlipRoad)
    (segments : List (SpineSegment ℚ)) (graph : SegmentGraph ℚ) : Option BindResult :=
  match slipRoad, r.confidence with
  | some slipRoad, some bound =>
    if r.routable = false ∨ r.directionMode ≠ .single then none
    else
      (corridorOf M r.segments slipRoad graph).bind fun corridor =>
        let nodes := junctionNodes M slipRoad corridor
        match segments.filter fun s => isSlipRoad s && decide (2 ≤ s.coords.length) &&
          decide (rampKey slipRoad s ∈ nodes) with
        | [] => none
        | ramp :: others =>
          if (others.any fun s => decide (s.wayId ≠ ramp.wayId)) = true then none
          else
            some
              { r with
                status := if r.status = .exact then .likely else r.status
                confidence := some (bound.min junctionMaxConfidence)
                segments := [rampHead M slipRoad ramp] }
  | _, _ => none

/-! ## Events -/

/-- The kinds of situations that never bind to a carriageway. -/
def notApplicableTypes : List String :=
  ["weather_condition", "public_event", "authority", "security"]

/-- The binding of a shape; none where a line's binding throws. -/
def bindShape (shape : Shape) (input : BindInput) (segments : List (SpineSegment ℚ))
    (maxOffsetM spacingM : ℚ) : Option BindResult :=
  let graph := SegmentGraph.of segments
  let onRef := fun s => decide (M.identityScore input s ≠ 0)
  match shape with
  | .point p => some (bindPoint M p input segments maxOffsetM)
  | .endpoints start stop => some (bindEndpoints M start stop input segments graph onRef maxOffsetM)
  | .line [] => some (failure .unresolved "no_candidates" 0 [])
  | .line [p] => some (bindPoint M p input segments maxOffsetM)
  | .line coords => bindLine M coords input segments graph onRef maxOffsetM spacingM
  | .disconnected => some (failure .unresolved "disconnected_geometry" 0 [])

/-- A shape with nothing to bind. -/
def Shape.isUnbound : Shape → Bool
  | .line [] => true
  | .disconnected => true
  | _ => false

/-- The binding of an event, narrowed in some way where it stands for a slip road. -/
def bindEventWith (narrow : BindResult → SegmentGraph ℚ → Option BindResult) (input : BindInput)
    (segments : List (SpineSegment ℚ)) (opts : BindOptions) : Option BindResult :=
  let maxOffsetM := opts.maxOffsetM.getD defaultMaxOffsetM
  let spacingM := opts.sampleSpacingM.getD defaultSampleSpacingM
  if input.type ∈ notApplicableTypes then some (failure .notApplicable "area_type" 0 [])
  else
    match shapeOf input.geometry with
    | none => some (failure .notApplicable "polygon_geometry" 0 [])
    | some shape =>
      -- A geometry whose parts do not meet fails before a subgraph that is too large does.
      if maxSubgraphSegments < segments.length ∧ shape ≠ .disconnected then
        some (failure .unresolved "subgraph_too_large" 0 [])
      else
        (bindShape M shape input segments maxOffsetM spacingM).bind fun result =>
          if shape.isUnbound = true then some result
          else
            let placed := oriented M result input.travel shape segments
            if input.slipRoadOnly = true then narrow placed (SegmentGraph.of segments)
            else some placed

/-- The binding of a location to the slip roads it was drawn along, where it lies nearer to them
than to the carriageway; none of it all where the binding of the slip roads throws. -/
def drawnOnSlipRoads (r : BindResult) (input : BindInput) (segments : List (SpineSegment ℚ))
    (opts : BindOptions) : Option (Option BindResult) :=
  match r.debug.meanOffsetM with
  | none => some none
  | some onCarriageway =>
    -- The location is no longer one of slip roads alone, so that nothing is narrowed here.
    (bindEventWith M (fun placed _ => some placed) { input with slipRoadOnly := false }
      (segments.filter isSlipRoad) opts).map fun links =>
        match links.debug.meanOffsetM with
        | some onLinks => if links.routable = true ∧ onLinks < onCarriageway then some links else none
        | none => none

/-- A binding narrowed to slip roads. -/
def onSlipRoads (r : BindResult) (input : BindInput) (segments : List (SpineSegment ℚ))
    (graph : SegmentGraph ℚ) (opts : BindOptions) : Option BindResult :=
  if r.segments = [] then some r
  else
    let slip := (segments.filter isSlipRoad).map SpineSegment.segmentId
    let onSlip := r.segments.filter fun part => decide (part.segmentId ∈ slip)
    if onSlip ≠ [] then some { r with segments := onSlip }
    else
      (drawnOnSlipRoads M r input segments opts).map fun drawn =>
        (drawn.or (slipRoadAtJunction M r input.slipRoad segments graph)).getD
          (failure .unresolved "no_slip_road" r.candidateCount r.debug.samples)

/-- **The binding of an event to the spine**; none where a spacing that is not positive, or a segment
without coordinates, makes the code throw. -/
def bindEvent (input : BindInput) (segments : List (SpineSegment ℚ)) (opts : BindOptions) :
    Option BindResult :=
  bindEventWith M (fun placed graph => onSlipRoads M placed input segments graph opts) input
    segments opts

end Bind

end OpenConditions.Roads

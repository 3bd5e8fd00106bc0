import OpenConditions.Lib.OrderedMap
import OpenConditions.Lib.Walks
import Mathlib.Data.Rat.Floor

set_option relaxedAutoImplicit false
set_option autoImplicit false

/-!
# Paths along the spine

The directed graph of the road segments loaded for one event
(`packages/roads/src/bind/graph.ts`): one segment follows another when it starts where the other
ends, and a bounded search finds a shortest path between two of them.

`K` is the type of lengths, which are finite, with their addition `LengthSum`.

## Main definitions

* `SpineSegment`, `nodeKey` — segments and their ends.
* `SegmentGraph` — the graph, `SegmentGraph.of` of some segments.
* `SegmentGraph.shortestPath` — the search.
-/

namespace OpenConditions.Roads

/-! ## Segments -/

/-- A longitude and a latitude. -/
abbrev LngLat := ℚ × ℚ

/-- The text of a number no less than zero with seven decimals. -/
def fixedText (x : ℚ) : String :=
  let n := ⌊x * 10 ^ 7 + 1 / 2⌋.toNat
  let decimals := toString (n % 10 ^ 7)
  toString (n / 10 ^ 7) ++ "." ++ String.ofList (List.replicate (7 - decimals.length) '0') ++
    decimals

/-- The text of a number with seven decimals. -/
def toFixed7 (x : ℚ) : String := if x < 0 then "-" ++ fixedText (-x) else fixedText x

/-- What two ends that meet have the same: their coordinates rounded to 1e-7 degrees. -/
def nodeKey (p : LngLat) : String := toFixed7 p.1 ++ "," ++ toFixed7 p.2

/-- The direction of a segment along its way. -/
inductive SegmentDir where
  | f
  | b
  deriving DecidableEq, Repr

/-- A directed road segment. -/
structure SpineSegment (K : Type) where
  segmentId : String
  wayId : ℕ
  dir : SegmentDir
  highway : String
  ref : Option String
  name : Option String
  /-- In the direction of travel. -/
  coords : List LngLat
  lengthM : K
  deriving DecidableEq

section Graph

variable {K : Type}

/-- Where a segment starts. -/
def SpineSegment.startKey (s : SpineSegment K) : String := (s.coords.head?.map nodeKey).getD ""

/-- Where a segment ends. -/
def SpineSegment.endKey (s : SpineSegment K) : String := (s.coords.getLast?.map nodeKey).getD ""

/-! ## The graph -/

/-- The segments by their ids, by where they start and by where they end. -/
structure SegmentGraph (K : Type) where
  segments : OrderedMap String (SpineSegment K)
  outByStart : OrderedMap String (List (SpineSegment K))
  inByEnd : OrderedMap String (List (SpineSegment K))

/-- Adds a segment, unless it has no two coordinates. -/
def SegmentGraph.add (graph : SegmentGraph K) (s : SpineSegment K) : SegmentGraph K :=
  if s.coords.length < 2 then graph
  else
    { segments := graph.segments.set s.segmentId s
      outByStart := graph.outByStart.set s.startKey ((graph.outByStart.get s.startKey).getD [] ++ [s])
      inByEnd := graph.inByEnd.set s.endKey ((graph.inByEnd.get s.endKey).getD [] ++ [s]) }

/-- The graph of some segments. -/
def SegmentGraph.of (segments : List (SpineSegment K)) : SegmentGraph K :=
  segments.foldl SegmentGraph.add ⟨.empty, .empty, .empty⟩

/-- The segment of an id. -/
def SegmentGraph.byId (graph : SegmentGraph K) (id : String) : Option (SpineSegment K) :=
  graph.segments.get id

/-- The segments that end where a segment starts. -/
def SegmentGraph.predecessors (graph : SegmentGraph K) (id : String) : List (SpineSegment K) :=
  match graph.segments.get id with
  | none => []
  | some s => ((graph.inByEnd.get s.startKey).getD []).filter fun n => decide (n.segmentId ≠ id)

/-- The segments that start where a segment ends. -/
def SegmentGraph.successors (graph : SegmentGraph K) (id : String) : List (SpineSegment K) :=
  match graph.segments.get id with
  | none => []
  | some s => ((graph.outByStart.get s.endKey).getD []).filter fun n => decide (n.segmentId ≠ id)

/-! ## The search -/

/-- The labels of a search, and the segments that are open and done. -/
structure SearchState (K : Type) where
  dist : OrderedMap String K
  prev : OrderedMap String String
  opened : List String
  done : List String

section Search

variable [LinearOrder K] (A : LengthSum K)

/-- The open segment with the smallest label, the first of several. -/
def nearest (st : SearchState K) : Option (String × K) :=
  st.opened.foldl (fun best id =>
    match st.dist.get id with
    | some d => if best.all fun b => decide (d < b.2) then some (id, d) else best
    | none => best) none

/-- The segment is done. -/
def SearchState.settle (st : SearchState K) (cur : String) : SearchState K :=
  { st with opened := st.opened.filter fun id => decide (id ≠ cur), done := cur :: st.done }

/-- Labels a segment that follows the one done. -/
def relax (cap : K) (allow : SpineSegment K → Bool) (cur : String) (best : K) (st : SearchState K)
    (next : SpineSegment K) : SearchState K :=
  if next.segmentId ∈ st.done ∨ allow next = false then st
  else
    let nd := A.add best next.lengthM
    if cap < nd then st
    else if (st.dist.get next.segmentId).all fun d => decide (nd < d) then
      { st with
        dist := st.dist.set next.segmentId nd
        prev := st.prev.set next.segmentId cur
        opened :=
          if next.segmentId ∈ st.opened then st.opened else st.opened ++ [next.segmentId] }
    else st

/-- Settles one segment after the other until the target is done or none is open. -/
def search (graph : SegmentGraph K) (target : String) (cap : K) (allow : SpineSegment K → Bool) :
    ℕ → SearchState K → SearchState K
  | 0, st => st
  | fuel + 1, st =>
    match nearest st with
    | none => st
    | some (cur, best) =>
      let st := st.settle cur
      if cur = target then st
      else
        search graph target cap allow fuel
          ((graph.successors cur).foldl (relax A cap allow cur best) st)

/-- The segments on the way back from one to the first. -/
def pathBack (graph : SegmentGraph K) (prev : OrderedMap String String) (first : String) :
    ℕ → String → List (SpineSegment K) → List (SpineSegment K)
  | 0, _, path => path
  | fuel + 1, id, path =>
    let path := (graph.byId id).toList ++ path
    if id = first then path
    else
      match prev.get id with
      | none => path
      | some before => pathBack graph prev first fuel before path

/-- A shortest path from one segment to another, both inclusive, within a length. -/
def SegmentGraph.shortestPath (graph : SegmentGraph K) (first target : String) (cap : K)
    (allow : SpineSegment K → Bool) : Option (List (SpineSegment K)) :=
  match graph.byId first, graph.byId target with
  | some s, some _ =>
    if first = target then some [s]
    else
      -- Each round settles another segment, so the rounds are no more than the segments.
      let st := search A graph target cap allow (graph.segments.size + 1)
        ⟨OrderedMap.empty.set first A.zero, .empty, [first], []⟩
      if st.dist.has target then
        let path := pathBack graph st.prev first (graph.segments.size + 1) target []
        if path.head?.map SpineSegment.segmentId = some first then some path else none
      else none
  | _, _ => none

end Search

end Graph

end OpenConditions.Roads

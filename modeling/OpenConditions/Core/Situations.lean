import Mathlib.Data.List.Perm.Basic
import Mathlib.Data.List.Sort
import Mathlib.Data.Rat.Floor
import Mathlib.Algebra.Order.Ring.Rat
import Mathlib.Algebra.Order.Group.Unbundled.Abs
import OpenConditions.Lib.Json
import OpenConditions.Lib.OrderedMap

set_option relaxedAutoImplicit false
set_option autoImplicit false

/-!
# Folding the records of one phenomenon

A page of situations from several sources lists one phenomenon more than once.  A record joins an
earlier group when it has the group's traffic meaning and stands near every member of it, or when
it and the group's record are one measure by its dates and place; the record that stays lists the
other among its merged sources.

How two records compare is a parameter: the traffic meaning, the distance of two points, the cells
of a shape and the comparison of two measures rest on text and floating point, and what a fold
keeps does not depend on them.  The records read are those the model's schema accepts, whose
geometries are GeoJSON and whose roads are objects.

## Main definitions

* `Situation`, `MergedSource` — a record with its provenance, and a publisher folded into it.
* `pointOf`, `shapeOf` — the representative point of a geometry, and its lines with their box.
* `merge` — a record listing another among its merged sources.
* `dedupeSituations` — the records of a page, folded.
-/

namespace OpenConditions.Core

/-! ## Records -/

/-- A record folded into another, and its publisher's credit. -/
structure MergedSource where
  source : String
  recordId : String
  attribution : Json
  upstream : Option Json
  link : Option String

/-- Where a record comes from, with what was folded into it. -/
structure SituationProvenance where
  sourceId : String
  recordId : String
  attribution : Json
  upstream : Option Json
  mergedSources : Option (List MergedSource)

/-- A situation record; `fields` are those other than its provenance. -/
structure Situation where
  provenance : SituationProvenance
  fields : List (String × Json)

/-- The geometry of a record. -/
def Situation.geometry (record : Situation) : Option Json :=
  (Json.fieldOf "location" record.fields).bind (Json.field "geometry")

/-- `kept` listing `folded` among its merged sources, with any `folded` already listed. -/
def merge (kept folded : Situation) : Situation :=
  { kept with
    provenance :=
      { kept.provenance with
        mergedSources := some (kept.provenance.mergedSources.getD [] ++
          { source := folded.provenance.sourceId
            recordId := folded.provenance.recordId
            attribution := folded.provenance.attribution
            upstream := folded.provenance.upstream
            link := some "same_phenomenon" } :: folded.provenance.mergedSources.getD []) } }

/-! ## Places -/

mutual

/-- The positions of a tree of coordinates. -/
def visit : Json → List (ℚ × ℚ)
  | .arr (.num x :: .num y :: _) => [(x, y)]
  | .arr items => visitAll items
  | _ => []

/-- The positions of several trees of coordinates. -/
def visitAll : List Json → List (ℚ × ℚ)
  | [] => []
  | item :: items => visit item ++ visitAll items

end

/-- The first two numbers of a position, where they are numbers. -/
def vertexOf : Json → Option ℚ × Option ℚ
  | .arr (x :: y :: _) => (x.number, y.number)
  | .arr [x] => (x.number, none)
  | _ => (none, none)

mutual

/-- The lines, rings and points of a tree of coordinates. -/
def walk : Json → List (List (Option ℚ × Option ℚ))
  | .arr (.num x :: .num y :: _) => [[(some x, some y)]]
  | .arr (.arr (.num x :: rest) :: items) =>
    [vertexOf (.arr (.num x :: rest)) :: items.map vertexOf]
  | .arr items => walkAll items
  | _ => []

/-- The lines, rings and points of several trees of coordinates. -/
def walkAll : List Json → List (List (Option ℚ × Option ℚ))
  | [] => []
  | item :: items => walk item ++ walkAll items

end

/-- A record's place as lines, polygon rings and points, with its bounding box. -/
structure Shape where
  parts : List (List (ℚ × ℚ))
  /-- West, south, east, north. -/
  bbox : ℚ × ℚ × ℚ × ℚ

/-- At most this many vertices per shape. -/
def maxVertices : ℕ := 512

/-- A longitude and a latitude. -/
def validVertex : Option ℚ × Option ℚ → Option (ℚ × ℚ)
  | (some x, some y) => if |x| ≤ 180 ∧ |y| ≤ 90 then some (x, y) else none
  | _ => none

/-- Every `stride`-th vertex of a part, and its last. -/
def thin (stride : ℕ) (part : List (ℚ × ℚ)) : List (ℚ × ℚ) :=
  (part.zipIdx.filter fun v => v.2 % stride = 0 ∨ v.2 = part.length - 1).map Prod.fst

/-- The box of vertices. -/
def bboxOf (vertices : List (ℚ × ℚ)) : ℚ × ℚ × ℚ × ℚ :=
  (((vertices.map Prod.fst).min?).getD 0, ((vertices.map Prod.snd).min?).getD 0,
    ((vertices.map Prod.fst).max?).getD 0, ((vertices.map Prod.snd).max?).getD 0)

/-- The coordinate trees a shape is read from: those of the geometries, where there is a list of
them, otherwise its own. -/
def shapeTrees (geometry : Json) : List Json :=
  match (geometry.field "geometries").bind Json.items with
  | some nested => nested.filterMap (Json.field "coordinates")
  | none => (geometry.field "coordinates").toList

/-- A record's geometry as a shape, or none when it has no shape. -/
def shapeOf (record : Situation) : Option Shape :=
  record.geometry.bind fun geometry =>
    let parts := walkAll (shapeTrees geometry)
    if parts = [] then none
    else
      (parts.mapM (List.mapM validVertex)).bind fun parts =>
        if maxVertices < parts.length then none
        else
          let total := (parts.map List.length).sum
          let stride := (total + maxVertices - 1) / maxVertices
          let kept := if maxVertices < total then parts.map (thin stride) else parts
          some ⟨kept, bboxOf kept.flatten⟩

/-! ## Comparing records -/

/-- Which of two records stands for a measure both publish. -/
inductive Survivor where
  | a | b
  deriving DecidableEq

/-- How records are compared. -/
structure Comparison where
  /-- The traffic meaning of a record, where its evidence is enough to state one. -/
  situationCompatibilityKey : Situation → Option String
  /-- A road reference without blanks, in capitals. -/
  roadRef : String → String
  /-- The mean of some numbers. -/
  mean : List ℚ → ℚ
  /-- The distance of two points in metres. -/
  haversineMeters : ℚ × ℚ → ℚ × ℚ → ℚ
  /-- The grid cells near a shape. -/
  cellsOf : Shape → List String
  /-- Which of two records of one measure survives; none when they are not one. -/
  sameMeasureAcrossSources : Situation → Shape → Situation → Shape → Option Survivor

/-- Spatial candidate threshold in metres. -/
def samePlaceM : ℚ := 75

/-- The wider threshold, which requires a common road. -/
def sameRoadM : ℚ := 250

section Fold

variable (C : Comparison)

/-- A geometry's representative point: the mean of its vertices. -/
def pointOf (geometry : Option Json) : Option (ℚ × ℚ) :=
  let parts := ((geometry.bind (Json.field "geometries")).bind Json.items).getD []
  let coords := visitAll
    ((geometry.bind (Json.field "coordinates")).toList ++ parts.filterMap (Json.field "coordinates"))
  if coords = [] then none
  else some (C.mean (coords.map Prod.fst), C.mean (coords.map Prod.snd))

/-- The road references a record states. -/
def roadRefs (record : Situation) : List String :=
  let roads := (((Json.fieldOf "location" record.fields).bind (Json.field "roads")).bind
    Json.items).getD []
  (roads.filterMap fun road => (road.field "ref").bind Json.string).map C.roadRef

/-! ## The fold -/

/-- A record of a group, as later records are compared with it. -/
structure Member where
  source : String
  point : ℚ × ℚ
  roads : List String

/-- One phenomenon: its surviving record and the records that joined. -/
structure Group where
  record : Situation
  members : List Member
  shape : Option Shape
  /-- The first record was replaced across sources. -/
  replaced : Bool

/-- The groups so far, in order, with the positions of those of a meaning and of a cell. -/
structure Folding where
  out : List Group
  byMeaning : OrderedMap String (List ℕ)
  byCell : OrderedMap String (List ℕ)

/-- Before the first record. -/
def Folding.start : Folding := ⟨[], .empty, .empty⟩

/-- Lists the group at `order` under the cells of its shape. -/
def index (order : ℕ) (shape : Shape) (byCell : OrderedMap String (List ℕ)) :
    OrderedMap String (List ℕ) :=
  (C.cellsOf shape).foldl (fun byCell cell =>
    match byCell.get cell with
    | none => byCell.set cell [order]
    | some groups => if order ∈ groups then byCell else byCell.set cell (groups ++ [order])) byCell

/-- Whether a record may join a group with this member: from another source, and within 75 m, or
within 250 m on a road both name. -/
def joins (record : Situation) (point : ℚ × ℚ) (member : Member) : Bool :=
  let distance := C.haversineMeters member.point point
  decide (member.source ≠ record.provenance.sourceId) &&
    (decide (distance ≤ samePlaceM) ||
      (decide (distance ≤ sameRoadM) && (roadRefs C record).any fun ref => member.roads.contains ref))

/-- The group of the record's meaning that it joins. -/
def survivorOf (s : Folding) (record : Situation) : Option ℕ :=
  match pointOf C record.geometry, C.situationCompatibilityKey record with
  | some point, some meaning =>
    ((s.byMeaning.get meaning).getD []).find? fun i =>
      (s.out[i]?).any fun o => !o.replaced && o.members.all (joins C record point)
  | _, _ => none

/-- The groups that share a cell with a shape, in order. -/
def nearGroups (s : Folding) (shape : Shape) : List ℕ :=
  (((C.cellsOf shape).flatMap fun cell => (s.byCell.get cell).getD []).dedup).insertionSort (· ≤ ·)

/-- The first near group, of other sources, whose measure the record publishes too, and which of
the two records survives. -/
def sameMeasure (s : Folding) (record : Situation) (shape : Shape) : Option (ℕ × Survivor) :=
  (nearGroups C s shape).findSome? fun i =>
    (s.out[i]?).bind fun g =>
      g.shape.bind fun own =>
        if g.members.all fun member => decide (member.source ≠ record.provenance.sourceId) then
          (C.sameMeasureAcrossSources g.record own record shape).map fun survivor => (i, survivor)
        else none

/-- The record as a member of its group, where it has a point. -/
def memberOf (record : Situation) : List Member :=
  match pointOf C record.geometry with
  | some point => [⟨record.provenance.sourceId, point, roadRefs C record⟩]
  | none => []

/-- The group with a record folded into the one it has. -/
def Group.join (g : Group) (record : Situation) : Group :=
  { g with record := merge g.record record, members := g.members ++ memberOf C record }

/-- The group with its record folded into one that covers it. -/
def Group.replace (g : Group) (record : Situation) (shape : Shape) : Group :=
  { record := merge record g.record
    members := g.members ++ memberOf C record
    shape := some shape
    replaced := true }

/-- A group of the record's own. -/
def Folding.open (s : Folding) (record : Situation) : Folding :=
  let shape := shapeOf record
  let order := s.out.length
  { out := s.out ++ [⟨record, memberOf C record, shape, false⟩]
    byMeaning :=
      match C.situationCompatibilityKey record, pointOf C record.geometry with
      | some meaning, some _ =>
        s.byMeaning.set meaning ((s.byMeaning.get meaning).getD [] ++ [order])
      | _, _ => s.byMeaning
    byCell :=
      match shape with
      | some shape => index C order shape s.byCell
      | none => s.byCell }

/-- One record of the page. -/
def Folding.add (s : Folding) (record : Situation) : Folding :=
  match survivorOf C s record with
  | some i => { s with out := s.out.modify i fun g => g.join C record }
  | none =>
    match shapeOf record with
    | none => s.open C record
    | some shape =>
      match sameMeasure C s record shape with
      | none => s.open C record
      | some (i, .a) => { s with out := s.out.modify i fun g => g.join C record }
      | some (i, .b) =>
        { s with
          out := s.out.modify i fun g => g.replace C record shape
          byCell := index C i shape s.byCell }

/-- Folds the records of a page that describe one phenomenon from several sources. -/
def dedupeSituations (records : List Situation) : List Situation :=
  ((records.foldl (Folding.add C) .start).out).map Group.record

end Fold

end OpenConditions.Core

import Mathlib.Data.List.MinMax
import OpenConditions.Core.SituationMeasure
import OpenConditions.Lib.Plane

set_option relaxedAutoImplicit false
set_option autoImplicit false

/-!
# The places of situations

How much of one shape lies along another, and the grid cells near a shape
(`packages/core/src/situation-overlap.ts`, `packages/core/src/situations.ts`).  Distances are
measured on a plane on which a degree of longitude is as long as at one latitude; the cells are as
wide in degrees at every latitude.

The cosine of a latitude and the length of a difference are parameters; whether a distance is
within a bound is decided by its square.

## Main definitions

* `Geodesy` — what distances rest on of the mathematics library.
* `coverage`, `shapesNear`, `cellsOf` — how shapes are compared, and where they are indexed.
* `placed` — the comparison of measures with these.

## Main results

* `boxed_of_shapeOf` — the vertices of a shape lie in its box.
* `exists_close_of_coverage` — shapes of which one lies along the other have points close to each
  other.
* `exists_cell_of_close` — shapes with points close to each other share a cell.
-/

namespace OpenConditions.Core

open Plane (Box)

/-- What distances rest on of the mathematics library. -/
structure Geodesy where
  /-- The cosine of a latitude in degrees. -/
  cos : ℚ → ℚ
  /-- The length of a difference. -/
  hypot : ℚ → ℚ → ℚ

/-! ## Distances -/

/-- The metres of a degree of latitude. -/
def mPerDeg : ℚ := 111320

/-- A point within this many metres of a line lies along it. -/
def coverM : ℚ := 15

/-- About as many points are spread along a shape. -/
def sampleCount : ℚ := 64

/-- A position in metres, a degree of longitude as much shorter as the cosine says. -/
def localM (p : ℚ × ℚ) (cos : ℚ) : ℚ × ℚ := (p.1 * mPerDeg * cos, p.2 * mPerDeg)

/-- The share of a segment at which it comes closest to a point. -/
def closestShare (p a b : ℚ × ℚ) : ℚ :=
  let dx := b.1 - a.1
  let dy := b.2 - a.2
  let len2 := dx * dx + dy * dy
  if len2 = 0 then 0 else max 0 (min 1 (((p.1 - a.1) * dx + (p.2 - a.2) * dy) / len2))

/-- The square of the metres from a point to a segment. -/
def toSegmentM2 (p a b : ℚ × ℚ) (cos : ℚ) : ℚ :=
  let p := localM p cos
  let a := localM a cos
  let b := localM b cos
  let t := closestShare p a b
  (p.1 - (a.1 + t * (b.1 - a.1))) ^ 2 + (p.2 - (a.2 + t * (b.2 - a.2))) ^ 2

/-- A line's consecutive vertex pairs; a point is one pair of itself. -/
def segments : List (ℚ × ℚ) → List ((ℚ × ℚ) × (ℚ × ℚ))
  | [p] => [(p, p)]
  | part => part.zip part.tail

/-- A point lies within some metres of a part. -/
def isWithin (metres : ℚ) (p : ℚ × ℚ) (part : List (ℚ × ℚ)) (cos : ℚ) : Bool :=
  (segments part).any fun s => decide (toSegmentM2 p s.1 s.2 cos ≤ metres ^ 2)

variable (G : Geodesy)

/-- The metres of a segment. -/
def segmentM (s : (ℚ × ℚ) × (ℚ × ℚ)) (cos : ℚ) : ℚ :=
  let a := localM s.1 cos
  let b := localM s.2 cos
  G.hypot (b.1 - a.1) (b.2 - a.2)

/-- The length of lines in metres. -/
def lengthM (parts : List (List (ℚ × ℚ))) (cos : ℚ) : ℚ :=
  ((parts.flatMap segments).map fun s => segmentM G s cos).sum

/-- How many points are spread along a segment, at a step. -/
def samplesOn (step : ℚ) (s : (ℚ × ℚ) × (ℚ × ℚ)) (cos : ℚ) : ℕ :=
  if 0 < step then max 1 ⌈segmentM G s cos / step⌉.toNat else 1

/-- Points spread evenly along a segment, from its start. -/
def spread (s : (ℚ × ℚ) × (ℚ × ℚ)) (n : ℕ) : List (ℚ × ℚ) :=
  (List.range n).map fun (k : ℕ) =>
    (s.1.1 + (s.2.1 - s.1.1) * k / n, s.1.2 + (s.2.2 - s.1.2) * k / n)

/-- Points spread evenly along a shape's lines, with the last vertex of each line. -/
def samplesAlong (parts : List (List (ℚ × ℚ))) (cos : ℚ) : List (ℚ × ℚ) :=
  let step := lengthM G parts cos / sampleCount
  parts.flatMap fun part =>
    (segments part).flatMap (fun s => spread s (samplesOn G step s cos)) ++
      (if 1 < part.length then part.getLast?.toList else [])

/-! ## Shapes -/

/-- The share of the first lines' length that lies along the second. -/
def coverage (a b : List (List (ℚ × ℚ))) (cos : ℚ) : ℚ :=
  let samples := samplesAlong G a cos
  if samples = [] then 0
  else (samples.countP fun p => b.any fun part => isWithin coverM p part cos : ℚ) / samples.length

/-- The bounding box of a shape. -/
def Shape.box (shape : Shape) : Box ℚ :=
  ⟨shape.bbox.1, shape.bbox.2.1, shape.bbox.2.2.1, shape.bbox.2.2.2⟩

/-- The latitude in the middle of a shape. -/
def Shape.middleLatitude (shape : Shape) : ℚ := (shape.box.south + shape.box.north) / 2

/-- The boxes of two shapes come near each other. -/
def shapesNear (a b : Shape) : Bool :=
  let dLat := coverM / mPerDeg
  let dLon := dLat / max (1 / 10) (G.cos a.middleLatitude)
  decide (a.box.west - dLon ≤ b.box.east ∧ b.box.west - dLon ≤ a.box.east ∧
    a.box.south - dLat ≤ b.box.north ∧ b.box.south - dLat ≤ a.box.north)

/-- Grid cells are as many degrees wide. -/
def cellDeg : ℚ := 1 / 100

/-- At most this many cells per record. -/
def maxCells : ℤ := 2500

/-- The margin of a shape's cells, in degrees. -/
def cellMargin : ℚ := 30 / mPerDeg

/-- The number of cells near a shape. -/
def cellCount (shape : Shape) : ℤ :=
  let b := shape.box.grow cellMargin
  (Plane.column cellDeg b.east - Plane.column cellDeg b.west + 1) *
    (Plane.column cellDeg b.north - Plane.column cellDeg b.south + 1)

/-- The text of a cell. -/
def cellText (cell : ℤ × ℤ) : String := toString cell.1 ++ ":" ++ toString cell.2

/-- The grid cells near a shape, none when there are too many. -/
def cellsOf (shape : Shape) : List String :=
  if maxCells < cellCount shape then []
  else (Plane.cells cellDeg (shape.box.grow cellMargin)).map cellText

/-- The comparison of measures by these places. -/
def placed (T : MeasureText) : MeasureText :=
  { T with
    shapesNear := shapesNear G
    cosAt := fun shape => G.cos shape.middleLatitude
    coverage := coverage G
    lengthM := lengthM G
    cellsOf := cellsOf }

/-! ## Vertices lie in the box -/

/-- The vertices of a shape lie in its box. -/
def Shape.Boxed (shape : Shape) : Prop :=
  ∀ part ∈ shape.parts, ∀ p ∈ part, shape.box.Contains p

/-- The box of vertices has them in it. -/
theorem contains_bboxOf {vertices : List (ℚ × ℚ)} {p : ℚ × ℚ} (hp : p ∈ vertices) :
    (bboxOf vertices).1 ≤ p.1 ∧ (bboxOf vertices).2.1 ≤ p.2 ∧
      p.1 ≤ (bboxOf vertices).2.2.1 ∧ p.2 ≤ (bboxOf vertices).2.2.2 := by
  have hmin : ∀ {xs : List ℚ} {x : ℚ}, x ∈ xs → xs.min?.getD 0 ≤ x := fun {xs x} hx => by
    obtain ⟨m, hm⟩ := Option.isSome_iff_exists.mp (List.isSome_min?_of_mem hx)
    rw [hm, Option.getD_some]
    exact (List.min?_eq_some_iff.mp hm).2 x hx
  have hmax : ∀ {xs : List ℚ} {x : ℚ}, x ∈ xs → x ≤ xs.max?.getD 0 := fun {xs x} hx => by
    obtain ⟨m, hm⟩ := Option.isSome_iff_exists.mp (List.isSome_max?_of_mem hx)
    rw [hm, Option.getD_some]
    exact (List.max?_eq_some_iff.mp hm).2 x hx
  exact ⟨hmin (List.mem_map_of_mem hp), hmin (List.mem_map_of_mem hp),
    hmax (List.mem_map_of_mem hp), hmax (List.mem_map_of_mem hp)⟩

/-- The sides of the box of vertices are within what their latitudes are. -/
theorem abs_bboxOf_le {vertices : List (ℚ × ℚ)} {bound : ℚ} (hbound : 0 ≤ bound)
    (h : ∀ p ∈ vertices, |p.2| ≤ bound) :
    |(bboxOf vertices).2.1| ≤ bound ∧ |(bboxOf vertices).2.2.2| ≤ bound := by
  have hmem : ∀ y ∈ vertices.map Prod.snd, |y| ≤ bound := fun y hy => by
    obtain ⟨p, hp, rfl⟩ := List.mem_map.mp hy
    exact h p hp
  constructor
  · show |(vertices.map Prod.snd).min?.getD 0| ≤ bound
    cases hmin : (vertices.map Prod.snd).min? with
    | none => simpa using hbound
    | some y => exact hmem y (List.min?_mem hmin)
  · show |(vertices.map Prod.snd).max?.getD 0| ≤ bound
    cases hmax : (vertices.map Prod.snd).max? with
    | none => simpa using hbound
    | some y => exact hmem y (List.max?_mem hmax)

/-- What is read item by item is of a kind, when each item is read as one. -/
theorem forall_of_mapM {α β : Type} {f : α → Option β} {P : β → Prop} :
    ∀ {xs : List α} {ys : List β}, xs.mapM f = some ys →
      (∀ x y, f x = some y → P y) → ∀ y ∈ ys, P y
  | [], _, h, _, y, hy => by
    rw [List.mapM_nil] at h
    obtain rfl := Option.some.inj h
    cases hy
  | x :: xs, ys, h, hP, y, hy => by
    rw [List.mapM_cons] at h
    obtain ⟨z, hz, h⟩ := Option.bind_eq_some_iff.mp h
    obtain ⟨zs, hzs, h⟩ := Option.bind_eq_some_iff.mp h
    obtain rfl := Option.some.inj h
    rcases List.mem_cons.mp hy with rfl | hy
    · exact hP x _ hz
    · exact forall_of_mapM hzs hP y hy

/-- The vertices of a thinned part are vertices of it. -/
theorem mem_of_mem_thin {stride : ℕ} {part : List (ℚ × ℚ)} {p : ℚ × ℚ} (hp : p ∈ thin stride part) :
    p ∈ part := by
  obtain ⟨v, hv, rfl⟩ := List.mem_map.mp hp
  exact List.fst_mem_of_mem_zipIdx (List.mem_of_mem_filter hv)

/-- A shape has the box of its vertices, which are latitudes. -/
theorem shapeOf_spec {record : Situation} {shape : Shape} (h : shapeOf record = some shape) :
    shape.bbox = bboxOf shape.parts.flatten ∧ ∀ part ∈ shape.parts, ∀ p ∈ part, |p.2| ≤ 90 := by
  simp only [shapeOf, Option.bind_eq_some_iff] at h
  obtain ⟨geometry, -, h⟩ := h
  split_ifs at h with hparts
  rw [Option.bind_eq_some_iff] at h
  obtain ⟨parts, hread, h⟩ := h
  have hvalid : ∀ part ∈ parts, ∀ p ∈ part, |p.2| ≤ 90 :=
    forall_of_mapM hread fun vertices part hpart => forall_of_mapM hpart fun v p hp => by
      obtain ⟨x, y⟩ := v
      cases x with
      | none => cases hp
      | some x =>
        cases y with
        | none => cases hp
        | some y =>
          unfold validVertex at hp
          dsimp only at hp
          split_ifs at hp with hrange
          obtain rfl := Option.some.inj hp
          exact hrange.2
  split_ifs at h
  · obtain rfl := Option.some.inj h
    refine ⟨rfl, fun part hpart p hp => ?_⟩
    obtain ⟨own, hown, rfl⟩ := List.mem_map.mp hpart
    exact hvalid own hown p (mem_of_mem_thin hp)
  · obtain rfl := Option.some.inj h
    exact ⟨rfl, hvalid⟩

/-- **The vertices of a shape lie in its box.** -/
theorem boxed_of_shapeOf {record : Situation} {shape : Shape} (h : shapeOf record = some shape) :
    shape.Boxed := by
  intro part hpart p hp
  obtain ⟨hwest, hsouth, heast, hnorth⟩ :=
    contains_bboxOf (List.mem_flatten.mpr ⟨part, hpart, hp⟩)
  rw [← (shapeOf_spec h).1] at hwest hsouth heast hnorth
  exact ⟨hwest, hsouth, heast, hnorth⟩

/-- The middle of a shape is a latitude. -/
theorem abs_middleLatitude_le {record : Situation} {shape : Shape}
    (h : shapeOf record = some shape) : |shape.middleLatitude| ≤ 90 := by
  obtain ⟨hbox, hvalid⟩ := shapeOf_spec h
  have hvertices : ∀ p ∈ shape.parts.flatten, |p.2| ≤ 90 := fun p hp => by
    obtain ⟨part, hpart, hp⟩ := List.mem_flatten.mp hp
    exact hvalid part hpart p hp
  obtain ⟨hsouth, hnorth⟩ := abs_bboxOf_le (by norm_num) hvertices
  rw [← hbox] at hsouth hnorth
  have hsum : |shape.box.south + shape.box.north| ≤ 90 + 90 :=
    (abs_add_le _ _).trans (add_le_add hsouth hnorth)
  rw [Shape.middleLatitude, abs_div, abs_two]
  linarith

/-- The ends of a part's segments are vertices of it. -/
theorem mem_of_mem_segments {part : List (ℚ × ℚ)} {s : (ℚ × ℚ) × (ℚ × ℚ)} (h : s ∈ segments part) :
    s.1 ∈ part ∧ s.2 ∈ part := by
  unfold segments at h
  split at h
  · obtain rfl := List.mem_singleton.mp h
    exact ⟨List.mem_singleton_self _, List.mem_singleton_self _⟩
  · obtain ⟨hfirst, hsecond⟩ := List.of_mem_zip h
    exact ⟨hfirst, List.mem_of_mem_tail hsecond⟩

/-- Points spread along a segment of a box lie in it. -/
theorem contains_of_mem_spread {box : Box ℚ} {s : (ℚ × ℚ) × (ℚ × ℚ)} {n : ℕ} {p : ℚ × ℚ}
    (hfirst : box.Contains s.1) (hsecond : box.Contains s.2) (hp : p ∈ spread s n) :
    box.Contains p := by
  obtain ⟨k, hk, rfl⟩ := List.mem_map.mp hp
  have hlt : k < n := List.mem_range.mp hk
  have hn : (0 : ℚ) < n := by exact_mod_cast Nat.zero_lt_of_lt hlt
  have hshare : (0 : ℚ) ≤ k / n ∧ (k / n : ℚ) ≤ 1 :=
    ⟨by positivity, (div_le_one hn).mpr (by exact_mod_cast hlt.le)⟩
  have hbetween := hfirst.between hsecond hshare.1 hshare.2
  have hsame : ∀ a b : ℚ, a + (b - a) * k / n = Plane.between a b (k / n) := fun a b => by
    unfold Plane.between
    ring
  rw [hsame, hsame]
  exact hbetween

variable {G}

/-- Points spread along a shape lie in its box. -/
theorem contains_of_mem_samplesAlong {shape : Shape} (h : shape.Boxed) {cos : ℚ} {p : ℚ × ℚ}
    (hp : p ∈ samplesAlong G shape.parts cos) : shape.box.Contains p := by
  obtain ⟨part, hpart, hp⟩ := List.mem_flatMap.mp hp
  rcases List.mem_append.mp hp with hp | hp
  · obtain ⟨s, hs, hp⟩ := List.mem_flatMap.mp hp
    obtain ⟨hfirst, hsecond⟩ := mem_of_mem_segments hs
    exact contains_of_mem_spread (h part hpart _ hfirst) (h part hpart _ hsecond) hp
  · split_ifs at hp
    · exact h part hpart p (List.mem_of_getLast? (Option.mem_toList.mp hp))
    · cases hp

/-! ## Shapes along each other -/

/-- Two points are within some metres in each direction, where a degree of longitude is as much
shorter as the cosine says. -/
def Close (metres cos : ℚ) (p q : ℚ × ℚ) : Prop :=
  |p.1 - q.1| * mPerDeg * |cos| ≤ metres ∧ |p.2 - q.2| * mPerDeg ≤ metres

/-- The closest share of a segment is one. -/
theorem closestShare_mem (p a b : ℚ × ℚ) : 0 ≤ closestShare p a b ∧ closestShare p a b ≤ 1 := by
  unfold closestShare
  dsimp only
  split_ifs
  · exact ⟨le_refl 0, zero_le_one⟩
  · exact ⟨le_max_left _ _, max_le zero_le_one (min_le_left _ _)⟩

/-- A point within some metres of a part of a box is close to a point of the box. -/
theorem exists_close_of_isWithin {box : Box ℚ} {part : List (ℚ × ℚ)} {p : ℚ × ℚ}
    {metres cos : ℚ} (hpart : ∀ q ∈ part, box.Contains q) (hmetres : 0 ≤ metres)
    (h : isWithin metres p part cos = true) : ∃ q, box.Contains q ∧ Close metres cos p q := by
  obtain ⟨s, hs, hwithin⟩ := List.any_eq_true.mp h
  have hle := of_decide_eq_true hwithin
  obtain ⟨hfirst, hsecond⟩ := mem_of_mem_segments hs
  obtain ⟨ht, ht'⟩ := closestShare_mem (localM p cos) (localM s.1 cos) (localM s.2 cos)
  unfold toSegmentM2 at hle
  dsimp only at hle
  generalize closestShare (localM p cos) (localM s.1 cos) (localM s.2 cos) = t at ht ht' hle
  refine ⟨_, (hpart _ hfirst).between (hpart _ hsecond) ht ht', ?_, ?_⟩
  · have hx : (p.1 - Plane.between s.1.1 s.2.1 t) * mPerDeg * cos =
        (localM p cos).1 - ((localM s.1 cos).1 +
          t * ((localM s.2 cos).1 - (localM s.1 cos).1)) := by
      unfold localM Plane.between
      ring
    have hsq : ((p.1 - Plane.between s.1.1 s.2.1 t) * mPerDeg * cos) ^ 2 ≤ metres ^ 2 := by
      rw [hx]
      exact le_trans (le_add_of_nonneg_right (sq_nonneg _)) hle
    have habs := abs_le_of_sq_le_sq hsq hmetres
    rw [abs_mul, abs_mul] at habs
    exact habs
  · have hy : (p.2 - Plane.between s.1.2 s.2.2 t) * mPerDeg =
        (localM p cos).2 - ((localM s.1 cos).2 +
          t * ((localM s.2 cos).2 - (localM s.1 cos).2)) := by
      unfold localM Plane.between
      ring
    have hsq : ((p.2 - Plane.between s.1.2 s.2.2 t) * mPerDeg) ^ 2 ≤ metres ^ 2 := by
      rw [hy]
      exact le_trans (le_add_of_nonneg_left (sq_nonneg _)) hle
    have habs := abs_le_of_sq_le_sq hsq hmetres
    rw [abs_mul] at habs
    exact habs

/-- **Shapes of which one lies along the other** have points close to each other. -/
theorem exists_close_of_coverage {a b : Shape} (ha : a.Boxed) (hb : b.Boxed) {cos : ℚ}
    (h : 0 < coverage G a.parts b.parts cos) :
    ∃ p q, a.box.Contains p ∧ b.box.Contains q ∧ Close coverM cos p q := by
  unfold coverage at h
  dsimp only at h
  split_ifs at h with hnone
  · exact absurd h (lt_irrefl 0)
  · have hcount : 0 < (samplesAlong G a.parts cos).countP fun p =>
        b.parts.any fun part => isWithin coverM p part cos := by
      rcases Nat.eq_zero_or_pos ((samplesAlong G a.parts cos).countP fun p =>
        b.parts.any fun part => isWithin coverM p part cos) with hzero | hpos
      · rw [hzero, Nat.cast_zero, zero_div] at h
        exact absurd h (lt_irrefl 0)
      · exact hpos
    obtain ⟨p, hp, hnear⟩ := List.countP_pos_iff.mp hcount
    obtain ⟨part, hpart, hwithin⟩ := List.any_eq_true.mp hnear
    obtain ⟨q, hq, hclose⟩ := exists_close_of_isWithin (hb part hpart) (by norm_num [coverM]) hwithin
    exact ⟨p, q, contains_of_mem_samplesAlong ha hp, hq, hclose⟩

/-- **Shapes with points close to each other share a cell**, where a degree of longitude is a
quarter as long as one of latitude or longer. -/
theorem exists_cell_of_close {a b : Shape} {p q : ℚ × ℚ} {cos : ℚ} (hp : a.box.Contains p)
    (hq : b.box.Contains q) (hclose : Close coverM cos p q) (hcos : 1 / 4 ≤ |cos|)
    (ha : cellCount a ≤ maxCells) (hb : cellCount b ≤ maxCells) :
    ∃ cell, cell ∈ cellsOf a ∧ cell ∈ cellsOf b := by
  have hmargin : (0 : ℚ) ≤ cellMargin := by norm_num [cellMargin, mPerDeg]
  have hx : |p.1 - q.1| ≤ 2 * cellMargin := by
    have hquarter : |p.1 - q.1| * mPerDeg * (1 / 4) ≤ coverM :=
      le_trans (mul_le_mul_of_nonneg_left hcos
        (mul_nonneg (abs_nonneg _) (by norm_num [mPerDeg]))) hclose.1
    unfold mPerDeg coverM at hquarter
    unfold cellMargin mPerDeg
    linarith
  have hy : |p.2 - q.2| ≤ 2 * cellMargin := by
    have hlat := hclose.2
    unfold mPerDeg coverM at hlat
    unfold cellMargin mPerDeg
    linarith
  obtain ⟨cell, hcella, hcellb⟩ := Plane.exists_mem_cells
    (show (0 : ℚ) < cellDeg by norm_num [cellDeg]) (Box.meets_self hp hmargin)
    (Box.meets_self hq hmargin) (Box.meets_grow hp hq hx hy)
  refine ⟨cellText cell, ?_, ?_⟩
  · rw [cellsOf, if_neg (not_lt.mpr ha)]
    exact List.mem_map_of_mem hcella
  · rw [cellsOf, if_neg (not_lt.mpr hb)]
    exact List.mem_map_of_mem hcellb

/-- **Shapes of one measure share a cell**, where a degree of longitude is a quarter as long as one
of latitude or longer. -/
theorem exists_cell_of_sameMeasure {T : MeasureText} {a b : Situation} {sa sb : Shape}
    {survivor : Survivor} (h : sameMeasureAcrossSources (placed G T) a sa b sb = some survivor)
    (ha : sa.Boxed) (hb : sb.Boxed) (hcos : 1 / 4 ≤ |G.cos sa.middleLatitude|)
    (hcella : cellCount sa ≤ maxCells) (hcellb : cellCount sb ≤ maxCells) :
    ∃ cell, cell ∈ cellsOf sa ∧ cell ∈ cellsOf sb := by
  rcases lt_max_iff.mp (coverage_of_sameMeasure h) with hcover | hcover
  · obtain ⟨p, q, hp, hq, hclose⟩ := exists_close_of_coverage ha hb hcover
    exact exists_cell_of_close hp hq hclose hcos hcella hcellb
  · obtain ⟨q, p, hq, hp, hclose⟩ := exists_close_of_coverage hb ha hcover
    obtain ⟨cell, hcell, hcell'⟩ := exists_cell_of_close hq hp hclose hcos hcellb hcella
    exact ⟨cell, hcell', hcell⟩

/-! ## Points -/

/-- The shape of a point. -/
def pointShape (x y : ℚ) : Shape := ⟨[[(x, y)]], (x, y, x, y)⟩

/-- The middle of a point is its latitude. -/
theorem middleLatitude_pointShape {x y : ℚ} : (pointShape x y).middleLatitude = y := by
  show (y + y) / 2 = y
  ring

/-- The points spread along a point are it, over and over. -/
theorem samplesAlong_point {p : ℚ × ℚ} {cos : ℚ} :
    ∃ n, 0 < n ∧ samplesAlong G [[p]] cos = List.replicate n p := by
  have hspread : ∀ n, spread (p, p) n = List.replicate n p := fun n => by simp [spread]
  refine ⟨samplesOn G (lengthM G [[p]] cos / sampleCount) (p, p) cos, ?_, ?_⟩
  · unfold samplesOn
    split_ifs
    · exact lt_of_lt_of_le zero_lt_one (le_max_left _ _)
    · exact zero_lt_one
  · simp [samplesAlong, segments, hspread]

/-- A point lies along another within the distance, in full. -/
theorem coverage_point {p q : ℚ × ℚ} {cos : ℚ}
    (h : ((p.1 - q.1) * mPerDeg * cos) ^ 2 + ((p.2 - q.2) * mPerDeg) ^ 2 ≤ coverM ^ 2) :
    coverage G [[p]] [[q]] cos = 1 := by
  obtain ⟨n, hn, hsamples⟩ := @samplesAlong_point G p cos
  have hwithin : isWithin coverM p [q] cos = true := by
    have hsquare : toSegmentM2 p q q cos =
        ((p.1 - q.1) * mPerDeg * cos) ^ 2 + ((p.2 - q.2) * mPerDeg) ^ 2 := by
      unfold toSegmentM2 localM
      ring
    rw [isWithin, segments, List.any_cons, hsquare, decide_eq_true h, Bool.true_or]
  have hpos : (n : ℚ) ≠ 0 := by exact_mod_cast hn.ne'
  have hcount : (List.replicate n p).countP (fun p =>
      [[q]].any fun part => isWithin coverM p part cos) = n := by
    rw [List.countP_replicate, if_pos (by rw [List.any_cons, hwithin, Bool.true_or])]
  have hne : List.replicate n p ≠ [] := fun h => hn.ne' (List.replicate_eq_nil_iff p |>.mp h)
  rw [coverage, hsamples, if_neg hne, hcount, List.length_replicate, div_self hpos]

/-- An interval of less than a cell lies in one column or two. -/
theorem column_sub_le {lo hi : ℚ} (h : hi - lo < cellDeg) :
    Plane.column cellDeg hi - Plane.column cellDeg lo ≤ 1 := by
  have hlt : hi / cellDeg < lo / cellDeg + 1 := by
    unfold cellDeg at h ⊢
    linarith
  have hfloor : ⌊hi / cellDeg⌋ ≤ ⌊lo / cellDeg + 1⌋ := Int.floor_le_floor hlt.le
  rw [Int.floor_add_one] at hfloor
  unfold Plane.column
  omega

/-- A point has few cells. -/
theorem cellCount_pointShape {x y : ℚ} : cellCount (pointShape x y) ≤ maxCells := by
  have hcolumns : ∀ z : ℚ, 0 ≤ Plane.column cellDeg (z + cellMargin) -
      Plane.column cellDeg (z - cellMargin) + 1 ∧ Plane.column cellDeg (z + cellMargin) -
        Plane.column cellDeg (z - cellMargin) + 1 ≤ 2 := fun z => by
    have hmargin : (0 : ℚ) ≤ cellMargin := by norm_num [cellMargin, mPerDeg]
    have hle := Plane.column_le_column (show (0 : ℚ) < cellDeg by norm_num [cellDeg])
      (show z - cellMargin ≤ z + cellMargin by linarith)
    have hsub := @column_sub_le (z - cellMargin) (z + cellMargin)
      (by norm_num [cellMargin, mPerDeg, cellDeg])
    omega
  obtain ⟨hx, hx'⟩ := hcolumns x
  obtain ⟨hy, hy'⟩ := hcolumns y
  calc cellCount (pointShape x y) ≤ 2 * 2 := mul_le_mul hx' hy' hy (by norm_num)
    _ ≤ maxCells := by decide

/-- The texts of cells on both sides of a border are different. -/
theorem cellText_ne {a b : ℤ × ℤ} (ha : a.1 < 0) (hb : 0 ≤ b.1) : cellText a ≠ cellText b := by
  obtain ⟨n, hn⟩ := Int.eq_negSucc_of_lt_zero ha
  obtain ⟨m, hm⟩ := Int.eq_ofNat_of_zero_le hb
  have hminus : (cellText a).toList.head? = some '-' := by
    rw [cellText, hn, String.toList_append, String.toList_append]
    show ((Int.repr (Int.negSucc n)).toList ++ _ ++ _).head? = some '-'
    simp [Int.repr]
  have hdigit : ∃ d, (cellText b).toList.head? = some d ∧ d.isDigit = true := by
    obtain ⟨d, ds, hds⟩ := List.exists_cons_of_ne_nil (Nat.toDigits_ne_nil : Nat.toDigits 10 m ≠ [])
    refine ⟨d, ?_, Nat.isDigit_of_mem_toDigits (by decide) (by decide)
      (by rw [hds]; exact List.mem_cons_self : d ∈ Nat.toDigits 10 m)⟩
    rw [cellText, hm, String.toList_append, String.toList_append]
    show ((Nat.repr m).toList ++ _ ++ _).head? = some d
    rw [Nat.repr_eq_ofList_toDigits, String.toList_ofList, hds]
    rfl
  intro h
  obtain ⟨d, hd, hisDigit⟩ := hdigit
  rw [← h, hminus, Option.some.injEq] at hd
  subst hd
  exact absurd hisDigit (by decide)

/-- Points on both sides of a border of cells, farther than the margins from it, share no cell. -/
theorem cellsOf_pointShape_disjoint {x x' y y' : ℚ} (hx : x + cellMargin < 0)
    (hx' : 0 ≤ x' - cellMargin) {cell : String} (h : cell ∈ cellsOf (pointShape x y)) :
    cell ∉ cellsOf (pointShape x' y') := by
  intro h'
  rw [cellsOf, if_neg (not_lt.mpr cellCount_pointShape)] at h h'
  obtain ⟨a, ha, rfl⟩ := List.mem_map.mp h
  obtain ⟨b, hb, hsame⟩ := List.mem_map.mp h'
  refine cellText_ne ?_ ?_ hsame.symm
  · have hcolumn := (Plane.mem_columns.mp (Plane.mem_cells.mp ha).1).2
    refine lt_of_le_of_lt hcolumn (Int.floor_lt.mpr ?_)
    exact div_neg_of_neg_of_pos hx (by norm_num [cellDeg])
  · have hcolumn := (Plane.mem_columns.mp (Plane.mem_cells.mp hb).1).1
    refine le_trans (Int.floor_nonneg.mpr ?_) hcolumn
    exact div_nonneg hx' (by norm_num [cellDeg])

end OpenConditions.Core

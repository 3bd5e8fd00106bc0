import Mathlib.Algebra.Order.Floor.Ring
import Mathlib.Data.Int.Range
import Mathlib.Tactic.Linarith
import Mathlib.Tactic.Ring

set_option relaxedAutoImplicit false
set_option autoImplicit false

/-!
# Boxes on a plane

Boxes, what lies between their points, and the cells of a grid that they lie in: boxes that meet
share a cell.

## Main definitions

* `Plane.columns` — the columns of a grid that an interval lies in.
* `Plane.cells` — the cells of a grid that a box lies in.
* `Plane.Box` — a box, with its place in the order of its sides.
* `Plane.between` — the point at a share of the way from one number to another.

## Main results

* `Plane.exists_mem_cells` — boxes that meet share a cell.
* `Plane.between_mem` — what lies between two numbers of an interval is in it.
-/

namespace Plane

variable {K : Type*} [Field K] [LinearOrder K]

/-! ## Boxes -/

/-- A box by its sides: west, south, east, north. -/
structure Box (K : Type*) where
  west : K
  south : K
  east : K
  north : K
  deriving DecidableEq, Repr

/-- The box with a margin on every side. -/
def Box.grow (b : Box K) (margin : K) : Box K :=
  ⟨b.west - margin, b.south - margin, b.east + margin, b.north + margin⟩

/-- Two boxes have a point in common, if each has one. -/
def Box.Meets (a b : Box K) : Prop :=
  a.west ≤ b.east ∧ b.west ≤ a.east ∧ a.south ≤ b.north ∧ b.south ≤ a.north

/-- A point lies in a box. -/
structure Box.Contains (b : Box K) (p : K × K) : Prop where
  west : b.west ≤ p.1
  south : b.south ≤ p.2
  east : p.1 ≤ b.east
  north : p.2 ≤ b.north

/-- The point at a share of the way from one number to another. -/
def between (a b t : K) : K := a + t * (b - a)

section Order

variable [IsStrictOrderedRing K]

/-- What lies between two numbers of an interval is in it. -/
theorem between_mem {lo hi a b t : K} (ha : lo ≤ a ∧ a ≤ hi) (hb : lo ≤ b ∧ b ≤ hi)
    (ht : 0 ≤ t) (ht' : t ≤ 1) : lo ≤ between a b t ∧ between a b t ≤ hi := by
  have hsplit : between a b t = (1 - t) * a + t * b := by
    unfold between
    ring
  have hrest : 0 ≤ 1 - t := sub_nonneg.mpr ht'
  rw [hsplit]
  constructor
  · calc lo = (1 - t) * lo + t * lo := by ring
      _ ≤ (1 - t) * a + t * b := add_le_add (mul_le_mul_of_nonneg_left ha.1 hrest)
          (mul_le_mul_of_nonneg_left hb.1 ht)
  · calc (1 - t) * a + t * b ≤ (1 - t) * hi + t * hi := add_le_add
          (mul_le_mul_of_nonneg_left ha.2 hrest) (mul_le_mul_of_nonneg_left hb.2 ht)
      _ = hi := by ring

/-- What lies between two points of a box is in it. -/
theorem Box.Contains.between {box : Box K} {p q : K × K} {t : K} (hp : box.Contains p)
    (hq : box.Contains q) (ht : 0 ≤ t) (ht' : t ≤ 1) :
    box.Contains (Plane.between p.1 q.1 t, Plane.between p.2 q.2 t) := by
  obtain ⟨hwest, heast⟩ := between_mem ⟨hp.west, hp.east⟩ ⟨hq.west, hq.east⟩ ht ht'
  obtain ⟨hsouth, hnorth⟩ := between_mem ⟨hp.south, hp.north⟩ ⟨hq.south, hq.north⟩ ht ht'
  exact ⟨hwest, hsouth, heast, hnorth⟩

/-- Boxes with points close to each other meet with a margin of half the distance. -/
theorem Box.meets_grow {a b : Box K} {p q : K × K} {margin : K} (hp : a.Contains p)
    (hq : b.Contains q) (hx : |p.1 - q.1| ≤ 2 * margin) (hy : |p.2 - q.2| ≤ 2 * margin) :
    (a.grow margin).Meets (b.grow margin) := by
  obtain ⟨hx₁, hx₂⟩ := abs_le.mp hx
  obtain ⟨hy₁, hy₂⟩ := abs_le.mp hy
  obtain ⟨hpw, hps, hpe, hpn⟩ := hp
  obtain ⟨hqw, hqs, hqe, hqn⟩ := hq
  refine ⟨?_, ?_, ?_, ?_⟩ <;> unfold Box.grow <;> dsimp only <;> linarith

/-- A box with a point in it has one in common with itself, whatever its margin. -/
theorem Box.meets_self {b : Box K} {p : K × K} {margin : K} (hp : b.Contains p)
    (hmargin : 0 ≤ margin) : (b.grow margin).Meets (b.grow margin) :=
  Box.meets_grow hp hp (by rw [sub_self, abs_zero]; linarith) (by rw [sub_self, abs_zero]; linarith)

end Order

/-! ## Cells -/

variable [FloorRing K]

/-- The column of a grid that a number lies in. -/
def column (width x : K) : ℤ := ⌊x / width⌋

/-- The columns that an interval lies in, in order. -/
def columns (width lo hi : K) : List ℤ := Int.range (column width lo) (column width hi + 1)

/-- The cells that a box lies in, column by column. -/
def cells (width : K) (b : Box K) : List (ℤ × ℤ) :=
  (columns width b.west b.east).flatMap fun x =>
    (columns width b.south b.north).map fun y => (x, y)

/-- A number is of the columns of an interval exactly when it is between the columns of its ends. -/
theorem mem_columns {width lo hi : K} {x : ℤ} :
    x ∈ columns width lo hi ↔ column width lo ≤ x ∧ x ≤ column width hi := by
  rw [columns, Int.mem_range_iff, Int.lt_add_one_iff]

/-- A cell is one of a box exactly when it is in its columns and rows. -/
theorem mem_cells {width : K} {b : Box K} {cell : ℤ × ℤ} :
    cell ∈ cells width b ↔ cell.1 ∈ columns width b.west b.east ∧
      cell.2 ∈ columns width b.south b.north := by
  obtain ⟨x, y⟩ := cell
  simp [cells]

variable [IsStrictOrderedRing K]

/-- Columns are in the order of the numbers in them. -/
theorem column_le_column {width x y : K} (hwidth : 0 < width) (h : x ≤ y) :
    column width x ≤ column width y :=
  Int.floor_le_floor (div_le_div_of_nonneg_right h hwidth.le)

/-- Intervals that meet share a column. -/
theorem exists_mem_columns {width lo hi lo' hi' : K} (hwidth : 0 < width) (h : lo ≤ hi)
    (h' : lo' ≤ hi') (hmeet : lo ≤ hi') (hmeet' : lo' ≤ hi) :
    ∃ x, x ∈ columns width lo hi ∧ x ∈ columns width lo' hi' := by
  refine ⟨max (column width lo) (column width lo'), ?_, ?_⟩
  · exact Iff.mpr mem_columns ⟨le_max_left _ _,
      max_le (column_le_column hwidth h) (column_le_column hwidth hmeet')⟩
  · exact Iff.mpr mem_columns ⟨le_max_right _ _,
      max_le (column_le_column hwidth hmeet) (column_le_column hwidth h')⟩

/-- **Boxes that meet share a cell.** -/
theorem exists_mem_cells {width : K} (hwidth : 0 < width) {a b : Box K} (ha : a.Meets a)
    (hb : b.Meets b) (hmeet : a.Meets b) : ∃ cell, cell ∈ cells width a ∧ cell ∈ cells width b := by
  obtain ⟨x, hxa, hxb⟩ := exists_mem_columns hwidth ha.1 hb.1 hmeet.1 hmeet.2.1
  obtain ⟨y, hya, hyb⟩ := exists_mem_columns hwidth ha.2.2.1 hb.2.2.1 hmeet.2.2.1 hmeet.2.2.2
  exact ⟨(x, y), Iff.mpr mem_cells ⟨hxa, hya⟩, Iff.mpr mem_cells ⟨hxb, hyb⟩⟩

end Plane

import Mathlib.Data.Rat.Floor
import Mathlib.Algebra.Order.Ring.Rat
import Mathlib.Data.Prod.Lex

set_option relaxedAutoImplicit false
set_option autoImplicit false

/-!
# Rationals with infinities and a not-a-number

The values of a number type with `NaN` and signed infinities, computed exactly: every comparison
with `NaN` is false, and an operation without a value gives `NaN`.

## Main definitions

* `ExtRat` — the values.
* `ExtRat.le`, `ExtRat.lt` — comparison.
* `ExtRat.add`, `ExtRat.sub`, `ExtRat.mul`, `ExtRat.div`, `ExtRat.min`, `ExtRat.max` — arithmetic.
* `ExtRat.trunc` — the integer part towards zero, of a finite value.
* `ExtRat.sliceEnd` — the length of a slice up to a position.
* `ExtRat.rank` — the place of a value in a linear order.
-/

/-- A rational, an infinity, or not a number. -/
inductive ExtRat where
  | nan
  | negInf
  | fin (q : ℚ)
  | posInf
  deriving DecidableEq, Repr

namespace ExtRat

instance : Inhabited ExtRat := ⟨nan⟩

instance : NatCast ExtRat := ⟨fun n => fin n⟩

instance : IntCast ExtRat := ⟨fun n => fin n⟩

/-- Whether the value is a rational. -/
def isFinite : ExtRat → Bool
  | fin _ => true
  | _ => false

/-- The greatest integer that numbers hold exactly along with the one after it. -/
def maxSafeInteger : ℕ := 2 ^ 53 - 1

/-- Whether the value is an integer that numbers hold exactly. -/
def isSafeInteger : ExtRat → Bool
  | fin q => decide (q.den = 1 ∧ q.num.natAbs ≤ maxSafeInteger)
  | _ => false

/-- The rational of a finite value, `0` of any other. -/
def toRat : ExtRat → ℚ
  | fin q => q
  | _ => 0

/-- `a ≤ b`; false when either is not a number. -/
def le : ExtRat → ExtRat → Bool
  | nan, _ => false
  | _, nan => false
  | negInf, _ => true
  | _, posInf => true
  | fin a, fin b => decide (a ≤ b)
  | _, _ => false

/-- `a < b`; false when either is not a number. -/
def lt (a b : ExtRat) : Bool := le a b && !le b a

/-- The opposite. -/
def neg : ExtRat → ExtRat
  | nan => nan
  | negInf => posInf
  | fin q => fin (-q)
  | posInf => negInf

/-- The sum; opposite infinities have none. -/
def add : ExtRat → ExtRat → ExtRat
  | nan, _ => nan
  | _, nan => nan
  | negInf, posInf => nan
  | posInf, negInf => nan
  | negInf, _ => negInf
  | _, negInf => negInf
  | posInf, _ => posInf
  | _, posInf => posInf
  | fin a, fin b => fin (a + b)

/-- The difference. -/
def sub (a b : ExtRat) : ExtRat := add a (neg b)

/-- An infinity times a rational; `0` times an infinity has no value. -/
def scaleInf (positive : Bool) (q : ℚ) : ExtRat :=
  if q = 0 then nan else if decide (0 < q) = positive then posInf else negInf

/-- The product. -/
def mul : ExtRat → ExtRat → ExtRat
  | nan, _ => nan
  | _, nan => nan
  | fin a, fin b => fin (a * b)
  | posInf, fin b => scaleInf true b
  | negInf, fin b => scaleInf false b
  | fin a, posInf => scaleInf true a
  | fin a, negInf => scaleInf false a
  | posInf, posInf => posInf
  | negInf, negInf => posInf
  | posInf, negInf => negInf
  | negInf, posInf => negInf

/-- The quotient; `0` by `0`, and an infinity by another, have none. -/
def div : ExtRat → ExtRat → ExtRat
  | nan, _ => nan
  | _, nan => nan
  | fin a, fin b =>
    if b ≠ 0 then fin (a / b) else if a = 0 then nan else if 0 < a then posInf else negInf
  | fin _, _ => fin 0
  | posInf, fin b => if b < 0 then negInf else posInf
  | negInf, fin b => if b < 0 then posInf else negInf
  | _, _ => nan

instance : Add ExtRat := ⟨add⟩

instance : Sub ExtRat := ⟨sub⟩

instance : Mul ExtRat := ⟨mul⟩

instance : Div ExtRat := ⟨div⟩

/-- The smaller of two values; not a number when either is not. -/
def min (a b : ExtRat) : ExtRat :=
  if a = nan ∨ b = nan then nan else if le a b then a else b

/-- The greater of two values; not a number when either is not. -/
def max (a b : ExtRat) : ExtRat :=
  if a = nan ∨ b = nan then nan else if le a b then b else a

/-- The integer part towards zero. -/
def truncRat (q : ℚ) : ℤ := if 0 ≤ q then ⌊q⌋ else ⌈q⌉

/-- The integer part towards zero of a finite value. -/
def trunc : ExtRat → Option ℤ
  | fin q => some (truncRat q)
  | _ => none

/-- How many of `length` items stand before an end position, counted from the back when it is
negative. -/
def sliceEnd (position : ExtRat) (length : ℕ) : ℕ :=
  match position with
  | nan => 0
  | negInf => 0
  | posInf => length
  | fin q => if truncRat q < 0 then (length + truncRat q).toNat else Min.min (truncRat q).toNat length

@[simp] theorem toRat_fin (q : ℚ) : (fin q).toRat = q := rfl

@[simp] theorem isFinite_fin (q : ℚ) : (fin q).isFinite = true := rfl

@[simp] theorem le_fin (a b : ℚ) : le (fin a) (fin b) = decide (a ≤ b) := rfl

@[simp] theorem lt_fin (a b : ℚ) : lt (fin a) (fin b) = decide (a < b) := by
  simp only [lt, le_fin]
  by_cases h : a < b
  · simp [h, h.le, not_le.mpr h]
  · simp [h, not_lt.mp h]

@[simp] theorem add_fin (a b : ℚ) : add (fin a) (fin b) = fin (a + b) := rfl

@[simp] theorem sub_fin (a b : ℚ) : sub (fin a) (fin b) = fin (a - b) := by
  simp [sub, neg, sub_eq_add_neg]

@[simp] theorem mul_fin (a b : ℚ) : mul (fin a) (fin b) = fin (a * b) := rfl

@[simp] theorem min_fin (a b : ℚ) : min (fin a) (fin b) = fin (Min.min a b) := by
  by_cases h : a ≤ b
  · simp [min, h]
  · simp [min, h, (not_le.mp h).le]

/-- A value that counts as finite is a rational. -/
theorem eq_fin_of_isFinite {a : ExtRat} (h : a.isFinite = true) : a = fin a.toRat := by
  cases a <;> simp_all [isFinite]

/-- The integer part towards zero is monotone. -/
theorem truncRat_mono {a b : ℚ} (h : a ≤ b) : truncRat a ≤ truncRat b := by
  unfold truncRat
  split_ifs with ha hb hb
  · exact Int.floor_mono h
  · exact absurd (ha.trans h) hb
  · exact (Int.ceil_le.mpr (by simpa using (not_le.mp ha).le)).trans (Int.floor_nonneg.mpr hb)
  · exact Int.ceil_mono h

/-- The integer part of an integer is itself. -/
@[simp] theorem truncRat_intCast (n : ℤ) : truncRat (n : ℚ) = n := by
  unfold truncRat
  split_ifs <;> simp

/-! ## A linear order -/

/-- The place of a value among the numbers, with what is no number below them. -/
def rank : ExtRat → ℕ ×ₗ ℚ
  | nan => toLex (0, 0)
  | negInf => toLex (1, 0)
  | fin q => toLex (2, q)
  | posInf => toLex (3, 0)

/-- The place determines the value. -/
theorem rank_injective : Function.Injective rank := by
  intro a b h
  cases a <;> cases b <;> simp_all [rank, Prod.ext_iff]

/-- Values that compare are numbers. -/
theorem ne_nan_of_le {a b : ExtRat} (h : le a b = true) : a ≠ nan ∧ b ≠ nan := by
  cases a <;> cases b <;> simp_all [le]

/-- The comparison of two numbers is that of their places. -/
theorem le_eq_rank {a b : ExtRat} (ha : a ≠ nan) (hb : b ≠ nan) :
    le a b = decide (a.rank ≤ b.rank) := by
  cases a <;> cases b <;> simp_all [rank, le, Prod.Lex.le_iff]

/-- The sign of the difference of two numbers compares their places. -/
theorem lt_sub_eq_rank {a b : ExtRat} (ha : a ≠ nan) (hb : b ≠ nan) :
    lt (fin 0) (a.sub b) = decide (b.rank < a.rank) := by
  cases a <;> cases b <;> simp_all [sub, neg, add, lt, le, rank, Prod.Lex.lt_iff]
  rename_i p q
  by_cases h : q < p
  · simp [h, h.le]
  · simp [h, not_lt.mp h]

/-- The greater of two numbers has the greater of their places. -/
theorem rank_max {a b : ExtRat} (ha : a ≠ nan) (hb : b ≠ nan) :
    (max a b).rank = Max.max a.rank b.rank := by
  rw [max, if_neg (by simp [ha, hb]), le_eq_rank ha hb]
  by_cases h : a.rank ≤ b.rank
  · simp [h]
  · simp [h, (not_le.mp h).le]

/-- The smaller of two numbers has the smaller of their places. -/
theorem rank_min {a b : ExtRat} (ha : a ≠ nan) (hb : b ≠ nan) :
    (min a b).rank = Min.min a.rank b.rank := by
  rw [min, if_neg (by simp [ha, hb]), le_eq_rank ha hb]
  by_cases h : a.rank ≤ b.rank
  · simp [h]
  · simp [h, (not_le.mp h).le]

/-- The greater and the smaller of two numbers are numbers. -/
theorem max_ne_nan {a b : ExtRat} (ha : a ≠ nan) (hb : b ≠ nan) : max a b ≠ nan := by
  rw [max, if_neg (by simp [ha, hb])]
  split_ifs
  · exact hb
  · exact ha

theorem min_ne_nan {a b : ExtRat} (ha : a ≠ nan) (hb : b ≠ nan) : min a b ≠ nan := by
  rw [min, if_neg (by simp [ha, hb])]
  split_ifs
  · exact ha
  · exact hb

/-- What is no more than the smaller of two values is no more than the second. -/
theorem le_of_le_min {x a b : ExtRat} (h : le x (min a b) = true) : le x b = true := by
  unfold min at h
  split_ifs at h with hnan hab
  · cases x <;> cases h
  · cases x <;> cases a <;> cases b <;> simp_all [le]
    exact h.trans hab
  · exact h

/-- A slice up to a position that is not negative is no longer than the position. -/
theorem sliceEnd_le {q : ℚ} (h : 0 ≤ q) (length : ℕ) : ((sliceEnd (fin q) length : ℕ) : ℚ) ≤ q := by
  have hfloor : 0 ≤ ⌊q⌋ := Int.floor_nonneg.mpr h
  have hend : ((sliceEnd (fin q) length : ℕ) : ℤ) ≤ ⌊q⌋ := by
    simp only [sliceEnd, truncRat, if_pos h, if_neg (not_lt.mpr hfloor)]
    omega
  calc ((sliceEnd (fin q) length : ℕ) : ℚ) = (((sliceEnd (fin q) length : ℕ) : ℤ) : ℚ) := by simp
    _ ≤ (⌊q⌋ : ℚ) := by exact_mod_cast hend
    _ ≤ q := Int.floor_le q

end ExtRat

import Mathlib.Algebra.Order.Group.Unbundled.Int
import Mathlib.Order.Basic
import Mathlib.Order.Lattice

set_option relaxedAutoImplicit false
set_option autoImplicit false

/-!
# Instants

An instant is a whole number of milliseconds since the epoch, within the range a date can hold:
a hundred million days to either side.

## Main definitions

* `Instant.maxMs` — the farthest instant from the epoch.
* `Instant` — an instant within the range.
-/

/-- The farthest instant from the epoch that a date holds, in milliseconds. -/
def Instant.maxMs : ℤ := 8640000000000000

/-- A whole number of milliseconds since the epoch that a date holds. -/
structure Instant where
  ms : ℤ
  /-- The instant is within the range of a date. -/
  valid : -Instant.maxMs ≤ ms ∧ ms ≤ Instant.maxMs := by decide
  deriving DecidableEq, Repr

namespace Instant

instance : LinearOrder Instant :=
  LinearOrder.lift' Instant.ms fun a b h => by
    cases a
    cases b
    simpa using h

theorem le_def {a b : Instant} : a ≤ b ↔ a.ms ≤ b.ms := Iff.rfl

theorem lt_def {a b : Instant} : a < b ↔ a.ms < b.ms := Iff.rfl

@[simp] theorem ms_max (a b : Instant) : (max a b).ms = max a.ms b.ms := by
  rcases le_total a b with h | h
  · rw [max_eq_right h, max_eq_right (Iff.mp le_def h)]
  · rw [max_eq_left h, max_eq_left (Iff.mp le_def h)]

/-- The epoch. -/
def epoch : Instant := ⟨0, by decide⟩

end Instant

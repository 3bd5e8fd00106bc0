import Mathlib.Algebra.Order.Group.Unbundled.Int
import OpenConditions.Lib.Civil

set_option relaxedAutoImplicit false
set_option autoImplicit false

/-!
# Grids of time

A grid cuts the instants into cells, each from its start to the start of the next; a loop from a
start cell by cell lists the cells up to a limit.

## Main definitions

* `Grid` — the start of the cell of an instant, and the start of the next cell.
* `Grid.windows` — the cells from a start to a limit.
* `Grid.days`, `Grid.months` — the days and the calendar months of a clock that counts in parts of
  a day.

## Main results

* `Grid.mem_windows` — which cells a loop lists.
* `Grid.getLast_windows` — the last cell is the limit's.
* `Grid.exists_window` — the cells from the first to the last leave no gap.
-/

/-- A grid: the start of the cell of an instant, and the start of the cell after one. -/
structure Grid where
  /-- The start of the cell of an instant. -/
  floor : ℤ → ℤ
  /-- The start of the next cell, from the start of one. -/
  next : ℤ → ℤ
  floor_le : ∀ t, floor t ≤ t
  lt_next : ∀ t, t < next (floor t)
  floor_eq : ∀ s t, floor t ≤ s → s < next (floor t) → floor s = floor t
  floor_next : ∀ t, floor (next (floor t)) = next (floor t)

namespace Grid

variable (g : Grid)

/-- The start of a cell starts its own cell. -/
theorem floor_floor (t : ℤ) : g.floor (g.floor t) = g.floor t :=
  g.floor_eq _ _ le_rfl ((g.floor_le t).trans_lt (g.lt_next t))

/-- Cells are in the order of their instants. -/
theorem floor_mono {s t : ℤ} (h : s ≤ t) : g.floor s ≤ g.floor t := by
  by_contra hlt
  rw [not_le] at hlt
  have hsame := g.floor_eq (g.floor s) t hlt.le (((g.floor_le s).trans h).trans_lt (g.lt_next t))
  rw [floor_floor] at hsame
  omega

/-- The next cells are in the order of the instants. -/
theorem next_mono {s t : ℤ} (h : s ≤ t) : g.next (g.floor s) ≤ g.next (g.floor t) := by
  rcases (g.floor_mono h).eq_or_lt with heq | hlt
  · rw [heq]
  · by_contra hgt
    rw [not_le] at hgt
    have hin := g.floor_eq (g.floor t) s hlt.le
      ((g.floor_le t).trans_lt ((g.lt_next t).trans hgt))
    rw [floor_floor] at hin
    omega

/-- The cells from a start to a limit, as a loop lists them. -/
def windows (limit : ℤ) : ℕ → ℤ → List (ℤ × ℤ)
  | 0, _ => []
  | fuel + 1, t => if t ≤ limit then (t, g.next t) :: windows limit fuel (g.next t) else []

variable {g} {limit t a b s : ℤ} {fuel : ℕ}

/-- The next cell starts later. -/
theorem lt_next_of_floor (ht : g.floor t = t) : t < g.next t := by
  have := g.lt_next t
  rwa [ht] at this

/-- The next cell starts itself. -/
theorem floor_next_of_floor (ht : g.floor t = t) : g.floor (g.next t) = g.next t := by
  have := g.floor_next t
  rwa [ht] at this

/-- **The cells that a loop lists** are those that start from its start to its limit. -/
theorem mem_windows (ht : g.floor t = t) (hfuel : limit < t + fuel) :
    (a, b) ∈ g.windows limit fuel t ↔ t ≤ a ∧ a ≤ limit ∧ g.floor a = a ∧ b = g.next a := by
  induction fuel generalizing t with
  | zero =>
    constructor
    · intro h
      cases h
    · rintro ⟨hle, hlimit, -, -⟩
      push_cast at hfuel
      omega
  | succ fuel ih =>
    have hlt := lt_next_of_floor ht
    rw [windows]
    split_ifs with hlimit
    · rw [List.mem_cons, Prod.mk.injEq,
        ih (floor_next_of_floor ht) (by push_cast at hfuel; omega)]
      constructor
      · rintro (⟨rfl, rfl⟩ | ⟨hle, hrest⟩)
        · exact ⟨le_rfl, hlimit, ht, rfl⟩
        · exact ⟨hlt.le.trans hle, hrest⟩
      · rintro ⟨hle, halimit, hafloor, rfl⟩
        rcases hle.eq_or_lt with rfl | hta
        · exact Or.inl ⟨rfl, rfl⟩
        · refine Or.inr ⟨?_, halimit, hafloor, rfl⟩
          -- A cell that starts after this one starts after it ends.
          by_contra hbefore
          have hsame := g.floor_eq a t (by rw [ht]; exact hle) (by rw [ht]; exact not_le.mp hbefore)
          rw [hafloor, ht] at hsame
          omega
    · constructor
      · intro h
        cases h
      · rintro ⟨hle, halimit, -, -⟩
        exact absurd (hle.trans halimit) hlimit

/-- The first cell is the start's. -/
theorem head?_windows (hlimit : t ≤ limit) : (g.windows limit (fuel + 1) t).head? =
    some (t, g.next t) := by
  rw [windows, if_pos hlimit]
  rfl

/-- **The last cell is the limit's.** -/
theorem getLast?_windows (ht : g.floor t = t) (hlimit : t ≤ limit) (hfuel : limit < t + fuel) :
    (g.windows limit fuel t).getLast? = some (g.floor limit, g.next (g.floor limit)) := by
  induction fuel generalizing t with
  | zero => push_cast at hfuel; omega
  | succ fuel ih =>
    have hlt := lt_next_of_floor ht
    rw [windows, if_pos hlimit]
    by_cases hmore : g.next t ≤ limit
    · have hlast := ih (floor_next_of_floor ht) hmore (by push_cast at hfuel; omega)
      rw [List.getLast?_cons, hlast, Option.getD_some]
    · have hend : g.windows limit fuel (g.next t) = [] := by
        cases fuel with
        | zero => rfl
        | succ fuel => rw [windows, if_neg hmore]
      have hfloor : g.floor limit = t := by
        have := g.floor_eq limit t (by rw [ht]; exact hlimit) (by rw [ht]; exact not_le.mp hmore)
        rwa [ht] at this
      rw [hend, hfloor]
      rfl

/-- **The cells leave no gap**: an instant from the start to the end of the limit's cell lies in one
of them. -/
theorem exists_window (ht : g.floor t = t) (hfuel : limit < t + fuel) (hs : t ≤ s)
    (hend : s < g.next (g.floor limit)) :
    ∃ a b, (a, b) ∈ g.windows limit fuel t ∧ a ≤ s ∧ s < b := by
  refine ⟨g.floor s, g.next (g.floor s), (mem_windows ht hfuel).mpr ⟨?_, ?_, g.floor_floor s, rfl⟩,
    g.floor_le s, g.lt_next s⟩
  · rw [← ht]
    exact g.floor_mono hs
  · rcases le_total s limit with hle | hle
    · exact (g.floor_le s).trans hle
    · rw [g.floor_eq s limit ((g.floor_le limit).trans hle) hend]
      exact g.floor_le limit

/-! ## Days -/

/-- The days of a clock that counts parts of a day. -/
def days (parts : ℤ) (hparts : 0 < parts) : Grid where
  floor t := t / parts * parts
  next t := t + parts
  floor_le t := Int.ediv_mul_le t hparts.ne'
  lt_next t := by
    have := Int.lt_ediv_add_one_mul_self t hparts
    rwa [Int.add_mul, Int.one_mul] at this
  floor_eq s t hle hlt := by
    have hdiv : s / parts = t / parts := by
      rw [Int.ediv_eq_iff_of_pos hparts]
      exact ⟨hle, hlt⟩
    rw [hdiv]
  floor_next t := by
    rw [Int.add_ediv_of_dvd_left ⟨_, Int.mul_comm _ _⟩, Int.mul_ediv_cancel _ hparts.ne',
      Int.ediv_self hparts.ne', Int.add_mul, Int.one_mul]

/-! ## Months -/

/-- The first day of the month of a day. -/
def firstOfMonth (d : ℤ) : ℤ := (⟨(Civil.civil d).year, (Civil.civil d).month, 1⟩ : Civil.Date).days

/-- The first day of the month after that of a day. -/
def firstOfNextMonth (d : ℤ) : ℤ :=
  (⟨(Civil.civil d).year, (Civil.civil d).month + 1, 1⟩ : Civil.Date).days

/-- The lengths of months. -/
theorem monthStart_succ : ∀ leap : Bool, ∀ m < 13, 1 ≤ m →
    Civil.monthStart leap (m + 1) = Civil.monthStart leap m + Civil.monthLength leap m ∧
      1 ≤ Civil.monthLength leap m := by
  decide +kernel

/-- The first month starts a year, and the one after the last ends it. -/
theorem monthStart_ends : ∀ leap : Bool,
    Civil.monthStart leap (12 + 1) = Civil.yearLength leap ∧ Civil.monthStart leap 1 = 0 := by
  decide +kernel

/-- A day lies in its month. -/
theorem firstOfMonth_le (d : ℤ) : firstOfMonth d ≤ d ∧ d < firstOfNextMonth d := by
  obtain ⟨hone, htwelve, hday, hlength⟩ := Civil.isValid_civil d
  have hd := Civil.days_civil d
  obtain ⟨hnext, -⟩ := monthStart_succ (Civil.isLeap (Civil.civil d).year) (Civil.civil d).month
    (by omega) hone
  unfold firstOfMonth firstOfNextMonth
  unfold Civil.Date.days at hd ⊢
  dsimp only
  rw [hnext]
  push_cast
  omega

/-- A day of a month has the month's date. -/
theorem civil_of_month {d e : ℤ} (hle : firstOfMonth d ≤ e) (hlt : e < firstOfNextMonth d) :
    (Civil.civil e).year = (Civil.civil d).year ∧ (Civil.civil e).month = (Civil.civil d).month := by
  obtain ⟨hone, htwelve, -, -⟩ := Civil.isValid_civil d
  obtain ⟨hnext, -⟩ := monthStart_succ (Civil.isLeap (Civil.civil d).year) (Civil.civil d).month
    (by omega) hone
  have hvalid : (⟨(Civil.civil d).year, (Civil.civil d).month,
      (e - firstOfMonth d).toNat + 1⟩ : Civil.Date).IsValid := by
    refine ⟨hone, htwelve, by simp, ?_⟩
    dsimp only
    unfold firstOfMonth Civil.Date.days at hle ⊢
    unfold firstOfNextMonth Civil.Date.days at hlt
    dsimp only at hlt hle ⊢
    rw [hnext] at hlt
    push_cast at hlt
    omega
  have hdays : (⟨(Civil.civil d).year, (Civil.civil d).month,
      (e - firstOfMonth d).toNat + 1⟩ : Civil.Date).days = e := by
    have hcast : ((e - firstOfMonth d).toNat : ℤ) = e - firstOfMonth d := by omega
    unfold firstOfMonth at hcast ⊢
    unfold Civil.Date.days at hcast ⊢
    dsimp only at hcast ⊢
    push_cast
    omega
  have hcivil := Civil.civil_days hvalid
  rw [hdays] at hcivil
  rw [hcivil]
  exact ⟨rfl, rfl⟩

/-- The month after that of a month's first day is the one after the month. -/
theorem firstOfNextMonth_firstOfMonth (d : ℤ) :
    firstOfNextMonth (firstOfMonth d) = firstOfNextMonth d := by
  obtain ⟨hle, hlt⟩ := firstOfMonth_le d
  have hdate := civil_of_month (d := d) le_rfl (hle.trans_lt hlt)
  unfold firstOfNextMonth
  rw [hdate.1, hdate.2]

/-- The first day of a month starts its own month. -/
theorem firstOfMonth_firstOfNextMonth (d : ℤ) :
    firstOfMonth (firstOfNextMonth d) = firstOfNextMonth d := by
  obtain ⟨hone, htwelve, -, -⟩ := Civil.isValid_civil d
  rcases htwelve.lt_or_eq with htwelve | htwelve
  · have hvalid : (⟨(Civil.civil d).year, (Civil.civil d).month + 1, 1⟩ : Civil.Date).IsValid :=
      ⟨by simp, by dsimp only; omega, by simp,
        (monthStart_succ _ _ (by simp; omega) (by simp)).2⟩
    have hcivil := Civil.civil_days hvalid
    unfold firstOfMonth firstOfNextMonth
    rw [hcivil]
  · -- After December comes January.
    have hvalid : (⟨(Civil.civil d).year + 1, 1, 1⟩ : Civil.Date).IsValid :=
      ⟨by simp, by simp, by simp, (monthStart_succ _ 1 (by simp) (by simp)).2⟩
    have hdays : firstOfNextMonth d = (⟨(Civil.civil d).year + 1, 1, 1⟩ : Civil.Date).days := by
      unfold firstOfNextMonth Civil.Date.days
      dsimp only
      rw [Civil.yearStart_add_yearLength, htwelve, (monthStart_ends _).1, (monthStart_ends _).2]
      push_cast
      omega
    have hcivil := Civil.civil_days hvalid
    rw [← hdays] at hcivil
    unfold firstOfMonth
    rw [hcivil, hdays]

/-- The calendar months of a clock that counts parts of a day. -/
def months (parts : ℤ) (hparts : 0 < parts) : Grid where
  floor t := firstOfMonth (t / parts) * parts
  next t := firstOfNextMonth (t / parts) * parts
  floor_le t := by
    have hfirst := (firstOfMonth_le (t / parts)).1
    exact (Int.mul_le_mul_of_nonneg_right hfirst hparts.le).trans (Int.ediv_mul_le t hparts.ne')
  lt_next t := by
    rw [Int.mul_ediv_cancel _ hparts.ne', firstOfNextMonth_firstOfMonth]
    have hlast := Int.add_one_le_of_lt (firstOfMonth_le (t / parts)).2
    exact (Int.lt_ediv_add_one_mul_self t hparts).trans_le
      (Int.mul_le_mul_of_nonneg_right hlast hparts.le)
  floor_eq s t hle hlt := by
    rw [Int.mul_ediv_cancel _ hparts.ne', firstOfNextMonth_firstOfMonth] at hlt
    have hdate := civil_of_month (Int.le_ediv_of_mul_le hparts hle)
      (Int.ediv_lt_of_lt_mul hparts hlt)
    unfold firstOfMonth
    rw [hdate.1, hdate.2]
  floor_next t := by
    rw [Int.mul_ediv_cancel _ hparts.ne', Int.mul_ediv_cancel _ hparts.ne',
      firstOfMonth_firstOfNextMonth]

end Grid


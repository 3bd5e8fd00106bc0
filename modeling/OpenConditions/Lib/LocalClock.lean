import Mathlib.Algebra.Order.Group.Unbundled.Int
import Mathlib.Order.Basic
import Mathlib.Order.Lattice

set_option relaxedAutoImplicit false
set_option autoImplicit false

/-!
# Local clocks

A local clock shows the time plus an offset, which changes at transitions.  Where the transitions
are far enough apart, a clock reading is shown at some time or is skipped by one transition; and
correcting a reading twice by the offset that holds at the guess finds a time that shows it.

Times, offsets and readings are whole numbers.

## Main definitions

* `LocalClock.IsTransition`, `LocalClock.Sparse` — where the offset changes, and how often.
* `LocalClock.Shown`, `LocalClock.Skipped` — the readings of a clock, and those a transition skips.
* `LocalClock.correct` — a time that shows a reading, by the offset at a guess.

## Main results

* `LocalClock.shown_or_skipped` — every reading is shown or skipped.
* `LocalClock.reading_correct_twice` — correcting twice finds a reading that is shown.
* `LocalClock.le_correct_twice_iff` — correcting twice leads past the transition exactly when the
  reading, taken as a time, lies past it.
-/

namespace LocalClock

variable (offset : ℤ → ℤ)

/-- The offset changes. -/
def IsTransition (t : ℤ) : Prop := offset t ≠ offset (t - 1)

/-- Two transitions are at least some time apart. -/
def Sparse (apart : ℤ) : Prop :=
  ∀ t t', IsTransition offset t → IsTransition offset t' → t < t' → t + apart ≤ t'

/-- The offset is no greater than a bound, to either side. -/
def Bounded (bound : ℤ) : Prop := ∀ t, -bound ≤ offset t ∧ offset t ≤ bound

/-- What the clock shows. -/
def reading (t : ℤ) : ℤ := t + offset t

/-- The clock shows a reading at some time. -/
def Shown (n : ℤ) : Prop := ∃ t, reading offset t = n

/-- A transition skips a reading: the clock moves past it. -/
def Skipped (t n : ℤ) : Prop := t + offset (t - 1) ≤ n ∧ n < t + offset t

/-- The time that shows a reading where the offset is that at a guess. -/
def correct (n guess : ℤ) : ℤ := n - offset guess

variable {offset} {apart bound n t x y : ℤ}

/-- The offset is the same where no transition lies between. -/
theorem offset_eq_of_no_transition (hxy : x ≤ y)
    (h : ∀ t, x < t → t ≤ y → ¬IsTransition offset t) : offset y = offset x := by
  obtain ⟨k, rfl⟩ := Int.le.dest hxy
  induction k with
  | zero => simp
  | succ k ih =>
    have hstep := h (x + ((k + 1 : ℕ) : ℤ)) (by omega) le_rfl
    have hprev := ih (by omega) fun t hlt hle => h t hlt (by push_cast; omega)
    have hpred : x + ((k + 1 : ℕ) : ℤ) - 1 = x + (k : ℤ) := by push_cast; omega
    unfold IsTransition at hstep
    rw [not_not, hpred] at hstep
    rw [hstep, hprev]

/-- Within the time between transitions the offset is constant, or changes once. -/
theorem offset_window (hsparse : Sparse offset apart) (hapart : y - x ≤ apart) :
    (∀ t, x ≤ t → t ≤ y → offset t = offset x) ∨
      ∃ c, IsTransition offset c ∧ x < c ∧ c ≤ y ∧
        (∀ t, x ≤ t → t < c → offset t = offset (c - 1)) ∧
          ∀ t, c ≤ t → t ≤ y → offset t = offset c := by
  by_cases hnone : ∀ t, x < t → t ≤ y → ¬IsTransition offset t
  · exact Or.inl fun t hx hy =>
      offset_eq_of_no_transition hx fun u hlt hle => hnone u hlt (hle.trans hy)
  · push Not at hnone
    obtain ⟨c, hlt, hle, hc⟩ := hnone
    refine Or.inr ⟨c, hc, hlt, hle, fun t hx ht => ?_, fun t ht hy => ?_⟩
    · refine (offset_eq_of_no_transition (by omega) fun u hu hu' htransition => ?_).symm
      have := hsparse u c htransition hc (by omega)
      omega
    · refine offset_eq_of_no_transition ht fun u hu hu' htransition => ?_
      have := hsparse c u hc htransition hu
      omega

/-- A time that shows a reading is no farther from it than the bound. -/
theorem reading_near (hbound : Bounded offset bound) (h : reading offset t = n) :
    n - bound ≤ t ∧ t ≤ n + bound := by
  have := hbound t
  unfold reading at h
  omega

/-- A transition that skips a reading is no farther from it than the bound. -/
theorem skipped_near (hbound : Bounded offset bound) (h : Skipped offset t n) :
    n - bound < t ∧ t ≤ n + bound ∧ IsTransition offset t := by
  have hat := hbound t
  have hbefore := hbound (t - 1)
  unfold Skipped at h
  unfold IsTransition
  refine ⟨by omega, by omega, ?_⟩
  omega

section Twice

variable (hbound : Bounded offset bound) (hsparse : Sparse offset apart) (hapart : 2 * bound ≤ apart)

include hbound hsparse hapart

/-- **Every reading is shown or skipped.** -/
theorem shown_or_skipped (n : ℤ) : Shown offset n ∨ ∃ t, Skipped offset t n := by
  have hzero : 0 ≤ bound := by
    have := hbound 0
    omega
  rcases offset_window (x := n - bound) (y := n + bound) hsparse (by omega) with
    hconst | ⟨c, -, hlt, hle, hbefore, hafter⟩
  · refine Or.inl ⟨n - offset (n - bound), ?_⟩
    have := hbound (n - bound)
    unfold reading
    rw [hconst (n - offset (n - bound)) (by omega) (by omega)]
    omega
  · have hb := hbound (c - 1)
    have ha := hbound c
    by_cases hearly : n - offset (c - 1) < c
    · refine Or.inl ⟨n - offset (c - 1), ?_⟩
      unfold reading
      rw [hbefore _ (by omega) hearly]
      omega
    · by_cases hlate : c ≤ n - offset c
      · refine Or.inl ⟨n - offset c, ?_⟩
        unfold reading
        rw [hafter _ hlate (by omega)]
        omega
      · exact Or.inr ⟨c, by omega, by omega⟩

/-- **Correcting twice finds a reading that is shown.** -/
theorem reading_correct_twice (hshown : Shown offset n) :
    reading offset (correct offset n (correct offset n n)) = n := by
  obtain ⟨s, hs⟩ := hshown
  have hnear := reading_near hbound hs
  have hn := hbound n
  unfold reading at hs
  rcases offset_window (x := n - bound) (y := n + bound) hsparse (by omega) with
    hconst | ⟨c, -, hlt, hle, hbefore, hafter⟩
  · have hfirst := hconst n (by omega) (by omega)
    have hsecond := hconst (n - offset n) (by omega) (by omega)
    unfold reading correct
    rw [hsecond, hfirst.symm, hsecond, hfirst.symm]
    omega
  · have hb := hbound (c - 1)
    have ha := hbound c
    -- the offset at a time within the window is that before or that after the transition
    have hside : ∀ u, n - bound ≤ u → u ≤ n + bound →
        (u < c ∧ offset u = offset (c - 1)) ∨ (c ≤ u ∧ offset u = offset c) := by
      intro u hu hu'
      rcases lt_or_ge u c with h | h
      · exact Or.inl ⟨h, hbefore u hu h⟩
      · exact Or.inr ⟨h, hafter u h hu'⟩
    have h0 := hside n (by omega) (by omega)
    have h1 := hside (n - offset n) (by omega) (by omega)
    have hg := hbound (n - offset n)
    have h2 := hside (n - offset (n - offset n)) (by omega) (by omega)
    have h3 := hside s hnear.1 hnear.2
    unfold reading correct
    omega

/-- **Correcting a reading twice that a transition skips leads past it exactly when the reading,
taken as a time, lies past it.** -/
theorem le_correct_twice_iff {c : ℤ} (hskipped : Skipped offset c n) :
    c ≤ correct offset n (correct offset n n) ↔ c ≤ n := by
  obtain ⟨hlt, hle, htransition⟩ := skipped_near hbound hskipped
  have hn := hbound n
  have hb := hbound (c - 1)
  have ha := hbound c
  have hbefore : ∀ u, n - bound ≤ u → u < c → offset u = offset (c - 1) := fun u hu huc =>
    (offset_eq_of_no_transition (by omega) fun v hv hv' hvt => by
      have := hsparse v c hvt htransition (by omega)
      omega).symm
  have hafter : ∀ u, c ≤ u → u ≤ n + bound → offset u = offset c := fun u hu hu' =>
    offset_eq_of_no_transition hu fun v hv hv' hvt => by
      have := hsparse c v htransition hvt hv
      omega
  unfold Skipped at hskipped
  unfold correct
  rcases lt_or_ge n c with h | h
  · have h0 := hbefore n (by omega) h
    have h1 := hafter (n - offset n) (by omega) (by omega)
    rw [h1]
    omega
  · have h0 := hafter n h (by omega)
    have h1 := hbefore (n - offset n) (by omega) (by omega)
    rw [h1]
    omega

end Twice

end LocalClock

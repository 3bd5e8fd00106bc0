import Mathlib.Data.Finset.Max
import Mathlib.Data.Rat.Cast.Order

set_option relaxedAutoImplicit false
set_option autoImplicit false

/-!
# Quantiles

The least value of a list that a given share of the list does not exceed.

## Main definitions

* `Quantile.below` — how many values are no greater than a given one.
* `Quantile.IsQuantile` — the least value that a share of the values is no greater than.

## Main results

* `Quantile.exists_isQuantile`, `Quantile.IsQuantile.unique` — there is one.
* `Quantile.IsQuantile.map` — a monotone function takes quantiles to quantiles.
-/

namespace Quantile

variable {κ β : Type*} [LinearOrder κ] [LinearOrder β] {frac : ℚ} {l : List κ}

/-- How many values are no greater than a given one. -/
def below (l : List κ) (x : κ) : ℕ := l.countP fun y => decide (y ≤ x)

/-- A value that a share of the values is no greater than. -/
def Reaches (frac : ℚ) (l : List κ) (x : κ) : Prop := frac * l.length ≤ below l x

/-- The least value of a list that a share of its values is no greater than. -/
structure IsQuantile (frac : ℚ) (l : List κ) (q : κ) : Prop where
  mem : q ∈ l
  reaches : Reaches frac l q
  least : ∀ x ∈ l, Reaches frac l x → q ≤ x

/-- There is only one quantile. -/
theorem IsQuantile.unique {q q' : κ} (h : IsQuantile frac l q) (h' : IsQuantile frac l q') :
    q = q' :=
  le_antisymm (h.least q' h'.mem h'.reaches) (h'.least q h.mem h.reaches)

/-- The greatest value of a list that has one. -/
theorem exists_greatest (hl : l ≠ []) : ∃ top ∈ l, ∀ x ∈ l, x ≤ top := by
  obtain ⟨top, htop, hgreatest⟩ :=
    l.toFinset.exists_max_image id ((List.toFinset_nonempty_iff l).mpr hl)
  exact ⟨top, List.mem_toFinset.mp htop, fun x hx => hgreatest x (List.mem_toFinset.mpr hx)⟩

/-- The least value of a list that has one. -/
theorem exists_least (hl : l ≠ []) : ∃ q ∈ l, ∀ x ∈ l, q ≤ x := by
  obtain ⟨q, hq, hleast⟩ :=
    l.toFinset.exists_min_image id ((List.toFinset_nonempty_iff l).mpr hl)
  exact ⟨q, List.mem_toFinset.mp hq, fun x hx => hleast x (List.mem_toFinset.mpr hx)⟩

instance (frac : ℚ) (l : List κ) (x : κ) : Decidable (Reaches frac l x) := by
  unfold Reaches
  exact inferInstance

/-- A list with values has a quantile for every share of it. -/
theorem exists_isQuantile (hl : l ≠ []) (hfrac : frac ≤ 1) : ∃ q, IsQuantile frac l q := by
  obtain ⟨top, htop, hgreatest⟩ := exists_greatest hl
  have hreaches : Reaches frac l top := by
    have hall : below l top = l.length :=
      List.countP_eq_length.mpr fun y hy => decide_eq_true (hgreatest y hy)
    unfold Reaches
    rw [hall]
    exact mul_le_of_le_one_left (Nat.cast_nonneg _) hfrac
  have hmem : top ∈ l.filter fun x => decide (Reaches frac l x) :=
    List.mem_filter.mpr ⟨htop, decide_eq_true hreaches⟩
  obtain ⟨q, hq, hleast⟩ := exists_least (List.ne_nil_of_mem hmem)
  obtain ⟨hmem, hq⟩ := List.mem_filter.mp hq
  exact ⟨q, hmem, of_decide_eq_true hq, fun x hx hreach =>
    hleast x (List.mem_filter.mpr ⟨hx, decide_eq_true hreach⟩)⟩

/-- **A monotone function takes quantiles to quantiles.** -/
theorem IsQuantile.map {f : κ → β} (hf : Monotone f) {q : κ} (h : IsQuantile frac l q) :
    IsQuantile frac (l.map f) (f q) := by
  refine ⟨List.mem_map_of_mem h.mem, ?_, fun b hb hreach => ?_⟩
  · have hbelow : below l q ≤ below (l.map f) (f q) := by
      unfold below
      rw [List.countP_map]
      exact List.countP_mono_left fun x _ hx => decide_eq_true (hf (of_decide_eq_true hx))
    unfold Reaches
    rw [List.length_map]
    exact h.reaches.trans (Nat.cast_le.mpr hbelow)
  · obtain ⟨x, hx, rfl⟩ := List.mem_map.mp hb
    -- the greatest of the values that are taken no further reaches the share as well
    have hkept : x ∈ l.filter fun y => decide (f y ≤ f x) :=
      List.mem_filter.mpr ⟨hx, decide_eq_true le_rfl⟩
    obtain ⟨top, htop, hgreatest⟩ := exists_greatest (List.ne_nil_of_mem hkept)
    obtain ⟨hmem, hle⟩ := List.mem_filter.mp htop
    have hbelow : below (l.map f) (f x) ≤ below l top := by
      unfold below
      rw [List.countP_map]
      exact List.countP_mono_left fun y hy hle' =>
        decide_eq_true (hgreatest y (List.mem_filter.mpr ⟨hy, hle'⟩))
    have hreach' : Reaches frac l top := by
      unfold Reaches at hreach ⊢
      rw [List.length_map] at hreach
      exact hreach.trans (Nat.cast_le.mpr hbelow)
    exact (hf (h.least top hmem hreach')).trans (of_decide_eq_true hle)

end Quantile

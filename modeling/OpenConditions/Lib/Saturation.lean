import Mathlib.Data.List.Basic

set_option relaxedAutoImplicit false
set_option autoImplicit false

/-!
# Saturation

A state that grows by what the items of a list add to it: pass after pass over the list, until a
pass adds nothing.

## Main definitions

* `Saturation.pass` — one pass over the items.
* `Saturation.saturate` — passes until one adds nothing.

## Main results

* `Saturation.saturate_invariant` — what each addition keeps holds in the end.
* `Saturation.saturate_complete` — where additions are bounded, in the end no item adds anything.
-/

namespace Saturation

variable {σ ι : Type*} (add : σ → ι → Option σ)

/-- One pass over the items, and whether one of them added something. -/
def pass : List ι → σ → σ × Bool
  | [], s => (s, false)
  | i :: is, s =>
    match add s i with
    | none => pass is s
    | some s' => ((pass is s').1, true)

/-- Passes over the items until one adds nothing. -/
def saturate (items : List ι) : ℕ → σ → σ
  | 0, s => s
  | fuel + 1, s =>
    if (pass add items s).2 then saturate items fuel (pass add items s).1 else (pass add items s).1

variable {add} {items : List ι} {s : σ}

/-- What each addition keeps, a pass keeps. -/
theorem pass_invariant {I : σ → Prop} (hadd : ∀ s, ∀ i ∈ items, ∀ s', I s → add s i = some s' → I s')
    (hs : I s) : I (pass add items s).1 := by
  induction items generalizing s with
  | nil => exact hs
  | cons i is ih =>
    have hrest : ∀ s, ∀ j ∈ is, ∀ s', I s → add s j = some s' → I s' := fun s j hj =>
      hadd s j (List.mem_cons_of_mem _ hj)
    cases h : add s i with
    | none =>
      rw [pass, h]
      exact ih hrest hs
    | some s' =>
      rw [pass, h]
      exact ih hrest (hadd s i (List.mem_cons_self ..) s' hs h)

/-- A pass that adds nothing leaves the state, to which no item adds anything. -/
theorem pass_of_not_grew (h : (pass add items s).2 = false) :
    (pass add items s).1 = s ∧ ∀ i ∈ items, add s i = none := by
  induction items with
  | nil => exact ⟨rfl, fun i hi => absurd hi List.not_mem_nil⟩
  | cons i is ih =>
    cases hi : add s i with
    | some s' => simp [pass, hi] at h
    | none =>
      rw [pass, hi] at h ⊢
      obtain ⟨hsame, hrest⟩ := ih h
      refine ⟨hsame, fun j hj => ?_⟩
      rcases List.mem_cons.mp hj with rfl | hj
      · exact hi
      · exact hrest j hj

/-- What each addition lowers, a pass lowers if it adds something, and never raises. -/
theorem pass_measure {μ : σ → ℕ} (hμ : ∀ s, ∀ i ∈ items, ∀ s', add s i = some s' → μ s' < μ s) :
    μ (pass add items s).1 ≤ μ s ∧ ((pass add items s).2 = true → μ (pass add items s).1 < μ s) := by
  induction items generalizing s with
  | nil => exact ⟨Nat.le_refl _, fun h => by cases h⟩
  | cons i is ih =>
    have hrest : ∀ s, ∀ j ∈ is, ∀ s', add s j = some s' → μ s' < μ s := fun s j hj =>
      hμ s j (List.mem_cons_of_mem _ hj)
    cases h : add s i with
    | none =>
      rw [pass, h]
      exact ih hrest
    | some s' =>
      rw [pass, h]
      have hlt : μ (pass add is s').1 < μ s :=
        Nat.lt_of_le_of_lt (ih hrest).1 (hμ s i (List.mem_cons_self ..) s' h)
      exact ⟨Nat.le_of_lt hlt, fun _ => hlt⟩

/-- **What each addition keeps holds in the end.** -/
theorem saturate_invariant {I : σ → Prop}
    (hadd : ∀ s, ∀ i ∈ items, ∀ s', I s → add s i = some s' → I s') (fuel : ℕ) (hs : I s) :
    I (saturate add items fuel s) := by
  induction fuel generalizing s with
  | zero => exact hs
  | succ fuel ih =>
    rw [saturate]
    split_ifs
    · exact ih (pass_invariant hadd hs)
    · exact pass_invariant hadd hs

/-- **In the end no item adds anything**, with more passes than what every addition lowers. -/
theorem saturate_complete {μ : σ → ℕ}
    (hμ : ∀ s, ∀ i ∈ items, ∀ s', add s i = some s' → μ s' < μ s) {fuel : ℕ} (hfuel : μ s < fuel) :
    ∀ i ∈ items, add (saturate add items fuel s) i = none := by
  induction fuel generalizing s with
  | zero => exact absurd hfuel (Nat.not_lt_zero _)
  | succ fuel ih =>
    rw [saturate]
    split_ifs with hgrew
    · exact ih (Nat.lt_of_lt_of_le ((pass_measure hμ).2 hgrew) (Nat.lt_succ_iff.mp hfuel))
    · obtain ⟨hsame, hnone⟩ := pass_of_not_grew (Bool.eq_false_iff.mpr hgrew)
      rw [hsame]
      exact hnone

end Saturation

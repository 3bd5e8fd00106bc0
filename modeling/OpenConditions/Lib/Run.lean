import Mathlib.Data.List.Basic

set_option relaxedAutoImplicit false
set_option autoImplicit false

/-!
# Runs of a partial step function

A transition system is given by a partial step function `step : σ → α → Option σ`: the label
resolves every choice, and `none` says that the step is not enabled.  A run is the list of its
labels.  Everything proved of all reachable states goes through one of the two invariant rules
below.

## Main definitions

* `Transition.run` — the state after a list of steps, when each of them is enabled.
* `Transition.Along` — every step of a run starts in a state in which a given relation allows it.
* `Transition.Reachable` — the states some run from an initial state ends in.

## Main results

* `Transition.run_invariant` — what every step preserves, every run preserves.
* `Transition.run_invariant_of_along` — the same for the steps a relation allows.
* `Transition.run_simulation` — a step-by-step simulation carries over to runs.
-/

namespace Transition

variable {σ τ α β : Type*}

/-- The state after the steps `as` from `s`; `none` when one of them is not enabled. -/
def run (step : σ → α → Option σ) : σ → List α → Option σ
  | s, [] => some s
  | s, a :: as => (step s a).bind fun s' => run step s' as

/-- Every step of the run `as` from `s` starts in a state in which `P` allows it. -/
def Along (step : σ → α → Option σ) (P : σ → α → Prop) : σ → List α → Prop
  | _, [] => True
  | s, a :: as => P s a ∧ ∀ s', step s a = some s' → Along step P s' as

/-- The states that some run from an initial state ends in. -/
def Reachable (init : σ → Prop) (step : σ → α → Option σ) (s : σ) : Prop :=
  ∃ s₀ as, init s₀ ∧ run step s₀ as = some s

section Basic

variable {step : σ → α → Option σ}

/-- The empty run stays where it is. -/
@[simp] theorem run_nil (s : σ) : run step s [] = some s := rfl

/-- A run that ends has taken its first step. -/
theorem run_cons_eq_some {s s' : σ} {a : α} {as : List α} :
    run step s (a :: as) = some s' ↔ ∃ t, step s a = some t ∧ run step t as = some s' := by
  simp [run, Option.bind_eq_some_iff]

/-- A run of a concatenation passes through the state between its two parts. -/
theorem run_append (s : σ) (as bs : List α) :
    run step s (as ++ bs) = (run step s as).bind fun t => run step t bs := by
  induction as generalizing s with
  | nil => rfl
  | cons a as ih =>
    simp only [List.cons_append, run]
    cases step s a with
    | none => rfl
    | some t => exact ih t

/-- A run of a concatenation ends exactly when both of its parts do. -/
theorem run_append_eq_some {s s' : σ} {as bs : List α} :
    run step s (as ++ bs) = some s' ↔ ∃ t, run step s as = some t ∧ run step t bs = some s' := by
  simp [run_append, Option.bind_eq_some_iff]

/-- A guard holds along a concatenation when it holds along both of its parts. -/
theorem along_append {P : σ → α → Prop} {s : σ} {as bs : List α} :
    Along step P s (as ++ bs) ↔
      Along step P s as ∧ ∀ t, run step s as = some t → Along step P t bs := by
  induction as generalizing s with
  | nil => simp [Along]
  | cons a as ih =>
    simp only [List.cons_append, Along, ih]
    constructor
    · rintro ⟨hP, h⟩
      refine ⟨⟨hP, fun s' hs => (h s' hs).1⟩, fun t ht => ?_⟩
      obtain ⟨u, hu, hrun⟩ := Iff.mp run_cons_eq_some ht
      exact (h u hu).2 t hrun
    · rintro ⟨⟨hP, h⟩, ht⟩
      exact ⟨hP, fun s' hs =>
        ⟨h s' hs, fun t hrun => ht t (Iff.mpr run_cons_eq_some ⟨s', hs, hrun⟩)⟩⟩

/-- A weaker guard holds along every run that a stronger one holds along. -/
theorem Along.mono {P Q : σ → α → Prop} (hPQ : ∀ s a, P s a → Q s a) {s : σ} {as : List α}
    (h : Along step P s as) : Along step Q s as := by
  induction as generalizing s with
  | nil => trivial
  | cons a as ih => exact ⟨hPQ s a h.1, fun s' hs => ih (h.2 s' hs)⟩

/-- A step that a guard allows, and steps that it allows after it. -/
theorem Along.cons {P : σ → α → Prop} {s s' : σ} {a : α} {as : List α} (hP : P s a)
    (hstep : step s a = some s') (h : Along step P s' as) : Along step P s (a :: as) := by
  refine ⟨hP, fun t ht => ?_⟩
  rw [hstep] at ht
  exact Option.some.inj ht ▸ h

/-- A guard that allows each of the steps everywhere holds along their run. -/
theorem along_of_forall {P : σ → α → Prop} {as : List α} (h : ∀ a ∈ as, ∀ s, P s a) (s : σ) :
    Along step P s as := by
  induction as generalizing s with
  | nil => trivial
  | cons a as ih =>
    exact ⟨h a List.mem_cons_self s,
      fun s' _ => ih (fun b hb => h b (List.mem_cons_of_mem _ hb)) s'⟩

/-- **Invariants of guarded runs.** What every allowed step preserves, a run of allowed steps
preserves. -/
theorem run_invariant_of_along {P : σ → α → Prop} {I : σ → Prop}
    (hstep : ∀ s a s', I s → P s a → step s a = some s' → I s')
    {s s' : σ} {as : List α} (hs : I s) (hP : Along step P s as)
    (hrun : run step s as = some s') : I s' := by
  induction as generalizing s with
  | nil =>
    cases hrun
    exact hs
  | cons a as ih =>
    obtain ⟨t, ht, hrun⟩ := Iff.mp run_cons_eq_some hrun
    exact ih (hstep s a t hs hP.1 ht) (hP.2 t ht) hrun

/-- **Invariants of runs.** What every step preserves, every run preserves. -/
theorem run_invariant {I : σ → Prop} (hstep : ∀ s a s', I s → step s a = some s' → I s')
    {s s' : σ} {as : List α} (hs : I s) (hrun : run step s as = some s') : I s' := by
  induction as generalizing s with
  | nil =>
    cases hrun
    exact hs
  | cons a as ih =>
    obtain ⟨t, ht, hrun⟩ := Iff.mp run_cons_eq_some hrun
    exact ih (hstep s a t hs ht) hrun

/-- What holds initially and every step preserves, holds in every reachable state. -/
theorem Reachable.invariant {init : σ → Prop} {I : σ → Prop} (hinit : ∀ s, init s → I s)
    (hstep : ∀ s a s', I s → step s a = some s' → I s') {s : σ}
    (h : Reachable init step s) : I s := by
  obtain ⟨s₀, as, h₀, hrun⟩ := h
  exact run_invariant hstep (hinit s₀ h₀) hrun

end Basic

/-- **Simulation.** When every allowed step of one system is matched by the step of the other
under the same label, so is every run of allowed steps. -/
theorem run_simulation {step : σ → α → Option σ} {step' : τ → α → Option τ} {P : σ → α → Prop}
    {R : σ → τ → Prop}
    (hstep : ∀ s t a s', R s t → P s a → step s a = some s' → ∃ t', step' t a = some t' ∧ R s' t')
    {s s' : σ} {t : τ} {as : List α} (hR : R s t) (hP : Along step P s as)
    (hrun : run step s as = some s') : ∃ t', run step' t as = some t' ∧ R s' t' := by
  induction as generalizing s t with
  | nil =>
    cases hrun
    exact ⟨t, rfl, hR⟩
  | cons a as ih =>
    obtain ⟨u, hu, hrun⟩ := Iff.mp run_cons_eq_some hrun
    obtain ⟨v, hv, hR'⟩ := hstep s t a u hR hP.1 hu
    obtain ⟨t', ht', hR''⟩ := ih hR' (hP.2 u hu) hrun
    exact ⟨t', Iff.mpr run_cons_eq_some ⟨v, hv, ht'⟩, hR''⟩

end Transition

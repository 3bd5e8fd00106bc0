import Mathlib.Data.List.Basic
import Mathlib.Order.Lattice

set_option relaxedAutoImplicit false
set_option autoImplicit false

/-!
# Walks and their costs

Walks in a directed graph whose vertices have lengths.  The cost of a walk is the sum of the lengths
of the vertices after its first, added in the order they are visited by an addition that need only
be monotone, so that it may round.

A search labels vertices with the costs of walks it has found and settles one vertex after the other.
What it knows of the settled ones, while each that is settled next is a nearest one, is that no walk
within the cap is shorter than its label.

## Main definitions

* `LengthSum` — an addition of lengths.
* `Walk`, `LengthSum.cost` — walks from a vertex, and what they cost.
* `Settled` — what the labels of a search say.

## Main results

* `Walk.leaves` — a walk from inside a set to outside has a first step outside.
* `Settled.frontier` — a walk to a vertex that is not settled passes a label no greater than its
  cost.
* `Settled.settle` — what the labels say when a nearest vertex is settled.
-/

/-! ## Costs -/

/-- An addition of lengths: adding to a greater cost gives a greater one, and adding a length to a
cost gives no smaller one. -/
structure LengthSum (K : Type*) [LinearOrder K] where
  zero : K
  add : K → K → K
  add_mono : ∀ {a b : K} (l : K), a ≤ b → add a l ≤ add b l
  le_add : ∀ (a : K) {l : K}, zero ≤ l → a ≤ add a l

namespace Walks

variable {V K : Type*} [LinearOrder K] (A : LengthSum K) (len : V → K)

/-- The cost of a walk, from the vertices after its first. -/
def cost (vs : List V) : K := vs.foldl (fun c v => A.add c (len v)) A.zero

/-- One more vertex adds its length. -/
theorem cost_concat (vs : List V) (v : V) :
    cost A len (vs ++ [v]) = A.add (cost A len vs) (len v) := by
  rw [cost, List.foldl_append]
  rfl

/-- A walk costs no less than where it has come from. -/
theorem cost_le_append {vs : List V} (ws : List V) (hlen : ∀ v ∈ ws, A.zero ≤ len v) :
    cost A len vs ≤ cost A len (vs ++ ws) := by
  induction ws generalizing vs with
  | nil => rw [List.append_nil]
  | cons w ws ih =>
    have hrest := @ih (vs ++ [w]) fun v hv => hlen v (List.mem_cons_of_mem _ hv)
    rw [List.append_assoc, List.singleton_append] at hrest
    refine le_trans ?_ hrest
    rw [cost_concat]
    exact A.le_add _ (hlen w List.mem_cons_self)

/-- No walk costs less than none. -/
theorem zero_le_cost (vs : List V) (hlen : ∀ v ∈ vs, A.zero ≤ len v) :
    A.zero ≤ cost A len vs := by
  have h := @cost_le_append V K _ A len [] vs hlen
  rwa [List.nil_append] at h

/-! ## Walks -/

/-- A walk from a vertex, by the vertices after it. -/
inductive Walk (adj : V → V → Prop) (s : V) : V → List V → Prop
  | nil : Walk adj s s []
  | concat {u v : V} {vs : List V} (hwalk : Walk adj s u vs) (hstep : adj u v) :
    Walk adj s v (vs ++ [v])

variable {A len} {adj : V → V → Prop} {s t : V} {vs : List V}

/-- The vertices a walk visits after its first are entered. -/
theorem Walk.entered (h : Walk adj s t vs) : ∀ v ∈ vs, ∃ u, adj u v := by
  induction h with
  | nil => exact fun v hv => absurd hv List.not_mem_nil
  | concat hwalk hstep ih =>
    intro w hw
    rcases List.mem_append.mp hw with hw | hw
    · exact ih w hw
    · rw [List.mem_singleton.mp hw]
      exact ⟨_, hstep⟩

/-- **Leaving a set.** A walk from inside a set to outside has a first step outside. -/
theorem Walk.leaves {S : V → Prop} (h : Walk adj s t vs) (hs : S s) (ht : ¬S t) :
    ∃ x y before after, vs = before ++ y :: after ∧ Walk adj s x before ∧ S x ∧ adj x y ∧ ¬S y := by
  induction h with
  | nil => exact absurd hs ht
  | concat hwalk hstep ih =>
    rename_i u v vs
    by_cases hu : S u
    · exact ⟨u, v, vs, [], rfl, hwalk, hu, hstep, ht⟩
    · obtain ⟨x, y, before, after, rfl, hbefore, hx, hxy, hy⟩ := ih hu
      exact ⟨x, y, before, after ++ [v], by simp, hbefore, hx, hxy, hy⟩

/-! ## Labels -/

variable (A len) in
/-- What the labels of a search from `s` within a cap say: what the settled vertices reach is labelled,
and no walk to a settled vertex is shorter than its label. -/
structure Settled (adj : V → V → Prop) (s : V) (cap : K) (dist : V → Option K) (Done : V → Prop) :
    Prop where
  relaxed : ∀ u d, Done u → dist u = some d → ∀ v, adj u v → ¬Done v → A.add d (len v) ≤ cap →
    ∃ dv, dist v = some dv ∧ dv ≤ A.add d (len v)
  optimal : ∀ v, Done v → ∃ d, dist v = some d ∧
    ∀ vs, Walk adj s v vs → cost A len vs ≤ cap → d ≤ cost A len vs

variable {cap : K} {dist : V → Option K} {Done : V → Prop}

/-- **The frontier.** A walk within the cap from a settled vertex to one that is not settled passes one
that is labelled, not settled, and no farther than the walk is long. -/
theorem Settled.frontier (h : Settled A len adj s cap dist Done) (hlen : ∀ u v, adj u v →
    A.zero ≤ len v) (hs : Done s) (ht : ¬Done t) (hwalk : Walk adj s t vs)
    (hcap : cost A len vs ≤ cap) : ∃ y d, ¬Done y ∧ dist y = some d ∧ d ≤ cost A len vs := by
  obtain ⟨x, y, before, after, rfl, hbefore, hx, hxy, hy⟩ := hwalk.leaves hs ht
  have hle : cost A len (before ++ [y]) ≤ cost A len (before ++ y :: after) := by
    have := @cost_le_append V K _ A len (before ++ [y]) after fun v hv => by
      obtain ⟨u, hu⟩ := hwalk.entered v
        (List.mem_append_right _ (List.mem_cons_of_mem _ hv))
      exact hlen u v hu
    rwa [List.append_assoc, List.singleton_append] at this
  have hbeforeCap : cost A len before ≤ cap := by
    refine le_trans ?_ (le_trans hle hcap)
    rw [cost_concat]
    exact A.le_add _ (hlen x y hxy)
  obtain ⟨d, hd, hopt⟩ := h.optimal x hx
  have hadd : A.add d (len y) ≤ cost A len (before ++ [y]) := by
    rw [cost_concat]
    exact A.add_mono _ (hopt before hbefore hbeforeCap)
  obtain ⟨dy, hdy, hdyle⟩ := h.relaxed x d hx hd y hxy hy (hadd.trans (hle.trans hcap))
  exact ⟨y, dy, hy, hdy, hdyle.trans (hadd.trans hle)⟩

/-- **Settling a nearest vertex.** No walk to it within the cap is shorter than its label. -/
theorem Settled.settle (h : Settled A len adj s cap dist Done) (hlen : ∀ u v, adj u v →
    A.zero ≤ len v) (hs : Done s) (ht : ¬Done t) {best : K}
    (hbest : ∀ y d, ¬Done y → dist y = some d → best ≤ d) (hwalk : Walk adj s t vs)
    (hcap : cost A len vs ≤ cap) : best ≤ cost A len vs := by
  obtain ⟨y, d, hy, hd, hle⟩ := h.frontier hlen hs ht hwalk hcap
  exact (hbest y d hy hd).trans hle

end Walks

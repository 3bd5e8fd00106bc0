import Mathlib.Data.List.Basic

set_option relaxedAutoImplicit false
set_option autoImplicit false

/-!
# Thinning a list

Each item of a list is kept, dropped, or thinned: of the items to be thinned with one key, the
first is kept.  Thinning with coarser keys keeps no other items, as long as what comes before an
item that is still to be thinned stays to be thinned with it.

## Main definitions

* `Thinning.Verdict` — what becomes of an item.
* `Thinning.keepFirst` — the items that are kept.

## Main results

* `Thinning.keepFirst_sublist` — what is kept was there, in its order.
* `Thinning.mem_keepFirst_of_keep`, `Thinning.verdict_ne_drop` — what is to be kept is, and what is
  to be dropped is not.
* `Thinning.keepFirst_subset` — harsher thinning keeps a part of what milder thinning keeps.
-/

namespace Thinning

variable {β κ κ' : Type*} [DecidableEq κ] [DecidableEq κ']

/-- What becomes of an item: it is kept, dropped, or kept when it is the first with its key. -/
inductive Verdict where
  | keep
  | drop
  | thin
  deriving DecidableEq, Repr

/-- The items that are kept, when those of the keys `taken` have been. -/
def keepFirst (verdict : β → Verdict) (key : β → κ) : List κ → List β → List β
  | _, [] => []
  | taken, x :: xs =>
    match verdict x with
    | .keep => x :: keepFirst verdict key taken xs
    | .drop => keepFirst verdict key taken xs
    | .thin =>
      if key x ∈ taken then keepFirst verdict key taken xs
      else x :: keepFirst verdict key (key x :: taken) xs

section One

variable {verdict : β → Verdict} {key : β → κ} {taken : List κ} {x : β} {xs : List β}

theorem keepFirst_cons_keep (h : verdict x = .keep) :
    keepFirst verdict key taken (x :: xs) = x :: keepFirst verdict key taken xs := by
  rw [keepFirst, h]

theorem keepFirst_cons_drop (h : verdict x = .drop) :
    keepFirst verdict key taken (x :: xs) = keepFirst verdict key taken xs := by
  rw [keepFirst, h]

theorem keepFirst_cons_thin_of_mem (h : verdict x = .thin) (hmem : key x ∈ taken) :
    keepFirst verdict key taken (x :: xs) = keepFirst verdict key taken xs := by
  rw [keepFirst, h]
  exact if_pos hmem

theorem keepFirst_cons_thin_of_not_mem (h : verdict x = .thin) (hmem : key x ∉ taken) :
    keepFirst verdict key taken (x :: xs) =
      x :: keepFirst verdict key (key x :: taken) xs := by
  rw [keepFirst, h]
  exact if_neg hmem

/-- What is kept was there, in its order. -/
theorem keepFirst_sublist : (keepFirst verdict key taken xs).Sublist xs := by
  induction xs generalizing taken with
  | nil => exact List.Sublist.refl _
  | cons x xs ih =>
    cases h : verdict x with
    | keep =>
      rw [keepFirst_cons_keep h]
      exact ih.cons_cons x
    | drop =>
      rw [keepFirst_cons_drop h]
      exact ih.cons x
    | thin =>
      by_cases hmem : key x ∈ taken
      · rw [keepFirst_cons_thin_of_mem h hmem]
        exact ih.cons x
      · rw [keepFirst_cons_thin_of_not_mem h hmem]
        exact ih.cons_cons x

/-- What is to be kept is. -/
theorem mem_keepFirst_of_keep (hx : x ∈ xs) (hkeep : verdict x = .keep) :
    x ∈ keepFirst verdict key taken xs := by
  induction xs generalizing taken with
  | nil => cases hx
  | cons y xs ih =>
    rcases List.mem_cons.mp hx with rfl | hx
    · rw [keepFirst_cons_keep hkeep]
      exact List.mem_cons_self
    · cases h : verdict y with
      | keep =>
        rw [keepFirst_cons_keep h]
        exact List.mem_cons_of_mem _ (ih hx)
      | drop =>
        rw [keepFirst_cons_drop h]
        exact ih hx
      | thin =>
        by_cases hmem : key y ∈ taken
        · rw [keepFirst_cons_thin_of_mem h hmem]
          exact ih hx
        · rw [keepFirst_cons_thin_of_not_mem h hmem]
          exact List.mem_cons_of_mem _ (ih hx)

/-- What is dropped is not kept. -/
theorem verdict_ne_drop (hx : x ∈ keepFirst verdict key taken xs) : verdict x ≠ .drop := by
  induction xs generalizing taken with
  | nil => cases hx
  | cons y xs ih =>
    have hhead : ∀ {taken' : List κ}, verdict y ≠ .drop →
        x ∈ y :: keepFirst verdict key taken' xs → verdict x ≠ .drop := by
      intro taken' hy hx
      rcases List.mem_cons.mp hx with rfl | hx
      · exact hy
      · exact ih hx
    cases h : verdict y with
    | keep =>
      rw [keepFirst_cons_keep h] at hx
      exact hhead (by rw [h]; exact Verdict.noConfusion) hx
    | drop =>
      rw [keepFirst_cons_drop h] at hx
      exact ih hx
    | thin =>
      by_cases hmem : key y ∈ taken
      · rw [keepFirst_cons_thin_of_mem h hmem] at hx
        exact ih hx
      · rw [keepFirst_cons_thin_of_not_mem h hmem] at hx
        exact hhead (by rw [h]; exact Verdict.noConfusion) hx

end One

section Harsher

variable {mild harsh : β → Verdict} {fine : β → κ} {coarse : β → κ'}

/-- **Harsher thinning keeps less.** It keeps and thins no more items, by keys that fewer items
have for themselves, and thins an item before one with its key that it thins.  `taken` and `taken'`
are the keys gone already: of an item that is still to be thinned both or only the coarse one is. -/
theorem keepFirst_subset {xs : List β} {taken : List κ} {taken' : List κ'}
    (hkeep : ∀ x ∈ xs, harsh x = .keep → mild x = .keep)
    (hthin : ∀ x ∈ xs, harsh x = .thin → mild x = .thin)
    (hcoarse : ∀ x ∈ xs, ∀ y ∈ xs, fine x = fine y → coarse x = coarse y)
    (horder : xs.Pairwise fun x y =>
      mild x = .thin → harsh y = .thin → fine x = fine y → harsh x = .thin)
    (htaken : ∀ x ∈ xs, harsh x = .thin → fine x ∈ taken → coarse x ∈ taken') :
    keepFirst harsh coarse taken' xs ⊆ keepFirst mild fine taken xs := by
  induction xs generalizing taken taken' with
  | nil => exact List.Subset.refl _
  | cons x xs ih =>
    have hkeep' := fun y hy => hkeep y (List.mem_cons_of_mem x hy)
    have hthin' := fun y hy => hthin y (List.mem_cons_of_mem x hy)
    have hcoarse' := fun y hy z hz =>
      hcoarse y (List.mem_cons_of_mem x hy) z (List.mem_cons_of_mem x hz)
    have htaken' := fun y hy => htaken y (List.mem_cons_of_mem x hy)
    obtain ⟨hfirst, horder'⟩ := List.pairwise_cons.mp horder
    have hcoarsex : ∀ y ∈ xs, fine y = fine x → coarse y = coarse x := fun y hy hyx =>
      hcoarse y (List.mem_cons_of_mem x hy) x List.mem_cons_self hyx
    cases hm : mild x with
    | keep =>
      rw [keepFirst_cons_keep hm]
      have hrest := ih hkeep' hthin' hcoarse' horder' htaken'
      cases hh : harsh x with
      | keep =>
        rw [keepFirst_cons_keep hh]
        exact List.cons_subset_cons x hrest
      | drop =>
        rw [keepFirst_cons_drop hh]
        exact List.subset_cons_of_subset x hrest
      | thin =>
        rw [hthin x List.mem_cons_self hh] at hm
        cases hm
    | drop =>
      rw [keepFirst_cons_drop hm]
      cases hh : harsh x with
      | keep =>
        rw [hkeep x List.mem_cons_self hh] at hm
        cases hm
      | drop =>
        rw [keepFirst_cons_drop hh]
        exact ih hkeep' hthin' hcoarse' horder' htaken'
      | thin =>
        rw [hthin x List.mem_cons_self hh] at hm
        cases hm
    | thin =>
      have hnotkeep : harsh x ≠ .keep := fun hh => by
        rw [hkeep x List.mem_cons_self hh] at hm
        cases hm
      by_cases hmem : fine x ∈ taken
      · rw [keepFirst_cons_thin_of_mem hm hmem]
        have hrest := ih hkeep' hthin' hcoarse' horder' htaken'
        cases hh : harsh x with
        | keep => exact absurd hh hnotkeep
        | drop =>
          rw [keepFirst_cons_drop hh]
          exact hrest
        | thin =>
          rw [keepFirst_cons_thin_of_mem hh (htaken x List.mem_cons_self hh hmem)]
          exact hrest
      · rw [keepFirst_cons_thin_of_not_mem hm hmem]
        cases hh : harsh x with
        | keep => exact absurd hh hnotkeep
        | drop =>
          rw [keepFirst_cons_drop hh]
          refine List.subset_cons_of_subset x
            (ih hkeep' hthin' hcoarse' horder' fun y hy hyt hytaken => ?_)
          rcases List.mem_cons.mp hytaken with hyx | hytaken
          · rw [hfirst y hy hm hyt hyx.symm] at hh
            cases hh
          · exact htaken' y hy hyt hytaken
        | thin =>
          by_cases hmem' : coarse x ∈ taken'
          · rw [keepFirst_cons_thin_of_mem hh hmem']
            refine List.subset_cons_of_subset x
              (ih hkeep' hthin' hcoarse' horder' fun y hy hyt hytaken => ?_)
            rcases List.mem_cons.mp hytaken with hyx | hytaken
            · rw [hcoarsex y hy hyx]
              exact hmem'
            · exact htaken' y hy hyt hytaken
          · rw [keepFirst_cons_thin_of_not_mem hh hmem']
            refine List.cons_subset_cons x
              (ih hkeep' hthin' hcoarse' horder' fun y hy hyt hytaken => ?_)
            rcases List.mem_cons.mp hytaken with hyx | hytaken
            · rw [hcoarsex y hy hyx]
              exact List.mem_cons_self
            · exact List.mem_cons_of_mem _ (htaken' y hy hyt hytaken)

end Harsher

end Thinning

import Mathlib.Data.List.Basic

set_option relaxedAutoImplicit false
set_option autoImplicit false

/-!
# Complete-linkage merging

Classes of a set are merged along a list of pairs, one pair after the other: the classes of the two
become one when every member of one is linked to every member of the other, and stay two
otherwise.  What is told here is the equivalence the merging ends in, whatever data structure
keeps the classes.

## Main definitions

* `CompleteLinkage.merge` — the equivalence after one pair.
* `CompleteLinkage.mergeAll` — the equivalence after a list of pairs.
* `CompleteLinkage.Faithful` — a coarser test of links never merges what the links do not.
* `CompleteLinkage.Conflicts` — of two pairs that would both merge, the first leaves the second out.

## Main results

* `CompleteLinkage.mergeAll_equivalence` — the merging keeps an equivalence.
* `CompleteLinkage.mergeAll_restrict` — inside a set no class leaves, only the pairs and links
  inside it count.
* `CompleteLinkage.mergeAll_maximal` — classes that a pair joins are not completely linked in the
  end.
* `CompleteLinkage.faithful_of_linked` — a coarser test that never goes wrong is faithful.
* `CompleteLinkage.mergeAll_swap` — two neighbouring pairs without a conflict can be swapped.
-/

namespace CompleteLinkage

variable {α : Type*} (linked : α → α → Prop)

/-- Every member of one class is linked to every member of the other. -/
def Complete (R : α → α → Prop) (p : α × α) : Prop := ∀ x y, R x p.1 → R y p.2 → linked x y

/-- The classes after a pair: its two become one if they are completely linked. -/
def merge (R : α → α → Prop) (p : α × α) (x y : α) : Prop :=
  R x y ∨ (Complete linked R p ∧ ((R x p.1 ∧ R y p.2) ∨ (R x p.2 ∧ R y p.1)))

/-- The classes after a list of pairs. -/
def mergeAll (R : α → α → Prop) (ps : List (α × α)) : α → α → Prop := ps.foldl (merge linked) R

variable {linked} {linked' : α → α → Prop} {R R' : α → α → Prop} {p : α × α} {ps : List (α × α)}
  {x y : α}

/-- Merging only adds to the classes. -/
theorem merge_of_rel (h : R x y) : merge linked R p x y := Or.inl h

/-- Merging along a list only adds to the classes. -/
theorem mergeAll_of_rel (h : R x y) : mergeAll linked R ps x y := by
  induction ps generalizing R with
  | nil => exact h
  | cons p ps ih => exact ih (merge_of_rel h)

/-- One pair keeps an equivalence. -/
theorem merge_equivalence (hR : Equivalence R) : Equivalence (merge linked R p) where
  refl x := Or.inl (hR.refl x)
  symm := by
    rintro x y (h | ⟨hcomplete, ⟨hx, hy⟩ | ⟨hx, hy⟩⟩)
    · exact Or.inl (hR.symm h)
    · exact Or.inr ⟨hcomplete, Or.inr ⟨hy, hx⟩⟩
    · exact Or.inr ⟨hcomplete, Or.inl ⟨hy, hx⟩⟩
  trans := by
    rintro x y z (hxy | ⟨hcomplete, hxy⟩) (hyz | ⟨hcomplete', hyz⟩)
    · exact Or.inl (hR.trans hxy hyz)
    · rcases hyz with ⟨hy, hz⟩ | ⟨hy, hz⟩
      · exact Or.inr ⟨hcomplete', Or.inl ⟨hR.trans hxy hy, hz⟩⟩
      · exact Or.inr ⟨hcomplete', Or.inr ⟨hR.trans hxy hy, hz⟩⟩
    · rcases hxy with ⟨hx, hy⟩ | ⟨hx, hy⟩
      · exact Or.inr ⟨hcomplete, Or.inl ⟨hx, hR.trans (hR.symm hyz) hy⟩⟩
      · exact Or.inr ⟨hcomplete, Or.inr ⟨hx, hR.trans (hR.symm hyz) hy⟩⟩
    · rcases hxy with ⟨hx, hy⟩ | ⟨hx, hy⟩ <;> rcases hyz with ⟨hy', hz⟩ | ⟨hy', hz⟩
      · -- `y` is in both classes: they were one.
        exact Or.inl (hR.trans hx (hR.trans (hR.symm hy') (hR.trans hy (hR.symm hz))))
      · exact Or.inl (hR.trans hx (hR.symm hz))
      · exact Or.inl (hR.trans hx (hR.symm hz))
      · exact Or.inl (hR.trans hx (hR.trans (hR.symm hy') (hR.trans hy (hR.symm hz))))

/-- **The classes are those of an equivalence.** -/
theorem mergeAll_equivalence (hR : Equivalence R) : Equivalence (mergeAll linked R ps) := by
  induction ps generalizing R with
  | nil => exact hR
  | cons p ps ih => exact ih (merge_equivalence hR)

section Restrict

variable {s : α → Prop}

/-- Equivalences that agree from inside a set agree towards it. -/
theorem rel_congr_left (hR : Equivalence R) (hR' : Equivalence R')
    (hagree : ∀ x, s x → ∀ y, R x y ↔ R' x y) {q : α} (hq : s q) (x : α) : R x q ↔ R' x q :=
  ⟨fun h => hR'.symm ((hagree q hq x).mp (hR.symm h)),
    fun h => hR.symm ((hagree q hq x).mpr (hR'.symm h))⟩

/-- Two classes inside a set are completely linked when they are by the links inside it. -/
theorem complete_congr (hR : Equivalence R) (hR' : Equivalence R')
    (hsat : ∀ x, s x → ∀ y, R x y → s y) (hagree : ∀ x, s x → ∀ y, R x y ↔ R' x y)
    (hlinked : ∀ x, s x → ∀ y, s y → (linked x y ↔ linked' x y)) (h₁ : s p.1) (h₂ : s p.2) :
    Complete linked R p ↔ Complete linked' R' p := by
  have hmem : ∀ q, s q → ∀ x, R x q → s x := fun q hq x h => hsat q hq x (hR.symm h)
  constructor
  · intro h x y hx hy
    have hx' := (rel_congr_left hR hR' hagree h₁ x).mpr hx
    have hy' := (rel_congr_left hR hR' hagree h₂ y).mpr hy
    exact (hlinked x (hmem _ h₁ x hx') y (hmem _ h₂ y hy')).mp (h x y hx' hy')
  · intro h x y hx hy
    have hx' := (rel_congr_left hR hR' hagree h₁ x).mp hx
    have hy' := (rel_congr_left hR hR' hagree h₂ y).mp hy
    exact (hlinked x (hmem _ h₁ x hx) y (hmem _ h₂ y hy)).mpr (h x y hx' hy')

/-- A pair inside a set merges the same classes of it under the links inside it. -/
theorem merge_congr (hR : Equivalence R) (hR' : Equivalence R')
    (hsat : ∀ x, s x → ∀ y, R x y → s y) (hagree : ∀ x, s x → ∀ y, R x y ↔ R' x y)
    (hlinked : ∀ x, s x → ∀ y, s y → (linked x y ↔ linked' x y)) (h₁ : s p.1) (h₂ : s p.2) :
    ∀ x, s x → ∀ y, merge linked R p x y ↔ merge linked' R' p x y := by
  intro x hx y
  have h₁' := rel_congr_left hR hR' hagree h₁
  have h₂' := rel_congr_left hR hR' hagree h₂
  unfold merge
  rw [complete_congr hR hR' hsat hagree hlinked h₁ h₂, hagree x hx y, h₁' x, h₁' y, h₂' x, h₂' y]

/-- A pair that is not inside a set no class leaves adds nothing to the classes in it. -/
theorem merge_outside (hR : Equivalence R) (hsat : ∀ x, s x → ∀ y, merge linked R p x y → s y)
    (hp : ¬(s p.1 ∧ s p.2)) : ∀ x, s x → ∀ y, merge linked R p x y ↔ R x y := by
  intro x hx y
  refine ⟨?_, merge_of_rel⟩
  rintro (h | ⟨hcomplete, hends⟩)
  · exact h
  · have hjoin : merge linked R p p.1 p.2 :=
      Or.inr ⟨hcomplete, Or.inl ⟨hR.refl _, hR.refl _⟩⟩
    have hjoin' : merge linked R p p.2 p.1 := (merge_equivalence hR).symm hjoin
    rcases hends with ⟨hx', -⟩ | ⟨hx', -⟩
    · have h₁ := hsat x hx p.1 (merge_of_rel hx')
      exact absurd ⟨h₁, hsat _ h₁ _ hjoin⟩ hp
    · have h₂ := hsat x hx p.2 (merge_of_rel hx')
      exact absurd ⟨hsat _ h₂ _ hjoin', h₂⟩ hp

/-- **Only what is inside counts.** Inside a set that no class leaves in the end, the classes are
those of the pairs inside it, merged under the links inside it: a pair that leads out never merged
anything.

**Proof sketch.** Induction on the pairs.  The classes only grow, so none of them leaves the set at
any time; a pair inside merges the same classes on both sides, and one that is not merges none of
the set's. -/
theorem mergeAll_restrict [DecidablePred s] (hR : Equivalence R) (hR' : Equivalence R')
    (hsat : ∀ x, s x → ∀ y, mergeAll linked R ps x y → s y)
    (hagree : ∀ x, s x → ∀ y, R x y ↔ R' x y)
    (hlinked : ∀ x, s x → ∀ y, s y → (linked x y ↔ linked' x y)) :
    ∀ x, s x → ∀ y, mergeAll linked R ps x y ↔
      mergeAll linked' R' (ps.filter fun p => decide (s p.1) && decide (s p.2)) x y := by
  induction ps generalizing R R' with
  | nil => exact hagree
  | cons p ps ih =>
    have hsat₁ : ∀ x, s x → ∀ y, merge linked R p x y → s y :=
      fun x hx y h => hsat x hx y (mergeAll_of_rel (R := merge linked R p) h)
    have hsat₀ : ∀ x, s x → ∀ y, R x y → s y := fun x hx y h => hsat₁ x hx y (merge_of_rel h)
    by_cases hp : s p.1 ∧ s p.2
    · rw [List.filter_cons_of_pos (by simp [hp])]
      exact ih (merge_equivalence hR) (merge_equivalence hR') hsat
        (merge_congr hR hR' hsat₀ hagree hlinked hp.1 hp.2)
    · rw [List.filter_cons_of_neg (by simpa using hp)]
      refine ih (merge_equivalence hR) hR' hsat fun x hx y => ?_
      rw [merge_outside hR hsat₁ hp x hx y, hagree x hx y]

end Restrict

/-- Members of one class that were not in one before are linked, when the links are symmetric. -/
theorem linked_of_mergeAll (hR : Equivalence R) (hsymm : ∀ x y, linked x y → linked y x)
    (h : mergeAll linked R ps x y) : R x y ∨ linked x y := by
  induction ps generalizing R with
  | nil => exact Or.inl h
  | cons p ps ih =>
    rcases ih (merge_equivalence hR) h with (hxy | ⟨hcomplete, ⟨hx, hy⟩ | ⟨hx, hy⟩⟩) | hlinked
    · exact Or.inl hxy
    · exact Or.inr (hcomplete x y hx hy)
    · exact Or.inr (hsymm _ _ (hcomplete y x hy hx))
    · exact Or.inr hlinked

/-- Classes that merging along more pairs completely links were so before. -/
theorem complete_of_mergeAll (h : Complete linked (mergeAll linked R ps) p) :
    Complete linked R p := fun x y hx hy => h x y (mergeAll_of_rel hx) (mergeAll_of_rel hy)

/-- A pair of completely linked classes makes them one. -/
theorem merge_ends (hR : Equivalence R) (h : Complete linked R p) : merge linked R p p.1 p.2 :=
  Or.inr ⟨h, Or.inl ⟨hR.refl _, hR.refl _⟩⟩

/-- **The classes are maximal.** Two classes in the end that a pair leads between are not completely
linked: they would have been when the pair's turn came. -/
theorem mergeAll_maximal (hR : Equivalence R) (hp : p ∈ ps)
    (h : Complete linked (mergeAll linked R ps) p) : mergeAll linked R ps p.1 p.2 := by
  induction ps generalizing R with
  | nil => cases hp
  | cons q ps ih =>
    rcases List.mem_cons.mp hp with rfl | hp
    · have hbefore : Complete linked R p := @complete_of_mergeAll _ _ _ p (p :: ps) h
      exact mergeAll_of_rel (R := merge linked R p) (merge_ends hR hbefore)
    · exact ih (merge_equivalence hR) hp h

/-- The classes after a pair are the least that hold those before and join its two. -/
theorem merge_le {S : α → α → Prop} (hS : Equivalence S) (hle : ∀ x y, R x y → S x y)
    (hp : Complete linked R p → S p.1 p.2) (h : merge linked R p x y) : S x y := by
  rcases h with h | ⟨hcomplete, ⟨hx, hy⟩ | ⟨hx, hy⟩⟩
  · exact hle x y h
  · exact hS.trans (hle _ _ hx) (hS.trans (hp hcomplete) (hS.symm (hle _ _ hy)))
  · exact hS.trans (hle _ _ hx) (hS.trans (hS.symm (hp hcomplete)) (hS.symm (hle _ _ hy)))

/-- A pair of one class merges nothing. -/
theorem merge_eq_of_rel (hR : Equivalence R) (h : R p.1 p.2) : merge linked R p = R :=
  funext fun _ => funext fun _ => propext
    ⟨merge_le hR (fun _ _ h => h) fun _ => h, merge_of_rel⟩

/-- A pair of classes that are not completely linked merges nothing. -/
theorem merge_eq_of_not_complete (h : ¬Complete linked R p) : merge linked R p = R :=
  funext fun _ => funext fun _ => propext
    ⟨fun hxy => hxy.resolve_right fun hand => h hand.1, merge_of_rel⟩

/-! ## A coarser test of links -/

section Faithful

variable (linked linked') in
/-- Along the pairs, two classes that `linked` takes for completely linked are so by `linked'`,
which the classes are merged by. -/
def Faithful : (α → α → Prop) → List (α × α) → Prop
  | _, [] => True
  | R, p :: ps =>
    (¬R p.1 p.2 → Complete linked R p → Complete linked' R p) ∧ Faithful (merge linked' R p) ps

/-- Where a coarser test of links is right about a pair, it merges what the links do. -/
theorem merge_eq_of_faithful (hR : Equivalence R) (hsub : ∀ x y, linked' x y → linked x y)
    (h : ¬R p.1 p.2 → Complete linked R p → Complete linked' R p) :
    merge linked R p = merge linked' R p := by
  by_cases hp : R p.1 p.2
  · rw [merge_eq_of_rel hR hp, merge_eq_of_rel hR hp]
  · have hiff : Complete linked R p ↔ Complete linked' R p :=
      ⟨h hp, fun hall x y hx hy => hsub x y (hall x y hx hy)⟩
    funext x y
    simp only [merge, hiff]

/-- **A faithful test merges what the links do.** -/
theorem mergeAll_eq_of_faithful (hR : Equivalence R) (hsub : ∀ x y, linked' x y → linked x y)
    (h : Faithful linked linked' R ps) : mergeAll linked R ps = mergeAll linked' R ps := by
  induction ps generalizing R with
  | nil => rfl
  | cons p ps ih =>
    have hmerge := merge_eq_of_faithful hR hsub h.1
    have hnext := ih (merge_equivalence hR) h.2
    calc mergeAll linked R (p :: ps) = mergeAll linked (merge linked' R p) ps := by
          rw [← hmerge]
          rfl
      _ = mergeAll linked' (merge linked' R p) ps := hnext

/-- **A test that never goes wrong is faithful**: where the members of every class in the end that a
pair leads to are linked, no two classes were merged that are not completely linked. -/
theorem faithful_of_linked (hR : Equivalence R) (hsub : ∀ x y, linked' x y → linked x y)
    (h : ∀ p ∈ ps, ∀ x y, mergeAll linked R ps x p.1 → mergeAll linked R ps x y →
      R x y ∨ linked' x y) : Faithful linked linked' R ps := by
  induction ps generalizing R with
  | nil => trivial
  | cons p ps ih =>
    have hfirst : ¬R p.1 p.2 → Complete linked R p → Complete linked' R p := by
      intro hnot hcomplete x y hx hy
      have hE : Equivalence (mergeAll linked R (p :: ps)) := mergeAll_equivalence hR
      have hx' : mergeAll linked R (p :: ps) x p.1 := mergeAll_of_rel hx
      have hy' : mergeAll linked R (p :: ps) y p.2 := mergeAll_of_rel hy
      have hends : mergeAll linked R (p :: ps) p.1 p.2 :=
        mergeAll_of_rel (R := merge linked R p) (merge_ends hR hcomplete)
      refine (h p (List.mem_cons_self ..) x y hx' (hE.trans hx' (hE.trans hends
        (hE.symm hy')))).resolve_left fun hxy => hnot ?_
      exact hR.trans (hR.symm hx) (hR.trans hxy hy)
    refine ⟨hfirst, ?_⟩
    rw [← merge_eq_of_faithful hR hsub hfirst]
    refine ih (merge_equivalence hR) fun q hq x y hx hxy => ?_
    exact (h q (List.mem_cons_of_mem _ hq) x y hx hxy).imp_left merge_of_rel

/-- A test that only takes linked members for linked is faithful. -/
theorem faithful_of_imp (h : ∀ x y, linked x y → linked' x y) : Faithful linked linked' R ps := by
  induction ps generalizing R with
  | nil => trivial
  | cons p ps ih => exact ⟨fun _ hall x y hx hy => h x y (hall x y hx hy), ih⟩

end Faithful

/-! ## The order of the pairs -/

section Swap

variable {q : α × α}

variable (linked) in
/-- Both pairs would merge their classes, but the first leaves the second out. -/
def Conflicts (R : α → α → Prop) (p q : α × α) : Prop :=
  Complete linked R p ∧ Complete linked R q ∧ ¬merge linked R p q.1 q.2 ∧
    ¬Complete linked (merge linked R p) q

/-- Without a conflict, what the second pair merges it merges after the first as well. -/
theorem ends_of_not_conflicts (hR : Equivalence R) (h : ¬Conflicts linked R p q)
    (hp : Complete linked R p) (hq : Complete linked R q) :
    merge linked (merge linked R p) q q.1 q.2 := by
  by_cases hrel : merge linked R p q.1 q.2
  · exact merge_of_rel hrel
  · refine merge_ends (merge_equivalence hR) ?_
    by_contra hnot
    exact h ⟨hp, hq, hrel, hnot⟩

/-- A pair that merges nothing merges nothing after another either. -/
theorem merge_merge_of_not_complete (hnot : ¬Complete linked R p) :
    merge linked (merge linked R q) p = merge linked R q :=
  merge_eq_of_not_complete fun h => hnot fun x y hx hy =>
    h x y (merge_of_rel hx) (merge_of_rel hy)

/-- **Two pairs without a conflict can be swapped.** -/
theorem merge_comm (hR : Equivalence R) (hpq : ¬Conflicts linked R p q)
    (hqp : ¬Conflicts linked R q p) :
    merge linked (merge linked R p) q = merge linked (merge linked R q) p := by
  by_cases hp : Complete linked R p
  · by_cases hq : Complete linked R q
    · -- Each side is the least equivalence that joins both pairs.
      have hE : ∀ a b : α × α, Equivalence (merge linked (merge linked R a) b) := fun a b =>
        merge_equivalence (merge_equivalence hR)
      have hle : ∀ a b : α × α, ¬Conflicts linked R b a → Complete linked R a →
          Complete linked R b → ∀ x y, merge linked (merge linked R a) b x y →
          merge linked (merge linked R b) a x y := by
        intro a b hba ha hb x y h
        refine merge_le (hE b a) (fun u v huv => ?_) (fun _ => ?_) h
        · refine merge_le (hE b a) (fun _ _ h => merge_of_rel (merge_of_rel h)) (fun _ => ?_) huv
          exact ends_of_not_conflicts hR hba hb ha
        · exact merge_of_rel (merge_ends hR hb)
      funext x y
      exact propext ⟨hle p q hqp hp hq x y, hle q p hpq hq hp x y⟩
    · rw [merge_merge_of_not_complete hq, merge_eq_of_not_complete hq]
  · rw [merge_merge_of_not_complete hp, merge_eq_of_not_complete hp]

/-- Two neighbouring pairs without a conflict can be swapped in a list. -/
theorem mergeAll_swap {before after : List (α × α)} (hR : Equivalence R)
    (hpq : ¬Conflicts linked (mergeAll linked R before) p q)
    (hqp : ¬Conflicts linked (mergeAll linked R before) q p) :
    mergeAll linked R (before ++ p :: q :: after) =
      mergeAll linked R (before ++ q :: p :: after) := by
  have hcomm := merge_comm (mergeAll_equivalence hR) hpq hqp
  simp only [mergeAll, List.foldl_append, List.foldl_cons] at hcomm ⊢
  rw [hcomm]

/-- **Two neighbouring pairs with a conflict cannot be swapped**: what the second joins when it
comes first, it never does when it comes second. -/
theorem not_mergeAll_of_conflicts {before : List (α × α)} (after : List (α × α))
    (hR : Equivalence R)
    (hsymm : ∀ x y, linked x y → linked y x)
    (h : Conflicts linked (mergeAll linked R before) p q) :
    ¬mergeAll linked R (before ++ p :: q :: after) q.1 q.2 ∧
      mergeAll linked R (before ++ q :: p :: after) q.1 q.2 := by
  obtain ⟨-, hq, hrel, hnot⟩ := h
  have hE : Equivalence (mergeAll linked R before) := mergeAll_equivalence hR
  have hE₁ : Equivalence (merge linked (mergeAll linked R before) p) := merge_equivalence hE
  constructor
  · have hsplit : mergeAll linked R (before ++ p :: q :: after) =
        mergeAll linked (merge linked (mergeAll linked R before) p) after := by
      rw [← merge_eq_of_not_complete hnot]
      simp only [mergeAll, List.foldl_append, List.foldl_cons]
    rw [hsplit]
    intro hends
    -- The members that are not linked would be of one class.
    have hE₂ : Equivalence (mergeAll linked (merge linked (mergeAll linked R before) p) after) :=
      mergeAll_equivalence hE₁
    refine hnot fun x y hx hy => ?_
    have hxy := hE₂.trans (mergeAll_of_rel hx) (hE₂.trans hends (hE₂.symm (mergeAll_of_rel hy)))
    refine (linked_of_mergeAll hE₁ hsymm hxy).resolve_left fun hone => hrel ?_
    exact hE₁.trans (hE₁.symm hx) (hE₁.trans hone hy)
  · have hsplit : mergeAll linked R (before ++ q :: p :: after) =
        mergeAll linked (merge linked (mergeAll linked R before) q) (p :: after) := by
      simp only [mergeAll, List.foldl_append, List.foldl_cons]
    rw [hsplit]
    exact mergeAll_of_rel (merge_ends hE hq)

end Swap

end CompleteLinkage

import Mathlib

set_option relaxedAutoImplicit false
set_option autoImplicit false

/-!
# Moving items onto keys in turn

Items stand at keys, no two at one.  They are visited one after the other; a visited item may have a
goal, another key it is moved onto when no item stands there at its turn, and which it misses
otherwise.  Whether an item lands is decided by the items alone: whoever stands at its goal has to
land elsewhere before, and no earlier visited item may have taken the goal since.

Of the items that are to be at a key, the one that is kept there need not be the latest, even when
they are visited latest first: the key may be held by an item that leaves too late, or not at all.

## Main definitions

* `Relocate.Lands` — the items that are moved.
* `Relocate.Stands` — where the items stand after a prefix of the visit.
* `Relocate.KeepsLatestAt` — a key holds, in the end, the latest of the items that map to it.

## Main results

* `Relocate.free_iff_lands` — an item lands exactly when its goal is free at its turn.
* `Relocate.keepsLatestAt_iff` — when a key keeps the latest item.
-/

namespace Relocate

variable {α κ : Type*} [DecidableEq α]

/-! ## Turns -/

/-- An item is visited, and another one before it. -/
def Before (visit : List α) (a b : α) : Prop := b ∈ visit ∧ visit.idxOf a < visit.idxOf b

section Turns

variable {visit p q : List α} {a b c : α}

/-- Whoever is before an item is visited. -/
theorem Before.mem_left (h : Before visit a b) : a ∈ visit := by
  rw [← List.idxOf_lt_length_iff]
  exact h.2.trans (List.idxOf_lt_length_iff.mpr h.1)

/-- No item is before itself. -/
theorem Before.irrefl (h : Before visit a a) : False := lt_irrefl _ h.2

/-- No two items are before each other. -/
theorem Before.asymm (h : Before visit a b) (h' : Before visit b a) : False := lt_asymm h.2 h'.2

/-- Turns are transitive. -/
theorem Before.trans (h : Before visit a b) (h' : Before visit b c) : Before visit a c :=
  ⟨h'.1, h.2.trans h'.2⟩

/-- Of two visited items one is before the other. -/
theorem before_total (ha : a ∈ visit) (hb : b ∈ visit) (hne : a ≠ b) :
    Before visit a b ∨ Before visit b a := by
  rcases lt_trichotomy (visit.idxOf a) (visit.idxOf b) with hlt | heq | hgt
  · exact Or.inl ⟨hb, hlt⟩
  · exact absurd ((List.idxOf_inj ha).mp heq) hne
  · exact Or.inr ⟨ha, hgt⟩

/-- The items before one are those visited before its turn. -/
theorem before_iff_mem (hnodup : (p ++ a :: q).Nodup) : Before (p ++ a :: q) b a ↔ b ∈ p := by
  have hap : a ∉ p := by
    rw [List.nodup_append] at hnodup
    exact fun hmem => hnodup.2.2 a hmem a (List.mem_cons_self ..) rfl
  have hidx : (p ++ a :: q).idxOf a = p.length := by
    rw [List.idxOf_append_of_notMem hap, List.idxOf_cons_self, Nat.add_zero]
  constructor
  · intro h
    by_contra hb
    have hge : p.length ≤ (p ++ a :: q).idxOf b := by
      rw [List.idxOf_append_of_notMem hb]
      exact Nat.le_add_right _ _
    exact absurd (hidx ▸ h.2) (not_lt.mpr hge)
  · intro hb
    refine ⟨by simp, ?_⟩
    rw [hidx, List.idxOf_append_of_mem hb]
    exact List.idxOf_lt_length_iff.mpr hb

/-- In an order of descending times, an item is no later than one before it. -/
theorem le_of_before {ι : Type*} [Preorder ι] {late : α → ι}
    (hsorted : visit.Pairwise fun x y => late y ≤ late x) (h : Before visit a b) :
    late b ≤ late a := by
  have ha := h.mem_left
  rw [List.pairwise_iff_getElem] at hsorted
  have hlt := hsorted (visit.idxOf a) (visit.idxOf b) (List.idxOf_lt_length_iff.mpr ha)
    (List.idxOf_lt_length_iff.mpr h.1) h.2
  simpa only [List.getElem_idxOf] using hlt

end Turns

/-! ## Landing -/

section Landing

variable (items visit : List α) (at₀ : α → κ) (goal : α → Option κ)

/-- The items that land: whoever stands at the goal lands elsewhere before, and every item that is
to be there and is visited before was visited while the goal was still held. -/
inductive Lands : α → Prop where
  | intro (a : α) (k : κ) (hgoal : goal a = some k) (hvisit : a ∈ visit)
      (hbefore : ∀ o ∈ items, at₀ o = k → Before visit o a)
      (hleave : ∀ o ∈ items, at₀ o = k → Lands o)
      (hfirst : ∀ m, Before visit m a → goal m = some k →
        ∃ o ∈ items, at₀ o = k ∧ Before visit m o) : Lands a

/-- Where an item stands after a prefix of the visit. -/
def Stands (p : List α) (a : α) (k : κ) : Prop :=
  (a ∈ p ∧ Lands items visit at₀ goal a ∧ goal a = some k) ∨
    (¬(a ∈ p ∧ Lands items visit at₀ goal a) ∧ at₀ a = k)

variable {items visit at₀ goal} {p q : List α} {a : α} {k : κ}

/-- An item that lands has a turn and a goal. -/
theorem Lands.goal_eq (h : Lands items visit at₀ goal a) : a ∈ visit ∧ ∃ k, goal a = some k := by
  cases h with
  | intro _ k hgoal hvisit hbefore hleave hfirst => exact ⟨hvisit, k, hgoal⟩

/-- What landing says of a goal. -/
theorem lands_iff (hgoal : goal a = some k) :
    Lands items visit at₀ goal a ↔ a ∈ visit ∧
      (∀ o ∈ items, at₀ o = k → Before visit o a ∧ Lands items visit at₀ goal o) ∧
        ∀ m, Before visit m a → goal m = some k → ∃ o ∈ items, at₀ o = k ∧ Before visit m o := by
  constructor
  · intro h
    cases h with
    | intro _ k' hgoal' hvisit hbefore hleave hfirst =>
      rw [hgoal, Option.some_inj] at hgoal'
      subst hgoal'
      exact ⟨hvisit, fun o ho hat => ⟨hbefore o ho hat, hleave o ho hat⟩, hfirst⟩
  · rintro ⟨hvisit, hheld, hfirst⟩
    exact .intro a k hgoal hvisit (fun o ho hat => (hheld o ho hat).1)
      (fun o ho hat => (hheld o ho hat).2) hfirst

/-- A turn moves nobody but the item whose turn it is, and that only when it lands. -/
theorem stands_concat_iff {b : α} (h : b ≠ a ∨ ¬Lands items visit at₀ goal b) :
    Stands items visit at₀ goal (p ++ [a]) b k ↔ Stands items visit at₀ goal p b k := by
  have hmoved : b ∈ p ++ [a] ∧ Lands items visit at₀ goal b ↔
      b ∈ p ∧ Lands items visit at₀ goal b := by
    rw [List.mem_append, List.mem_singleton]
    rcases h with hne | hmiss
    · simp only [hne, or_false]
    · simp only [hmiss, and_false]
  unfold Stands
  rw [hmoved, ← and_assoc, ← and_assoc, hmoved]

/-- An item that lands stands at its goal after its turn. -/
theorem stands_of_lands (hmem : a ∈ p) (hlands : Lands items visit at₀ goal a)
    (hgoal : goal a = some k) : Stands items visit at₀ goal p a k :=
  Or.inl ⟨hmem, hlands, hgoal⟩

/-- An item stands at one key. -/
theorem Stands.unique {k' : κ} (h : Stands items visit at₀ goal p a k)
    (h' : Stands items visit at₀ goal p a k') : k = k' := by
  rcases h with ⟨hmem, hlands, hgoal⟩ | ⟨hstay, hat⟩
  · rcases h' with ⟨-, -, hgoal'⟩ | ⟨hstay', -⟩
    · exact Option.some_inj.mp (hgoal.symm.trans hgoal')
    · exact absurd ⟨hmem, hlands⟩ hstay'
  · rcases h' with ⟨hmem', hlands', -⟩ | ⟨-, hat'⟩
    · exact absurd ⟨hmem', hlands'⟩ hstay
    · exact hat.symm.trans hat'

/-- An item that missed a goal whose holders all land was visited while it was held, or missed it
to one visited before. -/
theorem exists_holder_after {m : α} (hm : m ∈ visit) (hmgoal : goal m = some k)
    (hmiss : ¬Lands items visit at₀ goal m)
    (hheld : ∀ o ∈ items, at₀ o = k → o ∈ visit ∧ Lands items visit at₀ goal o)
    (hearlier : ∀ m', Before visit m' m → goal m' = some k →
      ∃ o ∈ items, at₀ o = k ∧ Before visit m' o) :
    ∃ o ∈ items, at₀ o = k ∧ Before visit m o := by
  by_contra hnone
  refine hmiss ((lands_iff hmgoal).mpr ⟨hm, fun o ho hat => ?_, hearlier⟩)
  obtain ⟨hvisit, hlands⟩ := hheld o ho hat
  refine ⟨?_, hlands⟩
  have hne : o ≠ m := by
    rintro rfl
    exact hmiss hlands
  rcases before_total hvisit hm hne with h | h
  · exact h
  · exact absurd ⟨o, ho, hat, h⟩ hnone

/-- **Landing is being free.** At its turn, no item stands at the goal of an item exactly when it
lands.

**Proof sketch.** Whoever stands at the goal at first has landed elsewhere exactly when it is no
longer there, and whoever is to be there and was visited before stands there exactly when it landed;
by induction on the turns, none did exactly when each was visited while the goal was held. -/
theorem free_iff_lands (hvisit : visit = p ++ a :: q) (hnodup : visit.Nodup)
    (hsub : ∀ b ∈ visit, b ∈ items) (hgoal : goal a = some k) :
    (∀ b ∈ items, ¬Stands items visit at₀ goal p b k) ↔ Lands items visit at₀ goal a := by
  have hturn : ∀ b, Before visit b a ↔ b ∈ p := by
    intro b
    subst hvisit
    exact before_iff_mem hnodup
  rw [lands_iff hgoal]
  constructor
  · intro hfree
    have hheld : ∀ o ∈ items, at₀ o = k → o ∈ p ∧ Lands items visit at₀ goal o := by
      intro o ho hat
      by_contra hstay
      exact hfree o ho (Or.inr ⟨hstay, hat⟩)
    refine ⟨by rw [hvisit]; simp, fun o ho hat => ?_, ?_⟩
    · exact ⟨(hturn o).mpr (hheld o ho hat).1, (hheld o ho hat).2⟩
    · -- The induction is on the turn of the earlier item.
      suffices h : ∀ n m, visit.idxOf m = n → Before visit m a → goal m = some k →
          ∃ o ∈ items, at₀ o = k ∧ Before visit m o from fun m hm hmgoal => h _ m rfl hm hmgoal
      intro n
      induction n using Nat.strong_induction_on with
      | _ n ih =>
        intro m hn hm hmgoal
        have hmiss : ¬Lands items visit at₀ goal m := fun hlands =>
          hfree m (hsub m hm.mem_left) (Or.inl ⟨(hturn m).mp hm, hlands, hmgoal⟩)
        refine exists_holder_after hm.mem_left hmgoal hmiss (fun o ho hat => ?_) ?_
        · exact ⟨((hturn o).mpr (hheld o ho hat).1).mem_left, (hheld o ho hat).2⟩
        · intro m' hm' hmgoal'
          exact ih (visit.idxOf m') (hn ▸ hm'.2) m' rfl (hm'.trans hm) hmgoal'
  · rintro ⟨-, hheld, hfirst⟩ b hb hstands
    rcases hstands with ⟨hbp, hlands, hbgoal⟩ | ⟨hstay, hat⟩
    · obtain ⟨o, ho, hat, hbo⟩ := hfirst b ((hturn b).mpr hbp) hbgoal
      have hob := (((lands_iff hbgoal).mp hlands).2.1 o ho hat).1
      exact hbo.asymm hob
    · obtain ⟨hbefore, hlands⟩ := hheld b hb hat
      exact hstay ⟨(hturn b).mp hbefore, hlands⟩

end Landing

/-! ## The latest item of a key -/

section Latest

variable {ι : Type*} [LinearOrder ι] (items visit : List α) (at₀ : α → κ) (goal : α → Option κ)
  (stays : α → Prop) (late : α → ι)

/-- An item is to be at a key in the end: it stays there, or has it as its goal. -/
def MapsTo (a : α) (k : κ) : Prop := (stays a ∧ at₀ a = k) ∨ goal a = some k

/-- An item is at a key in the end: it stays there, or lands there. -/
def Holds (a : α) (k : κ) : Prop :=
  (stays a ∧ at₀ a = k) ∨ (goal a = some k ∧ Lands items visit at₀ goal a)

/-- Of the items that are to be at a key, if any, one is, and none is later. -/
def KeepsLatestAt (k : κ) : Prop :=
  (∃ a ∈ items, MapsTo at₀ goal stays a k) →
    ∃ w ∈ items, Holds items visit at₀ goal stays w k ∧
      ∀ a ∈ items, MapsTo at₀ goal stays a k → late a ≤ late w

/-- When a key keeps its latest item: no item has it as its goal, or whoever stands there at first
stays and is no earlier than those that have, or lands elsewhere before a latest of them is
visited. -/
def LatestFits (k : κ) : Prop :=
  (∀ m ∈ items, goal m ≠ some k) ∨
    ∀ o ∈ items, at₀ o = k →
      (stays o ∧ ∀ m ∈ items, goal m = some k → late m ≤ late o) ∨
        (Lands items visit at₀ goal o ∧
          ∃ m ∈ items, goal m = some k ∧ Before visit o m ∧
            ∀ m' ∈ items, goal m' = some k → late m' ≤ late m)

variable {items visit at₀ goal stays late} {k : κ}

/-- Of the visited items with a property, one is visited first. -/
theorem exists_first {P : α → Prop} (h : ∃ m ∈ visit, P m) :
    ∃ f ∈ visit, P f ∧ ∀ m ∈ visit, P m → m = f ∨ Before visit f m := by
  classical
  have hidx : ∃ n, ∃ m ∈ visit, P m ∧ visit.idxOf m = n := by
    obtain ⟨m, hm, hP⟩ := h
    exact ⟨_, m, hm, hP, rfl⟩
  obtain ⟨f, hf, hP, hn⟩ := Nat.find_spec hidx
  refine ⟨f, hf, hP, fun m hm hPm => ?_⟩
  by_cases hne : m = f
  · exact Or.inl hne
  · rcases before_total hm hf hne with hlt | hgt
    · exact absurd ⟨m, hm, hPm, rfl⟩ (Nat.find_min hidx (hn ▸ hlt.2))
    · exact Or.inr hgt

/-- The item that lands at a key whose holder leaves it before a latest one is visited: the first
one visited since. -/
theorem exists_lands_of_leaves {o m : α} (hinj : ∀ a ∈ items, ∀ b ∈ items, at₀ a = at₀ b → a = b)
    (hsub : ∀ b ∈ visit, b ∈ items) (hsorted : visit.Pairwise fun x y => late y ≤ late x)
    (ho : o ∈ items) (hat : at₀ o = k) (hleaves : Lands items visit at₀ goal o)
    (hm : goal m = some k) (hafter : Before visit o m) :
    ∃ w ∈ items, goal w = some k ∧ Lands items visit at₀ goal w ∧ late m ≤ late w := by
  obtain ⟨f, hf, ⟨hfgoal, hof⟩, hmin⟩ :=
    exists_first (P := fun x => goal x = some k ∧ Before visit o x) ⟨m, hafter.1, hm, hafter⟩
  refine ⟨f, hsub f hf, hfgoal, (lands_iff hfgoal).mpr ⟨hf, fun o' ho' hat' => ?_, ?_⟩, ?_⟩
  · rw [hinj o' ho' o ho (hat'.trans hat.symm)]
    exact ⟨hof, hleaves⟩
  · intro m' hm' hmgoal'
    refine ⟨o, ho, hat, ?_⟩
    have hne : m' ≠ o := by
      rintro rfl
      exact (((lands_iff hmgoal').mp hleaves).2.1 m' ho hat).1.irrefl
    rcases before_total hm'.mem_left hleaves.goal_eq.1 hne with h | h
    · exact h
    · rcases hmin m' hm'.mem_left ⟨hmgoal', h⟩ with rfl | hlater
      · exact absurd hm' fun hself => hself.irrefl
      · exact absurd hm' fun hearlier => hearlier.asymm hlater
  · rcases hmin m hafter.1 ⟨hm, hafter⟩ with rfl | hlater
    · exact le_refl _
    · exact le_of_before hsorted hlater

/-- The item that lands at a key where none stands at first: the first one visited. -/
theorem exists_lands_of_free {m : α} (hsub : ∀ b ∈ visit, b ∈ items)
    (hsorted : visit.Pairwise fun x y => late y ≤ late x) (hfree : ∀ o ∈ items, at₀ o ≠ k)
    (hvisit : m ∈ visit) (hm : goal m = some k) :
    ∃ w ∈ items, goal w = some k ∧ Lands items visit at₀ goal w ∧
      ∀ a ∈ visit, goal a = some k → late a ≤ late w := by
  obtain ⟨f, hf, hfgoal, hmin⟩ := exists_first (P := fun x => goal x = some k) ⟨m, hvisit, hm⟩
  refine ⟨f, hsub f hf, hfgoal, (lands_iff hfgoal).mpr ⟨hf, fun o ho hat => ?_, ?_⟩, ?_⟩
  · exact absurd hat (hfree o ho)
  · intro m' hm' hmgoal'
    rcases hmin m' hm'.mem_left hmgoal' with rfl | hlater
    · exact absurd hm' fun hself => hself.irrefl
    · exact absurd hm' fun hearlier => hearlier.asymm hlater
  · intro a ha hagoal
    rcases hmin a ha hagoal with rfl | hlater
    · exact le_refl _
    · exact le_of_before hsorted hlater

/-- **When the latest is kept.** Visited latest first, a key keeps the latest of the items that are
to be there exactly when it fits.

**Proof sketch.** An item that lands at a key comes after whoever stood there has left, so the
latest lands only if it is visited since.  Conversely the first of them visited since then lands,
and is no earlier than any visited after it. -/
theorem keepsLatestAt_iff (hsub : ∀ b ∈ visit, b ∈ items)
    (hsorted : visit.Pairwise fun x y => late y ≤ late x)
    (hinj : ∀ a ∈ items, ∀ b ∈ items, at₀ a = at₀ b → a = b)
    (hmovers : ∀ m ∈ items, goal m = some k → m ∈ visit)
    (hstays : ∀ a ∈ items, stays a → goal a = none) :
    KeepsLatestAt items visit at₀ goal stays late k ↔
      LatestFits items visit at₀ goal stays late k := by
  constructor
  · intro hkeeps
    by_cases hnone : ∀ m ∈ items, goal m ≠ some k
    · exact Or.inl hnone
    · refine Or.inr fun o ho hat => ?_
      push Not at hnone
      obtain ⟨m, hm, hmgoal⟩ := hnone
      obtain ⟨w, hw, hholds, hlatest⟩ := hkeeps ⟨m, hm, Or.inr hmgoal⟩
      rcases hholds with ⟨hstay, hwat⟩ | ⟨hwgoal, hlands⟩
      · rw [hinj w hw o ho (hwat.trans hat.symm)] at hstay hlatest
        exact Or.inl ⟨hstay, fun m hm hmgoal => hlatest m hm (Or.inr hmgoal)⟩
      · obtain ⟨hbefore, hleaves⟩ := ((lands_iff hwgoal).mp hlands).2.1 o ho hat
        exact Or.inr ⟨hleaves, w, hw, hwgoal, hbefore,
          fun m hm hmgoal => hlatest m hm (Or.inr hmgoal)⟩
  · rintro hfits ⟨a, ha, hmaps⟩
    rcases hfits with hnone | hholder
    · rcases hmaps with ⟨hstay, hat⟩ | hgoal
      · refine ⟨a, ha, Or.inl ⟨hstay, hat⟩, fun b hb hb' => ?_⟩
        rcases hb' with ⟨-, hbat⟩ | hbgoal
        · rw [hinj b hb a ha (hbat.trans hat.symm)]
        · exact absurd hbgoal (hnone b hb)
      · exact absurd hgoal (hnone a ha)
    · by_cases hheld : ∃ o ∈ items, at₀ o = k
      · obtain ⟨o, ho, hat⟩ := hheld
        rcases hholder o ho hat with ⟨hstay, hlate⟩ | ⟨hleaves, m, hm, hmgoal, hafter, hlatest⟩
        · refine ⟨o, ho, Or.inl ⟨hstay, hat⟩, fun b hb hb' => ?_⟩
          rcases hb' with ⟨-, hbat⟩ | hbgoal
          · rw [hinj b hb o ho (hbat.trans hat.symm)]
          · exact hlate b hb hbgoal
        · obtain ⟨w, hw, hwgoal, hlands, hle⟩ :=
            exists_lands_of_leaves hinj hsub hsorted ho hat hleaves hmgoal hafter
          refine ⟨w, hw, Or.inr ⟨hwgoal, hlands⟩, fun b hb hb' => ?_⟩
          rcases hb' with ⟨hstay, hbat⟩ | hbgoal
          · rw [hinj b hb o ho (hbat.trans hat.symm)] at hstay
            obtain ⟨k', hk'⟩ := hleaves.goal_eq.2
            rw [hstays o ho hstay] at hk'
            cases hk'
          · exact (hlatest b hb hbgoal).trans hle
      · push Not at hheld
        rcases hmaps with ⟨-, hat⟩ | hgoal
        · exact absurd hat (hheld a ha)
        · obtain ⟨w, hw, hwgoal, hlands, hlatest⟩ :=
            exists_lands_of_free hsub hsorted hheld (hmovers a ha hgoal) hgoal
          refine ⟨w, hw, Or.inr ⟨hwgoal, hlands⟩, fun b hb hb' => ?_⟩
          rcases hb' with ⟨-, hbat⟩ | hbgoal
          · exact absurd hbat (hheld b hb)
          · exact hlatest b (hmovers b hb hbgoal) hbgoal

end Latest

end Relocate

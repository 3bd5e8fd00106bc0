import OpenConditions.Schedules.NextTransition

set_option relaxedAutoImplicit false
set_option autoImplicit false

/-!
# The state of an effect

Whether an effect is in force at an instant, and until when that is known to be so
(`packages/model/src/kernel/effect-state.ts`, `packages/model/src/schedule/in-effect.ts`).

The start and end of a validity are the instants that their texts denote.

## Main definitions

* `Validity`, `isValidityInEffectAt` — a validity, and whether it is in effect.
* `effectStateAt` — the state of an effect and its next transition.
* `LeaseHolds` — the state lasts until the next transition.

## Main results

* `effectStateAt_eq_window` — the state within a validity's start and end.
* `leaseHolds_iff` — when the state lasts.
-/

namespace OpenConditions.Schedules

/-! ## The state -/

/-- When an effect is in force. -/
structure Validity where
  start : Option ℤ
  end_ : Option ℤ
  periods : Option (List Schedule)
  exceptions : Option (List Schedule)
  /-- The end does not precede the start. -/
  ordered : ∀ s ∈ start, ∀ e ∈ end_, s ≤ e

/-- The state of an effect. -/
inductive EffectState where
  | active
  | scheduled
  | ended
  | unknown
  deriving DecidableEq, Repr

/-- The issues that leave the window of an effect unknown. -/
def temporalIssues : List String := ["invalid_window", "unsupported_schedule", "unsupported_status"]

/-- An effect's own validity and the codes of its issues. -/
structure Effect where
  validity : Option Validity
  issues : Option (List String)

/-- Some issue leaves the window unknown. -/
def Effect.windowUnknown (effect : Effect) : Bool :=
  (effect.issues.getD []).any (temporalIssues.contains ·)

/-- The validity that an effect is evaluated against. -/
def effectValidity (effect : Effect) (situation : Validity) : Validity :=
  effect.validity.getD situation

/-- Some schedule certainly occurs; they are asked one after the other. -/
def someIsIn (zones : Zones) (schedules : List Schedule) (atMs : ℤ) : Option Bool :=
  match schedules with
  | [] => some false
  | s :: rest =>
    match scheduleStateAt zones s atMs with
    | none => none
    | some .isIn => some true
    | some _ => someIsIn zones rest atMs

/-- Whether an instant is within the bounds and one of the periods of a validity. -/
def isInEffectAt (zones : Zones) (v : Validity) (atMs : ℤ) : Option Bool :=
  if isValidMs atMs = false then some true
  else if v.start.any fun s => decide (atMs < s) then some false
  else if v.end_.any fun e => decide (e ≤ atMs) then some false
  else
    match v.periods with
    | none => some true
    | some [] => some true
    | some periods => someOccursAt zones periods atMs

/-- Whether a validity is in effect: within its bounds and periods, and outside its exceptions. -/
def isValidityInEffectAt (zones : Zones) (v : Validity) (atMs : ℤ) : Option Bool :=
  match isInEffectAt zones v atMs with
  | none => none
  | some false => some false
  | some true => (someIsIn zones (v.exceptions.getD []) atMs).map fun isIn => !isIn

/-- The earlier of two instants. -/
def earlier (best value : Option ℤ) : Option ℤ :=
  match value, best with
  | none, best => best
  | some t, none => some t
  | some t, some b => if t < b then some t else some b

/-- The earliest of some instants. -/
def earliest (instants : List (Option ℤ)) : Option ℤ := instants.foldl earlier none

/-- The state of an effect at an instant, and the next instant at which it changes, if one is
known. -/
def effectStateAt (zones : Zones) (effect : Effect) (situation : Validity) (atMs : ℤ) :
    Option (EffectState × Option ℤ) :=
  if isValidMs atMs = false ∨ effect.windowUnknown = true then some (.unknown, none)
  else
    let v := effectValidity effect situation
    if v.end_.any fun e => decide (e ≤ atMs) then some (.ended, none)
    else if v.start.any fun s => decide (atMs < s) then some (.scheduled, v.start)
    else
      match nextScheduleTransition zones (v.periods.getD []) atMs,
        nextScheduleTransition zones (v.exceptions.getD []) atMs with
      | some period, some exception =>
        (isValidityInEffectAt zones v atMs).map fun inEffect =>
          (if inEffect then .active else .scheduled, earliest [v.end_, period, exception])
      | _, _ => none

/-! ## The earliest instant -/

/-- An instant is before the earliest of some exactly where it is before all of them. -/
theorem lt_earliest_iff {instants : List (Option ℤ)} {t : ℤ} :
    (∀ n ∈ earliest instants, t < n) ↔ ∀ value ∈ instants, ∀ n ∈ value, t < n := by
  have hfold : ∀ (l : List (Option ℤ)) (best : Option ℤ),
      (∀ n ∈ l.foldl earlier best, t < n) ↔
        (∀ n ∈ best, t < n) ∧ ∀ value ∈ l, ∀ n ∈ value, t < n := by
    intro l
    induction l with
    | nil => simp
    | cons value l ih =>
      intro best
      rw [List.foldl_cons, ih, List.forall_mem_cons, ← and_assoc]
      refine and_congr_left fun _ => ?_
      cases value <;> cases best
      · simp [earlier]
      · simp [earlier]
      · simp [earlier]
      · simp only [earlier, Option.mem_def, Option.some.injEq, forall_eq']
        split_ifs with hlt
        · simp only [Option.some.injEq, forall_eq']
          omega
        · simp only [Option.some.injEq, forall_eq']
          omega
  unfold earliest
  rw [hfold]
  simp

/-! ## Within the bounds -/

/-- The next change of some schedules can be searched for. -/
def CanSearch (zones : Zones) (schedules : List Schedule) (atMs : ℤ) : Prop :=
  ∃ candidates, candidatesAfter zones schedules atMs = some candidates ∧
    AllAsked zones schedules candidates

/-- Some schedules change at a candidate after an instant, no later than another one. -/
def ForeseenBy (zones : Zones) (schedules : List Schedule) (atMs t : ℤ) : Prop :=
  ∃ candidates, candidatesAfter zones schedules atMs = some candidates ∧
    ∃ c ∈ candidates, c ≤ t ∧ changesAt zones schedules c = true

variable {zones : Zones} {schedules : List Schedule} {effect : Effect} {situation v : Validity}
  {atMs t : ℤ} {r : Option ℤ}

/-- The search for the next change ends where it can be made. -/
theorem nextScheduleTransition_isSome (hat : isValidMs atMs = true) :
    (∃ r, nextScheduleTransition zones schedules atMs = some r) ↔
      CanSearch zones schedules atMs := by
  simp only [nextScheduleTransition_eq_some hat, CanSearch]
  constructor
  · rintro ⟨r, candidates, hcandidates, hasked, -⟩
    exact ⟨candidates, hcandidates, hasked⟩
  · rintro ⟨candidates, hcandidates, hasked⟩
    exact ⟨_, candidates, hcandidates, hasked, rfl⟩

/-- An instant is before the next change that is found where none is foreseen by then. -/
theorem lt_nextScheduleTransition_iff (hat : isValidMs atMs = true)
    (h : nextScheduleTransition zones schedules atMs = some r) :
    (∀ n ∈ r, t < n) ↔ ¬ForeseenBy zones schedules atMs t := by
  obtain ⟨candidates, hcandidates, -, rfl⟩ := (nextScheduleTransition_eq_some hat).mp h
  have hsorted := (candidatesAfter_sorted hcandidates).1
  constructor
  · rintro hbefore ⟨candidates', hcandidates', c, hc, hle, hchange⟩
    obtain rfl := Option.some.inj (hcandidates.symm.trans hcandidates')
    obtain ⟨n, hn⟩ := Option.isSome_iff_exists.mp (List.find?_isSome.mpr ⟨c, hc, hchange⟩)
    have := hbefore n hn
    have := find?_le hsorted hn hc hchange
    omega
  · intro hnot n hn
    by_contra hle
    exact hnot ⟨candidates, hcandidates, n, List.mem_of_find?_eq_some hn, not_lt.mp hle,
      List.find?_some hn⟩

/-- A validity's bounds hold at an instant. -/
def WithinBounds (v : Validity) (t : ℤ) : Prop := (∀ s ∈ v.start, s ≤ t) ∧ ∀ e ∈ v.end_, t < e

/-- **The state within a validity's bounds**: whether it is in effect, until the end, the next change
of its periods or that of its exceptions. -/
theorem effectStateAt_eq_window (ht : isValidMs t = true) (hknown : effect.windowUnknown = false)
    (hv : effectValidity effect situation = v) (hbounds : WithinBounds v t) {state : EffectState}
    {next : Option ℤ} : effectStateAt zones effect situation t = some (state, next) ↔
      ∃ period exception inEffect,
        nextScheduleTransition zones (v.periods.getD []) t = some period ∧
        nextScheduleTransition zones (v.exceptions.getD []) t = some exception ∧
        isValidityInEffectAt zones v t = some inEffect ∧
        state = (if inEffect then .active else .scheduled) ∧
        next = earliest [v.end_, period, exception] := by
  have hend : ¬(v.end_.any fun e => decide (e ≤ t)) = true := by
    cases he : v.end_ with
    | none => simp
    | some e => simpa using hbounds.2 e he
  have hstart : ¬(v.start.any fun s => decide (t < s)) = true := by
    cases hs : v.start with
    | none => simp
    | some s => simpa using hbounds.1 s hs
  unfold effectStateAt
  rw [if_neg (by simp [ht, hknown]), hv]
  dsimp only
  rw [if_neg hend, if_neg hstart]
  cases nextScheduleTransition zones (v.periods.getD []) t with
  | none => simp
  | some period =>
    cases nextScheduleTransition zones (v.exceptions.getD []) t with
    | none => simp
    | some exception =>
      cases isValidityInEffectAt zones v t with
      | none => simp
      | some inEffect => simp [eq_comm]

/-! ## The lease -/

/-- The state at an instant lasts for 365 days, or until the next transition that is told with it. -/
def LeaseHolds (zones : Zones) (effect : Effect) (situation : Validity) (atMs : ℤ) : Prop :=
  ∃ state next, effectStateAt zones effect situation atMs = some (state, next) ∧
    ∀ t, atMs ≤ t → t ≤ atMs + horizonMs → isValidMs t = true → (∀ n ∈ next, t < n) →
      ∃ next', effectStateAt zones effect situation t = some (state, next')

/-- An instant at which the state told at an earlier one should last: within 365 days, before the
end, and before a change of the periods or of the exceptions is foreseen. -/
structure InLease (zones : Zones) (v : Validity) (atMs t : ℤ) : Prop where
  after : atMs ≤ t
  within : t ≤ atMs + horizonMs
  valid : isValidMs t = true
  unended : ∀ e ∈ v.end_, t < e
  period : ¬ForeseenBy zones (v.periods.getD []) atMs t
  exception : ¬ForeseenBy zones (v.exceptions.getD []) atMs t

/-- What is asked of a validity at an instant can be answered. -/
structure CanAnswer (zones : Zones) (v : Validity) (t : ℤ) : Prop where
  periods : CanSearch zones (v.periods.getD []) t
  exceptions : CanSearch zones (v.exceptions.getD []) t
  inEffect : (isValidityInEffectAt zones v t).isSome = true

/-- An instant just before one of the lease is of the lease. -/
theorem InLease.pred (h : InLease zones v atMs t) (hat : isValidMs atMs = true) (hlt : atMs < t) :
    InLease zones v atMs (t - 1) := by
  have hvalid : isValidMs (t - 1) = true := by
    have hlate := h.valid
    unfold isValidMs at hat hlate ⊢
    simp only [decide_eq_true_eq] at hat hlate ⊢
    omega
  have hwithin := h.within
  refine ⟨by omega, by omega, hvalid, fun e he => ?_, ?_, ?_⟩
  · have := h.unended e he
    omega
  · rintro ⟨candidates, hcandidates, c, hc, hle, hchange⟩
    exact h.period ⟨candidates, hcandidates, c, hc, by omega, hchange⟩
  · rintro ⟨candidates, hcandidates, c, hc, hle, hchange⟩
    exact h.exception ⟨candidates, hcandidates, c, hc, by omega, hchange⟩

/-- **The lease within the bounds of a validity**: it holds where whether the validity is in effect
never differs from what it was a millisecond before. -/
theorem leaseHolds_within (hat : isValidMs atMs = true) (hknown : effect.windowUnknown = false)
    (hv : effectValidity effect situation = v) (hbounds : WithinBounds v atMs) :
    LeaseHolds zones effect situation atMs ↔ CanAnswer zones v atMs ∧
      ∀ t, atMs < t → InLease zones v atMs t → CanAnswer zones v t ∧
        isValidityInEffectAt zones v t = isValidityInEffectAt zones v (t - 1) := by
  have hstays : ∀ t, atMs ≤ t → (∀ e ∈ v.end_, t < e) → WithinBounds v t := fun t hle hend =>
    ⟨fun s hs => (hbounds.1 s hs).trans hle, hend⟩
  have hstate : ∀ {t : ℤ} {state : EffectState}, isValidMs t = true → WithinBounds v t →
      ((∃ next, effectStateAt zones effect situation t = some (state, next)) ↔
        CanSearch zones (v.periods.getD []) t ∧ CanSearch zones (v.exceptions.getD []) t ∧
          ∃ inEffect, isValidityInEffectAt zones v t = some inEffect ∧
            state = if inEffect then .active else .scheduled) := by
    intro t state ht hb
    rw [← nextScheduleTransition_isSome ht, ← nextScheduleTransition_isSome ht]
    simp only [effectStateAt_eq_window ht hknown hv hb]
    constructor
    · rintro ⟨next, period, exception, inEffect, hp, he, hin, hst, -⟩
      exact ⟨⟨period, hp⟩, ⟨exception, he⟩, inEffect, hin, hst⟩
    · rintro ⟨⟨period, hp⟩, ⟨exception, he⟩, inEffect, hin, hst⟩
      exact ⟨_, period, exception, inEffect, hp, he, hin, hst, rfl⟩
  have hlease : ∀ {state : EffectState} {next : Option ℤ} {t : ℤ},
      effectStateAt zones effect situation atMs = some (state, next) → atMs ≤ t →
        t ≤ atMs + horizonMs → isValidMs t = true →
          ((∀ n ∈ next, t < n) ↔ InLease zones v atMs t) := by
    intro state next t h hle hwithin ht
    obtain ⟨period, exception, inEffect, hp, he, -, -, rfl⟩ :=
      (effectStateAt_eq_window hat hknown hv hbounds).mp h
    rw [lt_earliest_iff]
    simp only [List.forall_mem_cons, List.not_mem_nil, false_implies, implies_true, and_true,
      lt_nextScheduleTransition_iff hat hp, lt_nextScheduleTransition_iff hat he]
    exact ⟨fun h => ⟨hle, hwithin, ht, h.1, h.2.1, h.2.2⟩, fun h =>
      ⟨h.unended, h.period, h.exception⟩⟩
  constructor
  · rintro ⟨state, next, h, hholds⟩
    have hanswer : ∀ t, InLease zones v atMs t → CanAnswer zones v t ∧
        ∃ inEffect, isValidityInEffectAt zones v t = some inEffect ∧
          state = if inEffect then .active else .scheduled := by
      intro t ht
      have hnext := (hlease h ht.after ht.within ht.valid).mpr ht
      obtain ⟨hp, he, inEffect, hin, hst⟩ := (hstate ht.valid (hstays t ht.after ht.unended)).mp
        (hholds t ht.after ht.within ht.valid hnext)
      exact ⟨⟨hp, he, by rw [hin]; rfl⟩, inEffect, hin, hst⟩
    obtain ⟨hp, he, inEffect, hin, hst⟩ := (hstate hat hbounds).mp ⟨next, h⟩
    refine ⟨⟨hp, he, by rw [hin]; rfl⟩, fun t hlt ht => ⟨(hanswer t ht).1, ?_⟩⟩
    have hpred := ht.pred hat hlt
    obtain ⟨-, now, hnow, hstnow⟩ := hanswer t ht
    obtain ⟨-, before, hbefore, hstbefore⟩ := hanswer (t - 1) hpred
    rw [hnow, hbefore]
    cases now <;> cases before <;> simp_all
  · rintro ⟨⟨hp, he, hin⟩, hsteps⟩
    obtain ⟨inEffect, hin⟩ := Option.isSome_iff_exists.mp hin
    obtain ⟨next, h⟩ := (hstate hat hbounds).mpr ⟨hp, he, inEffect, hin, rfl⟩
    refine ⟨_, next, h, fun t hle hwithin ht hnext => ?_⟩
    have hconstant : ∀ k : ℕ, InLease zones v atMs (atMs + k) →
        isValidityInEffectAt zones v (atMs + k) = some inEffect := by
      intro k
      induction k with
      | zero =>
        intro _
        simpa using hin
      | succ k ih =>
        intro hk
        have hpred := hk.pred hat (by omega)
        have hindex : atMs + ((k + 1 : ℕ) : ℤ) - 1 = atMs + (k : ℤ) := by omega
        rw [hindex] at hpred
        rw [(hsteps _ (by omega) hk).2, hindex]
        exact ih hpred
    have hk : atMs + ((t - atMs).toNat : ℤ) = t := by omega
    have htlease := (hlease h hle hwithin ht).mp hnext
    have hnow := hconstant (t - atMs).toNat (by rwa [hk])
    rw [hk] at hnow
    refine (hstate ht (hstays t hle htlease.unended)).mpr ?_
    rcases hle.eq_or_lt with rfl | hlt
    · exact ⟨hp, he, inEffect, hnow, rfl⟩
    · obtain ⟨hanswer, -⟩ := hsteps t hlt htlease
      exact ⟨hanswer.periods, hanswer.exceptions, inEffect, hnow, rfl⟩

/-- An effect that is evaluated against its situation. -/
def plainEffect : Effect := ⟨none, none⟩

/-- In force for one overnight occurrence, from some instant on. -/
def overnightFrom (start : Option ℤ) : Validity where
  start := start
  end_ := none
  periods := some [onceOvernight]
  exceptions := none
  ordered := fun _ _ _ he => absurd he (by simp)

end OpenConditions.Schedules

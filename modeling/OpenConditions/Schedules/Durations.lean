import Mathlib.Data.Int.Notation
import Mathlib.Data.List.Basic

set_option relaxedAutoImplicit false
set_option autoImplicit false

/-!
# Durations

The durations that the schema of schedules accepts, and those that their evaluator reads
(`packages/model/src/schedule/schedule.ts`, `in-effect.ts`).

## Main definitions

* `parseDuration` — what a duration that the schema accepts states.
* `isoDurationToMs` — the length that the evaluator reads.

## Main results

* `isoDurationToMs_eq` — the evaluator reads what states no years, months or weeks.
-/

namespace OpenConditions.Schedules

/-! ## Numbers with units -/

/-- The number of some digits. -/
def digitsNumber (ds : List Char) : ℕ := ds.foldl (fun n c => 10 * n + (c.toNat - 48)) 0

/-- `(?:(\d+)U)?` — a number with its unit at the front of a text, if there is one, and the rest. -/
def optionalPart (unit : Char) (cs : List Char) : Option ℕ × List Char :=
  let ds := cs.takeWhile Char.isDigit
  match cs.dropWhile Char.isDigit with
  | [] => (none, cs)
  | c :: rest => if c = unit ∧ ds ≠ [] then (some (digitsNumber ds), rest) else (none, cs)

/-- The hours, minutes and seconds of a duration. -/
structure TimeParts where
  hours : Option ℕ
  minutes : Option ℕ
  seconds : Option ℕ
  deriving DecidableEq, Repr

/-- `(?:T(?:(\d+)H)?(?:(\d+)M)?(?:(\d+)S)?)?$` — the time at the end of a duration. -/
def timeParts : List Char → Option TimeParts
  | [] => some ⟨none, none, none⟩
  | c :: cs =>
    if c = 'T' then
      let hours := optionalPart 'H' cs
      let minutes := optionalPart 'M' hours.2
      let seconds := optionalPart 'S' minutes.2
      if seconds.2 = [] then some ⟨hours.1, minutes.1, seconds.1⟩ else none
    else none

/-- What a duration states. -/
structure DurationParts where
  years : Option ℕ
  months : Option ℕ
  weeks : Option ℕ
  days : Option ℕ
  time : TimeParts
  deriving DecidableEq, Repr

/-- A time is introduced with a digit after its letter. -/
def timeIntroduced : List Char → Bool
  | 'T' :: c :: _ => c.isDigit
  | ['T'] => false
  | _ => true

/-- What a duration that the schema accepts states:
`^P(?!$)(?:\d+Y)?(?:\d+M)?(?:\d+W)?(?:\d+D)?(?:T(?=\d)(?:\d+H)?(?:\d+M)?(?:\d+S)?)?$`. -/
def parseDuration (text : String) : Option DurationParts :=
  match text.toList with
  | [] => none
  | c :: cs =>
    if c = 'P' ∧ cs ≠ [] then
      let years := optionalPart 'Y' cs
      let months := optionalPart 'M' years.2
      let weeks := optionalPart 'W' months.2
      let days := optionalPart 'D' weeks.2
      if timeIntroduced days.2 then
        (timeParts days.2).map fun time => ⟨years.1, months.1, weeks.1, days.1, time⟩
      else none
    else none

/-- The milliseconds of days and a time. -/
def daysAndTimeMs (days : Option ℕ) (time : TimeParts) : ℤ :=
  (days.getD 0 * 86400 + time.hours.getD 0 * 3600 + time.minutes.getD 0 * 60 +
    time.seconds.getD 0) * 1000

/-- The length that the evaluator reads:
`^P(?:(\d+)D)?(?:T(?:(\d+)H)?(?:(\d+)M)?(?:(\d+)S)?)?$`. -/
def isoDurationToMs (iso : Option String) : Option ℤ :=
  match iso.map String.toList with
  | none => none
  | some [] => none
  | some (c :: cs) =>
    if c = 'P' then
      let days := optionalPart 'D' cs
      (timeParts days.2).map fun time => daysAndTimeMs days.1 time
    else none

/-! ## What the evaluator reads -/

/-- A part that is not there leaves the text as it is. -/
theorem optionalPart_eq_none {unit : Char} {cs rest : List Char}
    (h : optionalPart unit cs = (none, rest)) : rest = cs := by
  unfold optionalPart at h
  dsimp only at h
  cases hdrop : cs.dropWhile Char.isDigit with
  | nil =>
    rw [hdrop] at h
    exact (Prod.mk.inj h).2.symm
  | cons c rest' =>
    rw [hdrop] at h
    dsimp only at h
    split_ifs at h
    · cases h
    · exact (Prod.mk.inj h).2.symm

/-- A text with a part at its front has none of another unit, and no time. -/
theorem optionalPart_eq_some {unit unit' : Char} {cs rest : List Char} {n : ℕ}
    (h : optionalPart unit cs = (some n, rest)) (hne : unit' ≠ unit) :
    optionalPart unit' cs = (none, cs) ∧ timeParts cs = none := by
  unfold optionalPart at h ⊢
  dsimp only at h ⊢
  cases hdrop : cs.dropWhile Char.isDigit with
  | nil =>
    rw [hdrop] at h
    cases h
  | cons c rest' =>
    rw [hdrop] at h
    dsimp only at h ⊢
    split_ifs at h with hunit
    · obtain ⟨rfl, hdigits⟩ := hunit
      refine ⟨if_neg fun h => hne h.1.symm, ?_⟩
      cases cs with
      | nil => cases hdrop
      | cons d cs =>
        -- the part starts with a digit, the time with a letter
        have hd : d.isDigit = true := by
          by_contra hd
          rw [List.takeWhile_cons_of_neg hd] at hdigits
          exact hdigits rfl
        have hletter : d ≠ 'T' := by
          rintro rfl
          exact absurd hd (by decide)
        exact if_neg hletter
    · cases h

/-- **The evaluator reads a duration that states no years, months or weeks**, and no other one that
the schema accepts. -/
theorem isoDurationToMs_eq {text : String} {p : DurationParts} (h : parseDuration text = some p) :
    isoDurationToMs (some text) =
      if p.years = none ∧ p.months = none ∧ p.weeks = none then some (daysAndTimeMs p.days p.time)
      else none := by
  unfold parseDuration at h
  unfold isoDurationToMs
  rw [Option.map_some]
  cases hchars : text.toList with
  | nil =>
    rw [hchars] at h
    cases h
  | cons c cs =>
    rw [hchars] at h
    dsimp only at h ⊢
    split_ifs at h with hp hintroduced
    obtain ⟨time, htime, rfl⟩ := Option.map_eq_some_iff.mp h
    rw [if_pos hp.1]
    dsimp only
    rcases hyears : optionalPart 'Y' cs with ⟨years, rest⟩
    rw [hyears] at htime
    cases years with
    | some n =>
      obtain ⟨hnone, hrest⟩ := @optionalPart_eq_some _ 'D' _ _ _ hyears (by decide)
      simp [hnone, hrest]
    | none =>
      obtain rfl := optionalPart_eq_none hyears
      dsimp only at htime ⊢
      rcases hmonths : optionalPart 'M' rest with ⟨months, rest'⟩
      rw [hmonths] at htime
      cases months with
      | some n =>
        obtain ⟨hnone, hrest⟩ := @optionalPart_eq_some _ 'D' _ _ _ hmonths (by decide)
        simp [hnone, hrest]
      | none =>
        obtain rfl := optionalPart_eq_none hmonths
        dsimp only at htime ⊢
        rcases hweeks : optionalPart 'W' rest' with ⟨weeks, rest''⟩
        rw [hweeks] at htime
        cases weeks with
        | some n =>
          obtain ⟨hnone, hrest⟩ := @optionalPart_eq_some _ 'D' _ _ _ hweeks (by decide)
          simp [hnone, hrest]
        | none =>
          obtain rfl := optionalPart_eq_none hweeks
          dsimp only at htime ⊢
          simp [htime]

end OpenConditions.Schedules

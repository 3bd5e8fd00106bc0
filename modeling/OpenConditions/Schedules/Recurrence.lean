import Mathlib.Data.List.Sort
import OpenConditions.Schedules.Durations
import OpenConditions.Schedules.WallClock

set_option relaxedAutoImplicit false
set_option autoImplicit false

/-!
# Recurring validity rules

Whether an instant falls into an occurrence of a schedule, and when some schedules next change
(`packages/model/src/schedule/in-effect.ts`).

Local years of more than four digits have no date text: their evaluation throws, which is `none`.

## Main definitions

* `Schedule` — a recurring rule.
* `occurrenceStartsOn`, `occurrenceDurationMs` — the days of its occurrences and how long they last.
* `scheduleStateAt`, `scheduleOccursAt` — whether an instant falls into one.
* `nextScheduleTransition` — the next change of some schedules.
-/

namespace OpenConditions.Schedules

/-- A recurring validity rule. -/
structure Schedule where
  repeatFrequency : Option String
  repeatCount : Option ℕ
  startDate : Option LocalDate
  endDate : Option LocalDate
  startTime : Option String
  endTime : Option String
  duration : Option String
  byDay : Option (List String)
  byMonth : Option (List ℕ)
  byMonthDay : Option (List ℕ)
  exceptDate : Option (List LocalDate)
  scheduleTimezone : Option String
  deriving DecidableEq, Repr

/-- The zones that the platform knows. -/
abbrev Zones := String → Option Zone

/-! ## Times of day -/

/-- The number of a digit. -/
def digitNumber (c : Char) : ℕ := c.toNat - 48

/-- `(\d{1,2}):` — an hour at the front of a text, and the rest. -/
def hourPart : List Char → Option (ℕ × List Char)
  | a :: ':' :: rest => if a.isDigit then some (digitNumber a, rest) else none
  | a :: b :: ':' :: rest =>
    if a.isDigit ∧ b.isDigit then some (10 * digitNumber a + digitNumber b, rest) else none
  | _ => none

/-- `(\d{2})` — two digits at the front of a text, and the rest. -/
def twoDigits : List Char → Option (ℕ × List Char)
  | a :: b :: rest =>
    if a.isDigit ∧ b.isDigit then some (10 * digitNumber a + digitNumber b, rest) else none
  | _ => none

/-- `(?::(\d{2}))?` — seconds at the front of a text, if there are any, and the rest. -/
def secondsPart (cs : List Char) : Option ℕ × List Char :=
  match cs with
  | ':' :: rest =>
    match twoDigits rest with
    | some (n, rest') => (some n, rest')
    | none => (none, cs)
  | _ => (none, cs)

/-- `(?:\.\d+)?` — what follows a fraction at the front of a text, if there is one. -/
def afterFraction (cs : List Char) : List Char :=
  match cs with
  | '.' :: rest => if rest.takeWhile Char.isDigit = [] then cs else rest.dropWhile Char.isDigit
  | _ => cs

/-- `(?:Z|[+-]\d{2}:?\d{2})?$` in either case — the zone at the end of a time. -/
def isZoneSuffix : List Char → Bool
  | [] => true
  | [c] => decide (c = 'Z' ∨ c = 'z')
  | [sign, a, b, c, d] => decide (sign = '+' ∨ sign = '-') && [a, b, c, d].all Char.isDigit
  | [sign, a, b, ':', c, d] => decide (sign = '+' ∨ sign = '-') && [a, b, c, d].all Char.isDigit
  | _ => false

/-- The white space and line ends that trimming removes. -/
def isTrimmed (c : Char) : Bool :=
  decide (c.toNat ∈ [9, 10, 11, 12, 13, 32, 160, 0x1680, 0x2028, 0x2029, 0x202f, 0x205f, 0x3000,
    0xfeff] ∨ 0x2000 ≤ c.toNat ∧ c.toNat ≤ 0x200a)

/-- A text without white space around it. -/
def trimmed (cs : List Char) : List Char :=
  ((cs.dropWhile isTrimmed).reverse.dropWhile isTrimmed).reverse

/-- The wall clock time that a start time denotes, if it is a time. -/
def normalizeStartTime (raw : String) : Option WallTime :=
  match hourPart (trimmed raw.toList) with
  | none => none
  | some (hour, cs) =>
    match twoDigits cs with
    | none => none
    | some (minute, cs) =>
      let seconds := secondsPart cs
      if isZoneSuffix (afterFraction seconds.2) then
        let second := seconds.1.getD 0
        if h : hour ≤ 23 ∧ minute ≤ 59 ∧ second < 100 then
          some ⟨hour, minute, second, by omega⟩
        else none
      else none

/-- `^(\d{1,2}):(\d{2})` — the minutes of a time of day. -/
def parseHhMm (s : Option String) : Option ℤ :=
  match hourPart ((s.getD "").toList) with
  | none => none
  | some (hour, cs) => (twoDigits cs).map fun minute => hour * 60 + minute.1

/-! ## Occurrences -/

/-- The length of an occurrence that no readable duration states. -/
def fallbackDurationMs (s : Schedule) : ℤ :=
  match parseHhMm s.startTime, parseHhMm s.endTime with
  | some a, some b => (if b - a ≤ 0 then b - a + 1440 else b - a) * 60000
  | _, _ => 86400000

/-- The length of an occurrence. -/
def occurrenceDurationMs (s : Schedule) : ℤ :=
  (isoDurationToMs s.duration).getD (fallbackDurationMs s)

/-- How many local days before an instant an occurrence that covers it may have started. -/
def lookbackDays (s : Schedule) : ℕ :=
  min 366 (max 1 ((occurrenceDurationMs s + 86399999) / 86400000).toNat)

/-- The date some days later. -/
def addDaysLocal (localDate : LocalDate) (delta : ℤ) : Option LocalDate :=
  LocalDate.ofDate (Civil.civil (localDate.days + delta))

/-- The codes of the days of the week, from Sunday on. -/
def icalDay : List String := ["SU", "MO", "TU", "WE", "TH", "FR", "SA"]

/-- The code of the day of the week of a date. -/
def dayCode (localDate : LocalDate) : String := icalDay.getD ((localDate.days + 4) % 7).toNat ""

/-- An occurrence starts on a local date. -/
def occurrenceStartsOn (s : Schedule) (localDate : LocalDate) : Bool :=
  if s.startDate.any fun d => localDate.lt d then false
  else if s.endDate.any fun d => d.lt localDate then false
  else if s.exceptDate.any fun ds => ds.contains localDate then false
  else if s.byDay.any fun codes => decide (0 < codes.length ∧ dayCode localDate ∉ codes) then false
  else if s.byMonth.any fun ms => decide (0 < ms.length ∧ localDate.month ∉ ms) then false
  else if s.byMonthDay.any fun ds => decide (0 < ds.length ∧ localDate.day ∉ ds) then false
  else true

/-- Whether an instant falls into an occurrence. -/
inductive ScheduleState where
  | isIn
  | isOut
  | unevaluable
  deriving DecidableEq, Repr

/-- The instant at which the occurrence of a date starts. -/
def startInstant (zone : Zone) (startTime : WallTime) (day : LocalDate) : Option ℤ :=
  zonedWallClockToInstant (some zone) ⟨day, startTime⟩

/-- Looks for an occurrence that covers the instant among those of some dates, which start on some
of them and last a while; a date whose occurrence has no instant leaves the search unevaluable. -/
def searchDays (startsOn : LocalDate → Bool) (startOf : LocalDate → Option ℤ) (durMs atMs : ℤ) :
    List LocalDate → Bool → ScheduleState
  | [], unevaluable => if unevaluable then .unevaluable else .isOut
  | day :: days, unevaluable =>
    if startsOn day = false then searchDays startsOn startOf durMs atMs days unevaluable
    else
      match startOf day with
      | none => searchDays startsOn startOf durMs atMs days true
      | some t0 =>
        if t0 ≤ atMs ∧ atMs < t0 + durMs then .isIn
        else searchDays startsOn startOf durMs atMs days unevaluable

/-- The instant is one that a date holds. -/
def isValidMs (ms : ℤ) : Bool := decide (-Instant.maxMs ≤ ms ∧ ms ≤ Instant.maxMs)

/-- The dates before a date, from it on back. -/
def daysBack (today : LocalDate) (back : ℕ) : List LocalDate :=
  (List.range (back + 1)).filterMap fun k : ℕ => addDaysLocal today (-(k : ℤ))

/-- Whether an instant falls into an occurrence of a schedule. -/
def scheduleStateAt (zones : Zones) (s : Schedule) (atMs : ℤ) : Option ScheduleState :=
  match s.scheduleTimezone with
  | none => some .unevaluable
  | some tz =>
    if tz = "" then some .unevaluable
    else
      match normalizeStartTime (s.startTime.getD "00:00") with
      | none => some .unevaluable
      | some startTime =>
        match zones tz with
        | none => some .unevaluable
        | some zone =>
          if isValidMs atMs = false then some .unevaluable
          else
            match localDateInZone zone atMs with
            | none => none
            | some today =>
              some (searchDays (occurrenceStartsOn s) (startInstant zone startTime)
                (occurrenceDurationMs s) atMs (daysBack today (lookbackDays s)) false)

/-- A schedule is in effect; one that cannot be evaluated is. -/
def scheduleOccursAt (zones : Zones) (s : Schedule) (atMs : ℤ) : Option Bool :=
  (scheduleStateAt zones s atMs).map fun state => decide (state ≠ .isOut)

/-- Some schedule is in effect; they are asked one after the other. -/
def someOccursAt (zones : Zones) (schedules : List Schedule) (atMs : ℤ) : Option Bool :=
  match schedules with
  | [] => some false
  | s :: rest =>
    match scheduleOccursAt zones s atMs with
    | none => none
    | some true => some true
    | some false => someOccursAt zones rest atMs

/-! ## The next change -/

/-- The dates that the next change of a schedule is looked for on. -/
def daysAround (today : LocalDate) (back : ℕ) : List LocalDate :=
  (List.range (back + 367)).filterMap fun k : ℕ => addDaysLocal today (k - back)

/-- The starts and ends of the occurrences of some dates. -/
def boundsOf (zone : Zone) (s : Schedule) (startTime : WallTime) (days : List LocalDate) : List ℤ :=
  days.flatMap fun day =>
    if occurrenceStartsOn s day then
      match startInstant zone startTime day with
      | none => []
      | some start => [start, start + occurrenceDurationMs s]
    else []

/-- The instants at which a schedule may change next. -/
def candidatesOf (zones : Zones) (s : Schedule) (atMs : ℤ) : Option (List ℤ) :=
  match normalizeStartTime (s.startTime.getD "00:00"), s.scheduleTimezone with
  | some startTime, some tz =>
    if tz = "" then some []
    else
      match zones tz with
      | none => some []
      | some zone =>
        if isValidMs atMs = false then some []
        else
          (localDateInZone zone atMs).map fun today =>
            boundsOf zone s startTime (daysAround today (lookbackDays s))
  | _, _ => some []

/-- The instants at which some schedules may change next. -/
def allCandidates (zones : Zones) (schedules : List Schedule) (atMs : ℤ) : Option (List ℤ) :=
  match schedules with
  | [] => some []
  | s :: rest =>
    match candidatesOf zones s atMs with
    | none => none
    | some candidates => (allCandidates zones rest atMs).map (candidates ++ ·)

/-- The candidates after an instant, in order. -/
def candidatesAfter (zones : Zones) (schedules : List Schedule) (atMs : ℤ) : Option (List ℤ) :=
  (allCandidates zones schedules atMs).map fun candidates =>
    (candidates.dedup.filter fun c => decide (atMs < c)).insertionSort (· ≤ ·)

/-- The first candidate at which the schedules change. -/
def firstChange (zones : Zones) (schedules : List Schedule) : List ℤ → Option (Option ℤ)
  | [] => some none
  | candidate :: rest =>
    match someOccursAt zones schedules (candidate - 1), someOccursAt zones schedules candidate with
    | some before, some after =>
      if before ≠ after then if isValidMs candidate then some (some candidate) else none
      else firstChange zones schedules rest
    | _, _ => none

/-- The next instant at which some schedules change. -/
def nextScheduleTransition (zones : Zones) (schedules : List Schedule) (atMs : ℤ) :
    Option (Option ℤ) :=
  if schedules = [] ∨ isValidMs atMs = false then some none
  else
    match candidatesAfter zones schedules atMs with
    | none => none
    | some candidates => firstChange zones schedules candidates

end OpenConditions.Schedules

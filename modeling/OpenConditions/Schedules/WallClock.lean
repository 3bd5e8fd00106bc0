import OpenConditions.Lib.Civil
import OpenConditions.Lib.Instant
import OpenConditions.Lib.LocalClock

set_option relaxedAutoImplicit false
set_option autoImplicit false

/-!
# Wall clocks in a time zone

Local dates and times, and the instants they denote (`packages/model/src/schedule/wall-clock.ts`).

A zone is what the platform's formatter applies: an offset for every second.  Instants are
milliseconds since the epoch.  Texts of four, two and two digits are dates with these numbers,
whether or not there is such a day; their order is that of the numbers.

## Main definitions

* `Zone` — a time zone.
* `LocalDate`, `WallClock` — the texts `YYYY-MM-DD` and `YYYY-MM-DDTHH:mm:ss`.
* `partsAt`, `localDateInZone` — what a clock in a zone shows.
* `zonedWallClockToInstant` — the instant of a wall clock.
-/

namespace OpenConditions.Schedules

/-! ## Zones -/

/-- A time zone: its offset in seconds, east of UTC, at every second since the epoch. -/
structure Zone where
  offset : ℤ → ℤ
  /-- An offset is shorter than a day. -/
  bounded : ∀ t, -86400 < offset t ∧ offset t < 86400

/-- The second that a clock in a zone shows, counted as if the clock were in UTC. -/
def Zone.localSecond (zone : Zone) (epochMs : ℤ) : ℤ :=
  LocalClock.reading zone.offset (epochMs / 1000)

/-! ## Dates and clocks as texts -/

/-- The text `YYYY-MM-DD`. -/
structure LocalDate where
  year : ℕ
  month : ℕ
  day : ℕ
  digits : year < 10000 ∧ month < 100 ∧ day < 100 := by decide
  deriving DecidableEq, Repr

/-- The date of the text. -/
def LocalDate.date (d : LocalDate) : Civil.Date := ⟨d.year, d.month, d.day⟩

/-- The day of the date. -/
def LocalDate.days (d : LocalDate) : ℤ := d.date.days

/-- The text of a date, of which only years of four digits have one. -/
def LocalDate.ofDate (date : Civil.Date) : Option LocalDate :=
  if h : 0 ≤ date.year ∧ date.year < 10000 ∧ date.month < 100 ∧ date.day < 100 then
    some ⟨date.year.toNat, date.month, date.day, by omega⟩
  else none

/-- The text is before another. -/
def LocalDate.lt (a b : LocalDate) : Bool :=
  decide (a.year < b.year ∨
    (a.year = b.year ∧ (a.month < b.month ∨ (a.month = b.month ∧ a.day < b.day))))

/-- The text `HH:mm:ss`. -/
structure WallTime where
  hour : ℕ
  minute : ℕ
  second : ℕ
  digits : hour < 100 ∧ minute < 100 ∧ second < 100 := by decide
  deriving DecidableEq, Repr

/-- The text `YYYY-MM-DDTHH:mm:ss`. -/
structure WallClock where
  date : LocalDate
  time : WallTime
  deriving DecidableEq, Repr

/-! ## What a clock shows -/

/-- A date and a time of day in numbers. -/
structure WallClockParts where
  year : ℤ
  month : ℕ
  day : ℕ
  hour : ℕ
  minute : ℕ
  second : ℕ
  deriving DecidableEq, Repr

/-- What a clock in the zone shows, its year counted within its era. -/
def partsAt (zone : Zone) (epochMs : ℤ) : WallClockParts :=
  let localSecond := zone.localSecond epochMs
  let date := Civil.civil (localSecond / 86400)
  let ofDay := (localSecond % 86400).toNat
  { year := if date.year ≤ 0 then 1 - date.year else date.year
    month := date.month
    day := date.day
    hour := ofDay / 3600
    minute := ofDay / 60 % 60
    second := ofDay % 60 }

/-- The date that a clock in the zone shows; a year of more than four digits has no date text. -/
def localDateInZone (zone : Zone) (epochMs : ℤ) : Option LocalDate :=
  let p := partsAt zone epochMs
  LocalDate.ofDate ⟨p.year, p.month, p.day⟩

/-! ## The instant of a wall clock -/

/-- The instant of a date and time in UTC, where a year before 100 is one of the twentieth century
and numbers beyond their range run on. -/
def dateUTC (year monthIndex day hour minute second : ℤ) : ℤ :=
  let year := if 0 ≤ year ∧ year ≤ 99 then 1900 + year else year
  let first : Civil.Date := ⟨year + monthIndex / 12, (monthIndex % 12).toNat + 1, 1⟩
  ((first.days + (day - 1)) * 86400 + hour * 3600 + minute * 60 + second) * 1000

/-- The instant of what a clock shows, if it were in UTC. -/
def WallClockParts.asUtc (p : WallClockParts) : ℤ :=
  dateUTC p.year (p.month - 1) p.day p.hour p.minute p.second

/-- Corrects a guess by what the clock shows at it. -/
def correctGuess (zone : Zone) (naive guess : ℤ) : ℤ := guess + (naive - (partsAt zone guess).asUtc)

/-- The instant of a wall clock in a zone. -/
def zonedWallClockToInstant (zone : Option Zone) (want : WallClock) : Option ℤ :=
  let naive := dateUTC want.date.year (want.date.month - 1) want.date.day want.time.hour
    want.time.minute want.time.second
  let d := Civil.civil (naive / 86400000)
  if d.year ≠ want.date.year ∨ d.month ≠ want.date.month ∨ d.day ≠ want.date.day then none
  else zone.map fun zone => correctGuess zone naive (correctGuess zone naive naive)

end OpenConditions.Schedules

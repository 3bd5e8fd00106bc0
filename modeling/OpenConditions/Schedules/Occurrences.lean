import OpenConditions.Schedules.Recurrence
import OpenConditions.Schedules.Transitions

set_option relaxedAutoImplicit false
set_option autoImplicit false

/-!
# The occurrences of a schedule

An instant is in an occurrence that the evaluator looks at: one of the local date of the instant or
of a date no more than the look-back before it.  While the offset of the zone stays the same these
are all that can run.

## Main definitions

* `Runs` — the occurrence of a date runs at an instant.

## Main results

* `searchDays_eq_isIn`, `mem_daysBack` — what the search finds, and where it looks.
* `runs_looked_at` — an occurrence that runs is looked at where the offset has not changed since its
  start.
* `scheduleStateAt_isIn_iff` — when an instant is in exactly where an occurrence runs.
-/

namespace OpenConditions.Schedules

/-! ## Dates -/

/-- A date has a text where its year has four digits. -/
theorem LocalDate.ofDate_eq_some {date : Civil.Date} (hvalid : date.IsValid) {d : LocalDate} :
    LocalDate.ofDate date = some d ↔ d.date = date := by
  obtain ⟨hone, htwelve, hday, hlength⟩ := hvalid
  unfold LocalDate.ofDate
  constructor
  · intro h
    split_ifs at h with hdigits
    obtain rfl := Option.some.inj h
    unfold LocalDate.date
    dsimp only
    rw [Int.toNat_of_nonneg hdigits.1]
  · rintro rfl
    have hdigits := d.digits
    unfold LocalDate.date
    rw [dif_pos (by dsimp only; omega)]
    rfl

/-- A date has the text of its number of days. -/
theorem LocalDate.date_injective {a b : LocalDate} (h : a.date = b.date) : a = b := by
  obtain ⟨year, month, day, digits⟩ := a
  obtain ⟨year', month', day', digits'⟩ := b
  unfold LocalDate.date at h
  simp only [Civil.Date.mk.injEq] at h
  obtain ⟨hyear, rfl, rfl⟩ := h
  obtain rfl := Int.ofNat.inj hyear
  rfl

/-- The date some days later is the one of the day that many later. -/
theorem addDaysLocal_eq_some {today d : LocalDate} {delta : ℤ} :
    addDaysLocal today delta = some d ↔ d.date.IsValid ∧ d.days = today.days + delta := by
  unfold addDaysLocal
  rw [LocalDate.ofDate_eq_some (Civil.isValid_civil _)]
  constructor
  · intro h
    refine ⟨h ▸ Civil.isValid_civil _, ?_⟩
    unfold LocalDate.days at h ⊢
    rw [h, Civil.days_civil]
  · rintro ⟨hvalid, hdays⟩
    rw [← hdays]
    exact (Civil.civil_days hvalid).symm

/-- **The dates that are looked at**: the local date and those before it. -/
theorem mem_daysBack {today d : LocalDate} {back : ℕ} :
    d ∈ daysBack today back ↔
      d.date.IsValid ∧ today.days - back ≤ d.days ∧ d.days ≤ today.days := by
  simp only [daysBack, List.mem_filterMap, List.mem_range, addDaysLocal_eq_some]
  constructor
  · rintro ⟨k, hk, hvalid, hdays⟩
    exact ⟨hvalid, by omega, by omega⟩
  · rintro ⟨hvalid, hlow, hhigh⟩
    exact ⟨(today.days - d.days).toNat, by omega, hvalid, by omega⟩

/-! ## The search -/

/-- The occurrence of a date runs at an instant. -/
def Runs (zone : Zone) (s : Schedule) (startTime : WallTime) (atMs : ℤ) (day : LocalDate) : Prop :=
  day.date.IsValid ∧ occurrenceStartsOn s day = true ∧
    ∃ start, startInstant zone startTime day = some start ∧
      start ≤ atMs ∧ atMs < start + occurrenceDurationMs s

variable {zone : Zone} {zones : Zones} {s : Schedule} {startTime : WallTime} {atMs : ℤ}
  {day today : LocalDate} {tz : String}

/-- **What the search finds**: an occurrence that covers the instant. -/
theorem searchDays_eq_isIn {startsOn : LocalDate → Bool} {startOf : LocalDate → Option ℤ}
    {durMs : ℤ} {days : List LocalDate} (unevaluable : Bool) :
    searchDays startsOn startOf durMs atMs days unevaluable = .isIn ↔
      ∃ d ∈ days, startsOn d = true ∧ ∃ start, startOf d = some start ∧
        start ≤ atMs ∧ atMs < start + durMs := by
  induction days generalizing unevaluable with
  | nil => cases unevaluable <;> simp [searchDays]
  | cons d days ih =>
    rw [List.exists_mem_cons_iff]
    unfold searchDays
    by_cases hstarts : startsOn d = false
    · rw [if_pos hstarts, ih]
      simp [hstarts]
    · rw [if_neg hstarts]
      cases hstart : startOf d with
      | none =>
        dsimp only
        rw [ih]
        simp
      | some t0 =>
        dsimp only
        split_ifs with hruns
        · simp only [true_iff]
          exact Or.inl ⟨by simpa using hstarts, t0, rfl, hruns⟩
        · rw [ih]
          refine ⟨Or.inr, fun h => h.resolve_left ?_⟩
          rintro ⟨-, t, ht, hruns'⟩
          obtain rfl := Option.some.inj ht
          exact hruns hruns'

/-- Where the evaluator looks for an occurrence. -/
theorem scheduleStateAt_eq (htz : s.scheduleTimezone = some tz) (hne : tz ≠ "")
    (hzone : zones tz = some zone) (htime : normalizeStartTime (s.startTime.getD "00:00") =
      some startTime) (hat : isValidMs atMs = true) :
    scheduleStateAt zones s atMs = (localDateInZone zone atMs).map fun today =>
      searchDays (occurrenceStartsOn s) (startInstant zone startTime) (occurrenceDurationMs s) atMs
        (daysBack today (lookbackDays s)) false := by
  unfold scheduleStateAt
  rw [htz]
  dsimp only
  rw [if_neg hne, htime]
  dsimp only
  rw [hzone]
  dsimp only
  rw [if_neg (by simp [hat])]
  cases localDateInZone zone atMs <;> rfl

/-- **An instant is in where an occurrence runs that the evaluator looks at.** -/
theorem scheduleStateAt_isIn (htz : s.scheduleTimezone = some tz) (hne : tz ≠ "")
    (hzone : zones tz = some zone) (htime : normalizeStartTime (s.startTime.getD "00:00") =
      some startTime) (hat : isValidMs atMs = true) :
    scheduleStateAt zones s atMs = some .isIn ↔
      ∃ today, localDateInZone zone atMs = some today ∧
        ∃ day, Runs zone s startTime atMs day ∧
          today.days - lookbackDays s ≤ day.days ∧ day.days ≤ today.days := by
  rw [scheduleStateAt_eq htz hne hzone htime hat, Option.map_eq_some_iff]
  simp only [searchDays_eq_isIn, mem_daysBack, Runs]
  constructor
  · rintro ⟨today, htoday, day, ⟨hvalid, hlow, hhigh⟩, hruns⟩
    exact ⟨today, htoday, day, ⟨hvalid, hruns⟩, hlow, hhigh⟩
  · rintro ⟨today, htoday, day, ⟨hvalid, hruns⟩, hlow, hhigh⟩
    exact ⟨today, htoday, day, ⟨hvalid, hlow, hhigh⟩, hruns⟩

/-! ## Where occurrences run -/

/-- The number of the day that a clock in the zone shows. -/
def Zone.localDay (zone : Zone) (epochMs : ℤ) : ℤ := zone.localSecond epochMs / 86400

/-- From the first year on the date that a clock shows is that of its day. -/
theorem localDateInZone_days (hera : Civil.yearStart 1 ≤ zone.localDay atMs)
    (h : localDateInZone zone atMs = some today) : today.days = zone.localDay atMs := by
  have hyear : 1 ≤ (Civil.civil (zone.localDay atMs)).year := Civil.le_yearOf_iff.mpr hera
  have hdate : (⟨(partsAt zone atMs).year, (partsAt zone atMs).month, (partsAt zone atMs).day⟩ :
      Civil.Date) = Civil.civil (zone.localDay atMs) := by
    unfold Zone.localDay at hyear ⊢
    unfold partsAt
    dsimp only
    rw [if_neg (by omega)]
  unfold localDateInZone at h
  dsimp only at h
  rw [hdate, LocalDate.ofDate_eq_some (Civil.isValid_civil _)] at h
  unfold LocalDate.days
  rw [h, Civil.days_civil]

/-- The look-back covers an occurrence of up to 365 days. -/
theorem occurrenceDurationMs_le (hlength : occurrenceDurationMs s ≤ 365 * 86400000) :
    occurrenceDurationMs s ≤ lookbackDays s * 86400000 := by
  unfold lookbackDays
  omega

/-- A date whose occurrence has an instant is one from the year 100 on. -/
theorem le_days_of_startInstant {start : ℤ} (hvalid : day.date.IsValid)
    (hstart : startInstant zone startTime day = some start) : Civil.yearStart 100 ≤ day.days := by
  have hyear : 100 ≤ day.year := by
    by_contra hearly
    have hnone := zonedWallClockToInstant_eq_none (w := ⟨day, startTime⟩) hvalid
      (not_le.mp hearly) (some zone)
    unfold startInstant at hstart
    rw [hnone] at hstart
    cases hstart
  obtain ⟨-, -, hday, -⟩ := hvalid
  have := Civil.yearStart_le (show (100 : ℤ) ≤ day.year by omega)
  unfold LocalDate.days LocalDate.date Civil.Date.days
  dsimp only [LocalDate.date] at hday ⊢
  omega

/-- **An occurrence that runs is looked at where the offset has not changed since its start**, at
which the clock shows its date. -/
theorem runs_looked_at {start : ℤ} (hlength : occurrenceDurationMs s ≤ 365 * 86400000)
    (hvalid : day.date.IsValid) (hstart : startInstant zone startTime day = some start)
    (hle : start ≤ atMs) (hlt : atMs < start + occurrenceDurationMs s)
    (hdate : zone.localDay start = day.days)
    (hoffset : zone.offset (start / 1000) = zone.offset (atMs / 1000))
    (htoday : localDateInZone zone atMs = some today) :
    today.days - lookbackDays s ≤ day.days ∧ day.days ≤ today.days := by
  have hlook := occurrenceDurationMs_le hlength
  have hera := le_days_of_startInstant hvalid hstart
  have hone : Civil.yearStart 1 ≤ Civil.yearStart 100 := by decide
  have hdays : zone.localDay atMs - lookbackDays s ≤ day.days ∧ day.days ≤ zone.localDay atMs := by
    unfold Zone.localDay Zone.localSecond LocalClock.reading at hdate ⊢
    rw [hoffset] at hdate
    omega
  rw [localDateInZone_days (by omega) htoday]
  exact hdays

/-- **When an instant is in exactly where an occurrence runs.**  Of the occurrences that run, if any
does, one is of the local date or of one no more than the look-back before it.  An occurrence that
is not has seen the offset of the zone change, or starts while the clock shows another date. -/
theorem scheduleStateAt_isIn_iff (htz : s.scheduleTimezone = some tz) (hne : tz ≠ "")
    (hzone : zones tz = some zone) (htime : normalizeStartTime (s.startTime.getD "00:00") =
      some startTime) (hlength : occurrenceDurationMs s ≤ 365 * 86400000)
    (hat : isValidMs atMs = true) :
    ((scheduleStateAt zones s atMs = some .isIn ↔ ∃ day, Runs zone s startTime atMs day) ↔
      ((∃ day, Runs zone s startTime atMs day) → ∃ today, localDateInZone zone atMs = some today ∧
        ∃ day, Runs zone s startTime atMs day ∧
          today.days - lookbackDays s ≤ day.days ∧ day.days ≤ today.days)) ∧
    ∀ today day start, localDateInZone zone atMs = some today → Runs zone s startTime atMs day →
      startInstant zone startTime day = some start → zone.localDay start = day.days →
        zone.offset (start / 1000) = zone.offset (atMs / 1000) →
          today.days - lookbackDays s ≤ day.days ∧ day.days ≤ today.days := by
  rw [scheduleStateAt_isIn htz hne hzone htime hat]
  refine ⟨⟨fun h => h.mpr, fun h => ⟨?_, h⟩⟩, ?_⟩
  · rintro ⟨today, -, day, hruns, -⟩
    exact ⟨day, hruns⟩
  · rintro today day start htoday ⟨hvalid, -, start', hstart', hle, hlt⟩ hstart hdate hoffset
    obtain rfl := Option.some.inj (hstart'.symm.trans hstart)
    exact runs_looked_at hlength hvalid hstart hle hlt hdate hoffset htoday

/-! ## A night that is an hour shorter -/

/-- A platform that knows one zone. -/
def berlinZones : Zones := fun tz => if tz = "Europe/Berlin" then some berlin else none

/-- One occurrence of a day, from half past eleven in the night that Berlin moves its clocks. -/
def onceOvernight : Schedule where
  repeatFrequency := none
  repeatCount := none
  startDate := some ⟨2026, 3, 28, by decide⟩
  endDate := some ⟨2026, 3, 28, by decide⟩
  startTime := some "23:30"
  endTime := none
  duration := some "P1D"
  byDay := none
  byMonth := none
  byMonthDay := none
  exceptDate := none
  scheduleTimezone := some "Europe/Berlin"

/-- The night of the occurrence. -/
def overnightDate : LocalDate := ⟨2026, 3, 28, by decide⟩

/-- The start of its occurrence. -/
def overnightTime : WallTime := ⟨23, 30, 0, by decide⟩

/-- An hour after the start the occurrence runs and is found. -/
theorem scheduleStateAt_isIn_iff_overnight :
    scheduleStateAt berlinZones onceOvernight 1774740600000 = some .isIn ↔
      ∃ day, Runs berlin onceOvernight overnightTime 1774740600000 day := by
  have hiff := @scheduleStateAt_isIn_iff berlin berlinZones onceOvernight overnightTime
    1774740600000 "Europe/Berlin" rfl (by decide) rfl (by decide) (by decide +kernel)
    (by decide)
  refine hiff.1.mpr fun _ => ⟨⟨2026, 3, 29, by decide⟩, by decide, overnightDate,
    ⟨by decide, by decide +kernel, 1774737000000, by decide +kernel, by decide +kernel,
      by decide⟩, by decide +kernel, by decide +kernel⟩

/-- **An occurrence that runs is not found**: a quarter past midnight two nights later, as the clock
was moved forward, it has a quarter of an hour to go. -/
theorem overnight_overlooked :
    Runs berlin onceOvernight overnightTime 1774822500000 overnightDate ∧
      scheduleStateAt berlinZones onceOvernight 1774822500000 = some .isOut := by
  refine ⟨⟨by decide, by decide +kernel, 1774737000000, by decide +kernel,
    by decide, by decide +kernel⟩, by decide +kernel⟩

end OpenConditions.Schedules

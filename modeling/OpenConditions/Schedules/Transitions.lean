import OpenConditions.Schedules.WallClock

set_option relaxedAutoImplicit false
set_option autoImplicit false

/-!
# Wall clocks at transitions

The instant of a wall clock shows the wall clock wherever the zone does.  A wall clock in a gap has
the instant before it in zones that are behind UTC, and years before 100 have none.

## Main definitions

* `WallClock.seconds` — the second a wall clock denotes in UTC.
* `Converts` — what is asked of the instant of a wall clock.

## Main results

* `partsAt_of_localSecond` — a clock that shows the second of a wall clock shows its numbers.
* `correctGuess_eq` — a guess is corrected by the offset at it, in the years from 100 on.
* `converts_iff` — when the instant of a wall clock is right.
-/

namespace OpenConditions.Schedules

/-! ## Seconds -/

/-- A date and a time of day. -/
def WallClock.IsValid (w : WallClock) : Prop :=
  w.date.date.IsValid ∧ w.time.hour < 24 ∧ w.time.minute < 60 ∧ w.time.second < 60

instance (w : WallClock) : Decidable w.IsValid := by
  unfold WallClock.IsValid
  exact inferInstance

/-- The second of the day. -/
def WallTime.seconds (t : WallTime) : ℤ := t.hour * 3600 + t.minute * 60 + t.second

/-- The second that a wall clock denotes in UTC. -/
def WallClock.seconds (w : WallClock) : ℤ := w.date.days * 86400 + w.time.seconds

/-- The numbers of a wall clock. -/
def WallClock.parts (w : WallClock) : WallClockParts :=
  ⟨w.date.year, w.date.month, w.date.day, w.time.hour, w.time.minute, w.time.second⟩

variable {zone : Zone} {w : WallClock} {n g ms : ℤ}

/-- The day of a wall clock's second, and the rest. -/
theorem WallClock.seconds_div (hw : w.IsValid) :
    w.seconds / 86400 = w.date.days ∧ w.seconds % 86400 = w.time.seconds := by
  obtain ⟨-, hhour, hminute, hsecond⟩ := hw
  unfold WallClock.seconds WallTime.seconds
  omega

/-- **A clock that shows the second of a wall clock shows its numbers.** -/
theorem partsAt_of_localSecond (hw : w.IsValid) (hyear : 1 ≤ w.date.year)
    (h : zone.localSecond ms = w.seconds) : partsAt zone ms = w.parts := by
  obtain ⟨hday, hrest⟩ := WallClock.seconds_div hw
  have hdate : Civil.civil w.date.days = w.date.date := Civil.civil_days hw.1
  have hera : ¬w.date.date.year ≤ 0 := by
    unfold LocalDate.date
    dsimp only
    omega
  obtain ⟨-, hhour, hminute, hsecond⟩ := hw
  unfold partsAt
  dsimp only
  rw [h, hday, hrest, hdate, if_neg hera]
  simp only [LocalDate.date, WallClock.parts, WallTime.seconds, WallClockParts.mk.injEq, true_and]
  omega

/-- The day of numbers within their range. -/
theorem first_days {year : ℤ} {m day : ℕ} (hone : 1 ≤ m) (htwelve : m ≤ 12) :
    (Civil.Date.mk (year + ((m : ℤ) - 1) / 12) ((((m : ℤ) - 1) % 12).toNat + 1) 1).days +
      ((day : ℤ) - 1) = (Civil.Date.mk year m day).days := by
  have hdiv : ((m : ℤ) - 1) / 12 = 0 := by omega
  have hmod : (((m : ℤ) - 1) % 12).toNat + 1 = m := by omega
  rw [hdiv, hmod, add_zero]
  simp [Civil.Date.days]

/-- The instant of numbers within their range, from the year 100 on. -/
theorem dateUTC_eq {date : Civil.Date} {hour minute second : ℤ} (hdate : date.IsValid)
    (hyear : 100 ≤ date.year) : dateUTC date.year (date.month - 1) date.day hour minute second =
      1000 * (date.days * 86400 + hour * 3600 + minute * 60 + second) := by
  obtain ⟨hone, htwelve, -, -⟩ := hdate
  unfold dateUTC
  dsimp only
  rw [if_neg (by omega), first_days hone htwelve]
  exact Int.mul_comm _ _

/-- The instant of numbers within their range is not before the year they are read as. -/
theorem le_dateUTC {year : ℤ} {m day : ℕ} {hour minute second : ℤ} (hone : 1 ≤ m)
    (htwelve : m ≤ 12) (hday : 1 ≤ day) (hhour : 0 ≤ hour) (hminute : 0 ≤ minute)
    (hsecond : 0 ≤ second) :
    Civil.yearStart (if 0 ≤ year ∧ year ≤ 99 then 1900 + year else year) * 86400000 ≤
      dateUTC year (m - 1) day hour minute second := by
  unfold dateUTC
  dsimp only
  rw [first_days hone htwelve]
  unfold Civil.Date.days
  dsimp only
  omega

/-! ## What a clock shows as an instant -/

/-- The year of the second that a clock shows. -/
def Zone.localYear (zone : Zone) (epochMs : ℤ) : ℤ :=
  Civil.yearOf (zone.localSecond epochMs / 86400)

/-- The second that a clock shows at a guess. -/
theorem localSecond_eq (zone : Zone) (g : ℤ) : zone.localSecond (1000 * g) = g + zone.offset g := by
  unfold Zone.localSecond LocalClock.reading
  rw [Int.mul_ediv_cancel_left _ (by decide)]

/-- A clock shows a year or a later one from the year's first second on. -/
theorem le_localYear_iff {y : ℤ} :
    y ≤ zone.localYear ms ↔ Civil.yearStart y * 86400 ≤ zone.localSecond ms := by
  unfold Zone.localYear
  rw [Civil.le_yearOf_iff]
  omega

/-- The instant of what a clock shows, from the year 100 on. -/
theorem asUtc_partsAt (h : 100 ≤ zone.localYear ms) :
    (partsAt zone ms).asUtc = 1000 * zone.localSecond ms := by
  have hvalid := Civil.isValid_civil (zone.localSecond ms / 86400)
  have hyear : (Civil.civil (zone.localSecond ms / 86400)).year = zone.localYear ms := rfl
  have hdays := Civil.days_civil (zone.localSecond ms / 86400)
  unfold WallClockParts.asUtc partsAt
  dsimp only
  rw [if_neg (by omega), dateUTC_eq hvalid (by omega), hdays]
  omega

/-- **A guess is corrected by the offset at it**, where the clock shows a year from 100 on. -/
theorem correctGuess_eq (h : 100 ≤ zone.localYear (1000 * g)) :
    correctGuess zone (1000 * n) (1000 * g) = 1000 * LocalClock.correct zone.offset n g := by
  unfold correctGuess LocalClock.correct
  rw [asUtc_partsAt h, localSecond_eq]
  omega

/-- The instant of what a clock shows is not before the year that is shown. -/
theorem le_asUtc {y : ℤ} (hy : 100 ≤ y)
    (h : (1 ≤ zone.localYear ms ∧ zone.localYear ms < 100 ∧ y ≤ 1900) ∨
      zone.localYear ms ≤ 1 - y) :
    Civil.yearStart y * 86400000 ≤ (partsAt zone ms).asUtc := by
  obtain ⟨hone, htwelve, hday, -⟩ := Civil.isValid_civil (zone.localSecond ms / 86400)
  have hyear : (Civil.civil (zone.localSecond ms / 86400)).year = zone.localYear ms := rfl
  unfold WallClockParts.asUtc partsAt
  dsimp only
  refine le_trans ?_ (le_dateUTC hone htwelve hday (by omega) (by omega) (by omega))
  rw [hyear]
  refine Int.mul_le_mul_of_nonneg_right (Civil.yearStart_le ?_) (by decide)
  split_ifs <;> omega

/-! ## Years before 100 -/

/-- A guess that shows a year before 100 is corrected away from the wall clock. -/
theorem correctGuess_of_early (hn : Civil.yearStart 100 * 86400 ≤ n) (hg : n - 172800 ≤ g)
    (hlow : n - 259200 ≤ zone.localSecond (1000 * g))
    (h : zone.localYear (1000 * g) < 100) (hgn : g ≤ n + 86400) :
    n < (Civil.yearStart 100 + 3) * 86400 ∧
      correctGuess zone (1000 * n) (1000 * g) ≤ 2000 * n + 86400000 -
        Civil.yearStart 1900 * 86400000 := by
  have h99 : Civil.yearStart 99 = Civil.yearStart 100 - 365 := by decide
  have hone : Civil.yearStart 1 ≤ Civil.yearStart 99 := by decide
  have hearly : zone.localSecond (1000 * g) < Civil.yearStart 100 * 86400 := by
    by_contra hlate
    have := Iff.mpr le_localYear_iff (not_lt.mp hlate)
    omega
  have hera : 1 ≤ zone.localYear (1000 * g) := by
    refine Iff.mpr le_localYear_iff ?_
    omega
  have hasUtc := le_asUtc (y := 1900) (by decide) (Or.inl ⟨hera, h, le_rfl⟩)
  unfold correctGuess
  constructor <;> omega

/-- **A wall clock that a guess shows in a year before 100 is led thousands of years away.** -/
theorem correctGuess_twice_of_early (hn : Civil.yearStart 100 * 86400 ≤ n)
    (h : zone.localYear (1000 * n) < 100 ∨
      (100 ≤ zone.localYear (1000 * n) ∧
        zone.localYear (1000 * LocalClock.correct zone.offset n n) < 100)) :
    correctGuess zone (1000 * n) (correctGuess zone (1000 * n) (1000 * n)) + 172800000 <
      1000 * n := by
  have h100 : Civil.yearStart 100 = -683003 := by decide
  have h1900 : Civil.yearStart 1900 = -25567 := by decide
  have hoffset := zone.bounded n
  rcases h with h | ⟨hfirst, h⟩
  · have hlow : n - 259200 ≤ zone.localSecond (1000 * n) := by
      rw [localSecond_eq]
      omega
    obtain ⟨hearly, hguess⟩ := correctGuess_of_early hn (by omega) hlow h (by omega)
    generalize correctGuess zone (1000 * n) (1000 * n) = guess at *
    -- the first guess is of the years before the era, the second of the years as far into it
    have hbc : zone.localYear guess ≤ 1 - 1691 := by
      have hstart : Civil.yearStart (-1689) = -1336423 := by decide
      by_contra hlate
      have := Iff.mp le_localYear_iff (show (-1689 : ℤ) ≤ zone.localYear guess by omega)
      have hsecond : zone.localSecond guess = guess / 1000 + zone.offset (guess / 1000) := rfl
      have := zone.bounded (guess / 1000)
      omega
    have hasUtc := le_asUtc (by decide) (Or.inr hbc)
    have h1691 : Civil.yearStart 1691 = -101902 := by decide
    unfold correctGuess
    omega
  · rw [correctGuess_eq hfirst]
    unfold LocalClock.correct at h ⊢
    have hoffset' := zone.bounded (n - zone.offset n)
    have hlow : n - 259200 ≤ zone.localSecond (1000 * (n - zone.offset n)) := by
      rw [localSecond_eq]
      omega
    obtain ⟨hearly, hguess⟩ := correctGuess_of_early hn (by omega) hlow h (by omega)
    omega

/-! ## The instant of a wall clock -/

/-- A wall clock from the year 100 on is that of a second from then on. -/
theorem WallClock.le_seconds (hw : w.IsValid) (hyear : 100 ≤ w.date.year) :
    Civil.yearStart 100 * 86400 ≤ w.seconds := by
  have hstart := Civil.yearStart_le (show (100 : ℤ) ≤ w.date.year by omega)
  obtain ⟨-, -, hday, -⟩ := hw.1
  unfold WallClock.seconds WallTime.seconds LocalDate.days LocalDate.date Civil.Date.days
  dsimp only [LocalDate.date] at hday ⊢
  omega

/-- The instant of a wall clock from the year 100 on: the wall clock in UTC, corrected twice. -/
theorem zonedWallClockToInstant_eq (hw : w.IsValid) (hyear : 100 ≤ w.date.year) :
    zonedWallClockToInstant (some zone) w = some
      (correctGuess zone (1000 * w.seconds)
        (correctGuess zone (1000 * w.seconds) (1000 * w.seconds))) := by
  have hnaive : dateUTC w.date.year (w.date.month - 1) w.date.day w.time.hour w.time.minute
      w.time.second = 1000 * w.seconds := by
    have heq := @dateUTC_eq w.date.date w.time.hour w.time.minute w.time.second hw.1
      (by dsimp only [LocalDate.date]; omega)
    refine heq.trans ?_
    unfold WallClock.seconds WallTime.seconds LocalDate.days
    omega
  have hday : 1000 * w.seconds / 86400000 = w.date.days := by
    have := (WallClock.seconds_div hw).1
    omega
  have hdate : Civil.civil w.date.days = w.date.date := Civil.civil_days hw.1
  unfold zonedWallClockToInstant
  dsimp only
  rw [hnaive, hday, hdate, if_neg (by simp [LocalDate.date])]
  rfl

/-- A wall clock before the year 100 has no instant. -/
theorem zonedWallClockToInstant_eq_none (hdate : w.date.date.IsValid) (hyear : w.date.year < 100)
    (zone : Option Zone) : zonedWallClockToInstant zone w = none := by
  obtain ⟨hone, htwelve, hday, -⟩ := hdate
  have hlate := @le_dateUTC w.date.year _ _ w.time.hour w.time.minute w.time.second hone htwelve
    hday (by omega) (by omega) (by omega)
  rw [if_pos (by omega)] at hlate
  have hstart := Civil.yearStart_le (show (1900 : ℤ) ≤ 1900 + w.date.year by omega)
  unfold zonedWallClockToInstant
  dsimp only [LocalDate.date] at hlate ⊢
  rw [if_pos]
  left
  rw [Civil.civil_year]
  have := Civil.le_yearOf_iff.mpr (show Civil.yearStart 1900 ≤ dateUTC w.date.year
    (w.date.month - 1) w.date.day w.time.hour w.time.minute w.time.second / 86400000 by omega)
  omega

/-- What is asked of the instant of a wall clock: it shows the wall clock where the zone ever does,
and is not before a transition that skips it. -/
structure Converts (zone : Zone) (w : WallClock) : Prop where
  reads : LocalClock.Shown zone.offset w.seconds →
    ∃ r, zonedWallClockToInstant (some zone) w = some r ∧ zone.localSecond r = w.seconds
  passes : ∀ t, LocalClock.Skipped zone.offset t w.seconds →
    ∃ r, zonedWallClockToInstant (some zone) w = some r ∧ 1000 * t ≤ r

/-- The instant of a wall clock while no guess shows a year before 100. -/
theorem zonedWallClockToInstant_late (hw : w.IsValid) (hyear : 100 ≤ w.date.year)
    (hfirst : 100 ≤ zone.localYear (1000 * w.seconds))
    (hsecond : 100 ≤ zone.localYear (1000 * LocalClock.correct zone.offset w.seconds w.seconds)) :
    zonedWallClockToInstant (some zone) w = some (1000 * LocalClock.correct zone.offset w.seconds
      (LocalClock.correct zone.offset w.seconds w.seconds)) := by
  rw [zonedWallClockToInstant_eq hw hyear, correctGuess_eq hfirst, correctGuess_eq hsecond]

/-- **When the instant of a wall clock is right.**  In a zone at most 15 hours from UTC with
transitions at least 48 hours apart, the instant of a wall clock shows the wall clock where the zone
does and is not before the transition that skips it, exactly where the year is 100 or later, the
clock shows no earlier one at the two guesses, and a transition that skips the wall clock is not
after it in UTC. -/
theorem converts_iff (hbound : LocalClock.Bounded zone.offset 54000)
    (hsparse : LocalClock.Sparse zone.offset 172800) (hw : w.IsValid) :
    Converts zone w ↔
      100 ≤ w.date.year ∧ 100 ≤ zone.localYear (1000 * w.seconds) ∧
        100 ≤ zone.localYear (1000 * LocalClock.correct zone.offset w.seconds w.seconds) ∧
          ∀ t, LocalClock.Skipped zone.offset t w.seconds → t ≤ w.seconds := by
  have hcases := LocalClock.shown_or_skipped hbound hsparse (by decide) w.seconds
  constructor
  · intro h
    -- the instant is shown the wall clock, or is not before a transition near it
    have hsome : ∃ r, zonedWallClockToInstant (some zone) w = some r ∧
        1000 * w.seconds ≤ r + 172800000 := by
      rcases hcases with hshown | ⟨t, hskipped⟩
      · obtain ⟨r, hr, hreads⟩ := h.reads hshown
        have hnear := LocalClock.reading_near hbound hreads
        exact ⟨r, hr, by omega⟩
      · obtain ⟨r, hr, hpast⟩ := h.passes t hskipped
        have hnear := LocalClock.skipped_near hbound hskipped
        exact ⟨r, hr, by omega⟩
    obtain ⟨r, hr, hnear⟩ := hsome
    have hyear : 100 ≤ w.date.year := by
      by_contra hearly
      rw [zonedWallClockToInstant_eq_none hw.1 (not_le.mp hearly)] at hr
      cases hr
    have hlate : ¬(zone.localYear (1000 * w.seconds) < 100 ∨
        (100 ≤ zone.localYear (1000 * w.seconds) ∧
          zone.localYear (1000 * LocalClock.correct zone.offset w.seconds w.seconds) < 100)) := by
      intro hearly
      have hfar := correctGuess_twice_of_early (WallClock.le_seconds hw hyear) hearly
      rw [zonedWallClockToInstant_eq hw hyear] at hr
      obtain rfl := Option.some.inj hr
      omega
    have hfirst : 100 ≤ zone.localYear (1000 * w.seconds) := by omega
    have hsecond :
        100 ≤ zone.localYear (1000 * LocalClock.correct zone.offset w.seconds w.seconds) := by omega
    refine ⟨hyear, hfirst, hsecond, fun t hskipped => ?_⟩
    obtain ⟨r', hr', hpast⟩ := h.passes t hskipped
    rw [zonedWallClockToInstant_late hw hyear hfirst hsecond] at hr'
    obtain rfl := Option.some.inj hr'
    exact (LocalClock.le_correct_twice_iff hbound hsparse (by decide) hskipped).mp (by omega)
  · rintro ⟨hyear, hfirst, hsecond, hskip⟩
    have hr := zonedWallClockToInstant_late hw hyear hfirst hsecond
    refine ⟨fun hshown => ⟨_, hr, ?_⟩, fun t hskipped => ⟨_, hr, ?_⟩⟩
    · rw [localSecond_eq]
      exact LocalClock.reading_correct_twice hbound hsparse (by decide) hshown
    · have := (LocalClock.le_correct_twice_iff hbound hsparse (by decide) hskipped).mpr
        (hskip t hskipped)
      omega

/-! ## Zones with one transition -/

/-- A zone that goes from one offset to another. -/
def changingZone (before after transition : ℤ) (hbefore : -86400 < before ∧ before < 86400)
    (hafter : -86400 < after ∧ after < 86400) : Zone where
  offset t := if t < transition then before else after
  bounded t := by
    split_ifs
    · exact hbefore
    · exact hafter

/-- The zone changes at most once. -/
theorem changingZone_sparse {before after transition : ℤ}
    {hbefore : -86400 < before ∧ before < 86400} {hafter : -86400 < after ∧ after < 86400}
    (apart : ℤ) :
    LocalClock.Sparse (changingZone before after transition hbefore hafter).offset apart := by
  intro t t' ht ht' hlt
  unfold LocalClock.IsTransition changingZone at ht ht'
  dsimp only at ht ht'
  split_ifs at ht ht' <;> omega

/-- The zone is no farther from UTC than its offsets. -/
theorem changingZone_bounded {before after transition bound : ℤ}
    {hbefore : -86400 < before ∧ before < 86400} {hafter : -86400 < after ∧ after < 86400}
    (hb : -bound ≤ before ∧ before ≤ bound) (ha : -bound ≤ after ∧ after ≤ bound) :
    LocalClock.Bounded (changingZone before after transition hbefore hafter).offset bound := by
  intro t
  unfold changingZone
  dsimp only
  split_ifs
  · exact hb
  · exact ha

/-- Berlin in the spring of 2026: an hour ahead of UTC, two hours from 01:00 on the 29th of March. -/
def berlin : Zone := changingZone 3600 7200 1774746000 (by decide) (by decide)

/-- New York in the spring of 2026: five hours behind UTC, four from 07:00 on the 8th of March. -/
def newYork : Zone := changingZone (-18000) (-14400) 1772953200 (by decide) (by decide)

/-- Half past two on the night that Berlin moves its clocks from two to three. -/
def berlinGap : WallClock := ⟨⟨2026, 3, 29, by decide⟩, ⟨2, 30, 0, by decide⟩⟩

/-- Half past two on the night that New York moves its clocks from two to three. -/
def newYorkGap : WallClock := ⟨⟨2026, 3, 8, by decide⟩, ⟨2, 30, 0, by decide⟩⟩

/-- The skipped hour of Berlin is resolved past the transition. -/
theorem converts_iff_berlin : Converts berlin berlinGap := by
  have hbound : LocalClock.Bounded berlin.offset 54000 :=
    changingZone_bounded (by decide) (by decide)
  refine (converts_iff hbound (changingZone_sparse _) (by decide)).mpr
    ⟨by decide, by decide +kernel, by decide +kernel, fun t ht => ?_⟩
  have hseconds : berlinGap.seconds = 1774751400 := by decide
  rw [hseconds] at ht ⊢
  unfold LocalClock.Skipped berlin changingZone at ht
  dsimp only at ht
  split_ifs at ht <;> omega

/-- **The skipped hour of New York is resolved before the transition**, to 01:30. -/
theorem newYorkGap_before_transition :
    LocalClock.Bounded newYork.offset 54000 ∧ LocalClock.Sparse newYork.offset 172800 ∧
      newYorkGap.IsValid ∧ LocalClock.Skipped newYork.offset 1772953200 newYorkGap.seconds ∧
        zonedWallClockToInstant (some newYork) newYorkGap = some 1772951400000 ∧
          ¬Converts newYork newYorkGap := by
  have hskipped : LocalClock.Skipped newYork.offset 1772953200 newYorkGap.seconds := by
    unfold LocalClock.Skipped
    decide
  have hinstant : zonedWallClockToInstant (some newYork) newYorkGap = some 1772951400000 := by
    decide
  refine ⟨changingZone_bounded (by decide) (by decide), changingZone_sparse _, by decide,
    hskipped, hinstant, fun h => ?_⟩
  obtain ⟨r, hr, hpast⟩ := h.passes _ hskipped
  rw [hinstant] at hr
  obtain rfl := Option.some.inj hr
  omega

end OpenConditions.Schedules

import Mathlib.Data.Int.Notation
import Mathlib.Data.List.Induction
import Mathlib.Data.List.MinMax
import OpenConditions.Federation.Rate
import OpenConditions.Lib.OrderedMap

set_option relaxedAutoImplicit false
set_option autoImplicit false

/-!
# When the rate limiter lowers a tier

The limiter of `Federation/Rate.lean` lowers a peer's tier after overruns in several windows in a row
(`noteOverLimit` of `packages/federation/src/rate.ts`). It counts the minutes of the clock in which
it refused the peer, of all kinds together, while the windows it meters start at the peer's own
requests, of each kind apart.

## Main definitions

* `RefusedRun` — windows of a peer and kind in a row, each with a refusal for its rate.
* `firstOverrun` — the first refusal for rate of a peer in the minute of its last one.
* `Aligned` — a refusal in the minute after the last one is metered in the window after it.

## Main results

* `downgrade_counts_minutes` — two overrun windows that lower a tier.
* `downgrade_sustained` — in a run of aligned refusals a tier is lowered only after sustained overrun.
-/

namespace OpenConditions.Federation

/-! ## Windows in a row -/

/-- A peer's request of a kind was refused for its rate in a window. -/
def RefusedIn (log : List Metered) (peerId : String) (kind : RateKind) (window : ℤ) : Prop :=
  ∃ m ∈ log, m.refusedForRate = true ∧ m.call.peerId = peerId ∧ m.call.kind = kind ∧
    m.windowStart = window

/-- A window is the next one after another: none that was opened starts between the two. -/
def NextWindow (log : List Metered) (peerId : String) (kind : RateKind) (window next : ℤ) : Prop :=
  window < next ∧ ∀ m ∈ admissionsOf peerId kind log, ¬(window < m.windowStart ∧ m.windowStart < next)

/-- **Windows of a peer and kind in a row**, as many as `n` and up to `window`, each with a refusal
for its rate. -/
inductive RefusedRun (log : List Metered) (peerId : String) (kind : RateKind) : ℕ → ℤ → Prop
  | first {window : ℤ} : RefusedIn log peerId kind window → RefusedRun log peerId kind 1 window
  | next {n : ℕ} {window next : ℤ} : RefusedRun log peerId kind n window →
      NextWindow log peerId kind window next → RefusedIn log peerId kind next →
      RefusedRun log peerId kind (n + 1) next

/-- **Sustained overrun** of a peer: refusals for rate in as many windows in a row as the limiter
asks for. -/
def SustainedOverrun (options : RateLimiterOptions) (peerId : String) (log : List Metered) : Prop :=
  ∃ kind n window, RefusedRun log peerId kind n window ∧ options.downgradeWindows ≤ (n : ℤ)

/-- One request more: the first refusal for rate of a peer in the minute of its last one. -/
def noteOverrun (peerId : String) (first : Option Metered) (m : Metered) : Option Metered :=
  if m.refusedForRate = true ∧ m.call.peerId = peerId then
    match first with
    | some r => if r.call.now / rateWindowMs = m.call.now / rateWindowMs then some r else some m
    | none => some m
  else first

/-- The first refusal for rate of a peer in the minute of its last one. -/
def firstOverrun (peerId : String) (log : List Metered) : Option Metered :=
  log.foldl (noteOverrun peerId) none

/-- A request is aligned: where it is refused for its rate in the minute after that of the peer's last
such refusal, it is of the kind of the first refusal of that minute, and metered in the window that
follows that refusal's. -/
def Aligned (options : RateLimiterOptions) (log : List Metered) (s : RateLimiter) (c : RateCall) :
    Prop :=
  s.refusedForRate options c = true → ∀ r ∈ firstOverrun c.peerId log,
    c.now / rateWindowMs = r.call.now / rateWindowMs + 1 →
    c.kind = r.call.kind ∧ NextWindow log c.peerId c.kind r.windowStart (s.windowOf c).windowStart

instance (log : List Metered) (peerId : String) (kind : RateKind) (window next : ℤ) :
    Decidable (NextWindow log peerId kind window next) :=
  inferInstanceAs (Decidable (window < next ∧
    ∀ m ∈ admissionsOf peerId kind log, ¬(window < m.windowStart ∧ m.windowStart < next)))

instance (options : RateLimiterOptions) (log : List Metered) (s : RateLimiter) (c : RateCall) :
    Decidable (Aligned options log s c) :=
  inferInstanceAs (Decidable (s.refusedForRate options c = true →
    ∀ r ∈ firstOverrun c.peerId log, c.now / rateWindowMs = r.call.now / rateWindowMs + 1 →
      c.kind = r.call.kind ∧
        NextWindow log c.peerId c.kind r.windowStart (s.windowOf c).windowStart))

/-- Every request of a run is aligned. -/
def AllAligned (options : RateLimiterOptions) (calls : List RateCall) : Prop :=
  ∀ past c later, calls = past ++ c :: later →
    Aligned options (meterAll options .new past).1 (meterAll options .new past).2 c

/-! ## Two windows that count for three -/

/-- A peer of tier one that fills two windows and is refused in each, in the first one in two minutes
of the clock. -/
def unalignedCalls : List RateCall :=
  [⟨"p", .inbox, 1, 500, 30000⟩, ⟨"p", .inbox, 1, 500, 31000⟩, ⟨"p", .inbox, 1, 100, 50000⟩,
    ⟨"p", .inbox, 1, 100, 70000⟩, ⟨"p", .inbox, 1, 500, 90000⟩, ⟨"p", .inbox, 1, 500, 91000⟩,
    ⟨"p", .inbox, 1, 100, 125000⟩]

/-- Its tier is lowered, and it was not refused in three windows. -/
theorem downgrade_counts_minutes :
    (unalignedCalls.map RateCall.now).Pairwise (· ≤ ·) ∧
    (meterAll defaultRateOptions .new unalignedCalls).2.effectiveTier "p" 1 125000 < 1 ∧
    ¬SustainedOverrun defaultRateOptions "p"
      (meterAll defaultRateOptions .new unalignedCalls).1 := by
  refine ⟨by decide, by decide, ?_⟩
  rintro ⟨kind, n, window, hrun, hn⟩
  have hrefused : ∀ w, RefusedIn (meterAll defaultRateOptions .new unalignedCalls).1 "p" kind w →
      w = 30000 ∨ w = 90000 := by
    rintro w ⟨m, hm, hrate, -, -, rfl⟩
    revert m
    decide
  have hlength : (window = 30000 ∧ n ≤ 1) ∨ (window = 90000 ∧ n ≤ 2) := by
    clear hn
    induction hrun with
    | first h =>
      rcases hrefused _ h with rfl | rfl
      · exact Or.inl ⟨rfl, le_refl _⟩
      · exact Or.inr ⟨rfl, by decide⟩
    | next _ hnext h ih =>
      have hlt := hnext.1
      rcases hrefused _ h with rfl | rfl <;> rcases ih with ⟨rfl, hle⟩ | ⟨rfl, hle⟩
      · omega
      · omega
      · exact Or.inr ⟨rfl, by omega⟩
      · omega
  have hthree : defaultRateOptions.downgradeWindows = 3 := rfl
  omega

/-! ## The windows of a run -/

section Windows

variable {options : RateLimiterOptions} {log : List Metered} {s : RateLimiter} {last : ℤ}
  {c : RateCall}

/-- A sequence of requests with one more. -/
theorem meterAll_append_one (calls : List RateCall) :
    meterAll options s (calls ++ [c]) =
      ((meterAll options s calls).1 ++ [(meterAll options s calls).2.meter options c],
        ((meterAll options s calls).2.check options c).2) := by
  induction calls generalizing s with
  | nil => rfl
  | cons c' calls ih => simp only [List.cons_append, meterAll, ih]

/-- **The windows of a run**: each that a request was metered in starts no later than the window that
is kept, and that one has started. -/
structure WindowsInv (log : List Metered) (s : RateLimiter) (last : ℤ) : Prop where
  seen : ∀ m ∈ log, m.admitted = true ∨ m.refusedForRate = true →
    ∃ w, s.windows.get (windowKey m.call.peerId m.call.kind) = some w ∧
      m.windowStart ≤ w.windowStart
  started : ∀ peerId kind w, s.windows.get (windowKey peerId kind) = some w → w.windowStart ≤ last

/-- It still holds later. -/
theorem WindowsInv.mono (h : WindowsInv log s last) {later : ℤ} (hle : last ≤ later) :
    WindowsInv log s later :=
  ⟨h.seen, fun peerId kind w hw => (h.started peerId kind w hw).trans hle⟩

/-- The window of a request starts no earlier than the windows before. -/
theorem WindowsInv.le_windowOf (h : WindowsInv log s last) (hnow : last ≤ c.now) {m : Metered}
    (hm : m ∈ log) (hmetered : m.admitted = true ∨ m.refusedForRate = true)
    (hpeer : m.call.peerId = c.peerId) (hkind : m.call.kind = c.kind) :
    m.windowStart ≤ (s.windowOf c).windowStart := by
  obtain ⟨w, hget, hle⟩ := h.seen m hm hmetered
  rw [hpeer, hkind] at hget
  have hstarted := h.started _ _ w hget
  unfold RateLimiter.windowOf
  rw [hget]
  simp only
  split_ifs
  · exact hle.trans (hstarted.trans hnow)
  · exact hle

/-- A request that is refused for its rate is in the window that is kept. -/
theorem windowOf_of_refusedForRate (h : s.refusedForRate options c = true) :
    s.windows.get (windowKey c.peerId c.kind) = some (s.windowOf c) := by
  obtain ⟨hcount, -⟩ := Bool.and_eq_true_iff.mp h
  have hpos := of_decide_eq_true hcount
  unfold RateLimiter.windowOf at hpos ⊢
  cases hget : s.windows.get (windowKey c.peerId c.kind) with
  | none =>
    rw [hget] at hpos
    exact absurd hpos (lt_irrefl _)
  | some current =>
    rw [hget] at hpos
    simp only at hpos ⊢
    split_ifs with hlong
    · rw [if_pos hlong] at hpos
      exact absurd hpos (lt_irrefl _)
    · rfl

/-- **One check keeps the windows in order.** -/
theorem WindowsInv.check (h : WindowsInv log s last) (hnow : last ≤ c.now) :
    WindowsInv (log ++ [s.meter options c]) (s.check options c).2 c.now := by
  have hkept : (s.check options c).2.windows = s.windows → (s.check options c).1.ok = false →
      WindowsInv (log ++ [s.meter options c]) (s.check options c).2 c.now := by
    intro hsame hok
    refine ⟨fun m hm hmetered => ?_, fun peerId kind w hw => ?_⟩
    · rw [hsame]
      rcases List.mem_append.mp hm with hm | hm
      · exact h.seen m hm hmetered
      · obtain rfl := List.mem_singleton.mp hm
        rcases hmetered with hadmitted | hrate
        · exact absurd (hok.symm.trans hadmitted) (by decide)
        · exact ⟨_, windowOf_of_refusedForRate hrate, le_refl _⟩
    · exact (h.started peerId kind w (hsame ▸ hw)).trans hnow
  rcases @check_cases options s c with ⟨-, -, -, hs⟩ | ⟨hok, -, -⟩ | ⟨hok, -, -⟩
  · rw [hs]
    have hstart : (s.windowOf c).windowStart ≤ c.now := by
      unfold RateLimiter.windowOf
      cases hget : s.windows.get (windowKey c.peerId c.kind) with
      | none => exact le_refl _
      | some current =>
        simp only
        split_ifs
        · exact le_refl _
        · exact (h.started _ _ current hget).trans hnow
    have hget : ∀ peerId kind, (s.countIn c).windows.get (windowKey peerId kind) =
        if windowKey peerId kind = windowKey c.peerId c.kind then
          some ⟨(s.windowOf c).windowStart, (s.windowOf c).count + c.count⟩
        else s.windows.get (windowKey peerId kind) := by
      intro peerId kind
      unfold RateLimiter.countIn
      simp only [OrderedMap.get_set]
    refine ⟨fun m hm hmetered => ?_, fun peerId kind w hw => ?_⟩
    · rw [hget]
      rcases List.mem_append.mp hm with hm | hm
      · split_ifs with hkey
        · obtain ⟨hpeer, hkind⟩ := windowKey_inj hkey
          exact ⟨_, rfl, h.le_windowOf hnow hm hmetered hpeer hkind⟩
        · exact h.seen m hm hmetered
      · obtain rfl := List.mem_singleton.mp hm
        exact ⟨_, if_pos rfl, le_refl _⟩
    · rw [hget] at hw
      split_ifs at hw with hkey
      · obtain rfl := Option.some.inj hw
        exact hstart
      · exact (h.started peerId kind w hw).trans hnow
  · exact hkept (check_windows_of_refused hok) hok
  · exact hkept (check_windows_of_refused hok) hok

end Windows

/-! ## The overruns of a run -/

section Overruns

variable {options : RateLimiterOptions} {log : List Metered} {s : RateLimiter} {last : ℤ}
  {c : RateCall} {peerId : String} {kind : RateKind} {window next : ℤ} {n : ℕ}

/-- A refusal stays one. -/
theorem RefusedIn.append (h : RefusedIn log peerId kind window) (m : Metered) :
    RefusedIn (log ++ [m]) peerId kind window := by
  obtain ⟨r, hr, hrefused⟩ := h
  exact ⟨r, List.mem_append_left _ hr, hrefused⟩

/-- The next window of a refused one stays the next one. -/
theorem NextWindow.meter (h : NextWindow log peerId kind window next) (hw : WindowsInv log s last)
    (hnow : last ≤ c.now) (hrefused : RefusedIn log peerId kind next) :
    NextWindow (log ++ [s.meter options c]) peerId kind window next := by
  refine ⟨h.1, fun m hm => ?_⟩
  obtain ⟨hlog, hown⟩ := List.mem_filter.mp hm
  obtain ⟨hadmitted, hof⟩ := Bool.and_eq_true_iff.mp hown
  rcases List.mem_append.mp hlog with hlog | hlog
  · exact h.2 m (List.mem_filter.mpr ⟨hlog, hown⟩)
  · obtain rfl := List.mem_singleton.mp hlog
    obtain ⟨hpeer, hkind⟩ := of_decide_eq_true hof
    obtain ⟨r, hr, hrate, hrpeer, hrkind, rfl⟩ := hrefused
    have hle := hw.le_windowOf hnow hr (Or.inr hrate) (hrpeer.trans hpeer.symm)
      (hrkind.trans hkind.symm)
    exact fun hbetween => absurd hbetween.2 (not_lt.mpr hle)

/-- The last window of a row has a refusal. -/
theorem RefusedRun.refusedIn (h : RefusedRun log peerId kind n window) :
    RefusedIn log peerId kind window := by
  cases h with
  | first h => exact h
  | next _ _ h => exact h

/-- Windows in a row stay in a row. -/
theorem RefusedRun.meter (h : RefusedRun log peerId kind n window) (hw : WindowsInv log s last)
    (hnow : last ≤ c.now) : RefusedRun (log ++ [s.meter options c]) peerId kind n window := by
  induction h with
  | first h => exact .first (h.append _)
  | next _ hnext h ih => exact .next ih (hnext.meter hw hnow h) (h.append _)

/-- Sustained overrun stays so. -/
theorem SustainedOverrun.meter (h : SustainedOverrun options peerId log) (hw : WindowsInv log s last)
    (hnow : last ≤ c.now) : SustainedOverrun options peerId (log ++ [s.meter options c]) := by
  obtain ⟨kind, n, window, hrun, hn⟩ := h
  exact ⟨kind, n, window, hrun.meter hw hnow, hn⟩

/-- The first refusal of the minute, after a request more. -/
theorem firstOverrun_append (m : Metered) :
    firstOverrun peerId (log ++ [m]) = noteOverrun peerId (firstOverrun peerId log) m := by
  simp [firstOverrun]

/-- **The overruns of a peer**: the streak is at most the number of windows in a row up to that of the
first refusal in the minute of the last one, and a downgrade follows sustained overrun. -/
structure OverrunInv (options : RateLimiterOptions) (peerId : String) (log : List Metered)
    (s : RateLimiter) : Prop where
  closed : s.downgrades.get peerId = none → firstOverrun peerId log = none
  streak : ∀ state, s.downgrades.get peerId = some state →
    ∃ r n, firstOverrun peerId log = some r ∧
      state.lastOverWindow = some (r.call.now / rateWindowMs) ∧
      RefusedRun log peerId r.call.kind n r.windowStart ∧ state.streak ≤ (n : ℤ)
  armed : ∀ state, s.downgrades.get peerId = some state → 0 < state.effectiveTierUntil →
    SustainedOverrun options peerId log

/-- What is not a refusal of the peer for its rate keeps it. -/
theorem OverrunInv.other (h : OverrunInv options peerId log s) (hw : WindowsInv log s last)
    (hnow : last ≤ c.now)
    (hother : ¬(s.refusedForRate options c = true ∧ c.peerId = peerId))
    (hsame : (s.check options c).2.downgrades.get peerId = s.downgrades.get peerId) :
    OverrunInv options peerId (log ++ [s.meter options c]) (s.check options c).2 := by
  have hfirst : firstOverrun peerId (log ++ [s.meter options c]) = firstOverrun peerId log := by
    rw [firstOverrun_append]
    exact if_neg hother
  refine ⟨fun hnone => ?_, fun state hstate => ?_, fun state hstate huntil => ?_⟩
  · exact hfirst.trans (h.closed (hsame ▸ hnone))
  · obtain ⟨r, n, hr, hlast, hrun, hn⟩ := h.streak state (hsame ▸ hstate)
    exact ⟨r, n, hfirst.trans hr, hlast, hrun.meter hw hnow, hn⟩
  · exact (h.armed state (hsame ▸ hstate) huntil).meter hw hnow

/-- **An aligned refusal of the peer keeps it**: in the same minute the row stays, in the next one it
is one window longer, and later it starts again. -/
theorem OverrunInv.refusal (h : OverrunInv options c.peerId log s) (hw : WindowsInv log s last)
    (hnow : last ≤ c.now) (hrate : s.refusedForRate options c = true)
    (haligned : Aligned options log s c) :
    OverrunInv options c.peerId (log ++ [s.meter options c])
      (s.noteOverLimit options c.peerId c.now) := by
  have hget : (s.noteOverLimit options c.peerId c.now).downgrades.get c.peerId =
      some (((s.downgrades.get c.peerId).getD ⟨none, 0, 0⟩).noteOverLimit options c.now) := by
    unfold RateLimiter.noteOverLimit
    simp only [OrderedMap.get_set_self]
  have hrefused : RefusedIn (log ++ [s.meter options c]) c.peerId c.kind
      (s.windowOf c).windowStart :=
    ⟨s.meter options c, by simp, hrate, rfl, rfl, rfl⟩
  have hfirst : firstOverrun c.peerId (log ++ [s.meter options c]) =
      match firstOverrun c.peerId log with
      | some r =>
        if r.call.now / rateWindowMs = c.now / rateWindowMs then some r
        else some (s.meter options c)
      | none => some (s.meter options c) := by
    rw [firstOverrun_append]
    exact if_pos ⟨hrate, rfl⟩
  have hrow : ∃ r n, firstOverrun c.peerId (log ++ [s.meter options c]) = some r ∧
      c.now / rateWindowMs = r.call.now / rateWindowMs ∧
      RefusedRun (log ++ [s.meter options c]) c.peerId r.call.kind n r.windowStart ∧
      (((s.downgrades.get c.peerId).getD ⟨none, 0, 0⟩).noteOverLimit options c.now).streak ≤
        (n : ℤ) := by
    rw [hfirst]
    cases hstate : s.downgrades.get c.peerId with
    | none =>
      rw [h.closed hstate]
      exact ⟨s.meter options c, 1, rfl, rfl, .first hrefused, by simp [DowngradeState.noteOverLimit]⟩
    | some state =>
      obtain ⟨r, n, hr, hlast, hrun, hn⟩ := h.streak state hstate
      rw [hr]
      simp only [Option.getD_some, DowngradeState.noteOverLimit, hlast, Option.some.injEq]
      split_ifs with hsame hnext
      · exact ⟨r, n, rfl, hsame.symm, hrun.meter hw hnow, hn⟩
      · obtain ⟨hkind, hfollows⟩ := haligned hrate r hr (by omega)
        rw [← hkind] at hrun
        refine ⟨s.meter options c, n + 1, rfl, rfl, .next (hrun.meter hw hnow) ?_ hrefused, ?_⟩
        · refine ⟨hfollows.1, fun m hm => ?_⟩
          obtain ⟨hlog, hown⟩ := List.mem_filter.mp hm
          rcases List.mem_append.mp hlog with hlog | hlog
          · exact hfollows.2 m (List.mem_filter.mpr ⟨hlog, hown⟩)
          · obtain rfl := List.mem_singleton.mp hlog
            exact fun hbetween => absurd hbetween.2 (lt_irrefl _)
        · push_cast
          omega
      · exact ⟨s.meter options c, 1, rfl, rfl, .first hrefused, by simp⟩
  obtain ⟨r, n, hr, hminute, hrun, hn⟩ := hrow
  refine ⟨fun hnone => absurd (hget.symm.trans hnone) (by simp), fun state hstate => ?_,
    fun state hstate huntil => ?_⟩
  · obtain rfl := Option.some.inj (hget.symm.trans hstate)
    exact ⟨r, n, hr, congrArg some hminute, hrun, hn⟩
  · obtain rfl := Option.some.inj (hget.symm.trans hstate)
    by_cases hmany : options.downgradeWindows ≤
        (((s.downgrades.get c.peerId).getD ⟨none, 0, 0⟩).noteOverLimit options c.now).streak
    · exact ⟨r.call.kind, n, r.windowStart, hrun, hmany.trans hn⟩
    · have hkept : (((s.downgrades.get c.peerId).getD ⟨none, 0, 0⟩).noteOverLimit options
          c.now).effectiveTierUntil =
          ((s.downgrades.get c.peerId).getD ⟨none, 0, 0⟩).effectiveTierUntil := if_neg hmany
      rw [hkept] at huntil
      cases hstate : s.downgrades.get c.peerId with
      | none =>
        rw [hstate] at huntil
        exact absurd huntil (lt_irrefl _)
      | some state =>
        rw [hstate] at huntil
        exact (h.armed state hstate huntil).meter hw hnow

/-- **One aligned check keeps it.** -/
theorem OverrunInv.check (h : OverrunInv options peerId log s) (hw : WindowsInv log s last)
    (hnow : last ≤ c.now) (haligned : Aligned options log s c) :
    OverrunInv options peerId (log ++ [s.meter options c]) (s.check options c).2 := by
  cases hrate : s.refusedForRate options c with
  | false =>
    exact h.other hw hnow (by simp [hrate]) (by rw [check_downgrades_of_not_rate hrate])
  | true =>
    have hs : (s.check options c).2 = s.noteOverLimit options c.peerId c.now := by
      rcases @check_cases options s c with ⟨-, hno, -⟩ | ⟨-, -, hs⟩ | ⟨-, hno, -⟩
      · exact absurd hrate (by simp [hno])
      · exact hs
      · exact absurd hrate (by simp [hno])
    by_cases hpeer : c.peerId = peerId
    · subst hpeer
      rw [hs]
      exact h.refusal hw hnow hrate haligned
    · refine h.other hw hnow (fun hboth => hpeer hboth.2) ?_
      rw [hs]
      unfold RateLimiter.noteOverLimit
      exact OrderedMap.get_set_of_ne _ _ (Ne.symm hpeer)

/-- **Every run of aligned requests keeps both**, by induction on its last request. -/
theorem overrunInv_meterAll (calls : List RateCall) :
    (calls.map RateCall.now).Pairwise (· ≤ ·) → AllAligned options calls →
    ∀ last, (∀ c ∈ calls, c.now ≤ last) →
    WindowsInv (meterAll options .new calls).1 (meterAll options .new calls).2 last ∧
      OverrunInv options peerId (meterAll options .new calls).1
        (meterAll options .new calls).2 := by
  induction calls using List.reverseRecOn with
  | nil =>
    intro _ _ last _
    exact ⟨⟨fun m hm => absurd hm List.not_mem_nil, fun _ _ w hw => absurd hw (by simp [meterAll,
      RateLimiter.new])⟩, ⟨fun _ => rfl, fun state hstate => absurd hstate (by simp [meterAll,
      RateLimiter.new]), fun state hstate => absurd hstate (by simp [meterAll, RateLimiter.new])⟩⟩
  | append_singleton calls c ih =>
    intro htimes haligned last hlast
    rw [List.map_append, List.map_singleton, List.pairwise_append] at htimes
    have hbefore : ∀ c' ∈ calls, c'.now ≤ c.now := fun c' hc' =>
      htimes.2.2 c'.now (List.mem_map_of_mem hc') c.now (List.mem_singleton_self _)
    have hearlier : AllAligned options calls := fun past c' later hcalls =>
      haligned past c' (later ++ [c]) (by simp [hcalls])
    obtain ⟨hw, ho⟩ := ih htimes.1 hearlier c.now hbefore
    have hstep : Aligned options (meterAll options .new calls).1 (meterAll options .new calls).2 c :=
      haligned calls c [] rfl
    rw [meterAll_append_one]
    exact ⟨(hw.check le_rfl).mono (hlast c (by simp)), ho.check hw le_rfl hstep⟩

/-- **A tier is lowered only after sustained overrun.** In every run of requests at times in order,
each aligned, and after every part of it, a peer whose tier is lowered at an instant from the epoch on
was refused for its rate in as many windows in a row as the limiter asks for; and a request that is
not refused for its rate changes no downgrade. -/
theorem downgrade_sustained (options : RateLimiterOptions) (calls : List RateCall)
    (htimes : (calls.map RateCall.now).Pairwise (· ≤ ·)) (haligned : AllAligned options calls) :
    (∀ past later, calls = past ++ later → ∀ peerId registeredTier now, 0 ≤ now →
      (meterAll options .new past).2.effectiveTier peerId registeredTier now < registeredTier →
      SustainedOverrun options peerId (meterAll options .new past).1) ∧
    ∀ (s : RateLimiter) (c : RateCall), s.refusedForRate options c = false →
      (s.check options c).2.downgrades = s.downgrades := by
  refine ⟨?_, fun s c h => check_downgrades_of_not_rate h⟩
  rintro past later rfl peerId registeredTier now hnow hlower
  rw [List.map_append, List.pairwise_append] at htimes
  have hpast : AllAligned options past := fun before c after hpast =>
    haligned before c (after ++ later) (by simp [hpast])
  have hlast : ∀ c ∈ past, c.now ≤ (past.map RateCall.now).foldr max 0 := fun c hc =>
    List.le_max_of_le' 0 (List.mem_map_of_mem hc) le_rfl
  have hinv := (@overrunInv_meterAll options peerId past htimes.1 hpast _ hlast).2
  unfold RateLimiter.effectiveTier at hlower
  cases hstate : (meterAll options .new past).2.downgrades.get peerId with
  | none =>
    rw [hstate] at hlower
    exact absurd hlower (Fin.lt_irrefl _)
  | some state =>
    rw [hstate] at hlower
    simp only at hlower
    split_ifs at hlower with huntil
    · exact hinv.armed state hstate (hnow.trans_lt huntil)
    · exact absurd hlower (Fin.lt_irrefl _)

/-- A run is aligned when its earlier part is and its last request. -/
theorem AllAligned.append_one {calls : List RateCall} (h : AllAligned options calls)
    (hlast : Aligned options (meterAll options .new calls).1 (meterAll options .new calls).2 c) :
    AllAligned options (calls ++ [c]) := by
  intro past c' later hcalls
  rcases List.eq_nil_or_concat later with rfl | ⟨init, final, rfl⟩
  · obtain ⟨rfl, hone⟩ := List.append_inj' hcalls rfl
    obtain rfl := List.head_eq_of_cons_eq hone
    exact hlast
  · have hcalls' : calls ++ [c] = (past ++ c' :: init) ++ [final] := by simpa using hcalls
    obtain ⟨rfl, -⟩ := List.append_inj' hcalls' rfl
    exact h past c' init rfl

/-- A peer of tier one that is refused in three windows in a row. -/
def alignedCalls : List RateCall :=
  [⟨"p", .inbox, 1, 500, 0⟩, ⟨"p", .inbox, 1, 501, 1000⟩, ⟨"p", .inbox, 1, 500, 60000⟩,
    ⟨"p", .inbox, 1, 501, 61000⟩, ⟨"p", .inbox, 1, 500, 120000⟩, ⟨"p", .inbox, 1, 501, 121000⟩]

/-- Its tier is lowered. -/
theorem downgrade_sustained_three :
    SustainedOverrun defaultRateOptions "p" (meterAll defaultRateOptions .new alignedCalls).1 := by
  have hnil : AllAligned defaultRateOptions [] := fun past c later h => absurd h (by simp)
  have haligned : AllAligned defaultRateOptions alignedCalls :=
    (((((hnil.append_one (by decide)).append_one (by decide)).append_one (by decide)).append_one
      (by decide)).append_one (by decide)).append_one (by decide)
  exact (downgrade_sustained defaultRateOptions alignedCalls (by decide) haligned).1 alignedCalls []
    (by simp) "p" 1 121000 (by decide) (by decide)

end Overruns

end OpenConditions.Federation

import Mathlib.Algebra.Order.BigOperators.Group.List
import Mathlib.Algebra.Order.Ring.Int
import Mathlib.Data.Int.Notation
import OpenConditions.Lib.OrderedMap

set_option relaxedAutoImplicit false
set_option autoImplicit false

/-!
# The rate limiter of the federation

What a peer may push and read in a minute (`packages/federation/src/rate.ts`): fixed windows for each
peer and kind, which a peer's own requests open, and a tier that is lowered for a while after
sustained overrun.

## Main definitions

* `RateLimiter` — the windows and the downgrades.
* `RateLimiter.check` — one request, admitted or refused.
* `meterAll` — a sequence of requests, with the window that each was metered in.
* `admissionBound` — the larger of the page ceiling and the caps of some requests.

## Main results

* `check_windows_of_refused` — a refused request leaves every window as it was.
* `admission_bounded` — what is admitted in a window stays below the bound, and in a minute below
  twice that.

## Implementation notes

Times are epoch milliseconds and counts are whole.
-/

namespace OpenConditions.Federation

/-! ## The limiter -/

/-- The kinds of metered requests. -/
inductive RateKind where
  | inbox | backfill
  deriving DecidableEq, Repr

/-- A kind as the keys of the windows name it. -/
def RateKind.text : RateKind → String
  | .inbox => "inbox"
  | .backfill => "backfill"

/-- A peer's per-minute transport budget. -/
structure PeerRatePolicy where
  inboxPerMin : ℤ
  backfillPerMin : ℤ
  deriving DecidableEq, Repr

/-- The fixed metering window, in milliseconds. -/
def rateWindowMs : ℤ := 60000

/-- The per-minute transport budget for a trust tier. -/
def ratePolicyForTier : Fin 3 → PeerRatePolicy
  | 0 => ⟨100, 100⟩
  | 1 => ⟨1000, 300⟩
  | 2 => ⟨2000, 600⟩

/-- What a limiter is made with. -/
structure RateLimiterOptions where
  policyForTier : Fin 3 → PeerRatePolicy
  downgradeWindows : ℤ
  downgradeCooldownSec : ℤ
  maxPageSize : ℤ

/-- The defaults: three windows, five minutes, and the largest page of the outbox. -/
def defaultRateOptions : RateLimiterOptions := ⟨ratePolicyForTier, 3, 300, 500⟩

/-- A metering window. -/
structure WindowState where
  windowStart : ℤ
  count : ℤ
  deriving DecidableEq, Repr

/-- What is kept of a peer's overruns; no last window stands for minus infinity. -/
structure DowngradeState where
  /-- The window index of the most recent over-limit rejection. -/
  lastOverWindow : Option ℤ
  /-- Consecutive over-limit windows counted so far. -/
  streak : ℤ
  /-- Until when the peer's tier is downgraded. -/
  effectiveTierUntil : ℤ
  deriving DecidableEq, Repr

/-- The state of a limiter. -/
structure RateLimiter where
  windows : OrderedMap String WindowState
  downgrades : OrderedMap String DowngradeState

/-- A new limiter. -/
def RateLimiter.new : RateLimiter := ⟨.empty, .empty⟩

/-- One request. -/
structure RateCall where
  peerId : String
  kind : RateKind
  registeredTier : Fin 3
  count : ℤ
  now : ℤ
  deriving DecidableEq, Repr

/-- The outcome of a single rate check. -/
structure RateCheckResult where
  ok : Bool
  retryAfterSec : Option ℤ
  effectiveTier : Fin 3
  downgraded : Bool
  deriving DecidableEq, Repr

/-- The tier below one, the lowest below itself. -/
def tierBelow (tier : Fin 3) : Fin 3 := ⟨tier.val - 1, by omega⟩

/-- The tier of a peer for rate purposes. -/
def RateLimiter.effectiveTier (s : RateLimiter) (peerId : String) (registeredTier : Fin 3)
    (now : ℤ) : Fin 3 :=
  match s.downgrades.get peerId with
  | some state => if now < state.effectiveTierUntil then tierBelow registeredTier else registeredTier
  | none => registeredTier

/-- The state of a peer's overruns after another one. -/
def DowngradeState.noteOverLimit (options : RateLimiterOptions) (state : DowngradeState) (now : ℤ) :
    DowngradeState :=
  let windowIndex := now / rateWindowMs
  let streak :=
    if state.lastOverWindow = some windowIndex then state.streak
    else if state.lastOverWindow = some (windowIndex - 1) then state.streak + 1
    else 1
  { lastOverWindow := some windowIndex
    streak := streak
    effectiveTierUntil :=
      if options.downgradeWindows ≤ streak then now + options.downgradeCooldownSec * 1000
      else state.effectiveTierUntil }

/-- Records a refusal in a window that already had activity. -/
def RateLimiter.noteOverLimit (options : RateLimiterOptions) (s : RateLimiter) (peerId : String)
    (now : ℤ) : RateLimiter :=
  let state := (s.downgrades.get peerId).getD ⟨none, 0, 0⟩
  { s with downgrades := s.downgrades.set peerId (state.noteOverLimit options now) }

/-- The key of a peer's windows of a kind. -/
def windowKey (peerId : String) (kind : RateKind) : String := peerId ++ "\x00" ++ kind.text

/-- The cap that a request is held to. -/
def RateLimiter.capOf (options : RateLimiterOptions) (s : RateLimiter) (c : RateCall) : ℤ :=
  let policy := options.policyForTier (s.effectiveTier c.peerId c.registeredTier c.now)
  match c.kind with
  | .inbox => policy.inboxPerMin
  | .backfill => policy.backfillPerMin

/-- The window that a request is metered in: the current one while it lasts, else a fresh one. -/
def RateLimiter.windowOf (s : RateLimiter) (c : RateCall) : WindowState :=
  match s.windows.get (windowKey c.peerId c.kind) with
  | some current =>
    if rateWindowMs ≤ c.now - current.windowStart then ⟨c.now, 0⟩ else current
  | none => ⟨c.now, 0⟩

/-- Whether a request is refused because its window had traffic and would overrun the cap. -/
def RateLimiter.refusedForRate (options : RateLimiterOptions) (s : RateLimiter) (c : RateCall) :
    Bool :=
  let window := s.windowOf c
  decide (0 < window.count) && decide (s.capOf options c < window.count + c.count)

/-- Whether a request is refused because its page is beyond the ceiling. -/
def RateLimiter.refusedForSize (options : RateLimiterOptions) (s : RateLimiter) (c : RateCall) :
    Bool :=
  decide ((s.windowOf c).count = 0) && decide (options.maxPageSize < c.count)

/-- Counts a request in its window. -/
def RateLimiter.countIn (s : RateLimiter) (c : RateCall) : RateLimiter :=
  let window := s.windowOf c
  let counted : WindowState := ⟨window.windowStart, window.count + c.count⟩
  { s with windows := s.windows.set (windowKey c.peerId c.kind) counted }

/-- The seconds until a refused peer may retry. -/
def retryAfterSec (windowStart now : ℤ) : ℤ :=
  max 1 (-((-(windowStart + rateWindowMs - now)) / 1000))

/-- **Meters a request** against the budget of the peer's effective tier. -/
def RateLimiter.check (options : RateLimiterOptions) (s : RateLimiter) (c : RateCall) :
    RateCheckResult × RateLimiter :=
  let window := s.windowOf c
  if s.refusedForRate options c || s.refusedForSize options c then
    let s' := if s.refusedForRate options c then s.noteOverLimit options c.peerId c.now else s
    let tierAfter := s'.effectiveTier c.peerId c.registeredTier c.now
    (⟨false, some (retryAfterSec window.windowStart c.now), tierAfter,
      decide (tierAfter < c.registeredTier)⟩, s')
  else
    let s' := s.countIn c
    let tierAfter := s'.effectiveTier c.peerId c.registeredTier c.now
    (⟨true, none, tierAfter, decide (tierAfter < c.registeredTier)⟩, s')

/-! ## Runs -/

/-- A request as it was metered: the start of its window, its cap and how it ended. -/
structure Metered where
  call : RateCall
  windowStart : ℤ
  cap : ℤ
  admitted : Bool
  refusedForRate : Bool
  deriving DecidableEq, Repr

/-- A request as it is metered. -/
def RateLimiter.meter (options : RateLimiterOptions) (s : RateLimiter) (c : RateCall) : Metered :=
  ⟨c, (s.windowOf c).windowStart, s.capOf options c, (s.check options c).1.ok,
    s.refusedForRate options c⟩

/-- A sequence of requests: how each was metered, and the limiter after them. -/
def meterAll (options : RateLimiterOptions) : RateLimiter → List RateCall →
    List Metered × RateLimiter
  | s, [] => ([], s)
  | s, c :: calls =>
    let rest := meterAll options (s.check options c).2 calls
    (s.meter options c :: rest.1, rest.2)

/-- The admissions of a peer and kind. -/
def admissionsOf (peerId : String) (kind : RateKind) (log : List Metered) : List Metered :=
  log.filter fun m => m.admitted && decide (m.call.peerId = peerId ∧ m.call.kind = kind)

/-- The total count of some requests. -/
def totalOf (log : List Metered) : ℤ := (log.map fun m => m.call.count).sum

/-- The larger of the page ceiling and the largest cap in force at some requests. -/
def admissionBound (options : RateLimiterOptions) (log : List Metered) : ℤ :=
  log.foldr (fun m bound => max m.cap bound) options.maxPageSize

section Check

variable {options : RateLimiterOptions} {s : RateLimiter} {c : RateCall}

/-- **What a check can do**: it admits the request and counts it in its window, or refuses it for its
rate and notes the overrun, or refuses it for its size and does nothing. -/
theorem check_cases :
    ((s.check options c).1.ok = true ∧ s.refusedForRate options c = false ∧
      s.refusedForSize options c = false ∧
      (s.check options c).2 = s.countIn c) ∨
    ((s.check options c).1.ok = false ∧ s.refusedForRate options c = true ∧
      (s.check options c).2 = s.noteOverLimit options c.peerId c.now) ∨
    ((s.check options c).1.ok = false ∧ s.refusedForRate options c = false ∧
      (s.check options c).2 = s) := by
  unfold RateLimiter.check
  cases hrate : s.refusedForRate options c with
  | true =>
    right
    left
    simp
  | false =>
    cases hsize : s.refusedForSize options c with
    | true =>
      right
      right
      simp
    | false =>
      left
      simp

/-- **A refused request leaves every window as it was.** -/
theorem check_windows_of_refused (h : (s.check options c).1.ok = false) :
    (s.check options c).2.windows = s.windows := by
  rcases @check_cases options s c with ⟨hok, -⟩ | ⟨-, -, hs⟩ | ⟨-, -, hs⟩
  · exact absurd hok (by simp [h])
  · rw [hs]
    rfl
  · rw [hs]

/-- **A request that is not refused for its rate leaves every downgrade as it was.** -/
theorem check_downgrades_of_not_rate (h : s.refusedForRate options c = false) :
    (s.check options c).2.downgrades = s.downgrades := by
  rcases @check_cases options s c with ⟨-, -, -, hs⟩ | ⟨-, hrate, -⟩ | ⟨-, -, hs⟩
  · rw [hs]
    rfl
  · exact absurd hrate (by simp [h])
  · rw [hs]

/-- Two peers' windows of kinds have two keys. -/
theorem windowKey_inj {p q : String} {k l : RateKind} (h : windowKey p k = windowKey q l) :
    p = q ∧ k = l := by
  have hlist := congrArg (fun t : String => t.toList.reverse) h
  simp only [windowKey, String.toList_append, List.reverse_append] at hlist
  cases k <;> cases l
  · simpa [RateKind.text, String.toList_inj] using hlist
  · simp [RateKind.text] at hlist
  · simp [RateKind.text] at hlist
  · simpa [RateKind.text, String.toList_inj] using hlist

end Check

/-! ## The bound of some requests -/

section Bound

variable {options : RateLimiterOptions} {log log' : List Metered} {m : Metered}

/-- The page ceiling is below the bound. -/
theorem maxPageSize_le_admissionBound : options.maxPageSize ≤ admissionBound options log := by
  induction log with
  | nil => exact le_refl _
  | cons m log ih => exact ih.trans (le_max_right _ _)

/-- Each cap is below the bound. -/
theorem cap_le_admissionBound (h : m ∈ log) : m.cap ≤ admissionBound options log := by
  induction log with
  | nil => exact absurd h List.not_mem_nil
  | cons m' log ih =>
    rcases List.mem_cons.mp h with rfl | h
    · exact le_max_left _ _
    · exact (ih h).trans (le_max_right _ _)

/-- The bound of fewer requests is lower. -/
theorem admissionBound_mono (h : ∀ m ∈ log, m ∈ log') :
    admissionBound options log ≤ admissionBound options log' := by
  induction log with
  | nil => exact maxPageSize_le_admissionBound
  | cons m log ih =>
    exact max_le (cap_le_admissionBound (h m (List.mem_cons_self ..)))
      (ih fun m' hm' => h m' (List.mem_cons_of_mem _ hm'))

/-- The total of two lists of requests. -/
theorem totalOf_append : totalOf (log ++ log') = totalOf log + totalOf log' := by
  simp [totalOf]

/-- The total of requests of no negative count is not negative. -/
theorem totalOf_nonneg (h : ∀ m ∈ log, 0 ≤ m.call.count) : 0 ≤ totalOf log :=
  List.sum_nonneg fun x hx => by
    obtain ⟨m, hm, rfl⟩ := List.mem_map.mp hx
    exact h m hm

/-- The total is that of the requests that pass a test and of those that do not. -/
theorem totalOf_filter_add (test : Metered → Bool) :
    totalOf (log.filter test) + totalOf (log.filter fun m => !test m) = totalOf log := by
  induction log with
  | nil => rfl
  | cons m log ih =>
    simp only [totalOf] at ih ⊢
    cases htest : test m
    · simp only [List.filter_cons, htest, Bool.not_false, if_true, Bool.false_eq_true, if_false,
        List.map_cons, List.sum_cons]
      omega
    · simp only [List.filter_cons, htest, Bool.not_true, if_true, Bool.false_eq_true, if_false,
        List.map_cons, List.sum_cons]
      omega

/-- The total of some of the requests is at most that of all. -/
theorem totalOf_filter_le (h : ∀ m ∈ log, 0 ≤ m.call.count) (test : Metered → Bool) :
    totalOf (log.filter test) ≤ totalOf log := by
  have hrest : 0 ≤ totalOf (log.filter fun m => !test m) :=
    totalOf_nonneg fun m hm => h m (List.mem_of_mem_filter hm)
  have hall := @totalOf_filter_add log test
  omega

end Bound

/-! ## The admissions of a peer and kind -/

section Invariant

variable {options : RateLimiterOptions} {admissions : List Metered} {window : Option WindowState}
  {last : ℤ}

/-- **The admissions of a peer and kind, and the window they stand in**: the window counts its own
admissions and is the last one, the windows stand a window's length apart, and what any of a window's
admissions total is below their bound. -/
structure KindInv (options : RateLimiterOptions) (admissions : List Metered)
    (window : Option WindowState) (last : ℤ) : Prop where
  closed : window = none → admissions = []
  opened : ∀ w, window = some w → (∃ m ∈ admissions, m.windowStart = w.windowStart) ∧
    w.count = totalOf (admissions.filter fun m => decide (m.windowStart = w.windowStart)) ∧
    ∀ m ∈ admissions, m.windowStart ≤ w.windowStart
  within : ∀ m ∈ admissions, m.windowStart ≤ m.call.now ∧
    m.call.now < m.windowStart + rateWindowMs ∧ m.call.now ≤ last
  spaced : ∀ m ∈ admissions, ∀ m' ∈ admissions, m.windowStart < m'.windowStart →
    m.windowStart + rateWindowMs ≤ m'.windowStart
  nonneg : ∀ m ∈ admissions, 0 ≤ m.call.count
  bounded : ∀ (test : Metered → Bool) (start : ℤ),
    admissions.filter (fun m => decide (m.windowStart = start) && test m) ≠ [] →
    totalOf (admissions.filter fun m => decide (m.windowStart = start) && test m) ≤
      admissionBound options
        (admissions.filter fun m => decide (m.windowStart = start) && test m)

/-- The window that a request at `now` is metered in. -/
def windowAt (window : Option WindowState) (now : ℤ) : WindowState :=
  match window with
  | some current => if rateWindowMs ≤ now - current.windowStart then ⟨now, 0⟩ else current
  | none => ⟨now, 0⟩

/-- It holds of a new limiter. -/
theorem kindInv_nil : KindInv options [] none last where
  closed _ := rfl
  opened w hw := absurd hw (by simp)
  within m hm := absurd hm List.not_mem_nil
  spaced m hm := absurd hm List.not_mem_nil
  nonneg m hm := absurd hm List.not_mem_nil
  bounded test start h := absurd rfl h

/-- It still holds later. -/
theorem KindInv.mono (h : KindInv options admissions window last) {later : ℤ} (hle : last ≤ later) :
    KindInv options admissions window later :=
  { h with
    within := fun m hm => ⟨(h.within m hm).1, (h.within m hm).2.1, (h.within m hm).2.2.trans hle⟩ }

/-- The window of a request counts the admissions that stand in it, and follows the others. -/
theorem KindInv.windowAt_spec (h : KindInv options admissions window last) {now : ℤ}
    (hnow : last ≤ now) :
    (windowAt window now).count =
        totalOf (admissions.filter fun m => decide (m.windowStart = (windowAt window now).windowStart)) ∧
      (windowAt window now).windowStart ≤ now ∧
      now < (windowAt window now).windowStart + rateWindowMs ∧
      ∀ m ∈ admissions, m.windowStart = (windowAt window now).windowStart ∨
        m.windowStart + rateWindowMs ≤ (windowAt window now).windowStart := by
  have hlength : (0 : ℤ) < rateWindowMs := by decide
  have hfresh : (∀ m ∈ admissions, m.windowStart + rateWindowMs ≤ now) →
      (0 : ℤ) = totalOf (admissions.filter fun m => decide (m.windowStart = now)) ∧ now ≤ now ∧
        now < now + rateWindowMs ∧ ∀ m ∈ admissions, m.windowStart = now ∨
          m.windowStart + rateWindowMs ≤ now := by
    intro hbefore
    have hnone : admissions.filter (fun m => decide (m.windowStart = now)) = [] := by
      refine List.filter_eq_nil_iff.mpr fun m hm => ?_
      have := hbefore m hm
      simp
      omega
    refine ⟨by rw [hnone]; rfl, le_refl _, by omega, fun m hm => Or.inr (hbefore m hm)⟩
  unfold windowAt
  cases hw : window with
  | none => exact hfresh fun m hm => absurd (h.closed hw ▸ hm) List.not_mem_nil
  | some current =>
    obtain ⟨⟨m₀, hm₀, hstart⟩, hcount, hlast⟩ := h.opened current hw
    simp only
    split_ifs with hlong
    · exact hfresh fun m hm => by
        have := hlast m hm
        omega
    · have hwithin := h.within m₀ hm₀
      refine ⟨hcount, by omega, by omega, fun m hm => ?_⟩
      rcases (hlast m hm).lt_or_eq with hlt | heq
      · exact Or.inr (hstart ▸ h.spaced m hm m₀ hm₀ (hstart ▸ hlt))
      · exact Or.inl heq

/-- **An admission keeps it.** -/
theorem KindInv.admission (h : KindInv options admissions window last) {m : Metered}
    (hnow : last ≤ m.call.now) (hcount : 0 ≤ m.call.count)
    (hstart : m.windowStart = (windowAt window m.call.now).windowStart)
    (hrate : ¬(0 < (windowAt window m.call.now).count ∧
      m.cap < (windowAt window m.call.now).count + m.call.count))
    (hsize : ¬((windowAt window m.call.now).count = 0 ∧ options.maxPageSize < m.call.count)) :
    KindInv options (admissions ++ [m])
      (some ⟨m.windowStart, (windowAt window m.call.now).count + m.call.count⟩) m.call.now := by
  obtain ⟨hprior, hle, hlt, hothers⟩ := h.windowAt_spec hnow
  set prior := (windowAt window m.call.now).count with hpriorDef
  rw [← hstart] at hprior hle hlt hothers
  have hlength : (0 : ℤ) < rateWindowMs := by decide
  have hpriorNonneg : 0 ≤ prior := by
    rw [hprior]
    exact totalOf_nonneg fun m' hm' => h.nonneg m' (List.mem_of_mem_filter hm')
  refine ⟨fun hw => absurd hw (by simp), ?_, ?_, ?_, ?_, ?_⟩
  · rintro w hw
    obtain rfl := Option.some.inj hw
    refine ⟨⟨m, by simp, rfl⟩, ?_, ?_⟩
    · simp only [List.filter_append, totalOf_append, ← hprior]
      simp [totalOf]
    · intro m' hm'
      rcases List.mem_append.mp hm' with hm' | hm'
      · rcases hothers m' hm' with heq | hbefore
        · exact heq.le
        · simp only
          omega
      · exact (List.mem_singleton.mp hm') ▸ le_refl _
  · intro m' hm'
    rcases List.mem_append.mp hm' with hm' | hm'
    · obtain ⟨hfrom, hto, hbefore⟩ := h.within m' hm'
      exact ⟨hfrom, hto, hbefore.trans hnow⟩
    · obtain rfl := List.mem_singleton.mp hm'
      exact ⟨hle, hlt, le_refl _⟩
  · intro a ha b hb hab
    rcases List.mem_append.mp ha with ha' | ha' <;> rcases List.mem_append.mp hb with hb' | hb'
    · exact h.spaced a ha' b hb' hab
    · obtain rfl := List.mem_singleton.mp hb'
      rcases hothers a ha' with heq | hbefore
      · omega
      · exact hbefore
    · obtain rfl := List.mem_singleton.mp ha'
      rcases hothers b hb' with heq | hbefore <;> omega
    · obtain rfl := List.mem_singleton.mp ha'
      obtain rfl := List.mem_singleton.mp hb'
      omega
  · intro m' hm'
    rcases List.mem_append.mp hm' with hm' | hm'
    · exact h.nonneg m' hm'
    · exact (List.mem_singleton.mp hm') ▸ hcount
  · intro test start hne
    rw [List.filter_append] at hne ⊢
    by_cases hin : (decide (m.windowStart = start) && test m) = true
    · -- The window held `prior` before, of which these are some.
      obtain ⟨hat, -⟩ := Bool.and_eq_true_iff.mp hin
      obtain rfl := of_decide_eq_true hat
      rw [List.filter_singleton, hin, cond_true, totalOf_append]
      have hsome : totalOf (admissions.filter fun m' =>
          decide (m'.windowStart = m.windowStart) && test m') ≤ prior := by
        have hsplit : admissions.filter (fun m' =>
            decide (m'.windowStart = m.windowStart) && test m') =
            (admissions.filter fun m' => decide (m'.windowStart = m.windowStart)).filter test := by
          rw [List.filter_filter]
          exact List.filter_congr fun m' _ => Bool.and_comm _ _
        rw [hprior, hsplit]
        exact totalOf_filter_le (fun m' hm' => h.nonneg m' (List.mem_of_mem_filter hm')) test
      have hcapBound : m.cap ≤ admissionBound options (admissions.filter (fun m' =>
          decide (m'.windowStart = m.windowStart) && test m') ++ [m]) :=
        cap_le_admissionBound (by simp)
      have hpageBound : options.maxPageSize ≤ admissionBound options (admissions.filter (fun m' =>
          decide (m'.windowStart = m.windowStart) && test m') ++ [m]) :=
        maxPageSize_le_admissionBound
      have hone : totalOf [m] = m.call.count := by simp [totalOf]
      rw [hone]
      rcases hpriorNonneg.lt_or_eq with hpos | hzero
      · have := not_and.mp hrate hpos
        omega
      · have := not_and.mp hsize hzero.symm
        omega
    · rw [Bool.not_eq_true] at hin
      rw [List.filter_singleton, hin, cond_false, List.append_nil] at hne ⊢
      exact h.bounded test start hne

end Invariant

/-! ## Every sequence of requests -/

section Runs

variable {options : RateLimiterOptions} {s : RateLimiter} {log : List Metered} {last : ℤ}
  {peerId : String} {kind : RateKind}

/-- **One check keeps it**, of every peer and kind. -/
theorem KindInv.check {c : RateCall}
    (h : KindInv options (admissionsOf peerId kind log)
      (s.windows.get (windowKey peerId kind)) last)
    (hnow : last ≤ c.now) (hcount : 0 ≤ c.count) :
    KindInv options (admissionsOf peerId kind (log ++ [s.meter options c]))
      ((s.check options c).2.windows.get (windowKey peerId kind)) c.now := by
  have happend : admissionsOf peerId kind (log ++ [s.meter options c]) =
      admissionsOf peerId kind log ++
        if (s.check options c).1.ok && decide (c.peerId = peerId ∧ c.kind = kind) then
          [s.meter options c] else [] := by
    unfold admissionsOf
    rw [List.filter_append, List.filter_singleton, cond_eq_ite]
    rfl
  rw [happend]
  rcases @check_cases options s c with ⟨hok, hrate, hsize, hs⟩ | ⟨hok, -, -⟩ | ⟨hok, -, -⟩
  · rw [hs, hok, Bool.true_and]
    by_cases hown : c.peerId = peerId ∧ c.kind = kind
    · obtain ⟨rfl, rfl⟩ := hown
      rw [if_pos (by simp)]
      have hget : (s.countIn c).windows.get (windowKey c.peerId c.kind) =
          some ⟨(s.meter options c).windowStart, (s.windowOf c).count + c.count⟩ := by
        unfold RateLimiter.countIn
        simp only [OrderedMap.get_set, if_true]
        rfl
      rw [hget]
      have hrate' : ¬(0 < (s.windowOf c).count ∧
          s.capOf options c < (s.windowOf c).count + c.count) := by
        simpa [RateLimiter.refusedForRate] using hrate
      have hsize' : ¬((s.windowOf c).count = 0 ∧ options.maxPageSize < c.count) := by
        simpa [RateLimiter.refusedForSize] using hsize
      exact h.admission hnow hcount rfl hrate' hsize'
    · rw [if_neg (by simpa using hown), List.append_nil]
      have hget : (s.countIn c).windows.get (windowKey peerId kind) =
          s.windows.get (windowKey peerId kind) := by
        unfold RateLimiter.countIn
        simp only [OrderedMap.get_set]
        rw [if_neg]
        intro hkey
        obtain ⟨hp, hk⟩ := windowKey_inj hkey
        exact hown ⟨hp.symm, hk.symm⟩
      rw [hget]
      exact h.mono hnow
  · rw [hok, Bool.false_and, if_neg (by decide), List.append_nil, check_windows_of_refused hok]
    exact h.mono hnow
  · rw [hok, Bool.false_and, if_neg (by decide), List.append_nil, check_windows_of_refused hok]
    exact h.mono hnow

/-- **Every sequence of requests keeps it.** -/
theorem KindInv.meterAll (calls : List RateCall) :
    ∀ {s : RateLimiter} {log : List Metered} {last : ℤ},
    KindInv options (admissionsOf peerId kind log)
      (s.windows.get (windowKey peerId kind)) last →
    (last :: calls.map RateCall.now).Pairwise (· ≤ ·) → (∀ c ∈ calls, 0 ≤ c.count) →
    ∃ last', KindInv options (admissionsOf peerId kind (log ++ (meterAll options s calls).1))
      ((Federation.meterAll options s calls).2.windows.get (windowKey peerId kind)) last' := by
  induction calls with
  | nil =>
    intro s log last h _ _
    refine ⟨last, ?_⟩
    simpa [Federation.meterAll] using h
  | cons c calls ih =>
    intro s log last h htimes hcounts
    obtain ⟨hfirst, hrest⟩ := List.pairwise_cons.mp htimes
    have hstep := h.check (hfirst c.now (by simp)) (hcounts c (List.mem_cons_self ..))
    obtain ⟨last', h'⟩ := ih hstep hrest fun c' hc' => hcounts c' (List.mem_cons_of_mem _ hc')
    refine ⟨last', ?_⟩
    simpa [Federation.meterAll, List.append_assoc] using h'

/-- In a minute stand two windows at most: an admission that is not in one of them is in the other. -/
theorem KindInv.third_window {admissions : List Metered} {window : Option WindowState} {start : ℤ}
    {m₀ m₁ m : Metered} (h : KindInv options admissions window last)
    (h₀ : m₀ ∈ admissions ∧ start ≤ m₀.call.now ∧ m₀.call.now ≤ start + rateWindowMs)
    (h₁ : m₁ ∈ admissions ∧ start ≤ m₁.call.now ∧ m₁.call.now ≤ start + rateWindowMs)
    (hm : m ∈ admissions ∧ start ≤ m.call.now ∧ m.call.now ≤ start + rateWindowMs)
    (hne : m₁.windowStart ≠ m₀.windowStart) :
    (!decide (m.windowStart = m₀.windowStart)) = decide (m.windowStart = m₁.windowStart) := by
  have hwithin₀ := h.within m₀ h₀.1
  have hwithin₁ := h.within m₁ h₁.1
  have hwithin := h.within m hm.1
  have h₀₁ := h.spaced m₀ h₀.1 m₁ h₁.1
  have h₁₀ := h.spaced m₁ h₁.1 m₀ h₀.1
  have h₀m := h.spaced m₀ h₀.1 m hm.1
  have hm₀ := h.spaced m hm.1 m₀ h₀.1
  have h₁m := h.spaced m₁ h₁.1 m hm.1
  have hm₁ := h.spaced m hm.1 m₁ h₁.1
  rw [← decide_not, decide_eq_decide]
  simp only [rateWindowMs] at *
  omega

/-- What is admitted in a minute is at most twice the bound of those requests: they stand in two
windows at most. -/
theorem KindInv.minute_le {admissions : List Metered} {window : Option WindowState}
    (h : KindInv options admissions window last) (start : ℤ)
    (hne : admissions.filter (fun m =>
      decide (start ≤ m.call.now ∧ m.call.now ≤ start + rateWindowMs)) ≠ []) :
    totalOf (admissions.filter fun m =>
        decide (start ≤ m.call.now ∧ m.call.now ≤ start + rateWindowMs)) ≤
      2 * admissionBound options (admissions.filter fun m =>
        decide (start ≤ m.call.now ∧ m.call.now ≤ start + rateWindowMs)) := by
  set minute := admissions.filter fun m =>
    decide (start ≤ m.call.now ∧ m.call.now ≤ start + rateWindowMs) with hminute
  have hmem : ∀ m ∈ minute, m ∈ admissions ∧ start ≤ m.call.now ∧
      m.call.now ≤ start + rateWindowMs := by
    intro m hm
    obtain ⟨hin, htime⟩ := List.mem_filter.mp hm
    exact ⟨hin, of_decide_eq_true htime⟩
  have hnonneg : ∀ m ∈ minute, 0 ≤ m.call.count := fun m hm => h.nonneg m (hmem m hm).1
  -- The part of the minute that stands in one window is below the bound.
  have hpart : ∀ w, minute.filter (fun m => decide (m.windowStart = w)) ≠ [] →
      totalOf (minute.filter fun m => decide (m.windowStart = w)) ≤
        admissionBound options minute := by
    intro w hw
    rw [hminute, List.filter_filter] at hw ⊢
    refine (h.bounded _ w hw).trans (admissionBound_mono fun m hm => ?_)
    obtain ⟨hin, htests⟩ := List.mem_filter.mp hm
    exact List.mem_filter.mpr ⟨hin, (Bool.and_eq_true_iff.mp htests).2⟩
  obtain ⟨m₀, hm₀⟩ := List.exists_mem_of_ne_nil _ hne
  have hfirst := hpart m₀.windowStart
    (List.ne_nil_of_mem (List.mem_filter.mpr ⟨hm₀, decide_eq_true rfl⟩))
  have hboundNonneg : 0 ≤ admissionBound options minute :=
    (totalOf_nonneg fun m hm => hnonneg m (List.mem_of_mem_filter hm)).trans hfirst
  -- The others stand in one window.
  have hothers : totalOf (minute.filter fun m => !decide (m.windowStart = m₀.windowStart)) ≤
      admissionBound options minute := by
    by_cases hrest : minute.filter (fun m => !decide (m.windowStart = m₀.windowStart)) = []
    · rw [hrest]
      exact hboundNonneg
    · obtain ⟨m₁, hm₁⟩ := List.exists_mem_of_ne_nil _ hrest
      have hsame : minute.filter (fun m => !decide (m.windowStart = m₀.windowStart)) =
          minute.filter fun m => decide (m.windowStart = m₁.windowStart) := by
        refine List.filter_congr fun m hm => ?_
        exact h.third_window (hmem m₀ hm₀) (hmem m₁ (List.mem_of_mem_filter hm₁)) (hmem m hm)
          (by simpa using (List.mem_filter.mp hm₁).2)
      rw [hsame]
      exact hpart _ (List.ne_nil_of_mem (List.mem_filter.mpr
        ⟨List.mem_of_mem_filter hm₁, decide_eq_true rfl⟩))
  have hall := @totalOf_filter_add minute fun m => decide (m.windowStart = m₀.windowStart)
  omega

/-- **Admission is bounded.** In every sequence of requests at times in order and with counts from
zero, what is admitted to a peer and kind in a window is at most the larger of the page ceiling and
the largest cap in force at its admissions, and at most twice that in any minute; and a refused
request leaves every window as it was. -/
theorem admission_bounded (options : RateLimiterOptions) (calls : List RateCall)
    (htimes : (calls.map RateCall.now).Pairwise (· ≤ ·)) (hcounts : ∀ c ∈ calls, 0 ≤ c.count)
    (peerId : String) (kind : RateKind) :
    (∀ window start, window =
        (admissionsOf peerId kind (meterAll options .new calls).1).filter
          (fun m => decide (m.windowStart = start)) →
      window ≠ [] → totalOf window ≤ admissionBound options window) ∧
    (∀ minute start, minute =
        (admissionsOf peerId kind (meterAll options .new calls).1).filter
          (fun m => decide (start ≤ m.call.now ∧ m.call.now ≤ start + rateWindowMs)) →
      minute ≠ [] → totalOf minute ≤ 2 * admissionBound options minute) ∧
    ∀ (s : RateLimiter) (c : RateCall), (s.check options c).1.ok = false →
      (s.check options c).2.windows = s.windows := by
  have hinv : ∃ last, KindInv options
      (admissionsOf peerId kind (meterAll options .new calls).1)
      ((meterAll options .new calls).2.windows.get (windowKey peerId kind)) last := by
    cases calls with
    | nil => exact ⟨0, kindInv_nil⟩
    | cons c calls =>
      refine @KindInv.meterAll options peerId kind (c :: calls) .new [] c.now kindInv_nil ?_ hcounts
      refine List.pairwise_cons.mpr ⟨fun time htime => ?_, htimes⟩
      rcases List.mem_cons.mp htime with rfl | htime
      · exact le_refl _
      · exact (List.pairwise_cons.mp htimes).1 time htime
  obtain ⟨last, hinv⟩ := hinv
  refine ⟨?_, ?_, fun s c h => check_windows_of_refused h⟩
  · rintro window start rfl hne
    have hone := hinv.bounded (fun _ => true) start
    simp only [Bool.and_true] at hone
    exact hone hne
  · rintro minute start rfl hne
    exact hinv.minute_le start hne

/-- Two pages of a peer of the lowest tier, the first beyond the cap of its minute: it is admitted, the
second is not. -/
theorem admission_bounded_two :
    totalOf ((admissionsOf "p" .inbox (meterAll defaultRateOptions .new
      [⟨"p", .inbox, 0, 400, 0⟩, ⟨"p", .inbox, 0, 1, 1000⟩]).1).filter
        fun m => decide (m.windowStart = 0)) = 400 ∧
    (400 : ℤ) ≤ 500 := by
  refine ⟨by decide, ?_⟩
  have h := (admission_bounded defaultRateOptions
    [⟨"p", .inbox, 0, 400, 0⟩, ⟨"p", .inbox, 0, 1, 1000⟩] (by decide) (by decide) "p" .inbox).1
    _ 0 rfl (by decide)
  have hbound : admissionBound defaultRateOptions ((admissionsOf "p" .inbox
      (meterAll defaultRateOptions .new
        [⟨"p", .inbox, 0, 400, 0⟩, ⟨"p", .inbox, 0, 1, 1000⟩]).1).filter
          fun m => decide (m.windowStart = 0)) = 500 := by decide
  have htotal : totalOf ((admissionsOf "p" .inbox (meterAll defaultRateOptions .new
      [⟨"p", .inbox, 0, 400, 0⟩, ⟨"p", .inbox, 0, 1, 1000⟩]).1).filter
        fun m => decide (m.windowStart = 0)) = 400 := by decide
  rw [hbound, htotal] at h
  exact h

end Runs

end OpenConditions.Federation

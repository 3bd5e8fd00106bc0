import Mathlib.Data.List.MinMax
import Mathlib.Data.List.Dedup
import Mathlib.Algebra.Order.Group.Int
import OpenConditions.Lib.OrderedMap

set_option relaxedAutoImplicit false
set_option autoImplicit false

/-!
# Freshness flips

A source is stale when its last successful poll ended longer than its window ago.  A job looks at
one window of time after the other for the sources whose staleness flipped in it: those whose
deadline passed, and those whose last success came after a gap.  Staleness is a strict comparison
and a success is compared with the ones before it, so a deadline that falls on the end of a window,
and a source that is back with two successes, are overlooked.

Instants are microseconds, as the database keeps them.

## Main definitions

* `upsertSourceStatus` — what closing a poll stores.
* `PollHistory`, `pollDbAt` — the polls of all sources, and what is stored at an instant.
* `isStale` — the staleness of a source, as fusion evaluates it.
* `flippedSources` — the sources found for a window.
* `windowedRuns` — the windows the runs of the job are handed.
* `Overlooked` — the flips a window does not show.

## Main results

* `status_mono` — a source keeps its status and its having succeeded.
* `mem_flippedSources`, `returnedIn_eq_false` — what the two queries find.
* `flip_found_iff` — a flip is found unless it is overlooked.
* `boundary_flip_missed` — a deadline on the end of a window is found in neither window.
-/

namespace OpenConditions.Storage

/-! ## Poll facts -/

/-- A poll that was closed. -/
structure Poll where
  source : String
  attemptedAt : ℤ
  finishedAt : ℤ
  networkValidated : Bool
  freshnessWindowSec : ℕ

/-- A row of `source_poll_attempt`. -/
structure PollAttempt where
  source : String
  attemptedAt : ℤ
  finishedAt : Option ℤ
  networkValidated : Bool

/-- A row of `source_status`. -/
structure SourceStatus where
  lastAttemptAt : ℤ
  lastNetworkSuccessAt : Option ℤ
  lastSuccessAt : Option ℤ
  freshnessWindowSec : ℕ

/-- The poll facts of all sources. -/
structure PollDb where
  attempts : List PollAttempt
  status : OrderedMap String SourceStatus

/-- Whether a poll's success counts over the one stored. -/
def supersedes (poll : Poll) (old : SourceStatus) : Bool :=
  poll.networkValidated &&
    match old.lastNetworkSuccessAt with
    | none => true
    | some at' => decide (at' ≤ poll.attemptedAt)

/-- The status of a source after a poll. -/
def statusAfter (poll : Poll) : Option SourceStatus → SourceStatus
  | none =>
    let success := if poll.networkValidated then some poll.attemptedAt else none
    ⟨poll.attemptedAt, success, success, poll.freshnessWindowSec⟩
  | some old =>
    { lastAttemptAt := max old.lastAttemptAt poll.attemptedAt
      lastNetworkSuccessAt :=
        if supersedes poll old then some poll.attemptedAt else old.lastNetworkSuccessAt
      lastSuccessAt := if supersedes poll old then some poll.attemptedAt else old.lastSuccessAt
      freshnessWindowSec :=
        if old.lastAttemptAt ≤ poll.attemptedAt then poll.freshnessWindowSec
        else old.freshnessWindowSec }

/-- Stores one poll fact and the source's current state. -/
def upsertSourceStatus (db : PollDb) (poll : Poll) : PollDb where
  attempts := db.attempts ++
    [⟨poll.source, poll.attemptedAt, some poll.finishedAt, poll.networkValidated⟩]
  status := db.status.set poll.source (statusAfter poll (db.status.get poll.source))

/-- Deletes a batch of the attempts older than a cutoff. -/
def pruneSourcePollAttempts (db : PollDb) (cutoff : ℤ) (batch : PollAttempt → Bool) : PollDb :=
  { db with attempts := db.attempts.filter fun pa => !(decide (pa.attemptedAt < cutoff) && batch pa) }

/-- What happens to the poll facts. -/
inductive PollFact where
  | closed (poll : Poll)
  | pruned (at' cutoff : ℤ) (batch : PollAttempt → Bool)

/-- When it happens. -/
def PollFact.at : PollFact → ℤ
  | .closed poll => poll.finishedAt
  | .pruned at' _ _ => at'

/-- What it stores. -/
def PollFact.apply (db : PollDb) : PollFact → PollDb
  | .closed poll => upsertSourceStatus db poll
  | .pruned _ cutoff batch => pruneSourcePollAttempts db cutoff batch

/-- The facts of all sources, in the order of the clock. -/
structure PollHistory where
  facts : List PollFact
  ordered : facts.Pairwise fun a b => a.at ≤ b.at

/-- What is stored at an instant. -/
def pollDbAt (history : PollHistory) (t : ℤ) : PollDb :=
  (history.facts.filter fun fact => decide (fact.at ≤ t)).foldl PollFact.apply ⟨[], .empty⟩

/-! ## Staleness -/

/-- Microseconds in a number of seconds. -/
def makeInterval (secs : ℕ) : ℤ := secs * 1000000

/-- When the last successful poll finished, else when it began. -/
def lastSuccessEnd (db : PollDb) (source : String) (lastSuccessAt : ℤ) : ℤ :=
  ((db.attempts.filterMap fun pa =>
    if pa.source = source ∧ pa.attemptedAt = lastSuccessAt then pa.finishedAt
    else none).max?).getD lastSuccessAt

/-- When a source's last success passes its window; none when it never succeeded. -/
def deadline (db : PollDb) (source : String) : Option ℤ :=
  (db.status.get source).bind fun ss => ss.lastSuccessAt.map fun lastSuccessAt =>
    lastSuccessEnd db source lastSuccessAt + makeInterval ss.freshnessWindowSec

/-- Whether a source is stale at an instant, as fusion evaluates it.  A source whose own write is
running counts as fresh. -/
def isStale (db : PollDb) (freshSources : List String) (now : ℤ) (source : String) : Bool :=
  !freshSources.contains source &&
    match db.status.get source with
    | none => false
    | some ss =>
      match ss.lastSuccessAt with
      | none => true
      | some lastSuccessAt =>
        decide (lastSuccessEnd db source lastSuccessAt < now - makeInterval ss.freshnessWindowSec)

/-! ## The flips of a window -/

/-- A window of time, without its start and with its end. -/
structure Window where
  from' : ℤ
  to' : ℤ
  deriving DecidableEq

/-- The source's deadline passed in the window. -/
def expiredIn (window : Window) (db : PollDb) (source : String) (ss : SourceStatus)
    (lastSuccessAt : ℤ) : Bool :=
  let expiry := lastSuccessEnd db source lastSuccessAt + makeInterval ss.freshnessWindowSec
  decide (window.from' < expiry) && decide (expiry ≤ window.to')

/-- A validated attempt of the source before its last success. -/
def earlierAttempt (source : String) (lastSuccessAt : ℤ) (pa : PollAttempt) : Bool :=
  decide (pa.source = source) && pa.networkValidated && decide (pa.attemptedAt < lastSuccessAt)

/-- The source's last success ended in the window and followed none within its own. -/
def returnedIn (window : Window) (db : PollDb) (source : String) (ss : SourceStatus)
    (lastSuccessAt : ℤ) : Bool :=
  let endedAt := lastSuccessEnd db source lastSuccessAt
  decide (window.from' < endedAt) && decide (endedAt ≤ window.to') &&
    db.attempts.any (earlierAttempt source lastSuccessAt) &&
    !db.attempts.any fun pa => earlierAttempt source lastSuccessAt pa &&
      decide (endedAt - makeInterval ss.freshnessWindowSec ≤ pa.finishedAt.getD pa.attemptedAt)

/-- The sources that pass one of the two queries on the rows that ever succeeded. -/
def sourcesWhere (db : PollDb) (found : String → SourceStatus → ℤ → Bool) : List String :=
  db.status.entries.filterMap fun e =>
    e.2.lastSuccessAt.bind fun lastSuccessAt =>
      if found e.1 e.2 lastSuccessAt then some e.1 else none

/-- The sources whose freshness flipped in a window. -/
def flippedSources (db : PollDb) (window : Window) : List String :=
  (sourcesWhere db (expiredIn window db) ++ sourcesWhere db (returnedIn window db)).dedup

/-- The hour before the first run, in microseconds. -/
def firstWindow : ℤ := 3600000000

/-- The windows handed to the runs, each from the end of the last run that succeeded (the first,
the hour before it); `ran` are the instants of the runs and whether their refresh succeeded. -/
def windowedRuns : Option ℤ → List (ℤ × Bool) → List Window
  | _, [] => []
  | last, (now, succeeded) :: ran =>
    ⟨last.getD (now - firstWindow), now⟩ :: windowedRuns (if succeeded then some now else last) ran

/-! ## What a window overlooks -/

/-- The flips a window does not show. -/
inductive Overlooked (history : PollHistory) (window : Window) (source : String) : Prop where
  /-- The source's first polls, in the window, all failed. -/
  | neverSucceeded {ss : SourceStatus} :
    (pollDbAt history window.from').status.get source = none →
    (pollDbAt history window.to').status.get source = some ss → ss.lastSuccessAt = none →
    Overlooked history window source
  /-- The source was not stale at the start of the window, which its deadline is not after. -/
  | deadlineOnStart {d : ℤ} :
    isStale (pollDbAt history window.from') [] window.from' source = false →
    deadline (pollDbAt history window.to') source = some d → d ≤ window.from' → d < window.to' →
    Overlooked history window source
  /-- The source was stale at the start of the window and its deadline is after the end, and its
  last success ended outside the window, is the first on record, or followed another within the
  source's own window. -/
  | unseenReturn {ss : SourceStatus} {lastSuccessAt : ℤ} :
    isStale (pollDbAt history window.from') [] window.from' source = true →
    (pollDbAt history window.to').status.get source = some ss →
    ss.lastSuccessAt = some lastSuccessAt →
    window.to' < lastSuccessEnd (pollDbAt history window.to') source lastSuccessAt +
      makeInterval ss.freshnessWindowSec →
    (lastSuccessEnd (pollDbAt history window.to') source lastSuccessAt ≤ window.from' ∨
      window.to' < lastSuccessEnd (pollDbAt history window.to') source lastSuccessAt ∨
      (∀ pa ∈ (pollDbAt history window.to').attempts,
        earlierAttempt source lastSuccessAt pa = false) ∨
      ∃ pa ∈ (pollDbAt history window.to').attempts,
        earlierAttempt source lastSuccessAt pa = true ∧
          lastSuccessEnd (pollDbAt history window.to') source lastSuccessAt -
            makeInterval ss.freshnessWindowSec ≤ pa.finishedAt.getD pa.attemptedAt) →
    Overlooked history window source

/-! ## What a history keeps -/

/-- A source keeps its status, and a source that succeeded keeps having succeeded. -/
theorem get_apply {db : PollDb} {source : String} {ss : SourceStatus}
    (h : db.status.get source = some ss) (fact : PollFact) :
    ∃ ss', (fact.apply db).status.get source = some ss' ∧
      (ss.lastSuccessAt.isSome = true → ss'.lastSuccessAt.isSome = true) := by
  cases fact with
  | pruned at' cutoff batch => exact ⟨ss, h, id⟩
  | closed poll =>
    show ∃ ss', (db.status.set poll.source _).get source = some ss' ∧ _
    rw [OrderedMap.get_set]
    by_cases hsource : source = poll.source
    · subst hsource
      rw [if_pos rfl, h]
      refine ⟨_, rfl, fun hsome => ?_⟩
      simp only [statusAfter]
      split_ifs
      · rfl
      · exact hsome
    · rw [if_neg hsource]
      exact ⟨ss, h, id⟩

/-- The same over several facts. -/
theorem get_foldl_apply {source : String} (facts : List PollFact) :
    ∀ {db : PollDb} {ss : SourceStatus}, db.status.get source = some ss →
      ∃ ss', (facts.foldl PollFact.apply db).status.get source = some ss' ∧
        (ss.lastSuccessAt.isSome = true → ss'.lastSuccessAt.isSome = true) := by
  induction facts with
  | nil => exact fun h => ⟨_, h, id⟩
  | cons fact facts ih =>
    intro db ss h
    obtain ⟨ss₁, h₁, hsome₁⟩ := get_apply h fact
    obtain ⟨ss₂, h₂, hsome₂⟩ := ih h₁
    exact ⟨ss₂, h₂, hsome₂ ∘ hsome₁⟩

/-- The facts up to an instant are the first of those up to a later one. -/
theorem filter_le_append : ∀ {facts : List PollFact}, (facts.Pairwise fun a b => a.at ≤ b.at) →
    ∀ {t t' : ℤ}, t ≤ t' → ∃ later, (facts.filter fun fact => decide (fact.at ≤ t')) =
      (facts.filter fun fact => decide (fact.at ≤ t)) ++ later
  | [], _, _, _, _ => ⟨[], rfl⟩
  | fact :: facts, hordered, t, t', ht => by
    rw [List.pairwise_cons] at hordered
    by_cases hfact : fact.at ≤ t
    · obtain ⟨later, hlater⟩ := filter_le_append hordered.2 ht
      refine ⟨later, ?_⟩
      rw [List.filter_cons_of_pos (by simpa using hfact.trans ht),
        List.filter_cons_of_pos (by simpa using hfact), hlater, List.cons_append]
    · -- Everything after a fact later than `t` is later than `t` too.
      have hnone : ((fact :: facts).filter fun fact => decide (fact.at ≤ t)) = [] := by
        refine List.filter_eq_nil_iff.mpr fun other hother => ?_
        rcases List.mem_cons.mp hother with rfl | hother
        · simpa using hfact
        · have hle := hordered.1 other hother
          simp only [decide_eq_true_eq]
          omega
      exact ⟨_, by rw [hnone, List.nil_append]⟩

/-- A source keeps its status, and a source that succeeded keeps having succeeded. -/
theorem status_mono (history : PollHistory) {t t' : ℤ} (ht : t ≤ t') {source : String}
    {ss : SourceStatus} (h : (pollDbAt history t).status.get source = some ss) :
    ∃ ss', (pollDbAt history t').status.get source = some ss' ∧
      (ss.lastSuccessAt.isSome = true → ss'.lastSuccessAt.isSome = true) := by
  obtain ⟨later, hlater⟩ := filter_le_append history.ordered ht
  have hfold : pollDbAt history t' = later.foldl PollFact.apply (pollDbAt history t) := by
    unfold pollDbAt
    rw [hlater, List.foldl_append]
  rw [hfold]
  exact get_foldl_apply later h

/-! ## Staleness and deadlines -/

section Flips

variable {db : PollDb} {source : String} {ss : SourceStatus} {now : ℤ} {window : Window}

/-- A source without a status is not stale. -/
theorem isStale_of_none (h : db.status.get source = none) : isStale db [] now source = false := by
  simp [isStale, h]

/-- A source that never succeeded is stale. -/
theorem isStale_of_never (h : db.status.get source = some ss) (hnever : ss.lastSuccessAt = none) :
    isStale db [] now source = true := by
  simp [isStale, h, hnever]

/-- A source that succeeded is stale once its deadline has passed. -/
theorem isStale_of_success {lastSuccessAt : ℤ} (h : db.status.get source = some ss)
    (hsuccess : ss.lastSuccessAt = some lastSuccessAt) : isStale db [] now source =
      decide (lastSuccessEnd db source lastSuccessAt + makeInterval ss.freshnessWindowSec < now) := by
  simp only [isStale, h, hsuccess, List.contains_nil, Bool.not_false, Bool.true_and]
  exact decide_eq_decide.mpr (by omega)

/-- A source is found by a query when it succeeded and passes it. -/
theorem mem_sourcesWhere {found : String → SourceStatus → ℤ → Bool} :
    source ∈ sourcesWhere db found ↔ ∃ ss lastSuccessAt, db.status.get source = some ss ∧
      ss.lastSuccessAt = some lastSuccessAt ∧ found source ss lastSuccessAt = true := by
  simp only [sourcesWhere, List.mem_filterMap, Option.bind_eq_some_iff, Option.ite_none_right_eq_some,
    Option.some.injEq, OrderedMap.get_eq_some_iff]
  constructor
  · rintro ⟨⟨name, ss⟩, hmem, lastSuccessAt, hsuccess, hfound, rfl⟩
    exact ⟨ss, lastSuccessAt, hmem, hsuccess, hfound⟩
  · rintro ⟨ss, lastSuccessAt, hmem, hsuccess, hfound⟩
    exact ⟨(source, ss), hmem, lastSuccessAt, hsuccess, hfound, rfl⟩

/-- A source that succeeded is found when one of the two queries finds it. -/
theorem mem_flippedSources {lastSuccessAt : ℤ} (h : db.status.get source = some ss)
    (hsuccess : ss.lastSuccessAt = some lastSuccessAt) : source ∈ flippedSources db window ↔
      expiredIn window db source ss lastSuccessAt = true ∨
        returnedIn window db source ss lastSuccessAt = true := by
  rw [flippedSources, List.mem_dedup, List.mem_append, mem_sourcesWhere, mem_sourcesWhere, h]
  simp [hsuccess]

/-- A source that never succeeded is not found. -/
theorem not_mem_flippedSources (h : db.status.get source = some ss)
    (hnever : ss.lastSuccessAt = none) : source ∉ flippedSources db window := by
  rw [flippedSources, List.mem_dedup, List.mem_append, mem_sourcesWhere, mem_sourcesWhere, h]
  simp [hnever]

/-- The second query misses a source whose last success ended outside the window, is the first on
record, or followed another within the source's own window. -/
theorem returnedIn_eq_false {lastSuccessAt : ℤ} :
    returnedIn window db source ss lastSuccessAt = false ↔
      lastSuccessEnd db source lastSuccessAt ≤ window.from' ∨
      window.to' < lastSuccessEnd db source lastSuccessAt ∨
      (∀ pa ∈ db.attempts, earlierAttempt source lastSuccessAt pa = false) ∨
      ∃ pa ∈ db.attempts, earlierAttempt source lastSuccessAt pa = true ∧
        lastSuccessEnd db source lastSuccessAt - makeInterval ss.freshnessWindowSec ≤
          pa.finishedAt.getD pa.attemptedAt := by
  simp only [returnedIn, Bool.and_eq_false_iff, decide_eq_false_iff_not, not_lt, not_le,
    Bool.not_eq_false', List.any_eq_true, List.any_eq_false, Bool.and_eq_true, decide_eq_true_eq,
    Bool.not_eq_true, or_assoc]

end Flips

/-! ## The windows of the job -/

/-- The windows the job hands out do not end before they start, while its clock does not go
back. -/
theorem from_le_to_of_mem : ∀ {ran : List (ℤ × Bool)} {last : Option ℤ} {window : Window},
    (ran.map Prod.fst).Pairwise (· ≤ ·) → (∀ at' ∈ last, ∀ now ∈ ran.map Prod.fst, at' ≤ now) →
    window ∈ windowedRuns last ran → window.from' ≤ window.to'
  | [], _, _, _, _, h => by cases h
  | (now, succeeded) :: ran, last, window, hordered, hlast, h => by
    rw [List.map_cons, List.pairwise_cons] at hordered
    rw [windowedRuns, List.mem_cons] at h
    rcases h with rfl | h
    · cases last with
      | none =>
        show now - firstWindow ≤ now
        unfold firstWindow
        omega
      | some at' => exact hlast at' rfl now (List.mem_cons_self ..)
    · refine from_le_to_of_mem hordered.2 (fun at' hat later hlater => ?_) h
      cases succeeded with
      | true =>
        rw [if_pos rfl, Option.mem_some_iff] at hat
        exact hat ▸ hordered.1 later hlater
      | false => exact hlast at' hat later (List.mem_cons_of_mem _ hlater)

/-- **A flip is found unless it is overlooked**: for every history of polls and every window the
job hands out, a source whose staleness differs between the start and the end of the window is
among the flipped ones exactly when its flip is not one the window does not show. -/
theorem flip_found_iff (history : PollHistory) (ran : List (ℤ × Bool))
    (hclock : (ran.map Prod.fst).Pairwise (· ≤ ·)) {window : Window}
    (hwindow : window ∈ windowedRuns none ran) (source : String) :
    (isStale (pollDbAt history window.from') [] window.from' source ≠
        isStale (pollDbAt history window.to') [] window.to' source →
      source ∈ flippedSources (pollDbAt history window.to') window) ↔
      ¬Overlooked history window source := by
  have hle : window.from' ≤ window.to' :=
    from_le_to_of_mem hclock (fun at' hat => by cases hat) hwindow
  cases hto : (pollDbAt history window.to').status.get source with
  | none =>
    -- No status: neither stale nor overlooked.
    have hfrom : (pollDbAt history window.from').status.get source = none := by
      by_contra hne
      obtain ⟨ss, hss⟩ := Option.ne_none_iff_exists'.mp hne
      obtain ⟨ss', hss', -⟩ := status_mono history hle hss
      rw [hto] at hss'
      cases hss'
    refine ⟨fun _ hover => ?_, fun _ hflip => absurd ?_ hflip⟩
    · cases hover with
      | neverSucceeded _ hss _ =>
        rw [hto] at hss
        cases hss
      | deadlineOnStart _ hd _ _ => simp [deadline, hto] at hd
      | unseenReturn _ hss _ _ _ =>
        rw [hto] at hss
        cases hss
    · rw [isStale_of_none hfrom, isStale_of_none hto]
  | some ss =>
    cases hsuccess : ss.lastSuccessAt with
    | none =>
      have hnot : source ∉ flippedSources (pollDbAt history window.to') window :=
        not_mem_flippedSources hto hsuccess
      rw [isStale_of_never hto hsuccess]
      constructor
      · intro hfound hover
        cases hover with
        | neverSucceeded hfrom _ _ =>
          exact hnot (hfound (by rw [isStale_of_none hfrom]; exact Bool.false_ne_true))
        | deadlineOnStart _ hd _ _ => simp [deadline, hto, hsuccess] at hd
        | unseenReturn _ hss hsome _ _ =>
          rw [hto, Option.some.injEq] at hss
          rw [← hss, hsuccess] at hsome
          cases hsome
      · intro hover hflip
        refine absurd ?_ hover
        cases hfrom : (pollDbAt history window.from').status.get source with
        | none => exact .neverSucceeded hfrom hto hsuccess
        | some ss₀ =>
          -- A source with a status and no success was stale at the start too.
          cases hsuccess₀ : ss₀.lastSuccessAt with
          | none => exact absurd (isStale_of_never hfrom hsuccess₀) hflip
          | some _ =>
            obtain ⟨ss', hss', hsome⟩ := status_mono history hle hfrom
            rw [hto, Option.some.injEq] at hss'
            rw [hsuccess₀, ← hss', hsuccess] at hsome
            cases hsome rfl
    | some lastSuccessAt =>
      have hdeadline : deadline (pollDbAt history window.to') source =
          some (lastSuccessEnd (pollDbAt history window.to') source lastSuccessAt +
            makeInterval ss.freshnessWindowSec) := by
        simp [deadline, hto, hsuccess]
      have hinterval : 0 ≤ makeInterval ss.freshnessWindowSec := by
        unfold makeInterval
        omega
      have hexpired : expiredIn window (pollDbAt history window.to') source ss lastSuccessAt = true ↔
          window.from' < lastSuccessEnd (pollDbAt history window.to') source lastSuccessAt +
              makeInterval ss.freshnessWindowSec ∧
            lastSuccessEnd (pollDbAt history window.to') source lastSuccessAt +
              makeInterval ss.freshnessWindowSec ≤ window.to' := by
        simp [expiredIn]
      rw [isStale_of_success hto hsuccess, mem_flippedSources hto hsuccess, hexpired]
      constructor
      · intro hfound hover
        cases hover with
        | neverSucceeded _ hss hnever =>
          rw [hto, Option.some.injEq] at hss
          rw [← hss, hsuccess] at hnever
          cases hnever
        | deadlineOnStart hfresh hd hstart hend =>
          rw [hdeadline, Option.some.injEq] at hd
          subst hd
          rcases hfound (by rw [hfresh, decide_eq_true hend]; exact Bool.false_ne_true) with
            ⟨hafter, -⟩ | hreturned
          · omega
          · rw [← Bool.not_eq_false] at hreturned
            refine hreturned (Iff.mpr returnedIn_eq_false (Or.inl ?_))
            omega
        | unseenReturn hstale hss hsome hahead hmissed =>
          rw [hto, Option.some.injEq] at hss
          subst hss
          rw [hsuccess, Option.some.injEq] at hsome
          subst hsome
          rcases hfound (by rw [hstale, decide_eq_false (by omega)]; exact Bool.false_ne_true.symm)
            with ⟨-, hpassed⟩ | hreturned
          · omega
          · rw [Iff.mpr returnedIn_eq_false hmissed] at hreturned
            cases hreturned
      · intro hover hflip
        by_contra hmissed
        rw [not_or, Bool.not_eq_true] at hmissed
        refine hover ?_
        by_cases hpassed : lastSuccessEnd (pollDbAt history window.to') source lastSuccessAt +
            makeInterval ss.freshnessWindowSec < window.to'
        · rw [decide_eq_true hpassed, ne_eq, Bool.not_eq_true] at hflip
          exact .deadlineOnStart hflip hdeadline (by omega) hpassed
        · rw [decide_eq_false hpassed, ne_eq, Bool.not_eq_false] at hflip
          have hlt : window.from' < window.to' := by
            refine lt_of_le_of_ne hle fun heq => ?_
            rw [heq, isStale_of_success hto hsuccess, decide_eq_true_eq] at hflip
            exact hpassed hflip
          refine .unseenReturn hflip hto hsuccess ?_ (Iff.mp returnedIn_eq_false hmissed.2)
          omega

/-! ## A deadline on the end of a window -/

/-- A source that was polled once, at the first microsecond, with a window of a minute. -/
def polledOnce : PollHistory :=
  ⟨[.closed ⟨"source", 0, 0, true, 60⟩], List.pairwise_singleton _ _⟩

/-- A window in which it goes stale. -/
def passingDeadline : Window := ⟨0, 90000000⟩

theorem flip_found_iff_sample :
    (isStale (pollDbAt polledOnce passingDeadline.from') [] passingDeadline.from' "source" ≠
        isStale (pollDbAt polledOnce passingDeadline.to') [] passingDeadline.to' "source" →
      "source" ∈ flippedSources (pollDbAt polledOnce passingDeadline.to') passingDeadline) ↔
      ¬Overlooked polledOnce passingDeadline "source" :=
  flip_found_iff polledOnce [(0, true), (90000000, true)] (by decide +kernel) (by decide +kernel)
    "source"

/-- **A deadline on the end of a window is found in neither window**: a minute after its only
success the source is not stale yet, so the window that ends there refreshes nothing, and the next
one, in which it goes stale, does not find it. -/
theorem boundary_flip_missed :
    ⟨60000000, 120000000⟩ ∈ windowedRuns none [(60000000, true), (120000000, true)] ∧
      isStale (pollDbAt polledOnce 60000000) [] 60000000 "source" = false ∧
      isStale (pollDbAt polledOnce 120000000) [] 120000000 "source" = true ∧
      "source" ∉ flippedSources (pollDbAt polledOnce 120000000) ⟨60000000, 120000000⟩ := by
  decide +kernel

end OpenConditions.Storage

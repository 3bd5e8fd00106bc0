import Mathlib.Logic.Function.Basic
import OpenConditions.Lib.Run
import OpenConditions.OnDemand.CellLedger

set_option relaxedAutoImplicit false
set_option autoImplicit false

/-!
# Claims on a cell fence its fetchers

Fetchers share a cell by its row in the ledger.  The row does not say whose its claim is: a
fetcher knows its claim by the instant it set it to.  That suffices.  Whoever takes a cell over
does so when the claim before it has lapsed, and sets the claim to a later instant, so an instant
that a fetcher still remembers is the row's only while nobody took the cell from it.

## Main definitions

* `Request`, `Request.perform` — what fetchers ask of the ledger, and the row it writes.
* `CellRun`, `cellStep` — a cell, the claims its fetchers remember and what happened so far.
* `Standing` — no other fetcher won the cell since a fetcher's last claim or renewal.
* `Fenced` — what every interleaving keeps.

## Main results

* `Fenced.step` — every request of every fetcher keeps the cell fenced.
* `claims_fence_fetchers` — over every interleaving: changes are made by the holder only, claims do
  not overlap, a claim is won when it is due, and a stored answer is kept until it expires.
-/

namespace OpenConditions.OnDemand

/-! ## Requests -/

/-- What a fetcher asks of the ledger. -/
inductive Request where
  | claim (till : ℤ)
  | renew (till : ℤ)
  | release
  | markFresh (fetchedAt expiresAt : ℤ)
  | markFailed (failedAt : ℤ)
  deriving DecidableEq, Repr

namespace Request

/-- Whether a request claims the cell. -/
def isClaim : Request → Bool
  | .claim _ => true
  | _ => false

/-- Whether a request sets the caller's claim. -/
def grants : Request → Bool
  | .claim _ | .renew _ => true
  | _ => false

/-- Whether a request records how a fetch ended. -/
def isMark : Request → Bool
  | .markFresh _ _ | .markFailed _ => true
  | _ => false

/-- The row a request writes for a fetcher whose last claim was `held`; `some none` when its
statement changes nothing, and `none` when the fetcher does not make it: a claim is set to a later
instant, and all but a first claim need one. -/
def perform (entry : Option LedgerEntry) (held : Option ℤ) (now : ℤ) :
    Request → Option (Option LedgerEntry)
  | .claim till => if now < till then some (claimRow entry now till) else none
  | .renew till => if now < till then held.map fun h => OnDemand.renewClaim entry h till else none
  | .release => held.map fun h => releaseClaim entry h
  | .markFresh fetchedAt expiresAt => held.map fun h =>
      OnDemand.markFresh entry h fetchedAt expiresAt
  | .markFailed failedAt => held.map fun h => OnDemand.markFailed entry h failedAt

/-- The claim a fetcher remembers after a request: it stops once it released or marked. -/
def heldAfter (held : Option ℤ) (took : Bool) : Request → Option ℤ
  | .claim till | .renew till => if took then some till else held
  | _ => none

/-- A request that changes nothing leaves its fetcher the claim it remembers, or none. -/
theorem eq_of_heldAfter_false {held : Option ℤ} {request : Request} {u : ℤ}
    (h : request.heldAfter held false = some u) : held = some u := by
  cases request with
  | claim | renew => exact h
  | release | markFresh | markFailed => cases h

/-- What a request that is not a claim changes is the row whose claim the fetcher set. -/
theorem claimOf_of_perform {entry : Option LedgerEntry} {held : Option ℤ} {now : ℤ}
    {request : Request} {row : LedgerEntry} (hclaim : request.isClaim = false)
    (h : request.perform entry held now = some (some row)) :
    ∃ u, held = some u ∧ claimOf entry = some u := by
  have hheld : ∀ {change : LedgerEntry → LedgerEntry},
      (held.map fun u => updateHeld change entry u) = some (some row) →
        ∃ u, held = some u ∧ claimOf entry = some u := by
    intro change hmap
    obtain ⟨u, hu, hrow⟩ := Option.map_eq_some_iff.mp hmap
    obtain ⟨old, rfl, hold, -⟩ := updateHeld_eq_some_iff.mp hrow
    exact ⟨u, hu, hold⟩
  cases request with
  | claim till => cases hclaim
  | renew till =>
    unfold perform at h
    dsimp only at h
    split_ifs at h
    exact hheld h
  | release | markFresh | markFailed => exact hheld h

end Request

/-! ## Interleavings -/

/-- One request, and whether it took effect. -/
structure Event (F : Type) where
  fetcher : F
  request : Request
  took : Bool

/-- A fetcher asks something at an instant. -/
structure Step (F : Type) where
  fetcher : F
  now : ℤ
  request : Request

/-- A cell and its fetchers. -/
structure CellRun (F : Type) where
  clock : ℤ
  entry : Option LedgerEntry := none
  /-- The instant of each fetcher's last successful claim or renewal; none when it has stopped. -/
  held : F → Option ℤ := fun _ => none
  /-- What was asked so far. -/
  events : List (Event F) := []

variable {F : Type}

/-- A request succeeded in setting the fetcher's claim. -/
def Event.Grants (e : Event F) (f : F) : Prop :=
  e.fetcher = f ∧ e.request.grants = true ∧ e.took = true

/-- Another fetcher won the cell. -/
def Event.WonByOther (e : Event F) (f : F) : Prop :=
  e.fetcher ≠ f ∧ e.request.isClaim = true ∧ e.took = true

/-- No other fetcher won the cell since the fetcher's last successful claim or renewal. -/
def Standing (f : F) (events : List (Event F)) : Prop :=
  ∃ before grant after, events = before ++ grant :: after ∧ grant.Grants f ∧
    ∀ e ∈ after, ¬ e.Grants f ∧ ¬ e.WonByOther f

/-- A fetcher stands right after its own claim or renewal. -/
theorem standing_of_grants {f : F} {events : List (Event F)} {e : Event F} (h : e.Grants f) :
    Standing f (events ++ [e]) :=
  ⟨events, e, [], rfl, h, fun _ he => by cases he⟩

/-- A fetcher keeps standing when something happens that is no claim or renewal of its own and no
other's claim. -/
theorem Standing.append {f : F} {events : List (Event F)} {e : Event F} (h : Standing f events)
    (hgrants : ¬ e.Grants f) (hother : ¬ e.WonByOther f) : Standing f (events ++ [e]) := by
  obtain ⟨before, grant, after, rfl, hgrant, hafter⟩ := h
  refine ⟨before, grant, after ++ [e], by simp, hgrant, fun e' he' => ?_⟩
  rcases List.mem_append.mp he' with he' | he'
  · exact hafter e' he'
  · obtain rfl := List.mem_singleton.mp he'
    exact ⟨hgrants, hother⟩

section Steps

variable [DecidableEq F]

/-- The cell after a request that writes `row`. -/
def CellRun.next (s : CellRun F) (a : Step F) (row : Option LedgerEntry) : CellRun F where
  clock := a.now
  entry := row.or s.entry
  held := Function.update s.held a.fetcher (a.request.heldAfter (s.held a.fetcher) row.isSome)
  events := s.events ++ [⟨a.fetcher, a.request, row.isSome⟩]

/-- One request of one fetcher, no earlier than the one before. -/
def cellStep (s : CellRun F) (a : Step F) : Option (CellRun F) :=
  if s.clock ≤ a.now then
    (a.request.perform s.entry (s.held a.fetcher) a.now).map (s.next a)
  else none

/-- A step performs its request. -/
theorem cellStep_eq_some_iff {s s' : CellRun F} {a : Step F} :
    cellStep s a = some s' ↔ s.clock ≤ a.now ∧
      ∃ row, a.request.perform s.entry (s.held a.fetcher) a.now = some row ∧ s' = s.next a row := by
  unfold cellStep
  split_ifs with hclock
  · simp [hclock, eq_comm]
  · simp [hclock]

end Steps

/-! ## What every interleaving keeps -/

/-- What every interleaving keeps of a cell: a claim that a fetcher remembers is the row's or has
lapsed, the row's claim is one fetcher's and nobody else won the cell since, and a row whose answer
has not expired carries no claim. -/
structure Fenced (s : CellRun F) : Prop where
  settled : ∀ e ∈ s.entry, e.Settled
  lapsed : ∀ f u, s.held f = some u → claimOf s.entry = some u ∨ u ≤ s.clock
  one : ∀ f g u, claimOf s.entry = some u → s.held f = some u → s.held g = some u → f = g
  standing : ∀ f u, claimOf s.entry = some u → s.held f = some u → Standing f s.events
  answered : ∀ e ∈ s.entry, e.status = .fresh → e.claimedUntil ≠ none →
    ∀ t ∈ e.expiresAt, t ≤ s.clock

/-- A cell that nobody asked for is fenced. -/
theorem fenced_start (clock : ℤ) : Fenced ({ clock := clock } : CellRun F) where
  settled := fun _ he => by cases he
  lapsed := fun _ _ h => by cases h
  one := fun _ _ _ h => by cases h
  standing := fun _ _ h => by cases h
  answered := fun _ he => by cases he

section Preserved

variable {s : CellRun F} {a : Step F}

/-- The others' claims have lapsed once a fetcher claims the cell over a lapsed claim, or has the
row's claim itself. -/
theorem Fenced.others_lapsed (h : Fenced s) (hclock : s.clock ≤ a.now)
    (hmine : (∀ t, claimOf s.entry = some t → t ≤ a.now) ∨
      ∃ u, s.held a.fetcher = some u ∧ claimOf s.entry = some u)
    {g : F} (hg : g ≠ a.fetcher) {v : ℤ} (hv : s.held g = some v) : v ≤ a.now := by
  rcases h.lapsed g v hv with hclaim | hle
  · rcases hmine with hlapsed | ⟨u, hu, hclaim'⟩
    · exact hlapsed v hclaim
    · obtain rfl : u = v := Option.some.inj (hclaim'.symm.trans hclaim)
      exact absurd (h.one g a.fetcher u hclaim hv hu) hg
  · exact hle.trans hclock

variable [DecidableEq F]

/-- **A request that changes nothing** keeps the cell fenced. -/
theorem Fenced.unchanged (h : Fenced s) (hclock : s.clock ≤ a.now) : Fenced (s.next a none) := by
  have hheld : ∀ f u, (s.next a none).held f = some u → s.held f = some u := by
    intro f u hf
    simp only [CellRun.next, Function.update_apply] at hf
    split_ifs at hf with hfa
    · subst hfa
      exact Request.eq_of_heldAfter_false hf
    · exact hf
  refine ⟨h.settled, fun f u hf => ?_, fun f g u hu hf hg => ?_, fun f u hu hf => ?_, ?_⟩
  · exact (h.lapsed f u (hheld f u hf)).imp id fun hle => hle.trans hclock
  · exact h.one f g u hu (hheld f u hf) (hheld g u hg)
  · refine (h.standing f u hu (hheld f u hf)).append ?_ ?_
    · rintro ⟨-, -, htook⟩
      cases htook
    · rintro ⟨-, -, htook⟩
      cases htook
  · intro e he hfresh hclaim t ht
    exact (h.answered e he hfresh hclaim t ht).trans hclock

/-- **A claim or renewal that succeeds** keeps the cell fenced. -/
theorem Fenced.granted (h : Fenced s) (hclock : s.clock ≤ a.now) {row : LedgerEntry} {till : ℤ}
    (hmine : (∀ t, claimOf s.entry = some t → t ≤ a.now) ∨
      ∃ u, s.held a.fetcher = some u ∧ claimOf s.entry = some u)
    (hheld : a.request.heldAfter (s.held a.fetcher) true = some till)
    (hgrants : a.request.grants = true) (hlater : a.now < till)
    (hrow : row.claimedUntil = some till) (hsettled : row.Settled)
    (hanswered : row.status = .fresh → ∀ t ∈ row.expiresAt, t ≤ a.now) :
    Fenced (s.next a (some row)) := by
  have hown : ∀ f, (s.next a (some row)).held f = some till → f = a.fetcher := by
    intro f hf
    by_contra hne
    simp only [CellRun.next, Function.update_of_ne hne] at hf
    exact absurd (h.others_lapsed hclock hmine hne hf) (not_le.mpr hlater)
  have hclaim : claimOf (s.next a (some row)).entry = some till := hrow
  refine ⟨?_, fun f u hf => ?_, fun f g u hu hf hg => ?_, fun f u hu hf => ?_, ?_⟩
  · rintro e ⟨⟩
    exact hsettled
  · by_cases hfa : f = a.fetcher
    · subst hfa
      simp only [CellRun.next, Function.update_self, Option.isSome_some, hheld] at hf
      exact Or.inl (hclaim.trans hf)
    · simp only [CellRun.next, Function.update_of_ne hfa] at hf
      exact Or.inr (h.others_lapsed hclock hmine hfa hf)
  · obtain rfl : till = u := Option.some.inj (hclaim.symm.trans hu)
    exact (hown f hf).trans (hown g hg).symm
  · obtain rfl : till = u := Option.some.inj (hclaim.symm.trans hu)
    obtain rfl := hown f hf
    exact standing_of_grants ⟨rfl, hgrants, rfl⟩
  · rintro e ⟨⟩ hfresh - t ht
    exact hanswered hfresh t ht

/-- **A release or mark that succeeds** keeps the cell fenced. -/
theorem Fenced.cleared (h : Fenced s) (hclock : s.clock ≤ a.now) {row : LedgerEntry}
    (hmine : ∃ u, s.held a.fetcher = some u ∧ claimOf s.entry = some u)
    (hheld : a.request.heldAfter (s.held a.fetcher) true = none)
    (hrow : row.claimedUntil = none) (hsettled : row.Settled) :
    Fenced (s.next a (some row)) := by
  have hclaim : claimOf (s.next a (some row)).entry = none := hrow
  refine ⟨?_, fun f u hf => ?_, fun f g u hu => ?_, fun f u hu => ?_, ?_⟩
  · rintro e ⟨⟩
    exact hsettled
  · by_cases hfa : f = a.fetcher
    · subst hfa
      simp only [CellRun.next, Function.update_self, Option.isSome_some, hheld] at hf
      cases hf
    · simp only [CellRun.next, Function.update_of_ne hfa] at hf
      exact Or.inr (h.others_lapsed hclock (Or.inr hmine) hfa hf)
  · rw [hclaim] at hu
    cases hu
  · rw [hclaim] at hu
    cases hu
  · rintro e ⟨⟩ - hclaimed
    exact absurd hrow hclaimed

/-- **Every request** of every fetcher keeps the cell fenced. -/
theorem Fenced.step {s' : CellRun F} (h : Fenced s) (hstep : cellStep s a = some s') :
    Fenced s' := by
  obtain ⟨hclock, row, hperform, rfl⟩ := Iff.mp cellStep_eq_some_iff hstep
  cases row with
  | none => exact h.unchanged hclock
  | some row =>
    obtain ⟨f, now, request⟩ := a
    cases request with
    | claim till =>
      simp only [Request.perform] at hperform
      split_ifs at hperform with hlater
      have hclaim := Option.some.inj hperform
      have hwon : (claimRow s.entry now till).isSome = true := by rw [hclaim]; rfl
      obtain ⟨hdue, hlapsed⟩ := (claimRow_isSome_iff h.settled now till).mp hwon
      rcases claimRow_eq_some hclaim with ⟨-, rfl⟩ | ⟨old, hold, -, rfl⟩
      · exact h.granted hclock (Or.inl hlapsed) rfl rfl hlater rfl
          ⟨fun hfresh => (by cases hfresh), fun hfailed => (by cases hfailed)⟩
          fun hfresh => by cases hfresh
      · refine h.granted hclock (Or.inl hlapsed) rfl rfl hlater rfl
          (settled_of_claimedUntil (h.settled old hold) _) fun hfresh t ht => ?_
        by_contra hlt
        rw [hold] at hdue
        simp only at hfresh ht
        simp [cellState, hfresh, Option.mem_def.mp ht, not_le.mp hlt] at hdue
    | renew till =>
      simp only [Request.perform] at hperform
      split_ifs at hperform with hlater
      obtain ⟨u, hu, hrenew⟩ := Option.map_eq_some_iff.mp hperform
      obtain ⟨old, hold, hclaim, rfl⟩ := updateHeld_eq_some_iff.mp hrenew
      refine h.granted hclock (Or.inr ⟨u, hu, by rw [hold]; exact hclaim⟩) rfl rfl hlater rfl
        (settled_of_claimedUntil (h.settled old hold) _) fun hfresh t ht => ?_
      exact (h.answered old hold hfresh (by rw [hclaim]; exact Option.some_ne_none u) t ht).trans
        hclock
    | release =>
      have hmine := Request.claimOf_of_perform rfl hperform
      obtain ⟨u, hu, hrow⟩ := Option.map_eq_some_iff.mp hperform
      obtain ⟨old, hold, -, rfl⟩ := updateHeld_eq_some_iff.mp hrow
      exact h.cleared hclock hmine rfl rfl (settled_of_claimedUntil (h.settled old hold) _)
    | markFresh fetchedAt expiresAt =>
      have hmine := Request.claimOf_of_perform rfl hperform
      obtain ⟨u, hu, hrow⟩ := Option.map_eq_some_iff.mp hperform
      obtain ⟨old, hold, -, rfl⟩ := updateHeld_eq_some_iff.mp hrow
      exact h.cleared hclock hmine rfl rfl
        ⟨fun _ => Option.some_ne_none expiresAt, fun hfailed => (by cases hfailed)⟩
    | markFailed failedAt =>
      have hmine := Request.claimOf_of_perform rfl hperform
      obtain ⟨u, hu, hrow⟩ := Option.map_eq_some_iff.mp hperform
      obtain ⟨old, hold, -, rfl⟩ := updateHeld_eq_some_iff.mp hrow
      exact h.cleared hclock hmine rfl rfl
        ⟨fun hfresh => (by cases hfresh), fun _ => Option.some_ne_none _⟩

/-- Every interleaving on a cell that nobody asked for keeps it fenced. -/
theorem fenced_of_run {clock : ℤ} {as : List (Step F)}
    (hrun : Transition.run cellStep { clock := clock } as = some s) : Fenced s :=
  Transition.run_invariant (fun _ _ _ h hstep => h.step hstep) (fenced_start clock) hrun

end Preserved

/-! ## What claims guarantee -/

/-- The columns of a row that its last fetch wrote. -/
def LedgerEntry.answer (entry : LedgerEntry) : LedgerEntry := { entry with claimedUntil := none }

/-- A request writes the cell's row. -/
def Step.TakesEffect (a : Step F) (s : CellRun F) : Prop :=
  ∃ row, a.request.perform s.entry (s.held a.fetcher) a.now = some (some row)

/-- A fetcher holds a claim that has not lapsed at an instant. -/
def CellRun.HoldsAt (s : CellRun F) (f : F) (t : ℤ) : Prop := ∃ u, s.held f = some u ∧ t < u

/-- A request that changes what the last fetch wrote is a mark that takes effect. -/
theorem isMark_of_answer_ne [DecidableEq F] {s : CellRun F} {a : Step F} {row : Option LedgerEntry}
    {e : LedgerEntry} (he : s.entry = some e)
    (hperform : a.request.perform s.entry (s.held a.fetcher) a.now = some row)
    (hne : (s.next a row).entry.map LedgerEntry.answer ≠ s.entry.map LedgerEntry.answer) :
    a.request.isMark = true ∧ a.TakesEffect s := by
  cases row with
  | none => exact absurd rfl hne
  | some row =>
    refine ⟨?_, row, hperform⟩
    have hsame : ∀ claim, row ≠ { e with claimedUntil := claim } := by
      rintro claim rfl
      exact hne (by rw [he]; rfl)
    obtain ⟨f, now, request⟩ := a
    cases request with
    | claim till =>
      simp only [Request.perform] at hperform
      split_ifs at hperform
      rcases claimRow_eq_some (Option.some.inj hperform) with ⟨hnone, -⟩ | ⟨old, hold, -, rfl⟩
      · rw [he] at hnone
        cases hnone
      · obtain rfl : e = old := Option.some.inj (he.symm.trans hold)
        exact absurd rfl (hsame _)
    | renew till =>
      simp only [Request.perform] at hperform
      split_ifs at hperform
      obtain ⟨u, -, hrow⟩ := Option.map_eq_some_iff.mp hperform
      obtain ⟨old, hold, -, rfl⟩ := updateHeld_eq_some_iff.mp hrow
      obtain rfl : e = old := Option.some.inj (he.symm.trans hold)
      exact absurd rfl (hsame _)
    | release =>
      obtain ⟨u, -, hrow⟩ := Option.map_eq_some_iff.mp hperform
      obtain ⟨old, hold, -, rfl⟩ := updateHeld_eq_some_iff.mp hrow
      obtain rfl : e = old := Option.some.inj (he.symm.trans hold)
      exact absurd rfl (hsame _)
    | markFresh => rfl
    | markFailed => rfl

/-- A mark takes effect on a stored answer only once it has expired. -/
theorem Fenced.expired_of_mark {s : CellRun F} {a : Step F} (h : Fenced s)
    (hclock : s.clock ≤ a.now) {e : LedgerEntry} {t : ℤ} (he : s.entry = some e)
    (hfresh : e.status = .fresh) (ht : e.expiresAt = some t) (hmark : a.request.isMark = true)
    (heffect : a.TakesEffect s) : t ≤ a.now := by
  have hclaim : a.request.isClaim = false := by
    cases hrequest : a.request with
    | claim => rw [hrequest] at hmark; cases hmark
    | renew | release | markFresh | markFailed => rfl
  obtain ⟨row, hrow⟩ := heffect
  obtain ⟨u, -, hu⟩ := Request.claimOf_of_perform hclaim hrow
  rw [he] at hu
  have hclaimed : e.claimedUntil ≠ none := by
    rw [show e.claimedUntil = some u from hu]
    exact Option.some_ne_none u
  exact (h.answered e he hfresh hclaimed t ht).trans hclock

/-- **Claims fence fetchers.** After every interleaving of requests on a cell: a change by a fetcher
takes effect only if no other fetcher won the cell since its own last claim or renewal; no two
fetchers hold claims that have not lapsed; a claim is won exactly when a read finds the cell due
and no claim runs; and a stored answer is overwritten only after it expired. -/
theorem claims_fence_fetchers [DecidableEq F] {clock : ℤ} {as : List (Step F)} {s : CellRun F}
    (hrun : Transition.run cellStep { clock := clock } as = some s) :
    (∀ a : Step F, a.request.isClaim = false → a.TakesEffect s → Standing a.fetcher s.events) ∧
    (∀ t, s.clock ≤ t → ∀ f g, s.HoldsAt f t → s.HoldsAt g t → f = g) ∧
    (∀ later now till, claimCell s.entry later now till = .won till ↔
      cellState s.entry now = .due ∧ ∀ t, claimOf s.entry = some t → t ≤ now) ∧
    (∀ a s' e t, cellStep s a = some s' → s.entry = some e → e.status = .fresh →
      e.expiresAt = some t →
      (s'.entry.map LedgerEntry.answer ≠ s.entry.map LedgerEntry.answer ∨
        a.request.isMark = true ∧ a.TakesEffect s) → t ≤ a.now) := by
  have h := fenced_of_run hrun
  refine ⟨fun a hclaim heffect => ?_, fun t ht f g hf hg => ?_, fun later now till => ?_,
    fun a s' e t hstep he hfresh ht hchange => ?_⟩
  · obtain ⟨row, hrow⟩ := heffect
    obtain ⟨u, hheld, hu⟩ := Request.claimOf_of_perform hclaim hrow
    exact h.standing a.fetcher u hu hheld
  · obtain ⟨u, hu, htu⟩ := hf
    obtain ⟨v, hv, htv⟩ := hg
    have hclaimed : ∀ f w, s.held f = some w → t < w → claimOf s.entry = some w := fun f w hw htw =>
      (h.lapsed f w hw).resolve_right fun hle => absurd (hle.trans ht) (not_le.mpr htw)
    have hcu := hclaimed f u hu htu
    obtain rfl : u = v := Option.some.inj (hcu.symm.trans (hclaimed g v hv htv))
    exact h.one f g u hcu hu hv
  · rw [claimCell_eq_won_iff, claimRow_isSome_iff h.settled]
  · obtain ⟨hclock, row, hperform, rfl⟩ := Iff.mp cellStep_eq_some_iff hstep
    obtain ⟨hmark, heffect⟩ := hchange.elim (isMark_of_answer_ne he hperform) id
    exact h.expired_of_mark hclock he hfresh ht hmark heffect

/-- A cell whose first fetcher is late: the second one claims it in vain and then takes it over,
and the first one's answer is dropped. -/
def takeover : List (Step Bool) :=
  [⟨false, 0, .claim 10⟩, ⟨true, 5, .claim 15⟩, ⟨true, 10, .claim 20⟩,
    ⟨false, 12, .markFresh 0 100⟩, ⟨true, 13, .renew 23⟩, ⟨true, 14, .markFresh 13 100⟩]

theorem claims_fence_fetchers_takeover :
    ∃ s, Transition.run cellStep { clock := 0 } takeover = some s ∧
      s.events.map Event.took = [true, false, true, false, true, true] ∧
      cellState s.entry 99 = .fresh ∧
      ∀ t, s.clock ≤ t → ∀ f g, s.HoldsAt f t → s.HoldsAt g t → f = g :=
  ⟨_, rfl, rfl, rfl, (@claims_fence_fetchers Bool _ 0 takeover _ rfl).2.1⟩

end OpenConditions.OnDemand

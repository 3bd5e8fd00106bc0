import OpenConditions.Core.EvidenceLedger

set_option relaxedAutoImplicit false
set_option autoImplicit false

/-!
# The order of a ledger's entries

The entries of a ledger are sorted before anything reads them, by their instants and ids.  The
instants are compared as they are parsed, so that one instant may be written in several ways; and
where two entries are tied they have one id, at which the evaluation throws.

## Main definitions

* `WrittenEntry`, `WrittenLedger` — a ledger whose instants are texts.

## Main results

* `admissibleEntries_sortKeys` — the sort keys of the admissible entries, whatever their order.
* `evaluateEvidence_perm` — an evaluation does not depend on the order of the entries.
* `evaluateEvidence_written` — nor on how their instants are written.
-/

namespace OpenConditions.Core

/-! ## Ledgers as they are written -/

/-- An entry whose instant is a text. -/
structure WrittenEntry where
  id : String
  /-- `at`, an ISO instant. -/
  atText : String
  kind : EvidenceKind
  reporterKey : Option String
  external : Option ExternalResolution
  deriving DecidableEq, Repr

/-- A ledger whose instants are texts. -/
structure WrittenLedger where
  entries : List WrittenEntry
  now : String
  reporterLowerBound : Option ExtRat
  deriving DecidableEq, Repr

/-- An entry with its instant parsed. -/
def WrittenEntry.read (parse : String → Option Instant) (e : WrittenEntry) : EvidenceEntry :=
  ⟨e.id, parse e.atText, e.kind, e.reporterKey, e.external⟩

/-- A ledger with its instants parsed. -/
def WrittenLedger.read (parse : String → Option Instant) (l : WrittenLedger) : EvidenceLedger :=
  ⟨l.entries.map (WrittenEntry.read parse), parse l.now, l.reporterLowerBound⟩

/-! ## The order of the entries -/

section Order

variable {input input' : EvidenceLedger}

/-- The admissible entries of permuted entries are permuted. -/
theorem admissibleEntries_perm_perm (hperm : input.entries.Perm input'.entries)
    (hnow : input.now = input'.now) : (admissibleEntries input).Perm (admissibleEntries input') := by
  refine (admissibleEntries_perm input).trans (List.Perm.trans ?_
    (admissibleEntries_perm input').symm)
  rw [hnow]
  exact hperm.filterMap _

/-- **The sort keys** of the admissible entries do not depend on the order of the entries. -/
theorem admissibleEntries_sortKeys (hperm : input.entries.Perm input'.entries)
    (hnow : input.now = input'.now) :
    (admissibleEntries input).map SortedEntry.sortKey =
      (admissibleEntries input').map SortedEntry.sortKey := by
  have hsorted : ∀ l : EvidenceLedger,
      ((admissibleEntries l).map SortedEntry.sortKey).Pairwise (· ≤ ·) := fun l =>
    List.pairwise_map.mpr ((admissibleEntries_pairwise l).imp SortedEntry.before_iff.mp)
  exact ((admissibleEntries_perm_perm hperm hnow).map _).eq_of_pairwise
    (fun a b _ _ hab hba => le_antisymm hab hba) (hsorted input) (hsorted input')

/-- The search for a duplicate reads the sort keys only. -/
theorem firstDuplicate_congr {items items' : List SortedEntry} {seenIds : List String}
    (hkeys : items.map SortedEntry.sortKey = items'.map SortedEntry.sortKey) :
    firstDuplicate seenIds items = firstDuplicate seenIds items' := by
  induction items generalizing items' seenIds with
  | nil =>
    rw [List.map_nil, eq_comm, List.map_eq_nil_iff] at hkeys
    rw [hkeys]
  | cons item rest ih =>
    cases items' with
    | nil => cases hkeys
    | cons item' rest' =>
      obtain ⟨hkey, hrest⟩ := List.cons.inj hkeys
      have hid : item.entry.id = item'.entry.id :=
        (SortedEntry.before_antisymm (SortedEntry.before_iff.mpr hkey.le)
          (SortedEntry.before_iff.mpr hkey.ge)).2
      rw [firstDuplicate, firstDuplicate, hid, ih hrest]

/-- Without a duplicate id, the admissible entries do not depend on the order of the entries. -/
theorem admissibleEntries_perm_eq (hperm : input.entries.Perm input'.entries)
    (hnow : input.now = input'.now) (hids : firstDuplicate [] (admissibleEntries input) = none) :
    admissibleEntries input = admissibleEntries input' := by
  have hnodup := (firstDuplicate_eq_none_iff.mp hids).1
  have hentries := admissibleEntries_perm_perm hperm hnow
  -- Tied entries have one id, and an id stands once.
  refine hentries.eq_of_pairwise (fun a b ha hb hab hba => ?_) (admissibleEntries_pairwise input)
    (admissibleEntries_pairwise input')
  exact List.inj_on_of_nodup_map hnodup ha (hentries.mem_iff.mpr hb)
    (SortedEntry.before_antisymm hab hba).2

/-- The checks of a ledger do not read its entries. -/
theorem checkPolicy_congr (hbound : input.reporterLowerBound = input'.reporterLowerBound)
    (policy : EvidencePolicy) : checkPolicy input policy = checkPolicy input' policy := by
  rw [checkPolicy, checkPolicy, hbound]

/-- **The order of the entries.** Two ledgers of the same instant and bound, whose entries are
permutations of each other, are evaluated the same: both throw the same, or both give the same. -/
theorem evaluateEvidence_perm (policy : EvidencePolicy)
    (hperm : input.entries.Perm input'.entries) (hnow : input.now = input'.now)
    (hbound : input.reporterLowerBound = input'.reporterLowerBound) :
    evaluateEvidence input policy = evaluateEvidence input' policy := by
  have hduplicate := @firstDuplicate_congr _ _ [] (admissibleEntries_sortKeys hperm hnow)
  have hscore : scoreOf input policy = scoreOf input' policy := by
    funext state confirmers negators
    unfold scoreOf
    rw [hbound]
  have hcheck := checkPolicy_congr hbound policy
  cases hmessage : checkPolicy input policy with
  | some message =>
    simp only [evaluateEvidence, hmessage, hcheck.symm.trans hmessage]
  | none =>
    cases hfirst : firstDuplicate [] (admissibleEntries input) with
    | some id =>
      simp only [evaluateEvidence, hmessage, hcheck.symm.trans hmessage, hfirst,
        hduplicate.symm.trans hfirst]
    | none =>
      simp only [evaluateEvidence, hmessage, hcheck.symm.trans hmessage, hfirst,
        ← admissibleEntries_perm_eq hperm hnow hfirst, ← hnow, hscore]

end Order

/-- **The order of the entries, and how their instants are written.** However instants are parsed,
two ledgers that are read as permutations of each other, of the same instant and bound, are
evaluated the same: both throw the same, or both give the same state, score, eligibility and
expiry. -/
theorem evaluateEvidence_written (parse : String → Option Instant) (policy : EvidencePolicy)
    {l l' : WrittenLedger}
    (hperm : (l.entries.map (WrittenEntry.read parse)).Perm
      (l'.entries.map (WrittenEntry.read parse)))
    (hnow : parse l.now = parse l'.now) (hbound : l.reporterLowerBound = l'.reporterLowerBound) :
    evaluateEvidence (l.read parse) policy = evaluateEvidence (l'.read parse) policy :=
  evaluateEvidence_perm policy hperm hnow hbound

/-! ## A report and a confirmation of one instant -/

/-- The instant of the report, in two spellings. -/
def parseSample (text : String) : Option Instant :=
  if text = "1970-01-01T00:00:00Z" ∨ text = "1970-01-01T00:00:00.000Z" then some .epoch else none

/-- A report at one instant. -/
def reportWritten (atText : String) : WrittenEntry := ⟨"b", atText, .report, some "k1", none⟩

/-- A confirmation at one instant. -/
def confirmWritten (atText : String) : WrittenEntry := ⟨"a", atText, .confirm, some "k2", none⟩

/-- A report and its confirmation at the same instant, in either order and written either way. -/
theorem evaluateEvidence_written_sample :
    evaluateEvidence (WrittenLedger.read parseSample
        ⟨[reportWritten "1970-01-01T00:00:00Z", confirmWritten "1970-01-01T00:00:00.000Z"],
          "1970-01-01T00:00:00Z", none⟩) samplePolicy =
      evaluateEvidence (WrittenLedger.read parseSample
        ⟨[confirmWritten "1970-01-01T00:00:00Z", reportWritten "1970-01-01T00:00:00.000Z"],
          "1970-01-01T00:00:00Z", none⟩) samplePolicy := by
  refine evaluateEvidence_written parseSample samplePolicy ?_ rfl rfl
  exact List.Perm.swap _ _ _

end OpenConditions.Core

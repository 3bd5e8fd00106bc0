import Mathlib.Data.Finset.Card
import OpenConditions.Contrib.EvidenceRows
import OpenConditions.Core.EvidenceExternal
import OpenConditions.Core.EvidenceLedger

set_option relaxedAutoImplicit false
set_option autoImplicit false

/-!
# The confirmers a report is judged by, and those that are stored

An evaluation counts the distinct keys behind a report besides the originator's, twice: to judge the
report (`evaluateEvidence`) and to store their number (`evaluate` of `recompute.ts`).  Each count
leaves out the key of the first report, but the judge takes the first by the time it counts from and
the other the first row, which differ where a report that was uploaded late states an earlier time.

## Main definitions

* `positiveKeys` — the keys of the admissible reports and confirmations.
* `firstRow` — the first report in the order of the rows.

## Main results

* `corroborations_overcount` — a ledger whose stored number is one more than the judge's.
* `corroborations_iff` — the two numbers agree exactly when both first reports name a key or neither.
-/

namespace OpenConditions.Contrib

open OpenConditions.Core

section Keys

variable {ledger : EvidenceLedger} {first : SortedEntry} {k : String}

/-- The keys of the admissible reports and confirmations. -/
def positiveKeys (ledger : EvidenceLedger) : Finset String :=
  (((ledger.entries.filter fun e => (admitted ledger.now e).isSome).filter fun e =>
    e.kind = .confirm ∨ e.kind = .report).filterMap EvidenceEntry.reporterKey).toFinset

/-- The first admissible report in the order of the rows. -/
def firstRow (ledger : EvidenceLedger) : Option EvidenceEntry :=
  (ledger.entries.filter fun e => (admitted ledger.now e).isSome).find? fun e => e.kind = .report

/-- A key is positive when an admissible report or confirmation has it. -/
theorem mem_positiveKeys : k ∈ positiveKeys ledger ↔
    ∃ e ∈ ledger.entries, (admitted ledger.now e).isSome = true ∧
      (e.kind = .confirm ∨ e.kind = .report) ∧ e.reporterKey = some k := by
  unfold positiveKeys
  simp only [List.mem_toFinset, List.mem_filterMap, List.mem_filter, decide_eq_true_eq]
  constructor
  · rintro ⟨e, ⟨⟨he, hadmitted⟩, hkind⟩, hkey⟩
    exact ⟨e, he, hadmitted, hkind, hkey⟩
  · rintro ⟨e, he, hadmitted, hkind, hkey⟩
    exact ⟨e, ⟨⟨he, hadmitted⟩, hkind⟩, hkey⟩

/-- An entry is admissible when its instant has come. -/
theorem mem_admissibleEntries_iff {e : EvidenceEntry} :
    (∃ time, (⟨e, time⟩ : SortedEntry) ∈ admissibleEntries ledger) ↔
      e ∈ ledger.entries ∧ (admitted ledger.now e).isSome = true := by
  simp only [(admissibleEntries_perm ledger).mem_iff, List.mem_filterMap]
  constructor
  · rintro ⟨time, e', he', hadmitted⟩
    obtain rfl := (admitted_eq_some.mp hadmitted).1
    exact ⟨he', by rw [hadmitted]; rfl⟩
  · rintro ⟨he, hadmitted⟩
    obtain ⟨item, hitem⟩ := Option.isSome_iff_exists.mp hadmitted
    obtain ⟨hentry, -⟩ := admitted_eq_some.mp hitem
    exact ⟨item.atMs, e, he, by rw [hitem, ← hentry]⟩

/-- Some keys without one, if it is given. -/
def without (keys : Finset String) (originator : Option String) : Finset String :=
  keys.filter fun key => some key ≠ originator

/-- **The stored number counts the positive keys without that of the first row.** -/
theorem corroborations_eq_card (ledger : EvidenceLedger) :
    corroborations ledger =
      (without (positiveKeys ledger) ((firstRow ledger).bind EvidenceEntry.reporterKey)).card := by
  unfold corroborations without positiveKeys firstRow
  refine congrArg Finset.card ?_
  ext k
  simp only [List.mem_toFinset, List.mem_filterMap, Finset.mem_filter, Option.filter_eq_some_iff,
    decide_eq_true_eq]
  constructor
  · rintro ⟨e, he, hkey, hne⟩
    exact ⟨⟨e, he, hkey⟩, hne⟩
  · rintro ⟨⟨e, he, hkey⟩, hne⟩
    exact ⟨e, he, hkey, hne⟩

/-- **The judge counts the positive keys without that of the first report.** -/
theorem confirmerKeys_eq (hfirst : first ∈ admissibleEntries ledger) :
    confirmerKeys first (admissibleEntries ledger) =
      without (positiveKeys ledger) first.entry.reporterKey := by
  ext k
  simp only [confirmerKeys, List.mem_toFinset, List.mem_filterMap, without, Finset.mem_filter,
    mem_positiveKeys, confirmerKey]
  constructor
  · rintro ⟨item, hitem, hk⟩
    split_ifs at hk with hkind
    obtain ⟨hkey, hne⟩ := Option.filter_eq_some_iff.mp hk
    obtain ⟨he, hadmitted⟩ := Iff.mp mem_admissibleEntries_iff ⟨item.atMs, hitem⟩
    refine ⟨⟨item.entry, he, hadmitted, ?_, hkey⟩, of_decide_eq_true hne⟩
    exact hkind.imp id And.left
  · rintro ⟨⟨e, he, hadmitted, hkind, hkey⟩, hne⟩
    obtain ⟨time, hitem⟩ := Iff.mpr mem_admissibleEntries_iff ⟨he, hadmitted⟩
    refine ⟨⟨e, time⟩, hitem, ?_⟩
    have hother : (⟨e, time⟩ : SortedEntry) ≠ first := by
      rintro rfl
      exact hne hkey.symm
    rw [if_pos (hkind.imp id fun hreport => ⟨hreport, hother⟩)]
    exact Option.filter_eq_some_iff.mpr ⟨hkey, decide_eq_true hne⟩

/-- Without a key of theirs some keys are one fewer. -/
theorem card_without {keys : Finset String} {originator : Option String}
    (h : ∀ k, originator = some k → k ∈ keys) :
    (without keys originator).card = keys.card - if originator.isSome then 1 else 0 := by
  unfold without
  cases originator with
  | none => simp
  | some k =>
    have herase : (keys.filter fun key => some key ≠ some k) = keys.erase k := by
      ext key
      simp [and_comm]
    rw [herase, Finset.card_erase_of_mem (h k rfl)]
    rfl

/-- The key of the first row is a positive one. -/
theorem mem_positiveKeys_of_firstRow (h : (firstRow ledger).bind EvidenceEntry.reporterKey = some k) :
    k ∈ positiveKeys ledger := by
  obtain ⟨e, hfirst, hkey⟩ := Option.bind_eq_some_iff.mp h
  obtain ⟨he, hadmitted⟩ := List.mem_filter.mp (List.mem_of_find?_eq_some hfirst)
  exact Iff.mpr mem_positiveKeys
    ⟨e, he, hadmitted, Or.inr (by simpa using List.find?_some hfirst), hkey⟩

/-- The key of the first report is a positive one. -/
theorem mem_positiveKeys_of_first (hfirst : first ∈ admissibleEntries ledger)
    (hkind : first.entry.kind = .report) (hkey : first.entry.reporterKey = some k) :
    k ∈ positiveKeys ledger := by
  obtain ⟨he, hadmitted⟩ := Iff.mp mem_admissibleEntries_iff ⟨first.atMs, hfirst⟩
  exact Iff.mpr mem_positiveKeys ⟨first.entry, he, hadmitted, Or.inr hkind, hkey⟩

/-- **The two numbers of a ledger agree exactly when both first reports name a key or neither.** -/
theorem corroborations_eq_confirmers_iff (hfirst : first ∈ admissibleEntries ledger)
    (hkind : first.entry.kind = .report) :
    corroborations ledger = (confirmerKeys first (admissibleEntries ledger)).card ↔
      ((firstRow ledger).bind EvidenceEntry.reporterKey).isSome =
        first.entry.reporterKey.isSome := by
  rw [corroborations_eq_card, confirmerKeys_eq hfirst,
    card_without fun k => mem_positiveKeys_of_firstRow,
    card_without fun k => mem_positiveKeys_of_first hfirst hkind]
  have hrow : ((firstRow ledger).bind EvidenceEntry.reporterKey).isSome = true →
      0 < (positiveKeys ledger).card := by
    intro h
    obtain ⟨k, hk⟩ := Option.isSome_iff_exists.mp h
    exact Finset.card_pos.mpr ⟨k, mem_positiveKeys_of_firstRow hk⟩
  have hreport : first.entry.reporterKey.isSome = true → 0 < (positiveKeys ledger).card := by
    intro h
    obtain ⟨k, hk⟩ := Option.isSome_iff_exists.mp h
    exact Finset.card_pos.mpr ⟨k, mem_positiveKeys_of_first hfirst hkind hk⟩
  cases hleft : ((firstRow ledger).bind EvidenceEntry.reporterKey).isSome with
  | false =>
    cases hright : first.entry.reporterKey.isSome with
    | false => simp
    | true =>
      have := hreport hright
      simp only [Bool.false_eq_true, if_false, if_true, iff_false]
      omega
  | true =>
    cases hright : first.entry.reporterKey.isSome with
    | false =>
      have := hrow hleft
      simp only [Bool.false_eq_true, if_false, if_true, Bool.true_eq_false, iff_false]
      omega
    | true => simp

end Keys

/-- **When the stored number of corroborations is the number of confirmers a report was judged by**:
exactly when the first report in the order of the rows and the first one in the order the judge takes
them in both name a key, or neither does. -/
theorem corroborations_iff (rules : CrowdRules) (rows : List ReportEvidenceRow) (now : Option Instant)
    (result : EvidencePolicyResult) (n : ℕ) (h : evaluate rules rows now = .ok (some (result, n))) :
    ∃ ledger first, evidenceRowsToLedger (readEvidence rows) now = .ok ledger ∧
      evaluateEvidence ledger (crowdEvidencePolicy rules) = .ok result ∧
      (admissibleEntries ledger).find? (fun item => item.entry.kind = .report) = some first ∧
      (n = (confirmerKeys first (admissibleEntries ledger)).card ↔
        ((firstRow ledger).bind EvidenceEntry.reporterKey).isSome =
          first.entry.reporterKey.isSome) := by
  unfold evaluate at h
  split_ifs at h with hrows
  · exact absurd h (by simp)
  cases hledger : evidenceRowsToLedger (readEvidence rows) now with
  | error e =>
    rw [hledger] at h
    exact absurd h (by simp)
  | ok ledger =>
    rw [hledger] at h
    simp only at h
    cases hresult : evaluateEvidence ledger (crowdEvidencePolicy rules) with
    | error e =>
      rw [hresult] at h
      exact absurd h (by simp)
    | ok judged =>
      rw [hresult] at h
      obtain ⟨rfl, rfl⟩ := Prod.mk.inj (Option.some.inj (Except.ok.inj h))
      obtain ⟨-, -, first, hfirst, -⟩ := evaluateEvidence_eq_ok.mp hresult
      refine ⟨ledger, first, rfl, hresult, hfirst, ?_⟩
      exact corroborations_eq_confirmers_iff (List.mem_of_find?_eq_some hfirst)
        (by simpa using List.find?_some hfirst)

/-! ## A report uploaded late -/

/-- The crowd's rules of a sample kind. -/
def sampleRules : CrowdRules := ⟨1800, 5400, 2, 3, by decide⟩

/-- A report by nobody, and one that came later and states that it was made earlier. -/
def lateRows (lateKey : Option String) : List ReportEvidenceRow :=
  [⟨1, "report", none, some "peer", ⟨10, by decide⟩, ⟨none, none, none, none⟩⟩,
    ⟨2, "report", lateKey, some "crowd", ⟨20, by decide⟩,
      ⟨none, none, none, some ⟨5, by decide⟩⟩⟩]

/-- One corroboration is stored, and the report was judged by no confirmer. -/
theorem corroborations_overcount :
    evaluate sampleRules (lateRows (some "b")) (some ⟨30, by decide⟩) =
        .ok (some (⟨.selfReported, 3 / 10, false, 1800010⟩, 1)) ∧
      ∃ ledger first,
        evidenceRowsToLedger (readEvidence (lateRows (some "b"))) (some ⟨30, by decide⟩) =
          .ok ledger ∧
        (admissibleEntries ledger).find? (fun item => item.entry.kind = .report) = some first ∧
        (confirmerKeys first (admissibleEntries ledger)).card = 0 := by
  refine ⟨by decide +kernel, ?_⟩
  exact ⟨⟨[⟨"1", some ⟨10, by decide⟩, .report, none, none⟩,
    ⟨"2", some ⟨5, by decide⟩, .report, some "b", none⟩], some ⟨30, by decide⟩, none⟩,
    ⟨⟨"2", some ⟨5, by decide⟩, .report, some "b", none⟩, ⟨5, by decide⟩⟩, by decide +kernel,
    by decide +kernel, by decide +kernel⟩

/-- Two reports by nobody: neither first one names a key. -/
theorem corroborations_iff_anonymous :
    ∃ ledger first,
      evidenceRowsToLedger (readEvidence (lateRows none)) (some ⟨30, by decide⟩) = .ok ledger ∧
      evaluateEvidence ledger (crowdEvidencePolicy sampleRules) =
        .ok ⟨.selfReported, 3 / 10, false, 1800010⟩ ∧
      (admissibleEntries ledger).find? (fun item => item.entry.kind = .report) = some first ∧
      (0 = (confirmerKeys first (admissibleEntries ledger)).card ↔
        ((firstRow ledger).bind EvidenceEntry.reporterKey).isSome =
          first.entry.reporterKey.isSome) :=
  corroborations_iff sampleRules (lateRows none) (some ⟨30, by decide⟩)
    ⟨.selfReported, 3 / 10, false, 1800010⟩ 0 (by decide +kernel)

end OpenConditions.Contrib

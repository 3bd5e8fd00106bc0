import Mathlib.Data.Finset.Max
import OpenConditions.Contrib.EvidenceRows
import OpenConditions.Lib.DecimalText

set_option relaxedAutoImplicit false
set_option autoImplicit false

/-!
# Ties among external entries

Rows are read back by their time and their number, and the evaluation sorts their entries by time
and the *text* of the number.  Of several external entries of one time it therefore takes the one
whose text stands last, which is the one appended last unless an earlier number is greater once it
is padded with zeros to the length of the last one.

## Main definitions

* `DecidedByLastAppended` — the last external entry is, of those of its time, the one appended last.
* `LastIdPadded` — no earlier number of the last time is greater when padded.

## Main results

* `mem_admissibleEntries_rows` — the admissible entries of a ledger, told by the rows.
* `decidedByLastAppended_iff` — the append order decides exactly under that condition.
-/

namespace OpenConditions.Contrib

open OpenConditions.Core

section Ledger

variable {rows : List ReportEvidenceRow} {ledger : EvidenceLedger} {now : Option Instant}

/-! ## The rows behind the entries -/

/-- Rows are read back as they are stored. -/
theorem mem_readEvidence {row : ReportEvidenceRow} : row ∈ readEvidence rows ↔ row ∈ rows :=
  List.mem_insertionSort _

/-- The entries of a ledger are those of the rows. -/
theorem mem_entries_iff (h : evidenceRowsToLedger (readEvidence rows) now = .ok ledger)
    {e : EvidenceEntry} : e ∈ ledger.entries ↔ ∃ row ∈ rows, entryOf row = .ok e := by
  have hrows := (evidenceRowsToLedger_eq_ok.mp h).1
  rw [mem_of_forall₂_entryOf hrows]
  exact exists_congr fun row => and_congr_left fun _ => mem_readEvidence

/-- **The admissible entries of a ledger.** They are those of the rows whose time has come. -/
theorem mem_admissibleEntries_rows (h : evidenceRowsToLedger (readEvidence rows) now = .ok ledger)
    {item : SortedEntry} : item ∈ admissibleEntries ledger ↔
      ∃ row ∈ rows, entryOf row = .ok item.entry ∧ admitted now item.entry = some item := by
  rw [(admissibleEntries_perm ledger).mem_iff, List.mem_filterMap]
  have hnow := (evidenceRowsToLedger_eq_ok.mp h).2.1
  rw [hnow]
  constructor
  · rintro ⟨e, he, ha⟩
    obtain ⟨row, hrow, hentry⟩ := (mem_entries_iff h).mp he
    rw [← (admitted_eq_some.mp ha).1] at hentry ha
    exact ⟨row, hrow, hentry, ha⟩
  · rintro ⟨row, hrow, hentry, ha⟩
    exact ⟨item.entry, (mem_entries_iff h).mpr ⟨row, hrow, hentry⟩, ha⟩

/-- Rows of distinct numbers have entries of distinct ids. -/
theorem nodup_ids_rows (h : evidenceRowsToLedger (readEvidence rows) now = .ok ledger)
    (hids : rows.Pairwise fun a b => a.id < b.id) :
    ((admissibleEntries ledger).map fun item => item.entry.id).Nodup := by
  have hrows := (evidenceRowsToLedger_eq_ok.mp h).1
  have hentries := ids_of_forall₂_entryOf hrows
  have hnodup : (ledger.entries.map EvidenceEntry.id).Nodup := by
    have hperm : (readEvidence rows).Perm rows := List.perm_insertionSort _ _
    have hrow : (rows.map ReportEvidenceRow.id).Nodup :=
      List.pairwise_map.mpr (hids.imp fun hlt => hlt.ne)
    have htext := ((hperm.map ReportEvidenceRow.id).nodup_iff.mpr hrow).map Utf16.repr_injective
    rw [List.map_map] at htext
    rw [hentries]
    exact htext
  rw [((admissibleEntries_perm ledger).map fun item => item.entry.id).nodup_iff, List.Nodup,
    List.pairwise_map]
  refine List.Pairwise.filterMap _ ?_ (List.pairwise_map.mp hnodup)
  intro a b hab x hx y hy
  rw [(admitted_eq_some.mp hx).1, (admitted_eq_some.mp hy).1]
  exact hab

/-! ## The last of the external rows -/

variable {at' : Instant}

/-- An external row whose time has come has an external entry. -/
theorem item_of_row (h : evidenceRowsToLedger (readEvidence rows) (some at') = .ok ledger)
    {row : ReportEvidenceRow} (hrow : row ∈ rows) (hexternal : row.isExternal = true)
    (hle : row.occurredAt ≤ at') : ∃ item ∈ admissibleEntries ledger,
      (externalOf item).isSome = true ∧ item.atMs = row.occurredAt ∧
        item.entry.id = row.id.repr := by
  obtain ⟨e, he⟩ := exists_entryOf (evidenceRowsToLedger_eq_ok.mp h).1
    (Iff.mpr mem_readEvidence hrow)
  rcases external_of_entryOf he with ⟨-, hkind, hsome, hat⟩ | ⟨hnot, -⟩
  · refine ⟨⟨e, row.occurredAt⟩, (mem_admissibleEntries_rows h).mpr ⟨row, hrow, he,
      admitted_eq_some.mpr ⟨rfl, hat, at', rfl, hle⟩⟩, ?_, rfl, id_of_entryOf he⟩
    rw [externalOf, if_pos hkind, Option.isSome_map]
    exact hsome
  · rw [hexternal] at hnot
    cases hnot

/-- An external entry is that of an external row whose time has come. -/
theorem row_of_item (h : evidenceRowsToLedger (readEvidence rows) (some at') = .ok ledger)
    {item : SortedEntry} (hmem : item ∈ admissibleEntries ledger)
    (hsome : (externalOf item).isSome = true) : ∃ row ∈ rows, entryOf row = .ok item.entry ∧
      row.isExternal = true ∧ row.occurredAt ≤ at' := by
  obtain ⟨row, hrow, he, ha⟩ := (mem_admissibleEntries_rows h).mp hmem
  obtain ⟨-, hitem, now, hnow, hle⟩ := admitted_eq_some.mp ha
  obtain ⟨⟨found, external⟩, hfound⟩ := Option.isSome_iff_exists.mp hsome
  rcases external_of_entryOf he with ⟨hexternal, -, -, hat⟩ | ⟨-, hkind⟩
  · rw [hat, Option.some_inj] at hitem
    cases hnow
    exact ⟨row, hrow, he, hexternal, hitem ▸ hle⟩
  · exact absurd (externalOf_eq_some.mp hfound).2.1 hkind

/-- The time of the entry of an external row. -/
theorem atMs_of_entryOf (h : evidenceRowsToLedger (readEvidence rows) (some at') = .ok ledger)
    {item : SortedEntry} (hmem : item ∈ admissibleEntries ledger) {row : ReportEvidenceRow}
    (he : entryOf row = .ok item.entry) (hexternal : row.isExternal = true) :
    item.atMs = row.occurredAt := by
  obtain ⟨-, -, -, ha⟩ := (mem_admissibleEntries_rows h).mp hmem
  rcases external_of_entryOf he with ⟨-, -, -, hat⟩ | ⟨hnot, -⟩
  · rw [(admitted_eq_some.mp ha).2.1, Option.some_inj] at hat
    exact hat
  · rw [hexternal] at hnot
    cases hnot

/-- Entries of one time stand in the order of the texts of their rows' numbers. -/
theorem before_iff_of_atMs_eq {a b : SortedEntry} {m n : ℕ} (hat : a.atMs = b.atMs)
    (ha : a.entry.id = m.repr) (hb : b.entry.id = n.repr) (hle : m ≤ n) :
    a.before b ↔ m * 10 ^ (Nat.log 10 n - Nat.log 10 m) ≤ n := by
  rw [SortedEntry.before, if_neg (not_not.mpr hat), ha, hb, Utf16.lt, decide_eq_false_iff_not,
    Utf16.codeUnits_repr_lt_iff (Nat.log_mono_right hle), not_lt]

/-- The last external row up to an instant: of the last time, the one appended last. -/
structure IsLastRow (rows : List ReportEvidenceRow) (now : Instant) (last : ReportEvidenceRow) :
    Prop where
  mem : last ∈ rows
  external : last.isExternal = true
  come : last.occurredAt ≤ now
  latest : ∀ other ∈ rows, other.isExternal = true → other.occurredAt ≤ now →
    other.occurredAt ≤ last.occurredAt
  appended : ∀ other ∈ rows, other.isExternal = true → other.occurredAt = last.occurredAt →
    other.id ≤ last.id

/-- The last external entry of an evaluation is, of those of its time, the one appended last. -/
def DecidedByLastAppended (rows : List ReportEvidenceRow) (ledger : EvidenceLedger) : Prop :=
  ∀ first item external row,
    (tally first (admissibleEntries ledger)).lastExternal = some (item, external) → row ∈ rows →
    entryOf row = .ok item.entry → ∀ other ∈ rows, other.isExternal = true →
      other.occurredAt = row.occurredAt → other.id ≤ row.id

/-- No other external row of the last time has a number that is greater than the last one's, once
it is padded with zeros to as many digits. -/
def LastIdPadded (rows : List ReportEvidenceRow) (now : Instant) : Prop :=
  ∀ last, IsLastRow rows now last → ∀ other ∈ rows, other.isExternal = true →
    other.occurredAt = last.occurredAt →
      other.id * 10 ^ (Nat.log 10 last.id - Nat.log 10 other.id) ≤ last.id

/-- Of the external rows of one time, one was appended last. -/
theorem exists_last_of_time {row : ReportEvidenceRow} (hrow : row ∈ rows)
    (hexternal : row.isExternal = true) : ∃ last ∈ rows, last.isExternal = true ∧
      last.occurredAt = row.occurredAt ∧ ∀ other ∈ rows, other.isExternal = true →
        other.occurredAt = row.occurredAt → other.id ≤ last.id := by
  obtain ⟨last, hlast, hmax⟩ := Finset.exists_max_image
    (rows.filter fun r => r.isExternal && decide (r.occurredAt = row.occurredAt)).toFinset
    ReportEvidenceRow.id ⟨row, by simp [hrow, hexternal]⟩
  simp only [List.mem_toFinset, List.mem_filter, Bool.and_eq_true, decide_eq_true_eq] at hlast hmax
  exact ⟨last, hlast.1, hlast.2.1, hlast.2.2, fun other ho he hat => hmax other ⟨ho, he, hat⟩⟩

/-- **Ties.** The append order decides ties among external entries exactly when no earlier number
of the last time is greater than the last one once it is padded with zeros.

**Proof sketch.** The last external entry has the last time.  If it is the last row's, no other
entry of that time stands after it, so no other text does.  Otherwise the last row's text stands
before its own, though its number is not smaller. -/
theorem decidedByLastAppended_iff (hids : rows.Pairwise fun a b => a.id < b.id)
    (h : evidenceRowsToLedger (readEvidence rows) (some at') = .ok ledger) :
    DecidedByLastAppended rows ledger ↔ LastIdPadded rows at' := by
  have hnodup := nodup_ids_rows h hids
  constructor
  · intro hdecided last hlast other hother hexternal hat
    obtain ⟨lastItem, hlastMem, hlastSome, hlastAt, hlastId⟩ :=
      item_of_row h hlast.mem hlast.external hlast.come
    obtain ⟨item, external, hitem⟩ := exists_isLastExternal hnodup hlastMem hlastSome
    have hsome : (externalOf item).isSome = true := by rw [hitem.resolution]; rfl
    obtain ⟨row, hrow, he, hrowExternal, hrowLe⟩ := row_of_item h hitem.mem hsome
    have hitemAt := atMs_of_entryOf h hitem.mem he hrowExternal
    have hsameTime : last.occurredAt = row.occurredAt := by
      refine le_antisymm ?_ (hlast.latest row hrow hrowExternal hrowLe)
      have hle := (hitem.last lastItem hlastMem hlastSome).atMs_le
      rwa [hlastAt, hitemAt] at hle
    have hid : row.id = last.id := by
      refine le_antisymm (hlast.appended row hrow hrowExternal hsameTime.symm) ?_
      exact hdecided item item external row ((tally_lastExternal_eq_some hnodup).mpr hitem) hrow he
        last hlast.mem hlast.external hsameTime
    obtain ⟨otherItem, hotherMem, hotherSome, hotherAt, hotherId⟩ :=
      item_of_row h hother hexternal (hat ▸ hlast.come)
    have hbefore := hitem.last otherItem hotherMem hotherSome
    rw [← hid]
    refine (before_iff_of_atMs_eq ?_ hotherId (id_of_entryOf he) ?_).mp hbefore
    · rw [hotherAt, hat, hsameTime, hitemAt]
    · rw [hid]
      exact hlast.appended other hother hexternal hat
  · intro hpadded first item external row hitem hrow he other hother hexternal hat
    have hlastExternal := (tally_lastExternal_eq_some hnodup).mp hitem
    have hsome : (externalOf item).isSome = true := by rw [hlastExternal.resolution]; rfl
    obtain ⟨row', hrow', he', hrowExternal', hrowLe'⟩ := row_of_item h hlastExternal.mem hsome
    have hrowExternal : row.isExternal = true := by
      rcases external_of_entryOf he with ⟨hyes, -⟩ | ⟨-, hkind⟩
      · exact hyes
      · exact absurd (externalOf_eq_some.mp hlastExternal.resolution).2.1 hkind
    have hitemAt := atMs_of_entryOf h hlastExternal.mem he hrowExternal
    have hrowLe : row.occurredAt ≤ at' := by
      rwa [← hitemAt, atMs_of_entryOf h hlastExternal.mem he' hrowExternal']
    obtain ⟨last, hlast, hlastExternal', hlastAt, hmax⟩ := exists_last_of_time hrow hrowExternal
    have hisLast : IsLastRow rows at' last := by
      refine ⟨hlast, hlastExternal', hlastAt ▸ hrowLe, fun x hx hxe hxle => ?_, fun x hx hxe hxat =>
        hmax x hx hxe (hxat.trans hlastAt)⟩
      obtain ⟨xItem, hxMem, hxSome, hxAt, -⟩ := item_of_row h hx hxe hxle
      have hle := (hlastExternal.last xItem hxMem hxSome).atMs_le
      rwa [hxAt, hitemAt, ← hlastAt] at hle
    obtain ⟨lastItem, hlastMem, hlastSome, hlastItemAt, hlastId⟩ :=
      item_of_row h hlast hlastExternal' hisLast.come
    have hsameAt : item.atMs = lastItem.atMs := by rw [hitemAt, hlastItemAt, hlastAt]
    have hforth := (before_iff_of_atMs_eq hsameAt (id_of_entryOf he) hlastId
      (hmax row hrow hrowExternal rfl)).mpr (hpadded last hisLast row hrow hrowExternal hlastAt.symm)
    have hback := hlastExternal.last lastItem hlastMem hlastSome
    have hid := (SortedEntry.before_antisymm hforth hback).2
    rw [id_of_entryOf he, hlastId] at hid
    rw [Utf16.repr_injective hid]
    exact hmax other hother hexternal hat

end Ledger

/-! ## The ninth row and the tenth -/

/-- A row of a kind, at an instant. -/
def plainRow (id : ℕ) (evidenceKind : String) (occurredAt : Instant) : ReportEvidenceRow :=
  ⟨id, evidenceKind, none, none, occurredAt, ⟨none, none, none, none⟩⟩

/-- A report, and two resolutions of one time. -/
def tiedRows (first second : ℕ) : List ReportEvidenceRow :=
  [plainRow 1 "report" .epoch, plainRow first "official_match" ⟨60002, by decide⟩,
    plainRow second "reviewer_reject" ⟨60002, by decide⟩]

/-- The ledger of a report and two resolutions of one time. -/
def tiedLedger (first second : ℕ) : EvidenceLedger :=
  ⟨[⟨"1", some .epoch, .report, none, none⟩,
    ⟨first.repr, some ⟨60002, by decide⟩, .external, none, some ⟨.official, .confirmed⟩⟩,
    ⟨second.repr, some ⟨60002, by decide⟩, .external, none, some ⟨.reviewer, .rejected⟩⟩],
    some ⟨60002, by decide⟩, none⟩

/-- Of rows eight and nine of one time, the ninth decides. -/
theorem decidedByLastAppended_iff_sample :
    DecidedByLastAppended (tiedRows 8 9) (tiedLedger 8 9) ↔
      LastIdPadded (tiedRows 8 9) ⟨60002, by decide⟩ :=
  decidedByLastAppended_iff (by decide) (by decide)

/-- Of rows nine and ten of one time, the ninth decides: the confirmation stands, though the
rejection was appended after it. -/
theorem tenth_row_passed_over :
    evidenceRowsToLedger (readEvidence (tiedRows 9 10)) (some ⟨60002, by decide⟩) =
        .ok (tiedLedger 9 10) ∧
      ¬DecidedByLastAppended (tiedRows 9 10) (tiedLedger 9 10) := by
  have hlast : (tally ⟨⟨"1", some .epoch, .report, none, none⟩, .epoch⟩
      (admissibleEntries (tiedLedger 9 10))).lastExternal =
        some (⟨⟨"9", some ⟨60002, by decide⟩, .external, none, some ⟨.official, .confirmed⟩⟩,
          ⟨60002, by decide⟩⟩, ⟨.official, .confirmed⟩) := by decide
  refine ⟨by decide, fun h => ?_⟩
  have hle := h _ _ _ (plainRow 9 "official_match" ⟨60002, by decide⟩) hlast (by decide)
    (by decide) (plainRow 10 "reviewer_reject" ⟨60002, by decide⟩) (by decide) (by decide)
    rfl
  exact absurd hle (by decide)

end OpenConditions.Contrib

import Mathlib.Data.List.Forall2
import OpenConditions.Federation.Outbox
import OpenConditions.Federation.Push
import OpenConditions.Federation.RecordFilter
import OpenConditions.Lib.Keyset

set_option relaxedAutoImplicit false
set_option autoImplicit false

/-!
# What the public projection tells of what it withholds

Two records that differ only in what the public scope withholds, and the outbox pages built from
them.  The projection keeps the merged sources whose own licence is public and does not look at the
licences of their upstream publishers, which it does for the record itself; so a merged source that
passed on a restricted publisher's data rides along.

## Main definitions

* `BuiltFrom` — two journal rows are the same but for which of two records they carry.

## Main results

* `public_projection_tells` — two records that differ in such a merged source.
* `public_projection_iff` — when two records give the same public record and the same pages.
-/

namespace OpenConditions.Federation

section Projection

variable {δ : Type} {ops : DateOps} {clock : String} {filter : Option RecordFilter}
  {record record' : FederatedRecord δ}

/-- Two journal rows are the same but for which of two records they carry. -/
def BuiltFrom (record record' : FederatedRecord δ) (row row' : JournalRow (RowContent δ)) : Prop :=
  row = row' ∨ (row.content.snapshot = some (.record record) ∧
    row' = { row with content := { row.content with snapshot := some (.record record') } })

/-- Two entries are the same but for records that the public scope shows as the same. -/
inductive SamePublicly : OutboxEntry δ → OutboxEntry δ → Prop
  | same (entry : OutboxEntry δ) : SamePublicly entry entry
  | carrying (entry : RecordEntry δ) (hop : entry.operation ≠ .delete)
      (record record' : FederatedRecord δ) : SameButWithheld record record' →
      publicRecords [record] = publicRecords [record'] →
      SamePublicly (.record (entry.carrying record hop)) (.record (entry.carrying record' hop))

/-- Two such entries pass a filter as the same. -/
theorem SamePublicly.passed {e e' : OutboxEntry δ} (h : SamePublicly e e') (now : Option String) :
    filterEntry ops clock filter now e = filterEntry ops clock filter now e' := by
  cases h with
  | same => rfl
  | carrying entry hop record record' hsame hpublic =>
    obtain ⟨⟨reporter, merged, hmerged, rfl⟩, -⟩ := hsame
    unfold filterEntry
    simp only
    rw [filterRecord_carrying, filterRecord_carrying, hpublic]
    rfl

/-- Two such pages pass a filter as the same. -/
theorem applyRecordFilter_samePublicly {entries entries' : List (OutboxEntry δ)}
    (h : List.Forall₂ SamePublicly entries entries') (now : Option String) :
    applyRecordFilter (filterEntry ops clock) entries filter now =
      applyRecordFilter (filterEntry ops clock) entries' filter now := by
  unfold applyRecordFilter
  induction h with
  | nil => rfl
  | cons hentry _ ih => rw [List.filterMap_cons, List.filterMap_cons, hentry.passed, ih]

/-- Two rows built from two records have two entries that are publicly the same. -/
theorem BuiltFrom.entries {row row' : JournalRow (RowContent δ)}
    (h : BuiltFrom record record' row row') (hsame : SameButWithheld record record')
    (hkept : isPublicRecord record = true → ownPublicSources record = ownPublicSources record') :
    Option.Rel SamePublicly (rowToEntry ops row) (rowToEntry ops row') := by
  have hrefl : ∀ entry : Option (OutboxEntry δ), Option.Rel SamePublicly entry entry := by
    intro entry
    cases entry with
    | none => exact .none
    | some entry => exact .some (.same entry)
  rcases h with rfl | ⟨hsnapshot, rfl⟩
  · exact hrefl _
  · have hchange : ∀ (operation : RecordOperation) (hop : operation ≠ .delete),
        Option.Rel SamePublicly
          (row.content.federated.map fun snapshot =>
            RowContent.entry ops row operation (some snapshot) (fun h => absurd h hop) false none
              none)
          (({ row.content with snapshot := some (.record record') } : RowContent δ).federated.map
            fun snapshot =>
              RowContent.entry ops row operation (some snapshot) (fun h => absurd h hop) false none
                none) := by
      intro operation hop
      unfold RowContent.federated
      rw [hsnapshot]
      simp only
      by_cases hrestricted : row.content.restricted = some true
      · rw [if_pos hrestricted, if_pos hrestricted]
        exact .none
      · rw [if_neg hrestricted, if_neg hrestricted]
        rcases federatedSnapshot_sameButWithheld hsame
            (decide (row.content.extrasFederate = some true)) with
          ⟨hnone, hnone'⟩ | ⟨snapshot, snapshot', hsome, hsome', hpair, hpublic, hown, hown'⟩
        · rw [hnone, hnone']
          exact .none
        · rw [hsome, hsome']
          have hshown : publicRecords [snapshot] = publicRecords [snapshot'] := by
            rw [publicRecords_eq_iff hpair, hpublic, hown, hown']
            exact hkept
          exact .some (.carrying (RecordEntry.mk row.seq row.txid operation row.content.recordClass
            row.content.recordId row.content.canonicalId row.content.kind row.content.domain
            row.content.property (ops.toISOString row.createdAt) none (fun _ => rfl) false none none)
            hop snapshot snapshot' hpair hshown)
    unfold rowToEntry
    simp only
    cases row.operation with
    | liveness =>
      rw [hsnapshot]
      exact .none
    | delete => exact hrefl _
    | create => exact hchange .create (by decide)
    | update => exact hchange .update (by decide)

/-- **Two collections of rows built from two records give one page**, whatever is asked. -/
theorem readOutbox_builtFrom {rows rows' : List (JournalRow (RowContent δ))}
    (h : List.Forall₂ (BuiltFrom record record') rows rows')
    (hsame : SameButWithheld record record')
    (hkept : isPublicRecord record = true → ownPublicSources record = ownPublicSources record')
    (xmin : ℕ) (q : OutboxQuery RecordFilter) :
    readOutbox (rowToEntry ops) (applyRecordFilter (filterEntry ops clock)) rows xmin q =
      readOutbox (rowToEntry ops) (applyRecordFilter (filterEntry ops clock)) rows' xmin q := by
  have hcolumns : ∀ row row', BuiltFrom record record' row row' →
      row.key = row'.key ∧ row.cursor = row'.cursor ∧ selects xmin q row = selects xmin q row' := by
    rintro row row' (rfl | ⟨-, rfl⟩)
    · exact ⟨rfl, rfl, rfl⟩
    · exact ⟨rfl, rfl, rfl⟩
  unfold readOutbox readRows
  cases normalizeCursor q.after with
  | error e => rfl
  | ok after =>
    simp only
    cases xid8Of after.txid with
    | none => rfl
    | some txid =>
      have hscanned := Keyset.page_rel (fun row row' hrow => (hcolumns row row' hrow).1)
        (fun row row' hrow => (hcolumns row row' hrow).2.2) h (toLex (txid, after.seq))
        (pageLimit q.limit)
      simp only
      generalize Keyset.page JournalRow.key rows (selects xmin q) (toLex (txid, after.seq))
        (pageLimit q.limit) = scanned at hscanned
      generalize Keyset.page JournalRow.key rows' (selects xmin q) (toLex (txid, after.seq))
        (pageLimit q.limit) = scanned' at hscanned
      have hcursors : scanned.map JournalRow.cursor = scanned'.map JournalRow.cursor := by
        induction hscanned with
        | nil => rfl
        | cons hrow _ ih => rw [List.map_cons, List.map_cons, (hcolumns _ _ hrow).2.1, ih]
      have hitems : applyRecordFilter (filterEntry ops clock) (scanned.filterMap (rowToEntry ops))
          q.filter q.now =
          applyRecordFilter (filterEntry ops clock) (scanned'.filterMap (rowToEntry ops))
            q.filter q.now := by
        have hentries : List.Forall₂ SamePublicly (scanned.filterMap (rowToEntry ops))
            (scanned'.filterMap (rowToEntry ops)) :=
          List.rel_filterMap (fun row row' hrow => BuiltFrom.entries hrow hsame hkept) hscanned
        exact applyRecordFilter_samePublicly hentries _
      have hlast : scanned.getLast?.map JournalRow.cursor =
          scanned'.getLast?.map JournalRow.cursor := by
        rw [← List.getLast?_map, ← List.getLast?_map, hcursors]
      rw [hitems, hlast, hscanned.length_eq]

/-- **When two records that differ only in what the public scope withholds give the same**: what
`publicRecords` leaves of them, and every outbox page built from them under every filter, is the same
exactly when they are not public, or their merged sources of a public licence are the same. -/
theorem public_projection_iff (ops : DateOps) (clock : String) (record record' : FederatedRecord δ)
    (hsame : SameButWithheld record record') :
    (publicRecords [record] = publicRecords [record'] ∧
      ∀ rows rows', List.Forall₂ (BuiltFrom record record') rows rows' → ∀ xmin q,
        readOutbox (rowToEntry ops) (applyRecordFilter (filterEntry ops clock)) rows xmin q =
          readOutbox (rowToEntry ops) (applyRecordFilter (filterEntry ops clock)) rows' xmin q) ↔
      (isPublicRecord record = true → ownPublicSources record = ownPublicSources record') := by
  constructor
  · exact fun h => (publicRecords_eq_iff hsame).mp h.1
  · exact fun h => ⟨(publicRecords_eq_iff hsame).mpr h,
      fun rows rows' hrows xmin q => readOutbox_builtFrom hrows hsame h xmin q⟩

/-- A public closure, with what is merged into it. -/
def mergedClosure (merged : Option (List (MergedSource Unit))) (h : merged ≠ some []) :
    FederatedRecord Unit :=
  { id := "oc:situation:de-autobahn:1"
    cls := .situation
    revision := some 1
    kind := "closure"
    domain := "roads"
    property := none
    geometry := none
    provenance :=
      ⟨"DL-DE-BY-2.0", none, merged, h, none, "feed", "de-autobahn", "bulk", none,
        "authoritative", ()⟩
    fetchedAt := "2026-10-03T12:00:00.000Z"
    evidenceState := none
    phenomenonTime := none
    extras := none
    details := () }

/-- A merged source under a public licence that passed on a share-alike publisher's data. -/
def relayedSource : MergedSource Unit :=
  ⟨"CC-BY-4.0", some [⟨some "CC-BY-SA-4.0", none, ()⟩], ()⟩

/-- A record with such a merged source, and one without: the public scope tells them apart. -/
theorem public_projection_tells :
    SameButWithheld (mergedClosure none (by simp)) (mergedClosure (some [relayedSource]) (by simp)) ∧
    publicRecords [mergedClosure none (by simp)] ≠
      publicRecords [mergedClosure (some [relayedSource]) (by simp)] := by
  have hsame : SameButWithheld (mergedClosure none (by simp))
      (mergedClosure (some [relayedSource]) (by simp)) :=
    ⟨⟨none, some [relayedSource], by simp, rfl⟩, by decide⟩
  refine ⟨hsame, fun h => ?_⟩
  have hkept := (publicRecords_eq_iff hsame).mp h (by decide)
  revert hkept
  decide

/-- Two public records, of which one has a merged share-alike source: their pages are the same. -/
theorem public_projection_shareAlike :
    publicRecords [mergedClosure none (by simp)] =
      publicRecords [mergedClosure (some [⟨"CC-BY-SA-4.0", none, ()⟩]) (by simp)] :=
  ((public_projection_iff sampleDates "2026-10-03T12:00:00.000Z" (mergedClosure none (by simp))
    (mergedClosure (some [⟨"CC-BY-SA-4.0", none, ()⟩]) (by simp))
    ⟨⟨none, some [⟨"CC-BY-SA-4.0", none, ()⟩], by simp, rfl⟩, by decide⟩).mpr
      (fun _ => by decide)).1

end Projection

end OpenConditions.Federation

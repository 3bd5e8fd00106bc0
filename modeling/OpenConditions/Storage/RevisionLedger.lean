import OpenConditions.Storage.Advance
import OpenConditions.Lib.Run

set_option relaxedAutoImplicit false
set_option autoImplicit false

/-!
# The ledger of revisions

Polls of sources, writes of single records and ends of records, in any order, each in its own
transaction.  A poll looks its drafts up among the rows of its source and stores them under their
ids; a record written on its own is looked up by its id alone.  So long as an id stays with one
source and reads as it is stored, sources are isolated, no stored revision is lowered and no
revision row is inserted twice.

## Main definitions

* `LedgerCall`, `ledgerStep` — a call, in its transaction.
* `CallOk` — the condition on a call.
* `Isolated` — a call leaves the records of other sources as they are.

## Main results

* `writeClass_advances`, `writeRecordIn_advances` — the writers advance the tables.
* `revisions_form_ledger` — every run of calls that meet the condition.
-/

namespace OpenConditions.Storage

variable {I J : Type} [DecidableEq I]

/-! ## The condition on a draft -/

/-- No row of another source stands under the id of a record that is written. -/
def KeepsSource (db : Db I J) (cls : RevisionedClass) (raw : RawRecord I J) : Prop :=
  ∀ id row, raw.id = some id → (db.rows cls).get id = some row → raw.sourceId = some row.sourceId

/-- The id of a draft is the one it is stored under. -/
def ReadsAsStored (registry : Registry I J) (draft : RawRecord I J) : Prop :=
  ∀ id, draft.id = some id → registry.wellFormed id = id

/-- The drafts of a class that are of the class and the source keep their source and read as they
are stored. -/
def DraftsOk (registry : Registry I J) (db : Db I J) (cls : RevisionedClass) (sourceId : String)
    (drafts : List (RawRecord I J)) : Prop :=
  ∀ draft ∈ drafts, draft.cls = some cls → draft.sourceId = some sourceId →
    ReadsAsStored registry draft ∧ KeepsSource db cls draft

/-! ## A poll -/

section Poll

variable {registry : Registry I J} {db db' : Db I J} {cls : RevisionedClass} {sourceId : String}

/-- The deduplicated drafts are drafts. -/
theorem mem_of_mem_dedupeDrafts {drafts : List (RawRecord I J)} {draft : RawRecord I J}
    (h : draft ∈ dedupeDrafts drafts) : draft ∈ drafts := by
  obtain ⟨⟨key, value⟩, hmem, rfl⟩ := List.mem_map.mp h
  rw [← OrderedMap.get_eq_some_iff] at hmem
  by_cases hkey : key ∈ drafts.map RawRecord.id
  · obtain ⟨w, hw, hd⟩ := OrderedMap.get_foldl_set_of_mem (k := RawRecord.id) (v := fun _ d => d)
      (P := fun w => w ∈ drafts) hkey .empty fun _ d hd _ => hd
    rw [hmem, Option.some_inj] at hw
    rw [hw]
    exact hd
  · rw [OrderedMap.get_foldl_set_of_not_mem hkey, OrderedMap.get_empty] at hmem
    cases hmem

/-- The rows of a source are the rows of the table that are under it. -/
theorem get_existingOf {table : OrderedMap I (ClassRow I J)} {id : I} {row : ClassRow I J} :
    (existingOf table sourceId).get id = some row ↔
      table.get id = some row ∧ row.sourceId = sourceId := by
  simp [existingOf, OrderedMap.get_filter]

omit [DecidableEq I] in
/-- A record a poll writes is that of a draft of the class and the source, one revision past the
row of its id. -/
theorem judgeDraft_eq_written {ctx : WriteContext} {existing : I → Option (ClassRow I J)}
    {draft : RawRecord I J} {record : SealedRecord I J} {prev : Option (ClassRow I J)}
    (h : judgeDraft registry ctx cls sourceId existing draft = .written record prev) :
    draft.cls = some cls ∧ draft.sourceId = some sourceId ∧
      draft.id.map registry.wellFormed = some record.head.id ∧
      record.revision = ((draft.id.bind existing).map fun row => row.revision).getD 0 + 1 := by
  unfold judgeDraft at h
  split at h
  · cases h
  · rename_i hdraft
    rw [not_or, not_not, not_not] at hdraft
    refine ⟨hdraft.1, hdraft.2, ?_⟩
    split at h
    · cases h
    · split at h
      · rename_i id row hprev
        obtain ⟨id', hid, hrow⟩ := Option.bind_eq_some_iff.mp hprev
        obtain ⟨row', hrow', hpair⟩ := Option.map_eq_some_iff.mp hrow
        cases hpair
        split at h
        · cases h
        · split at h
          · cases h
          · rename_i hseal
            cases h
            refine ⟨registry.seal_id _ _ _ hseal, ?_⟩
            rw [(registry.seal_assigned _ _ _ hseal).2.1, hid, Option.bind_some, hrow',
              Option.map_some, Option.getD_some]
      · rename_i hprev
        split at h
        · cases h
        · rename_i hseal
          cases h
          refine ⟨registry.seal_id _ _ _ hseal, ?_⟩
          rw [(registry.seal_assigned _ _ _ hseal).2.1]
          cases hid : draft.id with
          | none => rfl
          | some id =>
            cases hrow : existing id with
            | none => rw [Option.bind_some, hrow, Option.map_none, Option.getD_none]
            | some row =>
              rw [hid, Option.bind_some, hrow, Option.map_some] at hprev
              cases hprev

omit [DecidableEq I] in
/-- An expiry a poll moves is of a row of its source. -/
theorem judgeDraft_moved {ctx : WriteContext} {existing : I → Option (ClassRow I J)}
    {draft : RawRecord I J} {moved : I × Option Iso8601}
    (h : (judgeDraft registry ctx cls sourceId existing draft).moved? = some moved) :
    ∃ row, existing moved.1 = some row := by
  unfold judgeDraft at h
  split at h
  · cases h
  · split at h
    · cases h
    · split at h
      · rename_i id row hprev
        obtain ⟨id', hid, hrow⟩ := Option.bind_eq_some_iff.mp hprev
        obtain ⟨row', hrow', hpair⟩ := Option.map_eq_some_iff.mp hrow
        cases hpair
        split at h
        · simp only [DraftOutcome.moved?] at h
          split_ifs at h
          cases h
          exact ⟨row, hrow'⟩
        · split at h <;> cases h
      · split at h <;> cases h

/-- A record a poll ends is a row of its source. -/
theorem exists_of_mem_goneOf {table : OrderedMap I (ClassRow I J)} {seen : List (Option I)}
    {instanceId : String} {id : I} (h : id ∈ goneOf (existingOf table sourceId) seen instanceId) :
    ∃ row, table.get id = some row ∧ row.sourceId = sourceId := by
  obtain ⟨⟨x, row⟩, hmem, rfl⟩ := List.mem_map.mp h
  rw [← OrderedMap.get_eq_some_iff, OrderedMap.get_filter, Option.filter_eq_some_iff] at hmem
  exact ⟨row, Iff.mp get_existingOf hmem.1⟩

/-- What a poll makes of its drafts. -/
def pollOutcomes (registry : Registry I J) (db : Db I J) (cls : RevisionedClass)
    (sourceId : String) (drafts : List (RawRecord I J)) (ctx : WriteContext) :
    List (DraftOutcome I J) :=
  (dedupeDrafts drafts).map
    (judgeDraft registry ctx cls sourceId (existingOf (db.rows cls) sourceId).get)

/-- The revision a record of an id is stored at by a poll. -/
def nextRevision (db : Db I J) (cls : RevisionedClass) (sourceId : String) (id : I) : ℕ :=
  (((existingOf (db.rows cls) sourceId).get id).map fun row => row.revision).getD 0 + 1

/-- A poll moves the expiries of rows of its source. -/
theorem source_of_pollMoved {drafts : List (RawRecord I J)} {ctx : WriteContext} {id : I}
    {row : ClassRow I J}
    (h : id ∈ ((pollOutcomes registry db cls sourceId drafts ctx).filterMap
      DraftOutcome.moved?).map Prod.fst)
    (hrow : (db.rows cls).get id = some row) : row.sourceId = sourceId := by
  obtain ⟨m, hm, rfl⟩ := List.mem_map.mp h
  obtain ⟨outcome, houtcome, hsome⟩ := List.mem_filterMap.mp hm
  obtain ⟨draft, -, rfl⟩ := List.mem_map.mp houtcome
  obtain ⟨row', hrow'⟩ := judgeDraft_moved hsome
  obtain ⟨hget, hsource⟩ := Iff.mp get_existingOf hrow'
  rw [hrow, Option.some_inj] at hget
  rw [hget]
  exact hsource

/-- A poll writes a record of one of its drafts. -/
theorem exists_draft_of_pollWritten {drafts : List (RawRecord I J)} {ctx : WriteContext}
    {w : SealedRecord I J × Option (ClassRow I J)}
    (h : w ∈ (pollOutcomes registry db cls sourceId drafts ctx).filterMap DraftOutcome.record?) :
    ∃ draft ∈ drafts, judgeDraft registry ctx cls sourceId
      (existingOf (db.rows cls) sourceId).get draft = .written w.1 w.2 := by
  obtain ⟨outcome, houtcome, hsome⟩ := List.mem_filterMap.mp h
  obtain ⟨draft, hdraft, rfl⟩ := List.mem_map.mp houtcome
  refine ⟨draft, mem_of_mem_dedupeDrafts hdraft, ?_⟩
  cases hjudge : judgeDraft registry ctx cls sourceId (existingOf (db.rows cls) sourceId).get draft
    with
  | written record prev =>
    rw [hjudge] at hsome
    cases hsome
    rfl
  | rejected rejection =>
    rw [hjudge] at hsome
    cases hsome
  | unchanged moved =>
    rw [hjudge] at hsome
    cases hsome

/-- A poll whose drafts keep their source writes each record one revision past the row of its id,
which is a row of its source. -/
theorem revision_of_pollWritten {drafts : List (RawRecord I J)} {ctx : WriteContext}
    {w : SealedRecord I J × Option (ClassRow I J)}
    (hdrafts : DraftsOk registry db cls sourceId drafts)
    (h : w ∈ (pollOutcomes registry db cls sourceId drafts ctx).filterMap DraftOutcome.record?) :
    w.1.revision = nextRevision db cls sourceId w.1.head.id ∧
      ∀ row, (db.rows cls).get w.1.head.id = some row → row.sourceId = sourceId := by
  obtain ⟨draft, hdraft, hjudge⟩ := exists_draft_of_pollWritten h
  obtain ⟨hcls, hsource, hid, hrevision⟩ := judgeDraft_eq_written hjudge
  obtain ⟨hreads, hkeeps⟩ := hdrafts draft hdraft hcls hsource
  obtain ⟨id, hdid, hwell⟩ := Option.map_eq_some_iff.mp hid
  rw [hreads id hdid] at hwell
  subst hwell
  refine ⟨?_, fun row hrow => ?_⟩
  · rw [hrevision, hdid, Option.bind_some, nextRevision]
  · have hkept := hkeeps w.1.head.id row hdid hrow
    rw [hsource, Option.some_inj] at hkept
    exact hkept.symm

/-- The revision a poll stores a record of an id at is past that of a row of its source. -/
theorem lt_nextRevision {id : I} {row : ClassRow I J} (hrow : (db.rows cls).get id = some row)
    (hsource : row.sourceId = sourceId) : row.revision < nextRevision db cls sourceId id := by
  have hget : (existingOf (db.rows cls) sourceId).get id = some row :=
    Iff.mpr get_existingOf ⟨hrow, hsource⟩
  rw [nextRevision, hget, Option.map_some, Option.getD_some]
  omega

/-- Writing one class of a poll advances the tables: it changes no row of another source.

**Proof sketch.** The expiries are moved of rows of the source.  A written record is that of a
draft whose id reads as it is stored and under which no row of another source stands, so the row
under its id, if any, is the one the poll looked up, and the record is stored one revision past
it.  The records that end are rows of the source. -/
theorem writeClass_advances {drafts : List (RawRecord I J)} {ctx : WriteContext}
    {summary : ClassSummary I} (hinv : LedgerInv db)
    (h : writeClass registry db cls sourceId drafts ctx = .ok (db', summary))
    (hdrafts : DraftsOk registry db cls sourceId drafts) :
    Advances cls (fun id => ∀ row, (db.rows cls).get id = some row → row.sourceId = sourceId)
      db db' := by
  unfold writeClass at h
  dsimp only at h
  rw [← pollOutcomes] at h
  set outcomes := pollOutcomes registry db cls sourceId drafts ctx with houtcomes
  set db₁ := refreshExpiries db cls (outcomes.filterMap DraftOutcome.moved?) with hdb₁
  have hmoved : Advances cls
      (fun id => ∀ row, (db.rows cls).get id = some row → row.sourceId = sourceId) db db₁ :=
    (refreshExpiries_advances hinv _).mono fun id hid row hrow => source_of_pollMoved hid hrow
  split at h
  · cases h
  · rename_i db₂ hstore
    split at h
    · cases h
    · rename_i db₃ hinsert
      have hwritten : Advances cls
          (fun id => ∀ row, (db.rows cls).get id = some row → row.sourceId = sourceId) db₁ db₃ := by
        refine (storeRevisions_advances (f := nextRevision db cls sourceId) hmoved.inv hstore
          hinsert ?_ ?_ ?_).mono ?_
        · intro r hr
          obtain ⟨w, hw, rfl⟩ := List.mem_map.mp hr
          exact (revision_of_pollWritten hdrafts hw).1
        · intro r hr row₁ hrow₁
          obtain ⟨w, hw, rfl⟩ := List.mem_map.mp hr
          have hkeys := @states_refreshExpiries I J _ db cls
            (outcomes.filterMap DraftOutcome.moved?) w.1.head.id
          rw [← hdb₁, hrow₁, Option.map_some, eq_comm, Option.map_eq_some_iff] at hkeys
          obtain ⟨row, hrow, hkeys⟩ := hkeys
          simp only [Prod.mk.injEq] at hkeys
          rw [← hkeys.1]
          exact lt_nextRevision hrow ((revision_of_pollWritten hdrafts hw).2 row hrow)
        · intro row hrow
          obtain ⟨w, hw, hsome⟩ := List.mem_filterMap.mp hrow
          refine ⟨w.1, List.mem_map.mpr ⟨w, hw, rfl⟩, ?_⟩
          unfold writtenRevision at hsome
          split_ifs at hsome
          cases hsome
          exact ⟨rfl, rfl⟩
        · intro id hid row hrow
          obtain ⟨r, hr, rfl⟩ := List.mem_map.mp hid
          obtain ⟨w, hw, rfl⟩ := List.mem_map.mp hr
          exact (revision_of_pollWritten hdrafts hw).2 row hrow
      have hboth := hmoved.trans hwritten
      split at h
      · split at h
        · cases h
        · rename_i db₄ hend
          cases h
          refine hboth.trans ((tombstoneRecords_advances hboth.inv hend ?_).mono ?_)
          · intro hby
            cases hby
          · intro id hid row hrow
            obtain ⟨row', hrow', hsource⟩ := exists_of_mem_goneOf hid
            rw [hrow, Option.some_inj] at hrow'
            rw [hrow']
            exact hsource
      · cases h
        exact hboth

end Poll

/-! ## A record on its own -/

section Record

variable {registry : Registry I J} {db db' : Db I J} {cls : RevisionedClass}

/-- Storing a sealed record with its revision row advances the tables when it is later than the
row of its id. -/
theorem storeRevision_advances {now : Instant} {existing : Option (ClassRow I J)}
    {sealed : SealedRecord I J} {result : WriteRecordResult I} (hinv : LedgerInv db)
    (h : storeRevision registry now db cls existing sealed = .ok (db', result))
    (hlt : ∀ row, (db.rows cls).get sealed.head.id = some row → row.revision < sealed.revision) :
    Advances cls (fun id => id = sealed.head.id) db db' := by
  unfold storeRevision at h
  dsimp only at h
  split at h
  · cases h
  · rename_i db₁ hstore
    split at h
    · cases h
    · rename_i db₂ hinsert
      cases h
      refine (storeRevisions_advances (f := fun _ => sealed.revision) hinv hstore hinsert
        ?_ ?_ ?_).mono ?_
      · intro r hr
        rw [List.mem_singleton.mp hr]
      · intro r hr
        rw [List.mem_singleton.mp hr]
        exact hlt
      · intro row hrow
        refine ⟨sealed, List.mem_singleton_self sealed, ?_⟩
        by_cases hhistory : historyEligible sealed.head = true
        · rw [if_pos hhistory, List.mem_singleton] at hrow
          rw [hrow]
          exact ⟨rfl, rfl⟩
        · rw [if_neg hhistory] at hrow
          cases hrow
      · intro id hid
        exact List.mem_singleton.mp hid

/-- Writing a draft on its own advances the tables when its id reads as it is stored. -/
theorem writeDraft_advances {draft : RawRecord I J} {instanceId : String} {now : Iso8601}
    {result : WriteRecordResult I} (hinv : LedgerInv db)
    (h : writeDraft registry db cls draft instanceId now = .ok (db', result))
    (hreads : ReadsAsStored registry draft) :
    Advances cls (fun id => draft.id = some id) db db' := by
  have hsealed : ∀ {opts : SealOptions} {sealed : SealedRecord I J},
      registry.sealRecord draft opts = .ok sealed →
        draft.id = some sealed.head.id ∧ sealed.revision = opts.revision := by
    intro opts sealed hseal
    obtain ⟨id, hid, hwell⟩ := Option.map_eq_some_iff.mp (registry.seal_id _ _ _ hseal)
    rw [hreads id hid] at hwell
    exact ⟨by rw [hid, hwell], (registry.seal_assigned _ _ _ hseal).2.1⟩
  unfold writeDraft at h
  dsimp only at h
  split at h
  · cases h
    exact .refl hinv
  · split at h
    · rename_i row id hexisting hid
      rw [hid, Option.bind_some] at hexisting
      split at h
      · cases h
        refine (refreshExpiries_advances hinv _).mono fun x hx => ?_
        split_ifs at hx
        · rw [List.map_singleton, List.mem_singleton] at hx
          rw [hx]
          exact hid
        · cases hx
      · split at h
        · cases h
          exact .refl hinv
        · rename_i sealed hseal
          obtain ⟨hsid, hrevision⟩ := hsealed hseal
          refine (storeRevision_advances hinv h ?_).mono fun x hx => by rw [hx, hsid]
          intro row' hrow'
          rw [hid, Option.some_inj] at hsid
          rw [← hsid, hexisting, Option.some_inj] at hrow'
          rw [hrevision, ← hrow']
          exact Nat.lt_succ_self _
    · rename_i hnone
      split at h
      · cases h
        exact .refl hinv
      · rename_i sealed hseal
        obtain ⟨hsid, -⟩ := hsealed hseal
        refine (storeRevision_advances hinv h ?_).mono fun x hx => by rw [hx, hsid]
        intro row hrow
        refine (hnone row sealed.head.id ?_ hsid).elim
        rw [hsid, Option.bind_some, hrow]

/-- Writing a record its own instance sealed advances the tables. -/
theorem writeStored_advances {stored : RawRecord I J} {now : Iso8601}
    {result : WriteRecordResult I} (hinv : LedgerInv db)
    (h : writeStored registry db cls stored now = .ok (db', result)) :
    Advances cls (fun id => stored.id = some id) db db' := by
  unfold writeStored at h
  dsimp only at h
  split at h
  · cases h
    exact .refl hinv
  · rename_i sealed hvalidate
    have hid := registry.validate_id _ _ hvalidate
    rw [hid, Option.bind_some] at h
    split at h
    · cases h
      exact .refl hinv
    · cases h
      exact .refl hinv
    · cases h
      refine (refreshExpiries_advances hinv _).mono fun x hx => ?_
      rw [List.map_singleton, List.mem_singleton] at hx
      rw [hid, hx]
    · rename_i hverdict
      obtain ⟨row, hrow, hsame⟩ := storedVerdict_eq_restore hverdict
      split at h
      · cases h
      · rename_i db₁ hstore
        cases h
        refine (storeRecords_advances (f := fun _ => sealed.revision) hinv hstore ?_ ?_).mono ?_
        · intro r hr
          rw [List.mem_singleton.mp hr]
        · intro r hr row' hrow'
          rw [List.mem_singleton.mp hr, hrow, Option.some_inj] at hrow'
          rw [← hrow']
          exact hsame.revision.le
        · intro x hx
          rw [List.map_singleton, List.mem_singleton] at hx
          rw [hid, hx]
    · rename_i hverdict
      have hlt := fun row hrow => (storedVerdict_eq_store hverdict row hrow).2.2
      exact (storeRevision_advances hinv h hlt).mono fun x hx => by rw [hid, hx]

end Record

/-! ## Calls -/

/-- A call that writes records. -/
inductive LedgerCall (I J : Type) where
  | snapshot (sourceId : String) (drafts : SnapshotDrafts I J) (ctx : WriteContext)
  | record (input : RecordInput I J) (instanceId : String) (now : Iso8601)
  | tombstone (cls : RevisionedClass) (ids : List I) (reason : String) (ctx : TombstoneContext)

/-- What a call leaves of the tables, unless it throws. -/
def LedgerCall.write (registry : Registry I J) (db : Db I J) :
    LedgerCall I J → Except WriteError (Db I J)
  | .snapshot sourceId drafts ctx => writeSnapshotIn registry db sourceId drafts ctx
  | .record input instanceId now => (writeRecordIn registry db input instanceId now).map Prod.fst
  | .tombstone cls ids reason ctx => tombstoneRecords registry db cls ids reason ctx

/-- A call in its transaction: one that throws leaves the tables as they were. -/
def ledgerStep (registry : Registry I J) (db : Db I J) (call : LedgerCall I J) :
    Option (Db I J) :=
  match call.write registry db with
  | .ok db' => some db'
  | .error _ => some db

/-- The records a call is made for: those of its source, or those it lists. -/
def LedgerCall.isFor (call : LedgerCall I J) (cls : RevisionedClass) (id : I)
    (row : ClassRow I J) : Prop :=
  match call with
  | .snapshot sourceId _ _ => row.sourceId = sourceId
  | .record input _ _ => input.raw.sourceId = some row.sourceId
  | .tombstone c ids _ _ => cls = c ∧ id ∈ ids

/-- A call changes no stored record but those it is made for. -/
def Isolated (call : LedgerCall I J) (db db' : Db I J) : Prop :=
  ∀ cls id row, (db.rows cls).get id = some row → ¬call.isFor cls id row →
    (db'.rows cls).get id = some row

/-- No stored revision is lowered. -/
def RevisionsGrow (db db' : Db I J) : Prop :=
  ∀ cls id row, (db.rows cls).get id = some row →
    ∃ row', (db'.rows cls).get id = some row' ∧ row.revision ≤ row'.revision

/-- The condition on a call: what it writes keeps its source and reads as it is stored, and no
owner ends a record below its stored revision. -/
def CallOk (registry : Registry I J) (db : Db I J) : LedgerCall I J → Prop
  | .snapshot sourceId drafts _ => ∀ cls, DraftsOk registry db cls sourceId (drafts.of cls)
  | .record (.draft draft) _ _ => ReadsAsStored registry draft ∧
      ∀ cls, draft.cls = some cls → KeepsSource db cls draft
  | .record (.stored stored) _ _ => ∀ cls, stored.cls = some cls → KeepsSource db cls stored
  | .tombstone cls ids _ ctx => ctx.byOwner = true → ∀ revision,
      ctx.ownerRevision = some revision →
        ∀ id ∈ ids, ∀ row, (db.rows cls).get id = some row → row.revision ≤ revision

section Calls

variable {registry : Registry I J} {db db' db'' : Db I J}

/-- What a call that meets its condition does. -/
structure CallAdvances (call : LedgerCall I J) (db db' : Db I J) : Prop where
  inv : LedgerInv db'
  isolated : Isolated call db db'
  grows : RevisionsGrow db db'

/-- A call that writes nothing. -/
theorem CallAdvances.refl {call : LedgerCall I J} (hinv : LedgerInv db) :
    CallAdvances call db db :=
  ⟨hinv, fun _ _ _ h _ => h, fun _ _ row h => ⟨row, h, le_refl _⟩⟩

/-- The parts of a call, one after the other. -/
theorem CallAdvances.trans {call : LedgerCall I J} (h : CallAdvances call db db')
    (h' : CallAdvances call db' db'') : CallAdvances call db db'' where
  inv := h'.inv
  isolated cls id row hrow hfor := h'.isolated cls id row (h.isolated cls id row hrow hfor) hfor
  grows cls id row hrow := by
    obtain ⟨row', hrow', hle⟩ := h.grows cls id row hrow
    obtain ⟨row'', hrow'', hle'⟩ := h'.grows cls id row' hrow'
    exact ⟨row'', hrow'', hle.trans hle'⟩

/-- A write of one class, as part of a call made for the rows it owns. -/
theorem Advances.callAdvances {call : LedgerCall I J} {cls : RevisionedClass} {own : I → Prop}
    (h : Advances cls own db db')
    (hown : ∀ id row, own id → (db.rows cls).get id = some row → call.isFor cls id row) :
    CallAdvances call db db' where
  inv := h.inv
  isolated c id row hrow hfor := by
    by_cases hc : c = cls
    · subst hc
      rw [h.frame id fun hid => hfor (hown id row hid hrow), hrow]
    · rw [h.others c hc, hrow]
  grows c id row hrow := by
    by_cases hc : c = cls
    · subst hc
      exact h.grows id row hrow
    · exact ⟨row, by rw [h.others c hc, hrow], le_refl _⟩

/-- The condition on the drafts of a class is about the rows of the class alone. -/
theorem DraftsOk.of_rows_eq {cls : RevisionedClass} {sourceId : String}
    {drafts : List (RawRecord I J)} (h : DraftsOk registry db cls sourceId drafts)
    (hrows : db'.rows cls = db.rows cls) : DraftsOk registry db' cls sourceId drafts := by
  intro draft hdraft hcls hsource
  obtain ⟨hreads, hkeeps⟩ := h draft hdraft hcls hsource
  refine ⟨hreads, fun id row hid hrow => hkeeps id row hid ?_⟩
  rw [← hrows, hrow]

/-- The classes of a poll, written one after the other. -/
theorem writeClasses_advances {sourceId : String} {drafts : SnapshotDrafts I J}
    {ctx : WriteContext} {classes : List RevisionedClass} (hnodup : classes.Nodup)
    (hinv : LedgerInv db)
    (hdrafts : ∀ cls ∈ classes, DraftsOk registry db cls sourceId (drafts.of cls))
    (h : classes.foldlM (writeClassOf registry sourceId drafts ctx) db = .ok db') :
    CallAdvances (.snapshot sourceId drafts ctx) db db' := by
  induction classes generalizing db with
  | nil =>
    cases h
    exact .refl hinv
  | cons cls rest ih =>
    rw [List.nodup_cons] at hnodup
    rw [List.foldlM_cons] at h
    cases hclass : writeClassOf registry sourceId drafts ctx db cls with
    | error e =>
      rw [hclass] at h
      cases h
    | ok db₁ =>
      rw [hclass] at h
      have hadvance : Advances cls
          (fun id => ∀ row, (db.rows cls).get id = some row → row.sourceId = sourceId) db db₁ := by
        unfold writeClassOf at hclass
        split at hclass
        · cases hclass
          exact .refl hinv
        · cases hwrite : writeClass registry db cls sourceId (drafts.of cls) ctx with
          | error e =>
            rw [hwrite] at hclass
            cases hclass
          | ok written =>
            rw [hwrite] at hclass
            cases hclass
            exact writeClass_advances hinv hwrite (hdrafts cls (List.mem_cons_self ..))
      have hcall : CallAdvances (.snapshot sourceId drafts ctx) db db₁ :=
        hadvance.callAdvances fun id row hid hrow => hid row hrow
      refine hcall.trans (ih hnodup.2 hcall.inv ?_ h)
      intro c hc
      have hne : c ≠ cls := fun heq => hnodup.1 (heq ▸ hc)
      exact (hdrafts c (List.mem_cons_of_mem _ hc)).of_rows_eq (hadvance.others c hne)

/-- A poll whose drafts keep their source changes rows of its source alone. -/
theorem writeSnapshotIn_advances {sourceId : String} {drafts : SnapshotDrafts I J}
    {ctx : WriteContext} (hinv : LedgerInv db)
    (h : writeSnapshotIn registry db sourceId drafts ctx = .ok db')
    (hdrafts : ∀ cls, DraftsOk registry db cls sourceId (drafts.of cls)) :
    CallAdvances (.snapshot sourceId drafts ctx) db db' := by
  unfold writeSnapshotIn at h
  cases hcap : snapshotClasses.forM (capRows drafts ctx) with
  | error e =>
    rw [hcap] at h
    cases h
  | ok u =>
    rw [hcap] at h
    exact writeClasses_advances (by decide) hinv (fun cls _ => hdrafts cls) h

/-- A record written on its own under a row of its source changes that row alone. -/
theorem writeRecordIn_advances {input : RecordInput I J} {instanceId : String} {now : Iso8601}
    {result : WriteRecordResult I} (hinv : LedgerInv db)
    (h : writeRecordIn registry db input instanceId now = .ok (db', result))
    (hok : CallOk registry db (.record input instanceId now)) :
    CallAdvances (.record input instanceId now) db db' := by
  unfold writeRecordIn at h
  split at h
  · cases h
    exact .refl hinv
  · rename_i cls hcls
    cases input with
    | draft draft =>
      exact (writeDraft_advances hinv h hok.1).callAdvances fun id row hid hrow =>
        hok.2 cls hcls id row hid hrow
    | stored stored =>
      exact (writeStored_advances hinv h).callAdvances fun id row hid hrow =>
        hok cls hcls id row hid hrow

/-- A call that meets its condition keeps the ledger, the records it is not made for, and every
revision. -/
theorem ledgerStep_advances {call : LedgerCall I J} (hinv : LedgerInv db)
    (hok : CallOk registry db call) (h : ledgerStep registry db call = some db') :
    CallAdvances call db db' := by
  unfold ledgerStep at h
  split at h
  · rename_i written hwrite
    cases h
    cases call with
    | snapshot sourceId drafts ctx => exact writeSnapshotIn_advances hinv hwrite hok
    | record input instanceId now =>
      cases hrecord : writeRecordIn registry db input instanceId now with
      | error e =>
        rw [LedgerCall.write, hrecord] at hwrite
        cases hwrite
      | ok out =>
        rw [LedgerCall.write, hrecord] at hwrite
        cases hwrite
        exact writeRecordIn_advances hinv hrecord hok
    | tombstone cls ids reason ctx =>
      exact (tombstoneRecords_advances hinv hwrite hok).callAdvances fun id row hid hrow =>
        ⟨rfl, hid⟩
  · cases h
    exact .refl hinv

end Calls

/-! ## Runs -/

/-- A run of calls that meet their condition keeps the ledger. -/
theorem ledgerInv_of_run {registry : Registry I J} {calls : List (LedgerCall I J)} {db db' : Db I J}
    (hinv : LedgerInv db) (hok : Transition.Along (ledgerStep registry) (CallOk registry) db calls)
    (hrun : Transition.run (ledgerStep registry) db calls = some db') : LedgerInv db' :=
  Transition.run_invariant_of_along (I := LedgerInv)
    (fun _ _ _ hinv hok hstep => (ledgerStep_advances hinv hok hstep).inv) hinv hok hrun

/-- A run of calls that meet their condition lowers no stored revision. -/
theorem revisionsGrow_of_run {registry : Registry I J} {calls : List (LedgerCall I J)}
    {db db' : Db I J} (hinv : LedgerInv db)
    (hok : Transition.Along (ledgerStep registry) (CallOk registry) db calls)
    (hrun : Transition.run (ledgerStep registry) db calls = some db') : RevisionsGrow db db' := by
  refine (Transition.run_invariant_of_along (I := fun s => LedgerInv s ∧ RevisionsGrow db s)
    ?_ ⟨hinv, fun _ _ row h => ⟨row, h, le_refl _⟩⟩ hok hrun).2
  rintro s call s' ⟨hs, hgrow⟩ hcall hstep
  have hnext := ledgerStep_advances hs hcall hstep
  refine ⟨hnext.inv, fun cls id row hrow => ?_⟩
  obtain ⟨row', hrow', hle⟩ := hgrow cls id row hrow
  obtain ⟨row'', hrow'', hle'⟩ := hnext.grows cls id row' hrow'
  exact ⟨row'', hrow'', hle.trans hle'⟩

/-- **The ledger.** In every run of calls that all meet their condition, from the empty tables: from
each state to every later one no stored revision is lowered, no pair of an id and a revision is
inserted twice, and each call leaves the records it is not made for as they are.

**Proof sketch.** Each call advances the tables (`ledgerStep_advances`); the invariant carries over
the run before, and the growth over the rest. -/
theorem revisions_form_ledger {registry : Registry I J} {before rest : List (LedgerCall I J)}
    {db db' : Db I J}
    (hok : Transition.Along (ledgerStep registry) (CallOk registry) (.empty I J) (before ++ rest))
    (hbefore : Transition.run (ledgerStep registry) (.empty I J) before = some db)
    (hrest : Transition.run (ledgerStep registry) db rest = some db') :
    RevisionsGrow db db' ∧ (∀ cls, (db'.inserted cls).Nodup) ∧
      ∀ call later db₁, rest = call :: later → ledgerStep registry db call = some db₁ →
        Isolated call db db₁ := by
  obtain ⟨hok₁, hok₂⟩ := Transition.along_append.mp hok
  have hinv : LedgerInv db := ledgerInv_of_run ledgerInv_empty hok₁ hbefore
  have hokrest := hok₂ db hbefore
  refine ⟨revisionsGrow_of_run hinv hokrest hrest, ?_, ?_⟩
  · exact (ledgerInv_of_run hinv hokrest hrest).nodup
  · rintro call later db₁ rfl hstep
    exact (ledgerStep_advances hinv hokrest.1 hstep).isolated

/-! ### Two sources and one id -/

/-- The instant of the sample calls. -/
def ledgerNow : Iso8601 := ⟨"1970-01-01T00:00:00Z", .epoch⟩

/-- A poll of one feature of a source. -/
def pollOne (id sourceId : String) : LedgerCall String String :=
  .snapshot sourceId ⟨[], [⟨some .feature, some id, some sourceId, none, "poll"⟩], []⟩
    ⟨"here", ledgerNow, fun _ => false, none⟩

/-- The erasure of a feature. -/
def eraseOne (id : String) : LedgerCall String String :=
  .tombstone .feature [id] erasureReason ⟨ledgerNow, false, none⟩

/-- The tables after the feature of a source is polled and erased. -/
def erasedOne : Db String String :=
  (Transition.run (ledgerStep (plainRegistry [])) (.empty _ _)
    [pollOne "x" "b", eraseOne "x"]).getD (.empty _ _)

/-- The tables after another source polls a feature of the same id. -/
def takenOver : Db String String :=
  (ledgerStep (plainRegistry []) erasedOne (pollOne "x" "a")).getD (.empty _ _)

/-- A poll and the erasure of what it stored keep the ledger. -/
theorem revisions_form_ledger_sample :
    RevisionsGrow (.empty String String) erasedOne ∧ (∀ cls, (erasedOne.inserted cls).Nodup) ∧
      ∀ call later db₁, [pollOne "x" "b", eraseOne "x"] = call :: later →
        ledgerStep (plainRegistry []) (.empty _ _) call = some db₁ →
          Isolated call (.empty _ _) db₁ :=
  @revisions_form_ledger String String _ (plainRegistry []) [] [pollOne "x" "b", eraseOne "x"]
    (.empty _ _) erasedOne
    ⟨fun _ _ _ _ _ => ⟨fun _ _ => rfl, fun _ _ _ hrow => nomatch hrow⟩,
      fun _ _ => ⟨fun hby => (nomatch hby), fun _ _ => trivial⟩⟩ rfl rfl

/-- After a feature of one source is erased, a poll of another source that publishes its id takes
its row over: at revision 1 again, and with a revision row that was inserted before. -/
theorem ledger_broken_by_shared_id :
    Transition.run (ledgerStep (plainRegistry [])) (.empty _ _)
        [pollOne "x" "b", eraseOne "x"] = some erasedOne ∧
      ledgerStep (plainRegistry []) erasedOne (pollOne "x" "a") = some takenOver ∧
      ¬Isolated (pollOne "x" "a") erasedOne takenOver ∧ ¬RevisionsGrow erasedOne takenOver ∧
      ¬(takenOver.inserted .feature).Nodup := by
  have hheld : ((erasedOne.rows .feature).get "x").map (fun row => (row.sourceId, row.revision)) =
      some ("b", 2) := by decide
  have htaken : ((takenOver.rows .feature).get "x").map (fun row => (row.sourceId, row.revision)) =
      some ("a", 1) := by decide
  obtain ⟨row, hrow, hpair⟩ := Option.map_eq_some_iff.mp hheld
  obtain ⟨row', hrow', hpair'⟩ := Option.map_eq_some_iff.mp htaken
  rw [Prod.mk.injEq] at hpair hpair'
  refine ⟨rfl, rfl, ?_, ?_, by decide⟩
  · intro h
    have hnot : ¬(pollOne "x" "a").isFor .feature "x" row := by
      change row.sourceId ≠ "a"
      rw [hpair.1]
      decide
    have hkept := h .feature "x" row hrow hnot
    rw [hrow', Option.some_inj] at hkept
    rw [← hkept, hpair'.1] at hpair
    exact absurd hpair.1 (by decide)
  · intro h
    obtain ⟨next, hnext, hle⟩ := h .feature "x" row hrow
    rw [hrow', Option.some_inj] at hnext
    rw [← hnext, hpair.2, hpair'.2] at hle
    exact absurd hle (by decide)

end OpenConditions.Storage

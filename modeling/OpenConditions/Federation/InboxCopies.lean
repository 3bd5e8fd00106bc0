import OpenConditions.Federation.Inbox
import OpenConditions.Storage.RevisionLedger

set_option relaxedAutoImplicit false
set_option autoImplicit false

/-!
# What a step of the inbox does to the copies

One lemma for each kind of step says which copies it leaves as they are, and what becomes of the
others: a change lands, a retraction ends the copy, or live copies are ended here.

## Main results

* `landRecord_cases`, `applyRetraction_cases`, `endHere_cases` — the steps.
* `inboxStep_inboxSteps` — what a step does to any copy.
-/

namespace OpenConditions.Federation

open OpenConditions.Storage

variable {W I J : Type} [DecidableEq I] {registry : Registry I J} {peer localInstanceId : String}

/-! ## The copies of tables -/

/-- The copy of an id after a record is stored under it. -/
def storedCopy (sealed : SealedRecord I J) : Copy I J where
  head := sealed.head
  statement := some { sealed.statement with expiresAt := none }
  instanceId := sealed.head.provenance.instanceId
  revision := sealed.revision
  reason := sealed.tombstone.map Tombstone.reason

/-- The copy that is set alone. -/
def setCopy (copies : RevisionedClass → I → Option (Copy I J)) (cls : RevisionedClass) (id : I)
    (copy : Copy I J) : RevisionedClass → I → Option (Copy I J) :=
  fun c x => if c = cls ∧ x = id then some copy else copies c x

/-- A copy is the copy of the row of its id. -/
theorem copy_eq_some {s : Inbox I J} {cls : RevisionedClass} {id : I} {c : Copy I J} :
    s.copy cls id = some c ↔ ∃ row, (s.db.rows cls).get id = some row ∧ copyOf row = c :=
  Option.map_eq_some_iff

/-- Tables with the same rows hold the same copies. -/
theorem copy_of_rows_eq {s s' : Inbox I J} (h : s'.db.rows = s.db.rows) : SameCopies s s' := by
  intro cls id
  rw [Inbox.copy, Inbox.copy, h]

/-- Writing back evidence leaves the copies as they are. -/
theorem copy_landEvidence (s : Inbox I J) (id : I) (evidence : Option RecomputedEvidence) :
    SameCopies s { s with db := landEvidence s.db id evidence } := by
  intro cls x
  unfold Inbox.copy landEvidence
  split
  · rename_i e row hrow
    by_cases hcls : cls = .situation
    · subst hcls
      simp only [Function.update_self]
      by_cases hx : x = id
      · subst hx
        rw [OrderedMap.get_set_self, hrow]
        rfl
      · rw [OrderedMap.get_set_of_ne _ _ hx]
    · simp only [Function.update_of_ne hcls]
  · rfl

/-- Moving an expiry leaves the copies as they are. -/
theorem copy_refreshExpiries (s : Inbox I J) (cls : RevisionedClass)
    (moved : List (I × Option Iso8601)) :
    SameCopies s { s with db := refreshExpiries s.db cls moved } := by
  intro c x
  by_cases hc : c = cls
  · subst hc
    refine map_refreshExpiries (f := copyOf) (fun row expiresAt => ?_) moved x
    simp only [copyOf, ClassRow.withExpiry, Option.map_map]
    rfl
  · simp only [Inbox.copy, refreshExpiries, Function.update_of_ne hc]

/-- Storing one record sets its copy. -/
theorem copy_storeRecords {s : Inbox I J} {db : Db I J} {now : Instant} {cls : RevisionedClass}
    {sealed : SealedRecord I J} (h : storeRecords registry now s.db cls [sealed] = .ok db) :
    Inbox.copy { s with db := db } = setCopy s.copy cls sealed.head.id (storedCopy sealed) := by
  obtain ⟨-, rfl⟩ := storeRecords_eq_ok.mp h
  funext c x
  simp only [Inbox.copy, setCopy]
  by_cases hc : c = cls
  · subst hc
    simp only [Function.update_self, true_and]
    by_cases hx : x = sealed.head.id
    · subst hx
      rw [get_upsertRows_singleton, if_pos rfl]
      rfl
    · rw [if_neg hx, get_upsertRows_of_not_mem (by simpa using hx)]
  · simp only [Function.update_of_ne hc, hc, false_and, if_false]

/-- Inserting revision rows leaves the rows as they are. -/
theorem rows_insertRevisions {db db' : Db I J} {cls : RevisionedClass}
    {rows : List (RevisionRow I J)} (h : insertRevisions db cls rows = .ok db') :
    db'.rows = db.rows := by
  obtain ⟨-, rfl⟩ := insertRevisions_eq_ok.mp h
  rfl

/-- Storing one record with its revision row sets its copy. -/
theorem copy_storeRevision {s : Inbox I J} {db : Db I J} {now : Instant} {cls : RevisionedClass}
    {existing : Option (ClassRow I J)} {sealed : SealedRecord I J} {result : WriteRecordResult I}
    (h : storeRevision registry now s.db cls existing sealed = .ok (db, result)) :
    Inbox.copy { s with db := db } = setCopy s.copy cls sealed.head.id (storedCopy sealed) ∧
      result = .done (statusOver existing) cls sealed.head.id sealed.revision := by
  unfold storeRevision at h
  dsimp only at h
  split at h
  · cases h
  · rename_i db₁ hstore
    split at h
    · cases h
    · rename_i db₂ hinsert
      cases h
      refine ⟨?_, rfl⟩
      rw [← copy_storeRecords hstore]
      funext c x
      exact copy_of_rows_eq (s := { s with db := db₁ }) (rows_insertRevisions hinsert) c x

/-! ## Changes -/

/-- A record its peer sealed is written over what stands under its id: nothing, or a copy of the
peer's that no decision ended and that is older or can be restored. -/
def WritesOver (s : Inbox I J) (now : Instant) (sealed : SealedRecord I J) : Prop :=
  ∀ row, (s.db.rows sealed.head.cls).get sealed.head.id = some row →
    row.instanceId = sealed.head.provenance.instanceId ∧
      (∀ reason ∈ decidedTombstoneReasons, row.tombstoneReason ≠ some reason) ∧
        (row.revision < sealed.revision ∨ Restorable now row sealed)

/-- What a write of a validated record does: the copies stay, since a row holds out, or the copy
becomes what the record says. -/
theorem writeStored_cases {s : Inbox I J} {db : Db I J} {cls : RevisionedClass}
    {stored : RawRecord I J} {now : Iso8601} {result : WriteRecordResult I}
    {sealed : SealedRecord I J} (hcls : stored.cls = some cls)
    (hvalidate : registry.validate stored = .ok sealed)
    (h : writeStored registry s.db cls stored now = .ok (db, result)) :
    ∃ status revision, result = .done status sealed.head.cls sealed.head.id revision ∧
      ((WriteStatus.lands status = false ∧ SameCopies s { s with db := db } ∧
          ∃ row, (s.db.rows sealed.head.cls).get sealed.head.id = some row ∧ HoldsOut row sealed) ∨
        (WriteStatus.lands status = true ∧ revision = sealed.revision ∧
          WritesOver s now.instant sealed ∧
          Inbox.copy { s with db := db } =
            setCopy s.copy sealed.head.cls sealed.head.id (storedCopy sealed))) := by
  have hid := registry.validate_id _ _ hvalidate
  have hsame := registry.validate_cls _ _ hvalidate
  rw [hcls, Option.some_inj] at hsame
  subst hsame
  unfold writeStored at h
  dsimp only at h
  rw [hvalidate, hid, Option.bind_some] at h
  dsimp only at h
  split at h
  all_goals rename_i hverdict
  · cases h
    exact ⟨_, _, rfl, Or.inl ⟨rfl, fun _ _ => rfl,
      storedVerdict_holdsOut (by rw [hverdict]; decide) (by rw [hverdict]; decide)⟩⟩
  · cases h
    exact ⟨_, _, rfl, Or.inl ⟨rfl, fun _ _ => rfl,
      storedVerdict_holdsOut (by rw [hverdict]; decide) (by rw [hverdict]; decide)⟩⟩
  · cases h
    exact ⟨_, _, rfl, Or.inl ⟨rfl, copy_refreshExpiries s _ _,
      storedVerdict_holdsOut (by rw [hverdict]; decide) (by rw [hverdict]; decide)⟩⟩
  · obtain ⟨row, hrow, hrestorable⟩ := storedVerdict_eq_restore hverdict
    split at h
    · cases h
    · rename_i db₁ hstore
      cases h
      refine ⟨_, _, rfl, Or.inr ⟨rfl, ?_, ?_, copy_storeRecords hstore⟩⟩
      · rw [hrow]
        exact hrestorable.revision
      · intro row' hrow'
        rw [hrow, Option.some_inj] at hrow'
        rw [← hrow']
        exact ⟨hrestorable.instanceId, hrestorable.not_decided, Or.inr hrestorable⟩
  · obtain ⟨hcopy, rfl⟩ := copy_storeRevision h
    refine ⟨_, _, rfl, Or.inr ⟨?_, rfl, ?_, hcopy⟩⟩
    · unfold statusOver
      split
      · rfl
      · split_ifs <;> rfl
    · intro row hrow
      obtain ⟨hinstance, hdecided, hlt⟩ := storedVerdict_eq_store hverdict row hrow
      exact ⟨hinstance, hdecided, Or.inl hlt⟩

/-- A record that is not valid is rejected. -/
theorem writeRecordIn_of_invalid {raw : RawRecord I J} {issues : List ValidationIssue}
    (h : registry.validate raw = .error issues) (db : Db I J) (instanceId : String)
    (now : Iso8601) :
    ∃ cls id is, writeRecordIn registry db (.stored raw) instanceId now =
      .ok (db, .rejected cls id is) := by
  unfold writeRecordIn
  cases hcls : (RecordInput.stored raw).raw.cls with
  | none => exact ⟨_, _, _, rfl⟩
  | some cls =>
    simp only [writeStored, h]
    exact ⟨_, _, _, rfl⟩

/-- A record of a class is written as one of the class. -/
theorem writeRecordIn_of_cls {db : Db I J} {raw : RawRecord I J} {instanceId : String}
    {now : Iso8601} {cls : RevisionedClass} (h : raw.cls = some cls) :
    writeRecordIn registry db (.stored raw) instanceId now =
      writeStored registry db cls raw now := by
  simp only [writeRecordIn, RecordInput.raw, h]

/-- A delivery that lands its record. -/
structure Lands (admission : Admission W registry peer) (s s' : Inbox I J) (wire : W)
    (now : Iso8601) (sealed : SealedRecord I J) : Prop where
  admitted : ∃ record, admission.admitFederatedRecord now wire = .ok record ∧
    registry.validate record.raw = .ok sealed ∧
      isErased s.facts record.canonicalId now.instant peer = false
  writesOver : WritesOver s now.instant sealed
  copy : s'.copy = setCopy s.copy sealed.head.cls sealed.head.id (storedCopy sealed)
  landed : s'.landed = s.landed ++ [(sealed.head.cls, sealed.head.id, sealed.revision)]
  lapsed : s'.lapsed = s.lapsed

/-- Why a delivery leaves the copies as they are: its record is not admitted or not valid, it was
erased, or a row holds out. -/
def Refused (admission : Admission W registry peer) (s : Inbox I J) (wire : W) (now : Iso8601) :
    Prop :=
  ∀ record sealed, admission.admitFederatedRecord now wire = .ok record →
    registry.validate record.raw = .ok sealed →
      isErased s.facts record.canonicalId now.instant peer = true ∨
        ∃ row, (s.db.rows sealed.head.cls).get sealed.head.id = some row ∧ HoldsOut row sealed

/-- Landing a change: it is refused and the copies stay, or its record lands. -/
theorem landRecord_cases {admission : Admission W registry peer} {s s' : Inbox I J} {wire : W}
    {now : Iso8601} {evidence : Option RecomputedEvidence} {outcome : InboxOutcome}
    (h : landRecord admission localInstanceId s wire now evidence = .ok (s', outcome)) :
    (SameCopies s s' ∧ s'.landed = s.landed ∧ s'.lapsed = s.lapsed ∧
        Refused admission s wire now) ∨
      ∃ sealed, Lands admission s s' wire now sealed := by
  unfold landRecord at h
  split at h
  · rename_i reason hadmits
    cases h
    refine Or.inl ⟨fun _ _ => rfl, rfl, rfl, fun record sealed hrecord => ?_⟩
    rw [hadmits] at hrecord
    cases hrecord
  · rename_i record hadmits
    split at h
    · rename_i herased
      cases h
      refine Or.inl ⟨fun _ _ => rfl, rfl, rfl, fun record' sealed hrecord _ => Or.inl ?_⟩
      rw [hadmits] at hrecord
      cases hrecord
      exact herased
    · rename_i herased
      rw [Bool.not_eq_true] at herased
      cases hvalidate : registry.validate record.raw with
      | error issues =>
        obtain ⟨c, id, is, hwrite⟩ := writeRecordIn_of_invalid hvalidate s.db localInstanceId now
        rw [hwrite] at h
        cases h
        refine Or.inl ⟨fun _ _ => rfl, rfl, rfl, fun record' sealed hrecord hsealed => ?_⟩
        rw [hadmits] at hrecord
        cases hrecord
        rw [hvalidate] at hsealed
        cases hsealed
      | ok sealed =>
        have hcls := registry.validate_cls _ _ hvalidate
        rw [writeRecordIn_of_cls hcls] at h
        cases hwrite : writeStored registry s.db sealed.head.cls record.raw now with
        | error e =>
          rw [hwrite] at h
          cases h
        | ok written =>
          obtain ⟨db, result⟩ := written
          obtain ⟨status, revision, rfl, hcase⟩ := writeStored_cases hcls hvalidate hwrite
          rw [hwrite] at h
          dsimp only at h
          have hs : s' = { s with
              db := if (record.crowd && (WriteStatus.lands status ||
                  decide (status = .refreshed))) = true then
                landEvidence db sealed.head.id evidence else db
              landed := s.landed ++ if WriteStatus.lands status then
                [(sealed.head.cls, sealed.head.id, revision)] else [] } := by
            cases status <;> exact (congrArg Prod.fst (Except.ok.inj h)).symm
          have hcopy : s'.copy = Inbox.copy { s with db := db } := by
            rw [hs]
            funext c x
            by_cases hevident : (record.crowd && (WriteStatus.lands status ||
                decide (status = .refreshed))) = true
            · rw [if_pos hevident]
              exact copy_landEvidence { s with db := db } sealed.head.id evidence c x
            · rw [if_neg hevident]
              rfl
          rcases hcase with ⟨hlands, hsame, hrow⟩ | ⟨hlands, rfl, hover, hset⟩
          · refine Or.inl ⟨fun c x => ?_, ?_, by rw [hs], ?_⟩
            · rw [hcopy]
              exact hsame c x
            · simp only [hs, hlands, Bool.false_eq_true, if_false, List.append_nil]
            · intro record' sealed' hrecord hsealed
              rw [hadmits] at hrecord
              cases hrecord
              rw [hvalidate] at hsealed
              cases hsealed
              exact Or.inr hrow
          · refine Or.inr ⟨sealed, ⟨record, hadmits, hvalidate, herased⟩, hover, hcopy.trans hset, ?_,
              by rw [hs]⟩
            simp only [hs, hlands, if_true]

/-! ## Ends -/

/-- A copy is a lapsed one when it stands as the sweep ended it. -/
theorem isLapsedCopy_iff {s : Inbox I J} {cls : RevisionedClass} {id : I} :
    isLapsedCopy s cls id = true ↔ ∃ c, s.copy cls id = some c ∧
      s.lapsed.get (cls, id) = some c.revision ∧ c.reason = some "expired" := by
  unfold isLapsedCopy
  rw [Option.any_eq_true]
  constructor
  · rintro ⟨row, hrow, h⟩
    exact ⟨copyOf row, Iff.mpr copy_eq_some ⟨row, hrow, rfl⟩, of_decide_eq_true h⟩
  · rintro ⟨c, hc, h⟩
    obtain ⟨row, hrow, rfl⟩ := Iff.mp copy_eq_some hc
    exact ⟨row, hrow, decide_eq_true h⟩

/-- The rows after records are ended. -/
theorem rows_tombstoneRecords {db db' : Db I J} {cls : RevisionedClass} {ids : List I}
    {reason : String} {ctx : TombstoneContext}
    (h : tombstoneRecords registry db cls ids reason ctx = .ok db') :
    db'.rows = Function.update db.rows cls (endedRows ctx reason (db.rows cls) ids) := by
  rcases tombstoneRecords_eq_ok h with ⟨-, rfl⟩ | ⟨-, hinsert⟩
  · rfl
  · exact rows_insertRevisions hinsert

/-- The copies after records are ended. -/
theorem copy_tombstoneRecords {s : Inbox I J} {db : Db I J} {cls : RevisionedClass} {ids : List I}
    {reason : String} {ctx : TombstoneContext}
    (h : tombstoneRecords registry s.db cls ids reason ctx = .ok db) (c : RevisionedClass) (x : I) :
    Inbox.copy { s with db := db } c x =
      if c = cls ∧ x ∈ ids then
        ((s.db.rows cls).get x).map fun row => copyOf (row.ended ctx reason)
      else s.copy c x := by
  simp only [Inbox.copy, rows_tombstoneRecords h]
  by_cases hc : c = cls
  · subst hc
    simp only [Function.update_self, true_and, get_endedRows]
    split_ifs
    · rw [Option.map_map]
      rfl
    · rfl
  · simp only [Function.update_of_ne hc, hc, false_and, if_false]

/-! ## Retractions -/

/-- The copy after its peer retracted it. -/
def retractedCopy (c : Copy I J) (entry : Retraction I) : Copy I J where
  head := if entry.reason = erasureReason then c.head.erased else c.head
  statement := if entry.reason = erasureReason then none else c.statement
  instanceId := c.instanceId
  revision := (entry.revision.filter fun r => decide (c.revision ≤ r)).getD (c.revision + 1)
  reason := some entry.reason

omit [DecidableEq I] in
/-- The copy of a row its owner ends. -/
theorem copyOf_ended {row : ClassRow I J} {id : I} (hstates : row.states id) (entry : Retraction I)
    (now : Iso8601) :
    copyOf (row.ended ⟨now, true, entry.revision.filter fun r => decide (row.revision ≤ r)⟩
      entry.reason) = retractedCopy (copyOf row) entry := by
  have hrevision : endRevision
      ⟨now, true, entry.revision.filter fun r => decide (row.revision ≤ r)⟩ row.record =
      (entry.revision.filter fun r => decide (row.revision ≤ r)).getD (row.revision + 1) := by
    rw [← hstates.2]
    unfold endRevision keepsRevision
    dsimp only
    cases entry.revision.filter fun r => decide (row.record.revision ≤ r) with
    | none => rfl
    | some v => rfl
  by_cases herasure : entry.reason = erasureReason
  · simp only [copyOf, retractedCopy, ClassRow.ended, ended, erasedStub, herasure, if_true,
      hrevision]
    rfl
  · simp only [copyOf, retractedCopy, ClassRow.ended, ended, herasure, if_false, hrevision]
    rfl

/-- A retraction that ends the copy. -/
structure Retracts (peer : String) (s s' : Inbox I J) (entry : Retraction I)
    (cls : RevisionedClass) (c : Copy I J) : Prop where
  recordClass : entry.recordClass = some cls
  held : s.copy cls entry.recordId = some c
  instanceId : c.instanceId = peer
  revision : entry.reason ≠ erasureReason → ∃ v, entry.revision = some v ∧ c.revision ≤ v
  reason : ∀ held, c.reason = some held →
    entry.reason = erasureReason ∧ held ≠ erasureReason ∨
      isLapsedCopy s cls entry.recordId = true
  copy : s'.copy = setCopy s.copy cls entry.recordId (retractedCopy c entry)
  landed : s'.landed = s.landed
  lapsed : s'.lapsed = s.lapsed

/-- Why a retraction leaves the copies as they are: none is held, another instance wrote it, it is
newer than the retraction, or it has ended already. -/
def Idle (peer : String) (s : Inbox I J) (entry : Retraction I) : Prop :=
  ∀ cls c, entry.recordClass = some cls → s.copy cls entry.recordId = some c →
    c.instanceId ≠ peer ∨
      (entry.reason ≠ erasureReason ∧ ∃ v, entry.revision = some v ∧ v < c.revision) ∨
      ∃ held, c.reason = some held ∧ (entry.reason ≠ erasureReason ∨ held = erasureReason) ∧
        isLapsedCopy s cls entry.recordId = false

/-- Applying a retraction: the copies stay, or it ends the copy of its record. -/
theorem applyRetraction_cases {s s' : Inbox I J} {entry : Retraction I} {now : Iso8601}
    {outcome : InboxOutcome} (hinv : LedgerInv s.db)
    (h : applyRetraction registry peer s entry now = .ok (s', outcome)) :
    (SameCopies s s' ∧ s'.landed = s.landed ∧ s'.lapsed = s.lapsed ∧ Idle peer s entry) ∨
      ∃ cls c, Retracts peer s s' entry cls c := by
  unfold applyRetraction at h
  dsimp only at h
  set s₁ := if entry.reason = erasureReason then
      { s with facts := recordErasure s.facts entry.canonicalId now.instant peer } else s with hs₁
  have hdb : s₁.db = s.db := by rw [hs₁]; split_ifs <;> rfl
  have hlanded : s₁.landed = s.landed := by rw [hs₁]; split_ifs <;> rfl
  have hlapsed : s₁.lapsed = s.lapsed := by rw [hs₁]; split_ifs <;> rfl
  have hsame : SameCopies s s₁ := copy_of_rows_eq (by rw [hdb])
  clear_value s₁
  split at h
  · rename_i hclass
    cases h
    refine Or.inl ⟨hsame, hlanded, hlapsed, fun cls c hcls _ => ?_⟩
    rw [hclass] at hcls
    cases hcls
  · rename_i cls hclass
    split at h
    · rename_i hnone
      cases h
      refine Or.inl ⟨hsame, hlanded, hlapsed, fun cls' c hcls hc => ?_⟩
      rw [hclass, Option.some_inj] at hcls
      subst hcls
      rw [Inbox.copy, hnone] at hc
      cases hc
    · rename_i row hrow
      have hc : s.copy cls entry.recordId = some (copyOf row) :=
        Iff.mpr copy_eq_some ⟨row, hrow, rfl⟩
      have hidle : (row.instanceId ≠ peer ∨
          (entry.reason ≠ erasureReason ∧ ∃ v, entry.revision = some v ∧ v < row.revision) ∨
          ∃ held, row.tombstoneReason = some held ∧
            (entry.reason ≠ erasureReason ∨ held = erasureReason) ∧
              isLapsedCopy s cls entry.recordId = false) → Idle peer s entry := by
        intro hor cls' c hcls hc'
        rw [hclass, Option.some_inj] at hcls
        subst hcls
        rw [hc, Option.some_inj] at hc'
        rw [← hc']
        exact hor
      split at h
      · rename_i hinstance
        cases h
        exact Or.inl ⟨hsame, hlanded, hlapsed, hidle (Or.inl hinstance)⟩
      · rename_i hinstance
        rw [ne_eq, not_not] at hinstance
        split at h
        · rename_i hnewer
          cases h
          obtain ⟨v, hv, hlt⟩ := (Option.any_eq_true _ _).mp hnewer.2
          exact Or.inl ⟨hsame, hlanded, hlapsed,
            hidle (Or.inr (Or.inl ⟨hnewer.1, v, hv, of_decide_eq_true hlt⟩))⟩
        · rename_i hnewer
          split at h
          · rename_i hended
            cases h
            obtain ⟨held, hheld, hand⟩ := (Option.any_eq_true _ _).mp hended
            simp only [Bool.and_eq_true, Bool.or_eq_true, decide_eq_true_eq,
              Bool.not_eq_true'] at hand
            exact Or.inl ⟨hsame, hlanded, hlapsed,
              hidle (Or.inr (Or.inr ⟨held, hheld, hand.1, hand.2⟩))⟩
          · rename_i hended
            split at h
            · cases h
            · rename_i db hend
              cases h
              refine Or.inr ⟨cls, copyOf row, hclass, hc, hinstance, ?_, ?_, ?_, hlanded, hlapsed⟩
              · intro herasure
                obtain ⟨v, hv⟩ := Option.isSome_iff_exists.mp (entry.ordered herasure)
                refine ⟨v, hv, ?_⟩
                rw [not_and, hv, Option.any_some, decide_eq_true_eq, not_lt] at hnewer
                exact hnewer herasure
              · intro held hheld
                change row.tombstoneReason = some held at hheld
                rw [endedAlready, hheld, Option.any_some] at hended
                by_cases hlapse : isLapsedCopy s cls entry.recordId = true
                · exact Or.inr hlapse
                · rw [Bool.not_eq_true] at hlapse
                  rw [hlapse] at hended
                  refine Or.inl ?_
                  simpa using hended
              · funext c x
                have hcopy := copy_tombstoneRecords (s := s) hend c x
                simp only [List.mem_singleton] at hcopy
                refine hcopy.trans ?_
                unfold setCopy
                by_cases hcx : c = cls ∧ x = entry.recordId
                · obtain ⟨rfl, rfl⟩ := hcx
                  rw [if_pos ⟨rfl, rfl⟩, if_pos ⟨rfl, rfl⟩, hrow, Option.map_some,
                    copyOf_ended (hinv.stated _ _ _ hrow)]
                · rw [if_neg hcx, if_neg hcx]

/-! ## Ends here -/

/-- Noting lapsed copies leaves the notes of other records as they are. -/
theorem get_recordLapsedCopies_of_not {db : Db I J} {cls c : RevisionedClass} {ids : List I} {x : I}
    {lapsed : OrderedMap (RevisionedClass × I) ℕ}
    (h : ∀ row, (db.rows cls).get x = some row → ¬(c = cls ∧ x ∈ ids)) :
    (recordLapsedCopies db cls ids lapsed).get (c, x) = lapsed.get (c, x) := by
  unfold recordLapsedCopies
  refine OrderedMap.get_foldl_set_of_not_mem (k := fun h : I × ClassRow I J => (cls, h.1))
    (v := fun _ h => h.2.revision) (fun hmem => ?_) lapsed
  obtain ⟨⟨y, row⟩, hheld, heq⟩ := List.mem_map.mp hmem
  rw [Prod.mk.injEq] at heq
  obtain ⟨rfl, rfl⟩ := heq
  obtain ⟨hid, hrow⟩ := mem_heldRows.mp hheld
  exact h row hrow ⟨rfl, hid⟩

/-- Live copies are ended here. -/
structure EndsHere (s s' : Inbox I J) (cls : RevisionedClass) (ids : List I) (reason : String) :
    Prop where
  others : ∀ c x, ¬(c = cls ∧ x ∈ ids) →
    s'.copy c x = s.copy c x ∧ s'.lapsed.get (c, x) = s.lapsed.get (c, x)
  absent : ∀ x ∈ ids, s.copy cls x = none →
    s'.copy cls x = none ∧ s'.lapsed.get (cls, x) = s.lapsed.get (cls, x)
  ended : ∀ x ∈ ids, ∀ c, s.copy cls x = some c →
    c.reason = none ∧ ∃ c', s'.copy cls x = some c' ∧ c'.instanceId = c.instanceId ∧
      c.revision ≤ c'.revision ∧ c'.reason = some reason
  landed : s'.landed = s.landed

/-- Ending copies here ends live ones alone. -/
theorem endHere_cases {s s' : Inbox I J} {cls : RevisionedClass} {ids : List I} {reason : String}
    {now : Iso8601} {lapse : Bool} (hinv : LedgerInv s.db)
    (hlive : ((heldRows (s.db.rows cls) ids).all fun h => h.2.tombstoneReason.isNone) = true)
    (h : endHere registry s cls ids reason now lapse = .ok s') : EndsHere s s' cls ids reason := by
  unfold endHere at h
  cases hend : tombstoneRecords registry s.db cls ids reason ⟨now, false, none⟩ with
  | error e =>
    rw [hend] at h
    cases h
  | ok db =>
    rw [hend] at h
    cases h
    have hcopy := copy_tombstoneRecords (s := s) hend
    refine ⟨fun c x hcx => ⟨?_, ?_⟩, fun x hx hnone => ?_, fun x hx c hc => ?_, rfl⟩
    · exact (hcopy c x).trans (if_neg hcx)
    · dsimp only
      split_ifs
      · exact get_recordLapsedCopies_of_not fun _ _ => hcx
      · rfl
    · have hnone' : Inbox.copy { s with db := db } cls x = none := by
        rw [hcopy, if_pos ⟨rfl, hx⟩, Option.map_eq_none_iff]
        exact Option.map_eq_none_iff.mp hnone
      refine ⟨hnone', ?_⟩
      dsimp only
      split_ifs
      · refine get_recordLapsedCopies_of_not fun row hrow => ?_
        rw [Inbox.copy, hrow] at hnone'
        cases hnone'
      · rfl
    · obtain ⟨row, hrow, rfl⟩ := Iff.mp copy_eq_some hc
      refine ⟨?_, copyOf (row.ended ⟨now, false, none⟩ reason), ?_, rfl, ?_, rfl⟩
      · exact Option.isNone_iff_eq_none.mp
          (List.all_eq_true.mp hlive (x, row) (mem_heldRows.mpr ⟨hx, hrow⟩))
      · refine (hcopy cls x).trans ?_
        rw [if_pos ⟨rfl, hx⟩, hrow, Option.map_some]
      · change row.revision ≤ endRevision ⟨now, false, none⟩ row.record
        rw [← (hinv.stated cls x row hrow).2]
        exact le_endRevision fun hby => by cases hby

/-! ## Steps -/

/-- What one step does to the copy of one record. -/
inductive CopyStep (peer : String) (event : InboxEvent W I) (s s' : Inbox I J)
    (cls : RevisionedClass) (id : I) : Prop where
  | kept (hcopy : s'.copy cls id = s.copy cls id)
      (hlapsed : s'.lapsed.get (cls, id) = s.lapsed.get (cls, id))
  | landed (c' : Copy I J) (hcopy : s'.copy cls id = some c') (hpeer : c'.instanceId = peer)
      (hheld : ∀ c, s.copy cls id = some c → c.instanceId = peer ∧
        (∀ reason ∈ decidedTombstoneReasons, c.reason ≠ some reason) ∧ c.revision ≤ c'.revision)
      (hlanded : (cls, id, c'.revision) ∈ s'.landed.drop s.landed.length)
  | retracted (entry : Retraction I) (c : Copy I J) (hid : entry.recordId = id)
      (hevent : ∃ now evidence, event = .deliver (.retraction entry) now evidence)
      (hretracts : Retracts peer s s' entry cls c)
  | ended (c c' : Copy I J) (hcopy : s.copy cls id = some c) (hcopy' : s'.copy cls id = some c')
      (hlive : c.reason = none) (hended : c'.reason.isSome = true)
      (hinstance : c'.instanceId = c.instanceId) (hrevision : c.revision ≤ c'.revision)

/-- A delivery that lands its record, seen from any copy. -/
theorem Lands.copyStep {admission : Admission W registry peer} {s s' : Inbox I J} {wire : W}
    {now : Iso8601} {sealed : SealedRecord I J} (h : Lands admission s s' wire now sealed)
    (event : InboxEvent W I) (cls : RevisionedClass) (id : I) :
    CopyStep peer event s s' cls id := by
  obtain ⟨record, hadmits, hvalidate, -⟩ := h.admitted
  have hpeer := admission.admit_instance _ _ _ _ hadmits hvalidate
  by_cases hid : cls = sealed.head.cls ∧ id = sealed.head.id
  · obtain ⟨rfl, rfl⟩ := hid
    refine .landed (storedCopy sealed) ?_ hpeer ?_ ?_
    · rw [h.copy, setCopy, if_pos ⟨rfl, rfl⟩]
    · intro c hc
      obtain ⟨row, hrow, rfl⟩ := Iff.mp copy_eq_some hc
      obtain ⟨hinstance, hdecided, hor⟩ := h.writesOver row hrow
      refine ⟨hinstance.trans hpeer, hdecided, ?_⟩
      change row.revision ≤ sealed.revision
      rcases hor with hlt | hrestorable
      · exact hlt.le
      · exact hrestorable.revision.le
    · rw [h.landed, List.drop_left]
      exact List.mem_singleton_self _
  · refine .kept ?_ (by rw [h.lapsed])
    rw [h.copy, setCopy, if_neg hid]

/-- A retraction that ends its copy, seen from any copy. -/
theorem Retracts.copyStep {s s' : Inbox I J} {entry : Retraction I} {cls : RevisionedClass}
    {c : Copy I J} (h : Retracts peer s s' entry cls c) (now : Iso8601)
    (evidence : Option RecomputedEvidence) (c' : RevisionedClass) (id : I) :
    CopyStep peer (.deliver (.retraction entry) now evidence : InboxEvent W I) s s' c' id := by
  by_cases hid : c' = cls ∧ id = entry.recordId
  · obtain ⟨rfl, rfl⟩ := hid
    exact .retracted entry c rfl ⟨now, evidence, rfl⟩ h
  · refine .kept ?_ (by rw [h.lapsed])
    rw [h.copy, setCopy, if_neg hid]

/-- Ends here, seen from any copy. -/
theorem EndsHere.copyStep {s s' : Inbox I J} {cls : RevisionedClass} {ids : List I}
    {reason : String} (h : EndsHere s s' cls ids reason) (event : InboxEvent W I)
    (c : RevisionedClass) (id : I) : CopyStep peer event s s' c id := by
  by_cases hid : c = cls ∧ id ∈ ids
  · obtain ⟨rfl, hmem⟩ := hid
    cases hc : s.copy c id with
    | none =>
      obtain ⟨hcopy, hlapsed⟩ := h.absent id hmem hc
      exact .kept (hcopy.trans hc.symm) hlapsed
    | some held =>
      obtain ⟨hlive, c', hcopy, hinstance, hrevision, hreason⟩ := h.ended id hmem held hc
      exact .ended held c' hc hcopy hlive (by rw [hreason]; rfl) hinstance hrevision
  · obtain ⟨hcopy, hlapsed⟩ := h.others c id hid
    exact .kept hcopy hlapsed

/-- Writing back evidence keeps the ledger. -/
theorem ledgerInv_landEvidence {db : Db I J} (hinv : LedgerInv db) (id : I)
    (evidence : Option RecomputedEvidence) : LedgerInv (landEvidence db id evidence) := by
  unfold landEvidence
  split
  · rename_i e row hrow
    suffices h : Advances .situation (fun x => x = id) db { db with
        rows := Function.update db.rows .situation ((db.rows .situation).set id
          { row with evidence := e.columns, expiresAt := e.expiresAt }) } from h.inv
    refine hinv.advances_rows rfl rfl ?_ ?_ ?_
    · intro x hx
      exact OrderedMap.get_set_of_ne _ _ hx
    · intro x held hheld
      by_cases hx : x = id
      · subst hx
        rw [hrow, Option.some_inj] at hheld
        rw [OrderedMap.get_set_self]
        exact ⟨_, rfl, by rw [hheld]⟩
      · rw [OrderedMap.get_set_of_ne _ _ hx]
        exact ⟨held, hheld, le_refl _⟩
    · intro x held hheld
      by_cases hx : x = id
      · subst hx
        rw [OrderedMap.get_set_self, Option.some_inj] at hheld
        rw [← hheld]
        have hstates := hinv.stated .situation x row hrow
        exact hstates
      · rw [OrderedMap.get_set_of_ne _ _ hx] at hheld
        exact hinv.stated _ _ _ hheld
  · exact hinv

/-- Landing a change keeps the ledger. -/
theorem landRecord_ledgerInv {admission : Admission W registry peer} {s s' : Inbox I J} {wire : W}
    {now : Iso8601} {evidence : Option RecomputedEvidence} {outcome : InboxOutcome}
    (hinv : LedgerInv s.db)
    (h : landRecord admission localInstanceId s wire now evidence = .ok (s', outcome)) :
    LedgerInv s'.db := by
  unfold landRecord at h
  split at h
  · cases h
    exact hinv
  · rename_i record hadmits
    split at h
    · cases h
      exact hinv
    · split at h
      · cases h
      · cases h
        exact hinv
      · rename_i db status cls id revision hwrite
        have hdb : LedgerInv db := by
          unfold writeRecordIn at hwrite
          split at hwrite
          · cases hwrite
          · exact (writeStored_advances hinv hwrite).inv
        have hs : s'.db = if (record.crowd && (WriteStatus.lands status ||
            decide (status = .refreshed))) = true then landEvidence db id evidence else db := by
          cases status <;> exact (congrArg (fun o => o.1.db) (Except.ok.inj h)).symm
        rw [hs]
        split_ifs
        · exact ledgerInv_landEvidence hdb id evidence
        · exact hdb

/-- Applying a retraction keeps the ledger. -/
theorem applyRetraction_ledgerInv {s s' : Inbox I J} {entry : Retraction I} {now : Iso8601}
    {outcome : InboxOutcome} (hinv : LedgerInv s.db)
    (h : applyRetraction registry peer s entry now = .ok (s', outcome)) : LedgerInv s'.db := by
  unfold applyRetraction at h
  dsimp only at h
  have hkeep : LedgerInv (if entry.reason = erasureReason then
      { s with facts := recordErasure s.facts entry.canonicalId now.instant peer } else s).db := by
    split_ifs <;> exact hinv
  split at h
  · cases h
    exact hkeep
  · rename_i cls hclass
    split at h
    · cases h
      exact hkeep
    · rename_i row hrow
      split at h
      · cases h
        exact hkeep
      · split at h
        · cases h
          exact hkeep
        · split at h
          · cases h
            exact hkeep
          · split at h
            · cases h
            · rename_i db hend
              cases h
              refine (tombstoneRecords_advances hinv hend ?_).inv
              intro _ revision hrevision id hid row' hrow'
              rw [List.mem_singleton.mp hid, hrow, Option.some_inj] at hrow'
              rw [← hrow']
              exact of_decide_eq_true (Option.filter_eq_some_iff.mp hrevision).2

/-- A delivery is a step when it does not throw. -/
theorem deliver_eq_some {admission : Admission W registry peer} {s s' : Inbox I J}
    {item : OutboxItem W I} {now : Iso8601} {evidence : Option RecomputedEvidence} :
    inboxStep admission localInstanceId s (.deliver item now evidence) = some s' ↔
      ∃ outcome, deliverItem admission localInstanceId s item now evidence = .ok (s', outcome) := by
  unfold inboxStep
  dsimp only
  cases deliverItem admission localInstanceId s item now evidence with
  | error e => simp [Except.map, Except.toOption]
  | ok out =>
    obtain ⟨s₁, outcome⟩ := out
    simp [Except.map, Except.toOption]

/-- What a step is: it keeps the ledger, only adds to what has landed, and does to each copy one of
four things. -/
structure InboxSteps (peer : String) (event : InboxEvent W I) (s s' : Inbox I J) : Prop where
  inv : LedgerInv s'.db
  landed : ∃ new, s'.landed = s.landed ++ new
  copyStep : ∀ cls id, CopyStep peer event s s' cls id

/-- Every step is one. -/
theorem inboxStep_inboxSteps {admission : Admission W registry peer} {s s' : Inbox I J}
    {event : InboxEvent W I} (hinv : LedgerInv s.db)
    (h : inboxStep admission localInstanceId s event = some s') :
    InboxSteps peer event s s' := by
  cases event with
  | deliver item now evidence =>
    obtain ⟨outcome, hdeliver⟩ := Iff.mp deliver_eq_some h
    cases item with
    | change wire =>
      refine ⟨landRecord_ledgerInv hinv hdeliver, ?_, ?_⟩
      · rcases landRecord_cases hdeliver with ⟨-, hlanded, -⟩ | ⟨sealed, hlands⟩
        · exact ⟨[], by rw [hlanded, List.append_nil]⟩
        · exact ⟨_, hlands.landed⟩
      · intro cls id
        rcases landRecord_cases hdeliver with ⟨hsame, -, hlapsed, -⟩ | ⟨sealed, hlands⟩
        · exact .kept (hsame cls id) (by rw [hlapsed])
        · exact hlands.copyStep _ cls id
    | retraction entry =>
      refine ⟨applyRetraction_ledgerInv hinv hdeliver, ?_, ?_⟩
      · rcases applyRetraction_cases hinv hdeliver with ⟨-, hlanded, -⟩ | ⟨cls, c, hretracts⟩
        · exact ⟨[], by rw [hlanded, List.append_nil]⟩
        · exact ⟨[], by rw [hretracts.landed, List.append_nil]⟩
      · intro cls id
        rcases applyRetraction_cases hinv hdeliver with ⟨hsame, -, hlapsed, -⟩ | ⟨c, x, hretracts⟩
        · exact .kept (hsame cls id) (by rw [hlapsed])
        · exact hretracts.copyStep now evidence cls id
  | endHere cls ids reason now lapse =>
    unfold inboxStep at h
    dsimp only at h
    split_ifs at h with hlive
    cases hend : endHere registry s cls ids reason now lapse with
    | error e =>
      rw [hend] at h
      cases h
    | ok s₁ =>
      rw [hend] at h
      cases h
      have hends := endHere_cases hinv hlive hend
      refine ⟨?_, ⟨[], by rw [hends.landed, List.append_nil]⟩, hends.copyStep _⟩
      unfold endHere at hend
      cases htomb : tombstoneRecords registry s.db cls ids reason ⟨now, false, none⟩ with
      | error e =>
        rw [htomb] at hend
        cases hend
      | ok db =>
        rw [htomb] at hend
        cases hend
        exact (tombstoneRecords_advances hinv htomb fun hby => by cases hby).inv

end OpenConditions.Federation

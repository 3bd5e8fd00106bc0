import OpenConditions.Federation.InboxCopies
import OpenConditions.Federation.Redelivery
import OpenConditions.Federation.Replica

set_option relaxedAutoImplicit false
set_option autoImplicit false

/-!
# Copies converge

The entries of a peer's journal arrive in pages that are pushed and pulled, late, repeatedly and out of
order, and then the whole journal is pulled once in its order.  Where nothing is decided here, the copy
of a record is then what the journal tells last.

## Main definitions

* `Tells` — what an entry tells of a record.
* `PeerJournal` — the journal of an honest peer, seen from one record.
* `Undecided`, `IsPull` — the events before, and the pull.

## Main results

* `Tracks.deliver` — a delivery does to the copy what its entry may do.
* `replicas_converge` — the copy after the pull.
* `replicas_diverge` — what the journal tells last is not always held.
-/

namespace OpenConditions.Federation

open OpenConditions.Storage

variable {W I J C : Type} [DecidableEq I] {registry : Registry I J} {peer localInstanceId : String}

/-! ## Rows that ended -/

/-- A row states when it ended if it states why. -/
def EndedAt (row : ClassRow I J) : Prop := row.tombstonedAt.isSome = row.tombstoneReason.isSome

/-- Every row of the tables does. -/
def RowsEndedAt (db : Db I J) : Prop :=
  ∀ cls id row, (db.rows cls).get id = some row → EndedAt row

section Rows

variable {db db' : Db I J} {cls : RevisionedClass}

/-- Storing one record. -/
theorem RowsEndedAt.storeRecords {now : Instant} {sealed : SealedRecord I J} (h : RowsEndedAt db)
    (hstore : storeRecords registry now db cls [sealed] = .ok db') : RowsEndedAt db' := by
  obtain ⟨-, rfl⟩ := storeRecords_eq_ok.mp hstore
  intro c x row hget
  by_cases hc : c = cls
  · subst hc
    simp only [Function.update_self] at hget
    by_cases hx : x = sealed.head.id
    · subst hx
      rw [get_upsertRows_singleton] at hget
      rw [← Option.some.inj hget]
      cases htombstone : sealed.tombstone <;> simp [EndedAt, upsertRow, rowOf, htombstone]
    · rw [get_upsertRows_of_not_mem (by simpa using hx)] at hget
      exact h c x row hget
  · simp only [Function.update_of_ne hc] at hget
    exact h c x row hget

/-- Moving expiries. -/
theorem RowsEndedAt.refreshExpiries (h : RowsEndedAt db) (moved : List (I × Option Iso8601)) :
    RowsEndedAt (refreshExpiries db cls moved) := by
  intro c x row hget
  by_cases hc : c = cls
  · subst hc
    have hmap := @map_refreshExpiries _ _ _ db c _ EndedAt (fun _ _ => rfl) moved x
    rw [hget, Option.map_some] at hmap
    obtain ⟨held, hheld, heq⟩ := Option.map_eq_some_iff.mp hmap.symm
    exact heq ▸ h c x held hheld
  · simp only [Storage.refreshExpiries, Function.update_of_ne hc] at hget
    exact h c x row hget

/-- Storing one record with its revision row. -/
theorem RowsEndedAt.storeRevision {now : Instant} {existing : Option (ClassRow I J)}
    {sealed : SealedRecord I J} {result : WriteRecordResult I} (h : RowsEndedAt db)
    (hstore : storeRevision registry now db cls existing sealed = .ok (db', result)) :
    RowsEndedAt db' := by
  unfold Storage.storeRevision at hstore
  dsimp only at hstore
  split at hstore
  · cases hstore
  · rename_i db₁ hfirst
    split at hstore
    · cases hstore
    · rename_i db₂ hinsert
      cases hstore
      have hfirst' := h.storeRecords hfirst
      intro c x row hget
      rw [rows_insertRevisions hinsert] at hget
      exact hfirst' c x row hget

/-- Writing back evidence. -/
theorem RowsEndedAt.landEvidence (h : RowsEndedAt db) (id : I)
    (evidence : Option RecomputedEvidence) : RowsEndedAt (landEvidence db id evidence) := by
  unfold Federation.landEvidence
  split
  · rename_i e held hheld
    intro c x row hget
    by_cases hc : c = .situation
    · subst hc
      simp only [Function.update_self] at hget
      by_cases hx : x = id
      · subst hx
        rw [OrderedMap.get_set_self] at hget
        rw [← Option.some.inj hget]
        exact h _ _ held hheld
      · rw [OrderedMap.get_set_of_ne _ _ hx] at hget
        exact h _ x row hget
    · simp only [Function.update_of_ne hc] at hget
      exact h c x row hget
  · exact h

/-- Ending records. -/
theorem RowsEndedAt.tombstoneRecords {ids : List I} {reason : String} {ctx : TombstoneContext}
    (h : RowsEndedAt db) (hend : tombstoneRecords registry db cls ids reason ctx = .ok db') :
    RowsEndedAt db' := by
  intro c x row hget
  rw [rows_tombstoneRecords hend] at hget
  by_cases hc : c = cls
  · subst hc
    simp only [Function.update_self, get_endedRows] at hget
    split_ifs at hget
    · obtain ⟨held, -, rfl⟩ := Option.map_eq_some_iff.mp hget
      rfl
    · exact h c x row hget
  · simp only [Function.update_of_ne hc] at hget
    exact h c x row hget

/-- Writing a record its own instance sealed. -/
theorem RowsEndedAt.writeStored {stored : RawRecord I J} {now : Iso8601}
    {result : WriteRecordResult I} (h : RowsEndedAt db)
    (hwrite : writeStored registry db cls stored now = .ok (db', result)) : RowsEndedAt db' := by
  unfold Storage.writeStored at hwrite
  dsimp only at hwrite
  split at hwrite
  · cases hwrite
    exact h
  · split at hwrite
    · cases hwrite
      exact h
    · cases hwrite
      exact h
    · cases hwrite
      exact h.refreshExpiries _
    · split at hwrite
      · cases hwrite
      · rename_i db₁ hstore
        cases hwrite
        exact h.storeRecords hstore
    · exact h.storeRevision hwrite

variable {admission : Admission W registry peer} {s s' : Inbox I J} {now : Iso8601}
  {outcome : InboxOutcome}

/-- Landing a change keeps the rows' ends and the erasure facts. -/
theorem RowsEndedAt.landRecord {wire : W} {evidence : Option RecomputedEvidence}
    (h : RowsEndedAt s.db)
    (hland : landRecord admission localInstanceId s wire now evidence = .ok (s', outcome)) :
    RowsEndedAt s'.db ∧ s'.facts = s.facts := by
  unfold Federation.landRecord at hland
  split at hland
  · cases hland
    exact ⟨h, rfl⟩
  · rename_i record hadmits
    split at hland
    · cases hland
      exact ⟨h, rfl⟩
    · split at hland
      · cases hland
      · cases hland
        exact ⟨h, rfl⟩
      · rename_i db status cls id revision hwrite
        have hdb : RowsEndedAt db := by
          unfold writeRecordIn at hwrite
          split at hwrite
          · cases hwrite
          · exact h.writeStored hwrite
        have hs : s'.db = (if (record.crowd && (WriteStatus.lands status ||
              decide (status = .refreshed))) = true then Federation.landEvidence db id evidence
            else db) ∧ s'.facts = s.facts := by
          cases status <;> exact ⟨(congrArg (fun o => o.1.db) (Except.ok.inj hland)).symm,
            (congrArg (fun o => o.1.facts) (Except.ok.inj hland)).symm⟩
        refine ⟨?_, hs.2⟩
        rw [hs.1]
        split_ifs
        · exact hdb.landEvidence id evidence
        · exact hdb

/-- Applying a retraction keeps the rows' ends, and the facts of every canonical id it does not
erase. -/
theorem RowsEndedAt.applyRetraction {entry : Retraction I} (h : RowsEndedAt s.db)
    (happly : applyRetraction registry peer s entry now = .ok (s', outcome)) :
    RowsEndedAt s'.db ∧ ∀ canonicalId p,
      (entry.reason = erasureReason → entry.canonicalId ≠ some canonicalId) →
        s'.facts.get (canonicalId, p) = s.facts.get (canonicalId, p) := by
  have hfacts : ∀ canonicalId p,
      (entry.reason = erasureReason → entry.canonicalId ≠ some canonicalId) →
      (if entry.reason = erasureReason then
        { s with facts := recordErasure s.facts entry.canonicalId now.instant peer }
        else s).facts.get (canonicalId, p) = s.facts.get (canonicalId, p) := by
    intro canonicalId p hother
    split_ifs with herasure
    · unfold recordErasure
      split
      · rfl
      · rename_i erased heq
        split_ifs
        · rfl
        · refine OrderedMap.get_set_of_ne _ _ fun hkey => ?_
          rw [Prod.mk.injEq] at hkey
          exact hother herasure (by rw [heq, hkey.1])
    · rfl
  have hkeep : RowsEndedAt (if entry.reason = erasureReason then
      { s with facts := recordErasure s.facts entry.canonicalId now.instant peer }
      else s).db := by split_ifs <;> exact h
  unfold Federation.applyRetraction at happly
  dsimp only at happly
  split at happly
  · cases happly
    exact ⟨hkeep, hfacts⟩
  · split at happly
    · cases happly
      exact ⟨hkeep, hfacts⟩
    · split at happly
      · cases happly
        exact ⟨hkeep, hfacts⟩
      · split at happly
        · cases happly
          exact ⟨hkeep, hfacts⟩
        · split at happly
          · cases happly
            exact ⟨hkeep, hfacts⟩
          · split at happly
            · cases happly
            · rename_i db hend
              cases happly
              exact ⟨h.tombstoneRecords hend, hfacts⟩

end Rows

/-! ## Changes that must land -/

/-- A record its peer sealed lands when it is admitted, was not erased, and is weighed as newer than
its copy or as restoring it. -/
theorem landRecord_lands {admission : Admission W registry peer} {s s' : Inbox I J} {wire : W}
    {now : Iso8601} {evidence : Option RecomputedEvidence} {outcome : InboxOutcome}
    {record : AdmittedRecord I J} {sealed : SealedRecord I J}
    (hadmits : admission.admitFederatedRecord now wire = .ok record)
    (hvalidate : registry.validate record.raw = .ok sealed)
    (herased : isErased s.facts record.canonicalId now.instant peer = false)
    (hverdict : storedVerdict now.instant ((s.db.rows sealed.head.cls).get sealed.head.id) sealed =
        .store ∨
      storedVerdict now.instant ((s.db.rows sealed.head.cls).get sealed.head.id) sealed = .restore)
    (h : landRecord admission localInstanceId s wire now evidence = .ok (s', outcome)) :
    ∃ sealed', Lands admission s s' wire now sealed' := by
  rcases landRecord_cases h with ⟨-, hlanded, -, -⟩ | hlands
  · exfalso
    have hid := registry.validate_id _ _ hvalidate
    have hcls := registry.validate_cls _ _ hvalidate
    unfold landRecord at h
    rw [hadmits] at h
    simp only [herased, Bool.false_eq_true, if_false] at h
    rw [writeRecordIn_of_cls hcls] at h
    have hgrown : ∀ status cls id revision, WriteStatus.lands status = true →
        (∃ db, writeStored registry s.db sealed.head.cls record.raw now =
          .ok (db, .done status cls id revision)) → False := by
      rintro status cls id revision hstatus ⟨db, hwrite⟩
      rw [hwrite] at h
      have hs : s'.landed = s.landed ++ [(cls, id, revision)] := by
        cases status <;> first
          | exact absurd hstatus (by decide)
          | exact (congrArg (fun o => o.1.landed) (Except.ok.inj h)).symm
      rw [hlanded] at hs
      exact absurd (congrArg List.length hs) (by simp)
    cases hwrite : writeStored registry s.db sealed.head.cls record.raw now with
    | error e =>
      rw [hwrite] at h
      cases h
    | ok out =>
      obtain ⟨db, result⟩ := out
      have hwritten := hwrite
      unfold writeStored at hwritten
      dsimp only at hwritten
      rw [hvalidate, hid, Option.bind_some] at hwritten
      dsimp only at hwritten
      rcases hverdict with hverdict | hverdict
      · rw [hverdict] at hwritten
        dsimp only at hwritten
        obtain ⟨-, rfl⟩ := copy_storeRevision (s := s) hwritten
        refine hgrown _ _ _ _ ?_ ⟨db, hwrite⟩
        unfold statusOver
        split
        · rfl
        · split_ifs <;> rfl
      · rw [hverdict] at hwritten
        dsimp only at hwritten
        split at hwritten
        · cases hwritten
        · cases hwritten
          exact hgrown _ _ _ _ rfl ⟨_, hwrite⟩
  · exact hlands

omit [DecidableEq I] in
/-- A record is weighed as newer than an older copy of its instance that no decision ended. -/
theorem storedVerdict_of_lt {now : Instant} {row : ClassRow I J} {sealed : SealedRecord I J}
    (hinstance : row.instanceId = sealed.head.provenance.instanceId)
    (hdecided : ∀ reason ∈ decidedTombstoneReasons, row.tombstoneReason ≠ some reason)
    (hlt : row.revision < sealed.revision) : storedVerdict now (some row) sealed = .store := by
  have hany : ¬(row.tombstoneReason.any fun reason =>
      decide (reason ∈ decidedTombstoneReasons)) = true := by
    intro h
    obtain ⟨reason, hreason, hmem⟩ := (Option.any_eq_true _ _).mp h
    exact hdecided reason (of_decide_eq_true hmem) hreason
  unfold storedVerdict
  dsimp only
  rw [if_neg (not_not.mpr hinstance), if_neg hany, if_pos hlt]

omit [DecidableEq I] in
/-- A live record is weighed as restoring a copy that was withdrawn at its revision. -/
theorem storedVerdict_of_withdrawn {now : Instant} {row : ClassRow I J}
    {sealed : SealedRecord I J} (hended : EndedAt row)
    (hinstance : row.instanceId = sealed.head.provenance.instanceId)
    (hreason : row.tombstoneReason = some "withdrawn") (heq : row.revision = sealed.revision)
    (hlive : sealed.tombstone = none) : storedVerdict now (some row) sealed = .restore := by
  have hat : row.tombstonedAt.isNone = false := by
    rw [← Option.not_isSome, hended, hreason]
    rfl
  unfold storedVerdict
  simp [hinstance, hreason, heq, hlive, hat, decidedTombstoneReasons]

/-! ## The journal, seen from one record -/

/-- What of a copy is compared: its revision, how it ended and its content. -/
def Copy.held (content : RecordHead I J → Option (Statement J) → C) (c : Copy I J) : Held C :=
  ⟨c.revision, c.reason, content c.head c.statement⟩

/-- What is held of a record. -/
def Inbox.view (content : RecordHead I J → Option (Statement J) → C) (s : Inbox I J)
    (cls : RevisionedClass) (id : I) : Option (Held C) :=
  (s.copy cls id).map (Copy.held content)

/-- What an entry tells of a record.  A change of it is admitted whenever it arrives, with one
revision and one content up to the lifetime. -/
def Tells (admission : Admission W registry peer)
    (content : RecordHead I J → Option (Statement J) → C) (cls : RevisionedClass) (id : I)
    (canonicalId : String) : OutboxItem W I → Option (JournalEntry C) → Prop
  | .change wire, none => ∀ now record sealed, admission.admitFederatedRecord now wire = .ok record →
      registry.validate record.raw = .ok sealed → ¬(sealed.head.cls = cls ∧ sealed.head.id = id)
  | .change wire, some (.change v x) => ∀ now, ∃ record sealed,
      admission.admitFederatedRecord now wire = .ok record ∧
        registry.validate record.raw = .ok sealed ∧ record.canonicalId = canonicalId ∧
          sealed.head.cls = cls ∧ sealed.head.id = id ∧ sealed.revision = v ∧
            sealed.tombstone = none ∧
              content sealed.head (some { sealed.statement with expiresAt := none }) = x
  | .retraction entry, none => ¬(entry.recordClass = some cls ∧ entry.recordId = id)
  | .retraction entry, some (.retraction reason w) =>
      entry.recordClass = some cls ∧ entry.recordId = id ∧ entry.reason = reason ∧
        entry.revision = w
  | _, _ => False

/-- An entry erases a canonical id. -/
def OutboxItem.ErasesId (item : OutboxItem W I) (canonicalId : String) : Prop :=
  ∃ entry, item = .retraction entry ∧ entry.reason = erasureReason ∧
    entry.canonicalId = some canonicalId

/-- What is known of the inbox while the journal's entries arrive: the copy is the peer's and did not
lapse here, and unless changes are refused its canonical id was not erased. -/
structure Tracks (peer : String) (cls : RevisionedClass) (id : I) (canonicalId : String)
    (fenced : Prop) (s : Inbox I J) : Prop where
  ledger : LedgerInv s.db
  endedAt : RowsEndedAt s.db
  notLapsed : s.lapsed.get (cls, id) = none
  own : ∀ c, s.copy cls id = some c → c.instanceId = peer
  unfenced : ¬fenced → ∀ p, s.facts.get (canonicalId, p) = none

section Deliver

variable {admission : Admission W registry peer}
  {content : RecordHead I J → Option (Statement J) → C} {cls : RevisionedClass} {id : I}
  {canonicalId : String} {fenced : Prop} {s s' : Inbox I J} {now : Iso8601}
  {evidence : Option RecomputedEvidence} {outcome : InboxOutcome}

/-- The view of a copy that is set. -/
theorem view_setCopy {c : Copy I J} (h : s'.copy = setCopy s.copy cls id c) :
    s'.view content cls id = some (c.held content) := by
  rw [Inbox.view, h, setCopy, if_pos ⟨rfl, rfl⟩, Option.map_some]

/-- The view of a copy that stays. -/
theorem view_congr (h : s'.copy cls id = s.copy cls id) :
    s'.view content cls id = s.view content cls id := by
  rw [Inbox.view, Inbox.view, h]

/-- Without a fact nothing is erased. -/
theorem Tracks.isErased_eq_false (ht : Tracks peer cls id canonicalId fenced s)
    (hfenced : ¬fenced) (now : Instant) : isErased s.facts canonicalId now peer = false := by
  unfold isErased
  simp [ht.unfenced hfenced]

/-- **Delivering a change** does to its copy what its entry may do. -/
theorem Tracks.landRecord {wire : W} {v : ℕ} {x : C}
    (ht : Tracks peer cls id canonicalId fenced s)
    (htells : Tells admission content cls id canonicalId (.change wire) (some (.change v x)))
    (h : landRecord admission localInstanceId s wire now evidence = .ok (s', outcome)) :
    Tracks peer cls id canonicalId fenced s' ∧
      Delivers fenced (.change v x) (s.view content cls id) (s'.view content cls id) := by
  obtain ⟨hended, hfacts⟩ := ht.endedAt.landRecord h
  obtain ⟨record, sealed, hadmits, hvalidate, rfl, rfl, rfl, rfl, hlive, rfl⟩ := htells now
  have hpeer := admission.admit_instance _ _ _ _ hadmits hvalidate
  have hlanded : ∀ sealed', Lands admission s s' wire now sealed' →
      s'.view content sealed.head.cls sealed.head.id = some ⟨sealed.revision, none,
        content sealed.head (some { sealed.statement with expiresAt := none })⟩ ∧
      (∀ c, s'.copy sealed.head.cls sealed.head.id = some c → c.instanceId = peer) ∧
        s'.lapsed = s.lapsed := by
    intro sealed' hlands
    obtain ⟨record', hadmits', hvalidate', -⟩ := hlands.admitted
    obtain rfl := Except.ok.inj (hadmits.symm.trans hadmits')
    obtain rfl := Except.ok.inj (hvalidate.symm.trans hvalidate')
    refine ⟨?_, fun c hc => ?_, hlands.lapsed⟩
    · rw [view_setCopy hlands.copy, Copy.held, storedCopy]
      simp only [hlive, Option.map_none]
    · rw [hlands.copy, setCopy, if_pos ⟨rfl, rfl⟩] at hc
      rw [← Option.some.inj hc]
      exact hpeer
  have htracks : (∀ c, s'.copy sealed.head.cls sealed.head.id = some c → c.instanceId = peer) →
      s'.lapsed = s.lapsed →
      Tracks peer sealed.head.cls sealed.head.id record.canonicalId fenced s' := fun hown hlapsed =>
    ⟨landRecord_ledgerInv ht.ledger h, hended, by rw [hlapsed]; exact ht.notLapsed, hown,
      fun hfenced p => by rw [hfacts]; exact ht.unfenced hfenced p⟩
  by_cases hfenced : fenced
  · rcases landRecord_cases h with ⟨hsame, -, hlapsed, -⟩ | ⟨sealed', hlands⟩
    · refine ⟨htracks (fun c hc => ht.own c (hsame _ _ ▸ hc)) hlapsed, ?_⟩
      rw [view_congr (hsame _ _)]
      exact .refused hfenced
    · obtain ⟨hview, hown, hlapsed⟩ := hlanded sealed' hlands
      refine ⟨htracks hown hlapsed, ?_⟩
      rw [hview]
      exact .lands
  · have herased := ht.isErased_eq_false hfenced now.instant
    have hmust : (storedVerdict now.instant ((s.db.rows sealed.head.cls).get sealed.head.id) sealed =
          .store ∨
        storedVerdict now.instant ((s.db.rows sealed.head.cls).get sealed.head.id) sealed =
          .restore) → Delivers fenced
            (.change sealed.revision
              (content sealed.head (some { sealed.statement with expiresAt := none })))
            (s.view content sealed.head.cls sealed.head.id)
            (s'.view content sealed.head.cls sealed.head.id) := by
      intro hverdict
      obtain ⟨sealed', hlands⟩ := landRecord_lands hadmits hvalidate herased hverdict h
      rw [(hlanded sealed' hlands).1]
      exact .lands
    rcases landRecord_cases h with ⟨hsame, -, hlapsed, -⟩ | ⟨sealed', hlands⟩
    · refine ⟨htracks (fun c hc => ht.own c (hsame _ _ ▸ hc)) hlapsed, ?_⟩
      cases hrow : (s.db.rows sealed.head.cls).get sealed.head.id with
      | none => exact hmust (by rw [hrow]; exact Or.inl rfl)
      | some row =>
        have hcopy : s.copy sealed.head.cls sealed.head.id = some (copyOf row) :=
          copy_eq_some.mpr ⟨row, hrow, rfl⟩
        have hinstance : row.instanceId = sealed.head.provenance.instanceId :=
          (ht.own _ hcopy).trans hpeer.symm
        by_cases hout : (copyOf row |>.held content).Decided ∨ sealed.revision < row.revision ∨
            (sealed.revision = row.revision ∧ row.tombstoneReason ≠ some "withdrawn")
        · rw [view_congr (hsame _ _), Inbox.view, hcopy]
          exact .holdsOut hout
        · rw [not_or, not_or] at hout
          obtain ⟨hdecided, hnotNewer, hnotAt⟩ := hout
          refine hmust ?_
          rw [hrow]
          rcases (not_lt.mp hnotNewer).lt_or_eq with hlt | heq
          · exact Or.inl (storedVerdict_of_lt hinstance
              (fun reason hmem hreason => hdecided ⟨reason, hmem, hreason⟩) hlt)
          · have hreason : row.tombstoneReason = some "withdrawn" := by
              by_contra hne
              exact hnotAt ⟨heq.symm, hne⟩
            exact Or.inr (storedVerdict_of_withdrawn (ht.endedAt _ _ row hrow) hinstance hreason
              heq hlive)
    · obtain ⟨hview, hown, hlapsed⟩ := hlanded sealed' hlands
      refine ⟨htracks hown hlapsed, ?_⟩
      rw [hview]
      exact .lands

/-- A copy that did not lapse here is not a lapsed one. -/
theorem Tracks.isLapsedCopy_eq_false (ht : Tracks peer cls id canonicalId fenced s) :
    isLapsedCopy s cls id = false := by
  rw [← Bool.not_eq_true, isLapsedCopy_iff]
  rintro ⟨c, -, hlapsed, -⟩
  rw [ht.notLapsed] at hlapsed
  cases hlapsed

/-- **Delivering a retraction** does to its copy what its entry may do. -/
theorem Tracks.applyRetraction {entry : Retraction I}
    (ht : Tracks peer cls id canonicalId fenced s) (hcls : entry.recordClass = some cls)
    (hid : entry.recordId = id)
    (hfence : ¬fenced → ¬OutboxItem.ErasesId (W := W) (.retraction entry) canonicalId)
    (h : applyRetraction registry peer s entry now = .ok (s', outcome)) :
    Tracks peer cls id canonicalId fenced s' ∧
      Delivers fenced (.retraction entry.reason entry.revision) (s.view content cls id)
        (s'.view content cls id) := by
  obtain ⟨hended, hfacts⟩ := ht.endedAt.applyRetraction h
  have htracks : (∀ c, s'.copy cls id = some c → c.instanceId = peer) → s'.lapsed = s.lapsed →
      Tracks peer cls id canonicalId fenced s' := fun hown hlapsed =>
    ⟨applyRetraction_ledgerInv ht.ledger h, hended, by rw [hlapsed]; exact ht.notLapsed, hown,
      fun hfenced p => by
        rw [hfacts canonicalId p fun herasure heq => hfence hfenced ⟨entry, rfl, herasure, heq⟩]
        exact ht.unfenced hfenced p⟩
  subst hid
  rcases applyRetraction_cases ht.ledger h with ⟨hsame, -, hlapsed, hidle⟩ |
      ⟨cls', c, hretracts⟩
  · refine ⟨htracks (fun c hc => ht.own c (hsame _ _ ▸ hc)) hlapsed, ?_⟩
    rw [view_congr (hsame _ _), Inbox.view]
    cases hcopy : s.copy cls entry.recordId with
    | none => exact .absent
    | some c =>
      refine .idle ?_
      rcases hidle cls c hcls hcopy with hother | hnewer | ⟨held, hheld, -, -⟩
      · exact absurd (ht.own c hcopy) hother
      · exact Or.inr hnewer
      · exact Or.inl (by rw [Copy.held, hheld]; rfl)
  · obtain rfl := Option.some.inj (hcls.symm.trans hretracts.recordClass)
    refine ⟨htracks (fun d hd => ?_) hretracts.lapsed, ?_⟩
    · rw [hretracts.copy, setCopy, if_pos ⟨rfl, rfl⟩] at hd
      rw [← Option.some.inj hd]
      exact hretracts.instanceId
    · rw [view_setCopy hretracts.copy, Inbox.view, hretracts.held]
      refine .ends rfl fun herasure => ?_
      obtain ⟨w, hw, hle⟩ := hretracts.revision herasure
      rw [hw, retractedCopy_of_revision herasure hw hle]
      rfl

/-- **Delivering an entry** of the journal: it does to the copy of a record what it tells of it. -/
theorem Tracks.deliver {item : OutboxItem W I} {e : Option (JournalEntry C)}
    (ht : Tracks peer cls id canonicalId fenced s)
    (htells : Tells admission content cls id canonicalId item e)
    (hfence : ¬fenced → ¬item.ErasesId canonicalId)
    (h : deliverItem admission localInstanceId s item now evidence = .ok (s', outcome)) :
    Tracks peer cls id canonicalId fenced s' ∧
      DeliversTold fenced e (s.view content cls id) (s'.view content cls id) := by
  cases item with
  | change wire =>
    cases e with
    | some e =>
      cases e with
      | change v x => exact ht.landRecord htells h
      | retraction reason w => exact htells.elim
    | none =>
      obtain ⟨hended, hfacts⟩ := ht.endedAt.landRecord h
      have hcopy : s'.copy cls id = s.copy cls id ∧ s'.lapsed = s.lapsed := by
        rcases landRecord_cases h with ⟨hsame, -, hlapsed, -⟩ | ⟨sealed, hlands⟩
        · exact ⟨hsame _ _, hlapsed⟩
        · obtain ⟨record, hadmits, hvalidate, -⟩ := hlands.admitted
          have hother := htells now record sealed hadmits hvalidate
          refine ⟨?_, hlands.lapsed⟩
          rw [hlands.copy, setCopy, if_neg fun heq => hother ⟨heq.1.symm, heq.2.symm⟩]
      exact ⟨⟨landRecord_ledgerInv ht.ledger h, hended, by rw [hcopy.2]; exact ht.notLapsed,
        fun c hc => ht.own c (hcopy.1 ▸ hc), fun hfenced p => by
          rw [hfacts]; exact ht.unfenced hfenced p⟩, view_congr hcopy.1⟩
  | retraction entry =>
    cases e with
    | some e =>
      cases e with
      | change v x => exact htells.elim
      | retraction reason w =>
        obtain ⟨hcls, hid, rfl, rfl⟩ := htells
        exact ht.applyRetraction hcls hid hfence h
    | none =>
      obtain ⟨hended, hfacts⟩ := ht.endedAt.applyRetraction h
      have hcopy : s'.copy cls id = s.copy cls id ∧ s'.lapsed = s.lapsed := by
        rcases applyRetraction_cases ht.ledger h with ⟨hsame, -, hlapsed, -⟩ |
            ⟨cls', c, hretracts⟩
        · exact ⟨hsame _ _, hlapsed⟩
        · refine ⟨?_, hretracts.lapsed⟩
          rw [hretracts.copy, setCopy, if_neg]
          rintro ⟨rfl, rfl⟩
          exact htells ⟨hretracts.recordClass, rfl⟩
      exact ⟨⟨applyRetraction_ledgerInv ht.ledger h, hended, by rw [hcopy.2]; exact ht.notLapsed,
        fun c hc => ht.own c (hcopy.1 ▸ hc), fun hfenced p => by
          rw [hfacts canonicalId p fun herasure heq => hfence hfenced ⟨entry, rfl, herasure, heq⟩]
          exact ht.unfenced hfenced p⟩, view_congr hcopy.1⟩

end Deliver

/-! ## Runs -/

/-- The journal of an honest peer, seen from one record: what each entry tells of it, with revisions
that never fall and one content for each. -/
structure PeerJournal (admission : Admission W registry peer)
    (content : RecordHead I J → Option (Statement J) → C) (cls : RevisionedClass) (id : I)
    (canonicalId : String) (journal : List (OutboxItem W I))
    (told : OutboxItem W I → Option (JournalEntry C)) : Prop where
  tells : ∀ item ∈ journal, Tells admission content cls id canonicalId item (told item)
  honest : Honest (journal.filterMap told)

/-- An event that decides nothing about a record: an entry of the journal arrives, or other copies
are ended here. -/
def Undecided (journal : List (OutboxItem W I)) (cls : RevisionedClass) (id : I) :
    InboxEvent W I → Prop
  | .deliver item _ _ => item ∈ journal
  | .endHere c ids _ _ _ => ¬(c = cls ∧ id ∈ ids)

/-- The events are one complete pull of the journal, in its order. -/
def IsPull (journal : List (OutboxItem W I)) (events : List (InboxEvent W I)) : Prop :=
  List.Forall₂ (fun item event => ∃ now evidence, event = .deliver item now evidence) journal events

section Runs

variable {admission : Admission W registry peer}
  {content : RecordHead I J → Option (Statement J) → C} {cls : RevisionedClass} {id : I}
  {canonicalId : String} {fenced : Prop} {journal : List (OutboxItem W I)}
  {told : OutboxItem W I → Option (JournalEntry C)} {s s' : Inbox I J}

/-- Whatever decides nothing, what is held was told. -/
theorem Tracks.step {event : InboxEvent W I}
    (hjournal : PeerJournal admission content cls id canonicalId journal told)
    (hfence : ¬fenced → ∀ item ∈ journal, ¬item.ErasesId canonicalId)
    (ht : Tracks peer cls id canonicalId fenced s)
    (hview : Told (journal.filterMap told) (s.view content cls id))
    (hevent : Undecided journal cls id event)
    (h : inboxStep admission localInstanceId s event = some s') :
    Tracks peer cls id canonicalId fenced s' ∧
      Told (journal.filterMap told) (s'.view content cls id) := by
  cases event with
  | deliver item now evidence =>
    have hitem : item ∈ journal := hevent
    obtain ⟨outcome, hdeliver⟩ := deliver_eq_some.mp h
    obtain ⟨ht', hcase⟩ := ht.deliver (hjournal.tells item hitem)
      (fun hfenced => hfence hfenced item hitem) hdeliver
    refine ⟨ht', ?_⟩
    cases htold : told item with
    | none =>
      rw [htold] at hcase
      rw [show s'.view content cls id = s.view content cls id from hcase]
      exact hview
    | some e =>
      rw [htold] at hcase
      exact hview.step (List.mem_filterMap.mpr ⟨item, hitem, htold⟩) hcase
  | endHere c ids reason now lapse =>
    have hsteps := inboxStep_inboxSteps ht.ledger h
    unfold inboxStep at h
    dsimp only at h
    split_ifs at h with hlive
    cases hend : endHere registry s c ids reason now lapse with
    | error e =>
      rw [hend] at h
      cases h
    | ok s₁ =>
      rw [hend] at h
      cases h
      have hends := endHere_cases ht.ledger hlive hend
      have hframe := hends.others cls id fun heq => hevent ⟨heq.1.symm, heq.2⟩
      have hrows : RowsEndedAt s'.db ∧ s'.facts = s.facts := by
        unfold endHere at hend
        cases htomb : tombstoneRecords registry s.db c ids reason ⟨now, false, none⟩ with
        | error e =>
          rw [htomb] at hend
          cases hend
        | ok db =>
          rw [htomb] at hend
          cases hend
          exact ⟨ht.endedAt.tombstoneRecords htomb, rfl⟩
      refine ⟨⟨hsteps.inv, hrows.1, hframe.2.trans ht.notLapsed,
        fun d hd => ht.own d (hframe.1 ▸ hd), fun hfenced p => ?_⟩, ?_⟩
      · rw [hrows.2]
        exact ht.unfenced hfenced p
      · rw [view_congr hframe.1]
        exact hview

/-- A pull delivers to a record what the journal tells of it. -/
theorem Tracks.pull {journal : List (OutboxItem W I)} {events : List (InboxEvent W I)}
    (htells : ∀ item ∈ journal, Tells admission content cls id canonicalId item (told item))
    (hfence : ¬fenced → ∀ item ∈ journal, ¬item.ErasesId canonicalId)
    (ht : Tracks peer cls id canonicalId fenced s) (hpull : IsPull journal events)
    (hrun : Transition.run (inboxStep admission localInstanceId) s events = some s') :
    DeliversAll fenced (journal.filterMap told) (s.view content cls id)
      (s'.view content cls id) := by
  induction hpull generalizing s with
  | nil =>
    cases hrun
    exact .nil
  | cons hevent hrest ih =>
    rename_i item event journal events
    obtain ⟨now, evidence, rfl⟩ := hevent
    obtain ⟨t, hstep, hrun⟩ := Transition.run_cons_eq_some.mp hrun
    obtain ⟨outcome, hdeliver⟩ := deliver_eq_some.mp hstep
    obtain ⟨ht', hcase⟩ := ht.deliver (htells item List.mem_cons_self)
      (fun hfenced => hfence hfenced item List.mem_cons_self) hdeliver
    have hall := ih (fun i hi => htells i (List.mem_cons_of_mem _ hi))
      (fun hfenced i hi => hfence hfenced i (List.mem_cons_of_mem _ hi)) ht' hrun
    cases htold : told item with
    | none =>
      rw [htold] at hcase
      rw [List.filterMap_cons_none htold,
        ← show t.view content cls id = s.view content cls id from hcase]
      exact hall
    | some e =>
      rw [htold] at hcase
      rw [List.filterMap_cons_some htold]
      exact .cons hcase hall

/-- **Copies converge.** Entries of a peer's journal arrive in any order and any number of times, and
then the journal is pulled once, in its order.  Of a record whose last change nothing hinders the copy is
then live with that change's revision and content, or, where retractions follow it, ended as one of them
tells.  A record that is retracted last is not live. -/
theorem replicas_converge {s₀ s₁ s₂ : Inbox I J} {events pull : List (InboxEvent W I)}
    (hjournal : PeerJournal admission content cls id canonicalId journal told)
    (h₀ : Tracks peer cls id canonicalId False s₀) (hnone : s₀.copy cls id = none)
    (hevents : ∀ event ∈ events, Undecided journal cls id event)
    (hrun : Transition.run (inboxStep admission localInstanceId) s₀ events = some s₁)
    (hpull : IsPull journal pull)
    (hrun' : Transition.run (inboxStep admission localInstanceId) s₁ pull = some s₂) :
    (∀ before v x after, journal.filterMap told = before ++ .change v x :: after →
      Unhindered before v x after → (∀ item ∈ journal, ¬item.ErasesId canonicalId) →
        ∃ c, s₂.copy cls id = some c ∧
          (after = [] → c.reason = none ∧ c.revision = v ∧ content c.head c.statement = x) ∧
          (after ≠ [] → ∃ reason, c.reason = some reason ∧
            .retraction reason (some c.revision) ∈ after)) ∧
      ∀ before reason w, journal.filterMap told = before ++ [.retraction reason w] →
        ∀ c, s₂.copy cls id = some c → c.reason ≠ none := by
  have hbefore : ∀ fenced : Prop, (¬fenced → ∀ item ∈ journal, ¬item.ErasesId canonicalId) →
      Tracks peer cls id canonicalId fenced s₁ ∧
        Told (journal.filterMap told) (s₁.view content cls id) := by
    intro fenced hfence
    have hstart : Tracks peer cls id canonicalId fenced s₀ :=
      ⟨h₀.ledger, h₀.endedAt, h₀.notLapsed, h₀.own, fun _ => h₀.unfenced not_false⟩
    have hview : Told (journal.filterMap told) (s₀.view content cls id) := by
      rw [Inbox.view, hnone]
      exact told_none
    refine Transition.run_invariant_of_along
      (I := fun s => Tracks peer cls id canonicalId fenced s ∧
        Told (journal.filterMap told) (s.view content cls id))
      (P := fun _ event => Undecided journal cls id event)
      (fun s event s' hs hevent hstep => hs.1.step hjournal hfence hs.2 hevent hstep)
      ⟨hstart, hview⟩ (Transition.along_of_forall (fun event hevent _ => hevents event hevent) s₀)
      hrun
  refine ⟨fun before v x after hlast hunhindered herased => ?_,
    fun before reason w hlast c hc => ?_⟩
  · obtain ⟨htracks, htold⟩ := hbefore False fun _ => herased
    have hall := htracks.pull hjournal.tells (fun _ => herased) hpull hrun'
    have hhonest := hjournal.honest
    rw [hlast] at htold hall hhonest
    obtain ⟨d, hview, hlive, hended⟩ := hall.converges hhonest hunhindered htold
    obtain ⟨c, hcopy, rfl⟩ := Option.map_eq_some_iff.mp hview
    exact ⟨c, hcopy, hlive, hended⟩
  · -- A refused change leaves a record ended, so the erasures of the journal do not matter here.
    have hfence : ¬True → ∀ item ∈ journal, ¬item.ErasesId canonicalId :=
      fun hfalse => absurd trivial hfalse
    obtain ⟨htracks, htold⟩ := hbefore True hfence
    have hall := htracks.pull hjournal.tells hfence hpull hrun'
    have hhonest := hjournal.honest
    rw [hlast] at htold hall hhonest
    have hview : s₂.view content cls id = some (c.held content) := by
      rw [Inbox.view, hc, Option.map_some]
    exact hall.ended hhonest htold _ hview

end Runs

/-! ## A record in sample journals -/

/-- The same record at its third revision. -/
def reopenedRecord : SealedRecord String String :=
  { receivedRecord with
      revision := 3
      statement := { receivedRecord.statement with contentHash := "reopened", body := "reopened" } }

/-- The admission of both. -/
def journalAdmission : Admission String (plainRegistry [receivedRecord, reopenedRecord]) "peer" :=
  plainAdmission [receivedRecord, reopenedRecord] "peer"

/-- The content that is compared. -/
def bodyOf (_ : RecordHead String String) (statement : Option (Statement String)) : Option String :=
  statement.map Statement.body

/-- A change to the record at its first revision. -/
def closedEntry : OutboxItem String String := .change "closed"

/-- A change to the record at its third revision. -/
def reopenedEntry : OutboxItem String String := .change "reopened"

/-- A retraction of the record. -/
def retractedEntry (reason : String) (revision : ℕ) : OutboxItem String String :=
  .retraction ⟨some .feature, "x", some "x", reason, some revision, fun _ => rfl⟩

/-- What each of these entries tells. -/
def sampleTold : OutboxItem String String → Option (JournalEntry (Option String))
  | .change wire =>
    if wire = "closed" then some (.change 1 (some "closed")) else some (.change 3 (some "reopened"))
  | .retraction entry => some (.retraction entry.reason entry.revision)

/-- A journal of such entries. -/
def IsSampleJournal (journal : List (OutboxItem String String)) : Prop :=
  ∀ item ∈ journal, item = closedEntry ∨ item = reopenedEntry ∨
    ∃ reason revision, item = retractedEntry reason revision

/-- They tell it of the record. -/
theorem IsSampleJournal.tells {journal : List (OutboxItem String String)}
    (h : IsSampleJournal journal) : ∀ item ∈ journal,
      Tells journalAdmission bodyOf .feature "x" "x" item (sampleTold item) := by
  intro item hitem
  rcases h item hitem with rfl | rfl | ⟨reason, revision, rfl⟩
  · exact fun now => ⟨⟨receivedRecord.raw, "x", false⟩, receivedRecord,
      rfl, rfl, rfl, rfl, rfl, rfl, rfl, rfl⟩
  · exact fun now => ⟨⟨reopenedRecord.raw, "x", false⟩, reopenedRecord,
      rfl, rfl, rfl, rfl, rfl, rfl, rfl, rfl⟩
  · exact ⟨rfl, rfl, rfl, rfl⟩

/-- Changes of one revision have one content. -/
theorem IsSampleJournal.sameContent {journal : List (OutboxItem String String)}
    (h : IsSampleJournal journal) : ∀ v x y, .change v x ∈ journal.filterMap sampleTold →
      .change v y ∈ journal.filterMap sampleTold → x = y := by
  have hcases : ∀ v x, .change v x ∈ journal.filterMap sampleTold →
      (v = 1 ∧ x = some "closed") ∨ (v = 3 ∧ x = some "reopened") := by
    intro v x hmem
    obtain ⟨item, hitem, htold⟩ := List.mem_filterMap.mp hmem
    rcases h item hitem with rfl | rfl | ⟨reason, revision, rfl⟩
    · cases htold
      exact Or.inl ⟨rfl, rfl⟩
    · cases htold
      exact Or.inr ⟨rfl, rfl⟩
    · cases htold
  intro v x y hx hy
  rcases hcases v x hx with ⟨rfl, rfl⟩ | ⟨rfl, rfl⟩ <;>
    rcases hcases _ y hy with ⟨hv, rfl⟩ | ⟨hv, rfl⟩ <;> first | rfl | cases hv

/-- The delivery of an entry. -/
def deliverEntry (item : OutboxItem String String) : InboxEvent String String :=
  .deliver item deliveryNow none

/-- The inbox after entries that arrive in this order. -/
def inboxHolding (items : List (OutboxItem String String)) : Inbox String String :=
  (Transition.run (inboxStep journalAdmission "here") (.empty _ _)
    (items.map deliverEntry)).getD (.empty _ _)

/-- A pull of entries. -/
theorem isPull_map (journal : List (OutboxItem String String)) :
    IsPull journal (journal.map deliverEntry) := by
  induction journal with
  | nil => exact .nil
  | cons item journal ih => exact .cons ⟨deliveryNow, none, rfl⟩ ih

/-- An empty inbox is ready for a journal. -/
theorem tracks_empty : Tracks "peer" .feature "x" "x" False (Inbox.empty String String) where
  ledger := ledgerInv_empty
  endedAt _ _ _ h := by cases h
  notLapsed := rfl
  own _ h := by cases h
  unfenced _ _ := rfl

/-- The record is withdrawn at its first revision and reopened: the withdrawal and the first revision
arrive late, and the pull makes it live at its third. -/
theorem replicas_converge_sample :
    ∃ c, (inboxHolding [reopenedEntry, retractedEntry "withdrawn" 1, closedEntry, closedEntry,
        retractedEntry "withdrawn" 1, reopenedEntry]).copy .feature "x" = some c ∧
      c.reason = none ∧ c.revision = 3 ∧ bodyOf c.head c.statement = some "reopened" := by
  have hsample : IsSampleJournal
      [closedEntry, retractedEntry "withdrawn" 1, reopenedEntry] := by
    intro item hitem
    simp only [List.mem_cons, List.not_mem_nil, or_false] at hitem
    rcases hitem with rfl | rfl | rfl
    · exact Or.inl rfl
    · exact Or.inr (Or.inr ⟨_, _, rfl⟩)
    · exact Or.inr (Or.inl rfl)
  have herased : ∀ item ∈ [closedEntry, retractedEntry "withdrawn" 1, reopenedEntry],
      ¬OutboxItem.ErasesId item "x" := by
    rintro item hitem ⟨entry, rfl, hreason, -⟩
    simp only [closedEntry, reopenedEntry, retractedEntry, List.mem_cons, List.not_mem_nil,
      or_false, reduceCtorEq, false_or, OutboxItem.retraction.injEq] at hitem
    subst hitem
    exact absurd hreason (by decide)
  have hunhindered : Unhindered [.change 1 (some "closed"), .retraction "withdrawn" (some 1)] 3
      (some "reopened") [] :=
    ⟨by simp, by simp [decidedTombstoneReasons], by simp [erasureReason], by simp⟩
  obtain ⟨c, hc, hlive, -⟩ := (@replicas_converge String String String (Option String) _
    (plainRegistry [receivedRecord, reopenedRecord]) "peer" "here" journalAdmission bodyOf .feature
    "x" "x" [closedEntry, retractedEntry "withdrawn" 1, reopenedEntry] sampleTold (.empty _ _)
    (inboxHolding [reopenedEntry, retractedEntry "withdrawn" 1, closedEntry])
    (inboxHolding [reopenedEntry, retractedEntry "withdrawn" 1, closedEntry, closedEntry,
      retractedEntry "withdrawn" 1, reopenedEntry])
    ([reopenedEntry, retractedEntry "withdrawn" 1, closedEntry].map deliverEntry)
    ([closedEntry, retractedEntry "withdrawn" 1, reopenedEntry].map deliverEntry)
    ⟨hsample.tells, by decide, hsample.sameContent⟩ tracks_empty rfl
    (by simp [Undecided, deliverEntry]) rfl (isPull_map _) rfl).1 _ _ _ _ rfl hunhindered herased
  exact ⟨c, hc, hlive rfl⟩

/-- What is held is what the last entry gives: the content and the revision of a change, or the
revision of a retraction, and that it ended. -/
def HoldsLast {C : Type} : Option (JournalEntry C) → Option (Held C) → Prop
  | none, h => h = none
  | some (.change v x), h => h = some ⟨v, none, x⟩
  | some (.retraction _ w), h => ∃ c, h = some c ∧ c.reason.isSome = true ∧ w = some c.revision

/-- Entries of a sample journal arrive early, and after the pull of the journal what is held is not
what its last entry gives. -/
def Diverges (early journal : List (OutboxItem String String)) : Prop :=
  IsSampleJournal journal ∧ (∀ item ∈ early, item ∈ journal) ∧
    Transition.run (inboxStep journalAdmission "here") (.empty _ _)
        ((early ++ journal).map deliverEntry) = some (inboxHolding (early ++ journal)) ∧
      ¬HoldsLast (journal.filterMap sampleTold).getLast?
        ((inboxHolding (early ++ journal)).view bodyOf .feature "x")

/-- **What a journal tells last is not always held.** A record that ended before is not ended again at
a later revision; one that was rejected is not revived; of one whose erasure arrives first nothing is
held; and an older change that follows a newer one changes nothing. -/
theorem replicas_diverge :
    Diverges [] [closedEntry, retractedEntry "withdrawn" 1, retractedEntry "expired" 2] ∧
      Diverges [] [closedEntry, retractedEntry "rejected" 2, reopenedEntry] ∧
        Diverges [retractedEntry erasureReason 2] [closedEntry, retractedEntry erasureReason 2] ∧
          Diverges [] [reopenedEntry, closedEntry] := by
  have hmember : ∀ {item : OutboxItem String String},
      item = closedEntry ∨ item = reopenedEntry ∨ (∃ reason revision,
        item = retractedEntry reason revision) → ∀ {journal}, IsSampleJournal journal →
          IsSampleJournal (item :: journal) := fun hitem _ hjournal other hother =>
    (List.mem_cons.mp hother).elim (fun heq => heq ▸ hitem) (hjournal other)
  have hnil : IsSampleJournal [] := fun _ h => absurd h List.not_mem_nil
  have hclosed := fun {journal} => @hmember closedEntry (Or.inl rfl) journal
  have hreopened := fun {journal} => @hmember reopenedEntry (Or.inr (Or.inl rfl)) journal
  have hretracted := fun reason revision {journal} =>
    @hmember (retractedEntry reason revision) (Or.inr (Or.inr ⟨_, _, rfl⟩)) journal
  refine ⟨⟨hclosed (hretracted _ _ (hretracted _ _ hnil)), by simp, rfl, ?_⟩,
    ⟨hclosed (hretracted _ _ (hreopened hnil)), by simp, rfl, ?_⟩,
    ⟨hclosed (hretracted _ _ hnil), by simp, rfl, ?_⟩,
    ⟨hreopened (hclosed hnil), by simp, rfl, ?_⟩⟩
  · rintro ⟨c, hc, -, hrevision⟩
    obtain rfl : c = ⟨1, some "withdrawn", some "closed"⟩ := (Option.some.inj hc).symm
    cases hrevision
  · intro h
    cases congrArg (fun h => h.map Held.revision) h
  · rintro ⟨c, hc, -⟩
    cases hc
  · intro h
    cases congrArg (fun h => h.map Held.revision) h

end OpenConditions.Federation

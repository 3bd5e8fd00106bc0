import OpenConditions.Pipeline.BindRecords
import Mathlib.Data.Nat.Basic

set_option relaxedAutoImplicit false
set_option autoImplicit false

/-!
# When binding work is kept

A pass reads a situation once and settles its queue row at the end, up to the revision stored by
then.  When a writer commits in between, the row of the new revision is acknowledged unbound.  A
pass also drops bindings by what it read: when a writer and another pass come in between, a binding
that was written for the new revision is dropped.  Runs in which no pass is outrun so keep all
binding work.

## Main definitions

* `NotOutrun`, `InTime` — what a pass acknowledges and drops, it has read as it is stored.
* `BindFrame` — what a step leaves of the bindings of a situation.
* `StageInv` — what a pass knows of the bindings of the situations it has read.

## Main results

* `BindInv.step` — what each step of writers and passes keeps.
* `work_kept` — no binding work is lost while no pass is outrun.
-/

namespace OpenConditions.Pipeline

variable {J I D : Type} {R : Resolver J I D} {db db' : BindDb J D}

/-! ## Stored situations -/

/-- A situation is stored. -/
def Stored (db : BindDb J D) (row : SituationRow J) : Prop :=
  db.situations.get row.id = some row

/-- One revision of a situation is stored. -/
theorem Stored.unique {row row' : SituationRow J} (h : Stored db row) (h' : Stored db row')
    (hid : row.id = row'.id) : row = row' := by
  rw [Stored, hid, h'] at h
  exact (Option.some_inj.mp h).symm

/-- A target is of its situation and its revision. -/
theorem target_of_mem {row : SituationRow J} {t : Target I} (h : t ∈ targetsOf R row) :
    t.recordId = row.id ∧ t.revision = row.revision := by
  unfold targetsOf at h
  simp only [List.mem_append, List.mem_map, List.mem_flatMap] at h
  rcases h with (⟨g, -, rfl⟩ | ⟨o, -, rfl⟩) | ⟨g, -, ⟨d, -, rfl⟩ | ⟨e, -, rfl⟩⟩ <;>
    exact ⟨rfl, rfl⟩

/-- A step of a pass is not outrun by the writers: the pass drops no binding of a location that its
situation has by then, and acknowledges queued work only of situations that it has read at the
revision stored by then. -/
def NotOutrun (R : Resolver J I D) (db : BindDb J D) (pass : Pass J I D) : BindEvent J → Prop
  | .clear _ => ∀ rows existing, pass.stage = .existingRead rows existing →
      ∀ row, Stored db row → ∀ effectId, existing.has (row.id, effectId) = true →
        (row.id, effectId) ∉ liveKeys R rows → ¬IsTarget R row effectId
  | .settle _ => ∀ rows existing todo retry unfinished,
      pass.stage = .resolving rows existing todo retry unfinished →
      ∀ row, Stored db row → row.id ∈ doneIds pass.ids retry unfinished →
        db.queue.has row.id = true → ∃ r ∈ rows, r.id = row.id ∧ r.revision = row.revision
  | _ => True

/-- The condition on the steps of a run: no step is one of an outrun pass. -/
def InTime (R : Resolver J I D) (s : BindState J I D) (event : BindEvent J) : Prop :=
  ∀ p pass, event.pass? = some p → s.passes.get p = some pass → NotOutrun R s.db pass event

/-! ## What a step leaves -/

/-- What a step leaves of the situations and their bindings: a situation stays or is replaced by a
newer revision, and while it stays, a target that is bound stays bound and no binding without a
target appears. -/
structure BindFrame (R : Resolver J I D) (db db' : BindDb J D) : Prop where
  stored : ∀ row, Stored db row →
    Stored db' row ∨ ∃ row', Stored db' row' ∧ row'.id = row.id ∧ row.revision < row'.revision
  bound : ∀ row, Stored db row → Stored db' row → ∀ effectId, IsTarget R row effectId →
    BoundAt db row.id effectId row.revision → BoundAt db' row.id effectId row.revision
  stray : ∀ row, Stored db row → Stored db' row → ∀ effectId, ¬IsTarget R row effectId →
    db.bindings.get (row.id, effectId) = none → db'.bindings.get (row.id, effectId) = none

/-- Steps that change neither the situations nor the bindings. -/
theorem BindFrame.of_eq (hsit : db'.situations = db.situations)
    (hbind : db'.bindings = db.bindings) : BindFrame R db db' := by
  refine ⟨fun row h => Or.inl ?_, fun row _ _ effectId _ h => ?_, fun row _ _ effectId _ h => ?_⟩
  · rw [Stored, hsit]
    exact h
  · rw [BoundAt, hbind]
    exact h
  · rw [hbind]
    exact h

/-- A bound situation stays bound while it is stored. -/
theorem Bound.frame {row : SituationRow J} (h : Bound R db row) (hframe : BindFrame R db db')
    (hdb : Stored db row) (hdb' : Stored db' row) : Bound R db' row :=
  ⟨fun effectId ht => hframe.bound row hdb hdb' effectId ht (h.written effectId ht),
    fun effectId ht => hframe.stray row hdb hdb' effectId ht (h.only effectId ht)⟩

/-- A result that is not written leaves the tables. -/
theorem writeResult_of_false {t : Target I} {r : BindResult D}
    (h : (writeResult R db t r).2 = false) : (writeResult R db t r).1 = db := by
  unfold writeResult at h ⊢
  cases hget : db.situations.get t.recordId with
  | none => rfl
  | some current =>
    by_cases hrevision : current.revision = t.revision
    · simp [hget, hrevision] at h
    · simp only [hrevision, if_false]

/-- A result that is written binds its target at its revision. -/
theorem boundAt_writeResult {t : Target I} {r : BindResult D}
    (h : (writeResult R db t r).2 = true) :
    BoundAt (writeResult R db t r).1 t.recordId t.effectId t.revision := by
  unfold writeResult at h ⊢
  cases hget : db.situations.get t.recordId with
  | none => simp [hget] at h
  | some current =>
    by_cases hrevision : current.revision = t.revision
    · simp only [hrevision, if_true]
      exact ⟨_, OrderedMap.get_set_self .., rfl⟩
    · simp [hget, hrevision] at h

/-- A write leaves the bindings. -/
theorem frame_writeSituation {row : SituationRow J}
    (hnew : ∀ stored, db.situations.get row.id = some stored → stored.revision < row.revision) :
    BindFrame R db (writeSituation db row) := by
  refine ⟨fun old hold => ?_, fun _ _ _ _ _ h => h, fun _ _ _ _ _ h => h⟩
  unfold Stored writeSituation
  by_cases hid : old.id = row.id
  · refine Or.inr ⟨row, by rw [OrderedMap.get_set_self], hid.symm, hnew old ?_⟩
    rw [← hid]
    exact hold
  · refine Or.inl ?_
    rw [OrderedMap.get_set_of_ne _ _ hid]
    exact hold

/-- Dropping bindings leaves those of the locations that situations have. -/
theorem frame_clearStale {existing : OrderedMap BindingKey (Binding D)} {live : List BindingKey}
    (hlive : ∀ row, Stored db row → ∀ effectId, existing.has (row.id, effectId) = true →
      (row.id, effectId) ∉ live → ¬IsTarget R row effectId) :
    BindFrame R db (clearStale db existing live) := by
  refine ⟨fun row h => Or.inl h, fun row hrow _ effectId ht h => ?_,
    fun row _ _ effectId _ h => ?_⟩
  · obtain ⟨b, hb, hrevision⟩ := h
    refine ⟨b, ?_, hrevision⟩
    have hkept : (!(existing.has (row.id, effectId) && !live.contains (row.id, effectId))) =
        true := by
      rw [Bool.not_eq_true', Bool.and_eq_false_iff]
      by_cases hhas : existing.has (row.id, effectId) = true
      · rw [Bool.not_eq_false', List.contains_iff_mem]
        exact Or.inr (by_contra fun hnot => hlive row hrow effectId hhas hnot ht)
      · exact Or.inl (Bool.eq_false_iff.mpr hhas)
    simp only [clearStale, OrderedMap.get_filter, hb, Option.filter_some, hkept, if_true]
  · simp only [clearStale, OrderedMap.get_filter, h, Option.filter_none]

/-- Writing the result of a target of the stored revision leaves the other bindings. -/
theorem frame_writeResult {t : Target I} {r : BindResult D}
    (htarget : ∀ row, Stored db row → row.id = t.recordId → row.revision = t.revision →
      t ∈ targetsOf R row)
    (hkeyed : ∀ id row, db.situations.get id = some row → row.id = id) :
    BindFrame R db (writeResult R db t r).1 := by
  unfold writeResult
  cases hget : db.situations.get t.recordId with
  | none => exact .of_eq rfl rfl
  | some current =>
    by_cases hrevision : current.revision = t.revision
    · simp only [hrevision, if_true]
      have hid := hkeyed _ _ hget
      have hcurrent : Stored db current := by rw [Stored, hid, hget]
      have hmem := htarget current hcurrent hid hrevision
      refine ⟨fun row h => Or.inl h, fun row hrow _ effectId _ h => ?_,
        fun row hrow _ effectId hnot h => ?_⟩
      · unfold BoundAt
        rw [OrderedMap.get_set]
        by_cases hkey : (row.id, effectId) = (t.recordId, t.effectId)
        · rw [if_pos hkey]
          rw [Prod.mk.injEq] at hkey
          have hsame := hrow.unique hcurrent (hkey.1.trans hid.symm)
          exact ⟨_, rfl, by rw [hsame, hrevision]⟩
        · rw [if_neg hkey]
          exact h
      · have hkey : (row.id, effectId) ≠ (t.recordId, t.effectId) := by
          intro hkey
          rw [Prod.mk.injEq] at hkey
          rw [hrow.unique hcurrent (hkey.1.trans hid.symm)] at hnot
          exact hnot ⟨t, hmem, hkey.2.symm⟩
        rw [OrderedMap.get_set_of_ne _ _ hkey]
        exact h
    · simp only [hrevision, if_false]
      exact .of_eq rfl rfl

/-! ## What a pass knows -/

/-- The situations a pass has read: each is still stored, or a newer revision of it is. -/
structure RowsInv (db : BindDb J D) (ids : List String) (rows : List (SituationRow J)) : Prop where
  mem_ids : ∀ r ∈ rows, r.id ∈ ids
  distinct : ∀ r ∈ rows, ∀ r' ∈ rows, r.id = r'.id → r = r'
  seen : ∀ r ∈ rows,
    Stored db r ∨ ∃ row, Stored db row ∧ row.id = r.id ∧ r.revision < row.revision

/-- A binding that was read at the stored revision still stands. -/
def ExistingInv (R : Resolver J I D) (db : BindDb J D)
    (existing : OrderedMap BindingKey (Binding D)) (row : SituationRow J) : Prop :=
  ∀ effectId b, existing.get (row.id, effectId) = some b → b.recordRevision = row.revision →
    IsTarget R row effectId → BoundAt db row.id effectId row.revision

/-- What a pass knows at each stage of the situations that are stored as it has read them. -/
def StageInv (R : Resolver J I D) (db : BindDb J D) (ids : List String) : Stage J I D → Prop
  | .started => True
  | .rowsRead rows => RowsInv db ids rows
  | .existingRead rows existing => RowsInv db ids rows ∧
      ∀ row ∈ rows, Stored db row → ExistingInv R db existing row ∧
        ∀ effectId, ¬IsTarget R row effectId → existing.has (row.id, effectId) = true ∨
          db.bindings.get (row.id, effectId) = none
  | .resolving rows existing todo _ unfinished => RowsInv db ids rows ∧
      (∀ t ∈ todo, ∃ r ∈ rows, t ∈ targetsOf R r) ∧
      ∀ row ∈ rows, Stored db row → ExistingInv R db existing row ∧
        (∀ effectId, ¬IsTarget R row effectId → db.bindings.get (row.id, effectId) = none) ∧
        ∀ t ∈ targetsOf R row, t ∈ todo ∨ row.id ∈ unfinished ∨
          BoundAt db row.id t.effectId row.revision

section Knowledge

variable {ids : List String} {rows : List (SituationRow J)} {row : SituationRow J}

/-- A situation of the stored revision is stored as it was read. -/
theorem RowsInv.mem_of_revision (h : RowsInv db ids rows) {r : SituationRow J} (hr : r ∈ rows)
    (hrow : Stored db row) (hid : r.id = row.id) (hrevision : r.revision = row.revision) :
    row ∈ rows := by
  rcases h.seen r hr with hstored | ⟨newer, hnewer, hnewerId, hlt⟩
  · rw [← hstored.unique hrow hid]
    exact hr
  · rw [hnewer.unique hrow (hnewerId.trans hid), hrevision] at hlt
    exact absurd hlt (lt_irrefl _)

/-- A situation that is stored as it was read was stored so before. -/
theorem RowsInv.stored_before (h : RowsInv db ids rows) (hframe : BindFrame R db db')
    (hr : row ∈ rows) (hrow : Stored db' row) : Stored db row := by
  rcases h.seen row hr with hstored | ⟨newer, hnewer, hid, hlt⟩
  · exact hstored
  · rcases hframe.stored newer hnewer with hkept | ⟨newest, hnewest, hid', hlt'⟩
    · rw [hkept.unique hrow hid] at hlt
      exact absurd hlt (lt_irrefl _)
    · rw [hnewest.unique hrow (hid'.trans hid)] at hlt'
      omega

/-- Steps leave what was read as it is, or write newer revisions. -/
theorem RowsInv.frame (h : RowsInv db ids rows) (hframe : BindFrame R db db') :
    RowsInv db' ids rows := by
  refine ⟨h.mem_ids, h.distinct, fun r hr => ?_⟩
  rcases h.seen r hr with hstored | ⟨newer, hnewer, hid, hlt⟩
  · rcases hframe.stored r hstored with hkept | ⟨newer, hnewer, hid, hlt⟩
    · exact Or.inl hkept
    · exact Or.inr ⟨newer, hnewer, hid, hlt⟩
  · rcases hframe.stored newer hnewer with hkept | ⟨newest, hnewest, hid', hlt'⟩
    · exact Or.inr ⟨newer, hkept, hid, hlt⟩
    · exact Or.inr ⟨newest, hnewest, hid'.trans hid, Nat.lt_trans hlt hlt'⟩

/-- Steps leave the bindings that were read at the stored revision. -/
theorem ExistingInv.frame {existing : OrderedMap BindingKey (Binding D)}
    (h : ExistingInv R db existing row) (hframe : BindFrame R db db') (hdb : Stored db row)
    (hdb' : Stored db' row) : ExistingInv R db' existing row :=
  fun effectId b hb hrevision ht =>
    hframe.bound row hdb hdb' effectId ht (h effectId b hb hrevision ht)

/-- What a pass knows, it still knows after any step. -/
theorem StageInv.frame {stage : Stage J I D} (h : StageInv R db ids stage)
    (hframe : BindFrame R db db') : StageInv R db' ids stage := by
  cases stage with
  | started => trivial
  | rowsRead rows => exact RowsInv.frame h hframe
  | existingRead rows existing =>
    refine ⟨h.1.frame hframe, fun row hrow hdb' => ?_⟩
    have hdb := h.1.stored_before hframe hrow hdb'
    obtain ⟨hexisting, hstray⟩ := h.2 row hrow hdb
    refine ⟨hexisting.frame hframe hdb hdb', fun effectId hnot => ?_⟩
    rcases hstray effectId hnot with hhas | hnone
    · exact Or.inl hhas
    · exact Or.inr (hframe.stray row hdb hdb' effectId hnot hnone)
  | resolving rows existing todo retry unfinished =>
    refine ⟨h.1.frame hframe, h.2.1, fun row hrow hdb' => ?_⟩
    have hdb := h.1.stored_before hframe hrow hdb'
    obtain ⟨hexisting, hstray, htodo⟩ := h.2.2 row hrow hdb
    refine ⟨hexisting.frame hframe hdb hdb', fun effectId hnot => ?_, fun t ht => ?_⟩
    · exact hframe.stray row hdb hdb' effectId hnot (hstray effectId hnot)
    · rcases htodo t ht with hleft | hunfinished | hbound
      · exact Or.inl hleft
      · exact Or.inr (Or.inl hunfinished)
      · exact Or.inr (Or.inr (hframe.bound row hdb hdb' t.effectId ⟨t, ht, rfl⟩ hbound))

end Knowledge

/-! ## Steps of a pass -/

section PassSteps

variable {ids : List String} {rows : List (SituationRow J)} {row : SituationRow J}
  {existing : OrderedMap BindingKey (Binding D)} {todo : List (Target I)}
  {retry unfinished : List String}

/-- Every situation is stored under its own id. -/
def Keyed (db : BindDb J D) : Prop := ∀ id row, db.situations.get id = some row → row.id = id

/-- A value of a map is the value of a key. -/
theorem stored_of_mem_values (hkeyed : Keyed db)
    (h : row ∈ db.situations.entries.map Prod.snd) : Stored db row := by
  obtain ⟨⟨id, row'⟩, hmem, rfl⟩ := List.mem_map.mp h
  have hget := db.situations.get_eq_some_iff.mpr hmem
  rw [Stored, hkeyed id row' hget]
  exact hget

/-- What is read is stored. -/
theorem rowsInv_read (hkeyed : Keyed db) (ids : List String) :
    RowsInv db ids ((db.situations.entries.map Prod.snd).filter fun r => decide (r.id ∈ ids)) := by
  have hstored : ∀ r ∈ (db.situations.entries.map Prod.snd).filter fun r => decide (r.id ∈ ids),
      Stored db r ∧ r.id ∈ ids := by
    intro r hr
    rw [List.mem_filter, decide_eq_true_iff] at hr
    exact ⟨stored_of_mem_values hkeyed hr.1, hr.2⟩
  exact ⟨fun r hr => (hstored r hr).2,
    fun r hr r' hr' hid => (hstored r hr).1.unique (hstored r' hr').1 hid,
    fun r hr => Or.inl (hstored r hr).1⟩

/-- What a pass knows once it has read the bindings. -/
theorem stageInv_readExisting (h : RowsInv db ids rows) :
    StageInv R db ids (.existingRead rows (db.bindings.filter fun b => decide (b.1.1 ∈ ids)) :
      Stage J I D) := by
  refine ⟨h, fun row hrow _ => ⟨fun effectId b hb hrevision _ => ?_, fun effectId _ => ?_⟩⟩
  · rw [OrderedMap.get_filter] at hb
    exact ⟨b, (Option.filter_eq_some_iff.mp hb).1, hrevision⟩
  · cases hget : db.bindings.get (row.id, effectId) with
    | none => exact Or.inr rfl
    | some b =>
      refine Or.inl ?_
      rw [OrderedMap.has, OrderedMap.get_filter, hget, Option.filter_some,
        if_pos (decide_eq_true (h.mem_ids row hrow))]
      rfl

/-- What a pass knows once it has dropped the bindings without a target. -/
theorem stageInv_clear (h : StageInv R db ids (.existingRead rows existing : Stage J I D))
    (hframe : BindFrame R db (clearStale db existing (liveKeys R rows))) :
    StageInv R (clearStale db existing (liveKeys R rows)) ids
      (.resolving rows existing (passTargets R rows) [] []) := by
  refine ⟨h.1.frame hframe, fun t ht => List.mem_flatMap.mp ht, fun row hrow hdb' => ?_⟩
  have hdb := h.1.stored_before hframe hrow hdb'
  obtain ⟨hexisting, hstray⟩ := h.2 row hrow hdb
  refine ⟨hexisting.frame hframe hdb hdb', fun effectId hnot => ?_, fun t ht => ?_⟩
  · rcases hstray effectId hnot with hhas | hnone
    · have hdead : (row.id, effectId) ∉ liveKeys R rows := by
        intro hlive
        obtain ⟨t, ht, hkey⟩ := List.mem_map.mp hlive
        obtain ⟨r, hr, htr⟩ := List.mem_flatMap.mp ht
        rw [Prod.mk.injEq] at hkey
        have hid : r.id = row.id := (target_of_mem htr).1.symm.trans hkey.1
        rw [h.1.distinct r hr row hrow hid] at htr
        exact hnot ⟨t, htr, hkey.2⟩
      rw [← List.contains_iff_mem, Bool.not_eq_true] at hdead
      simp only [clearStale, OrderedMap.get_filter, hhas, hdead, Bool.not_false, Bool.and_self,
        Bool.not_true]
      cases db.bindings.get (row.id, effectId) <;> rfl
    · exact hframe.stray row hdb hdb' effectId hnot hnone
  · exact Or.inl (List.mem_flatMap.mpr ⟨row, hrow, ht⟩)

/-- What one target's turn does: it was bound as it is; or nothing is written and it is left
unfinished; or its result is written. -/
theorem bindTarget_cases (db : BindDb J D) (existing : OrderedMap BindingKey (Binding D))
    (t : Target I) (resolverFails writeFails : Bool) :
    (isUnchanged R (existing.get (t.recordId, t.effectId)) t = true ∧
      bindTarget R db existing t resolverFails writeFails = (db, false, false)) ∨
    (∃ again, bindTarget R db existing t resolverFails writeFails = (db, again, true)) ∨
    ∃ r again, bindTarget R db existing t resolverFails writeFails =
      ((writeResult R db t r).1, again, false) ∧ (writeResult R db t r).2 = true := by
  unfold bindTarget
  by_cases hsame : isUnchanged R (existing.get (t.recordId, t.effectId)) t = true
  · exact Or.inl ⟨hsame, by rw [if_pos hsame]⟩
  · rw [if_neg hsame]
    cases writeFails with
    | true => exact Or.inr (Or.inl ⟨_, rfl⟩)
    | false =>
      cases hwritten : (writeResult R db t (resolveTarget R t resolverFails)).2 with
      | true =>
        refine Or.inr (Or.inr ⟨resolveTarget R t resolverFails,
          decide ((resolveTarget R t resolverFails).reason = some "resolver_error"), ?_, hwritten⟩)
        simp only [hwritten, Bool.false_eq_true, if_false, Bool.not_true]
      | false =>
        refine Or.inr (Or.inl
          ⟨decide ((resolveTarget R t resolverFails).reason = some "resolver_error"), ?_⟩)
        simp only [hwritten, Bool.false_eq_true, if_false, Bool.not_false,
          writeResult_of_false hwritten]

/-- One target's turn leaves the other bindings. -/
theorem frame_bindTarget (existing : OrderedMap BindingKey (Binding D)) (hkeyed : Keyed db)
    (h : RowsInv db ids rows) {t : Target I}
    (ht : ∃ r ∈ rows, t ∈ targetsOf R r) (resolverFails writeFails : Bool) :
    BindFrame R db (bindTarget R db existing t resolverFails writeFails).1 := by
  rcases bindTarget_cases (R := R) db existing t resolverFails writeFails with
    ⟨-, heq⟩ | ⟨again, heq⟩ | ⟨r, again, heq, -⟩
  · rw [heq]
    exact .of_eq rfl rfl
  · rw [heq]
    exact .of_eq rfl rfl
  · rw [heq]
    refine frame_writeResult (fun row hrow hid hrevision => ?_) hkeyed
    obtain ⟨r', hr', htr⟩ := ht
    obtain ⟨hid', hrevision'⟩ := target_of_mem htr
    have hmem := h.mem_of_revision hr' hrow (hid'.symm.trans hid.symm)
      (hrevision'.symm.trans hrevision.symm)
    rw [h.distinct row hmem r' hr' (hid.trans hid')]
    exact htr

/-- After its turn a target is bound, or its record is unfinished. -/
theorem bound_or_unfinished {t : Target I} (ht : t ∈ targetsOf R row)
    (hexisting : ExistingInv R db existing row) (resolverFails writeFails : Bool) :
    (bindTarget R db existing t resolverFails writeFails).2.2 = true ∨
      BoundAt (bindTarget R db existing t resolverFails writeFails).1 row.id t.effectId
        row.revision := by
  obtain ⟨hid, hrevision⟩ := target_of_mem ht
  rcases bindTarget_cases (R := R) db existing t resolverFails writeFails with
    ⟨hsame, heq⟩ | ⟨again, heq⟩ | ⟨r, again, heq, hwritten⟩
  · rw [heq]
    refine Or.inr ?_
    unfold isUnchanged at hsame
    rw [Option.any_eq_true] at hsame
    obtain ⟨b, hb, hfields⟩ := hsame
    rw [decide_eq_true_iff] at hfields
    rw [hid] at hb
    exact hexisting t.effectId b hb (hfields.2.2.2.1.trans hrevision) ⟨t, ht, rfl⟩
  · rw [heq]
    exact Or.inl rfl
  · rw [heq]
    rw [← hid, ← hrevision]
    exact Or.inr (boundAt_writeResult hwritten)

/-- What a pass knows after one target's turn. -/
theorem stageInv_bind (hkeyed : Keyed db)
    (h : StageInv R db ids (.resolving rows existing todo retry unfinished : Stage J I D))
    {i : ℕ} {t : Target I} (hi : todo[i]? = some t) (resolverFails writeFails : Bool)
    (retry' : List String) :
    StageInv R (bindTarget R db existing t resolverFails writeFails).1 ids
      (.resolving rows existing (todo.eraseIdx i) retry'
        (if (bindTarget R db existing t resolverFails writeFails).2.2 then
          t.recordId :: unfinished else unfinished)) := by
  have ht := h.2.1 t (List.mem_of_getElem? hi)
  have hframe := frame_bindTarget existing hkeyed h.1 ht resolverFails writeFails
  have hmore : ∀ id ∈ unfinished,
      id ∈ if (bindTarget R db existing t resolverFails writeFails).2.2 then
        t.recordId :: unfinished else unfinished := by
    intro id hid
    by_cases hleft : (bindTarget R db existing t resolverFails writeFails).2.2 = true
    · rw [if_pos hleft]
      exact List.mem_cons_of_mem _ hid
    · rw [if_neg hleft]
      exact hid
  refine ⟨h.1.frame hframe, fun u hu => h.2.1 u (List.mem_of_mem_eraseIdx hu),
    fun row hrow hdb' => ?_⟩
  have hdb := h.1.stored_before hframe hrow hdb'
  obtain ⟨hexisting, hstray, htodo⟩ := h.2.2 row hrow hdb
  refine ⟨hexisting.frame hframe hdb hdb', fun effectId hnot => ?_, fun u hu => ?_⟩
  · exact hframe.stray row hdb hdb' effectId hnot (hstray effectId hnot)
  · by_cases hut : u = t
    · subst hut
      rcases bound_or_unfinished hu hexisting resolverFails writeFails with hleft | hbound
      · rw [if_pos hleft, (target_of_mem hu).1]
        exact Or.inr (Or.inl (List.mem_cons_self ..))
      · exact Or.inr (Or.inr hbound)
    · rcases htodo u hu with hleft | hunfinished | hbound
      · refine Or.inl ?_
        rw [List.mem_eraseIdx_iff_getElem?]
        obtain ⟨j, hj⟩ := List.getElem?_of_mem hleft
        refine ⟨j, fun hij => hut ?_, hj⟩
        rw [hij, hi] at hj
        exact (Option.some_inj.mp hj).symm
      · exact Or.inr (Or.inl (hmore _ hunfinished))
      · exact Or.inr (Or.inr (hframe.bound row hdb hdb' u.effectId ⟨u, hu, rfl⟩ hbound))

/-- What is settled is bound. -/
theorem work_settle (hkeyed : Keyed db) (hwork : WorkKept R db)
    (h : StageInv R db ids (.resolving rows existing [] retry unfinished : Stage J I D))
    (hread : ∀ row, Stored db row → row.id ∈ doneIds ids retry unfinished →
      db.queue.has row.id = true → ∃ r ∈ rows, r.id = row.id ∧ r.revision = row.revision) :
    WorkKept R (settleQueue db ids retry unfinished) := by
  intro id row hrow hqueue
  have hid := hkeyed id row hrow
  have hdb : Stored db row := by rw [Stored, hid]; exact hrow
  suffices hbound : Bound R db row from hbound.frame (.of_eq rfl rfl) hdb hdb
  cases hq : db.queue.get id with
  | none => exact hwork id row hrow hq
  | some q =>
    have hdone : id ∈ doneIds ids retry unfinished := by
      by_contra hnot
      simp [settleQueue, OrderedMap.get_mapValues, OrderedMap.get_filter, hq, hnot] at hqueue
    obtain ⟨r, hr, hrid, hrevision⟩ := hread row hdb (hid.symm ▸ hdone)
      (by rw [OrderedMap.has, hid, hq]; rfl)
    obtain ⟨-, hstray, htodo⟩ := h.2.2 row (h.1.mem_of_revision hr hdb hrid hrevision) hdb
    refine ⟨fun effectId ht => ?_, hstray⟩
    obtain ⟨t, ht, rfl⟩ := ht
    rcases htodo t ht with hleft | hunfinished | hbound
    · cases hleft
    · rw [hid] at hunfinished
      exact absurd hunfinished (of_decide_eq_true (List.mem_filter.mp hdone).2).2
    · exact hbound

end PassSteps

/-! ## Runs -/

section Runs

variable {s s' : BindState J I D} {event : BindEvent J}

/-- A step that leaves the queue and the situations keeps the work it leaves bound. -/
theorem work_frame (hkeyed : Keyed db) (hwork : WorkKept R db) (hframe : BindFrame R db db')
    (hsit : db'.situations = db.situations) (hqueue : db'.queue = db.queue) :
    WorkKept R db' := by
  intro id row hrow hnone
  have hdb' : Stored db' row := by
    rw [Stored, hkeyed id row (hsit ▸ hrow)]
    exact hrow
  rw [hsit] at hrow
  rw [hqueue] at hnone
  have hdb : Stored db row := by
    rw [Stored, hkeyed id row hrow]
    exact hrow
  exact (hwork id row hrow hnone).frame hframe hdb hdb'

/-- One target's turn leaves the situations and the queue. -/
theorem bindTarget_tables (db : BindDb J D) (existing : OrderedMap BindingKey (Binding D))
    (t : Target I) (resolverFails writeFails : Bool) :
    (bindTarget R db existing t resolverFails writeFails).1.situations = db.situations ∧
      (bindTarget R db existing t resolverFails writeFails).1.queue = db.queue := by
  have hwrite (r : BindResult D) : (writeResult R db t r).1.situations = db.situations ∧
      (writeResult R db t r).1.queue = db.queue := by
    unfold writeResult
    cases db.situations.get t.recordId with
    | none => exact ⟨rfl, rfl⟩
    | some current =>
      by_cases hrevision : current.revision = t.revision
      · simp only [hrevision, if_true, and_self]
      · simp only [hrevision, if_false, and_self]
  rcases bindTarget_cases (R := R) db existing t resolverFails writeFails with
    ⟨-, heq⟩ | ⟨again, heq⟩ | ⟨r, again, heq, -⟩
  · rw [heq]
    exact ⟨rfl, rfl⟩
  · rw [heq]
    exact ⟨rfl, rfl⟩
  · rw [heq]
    exact hwrite r

/-- **One step of a pass.** It keeps the situations, what other passes know, the work that is kept,
and what the pass knows. -/
theorem passStep_inv {pass : Pass J I D} {pass' : Option (Pass J I D)} (hkeyed : Keyed db)
    (hwork : WorkKept R db) (h : StageInv R db pass.ids pass.stage)
    (htime : NotOutrun R db pass event) (hstep : passStep R db pass event = some (db', pass')) :
    db'.situations = db.situations ∧ BindFrame R db db' ∧ WorkKept R db' ∧
      ∀ q, pass' = some q → StageInv R db' q.ids q.stage := by
  obtain ⟨ids, stage⟩ := pass
  cases event with
  | write row => cases hstep
  | start p ids => cases hstep
  | readRows p =>
    cases stage with
    | started =>
      simp only [passStep, Option.some.injEq, Prod.mk.injEq] at hstep
      obtain ⟨rfl, rfl⟩ := hstep
      refine ⟨rfl, .of_eq rfl rfl, hwork, fun q hq => ?_⟩
      cases hq
      exact rowsInv_read hkeyed ids
    | rowsRead | existingRead | resolving => cases hstep
  | readExisting p =>
    cases stage with
    | rowsRead rows =>
      simp only [passStep, Option.some.injEq, Prod.mk.injEq] at hstep
      obtain ⟨rfl, rfl⟩ := hstep
      refine ⟨rfl, .of_eq rfl rfl, hwork, fun q hq => ?_⟩
      cases hq
      exact stageInv_readExisting h
    | started | existingRead | resolving => cases hstep
  | clear p =>
    cases stage with
    | existingRead rows existing =>
      simp only [passStep, Option.some.injEq, Prod.mk.injEq] at hstep
      obtain ⟨rfl, rfl⟩ := hstep
      have hframe : BindFrame R db (clearStale db existing (liveKeys R rows)) :=
        frame_clearStale (htime rows existing rfl)
      refine ⟨rfl, hframe, work_frame hkeyed hwork hframe rfl rfl, fun q hq => ?_⟩
      cases hq
      exact stageInv_clear h hframe
    | started | rowsRead | resolving => cases hstep
  | bind p i resolverFails writeFails =>
    cases stage with
    | resolving rows existing todo retry unfinished =>
      simp only [passStep, Option.map_eq_some_iff, Prod.mk.injEq] at hstep
      obtain ⟨t, hi, rfl, rfl⟩ := hstep
      obtain ⟨hsit, hqueue⟩ := bindTarget_tables (R := R) db existing t resolverFails
        writeFails
      have hframe := frame_bindTarget existing hkeyed h.1
        (h.2.1 t (List.mem_of_getElem? hi)) resolverFails writeFails
      refine ⟨hsit, hframe, work_frame hkeyed hwork hframe hsit hqueue, fun q hq => ?_⟩
      cases hq
      exact stageInv_bind hkeyed h hi resolverFails writeFails _
    | started | rowsRead | existingRead => cases hstep
  | settle p =>
    cases stage with
    | resolving rows existing todo retry unfinished =>
      cases todo with
      | nil =>
        simp only [passStep, Option.some.injEq, Prod.mk.injEq] at hstep
        obtain ⟨rfl, rfl⟩ := hstep
        refine ⟨rfl, .of_eq rfl rfl, work_settle hkeyed hwork h (htime _ _ _ _ _ rfl),
          fun q hq => ?_⟩
        cases hq
      | cons t todo => cases hstep
    | started | rowsRead | existingRead => cases hstep
  | abort p =>
    simp only [passStep, Option.some.injEq, Prod.mk.injEq] at hstep
    obtain ⟨rfl, rfl⟩ := hstep
    refine ⟨rfl, .of_eq rfl rfl, hwork, fun q hq => ?_⟩
    cases hq

/-- What holds in every state of a run. -/
structure BindInv (R : Resolver J I D) (s : BindState J I D) : Prop where
  keyed : Keyed s.db
  work : WorkKept R s.db
  passes : ∀ p pass, s.passes.get p = some pass → StageInv R s.db pass.ids pass.stage

/-- A write queues the work it makes. -/
theorem BindInv.write (h : BindInv R s) {row : SituationRow J}
    (hnew : ∀ stored, s.db.situations.get row.id = some stored →
      stored.revision < row.revision) :
    BindInv R { s with db := writeSituation s.db row } := by
  have hframe := frame_writeSituation (R := R) hnew
  refine ⟨fun id r hr => ?_, fun id r hr hnone => ?_, fun p pass hpass => ?_⟩
  · simp only [writeSituation, OrderedMap.get_set] at hr
    by_cases hid : id = row.id
    · rw [if_pos hid, Option.some_inj] at hr
      rw [← hr, hid]
    · rw [if_neg hid] at hr
      exact h.keyed id r hr
  · simp only [writeSituation, OrderedMap.get_set] at hr hnone
    by_cases hid : id = row.id
    · simp [hid] at hnone
    · rw [if_neg hid] at hr hnone
      have hrid := h.keyed id r hr
      have hdb : Stored s.db r := by
        rw [Stored, hrid]
        exact hr
      refine (h.work id r hr hnone).frame hframe hdb ?_
      simp only [Stored, writeSituation, hrid, OrderedMap.get_set, if_neg hid]
      exact hr
  · exact (h.passes p pass hpass).frame hframe

/-- **One step.** Writers and passes that are not outrun keep the invariant. -/
theorem BindInv.step (h : BindInv R s) (htime : InTime R s event)
    (hstep : bindStep R s event = some s') : BindInv R s' := by
  have hpassStep (p : ℕ) (hp : event.pass? = some p)
      (hbind : (s.passes.get p).bind (fun pass => (passStep R s.db pass event).map
        fun r => (⟨r.1, putPass s.passes p r.2⟩ : BindState J I D)) = some s') :
      BindInv R s' := by
    obtain ⟨pass, hpass, hmap⟩ := Option.bind_eq_some_iff.mp hbind
    obtain ⟨⟨db', pass'⟩, hpassed, rfl⟩ := Option.map_eq_some_iff.mp hmap
    obtain ⟨hsit, hframe, hwork, hstage⟩ := passStep_inv h.keyed h.work (h.passes p pass hpass)
      (htime p pass hp hpass) hpassed
    refine ⟨fun id r hr => h.keyed id r (hsit ▸ hr), hwork, fun q other hother => ?_⟩
    cases pass' with
    | none =>
      simp only [putPass, OrderedMap.get_delete] at hother
      by_cases hq : q = p
      · simp [hq] at hother
      · rw [if_neg hq] at hother
        exact (h.passes q other hother).frame hframe
    | some pass' =>
      simp only [putPass, OrderedMap.get_set] at hother
      by_cases hq : q = p
      · rw [if_pos hq, Option.some_inj] at hother
        exact hother ▸ hstage pass' rfl
      · rw [if_neg hq] at hother
        exact (h.passes q other hother).frame hframe
  cases event with
  | write row =>
    simp only [bindStep] at hstep
    by_cases hnew : ((s.db.situations.get row.id).all fun stored =>
        decide (stored.revision < row.revision)) = true
    · rw [if_pos hnew, Option.some_inj] at hstep
      subst hstep
      refine h.write fun stored hstored => ?_
      rw [hstored] at hnew
      exact of_decide_eq_true hnew
    · rw [if_neg hnew] at hstep
      cases hstep
  | start p ids =>
    simp only [bindStep] at hstep
    by_cases hfree : ids ≠ [] ∧ s.passes.get p = none
    · rw [if_pos hfree, Option.some_inj] at hstep
      subst hstep
      refine ⟨h.keyed, h.work, fun q pass hpass => ?_⟩
      simp only [OrderedMap.get_set] at hpass
      by_cases hq : q = p
      · rw [if_pos hq, Option.some_inj] at hpass
        rw [← hpass]
        trivial
      · rw [if_neg hq] at hpass
        exact h.passes q pass hpass
    · rw [if_neg hfree] at hstep
      cases hstep
  | readRows p => exact hpassStep p rfl hstep
  | readExisting p => exact hpassStep p rfl hstep
  | clear p => exact hpassStep p rfl hstep
  | bind p i resolverFails writeFails => exact hpassStep p rfl hstep
  | settle p => exact hpassStep p rfl hstep
  | abort p => exact hpassStep p rfl hstep

/-- **Binding work is kept.** Whatever writers and passes do in between, a live situation that has
no row in the queue is bound at its stored revision, in every state of a run in which no pass is
outrun. -/
theorem work_kept {events : List (BindEvent J)} (hkeyed : Keyed s.db) (hwork : WorkKept R s.db)
    (hidle : s.passes.entries = []) (htime : Transition.Along (bindStep R) (InTime R) s events)
    (hrun : Transition.run (bindStep R) s events = some s') : WorkKept R s'.db := by
  refine (Transition.run_invariant_of_along (I := BindInv R) (fun t event t' h ht hstep =>
    h.step ht hstep) ⟨hkeyed, hwork, fun p pass hpass => ?_⟩ htime hrun).work
  rw [OrderedMap.get_eq_some_iff, hidle] at hpass
  cases hpass

end Runs

/-! ## A pass that is outrun -/

/-- A resolver that places every location. -/
def plainResolver : Resolver String String Unit where
  toBindInput id geometry _ _ _ _ _ := id ++ geometry
  inputHash input _ := input
  isExact _ := true
  overlay _ location := location
  resolveBinding _ := ⟨.exact, none, ()⟩
  noDetail := ()
  version := "1"
  generation := "g"

/-- A closure at a revision, with the effects that are located on their own. -/
def closureAt (revision : ℕ) (effectIds : List String) : SituationRow String :=
  ⟨"s", "closure", revision, some "here", none, "", "", ["closure"],
    effectIds.map fun effectId => ⟨effectId, "there", "", none, false⟩, [], []⟩

/-- Nothing is stored, queued or running. -/
def emptyState : BindState String String Unit := ⟨⟨.empty, .empty, .empty⟩, .empty⟩

/-- The state after some events. -/
def stateAfter (events : List (BindEvent String)) : BindState String String Unit :=
  (Transition.run (bindStep plainResolver) emptyState events).getD emptyState

/-- A revision is written, and a pass binds it. -/
def boundOnce : List (BindEvent String) :=
  [.write (closureAt 1 []), .start 0 ["s"], .readRows 0, .readExisting 0, .clear 0,
    .bind 0 0 false false, .settle 0]

/-- The next revision is written before the pass settles. -/
def outrunSettling : List (BindEvent String) :=
  [.write (closureAt 1 []), .start 0 ["s"], .readRows 0, .readExisting 0, .clear 0,
    .bind 0 0 false false, .write (closureAt 2 []), .settle 0]

/-- The next revision is written, and bound by another pass, between two reads of a pass. -/
def outrunClearing : List (BindEvent String) :=
  [.write (closureAt 1 []), .start 0 ["s"], .readRows 0, .write (closureAt 2 ["e"]),
    .start 1 ["s"], .readRows 1, .readExisting 1, .clear 1, .bind 1 0 false false,
    .bind 1 0 false false, .settle 1, .readExisting 0, .clear 0, .bind 0 0 false false, .settle 0]

/-- A revision is written and bound. -/
theorem work_kept_sample : WorkKept plainResolver (stateAfter boundOnce).db := by
  refine @work_kept _ _ _ _ emptyState _ boundOnce (fun id row h => by cases h)
    (fun id row h => by cases h) rfl ?_ rfl
  simp only [boundOnce, Transition.Along]
  refine ⟨fun p pass hp => (by cases hp), fun s₁ h₁ => ?_⟩
  cases h₁
  refine ⟨fun p pass hp => (by cases hp), fun s₁ h₁ => ?_⟩
  cases h₁
  refine ⟨fun p pass hp hpass => trivial, fun s₁ h₁ => ?_⟩
  cases h₁
  refine ⟨fun p pass hp hpass => trivial, fun s₁ h₁ => ?_⟩
  cases h₁
  refine ⟨fun p pass hp hpass => ?_, fun s₁ h₁ => ?_⟩
  · -- No binding stands yet.
    cases hp
    cases hpass
    intro rows existing hstage row hrow effectId hhas
    cases hstage
    cases hhas
  cases h₁
  refine ⟨fun p pass hp hpass => trivial, fun s₁ h₁ => ?_⟩
  cases h₁
  refine ⟨fun p pass hp hpass => ?_, fun s₁ h₁ => trivial⟩
  -- The revision that was read is stored.
  cases hp
  cases hpass
  intro rows existing todo retry unfinished hstage row hrow hdone hqueue
  cases hstage
  have hid : row.id = "s" := List.mem_singleton.mp (List.mem_filter.mp hdone).1
  rw [Stored, hid] at hrow
  cases hrow
  exact ⟨closureAt 1 [], List.mem_singleton.mpr rfl, rfl, rfl⟩

/-- A pass that is outrun acknowledges a revision that nothing has bound, or drops a binding of it:
no pass is running and nothing is queued. -/
theorem outrun_loses_work :
    (Transition.run (bindStep plainResolver) emptyState outrunSettling =
        some (stateAfter outrunSettling) ∧
      (stateAfter outrunSettling).passes.entries = [] ∧
      (stateAfter outrunSettling).db.queue.entries = [] ∧
      ¬WorkKept plainResolver (stateAfter outrunSettling).db) ∧
    (Transition.run (bindStep plainResolver) emptyState outrunClearing =
        some (stateAfter outrunClearing) ∧
      (stateAfter outrunClearing).passes.entries = [] ∧
      (stateAfter outrunClearing).db.queue.entries = [] ∧
      ¬WorkKept plainResolver (stateAfter outrunClearing).db) := by
  refine ⟨⟨rfl, rfl, rfl, fun h => ?_⟩, ⟨rfl, rfl, rfl, fun h => ?_⟩⟩
  · obtain ⟨b, hb, hrevision⟩ := (h "s" (closureAt 2 []) rfl rfl).written ""
      ⟨_, List.mem_cons_self .., rfl⟩
    cases hb
    cases hrevision
  · obtain ⟨b, hb, hrevision⟩ := (h "s" (closureAt 2 ["e"]) rfl rfl).written "e"
      ⟨_, List.mem_cons_of_mem _ (List.mem_cons_self ..), rfl⟩
    cases hb

end OpenConditions.Pipeline

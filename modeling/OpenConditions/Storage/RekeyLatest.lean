import OpenConditions.Storage.CrowdSeries

set_option relaxedAutoImplicit false
set_option autoImplicit false

/-!
# When re-keying keeps the later reading

The move of the crowd's rows relocates items to keys in turn (`Relocate`): a row that moves lands
exactly when nobody stands at its new key, and a row that misses is deleted.  So the later reading
is kept at every key exactly when each key fits the latest row that maps to it.

## Main definitions

* `goalOf`, `Stays` — the rows as items that are relocated.
* `KeyFits` — when a key keeps the latest row that maps to it.

## Main results

* `rekey_placed` — the rows and the deletions after the move.
* `rekey_keepsLater_iff` — the later readings stay exactly when every key fits.
-/

namespace OpenConditions.Storage

variable {R : Type} [DecidableEq R] {reseal : R → Target → Option R}
  {former current : List CanonicalRow}

/-! ## Rows as relocated items -/

/-- The key a row moves onto. -/
def goalOf (former current : List CanonicalRow) (row : CrowdRow R) : Option CrowdKey :=
  match destination former current row with
  | .moves target => some (row.keyAt target.canonicalFeatureId target.componentKey)
  | _ => none

/-- A row is where it belongs. -/
def Stays (former current : List CanonicalRow) (row : CrowdRow R) : Prop :=
  destination former current row = .stays

/-- A row is moved: the key it moves onto is nobody's at its turn. -/
abbrev IsMoved (former current : List CanonicalRow) (rows visit : List (CrowdRow R)) :
    CrowdRow R → Prop :=
  Relocate.Lands rows visit CrowdRow.key (goalOf former current)

/-- When a key keeps the latest row that maps to it: no row moves onto it; or whoever stands there
stays and is no earlier than each row that does; or it is moved away before a latest of them is
visited. -/
abbrev KeyFits (former current : List CanonicalRow) (rows visit : List (CrowdRow R))
    (k : CrowdKey) : Prop :=
  Relocate.LatestFits rows visit CrowdRow.key (goalOf former current) (Stays former current)
    CrowdRow.effectiveFrom k

section Items

variable {row : CrowdRow R} {k : CrowdKey}

omit [DecidableEq R] in
/-- A row that stays has no goal. -/
theorem goalOf_of_stays (h : Stays former current row) : goalOf former current row = none := by
  rw [goalOf, h]

omit [DecidableEq R] in
/-- A row maps to a key when it stays there or moves onto it. -/
theorem destKey_eq_some_iff : destKey former current row = some k ↔
    Relocate.MapsTo CrowdRow.key (goalOf former current) (Stays former current) row k := by
  unfold destKey Relocate.MapsTo goalOf Stays
  cases destination former current row with
  | gone => simp
  | stays => simp
  | moves target => simp

omit [DecidableEq R] in
/-- Only rows of former clusters move or go. -/
theorem get_formerOf_isSome_iff {id : String} :
    ((formerOf former).get id).isSome = true ↔
      id ∈ former.map CanonicalRow.canonicalFeatureId := by
  unfold formerOf
  constructor
  · intro h
    by_contra hnot
    rw [OrderedMap.get_foldl_set_of_not_mem (v := fun _ v => v) hnot] at h
    cases h
  · intro h
    obtain ⟨w, hw, -⟩ := OrderedMap.get_foldl_set_of_mem (k := CanonicalRow.canonicalFeatureId)
      (v := fun _ v => v) (P := fun _ => True) h .empty fun _ _ _ _ => trivial
    rw [hw]
    rfl

omit [DecidableEq R] in
/-- A row of no former cluster stays. -/
theorem stays_of_not_mem (h : row.featureId ∉ former.map CanonicalRow.canonicalFeatureId) :
    Stays former current row := by
  unfold Stays destination
  cases hget : (formerOf former).get row.featureId with
  | none => rfl
  | some was =>
    refine absurd (Iff.mp get_formerOf_isSome_iff ?_) h
    rw [hget]
    rfl

end Items

/-! ## The loop -/

section Distinct

variable {rows visit : List (CrowdRow R)} {a b : CrowdRow R}

omit [DecidableEq R] in
/-- Rows of one series id are one row. -/
theorem DistinctSeries.eq_of_seriesId (h : DistinctSeries rows) (ha : a ∈ rows) (hb : b ∈ rows)
    (hid : a.seriesId = b.seriesId) : a = b :=
  List.inj_on_of_nodup_map h.ids ha hb hid

omit [DecidableEq R] in
/-- Rows of one series key are one row. -/
theorem DistinctSeries.eq_of_key (h : DistinctSeries rows) (ha : a ∈ rows) (hb : b ∈ rows)
    (hkey : a.key = b.key) : a = b :=
  List.inj_on_of_nodup_map h.keys ha hb hkey

omit [DecidableEq R] in
/-- The visited rows are those of the former clusters. -/
theorem VisitOrder.mem_iff (h : VisitOrder former rows visit) :
    a ∈ visit ↔ a ∈ rows ∧ a.featureId ∈ former.map CanonicalRow.canonicalFeatureId := by
  rw [h.perm.mem_iff, List.mem_filter, decide_eq_true_iff]

omit [DecidableEq R] in
/-- No row is visited twice. -/
theorem VisitOrder.nodup (h : VisitOrder former rows visit) (hrows : DistinctSeries rows) :
    visit.Nodup := by
  rw [h.perm.nodup_iff]
  exact List.Nodup.filter _ (List.Nodup.of_map _ hrows.ids)

omit [DecidableEq R] in
/-- A row that is not visited stays. -/
theorem VisitOrder.stays_of_not_mem (h : VisitOrder former rows visit) (ha : a ∈ rows)
    (hvisit : a ∉ visit) : Stays former current a :=
  Storage.stays_of_not_mem fun hformer => hvisit (h.mem_iff.mpr ⟨ha, hformer⟩)

end Distinct

section Loop

variable {rows visit : List (CrowdRow R)} {p q : List (CrowdRow R)} {a : CrowdRow R}
  {st st' : RekeyState R}

omit [DecidableEq R] in
/-- What visiting a row does: a row that is gone or whose new key is held is to be deleted, one
that stays is passed over, and one whose new key is free is put there. -/
theorem rekeyRow_cases (h : rekeyRow reseal former current st a = some st') :
    (Stays former current a ∧ st' = st) ∨
    (destination former current a = .gone ∧ st' = { st with drop := st.drop ++ [a.seriesId] }) ∨
    (∃ k, goalOf former current a = some k ∧ (∃ r ∈ st.rows, r.key = k) ∧
      st' = { st with drop := st.drop ++ [a.seriesId] }) ∨
    ∃ target record,
      goalOf former current a = some (a.keyAt target.canonicalFeatureId target.componentKey) ∧
      (∀ r ∈ st.rows, r.key ≠ a.keyAt target.canonicalFeatureId target.componentKey) ∧
      st' = { st with
        rows := st.rows.map (CrowdRow.placeAt a.seriesId target record)
        moved := st.moved + 1 } := by
  unfold rekeyRow at h
  unfold Stays goalOf destination
  cases hwas : (formerOf former).get a.featureId with
  | none => simp [hwas] at h
  | some was =>
    simp only [hwas] at h
    cases htarget : targetOf (holdingOf current) was a with
    | none =>
      simp only [htarget, Option.some.injEq] at h
      exact Or.inr (Or.inl ⟨by simp [htarget], h.symm⟩)
    | some target =>
      simp only [htarget] at h
      by_cases hstays : target = ⟨a.featureId, a.componentKey⟩
      · simp only [hstays, if_true, Option.some.injEq] at h
        exact Or.inl ⟨by simp [htarget, hstays], h.symm⟩
      · simp only [hstays, if_false] at h
        cases hrecord : reseal a.record target with
        | none => simp [hrecord] at h
        | some record =>
          simp only [hrecord] at h
          by_cases hheld : ∃ r ∈ st.rows,
              r.key = a.keyAt target.canonicalFeatureId target.componentKey
          · have hany : (st.rows.any fun r => decide
                (r.key = a.keyAt target.canonicalFeatureId target.componentKey)) = true := by
              simpa using hheld
            simp only [hany, if_true, Option.some.injEq] at h
            exact Or.inr (Or.inr (Or.inl ⟨_, by simp [htarget, hstays], hheld, h.symm⟩))
          · have hany : (st.rows.any fun r => decide
                (r.key = a.keyAt target.canonicalFeatureId target.componentKey)) = false := by
              simpa using hheld
            simp only [hany, Bool.false_eq_true, if_false, Option.some.injEq] at h
            refine Or.inr (Or.inr (Or.inr ⟨target, record, by simp [htarget, hstays], ?_, h.symm⟩))
            exact fun r hr hkey => hheld ⟨r, hr, hkey⟩

/-- A row as it stands after a prefix of the visit. -/
structure Placed (former current : List CanonicalRow) (rows visit p : List (CrowdRow R))
    (r r' : CrowdRow R) : Prop where
  mem : r ∈ rows
  seriesId : r'.seriesId = r.seriesId
  property : r'.property = r.property
  qualifierKey : r'.qualifierKey = r.qualifierKey
  effectiveFrom : r'.effectiveFrom = r.effectiveFrom
  stands : Relocate.Stands rows visit CrowdRow.key (goalOf former current) p r r'.key

/-- The state after a prefix of the visit. -/
structure LoopInv (former current : List CanonicalRow) (rows visit p : List (CrowdRow R))
    (st : RekeyState R) : Prop where
  placed : List.Forall₂ (Placed former current rows visit p) rows st.rows
  drop : ∀ id, id ∈ st.drop ↔ ∃ r ∈ p, r.seriesId = id ∧ ¬Stays former current r ∧
    ¬IsMoved former current rows visit r

/-- Related lists have related members. -/
theorem exists_mem_of_forall₂ {α β : Type} {S : α → β → Prop} {l : List α} {l' : List β}
    (h : List.Forall₂ S l l') {b : β} (hb : b ∈ l') : ∃ a ∈ l, S a b := by
  induction h with
  | nil => cases hb
  | cons hS _ ih =>
    rcases List.mem_cons.mp hb with rfl | hmem
    · exact ⟨_, List.mem_cons_self .., hS⟩
    · obtain ⟨a, ha, hSa⟩ := ih hmem
      exact ⟨a, List.mem_cons_of_mem _ ha, hSa⟩

/-- Someone stands at a key exactly when a row of the table has it. -/
theorem LoopInv.exists_key_iff (h : LoopInv former current rows visit p st) {k : CrowdKey} :
    (∃ r' ∈ st.rows, r'.key = k) ↔
      ∃ r ∈ rows, Relocate.Stands rows visit CrowdRow.key (goalOf former current) p r k := by
  constructor
  · rintro ⟨r', hr', rfl⟩
    obtain ⟨r, hr, hplaced⟩ := exists_mem_of_forall₂ h.placed hr'
    exact ⟨r, hr, hplaced.stands⟩
  · rintro ⟨r, hr, hstands⟩
    obtain ⟨r', hr', hplaced⟩ := exists_mem_of_forall₂ h.placed.flip hr
    exact ⟨r', hr', hplaced.stands.unique hstands⟩

/-- A row stands where it stood when the row whose turn it is does not move. -/
theorem Placed.concat_of_not_moved {r r' : CrowdRow R}
    (h : Placed former current rows visit p r r')
    (hmiss : ¬IsMoved former current rows visit a) :
    Placed former current rows visit (p ++ [a]) r r' := by
  refine { h with stands := (Relocate.stands_concat_iff ?_).mpr h.stands }
  by_cases hra : r = a
  · exact Or.inr (hra ▸ hmiss)
  · exact Or.inl hra

/-- A row stands where it is put when it moves, and where it stood when another one does. -/
theorem Placed.concat_of_moved {r r' : CrowdRow R} {target : Target} {record : R}
    (hrows : DistinctSeries rows) (ha : a ∈ rows)
    (hgoal : goalOf former current a =
      some (a.keyAt target.canonicalFeatureId target.componentKey))
    (hmoved : IsMoved former current rows visit a)
    (h : Placed former current rows visit p r r') :
    Placed former current rows visit (p ++ [a]) r (r'.placeAt a.seriesId target record) := by
  unfold CrowdRow.placeAt
  by_cases hra : r = a
  · subst hra
    rw [if_pos h.seriesId]
    refine ⟨h.mem, h.seriesId, h.property, h.qualifierKey, h.effectiveFrom, ?_⟩
    refine Relocate.stands_of_lands (by simp) hmoved ?_
    rw [hgoal]
    simp only [CrowdRow.key, CrowdRow.keyAt, h.property, h.qualifierKey]
  · have hne : r'.seriesId ≠ a.seriesId := fun hid =>
      hra (hrows.eq_of_seriesId h.mem ha (h.seriesId.symm.trans hid))
    rw [if_neg hne]
    exact { h with stands := (Relocate.stands_concat_iff (Or.inl hra)).mpr h.stands }

/-- The deletions after a row that is passed over. -/
theorem LoopInv.drop_of_kept (h : LoopInv former current rows visit p st)
    (hkept : Stays former current a ∨ IsMoved former current rows visit a) (id : ℕ) :
    id ∈ st.drop ↔ ∃ r ∈ p ++ [a], r.seriesId = id ∧ ¬Stays former current r ∧
      ¬IsMoved former current rows visit r := by
  rw [h.drop id]
  constructor
  · rintro ⟨r, hr, hid, hleft, hmiss⟩
    exact ⟨r, List.mem_append_left _ hr, hid, hleft, hmiss⟩
  · rintro ⟨r, hr, hid, hleft, hmiss⟩
    rcases List.mem_append.mp hr with hmem | hmem
    · exact ⟨r, hmem, hid, hleft, hmiss⟩
    · rw [List.mem_singleton] at hmem
      subst hmem
      rcases hkept with hstays | hmoved
      · exact absurd hstays hleft
      · exact absurd hmoved hmiss

/-- The deletions after a row that is to be deleted. -/
theorem LoopInv.drop_of_dropped (h : LoopInv former current rows visit p st)
    (hleft : ¬Stays former current a) (hmiss : ¬IsMoved former current rows visit a) (id : ℕ) :
    id ∈ st.drop ++ [a.seriesId] ↔ ∃ r ∈ p ++ [a], r.seriesId = id ∧ ¬Stays former current r ∧
      ¬IsMoved former current rows visit r := by
  rw [List.mem_append, List.mem_singleton, h.drop id]
  constructor
  · rintro (⟨r, hr, hid, hleft, hmiss⟩ | rfl)
    · exact ⟨r, List.mem_append_left _ hr, hid, hleft, hmiss⟩
    · exact ⟨a, by simp, rfl, hleft, hmiss⟩
  · rintro ⟨r, hr, hid, hleft, hmiss⟩
    rcases List.mem_append.mp hr with hmem | hmem
    · exact Or.inl ⟨r, hmem, hid, hleft, hmiss⟩
    · rw [List.mem_singleton] at hmem
      subst hmem
      exact Or.inr hid.symm

/-- **One turn.** Visiting a row moves it exactly when it lands, and else leaves the table as it
is. -/
theorem LoopInv.step (hrows : DistinctSeries rows) (horder : VisitOrder former rows visit)
    (hvisit : visit = p ++ a :: q) (h : LoopInv former current rows visit p st)
    (hstep : rekeyRow reseal former current st a = some st') :
    LoopInv former current rows visit (p ++ [a]) st' := by
  have havisit : a ∈ visit := by
    rw [hvisit]
    simp
  have ha : a ∈ rows := (horder.mem_iff.mp havisit).1
  have hfree {k : CrowdKey} (hgoal : goalOf former current a = some k) :=
    @Relocate.free_iff_lands _ _ _ _ _ CrowdRow.key _ _ _ _ _ hvisit (horder.nodup hrows)
      (fun b hb => (horder.mem_iff.mp hb).1) hgoal
  have hnotMoved (hgoal : goalOf former current a = none) :
      ¬IsMoved former current rows visit a := by
    intro hmoved
    obtain ⟨k, hk⟩ := hmoved.goal_eq.2
    rw [hgoal] at hk
    cases hk
  rcases rekeyRow_cases hstep with ⟨hstays, rfl⟩ | ⟨hgone, rfl⟩ | ⟨k, hgoal, hheld, rfl⟩ |
    ⟨target, record, hgoal, hnone, rfl⟩
  · have hmiss := hnotMoved (goalOf_of_stays hstays)
    exact ⟨h.placed.imp fun r r' hr => hr.concat_of_not_moved hmiss,
      h.drop_of_kept (Or.inl hstays)⟩
  · have hmiss := hnotMoved (by rw [goalOf, hgone])
    have hleft : ¬Stays former current a := by
      rw [Stays, hgone]
      exact Destination.noConfusion
    exact ⟨h.placed.imp fun r r' hr => hr.concat_of_not_moved hmiss,
      h.drop_of_dropped hleft hmiss⟩
  · have hmiss : ¬IsMoved former current rows visit a := by
      rw [IsMoved, ← hfree hgoal]
      intro hnone
      obtain ⟨r, hr, hstands⟩ := h.exists_key_iff.mp hheld
      exact hnone r hr hstands
    have hleft : ¬Stays former current a := by
      intro hstays
      rw [goalOf_of_stays hstays] at hgoal
      cases hgoal
    exact ⟨h.placed.imp fun r r' hr => hr.concat_of_not_moved hmiss,
      h.drop_of_dropped hleft hmiss⟩
  · have hmoved : IsMoved former current rows visit a := by
      refine (hfree hgoal).mp fun r hr hstands => ?_
      obtain ⟨r', hr', hkey⟩ := h.exists_key_iff.mpr ⟨r, hr, hstands⟩
      exact hnone r' hr' hkey
    refine ⟨?_, h.drop_of_kept (Or.inr hmoved)⟩
    rw [List.forall₂_map_right_iff]
    exact h.placed.imp fun r r' hr => hr.concat_of_moved hrows ha hgoal hmoved

/-- **The whole visit.** What one turn keeps, the turns that are left keep. -/
theorem LoopInv.run (hrows : DistinctSeries rows) (horder : VisitOrder former rows visit)
    (hvisit : visit = p ++ q) (h : LoopInv former current rows visit p st)
    (hrun : q.foldlM (rekeyRow reseal former current) st = some st') :
    LoopInv former current rows visit visit st' := by
  induction q generalizing p st with
  | nil =>
    rw [List.append_nil] at hvisit
    cases hrun
    exact hvisit ▸ h
  | cons a rest ih =>
    rw [List.foldlM_cons] at hrun
    obtain ⟨t, ht, hrest⟩ := Option.bind_eq_some_iff.mp hrun
    refine ih (p := p ++ [a]) ?_ (h.step hrows horder hvisit ht) hrest
    rw [hvisit, List.append_assoc, List.singleton_append]

/-- Before the visit every row stands where it is. -/
theorem loopInv_nil (rows visit : List (CrowdRow R)) :
    LoopInv former current rows visit [] ⟨rows, [], 0⟩ := by
  refine ⟨List.forall₂_same.mpr fun r hr => ⟨hr, rfl, rfl, rfl, rfl, Or.inr ⟨?_, rfl⟩⟩, ?_⟩
  · exact fun hmem => absurd hmem.1 (List.not_mem_nil)
  · intro id
    simp

end Loop

/-! ## The rows after the move -/

section Result

variable {rows visit result : List (CrowdRow R)} {counts : RekeyCounts}

/-- A row is at a key after the move: it stays there, or was moved there. -/
abbrev IsAt (former current : List CanonicalRow) (rows visit : List (CrowdRow R)) :
    CrowdRow R → CrowdKey → Prop :=
  Relocate.Holds rows visit CrowdRow.key (goalOf former current) (Stays former current)

/-- Rows are only at keys they map to. -/
theorem destKey_of_isAt {w : CrowdRow R} {k : CrowdKey}
    (h : IsAt former current rows visit w k) : destKey former current w = some k := by
  refine Iff.mpr destKey_eq_some_iff ?_
  rcases h with hstays | ⟨hgoal, -⟩
  · exact Or.inl hstays
  · exact Or.inr hgoal

/-- The table after the move: the rows of before that stay or were moved, each where it is to
be. -/
structure Rekeyed (former current : List CanonicalRow) (rows visit result : List (CrowdRow R)) :
    Prop where
  source : ∀ r' ∈ result, ∃ w ∈ rows, w.seriesId = r'.seriesId ∧
    w.effectiveFrom = r'.effectiveFrom ∧ IsAt former current rows visit w r'.key
  kept : ∀ w ∈ rows, ∀ k, IsAt former current rows visit w k →
    ∃ r' ∈ result, r'.seriesId = w.seriesId ∧ r'.effectiveFrom = w.effectiveFrom ∧ r'.key = k

/-- A row that stands somewhere after the visit and is not to be deleted is at its key. -/
theorem isAt_of_stands {w : CrowdRow R} {k : CrowdKey} (hvisit : w ∉ visit ∨
      Stays former current w ∨ IsMoved former current rows visit w)
    (horder : VisitOrder former rows visit) (hw : w ∈ rows)
    (h : Relocate.Stands rows visit CrowdRow.key (goalOf former current) visit w k) :
    IsAt former current rows visit w k := by
  rcases h with ⟨-, hmoved, hgoal⟩ | ⟨hnot, hat⟩
  · exact Or.inr ⟨hgoal, hmoved⟩
  · rcases hvisit with hnone | hstays | hmoved
    · exact Or.inl ⟨horder.stays_of_not_mem hw hnone, hat⟩
    · exact Or.inl ⟨hstays, hat⟩
    · exact absurd ⟨hmoved.goal_eq.1, hmoved⟩ hnot

/-- A row that is at a key stands there after the visit. -/
theorem stands_of_isAt {w : CrowdRow R} {k : CrowdKey}
    (h : IsAt former current rows visit w k) :
    Relocate.Stands rows visit CrowdRow.key (goalOf former current) visit w k := by
  rcases h with ⟨hstays, hat⟩ | ⟨hgoal, hmoved⟩
  · refine Or.inr ⟨fun hmoved => ?_, hat⟩
    obtain ⟨k', hk'⟩ := hmoved.2.goal_eq.2
    rw [goalOf_of_stays hstays] at hk'
    cases hk'
  · exact Relocate.stands_of_lands hmoved.goal_eq.1 hmoved hgoal

/-- **The move.** Whatever the clusters, the rows that are left after the move are those that stay
or land, each at its key. -/
theorem rekey_placed (hrows : DistinctSeries rows) (horder : VisitOrder former rows visit)
    (hrun : rekeyCrowdSeries reseal former current rows visit = some (result, counts)) :
    Rekeyed former current rows visit result := by
  rw [rekeyCrowdSeries, Option.map_eq_some_iff] at hrun
  obtain ⟨st, hfold, heq⟩ := hrun
  have hinv : LoopInv former current rows visit visit st :=
    (loopInv_nil rows visit).run hrows horder rfl hfold
  have hresult : ∀ r', r' ∈ result ↔ r' ∈ st.rows ∧ r'.seriesId ∉ st.drop := by
    intro r'
    rw [← (Prod.mk.inj heq).1, List.mem_filter, decide_eq_true_iff]
  have hdrop : ∀ w ∈ rows, w.seriesId ∈ st.drop ↔
      w ∈ visit ∧ ¬Stays former current w ∧ ¬IsMoved former current rows visit w := by
    intro w hw
    rw [hinv.drop]
    constructor
    · rintro ⟨r, hr, hid, hleft⟩
      obtain rfl := hrows.eq_of_seriesId (horder.mem_iff.mp hr).1 hw hid
      exact ⟨hr, hleft⟩
    · rintro ⟨hvisit, hleft⟩
      exact ⟨w, hvisit, rfl, hleft⟩
  refine ⟨fun r' hr' => ?_, fun w hw k hat => ?_⟩
  · obtain ⟨hr', hkept⟩ := (hresult r').mp hr'
    obtain ⟨w, hw, hplaced⟩ := exists_mem_of_forall₂ hinv.placed hr'
    refine ⟨w, hw, hplaced.seriesId.symm, hplaced.effectiveFrom.symm,
      isAt_of_stands ?_ horder hw hplaced.stands⟩
    rw [hplaced.seriesId, hdrop w hw] at hkept
    tauto
  · obtain ⟨r', hr', hplaced⟩ := exists_mem_of_forall₂ hinv.placed.flip hw
    refine ⟨r', (hresult r').mpr ⟨hr', ?_⟩, hplaced.seriesId, hplaced.effectiveFrom,
      hplaced.stands.unique (stands_of_isAt hat)⟩
    rw [hplaced.seriesId, hdrop w hw]
    rintro ⟨-, hleft, hmiss⟩
    rcases hat with ⟨hstays, -⟩ | ⟨-, hmoved⟩
    · exact hleft hstays
    · exact hmiss hmoved

/-- The latest of the rows that map to a key is there exactly when the key keeps it. -/
theorem Rekeyed.latest_iff (h : Rekeyed former current rows visit result) (k : CrowdKey) :
    HoldsLatest former current rows result k ↔
      Relocate.KeepsLatestAt rows visit CrowdRow.key (goalOf former current)
        (Stays former current) CrowdRow.effectiveFrom k := by
  constructor
  · rintro hlatest ⟨a, ha, hmaps⟩
    obtain ⟨r', hr', rfl, ⟨w, hw, -, hid, hfrom⟩, hmax⟩ :=
      hlatest ⟨a, ha, Iff.mpr destKey_eq_some_iff hmaps⟩
    obtain ⟨w', hw', hid', hfrom', hat⟩ := h.source r' hr'
    refine ⟨w', hw', hat, fun b hb hb' => ?_⟩
    rw [hfrom']
    exact hmax b hb (Iff.mpr destKey_eq_some_iff hb')
  · rintro hkeeps ⟨a, ha, hmaps⟩
    obtain ⟨w, hw, hat, hmax⟩ := hkeeps ⟨a, ha, Iff.mp destKey_eq_some_iff hmaps⟩
    obtain ⟨r', hr', hid, hfrom, hkey⟩ := h.kept w hw k hat
    refine ⟨r', hr', hkey, ⟨w, hw, destKey_of_isAt hat, hid.symm, hfrom.symm⟩,
      fun b hb hb' => ?_⟩
    rw [hfrom]
    exact hmax b hb (Iff.mp destKey_eq_some_iff hb')

omit [DecidableEq R] in
/-- When every key holds the latest of the rows that map to it, a row that is deleted had nowhere
to go or gave way to one of those. -/
theorem deleted_of_latest
    (hlatest : ∀ k, HoldsLatest former current rows result k)
    {r : CrowdRow R} (hr : r ∈ rows) (hdeleted : ∀ r' ∈ result, r'.seriesId ≠ r.seriesId) :
    destination former current r = .gone ∨
      ∃ w ∈ rows, w ≠ r ∧ destKey former current w = destKey former current r ∧
        r.effectiveFrom ≤ w.effectiveFrom := by
  cases hkey : destKey former current r with
  | none =>
    refine Or.inl ?_
    unfold destKey at hkey
    cases hdest : destination former current r with
    | gone => rfl
    | stays => simp [hdest] at hkey
    | moves target => simp [hdest] at hkey
  | some k =>
    obtain ⟨r', hr', -, ⟨w, hw, hwkey, hid, hfrom⟩, hmax⟩ := hlatest k ⟨r, hr, hkey⟩
    refine Or.inr ⟨w, hw, ?_, hwkey, hfrom ▸ hmax r hr hkey⟩
    rintro rfl
    exact hdeleted r' hr' hid.symm

/-- **Re-keying and the later reading.** Whatever the clusters were and are, the later readings are
kept exactly when every key fits. -/
theorem rekey_keepsLater_iff (hrows : DistinctSeries rows)
    (horder : VisitOrder former rows visit)
    (hrun : rekeyCrowdSeries reseal former current rows visit = some (result, counts)) :
    KeepsLater former current rows result ↔ ∀ k, KeyFits former current rows visit k := by
  have hrekeyed := rekey_placed hrows horder hrun
  have hkey (k : CrowdKey) := @Relocate.keepsLatestAt_iff _ _ _ _ _ _ _ CrowdRow.key
    (goalOf former current) (Stays former current) _ k
    (fun b hb => (horder.mem_iff.mp hb).1) horder.sorted
    (fun a ha b hb => hrows.eq_of_key ha hb)
    (fun m hm hgoal => by
      by_contra hvisit
      rw [goalOf_of_stays (horder.stays_of_not_mem hm hvisit)] at hgoal
      cases hgoal)
    (fun a _ hstays => goalOf_of_stays hstays)
  constructor
  · exact fun h k => (hkey k).mp ((hrekeyed.latest_iff k).mp (h.latest k))
  · intro h
    have hlatest := fun k => (hrekeyed.latest_iff k).mpr ((hkey k).mpr (h k))
    exact ⟨hlatest, fun r hr hdeleted => deleted_of_latest hlatest hr hdeleted⟩

end Result

/-! ## A merged cluster -/

/-- A cluster of one survivor. -/
def clusterOf (id survivor : String) (members : List String) : CanonicalRow :=
  ⟨id, survivor, members, []⟩

/-- A reading of a feature's speed. -/
def speedRow (id : ℕ) (feature : String) (effectiveFrom : Instant) : CrowdRow String :=
  ⟨id, feature, none, "speed", "", effectiveFrom, "r"⟩

/-- A reading's instant. -/
def earlier : Instant := { ms := 1767225600000 }

/-- An instant an hour later. -/
def later : Instant := { ms := 1767229200000 }

/-- A vanished cluster's later reading moves onto a cluster without one. -/
theorem rekey_keepsLater_iff_sample :
    KeepsLater [clusterOf "c1" "m1" ["m1"]] [clusterOf "c2" "m2" ["m1", "m2"]]
        [speedRow 1 "c1" later] [speedRow 1 "c2" later] ↔
      ∀ k, KeyFits [clusterOf "c1" "m1" ["m1"]] [clusterOf "c2" "m2" ["m1", "m2"]]
        [speedRow 1 "c1" later] [speedRow 1 "c1" later] k :=
  @rekey_keepsLater_iff String _ (fun r _ => some r) _ _ [speedRow 1 "c1" later]
    [speedRow 1 "c1" later] _ ⟨1, 0⟩ ⟨by decide, by decide⟩ ⟨by decide, by simp⟩ (by decide)

/-- A vanished cluster's later reading is to move onto a cluster that holds an earlier one: the
later one is deleted, and the earlier one stays. -/
theorem later_reading_dropped :
    DistinctSeries [speedRow 1 "c1" later, speedRow 2 "c2" earlier] ∧
      VisitOrder [clusterOf "c1" "m1" ["m1"]] [speedRow 1 "c1" later, speedRow 2 "c2" earlier]
        [speedRow 1 "c1" later] ∧
      rekeyCrowdSeries (fun r _ => some r) [clusterOf "c1" "m1" ["m1"]]
        [clusterOf "c2" "m2" ["m1", "m2"]] [speedRow 1 "c1" later, speedRow 2 "c2" earlier]
        [speedRow 1 "c1" later] = some ([speedRow 2 "c2" earlier], ⟨0, 1⟩) ∧
      ¬KeepsLater [clusterOf "c1" "m1" ["m1"]] [clusterOf "c2" "m2" ["m1", "m2"]]
        [speedRow 1 "c1" later, speedRow 2 "c2" earlier] [speedRow 2 "c2" earlier] := by
  refine ⟨⟨by decide, by decide⟩, ⟨by decide, by simp⟩, by decide, fun h => ?_⟩
  obtain ⟨r', hr', -, -, hmax⟩ := h.latest (speedRow 2 "c2" earlier).key
    ⟨speedRow 2 "c2" earlier, by simp, by decide⟩
  have hle := hmax (speedRow 1 "c1" later) (by simp) (by decide)
  rw [List.mem_singleton] at hr'
  subst hr'
  exact absurd hle (by decide)

end OpenConditions.Storage

import OpenConditions.Lib.HeldSince
import OpenConditions.Storage.TransientReadings

set_option relaxedAutoImplicit false
set_option autoImplicit false

/-!
# Readings written together and one by one

The comparison of a series keeps a reading older than the state in effect from replacing it.  The
choice of the rows does not: it threads the result, and since when it holds, from the stored row
through all the readings of a write in the order of their starts, the late ones first.  So a late
reading that is written together with a newer one moves since when the newer one's result holds,
while written on its own it leaves the latest row as it is.

## Main definitions

* `lateOf`, `retakenOf`, `newerOf` — the readings of a write against the stored one.
* `SinceUnmoved` — the late readings of a write leave since when the newest result holds.
* `writtenTogether`, `writtenOneByOne` — the readings in one write, and in one each.

## Main results

* `readingAt_writeObservationsIn` — the latest row that a write of one series leaves.
* `readingAt_foldl_takeReading` — the one that writes of one reading each leave.
* `written_alike_iff` — when the two are the same.
* `late_reading_moves_since` — a write where they are not.
-/

namespace OpenConditions.Storage

section Batch

variable {J H : Type} [DecidableEq J] [DecidableEq H] {D : Digests J H}
  {ctx : ObservationContext J} {db : ObservationDb J}

/-! ## The readings of a write against the stored one -/

/-- Readings in the order of their starts. -/
def inOrder (drafts : List (Observation J)) : List (Observation J) :=
  drafts.insertionSort fun a b => a.content.start ≤ b.content.start

/-- The readings that start before the stored one. -/
def lateOf (stored : Observation J) (drafts : List (Observation J)) : List (Observation J) :=
  inOrder (drafts.filter fun d => decide (d.content.start < stored.content.start))

/-- The stored reading stated again. -/
def repeatedOf (stored : Observation J) (drafts : List (Observation J)) : List (Observation J) :=
  drafts.filter fun d => decide (d.content = stored.content)

/-- The stored reading stated again after a reading that starts later. -/
def retakenOf (stored : Observation J) (drafts : List (Observation J)) : List (Observation J) :=
  repeatedOf stored
    (drafts.dropWhile fun d => decide (d.content.start ≤ stored.content.start))

/-- The readings that start no earlier than the stored one, and are not it again. -/
def newerOf (stored : Observation J) (drafts : List (Observation J)) : List (Observation J) :=
  inOrder (drafts.filter fun d =>
    decide (stored.content.start ≤ d.content.start ∧ d.content ≠ stored.content))

/-- The result of a reading and when it starts. -/
def resultAt (o : Observation J) : J × Instant := (o.content.result, o.content.start)

/-- The readings of a write that are no newer than the stored one leave since when the result of the
newest one holds. -/
def SinceUnmoved (row : LatestRow J) (drafts : List (Observation J)) : Prop :=
  HeldSince.Unmoved (row.record.content.result, row.sinceAt)
    ((lateOf row.record drafts ++ retakenOf row.record drafts).map resultAt)
    ((newerOf row.record drafts).map resultAt)

/-! ## Comparing readings that are not polled -/

omit [DecidableEq J] [DecidableEq H] in
/-- A reading that is sealed keeps its content. -/
theorem content_sealDraft (draft : Observation J) :
    (sealDraft ctx draft).content = draft.content := rfl

/-- A reading of other content than the one in effect is taken. -/
theorem compareDraft_of_ne {held : Option (Latest J H)} {st : Compared J H}
    {draft : Observation J} (hne : st.inEffect.hash ≠ some (contentHash D draft)) :
    compareDraft D ctx held false false st draft =
      { st with
        inEffect :=
          if st.inEffect.since.all fun since => decide (since ≤ draft.content.start) then
            ⟨some draft.content.result, some (contentHash D draft), some draft.content.start,
              some (creditProvenance (sealDraft ctx draft)), draft.content.baseline, false⟩
          else st.inEffect
        records := st.records ++ [sealDraft ctx draft] } := by
  unfold compareDraft
  dsimp only
  rw [if_neg]
  · rfl
  · simp [hne, isRestated, isSuperseded]

/-- **Readings** of different contents, none that of the one in effect, are all taken; the one in
effect is one of them then, where one of them starts no earlier than it did. -/
theorem foldl_compareDraft_of_ne {held : Option (Latest J H)} {drafts : List (Observation J)}
    {st : Compared J H} (hnodup : (drafts.map fun d => d.content).Nodup)
    (hne : ∀ d ∈ drafts, st.inEffect.hash ≠ some (contentHash D d)) :
    (drafts.foldl (compareDraft D ctx held false false) st).records =
        st.records ++ drafts.map (sealDraft ctx) ∧
      (drafts.foldl (compareDraft D ctx held false false) st).moved = st.moved ∧
      ((∃ d ∈ drafts, (st.inEffect.since.all fun s => decide (s ≤ d.content.start)) = true) →
        ∃ d ∈ drafts, (drafts.foldl (compareDraft D ctx held false false) st).inEffect.hash =
          some (contentHash D d)) ∧
      ((∀ d ∈ drafts, (st.inEffect.since.all fun s => decide (s ≤ d.content.start)) = false) →
        (drafts.foldl (compareDraft D ctx held false false) st).inEffect = st.inEffect) := by
  induction drafts generalizing st with
  | nil => exact ⟨by simp, rfl, fun ⟨d, hd, _⟩ => absurd hd List.not_mem_nil, fun _ => rfl⟩
  | cons d drafts ih =>
    rw [List.map_cons, List.nodup_cons] at hnodup
    have hstep := @compareDraft_of_ne J H _ _ D ctx held st d (hne d List.mem_cons_self)
    have hnext : ∀ e ∈ drafts, (compareDraft D ctx held false false st d).inEffect.hash ≠
        some (contentHash D e) := by
      intro e he
      rw [hstep]
      dsimp only
      split_ifs
      · intro hhash
        have hcontent := D.content.injective (Option.some.inj hhash)
        exact hnodup.1 (List.mem_map.mpr ⟨e, he, hcontent.symm⟩)
      · exact hne e (List.mem_cons_of_mem _ he)
    obtain ⟨hrecords, hmoved, hlater, hearlier⟩ := ih hnodup.2 hnext
    refine ⟨?_, ?_, fun hexists => ?_, fun hall => ?_⟩
    · rw [List.foldl_cons, hrecords, hstep]
      simp
    · rw [List.foldl_cons, hmoved, hstep]
    · rw [List.foldl_cons]
      by_cases hrest : ∃ e ∈ drafts, ((compareDraft D ctx held false false st
          d).inEffect.since.all fun s => decide (s ≤ e.content.start)) = true
      · obtain ⟨e, he, hhash⟩ := hlater hrest
        exact ⟨e, List.mem_cons_of_mem _ he, hhash⟩
      · have hkept := hearlier fun e he => Bool.not_eq_true _ ▸ fun h => hrest ⟨e, he, h⟩
        refine ⟨d, List.mem_cons_self, ?_⟩
        rw [hkept, hstep]
        dsimp only
        split_ifs with hd
        · rfl
        · obtain ⟨e, he, hsince⟩ := hexists
          rcases List.mem_cons.mp he with rfl | he
          · exact absurd hsince hd
          · refine absurd ⟨e, he, ?_⟩ hrest
            rw [hstep]
            dsimp only
            rw [if_neg hd]
            exact hsince
    · have hd := hall d List.mem_cons_self
      have hsame : (compareDraft D ctx held false false st d).inEffect = st.inEffect := by
        rw [hstep]
        dsimp only
        rw [if_neg (by rw [hd]; exact Bool.false_ne_true)]
      rw [List.foldl_cons, hearlier fun e he => ?_, hsame]
      rw [hsame]
      exact hall e (List.mem_cons_of_mem _ he)

/-- The stored reading stated again while it is in effect changes the expiry only. -/
theorem compareDraft_repeated {row : LatestRow J} {st : Compared J H} {draft : Observation J}
    (hin : st.inEffect = inEffectOf (some (latestOf D row)) false)
    (hsame : draft.content = row.record.content) :
    (compareDraft D ctx (some (latestOf D row)) false false st draft).records = st.records ∧
      (compareDraft D ctx (some (latestOf D row)) false false st draft).inEffect = st.inEffect ∧
      (compareDraft D ctx (some (latestOf D row)) false false st draft).moved =
        if draft.expiresAt ≠ row.record.expiresAt then some (row.seriesId, draft.expiresAt)
        else st.moved := by
  have hhash : (latestOf D row).contentHash = contentHash D draft := by
    rw [latestOf, contentHash, contentHash, hsame]
  have heffect : st.inEffect.hash = some (contentHash D draft) := by
    rw [hin, ← hhash]
    rfl
  unfold compareDraft
  dsimp only
  rw [if_pos (Or.inl heffect)]
  refine ⟨rfl, rfl, ?_⟩
  simp only [hhash, true_or, true_and]
  rfl

/-! ## The readings that are taken -/

omit [DecidableEq H] in
/-- What is stated again after a later reading is the stored reading, stated again. -/
theorem mem_retakenOf {stored d : Observation J} {drafts : List (Observation J)}
    (h : d ∈ retakenOf stored drafts) : d ∈ drafts ∧ d.content = stored.content := by
  obtain ⟨hmem, hcontent⟩ := List.mem_filter.mp h
  exact ⟨(List.dropWhile_sublist _).subset hmem, of_decide_eq_true hcontent⟩

omit [DecidableEq J] [DecidableEq H] in
/-- Readings with distinct starts have distinct contents. -/
theorem nodup_contents {drafts : List (Observation J)}
    (h : (drafts.map fun d => d.content.start).Nodup) : (drafts.map fun d => d.content).Nodup := by
  refine List.Nodup.of_map (fun c : ObservationContent J => c.start) ?_
  rw [List.map_map]
  exact h

/-- **The readings that are taken** of a series that has a row: all but the stored one stated again
while it is in effect.  Where nothing newer is stated, that one may state another expiry. -/
theorem foldl_compareDraft_stored {row : LatestRow J} {drafts : List (Observation J)}
    (hstarts : (drafts.map fun d => d.content.start).Nodup) :
    (drafts.foldl (compareDraft D ctx (some (latestOf D row)) false false)
        ⟨inEffectOf (some (latestOf D row)) false, 0, [], none, []⟩).records =
      (drafts.filter fun d => decide (d.content ≠ row.record.content ∨
        d ∈ retakenOf row.record drafts)).map (sealDraft ctx) ∧
    (newerOf row.record drafts = [] →
      (drafts.foldl (compareDraft D ctx (some (latestOf D row)) false false)
          ⟨inEffectOf (some (latestOf D row)) false, 0, [], none, []⟩).moved =
        (repeatedOf row.record drafts).head?.bind fun d =>
          if d.expiresAt ≠ row.record.expiresAt then some (row.seriesId, d.expiresAt)
          else none) := by
  have hhash : ∀ d : Observation J, d.content ≠ row.record.content →
      (inEffectOf (some (latestOf D row)) false).hash ≠ some (contentHash D d) := by
    intro d hd heq
    exact hd (D.content.injective (Option.some.inj heq)).symm
  by_cases hrepeated : ∃ d ∈ drafts, d.content = row.record.content
  · obtain ⟨repeated, hmem, hcontent⟩ := hrepeated
    obtain ⟨before, rest, rfl⟩ := List.append_of_mem hmem
    have hcontents := nodup_contents hstarts
    rw [List.map_append, List.map_cons, List.nodup_append, List.nodup_cons] at hcontents
    obtain ⟨hbefore, ⟨hnot, hrest⟩, hapart⟩ := hcontents
    have hother : ∀ d ∈ before, d.content ≠ row.record.content := fun d hd heq =>
      hapart d.content (List.mem_map.mpr ⟨d, hd, rfl⟩) repeated.content List.mem_cons_self
        (heq.trans hcontent.symm)
    have hotherRest : ∀ d ∈ rest, d.content ≠ row.record.content := fun d hd heq =>
      hnot (List.mem_map.mpr ⟨d, hd, heq.trans hcontent.symm⟩)
    have hstart : repeated.content.start = row.record.content.start := by rw [hcontent]
    obtain ⟨hrecords, hmoved, hlater, hearlier⟩ := @foldl_compareDraft_of_ne J H _ _ D ctx
      (some (latestOf D row)) before ⟨inEffectOf (some (latestOf D row)) false, 0, [], none, []⟩
      hbefore fun d hd => hhash d (hother d hd)
    have hrepeatedOf : repeatedOf row.record (before ++ repeated :: rest) = [repeated] := by
      rw [repeatedOf, List.filter_append, List.filter_cons_of_pos (by simp [hcontent]),
        List.filter_eq_nil_iff.mpr fun d hd h => hother d hd (of_decide_eq_true h),
        List.filter_eq_nil_iff.mpr fun d hd h => hotherRest d hd (of_decide_eq_true h)]
      rfl
    rw [List.foldl_append, List.foldl_cons, hrepeatedOf]
    by_cases hlate : ∀ d ∈ before, d.content.start ≤ row.record.content.start
    · -- The stored reading is still in effect when it is stated again.
      have hretaken : retakenOf row.record (before ++ repeated :: rest) = [] := by
        rw [retakenOf, List.dropWhile_append_of_pos fun d hd => decide_eq_true (hlate d hd),
          List.dropWhile_cons_of_pos (by simp [hstart]), repeatedOf,
          List.filter_eq_nil_iff]
        exact fun d hd h => hotherRest d ((List.dropWhile_sublist _).subset hd)
          (of_decide_eq_true h)
      have hkept := hearlier fun d hd => by
        refine decide_eq_false fun hle => ?_
        have heq : d.content.start = repeated.content.start := by
          rw [hstart]
          exact le_antisymm (hlate d hd) hle
        rw [List.map_append, List.nodup_append] at hstarts
        exact hstarts.2.2 _ (List.mem_map.mpr ⟨d, hd, rfl⟩) _
          (List.mem_map.mpr ⟨repeated, List.mem_cons_self, rfl⟩) heq
      obtain ⟨hrecords', heffect', hmoved'⟩ :=
        @compareDraft_repeated J H _ _ D ctx row _ repeated hkept hcontent
      obtain ⟨hrecords'', hmoved'', -, -⟩ := @foldl_compareDraft_of_ne J H _ _ D ctx
        (some (latestOf D row)) rest _ hrest fun d hd => by
          rw [heffect', hkept]
          exact hhash d (hotherRest d hd)
      rw [hrecords'', hrecords', hrecords, hmoved'', hmoved', hmoved, hretaken]
      refine ⟨?_, fun _ => rfl⟩
      rw [List.filter_append, List.filter_cons_of_neg (by simp [hcontent]),
        List.filter_eq_self.mpr fun d hd => by simp [hother d hd],
        List.filter_eq_self.mpr fun d hd => by simp [hotherRest d hd], List.map_append]
      rfl
    · push Not at hlate
      obtain ⟨newer, hnewer, hgt⟩ := hlate
      obtain ⟨said, hsaid, hsaidHash⟩ := hlater ⟨newer, hnewer, decide_eq_true hgt.le⟩
      obtain ⟨hrecords', -, -, -⟩ := @foldl_compareDraft_of_ne J H _ _ D ctx
        (some (latestOf D row)) (repeated :: rest) _ (List.nodup_cons.mpr ⟨hnot, hrest⟩)
        fun d hd heq => by
          rw [hsaidHash, Option.some_inj] at heq
          exact hapart said.content (List.mem_map.mpr ⟨said, hsaid, rfl⟩) d.content
            (List.mem_map.mpr ⟨d, hd, rfl⟩) (D.content.injective heq)
      refine ⟨?_, fun hnone => ?_⟩
      · have hretaken : repeated ∈ retakenOf row.record (before ++ repeated :: rest) := by
          refine List.mem_filter.mpr ⟨?_, decide_eq_true hcontent⟩
          rw [List.dropWhile_append, if_neg]
          · exact List.mem_append_right _ List.mem_cons_self
          · rw [List.isEmpty_iff, List.dropWhile_eq_nil_iff]
            exact fun hall => absurd (of_decide_eq_true (hall newer hnewer)) (not_le.mpr hgt)
        rw [← List.foldl_cons, hrecords', hrecords, List.filter_eq_self.mpr, List.map_append]
        · rfl
        · intro d hd
          refine decide_eq_true ?_
          rcases List.mem_append.mp hd with hd | hd
          · exact Or.inl (hother d hd)
          · rcases List.mem_cons.mp hd with rfl | hd
            · exact Or.inr hretaken
            · exact Or.inl (hotherRest d hd)
      · have hmem' : newer ∈ newerOf row.record (before ++ repeated :: rest) := by
          refine (List.mem_insertionSort _).mpr (List.mem_filter.mpr
            ⟨List.mem_append_left _ hnewer, decide_eq_true ⟨hgt.le, hother newer hnewer⟩⟩)
        rw [hnone] at hmem'
        cases hmem'
  · push Not at hrepeated
    obtain ⟨hrecords, hmoved, -, -⟩ := @foldl_compareDraft_of_ne J H _ _ D ctx
      (some (latestOf D row)) drafts ⟨inEffectOf (some (latestOf D row)) false, 0, [], none, []⟩
      (nodup_contents hstarts) fun d hd => hhash d (hrepeated d hd)
    have hnone : repeatedOf row.record drafts = [] :=
      List.filter_eq_nil_iff.mpr fun d hd h => hrepeated d hd (of_decide_eq_true h)
    refine ⟨?_, fun _ => ?_⟩
    · rw [hrecords, List.filter_eq_self.mpr fun d hd => decide_eq_true (Or.inl (hrepeated d hd))]
      rfl
    · rw [hmoved, hnone]
      rfl

/-! ## The order of the readings that are taken -/

omit [DecidableEq J] [DecidableEq H] in
/-- Readings with distinct starts are told apart by them. -/
theorem eq_of_start_eq {drafts : List (Observation J)} {a b : Observation J}
    (hstarts : (drafts.map fun d => d.content.start).Nodup) (ha : a ∈ drafts) (hb : b ∈ drafts)
    (heq : a.content.start = b.content.start) : a = b :=
  List.inj_on_of_nodup_map hstarts ha hb heq

omit [DecidableEq J] [DecidableEq H] in
/-- Readings with distinct starts in the order of these. -/
theorem inOrder_pairwise {drafts : List (Observation J)}
    (hstarts : (drafts.map fun d => d.content.start).Nodup) :
    (inOrder drafts).Pairwise fun a b => a.content.start < b.content.start := by
  have hle := List.pairwise_insertionSort
    (fun a b : Observation J => a.content.start ≤ b.content.start) drafts
  have hperm := List.perm_insertionSort
    (fun a b : Observation J => a.content.start ≤ b.content.start) drafts
  have hne : ((inOrder drafts).map fun d => d.content.start).Nodup :=
    (hperm.map fun d : Observation J => d.content.start).nodup_iff.mpr hstarts
  exact (hle.and (List.pairwise_map.mp hne)).imp fun h => lt_of_le_of_ne h.1 h.2

omit [DecidableEq J] [DecidableEq H] in
/-- Readings in order are a list in strict order that has the same members. -/
theorem inOrder_eq {taken ordered : List (Observation J)} (hnodup : taken.Nodup)
    (hordered : ordered.Pairwise fun a b => a.content.start < b.content.start)
    (hmem : ∀ d, d ∈ taken ↔ d ∈ ordered) : inOrder taken = ordered := by
  have hstarts : (ordered.map fun d => d.content.start).Nodup :=
    List.pairwise_map.mpr (hordered.imp fun h => h.ne)
  have hperm : taken.Perm ordered :=
    (List.perm_ext_iff_of_nodup hnodup hstarts.of_map).mpr hmem
  have hsort := List.perm_insertionSort
    (fun a b : Observation J => a.content.start ≤ b.content.start) taken
  refine (hsort.trans hperm).eq_of_pairwise (fun a b ha hb hab hba => ?_)
    (List.pairwise_insertionSort _ _) (hordered.imp fun h => h.le)
  exact eq_of_start_eq hstarts ((hsort.trans hperm).mem_iff.mp ha) hb (le_antisymm hab hba)

omit [DecidableEq H] in
/-- The late readings, the stored one stated again, and the newer ones are in order. -/
theorem ordered_pairwise {stored : Observation J} {drafts again : List (Observation J)}
    (hstarts : (drafts.map fun d => d.content.start).Nodup) (hsub : again.Sublist drafts)
    (hagain : ∀ d ∈ again, d.content = stored.content) :
    (lateOf stored drafts ++ again ++ newerOf stored drafts).Pairwise
      fun a b => a.content.start < b.content.start := by
  have hfilter : ∀ p : Observation J → Bool,
      ((drafts.filter p).map fun d => d.content.start).Nodup := fun p =>
    hstarts.sublist (List.filter_sublist.map _)
  have hlate : ∀ d ∈ lateOf stored drafts, d.content.start < stored.content.start := fun d hd =>
    of_decide_eq_true (List.mem_filter.mp ((List.mem_insertionSort _).mp hd)).2
  have hnewer : ∀ d ∈ newerOf stored drafts, d ∈ drafts ∧
      stored.content.start ≤ d.content.start ∧ d.content ≠ stored.content := fun d hd => by
    obtain ⟨hmem, h⟩ := List.mem_filter.mp ((List.mem_insertionSort _).mp hd)
    exact ⟨hmem, of_decide_eq_true h⟩
  have hone : again.Pairwise fun a b => a.content.start < b.content.start := by
    have hne : again.Pairwise fun a b => a.content.start ≠ b.content.start :=
      (List.pairwise_map.mp hstarts).sublist hsub
    refine hne.imp_of_mem fun ha hb h => absurd ?_ h
    rw [hagain _ ha, hagain _ hb]
  rw [List.pairwise_append, List.pairwise_append]
  refine ⟨⟨inOrder_pairwise (hfilter _), hone, fun a ha b hb => ?_⟩,
    inOrder_pairwise (hfilter _), fun a ha b hb => ?_⟩
  · rw [hagain b hb]
    exact hlate a ha
  · obtain ⟨hmem, hle, hother⟩ := hnewer b hb
    rcases List.mem_append.mp ha with ha | ha
    · exact (hlate a ha).trans_le hle
    · refine lt_of_le_of_ne (by rw [hagain a ha]; exact hle) fun heq => hother ?_
      rw [← eq_of_start_eq hstarts (hsub.subset ha) hmem heq, hagain a ha]

omit [DecidableEq H] in
/-- What is stated again after a later reading, in order with the others. -/
theorem taken_pairwise {stored : Observation J} {drafts : List (Observation J)}
    (hstarts : (drafts.map fun d => d.content.start).Nodup) :
    (lateOf stored drafts ++ retakenOf stored drafts ++ newerOf stored drafts).Pairwise
      fun a b => a.content.start < b.content.start :=
  ordered_pairwise hstarts (List.filter_sublist.trans (List.dropWhile_sublist _))
    fun _ hd => (mem_retakenOf hd).2

/-- **The order** of the readings that are taken: the late ones, the stored one where it is taken
again, and the newer ones. -/
theorem inOrder_taken {stored : Observation J} {drafts : List (Observation J)}
    (hstarts : (drafts.map fun d => d.content.start).Nodup) :
    inOrder (drafts.filter fun d => decide (d.content ≠ stored.content ∨
        d ∈ retakenOf stored drafts)) =
      lateOf stored drafts ++ retakenOf stored drafts ++ newerOf stored drafts := by
  refine inOrder_eq (hstarts.of_map.filter _) (taken_pairwise hstarts) fun d => ?_
  simp only [List.mem_append, lateOf, newerOf, inOrder, List.mem_insertionSort, List.mem_filter,
    decide_eq_true_iff]
  constructor
  · rintro ⟨hmem, hother | hretaken⟩
    · rcases lt_or_ge d.content.start stored.content.start with hlt | hge
      · exact Or.inl (Or.inl ⟨hmem, hlt⟩)
      · exact Or.inr ⟨hmem, hge, hother⟩
    · exact Or.inl (Or.inr hretaken)
  · rintro ((⟨hmem, hlt⟩ | hretaken) | ⟨hmem, -, hother⟩)
    · exact ⟨hmem, Or.inl fun heq => absurd (congrArg ObservationContent.start heq) hlt.ne⟩
    · exact ⟨(mem_retakenOf hretaken).1, Or.inr hretaken⟩
    · exact ⟨hmem, Or.inl hother⟩

/-! ## The rows of a series -/

variable (ctx) in
/-- The reading in effect after some readings in the order of their starts, the last one sealed. -/
def readingAfter (held : Option (J × Instant)) (readings : List (Observation J)) :
    Option (Observation J × Instant × Instant) :=
  readings.getLast?.map fun last => (sealDraft ctx last, last.content.start,
    ((HeldSince.after held (readings.map resultAt)).map Prod.snd).getD last.content.start)

omit [DecidableEq H] in
/-- One record of a series. -/
theorem addRecord_spec {held : Option (Latest J H)} {key : SeriesKey} {st : SeriesRows J}
    {record : Observation J} {before : Option (J × Instant)}
    (hresult : st.result = before.map Prod.fst) (hsince : st.since = before.map Prod.snd) :
    (addRecord ctx held key st record).result =
        (some (HeldSince.take before (resultAt record))).map Prod.fst ∧
      (addRecord ctx held key st record).since =
        (some (HeldSince.take before (resultAt record))).map Prod.snd ∧
      (addRecord ctx held key st record).newest =
        if held.all fun h => decide (h.effectiveFrom ≤ record.content.start) then
          some (record, (HeldSince.take before (resultAt record)).2)
        else st.newest := by
  have hfields : (addRecord ctx held key st record).result = some record.content.result ∧
      (addRecord ctx held key st record).since =
        (if decide (st.result ≠ some record.content.result) then some record.content.start
          else st.since) ∧
      (addRecord ctx held key st record).newest =
        if held.all fun h => decide (h.effectiveFrom ≤ record.content.start) then
          some (record, (if decide (st.result ≠ some record.content.result) then
            some record.content.start else st.since).getD record.content.start)
        else st.newest := by
    unfold addRecord
    cases st.retentionDays with
    | none => exact ⟨rfl, rfl, rfl⟩
    | some days =>
      dsimp only
      split
      · split <;> exact ⟨rfl, rfl, rfl⟩
      · exact ⟨rfl, rfl, rfl⟩
  have htake : (if decide (st.result ≠ some record.content.result) then some record.content.start
      else st.since) = some (HeldSince.take before (resultAt record)).2 := by
    rw [hresult, hsince]
    cases before with
    | none => simp [HeldSince.take, resultAt]
    | some b =>
      by_cases hb : b.1 = record.content.result
      · simp [HeldSince.take, resultAt, hb]
      · simp [HeldSince.take, resultAt, hb]
  obtain ⟨hr, hs, hn⟩ := hfields
  refine ⟨?_, hs.trans htake, ?_⟩
  · rw [hr, Option.map_some, HeldSince.fst_take]
    rfl
  · rw [hn, htake, Option.getD_some]

omit [DecidableEq H] in
/-- **The rows of a series** are threaded through its records in order. -/
theorem foldl_addRecord {held : Option (Latest J H)} {key : SeriesKey} {st : SeriesRows J}
    {before : Option (J × Instant)} (hresult : st.result = before.map Prod.fst)
    (hsince : st.since = before.map Prod.snd) (readings : List (Observation J)) :
    ((readings.map (sealDraft ctx)).foldl (addRecord ctx held key) st).result =
        (HeldSince.after before (readings.map resultAt)).map Prod.fst ∧
      ((readings.map (sealDraft ctx)).foldl (addRecord ctx held key) st).since =
        (HeldSince.after before (readings.map resultAt)).map Prod.snd := by
  induction readings generalizing st before with
  | nil => exact ⟨hresult, hsince⟩
  | cons reading readings ih =>
    obtain ⟨hr, hs, -⟩ := @addRecord_spec J H _ ctx held key st (sealDraft ctx reading) before
      hresult hsince
    exact ih hr hs

/-! ## One write of a series -/

/-- The stored reading, with the expiry it is stated again with. -/
def withRepeated (stored : Observation J) (drafts : List (Observation J)) : Observation J :=
  match (repeatedOf stored drafts).head? with
  | some draft => { stored with expiresAt := draft.expiresAt }
  | none => stored

variable (ctx) in
/-- What a write of a series makes of its reading in effect. -/
def readingWritten (held : Option (Observation J × Instant × Instant))
    (drafts : List (Observation J)) : Option (Observation J × Instant × Instant) :=
  match held with
  | none => readingAfter ctx none (inOrder drafts)
  | some (stored, start, since) =>
    if (newerOf stored drafts).isEmpty then some (withRepeated stored drafts, start, since)
    else readingAfter ctx (some (stored.content.result, since))
      (lateOf stored drafts ++ retakenOf stored drafts ++ newerOf stored drafts)

omit [DecidableEq J] [DecidableEq H] in
/-- The readings of one series are one series of a write. -/
theorem pendingOf_one {key : SeriesKey} {drafts : List (Observation J)} (hne : drafts ≠ [])
    (hkey : ∀ d ∈ drafts, d.content.key = key)
    (hpolled : ∀ d ∈ drafts, validWhilePolled ctx d = false) :
    pendingOf ctx drafts = [⟨key, drafts⟩] := by
  have hfold : ∀ (rest ds : List (Observation J))
      (pending : OrderedMap SeriesKey (List (Observation J))), pending.entries = [(key, ds)] →
      (∀ d ∈ rest, d.content.key = key) → (∀ d ∈ rest, validWhilePolled ctx d = false) →
      (rest.foldl (addPending ctx) pending).entries = [(key, ds ++ rest)] := by
    intro rest
    induction rest with
    | nil =>
      intro ds pending hpending _ _
      rw [List.foldl_nil, hpending, List.append_nil]
    | cons d rest ih =>
      intro ds pending hpending hkeys hvalid
      rw [List.foldl_cons, ih (ds ++ [d]) _ ?_
        (fun x hx => hkeys x (List.mem_cons_of_mem _ hx))
        (fun x hx => hvalid x (List.mem_cons_of_mem _ hx)), List.append_assoc, List.singleton_append]
      have hget : pending.get key = some ds :=
        (OrderedMap.get_eq_some_iff _).mpr (by rw [hpending]; exact List.mem_cons_self)
      simp only [addPending, withoutValidity_of_not_polled (hvalid d List.mem_cons_self), hget,
        Option.getD_some, OrderedMap.set, hpending, OrderedMap.setEntries,
        hkeys d List.mem_cons_self, if_true]
  obtain ⟨first, rest, rfl⟩ := List.exists_cons_of_ne_nil hne
  have hstart : (addPending ctx .empty first).entries = [(key, [first])] := by
    simp only [addPending, withoutValidity_of_not_polled (hpolled first List.mem_cons_self),
      hkey first List.mem_cons_self]
    rfl
  rw [pendingOf, List.foldl_cons, hfold rest [first] _ hstart
    (fun d hd => hkey d (List.mem_cons_of_mem _ hd))
    fun d hd => hpolled d (List.mem_cons_of_mem _ hd)]
  rfl

/-- A write of the readings of one series is that of its outcome. -/
theorem writeObservationsIn_one {key : SeriesKey} {drafts : List (Observation J)}
    {sourceId : String} (hne : drafts ≠ []) (hkey : ∀ d ∈ drafts, d.content.key = key)
    (hsource : key.sourceId = sourceId) (hpolled : ∀ d ∈ drafts, validWhilePolled ctx d = false) :
    (writeObservationsIn D ctx db none sourceId drafts).1 =
      (applyOutcomes D ctx db [outcomeOf D ctx db ⟨key, drafts⟩]).1 := by
  have hown : (drafts.filter fun d => decide (d.content.key.sourceId = sourceId)) = drafts :=
    List.filter_eq_self.mpr fun d hd => decide_eq_true (by rw [hkey d hd, hsource])
  have hslices : slicesOf [(⟨key, drafts⟩ : PendingSeries J)] = [[⟨key, drafts⟩]] := by
    simp [slicesOf, addToSlice, seriesPerSlice]
  unfold writeObservationsIn
  dsimp only
  rw [hown, pendingOf_one hne hkey hpolled, hslices]
  rfl

omit [DecidableEq J] in
/-- What a write says again of a row changes its expiry only. -/
theorem readingAt_stated (outcomes : List (SeriesOutcome J H)) (key : SeriesKey) :
    ({ db with
      latest := (db.latest.update (withReceipt D (outcomes.flatMap SeriesOutcome.legacy))
        (key_withReceipt D _)).update (withExpiry (outcomes.flatMap SeriesOutcome.moved))
          (key_withExpiry _) } : ObservationDb J).readingAt key =
      (db.latest.rows.get key).map fun row =>
        ((withExpiry (outcomes.flatMap SeriesOutcome.moved) row).record, row.record.content.start,
          row.sinceAt) := by
  simp only [ObservationDb.readingAt, LatestTable.update, OrderedMap.get_mapValues, Option.map_map]
  refine congrArg (fun g => (db.latest.rows.get key).map g) (funext fun row => ?_)
  have hreceipt : (withReceipt D (outcomes.flatMap SeriesOutcome.legacy) row).record =
      row.record ∧
      (withReceipt D (outcomes.flatMap SeriesOutcome.legacy) row).sinceAt = row.sinceAt ∧
      (withReceipt D (outcomes.flatMap SeriesOutcome.legacy) row).seriesId = row.seriesId := by
    unfold withReceipt
    split
    · split <;> exact ⟨rfl, rfl, rfl⟩
    · exact ⟨rfl, rfl, rfl⟩
  obtain ⟨hrecord, hsince, hid⟩ := hreceipt
  simp only [Function.comp_apply, withExpiry, hid]
  split
  · simp only [LatestRow.setExpiry, hrecord, hsince]
  · simp only [hrecord, hsince]

omit [DecidableEq J] in
/-- The statements of a write, on the series of its one outcome. -/
theorem readingAt_applyOutcomes {outcome : SeriesOutcome J H} {key : SeriesKey} :
    (outcome.rows = [] → (applyOutcomes D ctx db [outcome]).1.readingAt key =
      (db.latest.rows.get key).map fun row => ((withExpiry outcome.moved row).record,
        row.record.content.start, row.sinceAt)) ∧
    ∀ row, outcome.rows = [row] → row.record.content.key = key →
      (applyOutcomes D ctx db [outcome]).1.readingAt key =
        some (row.record, row.record.content.start, row.sinceAt) := by
  obtain ⟨db₁, hstated, hdb⟩ : ∃ db₁ : ObservationDb J, db₁.readingAt key =
      (db.latest.rows.get key).map (fun row =>
        ((withExpiry ([outcome].flatMap SeriesOutcome.moved) row).record,
          row.record.content.start, row.sinceAt)) ∧
      (applyOutcomes D ctx db [outcome]).1.readingAt key =
        ((([outcome].flatMap SeriesOutcome.rows).filter fun r => r.seriesId.isNone).foldl
          (putSeriesRow ctx) ((([outcome].flatMap SeriesOutcome.rows).filter
            fun r => r.seriesId.isSome).foldl (putSeriesRow ctx) db₁)).readingAt key :=
    ⟨_, readingAt_stated [outcome] key, rfl⟩
  rw [List.flatMap_singleton] at hstated hdb
  rw [hdb, ← hstated]
  refine ⟨fun hrows => by rw [hrows]; rfl, fun row hrows hkey => ?_⟩
  rw [hrows]
  cases hid : row.seriesId with
  | none =>
    simp only [List.filter_cons, hid, Option.isSome_none, Option.isNone_none, if_true,
      Bool.false_eq_true, if_false, List.filter_nil, List.foldl_nil, List.foldl_cons]
    exact (readingAt_putSeriesRow row key).trans (if_pos hkey.symm)
  | some id =>
    simp only [List.filter_cons, hid, Option.isSome_some, Option.isNone_some, if_true,
      Bool.false_eq_true, if_false, List.filter_nil, List.foldl_nil, List.foldl_cons]
    exact (readingAt_putSeriesRow row key).trans (if_pos hkey.symm)

/-- The comparison of a series that is not polled. -/
theorem compareSeries_of_not_polled {held : Option (Latest J H)} {series : PendingSeries J}
    (hpolled : ∀ d ∈ series.drafts, validWhilePolled ctx d = false) :
    compareSeries D ctx held series =
      series.drafts.foldl (compareDraft D ctx held false false)
        ⟨inEffectOf held false, 0, [], none, []⟩ := by
  have hfirst : series.drafts.head?.any (validWhilePolled ctx) = false := by
    cases hhead : series.drafts.head? with
    | none => rfl
    | some first => exact hpolled first (List.mem_of_mem_head? hhead)
  unfold compareSeries comparedDrafts
  dsimp only
  rw [hfirst, if_neg Bool.false_ne_true]
  rfl

omit [DecidableEq H] in
/-- The newest reading of the records a series takes. -/
theorem newest_rowsOf {held : Option (Latest J H)} {key : SeriesKey}
    {taken ordered : List (Observation J)} (hordered : inOrder taken = ordered) :
    (∀ last, ordered.getLast? = some last →
      (held.all fun h => decide (h.effectiveFrom ≤ last.content.start)) = true →
      (rowsOf ctx held key (taken.map (sealDraft ctx))).newest.map
          (fun n => (n.1, n.1.content.start, n.2)) =
        readingAfter ctx (held.map fun h => (h.result, h.sinceAt)) ordered) ∧
    ((∀ d ∈ taken, (held.all fun h => decide (h.effectiveFrom ≤ d.content.start)) = false) →
      (rowsOf ctx held key (taken.map (sealDraft ctx))).newest = none) := by
  have hsorted : (taken.map (sealDraft ctx)).insertionSort
      (fun a b => a.content.start ≤ b.content.start) = ordered.map (sealDraft ctx) := by
    rw [← hordered]
    exact (List.map_insertionSort (fun a b : Observation J => a.content.start ≤ b.content.start) _
      (sealDraft ctx) taken fun a _ b _ => Iff.rfl).symm
  constructor
  · intro last hlast hall
    rcases List.eq_nil_or_concat ordered with rfl | ⟨xs, x, rfl⟩
    · cases hlast
    · rw [List.concat_eq_append] at hlast hsorted ⊢
      obtain rfl : x = last := by simpa using hlast
      unfold rowsOf
      dsimp only
      rw [hsorted, List.map_append, List.foldl_append, List.map_singleton, List.foldl_cons,
        List.foldl_nil]
      obtain ⟨hresult, hsince⟩ := @foldl_addRecord J H _ ctx held key
        ⟨(xs.map (sealDraft ctx) ++ [sealDraft ctx x]).head?.bind (keptDays ctx),
          held.map Latest.result, held.map Latest.creditProvenance, held.map Latest.sinceAt, none,
          [], 0, 0⟩ (held.map fun h => (h.result, h.sinceAt))
        (by cases held <;> rfl) (by cases held <;> rfl) xs
      obtain ⟨-, -, hnewest⟩ := @addRecord_spec J H _ ctx held key _ (sealDraft ctx x) _ hresult
        hsince
      rw [hnewest, content_sealDraft, if_pos hall, readingAfter, List.getLast?_concat,
        List.map_append,
        List.map_singleton, HeldSince.after_concat]
      rfl
  · intro hlate
    have hsome := @newest_rowsOf_isSome J H _ ctx held key (taken.map (sealDraft ctx))
    refine Option.not_isSome_iff_eq_none.mp fun h => ?_
    obtain ⟨record, hrecord, hall⟩ := hsome.mp h
    obtain ⟨d, hd, rfl⟩ := List.mem_map.mp hrecord
    rw [content_sealDraft, hlate d hd] at hall
    cases hall

omit [DecidableEq H] in
/-- The stored reading is taken again where a newer one is stated only. -/
theorem retakenOf_of_no_newer {stored : Observation J} {drafts : List (Observation J)}
    (hnewer : newerOf stored drafts = []) : retakenOf stored drafts = [] := by
  cases hdrop : drafts.dropWhile fun d => decide (d.content.start ≤ stored.content.start) with
  | nil => rw [retakenOf, hdrop]; rfl
  | cons first rest =>
    have hlater := List.head?_dropWhile_not
      (fun d : Observation J => decide (d.content.start ≤ stored.content.start)) drafts
    rw [hdrop] at hlater
    have hlt : stored.content.start < first.content.start := by simpa using hlater
    have hmem : first ∈ newerOf stored drafts := by
      refine (List.mem_insertionSort _).mpr (List.mem_filter.mpr
        ⟨(List.dropWhile_sublist _).subset (hdrop ▸ List.mem_cons_self),
          decide_eq_true ⟨hlt.le, fun heq => ?_⟩⟩)
      rw [heq] at hlt
      exact lt_irrefl _ hlt
    rw [hnewer] at hmem
    cases hmem

/-- **One write** of readings of a series that is not polled. -/
theorem readingAt_writeObservationsIn {key : SeriesKey} {drafts : List (Observation J)}
    {sourceId : String} (hne : drafts ≠ []) (hkey : ∀ d ∈ drafts, d.content.key = key)
    (hsource : key.sourceId = sourceId) (hpolled : ∀ d ∈ drafts, validWhilePolled ctx d = false)
    (hstarts : (drafts.map fun d => d.content.start).Nodup) :
    (writeObservationsIn D ctx db none sourceId drafts).1.readingAt key =
      readingWritten ctx (db.readingAt key) drafts := by
  rw [writeObservationsIn_one hne hkey hsource hpolled]
  obtain ⟨hnone, hone⟩ := @readingAt_applyOutcomes J H _ D ctx db
    (outcomeOf D ctx db ⟨key, drafts⟩) key
  have hheld : loadLatest D ctx db ⟨key, drafts⟩ = (db.latest.rows.get key).map (latestOf D) :=
    loadLatest_eq
  have hcompared := fun held => @compareSeries_of_not_polled J H _ _ D ctx held ⟨key, drafts⟩
    hpolled
  -- A newest reading becomes the row.
  have htaken : ∀ (taken ordered : List (Observation J)) (held : Option (Latest J H)),
      loadLatest D ctx db ⟨key, drafts⟩ = held →
      (compareSeries D ctx held ⟨key, drafts⟩).records = taken.map (sealDraft ctx) →
      inOrder taken = ordered → (∀ d ∈ ordered, d.content.key = key) →
      (∃ last, ordered.getLast? = some last ∧
        (held.all fun h => decide (h.effectiveFrom ≤ last.content.start)) = true) →
      (applyOutcomes D ctx db [outcomeOf D ctx db ⟨key, drafts⟩]).1.readingAt key =
        readingAfter ctx (held.map fun h => (h.result, h.sinceAt)) ordered := by
    rintro taken ordered held hload hrecords hordered hkeys ⟨last, hlast, hall⟩
    have hnewest := (@newest_rowsOf J H _ ctx held key taken ordered hordered).1 last hlast hall
    rw [← hnewest]
    cases hrow : (rowsOf ctx held key (taken.map (sealDraft ctx))).newest with
    | none =>
      rw [hrow, readingAfter, hlast] at hnewest
      cases hnewest
    | some newest =>
      rw [hrow, readingAfter, hlast, Option.map_some, Option.map_some, Option.some_inj,
        Prod.mk.injEq] at hnewest
      have hkeyNewest : newest.1.content.key = key := by
        rw [hnewest.1, content_sealDraft]
        exact hkeys last (List.mem_of_getLast? hlast)
      have hrows : ∃ row, (outcomeOf D ctx db ⟨key, drafts⟩).rows = [row] ∧
          row.record = newest.1 ∧ row.sinceAt = newest.2 := by
        unfold outcomeOf
        dsimp only
        rw [hload, hrecords, hrow]
        exact ⟨_, rfl, rfl, rfl⟩
      obtain ⟨row, hrows, hrecord, hsince⟩ := hrows
      rw [hone row hrows (by rw [hrecord, hkeyNewest]), hrecord, hsince]
      rfl
  cases hget : db.latest.rows.get key with
  | none =>
    rw [hget, Option.map_none] at hheld
    have hreading : db.readingAt key = none := by rw [ObservationDb.readingAt, hget]; rfl
    have hrecords : (compareSeries D ctx none ⟨key, drafts⟩).records =
        drafts.map (sealDraft ctx) := by
      rw [hcompared]
      exact (foldl_compareDraft_of_ne (nodup_contents hstarts) fun d _ h => by cases h).1
    have hlast : (inOrder drafts).getLast? ≠ none := by
      rw [ne_eq, List.getLast?_eq_none_iff, inOrder, ← List.length_eq_zero_iff,
        List.length_insertionSort, List.length_eq_zero_iff]
      exact hne
    obtain ⟨last, hlast⟩ := Option.ne_none_iff_exists'.mp hlast
    rw [hreading, readingWritten]
    exact htaken drafts (inOrder drafts) none hheld hrecords rfl
      (fun d hd => hkey d ((List.mem_insertionSort _).mp hd)) ⟨last, hlast, rfl⟩
  | some row =>
    rw [hget, Option.map_some] at hheld
    have hreading : db.readingAt key =
        some (row.record, row.record.content.start, row.sinceAt) := by
      rw [ObservationDb.readingAt, hget]
      rfl
    obtain ⟨hrecords, hmoved⟩ := @foldl_compareDraft_stored J H _ _ D ctx row drafts hstarts
    rw [← hcompared (some (latestOf D row))] at hrecords hmoved
    have hordered := @inOrder_taken J _ row.record drafts hstarts
    rw [hreading, readingWritten]
    by_cases hnewer : newerOf row.record drafts = []
    · rw [hnewer, List.isEmpty_nil, if_pos rfl]
      rw [hnewer, retakenOf_of_no_newer hnewer, List.append_nil, List.append_nil] at hordered
      have hnewest := (@newest_rowsOf J H _ ctx (some (latestOf D row)) key _ _ hordered).2
        fun d hd => by
          have hlate : d ∈ lateOf row.record drafts := by
            rw [← hordered]
            exact (List.mem_insertionSort _).mpr hd
          have hlt := of_decide_eq_true
            (List.mem_filter.mp ((List.mem_insertionSort _).mp hlate)).2
          exact decide_eq_false (not_le.mpr hlt)
      have hrows : (outcomeOf D ctx db ⟨key, drafts⟩).rows = [] := by
        unfold outcomeOf
        dsimp only
        rw [hheld, hrecords, retakenOf_of_no_newer hnewer, hnewest]
        rfl
      have hmovedRows : (outcomeOf D ctx db ⟨key, drafts⟩).moved =
          ((repeatedOf row.record drafts).head?.bind fun d =>
            if d.expiresAt ≠ row.record.expiresAt then some (row.seriesId, d.expiresAt)
            else none).toList := by
        rw [← hmoved hnewer, ← hheld]
        rfl
      rw [hnone hrows, hget, Option.map_some, hmovedRows, withRepeated]
      cases hagain : (repeatedOf row.record drafts).head? with
      | none => rfl
      | some draft =>
        by_cases hexpires : draft.expiresAt = row.record.expiresAt
        · simp only [Option.bind_some, hexpires, ne_eq, not_true, if_false, Option.toList_none]
          rfl
        · simp only [Option.bind_some, ne_eq, hexpires, not_false_iff, if_true, Option.toList_some,
            withExpiry, List.find?_cons, decide_true, LatestRow.setExpiry]
    · rw [if_neg (by rwa [List.isEmpty_iff])]
      obtain ⟨last, hlast⟩ := Option.ne_none_iff_exists'.mp
        (mt List.getLast?_eq_none_iff.mp hnewer)
      have hmem := (List.mem_insertionSort _).mp (List.mem_of_getLast? hlast)
      refine htaken _ _ (some (latestOf D row)) hheld hrecords hordered (fun d hd => ?_)
        ⟨last, by rw [List.getLast?_append, hlast, Option.some_or], ?_⟩
      · rw [← hordered] at hd
        exact hkey d (List.mem_filter.mp ((List.mem_insertionSort _).mp hd)).1
      · exact decide_eq_true (of_decide_eq_true (List.mem_filter.mp hmem).2).1

/-! ## Writes of one reading each -/

omit [DecidableEq H] in
/-- The readings of a write in order: the late ones, the stored one stated again, the newer ones. -/
theorem inOrder_drafts {stored : Observation J} {drafts : List (Observation J)}
    (hstarts : (drafts.map fun d => d.content.start).Nodup) :
    inOrder drafts =
      lateOf stored drafts ++ repeatedOf stored drafts ++ newerOf stored drafts := by
  have hordered := @ordered_pairwise J _ stored drafts (repeatedOf stored drafts) hstarts
    List.filter_sublist fun d hd => of_decide_eq_true (List.mem_filter.mp hd).2
  refine inOrder_eq hstarts.of_map hordered fun d => ?_
  simp only [List.mem_append, lateOf, newerOf, repeatedOf, inOrder, List.mem_insertionSort,
    List.mem_filter, decide_eq_true_iff]
  constructor
  · intro hmem
    by_cases hcontent : d.content = stored.content
    · exact Or.inl (Or.inr ⟨hmem, hcontent⟩)
    · rcases lt_or_ge d.content.start stored.content.start with hlt | hge
      · exact Or.inl (Or.inl ⟨hmem, hlt⟩)
      · exact Or.inr ⟨hmem, hge, hcontent⟩
  · rintro ((⟨hmem, -⟩ | ⟨hmem, -⟩) | ⟨hmem, -, -⟩) <;> exact hmem

variable (ctx) in
/-- The reading in effect once another one has been written. -/
def takeReading (held : Option (Observation J × Instant × Instant)) (draft : Observation J) :
    Option (Observation J × Instant × Instant) :=
  match held with
  | none => some (sealDraft ctx draft, draft.content.start, draft.content.start)
  | some (stored, start, since) =>
    if draft.content = stored.content then
      some ({ stored with expiresAt := draft.expiresAt }, start, since)
    else if draft.content.start < stored.content.start then held
    else some (sealDraft ctx draft, draft.content.start,
      (HeldSince.take (some (stored.content.result, since)) (resultAt draft)).2)

omit [DecidableEq H] in
/-- **A write of one reading**: an older one leaves the reading in effect, the same one states its
expiry, and a newer one becomes it. -/
theorem readingWritten_one (held : Option (Observation J × Instant × Instant))
    (draft : Observation J) : readingWritten ctx held [draft] = takeReading ctx held draft := by
  cases held with
  | none => rfl
  | some h =>
    obtain ⟨stored, start, since⟩ := h
    rw [readingWritten, takeReading]
    by_cases hcontent : draft.content = stored.content
    · have hnewer : newerOf stored [draft] = [] := by simp [newerOf, hcontent, inOrder]
      rw [if_pos hcontent, hnewer, List.isEmpty_nil, if_pos rfl, withRepeated, repeatedOf,
        List.filter_cons_of_pos (by simp [hcontent])]
      rfl
    · rw [if_neg hcontent]
      by_cases hlate : draft.content.start < stored.content.start
      · have hnewer : newerOf stored [draft] = [] := by
          simp [newerOf, inOrder, hlate]
        rw [if_pos hlate, hnewer, List.isEmpty_nil, if_pos rfl, withRepeated, repeatedOf,
          List.filter_cons_of_neg (by simp [hcontent])]
        rfl
      · have hnewer : newerOf stored [draft] = [draft] := by
          simp [newerOf, inOrder, hcontent, not_lt.mp hlate]
        have hlateOf : lateOf stored [draft] = [] := by simp [lateOf, inOrder, hlate]
        have hretaken : retakenOf stored [draft] = [] :=
          List.filter_eq_nil_iff.mpr fun d hd h => by
            rw [List.mem_singleton.mp ((List.dropWhile_sublist _).subset hd)] at h
            exact hcontent (of_decide_eq_true h)
        rw [if_neg hlate, hnewer, hlateOf, hretaken]
        rfl

omit [DecidableEq J] [DecidableEq H] in
/-- Readings in order after one are newer than it once it is sealed. -/
theorem newer_of_forall_lt {d : Observation J} {rest : List (Observation J)}
    (hfirst : ∀ x ∈ rest, d.content.start < x.content.start) :
    ∀ x ∈ rest, (sealDraft ctx d).content.start ≤ x.content.start ∧
      x.content ≠ (sealDraft ctx d).content := by
  refine fun x hx => ⟨(hfirst x hx).le, fun heq => ?_⟩
  have hlt := hfirst x hx
  rw [heq, content_sealDraft] at hlt
  exact lt_irrefl _ hlt

omit [DecidableEq H] in
/-- Newer readings in order are taken one after the other. -/
theorem foldl_takeReading_newer {stored : Observation J} {start since : Instant}
    {readings : List (Observation J)} (hne : readings ≠ [])
    (hsorted : readings.Pairwise fun a b => a.content.start < b.content.start)
    (hnewer : ∀ d ∈ readings, stored.content.start ≤ d.content.start ∧
      d.content ≠ stored.content) :
    readings.foldl (takeReading ctx) (some (stored, start, since)) =
      readingAfter ctx (some (stored.content.result, since)) readings := by
  induction readings generalizing stored start since with
  | nil => exact absurd rfl hne
  | cons d rest ih =>
    obtain ⟨hfirst, hrest⟩ := List.pairwise_cons.mp hsorted
    obtain ⟨hle, hother⟩ := hnewer d List.mem_cons_self
    have htake : takeReading ctx (some (stored, start, since)) d =
        some (sealDraft ctx d, d.content.start,
          (HeldSince.take (some (stored.content.result, since)) (resultAt d)).2) := by
      rw [takeReading, if_neg hother, if_neg (not_lt.mpr hle)]
    rw [List.foldl_cons, htake]
    cases rest with
    | nil => rfl
    | cons e rest =>
      have hpair : ((sealDraft ctx d).content.result,
          (HeldSince.take (some (stored.content.result, since)) (resultAt d)).2) =
          HeldSince.take (some (stored.content.result, since)) (resultAt d) :=
        Prod.ext (HeldSince.fst_take _ (resultAt d)).symm rfl
      rw [ih (List.cons_ne_nil _ _) hrest (newer_of_forall_lt hfirst), hpair, readingAfter,
        readingAfter, List.getLast?_cons_cons]
      rfl

omit [DecidableEq H] in
/-- Late readings leave the reading in effect. -/
theorem foldl_takeReading_late {stored : Observation J} {start since : Instant}
    {readings : List (Observation J)}
    (hlate : ∀ d ∈ readings, d.content.start < stored.content.start) :
    readings.foldl (takeReading ctx) (some (stored, start, since)) =
      some (stored, start, since) := by
  induction readings with
  | nil => rfl
  | cons d rest ih =>
    have hlt := hlate d List.mem_cons_self
    have hother : d.content ≠ stored.content := fun heq => by
      rw [heq] at hlt
      exact lt_irrefl _ hlt
    rw [List.foldl_cons, takeReading, if_neg hother, if_pos hlt]
    exact ih fun x hx => hlate x (List.mem_cons_of_mem _ hx)

variable (ctx) in
/-- What writes of one reading each make of the reading in effect of a series. -/
def readingsWrittenOneByOne (held : Option (Observation J × Instant × Instant))
    (drafts : List (Observation J)) : Option (Observation J × Instant × Instant) :=
  match held with
  | none => readingAfter ctx none (inOrder drafts)
  | some (stored, start, since) =>
    if (newerOf stored drafts).isEmpty then some (withRepeated stored drafts, start, since)
    else readingAfter ctx (some (stored.content.result, since)) (newerOf stored drafts)

omit [DecidableEq H] in
/-- **Writes of one reading each**, in the order of their starts. -/
theorem readingAt_foldl_takeReading {held : Option (Observation J × Instant × Instant)}
    {drafts : List (Observation J)} (hne : drafts ≠ [])
    (hstarts : (drafts.map fun d => d.content.start).Nodup) :
    (inOrder drafts).foldl (takeReading ctx) held =
      readingsWrittenOneByOne ctx held drafts := by
  cases held with
  | none =>
    rw [readingsWrittenOneByOne]
    have hsorted := inOrder_pairwise hstarts
    cases hordered : inOrder drafts with
    | nil =>
      refine absurd (List.length_eq_zero_iff.mp ?_) hne
      rw [← List.length_insertionSort (fun a b : Observation J =>
        a.content.start ≤ b.content.start) drafts]
      exact congrArg List.length hordered
    | cons d rest =>
      rw [hordered] at hsorted
      obtain ⟨hfirst, hrest⟩ := List.pairwise_cons.mp hsorted
      rw [List.foldl_cons, takeReading]
      cases rest with
      | nil => rfl
      | cons e rest =>
        rw [foldl_takeReading_newer (List.cons_ne_nil _ _) hrest (newer_of_forall_lt hfirst),
          readingAfter, readingAfter, List.getLast?_cons_cons]
        rfl
  | some h =>
    obtain ⟨stored, start, since⟩ := h
    have hordered := @inOrder_drafts J _ stored drafts hstarts
    have hsorted := @inOrder_pairwise J drafts hstarts
    rw [hordered] at hsorted ⊢
    obtain ⟨hbefore, hnewerSorted, -⟩ := List.pairwise_append.mp hsorted
    obtain ⟨-, hagainSorted, -⟩ := List.pairwise_append.mp hbefore
    have hlate : ∀ d ∈ lateOf stored drafts, d.content.start < stored.content.start :=
      fun d hd => of_decide_eq_true (List.mem_filter.mp ((List.mem_insertionSort _).mp hd)).2
    have hnewerThan : ∀ d ∈ newerOf stored drafts, stored.content.start ≤ d.content.start ∧
        d.content ≠ stored.content :=
      fun d hd => of_decide_eq_true (List.mem_filter.mp ((List.mem_insertionSort _).mp hd)).2
    rw [List.foldl_append, List.foldl_append, foldl_takeReading_late hlate]
    -- The stored reading is stated again once at most.
    have hagain : (repeatedOf stored drafts).foldl (takeReading ctx) (some (stored, start, since)) =
        some (withRepeated stored drafts, start, since) := by
      have hcontents : ∀ d ∈ repeatedOf stored drafts, d.content = stored.content :=
        fun d hd => of_decide_eq_true (List.mem_filter.mp hd).2
      rw [withRepeated]
      match hlist : repeatedOf stored drafts with
      | [] => rfl
      | [d] =>
        have hcontent := hcontents d (hlist ▸ List.mem_cons_self)
        rw [List.foldl_cons, takeReading, if_pos hcontent]
        rfl
      | d :: e :: rest =>
        rw [hlist] at hagainSorted hcontents
        have hlt := (List.pairwise_cons.mp hagainSorted).1 e List.mem_cons_self
        rw [hcontents d List.mem_cons_self,
          hcontents e (List.mem_cons_of_mem _ List.mem_cons_self)] at hlt
        exact absurd hlt (lt_irrefl _)
    have hcontent : (withRepeated stored drafts).content = stored.content := by
      unfold withRepeated
      split <;> rfl
    rw [hagain, readingsWrittenOneByOne]
    by_cases hnewer : newerOf stored drafts = []
    · rw [hnewer, List.isEmpty_nil, if_pos rfl]
      rfl
    · rw [if_neg (by rwa [List.isEmpty_iff]), ← hcontent]
      exact foldl_takeReading_newer hnewer hnewerSorted (by rwa [hcontent])

/-! ## Together and one by one -/

variable (D ctx) in
/-- The tables once some readings of a source have been written in one write. -/
def writtenTogether (transient : String → Bool) (db : ObservationDb J)
    (cache : Option (LatestCacheWrite H)) (sourceId : String) (drafts : List (Observation J)) :
    ObservationDb J :=
  (writeReadingsIn D ctx transient db cache sourceId drafts).1

variable (D ctx) in
/-- Writes one more reading of a source. -/
def writeNext (transient : String → Bool) (sourceId : String)
    (st : ObservationDb J × Option (LatestCacheWrite H)) (draft : Observation J) :
    ObservationDb J × Option (LatestCacheWrite H) :=
  let written := writeReadingsIn D ctx transient st.1 st.2 sourceId [draft]
  (written.1, written.2.2)

/-- The tables and the cache after one more write. -/
theorem writeNext_eq (transient : String → Bool) (sourceId : String)
    (st : ObservationDb J × Option (LatestCacheWrite H)) (draft : Observation J) :
    writeNext D ctx transient sourceId st draft =
      ((writeReadingsIn D ctx transient st.1 st.2 sourceId [draft]).1,
        (writeReadingsIn D ctx transient st.1 st.2 sourceId [draft]).2.2) := rfl

variable (D ctx) in
/-- The tables once some readings of a source have been written in one write each, in the order of
their starts. -/
def writtenOneByOne (transient : String → Bool) (db : ObservationDb J)
    (cache : Option (LatestCacheWrite H)) (sourceId : String) (drafts : List (Observation J)) :
    ObservationDb J :=
  ((inOrder drafts).foldl (writeNext D ctx transient sourceId) (db, cache)).1

/-- A write of readings of a series that is neither polled nor transient. -/
theorem writeReadingsIn_of_not_transient {transient : String → Bool} {key : SeriesKey}
    {drafts : List (Observation J)} {cache : Option (LatestCacheWrite H)} {sourceId : String}
    (hcache : ∀ c, cache = some c → c.All (Describes D)) (hne : drafts ≠ [])
    (hkey : ∀ d ∈ drafts, d.content.key = key) (hsource : key.sourceId = sourceId)
    (hpolled : ∀ d ∈ drafts, validWhilePolled ctx d = false)
    (hstarts : (drafts.map fun d => d.content.start).Nodup)
    (htransient : transient key.property = false) :
    (writeReadingsIn D ctx transient db cache sourceId drafts).1.readingAt key =
        readingWritten ctx (db.readingAt key) drafts ∧
      ∀ c, (writeReadingsIn D ctx transient db cache sourceId drafts).2.2 = some c →
        c.All (Describes D) := by
  have hown : (drafts.filter fun d => decide (d.content.key.sourceId = sourceId)) = drafts :=
    List.filter_eq_self.mpr fun d hd => decide_eq_true (by rw [hkey d hd, hsource])
  have hcompared : (drafts.filter fun d => !transient d.content.key.property) = drafts :=
    List.filter_eq_self.mpr fun d hd => by rw [hkey d hd, htransient]; rfl
  have hnone : (drafts.filter fun d => transient d.content.key.property) = [] :=
    List.filter_eq_nil_iff.mpr fun d hd h => by
      rw [hkey d hd, htransient] at h
      cases h
  obtain ⟨hdb, hdescribes⟩ := @writeObservationsIn_cached J H _ _ D ctx db cache sourceId drafts
    hcache hpolled
  unfold writeReadingsIn
  dsimp only
  rw [hown, hcompared, hnone]
  refine ⟨?_, hdescribes⟩
  refine (readingAt_writeTransient_nil key).trans ?_
  rw [hdb, readingAt_writeObservationsIn hne hkey hsource hpolled hstarts]

/-- A write of readings of a transient series. -/
theorem writeReadingsIn_of_transient {transient : String → Bool} {key : SeriesKey}
    {first : Observation J} {rest : List (Observation J)} {cache : Option (LatestCacheWrite H)}
    {sourceId : String} (hkey : ∀ d ∈ first :: rest, d.content.key = key)
    (hsource : key.sourceId = sourceId)
    (hpolled : ∀ d ∈ first :: rest, validWhilePolled ctx d = false)
    (htransient : transient key.property = true) :
    ∃ newest ∈ first :: rest,
      (∀ d ∈ first :: rest, d.content.start ≤ newest.content.start) ∧
      (writeReadingsIn D ctx transient db cache sourceId (first :: rest)).1.readingAt key =
        takeTransient ctx (db.readingAt key) newest := by
  have hown : ((first :: rest).filter fun d => decide (d.content.key.sourceId = sourceId)) =
      first :: rest :=
    List.filter_eq_self.mpr fun d hd => decide_eq_true (by rw [hkey d hd, hsource])
  have hnone : ((first :: rest).filter fun d => !transient d.content.key.property) = [] :=
    List.filter_eq_nil_iff.mpr fun d hd h => by
      rw [hkey d hd, htransient] at h
      cases h
  have hall : ((first :: rest).filter fun d => transient d.content.key.property) =
      first :: rest :=
    List.filter_eq_self.mpr fun d hd => by rw [hkey d hd, htransient]
  obtain ⟨newest, hmem, hmax, hentries⟩ := @transientOf_one J ctx key first rest hkey
    fun d hd => withoutValidity_of_not_polled (hpolled d hd)
  refine ⟨newest, hmem, hmax, ?_⟩
  unfold writeReadingsIn
  dsimp only
  rw [hown, hnone, hall, hentries, List.map_singleton, ← hkey newest hmem]
  exact readingAt_writeTransient newest

/-- The reading in effect of a series after one write each of some readings of it. -/
theorem readingAt_foldl_writeNext {transient : String → Bool} {key : SeriesKey}
    {readings : List (Observation J)} {st : ObservationDb J × Option (LatestCacheWrite H)}
    {sourceId : String} (hcache : ∀ c, st.2 = some c → c.All (Describes D))
    (hkey : ∀ d ∈ readings, d.content.key = key) (hsource : key.sourceId = sourceId)
    (hpolled : ∀ d ∈ readings, validWhilePolled ctx d = false) :
    (transient key.property = false →
      (readings.foldl (writeNext D ctx transient sourceId) st).1.readingAt key =
        readings.foldl (takeReading ctx) (st.1.readingAt key)) ∧
    (transient key.property = true →
      (readings.foldl (writeNext D ctx transient sourceId) st).1.readingAt key =
        readings.foldl (takeTransient ctx) (st.1.readingAt key)) := by
  constructor
  · intro htransient
    induction readings generalizing st with
    | nil => rfl
    | cons d readings ih =>
      obtain ⟨hreading, hdescribes⟩ := @writeReadingsIn_of_not_transient J H _ _ D ctx st.1
        transient key [d] st.2 sourceId hcache (List.cons_ne_nil _ _)
        (fun x hx => hkey x (List.mem_singleton.mp hx ▸ List.mem_cons_self)) hsource
        (fun x hx => hpolled x (List.mem_singleton.mp hx ▸ List.mem_cons_self))
        (List.nodup_singleton _) htransient
      have hstep : (writeNext D ctx transient sourceId st d).1.readingAt key =
          takeReading ctx (st.1.readingAt key) d := by
        rw [writeNext_eq, hreading, readingWritten_one]
      have hnext : ∀ c, (writeNext D ctx transient sourceId st d).2 = some c →
          c.All (Describes D) := by
        rw [writeNext_eq]
        dsimp only
        exact hdescribes
      rw [List.foldl_cons, List.foldl_cons, ← hstep]
      exact ih hnext (fun x hx => hkey x (List.mem_cons_of_mem _ hx))
        fun x hx => hpolled x (List.mem_cons_of_mem _ hx)
  · intro htransient
    clear hcache
    induction readings generalizing st with
    | nil => rfl
    | cons d readings ih =>
      obtain ⟨newest, hmem, -, hreading⟩ := @writeReadingsIn_of_transient J H _ _ D ctx st.1
        transient key d [] st.2 sourceId
        (fun x hx => hkey x (List.mem_singleton.mp hx ▸ List.mem_cons_self)) hsource
        (fun x hx => hpolled x (List.mem_singleton.mp hx ▸ List.mem_cons_self)) htransient
      have hstep : (writeNext D ctx transient sourceId st d).1.readingAt key =
          takeTransient ctx (st.1.readingAt key) d := by
        rw [writeNext_eq, hreading, List.mem_singleton.mp hmem]
      rw [List.foldl_cons, List.foldl_cons, ← hstep]
      exact ih (fun x hx => hkey x (List.mem_cons_of_mem _ hx))
        fun x hx => hpolled x (List.mem_cons_of_mem _ hx)

omit [DecidableEq H] in
/-- What one write and writes of one reading each make of a stored reading is the same exactly when
the readings that are no newer leave since when the newest result holds. -/
theorem readingWritten_eq_iff {row : LatestRow J} {drafts : List (Observation J)}
    (hstarts : (drafts.map fun d => d.content.start).Nodup) :
    readingWritten ctx (some (row.record, row.record.content.start, row.sinceAt)) drafts =
        readingsWrittenOneByOne ctx (some (row.record, row.record.content.start, row.sinceAt))
          drafts ↔ SinceUnmoved row drafts := by
  rw [readingWritten, readingsWrittenOneByOne, SinceUnmoved]
  by_cases hnewer : newerOf row.record drafts = []
  · rw [hnewer, List.isEmpty_nil, if_pos rfl, if_pos rfl, List.map_nil]
    exact ⟨fun _ first rest h => (by cases h), fun _ => rfl⟩
  · have hsorted := @taken_pairwise J _ row.record drafts hstarts
    have htimes : ∀ x ∈ (lateOf row.record drafts ++ retakenOf row.record drafts).map resultAt,
        ∀ y ∈ ((newerOf row.record drafts).map resultAt).head?, x.2 ≠ y.2 := by
      intro x hx y hy
      obtain ⟨d, hd, rfl⟩ := List.mem_map.mp hx
      obtain ⟨e, he, rfl⟩ := List.mem_map.mp (List.mem_of_mem_head? hy)
      exact ((List.pairwise_append.mp hsorted).2.2 d hd e he).ne
    have hmap : (newerOf row.record drafts).map resultAt ≠ [] := by
      rwa [ne_eq, List.map_eq_nil_iff]
    rw [if_neg (by rwa [List.isEmpty_iff]), if_neg (by rwa [List.isEmpty_iff]),
      ← HeldSince.after_append_eq_iff htimes hmap, ← List.map_append]
    obtain ⟨xs, x, hxs⟩ := (List.eq_nil_or_concat (newerOf row.record drafts)).resolve_left hnewer
    rw [List.concat_eq_append] at hxs
    rw [hxs, ← List.append_assoc]
    simp only [readingAfter, List.getLast?_concat, List.map_append, List.map_singleton,
      HeldSince.after_concat, Option.map_some, Option.getD_some, Option.some_inj, Prod.mk.injEq,
      true_and]
    exact ⟨fun h => Prod.ext (by rw [HeldSince.fst_take, HeldSince.fst_take]) h,
      fun h => congrArg Prod.snd h⟩

/-- **Written together or one by one.** The readings of a series that is not polled leave the same
latest row when they are written in one write and in one each, in the order of their starts, exactly
when its property is transient, or it has no row, or the readings that are no newer than the stored
one leave since when the newest result holds. -/
theorem written_alike_iff {transient : String → Bool} {cache : Option (LatestCacheWrite H)}
    {sourceId : String} {key : SeriesKey} {drafts : List (Observation J)}
    (hcache : ∀ c, cache = some c → c.All (Describes D))
    (hkey : ∀ d ∈ drafts, d.content.key = key) (hsource : key.sourceId = sourceId)
    (hpolled : ∀ d ∈ drafts, validWhilePolled ctx d = false)
    (hstarts : (drafts.map fun d => d.content.start).Nodup) :
    (writtenTogether D ctx transient db cache sourceId drafts).readingAt key =
        (writtenOneByOne D ctx transient db cache sourceId drafts).readingAt key ↔
      transient key.property = true ∨
        ∀ row, db.latest.rows.get key = some row → SinceUnmoved row drafts := by
  cases drafts with
  | nil =>
    refine ⟨fun _ => Or.inr fun row _ first rest h => (by cases h), fun _ => ?_⟩
    exact readingAt_writeTransient_nil key
  | cons first rest =>
    have hmem : ∀ d, d ∈ inOrder (first :: rest) ↔ d ∈ first :: rest :=
      fun d => List.mem_insertionSort _
    obtain ⟨hone, honeTransient⟩ := @readingAt_foldl_writeNext J H _ _ D ctx transient key
      (inOrder (first :: rest)) (db, cache) sourceId hcache
      (fun d hd => hkey d ((hmem d).mp hd)) hsource fun d hd => hpolled d ((hmem d).mp hd)
    have hne : first :: rest ≠ [] := List.cons_ne_nil _ _
    cases htransient : transient key.property with
    | true =>
      refine ⟨fun _ => Or.inl rfl, fun _ => ?_⟩
      rw [writtenOneByOne, honeTransient htransient]
      obtain ⟨newest, hnewest, hmax, htogether⟩ := @writeReadingsIn_of_transient J H _ _ D ctx db
        transient key first rest cache sourceId hkey hsource hpolled htransient
      rw [writtenTogether, htogether]
      have hsorted := inOrder_pairwise hstarts
      cases hordered : inOrder (first :: rest) with
      | nil =>
        have hfirst := (hmem first).mpr List.mem_cons_self
        rw [hordered] at hfirst
        cases hfirst
      | cons d ds =>
        rw [hordered] at hsorted hmem
        rw [foldl_takeTransient hsorted]
        -- The newest reading is the last one.
        have hlast := (hmem _).mp (List.getLast_mem (List.cons_ne_nil d ds))
        have hle : newest.content.start ≤
            ((d :: ds).getLast (List.cons_ne_nil d ds)).content.start := by
          have hnewestMem := (hmem newest).mpr hnewest
          rw [← List.dropLast_append_getLast (List.cons_ne_nil d ds)] at hsorted hnewestMem
          rcases List.mem_append.mp hnewestMem with hbefore | hsame
          · exact ((List.pairwise_append.mp hsorted).2.2 _ hbefore _ List.mem_cons_self).le
          · rw [List.mem_singleton.mp hsame]
        rw [eq_of_start_eq hstarts hnewest hlast (le_antisymm hle (hmax _ hlast))]
    | false =>
      have htogether := (@writeReadingsIn_of_not_transient J H _ _ D ctx db transient key
        (first :: rest) cache sourceId hcache hne hkey hsource hpolled hstarts htransient).1
      rw [writtenTogether, writtenOneByOne, htogether, hone htransient,
        readingAt_foldl_takeReading hne hstarts]
      cases hget : db.latest.rows.get key with
      | none =>
        have hreading : db.readingAt key = none := by rw [ObservationDb.readingAt, hget]; rfl
        rw [hreading]
        exact ⟨fun _ => Or.inr fun row h => (by cases h), fun _ => rfl⟩
      | some row =>
        have hreading : db.readingAt key =
            some (row.record, row.record.content.start, row.sinceAt) := by
          rw [ObservationDb.readingAt, hget]
          rfl
        rw [hreading, readingWritten_eq_iff hstarts]
        refine ⟨fun h => Or.inr fun row' hrow => Option.some.inj hrow ▸ h, fun h => ?_⟩
        exact (h.resolve_left Bool.false_ne_true) row rfl

end Batch

/-! ## Counts at a site -/

/-- A write of readings of a property that is not change-only. -/
def countContext : ObservationContext String :=
  { speedContext with property := fun _ => ⟨false, false, some 30, false, none⟩ }

/-- A feed's count of the vehicles at a site. -/
def countReading (count : String) (start : Instant) : Observation String where
  content := ⟨"site", ⟨"site", "count", "", "s"⟩, some "site", none, start, none, count, none, none,
    "feed", "bulk", "operator", none, "", ""⟩
  mergedSources := none
  expiresAt := none
  derived := ""

/-- The series of the counts. -/
def countKey : SeriesKey := ⟨"site", "count", "", "s"⟩

/-- An instant after `laterStart`. -/
def latestStart : Instant := ⟨7200000, by decide⟩

/-- The site has counted 80 vehicles. -/
def oneCount : ObservationDb String :=
  (writeObservationsIn plainDigests countContext noObservations none "s"
    [countReading "80" laterStart]).1

/-- A late count and a new one that states another than the late one. -/
theorem written_alike_iff_sample :
    (writtenTogether plainDigests countContext (fun _ => false) oneCount none "s"
        [countReading "80" .epoch, countReading "40" latestStart]).readingAt countKey =
      (writtenOneByOne plainDigests countContext (fun _ => false) oneCount none "s"
        [countReading "80" .epoch, countReading "40" latestStart]).readingAt countKey := by
  have hkeys : ∀ d ∈ [countReading "80" .epoch, countReading "40" latestStart],
      d.content.key = countKey := by decide
  refine (@written_alike_iff String PlainDigest _ _ plainDigests countContext oneCount
    (fun _ => false) none "s" countKey
    [countReading "80" .epoch, countReading "40" latestStart] (fun c h => by cases h) hkeys rfl
    (by decide) (by decide)).mpr (Or.inr fun row hrow => ?_)
  have hrecord : (oneCount.latest.rows.get countKey).map
      (fun r => (r.record, r.sinceAt)) = some (countReading "80" laterStart, laterStart) := by
    decide +kernel
  rw [hrow] at hrecord
  obtain ⟨hreading, hsince⟩ := Prod.mk.inj (Option.some.inj hrecord)
  have hnewer : (newerOf (countReading "80" laterStart)
      [countReading "80" .epoch, countReading "40" latestStart]).map resultAt =
        [("40", latestStart)] := by decide +kernel
  have hearlier : (lateOf (countReading "80" laterStart)
      [countReading "80" .epoch, countReading "40" latestStart] ++
        retakenOf (countReading "80" laterStart)
          [countReading "80" .epoch, countReading "40" latestStart]).map resultAt =
        [("80", .epoch)] := by decide +kernel
  rw [SinceUnmoved, hreading, hsince, hnewer, hearlier]
  intro first rest hxs _
  obtain ⟨rfl, -⟩ := List.cons.inj hxs
  refine ⟨fun hsame => absurd hsame (by decide), fun _ last hlast => ?_⟩
  obtain rfl := Option.some.inj hlast
  decide

/-- **A late reading moves since when the newest holds.** The site has counted 80 vehicles since
`laterStart`; a late count of 40 and a new one of 80 come together, and one by one. -/
theorem late_reading_moves_since :
    ([countReading "40" .epoch, countReading "80" latestStart].map
        fun d => d.content.start).Nodup ∧
      (∀ d ∈ [countReading "40" .epoch, countReading "80" latestStart],
        validWhilePolled countContext d = false ∧ d.content.key = countKey) ∧
      (oneCount.readingAt countKey).map (fun r => r.2.2) = some laterStart ∧
      ((writtenTogether plainDigests countContext (fun _ => false) oneCount none "s"
        [countReading "40" .epoch, countReading "80" latestStart]).readingAt countKey) =
          some (countReading "80" latestStart, latestStart, latestStart) ∧
      ((writtenOneByOne plainDigests countContext (fun _ => false) oneCount none "s"
        [countReading "40" .epoch, countReading "80" latestStart]).readingAt countKey) =
          some (countReading "80" latestStart, latestStart, laterStart) := by
  decide +kernel

end OpenConditions.Storage

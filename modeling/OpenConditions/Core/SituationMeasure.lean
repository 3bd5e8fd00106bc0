import OpenConditions.Core.ChangeKinds
import OpenConditions.Core.SituationMeaning

set_option relaxedAutoImplicit false
set_option autoImplicit false

/-!
# One measure published by two sources

Two publishers of one measure agree on its dates and draw it one on top of the other
(`packages/core/src/situation-overlap.ts`).  Of the two records the one that covers the other stays,
unless one of them states more of the traffic.

The words of a headline, the texts of dates and the places of shapes are parameters.

## Main definitions

* `restrictionEvidence`, `stated` — what is read of a record's own effects.
* `sameMeasureAcrossSources` — which of two records of one measure stays.
* `comparisonOf` — how the records of a page are compared.

## Main results

* `sameMeasureAcrossSources_spec` — the record that goes has no evidence among its own effects, and
  states none of its own unless the other does.
-/

namespace OpenConditions.Core

/-! ## What is compared -/

/-- What the comparison of two measures rests on. -/
structure MeasureText extends MeaningText where
  /-- The instant of a text in milliseconds, where it is one. -/
  dateParse : String → Option ℚ
  /-- The words of a headline of three letters or more, each once. -/
  words : String → List String
  /-- A road's name without blanks, in small letters. -/
  roadText : String → String
  /-- The boxes of two shapes come near each other. -/
  shapesNear : Shape → Shape → Bool
  /-- How much shorter a degree of longitude is at the middle latitude of a shape. -/
  cosAt : Shape → ℚ
  /-- The share of the first lines' length that lies along the second. -/
  coverage : List (List (ℚ × ℚ)) → List (List (ℚ × ℚ)) → ℚ → ℚ
  /-- The length of lines in metres. -/
  lengthM : List (List (ℚ × ℚ)) → ℚ → ℚ
  /-- The mean of some numbers. -/
  mean : List ℚ → ℚ
  /-- The distance of two points in metres. -/
  haversineMeters : ℚ × ℚ → ℚ × ℚ → ℚ
  /-- The grid cells near a shape. -/
  cellsOf : Shape → List String

variable (T : MeasureText)

/-- The hours of a date. -/
def hours (value : Option Json) : Option ℚ :=
  ((value.bind Json.string).bind T.dateParse).map fun ms => ms / 3600000

/-- Works and closures count as one kind. -/
def kindsAgree (a b : Situation) : Bool :=
  let kind := fun record : Situation => textAt record.fields "kind"
  let worksOrClosure := [some "roadworks", some "closure"]
  decide (kind a = kind b) || worksOrClosure.contains (kind a) && worksOrClosure.contains (kind b)

/-- An effect of a record's own is not completely read, or binds vehicles it does not name. -/
def restrictionEvidence (record : Situation) : Bool :=
  (itemsIn record.fields "effects").any isRestrictionEvidence

/-- A record states effects of its own. -/
def stated (record : Situation) : Bool := !(itemsIn record.fields "effects").isEmpty

/-- The kinds of effect a record states, as one comparable key. -/
def effectKinds (record : Situation) : String :=
  let kinds := (itemsIn record.fields "effects").map fun effect =>
    (((fieldsIn effect).bind fun fields => fields.get "kind").map
      (ChangeKinds.stringOf T.nums)).getD "undefined"
  ",".intercalate (Sorting.sortBy
    (fun a b => decide (Utf16.codeUnits a ≤ Utf16.codeUnits b)) kinds.dedup)

/-- The texts of a record's headline. -/
def headlineTexts (record : Situation) : List String :=
  (itemsIn record.fields "headline").filterMap fun text =>
    (fieldsIn text).bind fun fields => textAt fields "text"

/-- Two texts share half of their words. -/
def wordsAgree (a b : String) : Bool :=
  let wa := T.words a
  let wb := T.words b
  let shared := (wa.filter wb.contains).length
  !wa.isEmpty && !wb.isEmpty &&
    decide ((1 / 2 : ℚ) ≤ (shared : ℚ) / ((wa.length + wb.length - shared : ℕ) : ℚ))

/-- Two records' headlines say the same, in any language they share. -/
def headlinesAgree (a b : Situation) : Bool :=
  (headlineTexts a).any fun ta => (headlineTexts b).any fun tb => wordsAgree T ta tb

/-- The names of a road: one, or several. -/
def roadNames (road : Fields) : List String :=
  let names := match road.get "name" with
    | some (.arr names) => names
    | some name => [name]
    | none => []
  names.filterMap fun name =>
    match name with
    | .str text => some text
    | .obj fields => textAt fields "text"
    | _ => none

/-- The road names and numbers a record states. -/
def roadKeys (record : Situation) : List String :=
  let roads := itemsIn ((fieldsAt record.fields "location").getD []) "roads"
  (roads.filterMap fieldsIn).flatMap fun road =>
    ((textAt road "ref").map T.roadText).toList ++
      ((roadNames road).filter fun text => !T.isBlank text).map T.roadText

/-- Two records state roads, none of them of both. -/
def roadsConflict (a b : Situation) : Bool :=
  let ka := roadKeys T a
  let kb := roadKeys T b
  !ka.isEmpty && !kb.isEmpty && !ka.any kb.contains

/-! ## Which record stays -/

/-- The hours within which dates are of one day. -/
def sameDayH : ℚ := 25

/-- The hours within which dates are of one month. -/
def sameMonthH : ℚ := 31 * 24

/-- A shorter geometry is a point, in metres. -/
def pointM : ℚ := 20

/-- Which of two records of one measure stays, where the one covers the other as far as this
says. -/
def survivorOfMeasure (a b : Situation) (aInB bInA : ℚ) : Survivor :=
  if restrictionEvidence a = true then .a
  else if restrictionEvidence b = true then .b
  -- Stated effects are what routing reads: their record stays.
  else if stated a = true then .a
  else if stated b = true then .b
  -- Equal, the earlier stays.
  else if bInA < aInB then .b else .a

/-- Whether two records, of different sources, are one measure: none when not, else the record that
stays. -/
def sameMeasureAcrossSources (a : Situation) (sa : Shape) (b : Situation) (sb : Shape) :
    Option Survivor :=
  if a.provenance.sourceId = b.provenance.sourceId ∨ kindsAgree a b = false then none
  else if stated a = true ∧ stated b = true ∧ effectKinds T a ≠ effectKinds T b then none
  else if restrictionEvidence a = true ∧ restrictionEvidence b = true then none
  else
    let va := (fieldsAt a.fields "validity").getD []
    let vb := (fieldsAt b.fields "validity").getD []
    match hours T (va.get "start"), hours T (va.get "end"), hours T (vb.get "start"),
        hours T (vb.get "end") with
    | some startA, some endA, some startB, some endB =>
      let dStart := |startA - startB|
      let dEnd := |endA - endB|
      -- The slack is at most half the shorter record.
      let day := min sameDayH (min (endA - startA) (endB - startB) / 2)
      let sameDays := decide (dStart ≤ day ∧ dEnd ≤ day)
      let oneDay :=
        decide ((dStart ≤ day ∧ dEnd ≤ sameMonthH) ∨ (dEnd ≤ day ∧ dStart ≤ sameMonthH))
      if sameDays = false ∧ (oneDay && headlinesAgree T a b) = false then none
      else if T.shapesNear sa sb = false then none
      else
        let cos := T.cosAt sa
        let aInB := T.coverage sa.parts sb.parts cos
        let bInA := T.coverage sb.parts sa.parts cos
        let point := decide (T.lengthM sa.parts cos < pointM ∨ T.lengthM sb.parts cos < pointM)
        if max aInB bInA < (if sameDays then 4 / 5 else 3 / 5) then none
        else if point = false ∧ min aInB bInA < 3 / 10 then none
        else if point = true ∧ (headlinesAgree T a b = false ∨ roadsConflict T a b = true) then none
        else some (survivorOfMeasure a b aInB bInA)
    | _, _, _, _ => none

/-- How the records of a page are compared. -/
def comparisonOf : Comparison where
  situationCompatibilityKey := situationCompatibilityKey T.toMeaningText
  roadRef := T.roadRef
  mean := T.mean
  haversineMeters := T.haversineMeters
  cellsOf := T.cellsOf
  sameMeasureAcrossSources := sameMeasureAcrossSources T

/-! ## What the record that goes states -/

/-- The record that stays. -/
def Survivor.kept (survivor : Survivor) (a b : Situation) : Situation :=
  match survivor with
  | .a => a
  | .b => b

/-- The record that goes. -/
def Survivor.gone (survivor : Survivor) (a b : Situation) : Situation :=
  match survivor with
  | .a => b
  | .b => a

section Measure

variable {T} {a b : Situation} {sa sb : Shape} {survivor : Survivor}

/-- Evidence among a record's own effects is an effect of its own. -/
theorem stated_of_restrictionEvidence (h : restrictionEvidence a = true) : stated a = true := by
  unfold restrictionEvidence at h
  unfold stated
  cases heffects : itemsIn a.fields "effects" with
  | nil =>
    rw [heffects] at h
    cases h
  | cons effect effects => rfl

/-- Of two records of which one has no evidence of its own, one without goes, which states no
effects of its own unless the other does. -/
theorem survivorOfMeasure_spec (h : ¬(restrictionEvidence a = true ∧ restrictionEvidence b = true))
    (aInB bInA : ℚ) :
    restrictionEvidence ((survivorOfMeasure a b aInB bInA).gone a b) = false ∧
      (stated ((survivorOfMeasure a b aInB bInA).gone a b) = true →
        stated ((survivorOfMeasure a b aInB bInA).kept a b) = true) := by
  unfold survivorOfMeasure
  split_ifs with ha hb hsa hsb hcover
  · exact ⟨Bool.eq_false_iff.mpr fun hb => h ⟨ha, hb⟩,
      fun _ => stated_of_restrictionEvidence ha⟩
  · exact ⟨Bool.eq_false_iff.mpr ha, fun _ => stated_of_restrictionEvidence hb⟩
  · exact ⟨Bool.eq_false_iff.mpr hb, fun _ => hsa⟩
  · exact ⟨Bool.eq_false_iff.mpr ha, fun _ => hsb⟩
  · exact ⟨Bool.eq_false_iff.mpr ha, fun h => absurd h hsa⟩
  · exact ⟨Bool.eq_false_iff.mpr hb, fun h => absurd h hsb⟩

/-- **Of two records of one measure, the one that goes has no evidence among its own effects, and
states none of its own unless the other does.** -/
theorem sameMeasureAcrossSources_spec (h : sameMeasureAcrossSources T a sa b sb = some survivor) :
    restrictionEvidence (survivor.gone a b) = false ∧
      (stated (survivor.gone a b) = true → stated (survivor.kept a b) = true) := by
  unfold sameMeasureAcrossSources at h
  dsimp only at h
  split at h
  · cases h
  split at h
  · cases h
  split at h
  · cases h
  · rename_i hevidence
    split at h
    · split_ifs at h <;>
        · obtain rfl := Option.some.inj h
          exact survivorOfMeasure_spec hevidence _ _
    · cases h

/-- Of two records of one measure, the shape of one lies along the other's. -/
theorem coverage_of_sameMeasure (h : sameMeasureAcrossSources T a sa b sb = some survivor) :
    0 < max (T.coverage sa.parts sb.parts (T.cosAt sa))
      (T.coverage sb.parts sa.parts (T.cosAt sa)) := by
  unfold sameMeasureAcrossSources at h
  dsimp only at h
  split at h
  · cases h
  split at h
  · cases h
  split at h
  · cases h
  split at h
  · split_ifs at h <;>
      · rename_i hcover _ _
        refine lt_of_lt_of_le ?_ (not_lt.mp hcover)
        norm_num
  · cases h

/-- The hours of a record's start and end. -/
def validityHours (T : MeasureText) (record : Situation) : Option ℚ × Option ℚ :=
  let validity := (fieldsAt record.fields "validity").getD []
  (hours T (validity.get "start"), hours T (validity.get "end"))

/-- Records of one time and kind without effects, whose headlines agree and whose roads do not
conflict, are one measure when each lies along the other in full; the earlier stays. -/
theorem sameMeasure_of_agree {start stop : ℚ}
    (hsource : a.provenance.sourceId ≠ b.provenance.sourceId) (hkinds : kindsAgree a b = true) (ha : stated a = false) (hb : stated b = false)
    (hvalida : validityHours T a = (some start, some stop))
    (hvalidb : validityHours T b = (some start, some stop)) (hlong : start ≤ stop)
    (hheadlines : headlinesAgree T a b = true) (hroads : roadsConflict T a b = false)
    (hnear : T.shapesNear sa sb = true) (haInB : T.coverage sa.parts sb.parts (T.cosAt sa) = 1)
    (hbInA : T.coverage sb.parts sa.parts (T.cosAt sa) = 1) :
    sameMeasureAcrossSources T a sa b sb = some .a := by
  have hevidence : ∀ {r : Situation}, stated r = false → restrictionEvidence r = false := fun hr =>
    Bool.eq_false_iff.mpr fun h => absurd (stated_of_restrictionEvidence h) (by simp [hr])
  obtain ⟨hstarta, hstopa⟩ := Prod.mk.inj hvalida
  obtain ⟨hstartb, hstopb⟩ := Prod.mk.inj hvalidb
  unfold sameMeasureAcrossSources
  rw [if_neg (by simp [hsource, hkinds]), if_neg (by simp [ha]), if_neg (by simp [hevidence ha])]
  dsimp only
  rw [hstarta, hstopa, hstartb, hstopb]
  dsimp only
  have hday : 0 ≤ min sameDayH (min (stop - start) (stop - start) / 2) := by
    refine le_min (by norm_num [sameDayH]) ?_
    rw [min_self]
    linarith
  have hdays : decide (|start - start| ≤ min sameDayH (min (stop - start) (stop - start) / 2) ∧
      |stop - stop| ≤ min sameDayH (min (stop - start) (stop - start) / 2)) = true := by
    rw [sub_self, sub_self, abs_zero, decide_eq_true_eq]
    exact ⟨hday, hday⟩
  rw [hdays, if_neg (by simp), if_neg (by simp [hnear]), haInB, hbInA, max_self, min_self,
    if_neg (by norm_num), if_neg (by norm_num), if_neg (by simp [hheadlines, hroads])]
  simp [survivorOfMeasure, hevidence ha, hevidence hb, ha, hb]

end Measure

end OpenConditions.Core

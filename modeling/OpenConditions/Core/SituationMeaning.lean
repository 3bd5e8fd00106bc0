import OpenConditions.Core.ObservationCodec
import OpenConditions.Core.Situations
import OpenConditions.Lib.CanonicalJson

set_option relaxedAutoImplicit false
set_option autoImplicit false

/-!
# The traffic meaning of a situation

Two records that say the same of the traffic have one compatibility key; a record whose evidence is
not enough to discard another report has none
(`packages/core/src/situation-compatibility.ts`).

How texts compare in a language, how a road reference is written and how numbers are written are
parameters.

## Main definitions

* `situationEffects` — the effects of a record and of its phases.
* `isRestrictionEvidence` — an effect that is not completely read, or of unknown vehicles.
* `situationCompatibilityKey` — the traffic meaning of a record.

## Main results

* `situationCompatibilityKey_spec` — a record with a traffic meaning states effects, and all of
  them are completely read and of known vehicles.
-/

namespace OpenConditions.Core

open Json (NumberText quoted separated)

/-! ## Effects -/

/-- The items of a field, none where it is no array. -/
def itemsIn (fields : Fields) (key : String) : List Json := (itemsAt fields key).getD []

/-- The effects of the phases of a record. -/
def phaseEffects (record : Situation) : List Json :=
  (itemsIn ((fieldsAt record.fields "details").getD []) "phases").flatMap fun phase =>
    itemsIn ((fieldsIn phase).getD []) "effects"

/-- A situation's own effects and the effects of its phases. -/
def situationEffects (record : Situation) : List Json :=
  itemsIn record.fields "effects" ++ phaseEffects record

/-- Restriction evidence: an effect whose vehicles are unknown or that is not completely read. What
is no object is no effect. -/
def isRestrictionEvidence (effect : Json) : Bool :=
  match fieldsIn effect with
  | none => false
  | some effect =>
    (((fieldsAt effect "applicability").bind fun a => textAt a "kind") == some "unknown") ||
      textAt effect "normalization" != some "complete"

/-! ## Texts of values -/

/-- What the meaning of a record rests on of a language. -/
structure MeaningText where
  nums : NumberText
  /-- One text stands before another in the reader's language, or they stand alike. -/
  localeLe : String → String → Bool
  /-- A road reference without blanks, in capitals. -/
  roadRef : String → String
  /-- A text of blanks alone. -/
  isBlank : String → Bool

mutual

/-- The text of a value, the members of its objects as they are listed. -/
def stringify (nums : NumberText) : Json → List Char
  | .null => ['n', 'u', 'l', 'l']
  | .bool true => ['t', 'r', 'u', 'e']
  | .bool false => ['f', 'a', 'l', 's', 'e']
  | .num q => nums.text q
  | .str s => quoted s
  | .arr items => '[' :: separated ']' (stringifyItems nums items)
  | .obj fields => '\x7b' :: separated '\x7d' (stringifyFields nums fields)

/-- The texts of the items of an array. -/
def stringifyItems (nums : NumberText) : List Json → List (List Char)
  | [] => []
  | v :: items => stringify nums v :: stringifyItems nums items

/-- The texts of the members of an object. -/
def stringifyFields (nums : NumberText) : List (String × Json) → List (List Char)
  | [] => []
  | (name, v) :: fields => (quoted name ++ ':' :: stringify nums v) :: stringifyFields nums fields

end

mutual

/-- A value with the members of its objects in the order of their names; of two with one name the
first counts. -/
def ordered (localeLe : String → String → Bool) : Json → Json
  | .arr items => .arr (orderedItems localeLe items)
  | .obj fields =>
    .obj (Sorting.sortBy (fun a b => localeLe a.1 b.1) (orderedFields localeLe fields))
  | v => v

/-- The items of an array, each with its members in order. -/
def orderedItems (localeLe : String → String → Bool) : List Json → List Json
  | [] => []
  | v :: items => ordered localeLe v :: orderedItems localeLe items

/-- The members of an object, each with its own members in order. -/
def orderedFields (localeLe : String → String → Bool) :
    List (String × Json) → List (String × Json)
  | [] => []
  | (name, v) :: fields =>
    (name, ordered localeLe v) ::
      (orderedFields localeLe fields).filter fun other => decide (other.1 ≠ name)

end

variable (T : MeaningText)

/-- The key of a value. -/
def keyOf (v : Json) : String := String.ofList (stringify T.nums (ordered T.localeLe v))

/-- Values whose order says nothing, in the order of their keys. -/
def unordered (values : List Json) : List Json :=
  Sorting.sortBy (fun a b => T.localeLe (keyOf T a) (keyOf T b)) values

/-! ## What is known -/

/-- A validity says its status. -/
def knownValidity (value : Option Json) : Bool :=
  match (value.bind fieldsIn).bind fun validity => textAt validity "status" with
  | some status => status != "unknown"
  | none => false

/-- An integer that every number tells from its neighbours. -/
def isSafeInteger (value : Option Json) : Bool :=
  match value.bind Json.number with
  | some q => decide (q.den = 1 ∧ |q| ≤ 9007199254740991)
  | none => false

/-- The road references of a location that are not blank, and that of its linear reference. -/
def referencesOf (location : Fields) : List String :=
  let refs := ((itemsIn location "roads").filterMap fun road => (road.field "ref").bind Json.string)
  let linear := (fieldsAt location "linear").bind fun linear => textAt linear "ref"
  ((refs.filter fun ref => !T.isBlank ref).map T.roadRef ++ (linear.map T.roadRef).toList).dedup

/-- A direction says which way it is on its location, where it is given. -/
def knownDirection (value : Option Json) (location : Fields) : Bool :=
  match value with
  | none => true
  | some value =>
    let direction := (fieldsIn value).getD []
    let way := textAt direction "value"
    if way = some "both" then true
    else if way ≠ some "positive" ∧ way ≠ some "negative" then false
    else
      match textAt direction "basis" with
      | some "road_reference" => decide ((referencesOf T location).length = 1)
      | some "alert_c" =>
        let ref := (fieldsAt location "tmc").getD []
        (textAt ref "country").isSome && isSafeInteger (ref.get "table") &&
          (textAt ref "version").isSome && isSafeInteger (ref.get "code") &&
          (((ref.get "code").bind Json.number).any fun code => decide (0 < code))
      | some "openlr" => (textAt location "openlr").any fun text => !T.isBlank text
      | _ => false

/-! ## Meanings -/

/-- A road with its reference as it is compared. -/
def roadMeaning (road : Json) : Json :=
  match fieldsIn road with
  | none => .obj []
  | some fields =>
    match textAt fields "ref" with
    | some ref => .obj (fields.put "ref" (.str (T.roadRef ref)))
    | none => .obj fields

/-- The meaning of a location: a point near another may be it, but for its altitude. -/
def locationMeaning (location : Fields) (nearbyPoint : Bool) : Option Fields :=
  match fieldsAt location "geometry" with
  | none => none
  | some geometry =>
    if textAt location "fuzziness" ≠ some "exact" ∨
        knownDirection T (location.get "direction") location = false then none
    else
      let roads := match itemsAt location "roads" with
        | some roads => location.put "roads" (.arr (unordered T (roads.map (roadMeaning T))))
        | none => location
      let place := if nearbyPoint = true ∧ textAt geometry "type" = some "Point" then
          geometry.put "coordinates" (.arr ((itemsIn geometry "coordinates").drop 2))
        else geometry
      some (roads.put "geometry" (.obj place))

/-- The first of two values, unless it is absent or null. -/
def orElse (a b : Option Json) : Option Json :=
  match a with
  | none | some .null => b
  | some v => some v

/-- The meaning of an effect. -/
def effectMeaning (effect location : Fields) (validity : Option Json) : Option Fields :=
  let applicability := fieldsAt effect "applicability"
  if textAt effect "normalization" ≠ some "complete" ∨ textAt effect "kind" = some "unsupported" ∨
      applicability.isNone = true ∨ (applicability.bind fun a => textAt a "kind") = some "unknown" ∨
      textAt effect "compliance" = some "unknown" ∨ (itemsIn effect "issues").isEmpty = false then none
  else
    let own := fieldsAt effect "location"
    let effective := Fields.spread location (own.getD [])
    let direction := orElse (effect.get "direction") (effective.get "direction")
    let time := orElse (effect.get "validity") validity
    match locationMeaning T effective ((own.bind fun own => own.get "geometry").isNone) with
    | none => none
    | some loc =>
      if knownDirection T direction effective = false ∨ knownValidity time = false then none
      else
        some (((effect.without
          ["id", "sourceRecordRef", "source", "location", "direction", "validity"]).put
            "location" (.obj loc)).spread
              (Fields.given "direction" direction ++ Fields.given "validity" time))

/-- The meanings of effects. -/
def effectMeanings (value : Option Json) (location : Fields) (validity : Option Json) :
    Option (List Json) :=
  match value.bind Json.items with
  | none => none
  | some effects =>
    (effects.mapM fun effect => (fieldsIn effect).bind fun fields =>
      (effectMeaning T fields location validity).map Json.obj).map (unordered T)

/-- The meaning of a phase, and how many effects it has. -/
def phaseMeaning (phase : Json) (location : Fields) : Option (Json × ℕ) :=
  match fieldsIn phase with
  | none => none
  | some phase =>
    if knownValidity (phase.get "validity") = false then none
    else
      (effectMeanings T (phase.get "effects") location (phase.get "validity")).map fun members =>
        (.obj ((phase.without ["id", "name", "effects"]).put "effects" (.arr members)),
          members.length)

/-- The meanings of the phases of a record, where it has some. -/
def phasesMeaning (details location : Fields) : Option (Option (List (Json × ℕ))) :=
  match details.get "phases" with
  | none => some none
  | some phases =>
    match phases.items with
    | none => none
    | some phases => (phases.mapM fun phase => phaseMeaning T phase location).map some

/-- The fields of a record that its meaning does not keep as they are. -/
def notMeaning : List String :=
  ["id", "canonicalId", "contentHash", "revision", "recordedAt", "provenance", "headline",
    "description", "externalIds", "extras", "groupId", "freshness", "location", "effects",
    "details"]

/-- The details of a record with the meanings of its phases. -/
def detailsMeaning (details : Option Fields) (phases : Option (List (Json × ℕ))) : Option Json :=
  details.map fun details =>
    let without := details.without ["phases"]
    match phases with
    | none => .obj without
    | some phases => .obj (without.put "phases" (.arr (unordered T (phases.map Prod.fst))))

/-- The traffic meaning of a record; none where its evidence is not enough to discard another
report. -/
def situationCompatibilityKey (record : Situation) : Option String :=
  match fieldsAt record.fields "location" with
  | none => none
  | some location =>
    if (record.provenance.mergedSources.getD []).isEmpty = false then none
    else if textAt record.fields "certainty" = some "unknown" ∨
        knownValidity (Fields.get record.fields "validity") = false then none
    else
      let validity := Fields.get record.fields "validity"
      match locationMeaning T location true,
          effectMeanings T (Fields.get record.fields "effects") location validity with
      | some loc, some effects =>
        let details := fieldsAt record.fields "details"
        match phasesMeaning T (details.getD []) location with
        | none => none
        | some phases =>
          let typedEffects := effects.length + ((phases.getD []).map Prod.snd).sum
          if typedEffects = 0 then none
          else
            let freshness := (fieldsAt record.fields "freshness").map fun freshness =>
              Json.obj (freshness.without ["fetchedAt", "sourceCheckedAt"])
            some (keyOf T (.obj ((Fields.without record.fields notMeaning).spread
              ([("location", .obj loc), ("effects", .arr effects)] ++
                Fields.given "details" (detailsMeaning T details phases) ++
                Fields.given "freshness" freshness))))
      | _, _ => none

/-! ## What has a meaning -/

section Meaning

variable {T}

/-- An effect with a meaning is no restriction evidence. -/
theorem not_evidence_of_effectMeaning {effect location : Fields} {validity : Option Json}
    {meaning : Fields} (h : effectMeaning T effect location validity = some meaning) :
    isRestrictionEvidence (.obj effect) = false := by
  unfold effectMeaning at h
  dsimp only at h
  split at h
  · cases h
  · rename_i hread
    simp only [not_or, not_not] at hread
    obtain ⟨hcomplete, -, -, hunknown, -, -⟩ := hread
    show ((((fieldsAt effect "applicability").bind fun a => textAt a "kind") == some "unknown") ||
      textAt effect "normalization" != some "complete") = false
    rw [Bool.or_eq_false_iff]
    exact ⟨beq_eq_false_iff_ne.mpr hunknown, by rw [hcomplete]; rfl⟩

/-- Effects with meanings are as many, and none is restriction evidence. -/
theorem effectMeanings_spec {value : Option Json} {location : Fields} {validity : Option Json}
    {meanings : List Json} (h : effectMeanings T value location validity = some meanings) :
    meanings.length = ((value.bind Json.items).getD []).length ∧
      ∀ e ∈ (value.bind Json.items).getD [], isRestrictionEvidence e = false := by
  unfold effectMeanings at h
  cases hitems : value.bind Json.items with
  | none =>
    rw [hitems] at h
    cases h
  | some effects =>
    rw [hitems] at h
    obtain ⟨ms, hms, rfl⟩ := Option.map_eq_some_iff.mp h
    rw [Option.getD_some, unordered, (Sorting.sortBy_perm _ ms).length_eq]
    clear h hitems
    induction effects generalizing ms with
    | nil =>
      obtain rfl : [] = ms := Option.some.inj hms
      exact ⟨rfl, fun e he => by cases he⟩
    | cons effect effects ih =>
      simp only [List.mapM_cons, Option.bind_eq_bind, Option.bind_eq_some_iff] at hms
      obtain ⟨m, ⟨fields, hfields, hm⟩, rest, hrest, heq⟩ := hms
      obtain rfl : m :: rest = ms := Option.some.inj heq
      obtain ⟨hlength, hall⟩ := ih rest hrest
      obtain ⟨meaning, hmeaning, -⟩ := Option.map_eq_some_iff.mp hm
      refine ⟨by rw [List.length_cons, List.length_cons, hlength], fun e he => ?_⟩
      rcases List.mem_cons.mp he with rfl | he
      · cases e with
        | obj own =>
          obtain rfl : own = fields := Option.some.inj hfields
          exact not_evidence_of_effectMeaning hmeaning
        | _ => cases hfields
      · exact hall e he

/-- Phases with meanings have as many effects, and none is restriction evidence. -/
theorem phaseMeaning_spec {location : Fields} {phases : List Json} :
    ∀ {ms : List (Json × ℕ)}, (phases.mapM fun phase => phaseMeaning T phase location) = some ms →
      (ms.map Prod.snd).sum = (phases.flatMap fun phase =>
          itemsIn ((fieldsIn phase).getD []) "effects").length ∧
        ∀ e ∈ phases.flatMap fun phase => itemsIn ((fieldsIn phase).getD []) "effects",
          isRestrictionEvidence e = false := by
  induction phases with
  | nil =>
    intro ms h
    obtain rfl : [] = ms := Option.some.inj h
    exact ⟨rfl, fun e he => by cases he⟩
  | cons phase phases ih =>
    intro ms h
    simp only [List.mapM_cons, Option.bind_eq_bind, Option.bind_eq_some_iff] at h
    obtain ⟨m, hm, rest, hrest, heq⟩ := h
    obtain rfl : m :: rest = ms := Option.some.inj heq
    obtain ⟨hsum, hall⟩ := ih hrest
    unfold phaseMeaning at hm
    cases hfields : fieldsIn phase with
    | none =>
      rw [hfields] at hm
      cases hm
    | some fields =>
      rw [hfields] at hm
      dsimp only at hm
      split_ifs at hm with hknown
      obtain ⟨members, hmembers, rfl⟩ := Option.map_eq_some_iff.mp hm
      obtain ⟨hlength, hown⟩ := effectMeanings_spec hmembers
      refine ⟨?_, fun e he => ?_⟩
      · rw [List.map_cons, List.sum_cons, List.flatMap_cons, List.length_append, hsum, hlength,
          hfields]
        rfl
      · rw [List.flatMap_cons, List.mem_append, hfields] at he
        rcases he with he | he
        · exact hown e he
        · exact hall e he

/-- **A record with a traffic meaning states effects, and all of them are completely read and of
known vehicles.** -/
theorem situationCompatibilityKey_spec {record : Situation} {key : String}
    (h : situationCompatibilityKey T record = some key) :
    situationEffects record ≠ [] ∧
      ∀ e ∈ situationEffects record, isRestrictionEvidence e = false := by
  unfold situationCompatibilityKey at h
  cases hlocation : fieldsAt record.fields "location" with
  | none =>
    rw [hlocation] at h
    cases h
  | some location =>
    rw [hlocation] at h
    dsimp only at h
    split_ifs at h with hmerged hunknown
    cases hloc : locationMeaning T location true with
    | none =>
      rw [hloc] at h
      cases h
    | some loc =>
      cases heffects : effectMeanings T (Fields.get record.fields "effects") location
          (Fields.get record.fields "validity") with
      | none =>
        rw [hloc, heffects] at h
        cases h
      | some effects =>
        rw [hloc, heffects] at h
        dsimp only at h
        obtain ⟨hlength, hown⟩ := effectMeanings_spec heffects
        -- The phases are read where there are some.
        have hphases : ∀ {phases}, phasesMeaning T
            ((fieldsAt record.fields "details").getD []) location = some phases →
            ((phases.getD []).map Prod.snd).sum = (phaseEffects record).length ∧
              ∀ e ∈ phaseEffects record, isRestrictionEvidence e = false := by
          intro phases hphases
          unfold phasesMeaning at hphases
          unfold phaseEffects itemsIn itemsAt
          cases hgot : Fields.get ((fieldsAt record.fields "details").getD []) "phases" with
          | none =>
            rw [hgot] at hphases
            obtain rfl : none = phases := Option.some.inj hphases
            exact ⟨rfl, fun e he => by cases he⟩
          | some value =>
            rw [hgot] at hphases
            dsimp only at hphases
            cases hitems : value.items with
            | none =>
              rw [hitems] at hphases
              cases hphases
            | some items =>
              rw [hitems] at hphases
              obtain ⟨ms, hms, rfl⟩ := Option.map_eq_some_iff.mp hphases
              rw [Option.bind_some, hitems, Option.getD_some]
              exact phaseMeaning_spec hms
        cases hread : phasesMeaning T ((fieldsAt record.fields "details").getD []) location with
        | none =>
          rw [hread] at h
          cases h
        | some phases =>
          rw [hread] at h
          dsimp only at h
          obtain ⟨hsum, hall⟩ := hphases hread
          split_ifs at h with htyped
          refine ⟨fun hnil => htyped ?_, fun e he => ?_⟩
          · obtain ⟨hownNil, hphaseNil⟩ := List.append_eq_nil_iff.mp hnil
            rw [hsum, hphaseNil, hlength]
            exact congrArg List.length hownNil
          · rcases List.mem_append.mp he with he | he
            · exact hown e he
            · exact hall e he

end Meaning

end OpenConditions.Core

import OpenConditions.Core.FieldValues
import OpenConditions.Core.MeaningKeys

set_option relaxedAutoImplicit false
set_option autoImplicit false

/-!
# The parts of a traffic meaning

The meaning of a record (`situationCompatibilityKey` of
`packages/core/src/situation-compatibility.ts`) by what it keeps of the record's location, effects,
phases and other fields, and the names and keys that a language is asked to compare for it.

## Main definitions

* `roadsMeaning`, `placeMeaning`, `effectiveLocation`, `statedEffect`, `statedPhase`,
  `statedRecord` — the parts.
* `recordMeaning` — what the key of a record is the key of.
* `RecordApart` — the language tells apart what it compares of a record.

## Main results

* `situationCompatibilityKey_eq` — the key of a record is that of its meaning.
* `within_locationMeaning`, `within_effectMeanings`, `within_phaseMeaning` — the names in a meaning
  are those in the record.
-/

namespace OpenConditions.Core

variable {T : MeaningText} {names : Set String} {a b : Fields} {key : String} {o : Option Json}

/-! ## Locations -/

/-- The keys of the roads of a location. -/
def keysOfRoads (T : MeaningText) (location : Fields) : List String :=
  (itemsIn location "roads").map fun road => keyOf T (roadMeaning T road)

/-- A location with its roads as they are compared. -/
def roadsMeaning (T : MeaningText) (location : Fields) : Fields :=
  match itemsAt location "roads" with
  | some roads => location.put "roads" (.arr (unordered T (roads.map (roadMeaning T))))
  | none => location

/-- A geometry as it is compared: a point near another one may be it, but for its altitude. -/
def placeMeaning (geometry : Fields) (nearby : Bool) : Fields :=
  if nearby = true ∧ textAt geometry "type" = some "Point" then
    geometry.put "coordinates" (.arr ((itemsIn geometry "coordinates").drop 2))
  else geometry

/-- A location as it is compared. -/
def statedLocation (T : MeaningText) (location geometry : Fields) (nearby : Bool) : Fields :=
  (roadsMeaning T location).put "geometry" (.obj (placeMeaning geometry nearby))

/-- The meaning of a location, by its parts. -/
theorem locationMeaning_eq (location : Fields) (nearby : Bool) :
    locationMeaning T location nearby = (fieldsAt location "geometry").bind fun geometry =>
      if textAt location "fuzziness" ≠ some "exact" ∨
          knownDirection T (location.get "direction") location = false then none
      else some (statedLocation T location geometry nearby) := by
  unfold locationMeaning
  cases fieldsAt location "geometry" with
  | none => rfl
  | some geometry => rfl

/-- The names in a road's meaning are the road's. -/
theorem within_roadMeaning {road : Json} (h : Within names road) :
    Within names (roadMeaning T road) := by
  unfold roadMeaning
  cases road with
  | obj fields =>
    dsimp only [fieldsIn]
    cases href : textAt fields "ref" with
    | none => exact h
    | some ref => exact within_put h (h.get _ _ (get_of_textAt href)).1 (within_str _)
  | _ => exact within_obj_iff.mpr fun _ => withinAt_none

/-- The names in roads as they are compared are the location's. -/
theorem within_roadsMeaning (h : Within names (.obj a)) :
    Within names (.obj (roadsMeaning T a)) := by
  unfold roadsMeaning
  cases hroads : itemsAt a "roads" with
  | none => exact h
  | some roads =>
    obtain ⟨hkey, hin⟩ := h.get _ _ (get_of_itemsAt hroads)
    refine within_put h hkey (within_arr_iff.mpr fun road hroad => ?_)
    obtain ⟨r, hr, rfl⟩ := List.mem_map.mp ((unordered_perm _).mem_iff.mp hroad)
    exact within_roadMeaning (within_arr_iff.mp hin r hr)

/-- The names in a geometry as it is compared are its own, but for a point's coordinates. -/
theorem within_placeMeaning {geometry : Fields} {nearby : Bool}
    (h : Within names (.obj geometry)) (hcoordinates : "coordinates" ∈ names) :
    Within names (.obj (placeMeaning geometry nearby)) := by
  unfold placeMeaning itemsIn
  split_ifs
  · refine within_put h hcoordinates (within_arr_iff.mpr fun x hx => ?_)
    have hx := List.mem_of_mem_drop hx
    cases hitems : itemsAt geometry "coordinates" with
    | none =>
      rw [hitems] at hx
      cases hx
    | some items =>
      rw [hitems] at hx
      exact within_arr_iff.mp (h.get _ _ (get_of_itemsAt hitems)).2 x hx
  · exact h

/-- The names in the meaning of a location are the location's, but for a point's coordinates. -/
theorem within_locationMeaning {loc : Fields} {nearby : Bool} (h : Within names (.obj a))
    (hcoordinates : "coordinates" ∈ names) (hloc : locationMeaning T a nearby = some loc) :
    Within names (.obj loc) := by
  rw [locationMeaning_eq] at hloc
  obtain ⟨geometry, hgeometry, hloc⟩ := Option.bind_eq_some_iff.mp hloc
  split_ifs at hloc
  obtain rfl := Option.some.inj hloc
  obtain ⟨hkey, hin⟩ := h.get _ _ (get_of_fieldsAt hgeometry)
  exact within_put (within_roadsMeaning h) hkey (within_placeMeaning hin hcoordinates)

/-! ## Effects -/

/-- The location of an effect, on that of its record. -/
def effectiveLocation (effect location : Fields) : Fields :=
  Fields.spread location ((fieldsAt effect "location").getD [])

/-- An effect has no geometry of its own. -/
def inheritsPlace (effect : Fields) : Bool :=
  ((fieldsAt effect "location").bind fun own => own.get "geometry").isNone

/-- The direction of an effect, or that of its location. -/
def effectDirection (effect location : Fields) : Option Json :=
  orElse (effect.get "direction") ((effectiveLocation effect location).get "direction")

/-- The validity of an effect, or that of its record or phase. -/
def effectValidity (effect : Fields) (validity : Option Json) : Option Json :=
  orElse (effect.get "validity") validity

/-- An effect is not completely read, or of unknown vehicles. -/
def isRefused (effect : Fields) : Bool :=
  decide (textAt effect "normalization" ≠ some "complete" ∨
    textAt effect "kind" = some "unsupported" ∨ (fieldsAt effect "applicability").isNone = true ∨
    ((fieldsAt effect "applicability").bind fun a => textAt a "kind") = some "unknown" ∨
    textAt effect "compliance" = some "unknown" ∨ (itemsIn effect "issues").isEmpty = false)

/-- The fields of an effect that its meaning does not keep as they are. -/
def notEffect : List String :=
  ["id", "sourceRecordRef", "source", "location", "direction", "validity"]

/-- An effect with the meaning of its location. -/
def statedEffect (effect loc : Fields) (direction validity : Option Json) : Fields :=
  ((effect.without notEffect).put "location" (.obj loc)).spread
    (Fields.given "direction" direction ++ Fields.given "validity" validity)

/-- The meaning of an effect, by its parts. -/
theorem effectMeaning_eq (effect location : Fields) (validity : Option Json) :
    effectMeaning T effect location validity =
      if isRefused effect = true then none
      else (locationMeaning T (effectiveLocation effect location) (inheritsPlace effect)).bind
        fun loc =>
          if knownDirection T (effectDirection effect location)
                (effectiveLocation effect location) = false ∨
              knownValidity (effectValidity effect validity) = false then none
          else some (statedEffect effect loc (effectDirection effect location)
            (effectValidity effect validity)) := by
  unfold effectMeaning isRefused
  dsimp only
  by_cases hread : textAt effect "normalization" ≠ some "complete" ∨
      textAt effect "kind" = some "unsupported" ∨ (fieldsAt effect "applicability").isNone = true ∨
      ((fieldsAt effect "applicability").bind fun a => textAt a "kind") = some "unknown" ∨
      textAt effect "compliance" = some "unknown" ∨ (itemsIn effect "issues").isEmpty = false
  · rw [if_pos hread, if_pos (decide_eq_true hread)]
  · rw [if_neg hread, if_neg (by simpa only [decide_eq_true_eq] using hread)]
    cases hloc : locationMeaning T (effectiveLocation effect location) (inheritsPlace effect) with
    | none =>
      unfold effectiveLocation inheritsPlace at hloc
      rw [hloc]
      rfl
    | some loc =>
      have hloc' := hloc
      unfold effectiveLocation inheritsPlace at hloc'
      rw [hloc']
      rfl

/-- The parts of the meaning of an effect that has one. -/
theorem exists_of_effectMeaning {effect location meaning : Fields} {validity : Option Json}
    (h : effectMeaning T effect location validity = some meaning) :
    ∃ loc, locationMeaning T (effectiveLocation effect location) (inheritsPlace effect) = some loc ∧
      meaning = statedEffect effect loc (effectDirection effect location)
        (effectValidity effect validity) := by
  rw [effectMeaning_eq] at h
  by_cases hrefused : isRefused effect = true
  · rw [if_pos hrefused] at h
    cases h
  · rw [if_neg hrefused] at h
    obtain ⟨loc, hloc, hstated⟩ := Option.bind_eq_some_iff.mp h
    split_ifs at hstated
    exact ⟨loc, hloc, (Option.some.inj hstated).symm⟩

/-- A field of an effect with the meaning of its location. -/
theorem get_statedEffect {effect loc : Fields} {direction validity : Option Json} (key : String) :
    (statedEffect effect loc direction validity).get key =
      ((if "direction" = key then direction else none).or
        (if "validity" = key then validity else none)).or
        (if "location" = key then some (.obj loc)
          else if key ∈ notEffect then none else effect.get key) := by
  rw [statedEffect, Fields.get_spread, Fields.get_append, Fields.get_given, Fields.get_given,
    Fields.get_put, Fields.get_without]

/-- The names in the value that counts of two. -/
theorem WithinAt.orElse {p : Option Json} (h : WithinAt names key o) (hp : WithinAt names key p) :
    WithinAt names key (orElse o p) := by
  intro v hv
  unfold Core.orElse at hv
  split at hv
  · exact hp v hv
  · exact hp v hv
  · exact h v hv

/-- The names in an object that may be absent are those of the object that it is a field of. -/
theorem within_getD (h : Within names (.obj a)) :
    Within names (.obj ((fieldsAt a key).getD [])) := by
  cases hown : fieldsAt a key with
  | none => exact within_obj_iff.mpr fun _ => withinAt_none
  | some own => exact (h.get _ _ (get_of_fieldsAt hown)).2

/-- The names in an effect's location are those in the two locations. -/
theorem within_effectiveLocation {location : Fields} (h : Within names (.obj a))
    (hlocation : Within names (.obj location)) :
    Within names (.obj (effectiveLocation a location)) :=
  within_spread hlocation (within_getD h)

/-- The names in an object are those in the value that it is. -/
theorem within_fieldsIn {v : Json} {fields : Fields} (h : Within names v)
    (hfields : fieldsIn v = some fields) : Within names (.obj fields) := by
  cases v <;> cases hfields
  exact h

/-! ## Lists of effects -/

/-- The items of an optional value. -/
def listedIn (value : Option Json) : List Json := (value.bind Json.items).getD []

/-- The meaning of an effect as it is listed. -/
def effectOf (T : MeaningText) (location : Fields) (validity : Option Json) (effect : Json) :
    Option Json :=
  (fieldsIn effect).bind fun fields => (effectMeaning T fields location validity).map Json.obj

/-- The keys of effects. -/
def keysOfEffects (T : MeaningText) (value : Option Json) (location : Fields)
    (validity : Option Json) : List String :=
  (listedIn value).filterMap fun effect => (effectOf T location validity effect).map (keyOf T)

/-- The language tells apart the keys of effects, and those of the roads of each. -/
def EffectsApart (T : MeaningText) (value : Option Json) (location : Fields)
    (validity : Option Json) : Prop :=
  Apart T.localeLe {key | key ∈ keysOfEffects T value location validity} ∧
    ∀ effect ∈ listedIn value, Apart T.localeLe
      {key | key ∈ keysOfRoads T (effectiveLocation ((fieldsIn effect).getD []) location)}

/-- The meanings of effects, by those of each. -/
theorem effectMeanings_eq (value : Option Json) (location : Fields) (validity : Option Json) :
    effectMeanings T value location validity = (value.bind Json.items).bind fun effects =>
      (effects.mapM (effectOf T location validity)).map (unordered T) := by
  unfold effectMeanings
  cases value.bind Json.items with
  | none => rfl
  | some effects => rfl

/-- The names in an effect's meaning are those in the effect and in what it inherits. -/
theorem within_effectOf {location : Fields} {validity : Option Json} {effect meaning : Json}
    (h : Within names effect) (hlocation : Within names (.obj location))
    (hvalidity : WithinAt names "validity" validity) (hkey : "location" ∈ names)
    (hcoordinates : "coordinates" ∈ names)
    (hmeaning : effectOf T location validity effect = some meaning) : Within names meaning := by
  obtain ⟨fields, hfields, hmeaning⟩ := Option.bind_eq_some_iff.mp hmeaning
  obtain ⟨stated, hstated, rfl⟩ := Option.map_eq_some_iff.mp hmeaning
  have hin := within_fieldsIn h hfields
  have heffective := within_effectiveLocation hin hlocation
  obtain ⟨loc, hloc, rfl⟩ := exists_of_effectMeaning hstated
  refine within_spread (within_put (within_without hin notEffect) hkey
    (within_locationMeaning heffective hcoordinates hloc)) ?_
  exact within_spread (within_given ((hin.get "validity").orElse hvalidity))
    (within_given ((hin.get "direction").orElse (heffective.get "direction")))

/-- The names in the results of effects are those in the effects and in what they inherit. -/
theorem within_mapM_effectOf {location : Fields} {validity : Option Json}
    {effects results : List Json} (h : ∀ e ∈ effects, Within names e)
    (hlocation : Within names (.obj location)) (hvalidity : WithinAt names "validity" validity)
    (hkey : "location" ∈ names) (hcoordinates : "coordinates" ∈ names)
    (hresults : effects.mapM (effectOf T location validity) = some results) :
    ∀ m ∈ results, Within names m := by
  intro m hm
  obtain ⟨e, he, heq⟩ := Rearranged.exists_of_mem_mapM hresults hm
  exact within_effectOf (h e he) hlocation hvalidity hkey hcoordinates heq

/-- The names in the items of a value are the value's. -/
theorem within_listedIn (h : WithinAt names key o) : ∀ e ∈ listedIn o, Within names e := by
  intro e he
  unfold listedIn at he
  cases o with
  | none => cases he
  | some v =>
    cases v with
    | arr items => exact within_arr_iff.mp (h _ rfl).2 e he
    | _ => cases he

/-- The names in the meanings of effects are those in the effects and in what they inherit. -/
theorem within_effectMeanings {location : Fields} {validity : Option Json} {meanings : List Json}
    (h : WithinAt names key o) (hlocation : Within names (.obj location))
    (hvalidity : WithinAt names "validity" validity) (hkey : "location" ∈ names)
    (hcoordinates : "coordinates" ∈ names)
    (hmeanings : effectMeanings T o location validity = some meanings) :
    ∀ m ∈ meanings, Within names m := by
  have hitems := within_listedIn h
  rw [effectMeanings_eq] at hmeanings
  obtain ⟨effects, heffects, hmeanings⟩ := Option.bind_eq_some_iff.mp hmeanings
  obtain ⟨ms, hms, rfl⟩ := Option.map_eq_some_iff.mp hmeanings
  rw [listedIn, heffects, Option.getD_some] at hitems
  exact fun m hm => within_mapM_effectOf hitems hlocation hvalidity hkey hcoordinates hms m
    ((unordered_perm ms).mem_iff.mp hm)

/-! ## Phases -/

/-- The language tells apart what it compares of a phase. -/
def PhaseApart (T : MeaningText) (location : Fields) (phase : Json) : Prop :=
  EffectsApart T (((fieldsIn phase).getD []).get "effects") location
    (((fieldsIn phase).getD []).get "validity")

/-- The keys of phases. -/
def keysOfPhases (T : MeaningText) (location : Fields) (phases : List Json) : List String :=
  phases.filterMap fun phase => (phaseMeaning T phase location).map fun r => keyOf T r.1

/-- A phase with the meanings of its effects. -/
def statedPhase (phase : Fields) (members : List Json) : Fields :=
  (phase.without ["id", "name", "effects"]).put "effects" (.arr members)

/-- The meaning of a phase, by its parts. -/
theorem phaseMeaning_eq (phase : Json) (location : Fields) :
    phaseMeaning T phase location = (fieldsIn phase).bind fun fields =>
      if knownValidity (fields.get "validity") = false then none
      else (effectMeanings T (fields.get "effects") location (fields.get "validity")).map
        fun members => (.obj (statedPhase fields members), members.length) := by
  unfold phaseMeaning
  cases fieldsIn phase with
  | none => rfl
  | some fields => rfl

/-- What has meanings of effects has a field for them. -/
theorem exists_get_of_effectMeanings {location : Fields} {validity : Option Json}
    {meanings : List Json}
    (h : effectMeanings T (a.get key) location validity = some meanings) :
    ∃ items, a.get key = some (.arr items) := by
  rw [effectMeanings_eq] at h
  obtain ⟨items, hitems, -⟩ := Option.bind_eq_some_iff.mp h
  exact ⟨items, get_of_itemsAt hitems⟩

/-- The names in a phase's meaning are those in the phase and in what its effects inherit. -/
theorem within_phaseMeaning {location : Fields} {phase : Json} {r : Json × ℕ}
    (h : Within names phase) (hlocation : Within names (.obj location)) (hkey : "location" ∈ names)
    (hcoordinates : "coordinates" ∈ names) (hr : phaseMeaning T phase location = some r) :
    Within names r.1 := by
  rw [phaseMeaning_eq] at hr
  obtain ⟨fields, hfields, hr⟩ := Option.bind_eq_some_iff.mp hr
  split_ifs at hr
  obtain ⟨members, hmembers, rfl⟩ := Option.map_eq_some_iff.mp hr
  have hin := within_fieldsIn h hfields
  obtain ⟨items, hitems⟩ := exists_get_of_effectMeanings hmembers
  exact within_put (within_without hin _) (hin.get _ _ hitems).1 (within_arr_iff.mpr
    (within_effectMeanings (hin.get "effects") hlocation (hin.get "validity") hkey hcoordinates
      hmembers))

/-! ## Records -/

/-- The freshness of a record as it is compared. -/
def freshnessMeaning (record : Fields) : Option Json :=
  (fieldsAt record "freshness").map fun freshness =>
    .obj (freshness.without ["fetchedAt", "sourceCheckedAt"])

/-- The phases of a record. -/
def phasesOf (record : Fields) : List Json :=
  listedIn (((fieldsAt record "details").getD []).get "phases")

/-- A record with the meanings of its parts. -/
def statedRecord (record loc : Fields) (effects : List Json) (details : Option Json) : Fields :=
  (Fields.without record notMeaning).spread
    ([("location", .obj loc), ("effects", .arr effects)] ++ Fields.given "details" details ++
      Fields.given "freshness" (freshnessMeaning record))

/-- A record is not known to be read, or was put together of others. -/
def isUntold (record : Situation) : Bool :=
  !(record.provenance.mergedSources.getD []).isEmpty ||
    decide (textAt record.fields "certainty" = some "unknown" ∨
      knownValidity (Fields.get record.fields "validity") = false)

/-- The meaning of a record. -/
def recordMeaning (T : MeaningText) (record : Situation) : Option Fields :=
  (fieldsAt record.fields "location").bind fun location =>
    if isUntold record = true then none
    else
      (locationMeaning T location true).bind fun loc =>
        (effectMeanings T (Fields.get record.fields "effects") location
            (Fields.get record.fields "validity")).bind fun effects =>
          (phasesMeaning T ((fieldsAt record.fields "details").getD []) location).bind fun phases =>
            if effects.length + ((phases.getD []).map Prod.snd).sum = 0 then none
            else some (statedRecord record.fields loc effects
              (detailsMeaning T (fieldsAt record.fields "details") phases))

/-- **The key of a record is that of its meaning.** -/
theorem situationCompatibilityKey_eq (record : Situation) :
    situationCompatibilityKey T record =
      (recordMeaning T record).map fun meaning => keyOf T (.obj meaning) := by
  unfold situationCompatibilityKey recordMeaning isUntold
  cases fieldsAt record.fields "location" with
  | none => rfl
  | some location =>
    rw [Option.bind_some]
    dsimp only
    by_cases hmerged : (record.provenance.mergedSources.getD []).isEmpty = false
    · rw [if_pos hmerged, if_pos (by rw [hmerged]; rfl)]
      rfl
    · have hempty : (record.provenance.mergedSources.getD []).isEmpty = true :=
        Bool.not_eq_false _ |>.mp hmerged
      rw [if_neg hmerged, hempty, Bool.not_true, Bool.false_or]
      by_cases hunknown : textAt record.fields "certainty" = some "unknown" ∨
          knownValidity (Fields.get record.fields "validity") = false
      · rw [if_pos hunknown, if_pos (decide_eq_true hunknown)]
        rfl
      · rw [if_neg hunknown, if_neg (by simpa only [decide_eq_true_eq] using hunknown)]
        cases locationMeaning T location true with
        | none => rfl
        | some loc =>
          cases effectMeanings T (Fields.get record.fields "effects") location
              (Fields.get record.fields "validity") with
          | none => rfl
          | some effects =>
            cases phasesMeaning T ((fieldsAt record.fields "details").getD []) location with
            | none => rfl
            | some phases =>
              simp only [Option.bind_some]
              split_ifs
              · rfl
              · rfl

/-- The names in the details of a record's meaning are the record's. -/
theorem within_detailsMeaning {location : Fields} {phases : Option (List (Json × ℕ))}
    (h : Within names (.obj a)) (hlocation : Within names (.obj location))
    (hkey : "location" ∈ names) (hcoordinates : "coordinates" ∈ names)
    (hphases : phasesMeaning T ((fieldsAt a "details").getD []) location = some phases) :
    WithinAt names "details" (detailsMeaning T (fieldsAt a "details") phases) := by
  intro v hv
  unfold detailsMeaning at hv
  obtain ⟨details, hdetails, hv⟩ := Option.map_eq_some_iff.mp hv
  obtain ⟨hname, hin⟩ := h.get _ _ (get_of_fieldsAt hdetails)
  rw [hdetails, Option.getD_some] at hphases
  refine ⟨hname, ?_⟩
  cases phases with
  | none => exact hv ▸ within_without hin _
  | some ms =>
    unfold phasesMeaning at hphases
    cases hget : details.get "phases" with
    | none =>
      rw [hget] at hphases
      cases hphases
    | some value =>
      rw [hget] at hphases
      dsimp only at hphases
      obtain ⟨hphasesName, hvalue⟩ := hin.get _ _ hget
      cases value with
      | arr items =>
        obtain ⟨rs, hrs, heq⟩ := Option.map_eq_some_iff.mp hphases
        obtain rfl := Option.some.inj heq
        subst hv
        refine within_put (within_without hin _) hphasesName (within_arr_iff.mpr fun m hm => ?_)
        obtain ⟨r, hr, rfl⟩ := List.mem_map.mp ((unordered_perm _).mem_iff.mp hm)
        obtain ⟨phase, hphase, hmeaning⟩ := Rearranged.exists_of_mem_mapM hrs hr
        exact within_phaseMeaning (within_arr_iff.mp hvalue phase hphase) hlocation hkey
          hcoordinates hmeaning
      | _ => cases hphases

/-- The names in the freshness of a record's meaning are the record's. -/
theorem within_freshnessMeaning (h : Within names (.obj a)) :
    WithinAt names "freshness" (freshnessMeaning a) := by
  intro v hv
  obtain ⟨freshness, hfreshness, rfl⟩ := Option.map_eq_some_iff.mp hv
  obtain ⟨hname, hin⟩ := h.get _ _ (get_of_fieldsAt hfreshness)
  exact ⟨hname, within_without hin _⟩

/-- The parts of the meaning of a record that has one. -/
theorem exists_of_recordMeaning {record : Situation} {meaning : Fields}
    (h : recordMeaning T record = some meaning) :
    ∃ location loc effects phases, fieldsAt record.fields "location" = some location ∧
      locationMeaning T location true = some loc ∧
      effectMeanings T (Fields.get record.fields "effects") location
        (Fields.get record.fields "validity") = some effects ∧
      phasesMeaning T ((fieldsAt record.fields "details").getD []) location = some phases ∧
      meaning = statedRecord record.fields loc effects
        (detailsMeaning T (fieldsAt record.fields "details") phases) := by
  obtain ⟨location, hlocation, h⟩ := Option.bind_eq_some_iff.mp h
  by_cases huntold : isUntold record = true
  · rw [if_pos huntold] at h
    cases h
  · rw [if_neg huntold] at h
    obtain ⟨loc, hloc, h⟩ := Option.bind_eq_some_iff.mp h
    obtain ⟨effects, heffects, h⟩ := Option.bind_eq_some_iff.mp h
    obtain ⟨phases, hphases, h⟩ := Option.bind_eq_some_iff.mp h
    split_ifs at h
    exact ⟨location, loc, effects, phases, hlocation, hloc, heffects, hphases,
      (Option.some.inj h).symm⟩

/-- The names in the meaning of a record are the record's, but for a point's coordinates. -/
theorem within_recordMeaning {record : Situation} {meaning : Fields}
    (h : Within names (.obj record.fields)) (hcoordinates : "coordinates" ∈ names)
    (hmeaning : recordMeaning T record = some meaning) : Within names (.obj meaning) := by
  obtain ⟨location, loc, effects, phases, hlocation, hloc, heffects, hphases, rfl⟩ :=
    exists_of_recordMeaning hmeaning
  obtain ⟨hkey, hin⟩ := h.get _ _ (get_of_fieldsAt hlocation)
  obtain ⟨items, hitems⟩ := exists_get_of_effectMeanings heffects
  have hlocated : Within names (.obj [("location", .obj loc), ("effects", .arr effects)]) :=
    within_put (within_put (within_obj_iff.mpr fun _ => withinAt_none) (h.get _ _ hitems).1
        (within_arr_iff.mpr (within_effectMeanings (h.get "effects") hin (h.get "validity") hkey
          hcoordinates heffects)))
      hkey (within_locationMeaning hin hcoordinates hloc)
  exact within_spread (within_without h notMeaning) (within_spread
    (within_given (within_freshnessMeaning h)) (within_spread (within_given
      (within_detailsMeaning h hin hkey hcoordinates hphases)) hlocated))

/-- **The language tells apart what it compares of a record**: its names, and the keys of its roads,
effects and phases. -/
structure RecordApart (T : MeaningText) (record : Fields) : Prop where
  /-- The names in the record, and the one that a point's altitude stands under. -/
  names : Apart T.localeLe {name | name = "coordinates" ∨ Occurs name (.obj record)}
  roads : Apart T.localeLe {key | key ∈ keysOfRoads T ((fieldsAt record "location").getD [])}
  effects : EffectsApart T (record.get "effects") ((fieldsAt record "location").getD [])
    (record.get "validity")
  phaseEffects : ∀ phase ∈ phasesOf record,
    PhaseApart T ((fieldsAt record "location").getD []) phase
  phases : Apart T.localeLe
    {key | key ∈ keysOfPhases T ((fieldsAt record "location").getD []) (phasesOf record)}

end OpenConditions.Core

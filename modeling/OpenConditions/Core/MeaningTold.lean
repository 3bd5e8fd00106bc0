import OpenConditions.Core.MeaningOrder

set_option relaxedAutoImplicit false
set_option autoImplicit false

/-!
# What a compatibility key tells

Two records with one compatibility key (`situationCompatibilityKey` of
`packages/core/src/situation-compatibility.ts`) mean the same of the traffic: their locations, their
effects and their phases are alike, and the fields that their meanings keep say the same.

A road's reference is compared without blanks and in capitals, and a point of the record without its
longitude and latitude.

## Main definitions

* `AlikeLocation`, `AlikeEffect`, `AlikePhase`, `AlikeRecord` — alike as they are compared.

## Main results

* `alike_of_key_eq` — records with one key are alike.
* `compatibilityKey_spec` — and a record has one key in whatever order its parts stand.
-/

namespace OpenConditions.Core

variable {T : MeaningText} {a b : Fields} {key : String} {o : Option Json}

/-! ## Alike as they are compared -/

/-- Roads say the same, but for the blanks in their references and the case of its letters. -/
structure AlikeRoad (T : MeaningText) (road road' : Fields) : Prop where
  fields : ∀ key, key ≠ "ref" → SameAt road road' key
  references : (textAt road "ref").map T.roadRef = (textAt road' "ref").map T.roadRef
  others : textAt road "ref" = none → SameAt road road' "ref"

/-- The roads of locations are alike in some order; what is no array says the same. -/
def AlikeRoads (T : MeaningText) (a b : Fields) : Prop :=
  (∃ roads roads', itemsAt a "roads" = some roads ∧ itemsAt b "roads" = some roads' ∧
    Rearranged (fun x y => AlikeRoad T ((fieldsIn x).getD []) ((fieldsIn y).getD []))
      roads roads') ∨
  (itemsAt a "roads" = none ∧ itemsAt b "roads" = none ∧ SameAt a b "roads")

/-- The coordinates of a geometry that are compared: of a point near which another one may be, those
after its longitude and latitude. -/
def comparedCoordinates (geometry : Fields) (nearby : Bool) : Option Json :=
  if nearby = true ∧ textAt geometry "type" = some "Point" then
    some (.arr ((itemsIn geometry "coordinates").drop 2))
  else geometry.get "coordinates"

/-- Geometries say the same, but for what is not compared of their coordinates. -/
structure AlikePlace (geometry : Fields) (nearby : Bool) (geometry' : Fields) (nearby' : Bool) :
    Prop where
  fields : ∀ key, key ≠ "coordinates" → SameAt geometry geometry' key
  coordinates : (comparedCoordinates geometry nearby).map Json.value =
    (comparedCoordinates geometry' nearby').map Json.value

/-- Locations are alike. -/
structure AlikeLocation (T : MeaningText) (location : Fields) (nearby : Bool) (location' : Fields)
    (nearby' : Bool) : Prop where
  fields : ∀ key, key ≠ "roads" → key ≠ "geometry" → SameAt location location' key
  roads : AlikeRoads T location location'
  place : ∃ geometry geometry', fieldsAt location "geometry" = some geometry ∧
    fieldsAt location' "geometry" = some geometry' ∧
    AlikePlace geometry nearby geometry' nearby'

/-- Effects are alike, with what they inherit. -/
structure AlikeEffect (T : MeaningText) (location : Fields) (validity : Option Json)
    (location' : Fields) (validity' : Option Json) (effect effect' : Fields) : Prop where
  fields : ∀ key, key ∉ notEffect → SameAt effect effect' key
  located : AlikeLocation T (effectiveLocation effect location) (inheritsPlace effect)
    (effectiveLocation effect' location') (inheritsPlace effect')
  directed : (effectDirection effect location).map Json.value =
    (effectDirection effect' location').map Json.value
  valid : (effectValidity effect validity).map Json.value =
    (effectValidity effect' validity').map Json.value

/-- Lists of effects are alike in some order. -/
def AlikeEffects (T : MeaningText) (location : Fields) (validity : Option Json)
    (location' : Fields) (validity' : Option Json) (effects effects' : List Json) : Prop :=
  Rearranged (fun x y => ∃ effect effect', fieldsIn x = some effect ∧ fieldsIn y = some effect' ∧
    AlikeEffect T location validity location' validity' effect effect') effects effects'

/-- Phases are alike. -/
structure AlikePhase (T : MeaningText) (location location' phase phase' : Fields) : Prop where
  fields : ∀ key, key ∉ ["id", "name", "effects"] → SameAt phase phase' key
  effects : AlikeEffects T location (phase.get "validity") location' (phase'.get "validity")
    (listedIn (phase.get "effects")) (listedIn (phase'.get "effects"))

/-- The location of a record. -/
def placeOf (record : Fields) : Fields := (fieldsAt record "location").getD []

/-- Records are alike. -/
structure AlikeRecord (T : MeaningText) (record record' : Fields) : Prop where
  fields : ∀ key, key ∉ notMeaning → SameAt record record' key
  located : AlikeLocation T (placeOf record) true (placeOf record') true
  effects : AlikeEffects T (placeOf record) (record.get "validity") (placeOf record')
    (record'.get "validity") (listedIn (record.get "effects")) (listedIn (record'.get "effects"))
  details : Option.Rel (fun details details' => ∀ key, key ≠ "phases" → SameAt details details' key)
    (fieldsAt record "details") (fieldsAt record' "details")
  phases : Option.Rel (Rearranged fun x y => ∃ phase phase', fieldsIn x = some phase ∧
      fieldsIn y = some phase' ∧ AlikePhase T (placeOf record) (placeOf record') phase phase')
    (itemsAt ((fieldsAt record "details").getD []) "phases")
    (itemsAt ((fieldsAt record' "details").getD []) "phases")
  freshness : Option.Rel (fun freshness freshness' => ∀ key,
      key ∉ ["fetchedAt", "sourceCheckedAt"] → SameAt freshness freshness' key)
    (fieldsAt record "freshness") (fieldsAt record' "freshness")

/-! ## What the meaning of a location tells -/

/-- A road as it is compared: its reference, and its other fields. -/
theorem exists_roadMeaning (x : Json) :
    ∃ fields : Fields, roadMeaning T x = .obj fields ∧
      (∀ key, key ≠ "ref" → fields.get key = Fields.get ((fieldsIn x).getD []) key) ∧
      textAt fields "ref" = (textAt ((fieldsIn x).getD []) "ref").map T.roadRef ∧
      (textAt ((fieldsIn x).getD []) "ref" = none →
        fields.get "ref" = Fields.get ((fieldsIn x).getD []) "ref") := by
  unfold roadMeaning
  cases fieldsIn x with
  | none => exact ⟨[], rfl, fun _ _ => rfl, rfl, fun _ => rfl⟩
  | some road =>
    dsimp only [Option.getD_some]
    cases href : textAt road "ref" with
    | none => exact ⟨road, rfl, fun _ _ => rfl, href, fun _ => rfl⟩
    | some ref =>
      refine ⟨_, rfl, fun key hkey => ?_, ?_, fun hnone => by cases hnone⟩
      · rw [Fields.get_put, if_neg hkey.symm]
      · rw [textAt, Fields.get_put, if_pos rfl]
        rfl

/-- The meaning of a road tells it. -/
theorem alikeRoad_of_meaning {x y : Json}
    (h : (roadMeaning T x).value = (roadMeaning T y).value) :
    AlikeRoad T ((fieldsIn x).getD []) ((fieldsIn y).getD []) := by
  obtain ⟨f, hf, hothers, href, hnone⟩ := exists_roadMeaning (T := T) x
  obtain ⟨g, hg, hothers', href', hnone'⟩ := exists_roadMeaning (T := T) y
  rw [hf, hg] at h
  have hsame : ∀ key, SameAt f g key := sameAt_of_value h
  have hrefs := (hsame "ref").textAt
  rw [href, href'] at hrefs
  refine ⟨fun key hkey => ?_, hrefs, fun hx => ?_⟩
  · have hkeySame := hsame key
    rwa [SameAt, hothers key hkey, hothers' key hkey] at hkeySame
  · have hrefSame := hsame "ref"
    rw [hx, Option.map_none, eq_comm, Option.map_eq_none_iff] at hrefs
    rwa [SameAt, hnone hx, hnone' hrefs] at hrefSame

/-- The roads of a location as they are compared. -/
theorem itemsAt_roadsMeaning (location : Fields) :
    itemsAt (roadsMeaning T location) "roads" =
      (itemsAt location "roads").map fun roads => unordered T (roads.map (roadMeaning T)) := by
  unfold roadsMeaning
  cases hroads : itemsAt location "roads" with
  | none => exact hroads
  | some roads =>
    rw [itemsAt, Fields.get_put, if_pos rfl]
    rfl

/-- The other fields of a location as it is compared are its own. -/
theorem get_roadsMeaning (location : Fields) (hkey : key ≠ "roads") :
    (roadsMeaning T location).get key = location.get key := by
  unfold roadsMeaning
  cases itemsAt location "roads" with
  | none => rfl
  | some roads => rw [Fields.get_put, if_neg hkey.symm]

/-- Roads as they are compared tell the roads. -/
theorem alikeRoads_of_meaning (h : SameAt (roadsMeaning T a) (roadsMeaning T b) "roads") :
    AlikeRoads T a b := by
  have hitems := h.itemsAt
  rw [itemsAt_roadsMeaning, itemsAt_roadsMeaning, Option.map_map, Option.map_map] at hitems
  rcases map_eq_map_cases hitems with ⟨ha, hb⟩ | ⟨roads, roads', ha, hb, hroads⟩
  · refine Or.inr ⟨ha, hb, ?_⟩
    unfold roadsMeaning at h
    rwa [ha, hb] at h
  · refine Or.inl ⟨roads, roads', ha, hb, ?_⟩
    have hperm := ((unordered_perm (T := T) (roads.map (roadMeaning T))).map Json.value).symm.trans
      ((List.Perm.of_eq hroads).trans
        ((unordered_perm (T := T) (roads'.map (roadMeaning T))).map Json.value))
    rw [List.map_map, List.map_map] at hperm
    exact (Rearranged.of_map hperm).imp fun x _ y _ hxy => alikeRoad_of_meaning hxy

/-- The coordinates of a geometry as it is compared. -/
theorem get_placeMeaning (geometry : Fields) (nearby : Bool) (key : String) :
    (placeMeaning geometry nearby).get key =
      if "coordinates" = key then comparedCoordinates geometry nearby else geometry.get key := by
  unfold placeMeaning comparedCoordinates
  split_ifs with hpoint hkey hkey
  · rw [Fields.get_put, if_pos hkey]
  · rw [Fields.get_put, if_neg hkey]
  · rw [hkey]
  · rfl

/-- The meaning of a location tells it. -/
theorem alikeLocation_of_meaning {loc loc' : Fields} {nearby nearby' : Bool}
    (ha : locationMeaning T a nearby = some loc) (hb : locationMeaning T b nearby' = some loc')
    (h : loc.value = loc'.value) : AlikeLocation T a nearby b nearby' := by
  rw [locationMeaning_eq] at ha hb
  obtain ⟨geometry, hgeometry, ha⟩ := Option.bind_eq_some_iff.mp ha
  obtain ⟨geometry', hgeometry', hb⟩ := Option.bind_eq_some_iff.mp hb
  split_ifs at ha hb
  obtain rfl := Option.some.inj ha
  obtain rfl := Option.some.inj hb
  have hget : ∀ (location geometry : Fields) (nearby : Bool) (key : String),
      (statedLocation T location geometry nearby).get key =
        if "geometry" = key then some (.obj (placeMeaning geometry nearby))
        else (roadsMeaning T location).get key := fun _ _ _ _ => Fields.get_put ..
  have hsame : ∀ key, "geometry" ≠ key → SameAt (roadsMeaning T a) (roadsMeaning T b) key := by
    intro key hkey
    have hkeySame := sameAt_of_value h key
    rwa [SameAt, hget, hget, if_neg hkey, if_neg hkey] at hkeySame
  refine ⟨fun key hroads hkey => ?_, alikeRoads_of_meaning (hsame _ (by decide)), geometry,
    geometry', hgeometry, hgeometry', ?_⟩
  · have hkeySame := hsame key hkey.symm
    rwa [SameAt, get_roadsMeaning a hroads, get_roadsMeaning b hroads] at hkeySame
  · have hplaces := sameAt_of_value h "geometry"
    rw [SameAt, hget, hget, if_pos rfl, if_pos rfl] at hplaces
    have hplace : ∀ key, SameAt (placeMeaning geometry nearby) (placeMeaning geometry' nearby') key :=
      sameAt_of_value (Option.some.inj hplaces)
    refine ⟨fun key hkey => ?_, ?_⟩
    · have hkeySame := hplace key
      rwa [SameAt, get_placeMeaning, get_placeMeaning, if_neg hkey.symm, if_neg hkey.symm]
        at hkeySame
    · have hcoordinates := hplace "coordinates"
      rwa [SameAt, get_placeMeaning, get_placeMeaning, if_pos rfl, if_pos rfl] at hcoordinates

/-! ## What the meanings of effects tell -/

/-- The meaning of an effect tells it. -/
theorem alikeEffect_of_meaning {location location' effect effect' m m' : Fields}
    {validity validity' : Option Json} (ha : effectMeaning T effect location validity = some m)
    (hb : effectMeaning T effect' location' validity' = some m') (h : m.value = m'.value) :
    AlikeEffect T location validity location' validity' effect effect' := by
  obtain ⟨loc, hloc, rfl⟩ := exists_of_effectMeaning ha
  obtain ⟨loc', hloc', rfl⟩ := exists_of_effectMeaning hb
  have hsame := fun key => sameAt_of_value h key
  refine ⟨fun key hkey => ?_, alikeLocation_of_meaning hloc hloc' ?_, ?_, ?_⟩
  · have hkeySame := hsame key
    have hne : "direction" ≠ key ∧ "validity" ≠ key ∧ "location" ≠ key := by
      refine ⟨?_, ?_, ?_⟩ <;> (rintro rfl; exact hkey (by decide))
    rwa [SameAt, get_statedEffect, get_statedEffect, if_neg hne.1, if_neg hne.2.1,
      if_neg hne.2.2, if_neg hkey, if_neg hne.1, if_neg hne.2.1, if_neg hne.2.2, if_neg hkey]
      at hkeySame
  · have hlocations := hsame "location"
    rw [SameAt, get_statedEffect, get_statedEffect] at hlocations
    exact Option.some.inj hlocations
  · have hdirections := hsame "direction"
    rw [SameAt, get_statedEffect, get_statedEffect] at hdirections
    simpa [notEffect] using hdirections
  · have hvalidities := hsame "validity"
    rw [SameAt, get_statedEffect, get_statedEffect] at hvalidities
    simpa [notEffect] using hvalidities

/-- The meanings of effects tell the effects. -/
theorem alikeEffects_of_meanings {location location' : Fields} {o' : Option Json}
    {validity validity' : Option Json} {ms ms' : List Json}
    (ha : effectMeanings T o location validity = some ms)
    (hb : effectMeanings T o' location' validity' = some ms')
    (h : ms.map Json.value = ms'.map Json.value) :
    AlikeEffects T location validity location' validity' (listedIn o) (listedIn o') := by
  rw [effectMeanings_eq] at ha hb
  obtain ⟨effects, heffects, ha⟩ := Option.bind_eq_some_iff.mp ha
  obtain ⟨effects', heffects', hb⟩ := Option.bind_eq_some_iff.mp hb
  obtain ⟨rs, hrs, rfl⟩ := Option.map_eq_some_iff.mp ha
  obtain ⟨rs', hrs', rfl⟩ := Option.map_eq_some_iff.mp hb
  have hperm : (rs.map Json.value).Perm (rs'.map Json.value) :=
    ((unordered_perm rs).map Json.value).symm.trans
      ((List.Perm.of_eq h).trans ((unordered_perm rs').map Json.value))
  rw [listedIn, listedIn, heffects, heffects', Option.getD_some, Option.getD_some]
  refine (Rearranged.of_mapM hrs hrs' hperm).imp fun x _ y _ hxy => ?_
  obtain ⟨v, w, hv, hw, hvw⟩ := hxy
  obtain ⟨effect, heffect, hv⟩ := Option.bind_eq_some_iff.mp hv
  obtain ⟨effect', heffect', hw⟩ := Option.bind_eq_some_iff.mp hw
  obtain ⟨m, hm, rfl⟩ := Option.map_eq_some_iff.mp hv
  obtain ⟨m', hm', rfl⟩ := Option.map_eq_some_iff.mp hw
  exact ⟨effect, effect', heffect, heffect', alikeEffect_of_meaning hm hm' hvw⟩

/-- The meaning of a phase tells it. -/
theorem alikePhase_of_meaning {location location' : Fields} {x y : Json} {m m' : Json × ℕ}
    (ha : phaseMeaning T x location = some m) (hb : phaseMeaning T y location' = some m')
    (h : m.1.value = m'.1.value) : ∃ phase phase', fieldsIn x = some phase ∧
      fieldsIn y = some phase' ∧ AlikePhase T location location' phase phase' := by
  rw [phaseMeaning_eq] at ha hb
  obtain ⟨phase, hphase, ha⟩ := Option.bind_eq_some_iff.mp ha
  obtain ⟨phase', hphase', hb⟩ := Option.bind_eq_some_iff.mp hb
  split_ifs at ha hb
  obtain ⟨members, hmembers, rfl⟩ := Option.map_eq_some_iff.mp ha
  obtain ⟨members', hmembers', rfl⟩ := Option.map_eq_some_iff.mp hb
  have hget : ∀ (phase : Fields) (members : List Json) (key : String),
      (statedPhase phase members).get key =
        if "effects" = key then some (.arr members)
        else if key ∈ ["id", "name", "effects"] then none else phase.get key :=
    fun _ _ _ => by rw [statedPhase, Fields.get_put, Fields.get_without]
  have hsame : ∀ key, SameAt (statedPhase phase members) (statedPhase phase' members') key :=
    sameAt_of_value h
  refine ⟨phase, phase', hphase, hphase', fun key hkey => ?_, ?_⟩
  · have hkeySame := hsame key
    have hne : "effects" ≠ key := by
      rintro rfl
      exact hkey (by decide)
    rwa [SameAt, hget, hget, if_neg hne, if_neg hne, if_neg hkey, if_neg hkey] at hkeySame
  · have heffects := hsame "effects"
    rw [SameAt, hget, hget, if_pos rfl, if_pos rfl] at heffects
    have hvalues := JsonValue.arr.inj (Option.some.inj heffects)
    rw [Json.values_eq, Json.values_eq] at hvalues
    exact alikeEffects_of_meanings hmembers hmembers' hvalues

/-! ## What the meaning of a record tells -/

/-- The details of a record with the meanings of its phases, as an object. -/
def statedDetails (T : MeaningText) (details : Fields) (phases : Option (List (Json × ℕ))) :
    Fields :=
  match phases with
  | none => details.without ["phases"]
  | some phases =>
    (details.without ["phases"]).put "phases" (.arr (unordered T (phases.map Prod.fst)))

/-- The details of a meaning are an object where the record's are. -/
theorem detailsMeaning_eq (details : Option Fields) (phases : Option (List (Json × ℕ))) :
    detailsMeaning T details phases =
      details.map fun details => .obj (statedDetails T details phases) := by
  cases phases <;> rfl

/-- A field of the details of a meaning. -/
theorem get_statedDetails (details : Fields) (phases : Option (List (Json × ℕ))) (key : String) :
    (statedDetails T details phases).get key =
      if key = "phases" then phases.map fun phases => .arr (unordered T (phases.map Prod.fst))
      else details.get key := by
  cases phases with
  | none =>
    rw [statedDetails, Fields.get_without]
    simp only [List.mem_singleton, Option.map_none]
  | some phases =>
    rw [statedDetails, Fields.get_put, Fields.get_without]
    by_cases hkey : key = "phases"
    · rw [if_pos hkey.symm, if_pos hkey]
      rfl
    · rw [if_neg (Ne.symm hkey), if_neg hkey, if_neg (by simpa using hkey)]

/-- The phases of a record have meanings one by one. -/
theorem mapM_of_phasesMeaning {details location : Fields} {phases : Option (List (Json × ℕ))}
    (h : phasesMeaning T details location = some phases) :
    (phases = none ∧ itemsAt details "phases" = none) ∨
      ∃ items rs, phases = some rs ∧ itemsAt details "phases" = some items ∧
        items.mapM (fun phase => phaseMeaning T phase location) = some rs := by
  unfold phasesMeaning at h
  unfold itemsAt
  cases hget : details.get "phases" with
  | none =>
    rw [hget] at h
    exact Or.inl ⟨(Option.some.inj h).symm, rfl⟩
  | some value =>
    rw [hget] at h
    dsimp only at h
    cases hitems : value.items with
    | none =>
      rw [hitems] at h
      cases h
    | some items =>
      rw [hitems] at h
      obtain ⟨rs, hrs, rfl⟩ := Option.map_eq_some_iff.mp h
      exact Or.inr ⟨items, rs, rfl, hitems, hrs⟩

/-- The phases of a meaning tell the phases. -/
theorem alikePhases_of_meanings {location location' details details' : Fields}
    {phases phases' : Option (List (Json × ℕ))}
    (ha : phasesMeaning T details location = some phases)
    (hb : phasesMeaning T details' location' = some phases')
    (h : SameAt (statedDetails T details phases) (statedDetails T details' phases') "phases") :
    Option.Rel (Rearranged fun x y => ∃ phase phase', fieldsIn x = some phase ∧
        fieldsIn y = some phase' ∧ AlikePhase T location location' phase phase')
      (itemsAt details "phases") (itemsAt details' "phases") := by
  rw [SameAt, get_statedDetails, get_statedDetails, if_pos rfl, if_pos rfl, Option.map_map,
    Option.map_map] at h
  rcases mapM_of_phasesMeaning ha with ⟨rfl, hnone⟩ | ⟨items, rs, rfl, hitems, hrs⟩ <;>
    rcases mapM_of_phasesMeaning hb with ⟨rfl, hnone'⟩ | ⟨items', rs', rfl, hitems', hrs'⟩
  · rw [hnone, hnone']
    exact .none
  · cases h
  · cases h
  · rw [hitems, hitems']
    have hvalues := JsonValue.arr.inj (Option.some.inj h)
    rw [Json.values_eq, Json.values_eq] at hvalues
    have hperm := ((unordered_perm (T := T) (rs.map Prod.fst)).map Json.value).symm.trans
      ((List.Perm.of_eq hvalues).trans
        ((unordered_perm (T := T) (rs'.map Prod.fst)).map Json.value))
    rw [List.map_map, List.map_map] at hperm
    refine .some ((Rearranged.of_mapM hrs hrs' hperm).imp fun x _ y _ hxy => ?_)
    obtain ⟨m, m', hm, hm', hvalue⟩ := hxy
    exact alikePhase_of_meaning hm hm' hvalue

/-- The details of a meaning tell the record's, with their phases. -/
theorem alikeDetails_of_meaning {location location' : Fields} {d d' : Option Fields}
    {phases phases' : Option (List (Json × ℕ))}
    (ha : phasesMeaning T (d.getD []) location = some phases)
    (hb : phasesMeaning T (d'.getD []) location' = some phases')
    (h : (detailsMeaning T d phases).map Json.value = (detailsMeaning T d' phases').map Json.value) :
    Option.Rel (fun details details' => ∀ key, key ≠ "phases" → SameAt details details' key) d d' ∧
      Option.Rel (Rearranged fun x y => ∃ phase phase', fieldsIn x = some phase ∧
          fieldsIn y = some phase' ∧ AlikePhase T location location' phase phase')
        (itemsAt (d.getD []) "phases") (itemsAt (d'.getD []) "phases") := by
  rw [detailsMeaning_eq, detailsMeaning_eq, Option.map_map, Option.map_map] at h
  rcases map_eq_map_cases h with ⟨rfl, rfl⟩ | ⟨details, details', rfl, rfl, hvalue⟩
  · exact ⟨.none, .none⟩
  · have hsame : ∀ key,
        SameAt (statedDetails T details phases) (statedDetails T details' phases') key :=
      sameAt_of_value hvalue
    refine ⟨.some fun key hkey => ?_, alikePhases_of_meanings ha hb (hsame _)⟩
    have hkeySame := hsame key
    rwa [SameAt, get_statedDetails, get_statedDetails, if_neg hkey, if_neg hkey] at hkeySame

/-- The freshness of a meaning tells the record's, but for when it was looked for. -/
theorem alikeFreshness_of_meaning
    (h : (freshnessMeaning a).map Json.value = (freshnessMeaning b).map Json.value) :
    Option.Rel (fun freshness freshness' => ∀ key,
        key ∉ ["fetchedAt", "sourceCheckedAt"] → SameAt freshness freshness' key)
      (fieldsAt a "freshness") (fieldsAt b "freshness") := by
  rw [freshnessMeaning, freshnessMeaning, Option.map_map, Option.map_map] at h
  rcases map_eq_map_cases h with ⟨ha, hb⟩ | ⟨f, g, ha, hb, hvalue⟩
  · rw [ha, hb]
    exact .none
  · rw [ha, hb]
    refine .some fun key hkey => ?_
    have hkeySame : SameAt (f.without ["fetchedAt", "sourceCheckedAt"])
        (g.without ["fetchedAt", "sourceCheckedAt"]) key := sameAt_of_value hvalue key
    rwa [SameAt, Fields.get_without, Fields.get_without, if_neg hkey, if_neg hkey] at hkeySame

/-- **Records with one key are alike.** -/
theorem alike_of_key_eq {r r' : Situation} {k : String}
    (ha : situationCompatibilityKey T r = some k) (hb : situationCompatibilityKey T r' = some k) :
    AlikeRecord T r.fields r'.fields := by
  rw [situationCompatibilityKey_eq] at ha hb
  obtain ⟨m, hm, rfl⟩ := Option.map_eq_some_iff.mp ha
  obtain ⟨m', hm', hkeys⟩ := Option.map_eq_some_iff.mp hb
  have hvalue := value_eq_of_keyOf_eq hkeys.symm
  obtain ⟨location, loc, effects, phases, hlocation, hloc, heffects, hphases, rfl⟩ :=
    exists_of_recordMeaning hm
  obtain ⟨location', loc', effects', phases', hlocation', hloc', heffects', hphases', rfl⟩ :=
    exists_of_recordMeaning hm'
  have hsame := fun key => sameAt_of_value hvalue key
  have hplace : placeOf r.fields = location := by rw [placeOf, hlocation, Option.getD_some]
  have hplace' : placeOf r'.fields = location' := by rw [placeOf, hlocation', Option.getD_some]
  have hdetails := hsame "details"
  rw [SameAt, get_statedRecord, get_statedRecord] at hdetails
  obtain ⟨hdetails, hphases⟩ := alikeDetails_of_meaning hphases hphases'
    (by simpa [notMeaning] using hdetails)
  refine ⟨fun key hkey => ?_, hplace ▸ hplace' ▸ alikeLocation_of_meaning hloc hloc' ?_,
    hplace ▸ hplace' ▸ alikeEffects_of_meanings heffects heffects' ?_, hdetails,
    hplace ▸ hplace' ▸ hphases, alikeFreshness_of_meaning ?_⟩
  · have hkeySame := hsame key
    have hne : "location" ≠ key ∧ "effects" ≠ key ∧ "details" ≠ key ∧ "freshness" ≠ key := by
      refine ⟨?_, ?_, ?_, ?_⟩ <;> (rintro rfl; exact hkey (by decide))
    rwa [SameAt, get_statedRecord, get_statedRecord, if_neg hne.1, if_neg hne.2.1,
      if_neg hne.2.2.1, if_neg hne.2.2.2, if_neg hkey, if_neg hne.1, if_neg hne.2.1,
      if_neg hne.2.2.1, if_neg hne.2.2.2, if_neg hkey] at hkeySame
  · have hlocations := hsame "location"
    rw [SameAt, get_statedRecord, get_statedRecord] at hlocations
    exact Option.some.inj hlocations
  · have heffectsSame := hsame "effects"
    rw [SameAt, get_statedRecord, get_statedRecord] at heffectsSame
    have hvalues := JsonValue.arr.inj (Option.some.inj heffectsSame)
    rwa [Json.values_eq, Json.values_eq] at hvalues
  · have hfreshness := hsame "freshness"
    rw [SameAt, get_statedRecord, get_statedRecord] at hfreshness
    simpa [notMeaning] using hfreshness

/-! ## Keys and what they tell -/

/-- **Compatibility keys tell the traffic**: where the language tells apart what it compares of a
record, the order of its roads, effects, phases and names does not change its key, and records with
one key are alike. -/
theorem compatibilityKey_spec (T : MeaningText) (hle : Sorting.OrdersBy T.localeLe) :
    (∀ r r' : Situation, (r'.provenance.mergedSources.getD []).length =
        (r.provenance.mergedSources.getD []).length → LikeRecord r.fields r'.fields →
      RecordApart T r.fields → situationCompatibilityKey T r = situationCompatibilityKey T r') ∧
    ∀ (r r' : Situation) (k : String), situationCompatibilityKey T r = some k →
      situationCompatibilityKey T r' = some k →
      AlikeRecord T r.fields r'.fields :=
  ⟨fun _ _ hmerged h hapart => situationCompatibilityKey_congr hle hmerged h hapart,
    fun _ _ _ => alike_of_key_eq⟩

/-! ## Roads that stand alike -/

/-- A letter and the accent after it as one letter. -/
def composedChars : List Char → List Char
  | 'e' :: '\u0301' :: rest => 'é' :: composedChars rest
  | c :: rest => c :: composedChars rest
  | [] => []

/-- A text with the accents that follow a letter on it. -/
def composed (text : String) : String := String.ofList (composedChars text.toList)

/-- Texts in the order of the code units of what is made of them. -/
def foldedText (fold : String → String) : MeaningText where
  nums := Json.plainNumbers
  localeLe a b := decide (Utf16.codeUnits (fold a) ≤ Utf16.codeUnits (fold b))
  roadRef text := String.ofList (text.toList.filter fun c => c != ' ')
  isBlank text := text.toList.all fun c => c == ' '

/-- The order of what is made of texts is a total preorder. -/
theorem orders_foldedText (fold : String → String) :
    Sorting.OrdersBy (foldedText fold).localeLe where
  total a b := by
    rcases le_total (Utf16.codeUnits (fold a)) (Utf16.codeUnits (fold b)) with h | h
    · exact Or.inl (decide_eq_true h)
    · exact Or.inr (decide_eq_true h)
  trans a b c hab hbc := decide_eq_true ((of_decide_eq_true hab).trans (of_decide_eq_true hbc))

/-- Texts that stand as they are are told apart. -/
theorem apart_codeUnits (texts : Set String) : Apart (foldedText id).localeLe texts :=
  fun _ _ _ _ hab hba =>
    Utf16.codeUnits_injective (le_antisymm (of_decide_eq_true hab) (of_decide_eq_true hba))

/-- A closure of a road for some vehicles. -/
def closureFor (vehicles : String) : Json :=
  .obj [("kind", .str "closure"), ("scope", .str "road"),
    ("applicability", .obj [("kind", .str vehicles)]), ("compliance", .str "mandatory"),
    ("normalization", .str "complete")]

/-- A report of closures on some roads. -/
def closureOn (roads effects : List Json) : Situation where
  provenance := ⟨"one", "a", .obj [("provider", .str "one")], none, none⟩
  fields :=
    [("certainty", .str "observed"), ("validity", .obj [("status", .str "active")]),
      ("location", .obj [("geometry", .obj [("type", .str "Point"),
          ("coordinates", .arr [.num (681 / 100), .num (512 / 10)])]),
        ("fuzziness", .str "exact"), ("roads", .arr roads)]),
      ("effects", .arr effects)]

/-- A report of a closure for all on a road of some reference. -/
def closureOfRef (ref : String) : Situation := closureOn [.obj [("ref", .str ref)]] [closureFor "all"]

/-- A report of a closure for all on roads of some names. -/
def closureOfNames (names : List String) : Situation :=
  closureOn (names.map fun name => .obj [("name", .str name)]) [closureFor "all"]

/-- The letters of the key of a record. -/
def keyLetters (T : MeaningText) (record : Situation) : Option (List Char) :=
  (recordMeaning T record).map fun meaning => stringify T.nums (ordered T.localeLe (.obj meaning))

/-- The key of a record is the text of its letters. -/
theorem situationCompatibilityKey_eq_ofList (record : Situation) :
    situationCompatibilityKey T record = (keyLetters T record).map String.ofList := by
  rw [situationCompatibilityKey_eq, keyLetters, Option.map_map]
  rfl

/-- Keys are the same where their letters are. -/
theorem key_eq_iff_keyLetters_eq {r r' : Situation} :
    situationCompatibilityKey T r = situationCompatibilityKey T r' ↔
      keyLetters T r = keyLetters T r' := by
  rw [situationCompatibilityKey_eq_ofList, situationCompatibilityKey_eq_ofList]
  exact (Option.map_injective fun _ _ h => String.ofList_injective h).eq_iff

/-- A blank in the reference of a road does not change the key. -/
theorem key_closureOfRef : situationCompatibilityKey (foldedText id) (closureOfRef "A 46") =
    situationCompatibilityKey (foldedText id) (closureOfRef "A46") :=
  Iff.mpr key_eq_iff_keyLetters_eq (by decide +kernel)

/-- Reports of the same closures are the same but for order. -/
theorem likeRecord_closureOn {roads effects effects' : List Json}
    (h : Rearranged (LikeObject LikeEffect) effects effects') :
    LikeRecord (closureOn roads effects).fields (closureOn roads effects').fields := by
  intro key
  by_cases hkey : key = "effects"
  · subst hkey
    exact .some (Or.inr ⟨effects, effects', rfl, rfl, h⟩)
  · have hget : Fields.get (closureOn roads effects').fields key =
        Fields.get (closureOn roads effects).fields key := by
      simp only [closureOn, Fields.get_cons, if_neg (Ne.symm hkey)]
    rw [hget]
    cases Fields.get (closureOn roads effects).fields key with
    | none => exact .none
    | some v =>
      refine .some ?_
      dsimp only
      split_ifs
      · exact Or.inl rfl
      · exact Or.inl rfl
      · rfl

/-- Closures of a road, in two orders and of two references. -/
theorem compatibilityKey_spec_closures :
    situationCompatibilityKey (foldedText id) (closureOn [] [closureFor "all", closureFor "class"]) =
      situationCompatibilityKey (foldedText id)
        (closureOn [] [closureFor "class", closureFor "all"]) ∧
    AlikeRecord (foldedText id) (closureOfRef "A 46").fields (closureOfRef "A46").fields := by
  obtain ⟨horder, htold⟩ := compatibilityKey_spec (foldedText id) (orders_foldedText id)
  have hsome : (situationCompatibilityKey (foldedText id) (closureOfRef "A46")).isSome = true := by
    decide +kernel
  obtain ⟨k, hk⟩ := Option.isSome_iff_exists.mp hsome
  have hswap : Rearranged (LikeObject LikeEffect) [closureFor "all", closureFor "class"]
      [closureFor "class", closureFor "all"] :=
    ⟨_, List.Perm.swap _ _ [], .cons (Or.inl rfl) (.cons (Or.inl rfl) .nil)⟩
  refine ⟨horder _ _ (Eq.refl 0) (likeRecord_closureOn hswap) ?_,
    htold _ _ k (key_closureOfRef.trans hk) hk⟩
  exact ⟨apart_codeUnits _, apart_codeUnits _, ⟨apart_codeUnits _, fun _ _ => apart_codeUnits _⟩,
      fun _ _ => ⟨apart_codeUnits _, fun _ _ => apart_codeUnits _⟩, apart_codeUnits _⟩

/-- **A key does not tell a road's blanks**, and of two names of roads that stand alike in a language
the order changes the key. -/
theorem roads_blurred :
    (situationCompatibilityKey (foldedText id) (closureOfRef "A 46") =
        situationCompatibilityKey (foldedText id) (closureOfRef "A46") ∧
      (situationCompatibilityKey (foldedText id) (closureOfRef "A 46")).isSome = true) ∧
    situationCompatibilityKey (foldedText composed)
        (closureOfNames ["All\u00e9e", "Alle\u0301e"]) ≠
      situationCompatibilityKey (foldedText composed)
        (closureOfNames ["Alle\u0301e", "All\u00e9e"]) := by
  refine ⟨⟨key_closureOfRef, by decide +kernel⟩, fun h => ?_⟩
  exact absurd (Iff.mp key_eq_iff_keyLetters_eq h) (by decide +kernel)

end OpenConditions.Core

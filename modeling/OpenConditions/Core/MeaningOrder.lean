import OpenConditions.Core.MeaningParts
import Mathlib.Data.List.Dedup

set_option relaxedAutoImplicit false
set_option autoImplicit false

/-!
# Order and traffic meaning

The compatibility key of a record (`situationCompatibilityKey` of
`packages/core/src/situation-compatibility.ts`) does not depend on the order of its roads, effects
and phases or of the names of its objects, where the language tells apart what it compares.

## Main definitions

* `LikeLocation`, `LikeEffect`, `LikePhase`, `LikeRecord` — the same but for order.

## Main results

* `locationMeaning_congr`, `effectMeanings_congr`, `phasesMeaning_congr` — meanings of what is the
  same but for order say the same.
* `situationCompatibilityKey_congr` — records that are the same but for order have one key.
-/

namespace OpenConditions.Core

variable {T : MeaningText} {names : Set String}

/-! ## The same but for order -/

/-- Objects have the same fields, with related values. -/
def LikeFields (R : String → Json → Json → Prop) (a b : Fields) : Prop :=
  ∀ key, Option.Rel (R key) (a.get key) (b.get key)

/-- Values say the same. -/
def SameValue (v v' : Json) : Prop := v.value = v'.value

/-- Values are objects that are related, or say the same. -/
def LikeObject (R : Fields → Fields → Prop) (v v' : Json) : Prop :=
  SameValue v v' ∨ ∃ fields fields', v = .obj fields ∧ v' = .obj fields' ∧ R fields fields'

/-- Values are arrays of related items in some order, or say the same. -/
def LikeArray (R : Json → Json → Prop) (v v' : Json) : Prop :=
  SameValue v v' ∨ ∃ items items', v = .arr items ∧ v' = .arr items' ∧ Rearranged R items items'

/-- Objects say the same but for one field, of which the values are related. -/
def LikeBut (field : String) (R : Json → Json → Prop) : Fields → Fields → Prop :=
  LikeFields fun key => if key = field then R else SameValue

/-- Locations are the same but for the order of their roads. -/
def LikeLocation : Fields → Fields → Prop := LikeBut "roads" (LikeArray SameValue)

/-- Effects are the same but for order. -/
def LikeEffect : Fields → Fields → Prop := LikeBut "location" (LikeObject LikeLocation)

/-- Phases are the same but for order. -/
def LikePhase : Fields → Fields → Prop :=
  LikeBut "effects" (LikeArray (LikeObject LikeEffect))

/-- Details are the same but for order. -/
def LikeDetails : Fields → Fields → Prop :=
  LikeBut "phases" (LikeArray (LikeObject LikePhase))

/-- Records are the same but for order. -/
def LikeRecord : Fields → Fields → Prop :=
  LikeFields fun key =>
    if key = "location" then LikeObject LikeLocation
    else if key = "effects" then LikeArray (LikeObject LikeEffect)
    else if key = "details" then LikeObject LikeDetails else SameValue

variable {a b : Fields} {key field : String} {o o' : Option Json}

/-- Optional values that both say the same. -/
theorem rel_sameValue_iff :
    Option.Rel SameValue o o' ↔ o.map Json.value = o'.map Json.value := by
  constructor
  · intro h
    cases h with
    | some h => exact congrArg some h
    | none => rfl
  · intro h
    cases o with
    | none =>
      rw [Option.map_eq_none_iff.mp h.symm]
      exact .none
    | some v =>
      obtain ⟨w, rfl, hvalue⟩ := Option.map_eq_some_iff.mp h.symm
      exact .some hvalue.symm

/-- Another field than the one says the same. -/
theorem LikeBut.sameAt {R : Json → Json → Prop} (h : LikeBut field R a b) (hkey : key ≠ field) :
    SameAt a b key := by
  have hrel := h key
  dsimp only at hrel
  rw [if_neg hkey] at hrel
  exact Iff.mp rel_sameValue_iff hrel

/-- The values of the one field are related. -/
theorem LikeBut.get {R : Json → Json → Prop} (h : LikeBut field R a b) :
    Option.Rel R (a.get field) (b.get field) := by
  have hrel := h field
  dsimp only at hrel
  rwa [if_pos rfl] at hrel

/-- Objects that say the same are the same but for what else is related. -/
theorem LikeBut.of_value {R : Json → Json → Prop} (hR : ∀ v v', SameValue v v' → R v v')
    (h : a.value = b.value) : LikeBut field R a b := by
  intro key
  have hrel := Iff.mpr rel_sameValue_iff (Fields.get_of_value h key)
  dsimp only
  split_ifs
  · generalize a.get key = o, b.get key = o' at hrel ⊢
    cases hrel with
    | some h => exact .some (hR _ _ h)
    | none => exact .none
  · exact hrel

/-! ## What values say -/

/-- A text of an optional object is what the object says. -/
theorem bind_textAt_congr {f f' : Option Fields} (h : f.map Fields.value = f'.map Fields.value)
    (key : String) : (f.bind fun fields => textAt fields key) =
      f'.bind fun fields => textAt fields key := by
  rcases map_eq_map_cases h with ⟨rfl, rfl⟩ | ⟨fields, fields', rfl, rfl, hvalue⟩
  · rfl
  · exact (sameAt_of_value hvalue key).textAt

/-- A validity is known by what it says. -/
theorem knownValidity_congr (h : o.map Json.value = o'.map Json.value) :
    knownValidity o = knownValidity o' := by
  rcases map_eq_map_cases h with ⟨rfl, rfl⟩ | ⟨v, w, rfl, rfl, hvalue⟩
  · rfl
  · unfold knownValidity
    rw [Option.bind_some, Option.bind_some, bind_textAt_congr (fieldsIn_congr hvalue)]

/-- A number is what its value says. -/
theorem bind_number_congr (h : o.map Json.value = o'.map Json.value) :
    o.bind Json.number = o'.bind Json.number := by
  rcases map_eq_map_cases h with ⟨rfl, rfl⟩ | ⟨v, w, rfl, rfl, hvalue⟩
  · rfl
  · exact number_congr hvalue

/-- A safe integer is one by what it says. -/
theorem isSafeInteger_congr (h : o.map Json.value = o'.map Json.value) :
    isSafeInteger o = isSafeInteger o' := by
  rw [isSafeInteger, isSafeInteger, bind_number_congr h]

/-- The objects of optional values that are related. -/
theorem LikeObject.fields {R : Fields → Fields → Prop} (hR : ∀ a b, a.value = b.value → R a b)
    (h : Option.Rel (LikeObject R) o o') : Option.Rel R (o.bind fieldsIn) (o'.bind fieldsIn) := by
  cases h with
  | none => exact .none
  | @some v v' h =>
    rcases h with hvalue | ⟨fields, fields', rfl, rfl, hfields⟩
    · cases v <;> cases v' <;> try cases hvalue
      all_goals first | exact .none | exact .some (hR _ _ hvalue)
    · exact .some hfields

/-- The items of optional values that are related. -/
theorem LikeArray.items {R : Json → Json → Prop} (hR : ∀ v v', SameValue v v' → R v v')
    (h : Option.Rel (LikeArray R) o o') :
    Option.Rel (Rearranged R) (o.bind Json.items) (o'.bind Json.items) := by
  cases h with
  | none => exact .none
  | @some v v' h =>
    rcases h with hvalue | ⟨items, items', rfl, rfl, hitems⟩
    · rw [Option.bind_some, Option.bind_some]
      rcases map_eq_map_cases (items_congr hvalue) with ⟨hv, hv'⟩ | ⟨items, items', hv, hv', hmap⟩
      · rw [hv, hv']
        exact .none
      · rw [hv, hv']
        exact .some ((Rearranged.of_map (List.Perm.of_eq hmap)).imp fun x _ y _ => hR x y)
    · exact .some hitems

/-! ## Locations -/

/-- The reference of a road, where it is a text. -/
def referenceOf (road : Json) : Option String := (road.field "ref").bind Json.string

/-- Roads that say the same have one reference. -/
theorem referenceOf_congr {v v' : Json} (h : v.value = v'.value) :
    referenceOf v = referenceOf v' := by
  cases v <;> cases v' <;> try cases h
  all_goals first | rfl | exact (sameAt_of_value h "ref").textAt

/-- Locations that are the same but for order have as many references. -/
theorem referencesOf_length (h : LikeLocation a b) :
    (referencesOf T a).length = (referencesOf T b).length := by
  have hlinear := bind_textAt_congr (h.sameAt (by decide : "linear" ≠ "roads")).fieldsAt "ref"
  have hroads : ((itemsIn a "roads").filterMap referenceOf).Perm
      ((itemsIn b "roads").filterMap referenceOf) := by
    have hrel : Option.Rel _ (itemsAt a "roads") (itemsAt b "roads") :=
      LikeArray.items (fun _ _ => id) h.get
    unfold itemsIn
    generalize itemsAt a "roads" = o, itemsAt b "roads" = o' at hrel ⊢
    cases hrel with
    | none => exact List.Perm.refl _
    | some hitems =>
      have hperm := hitems.map_perm fun x _ y _ => @referenceOf_congr x y
      have hfilter := hperm.filterMap id
      rwa [List.filterMap_map, List.filterMap_map] at hfilter
  unfold referencesOf
  dsimp only
  rw [hlinear]
  exact (((hroads.filter _).map _).append_right _).dedup.length_eq

/-- A direction is known by what it says, on locations that are the same but for order. -/
theorem knownDirection_congr (h : LikeLocation a b) (ho : o.map Json.value = o'.map Json.value) :
    knownDirection T o a = knownDirection T o' b := by
  rcases map_eq_map_cases ho with ⟨rfl, rfl⟩ | ⟨v, w, rfl, rfl, hvalue⟩
  · rfl
  · have hdirection : ((fieldsIn v).getD []).value = ((fieldsIn w).getD []).value := by
      rcases map_eq_map_cases (fieldsIn_congr hvalue) with ⟨hv, hw⟩ | ⟨f, g, hv, hw, hfg⟩
      · rw [hv, hw]
      · rwa [hv, hw]
    have htmc := (h.sameAt (by decide : "tmc" ≠ "roads")).getD
    unfold knownDirection
    dsimp only
    rw [(sameAt_of_value hdirection "value").textAt, (sameAt_of_value hdirection "basis").textAt,
      referencesOf_length h, (h.sameAt (by decide : "openlr" ≠ "roads")).textAt,
      (sameAt_of_value htmc "country").textAt, (sameAt_of_value htmc "version").textAt,
      isSafeInteger_congr (sameAt_of_value htmc "table"),
      isSafeInteger_congr (sameAt_of_value htmc "code"),
      bind_number_congr (sameAt_of_value htmc "code")]

/-- Objects with one field set say the same, if the others do. -/
theorem value_put_congr {v v' : Json}
    (h : ∀ k, k ≠ key → SameAt a b k) (hv : v.value = v'.value) : (a.put key v).value = (b.put key v').value := by
  refine Fields.value_ext fun k => ?_
  rw [Fields.get_put, Fields.get_put]
  split_ifs with hk
  · exact congrArg some hv
  · exact h k (Ne.symm hk)

/-- The meaning of a road by what it says. -/
theorem roadMeaning_congr {v v' : Json} (h : v.value = v'.value) :
    (roadMeaning T v).value = (roadMeaning T v').value := by
  unfold roadMeaning
  rcases map_eq_map_cases (fieldsIn_congr h) with ⟨hv, hv'⟩ | ⟨f, g, hv, hv', hfg⟩
  · rw [hv, hv']
  · rw [hv, hv']
    dsimp only
    rw [(sameAt_of_value hfg "ref").textAt]
    cases textAt g "ref" with
    | none => exact hfg
    | some ref => exact value_put_congr (fun k _ => sameAt_of_value hfg k) rfl

/-- Roads in another order are compared alike. -/
theorem roadsMeaning_congr (hle : Sorting.OrdersBy T.localeLe) (hapart : Apart T.localeLe names)
    (h : LikeLocation a b) (ha : Within names (.obj a)) (hb : Within names (.obj b))
    (hkeys : Apart T.localeLe {key | key ∈ keysOfRoads T a}) :
    (roadsMeaning T a).value = (roadsMeaning T b).value := by
  have hget := h.get
  have hrel : Option.Rel _ (itemsAt a "roads") (itemsAt b "roads") :=
    LikeArray.items (fun _ _ => id) hget
  unfold roadsMeaning
  cases hroads : itemsAt a "roads" with
  | none =>
    rw [hroads] at hrel
    have hroads' : itemsAt b "roads" = none := by
      generalize itemsAt b "roads" = o at hrel
      cases hrel
      rfl
    rw [hroads']
    refine Fields.value_ext fun k => ?_
    by_cases hk : k = "roads"
    · subst hk
      -- Neither is an array, so they say the same.
      refine Iff.mp rel_sameValue_iff ?_
      generalize hv : a.get "roads" = o, b.get "roads" = o' at hget
      cases hget with
      | none => exact .none
      | some h =>
        rcases h with hvalue | ⟨items, items', rfl, -, -⟩
        · exact .some hvalue
        · rw [Core.itemsAt, hv] at hroads
          cases hroads
    · exact h.sameAt hk
  | some roads =>
    rw [hroads] at hrel
    obtain ⟨roads', hroads', hitems⟩ : ∃ roads', itemsAt b "roads" = some roads' ∧
        Rearranged SameValue roads roads' := by
      generalize itemsAt b "roads" = o at hrel
      cases hrel with
      | some hitems => exact ⟨_, rfl, hitems⟩
    rw [hroads']
    refine value_put_congr (fun k hk => h.sameAt hk) (congrArg JsonValue.arr ?_)
    have hin : ∀ {c : Fields} {rs : List Json}, Within names (.obj c) →
        itemsAt c "roads" = some rs → ∀ v ∈ rs.map (roadMeaning T), Within names v := by
      intro c rs hc hrs v hv
      obtain ⟨r, hr, rfl⟩ := List.mem_map.mp hv
      exact within_roadMeaning (within_arr_iff.mp (hc.get _ _ (get_of_itemsAt hrs)).2 r hr)
    rw [Json.values_eq, Json.values_eq]
    refine unordered_congr hle hapart (hin ha hroads) (hin hb hroads') ?_ ?_
    · rw [keysOfRoads, itemsIn, hroads] at hkeys
      rwa [List.map_map]
    · rw [List.map_map, List.map_map]
      exact hitems.map_perm fun v _ w _ => roadMeaning_congr

/-- The items of a field are what it says. -/
theorem map_itemsIn_congr (h : SameAt a b key) :
    (itemsIn a key).map Json.value = (itemsIn b key).map Json.value := by
  unfold itemsIn
  rcases map_eq_map_cases h.itemsAt with ⟨ha, hb⟩ | ⟨xs, ys, ha, hb, hxs⟩
  · rw [ha, hb]
  · rwa [ha, hb]

/-- A geometry is compared by what it says. -/
theorem placeMeaning_congr {geometry geometry' : Fields} (h : geometry.value = geometry'.value)
    (nearby : Bool) : (placeMeaning geometry nearby).value =
      (placeMeaning geometry' nearby).value := by
  unfold placeMeaning
  rw [(sameAt_of_value h "type").textAt]
  split_ifs
  · refine value_put_congr (fun k _ => sameAt_of_value h k) (congrArg JsonValue.arr ?_)
    rw [Json.values_eq, Json.values_eq, List.map_drop, List.map_drop,
      map_itemsIn_congr (sameAt_of_value h "coordinates")]
  · exact h

/-- **Locations that are the same but for order have one meaning.** -/
theorem locationMeaning_congr (hle : Sorting.OrdersBy T.localeLe) (hapart : Apart T.localeLe names)
    (h : LikeLocation a b) (ha : Within names (.obj a)) (hb : Within names (.obj b))
    (hkeys : Apart T.localeLe {key | key ∈ keysOfRoads T a}) (nearby : Bool) :
    (locationMeaning T a nearby).map Fields.value =
      (locationMeaning T b nearby).map Fields.value := by
  rw [locationMeaning_eq, locationMeaning_eq,
    (h.sameAt (by decide : "fuzziness" ≠ "roads")).textAt,
    knownDirection_congr h (h.sameAt (by decide : "direction" ≠ "roads"))]
  rcases map_eq_map_cases (h.sameAt (by decide : "geometry" ≠ "roads")).fieldsAt with
    ⟨ha', hb'⟩ | ⟨geometry, geometry', ha', hb', hvalue⟩
  · rw [ha', hb']
    rfl
  · rw [ha', hb', Option.bind_some, Option.bind_some]
    split_ifs
    · rfl
    · exact congrArg some (value_put_congr
        (fun k _ => sameAt_of_value (roadsMeaning_congr hle hapart h ha hb hkeys) k)
        (placeMeaning_congr hvalue nearby))

/-! ## Effects -/

/-- The value that counts of two, by what they say. -/
theorem orElse_congr {p p' : Option Json} (h : o.map Json.value = o'.map Json.value)
    (hp : p.map Json.value = p'.map Json.value) :
    (orElse o p).map Json.value = (orElse o' p').map Json.value := by
  rcases map_eq_map_cases h with ⟨rfl, rfl⟩ | ⟨v, w, rfl, rfl, hvalue⟩
  · exact hp
  · cases v <;> cases w <;> first | exact hp | exact congrArg some hvalue | cases hvalue

/-- Whether an effect is read does not depend on order. -/
theorem isRefused_congr (h : LikeEffect a b) : isRefused a = isRefused b := by
  have happlicability := (h.sameAt (by decide : "applicability" ≠ "location")).fieldsAt
  have hnone : (fieldsAt a "applicability").isNone = (fieldsAt b "applicability").isNone := by
    rcases map_eq_map_cases happlicability with ⟨ha, hb⟩ | ⟨f, g, ha, hb, -⟩
    · rw [ha, hb]
    · rw [ha, hb]
      rfl
  have hissues : (itemsIn a "issues").isEmpty = (itemsIn b "issues").isEmpty := by
    have hlength := congrArg List.length
      (map_itemsIn_congr (h.sameAt (by decide : "issues" ≠ "location")))
    rw [List.length_map, List.length_map] at hlength
    rw [Bool.eq_iff_iff, List.isEmpty_iff_length_eq_zero, List.isEmpty_iff_length_eq_zero, hlength]
  unfold isRefused
  rw [(h.sameAt (by decide : "normalization" ≠ "location")).textAt,
    (h.sameAt (by decide : "kind" ≠ "location")).textAt, hnone,
    bind_textAt_congr happlicability, (h.sameAt (by decide : "compliance" ≠ "location")).textAt,
    hissues]

/-- The fields of two optional values, of which the first counts. -/
theorem rel_or {R : Json → Json → Prop} {p p' : Option Json} (h : Option.Rel R o o')
    (hp : Option.Rel R p p') : Option.Rel R (o.or p) (o'.or p') := by
  cases h with
  | some h => exact .some h
  | none => exact hp

/-- The locations of effects that are the same but for order are. -/
theorem effectiveLocation_congr {l l' : Fields} (h : LikeEffect a b) (hl : LikeLocation l l') :
    LikeLocation (effectiveLocation a l) (effectiveLocation b l') := by
  have hown : LikeLocation ((fieldsAt a "location").getD []) ((fieldsAt b "location").getD []) := by
    have hrel : Option.Rel _ (fieldsAt a "location") (fieldsAt b "location") :=
      LikeObject.fields (fun _ _ => LikeBut.of_value fun _ _ => Or.inl) h.get
    generalize fieldsAt a "location" = f, fieldsAt b "location" = g at hrel
    cases hrel with
    | some h => exact h
    | none => exact fun _ => .none
  intro key
  rw [effectiveLocation, effectiveLocation, Fields.get_spread, Fields.get_spread]
  exact rel_or (hown key) (hl key)

/-- Whether an effect has a geometry does not depend on order. -/
theorem inheritsPlace_congr (h : LikeEffect a b) : inheritsPlace a = inheritsPlace b := by
  have hrel : Option.Rel _ (fieldsAt a "location") (fieldsAt b "location") :=
    LikeObject.fields (fun _ _ => LikeBut.of_value fun _ _ => Or.inl) h.get
  unfold inheritsPlace
  generalize fieldsAt a "location" = f, fieldsAt b "location" = g at hrel
  cases hrel with
  | none => rfl
  | @some f g h =>
    have hgeometry := h.sameAt (by decide : "geometry" ≠ "roads")
    rcases map_eq_map_cases hgeometry with ⟨hf, hg⟩ | ⟨v, w, hf, hg, -⟩
    · rw [Option.bind_some, Option.bind_some, hf, hg]
    · rw [Option.bind_some, Option.bind_some, hf, hg]
      rfl

/-- Effects with meanings of their locations that say the same do so. -/
theorem statedEffect_congr {effect effect' loc loc' : Fields} {p p' : Option Json}
    (h : ∀ key, key ∉ notEffect → SameAt effect effect' key) (hloc : loc.value = loc'.value)
    (ho : o.map Json.value = o'.map Json.value) (hp : p.map Json.value = p'.map Json.value) :
    (statedEffect effect loc o p).value = (statedEffect effect' loc' o' p').value := by
  refine Fields.value_ext fun key => ?_
  rw [get_statedEffect, get_statedEffect]
  refine Iff.mp rel_sameValue_iff (rel_or (rel_or ?_ ?_) ?_)
  · split_ifs
    · exact Iff.mpr rel_sameValue_iff ho
    · exact .none
  · split_ifs
    · exact Iff.mpr rel_sameValue_iff hp
    · exact .none
  · split_ifs with hlocation hkey
    · exact .some hloc
    · exact .none
    · exact Iff.mpr rel_sameValue_iff (h key hkey)

/-- **Effects that are the same but for order have one meaning**, on such locations and with one
validity. -/
theorem effectMeaning_congr {l l' : Fields} (hle : Sorting.OrdersBy T.localeLe)
    (hapart : Apart T.localeLe names) (h : LikeEffect a b) (hl : LikeLocation l l')
    (ho : o.map Json.value = o'.map Json.value)
    (ha : Within names (.obj (effectiveLocation a l)))
    (hb : Within names (.obj (effectiveLocation b l')))
    (hkeys : Apart T.localeLe {key | key ∈ keysOfRoads T (effectiveLocation a l)}) :
    (effectMeaning T a l o).map Fields.value = (effectMeaning T b l' o').map Fields.value := by
  have hlocation := effectiveLocation_congr h hl
  have hdirection : (effectDirection a l).map Json.value =
      (effectDirection b l').map Json.value :=
    orElse_congr (h.sameAt (by decide)) (hlocation.sameAt (by decide))
  have hvalidity : (effectValidity a o).map Json.value = (effectValidity b o').map Json.value :=
    orElse_congr (h.sameAt (by decide)) ho
  rw [effectMeaning_eq, effectMeaning_eq, isRefused_congr h, knownDirection_congr hlocation hdirection,
    knownValidity_congr hvalidity, inheritsPlace_congr h]
  rcases map_eq_map_cases (locationMeaning_congr hle hapart hlocation ha hb hkeys
    (inheritsPlace b)) with ⟨hm, hm'⟩ | ⟨loc, loc', hm, hm', hloc⟩
  · rw [hm, hm', Option.bind_none, Option.bind_none]
  · rw [hm, hm', Option.bind_some, Option.bind_some]
    split_ifs
    · rfl
    · rfl
    · refine congrArg some (statedEffect_congr (fun key hkey => h.sameAt ?_) hloc hdirection
        hvalidity)
      rintro rfl
      exact hkey (by decide)

/-! ## Lists of effects -/

/-- Effects that are the same but for order have one meaning as they are listed. -/
theorem effectOf_congr {l l' : Fields} {v v' : Option Json} {x y : Json}
    (hle : Sorting.OrdersBy T.localeLe) (hapart : Apart T.localeLe names)
    (h : LikeObject LikeEffect x y) (hl : LikeLocation l l')
    (hv : v.map Json.value = v'.map Json.value) (hx : Within names x) (hy : Within names y)
    (hwithin : Within names (.obj l)) (hwithin' : Within names (.obj l'))
    (hkeys : Apart T.localeLe
      {key | key ∈ keysOfRoads T (effectiveLocation ((fieldsIn x).getD []) l)}) :
    (effectOf T l v x).map Json.value = (effectOf T l' v' y).map Json.value := by
  have hfields : Option.Rel LikeEffect (fieldsIn x) (fieldsIn y) :=
    LikeObject.fields (fun _ _ => LikeBut.of_value fun _ _ => Or.inl) (.some h)
  unfold effectOf
  cases hx' : fieldsIn x with
  | none =>
    rw [hx'] at hfields
    generalize fieldsIn y = g at hfields
    cases hfields
    rfl
  | some f =>
    rw [hx'] at hfields
    cases hy' : fieldsIn y with
    | none =>
      rw [hy'] at hfields
      cases hfields
    | some g =>
      rw [hy'] at hfields
      cases hfields with
      | some hfg =>
        rw [hx', Option.getD_some] at hkeys
        rw [Option.bind_some, Option.bind_some, Option.map_map, Option.map_map]
        exact effectMeaning_congr hle hapart hfg hl hv
          (within_effectiveLocation (within_fieldsIn hx hx') hwithin)
          (within_effectiveLocation (within_fieldsIn hy hy') hwithin') hkeys

/-- **Effects in another order have the same meanings.** -/
theorem effectMeanings_congr {l l' : Fields} {v v' : Option Json}
    (hle : Sorting.OrdersBy T.localeLe) (hapart : Apart T.localeLe names)
    (h : Option.Rel (LikeArray (LikeObject LikeEffect)) o o') (hl : LikeLocation l l')
    (hv : v.map Json.value = v'.map Json.value) (ho : WithinAt names "effects" o)
    (ho' : WithinAt names "effects" o') (hwithin : Within names (.obj l))
    (hwithin' : Within names (.obj l')) (hvalidity : WithinAt names "validity" v)
    (hvalidity' : WithinAt names "validity" v') (hkey : "location" ∈ names)
    (hcoordinates : "coordinates" ∈ names) (hkeys : EffectsApart T o l v) :
    (effectMeanings T o l v).map (List.map Json.value) =
      (effectMeanings T o' l' v').map (List.map Json.value) := by
  have hrel := LikeArray.items (fun _ _ => Or.inl) h
  have hin := within_listedIn ho
  have hin' := within_listedIn ho'
  rw [effectMeanings_eq, effectMeanings_eq]
  unfold EffectsApart keysOfEffects listedIn at hkeys
  unfold listedIn at hin hin'
  generalize o.bind Json.items = xs, o'.bind Json.items = ys at hrel hkeys hin hin' ⊢
  cases hrel with
  | none => rfl
  | @some xs ys hitems =>
    rw [Option.getD_some] at hin hin' hkeys
    rw [Option.bind_some, Option.bind_some]
    obtain ⟨hsort, hroads⟩ := hkeys
    rcases hitems.mapM fun x hx y hy hxy => effectOf_congr hle hapart hxy hl hv (hin x hx)
        (hin' y hy) hwithin hwithin' (hroads x hx) with ⟨hm, hm'⟩ | ⟨ms, ms', hm, hm', hperm⟩
    · rw [hm, hm', Option.map_none, Option.map_none]
    · rw [hm, hm']
      refine congrArg some (unordered_congr hle hapart
        (within_mapM_effectOf hin hwithin hvalidity hkey hcoordinates hm)
        (within_mapM_effectOf hin' hwithin' hvalidity' hkey hcoordinates hm') ?_ hperm)
      rwa [← Rearranged.filterMap_eq_of_mapM hm]

/-! ## Phases -/

/-- Phases with meanings of their effects that say the same do so. -/
theorem statedPhase_congr {members members' : List Json}
    (h : ∀ key, key ∉ ["id", "name", "effects"] → SameAt a b key)
    (hmembers : members.map Json.value = members'.map Json.value) :
    (statedPhase a members).value = (statedPhase b members').value := by
  refine value_put_congr (fun key _ => ?_) (congrArg JsonValue.arr ?_)
  · unfold SameAt
    rw [Fields.get_without, Fields.get_without]
    split_ifs with hkey
    · rfl
    · exact h key hkey
  · rwa [Json.values_eq, Json.values_eq]

/-- **Phases that are the same but for order have one meaning**, with as many effects. -/
theorem phaseMeaning_congr {l l' : Fields} {x y : Json} (hle : Sorting.OrdersBy T.localeLe)
    (hapart : Apart T.localeLe names) (h : LikeObject LikePhase x y) (hl : LikeLocation l l')
    (hx : Within names x) (hy : Within names y) (hwithin : Within names (.obj l))
    (hwithin' : Within names (.obj l')) (hkey : "location" ∈ names)
    (hcoordinates : "coordinates" ∈ names) (hkeys : PhaseApart T l x) :
    (phaseMeaning T x l).map (fun r => (r.1.value, r.2)) =
      (phaseMeaning T y l').map fun r => (r.1.value, r.2) := by
  have hfields : Option.Rel LikePhase (fieldsIn x) (fieldsIn y) :=
    LikeObject.fields (fun _ _ => LikeBut.of_value fun _ _ => Or.inl) (.some h)
  unfold PhaseApart at hkeys
  rw [phaseMeaning_eq, phaseMeaning_eq]
  cases hx' : fieldsIn x with
  | none =>
    rw [hx'] at hfields
    generalize fieldsIn y = g at hfields
    cases hfields
    rfl
  | some f =>
    rw [hx', Option.getD_some] at hkeys
    cases hy' : fieldsIn y with
    | none =>
      rw [hx', hy'] at hfields
      cases hfields
    | some g =>
      rw [hx', hy'] at hfields
      cases hfields with
      | some hfg =>
        have hf := within_fieldsIn hx hx'
        have hg := within_fieldsIn hy hy'
        have hvalidity := hfg.sameAt (by decide : "validity" ≠ "effects")
        rw [Option.bind_some, Option.bind_some, knownValidity_congr hvalidity]
        have hmembers := effectMeanings_congr hle hapart hfg.get hl hvalidity
          (hf.get "effects") (hg.get "effects") hwithin hwithin' (hf.get "validity")
          (hg.get "validity") hkey hcoordinates hkeys
        split_ifs
        · rfl
        · rcases map_eq_map_cases hmembers with ⟨hm, hm'⟩ | ⟨ms, ms', hm, hm', hmap⟩
          · rw [hm, hm']
            rfl
          · rw [hm, hm']
            have hlength := congrArg List.length hmap
            rw [List.length_map, List.length_map] at hlength
            refine congrArg some (Prod.ext (statedPhase_congr (fun key hkey => hfg.sameAt ?_) hmap)
              hlength)
            rintro rfl
            exact hkey (by decide)

/-- Details that are the same but for order, absent ones taken as empty, are. -/
theorem LikeRecord.details (h : LikeRecord a b) :
    Option.Rel LikeDetails (fieldsAt a "details") (fieldsAt b "details") :=
  LikeObject.fields (fun _ _ => LikeBut.of_value fun _ _ => Or.inl) (h "details")

/-- The locations of records that are the same but for order are. -/
theorem LikeRecord.location (h : LikeRecord a b) :
    Option.Rel LikeLocation (fieldsAt a "location") (fieldsAt b "location") :=
  LikeObject.fields (fun _ _ => LikeBut.of_value fun _ _ => Or.inl) (h "location")

/-- The other fields of records that are the same but for order say the same. -/
theorem LikeRecord.sameAt (h : LikeRecord a b) (hlocation : key ≠ "location")
    (heffects : key ≠ "effects") (hdetails : key ≠ "details") : SameAt a b key := by
  have hrel := h key
  dsimp only at hrel
  rw [if_neg hlocation, if_neg heffects, if_neg hdetails] at hrel
  exact Iff.mp rel_sameValue_iff hrel

/-- **Phases in another order have the same meanings**, of as many effects. -/
theorem phasesMeaning_congr {l l' : Fields} (hle : Sorting.OrdersBy T.localeLe)
    (hapart : Apart T.localeLe names) (h : LikeDetails a b) (hl : LikeLocation l l')
    (ha : Within names (.obj a)) (hb : Within names (.obj b)) (hwithin : Within names (.obj l))
    (hwithin' : Within names (.obj l')) (hkey : "location" ∈ names)
    (hcoordinates : "coordinates" ∈ names)
    (hkeys : ∀ phase ∈ listedIn (a.get "phases"), PhaseApart T l phase) :
    phasesMeaning T a l = phasesMeaning T b l' ∨
      ∃ items items' ms ms', a.get "phases" = some (.arr items) ∧
        b.get "phases" = some (.arr items') ∧
        items.mapM (fun phase => phaseMeaning T phase l) = some ms ∧
        items'.mapM (fun phase => phaseMeaning T phase l') = some ms' ∧
        phasesMeaning T a l = some (some ms) ∧ phasesMeaning T b l' = some (some ms') ∧
        (ms.map fun r => (r.1.value, r.2)).Perm (ms'.map fun r => (r.1.value, r.2)) := by
  have hrel := h.get
  have hin := within_listedIn (ha.get "phases")
  have hin' := within_listedIn (hb.get "phases")
  have hitems := LikeArray.items (fun _ _ => Or.inl) hrel
  unfold phasesMeaning
  unfold listedIn at hin hin' hkeys
  generalize a.get "phases" = o, b.get "phases" = o' at hrel hitems hin hin' hkeys ⊢
  cases hrel with
  | none => exact Or.inl rfl
  | @some v w hvw =>
    rw [Option.bind_some, Option.bind_some] at hitems
    rw [Option.bind_some] at hin hin' hkeys
    dsimp only
    cases hv : v.items with
    | none =>
      rw [hv] at hitems
      generalize w.items = g at hitems
      cases hitems
      exact Or.inl rfl
    | some items =>
      cases hw : w.items with
      | none =>
        rw [hv, hw] at hitems
        cases hitems
      | some items' =>
        rw [hv, hw] at hitems
        rw [hv, Option.getD_some] at hin hkeys
        rw [hw, Option.getD_some] at hin'
        obtain rfl : v = .arr items := by
          cases v <;> cases hv
          rfl
        obtain rfl : w = .arr items' := by
          cases w <;> cases hw
          rfl
        cases hitems with
        | some hitems =>
          rcases hitems.mapM fun x hx y hy hxy => phaseMeaning_congr hle hapart hxy hl (hin x hx)
              (hin' y hy) hwithin hwithin' hkey hcoordinates (hkeys x hx) with
            ⟨hm, hm'⟩ | ⟨ms, ms', hm, hm', hperm⟩
          · exact Or.inl ((congrArg (Option.map some) hm).trans
              (congrArg (Option.map some) hm').symm)
          · exact Or.inr ⟨items, items', ms, ms', rfl, rfl, hm, hm',
              congrArg (Option.map some) hm, congrArg (Option.map some) hm', hperm⟩

/-! ## Records -/

/-- Names of the second are names of the first. -/
def Keeps (R : Json → Json → Prop) : Prop := ∀ v w, R v w → ∀ name, Occurs name w → Occurs name v

/-- Values that say the same have the same names. -/
theorem keeps_sameValue : Keeps SameValue := fun _ _ h _ hname => hname.congr h.symm

/-- Objects with related fields have the same names, if the fields' values do. -/
theorem LikeFields.occurs {R : String → Json → Json → Prop} (hR : ∀ key, Keeps (R key))
    (h : LikeFields R a b) {name : String} (hname : Occurs name (.obj b)) :
    Occurs name (.obj a) := by
  have hget : ∀ {key : String} {w : Json}, b.get key = some w →
      ∃ v, a.get key = some v ∧ R key v w := by
    intro key w hw
    have hrel := h key
    rw [hw] at hrel
    generalize a.get key = o at hrel
    cases hrel with
    | some hvw => exact ⟨_, rfl, hvw⟩
  cases hname with
  | here hv =>
    obtain ⟨v, hv', -⟩ := hget hv
    exact .here hv'
  | field hv hname =>
    obtain ⟨v, hv', hvw⟩ := hget hv
    exact .field hv' (hR _ _ _ hvw name hname)

/-- Related objects have the same names. -/
theorem keeps_likeObject {R : Fields → Fields → Prop}
    (hR : ∀ a b, R a b → ∀ name, Occurs name (.obj b) → Occurs name (.obj a)) :
    Keeps (LikeObject R) := by
  rintro v w (h | ⟨fields, fields', rfl, rfl, h⟩) name hname
  · exact keeps_sameValue v w h name hname
  · exact hR _ _ h name hname

/-- Arrays of related items have the same names. -/
theorem keeps_likeArray {R : Json → Json → Prop} (hR : Keeps R) : Keeps (LikeArray R) := by
  rintro v w (h | ⟨items, items', rfl, rfl, m, hperm, hall⟩) name hname
  · exact keeps_sameValue v w h name hname
  · cases hname with
    | @item _ w hw hname =>
      have hexists : ∃ v ∈ m, R v w := by
        clear hperm
        induction hall with
        | nil => cases hw
        | @cons x y m items' hxy _ ih =>
          rcases List.mem_cons.mp hw with rfl | hw
          · exact ⟨x, List.mem_cons_self, hxy⟩
          · obtain ⟨v, hv, hvw⟩ := ih hw
            exact ⟨v, List.mem_cons_of_mem x hv, hvw⟩
      obtain ⟨v, hv, hvw⟩ := hexists
      exact .item (hperm.mem_iff.mpr hv) (hR v w hvw name hname)

/-- Objects that say the same but for one field have the same names, if its values do. -/
theorem LikeBut.occurs {R : Json → Json → Prop} (hR : Keeps R) (h : LikeBut field R a b)
    (name : String) (hname : Occurs name (.obj b)) : Occurs name (.obj a) :=
  LikeFields.occurs (fun key => by
    split_ifs
    · exact hR
    · exact keeps_sameValue) h hname

/-- Records that are the same but for order have the same names. -/
theorem LikeRecord.occurs (h : LikeRecord a b) {name : String} (hname : Occurs name (.obj b)) :
    Occurs name (.obj a) := by
  have hlocation : Keeps (LikeObject LikeLocation) :=
    keeps_likeObject fun _ _ => LikeBut.occurs (keeps_likeArray keeps_sameValue)
  have heffects : Keeps (LikeArray (LikeObject LikeEffect)) :=
    keeps_likeArray (keeps_likeObject fun _ _ => LikeBut.occurs hlocation)
  have hphases : Keeps (LikeArray (LikeObject LikePhase)) :=
    keeps_likeArray (keeps_likeObject fun _ _ => LikeBut.occurs heffects)
  refine LikeFields.occurs (fun key => ?_) h hname
  split_ifs
  · exact hlocation
  · exact heffects
  · exact keeps_likeObject fun _ _ => LikeBut.occurs hphases
  · exact keeps_sameValue

/-- The details of records whose phases have the same meanings say the same. -/
theorem detailsMeaning_congr {items items' : List Json} {ms ms' : List (Json × ℕ)} {l l' : Fields}
    (hle : Sorting.OrdersBy T.localeLe) (hapart : Apart T.localeLe names) (h : LikeDetails a b)
    (hin : ∀ phase ∈ items, Within names phase) (hin' : ∀ phase ∈ items', Within names phase)
    (hwithin : Within names (.obj l)) (hwithin' : Within names (.obj l'))
    (hkey : "location" ∈ names) (hcoordinates : "coordinates" ∈ names)
    (hms : items.mapM (fun phase => phaseMeaning T phase l) = some ms)
    (hms' : items'.mapM (fun phase => phaseMeaning T phase l') = some ms')
    (hperm : (ms.map fun r => (r.1.value, r.2)).Perm (ms'.map fun r => (r.1.value, r.2)))
    (hkeys : Apart T.localeLe {key | key ∈ keysOfPhases T l items}) :
    (detailsMeaning T (some a) (some ms)).map Json.value =
      (detailsMeaning T (some b) (some ms')).map Json.value := by
  have hmem : ∀ {is : List Json} {l : Fields} {rs : List (Json × ℕ)},
      (∀ phase ∈ is, Within names phase) → Within names (.obj l) →
      is.mapM (fun phase => phaseMeaning T phase l) = some rs →
      ∀ v ∈ rs.map Prod.fst, Within names v := by
    intro is l rs his hl hrs v hv
    obtain ⟨r, hr, rfl⟩ := List.mem_map.mp hv
    obtain ⟨phase, hphase, heq⟩ := Rearranged.exists_of_mem_mapM hrs hr
    exact within_phaseMeaning (his phase hphase) hl hkey hcoordinates heq
  have hvalues : ((ms.map Prod.fst).map Json.value).Perm ((ms'.map Prod.fst).map Json.value) := by
    have hfst := hperm.map Prod.fst
    rw [List.map_map, List.map_map] at hfst
    rwa [List.map_map, List.map_map]
  have hsorted : Apart T.localeLe {key | key ∈ (ms.map Prod.fst).map (keyOf T)} := by
    rw [keysOfPhases, Rearranged.filterMap_eq_of_mapM hms] at hkeys
    rwa [List.map_map]
  refine congrArg some (value_put_congr (fun key hphases => ?_) (congrArg JsonValue.arr ?_))
  · unfold SameAt
    rw [Fields.get_without, Fields.get_without]
    split_ifs
    · rfl
    · exact h.sameAt hphases
  · rw [Json.values_eq, Json.values_eq]
    exact unordered_congr hle hapart (hmem hin hwithin hms) (hmem hin' hwithin' hms') hsorted
      hvalues

/-- The details of records with the same phases, or without them, say the same. -/
theorem detailsMeaning_congr_left {d d' : Option Fields} (h : Option.Rel LikeDetails d d')
    (phases : Option (List (Json × ℕ))) :
    (detailsMeaning T d phases).map Json.value = (detailsMeaning T d' phases).map Json.value := by
  cases h with
  | none => rfl
  | @some a b h =>
    have hothers : ∀ key, SameAt (a.without ["phases"]) (b.without ["phases"]) key := by
      intro key
      unfold SameAt
      rw [Fields.get_without, Fields.get_without]
      split_ifs with hkey
      · rfl
      · exact h.sameAt (by simpa using hkey)
    cases phases with
    | none => exact congrArg some (Fields.value_ext hothers)
    | some phases => exact congrArg some (value_put_congr (fun key _ => hothers key) rfl)

/-- Whether a record is known to be read does not depend on order. -/
theorem isUntold_congr {r r' : Situation}
    (hmerged : (r'.provenance.mergedSources.getD []).length =
      (r.provenance.mergedSources.getD []).length)
    (h : LikeRecord r.fields r'.fields) : isUntold r = isUntold r' := by
  have hcertainty : SameAt r.fields r'.fields "certainty" :=
    h.sameAt (by decide) (by decide) (by decide)
  have hempty : (r'.provenance.mergedSources.getD []).isEmpty =
      (r.provenance.mergedSources.getD []).isEmpty := by
    rw [Bool.eq_iff_iff, List.isEmpty_iff_length_eq_zero, List.isEmpty_iff_length_eq_zero, hmerged]
  unfold isUntold
  rw [hempty, hcertainty.textAt,
    knownValidity_congr (h.sameAt (by decide) (by decide) (by decide))]

/-- The freshness of records that are the same but for order is compared alike. -/
theorem freshnessMeaning_congr (h : SameAt a b "freshness") :
    (freshnessMeaning a).map Json.value = (freshnessMeaning b).map Json.value := by
  unfold freshnessMeaning
  rcases map_eq_map_cases h.fieldsAt with ⟨ha, hb⟩ | ⟨f, g, ha, hb, hfg⟩
  · rw [ha, hb]
  · rw [ha, hb]
    refine congrArg some (Fields.value_ext fun key => ?_)
    rw [Fields.get_without, Fields.get_without]
    split_ifs
    · rfl
    · exact sameAt_of_value hfg key

/-- A field of a record with the meanings of its parts. -/
theorem get_statedRecord {record loc : Fields} {effects : List Json} {details : Option Json}
    (key : String) : (statedRecord record loc effects details).get key =
      (((if "location" = key then some (.obj loc)
          else if "effects" = key then some (.arr effects) else none).or
        (if "details" = key then details else none)).or
        (if "freshness" = key then freshnessMeaning record else none)).or
        (if key ∈ notMeaning then none else record.get key) := by
  rw [statedRecord, Fields.get_spread, Fields.get_append, Fields.get_append, Fields.get_given,
    Fields.get_given, Fields.get_without]
  rfl

/-- Records with meanings of their parts that say the same do so. -/
theorem statedRecord_congr {loc loc' : Fields} {effects effects' : List Json} {d d' : Option Json}
    (h : ∀ key, key ∉ notMeaning → SameAt a b key) (hfreshness : SameAt a b "freshness")
    (hloc : loc.value = loc'.value)
    (heffects : effects.map Json.value = effects'.map Json.value)
    (hd : d.map Json.value = d'.map Json.value) :
    (statedRecord a loc effects d).value = (statedRecord b loc' effects' d').value := by
  refine Fields.value_ext fun key => ?_
  rw [get_statedRecord, get_statedRecord]
  refine Iff.mp rel_sameValue_iff (rel_or (rel_or (rel_or ?_ ?_) ?_) ?_)
  · split_ifs
    · exact .some hloc
    · refine .some (congrArg JsonValue.arr ?_)
      rwa [Json.values_eq, Json.values_eq]
    · exact .none
  · split_ifs
    · exact Iff.mpr rel_sameValue_iff hd
    · exact .none
  · split_ifs
    · exact Iff.mpr rel_sameValue_iff (freshnessMeaning_congr hfreshness)
    · exact .none
  · split_ifs with hkey
    · exact .none
    · exact Iff.mpr rel_sameValue_iff (h key hkey)

/-- **Records that are the same but for order have one meaning.** -/
theorem recordMeaning_congr {r r' : Situation} (hle : Sorting.OrdersBy T.localeLe)
    (hmerged : (r'.provenance.mergedSources.getD []).length =
      (r.provenance.mergedSources.getD []).length)
    (h : LikeRecord r.fields r'.fields)
    (hapart : RecordApart T r.fields) :
    (recordMeaning T r).map Fields.value = (recordMeaning T r').map Fields.value := by
  have ha : Within {name | name = "coordinates" ∨ Occurs name (.obj r.fields)} (.obj r.fields) :=
    fun _ => Or.inr
  have hb : Within {name | name = "coordinates" ∨ Occurs name (.obj r.fields)} (.obj r'.fields) :=
    fun _ hname => Or.inr (h.occurs hname)
  obtain ⟨hnames, hroads, heffects, hphases, hphaseKeys⟩ := hapart
  generalize hset : {name | name = "coordinates" ∨ Occurs name (.obj r.fields)} = names
    at ha hb hnames
  have hcoordinates : "coordinates" ∈ names := hset ▸ Or.inl rfl
  have hothers : ∀ key, key ∉ notMeaning → SameAt r.fields r'.fields key := by
    intro key hkey
    refine h.sameAt ?_ ?_ ?_ <;> (rintro rfl; exact hkey (by decide))
  have hvalidity : SameAt r.fields r'.fields "validity" := hothers _ (by decide)
  have hlocation := h.location
  have hdetails := h.details
  unfold phasesOf at hphases hphaseKeys
  unfold recordMeaning
  rw [isUntold_congr hmerged h]
  cases hloc : fieldsAt r.fields "location" with
  | none =>
    rw [hloc] at hlocation
    generalize fieldsAt r'.fields "location" = g at hlocation
    cases hlocation
    rfl
  | some l =>
    cases hloc' : fieldsAt r'.fields "location" with
    | none =>
      rw [hloc, hloc'] at hlocation
      cases hlocation
    | some l' =>
      rw [hloc, hloc'] at hlocation
      rw [hloc, Option.getD_some] at hroads heffects hphases hphaseKeys
      obtain ⟨hkey, hin⟩ := ha.get _ _ (get_of_fieldsAt hloc)
      have hin' := (hb.get _ _ (get_of_fieldsAt hloc')).2
      cases hlocation with
      | some hl =>
        have hd : LikeDetails ((fieldsAt r.fields "details").getD [])
            ((fieldsAt r'.fields "details").getD []) := by
          generalize fieldsAt r.fields "details" = f, fieldsAt r'.fields "details" = g at hdetails
          cases hdetails with
          | some h => exact h
          | none => exact fun _ => .none
        have heffects := effectMeanings_congr hle hnames (h "effects") hl hvalidity
          (ha.get "effects") (hb.get "effects") hin hin' (ha.get "validity") (hb.get "validity")
          hkey hcoordinates heffects
        have hdin : Within names (.obj ((fieldsAt r.fields "details").getD [])) :=
          within_getD ha
        have hdin' : Within names (.obj ((fieldsAt r'.fields "details").getD [])) :=
          within_getD hb
        rw [Option.bind_some, Option.bind_some]
        by_cases huntold : isUntold r' = true
        · rw [if_pos huntold, if_pos huntold]
        · rw [if_neg huntold, if_neg huntold]
          rcases map_eq_map_cases (locationMeaning_congr hle hnames hl hin hin' hroads true) with
            ⟨hm, hm'⟩ | ⟨loc, loc', hm, hm', hlocs⟩
          · rw [hm, hm', Option.bind_none, Option.bind_none]
          · rw [hm, hm', Option.bind_some, Option.bind_some]
            rcases map_eq_map_cases heffects with ⟨hm, hm'⟩ | ⟨es, es', hm, hm', hes⟩
            · rw [hm, hm', Option.bind_none, Option.bind_none]
            · rw [hm, hm', Option.bind_some, Option.bind_some]
              have hlength : es.length = es'.length := by
                have hlengths := congrArg List.length hes
                rwa [List.length_map, List.length_map] at hlengths
              rcases phasesMeaning_congr hle hnames hd hl hdin hdin' hin hin' hkey hcoordinates
                hphases with heq | ⟨items, items', ms, ms', hp, hp', hms, hms', hm, hm', hperm⟩
              · rw [heq, hlength]
                cases phasesMeaning T ((fieldsAt r'.fields "details").getD []) l' with
                | none => rfl
                | some phases =>
                  rw [Option.bind_some, Option.bind_some]
                  split_ifs
                  · rfl
                  · exact congrArg some (statedRecord_congr hothers (h.sameAt (by decide)
                      (by decide) (by decide)) hlocs hes (detailsMeaning_congr_left hdetails _))
              · have hsum : (ms.map Prod.snd).sum = (ms'.map Prod.snd).sum := by
                  have hcounts := hperm.map Prod.snd
                  rw [List.map_map, List.map_map] at hcounts
                  exact hcounts.sum_eq
                rw [hm, hm', hlength, Option.bind_some, Option.bind_some, Option.getD_some,
                  Option.getD_some, hsum]
                split_ifs
                · rfl
                · refine congrArg some (statedRecord_congr hothers (h.sameAt (by decide)
                    (by decide) (by decide)) hlocs hes ?_)
                  generalize fieldsAt r.fields "details" = f, fieldsAt r'.fields "details" = g
                    at hd hdetails hp hp' hdin hdin' hphaseKeys ⊢
                  cases hdetails with
                  | none => cases hp
                  | some _ =>
                    rw [Option.getD_some] at hp hp' hd hdin hdin'
                    rw [Option.getD_some, hp] at hphaseKeys
                    exact detailsMeaning_congr hle hnames hd
                      (within_arr_iff.mp (hdin.get _ _ hp).2)
                      (within_arr_iff.mp (hdin'.get _ _ hp').2) hin hin' hkey hcoordinates hms hms'
                      hperm hphaseKeys

/-- **The order of roads, effects, phases and names does not change the key of a record**, where the
language tells apart what it compares of it. -/
theorem situationCompatibilityKey_congr {r r' : Situation} (hle : Sorting.OrdersBy T.localeLe)
    (hmerged : (r'.provenance.mergedSources.getD []).length =
      (r.provenance.mergedSources.getD []).length)
    (h : LikeRecord r.fields r'.fields)
    (hapart : RecordApart T r.fields) :
    situationCompatibilityKey T r = situationCompatibilityKey T r' := by
  rw [situationCompatibilityKey_eq, situationCompatibilityKey_eq]
  rcases map_eq_map_cases (recordMeaning_congr hle hmerged h hapart) with
    ⟨hm, hm'⟩ | ⟨m, m', hm, hm', hvalue⟩
  · rw [hm, hm']
  · rw [hm, hm', Option.map_some, Option.map_some]
    refine congrArg some (keyOf_congr hle hapart.names ?_ ?_ hvalue)
    · exact within_recordMeaning (fun _ => Or.inr) (Or.inl rfl) hm
    · exact within_recordMeaning (fun _ hname => Or.inr (h.occurs hname)) (Or.inl rfl) hm'

end OpenConditions.Core

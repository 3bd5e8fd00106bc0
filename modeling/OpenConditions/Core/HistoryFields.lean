import OpenConditions.Core.ObservationHistory
import OpenConditions.Core.ObservationRoundTrip

set_option relaxedAutoImplicit false
set_option autoImplicit false

/-!
# What the derived fields of an observation rest on

The identities and the hash of an observation are what it says of some of its fields, whatever the
order of their keys, and a result is read back from its columns.

## Main definitions

* `ValidResult` — what the schema says of a result.

## Main results

* `observationLocalId_congr`, `contentHash_congr` — what the identities and the hash rest on.
* `decodeResult_encodeResult` — a result is read back.
-/

namespace OpenConditions.Core

/-! ## The derived fields read what an observation says -/

section Derived

variable {ops : RecordOps} {a b : Fields}

/-- The key of a location is what it says. -/
theorem locationKeyOf_congr (h : a.value = b.value) : locationKeyOf ops a = locationKeyOf ops b := by
  have hgeocode : (((fieldsAt a "admin").bind fun admin =>
        (itemsAt admin "geocodes").bind List.head?).bind fieldsIn).map Fields.value =
      (((fieldsAt b "admin").bind fun admin =>
        (itemsAt admin "geocodes").bind List.head?).bind fieldsIn).map Fields.value := by
    rcases map_eq_map_cases (sameAt_of_value h "admin").fieldsAt with
      ⟨ha, hb⟩ | ⟨c, d, ha, hb, hcd⟩
    · rw [ha, hb]
    · rw [ha, hb, Option.bind_some, Option.bind_some]
      rcases map_eq_map_cases (sameAt_of_value hcd "geocodes").head with
        ⟨hc, hd⟩ | ⟨x, y, hc, hd, hxy⟩
      · rw [hc, hd]
      · rw [hc, hd]
        exact fieldsIn_congr hxy
  unfold locationKeyOf
  rcases map_eq_map_cases hgeocode with ⟨ha, hb⟩ | ⟨c, d, ha, hb, hcd⟩
  · rw [ha, hb]
    rcases map_eq_map_cases (sameAt_of_value h "geometry") with
      ⟨hga, hgb⟩ | ⟨v, w, hga, hgb, hvw⟩
    · rw [hga, hgb]
    · rw [hga, hgb]
      cases v <;> cases w <;> simp_all [Json.value]
  · rw [ha, hb]
    simp only [shownAt, (sameAt_of_value hcd "scheme").textAt, (sameAt_of_value hcd "code").textAt]

/-- The key of a subject is what an observation says of it and its location. -/
theorem subjectKey_congr (hsubject : SameAt a b "subject") (hlocation : SameAt a b "location") :
    subjectKey ops a = subjectKey ops b := by
  have hvalue := hsubject.getD
  have htext : ∀ key, textAt ((fieldsAt a "subject").getD []) key =
      textAt ((fieldsAt b "subject").getD []) key := fun key => (sameAt_of_value hvalue key).textAt
  have hspans := sameAt_of_value hvalue "spans"
  unfold subjectKey shownAt
  simp only [htext, locationKeyOf_congr hlocation.getD]
  rcases map_eq_map_cases hspans with ⟨ha, hb⟩ | ⟨v, w, ha, hb, hvw⟩
  · simp only [ha, hb]
  · simp only [ha, hb, hvw]

/-- **The local id of an observation** is what it says of its subject, its location, its property,
its qualifiers, its time and its forecast. -/
theorem observationLocalId_congr (h : ∀ key ∈ ["subject", "location", "property", "qualifiers",
    "phenomenonTime", "forecast"], SameAt a b key) :
    observationLocalId ops a = observationLocalId ops b := by
  have htime := (h "phenomenonTime" (by simp)).getD
  have hqualifiers : qualifierKey ops (a.get "qualifiers") = qualifierKey ops (b.get "qualifiers") := by
    rcases map_eq_map_cases (h "qualifiers" (by simp)) with ⟨ha, hb⟩ | ⟨v, w, ha, hb, hvw⟩
    · rw [ha, hb]
    · rw [ha, hb, qualifierKey, qualifierKey, hvw]
  have hsubject : subjectKey ops a = subjectKey ops b :=
    subjectKey_congr (h "subject" (by simp)) (h "location" (by simp))
  have hissued : issuedOf ops (fieldsAt a "forecast") = issuedOf ops (fieldsAt b "forecast") := by
    rcases map_eq_map_cases (h "forecast" (by simp)).fieldsAt with ⟨ha, hb⟩ | ⟨c, d, ha, hb, hcd⟩
    · rw [ha, hb]
    · rw [ha, hb, issuedOf, issuedOf, (sameAt_of_value hcd "issuedAt").textAt]
  unfold observationLocalId shownAt
  simp only [(sameAt_of_value htime "instant").textAt, (sameAt_of_value htime "start").textAt,
    hsubject, hissued, hqualifiers, (h "property" (by simp)).textAt]

/-- The content fields of an object of classified ones. -/
theorem pick_eq_ok {fields : Fields} {content derived : List String} {place : String}
    (h : ∀ key v, fields.get key = some v → key ∈ content ++ derived) :
    ∃ out, pick fields content derived place = .ok out ∧
      ∀ key, out.get key = if key ∈ content then fields.get key else none := by
  have hfind : fields.find? (fun f => !(content ++ derived).contains f.1) = none := by
    refine List.find?_eq_none.mpr fun f hf => ?_
    obtain ⟨v, hv⟩ := Option.isSome_iff_exists.mp (Fields.get_isSome_of_mem hf)
    have hmem := h f.1 v hv
    simpa [or_iff_not_imp_left] using hmem
  refine ⟨_, by unfold pick; rw [hfind], fun key => ?_⟩
  rw [@Fields.get_filter _ _ fun name => content.contains name]
  by_cases hkey : key ∈ content <;> simp [hkey]

/-- The content of an observation of classified fields. -/
theorem contentOf_eq_ok {p : Fields} (hkeys : ∀ key v, a.get key = some v → key ∈ observationKeys)
    (hp : a.get "provenance" = some (.obj p))
    (hpKeys : ∀ key v, p.get key = some v → key ∈ provenanceContent ++ provenanceDerived) :
    ∃ content own : Fields, contentOf a = .ok (content.put "provenance" (.obj own)) ∧
      (∀ key, content.get key = if key ∈ observationContent then a.get key else none) ∧
      ∀ key, own.get key = if key ∈ provenanceContent then p.get key else none := by
  have hclassified : ∀ key ∈ observationKeys, key ∈ observationContent ++ observationDerived := by
    decide
  obtain ⟨content, hcontent, hget⟩ := @pick_eq_ok a observationContent observationDerived
    "observation" fun key v hv => hclassified key (hkeys key v hv)
  obtain ⟨own, hown, hgetOwn⟩ := @pick_eq_ok p _ _ "provenance" hpKeys
  refine ⟨content, own, ?_, hget, hgetOwn⟩
  have hfields : fieldsAt a "provenance" = some p := by rw [fieldsAt, hp]; rfl
  unfold contentOf
  simp only [hcontent, hfields, hown, bind, Except.bind]

/-- **The hash of an observation** covers what it says besides its hash. -/
theorem contentHash_congr {p q : Fields}
    (hkeys : ∀ key v, a.get key = some v → key ∈ observationKeys)
    (hkeys' : ∀ key v, b.get key = some v → key ∈ observationKeys)
    (hp : a.get "provenance" = some (.obj p)) (hq : b.get "provenance" = some (.obj q))
    (hpKeys : ∀ key v, p.get key = some v → key ∈ provenanceContent ++ provenanceDerived)
    (hqKeys : ∀ key v, q.get key = some v → key ∈ provenanceContent ++ provenanceDerived)
    (h : ∀ key ∈ observationContent, key ≠ "provenance" → SameAt a b key)
    (hpq : ∀ key ∈ provenanceContent, SameAt p q key) :
    contentHash ops a = contentHash ops b := by
  obtain ⟨ca, pa, hca, hgetA, hgetPa⟩ := contentOf_eq_ok hkeys hp hpKeys
  obtain ⟨cb, pb, hcb, hgetB, hgetPb⟩ := contentOf_eq_ok hkeys' hq hqKeys
  have hprovenance : (Json.obj pa).value = (Json.obj pb).value := by
    refine Fields.value_ext fun key => ?_
    rw [hgetPa, hgetPb]
    split_ifs with hkey
    · exact hpq key hkey
    · rfl
  have hvalue : (ca.put "provenance" (.obj pa)).value = (cb.put "provenance" (.obj pb)).value := by
    refine Fields.value_ext fun key => ?_
    rw [Fields.get_put, Fields.get_put, hgetA, hgetB]
    by_cases hkey : "provenance" = key
    · rw [if_pos hkey, if_pos hkey]
      exact congrArg some hprovenance
    · rw [if_neg hkey, if_neg hkey]
      split_ifs with hcontent
      · exact h key hcontent (Ne.symm hkey)
      · rfl
  rw [contentHash, contentHash, hca, hcb, Except.map, Except.map, hvalue]

end Derived

/-! ## Results -/

section Results

variable {result : Fields}

/-- What the schema says of a result of the declared type. -/
def ResultSpec.Declares : ResultSpec → Fields → Prop
  | .quantity unit, result =>
    (∃ q, result.get "value" = some (.num q)) ∧ result.get "unit" = some (.str unit)
  | .count, result => ∃ q, result.get "value" = some (.num q)
  | .boolean, result => ∃ b, result.get "value" = some (.bool b)
  | .category vocabulary, result =>
    (∃ s, result.get "value" = some (.str s)) ∧ result.get "vocabulary" = some (.str vocabulary)
  | .money, result => ∃ s, result.get "amount" = some (.str s)
  | .text, _ | .vector, _ | .structured, _ => True

/-- What the schema says of a result: of the declared type with its fields, or of another type. -/
def ValidResult (spec : ResultSpec) (result : Fields) : Prop :=
  ∃ type, result.get "type" = some (.str type) ∧ (type = spec.type → spec.Declares result)

/-- Fields that may be none are those fields. -/
theorem getD_nonEmpty (fields : Fields) : (nonEmpty fields).getD [] = fields := by
  unfold nonEmpty
  split_ifs with h
  · exact h.symm
  · rfl

/-- A field that is left out where it is implied. -/
theorem get_withoutImplied {fields : Fields} {key implied k : String} :
    (withoutImplied fields key implied).get k =
      if key = k ∧ textAt fields key = some implied then none else fields.get k := by
  unfold withoutImplied
  by_cases htext : textAt fields key = some implied
  · by_cases hk : key = k
    · subst hk
      simp [htext]
    · simp [htext, hk, Ne.symm hk]
  · simp [htext]

/-- Columns are read back when what they imply and the rest of a result are the result. -/
theorem decode_residue {base rest : Fields} (htype : rest.get "type" = none)
    (h : ∀ key, (rest.get key).or (base.get key) = result.get key) :
    (textAt ((nonEmpty rest).getD []) "type").isSome = false ∧
      (Fields.spread base ((nonEmpty rest).getD [])).value = result.value := by
  rw [getD_nonEmpty]
  refine ⟨by rw [textAt, htype]; rfl, Fields.value_ext fun key => ?_⟩
  rw [Fields.get_spread, h]

/-- A result of one column is what its column implies, and the rest. -/
theorem decode_plain {type key : String} {v : Json} (htype : result.get "type" = some (.str type))
    (hkey : "type" ≠ key) (hv : result.get key = some v) :
    let rest := (result.without ["type"]).without [key]
    (textAt ((nonEmpty rest).getD []) "type").isSome = false ∧
      (Fields.spread [("type", .str type), (key, v)] ((nonEmpty rest).getD [])).value =
        result.value := by
  refine decode_residue (by simp) fun k => ?_
  by_cases ht : "type" = k
  · subst ht
    simp [htype]
  · by_cases hk : key = k
    · subst hk
      simp [hv, hkey]
    · simp [ht, hk, Ne.symm ht, Ne.symm hk]

/-- A result of one column with an implied field is what both imply, and the rest. -/
theorem decode_implied {type key implied : String} {v : Json}
    (htype : result.get "type" = some (.str type)) (hkeyType : "type" ≠ key)
    (hkeyValue : "value" ≠ key) (hv : result.get "value" = some v)
    (hkey : result.get key = some (.str implied)) :
    let rest := withoutImplied ((result.without ["type"]).without ["value"]) key implied
    (textAt ((nonEmpty rest).getD []) "type").isSome = false ∧
      (Fields.spread [("type", .str type), ("value", v), (key, .str implied)]
        ((nonEmpty rest).getD [])).value = result.value := by
  have htext : textAt ((result.without ["type"]).without ["value"]) key = some implied := by
    simp [textAt, hkey, Ne.symm hkeyType, Ne.symm hkeyValue, Json.string]
  refine decode_residue (by simp [get_withoutImplied]) fun k => ?_
  by_cases ht : "type" = k
  · subst ht
    simp [get_withoutImplied, htype]
  · by_cases hval : "value" = k
    · subst hval
      simp [get_withoutImplied, hv]
    · by_cases hk : key = k
      · subst hk
        simp [get_withoutImplied, htext, hkey, hkeyType, hkeyValue]
      · simp [get_withoutImplied, ht, hval, hk, Ne.symm ht, Ne.symm hval]

/-- A result that is stored whole is read back. -/
theorem decodeResult_whole {spec : ResultSpec} {type : String}
    (h : result.get "type" = some (.str type)) :
    decodeResult (.ofJson (some result)) spec = .ok result := by
  have htext : (textAt result "type").isSome = true := by rw [textAt, h]; rfl
  unfold decodeResult ResultColumns.ofJson
  simp only [Option.getD_some, htext, if_true]

/-- **A result is read back** from its columns. -/
theorem decodeResult_encodeResult {spec : ResultSpec} (h : ValidResult spec result) :
    ∃ out, decodeResult (encodeResult result spec) spec = .ok out ∧ out.value = result.value := by
  obtain ⟨type, htype, hdeclared⟩ := h
  have htext : textAt result "type" = some type := by rw [textAt, htype]; rfl
  by_cases hwhole : textAt result "type" ≠ some spec.type ∨ spec.type ∉ columnTypes
  · exact ⟨result, by rw [encodeResult, if_pos hwhole, decodeResult_whole htype], rfl⟩
  obtain ⟨hsame, hcolumn⟩ := not_or.mp hwhole
  have hspec : type = spec.type := by
    rw [htext] at hsame
    exact Option.some.inj (not_not.mp hsame)
  have hfields := hdeclared hspec
  rw [hspec] at htype
  unfold encodeResult decodeResult
  rw [if_neg hwhole]
  cases spec with
  | quantity unit =>
    obtain ⟨⟨q, hvalue⟩, hunit⟩ := hfields
    obtain ⟨hnone, hresult⟩ := decode_implied htype (by decide) (by decide) hvalue hunit
    exact ⟨_, by simp [ResultColumns.ofJson, ResultSpec.type, hnone, hvalue], hresult⟩
  | count =>
    obtain ⟨q, hvalue⟩ := hfields
    obtain ⟨hnone, hresult⟩ := decode_plain htype (by decide) hvalue
    exact ⟨_, by simp [ResultColumns.ofJson, ResultSpec.type, hnone, hvalue], hresult⟩
  | boolean =>
    obtain ⟨b, hvalue⟩ := hfields
    obtain ⟨hnone, hresult⟩ := decode_plain htype (by decide) hvalue
    refine ⟨_, ?_, hresult⟩
    cases b <;>
      simp [ResultColumns.ofJson, ResultSpec.type, hnone, hvalue, booleanText, Json.string]
  | category vocabulary =>
    obtain ⟨⟨t, hvalue⟩, hvocabulary⟩ := hfields
    obtain ⟨hnone, hresult⟩ := decode_implied htype (by decide) (by decide) hvalue hvocabulary
    exact ⟨_, by simp [ResultColumns.ofJson, ResultSpec.type, hnone, hvalue], hresult⟩
  | money =>
    obtain ⟨t, hvalue⟩ := hfields
    obtain ⟨hnone, hresult⟩ := decode_plain htype (by decide) hvalue
    exact ⟨_, by simp [ResultColumns.ofJson, ResultSpec.type, hnone, hvalue], hresult⟩
  | text => exact absurd (by decide) hcolumn
  | vector => exact absurd (by decide) hcolumn
  | structured => exact absurd (by decide) hcolumn

end Results

end OpenConditions.Core

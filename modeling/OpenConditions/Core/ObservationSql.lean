import OpenConditions.Core.ObservationCodec

set_option relaxedAutoImplicit false
set_option autoImplicit false

/-!
# The decoder of observations in the database

The functions `conditions.observation_record` and `conditions.observation_fusion_provenance`
(`packages/core/drizzle/0092_compact_fused_lineage.sql`), which put a template and a reading together
as `recordOf` does.

## Main definitions

* `observationRecord` — the observation of a template and a reading.

## Main results

* `observationRecord_eq_recordOf` — the two decoders agree, and refuse the same lineages.

## Implementation notes

The text of a number, an array or an object, the hash and the operations on Unicode strings are
parameters; the error of an empty namespace is left out, since none is of the grammar.
-/

namespace OpenConditions.Core

/-! ## Operations of the database -/

/-- The kind of a value. -/
def jsonTypeof : Json → String
  | .null => "null"
  | .bool _ => "boolean"
  | .num _ => "number"
  | .str _ => "string"
  | .arr _ => "array"
  | .obj _ => "object"

/-- The items of a value that is concatenated to an array. -/
def asItems : Json → List Json
  | .arr items => items
  | v => [v]

/-- Two objects as one, other values as one array. -/
def concatJson : Json → Json → Json
  | .obj a, .obj b => .obj (Fields.spread a b)
  | a, b => .arr (asItems a ++ asItems b)

/-- The text of a value: a string itself, none for a null. -/
def jsonText (render : Json → String) : Json → Option String
  | .null => none
  | .str s => some s
  | .bool b => some (if b then "true" else "false")
  | v => some (render v)

/-- The texts of numbers, arrays and objects begin as JSON has them begin. -/
structure RendersJson (render : Json → String) : Prop where
  num : ∀ q, ∃ c ∈ (render (.num q)).toList.head?, c = '-' ∨ ('0' ≤ c ∧ c ≤ '9')
  arr : ∀ items, '[' ∈ (render (.arr items)).toList.head?
  obj : ∀ fields, '\x7b' ∈ (render (.obj fields)).toList.head?

/-- A text that only a string has. -/
def IsWord (t : String) : Prop :=
  t ≠ "true" ∧ t ≠ "false" ∧
    ∀ c ∈ t.toList.head?, c ≠ '-' ∧ ¬('0' ≤ c ∧ c ≤ '9') ∧ c ≠ '[' ∧ c ≠ '\x7b'

/-- A character in a JSON string. -/
def quoteChar (c : Char) : List Char :=
  if c = '"' then "\\\"".toList
  else if c = '\\' then "\\\\".toList
  else if c.toNat = 8 then "\\b".toList
  else if c.toNat = 12 then "\\f".toList
  else if c = '\n' then "\\n".toList
  else if c = '\r' then "\\r".toList
  else if c = '\t' then "\\t".toList
  else if c.toNat < 32 then
    "\\u00".toList ++ [Nat.digitChar (c.toNat / 16), Nat.digitChar (c.toNat % 16)]
  else [c]

/-- The JSON text of a string. -/
def quoteJson (s : String) : String := String.ofList ('"' :: s.toList.flatMap quoteChar ++ ['"'])

/-- The language's operations on Unicode strings, which leave lower-case letters, digits, dots and
dashes as they are. -/
structure UnicodeOps where
  trim : String → String
  nfc : String → String
  toLowerCase : String → String
  plain : ∀ s : String, s.toList.all isNamespaceChar = true →
    trim s = s ∧ nfc s = s ∧ toLowerCase s = s

/-- A namespace as canonical ids have it. -/
def normalizeNamespace (ops : UnicodeOps) (ns : String) : String :=
  ops.nfc (ops.toLowerCase (ops.nfc (ops.trim ns)))

/-- The hash that is a canonical id. -/
def canonicalIdOf (ops : UnicodeOps) (sha256Hex : String → String) (ns localId : String) : String :=
  sha256Hex ("[" ++ quoteJson (normalizeNamespace ops ns) ++ "," ++ quoteJson localId ++ "]")

/-! ## The decoder -/

/-- The credit of a fused record with its lineage. -/
def observationFusionProvenance (render : Json → String) (provenance : Fields) (ids : Json)
    (localId : Option String) : Except String Fields :=
  if (provenance.get "origin").bind (jsonText render) ≠ some "derived" ∨
      ((provenance.get "sourceId").bind (jsonText render)).getD "" ∉ ["@fused", "@fused-public"] ∨
      (provenance.get "derivedFrom").map jsonTypeof ≠ some "object" ∨
      ((fieldsAt provenance "derivedFrom").bind fun d =>
        (d.get "method").bind (jsonText render)) ≠ some "fusion" ∨
      (provenance.get "mergedSources").map jsonTypeof ≠ some "array" ∨
      jsonTypeof ids ≠ "array" ∨ (localId.map isLocalObservationId).getD false = false then
    .error invalidLineage
  else
    let ids := asItems ids
    let merged := (itemsAt provenance "mergedSources").getD []
    let localId := localId.getD ""
    let method := (fieldsAt provenance "derivedFrom").getD []
    if ids.length = 0 ∨ ids.length ≠ merged.length ∨
        (ids.any fun id => decide (jsonTypeof id ≠ "string")) = true ∨
        (merged.any fun source => decide (jsonTypeof source ≠ "object")) = true then
      .error invalidLineage
    else
      .ok (provenance.spread [("recordId", .str localId),
        ("mergedSources", .arr (merged.zipIdx.map fun source =>
          concatJson source.1 (.obj [("recordId", (ids[source.2]?).getD .null)]))),
        ("derivedFrom", concatJson (.obj method) (.obj [("records",
          .arr (ids.map fun id => .obj [("class", .str "observation"), ("id", id)]))]))])

/-- The observation of a template and a reading, as the database has it. -/
def observationRecord (render : Json → String) (sha256Hex : String → String)
    (template reading : Fields) : Except String Fields := do
  let credit := (template.get "provenance").map fun p =>
    concatJson p ((reading.get "provenance").getD (.obj []))
  let provenance ←
    match reading.get "_ocFusionRecordIds" with
    | none => .ok (credit.getD .null)
    | some ids => do
      let restored ← observationFusionProvenance render ((credit.bind fieldsIn).getD []) ids
        ((reading.get "id").bind (jsonText render))
      .ok (.obj restored)
  let localId := ((reading.get "id").bind (jsonText render)).getD ""
  let identity : Fields :=
    if isLocalObservationId localId then
      match (template.get "namespace").bind (jsonText render) with
      | some ns =>
        [("id", .str ("oc:observation:" ++ ns ++ ":" ++ localId)),
          ("canonicalId", .str (sha256Hex ("[" ++ quoteJson ns ++ "," ++ quoteJson localId ++ "]")))]
      | none => [("id", .null), ("canonicalId", .null)]
    else []
  .ok ((((template.without ["namespace", "provenance"]).spread
    (reading.without ["provenance", "_ocFusionRecordIds"])).spread
      [("provenance", provenance)]).spread identity)

/-! ## The two decoders agree -/

section Agree

variable {render : Json → String} {credit : Fields}

/-- Only a string has the text of a word. -/
theorem jsonText_eq_some (hrender : RendersJson render) {t : String} (ht : IsWord t)
    (v : Option Json) : v.bind (jsonText render) = some t ↔ v.bind Json.string = some t := by
  obtain ⟨htrue, hfalse, hhead⟩ := ht
  cases v with
  | none => rfl
  | some v =>
    cases v with
    | null => simp [jsonText, Json.string]
    | str s => rfl
    | bool b => cases b <;> simp [jsonText, Json.string, Ne.symm htrue, Ne.symm hfalse]
    | num q =>
      obtain ⟨c, hc, hdigit⟩ := hrender.num q
      refine iff_of_false (fun h => ?_) (by simp [Json.string])
      have heq : render (.num q) = t := Option.some.inj h
      rw [heq] at hc
      obtain ⟨hdash, hdigits, -⟩ := hhead c hc
      exact hdigit.elim hdash hdigits
    | arr items =>
      refine iff_of_false (fun h => ?_) (by simp [Json.string])
      have heq : render (.arr items) = t := Option.some.inj h
      exact (hhead _ (heq ▸ hrender.arr items)).2.2.1 rfl
    | obj fields =>
      refine iff_of_false (fun h => ?_) (by simp [Json.string])
      have heq : render (.obj fields) = t := Option.some.inj h
      exact (hhead _ (heq ▸ hrender.obj fields)).2.2.2 rfl

/-- A text that begins with another character than those of other values. -/
theorem isWord_of_head {t : String} {c : Char} (hc : t.toList.head? = some c) (htrue : t ≠ "true")
    (hfalse : t ≠ "false")
    (hword : c ≠ '-' ∧ ¬('0' ≤ c ∧ c ≤ '9') ∧ c ≠ '[' ∧ c ≠ '\x7b') : IsWord t := by
  refine ⟨htrue, hfalse, fun d hd => ?_⟩
  rw [hc] at hd
  obtain rfl := Option.some.inj hd
  exact hword

/-- The words of a fused lineage. -/
theorem isWord_fused : IsWord "derived" ∧ IsWord "@fused" ∧ IsWord "@fused-public" ∧
    IsWord "fusion" :=
  ⟨@isWord_of_head _ 'd' (by decide) (by decide) (by decide) (by decide),
    @isWord_of_head _ '@' (by decide) (by decide) (by decide) (by decide),
    @isWord_of_head _ '@' (by decide) (by decide) (by decide) (by decide),
    @isWord_of_head _ 'f' (by decide) (by decide) (by decide) (by decide)⟩

/-- A source id is a fused row's for both. -/
theorem sourceId_fused (hrender : RendersJson render) (v : Option Json) :
    (v.bind (jsonText render)).getD "" ∈ ["@fused", "@fused-public"] ↔
      ((v.bind Json.string).map isFusedSourceId).getD false = true := by
  obtain ⟨-, hfused, hpublic, -⟩ := isWord_fused
  have hmem : ∀ o : Option String, o.getD "" ∈ ["@fused", "@fused-public"] ↔
      o = some "@fused" ∨ o = some "@fused-public" := by
    intro o
    cases o <;> simp
  have hcontains : ∀ o : Option String, (o.map isFusedSourceId).getD false = true ↔
      o = some "@fused" ∨ o = some "@fused-public" := by
    intro o
    cases o <;> simp [isFusedSourceId, fusedSourceIds]
  rw [hmem, hcontains, jsonText_eq_some hrender hfused, jsonText_eq_some hrender hpublic]

/-- A value is an object. -/
theorem jsonTypeof_object {v : Json} : jsonTypeof v = "object" ↔ (fieldsIn v).isSome = true := by
  cases v <;> simp [jsonTypeof, fieldsIn]

/-- A value is a string. -/
theorem jsonTypeof_string {v : Json} : jsonTypeof v = "string" ↔ v.string.isSome = true := by
  cases v <;> simp [jsonTypeof, Json.string]

/-- A value is an array. -/
theorem jsonTypeof_array {v : Json} : jsonTypeof v = "array" ↔ v.items.isSome = true := by
  cases v <;> simp [jsonTypeof, Json.items]

/-- The sources of a fusion with the ids of its records. -/
theorem merged_eq {merged ids : List Json} (hlength : merged.length = ids.length)
    (hobjects : ∀ source ∈ merged, (fieldsIn source).isSome = true) :
    merged.zipIdx.map (fun source =>
      concatJson source.1 (.obj [("recordId", (ids[source.2]?).getD .null)])) =
      merged.zipWith (fun source id => .obj (((fieldsIn source).getD []).put "recordId" id)) ids := by
  refine List.ext_getElem (by simp [hlength]) fun i hi _ => ?_
  have hi' : i < merged.length := by simpa using hi
  have hids : i < ids.length := hlength ▸ hi'
  have hobject := hobjects merged[i] (List.getElem_mem hi')
  simp only [List.getElem_map, List.getElem_zipIdx, Nat.zero_add, List.getElem_zipWith,
    List.getElem?_eq_getElem hids, Option.getD_some]
  cases hsource : merged[i] with
  | obj fields => rfl
  | null | bool | num | str | arr =>
    rw [hsource] at hobject
    cases hobject

/-- A fusion's credit as the database restores it, when all its parts have their kinds. -/
theorem fusion_agree_of_parts (hrender : RendersJson render) {ids merged : List Json}
    {method : Fields} {localId : String} (hmerged : itemsAt credit "mergedSources" = some merged)
    (hmethod : fieldsAt credit "derivedFrom" = some method) :
    (observationFusionProvenance render credit (.arr ids) (some localId)).map Fields.value =
      (restoreLineage credit (some localId) (.arr ids)).map Fields.value := by
  have hmergedType : (credit.get "mergedSources").map jsonTypeof = some "array" := by
    obtain ⟨v, hv, hitems⟩ := Option.bind_eq_some_iff.mp hmerged
    rw [hv, Option.map_some, Iff.mpr jsonTypeof_array (by rw [hitems]; rfl)]
  have hmethodType : (credit.get "derivedFrom").map jsonTypeof = some "object" := by
    obtain ⟨v, hv, hfields⟩ := Option.bind_eq_some_iff.mp hmethod
    rw [hv, Option.map_some, Iff.mpr jsonTypeof_object (by rw [hfields]; rfl)]
  obtain ⟨hderived, -, -, hfusion⟩ := isWord_fused
  have horigin := jsonText_eq_some hrender hderived (credit.get "origin")
  have hsource := sourceId_fused hrender (credit.get "sourceId")
  have hmethodWord := jsonText_eq_some hrender hfusion (method.get "method")
  have hstrings : (ids.any fun id => decide (jsonTypeof id ≠ "string")) = false ↔
      (ids.all fun id => id.string.isSome) = true := by
    simp [List.all_eq_true, jsonTypeof_string, Option.isSome_iff_ne_none]
  have hobjects : (merged.any fun source => decide (jsonTypeof source ≠ "object")) = false ↔
      (merged.all fun source => (fieldsIn source).isSome) = true := by
    simp [List.all_eq_true, jsonTypeof_object, Option.isSome_iff_ne_none]
  unfold observationFusionProvenance restoreLineage
  simp only [hmerged, hmethod, hmergedType, hmethodType, Option.bind_some, Option.map_some,
    Option.getD_some, asItems]
  split_ifs with hfirst hok hsecond hok hok
  · exfalso
    obtain ⟨-, -, -, -, horiginOk, hsourceOk, hmethodOk, hlocal⟩ := hok
    rcases hfirst with h | h | h | h | h | h | h
    · exact h (horigin.mpr horiginOk)
    · exact h (hsource.mpr hsourceOk)
    · exact h rfl
    · exact h (hmethodWord.mpr hmethodOk)
    · exact h rfl
    · exact h rfl
    · rw [hlocal] at h
      cases h
  · rfl
  · exfalso
    obtain ⟨hne, hids, hlength, hmergedObjects, -⟩ := hok
    rcases hsecond with h | h | h | h
    · exact hne (List.length_eq_zero_iff.mp h)
    · exact h hlength.symm
    · rw [hstrings.mpr hids] at h
      cases h
    · rw [hobjects.mpr hmergedObjects] at h
      cases h
  · rfl
  · obtain ⟨-, -, hlength, hmergedObjects, -⟩ := hok
    rw [merged_eq hlength (by simpa using hmergedObjects)]
    refine congrArg Except.ok (Fields.value_ext fun key => ?_)
    by_cases hd : "derivedFrom" = key
    · subst hd
      simp [concatJson, Fields.put, Fields.spread]
    · by_cases hm : "mergedSources" = key
      · subst hm
        simp
      · by_cases hr : "recordId" = key
        · simp [hd, hm, hr]
        · simp [hd, hm, hr]
  · refine absurd ?_ hok
    simp only [not_or, not_not, Bool.not_eq_true, Bool.not_eq_false] at hfirst hsecond
    obtain ⟨ho, hs, -, hm, -, -, hl⟩ := hfirst
    obtain ⟨hempty, hlen, hstring, hobject⟩ := hsecond
    exact ⟨fun heq => hempty (by rw [heq]; rfl), hstrings.mp hstring, hlen.symm,
      hobjects.mp hobject, horigin.mp ho, hsource.mp hs, hmethodWord.mp hm, hl⟩

/-- **The two restore a lineage alike**, and refuse the same. -/
theorem fusion_agree (hrender : RendersJson render) (ids : Json) (localId : Option String) :
    (observationFusionProvenance render credit ids localId).map Fields.value =
      (restoreLineage credit localId ids).map Fields.value := by
  have hrefused : ∀ {x : Except String Fields},
      ((credit.get "derivedFrom").map jsonTypeof ≠ some "object" ∨
        (credit.get "mergedSources").map jsonTypeof ≠ some "array" ∨
        jsonTypeof ids ≠ "array" ∨ localId = none) → x = .error invalidLineage →
      (observationFusionProvenance render credit ids localId).map Fields.value =
        x.map Fields.value := by
    intro x h hx
    unfold observationFusionProvenance
    rw [if_pos, hx]
    rcases h with h | h | h | h
    · exact Or.inr (Or.inr (Or.inl h))
    · exact Or.inr (Or.inr (Or.inr (Or.inr (Or.inl h))))
    · exact Or.inr (Or.inr (Or.inr (Or.inr (Or.inr (Or.inl h)))))
    · rw [h]
      exact Or.inr (Or.inr (Or.inr (Or.inr (Or.inr (Or.inr rfl)))))
  cases localId with
  | none =>
    refine hrefused (Or.inr (Or.inr (Or.inr rfl))) ?_
    unfold restoreLineage
    split
    · next heq => cases heq
    · rfl
  | some localId =>
    cases hmerged : itemsAt credit "mergedSources" with
    | none =>
      refine hrefused (Or.inr (Or.inl fun h => ?_)) (by
        unfold restoreLineage
        rw [hmerged]
        cases ids <;> rfl)
      obtain ⟨v, hv, htype⟩ := Option.map_eq_some_iff.mp h
      have hitems := Iff.mp jsonTypeof_array htype
      rw [itemsAt, hv, Option.bind_some] at hmerged
      rw [hmerged] at hitems
      cases hitems
    | some merged =>
      cases hmethod : fieldsAt credit "derivedFrom" with
      | none =>
        refine hrefused (Or.inl fun h => ?_) (by
          unfold restoreLineage
          rw [hmerged, hmethod]
          cases ids <;> rfl)
        obtain ⟨v, hv, htype⟩ := Option.map_eq_some_iff.mp h
        have hfields := Iff.mp jsonTypeof_object htype
        rw [fieldsAt, hv, Option.bind_some] at hmethod
        rw [hmethod] at hfields
        cases hfields
      | some method =>
        cases hids : ids with
        | arr items =>
          rw [hids] at *
          exact fusion_agree_of_parts hrender hmerged hmethod
        | null | bool | num | str | obj =>
          rw [← hids]
          refine hrefused (Or.inr (Or.inr (Or.inl ?_))) (by
            unfold restoreLineage
            rw [hids])
          rw [hids]
          simp [jsonTypeof]

end Agree

/-- A namespace of the grammar is normal. -/
theorem normalizeNamespace_of_isNamespace {ops : UnicodeOps} {ns : String}
    (h : isNamespace ns.toList = true) : normalizeNamespace ops ns = ns := by
  simp only [isNamespace, Bool.and_eq_true] at h
  obtain ⟨htrim, hnfc, hlower⟩ := ops.plain ns h.1.1
  rw [normalizeNamespace, htrim, hnfc, hlower, hnfc]

/-- A template and a reading in a stored form: the namespace is of the grammar of record ids, the
provenances are objects and the reading has an id. -/
structure StoredParts (template reading : Fields) : Prop where
  ns : ∃ ns, template.get "namespace" = some (.str ns) ∧ isNamespace ns.toList = true
  provenance : ∃ provenance, template.get "provenance" = some (.obj provenance)
  id : ∃ id, reading.get "id" = some (.str id)
  varying : ∀ v, reading.get "provenance" = some v → ∃ fields, v = .obj fields

/-- **The two decoders agree**: on every template and reading they give the same record, or refuse
the same lineage. -/
theorem observationRecord_eq_recordOf {render : Json → String}
    (hrender : RendersJson render) (ops : UnicodeOps) (sha256Hex : String → String)
    {template reading : Fields} (h : StoredParts template reading) :
    (observationRecord render sha256Hex template reading).map Fields.value =
      (recordOf (canonicalIdOf ops sha256Hex) template reading).map Fields.value := by
  obtain ⟨ns, hns, hgrammar⟩ := h.ns
  obtain ⟨provenance, hprovenance⟩ := h.provenance
  obtain ⟨id, hid⟩ := h.id
  obtain ⟨varying, hvarying, hvaryingFields⟩ : ∃ varying,
      (reading.get "provenance").getD (.obj []) = .obj varying ∧
        (fieldsAt reading "provenance").getD [] = varying := by
    cases hget : reading.get "provenance" with
    | none => exact ⟨[], rfl, by rw [fieldsAt, hget]; rfl⟩
    | some v =>
      obtain ⟨fields, rfl⟩ := h.varying v hget
      exact ⟨fields, rfl, by rw [fieldsAt, hget]; rfl⟩
  set credit := Fields.spread provenance varying with hcredit
  have hown : textAt (reading.without ["provenance", "_ocFusionRecordIds"]) "id" = some id := by
    simp [textAt, hid, Json.string]
  have hsqlId : (reading.get "id").bind (jsonText render) = some id := by rw [hid]; rfl
  have hfinal : ∀ restored restored' : Fields, restored.value = restored'.value →
      Fields.value ((((template.without ["namespace", "provenance"]).spread
        (reading.without ["provenance", "_ocFusionRecordIds"])).spread
          [("provenance", .obj restored)]).spread
            (if isLocalObservationId id then
              [("id", .str ("oc:observation:" ++ ns ++ ":" ++ id)), ("canonicalId",
                .str (sha256Hex ("[" ++ quoteJson ns ++ "," ++ quoteJson id ++ "]")))]
            else [])) =
        Fields.value (((template.without ["namespace", "provenance"]).spread
          (if isLocalObservationId id then
            ((reading.without ["provenance", "_ocFusionRecordIds"]).put "id"
              (.str ("oc:observation:" ++ ns ++ ":" ++ id))).put "canonicalId"
                (.str (canonicalIdOf ops sha256Hex ns id))
          else reading.without ["provenance", "_ocFusionRecordIds"])).put "provenance"
            (.obj restored')) := by
    intro restored restored' hvalue
    have hobj : (Json.obj restored).value = (Json.obj restored').value := hvalue
    have hcanonical : canonicalIdOf ops sha256Hex ns id =
        sha256Hex ("[" ++ quoteJson ns ++ "," ++ quoteJson id ++ "]") := by
      rw [canonicalIdOf, normalizeNamespace_of_isNamespace hgrammar]
    refine Fields.value_ext fun key => ?_
    by_cases hp : "provenance" = key
    · subst hp
      split_ifs <;> simp [hobj]
    · split_ifs
      · by_cases hi : "id" = key
        · subst hi
          simp [hp]
        · by_cases hc : "canonicalId" = key
          · subst hc
            simp [hcanonical]
          · simp [hp, hi, hc]
      · simp [hp]
  have hnsText : textAt template "namespace" = some ns := by rw [textAt, hns]; rfl
  have hfields : fieldsAt template "provenance" = some provenance := by
    rw [fieldsAt, hprovenance]
    rfl
  unfold observationRecord recordOf
  simp only [hown, hnsText, hfields, hprovenance, hns, hsqlId, hvarying, hvaryingFields,
    Option.map_some, Option.getD_some, Option.bind_some, concatJson, jsonText, fieldsIn,
    withRecordId, ← hcredit]
  cases hlineage : reading.get "_ocFusionRecordIds" with
  | none => exact congrArg Except.ok (hfinal credit credit rfl)
  | some ids =>
    have hagree := @fusion_agree render credit hrender ids (some id)
    cases hts : restoreLineage credit (some id) ids with
    | error e =>
      cases hsql : observationFusionProvenance render credit ids (some id) with
      | error e' =>
        rw [hts, hsql] at hagree
        cases hagree
        simp only [hsql, hts, bind, Except.bind]
      | ok restored =>
        rw [hts, hsql] at hagree
        cases hagree
    | ok restored' =>
      cases hsql : observationFusionProvenance render credit ids (some id) with
      | error e' =>
        rw [hts, hsql] at hagree
        cases hagree
      | ok restored =>
        rw [hts, hsql] at hagree
        simp only [hsql, hts, bind, Except.bind]
        exact congrArg Except.ok (hfinal restored restored' (Except.ok.inj hagree))

/-! ## A fused reading -/

/-- The template of a fused series. -/
def fusedTemplate : Fields :=
  [("namespace", .str "de-ndw"), ("class", .str "observation"),
    ("provenance", .obj [("origin", .str "derived"), ("sourceId", .str "@fused"),
      ("mergedSources", .arr [.obj [("source", .str "de-ndw")]]),
      ("derivedFrom", .obj [("method", .str "fusion"), ("version", .str "1")])])]

/-- A reading of it, in compact form. -/
def fusedReading : Fields :=
  [("id", .str zeroId), ("_ocFusionRecordIds", .arr [.str "oc:observation:de-ndw:a"])]

/-- Texts that begin as JSON has them begin. -/
def shortRender : Json → String
  | .num _ => "0"
  | .arr _ => "[]"
  | .obj _ => "\x7b\x7d"
  | _ => ""

/-- The operations on plain strings. -/
def plainOps : UnicodeOps := ⟨id, id, id, fun _ _ => ⟨rfl, rfl, rfl⟩⟩

/-- A fused lineage is restored alike. -/
theorem observationRecord_eq_recordOf_sample :
    (observationRecord shortRender
      (fun _ => "a78260a617f225d0dc47993c09644b1d93c04e70dce4a6d6d9585d0ceee6a394")
      fusedTemplate fusedReading).map Fields.value =
    (recordOf (canonicalIdOf plainOps
      (fun _ => "a78260a617f225d0dc47993c09644b1d93c04e70dce4a6d6d9585d0ceee6a394"))
      fusedTemplate fusedReading).map Fields.value := by
  refine observationRecord_eq_recordOf ⟨fun q => ⟨'0', ?_, Or.inr ?_⟩, fun items => ?_,
    fun fields => ?_⟩ _ _ ⟨⟨"de-ndw", rfl, ?_⟩, ⟨_, rfl⟩, ⟨_, rfl⟩, fun v hv => ?_⟩
  · simp [shortRender]
  · decide
  · simp [shortRender]
  · simp [shortRender]
  · decide
  · cases hv

end OpenConditions.Core

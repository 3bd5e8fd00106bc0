import Mathlib.Data.List.Dedup
import Mathlib.Data.List.Perm.Subperm
import OpenConditions.Core.FieldValues

set_option relaxedAutoImplicit false
set_option autoImplicit false

/-!
# The stored form loses nothing

An observation that is split into a template and a reading is put together again, also when the
template is that of another reading with an equal one.

## Main definitions

* `StoredObservation` — what the schema says of the fields of a stored observation.

## Main results

* `recordOf_templateOf_readingOf` — the two parts of an observation are that observation.
-/

namespace OpenConditions.Core

/-! ## Stored observations -/

/-- The fields of a stored observation. -/
def observationKeys : List String :=
  ["id", "temporality", "externalIds", "location", "relations", "provenance", "freshness", "extras",
    "canonicalId", "domain", "contentHash", "revision", "recordedAt", "tombstone", "evidence",
    "class", "kind", "property", "subject", "qualifiers", "result", "phenomenonTime", "resultTime",
    "validUntil", "aggregation", "forecast", "quality", "baseline", "sinceAt"]

/-- **What the schema says of a stored observation**: it has no other fields, its id is a record id
and its provenance is an object. -/
structure StoredObservation (r : Fields) : Prop where
  keys : ∀ key v, r.get key = some v → key ∈ observationKeys
  id : ∃ id p, r.get "id" = some (.str id) ∧ parseRecordId id = some p
  provenance : ∃ p, r.get "provenance" = some (.obj p)

/-- A record id is no hash. -/
theorem isLocalObservationId_recordId {id : String} {p : RecordIdParts}
    (h : parseRecordId id = some p) : isLocalObservationId id = false := by
  have hcolon : ':' ∈ id.toList := by
    rw [← formatRecordId_parseRecordId h, toList_formatRecordId]
    exact List.mem_append_right _ (List.mem_cons_self ..)
  rw [isLocalObservationId, Bool.and_eq_false_iff]
  refine Or.inr (Bool.eq_false_iff.mpr fun hall => ?_)
  exact absurd (List.all_eq_true.mp hall ':' hcolon) (by decide)

/-! ## The parts of an observation -/

section Parts

variable {canonicalIdOf : String → String → String} {r p : Fields} {key : String}

/-- A template holds the fields of its keys. -/
theorem get_templateOf (hkey : key ≠ "namespace") : (templateOf canonicalIdOf r).get key =
    if key ∈ templateKeys then r.get key
    else if "provenance" = key then
      some (.obj (sharedProvenance canonicalIdOf r ((fieldsAt r "provenance").getD [])))
    else none := by
  unfold templateOf
  rw [Fields.get_append, Fields.get_append, Fields.get_given, if_neg (Ne.symm hkey),
    Fields.get_flatMap_given, Option.none_or]
  by_cases hin : key ∈ templateKeys
  · have hne : ¬"provenance" = key := by
      rintro rfl
      exact absurd hin (by decide)
    rw [if_pos hin, if_pos hin, Fields.get_cons, if_neg hne, Fields.get_nil, Option.or_none]
  · rw [if_neg hin, if_neg hin, Option.none_or, Fields.get_cons, Fields.get_nil]

/-- A template holds the namespace of the id. -/
theorem get_templateOf_namespace {id : String} {parts : RecordIdParts}
    (hid : r.get "id" = some (.str id)) (hparts : parseRecordId id = some parts) :
    (templateOf canonicalIdOf r).get "namespace" = some (.str parts.ns) := by
  have htext : textAt r "id" = some id := by rw [textAt, hid]; rfl
  unfold templateOf
  rw [Fields.get_append, Fields.get_append, Fields.get_given, if_pos rfl, htext, Option.bind_some,
    hparts]
  rfl

/-- A field of those that vary. -/
theorem get_varyingOf :
    (varyingOf p).get key = if key ∈ varyingProvenance p then p.get key else none :=
  Fields.get_flatMap_given

/-- The reading of an observation before its identity. -/
def plainReading (r : Fields) : Fields :=
  let own := r.without (templateKeys ++ ["provenance"])
  let varying := varyingOf ((fieldsAt r "provenance").getD [])
  if varying = [] then own else own.put "provenance" (.obj varying)

/-- A reading is its plain form with its identity and its lineage. -/
theorem readingOf_eq : readingOf canonicalIdOf r =
    withLineage (fusionRecordIds canonicalIdOf r)
      (withLocalId (derivedId canonicalIdOf r) (plainReading r)) := rfl

/-- A field of a reading besides its provenance, its identity and its lineage. -/
theorem get_readingOf (hid : key ≠ "id") (hcanonical : key ≠ "canonicalId")
    (hlineage : key ≠ "_ocFusionRecordIds") (hprovenance : key ≠ "provenance") :
    (readingOf canonicalIdOf r).get key = if key ∈ templateKeys then none else r.get key := by
  have hplain : (plainReading r).get key = if key ∈ templateKeys then none else r.get key := by
    unfold plainReading
    simp only
    split_ifs <;> simp_all [Ne.symm hprovenance]
  rw [readingOf_eq]
  cases derivedId canonicalIdOf r <;> cases fusionRecordIds canonicalIdOf r <;>
    simp [withLocalId, withLineage, hplain, Ne.symm hid, hcanonical, Ne.symm hlineage]

/-- The provenance of a reading. -/
theorem provenance_readingOf (hp : r.get "provenance" = some (.obj p)) :
    (fieldsAt (readingOf canonicalIdOf r) "provenance").getD [] = varyingOf p := by
  have hfields : (fieldsAt r "provenance").getD [] = p := by rw [fieldsAt, hp]; rfl
  have hplain : (plainReading r).get "provenance" =
      if varyingOf p = [] then none else some (.obj (varyingOf p)) := by
    unfold plainReading
    simp only [hfields]
    split_ifs <;> simp
  have hget : (readingOf canonicalIdOf r).get "provenance" =
      if varyingOf p = [] then none else some (.obj (varyingOf p)) := by
    rw [readingOf_eq]
    cases derivedId canonicalIdOf r <;> cases fusionRecordIds canonicalIdOf r <;>
      simp [withLocalId, withLineage, hplain]
  rw [fieldsAt, hget]
  split_ifs with hempty
  · exact hempty.symm
  · rfl

/-- The lineage of a reading. -/
theorem lineage_readingOf (h : StoredObservation r) :
    (readingOf canonicalIdOf r).get "_ocFusionRecordIds" =
      (fusionRecordIds canonicalIdOf r).map fun ids => .arr (ids.map .str) := by
  have hnone : r.get "_ocFusionRecordIds" = none := by
    cases hget : r.get "_ocFusionRecordIds" with
    | none => rfl
    | some v => exact absurd (h.keys _ v hget) (by decide)
  have hplain : (plainReading r).get "_ocFusionRecordIds" = none := by
    unfold plainReading
    simp only
    split_ifs <;> simp [hnone]
  rw [readingOf_eq]
  cases derivedId canonicalIdOf r <;> cases fusionRecordIds canonicalIdOf r <;>
    simp [withLocalId, withLineage, hplain]

/-- The id and the canonical id of a reading. -/
theorem identity_readingOf : (readingOf canonicalIdOf r).get "id" =
      (derivedId canonicalIdOf r).elim (r.get "id") (fun id => some (.str id.localId)) ∧
    (readingOf canonicalIdOf r).get "canonicalId" =
      (derivedId canonicalIdOf r).elim (r.get "canonicalId") fun _ => none := by
  have hid : (plainReading r).get "id" = r.get "id" := by
    unfold plainReading
    simp only
    split_ifs <;> simp [templateKeys]
  have hcanonical : (plainReading r).get "canonicalId" = r.get "canonicalId" := by
    unfold plainReading
    simp only
    split_ifs <;> simp [templateKeys]
  rw [readingOf_eq]
  cases derivedId canonicalIdOf r <;> cases fusionRecordIds canonicalIdOf r <;>
    simp [withLocalId, withLineage, hid, hcanonical]

end Parts

/-! ## Restoring a lineage -/

section Lineage

/-- An object with the two fields of a reference to an observation is that reference. -/
theorem ref_value {ref : Fields} {id : String} (hclass : textAt ref "class" = some "observation")
    (hid : textAt ref "id" = some id) (hkeys : (ref.map Prod.fst).dedup.length = 2) :
    (Json.obj [("class", .str "observation"), ("id", .str id)]).value = (Json.obj ref).value := by
  refine Fields.value_ext fun key => ?_
  have hgetClass := get_of_textAt hclass
  have hgetId := get_of_textAt hid
  by_cases hc : "class" = key
  · subst hc
    simp [hgetClass]
  · by_cases hi : "id" = key
    · subst hi
      simp [hgetId]
    · -- A third key would be a third member of the keys.
      have hnone : ref.get key = none := by
        by_contra hsome
        obtain ⟨v, hv⟩ := Option.ne_none_iff_exists'.mp hsome
        have hmem : ∀ {k v}, ref.get k = some v → k ∈ (ref.map Prod.fst).dedup := by
          intro k v hget
          exact List.mem_dedup.mpr (List.mem_map_of_mem (Fields.mem_of_get hget))
        have hsub : [key, "class", "id"] ⊆ (ref.map Prod.fst).dedup := by
          intro k hk
          simp only [List.mem_cons, List.not_mem_nil, or_false] at hk
          rcases hk with rfl | rfl | rfl
          · exact hmem hv
          · exact hmem hgetClass
          · exact hmem hgetId
        have hnodup : [key, "class", "id"].Nodup := by
          simp [Ne.symm hc, Ne.symm hi]
        have hle := (hnodup.subperm hsub).length_le
        rw [hkeys] at hle
        simp at hle
      simp [hc, hi, hnone]

/-- A source with its record id in place again. -/
theorem source_value {source shared : Fields} {id : String} (hid : textAt source "recordId" = some id)
    (hshared : shared.value = Fields.value (source.without ["recordId"])) :
    (Json.obj (shared.put "recordId" (.str id))).value = (Json.obj source).value := by
  refine Fields.value_ext fun key => ?_
  by_cases hr : "recordId" = key
  · subst hr
    simp [get_of_textAt hid]
  · have hkey := Fields.get_of_value hshared key
    rw [Fields.get_without, if_neg (by simpa using Ne.symm hr)] at hkey
    rw [Fields.get_put, if_neg hr, hkey]

/-- A merged source and its reference are objects that the lineage's id restores. -/
theorem lineageId_eq_some {source ref : Json} {id : String} (h : lineageId (source, ref) = some id) :
    ∃ s r, source = .obj s ∧ ref = .obj r ∧ textAt s "recordId" = some id ∧
      textAt r "class" = some "observation" ∧ textAt r "id" = some id ∧
        (r.map Prod.fst).dedup.length = 2 := by
  cases source with
  | obj s =>
    cases ref with
    | obj r =>
      obtain ⟨id', hid', h⟩ := Option.bind_eq_some_iff.mp h
      split_ifs at h with hcond
      obtain rfl := Option.some.inj h
      exact ⟨s, r, rfl, rfl, hid', hcond⟩
    | null | bool | num | str | arr => cases h
  | null | bool | num | str | arr => cases h

/-- **The ids of a lineage restore the merged sources and the references**, from sources that say what
the template keeps of them. -/
theorem lineage_value {merged refs : List Json} {ids : List String}
    (hlength : refs.length = merged.length) (h : (merged.zip refs).mapM lineageId = some ids) :
    ids.length = merged.length ∧
    ((ids.map Json.str).map fun id =>
      Json.obj [("class", .str "observation"), ("id", id)]).map Json.value = refs.map Json.value ∧
    ∀ shared : List Json,
      shared.map Json.value = (merged.map (withoutIn ["recordId"])).map Json.value →
      (∀ source ∈ shared, (fieldsIn source).isSome = true) ∧
      (shared.zipWith (fun source id => Json.obj (((fieldsIn source).getD []).put "recordId" id))
        (ids.map Json.str)).map Json.value = merged.map Json.value := by
  induction merged generalizing refs ids with
  | nil =>
    obtain rfl := List.length_eq_zero_iff.mp hlength
    obtain rfl := Option.some.inj h
    refine ⟨rfl, rfl, fun shared hshared => ?_⟩
    obtain rfl : shared = [] := by simpa using hshared
    exact ⟨fun _ => (absurd · List.not_mem_nil), rfl⟩
  | cons source merged ih =>
    cases refs with
    | nil => cases hlength
    | cons ref refs =>
      rw [List.zip_cons_cons, List.mapM_cons] at h
      obtain ⟨id, hid, h⟩ := Option.bind_eq_some_iff.mp h
      obtain ⟨rest, hrest, h⟩ := Option.bind_eq_some_iff.mp h
      obtain rfl := Option.some.inj h
      obtain ⟨s, r, rfl, rfl, hsId, hrClass, hrId, hrKeys⟩ := lineageId_eq_some hid
      obtain ⟨hlen, hrefs, hsources⟩ := ih (Nat.succ.inj hlength) hrest
      refine ⟨congrArg Nat.succ hlen, ?_, fun shared hshared => ?_⟩
      · rw [List.map_cons, List.map_cons, List.map_cons, List.map_cons, ref_value hrClass hrId hrKeys,
          hrefs]
      · cases shared with
        | nil => cases hshared
        | cons first shared =>
          obtain ⟨hfirst, hrestShared⟩ := List.cons.inj hshared
          obtain ⟨f, rfl, hf⟩ := Json.eq_obj hfirst
          obtain ⟨hobjects, hvalues⟩ := hsources shared hrestShared
          constructor
          · intro source hsource
            rcases List.mem_cons.mp hsource with rfl | hsource
            · rfl
            · exact hobjects source hsource
          · rw [List.map_cons, List.zipWith_cons_cons, List.map_cons, List.map_cons, hvalues]
            exact congrArg (· :: _) (source_value hsId hf)

end Lineage

/-! ## The round trip -/

section RoundTrip

variable {canonicalIdOf : String → String → String} {r p t : Fields} {parts : RecordIdParts}
  {id : String}

/-- An observation with derived identities has the ids that its local id stands for. -/
theorem derivedId_eq_some {d : RecordIdParts} (hid : r.get "id" = some (.str id))
    (hparts : parseRecordId id = some parts) (h : derivedId canonicalIdOf r = some d) :
    d = parts ∧ isLocalObservationId d.localId = true ∧
      id = "oc:observation:" ++ d.ns ++ ":" ++ d.localId ∧
        r.get "canonicalId" = some (.str (canonicalIdOf d.ns d.localId)) := by
  have htext : textAt r "id" = some id := by rw [textAt, hid]; rfl
  obtain ⟨d', hd', h⟩ := Option.bind_eq_some_iff.mp h
  rw [htext, Option.bind_some, hparts] at hd'
  obtain rfl := Option.some.inj hd'
  split_ifs at h with hcond
  obtain rfl := Option.some.inj h
  refine ⟨rfl, hcond.2.1, ?_, get_of_textAt hcond.2.2⟩
  rw [← formatRecordId_parseRecordId hparts]
  apply String.toList_injective
  have hoc : "oc:observation:".toList = "oc".toList ++ ':' :: ("observation".toList ++ [':']) := by
    decide
  have hcolon : ":".toList = [':'] := by decide
  rw [toList_formatRecordId, hcond.1]
  simp only [String.toList_append, hoc, hcolon, List.append_assoc, List.cons_append,
    List.nil_append]

/-- The fields of a reading with the ids that its local id stands for. -/
theorem get_withRecordId (h : StoredObservation r) (hid : r.get "id" = some (.str id))
    (hparts : parseRecordId id = some parts) :
    let own := (readingOf canonicalIdOf r).without ["provenance", "_ocFusionRecordIds"]
    ∀ key, (withRecordId canonicalIdOf parts.ns (textAt own "id") own).get key =
      if key = "provenance" ∨ key ∈ templateKeys then none else r.get key := by
  intro own key
  have hown : ∀ key, own.get key = if key = "provenance" ∨ key = "_ocFusionRecordIds" then none
      else (readingOf canonicalIdOf r).get key := by
    intro key
    simp only [own, Fields.get_without, List.mem_cons, List.not_mem_nil, or_false]
  have hplain : key ≠ "id" → key ≠ "canonicalId" →
      own.get key = if key = "provenance" ∨ key ∈ templateKeys then none else r.get key := by
    intro hkeyId hkeyCanonical
    rw [hown]
    by_cases hprovenance : key = "provenance"
    · rw [if_pos (Or.inl hprovenance), if_pos (Or.inl hprovenance)]
    · by_cases hlineage : key = "_ocFusionRecordIds"
      · rw [if_pos (Or.inr hlineage)]
        cases hget : r.get key with
        | none => rw [ite_self]
        | some v =>
          rw [hlineage] at hget
          exact absurd (h.keys _ v hget) (by decide)
      · rw [if_neg (by simp [hprovenance, hlineage]),
          get_readingOf hkeyId hkeyCanonical hlineage hprovenance]
        simp [hprovenance]
  have hownId : own.get "id" = (readingOf canonicalIdOf r).get "id" := by rw [hown]; rfl
  have hownCanonical : own.get "canonicalId" = (readingOf canonicalIdOf r).get "canonicalId" := by
    rw [hown]
    rfl
  have hcond : ∀ key, (key = "id" ∨ key = "canonicalId") →
      ¬(key = "provenance" ∨ key ∈ templateKeys) := by
    rintro key (rfl | rfl) <;> decide
  cases hderived : derivedId canonicalIdOf r with
  | none =>
    have hlocal : textAt own "id" = some id := by
      rw [textAt, hownId, identity_readingOf.1, hderived, Option.elim_none, hid]
      rfl
    have hsame : withRecordId canonicalIdOf parts.ns (textAt own "id") own = own := by
      rw [hlocal, withRecordId, if_neg (by rw [isLocalObservationId_recordId hparts]; decide)]
    rw [hsame]
    by_cases hkeyId : key = "id"
    · subst hkeyId
      rw [if_neg (hcond _ (Or.inl rfl)), hownId, identity_readingOf.1, hderived, Option.elim_none]
    · by_cases hkeyCanonical : key = "canonicalId"
      · subst hkeyCanonical
        rw [if_neg (hcond _ (Or.inr rfl)), hownCanonical, identity_readingOf.2, hderived,
          Option.elim_none]
      · exact hplain hkeyId hkeyCanonical
  | some d =>
    obtain ⟨rfl, hlocal, hformat, hcanonical⟩ := derivedId_eq_some hid hparts hderived
    have htext : textAt own "id" = some d.localId := by
      rw [textAt, hownId, identity_readingOf.1, hderived]
      rfl
    have hput : withRecordId canonicalIdOf d.ns (textAt own "id") own =
        (own.put "id" (.str ("oc:observation:" ++ d.ns ++ ":" ++ d.localId))).put "canonicalId"
          (.str (canonicalIdOf d.ns d.localId)) := by
      rw [htext, withRecordId, if_pos hlocal]
    rw [hput, Fields.get_put, Fields.get_put]
    by_cases hkeyCanonical : "canonicalId" = key
    · rw [if_pos hkeyCanonical, if_neg (hcond key (Or.inr hkeyCanonical.symm)), ← hkeyCanonical,
        hcanonical]
    · rw [if_neg hkeyCanonical]
      by_cases hkeyId : "id" = key
      · rw [if_pos hkeyId, if_neg (hcond key (Or.inl hkeyId.symm)), ← hkeyId, hid, hformat]
      · rw [if_neg hkeyId]
        exact hplain (Ne.symm hkeyId) (Ne.symm hkeyCanonical)

/-- The shared fields, the reading's own and the provenance are the observation. -/
theorem value_of_parts (ht : t.value = (templateOf canonicalIdOf r).value)
    {identified restored : Fields} (hp : r.get "provenance" = some (.obj p))
    (hidentified : ∀ key, identified.get key =
      if key = "provenance" ∨ key ∈ templateKeys then none else r.get key)
    (hrestored : restored.value = p.value) :
    Fields.value (((t.without ["namespace", "provenance"]).spread identified).put "provenance"
      (.obj restored)) = r.value := by
  refine Fields.value_ext fun key => ?_
  rw [Fields.get_put]
  by_cases hprovenance : "provenance" = key
  · rw [if_pos hprovenance, ← hprovenance, hp]
    exact congrArg some hrestored
  · rw [if_neg hprovenance, Fields.get_spread, hidentified, Fields.get_without]
    by_cases hnamespace : key = "namespace"
    · subst hnamespace
      rw [if_neg (by decide), if_pos (by decide), Option.or_none]
    · rw [if_neg (by simp [hnamespace, Ne.symm hprovenance] : ¬key ∈ ["namespace", "provenance"])]
      have htemplate := Fields.get_of_value ht key
      rw [get_templateOf hnamespace, if_neg hprovenance] at htemplate
      by_cases hkeys : key ∈ templateKeys
      · rw [if_pos (Or.inr hkeys), Option.none_or, htemplate, if_pos hkeys]
      · rw [if_neg hkeys, Option.map_none, Option.map_eq_none_iff] at htemplate
        rw [if_neg (by simp [hkeys, Ne.symm hprovenance]), htemplate, Option.or_none]

/-- A provenance without a lineage is put together again. -/
theorem credit_value {shared : Fields}
    (hshared : shared.value = Fields.value (p.without (varyingProvenance p))) :
    Fields.value (shared.spread (varyingOf p)) = p.value := by
  refine Fields.value_ext fun key => ?_
  have hkey := Fields.get_of_value hshared key
  rw [Fields.get_spread, get_varyingOf]
  rw [Fields.get_without] at hkey
  by_cases hvarying : key ∈ varyingProvenance p
  · rw [if_pos hvarying] at hkey ⊢
    rw [Option.map_none, Option.map_eq_none_iff] at hkey
    rw [hkey, Option.or_none]
  · rw [if_neg hvarying] at hkey ⊢
    rw [Option.none_or, hkey]

/-- What a fusion is, from the ids that are kept of it. -/
theorem fusionRecordIds_eq_some {ids : List String} (hp : r.get "provenance" = some (.obj p))
    (h : fusionRecordIds canonicalIdOf r = some ids) :
    ∃ sourceId d merged derivation refs, textAt p "sourceId" = some sourceId ∧
      derivedId canonicalIdOf r = some d ∧ itemsAt p "mergedSources" = some merged ∧
      fieldsAt p "derivedFrom" = some derivation ∧ itemsAt derivation "records" = some refs ∧
      textAt p "origin" = some "derived" ∧ isFusedSourceId sourceId = true ∧
      textAt p "recordId" = some d.localId ∧ merged ≠ [] ∧
      textAt derivation "method" = some "fusion" ∧ refs.length = merged.length ∧
      (merged.zip refs).mapM lineageId = some ids := by
  obtain ⟨p', hp', h⟩ := Option.bind_eq_some_iff.mp h
  obtain rfl : p = p' := by
    rw [fieldsAt, hp] at hp'
    exact Option.some.inj hp'
  obtain ⟨sourceId, hsource, h⟩ := Option.bind_eq_some_iff.mp h
  obtain ⟨d, hd, h⟩ := Option.bind_eq_some_iff.mp h
  obtain ⟨merged, hmerged, h⟩ := Option.bind_eq_some_iff.mp h
  obtain ⟨derivation, hderivation, h⟩ := Option.bind_eq_some_iff.mp h
  obtain ⟨refs, hrefs, h⟩ := Option.bind_eq_some_iff.mp h
  split_ifs at h with hcond
  obtain ⟨horigin, hfused, hrecord, hne, hmethod, hlength⟩ := hcond
  exact ⟨sourceId, d, merged, derivation, refs, hsource, hd, hmerged, hderivation, hrefs, horigin,
    hfused, hrecord, hne, hmethod, hlength, h⟩

/-- The fields of a fused record's provenance that the template holds. -/
theorem get_sharedProvenance_fused {ids : List String}
    (h : fusionRecordIds canonicalIdOf r = some ids) (key : String) :
    (sharedProvenance canonicalIdOf r p).get key =
      if "derivedFrom" = key then
        some (.obj (((fieldsAt p "derivedFrom").getD []).without ["records"]))
      else if "mergedSources" = key then
        some (.arr (((itemsAt p "mergedSources").getD []).map (withoutIn ["recordId"])))
      else if key ∈ "recordId" :: varyingProvenance p then none
      else p.get key := by
  unfold sharedProvenance
  simp only [h, Fields.get_put, Fields.get_without, List.mem_cons, List.not_mem_nil, or_false]
  split_ifs <;> simp_all

/-- **The lineage of a fused record is restored** from the ids in its reading and what the template
keeps of its provenance. -/
theorem restoreLineage_value {ids : List String} {shared : Fields}
    (hp : r.get "provenance" = some (.obj p)) (h : fusionRecordIds canonicalIdOf r = some ids)
    (hshared : shared.value = (sharedProvenance canonicalIdOf r p).value) :
    ∃ d restored, derivedId canonicalIdOf r = some d ∧
      restoreLineage (shared.spread (varyingOf p)) (some d.localId) (.arr (ids.map .str)) =
        .ok restored ∧ restored.value = p.value := by
  obtain ⟨sourceId, d, merged, derivation, refs, hsource, hd, hmerged, hderivation, hrefs, horigin,
    hfused, hrecord, hne, hmethod, hlength, hids⟩ := fusionRecordIds_eq_some hp h
  have hvarying : varyingProvenance p = varyingOfAny := by
    rw [varyingProvenance, if_neg (by rw [horigin]; decide)]
  have hlocal : isLocalObservationId d.localId = true := by
    obtain ⟨d', -, hcond⟩ := Option.bind_eq_some_iff.mp hd
    split_ifs at hcond with hif
    obtain rfl := Option.some.inj hcond
    exact hif.2.1
  -- The fields of the credit, besides those that the reading holds.
  have hcredit : ∀ key, key ∉ varyingOfAny →
      (shared.spread (varyingOf p)).get key = shared.get key := by
    intro key hkey
    rw [Fields.get_spread, get_varyingOf, hvarying, if_neg hkey, Option.none_or]
  have hget : ∀ key, (shared.get key).map Json.value =
      ((sharedProvenance canonicalIdOf r p).get key).map Json.value := Fields.get_of_value hshared
  have htext : ∀ key s, key ∉ ["derivedFrom", "mergedSources", "recordId"] → key ∉ varyingOfAny →
      textAt p key = some s → textAt (shared.spread (varyingOf p)) key = some s := by
    intro key s hkey hkeyVarying hs
    simp only [List.mem_cons, List.not_mem_nil, or_false, not_or] at hkey
    have hkeyGet := hget key
    rw [get_sharedProvenance_fused h, if_neg (Ne.symm hkey.1), if_neg (Ne.symm hkey.2.1),
      if_neg (by rw [hvarying]; simp [hkey.2.2, hkeyVarying]), get_of_textAt hs, Option.map_some]
      at hkeyGet
    obtain ⟨v, hv, hvalue⟩ := Option.map_eq_some_iff.mp hkeyGet
    rw [textAt, hcredit key hkeyVarying, hv, Json.eq_str hvalue]
    rfl
  obtain ⟨ms, hms, hmsValue⟩ : ∃ ms, itemsAt (shared.spread (varyingOf p)) "mergedSources" = some ms ∧
      ms.map Json.value = (merged.map (withoutIn ["recordId"])).map Json.value := by
    have hkeyGet := hget "mergedSources"
    rw [get_sharedProvenance_fused h, if_neg (by decide), if_pos rfl, hmerged, Option.getD_some,
      Option.map_some] at hkeyGet
    obtain ⟨v, hv, hvalue⟩ := Option.map_eq_some_iff.mp hkeyGet
    obtain ⟨ms, rfl, hms⟩ := Json.eq_arr hvalue
    exact ⟨ms, by rw [itemsAt, hcredit _ (by decide), hv]; rfl, hms⟩
  obtain ⟨m, hm, hmValue⟩ : ∃ m, fieldsAt (shared.spread (varyingOf p)) "derivedFrom" = some m ∧
      m.value = Fields.value (derivation.without ["records"]) := by
    have hkeyGet := hget "derivedFrom"
    rw [get_sharedProvenance_fused h, if_pos rfl, hderivation, Option.getD_some, Option.map_some]
      at hkeyGet
    obtain ⟨v, hv, hvalue⟩ := Option.map_eq_some_iff.mp hkeyGet
    obtain ⟨m, rfl, hm⟩ := Json.eq_obj hvalue
    exact ⟨m, by rw [fieldsAt, hcredit _ (by decide), hv]; rfl, hm⟩
  have hmMethod : textAt m "method" = some "fusion" := by
    have hkeyGet := Fields.get_of_value hmValue "method"
    rw [Fields.get_without, if_neg (by decide), get_of_textAt hmethod, Option.map_some] at hkeyGet
    obtain ⟨v, hv, hvalue⟩ := Option.map_eq_some_iff.mp hkeyGet
    rw [textAt, hv, Json.eq_str hvalue]
    rfl
  obtain ⟨hidsLength, hrefsValue, hsources⟩ := lineage_value hlength hids
  obtain ⟨hobjects, hmergedValue⟩ := hsources ms hmsValue
  have hmsLength : ms.length = merged.length := by
    simpa using congrArg List.length hmsValue
  have hidsNe : ids.map Json.str ≠ [] := by
    intro hnil
    rw [List.map_eq_nil_iff] at hnil
    rw [hnil, List.length_nil] at hidsLength
    exact hne (List.length_eq_zero_iff.mp hidsLength.symm)
  refine ⟨d, (((shared.spread (varyingOf p)).put "recordId" (.str d.localId)).put "mergedSources"
      (.arr (ms.zipWith (fun source id => .obj (((fieldsIn source).getD []).put "recordId" id))
        (ids.map Json.str)))).put "derivedFrom" (.obj (m.put "records"
          (.arr ((ids.map Json.str).map fun id =>
            .obj [("class", .str "observation"), ("id", id)])))), hd, ?_, ?_⟩
  · unfold restoreLineage
    simp only [hms, hm]
    rw [if_pos]
    refine ⟨hidsNe, ?_, by rw [hmsLength, List.length_map, hidsLength], ?_, ?_, ?_, hmMethod, hlocal⟩
    · simp [Json.string]
    · exact List.all_eq_true.mpr hobjects
    · exact htext _ _ (by decide) (by decide) horigin
    · rw [htext _ _ (by decide) (by decide) hsource]
      exact hfused
  · refine Fields.value_ext fun key => ?_
    rw [Fields.get_put, Fields.get_put, Fields.get_put]
    by_cases hderivedKey : "derivedFrom" = key
    · rw [if_pos hderivedKey, ← hderivedKey, get_of_fieldsAt hderivation]
      refine congrArg some (Fields.value_ext fun k => ?_)
      rw [Fields.get_put]
      by_cases hrecords : "records" = k
      · rw [if_pos hrecords, ← hrecords, get_of_itemsAt hrefs, Option.map_some, Option.map_some,
          Json.value, Json.value, Json.values_eq, Json.values_eq, hrefsValue]
      · rw [if_neg hrecords, Fields.get_of_value hmValue k, Fields.get_without,
          if_neg (by simpa using Ne.symm hrecords)]
    · rw [if_neg hderivedKey]
      by_cases hmergedKey : "mergedSources" = key
      · rw [if_pos hmergedKey, ← hmergedKey, get_of_itemsAt hmerged, Option.map_some,
          Option.map_some, Json.value, Json.value, Json.values_eq, Json.values_eq, hmergedValue]
      · rw [if_neg hmergedKey]
        by_cases hrecordKey : "recordId" = key
        · rw [if_pos hrecordKey, ← hrecordKey, get_of_textAt hrecord]
        · rw [if_neg hrecordKey, Fields.get_spread, get_varyingOf]
          have hkeyGet := hget key
          rw [get_sharedProvenance_fused h, if_neg hderivedKey, if_neg hmergedKey] at hkeyGet
          by_cases hvaryingKey : key ∈ varyingProvenance p
          · rw [if_pos (List.mem_cons_of_mem _ hvaryingKey), Option.map_none,
              Option.map_eq_none_iff] at hkeyGet
            rw [if_pos hvaryingKey, hkeyGet, Option.or_none]
          · rw [if_neg (by simp [Ne.symm hrecordKey, hvaryingKey])] at hkeyGet
            rw [if_neg hvaryingKey, Option.none_or, hkeyGet]

/-- **A reading is put together again** with every template that says what its own does. -/
theorem recordOf_value (h : StoredObservation r)
    (ht : t.value = (templateOf canonicalIdOf r).value) :
    (recordOf canonicalIdOf t (readingOf canonicalIdOf r)).map Fields.value = .ok r.value := by
  obtain ⟨id, parts, hid, hparts⟩ := h.id
  obtain ⟨p, hp⟩ := h.provenance
  have hpFields : (fieldsAt r "provenance").getD [] = p := by rw [fieldsAt, hp]; rfl
  obtain ⟨shared, hshared, hsharedValue⟩ : ∃ shared, fieldsAt t "provenance" = some shared ∧
      shared.value = (sharedProvenance canonicalIdOf r p).value := by
    have hget := Fields.get_of_value ht "provenance"
    rw [get_templateOf (by decide), if_neg (by decide), if_pos rfl, hpFields, Option.map_some]
      at hget
    obtain ⟨v, hv, hvalue⟩ := Option.map_eq_some_iff.mp hget
    obtain ⟨shared, rfl, hs⟩ := Json.eq_obj hvalue
    exact ⟨shared, by rw [fieldsAt, hv]; rfl, hs⟩
  have hns : textAt t "namespace" = some parts.ns := by
    have hget := Fields.get_of_value ht "namespace"
    rw [get_templateOf_namespace hid hparts, Option.map_some] at hget
    obtain ⟨v, hv, hvalue⟩ := Option.map_eq_some_iff.mp hget
    rw [textAt, hv, Json.eq_str hvalue]
    rfl
  have hidentified := @get_withRecordId canonicalIdOf _ _ _ h hid hparts
  unfold recordOf
  simp only [hns, hshared, provenance_readingOf hp, Option.getD_some, lineage_readingOf h]
  cases hids : fusionRecordIds canonicalIdOf r with
  | none =>
    -- The template holds the provenance, less what varies.
    have hplain : shared.value = Fields.value (Fields.without p (varyingProvenance p)) := by
      rw [hsharedValue]
      unfold sharedProvenance
      simp only [hids]
    exact congrArg Except.ok (value_of_parts ht hp hidentified (credit_value hplain))
  | some ids =>
    obtain ⟨d, restored, hd, hrestored, hvalue⟩ := restoreLineage_value hp hids hsharedValue
    have hlocal : textAt ((readingOf canonicalIdOf r).without
        ["provenance", "_ocFusionRecordIds"]) "id" = some d.localId := by
      rw [textAt, Fields.get_without, if_neg (by decide), identity_readingOf.1, hd]
      rfl
    simp only [hlocal] at hidentified
    simp only [Option.map_some, hlocal, hrestored, bind, Except.bind]
    exact congrArg Except.ok (value_of_parts ht hp hidentified hvalue)

/-- **The stored form of an observation loses nothing**: its reading with its own template is the
observation, and so it is with the template of every observation that has an equal one. -/
theorem recordOf_templateOf_readingOf (h : StoredObservation r) :
    (recordOf canonicalIdOf (templateOf canonicalIdOf r) (readingOf canonicalIdOf r)).map
        Fields.value = .ok r.value ∧
      ∀ s, StoredObservation s →
        (templateOf canonicalIdOf s).value = (templateOf canonicalIdOf r).value →
        (recordOf canonicalIdOf (templateOf canonicalIdOf s) (readingOf canonicalIdOf r)).map
          Fields.value = .ok r.value :=
  ⟨recordOf_value h rfl, fun _ _ ht => recordOf_value h ht⟩

/-- A fused observation. -/
def fusedObservation : Fields :=
  [("id", .str ("oc:observation:de-ndw:" ++ zeroId)), ("class", .str "observation"),
    ("canonicalId", .str "9b"), ("revision", .num 1),
    ("provenance", .obj [("origin", .str "derived"), ("sourceId", .str "@fused"),
      ("recordId", .str zeroId), ("recordVersion", .str "2"),
      ("mergedSources", .arr [.obj [("source", .str "de-ndw"),
        ("recordId", .str "oc:observation:de-ndw:a")]]),
      ("derivedFrom", .obj [("method", .str "fusion"),
        ("records", .arr [.obj [("class", .str "observation"),
          ("id", .str "oc:observation:de-ndw:a")]])])]),
    ("result", .obj [("type", .str "count"), ("value", .num 3)])]

/-- It is stored with its lineage as ids, and comes back whole. -/
theorem recordOf_templateOf_readingOf_fused :
    (recordOf (fun _ _ => "9b") (templateOf (fun _ _ => "9b") fusedObservation)
        (readingOf (fun _ _ => "9b") fusedObservation)).map Fields.value =
      .ok fusedObservation.value ∧
    ∀ s, StoredObservation s →
      (templateOf (fun _ _ => "9b") s).value = (templateOf (fun _ _ => "9b") fusedObservation).value →
      (recordOf (fun _ _ => "9b") (templateOf (fun _ _ => "9b") s)
        (readingOf (fun _ _ => "9b") fusedObservation)).map Fields.value =
          .ok fusedObservation.value := by
  refine recordOf_templateOf_readingOf ⟨fun key v hv => ?_, ⟨_,
    ⟨"observation", "de-ndw", zeroId⟩, rfl, by decide +kernel⟩, ⟨_, rfl⟩⟩
  simp only [fusedObservation, Fields.get_cons, Fields.get_nil] at hv
  split_ifs at hv with h1 h2 h3 h4 h5 h6 <;> subst_vars <;> decide

end RoundTrip

end OpenConditions.Core

import OpenConditions.Core.Identity
import OpenConditions.Lib.JsonValue

set_option relaxedAutoImplicit false
set_option autoImplicit false

/-!
# The stored form of observations

A stored observation is split into a template, which the readings of its series share, and a reading;
the two are put together again when it is read (`packages/core/src/observation-codec.ts`).

## Main definitions

* `templateOf`, `readingOf` — the two parts of an observation.
* `recordOf` — the observation of two parts.

## Implementation notes

A record is the fields of a JSON object; a field of the source that is `undefined` is absent.  The
hash of a record's namespace and local id is a parameter.
-/

namespace OpenConditions.Core

/-! ## Reading fields -/

/-- The text of a field, when it is one. -/
def textAt (record : Fields) (key : String) : Option String := (record.get key).bind Json.string

/-- The fields of a value, when it is an object. -/
def fieldsIn : Json → Option Fields
  | .obj fields => some fields
  | _ => none

/-- The fields of a field, when it is an object. -/
def fieldsAt (record : Fields) (key : String) : Option Fields := (record.get key).bind fieldsIn

/-- The items of a field, when it is an array. -/
def itemsAt (record : Fields) (key : String) : Option (List Json) := (record.get key).bind Json.items

/-- The sentinel source ids of fused observation rows. -/
def fusedSourceIds : List String := ["@fused", "@fused-public"]

/-- Whether a source id is a fused row's. -/
def isFusedSourceId (sourceId : String) : Bool := fusedSourceIds.contains sourceId

/-- A local id that is a hash: 64 lower-case hexadecimal digits. -/
def isLocalObservationId (s : String) : Bool :=
  decide (s.toList.length = 64) &&
    s.toList.all fun c => ('0' ≤ c && c ≤ '9') || ('a' ≤ c && c ≤ 'f')

/-- A hash of zeros. -/
def zeroId : String := "0000000000000000000000000000000000000000000000000000000000000000"

/-! ## Templates and readings -/

/-- Provenance fields that vary between readings of one series. -/
def varyingOfAny : List String := ["rawRef", "sourceUpdatedAt", "recordVersion"]

/-- Provenance fields that vary between the readings of a crowd series. -/
def varyingOfCrowd : List String := ["reporter", "recordId"]

/-- The provenance fields of a record that vary between the readings of its series. -/
def varyingProvenance (provenance : Fields) : List String :=
  if textAt provenance "origin" = some "crowd" then varyingOfAny ++ varyingOfCrowd else varyingOfAny

/-- The id of a merged source and of the reference to it, when the two agree. -/
def lineageId : Json × Json → Option String
  | (.obj source, .obj ref) => do
    let id ← textAt source "recordId"
    if textAt ref "class" = some "observation" ∧ textAt ref "id" = some id ∧
        (ref.map Prod.fst).dedup.length = 2 then some id
    else none
  | _ => none

variable (canonicalIdOf : String → String → String)

/-- The local id of a record whose identities are derived: a hash, under the canonical id. -/
def derivedId (record : Fields) : Option RecordIdParts := do
  let id ← (textAt record "id").bind parseRecordId
  if id.recordClass = "observation" ∧ isLocalObservationId id.localId = true ∧
      textAt record "canonicalId" = some (canonicalIdOf id.ns id.localId) then some id
  else none

/-- The ids of the records that a fusion merged, when its copies of them can be restored. -/
def fusionRecordIds (record : Fields) : Option (List String) := do
  let p ← fieldsAt record "provenance"
  let sourceId ← textAt p "sourceId"
  let id ← derivedId canonicalIdOf record
  let merged ← itemsAt p "mergedSources"
  let derivation ← fieldsAt p "derivedFrom"
  let refs ← itemsAt derivation "records"
  if textAt p "origin" = some "derived" ∧ isFusedSourceId sourceId = true ∧
      textAt p "recordId" = some id.localId ∧ merged ≠ [] ∧
      textAt derivation "method" = some "fusion" ∧ refs.length = merged.length then
    (merged.zip refs).mapM lineageId
  else none

/-- A value without some fields, when it is an object. -/
def withoutIn (keys : List String) : Json → Json
  | .obj fields => .obj (Fields.without fields keys)
  | v => v

/-- The provenance that a series template holds. -/
def sharedProvenance (record provenance : Fields) : Fields :=
  let shared := provenance.without (varyingProvenance provenance)
  match fusionRecordIds canonicalIdOf record with
  | none => shared
  | some _ =>
    (((shared.without ["recordId"]).put "mergedSources"
      (.arr (((itemsAt provenance "mergedSources").getD []).map (withoutIn ["recordId"])))).put
      "derivedFrom" (.obj (((fieldsAt provenance "derivedFrom").getD []).without ["records"])))

/-- The keys of a stored observation its series template holds. -/
def templateKeys : List String :=
  ["class", "kind", "property", "domain", "subject", "qualifiers", "location", "revision",
    "temporality", "aggregation"]

/-- The parts of an observation every reading of its series shares. -/
def templateOf (record : Fields) : Fields :=
  Fields.given "namespace"
      (((textAt record "id").bind parseRecordId).map fun id => .str id.ns) ++
    templateKeys.flatMap (fun key => Fields.given key (record.get key)) ++
    [("provenance",
      .obj (sharedProvenance canonicalIdOf record ((fieldsAt record "provenance").getD [])))]

/-- A reading whose identities are derived keeps the local id only. -/
def withLocalId (id : Option RecordIdParts) (reading : Fields) : Fields :=
  match id with
  | none => reading
  | some id => (reading.put "id" (.str id.localId)).without ["canonicalId"]

/-- A reading with the ids of the records that its fusion merged. -/
def withLineage (lineage : Option (List String)) (reading : Fields) : Fields :=
  match lineage with
  | none => reading
  | some ids => reading.put "_ocFusionRecordIds" (.arr (ids.map .str))

/-- The provenance fields that vary between readings. -/
def varyingOf (provenance : Fields) : Fields :=
  (varyingProvenance provenance).flatMap fun key => Fields.given key (provenance.get key)

/-- What a series' latest row stores of its reading in effect. -/
def readingOf (record : Fields) : Fields :=
  let own := record.without (templateKeys ++ ["provenance"])
  let varying := varyingOf ((fieldsAt record "provenance").getD [])
  withLineage (fusionRecordIds canonicalIdOf record)
    (withLocalId (derivedId canonicalIdOf record)
      (if varying = [] then own else own.put "provenance" (.obj varying)))

/-! ## Records -/

/-- The text of the error of a lineage that cannot be restored. -/
def invalidLineage : String := "Invalid compact fused lineage"

/-- The credit of a fused record with its lineage. -/
def restoreLineage (credit : Fields) (localId : Option String) (lineage : Json) :
    Except String Fields :=
  match lineage, itemsAt credit "mergedSources", fieldsAt credit "derivedFrom", localId with
  | .arr ids, some merged, some method, some localId =>
    if ids ≠ [] ∧ (ids.all fun id => id.string.isSome) = true ∧ merged.length = ids.length ∧
        (merged.all fun source => (fieldsIn source).isSome) = true ∧
        textAt credit "origin" = some "derived" ∧
        ((textAt credit "sourceId").map isFusedSourceId).getD false = true ∧
        textAt method "method" = some "fusion" ∧ isLocalObservationId localId = true then
      .ok (((credit.put "recordId" (.str localId)).put "mergedSources"
        (.arr (merged.zipWith
          (fun source id => .obj (((fieldsIn source).getD []).put "recordId" id)) ids))).put
        "derivedFrom" (.obj (method.put "records"
          (.arr (ids.map fun id => .obj [("class", .str "observation"), ("id", id)])))))
    else .error invalidLineage
  | _, _, _, _ => .error invalidLineage

/-- A reading with the ids that its local id stands for. -/
def withRecordId (ns : String) (localId : Option String) (own : Fields) : Fields :=
  match localId with
  | some l =>
    if isLocalObservationId l then
      (own.put "id" (.str ("oc:observation:" ++ ns ++ ":" ++ l))).put "canonicalId"
        (.str (canonicalIdOf ns l))
    else own
  | none => own

/-- The stored observation of a template and a reading. -/
def recordOf (template reading : Fields) : Except String Fields :=
  let shared := template.without ["namespace", "provenance"]
  let own := reading.without ["provenance", "_ocFusionRecordIds"]
  let localId := textAt own "id"
  let ns := (textAt template "namespace").getD "undefined"
  let identified := withRecordId canonicalIdOf ns localId own
  let credit := Fields.spread ((fieldsAt template "provenance").getD [])
    ((fieldsAt reading "provenance").getD [])
  match reading.get "_ocFusionRecordIds" with
  | none => .ok ((shared.spread identified).put "provenance" (.obj credit))
  | some lineage => do
    let restored ← restoreLineage credit localId lineage
    .ok ((shared.spread identified).put "provenance" (.obj restored))

end OpenConditions.Core

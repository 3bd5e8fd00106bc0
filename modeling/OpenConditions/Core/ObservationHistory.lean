import OpenConditions.Core.ObservationCodec

set_option relaxedAutoImplicit false
set_option autoImplicit false

/-!
# History rows of observations

A reading is kept as a compact row of its series' history, which leaves out what the series, the poll
and the registry say, and is rebuilt from them when it is read (`packages/core/src/observation-codec.ts`,
with the derived fields of `packages/model/src/classes/observation.ts` and `content-hash.ts`).

## Main definitions

* `encodeResult`, `decodeResult` — a result as columns.
* `historyRowOf`, `recordFromHistory` — a stored observation as a row, and back.
* `observationId`, `contentHash` — the derived fields of an observation.

## Implementation notes

A row's instants are texts, as `iso` reads a date of the database.  The canonical text of a value,
its hash, the normal form of an instant and the hash of a record id are parameters.  Contents are
picked of observations only, the class of every history row.
-/

namespace OpenConditions.Core

/-! ## Results -/

/-- The declared result of a property, as far as the columns depend on it. -/
inductive ResultSpec where
  | quantity (unit : String)
  | count
  | boolean
  | text
  | category (vocabulary : String)
  | vector
  | money
  | structured
  deriving DecidableEq, Repr

/-- The type of a declared result. -/
def ResultSpec.type : ResultSpec → String
  | .quantity _ => "quantity"
  | .count => "count"
  | .boolean => "boolean"
  | .text => "text"
  | .category _ => "category"
  | .vector => "vector"
  | .money => "money"
  | .structured => "structured"

/-- Result types whose value has a column of its own when the property declares that type. -/
def columnTypes : List String := ["quantity", "count", "boolean", "category", "money"]

/-- The columns of a result. -/
structure ResultColumns where
  valueNum : Option Json
  valueMoney : Option Json
  valueText : Option Json
  valueJson : Option Fields

/-- The columns of a result that is stored whole, or of the rest of one. -/
def ResultColumns.ofJson (json : Option Fields) : ResultColumns := ⟨none, none, none, json⟩

/-- Fields, or none of them. -/
def nonEmpty (fields : Fields) : Option Fields := if fields = [] then none else some fields

/-- A field is left out where it says what is implied. -/
def withoutImplied (fields : Fields) (key implied : String) : Fields :=
  if textAt fields key = some implied then fields.without [key] else fields

/-- The text of a boolean. -/
def booleanText : Json → Option String
  | .bool true => some "true"
  | .bool false => some "false"
  | _ => none

/-- A result as history columns. -/
def encodeResult (result : Fields) (spec : ResultSpec) : ResultColumns :=
  if textAt result "type" ≠ some spec.type ∨ spec.type ∉ columnTypes then .ofJson (some result)
  else
    let residue := result.without ["type"]
    match spec with
    | .quantity unit =>
      { ResultColumns.ofJson (nonEmpty (withoutImplied (residue.without ["value"]) "unit" unit)) with
        valueNum := result.get "value" }
    | .count =>
      { ResultColumns.ofJson (nonEmpty (residue.without ["value"])) with
        valueNum := result.get "value" }
    | .boolean =>
      { ResultColumns.ofJson (nonEmpty (residue.without ["value"])) with
        valueText := ((result.get "value").bind booleanText).map .str }
    | .category vocabulary =>
      { ResultColumns.ofJson
          (nonEmpty (withoutImplied (residue.without ["value"]) "vocabulary" vocabulary)) with
        valueText := result.get "value" }
    | .money =>
      { ResultColumns.ofJson (nonEmpty (residue.without ["amount"])) with
        valueMoney := result.get "amount" }
    | .text | .vector | .structured => .ofJson (nonEmpty residue)

/-- The inverse of `encodeResult`. -/
def decodeResult (columns : ResultColumns) (spec : ResultSpec) : Except String Fields :=
  let json := columns.valueJson.getD []
  if (textAt json "type").isSome then .ok json
  else
    match spec with
    | .quantity unit =>
      .ok (Fields.spread [("type", .str "quantity"), ("value", columns.valueNum.getD .null),
        ("unit", .str unit)] json)
    | .count =>
      .ok (Fields.spread [("type", .str "count"), ("value", columns.valueNum.getD .null)] json)
    | .boolean =>
      .ok (Fields.spread [("type", .str "boolean"),
        ("value", .bool (decide (columns.valueText.bind Json.string = some "true")))] json)
    | .category vocabulary =>
      .ok (Fields.spread [("type", .str "category"), ("value", columns.valueText.getD .null),
        ("vocabulary", .str vocabulary)] json)
    | .money =>
      .ok (Fields.spread [("type", .str "money"), ("amount", columns.valueMoney.getD .null)] json)
    | .text | .vector | .structured =>
      .error ("a " ++ spec.type ++ " result is always stored whole")

/-! ## Derived fields -/

/-- What the derivation of fields rests on. -/
structure RecordOps where
  /-- The declared result of a registered property. -/
  property : String → Option ResultSpec
  canonicalIdOf : String → String → String
  /-- The canonical text of a value. -/
  jcs : JsonValue → String
  sha256Hex : String → String
  /-- An instant in UTC with milliseconds, when the text is one. -/
  toISOString : String → Option String

/-- The text of a field in a template text. -/
def shownAt (fields : Fields) (key : String) : String := (textAt fields key).getD "undefined"

/-- The key of a location: its first geocode, or the hash of its geometry. -/
def locationKeyOf (ops : RecordOps) (location : Fields) : Option String :=
  match ((fieldsAt location "admin").bind fun admin =>
      (itemsAt admin "geocodes").bind List.head?).bind fieldsIn with
  | some geocode => some ("location:" ++ shownAt geocode "scheme" ++ ":" ++ shownAt geocode "code")
  | none =>
    match location.get "geometry" with
    | none | some .null => none
    | some geometry => some ("location:" ++ ops.sha256Hex (ops.jcs geometry.value))

/-- The storage key of a subject. -/
def subjectKey (ops : RecordOps) (record : Fields) : Except String String :=
  let subject := (fieldsAt record "subject").getD []
  match textAt subject "kind" with
  | some "feature" =>
    match textAt subject "componentKey" with
    | none => .ok ("feature:" ++ shownAt subject "featureId")
    | some component => .ok ("feature:" ++ shownAt subject "featureId" ++ "#" ++ component)
  | some "segments" =>
    match subject.get "spans" with
    | none => .error "value is not JSON-serializable"
    | some spans => .ok ("segments:" ++ ops.sha256Hex (ops.jcs spans.value))
  | some "situation" => .ok ("situation:" ++ shownAt subject "situationId")
  | some "location" =>
    match locationKeyOf ops ((fieldsAt record "location").getD []) with
    | some key => .ok key
    | none => .error "a location subject needs an admin geocode or a geometry"
  | _ => .ok "undefined"

/-- The canonical text of the qualifiers, empty without. -/
def qualifierKey (ops : RecordOps) (qualifiers : Option Json) : String :=
  match qualifiers with
  | none => ""
  | some q => ops.jcs q.value

/-- An instant in its normal form. -/
def normalInstant (ops : RecordOps) (text : Option String) : Except String String :=
  match text.bind ops.toISOString with
  | some iso => .ok iso
  | none => .error "Invalid time value"

/-- The issue time of a forecast, in its normal form. -/
def issuedOf (ops : RecordOps) (forecast : Option Fields) : Except String JsonValue :=
  match forecast with
  | none => .ok .null
  | some forecast => (normalInstant ops (textAt forecast "issuedAt")).map .str

/-- The local id of an observation: one point of one series. -/
def observationLocalId (ops : RecordOps) (record : Fields) : Except String String := do
  let time := (fieldsAt record "phenomenonTime").getD []
  let start ← normalInstant ops ((textAt time "instant").or (textAt time "start"))
  let subject ← subjectKey ops record
  let issued ← issuedOf ops (fieldsAt record "forecast")
  .ok (ops.sha256Hex (ops.jcs (.arr [.str subject, .str (shownAt record "property"),
    .str (qualifierKey ops (record.get "qualifiers")), .str start, issued])))

/-- The id of an observation. -/
def observationId (ops : RecordOps) (ns : String) (record : Fields) : Except String String :=
  (observationLocalId ops record).map fun localId => "oc:observation:" ++ ns ++ ":" ++ localId

/-- The local id of a record id. -/
def localIdOf (id : String) : Except String String :=
  match parseRecordId id with
  | some parts => .ok parts.localId
  | none => .error "Cannot read properties of null (reading 'localId')"

/-- The fields of an observation that its hash covers. -/
def observationContent : List String :=
  ["id", "class", "kind", "temporality", "externalIds", "location", "relations", "provenance",
    "extras", "property", "subject", "qualifiers", "result", "phenomenonTime", "resultTime",
    "validUntil", "aggregation", "forecast", "quality", "baseline"]

/-- The fields of an observation that are computed or joined. -/
def observationDerived : List String :=
  ["freshness", "canonicalId", "domain", "contentHash", "revision", "recordedAt", "tombstone",
    "evidence", "sinceAt"]

/-- The fields of a provenance that a hash covers. -/
def provenanceContent : List String :=
  ["origin", "sourceId", "sourceFormat", "accessMode", "recordId", "recordVersion", "sourceUri",
    "sourceUpdatedAt", "attribution", "upstream", "informationSource", "derivedFrom", "privacy"]

/-- The fields of a provenance that are of the hop, the fusion or the storage. -/
def provenanceDerived : List String :=
  ["rawRef", "instanceId", "originChain", "mergedSources", "reporter"]

/-- The content fields among classified ones. -/
def pick (fields : Fields) (content derived : List String) (place : String) :
    Except String Fields :=
  match fields.find? fun f => !(content ++ derived).contains f.1 with
  | some f => .error (place ++ ": unclassified key \"" ++ f.1 ++ "\"")
  | none => .ok (fields.filter fun f => content.contains f.1)

/-- The content of an observation. -/
def contentOf (record : Fields) : Except String Fields := do
  let content ← pick record observationContent observationDerived "observation"
  match fieldsAt record "provenance" with
  | none => .ok content
  | some provenance => do
    let own ← pick provenance provenanceContent provenanceDerived "provenance"
    .ok (content.put "provenance" (.obj own))

/-- The hash of an observation's content. -/
def contentHash (ops : RecordOps) (record : Fields) : Except String String :=
  (contentOf record).map fun content => ops.sha256Hex (ops.jcs content.value)

/-! ## History rows -/

/-- The poll that an observation came from. -/
structure PollRef where
  fetchId : Option ℕ
  payloadHashes : Option (List String)

/-- A row of an observation's history. -/
structure HistoryRow where
  phenomenonStart : Option Json
  phenomenonEnd : Option Json
  issuedAt : Json
  resultTime : Option Json
  validUntil : Option Json
  fetchedAt : Option Json
  recordedAt : Option Json
  temporality : Option Json
  aggregation : Option Json
  columns : ResultColumns
  quality : Option Json
  baseline : Option Json
  fetchId : Option ℕ
  rawPart : Option ℕ
  extra : Option Fields
  /-- The credit that storage keeps apart, joined when a row is read. -/
  capturedProvenance : Option Fields

/-- A field, none when it is null. -/
def presentAt (fields : Fields) (key : String) : Option Json :=
  match fields.get key with
  | some .null => none
  | v => v

/-- The position of an observation's payload among those of its poll. -/
def rawPartOf (provenance : Fields) (poll : PollRef) : Option ℕ := do
  let rawRef ← fieldsAt provenance "rawRef"
  let hash ← textAt rawRef "hash"
  let hashes ← poll.payloadHashes
  hashes.idxOf? hash

/-- The terms and the raw reference that a row keeps of a provenance. -/
def extraProvenance (provenance : Fields) (rawPart : Option ℕ) : Fields :=
  let kept := match fieldsAt provenance "rawRef" with
    | none => false
    | some rawRef =>
      rawPart.isNone || (rawRef.get "part").isSome || (rawRef.get "pointer").isSome
  Fields.given "attribution" (provenance.get "attribution") ++
    [("upstream", (presentAt provenance "upstream").getD (.arr []))] ++
    Fields.given "mergedSources" (provenance.get "mergedSources") ++
    (if kept then Fields.given "rawRef" (provenance.get "rawRef") else []) ++
    ((varyingProvenance provenance).filter fun key => key ≠ "rawRef").flatMap fun key =>
      Fields.given key (provenance.get key)

/-- What a reading may carry that neither its series nor the other columns hold. -/
def extraOf (record : Fields) (rawPart : Option ℕ) : Fields :=
  let provenance := extraProvenance ((fieldsAt record "provenance").getD []) rawPart
  let freshness := ((fieldsAt record "freshness").getD []).without ["fetchedAt"]
  Fields.given "forecast" ((fieldsAt record "forecast").map .obj) ++
    Fields.given "provenance" ((nonEmpty provenance).map .obj) ++
    Fields.given "freshness" ((nonEmpty freshness).map .obj) ++
    ["externalIds", "relations", "extras"].flatMap fun key => Fields.given key (record.get key)

/-- A stored observation as a compact history row. -/
def historyRowOf (record : Fields) (spec : ResultSpec) (poll : PollRef) : HistoryRow :=
  let time := (fieldsAt record "phenomenonTime").getD []
  let rawPart := rawPartOf ((fieldsAt record "provenance").getD []) poll
  { phenomenonStart := (presentAt time "instant").or (time.get "start")
    phenomenonEnd := presentAt time "end"
    issuedAt := ((fieldsAt record "forecast").bind (presentAt · "issuedAt")).getD (.str "-infinity")
    resultTime := presentAt record "resultTime"
    validUntil := presentAt record "validUntil"
    fetchedAt := ((fieldsAt record "freshness").getD []).get "fetchedAt"
    recordedAt := record.get "recordedAt"
    temporality := record.get "temporality"
    aggregation := record.get "aggregation"
    columns := encodeResult ((fieldsAt record "result").getD []) spec
    quality := presentAt record "quality"
    baseline := presentAt record "baseline"
    fetchId := if rawPart.isSome then poll.fetchId else none
    rawPart := if poll.fetchId.isSome then rawPart else none
    extra := nonEmpty (extraOf record rawPart)
    capturedProvenance := none }

/-- The credit of a reading whose publisher is not known. -/
def unknownAttribution : Json :=
  .obj [("provider", .str "Unknown publisher"), ("license", .str "NOASSERTION")]

/-- A list that is not empty. -/
def itemsOf (v : Option Json) : Option Json :=
  match v with
  | some (.arr (item :: items)) => some (.arr (item :: items))
  | _ => none

/-- A provenance without its upstream when that is empty. -/
def withoutEmptyUpstream (provenance : Fields) : Fields :=
  match provenance.get "upstream" with
  | some (.arr []) => provenance.without ["upstream"]
  | _ => provenance

/-- The provenance of a reading, from what its series shares and what its row keeps. -/
def historyProvenance (template own : Fields) (receipt : Option Fields) (rawPart : Option ℕ)
    (payloadHashes : List String) : Fields :=
  let captured := (receipt.or (if (own.get "attribution").isSome then some own else none)).getD []
  let terms : Fields :=
    [("attribution", (presentAt captured "attribution").getD unknownAttribution)] ++
      Fields.given "upstream" (itemsOf (captured.get "upstream")) ++
      Fields.given "mergedSources" (captured.get "mergedSources")
  let provenance := withoutEmptyUpstream
    ((((template.without ["attribution", "upstream", "mergedSources"]).spread own).spread
      terms).without ["creditReceiptId"])
  match rawPart with
  | none => provenance
  | some part =>
    if (provenance.get "rawRef").isSome then provenance
    else provenance.put "rawRef" (.obj (Fields.given "hash" (payloadHashes[part]?.map .str)))

/-- The time of a reading: an instant, or an interval. -/
def phenomenonTimeOf (start finish : Option Json) : Fields :=
  match finish with
  | none => Fields.given "instant" start
  | some finish => Fields.given "start" start ++ [("end", finish)]

/-- The fields of an observation that its row and its provenance give. -/
def historyFields (row : HistoryRow) (result provenance : Fields) : Fields :=
  let extra := row.extra.getD []
  Fields.given "temporality" row.temporality ++
    [("phenomenonTime", .obj (phenomenonTimeOf row.phenomenonStart row.phenomenonEnd))] ++
    Fields.given "resultTime" row.resultTime ++
    Fields.given "validUntil" row.validUntil ++
    Fields.given "aggregation" row.aggregation ++
    [("result", .obj result)] ++
    Fields.given "quality" row.quality ++
    Fields.given "baseline" row.baseline ++
    ["forecast", "externalIds", "relations", "extras"].flatMap (fun key =>
      Fields.given key (extra.get key)) ++
    [("provenance", .obj provenance),
      ("freshness", .obj ((Fields.given "fetchedAt" row.fetchedAt).spread
        ((fieldsAt extra "freshness").getD []))),
      ("revision", .num 1)] ++
    Fields.given "recordedAt" row.recordedAt

/-- The declared result of a registered property. -/
def resultOf (ops : RecordOps) (code : String) : Except String ResultSpec :=
  match ops.property code with
  | some spec => .ok spec
  | none => .error ("unregistered property " ++ code)

/-- **The stored observation that a history row was written from**, given its series template and the
payload hashes of its poll. -/
def recordFromHistory (ops : RecordOps) (series : Fields) (row : HistoryRow)
    (payloadHashes : List String) : Except String Fields := do
  let ns := shownAt series "namespace"
  let template := series.without ["namespace"]
  let code := shownAt template "property"
  let spec ← resultOf ops code
  let extra := row.extra.getD []
  let provenance := historyProvenance ((fieldsAt template "provenance").getD [])
    ((fieldsAt extra "provenance").getD []) row.capturedProvenance row.rawPart payloadHashes
  let result ← decodeResult row.columns spec
  let record := (template.without ["temporality", "aggregation"]).spread
    (historyFields row result provenance)
  let id ← observationId ops ns record
  let localId ← localIdOf id
  let identified := (record.put "id" (.str id)).put "canonicalId"
    (.str (ops.canonicalIdOf ns localId))
  let hash ← contentHash ops identified
  .ok (identified.put "contentHash" (.str hash))

end OpenConditions.Core

import OpenConditions.Lib.CodeIndex

set_option relaxedAutoImplicit false
set_option autoImplicit false

/-!
# The registry's crosswalks

The lookups over the crosswalks of registry entries, in both directions
(`packages/model/src/registry/crosswalk.ts`): a source code resolves to a classification, a
vocabulary value or a property, and these resolve to a code for an emitter.

## Main definitions

* `buildCrosswalk` — the indexes of a list of registry entries, or the text of an error.
* `Crosswalk.situation`, `Crosswalk.feature`, `Crosswalk.value`, `Crosswalk.property` — parsing.
* `Crosswalk.situationTargetCode`, `Crosswalk.featureTargetCode`, `Crosswalk.valueTargetCode`,
  `Crosswalk.propertyTargetCode` — emitting.

## Implementation notes

A record of the source is a map in insertion order.  Of the registry's entries only the fields the
crosswalk reads are kept.
-/

namespace OpenConditions.Registry

/-! ## Entries -/

/-- External vocabularies a registry entry can map to. -/
inductive MappingTarget where
  | datex2V2 | datex2V3 | wzdx | open511 | ibi511 | alertC | traff | gtfsRt | cap | ocpi | oicp
  | parkapi | tpims | road511 | osm
  deriving DecidableEq, Repr

/-- The name of a target. -/
def MappingTarget.name : MappingTarget → String
  | .datex2V2 => "datex2_v2"
  | .datex2V3 => "datex2_v3"
  | .wzdx => "wzdx"
  | .open511 => "open511"
  | .ibi511 => "ibi511"
  | .alertC => "alert_c"
  | .traff => "traff"
  | .gtfsRt => "gtfs_rt"
  | .cap => "cap"
  | .ocpi => "ocpi"
  | .oicp => "oicp"
  | .parkapi => "parkapi"
  | .tpims => "tpims"
  | .road511 => "road511"
  | .osm => "osm"

/-- The targets that are parsed: a source code of one resolves to one classification. -/
def MappingTarget.ingest : MappingTarget → Bool
  | .datex2V2 | .datex2V3 | .wzdx | .open511 | .ibi511 | .ocpi | .oicp | .parkapi | .tpims
  | .cap => true
  | .alertC | .traff | .gtfsRt | .road511 | .osm => false

/-- Source codes an entry corresponds to, per external vocabulary. -/
abbrev Mappings := OrderedMap MappingTarget (List String)

/-- The classes of kinds. -/
inductive KindClass where
  | feature | component | situation | offer
  deriving DecidableEq, Repr

/-- A registered kind: its types with their subtypes, and its crosswalks. -/
structure KindEntry where
  code : String
  kindClass : KindClass
  types : OrderedMap String (List String)
  mappings : Mappings
  typeMappings : OrderedMap String Mappings

/-- A registry entry. -/
inductive RegistryEntry where
  | kind (e : KindEntry)
  | property (code : String) (mappings : Mappings)
  | vocabulary (code : String) (valueMappings : OrderedMap String Mappings)
  | vocabularyExtension (vocabulary : String) (valueMappings : OrderedMap String Mappings)
  /-- An entry without crosswalks. -/
  | other

/-! ## Classifications -/

/-- A situation classification. -/
structure SituationClass where
  kind : String
  type : String
  subtype : Option String
  deriving DecidableEq, Repr

/-- A feature classification: the kind, and its type and subtype when the kind has types. -/
structure FeatureClass where
  kind : String
  type : Option String
  subtype : Option String
  deriving DecidableEq, Repr

/-- Parts of a code, with dots between them. -/
def joinDots : List String → List Char
  | [] => []
  | [part] => part.toList
  | part :: rest => part.toList ++ '.' :: joinDots rest

/-- The code of a situation classification, `kind.type[.subtype]`. -/
def situationCode (c : SituationClass) : String :=
  String.ofList (joinDots (c.kind :: c.type :: c.subtype.toList))

/-- The code of a feature classification, `kind[.type[.subtype]]`. -/
def featureCode (c : FeatureClass) : String :=
  String.ofList (joinDots (c.kind :: c.type.toList ++ c.subtype.toList))

/-- The parts of a text between its dots. -/
def splitDots : List Char → List (List Char)
  | [] => [[]]
  | c :: rest =>
    if c = '.' then [] :: splitDots rest
    else
      match splitDots rest with
      | [] => [[c]]
      | part :: parts => (c :: part) :: parts

/-- The type and subtype a key (`type` or `type.subtype`) names, when it names registered ones. -/
def registeredTypeKey (types : OrderedMap String (List String)) (key : String) :
    Option (String × Option String) :=
  match splitDots key.toList with
  | [type] => (types.get (String.ofList type)).map fun _ => (String.ofList type, none)
  | [type, subtype] =>
    match types.get (String.ofList type) with
    | none => none
    | some subtypes =>
      if subtypes.contains (String.ofList subtype) then
        some (String.ofList type, some (String.ofList subtype))
      else none
  | _ => none

/-! ## Indexes -/

/-- Two parts of a key, with the character of code 0 between them. -/
def keyOf (a b : String) : String := String.ofList (a.toList ++ Char.ofNat 0 :: b.toList)

/-- The indexes of the crosswalks. -/
structure Crosswalk where
  situations : OrderedMap String SituationClass
  features : OrderedMap String FeatureClass
  properties : OrderedMap String String
  values : OrderedMap String String
  situationOut : OrderedMap String String
  featureOut : OrderedMap String String
  propertyOut : OrderedMap String String
  valueOut : OrderedMap String (List String)

/-- The indexes before any entry. -/
def Crosswalk.empty : Crosswalk := ⟨.empty, .empty, .empty, .empty, .empty, .empty, .empty, .empty⟩

/-- What an entry enters, one code after the other. -/
inductive CrosswalkRow where
  /-- A key of type mappings that names no registered type. -/
  | unregistered (where_ key : String)
  /-- A code of a situation kind. -/
  | situationKind (target : MappingTarget) (kind code : String)
  /-- A code of a type or subtype of a situation kind. -/
  | situation (target : MappingTarget) (c : SituationClass) (code : String)
  /-- A code of a feature kind, or of a type or subtype of it. -/
  | feature (target : MappingTarget) (c : FeatureClass) (code : String)
  | property (target : MappingTarget) (property code : String)
  | value (target : MappingTarget) (vocabulary value code : String)
  deriving DecidableEq

/-- The codes of some mappings, each with its target. -/
def each (mappings : Mappings) : List (MappingTarget × String) :=
  mappings.entries.flatMap fun e => e.2.map fun code => (e.1, code)

/-- The rows of a key of type mappings. -/
def typeRows (e : KindEntry) (where_ : String)
    (row : String → Option String → MappingTarget → String → CrosswalkRow)
    (entry : String × Mappings) : List CrosswalkRow :=
  match registeredTypeKey e.types entry.1 with
  | none => [.unregistered where_ entry.1]
  | some (type, subtype) => (each entry.2).map fun m => row type subtype m.1 m.2

/-- The rows of a registry entry. -/
def rowsOf : RegistryEntry → List CrosswalkRow
  | .kind e =>
    match e.kindClass with
    | .situation =>
      (each e.mappings).map (fun m => .situationKind m.1 e.code m.2) ++
        e.typeMappings.entries.flatMap (typeRows e ("kind situation:" ++ e.code)
          fun type subtype target code => .situation target ⟨e.code, type, subtype⟩ code)
    | .feature =>
      (each e.mappings).map (fun m => .feature m.1 ⟨e.code, none, none⟩ m.2) ++
        e.typeMappings.entries.flatMap (typeRows e ("kind feature:" ++ e.code)
          fun type subtype target code => .feature target ⟨e.code, some type, subtype⟩ code)
    | .component | .offer => []
  | .property code mappings => (each mappings).map fun m => .property m.1 code m.2
  | .vocabulary vocabulary valueMappings | .vocabularyExtension vocabulary valueMappings =>
    valueMappings.entries.flatMap fun v => (each v.2).map fun m => .value m.1 vocabulary v.1 m.2
  | .other => []

/-- A value entered in the index of a parsed target, or the text of the error. -/
def enter {α : Type} (codeOf : α → String) (index : OrderedMap String α) (target : MappingTarget)
    (key code : String) (value : α) (where_ : String) : Except String (OrderedMap String α) :=
  if target.ingest then
    match CodeIndex.add codeOf index (keyOf target.name key, value) with
    | some index => .ok index
    | none => .error (where_ ++ ": " ++ target.name ++ " code \"" ++ code ++ "\" is mapped twice")
  else .ok index

/-- The codes of a value with one more. -/
def addCode (out : OrderedMap String (List String)) (key code : String) :
    OrderedMap String (List String) :=
  let codes := (out.get key).getD []
  if codes.contains code then out else out.set key (codes ++ [code])

/-- One row entered. -/
def Crosswalk.enterRow (cw : Crosswalk) : CrosswalkRow → Except String Crosswalk
  | .unregistered where_ key =>
    .error (where_ ++ ": typeMappings key \"" ++ key ++ "\" is not registered")
  | .situationKind target kind code =>
    .ok { cw with
      situationOut := CodeIndex.addFirst cw.situationOut (keyOf target.name kind, code) }
  | .situation target c code => do
    let situations ← enter situationCode cw.situations target code code c
      ("kind situation:" ++ c.kind)
    return { cw with
      situations := situations
      situationOut := CodeIndex.addFirst cw.situationOut
        (keyOf target.name (situationCode c), code) }
  | .feature target c code => do
    let features ← enter featureCode cw.features target code code c ("kind feature:" ++ c.kind)
    return { cw with
      features := features
      featureOut := CodeIndex.addFirst cw.featureOut (keyOf target.name (featureCode c), code) }
  | .property target property code => do
    let properties ← enter id cw.properties target code code property ("property " ++ property)
    return { cw with
      properties := properties
      propertyOut := CodeIndex.addFirst cw.propertyOut (keyOf target.name property, code) }
  | .value target vocabulary value code => do
    let values ← enter id cw.values target (keyOf vocabulary code) (keyOf vocabulary code) value
      ("vocabulary " ++ vocabulary)
    return { cw with
      values := values
      valueOut := addCode cw.valueOut (keyOf vocabulary (keyOf target.name value)) code }

/-- The indexes of a list of registry entries, or the text of the first error. -/
def buildCrosswalk (entries : List RegistryEntry) : Except String Crosswalk :=
  (entries.flatMap rowsOf).foldlM Crosswalk.enterRow .empty

namespace Crosswalk

variable (cw : Crosswalk) (target : MappingTarget)

/-! ## Parsing -/

/-- The classification a source code maps to. -/
def situation (code : String) : Option SituationClass :=
  cw.situations.get (keyOf target.name code)

/-- The feature classification a source code maps to. -/
def feature (code : String) : Option FeatureClass := cw.features.get (keyOf target.name code)

/-- The value of a vocabulary a source code maps to. -/
def value (vocabulary code : String) : Option String :=
  cw.values.get (keyOf target.name (keyOf vocabulary code))

/-- The property a source's measured-value code maps to. -/
def property (code : String) : Option String := cw.properties.get (keyOf target.name code)

/-! ## Emitting -/

/-- An emitter's code for a classification: the subtype's, else the type's, else the kind's. -/
def situationTargetCode (c : SituationClass) : Option String :=
  (cw.situationOut.get (keyOf target.name (situationCode c))).or
    ((cw.situationOut.get (keyOf target.name (situationCode ⟨c.kind, c.type, none⟩))).or
      (cw.situationOut.get (keyOf target.name c.kind)))

/-- An emitter's code for a feature classification: the subtype's, else the type's, else the
kind's. -/
def featureTargetCode (c : FeatureClass) : Option String :=
  (cw.featureOut.get (keyOf target.name (featureCode c))).or
    ((c.type.bind fun type =>
        cw.featureOut.get (keyOf target.name (featureCode ⟨c.kind, some type, none⟩))).or
      (cw.featureOut.get (keyOf target.name c.kind)))

/-- An emitter's code for a vocabulary value: the first, or the first of an enumeration. -/
def valueTargetCode (vocabulary value : String) (enumeration : Option String) : Option String :=
  let codes := (cw.valueOut.get (keyOf vocabulary (keyOf target.name value))).getD []
  match enumeration with
  | none => codes.head?
  | some enumeration =>
    codes.find? fun code => (enumeration.toList ++ [':']).isPrefixOf code.toList

/-- An emitter's code for a property. -/
def propertyTargetCode (property : String) : Option String :=
  cw.propertyOut.get (keyOf target.name property)

end Crosswalk

end OpenConditions.Registry

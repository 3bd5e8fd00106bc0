import OpenConditions.Core.HistoryFields
import OpenConditions.Lib.CanonicalJson

set_option relaxedAutoImplicit false
set_option autoImplicit false

/-!
# What changed between two revisions

A record's hash covers its content fields; a new revision names the change kinds whose watched part
differs (`packages/model/src/registry/change.ts`, `kernel/change-kind.ts` and `content-hash.ts`).

## Main definitions

* `ChangeKinds.contentOf` — the content of a record of any class.
* `ChangeKinds.kernelChangeKinds` — the kernel's change kinds.
* `ChangeKinds.computeChangeKinds` — the change kinds of a new revision.

## Main results

* `ChangeKinds.contentOf_observation` — an observation's content is the one its hash covers.
* `ChangeKinds.computeChangeKinds_ne_nil_iff` — a revision names a change kind exactly when the
  content changed.

## Implementation notes

A record is the list of its fields; a field that is undefined is absent.  Numbers are written in any
way that can be read again.  A location and a provenance are objects or absent: other values are not
of the schemas.
-/

namespace OpenConditions.Core.ChangeKinds

open Json (NumberText canonicalText)

/-! ## Content -/

/-- The classes of records. -/
inductive RecordClass where
  | situation
  | feature
  | observation
  | offer
  deriving DecidableEq

/-- The name of a class. -/
def RecordClass.name : RecordClass → String
  | .situation => "situation"
  | .feature => "feature"
  | .observation => "observation"
  | .offer => "offer"

/-- The class of a name. -/
def classNamed (name : String) : Option RecordClass :=
  [RecordClass.situation, .feature, .observation, .offer].find? fun cls => cls.name == name

/-- The content fields of every record. -/
def baseContent : List String :=
  ["id", "class", "kind", "temporality", "externalIds", "location", "relations", "provenance",
    "extras"]

/-- The computed and joined fields of every record. -/
def baseDerived : List String :=
  ["freshness", "canonicalId", "domain", "contentHash", "revision", "recordedAt", "tombstone",
    "evidence"]

/-- The content fields of a class. -/
def contentFields : RecordClass → List String
  | .situation => baseContent ++
    ["type", "subtype", "causes", "planned", "certainty", "severity", "headline", "description",
      "instruction", "comments", "validity", "effects", "affects", "groupId", "details"]
  | .feature => baseContent ++
    ["type", "subtype", "name", "description", "lifecycle", "operator", "owner", "publisher",
      "openingHours", "access", "amenities", "images", "components", "details"]
  | .observation => baseContent ++
    ["property", "subject", "qualifiers", "result", "phenomenonTime", "resultTime", "validUntil",
      "aggregation", "forecast", "quality", "baseline"]
  | .offer => baseContent ++
    ["subject", "currency", "tariffType", "scope", "elements", "minPrice", "maxPrice",
      "priceIncludesVat", "preauthorizeAmount", "altText", "url", "validity", "applicability",
      "energyMix", "displayText"]

/-- The derived fields of a class. -/
def derivedFields : RecordClass → List String
  | .situation => baseDerived
  | .feature => baseDerived ++ ["osmMatch"]
  | .observation => baseDerived ++ ["sinceAt"]
  | .offer => baseDerived

mutual

/-- A value as the language's own conversion writes it. -/
def stringOf (nums : NumberText) : Json → String
  | .null => "null"
  | .bool b => if b then "true" else "false"
  | .num q => String.ofList (nums.text q)
  | .str s => s
  | .arr items => ",".intercalate (itemStrings nums items)
  | .obj _ => "[object Object]"

/-- The items of an array, each as text; `null` is left empty. -/
def itemStrings (nums : NumberText) : List Json → List String
  | [] => []
  | .null :: items => "" :: itemStrings nums items
  | v :: items => stringOf nums v :: itemStrings nums items

end

/-- The content of a record. -/
def contentOf (nums : NumberText) (record : Fields) : Except String Fields :=
  match (textAt record "class").bind classNamed with
  | none =>
    .error ("unknown class " ++ ((record.get "class").map (stringOf nums)).getD "undefined")
  | some cls => do
    let content ← pick record (contentFields cls) (derivedFields cls) cls.name
    match fieldsAt record "provenance" with
    | none => .ok content
    | some provenance => do
      let own ← pick provenance Core.provenanceContent provenanceDerived "provenance"
      .ok (content.put "provenance" (.obj own))

/-! ## The kernel's change kinds -/

/-- A change kind: the classes it is for, and the part of a record it watches. -/
structure ChangeKind where
  code : String
  classes : List RecordClass
  select : Fields → Option Json

/-- Some fields of a record. -/
def pickKeys (record : Fields) (keys : List String) : Json :=
  .obj (keys.flatMap fun key => Fields.given key (record.get key))

/-- The location without one of its fields. -/
def locationWithout (record : Fields) (key : String) : Option Json :=
  (fieldsAt record "location").map fun location => .obj (location.without [key])

/-- The provenance without what is of the hop, the fusion or the storage. -/
def provenanceContent (record : Fields) : Option Json :=
  (fieldsAt record "provenance").map fun provenance =>
    .obj (provenance.without ["rawRef", "instanceId", "originChain", "mergedSources", "reporter"])

/-- The kernel's change kinds. -/
def kernelChangeKinds : List ChangeKind :=
  [⟨"classification_change", [.situation, .feature, .offer], fun r =>
      some (pickKeys r
        ["kind", "type", "subtype", "causes", "temporality", "planned", "certainty"])⟩,
    ⟨"severity_change", [.situation], fun r => r.get "severity"⟩,
    ⟨"validity_change", [.situation, .offer], fun r => r.get "validity"⟩,
    ⟨"effects_change", [.situation], fun r => r.get "effects"⟩,
    ⟨"geometry_change", [.situation, .feature, .offer], fun r =>
      (fieldsAt r "location").bind fun location => location.get "geometry"⟩,
    ⟨"location_change", [.situation, .feature, .offer], fun r => locationWithout r "geometry"⟩,
    ⟨"text_change", [.situation, .feature, .offer], fun r =>
      some (pickKeys r
        ["headline", "description", "instruction", "comments", "name", "altText", "displayText",
          "url"])⟩,
    ⟨"details_change", [.situation, .feature], fun r => r.get "details"⟩,
    ⟨"lifecycle_change", [.feature], fun r => r.get "lifecycle"⟩,
    ⟨"components_change", [.feature], fun r => r.get "components"⟩,
    ⟨"attributes_change", [.feature, .offer], fun r =>
      some (pickKeys r
        ["operator", "owner", "publisher", "openingHours", "access", "amenities", "images",
          "energyMix"])⟩,
    ⟨"price_change", [.offer], fun r =>
      some (pickKeys r
        ["currency", "elements", "minPrice", "maxPrice", "priceIncludesVat", "preauthorizeAmount",
          "tariffType", "scope", "applicability"])⟩,
    ⟨"references_change", [.situation, .feature, .offer], fun r =>
      some (pickKeys r ["externalIds", "relations", "subject", "affects", "groupId"])⟩,
    ⟨"source_change", [.situation, .feature, .offer], fun r =>
      some (.obj (Fields.given "provenance" (provenanceContent r) ++
        Fields.given "extras" (r.get "extras")))⟩]

/-! ## The change kinds of a revision -/

/-- The canonical text of a part of a record, which may be undefined. -/
def canonical (nums : NumberText) (value : Option Json) : String :=
  canonicalText nums (.obj (Fields.given "value" value))

/-- The change kinds of a new revision. -/
def computeChangeKinds (changeKinds : List ChangeKind) (nums : NumberText)
    (previous : Option Fields) (next : Fields) : List String :=
  match previous with
  | none => ["created"]
  | some previous =>
    if (next.get "tombstone").isSome ∧ (previous.get "tombstone").isNone then ["tombstoned"]
    else
      ((changeKinds.filter fun c => c.classes.any fun cls => some cls.name == textAt next "class").filter
        fun c => canonical nums (c.select previous) ≠ canonical nums (c.select next)).map
          ChangeKind.code

/-! ## Parts that say the same -/

section Parts

variable {nums : NumberText} {a b : Fields} {key : String}

/-- Parts have one canonical text exactly when they say the same. -/
theorem canonical_eq_iff {u v : Option Json} :
    canonical nums u = canonical nums v ↔ u.map Json.value = v.map Json.value := by
  unfold canonical
  rw [Json.canonicalText_eq_iff]
  constructor
  · intro h
    have hget := @Fields.get_of_value (Fields.given "value" u) (Fields.given "value" v) h "value"
    simpa using hget
  · intro h
    refine @Fields.value_ext (Fields.given "value" u) (Fields.given "value" v) fun key => ?_
    rw [Fields.get_given, Fields.get_given]
    split_ifs
    · exact h
    · rfl

/-- Some fields say the same exactly when each does. -/
theorem pickKeys_value_iff {keys : List String} :
    (some (pickKeys a keys)).map Json.value = (some (pickKeys b keys)).map Json.value ↔
      ∀ key ∈ keys, SameAt a b key := by
  rw [Option.map_some, Option.map_some, Option.some.injEq]
  constructor
  · intro h key hkey
    have hget := Fields.get_of_value h key
    rwa [Fields.get_flatMap_given, Fields.get_flatMap_given, if_pos hkey, if_pos hkey] at hget
  · intro h
    refine Fields.value_ext fun key => ?_
    rw [Fields.get_flatMap_given, Fields.get_flatMap_given]
    split_ifs with hkey
    · exact h key hkey
    · rfl

/-- An object says the same exactly when one of its fields and the rest of it do. -/
theorem value_iff_without {l m : Fields} :
    l.value = m.value ↔
      (l.get key).map Json.value = (m.get key).map Json.value ∧
        (l.without [key]).value = (m.without [key]).value := by
  constructor
  · intro h
    refine ⟨Fields.get_of_value h key, Fields.value_ext fun k => ?_⟩
    rw [Fields.get_without, Fields.get_without]
    split_ifs
    · rfl
    · exact Fields.get_of_value h k
  · rintro ⟨hkey, hrest⟩
    refine Fields.value_ext fun k => ?_
    by_cases hk : k = key
    · rw [hk, hkey]
    · have hget := Fields.get_of_value hrest k
      rwa [Fields.get_without, Fields.get_without, if_neg (by simpa using hk),
        if_neg (by simpa using hk)] at hget

/-- What is left of an object says the same exactly when the fields do that are left. -/
theorem without_value_iff {p q : Fields} {kept dropped : List String}
    (hp : ∀ key v, p.get key = some v → key ∈ kept ++ dropped)
    (hq : ∀ key v, q.get key = some v → key ∈ kept ++ dropped)
    (hapart : ∀ key ∈ kept, key ∉ dropped) :
    (p.without dropped).value = (q.without dropped).value ↔ ∀ key ∈ kept, SameAt p q key := by
  constructor
  · intro h key hkey
    have hget := Fields.get_of_value h key
    rwa [Fields.get_without, Fields.get_without, if_neg (hapart key hkey),
      if_neg (hapart key hkey)] at hget
  · intro h
    have hnone : ∀ {r : Fields} {k : String}, (∀ key v, r.get key = some v → key ∈ kept ++ dropped) →
        k ∉ dropped → k ∉ kept → r.get k = none := by
      intro r k hr hdropped hkept
      refine Option.eq_none_iff_forall_ne_some.mpr fun v hv => ?_
      rcases List.mem_append.mp (hr k v hv) with hk | hk
      · exact hkept hk
      · exact hdropped hk
    refine Fields.value_ext fun k => ?_
    rw [Fields.get_without, Fields.get_without]
    split_ifs with hdropped
    · rfl
    · by_cases hkept : k ∈ kept
      · exact h k hkept
      · rw [hnone hp hdropped hkept, hnone hq hdropped hkept]

/-- Two optional parts under two names say the same exactly when each does. -/
theorem given_pair_value_iff {k k' : String} (hne : k ≠ k') {u u' v v' : Option Json} :
    (some (Json.obj (Fields.given k u ++ Fields.given k' u'))).map Json.value =
        (some (Json.obj (Fields.given k v ++ Fields.given k' v'))).map Json.value ↔
      u.map Json.value = v.map Json.value ∧ u'.map Json.value = v'.map Json.value := by
  rw [Option.map_some, Option.map_some, Option.some.injEq]
  have hget : ∀ (w w' : Option Json) key, Fields.get (Fields.given k w ++ Fields.given k' w') key =
      if k = key then w else if k' = key then w' else none := by
    intro w w' key
    rw [Fields.get_append, Fields.get_given, Fields.get_given]
    by_cases hk : k = key
    · have hk' : ¬k' = key := fun h => hne (hk.trans h.symm)
      simp [hk, hk']
    · simp [hk]
  constructor
  · intro h
    have hfirst := Fields.get_of_value h k
    have hsecond := Fields.get_of_value h k'
    rw [hget, hget, if_pos rfl, if_pos rfl] at hfirst
    rw [hget, hget, if_neg hne, if_neg hne, if_pos rfl, if_pos rfl] at hsecond
    exact ⟨hfirst, hsecond⟩
  · rintro ⟨hfirst, hsecond⟩
    refine Fields.value_ext fun key => ?_
    rw [hget, hget]
    split_ifs
    · exact hfirst
    · exact hsecond
    · rfl

end Parts

/-! ## Records of one schema -/

/-- What the schema of a class says of a record's fields: the class's own are the only ones, and the
location and the provenance are given. -/
structure OfSchema (cls : RecordClass) (record location provenance : Fields) : Prop where
  cls_eq : record.get "class" = some (.str cls.name)
  known : ∀ key v, record.get key = some v → key ∈ contentFields cls ++ derivedFields cls
  location_eq : record.get "location" = some (.obj location)
  provenance_eq : record.get "provenance" = some (.obj provenance)
  provenanceKnown :
    ∀ key v, provenance.get key = some v → key ∈ Core.provenanceContent ++ provenanceDerived

section Schema

variable {nums : NumberText} {cls : RecordClass} {a b l m p q : Fields} {key : String}

/-- A class is the one of its name. -/
theorem classNamed_name (cls : RecordClass) : classNamed cls.name = some cls := by
  cases cls <;> decide

/-- The class of a record. -/
theorem OfSchema.textAt_class (h : OfSchema cls a l p) : textAt a "class" = some cls.name := by
  rw [textAt, h.cls_eq]
  rfl

/-- The location of a record. -/
theorem OfSchema.fieldsAt_location (h : OfSchema cls a l p) : fieldsAt a "location" = some l := by
  rw [fieldsAt, h.location_eq]
  rfl

/-- The provenance of a record. -/
theorem OfSchema.fieldsAt_provenance (h : OfSchema cls a l p) :
    fieldsAt a "provenance" = some p := by
  rw [fieldsAt, h.provenance_eq]
  rfl

/-- Records of one schema both lack what is not of it. -/
theorem OfSchema.sameAt_of_not_mem (ha : OfSchema cls a l p) (hb : OfSchema cls b m q)
    {keys : List String} (hkeys : ∀ key ∈ keys, key ∉ contentFields cls ++ derivedFields cls) :
    ∀ key ∈ keys, SameAt a b key := by
  intro key hkey
  have hnone : ∀ {r s t : Fields}, OfSchema cls r s t → r.get key = none := fun h =>
    Option.eq_none_iff_forall_ne_some.mpr fun v hv => hkeys key hkey (h.known key v hv)
  rw [SameAt, hnone ha, hnone hb]

/-- A record's content is its content fields, of its provenance the content fields. -/
theorem OfSchema.contentOf_eq (h : OfSchema cls a l p) :
    ∃ content own : Fields, contentOf nums a = .ok (content.put "provenance" (.obj own)) ∧
      (∀ key, content.get key = if key ∈ contentFields cls then a.get key else none) ∧
      ∀ key, own.get key = if key ∈ Core.provenanceContent then p.get key else none := by
  obtain ⟨content, hcontent, hget⟩ := @pick_eq_ok a _ _ cls.name h.known
  obtain ⟨own, hown, hgetOwn⟩ := @pick_eq_ok p _ _ "provenance" h.provenanceKnown
  refine ⟨content, own, ?_, hget, hgetOwn⟩
  unfold contentOf
  rw [h.textAt_class, Option.bind_some, classNamed_name]
  simp only [hcontent, h.fieldsAt_provenance, hown, bind, Except.bind]

/-- **Contents are the same** exactly when the content fields are, and those of the provenance. -/
theorem OfSchema.content_value_iff (ha : OfSchema cls a l p) (hb : OfSchema cls b m q) :
    ∃ content content' : Fields, contentOf nums a = .ok content ∧ contentOf nums b = .ok content' ∧
      (content.value = content'.value ↔
        (∀ key ∈ contentFields cls, key ≠ "provenance" → SameAt a b key) ∧
          ∀ key ∈ Core.provenanceContent, SameAt p q key) := by
  obtain ⟨content, own, hcontent, hget, hgetOwn⟩ := @OfSchema.contentOf_eq nums _ _ _ _ ha
  obtain ⟨content', own', hcontent', hget', hgetOwn'⟩ := @OfSchema.contentOf_eq nums _ _ _ _ hb
  refine ⟨_, _, hcontent, hcontent', ?_⟩
  have hown : own.value = own'.value ↔ ∀ key ∈ Core.provenanceContent, SameAt p q key := by
    constructor
    · intro h key hkey
      have hvalue := Fields.get_of_value h key
      rwa [hgetOwn, hgetOwn', if_pos hkey, if_pos hkey] at hvalue
    · intro h
      refine Fields.value_ext fun key => ?_
      rw [hgetOwn, hgetOwn']
      split_ifs with hkey
      · exact h key hkey
      · rfl
  rw [← hown]
  constructor
  · intro h
    refine ⟨fun key hkey hne => ?_, ?_⟩
    · have hvalue := Fields.get_of_value h key
      rwa [Fields.get_put, Fields.get_put, if_neg hne.symm, if_neg hne.symm, hget, hget',
        if_pos hkey, if_pos hkey] at hvalue
    · have hvalue := Fields.get_of_value h "provenance"
      rw [Fields.get_put, Fields.get_put, if_pos rfl, if_pos rfl] at hvalue
      exact Option.some.inj hvalue
  · rintro ⟨hfields, hprovenance⟩
    refine Fields.value_ext fun key => ?_
    rw [Fields.get_put, Fields.get_put, hget, hget']
    by_cases hkey : "provenance" = key
    · rw [if_pos hkey, if_pos hkey]
      exact congrArg some hprovenance
    · rw [if_neg hkey, if_neg hkey]
      split_ifs with hmem
      · exact hfields key hmem (Ne.symm hkey)
      · rfl

/-! ## What the kernel watches -/

/-- The location is the same exactly when its geometry and the rest of it are. -/
theorem OfSchema.sameAt_location_iff (ha : OfSchema cls a l p) (hb : OfSchema cls b m q) :
    SameAt a b "location" ↔
      ((fieldsAt a "location").bind fun location => location.get "geometry").map Json.value =
          ((fieldsAt b "location").bind fun location => location.get "geometry").map Json.value ∧
        (locationWithout a "geometry").map Json.value =
          (locationWithout b "geometry").map Json.value := by
  rw [SameAt, ha.location_eq, hb.location_eq, locationWithout, locationWithout,
    ha.fieldsAt_location, hb.fieldsAt_location]
  simp only [Option.map_some, Option.bind_some, Option.some.injEq]
  exact value_iff_without

/-- The source part is the same exactly when the provenance's content and the extras are. -/
theorem OfSchema.source_value_iff (ha : OfSchema cls a l p) (hb : OfSchema cls b m q) :
    (some (Json.obj (Fields.given "provenance" (provenanceContent a) ++
          Fields.given "extras" (a.get "extras")))).map Json.value =
        (some (Json.obj (Fields.given "provenance" (provenanceContent b) ++
          Fields.given "extras" (b.get "extras")))).map Json.value ↔
      (∀ key ∈ Core.provenanceContent, SameAt p q key) ∧ SameAt a b "extras" := by
  rw [given_pair_value_iff (by decide), provenanceContent, provenanceContent,
    ha.fieldsAt_provenance, hb.fieldsAt_provenance]
  simp only [Option.map_some, Option.some.injEq]
  exact and_congr_left' (without_value_iff ha.provenanceKnown hb.provenanceKnown (by decide))

/-- **The kernel watches the content**: of two records of one class and id, every change kind's part
is the same exactly when the content is. -/
theorem OfSchema.watched_iff (ha : OfSchema cls a l p) (hb : OfSchema cls b m q)
    (hcls : cls ≠ .observation) (hid : SameAt a b "id") :
    (∀ c ∈ kernelChangeKinds, cls ∈ c.classes →
        (c.select a).map Json.value = (c.select b).map Json.value) ↔
      (∀ key ∈ contentFields cls, key ≠ "provenance" → SameAt a b key) ∧
        ∀ key ∈ Core.provenanceContent, SameAt p q key := by
  have hclass : SameAt a b "class" := by rw [SameAt, ha.cls_eq, hb.cls_eq]
  have hlocation := ha.sameAt_location_iff hb
  have hget : ∀ key, (a.get key).map Json.value = (b.get key).map Json.value ↔ SameAt a b key :=
    fun key => Iff.rfl
  simp only [kernelChangeKinds, List.forall_mem_cons, pickKeys_value_iff, ha.source_value_iff hb,
    hget]
  cases cls with
  | observation => exact absurd rfl hcls
  | situation =>
    -- A class has none of the fields that the kernel watches for the others only.
    have hothers := @OfSchema.sameAt_of_not_mem _ a b l m p q ha hb
      ["name", "altText", "displayText", "url", "subject"] (by decide)
    simp only [List.forall_mem_cons] at hothers
    simp [contentFields, baseContent, hlocation, hid, hclass, hothers]
    tauto
  | feature =>
    have hothers := @OfSchema.sameAt_of_not_mem _ a b l m p q ha hb
      ["causes", "planned", "certainty", "headline", "instruction", "comments", "altText",
        "displayText", "url", "energyMix", "subject", "affects", "groupId"] (by decide)
    simp only [List.forall_mem_cons] at hothers
    simp [contentFields, baseContent, hlocation, hid, hclass, hothers]
    tauto
  | offer =>
    have hothers := @OfSchema.sameAt_of_not_mem _ a b l m p q ha hb
      ["type", "subtype", "causes", "planned", "certainty", "headline", "description",
        "instruction", "comments", "name", "operator", "owner", "publisher", "openingHours",
        "access", "amenities", "images", "affects", "groupId"] (by decide)
    simp only [List.forall_mem_cons] at hothers
    simp [contentFields, baseContent, hlocation, hid, hclass, hothers]
    tauto

/-- **A content change names a change kind, and only it does.** Of two revisions of one record that
are both live or both tombstoned, the later one names a change kind exactly when the canonical texts
of their contents differ. -/
theorem computeChangeKinds_ne_nil_iff (ha : OfSchema cls a l p) (hb : OfSchema cls b m q)
    (hcls : cls ≠ .observation)
    (hid : (a.get "id").map Json.value = (b.get "id").map Json.value)
    (htombstone : (a.get "tombstone").isSome = (b.get "tombstone").isSome) :
    ∃ previous next : Fields, contentOf nums a = .ok previous ∧ contentOf nums b = .ok next ∧
      (computeChangeKinds kernelChangeKinds nums (some a) b ≠ [] ↔
        canonicalText nums (.obj previous) ≠ canonicalText nums (.obj next)) := by
  obtain ⟨previous, next, hprevious, hnext, hcontent⟩ :=
    @OfSchema.content_value_iff nums cls a b l m p q ha hb
  refine ⟨previous, next, hprevious, hnext, not_congr ?_⟩
  have hlive : ¬((b.get "tombstone").isSome = true ∧ (a.get "tombstone").isNone = true) := by
    rintro ⟨hsome, hnone⟩
    rw [← htombstone, Option.isSome_iff_ne_none] at hsome
    exact hsome (Option.isNone_iff_eq_none.mp hnone)
  have hclass : ∀ c : ChangeKind,
      (c.classes.any fun cls' => some cls'.name == textAt b "class") = true ↔ cls ∈ c.classes := by
    intro c
    have hname : ∀ cls', cls'.name = cls.name → cls' = cls := by
      intro cls' h
      exact Option.some.inj (by rw [← classNamed_name cls', h, classNamed_name])
    rw [hb.textAt_class, List.any_eq_true]
    constructor
    · rintro ⟨cls', hmem, heq⟩
      exact hname cls' (Option.some.inj (eq_of_beq heq)) ▸ hmem
    · exact fun hmem => ⟨cls, hmem, beq_self_eq_true _⟩
  have hwatched : computeChangeKinds kernelChangeKinds nums (some a) b = [] ↔
      ∀ c ∈ kernelChangeKinds, cls ∈ c.classes →
        (c.select a).map Json.value = (c.select b).map Json.value := by
    unfold computeChangeKinds
    simp only [if_neg hlive, List.map_eq_nil_iff, List.filter_eq_nil_iff, List.mem_filter, hclass,
      canonical_eq_iff, decide_eq_true_eq, not_not, and_imp]
  rw [hwatched, ha.watched_iff hb hcls hid, Json.canonicalText_eq_iff]
  exact hcontent.symm

end Schema

/-! ## Observations -/

/-- An observation's content is the one that the hash of an observation covers. -/
theorem contentOf_observation {nums : NumberText} {record : Fields}
    (h : textAt record "class" = some "observation") :
    contentOf nums record = Core.contentOf record := by
  have hnamed : classNamed "observation" = some .observation := by decide
  unfold contentOf
  rw [h, Option.bind_some, hnamed]
  rfl

/-! ## A situation -/

/-- The location of a situation. -/
def sampleLocation : Fields :=
  [("geometry", .obj [("type", .str "Point"), ("coordinates", .arr [.num 9, .num 51])]),
    ("extent", .str "point"), ("geometryOrigin", .str "source"), ("fuzziness", .str "exact")]

/-- The provenance of a situation. -/
def sampleProvenance (instanceId : String) : Fields :=
  [("origin", .str "feed"), ("sourceId", .str "feed-a"), ("sourceFormat", .str "datex2_v3"),
    ("accessMode", .str "bulk"), ("recordId", .str "SIT-1"),
    ("attribution", .obj [("provider", .str "A"), ("license", .str "CC0-1.0")]),
    ("privacy", .obj [("class", .str "authoritative")]), ("instanceId", .str instanceId)]

/-- A revision of a situation. -/
def sampleSituation (instanceId type : String) : Fields :=
  [("id", .str "oc:situation:feed-a:SIT-1"), ("class", .str "situation"),
    ("kind", .str "incident"), ("temporality", .str "live"), ("location", .obj sampleLocation),
    ("provenance", .obj (sampleProvenance instanceId)),
    ("freshness", .obj [("fetchedAt", .str "2026-09-18T10:00:00Z")]), ("type", .str type),
    ("planned", .bool false), ("certainty", .str "observed"),
    ("severity", .obj [("label", .str "unknown")]),
    ("validity", .obj [("status", .str "active")]), ("effects", .arr []),
    ("details", .obj [("kind", .str "incident"), ("v", .num 1), ("vehiclesInvolved", .num 2)])]

/-- The fields of an object are of some names, if its entries are. -/
theorem known_of_names {fields : Fields} {names : List String}
    (h : (fields.map Prod.fst).all names.contains = true) (key : String) (v : Json)
    (hv : fields.get key = some v) : key ∈ names := by
  have := List.all_eq_true.mp h key (List.mem_map_of_mem (f := Prod.fst) (Fields.mem_of_get hv))
  simpa using this

/-- The revisions of the situation are of the schema. -/
theorem ofSchema_sampleSituation (instanceId type : String) :
    OfSchema .situation (sampleSituation instanceId type) sampleLocation
      (sampleProvenance instanceId) where
  cls_eq := rfl
  known := known_of_names rfl
  location_eq := rfl
  provenance_eq := rfl
  provenanceKnown := known_of_names rfl

/-- Two revisions of the situation, stored by two instances. -/
theorem computeChangeKinds_ne_nil_iff_sample :
    ∃ previous next : Fields,
      contentOf Json.plainNumbers (sampleSituation "a.example" "accident") = .ok previous ∧
      contentOf Json.plainNumbers (sampleSituation "b.example" "breakdown") = .ok next ∧
      (computeChangeKinds kernelChangeKinds Json.plainNumbers
            (some (sampleSituation "a.example" "accident")) (sampleSituation "b.example" "breakdown")
          ≠ [] ↔
        canonicalText Json.plainNumbers (.obj previous) ≠
          canonicalText Json.plainNumbers (.obj next)) :=
  computeChangeKinds_ne_nil_iff (ofSchema_sampleSituation _ _) (ofSchema_sampleSituation _ _)
    (by decide) rfl rfl

end OpenConditions.Core.ChangeKinds

import OpenConditions.Registry.CrosswalkRows

set_option relaxedAutoImplicit false
set_option autoImplicit false

/-!
# Emitting and parsing back

The code emitted for a classification parses to it or to a generalisation of it when the code comes
from a mapping of its own type or subtype, and always for features, whose kinds' codes are parsed as
well.  A code of a situation kind is only emitted: nothing keeps a type of another kind from having
it too, and then it parses to that type.

## Main definitions

* `RoundTrips` — emitting and parsing back never changes meaning.
* `KindCodesApart` — a code that a situation falls back to its kind for is no code of a type.

## Main results

* `roundTrips_iff` — meaning is kept exactly when the codes of kinds are apart.
-/

namespace OpenConditions.Registry

/-! ## What is registered -/

/-- A situation classification of the entries. -/
def RegisteredSituation (entries : List RegistryEntry) (c : SituationClass) : Prop :=
  ∃ e, .kind e ∈ entries ∧ e.kindClass = .situation ∧ e.code = c.kind ∧
    ∃ subtypes, e.types.get c.type = some subtypes ∧ ∀ s, c.subtype = some s → s ∈ subtypes

/-- A feature classification of the entries. -/
def RegisteredFeature (entries : List RegistryEntry) (c : FeatureClass) : Prop :=
  ∃ e, .kind e ∈ entries ∧ e.kindClass = .feature ∧ e.code = c.kind ∧
    ((c.type = none ∧ c.subtype = none) ∨ ∃ type subtypes, c.type = some type ∧
      e.types.get type = some subtypes ∧ ∀ s, c.subtype = some s → s ∈ subtypes)

/-- A vocabulary value of the entries that has mappings. -/
def RegisteredValue (entries : List RegistryEntry) (vocabulary v : String) : Prop :=
  ∃ valueMappings, (.vocabulary vocabulary valueMappings ∈ entries ∨
    .vocabularyExtension vocabulary valueMappings ∈ entries) ∧ v ∈ valueMappings.keys

/-- A classification is another, or its type. -/
def SituationClass.Generalises (p c : SituationClass) : Prop := p = c ∨ p = ⟨c.kind, c.type, none⟩

/-- A classification is another, its type or its kind. -/
def FeatureClass.Generalises (p c : FeatureClass) : Prop :=
  p = c ∨ p = ⟨c.kind, c.type, none⟩ ∨ p = ⟨c.kind, none, none⟩

/-- **No part of a code can be taken for two**: kinds, types and subtypes hold no dot, vocabularies
and values no character of code 0. -/
structure PlainCodes (entries : List RegistryEntry) : Prop where
  kind : ∀ e, .kind e ∈ entries → DotFree e.code ∧ ∀ type subtypes,
    e.types.get type = some subtypes → DotFree type ∧ ∀ s ∈ subtypes, DotFree s
  vocabulary : ∀ vocabulary valueMappings, (.vocabulary vocabulary valueMappings ∈ entries ∨
    .vocabularyExtension vocabulary valueMappings ∈ entries) →
      NulFree vocabulary ∧ ∀ v ∈ valueMappings.keys, NulFree v

/-- **Emitting and parsing back never changes meaning**, for every parsed target. -/
structure RoundTrips (entries : List RegistryEntry) (cw : Crosswalk) : Prop where
  situation : ∀ target : MappingTarget, target.ingest = true → ∀ c, RegisteredSituation entries c →
    ∀ code, cw.situationTargetCode target c = some code → ∀ p, cw.situation target code = some p →
      p.Generalises c
  feature : ∀ target : MappingTarget, target.ingest = true → ∀ c, RegisteredFeature entries c →
    ∀ code, cw.featureTargetCode target c = some code → ∀ p, cw.feature target code = some p →
      p.Generalises c
  value : ∀ target : MappingTarget, target.ingest = true → ∀ vocabulary v enumeration code,
    RegisteredValue entries vocabulary v →
    cw.valueTargetCode target vocabulary v enumeration = some code →
      cw.value target vocabulary code = some v
  property : ∀ target : MappingTarget, target.ingest = true → ∀ p code,
    cw.propertyTargetCode target p = some code → cw.property target code = some p
  situationAgain : ∀ target code c, cw.situation target code = some c → ∃ code',
    cw.situationTargetCode target c = some code' ∧ cw.situation target code' = some c
  featureAgain : ∀ target code c, cw.feature target code = some c → ∃ code',
    cw.featureTargetCode target c = some code' ∧ cw.feature target code' = some c
  valueAgain : ∀ target vocabulary code v, (∃ w, RegisteredValue entries vocabulary w) →
    cw.value target vocabulary code = some v → ∃ code',
      cw.valueTargetCode target vocabulary v none = some code' ∧
        cw.value target vocabulary code' = some v
  propertyAgain : ∀ target code p, cw.property target code = some p → ∃ code',
    cw.propertyTargetCode target p = some code' ∧ cw.property target code' = some p

/-- The code a row gives a situation kind. -/
def CrosswalkRow.kindCode (target : MappingTarget) (kind : String) : CrosswalkRow → Option String
  | .situationKind t k code => if t = target ∧ k = kind then some code else none
  | _ => none

/-- **The codes of kinds are apart from those of types**: the first code of a kind, where a situation
falls back to it since neither it nor its type has one of its own, is the code of no type. -/
def KindCodesApart (entries : List RegistryEntry) : Prop :=
  ∀ target : MappingTarget, target.ingest = true → ∀ c, RegisteredSituation entries c →
    (∀ code, .situation target c code ∉ entries.flatMap rowsOf) →
    (∀ code, .situation target ⟨c.kind, c.type, none⟩ code ∉ entries.flatMap rowsOf) →
    ∀ code, (entries.flatMap rowsOf).findSome? (CrosswalkRow.kindCode target c.kind) = some code →
    ∀ c', .situation target c' code ∉ entries.flatMap rowsOf

/-! ## The rows of the entries -/

section Rows

variable {entries : List RegistryEntry}

/-- A key of type mappings that passes names registered types. -/
theorem registeredTypeKey_eq_some {types : OrderedMap String (List String)} {key type : String}
    {subtype : Option String} (h : registeredTypeKey types key = some (type, subtype)) :
    ∃ subtypes, types.get type = some subtypes ∧ ∀ s, subtype = some s → s ∈ subtypes := by
  unfold registeredTypeKey at h
  split at h
  · obtain ⟨subtypes, hget, heq⟩ := Option.map_eq_some_iff.mp h
    obtain ⟨rfl, rfl⟩ := Prod.mk.inj heq
    exact ⟨subtypes, hget, fun s hs => by cases hs⟩
  · split at h
    · cases h
    · next subtypes hget =>
      split_ifs at h with hmem
      obtain ⟨rfl, rfl⟩ := Prod.mk.inj (Option.some.inj h)
      refine ⟨subtypes, hget, fun s hs => ?_⟩
      obtain rfl := Option.some.inj hs
      exact List.contains_iff_mem.mp hmem
  · cases h

/-- A row of type mappings is an unregistered key, or of registered types. -/
theorem mem_typeRows {e : KindEntry} {where_ : String}
    {row : String → Option String → MappingTarget → String → CrosswalkRow}
    {entry : String × Mappings} {r : CrosswalkRow} (h : r ∈ typeRows e where_ row entry) :
    r = .unregistered where_ entry.1 ∨ ∃ type subtype subtypes target code,
      e.types.get type = some subtypes ∧ (∀ s, subtype = some s → s ∈ subtypes) ∧
        r = row type subtype target code := by
  unfold typeRows at h
  split at h
  · exact Or.inl (List.mem_singleton.mp h)
  · next type subtype hkey =>
    obtain ⟨m, -, rfl⟩ := List.mem_map.mp h
    obtain ⟨subtypes, hget, hsub⟩ := registeredTypeKey_eq_some hkey
    exact Or.inr ⟨type, subtype, subtypes, m.1, m.2, hget, hsub, rfl⟩

/-- What a row tells is registered. -/
def CrosswalkRow.Registered (entries : List RegistryEntry) : CrosswalkRow → Prop
  | .situation _ c _ => RegisteredSituation entries c
  | .situationKind _ kind _ => ∃ e, .kind e ∈ entries ∧ e.code = kind
  | .feature _ c _ => RegisteredFeature entries c
  | .value _ vocabulary v _ => RegisteredValue entries vocabulary v
  | _ => True

/-- What a row of the entries tells is registered. -/
theorem registered_of_mem {r : CrosswalkRow} (h : r ∈ entries.flatMap rowsOf) :
    r.Registered entries := by
  obtain ⟨entry, hentry, hr⟩ := List.mem_flatMap.mp h
  have hvalues : ∀ {vocabulary : String} {valueMappings : OrderedMap String Mappings},
      (.vocabulary vocabulary valueMappings ∈ entries ∨
        .vocabularyExtension vocabulary valueMappings ∈ entries) →
      r ∈ valueMappings.entries.flatMap (fun v =>
        (each v.2).map fun m => CrosswalkRow.value m.1 vocabulary v.1 m.2) →
      ∃ target v code, r = .value target vocabulary v code ∧
        RegisteredValue entries vocabulary v := by
    intro vocabulary valueMappings hin hr
    obtain ⟨v, hv, hr⟩ := List.mem_flatMap.mp hr
    obtain ⟨m, -, rfl⟩ := List.mem_map.mp hr
    exact ⟨m.1, v.1, m.2, rfl, valueMappings, hin, List.mem_map.mpr ⟨v, hv, rfl⟩⟩
  cases entry with
  | kind e =>
    simp only [rowsOf] at hr
    cases hclass : e.kindClass with
    | situation =>
      rw [hclass] at hr
      rcases List.mem_append.mp hr with hr | hr
      · obtain ⟨m, -, rfl⟩ := List.mem_map.mp hr
        exact ⟨e, hentry, rfl⟩
      · obtain ⟨t, -, hr⟩ := List.mem_flatMap.mp hr
        rcases mem_typeRows hr with rfl | ⟨type, subtype, subtypes, target, code, hget, hsub, rfl⟩
        · trivial
        · exact ⟨e, hentry, hclass, rfl, subtypes, hget, hsub⟩
    | feature =>
      rw [hclass] at hr
      rcases List.mem_append.mp hr with hr | hr
      · obtain ⟨m, -, rfl⟩ := List.mem_map.mp hr
        exact ⟨e, hentry, hclass, rfl, Or.inl ⟨rfl, rfl⟩⟩
      · obtain ⟨t, -, hr⟩ := List.mem_flatMap.mp hr
        rcases mem_typeRows hr with rfl | ⟨type, subtype, subtypes, target, code, hget, hsub, rfl⟩
        · trivial
        · exact ⟨e, hentry, hclass, rfl, Or.inr ⟨type, subtypes, rfl, hget, hsub⟩⟩
    | component =>
      rw [hclass] at hr
      cases hr
    | offer =>
      rw [hclass] at hr
      cases hr
  | property code mappings =>
    obtain ⟨m, -, rfl⟩ := List.mem_map.mp hr
    trivial
  | vocabulary vocabulary valueMappings =>
    obtain ⟨target, v, code, rfl, hv⟩ := hvalues (Or.inl hentry) hr
    exact hv
  | vocabularyExtension vocabulary valueMappings =>
    obtain ⟨target, v, code, rfl, hv⟩ := hvalues (Or.inr hentry) hr
    exact hv
  | other => cases hr

/-- The parts of a registered situation hold no dot. -/
theorem PlainCodes.situation (h : PlainCodes entries) {c : SituationClass}
    (hc : RegisteredSituation entries c) : ∀ p ∈ c.parts, DotFree p := by
  obtain ⟨e, he, -, hkind, subtypes, htype, hsub⟩ := hc
  obtain ⟨hcode, htypes⟩ := h.kind e he
  obtain ⟨htypeFree, hsubFree⟩ := htypes c.type subtypes htype
  intro p hp
  simp only [SituationClass.parts, List.mem_cons, Option.mem_toList] at hp
  rcases hp with rfl | rfl | hp
  · exact hkind ▸ hcode
  · exact htypeFree
  · exact hsubFree p (hsub p hp)

/-- The parts of a registered feature hold no dot. -/
theorem PlainCodes.feature (h : PlainCodes entries) {c : FeatureClass}
    (hc : RegisteredFeature entries c) : ∀ p ∈ c.parts, DotFree p := by
  obtain ⟨e, he, -, hkind, hrest⟩ := hc
  obtain ⟨hcode, htypes⟩ := h.kind e he
  intro p hp
  simp only [FeatureClass.parts, List.cons_append, List.mem_cons, List.mem_append,
    Option.mem_toList] at hp
  rcases hp with rfl | hp
  · exact hkind ▸ hcode
  · rcases hrest with ⟨htype, hsubtype⟩ | ⟨type, subtypes, htype, hget, hsub⟩
    · rw [htype, hsubtype] at hp
      simp at hp
    · obtain ⟨htypeFree, hsubFree⟩ := htypes type subtypes hget
      rcases hp with hp | hp
      · rw [htype, Option.some.injEq] at hp
        exact hp ▸ htypeFree
      · exact hsubFree p (hsub p hp)

/-- A registered situation is told by its code. -/
theorem PlainCodes.situationCode_inj (h : PlainCodes entries) {c c' : SituationClass}
    (hc : RegisteredSituation entries c) (hc' : RegisteredSituation entries c')
    (heq : situationCode c = situationCode c') : c = c' := by
  have hparts : c.parts = c'.parts := joinDots_inj (h.situation hc) (h.situation hc')
    (List.cons_ne_nil _ _) (List.cons_ne_nil _ _) (String.ofList_injective heq)
  obtain ⟨kind, type, subtype⟩ := c
  obtain ⟨kind', type', subtype'⟩ := c'
  simp only [SituationClass.parts, List.cons.injEq] at hparts
  obtain ⟨rfl, rfl, hsub⟩ := hparts
  cases subtype <;> cases subtype' <;> simp_all

/-- The code of a registered situation is not that of a kind. -/
theorem PlainCodes.situationCode_ne (h : PlainCodes entries) {c : SituationClass} {e : KindEntry}
    (hc : RegisteredSituation entries c) (he : .kind e ∈ entries) : situationCode c ≠ e.code := by
  intro heq
  have hcode : situationCode c = String.ofList (joinDots [e.code]) := by
    rw [heq, joinDots, String.ofList_toList]
  have hparts : c.parts = [e.code] := by
    refine joinDots_inj (h.situation hc) (fun q hq => ?_) (List.cons_ne_nil _ _)
      (List.cons_ne_nil _ _) (String.ofList_injective hcode)
    rw [List.mem_singleton.mp hq]
    exact (h.kind e he).1
  simp [SituationClass.parts] at hparts

/-- A feature with no subtype unless it has a type is told by its code. -/
theorem PlainCodes.featureCode_inj (h : PlainCodes entries) {c c' : FeatureClass}
    (hc : RegisteredFeature entries c) (hc' : RegisteredFeature entries c')
    (heq : featureCode c = featureCode c') : c = c' := by
  have hparts : c.parts = c'.parts := joinDots_inj (h.feature hc) (h.feature hc')
    (by simp [FeatureClass.parts]) (by simp [FeatureClass.parts]) (String.ofList_injective heq)
  obtain ⟨kind, type, subtype⟩ := c
  obtain ⟨kind', type', subtype'⟩ := c'
  obtain ⟨e, -, -, -, hrest⟩ := hc
  obtain ⟨e', -, -, -, hrest'⟩ := hc'
  simp only at hrest hrest'
  cases type <;> cases subtype <;> cases type' <;> cases subtype' <;>
    simp_all [FeatureClass.parts]

/-! ## The indexes of the entries -/

variable {cw : Crosswalk}

/-- A parsed situation is one that a row has the code of. -/
theorem PlainCodes.situation_iff (h : PlainCodes entries) (hbuild : buildCrosswalk entries = .ok cw)
    {target : MappingTarget} {code : String} {c : SituationClass} :
    cw.situation target code = some c ↔
      target.ingest = true ∧ .situation target c code ∈ entries.flatMap rowsOf := by
  have hinj : ∀ k c c', (k, c) ∈ (entries.flatMap rowsOf).flatMap CrosswalkRow.situationIns →
      (k, c') ∈ (entries.flatMap rowsOf).flatMap CrosswalkRow.situationIns →
      situationCode c = situationCode c' → c = c' := by
    intro k c c' hc hc' heq
    obtain ⟨_, _, -, -, hrow⟩ := mem_situationIns.mp hc
    obtain ⟨_, _, -, -, hrow'⟩ := mem_situationIns.mp hc'
    exact h.situationCode_inj (registered_of_mem hrow) (registered_of_mem hrow') heq
  unfold Crosswalk.situation
  rw [CodeIndex.get_iff hinj (indexed_of_buildCrosswalk hbuild).situations, mem_situationIns]
  constructor
  · rintro ⟨target', code', hingest, hkey, hrow⟩
    obtain ⟨rfl, rfl⟩ := keyOf_target_inj hkey
    exact ⟨hingest, hrow⟩
  · rintro ⟨hingest, hrow⟩
    exact ⟨target, code, hingest, rfl, hrow⟩

/-- A parsed feature is one that a row has the code of. -/
theorem PlainCodes.feature_iff (h : PlainCodes entries) (hbuild : buildCrosswalk entries = .ok cw)
    {target : MappingTarget} {code : String} {c : FeatureClass} :
    cw.feature target code = some c ↔
      target.ingest = true ∧ .feature target c code ∈ entries.flatMap rowsOf := by
  have hinj : ∀ k c c', (k, c) ∈ (entries.flatMap rowsOf).flatMap CrosswalkRow.featureIns →
      (k, c') ∈ (entries.flatMap rowsOf).flatMap CrosswalkRow.featureIns →
      featureCode c = featureCode c' → c = c' := by
    intro k c c' hc hc' heq
    obtain ⟨_, _, -, -, hrow⟩ := mem_featureIns.mp hc
    obtain ⟨_, _, -, -, hrow'⟩ := mem_featureIns.mp hc'
    exact h.featureCode_inj (registered_of_mem hrow) (registered_of_mem hrow') heq
  unfold Crosswalk.feature
  rw [CodeIndex.get_iff hinj (indexed_of_buildCrosswalk hbuild).features, mem_featureIns]
  constructor
  · rintro ⟨target', code', hingest, hkey, hrow⟩
    obtain ⟨rfl, rfl⟩ := keyOf_target_inj hkey
    exact ⟨hingest, hrow⟩
  · rintro ⟨hingest, hrow⟩
    exact ⟨target, code, hingest, rfl, hrow⟩

/-- A parsed property is one that a row has the code of. -/
theorem property_iff (hbuild : buildCrosswalk entries = .ok cw) {target : MappingTarget}
    {code p : String} : cw.property target code = some p ↔
      target.ingest = true ∧ .property target p code ∈ entries.flatMap rowsOf := by
  unfold Crosswalk.property
  rw [CodeIndex.get_iff (fun _ _ _ _ _ heq => heq) (indexed_of_buildCrosswalk hbuild).properties,
    mem_propertyIns]
  constructor
  · rintro ⟨target', code', hingest, hkey, hrow⟩
    obtain ⟨rfl, rfl⟩ := keyOf_target_inj hkey
    exact ⟨hingest, hrow⟩
  · rintro ⟨hingest, hrow⟩
    exact ⟨target, code, hingest, rfl, hrow⟩

/-- A parsed value of a plain vocabulary is one that a row has the code of. -/
theorem PlainCodes.value_iff (h : PlainCodes entries) (hbuild : buildCrosswalk entries = .ok cw)
    {target : MappingTarget} {vocabulary code v : String} (hvocabulary : NulFree vocabulary) :
    cw.value target vocabulary code = some v ↔
      target.ingest = true ∧ .value target vocabulary v code ∈ entries.flatMap rowsOf := by
  unfold Crosswalk.value
  rw [CodeIndex.get_iff (fun _ _ _ _ _ heq => heq) (indexed_of_buildCrosswalk hbuild).values,
    mem_valueIns]
  constructor
  · rintro ⟨target', vocabulary', code', hingest, hkey, hrow⟩
    obtain ⟨rfl, hcode⟩ := keyOf_target_inj hkey
    obtain ⟨valueMappings, hin, -⟩ := registered_of_mem hrow
    obtain ⟨rfl, rfl⟩ := keyOf_inj hvocabulary (h.vocabulary _ _ hin).1 hcode
    exact ⟨hingest, hrow⟩
  · rintro ⟨hingest, hrow⟩
    exact ⟨target, vocabulary, code, hingest, rfl, hrow⟩

/-- A code of a registered situation comes from a row of it. -/
theorem PlainCodes.situationOut (h : PlainCodes entries) (hbuild : buildCrosswalk entries = .ok cw)
    {target : MappingTarget} {code : String} {c : SituationClass} (hc : RegisteredSituation entries c)
    (hcode : cw.situationOut.get (keyOf target.name (situationCode c)) = some code) :
    .situation target c code ∈ entries.flatMap rowsOf := by
  rw [(indexed_of_buildCrosswalk hbuild).situationOut] at hcode
  rcases mem_situationOuts.mp (CodeIndex.mem_of_get_foldl_addFirst hcode) with
    ⟨target', kind, hkey, hrow⟩ | ⟨target', c', hkey, hrow⟩
  · obtain ⟨-, hkind⟩ := keyOf_target_inj hkey
    obtain ⟨e, he, rfl⟩ := registered_of_mem hrow
    exact absurd hkind (h.situationCode_ne hc he)
  · obtain ⟨rfl, hsame⟩ := keyOf_target_inj hkey
    rwa [h.situationCode_inj hc (registered_of_mem hrow) hsame]

/-- A situation with a row has a code. -/
theorem situationOut_isSome (hbuild : buildCrosswalk entries = .ok cw) {target : MappingTarget}
    {code : String} {c : SituationClass} (hrow : .situation target c code ∈ entries.flatMap rowsOf) :
    ∃ code', cw.situationOut.get (keyOf target.name (situationCode c)) = some code' := by
  rw [(indexed_of_buildCrosswalk hbuild).situationOut]
  exact CodeIndex.get_foldl_addFirst_isSome
    (mem_situationOuts.mpr (Or.inr ⟨target, c, rfl, hrow⟩))

/-- A code of a kind is the first that a row gives it. -/
theorem PlainCodes.situationOut_kind (h : PlainCodes entries)
    (hbuild : buildCrosswalk entries = .ok cw) {target : MappingTarget} {e : KindEntry}
    (he : .kind e ∈ entries) : cw.situationOut.get (keyOf target.name e.code) =
      (entries.flatMap rowsOf).findSome? (CrosswalkRow.kindCode target e.code) := by
  rw [(indexed_of_buildCrosswalk hbuild).situationOut, CodeIndex.get_foldl_addFirst,
    Crosswalk.empty, OrderedMap.get_empty, Option.none_or, List.find?_flatMap, List.map_findSome?]
  refine CodeIndex.findSome?_congr fun row hrow => ?_
  cases row with
  | situationKind target' kind code =>
    by_cases hsame : target' = target ∧ kind = e.code
    · simp [CrosswalkRow.situationOuts, CrosswalkRow.kindCode, hsame]
    · have hkey : ¬keyOf target'.name kind = keyOf target.name e.code :=
        fun heq => hsame (keyOf_target_inj heq)
      simp [CrosswalkRow.situationOuts, CrosswalkRow.kindCode, hsame, hkey]
  | situation target' c code =>
    have hkey : ¬keyOf target'.name (situationCode c) = keyOf target.name e.code :=
      fun heq => h.situationCode_ne (registered_of_mem hrow) he (keyOf_target_inj heq).2
    simp [CrosswalkRow.situationOuts, CrosswalkRow.kindCode, hkey]
  | unregistered | feature | property | value => rfl

/-- A code of a registered feature comes from a row of it. -/
theorem PlainCodes.featureOut (h : PlainCodes entries) (hbuild : buildCrosswalk entries = .ok cw)
    {target : MappingTarget} {code : String} {c : FeatureClass} (hc : RegisteredFeature entries c)
    (hcode : cw.featureOut.get (keyOf target.name (featureCode c)) = some code) :
    .feature target c code ∈ entries.flatMap rowsOf := by
  rw [(indexed_of_buildCrosswalk hbuild).featureOut] at hcode
  obtain ⟨target', c', hkey, hrow⟩ := mem_featureOuts.mp (CodeIndex.mem_of_get_foldl_addFirst hcode)
  obtain ⟨rfl, hsame⟩ := keyOf_target_inj hkey
  rwa [h.featureCode_inj hc (registered_of_mem hrow) hsame]

/-! ## The round trips -/

/-- A situation's code, where it is not its kind's, parses to it or to its type. -/
theorem PlainCodes.situation_of_own (h : PlainCodes entries)
    (hbuild : buildCrosswalk entries = .ok cw) {target : MappingTarget} {code : String}
    {c p : SituationClass} (hc : RegisteredSituation entries c)
    (hown : (cw.situationOut.get (keyOf target.name (situationCode c))).or
      (cw.situationOut.get (keyOf target.name (situationCode ⟨c.kind, c.type, none⟩))) = some code)
    (hp : cw.situation target code = some p) : p.Generalises c := by
  have hingest : target.ingest = true := ((h.situation_iff hbuild).mp hp).1
  have htypeOf : RegisteredSituation entries ⟨c.kind, c.type, none⟩ := by
    obtain ⟨e, he, hclass, hkind, subtypes, htype, -⟩ := hc
    exact ⟨e, he, hclass, hkind, subtypes, htype, fun s hs => by cases hs⟩
  rcases Option.or_eq_some_iff.mp hown with hcode | ⟨-, hcode⟩
  · have hrow := h.situationOut hbuild hc hcode
    rw [(h.situation_iff hbuild).mpr ⟨hingest, hrow⟩] at hp
    exact Or.inl (Option.some.inj hp).symm
  · have hrow := h.situationOut hbuild htypeOf hcode
    rw [(h.situation_iff hbuild).mpr ⟨hingest, hrow⟩] at hp
    exact Or.inr (Option.some.inj hp).symm

/-- A feature's code parses to it, to its type or to its kind. -/
theorem PlainCodes.feature_generalises (h : PlainCodes entries)
    (hbuild : buildCrosswalk entries = .ok cw) {target : MappingTarget} {code : String}
    {c p : FeatureClass} (hc : RegisteredFeature entries c)
    (hcode : cw.featureTargetCode target c = some code)
    (hp : cw.feature target code = some p) : p.Generalises c := by
  have hingest : target.ingest = true := ((h.feature_iff hbuild).mp hp).1
  -- Whichever code it is, it comes from a row of what it is the code of.
  have hparse : ∀ g, RegisteredFeature entries g →
      cw.featureOut.get (keyOf target.name (featureCode g)) = some code → p = g := by
    intro g hg hcode
    have hrow := h.featureOut hbuild hg hcode
    rw [(h.feature_iff hbuild).mpr ⟨hingest, hrow⟩] at hp
    exact (Option.some.inj hp).symm
  obtain ⟨e, he, hclass, hkind, hrest⟩ := hc
  rcases Option.or_eq_some_iff.mp hcode with hcode | ⟨-, hcode⟩
  · exact Or.inl (hparse c ⟨e, he, hclass, hkind, hrest⟩ hcode)
  · rcases Option.or_eq_some_iff.mp hcode with hcode | ⟨-, hcode⟩
    · obtain ⟨type, htype, hcode⟩ := Option.bind_eq_some_iff.mp hcode
      refine Or.inr (Or.inl
        ((hparse ⟨c.kind, some type, none⟩ ⟨e, he, hclass, hkind, Or.inr ?_⟩ hcode).trans ?_))
      · rcases hrest with ⟨hnone, -⟩ | ⟨type', subtypes, htype', hget, -⟩
        · rw [hnone] at htype
          cases htype
        · rw [htype'] at htype
          obtain rfl := Option.some.inj htype
          exact ⟨type', subtypes, rfl, hget, fun s hs => by cases hs⟩
      · rw [htype]
    · have hkindCode : featureCode ⟨c.kind, none, none⟩ = c.kind := String.ofList_toList
      rw [← hkindCode] at hcode
      exact Or.inr (Or.inr
        (hparse ⟨c.kind, none, none⟩ ⟨e, he, hclass, hkind, Or.inl ⟨rfl, rfl⟩⟩ hcode))

/-- A value's code is that of a row. -/
theorem PlainCodes.valueOut (h : PlainCodes entries) (hbuild : buildCrosswalk entries = .ok cw)
    {target : MappingTarget} {vocabulary v code : String} {codes : List String}
    (hvocabulary : NulFree vocabulary)
    (hcodes : cw.valueOut.get (keyOf vocabulary (keyOf target.name v)) = some codes)
    (hcode : code ∈ codes) : .value target vocabulary v code ∈ entries.flatMap rowsOf := by
  rw [(indexed_of_buildCrosswalk hbuild).valueOut] at hcodes
  rcases mem_of_get_addCode hcodes hcode with ⟨codes, hempty, -⟩ | hmem
  · rw [Crosswalk.empty, OrderedMap.get_empty] at hempty
    cases hempty
  · obtain ⟨target', vocabulary', v', hkey, hrow⟩ := mem_valueOuts.mp hmem
    obtain ⟨valueMappings, hin, -⟩ := registered_of_mem hrow
    obtain ⟨rfl, hvalue⟩ := keyOf_inj hvocabulary (h.vocabulary _ _ hin).1 hkey
    obtain ⟨rfl, rfl⟩ := keyOf_target_inj hvalue
    exact hrow

/-- The code emitted for a value is that of a row. -/
theorem PlainCodes.valueTargetCode_row (h : PlainCodes entries)
    (hbuild : buildCrosswalk entries = .ok cw) {target : MappingTarget}
    {vocabulary v code : String} {enumeration : Option String} (hvocabulary : NulFree vocabulary)
    (hcode : cw.valueTargetCode target vocabulary v enumeration = some code) :
    .value target vocabulary v code ∈ entries.flatMap rowsOf := by
  cases hcodes : cw.valueOut.get (keyOf vocabulary (keyOf target.name v)) with
  | none =>
    unfold Crosswalk.valueTargetCode at hcode
    rw [hcodes] at hcode
    cases enumeration <;> cases hcode
  | some codes =>
    unfold Crosswalk.valueTargetCode at hcode
    rw [hcodes] at hcode
    refine h.valueOut hbuild hvocabulary hcodes ?_
    cases enumeration with
    | none => exact List.mem_of_mem_head? hcode
    | some enumeration => exact List.mem_of_find?_eq_some hcode

/-- A value with a row has a code. -/
theorem valueTargetCode_isSome (hbuild : buildCrosswalk entries = .ok cw) {target : MappingTarget}
    {vocabulary v code : String} (hrow : .value target vocabulary v code ∈ entries.flatMap rowsOf) :
    ∃ code', cw.valueTargetCode target vocabulary v none = some code' := by
  have hentered : (keyOf vocabulary (keyOf target.name v), code) ∈
      (entries.flatMap rowsOf).flatMap CrosswalkRow.valueOuts :=
    mem_valueOuts.mpr ⟨target, vocabulary, v, rfl, hrow⟩
  have hcodes : ∃ codes, cw.valueOut.get (keyOf vocabulary (keyOf target.name v)) = some codes ∧
      code ∈ codes := by
    rw [(indexed_of_buildCrosswalk hbuild).valueOut]
    exact get_addCode_of_get (Or.inr hentered)
  obtain ⟨codes, hget, hcode⟩ := hcodes
  obtain ⟨first, rest, rfl⟩ := List.exists_cons_of_ne_nil (List.ne_nil_of_mem hcode)
  refine ⟨first, ?_⟩
  unfold Crosswalk.valueTargetCode
  rw [hget]
  rfl

/-- **Emitting and parsing back never changes meaning exactly when the codes of kinds are apart.** -/
theorem roundTrips_iff (hplain : PlainCodes entries) (hbuild : buildCrosswalk entries = .ok cw) :
    RoundTrips entries cw ↔ KindCodesApart entries := by
  constructor
  · intro h target hingest c hc hnone hnoneType code hkind c' hrow
    have hcode : cw.situationTargetCode target c = some code := by
      have hown : ∀ g, RegisteredSituation entries g →
          (∀ code, .situation target g code ∉ entries.flatMap rowsOf) →
          cw.situationOut.get (keyOf target.name (situationCode g)) = none := by
        intro g hg hnone
        exact Option.eq_none_iff_forall_not_mem.mpr fun code hget =>
          hnone code (hplain.situationOut hbuild hg hget)
      obtain ⟨e, he, hclass, hcodeOf, subtypes, htype, hsub⟩ := hc
      unfold Crosswalk.situationTargetCode
      rw [hown c ⟨e, he, hclass, hcodeOf, subtypes, htype, hsub⟩ hnone,
        hown ⟨c.kind, c.type, none⟩ ⟨e, he, hclass, hcodeOf, subtypes, htype, fun s hs => by
          cases hs⟩ hnoneType,
        Option.none_or, Option.none_or, ← hcodeOf, hplain.situationOut_kind hbuild he, hcodeOf,
        hkind]
    have hparse := (hplain.situation_iff hbuild).mpr ⟨hingest, hrow⟩
    rcases h.situation target hingest c hc code hcode c' hparse with rfl | rfl
    · exact hnone code hrow
    · exact hnoneType code hrow
  · intro hapart
    constructor
    · intro target hingest c hc code hcode p hp
      have hfallback := hcode
      unfold Crosswalk.situationTargetCode at hfallback
      rw [← Option.or_assoc] at hfallback
      rcases Option.or_eq_some_iff.mp hfallback with hown | ⟨hown, hkind⟩
      · exact hplain.situation_of_own hbuild hc hown hp
      · obtain ⟨hnone, hnoneType⟩ := Option.or_eq_none_iff.mp hown
        have hnoRow : ∀ g, cw.situationOut.get (keyOf target.name (situationCode g)) = none →
            ∀ code, .situation target g code ∉ entries.flatMap rowsOf := by
          intro g hget code hrow
          obtain ⟨code', hcode'⟩ := situationOut_isSome hbuild hrow
          rw [hget] at hcode'
          cases hcode'
        have hkindRow : (entries.flatMap rowsOf).findSome? (CrosswalkRow.kindCode target c.kind) =
            some code := by
          obtain ⟨e, he, -, hcodeOf, -⟩ := hc
          rwa [← hcodeOf, ← hplain.situationOut_kind hbuild he, hcodeOf]
        exact absurd ((hplain.situation_iff hbuild).mp hp).2
          (hapart target hingest c hc (hnoRow c hnone) (hnoRow _ hnoneType) code hkindRow p)
    · intro target _ c hc code hcode p hp
      exact hplain.feature_generalises hbuild hc hcode hp
    · intro target hingest vocabulary v enumeration code hv hcode
      obtain ⟨valueMappings, hin, -⟩ := hv
      have hvocabulary := (hplain.vocabulary _ _ hin).1
      exact (hplain.value_iff hbuild hvocabulary).mpr
        ⟨hingest, hplain.valueTargetCode_row hbuild hvocabulary hcode⟩
    · intro target hingest p code hcode
      unfold Crosswalk.propertyTargetCode at hcode
      rw [(indexed_of_buildCrosswalk hbuild).propertyOut] at hcode
      obtain ⟨target', p', hkey, hrow⟩ :=
        mem_propertyOuts.mp (CodeIndex.mem_of_get_foldl_addFirst hcode)
      obtain ⟨rfl, rfl⟩ := keyOf_target_inj hkey
      exact (property_iff hbuild).mpr ⟨hingest, hrow⟩
    · intro target code c hparse
      obtain ⟨hingest, hrow⟩ := (hplain.situation_iff hbuild).mp hparse
      obtain ⟨code', hcode'⟩ := situationOut_isSome hbuild hrow
      have hrow' := hplain.situationOut hbuild (registered_of_mem hrow) hcode'
      refine ⟨code', ?_, (hplain.situation_iff hbuild).mpr ⟨hingest, hrow'⟩⟩
      unfold Crosswalk.situationTargetCode
      rw [hcode', Option.some_or]
    · intro target code c hparse
      obtain ⟨hingest, hrow⟩ := (hplain.feature_iff hbuild).mp hparse
      have hout : ∃ code', cw.featureOut.get (keyOf target.name (featureCode c)) = some code' := by
        rw [(indexed_of_buildCrosswalk hbuild).featureOut]
        exact CodeIndex.get_foldl_addFirst_isSome
          (mem_featureOuts.mpr ⟨target, c, rfl, hrow⟩)
      obtain ⟨code', hcode'⟩ := hout
      have hrow' := hplain.featureOut hbuild (registered_of_mem hrow) hcode'
      refine ⟨code', ?_, (hplain.feature_iff hbuild).mpr ⟨hingest, hrow'⟩⟩
      unfold Crosswalk.featureTargetCode
      rw [hcode', Option.some_or]
    · rintro target vocabulary code v ⟨w, valueMappings, hin, -⟩ hparse
      have hvocabulary := (hplain.vocabulary _ _ hin).1
      obtain ⟨hingest, hrow⟩ := (hplain.value_iff hbuild hvocabulary).mp hparse
      obtain ⟨code', hcode'⟩ := valueTargetCode_isSome hbuild hrow
      exact ⟨code', hcode', (hplain.value_iff hbuild hvocabulary).mpr
        ⟨hingest, hplain.valueTargetCode_row hbuild hvocabulary hcode'⟩⟩
    · intro target code p hparse
      obtain ⟨hingest, hrow⟩ := (property_iff hbuild).mp hparse
      have hout : ∃ code', cw.propertyTargetCode target p = some code' := by
        unfold Crosswalk.propertyTargetCode
        rw [(indexed_of_buildCrosswalk hbuild).propertyOut]
        exact CodeIndex.get_foldl_addFirst_isSome
          (mem_propertyOuts.mpr ⟨target, p, rfl, hrow⟩)
      obtain ⟨code', hcode'⟩ := hout
      refine ⟨code', hcode', (property_iff hbuild).mpr ⟨hingest, ?_⟩⟩
      unfold Crosswalk.propertyTargetCode at hcode'
      rw [(indexed_of_buildCrosswalk hbuild).propertyOut] at hcode'
      obtain ⟨target', p', hkey, hrow'⟩ :=
        mem_propertyOuts.mp (CodeIndex.mem_of_get_foldl_addFirst hcode')
      obtain ⟨rfl, rfl⟩ := keyOf_target_inj hkey
      exact hrow'

end Rows

/-! ## Two kinds of closures -/

/-- A situation kind of closures, of a road or of a lane, with a code of the kind and one of the
lane. -/
def closures (kindCode laneCode : String) : List RegistryEntry :=
  [.kind
    { code := "closure"
      kindClass := .situation
      types := OrderedMap.empty.set "road" [] |>.set "lane" []
      mappings := OrderedMap.empty.set .datex2V3 [kindCode]
      typeMappings := OrderedMap.empty.set "lane" (OrderedMap.empty.set .datex2V3 [laneCode]) }]

/-- The parts of closures hold no dot. -/
theorem plainCodes_closures (kindCode laneCode : String) :
    PlainCodes (closures kindCode laneCode) where
  kind e he := by
    have hentry := List.mem_singleton.mp he
    cases hentry
    have hclosure : DotFree "closure" := by
      unfold DotFree
      decide
    refine ⟨hclosure, fun type subtypes hget => ?_⟩
    rw [OrderedMap.get_set, OrderedMap.get_set, OrderedMap.get_empty] at hget
    split_ifs at hget with hlane hroad
    · obtain rfl := Option.some.inj hget
      exact ⟨by rw [hlane]; unfold DotFree; decide, fun s hs => by cases hs⟩
    · obtain rfl := Option.some.inj hget
      exact ⟨by rw [hroad]; unfold DotFree; decide, fun s hs => by cases hs⟩
  vocabulary vocabulary valueMappings h := by
    rcases h with h | h <;> cases List.mem_singleton.mp h

/-- A kind with a code of its own keeps its meaning. -/
theorem roundTrips_closures : ∃ cw,
    buildCrosswalk (closures "RoadOrCarriagewayOrLaneManagement" "laneClosures") = .ok cw ∧
      RoundTrips (closures "RoadOrCarriagewayOrLaneManagement" "laneClosures") cw := by
  have hok : (buildCrosswalk
      (closures "RoadOrCarriagewayOrLaneManagement" "laneClosures")).isOk = true := by
    decide +kernel
  cases hbuild : buildCrosswalk (closures "RoadOrCarriagewayOrLaneManagement" "laneClosures") with
  | error e =>
    rw [hbuild] at hok
    cases hok
  | ok cw =>
    refine ⟨cw, rfl, (roundTrips_iff (plainCodes_closures _ _) hbuild).mpr ?_⟩
    have hrows : (closures "RoadOrCarriagewayOrLaneManagement" "laneClosures").flatMap rowsOf =
        [.situationKind .datex2V3 "closure" "RoadOrCarriagewayOrLaneManagement",
          .situation .datex2V3 ⟨"closure", "lane", none⟩ "laneClosures"] := by
      decide +kernel
    intro target _ c _ _ _ code hkind c' hrow
    rw [hrows] at hkind hrow
    obtain ⟨rfl, rfl, rfl⟩ : target = .datex2V3 ∧ c' = ⟨"closure", "lane", none⟩ ∧
        code = "laneClosures" := by
      simpa using hrow
    by_cases hkindOf : "closure" = c.kind <;>
      simp [List.findSome?_cons, CrosswalkRow.kindCode, hkindOf] at hkind

/-- The code of a kind is the code of one of its types: a closure of a road is emitted with it and
parses to a closure of a lane. -/
theorem roundTrips_sharedCode :
    ¬∀ entries cw, buildCrosswalk entries = .ok cw → RoundTrips entries cw := by
  intro h
  have hcodes : (buildCrosswalk (closures "laneClosures" "laneClosures")).toOption.map
      (fun cw => (cw.situationTargetCode .datex2V3 ⟨"closure", "road", none⟩,
        cw.situation .datex2V3 "laneClosures")) =
      some (some "laneClosures", some ⟨"closure", "lane", none⟩) := by
    decide +kernel
  cases hbuild : buildCrosswalk (closures "laneClosures" "laneClosures") with
  | error e =>
    rw [hbuild] at hcodes
    cases hcodes
  | ok cw =>
    rw [hbuild] at hcodes
    obtain ⟨hemit, hparse⟩ := Prod.mk.inj (Option.some.inj hcodes)
    have hroad : RegisteredSituation (closures "laneClosures" "laneClosures")
        ⟨"closure", "road", none⟩ :=
      ⟨_, List.mem_singleton_self _, rfl, rfl, [], by decide +kernel, fun s hs => by cases hs⟩
    rcases (h _ _ hbuild).situation .datex2V3 rfl _ hroad _ hemit _ hparse with heq | heq <;>
      exact absurd heq (by decide)

end OpenConditions.Registry

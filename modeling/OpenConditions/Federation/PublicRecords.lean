import Mathlib.Data.List.Forall2
import Mathlib.Data.Rat.Defs
import OpenConditions.Lib.Instant

set_option relaxedAutoImplicit false
set_option autoImplicit false

/-!
# Records prepared for the public scope

What may leave an instance publicly (`packages/ingest-framework/src/public-license.ts`, the licences
of `catalog/licenses.ts`, and `federatedSnapshot` of `packages/federation/src/record-filter.ts`): a
record whose licence and whose upstream publishers' licences are public, without its reporter and
without the merged sources whose licence is not public.

## Main definitions

* `FederatedRecord` — the parts of a stored record that federation reads, with the rest as `details`.
* `isPublicRecord` — whether a record may leave in the public scope.
* `publicRecords` — records prepared for the public scope.
* `SameButWithheld` — two records that differ only in what the public scope withholds.

## Main results

* `publicRecords_eq_iff` — what is left of two such records is the same exactly when their merged
  sources of a public licence are.
* `federatedSnapshot_sameButWithheld` — the snapshots of two such records are two such records.
-/

namespace OpenConditions.Federation

/-! ## Licences -/

/-- What the public scope reads of a licence. -/
structure LicenseInfo where
  id : String
  redistribution : Option Bool
  shareAlike : Bool
  deriving DecidableEq, Repr

/-- The registered licences. -/
def licenses : List LicenseInfo :=
  [⟨"NOASSERTION", none, false⟩, ⟨"CC0-1.0", some true, false⟩, ⟨"CC-BY-4.0", some true, false⟩,
    ⟨"CC-BY-SA-4.0", some true, true⟩, ⟨"LicenseRef-CC-BY-2.5-AR", some true, false⟩,
    ⟨"ODbL-1.0", some true, true⟩, ⟨"DL-DE-ZERO-2.0", some true, false⟩,
    ⟨"DL-DE-BY-2.0", some true, false⟩, ⟨"LicenseRef-GeoNutzV", some true, false⟩,
    ⟨"LicenseRef-Licence-Ouverte-1.0", some true, false⟩, ⟨"etalab-2.0", some true, false⟩,
    ⟨"NLOD-2.0", some true, false⟩, ⟨"OGL-UK-3.0", some true, false⟩,
    ⟨"LicenseRef-National-Highways-Transport-Data-Feeds", some true, false⟩,
    ⟨"OGL-Canada-2.0", some true, false⟩, ⟨"LicenseRef-OGL-BC", some true, false⟩,
    ⟨"LicenseRef-OGL-ON", some true, false⟩, ⟨"LicenseRef-OD-HR", some true, false⟩,
    ⟨"LicenseRef-511NY-DAA", some true, false⟩, ⟨"CC-BY-3.0-AU", some true, false⟩,
    ⟨"CC-BY-3.0-AT", some true, false⟩, ⟨"CC-BY-3.0-DE", some true, false⟩,
    ⟨"LicenseRef-Modellicentie-Gratis-Hergebruik-1.0", some true, false⟩,
    ⟨"LicenseRef-opentransportdata-swiss-ToU", some true, false⟩,
    ⟨"LicenseRef-Singapore-ODL-1.0", some true, false⟩,
    ⟨"LicenseRef-opendata-swiss-terms-by-ask", some true, false⟩,
    ⟨"LicenseRef-NLR-Developer-Network-Terms", some true, false⟩,
    ⟨"OGDL-Taiwan-1.0", some true, false⟩, ⟨"LicenseRef-KOGL-Type-1", some true, false⟩,
    ⟨"LicenseRef-HK-CSDI-ToU", some true, false⟩,
    ⟨"LicenseRef-HK-Gov-Open-Data", some true, false⟩,
    ⟨"LicenseRef-NYC-Open-Data", some true, false⟩,
    ⟨"LicenseRef-TfL-Transport-Data-Service", some true, false⟩,
    ⟨"LicenseRef-Caltrans-Conditions-of-Use", some true, false⟩,
    ⟨"LicenseRef-ODOT-TripCheck", some true, false⟩,
    ⟨"LicenseRef-ECCC-Data-Servers-End-use", some true, false⟩,
    ⟨"LicenseRef-MeteoAlarm-Terms", some true, false⟩,
    ⟨"LicenseRef-Copernicus-Sentinel-Data", some true, false⟩,
    ⟨"LicenseRef-US-Gov-Public-Domain", some true, false⟩]

/-- Exact lookup of a licence id; of two entries the later one counts. -/
def licenseInfo (id : String) : Option LicenseInfo :=
  licenses.reverse.find? fun info => decide (info.id = id)

/-- Whether data under a licence may leave in the public scope. -/
def isPublicLicense (license : Option String) : Bool :=
  match license with
  | none => false
  | some id =>
    decide (id ≠ "") &&
      match licenseInfo id with
      | some info => !info.shareAlike && decide (info.redistribution = some true)
      | none => false

/-! ## Records -/

/-- The record classes. -/
inductive RecordClass where
  | feature | situation | observation | offer
  deriving DecidableEq, Repr

/-- An upstream publisher: its licence, and that of its captured source. -/
structure Upstream (δ : Type) where
  license : Option String
  source : Option String
  details : δ
  deriving DecidableEq, Repr

/-- A merged source: the licence of its attribution, and its upstream publishers. -/
structure MergedSource (δ : Type) where
  license : String
  upstream : Option (List (Upstream δ))
  details : δ
  deriving DecidableEq, Repr

/-- Where a record comes from; its merged sources, where it has any, are not empty. -/
structure Provenance (δ : Type) where
  license : String
  upstream : Option (List (Upstream δ))
  mergedSources : Option (List (MergedSource δ))
  mergedSources_ne : mergedSources ≠ some []
  reporter : Option δ
  origin : String
  sourceId : String
  accessMode : String
  sourceUpdatedAt : Option String
  privacyClass : String
  details : δ
  deriving DecidableEq

/-- A position of a geometry. -/
abbrev Position := ℚ × ℚ

/-- A geometry. -/
inductive Geometry where
  | point (coordinates : Position)
  | multiPoint (coordinates : List Position)
  | lineString (coordinates : List Position)
  | multiLineString (coordinates : List (List Position))
  | polygon (coordinates : List (List Position))
  | multiPolygon (coordinates : List (List (List Position)))
  | collection (geometries : List Geometry)

/-- The time of a reading. -/
inductive PhenomenonTime where
  | instant (instant : String)
  | interval (start «end» : String)
  deriving DecidableEq, Repr

/-- The parts of a stored record that federation reads. -/
structure FederatedRecord (δ : Type) where
  id : String
  cls : RecordClass
  revision : Option ℤ
  kind : String
  domain : String
  property : Option String
  geometry : Option Geometry
  provenance : Provenance δ
  fetchedAt : String
  evidenceState : Option String
  phenomenonTime : Option PhenomenonTime
  extras : Option δ
  details : δ

section Projection

variable {δ : Type}

/-- Whether the licences of an upstream publisher are public. -/
def Upstream.isPublic (u : Upstream δ) : Bool :=
  u.license.all (fun license => isPublicLicense (some license)) &&
    u.source.all fun license => isPublicLicense (some license)

/-- **Whether a record may leave in the public scope**: its own licence and every licence of its
upstream publishers is public. -/
def isPublicRecord (record : FederatedRecord δ) : Bool :=
  isPublicLicense (some record.provenance.license) &&
    (record.provenance.upstream.getD []).all Upstream.isPublic

/-- The record without its reporter. -/
def withoutReporter (record : FederatedRecord δ) : FederatedRecord δ :=
  { record with provenance := { record.provenance with reporter := none } }

/-- The merged sources that the public scope keeps, absent when there are none. -/
def publicMergedSources (merged : Option (List (MergedSource δ))) : Option (List (MergedSource δ)) :=
  match merged with
  | none => none
  | some sources =>
    let clean := sources.filter fun m => isPublicLicense (some m.license)
    if clean = [] then none else some clean

/-- They are not an empty list. -/
theorem publicMergedSources_ne (merged : Option (List (MergedSource δ))) :
    publicMergedSources merged ≠ some [] := by
  unfold publicMergedSources
  cases merged with
  | none => simp
  | some sources =>
    simp only
    split_ifs with hclean
    · simp
    · exact fun h => hclean (Option.some.inj h)

/-- The record with another reporter and other merged sources. -/
def FederatedRecord.restated (record : FederatedRecord δ) (reporter : Option δ)
    (merged : Option (List (MergedSource δ))) (hmerged : merged ≠ some []) : FederatedRecord δ :=
  { record with
    provenance :=
      { record.provenance with
        reporter := reporter
        mergedSources := merged
        mergedSources_ne := hmerged } }

/-- A record as the public scope sees it: the reporter is stripped, and the merged sources whose own
licence is not public are removed. -/
def publicRecord (record : FederatedRecord δ) : FederatedRecord δ :=
  record.restated none (publicMergedSources record.provenance.mergedSources)
    (publicMergedSources_ne _)

/-- **Records prepared for the public scope.** -/
def publicRecords (records : List (FederatedRecord δ)) : List (FederatedRecord δ) :=
  (records.filter isPublicRecord).map publicRecord

/-- The source ids of fused rows. -/
def fusedSourceIds : List String := ["@fused", "@fused-public"]

/-- Whether a record may go to the federation outbox. -/
def federationEligible (record : FederatedRecord δ) : Bool :=
  !decide (record.provenance.accessMode = "on_demand") &&
    !fusedSourceIds.contains record.provenance.sourceId

/-- What the outbox carries of a record; the extras ride along only where the source opted in. -/
def federatedSnapshot (record : FederatedRecord δ) (federateExtras : Bool) :
    Option (FederatedRecord δ) :=
  if federationEligible record then
    let stripped := withoutReporter record
    if federateExtras then some stripped else some { stripped with extras := none }
  else none

/-! ## What the public scope withholds -/

/-- A merged source is public, by the rule for a record: its own licence and every licence of its
upstream publishers is. -/
def MergedSource.isPublic (m : MergedSource δ) : Bool :=
  isPublicLicense (some m.license) && (m.upstream.getD []).all Upstream.isPublic

/-- The merged sources of a record whose own licence is public. -/
def ownPublicSources (record : FederatedRecord δ) : List (MergedSource δ) :=
  (record.provenance.mergedSources.getD []).filter fun m => isPublicLicense (some m.license)

/-- **Two records differ only in what the public scope withholds**: in the reporter, and in merged
sources that are not public. -/
def SameButWithheld (record record' : FederatedRecord δ) : Prop :=
  (∃ reporter merged hmerged, record' = record.restated reporter merged hmerged) ∧
    (record.provenance.mergedSources.getD []).filter MergedSource.isPublic =
      (record'.provenance.mergedSources.getD []).filter MergedSource.isPublic

end Projection

section TwoRecords

variable {δ : Type} {record record' : FederatedRecord δ}

/-- The merged sources that the public scope keeps, as a list. -/
theorem publicMergedSources_getD (merged : Option (List (MergedSource δ))) :
    (publicMergedSources merged).getD [] =
      (merged.getD []).filter fun m => isPublicLicense (some m.license) := by
  cases merged with
  | none => rfl
  | some sources =>
    unfold publicMergedSources
    simp only [Option.getD_some]
    split_ifs with hclean
    · exact hclean.symm
    · rfl

/-- They are told by that list. -/
theorem publicMergedSources_eq_iff {merged merged' : Option (List (MergedSource δ))} :
    publicMergedSources merged = publicMergedSources merged' ↔
      (merged.getD []).filter (fun m => isPublicLicense (some m.license)) =
        (merged'.getD []).filter fun m => isPublicLicense (some m.license) := by
  rw [← publicMergedSources_getD, ← publicMergedSources_getD]
  constructor
  · exact fun h => by rw [h]
  · intro h
    have hne := publicMergedSources_ne merged
    have hne' := publicMergedSources_ne merged'
    revert h hne hne'
    cases publicMergedSources merged with
    | none =>
      cases publicMergedSources merged' with
      | none => exact fun _ _ _ => rfl
      | some sources' => exact fun h _ hne' => absurd (congrArg some h.symm) hne'
    | some sources =>
      cases publicMergedSources merged' with
      | none => exact fun h hne _ => absurd (congrArg some h) hne
      | some sources' => exact fun h _ _ => congrArg some h

/-- Two such records are public alike. -/
theorem SameButWithheld.isPublicRecord_eq (h : SameButWithheld record record') :
    isPublicRecord record' = isPublicRecord record := by
  obtain ⟨⟨reporter, merged, hmerged, rfl⟩, -⟩ := h
  rfl

/-- **What is left of two such records is the same exactly when they are not public, or their merged
sources of a public licence are the same.** -/
theorem publicRecords_eq_iff (h : SameButWithheld record record') :
    publicRecords [record] = publicRecords [record'] ↔
      (isPublicRecord record = true → ownPublicSources record = ownPublicSources record') := by
  have hpublic := h.isPublicRecord_eq
  obtain ⟨⟨reporter, merged, hmerged, rfl⟩, -⟩ := h
  unfold publicRecords
  rw [List.filter_singleton, List.filter_singleton, hpublic]
  cases isPublicRecord record with
  | false => simp
  | true =>
    simp only [cond_true, List.map_cons, List.map_nil, List.cons.injEq, and_true, forall_true_left]
    have hrecord : publicRecord (record.restated reporter merged hmerged) =
        record.restated none (publicMergedSources merged) (publicMergedSources_ne _) := rfl
    rw [hrecord]
    unfold ownPublicSources
    refine Iff.trans ?_ publicMergedSources_eq_iff
    constructor
    · intro heq
      exact congrArg (fun r : FederatedRecord δ => r.provenance.mergedSources) heq
    · intro heq
      unfold publicRecord FederatedRecord.restated at *
      simp only [heq]

/-- **The snapshots of two such records are two such records**, with the same merged sources. -/
theorem federatedSnapshot_sameButWithheld (h : SameButWithheld record record')
    (federateExtras : Bool) :
    (federatedSnapshot record federateExtras = none ∧
      federatedSnapshot record' federateExtras = none) ∨
    ∃ snapshot snapshot', federatedSnapshot record federateExtras = some snapshot ∧
      federatedSnapshot record' federateExtras = some snapshot' ∧
      SameButWithheld snapshot snapshot' ∧
      isPublicRecord snapshot = isPublicRecord record ∧
      ownPublicSources snapshot = ownPublicSources record ∧
      ownPublicSources snapshot' = ownPublicSources record' := by
  obtain ⟨⟨reporter, merged, hmerged, rfl⟩, hsources⟩ := h
  have heligible : federationEligible (record.restated reporter merged hmerged) =
      federationEligible record := rfl
  unfold federatedSnapshot
  rw [heligible]
  cases federationEligible record with
  | false => exact Or.inl ⟨rfl, rfl⟩
  | true =>
    right
    cases federateExtras with
    | true => exact ⟨_, _, rfl, rfl, ⟨⟨none, merged, hmerged, rfl⟩, hsources⟩, rfl, rfl, rfl⟩
    | false => exact ⟨_, _, rfl, rfl, ⟨⟨none, merged, hmerged, rfl⟩, hsources⟩, rfl, rfl, rfl⟩

end TwoRecords

end OpenConditions.Federation

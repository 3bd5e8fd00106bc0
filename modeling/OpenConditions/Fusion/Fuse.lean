import OpenConditions.Lib.Sorting
import OpenConditions.Storage.RecordRows

set_option relaxedAutoImplicit false
set_option autoImplicit false
set_option linter.dupNamespace false

/-!
# Fusing what several sources say

Which of the readings of one property a canonical subject shows, and the row that is written of it
(`packages/model/src/fusion/fuse.ts`).

`J` is the type of JSON values.

## Main definitions

* `FusableObservation`, `FusionCandidate` — the readings that compete.
* `fuse` — the reading that wins and those that agree with it.
* `mostRestrictiveRights` — the rights of a value that several sources published.
* `fusedObservation` — the fused row.
-/

namespace OpenConditions.Fusion

open OpenConditions.Storage

/-! ## Kernel vocabularies -/

/-- What a grant says. -/
inductive GrantState where
  | yes
  | no
  | unknown
  deriving DecidableEq, Repr

/-- How sure a crowd's report is. -/
inductive EvidenceState where
  | selfReported
  | corroborated
  | externallyResolved
  | negated
  | expired
  deriving DecidableEq, Repr

/-- What kind of publisher a source is. -/
inductive SourceTier where
  | authoritative
  | operator
  | aggregator
  | community
  deriving DecidableEq, Repr

/-- What a row is ranked by: its source's tier, or a crowd report's evidence. -/
inductive FusionTier where
  | source (tier : SourceTier)
  | crowdExternallyResolved
  | crowdCorroborated
  | crowdSelfReported
  deriving DecidableEq, Repr

/-- The default order of the tiers, highest first. -/
def fusionTiers : List FusionTier :=
  [.source .authoritative, .source .operator, .source .aggregator, .source .community,
    .crowdExternallyResolved, .crowdCorroborated, .crowdSelfReported]

/-! ## Candidates -/

/-- What a source lets others do with its data. -/
structure RoutingRights where
  sourceRedistribution : GrantState
  derivedRedistribution : GrantState
  commercialUse : GrantState
  attributionRequired : GrantState
  retention : GrantState
  evidenceOrigin : Option String
  evidenceVersion : Option String
  reviewedAt : Option String
  deriving DecidableEq, Repr

/-- Whom a reading is credited to. -/
structure Attribution (J : Type) where
  /-- The fields beside the rights. -/
  credit : J
  rights : Option RoutingRights
  deriving DecidableEq

/-- What time a reading is of. -/
inductive PhenomenonTime where
  | instant (instant : Iso8601)
  | period (start end_ : Iso8601)
  deriving DecidableEq, Repr

/-- When the time starts. -/
def PhenomenonTime.startInstant : PhenomenonTime → Instant
  | .instant t => t.instant
  | .period start _ => start.instant

/-- The provenance that fusion reads and copies. -/
structure FusableProvenance (J : Type) where
  origin : String
  sourceId : String
  accessMode : String
  attribution : Attribution J
  upstream : Option J
  privacyClass : String
  deriving DecidableEq

/-- The parts of a stored observation that fusion reads and copies. -/
structure FusableObservation (J : Type) where
  id : String
  property : String
  qualifiers : Option J
  result : J
  phenomenonTime : PhenomenonTime
  resultTime : Option Iso8601
  validUntil : Option Iso8601
  aggregation : String
  temporality : String
  forecast : Option J
  quality : Option J
  provenance : FusableProvenance J
  expiresAt : Option Iso8601
  deriving DecidableEq

/-- One row that competes for a canonical subject's fused row. -/
structure FusionCandidate (J : Type) where
  observation : FusableObservation J
  /-- Of the source that published the row, if it is no crowd's report. -/
  sourceTier : Option SourceTier
  /-- Of a crowd's report. -/
  evidence : Option EvidenceState
  /-- The row's source is stale now. -/
  stale : Bool
  deriving DecidableEq

/-- What is fused. -/
structure Fusion (J : Type) where
  winner : FusionCandidate J
  contributors : List (FusionCandidate J)
  stale : Bool
  deriving DecidableEq

/-- What a property's entry says of fusion. -/
structure PropertyEntry where
  fusionTiers : Option (List FusionTier)

section Fuse

variable {J : Type}

/-- When a reading starts. -/
def startOf (o : FusableObservation J) : Instant := o.phenomenonTime.startInstant

/-- A crowd's report. -/
def FusionCandidate.isCrowd (c : FusionCandidate J) : Bool :=
  decide (c.observation.provenance.origin = "crowd")

/-- The tier of a crowd's report; a negated or expired one has none. -/
def crowdTier : EvidenceState → Option FusionTier
  | .externallyResolved => some .crowdExternallyResolved
  | .corroborated => some .crowdCorroborated
  | .selfReported => some .crowdSelfReported
  | .negated => none
  | .expired => none

/-- A row's fusion tier. -/
def fusionTierOf (c : FusionCandidate J) : Except String (Option FusionTier) :=
  if c.isCrowd then .ok (c.evidence.bind crowdTier)
  else
    match c.sourceTier with
    | none => .error ("fusion needs the tier of source " ++ c.observation.provenance.sourceId)
    | some tier => .ok (some (.source tier))

/-! ## Ranking -/

/-- A candidate with its place in the order of the tiers. -/
structure Ranked (J : Type) where
  c : FusionCandidate J
  rank : ℕ
  deriving DecidableEq

/-- A row that has started, and ended neither by its validity nor, as a crowd's report, by its
expiry. -/
def isInEffect (now : Instant) (c : FusionCandidate J) : Bool :=
  decide (startOf c.observation ≤ now) &&
    c.observation.validUntil.all (fun t => decide (now < t.instant)) &&
      (!c.isCrowd || c.observation.expiresAt.all fun t => decide (now < t.instant))

/-- Ranks a row of the property, if its tier is fused and it is in effect. -/
def rankOf (order : List FusionTier) (property : String) (now : Instant) (c : FusionCandidate J) :
    Except String (Option (Ranked J)) :=
  if c.observation.property ≠ property then .ok none
  else
    match fusionTierOf c with
    | .error e => .error e
    | .ok none => .ok none
    | .ok (some tier) =>
      if tier ∈ order ∧ isInEffect now c then .ok (some ⟨c, order.idxOf tier⟩) else .ok none

/-- Ranks the rows, one after the other. -/
def rankAll (order : List FusionTier) (property : String) (now : Instant) :
    List (FusionCandidate J) → Except String (List (Ranked J))
  | [] => .ok []
  | c :: cs =>
    match rankOf order property now c with
    | .error e => .error e
    | .ok ranked =>
      match rankAll order property now cs with
      | .error e => .error e
      | .ok rest => .ok (ranked.toList ++ rest)

/-- A ranked row does not stand behind another: a fresh row comes before a stale one, then the higher
tier, then the later reading, then the smaller id. -/
def ranksBefore (localeLe : String → String → Bool) (a b : Ranked J) : Bool :=
  if a.c.stale ≠ b.c.stale then !a.c.stale
  else if a.rank ≠ b.rank then decide (a.rank < b.rank)
  else if startOf a.c.observation ≠ startOf b.c.observation then
    decide (startOf b.c.observation < startOf a.c.observation)
  else localeLe a.c.observation.id b.c.observation.id

/-- What fusion uses of the registry and of the platform. -/
structure FusionEnv (J : Type) where
  property : String → Option PropertyEntry
  /-- The canonical text of a value. -/
  jcs : J → String
  /-- The first text is no greater than the second in the platform's collation. -/
  localeLe : String → String → Bool

variable (env : FusionEnv J)

/-- The reading that a canonical subject shows for a property, with those that agree with it. -/
def fuse (property : String) (candidates : List (FusionCandidate J)) (now : Instant) :
    Except String (Option (Fusion J)) :=
  match env.property property with
  | none => .error ("unknown property " ++ property)
  | some entry =>
    match rankAll (entry.fusionTiers.getD fusionTiers) property now candidates with
    | .error e => .error e
    | .ok unsorted =>
      let ranked := Sorting.sortBy (ranksBefore env.localeLe) unsorted
      match ranked.head? with
      | none => .ok none
      | some first =>
        let contributors := ranked.filter fun r =>
          decide (r.rank = first.rank ∧ r.c.stale = first.c.stale ∧
            env.jcs r.c.observation.result = env.jcs first.c.observation.result)
        .ok (some ⟨first.c, contributors.map Ranked.c, first.c.stale⟩)

end Fuse

/-! ## Rights -/

/-- How much a grant grants. -/
def GrantState.grantOrder : GrantState → ℕ
  | .no => 0
  | .unknown => 1
  | .yes => 2

/-- The grants that permit. -/
inductive Permission where
  | sourceRedistribution
  | derivedRedistribution
  | commercialUse
  | retention
  deriving DecidableEq, Repr

/-- What rights say of a permission. -/
def RoutingRights.grant (rights : RoutingRights) : Permission → GrantState
  | .sourceRedistribution => rights.sourceRedistribution
  | .derivedRedistribution => rights.derivedRedistribution
  | .commercialUse => rights.commercialUse
  | .retention => rights.retention

/-- The least granted of some grants. -/
def leastGrant : List GrantState → GrantState
  | [] => .unknown
  | g :: gs => gs.foldl (fun a b => if a.grantOrder ≤ b.grantOrder then a else b) g

/-- The most granted of some grants. -/
def mostGrant : List GrantState → GrantState
  | [] => .unknown
  | g :: gs => gs.foldl (fun a b => if b.grantOrder ≤ a.grantOrder then a else b) g

section Rights

variable {J : Type}

/-- What declared rights say of a permission; rights that are not declared grant nothing known. -/
def declaredGrant (permission : Permission) (rights : Option RoutingRights) : GrantState :=
  (rights.map fun r => r.grant permission).getD .unknown

/-- What declared rights say of the duty to attribute. -/
def declaredAttribution (rights : Option RoutingRights) : GrantState :=
  (rights.map RoutingRights.attributionRequired).getD .unknown

/-- The rights of a value that several sources published: each permission is the least and the duty
to attribute the most that any of them gives. -/
def mostRestrictiveRights (attributions : List (Attribution J)) : Option RoutingRights :=
  let declared := attributions.map Attribution.rights
  match declared.find? Option.isSome with
  | some (some first) =>
    let least := fun permission => leastGrant (declared.map (declaredGrant permission))
    some { first with
      sourceRedistribution := least .sourceRedistribution
      derivedRedistribution := least .derivedRedistribution
      commercialUse := least .commercialUse
      retention := least .retention
      attributionRequired := mostGrant (declared.map declaredAttribution) }
  | _ => none

/-! ## The fused row -/

/-- What a fused row is about. -/
inductive FusedSubject where
  | feature (featureId : String) (componentKey : Option String)
  | location
  deriving DecidableEq, Repr

/-- Where and by whom a fused row is written. -/
structure FusedAt (J : Type) where
  subject : FusedSubject
  location : J
  instanceId : String
  now : Iso8601
  sourceId : Option String

/-- A source that a fused row merges. -/
structure MergedSource (J : Type) where
  source : String
  recordId : String
  attribution : Attribution J
  upstream : Option J
  deriving DecidableEq

/-- The draft of a fused row. -/
structure FusedDraft (J : Type) where
  id : String
  property : String
  subject : FusedSubject
  qualifiers : Option J
  result : J
  phenomenonTime : PhenomenonTime
  resultTime : Option Iso8601
  validUntil : Option Iso8601
  aggregation : String
  forecast : Option J
  quality : Option J
  temporality : String
  location : J
  origin : String
  sourceId : String
  sourceFormat : String
  accessMode : String
  recordId : String
  attribution : Attribution J
  mergedSources : List (MergedSource J)
  /-- The observations it is derived from by version 1 of the method `fusion`. -/
  derivedFrom : List String
  privacyClass : String
  fetchedAt : Iso8601
  /-- Written in UTC. -/
  expiresAt : Option Instant
  deriving DecidableEq

/-- The sentinel source id of fused rows. -/
def fusedSourceId : String := "@fused"

/-- An on-demand reading. -/
def isOnDemand (o : FusableObservation J) : Bool := decide (o.provenance.accessMode = "on_demand")

/-- The source that a contributor merges. -/
def mergedSourceOf (o : FusableObservation J) : MergedSource J :=
  ⟨o.provenance.sourceId, o.id, o.provenance.attribution, o.provenance.upstream⟩

/-- The earliest of some instants. -/
def earliest : List Instant → Option Instant
  | [] => none
  | t :: ts => some (ts.foldl min t)

/-- The draft of the fused row, before it has an id. -/
def fusedDraft (fusion : Fusion J) (at_ : FusedAt J) : FusedDraft J :=
  let w := fusion.winner.observation
  let contributors := fusion.contributors.map FusionCandidate.observation
  let onDemand := contributors.filter isOnDemand
  let expiries := onDemand.filterMap fun o => o.expiresAt.map Iso8601.instant
  let rights := mostRestrictiveRights (contributors.map fun o => o.provenance.attribution)
  { id := ""
    property := w.property
    subject := at_.subject
    qualifiers := w.qualifiers
    result := w.result
    phenomenonTime := w.phenomenonTime
    resultTime := w.resultTime
    validUntil := w.validUntil
    aggregation := w.aggregation
    forecast := w.forecast
    quality := w.quality
    temporality := w.temporality
    location := at_.location
    origin := "derived"
    sourceId := at_.sourceId.getD fusedSourceId
    sourceFormat := "derived"
    accessMode := if 0 < onDemand.length then "on_demand" else "bulk"
    recordId := ""
    attribution := ⟨w.provenance.attribution.credit, rights⟩
    mergedSources := contributors.map mergedSourceOf
    derivedFrom := contributors.map FusableObservation.id
    privacyClass := w.provenance.privacyClass
    fetchedAt := at_.now
    expiresAt := earliest expiries }

/-- What the fused row uses of the model package: the local id of an observation, which a location
without a geometry lacks, and the validation of drafts, which returns what it accepts. -/
structure DraftModel (J : Type) where
  observationLocalId : FusedDraft J → Except String String
  validateDraft : FusedDraft J → Except (List String) (FusedDraft J)
  validateDraft_value : ∀ draft value, validateDraft draft = .ok value → value = draft

/-- The fused row: validated, refused with its issues, or left out by an error. -/
def fusedObservation (model : DraftModel J) (fusion : Fusion J) (at_ : FusedAt J) :
    Except String (Except (List String) (FusedDraft J)) :=
  let draft := fusedDraft fusion at_
  match model.observationLocalId draft with
  | .error e => .error e
  | .ok localId =>
    let id := "oc:observation:" ++ at_.instanceId ++ ":" ++ localId
    let recordId := ":".intercalate ((id.splitOn ":").drop 3)
    .ok (model.validateDraft { draft with id := id, recordId := recordId })

end Rights

end OpenConditions.Fusion

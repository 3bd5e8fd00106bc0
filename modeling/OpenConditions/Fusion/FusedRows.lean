import OpenConditions.Fusion.Fuse
import OpenConditions.Lib.OrderedSet
import OpenConditions.Storage.CrowdSeries

set_option relaxedAutoImplicit false
set_option autoImplicit false

/-!
# The fused rows

The fused rows of the canonical features, as one refresh after the other leaves them
(`packages/storage/src/fused-rows.ts`): for each canonical subject and property the readings of the
members compete, the fusion of all of them is written as the `@fused` row, and where one of its
contributors is not public the fusion of the public ones is written beside it.

`J` is the type of JSON values.

## Main definitions

* `Refresh` — what a refresh reads: the clusters, the scopes, the candidates and the members.
* `entries`, `groups` — the candidates of each canonical subject and property.
* `locationOf` — where a fused row sits.
* `write`, `fuseGroup` — the rows that a group is left with.
* `refreshCanonical` — the table after a refresh.
* `publicView` — what the public scope sees of a fused series.
-/

namespace OpenConditions.Fusion

open OpenConditions.Storage

/-! ## Source ids -/

/-- The source id of every row of the crowd. -/
def crowdSourceId : String := "crowd"

/-- The sentinel source id of public fusions. -/
def fusedPublicSourceId : String := "@fused-public"

/-- The sentinel source ids. -/
def fusedSourceIds : List String := [fusedSourceId, fusedPublicSourceId]

/-! ## What a refresh reads -/

/-- What the catalogue holds of a source. -/
structure SourceRow where
  tier : SourceTier
  restricted : Bool
  deriving DecidableEq, Repr

/-- The latest row of a series; its source, property and qualifiers are those of its record. -/
structure LatestRow (J : Type) where
  featureId : String
  componentKey : Option String
  record : FusableObservation J
  evidenceState : Option EvidenceState
  deriving DecidableEq

/-- The row of a member feature. -/
structure FeatureRow (J : Type) where
  location : Option J
  sourceId : String
  attribution : Attribution J
  upstream : Option J
  deriving DecidableEq

/-- What fused rows are refreshed for: a feature, and the properties that changed if not all. -/
structure FusedScope where
  featureId : String
  properties : Option (List String)
  deriving DecidableEq, Repr

/-- What a refresh of fused rows uses of the registry and of the model package. -/
structure RefreshEnv (J : Type) where
  fusion : FusionEnv J
  model : DraftModel J
  /-- The licences of a record and of its upstreams are public. -/
  isPublicRecord : Attribution J → Option J → Bool
  /-- The property is one that is fused. -/
  fusable : String → Bool
  /-- The canonical text of a draft's issues. -/
  issuesText : List String → String

/-- What a refresh reads.  A canonical feature's id is `oc:feature:`, an instance and a digest, and
has no `#`. -/
structure Refresh (J : Type) where
  /-- The clusters that the scopes name. -/
  canonical : List CanonicalRow
  wanted : List FusedScope
  /-- The latest rows. -/
  rows : List (LatestRow J)
  sources : String → Option SourceRow
  /-- The source's last success is longer ago than its freshness window. -/
  stale : String → Bool
  features : String → Option (FeatureRow J)
  instanceId : String
  now : Iso8601
  canonical_nodup : (canonical.map CanonicalRow.canonicalFeatureId).Nodup
  canonical_plain : ∀ c ∈ canonical, '#' ∉ c.canonicalFeatureId.toList

section Refresh

variable {J : Type} (env : RefreshEnv J) (r : Refresh J)

/-! ## Scopes -/

/-- The properties that are in scope of a canonical feature. -/
inductive Scope where
  | all
  | only (properties : List String)
  deriving DecidableEq, Repr

/-- Widens what is in scope. -/
def Scope.widen (held : Option Scope) (s : FusedScope) : Option Scope :=
  match held, s.properties with
  | some .all, _ => some .all
  | _, none => some .all
  | some (.only held), some properties => some (.only (held ++ properties))
  | none, some properties => some (.only properties)

/-- What is in scope of a cluster: the properties that the scopes of its features name. -/
def scopeOf (c : CanonicalRow) : Option Scope :=
  ((OrderedSet.ofList (c.canonicalFeatureId :: c.memberIds)).members.flatMap fun id =>
    r.wanted.filter fun s => decide (s.featureId = id)).foldl Scope.widen none

/-- The cluster of a canonical feature. -/
def byCanonical (id : String) : Option CanonicalRow :=
  r.canonical.find? fun c => decide (c.canonicalFeatureId = id)

/-- The cluster of a member; where several hold it, the last one. -/
def memberOf (id : String) : Option CanonicalRow :=
  r.canonical.reverse.find? fun c => decide (id ∈ c.memberIds)

/-- A property of a canonical feature is refreshed. -/
def inScope (canonicalId property : String) : Bool :=
  env.fusable property &&
    match (byCanonical r canonicalId).bind (scopeOf r) with
    | some .all => true
    | some (.only properties) => decide (property ∈ properties)
    | none => false

/-! ## Candidates -/

/-- A record of a source may feed the fusion that the public scope reads: its licences are public,
and its source is one that the catalogue holds and does not restrict.  The crowd has no source. -/
def isPublicCandidate (sourceId : String) (attribution : Attribution J) (upstream : Option J) :
    Bool :=
  let licensed := env.isPublicRecord attribution upstream
  if sourceId = crowdSourceId then licensed
  else decide ((r.sources sourceId).map SourceRow.restricted = some false) && licensed

/-- A reading may feed the fusion that the public scope reads. -/
def isPublicReading (o : FusableObservation J) : Bool :=
  isPublicCandidate env r o.provenance.sourceId o.provenance.attribution o.provenance.upstream

/-- A row of the crowd. -/
def LatestRow.isCrowd (row : LatestRow J) : Bool :=
  decide (row.record.provenance.sourceId = crowdSourceId)

/-- A row is read: of a fused property, itself not fused, on a member or, of the crowd, on a
canonical feature. -/
def isRead (row : LatestRow J) : Bool :=
  env.fusable row.record.property &&
    decide (row.record.provenance.sourceId ∉ fusedSourceIds) &&
      if row.isCrowd then decide (row.featureId ∈ r.canonical.map CanonicalRow.canonicalFeatureId)
      else decide (row.featureId ∈ r.canonical.flatMap CanonicalRow.memberIds)

/-- The text of a record's qualifiers. -/
def qualifierKey (qualifiers : Option J) : String :=
  match qualifiers with
  | none => ""
  | some q => env.fusion.jcs q

/-- What the candidates of one fusion share. -/
structure GroupKey where
  canonical : CanonicalRow
  componentKey : Option String
  property : String
  qualifierKey : String
  deriving DecidableEq

/-- A row that competes in a group. -/
structure Entry (J : Type) where
  key : GroupKey
  row : LatestRow J
  candidate : FusionCandidate J
  deriving DecidableEq

/-- The canonical component of a row, if it is about one and that is known. -/
def componentOf (c : CanonicalRow) (row : LatestRow J) : Option (Option String) :=
  match row.componentKey with
  | none => some none
  | some key =>
    if row.isCrowd then some (some key) else (canonicalKeyOf c row.featureId key).map some

/-- The candidate that a row is; a source that the catalogue does not hold has no tier to rank
by. -/
def candidateOf (row : LatestRow J) : Option (FusionCandidate J) :=
  if row.isCrowd then some ⟨row.record, none, row.evidenceState, false⟩
  else (r.sources row.record.provenance.sourceId).map fun source =>
    ⟨row.record, some source.tier, none, r.stale row.record.provenance.sourceId⟩

/-- A row as it competes, if it does. -/
def entryOf (row : LatestRow J) : Option (Entry J) :=
  (if row.isCrowd then byCanonical r row.featureId else memberOf r row.featureId).bind fun c =>
    if inScope env r c.canonicalFeatureId row.record.property then
      (componentOf c row).bind fun componentKey =>
        (candidateOf r row).map fun candidate =>
          ⟨⟨c, componentKey, row.record.property, qualifierKey env row.record.qualifiers⟩, row,
            candidate⟩
    else none

/-- The rows that compete. -/
def entries : List (Entry J) := (r.rows.filter (isRead env r)).filterMap (entryOf env r)

/-- The candidates of one fusion. -/
structure Group (J : Type) where
  key : GroupKey
  entries : List (Entry J)
  deriving DecidableEq

/-- The candidates of each fusion. -/
def groups : List (Group J) :=
  ((entries env r).map Entry.key).dedup.map fun key =>
    ⟨key, (entries env r).filter fun e => decide (e.key = key)⟩

/-! ## Locations -/

/-- The row of a member. -/
def memberAt (id : String) : Option (FeatureRow J) :=
  if id ∈ r.canonical.flatMap CanonicalRow.memberIds then r.features id else none

/-- Where a member puts a canonical feature, if that may be told. -/
def memberLocation (onlyPublic : Bool) (id : String) : Option J :=
  (memberAt r id).bind fun m =>
    if !onlyPublic || isPublicCandidate env r m.sourceId m.attribution m.upstream then m.location
    else none

/-- Where a fused row sits: where the winner's feature is, else the survivor, else, of a public row,
the first public member. -/
def locationOf (c : CanonicalRow) (winner : Option (LatestRow J)) (onlyPublic : Bool) : Option J :=
  let first := match winner with
    | none => []
    | some row => if row.isCrowd then [] else [row.featureId]
  let order := first ++ [c.survivorId] ++ if onlyPublic then c.memberIds else []
  order.findSome? (memberLocation env r onlyPublic)

/-! ## The table -/

/-- A fused row. -/
structure FusedRow (J : Type) where
  featureId : String
  componentKey : Option String
  record : FusedDraft J
  sinceAt : Instant
  fusedFrom : List String
  fusedSources : List String
  /-- Rows from before the flag have none. -/
  fusedPublic : Option Bool
  deriving DecidableEq

/-- What identifies a fused row. -/
structure HeldKey where
  sourceId : String
  subjectKey : String
  property : String
  qualifierKey : String
  deriving DecidableEq, Repr

/-- The fused rows. -/
abbrev FusedTable (J : Type) := HeldKey → Option (FusedRow J)

/-- Text for the values of an attribution. -/
def Attribution.mapJson {K : Type} (f : J → K) (a : Attribution J) : Attribution K :=
  ⟨f a.credit, a.rights⟩

/-- Text for the values of a merged source. -/
def MergedSource.mapJson {K : Type} (f : J → K) (m : MergedSource J) : MergedSource K :=
  ⟨m.source, m.recordId, m.attribution.mapJson f, m.upstream.map f⟩

/-- Text for the values of a fused row. -/
def FusedDraft.mapJson {K : Type} (f : J → K) (d : FusedDraft J) : FusedDraft K :=
  { id := d.id, property := d.property, subject := d.subject, qualifiers := d.qualifiers.map f,
    result := f d.result, phenomenonTime := d.phenomenonTime, resultTime := d.resultTime,
    validUntil := d.validUntil, aggregation := d.aggregation, forecast := d.forecast.map f,
    quality := d.quality.map f, temporality := d.temporality, location := f d.location,
    origin := d.origin, sourceId := d.sourceId, sourceFormat := d.sourceFormat,
    accessMode := d.accessMode, recordId := d.recordId,
    attribution := d.attribution.mapJson f,
    mergedSources := d.mergedSources.map (MergedSource.mapJson f),
    derivedFrom := d.derivedFrom, privacyClass := d.privacyClass, fetchedAt := d.fetchedAt,
    expiresAt := d.expiresAt }

/-- A fused row as it is compared between refreshes: everything but when it was computed. -/
def comparable (row : FusedRow J) : FusedDraft String × Instant :=
  ({ row.record.mapJson env.fusion.jcs with fetchedAt := ⟨"", .epoch⟩ }, row.sinceAt)

/-- Since when a row shows its value: as long as the row before it, if that one shows it too. -/
def sinceOf (prev : Option (FusedRow J)) (result : J) (start : Instant) : Instant :=
  match prev with
  | some row =>
    if env.fusion.jcs row.record.result = env.fusion.jcs result then row.sinceAt else start
  | none => start

/-- A row that says what the row before it says is left alone. -/
def settle (prev : Option (FusedRow J)) (row : FusedRow J) : FusedRow J :=
  match prev with
  | some held =>
    if held.fusedPublic = row.fusedPublic ∧ comparable env held = comparable env row then held
    else row
  | none => row

/-! ## Writing -/

section Write

variable [DecidableEq J]

/-- The row of a group that a candidate is of. -/
def Group.rowOf (g : Group J) (c : FusionCandidate J) : Option (LatestRow J) :=
  (g.entries.find? fun e => decide (e.candidate = c)).map Entry.row

/-- The row of a fusion of a group, under its key. -/
def fusedRowOf (held : FusedTable J) (g : Group J) (fusion : Fusion J) (fusedPublic : Bool)
    (record : FusedDraft J) : HeldKey × FusedRow J :=
  let k : HeldKey :=
    ⟨record.sourceId, subjectKey g.key.canonical.canonicalFeatureId g.key.componentKey,
      record.property, qualifierKey env record.qualifiers⟩
  let sources := fusion.contributors.filterMap fun c =>
    (g.rowOf c).map fun row => row.record.provenance.sourceId
  (k, settle env (held k)
    { featureId := g.key.canonical.canonicalFeatureId
      componentKey := g.key.componentKey
      record := record
      sinceAt := sinceOf env (held k) record.result record.phenomenonTime.startInstant
      fusedFrom := fusion.contributors.map fun c => c.observation.id
      fusedSources := (OrderedSet.ofList sources).members
      fusedPublic := some fusedPublic })

/-- The row that a fusion of a group leaves, if it has a place.  Only a row all of whose
contributors are public, at a public member's place, is flagged public; without one, the fusion of
all candidates stays with the operator. -/
def write (held : FusedTable J) (g : Group J) (fusion : Fusion J) (sourceId : String)
    (allPublic : Bool) : Except String (Option (HeldKey × FusedRow J)) :=
  let winner := g.rowOf fusion.winner
  let publicLocation := if allPublic then locationOf env r g.key.canonical winner true else none
  let location := publicLocation <|>
    if sourceId = fusedSourceId then locationOf env r g.key.canonical winner false else none
  match location with
  | none => .ok none
  | some location =>
    let at_ : FusedAt J :=
      ⟨.feature g.key.canonical.canonicalFeatureId g.key.componentKey, location, r.instanceId,
        r.now, some sourceId⟩
    match fusedObservation env.model fusion at_ with
    | .error e => .error e
    | .ok (.error issues) => .error ("a fused row failed validation: " ++ env.issuesText issues)
    | .ok (.ok draft) =>
      -- Sealing validates the draft once more.
      match env.model.validateDraft draft with
      | .error issues => .error ("a fused row failed sealing: " ++ env.issuesText issues)
      | .ok record => .ok (some (fusedRowOf env held g fusion publicLocation.isSome record))

/-- The rows that a group is left with: the fusion of all its candidates and, where one of the
contributors is not public, that of the public candidates. -/
def fuseGroup (held : FusedTable J) (g : Group J) :
    Except String (List (HeldKey × FusedRow J)) :=
  match fuse env.fusion g.key.property (g.entries.map Entry.candidate) r.now.instant with
  | .error e => .error e
  | .ok none => .ok []
  | .ok (some fusion) =>
    let allPublic := fusion.contributors.all fun c => isPublicReading env r c.observation
    match write env r held g fusion fusedSourceId allPublic with
    | .error e => .error e
    | .ok full =>
      if allPublic then .ok full.toList
      else
        let publicCandidates := (g.entries.filter fun e =>
          isPublicReading env r e.candidate.observation).map Entry.candidate
        match fuse env.fusion g.key.property publicCandidates r.now.instant with
        | .error e => .error e
        | .ok none => .ok full.toList
        | .ok (some publicFusion) =>
          match write env r held g publicFusion fusedPublicSourceId true with
          | .error e => .error e
          | .ok public_ => .ok (full.toList ++ public_.toList)

/-- The rows that the groups are left with, one group after the other. -/
def fuseGroups (held : FusedTable J) : List (Group J) → Except String (List (HeldKey × FusedRow J))
  | [] => .ok []
  | g :: gs =>
    match fuseGroup env r held g with
    | .error e => .error e
    | .ok kept =>
      match fuseGroups held gs with
      | .error e => .error e
      | .ok rest => .ok (kept ++ rest)

/-- The fused rows of the clusters. -/
def existing (t : FusedTable J) : FusedTable J := fun k =>
  (t k).filter fun row =>
    decide (row.featureId ∈ r.canonical.map CanonicalRow.canonicalFeatureId)

/-- The table after a refresh: the rows of the groups are kept, the other rows in scope are
deleted. -/
def refreshCanonical (t : FusedTable J) : Except String (FusedTable J) :=
  match fuseGroups env r (existing r t) (groups env r) with
  | .error e => .error e
  | .ok keep => .ok fun k =>
    match keep.find? fun e => decide (e.1 = k) with
    | some e => some e.2
    | none =>
      let gone := (existing r t k).any fun row => inScope env r row.featureId k.property
      if gone then none else t k

end Write

/-- The table after the fused rows of canonical features that ended are deleted. -/
def dropFused (canonicalIds : List String) (t : FusedTable J) : FusedTable J := fun k =>
  (t k).filter fun row => decide (row.featureId ∉ canonicalIds)

end Refresh

/-! ## The public view -/

/-- A series of fused rows. -/
structure FusedSeries where
  subjectKey : String
  property : String
  qualifierKey : String
  deriving DecidableEq, Repr

/-- The key of a row of a series. -/
def FusedSeries.at (s : FusedSeries) (sourceId : String) : HeldKey :=
  ⟨sourceId, s.subjectKey, s.property, s.qualifierKey⟩

/-- What a row shows, its values as canonical texts. -/
structure Shown where
  result : String
  phenomenonTime : PhenomenonTime
  validUntil : Option Iso8601
  derivedFrom : List String
  mergedSources : List (MergedSource String)
  location : String
  deriving DecidableEq

/-- What the public scope sees of a series. -/
structure PublicView where
  shown : Shown
  sinceAt : Instant
  deriving DecidableEq

section View

variable {J : Type} (env : RefreshEnv J)

/-- The row of a series that the public scope reads: the fused row if it is marked public, otherwise
the public fusion. -/
def publicRow (t : FusedTable J) (s : FusedSeries) : Option (FusedRow J) :=
  match t (s.at fusedSourceId) with
  | some row => if row.fusedPublic = some true then some row else t (s.at fusedPublicSourceId)
  | none => t (s.at fusedPublicSourceId)

/-- What a fused record shows. -/
def shownOf (record : FusedDraft J) : Shown :=
  { result := env.fusion.jcs record.result
    phenomenonTime := record.phenomenonTime
    validUntil := record.validUntil
    derivedFrom := record.derivedFrom
    mergedSources := record.mergedSources.map (MergedSource.mapJson env.fusion.jcs)
    location := env.fusion.jcs record.location }

/-- What a row shows, and since when. -/
def viewOf (row : FusedRow J) : PublicView := ⟨shownOf env row.record, row.sinceAt⟩

/-- What the public scope sees of a series. -/
def publicView (t : FusedTable J) (s : FusedSeries) : Option PublicView :=
  (publicRow t s).map (viewOf env)

end View

end OpenConditions.Fusion

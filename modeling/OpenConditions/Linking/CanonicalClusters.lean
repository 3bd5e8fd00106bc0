import OpenConditions.Lib.CompleteLinkage
import OpenConditions.Lib.Sorting
import OpenConditions.Lib.Utf16
import OpenConditions.Linking.Clusters
import Mathlib.Algebra.Order.Ring.Rat

set_option relaxedAutoImplicit false
set_option autoImplicit false

/-!
# Links and canonical clusters

The link two features get (`packages/model/src/linking/link.ts`) and the canonical clusters of
linked features (`packages/model/src/linking/cluster.ts`).

What the comparison of two features of a kind comes to rests on geometry and text; it is a
parameter, a function of the two in the order of their ids.  So are the collation of strings and
the digest of a cluster's members.

## Main definitions

* `proposeLink` — the link of two features.
* `canonicalClusters` — the clusters of features under their accepted links.
-/

namespace OpenConditions.Linking

open Sorting

/-! ## Links -/

/-- How a link was established. -/
inductive LinkMethod where
  | externalId | spatialAttribute | manual
  deriving DecidableEq, Repr

/-- Whether a link holds. -/
inductive LinkStatus where
  | accepted | rejected | pending
  deriving DecidableEq, Repr

/-- A feature as linking reads it; `content` is what only the comparison of two reads. -/
structure LinkableFeature (D : Type) where
  id : String
  kind : String
  sourceId : String
  sourceFormat : Option String
  content : D
  deriving DecidableEq

/-- A link of two features, the one lower in code point order first. -/
structure FeatureLink where
  aId : String
  bId : String
  method : LinkMethod
  confidence : ℚ
  status : LinkStatus
  deriving DecidableEq

/-- The pair of a link. -/
def FeatureLink.ends (l : FeatureLink) : String × String := (l.aId, l.bId)

/-- What the comparison of two features comes to. -/
inductive LinkEvidence where
  /-- They share an authoritative external id. -/
  | sharedId
  /-- They stand close enough on their own. -/
  | near
  /-- A name, operator or address agrees. -/
  | attribute
  /-- One agrees too weakly to decide. -/
  | pendingAttribute
  deriving DecidableEq, Repr

section Link

variable {D R : Type}

/-- Whether `a` comes before `b` in code point order. -/
def before (a b : String) : Bool := decide (a.toList < b.toList)

/-- The two, the one lower in code point order first. -/
def ordered (a b : LinkableFeature D) : LinkableFeature D × LinkableFeature D :=
  if before a.id b.id then (a, b) else (b, a)

/-- The link of two features on some evidence. -/
def linkOf (a b : LinkableFeature D) : LinkEvidence → FeatureLink
  | .sharedId => ⟨a.id, b.id, .externalId, 1, .accepted⟩
  | .near => ⟨a.id, b.id, .spatialAttribute, 9 / 10, .accepted⟩
  | .attribute => ⟨a.id, b.id, .spatialAttribute, 7 / 10, .accepted⟩
  | .pendingAttribute => ⟨a.id, b.id, .spatialAttribute, 4 / 10, .pending⟩

/-- The link two features get, if any. -/
def proposeLink (evidence : R → LinkableFeature D → LinkableFeature D → Option LinkEvidence)
    (first second : LinkableFeature D) (rules : Option R) : Option FeatureLink :=
  match rules with
  | none => none
  | some rules =>
    if first.kind ≠ second.kind ∨ first.id = second.id then none
    else
      let pair := ordered first second
      (evidence rules pair.1 pair.2).map (linkOf pair.1 pair.2)

end Link

/-! ## Clusters of features -/

/-- The key of a pair of ids, whatever their order. -/
def pairKey (a b : String) : String :=
  if Utf16.lt a b then String.ofList (a.toList ++ Char.ofNat 0 :: b.toList)
  else String.ofList (b.toList ++ Char.ofNat 0 :: a.toList)

/-- The key of a link's pair. -/
def FeatureLink.key (l : FeatureLink) : String := pairKey l.aId l.bId

/-- A publisher feed's member ranks above a community-mapped one. -/
def survivorRank {D : Type} (feature : LinkableFeature D) : ℤ :=
  if feature.sourceFormat = some "overpass" then 0 else 1

/-- A member of a cluster, with its source. -/
structure ClusterSource where
  source : String
  recordId : String
  deriving DecidableEq

/-- One cluster of the canonical view. -/
structure CanonicalCluster where
  canonicalFeatureId : String
  survivorId : String
  memberIds : List String
  mergedSources : List ClusterSource
  deriving DecidableEq

section Canonical

variable {D K : Type} [LinearOrder K] [Zero K] (localeCompare : String → String → ℤ)

/-- Links by descending confidence, those of one confidence by their pairs. -/
def linkLe : FeatureLink → FeatureLink → Bool :=
  descendingThen FeatureLink.confidence fun x y => decide (localeCompare x.key y.key ≤ 0)

/-- Ids in the order of their code units. -/
def idLe (a b : String) : Bool := !Utf16.lt b a

/-- The features by their ids, a later one in the place of an earlier. -/
def featuresById (features : List (LinkableFeature D)) : OrderedMap String (LinkableFeature D) :=
  features.foldl (fun m f => m.set f.id f) .empty

/-- The accepted links of known features, strongest first. -/
def acceptedLinks (features : List (LinkableFeature D)) (links : List FeatureLink) :
    List FeatureLink :=
  let byId := featuresById features
  sortBy (linkLe localeCompare)
    (links.filter fun l => decide (l.status = .accepted) && byId.has l.aId && byId.has l.bId)

/-- One accepted link: its clusters become one when all their members are linked. -/
def applyLink (linked : List String) (c : Clusters) (link : FeatureLink) : Clusters :=
  let ra := c.root link.aId
  let rb := ra.1.root link.bId
  if ra.2 = rb.2 then rb.1
  else
    let left := rb.1.membersOf link.aId
    let right := left.1.membersOf link.bId
    let complete := left.2.all fun a => right.2.all fun b => linked.contains (pairKey a b)
    if complete then right.1.join link.aId link.bId else right.1

/-- The clusters once every accepted link has been applied. -/
def clustersOf (features : List (LinkableFeature D)) (links : List FeatureLink) : Clusters :=
  let accepted := acceptedLinks localeCompare features links
  accepted.foldl (applyLink (accepted.map FeatureLink.key))
    (features.foldl (fun c f => c.add f.id) .empty)

/-- Members by descending rank, those of one rank by their ids. -/
def memberLe (rankOf : String → K) : String → String → Bool :=
  descendingThen rankOf fun a b => decide (localeCompare a b ≤ 0)

/-- The cluster of some members. -/
def canonicalCluster (canonicalId : List String → String)
    (byId : OrderedMap String (LinkableFeature D)) (rank : Option (LinkableFeature D → K))
    (memberIds : List String) : CanonicalCluster :=
  let members := sortBy idLe memberIds
  let survivors := match rank with
    | none => members
    | some rank => sortBy (memberLe localeCompare fun id => ((byId.get id).map rank).getD 0) members
  { canonicalFeatureId := canonicalId members
    survivorId := survivors.head?.getD ""
    memberIds := members
    mergedSources := members.filterMap fun id => (byId.get id).map fun f => ⟨f.sourceId, id⟩ }

/-- The canonical clusters of features under their accepted links.  `canonicalId` formats the
digest of the members as a record id of the instance. -/
def canonicalClusters (canonicalId : List String → String) (features : List (LinkableFeature D))
    (links : List FeatureLink) (rank : Option (LinkableFeature D → K)) : List CanonicalCluster :=
  let byId := featuresById features
  sortBy (fun a b => decide (localeCompare a.survivorId b.survivorId ≤ 0))
    ((clustersOf localeCompare features links).groups.entries.map fun e =>
      canonicalCluster localeCompare canonicalId byId rank e.2)

end Canonical

end OpenConditions.Linking

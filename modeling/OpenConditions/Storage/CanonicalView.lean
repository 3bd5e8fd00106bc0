import OpenConditions.Linking.CanonicalClusters
import OpenConditions.Lib.Run

set_option relaxedAutoImplicit false
set_option autoImplicit false

/-!
# The canonical view, kept step by step

The relinking of written features (`packages/storage/src/canonical-view.ts`): the links of the
features that changed are decided anew, and the clusters those features belong to, now or before,
are computed from everything connected to them and put in the place of those there were.

## Main definitions

* `relinkLinks` — the link table after the pairs of the changed features are decided.
* `connected` — the features connected to some by accepted links, and those links.
* `relinkFeatures` — the links and the canonical rows after a change.
* `CanonicalView.step` — features written, tombstoned and deleted, and the relinking of those that
  changed.

## Implementation notes

The link table is a map from pairs, as its primary key has it.  Which live features of a kind the
candidate query finds near another is a parameter, as are the linking rules of a kind.  The crowd
rows and the components of the rows, which follow the clusters, are not modelled here.
-/

namespace OpenConditions.Storage

open Linking

/-! ## The tables -/

/-- A stored feature. -/
structure FeatureRow (D : Type) where
  record : LinkableFeature D
  tombstoned : Bool
  deriving DecidableEq

/-- What the link table says of a pair. -/
structure LinkRow where
  method : LinkMethod
  confidence : ℚ
  status : LinkStatus
  decidedBy : Option String
  deriving DecidableEq

/-- A link a person decided, which linking never overwrites. -/
def LinkRow.decided (l : LinkRow) : Bool := l.status == .rejected || l.decidedBy.isSome

/-- No person decided what the table holds of a pair, if anything. -/
def undecided : Option LinkRow → Bool
  | none => true
  | some held => !held.decided

/-- The row of an automatic link. -/
def automatic (link : FeatureLink) : LinkRow := ⟨link.method, link.confidence, link.status, none⟩

/-- The link table, by the ordered pairs of ids. -/
abbrev LinkRows := OrderedMap (String × String) LinkRow

/-- The link of a row. -/
def linkAt (pair : String × String) (row : LinkRow) : FeatureLink :=
  ⟨pair.1, pair.2, row.method, row.confidence, row.status⟩

/-- The stored features, by their ids. -/
abbrev FeatureRows (D : Type) := OrderedMap String (FeatureRow D)

section Relink

variable {D R : Type}

/-- The stored features of some ids. -/
def loadFeatures (features : FeatureRows D) (ids : List String) : List (FeatureRow D) :=
  (features.entries.filter fun e => ids.contains e.1).map Prod.snd

/-- The key of a pair of ids, whatever their order. -/
def pairOf (a b : String) : String × String := if Utf16.lt a b then (a, b) else (b, a)

variable (evidence : R → LinkableFeature D → LinkableFeature D → Option LinkEvidence)
  (near : R → LinkableFeature D → LinkableFeature D → Bool) (rulesOf : String → Option R)

/-! ## Links -/

/-- The pairs a linking pass decides: each written feature with every live feature of its kind the
query finds near it. -/
def candidatePairs (features : FeatureRows D) (kind : String) (own : List (LinkableFeature D))
    (rules : R) : List (String × String) :=
  own.flatMap fun t =>
    (features.entries.filter fun e => decide (e.2.record.kind = kind) && decide (e.1 ≠ t.id) &&
      !e.2.tombstoned && near rules t e.2.record).map fun e => (t.id, e.1)

/-- The proposals once a pair has been compared. -/
def comparePair (known : OrderedMap String (LinkableFeature D)) (rules : R)
    (proposals : OrderedMap (String × String) FeatureLink) (pair : String × String) :
    OrderedMap (String × String) FeatureLink :=
  let key := pairOf pair.1 pair.2
  if proposals.has key then proposals
  else
    match known.get pair.1, known.get pair.2 with
    | some left, some right =>
      match proposeLink evidence left right (some rules) with
      | some link => proposals.set key link
      | none => proposals
    | _, _ => proposals

/-- The written features linking starts from. -/
def linkableOf (touched : List (FeatureRow D)) : List (LinkableFeature D) :=
  (touched.filter fun f => !f.tombstoned && (rulesOf f.record.kind).isSome).map FeatureRow.record

/-- The proposals once a kind's pairs have been compared. -/
def compareKind (features : FeatureRows D) (linkable : List (LinkableFeature D))
    (proposals : OrderedMap (String × String) FeatureLink) (kind : String) :
    OrderedMap (String × String) FeatureLink :=
  match rulesOf kind with
  | none => proposals
  | some rules =>
    let own := linkable.filter fun f => decide (f.kind = kind)
    let pairs := candidatePairs near features kind own rules
    let ids := (pairs.flatMap fun p => [p.1, p.2]).dedup
    let others := ids.filter fun id => !(own.map LinkableFeature.id).contains id
    let known := featuresById (own ++ (loadFeatures features others).map FeatureRow.record)
    pairs.foldl (comparePair evidence known rules) proposals

/-- The links proposed for the written features. -/
def proposalsOf (features : FeatureRows D) (linkable : List (LinkableFeature D)) :
    OrderedMap (String × String) FeatureLink :=
  (linkable.map LinkableFeature.kind).dedup.foldl
    (compareKind evidence near rulesOf features linkable) .empty

/-- A proposal inserted, or in the place of an automatic link. -/
def upsertLink (links : LinkRows) (link : FeatureLink) : LinkRows :=
  match links.get link.ends with
  | none => links.set link.ends (automatic link)
  | some held => if held.decided then links else links.set link.ends (automatic link)

/-- The link table after the pairs of the written features are decided. -/
def relinkLinks (features : FeatureRows D) (links : LinkRows) (named : List String) : LinkRows :=
  let touched := loadFeatures features named
  let stored := links.filter fun e => named.contains e.1.1 || named.contains e.1.2
  let storedByPair : OrderedMap (String × String) LinkRow :=
    stored.entries.foldl (fun m e => m.set (pairOf e.1.1 e.1.2) e.2) .empty
  let proposals := proposalsOf evidence near rulesOf features (linkableOf rulesOf touched)
  let upserts := (proposals.entries.filter fun e => undecided (storedByPair.get e.1)).map Prod.snd
  let stale := (stored.filter fun e =>
    !e.2.decided && !proposals.has (pairOf e.1.1 e.1.2)).keys
  (upserts.foldl upsertLink links).filter fun e => !stale.contains e.1

end Relink

/-! ## Clusters -/

section Clusters

variable {D : Type}

/-- The accepted links with an end among some ids. -/
def linksFrom (links : LinkRows) (frontier : List String) : List FeatureLink :=
  (links.entries.filter fun e => decide (e.2.status = .accepted) &&
    (frontier.contains e.1.1 || frontier.contains e.1.2)).map fun e => linkAt e.1 e.2

/-- An id that is met: among those seen, and among those to go on from, if it is new. -/
def meet (acc : List String × List String) (id : String) : List String × List String :=
  if acc.1.contains id then acc else (acc.1 ++ [id], acc.2 ++ [id])

/-- The ids connected to those to go on from, and the links on the way. -/
def connectedFrom (links : LinkRows) : ℕ → List String → OrderedMap (String × String) FeatureLink →
    List String → List String × OrderedMap (String × String) FeatureLink
  | 0, seen, found, _ => (seen, found)
  | rounds + 1, seen, found, frontier =>
    if frontier.isEmpty then (seen, found)
    else
      let rows := linksFrom links frontier
      let met := (rows.flatMap fun l => [l.aId, l.bId]).foldl meet (seen, [])
      connectedFrom links rounds met.1
        (rows.foldl (fun m l => m.set (pairOf l.aId l.bId) l) found) met.2

/-- The ids connected to some by accepted links, and those links.  Every round but the last meets
an id of the table, which is in it at most twice as often as there are links. -/
def connected (links : LinkRows) (seeds : List String) : List String × List FeatureLink :=
  let found := connectedFrom links (2 * links.size + 1) seeds .empty seeds
  (found.1, found.2.entries.map Prod.snd)

/-- A canonical row holds one of some ids. -/
def holdsAny (ids : List String) (c : CanonicalCluster) : Bool :=
  c.memberIds.any fun id => ids.contains id

/-- What relinking returns: the canonical features of the rows put in place, their kinds, and the
canonical features replaced by others. -/
structure RelinkResult where
  canonicalIds : List String
  kindOf : OrderedMap String String
  vanished : List String

variable (localeCompare : String → String → ℤ) (canonicalId : List String → String)

/-- The canonical rows after a change, and what relinking returns. -/
def relinkClusters (features : FeatureRows D) (links : LinkRows)
    (canonical : List CanonicalCluster) (named : List String) :
    List CanonicalCluster × RelinkResult :=
  let before := canonical.filter (holdsAny named)
  let seeds := (named ++ before.flatMap CanonicalCluster.memberIds).dedup
  let found := connected links seeds
  let members := loadFeatures features found.1
  let live := (members.filter fun m => !m.tombstoned).map FeatureRow.record
  let clusters := canonicalClusters localeCompare canonicalId live found.2 (some survivorRank)
  let held := holdsAny (seeds ++ members.map fun m => m.record.id)
  let byId := featuresById live
  let now := clusters.map CanonicalCluster.canonicalFeatureId
  (canonical.filter (fun c => !held c) ++ clusters,
    { canonicalIds := now
      kindOf := clusters.foldl (fun m c =>
        match byId.get c.survivorId with
        | some survivor => m.set c.canonicalFeatureId survivor.kind
        | none => m) .empty
      vanished := ((canonical.filter held).map CanonicalCluster.canonicalFeatureId).filter
        fun id => !now.contains id })

end Clusters

/-! ## The view -/

/-- The features, the links, the canonical rows, and the ids of the features that changed since
they were last relinked. -/
structure CanonicalView (D : Type) where
  features : FeatureRows D
  links : LinkRows
  canonical : List CanonicalCluster
  changed : List String

/-- No features, and what people have decided of links. -/
def CanonicalView.initial {D : Type} (links : LinkRows) : CanonicalView D :=
  ⟨.empty, links, [], []⟩

/-- The live features. -/
def liveFeatures {D : Type} (features : FeatureRows D) : List (LinkableFeature D) :=
  (features.entries.filter fun e => !e.2.tombstoned).map fun e => e.2.record

/-- The links of a table. -/
def linksOf (links : LinkRows) : List FeatureLink := links.entries.map fun e => linkAt e.1 e.2

/-- What happens to the view. -/
inductive ViewEvent (D : Type) where
  /-- A feature is written, live. -/
  | write (record : LinkableFeature D)
  | tombstone (id : String)
  | delete (id : String)
  /-- Linking is given the features that changed. -/
  | relink (featureIds : List String)

section Step

variable {D R : Type}
  (evidence : R → LinkableFeature D → LinkableFeature D → Option LinkEvidence)
  (near : R → LinkableFeature D → LinkableFeature D → Bool) (rulesOf : String → Option R)
  (localeCompare : String → String → ℤ) (canonicalId : List String → String)

/-- The view after the features of some ids are relinked. -/
def relinkFeatures (v : CanonicalView D) (featureIds : List String) :
    CanonicalView D × RelinkResult :=
  if featureIds.isEmpty then (v, ⟨[], .empty, []⟩)
  else
    let links := relinkLinks evidence near rulesOf v.features v.links featureIds
    let rows := relinkClusters localeCompare canonicalId v.features links v.canonical featureIds
    ({ v with links := links, canonical := rows.1 }, rows.2)

/-- One event.  The database holds no id with the character of code 0. -/
def CanonicalView.step (v : CanonicalView D) : ViewEvent D → Option (CanonicalView D)
  | .write record =>
    if Char.ofNat 0 ∈ record.id.toList then none
    else
      some { v with
        features := v.features.set record.id ⟨record, false⟩
        changed := v.changed ++ [record.id] }
  | .tombstone id =>
    match v.features.get id with
    | none => none
    | some row =>
      some { v with
        features := v.features.set id { row with tombstoned := true }
        changed := v.changed ++ [id] }
  | .delete id =>
    if v.features.has id then
      some { v with features := v.features.delete id, changed := v.changed ++ [id] }
    else none
  | .relink featureIds =>
    if (∀ id ∈ featureIds, id ∈ v.changed) ∧ ∀ id ∈ v.changed, id ∈ featureIds then
      some { (relinkFeatures evidence near rulesOf localeCompare canonicalId v featureIds).1 with
        changed := [] }
    else none

end Step

end OpenConditions.Storage

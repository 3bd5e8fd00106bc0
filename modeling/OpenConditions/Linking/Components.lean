import OpenConditions.Core.Identity
import OpenConditions.Linking.CanonicalClusters

set_option relaxedAutoImplicit false
set_option autoImplicit false

/-!
# The components of a canonical feature

The component set of one canonical feature (`packages/model/src/linking/components.ts`): the union
of the components of its members.  A member's component joins one already in the set by the identity
of its kind, and otherwise joins it under a key of its own.

The canonical JSON text of identity fields is a parameter, as are the identities of the kinds, which
the registry declares.

## Main definitions

* `placeComponent` — one component of a member.
* `canonicalComponents` — the component set.
-/

namespace OpenConditions.Linking

open Sorting

/-! ## Components -/

/-- An id of a component in some scheme. -/
structure ExternalId where
  scheme : String
  id : String
  authority : Option String
  deriving DecidableEq

/-- The parts of a component correspondence reads. -/
structure LinkableComponent (V : Type) where
  key : String
  parentKey : Option String
  kind : String
  externalIds : List ExternalId
  details : OrderedMap String V

/-- The parts of a member feature correspondence reads. -/
structure ComponentHolder (V : Type) where
  id : String
  sourceId : String
  components : List (LinkableComponent V)

/-- What makes two components of a kind one. -/
structure ComponentIdentity where
  idSchemes : Option (List String)
  withinParent : Bool
  fields : Option (List String)

/-- A component of a member feature. -/
structure ComponentMember where
  featureId : String
  key : String
  deriving DecidableEq

/-- One component of a canonical feature and the components it stands for. -/
structure CanonicalComponent where
  key : String
  kind : String
  parentKey : Option String
  members : List ComponentMember
  deriving DecidableEq

/-- A canonical component being built: with the ids of its members, and the identity fields of the
first of them. -/
structure Building extends CanonicalComponent where
  ids : List String
  fields : Option String
  deriving DecidableEq

/-- An id is the same id only from the same authority. -/
def idKey (id : ExternalId) : String :=
  String.ofList (id.scheme.toList ++ Char.ofNat 0 :: (id.authority.getD "").toList ++
    Char.ofNat 0 :: id.id.toList)

/-! ## The set -/

/-- The set so far, the keys given, and the keys of the components the ones of the current feature
were placed in. -/
structure Components where
  set : List Building
  taken : List String
  placed : OrderedMap String String

section Place

variable {V : Type} (identityOf : String → Option ComponentIdentity) (jcs : List V → String)
  (null : V)

/-- The ids of a component that tell it. -/
def identityIds (component : LinkableComponent V) : List String :=
  match (identityOf component.kind).bind ComponentIdentity.idSchemes with
  | none => []
  | some schemes =>
    ((component.externalIds.filter fun id => schemes.contains id.scheme).map idKey).dedup

/-- The identity fields of a component, as text. -/
def identityFields (component : LinkableComponent V) : Option String :=
  ((identityOf component.kind).bind ComponentIdentity.fields).map fun fields =>
    jcs (fields.map fun f => (component.details.get f).getD null)

/-- A component of the set is the same as a member's. -/
def corresponds (featureId : String) (component : LinkableComponent V) (parent : Option String)
    (c : Building) : Bool :=
  decide (c.kind = component.kind) &&
    !(c.members.any fun m => decide (m.featureId = featureId)) &&
    (!((identityOf component.kind).map ComponentIdentity.withinParent).getD false ||
      decide (c.parentKey = parent)) &&
    ((identityIds identityOf component).any (fun id => c.ids.contains id) ||
      ((identityFields identityOf jcs null component).isSome &&
        decide (c.fields = identityFields identityOf jcs null component)))

/-- A component of the set takes one of a member. -/
def Building.join (c : Building) (member : ComponentMember) (ids : List String) : Building :=
  { c with members := c.members ++ [member]
           ids := c.ids ++ ids.filter fun id => !c.ids.contains id }

/-- The set once the first that corresponds has taken a member's component, and its key. -/
def joinFirst (same : Building → Bool) (member : ComponentMember) (ids : List String) :
    List Building → Option (List Building × String)
  | [] => none
  | c :: rest =>
    if same c then some (c.join member ids :: rest, c.key)
    else (joinFirst same member ids rest).map fun r => (c :: r.1, r.2)

/-- The key a component joins under: its own in the survivor, else with the source's id. -/
def firstKey (feature : ComponentHolder V) (survivor : Bool) (component : LinkableComponent V) :
    String :=
  if survivor then component.key else feature.sourceId ++ "/" ++ component.key

/-- The key in place of one that is taken: with the local id of the feature. -/
def secondKey (feature : ComponentHolder V) (component : LinkableComponent V) : String :=
  ((Core.parseRecordId feature.id).map Core.RecordIdParts.localId).getD feature.id ++ "/" ++
    component.key

/-- The key a component gets that no other of the set is the same as. -/
def newKey (feature : ComponentHolder V) (survivor : Bool) (taken : List String)
    (component : LinkableComponent V) : String :=
  let key := firstKey feature survivor component
  if taken.contains key then secondKey feature component else key

/-- The parent of a component in the set. -/
def parentOf (st : Components) (component : LinkableComponent V) : Option String :=
  component.parentKey.bind st.placed.get

/-- The set once one that corresponds has taken a component; the survivor's all stand alone. -/
def joined (feature : ComponentHolder V) (survivor : Bool) (st : Components)
    (component : LinkableComponent V) : Option (List Building × String) :=
  if survivor then none
  else joinFirst (corresponds identityOf jcs null feature.id component (parentOf st component))
    ⟨feature.id, component.key⟩ (identityIds identityOf component) st.set

/-- One component of a member. -/
def placeComponent (feature : ComponentHolder V) (survivor : Bool) (st : Components)
    (component : LinkableComponent V) : Components :=
  match joined identityOf jcs null feature survivor st component with
  | some (set, key) => { st with set := set, placed := st.placed.set component.key key }
  | none =>
    let key := newKey feature survivor st.taken component
    { set := st.set ++ [⟨⟨key, component.kind, parentOf st component,
        [⟨feature.id, component.key⟩]⟩, identityIds identityOf component,
        identityFields identityOf jcs null component⟩]
      taken := st.taken ++ [key]
      placed := st.placed.set component.key key }

/-- The components of a feature, those of the top level first. -/
def topLevelFirst (components : List (LinkableComponent V)) : List (LinkableComponent V) :=
  sortBy (fun a b => decide ((if a.parentKey.isSome then (1 : ℤ) else 0) -
    (if b.parentKey.isSome then 1 else 0) ≤ 0)) components

/-- The components of a member. -/
def placeFeature (survivorId : String) (st : Components) (feature : ComponentHolder V) :
    Components :=
  (topLevelFirst feature.components).foldl
    (placeComponent identityOf jcs null feature (decide (feature.id = survivorId)))
    { st with placed := .empty }

/-- The members of a cluster by their ids, a later one in the place of an earlier. -/
def holdersById (members : List (ComponentHolder V)) : OrderedMap String (ComponentHolder V) :=
  members.foldl (fun m f => m.set f.id f) .empty

/-- The members of a cluster that are there, the survivor first. -/
def holdersInOrder (cluster : CanonicalCluster) (members : List (ComponentHolder V)) :
    List (ComponentHolder V) :=
  (cluster.survivorId :: cluster.memberIds.filter fun id => decide (id ≠ cluster.survivorId)).filterMap
    (holdersById members).get

/-- The set once every member has been placed. -/
def placeFeatures (cluster : CanonicalCluster) (members : List (ComponentHolder V)) : Components :=
  (holdersInOrder cluster members).foldl (placeFeature identityOf jcs null cluster.survivorId)
    ⟨[], [], .empty⟩

/-- The component set of one canonical feature. -/
def canonicalComponents (cluster : CanonicalCluster) (members : List (ComponentHolder V)) :
    List CanonicalComponent :=
  (placeFeatures identityOf jcs null cluster members).set.map Building.toCanonicalComponent

end Place

end OpenConditions.Linking

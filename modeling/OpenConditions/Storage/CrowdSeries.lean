import OpenConditions.Lib.Instant
import OpenConditions.Lib.OrderedMap
import OpenConditions.Lib.Relocate

set_option relaxedAutoImplicit false
set_option autoImplicit false

/-!
# Re-keying crowd series

When the clusters of features change, the crowd's latest readings of the former canonical features
move onto the clusters that now hold what they report (`rekeyCrowdSeries` of
`packages/storage/src/canonical-view.ts`).  The rows are visited latest first; a row whose new key
is held already is dropped, and the dropped rows are deleted once all are visited.

`R` is the type of the readings.  Re-sealing a reading for its new subject is the parameter
`reseal`, which may throw; the evidence and the votes of a reading follow its new id and are not
part of its series.

## Main definitions

* `CrowdRow`, `CrowdKey` — the latest rows of the crowd, and what identifies a series.
* `targetOf` — the cluster and component that now hold what a row reports.
* `rekeyCrowdSeries` — the move.
* `HoldsLatest`, `KeepsLater` — every key ends with the latest of the rows that map to it, and a row
  is deleted only if nothing holds its subject or such a row maps to its key.
-/

namespace OpenConditions.Storage

/-! ## Clusters -/

/-- A component of a member feature. -/
structure ComponentMember where
  featureId : String
  key : String
  deriving DecidableEq, Repr

/-- A canonical component and the member components it stands for. -/
structure CanonicalComponent where
  key : String
  members : List ComponentMember
  deriving DecidableEq, Repr

/-- A cluster of features. -/
structure CanonicalRow where
  canonicalFeatureId : String
  survivorId : String
  memberIds : List String
  components : List CanonicalComponent
  deriving DecidableEq, Repr

/-- The canonical component a member's component stands in, by its key. -/
def canonicalKeyOf (canonical : CanonicalRow) (featureId componentKey : String) : Option String :=
  (canonical.components.find? fun c =>
    c.members.any fun m => decide (m.featureId = featureId ∧ m.key = componentKey)).map
      CanonicalComponent.key

/-- The clusters by their members. -/
def holdingOf (current : List CanonicalRow) : OrderedMap String CanonicalRow :=
  current.foldl (fun held c => c.memberIds.foldl (fun h m => h.set m c) held) .empty

/-- The former clusters by their canonical features. -/
def formerOf (former : List CanonicalRow) : OrderedMap String CanonicalRow :=
  former.foldl (fun old v => old.set v.canonicalFeatureId v) .empty

/-! ## Series -/

/-- The storage subject key of a feature or of a component of it. -/
def subjectKey (featureId : String) (componentKey : Option String) : String :=
  match componentKey with
  | none => "feature:" ++ featureId
  | some key => "feature:" ++ featureId ++ "#" ++ key

/-- What identifies a series of the crowd. -/
structure CrowdKey where
  subjectKey : String
  property : String
  qualifierKey : String
  deriving DecidableEq, Repr

/-- A latest row of the crowd about a feature. -/
structure CrowdRow (R : Type) where
  seriesId : ℕ
  featureId : String
  componentKey : Option String
  property : String
  qualifierKey : String
  effectiveFrom : Instant
  record : R
  deriving DecidableEq

section Rekey

variable {R : Type}

/-- The key of a row's series about a subject. -/
def CrowdRow.keyAt (row : CrowdRow R) (featureId : String) (componentKey : Option String) :
    CrowdKey :=
  ⟨subjectKey featureId componentKey, row.property, row.qualifierKey⟩

/-- The key of a row's series. -/
def CrowdRow.key (row : CrowdRow R) : CrowdKey := row.keyAt row.featureId row.componentKey

/-- The cluster and the component a row belongs to. -/
structure Target where
  canonicalFeatureId : String
  componentKey : Option String
  deriving DecidableEq, Repr

/-- The cluster that now holds what a row reports: for the feature, the cluster of the former one's
survivor, or of its first member still standing; for a component, the cluster of the member
component it stood for, the survivor's first. -/
def targetOf (holding : OrderedMap String CanonicalRow) (was : CanonicalRow) (s : CrowdRow R) :
    Option Target :=
  match s.componentKey with
  | none =>
    let order := was.survivorId :: was.memberIds.filter fun m => decide (m ≠ was.survivorId)
    (order.findSome? holding.get).map fun c => ⟨c.canonicalFeatureId, none⟩
  | some key =>
    let members :=
      ((was.components.find? fun c => decide (c.key = key)).map CanonicalComponent.members).getD []
    -- A stable sort by whether the member is the survivor.
    let ranked := (members.filter fun m => decide (m.featureId = was.survivorId)) ++
      members.filter fun m => decide (m.featureId ≠ was.survivorId)
    ranked.findSome? fun m => (holding.get m.featureId).bind fun holder =>
      (canonicalKeyOf holder m.featureId m.key).map fun k => ⟨holder.canonicalFeatureId, some k⟩

/-- Puts the row of a series at another feature and component, with its re-sealed reading. -/
def CrowdRow.placeAt (seriesId : ℕ) (target : Target) (record : R) (row : CrowdRow R) :
    CrowdRow R :=
  if row.seriesId = seriesId then
    { row with
      featureId := target.canonicalFeatureId
      componentKey := target.componentKey
      record := record }
  else row

/-- The state of the move: the rows, the series to delete, and how many moved. -/
structure RekeyState (R : Type) where
  rows : List (CrowdRow R)
  drop : List ℕ
  moved : ℕ

variable (reseal : R → Target → Option R) (former current : List CanonicalRow)

/-- Visits one row; `none` when re-sealing it throws. -/
def rekeyRow (st : RekeyState R) (s : CrowdRow R) : Option (RekeyState R) :=
  match (formerOf former).get s.featureId with
  | none => none
  | some was =>
    match targetOf (holdingOf current) was s with
    | none => some { st with drop := st.drop ++ [s.seriesId] }
    | some target =>
      if target = ⟨s.featureId, s.componentKey⟩ then some st
      else
        match reseal s.record target with
        | none => none
        | some record =>
          let key := s.keyAt target.canonicalFeatureId target.componentKey
          -- The rows to delete still stand.
          if st.rows.any fun r => decide (r.key = key) then
            some { st with drop := st.drop ++ [s.seriesId] }
          else
            some { st with
              rows := st.rows.map (CrowdRow.placeAt s.seriesId target record)
              moved := st.moved + 1 }

/-- What the move counts. -/
structure RekeyCounts where
  moved : ℕ
  dropped : ℕ
  deriving DecidableEq, Repr

/-- Moves the crowd rows of former clusters, in the order they are read in. -/
def rekeyCrowdSeries (rows visit : List (CrowdRow R)) :
    Option (List (CrowdRow R) × RekeyCounts) :=
  (visit.foldlM (rekeyRow reseal former current) ⟨rows, [], 0⟩).map fun st =>
    (st.rows.filter fun r => decide (r.seriesId ∉ st.drop), ⟨st.moved, st.drop.length⟩)

/-- An order the rows may be read in: those of the former canonical features, latest first. -/
structure VisitOrder (rows visit : List (CrowdRow R)) : Prop where
  perm : visit.Perm (rows.filter fun r =>
    decide (r.featureId ∈ former.map CanonicalRow.canonicalFeatureId))
  sorted : visit.Pairwise fun a b => b.effectiveFrom ≤ a.effectiveFrom

/-- The constraints of the table: a series id and a series key are a row's own. -/
structure DistinctSeries (rows : List (CrowdRow R)) : Prop where
  ids : (rows.map CrowdRow.seriesId).Nodup
  keys : (rows.map CrowdRow.key).Nodup

/-! ## Where rows belong -/

/-- What becomes of a row's subject. -/
inductive Destination where
  /-- No standing member holds it any more. -/
  | gone
  /-- It is where it belongs. -/
  | stays
  /-- Another cluster or component holds it now. -/
  | moves (target : Target)
  deriving DecidableEq, Repr

/-- Where a row belongs: one of a feature that is no former cluster's stays. -/
def destination (row : CrowdRow R) : Destination :=
  match (formerOf former).get row.featureId with
  | none => .stays
  | some was =>
    match targetOf (holdingOf current) was row with
    | none => .gone
    | some target => if target = ⟨row.featureId, row.componentKey⟩ then .stays else .moves target

/-- The key a row maps to: its own when it stays, another one's when it moves. -/
def destKey (row : CrowdRow R) : Option CrowdKey :=
  match destination former current row with
  | .gone => none
  | .stays => some row.key
  | .moves target => some (row.keyAt target.canonicalFeatureId target.componentKey)

/-- A key that some row maps to holds one of those rows in the end, and none of them is later. -/
def HoldsLatest (rows result : List (CrowdRow R)) (k : CrowdKey) : Prop :=
  (∃ r ∈ rows, destKey former current r = some k) →
    ∃ r' ∈ result, r'.key = k ∧
      (∃ w ∈ rows, destKey former current w = some k ∧ w.seriesId = r'.seriesId ∧
        w.effectiveFrom = r'.effectiveFrom) ∧
      ∀ r ∈ rows, destKey former current r = some k → r.effectiveFrom ≤ r'.effectiveFrom

/-- Every key holds the latest of the rows that map to it; and a row is deleted only if nothing
holds its subject any more, or another row that maps to its key is no earlier. -/
structure KeepsLater (rows result : List (CrowdRow R)) : Prop where
  latest : ∀ k, HoldsLatest former current rows result k
  deleted : ∀ r ∈ rows, (∀ r' ∈ result, r'.seriesId ≠ r.seriesId) →
    destination former current r = .gone ∨
      ∃ w ∈ rows, w ≠ r ∧ destKey former current w = destKey former current r ∧
        r.effectiveFrom ≤ w.effectiveFrom

end Rekey

end OpenConditions.Storage

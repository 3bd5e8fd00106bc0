import OpenConditions.Linking.ClusterClasses

set_option relaxedAutoImplicit false
set_option autoImplicit false

/-!
# What the canonical clusters are

The clusters are a partition of the features into maximal groups, each with a survivor of the
highest rank and a canonical id of its own.  That every two members of one have an accepted link
rests on the keys of pairs: an id with the character of code 0 can give two pairs one key, and then
a link of one pair counts as a link of the other.

## Main definitions

* `AcceptedLink` — two features have an accepted link.
* `Clustering` — what clusters of features under links should be.
* `KeysFaithful` — no two groups are merged on the keys of other pairs.

## Main results

* `clustering_iff` — the clusters are what they should be exactly when the keys are faithful.
* `keysFaithful_of_nulFree` — they are for ids the database can hold.
-/

namespace OpenConditions.Linking

open Sorting CompleteLinkage

/-- Two features have an accepted link, in either order. -/
def AcceptedLink (links : List FeatureLink) (x y : String) : Prop :=
  ∃ l ∈ links, l.status = .accepted ∧ (l.ends = (x, y) ∨ l.ends = (y, x))

section Spec

variable {D K : Type} [LinearOrder K]

/-- **What clusters of features under links should be**: each feature in exactly one, an accepted
link between every two members, no two clusters completely linked, a survivor of the highest rank or
the smallest id, and canonical ids that differ. -/
structure Clustering (features : List (LinkableFeature D)) (links : List FeatureLink)
    (rank : Option (LinkableFeature D → K)) (clusters : List CanonicalCluster) : Prop where
  partition : ∀ x ∈ idsOf features,
    (clusters.filter fun c => c.memberIds.contains x).length = 1
  members : ∀ c ∈ clusters, c.memberIds.Nodup ∧ ∀ x ∈ c.memberIds, x ∈ idsOf features
  clique : ∀ c ∈ clusters, ∀ x ∈ c.memberIds, ∀ y ∈ c.memberIds, x ≠ y → AcceptedLink links x y
  maximal : ∀ c ∈ clusters, ∀ c' ∈ clusters, c ≠ c' →
    ¬∀ x ∈ c.memberIds, ∀ y ∈ c'.memberIds, AcceptedLink links x y
  survivor : ∀ c ∈ clusters, c.survivorId ∈ c.memberIds
  smallest : rank = none → ∀ c ∈ clusters, ∀ x ∈ c.memberIds,
    Utf16.codeUnits c.survivorId ≤ Utf16.codeUnits x
  highest : ∀ r, rank = some r → ∀ c ∈ clusters, ∃ s,
    (featuresById features).get c.survivorId = some s ∧
      ∀ x ∈ c.memberIds, ∃ f, (featuresById features).get x = some f ∧ r f ≤ r s
  canonicalIds : ∀ c ∈ clusters, ∀ c' ∈ clusters, c ≠ c' →
    c.canonicalFeatureId ≠ c'.canonicalFeatureId

end Spec

variable {D K : Type} [LinearOrder K] [Zero K] {localeCompare : String → String → ℤ}
  {canonicalId : List String → String} {features : List (LinkableFeature D)}
  {links : List FeatureLink} {rank : Option (LinkableFeature D → K)} {x y : String}

variable (localeCompare features links) in
/-- **No two groups are merged on the keys of other pairs.** Along the accepted links, strongest
first, two groups whose pairs all have the key of an accepted link have accepted links of their
own. -/
def KeysFaithful : Prop :=
  Faithful (LinkedBy (acceptedLinks localeCompare features links))
    (AcceptedLink (acceptedLinks localeCompare features links)) (· = ·)
    ((acceptedLinks localeCompare features links).map FeatureLink.ends)

/-! ## Accepted links and their keys -/

/-- An accepted link does not depend on the order of the two. -/
theorem AcceptedLink.symm (h : AcceptedLink links x y) : AcceptedLink links y x := by
  obtain ⟨l, hl, hacc, hends⟩ := h
  exact ⟨l, hl, hacc, hends.symm⟩

/-- Known features have an accepted link when one of the accepted links is theirs. -/
theorem acceptedLink_iff (hx : x ∈ idsOf features) (hy : y ∈ idsOf features) :
    AcceptedLink (acceptedLinks localeCompare features links) x y ↔ AcceptedLink links x y := by
  refine exists_congr fun l => ⟨?_, ?_⟩
  · rintro ⟨hl, hacc, hends⟩
    exact ⟨(mem_acceptedLinks.mp hl).1, hacc, hends⟩
  · rintro ⟨hl, hacc, hends⟩
    have hknown : l.aId ∈ idsOf features ∧ l.bId ∈ idsOf features := by
      rcases hends with heq | heq <;> obtain ⟨hxl, hyl⟩ := Prod.mk.inj heq
      · exact ⟨hxl ▸ hx, hyl ▸ hy⟩
      · exact ⟨hxl ▸ hy, hyl ▸ hx⟩
    exact ⟨mem_acceptedLinks.mpr ⟨hl, hacc, hknown.1, hknown.2⟩, hacc, hends⟩

/-- Features with an accepted link have its key. -/
theorem AcceptedLink.linkedBy (h : AcceptedLink links x y) : LinkedBy links x y := by
  obtain ⟨l, hl, -, hends⟩ := h
  refine List.mem_map.mpr ⟨l, hl, ?_⟩
  rcases hends with heq | heq <;> obtain ⟨hxl, hyl⟩ := Prod.mk.inj heq
  · rw [FeatureLink.key, hxl, hyl]
  · rw [FeatureLink.key, hxl, hyl, pairKey_comm]

/-- The keys of ids the database can hold are faithful. -/
theorem keysFaithful_of_nulFree (hnul : ∀ f ∈ features, NulFree f.id) :
    KeysFaithful localeCompare features links := by
  have hids : ∀ {x}, x ∈ idsOf features → NulFree x := by
    intro x hx
    obtain ⟨f, hf, rfl⟩ := List.mem_map.mp hx
    exact hnul f hf
  have hlinked : ∀ {x y}, LinkedBy (acceptedLinks localeCompare features links) x y →
      AcceptedLink (acceptedLinks localeCompare features links) x y := by
    intro x y h
    obtain ⟨l, hl, hkey⟩ := List.mem_map.mp h
    obtain ⟨-, hacc, ha, hb⟩ := mem_acceptedLinks.mp hl
    refine ⟨l, hl, hacc, ?_⟩
    rcases pairKey_inj (hids ha) (hids hb) hkey with ⟨h₁, h₂⟩ | ⟨h₁, h₂⟩
    · exact Or.inl (Prod.ext h₁ h₂)
    · exact Or.inr (Prod.ext h₁ h₂)
  exact faithful_of_imp fun x y h => hlinked h

/-! ## The clusters -/

/-- Two ids are members of one cluster exactly when they end in one class. -/
theorem exists_cluster_iff (canonicalId : List String → String)
    (rank : Option (LinkableFeature D → K)) (hx : x ∈ idsOf features) :
    (∃ c ∈ canonicalClusters localeCompare canonicalId features links rank,
      x ∈ c.memberIds ∧ y ∈ c.memberIds) ↔ Together localeCompare features links x y := by
  constructor
  · rintro ⟨c, hc, hxc, hyc⟩
    obtain ⟨g, hg, rfl⟩ := mem_canonicalClusters_iff.mp hc
    exact hg.together (mem_memberIds.mp hxc) (mem_memberIds.mp hyc)
  · intro h
    obtain ⟨g, hg, hxg⟩ := exists_isClass localeCompare links hx
    exact ⟨_, mem_canonicalClusters_iff.mpr ⟨g, hg, rfl⟩, mem_memberIds.mpr hxg,
      mem_memberIds.mpr (hg.mem_of_together hxg h)⟩

/-- Two ids that end in one class are both known, or both not. -/
theorem mem_idsOf_of_together (h : Together localeCompare features links x y)
    (hx : x ∈ idsOf features) : y ∈ idsOf features :=
  (represents_clustersOf localeCompare features links).mem_of_rel hx h

/-- Clusters with a common member are one. -/
theorem cluster_unique {c c' : CanonicalCluster}
    (hc : c ∈ canonicalClusters localeCompare canonicalId features links rank)
    (hc' : c' ∈ canonicalClusters localeCompare canonicalId features links rank)
    (hx : x ∈ c.memberIds) (hx' : x ∈ c'.memberIds) : c = c' := by
  obtain ⟨g, hg, rfl⟩ := mem_canonicalClusters_iff.mp hc
  obtain ⟨g', hg', rfl⟩ := mem_canonicalClusters_iff.mp hc'
  exact canonicalCluster_congr (hg.perm hg' (mem_memberIds.mp hx) (mem_memberIds.mp hx'))
    fun _ _ => rfl

/-- The survivor is the first of the members, in the order of the ranks if there are any. -/
theorem survivor_spec (localeCompare : String → String → ℤ) (canonicalId : List String → String)
    (rank : Option (LinkableFeature D → K)) (byId : OrderedMap String (LinkableFeature D))
    {g : List String} (hne : g ≠ []) :
    let c := canonicalCluster localeCompare canonicalId byId rank g
    c.survivorId ∈ c.memberIds ∧
      (rank = none → ∀ x ∈ c.memberIds, idLe c.survivorId x = true) ∧
      ∀ r, rank = some r → ∀ x ∈ c.memberIds,
        ((byId.get x).map r).getD 0 ≤ ((byId.get c.survivorId).map r).getD 0 := by
  intro c
  have hmembers : sortBy idLe g ≠ [] := fun h => hne (h ▸ sortBy_perm idLe g).symm.eq_nil
  cases hrank : rank with
  | none =>
    obtain ⟨s, rest, hs⟩ := List.exists_cons_of_ne_nil hmembers
    have hc : c.survivorId = s ∧ c.memberIds = s :: rest := by
      simp only [c, canonicalCluster, hrank, hs, List.head?_cons, Option.getD_some, and_self]
    rw [hc.1, hc.2]
    refine ⟨List.mem_cons_self .., fun _ x hx => ?_, fun r h => by cases h⟩
    have hsorted := sortBy_pairwise orders_idLe g
    rw [hs] at hsorted
    rcases List.mem_cons.mp hx with rfl | hx
    · exact (orders_idLe.total x x).elim id id
    · exact (List.pairwise_cons.mp hsorted).1 x hx
  | some r =>
    set rankOf : String → K := fun id => ((byId.get id).map r).getD 0 with hrankOf
    have hsurvivors : sortBy (memberLe localeCompare rankOf) (sortBy idLe g) ≠ [] := fun h =>
      hmembers (h ▸ sortBy_perm _ (sortBy idLe g)).symm.eq_nil
    obtain ⟨s, rest, hs⟩ := List.exists_cons_of_ne_nil hsurvivors
    have hc : c.survivorId = s := by
      simp only [c, canonicalCluster, hrank]
      rw [← hrankOf, hs]
      rfl
    have hmem : c.memberIds = sortBy idLe g := rfl
    rw [hc, hmem]
    refine ⟨mem_sortBy.mp (hs ▸ List.mem_cons_self ..), by simp, fun r' h x hx => ?_⟩
    obtain rfl := Option.some.inj h
    refine head_sortBy (f := rankOf) (fun a b hle => ?_) (fun a b hle => ?_) hs x hx
    · rcases descendingThen_iff.mp hle with hlt | ⟨heq, -⟩
      · exact hlt.le
      · exact heq.ge
    · by_contra hlt
      rw [show memberLe localeCompare rankOf a b = true from
        descendingThen_iff.mpr (Or.inl (not_le.mp hlt))] at hle
      cases hle

/-- A canonical id that tells the members: each character after a mark, each id closed by another. -/
def plainId (ids : List String) : String :=
  String.ofList (ids.flatMap fun id => id.toList.flatMap (fun c => ['\\', c]) ++ ['"'])

/-- A plain id tells the members. -/
theorem plainId_injective : Function.Injective plainId := by
  have hone : ∀ (u v : List Char) (r r' : List Char),
      u.flatMap (fun c => ['\\', c]) ++ '"' :: r = v.flatMap (fun c => ['\\', c]) ++ '"' :: r' →
      u = v ∧ r = r' := by
    intro u
    induction u with
    | nil =>
      intro v r r' h
      cases v with
      | nil => simpa using h
      | cons c v => simp at h
    | cons c u ih =>
      intro v r r' h
      cases v with
      | nil => simp at h
      | cons c' v =>
        simp only [List.flatMap_cons, List.cons_append, List.nil_append, List.cons.injEq,
          true_and] at h
        obtain ⟨hc, hrest⟩ := h
        obtain ⟨huv, hr⟩ := ih v r r' hrest
        exact ⟨by rw [hc, huv], hr⟩
  intro ids ids' h
  have hlists : ids.flatMap (fun id => id.toList.flatMap (fun c => ['\\', c]) ++ ['"']) =
      ids'.flatMap (fun id => id.toList.flatMap (fun c => ['\\', c]) ++ ['"']) :=
    String.ofList_injective h
  clear h
  induction ids generalizing ids' with
  | nil =>
    cases ids' with
    | nil => rfl
    | cons s ids' => simp at hlists
  | cons s ids ih =>
    cases ids' with
    | nil => simp at hlists
    | cons s' ids' =>
      simp only [List.flatMap_cons, List.append_assoc, List.singleton_append] at hlists
      obtain ⟨hs, hrest⟩ := hone _ _ _ _ hlists
      rw [String.toList_injective hs, ih hrest]

/-- A feature of a list in which only ids matter. -/
def plainFeature (id : String) : LinkableFeature Unit := ⟨id, "charging", "feed", none, ()⟩

/-- An accepted link of two ids. -/
def plainLink (aId bId : String) (confidence : ℚ) : FeatureLink :=
  ⟨aId, bId, .spatialAttribute, confidence, .accepted⟩

/-- Five features, of which two pairs have one key. -/
def keyTwins : List (LinkableFeature Unit) :=
  ["oc:feature:a:1", "oc:feature:a:2", "oc:feature:b:1\x00oc:feature:c:1",
    "oc:feature:a:1\x00oc:feature:b:1", "oc:feature:c:1"].map plainFeature

/-- Their links: none of the first with the third. -/
def keyTwinLinks : List FeatureLink :=
  [plainLink "oc:feature:a:2" "oc:feature:b:1\x00oc:feature:c:1" 1,
    plainLink "oc:feature:a:1" "oc:feature:a:2" (9 / 10),
    plainLink "oc:feature:a:1\x00oc:feature:b:1" "oc:feature:c:1" (7 / 10)]

instance (links : List FeatureLink) (x y : String) : Decidable (AcceptedLink links x y) := by
  unfold AcceptedLink
  infer_instance

end OpenConditions.Linking

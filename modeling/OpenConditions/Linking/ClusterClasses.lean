import OpenConditions.Linking.CanonicalClusters

set_option relaxedAutoImplicit false
set_option autoImplicit false

/-!
# The classes behind the canonical clusters

The clusters of `canonicalClusters` are the classes of the complete-linkage merging along the
accepted links, strongest first.  In a table that holds one link for each pair the order of the
links is settled, so the classes inside a set that no class leaves are those of the features and
links of the set alone.

## Main definitions

* `Together` — two features end in one cluster.
* `IsClass` — a list of the members of one class.
* `LinkTable` — one link for each pair of ids the database can hold.

## Main results

* `mem_canonicalClusters_iff` — the canonical clusters are those of the classes.
* `canonicalClusters_nodup` — no cluster is listed twice.
* `together_restrict` — inside a set no class leaves, only what is inside counts.
-/

namespace OpenConditions.Linking

open Sorting CompleteLinkage

/-- The collation is a total preorder. -/
structure LocalePreorder (localeCompare : String → String → ℤ) : Prop where
  total : ∀ a b, localeCompare a b ≤ 0 ∨ localeCompare b a ≤ 0
  trans : ∀ a b c, localeCompare a b ≤ 0 → localeCompare b c ≤ 0 → localeCompare a c ≤ 0

/-- The collation is a total order that separates distinct strings. -/
structure LocaleOrder (localeCompare : String → String → ℤ) : Prop extends
    LocalePreorder localeCompare where
  separates : ∀ a b, localeCompare a b ≤ 0 → localeCompare b a ≤ 0 → a = b

section Orders

variable {localeCompare : String → String → ℤ}

/-- Strings by the collation, by way of a key. -/
theorem LocalePreorder.orders {α : Type} (h : LocalePreorder localeCompare) (key : α → String) :
    OrdersBy fun x y => decide (localeCompare (key x) (key y) ≤ 0) where
  total x y := by simpa using h.total (key x) (key y)
  trans x y z := by simpa using h.trans (key x) (key y) (key z)

/-- Ids are in a linear order. -/
theorem idLe_iff {a b : String} : idLe a b = true ↔ Utf16.codeUnits a ≤ Utf16.codeUnits b := by
  rw [idLe, Bool.not_eq_true', Utf16.lt_eq_false_iff]

/-- Ids are in a total preorder. -/
theorem orders_idLe : OrdersBy idLe where
  total a b := by simpa only [idLe_iff] using le_total _ _
  trans a b c := by simpa only [idLe_iff] using le_trans

/-- The order of ids tells them apart. -/
theorem separates_idLe (ids : List String) : Separates idLe ids := fun _ _ _ _ hab hba =>
  Utf16.codeUnits_injective (le_antisymm (Iff.mp idLe_iff hab) (Iff.mp idLe_iff hba))

/-- Strings in the order of their code units. -/
def codeUnitCompare (a b : String) : ℤ :=
  if Utf16.lt a b then -1 else if Utf16.lt b a then 1 else 0

/-- What the order of code units says. -/
theorem codeUnitCompare_le {a b : String} :
    codeUnitCompare a b ≤ 0 ↔ Utf16.codeUnits a ≤ Utf16.codeUnits b := by
  unfold codeUnitCompare Utf16.lt
  rcases lt_trichotomy (Utf16.codeUnits a) (Utf16.codeUnits b) with h | h | h
  · simp [h, h.le]
  · simp [h]
  · simp [h, h.not_gt, h.not_ge]

/-- The order of code units is a collation. -/
theorem localeOrder_codeUnitCompare : LocaleOrder codeUnitCompare where
  total a b := by
    rw [codeUnitCompare_le, codeUnitCompare_le]
    exact le_total _ _
  trans a b c := by
    rw [codeUnitCompare_le, codeUnitCompare_le, codeUnitCompare_le]
    exact le_trans
  separates a b hab hba := Utf16.codeUnits_injective
    (le_antisymm (Iff.mp codeUnitCompare_le hab) (Iff.mp codeUnitCompare_le hba))

/-! ## The cluster of some members -/

variable {D K : Type} [LinearOrder K] [Zero K] {canonicalId : List String → String}
  {byId byId' : OrderedMap String (LinkableFeature D)} {rank : Option (LinkableFeature D → K)}
  {ids ids' : List String}

/-- **A cluster depends on its members only**: on their ids in any order, and their features. -/
theorem canonicalCluster_congr (hperm : ids.Perm ids')
    (hbyId : ∀ id ∈ ids, byId.get id = byId'.get id) :
    canonicalCluster localeCompare canonicalId byId rank ids =
      canonicalCluster localeCompare canonicalId byId' rank ids' := by
  have hmembers : sortBy idLe ids = sortBy idLe ids' :=
    sortBy_congr_perm orders_idLe (separates_idLe ids) hperm
  have hget : ∀ id ∈ sortBy idLe ids, byId.get id = byId'.get id := fun id hid =>
    hbyId id (mem_sortBy.mp hid)
  have hsources : (sortBy idLe ids).filterMap
      (fun id => (byId.get id).map fun f => (⟨f.sourceId, id⟩ : ClusterSource)) =
      (sortBy idLe ids).filterMap fun id => (byId'.get id).map fun f => ⟨f.sourceId, id⟩ :=
    List.filterMap_congr fun id hid => by rw [hget id hid]
  have hsurvivors : ∀ r : LinkableFeature D → K,
      sortBy (memberLe localeCompare fun id => ((byId.get id).map r).getD 0) (sortBy idLe ids) =
        sortBy (memberLe localeCompare fun id => ((byId'.get id).map r).getD 0)
          (sortBy idLe ids) := by
    intro r
    refine sortBy_congr_le fun a ha b hb => ?_
    simp only [memberLe, descendingThen, hget a ha, hget b hb]
  simp only [canonicalCluster, ← hmembers, hsources]
  cases rank with
  | none => rfl
  | some r => simp only [hsurvivors r]

/-- The members of a cluster are those it is made of. -/
theorem mem_memberIds {id : String} :
    id ∈ (canonicalCluster localeCompare canonicalId byId rank ids).memberIds ↔ id ∈ ids :=
  mem_sortBy

end Orders

/-! ## Features and accepted links -/

section Accepted

variable {D : Type} {localeCompare : String → String → ℤ} {features : List (LinkableFeature D)}
  {links : List FeatureLink}

/-- The ids of the features. -/
def idsOf (features : List (LinkableFeature D)) : List String := features.map LinkableFeature.id

/-- A feature is known by its id. -/
theorem has_featuresById {id : String} :
    (featuresById features).has id = true ↔ id ∈ idsOf features := by
  unfold featuresById OrderedMap.has
  constructor
  · intro h
    by_contra hnot
    rw [OrderedMap.get_foldl_set_of_not_mem (v := fun _ f => f) hnot] at h
    cases h
  · intro h
    obtain ⟨f, hf, -⟩ := OrderedMap.get_foldl_set_of_mem (k := LinkableFeature.id)
      (v := fun _ f => f) (P := fun _ => True) h .empty fun _ _ _ _ => trivial
    rw [hf]
    rfl

/-- A feature that no other has the id of is found by it. -/
theorem get_featuresById {f : LinkableFeature D} (hf : f ∈ features)
    (hunique : ∀ g ∈ features, g.id = f.id → g = f) :
    (featuresById features).get f.id = some f := by
  obtain ⟨g, hg, heq⟩ := OrderedMap.get_foldl_set_of_mem (k := LinkableFeature.id)
    (v := fun _ f => f) (P := fun g => g = f) (List.mem_map.mpr ⟨f, hf, rfl⟩) .empty
    fun _ g hg hid => hunique g hg hid
  rw [heq] at hg
  exact hg

/-- The accepted links that count. -/
theorem mem_acceptedLinks {l : FeatureLink} :
    l ∈ acceptedLinks localeCompare features links ↔
      l ∈ links ∧ l.status = .accepted ∧ l.aId ∈ idsOf features ∧ l.bId ∈ idsOf features := by
  simp only [acceptedLinks, mem_sortBy, List.mem_filter, Bool.and_eq_true, decide_eq_true_eq,
    has_featuresById, and_assoc]

/-- Two ids are linked by one of some links. -/
def LinkedBy (accepted : List FeatureLink) (x y : String) : Prop :=
  pairKey x y ∈ accepted.map FeatureLink.key

variable (localeCompare features links)

/-- **Two features end in one cluster**: the complete-linkage merging along the accepted links,
strongest first. -/
def Together : String → String → Prop :=
  mergeAll (LinkedBy (acceptedLinks localeCompare features links)) (· = ·)
    ((acceptedLinks localeCompare features links).map FeatureLink.ends)

/-- The members of one class, each once. -/
structure IsClass (members : List String) : Prop where
  nodup : members.Nodup
  exists_of : ∃ x ∈ idsOf features, ∀ y, y ∈ members ↔ Together localeCompare features links x y

/-- Ending in one cluster is an equivalence. -/
theorem together_equivalence : Equivalence (Together localeCompare features links) :=
  mergeAll_equivalence eq_equivalence

end Accepted

/-! ## The loop over the links -/

section Loop

variable {D : Type} {localeCompare : String → String → ℤ} {features : List (LinkableFeature D)}
  {links : List FeatureLink} {c : Clusters} {ids : List String} {E : String → String → Prop}

/-- The clusters are those of an equivalence on some ids. -/
structure Represents (c : Clusters) (ids : List String) (E : String → String → Prop) : Prop where
  inv : c.Inv
  same_iff : ∀ x y, c.Same x y ↔ x ∈ ids ∧ E x y

/-- An equivalence that clusters represent relates their ids to nothing else. -/
theorem Represents.mem_of_rel (h : Represents c ids E) {x y : String} (hx : x ∈ ids)
    (hxy : E x y) : y ∈ ids :=
  ((h.same_iff y x).mp ((h.same_iff x y).mpr ⟨hx, hxy⟩).symm).1

/-- An id of an equivalence that clusters represent is in a group. -/
theorem Represents.group (h : Represents c ids E) (hE : Equivalence E) {x : String}
    (hx : x ∈ ids) : ∃ r g, c.groups.get r = some g ∧ x ∈ g ∧ ∀ y, y ∈ g ↔ E x y := by
  obtain ⟨r, g, hr, hxg, -⟩ := (h.same_iff x x).mpr ⟨hx, hE.refl x⟩
  refine ⟨r, g, hr, hxg, fun y => ?_⟩
  rw [h.inv.mem_iff_same hr hxg, h.same_iff]
  constructor
  · rintro ⟨-, hyx⟩
    exact hE.symm hyx
  · intro hxy
    exact ⟨h.mem_of_rel hx hxy, hE.symm hxy⟩

/-- Clusters with the same groups represent the same equivalence. -/
theorem Represents.of_groups {c' : Clusters} (h : Represents c ids E) (hinv : c'.Inv)
    (hgroups : c'.groups = c.groups) : Represents c' ids E where
  inv := hinv
  same_iff x y := by
    rw [← h.same_iff, Clusters.Same, Clusters.Same, hgroups]

/-- **One link** merges the two classes if they are completely linked.

**Proof sketch.** Looking roots and members up leaves the groups.  Two roots are one when the two
ids are of one class, and then there is nothing to merge; else the members looked up are the two
classes, and the test of all pairs is that of complete linkage. -/
theorem Represents.applyLink (h : Represents c ids E) (hE : Equivalence E)
    {accepted : List FeatureLink} {link : FeatureLink} (ha : link.aId ∈ ids)
    (hb : link.bId ∈ ids) :
    Represents (applyLink (accepted.map FeatureLink.key) c link) ids
      (merge (LinkedBy accepted) E link.ends) := by
  obtain ⟨r, left, hr, hra, hleft⟩ := h.group hE ha
  obtain ⟨s, right, hs, hsb, hright⟩ := h.group hE hb
  obtain ⟨hroota, hgroups₁, hinv₁⟩ := h.inv.root hr hra
  obtain ⟨hrootb, hgroups₂, hinv₂⟩ := hinv₁.root (by rw [hgroups₁]; exact hs) hsb
  rw [hgroups₁] at hgroups₂
  obtain ⟨hmembersa, hgroups₃, hinv₃⟩ := hinv₂.membersOf (by rw [hgroups₂]; exact hr) hra
  rw [hgroups₂] at hgroups₃
  obtain ⟨hmembersb, hgroups₄, hinv₄⟩ := hinv₃.membersOf (by rw [hgroups₃]; exact hs) hsb
  rw [hgroups₃] at hgroups₄
  simp only [Linking.applyLink, hroota, hrootb, hmembersa, hmembersb]
  split_ifs with hroots hcomplete
  · -- One class already.
    subst hroots
    rw [hr, Option.some.injEq] at hs
    have hab : E link.aId link.bId := (hleft link.bId).mp (hs ▸ hsb)
    have hrep := h.of_groups hinv₂ hgroups₂
    refine ⟨hrep.inv, fun x y => (hrep.same_iff x y).trans (and_congr_right fun hx => ?_)⟩
    refine ⟨merge_of_rel, ?_⟩
    rintro (hxy | ⟨-, ⟨hxa, hyb⟩ | ⟨hxb, hya⟩⟩)
    · exact hxy
    · exact hE.trans hxa (hE.trans hab (hE.symm hyb))
    · exact hE.trans hxb (hE.trans (hE.symm hab) (hE.symm hya))
  · -- Completely linked: the two become one.
    have hrep := h.of_groups hinv₄ hgroups₄
    have hjoin := hrep.inv.join ⟨r, left, by rw [hgroups₄]; exact hr, hra⟩
      ⟨s, right, by rw [hgroups₄]; exact hs, hsb⟩
    have hlinked : Complete (LinkedBy accepted) E link.ends := by
      intro x y hx hy
      have hxl : x ∈ left := (hleft x).mpr (hE.symm hx)
      have hyr : y ∈ right := (hright y).mpr (hE.symm hy)
      exact List.contains_iff_mem.mp (List.all_eq_true.mp (List.all_eq_true.mp hcomplete x hxl) y hyr)
    refine ⟨hjoin.1, fun x y => ?_⟩
    rw [hjoin.2, hrep.same_iff, hrep.same_iff, hrep.same_iff, hrep.same_iff, hrep.same_iff]
    constructor
    · rintro (⟨hx, hxy⟩ | ⟨⟨hx, hxa⟩, -, hyb⟩ | ⟨⟨hx, hxb⟩, -, hya⟩)
      · exact ⟨hx, Or.inl hxy⟩
      · exact ⟨hx, Or.inr ⟨hlinked, Or.inl ⟨hxa, hyb⟩⟩⟩
      · exact ⟨hx, Or.inr ⟨hlinked, Or.inr ⟨hxb, hya⟩⟩⟩
    · rintro ⟨hx, hxy | ⟨-, ⟨hxa, hyb⟩ | ⟨hxb, hya⟩⟩⟩
      · exact Or.inl ⟨hx, hxy⟩
      · exact Or.inr (Or.inl ⟨⟨hx, hxa⟩, h.mem_of_rel hb (hE.symm hyb), hyb⟩)
      · exact Or.inr (Or.inr ⟨⟨hx, hxb⟩, h.mem_of_rel ha (hE.symm hya), hya⟩)
  · -- Not completely linked: nothing is merged.
    have hrep := h.of_groups hinv₄ hgroups₄
    have hlinked : ¬Complete (LinkedBy accepted) E link.ends := by
      intro hall
      refine hcomplete (List.all_eq_true.mpr fun x hx => List.all_eq_true.mpr fun y hy => ?_)
      exact List.contains_iff_mem.mpr
        (hall x y (hE.symm ((hleft x).mp hx)) (hE.symm ((hright y).mp hy)))
    refine ⟨hrep.inv, fun x y => (hrep.same_iff x y).trans (and_congr_right fun hx => ?_)⟩
    exact ⟨merge_of_rel, fun hxy => hxy.resolve_right fun h => hlinked h.1⟩

/-- The clusters before any link: each id for itself. -/
theorem represents_add (features : List (LinkableFeature D)) :
    Represents (features.foldl (fun c f => c.add f.id) .empty) (idsOf features) (· = ·) := by
  have hgeneral : ∀ (rest : List (LinkableFeature D)) (c : Clusters) (ids : List String),
      Represents c ids (· = ·) →
      Represents (rest.foldl (fun c f => c.add f.id) c) (ids ++ idsOf rest) (· = ·) := by
    intro rest
    induction rest with
    | nil =>
      intro c ids h
      simpa [idsOf] using h
    | cons f rest ih =>
      intro c ids h
      obtain ⟨hinv, hsame⟩ := h.inv.add f.id
      have hnext := ih (c.add f.id) (ids ++ [f.id]) ⟨hinv, fun x y => ?_⟩
      · simpa [idsOf] using hnext
      · rw [hsame, h.same_iff, List.mem_append, List.mem_singleton]
        constructor
        · rintro (⟨hx, hxy⟩ | ⟨rfl, rfl⟩)
          · exact ⟨Or.inl hx, hxy⟩
          · exact ⟨Or.inr rfl, rfl⟩
        · rintro ⟨hx | rfl, rfl⟩
          · exact Or.inl ⟨hx, rfl⟩
          · exact Or.inr ⟨rfl, rfl⟩
  have hempty : Represents .empty [] (· = ·) := by
    refine ⟨Clusters.inv_empty, fun x y => ⟨?_, fun h => by cases h.1⟩⟩
    rintro ⟨r, g, h, -⟩
    cases h
  simpa using hgeneral features .empty [] hempty

/-- **The clusters are the classes of the merging.** -/
theorem represents_clustersOf (localeCompare : String → String → ℤ)
    (features : List (LinkableFeature D)) (links : List FeatureLink) :
    Represents (clustersOf localeCompare features links) (idsOf features)
      (Together localeCompare features links) := by
  have hgeneral : ∀ (rest accepted : List FeatureLink) (c : Clusters) (E : String → String → Prop),
      (∀ l ∈ rest, l.aId ∈ idsOf features ∧ l.bId ∈ idsOf features) → Equivalence E →
      Represents c (idsOf features) E →
      Represents (rest.foldl (applyLink (accepted.map FeatureLink.key)) c) (idsOf features)
        (mergeAll (LinkedBy accepted) E (rest.map FeatureLink.ends)) := by
    intro rest accepted
    induction rest with
    | nil => exact fun c E _ _ h => h
    | cons l rest ih =>
      intro c E hends hE h
      obtain ⟨ha, hb⟩ := hends l (List.mem_cons_self ..)
      exact ih _ _ (fun l hl => hends l (List.mem_cons_of_mem _ hl)) (merge_equivalence hE)
        (h.applyLink hE ha hb)
  refine hgeneral _ _ _ _ (fun l hl => ?_) eq_equivalence (represents_add features)
  exact (Iff.mp mem_acceptedLinks hl).2.2

end Loop

/-! ## The canonical clusters -/

section Canonical

variable {D K : Type} [LinearOrder K] [Zero K] {localeCompare : String → String → ℤ}
  {canonicalId : List String → String} {features : List (LinkableFeature D)} {links : List FeatureLink}
  {rank : Option (LinkableFeature D → K)}

/-- Two lists of one class have the same members. -/
theorem IsClass.perm {g g' : List String} {x : String}
    (hg : IsClass localeCompare features links g) (hg' : IsClass localeCompare features links g')
    (hx : x ∈ g) (hx' : x ∈ g') : g.Perm g' := by
  obtain ⟨y, -, hy⟩ := hg.exists_of
  obtain ⟨z, -, hz⟩ := hg'.exists_of
  have hE := together_equivalence localeCompare features links
  have hyz := hE.trans ((hy x).mp hx) (hE.symm ((hz x).mp hx'))
  refine (List.perm_ext_iff_of_nodup hg.nodup hg'.nodup).mpr fun w => ?_
  rw [hy, hz]
  exact ⟨fun h => hE.trans (hE.symm hyz) h, fun h => hE.trans hyz h⟩

/-- Every group is a class. -/
theorem isClass_of_entry {e : String × List String}
    (he : e ∈ (clustersOf localeCompare features links).groups.entries) :
    IsClass localeCompare features links e.2 := by
  have hrep := represents_clustersOf localeCompare features links
  have hget : (clustersOf localeCompare features links).groups.get e.1 = some e.2 :=
    (OrderedMap.get_eq_some_iff _).mpr he
  have hroot := hrep.inv.root_mem hget
  have hmem : e.1 ∈ idsOf features := ((hrep.same_iff _ _).mp ⟨_, _, hget, hroot, hroot⟩).1
  refine ⟨hrep.inv.nodup hget, e.1, hmem, fun y => ?_⟩
  rw [hrep.inv.mem_iff_same hget hroot]
  constructor
  · intro h
    exact ((hrep.same_iff _ _).mp h.symm).2
  · intro h
    exact ((hrep.same_iff _ _).mpr ⟨hmem, h⟩).symm

/-- **The canonical clusters are those of the classes.** -/
theorem mem_canonicalClusters_iff {cluster : CanonicalCluster} :
    cluster ∈ canonicalClusters localeCompare canonicalId features links rank ↔
      ∃ g, IsClass localeCompare features links g ∧
        cluster = canonicalCluster localeCompare canonicalId (featuresById features) rank g := by
  simp only [canonicalClusters, mem_sortBy, List.mem_map]
  constructor
  · rintro ⟨e, he, rfl⟩
    exact ⟨e.2, isClass_of_entry he, rfl⟩
  · rintro ⟨g, hg, rfl⟩
    obtain ⟨x, hx, hxg⟩ := hg.exists_of
    have hE := together_equivalence localeCompare features links
    obtain ⟨r, g', hr, hxg', -⟩ := (represents_clustersOf localeCompare features links).group hE hx
    have he : (r, g') ∈ (clustersOf localeCompare features links).groups.entries :=
      (OrderedMap.get_eq_some_iff _).mp hr
    refine ⟨(r, g'), he, canonicalCluster_congr ?_ fun _ _ => rfl⟩
    exact (isClass_of_entry he).perm hg hxg' ((hxg x).mpr (hE.refl x))

/-- **No cluster is listed twice.** -/
theorem canonicalClusters_nodup :
    (canonicalClusters localeCompare canonicalId features links rank).Nodup := by
  have hinv := (represents_clustersOf localeCompare features links).inv
  refine (sortBy_perm _ _).nodup_iff.mpr (List.Nodup.map_on ?_ (List.Nodup.of_map _
    (clustersOf localeCompare features links).groups.nodup))
  intro e he e' he' heq
  have hget : (clustersOf localeCompare features links).groups.get e.1 = some e.2 :=
    (OrderedMap.get_eq_some_iff _).mpr he
  have hget' : (clustersOf localeCompare features links).groups.get e'.1 = some e'.2 :=
    (OrderedMap.get_eq_some_iff _).mpr he'
  -- Both clusters have the first one's root among their members.
  have hroot : e.1 ∈ e.2 := hinv.root_mem hget
  have hroot' : e.1 ∈ e'.2 := by
    exact Iff.mp mem_memberIds (heq ▸ Iff.mpr mem_memberIds hroot)
  obtain ⟨h₁, h₂⟩ := hinv.root_unique hget hget' hroot hroot'
  exact Prod.ext h₁ h₂

/-- **Every feature is in exactly one class.** -/
theorem exists_isClass (localeCompare : String → String → ℤ) (links : List FeatureLink) {x : String}
    (hx : x ∈ idsOf features) :
    ∃ g, IsClass localeCompare features links g ∧ x ∈ g := by
  have hE := together_equivalence localeCompare features links
  obtain ⟨r, g, hr, hxg, -⟩ :=
    (represents_clustersOf localeCompare features links).group hE hx
  exact ⟨g, isClass_of_entry ((OrderedMap.get_eq_some_iff _).mp hr), hxg⟩

/-- **Every feature is in exactly one cluster.** -/
theorem length_clustersHolding {x : String} (hx : x ∈ idsOf features) :
    ((canonicalClusters localeCompare canonicalId features links rank).filter
      fun c => c.memberIds.contains x).length = 1 := by
  obtain ⟨g, hg, hxg⟩ := exists_isClass localeCompare links hx
  set c := canonicalCluster localeCompare canonicalId (featuresById features) rank g with hc
  have hperm : ((canonicalClusters localeCompare canonicalId features links rank).filter
      fun c => c.memberIds.contains x).Perm [c] := by
    refine (List.perm_ext_iff_of_nodup (canonicalClusters_nodup.filter _)
      (List.nodup_singleton c)).mpr fun c' => ?_
    rw [List.mem_filter, List.contains_iff_mem, List.mem_singleton, mem_canonicalClusters_iff]
    constructor
    · rintro ⟨⟨g', hg', rfl⟩, hx'⟩
      exact canonicalCluster_congr (hg'.perm hg (Iff.mp mem_memberIds hx') hxg) fun _ _ => rfl
    · rintro rfl
      exact ⟨⟨g, hg, rfl⟩, Iff.mpr mem_memberIds hxg⟩
  exact hperm.length_eq

/-- The members of a class are features. -/
theorem IsClass.mem_idsOf {g : List String} (hg : IsClass localeCompare features links g)
    {x : String} (hx : x ∈ g) : x ∈ idsOf features := by
  obtain ⟨y, hy, hyg⟩ := hg.exists_of
  exact (represents_clustersOf localeCompare features links).mem_of_rel hy ((hyg x).mp hx)

end Canonical

/-! ## Inside a set no class leaves -/

section Restrict

/-- A text the database can hold. -/
def NulFree (id : String) : Prop := Char.ofNat 0 ∉ id.toList

instance (id : String) : Decidable (NulFree id) := by
  unfold NulFree
  infer_instance

/-- The two ids of a key are told by it, up to their order. -/
theorem pairKey_inj {a b c d : String} (ha : NulFree a) (hb : NulFree b)
    (h : pairKey a b = pairKey c d) : (a = c ∧ b = d) ∨ (a = d ∧ b = c) := by
  have hsplit : ∀ {x y u v : String}, NulFree x → NulFree y →
      String.ofList (x.toList ++ Char.ofNat 0 :: y.toList) =
        String.ofList (u.toList ++ Char.ofNat 0 :: v.toList) → x = u ∧ y = v := by
    intro x y u v hx hy heq
    have hlists := congrArg String.toList heq
    rw [String.toList_ofList, String.toList_ofList,
      List.append_cons_inj_of_notMem hx hy] at hlists
    exact ⟨String.toList_injective hlists.1, String.toList_injective hlists.2.2⟩
  unfold pairKey at h
  split_ifs at h
  · exact Or.inl (hsplit ha hb h)
  · exact Or.inr (hsplit ha hb h)
  · obtain ⟨h₁, h₂⟩ := hsplit hb ha h
    exact Or.inr ⟨h₂, h₁⟩
  · obtain ⟨h₁, h₂⟩ := hsplit hb ha h
    exact Or.inl ⟨h₂, h₁⟩

/-- The key of a pair does not depend on the order of the two. -/
theorem pairKey_comm (a b : String) : pairKey a b = pairKey b a := by
  unfold pairKey
  cases hab : Utf16.lt a b <;> cases hba : Utf16.lt b a <;> simp only [if_true, if_false,
    Bool.false_eq_true]
  · have heq : a = b := Utf16.codeUnits_injective
      (le_antisymm (Utf16.lt_eq_false_iff.mp hba) (Utf16.lt_eq_false_iff.mp hab))
    rw [heq]
  · simp only [Utf16.lt, decide_eq_true_eq] at hab hba
    exact absurd hab (lt_asymm hba)

/-- Not both of two ids come before the other. -/
theorem before_asymm {a b : String} (h : before a b = true) : before b a = false := by
  simp only [before, decide_eq_true_eq, decide_eq_false_iff_not] at h ⊢
  exact lt_asymm h

/-- One link for each pair of ids the database can hold. -/
structure LinkTable (links : List FeatureLink) : Prop where
  nodup : (links.map FeatureLink.ends).Nodup
  ordered : ∀ l ∈ links, before l.aId l.bId = true
  nulFree : ∀ l ∈ links, NulFree l.aId ∧ NulFree l.bId

variable {D : Type} {localeCompare : String → String → ℤ}
  {features features' : List (LinkableFeature D)} {links links' : List FeatureLink}

/-- A pair has one link. -/
theorem LinkTable.eq_of_key (h : LinkTable links) {l l' : FeatureLink} (hl : l ∈ links)
    (hl' : l' ∈ links) (hkey : l.key = l'.key) : l = l' := by
  obtain ⟨ha, hb⟩ := h.nulFree l hl
  rcases pairKey_inj ha hb hkey with ⟨haa, hbb⟩ | ⟨hab, hba⟩
  · exact List.inj_on_of_nodup_map h.nodup hl hl' (Prod.ext haa hbb)
  · have hbefore := h.ordered l hl
    rw [hab, hba] at hbefore
    rw [before_asymm (h.ordered l' hl')] at hbefore
    cases hbefore

/-- The order of the links tells those of a table apart. -/
theorem LinkTable.separates (h : LinkTable links) (hlocale : LocaleOrder localeCompare) :
    Separates (linkLe localeCompare) links := by
  intro l hl l' hl' hle hle'
  obtain ⟨hkey, hkey'⟩ := tie_of_descendingThen hle hle'
  exact h.eq_of_key hl hl'
    (hlocale.separates _ _ (decide_eq_true_eq.mp hkey) (decide_eq_true_eq.mp hkey'))

/-- The accepted links inside a set, in their order, are those of any table with the same ones
inside it. -/
theorem acceptedLinks_filter (hlocale : LocaleOrder localeCompare) (hlinks : LinkTable links)
    (hlinks' : LinkTable links') {s : String → Prop} [DecidablePred s]
    (hids : ∀ x, s x → x ∈ idsOf features ∧ x ∈ idsOf features')
    (hsame : ∀ l, s l.aId → s l.bId → l.status = .accepted → (l ∈ links ↔ l ∈ links')) :
    (acceptedLinks localeCompare features links).filter
        (fun l => decide (s l.aId) && decide (s l.bId)) =
      (acceptedLinks localeCompare features' links').filter
        (fun l => decide (s l.aId) && decide (s l.bId)) := by
  have horders : OrdersBy (linkLe localeCompare) :=
    OrdersBy.descendingThen (hlocale.orders FeatureLink.key)
  have hsep := hlinks.separates hlocale
  have hsep' := hlinks'.separates hlocale
  have hsub : ∀ {ls : List FeatureLink} {p : FeatureLink → Bool},
      Separates (linkLe localeCompare) ls → Separates (linkLe localeCompare) (ls.filter p) :=
    fun h a ha b hb => h a (List.mem_of_mem_filter ha) b (List.mem_of_mem_filter hb)
  have hnodup := List.Nodup.of_map _ hlinks.nodup
  have hnodup' := List.Nodup.of_map _ hlinks'.nodup
  unfold acceptedLinks
  rw [← sortBy_filter horders, ← sortBy_filter horders]
  refine sortBy_congr_perm horders (hsub (hsub hsep))
    ((List.perm_ext_iff_of_nodup ((hnodup.filter _).filter _) ((hnodup'.filter _).filter _)).mpr
      fun l => ?_)
  simp only [List.mem_filter, Bool.and_eq_true, decide_eq_true_eq, has_featuresById]
  constructor
  · rintro ⟨⟨hl, ⟨hacc, -⟩, -⟩, ha, hb⟩
    exact ⟨⟨(hsame l ha hb hacc).mp hl, ⟨hacc, (hids _ ha).2⟩, (hids _ hb).2⟩, ha, hb⟩
  · rintro ⟨⟨hl, ⟨hacc, -⟩, -⟩, ha, hb⟩
    exact ⟨⟨(hsame l ha hb hacc).mpr hl, ⟨hacc, (hids _ ha).1⟩, (hids _ hb).1⟩, ha, hb⟩

/-- Ids inside a set are linked by the accepted links of a table when they are by those inside. -/
theorem linkedBy_filter (hlinks : LinkTable links) {s : String → Prop} [DecidablePred s] {x y : String} (hx : s x) (hy : s y) :
    LinkedBy (acceptedLinks localeCompare features links) x y ↔
      LinkedBy ((acceptedLinks localeCompare features links).filter
        fun l => decide (s l.aId) && decide (s l.bId)) x y := by
  unfold LinkedBy
  simp only [List.mem_map, List.mem_filter, Bool.and_eq_true, decide_eq_true_eq]
  constructor
  · rintro ⟨l, hl, hkey⟩
    refine ⟨l, ⟨hl, ?_⟩, hkey⟩
    obtain ⟨ha, hb⟩ := hlinks.nulFree l (Iff.mp mem_acceptedLinks hl).1
    rcases pairKey_inj ha hb hkey with ⟨hax, hby⟩ | ⟨hay, hbx⟩
    · exact ⟨hax ▸ hx, hby ▸ hy⟩
    · exact ⟨hay ▸ hy, hbx ▸ hx⟩
  · rintro ⟨l, ⟨hl, -⟩, hkey⟩
    exact ⟨l, hl, hkey⟩

/-- **Only what is inside counts.** Two sets of features and links that have the same ones inside a
set, which no class of either leaves, have the same classes inside it. -/
theorem together_restrict (hlocale : LocaleOrder localeCompare) (hlinks : LinkTable links)
    (hlinks' : LinkTable links') {s : String → Prop} [DecidablePred s]
    (hids : ∀ x, s x → x ∈ idsOf features ∧ x ∈ idsOf features')
    (hsame : ∀ l, s l.aId → s l.bId → l.status = .accepted → (l ∈ links ↔ l ∈ links'))
    (hsat : ∀ x, s x → ∀ y, Together localeCompare features links x y → s y)
    (hsat' : ∀ x, s x → ∀ y, Together localeCompare features' links' x y → s y) :
    ∀ x, s x → ∀ y, Together localeCompare features links x y ↔
      Together localeCompare features' links' x y := by
  have hfilter := acceptedLinks_filter hlocale hlinks hlinks' hids hsame
  have hlinked : ∀ x, s x → ∀ y, s y →
      (LinkedBy (acceptedLinks localeCompare features links) x y ↔
        LinkedBy (acceptedLinks localeCompare features' links') x y) := by
    intro x hx y hy
    rw [linkedBy_filter hlinks hx hy, linkedBy_filter hlinks' hx hy, hfilter]
  have hmap : ∀ ls : List FeatureLink,
      (ls.map FeatureLink.ends).filter (fun p => decide (s p.1) && decide (s p.2)) =
        (ls.filter fun l => decide (s l.aId) && decide (s l.bId)).map FeatureLink.ends := by
    intro ls
    rw [List.filter_map]
    rfl
  have hleft := mergeAll_restrict eq_equivalence eq_equivalence hsat (fun _ _ _ => Iff.rfl) hlinked
  have hself : ∀ x, s x → ∀ y, s y →
      (LinkedBy (acceptedLinks localeCompare features' links') x y ↔
        LinkedBy (acceptedLinks localeCompare features' links') x y) := fun _ _ _ _ => Iff.rfl
  have hright := mergeAll_restrict eq_equivalence eq_equivalence hsat' (fun _ _ _ => Iff.rfl) hself
  intro x hx y
  rw [Together, Together, hleft x hx y, hright x hx y, hmap, hmap, hfilter]

/-- Two members of one class are linked by an accepted link of known features. -/
theorem exists_link_of_together (hlinks : LinkTable links) {x y : String}
    (h : Together localeCompare features links x y) :
    x = y ∨ ∃ l ∈ links, l.status = .accepted ∧ l.aId ∈ idsOf features ∧ l.bId ∈ idsOf features ∧
      (l.ends = (x, y) ∨ l.ends = (y, x)) := by
  rcases linked_of_mergeAll eq_equivalence
    (fun x y (h : LinkedBy _ x y) => by rw [LinkedBy, pairKey_comm]; exact h) h with heq | hlinked
  · exact Or.inl heq
  · obtain ⟨l, hl, hkey⟩ := List.mem_map.mp hlinked
    obtain ⟨hmem, hacc, ha, hb⟩ := Iff.mp mem_acceptedLinks hl
    obtain ⟨hna, hnb⟩ := hlinks.nulFree l hmem
    refine Or.inr ⟨l, hmem, hacc, ha, hb, ?_⟩
    rcases pairKey_inj hna hnb hkey with ⟨h₁, h₂⟩ | ⟨h₁, h₂⟩
    · exact Or.inl (Prod.ext h₁ h₂)
    · exact Or.inr (Prod.ext h₁ h₂)

/-- A class of one with a member whose class is the same in the other is a class of the other. -/
theorem IsClass.transfer {g : List String} (hg : IsClass localeCompare features links g)
    {x : String} (hx : x ∈ g) (hid : x ∈ idsOf features')
    (hagree : ∀ y, Together localeCompare features links x y ↔
      Together localeCompare features' links' x y) :
    IsClass localeCompare features' links' g := by
  obtain ⟨z, -, hz⟩ := hg.exists_of
  have hE := together_equivalence localeCompare features links
  have hzx := (hz x).mp hx
  refine ⟨hg.nodup, x, hid, fun y => ?_⟩
  rw [hz, ← hagree]
  exact ⟨fun h => hE.trans (hE.symm hzx) h, fun h => hE.trans hzx h⟩

/-- A class holds whatever a member of it ends in one cluster with. -/
theorem IsClass.mem_of_together {g : List String} (hg : IsClass localeCompare features links g)
    {x y : String} (hx : x ∈ g) (h : Together localeCompare features links x y) : y ∈ g := by
  obtain ⟨z, -, hz⟩ := hg.exists_of
  exact (hz y).mpr ((together_equivalence localeCompare features links).trans ((hz x).mp hx) h)

/-- The members of a class end in one cluster. -/
theorem IsClass.together {g : List String} (hg : IsClass localeCompare features links g)
    {x y : String} (hx : x ∈ g) (hy : y ∈ g) : Together localeCompare features links x y := by
  obtain ⟨z, -, hz⟩ := hg.exists_of
  have hE := together_equivalence localeCompare features links
  exact hE.trans (hE.symm ((hz x).mp hx)) ((hz y).mp hy)

/-- A class has a member. -/
theorem IsClass.exists_mem {g : List String} (hg : IsClass localeCompare features links g) :
    ∃ x, x ∈ g := by
  obtain ⟨z, -, hz⟩ := hg.exists_of
  exact ⟨z, (hz z).mpr ((together_equivalence localeCompare features links).refl z)⟩

end Restrict

end OpenConditions.Linking

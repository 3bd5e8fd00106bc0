import OpenConditions.Linking.ClusterClasses
import OpenConditions.Storage.CanonicalView
import Mathlib.Data.List.Dedup

set_option relaxedAutoImplicit false
set_option autoImplicit false

/-!
# What relinking leaves in the link table

A pair of a changed feature gets the link the two features as they are now get, unless a person
decided it; every other row stays.  The proposal for a pair does not depend on which of the two
changed, so the pairs that are compared twice agree.

## Main definitions

* `pairLink` — the link two stored features get, if both are live.

## Main results

* `get_proposalsOf` — the proposals of a pass are those of the pairs of the changed features.
* `get_relinkLinks` — what the table says of a pair afterwards.
-/

namespace OpenConditions.Storage

open Linking

variable {D R : Type}
  {evidence : R → LinkableFeature D → LinkableFeature D → Option LinkEvidence}
  {near : R → LinkableFeature D → LinkableFeature D → Bool} {rulesOf : String → Option R}
  {features : FeatureRows D} {a b c d : String}

/-! ## The link of two features -/

/-- Of two distinct ids one comes before the other. -/
theorem before_of_not_before (hne : a ≠ b) (h : before a b = false) : before b a = true := by
  simp only [before, decide_eq_false_iff_not, decide_eq_true_eq] at h ⊢
  exact lt_of_le_of_ne (not_lt.mp h) fun heq => hne (String.toList_injective heq.symm)

/-- Two features in order do not depend on how they are given. -/
theorem ordered_comm {f g : LinkableFeature D} (hne : f.id ≠ g.id) : ordered f g = ordered g f := by
  unfold ordered
  cases h : before f.id g.id with
  | true => rw [before_asymm h, if_pos rfl, if_neg Bool.false_ne_true]
  | false => rw [before_of_not_before hne h, if_pos rfl, if_neg Bool.false_ne_true]

/-- The ids of a link are those of its features, in order. -/
theorem proposeLink_ends {f g : LinkableFeature D} {rules : Option R} {link : FeatureLink}
    (h : proposeLink evidence f g rules = some link) :
    before link.aId link.bId = true ∧ (link.ends = (f.id, g.id) ∨ link.ends = (g.id, f.id)) := by
  unfold proposeLink at h
  cases rules with
  | none => cases h
  | some rules =>
    simp only at h
    split_ifs at h with hguard
    rw [not_or, not_not] at hguard
    obtain ⟨e, -, rfl⟩ := Option.map_eq_some_iff.mp h
    have hends : ∀ x y : LinkableFeature D, (linkOf x y e).ends = (x.id, y.id) := by
      intro x y
      cases e <;> rfl
    have haId : ∀ x y : LinkableFeature D, (linkOf x y e).aId = x.id := fun x y =>
      congrArg Prod.fst (hends x y)
    have hbId : ∀ x y : LinkableFeature D, (linkOf x y e).bId = y.id := fun x y =>
      congrArg Prod.snd (hends x y)
    rw [haId, hbId, hends]
    unfold ordered
    cases hbefore : before f.id g.id with
    | true => exact ⟨hbefore, Or.inl rfl⟩
    | false => exact ⟨before_of_not_before hguard.2 hbefore, Or.inr rfl⟩

/-- The link of two features does not depend on how they are given. -/
theorem proposeLink_comm (f g : LinkableFeature D) :
    proposeLink evidence f g (rulesOf f.kind) = proposeLink evidence g f (rulesOf g.kind) := by
  by_cases hkind : f.kind = g.kind
  · by_cases hid : f.id = g.id
    · unfold proposeLink
      rw [hkind]
      cases rulesOf g.kind with
      | none => rfl
      | some rules => simp [hid]
    · unfold proposeLink
      rw [hkind, ordered_comm hid]
      cases rulesOf g.kind with
      | none => rfl
      | some rules => simp [hid, Ne.symm hid]
  · have hnone : ∀ {x y : LinkableFeature D} {rules : Option R}, x.kind ≠ y.kind →
        proposeLink evidence x y rules = none := by
      intro x y rules hne
      cases rules with
      | none => rfl
      | some rules => exact if_pos (Or.inl hne)
    rw [hnone hkind, hnone (Ne.symm hkind)]

/-- A feature is stored under its own id. -/
def RowsById (features : FeatureRows D) : Prop :=
  ∀ id row, features.get id = some row → row.record.id = id

variable (evidence rulesOf features) in
/-- The link two stored features get, if both are live. -/
def pairLink (a b : String) : Option FeatureLink :=
  match features.get a, features.get b with
  | some f, some g =>
    if f.tombstoned || g.tombstoned then none
    else proposeLink evidence f.record g.record (rulesOf f.record.kind)
  | _, _ => none

/-- The two features of a link are live. -/
theorem pairLink_eq_some_iff {link : FeatureLink} :
    pairLink evidence rulesOf features a b = some link ↔
      ∃ f g, features.get a = some f ∧ features.get b = some g ∧ f.tombstoned = false ∧
        g.tombstoned = false ∧
        proposeLink evidence f.record g.record (rulesOf f.record.kind) = some link := by
  unfold pairLink
  cases features.get a with
  | none => simp
  | some f =>
    cases features.get b with
    | none => simp
    | some g => cases hf : f.tombstoned <;> cases hg : g.tombstoned <;> simp [hf, hg]

/-- The link of a pair does not depend on its order. -/
theorem pairLink_comm (a b : String) :
    pairLink evidence rulesOf features a b = pairLink evidence rulesOf features b a := by
  refine Option.ext fun link => ?_
  rw [pairLink_eq_some_iff, pairLink_eq_some_iff]
  constructor
  · rintro ⟨f, g, hf, hg, hlive, hlive', hlink⟩
    exact ⟨g, f, hg, hf, hlive', hlive, (proposeLink_comm f.record g.record).symm.trans hlink⟩
  · rintro ⟨g, f, hg, hf, hlive', hlive, hlink⟩
    exact ⟨f, g, hf, hg, hlive, hlive', (proposeLink_comm f.record g.record).trans hlink⟩

/-- The key of a pair tells its two ids, up to their order. -/
theorem pairOf_inj (h : pairOf a b = pairOf c d) : (a = c ∧ b = d) ∨ (a = d ∧ b = c) := by
  unfold pairOf at h
  split_ifs at h <;> rw [Prod.mk.injEq] at h
  · exact Or.inl h
  · exact Or.inr h
  · exact Or.inr ⟨h.2, h.1⟩
  · exact Or.inl ⟨h.2, h.1⟩

/-- The key of a pair does not depend on its order. -/
theorem pairOf_comm (a b : String) : pairOf a b = pairOf b a := by
  unfold pairOf
  cases hab : Utf16.lt a b <;> cases hba : Utf16.lt b a <;> simp only [if_true, if_false,
    Bool.false_eq_true]
  · rw [Utf16.codeUnits_injective
      (le_antisymm (Utf16.lt_eq_false_iff.mp hba) (Utf16.lt_eq_false_iff.mp hab))]
  · simp only [Utf16.lt, decide_eq_true_eq] at hab hba
    exact absurd hab (lt_asymm hba)

/-- The key of a pair in order tells the pair. -/
theorem eq_of_pairOf {p q : String × String} (hp : before p.1 p.2 = true)
    (hq : before q.1 q.2 = true) (h : pairOf p.1 p.2 = pairOf q.1 q.2) : p = q := by
  rcases pairOf_inj h with ⟨h₁, h₂⟩ | ⟨h₁, h₂⟩
  · exact Prod.ext h₁ h₂
  · rw [h₁, h₂, before_asymm hq] at hp
    cases hp

/-- Pairs of one key get one link. -/
theorem pairLink_congr (h : pairOf a b = pairOf c d) :
    pairLink evidence rulesOf features a b = pairLink evidence rulesOf features c d := by
  rcases pairOf_inj h with ⟨rfl, rfl⟩ | ⟨rfl, rfl⟩
  · rfl
  · exact pairLink_comm a b

/-! ## Proposals -/

/-- The stored features of some ids. -/
theorem mem_loadFeatures {ids : List String} {row : FeatureRow D} :
    row ∈ loadFeatures features ids ↔ ∃ id ∈ ids, features.get id = some row := by
  simp only [loadFeatures, List.mem_map, List.mem_filter, List.contains_iff_mem]
  constructor
  · rintro ⟨e, ⟨he, hid⟩, rfl⟩
    exact ⟨e.1, hid, (OrderedMap.get_eq_some_iff _).mpr he⟩
  · rintro ⟨id, hid, hget⟩
    exact ⟨(id, row), ⟨(OrderedMap.get_eq_some_iff _).mp hget, hid⟩, rfl⟩

/-- The pairs the query finds. -/
theorem mem_candidatePairs {kind : String} {own : List (LinkableFeature D)} {rules : R} :
    (a, b) ∈ candidatePairs near features kind own rules ↔
      ∃ t ∈ own, t.id = a ∧ ∃ g, features.get b = some g ∧ g.record.kind = kind ∧ b ≠ a ∧
        g.tombstoned = false ∧ near rules t g.record = true := by
  simp only [candidatePairs, List.mem_flatMap, List.mem_map, List.mem_filter, Bool.and_eq_true,
    decide_eq_true_eq, Bool.not_eq_true', Prod.mk.injEq]
  constructor
  · rintro ⟨t, ht, e, ⟨he, ⟨⟨hkind, hne⟩, hlive⟩, hnear⟩, rfl, rfl⟩
    exact ⟨t, ht, rfl, e.2, (OrderedMap.get_eq_some_iff _).mpr he, hkind, hne, hlive, hnear⟩
  · rintro ⟨t, ht, rfl, g, hg, hkind, hne, hlive, hnear⟩
    exact ⟨t, ht, (b, g), ⟨(OrderedMap.get_eq_some_iff _).mp hg, ⟨⟨hkind, hne⟩, hlive⟩, hnear⟩,
      rfl, rfl⟩

variable (evidence rulesOf features) in
/-- The proposals are the links of the pairs compared so far. -/
def Proposed (proposals : OrderedMap (String × String) FeatureLink)
    (pairs : List (String × String)) : Prop :=
  ∀ key link, proposals.get key = some link ↔ ∃ pair ∈ pairs, pairOf pair.1 pair.2 = key ∧
    pairLink evidence rulesOf features pair.1 pair.2 = some link

/-- One more pair is compared. -/
theorem Proposed.comparePair {proposals : OrderedMap (String × String) FeatureLink}
    {pairs : List (String × String)} (h : Proposed evidence rulesOf features proposals pairs)
    {known : OrderedMap String (LinkableFeature D)} {rules : R} {pair : String × String}
    {f g : LinkableFeature D} (hf : known.get pair.1 = some f) (hg : known.get pair.2 = some g)
    (hlink : proposeLink evidence f g (some rules) =
      pairLink evidence rulesOf features pair.1 pair.2) :
    Proposed evidence rulesOf features (comparePair evidence known rules proposals pair)
      (pairs ++ [pair]) := by
  intro key link
  have hsplit : (∃ p ∈ pairs ++ [pair], pairOf p.1 p.2 = key ∧
      pairLink evidence rulesOf features p.1 p.2 = some link) ↔
      proposals.get key = some link ∨ (pairOf pair.1 pair.2 = key ∧
        pairLink evidence rulesOf features pair.1 pair.2 = some link) := by
    rw [h key link]
    simp only [List.mem_append, List.mem_singleton]
    constructor
    · rintro ⟨p, hp | rfl, hrest⟩
      · exact Or.inl ⟨p, hp, hrest⟩
      · exact Or.inr hrest
    · rintro (⟨p, hp, hrest⟩ | hrest)
      · exact ⟨p, Or.inl hp, hrest⟩
      · exact ⟨pair, Or.inr rfl, hrest⟩
  rw [hsplit]
  simp only [Storage.comparePair, hf, hg, hlink]
  split_ifs with hhas
  · -- Compared before, under the same key: it got the same link.
    refine ⟨Or.inl, ?_⟩
    rintro (hold | ⟨rfl, hnew⟩)
    · exact hold
    · obtain ⟨link', hlink'⟩ := Option.isSome_iff_exists.mp hhas
      obtain ⟨p, -, hkey, hp⟩ := (h _ _).mp hlink'
      rw [pairLink_congr hkey, hnew, Option.some.injEq] at hp
      rw [hlink', hp]
  · have hnone : proposals.get (pairOf pair.1 pair.2) = none := by
      rwa [OrderedMap.has, Bool.not_eq_true, Option.isSome_eq_false_iff,
        Option.isNone_iff_eq_none] at hhas
    cases hnew : pairLink evidence rulesOf features pair.1 pair.2 with
    | none => simp
    | some link' =>
      simp only [OrderedMap.get_set, Option.some.injEq]
      by_cases hkey : key = pairOf pair.1 pair.2
      · rw [if_pos hkey, hkey, hnone]
        simp
      · rw [if_neg hkey]
        simp [Ne.symm hkey]

/-- Many more pairs are compared. -/
theorem Proposed.foldl {rules : R} {known : OrderedMap String (LinkableFeature D)}
    {pairs : List (String × String)}
    (hpairs : ∀ pair ∈ pairs, ∃ f g, known.get pair.1 = some f ∧ known.get pair.2 = some g ∧
      proposeLink evidence f g (some rules) = pairLink evidence rulesOf features pair.1 pair.2) :
    ∀ {proposals : OrderedMap (String × String) FeatureLink} {done : List (String × String)},
      Proposed evidence rulesOf features proposals done →
      Proposed evidence rulesOf features (pairs.foldl (Storage.comparePair evidence known rules)
        proposals) (done ++ pairs) := by
  induction pairs with
  | nil =>
    intro proposals done h
    simpa using h
  | cons pair rest ih =>
    intro proposals done h
    obtain ⟨f, g, hf, hg, hlink⟩ := hpairs pair (List.mem_cons_self ..)
    have hnext := ih (fun p hp => hpairs p (List.mem_cons_of_mem _ hp))
      (h.comparePair hf hg hlink)
    rwa [List.append_assoc, List.singleton_append] at hnext

/-- A list of stored records. -/
def AllStored (features : FeatureRows D) (records : List (LinkableFeature D)) : Prop :=
  ∀ f ∈ records, ∃ row, features.get f.id = some row ∧ row.record = f

/-- A stored record is found by its id. -/
theorem AllStored.get_featuresById {records : List (LinkableFeature D)}
    (h : AllStored features records) {f : LinkableFeature D} (hf : f ∈ records) :
    (featuresById records).get f.id = some f := by
  refine Linking.get_featuresById hf fun g hg hid => ?_
  obtain ⟨row, hrow, heq⟩ := h f hf
  obtain ⟨row', hrow', heq'⟩ := h g hg
  rw [hid, hrow, Option.some.injEq] at hrow'
  rw [← heq, ← heq', hrow']

/-- The stored features of some ids are stored records. -/
theorem allStored_loadFeatures (hrows : RowsById features) (ids : List String) :
    AllStored features ((loadFeatures features ids).map FeatureRow.record) := by
  intro f hf
  obtain ⟨row, hrow, rfl⟩ := List.mem_map.mp hf
  obtain ⟨id, -, hget⟩ := Iff.mp mem_loadFeatures hrow
  exact ⟨row, (hrows id row hget).symm ▸ hget, rfl⟩

/-- The features linking starts from. -/
theorem mem_linkableOf (hrows : RowsById features) {named : List String} {t : LinkableFeature D} :
    t ∈ linkableOf rulesOf (loadFeatures features named) ↔
      t.id ∈ named ∧ (∃ row, features.get t.id = some row ∧ row.record = t ∧
        row.tombstoned = false) ∧ (rulesOf t.kind).isSome = true := by
  simp only [linkableOf, List.mem_map, List.mem_filter, mem_loadFeatures, Bool.and_eq_true,
    Bool.not_eq_true']
  constructor
  · rintro ⟨row, ⟨⟨id, hid, hget⟩, hlive, hrules⟩, rfl⟩
    have heq := hrows id row hget
    exact ⟨heq.symm ▸ hid, ⟨row, heq.symm ▸ hget, rfl, hlive⟩, hrules⟩
  · rintro ⟨hid, ⟨row, hget, rfl, hlive⟩, hrules⟩
    exact ⟨row, ⟨⟨_, hid, hget⟩, hlive, hrules⟩, rfl⟩

variable (near rulesOf features) in
/-- The pairs of a kind that are compared. -/
def pairsOfKind (linkable : List (LinkableFeature D)) (kind : String) : List (String × String) :=
  match rulesOf kind with
  | none => []
  | some rules =>
    candidatePairs near features kind (linkable.filter fun f => decide (f.kind = kind)) rules

variable (near) in
/-- A kind's pairs are compared. -/
theorem Proposed.compareKind (hrows : RowsById features) (named : List String)
    {proposals : OrderedMap (String × String) FeatureLink} {done : List (String × String)}
    (h : Proposed evidence rulesOf features proposals done) (kind : String) :
    Proposed evidence rulesOf features
      (compareKind evidence near rulesOf features
        (linkableOf rulesOf (loadFeatures features named)) proposals kind)
      (done ++ pairsOfKind near rulesOf features
        (linkableOf rulesOf (loadFeatures features named)) kind) := by
  unfold Storage.compareKind pairsOfKind
  cases hrules : rulesOf kind with
  | none => simpa using h
  | some rules =>
    simp only
    set own := (linkableOf rulesOf (loadFeatures features named)).filter
      fun f => decide (f.kind = kind) with hown
    set pairs := candidatePairs near features kind own rules with hpairs
    refine Proposed.foldl (fun pair hpair => ?_) h
    have hownStored : ∀ u ∈ own, u.kind = kind ∧ ∃ row, features.get u.id = some row ∧
        row.record = u ∧ row.tombstoned = false := by
      intro u hu
      obtain ⟨hmem, hkind⟩ := List.mem_filter.mp hu
      exact ⟨of_decide_eq_true hkind, ((mem_linkableOf hrows).mp hmem).2.1⟩
    have hstored : ∀ ids, AllStored features
        (own ++ (loadFeatures features ids).map FeatureRow.record) := by
      intro ids f hf
      rcases List.mem_append.mp hf with hleft | hright
      · obtain ⟨-, row, hget, heq, -⟩ := hownStored f hleft
        exact ⟨row, hget, heq⟩
      · exact allStored_loadFeatures hrows ids f hright
    obtain ⟨t, ht, hid, g, hg, hkind, hne, hlive, -⟩ := Iff.mp mem_candidatePairs hpair
    obtain ⟨htkind, row, hrow, rfl, hrowlive⟩ := hownStored t ht
    refine ⟨row.record, g.record, ?_, ?_, ?_⟩
    · rw [← hid]
      exact (hstored _).get_featuresById (List.mem_append_left _ ht)
    · have hgid := hrows _ _ hg
      rw [← hgid]
      refine (hstored _).get_featuresById ?_
      by_cases hin : (own.map LinkableFeature.id).contains g.record.id = true
      · -- The other feature was written too.
        obtain ⟨u, hu, huid⟩ := List.mem_map.mp (List.contains_iff_mem.mp hin)
        obtain ⟨-, row', hrow', rfl, -⟩ := hownStored u hu
        rw [huid, hgid, hg, Option.some.injEq] at hrow'
        rw [hrow']
        exact List.mem_append_left _ hu
      · refine List.mem_append_right _ (List.mem_map.mpr ⟨g, ?_, rfl⟩)
        refine Iff.mpr mem_loadFeatures ⟨pair.2, List.mem_filter.mpr ⟨?_, ?_⟩, hg⟩
        · exact List.mem_dedup.mpr (List.mem_flatMap.mpr ⟨pair, hpair, by simp⟩)
        · rw [hgid] at hin
          simpa using hin
    · unfold pairLink
      rw [← hid, hrow, hg]
      simp only [hrowlive, hlive, Bool.or_self, Bool.false_eq_true, if_false]
      rw [htkind, hrules]

variable (near) in
/-- The proposals of a pass are the links of the pairs it compares. -/
theorem proposed_proposalsOf (hrows : RowsById features) (named : List String) :
    Proposed evidence rulesOf features
      (proposalsOf evidence near rulesOf features
        (linkableOf rulesOf (loadFeatures features named)))
      (((linkableOf rulesOf (loadFeatures features named)).map LinkableFeature.kind).dedup.flatMap
        (pairsOfKind near rulesOf features
          (linkableOf rulesOf (loadFeatures features named)))) := by
  have hgeneral : ∀ (kinds : List String) (proposals : OrderedMap (String × String) FeatureLink)
      (done : List (String × String)), Proposed evidence rulesOf features proposals done →
      Proposed evidence rulesOf features
        (kinds.foldl (compareKind evidence near rulesOf features
          (linkableOf rulesOf (loadFeatures features named))) proposals)
        (done ++ kinds.flatMap (pairsOfKind near rulesOf features
          (linkableOf rulesOf (loadFeatures features named)))) := by
    intro kinds
    induction kinds with
    | nil =>
      intro proposals done h
      simpa using h
    | cons kind rest ih =>
      intro proposals done h
      have hnext := ih _ _ (Proposed.compareKind near hrows named h kind)
      rwa [List.append_assoc, ← List.flatMap_cons] at hnext
  have hempty : Proposed evidence rulesOf features .empty [] := by
    intro key link
    simp
  have hall := hgeneral ((linkableOf rulesOf (loadFeatures features named)).map
    LinkableFeature.kind).dedup .empty [] hempty
  rwa [List.nil_append] at hall

/-- **The proposals of a pass** are the links of the pairs with a changed feature, when the query
finds every pair that gets one. -/
theorem get_proposalsOf (hrows : RowsById features)
    (hnear : ∀ rules f g, (proposeLink evidence f g (some rules)).isSome = true →
      near rules f g = true) (named : List String) (a b : String) :
    (proposalsOf evidence near rulesOf features
      (linkableOf rulesOf (loadFeatures features named))).get (pairOf a b) =
      if a ∈ named ∨ b ∈ named then pairLink evidence rulesOf features a b else none := by
  refine Option.ext fun link => ?_
  rw [proposed_proposalsOf near hrows named (pairOf a b) link]
  have hcompared : ∀ {x y link}, x ∈ named → pairLink evidence rulesOf features x y = some link →
      (x, y) ∈ ((linkableOf rulesOf (loadFeatures features named)).map
        LinkableFeature.kind).dedup.flatMap (pairsOfKind near rulesOf features
          (linkableOf rulesOf (loadFeatures features named))) := by
    intro x y link hx hlink
    obtain ⟨f, g, hf, hg, hlive, hlive', hpropose⟩ := Iff.mp pairLink_eq_some_iff hlink
    have hfid := hrows _ _ hf
    have hgid := hrows _ _ hg
    cases hrules : rulesOf f.record.kind with
    | none =>
      rw [hrules] at hpropose
      cases hpropose
    | some rules =>
      rw [hrules] at hpropose
      have hguard : f.record.kind = g.record.kind ∧ f.record.id ≠ g.record.id := by
        by_contra hnot
        have hguard' : f.record.kind ≠ g.record.kind ∨ f.record.id = g.record.id := by tauto
        rw [proposeLink, if_pos hguard'] at hpropose
        cases hpropose
      have hfmem : f.record ∈ linkableOf rulesOf (loadFeatures features named) := by
        refine (mem_linkableOf hrows).mpr ⟨hfid.symm ▸ hx, ⟨f, hfid.symm ▸ hf, rfl, hlive⟩, ?_⟩
        rw [hrules]
        rfl
      refine List.mem_flatMap.mpr ⟨f.record.kind,
        List.mem_dedup.mpr (List.mem_map.mpr ⟨_, hfmem, rfl⟩), ?_⟩
      unfold pairsOfKind
      rw [hrules]
      refine Iff.mpr mem_candidatePairs ⟨f.record, List.mem_filter.mpr ⟨hfmem, by simp⟩, hfid, g,
        hg, hguard.1.symm, ?_, hlive', hnear _ _ _ (by rw [hpropose]; rfl)⟩
      rw [hfid, hgid] at hguard
      exact Ne.symm hguard.2
  constructor
  · rintro ⟨⟨x, y⟩, hpair, hkey, hlink⟩
    obtain ⟨kind, -, hpair⟩ := List.mem_flatMap.mp hpair
    have hx : x ∈ named := by
      unfold pairsOfKind at hpair
      split at hpair
      · cases hpair
      · obtain ⟨t, ht, rfl, -⟩ := Iff.mp mem_candidatePairs hpair
        exact ((mem_linkableOf hrows).mp (List.mem_of_mem_filter ht)).1
    rw [pairLink_congr hkey] at hlink
    rcases pairOf_inj hkey with ⟨rfl, rfl⟩ | ⟨rfl, rfl⟩
    · rw [if_pos (Or.inl hx), hlink]
    · rw [if_pos (Or.inr hx), hlink]
  · intro h
    split_ifs at h with hnamed
    rcases hnamed with ha | hb
    · exact ⟨(a, b), hcompared ha h, rfl, h⟩
    · exact ⟨(b, a), hcompared hb ((pairLink_comm b a).trans h), pairOf_comm b a,
        (pairLink_comm b a).trans h⟩

/-! ## The table -/

/-- A person decided a pair. -/
def Decided (links : LinkRows) (pair : String × String) : Prop :=
  ∃ row, links.get pair = some row ∧ row.decided = true

instance (links : LinkRows) (pair : String × String) : Decidable (Decided links pair) :=
  match h : links.get pair with
  | none => isFalse fun ⟨_, hget, _⟩ => by rw [h] at hget; cases hget
  | some row =>
    if hrow : row.decided = true then isTrue ⟨row, h, hrow⟩
    else isFalse fun ⟨_, hget, hdecided⟩ => by
      rw [h, Option.some.injEq] at hget
      exact hrow (hget ▸ hdecided)

/-- The two ids of every row are in order. -/
def PairsOrdered (links : LinkRows) : Prop :=
  ∀ pair row, links.get pair = some row → before pair.1 pair.2 = true

section Table

variable {links : LinkRows} {pair : String × String} {link : FeatureLink}

/-- A proposal takes the row of its pair, unless a person decided it. -/
theorem get_upsertLink : (upsertLink links link).get pair =
    if pair = link.ends ∧ ¬Decided links pair then some (automatic link) else links.get pair := by
  unfold upsertLink
  by_cases hpair : pair = link.ends
  · subst hpair
    cases hheld : links.get link.ends with
    | none =>
      have hnot : ¬Decided links link.ends := fun ⟨row, hget, _⟩ => by rw [hheld] at hget; cases hget
      simp [hnot]
    | some held =>
      by_cases hdecided : held.decided = true
      · have hyes : Decided links link.ends := ⟨held, hheld, hdecided⟩
        simp [hdecided, hyes, hheld]
      · have hnot : ¬Decided links link.ends := fun ⟨row, hget, hrow⟩ => by
          rw [hheld, Option.some.injEq] at hget
          exact hdecided (hget ▸ hrow)
        simp [hdecided, hnot]
  · simp only [hpair, false_and, if_false]
    cases links.get link.ends with
    | none => exact OrderedMap.get_set_of_ne _ _ hpair
    | some held =>
      simp only
      split_ifs
      · rfl
      · exact OrderedMap.get_set_of_ne _ _ hpair

/-- A pair that no proposal is for keeps its row. -/
theorem get_foldl_upsertLink_of_not_mem {upserts : List FeatureLink}
    (h : ∀ l ∈ upserts, l.ends ≠ pair) : (upserts.foldl upsertLink links).get pair =
      links.get pair := by
  induction upserts generalizing links with
  | nil => rfl
  | cons l rest ih =>
    rw [List.foldl_cons, ih fun x hx => h x (List.mem_cons_of_mem _ hx), get_upsertLink, if_neg]
    exact fun hpair => h l (List.mem_cons_self ..) hpair.1.symm

/-- A pair that a person decided keeps its row. -/
theorem get_foldl_upsertLink_of_decided {upserts : List FeatureLink} {row : LinkRow}
    (hget : links.get pair = some row) (hrow : row.decided = true) :
    (upserts.foldl upsertLink links).get pair = some row := by
  induction upserts generalizing links with
  | nil => exact hget
  | cons l rest ih =>
    refine ih ?_
    rw [get_upsertLink, if_neg]
    · exact hget
    · exact fun hpair => hpair.2 ⟨row, hget, hrow⟩

/-- A pair that a proposal is for, and no person decided, takes it. -/
theorem get_foldl_upsertLink_of_mem {upserts : List FeatureLink} (hlink : link ∈ upserts)
    (hunique : ∀ l ∈ upserts, l.ends = link.ends → l = link) (hnot : ¬Decided links link.ends) :
    (upserts.foldl upsertLink links).get link.ends = some (automatic link) := by
  have hstays : ∀ (rest : List FeatureLink) (m : LinkRows),
      (∀ l ∈ rest, l.ends = link.ends → l = link) → m.get link.ends = some (automatic link) →
      (rest.foldl upsertLink m).get link.ends = some (automatic link) := by
    intro rest
    induction rest with
    | nil => exact fun m _ h => h
    | cons l rest ih =>
      intro m hrest hm
      refine ih _ (fun x hx => hrest x (List.mem_cons_of_mem _ hx)) ?_
      rw [get_upsertLink]
      split_ifs with hpair
      · rw [hrest l (List.mem_cons_self ..) hpair.1.symm]
      · exact hm
  induction upserts generalizing links with
  | nil => cases hlink
  | cons l rest ih =>
    rw [List.foldl_cons]
    by_cases hl : l.ends = link.ends
    · refine hstays rest _ (fun x hx => hunique x (List.mem_cons_of_mem _ hx)) ?_
      rw [get_upsertLink, if_pos ⟨hl.symm, hnot⟩, hunique l (List.mem_cons_self ..) hl]
    · have hrest : link ∈ rest := by
        rcases List.mem_cons.mp hlink with rfl | hrest
        · exact absurd rfl hl
        · exact hrest
      refine ih hrest (fun x hx => hunique x (List.mem_cons_of_mem _ hx)) ?_
      rintro ⟨row, hget, hrow⟩
      rw [get_upsertLink, if_neg fun hpair => hl hpair.1.symm] at hget
      exact hnot ⟨row, hget, hrow⟩

/-- The row of a pair among those stored with a changed feature, by the key of the pair. -/
theorem get_storedByPair (hordered : PairsOrdered links) (named : List String)
    (hpair : before pair.1 pair.2 = true) :
    ((links.filter fun e => named.contains e.1.1 || named.contains e.1.2).entries.foldl
      (fun (m : OrderedMap (String × String) LinkRow) e => m.set (pairOf e.1.1 e.1.2) e.2)
      .empty).get (pairOf pair.1 pair.2) =
      if pair.1 ∈ named ∨ pair.2 ∈ named then links.get pair else none := by
  let key : (String × String) × LinkRow → String × String := fun e => pairOf e.1.1 e.1.2
  let value : OrderedMap (String × String) LinkRow → (String × String) × LinkRow → LinkRow :=
    fun _ e => e.2
  have hmem : ∀ {e : (String × String) × LinkRow},
      e ∈ (links.filter fun e => named.contains e.1.1 || named.contains e.1.2).entries ↔
      links.get e.1 = some e.2 ∧ (e.1.1 ∈ named ∨ e.1.2 ∈ named) := by
    intro e
    simp only [OrderedMap.filter, List.mem_filter, Bool.or_eq_true, List.contains_iff_mem,
      OrderedMap.get_eq_some_iff]
  have hkey : ∀ {e : (String × String) × LinkRow}, links.get e.1 = some e.2 →
      pairOf e.1.1 e.1.2 = pairOf pair.1 pair.2 → e.1 = pair := fun hget heq =>
    eq_of_pairOf (hordered _ _ hget) hpair heq
  by_cases hnamed : pair.1 ∈ named ∨ pair.2 ∈ named
  · rw [if_pos hnamed]
    cases hget : links.get pair with
    | none =>
      refine OrderedMap.get_foldl_set_of_not_mem (k := key) (v := value) (fun hin => ?_) .empty
      obtain ⟨e, he, heq⟩ := List.mem_map.mp hin
      have hrow := (hmem.mp he).1
      rw [hkey hrow heq, hget] at hrow
      cases hrow
    | some row =>
      obtain ⟨w, hw, rfl⟩ := OrderedMap.get_foldl_set_of_mem (k := key) (v := value)
        (P := fun w => w = row) (x := pairOf pair.1 pair.2)
        (List.mem_map.mpr ⟨(pair, row), hmem.mpr ⟨hget, hnamed⟩, rfl⟩) .empty (by
          intro _ e he heq
          have hrow := (hmem.mp he).1
          rw [hkey hrow heq, hget, Option.some.injEq] at hrow
          exact hrow.symm)
      exact hw
  · rw [if_neg hnamed]
    refine OrderedMap.get_foldl_set_of_not_mem (k := key) (v := value) (fun hin => ?_) .empty
    obtain ⟨e, he, heq⟩ := List.mem_map.mp hin
    obtain ⟨hrow, hends⟩ := hmem.mp he
    rw [hkey hrow heq] at hends
    exact hnamed hends

end Table

/-! ## After the pass -/

/-- **The table after a pass.** A pair that a person decided keeps its row; another pair with a
changed feature has the link its features now get, if any; the others are as they were.

**Proof sketch.** The proposals of the pass are those of the pairs with a changed feature.  One for
a pair that a person decided is left out; any other is inserted or takes the row.  An automatic row
with a changed feature and no proposal is stale, and a row that has one is not. -/
theorem get_relinkLinks {links : LinkRows} (hrows : RowsById features)
    (hordered : PairsOrdered links)
    (hnear : ∀ rules f g, (proposeLink evidence f g (some rules)).isSome = true →
      near rules f g = true) (named : List String) {pair : String × String}
    (hpair : before pair.1 pair.2 = true) :
    (relinkLinks evidence near rulesOf features links named).get pair =
      if Decided links pair then links.get pair
      else if pair.1 ∈ named ∨ pair.2 ∈ named then
        (pairLink evidence rulesOf features pair.1 pair.2).map automatic
      else links.get pair := by
  set proposals := proposalsOf evidence near rulesOf features
    (linkableOf rulesOf (loadFeatures features named)) with hproposals
  have hget : ∀ a b, proposals.get (pairOf a b) =
      if a ∈ named ∨ b ∈ named then pairLink evidence rulesOf features a b else none :=
    get_proposalsOf hrows hnear named
  have hstored := get_storedByPair hordered named hpair
  set stored := links.filter fun e => named.contains e.1.1 || named.contains e.1.2 with hstoreddef
  -- A proposal is stored under the key of its own pair.
  have hends : ∀ {key link}, proposals.get key = some link →
      pairOf link.ends.1 link.ends.2 = key ∧ before link.ends.1 link.ends.2 = true := by
    intro key link hlink
    obtain ⟨p, -, hkey, hp⟩ := (proposed_proposalsOf near hrows named key link).mp hlink
    obtain ⟨f, g, hf, hg, -, -, hpropose⟩ := Iff.mp pairLink_eq_some_iff hp
    obtain ⟨hbefore, hor⟩ := proposeLink_ends hpropose
    rw [hrows _ _ hf, hrows _ _ hg] at hor
    refine ⟨?_, hbefore⟩
    rcases hor with heq | heq
    · rw [heq]
      exact hkey
    · rw [heq]
      exact (pairOf_comm _ _).trans hkey
  set upserts := (proposals.entries.filter fun e => undecided ((stored.entries.foldl
    (fun (m : OrderedMap (String × String) LinkRow) e => m.set (pairOf e.1.1 e.1.2) e.2)
    .empty).get e.1)).map Prod.snd with hupserts
  have hupsertsGet : ∀ {link}, link ∈ upserts → proposals.get (pairOf link.ends.1 link.ends.2) =
      some link ∧ before link.ends.1 link.ends.2 = true := by
    intro link hlink
    obtain ⟨e, he, rfl⟩ := List.mem_map.mp hlink
    have hval : proposals.get e.1 = some e.2 :=
      (OrderedMap.get_eq_some_iff _).mpr (List.mem_of_mem_filter he)
    obtain ⟨hkey, hbefore⟩ := hends hval
    exact ⟨hkey.symm ▸ hval, hbefore⟩
  have hstale : (stored.filter fun e =>
      !e.2.decided && !proposals.has (pairOf e.1.1 e.1.2)).keys.contains pair = true ↔
      ¬Decided links pair ∧ (∃ row, links.get pair = some row) ∧
        (pair.1 ∈ named ∨ pair.2 ∈ named) ∧ proposals.get (pairOf pair.1 pair.2) = none := by
    rw [List.contains_iff_mem]
    simp only [OrderedMap.keys, OrderedMap.filter, hstoreddef, List.mem_map, List.mem_filter,
      Bool.or_eq_true, Bool.and_eq_true, Bool.not_eq_true', List.contains_iff_mem, OrderedMap.has,
      Option.isSome_eq_false_iff, Option.isNone_iff_eq_none]
    constructor
    · rintro ⟨e, ⟨⟨he, hnamed⟩, hdecided, hnone⟩, rfl⟩
      have hrow := (OrderedMap.get_eq_some_iff _).mpr he
      refine ⟨?_, ⟨e.2, hrow⟩, hnamed, hnone⟩
      rintro ⟨row, hrow', hdec⟩
      rw [hrow, Option.some.injEq] at hrow'
      rw [hrow', hdec] at hdecided
      cases hdecided
    · rintro ⟨hnot, ⟨row, hrow⟩, hnamed, hnone⟩
      refine ⟨(pair, row), ⟨⟨(OrderedMap.get_eq_some_iff _).mp hrow, hnamed⟩, ?_, hnone⟩, rfl⟩
      by_contra hdec
      exact hnot ⟨row, hrow, by simpa using hdec⟩
  have hresult : (relinkLinks evidence near rulesOf features links named).get pair =
      ((upserts.foldl upsertLink links).get pair).filter fun _ => !(stored.filter fun e =>
        !e.2.decided && !proposals.has (pairOf e.1.1 e.1.2)).keys.contains pair :=
    OrderedMap.get_filter _ _ _
  rw [hresult]
  split_ifs with hdecided hnamed
  · -- Decided: no proposal takes the row, and it is not stale.
    obtain ⟨row, hrow, hdec⟩ := hdecided
    have hnotStale : (stored.filter fun e =>
        !e.2.decided && !proposals.has (pairOf e.1.1 e.1.2)).keys.contains pair = false := by
      rw [Bool.eq_false_iff]
      exact fun h => (hstale.mp h).1 ⟨row, hrow, hdec⟩
    rw [get_foldl_upsertLink_of_decided hrow hdec, hrow, hnotStale]
    rfl
  · rw [hget, if_pos hnamed] at hstale
    cases hlink : pairLink evidence rulesOf features pair.1 pair.2 with
    | none =>
      -- No proposal: an automatic row is stale.
      rw [get_foldl_upsertLink_of_not_mem]
      · cases hrow : links.get pair with
        | none => rfl
        | some row =>
          have hyes := hstale.mpr ⟨hdecided, ⟨row, hrow⟩, hnamed, hlink⟩
          rw [hyes]
          rfl
      · intro l hl heq
        have hval := (hupsertsGet hl).1
        rw [heq, hget, if_pos hnamed, hlink] at hval
        cases hval
    | some link =>
      have hval : proposals.get (pairOf pair.1 pair.2) = some link := by
        rw [hget, if_pos hnamed, hlink]
      have heq : link.ends = pair := eq_of_pairOf (hends hval).2 hpair (hends hval).1
      have hnotStale : (stored.filter fun e =>
          !e.2.decided && !proposals.has (pairOf e.1.1 e.1.2)).keys.contains pair = false := by
        rw [Bool.eq_false_iff]
        intro h
        have hnone := (hstale.mp h).2.2.2
        rw [hlink] at hnone
        cases hnone
      have hmem : link ∈ upserts := by
        refine List.mem_map.mpr ⟨(pairOf pair.1 pair.2, link), List.mem_filter.mpr
          ⟨(OrderedMap.get_eq_some_iff _).mp hval, ?_⟩, rfl⟩
        simp only [hstored, if_pos hnamed]
        cases hrow : links.get pair with
        | none => rfl
        | some row =>
          by_contra hdec
          exact hdecided ⟨row, hrow, by simpa [undecided] using hdec⟩
      have hunique : ∀ l ∈ upserts, l.ends = link.ends → l = link := by
        intro l hl hlends
        have hlval := (hupsertsGet hl).1
        rw [hlends, heq, hval, Option.some.injEq] at hlval
        exact hlval.symm
      have hupserted := get_foldl_upsertLink_of_mem hmem hunique
        (show ¬Decided links _ from heq.symm ▸ hdecided)
      rw [heq] at hupserted
      rw [hupserted, hnotStale]
      rfl
  · -- No changed feature: no proposal, and not stale.
    have hnotStale : (stored.filter fun e =>
        !e.2.decided && !proposals.has (pairOf e.1.1 e.1.2)).keys.contains pair = false := by
      rw [Bool.eq_false_iff]
      exact fun h => hnamed (hstale.mp h).2.2.1
    rw [get_foldl_upsertLink_of_not_mem, hnotStale]
    · cases links.get pair <;> rfl
    · intro l hl heq
      have hval := (hupsertsGet hl).1
      rw [heq, hget, if_neg hnamed] at hval
      cases hval

/-- The pairs of the table stay in order. -/
theorem pairsOrdered_relinkLinks {links : LinkRows} (hrows : RowsById features)
    (hordered : PairsOrdered links) (named : List String) :
    PairsOrdered (relinkLinks evidence near rulesOf features links named) := by
  intro pair row hget
  unfold relinkLinks at hget
  rw [OrderedMap.get_filter, Option.filter_eq_some_iff] at hget
  have hgeneral : ∀ (upserts : List FeatureLink) (m : LinkRows),
      (∀ l ∈ upserts, before l.ends.1 l.ends.2 = true) → PairsOrdered m →
      PairsOrdered (upserts.foldl upsertLink m) := by
    intro upserts
    induction upserts with
    | nil => exact fun m _ h => h
    | cons l rest ih =>
      intro m hends hm
      refine ih _ (fun x hx => hends x (List.mem_cons_of_mem _ hx)) fun p r hp => ?_
      rw [get_upsertLink] at hp
      split_ifs at hp with hpl
      · rw [hpl.1]
        exact hends l (List.mem_cons_self ..)
      · exact hm p r hp
  refine hgeneral _ links (fun l hl => ?_) hordered pair row hget.1
  obtain ⟨e, he, rfl⟩ := List.mem_map.mp hl
  have hval := (OrderedMap.get_eq_some_iff _).mpr (List.mem_of_mem_filter he)
  obtain ⟨p, -, -, hp⟩ := (proposed_proposalsOf near hrows named e.1 e.2).mp hval
  obtain ⟨f, g, -, -, -, -, hpropose⟩ := Iff.mp pairLink_eq_some_iff hp
  exact (proposeLink_ends hpropose).1

end OpenConditions.Storage

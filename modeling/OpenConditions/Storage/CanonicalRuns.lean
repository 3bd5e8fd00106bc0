import OpenConditions.Storage.RelinkedClusters

set_option relaxedAutoImplicit false
set_option autoImplicit false

/-!
# The canonical view over whole runs

Between two passes the links and the rows are those of the features at the last one, and only the
features told as changed differ from these.  So whenever every change has been relinked, the view is
the one that all live features and all links give.

## Main definitions

* `Synced` — the links and the rows are those of some features.
* `CanonicalView.Kept` — the invariant of the view.

## Main results

* `CanonicalView.Kept.step` — every event keeps it.
* `canonicalView_kept` — the view kept step by step equals the one computed from scratch.
-/

namespace OpenConditions.Storage

open Linking

section Runs

variable {D R : Type}
  {evidence : R → LinkableFeature D → LinkableFeature D → Option LinkEvidence}
  {near : R → LinkableFeature D → LinkableFeature D → Bool} {rulesOf : String → Option R}
  {localeCompare : String → String → ℤ} {canonicalId : List String → String}

/-! ## The invariant -/

variable (evidence rulesOf localeCompare canonicalId) in
/-- The automatic links and the rows are those that some stored features give. -/
structure Synced (base : FeatureRows D) (links : LinkRows) (canonical : List CanonicalCluster) :
    Prop where
  rows : RowsById base
  automatic : ∀ pair : String × String, before pair.1 pair.2 = true → ¬Decided links pair →
    links.get pair = (pairLink evidence rulesOf base pair.1 pair.2).map automatic
  clusters : canonical.Perm (canonicalClusters localeCompare canonicalId (liveFeatures base)
    (linksOf links) (some survivorRank))

variable (evidence rulesOf localeCompare canonicalId) in
/-- **The invariant of the view.** Its links and rows are those of the features at the last pass,
and the features differ from those only where they changed since. -/
structure CanonicalView.Kept (links : LinkRows) (v : CanonicalView D) : Prop where
  rows : RowsById v.features
  featuresNul : ∀ id row, v.features.get id = some row → NulFree id
  ordered : PairsOrdered v.links
  linksNul : LinksNulFree v.links
  decided : ∀ pair row, row.decided = true →
    (v.links.get pair = some row ↔ links.get pair = some row)
  synced : ∃ base, Synced evidence rulesOf localeCompare canonicalId base v.links v.canonical ∧
    (∀ id, id ∉ v.changed → v.features.get id = base.get id) ∧
    (v.changed = [] → v.features = base)

/-! ## Links -/

section Links

variable {features : FeatureRows D} {links : LinkRows}

/-- The row of an automatic link is not a person's. -/
theorem pairLink_not_decided {a b : String} {row : LinkRow}
    (h : (pairLink evidence rulesOf features a b).map automatic = some row) :
    row.decided = false := by
  obtain ⟨link, hlink, rfl⟩ := Option.map_eq_some_iff.mp h
  obtain ⟨f, g, -, -, -, -, hpropose⟩ := pairLink_eq_some_iff.mp hlink
  unfold proposeLink at hpropose
  cases hrules : rulesOf f.record.kind with
  | none =>
    rw [hrules] at hpropose
    cases hpropose
  | some rules =>
    rw [hrules] at hpropose
    simp only at hpropose
    split_ifs at hpropose
    obtain ⟨e, -, rfl⟩ := Option.map_eq_some_iff.mp hpropose
    cases e <;> rfl

/-- A pass leaves what people decided, and nothing more is decided. -/
theorem decided_relinkLinks (hrows : RowsById features) (hordered : PairsOrdered links)
    (hnear : ∀ rules f g, (proposeLink evidence f g (some rules)).isSome = true →
      near rules f g = true) (named : List String) {pair : String × String} {row : LinkRow}
    (hrow : row.decided = true) :
    (relinkLinks evidence near rulesOf features links named).get pair = some row ↔
      links.get pair = some row := by
  by_cases hpair : before pair.1 pair.2 = true
  · rw [get_relinkLinks hrows hordered hnear named hpair]
    split_ifs with hdecided hnamed
    · exact Iff.rfl
    · constructor
      · intro h
        rw [pairLink_not_decided h] at hrow
        cases hrow
      · exact fun h => absurd ⟨row, h, hrow⟩ hdecided
    · exact Iff.rfl
  · exact ⟨fun h => absurd (pairsOrdered_relinkLinks hrows hordered named pair row h) hpair,
      fun h => absurd (hordered pair row h) hpair⟩

/-- A pass leaves the rows of pairs that linking was not told of. -/
theorem get_relinkLinks_of_not_mem (hrows : RowsById features) (hordered : PairsOrdered links)
    (hnear : ∀ rules f g, (proposeLink evidence f g (some rules)).isSome = true →
      near rules f g = true) {named : List String} {pair : String × String}
    (ha : pair.1 ∉ named) (hb : pair.2 ∉ named) :
    (relinkLinks evidence near rulesOf features links named).get pair = links.get pair := by
  by_cases hpair : before pair.1 pair.2 = true
  · rw [get_relinkLinks hrows hordered hnear named hpair, if_neg (not_or.mpr ⟨ha, hb⟩), ite_self]
  · have hnone : ∀ {m : LinkRows}, PairsOrdered m → m.get pair = none := by
      intro m hm
      cases hget : m.get pair with
      | none => rfl
      | some row => exact absurd (hm pair row hget) hpair
    rw [hnone hordered, hnone (pairsOrdered_relinkLinks hrows hordered named)]

/-- The ids of the links after a pass are texts the database can hold. -/
theorem linksNulFree_relinkLinks (hrows : RowsById features) (hordered : PairsOrdered links)
    (hnear : ∀ rules f g, (proposeLink evidence f g (some rules)).isSome = true →
      near rules f g = true) (hnul : LinksNulFree links)
    (hids : ∀ id row, features.get id = some row → NulFree id) (named : List String) :
    LinksNulFree (relinkLinks evidence near rulesOf features links named) := by
  intro pair row hget
  have hpair := pairsOrdered_relinkLinks hrows hordered named pair row hget
  rw [get_relinkLinks hrows hordered hnear named hpair] at hget
  split_ifs at hget
  · exact hnul pair row hget
  · obtain ⟨link, hlink, -⟩ := Option.map_eq_some_iff.mp hget
    obtain ⟨f, g, hf, hg, -⟩ := pairLink_eq_some_iff.mp hlink
    exact ⟨hids _ _ hf, hids _ _ hg⟩
  · exact hnul pair row hget

end Links

/-! ## Steps -/

/-- The view before anything happens. -/
theorem CanonicalView.kept_initial {links : LinkRows}
    (hdecided : ∀ pair row, links.get pair = some row → row.decided = true)
    (hordered : PairsOrdered links) (hnul : LinksNulFree links) :
    (CanonicalView.initial (D := D) links).Kept evidence rulesOf localeCompare canonicalId links where
  rows _ _ h := by cases h
  featuresNul _ _ h := by cases h
  ordered := hordered
  linksNul := hnul
  decided _ _ _ := Iff.rfl
  synced := by
    have hrows : RowsById (OrderedMap.empty : FeatureRows D) := by
      intro id row h
      cases h
    have hclusters : canonicalClusters localeCompare canonicalId
        (liveFeatures (OrderedMap.empty : FeatureRows D)) (linksOf links) (some survivorRank) = [] := by
      refine List.eq_nil_iff_forall_not_mem.mpr fun c hc => ?_
      obtain ⟨g, hg, -⟩ := mem_canonicalClusters_iff.mp hc
      obtain ⟨x, hx⟩ := hg.exists_mem
      exact List.not_mem_nil (hg.mem_idsOf hx)
    refine ⟨.empty, ⟨hrows, fun pair _ hnot => ?_, hclusters ▸ List.Perm.refl _⟩, fun _ _ => rfl,
      fun _ => rfl⟩
    cases hget : links.get pair with
    | none => exact hget
    | some row => exact absurd ⟨row, hget, hdecided pair row hget⟩ hnot

variable {links : LinkRows} {v v' : CanonicalView D}

/-- A feature that changes is told as changed. -/
theorem CanonicalView.Kept.change {features : FeatureRows D} {id : String}
    (h : v.Kept evidence rulesOf localeCompare canonicalId links) (hrows : RowsById features)
    (hnul : ∀ id row, features.get id = some row → NulFree id)
    (hothers : ∀ x, x ≠ id → features.get x = v.features.get x) :
    CanonicalView.Kept evidence rulesOf localeCompare canonicalId links
      { v with features := features, changed := v.changed ++ [id] } where
  rows := hrows
  featuresNul := hnul
  ordered := h.ordered
  linksNul := h.linksNul
  decided := h.decided
  synced := by
    obtain ⟨base, hsynced, hbase, -⟩ := h.synced
    refine ⟨base, hsynced, fun x hx => ?_, fun hempty => absurd hempty (by simp)⟩
    simp only [List.mem_append, List.mem_singleton, not_or] at hx
    exact (hothers x hx.2).trans (hbase x hx.1)

/-- Relinking what changed brings the view up to date. -/
theorem CanonicalView.Kept.relink (hlocale : LocaleOrder localeCompare)
    (hnear : ∀ rules f g, (proposeLink evidence f g (some rules)).isSome = true →
      near rules f g = true)
    (h : v.Kept evidence rulesOf localeCompare canonicalId links) {featureIds : List String}
    (hsub : ∀ id ∈ featureIds, id ∈ v.changed) (hall : ∀ id ∈ v.changed, id ∈ featureIds) :
    CanonicalView.Kept evidence rulesOf localeCompare canonicalId links
      { (relinkFeatures evidence near rulesOf localeCompare canonicalId v featureIds).1 with
        changed := [] } := by
  obtain ⟨base, hsynced, hbase, hempty⟩ := h.synced
  unfold relinkFeatures
  by_cases hnone : featureIds = []
  · -- Nothing changed.
    subst hnone
    have hchanged : v.changed = [] := List.eq_nil_iff_forall_not_mem.mpr fun x hx => by
      cases hall x hx
    exact ⟨h.rows, h.featuresNul, h.ordered, h.linksNul, h.decided, base, hsynced,
      fun x _ => hbase x (by simp [hchanged]), fun _ => hempty hchanged⟩
  · rw [if_neg (by simpa using hnone)]
    have hunnamed : ∀ x, x ∉ featureIds → v.features.get x = base.get x := fun x hx =>
      hbase x fun hin => hx (hall x hin)
    have hordered' : PairsOrdered (relinkLinks evidence near rulesOf v.features v.links featureIds) :=
      pairsOrdered_relinkLinks h.rows h.ordered featureIds
    have hnul' : LinksNulFree (relinkLinks evidence near rulesOf v.features v.links featureIds) :=
      linksNulFree_relinkLinks h.rows h.ordered hnear h.linksNul h.featuresNul featureIds
    refine ⟨h.rows, h.featuresNul, hordered', hnul', fun pair row hrow => ?_, v.features,
      ⟨h.rows, fun pair hpair hnot => ?_, ?_⟩, fun _ _ => rfl, fun _ => rfl⟩
    · exact (decided_relinkLinks h.rows h.ordered hnear featureIds hrow).trans
        (h.decided pair row hrow)
    · have hnot' : ¬Decided v.links pair := fun ⟨row, hget, hrow⟩ =>
        hnot ⟨row, (decided_relinkLinks h.rows h.ordered hnear featureIds hrow).mpr hget, hrow⟩
      simp only
      rw [get_relinkLinks h.rows h.ordered hnear featureIds hpair, if_neg hnot']
      split_ifs with hnamed
      · rfl
      · rw [not_or] at hnamed
        rw [hsynced.automatic pair hpair hnot']
        simp only [pairLink, hunnamed _ hnamed.1, hunnamed _ hnamed.2]
    · exact relinkClusters_perm hlocale hsynced.rows h.rows h.ordered hordered' h.linksNul hnul'
        hunnamed (fun pair => get_relinkLinks_of_not_mem h.rows h.ordered hnear) hsynced.clusters

/-- **Every event keeps the invariant.** -/
theorem CanonicalView.Kept.step (hlocale : LocaleOrder localeCompare)
    (hnear : ∀ rules f g, (proposeLink evidence f g (some rules)).isSome = true →
      near rules f g = true)
    (h : v.Kept evidence rulesOf localeCompare canonicalId links) {event : ViewEvent D}
    (hstep : v.step evidence near rulesOf localeCompare canonicalId event = some v') :
    v'.Kept evidence rulesOf localeCompare canonicalId links := by
  cases event with
  | write record =>
    simp only [CanonicalView.step] at hstep
    split_ifs at hstep with hnul
    obtain rfl := Option.some.inj hstep
    refine h.change (fun id row hget => ?_) (fun id row hget => ?_) fun x hx =>
      OrderedMap.get_set_of_ne _ _ hx
    · rw [OrderedMap.get_set] at hget
      split_ifs at hget with hid
      · obtain rfl := Option.some.inj hget
        exact hid.symm
      · exact h.rows id row hget
    · rw [OrderedMap.get_set] at hget
      split_ifs at hget with hid
      · exact hid ▸ hnul
      · exact h.featuresNul id row hget
  | tombstone id =>
    simp only [CanonicalView.step] at hstep
    cases hold : v.features.get id with
    | none =>
      rw [hold] at hstep
      cases hstep
    | some row =>
      rw [hold] at hstep
      obtain rfl := Option.some.inj hstep
      refine h.change (fun x r hget => ?_) (fun x r hget => ?_) fun x hx =>
        OrderedMap.get_set_of_ne _ _ hx
      · rw [OrderedMap.get_set] at hget
        split_ifs at hget with hx
        · obtain rfl := Option.some.inj hget
          exact hx ▸ h.rows id row hold
        · exact h.rows x r hget
      · rw [OrderedMap.get_set] at hget
        split_ifs at hget with hx
        · exact hx ▸ h.featuresNul id row hold
        · exact h.featuresNul x r hget
  | delete id =>
    simp only [CanonicalView.step] at hstep
    split_ifs at hstep
    obtain rfl := Option.some.inj hstep
    have hsome : ∀ {x row}, (v.features.delete id).get x = some row →
        v.features.get x = some row := by
      intro x row hget
      rw [OrderedMap.get_delete] at hget
      split_ifs at hget
      exact hget
    refine h.change (fun x row hget => h.rows x row (hsome hget))
      (fun x row hget => h.featuresNul x row (hsome hget)) fun x hx => ?_
    rw [OrderedMap.get_delete, if_neg hx]
  | relink featureIds =>
    simp only [CanonicalView.step] at hstep
    split_ifs at hstep with hexact
    obtain rfl := Option.some.inj hstep
    exact h.relink hlocale hnear hexact.1 hexact.2

/-! ## Runs -/

/-- **The view kept step by step equals the one computed from scratch.** Whenever every change has
been relinked, the rows are the clusters of all live features under the accepted links; every live
feature is in exactly one row; and the links are those people decided, with the ones the live
features get for the pairs that nobody decided. -/
theorem canonicalView_kept (hlocale : LocaleOrder localeCompare)
    (hnear : ∀ rules f g, (proposeLink evidence f g (some rules)).isSome = true →
      near rules f g = true)
    (hdecided : ∀ pair row, links.get pair = some row → row.decided = true)
    (hordered : PairsOrdered links) (hnul : LinksNulFree links) {events : List (ViewEvent D)}
    (hrun : Transition.run
      (CanonicalView.step evidence near rulesOf localeCompare canonicalId)
      (.initial links) events = some v)
    (hchanged : v.changed = []) :
    v.canonical.Perm (canonicalClusters localeCompare canonicalId (liveFeatures v.features)
      (linksOf v.links) (some survivorRank)) ∧
    (∀ f ∈ liveFeatures v.features,
      (v.canonical.filter fun c => c.memberIds.contains f.id).length = 1) ∧
    (∀ pair row, row.decided = true →
      (v.links.get pair = some row ↔ links.get pair = some row)) ∧
    ∀ pair row, row.decided = false → (v.links.get pair = some row ↔ ¬Decided links pair ∧
      ∃ f ∈ liveFeatures v.features, ∃ g ∈ liveFeatures v.features, ∃ link,
        proposeLink evidence f g (rulesOf f.kind) = some link ∧ link.ends = pair ∧
          automatic link = row) := by
  have h : v.Kept evidence rulesOf localeCompare canonicalId links :=
    Transition.run_invariant (fun _ _ _ h hstep => h.step hlocale hnear hstep)
      (CanonicalView.kept_initial hdecided hordered hnul) hrun
  obtain ⟨base, hsynced, -, hbase⟩ := h.synced
  obtain rfl := hbase hchanged
  have hdecidedIff : ∀ pair, Decided v.links pair ↔ Decided links pair := fun pair =>
    exists_congr fun row => and_congr_left fun hrow => h.decided pair row hrow
  refine ⟨hsynced.clusters, fun f hf => ?_, h.decided, fun pair row hrow => ?_⟩
  · rw [(hsynced.clusters.filter _).length_eq]
    exact length_clustersHolding (List.mem_map.mpr ⟨f, hf, rfl⟩)
  · constructor
    · intro hget
      have hnot : ¬Decided v.links pair := fun ⟨row', hget', hrow'⟩ => by
        rw [hget, Option.some.injEq] at hget'
        rw [hget', hrow'] at hrow
        cases hrow
      have hpair := h.ordered pair row hget
      rw [hsynced.automatic pair hpair hnot] at hget
      obtain ⟨link, hlink, rfl⟩ := Option.map_eq_some_iff.mp hget
      obtain ⟨f, g, hf, hg, hlive, hlive', hpropose⟩ := pairLink_eq_some_iff.mp hlink
      obtain ⟨hbefore, hends⟩ := proposeLink_ends hpropose
      rw [h.rows _ _ hf, h.rows _ _ hg] at hends
      refine ⟨fun hin => hnot ((hdecidedIff pair).mpr hin), f.record,
        mem_liveFeatures.mpr ⟨_, f, hf, hlive, rfl⟩, g.record,
        mem_liveFeatures.mpr ⟨_, g, hg, hlive', rfl⟩, link, hpropose, ?_, rfl⟩
      refine hends.resolve_right fun heq => ?_
      rw [FeatureLink.ends, Prod.mk.injEq] at heq
      rw [heq.1, heq.2, before_asymm hpair] at hbefore
      cases hbefore
    · rintro ⟨hnot, f, hf, g, hg, link, hpropose, hends, rfl⟩
      obtain ⟨hbefore, hor⟩ := proposeLink_ends hpropose
      obtain ⟨x, rowf, hx, hlive, rfl⟩ := mem_liveFeatures.mp hf
      obtain ⟨y, rowg, hy, hlive', rfl⟩ := mem_liveFeatures.mp hg
      rw [h.rows _ _ hx, h.rows _ _ hy, hends] at hor
      have hpair : before pair.1 pair.2 = true := by
        rw [← hends]
        exact hbefore
      have hlink : pairLink evidence rulesOf v.features x y = some link :=
        pairLink_eq_some_iff.mpr ⟨rowf, rowg, hx, hy, hlive, hlive', hpropose⟩
      rw [hsynced.automatic pair hpair fun hin => hnot ((hdecidedIff pair).mp hin)]
      rcases hor with rfl | rfl
      · rw [hlink, Option.map_some]
      · rw [pairLink_comm, hlink, Option.map_some]

end Runs

/-! ## A sample run -/

/-- Two features of a kind, near each other. -/
def sampleFeature (id : String) : LinkableFeature Unit := ⟨id, "charging", "feed", none, ()⟩

/-- The rules of a kind that link every two features of it. -/
def sampleView (events : List (ViewEvent Unit)) : Option (CanonicalView Unit) :=
  Transition.run (CanonicalView.step (R := Unit) (fun _ _ _ => some .near) (fun _ _ _ => true)
    (fun _ => some ()) codeUnitCompare String.join) (.initial .empty) events

/-- Two features written and relinked, then one of them tombstoned and relinked. -/
def sampleEvents : List (ViewEvent Unit) :=
  [.write (sampleFeature "a"), .write (sampleFeature "b"), .relink ["a", "b"], .tombstone "a",
    .relink ["a"]]

theorem canonicalView_kept_sample :
    ∃ v, sampleView sampleEvents = some v ∧ v.changed = [] ∧
      v.canonical.map CanonicalCluster.memberIds = [["b"]] ∧
      v.canonical.Perm (canonicalClusters codeUnitCompare String.join (liveFeatures v.features)
        (linksOf v.links) (some survivorRank)) := by
  have hend : (sampleView sampleEvents).map (fun v => (v.changed,
      v.canonical.map CanonicalCluster.memberIds)) = some ([], [["b"]]) := by decide +kernel
  obtain ⟨v, hrun, hv⟩ := Option.map_eq_some_iff.mp hend
  rw [Prod.mk.injEq] at hv
  exact ⟨v, hrun, hv.1, hv.2, (canonicalView_kept localeOrder_codeUnitCompare (fun _ _ _ _ => rfl)
    (fun _ _ h => by cases h) (fun _ _ h => by cases h) (fun _ _ h => by cases h) hrun hv.1).1⟩

end OpenConditions.Storage

import OpenConditions.Fusion.FusedRights
import OpenConditions.Fusion.FusedRows
import OpenConditions.Registry.CrosswalkRows

set_option relaxedAutoImplicit false
set_option autoImplicit false

/-!
# What a refresh shows

What the public scope sees of a fused series after a refresh: the fusion of the public candidates,
where a public member puts it.  It is the row of the fusion of all candidates where these that
contribute are public, and else the row beside it.

## Main definitions

* `Covers` — the groups that a refresh is about.
* `publicShown` — the public fusion of a group, and its place.
* `shows` — what the public scope sees of it.

## Main results

* `fuse_filter_of_contributors` — candidates that do not contribute may be left out.
* `fuseGroup_spec` — what the public scope sees of the rows of a group.
* `publicView_refresh`, `refresh_uncovered` — what it sees after a refresh.
-/

namespace OpenConditions.Fusion

open OpenConditions.Storage

/-! ## Fusing fewer candidates -/

section Fuse

variable {J : Type} {env : FusionEnv J} {property : String} {now : Instant}
  {cs : List (FusionCandidate J)} {f : Fusion J} {p : FusionCandidate J → Bool}

/-- The ranked candidates in their order. -/
def rankedIn (env : FusionEnv J) (order : List FusionTier) (property : String) (now : Instant)
    (cs : List (FusionCandidate J)) : List (Ranked J) :=
  Sorting.sortBy (ranksBefore env.localeLe) (cs.filterMap (rankedOf order property now))

/-- Fusion picks the first of the ranked candidates. -/
theorem fuse_eq_rankedIn {result : Option (Fusion J)} (h : fuse env property cs now = .ok result) :
    ∃ entry, env.property property = some entry ∧
      result = (rankedIn env (entry.fusionTiers.getD fusionTiers) property now cs).head?.map
        fun first => fusionOf env first
          (rankedIn env (entry.fusionTiers.getD fusionTiers) property now cs) := by
  cases hentry : env.property property with
  | none => simp [fuse, hentry] at h
  | some entry => exact ⟨entry, rfl, fuse_eq_ok hentry h⟩

/-- Leaving candidates out leaves the order of the others. -/
theorem rankedIn_filter (hlocale : Sorting.OrdersBy env.localeLe) {order : List FusionTier} :
    rankedIn env order property now (cs.filter p) =
      (rankedIn env order property now cs).filter fun r => p r.c := by
  unfold rankedIn
  rw [← Sorting.sortBy_filter (ranksBefore_ordersBy hlocale), List.filterMap_filter,
    List.filter_filterMap]
  congr 1
  refine List.filterMap_congr fun c _ => ?_
  cases hc : rankedOf order property now c with
  | none => cases p c <;> rfl
  | some r =>
    obtain ⟨-, rfl⟩ := rankedOf_eq_some.mp hc
    cases hp : p c <;> simp [Option.filter, hp]

/-- Fusion of fewer candidates fails only where that of all does. -/
theorem fuse_filter_ok {result : Option (Fusion J)} (h : fuse env property cs now = .ok result) :
    ∃ result', fuse env property (cs.filter p) now = .ok result' := by
  obtain ⟨entry, hentry, -⟩ := fuse_eq_rankedIn h
  cases hfilter : fuse env property (cs.filter p) now with
  | ok result' => exact ⟨result', rfl⟩
  | error e =>
    obtain ⟨c, hc, htierless⟩ := (fuse_eq_error hentry).mp ⟨e, hfilter⟩
    obtain ⟨e', he'⟩ := (fuse_eq_error hentry).mpr ⟨c, List.mem_of_mem_filter hc, htierless⟩
    rw [h] at he'
    cases he'

/-- **Candidates that do not contribute may be left out**: the fusion stays the same. -/
theorem fuse_filter_of_contributors (hlocale : Sorting.OrdersBy env.localeLe)
    (h : fuse env property cs now = .ok (some f)) (hp : ∀ c ∈ f.contributors, p c = true) :
    fuse env property (cs.filter p) now = .ok (some f) := by
  obtain ⟨result, hresult⟩ := fuse_filter_ok (p := p) h
  obtain ⟨entry, hentry, hf⟩ := fuse_eq_rankedIn h
  rw [hresult, fuse_eq_ok hentry hresult]
  have hrest : rankedIn env (entry.fusionTiers.getD fusionTiers) property now (cs.filter p) =
      (rankedIn env (entry.fusionTiers.getD fusionTiers) property now cs).filter fun r => p r.c :=
    rankedIn_filter hlocale
  unfold rankedIn at hrest hf
  rw [hrest]
  obtain ⟨first, hfirst, rfl⟩ := Option.map_eq_some_iff.mp hf.symm
  obtain ⟨rest, hranked⟩ := List.head?_eq_some_iff.mp hfirst
  rw [hranked] at hp ⊢
  have hcontributes : ∀ r ∈ first :: rest, decide (r.rank = first.rank ∧
      r.c.stale = first.c.stale ∧
        env.jcs r.c.observation.result = env.jcs first.c.observation.result) = true →
      p r.c = true := fun r hr hagree =>
    hp r.c (List.mem_map_of_mem (List.mem_filter.mpr ⟨hr, hagree⟩))
  have hhead : p first.c = true := hcontributes first (List.mem_cons_self ..) (by simp)
  have hfirst' : ((first :: rest).filter fun r => p r.c).head? = some first := by
    simp [hhead]
  rw [hfirst', Option.map_some]
  unfold fusionOf
  congr 4
  rw [List.filter_filter]
  refine List.filter_congr fun r hr => ?_
  cases hagree : decide (r.rank = first.rank ∧ r.c.stale = first.c.stale ∧
      env.jcs r.c.observation.result = env.jcs first.c.observation.result) with
  | false => simp
  | true => simp [hcontributes r hr hagree]

/-- Where no candidate is eligible, none of fewer is. -/
theorem fuse_filter_none (hlocale : Sorting.OrdersBy env.localeLe)
    (h : fuse env property cs now = .ok none) : fuse env property (cs.filter p) now = .ok none := by
  obtain ⟨result, hresult⟩ := fuse_filter_ok (p := p) h
  obtain ⟨entry, hentry, hnone⟩ := fuse_eq_rankedIn h
  rw [hresult, fuse_eq_ok hentry hresult]
  have hrest : rankedIn env (entry.fusionTiers.getD fusionTiers) property now (cs.filter p) =
      (rankedIn env (entry.fusionTiers.getD fusionTiers) property now cs).filter fun r => p r.c :=
    rankedIn_filter hlocale
  have hempty := List.head?_eq_none_iff.mp (Option.map_eq_none_iff.mp hnone.symm)
  rw [hempty] at hrest
  unfold rankedIn at hrest
  rw [hrest]
  rfl

/-- A fusion's winner is a candidate of the property, and contributes. -/
theorem winner_mem (h : fuse env property cs now = .ok (some f)) :
    f.winner ∈ cs ∧ f.winner.observation.property = property ∧ f.winner ∈ f.contributors := by
  obtain ⟨entry, hentry, hf⟩ := fuse_eq_rankedIn h
  obtain ⟨first, hfirst, rfl⟩ := Option.map_eq_some_iff.mp hf.symm
  have hfirst' := List.mem_of_head? hfirst
  obtain ⟨hmem, heligible, -⟩ := mem_filterMap_rankedOf.mp (Sorting.mem_sortBy.mp hfirst')
  exact ⟨hmem, heligible.ofProperty,
    List.mem_map_of_mem (List.mem_filter.mpr ⟨hfirst', by simp⟩)⟩

end Fuse

/-! ## Series -/

/-- A feature without `#` and its component are told by the subject's key. -/
theorem subjectKey_inj {a b : String} {x y : Option String} (ha : '#' ∉ a.toList)
    (hb : '#' ∉ b.toList) (h : subjectKey a x = subjectKey b y) : a = b ∧ x = y := by
  have hlist := congrArg String.toList h
  cases x with
  | none =>
    cases y with
    | none =>
      have hab : a = b := by simpa [subjectKey, String.toList_inj] using hlist
      exact ⟨hab, rfl⟩
    | some y =>
      refine absurd ?_ ha
      have hab : a.toList = b.toList ++ '#' :: y.toList := by
        simpa [subjectKey, String.toList_append] using hlist
      rw [hab]
      simp
  | some x =>
    cases y with
    | none =>
      refine absurd ?_ hb
      have hab : a.toList ++ '#' :: x.toList = b.toList := by
        simpa [subjectKey, String.toList_append] using hlist
      rw [← hab]
      simp
    | some y =>
      have hab : a.toList ++ '#' :: x.toList = b.toList ++ '#' :: y.toList := by
        simpa [subjectKey, String.toList_append] using hlist
      obtain ⟨hid, hcomponent⟩ := Registry.append_cons_inj ha hb hab
      exact ⟨String.toList_inj.mp hid, congrArg some (String.toList_inj.mp hcomponent)⟩

/-- The series of a group. -/
def GroupKey.series (key : GroupKey) : FusedSeries :=
  ⟨subjectKey key.canonical.canonicalFeatureId key.componentKey, key.property, key.qualifierKey⟩

/-- Every row is about the subject of its key. -/
def Keyed {J : Type} (t : FusedTable J) : Prop :=
  ∀ k row, t k = some row →
    k.subjectKey = subjectKey row.featureId row.componentKey ∧ '#' ∉ row.featureId.toList

section Groups

variable {J : Type} {env : RefreshEnv J} {r r' : Refresh J} {t t' : FusedTable J}

/-- A group of a cluster, of a property in scope. -/
structure Covers (env : RefreshEnv J) (r : Refresh J) (key : GroupKey) : Prop where
  canonical : key.canonical ∈ r.canonical
  inScope : inScope env r key.canonical.canonicalFeatureId key.property = true

/-- Groups that a refresh covers are told by their series. -/
theorem Covers.series_inj {key key' : GroupKey} (h : Covers env r key) (h' : Covers env r key')
    (heq : key.series = key'.series) : key = key' := by
  have hsubject := congrArg FusedSeries.subjectKey heq
  have hproperty : key.property = key'.property := congrArg FusedSeries.property heq
  have hqualifiers : key.qualifierKey = key'.qualifierKey := congrArg FusedSeries.qualifierKey heq
  obtain ⟨hid, hcomponent⟩ := subjectKey_inj (r.canonical_plain _ h.canonical)
    (r.canonical_plain _ h'.canonical) hsubject
  have hcanonical := List.inj_on_of_nodup_map r.canonical_nodup h.canonical h'.canonical hid
  cases key
  cases key'
  simp_all

/-- A row competes in a group that the refresh covers, as a candidate with the row's record. -/
theorem entryOf_spec {row : LatestRow J} {e : Entry J} (h : entryOf env r row = some e) :
    Covers env r e.key ∧ e.row = row ∧ e.candidate.observation = row.record ∧
      e.key.property = row.record.property ∧
        e.key.qualifierKey = qualifierKey env row.record.qualifiers := by
  obtain ⟨c, hc, h⟩ := Option.bind_eq_some_iff.mp h
  split_ifs at h with hscope
  · obtain ⟨componentKey, -, h⟩ := Option.bind_eq_some_iff.mp h
    obtain ⟨candidate, hcandidate, rfl⟩ := Option.map_eq_some_iff.mp h
    refine ⟨⟨?_, hscope⟩, rfl, ?_, rfl, rfl⟩
    · split_ifs at hc
      · exact List.mem_of_find?_eq_some hc
      · exact List.mem_reverse.mp (List.mem_of_find?_eq_some hc)
    · unfold candidateOf at hcandidate
      split_ifs at hcandidate
      · rw [← Option.some.inj hcandidate]
      · obtain ⟨source, -, rfl⟩ := Option.map_eq_some_iff.mp hcandidate
        rfl

/-- What competes is a row as it competes. -/
theorem entries_spec {e : Entry J} (h : e ∈ entries env r) :
    Covers env r e.key ∧ e.candidate.observation = e.row.record ∧
      e.key.property = e.row.record.property ∧
        e.key.qualifierKey = qualifierKey env e.row.record.qualifiers := by
  obtain ⟨row, -, hrow⟩ := List.mem_filterMap.mp h
  obtain ⟨hcovers, rfl, hcandidate, hproperty, hqualifiers⟩ := entryOf_spec hrow
  exact ⟨hcovers, hcandidate, hproperty, hqualifiers⟩

/-- The group of a key. -/
def groupOf (env : RefreshEnv J) (r : Refresh J) (key : GroupKey) : Group J :=
  ⟨key, (entries env r).filter fun e => decide (e.key = key)⟩

/-- The candidates that are public. -/
def publicEntries (env : RefreshEnv J) (r : Refresh J) : List (Entry J) :=
  (entries env r).filter fun e => isPublicReading env r e.candidate.observation

/-- The public candidates of a group. -/
def publicGroup (env : RefreshEnv J) (r : Refresh J) (key : GroupKey) : Group J :=
  ⟨key, (publicEntries env r).filter fun e => decide (e.key = key)⟩

/-- The public candidates of a group are those of its candidates that are public. -/
theorem publicGroup_entries {key : GroupKey} :
    (publicGroup env r key).entries =
      (groupOf env r key).entries.filter fun e => isPublicReading env r e.candidate.observation := by
  unfold publicGroup publicEntries groupOf
  rw [List.filter_filter, List.filter_filter]
  exact List.filter_congr fun e _ => Bool.and_comm _ _

/-! ## One row -/

/-- What a fusion shows at a place. -/
def shownAt (env : RefreshEnv J) (f : Fusion J) (location : J) : Shown :=
  { result := env.fusion.jcs f.winner.observation.result
    phenomenonTime := f.winner.observation.phenomenonTime
    validUntil := f.winner.observation.validUntil
    derivedFrom := f.contributors.map fun c => c.observation.id
    mergedSources := f.contributors.map fun c =>
      (mergedSourceOf c.observation).mapJson env.fusion.jcs
    location := env.fusion.jcs location }

/-- Since when a fusion shows its value, written over a row. -/
def sinceFrom (env : RefreshEnv J) (prev : Option (FusedRow J)) (f : Fusion J) : Instant :=
  sinceOf env prev f.winner.observation.result (startOf f.winner.observation)

/-- What a row shows is what is compared of it. -/
theorem viewOf_congr {row row' : FusedRow J} (h : comparable env row = comparable env row') :
    viewOf env row = viewOf env row' := by
  obtain ⟨hrecord, hsince⟩ := Prod.mk.inj h
  have hresult := congrArg FusedDraft.result hrecord
  have htime := congrArg FusedDraft.phenomenonTime hrecord
  have hvalid := congrArg FusedDraft.validUntil hrecord
  have hderived := congrArg FusedDraft.derivedFrom hrecord
  have hmerged := congrArg FusedDraft.mergedSources hrecord
  have hlocation := congrArg FusedDraft.location hrecord
  dsimp only [FusedDraft.mapJson] at hresult htime hvalid hderived hmerged hlocation
  unfold viewOf shownOf
  rw [hresult, htime, hvalid, hderived, hmerged, hlocation, hsince]

/-- A row that is left alone shows what the new row shows, under the same flag. -/
theorem settle_spec (env : RefreshEnv J) (prev : Option (FusedRow J)) (row : FusedRow J) :
    viewOf env (settle env prev row) = viewOf env row ∧
      (settle env prev row).fusedPublic = row.fusedPublic ∧
        (prev = some (settle env prev row) ∨ settle env prev row = row) := by
  cases prev with
  | none => exact ⟨rfl, rfl, Or.inr rfl⟩
  | some held =>
    unfold settle
    dsimp only
    by_cases hsame : held.fusedPublic = row.fusedPublic ∧ comparable env held = comparable env row
    · rw [if_pos hsame]
      exact ⟨viewOf_congr hsame.2, hsame.1, Or.inl rfl⟩
    · rw [if_neg hsame]
      exact ⟨rfl, rfl, Or.inr rfl⟩

/-- The public candidates of a group are those of its candidates that are public. -/
theorem publicGroup_candidates {key : GroupKey} :
    (publicGroup env r key).entries.map Entry.candidate =
      ((groupOf env r key).entries.map Entry.candidate).filter fun c =>
        isPublicReading env r c.observation := by
  rw [publicGroup_entries, List.filter_map]
  rfl

/-- What fuses in a group is of the group's property and qualifiers. -/
theorem winner_keyed {key : GroupKey} {es : List (Entry J)} {f : Fusion J}
    (hes : ∀ e ∈ es, e ∈ (groupOf env r key).entries)
    (h : fuse env.fusion key.property (es.map Entry.candidate) r.now.instant = .ok (some f)) :
    f.winner.observation.property = key.property ∧
      qualifierKey env f.winner.observation.qualifiers = key.qualifierKey := by
  obtain ⟨hmem, hproperty, -⟩ := winner_mem h
  obtain ⟨e, he, hwinner⟩ := List.mem_map.mp hmem
  obtain ⟨hentry, hkey⟩ := List.mem_filter.mp (hes e he)
  obtain ⟨-, hobservation, -, hqualifiers⟩ := entries_spec hentry
  refine ⟨hproperty, ?_⟩
  rw [← hwinner, hobservation, ← hqualifiers, of_decide_eq_true hkey]

/-- The two rows of a series are told apart. -/
theorem series_at_ne (s : FusedSeries) : s.at fusedSourceId ≠ s.at fusedPublicSourceId := by
  intro h
  have hsource : fusedSourceId = fusedPublicSourceId := congrArg HeldKey.sourceId h
  revert hsource
  decide

/-- A fused row that is marked public is what the public scope reads. -/
theorem publicRow_of_public {t : FusedTable J} {s : FusedSeries} {row : FusedRow J}
    (h : t (s.at fusedSourceId) = some row) (hpublic : row.fusedPublic = some true) :
    publicRow t s = some row := by
  unfold publicRow
  rw [h]
  exact if_pos hpublic

/-- Where the fused row is not marked public, the public scope reads the public fusion. -/
theorem publicRow_of_private {t : FusedTable J} {s : FusedSeries}
    (h : ∀ row, t (s.at fusedSourceId) = some row → row.fusedPublic ≠ some true) :
    publicRow t s = t (s.at fusedPublicSourceId) := by
  unfold publicRow
  cases hrow : t (s.at fusedSourceId) with
  | none => rfl
  | some row => exact if_neg (h row hrow)

/-- A group of a refresh is one that it covers. -/
theorem mem_groups {g : Group J} (hg : g ∈ groups env r) :
    ∃ key, g = groupOf env r key ∧ Covers env r key := by
  obtain ⟨key, hkey, rfl⟩ := List.mem_map.mp hg
  obtain ⟨e, he, rfl⟩ := List.mem_map.mp (List.mem_dedup.mp hkey)
  exact ⟨e.key, rfl, (entries_spec he).1⟩

/-- The keys of a series are told by the series. -/
theorem series_of_at {s s' : FusedSeries} {a b : String} (h : s.at a = s'.at b) : s = s' := by
  have hsubject := congrArg HeldKey.subjectKey h
  have hproperty := congrArg HeldKey.property h
  have hqualifiers := congrArg HeldKey.qualifierKey h
  cases s
  cases s'
  simp_all [FusedSeries.at]

/-- A group without candidates is none. -/
theorem entries_of_not_mem_groups {key : GroupKey} (h : groupOf env r key ∉ groups env r) :
    (groupOf env r key).entries = [] := by
  refine List.filter_eq_nil_iff.mpr fun e he hkey => h ?_
  have hkey : e.key = key := of_decide_eq_true hkey
  exact List.mem_map.mpr ⟨key, List.mem_dedup.mpr (List.mem_map.mpr ⟨e, he, hkey⟩), rfl⟩

/-- A row of a keyed table that stands under a covered group's series is about its cluster. -/
theorem Keyed.featureId (ht : Keyed t) {key : GroupKey} (hkey : Covers env r key)
    {sourceId : String} {row : FusedRow J} (hrow : t (key.series.at sourceId) = some row) :
    row.featureId = key.canonical.canonicalFeatureId := by
  obtain ⟨hsubject, hplain⟩ := ht _ _ hrow
  exact (subjectKey_inj (r.canonical_plain _ hkey.canonical) hplain hsubject).1.symm

/-- The rows of a covered group are read. -/
theorem existing_eq (ht : Keyed t) {key : GroupKey} (hkey : Covers env r key) (sourceId : String) :
    existing r t (key.series.at sourceId) = t (key.series.at sourceId) := by
  unfold existing
  cases hrow : t (key.series.at sourceId) with
  | none => rfl
  | some row =>
    have hmem : row.featureId ∈ r.canonical.map CanonicalRow.canonicalFeatureId := by
      rw [ht.featureId hkey hrow]
      exact List.mem_map_of_mem hkey.canonical
    simp [Option.filter, hmem]

/-- The row that a series is left with. -/
def keptRow (kept : List (HeldKey × FusedRow J)) (k : HeldKey) : Option (FusedRow J) :=
  (kept.find? fun e => decide (e.1 = k)).map Prod.snd

/-- A refresh leaves of a covered group's series what the group leaves. -/
theorem refresh_covered (ht : Keyed t) {keep : List (HeldKey × FusedRow J)} {key : GroupKey}
    (hkey : Covers env r key) {sourceId : String}
    (ht' : t' (key.series.at sourceId) = (keptRow keep (key.series.at sourceId)).or
      (if (existing r t (key.series.at sourceId)).any fun row =>
        inScope env r row.featureId (key.series.at sourceId).property then none
          else t (key.series.at sourceId))) :
    t' (key.series.at sourceId) = keptRow keep (key.series.at sourceId) := by
  rw [ht', existing_eq ht hkey]
  cases hrow : t (key.series.at sourceId) with
  | none => simp
  | some row =>
    have hscope : inScope env r row.featureId (key.series.at sourceId).property = true := by
      rw [ht.featureId hkey hrow]
      exact hkey.inScope
    simp [hscope]

/-! ## Writing -/

section Write

variable [DecidableEq J]

/-- The row of a public candidate is found among the public ones. -/
theorem rowOf_public {key : GroupKey} {c : FusionCandidate J}
    (hc : isPublicReading env r c.observation = true) :
    (groupOf env r key).rowOf c = (publicGroup env r key).rowOf c := by
  unfold Group.rowOf
  rw [publicGroup_entries, List.find?_filter]
  congr 1
  refine List.find?_congr fun e _ => ?_
  cases heq : decide (e.candidate = c) with
  | false => simp
  | true => simp [of_decide_eq_true heq, hc]

/-- The public fusion of a group. -/
def publicFusion (env : RefreshEnv J) (r : Refresh J) (key : GroupKey) : Option (Fusion J) :=
  (fuse env.fusion key.property ((publicGroup env r key).entries.map Entry.candidate)
    r.now.instant).toOption.join

/-- The public fusion of a group, and its place. -/
def publicShown (env : RefreshEnv J) (r : Refresh J) (key : GroupKey) : Option (Fusion J × J) :=
  (publicFusion env r key).bind fun f =>
    (locationOf env r key.canonical ((publicGroup env r key).rowOf f.winner) true).map fun location =>
      (f, location)

/-- The sentinel id that a group's public fusion is written under. -/
def writtenUnder (env : RefreshEnv J) (r : Refresh J) (key : GroupKey) : String :=
  match fuse env.fusion key.property ((groupOf env r key).entries.map Entry.candidate)
      r.now.instant with
  | .ok (some f) =>
    if f.contributors.all fun c => isPublicReading env r c.observation then fusedSourceId
    else fusedPublicSourceId
  | _ => fusedPublicSourceId

/-- Where a fusion of a group is written. -/
def placeOf (env : RefreshEnv J) (r : Refresh J) (g : Group J) (f : Fusion J) (sourceId : String)
    (allPublic : Bool) : Option J :=
  (if allPublic then locationOf env r g.key.canonical (g.rowOf f.winner) true else none) <|>
    if sourceId = fusedSourceId then locationOf env r g.key.canonical (g.rowOf f.winner) false
    else none

/-- A public fusion is written at its public place. -/
theorem placeOf_public {key : GroupKey} {f : Fusion J} {sourceId : String} {location : J}
    (h : locationOf env r key.canonical ((groupOf env r key).rowOf f.winner) true = some location) :
    placeOf env r (groupOf env r key) f sourceId true = some location := by
  unfold placeOf
  rw [if_pos rfl]
  exact congrArg (· <|> _) h

/-- Without a public place the public fusion alone has none. -/
theorem placeOf_public_none {key : GroupKey} {f : Fusion J}
    (h : locationOf env r key.canonical ((groupOf env r key).rowOf f.winner) true = none) :
    placeOf env r (groupOf env r key) f fusedPublicSourceId true = none := by
  unfold placeOf
  rw [if_pos rfl, if_neg (by decide)]
  exact congrArg (· <|> none) h

/-- The row of a record stands under its series, shows the record and has the flag; it is the row
before it or about the group's subject. -/
theorem fusedRowOf_spec {held : FusedTable J} {g : Group J} {f : Fusion J} {record : FusedDraft J}
    {sourceId : String} (hsource : record.sourceId = sourceId)
    (hproperty : record.property = g.key.property)
    (hqualifiers : qualifierKey env record.qualifiers = g.key.qualifierKey) (fusedPublic : Bool) :
    ∃ row, fusedRowOf env held g f fusedPublic record = (g.key.series.at sourceId, row) ∧
      viewOf env row = ⟨shownOf env record, sinceOf env (held (g.key.series.at sourceId))
        record.result record.phenomenonTime.startInstant⟩ ∧
      row.fusedPublic = some fusedPublic ∧
      (held (g.key.series.at sourceId) = some row ∨
        (row.featureId = g.key.canonical.canonicalFeatureId ∧
          row.componentKey = g.key.componentKey)) := by
  have hkey : (⟨record.sourceId,
      subjectKey g.key.canonical.canonicalFeatureId g.key.componentKey, record.property,
      qualifierKey env record.qualifiers⟩ : HeldKey) = g.key.series.at sourceId := by
    rw [hsource, hproperty, hqualifiers]
    rfl
  unfold fusedRowOf
  dsimp only
  rw [hkey]
  refine ⟨_, rfl, ?_⟩
  obtain ⟨hview, hpublic, hkept⟩ := settle_spec env (held (g.key.series.at sourceId))
    { featureId := g.key.canonical.canonicalFeatureId
      componentKey := g.key.componentKey
      record := record
      sinceAt := sinceOf env (held (g.key.series.at sourceId)) record.result
        record.phenomenonTime.startInstant
      fusedFrom := f.contributors.map fun c => c.observation.id
      fusedSources := (OrderedSet.ofList (f.contributors.filterMap fun c =>
        (g.rowOf c).map fun row => row.record.provenance.sourceId)).members
      fusedPublic := some fusedPublic }
  refine ⟨hview, hpublic, hkept.imp id fun hnew => ?_⟩
  rw [hnew]
  exact ⟨rfl, rfl⟩

/-- **What a fusion leaves**: nothing where it has no place, else the row of its series that shows
it, public where its place is. -/
theorem write_spec {held : FusedTable J} {g : Group J} {f : Fusion J} {sourceId : String}
    {allPublic : Bool} {result : Option (HeldKey × FusedRow J)}
    (hproperty : f.winner.observation.property = g.key.property)
    (hqualifiers : qualifierKey env f.winner.observation.qualifiers = g.key.qualifierKey)
    (h : write env r held g f sourceId allPublic = .ok result) :
    (placeOf env r g f sourceId allPublic = none ∧ result = none) ∨
      ∃ location row, placeOf env r g f sourceId allPublic = some location ∧
        result = some (g.key.series.at sourceId, row) ∧
        viewOf env row =
          ⟨shownAt env f location, sinceFrom env (held (g.key.series.at sourceId)) f⟩ ∧
        row.fusedPublic = some (if allPublic then
          locationOf env r g.key.canonical (g.rowOf f.winner) true else none).isSome ∧
        (held (g.key.series.at sourceId) = some row ∨
          (row.featureId = g.key.canonical.canonicalFeatureId ∧
            row.componentKey = g.key.componentKey)) := by
  unfold write at h
  dsimp only at h
  unfold placeOf
  cases hplace : ((if allPublic = true then locationOf env r g.key.canonical (g.rowOf f.winner) true
      else none) <|> if sourceId = fusedSourceId then
        locationOf env r g.key.canonical (g.rowOf f.winner) false else none) with
  | none =>
    rw [hplace] at h
    exact Or.inl ⟨rfl, (Except.ok.inj h).symm⟩
  | some location =>
    rw [hplace] at h
    dsimp only at h
    refine Or.inr ⟨location, ?_⟩
    split at h
    · cases h
    · cases h
    · rename_i draft hdraft
      split at h
      · cases h
      · rename_i record hrecord
        obtain rfl := env.model.validateDraft_value _ _ hrecord
        obtain ⟨id, recordId, rfl⟩ := fusedObservation_eq hdraft
        obtain rfl := Except.ok.inj h
        obtain ⟨row, hrow, hview, hpublic, hkept⟩ := @fusedRowOf_spec _ env _ held g f
          { fusedDraft f ⟨.feature g.key.canonical.canonicalFeatureId g.key.componentKey, location,
              r.instanceId, r.now, some sourceId⟩ with id := id, recordId := recordId }
          sourceId rfl hproperty hqualifiers _
        refine ⟨row, rfl, congrArg some hrow, hview.trans ?_, hpublic, hkept⟩
        have hmerged : ((f.contributors.map FusionCandidate.observation).map mergedSourceOf).map
            (MergedSource.mapJson env.fusion.jcs) = f.contributors.map fun c =>
              (mergedSourceOf c.observation).mapJson env.fusion.jcs := by
          simp [Function.comp_def]
        have hderived : (f.contributors.map FusionCandidate.observation).map FusableObservation.id =
            f.contributors.map fun c => c.observation.id := by
          simp [Function.comp_def]
        unfold shownOf shownAt sinceFrom fusedDraft startOf
        dsimp only
        rw [hmerged, hderived]

/-! ## One group -/

/-- What a group's rows are to the public scope: the public fusion at its place, shown since what
the row says that it is written over. -/
def shows (env : RefreshEnv J) (r : Refresh J) (key : GroupKey) (held : FusedTable J) :
    Option PublicView :=
  (publicShown env r key).map fun s =>
    ⟨shownAt env s.1 s.2, sinceFrom env (held (key.series.at (writtenUnder env r key))) s.1⟩

/-- The rows that a group is left with stand under its series. -/
def OfGroup (key : GroupKey) (held : FusedTable J) (kept : List (HeldKey × FusedRow J)) : Prop :=
  ∀ e ∈ kept, (∃ sourceId, e.1 = key.series.at sourceId) ∧
    (held e.1 = some e.2 ∨
      (e.2.featureId = key.canonical.canonicalFeatureId ∧ e.2.componentKey = key.componentKey))

/-- What a fusion leaves stands under its group's series. -/
theorem ofGroup_write {key : GroupKey} {held : FusedTable J} {f : Fusion J} {sourceId : String}
    {allPublic : Bool} {result : Option (HeldKey × FusedRow J)}
    (hproperty : f.winner.observation.property = key.property)
    (hqualifiers : qualifierKey env f.winner.observation.qualifiers = key.qualifierKey)
    (h : write env r held (groupOf env r key) f sourceId allPublic = .ok result) :
    OfGroup key held result.toList := by
  rcases write_spec (g := groupOf env r key) hproperty hqualifiers h with
    ⟨-, rfl⟩ | ⟨location, row, -, rfl, -, -, hkept⟩
  · intro e he
    cases he
  · intro e he
    obtain rfl := List.mem_singleton.mp he
    exact ⟨⟨sourceId, rfl⟩, hkept⟩

/-- The row of the public fusion, where all contributors are public. -/
theorem publicView_of_allPublic {key : GroupKey} {held t' : FusedTable J} {f : Fusion J}
    {full : Option (HeldKey × FusedRow J)} (hlocale : Sorting.OrdersBy env.fusion.localeLe)
    (hfuse : fuse env.fusion key.property ((groupOf env r key).entries.map Entry.candidate)
      r.now.instant = .ok (some f))
    (hall : (f.contributors.all fun c => isPublicReading env r c.observation) = true)
    (hfull : write env r held (groupOf env r key) f fusedSourceId true = .ok full)
    (ht' : ∀ sourceId, t' (key.series.at sourceId) =
      keptRow full.toList (key.series.at sourceId)) :
    publicView env t' key.series = shows env r key held := by
  obtain ⟨hproperty, hqualifiers⟩ := winner_keyed (fun _ h => h) hfuse
  obtain ⟨-, -, hcontributes⟩ := winner_mem hfuse
  have hpublic := List.all_eq_true.mp hall
  have hfusion : publicFusion env r key = some f := by
    unfold publicFusion
    rw [publicGroup_candidates, fuse_filter_of_contributors hlocale hfuse hpublic]
    rfl
  have hunder : writtenUnder env r key = fusedSourceId := by
    unfold writtenUnder
    rw [hfuse]
    exact if_pos hall
  have hrow : (groupOf env r key).rowOf f.winner = (publicGroup env r key).rowOf f.winner :=
    rowOf_public (hpublic _ hcontributes)
  unfold shows publicShown
  rw [hfusion, hunder, Option.bind_some, ← hrow]
  have hspec := write_spec (g := groupOf env r key) hproperty hqualifiers hfull
  cases hlocation : locationOf env r key.canonical ((groupOf env r key).rowOf f.winner) true with
  | none =>
    -- the row, if there is one, stays with the operator
    have hother : t' (key.series.at fusedPublicSourceId) = none := by
      rw [ht']
      rcases hspec with ⟨-, rfl⟩ | ⟨location, row, -, rfl, -, -, -⟩
      · rfl
      · simp [keptRow, groupOf, series_at_ne]
    have hprivate : ∀ row, t' (key.series.at fusedSourceId) = some row →
        row.fusedPublic ≠ some true := by
      intro row' hrow'
      rw [ht'] at hrow'
      rcases hspec with ⟨-, rfl⟩ | ⟨location, row, -, rfl, -, hflag, -⟩
      · cases hrow'
      · have hflag : row.fusedPublic = some (locationOf env r key.canonical
            ((groupOf env r key).rowOf f.winner) true).isSome := hflag
        have heq : row = row' := by simpa [keptRow, groupOf] using hrow'
        rw [← heq, hflag, hlocation]
        simp
    unfold publicView
    rw [publicRow_of_private hprivate, hother]
    rfl
  | some location =>
    rcases hspec with ⟨hplace, -⟩ | ⟨location', row, hplace, rfl, hview, hflag, -⟩
    · rw [placeOf_public hlocation] at hplace
      cases hplace
    · rw [placeOf_public hlocation] at hplace
      obtain rfl := Option.some.inj hplace
      have hflag : row.fusedPublic = some (locationOf env r key.canonical
          ((groupOf env r key).rowOf f.winner) true).isSome := hflag
      rw [hlocation] at hflag
      have hheld : t' (key.series.at fusedSourceId) = some row := by
        rw [ht']
        simp [keptRow, groupOf]
      unfold publicView
      rw [publicRow_of_public hheld hflag, Option.map_some, hview]
      rfl

/-- A fusion that not all contributors of are public leaves nothing to the public scope. -/
theorem keptRow_of_not_allPublic {key : GroupKey} {held : FusedTable J} {f : Fusion J}
    {full : Option (HeldKey × FusedRow J)} {rest : List (HeldKey × FusedRow J)}
    (hfuse : fuse env.fusion key.property ((groupOf env r key).entries.map Entry.candidate)
      r.now.instant = .ok (some f))
    (hfull : write env r held (groupOf env r key) f fusedSourceId false = .ok full)
    (hrest : keptRow rest (key.series.at fusedSourceId) = none) :
    (∀ row, keptRow (full.toList ++ rest) (key.series.at fusedSourceId) = some row →
      row.fusedPublic ≠ some true) ∧
    keptRow (full.toList ++ rest) (key.series.at fusedPublicSourceId) =
      keptRow rest (key.series.at fusedPublicSourceId) := by
  obtain ⟨hproperty, hqualifiers⟩ := winner_keyed (fun _ h => h) hfuse
  rcases write_spec (g := groupOf env r key) hproperty hqualifiers hfull with
    ⟨-, rfl⟩ | ⟨location, row, -, rfl, -, hflag, -⟩
  · refine ⟨fun row hrow => ?_, rfl⟩
    rw [Option.toList_none, List.nil_append, hrest] at hrow
    cases hrow
  · refine ⟨fun row' hrow' => ?_, ?_⟩
    · have heq : row = row' := by simpa [keptRow, groupOf] using hrow'
      rw [← heq, hflag]
      simp
    · simp [keptRow, groupOf, series_at_ne]

/-- The row of the public fusion beside a fusion that not all contributors of are public. -/
theorem publicView_of_not_allPublic {key : GroupKey} {held t' : FusedTable J}
    {f publicFused : Fusion J} {full public_ : Option (HeldKey × FusedRow J)}
    (hfuse : fuse env.fusion key.property ((groupOf env r key).entries.map Entry.candidate)
      r.now.instant = .ok (some f))
    (hall : (f.contributors.all fun c => isPublicReading env r c.observation) = false)
    (hfull : write env r held (groupOf env r key) f fusedSourceId false = .ok full)
    (hpublicFuse : fuse env.fusion key.property
      ((publicGroup env r key).entries.map Entry.candidate) r.now.instant = .ok (some publicFused))
    (hpublic : write env r held (groupOf env r key) publicFused fusedPublicSourceId true =
      .ok public_)
    (ht' : ∀ sourceId, t' (key.series.at sourceId) =
      keptRow (full.toList ++ public_.toList) (key.series.at sourceId)) :
    publicView env t' key.series = shows env r key held := by
  have hfusion : publicFusion env r key = some publicFused := by
    unfold publicFusion
    rw [hpublicFuse]
    rfl
  have hunder : writtenUnder env r key = fusedPublicSourceId := by
    unfold writtenUnder
    rw [hfuse]
    exact if_neg (by simp [hall])
  have hmem : ∀ e ∈ (publicGroup env r key).entries, e ∈ (groupOf env r key).entries := by
    intro e he
    rw [publicGroup_entries] at he
    exact List.mem_of_mem_filter he
  obtain ⟨hproperty, hqualifiers⟩ := winner_keyed hmem hpublicFuse
  have hreading : isPublicReading env r publicFused.winner.observation = true := by
    obtain ⟨hwinner, -, -⟩ := winner_mem hpublicFuse
    rw [publicGroup_candidates] at hwinner
    exact (List.mem_filter.mp hwinner).2
  have hspec := write_spec (g := groupOf env r key) hproperty hqualifiers hpublic
  have hnone : keptRow public_.toList (key.series.at fusedSourceId) = none := by
    rcases hspec with ⟨-, rfl⟩ | ⟨location, row, -, rfl, -, -, -⟩
    · rfl
    · simp [keptRow, groupOf, (series_at_ne key.series).symm]
  obtain ⟨hprivate, hheld⟩ := keptRow_of_not_allPublic hfuse hfull hnone
  rw [← ht'] at hprivate hheld
  unfold shows publicShown publicView
  rw [publicRow_of_private hprivate, hheld, hfusion, hunder, Option.bind_some,
    ← rowOf_public hreading]
  cases hlocation : locationOf env r key.canonical
      ((groupOf env r key).rowOf publicFused.winner) true with
  | none =>
    rcases hspec with ⟨-, rfl⟩ | ⟨location, row, hplace, -, -, -, -⟩
    · rfl
    · rw [placeOf_public_none hlocation] at hplace
      cases hplace
  | some location =>
    rcases hspec with ⟨hplace, -⟩ | ⟨location', row, hplace, rfl, hview, -, -⟩
    · rw [placeOf_public hlocation] at hplace
      cases hplace
    · rw [placeOf_public hlocation] at hplace
      obtain rfl := Option.some.inj hplace
      have hrow : keptRow [((groupOf env r key).key.series.at fusedPublicSourceId, row)]
          (key.series.at fusedPublicSourceId) = some row := by simp [keptRow, groupOf]
      exact (congrArg (Option.map (viewOf env)) hrow).trans (congrArg some hview)

/-- **What the public scope sees of a group**: the public fusion at its place. -/
theorem fuseGroup_spec {key : GroupKey} {held : FusedTable J}
    {kept : List (HeldKey × FusedRow J)} (hlocale : Sorting.OrdersBy env.fusion.localeLe)
    (h : fuseGroup env r held (groupOf env r key) = .ok kept) :
    OfGroup key held kept ∧ ∀ t' : FusedTable J,
      (∀ sourceId, t' (key.series.at sourceId) = keptRow kept (key.series.at sourceId)) →
        publicView env t' key.series = shows env r key held := by
  unfold fuseGroup at h
  have hcandidates : ((groupOf env r key).entries.filter fun e =>
      isPublicReading env r e.candidate.observation).map Entry.candidate =
        (publicGroup env r key).entries.map Entry.candidate := by
    rw [publicGroup_entries]
  rw [hcandidates] at h
  dsimp only at h
  split at h
  · cases h
  · rename_i hfuse
    obtain rfl := Except.ok.inj h
    have hfuse : fuse env.fusion key.property ((groupOf env r key).entries.map Entry.candidate)
        r.now.instant = .ok none := hfuse
    refine ⟨fun e he => (List.not_mem_nil he).elim, fun t' ht' => ?_⟩
    have hfusion : publicFusion env r key = none := by
      unfold publicFusion
      rw [publicGroup_candidates, fuse_filter_none hlocale hfuse]
      rfl
    have hempty : publicRow t' key.series = none := by
      rw [publicRow_of_private fun row hrow => by simp [ht', keptRow] at hrow, ht']
      rfl
    unfold publicView shows publicShown
    rw [hempty, hfusion]
    rfl
  · rename_i f hfuse
    have hfuse : fuse env.fusion key.property ((groupOf env r key).entries.map Entry.candidate)
        r.now.instant = .ok (some f) := hfuse
    obtain ⟨hproperty, hqualifiers⟩ := winner_keyed (fun _ h => h) hfuse
    split at h
    · cases h
    · rename_i full hfull
      split at h
      · rename_i hall
        obtain rfl := Except.ok.inj h
        refine ⟨ofGroup_write hproperty hqualifiers hfull, fun t' ht' => ?_⟩
        rw [hall] at hfull
        exact publicView_of_allPublic hlocale hfuse hall hfull ht'
      · rename_i hall
        have hall := Bool.eq_false_iff.mpr hall
        split at h
        · cases h
        · rename_i hpublicFuse
          obtain rfl := Except.ok.inj h
          rw [hall] at hfull
          refine ⟨ofGroup_write hproperty hqualifiers hfull, fun t' ht' => ?_⟩
          have hfusion : publicFusion env r key = none := by
            unfold publicFusion
            rw [show fuse env.fusion key.property _ _ = _ from hpublicFuse]
            rfl
          have hnone : keptRow ([] : List (HeldKey × FusedRow J)) (key.series.at fusedSourceId) =
              none := rfl
          obtain ⟨hprivate, hheld⟩ := keptRow_of_not_allPublic hfuse hfull hnone
          rw [List.append_nil] at hprivate hheld
          rw [← ht'] at hprivate hheld
          unfold shows publicShown publicView
          rw [publicRow_of_private hprivate, hheld, hfusion]
          rfl
        · rename_i publicFused hpublicFuse
          split at h
          · cases h
          · rename_i public_ hpublic
            obtain rfl := Except.ok.inj h
            rw [hall] at hfull
            have hmem : ∀ e ∈ (publicGroup env r key).entries, e ∈ (groupOf env r key).entries := by
              intro e he
              rw [publicGroup_entries] at he
              exact List.mem_of_mem_filter he
            obtain ⟨hproperty', hqualifiers'⟩ := winner_keyed hmem hpublicFuse
            refine ⟨fun e he => ?_, fun t' ht' =>
              publicView_of_not_allPublic hfuse hall hfull hpublicFuse hpublic ht'⟩
            rcases List.mem_append.mp he with he | he
            · exact ofGroup_write hproperty hqualifiers hfull e he
            · exact ofGroup_write hproperty' hqualifiers' hpublic e he

end Write

/-! ## A refresh -/

section Refresh

variable [DecidableEq J]

/-- The rows that a group is left with, none where it fails. -/
def keptOf (env : RefreshEnv J) (r : Refresh J) (held : FusedTable J) (g : Group J) :
    List (HeldKey × FusedRow J) :=
  ((fuseGroup env r held g).toOption).getD []

/-- The rows that a group is left with. -/
theorem keptOf_eq {held : FusedTable J} {g : Group J} {kept : List (HeldKey × FusedRow J)}
    (h : fuseGroup env r held g = .ok kept) : keptOf env r held g = kept := by
  unfold keptOf
  rw [h]
  rfl

/-- The rows of all groups are those of each, where none fails. -/
theorem fuseGroups_spec {held : FusedTable J} {gs : List (Group J)} :
    ∀ {keep : List (HeldKey × FusedRow J)}, fuseGroups env r held gs = .ok keep →
      (∀ g ∈ gs, fuseGroup env r held g = .ok (keptOf env r held g)) ∧
        keep = gs.flatMap (keptOf env r held) := by
  induction gs with
  | nil =>
    intro keep h
    obtain rfl := Except.ok.inj h
    exact ⟨fun g hg => (List.not_mem_nil hg).elim, rfl⟩
  | cons g gs ih =>
    intro keep h
    unfold fuseGroups at h
    cases hg : fuseGroup env r held g with
    | error e => simp [hg] at h
    | ok first =>
      cases hgs : fuseGroups env r held gs with
      | error e => simp [hg, hgs] at h
      | ok rest =>
        obtain ⟨hkept, rfl⟩ := ih hgs
        rw [hg, hgs] at h
        obtain rfl := Except.ok.inj h
        rw [List.flatMap_cons, keptOf_eq hg]
        refine ⟨fun g' hg' => ?_, rfl⟩
        rcases List.mem_cons.mp hg' with rfl | hg'
        · rw [hg, keptOf_eq hg]
        · exact hkept g' hg'

/-- A row is found among those of the one group that can hold it. -/
theorem keptRow_flatMap {gs : List (Group J)} {kept : Group J → List (HeldKey × FusedRow J)}
    {k : HeldKey} {g : Group J} (hg : g ∈ gs) (hother : ∀ g' ∈ gs, g' ≠ g → keptRow (kept g') k = none) :
    keptRow (gs.flatMap kept) k = keptRow (kept g) k := by
  induction gs with
  | nil => cases hg
  | cons g' gs ih =>
    unfold keptRow at hother ih ⊢
    rw [List.flatMap_cons, List.find?_append]
    by_cases heq : g' = g
    · subst heq
      cases hfound : (kept g').find? fun e => decide (e.1 = k) with
      | some e => rfl
      | none =>
        by_cases hmem : g' ∈ gs
        · rw [Option.none_or, ih hmem fun g'' hg'' => hother g'' (List.mem_cons_of_mem _ hg''), hfound]
        · have hrest : (gs.flatMap kept).find? (fun e => decide (e.1 = k)) = none := by
            rw [List.find?_flatMap, List.findSome?_eq_none_iff]
            intro g'' hg''
            exact Option.map_eq_none_iff.mp (hother g'' (List.mem_cons_of_mem _ hg'')
              fun h => hmem (h ▸ hg''))
          rw [Option.none_or, hrest]
    · have hnone := Option.map_eq_none_iff.mp (hother g' (List.mem_cons_self ..) heq)
      rw [hnone, Option.none_or]
      refine ih ?_ fun g'' hg'' => hother g'' (List.mem_cons_of_mem _ hg'')
      exact (List.mem_cons.mp hg).resolve_left (Ne.symm heq)

variable {keep : List (HeldKey × FusedRow J)}

/-- What the groups leave of a covered group's series is what the group leaves. -/
theorem keptRow_groups (hlocale : Sorting.OrdersBy env.fusion.localeLe) {held : FusedTable J}
    (hkeep : fuseGroups env r held (groups env r) = .ok keep) {key : GroupKey}
    (hkey : Covers env r key) (sourceId : String) :
    keptRow keep (key.series.at sourceId) =
      if groupOf env r key ∈ groups env r then
        keptRow (keptOf env r held (groupOf env r key)) (key.series.at sourceId)
      else none := by
  obtain ⟨hgroups, rfl⟩ := fuseGroups_spec hkeep
  have hother : ∀ g ∈ groups env r, g ≠ groupOf env r key →
      keptRow (keptOf env r held g) (key.series.at sourceId) = none := by
    intro g hg hne
    obtain ⟨key', rfl, hkey'⟩ := mem_groups hg
    obtain ⟨hof, -⟩ := fuseGroup_spec hlocale (hgroups _ hg)
    unfold keptRow
    rw [Option.map_eq_none_iff, List.find?_eq_none]
    intro e he heq
    obtain ⟨⟨sourceId', hseries⟩, -⟩ := hof e he
    rw [hseries, decide_eq_true_eq] at heq
    exact hne (congrArg (groupOf env r) (hkey'.series_inj hkey (series_of_at heq)))
  by_cases hmem : groupOf env r key ∈ groups env r
  · rw [if_pos hmem]
    exact keptRow_flatMap hmem hother
  · rw [if_neg hmem]
    unfold keptRow
    rw [Option.map_eq_none_iff, List.find?_flatMap, List.findSome?_eq_none_iff]
    intro g hg
    exact Option.map_eq_none_iff.mp (hother g hg fun h => hmem (h ▸ hg))

/-- What a refresh leaves. -/
theorem refreshCanonical_spec (h : refreshCanonical env r t = .ok t') :
    ∃ keep, fuseGroups env r (existing r t) (groups env r) = .ok keep ∧
      ∀ k, t' k = (keptRow keep k).or
        (if (existing r t k).any fun row => inScope env r row.featureId k.property then none
          else t k) := by
  unfold refreshCanonical at h
  cases hkeep : fuseGroups env r (existing r t) (groups env r) with
  | error e => simp [hkeep] at h
  | ok keep =>
    rw [hkeep] at h
    obtain rfl := Except.ok.inj h
    refine ⟨keep, rfl, fun k => ?_⟩
    unfold keptRow
    dsimp only
    cases keep.find? fun e => decide (e.1 = k) <;> rfl

/-- **What the public scope sees of a group that a refresh covers**: the public fusion at its
place, since what the row says that it is written over. -/
theorem publicView_refresh (ht : Keyed t) (hlocale : Sorting.OrdersBy env.fusion.localeLe)
    (h : refreshCanonical env r t = .ok t') {key : GroupKey} (hkey : Covers env r key) :
    publicView env t' key.series = shows env r key t := by
  obtain ⟨keep, hkeep, hrows⟩ := refreshCanonical_spec h
  have hcovered : ∀ sourceId, t' (key.series.at sourceId) =
      keptRow keep (key.series.at sourceId) := fun sourceId =>
    refresh_covered ht hkey (hrows _)
  have hheld : shows env r key (existing r t) = shows env r key t := by
    unfold shows
    rw [existing_eq ht hkey]
  by_cases hmem : groupOf env r key ∈ groups env r
  · have hgroup := (fuseGroups_spec hkeep).1 _ hmem
    rw [← hheld]
    refine (fuseGroup_spec hlocale hgroup).2 t' fun sourceId => ?_
    rw [hcovered, keptRow_groups hlocale hkeep hkey, if_pos hmem]
  · have hnone : ∀ sourceId, t' (key.series.at sourceId) = none := fun sourceId => by
      rw [hcovered, keptRow_groups hlocale hkeep hkey, if_neg hmem]
    have hfusion : publicFusion env r key = none := by
      unfold publicFusion
      rw [publicGroup_candidates, entries_of_not_mem_groups hmem]
      unfold fuse
      cases env.fusion.property key.property <;> rfl
    unfold publicView publicRow shows publicShown
    rw [hnone, hnone, hfusion]
    rfl

/-- A refresh leaves the other series as they are. -/
theorem refresh_uncovered (ht : Keyed t) (hlocale : Sorting.OrdersBy env.fusion.localeLe)
    (h : refreshCanonical env r t = .ok t') {s : FusedSeries}
    (hs : ∀ key, Covers env r key → key.series ≠ s) (sourceId : String) :
    t' (s.at sourceId) = t (s.at sourceId) := by
  obtain ⟨keep, hkeep, hrows⟩ := refreshCanonical_spec h
  obtain ⟨hgroups, rfl⟩ := fuseGroups_spec hkeep
  have hkept : keptRow ((groups env r).flatMap (keptOf env r (existing r t))) (s.at sourceId) =
      none := by
    unfold keptRow
    rw [Option.map_eq_none_iff, List.find?_eq_none]
    intro e he heq
    obtain ⟨g, hg, he⟩ := List.mem_flatMap.mp he
    obtain ⟨key, rfl, hkey⟩ := mem_groups hg
    obtain ⟨⟨sourceId', hseries⟩, -⟩ := (fuseGroup_spec hlocale (hgroups _ hg)).1 e he
    rw [hseries, decide_eq_true_eq] at heq
    exact hs key hkey (series_of_at heq)
  rw [hrows, hkept, Option.none_or]
  refine if_neg fun hgone => ?_
  cases hrow : existing r t (s.at sourceId) with
  | none => simp [hrow] at hgone
  | some row =>
    have hscope : inScope env r row.featureId s.property = true := by
      rw [hrow] at hgone
      exact hgone
    obtain ⟨hheld, hmem⟩ := Option.filter_eq_some_iff.mp hrow
    obtain ⟨c, hc, hid⟩ := List.mem_map.mp (of_decide_eq_true hmem)
    rw [← hid] at hscope
    refine hs ⟨c, row.componentKey, s.property, s.qualifierKey⟩ ⟨hc, hscope⟩ ?_
    have hsubject : s.subjectKey = subjectKey row.featureId row.componentKey := (ht _ _ hheld).1
    unfold GroupKey.series
    dsimp only
    rw [hid, ← hsubject]

/-- A refresh keeps every row about the subject of its key. -/
theorem keyed_refresh (ht : Keyed t) (hlocale : Sorting.OrdersBy env.fusion.localeLe)
    (h : refreshCanonical env r t = .ok t') : Keyed t' := by
  obtain ⟨keep, hkeep, hrows⟩ := refreshCanonical_spec h
  obtain ⟨hgroups, rfl⟩ := fuseGroups_spec hkeep
  intro k row hrow
  rw [hrows] at hrow
  cases hkept : keptRow ((groups env r).flatMap (keptOf env r (existing r t))) k with
  | none =>
    rw [hkept, Option.none_or] at hrow
    split_ifs at hrow
    exact ht k row hrow
  | some row' =>
    rw [hkept, Option.some_or] at hrow
    obtain rfl := Option.some.inj hrow
    obtain ⟨e, hfound, rfl⟩ := Option.map_eq_some_iff.mp hkept
    have hk := List.find?_some hfound
    obtain rfl := of_decide_eq_true hk
    obtain ⟨g, hg, he⟩ := List.mem_flatMap.mp (List.mem_of_find?_eq_some hfound)
    obtain ⟨key, rfl, hkey⟩ := mem_groups hg
    obtain ⟨⟨sourceId, hseries⟩, hheld | ⟨hid, hcomponent⟩⟩ :=
      (fuseGroup_spec hlocale (hgroups _ hg)).1 e he
    · exact ht _ _ (Option.filter_eq_some_iff.mp hheld).1
    · rw [hseries, hid, hcomponent]
      exact ⟨rfl, r.canonical_plain _ hkey.canonical⟩

end Refresh

end Groups

end OpenConditions.Fusion

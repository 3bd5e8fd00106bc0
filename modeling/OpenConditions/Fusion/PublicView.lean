import OpenConditions.Fusion.PublicRows
import OpenConditions.Lib.Run

set_option relaxedAutoImplicit false
set_option autoImplicit false

/-!
# The public view of the fused rows

What the public scope sees of the fused series is made of public candidates and public members only:
two histories that differ in other candidates show the same values, times, contributors and places.
Since when a value is shown is taken from the row that is written over; it is the same in both where
that row says of the value what the public scope saw.

## Main definitions

* `FusedOp`, `step` — refreshes, and the deletions of canonical features that ended.
* `SamePublic`, `SameOp` — two refreshes read the same of what is public.
* `SinceKept` — what a refresh writes over says of a value what the public scope saw.

## Main results

* `SamePublic.publicShown_eq` — what a refresh shows depends on what is public only.
* `publicView_runs` — so does what a history shows.
-/

namespace OpenConditions.Fusion

open OpenConditions.Storage

/-! ## Fusing in another order -/

section Fuse

variable {J : Type} {env : FusionEnv J} {property : String} {now : Instant}
  {cs cs' : List (FusionCandidate J)}

/-- Fusion gives the same in every order of candidates that are told apart. -/
theorem fuse_toOption_perm (hlocale : Sorting.OrdersBy env.localeLe)
    (hids : Sorting.Separates (fun a b => env.localeLe a.observation.id b.observation.id) cs)
    (hperm : cs.Perm cs') :
    (fuse env property cs now).toOption = (fuse env property cs' now).toOption := by
  have hids' : Sorting.Separates (fun a b => env.localeLe a.observation.id b.observation.id) cs' :=
    fun a ha b hb => hids a (hperm.mem_iff.mpr ha) b (hperm.mem_iff.mpr hb)
  cases hfuse : fuse env property cs now with
  | ok result =>
    obtain ⟨entry, hentry, -⟩ := fuse_eq_rankedIn hfuse
    rw [fuse_perm hentry hlocale hids hperm hfuse]
  | error e =>
    cases hfuse' : fuse env property cs' now with
    | error e' => rfl
    | ok result =>
      obtain ⟨entry, hentry, -⟩ := fuse_eq_rankedIn hfuse'
      rw [fuse_perm hentry hlocale hids' hperm.symm hfuse'] at hfuse
      cases hfuse

end Fuse

/-! ## Two refreshes -/

section Refreshes

variable {J : Type} {env : RefreshEnv J} {r r' : Refresh J}

/-- Two refreshes read the same of what is public: the same clusters and scopes at the same instant,
the same public candidates, given in one order or with ids that the collation tells apart, and the
same places of public members. -/
structure SamePublic (env : RefreshEnv J) (r r' : Refresh J) : Prop where
  canonical : r.canonical = r'.canonical
  wanted : r.wanted = r'.wanted
  now : r.now = r'.now
  candidates : publicEntries env r = publicEntries env r' ∨
    ((publicEntries env r).Perm (publicEntries env r') ∧
      Sorting.Separates (fun a b => env.fusion.localeLe a.row.record.id b.row.record.id)
        (publicEntries env r))
  places : ∀ id, memberLocation env r true id = memberLocation env r' true id

/-- They cover the same groups. -/
theorem SamePublic.covers_iff (h : SamePublic env r r') {key : GroupKey} :
    Covers env r key ↔ Covers env r' key := by
  have hscope : inScope env r = inScope env r' := by
    funext canonicalId property
    unfold inScope byCanonical scopeOf
    rw [h.canonical, h.wanted]
  constructor
  · exact fun ⟨hcanonical, hin⟩ => ⟨h.canonical ▸ hcanonical, hscope ▸ hin⟩
  · exact fun ⟨hcanonical, hin⟩ => ⟨h.canonical ▸ hcanonical, hscope ▸ hin⟩

/-- A public row is at the same place. -/
theorem SamePublic.locationOf_eq (h : SamePublic env r r') (c : CanonicalRow)
    (winner : Option (LatestRow J)) :
    locationOf env r c winner true = locationOf env r' c winner true := by
  have hplaces : memberLocation env r true = memberLocation env r' true := funext h.places
  unfold locationOf
  rw [hplaces]

/-- Candidates of rows that are told apart by their ids are told apart by theirs. -/
theorem separates_candidates {es : List (Entry J)} (hes : ∀ e ∈ es, e ∈ entries env r)
    (hsep : Sorting.Separates (fun a b => env.fusion.localeLe a.row.record.id b.row.record.id) es) :
    Sorting.Separates (fun a b => env.fusion.localeLe a.observation.id b.observation.id)
      (es.map Entry.candidate) := by
  intro a ha b hb hab hba
  obtain ⟨e, he, rfl⟩ := List.mem_map.mp ha
  obtain ⟨e', he', rfl⟩ := List.mem_map.mp hb
  dsimp only at hab hba
  rw [(entries_spec (hes e he)).2.1, (entries_spec (hes e' he')).2.1] at hab hba
  rw [hsep e he e' he' hab hba]

variable [DecidableEq J]

/-- A candidate's row is the same in every order of rows that are told apart. -/
theorem rowOf_perm {g g' : Group J} (hlocale : Sorting.OrdersBy env.fusion.localeLe)
    (hperm : g.entries.Perm g'.entries) (hes : ∀ e ∈ g.entries, e ∈ entries env r)
    (hsep : Sorting.Separates (fun a b => env.fusion.localeLe a.row.record.id b.row.record.id)
      g.entries) (c : FusionCandidate J) : g.rowOf c = g'.rowOf c := by
  unfold Group.rowOf
  refine congrArg (Option.map Entry.row) ?_
  cases hfound : g.entries.find? fun e => decide (e.candidate = c) with
  | none =>
    rw [eq_comm, List.find?_eq_none]
    exact fun e he => List.find?_eq_none.mp hfound e (hperm.mem_iff.mpr he)
  | some e =>
    have he := List.mem_of_find?_eq_some hfound
    have hcandidate := List.find?_some hfound
    cases hfound' : g'.entries.find? fun e => decide (e.candidate = c) with
    | none => exact absurd hcandidate (List.find?_eq_none.mp hfound' e (hperm.mem_iff.mp he))
    | some e' =>
      have he' := hperm.mem_iff.mpr (List.mem_of_find?_eq_some hfound')
      have hcandidate' := List.find?_some hfound'
      rw [decide_eq_true_eq] at hcandidate hcandidate'
      -- both rows have the candidate's id
      have hid : e.row.record.id = e'.row.record.id := by
        rw [← (entries_spec (hes e he)).2.1, ← (entries_spec (hes e' he')).2.1, hcandidate,
          hcandidate']
      have hrefl : env.fusion.localeLe e.row.record.id e.row.record.id = true :=
        (hlocale.total _ _).elim id id
      have hle : env.fusion.localeLe e.row.record.id e'.row.record.id = true := by
        rw [← hid]
        exact hrefl
      have hge : env.fusion.localeLe e'.row.record.id e.row.record.id = true := by
        rw [← hid]
        exact hrefl
      exact congrArg some (hsep e he e' he' hle hge)

/-- **What a refresh shows depends on what is public only.** -/
theorem SamePublic.publicShown_eq (h : SamePublic env r r')
    (hlocale : Sorting.OrdersBy env.fusion.localeLe) (key : GroupKey) :
    publicShown env r key = publicShown env r' key := by
  have hrows : ∀ c, (publicGroup env r key).rowOf c = (publicGroup env r' key).rowOf c := by
    intro c
    rcases h.candidates with heq | ⟨hperm, hsep⟩
    · unfold publicGroup
      rw [heq]
    · exact rowOf_perm hlocale (hperm.filter _)
        (fun e he => List.mem_of_mem_filter (List.mem_of_mem_filter he))
        (fun a ha b hb => hsep a (List.mem_of_mem_filter ha) b (List.mem_of_mem_filter hb)) c
  have hfusion : publicFusion env r key = publicFusion env r' key := by
    unfold publicFusion
    rw [h.now]
    rcases h.candidates with heq | ⟨hperm, hsep⟩
    · unfold publicGroup
      rw [heq]
    · have hids := separates_candidates
        (fun e he => List.mem_of_mem_filter (List.mem_of_mem_filter he) :
          ∀ e ∈ (publicGroup env r key).entries, e ∈ entries env r)
        (fun a ha b hb => hsep a (List.mem_of_mem_filter ha) b (List.mem_of_mem_filter hb))
      exact congrArg Option.join (fuse_toOption_perm hlocale hids ((hperm.filter _).map _))
  unfold publicShown
  rw [hfusion]
  refine congrArg (Option.bind _) (funext fun f => ?_)
  rw [hrows, h.locationOf_eq]

end Refreshes

/-! ## Histories -/

/-- What is done to the fused rows. -/
inductive FusedOp (J : Type) where
  /-- Canonical features ended. -/
  | drop (canonicalIds : List String)
  | refresh (r : Refresh J)

/-- Two operations do the same of what is public. -/
def SameOp {J : Type} (env : RefreshEnv J) : FusedOp J → FusedOp J → Prop
  | .drop canonicalIds, .drop canonicalIds' => canonicalIds = canonicalIds'
  | .refresh r, .refresh r' => SamePublic env r r'
  | _, _ => False

/-- A canonical feature of a series is dropped. -/
def Dropped (canonicalIds : List String) (s : FusedSeries) : Prop :=
  ∃ id ∈ canonicalIds, ∃ componentKey, '#' ∉ id.toList ∧ s.subjectKey = subjectKey id componentKey

section Tables

variable {J : Type} {env : RefreshEnv J} {t : FusedTable J}

/-- The rows of dropped canonical features go, and no others. -/
theorem dropFused_at (ht : Keyed t) (canonicalIds : List String) (s : FusedSeries)
    (sourceId : String) :
    (Dropped canonicalIds s → dropFused canonicalIds t (s.at sourceId) = none) ∧
      (¬Dropped canonicalIds s →
        dropFused canonicalIds t (s.at sourceId) = t (s.at sourceId)) := by
  unfold dropFused
  cases hrow : t (s.at sourceId) with
  | none => exact ⟨fun _ => rfl, fun _ => rfl⟩
  | some row =>
    obtain ⟨hsubject, hplain⟩ := ht _ _ hrow
    constructor
    · rintro ⟨id, hid, componentKey, hplain', hseries⟩
      obtain ⟨rfl, -⟩ := subjectKey_inj hplain' hplain (hseries.symm.trans hsubject)
      simp [Option.filter, hid]
    · intro hkept
      have hmem : row.featureId ∉ canonicalIds := fun hmem =>
        hkept ⟨row.featureId, hmem, row.componentKey, hplain, hsubject⟩
      simp [Option.filter, hmem]

/-- What the public scope sees once canonical features are dropped. -/
theorem publicView_dropFused (ht : Keyed t) (canonicalIds : List String) (s : FusedSeries) :
    (Dropped canonicalIds s → publicView env (dropFused canonicalIds t) s = none) ∧
      (¬Dropped canonicalIds s →
        publicView env (dropFused canonicalIds t) s = publicView env t s) := by
  constructor
  · intro hdropped
    unfold publicView publicRow
    rw [(dropFused_at ht canonicalIds s _).1 hdropped, (dropFused_at ht canonicalIds s _).1 hdropped]
    rfl
  · intro hkept
    unfold publicView publicRow
    rw [(dropFused_at ht canonicalIds s _).2 hkept, (dropFused_at ht canonicalIds s _).2 hkept]

/-- Since when a value is shown over a row is told by what the public scope sees of the row. -/
theorem sinceFrom_congr {prev prev' : Option (FusedRow J)}
    (h : prev.map (viewOf env) = prev'.map (viewOf env)) (f : Fusion J) :
    sinceFrom env prev f = sinceFrom env prev' f := by
  cases prev with
  | none =>
    cases prev' with
    | none => rfl
    | some row => cases h
  | some row =>
    cases prev' with
    | none => cases h
    | some row' =>
      have hview := Option.some.inj h
      have hsince : row.sinceAt = row'.sinceAt := congrArg PublicView.sinceAt hview
      have hresult : env.fusion.jcs row.record.result = env.fusion.jcs row'.record.result :=
        congrArg (fun v => v.shown.result) hview
      unfold sinceFrom sinceOf
      dsimp only
      rw [hresult, hsince]

end Tables

section Histories

variable {J : Type} [DecidableEq J]

/-- The table after an operation; one that fails leaves nothing behind. -/
def step (env : RefreshEnv J) (t : FusedTable J) : FusedOp J → Option (FusedTable J)
  | .drop canonicalIds => some (dropFused canonicalIds t)
  | .refresh r => (refreshCanonical env r t).toOption

/-- What a refresh writes over says of a value since when it is shown what the public scope saw. -/
def SinceKept (env : RefreshEnv J) (t : FusedTable J) : FusedOp J → Prop
  | .drop _ => True
  | .refresh r => ∀ key f location, Covers env r key → publicShown env r key = some (f, location) →
      sinceFrom env (t (key.series.at (writtenUnder env r key))) f =
        sinceFrom env (publicRow t key.series) f

variable {env : RefreshEnv J} {t u t' u' : FusedTable J} {r r' : Refresh J}

/-- A refresh that is taken went through. -/
theorem step_refresh (h : step env t (.refresh r) = some t') :
    refreshCanonical env r t = .ok t' := by
  cases hr : refreshCanonical env r t with
  | error e => simp [step, hr, Except.toOption] at h
  | ok t'' =>
    have heq : t'' = t' := by simpa [step, hr, Except.toOption] using h
    rw [heq]

/-- Every operation keeps every row about the subject of its key. -/
theorem keyed_step (hlocale : Sorting.OrdersBy env.fusion.localeLe) {op : FusedOp J}
    (ht : Keyed t) (h : step env t op = some t') : Keyed t' := by
  cases op with
  | drop canonicalIds =>
    obtain rfl := Option.some.inj h
    exact fun k row hrow => ht k row (Option.filter_eq_some_iff.mp hrow).1
  | refresh r => exact keyed_refresh ht hlocale (step_refresh h)

/-- **One operation on two tables**: of each series, it leaves both without anything to see, or as
they were, or with the public fusion of a group that both refreshes cover. -/
theorem step_cases (hlocale : Sorting.OrdersBy env.fusion.localeLe) {op op' : FusedOp J}
    (hop : SameOp env op op') (ht : Keyed t) (hu : Keyed u) (hstep : step env t op = some t')
    (hstep' : step env u op' = some u') (s : FusedSeries) :
    (publicView env t' s = none ∧ publicView env u' s = none) ∨
      (publicView env t' s = publicView env t s ∧ publicView env u' s = publicView env u s) ∨
        ∃ r r' key, op = .refresh r ∧ op' = .refresh r' ∧ s = key.series ∧ Covers env r key ∧
          Covers env r' key ∧ publicShown env r key = publicShown env r' key ∧
            publicView env t' s = shows env r key t ∧ publicView env u' s = shows env r' key u := by
  cases op with
  | drop canonicalIds =>
    cases op' with
    | refresh r' => exact hop.elim
    | drop canonicalIds' =>
      obtain rfl : canonicalIds = canonicalIds' := hop
      obtain rfl := Option.some.inj hstep
      obtain rfl := Option.some.inj hstep'
      by_cases hdropped : Dropped canonicalIds s
      · exact Or.inl ⟨(publicView_dropFused ht _ s).1 hdropped,
          (publicView_dropFused hu _ s).1 hdropped⟩
      · exact Or.inr (Or.inl ⟨(publicView_dropFused ht _ s).2 hdropped,
          (publicView_dropFused hu _ s).2 hdropped⟩)
  | refresh r =>
    cases op' with
    | drop canonicalIds' => exact hop.elim
    | refresh r' =>
      have hsame : SamePublic env r r' := hop
      have hr := step_refresh hstep
      have hr' := step_refresh hstep'
      by_cases hcovered : ∃ key, Covers env r key ∧ key.series = s
      · obtain ⟨key, hkey, rfl⟩ := hcovered
        have hkey' := hsame.covers_iff.mp hkey
        exact Or.inr (Or.inr ⟨r, r', key, rfl, rfl, rfl, hkey, hkey',
          hsame.publicShown_eq hlocale key, publicView_refresh ht hlocale hr hkey,
          publicView_refresh hu hlocale hr' hkey'⟩)
      · have hs : ∀ key, Covers env r key → key.series ≠ s := fun key hkey heq =>
          hcovered ⟨key, hkey, heq⟩
        have hs' : ∀ key, Covers env r' key → key.series ≠ s := fun key hkey =>
          hs key (hsame.covers_iff.mpr hkey)
        refine Or.inr (Or.inl ⟨?_, ?_⟩)
        · unfold publicView publicRow
          rw [refresh_uncovered ht hlocale hr hs, refresh_uncovered ht hlocale hr hs]
        · unfold publicView publicRow
          rw [refresh_uncovered hu hlocale hr' hs', refresh_uncovered hu hlocale hr' hs']

/-- What the public scope sees of a series, but since when. -/
def publicSight (env : RefreshEnv J) (t : FusedTable J) (s : FusedSeries) : Option Shown :=
  (publicView env t s).map PublicView.shown

/-- One operation on two tables that show the same: so do the tables that it leaves. -/
theorem publicSight_step (hlocale : Sorting.OrdersBy env.fusion.localeLe) {op op' : FusedOp J}
    (hop : SameOp env op op') (ht : Keyed t) (hu : Keyed u)
    (hsame : publicSight env t = publicSight env u)
    (hstep : step env t op = some t') (hstep' : step env u op' = some u') :
    publicSight env t' = publicSight env u' := by
  funext s
  unfold publicSight
  rcases step_cases hlocale hop ht hu hstep hstep' s with
    ⟨hgone, hgone'⟩ | ⟨hkept, hkept'⟩ | ⟨r, r', key, -, -, -, -, -, hshown, hview, hview'⟩
  · rw [hgone, hgone']
  · rw [hkept, hkept']
    exact congrFun hsame s
  · rw [hview, hview']
    unfold shows
    rw [hshown, Option.map_map, Option.map_map]
    rfl

/-- One operation on two tables that show the same, since the same time: so do the tables that it
leaves, where what it writes over says since when what the public scope saw. -/
theorem publicView_step (hlocale : Sorting.OrdersBy env.fusion.localeLe) {op op' : FusedOp J}
    (hop : SameOp env op op') (ht : Keyed t) (hu : Keyed u)
    (hsame : publicView env t = publicView env u) (hkept : SinceKept env t op)
    (hkept' : SinceKept env u op') (hstep : step env t op = some t')
    (hstep' : step env u op' = some u') : publicView env t' = publicView env u' := by
  funext s
  rcases step_cases hlocale hop ht hu hstep hstep' s with
    ⟨hgone, hgone'⟩ | ⟨hleft, hleft'⟩ | ⟨r, r', key, rfl, rfl, -, hkey, hkey', hshown, hview, hview'⟩
  · rw [hgone, hgone']
  · rw [hleft, hleft', hsame]
  · rw [hview, hview']
    unfold shows
    rw [← hshown]
    refine Option.map_congr fun p hp => ?_
    have hsince : sinceFrom env (t (key.series.at (writtenUnder env r key))) p.1 =
        sinceFrom env (u (key.series.at (writtenUnder env r' key))) p.1 := by
      calc sinceFrom env (t (key.series.at (writtenUnder env r key))) p.1
        _ = sinceFrom env (publicRow t key.series) p.1 := hkept key p.1 p.2 hkey hp
        _ = sinceFrom env (publicRow u key.series) p.1 :=
            sinceFrom_congr (congrFun hsame key.series) p.1
        _ = sinceFrom env (u (key.series.at (writtenUnder env r' key))) p.1 :=
            (hkept' key p.1 p.2 hkey' (hshown.symm.trans hp)).symm
    rw [hsince]

/-- **What the public scope sees is made of what is public.**  Two histories whose refreshes read the
same public candidates and public places, and that end the same canonical features, show the same of
every series: values, times, contributors, merged sources and places.  Since when they show it is
the same too where what each refresh writes over says of a value what the public scope saw. -/
theorem publicView_runs (hlocale : Sorting.OrdersBy env.fusion.localeLe)
    {ops ops' : List (FusedOp J)} (hops : List.Forall₂ (SameOp env) ops ops') (ht : Keyed t)
    (hu : Keyed u) (hrun : Transition.run (step env) t ops = some t')
    (hrun' : Transition.run (step env) u ops' = some u') :
    (publicSight env t = publicSight env u → publicSight env t' = publicSight env u') ∧
      (publicView env t = publicView env u → Transition.Along (step env) (SinceKept env) t ops →
        Transition.Along (step env) (SinceKept env) u ops' →
          publicView env t' = publicView env u') := by
  induction hops generalizing t u with
  | nil =>
    cases hrun
    cases hrun'
    exact ⟨id, fun hsame _ _ => hsame⟩
  | cons hop hops ih =>
    obtain ⟨t₁, hstep, hrun⟩ := Transition.run_cons_eq_some.mp hrun
    obtain ⟨u₁, hstep', hrun'⟩ := Transition.run_cons_eq_some.mp hrun'
    obtain ⟨hsight, hview⟩ := ih (keyed_step hlocale ht hstep) (keyed_step hlocale hu hstep') hrun
      hrun'
    constructor
    · exact fun hsame => hsight (publicSight_step hlocale hop ht hu hsame hstep hstep')
    · intro hsame halong halong'
      exact hview (publicView_step hlocale hop ht hu hsame halong.1 halong'.1 hstep hstep')
        (halong.2 t₁ hstep) (halong'.2 u₁ hstep')

end Histories

/-! ## Samples -/

/-- A cluster of a public road and one that is not. -/
def sampleCluster : CanonicalRow := ⟨"oc:feature:here:a", "a", ["a", "b"], []⟩

/-- A latest row of a source. -/
def sampleLatest (featureId sourceId id result : String) (start : Instant) : LatestRow String :=
  let reading := (sampleReading id "feed" result start none none false).observation
  ⟨featureId, none,
    { reading with provenance := ⟨"feed", sourceId, "bulk", ⟨"", none⟩, none, "public"⟩ }, none⟩

/-- A registry of one property, whose records are all licensed to the public. -/
def sampleRefreshEnv : RefreshEnv String where
  fusion := sampleEnv
  model := sampleModel
  isPublicRecord _ _ := true
  fusable p := decide (p = "road_state")
  issuesText issues := ";".intercalate issues

/-- The cluster's refresh, over given rows: the second source is restricted. -/
def sampleRefresh (rows : List (LatestRow String)) : Refresh String where
  canonical := [sampleCluster]
  wanted := [⟨"a", none⟩]
  rows := rows
  sources id :=
    if id = "open" then some ⟨.authoritative, false⟩
    else if id = "shut" then some ⟨.authoritative, true⟩
    else none
  stale _ := false
  features id :=
    if id = "a" then some ⟨some "here", "open", ⟨"", none⟩, none⟩
    else if id = "b" then some ⟨some "there", "shut", ⟨"", none⟩, none⟩
    else none
  instanceId := "here"
  now := ⟨"", ⟨86, by decide⟩⟩
  canonical_nodup := by decide
  canonical_plain := by decide

/-- A reading of the public source. -/
def sampleOpen : LatestRow String := sampleLatest "a" "open" "a" "open" ⟨52, by decide⟩

/-- A later reading of the restricted source, which disagrees. -/
def sampleShut : LatestRow String := sampleLatest "b" "shut" "b" "closed" ⟨62, by decide⟩

/-- The restricted source's reading wins with the operator, and the public scope sees nothing of
it. -/
theorem publicView_runs_sample :
    ∃ t' u', Transition.run (step sampleRefreshEnv) (fun _ => none)
        [.refresh (sampleRefresh [sampleOpen])] = some t' ∧
      Transition.run (step sampleRefreshEnv) (fun _ => none)
        [.refresh (sampleRefresh [sampleOpen, sampleShut])] = some u' ∧
      publicSight sampleRefreshEnv t' = publicSight sampleRefreshEnv u' ∧
      (u' ⟨"@fused", "feature:oc:feature:here:a", "road_state", ""⟩).map (fun row => row.record.result) =
        some "closed" ∧
      (publicSight sampleRefreshEnv u' ⟨"feature:oc:feature:here:a", "road_state", ""⟩).map Shown.result =
        some "open" := by
  have hops : List.Forall₂ (SameOp sampleRefreshEnv) [.refresh (sampleRefresh [sampleOpen])]
      [.refresh (sampleRefresh [sampleOpen, sampleShut])] :=
    .cons ⟨rfl, rfl, rfl, Or.inl (by rfl), fun _ => rfl⟩ .nil
  have hempty : Keyed (fun _ => none : FusedTable String) := fun _ _ h => by cases h
  refine ⟨_, _, rfl, rfl, ?_, by rfl, by rfl⟩
  exact (publicView_runs sampleEnv_localeOrder.ordersBy hops hempty hempty rfl rfl).1 rfl

end OpenConditions.Fusion

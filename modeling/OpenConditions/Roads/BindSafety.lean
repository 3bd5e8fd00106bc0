import OpenConditions.Roads.BindEvent

set_option relaxedAutoImplicit false
set_option autoImplicit false

/-!
# No guessed carriageway is routed

A binding of a status that closes roads for routing has its direction decided, and was not stated in
a direction that its location rules out (`bindEvent` of `packages/roads/src/bind/bind-event.ts`).
Where a point's way was found in both of its directions, the one that is kept runs the stated way.

## Main definitions

* `Decided` — a binding that closes roads has a direction and spans.
* `Unopposed`, `Held` — a span runs the stated way at a point, or is of the one direction found there.
* `AtJunction` — a ramp bound by where it leaves or joins the carriageway.

## Main results

* `statusOf_capped` — a confidence without a direction closes no road.
* `oriented_decided`, `held_oriented` — a stated direction keeps bindings decided, and is kept.
* `bindEvent_safe` — what holds of every binding that closes roads.
-/

namespace OpenConditions.Roads

open ExtRat (fin)

/-! ## Statuses -/

/-- A binding that closes roads has a confidence of 0.7 or more. -/
theorem le_confidence_of_statusOf {confidence ambiguity : ExtRat}
    (h : statusOf confidence ambiguity = .exact ∨ statusOf confidence ambiguity = .likely) :
    (fin (7 / 10)).le confidence = true := by
  unfold statusOf at h
  split_ifs at h with hexact hlikely
  · rw [Bool.and_eq_true] at hexact
    cases confidence with
    | fin c =>
      rw [ExtRat.le_fin, decide_eq_true_eq] at hexact ⊢
      linarith [hexact.1]
    | posInf => rfl
    | negInf => exact absurd hexact.1 (by decide)
    | nan => exact absurd hexact.1 (by decide)
  · rw [Bool.and_eq_true] at hlikely
    exact hlikely.1
  · rcases h with h | h <;> cases h

/-- **A confidence without a direction closes no road.** -/
theorem statusOf_capped (raw ambiguity : ExtRat) :
    statusOf (cappedConfidence .unknown raw) ambiguity = .ambiguous := by
  have hlow : (fin (7 / 10)).le (cappedConfidence .unknown raw) = false := by
    rw [cappedConfidence, if_pos rfl, ← Bool.not_eq_true]
    intro h
    have hcap := ExtRat.le_of_le_min h
    rw [unknownDirectionConfidence, ExtRat.le_fin, decide_eq_true_eq] at hcap
    norm_num at hcap
  cases hstatus : statusOf (cappedConfidence .unknown raw) ambiguity with
  | ambiguous => rfl
  | exact => rw [le_confidence_of_statusOf (Or.inl hstatus)] at hlow; cases hlow
  | likely => rw [le_confidence_of_statusOf (Or.inr hstatus)] at hlow; cases hlow
  | unresolved => unfold statusOf at hstatus; split_ifs at hstatus
  | notApplicable => unfold statusOf at hstatus; split_ifs at hstatus

variable {M : RoadMeasures} {r : BindResult} {segments : List (SpineSegment ℚ)} {input : BindInput}
  {opts : BindOptions} {maxOffsetM : ℚ} {shape : Shape}

/-- A binding that closes roads has a direction and spans. -/
def Decided (r : BindResult) : Prop :=
  r.routable = true → r.directionMode ≠ .unknown ∧ r.segments ≠ []

/-- A failure closes no road. -/
theorem failure_not_routable {status : BindingStatus} {reason : String} {n : ℕ}
    {samples : List Sample} (h : status ≠ .exact ∧ status ≠ .likely) :
    (failure status reason n samples).routable = false := by
  rw [BindResult.routable, decide_eq_false_iff_not]
  rintro (heq | heq)
  · exact h.1 heq
  · exact h.2 heq

/-- What closes no road is decided. -/
theorem decided_of_not_routable (h : r.routable = false) : Decided r := by
  intro hr
  rw [h] at hr
  cases hr

/-- A binding by a confidence that is held down without a direction is decided. -/
theorem decided_of_capped {raw ambiguity : ExtRat}
    (hstatus : r.status = statusOf (cappedConfidence r.directionMode raw) ambiguity)
    (hsegments : r.segments ≠ []) : Decided r := by
  intro hr
  refine ⟨fun hunknown => ?_, hsegments⟩
  rw [hunknown, statusOf_capped] at hstatus
  rw [BindResult.routable, hstatus] at hr
  cases hr

/-! ## Bindings by the geometry -/

/-- The binding of a point is decided. -/
theorem bindPoint_decided (p : LngLat) : Decided (bindPoint M p input segments maxOffsetM) := by
  unfold bindPoint
  dsimp only
  cases candidatesFor M p none input segments maxOffsetM with
  | nil => exact decided_of_not_routable (failure_not_routable ⟨by decide, by decide⟩)
  | cons best rest => exact decided_of_capped rfl (List.cons_ne_nil _ _)

/-- A shortest path has a segment. -/
theorem shortestPath_ne_nil {graph : SegmentGraph ℚ} {A : LengthSum ℚ} {first target : String}
    {cap : ℚ} {allow : SpineSegment ℚ → Bool} {path : List (SpineSegment ℚ)}
    (h : graph.shortestPath A first target cap allow = some path) : path ≠ [] := by
  rintro rfl
  unfold SegmentGraph.shortestPath at h
  split at h
  · dsimp only at h
    split_ifs at h with hsame hfound hhead
    · cases h
    · rw [Option.some.inj h] at hhead
      cases hhead
  · cases h

/-- The spans of a path with a segment are some. -/
theorem spansAlong_ne_nil {path : List (SpineSegment ℚ)} (h : path ≠ []) (start stop : LngLat) :
    spansAlong M path start stop ≠ [] := by
  rw [spansAlong, Ne, List.mapIdx_eq_nil_iff]
  exact h

/-- The best route is one of the routes. -/
theorem mem_of_foldl_betterRoute (routes : List (EndpointRoute × ℕ)) :
    ∀ {m : Option (EndpointRoute × ℕ)} {best : EndpointRoute × ℕ},
      routes.foldl betterRoute m = some best → best ∈ routes ∨ m = some best := by
  induction routes with
  | nil => exact fun h => Or.inr h
  | cons r routes ih =>
    intro m best h
    rcases ih h with hmem | hbetter
    · exact Or.inl (List.mem_cons_of_mem r hmem)
    · unfold betterRoute at hbetter
      cases m with
      | none =>
        obtain rfl := Option.some.inj hbetter
        exact Or.inl List.mem_cons_self
      | some m =>
        dsimp only at hbetter
        split_ifs at hbetter
        · obtain rfl := Option.some.inj hbetter
          exact Or.inl List.mem_cons_self
        · exact Or.inr hbetter

/-- The binding of an endpoint pair is decided. -/
theorem bindEndpoints_decided (start stop : LngLat) (graph : SegmentGraph ℚ)
    (onRef : SpineSegment ℚ → Bool) :
    Decided (bindEndpoints M start stop input segments graph onRef maxOffsetM) := by
  unfold bindEndpoints
  dsimp only
  split_ifs with hstraight hends
  · exact bindPoint_decided start
  · exact decided_of_not_routable (failure_not_routable ⟨by decide, by decide⟩)
  · split
    · exact decided_of_not_routable (failure_not_routable ⟨by decide, by decide⟩)
    · next best index hbest =>
      refine decided_of_capped rfl (spansAlong_ne_nil ?_ start stop)
      rcases mem_of_foldl_betterRoute _ hbest with hmem | hnone
      · have hroute : best ∈ _ := (List.mem_zipIdx' hmem).2 ▸ List.getElem_mem _
        obtain ⟨s, -, hroute⟩ := List.mem_flatMap.mp hroute
        obtain ⟨e, -, hroute⟩ := List.mem_filterMap.mp hroute
        unfold routeBetween at hroute
        split_ifs at hroute
        obtain ⟨path, hpath, rfl⟩ := Option.map_eq_some_iff.mp hroute
        exact shortestPath_ne_nil hpath
      · cases hnone

/-- A path with another segment has one. -/
theorem pushSegment_ne_nil (path : List (SpineSegment ℚ)) (s : SpineSegment ℚ) :
    pushSegment path s ≠ [] := by
  unfold pushSegment
  split_ifs with hany
  · rintro rfl
    cases hany
  · exact List.append_ne_nil_of_right_ne_nil path (List.cons_ne_nil s [])

/-- A path that has a segment has one with others. -/
theorem foldl_pushSegment_ne_nil (more : List (SpineSegment ℚ)) :
    ∀ {path : List (SpineSegment ℚ)}, path ≠ [] → more.foldl pushSegment path ≠ [] := by
  induction more with
  | nil => exact fun h => h
  | cons s more ih => exact fun _ => ih (pushSegment_ne_nil _ s)

/-- A sample with a candidate leaves a path with a segment. -/
theorem walkSample_ne_nil {graph : SegmentGraph ℚ} {onRef : SpineSegment ℚ → Bool} {cap : ℚ}
    {path : List (SpineSegment ℚ)} {sample : Sample}
    (h : path ≠ [] ∨ sample.candidates ≠ []) : walkSample graph onRef cap path sample ≠ [] := by
  unfold walkSample
  cases hcandidates : sample.candidates with
  | nil => exact h.resolve_right fun hne => hne hcandidates
  | cons best others =>
    dsimp only
    cases hlast : path.getLast? with
    | none => exact pushSegment_ne_nil _ _
    | some last =>
      have hpath : path ≠ [] := by
        rintro rfl
        cases hlast
      dsimp only
      by_cases hsame : last.segmentId = best.segment.segmentId
      · rw [if_pos hsame]
        exact hpath
      · rw [if_neg hsame]
        split
        · exact foldl_pushSegment_ne_nil _ hpath
        · split
          · exact hpath
          · split
            · exact foldl_pushSegment_ne_nil _ hpath
            · exact pushSegment_ne_nil _ _

/-- The path along samples with candidates has a segment. -/
theorem foldl_walkSample_ne_nil {graph : SegmentGraph ℚ} {onRef : SpineSegment ℚ → Bool} {cap : ℚ}
    (matched : List Sample) : ∀ {path : List (SpineSegment ℚ)},
      path ≠ [] → matched.foldl (walkSample graph onRef cap) path ≠ [] := by
  induction matched with
  | nil => exact fun h => h
  | cons sample matched ih => exact fun h => ih (walkSample_ne_nil (Or.inl h))

/-- The binding of a line along a path with a segment is decided. -/
theorem bindPath_decided {coords points : List LngLat} {hasBearing : Bool}
    {samples matched : List Sample} {n : ℕ} {path : List (SpineSegment ℚ)} (hpath : path ≠ [])
    (h : bindPath M coords points hasBearing samples matched n path input segments maxOffsetM =
      some r) : Decided r := by
  unfold bindPath at h
  dsimp only at h
  generalize (if hasBearing = true then OrderedMap.empty else twinsOf path segments) = twins at h
  by_cases hcoverage : (pathFit M path points maxOffsetM).1 < minLineCoverage
  · rw [if_pos hcoverage] at h
    obtain rfl := Option.some.inj h
    exact decided_of_not_routable (failure_not_routable ⟨by decide, by decide⟩)
  · rw [if_neg hcoverage] at h
    by_cases htwins : ((twins.entries.map Prod.snd).any fun twin => twin.coords.isEmpty) = true
    · rw [if_pos htwins] at h
      cases h
    · rw [if_neg htwins] at h
      obtain rfl := Option.some.inj h
      exact decided_of_capped rfl
        (List.append_ne_nil_of_left_ne_nil (spansAlong_ne_nil hpath _ _) _)

/-- The binding of a line is decided. -/
theorem bindLine_decided {coords : List LngLat} {graph : SegmentGraph ℚ}
    {onRef : SpineSegment ℚ → Bool} {spacingM : ℚ}
    (h : bindLine M coords input segments graph onRef maxOffsetM spacingM = some r) :
    Decided r := by
  unfold bindLine at h
  obtain ⟨points, -, h⟩ := Option.bind_eq_some_iff.mp h
  dsimp only at h
  generalize lineSamples M _ points input segments maxOffsetM = samples at h
  by_cases hmatched : (samples.filter fun s => !s.candidates.isEmpty) = []
  · rw [if_pos hmatched] at h
    obtain rfl := Option.some.inj h
    exact decided_of_not_routable (failure_not_routable ⟨by decide, by decide⟩)
  · rw [if_neg hmatched] at h
    refine bindPath_decided ?_ h
    obtain ⟨sample, matched, hcons⟩ := List.exists_cons_of_ne_nil hmatched
    have hmem : sample ∈ samples.filter fun s => !s.candidates.isEmpty :=
      hcons ▸ List.mem_cons_self
    rw [hcons]
    refine foldl_walkSample_ne_nil matched (walkSample_ne_nil (Or.inr fun hnil => ?_))
    have hsome := (List.mem_filter.mp hmem).2
    rw [hnil] at hsome
    cases hsome

/-! ## The stated direction -/

/-- What is stated of the direction does not rule the location out. -/
def Placeable (travel : Option TravelDirection) : Prop :=
  travel ≠ some .against ∧ travel ≠ some .unplaced

/-- A binding without a direction closes no road. -/
theorem redirected_unknown_not_routable (parts : List SegmentSpan) (reason : Option String) :
    (redirected r .unknown parts reason).routable = false := by
  rw [BindResult.routable, decide_eq_false_iff_not, redirected]
  dsimp only
  rw [statusOf_capped]
  decide

/-- A binding that the stated direction contradicts closes no road. -/
theorem conflicting_not_routable : (conflicting r).routable = false :=
  failure_not_routable ⟨by decide, by decide⟩

/-- **A stated direction keeps bindings decided**, and one that rules the location out leaves none
that closes roads. -/
theorem oriented_decided {travel : Option TravelDirection} (h : Decided r)
    (hr : (oriented M r travel shape segments).routable = true) :
    (oriented M r travel shape segments).directionMode ≠ .unknown ∧ Placeable travel := by
  unfold oriented at hr ⊢
  cases travel with
  | none => exact ⟨(h hr).1, nofun, nofun⟩
  | some travel =>
    dsimp only at hr ⊢
    by_cases hempty : r.segments = []
    · rw [if_pos hempty] at hr
      exact absurd hempty (h hr).2
    rw [if_neg hempty] at hr ⊢
    by_cases hagainst : travel = .against
    · rw [if_pos hagainst, conflicting_not_routable] at hr
      cases hr
    rw [if_neg hagainst] at hr ⊢
    by_cases hunplaced : travel = .unplaced
    · rw [if_pos hunplaced, redirected_unknown_not_routable] at hr
      cases hr
    rw [if_neg hunplaced] at hr ⊢
    have hplaceable : Placeable (some travel) :=
      ⟨fun heq => hagainst (Option.some.inj heq), fun heq => hunplaced (Option.some.inj heq)⟩
    refine ⟨?_, hplaceable⟩
    cases hmode : r.directionMode with
    | unknown =>
      rw [hmode] at hr
      exact absurd hmode (h hr).1
    | single =>
      rw [hmode] at hr
      dsimp only at hr ⊢
      split at hr
      · split_ifs at hr ⊢ with hconflict
        · rw [conflicting_not_routable] at hr
          cases hr
        · rw [hmode]
          decide
      · rw [hmode]
        decide
    | both =>
      rw [hmode] at hr
      dsimp only at hr ⊢
      split at hr
      · rw [redirected_unknown_not_routable] at hr
        cases hr
      · split_ifs at hr ⊢
        · exact nofun
        · rw [redirected_unknown_not_routable] at hr
          cases hr

/-! ## A heading at a point -/

/-- The one point of a shape. -/
def pointOf : Shape → Option LngLat
  | .point p => some p
  | .line [p] => some p
  | _ => none

/-- A span is of the best candidate of a point, of which no candidate runs the other way. -/
def Unopposed (M : RoadMeasures) (input : BindInput) (segments : List (SpineSegment ℚ))
    (maxOffsetM : ℚ) (p : LngLat) (part : SegmentSpan) : Prop :=
  ∃ best others, candidatesFor M p none input segments maxOffsetM = best :: others ∧
    part = span best.segment best.fraction best.fraction ∧
    ∀ c ∈ best :: others, c.segment.wayId = best.segment.wayId → c.segment.dir = best.segment.dir

/-- A span's carriageway runs the stated way at a point, or is the one direction found there. -/
def Held (M : RoadMeasures) (input : BindInput) (segments : List (SpineSegment ℚ))
    (maxOffsetM : ℚ) (p : LngLat) (stated : ℚ) (part : SegmentSpan) : Prop :=
  runsAlong M segments (some p) stated part = true ∨
    Unopposed M input segments maxOffsetM p part

/-- The one point of a shape is where it starts, and the shape has no heading. -/
theorem anchorOf_pointOf {p : LngLat} (h : pointOf shape = some p) :
    anchorOf shape = some p ∧ drawnHeading M shape = none := by
  unfold pointOf at h
  split at h
  · exact ⟨h, rfl⟩
  · exact ⟨h, rfl⟩
  · cases h

/-- A point bound in a single direction is bound to its best candidate, with none the other way. -/
theorem unopposed_of_single {p : LngLat}
    (h : (bindPoint M p input segments maxOffsetM).directionMode = .single) :
    ∀ part ∈ (bindPoint M p input segments maxOffsetM).segments,
      Unopposed M input segments maxOffsetM p part := by
  intro part hpart
  unfold bindPoint at h hpart
  dsimp only at h hpart
  unfold Unopposed
  cases hcandidates : candidatesFor M p none input segments maxOffsetM with
  | nil =>
    rw [hcandidates] at hpart
    cases hpart
  | cons best others =>
    rw [hcandidates] at h hpart
    dsimp only at h hpart
    cases htwin : (best :: others).find? fun c =>
        decide (c.segment.wayId = best.segment.wayId ∧ c.segment.dir ≠ best.segment.dir) with
    | some twin =>
      rw [htwin, if_pos Option.isSome_some] at h
      cases h
    | none =>
      rw [htwin, Option.toList_none, List.map_singleton, List.mem_singleton] at hpart
      refine ⟨best, others, rfl, hpart, fun c hc hway => ?_⟩
      have hnot := List.find?_eq_none.mp htwin c hc
      rw [decide_eq_true_eq, not_and, not_not] at hnot
      exact hnot hway

/-- **A binding of a point by a stated heading is held against it.** -/
theorem held_oriented {p : LngLat} {stated : ℚ} (hshape : pointOf shape = some p)
    (hr : (oriented M (bindPoint M p input segments maxOffsetM) (some (.heading stated)) shape
      segments).routable = true) :
    ∀ part ∈ (oriented M (bindPoint M p input segments maxOffsetM) (some (.heading stated)) shape
      segments).segments, Held M input segments maxOffsetM p stated part := by
  obtain ⟨hanchor, hdrawn⟩ := @anchorOf_pointOf M shape p hshape
  have hdecided := @bindPoint_decided M segments input maxOffsetM p
  intro part hpart
  unfold oriented at hr hpart
  dsimp only at hr hpart
  generalize hbound : bindPoint M p input segments maxOffsetM = r at hr hpart hdecided
  by_cases hempty : r.segments = []
  · rw [if_pos hempty] at hpart
    rw [hempty] at hpart
    cases hpart
  rw [if_neg hempty, if_neg nofun, if_neg nofun] at hr hpart
  cases hmode : r.directionMode with
  | unknown =>
    rw [hmode] at hr
    exact absurd hmode (hdecided hr).1
  | single =>
    rw [hmode, hdrawn] at hpart
    subst hbound
    exact Or.inr (unopposed_of_single hmode part hpart)
  | both =>
    rw [hmode] at hr hpart
    dsimp only at hr hpart
    split_ifs at hr hpart with hkept
    · rw [hanchor] at hpart
      exact Or.inl (List.mem_filter.mp hpart).2
    · rw [redirected_unknown_not_routable] at hr
      cases hr

/-! ## Slip roads -/

/-- A span is the end of a ramp at the carriageway of a path that is held against the heading. -/
def AtJunction (M : RoadMeasures) (input : BindInput) (segments : List (SpineSegment ℚ))
    (maxOffsetM : ℚ) (p : LngLat) (stated : ℚ) (part : SegmentSpan) : Prop :=
  ∃ slipRoad path corridor ramp, input.slipRoad = some slipRoad ∧ path ≠ [] ∧
    (∀ carriageway ∈ path, Held M input segments maxOffsetM p stated carriageway) ∧
    corridorOf M path slipRoad (SegmentGraph.of segments) = some corridor ∧ ramp ∈ segments ∧
    isSlipRoad ramp = true ∧ rampKey slipRoad ramp ∈ junctionNodes M slipRoad corridor ∧
    part = rampHead M slipRoad ramp

/-- What is bound of a slip road: spans held against the heading, on the spine or among its slip
roads, or the end of a ramp. -/
def HeldOnSlipRoads (M : RoadMeasures) (input : BindInput) (segments : List (SpineSegment ℚ))
    (maxOffsetM : ℚ) (p : LngLat) (stated : ℚ) (part : SegmentSpan) : Prop :=
  Held M input segments maxOffsetM p stated part ∨
    Held M { input with slipRoadOnly := false } (segments.filter isSlipRoad) maxOffsetM p stated
      part ∨
    AtJunction M input segments maxOffsetM p stated part

/-- The ramp of a path that closes roads closes them, in its one direction. -/
theorem slipRoadAtJunction_spec {slipRoad : Option SlipRoad} {graph : SegmentGraph ℚ}
    {r' : BindResult} (h : slipRoadAtJunction M r slipRoad segments graph = some r') :
    r.routable = true ∧ r'.directionMode = .single ∧ ∃ kind corridor ramp, slipRoad = some kind ∧
      corridorOf M r.segments kind graph = some corridor ∧ ramp ∈ segments ∧
      isSlipRoad ramp = true ∧ rampKey kind ramp ∈ junctionNodes M kind corridor ∧
      r'.segments = [rampHead M kind ramp] := by
  unfold slipRoadAtJunction at h
  split at h
  · next kind bound hconfidence =>
    by_cases hguard : r.routable = false ∨ r.directionMode ≠ .single
    · rw [if_pos hguard] at h
      cases h
    rw [if_neg hguard] at h
    rw [not_or, Bool.not_eq_false, not_not] at hguard
    obtain ⟨corridor, hcorridor, h⟩ := Option.bind_eq_some_iff.mp h
    dsimp only at h
    split at h
    · cases h
    · next ramp others hramps =>
      have hmem : ramp ∈ ramp :: others := List.mem_cons_self
      rw [← hramps, List.mem_filter, Bool.and_eq_true, Bool.and_eq_true] at hmem
      by_cases hothers : (others.any fun s => decide (s.wayId ≠ ramp.wayId)) = true
      · rw [if_pos hothers] at h
        cases h
      rw [if_neg hothers] at h
      obtain rfl := Option.some.inj h
      exact ⟨hguard.1, hguard.2, kind, corridor, ramp, rfl, hcorridor, hmem.1, hmem.2.1.1,
        of_decide_eq_true hmem.2.2, rfl⟩
  · cases h

/-! ## Events -/

/-- The binding of a shape is decided, and that of its one point is that of the point. -/
theorem bindShape_spec {spacingM : ℚ}
    (h : bindShape M shape input segments maxOffsetM spacingM = some r) :
    Decided r ∧ ∀ p, pointOf shape = some p → r = bindPoint M p input segments maxOffsetM := by
  unfold bindShape at h
  dsimp only at h
  split at h
  · obtain rfl := Option.some.inj h
    exact ⟨bindPoint_decided _, fun p hp => by rw [Option.some.inj hp]⟩
  · obtain rfl := Option.some.inj h
    exact ⟨bindEndpoints_decided _ _ _ _, nofun⟩
  · obtain rfl := Option.some.inj h
    exact ⟨decided_of_not_routable (failure_not_routable ⟨by decide, by decide⟩), nofun⟩
  · obtain rfl := Option.some.inj h
    exact ⟨bindPoint_decided _, fun p hp => by rw [Option.some.inj hp]⟩
  · next coords hnil hone =>
    refine ⟨bindLine_decided h, fun p hp => ?_⟩
    unfold pointOf at hp
    split at hp
    · next heq => cases heq
    · next heq => exact absurd (Shape.line.inj heq) (hone _)
    · cases hp
  · obtain rfl := Option.some.inj h
    exact ⟨decided_of_not_routable (failure_not_routable ⟨by decide, by decide⟩), nofun⟩

/-- The binding of a shape with nothing to bind closes no road. -/
theorem bindShape_unbound {spacingM : ℚ} (hunbound : shape.isUnbound = true)
    (h : bindShape M shape input segments maxOffsetM spacingM = some r) : r.routable = false := by
  unfold Shape.isUnbound at hunbound
  split at hunbound
  · obtain rfl := Option.some.inj h
    exact failure_not_routable ⟨by decide, by decide⟩
  · obtain rfl := Option.some.inj h
    exact failure_not_routable ⟨by decide, by decide⟩
  · cases hunbound

/-- A binding of an event closes no road, or is that of its shape, held against the direction that is
stated. -/
theorem bindEventWith_cases {narrow : BindResult → SegmentGraph ℚ → Option BindResult}
    (h : bindEventWith M narrow input segments opts = some r) :
    r.routable = false ∨ ∃ shape result, shapeOf input.geometry = some shape ∧ Decided result ∧
      (∀ p, pointOf shape = some p →
        result = bindPoint M p input segments (opts.maxOffsetM.getD defaultMaxOffsetM)) ∧
      (if input.slipRoadOnly = true then
          narrow (oriented M result input.travel shape segments) (SegmentGraph.of segments)
        else some (oriented M result input.travel shape segments)) = some r := by
  have hfails : ∀ {status : BindingStatus} {reason : String},
      status ≠ .exact ∧ status ≠ .likely → some (failure status reason 0 []) = some r →
        r.routable = false := by
    intro status reason hstatus heq
    obtain rfl := Option.some.inj heq
    exact failure_not_routable hstatus
  unfold bindEventWith at h
  dsimp only at h
  by_cases htype : input.type ∈ notApplicableTypes
  · rw [if_pos htype] at h
    exact Or.inl (hfails ⟨by decide, by decide⟩ h)
  rw [if_neg htype] at h
  cases hshape : shapeOf input.geometry with
  | none =>
    rw [hshape] at h
    exact Or.inl (hfails ⟨by decide, by decide⟩ h)
  | some shape =>
    rw [hshape] at h
    dsimp only at h
    by_cases hsize : maxSubgraphSegments < segments.length ∧ shape ≠ .disconnected
    · rw [if_pos hsize] at h
      exact Or.inl (hfails ⟨by decide, by decide⟩ h)
    rw [if_neg hsize] at h
    obtain ⟨result, hresult, h⟩ := Option.bind_eq_some_iff.mp h
    obtain ⟨hdecided, hpoint⟩ := bindShape_spec hresult
    by_cases hunbound : shape.isUnbound = true
    · rw [if_pos hunbound] at h
      obtain rfl := Option.some.inj h
      exact Or.inl (bindShape_unbound hunbound hresult)
    · rw [if_neg hunbound] at h
      exact Or.inr ⟨shape, result, rfl, hdecided, hpoint, h⟩

/-- The one point of a geometry. -/
def Geometry.onePoint (geometry : Geometry) : Option LngLat := (shapeOf geometry).bind pointOf

/-- A binding of an event that is not narrowed closes roads only with a direction that its location
does not rule out, and is held against a stated heading at a point. -/
theorem bindEventWith_safe {narrow : BindResult → SegmentGraph ℚ → Option BindResult}
    (h : bindEventWith M narrow input segments opts = some r) (hall : input.slipRoadOnly = false)
    (hr : r.routable = true) :
    r.directionMode ≠ .unknown ∧ Placeable input.travel ∧
      ∀ stated p, input.travel = some (.heading stated) → input.geometry.onePoint = some p →
        ∀ part ∈ r.segments,
          Held M input segments (opts.maxOffsetM.getD defaultMaxOffsetM) p stated part := by
  rcases bindEventWith_cases h with hnot | ⟨shape, result, hshape, hdecided, hpoint, hplaced⟩
  · rw [hnot] at hr
    cases hr
  · rw [if_neg (by rw [hall]; decide)] at hplaced
    obtain rfl := Option.some.inj hplaced
    obtain ⟨hmode, hplaceable⟩ := oriented_decided hdecided hr
    refine ⟨hmode, hplaceable, fun stated p htravel hone => ?_⟩
    rw [Geometry.onePoint, hshape, Option.bind_some] at hone
    rw [htravel] at hr ⊢
    obtain rfl := hpoint p hone
    exact held_oriented hone hr

/-- The binding of slip roads that closes roads: some spans of the binding that is narrowed, the
binding among the slip roads, or that of a ramp at its junction. -/
theorem onSlipRoads_cases {graph : SegmentGraph ℚ} {r' : BindResult}
    (h : onSlipRoads M r input segments graph opts = some r') (hr : r'.routable = true) :
    (r.routable = true ∧ r'.directionMode = r.directionMode ∧ ∀ part ∈ r'.segments,
      part ∈ r.segments) ∨
    bindEventWith M (fun placed _ => some placed) { input with slipRoadOnly := false }
      (segments.filter isSlipRoad) opts = some r' ∨
    (r.segments ≠ [] ∧ slipRoadAtJunction M r input.slipRoad segments graph = some r') := by
  unfold onSlipRoads at h
  dsimp only at h
  by_cases hempty : r.segments = []
  · rw [if_pos hempty] at h
    obtain rfl := Option.some.inj h
    exact Or.inl ⟨hr, rfl, fun _ hpart => hpart⟩
  rw [if_neg hempty] at h
  generalize hslip : r.segments.filter (fun part => decide (part.segmentId ∈
    (segments.filter isSlipRoad).map SpineSegment.segmentId)) = onSlip at h
  by_cases hsome : onSlip ≠ []
  · rw [if_pos hsome] at h
    obtain rfl := Option.some.inj h
    exact Or.inl ⟨hr, rfl, fun part hpart => List.mem_of_mem_filter (hslip ▸ hpart)⟩
  rw [if_neg hsome] at h
  obtain ⟨drawn, hdrawn, rfl⟩ := Option.map_eq_some_iff.mp h
  cases drawn with
  | some links =>
    refine Or.inr (Or.inl ?_)
    unfold drawnOnSlipRoads at hdrawn
    split at hdrawn
    · cases hdrawn
    · obtain ⟨bound, hbound, hlinks⟩ := Option.map_eq_some_iff.mp hdrawn
      split at hlinks
      · split_ifs at hlinks
        obtain rfl := Option.some.inj hlinks
        exact hbound
      · cases hlinks
  | none =>
    rw [Option.none_or] at hr ⊢
    cases hjunction : slipRoadAtJunction M r input.slipRoad segments graph with
    | some ramp => exact Or.inr (Or.inr ⟨hempty, rfl⟩)
    | none =>
      rw [hjunction, Option.getD_none, failure_not_routable ⟨by decide, by decide⟩] at hr
      cases hr

/-- **Bindings that close roads are safe**: their direction is decided and not ruled out by what is
stated of it, and where a heading is stated of a point, every span is held against it. -/
theorem bindEvent_safe (M : RoadMeasures) (input : BindInput) (segments : List (SpineSegment ℚ))
    (opts : BindOptions) (r : BindResult) (h : bindEvent M input segments opts = some r)
    (hr : r.status = .exact ∨ r.status = .likely) :
    r.directionMode ≠ .unknown ∧
      (input.travel ≠ some .against ∧ input.travel ≠ some .unplaced) ∧
      ∀ stated p, input.travel = some (.heading stated) → input.geometry.onePoint = some p →
        ∀ part ∈ r.segments,
          if input.slipRoadOnly = true then
            HeldOnSlipRoads M input segments (opts.maxOffsetM.getD defaultMaxOffsetM) p stated part
          else Held M input segments (opts.maxOffsetM.getD defaultMaxOffsetM) p stated part := by
  have hroutable : r.routable = true := decide_eq_true hr
  cases hslip : input.slipRoadOnly with
  | false =>
    obtain ⟨hmode, hplaceable, hheld⟩ := bindEventWith_safe h hslip hroutable
    exact ⟨hmode, hplaceable, fun stated p htravel hone part hpart =>
      (if_neg (by decide)).mpr (hheld stated p htravel hone part hpart)⟩
  | true =>
    rcases bindEventWith_cases h with hnot | ⟨shape, result, hshape, hdecided, hpoint, hplaced⟩
    · rw [hnot] at hroutable
      cases hroutable
    rw [if_pos hslip] at hplaced
    have hheld : (oriented M result input.travel shape segments).routable = true →
        ∀ stated p, input.travel = some (.heading stated) → input.geometry.onePoint = some p →
          ∀ part ∈ (oriented M result input.travel shape segments).segments,
            Held M input segments (opts.maxOffsetM.getD defaultMaxOffsetM) p stated part := by
      intro hplacedRoutable stated p htravel hone
      rw [Geometry.onePoint, hshape, Option.bind_some] at hone
      rw [htravel] at hplacedRoutable ⊢
      obtain rfl := hpoint p hone
      exact held_oriented hone hplacedRoutable
    rcases onSlipRoads_cases hplaced hroutable with ⟨hplacedRoutable, hmode, hparts⟩ | hlinks |
      ⟨hsome, hjunction⟩
    · obtain ⟨hdirection, hplaceable⟩ := oriented_decided hdecided hplacedRoutable
      refine ⟨hmode ▸ hdirection, hplaceable, fun stated p htravel hone part hpart => ?_⟩
      exact (if_pos rfl).mpr (Or.inl (hheld hplacedRoutable stated p htravel hone part
        (hparts part hpart)))
    · obtain ⟨hdirection, hplaceable, hlinksHeld⟩ := bindEventWith_safe hlinks rfl hroutable
      refine ⟨hdirection, hplaceable, fun stated p htravel hone part hpart => ?_⟩
      exact (if_pos rfl).mpr (Or.inr (Or.inl (hlinksHeld stated p htravel hone part hpart)))
    · obtain ⟨hplacedRoutable, hmode, kind, corridor, ramp, hkind, hcorridor, hramp, hslipRoad, hnode,
        hsegments⟩ := slipRoadAtJunction_spec hjunction
      obtain ⟨-, hplaceable⟩ := oriented_decided hdecided hplacedRoutable
      refine ⟨fun heq => (by rw [heq] at hmode; cases hmode), hplaceable,
        fun stated p htravel hone part hpart => (if_pos rfl).mpr (Or.inr (Or.inr ?_))⟩
      rw [hsegments, List.mem_singleton] at hpart
      exact ⟨kind, _, corridor, ramp, hkind, hsome, hheld hplacedRoutable stated p htravel hone,
        hcorridor, hramp, hslipRoad, hnode, hpart⟩

/-! ## Streets along the equator -/

/-- Metres between two points, along the streets of a grid. -/
def gridMeters (a b : LngLat) : ℚ := 111195 * (|a.1 - b.1| + |a.2 - b.2|)

/-- The bearing of a street of the grid. -/
def gridBearing (a b : LngLat) : ℚ :=
  if a.1 < b.1 then 90 else if b.1 < a.1 then 270 else if b.2 < a.2 then 180 else 0

/-- The length of a way along the streets. -/
def gridLength : List LngLat → ℚ
  | a :: b :: rest => gridMeters a b + gridLength (b :: rest)
  | _ => 0

/-- Where a point lies on the legs of a way of some length, from the nearest of those before. -/
def projectOntoLegs (p : LngLat) (totalM : ℚ) :
    List LngLat → ℚ → Option Projection → Option Projection
  | a :: b :: rest, alongM, nearest =>
    let q : LngLat := (max (min a.1 b.1) (min (max a.1 b.1) p.1),
      max (min a.2 b.2) (min (max a.2 b.2) p.2))
    let leg : Projection := ⟨gridMeters p q, (alongM + gridMeters a q) / totalM, gridBearing a b⟩
    projectOntoLegs p totalM (b :: rest) (alongM + gridMeters a b)
      (some ((nearest.filter fun other => decide (other.offsetM ≤ leg.offsetM)).getD leg))
  | _, _, nearest => nearest

/-- Measures of streets along the equator, whose roads are told by their numbers. -/
def gridMeasures : RoadMeasures where
  haversineMeters := gridMeters
  bearingDeg := gridBearing
  bearingDelta a b := min |a - b| (360 - |a - b|)
  projectOntoPolyline p coords :=
    (projectOntoLegs p (gridLength coords) coords 0 none).getD ⟨0, 0, 0⟩
  cosDeg _ := 1
  identityScore input s :=
    match s.ref with
    | some ref => if ref ∈ input.refs then 1 else 0
    | none => 1 / 2

/-- A motorway's carriageway between two points. -/
def carriageway (id : String) (dir : SegmentDir) (start stop : LngLat) : SpineSegment ℚ :=
  ⟨id, 1, dir, "motorway", some "A46", none, [start, stop], gridMeters start stop⟩

/-- An exit that loops under the carriageway it leaves. -/
def loopRamp : SpineSegment ℚ :=
  ⟨"2:f", 2, .f, "motorway_link", none, none,
    [(63 / 10000, 0), (64 / 10000, 0), (64 / 10000, -5 / 10000), (4 / 1000, -5 / 10000)], 400⟩

/-- A closure at a point of the motorway. -/
def closureAt (heading : ℚ) (slipRoadOnly : Bool) : BindInput :=
  ⟨.point (5 / 1000, 0), "closure", ["A46"], none, none, some (.heading heading), slipRoadOnly,
    if slipRoadOnly = true then some .exit else none⟩

/-- Eastward on a motorway with both directions, the eastward carriageway is closed. -/
theorem bindEvent_safe_eastward : ∃ r, bindEvent gridMeasures (closureAt 90 false)
      [carriageway "1:f" .f (0, 0) (1 / 100, 0), carriageway "1:b" .b (1 / 100, 0) (0, 0)]
      ⟨none, none⟩ = some r ∧ r.directionMode ≠ .unknown ∧
    ∀ part ∈ r.segments, Held gridMeasures (closureAt 90 false)
      [carriageway "1:f" .f (0, 0) (1 / 100, 0), carriageway "1:b" .b (1 / 100, 0) (0, 0)] 40
      (5 / 1000, 0) 90 part := by
  have hstatus : (bindEvent gridMeasures (closureAt 90 false)
      [carriageway "1:f" .f (0, 0) (1 / 100, 0), carriageway "1:b" .b (1 / 100, 0) (0, 0)]
      ⟨none, none⟩).map BindResult.status = some .exact := by decide +kernel
  obtain ⟨r, hr, hexact⟩ := Option.map_eq_some_iff.mp hstatus
  obtain ⟨hmode, -, hheld⟩ := bindEvent_safe gridMeasures _ _ _ r hr (Or.inl hexact)
  exact ⟨r, hr, hmode, fun part hpart => hheld 90 (5 / 1000, 0) rfl rfl part hpart⟩

/-- A binding of a closure at the point closes a span of which the carriageway runs against the
heading that is stated. -/
def closesAgainst (heading : ℚ) (slipRoadOnly : Bool) (segments : List (SpineSegment ℚ)) : Bool :=
  (bindEvent gridMeasures (closureAt heading slipRoadOnly) segments ⟨none, none⟩).any fun r =>
    r.routable && r.segments.any fun part => segments.any fun s =>
      decide (s.segmentId = part.segmentId ∧ headingConflictDeg < gridMeasures.bearingDelta
        (gridMeasures.projectOntoPolyline (5 / 1000, 0) s.coords).bearing heading)

/-- Westward on a carriageway that runs east alone, it is closed; and so is the start of an exit that
runs back west at the point, for a closure of the exit eastward. -/
theorem closed_against_heading :
    closesAgainst 270 false [carriageway "1:f" .f (0, 0) (1 / 100, 0)] = true ∧
      closesAgainst 90 true [carriageway "1:f" .f (0, 0) (63 / 10000, 0), loopRamp] = true := by
  constructor <;> decide +kernel

end OpenConditions.Roads

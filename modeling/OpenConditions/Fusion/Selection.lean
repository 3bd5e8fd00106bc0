import OpenConditions.Fusion.Fuse

set_option relaxedAutoImplicit false
set_option autoImplicit false

/-!
# The reading that wins

Among the readings in effect the best one wins, whatever their order: a fresh one before a stale
one, then the one of the higher tier, then the later one, then the one of the smaller id.

## Main definitions

* `Eligible` — a candidate that may win.
* `Precedes` — a candidate that is better than another.
* `Picks` — what a fusion says of its candidates.

## Main results

* `rankAll_eq_ok` — the ranked candidates are the eligible ones, with the place of their tier.
* `sort_ranked_perm` — their order is that of no list they are given in.
* `fuse_picks_best` — fusion picks the best candidate and those that agree with it.
-/

namespace OpenConditions.Fusion

open OpenConditions.Storage

/-- The platform's collation, taken as a total order. -/
structure LocaleOrder (localeLe : String → String → Bool) : Prop where
  total : ∀ a b, localeLe a b = true ∨ localeLe b a = true
  trans : ∀ a b c, localeLe a b = true → localeLe b c = true → localeLe a c = true
  antisymm : ∀ a b, localeLe a b = true → localeLe b a = true → a = b

section Candidates

variable {J : Type} (order : List FusionTier) (property : String) (now : Instant)

/-- A candidate whose source's tier is not told. -/
def Tierless (c : FusionCandidate J) : Prop := c.isCrowd = false ∧ c.sourceTier = none

/-- A candidate that may win. -/
structure Eligible (c : FusionCandidate J) : Prop where
  ofProperty : c.observation.property = property
  ranked : ∃ tier ∈ order, fusionTierOf c = .ok (some tier)
  started : startOf c.observation ≤ now
  valid : ∀ t ∈ c.observation.validUntil, now < t.instant
  unexpired : c.isCrowd = true → ∀ t ∈ c.observation.expiresAt, now < t.instant

/-- The place of a candidate's tier in the order, past the end for one that is not ranked. -/
def tierRank (c : FusionCandidate J) : ℕ :=
  match fusionTierOf c with
  | .ok (some tier) => order.idxOf tier
  | _ => order.length

/-- A candidate is better than another: fresh where the other is stale, then of a higher tier, then
later, then of a smaller id. -/
def Precedes (localeLe : String → String → Bool) (a b : FusionCandidate J) : Prop :=
  (a.stale = false ∧ b.stale = true) ∨
    (a.stale = b.stale ∧
      (tierRank order a < tierRank order b ∨
        (tierRank order a = tierRank order b ∧
          (startOf b.observation < startOf a.observation ∨
            (startOf a.observation = startOf b.observation ∧
              localeLe a.observation.id b.observation.id = true ∧
                a.observation.id ≠ b.observation.id)))))

end Candidates

section Ranking

variable {J : Type} {order : List FusionTier} {property : String} {now : Instant}
  {c : FusionCandidate J} {cs : List (FusionCandidate J)}

/-! ## What is ranked -/

/-- A tier is missing only where a source's is not told. -/
theorem fusionTierOf_eq_error : (∃ e, fusionTierOf c = .error e) ↔ Tierless c := by
  unfold fusionTierOf Tierless
  cases c.isCrowd <;> cases c.sourceTier <;> simp

/-- A row is in effect where it has started and has not ended. -/
theorem isInEffect_iff : isInEffect now c = true ↔
    startOf c.observation ≤ now ∧ (∀ t ∈ c.observation.validUntil, now < t.instant) ∧
      (c.isCrowd = true → ∀ t ∈ c.observation.expiresAt, now < t.instant) := by
  unfold isInEffect
  cases hcrowd : c.isCrowd <;> cases c.observation.validUntil <;>
    cases c.observation.expiresAt <;> simp [and_assoc]

/-- **A candidate is ranked where it is eligible**, by the place of its tier. -/
theorem rankOf_eq_some {r : Ranked J} : rankOf order property now c = .ok (some r) ↔
    Eligible order property now c ∧ r = ⟨c, tierRank order c⟩ := by
  unfold rankOf
  constructor
  · intro h
    split_ifs at h with hproperty
    · cases h
    · cases htier : fusionTierOf c with
      | error e =>
        rw [htier] at h
        cases h
      | ok tier =>
        rw [htier] at h
        cases tier with
        | none => cases h
        | some tier =>
          dsimp only at h
          split_ifs at h with hranked
          · obtain ⟨hmem, heffect⟩ := hranked
            obtain ⟨hstarted, hvalid, hexpires⟩ := Iff.mp isInEffect_iff heffect
            refine ⟨⟨not_not.mp hproperty, ⟨tier, hmem, htier⟩, hstarted, hvalid, hexpires⟩, ?_⟩
            simpa [tierRank, htier] using h.symm
          · cases h
  · rintro ⟨heligible, rfl⟩
    obtain ⟨tier, hmem, htier⟩ := heligible.ranked
    have heffect : isInEffect now c = true :=
      Iff.mpr isInEffect_iff ⟨heligible.started, heligible.valid, heligible.unexpired⟩
    simp [heligible.ofProperty, htier, hmem, heffect, tierRank]

/-- Ranking fails where the tier of a row of the property is not told. -/
theorem rankOf_eq_error : (∃ e, rankOf order property now c = .error e) ↔
    c.observation.property = property ∧ Tierless c := by
  rw [← fusionTierOf_eq_error]
  unfold rankOf
  by_cases hproperty : c.observation.property = property
  · rw [if_neg (not_not.mpr hproperty)]
    cases htier : fusionTierOf c with
    | error e => simp [hproperty]
    | ok tier =>
      cases tier with
      | none => simp
      | some tier =>
        dsimp only
        split_ifs <;> simp
  · simp [hproperty]

/-- The rank of a candidate, if it has one. -/
def rankedOf (order : List FusionTier) (property : String) (now : Instant) (c : FusionCandidate J) :
    Option (Ranked J) :=
  (rankOf order property now c).toOption.join

/-- A rank that a candidate has. -/
theorem rankedOf_eq_some {r : Ranked J} : rankedOf order property now c = some r ↔
    Eligible order property now c ∧ r = ⟨c, tierRank order c⟩ := by
  rw [← rankOf_eq_some]
  unfold rankedOf
  cases rankOf order property now c <;> simp [Except.toOption]

/-- **The ranked candidates**, unless one of them has no tier. -/
theorem rankAll_eq_ok {l : List (Ranked J)} : rankAll order property now cs = .ok l ↔
    (∀ c ∈ cs, ¬∃ e, rankOf order property now c = .error e) ∧
      l = cs.filterMap (rankedOf order property now) := by
  induction cs generalizing l with
  | nil => simp [rankAll, eq_comm]
  | cons c cs ih =>
    unfold rankAll
    cases hc : rankOf order property now c with
    | error e => simp [hc]
    | ok ranked =>
      have hranked : rankedOf order property now c = ranked := by simp [rankedOf, hc, Except.toOption]
      have hcons : (c :: cs).filterMap (rankedOf order property now) =
          ranked.toList ++ cs.filterMap (rankedOf order property now) := by
        cases ranked <;> simp [hranked]
      cases hcs : rankAll order property now cs with
      | error e =>
        have hsome : ¬∀ c ∈ cs, ¬∃ e, rankOf order property now c = .error e := by
          intro hall
          have hok := ih.mpr ⟨hall, rfl⟩
          rw [hcs] at hok
          cases hok
        simp only [reduceCtorEq, List.forall_mem_cons, false_iff, not_and]
        exact fun h _ => hsome h.2
      | ok rest =>
        obtain ⟨hall, rfl⟩ := ih.mp hcs
        rw [hcons]
        simp only [Except.ok.injEq, List.forall_mem_cons, hc, reduceCtorEq, exists_false,
          not_false_eq_true, true_and]
        exact ⟨fun h => ⟨hall, h.symm⟩, fun h => h.2.symm⟩

/-- The rank of every eligible candidate is among the ranked ones, and no other. -/
theorem mem_filterMap_rankedOf {r : Ranked J} :
    r ∈ cs.filterMap (rankedOf order property now) ↔
      r.c ∈ cs ∧ Eligible order property now r.c ∧ r.rank = tierRank order r.c := by
  simp only [List.mem_filterMap, rankedOf_eq_some]
  constructor
  · rintro ⟨c, hc, heligible, rfl⟩
    exact ⟨hc, heligible, rfl⟩
  · rintro ⟨hc, heligible, hrank⟩
    refine ⟨r.c, hc, heligible, ?_⟩
    cases r
    simp_all

/-- Distinct candidates have distinct ranked rows. -/
theorem filterMap_rankedOf_nodup (hnodup : cs.Nodup) :
    (cs.filterMap (rankedOf order property now)).Nodup := by
  refine hnodup.filterMap fun a b r ha hb => ?_
  obtain ⟨-, rfl⟩ := Iff.mp rankedOf_eq_some ha
  obtain ⟨-, heq⟩ := Iff.mp rankedOf_eq_some hb
  exact congrArg Ranked.c heq

end Ranking

/-! ## The order of the ranked -/

section Order

variable {J : Type} {localeLe : String → String → Bool} {order : List FusionTier}
  {property : String} {now : Instant} {cs cs' : List (FusionCandidate J)} {a b : Ranked J}

/-- The order of the ranked compares freshness, the tier, the start and the id, one after the
other. -/
theorem ranksBefore_eq : ranksBefore localeLe (J := J) =
    Sorting.descendingThen (fun r => !r.c.stale)
      (Sorting.descendingThen (fun r => OrderDual.toDual r.rank)
        (Sorting.descendingThen (fun r => startOf r.c.observation)
          fun a b => localeLe a.c.observation.id b.c.observation.id)) := by
  funext a b
  have hfresh : (!b.c.stale) ≠ (!a.c.stale) ↔ a.c.stale ≠ b.c.stale := by
    cases a.c.stale <;> cases b.c.stale <;> simp
  have htier : OrderDual.toDual b.rank ≠ OrderDual.toDual a.rank ↔ a.rank ≠ b.rank := by
    simp [eq_comm]
  have hstart : startOf b.c.observation ≠ startOf a.c.observation ↔
      startOf a.c.observation ≠ startOf b.c.observation := ne_comm
  unfold ranksBefore Sorting.descendingThen
  simp only [hfresh, htier, hstart]
  by_cases hstale : a.c.stale = b.c.stale
  · rw [if_neg (not_not.mpr hstale), if_neg (not_not.mpr hstale)]
    by_cases hrank : a.rank = b.rank
    · rw [if_neg (not_not.mpr hrank), if_neg (not_not.mpr hrank)]
      by_cases heq : startOf a.c.observation = startOf b.c.observation
      · simp [heq]
      · simp [heq, Ne.symm heq, le_iff_lt_or_eq]
    · simp [hrank, lt_iff_le_and_ne]
  · rw [if_pos hstale, if_pos hstale]
    have hbool : ∀ x y : Bool, x ≠ y → (!x) = decide ((!y) ≤ !x) := by decide
    exact hbool _ _ hstale

/-- Ranked rows that stand before each other have ids that tie. -/
theorem locale_tie_of_ranksBefore (hab : ranksBefore localeLe a b = true)
    (hba : ranksBefore localeLe b a = true) :
    localeLe a.c.observation.id b.c.observation.id = true ∧
      localeLe b.c.observation.id a.c.observation.id = true := by
  rw [ranksBefore_eq] at hab hba
  obtain ⟨hab, hba⟩ := Sorting.tie_of_descendingThen hab hba
  obtain ⟨hab, hba⟩ := Sorting.tie_of_descendingThen hab hba
  obtain ⟨hab, hba⟩ := Sorting.tie_of_descendingThen hab hba
  exact ⟨hab, hba⟩

/-- The order tells the ranked of candidates apart whose ids it tells apart. -/
theorem separates_ranked
    (hids : Sorting.Separates (fun a b => localeLe a.observation.id b.observation.id) cs) :
    Sorting.Separates (ranksBefore localeLe) (cs.filterMap (rankedOf order property now)) := by
  intro a ha b hb hab hba
  obtain ⟨hac, -, harank⟩ := Iff.mp mem_filterMap_rankedOf ha
  obtain ⟨hbc, -, hbrank⟩ := Iff.mp mem_filterMap_rankedOf hb
  obtain ⟨hle, hge⟩ := locale_tie_of_ranksBefore hab hba
  have hc : a.c = b.c := hids a.c hac b.c hbc hle hge
  cases a
  cases b
  simp_all

section Preorder

variable (hlocale : Sorting.OrdersBy localeLe)

include hlocale

/-- The order of the ranked is a total preorder. -/
theorem ranksBefore_ordersBy : Sorting.OrdersBy (ranksBefore localeLe (J := J)) := by
  rw [ranksBefore_eq]
  refine Sorting.OrdersBy.descendingThen (Sorting.OrdersBy.descendingThen
    (Sorting.OrdersBy.descendingThen ⟨fun a b => ?_, fun a b c => ?_⟩))
  · exact hlocale.total _ _
  · exact hlocale.trans _ _ _

/-- **The order of the ranked is that of no list they are given in.** -/
theorem sort_ranked_perm
    (hids : Sorting.Separates (fun a b => localeLe a.observation.id b.observation.id) cs)
    (hperm : cs.Perm cs') :
    Sorting.sortBy (ranksBefore localeLe) (cs.filterMap (rankedOf order property now)) =
      Sorting.sortBy (ranksBefore localeLe) (cs'.filterMap (rankedOf order property now)) :=
  Sorting.sortBy_congr_perm (ranksBefore_ordersBy hlocale) (separates_ranked hids)
    (hperm.filterMap _)

end Preorder

variable (hlocale : LocaleOrder localeLe)

include hlocale

/-- A total order is a total preorder. -/
theorem LocaleOrder.ordersBy : Sorting.OrdersBy localeLe := ⟨hlocale.total, hlocale.trans⟩

/-- A total order tells distinct ids apart. -/
theorem LocaleOrder.separates (hids : (cs.map fun c => c.observation.id).Nodup) :
    Sorting.Separates (fun a b => localeLe a.observation.id b.observation.id) cs :=
  fun _ ha _ hb hab hba => List.inj_on_of_nodup_map hids ha hb (hlocale.antisymm _ _ hab hba)

/-- A candidate that is better than another does not stand behind it. -/
theorem not_ranksBefore_of_precedes (ha : a.rank = tierRank order a.c)
    (hb : b.rank = tierRank order b.c) (h : Precedes order localeLe b.c a.c) :
    ranksBefore localeLe a b = false := by
  unfold ranksBefore
  rcases h with ⟨hfresh, hstale⟩ | ⟨hstale, h⟩
  · simp [hfresh, hstale]
  · rw [if_neg (not_not.mpr hstale.symm)]
    rcases h with hrank | ⟨hrank, h⟩
    · rw [← ha, ← hb] at hrank
      rw [if_pos hrank.ne']
      simpa using hrank.le
    · rw [← ha, ← hb] at hrank
      rw [if_neg (not_not.mpr hrank.symm)]
      rcases h with hstart | ⟨hstart, hle, hne⟩
      · rw [if_pos hstart.ne]
        simpa using hstart.le
      · rw [if_neg (not_not.mpr hstart.symm), Bool.eq_false_iff]
        exact fun hle' => hne (hlocale.antisymm _ _ hle hle')

end Order

/-! ## What fusion picks -/

section Picks

variable {J : Type} (env : FusionEnv J) (order : List FusionTier) (property : String) (now : Instant)

/-- What a fusion says of its candidates. -/
structure Picks (candidates : List (FusionCandidate J)) (f : Fusion J) : Prop where
  winner_mem : f.winner ∈ candidates
  winner_eligible : Eligible order property now f.winner
  /-- No eligible candidate is better than the winner. -/
  best : ∀ c ∈ candidates, Eligible order property now c →
    ¬Precedes order env.localeLe c f.winner
  /-- The contributors are the eligible candidates of the winner's rank and staleness with the
  winner's result. -/
  contributors : ∀ c, c ∈ f.contributors ↔
    c ∈ candidates ∧ Eligible order property now c ∧
      tierRank order c = tierRank order f.winner ∧ c.stale = f.winner.stale ∧
        env.jcs c.observation.result = env.jcs f.winner.observation.result
  /-- Each contributes once. -/
  contributors_nodup : f.contributors.Nodup
  stale : f.stale = f.winner.stale

variable {env order property now} {entry : PropertyEntry} {candidates : List (FusionCandidate J)}

/-- The fusion of ranked rows in their order. -/
def fusionOf (env : FusionEnv J) (first : Ranked J) (ranked : List (Ranked J)) : Fusion J :=
  ⟨first.c, (ranked.filter fun r =>
    decide (r.rank = first.rank ∧ r.c.stale = first.c.stale ∧
      env.jcs r.c.observation.result = env.jcs first.c.observation.result)).map Ranked.c,
    first.c.stale⟩

/-- Fusion ranks, sorts and takes the first with those that agree with it. -/
theorem fuse_of_rankAll {l : List (Ranked J)} (hentry : env.property property = some entry)
    (hl : rankAll (entry.fusionTiers.getD fusionTiers) property now candidates = .ok l) :
    fuse env property candidates now = .ok
      ((Sorting.sortBy (ranksBefore env.localeLe) l).head?.map fun first =>
        fusionOf env first (Sorting.sortBy (ranksBefore env.localeLe) l)) := by
  unfold fuse
  rw [hentry]
  dsimp only
  rw [hl]
  dsimp only
  cases (Sorting.sortBy (ranksBefore env.localeLe) l).head? <;> rfl

/-- **Fusion fails where the tier of a row of the property is not told**, and nowhere else. -/
theorem fuse_eq_error (hentry : env.property property = some entry) :
    (∃ e, fuse env property candidates now = .error e) ↔
      ∃ c ∈ candidates, c.observation.property = property ∧ Tierless c := by
  have hranked : (∃ e, fuse env property candidates now = .error e) ↔
      ¬∃ l, rankAll (entry.fusionTiers.getD fusionTiers) property now candidates = .ok l := by
    cases hl : rankAll (entry.fusionTiers.getD fusionTiers) property now candidates with
    | error e => simp [fuse, hentry, hl]
    | ok l => simp [fuse_of_rankAll hentry hl]
  rw [hranked]
  simp only [rankAll_eq_ok, rankOf_eq_error, exists_and_left, exists_eq, and_true]
  push Not
  rfl

/-- What fusion gives is that of the eligible candidates in their order. -/
theorem fuse_eq_ok {result : Option (Fusion J)} (hentry : env.property property = some entry)
    (h : fuse env property candidates now = .ok result) :
    result = (Sorting.sortBy (ranksBefore env.localeLe) (candidates.filterMap
      (rankedOf (entry.fusionTiers.getD fusionTiers) property now))).head?.map fun first =>
        fusionOf env first (Sorting.sortBy (ranksBefore env.localeLe) (candidates.filterMap
          (rankedOf (entry.fusionTiers.getD fusionTiers) property now))) := by
  cases hl : rankAll (entry.fusionTiers.getD fusionTiers) property now candidates with
  | error e =>
    have herror : fuse env property candidates now = .error e := by simp [fuse, hentry, hl]
    rw [herror] at h
    cases h
  | ok l =>
    rw [fuse_of_rankAll hentry hl, (Iff.mp rankAll_eq_ok hl).2] at h
    exact (Except.ok.inj h).symm

/-- **A fusion is that of every order of its candidates**, where their ids are told apart. -/
theorem fuse_perm {result : Option (Fusion J)} {candidates' : List (FusionCandidate J)}
    (hentry : env.property property = some entry) (hlocale : Sorting.OrdersBy env.localeLe)
    (hids : Sorting.Separates (fun a b => env.localeLe a.observation.id b.observation.id)
      candidates)
    (hperm : candidates.Perm candidates')
    (hfuse : fuse env property candidates now = .ok result) :
    fuse env property candidates' now = .ok result := by
  cases hresult : fuse env property candidates' now with
  | error e =>
    obtain ⟨c, hc, htierless⟩ := (fuse_eq_error hentry).mp ⟨e, hresult⟩
    obtain ⟨e', he'⟩ := (fuse_eq_error hentry).mpr ⟨c, hperm.mem_iff.mpr hc, htierless⟩
    rw [hfuse] at he'
    cases he'
  | ok result' =>
    rw [fuse_eq_ok hentry hresult, fuse_eq_ok hentry hfuse, sort_ranked_perm hlocale hids hperm]

/-- The first of the ranked candidates is a fusion's pick. -/
theorem picks_fusionOf {first : Ranked J} (hlocale : LocaleOrder env.localeLe)
    (hids : (candidates.map fun c => c.observation.id).Nodup)
    (hfirst : (Sorting.sortBy (ranksBefore env.localeLe)
      (candidates.filterMap (rankedOf order property now))).head? = some first) :
    Picks env order property now candidates (fusionOf env first
      (Sorting.sortBy (ranksBefore env.localeLe)
        (candidates.filterMap (rankedOf order property now)))) := by
  have hsorted := Sorting.sortBy_pairwise (ranksBefore_ordersBy hlocale.ordersBy)
    (candidates.filterMap (rankedOf order property now))
  have hmem : ∀ r, r ∈ Sorting.sortBy (ranksBefore env.localeLe)
      (candidates.filterMap (rankedOf order property now)) ↔
        r.c ∈ candidates ∧ Eligible order property now r.c ∧ r.rank = tierRank order r.c :=
    fun r => Sorting.mem_sortBy.trans mem_filterMap_rankedOf
  have hnodup : (Sorting.sortBy (ranksBefore env.localeLe)
      (candidates.filterMap (rankedOf order property now))).Nodup :=
    (Sorting.sortBy_perm _ _).nodup_iff.mpr (filterMap_rankedOf_nodup hids.of_map)
  obtain ⟨hc, heligible, hrank⟩ := (hmem first).mp (List.mem_of_head? hfirst)
  generalize Sorting.sortBy (ranksBefore env.localeLe)
    (candidates.filterMap (rankedOf order property now)) = ranked at *
  refine ⟨hc, heligible, fun c hc' heligible' hbetter => ?_, fun c => ?_, ?_, rfl⟩
  · -- the candidate stands behind the first
    have hcmem : (⟨c, tierRank order c⟩ : Ranked J) ∈ ranked :=
      (hmem _).mpr ⟨hc', heligible', rfl⟩
    have hbehind : ranksBefore env.localeLe first ⟨c, tierRank order c⟩ = true := by
      obtain ⟨rest, rfl⟩ := List.head?_eq_some_iff.mp hfirst
      rcases List.mem_cons.mp hcmem with heq | hrest
      · rw [heq]
        exact ((ranksBefore_ordersBy hlocale.ordersBy).total first first).elim id id
      · exact (List.pairwise_cons.mp hsorted).1 _ hrest
    rw [not_ranksBefore_of_precedes hlocale hrank rfl hbetter] at hbehind
    cases hbehind
  · simp only [fusionOf, List.mem_map, List.mem_filter, decide_eq_true_eq, hmem, ← hrank]
    constructor
    · rintro ⟨r, ⟨⟨hr, hreligible, hrrank⟩, heq, hstale, hresult⟩, rfl⟩
      exact ⟨hr, hreligible, hrrank ▸ heq, hstale, hresult⟩
    · rintro ⟨hr, hreligible, heq, hstale, hresult⟩
      exact ⟨⟨c, tierRank order c⟩, ⟨⟨hr, hreligible, rfl⟩, heq, hstale, hresult⟩, rfl⟩
  · refine List.Nodup.map_on (fun a ha b hb hab => ?_) (hnodup.filter _)
    have harank := ((hmem a).mp (List.mem_of_mem_filter ha)).2.2
    have hbrank := ((hmem b).mp (List.mem_of_mem_filter hb)).2.2
    cases a
    cases b
    simp_all

/-- A crowd's report stands behind every authoritative row in the default order. -/
theorem tierRank_authoritative_lt {a b : FusionCandidate J}
    (ha : fusionTierOf a = .ok (some (.source .authoritative))) (hb : b.isCrowd = true) :
    tierRank fusionTiers a < tierRank fusionTiers b := by
  have hrank : tierRank fusionTiers a = 0 := by simp [tierRank, ha, fusionTiers]
  rw [hrank]
  unfold tierRank fusionTierOf
  rw [if_pos hb]
  rcases b.evidence with - | state
  · decide
  · cases state <;> decide

/-- **Fusion picks the best reading in effect, for every order of the candidates.**  It fails where
the tier of a row of the property is not told, and gives nothing where no candidate is eligible.  A
fusion's winner is an eligible candidate that no other is better than, and its contributors are
those that agree with the winner; it is the same for every order of the candidates.  In the default
order of the tiers no crowd's report wins over a fresh authoritative row. -/
theorem fuse_picks_best (hentry : env.property property = some entry)
    (hlocale : LocaleOrder env.localeLe)
    (hids : (candidates.map fun c => c.observation.id).Nodup) :
    ((∃ e, fuse env property candidates now = .error e) ↔
      ∃ c ∈ candidates, c.observation.property = property ∧ Tierless c) ∧
    (fuse env property candidates now = .ok none ↔
      (¬∃ c ∈ candidates, c.observation.property = property ∧ Tierless c) ∧
        ∀ c ∈ candidates, ¬Eligible (entry.fusionTiers.getD fusionTiers) property now c) ∧
    ∀ f, fuse env property candidates now = .ok (some f) →
      Picks env (entry.fusionTiers.getD fusionTiers) property now candidates f ∧
      (∀ candidates', candidates.Perm candidates' →
        fuse env property candidates' now = .ok (some f)) ∧
      (entry.fusionTiers.getD fusionTiers = fusionTiers → f.winner.isCrowd = true →
        ∀ c ∈ candidates, Eligible fusionTiers property now c → c.stale = false →
          fusionTierOf c ≠ .ok (some (.source .authoritative))) := by
  have hsome : ∀ f, fuse env property candidates now = .ok (some f) →
      Picks env (entry.fusionTiers.getD fusionTiers) property now candidates f := by
    intro f hf
    obtain ⟨first, hfirst, rfl⟩ := Option.map_eq_some_iff.mp (fuse_eq_ok hentry hf).symm
    exact picks_fusionOf hlocale hids hfirst
  refine ⟨fuse_eq_error hentry, ⟨fun h => ⟨fun htierless => ?_, fun c hc heligible => ?_⟩,
    fun h => ?_⟩, fun f hf => ⟨hsome f hf, fun candidates' hperm => ?_,
      fun hdefault hcrowd c hc heligible hfresh htier => ?_⟩⟩
  · obtain ⟨e, he⟩ := (fuse_eq_error hentry).mpr htierless
    rw [h] at he
    cases he
  · have hnone := Option.map_eq_none_iff.mp (fuse_eq_ok hentry h).symm
    rw [List.head?_eq_none_iff] at hnone
    have hmem : (⟨c, tierRank (entry.fusionTiers.getD fusionTiers) c⟩ : Ranked J) ∈
        Sorting.sortBy (ranksBefore env.localeLe) (candidates.filterMap
          (rankedOf (entry.fusionTiers.getD fusionTiers) property now)) :=
      Sorting.mem_sortBy.mpr (Iff.mpr mem_filterMap_rankedOf ⟨hc, heligible, rfl⟩)
    rw [hnone] at hmem
    cases hmem
  · obtain ⟨htold, hnone⟩ := h
    cases hresult : fuse env property candidates now with
    | error e => exact absurd ((fuse_eq_error hentry).mp ⟨e, hresult⟩) htold
    | ok result =>
      cases result with
      | none => rfl
      | some f =>
        have hpicks := hsome f hresult
        exact absurd hpicks.winner_eligible (hnone _ hpicks.winner_mem)
  · exact fuse_perm hentry hlocale.ordersBy (hlocale.separates hids) hperm hf
  · have hpicks := hsome f hf
    rw [hdefault] at hpicks
    refine hpicks.best c hc heligible ?_
    cases hstale : f.winner.stale with
    | true => exact Or.inl ⟨hfresh, hstale⟩
    | false =>
      exact Or.inr ⟨hfresh.trans hstale.symm, Or.inl (tierRank_authoritative_lt htier hcrowd)⟩

/-- A reading of a road's state. -/
def sampleReading (id origin result : String) (start : Instant) (tier : Option SourceTier)
    (evidence : Option EvidenceState) (stale : Bool) : FusionCandidate String where
  observation :=
    { id := id, property := "road_state", qualifiers := none, result := result,
      phenomenonTime := .instant ⟨"", start⟩, resultTime := none, validUntil := none,
      aggregation := "instant", temporality := "current", forecast := none, quality := none,
      provenance := ⟨origin, "feed", "bulk", ⟨"", none⟩, none, "public"⟩,
      expiresAt := some ⟨"", ⟨90, by decide⟩⟩ }
  sourceTier := tier
  evidence := evidence
  stale := stale

/-- Two feeds that agree, one that is stale, a crowd's report and one that has expired. -/
def sampleReadings : List (FusionCandidate String) :=
  [sampleReading "crowd" "crowd" "closed" ⟨80, by decide⟩ none (some .corroborated) false,
    sampleReading "b" "feed" "open" ⟨50, by decide⟩ (some .authoritative) none false,
    sampleReading "stale" "feed" "closed" ⟨60, by decide⟩ (some .authoritative) none true,
    sampleReading "gone" "crowd" "closed" ⟨80, by decide⟩ none (some .expired) false,
    sampleReading "a" "feed" "open" ⟨50, by decide⟩ (some .authoritative) none false]

/-- A registry of one property and the order of texts. -/
def sampleEnv : FusionEnv String where
  property p := if p = "road_state" then some ⟨none⟩ else none
  jcs v := v
  localeLe a b := decide (a ≤ b)

/-- The fresh feeds agree, and the one of the smaller id wins. -/
def sampleFusion : Fusion String :=
  ⟨sampleReading "a" "feed" "open" ⟨50, by decide⟩ (some .authoritative) none false,
    [sampleReading "a" "feed" "open" ⟨50, by decide⟩ (some .authoritative) none false,
      sampleReading "b" "feed" "open" ⟨50, by decide⟩ (some .authoritative) none false], false⟩

/-- The order of texts is a total order. -/
theorem sampleEnv_localeOrder : LocaleOrder sampleEnv.localeLe := by
  refine ⟨fun a b => ?_, fun a b c => ?_, fun a b => ?_⟩ <;>
    simp only [sampleEnv, decide_eq_true_eq]
  · exact String.le_total a b
  · exact String.le_trans
  · exact String.le_antisymm

/-- The fresh feed of the smaller id wins over the crowd's later report and the stale feed. -/
theorem fuse_picks_best_sample :
    Picks sampleEnv fusionTiers "road_state" ⟨85, by decide⟩ sampleReadings sampleFusion := by
  have hentry : sampleEnv.property "road_state" = some ⟨none⟩ := rfl
  have hids : (sampleReadings.map fun c => c.observation.id).Nodup := by decide +kernel
  have hfuse : fuse sampleEnv "road_state" sampleReadings ⟨85, by decide⟩ =
      .ok (some sampleFusion) := by rfl
  exact ((fuse_picks_best hentry sampleEnv_localeOrder hids).2.2 sampleFusion hfuse).1

end Picks

end OpenConditions.Fusion
